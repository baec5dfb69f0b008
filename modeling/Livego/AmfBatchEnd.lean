import Livego.AmfContents

/-! Where a batch of AMF0 ends. The plain `EOF` stands for the end of the batch, but it also comes out of a few values that
are cut off, and content that is cut off is no error at all. -/

namespace Livego

open Fallible Call

namespace Amf

open Decoding (left)

variable {α β : Type} {s : Decoding}

/-! ### What values of AMF0 take -/

theorem whole_decodeAmf0Number : Whole ∅ (decodeAmf0Number false) s := whole_readFloat64.mapErr _

theorem whole_assertMarker (m : UInt8) : Whole ∅ (assertMarker true m) s :=
  whole_readByte.bind_whole fun _ _ _ => .ite (fun _ => .fail _) fun _ => whole_pure ()

theorem whole_decodeAmf0Boolean : Whole ∅ (decodeAmf0Boolean false) s :=
  whole_readByte.bind_whole fun _ _ _ =>
    .ite (fun _ => whole_pure _) fun _ => .ite (fun _ => whole_pure _) fun _ => .fail _

theorem whole_decodeAmf0String : Whole ∅ (decodeAmf0String false) s :=
  ((whole_readUint 2).mapErr _).bind_whole fun length _ _ => (whole_readBytes length).mapErr _

theorem whole_decodeAmf0LongString : Whole ∅ (decodeAmf0LongString false) s :=
  ((whole_readUint 4).mapErr _).bind_whole fun length _ _ => (whole_readBytes length).mapErr _

theorem whole_decodeAmf0Date : Whole ∅ (decodeAmf0Date false) s :=
  (whole_decodeAmf0Number.mapErr _).bind_whole fun _ _ _ =>
    ((whole_readBytes 2).mapErr _).bind_whole fun _ _ _ => whole_pure _

section
variable (hvalue : ∀ t, t.left < s.left → CutAt ∅ (endings (.amf0, t)) (fun _ => True) decodeAmf0 t)
include hvalue

/-- An object ends with its end marker, whatever its values end with. -/
theorem whole_decodeAmf0Object {u : Decoding} (hle : u.left ≤ s.left) : Whole ∅ (decodeAmf0Object decodeAmf0 false) u := by
  have hμ := Consuming.decreases fun n => consuming_objectTurn (n := n) settled_decodeAmf0
  refine CutAt.loop (fun _ _ => ∅)
    (fun _ t => {c | ∃ key v, decodeAmf0String false t = .ok key v ∧ key ≠ [] ∧ c ∈ endings (.amf0, v)}) hμ
    (fun obj t hzero => ?_) (fun obj t hvisit => ?_) fun c hc => hc.elim
  · have hlength : Fails (readUint 2) t := ⟨_, _, readUint_of_lt (by omega)⟩
    exact ((hlength.mapErr _).bind _).bind _
  · have hle' : t.left ≤ u.left := Visits.le hμ hvisit
    refine whole_decodeAmf0String.bind_whole fun key v hkey => ?_
    have hlt : v.left < t.left := Consuming.lt_of_ok (fun _ => consuming_decodeAmf0String) hkey
    refine .ite (fun hnil => ?_) fun hne => ?_
    · have heq : {c | ∃ key v, decodeAmf0String false t = .ok key v ∧ key ≠ [] ∧ c ∈ endings (.amf0, v)} = ∅ := by
        refine Set.eq_empty_iff_forall_notMem.mpr fun c hc => ?_
        exact ((exists_ok_iff hkey).mp hc).1 hnil
      rw [heq]
      exact (((whole_assertMarker _).mapErr _).bind_whole fun _ _ _ => whole_pure _).imp fun _ => False.elim
    · have heq : {c | ∃ key v, decodeAmf0String false t = .ok key v ∧ key ≠ [] ∧ c ∈ endings (.amf0, v)} =
          endings (.amf0, v) := by
        ext c
        exact (exists_ok_iff hkey).trans (and_iff_right hne)
      rw [heq]
      refine ((hvalue v (by omega)).mapErr _).bind_idle (fun _ => .pure _) ?_
      rintro val w r w' - hr
      cases hr
      exact ⟨_, rfl⟩

/-- A strict array ends with what its last element ends with. -/
theorem cut_decodeAmf0StrictArray {E : Set Content} (hE : ∀ c, c ∈ E ↔ ∃ u k as v, readUint 4 s = .ok (k + 1) u ∧
      times decodeAmf0 k u = .ok as v ∧ c ∈ endings (.amf0, v)) :
    CutAt ∅ E (fun _ => True) (decodeAmf0StrictArray decodeAmf0 false) s := by
  rw [decodeAmf0StrictArray, assertMarker_false, Call.pure_bind]
  refine ((whole_readUint 4).mapErr _).bind_whole fun n u hlength => ?_
  have hlength := mapErr_eq_ok.mp hlength
  have hlt : u.left < s.left := Consuming.lt_of_ok (fun _ => consuming_readUint (by decide)) hlength
  have helements : CutAt ∅ E (fun as => as.length = n) (times decodeAmf0 n) u := by
    refine CutAt.times (Q := fun _ => True) (fun _ => ∅) (fun v => endings (.amf0, v))
      (fun v hzero => fails_decodeAmf0 hzero) (fun k _ as v has => ?_) (fun c hc => hc.elim) fun c => ?_
    · have hle : v.left ≤ u.left := Settled.le_of_ok (fun _ => settled_decodeAmf0.times k) has
      exact hvalue v (by omega)
    · rw [hE]
      constructor
      · rintro ⟨u', k, as, v, hlength', has, hc⟩
        obtain ⟨rfl, rfl⟩ := Outcome.ok.inj (hlength.symm.trans hlength')
        exact ⟨k, as, v, rfl, has, hc⟩
      · rintro ⟨k, as, v, rfl, has, hc⟩
        exact ⟨u, k, as, v, hlength, has, hc⟩
  exact (helements.of_imp (fun _ _ _ => times_mapErr_eq_ok) fun _ => fails_times_mapErr).imp fun _ _ => trivial

end

theorem not_endsIn_amf0 {marker : UInt8} {t : Decoding} (hmarker : readMarker s = .ok marker t)
    (hother : marker ≠ amf0AcmplusObjectMarker ∧ marker ≠ amf0StrictArrayMarker) : endings (.amf0, s) = ∅ := by
  refine Set.eq_empty_iff_forall_notMem.mpr fun c hc => ?_
  cases hc with
  | acmplus hmarker' _ => exact hother.1 (Outcome.ok.inj (hmarker.symm.trans hmarker')).1
  | strictArray hmarker' _ _ _ => exact hother.2 (Outcome.ok.inj (hmarker.symm.trans hmarker')).1

/-- The values of AMF0, where those that they hold are cut so. -/
theorem cut_amf0Value {marker : UInt8} {t : Decoding} (hmarker : readMarker s = .ok marker t)
    (hvalue : ∀ u, u.left < t.left → CutAt ∅ (endings (.amf0, u)) (fun _ => True) decodeAmf0 u) :
    CutAt ∅ (endings (.amf0, s)) (fun _ => True) (amf0Value decodeAmf0 marker) t := by
  have hwhole : ∀ {m} {y : Dec Value}, m ≠ amf0AcmplusObjectMarker ∧ m ≠ amf0StrictArrayMarker → Whole ∅ y t →
      marker = m → CutAt ∅ (endings (.amf0, s)) (fun _ => True) y t := by
    rintro m y hm hy rfl
    rw [not_endsIn_amf0 hmarker hm]
    exact hy.imp fun _ => False.elim
  refine .ite (hwhole (by decide) (whole_decodeAmf0Number.map _)) fun _ => ?_
  refine .ite (hwhole (by decide) (whole_decodeAmf0Boolean.map _)) fun _ => ?_
  refine .ite (hwhole (by decide) (whole_decodeAmf0String.map _)) fun _ => ?_
  refine .ite (hwhole (by decide) ((whole_decodeAmf0Object hvalue (Nat.le_refl _)).map _)) fun _ => ?_
  refine .ite (fun _ => .fail _) fun _ => ?_
  refine .ite (hwhole (by decide) (whole_pure _)) fun _ => ?_
  refine .ite (hwhole (by decide) (whole_pure _)) fun _ => ?_
  refine .ite (fun _ => .fail _) fun _ => ?_
  refine .ite (hwhole (by decide) (Whole.map (CutAt.of_imp ?_ (fun _ _ _ => ecmaArray_eq_ok) fun _ => fails_ecmaArray) _))
    fun _ => ?_
  · refine (whole_readUint 4).bind_whole fun n u hlength => ?_
    have hle : u.left ≤ t.left := Settled.le_of_ok (fun _ => settled_readUint 4) hlength
    exact (whole_decodeAmf0Object hvalue hle).mapErr _
  refine .ite (fun hm => ?_) fun _ => ?_
  · subst hm
    refine (cut_decodeAmf0StrictArray hvalue fun c => ?_).map _
    constructor
    · intro hc
      cases hc with
      | acmplus hmarker' _ => cases (Outcome.ok.inj (hmarker.symm.trans hmarker')).1
      | strictArray hmarker' hlength hvs h =>
          obtain ⟨-, rfl⟩ := Outcome.ok.inj (hmarker.symm.trans hmarker')
          exact ⟨_, _, _, _, hlength, hvs, h⟩
    · rintro ⟨u, k, as, v, hlength, has, hc⟩
      exact .strictArray hmarker hlength has hc
  refine .ite (hwhole (by decide) (whole_decodeAmf0Date.map _)) fun _ => ?_
  refine .ite (hwhole (by decide) (whole_decodeAmf0LongString.map _)) fun _ => ?_
  refine .ite (hwhole (by decide) (whole_pure _)) fun _ => ?_
  refine .ite (fun _ => .fail _) fun _ => ?_
  refine .ite (hwhole (by decide) (whole_decodeAmf0LongString.map _)) fun _ => ?_
  refine .ite (hwhole (by decide) ?_) fun _ => ?_
  · rw [decodeAmf0TypedObject, assertMarker_false, Call.pure_bind]
    refine CutAt.bind_whole (whole_decodeAmf0String.mapErr _) fun type u htype => ?_
    have htype := mapErr_eq_ok.mp htype
    have hle : u.left ≤ t.left := (Consuming.lt_of_ok (fun _ => consuming_decodeAmf0String) htype).le
    exact Whole.map ((whole_decodeAmf0Object hvalue hle).mapErr _) _
  refine .ite (fun hm => ?_) fun _ => .fail _
  subst hm
  have heq : endings (.amf0, s) = endings (.amf3, t) := by
    ext c
    constructor
    · intro hc
      cases hc with
      | acmplus hmarker' h =>
          obtain ⟨-, rfl⟩ := Outcome.ok.inj (hmarker.symm.trans hmarker')
          exact h
      | strictArray hmarker' _ _ _ => cases (Outcome.ok.inj (hmarker.symm.trans hmarker')).1
    · exact fun hc => .acmplus hmarker hc
  rw [heq]
  exact (cut_decodeAmf3 t).mono (Set.empty_subset _)

/-- What a value of AMF0 takes, and the content with which it ends: that of a value of AMF3 in it. -/
theorem cut_decodeAmf0 (s : Decoding) : CutAt ∅ (endings (.amf0, s)) (fun _ => True) decodeAmf0 s := by
  induction hn : s.left using Nat.strongRecOn generalizing s with
  | ind n ih =>
      rw [decodeAmf0_eq]
      refine whole_readByte.bind_whole fun marker t hmarker => cut_amf0Value hmarker fun u hu => ih u.left ?_ u rfl
      have hlt : t.left < s.left := Consuming.lt_of_ok (fun _ => consuming_readByte) hmarker
      omega

/-! ### Plain errors -/

/-- Whatever errors the call returns, the plain `EOF` is none of them. -/
def Wrapped (x : Dec α) : Prop := ∀ s t, x s ≠ .err .eof t

namespace Wrapped

variable {x y : Dec α} {f : α → Dec β}

theorem wrap (text : String) (x : Dec α) : Wrapped (wrap text x) := by
  intro s t h
  rw [Amf.wrap, Call.mapErr] at h
  cases hx : x s with
  | err e u => simp [hx] at h
  | ok a u => simp [hx] at h
  | panic p => simp [hx] at h
  | diverge => simp [hx] at h

theorem fail {text : String} : Wrapped (Call.fail (.errorf text) : Dec α) := by
  intro s t h
  cases h

theorem idle (hx : Idle x) : Wrapped x := by
  obtain ⟨g, hg⟩ := hx
  intro s t h
  cases (hg s).symm.trans h

theorem pure (a : α) : Wrapped (pure a : Dec α) := idle (.pure a)

theorem bind (hx : Wrapped x) (hf : ∀ a, Wrapped (f a)) : Wrapped (x >>= f) := by
  intro s t h
  rw [bind_apply] at h
  cases hxs : x s with
  | ok a u =>
      rw [hxs] at h
      exact hf a u t h
  | err e u =>
      rw [hxs] at h
      obtain ⟨rfl, rfl⟩ := Outcome.err.inj h
      exact hx s _ hxs
  | panic p => simp [hxs] at h
  | diverge => simp [hxs] at h

theorem ite_of {c : Prop} [Decidable c] (hx : c → Wrapped x) (hy : Wrapped y) : Wrapped (if c then x else y) := by
  split
  · next hc => exact hx hc
  · exact hy

theorem ite {c : Prop} [Decidable c] (hx : Wrapped x) (hy : Wrapped y) : Wrapped (if c then x else y) :=
  ite_of (fun _ => hx) hy

theorem times (hx : Wrapped x) (n : Nat) : Wrapped (Call.times x n) := by
  induction n with
  | zero => exact pure []
  | succ n ih => exact hx.bind fun a => ih.bind fun as => pure _

theorem loop {body : β → Dec (β ⊕ α)} (hbody : ∀ b, Wrapped (body b)) (fuel : Nat) (b : β) :
    Wrapped (Call.loop body fuel b) := by
  induction fuel generalizing b with
  | zero =>
      intro s t h
      cases h
  | succ fuel ih =>
      refine (hbody b).bind fun r => ?_
      cases r with
      | inl b' => exact ih b'
      | inr a => exact pure a

theorem index {γ : Type} (table : Decoder → List γ) (i : Nat) : Wrapped (index table i) := by
  intro s t h
  unfold Amf.index at h
  split at h <;> cases h

theorem get {f : Decoding → Dec β} (hf : ∀ s, Wrapped (f s)) : Wrapped (Call.get >>= f) := fun s t h => hf s s t h

end Wrapped

theorem wrapped_decodeAmf3String : Wrapped (decodeAmf3String false) := by
  rw [decodeAmf3String, assertMarker_false, Call.pure_bind]
  refine (Wrapped.wrap _ _).bind fun ref => .ite (.index _ _) ((Wrapped.wrap _ _).bind fun result => ?_)
  exact .ite (.bind (.idle (.record _)) fun _ => .pure _) (.pure _)

theorem wrapped_decodeAmf3Xml : Wrapped (decodeAmf3Xml false) := by
  have hmarker : assertXmlMarker false = pure () := rfl
  rw [decodeAmf3Xml, hmarker, Call.pure_bind]
  refine (Wrapped.wrap _ _).bind fun ref => .ite ((Wrapped.index _ _).bind fun v => ?_) ((Wrapped.wrap _ _).bind fun _ => ?_)
  · split
    · exact .pure _
    · exact .fail
  · exact .ite (.bind (.idle (.record _)) fun _ => .pure _) (.pure _)

theorem wrapped_decodeAmf3Date : Wrapped (decodeAmf3Date false) := by
  rw [decodeAmf3Date, assertMarker_false, Call.pure_bind]
  refine (Wrapped.wrap _ _).bind fun ref => .ite ((Wrapped.index _ _).bind fun v => ?_) ((Wrapped.wrap _ _).bind fun _ => ?_)
  · split
    · exact .pure _
    · exact .fail
  · exact .bind (.idle (.record _)) fun _ => .pure _

theorem wrapped_decodeAmf3ByteArray : Wrapped (decodeAmf3ByteArray false) := by
  rw [decodeAmf3ByteArray, assertMarker_false, Call.pure_bind]
  refine (Wrapped.wrap _ _).bind fun ref => .ite ((Wrapped.index _ _).bind fun v => ?_) ((Wrapped.wrap _ _).bind fun _ => ?_)
  · split
    · exact .pure _
    · exact .fail
  · exact .bind (.idle (.record _)) fun _ => .pure _

theorem wrapped_decodeAmf3Array (x : Dec Value) : Wrapped (decodeAmf3Array x false) := by
  rw [decodeAmf3Array, assertMarker_false, Call.pure_bind]
  refine (Wrapped.wrap _ _).bind fun ref =>
    .ite ((Wrapped.index _ _).bind fun v => ?_) ((Wrapped.wrap _ _).bind fun key => ?_)
  · split
    · exact .pure _
    · exact .fail
  · exact .ite .fail (((Wrapped.wrap _ _).times _).bind fun _ => .bind (.idle (.record _)) fun _ => .pure _)

theorem wrapped_decodeEntries (x : Dec Value) (keys : List (Bytes × String)) (obj : Object) :
    Wrapped (decodeEntries x keys obj) := by
  induction keys generalizing obj with
  | nil => exact .pure obj
  | cons key keys ih => exact (Wrapped.wrap _ _).bind fun val => ih _

theorem wrapped_decodeObjectBody (x : Dec Value) (trait : Trait) : Wrapped (decodeObjectBody x trait) := by
  refine .ite ?_ ((wrapped_decodeEntries x _ _).bind fun obj => .ite (.bind ?_ fun _ => .pure _) (.pure _))
  · refine .ite ((Wrapped.wrap _ _).bind fun _ => .pure _) (.ite ((Wrapped.wrap _ _).bind fun _ => .pure _) ?_)
    exact .ite ((Wrapped.wrap _ _).bind fun _ => .bind (.idle (.record _)) fun _ => .pure _) .fail
  · refine .get fun s => .loop (fun obj => (Wrapped.wrap _ _).bind fun key => ?_) _ _
    exact .ite (.pure _) ((Wrapped.wrap _ _).bind fun _ => .pure _)

theorem wrapped_decodeAmf3Object (x : Dec Value) : Wrapped (decodeAmf3Object x false) := by
  rw [decodeAmf3Object, assertMarker_false, Call.pure_bind]
  refine (Wrapped.wrap _ _).bind fun ref => .ite (.index _ _) (.bind ?_ fun trait => ?_)
  · refine .ite (.index _ _) ((Wrapped.wrap _ _).bind fun cls => ((Wrapped.wrap _ _).times _).bind fun _ => ?_)
    exact .bind (.idle (.record _)) fun _ => .pure _
  · exact .bind (.idle (.record _)) fun _ => wrapped_decodeObjectBody x trait

/-- Of the values of AMF3 only an integer hands on the plain error of the reader. -/
theorem wrapped_amf3Value {x : Dec Value} {marker : UInt8} (hmarker : marker ≠ amf3IntegerMarker) :
    Wrapped (amf3Value x marker) := by
  refine .ite (.pure _) (.ite (.pure _) ?_)
  refine .ite (.bind (.pure _) fun _ => .pure _) (.ite (.bind (.pure _) fun _ => .pure _) ?_)
  refine .ite_of (fun h => absurd h hmarker) (.ite (.bind (.wrap _ _) fun _ => .pure _) ?_)
  refine .ite (wrapped_decodeAmf3String.bind fun _ => .pure _) (.ite (wrapped_decodeAmf3Xml.bind fun _ => .pure _) ?_)
  refine .ite (wrapped_decodeAmf3Date.bind fun _ => .pure _) (.ite ((wrapped_decodeAmf3Array x).bind fun _ => .pure _) ?_)
  refine .ite (wrapped_decodeAmf3Object x) (.ite (wrapped_decodeAmf3Xml.bind fun _ => .pure _) ?_)
  exact .ite (wrapped_decodeAmf3ByteArray.bind fun _ => .pure _) .fail

theorem wrapped_decodeAmf0String : Wrapped (decodeAmf0String false) := (Wrapped.wrap _ _).bind fun _ => .wrap _ _

theorem wrapped_decodeAmf0LongString : Wrapped (decodeAmf0LongString false) := (Wrapped.wrap _ _).bind fun _ => .wrap _ _

theorem wrapped_objectTurn (x : Dec Value) (obj : Object) : Wrapped (objectTurn x obj) :=
  wrapped_decodeAmf0String.bind fun _ =>
    .ite ((Wrapped.wrap _ _).bind fun _ => .pure _) ((Wrapped.wrap _ _).bind fun _ => .pure _)

theorem wrapped_decodeAmf0Object (x : Dec Value) : Wrapped (decodeAmf0Object x false) := by
  rw [decodeAmf0Object, assertMarker_false, Call.pure_bind]
  exact .get fun _ => .loop (wrapped_objectTurn x) _ _

theorem wrapped_decodeAmf0EcmaArray (x : Dec Value) : Wrapped (decodeAmf0EcmaArray x false) := by
  have hattempt : Wrapped (readUint 4).attempt := by
    intro s t h
    rw [attempt] at h
    cases hr : readUint 4 s <;> simp [hr] at h
  exact hattempt.bind fun _ => .wrap _ _

/-- Of those of AMF0 only a boolean, and what follows the marker of AMF3. -/
theorem wrapped_amf0Value {x : Dec Value} {marker : UInt8} (hboolean : marker ≠ amf0BooleanMarker)
    (hacmplus : marker ≠ amf0AcmplusObjectMarker) : Wrapped (amf0Value x marker) := by
  refine .ite (.bind (.wrap _ _) fun _ => .pure _) (.ite_of (fun h => absurd h hboolean) ?_)
  refine .ite (wrapped_decodeAmf0String.bind fun _ => .pure _) (.ite ((wrapped_decodeAmf0Object x).bind fun _ => .pure _) ?_)
  refine .ite .fail (.ite (.pure _) (.ite (.pure _) (.ite .fail ?_)))
  refine .ite ((wrapped_decodeAmf0EcmaArray x).bind fun _ => .pure _) (.ite (.bind ?_ fun _ => .pure _) ?_)
  · exact (Wrapped.wrap _ _).bind fun _ => (Wrapped.wrap _ _).times _
  refine .ite (.bind ((Wrapped.wrap _ _).bind fun _ => (Wrapped.wrap _ _).bind fun _ => .pure _) fun _ => .pure _) ?_
  refine .ite (wrapped_decodeAmf0LongString.bind fun _ => .pure _) (.ite (.pure _) (.ite .fail ?_))
  refine .ite (wrapped_decodeAmf0LongString.bind fun _ => .pure _) (.ite ?_ (.ite_of (fun h => absurd h hacmplus) .fail))
  exact (Wrapped.wrap _ _).bind fun _ => (Wrapped.wrap _ _).bind fun _ => .pure _

/-- The call returns the plain `EOF`. -/
def EndsPlain (x : Dec α) (s : Decoding) : Prop := ∃ t, x s = .err .eof t

theorem endsPlain_bind {x : Dec α} {f : α → Dec β} (hf : ∀ a, Wrapped (f a)) :
    EndsPlain (x >>= f) s ↔ EndsPlain x s := by
  constructor
  · rintro ⟨t, h⟩
    rw [bind_apply] at h
    cases hx : x s with
    | ok a u =>
        rw [hx] at h
        exact absurd h (hf a u t)
    | err e u =>
        rw [hx] at h
        obtain ⟨rfl, rfl⟩ := Outcome.err.inj h
        exact ⟨_, hx⟩
    | panic p => simp [hx] at h
    | diverge => simp [hx] at h
  · rintro ⟨t, h⟩
    exact ⟨t, bind_of_err h⟩

variable {d : Decoder} {q : Bytes}

theorem readByte_nil : readByte ⟨d, ⟨.bytesReader, []⟩⟩ = .err .eof ⟨d, ⟨.bytesReader, []⟩⟩ := rfl

theorem readByte_cons (b : UInt8) : readByte ⟨d, ⟨.bytesReader, b :: q⟩⟩ = .ok b ⟨d, ⟨.bytesReader, q⟩⟩ := rfl

theorem decodeAmf3_nil : decodeAmf3 ⟨d, ⟨.bytesReader, []⟩⟩ = .err .eof ⟨d, ⟨.bytesReader, []⟩⟩ := by
  rw [decodeAmf3_eq]
  exact bind_of_err readByte_nil

theorem decodeAmf3_cons (marker : UInt8) :
    decodeAmf3 ⟨d, ⟨.bytesReader, marker :: q⟩⟩ = amf3Value decodeAmf3 marker ⟨d, ⟨.bytesReader, q⟩⟩ :=
  (congrFun decodeAmf3_eq _).trans (bind_of_ok (readByte_cons marker))

theorem decodeAmf0_nil : decodeAmf0 ⟨d, ⟨.bytesReader, []⟩⟩ = .err .eof ⟨d, ⟨.bytesReader, []⟩⟩ := by
  rw [decodeAmf0_eq]
  exact bind_of_err readByte_nil

theorem decodeAmf0_cons (marker : UInt8) :
    decodeAmf0 ⟨d, ⟨.bytesReader, marker :: q⟩⟩ = amf0Value decodeAmf0 marker ⟨d, ⟨.bytesReader, q⟩⟩ :=
  (congrFun decodeAmf0_eq _).trans (bind_of_ok (readByte_cons marker))

/-- The bytes are the beginning of a number of 29 bits, every one of them announcing another. -/
def Continuing (i : Nat) (cs : Bytes) : Prop := cs.length ≤ i ∧ ∀ b ∈ cs, b &&& 0x80 ≠ 0

theorem endsPlain_u29Loop {i result : Nat} :
    EndsPlain (u29Loop i result) ⟨d, ⟨.bytesReader, q⟩⟩ ↔ Continuing i q := by
  induction i generalizing result q with
  | zero =>
      cases q with
      | nil => exact iff_of_true ⟨_, bind_of_err readByte_nil⟩ ⟨Nat.le_refl _, fun b hb => by cases hb⟩
      | cons b q =>
          refine iff_of_false ?_ fun h => absurd h.1 (Nat.not_succ_le_zero _)
          rintro ⟨t, h⟩
          rw [u29Loop, bind_of_ok (readByte_cons b)] at h
          cases h
  | succ i ih =>
      cases q with
      | nil => exact iff_of_true ⟨_, bind_of_err readByte_nil⟩ ⟨Nat.zero_le _, fun b hb => by cases hb⟩
      | cons b q =>
          have hturn : u29Loop (i + 1) result ⟨d, ⟨.bytesReader, b :: q⟩⟩ =
              (if b &&& 0x80 = 0 then pure ((result <<< 7) + (b &&& 0x7f).toNat)
                else u29Loop i ((result <<< 7) + (b &&& 0x7f).toNat)) ⟨d, ⟨.bytesReader, q⟩⟩ := by
            rw [u29Loop, bind_of_ok (readByte_cons b)]
          unfold EndsPlain at ih ⊢
          rw [hturn]
          split_ifs with hend
          · refine iff_of_false ?_ fun h => h.2 b List.mem_cons_self hend
            rintro ⟨t, h⟩
            cases h
          · rw [ih, Continuing, Continuing, List.length_cons, Nat.succ_le_succ_iff, List.forall_mem_cons]
            exact and_congr_right fun _ => (and_iff_right hend).symm

theorem endsPlain_decodeAmf3 : EndsPlain decodeAmf3 ⟨d, ⟨.bytesReader, q⟩⟩ ↔
    q = [] ∨ ∃ cs, q = amf3IntegerMarker :: cs ∧ Continuing 3 cs := by
  unfold EndsPlain
  cases q with
  | nil => exact iff_of_true ⟨_, decodeAmf3_nil⟩ (.inl rfl)
  | cons marker q =>
      rw [decodeAmf3_cons]
      by_cases hm : marker = amf3IntegerMarker
      · subst hm
        have hvalue : EndsPlain (amf3Value decodeAmf3 amf3IntegerMarker) ⟨d, ⟨.bytesReader, q⟩⟩ ↔ Continuing 3 q :=
          ((endsPlain_bind fun _ => .pure _).trans (endsPlain_bind fun _ => .pure _)).trans endsPlain_u29Loop
        refine hvalue.trans ⟨fun h => .inr ⟨q, rfl, h⟩, ?_⟩
        rintro (h | ⟨cs, h, hcs⟩)
        · cases h
        · cases h
          exact hcs
      · refine iff_of_false ?_ ?_
        · rintro ⟨t, h⟩
          exact wrapped_amf3Value hm _ t h
        · rintro (h | ⟨cs, h, -⟩)
          · cases h
          · cases h
            exact hm rfl

/-- What is left of an input when its end is taken for the end of the batch. -/
def BareTail (q : Bytes) : Prop :=
  q = [amf0BooleanMarker] ∨ q = [amf0AcmplusObjectMarker] ∨
    ∃ cs, q = amf0AcmplusObjectMarker :: amf3IntegerMarker :: cs ∧ Continuing 3 cs

theorem endsPlain_decodeAmf0 : EndsPlain decodeAmf0 ⟨d, ⟨.bytesReader, q⟩⟩ ↔ q = [] ∨ BareTail q := by
  unfold EndsPlain
  cases q with
  | nil => exact iff_of_true ⟨_, decodeAmf0_nil⟩ (.inl rfl)
  | cons marker q =>
      rw [decodeAmf0_cons, or_iff_right (List.cons_ne_nil _ _)]
      by_cases hboolean : marker = amf0BooleanMarker
      · subst hboolean
        have hvalue : EndsPlain (amf0Value decodeAmf0 amf0BooleanMarker) ⟨d, ⟨.bytesReader, q⟩⟩ ↔ q = [] := by
          have hbody : decodeAmf0Boolean false = readByte >>= fun b => if b = 0 then pure false
              else if b = 1 then pure true
              else Call.fail (.errorf s!"decode amf0: unexpected value {b.toNat} for boolean") := rfl
          refine (endsPlain_bind fun _ => .pure _).trans ?_
          rw [hbody]
          refine (endsPlain_bind fun b => ?_).trans ?_
          · exact .ite (.pure _) (.ite (.pure _) .fail)
          · cases q with
            | nil => exact iff_of_true ⟨_, readByte_nil⟩ rfl
            | cons b q =>
                refine iff_of_false ?_ (List.cons_ne_nil _ _)
                rintro ⟨t, h⟩
                cases (readByte_cons b).symm.trans h
        refine hvalue.trans ?_
        simp [BareTail, amf0BooleanMarker, amf0AcmplusObjectMarker]
      · by_cases hacmplus : marker = amf0AcmplusObjectMarker
        · subst hacmplus
          have hvalue : EndsPlain (amf0Value decodeAmf0 amf0AcmplusObjectMarker) ⟨d, ⟨.bytesReader, q⟩⟩ ↔
              q = [] ∨ ∃ cs, q = amf3IntegerMarker :: cs ∧ Continuing 3 cs := endsPlain_decodeAmf3
          refine hvalue.trans ?_
          simp [BareTail, hboolean]
        · refine iff_of_false ?_ ?_
          · rintro ⟨t, h⟩
            exact wrapped_amf0Value hboolean hacmplus _ t h
          · simp [BareTail, hboolean, hacmplus]

/-! ### Batches -/

/-- The bytes are a value and nothing else: decoded in front of any others, they are taken and the others left. -/
def CompleteValue (d : Decoder) (bs : Bytes) (v : Value) (d' : Decoder) : Prop :=
  ∀ rest ≠ [], decodeAmf0 ⟨d, ⟨.bytesReader, bs ++ rest⟩⟩ = .ok v ⟨d', ⟨.bytesReader, rest⟩⟩

/-- Complete values, one after the other. -/
inductive Values : Decoder → Bytes → List Value → Decoder → Prop
  | nil (d : Decoder) : Values d [] [] d
  | cons {d d₁ d₂ : Decoder} {bs bs' : Bytes} {v : Value} {vs : List Value} (hv : CompleteValue d bs v d₁)
      (hvs : Values d₁ bs' vs d₂) : Values d (bs ++ bs') (v :: vs) d₂

/-- A batch that ends with the plain `EOF` is a sequence of complete values, and returns them all. -/
def CleanEnd (d : Decoder) (p : Bytes) : Prop :=
  ∀ vs t, decodeBatch 0 ⟨d, ⟨.bytesReader, p⟩⟩ = .ok (vs, .eof) t → ∃ d', Values d p vs d'

/-- What is left of an input that ends inside a value, where this is not told from its end: `BareTail`, or a value whose
last content is there only in part. -/
def CutTail (d : Decoder) (q : Bytes) : Prop :=
  BareTail q ∨ ∃ c, EndsIn (.amf0, ⟨d, ⟨.bytesReader, q⟩⟩) c ∧ c.Short ∧ 0 < c.start.left

theorem CompleteValue.ne_nil {bs : Bytes} {v : Value} {d' : Decoder} (h : CompleteValue d bs v d') : bs ≠ [] := by
  rintro rfl
  have hok : decode 0 ⟨d, ⟨.bytesReader, [0]⟩⟩ = .ok v ⟨d', ⟨.bytesReader, [0]⟩⟩ := h [0] (List.cons_ne_nil _ _)
  exact absurd (Consuming.lt_of_ok (fun _ => consuming_decode 0) hok) (Nat.lt_irrefl _)

/-- No byte more or less makes a complete value of the beginning of an input. -/
theorem CompleteValue.unique {bs bs' rest rest' : Bytes} {v v' : Value} {d₁ d₂ : Decoder} (h : CompleteValue d bs v d₁)
    (h' : CompleteValue d bs' v' d₂) (heq : bs ++ rest = bs' ++ rest') : v = v' ∧ d₁ = d₂ ∧ rest = rest' := by
  have hok := h (rest ++ [0]) (List.append_ne_nil_of_right_ne_nil _ (List.cons_ne_nil _ _))
  have hok' := h' (rest' ++ [0]) (List.append_ne_nil_of_right_ne_nil _ (List.cons_ne_nil _ _))
  rw [← List.append_assoc] at hok hok'
  rw [← heq, hok] at hok'
  obtain ⟨hv, hstate⟩ := Outcome.ok.inj hok'
  obtain ⟨hd, hr⟩ := Decoding.mk.inj hstate
  exact ⟨hv, hd, List.append_cancel_right (Reader.mk.inj hr).2⟩

theorem Values.rest {bs tail : Bytes} {vs ws : List Value} {d' e : Decoder} (h : Values d bs vs d')
    (hall : Values d (bs ++ tail) ws e) : ∃ ws', Values d' tail ws' e := by
  generalize hp : bs ++ tail = p at hall
  induction h generalizing p ws with
  | nil d =>
      cases hp
      exact ⟨ws, hall⟩
  | @cons d d₁ d₂ bs bs' v vs hv hvs ih =>
      rw [List.append_assoc] at hp
      cases hall with
      | nil => exact absurd (List.append_eq_nil_iff.mp hp).1 hv.ne_nil
      | cons hv' hvs' =>
          obtain ⟨-, rfl, rfl⟩ := hv.unique hv' hp
          exact ih _ rfl hvs'

theorem u29Loop_continuing {i result : Nat} {cs : Bytes} (h : Continuing i cs) :
    ∃ n, u29Loop i result ⟨d, ⟨.bytesReader, cs ++ [0]⟩⟩ = .ok n ⟨d, ⟨.bytesReader, []⟩⟩ := by
  induction i generalizing result cs with
  | zero =>
      obtain rfl : cs = [] := List.length_eq_zero_iff.mp (Nat.le_zero.mp h.1)
      exact ⟨_, bind_of_ok (readByte_cons 0)⟩
  | succ i ih =>
      cases cs with
      | nil => exact ⟨_, bind_of_ok (readByte_cons 0)⟩
      | cons b cs =>
          obtain ⟨n, hn⟩ := @ih ((result <<< 7) + (b &&& 0x7f).toNat) cs
            ⟨Nat.le_of_succ_le_succ h.1, fun b' hb' => h.2 b' (List.mem_cons_of_mem b hb')⟩
          refine ⟨n, ?_⟩
          rw [u29Loop, List.cons_append, bind_of_ok (readByte_cons b), if_neg (h.2 b List.mem_cons_self), hn]

/-- One more byte makes a value of what is left. -/
theorem BareTail.completed {q : Bytes} (h : BareTail q) (d : Decoder) :
    ∃ z v, decodeAmf0 ⟨d, ⟨.bytesReader, q ++ [z]⟩⟩ = .ok v ⟨d, ⟨.bytesReader, []⟩⟩ := by
  rcases h with rfl | rfl | ⟨cs, rfl, hcs⟩
  · exact ⟨0, .bool false, decodeAmf0_cons _⟩
  · exact ⟨amf3NullMarker, .null, (decodeAmf0_cons _).trans (decodeAmf3_cons _)⟩
  · obtain ⟨n, hn⟩ := @u29Loop_continuing d 3 0 cs hcs
    exact ⟨0, _, (decodeAmf0_cons _).trans ((decodeAmf3_cons _).trans (bind_of_ok (bind_of_ok hn)))⟩

/-! ### Content that is short is no error -/

/-- The function returns no error. -/
def Succeeds : Site × Decoding → Prop
  | (.amf3, s) => ∃ v t, decodeAmf3 s = .ok v t
  | (.amf0, s) => ∃ v t, decodeAmf0 s = .ok v t
  | (.amf3Array, s) => ∃ a t, decodeAmf3Array decodeAmf3 false s = .ok a t
  | (.amf3Object, s) => ∃ v t, decodeAmf3Object decodeAmf3 false s = .ok v t
  | (.body trait, s) => ∃ v t, decodeObjectBody decodeAmf3 trait s = .ok v t
  | (.external fieldSets, s) => ∀ obj, ∃ obj' t, decodeExternal decodeAmf3 obj fieldSets s = .ok obj' t
  | _ => True

theorem times_snoc_ok {x : Dec α} {k : Nat} {as : List α} {t u : Decoding} {a : α} (has : times x k s = .ok as t)
    (ha : x t = .ok a u) : times x (k + 1) s = .ok (as ++ [a]) u := by
  induction k generalizing s as with
  | zero =>
      cases has
      rw [times, bind_of_ok ha]
      rfl
  | succ k ih =>
      obtain ⟨b, v, hb, hrest⟩ := bind_eq_ok.mp has
      obtain ⟨bs, w, hbs, hpure⟩ := bind_eq_ok.mp hrest
      cases hpure
      rw [times, bind_of_ok hb, bind_of_ok (ih hbs)]
      rfl

theorem decodeEntries_ok {keys : List (Bytes × String)} {obj : Object} {k : Nat} {vs : List Value} {t u : Decoding}
    {v : Value} (hk : keys.length = k + 1) (hvs : times decodeAmf3 k s = .ok vs t) (hv : decodeAmf3 t = .ok v u) :
    decodeEntries decodeAmf3 keys obj s = .ok (insertAll obj keys (vs ++ [v])) u := by
  rw [decodeEntries_eq_ok, hk, bind_of_ok (times_snoc_ok hvs hv)]
  rfl

theorem fill_ok {kept : Bool} {c : Content} (hc : c ∈ inlineContent kept s) (hpos : 0 < c.start.left) :
    decodeReferenceInt s = .ok ⟨false, c.length⟩ c.start ∧ ∃ bs t, fill c.length c.start = .ok bs t := by
  refine ⟨hc.2, _, _, bind_of_ok (read_of_not_nil ?_)⟩
  rintro ⟨hnil, -⟩
  exact absurd (List.length_eq_zero_iff.mpr hnil) hpos.ne'

theorem wrap_ok {x : Dec α} {a : α} {t : Decoding} (h : x s = .ok a t) (text : String) : wrap text x s = .ok a t :=
  mapErr_of_ok h

theorem ref_ok {context : String} {f : ReferenceInt → Dec α} {n : Nat} {t : Decoding}
    (href : decodeReferenceInt s = .ok ⟨false, n⟩ t) : (wrap context decodeReferenceInt >>= f) s = f ⟨false, n⟩ t :=
  bind_of_ok (wrap_ok href context)

/-- What is content is read, with zeros for what is not there. -/
theorem inlineContent_ok {c : Content} {kept : Bool} (hc : c ∈ inlineContent kept s) (hpos : 0 < c.start.left) :
    (∃ bs t, decodeAmf3String false s = .ok bs t) ∧ (∃ bs t, decodeAmf3Xml false s = .ok bs t) ∧
      ∃ bs t, decodeAmf3ByteArray false s = .ok bs t := by
  obtain ⟨href, bs, t, hfill⟩ := fill_ok hc hpos
  have hfilled : ∀ {context : String} {f : Bytes → Dec Bytes}, (wrap context (fill c.length) >>= f) c.start = f bs t :=
    fun {_ _} => bind_of_ok (mapErr_of_ok hfill)
  refine ⟨?_, ?_, ?_⟩
  · refine ⟨bs, if bs ≠ [] then ⟨{ t.decoder with stringRefs := t.decoder.stringRefs ++ [bs] }, t.r⟩ else t, ?_⟩
    rw [decodeAmf3String, assertMarker_false, Call.pure_bind, ref_ok href, if_neg Bool.false_ne_true, hfilled]
    split_ifs <;> rfl
  · have hmarker : assertXmlMarker false = pure () := rfl
    refine ⟨bs, if bs ≠ [] then ⟨{ t.decoder with objectRefs := t.decoder.objectRefs ++ [.string bs] }, t.r⟩ else t, ?_⟩
    rw [decodeAmf3Xml, hmarker, Call.pure_bind, ref_ok href, if_neg Bool.false_ne_true, hfilled]
    split_ifs <;> rfl
  · refine ⟨bs, ⟨{ t.decoder with objectRefs := t.decoder.objectRefs ++ [.bytes bs] }, t.r⟩, ?_⟩
    rw [decodeAmf3ByteArray, assertMarker_false, Call.pure_bind, ref_ok href, if_neg Bool.false_ne_true, hfilled]
    rfl

/-- A function that ends with content of which there is anything succeeds. -/
theorem EndsIn.succeeds {site : Site × Decoding} {c : Content} (h : EndsIn site c) (hpos : 0 < c.start.left) :
    Succeeds site := by
  induction h with
  | value hmarker hkind hc =>
      obtain ⟨⟨bs, t, hstring⟩, ⟨bs', t', hxml⟩, bs'', t'', hbytes⟩ := inlineContent_ok hc hpos
      have hvalue := (congrFun decodeAmf3_eq _).trans (bind_of_ok hmarker)
      rcases hkind with rfl | rfl | rfl | rfl
      · exact ⟨_, _, hvalue.trans (bind_of_ok hstring)⟩
      · exact ⟨_, _, hvalue.trans (bind_of_ok hxml)⟩
      · exact ⟨_, _, hvalue.trans (bind_of_ok hxml)⟩
      · exact ⟨_, _, hvalue.trans (bind_of_ok hbytes)⟩
  | marker hmarker hsite h ih =>
      have hvalue := (congrFun decodeAmf3_eq _).trans (bind_of_ok hmarker)
      unfold siteOf at hsite
      split_ifs at hsite with hstring hstored harray hobject
      · cases hsite
        cases h
      · cases hsite
        cases h
      · subst harray
        cases hsite
        obtain ⟨vs, u, hvs⟩ := ih hpos
        exact ⟨_, _, hvalue.trans (bind_of_ok hvs)⟩
      · subst hobject
        cases hsite
        obtain ⟨v, u, hv⟩ := ih hpos
        exact ⟨v, u, hvalue.trans hv⟩
  | @element s t u' w k vs c href hkey hvs _ ih =>
      obtain ⟨v, u, hv⟩ := ih hpos
      have helements : ∀ text, (wrap text decodeAmf3).times (k + 1) u' = .ok (vs ++ [v]) u := fun _ =>
        times_mapErr_eq_ok.mpr (times_snoc_ok hvs hv)
      refine ⟨vs ++ [v], ⟨{ u.decoder with objectRefs := u.decoder.objectRefs ++ [.array (vs ++ [v])] }, u.r⟩, ?_⟩
      rw [decodeAmf3Array, assertMarker_false, Call.pure_bind, ref_ok href, if_neg Bool.false_ne_true,
        bind_of_ok (wrap_ok hkey _), if_neg (not_not.mpr rfl), bind_of_ok (helements _)]
      rfl
  | @className s t n c href hn hplain hc =>
      obtain ⟨⟨cls, u, hcls⟩, -⟩ := inlineContent_ok hc hpos
      have htrait : decodeTrait n t =
          .ok { type := cls } ⟨{ u.decoder with traitRefs := u.decoder.traitRefs ++ [{ type := cls }] }, u.r⟩ := by
        rw [decodeTrait, if_neg hn, bind_of_ok (wrap_ok hcls _)]
        simp only [hplain]
        rfl
      refine ⟨.object [], ⟨{ u.decoder with
        traitRefs := u.decoder.traitRefs ++ [{ type := cls }], objectRefs := u.decoder.objectRefs ++ [.null] }, u.r⟩, ?_⟩
      rw [decodeAmf3Object, assertMarker_false, Call.pure_bind, ref_ok href, if_neg Bool.false_ne_true, bind_of_ok htrait]
      rfl
  | body href htrait hpush _ ih =>
      obtain ⟨v, u, hv⟩ := ih hpos
      refine ⟨v, u, ?_⟩
      rw [decodeAmf3Object, assertMarker_false, Call.pure_bind, ref_ok href, if_neg Bool.false_ne_true, bind_of_ok htrait,
        bind_of_ok hpush, hv]
  | collection hext htype _ ih =>
      obtain ⟨v, u, hv⟩ := ih hpos
      refine ⟨v, ⟨{ u.decoder with objectRefs := u.decoder.objectRefs ++ [v] }, u.r⟩, ?_⟩
      rw [decodeObjectBody, if_pos hext, decodeExternalizable, htype, if_neg (by decide), if_neg (by decide), if_pos rfl,
        decodeArrayCollection, bind_of_ok (wrap_ok (wrap_ok hv _) _)]
      rfl
  | asyncFields hext htype hobj _ ih =>
      obtain ⟨obj', u, hfields⟩ := ih hpos _
      refine ⟨.object obj', u, ?_⟩
      have hasync : decodeAsyncMessage decodeAmf3 _ = .ok obj' u :=
        (bind_of_ok (mapErr_of_ok hobj)).trans (mapErr_of_ok hfields)
      rw [decodeObjectBody, if_pos hext, decodeExternalizable, htype, if_pos rfl]
      exact bind_of_ok (mapErr_of_ok hasync)
  | acknowledgeFields hext htype hobj _ ih =>
      obtain ⟨obj', u, hfields⟩ := ih hpos _
      refine ⟨.object obj', u, ?_⟩
      have hack : decodeAcknowledgeMessage decodeAmf3 _ = .ok obj' u :=
        (bind_of_ok (mapErr_of_ok hobj)).trans (mapErr_of_ok hfields)
      rw [decodeObjectBody, if_pos hext, decodeExternalizable, htype, if_neg (by decide), if_pos rfl]
      exact bind_of_ok (mapErr_of_ok hack)
  | @property s t trait k vs c hext hdyn hk hvs _ ih =>
      obtain ⟨v, u, hv⟩ := ih hpos
      refine ⟨.object (insertAll [] trait.keys (vs ++ [v])), u, ?_⟩
      rw [decodeObjectBody, hext, hdyn, if_neg Bool.false_ne_true, bind_of_ok (decodeEntries_ok hk hvs hv)]
      rfl
  | field hflags hk hvs _ ih =>
      obtain ⟨v, u, hv⟩ := ih hpos
      exact fun obj => ⟨_, _, (bind_of_ok (mapErr_of_ok hflags)).trans (decodeEntries_ok hk hvs hv)⟩
  | acmplus hmarker _ ih =>
      obtain ⟨v, u, hv⟩ := ih hpos
      exact ⟨v, u, (congrFun decodeAmf0_eq _).trans ((bind_of_ok hmarker).trans hv)⟩
  | @strictArray s t u' w k vs c hmarker hlength hvs _ ih =>
      obtain ⟨v, u, hv⟩ := ih hpos
      have harray : decodeAmf0StrictArray decodeAmf0 false t = .ok (vs ++ [v]) u := by
        rw [decodeAmf0StrictArray, assertMarker_false, Call.pure_bind, bind_of_ok (wrap_ok hlength _)]
        exact times_mapErr_eq_ok.mpr (times_snoc_ok hvs hv)
      exact ⟨_, _, (congrFun decodeAmf0_eq _).trans ((bind_of_ok hmarker).trans (bind_of_ok harray))⟩

/-! ### The end of a batch -/

theorem CutTail.ne_nil (h : CutTail d q) : q ≠ [] := by
  rintro rfl
  rcases h with (h | h | ⟨cs, h, -⟩) | ⟨c, hc, hshort, hpos⟩
  · cases h
  · cases h
  · cases h
  · obtain ⟨v, t, hv⟩ : ∃ v t, decodeAmf0 ⟨d, ⟨.bytesReader, []⟩⟩ = .ok v t := hc.succeeds hpos
    cases decodeAmf0_nil.symm.trans hv

/-- What is cut is no complete value, whatever more it is followed by. -/
theorem CutTail.not_complete {bs rest : Bytes} {v : Value} {d' : Decoder} (h : CutTail d (bs ++ rest)) :
    ¬CompleteValue d bs v d' := by
  intro hv
  rcases h with hbare | ⟨c, hc, hshort, hpos⟩
  · by_cases hrest : rest = []
    · subst hrest
      rw [List.append_nil] at hbare
      obtain ⟨z, v', hok⟩ := hbare.completed d
      cases (hv [z] (List.cons_ne_nil _ _)).symm.trans hok
    · obtain ⟨t, herr⟩ := endsPlain_decodeAmf0.mpr (.inr hbare)
      cases (hv rest hrest).symm.trans herr
  · obtain ⟨v', t, hok⟩ : ∃ v t, decodeAmf0 ⟨d, ⟨.bytesReader, bs ++ rest⟩⟩ = .ok v t := hc.succeeds hpos
    obtain ⟨k, m, hrun⟩ := cut_decodeAmf0 _ v' t hok
    have hzero := hrun.left_eq_zero hc hshort
    have hleft := hrun.left_eq
    have hle := hrun.le
    have hsize : (⟨d, ⟨.bytesReader, bs ++ rest⟩⟩ : Decoding).left = (bs ++ rest).length := rfl
    have hk : k = (bs ++ rest).length := by omega
    -- A byte after it is taken for content.
    have hagrees : Agrees k ⟨d, ⟨.bytesReader, bs ++ rest⟩⟩ ⟨d, ⟨.bytesReader, bs ++ (rest ++ [0])⟩⟩ := by
      refine ⟨rfl, rfl, ?_⟩
      change (bs ++ (rest ++ [0])).take k <+: (bs ++ rest).take k
      rw [← List.append_assoc, hk, List.take_left, List.take_length]
    have hok' := hv (rest ++ [0]) (List.append_ne_nil_of_right_ne_nil _ (List.cons_ne_nil _ _))
    have hmore := hrun.more ⟨c, hc, hshort⟩ _ hagrees (by simp [left, hk]) v _ hok'
    simp only [left, List.length_append, List.length_singleton] at hmore hk
    omega

/-- A value that is not short is complete. -/
theorem complete_of_ok {p : Bytes} {v : Value} {t : Decoding} (hok : decodeAmf0 ⟨d, ⟨.bytesReader, p⟩⟩ = .ok v t)
    (hwhole : ∀ c ∈ endings (.amf0, ⟨d, ⟨.bytesReader, p⟩⟩), ¬c.Short) :
    ∃ k ≤ p.length, t.r = ⟨.bytesReader, p.drop k⟩ ∧ CompleteValue d (p.take k) v t.decoder := by
  obtain ⟨k, m, hrun⟩ := cut_decodeAmf0 _ v t hok
  have hle : k ≤ p.length := hrun.le
  refine ⟨k, hle, hrun.reader, fun rest hne => ?_⟩
  have hlength : (p.take k).length = k := List.length_take_of_le hle
  have hagrees : Agrees k ⟨d, ⟨.bytesReader, p⟩⟩ ⟨d, ⟨.bytesReader, p.take k ++ rest⟩⟩ := by
    refine ⟨rfl, rfl, ?_⟩
    rw [List.take_left' hlength]
  have hpos : 0 < rest.length := List.length_pos_iff.mpr hne
  have hsize : (⟨d, ⟨.bytesReader, p.take k ++ rest⟩⟩ : Decoding).left = k + rest.length := by
    simp [left, hle]
  rcases hrun.same hwhole _ hagrees (by omega) with hsame | ⟨heq, -, -⟩
  · rw [hsame, Decoding.skip]
    simp [List.drop_left' hlength]
  · omega

theorem EndsIn.pos {c : Content} {v : Value} {t : Decoding} (h : EndsIn (.amf0, s) c) (hshort : c.Short)
    (hok : decodeAmf0 s = .ok v t) : 0 < c.start.left := by
  obtain ⟨k, m, hrun⟩ := cut_decodeAmf0 s v t hok
  unfold Content.Short at hshort
  obtain ⟨hpos, hstart, -⟩ := hrun.last c h (by omega)
  omega

/-- A batch that goes on up to the plain `EOF`, from the values that it already has. -/
theorem values_of_batch {p : Bytes} {ret vs : List Value} {t : Decoding}
    (hok : (Call.get >>= fun s => Call.loop (batchTurn 0) (left s + 1) ret) ⟨d, ⟨.bytesReader, p⟩⟩ = .ok (vs, .eof) t)
    (hwhole : ∀ bs tail us d', p = bs ++ tail → Values d bs us d' → ¬CutTail d' tail) :
    ∃ us d', vs = ret ++ us ∧ Values d p us d' := by
  induction hn : p.length using Nat.strongRecOn generalizing p ret d with
  | ind n ih =>
      rw [get_bind_apply, loop_turn (decreases_batchTurn 0)] at hok
      have hhere := hwhole [] p [] d rfl (.nil d)
      cases hdecode : decodeAmf0 ⟨d, ⟨.bytesReader, p⟩⟩ with
      | ok v u =>
          have hturn : batchTurn 0 ret ⟨d, ⟨.bytesReader, p⟩⟩ = .ok (.inl (ret ++ [v])) u :=
            bind_of_ok (attempt_of_ok hdecode)
          rw [hturn] at hok
          obtain ⟨k, hle, hreader, hv⟩ := complete_of_ok hdecode fun c hc hshort =>
            hhere (.inr ⟨c, hc, hshort, hc.pos hshort hdecode⟩)
          obtain ⟨e, r⟩ := u
          obtain rfl : r = ⟨.bytesReader, p.drop k⟩ := hreader
          have hpos : 0 < (p.take k).length := List.length_pos_iff.mpr hv.ne_nil
          have hlt : (p.drop k).length < n := by
            rw [List.length_take] at hpos
            rw [List.length_drop]
            omega
          have hrest : ∀ bs tail us d', p.drop k = bs ++ tail → Values e bs us d' → ¬CutTail d' tail := by
            intro bs tail us d' heq hus
            refine hwhole (p.take k ++ bs) tail (v :: us) d' ?_ (.cons hv hus)
            rw [List.append_assoc, ← heq, List.take_append_drop]
          obtain ⟨us, d', rfl, hus⟩ := ih _ hlt hok hrest rfl
          refine ⟨v :: us, d', by rw [List.append_assoc, List.singleton_append], ?_⟩
          have hall := Values.cons hv hus
          rwa [List.take_append_drop] at hall
      | err e u =>
          have hturn : batchTurn 0 ret ⟨d, ⟨.bytesReader, p⟩⟩ = .ok (.inr (ret, e)) u :=
            bind_of_ok (attempt_of_err hdecode)
          rw [hturn] at hok
          cases hok
          rcases endsPlain_decodeAmf0.mp ⟨t, hdecode⟩ with rfl | hbare
          · exact ⟨[], d, (List.append_nil _).symm, .nil d⟩
          · exact absurd (.inl hbare) hhere
      | panic b =>
          have hturn : batchTurn 0 ret ⟨d, ⟨.bytesReader, p⟩⟩ = .panic b := by
            rw [batchTurn, bind_apply, attempt, decode, if_pos rfl, hdecode]
          rw [hturn] at hok
          cases hok
      | diverge =>
          have hturn : batchTurn 0 ret ⟨d, ⟨.bytesReader, p⟩⟩ = .diverge := by
            rw [batchTurn, bind_apply, attempt, decode, if_pos rfl, hdecode]
          rw [hturn] at hok
          cases hok

/-- A tail that is cut ends the batch with the plain `EOF`, after whatever complete values. -/
theorem batch_of_values {bs tail : Bytes} {vs ret : List Value} {d' : Decoder} (h : Values d bs vs d')
    (hcut : CutTail d' tail) :
    ∃ ws t, (Call.get >>= fun s => Call.loop (batchTurn 0) (left s + 1) ret) ⟨d, ⟨.bytesReader, bs ++ tail⟩⟩ =
      .ok (ws, .eof) t := by
  induction h generalizing ret with
  | nil d =>
      rcases hcut with hbare | ⟨c, hc, hshort, hpos⟩
      · obtain ⟨t, herr⟩ : EndsPlain decodeAmf0 ⟨d, ⟨.bytesReader, tail⟩⟩ := endsPlain_decodeAmf0.mpr (.inr hbare)
        have hturn : batchTurn 0 ret ⟨d, ⟨.bytesReader, tail⟩⟩ = .ok (.inr (ret, .eof)) t :=
          bind_of_ok (attempt_of_err herr)
        refine ⟨ret, t, ?_⟩
        rw [List.nil_append, get_bind_apply, loop_turn (decreases_batchTurn 0), hturn]
      · obtain ⟨v, u, hv⟩ : ∃ v t, decodeAmf0 ⟨d, ⟨.bytesReader, tail⟩⟩ = .ok v t := hc.succeeds hpos
        obtain ⟨k, m, hrun⟩ := cut_decodeAmf0 _ v u hv
        have hnil : u.r.unread = [] := List.length_eq_zero_iff.mp (hrun.left_eq_zero hc hshort)
        have hu : u = ⟨u.decoder, ⟨.bytesReader, []⟩⟩ := by
          obtain ⟨e, r⟩ := u
          obtain rfl : r = ⟨.bytesReader, tail.drop k⟩ := hrun.reader
          exact congrArg (fun bs => (⟨e, ⟨.bytesReader, bs⟩⟩ : Decoding)) hnil
        have hturn : batchTurn 0 ret ⟨d, ⟨.bytesReader, tail⟩⟩ = .ok (.inl (ret ++ [v])) u :=
          bind_of_ok (attempt_of_ok hv)
        have hend : batchTurn 0 (ret ++ [v]) u = .ok (.inr (ret ++ [v], .eof)) u := by
          rw [hu]
          exact bind_of_ok (attempt_of_err decodeAmf0_nil)
        refine ⟨ret ++ [v], u, ?_⟩
        rw [List.nil_append, get_bind_apply, loop_turn (decreases_batchTurn 0), hturn]
        dsimp only
        rw [loop_turn (decreases_batchTurn 0), hend]
  | @cons d d₁ d₂ bs bs' v vs hv hvs ih =>
      obtain ⟨ws, t, hok⟩ := @ih (ret ++ [v]) hcut
      have hne : bs' ++ tail ≠ [] := List.append_ne_nil_of_right_ne_nil _ hcut.ne_nil
      have hturn : batchTurn 0 ret ⟨d, ⟨.bytesReader, bs ++ (bs' ++ tail)⟩⟩ =
          .ok (.inl (ret ++ [v])) ⟨d₁, ⟨.bytesReader, bs' ++ tail⟩⟩ := bind_of_ok (attempt_of_ok (hv _ hne))
      refine ⟨ws, t, ?_⟩
      rw [get_bind_apply] at hok
      rw [List.append_assoc, get_bind_apply, loop_turn (decreases_batchTurn 0), hturn]
      exact hok

/-- No complete values are made of those before a tail that is cut, and the tail. -/
theorem CutTail.not_values {bs tail : Bytes} {vs ws : List Value} {d' e : Decoder} (hcut : CutTail d' tail)
    (h : Values d bs vs d') : ¬Values d (bs ++ tail) ws e := by
  intro hall
  obtain ⟨ws', htail⟩ := h.rest hall
  generalize hq : tail = q at htail
  cases htail with
  | nil => exact hcut.ne_nil hq
  | cons hv _ =>
      subst hq
      exact hcut.not_complete hv

/-- A batch ends cleanly exactly where no complete values are followed by a tail that is cut so. -/
theorem cleanEnd_iff (d : Decoder) (p : Bytes) :
    CleanEnd d p ↔ ∀ bs tail vs d', p = bs ++ tail → Values d bs vs d' → ¬CutTail d' tail := by
  constructor
  · rintro hclean bs tail vs d' rfl hvs hcut
    obtain ⟨ws, t, hok⟩ : ∃ ws t, decodeBatch 0 ⟨d, ⟨.bytesReader, bs ++ tail⟩⟩ = .ok (ws, .eof) t :=
      batch_of_values hvs hcut
    obtain ⟨e, hall⟩ := hclean ws t hok
    exact hcut.not_values hvs hall
  · intro hwhole vs t hok
    obtain ⟨us, d', rfl, hus⟩ := values_of_batch hok hwhole
    exact ⟨d', hus⟩

/-- A string, then a boolean without its byte or a string of AMF3 without its last byte. -/
theorem batch_cut_clean :
    decodeBatch 0 (fresh [0x02, 0x00, 0x01, 0x61, 0x01]) = .ok ([.string (lit "a")], .eof) (fresh []) ∧
      ¬CleanEnd {} [0x02, 0x00, 0x01, 0x61, 0x01] ∧
      decodeBatch 0 (fresh [0x02, 0x00, 0x01, 0x61, 0x11, 0x06, 0x05, 0x61]) =
        .ok ([.string (lit "a"), .string [0x61, 0x00]], .eof) ⟨{ stringRefs := [[0x61, 0x00]] }, ⟨.bytesReader, []⟩⟩ ∧
      ¬CleanEnd {} [0x02, 0x00, 0x01, 0x61, 0x11, 0x06, 0x05, 0x61] := by
  have hboolean : decodeBatch 0 (fresh [0x02, 0x00, 0x01, 0x61, 0x01]) = .ok ([.string (lit "a")], .eof) (fresh []) := rfl
  have hamf3 : decodeBatch 0 (fresh [0x02, 0x00, 0x01, 0x61, 0x11, 0x06, 0x05, 0x61]) =
      .ok ([.string (lit "a"), .string [0x61, 0x00]], .eof) ⟨{ stringRefs := [[0x61, 0x00]] }, ⟨.bytesReader, []⟩⟩ := rfl
  have hdecode : decodeAmf0 (fresh [0x02, 0x00, 0x01, 0x61]) = .ok (.string (lit "a")) (fresh []) := rfl
  have hwhole : endings (.amf0, fresh [0x02, 0x00, 0x01, 0x61]) = ∅ :=
    not_endsIn_amf0 (t := fresh [0x00, 0x01, 0x61]) rfl (by decide)
  obtain ⟨k, hle, hreader, hcomplete⟩ := complete_of_ok hdecode fun c hc => by
    change c ∈ endings (.amf0, fresh _) at hc
    rw [hwhole] at hc
    exact hc.elim
  have hdrop := (Reader.mk.inj hreader).2
  obtain rfl : k = 4 := Nat.le_antisymm hle (List.drop_eq_nil_iff.mp hdrop.symm)
  have hvalues := Values.cons hcomplete (.nil {})
  have hstring : Values {} [0x02, 0x00, 0x01, 0x61] [.string (lit "a")] {} := hvalues
  refine ⟨hboolean, fun h => ?_, hamf3, fun h => ?_⟩
  · obtain ⟨e, hall⟩ := h _ _ hboolean
    have hcut : CutTail {} [0x01] := .inl (.inl rfl)
    exact hcut.not_values hstring hall
  · obtain ⟨e, hall⟩ := h _ _ hamf3
    have hcut : CutTail {} [0x11, 0x06, 0x05, 0x61] :=
      .inr ⟨⟨true, 2, fresh [0x61]⟩, .acmplus rfl (.value rfl (.inl rfl) ⟨rfl, rfl⟩), show 1 < 2 by decide, Nat.one_pos⟩
    exact hcut.not_values hstring hall

end Amf

end Livego
