import Livego.AmfTruncation

/-! Which content a decoding comes to, and with which it ends: the content of a string, an XML text or a byte array is read
by a `Read` whose count is dropped, so that it may be short only where it is the last thing read. -/

namespace Livego

open Fallible Call

namespace Amf

open Decoding (left)

/-- The content that a length announces, where one stands. -/
def inlineContent (kept : Bool) (s : Decoding) : Set Content :=
  {c | c.kept = kept ∧ decodeReferenceInt s = .ok ⟨false, c.length⟩ c.start}

/-- The markers of the values that are content. -/
def ContentMarker (marker : UInt8) : Prop :=
  marker = amf3StringMarker ∨ marker = amf3XmldocMarker ∨ marker = amf3XmlstringMarker ∨ marker = amf3BytearrayMarker

instance : DecidablePred ContentMarker := fun _ => inferInstanceAs (Decidable (_ ∨ _))

/-- The content that a function itself comes to: values and keys, which the result keeps, and names that it does not. -/
inductive Announces : Site × Decoding → Content → Prop
  | value {s t : Decoding} {marker : UInt8} {c : Content} (hmarker : readMarker s = .ok marker t)
      (hkind : ContentMarker marker) (hc : c ∈ inlineContent true t) : Announces (.amf3, s) c
  | arrayKey {s t : Decoding} {n : Nat} {c : Content} (href : decodeReferenceInt s = .ok ⟨false, n⟩ t)
      (hc : c ∈ inlineContent false t) : Announces (.amf3Array, s) c
  | className {s t : Decoding} {n : Nat} {c : Content} (href : decodeReferenceInt s = .ok ⟨false, n⟩ t)
      (hn : n &&& 1 ≠ 0) (hc : c ∈ inlineContent false t) : Announces (.amf3Object, s) c
  | propertyKey {s t u v : Decoding} {n k : Nat} {cls : Bytes} {keys : List Bytes} {c : Content}
      (href : decodeReferenceInt s = .ok ⟨false, n⟩ t) (hn : n &&& 1 ≠ 0)
      (hcls : decodeAmf3String false t = .ok cls u) (hk : k < n >>> 3)
      (hkeys : times (decodeAmf3String false) k u = .ok keys v) (hc : c ∈ inlineContent true v) :
      Announces (.amf3Object, s) c
  | dynamicKey {s t u : Decoding} {trait : Trait} {obj obj' : Object} {c : Content} (hext : trait.externalizable = false)
      (hdyn : trait.dynamic = true) (hobj : decodeEntries decodeAmf3 trait.keys [] s = .ok obj t)
      (hvisit : Visits (dynamicTurn decodeAmf3) obj t obj' u) (hc : c ∈ inlineContent true u) :
      Announces (.body trait, s) c

/-- The content that a decoding comes to. -/
def announced (c : Site × Decoding) : Set Content := {a | ∃ d, Relation.ReflTransGen Calls c d ∧ Announces d a}

/-- The content with which a function ends: its last call's. A class name is the last thing read of an object that has no
properties. -/
inductive EndsIn : Site × Decoding → Content → Prop
  | value {s t : Decoding} {marker : UInt8} {c : Content} (hmarker : readMarker s = .ok marker t)
      (hkind : ContentMarker marker) (hc : c ∈ inlineContent true t) : EndsIn (.amf3, s) c
  | marker {s t : Decoding} {marker : UInt8} {site : Site} {c : Content} (hmarker : readMarker s = .ok marker t)
      (hsite : siteOf marker = some site) (h : EndsIn (site, t) c) : EndsIn (.amf3, s) c
  | element {s t u v : Decoding} {k : Nat} {vs : List Value} {c : Content}
      (href : decodeReferenceInt s = .ok ⟨false, k + 1⟩ t) (hkey : decodeAmf3String false t = .ok [] u)
      (hvs : times decodeAmf3 k u = .ok vs v) (h : EndsIn (.amf3, v) c) : EndsIn (.amf3Array, s) c
  | className {s t : Decoding} {n : Nat} {c : Content} (href : decodeReferenceInt s = .ok ⟨false, n⟩ t)
      (hn : n &&& 1 ≠ 0) (hplain : n &&& 2 = 0 ∧ n &&& 4 = 0 ∧ n >>> 3 = 0) (hc : c ∈ inlineContent false t) :
      EndsIn (.amf3Object, s) c
  | body {s t u v : Decoding} {n : Nat} {trait : Trait} {c : Content} (href : decodeReferenceInt s = .ok ⟨false, n⟩ t)
      (htrait : decodeTrait n t = .ok trait u) (hpush : pushObject .null u = .ok () v) (h : EndsIn (.body trait, v) c) :
      EndsIn (.amf3Object, s) c
  | collection {s : Decoding} {trait : Trait} {c : Content} (hext : trait.externalizable = true)
      (htype : trait.type = lit "flex.messaging.io.ArrayCollection") (h : EndsIn (.amf3, s) c) : EndsIn (.body trait, s) c
  | asyncFields {s t : Decoding} {trait : Trait} {obj : Object} {c : Content} (hext : trait.externalizable = true)
      (htype : trait.type = lit "DSA") (hobj : decodeAbstractMessage decodeAmf3 s = .ok obj t)
      (h : EndsIn (.external asyncFieldSets, t) c) : EndsIn (.body trait, s) c
  | acknowledgeFields {s t : Decoding} {trait : Trait} {obj : Object} {c : Content} (hext : trait.externalizable = true)
      (htype : trait.type = lit "DSK") (hobj : decodeAsyncMessage decodeAmf3 s = .ok obj t)
      (h : EndsIn (.external [], t) c) : EndsIn (.body trait, s) c
  | property {s t : Decoding} {trait : Trait} {k : Nat} {vs : List Value} {c : Content}
      (hext : trait.externalizable = false) (hdyn : trait.dynamic = false) (hk : trait.keys.length = k + 1)
      (hvs : times decodeAmf3 k s = .ok vs t) (h : EndsIn (.amf3, t) c) : EndsIn (.body trait, s) c
  | field {s t u : Decoding} {fieldSets : List (List String)} {flagSet : List UInt8} {k : Nat} {vs : List Value}
      {c : Content} (hflags : readFlags s = .ok flagSet t) (hk : (announcedFields fieldSets flagSet).length = k + 1)
      (hvs : times decodeAmf3 k t = .ok vs u) (h : EndsIn (.amf3, u) c) : EndsIn (.external fieldSets, s) c
  | acmplus {s t : Decoding} {c : Content} (hmarker : readMarker s = .ok amf0AcmplusObjectMarker t)
      (h : EndsIn (.amf3, t) c) : EndsIn (.amf0, s) c
  | strictArray {s t u v : Decoding} {k : Nat} {vs : List Value} {c : Content}
      (hmarker : readMarker s = .ok amf0StrictArrayMarker t) (hlength : readUint 4 t = .ok (k + 1) u)
      (hvs : times decodeAmf0 k u = .ok vs v) (h : EndsIn (.amf0, v) c) : EndsIn (.amf0, s) c

def endings (c : Site × Decoding) : Set Content := {a | EndsIn c a}

@[simp] theorem mem_endings {c : Site × Decoding} {a : Content} : a ∈ endings c ↔ EndsIn c a := Iff.rfl

theorem mem_announced {c : Site × Decoding} {a : Content} :
    a ∈ announced c ↔ Announces c a ∨ ∃ d, Calls c d ∧ a ∈ announced d := by
  constructor
  · rintro ⟨d, hreach, hd⟩
    obtain rfl | ⟨e, hcalls, hrest⟩ := Relation.ReflTransGen.cases_head hreach
    · exact Or.inl hd
    · exact Or.inr ⟨e, hcalls, d, hrest, hd⟩
  · rintro (h | ⟨e, hcalls, d, hrest, hd⟩)
    · exact ⟨c, .refl, h⟩
    · exact ⟨d, .head hcalls hrest, hd⟩

/-- Neither a string nor what is stored calls anything. -/
theorem notMem_announced {site : Site} {s : Decoding} (hsite : site = .amf3String ∨ site = .stored) (c : Content) :
    c ∉ announced (site, s) := by
  intro hc
  rcases hsite with rfl | rfl
  · obtain h | ⟨d, h, -⟩ := mem_announced.mp hc <;> cases h
  · obtain h | ⟨d, h, -⟩ := mem_announced.mp hc <;> cases h

/-! ### Calls at the end of the input -/

variable {s : Decoding}

theorem fails_readByte (hzero : s.left = 0) : Fails readByte s := by
  have hnil : s.r.unread = [] := List.length_eq_zero_iff.mp hzero
  have herr : readBytes 1 s = .err .eof s := by rw [readBytes_eq, if_pos ⟨hnil, Or.inr (by decide)⟩]
  exact ⟨.eof, s, bind_of_err herr⟩

theorem fails_u29Loop (hzero : s.left = 0) (i result : Nat) : Fails (u29Loop i result) s := by
  cases i with
  | zero => exact (fails_readByte hzero).bind _
  | succ i => exact (fails_readByte hzero).bind _

theorem fails_decodeReferenceInt (hzero : s.left = 0) : Fails decodeReferenceInt s :=
  ((fails_u29Loop hzero 3 0).mapErr _).bind _

theorem fails_decodeAmf3String (hzero : s.left = 0) : Fails (decodeAmf3String false) s := by
  rw [decodeAmf3String, assertMarker_false, pure_bind]
  exact ((fails_decodeReferenceInt hzero).mapErr _).bind _

theorem fails_decodeAmf3 (hzero : s.left = 0) : Fails decodeAmf3 s := by
  rw [decodeAmf3_eq]
  exact (fails_readByte hzero).bind _

theorem fails_decodeAmf0 (hzero : s.left = 0) : Fails decodeAmf0 s := by
  rw [decodeAmf0_eq]
  exact (fails_readByte hzero).bind _

/-! ### Strings and what is stored -/

theorem inlineContent_of_ref {kept : Bool} {i : Nat} {t : Decoding} (href : decodeReferenceInt s = .ok ⟨true, i⟩ t) :
    inlineContent kept s = ∅ := by
  refine Set.eq_empty_iff_forall_notMem.mpr ?_
  rintro c ⟨-, hc⟩
  cases href.symm.trans hc

theorem inlineContent_of_length {kept : Bool} {n : Nat} {t : Decoding} (href : decodeReferenceInt s = .ok ⟨false, n⟩ t) :
    inlineContent kept s = {⟨kept, n, t⟩} := by
  ext c
  constructor
  · rintro ⟨hkept, hc⟩
    obtain ⟨hlength, hstart⟩ := Outcome.ok.inj (href.symm.trans hc)
    obtain ⟨kept', length, start⟩ := c
    cases hkept
    cases hlength
    cases hstart
    rfl
  · rintro rfl
    exact ⟨rfl, href⟩

theorem whole_u29Loop (i result : Nat) : Whole ∅ (u29Loop i result) s := by
  induction i generalizing s result with
  | zero => exact whole_readByte.bind_whole fun _ _ _ => .of_idle (.pure _) (fun _ => id) fun _ => id
  | succ i ih =>
      exact whole_readByte.bind_whole fun _ _ _ => .ite (fun _ => .of_idle (.pure _) (fun _ => id) fun _ => id) fun _ => ih _

theorem whole_decodeReferenceInt : Whole ∅ decodeReferenceInt s :=
  ((whole_u29Loop 3 0).mapErr _).bind_whole fun _ _ _ => .of_idle (.pure _) (fun _ => id) fun _ => id

variable {α β : Type}

/-- What begins with a length or a reference. -/
theorem cut_ref {A E : Set Content} {Q : β → Prop} {context : String} {f g : ReferenceInt → Dec β}
    (hf : ∀ i t, decodeReferenceInt s = .ok ⟨true, i⟩ t → CutAt A E Q (f ⟨true, i⟩) t)
    (hg : ∀ n t, decodeReferenceInt s = .ok ⟨false, n⟩ t → CutAt A E Q (g ⟨false, n⟩) t) :
    CutAt A E Q (wrap context decodeReferenceInt >>= fun ref => if ref.isRef then f ref else g ref) s := by
  refine (whole_decodeReferenceInt.mapErr _).bind_whole fun ref t href => ?_
  obtain ⟨isRef, refVal⟩ := ref
  have hok := mapErr_eq_ok.mp href
  cases isRef with
  | true => exact hf refVal t hok
  | false => exact hg refVal t hok

/-- A reference and what is made of the value that it names. -/
theorem whole_stored {α : Type} (table : Decoder → List α) (i : Nat) {f : α → Dec β} (hf : ∀ a t, Whole ∅ (f a) t) :
    Whole ∅ (index table i >>= f) s :=
  (whole_index table i).bind_whole fun a t _ => hf a t

theorem cut_decodeAmf3String (kept : Bool) :
    CutAt (inlineContent kept s) (inlineContent kept s) (· ≠ []) (decodeAmf3String false) s := by
  rw [decodeAmf3String, assertMarker_false, pure_bind]
  refine cut_ref (fun i t href => ?_) fun n t href => ?_
  · rw [inlineContent_of_ref href]
    exact (whole_index _ _).imp fun _ => False.elim
  · rw [inlineContent_of_length href]
    refine ((cut_fill kept n).mapErr _).bind_idle (fun result => ?_) ?_
    · exact .ite (.bind (.record _) fun _ => .pure result) (.pure result)
    · intro result t' b u hne hb
      rw [if_pos hne] at hb
      obtain ⟨_, _, -, hpure⟩ := bind_eq_ok.mp hb
      cases hpure
      exact hne

theorem cut_decodeAmf3Xml :
    CutAt (inlineContent true s) (inlineContent true s) (fun _ => True) (decodeAmf3Xml false) s := by
  have hmarker : assertXmlMarker false = pure () := rfl
  rw [decodeAmf3Xml, hmarker, pure_bind]
  refine cut_ref (fun i t href => ?_) fun n t href => ?_
  · rw [inlineContent_of_ref href]
    refine (whole_stored _ _ fun v u => ?_).imp fun _ => False.elim
    split
    · exact .of_idle (.pure _) (fun _ => id) fun _ => id
    · exact .fail _
  · rw [inlineContent_of_length href]
    refine ((cut_fill true n).mapErr _).bind_idle (fun result => ?_) fun _ _ _ _ _ _ => trivial
    exact .ite (.bind (.record _) fun _ => .pure result) (.pure result)

theorem cut_decodeAmf3ByteArray :
    CutAt (inlineContent true s) (inlineContent true s) (fun _ => True) (decodeAmf3ByteArray false) s := by
  rw [decodeAmf3ByteArray, assertMarker_false, pure_bind]
  refine cut_ref (fun i t href => ?_) fun n t href => ?_
  · rw [inlineContent_of_ref href]
    refine (whole_stored _ _ fun v u => ?_).imp fun _ => False.elim
    split
    · exact .of_idle (.pure _) (fun _ => id) fun _ => id
    · exact .fail _
  · rw [inlineContent_of_length href]
    refine ((cut_fill true n).mapErr _).bind_idle (fun result => ?_) fun _ _ _ _ _ _ => trivial
    exact .bind (.record _) fun _ => .pure result

theorem whole_decodeAmf3Date : Whole ∅ (decodeAmf3Date false) s := by
  rw [decodeAmf3Date, assertMarker_false, pure_bind]
  refine cut_ref (fun i t _ => ?_) fun n t _ => ?_
  · refine whole_stored _ _ fun v u => ?_
    split
    · exact .of_idle (.pure _) (fun _ => id) fun _ => id
    · exact .fail _
  · exact (whole_readFloat64.mapErr _).bind_idle (fun _ => .bind (.record _) fun _ => .pure _) fun _ _ _ _ => False.elim

/-! ### Arrays and objects -/

theorem fails_times_mapErr {x : Dec α} {n : Nat} {h : GoError → GoError} (hfails : Fails (times x n) s) :
    Fails (times (mapErr h x) n) s := by
  induction n generalizing s with
  | zero =>
      obtain ⟨e, t, herr⟩ := hfails
      cases herr
  | succ n ih =>
      obtain ⟨e, t, herr⟩ := hfails
      rw [times, bind_apply] at herr
      cases hx : x s with
      | ok a u =>
          have hrest : Fails (times x n) u := by
            rw [hx] at herr
            dsimp only at herr
            rw [bind_apply] at herr
            cases hts : times x n u with
            | ok as v => simp [hts] at herr
            | err e' v => exact ⟨e', v, hts⟩
            | panic p => simp [hts] at herr
            | diverge => simp [hts] at herr
          exact .of_ok (mapErr_eq_ok.mpr hx) ((ih hrest).bind _)
      | err e' u => exact (Fails.mapErr ⟨e', u, hx⟩ h).bind _
      | panic p => simp [hx] at herr
      | diverge => simp [hx] at herr

/-- The map with the values entered under the keys. -/
def insertAll (obj : Object) : List (Bytes × String) → List Value → Object
  | (key, _) :: keys, val :: vals => insertAll (obj.insert key val) keys vals
  | _, _ => obj

/-- The loop over the keys, with the values first read and then entered. -/
theorem decodeEntries_eq_ok {x : Dec Value} {keys : List (Bytes × String)} {obj obj' : Object} {t : Decoding} :
    decodeEntries x keys obj s = .ok obj' t ↔
      (times x keys.length >>= fun vals => pure (insertAll obj keys vals)) s = .ok obj' t := by
  induction keys generalizing obj s with
  | nil => rfl
  | cons key keys ih =>
      obtain ⟨key, context⟩ := key
      rw [decodeEntries, bind_eq_ok]
      simp only [ih, List.length_cons, times]
      constructor
      · rintro ⟨val, u, hval, hrest⟩
        obtain ⟨vals, v, hvals, hpure⟩ := bind_eq_ok.mp hrest
        cases hpure
        refine bind_eq_ok.mpr ⟨val :: vals, _, ?_, rfl⟩
        rw [bind_of_ok (mapErr_eq_ok.mp hval), bind_of_ok hvals]
        rfl
      · intro h
        obtain ⟨vals, v, hvals, hpure⟩ := bind_eq_ok.mp h
        cases hpure
        obtain ⟨val, u, hval, hrest⟩ := bind_eq_ok.mp hvals
        obtain ⟨vals', w, hvals', hpure'⟩ := bind_eq_ok.mp hrest
        cases hpure'
        exact ⟨val, u, mapErr_eq_ok.mpr hval, bind_eq_ok.mpr ⟨vals', _, hvals', rfl⟩⟩

theorem fails_decodeEntries {x : Dec Value} {keys : List (Bytes × String)} {obj : Object}
    (hfails : Fails (times x keys.length >>= fun vals => pure (insertAll obj keys vals)) s) :
    Fails (decodeEntries x keys obj) s := by
  induction keys generalizing obj s with
  | nil =>
      obtain ⟨e, t, herr⟩ := hfails
      cases herr
  | cons key keys ih =>
      obtain ⟨key, context⟩ := key
      obtain ⟨e, t, herr⟩ := hfails
      rw [List.length_cons, times, bind_apply, bind_apply] at herr
      cases hx : x s with
      | ok val u =>
          refine .of_ok (mapErr_eq_ok.mpr hx) (ih ?_)
          rw [hx] at herr
          dsimp only at herr
          rw [bind_apply] at herr
          rw [Fails, bind_apply]
          cases hts : times x keys.length u with
          | ok vals v => simp [hts] at herr
          | err e' v => exact ⟨e', v, rfl⟩
          | panic p => simp [hts] at herr
          | diverge => simp [hts] at herr
      | err e' u => exact (Fails.mapErr ⟨e', u, hx⟩ _).bind _
      | panic p => simp [hx] at herr
      | diverge => simp [hx] at herr

theorem fails_flagTurn (hzero : s.left = 0) (result : List UInt8) : Fails (flagTurn result) s :=
  ((fails_readByte hzero).mapErr _).bind _

theorem whole_readFlags : Whole ∅ readFlags s := by
  refine CutAt.loop (fun _ _ => ∅) (fun _ _ => ∅) (Consuming.decreases fun n => consuming_flagTurn (n := n))
    (fun result t hzero => fails_flagTurn hzero result) (fun result t _ => ?_) fun c hc => hc.elim
  exact (whole_readByte.mapErr _).bind_idle (fun _ => .pure _) fun _ _ _ _ => False.elim

section
variable (hvalue : ∀ t, t.left < s.left → CutAt (announced (.amf3, t)) (endings (.amf3, t)) (fun _ => True) decodeAmf3 t)
include hvalue

/-- Values one after the other end with what the last one ends with. -/
theorem cut_times {n : Nat} {u : Decoding} (hlt : u.left < s.left) {A E : Set Content}
    (hA : ∀ c ∈ A, ∃ k < n, ∃ as v, times decodeAmf3 k u = .ok as v ∧ c ∈ announced (.amf3, v))
    (hE : ∀ c, c ∈ E ↔ ∃ k as v, n = k + 1 ∧ times decodeAmf3 k u = .ok as v ∧ c ∈ endings (.amf3, v)) :
    CutAt A E (fun as => as.length = n) (times decodeAmf3 n) u := by
  refine CutAt.times (Q := fun _ => True) (fun v => announced (.amf3, v)) (fun v => endings (.amf3, v))
    (fun v hzero => fails_decodeAmf3 hzero) (fun k _ as v has => ?_) hA hE
  have hle : v.left ≤ u.left := Settled.le_of_ok (fun n => (settled_decodeAmf3 (n := n)).times k) has
  exact hvalue v (by omega)

theorem cut_decodeAmf3Array :
    CutAt (announced (.amf3Array, s)) (endings (.amf3Array, s)) (fun _ => True) (decodeAmf3Array decodeAmf3 false) s := by
  rw [decodeAmf3Array, assertMarker_false, pure_bind]
  refine cut_ref (fun i t href => ?_) fun n t href => ?_
  · have hA : announced (.amf3Array, s) = ∅ := by
      refine Set.eq_empty_iff_forall_notMem.mpr fun c hc => ?_
      obtain h | ⟨d, h, -⟩ := mem_announced.mp hc
      · cases h with
        | arrayKey href' _ => cases href.symm.trans href'
      · cases h with
        | arrayKey href' => cases href.symm.trans href'
        | element href' _ _ _ => cases href.symm.trans href'
    have hE : endings (.amf3Array, s) = ∅ := by
      refine Set.eq_empty_iff_forall_notMem.mpr fun c hc => ?_
      cases hc with
      | element href' _ _ _ => cases href.symm.trans href'
    rw [hA, hE]
    refine (whole_stored _ _ fun v u => ?_).imp fun _ => False.elim
    split
    · exact .of_idle (.pure _) (fun _ => id) fun _ => id
    · exact .fail _
  · have hlt : t.left < s.left := Consuming.lt_of_ok (fun _ => consuming_decodeReferenceInt) href
    refine ((cut_decodeAmf3String false).mapErr _).bind (fun key u hne _ => ?_) fun key u hkey => ?_
    · exact ⟨_, _, by rw [if_pos hne]; rfl⟩
    · have hkey := mapErr_eq_ok.mp hkey
      refine .ite (fun _ => .fail _) fun hnil => ?_
      obtain rfl := Decidable.not_not.mp hnil
      have hlt' : u.left < t.left := Consuming.lt_of_ok (fun _ => consuming_decodeAmf3String) hkey
      have helements : CutAt (announced (.amf3Array, s) \ inlineContent false t) (endings (.amf3Array, s))
          (fun as => as.length = n) (times decodeAmf3 n) u := ?_
      · exact (helements.of_imp (fun _ _ _ => times_mapErr_eq_ok) fun _ => fails_times_mapErr).bind_idle
          (fun _ => .bind (.record _) fun _ => .pure _) fun _ _ _ _ _ _ => trivial
      refine cut_times hvalue (by omega) ?_ fun c => ?_
      · rintro c ⟨hc, hc'⟩
        obtain h | ⟨d, h, hd⟩ := mem_announced.mp hc
        · cases h with
          | arrayKey href' hmem =>
              obtain ⟨-, rfl⟩ := Outcome.ok.inj (href.symm.trans href')
              exact absurd hmem hc'
        · cases h with
          | arrayKey href' => exact absurd hd (notMem_announced (Or.inl rfl) c)
          | element href' hkey' hk hvs =>
              obtain ⟨heq, rfl⟩ := Outcome.ok.inj (href.symm.trans href')
              cases heq
              obtain ⟨-, rfl⟩ := Outcome.ok.inj (hkey.symm.trans hkey')
              exact ⟨_, hk, _, _, hvs, hd⟩
      · constructor
        · intro hc
          cases hc with
          | element href' hkey' hvs h =>
              obtain ⟨heq, rfl⟩ := Outcome.ok.inj (href.symm.trans href')
              cases heq
              obtain ⟨-, rfl⟩ := Outcome.ok.inj (hkey.symm.trans hkey')
              exact ⟨_, _, _, rfl, hvs, h⟩
        · rintro ⟨k, as, v, rfl, has, hc⟩
          exact .element href hkey has hc

theorem cut_decodeEntries {keys : List (Bytes × String)} {obj : Object} {u : Decoding} (hlt : u.left < s.left)
    {A E : Set Content}
    (hA : ∀ c ∈ A, ∃ k < keys.length, ∃ as v, times decodeAmf3 k u = .ok as v ∧ c ∈ announced (.amf3, v))
    (hE : ∀ c, c ∈ E ↔ ∃ k as v, keys.length = k + 1 ∧ times decodeAmf3 k u = .ok as v ∧ c ∈ endings (.amf3, v)) :
    CutAt A E (fun _ => True) (decodeEntries decodeAmf3 keys obj) u :=
  ((cut_times hvalue hlt hA hE).bind_idle (fun _ => .pure _) fun _ _ _ _ _ _ => trivial).of_imp
    (fun _ _ _ => decodeEntries_eq_ok) fun _ => fails_decodeEntries

theorem cut_decodeExternal {fieldSets : List (List String)} {obj : Object} {u : Decoding} (hlt : u.left < s.left) :
    CutAt (announced (.external fieldSets, u)) (endings (.external fieldSets, u)) (fun _ => True)
      (decodeExternal decodeAmf3 obj fieldSets) u := by
  refine (whole_readFlags.mapErr _).bind_whole fun flagSet t hflags => ?_
  have hflags := mapErr_eq_ok.mp hflags
  have hle : t.left ≤ u.left := Settled.le_of_ok (fun n => settled_readFlags (n := n)) hflags
  refine cut_decodeEntries hvalue (by omega) (fun c hc => ?_) fun c => ?_
  · obtain h | ⟨d, h, hd⟩ := mem_announced.mp hc
    · cases h
    · cases h with
      | field hflags' hk hvs =>
          obtain ⟨rfl, rfl⟩ := Outcome.ok.inj (hflags.symm.trans hflags')
          exact ⟨_, hk, _, _, hvs, hd⟩
  · constructor
    · intro hc
      cases hc with
      | field hflags' hk hvs h =>
          obtain ⟨rfl, rfl⟩ := Outcome.ok.inj (hflags.symm.trans hflags')
          exact ⟨_, _, _, hk, hvs, h⟩
    · rintro ⟨k, as, v, hk, has, hc⟩
      exact .field hflags hk has hc

end

theorem fails_decodeExternal {x : Dec Value} {obj : Object} {fieldSets : List (List String)} (hzero : s.left = 0) :
    Fails (decodeExternal x obj fieldSets) s := by
  have hloop : Fails readFlags s := by
    obtain ⟨e, t, herr⟩ := fails_flagTurn hzero []
    refine ⟨e, t, ?_⟩
    rw [readFlags, get_bind_apply, loop_succ, herr]
  exact (hloop.mapErr _).bind _

section
variable (hvalue : ∀ t, t.left < s.left → CutAt (announced (.amf3, t)) (endings (.amf3, t)) (fun _ => True) decodeAmf3 t)
include hvalue

/-- The fields of an abstract message, then those of an asynchronous one. -/
theorem cut_decodeAsyncMessage {u : Decoding} (hlt : u.left < s.left) {A E : Set Content}
    (hA : ∀ c ∈ A, c ∈ announced (.external abstractFieldSets, u) ∨
      ∃ obj t, decodeAbstractMessage decodeAmf3 u = .ok obj t ∧ c ∈ announced (.external asyncFieldSets, t))
    (hE : ∀ c, c ∈ E ↔
      ∃ obj t, decodeAbstractMessage decodeAmf3 u = .ok obj t ∧ c ∈ endings (.external asyncFieldSets, t)) :
    CutAt A E (fun _ => True) (decodeAsyncMessage decodeAmf3) u := by
  refine (((cut_decodeExternal hvalue hlt).mapErr _).mapErr _).bind
    (fun obj t _ hzero => (fails_decodeExternal hzero).mapErr _) fun obj t hobj => ?_
  have hobj := mapErr_eq_ok.mp hobj
  have hle : t.left ≤ u.left :=
    Settled.le_of_ok (fun n => (settled_decodeExternal (settled_decodeAmf3 (n := n)) _ _).mapErr) hobj
  have heq : E = endings (.external asyncFieldSets, t) := by
    ext c
    exact (hE c).trans (exists_ok_iff hobj)
  rw [heq]
  refine ((cut_decodeExternal hvalue (by omega)).mapErr _).mono ?_
  rintro c ⟨hc, hc'⟩
  obtain h | h := hA c hc
  · exact absurd h hc'
  · exact (exists_ok_iff hobj).mp h

theorem cut_decodeAcknowledgeMessage {u : Decoding} (hlt : u.left < s.left) {A E : Set Content}
    (hA : ∀ c ∈ A, c ∈ announced (.external abstractFieldSets, u) ∨
      (∃ obj t, decodeAbstractMessage decodeAmf3 u = .ok obj t ∧ c ∈ announced (.external asyncFieldSets, t)) ∨
        ∃ obj t, decodeAsyncMessage decodeAmf3 u = .ok obj t ∧ c ∈ announced (.external [], t))
    (hE : ∀ c, c ∈ E ↔ ∃ obj t, decodeAsyncMessage decodeAmf3 u = .ok obj t ∧ c ∈ endings (.external [], t)) :
    CutAt A E (fun _ => True) (decodeAcknowledgeMessage decodeAmf3) u := by
  let B : Set Content := {c | c ∈ announced (.external abstractFieldSets, u) ∨
    ∃ obj t, decodeAbstractMessage decodeAmf3 u = .ok obj t ∧ c ∈ announced (.external asyncFieldSets, t)}
  let F : Set Content := {c | ∃ obj t, decodeAbstractMessage decodeAmf3 u = .ok obj t ∧
    c ∈ endings (.external asyncFieldSets, t)}
  have hasync : CutAt B F (fun _ => True) (decodeAsyncMessage decodeAmf3) u :=
    cut_decodeAsyncMessage hvalue hlt (fun c hc => hc) fun c => Iff.rfl
  refine (hasync.mapErr _).bind (fun obj t _ hzero => (fails_decodeExternal hzero).mapErr _) fun obj t hobj => ?_
  have hobj := mapErr_eq_ok.mp hobj
  have hle : t.left ≤ u.left := Settled.le_of_ok (fun n => settled_decodeAsyncMessage (settled_decodeAmf3 (n := n))) hobj
  have heq : E = endings (.external [], t) := by
    ext c
    exact (hE c).trans (exists_ok_iff hobj)
  rw [heq]
  refine ((cut_decodeExternal hvalue (by omega)).mapErr _).mono ?_
  rintro c ⟨hc, hc'⟩
  obtain h | h | h := hA c hc
  · exact absurd (Or.inl h) hc'
  · exact absurd (Or.inr h) hc'
  · exact (exists_ok_iff hobj).mp h

end

theorem fails_dynamicTurn {x : Dec Value} (hzero : s.left = 0) (obj : Object) : Fails (dynamicTurn x obj) s :=
  ((fails_decodeAmf3String hzero).mapErr _).bind _

theorem fails_decodeDynamic {x : Dec Value} (hzero : s.left = 0) (obj : Object) : Fails (decodeDynamic x obj) s := by
  obtain ⟨e, t, herr⟩ := @fails_dynamicTurn s x hzero obj
  refine ⟨e, t, ?_⟩
  rw [decodeDynamic, get_bind_apply, loop_succ, herr]

/-- At the end of the input no fields and no entries are left out. -/
theorem fails_decodeExternalizable (hzero : s.left = 0) (type : Bytes) : Fails (decodeExternalizable decodeAmf3 type) s := by
  have habstract : Fails (decodeAbstractMessage decodeAmf3) s := (fails_decodeExternal hzero).mapErr _
  have hasync : Fails (decodeAsyncMessage decodeAmf3) s := (habstract.mapErr _).bind _
  have hacknowledge : Fails (decodeAcknowledgeMessage decodeAmf3) s := (hasync.mapErr _).bind _
  unfold decodeExternalizable
  split_ifs
  · exact (hasync.mapErr _).bind _
  · exact (hacknowledge.mapErr _).bind _
  · exact (((fails_decodeAmf3 hzero).mapErr _).mapErr _).bind _
  · exact ⟨_, _, rfl⟩

theorem fails_decodeEntries_nil {x : Dec Value} (hx : Fails x s) {keys : List (Bytes × String)} (hkeys : keys ≠ [])
    (obj : Object) : Fails (decodeEntries x keys obj) s := by
  cases keys with
  | nil => exact absurd rfl hkeys
  | cons key keys => exact (hx.mapErr _).bind _

/-- The body of an object reads on, unless it has nothing to read. -/
theorem fails_decodeObjectBody (hzero : s.left = 0) {trait : Trait}
    (hreads : trait.externalizable = true ∨ trait.dynamic = true ∨ trait.properties ≠ []) :
    Fails (decodeObjectBody decodeAmf3 trait) s := by
  unfold decodeObjectBody
  split_ifs with hext hdyn
  · exact fails_decodeExternalizable hzero _
  all_goals by_cases hkeys : trait.keys = []
  · rw [hkeys]
    exact (fails_decodeDynamic hzero []).bind _
  · exact (fails_decodeEntries_nil (fails_decodeAmf3 hzero) hkeys []).bind _
  · rw [Trait.keys, List.map_eq_nil_iff] at hkeys
    simp_all
  · exact (fails_decodeEntries_nil (fails_decodeAmf3 hzero) hkeys []).bind _

/-- What the body of an object comes to that is not externalizable: its sealed properties, and the entries behind them if it
is dynamic. -/
theorem mem_announced_body {trait : Trait} (hext : trait.externalizable = false) {c : Content}
    (hc : c ∈ announced (.body trait, s)) :
    (∃ k < trait.keys.length, ∃ as v, times decodeAmf3 k s = .ok as v ∧ c ∈ announced (.amf3, v)) ∨
    trait.dynamic = true ∧ ∃ obj t, decodeEntries decodeAmf3 trait.keys [] s = .ok obj t ∧ ∃ obj' u,
      Visits (dynamicTurn decodeAmf3) obj t obj' u ∧ (c ∈ inlineContent true u ∨
        ∃ key v, decodeAmf3String false u = .ok key v ∧ key ≠ [] ∧ c ∈ announced (.amf3, v)) := by
  obtain h | ⟨d, h, hd⟩ := mem_announced.mp hc
  · cases h with
    | dynamicKey _ hdyn hobj hvisit hmem => exact Or.inr ⟨hdyn, _, _, hobj, _, _, hvisit, Or.inl hmem⟩
  · cases h with
    | collection hext' _ => simp [hext] at hext'
    | abstractFields hext' _ => simp [hext] at hext'
    | asyncFields hext' _ _ => simp [hext] at hext'
    | acknowledgeFields hext' _ _ => simp [hext] at hext'
    | property _ hk hvs => exact Or.inl ⟨_, hk, _, _, hvs, hd⟩
    | dynamicKey _ _ _ _ => exact absurd hd (notMem_announced (Or.inl rfl) c)
    | dynamicValue _ hdyn hobj hvisit hkey hne =>
        exact Or.inr ⟨hdyn, _, _, hobj, _, _, hvisit, Or.inr ⟨_, _, hkey, hne, hd⟩⟩

/-- The body of a dynamic object ends with no content. -/
theorem endings_dynamic {trait : Trait} (hext : trait.externalizable = false) (hdyn : trait.dynamic = true) :
    endings (.body trait, s) = ∅ := by
  refine Set.eq_empty_iff_forall_notMem.mpr fun c hc => ?_
  cases hc with
  | collection hext' _ _ => simp [hext] at hext'
  | asyncFields hext' _ _ _ => simp [hext] at hext'
  | acknowledgeFields hext' _ _ _ => simp [hext] at hext'
  | property _ hdyn' _ _ _ => simp [hdyn] at hdyn'

section
variable (hvalue : ∀ t, t.left < s.left → CutAt (announced (.amf3, t)) (endings (.amf3, t)) (fun _ => True) decodeAmf3 t)
include hvalue

/-- Further entries, up to the empty key. -/
theorem whole_decodeDynamic {u : Decoding} (hlt : u.left < s.left) {A : Set Content} {obj : Object}
    (hA : ∀ c ∈ A, ∃ obj' t, Visits (dynamicTurn decodeAmf3) obj u obj' t ∧ (c ∈ inlineContent true t ∨
      ∃ key v, decodeAmf3String false t = .ok key v ∧ key ≠ [] ∧ c ∈ announced (.amf3, v))) :
    Whole A (decodeDynamic decodeAmf3 obj) u := by
  have hμ := Consuming.decreases fun n => consuming_dynamicTurn (n := n) settled_decodeAmf3
  refine CutAt.loop
    (fun _ t => {c | c ∈ inlineContent true t ∨
      ∃ key v, decodeAmf3String false t = .ok key v ∧ key ≠ [] ∧ c ∈ announced (.amf3, v)})
    (fun _ t => {c | ∃ key v, decodeAmf3String false t = .ok key v ∧ key ≠ [] ∧ c ∈ endings (.amf3, v)})
    hμ (fun obj t hzero => fails_dynamicTurn hzero obj) (fun obj' t hvisit => ?_) hA
  have hle : t.left ≤ u.left := Visits.le hμ hvisit
  refine ((cut_decodeAmf3String true).mapErr _).bind (fun key v hne hzero => ?_) fun key v hkey => ?_
  · rw [if_neg hne]
    exact ((fails_decodeAmf3 hzero).mapErr _).bind _
  · have hkey := mapErr_eq_ok.mp hkey
    have hlt' : v.left < t.left := Consuming.lt_of_ok (fun _ => consuming_decodeAmf3String) hkey
    refine .ite (fun hnil => ?_) fun hne => ?_
    · refine .of_idle (.pure _) ?_ ?_
      · rintro c ⟨hc | hc, hc'⟩
        · exact hc' hc
        · exact ((exists_ok_iff hkey).mp hc).1 hnil
      · intro c hc
        exact ((exists_ok_iff hkey).mp hc).1 hnil
    · have heq : {c | ∃ key v, decodeAmf3String false t = .ok key v ∧ key ≠ [] ∧ c ∈ endings (.amf3, v)} =
          endings (.amf3, v) := by
        ext c
        exact (exists_ok_iff hkey).trans (and_iff_right hne)
      rw [heq]
      refine (((hvalue v (by omega)).mapErr _).mono ?_).bind_idle (fun _ => .pure _) ?_
      · rintro c ⟨hc | hc, hc'⟩
        · exact absurd hc hc'
        · exact ((exists_ok_iff hkey).mp hc).2
      · rintro val w r w' - hr
        cases hr
        exact ⟨_, rfl⟩

theorem cut_decodeExternalizable {u : Decoding} (hlt : u.left < s.left) {trait : Trait} (hext : trait.externalizable = true) :
    CutAt (announced (.body trait, u)) (endings (.body trait, u)) (fun _ => True)
      (decodeExternalizable decodeAmf3 trait.type) u := by
  have hDSA : lit "DSA" ≠ lit "DSK" := by decide
  have hcollection : lit "DSA" ≠ lit "flex.messaging.io.ArrayCollection" ∧
      lit "DSK" ≠ lit "flex.messaging.io.ArrayCollection" := by decide
  -- What an object of the class is made of.
  have hA : ∀ c ∈ announced (.body trait, u),
      (trait.type = lit "flex.messaging.io.ArrayCollection" ∧ c ∈ announced (.amf3, u)) ∨
      ((trait.type = lit "DSA" ∨ trait.type = lit "DSK") ∧ (c ∈ announced (.external abstractFieldSets, u) ∨
        ∃ obj t, decodeAbstractMessage decodeAmf3 u = .ok obj t ∧ c ∈ announced (.external asyncFieldSets, t))) ∨
      (trait.type = lit "DSK" ∧ ∃ obj t, decodeAsyncMessage decodeAmf3 u = .ok obj t ∧ c ∈ announced (.external [], t)) := by
    intro c hc
    obtain h | ⟨d, h, hd⟩ := mem_announced.mp hc
    · cases h with
      | dynamicKey hext' _ _ _ _ => simp [hext] at hext'
    · cases h with
      | collection _ htype => exact Or.inl ⟨htype, hd⟩
      | abstractFields _ htype => exact Or.inr (Or.inl ⟨htype, Or.inl hd⟩)
      | asyncFields _ htype hobj => exact Or.inr (Or.inl ⟨htype, Or.inr ⟨_, _, hobj, hd⟩⟩)
      | acknowledgeFields _ htype hobj => exact Or.inr (Or.inr ⟨htype, _, _, hobj, hd⟩)
      | property hext' _ _ => simp [hext] at hext'
      | dynamicKey hext' _ _ _ => simp [hext] at hext'
      | dynamicValue hext' _ _ _ _ _ => simp [hext] at hext'
  have hE : ∀ c, EndsIn (.body trait, u) c ↔
      (trait.type = lit "flex.messaging.io.ArrayCollection" ∧ EndsIn (.amf3, u) c) ∨
      (trait.type = lit "DSA" ∧
        ∃ obj t, decodeAbstractMessage decodeAmf3 u = .ok obj t ∧ EndsIn (.external asyncFieldSets, t) c) ∨
      (trait.type = lit "DSK" ∧ ∃ obj t, decodeAsyncMessage decodeAmf3 u = .ok obj t ∧ EndsIn (.external [], t) c) := by
    intro c
    constructor
    · intro hc
      cases hc with
      | collection _ htype h => exact Or.inl ⟨htype, h⟩
      | asyncFields _ htype hobj h => exact Or.inr (Or.inl ⟨htype, _, _, hobj, h⟩)
      | acknowledgeFields _ htype hobj h => exact Or.inr (Or.inr ⟨htype, _, _, hobj, h⟩)
      | property hext' _ _ _ _ => simp [hext] at hext'
    · rintro (⟨htype, h⟩ | ⟨htype, obj, t, hobj, h⟩ | ⟨htype, obj, t, hobj, h⟩)
      · exact .collection hext htype h
      · exact .asyncFields hext htype hobj h
      · exact .acknowledgeFields hext htype hobj h
  refine .ite (fun htype => ?_) fun _ => .ite (fun htype => ?_) fun _ => .ite (fun htype => ?_) fun _ => .fail _
  · refine ((cut_decodeAsyncMessage hvalue hlt (fun c hc => ?_) fun c => ?_).mapErr _).map _
    · simpa [htype, hDSA, hcollection.1] using hA c hc
    · simpa [htype, hDSA, hcollection.1] using hE c
  · refine ((cut_decodeAcknowledgeMessage hvalue hlt (fun c hc => ?_) fun c => ?_).mapErr _).map _
    · simpa [htype, hDSA.symm, hcollection.2, or_assoc] using hA c hc
    · simpa [htype, hDSA.symm, hcollection.2] using hE c
  · have hEq : endings (.body trait, u) = endings (.amf3, u) := by
      ext c
      simpa [htype, hcollection.1.symm, hcollection.2.symm] using hE c
    rw [hEq]
    refine ((((hvalue u hlt).mapErr _).mapErr _).mono fun c hc => ?_).bind_idle
      (fun _ => .bind (.record _) fun _ => .pure _) fun _ _ _ _ _ _ => trivial
    simpa [htype, hcollection.1.symm, hcollection.2.symm] using hA c hc

theorem cut_decodeObjectBody {u : Decoding} (hlt : u.left < s.left) (trait : Trait) :
    CutAt (announced (.body trait, u)) (endings (.body trait, u)) (fun _ => True) (decodeObjectBody decodeAmf3 trait) u := by
  refine .ite (fun hext => cut_decodeExternalizable hvalue hlt hext) fun hext => ?_
  have hext : trait.externalizable = false := Bool.not_eq_true _ ▸ hext
  have hle : ∀ {obj t}, decodeEntries decodeAmf3 trait.keys [] u = .ok obj t → t.left ≤ u.left := fun h =>
    Settled.le_of_ok (fun n => settled_decodeEntries (settled_decodeAmf3 (n := n)) _ _) h
  -- The content of the sealed properties.
  let A : Set Content := {c | ∃ k < trait.keys.length, ∃ as v, times decodeAmf3 k u = .ok as v ∧ c ∈ announced (.amf3, v)}
  let E : Set Content := {c | ∃ k as v, trait.keys.length = k + 1 ∧ times decodeAmf3 k u = .ok as v ∧
    c ∈ endings (.amf3, v)}
  have hentries : CutAt A E (fun _ => True) (decodeEntries decodeAmf3 trait.keys []) u :=
    cut_decodeEntries hvalue hlt (fun c hc => hc) fun c => Iff.rfl
  by_cases hdyn : trait.dynamic = true
  · rw [endings_dynamic hext hdyn]
    refine hentries.bind (fun obj t _ hzero => ?_) fun obj t hobj => ?_
    · rw [if_pos hdyn]
      exact (fails_decodeDynamic hzero obj).bind _
    · rw [if_pos hdyn]
      have hlt' := hle hobj
      refine (whole_decodeDynamic hvalue (u := t) (by omega) ?_).bind_idle (fun _ => .pure _) fun _ _ _ _ => False.elim
      rintro c ⟨hc, hc'⟩
      obtain h | ⟨-, obj', t', hobj', hdynamic⟩ := mem_announced_body hext hc
      · exact absurd h hc'
      · obtain ⟨rfl, rfl⟩ := Outcome.ok.inj (hobj.symm.trans hobj')
        exact hdynamic
  · have hdyn' : trait.dynamic = false := Bool.not_eq_true _ ▸ hdyn
    have hA : announced (.body trait, u) ⊆ A := fun c hc =>
      (mem_announced_body hext hc).resolve_right fun h => hdyn h.1
    have hE : endings (.body trait, u) = E := by
      ext c
      constructor
      · intro hc
        cases hc with
        | collection hext' _ _ => simp [hext] at hext'
        | asyncFields hext' _ _ _ => simp [hext] at hext'
        | acknowledgeFields hext' _ _ _ => simp [hext] at hext'
        | property _ _ hk hvs h => exact ⟨_, _, _, hk, hvs, h⟩
      · rintro ⟨k, as, v, hk, has, hc⟩
        exact .property hext hdyn' hk has hc
    rw [hE]
    refine (hentries.mono hA).bind_idle (fun obj => ?_) fun _ _ _ _ _ _ => trivial
    rw [if_neg hdyn]
    exact .pure _

end

theorem length_of_times {x : Dec α} {n : Nat} {as : List α} {t : Decoding} (h : times x n s = .ok as t) : as.length = n := by
  induction n generalizing s as with
  | zero =>
      cases h
      rfl
  | succ n ih =>
      obtain ⟨a, u, -, hrest⟩ := bind_eq_ok.mp h
      obtain ⟨as', v, has, hpure⟩ := bind_eq_ok.mp hrest
      cases hpure
      exact congrArg (· + 1) (ih has)

/-- A trait that stands in the input has the flags and as many properties as its header says. -/
theorem trait_of_decodeTrait {n : Nat} (hn : n &&& 1 ≠ 0) {trait : Trait} {t : Decoding}
    (h : decodeTrait n s = .ok trait t) : (trait.externalizable = decide (n &&& 2 ≠ 0)) ∧
      (trait.dynamic = decide (n &&& 4 ≠ 0)) ∧ trait.properties.length = n >>> 3 := by
  unfold decodeTrait at h
  rw [if_neg hn] at h
  obtain ⟨cls, u, -, hrest⟩ := bind_eq_ok.mp h
  obtain ⟨keys, v, hkeys, hrest⟩ := bind_eq_ok.mp hrest
  obtain ⟨_, _, -, hpure⟩ := bind_eq_ok.mp hrest
  cases hpure
  exact ⟨rfl, rfl, length_of_times hkeys⟩

/-- The class name and the keys of a trait. Where there are no keys, it ends with the name. -/
theorem cut_decodeTrait {n : Nat} (hn : n &&& 1 ≠ 0) {A : Set Content} (hA : ∀ c ∈ A, c ∈ inlineContent false s ∨
    ∃ cls u, decodeAmf3String false s = .ok cls u ∧ ∃ k < n >>> 3, ∃ keys v,
      times (decodeAmf3String false) k u = .ok keys v ∧ c ∈ inlineContent true v) :
    ∃ E, CutAt A E (fun trait => ∃ s t, decodeTrait n s = .ok trait t) (decodeTrait n) s ∧
      (n >>> 3 = 0 → E = inlineContent false s) := by
  have hinline : decodeTrait n = _ := if_neg hn
  by_cases hkeys : n >>> 3 = 0
  · refine ⟨inlineContent false s, CutAt.result (Q := fun _ => True) ?_, fun _ => rfl⟩
    rw [hinline, hkeys]
    refine (((cut_decodeAmf3String false).mapErr _).mono fun c hc => ?_).bind_idle
      (fun cls => .bind (.pure []) fun keys => .bind (.record _) fun _ => .pure _) fun _ _ _ _ _ _ => trivial
    obtain h | ⟨cls, u, -, k, hk, -⟩ := hA c hc
    · exact h
    · omega
  · refine ⟨{c | ∃ cls u, decodeAmf3String false s = .ok cls u ∧ ∃ k keys v, n >>> 3 = k + 1 ∧
      times (decodeAmf3String false) k u = .ok keys v ∧ c ∈ inlineContent true v},
      CutAt.result (Q := fun _ => True) ?_, fun h => absurd h hkeys⟩
    rw [hinline]
    refine ((cut_decodeAmf3String false).mapErr _).bind (fun cls u _ hzero => ?_) fun cls u hcls => ?_
    · obtain ⟨k, hk⟩ := Nat.exists_eq_succ_of_ne_zero hkeys
      rw [hk]
      exact (((fails_decodeAmf3String hzero).mapErr _).bind _).bind _
    · have hcls := mapErr_eq_ok.mp hcls
      refine (((CutAt.times (inlineContent true) (inlineContent true) (fun v hzero => fails_decodeAmf3String hzero)
        (fun k _ keys v _ => cut_decodeAmf3String true) ?_ fun c => ?_).of_imp (fun _ _ _ => times_mapErr_eq_ok)
        fun _ => fails_times_mapErr).bind_idle (fun keys => .bind (.record _) fun _ => .pure _)) fun _ _ _ _ _ _ => trivial
      · rintro c ⟨hc, hc'⟩
        obtain h | h := hA c hc
        · exact absurd h hc'
        · exact (exists_ok_iff hcls).mp h
      · exact exists_ok_iff hcls

/-- A reference to an object has no content. -/
theorem object_ref {i : Nat} {t : Decoding} (href : decodeReferenceInt s = .ok ⟨true, i⟩ t) :
    announced (.amf3Object, s) = ∅ ∧ endings (.amf3Object, s) = ∅ := by
  refine ⟨Set.eq_empty_iff_forall_notMem.mpr fun c hc => ?_, Set.eq_empty_iff_forall_notMem.mpr fun c hc => ?_⟩
  · obtain h | ⟨d, h, -⟩ := mem_announced.mp hc
    · cases h with
      | className href' _ _ => cases href.symm.trans href'
      | propertyKey href' _ _ _ _ _ => cases href.symm.trans href'
    · cases h with
      | className href' _ => cases href.symm.trans href'
      | propertyKey href' _ _ _ _ => cases href.symm.trans href'
      | body href' _ _ => cases href.symm.trans href'
  · cases hc with
    | className href' _ _ _ => cases href.symm.trans href'
    | body href' _ _ _ => cases href.symm.trans href'

/-- What an object comes to: its class name, its keys, or what stands in its body. -/
theorem mem_announced_object {n : Nat} {t : Decoding} (href : decodeReferenceInt s = .ok ⟨false, n⟩ t) {c : Content}
    (hc : c ∈ announced (.amf3Object, s)) :
    (n &&& 1 ≠ 0 ∧ (c ∈ inlineContent false t ∨ ∃ cls u, decodeAmf3String false t = .ok cls u ∧ ∃ k < n >>> 3,
      ∃ keys v, times (decodeAmf3String false) k u = .ok keys v ∧ c ∈ inlineContent true v)) ∨
    ∃ trait u v, decodeTrait n t = .ok trait u ∧ pushObject .null u = .ok () v ∧ c ∈ announced (.body trait, v) := by
  obtain h | ⟨d, h, hd⟩ := mem_announced.mp hc
  · cases h with
    | className href' hn hmem =>
        obtain ⟨heq, rfl⟩ := Outcome.ok.inj (href.symm.trans href')
        cases heq
        exact Or.inl ⟨hn, Or.inl hmem⟩
    | propertyKey href' hn hcls hk hkeys hmem =>
        obtain ⟨heq, rfl⟩ := Outcome.ok.inj (href.symm.trans href')
        cases heq
        exact Or.inl ⟨hn, Or.inr ⟨_, _, hcls, _, hk, _, _, hkeys, hmem⟩⟩
  · cases h with
    | className _ _ => exact absurd hd (notMem_announced (Or.inl rfl) c)
    | propertyKey _ _ _ _ _ => exact absurd hd (notMem_announced (Or.inl rfl) c)
    | body href' htrait hpush =>
        obtain ⟨heq, rfl⟩ := Outcome.ok.inj (href.symm.trans href')
        cases heq
        exact Or.inr ⟨_, _, _, htrait, hpush, hd⟩

/-- The trait of an object without properties. -/
def Bare (trait : Trait) : Prop := trait.externalizable = false ∧ trait.dynamic = false ∧ trait.properties = []

theorem bare_of_decodeTrait {n : Nat} (hn : n &&& 1 ≠ 0) (hplain : n &&& 2 = 0 ∧ n &&& 4 = 0 ∧ n >>> 3 = 0)
    {trait : Trait} {t : Decoding} (h : decodeTrait n s = .ok trait t) : Bare trait := by
  obtain ⟨hext, hdyn, hlength⟩ := trait_of_decodeTrait hn h
  rw [Bare, hext, hdyn, ← List.length_eq_zero_iff, hlength]
  simpa using hplain

/-- Nothing stands in its body. -/
theorem Bare.empty {trait : Trait} (h : Bare trait) (c : Content) :
    c ∉ announced (.body trait, s) ∧ ¬EndsIn (.body trait, s) c := by
  obtain ⟨hext, hdyn, hprops⟩ := h
  have hkeys : trait.keys = [] := by rw [Trait.keys, hprops, List.map_nil]
  constructor
  · intro hc
    obtain h | ⟨d, h, -⟩ := mem_announced.mp hc <;> cases h <;> simp_all
  · intro hc
    cases hc <;> simp_all

/-- The class name is then the last of an object. -/
theorem endings_bare {n : Nat} {t : Decoding} (href : decodeReferenceInt s = .ok ⟨false, n⟩ t) (hn : n &&& 1 ≠ 0)
    (hplain : n &&& 2 = 0 ∧ n &&& 4 = 0 ∧ n >>> 3 = 0) : endings (.amf3Object, s) = inlineContent false t := by
  ext c
  constructor
  · intro hc
    cases hc with
    | className href' _ _ hmem =>
        obtain ⟨-, rfl⟩ := Outcome.ok.inj (href.symm.trans href')
        exact hmem
    | body href' htrait _ h =>
        obtain ⟨heq, rfl⟩ := Outcome.ok.inj (href.symm.trans href')
        cases heq
        exact absurd h ((bare_of_decodeTrait hn hplain htrait).empty c).2
  · exact fun hc => .className href hn hplain hc

section
variable (hvalue : ∀ t, t.left < s.left → CutAt (announced (.amf3, t)) (endings (.amf3, t)) (fun _ => True) decodeAmf3 t)
include hvalue

/-- What follows the trait of an object, where it does not end with the trait. -/
theorem cut_afterTrait {n : Nat} {t u : Decoding} {trait : Trait} (href : decodeReferenceInt s = .ok ⟨false, n⟩ t)
    (htrait : decodeTrait n t = .ok trait u) {A : Set Content}
    (hA : ∀ c ∈ A, ∀ v, pushObject .null u = .ok () v → c ∈ announced (.body trait, v))
    (hplain : ∀ c, ¬(n &&& 1 ≠ 0 ∧ (n &&& 2 = 0 ∧ n &&& 4 = 0 ∧ n >>> 3 = 0) ∧ c ∈ inlineContent false t)) :
    CutAt A (endings (.amf3Object, s)) (fun _ => True) (pushObject .null >>= fun _ => decodeObjectBody decodeAmf3 trait) u := by
  have hlt : t.left < s.left := Consuming.lt_of_ok (fun _ => consuming_decodeReferenceInt) href
  have hle : u.left ≤ t.left := Settled.le_of_ok (fun m => settled_decodeTrait (n := m) n) htrait
  refine CutAt.bind_whole (.of_idle (.record _) (fun _ => id) fun _ => id) fun _ v hpush => ?_
  have hv : v.left = u.left := by
    cases hpush
    rfl
  have heq : endings (.amf3Object, s) = endings (.body trait, v) := by
    ext c
    constructor
    · intro hc
      cases hc with
      | className href' hn hflags hmem =>
          obtain ⟨heq, rfl⟩ := Outcome.ok.inj (href.symm.trans href')
          cases heq
          exact absurd ⟨hn, hflags, hmem⟩ (hplain c)
      | body href' htrait' hpush' h =>
          obtain ⟨heq, rfl⟩ := Outcome.ok.inj (href.symm.trans href')
          cases heq
          obtain ⟨rfl, rfl⟩ := Outcome.ok.inj (htrait.symm.trans htrait')
          obtain ⟨-, rfl⟩ := Outcome.ok.inj (hpush.symm.trans hpush')
          exact h
    · exact fun hc => .body href htrait hpush hc
  rw [heq]
  exact (cut_decodeObjectBody hvalue (by omega) trait).mono fun c hc => hA c hc v hpush

theorem cut_decodeAmf3Object :
    CutAt (announced (.amf3Object, s)) (endings (.amf3Object, s)) (fun _ => True) (decodeAmf3Object decodeAmf3 false) s := by
  rw [decodeAmf3Object, assertMarker_false, pure_bind]
  refine cut_ref (fun i t href => ?_) fun n t href => ?_
  · obtain ⟨hA, hE⟩ := object_ref href
    rw [hA, hE]
    exact (whole_index _ _).imp fun _ => False.elim
  · have hbody : ∀ {trait u}, decodeTrait n t = .ok trait u → ∀ c,
        (∃ trait u v, decodeTrait n t = .ok trait u ∧ pushObject .null u = .ok () v ∧ c ∈ announced (.body trait, v)) →
        ∀ v, pushObject .null u = .ok () v → c ∈ announced (.body trait, v) := by
      rintro trait u htrait c ⟨trait', u', v', htrait', hpush', hc⟩ v hpush
      obtain ⟨rfl, rfl⟩ := Outcome.ok.inj (htrait.symm.trans htrait')
      obtain ⟨-, rfl⟩ := Outcome.ok.inj (hpush.symm.trans hpush')
      exact hc
    by_cases hn : n &&& 1 = 0
    · -- A reference to a trait has no content.
      have hindex : decodeTrait n = index Decoder.traitRefs (n >>> 1) := if_pos hn
      refine CutAt.bind_whole (hindex ▸ whole_index _ _) fun trait u htrait => ?_
      refine cut_afterTrait hvalue href htrait (fun c hc => hbody htrait c ?_) fun c hc => hc.1 hn
      exact (mem_announced_object href hc).resolve_left fun h => h.1 hn
    · let T : Set Content := {c | c ∈ inlineContent false t ∨ ∃ cls u, decodeAmf3String false t = .ok cls u ∧
        ∃ k < n >>> 3, ∃ keys v, times (decodeAmf3String false) k u = .ok keys v ∧ c ∈ inlineContent true v}
      have hT : ∀ c ∈ announced (.amf3Object, s), c ∉ T →
          ∃ trait u v, decodeTrait n t = .ok trait u ∧ pushObject .null u = .ok () v ∧ c ∈ announced (.body trait, v) :=
        fun c hc hnot => (mem_announced_object href hc).resolve_left fun h => hnot h.2
      obtain ⟨E, htraits, hE⟩ := cut_decodeTrait (s := t) hn (A := T) fun c hc => hc
      by_cases hplain : n &&& 2 = 0 ∧ n &&& 4 = 0 ∧ n >>> 3 = 0
      · -- Nothing follows the class name.
        rw [endings_bare href hn hplain, ← hE hplain.2.2]
        refine (htraits.mono fun c hc => ?_).bind_idle_of (fun htrait => ?_) fun _ _ _ _ _ _ => trivial
        · by_contra hnot
          obtain ⟨trait, u, v, htrait, -, hbody⟩ := hT c hc hnot
          exact ((bare_of_decodeTrait hn hplain htrait).empty c).1 hbody
        · obtain ⟨hext, hdyn, hprops⟩ := bare_of_decodeTrait hn hplain htrait
          refine .bind (.record _) fun _ => ?_
          rw [decodeObjectBody, hext, hdyn, Trait.keys, hprops]
          exact .bind (.pure []) fun obj => .pure _
      · refine htraits.bind ?_ fun trait u htrait => ?_
        · rintro trait u ⟨s', t', htrait⟩ hzero
          obtain ⟨hext, hdyn, hlength⟩ := trait_of_decodeTrait hn htrait
          have hpush : pushObject .null u =
              .ok () ⟨{ u.decoder with objectRefs := u.decoder.objectRefs ++ [.null] }, u.r⟩ := rfl
          refine .of_ok hpush (fails_decodeObjectBody (by exact hzero) ?_)
          by_contra hnone
          obtain ⟨hnotExt, hnotDyn, hnil⟩ : ¬(n &&& 2 ≠ 0) ∧ ¬(n &&& 4 ≠ 0) ∧ trait.properties = [] := by
            simpa only [hext, hdyn, decide_eq_true_eq, not_or, not_not] using hnone
          exact hplain ⟨not_not.mp hnotExt, not_not.mp hnotDyn, hlength ▸ List.length_eq_zero_iff.mpr hnil⟩
        · refine cut_afterTrait hvalue href htrait (fun c hc => hbody htrait c (hT c hc.1 hc.2)) fun c hc => hplain hc.2.1

end

/-! ### Values -/

section
variable {marker : UInt8} {t : Decoding} (hmarker : readMarker s = .ok marker t)
include hmarker

/-- A value is content of its own, or holds what the function comes to that the marker calls. -/
theorem mem_announced_amf3 {c : Content} : c ∈ announced (.amf3, s) ↔ (ContentMarker marker ∧ c ∈ inlineContent true t) ∨
    ∃ site, siteOf marker = some site ∧ c ∈ announced (site, t) := by
  rw [mem_announced]
  constructor
  · rintro (h | ⟨d, h, hd⟩)
    · cases h with
      | value hmarker' hkind hmem =>
          obtain ⟨rfl, rfl⟩ := Outcome.ok.inj (hmarker.symm.trans hmarker')
          exact Or.inl ⟨hkind, hmem⟩
    · cases h with
      | marker hmarker' hsite =>
          obtain ⟨rfl, rfl⟩ := Outcome.ok.inj (hmarker.symm.trans hmarker')
          exact Or.inr ⟨_, hsite, hd⟩
  · rintro (⟨hkind, hmem⟩ | ⟨site, hsite, hd⟩)
    · exact Or.inl (.value hmarker hkind hmem)
    · exact Or.inr ⟨_, .marker hmarker hsite, hd⟩

theorem endsIn_amf3_iff {c : Content} : EndsIn (.amf3, s) c ↔ (ContentMarker marker ∧ c ∈ inlineContent true t) ∨
    ∃ site, siteOf marker = some site ∧ EndsIn (site, t) c := by
  constructor
  · intro hc
    cases hc with
    | value hmarker' hkind hmem =>
        obtain ⟨rfl, rfl⟩ := Outcome.ok.inj (hmarker.symm.trans hmarker')
        exact Or.inl ⟨hkind, hmem⟩
    | marker hmarker' hsite h =>
        obtain ⟨rfl, rfl⟩ := Outcome.ok.inj (hmarker.symm.trans hmarker')
        exact Or.inr ⟨_, hsite, h⟩
  · rintro (⟨hkind, hmem⟩ | ⟨site, hsite, h⟩)
    · exact .value hmarker hkind hmem
    · exact .marker hmarker hsite h

variable {x : Dec α} {f : α → Value}

/-- A string, an XML text or a byte array. -/
theorem cut_content {m : UInt8} {site : Site} {Q : α → Prop} (hkind : ContentMarker m) (hsite : siteOf m = some site)
    (hleaf : site = .amf3String ∨ site = .stored) (hx : CutAt (inlineContent true t) (inlineContent true t) Q x t)
    (hm : marker = m) : CutAt (announced (.amf3, s)) (endings (.amf3, s)) (fun _ => True) (do return f (← x)) t := by
  subst hm
  have hends : ∀ c, ¬EndsIn (site, t) c := by
    intro c hc
    rcases hleaf with rfl | rfl <;> cases hc
  have hE : endings (.amf3, s) = inlineContent true t := by
    ext c
    simp [endsIn_amf3_iff hmarker, hkind, hsite, hends]
  rw [hE]
  refine (hx.mono fun c hc => ?_).map f
  simpa [mem_announced_amf3 hmarker, hkind, hsite, notMem_announced hleaf] using hc

/-- A value that holds others. -/
theorem cut_call {m : UInt8} {site : Site} {y : Dec Value} (hkind : ¬ContentMarker m) (hsite : siteOf m = some site)
    (hy : CutAt (announced (site, t)) (endings (site, t)) (fun _ => True) y t) (hm : marker = m) :
    CutAt (announced (.amf3, s)) (endings (.amf3, s)) (fun _ => True) y t := by
  subst hm
  have hA : announced (.amf3, s) = announced (site, t) := by
    ext c
    simp [mem_announced_amf3 hmarker, hkind, hsite]
  have hE : endings (.amf3, s) = endings (site, t) := by
    ext c
    simp [endsIn_amf3_iff hmarker, hkind, hsite]
  rwa [hA, hE]

/-- A value that has no content. -/
theorem cut_other {m : UInt8} {y : Dec Value} (hkind : ¬ContentMarker m)
    (hsite : ∀ site, siteOf m = some site → site = .amf3String ∨ site = .stored) (hy : Whole ∅ y t) (hm : marker = m) :
    CutAt (announced (.amf3, s)) (endings (.amf3, s)) (fun _ => True) y t := by
  subst hm
  have hA : announced (.amf3, s) = ∅ := by
    refine Set.eq_empty_iff_forall_notMem.mpr fun c hc => ?_
    obtain ⟨h, -⟩ | ⟨site, h, hc⟩ := (mem_announced_amf3 hmarker).mp hc
    · exact hkind h
    · exact notMem_announced (hsite site h) c hc
  have hE : endings (.amf3, s) = ∅ := by
    refine Set.eq_empty_iff_forall_notMem.mpr fun c hc => ?_
    obtain ⟨h, -⟩ | ⟨site, h, hc⟩ := (endsIn_amf3_iff hmarker).mp hc
    · exact hkind h
    · rcases hsite site h with rfl | rfl <;> cases hc
  rw [hA, hE]
  exact hy.imp fun _ => False.elim

end

theorem whole_pure (a : α) : Whole ∅ (pure a : Dec α) s := .of_idle (.pure a) (fun _ => id) fun _ => id

theorem Whole.map {x : Dec α} (hx : Whole ∅ x s) (g : α → β) : Whole ∅ (do return g (← x)) s :=
  CutAt.bind_whole hx fun _ _ _ => whole_pure _

/-- The values of AMF3, where those that they hold are cut so. -/
theorem cut_amf3Value {marker : UInt8} {t : Decoding} (hmarker : readMarker s = .ok marker t)
    (hvalue : ∀ u, u.left < t.left → CutAt (announced (.amf3, u)) (endings (.amf3, u)) (fun _ => True) decodeAmf3 u) :
    CutAt (announced (.amf3, s)) (endings (.amf3, s)) (fun _ => True) (amf3Value decodeAmf3 marker) t := by
  have hplain : ∀ {m} {y : Dec Value}, ¬ContentMarker m → siteOf m = none → Whole ∅ y t → marker = m →
      CutAt (announced (.amf3, s)) (endings (.amf3, s)) (fun _ => True) y t := fun hkind hsite =>
    cut_other hmarker hkind fun site h => by simp [hsite] at h
  refine .ite (hplain (by decide) rfl (whole_pure _)) fun _ => ?_
  refine .ite (hplain (by decide) rfl (whole_pure _)) fun _ => ?_
  refine .ite (hplain (by decide) rfl (Whole.map (whole_pure _) _)) fun _ => ?_
  refine .ite (hplain (by decide) rfl (Whole.map (whole_pure _) _)) fun _ => ?_
  refine .ite (hplain (by decide) rfl (Whole.map (Whole.map (whole_u29Loop 3 0) _) _)) fun _ => ?_
  refine .ite (hplain (by decide) rfl (Whole.map (whole_readFloat64.mapErr _) _)) fun _ => ?_
  refine .ite (cut_content hmarker (by decide) rfl (.inl rfl) (cut_decodeAmf3String true)) fun _ => ?_
  refine .ite (cut_content hmarker (by decide) rfl (.inr rfl) cut_decodeAmf3Xml) fun _ => ?_
  refine .ite (cut_other hmarker (by decide) (fun site h => ?_) (Whole.map whole_decodeAmf3Date _)) fun _ => ?_
  · cases h
    exact Or.inr rfl
  refine .ite (cut_call hmarker (by decide) rfl ((cut_decodeAmf3Array hvalue).map _)) fun _ => ?_
  refine .ite (cut_call hmarker (by decide) rfl (cut_decodeAmf3Object hvalue)) fun _ => ?_
  refine .ite (cut_content hmarker (by decide) rfl (.inr rfl) cut_decodeAmf3Xml) fun _ => ?_
  exact .ite (cut_content hmarker (by decide) rfl (.inr rfl) cut_decodeAmf3ByteArray) fun _ => .fail _

/-- What a value of AMF3 takes, the content that it comes to and that with which it ends. -/
theorem cut_decodeAmf3 (s : Decoding) :
    CutAt (announced (.amf3, s)) (endings (.amf3, s)) (fun _ => True) decodeAmf3 s := by
  induction hn : s.left using Nat.strongRecOn generalizing s with
  | ind n ih =>
      rw [decodeAmf3_eq]
      refine whole_readByte.bind_whole fun marker t hmarker => cut_amf3Value hmarker fun u hu => ih u.left ?_ u rfl
      have hlt : t.left < s.left := Consuming.lt_of_ok (fun _ => consuming_readByte) hmarker
      omega

/-- The content with which a decoding ends is content that it comes to. -/
theorem EndsIn.announced {c : Site × Decoding} {a : Content} (h : EndsIn c a) : a ∈ announced c := by
  induction h with
  | value hmarker hkind hc => exact mem_announced.mpr (.inl (.value hmarker hkind hc))
  | marker hmarker hsite _ ih => exact mem_announced.mpr (.inr ⟨_, .marker hmarker hsite, ih⟩)
  | element href hkey hvs _ ih => exact mem_announced.mpr (.inr ⟨_, .element href hkey (Nat.lt_succ_self _) hvs, ih⟩)
  | className href hn _ hc => exact mem_announced.mpr (.inl (.className href hn hc))
  | body href htrait hpush _ ih => exact mem_announced.mpr (.inr ⟨_, .body href htrait hpush, ih⟩)
  | collection hext htype _ ih => exact mem_announced.mpr (.inr ⟨_, .collection hext htype, ih⟩)
  | asyncFields hext htype hobj _ ih => exact mem_announced.mpr (.inr ⟨_, .asyncFields hext (.inl htype) hobj, ih⟩)
  | acknowledgeFields hext htype hobj _ ih =>
      exact mem_announced.mpr (.inr ⟨_, .acknowledgeFields hext htype hobj, ih⟩)
  | property hext _ hk hvs _ ih => exact mem_announced.mpr (.inr ⟨_, .property hext (hk ▸ Nat.lt_succ_self _) hvs, ih⟩)
  | field hflags hk hvs _ ih => exact mem_announced.mpr (.inr ⟨_, .field hflags (hk ▸ Nat.lt_succ_self _) hvs, ih⟩)
  | acmplus hmarker _ ih => exact mem_announced.mpr (.inr ⟨_, .acmplus hmarker, ih⟩)
  | strictArray hmarker hlength hvs _ ih =>
      exact mem_announced.mpr (.inr ⟨_, .strictArray hmarker hlength (Nat.lt_succ_self _) hvs, ih⟩)

/-! ### Truncated input -/

/-- A fresh decoder over the bytes. -/
def fresh (p : Bytes) : Decoding := ⟨{}, ⟨.bytesReader, p⟩⟩

/-- Where decoding succeeds after taking some bytes, and had all that the lengths among them announce, no proper part of
these bytes is decoded; and in any case the content that the result keeps was there. -/
def DetectsTruncation (p : Bytes) : Prop :=
  ∀ v t, decodeAmf3 (fresh p) = .ok v t →
    ((∀ c ∈ announced (.amf3, fresh p), ¬c.Short) →
      ∀ j < p.length - t.left, ∃ e u, decodeAmf3 (fresh (p.take j)) = .err e u) ∧
    ∀ c ∈ announced (.amf3, fresh p), c.kept = true → ¬c.Short

/-- Truncation is detected exactly where no decoded value ends with content of two bytes or more, a class name that is
short apart. -/
theorem amf3_truncation_iff (p : Bytes) : DetectsTruncation p ↔
    ∀ v t, decodeAmf3 (fresh p) = .ok v t → ∀ c, EndsIn (.amf3, fresh p) c → c.length < 2 ∨ (c.kept = false ∧ c.Short) := by
  have hagrees : ∀ {k j}, j < k → Agrees k (fresh p) (fresh (p.take j)) := by
    intro k j hj
    refine ⟨rfl, rfl, ?_⟩
    change (p.take j).take k <+: p.take k
    rw [List.take_take, Nat.min_eq_right hj.le]
    exact List.take_prefix_take_left hj.le
  have hleft : ∀ q, (fresh q).left = q.length := fun q => rfl
  refine forall₃_congr fun v t hok => ?_
  obtain ⟨k, m, hrun⟩ := cut_decodeAmf3 (fresh p) v t hok
  have hk := hrun.le
  have ht := hrun.left_eq
  rw [hleft] at hk ht
  have hcut : ∀ {j}, j < k → (fresh (p.take j)).left = j := by
    intro j hj
    rw [hleft, List.length_take]
    omega
  have htaken : p.length - t.left = k := by omega
  rw [htaken]
  constructor
  · rintro ⟨hproper, hgiven⟩ c hc
    by_contra hnot
    obtain ⟨hlength, hkept⟩ : 2 ≤ c.length ∧ ¬(c.kept = false ∧ c.Short) := by
      simpa only [not_or, not_lt] using hnot
    obtain ⟨hpos, hstart, hm⟩ := hrun.last c hc (by omega)
    have hwhole : ¬c.Short := by
      intro hshort
      have htrue : c.kept = true := by
        rw [← Bool.not_eq_false]
        exact fun hfalse => hkept ⟨hfalse, hshort⟩
      exact hgiven c hc.announced htrue hshort
    -- One byte of the content is missing, and the rest is filled up.
    have hall : ∀ c' ∈ announced (.amf3, fresh p), ¬c'.Short := by
      intro c' hc' hshort
      have heq := hrun.single c hc c' (hrun.short c' hc' hshort)
      exact hwhole (heq ▸ hshort)
    unfold Content.Short at hwhole
    have hmk := hrun.last_le
    obtain ⟨e, u, herr⟩ := hproper hall (k - 1) (by omega)
    obtain ⟨v', t', hok', -⟩ := hrun.filled (fresh (p.take (k - 1))) (hagrees (by omega))
      (by rw [hcut (by omega)]; omega) (by rw [hcut (by omega)]; omega)
    rw [herr] at hok'
    cases hok'
  · intro hends
    constructor
    · intro hall j hj
      have hm : m < 2 := by
        by_contra hm
        obtain ⟨c, hc, hpos⟩ := hrun.exists_last (by omega)
        obtain ⟨-, -, hlength⟩ := hrun.last c hc hpos
        rcases hends c hc with hlt | ⟨-, hshort⟩
        · omega
        · exact hall c (EndsIn.announced hc) hshort
      exact hrun.missing (fresh (p.take j)) (hagrees hj) (by rw [hcut hj]; exact hj) (by rw [hcut hj]; omega)
    · intro c hc hkept hshort
      have hend := hrun.short c hc hshort
      unfold Content.Short at hshort
      obtain ⟨hpos, hstart, hm⟩ := hrun.last c hend (by omega)
      rcases hends c hend with hlt | ⟨hfalse, -⟩
      · omega
      · rw [hkept] at hfalse
        cases hfalse

/-- A string of two bytes of which the last is cut off. -/
theorem amf3_truncation_missed :
    decodeAmf3 (fresh [0x06, 0x05, 0x61, 0x62]) =
        .ok (.string (lit "ab")) ⟨{ stringRefs := [lit "ab"] }, ⟨.bytesReader, []⟩⟩ ∧
      decodeAmf3 (fresh [0x06, 0x05, 0x61]) =
        .ok (.string [0x61, 0x00]) ⟨{ stringRefs := [[0x61, 0x00]] }, ⟨.bytesReader, []⟩⟩ ∧
      ¬DetectsTruncation [0x06, 0x05, 0x61] := by
  have hshort : decodeAmf3 (fresh [0x06, 0x05, 0x61]) =
      .ok (.string [0x61, 0x00]) ⟨{ stringRefs := [[0x61, 0x00]] }, ⟨.bytesReader, []⟩⟩ := by
    rw [decodeAmf3_eq]
    rfl
  refine ⟨?_, hshort, fun h => ?_⟩
  · rw [decodeAmf3_eq]
    rfl
  · have hmarker : readMarker (fresh [0x06, 0x05, 0x61]) = .ok amf3StringMarker (fresh [0x05, 0x61]) := rfl
    have hannounced : (⟨true, 2, fresh [0x61]⟩ : Content) ∈ announced (.amf3, fresh [0x06, 0x05, 0x61]) :=
      mem_announced.mpr (.inl (.value hmarker (.inl rfl) ⟨rfl, rfl⟩))
    exact (h _ _ hshort).2 _ hannounced rfl (show 1 < 2 by decide)

end Amf

end Livego
