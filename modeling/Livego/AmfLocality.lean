import Livego.AmfReferences
import Mathlib.Data.List.Infix

/-! Decoding AMF0 is local: what a value is depends on the bytes that it takes, and on there being as many after them as
there were. With fewer bytes than it takes there is no value. -/

namespace Livego

open Fallible Call

namespace Amf

open Decoding (left)

variable {α β : Type}

theorem Decoding.skip_skip (j k : Nat) (s : Decoding) : (s.skip j).skip k = s.skip (j + k) := by
  simp [Decoding.skip]

/-- As far as `k` bytes go, `s'` reads what `s` does, or ends. -/
structure Agrees (k : Nat) (s s' : Decoding) : Prop where
  decoder : s'.decoder = s.decoder
  kind : s'.r.kind = s.r.kind
  unread : s'.r.unread.take k <+: s.r.unread.take k

theorem Agrees.mono {j k : Nat} {s s' : Decoding} (h : Agrees k s s') (hle : j ≤ k) : Agrees j s s' := by
  refine ⟨h.decoder, h.kind, ?_⟩
  have htake := h.unread.take j
  rwa [List.take_take, List.take_take, Nat.min_eq_left hle] at htake

theorem Agrees.skip {j k : Nat} {s s' : Decoding} (h : Agrees (j + k) s s') : Agrees k (s.skip j) (s'.skip j) := by
  refine ⟨h.decoder, h.kind, ?_⟩
  have hdrop := h.unread.drop j
  rwa [List.drop_take, List.drop_take, Nat.add_sub_cancel_left] at hdrop

/-- What is all there is the same. -/
theorem Agrees.take_eq {k : Nat} {s s' : Decoding} (h : Agrees k s s') (hle : k ≤ s'.left) (hle' : k ≤ s.left) :
    s'.r.unread.take k = s.r.unread.take k := by
  refine h.unread.eq_of_length ?_
  rw [List.length_take_of_le hle, List.length_take_of_le hle']

def Fails (x : Dec α) (s : Decoding) : Prop := ∃ e t, x s = .err e t

/-- Where it succeeds, the call takes some bytes. Wherever these are it has the same result, unless fewer follow them, and
without all of them it fails. -/
def LocalAt (x : Dec α) (s : Decoding) : Prop :=
  ∀ a t, x s = .ok a t → ∃ k ≤ s.left, t = s.skip k ∧ ∀ s', Agrees k s s' →
    (s'.left < k → Fails x s') ∧ (k ≤ s'.left → x s' = .ok a (s'.skip k) ∨ s'.left < s.left ∧ Fails x s')

theorem Fails.bind {x : Dec α} {s : Decoding} (h : Fails x s) (f : α → Dec β) : Fails (x >>= f) s := by
  obtain ⟨e, t, hx⟩ := h
  exact ⟨e, t, bind_of_err hx⟩

theorem Fails.of_ok {x : Dec α} {f : α → Dec β} {s t : Decoding} {a : α} (hx : x s = .ok a t) (h : Fails (f a) t) :
    Fails (x >>= f) s := by
  obtain ⟨e, u, hf⟩ := h
  exact ⟨e, u, (bind_of_ok hx).trans hf⟩

theorem Fails.mapErr {x : Dec α} {s : Decoding} (h : Fails x s) (f : GoError → GoError) : Fails (mapErr f x) s := by
  obtain ⟨e, t, hx⟩ := h
  exact ⟨f e, t, by rw [Call.mapErr, hx]⟩

namespace LocalAt

variable {x y : Dec α} {f : α → Dec β} {s : Decoding}

theorem pure (a : α) : LocalAt (pure a) s := by
  intro b t hok
  obtain ⟨rfl, rfl⟩ := Outcome.ok.inj hok
  exact ⟨0, Nat.zero_le _, rfl, fun s' _ => ⟨fun hlt => absurd hlt (Nat.not_lt_zero _), fun _ => Or.inl rfl⟩⟩

theorem fail (e : GoError) : LocalAt (Call.fail e : Dec α) s := by
  intro a t hok
  cases hok

/-- The rule of sequencing. -/
theorem bind (hx : LocalAt x s) (hf : ∀ a t, x s = .ok a t → LocalAt (f a) t) : LocalAt (x >>= f) s := by
  intro b u hok
  obtain ⟨a, t, hxs, hfa⟩ := bind_eq_ok.mp hok
  obtain ⟨j, hj, rfl, hfirst⟩ := hx a t hxs
  obtain ⟨k, hk, rfl, hrest⟩ := hf a _ hxs b u hfa
  rw [Decoding.left_skip] at hk
  refine ⟨j + k, by omega, s.skip_skip j k, fun s' hagrees => ?_⟩
  obtain ⟨hshort, hlong⟩ := hfirst s' (hagrees.mono (Nat.le_add_right j k))
  obtain ⟨hshort', hlong'⟩ := hrest (s'.skip j) hagrees.skip
  rw [Decoding.left_skip, Decoding.left_skip] at *
  by_cases hle : j ≤ s'.left
  · rcases hlong hle with hsame | ⟨hless, hfails⟩
    · refine ⟨fun hlt => .of_ok hsame (hshort' (by omega)), fun hle' => ?_⟩
      rcases hlong' (by omega) with hsame' | ⟨hless', hfails'⟩
      · left
        rw [bind_of_ok hsame, hsame', Decoding.skip_skip]
      · exact Or.inr ⟨by omega, .of_ok hsame hfails'⟩
    · exact ⟨fun _ => hfails.bind f, fun _ => Or.inr ⟨hless, hfails.bind f⟩⟩
  · have hfails := hshort (by omega)
    exact ⟨fun _ => hfails.bind f, fun hle' => by omega⟩

theorem mapErr {h : GoError → GoError} (hx : LocalAt x s) : LocalAt (mapErr h x) s := by
  intro a t hok
  obtain ⟨k, hk, rfl, hrest⟩ := hx a t (mapErr_eq_ok.mp hok)
  refine ⟨k, hk, rfl, fun s' hagrees => ?_⟩
  obtain ⟨hshort, hlong⟩ := hrest s' hagrees
  refine ⟨fun hlt => (hshort hlt).mapErr h, fun hle => ?_⟩
  rcases hlong hle with hsame | ⟨hless, hfails⟩
  · exact Or.inl (mapErr_eq_ok.mpr hsame)
  · exact Or.inr ⟨hless, hfails.mapErr h⟩

theorem ite {c : Prop} [Decidable c] (hx : c → LocalAt x s) (hy : ¬c → LocalAt y s) : LocalAt (if c then x else y) s := by
  by_cases hc : c
  · rw [if_pos hc]
    exact hx hc
  · rw [if_neg hc]
    exact hy hc

/-- What succeeds and fails as a local call does is local. -/
theorem of_imp (hy : LocalAt y s) (hok : ∀ a t, x s = .ok a t → y s = .ok a t)
    (hsame : ∀ s' a t, y s' = .ok a t → x s' = .ok a t) (hfails : ∀ s', Fails y s' → Fails x s') : LocalAt x s := by
  intro a t hxs
  obtain ⟨k, hk, rfl, hrest⟩ := hy a t (hok a t hxs)
  refine ⟨k, hk, rfl, fun s' hagrees => ?_⟩
  obtain ⟨hshort, hlong⟩ := hrest s' hagrees
  refine ⟨fun hlt => hfails s' (hshort hlt), fun hle => ?_⟩
  rcases hlong hle with hys | ⟨hless, hys⟩
  · exact Or.inl (hsame s' a _ hys)
  · exact Or.inr ⟨hless, hfails s' hys⟩

/-- The calls of `x`, one after the other, where each of them is local. -/
theorem times {n : Nat} (hx : ∀ k < n, ∀ as t, Call.times x k s = .ok as t → LocalAt x t) : LocalAt (Call.times x n) s := by
  induction n generalizing s with
  | zero => exact .pure []
  | succ n ih =>
      refine (hx 0 (by omega) [] s rfl).bind fun a t ha => ?_
      refine (ih fun k hk as u has => hx (k + 1) (by omega) (a :: as) u ?_).bind fun as u _ => .pure (a :: as)
      rw [Call.times, bind_of_ok ha, bind_of_ok has]
      rfl

/-- A loop that takes bytes turn by turn, where each turn is local. -/
theorem loop {body : β → Dec (β ⊕ α)} (hμ : Decreases body fun _ => left) {b : β} {s : Decoding}
    (hbody : ∀ b' t, Visits body b s b' t → LocalAt (body b') t) :
    LocalAt (get >>= fun s => Call.loop body (left s + 1) b) s := by
  induction hn : s.left using Nat.strongRecOn generalizing b s with
  | ind n ih =>
      rw [get_loop_eq hμ]
      refine (hbody b s (.here b s)).bind fun r t hturn => ?_
      cases r with
      | inl b' => exact ih t.left (hn ▸ hμ b s b' t hturn) (fun c u hvisit => hbody c u (.next hturn hvisit)) rfl
      | inr a => exact .pure a

end LocalAt

/-! ### The decoder -/

theorem local_readUint (n : Nat) (s : Decoding) : LocalAt (readUint n) s := by
  intro a t hok
  by_cases hle : n ≤ s.left
  · obtain ⟨rfl, rfl⟩ := Outcome.ok.inj ((readUint_of_le hle).symm.trans hok)
    refine ⟨n, hle, rfl, fun s' hagrees => ⟨fun hlt => ⟨_, _, readUint_of_lt hlt⟩, fun hle' => Or.inl ?_⟩⟩
    rw [readUint_of_le hle', Decoding.unread, hagrees.take_eq hle' hle]
    rfl
  · rw [readUint_of_lt (not_le.mp hle)] at hok
    cases hok

/-- What `ReadBytes` does: the reader's error at the end, its own before it. -/
theorem readBytes_eq (n : Nat) (s : Decoding) : readBytes n s =
    if s.r.unread = [] ∧ (s.r.kind = .bytesReader ∨ n ≠ 0) then .err .eof s
    else if n ≤ s.left then .ok (s.r.unread.take n) (s.skip n)
    else .err (.errorf s!"decode read bytes failed: expected {s.left} got {n}") (s.skip n) := by
  rw [readBytes, bind_apply, read]
  split_ifs with hnil hle
  · rfl
  · have hlen : (s.r.unread.take n).length = n := List.length_take_of_le hle
    simp only [hlen, ne_eq, not_true_eq_false, if_false]
    rfl
  · have hgt : s.r.unread.length < n := not_le.mp hle
    have hlen : (s.r.unread.take n).length = s.left := by
      rw [List.length_take, Nat.min_eq_right hgt.le]
      rfl
    simp only [hlen, if_pos (not_le.mp hle).ne]
    rfl

theorem fails_readBytes {n : Nat} {s : Decoding} (hlt : s.left < n) : Fails (readBytes n) s := by
  rw [Fails, readBytes_eq]
  split_ifs with hnil hle
  · exact ⟨_, _, rfl⟩
  · exact absurd hle (not_le.mpr hlt)
  · exact ⟨_, _, rfl⟩

/-- No bytes are read at the end of the input only if some are there, which is where it matters what follows. -/
theorem local_readBytes (n : Nat) (s : Decoding) : LocalAt (readBytes n) s := by
  intro a t hok
  rw [readBytes_eq] at hok
  split_ifs at hok with hnil hle
  obtain ⟨rfl, rfl⟩ := Outcome.ok.inj hok
  refine ⟨n, hle, rfl, fun s' hagrees => ⟨fails_readBytes, fun hle' => ?_⟩⟩
  by_cases hnil' : s'.r.unread = [] ∧ (s'.r.kind = .bytesReader ∨ n ≠ 0)
  · right
    rw [Fails, readBytes_eq, if_pos hnil']
    refine ⟨?_, _, _, rfl⟩
    have hne : s.r.unread ≠ [] := fun hs => hnil ⟨hs, hagrees.kind ▸ hnil'.2⟩
    rw [left, left, hnil'.1]
    exact List.length_pos_iff.mpr hne
  · left
    rw [readBytes_eq, if_neg hnil', if_pos hle', hagrees.take_eq hle' hle]

theorem local_readByte (s : Decoding) : LocalAt readByte s :=
  (local_readBytes 1 s).bind fun bytes _ _ => .pure (bytes.headD 0)

theorem local_assertMarker (checkMarker : Bool) (m : UInt8) (s : Decoding) : LocalAt (assertMarker checkMarker m) s := by
  cases checkMarker with
  | false => exact .pure ()
  | true => exact (local_readByte s).bind fun marker _ _ => .ite (fun _ => .fail _) fun _ => .pure ()

theorem local_decodeAmf0Number (m : Bool) (s : Decoding) : LocalAt (decodeAmf0Number m) s :=
  (local_assertMarker m _ s).bind fun _ t _ => ((local_readUint 8 t).bind fun _ _ _ => .pure _).mapErr

theorem local_decodeAmf0Boolean (m : Bool) (s : Decoding) : LocalAt (decodeAmf0Boolean m) s :=
  (local_assertMarker m _ s).bind fun _ t _ => (local_readByte t).bind fun _ _ _ =>
    .ite (fun _ => .pure _) fun _ => .ite (fun _ => .pure _) fun _ => .fail _

theorem local_decodeAmf0String (m : Bool) (s : Decoding) : LocalAt (decodeAmf0String m) s :=
  (local_assertMarker m _ s).bind fun _ t _ => (local_readUint 2 t).mapErr.bind fun length u _ =>
    (local_readBytes length u).mapErr

theorem local_decodeAmf0Date (m : Bool) (s : Decoding) : LocalAt (decodeAmf0Date m) s :=
  (local_assertMarker m _ s).bind fun _ t _ => (local_decodeAmf0Number false t).mapErr.bind fun _ u _ =>
    (local_readBytes 2 u).mapErr.bind fun _ _ _ => .pure _

theorem local_decodeAmf0LongString (m : Bool) (s : Decoding) : LocalAt (decodeAmf0LongString m) s :=
  (local_assertMarker m _ s).bind fun _ t _ => (local_readUint 4 t).mapErr.bind fun length u _ =>
    (local_readBytes length u).mapErr

/-- A decoding that hands no value on to the AMF3 decoder: none that it comes to is marked so. -/
def Unmixed (c : Site × Decoding) : Prop :=
  ∀ t u, Relation.ReflTransGen Calls c (.amf0, t) → readMarker t ≠ .ok amf0AcmplusObjectMarker u

theorem Unmixed.of_calls {c d : Site × Decoding} (h : Unmixed c) (hcalls : Calls c d) : Unmixed d :=
  fun t u hreach => h t u (.head hcalls hreach)

/-- The entries of an object, where its values are decoded locally. -/
theorem local_decodeAmf0Object {s : Decoding} (h : Unmixed (.amf0Object, s))
    (hvalue : ∀ t, t.left < s.left → Unmixed (.amf0, t) → LocalAt decodeAmf0 t) :
    LocalAt (decodeAmf0Object decodeAmf0 false) s := by
  have hμ := Consuming.decreases fun n => consuming_objectTurn (n := n) settled_decodeAmf0
  refine LocalAt.loop hμ fun obj t hvisit => ?_
  refine (local_decodeAmf0String false t).bind fun key u hkey => ?_
  refine .ite (fun _ => ?_) fun hne => ?_
  · exact (local_assertMarker true _ u).mapErr.bind fun _ _ _ => .pure _
  · have hlt : u.left < t.left := Consuming.lt_of_ok (fun _ => consuming_decodeAmf0String) hkey
    have hle : t.left ≤ s.left := Visits.le hμ hvisit
    have hlocal := hvalue u (by omega) (h.of_calls (.entry hvisit hkey hne))
    exact hlocal.mapErr.bind fun _ _ _ => .pure _

/-- At the end of the input there is no object. -/
theorem fails_decodeAmf0Object {s : Decoding} (hnil : s.left = 0) : Fails (decodeAmf0Object decodeAmf0 false) s := by
  have hlength : Fails (readUint 2) s := ⟨_, _, readUint_of_lt (by omega)⟩
  have hkey : Fails (decodeAmf0String false) s := (hlength.mapErr _).bind _
  obtain ⟨e, t, hturn⟩ : Fails (objectTurn decodeAmf0 []) s := hkey.bind _
  refine ⟨e, t, ?_⟩
  rw [decodeAmf0Object, assertMarker_false, Call.pure_bind, get_bind_apply, loop_succ, hturn]

/-- The object of an ECMA array. -/
def ecmaObject : Dec Object := wrap "decode amf0: unable to decode ecma array object" (decodeAmf0Object decodeAmf0 false)

theorem ecmaArray_of_le {s : Decoding} (hle : 4 ≤ s.left) :
    decodeAmf0EcmaArray decodeAmf0 false s = ecmaObject (s.skip 4) ∧
      (readUint 4 >>= fun _ => ecmaObject) s = ecmaObject (s.skip 4) := by
  have hecma : decodeAmf0EcmaArray decodeAmf0 false = attempt (readUint 4) >>= fun _ => ecmaObject := rfl
  have hlength := readUint_of_le hle
  exact ⟨by rw [hecma, bind_of_ok (attempt_of_ok hlength)], by rw [bind_of_ok hlength]⟩

/-- The length may be read without success, but then there is no object after it. -/
theorem ecmaArray_of_lt {s : Decoding} (hlt : s.left < 4) : Fails (decodeAmf0EcmaArray decodeAmf0 false) s := by
  have hnil : (s.skip 4).left = 0 := by
    rw [Decoding.left_skip]
    omega
  have hecma : decodeAmf0EcmaArray decodeAmf0 false = attempt (readUint 4) >>= fun _ => ecmaObject := rfl
  rw [hecma]
  exact .of_ok (attempt_of_err (readUint_of_lt hlt)) ((fails_decodeAmf0Object hnil).mapErr _)

/-- It makes no difference to a result that the error of the length is dropped. -/
theorem ecmaArray_eq_ok {s t : Decoding} {obj : Object} :
    decodeAmf0EcmaArray decodeAmf0 false s = .ok obj t ↔ (readUint 4 >>= fun _ => ecmaObject) s = .ok obj t := by
  by_cases hle : 4 ≤ s.left
  · rw [(ecmaArray_of_le hle).1, (ecmaArray_of_le hle).2]
  · obtain ⟨e, u, herr⟩ := ecmaArray_of_lt (not_le.mp hle)
    rw [herr, bind_of_err (readUint_of_lt (not_le.mp hle))]
    constructor <;> intro h <;> cases h

theorem fails_ecmaArray {s : Decoding} (hfails : Fails (readUint 4 >>= fun _ => ecmaObject) s) :
    Fails (decodeAmf0EcmaArray decodeAmf0 false) s := by
  by_cases hle : 4 ≤ s.left
  · rwa [Fails, (ecmaArray_of_le hle).1, ← (ecmaArray_of_le hle).2]
  · exact ecmaArray_of_lt (not_le.mp hle)

theorem local_decodeAmf0EcmaArray {s : Decoding}
    (hobject : ∀ n t, readUint 4 s = .ok n t → LocalAt (decodeAmf0Object decodeAmf0 false) t) :
    LocalAt (decodeAmf0EcmaArray decodeAmf0 false) s := by
  refine LocalAt.of_imp (y := readUint 4 >>= fun _ => ecmaObject) ?_ (fun _ _ => ecmaArray_eq_ok.mp)
    (fun _ _ _ => ecmaArray_eq_ok.mpr) fun _ => fails_ecmaArray
  exact (local_readUint 4 s).bind fun n t hlength => (hobject n t hlength).mapErr

theorem local_decodeAmf0StrictArray {s : Decoding} (hvalue : ∀ length t, readUint 4 s = .ok length t → ∀ k < length,
      ∀ vs u, times decodeAmf0 k t = .ok vs u → LocalAt decodeAmf0 u) :
    LocalAt (decodeAmf0StrictArray decodeAmf0 false) s := by
  rw [decodeAmf0StrictArray, assertMarker_false, Call.pure_bind]
  refine (local_readUint 4 s).mapErr.bind fun length t hlength => .times fun k hk vs u hvs => ?_
  exact (hvalue length t (mapErr_eq_ok.mp hlength) k hk vs u (times_mapErr_eq_ok.mp hvs)).mapErr

theorem local_decodeAmf0TypedObject {s : Decoding}
    (hobject : ∀ type t, decodeAmf0String false s = .ok type t → LocalAt (decodeAmf0Object decodeAmf0 false) t) :
    LocalAt (decodeAmf0TypedObject decodeAmf0 false) s := by
  rw [decodeAmf0TypedObject, assertMarker_false, Call.pure_bind]
  refine (local_decodeAmf0String false s).mapErr.bind fun type t htype => ?_
  exact (hobject type t (mapErr_eq_ok.mp htype)).mapErr.bind fun _ _ _ => .pure _

theorem local_decodeAmf0 {s : Decoding} (h : Unmixed (.amf0, s)) : LocalAt decodeAmf0 s := by
  induction hn : s.left using Nat.strongRecOn generalizing s with
  | ind n ih =>
      rw [decodeAmf0_eq]
      refine (local_readByte s).bind fun marker t hmarker => ?_
      have hlt : t.left < s.left := Consuming.lt_of_ok (fun _ => consuming_readByte) hmarker
      have hvalue : ∀ u, u.left ≤ t.left → Unmixed (.amf0, u) → LocalAt decodeAmf0 u :=
        fun u hle hu => ih u.left (by omega) hu rfl
      refine .ite (fun _ => (local_decodeAmf0Number _ t).bind fun _ _ _ => .pure _) fun _ => ?_
      refine .ite (fun _ => (local_decodeAmf0Boolean _ t).bind fun _ _ _ => .pure _) fun _ => ?_
      refine .ite (fun _ => (local_decodeAmf0String _ t).bind fun _ _ _ => .pure _) fun _ => ?_
      refine .ite (fun hm => ?_) fun _ => ?_
      · subst hm
        have hobject := local_decodeAmf0Object (h.of_calls (.object hmarker)) fun u hu => hvalue u hu.le
        exact hobject.bind fun _ _ _ => .pure _
      refine .ite (fun _ => .fail _) fun _ => ?_
      refine .ite (fun _ => (local_assertMarker _ _ t).bind fun _ _ _ => .pure _) fun _ => ?_
      refine .ite (fun _ => (local_assertMarker _ _ t).bind fun _ _ _ => .pure _) fun _ => ?_
      refine .ite (fun _ => .fail _) fun _ => ?_
      refine .ite (fun hm => ?_) fun _ => ?_
      · subst hm
        refine (local_decodeAmf0EcmaArray fun n u hlength => ?_).bind fun _ _ _ => .pure _
        have hle : u.left ≤ t.left := Settled.le_of_ok (fun _ => settled_readUint 4) hlength
        have hunmixed := h.of_calls (.ecmaArray hmarker (attempt_of_ok hlength))
        exact local_decodeAmf0Object hunmixed fun v hv => hvalue v (by omega)
      refine .ite (fun hm => ?_) fun _ => ?_
      · subst hm
        refine (local_decodeAmf0StrictArray fun length u hlength k hk vs v hvs => ?_).bind fun _ _ _ => .pure _
        have hle : u.left ≤ t.left := Settled.le_of_ok (fun _ => settled_readUint 4) hlength
        have hle' : v.left ≤ u.left := Settled.le_of_ok (fun _ => settled_decodeAmf0.times k) hvs
        exact hvalue v (by omega) (h.of_calls (.strictArray hmarker hlength hk hvs))
      refine .ite (fun _ => (local_decodeAmf0Date _ t).bind fun _ _ _ => .pure _) fun _ => ?_
      refine .ite (fun _ => (local_decodeAmf0LongString _ t).bind fun _ _ _ => .pure _) fun _ => ?_
      refine .ite (fun _ => (local_assertMarker _ _ t).bind fun _ _ _ => .pure _) fun _ => ?_
      refine .ite (fun _ => .fail _) fun _ => ?_
      refine .ite (fun _ => ?_) fun _ => ?_
      · exact ((local_assertMarker _ _ t).bind fun _ u _ => local_decodeAmf0LongString _ u).bind fun _ _ _ => .pure _
      refine .ite (fun hm => ?_) fun _ => ?_
      · subst hm
        refine local_decodeAmf0TypedObject fun type u htype => ?_
        have hle : u.left ≤ t.left := Settled.le_of_ok (fun _ => settled_decodeAmf0String false) htype
        exact local_decodeAmf0Object (h.of_calls (.typedObject hmarker htype)) fun v hv => hvalue v (by omega)
      refine .ite (fun hm => ?_) fun _ => .fail _
      subst hm
      exact absurd hmarker (h s t .refl)

/-- What the value in `b` is depends on the bytes that it takes, and every part of these is too short for it. -/
theorem decodeAmf0_local {d : Decoder} {kind : ReaderKind} {b : Bytes} {v : Value} {t : Decoding}
    (h : Unmixed (.amf0, ⟨d, ⟨kind, b⟩⟩)) (hok : decodeAmf0 ⟨d, ⟨kind, b⟩⟩ = .ok v t) :
    ∃ k ≤ b.length, t = ⟨d, ⟨kind, b.drop k⟩⟩ ∧
      (∀ b', b'.take k = b.take k → b.length ≤ b'.length →
        decodeAmf0 ⟨d, ⟨kind, b'⟩⟩ = .ok v ⟨d, ⟨kind, b'.drop k⟩⟩) ∧
      ∀ j < k, ∃ e t', decodeAmf0 ⟨d, ⟨kind, b.take j⟩⟩ = .err e t' := by
  obtain ⟨k, hk, rfl, hrest⟩ := local_decodeAmf0 h v t hok
  refine ⟨k, hk, rfl, fun b' hsame hle => ?_, fun j hj => ?_⟩
  · have hagrees : Agrees k ⟨d, ⟨kind, b⟩⟩ ⟨d, ⟨kind, b'⟩⟩ := ⟨rfl, rfl, hsame ▸ List.prefix_rfl⟩
    rcases (hrest _ hagrees).2 (hk.trans hle) with hsame' | ⟨hless, -⟩
    · exact hsame'
    · exact absurd hless (not_lt.mpr hle)
  · have hagrees : Agrees k ⟨d, ⟨kind, b⟩⟩ ⟨d, ⟨kind, b.take j⟩⟩ := by
      refine ⟨rfl, rfl, ?_⟩
      rw [List.take_take, Nat.min_eq_right hj.le]
      exact List.take_prefix_take_left hj.le
    exact (hrest _ hagrees).1 ((List.length_take_le j b).trans_lt hj)

/-- An empty string, with a byte after it. -/
def emptyString : Bytes := [0x02, 0x00, 0x00, 0x05]

theorem unmixed_emptyString (kind : ReaderKind) : Unmixed (.amf0, ⟨{}, ⟨kind, emptyString⟩⟩) := by
  have hmarker : readMarker ⟨{}, ⟨kind, emptyString⟩⟩ = .ok amf0StringMarker ⟨{}, ⟨kind, [0x00, 0x00, 0x05]⟩⟩ := rfl
  intro t u hreach hacmplus
  obtain hrefl | ⟨c, hcalls, -⟩ := Relation.ReflTransGen.cases_head hreach
  · cases hrefl
    cases hmarker.symm.trans hacmplus
  · cases hcalls with
    | object h => cases hmarker.symm.trans h
    | ecmaArray h => cases hmarker.symm.trans h
    | typedObject h => cases hmarker.symm.trans h
    | strictArray h => cases hmarker.symm.trans h
    | acmplus h => cases hmarker.symm.trans h

theorem decodeAmf0_local_emptyString :
    ∃ k ≤ emptyString.length,
      (⟨{}, ⟨.bytesReader, [0x05]⟩⟩ : Decoding) = ⟨{}, ⟨.bytesReader, emptyString.drop k⟩⟩ ∧
      (∀ b', b'.take k = emptyString.take k → emptyString.length ≤ b'.length →
        decodeAmf0 ⟨{}, ⟨.bytesReader, b'⟩⟩ = .ok (.string []) ⟨{}, ⟨.bytesReader, b'.drop k⟩⟩) ∧
      ∀ j < k, ∃ e t', decodeAmf0 ⟨{}, ⟨.bytesReader, emptyString.take j⟩⟩ = .err e t' :=
  decodeAmf0_local (unmixed_emptyString .bytesReader) rfl

end Amf

end Livego
