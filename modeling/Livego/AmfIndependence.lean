import Livego.AmfReferences
import Livego.AmfRoundTrip

/-! One decoder for a whole connection: which messages are decoded as they would be by a decoder of their own. -/

namespace Livego

open Fallible Call Outcome

namespace Amf

/-- What a caller of `DecodeBatch` is given: the values and the error, or no return at all. -/
def answer (d : Decoder) (r : Reader) : Outcome GoError Unit (List Value × GoError) :=
  (decodeBatch 0 ⟨d, r⟩).forget

/-- The decoder makes of the message what a fresh one does. -/
def SameAsFresh (d : Decoder) (r : Reader) : Prop := answer d r = answer {} r

/-- The tables hold nothing that a message can refer to. -/
def Decoder.Blank (d : Decoder) : Prop := d.stringRefs = [] ∧ d.objectRefs = [] ∧ d.traitRefs = []

/-- The decoder after one message and then another, where none stopped it. -/
def Decoder.after (d : Decoder) (payloads : List Bytes) : Option Decoder :=
  match payloads with
  | [] => some d
  | p :: payloads =>
    match decodeBatch 0 ⟨d, ⟨.bytesReader, p⟩⟩ with
    | .ok _ s => s.decoder.after payloads
    | _ => none

theorem Decoder.Blank.eq_fresh {d : Decoder} (h : d.Blank) : d = {} := by
  obtain ⟨strings, objects, traits⟩ := d
  obtain ⟨rfl, rfl, rfl⟩ := h
  rfl

/-- What an encoder of this program has written refers to nothing: every decoder makes the same of it. -/
theorem sameAsFresh_batchBytes {kind : ReaderKind} {vs : List Value} (h : ∀ v ∈ vs, Plain v) (hend : Ends kind vs)
    (d : Decoder) : SameAsFresh d ⟨kind, batchBytes vs⟩ := by
  unfold SameAsFresh answer
  rw [decodeBatch_batchBytes h hend, decodeBatch_batchBytes h hend]
  rfl

/-! ### Messages that tell a used decoder from a fresh one -/

/-- A message that refers to the first string of the table. -/
def firstString : Bytes := [0x11, 0x06, 0x00]

/-- To the first object. -/
def firstObject : Bytes := [0x11, 0x0a, 0x00]

/-- An object of the first trait. -/
def firstTrait : Bytes := [0x11, 0x0a, 0x01]

theorem panics_of_fresh {p : Bytes} (kind : ReaderKind) (h : p = firstString ∨ p = firstObject ∨ p = firstTrait) :
    (decodeBatch 0 ⟨{}, ⟨kind, p⟩⟩).Panics := by
  cases kind with
  | bytesReader => rcases h with rfl | rfl | rfl <;> exact trivial
  | bytesBuffer => rcases h with rfl | rfl | rfl <;> exact trivial

/-- At the end of a message there is no reference to read. -/
theorem not_faults_of_left {site : Site} {s : Decoding} (h : s.left = 0) : ¬Faults (site, s) := by
  intro hfaults
  obtain ⟨⟨site', t⟩, hreach, r, hr, -⟩ := (reaches_iff (P := Faults) (R := Calls)
    (μ := fun c => 3 * c.2.left + c.1.rank) (B := fun c => ∃ r, Refers c.1 c.2 r ∧ ¬r.InRange)
    (fun c => faults_iff c.1 c.2) (fun c d h => calls_decreases h) (site, s)).mp hfaults
  have hleft : t.left = 0 := by
    have hle : 3 * t.left + site'.rank ≤ 3 * s.left + site.rank := by
      generalize hc : (site', t) = c at hreach
      have : 3 * c.2.left + c.1.rank ≤ 3 * s.left + site.rank := by
        clear hc hr hfaults
        induction hreach with
        | refl => exact Nat.le_refl _
        | tail _ hcall ih => exact (calls_decreases hcall).le.trans ih
      subst hc
      exact this
    have hrank : site.rank < 3 := by cases site <;> simp [Site.rank]
    omega
  have href {ref u} (h : decodeReferenceInt t = .ok ref u) : False := by
    have := left_lt (fun _ => consuming_decodeReferenceInt) h
    omega
  cases hr with
  | string h => exact href h
  | stored h => exact href h
  | array h => exact href h
  | object h => exact href h
  | trait h _ => exact href h

theorem not_panics_firstString (d : Decoder) (kind : ReaderKind) (h : d.stringRefs ≠ []) :
    ¬(decodeBatch 0 ⟨d, ⟨kind, firstString⟩⟩).Panics := by
  obtain ⟨str, strings, hd⟩ := List.exists_cons_of_ne_nil h
  obtain ⟨strings', objects, traits⟩ := d
  subst hd
  have hbatch : decodeBatch 0 ⟨⟨str :: strings, objects, traits⟩, ⟨kind, firstString⟩⟩ =
      .ok ([.string str], .eof) ⟨⟨str :: strings, objects, traits⟩, ⟨kind, []⟩⟩ := by
    cases kind <;> with_unfolding_all rfl
  rw [hbatch]
  exact id

theorem not_panics_firstObject (d : Decoder) (kind : ReaderKind) (h : d.objectRefs ≠ []) :
    ¬(decodeBatch 0 ⟨d, ⟨kind, firstObject⟩⟩).Panics := by
  obtain ⟨obj, objects, hd⟩ := List.exists_cons_of_ne_nil h
  obtain ⟨strings, objects', traits⟩ := d
  subst hd
  have hbatch : decodeBatch 0 ⟨⟨strings, obj :: objects, traits⟩, ⟨kind, firstObject⟩⟩ =
      .ok ([obj], .eof) ⟨⟨strings, obj :: objects, traits⟩, ⟨kind, []⟩⟩ := by
    cases kind <;> with_unfolding_all rfl
  rw [hbatch]
  exact id

/-- Whatever the trait says of the object, the message ends before there is another reference. -/
theorem not_panics_firstTrait (d : Decoder) (kind : ReaderKind) (h : d.traitRefs ≠ []) :
    ¬(decodeBatch 0 ⟨d, ⟨kind, firstTrait⟩⟩).Panics := by
  obtain ⟨trait, traits, hd⟩ := List.exists_cons_of_ne_nil h
  obtain ⟨strings, objects, traits'⟩ := d
  subst hd
  have hdecode : decodeAmf0 ⟨⟨strings, objects, trait :: traits⟩, ⟨kind, firstTrait⟩⟩ =
      decodeObjectBody decodeAmf3 trait ⟨⟨strings, objects ++ [.null], trait :: traits⟩, ⟨kind, []⟩⟩ :=
    calc decodeAmf0 ⟨⟨strings, objects, trait :: traits⟩, ⟨kind, firstTrait⟩⟩
        = decodeAmf0Body decodeAmf0 ⟨⟨strings, objects, trait :: traits⟩, ⟨kind, firstTrait⟩⟩ := congrFun decodeAmf0_eq _
      _ = decodeAmf3 ⟨⟨strings, objects, trait :: traits⟩, ⟨kind, [0x0a, 0x01]⟩⟩ := rfl
      _ = decodeAmf3Body decodeAmf3 ⟨⟨strings, objects, trait :: traits⟩, ⟨kind, [0x0a, 0x01]⟩⟩ :=
          congrFun decodeAmf3_eq _
      _ = _ := by with_unfolding_all rfl
  intro hp
  obtain hbad | ⟨c, hcall, hc⟩ := faults_batch.mp hp
  · obtain ⟨r, hr, -⟩ := hbad
    cases hr
  · cases hcall with
    | value0 hvisit =>
        cases hvisit with
        | here =>
            rw [Faults, hdecode] at hc
            have hempty : (⟨⟨strings, objects ++ [.null], trait :: traits⟩, ⟨kind, []⟩⟩ : Decoding).left = 0 := rfl
            exact @not_faults_of_left (.body trait) _ hempty hc
        | next hturn hrest =>
            obtain ⟨v, hv, -⟩ := batchTurn_inl hturn
            rw [decode, if_pos rfl, hdecode] at hv
            have hhead := left_le (fun n => settled_decodeObjectBody (settled_decodeAmf3 (n := n)) trait) hv
            have htail := Visits.le (decreases_batchTurn 0) hrest
            exact not_faults_of_left (Nat.le_zero.mp (htail.trans hhead)) hc

end Amf

end Livego
