import Mathlib.Data.List.Basic

/-! Sequences of frames, written one after the other. Where each frame tells its own end they are split again without
loss, and in one way only. -/

/-- How a frame is written, and how the first of several is taken off the front. -/
structure Framing (α β : Type) where
  write : α → List β
  next : List β → Option (α × List β)
  next_eq_some : ∀ {bs a rest}, next bs = some (a, rest) ↔ bs = write a ++ rest
  write_ne_nil : ∀ a, write a ≠ []

namespace Framing

variable {α β : Type} (F : Framing α β) {bs : List β} {a : α} {as as' : List α}

def splitWith : Nat → List β → Option (List α)
  | _, [] => some []
  | 0, _ => none
  | n + 1, bs => (F.next bs).bind fun (a, rest) => (splitWith n rest).map (a :: ·)

/-- The frames that make up the sequence, if it is made up of frames. No frame is empty, which bounds their number. -/
def split (bs : List β) : Option (List α) := F.splitWith bs.length bs

variable {F}

theorem length_next {rest : List β} (h : F.next bs = some (a, rest)) : rest.length < bs.length := by
  have hpos : 0 < (F.write a).length := List.length_pos_iff.mpr (F.write_ne_nil a)
  rw [F.next_eq_some.mp h, List.length_append]
  omega

theorem splitWith_eq_some {n : Nat} (hn : bs.length ≤ n) : F.splitWith n bs = some as ↔ bs = as.flatMap F.write := by
  induction n generalizing bs as with
  | zero =>
      obtain rfl := List.length_eq_zero_iff.mp (Nat.le_zero.mp hn)
      cases as with
      | nil => simp [splitWith]
      | cons a as => simp [splitWith, F.write_ne_nil a]
  | succ n ih =>
      cases bs with
      | nil =>
          cases as with
          | nil => simp [splitWith]
          | cons a as => simp [splitWith, F.write_ne_nil a]
      | cons b bs =>
          rw [splitWith, Option.bind_eq_some_iff]
          · constructor
            · rintro ⟨⟨a, rest⟩, hnext, hsplit⟩
              have hlt := length_next hnext
              obtain ⟨as, hrest, rfl⟩ := Option.map_eq_some_iff.mp hsplit
              rw [F.next_eq_some.mp hnext, List.flatMap_cons, ← (ih (by omega)).mp hrest]
            · intro hbs
              cases as with
              | nil => cases hbs
              | cons a as =>
                  have hnext : F.next (b :: bs) = some (a, as.flatMap F.write) := F.next_eq_some.mpr hbs
                  have hlt := length_next hnext
                  refine ⟨_, hnext, ?_⟩
                  rw [Option.map_eq_some_iff]
                  exact ⟨as, (ih (by omega)).mpr rfl, rfl⟩
          · simp

theorem split_eq_some : F.split bs = some as ↔ bs = as.flatMap F.write := splitWith_eq_some (Nat.le_refl _)

/-- A sequence is made up of frames in one way. -/
theorem flatMap_write_injective (h : as.flatMap F.write = as'.flatMap F.write) : as = as' :=
  Option.some.inj ((split_eq_some.mpr rfl).symm.trans (split_eq_some.mpr h))

end Framing
