import Mathlib.Data.List.Basic

/-! Data that hold a digest of themselves. It is of what lies around it, and its place may depend on the data. -/

namespace SelfDigest

variable {α : Type} {xs ys : List α} {i j n : Nat}

/-- `n` elements from `i` on. -/
def window (xs : List α) (i n : Nat) : List α := (xs.drop i).take n

/-- What lies around these. -/
def around (xs : List α) (i n : Nat) : List α := xs.take i ++ xs.drop (i + n)

def overwrite (xs : List α) (i : Nat) (ys : List α) : List α := xs.take i ++ ys ++ xs.drop (i + ys.length)

theorem length_overwrite (h : i + ys.length ≤ xs.length) : (overwrite xs i ys).length = xs.length := by
  rw [overwrite, List.length_append, List.length_append, List.length_take, List.length_drop]
  omega

theorem window_overwrite (h : i ≤ xs.length) : window (overwrite xs i ys) i ys.length = ys := by
  have hi : (xs.take i).length = i := List.length_take_of_le h
  rw [window, overwrite, List.append_assoc, List.drop_left' hi, List.take_left' rfl]

theorem around_overwrite (h : i ≤ xs.length) : around (overwrite xs i ys) i ys.length = around xs i ys.length := by
  have hi : (xs.take i).length = i := List.length_take_of_le h
  have hrest : (xs.take i ++ ys).length = i + ys.length := by rw [List.length_append, hi]
  have hfront : (overwrite xs i ys).take i = xs.take i := by
    rw [overwrite, List.append_assoc, List.take_left' hi]
  rw [around, hfront, overwrite, List.drop_left' hrest, around]

/-- In front of what is overwritten nothing changes. -/
theorem window_overwrite_of_le (h : i + n ≤ j) (hj : j ≤ xs.length) : window (overwrite xs j ys) i n = window xs i n := by
  have hlength : (xs.take j).length = j := List.length_take_of_le hj
  have hfront : ∀ rest : List α, window (xs.take j ++ rest) i n = window (xs.take j) i n := by
    intro rest
    rw [window, List.drop_append_of_le_length (by omega), List.take_append_of_le_length, window]
    rw [List.length_drop]
    omega
  have hall : window (xs.take j ++ xs.drop j) i n = window (xs.take j) i n := hfront _
  rw [overwrite, List.append_assoc, hfront, ← hall, List.take_append_drop]

/-- Where the digest goes, and what it is of what lies around it. -/
structure Scheme (α : Type) where
  size : Nat
  place : List α → Nat
  digest : List α → List α
  digest_length : ∀ xs, (digest xs).length = size

namespace Scheme

variable (S : Scheme α)

def Verifies (xs : List α) : Prop := window xs (S.place xs) S.size = S.digest (around xs (S.place xs) S.size)

instance [DecidableEq α] (xs : List α) : Decidable (S.Verifies xs) := inferInstanceAs (Decidable (_ = _))

def put (xs : List α) : List α := overwrite xs (S.place xs) (S.digest (around xs (S.place xs) S.size))

variable {S}

theorem length_put (h : S.place xs + S.size ≤ xs.length) : (S.put xs).length = xs.length := by
  apply length_overwrite
  rwa [S.digest_length]

/-- A digest that is put in verifies if it does not change the place where it is looked for. -/
theorem verifies_put (h : S.place xs ≤ xs.length) (hplace : S.place (S.put xs) = S.place xs) : S.Verifies (S.put xs) := by
  have hsize := S.digest_length (around xs (S.place xs) S.size)
  unfold Verifies
  rw [hplace]
  nth_rewrite 1 [← hsize]
  rw [put, window_overwrite h]
  nth_rewrite 3 [← hsize]
  rw [around_overwrite h, hsize]

end Scheme

end SelfDigest
