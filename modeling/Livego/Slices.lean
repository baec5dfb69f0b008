import Livego.Outcome

/-! Elements and slices of a sequence, taken with the bounds checked: what is out of range stops the call. -/

namespace Fallible

namespace Call

variable {ε σ α : Type}

/-- `xs[i]`. -/
def readAt (xs : List α) (i : Nat) : Call ε σ α :=
  match xs[i]? with
  | some a => pure a
  | none => panic .indexOutOfRange

/-- `xs[i:j]`, where nothing lies behind the end of `xs`. -/
def slice (xs : List α) (i j : Nat) : Call ε σ (List α) :=
  if i ≤ j ∧ j ≤ xs.length then pure ((xs.take j).drop i) else panic .sliceBounds

/-- `xs[i:]`. -/
def sliceFrom (xs : List α) (i : Nat) : Call ε σ (List α) :=
  if i ≤ xs.length then pure (xs.drop i) else panic .sliceBounds

/-- `xs[i] = a`. -/
def setAt (xs : List α) (i : Nat) (a : α) : Call ε σ (List α) :=
  if i < xs.length then pure (xs.set i a) else panic .indexOutOfRange

/-- `copy(xs[i:], ys)`, which stops at the end of `xs`. -/
def copyTo (xs : List α) (i : Nat) (ys : List α) : Call ε σ (List α) :=
  if i ≤ xs.length then pure (xs.take i ++ ys.take (xs.length - i) ++ xs.drop (i + ys.length)) else panic .sliceBounds

/-- `for ; i < len(xs); i++ { xs[i] = a }`. -/
def fillFrom (xs : List α) (i : Nat) (a : α) : Call ε σ (List α) :=
  (List.range' i (xs.length - i)).foldlM (fun xs i => setAt xs i a) xs

variable {xs ys : List α} {i j : Nat}

theorem readAt_of_lt (h : i < xs.length) : (readAt xs i : Call ε σ α) = pure xs[i] := by
  rw [readAt, List.getElem?_eq_getElem h]

theorem slice_of_le (hi : i ≤ j) (hj : j ≤ xs.length) :
    (slice xs i j : Call ε σ (List α)) = pure ((xs.drop i).take (j - i)) := by
  rw [slice, if_pos ⟨hi, hj⟩, List.drop_take]

theorem sliceFrom_of_le (h : i ≤ xs.length) : (sliceFrom xs i : Call ε σ (List α)) = pure (xs.drop i) := if_pos h

theorem setAt_of_lt (a : α) (h : i < xs.length) : (setAt xs i a : Call ε σ (List α)) = pure (xs.set i a) := if_pos h

theorem copyTo_of_le (h : i + ys.length ≤ xs.length) :
    (copyTo xs i ys : Call ε σ (List α)) = pure (xs.take i ++ ys ++ xs.drop (i + ys.length)) := by
  have hwhole : ys.take (xs.length - i) = ys := List.take_of_length_le (by omega)
  rw [copyTo, if_pos (by omega), hwhole]

/-- The loop stays in `xs`, and what it comes to is filled. -/
theorem fillFrom_of_le (a : α) (h : i ≤ xs.length) :
    (fillFrom xs i a : Call ε σ (List α)) = pure (xs.take i ++ List.replicate (xs.length - i) a) := by
  have hfold : ∀ n (xs : List α) i, i + n = xs.length →
      ((List.range' i n).foldlM (fun xs i => setAt xs i a) xs : Call ε σ (List α)) =
        pure (xs.take i ++ List.replicate n a) := by
    intro n
    induction n with
    | zero =>
        intro xs i hi
        rw [List.range'_zero, List.foldlM_nil, List.take_of_length_le (by omega), List.replicate_zero, List.append_nil]
    | succ n ih =>
        intro xs i hi
        have htake : (xs.set i a).take (i + 1) = xs.take i ++ [a] := by
          have hlt : i < (xs.set i a).length := by
            rw [List.length_set]
            omega
          rw [List.take_succ_eq_append_getElem hlt, List.getElem_set_self, List.take_set_of_le (Nat.le_refl i)]
        rw [List.range'_succ, List.foldlM_cons, setAt_of_lt a (by omega), Call.pure_bind, ih _ _ (by simp; omega), htake,
          List.append_assoc, List.replicate_succ]
        rfl
  exact hfold _ _ _ (by omega)

end Call

end Fallible
