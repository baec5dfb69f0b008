import Livego.Recursion

/-! Partial correctness of calls: a property of the state that a call keeps, however it ends, and one that its
result has when it returns. A call that does not end meets any postcondition here, so that a recursive call
needs no measure. -/

namespace Fallible

/-- What holds of a result, or of a returned error, if there is one. -/
def Outcome.Meets {ε σ α : Type} (o : Outcome ε σ α) (Q : α → σ → Prop) (E : ε → σ → Prop) : Prop :=
  match o with
  | .ok a s => Q a s
  | .err e s => E e s
  | .panic _ => True
  | .diverge => True

namespace Call

variable {ε σ α β : Type}

/-- From a state with `I` the call returns in such a state, with a result that has `P`, or fails in such a
state. -/
def Ensures (I : σ → Prop) (P : α → Prop) (x : Call ε σ α) : Prop :=
  ∀ s, I s → (x s).Meets (fun a t => I t ∧ P a) (fun _ t => I t)

namespace Ensures

variable {I : σ → Prop} {P P' : α → Prop} {Q : β → Prop} {x x' : Call ε σ α} {f : α → Call ε σ β}

theorem of_ok (h : Ensures I P x) {s t : σ} {a : α} (hs : I s) (hx : x s = .ok a t) : P a := by
  have hmeets := h s hs
  rw [hx] at hmeets
  exact hmeets.2

/-- The rule of consequence. -/
theorem imp (h : Ensures I P x) (hP : ∀ a, P a → P' a) : Ensures I P' x := by
  intro s hs
  have hmeets := h s hs
  cases hx : x s with
  | ok a t =>
      rw [hx] at hmeets
      exact ⟨hmeets.1, hP a hmeets.2⟩
  | err e t =>
      rw [hx] at hmeets
      exact hmeets
  | panic p => trivial
  | diverge => trivial

theorem pure {a : α} (h : P a) : Ensures I P (pure a : Call ε σ α) := fun _ hs => ⟨hs, h⟩

theorem fail (e : ε) : Ensures I P (fail e : Call ε σ α) := fun _ hs => hs

theorem diverge : Ensures I P (diverge : Call ε σ α) := fun _ _ => trivial

theorem modify {g : σ → σ} (h : ∀ s, I s → I (g s)) : Ensures I (fun _ => True) (modify g : Call ε σ Unit) :=
  fun s hs => ⟨h s hs, trivial⟩

/-- The rule of sequencing. -/
theorem bind (hx : Ensures I P x) (hf : ∀ a, P a → Ensures I Q (f a)) : Ensures I Q (x >>= f) := by
  intro s hs
  have hmeets := hx s hs
  rw [bind_apply]
  cases hxs : x s with
  | ok a t =>
      rw [hxs] at hmeets
      exact hf a hmeets.2 t hmeets.1
  | err e t =>
      rw [hxs] at hmeets
      exact hmeets
  | panic p => trivial
  | diverge => trivial

/-- The result in another form. -/
theorem map (hx : Ensures I P x) {g : α → β} (hg : ∀ a, P a → Q (g a)) :
    Ensures I Q (x >>= fun a => Pure.pure (g a)) :=
  hx.bind fun a ha => pure (hg a ha)

theorem ite {c : Prop} [Decidable c] (hx : Ensures I P x) (hx' : Ensures I P x') :
    Ensures I P (if c then x else x') := by
  split
  · exact hx
  · exact hx'

theorem mapErr {h : ε → ε} (hx : Ensures I P x) : Ensures I P (mapErr h x) := by
  intro s hs
  have hmeets := hx s hs
  rw [Call.mapErr]
  cases hxs : x s with
  | ok a t =>
      rw [hxs] at hmeets
      exact hmeets
  | err e t =>
      rw [hxs] at hmeets
      exact hmeets
  | panic p => trivial
  | diverge => trivial

theorem attempt (hx : Ensures I P x) : Ensures I (fun _ => True) (attempt x) := by
  intro s hs
  have hmeets := hx s hs
  rw [Call.attempt]
  cases hxs : x s with
  | ok a t =>
      rw [hxs] at hmeets
      exact ⟨hmeets.1, trivial⟩
  | err e t =>
      rw [hxs] at hmeets
      exact ⟨hmeets, trivial⟩
  | panic p => trivial
  | diverge => trivial

theorem times (hx : Ensures I P x) (n : Nat) :
    Ensures I (fun as => as.length = n ∧ ∀ a ∈ as, P a) (times x n) := by
  induction n with
  | zero => exact pure ⟨List.length_nil, List.forall_mem_nil P⟩
  | succ n ih =>
      apply hx.bind
      intro a ha
      apply ih.map
      intro as has
      exact ⟨by rw [List.length_cons, has.1], List.forall_mem_cons.mpr ⟨ha, has.2⟩⟩

/-- The rule for loops, with an invariant of the loop variables. -/
theorem loop {body : β → Call ε σ (β ⊕ α)} (hbody : ∀ b, Q b → Ensures I (Sum.elim Q P) (body b)) (fuel : Nat) {b : β}
    (hb : Q b) : Ensures I P (loop body fuel b) := by
  induction fuel generalizing b with
  | zero => exact diverge
  | succ fuel ih =>
      apply (hbody b hb).bind
      intro r hr
      cases r with
      | inl b' => exact ih hr
      | inr a => exact pure hr

/-- The rule for recursion: what the body ensures when its calls to itself do, the recursive call ensures. -/
theorem recurse {F : Call ε σ α → Call ε σ α} (μ : σ → Nat) (hF : ∀ x, Ensures I P x → Ensures I P (F x)) :
    Ensures I P (recurse μ F) := by
  have happrox : ∀ fuel, Ensures I P (approx F fuel) := by
    intro fuel
    induction fuel with
    | zero => exact diverge
    | succ fuel ih => exact hF _ ih
  intro s hs
  exact happrox (μ s + 1) s hs

end Ensures

end Call

end Fallible
