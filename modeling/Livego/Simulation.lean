import Livego.Loop

/-! Simulation of one call by another over a different state: both end the same way, with related results and states.
The rules of sequencing, of consequence and of loops. -/

namespace Fallible

open Call

variable {ε σ σ' α α' β β' : Type}

namespace Outcome

/-- The outcomes agree: results and states are related by `Q`, or the same error is returned in states related by `E`,
or both panic alike, or neither ends. -/
def Simulates (Q : α → σ → α' → σ' → Prop) (E : σ → σ' → Prop) (o : Outcome ε σ α) (o' : Outcome ε σ' α') : Prop :=
  match o, o' with
  | .ok a s, .ok a' s' => Q a s a' s'
  | .err e s, .err e' s' => e = e' ∧ E s s'
  | .panic p, .panic p' => p = p'
  | .diverge, .diverge => True
  | _, _ => False

variable {Q Q₁ : α → σ → α' → σ' → Prop} {E E₁ : σ → σ' → Prop} {o : Outcome ε σ α} {o' : Outcome ε σ' α'}

theorem Simulates.imp (h : Simulates Q E o o') (hQ : ∀ a s a' s', Q a s a' s' → Q₁ a s a' s')
    (hE : ∀ s s', E s s' → E₁ s s') : Simulates Q₁ E₁ o o' := by
  cases o <;> cases o'
  case ok.ok => exact hQ _ _ _ _ h
  case err.err => exact ⟨h.1, hE _ _ h.2⟩
  all_goals exact h

/-- What is known of the simulating call holds of the outcome that it agrees with. -/
theorem Simulates.and_sat {R : α' → σ' → Prop} {F : ε → σ' → Prop} {P : Prop} (h : Simulates Q E o o')
    (h' : o'.Sat R F P) : Simulates (fun a s a' s' => Q a s a' s' ∧ R a' s') E o o' := by
  cases o <;> cases o'
  case ok.ok => exact ⟨h, h'⟩
  all_goals exact h

theorem Simulates.of_ok {a : α} {s : σ} (h : Simulates Q E o o') (ho : o = .ok a s) :
    ∃ a' s', o' = .ok a' s' ∧ Q a s a' s' := by
  subst ho
  cases o' with
  | ok a' s' => exact ⟨a', s', rfl, h⟩
  | _ => exact h.elim

theorem Simulates.of_err {e : ε} {s : σ} (h : Simulates Q E o o') (ho : o = .err e s) :
    ∃ s', o' = .err e s' ∧ E s s' := by
  subst ho
  cases o' with
  | err e' s' => exact ⟨s', by rw [h.1], h.2⟩
  | _ => exact h.elim

/-- What the simulated call returns, the simulating one returns too. -/
theorem Simulates.to_ok {a' : α'} {s' : σ'} (h : Simulates Q E o o') (ho : o' = .ok a' s') :
    ∃ a s, o = .ok a s ∧ Q a s a' s' := by
  subst ho
  cases o with
  | ok a s => exact ⟨a, s, rfl, h⟩
  | _ => exact h.elim

end Outcome

open Outcome

namespace Call

theorem simulates_bind {Q : α → σ → α' → σ' → Prop} {R : β → σ → β' → σ' → Prop} {E : σ → σ' → Prop}
    {x : Call ε σ α} {x' : Call ε σ' α'} {f : α → Call ε σ β} {f' : α' → Call ε σ' β'} {s : σ} {s' : σ'}
    (hx : Simulates Q E (x s) (x' s'))
    (hf : ∀ a t a' t', Q a t a' t' → Simulates R E (f a t) (f' a' t')) :
    Simulates R E ((x >>= f) s) ((x' >>= f') s') := by
  rw [bind_apply, bind_apply]
  cases hs : x s <;> cases hs' : x' s' <;> rw [hs, hs'] at hx
  case ok.ok => exact hf _ _ _ _ hx
  all_goals
    first
      | exact hx
      | exact hx.elim

/-- Loops whose turns simulate each other, with the same fuel. -/
theorem simulates_loop {body : β → Call ε σ (β ⊕ α)} {body' : β' → Call ε σ' (β' ⊕ α')}
    {I : β → σ → β' → σ' → Prop} {Q : α → σ → α' → σ' → Prop} {E : σ → σ' → Prop}
    (hbody : ∀ b s b' s', I b s b' s' → Simulates
      (fun r t r' t' => match r, r' with
        | .inl b, .inl b' => I b t b' t'
        | .inr a, .inr a' => Q a t a' t'
        | _, _ => False) E (body b s) (body' b' s'))
    (fuel : Nat) {b : β} {s : σ} {b' : β'} {s' : σ'} (hI : I b s b' s') :
    Simulates Q E (loop body fuel b s) (loop body' fuel b' s') := by
  induction fuel generalizing b s b' s' with
  | zero => trivial
  | succ fuel ih =>
      refine simulates_bind (hbody b s b' s' hI) ?_
      intro r t r' t' hr
      rcases r with b₁ | a <;> rcases r' with b₁' | a'
      · exact ih hr
      · exact hr.elim
      · exact hr.elim
      · exact hr

end Call

end Fallible
