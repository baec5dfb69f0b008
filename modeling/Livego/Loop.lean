import Livego.Outcome

/-! Loops over calls, with the turns bounded by fuel. A measure that every continuing turn decreases
makes the fuel irrelevant; with an invariant it gives the rule for loops. -/

namespace Fallible

open Outcome

namespace Call

variable {ε σ α β : Type}

/-- Runs `body` on the loop variables until it leaves the loop with a result. -/
def loop (body : β → Call ε σ (β ⊕ α)) : Nat → β → Call ε σ α
  | 0, _ => diverge
  | fuel + 1, b => do
    match ← body b with
    | .inl b' => loop body fuel b'
    | .inr a => pure a

/-- The states in which a turn of the loop starts. -/
inductive Visits (body : β → Call ε σ (β ⊕ α)) : β → σ → β → σ → Prop
  | here (b : β) (s : σ) : Visits body b s b s
  | next {b b' b'' : β} {s s' s'' : σ} (turn : body b s = .ok (.inl b') s')
      (rest : Visits body b' s' b'' s'') : Visits body b s b'' s''

/-- Every turn that goes round again makes `μ` smaller. -/
def Decreases (body : β → Call ε σ (β ⊕ α)) (μ : β → σ → Nat) : Prop :=
  ∀ b s b' s', body b s = .ok (.inl b') s' → μ b' s' < μ b s

variable {body : β → Call ε σ (β ⊕ α)} {μ : β → σ → Nat}

theorem loop_succ (fuel : Nat) (b : β) (s : σ) :
    loop body (fuel + 1) b s = match body b s with
      | .ok (.inl b') s' => loop body fuel b' s'
      | .ok (.inr a) s' => .ok a s'
      | .err e s' => .err e s'
      | .panic p => .panic p
      | .diverge => .diverge := by
  rw [loop, bind_apply]
  rcases body b s with ⟨⟨⟩, _⟩ | ⟨⟩ | ⟨⟩ | ⟨⟩ <;> rfl

/-- Fuel above the measure is as good as any other. -/
theorem loop_fuel (hμ : Decreases body μ) {m n : Nat} {b : β} {s : σ} (hm : μ b s < m)
    (hn : μ b s < n) : loop body m b s = loop body n b s := by
  induction m generalizing n b s with
  | zero => omega
  | succ m ih =>
      cases n with
      | zero => omega
      | succ n =>
          rw [loop_succ, loop_succ]
          cases hbody : body b s with
          | ok r s' =>
              cases r with
              | inl b' =>
                  have := hμ b s b' s' hbody
                  exact ih (by omega) (by omega)
              | inr a => rfl
          | err e s' => rfl
          | panic p => rfl
          | diverge => rfl

/-- A loop with enough fuel is one turn and then the loop again, again with enough fuel. -/
theorem loop_turn (hμ : Decreases body μ) {b : β} {s : σ} :
    loop body (μ b s + 1) b s = match body b s with
      | .ok (.inl b') s' => loop body (μ b' s' + 1) b' s'
      | .ok (.inr a) s' => .ok a s'
      | .err e s' => .err e s'
      | .panic p => .panic p
      | .diverge => .diverge := by
  rw [loop_succ]
  cases hbody : body b s with
  | ok r s' =>
      cases r with
      | inl b' => exact loop_fuel hμ (hμ b s b' s' hbody) (Nat.lt_succ_self _)
      | inr a => rfl
  | err e s' => rfl
  | panic p => rfl
  | diverge => rfl

/-- The same with the fuel that the state asks for. -/
theorem get_loop_eq {μ : σ → Nat} (hμ : Decreases body fun _ => μ) (b : β) :
    (get >>= fun s => loop body (μ s + 1) b) =
      body b >>= Sum.elim (fun b' => get >>= fun s => loop body (μ s + 1) b') pure := by
  funext s
  rw [get_bind_apply, loop_turn hμ, bind_apply]
  rcases body b s with ⟨⟨⟩, _⟩ | ⟨⟩ | ⟨⟩ | ⟨⟩ <;> rfl

/-- What a turn that does not go round again makes of the loop. -/
def exit : Outcome ε σ (β ⊕ α) → Option (Outcome ε σ α)
  | .ok (.inl _) _ => none
  | .ok (.inr a) s => some (.ok a s)
  | .err e s => some (.err e s)
  | .panic p => some (.panic p)
  | .diverge => some .diverge

theorem exit_eq_ok {o : Outcome ε σ (β ⊕ α)} {a : α} {s : σ} : exit o = some (.ok a s) ↔ o = .ok (.inr a) s := by
  rcases o with ⟨⟨⟩, _⟩ | ⟨⟩ | ⟨⟩ | ⟨⟩ <;> simp [exit]

theorem exit_eq_err {o : Outcome ε σ (β ⊕ α)} {e : ε} {s : σ} : exit o = some (.err e s) ↔ o = .err e s := by
  rcases o with ⟨⟨⟩, _⟩ | ⟨⟩ | ⟨⟩ | ⟨⟩ <;> simp [exit]

theorem exit_eq_panic {o : Outcome ε σ (β ⊕ α)} {p : Panic} : exit o = some (.panic p) ↔ o = .panic p := by
  rcases o with ⟨⟨⟩, _⟩ | ⟨⟩ | ⟨⟩ | ⟨⟩ <;> simp [exit]

/-- The loop ends as the turn does that it comes to last. -/
theorem loop_eq_iff (hμ : Decreases body μ) {fuel : Nat} {b : β} {s : σ} {o : Outcome ε σ α} (hfuel : μ b s < fuel) :
    loop body fuel b s = o ↔ ∃ b' s', Visits body b s b' s' ∧ exit (body b' s') = some o := by
  induction fuel generalizing b s with
  | zero => omega
  | succ fuel ih =>
      have hhere : ∀ o', exit (body b s) = some o' →
          (o' = o ↔ ∃ b' s', Visits body b s b' s' ∧ exit (body b' s') = some o) := by
        intro o' ho'
        constructor
        · rintro rfl
          exact ⟨b, s, .here b s, ho'⟩
        · rintro ⟨b', s', hvisit, hexit⟩
          cases hvisit with
          | here => exact Option.some.inj (ho'.symm.trans hexit)
          | next turn _ => simp [turn, exit] at ho'
      rw [loop_succ]
      cases hbody : body b s with
      | ok r s' =>
          cases r with
          | inl b' =>
              have hlt := hμ b s b' s' hbody
              rw [ih (by omega)]
              constructor
              · rintro ⟨b'', s'', hvisit, hexit⟩
                exact ⟨b'', s'', .next hbody hvisit, hexit⟩
              · rintro ⟨b'', s'', hvisit, hexit⟩
                cases hvisit with
                | here => simp [hbody, exit] at hexit
                | next turn rest =>
                    rw [hbody] at turn
                    cases turn
                    exact ⟨b'', s'', rest, hexit⟩
          | inr a => exact hhere _ (by rw [hbody]; rfl)
      | err e s' => exact hhere _ (by rw [hbody]; rfl)
      | panic p => exact hhere _ (by rw [hbody]; rfl)
      | diverge => exact hhere _ (by rw [hbody]; rfl)

/-- The loop panics exactly if a turn that it comes to does. -/
theorem panics_loop (hμ : Decreases body μ) {fuel : Nat} {b : β} {s : σ} (hfuel : μ b s < fuel) :
    (loop body fuel b s).Panics ↔ ∃ b' s', Visits body b s b' s' ∧ (body b' s').Panics := by
  simp only [panics_iff, loop_eq_iff hμ hfuel, exit_eq_panic]
  constructor
  · rintro ⟨p, b', s', hvisit, hpanic⟩
    exact ⟨b', s', hvisit, p, hpanic⟩
  · rintro ⟨b', s', hvisit, p, hpanic⟩
    exact ⟨p, b', s', hvisit, hpanic⟩

/-- The loop ends with a result exactly if a turn that it comes to does. -/
theorem loop_eq_ok (hμ : Decreases body μ) {fuel : Nat} {b : β} {s : σ} {a : α} {t : σ} (hfuel : μ b s < fuel) :
    loop body fuel b s = .ok a t ↔ ∃ b' s', Visits body b s b' s' ∧ body b' s' = .ok (.inr a) t := by
  simp only [loop_eq_iff hμ hfuel, exit_eq_ok]

theorem loop_eq_err (hμ : Decreases body μ) {fuel : Nat} {b : β} {s : σ} {e : ε} {t : σ} (hfuel : μ b s < fuel) :
    loop body fuel b s = .err e t ↔ ∃ b' s', Visits body b s b' s' ∧ body b' s' = .err e t := by
  simp only [loop_eq_iff hμ hfuel, exit_eq_err]

/-- The rule for loops: a turn that goes round again keeps the invariant and decreases the measure. -/
theorem sat_loop {I : β → σ → Prop} {Q : α → σ → Prop} {E : ε → σ → Prop} {P : Prop}
    (hbody : ∀ b s, I b s → (body b s).Sat
      (fun r s' => match r with
        | .inl b' => I b' s' ∧ μ b' s' < μ b s
        | .inr a => Q a s') E P)
    {fuel : Nat} {b : β} {s : σ} (hfuel : μ b s < fuel) (hI : I b s) :
    (loop body fuel b s).Sat Q E P := by
  induction fuel generalizing b s with
  | zero => omega
  | succ fuel ih =>
      have hturn := hbody b s hI
      rw [loop_succ]
      cases hb : body b s with
      | ok r s' =>
          rw [hb] at hturn
          cases r with
          | inl b' => exact ih (by have := hturn.2; omega) hturn.1
          | inr a => exact hturn
      | err e s' => simpa [hb] using hturn
      | panic p => simpa [hb] using hturn
      | diverge => simp [hb] at hturn

/-- What holds when the loop starts and is kept by every turn holds whenever a turn starts. -/
theorem Visits.invariant {I : β → σ → Prop} {b b' : β} {s s' : σ} (h : Visits body b s b' s')
    (hI : I b s) (hkeep : ∀ b s b' s', I b s → body b s = .ok (.inl b') s' → I b' s') : I b' s' := by
  induction h with
  | here => exact hI
  | next turn _ ih => exact ih (hkeep _ _ _ _ hI turn)

theorem Visits.trans {b b' b'' : β} {s s' s'' : σ} (h : Visits body b s b' s') (h' : Visits body b' s' b'' s'') :
    Visits body b s b'' s'' := by
  induction h with
  | here => exact h'
  | next turn _ ih => exact .next turn (ih h')

/-- The loop leaves with `a`, after turns that nothing has to bound. -/
def Leaves (body : β → Call ε σ (β ⊕ α)) (b : β) (s : σ) (a : α) (t : σ) : Prop :=
  ∃ b' s', Visits body b s b' s' ∧ body b' s' = .ok (.inr a) t

theorem Leaves.of_visits {b b' : β} {s s' : σ} {a : α} {t : σ} (h : Visits body b s b' s') (hleaves : Leaves body b' s' a t) :
    Leaves body b s a t := by
  obtain ⟨b'', s'', hvisit, hend⟩ := hleaves
  exact ⟨b'', s'', h.trans hvisit, hend⟩

/-- A turn that goes round again leaves it to the next one to leave. -/
theorem leaves_of_turn {b b' : β} {s s' : σ} {a : α} {t : σ} (hturn : body b s = .ok (.inl b') s') :
    Leaves body b s a t ↔ Leaves body b' s' a t := by
  constructor
  · rintro ⟨b'', s'', hvisit, hend⟩
    cases hvisit with
    | here => simp [hturn] at hend
    | next turn rest =>
        rw [hturn] at turn
        cases turn
        exact ⟨b'', s'', rest, hend⟩
  · exact Leaves.of_visits (.next hturn (.here b' s'))

theorem Leaves.unique {b : β} {s : σ} {a a' : α} {t t' : σ} (h : Leaves body b s a t) (h' : Leaves body b s a' t') :
    a = a' ∧ t = t' := by
  obtain ⟨b', s', hvisit, hend⟩ := h
  induction hvisit with
  | here b s =>
      obtain ⟨b'', s'', hvisit', hend'⟩ := h'
      cases hvisit' with
      | here =>
          cases hend.symm.trans hend'
          exact ⟨rfl, rfl⟩
      | next turn _ => cases hend.symm.trans turn
  | next turn _ ih => exact ih ((leaves_of_turn turn).mp h') hend

/-- The rule for loops that never end: every turn goes round again and keeps the invariant. -/
theorem not_leaves {I : β → σ → Prop} (hkeep : ∀ b s, I b s → ∃ b' s', body b s = .ok (.inl b') s' ∧ I b' s') {b : β}
    {s : σ} (hI : I b s) (a : α) (t : σ) : ¬Leaves body b s a t := by
  rintro ⟨b', s', hvisit, hend⟩
  have hlast : I b' s' := by
    refine hvisit.invariant hI fun b s b' s' hs hturn => ?_
    obtain ⟨b'', s'', hturn', hs'⟩ := hkeep b s hs
    cases hturn.symm.trans hturn'
    exact hs'
  obtain ⟨b'', s'', hturn, -⟩ := hkeep b' s' hlast
  cases hturn.symm.trans hend

end Call

end Fallible
