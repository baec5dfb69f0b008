import Livego.Loop
import Mathlib.Logic.Relation

/-! Calls that call themselves, unfolded by fuel. When every call of the body to itself is made on a
smaller state, the fuel is irrelevant: the recursive call is a fixed point of its body, and it ends. -/

namespace Fallible

open Outcome

namespace Call

variable {ε σ α β : Type}

/-- The calls of `x`, one after the other, `n` times. -/
def times (x : Call ε σ α) : Nat → Call ε σ (List α)
  | 0 => pure []
  | n + 1 => do
    let a ← x
    let as ← times x n
    pure (a :: as)

theorem times_mapErr_eq_ok {h : ε → ε} {x : Call ε σ α} {n : Nat} {s t : σ} {as : List α} :
    times (mapErr h x) n s = .ok as t ↔ times x n s = .ok as t := by
  induction n generalizing s t as with
  | zero => rfl
  | succ n ih => simp only [times, bind_eq_ok, mapErr_eq_ok, ih]

/-- Repeated calls panic exactly if one of them does, after those before it. -/
theorem panics_times {x : Call ε σ α} {n : Nat} {s : σ} :
    (times x n s).Panics ↔ ∃ k < n, ∃ as t, times x k s = .ok as t ∧ (x t).Panics := by
  induction n generalizing s with
  | zero => simp [times]
  | succ n ih =>
      have hfirst : (times x (n + 1) s).Panics ↔
          (x s).Panics ∨ ∃ a u, x s = .ok a u ∧ (times x n u).Panics := by
        rw [times, panics_bind]
        simp only [panics_bind, pure_apply, panics_ok, and_false, exists_false, or_false]
      rw [hfirst]
      constructor
      · rintro (hp | ⟨a, u, hx, hp⟩)
        · exact ⟨0, by omega, [], s, rfl, hp⟩
        · obtain ⟨k, hk, as, t, hts, hp⟩ := ih.mp hp
          exact ⟨k + 1, by omega, a :: as, t, by rw [times, bind_of_ok hx, bind_of_ok hts]; rfl, hp⟩
      · rintro ⟨k, hk, as, t, hts, hp⟩
        cases k with
        | zero =>
            obtain ⟨-, rfl⟩ : as = [] ∧ t = s := by simpa [times, eq_comm] using hts
            exact .inl hp
        | succ k =>
            rw [times, bind_eq_ok] at hts
            obtain ⟨a, u, hx, hrest⟩ := hts
            obtain ⟨as', t', hts, hend⟩ := bind_eq_ok.mp hrest
            cases hend
            exact .inr ⟨a, u, hx, ih.mpr ⟨k, by omega, as', t, hts, hp⟩⟩

/-- The body, unfolded into itself `fuel` times. -/
def approx (F : Call ε σ α → Call ε σ α) : Nat → Call ε σ α
  | 0 => diverge
  | fuel + 1 => F (approx F fuel)

/-- The call that is its own body, with the measure of the state as fuel. -/
def recurse (μ : σ → Nat) (F : Call ε σ α → Call ε σ α) : Call ε σ α := fun s => approx F (μ s + 1) s

/-- On states of measure under `n` the two calls end alike, and they do not make the measure greater. -/
def Settled (μ : σ → Nat) (n : Nat) (x y : Call ε σ α) : Prop :=
  ∀ s, μ s < n → x s = y s ∧ (x s).Sat (fun _ t => μ t ≤ μ s) (fun _ t => μ t ≤ μ s) True

/-- On states of measure under `n` the call, when it has a result, makes the measure smaller. -/
def Consuming (μ : σ → Nat) (n : Nat) (x : Call ε σ α) : Prop :=
  ∀ s, μ s < n → (x s).Sat (fun _ t => μ t < μ s) (fun _ t => μ t ≤ μ s) True

variable {μ : σ → Nat} {n : Nat}

namespace Settled

variable {x y : Call ε σ α} {f g : α → Call ε σ β}

/-- What leaves the measure under one bound leaves it under a greater one. -/
theorem sat_mono {o : Outcome ε σ α} {k m : Nat} (h : o.Sat (fun _ t => μ t ≤ k) (fun _ t => μ t ≤ k) True)
    (hle : k ≤ m) : o.Sat (fun _ t => μ t ≤ m) (fun _ t => μ t ≤ m) True :=
  h.imp (fun _ _ hk => Nat.le_trans hk hle) (fun _ _ hk => Nat.le_trans hk hle) id

theorem zero : Settled μ 0 x y := by
  intro s hs
  omega

theorem pure (a : α) : Settled μ n (pure a : Call ε σ α) (pure a) :=
  fun _ _ => ⟨rfl, Nat.le_refl _⟩

theorem fail (e : ε) : Settled μ n (fail e : Call ε σ α) (Call.fail e) :=
  fun _ _ => ⟨rfl, Nat.le_refl _⟩

theorem panic (p : Panic) : Settled μ n (panic p : Call ε σ α) (Call.panic p) :=
  fun _ _ => ⟨rfl, trivial⟩

theorem left (h : Settled μ n x y) : Settled μ n x x :=
  fun s hs => ⟨rfl, (h s hs).2⟩

theorem le_of_ok (h : ∀ n, Settled μ n x x) {s t : σ} {a : α} (hx : x s = .ok a t) : μ t ≤ μ s :=
  (h (μ s + 1) s (Nat.lt_succ_self _)).2.of_ok hx

theorem of_sat (h : ∀ s, (x s).Sat (fun _ t => μ t ≤ μ s) (fun _ t => μ t ≤ μ s) True) : Settled μ n x x :=
  fun s _ => ⟨rfl, h s⟩

theorem of_consuming (h : Consuming μ n x) : Settled μ n x x :=
  fun s hs => ⟨rfl, (h s hs).imp (fun _ _ hlt => Nat.le_of_lt hlt) (fun _ _ hle => hle) id⟩

theorem bind (hx : Settled μ n x y) (hf : ∀ a, Settled μ n (f a) (g a)) :
    Settled μ n (x >>= f) (y >>= g) := by
  intro s hs
  obtain ⟨heq, hsat⟩ := hx s hs
  rw [bind_apply, bind_apply, ← heq]
  cases hxs : x s with
  | ok a t =>
      rw [hxs] at hsat
      have hle : μ t ≤ μ s := hsat
      obtain ⟨hfg, hft⟩ := hf a t (by omega)
      exact ⟨hfg, sat_mono hft hle⟩
  | err e t => exact ⟨rfl, by simpa [hxs] using hsat⟩
  | panic p => exact ⟨rfl, trivial⟩
  | diverge => simp [hxs] at hsat

/-- After a call that made the measure smaller, one state more is covered. -/
theorem bind_consuming (hx : Consuming μ (n + 1) x) (hf : ∀ a, Settled μ n (f a) (g a)) :
    Settled μ (n + 1) (x >>= f) (x >>= g) := by
  intro s hs
  have hsat := hx s hs
  rw [bind_apply, bind_apply]
  cases hxs : x s with
  | ok a t =>
      rw [hxs] at hsat
      have hlt : μ t < μ s := hsat
      obtain ⟨hfg, hft⟩ := hf a t (by omega)
      exact ⟨hfg, sat_mono hft (Nat.le_of_lt hlt)⟩
  | err e t => exact ⟨rfl, by simpa [hxs] using hsat⟩
  | panic p => exact ⟨rfl, trivial⟩
  | diverge => simp [hxs] at hsat

theorem ite {c : Prop} [Decidable c] {x' y' : Call ε σ α} (hx : Settled μ n x y) (hx' : Settled μ n x' y') :
    Settled μ n (if c then x else x') (if c then y else y') := by
  split
  · exact hx
  · exact hx'

theorem mapErr {h : ε → ε} (hx : Settled μ n x y) : Settled μ n (mapErr h x) (Call.mapErr h y) := by
  intro s hs
  obtain ⟨heq, hsat⟩ := hx s hs
  refine ⟨?_, Sat.mapErr hsat (fun _ _ hle => hle)⟩
  rw [Call.mapErr, Call.mapErr, heq]

theorem attempt (hx : Settled μ n x y) : Settled μ n (attempt x) (Call.attempt y) := by
  intro s hs
  obtain ⟨heq, hsat⟩ := hx s hs
  rw [Call.attempt, Call.attempt, ← heq]
  cases hxs : x s with
  | ok a t => exact ⟨rfl, by simpa [hxs] using hsat⟩
  | err e t => exact ⟨rfl, by simpa [hxs] using hsat⟩
  | panic p => exact ⟨rfl, trivial⟩
  | diverge => simp [hxs] at hsat

theorem times (hx : Settled μ n x y) (k : Nat) : Settled μ n (times x k) (Call.times y k) := by
  induction k with
  | zero => exact pure []
  | succ k ih => exact bind hx fun a => bind ih fun as => pure (a :: as)

/-- A loop whose turns that go round again all make the measure smaller. -/
theorem loop {body body' : β → Call ε σ (β ⊕ α)} (hbody : ∀ b, Settled μ n (body b) (body' b))
    (hturn : ∀ b s b' t, μ s < n → body b s = .ok (.inl b') t → μ t < μ s) (b : β) :
    Settled μ n (get >>= fun s => loop body (μ s + 1) b) (get >>= fun s => Call.loop body' (μ s + 1) b) := by
  intro s hs
  rw [get_bind_apply, get_bind_apply]
  have hfuel : μ s < μ s + 1 := Nat.lt_succ_self _
  revert hfuel
  generalize μ s + 1 = fuel
  induction fuel generalizing b s with
  | zero => omega
  | succ fuel ih =>
      intro hfuel
      obtain ⟨heq, hsat⟩ := hbody b s hs
      rw [loop_succ, loop_succ, ← heq]
      cases hb : body b s with
      | ok r t =>
          rw [hb] at hsat
          cases r with
          | inl b' =>
              have hlt := hturn b s b' t hs hb
              obtain ⟨hloop, hend⟩ := ih b' t (by omega) (by omega)
              exact ⟨hloop, sat_mono hend (Nat.le_of_lt hlt)⟩
          | inr a => exact ⟨rfl, hsat⟩
      | err e t => exact ⟨rfl, by simpa [hb] using hsat⟩
      | panic p => exact ⟨rfl, trivial⟩
      | diverge => simp [hb] at hsat

theorem loop_consuming {body body' : β → Call ε σ (β ⊕ α)} (hbody : ∀ b, Settled μ n (body b) (body' b))
    (hturn : ∀ b, Consuming μ n (body b)) (b : β) :
    Settled μ n (get >>= fun s => Call.loop body (μ s + 1) b) (get >>= fun s => Call.loop body' (μ s + 1) b) :=
  loop hbody (fun b s _ _ hs hb => (hturn b s hs).of_ok hb) b

end Settled

namespace Consuming

variable {x : Call ε σ α} {f : α → Call ε σ β}

theorem bind (hx : Consuming μ n x) (hf : ∀ a, Settled μ n (f a) (f a)) : Consuming μ n (x >>= f) := by
  intro s hs
  have hsat := hx s hs
  rw [bind_apply]
  cases hxs : x s with
  | ok a t =>
      rw [hxs] at hsat
      have hlt : μ t < μ s := hsat
      exact (hf a t (by omega)).2.imp (fun _ _ h => Nat.lt_of_le_of_lt h hlt)
        (fun _ _ h => Nat.le_trans h (Nat.le_of_lt hlt)) id
  | err e t => simpa [hxs] using hsat
  | panic p => trivial
  | diverge => simp [hxs] at hsat

theorem lt_of_ok (h : ∀ n, Consuming μ n x) {s t : σ} {a : α} (hx : x s = .ok a t) : μ t < μ s :=
  (h (μ s + 1) s (Nat.lt_succ_self _)).of_ok hx

theorem mapErr {h : ε → ε} (hx : Consuming μ n x) : Consuming μ n (mapErr h x) :=
  fun s hs => Sat.mapErr (hx s hs) (fun _ _ hle => hle)

theorem decreases {body : β → Call ε σ (β ⊕ α)} (h : ∀ n b, Consuming μ n (body b)) :
    Decreases body fun _ => μ :=
  fun b s _ _ hb => (h (μ s + 1) b s (Nat.lt_succ_self _)).of_ok hb

end Consuming

theorem Quiet.loop {body : β → Call ε σ (β ⊕ α)} (h : ∀ b, Quiet (body b)) (fuel : Nat) (b : β) :
    Quiet (loop body fuel b) := by
  induction fuel generalizing b with
  | zero => exact fun _ hp => hp
  | succ fuel ih =>
      refine (h b).bind fun r => ?_
      cases r with
      | inl b' => exact ih b'
      | inr a => exact .pure a

/-- Every call of the body to itself is made on a smaller state. -/
def Guarded (μ : σ → Nat) (F : Call ε σ α → Call ε σ α) : Prop :=
  ∀ n x y, Settled μ n x y → Settled μ (n + 1) (F x) (F y)

variable {F : Call ε σ α → Call ε σ α}

theorem Guarded.approx (hF : Guarded μ F) {m k : Nat} (hm : n ≤ m) (hk : n ≤ k) :
    Settled μ n (approx F m) (Call.approx F k) := by
  induction n generalizing m k with
  | zero => exact Settled.zero
  | succ n ih =>
      obtain ⟨m, rfl⟩ : ∃ m', m = m' + 1 := ⟨m - 1, by omega⟩
      obtain ⟨k, rfl⟩ : ∃ k', k = k' + 1 := ⟨k - 1, by omega⟩
      exact hF n _ _ (ih (by omega) (by omega))

theorem Guarded.approx_recurse (hF : Guarded μ F) (n : Nat) : Settled μ n (Call.approx F n) (recurse μ F) := by
  intro s hs
  obtain ⟨-, hsat⟩ := hF.approx (n := n) (Nat.le_refl _) (Nat.le_refl _) s hs
  exact ⟨(hF.approx (n := μ s + 1) (by omega) (Nat.le_refl _) s (by omega)).1, hsat⟩

/-- The recursive call is a fixed point of its body. -/
theorem Guarded.recurse_eq (hF : Guarded μ F) : recurse μ F = F (recurse μ F) := by
  funext s
  exact (hF _ _ _ (hF.approx_recurse (μ s)) s (Nat.lt_succ_self _)).1

/-- The recursive call ends, with a state no greater than the one it began with. -/
theorem Guarded.recurse_settled (hF : Guarded μ F) (n : Nat) : Settled μ n (recurse μ F) (recurse μ F) := by
  intro s hs
  obtain ⟨heq, hsat⟩ := hF.approx_recurse n s hs
  exact ⟨rfl, heq ▸ hsat⟩

theorem Visits.le {body : β → Call ε σ (β ⊕ α)} (h : Decreases body fun _ => μ) {b b' : β} {s s' : σ}
    (hvisit : Visits body b s b' s') : μ s' ≤ μ s := by
  induction hvisit with
  | here => exact Nat.le_refl _
  | next turn _ ih => exact Nat.le_trans ih (Nat.le_of_lt (h _ _ _ _ turn))

end Call

/-- What holds of a call exactly if it holds of it directly or of a call that it makes, holds exactly if
it holds directly of a call that is reached. -/
theorem reaches_iff {α : Type} {R : α → α → Prop} {P B : α → Prop} {μ : α → Nat}
    (hstep : ∀ a, P a ↔ B a ∨ ∃ b, R a b ∧ P b) (hμ : ∀ a b, R a b → μ b < μ a) (a : α) :
    P a ↔ ∃ b, Relation.ReflTransGen R a b ∧ B b := by
  constructor
  · intro hP
    induction hn : μ a using Nat.strongRecOn generalizing a with
    | ind n ih =>
        obtain hB | ⟨b, hR, hP⟩ := (hstep a).mp hP
        · exact ⟨a, .refl, hB⟩
        · obtain ⟨c, hreach, hB⟩ := ih (μ b) (hn ▸ hμ a b hR) b hP rfl
          exact ⟨c, .head hR hreach, hB⟩
  · rintro ⟨b, hreach, hB⟩
    induction hreach using Relation.ReflTransGen.head_induction_on with
    | refl => exact (hstep b).mpr (.inl hB)
    | head hR _ ih => exact (hstep _).mpr (.inr ⟨_, hR, ih⟩)

end Fallible
