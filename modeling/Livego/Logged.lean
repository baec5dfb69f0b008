import Livego.Simulation

/-! Calls with a log beside their state, which they write and do not read. But for the log they are the calls that they
were without it. -/

namespace Fallible

open Outcome

namespace Call

variable {ε σ ω α β : Type}

/-- The call, which leaves the log as it is. -/
def unlogged (x : Call ε σ α) : Call ε (σ × List ω) α := fun s =>
  match x s.1 with
  | .ok a t => .ok a (t, s.2)
  | .err e t => .err e (t, s.2)
  | .panic p => .panic p
  | .diverge => .diverge

def log (o : ω) : Call ε (σ × List ω) Unit := modify fun s => (s.1, s.2 ++ [o])

/-- `y` is `x` with a log. -/
def Logs (y : Call ε (σ × List ω) α) (x : Call ε σ α) : Prop :=
  ∀ s, Simulates (fun a t a' t' => a = a' ∧ t.1 = t') (fun t t' => t.1 = t') (y s) (x s.1)

variable {x : Call ε σ α} {y : Call ε (σ × List ω) α} {f : α → Call ε σ β} {g : α → Call ε (σ × List ω) β}

theorem unlogged_of_ok {s t : σ} {a : α} {l : List ω} (h : x s = .ok a t) : unlogged x (s, l) = .ok a (t, l) := by
  rw [unlogged, h]

theorem unlogged_logs (x : Call ε σ α) : Logs (unlogged x : Call ε (σ × List ω) α) x := by
  intro s
  rw [unlogged]
  cases x s.1 with
  | ok a t => exact ⟨rfl, rfl⟩
  | err e t => exact ⟨rfl, rfl⟩
  | panic p => exact rfl
  | diverge => trivial

theorem pure_logs (a : α) : Logs (pure a : Call ε (σ × List ω) α) (pure a) := fun _ => ⟨rfl, rfl⟩

theorem Logs.bind (h : Logs y x) (hf : ∀ a, Logs (g a) (f a)) : Logs (y >>= g) (x >>= f) := by
  intro s
  refine simulates_bind (h s) ?_
  rintro a t a' t' ⟨rfl, rfl⟩
  exact hf a t

/-- What is logged does not show. -/
theorem Logs.after_log (h : Logs y x) (o : ω) : Logs (log o >>= fun _ => y) x := fun s => h (s.1, s.2 ++ [o])

theorem Logs.attempt (h : Logs y x) : Logs (attempt y) (attempt x) := by
  intro s
  have hs := h s
  rw [Call.attempt, Call.attempt]
  cases hy : y s <;> cases hx : x s.1 <;> rw [hy, hx] at hs
  case ok.ok => exact ⟨congrArg Except.ok hs.1, hs.2⟩
  case err.err => exact ⟨congrArg Except.error hs.1, hs.2⟩
  all_goals
    first
      | exact hs
      | exact hs.elim

theorem Logs.forM {as : List β} {f : β → Call ε σ Unit} {g : β → Call ε (σ × List ω) Unit}
    (h : ∀ b ∈ as, Logs (g b) (f b)) : Logs (forM as g) (forM as f) := by
  induction as with
  | nil => exact fun s => ⟨rfl, rfl⟩
  | cons b as ih =>
      rw [List.forM_cons, List.forM_cons]
      exact (h b List.mem_cons_self).bind fun _ => ih fun c hc => h c (List.mem_cons_of_mem b hc)

/-- What is returned with a log is returned without it. -/
theorem Logs.of_ok (h : Logs y x) {s t : σ} {l l' : List ω} {a : α} (hy : y (s, l) = .ok a (t, l')) : x s = .ok a t := by
  obtain ⟨a', t', hx, rfl, rfl⟩ := (h (s, l)).of_ok hy
  exact hx

end Call

end Fallible
