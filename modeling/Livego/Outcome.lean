import Mathlib.Logic.Basic

/-! Calls that may fail: a state, a returned error, a run-time panic, or no end within the fuel.
Outcomes, their sequencing and the rules of pre- and postconditions, over arbitrary states and
errors. -/

namespace Fallible

/-- The run-time faults that stop a goroutine without a `recover`. -/
inductive Panic where
  | indexOutOfRange
  | sliceBounds
  | nilDereference
  | typeAssertion
  | divideByZero
  deriving DecidableEq, Repr

/-- How a call ends. The state is what the caller finds afterwards, also when an error is returned;
after a panic there is no caller left, and `diverge` is a loop that outlived its fuel. -/
inductive Outcome (ε σ α : Type) where
  | ok (a : α) (s : σ)
  | err (e : ε) (s : σ)
  | panic (p : Panic)
  | diverge
  deriving DecidableEq, Repr

/-- A call on a state `σ` with result `α`. -/
abbrev Call (ε σ α : Type) : Type := σ → Outcome ε σ α

namespace Call

variable {ε σ α β γ : Type}

instance : Monad (Call ε σ) where
  pure a := fun s => .ok a s
  bind x f := fun s =>
    match x s with
    | .ok a s' => f a s'
    | .err e s' => .err e s'
    | .panic p => .panic p
    | .diverge => .diverge

def fail (e : ε) : Call ε σ α := fun s => .err e s

def panic (p : Panic) : Call ε σ α := fun _ => .panic p

def diverge : Call ε σ α := fun _ => .diverge

def get : Call ε σ σ := fun s => .ok s s

def modify (f : σ → σ) : Call ε σ Unit := fun s => .ok () (f s)

/-- The call with the error it returns rewritten, as in `fmt.Errorf("...: %s", err)`. -/
def mapErr (f : ε → ε) (x : Call ε σ α) : Call ε σ α := fun s =>
  match x s with
  | .err e s' => .err (f e) s'
  | o => o

/-- The call with the error that it returns as a result. -/
def attempt (x : Call ε σ α) : Call ε σ (Except ε α) := fun s =>
  match x s with
  | .ok a s' => .ok (.ok a) s'
  | .err e s' => .ok (.error e) s'
  | .panic p => .panic p
  | .diverge => .diverge

@[simp] theorem pure_apply (a : α) (s : σ) : (pure a : Call ε σ α) s = .ok a s := rfl

theorem bind_apply (x : Call ε σ α) (f : α → Call ε σ β) (s : σ) :
    (x >>= f) s = match x s with
      | .ok a s' => f a s'
      | .err e s' => .err e s'
      | .panic p => .panic p
      | .diverge => .diverge := rfl

@[simp] theorem fail_apply (e : ε) (s : σ) : (fail e : Call ε σ α) s = .err e s := rfl
@[simp] theorem panic_apply (p : Panic) (s : σ) : (panic p : Call ε σ α) s = .panic p := rfl
@[simp] theorem diverge_apply (s : σ) : (diverge : Call ε σ α) s = .diverge := rfl
@[simp] theorem get_apply (s : σ) : (get : Call ε σ σ) s = .ok s s := rfl
@[simp] theorem modify_apply (f : σ → σ) (s : σ) :
    (modify f : Call ε σ Unit) s = .ok () (f s) := rfl

/-- A call that returns hands its result and state to the rest of the body. -/
theorem bind_of_ok {x : Call ε σ α} {f : α → Call ε σ β} {s s' : σ} {a : α} (h : x s = .ok a s') :
    (x >>= f) s = f a s' := by
  rw [bind_apply, h]

theorem bind_of_err {x : Call ε σ α} {f : α → Call ε σ β} {s s' : σ} {e : ε} (h : x s = .err e s') :
    (x >>= f) s = .err e s' := by
  rw [bind_apply, h]

theorem bind_of_panic {x : Call ε σ α} {f : α → Call ε σ β} {s : σ} {p : Panic}
    (h : x s = .panic p) : (x >>= f) s = .panic p := by
  rw [bind_apply, h]

theorem pure_bind (a : α) (f : α → Call ε σ β) : ((pure a : Call ε σ α) >>= f) = f a := rfl

theorem bind_bind (x : Call ε σ α) (f : α → Call ε σ β) (g : β → Call ε σ γ) :
    x >>= f >>= g = x >>= fun a => f a >>= g := by
  funext s
  simp only [bind_apply]
  cases x s <;> rfl

@[simp] theorem pure_bind_apply (a : α) (f : α → Call ε σ β) (s : σ) :
    ((pure a : Call ε σ α) >>= f) s = f a s := rfl

@[simp] theorem get_bind_apply (f : σ → Call ε σ β) (s : σ) :
    ((get : Call ε σ σ) >>= f) s = f s s := rfl

@[simp] theorem modify_bind_apply (g : σ → σ) (f : Unit → Call ε σ β) (s : σ) :
    ((modify g : Call ε σ Unit) >>= f) s = f () (g s) := rfl

theorem mapErr_of_ok {f : ε → ε} {x : Call ε σ α} {s s' : σ} {a : α} (h : x s = .ok a s') :
    mapErr f x s = .ok a s' := by
  rw [mapErr, h]

theorem mapErr_of_err {f : ε → ε} {x : Call ε σ α} {s s' : σ} {e : ε} (h : x s = .err e s') :
    mapErr f x s = .err (f e) s' := by
  rw [mapErr, h]

theorem attempt_of_ok {x : Call ε σ α} {s s' : σ} {a : α} (h : x s = .ok a s') : attempt x s = .ok (.ok a) s' := by
  rw [attempt, h]

theorem attempt_of_err {x : Call ε σ α} {s s' : σ} {e : ε} (h : x s = .err e s') :
    attempt x s = .ok (.error e) s' := by
  rw [attempt, h]

theorem bind_eq_ok {x : Call ε σ α} {f : α → Call ε σ β} {s t : σ} {b : β} :
    (x >>= f) s = .ok b t ↔ ∃ a s', x s = .ok a s' ∧ f a s' = .ok b t := by
  rw [bind_apply]
  cases x s <;> simp [and_assoc]

/-- A call has one result. -/
theorem exists_ok_iff {x : Call ε σ α} {s t : σ} {a : α} {P : α → σ → Prop} (h : x s = .ok a t) :
    (∃ b u, x s = .ok b u ∧ P b u) ↔ P a t := by
  constructor
  · intro hP
    obtain ⟨b, u, hb, hP⟩ := hP
    obtain ⟨rfl, rfl⟩ := Outcome.ok.inj (h.symm.trans hb)
    exact hP
  · intro hP
    exact ⟨a, t, h, hP⟩

theorem mapErr_eq_ok {f : ε → ε} {x : Call ε σ α} {s t : σ} {a : α} :
    mapErr f x s = .ok a t ↔ x s = .ok a t := by
  rw [mapErr]
  cases x s <;> simp

end Call

namespace Outcome

variable {ε σ α β : Type}

/-- Whether a call panicked. -/
def Panics : Outcome ε σ α → Prop
  | .panic _ => True
  | _ => False

instance (o : Outcome ε σ α) : Decidable o.Panics := by
  cases o <;> unfold Panics <;> infer_instance

@[simp] theorem panics_ok (a : α) (s : σ) : (ok a s : Outcome ε σ α).Panics ↔ False := Iff.rfl
@[simp] theorem panics_err (e : ε) (s : σ) : (err e s : Outcome ε σ α).Panics ↔ False := Iff.rfl
@[simp] theorem panics_panic (p : Panic) : (panic p : Outcome ε σ α).Panics ↔ True := Iff.rfl
@[simp] theorem panics_diverge : (diverge : Outcome ε σ α).Panics ↔ False := Iff.rfl

theorem panics_iff {o : Outcome ε σ α} : o.Panics ↔ ∃ p, o = .panic p := by cases o <;> simp

theorem Panics.ne_ok {o : Outcome ε σ α} (h : o.Panics) {a : α} {s : σ} : o ≠ .ok a s := by
  rintro rfl
  exact h

theorem Panics.ne_err {o : Outcome ε σ α} (h : o.Panics) {e : ε} {s : σ} : o ≠ .err e s := by
  rintro rfl
  exact h

theorem panics_bind {x : Call ε σ α} {f : α → Call ε σ β} {s : σ} :
    ((x >>= f) s).Panics ↔ (x s).Panics ∨ ∃ a s', x s = .ok a s' ∧ (f a s').Panics := by
  rw [Call.bind_apply]
  cases x s <;> simp [and_assoc]

theorem panics_mapErr {f : ε → ε} {x : Call ε σ α} {s : σ} :
    (Call.mapErr f x s).Panics ↔ (x s).Panics := by
  rw [Call.mapErr]
  cases x s <;> simp

theorem panics_attempt {x : Call ε σ α} {s : σ} : (Call.attempt x s).Panics ↔ (x s).Panics := by
  rw [Call.attempt]
  cases x s <;> simp

/-- What the caller is given, without the state. -/
def forget : Outcome ε σ α → Outcome ε Unit α
  | .ok a _ => .ok a ()
  | .err e _ => .err e ()
  | .panic p => .panic p
  | .diverge => .diverge

@[simp] theorem panics_forget {o : Outcome ε σ α} : o.forget.Panics ↔ o.Panics := by cases o <;> rfl

/-- The postcondition of a call: `Q` of a result, `E` of a returned error, `P` whether a panic is
allowed. A call that satisfies any postcondition ends. -/
def Sat (o : Outcome ε σ α) (Q : α → σ → Prop) (E : ε → σ → Prop) (P : Prop) : Prop :=
  match o with
  | .ok a s => Q a s
  | .err e s => E e s
  | .panic _ => P
  | .diverge => False

section
variable {Q Q' : α → σ → Prop} {E E' : ε → σ → Prop} {P P' : Prop}

@[simp] theorem sat_ok (a : α) (s : σ) : (ok a s : Outcome ε σ α).Sat Q E P ↔ Q a s := Iff.rfl
@[simp] theorem sat_err (e : ε) (s : σ) : (err e s : Outcome ε σ α).Sat Q E P ↔ E e s := Iff.rfl
@[simp] theorem sat_panic (p : Panic) : (panic p : Outcome ε σ α).Sat Q E P ↔ P := Iff.rfl
@[simp] theorem sat_diverge : (diverge : Outcome ε σ α).Sat Q E P ↔ False := Iff.rfl

/-- The rule of consequence. -/
theorem Sat.imp {o : Outcome ε σ α} (h : o.Sat Q E P) (hQ : ∀ a s, Q a s → Q' a s)
    (hE : ∀ e s, E e s → E' e s) (hP : P → P') : o.Sat Q' E' P' := by
  cases o with
  | ok a s => exact hQ a s h
  | err e s => exact hE e s h
  | panic p => exact hP h
  | diverge => exact h

theorem Sat.and {o : Outcome ε σ α} (h : o.Sat Q E P) (h' : o.Sat Q' E' P') :
    o.Sat (fun a s => Q a s ∧ Q' a s) (fun e s => E e s ∧ E' e s) (P ∧ P') := by
  cases o with
  | ok a s => exact ⟨h, h'⟩
  | err e s => exact ⟨h, h'⟩
  | panic p => exact ⟨h, h'⟩
  | diverge => exact h

/-- The rule of sequencing. -/
theorem Sat.bind {x : Call ε σ α} {f : α → Call ε σ β} {s : σ} {R : β → σ → Prop}
    (hx : (x s).Sat Q E P) (hf : ∀ a s', Q a s' → (f a s').Sat R E P) :
    ((x >>= f) s).Sat R E P := by
  rw [Call.bind_apply]
  cases hxs : x s with
  | ok a s' =>
      rw [hxs] at hx
      exact hf a s' hx
  | err e s' => simpa [hxs] using hx
  | panic p => simpa [hxs] using hx
  | diverge => simp [hxs] at hx

theorem Sat.mapErr {x : Call ε σ α} {f : ε → ε} {s : σ} (hx : (x s).Sat Q E P)
    (hf : ∀ e s', E e s' → E' (f e) s') : (Call.mapErr f x s).Sat Q E' P := by
  rw [Call.mapErr]
  cases hxs : x s with
  | ok a s' => simpa [hxs] using hx
  | err e s' =>
      rw [hxs] at hx
      exact hf e s' hx
  | panic p => simpa [hxs] using hx
  | diverge => simp [hxs] at hx

theorem Sat.of_ok {o : Outcome ε σ α} (h : o.Sat Q E P) {a : α} {s : σ} (ho : o = .ok a s) : Q a s := by
  rwa [ho] at h

theorem Sat.of_err {o : Outcome ε σ α} (h : o.Sat Q E P) {e : ε} {s : σ} (ho : o = .err e s) : E e s := by
  rwa [ho] at h

theorem Sat.of_panic {o : Outcome ε σ α} (h : o.Sat Q E P) {p : Panic} (ho : o = .panic p) : P := by
  rwa [ho] at h

theorem Sat.of_panics {o : Outcome ε σ α} (h : o.Sat Q E P) (hp : o.Panics) : P := by
  obtain ⟨p, ho⟩ := panics_iff.mp hp
  exact h.of_panic ho

/-- Where panics are allowed, one satisfies any postcondition. -/
theorem Panics.sat {o : Outcome ε σ α} (h : o.Panics) (hP : P) : o.Sat Q E P := by
  obtain ⟨p, rfl⟩ := panics_iff.mp h
  exact hP

theorem Sat.ne_diverge {o : Outcome ε σ α} (h : o.Sat Q E P) : o ≠ .diverge := by
  rintro rfl
  exact h

end

end Outcome

namespace Call

open Outcome

variable {ε σ α β : Type}

/-- A call that never panics. -/
def Quiet (x : Call ε σ α) : Prop := ∀ s, ¬(x s).Panics

namespace Quiet

variable {x x' : Call ε σ α} {f : α → Call ε σ β}

theorem pure (a : α) : Quiet (pure a : Call ε σ α) := fun _ h => h

theorem fail (e : ε) : Quiet (fail e : Call ε σ α) := fun _ h => h

theorem bind (hx : Quiet x) (hf : ∀ a, Quiet (f a)) : Quiet (x >>= f) := by
  intro s h
  obtain h | ⟨a, t, -, h⟩ := panics_bind.mp h
  · exact hx s h
  · exact hf a t h

theorem ite {c : Prop} [Decidable c] (hx : Quiet x) (hx' : Quiet x') : Quiet (if c then x else x') := by
  split
  · exact hx
  · exact hx'

theorem mapErr {h : ε → ε} (hx : Quiet x) : Quiet (mapErr h x) := fun s hp => hx s (panics_mapErr.mp hp)

theorem attempt (hx : Quiet x) : Quiet (attempt x) := fun s hp => hx s (panics_attempt.mp hp)

/-- What panics after a call that never does is the rest of the body. -/
theorem panics_bind (hx : Quiet x) {s : σ} :
    ((x >>= f) s).Panics ↔ ∃ a s', x s = .ok a s' ∧ (f a s').Panics := by
  rw [Outcome.panics_bind, or_iff_right (hx s)]

end Quiet

end Call

end Fallible
