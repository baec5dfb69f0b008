import Mathlib.Logic.Basic

/-! Machines that take one event at a time: their runs, invariants and histories. An event that is not
enabled in a state has no step from it. -/

namespace Machine

variable {σ ε α : Type}

/-- The state after the events, each of them enabled where it comes. -/
def run (step : σ → ε → Option σ) : List ε → σ → Option σ
  | [], s => some s
  | e :: es, s => (step s e).bind (run step es)

/-- Every event of the run meets the condition in the state in which it comes. -/
def Along (step : σ → ε → Option σ) (C : σ → ε → Prop) : List ε → σ → Prop
  | [], _ => True
  | e :: es, s => C s e ∧ ∀ t, step s e = some t → Along step C es t

/-- A condition that can be decided is decided along a run. -/
instance decidableAlong {step : σ → ε → Option σ} {C : σ → ε → Prop} [∀ s e, Decidable (C s e)] :
    ∀ es s, Decidable (Along step C es s)
  | [], _ => isTrue trivial
  | e :: es, s =>
    have : Decidable (∀ t, step s e = some t → Along step C es t) :=
      match step s e with
      | none => isTrue nofun
      | some t =>
        have : Decidable (Along step C es t) := decidableAlong es t
        decidable_of_iff (Along step C es t) ⟨fun h _ heq => Option.some.inj heq ▸ h, fun h => h t rfl⟩
    inferInstanceAs (Decidable (_ ∧ _))

variable {step : σ → ε → Option σ} {C D : σ → ε → Prop} {s t : σ}

@[simp] theorem run_nil : run step [] s = some s := rfl

theorem run_cons {e : ε} {es : List ε} :
    run step (e :: es) s = some t ↔ ∃ u, step s e = some u ∧ run step es u = some t := by
  simp only [run, Option.bind_eq_some_iff]

theorem run_append {es fs : List ε} :
    run step (es ++ fs) s = some t ↔ ∃ u, run step es s = some u ∧ run step fs u = some t := by
  induction es generalizing s with
  | nil => simp
  | cons e es ih =>
      simp only [List.cons_append, run_cons, ih]
      constructor
      · rintro ⟨u, hstep, v, hes, hfs⟩
        exact ⟨v, ⟨u, hstep, hes⟩, hfs⟩
      · rintro ⟨v, ⟨u, hstep, hes⟩, hfs⟩
        exact ⟨u, hstep, v, hes, hfs⟩

theorem Along.append {es fs : List ε} (h : Along step C (es ++ fs) s) (hrun : run step es s = some t) :
    Along step C es s ∧ Along step C fs t := by
  induction es generalizing s with
  | nil =>
      cases hrun
      exact ⟨trivial, h⟩
  | cons e es ih =>
      obtain ⟨u, hstep, hrun⟩ := run_cons.mp hrun
      obtain ⟨hes, hfs⟩ := ih (h.2 u hstep) hrun
      refine ⟨⟨h.1, fun v hv => ?_⟩, hfs⟩
      rw [hstep] at hv
      cases hv
      exact hes

theorem Along.concat {es fs : List ε} (hes : Along step C es s) (hrun : run step es s = some t)
    (hfs : Along step C fs t) : Along step C (es ++ fs) s := by
  induction es generalizing s with
  | nil =>
      cases hrun
      exact hfs
  | cons e es ih =>
      obtain ⟨u, hstep, hrest⟩ := run_cons.mp hrun
      refine ⟨hes.1, fun v hv => ?_⟩
      cases hstep.symm.trans hv
      exact ih (hes.2 u hstep) hrest

theorem Along.and {es : List ε} (hC : Along step C es s) (hD : Along step D es s) :
    Along step (fun s e => C s e ∧ D s e) es s := by
  induction es generalizing s with
  | nil => trivial
  | cons e es ih => exact ⟨⟨hC.1, hD.1⟩, fun t ht => ih (hC.2 t ht) (hD.2 t ht)⟩

/-- A condition on the events alone. -/
theorem along_of_forall {es : List ε} (h : ∀ e ∈ es, ∀ u, C u e) : Along step C es s := by
  induction es generalizing s with
  | nil => trivial
  | cons e es ih =>
      exact ⟨h e List.mem_cons_self s, fun t _ => ih fun f hf => h f (List.mem_cons_of_mem e hf)⟩

/-- The rule of invariants: what every step that meets the condition keeps, a run of such steps keeps. -/
theorem run_invariant {I : σ → Prop} (hkeep : ∀ s e t, I s → C s e → step s e = some t → I t) {es : List ε}
    (hI : I s) (hC : Along step C es s) (hrun : run step es s = some t) : I t := by
  induction es generalizing s with
  | nil =>
      cases hrun
      exact hI
  | cons e es ih =>
      obtain ⟨u, hstep, hrun⟩ := run_cons.mp hrun
      exact ih (hkeep s e u hI hC.1 hstep) (hC.2 u hstep) hrun

/-- What every step keeps, a run keeps. -/
theorem run_keeps {I : σ → Prop} (hkeep : ∀ s e t, I s → step s e = some t → I t) {es : List ε} (hI : I s)
    (hrun : run step es s = some t) : I t :=
  run_invariant (C := fun _ _ => True) (fun s e t hs _ => hkeep s e t hs) hI
    (along_of_forall fun _ _ _ => trivial) hrun

/-- A step that breaks the condition leaves a mark that stays: a run to a state without the mark breaks it nowhere. -/
theorem along_of_unmarked {I M : σ → Prop} (hinv : ∀ s e t, I s → step s e = some t → I t)
    (hmark : ∀ s e t, I s → step s e = some t → ¬C s e → M t) (hkeep : ∀ s e t, I s → M s → step s e = some t → M t)
    {es : List ε} (hI : I s) (hrun : run step es s = some t) (ht : ¬M t) : Along step C es s := by
  induction es generalizing s with
  | nil => trivial
  | cons e es ih =>
      obtain ⟨u, hstep, hrest⟩ := run_cons.mp hrun
      have hu := hinv s e u hI hstep
      have hmarked : M u → M t := fun hM =>
        (run_keeps (I := fun v => I v ∧ M v) (fun v f w hv hvw => ⟨hinv v f w hv.1 hvw, hkeep v f w hv.1 hv.2 hvw⟩)
          ⟨hu, hM⟩ hrest).2
      refine ⟨by_contra fun hc => ht (hmarked (hmark s e u hI hstep hc)), fun v hv => ?_⟩
      cases hstep.symm.trans hv
      exact ih hu hrest

/-- Two conditions that say the same of a step from a state of the invariant, the second of which keeps it, say the
same of a run. -/
theorem along_iff {I : σ → Prop} {E : ε → Prop} (hiff : ∀ s e t, I s → E e → step s e = some t → (C s e ↔ D s e))
    (hkeep : ∀ s e t, I s → E e → D s e → step s e = some t → I t) {es : List ε} (hI : I s) (hE : ∀ e ∈ es, E e)
    (hrun : run step es s = some t) : Along step C es s ↔ Along step D es s := by
  induction es generalizing s with
  | nil => exact Iff.rfl
  | cons e es ih =>
      obtain ⟨u, hstep, hrest⟩ := run_cons.mp hrun
      have he := hE e List.mem_cons_self
      have hes : ∀ f ∈ es, E f := fun f hf => hE f (List.mem_cons_of_mem e hf)
      have hhead := hiff s e u hI he hstep
      constructor
      · rintro ⟨hc, htail⟩
        have hd := hhead.mp hc
        refine ⟨hd, fun v hv => ?_⟩
        cases hstep.symm.trans hv
        exact (ih (hkeep s e u hI he hd hstep) hes hrest).mp (htail u hstep)
      · rintro ⟨hd, htail⟩
        refine ⟨hhead.mpr hd, fun v hv => ?_⟩
        cases hstep.symm.trans hv
        exact (ih (hkeep s e u hI he hd hstep) hes hrest).mpr (htail u hstep)

/-- The rule of histories: a list to which every step adds what its event brings. -/
theorem run_history {I : σ → Prop} {h : σ → List α} {f : ε → List α}
    (hstep : ∀ s e t, I s → C s e → step s e = some t → I t ∧ h t = h s ++ f e) {es : List ε} (hI : I s)
    (hC : Along step C es s) (hrun : run step es s = some t) : I t ∧ h t = h s ++ es.flatMap f := by
  induction es generalizing s with
  | nil =>
      cases hrun
      exact ⟨hI, by simp⟩
  | cons e es ih =>
      obtain ⟨u, hu, hrun⟩ := run_cons.mp hrun
      obtain ⟨hI', hhead⟩ := hstep s e u hI hC.1 hu
      obtain ⟨hI'', htail⟩ := ih hI' (hC.2 u hu) hrun
      exact ⟨hI'', by rw [htail, hhead, List.flatMap_cons, List.append_assoc]⟩

/-- The rule of ranks: where every step leads to a lower rank, or stays at the rank and makes the state smaller, no run
goes on for ever. -/
theorem acc_of_ranks {I : Nat → σ → Prop} {μ : σ → Nat}
    (hstep : ∀ n s e t, I n s → step s e = some t → I n t ∧ μ t < μ s ∨ ∃ m < n, I m t) {n : Nat} (hI : I n s) :
    Acc (fun t s => ∃ e, step s e = some t) s := by
  induction n using Nat.strongRecOn generalizing s with
  | ind n ihrank =>
      induction hsize : μ s using Nat.strongRecOn generalizing s with
      | ind k ihsize =>
          refine .intro s fun t ⟨e, ht⟩ => ?_
          obtain ⟨hn, hlt⟩ | ⟨m, hlt, hm⟩ := hstep n s e t hI ht
          · exact ihsize _ (hsize ▸ hlt) hn rfl
          · exact ihrank m hlt hm

end Machine
