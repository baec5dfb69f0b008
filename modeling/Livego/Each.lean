import Livego.Outcome

/-! Calls made for one element of a list after the other. -/

namespace Fallible

open Outcome

namespace Call

variable {ε σ α β : Type}

theorem id_map_eq (x : Call ε σ α) : (id <$> x) = x := by
  funext s
  show (x >>= fun a => pure (id a)) s = x s
  rw [bind_apply]
  cases x s <;> rfl

theorem lawfulMonad : LawfulMonad (Call ε σ) := LawfulMonad.mk' (Call ε σ) id_map_eq (fun _ _ => rfl) bind_bind

variable {f : α → Call ε σ Unit} {as bs : List α}

theorem forM_append (as bs : List α) (f : α → Call ε σ Unit) :
    forM (as ++ bs) f = forM as f >>= fun _ => forM bs f :=
  have : LawfulMonad (Call ε σ) := lawfulMonad
  List.forM_append

theorem forM_map (g : β → α) (bs : List β) (f : α → Call ε σ Unit) :
    forM (bs.map g) f = forM bs fun b => f (g b) :=
  have : LawfulMonad (Call ε σ) := lawfulMonad
  List.forM_map

theorem forM_apply_nil (s : σ) : forM ([] : List α) f s = .ok () s := rfl

theorem forM_apply_cons (a : α) (s : σ) : forM (a :: as) f s = match f a s with
    | .ok _ t => forM as f t
    | .err e t => .err e t
    | .panic p => .panic p
    | .diverge => .diverge := by
  rw [List.forM_cons, bind_apply]
  cases f a s <;> rfl

theorem forM_one (f : α → Call ε σ Unit) (a : α) : forM [a] f = f a := by
  funext s
  rw [forM_apply_cons]
  cases f a s <;> rfl

theorem forM_concat (as : List α) (a : α) (f : α → Call ε σ Unit) :
    forM (as ++ [a]) f = forM as f >>= fun _ => f a := by
  rw [forM_append, forM_one]

theorem forM_flatMap (g : β → List α) (bs : List β) (f : α → Call ε σ Unit) :
    forM (bs.flatMap g) f = forM bs fun b => forM (g b) f := by
  induction bs with
  | nil => rfl
  | cons b bs ih => rw [List.flatMap_cons, forM_append, List.forM_cons, ih]

/-- A panic of one of the calls is a panic of all, if those before it return. -/
theorem forM_panics {s : σ} (hreturns : ∀ a ∈ as, ∀ s, (∃ t, f a s = .ok () t) ∨ (f a s).Panics)
    (hpanics : ∃ a ∈ as, ∀ s, (f a s).Panics) : (forM as f s).Panics := by
  induction as generalizing s with
  | nil => simp at hpanics
  | cons a as ih =>
      rw [forM_apply_cons]
      rcases hreturns a List.mem_cons_self s with ⟨t, ht⟩ | hp
      · simp only [ht]
        refine ih (fun b hb => hreturns b (List.mem_cons_of_mem a hb)) ?_
        obtain ⟨b, hb, hall⟩ := hpanics
        rcases List.mem_cons.mp hb with rfl | hb
        · exact absurd ht (hall s).ne_ok
        · exact ⟨b, hb, hall⟩
      · obtain ⟨p, hfa⟩ := panics_iff.mp hp
        rw [hfa]
        trivial

theorem quiet_forM (h : ∀ a ∈ as, Quiet (f a)) : Quiet (forM as f) := by
  induction as with
  | nil => exact .pure ()
  | cons a as ih =>
      rw [List.forM_cons]
      exact (h a List.mem_cons_self).bind fun _ => ih fun b hb => h b (List.mem_cons_of_mem a hb)

/-- What relates the states before and after each of the calls, relates those before and after all of them. -/
theorem sat_forM {R : σ → σ → Prop} {P : Prop} (hrefl : ∀ s, R s s) (htrans : ∀ s t u, R s t → R t u → R s u)
    (h : ∀ a ∈ as, ∀ s, (f a s).Sat (fun _ t => R s t) (fun _ t => R s t) P) (s : σ) :
    (forM as f s).Sat (fun _ t => R s t) (fun _ t => R s t) P := by
  induction as generalizing s with
  | nil => exact hrefl s
  | cons a as ih =>
      rw [forM_apply_cons]
      have hhead := h a List.mem_cons_self s
      cases hfa : f a s with
      | ok u t =>
          rw [hfa] at hhead
          refine (ih (fun b hb => h b (List.mem_cons_of_mem a hb)) t).imp ?_ ?_ id
          · exact fun _ v hv => htrans s t v hhead hv
          · exact fun _ v hv => htrans s t v hhead hv
      | err e t => simpa [hfa] using hhead
      | panic p => simpa [hfa] using hhead
      | diverge => simp [hfa] at hhead

end Call

end Fallible
