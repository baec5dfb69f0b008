import Mathlib.Data.List.Induction

/-! Sequences cut into groups, each of which starts with a key element: what is in front of the first key is in
no group. -/

namespace Groups

variable {α : Type} (key : α → Bool)

/-- One element more opens a group or goes on with the newest. The newest group stands first. -/
def add (gs : List (List α)) (a : α) : List (List α) :=
  if key a then [a] :: gs
  else
    match gs with
    | [] => []
    | g :: gs => (g ++ [a]) :: gs

def groups (as : List α) : List (List α) := as.foldl (add key) []

/-- The last key and what follows it. -/
def fromLast : List α → List α
  | [] => []
  | a :: as => if as.any key then fromLast as else if key a then a :: as else []

variable {key} {as : List α} {a : α}

@[simp] theorem groups_nil : groups key [] = [] := rfl

theorem groups_concat (as : List α) (a : α) : groups key (as ++ [a]) = add key (groups key as) a := by
  rw [groups, List.foldl_append]
  rfl

theorem add_of_key {gs : List (List α)} (h : key a = true) : add key gs a = [a] :: gs := if_pos h

theorem add_of_not_key {g : List α} {gs : List (List α)} (h : key a = false) :
    add key (g :: gs) a = (g ++ [a]) :: gs := if_neg (by simp [h])

theorem add_nil_of_not_key (h : key a = false) : add key [] a = [] := if_neg (by simp [h])

theorem length_add (gs : List (List α)) (a : α) :
    (add key gs a).length = if key a then gs.length + 1 else gs.length := by
  unfold add
  split_ifs
  · rfl
  · cases gs <;> rfl

/-- There is a group for every key. -/
theorem length_groups (as : List α) : (groups key as).length = as.countP key := by
  induction as using List.reverseRecOn with
  | nil => rfl
  | append_singleton as a ih =>
      rw [groups_concat, length_add, ih, List.countP_append, List.countP_singleton]
      split_ifs <;> rfl

/-- The groups, oldest first, are the end of the sequence. -/
theorem flatten_groups_suffix (as : List α) : (groups key as).reverse.flatten <:+ as := by
  induction as using List.reverseRecOn with
  | nil => exact List.suffix_rfl
  | append_singleton as a ih =>
      rw [groups_concat]
      obtain ⟨front, hfront⟩ := ih
      cases hkey : key a with
      | true =>
          refine ⟨front, ?_⟩
          rw [add_of_key hkey, List.reverse_cons, List.flatten_append, ← List.append_assoc, hfront]
          simp
      | false =>
          cases hgs : groups key as with
          | nil => exact ⟨as ++ [a], by simp [add_nil_of_not_key hkey]⟩
          | cons g gs =>
              refine ⟨front, ?_⟩
              rw [hgs, List.reverse_cons, List.flatten_append] at hfront
              rw [add_of_not_key hkey, List.reverse_cons, List.flatten_append, ← hfront]
              simp

/-- Every group starts with its key. -/
theorem head_of_mem_groups {g : List α} (hg : g ∈ groups key as) : ∃ k rest, g = k :: rest ∧ key k = true := by
  induction as using List.reverseRecOn generalizing g with
  | nil => simp at hg
  | append_singleton as a ih =>
      rw [groups_concat] at hg
      cases hkey : key a with
      | true =>
          rw [add_of_key hkey, List.mem_cons] at hg
          rcases hg with rfl | hg
          · exact ⟨a, [], rfl, hkey⟩
          · exact ih hg
      | false =>
          cases hgs : groups key as with
          | nil => simp [hgs, add_nil_of_not_key hkey] at hg
          | cons h hs =>
              rw [hgs, add_of_not_key hkey, List.mem_cons] at hg
              rcases hg with rfl | hg
              · obtain ⟨k, rest, rfl, hk⟩ := ih (hgs ▸ List.mem_cons_self)
                exact ⟨k, rest ++ [a], rfl, hk⟩
              · exact ih (hgs ▸ List.mem_cons_of_mem h hg)

theorem fromLast_eq_nil (h : as.any key = false) : fromLast key as = [] := by
  cases as with
  | nil => rfl
  | cons a as =>
      simp only [List.any_cons, Bool.or_eq_false_iff] at h
      simp [fromLast, h.1, h.2]

theorem fromLast_concat (as : List α) (a : α) :
    fromLast key (as ++ [a]) =
      if key a then [a] else if as.any key then fromLast key as ++ [a] else [] := by
  induction as with
  | nil => simp [fromLast]
  | cons b as ih =>
      simp only [List.cons_append, fromLast, List.any_append, List.any_cons, List.any_nil, Bool.or_false, ih]
      by_cases hlast : key a = true <;> by_cases hrest : as.any key = true <;> by_cases hb : key b = true <;>
        simp [hlast, hrest, hb]

theorem fromLast_map {β : Type} (f : β → α) (bs : List β) :
    fromLast key (bs.map f) = (fromLast (key ∘ f) bs).map f := by
  induction bs with
  | nil => rfl
  | cons b bs ih =>
      simp only [List.map_cons, fromLast, List.any_map, ih, Function.comp_apply]
      split_ifs <;> rfl

/-- The newest group is what there is from the last key on. -/
theorem headD_groups (as : List α) : (groups key as).headD [] = fromLast key as := by
  induction as using List.reverseRecOn with
  | nil => rfl
  | append_singleton as a ih =>
      rw [groups_concat, fromLast_concat]
      cases hkey : key a with
      | true => simp [add_of_key hkey]
      | false =>
          cases hgs : groups key as with
          | nil =>
              have hnone : as.any key = false := by
                have hlen : (groups key as).length = as.countP key := length_groups as
                rw [hgs, List.length_nil, eq_comm, List.countP_eq_zero] at hlen
                simpa using hlen
              simp [add_nil_of_not_key hkey, hnone]
          | cons g gs =>
              have hsome : as.any key = true := by
                have hlen : (groups key as).length = as.countP key := length_groups as
                rw [hgs, List.length_cons] at hlen
                obtain ⟨b, hb, hk⟩ := List.countP_pos_iff.mp (by omega : 0 < as.countP key)
                exact List.any_eq_true.mpr ⟨b, hb, hk⟩
              rw [hgs, List.headD_cons] at ih
              simp [add_of_not_key hkey, hsome, ih]

theorem fromLast_subset (as : List α) : fromLast key as ⊆ as := by
  rw [← headD_groups]
  intro a ha
  have hsuffix : (groups key as).reverse.flatten <:+ as := flatten_groups_suffix as
  apply hsuffix.subset
  cases hgs : groups key as with
  | nil => simp [hgs] at ha
  | cons g gs =>
      rw [hgs] at ha
      simp only [List.headD_cons] at ha
      simp [ha]

/-- Elements may be left out before or after, if no key is. -/
theorem fromLast_filter {keep : α → Bool} (h : ∀ a ∈ as, key a = true → keep a = true) :
    fromLast key (as.filter keep) = (fromLast key as).filter keep := by
  induction as with
  | nil => rfl
  | cons a as ih =>
      have ih := ih fun b hb => h b (List.mem_cons_of_mem a hb)
      have hany : (as.filter keep).any key = as.any key := by
        rw [Bool.eq_iff_iff]
        simp only [List.any_eq_true, List.mem_filter]
        constructor
        · rintro ⟨b, ⟨hb, -⟩, hk⟩
          exact ⟨b, hb, hk⟩
        · rintro ⟨b, hb, hk⟩
          exact ⟨b, ⟨hb, h b (List.mem_cons_of_mem a hb) hk⟩, hk⟩
      by_cases hkeep : keep a = true
      · rw [List.filter_cons_of_pos hkeep, fromLast, fromLast, hany]
        split_ifs
        · exact ih
        · rw [List.filter_cons_of_pos hkeep]
        · rfl
      · have hkey : ¬ key a = true := fun hk => hkeep (h a List.mem_cons_self hk)
        rw [List.filter_cons_of_neg hkeep, fromLast, if_neg hkey]
        split_ifs with hrest
        · exact ih
        · rw [Bool.not_eq_true] at hrest
          rw [fromLast_eq_nil (hany.trans hrest)]
          rfl

/-- What is not the last key comes after it. -/
theorem rel_of_mem_fromLast {R : α → α → Prop} (h : as.Pairwise R) (ha : a ∈ fromLast key as) :
    key a = true ∨ ∃ k ∈ as, key k = true ∧ R k a := by
  induction as with
  | nil => cases ha
  | cons b as ih =>
      rw [List.pairwise_cons] at h
      rw [fromLast] at ha
      split_ifs at ha with hrest hb
      · rcases ih h.2 ha with hk | ⟨k, hk, hkey⟩
        · exact Or.inl hk
        · exact Or.inr ⟨k, List.mem_cons_of_mem b hk, hkey⟩
      · rcases List.mem_cons.mp ha with rfl | ha
        · exact Or.inl hb
        · exact Or.inr ⟨b, List.mem_cons_self, hb, h.1 a ha⟩
      · cases ha

end Groups
