import Mathlib.Data.Finmap

/-! Maps that several goroutines read, write and range over. A `Range` comes once to every entry that is
there from its beginning to its end, and at most once to any other. -/

/-- A `sync.Map`. -/
abbrev SyncMap (κ ν : Type) : Type := Finmap fun _ : κ => ν

namespace SyncMap

variable {κ ν : Type}

/-- A call of `Range` under way: the keys that have been there since it began and are still to be visited,
and those that have been visited. -/
structure Range (κ : Type) where
  due : Finset κ
  visited : Finset κ := ∅
  deriving DecidableEq

namespace Range

def start (m : SyncMap κ ν) : Range κ := { due := m.keys }

/-- What is due is in the map and has not been visited. -/
structure Sound (m : SyncMap κ ν) (rg : Range κ) : Prop where
  present : ∀ k ∈ rg.due, k ∈ m
  once : ∀ k ∈ rg.due, k ∉ rg.visited

theorem sound_start (m : SyncMap κ ν) : Sound m (start m) :=
  ⟨fun _ hk => Finmap.mem_keys.mp hk, fun _ _ => Finset.notMem_empty _⟩

@[simp] theorem mem_due_start {m : SyncMap κ ν} {k : κ} : k ∈ (start m).due ↔ k ∈ m := Finmap.mem_keys

variable [DecidableEq κ]

/-- The function that is ranged with is called on the entry. -/
def visit (k : κ) (rg : Range κ) : Range κ := { due := rg.due.erase k, visited := insert k rg.visited }

/-- Someone deletes the entry, which then need not be visited. -/
def drop (k : κ) (rg : Range κ) : Range κ := { rg with due := rg.due.erase k }

variable {m : SyncMap κ ν} {rg : Range κ} {k k' : κ}

@[simp] theorem mem_due_visit : k' ∈ (visit k rg).due ↔ k' ≠ k ∧ k' ∈ rg.due := Finset.mem_erase

@[simp] theorem mem_visited_visit : k' ∈ (visit k rg).visited ↔ k' = k ∨ k' ∈ rg.visited := Finset.mem_insert

@[simp] theorem mem_due_drop : k' ∈ (drop k rg).due ↔ k' ≠ k ∧ k' ∈ rg.due := Finset.mem_erase

@[simp] theorem visited_drop : (drop k rg).visited = rg.visited := rfl

theorem Sound.visit (h : Sound m rg) (k : κ) : Sound m (visit k rg) := by
  refine ⟨fun k' hk' => h.present k' (mem_due_visit.mp hk').2, fun k' hk' hv => ?_⟩
  obtain ⟨hne, hdue⟩ := mem_due_visit.mp hk'
  rcases mem_visited_visit.mp hv with heq | hv
  · exact hne heq
  · exact h.once k' hdue hv

theorem Sound.insert (h : Sound m rg) (k : κ) (v : ν) : Sound (m.insert k v) rg :=
  ⟨fun k' hk' => Finmap.mem_insert.mpr (Or.inr (h.present k' hk')), h.once⟩

/-- The function that is ranged with deletes the entry that it is called on. -/
theorem Sound.visit_erase (h : Sound m rg) (k : κ) : Sound (m.erase k) (Range.visit k rg) := by
  refine ⟨fun k' hk' => ?_, (h.visit k).once⟩
  obtain ⟨hne, hdue⟩ := mem_due_visit.mp hk'
  exact Finmap.mem_erase.mpr ⟨hne, h.present k' hdue⟩

theorem Sound.erase (h : Sound m rg) (k : κ) : Sound (m.erase k) (drop k rg) := by
  refine ⟨fun k' hk' => ?_, fun k' hk' => h.once k' (mem_due_drop.mp hk').2⟩
  obtain ⟨hne, hdue⟩ := mem_due_drop.mp hk'
  exact Finmap.mem_erase.mpr ⟨hne, h.present k' hdue⟩

/-- What is not due can be deleted. -/
theorem Sound.erase_of_notMem (h : Sound m rg) (hk : k ∉ rg.due) : Sound (m.erase k) rg :=
  ⟨fun k' hk' => Finmap.mem_erase.mpr ⟨fun heq => hk (heq ▸ hk'), h.present k' hk'⟩, h.once⟩

theorem notMem_due_drop (h : k' ∉ rg.due) : k' ∉ (drop k rg).due := fun hk => h (mem_due_drop.mp hk).2

theorem notMem_due_visit : k ∉ (Range.visit k rg).due := fun hk => (mem_due_visit.mp hk).1 rfl

end Range

variable [DecidableEq κ]

theorem lookup_insert_eq (m : SyncMap κ ν) (k k' : κ) (v : ν) :
    (m.insert k v).lookup k' = if k' = k then some v else m.lookup k' := by
  split_ifs with h
  · rw [h, Finmap.lookup_insert]
  · exact Finmap.lookup_insert_of_ne m h

theorem lookup_erase_eq (m : SyncMap κ ν) (k k' : κ) :
    (m.erase k).lookup k' = if k' = k then none else m.lookup k' := by
  split_ifs with h
  · rw [h, Finmap.lookup_erase]
  · exact Finmap.lookup_erase_ne h

end SyncMap
