import Mathlib.Data.List.Chain

/-! Times that come near enough to the points of a grid are moved to them. At a time that does not, the grid begins
anew. -/

namespace Smoothing

/-- A time that comes, what it becomes, and whether that is the next point of the grid. -/
structure Tick where
  time : Nat
  out : Nat
  aligned : Bool
  deriving DecidableEq, Repr

def Near (tolerance a b : Nat) : Prop := a ≤ b + tolerance ∧ b ≤ a + tolerance

instance (tolerance a b : Nat) : Decidable (Near tolerance a b) := inferInstanceAs (Decidable (_ ∧ _))

section
variable (tolerance inc : Nat)

def tick (expected time : Nat) : Tick :=
  if Near tolerance expected time then { time, out := expected, aligned := true }
  else { time, out := time, aligned := false }

/-- Every time is expected `inc` after the one before, as that came out. -/
def ticks : Nat → List Nat → List Tick
  | _, [] => []
  | expected, time :: times =>
    let t := tick tolerance expected time
    t :: ticks (t.out + inc) times

end

/-- How a tick lies to the one after it. -/
structure Follows (inc : Nat) (t t' : Tick) : Prop where
  ordered : t.out ≤ t'.out
  spaced : t'.aligned = true → t'.out = t.out + inc

variable {tolerance inc expected time : Nat} {times : List Nat}

@[simp] theorem tick_time : (tick tolerance expected time).time = time := by
  unfold tick
  split_ifs <;> rfl

theorem near_tick : Near tolerance (tick tolerance expected time).out time := by
  unfold tick
  split_ifs with hnear
  · exact hnear
  · exact ⟨Nat.le_add_right time tolerance, Nat.le_add_right time tolerance⟩

theorem out_of_aligned (h : (tick tolerance expected time).aligned = true) :
    (tick tolerance expected time).out = expected := by
  unfold tick at h ⊢
  split_ifs at h ⊢
  rfl

/-- Times that are farther apart than the tolerance do not change places. -/
theorem follows_tick {p : Tick} (hp : Near tolerance p.out p.time) (h : p.time + tolerance ≤ time) :
    Follows inc p (tick tolerance (p.out + inc) time) := by
  refine ⟨?_, out_of_aligned⟩
  unfold tick
  split_ifs
  · exact Nat.le_add_right p.out inc
  · exact hp.1.trans h

theorem near_ticks : ∀ t ∈ ticks tolerance inc expected times, Near tolerance t.out t.time := by
  induction times generalizing expected with
  | nil => exact fun t ht => absurd ht List.not_mem_nil
  | cons time times ih =>
      intro t ht
      rcases List.mem_cons.mp ht with rfl | ht
      · rw [tick_time]
        exact near_tick
      · exact ih t ht

theorem follows_ticks (h : times.IsChain fun time time' => time + tolerance ≤ time') :
    (ticks tolerance inc expected times).IsChain (Follows inc) := by
  induction times generalizing expected with
  | nil => exact .nil
  | cons time times ih =>
      cases times with
      | nil => exact .singleton _
      | cons time' times =>
          obtain ⟨hspaced, hrest⟩ := List.isChain_cons_cons.mp h
          refine List.isChain_cons_cons.mpr ⟨follows_tick ?_ ?_, ih hrest⟩
          · rw [tick_time]
            exact near_tick
          · rwa [tick_time]

/-- What comes out never runs backwards. -/
theorem ordered_ticks (h : times.IsChain fun time time' => time + tolerance ≤ time') :
    (ticks tolerance inc expected times).Pairwise fun t t' => t.out ≤ t'.out := by
  have : IsTrans Tick fun t t' => t.out ≤ t'.out := ⟨fun _ _ _ => Nat.le_trans⟩
  exact ((follows_ticks h).imp fun _ _ hfollows => hfollows.ordered).pairwise

end Smoothing
