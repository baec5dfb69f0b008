import Mathlib.Algebra.BigOperators.Group.Finset.Basic
import Mathlib.Algebra.Order.BigOperators.Group.Finset

/-! Counting out a circle, over and over: somebody comes up at each turn, and stays or goes out, alone or together with
the next. How many turns there can be before there is nobody left to go out. -/

namespace CountingOut

/-- What happens when somebody comes up: nothing, he goes out, the next goes out, or both do. -/
inductive Role where
  | stays
  | leaves
  | strikes
  | falls
  deriving DecidableEq

open Role

/-- A turn of the circle, which is listed from the one who comes up. -/
def turn : List Role → Option (List Role)
  | [] => none
  | stays :: c => some (c ++ [stays])
  | leaves :: c => some c
  | strikes :: c => (c ++ [strikes]).tail?
  | falls :: c => c.tail?

def play : Nat → List Role → Option (List Role)
  | 0, c => some c
  | n + 1, c => (turn c).bind (play n)

theorem length_tail? {c c' : List Role} (h : c.tail? = some c') : c'.length + 1 = c.length := by
  cases c with
  | nil => cases h
  | cons r c =>
      cases h
      rfl

theorem length_turn {c c' : List Role} (h : turn c = some c') : c'.length ≤ c.length := by
  cases c with
  | nil => cases h
  | cons r c =>
      cases r with
      | stays =>
          cases h
          simp
      | leaves =>
          cases h
          simp
      | strikes =>
          have hlength := length_tail? h
          rw [List.length_append, List.length_singleton] at hlength
          rw [List.length_cons]
          omega
      | falls =>
          have hlength := length_tail? h
          rw [List.length_cons]
          omega

theorem length_play {n : Nat} {c c' : List Role} (h : play n c = some c') : c'.length ≤ c.length := by
  induction n generalizing c with
  | zero =>
      cases h
      exact Nat.le_refl _
  | succ n ih =>
      obtain ⟨d, hturn, hplay⟩ := Option.bind_eq_some_iff.mp h
      exact (ih hplay).trans (length_turn hturn)

/-- Those who come up while it goes round once. -/
def round : List Role → List Role
  | [] => []
  | stays :: c => stays :: round c
  | leaves :: c => leaves :: round c
  | [strikes] => [strikes]
  | strikes :: _ :: c => strikes :: round c
  | [falls] => [falls]
  | falls :: _ :: c => falls :: round c

/-- The last one of the round takes the first one of the next. -/
def wraps : List Role → Bool
  | [] => false
  | stays :: c => wraps c
  | leaves :: c => wraps c
  | [strikes] => true
  | strikes :: _ :: c => wraps c
  | [falls] => true
  | falls :: _ :: c => wraps c

/-- Whoever comes up and does not go out. -/
def Role.isLeft : Role → Bool
  | stays => true
  | strikes => true
  | _ => false

/-- Those of a round who are left. -/
def remain (c : List Role) : List Role := (round c).filter Role.isLeft

/-- The circle after a round. -/
def next (c : List Role) : List Role := if wraps c then (remain c).tail else remain c

/-- What a number of rounds adds to the turns: in each of them those come up who stay. -/
def spared (k : Nat) (c : List Role) : Nat := ∑ i ∈ Finset.range k, (round (next^[i] c)).count stays

theorem length_round (c : List Role) : (round c).length =
    (round c).count stays + (round c).count leaves + (round c).count strikes + (round c).count falls := by
  induction c using round.induct with
  | case1 => rfl
  | case2 c ih => simp [round, ih]; omega
  | case3 c ih => simp [round, ih]; omega
  | case4 => rfl
  | case5 x c ih => simp [round, ih]; omega
  | case6 => rfl
  | case7 x c ih => simp [round, ih]; omega

/-- Those who go out with others are in the circle too. -/
theorem length_eq (c : List Role) : c.length + (wraps c).toNat =
    (round c).count stays + (round c).count leaves + 2 * (round c).count strikes + 2 * (round c).count falls := by
  induction c using round.induct with
  | case1 => rfl
  | case2 c ih => simp [round, wraps]; omega
  | case3 c ih => simp [round, wraps]; omega
  | case4 => rfl
  | case5 x c ih => simp [round, wraps]; omega
  | case6 => rfl
  | case7 x c ih => simp [round, wraps]; omega

theorem length_remain (c : List Role) :
    (remain c).length = (round c).count stays + (round c).count strikes := by
  unfold remain
  induction round c with
  | nil => rfl
  | cons r rs ih => cases r <;> simp [List.filter_cons, Role.isLeft, ih] <;> omega

theorem round_subset (c : List Role) : ∀ r ∈ round c, r ∈ c := by
  induction c using round.induct with
  | case1 => simp [round]
  | case2 c ih => simp only [round, List.mem_cons]; tauto
  | case3 c ih => simp only [round, List.mem_cons]; tauto
  | case4 => simp [round]
  | case5 x c ih => simp only [round, List.mem_cons]; tauto
  | case6 => simp [round]
  | case7 x c ih => simp only [round, List.mem_cons]; tauto

/-- Nobody falls after the first round, since whoever does goes out. -/
theorem count_falls_next (c : List Role) : (round (next c)).count falls = 0 := by
  refine List.count_eq_zero.mpr fun hmem => ?_
  have hremain : falls ∈ remain c := by
    have hnext := round_subset _ _ hmem
    unfold next at hnext
    split_ifs at hnext
    · exact List.mem_of_mem_tail hnext
    · exact hnext
  cases (List.mem_filter.mp hremain).2

/-- A whole round, with others behind who have come up before. -/
theorem play_round (c before : List Role) : play (round c).length (c ++ before) =
    if wraps c then (before ++ remain c).tail? else some (before ++ remain c) := by
  induction c using round.induct generalizing before with
  | case1 => simp [round, play, wraps, remain]
  | case2 c ih => simp [round, play, turn, wraps, remain, List.filter_cons, Role.isLeft, ih]
  | case3 c ih => simp [round, play, turn, wraps, remain, Role.isLeft, ih]
  | case4 => simp [round, play, turn, wraps, remain, List.filter_cons, Role.isLeft]
  | case5 x c ih => simp [round, play, turn, wraps, remain, List.filter_cons, Role.isLeft, ih]
  | case6 => simp [round, play, turn, wraps, remain, Role.isLeft]
  | case7 x c ih => simp [round, play, turn, wraps, remain, Role.isLeft, ih]

/-- Within a round there is always somebody to go out. -/
theorem play_within {c : List Role} (before : List Role) {n : Nat} (h : n < (round c).length) :
    (play n (c ++ before)).isSome := by
  induction c using round.induct generalizing before n with
  | case1 => cases h
  | case2 c ih =>
      cases n with
      | zero => rfl
      | succ n => simpa [play, turn] using ih (before ++ [stays]) (Nat.lt_of_succ_lt_succ h)
  | case3 c ih =>
      cases n with
      | zero => rfl
      | succ n => simpa [play, turn] using ih before (Nat.lt_of_succ_lt_succ h)
  | case4 =>
      cases Nat.lt_one_iff.mp h
      rfl
  | case5 x c ih =>
      cases n with
      | zero => rfl
      | succ n => simpa [play, turn] using ih (before ++ [strikes]) (Nat.lt_of_succ_lt_succ h)
  | case6 =>
      cases Nat.lt_one_iff.mp h
      rfl
  | case7 x c ih =>
      cases n with
      | zero => rfl
      | succ n => simpa [play, turn] using ih before (Nat.lt_of_succ_lt_succ h)

theorem play_add (m n : Nat) (c : List Role) : play (m + n) c = (play m c).bind (play n) := by
  induction m generalizing c with
  | zero => simp [play]
  | succ m ih =>
      rw [Nat.succ_add, play, play, Option.bind_assoc]
      exact congrArg _ (funext ih)

/-- The last one of the round falls, and nobody is left to go out with him. -/
def Stuck (c : List Role) : Prop := wraps c = true ∧ remain c = []

theorem play_round_of_stuck {c : List Role} (h : Stuck c) : play (round c).length c = none := by
  have hround := play_round c []
  rw [List.append_nil, List.nil_append, h.1, h.2] at hround
  exact hround

theorem play_round_of_not_stuck {c : List Role} (h : ¬ Stuck c) : play (round c).length c = some (next c) := by
  have hround := play_round c []
  rw [List.append_nil, List.nil_append] at hround
  rw [hround]
  unfold next
  cases hwraps : wraps c with
  | false => simp
  | true =>
      cases hremain : remain c with
      | nil => exact absurd ⟨hwraps, hremain⟩ h
      | cons r rs => simp

theorem length_next {c : List Role} (h : ¬ Stuck c) : (next c).length + (wraps c).toNat = (remain c).length := by
  unfold next
  cases hwraps : wraps c with
  | false => rfl
  | true =>
      have hpos := List.length_pos_of_ne_nil fun hnil => h ⟨hwraps, hnil⟩
      simp only [if_true, List.length_tail, Bool.toNat_true]
      omega

theorem isSome_play_of_stuck {c : List Role} (h : Stuck c) (n : Nat) :
    (play n c).isSome ↔ n < (round c).length := by
  constructor
  · intro hsome
    by_contra hmany
    obtain ⟨m, rfl⟩ := Nat.exists_eq_add_of_le (Nat.le_of_not_lt hmany)
    rw [play_add, play_round_of_stuck h] at hsome
    cases hsome
  · intro hlt
    have hwithin := play_within (c := c) [] hlt
    rwa [List.append_nil] at hwithin

theorem isSome_play_of_le {c : List Role} (h : ¬ Stuck c) {n : Nat} (hn : n ≤ (round c).length) :
    (play n c).isSome := by
  rcases Nat.lt_or_eq_of_le hn with hlt | heq
  · have hwithin := play_within (c := c) [] hlt
    rwa [List.append_nil] at hwithin
  · rw [heq, play_round_of_not_stuck h]
    rfl

theorem isSome_play_nil (n : Nat) : (play n []).isSome ↔ n = 0 := by
  cases n with
  | zero => simp [play]
  | succ n => simp [play, turn]

theorem spared_succ (k : Nat) (c : List Role) : spared (k + 1) c = (round c).count stays + spared k (next c) := by
  unfold spared
  rw [Finset.sum_range_succ']
  simp only [Function.iterate_succ, Function.comp_apply, Function.iterate_zero, id_eq]
  exact Nat.add_comm _ _

theorem spared_zero (c : List Role) : spared 0 c = 0 := rfl

theorem spared_nil (k : Nat) : spared k [] = 0 := by
  induction k with
  | zero => rfl
  | succ k ih =>
      rw [spared_succ, show next [] = [] from rfl, ih]
      rfl

theorem spared_of_stuck {c : List Role} (h : Stuck c) (k : Nat) : spared k c = 0 := by
  have hremain := length_remain c
  rw [h.2, List.length_nil] at hremain
  cases k with
  | zero => rfl
  | succ k =>
      rw [spared_succ, show next c = [] by simp [next, h.2], spared_nil]
      omega

theorem eq_nil_of_round {c : List Role} (h : round c = []) : c = [] := by
  have hlength := length_eq c
  rw [h] at hlength
  exact List.length_eq_zero_iff.mp (Nat.eq_zero_of_add_eq_zero_right hlength)

/-- So many turns can be played if and only if the number of those who fall is made up for by the length of the circle
and by those who come up and stay, in as many rounds as need be. -/
theorem isSome_play_iff (n : Nat) (c : List Role) :
    (play n c).isSome ↔ ∃ k, (round c).count falls + n ≤ c.length + spared k c := by
  induction n using Nat.strongRecOn generalizing c with
  | ind n ih =>
      have hround := length_round c
      have hlength := length_eq c
      have hremain := length_remain c
      by_cases hstuck : Stuck c
      · -- Only those who fall or leave have come up, and the last one has nobody to take along.
        rw [isSome_play_of_stuck hstuck]
        rw [hstuck.1, Bool.toNat_true] at hlength
        rw [hstuck.2, List.length_nil] at hremain
        simp only [spared_of_stuck hstuck]
        exact ⟨fun hlt => ⟨0, by omega⟩, fun ⟨_, hle⟩ => by omega⟩
      · have hnext := length_next hstuck
        by_cases hn : n ≤ (round c).length
        · refine iff_of_true (isSome_play_of_le hstuck hn) ⟨1, ?_⟩
          rw [spared_succ]
          omega
        · by_cases hnone : round c = []
          · rw [eq_nil_of_round hnone, isSome_play_nil]
            simp only [spared_nil, round, List.count_nil, List.length_nil]
            exact ⟨fun hzero => ⟨0, by omega⟩, fun ⟨_, hle⟩ => by omega⟩
          · -- After the round the circle has nobody left who falls, and so many turns fewer to go.
            have hpos := List.length_pos_of_ne_nil hnone
            obtain ⟨m, rfl⟩ := Nat.exists_eq_add_of_le (Nat.le_of_not_le hn)
            rw [play_add, play_round_of_not_stuck hstuck, Option.bind_some, ih m (by omega), count_falls_next]
            constructor
            · rintro ⟨k, hk⟩
              refine ⟨k + 1, ?_⟩
              rw [spared_succ]
              omega
            · rintro ⟨k, hk⟩
              cases k with
              | zero =>
                  refine ⟨0, ?_⟩
                  rw [spared_zero] at hk ⊢
                  omega
              | succ k =>
                  refine ⟨k, ?_⟩
                  rw [spared_succ] at hk
                  omega

/-- Where everybody falls, each turn takes two. -/
theorem play_replicate_falls {n m : Nat} (h : m < 2 * n) : play n (List.replicate m falls) = none := by
  induction n generalizing m with
  | zero => omega
  | succ n ih =>
      match m with
      | 0 => rfl
      | 1 => rfl
      | m + 2 => exact ih (by omega)

end CountingOut
