import Mathlib.Algebra.Field.Rat
import Mathlib.Data.Nat.Log
import Mathlib.Tactic.Ring

/-! Integers as `float64` values, by bit patterns: conversion to the nearest value with ties to even, and
truncation toward zero. Up to 53 bits an integer comes back as it was, and its pattern stands for it exactly. -/

namespace Float64

/-- The significand of 53 bits nearest to `m`, which has `shift` bits more. It may round up to 54 bits;
the carry then goes into the exponent. -/
def roundShift (m shift : Nat) : Nat :=
  let q := m / 2 ^ shift
  let r := m % 2 ^ shift
  if 2 ^ shift < 2 * r ∨ (2 ^ shift = 2 * r ∧ q % 2 = 1) then q + 1 else q

/-- Exponent and fraction of a natural number. -/
def ofNat (m : Nat) : Nat :=
  if m = 0 then 0
  else
    let e := Nat.log2 m
    let significand := if e ≤ 52 then m * 2 ^ (52 - e) else roundShift m (e - 52)
    (1023 + e) * 2 ^ 52 + (significand - 2 ^ 52)

/-- `float64(n)`. -/
def ofInt (n : Int) : UInt64 :=
  UInt64.ofNat (ofNat n.natAbs + if n < 0 then 2 ^ 63 else 0)

/-- The integer part of a magnitude below infinity. -/
def truncate (raw : Nat) : Nat :=
  let exponent := raw / 2 ^ 52
  let significand := 2 ^ 52 + raw % 2 ^ 52
  if exponent < 1023 then 0
  else if exponent ≤ 1075 then significand / 2 ^ (1075 - exponent)
  else significand * 2 ^ (exponent - 1075)

/-- `int(f)`: what an `int64` cannot hold becomes its least value, as on amd64. -/
def toInt (bits : UInt64) : Int :=
  let raw := bits.toNat % 2 ^ 63
  let n : Int := if bits.toNat < 2 ^ 63 then truncate raw else -(truncate raw : Int)
  if raw / 2 ^ 52 = 2047 ∨ n < -2 ^ 63 ∨ 2 ^ 63 ≤ n then -2 ^ 63 else n

/-- The number that a magnitude below infinity stands for. -/
def magnitude (raw : Nat) : ℚ :=
  let exponent := raw / 2 ^ 52
  let fraction := raw % 2 ^ 52
  ((if exponent = 0 then fraction * 2 else (2 ^ 52 + fraction) * 2 ^ exponent : Nat) : ℚ) / (2 ^ 1075 : Nat)

/-- The number that a pattern stands for, unless it is an infinity or not a number. -/
def value (bits : UInt64) : Option ℚ :=
  let raw := bits.toNat % 2 ^ 63
  if raw / 2 ^ 52 = 2047 then none
  else some (if bits.toNat < 2 ^ 63 then magnitude raw else -magnitude raw)

/-- A number of at most 53 bits is shifted so that its leading bit is bit 52. -/
theorem significand_bounds {m : Nat} (hne : m ≠ 0) (hlog : Nat.log2 m ≤ 52) :
    2 ^ 52 ≤ m * 2 ^ (52 - Nat.log2 m) ∧ m * 2 ^ (52 - Nat.log2 m) < 2 ^ 53 := by
  have hscale : 2 ^ Nat.log2 m * 2 ^ (52 - Nat.log2 m) = 2 ^ 52 := by rw [← pow_add, Nat.add_sub_cancel' hlog]
  have hlow := Nat.mul_le_mul_right (2 ^ (52 - Nat.log2 m)) (Nat.log2_self_le hne)
  have hhigh := Nat.mul_lt_mul_of_pos_right (Nat.lt_log2_self (n := m)) (Nat.two_pow_pos (52 - Nat.log2 m))
  rw [pow_succ, Nat.mul_right_comm, hscale] at hhigh
  exact ⟨hscale ▸ hlow, by omega⟩

/-- The parts of the pattern of such a number. -/
theorem ofNat_parts {m : Nat} (hne : m ≠ 0) (hm : m < 2 ^ 53) :
    Nat.log2 m ≤ 52 ∧ ofNat m / 2 ^ 52 = 1023 + Nat.log2 m ∧ 2 ^ 52 + ofNat m % 2 ^ 52 = m * 2 ^ (52 - Nat.log2 m) := by
  have hlog : Nat.log2 m ≤ 52 := by
    have := (Nat.log2_lt hne).mpr hm
    omega
  obtain ⟨hlow, hhigh⟩ := significand_bounds hne hlog
  have hof : ofNat m = (1023 + Nat.log2 m) * 2 ^ 52 + (m * 2 ^ (52 - Nat.log2 m) - 2 ^ 52) := by
    rw [ofNat, if_neg hne]
    simp only [if_pos hlog]
  exact ⟨hlog, by omega, by omega⟩

theorem ofNat_lt {m : Nat} (hm : m < 2 ^ 53) : ofNat m < 2046 * 2 ^ 52 := by
  by_cases hne : m = 0
  · subst hne
    decide
  · have hparts := ofNat_parts hne hm
    omega

theorem truncate_ofNat {m : Nat} (hm : m < 2 ^ 53) : truncate (ofNat m) = m := by
  by_cases hne : m = 0
  · subst hne
    rfl
  · obtain ⟨hlog, hexponent, hfraction⟩ := ofNat_parts hne hm
    rw [truncate]
    simp only [hexponent, hfraction]
    rw [if_neg (by omega), if_pos (by omega), show 1075 - (1023 + Nat.log2 m) = 52 - Nat.log2 m by omega]
    exact Nat.mul_div_cancel _ (Nat.two_pow_pos _)

theorem magnitude_ofNat {m : Nat} (hm : m < 2 ^ 53) : magnitude (ofNat m) = m := by
  by_cases hne : m = 0
  · subst hne
    rw [magnitude, ofNat, if_pos rfl, if_pos (by decide), Nat.zero_mod, Nat.zero_mul, Nat.cast_zero, zero_div]
  · obtain ⟨hlog, hexponent, hfraction⟩ := ofNat_parts hne hm
    have hscale : 2 ^ (52 - Nat.log2 m) * 2 ^ (1023 + Nat.log2 m) = 2 ^ 1075 := by
      rw [← pow_add, show 52 - Nat.log2 m + (1023 + Nat.log2 m) = 1075 by omega]
    have hpos : ((2 ^ 1075 : Nat) : ℚ) ≠ 0 := Nat.cast_ne_zero.mpr (Nat.two_pow_pos 1075).ne'
    rw [magnitude]
    simp only [hexponent, hfraction]
    rw [if_neg (by omega), Nat.mul_assoc, hscale, Nat.cast_mul]
    exact mul_div_cancel_right₀ _ hpos

/-- The magnitude and the sign of an integer of at most 53 bits. -/
theorem ofInt_parts {n : Int} (hn : n.natAbs < 2 ^ 53) :
    (ofInt n).toNat % 2 ^ 63 = ofNat n.natAbs ∧ ((ofInt n).toNat < 2 ^ 63 ↔ ¬n < 0) := by
  have hsmall := ofNat_lt hn
  have hbits : (ofInt n).toNat = ofNat n.natAbs + if n < 0 then 2 ^ 63 else 0 := by
    rw [ofInt, UInt64.toNat_ofNat']
    exact Nat.mod_eq_of_lt (by split <;> omega)
  rw [hbits]
  split <;> omega

/-- Up to 53 bits an integer survives the conversions. -/
theorem toInt_ofInt {n : Int} (hn : n.natAbs < 2 ^ 53) : toInt (ofInt n) = n := by
  have hsmall := ofNat_lt hn
  obtain ⟨hraw, hsign⟩ := ofInt_parts hn
  simp only [toInt, hraw, truncate_ofNat hn, hsign]
  rw [if_neg]
  · split <;> omega
  · split <;> omega

/-- Up to 53 bits the pattern of an integer stands for that integer. -/
theorem value_ofInt {n : Int} (hn : n.natAbs < 2 ^ 53) : value (ofInt n) = some (n : ℚ) := by
  have hsmall := ofNat_lt hn
  obtain ⟨hraw, hsign⟩ := ofInt_parts hn
  simp only [value, hraw, magnitude_ofNat hn, hsign]
  rw [if_neg (by omega)]
  congr 1
  split
  · have habs : (n.natAbs : ℤ) = n := by omega
    rw [← Int.cast_natCast, habs]
  · have habs : (n.natAbs : ℤ) = -n := by omega
    rw [← Int.cast_natCast, habs, Int.cast_neg, neg_neg]

end Float64
