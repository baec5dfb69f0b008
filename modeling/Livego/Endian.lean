import Mathlib.Tactic.Ring
import Mathlib.Data.Nat.Log

/-! Fixed-width numbers as bytes, in both byte orders: what is written and what it reads back as. -/

namespace Endian

/-- The `n` low bytes of `v`, the most significant first. -/
def beBytes : Nat → Nat → List UInt8
  | 0, _ => []
  | n + 1, v => UInt8.ofNat (v >>> (8 * n)) :: beBytes n v

/-- The `n` low bytes of `v`, the least significant first. -/
def leBytes : Nat → Nat → List UInt8
  | 0, _ => []
  | n + 1, v => UInt8.ofNat v :: leBytes n (v >>> 8)

/-- The number whose digits in base 256 are the given bytes, the most significant first. -/
def beNat (bs : List UInt8) : Nat := bs.foldl (fun v b => v * 256 + b.toNat) 0

/-- The number whose digits in base 256 are the given bytes, the least significant first. -/
def leNat : List UInt8 → Nat
  | [] => 0
  | b :: bs => b.toNat + 256 * leNat bs

@[simp] theorem beBytes_length (n v : Nat) : (beBytes n v).length = n := by
  induction n with
  | zero => rfl
  | succ n ih => simp [beBytes, ih]

@[simp] theorem leBytes_length (n v : Nat) : (leBytes n v).length = n := by
  induction n generalizing v with
  | zero => rfl
  | succ n ih => simp [leBytes, ih]

/-- The leading digits of a big-endian number weigh the bytes that follow. -/
theorem foldl_digits (bs : List UInt8) (v : Nat) :
    bs.foldl (fun v b => v * 256 + b.toNat) v = v * 256 ^ bs.length + beNat bs := by
  induction bs generalizing v with
  | nil => simp [beNat]
  | cons b bs ih =>
      rw [beNat, List.foldl_cons, List.foldl_cons, ih, ih (0 * 256 + b.toNat), List.length_cons,
        pow_succ]
      ring

theorem beNat_cons (b : UInt8) (bs : List UInt8) :
    beNat (b :: bs) = b.toNat * 256 ^ bs.length + beNat bs := by
  rw [beNat, List.foldl_cons, foldl_digits, Nat.zero_mul, Nat.zero_add]

@[simp] theorem beNat_nil : beNat [] = 0 := rfl

@[simp] theorem leNat_nil : leNat [] = 0 := rfl

theorem beNat_lt (bs : List UInt8) : beNat bs < 256 ^ bs.length := by
  induction bs with
  | nil => simp
  | cons b bs ih =>
      have hb : b.toNat < 256 := b.toNat_lt
      have hmul : b.toNat * 256 ^ bs.length ≤ 255 * 256 ^ bs.length :=
        Nat.mul_le_mul_right _ (by omega)
      rw [beNat_cons, List.length_cons, pow_succ]
      omega

/-- The digits of a number are unique where their count is. -/
theorem beNat_inj {bs bs' : List UInt8} (hlength : bs.length = bs'.length) (h : beNat bs = beNat bs') : bs = bs' := by
  induction bs generalizing bs' with
  | nil => exact (List.length_eq_zero_iff.mp hlength.symm).symm
  | cons b bs ih =>
      obtain ⟨b', bs', rfl⟩ := List.exists_cons_of_length_eq_add_one hlength.symm
      have hrest : bs.length = bs'.length := Nat.succ.inj hlength
      have hpos : 0 < 256 ^ bs.length := Nat.pow_pos (by decide)
      have hlt := beNat_lt bs
      have hlt' := beNat_lt bs'
      rw [beNat_cons, beNat_cons, ← hrest, Nat.mul_comm, Nat.mul_comm b'.toNat] at h
      rw [← hrest] at hlt'
      have hb := congrArg (· / 256 ^ bs.length) h
      simp only [Nat.mul_add_div hpos, Nat.div_eq_of_lt hlt, Nat.div_eq_of_lt hlt', Nat.add_zero] at hb
      obtain rfl := UInt8.toNat_inj.mp hb
      rw [ih hrest (Nat.add_left_cancel h)]

theorem toNat_ofNat_shiftRight (n v : Nat) :
    (UInt8.ofNat (v >>> (8 * n))).toNat = v / 256 ^ n % 256 := by
  rw [UInt8.toNat_ofNat', Nat.shiftRight_eq_div_pow, pow_mul]
  rfl

/-- A number reads back modulo what its width holds. -/
theorem beNat_beBytes (n v : Nat) : beNat (beBytes n v) = v % 256 ^ n := by
  induction n with
  | zero => simp [beBytes, Nat.mod_one]
  | succ n ih =>
      rw [beBytes, beNat_cons, beBytes_length, ih, toNat_ofNat_shiftRight, pow_succ, Nat.mod_mul]
      ring

theorem beNat_beBytes_of_lt {n v : Nat} (h : v < 256 ^ n) : beNat (beBytes n v) = v := by
  rw [beNat_beBytes, Nat.mod_eq_of_lt h]

theorem leNat_leBytes (n v : Nat) : leNat (leBytes n v) = v % 256 ^ n := by
  induction n generalizing v with
  | zero => simp [leBytes, Nat.mod_one]
  | succ n ih =>
      have hlow : (UInt8.ofNat v).toNat = v % 256 := UInt8.toNat_ofNat'
      have hshift : v >>> 8 = v / 256 := Nat.shiftRight_eq_div_pow v 8
      rw [leBytes, leNat, ih, hlow, hshift, pow_succ', Nat.mod_mul]

theorem leNat_leBytes_of_lt {n v : Nat} (h : v < 256 ^ n) : leNat (leBytes n v) = v := by
  rw [leNat_leBytes, Nat.mod_eq_of_lt h]

end Endian
