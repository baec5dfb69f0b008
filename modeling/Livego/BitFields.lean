import Livego.Endian

/-! Fields of bits in a sequence of bytes, the most significant bit first, as the tables of a format give them. -/

namespace Endian

variable {bs : List UInt8} {offset width : Nat}

/-- The number in `width` bits, with `offset` bits in front of them. -/
def field (bs : List UInt8) (offset width : Nat) : Nat :=
  beNat bs / 2 ^ (8 * bs.length - (offset + width)) % 2 ^ width

theorem field_lt (bs : List UInt8) (offset width : Nat) : field bs offset width < 2 ^ width :=
  Nat.mod_lt _ (Nat.two_pow_pos width)

theorem beNat_append (bs rest : List UInt8) : beNat (bs ++ rest) = beNat bs * 2 ^ (8 * rest.length) + beNat rest := by
  have hbase : 256 ^ rest.length = 2 ^ (8 * rest.length) := (pow_mul 2 8 rest.length).symm
  rw [beNat, List.foldl_append, foldl_digits, hbase]
  rfl

/-- A field is not affected by what follows it. -/
theorem field_append (h : offset + width ≤ 8 * bs.length) (rest : List UInt8) :
    field (bs ++ rest) offset width = field bs offset width := by
  have hlt : beNat rest < 2 ^ (8 * rest.length) := by
    rw [pow_mul]
    exact beNat_lt rest
  have hdiv : beNat (bs ++ rest) / 2 ^ (8 * rest.length) = beNat bs := by
    rw [beNat_append, Nat.add_comm, Nat.add_mul_div_right _ _ (Nat.two_pow_pos _), Nat.div_eq_of_lt hlt, Nat.zero_add]
  have hexp : 8 * (bs ++ rest).length - (offset + width) = 8 * rest.length + (8 * bs.length - (offset + width)) := by
    rw [List.length_append]
    omega
  rw [field, hexp, pow_add, ← Nat.div_div_eq_div_mul, hdiv, field]

/-- Two numbers in one byte, the second in the bits below the first. -/
theorem toNat_shiftLeft_or {a b n : UInt8} (hn : n.toNat < 8) (hb : b.toNat < 2 ^ n.toNat) :
    (a <<< n ||| b).toNat = a.toNat % 2 ^ (8 - n.toNat) * 2 ^ n.toNat + b.toNat := by
  have hshift : a.toNat <<< n.toNat % 2 ^ 8 = (a.toNat % 2 ^ (8 - n.toNat)) <<< n.toNat := by
    have hsplit : 2 ^ 8 = 2 ^ (8 - n.toNat) * 2 ^ n.toNat := by
      rw [← pow_add, Nat.sub_add_cancel hn.le]
    rw [Nat.shiftLeft_eq, Nat.shiftLeft_eq, hsplit, Nat.mul_mod_mul_right]
  rw [UInt8.toNat_or, UInt8.toNat_shiftLeft, Nat.mod_eq_of_lt hn, hshift, ← Nat.shiftLeft_add_eq_or_of_lt hb,
    Nat.shiftLeft_eq]

end Endian
