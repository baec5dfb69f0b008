import Mathlib.Data.List.Basic
import Mathlib.Tactic.Set

/-! Cyclic redundancy checks, the most significant bit first: the remainder of a message bit by bit, and the same
remainder several bits at a time from a table. -/

namespace Crc

variable {w : Nat}

/-- The remainder after one more bit: what leaves on top decides whether the polynomial is subtracted. -/
def feed (poly crc : BitVec w) (b : Bool) : BitVec w := if crc.msb ^^ b then crc <<< 1 ^^^ poly else crc <<< 1

/-- The remainder after all bits of a message. -/
def remainder (poly crc : BitVec w) (message : List Bool) : BitVec w := message.foldl (feed poly) crc

/-- The remainder after `n` more bits that are all zero. -/
def shifts (poly : BitVec w) : Nat → BitVec w → BitVec w
  | 0, crc => crc
  | n + 1, crc => shifts poly n (feed poly crc false)

/-- The bits of a word, the most significant first. -/
def bits {n : Nat} (x : BitVec n) : List Bool := (List.range n).map x.getMsbD

/-- A word that starts with the given bits. -/
def onTop : List Bool → BitVec w
  | [] => 0
  | b :: bs => (if b then BitVec.intMin w else 0) ^^^ onTop bs >>> 1

@[simp] theorem bits_length {n : Nat} (x : BitVec n) : (bits x).length = n := by
  rw [bits, List.length_map, List.length_range]

theorem bits_append {m n : Nat} (x : BitVec m) (y : BitVec n) : bits (x ++ y) = bits x ++ bits y := by
  rw [bits, bits, bits, List.range_add, List.map_append, List.map_map]
  congr 1
  · apply List.map_congr_left
    intro i hi
    rw [BitVec.getMsbD_append, if_neg (Nat.not_le.mpr (List.mem_range.mp hi))]
  · apply List.map_congr_left
    intro i _
    rw [Function.comp_apply, BitVec.getMsbD_append, if_pos (Nat.le_add_right m i), Nat.add_sub_cancel_left]

theorem remainder_append (poly crc : BitVec w) (xs ys : List Bool) :
    remainder poly crc (xs ++ ys) = remainder poly (remainder poly crc xs) ys := List.foldl_append

theorem getMsbD_onTop (bs : List Bool) (i : Nat) :
    (onTop bs : BitVec w).getMsbD i = (decide (i < w) && bs.getD i false) := by
  induction bs generalizing i with
  | nil => simp [onTop]
  | cons b bs ih =>
      rw [onTop, BitVec.getMsbD_xor, BitVec.getMsbD_ushiftRight, ih]
      cases i with
      | zero => cases b <;> simp [BitVec.getMsbD_intMin]
      | succ i =>
          have htop : (if b then BitVec.intMin w else 0).getMsbD (i + 1) = false := by
            cases b <;> simp [BitVec.getMsbD_intMin]
          rw [htop, Bool.false_xor]
          by_cases hi : i + 1 < w
          · have hle : i < w := by omega
            simp [hi, hle]
          · simp [hi]

/-- The bits of a shorter word, on top of a longer one. -/
theorem onTop_bits {n : Nat} (hn : n ≤ w) (x : BitVec n) : onTop (bits x) = x.setWidth w <<< (w - n) := by
  apply BitVec.eq_of_getMsbD_eq
  intro i hi
  rw [getMsbD_onTop, BitVec.getMsbD_shiftLeft, BitVec.getMsbD_setWidth, bits]
  have hindex : i + (w - n) + n - w = i := by omega
  rw [hindex]
  by_cases hin : i < n
  · have hle : w - n ≤ i + (w - n) ∧ i + (w - n) < w := by omega
    simp [hi, hin, hle, List.getD_eq_getElem?_getD]
  · have hout : x.getMsbD i = false := BitVec.getMsbD_of_ge x i (Nat.le_of_not_lt hin)
    simp [hin, hout, List.getD_eq_getElem?_getD]

/-- A bit that comes in counts as one that is added on top. -/
theorem feed_eq (poly crc : BitVec w) (b : Bool) :
    feed poly crc b = feed poly (crc ^^^ if b then BitVec.intMin w else 0) false := by
  cases b with
  | false => simp
  | true =>
      rcases Nat.eq_zero_or_pos w with rfl | hw
      · exact Subsingleton.elim _ _
      · have hout : BitVec.intMin w <<< 1 = 0 := by
          apply BitVec.eq_of_getMsbD_eq
          intro i _
          simp [BitVec.getMsbD_shiftLeft, BitVec.getMsbD_intMin]
        rw [feed, feed, if_pos rfl, BitVec.msb_xor, BitVec.msb_intMin, BitVec.shiftLeft_xor_distrib, hout]
        simp [hw]

theorem feed_xor (poly x y : BitVec w) : feed poly (x ^^^ y) false = feed poly x false ^^^ feed poly y false := by
  simp only [feed, BitVec.msb_xor, BitVec.shiftLeft_xor_distrib, Bool.xor_false]
  cases x.msb <;> cases y.msb
  · simp
  · simp [BitVec.xor_assoc]
  · simp [BitVec.xor_assoc, BitVec.xor_comm poly]
  · have hcancel : x <<< 1 ^^^ poly ^^^ (y <<< 1 ^^^ poly) = x <<< 1 ^^^ y <<< 1 := by
      rw [BitVec.xor_comm (y <<< 1), BitVec.xor_assoc, ← BitVec.xor_assoc poly, BitVec.xor_self, BitVec.zero_xor]
    simp [hcancel]

theorem shifts_xor (poly : BitVec w) (n : Nat) (x y : BitVec w) :
    shifts poly n (x ^^^ y) = shifts poly n x ^^^ shifts poly n y := by
  induction n generalizing x y with
  | zero => rfl
  | succ n ih => rw [shifts, feed_xor, ih, shifts, shifts]

/-- While the bits on top are zero, the remainder only moves up. -/
theorem shifts_of_clear (poly : BitVec w) (n : Nat) {x : BitVec w} (hx : ∀ i < n, x.getMsbD i = false) :
    shifts poly n x = x <<< n := by
  induction n generalizing x with
  | zero => rw [shifts, BitVec.shiftLeft_zero]
  | succ n ih =>
      have hmsb : x.msb = false := hx 0 (Nat.succ_pos n)
      have hfeed : feed poly x false = x <<< 1 := by rw [feed, hmsb, Bool.xor_false, if_neg Bool.false_ne_true]
      have hclear : ∀ i < n, (x <<< 1).getMsbD i = false := by
        intro i hi
        rw [BitVec.getMsbD_shiftLeft]
        exact hx (i + 1) (by omega)
      rw [shifts, hfeed, ih hclear, ← BitVec.shiftLeft_add, Nat.add_comm]

/-- A whole word of the message at once: its bits are added on top. -/
theorem remainder_eq_shifts (poly crc : BitVec w) {bs : List Bool} (hbs : bs.length ≤ w) :
    remainder poly crc bs = shifts poly bs.length (crc ^^^ onTop bs) := by
  induction bs generalizing crc with
  | nil => simp [remainder, onTop, shifts]
  | cons b bs ih =>
      have hlen : bs.length < w := hbs
      have hlow : feed poly (onTop bs >>> 1) false = onTop bs := by
        have hback := shifts_of_clear poly 1 (x := onTop bs >>> 1) (by
          intro i hi
          rw [Nat.lt_one_iff.mp hi]
          simp)
        rw [shifts, shifts] at hback
        rw [hback]
        apply BitVec.eq_of_getMsbD_eq
        intro i hi
        rw [BitVec.getMsbD_shiftLeft, BitVec.getMsbD_ushiftRight, getMsbD_onTop, getMsbD_onTop]
        by_cases hlast : i + 1 < w
        · simp [hi, hlast]
        · have hnone : bs.length ≤ i := by omega
          simp [hlast, List.getD_eq_getElem?_getD, List.getElem?_eq_none hnone]
      have hstep : remainder poly crc (b :: bs) = remainder poly (feed poly crc b) bs := rfl
      rw [hstep, ih _ (Nat.le_of_lt hlen), List.length_cons, shifts, onTop, ← BitVec.xor_assoc, feed_xor, hlow, ← feed_eq]

/-- What a table of the remainders of all `n`-bit words is for: one look-up instead of `n` bits. -/
theorem remainder_word (poly crc : BitVec w) {n : Nat} (hn : n ≤ w) (x : BitVec n) :
    remainder poly crc (bits x) =
      crc <<< n ^^^ shifts poly n (((crc >>> (w - n)).setWidth n ^^^ x).setWidth w <<< (w - n)) := by
  set top : BitVec w := ((crc >>> (w - n)).setWidth n).setWidth w <<< (w - n) with htop
  have hbit : ∀ i, top.getMsbD i = (decide (i < n) && crc.getMsbD i) := by
    intro i
    rw [htop, BitVec.getMsbD_shiftLeft, BitVec.getMsbD_setWidth, BitVec.getMsbD_setWidth, BitVec.getMsbD_ushiftRight]
    have hindex : i + (w - n) + n - w = i ∧ i + w - n = i + (w - n) := by omega
    rw [hindex.1, hindex.2]
    by_cases hi : i < n
    · have hin : n ≤ i + w ∧ i + (w - n) < w := by omega
      simp [hi, hin]
    · have hout : ¬i + (w - n) < w := by omega
      simp [hi, hout]
  have hclear : ∀ i < n, (crc ^^^ top).getMsbD i = false := by
    intro i hi
    rw [BitVec.getMsbD_xor, hbit]
    simp [hi]
  have hmove : (crc ^^^ top) <<< n = crc <<< n := by
    apply BitVec.eq_of_getMsbD_eq
    intro i _
    have hout : ¬i + n < n := by omega
    rw [BitVec.getMsbD_shiftLeft, BitVec.getMsbD_shiftLeft, BitVec.getMsbD_xor, hbit]
    simp [hout]
  have hsplit : crc ^^^ onTop (bits x) = (crc ^^^ top) ^^^ (top ^^^ onTop (bits x)) := by
    rw [BitVec.xor_assoc, ← BitVec.xor_assoc top, BitVec.xor_self, BitVec.zero_xor]
  rw [remainder_eq_shifts poly crc (by rwa [bits_length]), bits_length, hsplit, shifts_xor,
    shifts_of_clear poly n hclear, hmove, onTop_bits hn, htop, ← BitVec.shiftLeft_xor_distrib, ← BitVec.setWidth_xor]

/-- A message with its own remainder behind it has remainder zero. -/
theorem remainder_bits_self (poly crc : BitVec w) : remainder poly crc (bits crc) = 0 := by
  have hzero : shifts poly w 0#w = 0#w := by
    rw [shifts_of_clear poly w (fun i _ => BitVec.getMsbD_zero)]
    exact BitVec.zero_shiftLeft w
  rw [remainder_eq_shifts poly crc (Nat.le_of_eq (bits_length crc)), bits_length, onTop_bits (Nat.le_refl w), Nat.sub_self,
    BitVec.setWidth_eq, BitVec.shiftLeft_zero, BitVec.xor_self]
  exact hzero

end Crc
