import Livego.Endian
import Livego.Outcome

/-! Bytes, returned errors and 32-bit arithmetic. -/

namespace Livego

open Fallible

abbrev Bytes := List UInt8

/-- An error that a function returns. The errors held in package variables are compared by identity:
`eof` and `unexpectedEOF` are those of package io, `named` those of the server's own packages. -/
inductive GoError where
  | eof
  | unexpectedEOF
  | named (text : String)
  | errorf (text : String)
  deriving DecidableEq, Repr

/-- What `%s` prints for an error. -/
def GoError.text : GoError → String
  | .eof => "EOF"
  | .unexpectedEOF => "unexpected EOF"
  | .named text => text
  | .errorf text => text

/-- The value a `uint32` holds. -/
def u32 (n : Nat) : Nat := n % 2 ^ 32

/-- Subtraction of two `uint32` values. -/
def sub32 (a b : Nat) : Nat := (a + 2 ^ 32 - b) % 2 ^ 32

theorem u32_of_lt {n : Nat} (h : n < 2 ^ 32) : u32 n = n := Nat.mod_eq_of_lt h

theorem sub32_of_le {a b : Nat} (hle : b ≤ a) (ha : a < 2 ^ 32) : sub32 a b = a - b := by
  unfold sub32
  omega

end Livego
