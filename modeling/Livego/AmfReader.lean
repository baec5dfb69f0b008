import Livego.Basic
import Livego.Recursion

/-! AMF values, the decoder with its reference tables, and the reads that decoding is made of. -/

namespace Livego

open Fallible

/-- The bytes of a string constant. -/
def lit (s : String) : Bytes := s.toUTF8.data.toList

theorem lit_append (a b : String) : lit (a ++ b) = lit a ++ lit b := by simp [lit]

/-- A string in the text of an error, one character per byte. -/
def quote (s : Bytes) : String := String.ofList (s.map fun b => Char.ofNat b.toNat)

namespace Amf

def amf0NumberMarker : UInt8 := 0x00
def amf0BooleanMarker : UInt8 := 0x01
def amf0StringMarker : UInt8 := 0x02
def amf0ObjectMarker : UInt8 := 0x03
def amf0MovieclipMarker : UInt8 := 0x04
def amf0NullMarker : UInt8 := 0x05
def amf0UndefinedMarker : UInt8 := 0x06
def amf0ReferenceMarker : UInt8 := 0x07
def amf0EcmaArrayMarker : UInt8 := 0x08
def amf0ObjectEndMarker : UInt8 := 0x09
def amf0StrictArrayMarker : UInt8 := 0x0a
def amf0DateMarker : UInt8 := 0x0b
def amf0LongStringMarker : UInt8 := 0x0c
def amf0UnsupportedMarker : UInt8 := 0x0d
def amf0RecordsetMarker : UInt8 := 0x0e
def amf0XmlDocumentMarker : UInt8 := 0x0f
def amf0TypedObjectMarker : UInt8 := 0x10
def amf0AcmplusObjectMarker : UInt8 := 0x11

def amf0StringMax : Nat := 65535

def amf3UndefinedMarker : UInt8 := 0x00
def amf3NullMarker : UInt8 := 0x01
def amf3FalseMarker : UInt8 := 0x02
def amf3TrueMarker : UInt8 := 0x03
def amf3IntegerMarker : UInt8 := 0x04
def amf3DoubleMarker : UInt8 := 0x05
def amf3StringMarker : UInt8 := 0x06
def amf3XmldocMarker : UInt8 := 0x07
def amf3DateMarker : UInt8 := 0x08
def amf3ArrayMarker : UInt8 := 0x09
def amf3ObjectMarker : UInt8 := 0x0a
def amf3XmlstringMarker : UInt8 := 0x0b
def amf3BytearrayMarker : UInt8 := 0x0c

/-- An `interface{}` as the codec meets it. A number is the bit pattern of a `float64`, an `int` any
of Go's integer kinds. A map lists its entries in the order in which `range` comes to them; a nil
`Array` is the empty one. A time is kept as the number of milliseconds it was made from. -/
inductive Value where
  | null
  | bool (b : Bool)
  | int (n : Int)
  | number (bits : UInt64)
  | string (s : Bytes)
  | array (vs : List Value)
  | object (entries : List (Bytes × Value))
  | typedObject (type : Bytes) (entries : List (Bytes × Value))
  | time (millis : UInt64)
  | bytes (bs : Bytes)
  deriving Repr

abbrev Array := List Value
abbrev Object := List (Bytes × Value)

/-- `obj[key] = value`. -/
def Object.insert (obj : Object) (key : Bytes) (value : Value) : Object :=
  match obj with
  | [] => [(key, value)]
  | (k, v) :: rest => if k = key then (k, value) :: rest else (k, v) :: Object.insert rest key value

structure Trait where
  type : Bytes := []
  externalizable : Bool := false
  dynamic : Bool := false
  properties : List Bytes := []
  deriving DecidableEq, Repr

/-- The tables that AMF3 references index. -/
structure Decoder where
  stringRefs : List Bytes := []
  objectRefs : List Value := []
  traitRefs : List Trait := []

/-- The in-memory readers. At its end a `bytes.Reader` reports `EOF` whatever it is asked for, a
`bytes.Buffer` only when asked for a byte. -/
inductive ReaderKind where
  | bytesReader
  | bytesBuffer
  deriving DecidableEq, Repr

structure Reader where
  kind : ReaderKind
  unread : Bytes
  deriving DecidableEq, Repr

/-- A decoder and the reader it is called with. -/
structure Decoding where
  decoder : Decoder
  r : Reader

abbrev Dec (α : Type) : Type := Call GoError Decoding α

namespace Decoding

def unread (s : Decoding) : Bytes := s.r.unread

/-- The reader past `n` bytes. -/
def skip (n : Nat) (s : Decoding) : Decoding :=
  { s with r := { s.r with unread := s.r.unread.drop n } }

/-- The bytes left, which every turn of a decoding loop makes fewer. -/
def left (s : Decoding) : Nat := s.r.unread.length

@[simp] theorem skip_decoder (n : Nat) (s : Decoding) : (s.skip n).decoder = s.decoder := rfl
@[simp] theorem skip_kind (n : Nat) (s : Decoding) : (s.skip n).r.kind = s.r.kind := rfl
@[simp] theorem skip_unread (n : Nat) (s : Decoding) : (s.skip n).r.unread = s.r.unread.drop n := rfl

@[simp] theorem left_skip (n : Nat) (s : Decoding) : (s.skip n).left = s.left - n := by
  simp [left]

theorem left_skip_le (n : Nat) (s : Decoding) : (s.skip n).left ≤ s.left := by
  simp

end Decoding

/-- `fmt.Errorf("<text>: %s", err)` on the error of a call. -/
def wrap {σ α : Type} (text : String) (x : Call GoError σ α) : Call GoError σ α :=
  Call.mapErr (fun e => .errorf s!"{text}: {e.text}") x

/-- `r.Read` into a buffer of `n` bytes: as many of them as there are. -/
def read (n : Nat) : Dec Bytes := fun s =>
  if s.r.unread = [] ∧ (s.r.kind = .bytesReader ∨ n ≠ 0) then .err .eof s
  else .ok (s.r.unread.take n) (s.skip n)

/-- `r.Read` with the count dropped: what was not read stays zero. -/
def fill (n : Nat) : Dec Bytes := do
  let buf ← read n
  pure (buf ++ List.replicate (n - buf.length) 0)

def readBytes (n : Nat) : Dec Bytes := do
  let bytes ← read n
  let m := bytes.length
  if m ≠ n then Call.fail (.errorf s!"decode read bytes failed: expected {m} got {n}")
  else pure bytes

def readByte : Dec UInt8 := do
  let bytes ← readBytes 1
  pure (bytes.headD 0)

def readMarker : Dec UInt8 := readByte

def assertMarker (checkMarker : Bool) (m : UInt8) : Dec Unit := do
  if checkMarker then
    let marker ← readMarker
    if marker ≠ m then
      Call.fail (.errorf s!"decode assert marker failed: expected {m.toNat} got {marker.toNat}")
  else pure ()

@[simp] theorem assertMarker_false (m : UInt8) : assertMarker false m = pure () := rfl

/-- `binary.Read` of a number of `n` bytes, big-endian, which reads them with `io.ReadFull`. -/
def readUint (n : Nat) : Dec Nat := fun s =>
  if s.r.unread.length < n then .err (if s.r.unread = [] then .eof else .unexpectedEOF) (s.skip n)
  else .ok (Endian.beNat (s.r.unread.take n)) (s.skip n)

theorem readUint_of_le {n : Nat} {s : Decoding} (h : n ≤ s.left) :
    readUint n s = .ok (Endian.beNat (s.unread.take n)) (s.skip n) := if_neg (Nat.not_lt.mpr h)

theorem readUint_of_lt {n : Nat} {s : Decoding} (h : s.left < n) :
    readUint n s = .err (if s.r.unread = [] then .eof else .unexpectedEOF) (s.skip n) := if_pos h

/-- A `float64` by its bit pattern. -/
def readFloat64 : Dec UInt64 := do
  let bits ← readUint 8
  pure (UInt64.ofNat bits)

/-- Indexing one of the tables, which panics past its end. -/
def index {α : Type} (table : Decoder → List α) (i : Nat) : Dec α := fun s =>
  match (table s.decoder)[i]? with
  | some a => .ok a s
  | none => .panic .indexOutOfRange

/-- An update of the tables. -/
def record (f : Decoder → Decoder) : Dec Unit := Call.modify fun s => { s with decoder := f s.decoder }

def pushString (result : Bytes) : Dec Unit :=
  record fun d => { d with stringRefs := d.stringRefs ++ [result] }

def pushObject (result : Value) : Dec Unit :=
  record fun d => { d with objectRefs := d.objectRefs ++ [result] }

def pushTrait (trait : Trait) : Dec Unit :=
  record fun d => { d with traitRefs := d.traitRefs ++ [trait] }

end Amf

end Livego
