import Livego.AmfEncoder0
import Mathlib.Data.List.Sort

/-! The AMF3 encoder. Which form an integer takes depends on its kind, so that the values here keep the kinds that
reflection tells apart. -/

namespace Livego

open Fallible

namespace Amf

def amf3IntegerMax : Nat := 536870911

/-- The kinds of integers. -/
inductive IntKind where
  | int
  | int8
  | int16
  | int32
  | int64
  | uint
  | uint8
  | uint16
  | uint32
  | uint64
  deriving DecidableEq, Repr

namespace IntKind

/-- The least value of the kind, and the first above its greatest. -/
def range : IntKind → Int × Int
  | int | int64 => (-2 ^ 63, 2 ^ 63)
  | int8 => (-2 ^ 7, 2 ^ 7)
  | int16 => (-2 ^ 15, 2 ^ 15)
  | int32 => (-2 ^ 31, 2 ^ 31)
  | uint | uint64 => (0, 2 ^ 64)
  | uint8 => (0, 2 ^ 8)
  | uint16 => (0, 2 ^ 16)
  | uint32 => (0, 2 ^ 32)

/-- The kinds that the encoder always writes as a double. -/
def Wide (kind : IntKind) : Prop := kind = int64 ∨ kind = uint64

instance (kind : IntKind) : Decidable kind.Wide := inferInstanceAs (Decidable (_ ∨ _))

end IntKind

/-- An `interface{}` as `EncodeAmf3` meets it. A byte slice is an array of `uint8`, an `Object` a map whose entries
are listed in some order, and a time the number of milliseconds that its seconds make. -/
inductive GoValue where
  | null
  | bool (b : Bool)
  | int (kind : IntKind) (n : Int)
  | number (bits : UInt64)
  | string (s : Bytes)
  | array (vs : List GoValue)
  | object (entries : List (Bytes × GoValue))
  | typedObject (type : Bytes) (entries : List (Bytes × GoValue))
  | time (millis : UInt64)
  | otherMap
  | other (type : String)
  deriving Repr

def encodeAmf3Uint29 (val : Nat) : Enc Nat :=
  if val ≤ 0x0000007f then writeBytes [UInt8.ofNat val]
  else if val ≤ 0x00003fff then writeBytes [UInt8.ofNat (val >>> 7 ||| 0x80), UInt8.ofNat (val &&& 0x7f)]
  else if val ≤ 0x001fffff then
    writeBytes [UInt8.ofNat (val >>> 14 ||| 0x80), UInt8.ofNat (val >>> 7 &&& 0x7f ||| 0x80), UInt8.ofNat (val &&& 0x7f)]
  else if val ≤ 0x1fffffff then
    writeBytes [UInt8.ofNat (val >>> 22 ||| 0x80), UInt8.ofNat (val >>> 15 &&& 0x7f ||| 0x80),
      UInt8.ofNat (val >>> 8 &&& 0x7f ||| 0x80), UInt8.ofNat val]
  else Call.fail (.errorf s!"amf3 encode: cannot encode u29 with value {val} (out of range)")

/-- A length as a `uint32`, with the bit that says that it is no reference. -/
def inlineLength (length : Nat) : Nat := u32 (u32 length <<< 1) ||| 0x01

def encodeAmf3Utf8 (val : Bytes) : Enc Nat := do
  let n ← wrap "amf3 encode: cannot encode u29 for string" (encodeAmf3Uint29 (inlineLength val.length))
  let m ← wrap "encode amf3: unable to encode string value" (writeBytes val)
  pure (n + m)

def encodeAmf3Null (encodeMarker : Bool) : Enc Nat := writeMarkerIf encodeMarker amf3NullMarker

def encodeAmf3False (encodeMarker : Bool) : Enc Nat := writeMarkerIf encodeMarker amf3FalseMarker

def encodeAmf3True (encodeMarker : Bool) : Enc Nat := writeMarkerIf encodeMarker amf3TrueMarker

def encodeAmf3Integer (val : Nat) (encodeMarker : Bool) : Enc Nat := do
  let n ← writeMarkerIf encodeMarker amf3IntegerMarker
  let m ← encodeAmf3Uint29 val
  pure (n + m)

def encodeAmf3Double (val : UInt64) (encodeMarker : Bool) : Enc Nat := do
  let n ← writeMarkerIf encodeMarker amf3DoubleMarker
  writeUint 8 val.toNat
  pure (n + 8)

def encodeAmf3String (val : Bytes) (encodeMarker : Bool) : Enc Nat := do
  let n ← writeMarkerIf encodeMarker amf3StringMarker
  let m ← encodeAmf3Utf8 val
  pure (n + m)

def encodeAmf3Date (millis : UInt64) (encodeMarker : Bool) : Enc Nat := do
  let n ← writeMarkerIf encodeMarker amf3DateMarker
  wrap "amf3 encode: cannot encode u29 for array" (writeMarker 0x01)
  wrap "amf3 encode: unable to write date double" (writeUint 8 millis.toNat)
  pure (n + 1 + 8)

/-- `EncodeAmf3Array`, with the loop over the elements. -/
def encodeAmf3ArrayWith (length : Nat) (encodeElements : Enc Nat) (encodeMarker : Bool) : Enc Nat := do
  let n ← writeMarkerIf encodeMarker amf3ArrayMarker
  let m ← wrap "amf3 encode: cannot encode u29 for array" (encodeAmf3Uint29 (inlineLength length))
  let k ← wrap "amf3 encode: cannot encode empty string for array" (encodeAmf3Utf8 [])
  let l ← encodeElements
  pure (n + m + k + l)

/-- `sort.Strings`. -/
def sortStrings (keys : List Bytes) : List Bytes := keys.insertionSort (· ≤ ·)

def encodeProperties : List Bytes → Enc Nat
  | [] => pure 0
  | prop :: props => do
    let m ← wrap "amf3 encode: cannot encode trait property for object" (encodeAmf3Utf8 prop)
    let n ← encodeProperties props
    pure (m + n)

/-- The values of the properties, looked up in the map; a key that is not there has nil. -/
def encodeSealed (entries : List (Bytes × Enc Nat)) : List Bytes → Enc Nat
  | [] => pure 0
  | prop :: props => do
    let m ← wrap "amf3 encode: cannot encode sealed object value" ((entries.lookup prop).getD (encodeAmf3Null true))
    let n ← encodeSealed entries props
    pure (m + n)

/-- `EncodeAmf3Object`, with the call that encodes each value. Its trait is neither dynamic nor externalizable. -/
def encodeAmf3ObjectWith (type : Bytes) (entries : List (Bytes × Enc Nat)) (encodeMarker : Bool) : Enc Nat := do
  let n ← writeMarkerIf encodeMarker amf3ObjectMarker
  let properties := sortStrings (entries.map Prod.fst)
  let u29 := 0x03 ||| u32 (u32 properties.length <<< 4)
  let m ← wrap "amf3 encode: cannot encode trait header for object" (encodeAmf3Uint29 u29)
  let k ← wrap "amf3 encode: cannot encode trait type for object" (encodeAmf3Utf8 type)
  let l ← encodeProperties properties
  let j ← encodeSealed entries properties
  pure (n + m + k + l + j)

mutual
/-- The router, which branches on the kind of the value. -/
def encodeAmf3 : GoValue → Enc Nat
  | .null => encodeAmf3Null true
  | .string str => encodeAmf3String str true
  | .bool b => if b then encodeAmf3True true else encodeAmf3False true
  | .int kind n =>
    if kind.Wide then encodeAmf3Double (Float64.ofInt n) true
    else if n ≥ 0 ∧ n ≤ amf3IntegerMax then encodeAmf3Integer n.toNat true
    else encodeAmf3Double (Float64.ofInt n) true
  | .number bits => encodeAmf3Double bits true
  | .array arr => encodeAmf3ArrayWith arr.length (encodeElements3 arr) true
  | .object obj => encodeAmf3ObjectWith [] (encodeEntries3 obj) true
  | .time millis => encodeAmf3Date millis true
  | .typedObject type obj => encodeAmf3ObjectWith type (encodeEntries3 obj) true
  | .otherMap => Call.fail (.errorf "encode amf3: unable to create object from map")
  | .other type => Call.fail (.errorf s!"encode amf3: unsupported type {type}")

def encodeElements3 : List GoValue → Enc Nat
  | [] => pure 0
  | v :: vs => do
    let m ← wrap "amf3 encode: cannot encode array element" (encodeAmf3 v)
    let n ← encodeElements3 vs
    pure (m + n)

/-- What encodes each value of a map. -/
def encodeEntries3 : List (Bytes × GoValue) → List (Bytes × Enc Nat)
  | [] => []
  | (k, v) :: entries => (k, encodeAmf3 v) :: encodeEntries3 entries
end

end Amf

end Livego
