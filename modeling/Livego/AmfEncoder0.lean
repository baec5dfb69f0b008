import Livego.AmfReader
import Livego.Float64

/-! The AMF0 encoder, writing into a `bytes.Buffer`, which takes every write. -/

namespace Livego

open Fallible

namespace Amf

/-- The state is what the buffer holds; the results count the bytes written. -/
abbrev Enc (α : Type) : Type := Call GoError Bytes α

def writeBytes (bytes : Bytes) : Enc Nat := fun w => .ok bytes.length (w ++ bytes)

def writeMarker (m : UInt8) : Enc Unit := do
  let _ ← writeBytes [m]

/-- `binary.Write` of a number of `n` bytes, big-endian. -/
def writeUint (n v : Nat) : Enc Unit := do
  let _ ← writeBytes (Endian.beBytes n v)

/-- The marker, where one is asked for, and the count so far. -/
def writeMarkerIf (encodeMarker : Bool) (m : UInt8) : Enc Nat :=
  if encodeMarker then do
    writeMarker m
    pure 1
  else pure 0

def encodeAmf0Number (val : UInt64) (encodeMarker : Bool) : Enc Nat := do
  let n ← writeMarkerIf encodeMarker amf0NumberMarker
  writeUint 8 val.toNat
  pure (n + 8)

def encodeAmf0Boolean (val : Bool) (encodeMarker : Bool) : Enc Nat := do
  let n ← writeMarkerIf encodeMarker amf0BooleanMarker
  let m ← writeBytes [if val then 1 else 0]
  pure (n + m)

/-- The length is cut to a `uint16`. -/
def encodeAmf0String (val : Bytes) (encodeMarker : Bool) : Enc Nat := do
  let n ← writeMarkerIf encodeMarker amf0StringMarker
  wrap "encode amf0: unable to encode string length" (writeUint 2 (val.length % 2 ^ 16))
  let m ← wrap "encode amf0: unable to encode string value" (writeBytes val)
  pure (n + 2 + m)

/-- `EncodeAmf0Object`, with the loop over the entries. -/
def encodeAmf0ObjectWith (encodeEntries : Enc Nat) (encodeMarker : Bool) : Enc Nat := do
  let n ← writeMarkerIf encodeMarker amf0ObjectMarker
  let m ← encodeEntries
  let k ← wrap "encode amf0: unable to encode object empty string" (encodeAmf0String [] false)
  wrap "encode amf0: unable to object end marker" (writeMarker amf0ObjectEndMarker)
  pure (n + m + k + 1)

def encodeAmf0Null (encodeMarker : Bool) : Enc Nat := writeMarkerIf encodeMarker amf0NullMarker

/-- `EncodeAmf0StrictArray`, with the loop over the elements. -/
def encodeAmf0StrictArrayWith (length : Nat) (encodeElements : Enc Nat) (encodeMarker : Bool) : Enc Nat := do
  let n ← writeMarkerIf encodeMarker amf0StrictArrayMarker
  wrap "encode amf0: unable to encode strict array length" (writeUint 4 (u32 length))
  let m ← encodeElements
  pure (n + 4 + m)

def encodeAmf0LongString (val : Bytes) (encodeMarker : Bool) : Enc Nat := do
  let n ← writeMarkerIf encodeMarker amf0LongStringMarker
  wrap "encode amf0: unable to encode long string length" (writeUint 4 (u32 val.length))
  let m ← wrap "encode amf0: unable to encode long string value" (writeBytes val)
  pure (n + 4 + m)

/-- The elements of a `[]byte`, which is encoded as an array of numbers. -/
def encodeBytes : Bytes → Enc Nat
  | [] => pure 0
  | b :: bs => do
    let m ← wrap "encode amf0: unable to encode strict array element"
      (encodeAmf0Number (Float64.ofInt b.toNat) true)
    let n ← encodeBytes bs
    pure (m + n)

mutual
/-- The router, which branches on the kind of the value. -/
def encodeAmf0 : Value → Enc Nat
  | .null => encodeAmf0Null true
  | .string str =>
    if str.length ≤ amf0StringMax then encodeAmf0String str true else encodeAmf0LongString str true
  | .bool b => encodeAmf0Boolean b true
  | .int n => encodeAmf0Number (Float64.ofInt n) true
  | .number bits => encodeAmf0Number bits true
  | .array arr => encodeAmf0StrictArrayWith arr.length (encodeElements arr) true
  | .bytes bs => encodeAmf0StrictArrayWith bs.length (encodeBytes bs) true
  | .object obj => encodeAmf0ObjectWith (encodeEntries obj) true
  | .typedObject _ _ => Call.fail (.errorf "encode amf0: unsupported type typed object")
  | .time _ => Call.fail (.errorf "encode amf0: unsupported type time.Time")

def encodeElements : List Value → Enc Nat
  | [] => pure 0
  | v :: vs => do
    let m ← wrap "encode amf0: unable to encode strict array element" (encodeAmf0 v)
    let n ← encodeElements vs
    pure (m + n)

def encodeEntries : List (Bytes × Value) → Enc Nat
  | [] => pure 0
  | (k, v) :: entries => do
    let m ← wrap "encode amf0: unable to encode object key" (encodeAmf0String k false)
    let m' ← wrap "encode amf0: unable to encode object value" (encodeAmf0 v)
    let n ← encodeEntries entries
    pure (m + m' + n)
end

def encodeAmf0Object (val : Object) (encodeMarker : Bool) : Enc Nat :=
  encodeAmf0ObjectWith (encodeEntries val) encodeMarker

def encodeAmf0EcmaArray (val : Object) (encodeMarker : Bool) : Enc Nat := do
  let n ← writeMarkerIf encodeMarker amf0EcmaArrayMarker
  wrap "encode amf0: unable to encode ecma array length" (writeUint 4 (u32 val.length))
  let m ← wrap "encode amf0: unable to encode ecma array object" (encodeAmf0Object val false)
  pure (n + 4 + m)

/-- `EncodeBatch` with version AMF0, which is the only one that the servers write. -/
def encodeBatch : List Value → Enc Nat
  | [] => pure 0
  | v :: vs => do
    let _ ← encodeAmf0 v
    encodeBatch vs

end Amf

end Livego
