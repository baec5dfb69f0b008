import Livego.AmfDecoder3

/-! The AMF0 decoder, which hands values marked as AMF3 to the AMF3 decoder, and batches of values. -/

namespace Livego

open Fallible

namespace Amf

def decodeAmf0Number (decodeMarker : Bool) : Dec UInt64 := do
  assertMarker decodeMarker amf0NumberMarker
  wrap "amf0 decode: unable to read number" readFloat64

def decodeAmf0Boolean (decodeMarker : Bool) : Dec Bool := do
  assertMarker decodeMarker amf0BooleanMarker
  let b ← readByte
  if b = 0 then pure false
  else if b = 1 then pure true
  else Call.fail (.errorf s!"decode amf0: unexpected value {b.toNat} for boolean")

def decodeAmf0String (decodeMarker : Bool) : Dec Bytes := do
  assertMarker decodeMarker amf0StringMarker
  let length ← wrap "decode amf0: unable to decode string length" (readUint 2)
  wrap "decode amf0: unable to decode string value" (readBytes length)

/-- One entry, or the end of the object: an empty key and the end marker. -/
def objectTurn (decodeAmf0 : Dec Value) (result : Object) : Dec (Object ⊕ Object) := do
  let key ← decodeAmf0String false
  if key = [] then
    wrap "decode amf0: expected object end marker" (assertMarker true amf0ObjectEndMarker)
    pure (.inr result)
  else
    let value ← wrap "decode amf0: unable to decode object value" decodeAmf0
    pure (.inl (result.insert key value))

def decodeAmf0Object (decodeAmf0 : Dec Value) (decodeMarker : Bool) : Dec Object := do
  assertMarker decodeMarker amf0ObjectMarker
  let s ← Call.get
  Call.loop (objectTurn decodeAmf0) (s.left + 1) []

def decodeAmf0Null (decodeMarker : Bool) : Dec Value := do
  assertMarker decodeMarker amf0NullMarker
  pure .null

def decodeAmf0Undefined (decodeMarker : Bool) : Dec Value := do
  assertMarker decodeMarker amf0UndefinedMarker
  pure .null

/-- The announced length is read, with any error dropped, and not used. -/
def decodeAmf0EcmaArray (decodeAmf0 : Dec Value) (decodeMarker : Bool) : Dec Object := do
  assertMarker decodeMarker amf0EcmaArrayMarker
  let _ ← (readUint 4).attempt
  wrap "decode amf0: unable to decode ecma array object" (decodeAmf0Object decodeAmf0 false)

def decodeAmf0StrictArray (decodeAmf0 : Dec Value) (decodeMarker : Bool) : Dec Array := do
  assertMarker decodeMarker amf0StrictArrayMarker
  let length ← wrap "decode amf0: unable to decode strict array length" (readUint 4)
  (wrap "decode amf0: unable to decode strict array object" decodeAmf0).times length

def decodeAmf0Date (decodeMarker : Bool) : Dec UInt64 := do
  assertMarker decodeMarker amf0DateMarker
  let result ← wrap "decode amf0: unable to decode float in date" (decodeAmf0Number false)
  let _ ← wrap "decode amf0: unable to read 2 trail bytes in date" (readBytes 2)
  pure result

def decodeAmf0LongString (decodeMarker : Bool) : Dec Bytes := do
  assertMarker decodeMarker amf0LongStringMarker
  let length ← wrap "decode amf0: unable to decode long string length" (readUint 4)
  wrap "decode amf0: unable to decode long string value" (readBytes length)

def decodeAmf0Unsupported (decodeMarker : Bool) : Dec Value := do
  assertMarker decodeMarker amf0UnsupportedMarker
  pure .null

def decodeAmf0XmlDocument (decodeMarker : Bool) : Dec Bytes := do
  assertMarker decodeMarker amf0XmlDocumentMarker
  decodeAmf0LongString false

def decodeAmf0TypedObject (decodeAmf0 : Dec Value) (decodeMarker : Bool) : Dec Value := do
  assertMarker decodeMarker amf0TypedObjectMarker
  let type ← wrap "decode amf0: typed object unable to determine type" (decodeAmf0String false)
  let object ← wrap "decode amf0: typed object unable to determine object" (decodeAmf0Object decodeAmf0 false)
  pure (.typedObject type object)

/-- The value that a marker announces. -/
def amf0Value (decodeAmf0 : Dec Value) (marker : UInt8) : Dec Value :=
  if marker = amf0NumberMarker then do return .number (← decodeAmf0Number false)
  else if marker = amf0BooleanMarker then do return .bool (← decodeAmf0Boolean false)
  else if marker = amf0StringMarker then do return .string (← decodeAmf0String false)
  else if marker = amf0ObjectMarker then do return .object (← decodeAmf0Object decodeAmf0 false)
  else if marker = amf0MovieclipMarker then Call.fail (.errorf "decode amf0: unsupported type movieclip")
  else if marker = amf0NullMarker then decodeAmf0Null false
  else if marker = amf0UndefinedMarker then decodeAmf0Undefined false
  else if marker = amf0ReferenceMarker then Call.fail (.errorf "decode amf0: unsupported type reference")
  else if marker = amf0EcmaArrayMarker then do return .object (← decodeAmf0EcmaArray decodeAmf0 false)
  else if marker = amf0StrictArrayMarker then do return .array (← decodeAmf0StrictArray decodeAmf0 false)
  else if marker = amf0DateMarker then do return .number (← decodeAmf0Date false)
  else if marker = amf0LongStringMarker then do return .string (← decodeAmf0LongString false)
  else if marker = amf0UnsupportedMarker then decodeAmf0Unsupported false
  else if marker = amf0RecordsetMarker then Call.fail (.errorf "decode amf0: unsupported type recordset")
  else if marker = amf0XmlDocumentMarker then do return .string (← decodeAmf0XmlDocument false)
  else if marker = amf0TypedObjectMarker then decodeAmf0TypedObject decodeAmf0 false
  else if marker = amf0AcmplusObjectMarker then decodeAmf3
  else Call.fail (.errorf s!"decode amf0: unsupported type {marker.toNat}")

/-- One call of the router. -/
def decodeAmf0Body (decodeAmf0 : Dec Value) : Dec Value := do
  let marker ← readMarker
  amf0Value decodeAmf0 marker

def decodeAmf0 : Dec Value := Call.recurse Decoding.left decodeAmf0Body

def decode (ver : Nat) : Dec Value :=
  if ver = 0 then decodeAmf0
  else if ver = 3 then decodeAmf3
  else Call.fail (.errorf s!"decode amf: unsupported version {ver}")

def batchTurn (ver : Nat) (ret : List Value) : Dec (List Value ⊕ List Value × GoError) := do
  match ← (decode ver).attempt with
  | .ok v => pure (.inl (ret ++ [v]))
  | .error err => pure (.inr (ret, err))

/-- The values up to the first error, and that error. -/
def decodeBatch (ver : Nat) : Dec (List Value × GoError) := do
  let s ← Call.get
  Call.loop (batchTurn ver) (s.left + 1) []

end Amf

end Livego
