import Livego.AmfReader

/-! The AMF3 decoder. Each kind of value is decoded by a function of its own; those that contain values
take `decodeAmf3`, the router, as a parameter. -/

namespace Livego

open Fallible

namespace Amf

def u29Loop : Nat → Nat → Dec Nat
  | 0, result => do
    let b ← readByte
    pure ((result <<< 8) + b.toNat)
  | i + 1, result => do
    let b ← readByte
    let result := (result <<< 7) + (b &&& 0x7f).toNat
    if b &&& 0x80 = 0 then pure result else u29Loop i result

/-- Three bytes of seven bits, then one of eight: 29 bits, which a `uint32` holds. -/
def decodeU29 : Dec Nat := u29Loop 3 0

/-- Whether an integer is a reference, and the rest of its bits. -/
structure ReferenceInt where
  isRef : Bool
  refVal : Nat

def decodeReferenceInt : Dec ReferenceInt := do
  let u29 ← wrap "amf3 decode: unable to decode reference int" decodeU29
  pure { isRef := u29 &&& 1 = 0, refVal := u29 >>> 1 }

def decodeAmf3Undefined (decodeMarker : Bool) : Dec Value := do
  assertMarker decodeMarker amf3UndefinedMarker
  pure .null

def decodeAmf3Null (decodeMarker : Bool) : Dec Value := do
  assertMarker decodeMarker amf3NullMarker
  pure .null

def decodeAmf3False (decodeMarker : Bool) : Dec Bool := do
  assertMarker decodeMarker amf3FalseMarker
  pure false

def decodeAmf3True (decodeMarker : Bool) : Dec Bool := do
  assertMarker decodeMarker amf3TrueMarker
  pure true

/-- An `int32`; above 0xfffffff the 29 bits stand for a negative number. -/
def decodeAmf3Integer (decodeMarker : Bool) : Dec Int := do
  assertMarker decodeMarker amf3IntegerMarker
  let u29 ← decodeU29
  pure (if u29 > 0xfffffff then (u29 : Int) - 0x20000000 else u29)

def decodeAmf3Double (decodeMarker : Bool) : Dec UInt64 := do
  assertMarker decodeMarker amf3DoubleMarker
  wrap "amf3 decode: unable to read double" readFloat64

def decodeAmf3String (decodeMarker : Bool) : Dec Bytes := do
  assertMarker decodeMarker amf3StringMarker
  let ref ← wrap "amf3 decode: unable to decode string reference and length" decodeReferenceInt
  if ref.isRef then index Decoder.stringRefs ref.refVal
  else
    let result ← wrap "amf3 decode: unable to read string" (fill ref.refVal)
    if result ≠ [] then pushString result
    pure result

def decodeAmf3Date (decodeMarker : Bool) : Dec UInt64 := do
  assertMarker decodeMarker amf3DateMarker
  let ref ← wrap "amf3 decode: unable to decode date reference and length" decodeReferenceInt
  if ref.isRef then
    match ← index Decoder.objectRefs ref.refVal with
    | .time millis => pure millis
    | _ => Call.fail (.errorf "amf3 decode: unable to extract time from date object references")
  else
    let u64 ← wrap "amf3 decode: unable to read double" readFloat64
    pushObject (.time u64)
    pure u64

def decodeAmf3Array (decodeAmf3 : Dec Value) (decodeMarker : Bool) : Dec Array := do
  assertMarker decodeMarker amf3ArrayMarker
  let ref ← wrap "amf3 decode: unable to decode array reference and length" decodeReferenceInt
  if ref.isRef then
    match ← index Decoder.objectRefs (ref.refVal >>> 1) with
    | .array res => pure res
    | _ => Call.fail (.errorf "amf3 decode: unable to extract array from object references")
  else
    let key ← wrap "amf3 decode: unable to read key for array" (decodeAmf3String false)
    if key ≠ [] then
      Call.fail (.errorf "amf3 decode: array key is not empty, can't handle associative array")
    else
      let result ← (wrap "amf3 decode: array element could not be decoded" decodeAmf3).times ref.refVal
      pushObject (.array result)
      pure result

/-- The trait that an object begins with: a reference to an earlier one, or its class and the keys of
its properties, which the table then gains. -/
def decodeTrait (refVal : Nat) : Dec Trait :=
  if refVal &&& 1 = 0 then index Decoder.traitRefs (refVal >>> 1)
  else do
    let cls ← wrap "amf3 decode: unable to read trait type for object" (decodeAmf3String false)
    let properties ← (wrap "amf3 decode: unable to read trait property for object"
      (decodeAmf3String false)).times (refVal >>> 3)
    let trait : Trait :=
      { type := cls, externalizable := refVal &&& 2 ≠ 0, dynamic := refVal &&& 4 ≠ 0, properties }
    pushTrait trait
    pure trait

/-- The values of the given keys, one after the other, as entries of a map. Each key has the context
of an error met in its value. -/
def decodeEntries (decodeAmf3 : Dec Value) : List (Bytes × String) → Object → Dec Object
  | [], obj => pure obj
  | (key, context) :: keys, obj => do
    let val ← wrap context decodeAmf3
    decodeEntries decodeAmf3 keys (obj.insert key val)

def flagTurn (result : List UInt8) : Dec (List UInt8 ⊕ List UInt8) := do
  let flag ← wrap "unable to read flags" readByte
  let result := result ++ [flag]
  pure (if flag &&& 0x80 = 0 then .inr result else .inl result)

def readFlags : Dec (List UInt8) := do
  let s ← Call.get
  Call.loop flagTurn (s.left + 1) []

/-- What `%#v` prints for a `[]uint8`. -/
def goSyntax (flagSet : List UInt8) : String :=
  let bytes := flagSet.map fun b => "0x" ++ String.ofList (Nat.toDigits 16 b.toNat)
  "[]byte\x7b" ++ ", ".intercalate bytes ++ "\x7d"

/-- The fields that flag byte `i` announces, in the order of its two loops. -/
def externalFields (flagSet : List UInt8) (fieldSets : List (List String)) (i : Nat) (flags : UInt8) :
    List (Bytes × String) :=
  let fieldNames := fieldSets.getD i []
  let reservedPosition := fieldNames.length
  let named := fieldNames.zipIdx.filterMap fun (field, p) =>
    if flags.toNat &&& 2 ^ p ≠ 0 then
      some (lit field, s!"unable to decode external field {field} {i} {p} ({goSyntax flagSet})")
    else none
  let extra := (List.range 6).filterMap fun j =>
    if reservedPosition ≤ j ∧ (flags.toNat >>> j) &&& 1 ≠ 0 then
      some (lit s!"extra_{i}_{j}", s!"unable to decode post-external field {i} {j} ({goSyntax flagSet})")
    else none
  named ++ extra

/-- The fields that all the flag bytes announce. -/
def announcedFields (fieldSets : List (List String)) (flagSet : List UInt8) : List (Bytes × String) :=
  flagSet.zipIdx.flatMap fun (flags, i) => externalFields flagSet fieldSets i flags

def decodeExternal (decodeAmf3 : Dec Value) (obj : Object) (fieldSets : List (List String)) : Dec Object := do
  let flagSet ← wrap "unable to read flags" readFlags
  decodeEntries decodeAmf3 (announcedFields fieldSets flagSet) obj

def abstractFieldSets : List (List String) :=
  [["body", "clientId", "destination", "headers", "messageId", "timeStamp", "timeToLive"],
   ["clientIdBytes", "messageIdBytes"]]

def asyncFieldSets : List (List String) := [["correlationId", "correlationIdBytes"]]

def decodeAbstractMessage (decodeAmf3 : Dec Value) : Dec Object :=
  wrap "unable to decode abstract external" (decodeExternal decodeAmf3 [] abstractFieldSets)

def decodeAsyncMessage (decodeAmf3 : Dec Value) : Dec Object := do
  let result ← wrap "unable to decode abstract for async" (decodeAbstractMessage decodeAmf3)
  wrap "unable to decode async external" (decodeExternal decodeAmf3 result asyncFieldSets)

def decodeAsyncMessageExt (decodeAmf3 : Dec Value) : Dec Object := decodeAsyncMessage decodeAmf3

def decodeAcknowledgeMessage (decodeAmf3 : Dec Value) : Dec Object := do
  let result ← wrap "unable to decode async for ack" (decodeAsyncMessage decodeAmf3)
  wrap "unable to decode ack external" (decodeExternal decodeAmf3 result [])

def decodeAcknowledgeMessageExt (decodeAmf3 : Dec Value) : Dec Object := decodeAcknowledgeMessage decodeAmf3

def decodeArrayCollection (decodeAmf3 : Dec Value) : Dec Value :=
  wrap "cannot decode child of array collection" decodeAmf3

/-- The body of an externalizable object, by its class; no handlers are registered for others. -/
def decodeExternalizable (decodeAmf3 : Dec Value) (type : Bytes) : Dec Value :=
  if type = lit "DSA" then do
    let result ← wrap "amf3 decode: unable to decode dsa" (decodeAsyncMessageExt decodeAmf3)
    pure (.object result)
  else if type = lit "DSK" then do
    let result ← wrap "amf3 decode: unable to decode dsk" (decodeAcknowledgeMessageExt decodeAmf3)
    pure (.object result)
  else if type = lit "flex.messaging.io.ArrayCollection" then do
    let result ← wrap "amf3 decode: unable to decode ac" (decodeArrayCollection decodeAmf3)
    pushObject result
    pure result
  else
    Call.fail (.errorf s!"amf3 decode: unable to decode external type {quote type}, no handler")

def dynamicTurn (decodeAmf3 : Dec Value) (obj : Object) : Dec (Object ⊕ Object) := do
  let key ← wrap "amf3 decode: unable to decode dynamic key" (decodeAmf3String false)
  if key = [] then pure (.inr obj)
  else
    let val ← wrap "amf3 decode: unable to decode dynamic value" decodeAmf3
    pure (.inl (obj.insert key val))

/-- The further entries of a dynamic object, up to an empty key. -/
def decodeDynamic (decodeAmf3 : Dec Value) (obj : Object) : Dec Object := do
  let s ← Call.get
  Call.loop (dynamicTurn decodeAmf3) (s.left + 1) obj

def Trait.keys (trait : Trait) : List (Bytes × String) :=
  trait.properties.map fun key => (key, "amf3 decode: unable to decode object property")

/-- What follows the trait of an object. -/
def decodeObjectBody (decodeAmf3 : Dec Value) (trait : Trait) : Dec Value :=
  if trait.externalizable then decodeExternalizable decodeAmf3 trait.type
  else do
    let obj ← decodeEntries decodeAmf3 trait.keys []
    let obj ← if trait.dynamic then decodeDynamic decodeAmf3 obj else pure obj
    pure (.object obj)

def decodeAmf3Object (decodeAmf3 : Dec Value) (decodeMarker : Bool) : Dec Value := do
  assertMarker decodeMarker amf3ObjectMarker
  let ref ← wrap "amf3 decode: unable to decode object reference and length" decodeReferenceInt
  if ref.isRef then index Decoder.objectRefs (ref.refVal >>> 1)
  else
    let trait ← decodeTrait ref.refVal
    pushObject .null
    decodeObjectBody decodeAmf3 trait

/-- The marker of an XML document or string. -/
def assertXmlMarker (decodeMarker : Bool) : Dec Unit :=
  if decodeMarker then do
    let marker ← readMarker
    if marker ≠ amf3XmldocMarker ∧ marker ≠ amf3XmlstringMarker then
      Call.fail (.errorf (s!"decode assert marker failed: expected {amf3XmldocMarker.toNat} or " ++
        s!"{amf3XmlstringMarker.toNat}, got {marker.toNat}"))
  else pure ()

def decodeAmf3Xml (decodeMarker : Bool) : Dec Bytes := do
  assertXmlMarker decodeMarker
  let ref ← wrap "amf3 decode: unable to decode xml reference and length" decodeReferenceInt
  if ref.isRef then
    match ← index Decoder.objectRefs ref.refVal with
    | .string result => pure result
    | _ => Call.fail (.errorf "amf3 decode: cannot coerce object reference into xml string")
  else
    let result ← wrap "amf3 decode: unable to read xml string" (fill ref.refVal)
    if result ≠ [] then pushObject (.string result)
    pure result

def decodeAmf3ByteArray (decodeMarker : Bool) : Dec Bytes := do
  assertMarker decodeMarker amf3BytearrayMarker
  let ref ← wrap "amf3 decode: unable to decode byte array reference and length" decodeReferenceInt
  if ref.isRef then
    match ← index Decoder.objectRefs ref.refVal with
    | .bytes result => pure result
    | _ => Call.fail (.errorf "amf3 decode: unable to convert object ref to bytes")
  else
    let result ← wrap "amf3 decode: unable to read bytearray" (fill ref.refVal)
    pushObject (.bytes result)
    pure result

/-- The value that a marker announces. -/
def amf3Value (decodeAmf3 : Dec Value) (marker : UInt8) : Dec Value :=
  if marker = amf3UndefinedMarker then decodeAmf3Undefined false
  else if marker = amf3NullMarker then decodeAmf3Null false
  else if marker = amf3FalseMarker then do return .bool (← decodeAmf3False false)
  else if marker = amf3TrueMarker then do return .bool (← decodeAmf3True false)
  else if marker = amf3IntegerMarker then do return .int (← decodeAmf3Integer false)
  else if marker = amf3DoubleMarker then do return .number (← decodeAmf3Double false)
  else if marker = amf3StringMarker then do return .string (← decodeAmf3String false)
  else if marker = amf3XmldocMarker then do return .string (← decodeAmf3Xml false)
  else if marker = amf3DateMarker then do return .time (← decodeAmf3Date false)
  else if marker = amf3ArrayMarker then do return .array (← decodeAmf3Array decodeAmf3 false)
  else if marker = amf3ObjectMarker then decodeAmf3Object decodeAmf3 false
  else if marker = amf3XmlstringMarker then do return .string (← decodeAmf3Xml false)
  else if marker = amf3BytearrayMarker then do return .bytes (← decodeAmf3ByteArray false)
  else Call.fail (.errorf s!"decode amf3: unsupported type {marker.toNat}")

/-- One call of the router. -/
def decodeAmf3Body (decodeAmf3 : Dec Value) : Dec Value := do
  let marker ← readMarker
  amf3Value decodeAmf3 marker

/-- Every call reads a marker, so the bytes left bound the depth of the recursion. -/
def decodeAmf3 : Dec Value := Call.recurse Decoding.left decodeAmf3Body

end Amf

end Livego
