import Livego.AmfRoundTrip3

/-! AMF3 encodings as they may be sent, with references to what was sent before, and what the references stand for by the
rules of the format. Strings, traits and complex values are each numbered in the order in which their encodings start,
empty strings left out. -/

namespace Livego

open Fallible Call

namespace Amf

/-- A string whose length a header of 29 bits can announce. -/
abbrev Short : Type := { s : Bytes // s.length < 2 ^ 28 }

/-- A string in full, or the number of one that was sent before. -/
inductive Str where
  | inline (s : Short)
  | ref (i : Fin (2 ^ 28))

/-- The complex values, which share one numbering. -/
inductive Kind where
  | date
  | array
  | object
  | xmlDoc
  | xmlString
  | byteArray
  deriving DecidableEq

def Kind.marker : Kind → UInt8
  | .date => amf3DateMarker
  | .array => amf3ArrayMarker
  | .object => amf3ObjectMarker
  | .xmlDoc => amf3XmldocMarker
  | .xmlString => amf3XmlstringMarker
  | .byteArray => amf3BytearrayMarker

/-- The traits of an object, with every string in full. -/
structure Traits where
  type : Short
  externalizable : Bool
  dynamic : Bool
  properties : List Short
  hcount : properties.length < 2 ^ 25

/-- The traits of an object as they are sent. -/
inductive Head where
  | inline (type : Str) (externalizable dynamic : Bool) (properties : List Str) (hcount : properties.length < 2 ^ 25)
  | ref (i : Fin (2 ^ 27))

/-- Bytes of flags, each but the last with a mark that more follow. -/
def flagsEnd : List UInt8 → Bool
  | [] => false
  | [flag] => flag &&& 0x80 = 0
  | flag :: flags => flag &&& 0x80 ≠ 0 && flagsEnd flags

abbrev Flags : Type := { flags : List UInt8 // flagsEnd flags }

mutual
/-- A value as it is sent. The decoder takes no array with keys, and of externalizable objects those of three classes. -/
inductive Node : Type
  | undefined
  | null
  | bool (b : Bool)
  | integer (n : Fin (2 ^ 29))
  | double (bits : UInt64)
  | string (s : Str)
  | date (millis : UInt64)
  | xmlDoc (s : Short)
  | xmlString (s : Short)
  | byteArray (bs : Short)
  | array {k : Nat} (hcount : k < 2 ^ 28) (elements : Items k)
  | object {k : Nat} {dynamic : Bool} (head : Head) (sealedValues : Items k) (more : Tail dynamic)
  | collection (head : Head) (source : Node)
  | message {j k : Nat} (head : Head) (flags : Flags) (fields : Items j) (flags' : Flags) (fields' : Items k)
  | acknowledge {i j k : Nat} (head : Head) (flags : Flags) (fields : Items i) (flags' : Flags) (fields' : Items j)
      (flags'' : Flags) (fields'' : Items k)
  | ref (kind : Kind) (i : Fin (2 ^ 28))

/-- Values one after the other. -/
inductive Items : Nat → Type
  | nil : Items 0
  | cons {k : Nat} (node : Node) (rest : Items k) : Items (k + 1)

/-- What follows the values of a class's own properties: further entries up to an empty key, if it is dynamic. -/
inductive Tail : Bool → Type
  | absent : Tail false
  | done : Tail true
  | cons (key : Str) (node : Node) (rest : Tail true) : Tail true
end

/-! ### The bytes -/

/-- The header of what is sent in full, with a length or a count. -/
def inlineHeader (n : Nat) : Bytes := u29Bytes (2 * n + 1)

/-- The header of a reference. -/
def refHeader (i : Nat) : Bytes := u29Bytes (2 * i)

def Str.bytes : Str → Bytes
  | .inline s => utf8Bytes s.1
  | .ref i => refHeader i

/-- What the header of an object says of its traits, beside its lowest bit. -/
def Head.refVal : Head → Nat
  | .inline _ externalizable dynamic properties _ =>
    1 + 2 * externalizable.toNat + 4 * dynamic.toNat + 8 * properties.length
  | .ref i => 2 * i

def Head.names : Head → List Str
  | .inline type _ _ properties _ => type :: properties
  | .ref _ => []

def Head.bytes (head : Head) : Bytes := inlineHeader head.refVal ++ head.names.flatMap Str.bytes

mutual
def Node.bytes : Node → Bytes
  | .undefined => [amf3UndefinedMarker]
  | .null => [amf3NullMarker]
  | .bool b => [if b then amf3TrueMarker else amf3FalseMarker]
  | .integer n => amf3IntegerMarker :: u29Bytes n
  | .double bits => amf3DoubleMarker :: Endian.beBytes 8 bits.toNat
  | .string s => amf3StringMarker :: s.bytes
  | .date millis => amf3DateMarker :: (inlineHeader 0 ++ Endian.beBytes 8 millis.toNat)
  | .xmlDoc s => amf3XmldocMarker :: utf8Bytes s.1
  | .xmlString s => amf3XmlstringMarker :: utf8Bytes s.1
  | .byteArray bs => amf3BytearrayMarker :: utf8Bytes bs.1
  | @Node.array k _ elements => amf3ArrayMarker :: (inlineHeader k ++ (utf8Bytes [] ++ elements.bytes))
  | .object head sealedValues more => amf3ObjectMarker :: (head.bytes ++ (sealedValues.bytes ++ more.bytes))
  | .collection head source => amf3ObjectMarker :: (head.bytes ++ source.bytes)
  | .message head flags fields flags' fields' =>
    amf3ObjectMarker :: (head.bytes ++ ((flags.1 ++ fields.bytes) ++ (flags'.1 ++ fields'.bytes)))
  | .acknowledge head flags fields flags' fields' flags'' fields'' =>
    amf3ObjectMarker :: (head.bytes ++
      ((flags.1 ++ fields.bytes) ++ (flags'.1 ++ fields'.bytes) ++ (flags''.1 ++ fields''.bytes)))
  | .ref kind i => kind.marker :: refHeader i

def Items.bytes {k : Nat} : Items k → Bytes
  | .nil => []
  | .cons node rest => node.bytes ++ rest.bytes

def Tail.bytes {dynamic : Bool} : Tail dynamic → Bytes
  | .absent => []
  | .done => utf8Bytes []
  | .cons key node rest => key.bytes ++ (node.bytes ++ rest.bytes)
end

/-! ### What the references stand for -/

/-- What the values of a kind are decoded to. -/
def Kind.Suits : Kind → Value → Prop
  | .date, v => ∃ millis, v = .time millis
  | .array, v => ∃ arr, v = .array arr
  | .object, _ => True
  | .xmlDoc, v => ∃ s, v = .string s
  | .xmlString, v => ∃ s, v = .string s
  | .byteArray, v => ∃ bs, v = .bytes bs

/-- A complex value that a reference can name, with its encoding in full. -/
structure Named where
  kind : Kind
  node : Node
  value : Value
  suits : kind.Suits value

/-- What has been sent so far. A complex value has its number from the start and can be named once it is complete. Beside
the numbering of the format stands the order in which the decoder keeps the complex values: an object as nil where
its traits end, an array where its elements end, any other where it stands, but no empty XML; what an array collection
contains a second time. -/
structure Rules where
  strings : List Short := []
  traits : List Traits := []
  objects : List (Option Named) := []
  kept : List Value := []

/-- A reference, the value that it names by the rules, and what the decoder keeps before it. -/
structure Sent where
  kind : Kind
  index : Nat
  named : Value
  kept : List Value

/-- Where the decoder looks a reference up: it halves the number of an array and of an object. -/
def Kind.position (kind : Kind) (i : Nat) : Nat :=
  match kind with
  | .array => i >>> 1
  | .object => i >>> 1
  | _ => i

/-- The value that the reference names is where the decoder looks. -/
def Sent.Found (r : Sent) : Prop := r.kept[r.kind.position r.index]? = some r.named

/-- An encoding with every reference expanded, the value that it is of, and the references to complex values in it. -/
structure Expanded (ν ω : Type) where
  form : ν
  value : ω
  sent : List Sent

/-- A walk over an encoding, which ends where a rule is broken. -/
abbrev Walk (α : Type) : Type := Call Unit Rules α

def require (p : Prop) [Decidable p] : Walk Unit := if p then pure () else Call.fail ()

def nth {α : Type} (table : Rules → List α) (i : Nat) : Walk α := fun R =>
  match (table R)[i]? with
  | some a => .ok a R
  | none => .err () R

/-- A complex value begins, and has a number. -/
def number : Walk Nat := fun R => .ok R.objects.length { R with objects := R.objects ++ [none] }

/-- It is complete. -/
def complete (i : Nat) (named : Named) : Walk Unit :=
  Call.modify fun R => { R with objects := R.objects.set i (some named) }

def keep (v : Value) : Walk Unit := Call.modify fun R => { R with kept := R.kept ++ [v] }

/-- The complex value with a number, if it is complete and of the kind. -/
def named (kind : Kind) (i : Nat) : Walk { n : Named // n.kind = kind } := do
  match ← nth Rules.objects i with
  | some n => if h : n.kind = kind then pure ⟨n, h⟩ else Call.fail ()
  | none => Call.fail ()

/-- No number is for the empty string. -/
def Rules.withString (s : Short) (R : Rules) : Rules :=
  if s.1 = [] then R else { R with strings := R.strings ++ [s] }

def Str.expand : Str → Walk Short
  | .inline s => do
    Call.modify (Rules.withString s)
    pure s
  | .ref i => nth Rules.strings i

def expandStrs : List Str → Walk (List Short)
  | [] => pure []
  | str :: strs => do
    let s ← str.expand
    let ss ← expandStrs strs
    pure (s :: ss)

def Head.expand : Head → Walk Traits
  | .inline type externalizable dynamic properties _ => do
    let type ← type.expand
    let properties ← expandStrs properties
    if hcount : properties.length < 2 ^ 25 then
      let traits : Traits := { type, externalizable, dynamic, properties, hcount }
      Call.modify fun R => { R with traits := R.traits ++ [traits] }
      pure traits
    else Call.fail ()
  | .ref i => nth Rules.traits i

/-- The head that says the traits in full. -/
def Traits.head (traits : Traits) : Head :=
  .inline (.inline traits.type) traits.externalizable traits.dynamic (traits.properties.map .inline)
    (by rw [List.length_map]; exact traits.hcount)

def Traits.keys (traits : Traits) : List Bytes := traits.properties.map Subtype.val

/-- A complex value that contains no others. -/
def expandLeaf (kind : Kind) (node : Node) (value : Value) (suits : kind.Suits value) (kept : Bool) :
    Walk (Expanded Node Value) := do
  let i ← number
  complete i ⟨kind, node, value, suits⟩
  if kept then keep value
  pure ⟨node, value, []⟩

/-- The keys that flags announce. -/
def announcedKeys (fieldSets : List (List String)) (flags : Flags) : List Bytes :=
  (announcedFields fieldSets flags.1).map Prod.fst

/-- The entries that flags announce, by the walk over their values. -/
def expandFields {k : Nat} (fieldSets : List (List String)) (flags : Flags)
    (fields : Walk (Expanded (Items k) (List Value))) : Walk (Expanded (Items k) Object) := do
  let e ← fields
  require (k = (announcedKeys fieldSets flags).length)
  pure ⟨e.form, (announcedKeys fieldSets flags).zip e.value, e.sent⟩

/-- What begins an object, and what makes it complete. The traits must say what follows them. -/
def expandObject (head : Head) (follows : Traits → Prop) [DecidablePred follows]
    (body : Traits → Walk (Expanded (Head → Node) Value)) : Walk (Expanded Node Value) := do
  let i ← number
  let traits ← head.expand
  require (follows traits)
  keep .null
  let e ← body traits
  complete i ⟨.object, e.form traits.head, e.value, trivial⟩
  pure ⟨e.form traits.head, e.value, e.sent⟩

/-- An object has every key once. -/
def expandEntries (form : Head → Node) (obj : Object) (sent : List Sent) : Walk (Expanded (Head → Node) Value) := do
  require (obj.map Prod.fst).Nodup
  pure ⟨form, .object obj, sent⟩

mutual
def Node.expand : Node → Walk (Expanded Node Value)
  | .undefined => pure ⟨.undefined, .null, []⟩
  | .null => pure ⟨.null, .null, []⟩
  | .bool b => pure ⟨.bool b, .bool b, []⟩
  | .integer n => pure ⟨.integer n, .int (if n.val > 0xfffffff then (n.val : Int) - 0x20000000 else n.val), []⟩
  | .double bits => pure ⟨.double bits, .number bits, []⟩
  | .string s => do
    let s ← s.expand
    pure ⟨.string (.inline s), .string s.1, []⟩
  | .date millis => expandLeaf .date (.date millis) (.time millis) ⟨millis, rfl⟩ true
  | .xmlDoc s => expandLeaf .xmlDoc (.xmlDoc s) (.string s.1) ⟨s.1, rfl⟩ (s.1 ≠ [])
  | .xmlString s => expandLeaf .xmlString (.xmlString s) (.string s.1) ⟨s.1, rfl⟩ (s.1 ≠ [])
  | .byteArray bs => expandLeaf .byteArray (.byteArray bs) (.bytes bs.1) ⟨bs.1, rfl⟩ true
  | .array hcount elements => do
    let i ← number
    let e ← elements.expand
    complete i ⟨.array, .array hcount e.form, .array e.value, e.value, rfl⟩
    keep (.array e.value)
    pure ⟨.array hcount e.form, .array e.value, e.sent⟩
  | @Node.object k dynamic head sealedValues more =>
    expandObject head (fun traits => ¬traits.externalizable ∧ traits.dynamic = dynamic ∧ traits.properties.length = k)
      fun traits => do
        let e ← sealedValues.expand
        let e' ← more.expand
        expandEntries (fun head => .object head e.form e'.form) (traits.keys.zip e.value ++ e'.value) (e.sent ++ e'.sent)
  | .collection head source =>
    expandObject head (fun traits => traits.externalizable ∧ traits.type.1 = lit "flex.messaging.io.ArrayCollection")
      fun _ => do
        let e ← source.expand
        keep e.value
        pure ⟨fun head => .collection head e.form, e.value, e.sent⟩
  | .message head flags fields flags' fields' =>
    expandObject head (fun traits => traits.externalizable ∧ traits.type.1 = lit "DSA") fun _ => do
      let e ← expandFields abstractFieldSets flags fields.expand
      let e' ← expandFields asyncFieldSets flags' fields'.expand
      expandEntries (fun head => .message head flags e.form flags' e'.form) (e.value ++ e'.value) (e.sent ++ e'.sent)
  | .acknowledge head flags fields flags' fields' flags'' fields'' =>
    expandObject head (fun traits => traits.externalizable ∧ traits.type.1 = lit "DSK") fun _ => do
      let e ← expandFields abstractFieldSets flags fields.expand
      let e' ← expandFields asyncFieldSets flags' fields'.expand
      let e'' ← expandFields [] flags'' fields''.expand
      expandEntries (fun head => .acknowledge head flags e.form flags' e'.form flags'' e''.form)
        (e.value ++ e'.value ++ e''.value) (e.sent ++ e'.sent ++ e''.sent)
  | .ref kind i => do
    let n ← named kind i
    let R ← Call.get
    pure ⟨n.1.node, n.1.value, [⟨kind, i, n.1.value, R.kept⟩]⟩

def Items.expand {k : Nat} : Items k → Walk (Expanded (Items k) (List Value))
  | .nil => pure ⟨.nil, [], []⟩
  | .cons node rest => do
    let e ← node.expand
    let e' ← rest.expand
    pure ⟨.cons e.form e'.form, e.value :: e'.value, e.sent ++ e'.sent⟩

def Tail.expand {dynamic : Bool} : Tail dynamic → Walk (Expanded (Tail dynamic) Object)
  | .absent => pure ⟨.absent, [], []⟩
  | .done => pure ⟨.done, [], []⟩
  | .cons key node rest => do
    let s ← key.expand
    require (s.1 ≠ [])
    let e ← node.expand
    let e' ← rest.expand
    pure ⟨.cons (.inline s) e.form e'.form, (s.1, e.value) :: e'.value, e.sent ++ e'.sent⟩
end

end Amf

end Livego
