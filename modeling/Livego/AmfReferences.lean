import Livego.AmfTermination

/-! References. Decoding panics exactly if it comes to a reference whose index lies past the end of
its table; else it ends with the values up to the first error and that error. -/

namespace Livego

open Fallible Call Outcome

namespace Amf

open Decoding (left)

/-! ### What each function does when it panics -/

theorem quiet_read (k : Nat) : Quiet (read k) := by
  intro s
  unfold read
  split <;> exact id

theorem quiet_fill (k : Nat) : Quiet (fill k) := (quiet_read k).bind fun _ => .pure _

theorem quiet_readBytes (k : Nat) : Quiet (readBytes k) :=
  (quiet_read k).bind fun _ => .ite (.fail _) (.pure _)

theorem quiet_readByte : Quiet readByte := (quiet_readBytes 1).bind fun _ => .pure _

theorem quiet_readUint (k : Nat) : Quiet (readUint k) := by
  intro s
  unfold readUint
  split <;> exact id

theorem quiet_readFloat64 : Quiet readFloat64 := (quiet_readUint 8).bind fun _ => .pure _

theorem quiet_assertMarker (checkMarker : Bool) (m : UInt8) : Quiet (assertMarker checkMarker m) := by
  cases checkMarker with
  | false => exact .pure ()
  | true => exact quiet_readByte.bind fun _ => .ite (.fail _) (.pure ())

theorem quiet_record (f : Decoder → Decoder) : Quiet (record f) := fun _ h => h

theorem quiet_pushObject (result : Value) : Quiet (pushObject result) := quiet_record _

theorem panics_index {α : Type} {table : Decoder → List α} {i : Nat} {s : Decoding} :
    (index table i s).Panics ↔ (table s.decoder).length ≤ i := by
  unfold index
  cases hi : (table s.decoder)[i]? with
  | none => simpa using hi
  | some a => simpa using (List.getElem?_eq_some_iff.mp hi).1

theorem quiet_u29Loop (i result : Nat) : Quiet (u29Loop i result) := by
  induction i generalizing result with
  | zero => exact quiet_readByte.bind fun _ => .pure _
  | succ i ih => exact quiet_readByte.bind fun _ => .ite (.pure _) (ih _)

theorem quiet_decodeReferenceInt : Quiet decodeReferenceInt :=
  (quiet_u29Loop 3 0).mapErr.bind fun _ => .pure _

/-- What follows a reference integer panics in one of its two branches. -/
theorem panics_ref {α : Type} {context : String} {f g : ReferenceInt → Dec α} {s : Decoding} :
    ((wrap context decodeReferenceInt >>= fun ref => if ref.isRef then f ref else g ref) s).Panics ↔
      (∃ i t, decodeReferenceInt s = .ok ⟨true, i⟩ t ∧ (f ⟨true, i⟩ t).Panics) ∨
      ∃ n t, decodeReferenceInt s = .ok ⟨false, n⟩ t ∧ (g ⟨false, n⟩ t).Panics := by
  rw [wrap, quiet_decodeReferenceInt.mapErr.panics_bind]
  simp only [mapErr_eq_ok]
  constructor
  · rintro ⟨⟨isRef, refVal⟩, t, href, hp⟩
    cases isRef with
    | true => exact .inl ⟨refVal, t, href, hp⟩
    | false => exact .inr ⟨refVal, t, href, hp⟩
  · rintro (⟨i, t, href, hp⟩ | ⟨n, t, href, hp⟩)
    · exact ⟨_, t, href, hp⟩
    · exact ⟨_, t, href, hp⟩

theorem panics_decodeAmf3String {s : Decoding} : (decodeAmf3String false s).Panics ↔
    ∃ i t, decodeReferenceInt s = .ok ⟨true, i⟩ t ∧ t.decoder.stringRefs.length ≤ i := by
  have hquiet : ∀ n, Quiet (do
      let result ← wrap "amf3 decode: unable to read string" (fill n)
      if result ≠ [] then pushString result
      pure result) := fun n => (quiet_fill n).mapErr.bind fun _ =>
    .ite ((quiet_record _).bind fun _ => .pure _) (.pure _)
  rw [decodeAmf3String, assertMarker_false, pure_bind, panics_ref]
  simp only [panics_index]
  apply or_iff_left
  rintro ⟨n, t, -, hp⟩
  exact hquiet n t hp

theorem panics_index_bind {α β : Type} {table : Decoder → List α} {i : Nat} {f : α → Dec β} {s : Decoding}
    (hf : ∀ a, Quiet (f a)) : ((index table i >>= f) s).Panics ↔ (table s.decoder).length ≤ i := by
  rw [panics_bind, panics_index]
  exact or_iff_left fun ⟨a, t, _, hp⟩ => hf a t hp

/-- A value that is a reference to an object, or else contains no reference. -/
theorem panics_stored {α : Type} {context : String} {f : Value → Dec α} {g : ReferenceInt → Dec α} {s : Decoding}
    (hf : ∀ v, Quiet (f v)) (hg : ∀ ref, Quiet (g ref)) :
    ((wrap context decodeReferenceInt >>= fun ref =>
      if ref.isRef then index Decoder.objectRefs ref.refVal >>= f else g ref) s).Panics ↔
      ∃ i t, decodeReferenceInt s = .ok ⟨true, i⟩ t ∧ t.decoder.objectRefs.length ≤ i := by
  rw [panics_ref]
  simp only [panics_index_bind hf]
  exact or_iff_left fun ⟨n, t, _, hp⟩ => hg _ t hp

theorem panics_decodeAmf3Date {s : Decoding} : (decodeAmf3Date false s).Panics ↔
    ∃ i t, decodeReferenceInt s = .ok ⟨true, i⟩ t ∧ t.decoder.objectRefs.length ≤ i := by
  refine panics_stored (fun v => ?_) fun ref => ?_
  · split
    · exact .pure _
    · exact .fail _
  · exact quiet_readFloat64.mapErr.bind fun _ => (quiet_record _).bind fun _ => .pure _

theorem panics_decodeAmf3Xml {s : Decoding} : (decodeAmf3Xml false s).Panics ↔
    ∃ i t, decodeReferenceInt s = .ok ⟨true, i⟩ t ∧ t.decoder.objectRefs.length ≤ i := by
  refine panics_stored (fun v => ?_) fun ref => ?_
  · split
    · exact .pure _
    · exact .fail _
  · exact (quiet_fill _).mapErr.bind fun _ => .ite ((quiet_record _).bind fun _ => .pure _) (.pure _)

theorem panics_decodeAmf3ByteArray {s : Decoding} : (decodeAmf3ByteArray false s).Panics ↔
    ∃ i t, decodeReferenceInt s = .ok ⟨true, i⟩ t ∧ t.decoder.objectRefs.length ≤ i := by
  refine panics_stored (fun v => ?_) fun ref => ?_
  · split
    · exact .pure _
    · exact .fail _
  · exact (quiet_fill _).mapErr.bind fun _ => (quiet_record _).bind fun _ => .pure _

/-- Repeated calls in a context, and then nothing that panics. -/
theorem panics_times_bind {α β : Type} {context : String} {x : Dec α} {n : Nat} {f : List α → Dec β}
    (hf : ∀ as, Quiet (f as)) {s : Decoding} : ((times (wrap context x) n >>= f) s).Panics ↔
    ∃ k < n, ∃ as t, times x k s = .ok as t ∧ (x t).Panics := by
  rw [panics_bind, panics_times, wrap]
  simp only [times_mapErr_eq_ok, panics_mapErr]
  exact or_iff_left fun ⟨as, t, _, hp⟩ => hf as t hp

theorem panics_decodeAmf3Array {x : Dec Value} {s : Decoding} : (decodeAmf3Array x false s).Panics ↔
    (∃ i t, decodeReferenceInt s = .ok ⟨true, i⟩ t ∧ t.decoder.objectRefs.length ≤ i >>> 1) ∨
    ∃ n t, decodeReferenceInt s = .ok ⟨false, n⟩ t ∧ ((decodeAmf3String false t).Panics ∨
      ∃ u, decodeAmf3String false t = .ok [] u ∧ ∃ k < n, ∃ vs w, times x k u = .ok vs w ∧ (x w).Panics) := by
  rw [decodeAmf3Array, assertMarker_false, pure_bind, panics_ref]
  refine or_congr (exists_congr fun i => exists_congr fun t => and_congr_right fun _ =>
    panics_index_bind fun v => ?_) (exists_congr fun n => exists_congr fun t => and_congr_right fun _ => ?_)
  · split
    · exact .pure _
    · exact .fail _
  · rw [wrap, panics_bind, panics_mapErr]
    simp only [mapErr_eq_ok]
    refine or_congr_right ⟨?_, ?_⟩
    · rintro ⟨key, u, hkey, hp⟩
      split at hp
      · exact hp.elim
      · rename_i hnil
        obtain rfl : key = [] := not_not.mp hnil
        exact ⟨u, hkey, (panics_times_bind fun _ => (quiet_record _).bind fun _ => .pure _).mp hp⟩
    · rintro ⟨u, hkey, hp⟩
      exact ⟨[], u, hkey, (panics_times_bind fun _ => (quiet_record _).bind fun _ => .pure _).mpr hp⟩

theorem panics_decodeTrait {refVal : Nat} {s : Decoding} : (decodeTrait refVal s).Panics ↔
    (refVal &&& 1 = 0 ∧ s.decoder.traitRefs.length ≤ refVal >>> 1) ∨
    (refVal &&& 1 ≠ 0 ∧ ((decodeAmf3String false s).Panics ∨
      ∃ cls t, decodeAmf3String false s = .ok cls t ∧ ∃ k < refVal >>> 3, ∃ keys u,
        times (decodeAmf3String false) k t = .ok keys u ∧ (decodeAmf3String false u).Panics)) := by
  unfold decodeTrait
  by_cases htrait : refVal &&& 1 = 0
  · simp only [htrait, ne_eq, not_true_eq_false, false_and, or_false, true_and, if_true, panics_index]
  · simp only [htrait, ne_eq, not_false_eq_true, false_and, false_or, true_and, if_false]
    rw [wrap, panics_bind, panics_mapErr]
    refine or_congr_right (exists_congr fun cls => exists_congr fun t => and_congr mapErr_eq_ok ?_)
    exact panics_times_bind fun _ => (quiet_record _).bind fun _ => .pure _

theorem panics_decodeEntries {x : Dec Value} {keys : List (Bytes × String)} {obj : Object} {s : Decoding} :
    (decodeEntries x keys obj s).Panics ↔
      ∃ k < keys.length, ∃ vs t, times x k s = .ok vs t ∧ (x t).Panics := by
  rw [← panics_times]
  induction keys generalizing obj s with
  | nil => exact Iff.rfl
  | cons key keys ih =>
      rw [decodeEntries, List.length_cons, times, panics_bind, panics_bind, wrap, panics_mapErr]
      simp only [mapErr_eq_ok, ih, panics_bind, pure_apply, panics_ok, and_false, exists_false, or_false]

theorem quiet_readFlags : Quiet readFlags := by
  have hturn : ∀ result, Quiet (flagTurn result) := fun result => quiet_readByte.mapErr.bind fun _ => .pure _
  exact fun s => Quiet.loop hturn (s.left + 1) [] s

theorem panics_decodeExternal {x : Dec Value} {obj : Object} {fieldSets : List (List String)} {s : Decoding} :
    (decodeExternal x obj fieldSets s).Panics ↔ ∃ flagSet t, readFlags s = .ok flagSet t ∧
      ∃ k < (announcedFields fieldSets flagSet).length, ∃ vs u, times x k t = .ok vs u ∧ (x u).Panics := by
  rw [decodeExternal, wrap, quiet_readFlags.mapErr.panics_bind]
  simp only [mapErr_eq_ok, panics_decodeEntries]

theorem panics_decodeAsyncMessage {x : Dec Value} {s : Decoding} : (decodeAsyncMessage x s).Panics ↔
    (decodeExternal x [] abstractFieldSets s).Panics ∨
    ∃ obj t, decodeAbstractMessage x s = .ok obj t ∧ (decodeExternal x obj asyncFieldSets t).Panics := by
  simp only [decodeAsyncMessage, decodeAbstractMessage, wrap, panics_bind, panics_mapErr, mapErr_eq_ok]

theorem panics_decodeAcknowledgeMessage {x : Dec Value} {s : Decoding} :
    (decodeAcknowledgeMessage x s).Panics ↔ (decodeAsyncMessage x s).Panics ∨
    ∃ obj t, decodeAsyncMessage x s = .ok obj t ∧ (decodeExternal x obj [] t).Panics := by
  simp only [decodeAcknowledgeMessage, wrap, panics_bind, panics_mapErr, mapErr_eq_ok]

/-- A result handed on in another form. -/
theorem panics_map {α β : Type} {x : Dec α} {g : α → β} {s : Decoding} :
    ((x >>= fun a => pure (g a)) s).Panics ↔ (x s).Panics := by
  rw [panics_bind]
  exact or_iff_left fun ⟨_, _, _, hp⟩ => hp

theorem panics_decodeExternalizable {x : Dec Value} {type : Bytes} {s : Decoding} :
    (decodeExternalizable x type s).Panics ↔
      (type = lit "DSA" ∧ (decodeAsyncMessage x s).Panics) ∨
      (type = lit "DSK" ∧ (decodeAcknowledgeMessage x s).Panics) ∨
      (type = lit "flex.messaging.io.ArrayCollection" ∧ (x s).Panics) := by
  have hasync : lit "DSA" ≠ lit "DSK" ∧ lit "DSA" ≠ lit "flex.messaging.io.ArrayCollection" := by decide
  have hack : lit "DSK" ≠ lit "flex.messaging.io.ArrayCollection" := by decide
  unfold decodeExternalizable
  split
  · rename_i htype
    subst htype
    rw [panics_map, wrap, panics_mapErr, decodeAsyncMessageExt]
    simp [hasync]
  · split
    · rename_i htype
      subst htype
      rw [panics_map, wrap, panics_mapErr, decodeAcknowledgeMessageExt]
      simp [hasync.1.symm, hack]
    · split
      · rename_i htype
        subst htype
        have hpush : ∀ v : Value, Quiet (pushObject v >>= fun _ => (pure v : Dec Value)) :=
          fun v => (quiet_record _).bind fun _ => .pure _
        rw [panics_bind, or_iff_left fun ⟨v, t, _, hp⟩ => hpush v t hp, wrap, panics_mapErr,
          decodeArrayCollection, wrap, panics_mapErr]
        simp [hasync.2.symm, hack.symm]
      · simp [*]

theorem panics_dynamicTurn {x : Dec Value} {obj : Object} {s : Decoding} : (dynamicTurn x obj s).Panics ↔
    (decodeAmf3String false s).Panics ∨
      ∃ key t, decodeAmf3String false s = .ok key t ∧ key ≠ [] ∧ (x t).Panics := by
  rw [dynamicTurn, wrap, panics_bind, panics_mapErr]
  refine or_congr_right (exists_congr fun key => exists_congr fun t => and_congr mapErr_eq_ok ?_)
  by_cases hkey : key = []
  · simp [hkey]
  · rw [if_neg hkey, panics_map, wrap, panics_mapErr, and_iff_right hkey]

theorem panics_decodeDynamic {x : Dec Value} (hx : ∀ n, Settled left n x x) {obj : Object} {s : Decoding} :
    (decodeDynamic x obj s).Panics ↔
      ∃ obj' t, Visits (dynamicTurn x) obj s obj' t ∧ (dynamicTurn x obj' t).Panics :=
  panics_loop (Consuming.decreases fun n => consuming_dynamicTurn (hx n)) (Nat.lt_succ_self _)

theorem panics_decodeObjectBody {x : Dec Value} {trait : Trait} {s : Decoding} :
    (decodeObjectBody x trait s).Panics ↔
      (trait.externalizable = true ∧ (decodeExternalizable x trait.type s).Panics) ∨
      (trait.externalizable = false ∧ ((decodeEntries x trait.keys [] s).Panics ∨
        (trait.dynamic = true ∧ ∃ obj t, decodeEntries x trait.keys [] s = .ok obj t ∧
          (decodeDynamic x obj t).Panics))) := by
  unfold decodeObjectBody
  cases trait.externalizable with
  | true => simp
  | false =>
      rw [if_neg (by decide), panics_bind]
      cases trait.dynamic with
      | true => simp [panics_map]
      | false => simp

theorem panics_decodeAmf3Object {x : Dec Value} {s : Decoding} : (decodeAmf3Object x false s).Panics ↔
    (∃ i t, decodeReferenceInt s = .ok ⟨true, i⟩ t ∧ t.decoder.objectRefs.length ≤ i >>> 1) ∨
    ∃ n t, decodeReferenceInt s = .ok ⟨false, n⟩ t ∧ ((decodeTrait n t).Panics ∨
      ∃ trait u, decodeTrait n t = .ok trait u ∧
        ∃ v, pushObject .null u = .ok () v ∧ (decodeObjectBody x trait v).Panics) := by
  rw [decodeAmf3Object, assertMarker_false, pure_bind, panics_ref]
  refine or_congr (by simp only [panics_index]) (exists_congr fun n => exists_congr fun t => and_congr_right fun _ => ?_)
  rw [panics_bind]
  refine or_congr_right (exists_congr fun trait => exists_congr fun u => and_congr_right fun _ => ?_)
  rw [(quiet_pushObject _).panics_bind]
  exact ⟨fun ⟨_, v, h⟩ => ⟨v, h⟩, fun ⟨v, h⟩ => ⟨(), v, h⟩⟩

theorem quiet_decodeAmf3Integer (m : Bool) : Quiet (decodeAmf3Integer m) :=
  (quiet_assertMarker m _).bind fun _ => (quiet_u29Loop 3 0).bind fun _ => .pure _

theorem quiet_decodeAmf3Double (m : Bool) : Quiet (decodeAmf3Double m) :=
  (quiet_assertMarker m _).bind fun _ => quiet_readFloat64.mapErr

/-! ### Calls and references -/

/-- The functions from which decoding comes to references. `stored` stands for a date, an XML text or a
byte array, `body` for what follows the trait of an object, `external` for a set of flagged fields. -/
inductive Site where
  | batch (ver : Nat)
  | amf0
  | amf0Object
  | amf3
  | amf3String
  | stored
  | amf3Array
  | amf3Object
  | body (trait : Trait)
  | external (fieldSets : List (List String))

/-- The function that the AMF3 router calls on a marker, if that function reads references. -/
def siteOf (marker : UInt8) : Option Site :=
  if marker = amf3StringMarker then some .amf3String
  else if marker = amf3DateMarker ∨ marker = amf3XmldocMarker ∨ marker = amf3XmlstringMarker ∨
    marker = amf3BytearrayMarker then some .stored
  else if marker = amf3ArrayMarker then some .amf3Array
  else if marker = amf3ObjectMarker then some .amf3Object
  else none

/-- An index read from the input, and the length of the table it points into at that moment. -/
structure Reference where
  index : Nat
  length : Nat
  deriving DecidableEq, Repr

def Reference.InRange (r : Reference) : Prop := r.index < r.length

/-- The references that a function itself looks up. -/
inductive Refers : Site → Decoding → Reference → Prop
  | string {s t : Decoding} {i : Nat} (href : decodeReferenceInt s = .ok ⟨true, i⟩ t) :
      Refers .amf3String s ⟨i, t.decoder.stringRefs.length⟩
  | stored {s t : Decoding} {i : Nat} (href : decodeReferenceInt s = .ok ⟨true, i⟩ t) :
      Refers .stored s ⟨i, t.decoder.objectRefs.length⟩
  | array {s t : Decoding} {i : Nat} (href : decodeReferenceInt s = .ok ⟨true, i⟩ t) :
      Refers .amf3Array s ⟨i >>> 1, t.decoder.objectRefs.length⟩
  | object {s t : Decoding} {i : Nat} (href : decodeReferenceInt s = .ok ⟨true, i⟩ t) :
      Refers .amf3Object s ⟨i >>> 1, t.decoder.objectRefs.length⟩
  | trait {s t : Decoding} {n : Nat} (href : decodeReferenceInt s = .ok ⟨false, n⟩ t) (hn : n &&& 1 = 0) :
      Refers .amf3Object s ⟨n >>> 1, t.decoder.traitRefs.length⟩

/-- The calls that a function makes, each with the state it is made in. -/
inductive Calls : Site × Decoding → Site × Decoding → Prop
  | value0 {s t : Decoding} {ret : List Value} (hvisit : Visits (batchTurn 0) [] s ret t) :
      Calls (.batch 0, s) (.amf0, t)
  | value3 {s t : Decoding} {ret : List Value} (hvisit : Visits (batchTurn 3) [] s ret t) :
      Calls (.batch 3, s) (.amf3, t)
  | object {s t : Decoding} (hmarker : readMarker s = .ok amf0ObjectMarker t) :
      Calls (.amf0, s) (.amf0Object, t)
  | ecmaArray {s t u : Decoding} {r : Except GoError Nat} (hmarker : readMarker s = .ok amf0EcmaArrayMarker t)
      (hlength : attempt (readUint 4) t = .ok r u) : Calls (.amf0, s) (.amf0Object, u)
  | typedObject {s t u : Decoding} {type : Bytes} (hmarker : readMarker s = .ok amf0TypedObjectMarker t)
      (htype : decodeAmf0String false t = .ok type u) : Calls (.amf0, s) (.amf0Object, u)
  | strictArray {s t u v : Decoding} {length k : Nat} {vs : List Value}
      (hmarker : readMarker s = .ok amf0StrictArrayMarker t) (hlength : readUint 4 t = .ok length u)
      (hk : k < length) (hvs : times decodeAmf0 k u = .ok vs v) : Calls (.amf0, s) (.amf0, v)
  | acmplus {s t : Decoding} (hmarker : readMarker s = .ok amf0AcmplusObjectMarker t) :
      Calls (.amf0, s) (.amf3, t)
  | entry {s t u : Decoding} {obj : Object} {key : Bytes} (hvisit : Visits (objectTurn decodeAmf0) [] s obj t)
      (hkey : decodeAmf0String false t = .ok key u) (hne : key ≠ []) : Calls (.amf0Object, s) (.amf0, u)
  | marker {s t : Decoding} {marker : UInt8} {site : Site} (hmarker : readMarker s = .ok marker t)
      (hsite : siteOf marker = some site) : Calls (.amf3, s) (site, t)
  | arrayKey {s t : Decoding} {n : Nat} (href : decodeReferenceInt s = .ok ⟨false, n⟩ t) :
      Calls (.amf3Array, s) (.amf3String, t)
  | element {s t u v : Decoding} {n k : Nat} {vs : List Value} (href : decodeReferenceInt s = .ok ⟨false, n⟩ t)
      (hkey : decodeAmf3String false t = .ok [] u) (hk : k < n) (hvs : times decodeAmf3 k u = .ok vs v) :
      Calls (.amf3Array, s) (.amf3, v)
  | className {s t : Decoding} {n : Nat} (href : decodeReferenceInt s = .ok ⟨false, n⟩ t) (hn : n &&& 1 ≠ 0) :
      Calls (.amf3Object, s) (.amf3String, t)
  | propertyKey {s t u v : Decoding} {n k : Nat} {cls : Bytes} {keys : List Bytes}
      (href : decodeReferenceInt s = .ok ⟨false, n⟩ t) (hn : n &&& 1 ≠ 0)
      (hcls : decodeAmf3String false t = .ok cls u) (hk : k < n >>> 3)
      (hkeys : times (decodeAmf3String false) k u = .ok keys v) : Calls (.amf3Object, s) (.amf3String, v)
  | body {s t u v : Decoding} {n : Nat} {trait : Trait} (href : decodeReferenceInt s = .ok ⟨false, n⟩ t)
      (htrait : decodeTrait n t = .ok trait u) (hpush : pushObject .null u = .ok () v) :
      Calls (.amf3Object, s) (.body trait, v)
  | collection {s : Decoding} {trait : Trait} (hext : trait.externalizable = true)
      (htype : trait.type = lit "flex.messaging.io.ArrayCollection") : Calls (.body trait, s) (.amf3, s)
  | abstractFields {s : Decoding} {trait : Trait} (hext : trait.externalizable = true)
      (htype : trait.type = lit "DSA" ∨ trait.type = lit "DSK") :
      Calls (.body trait, s) (.external abstractFieldSets, s)
  | asyncFields {s t : Decoding} {trait : Trait} {obj : Object} (hext : trait.externalizable = true)
      (htype : trait.type = lit "DSA" ∨ trait.type = lit "DSK")
      (hobj : decodeAbstractMessage decodeAmf3 s = .ok obj t) :
      Calls (.body trait, s) (.external asyncFieldSets, t)
  | acknowledgeFields {s t : Decoding} {trait : Trait} {obj : Object} (hext : trait.externalizable = true)
      (htype : trait.type = lit "DSK") (hobj : decodeAsyncMessage decodeAmf3 s = .ok obj t) :
      Calls (.body trait, s) (.external [], t)
  | property {s t : Decoding} {trait : Trait} {k : Nat} {vs : List Value} (hext : trait.externalizable = false)
      (hk : k < trait.keys.length) (hvs : times decodeAmf3 k s = .ok vs t) : Calls (.body trait, s) (.amf3, t)
  | dynamicKey {s t u : Decoding} {trait : Trait} {obj obj' : Object} (hext : trait.externalizable = false)
      (hdyn : trait.dynamic = true) (hobj : decodeEntries decodeAmf3 trait.keys [] s = .ok obj t)
      (hvisit : Visits (dynamicTurn decodeAmf3) obj t obj' u) : Calls (.body trait, s) (.amf3String, u)
  | dynamicValue {s t u v : Decoding} {trait : Trait} {obj obj' : Object} {key : Bytes}
      (hext : trait.externalizable = false) (hdyn : trait.dynamic = true)
      (hobj : decodeEntries decodeAmf3 trait.keys [] s = .ok obj t)
      (hvisit : Visits (dynamicTurn decodeAmf3) obj t obj' u) (hkey : decodeAmf3String false u = .ok key v)
      (hne : key ≠ []) : Calls (.body trait, s) (.amf3, v)
  | field {s t u : Decoding} {fieldSets : List (List String)} {flagSet : List UInt8} {k : Nat} {vs : List Value}
      (hflags : readFlags s = .ok flagSet t) (hk : k < (announcedFields fieldSets flagSet).length)
      (hvs : times decodeAmf3 k t = .ok vs u) : Calls (.external fieldSets, s) (.amf3, u)

/-- A reference that a batch comes to. -/
def Reads (ver : Nat) (s : Decoding) (r : Reference) : Prop :=
  ∃ site t, Relation.ReflTransGen Calls (.batch ver, s) (site, t) ∧ Refers site t r

/-! ### Panics, one function at a time -/

def Faults : Site × Decoding → Prop
  | (.batch ver, s) => (decodeBatch ver s).Panics
  | (.amf0, s) => (decodeAmf0 s).Panics
  | (.amf0Object, s) => (decodeAmf0Object decodeAmf0 false s).Panics
  | (.amf3, s) => (decodeAmf3 s).Panics
  | (.amf3String, s) => (decodeAmf3String false s).Panics
  | (.stored, s) => ∃ i t, decodeReferenceInt s = .ok ⟨true, i⟩ t ∧ t.decoder.objectRefs.length ≤ i
  | (.amf3Array, s) => (decodeAmf3Array decodeAmf3 false s).Panics
  | (.amf3Object, s) => (decodeAmf3Object decodeAmf3 false s).Panics
  | (.body trait, s) => (decodeObjectBody decodeAmf3 trait s).Panics
  | (.external fieldSets, s) => ∃ obj, (decodeExternal decodeAmf3 obj fieldSets s).Panics

/-- A function panics by a reference of its own or in a call that it makes. -/
def FaultsHere (site : Site) (s : Decoding) : Prop :=
  (∃ r, Refers site s r ∧ ¬r.InRange) ∨ ∃ c, Calls (site, s) c ∧ Faults c

theorem panics_ite {α : Type} {c : Prop} [Decidable c] {x y : Dec α} {s : Decoding} {P : Prop}
    (hx : c → ((x s).Panics ↔ P)) (hy : ¬c → ((y s).Panics ↔ P)) : ((if c then x else y) s).Panics ↔ P := by
  split
  · rename_i hc
    exact hx hc
  · rename_i hc
    exact hy hc

theorem panics_amf3Value {marker : UInt8} {s : Decoding} : (amf3Value decodeAmf3 marker s).Panics ↔
    ∃ site, siteOf marker = some site ∧ Faults (site, s) := by
  have hquiet : ∀ m, siteOf m = none → ∀ {x : Dec Value}, Quiet x → marker = m →
      ((x s).Panics ↔ ∃ site, siteOf marker = some site ∧ Faults (site, s)) := by
    rintro m hnone x hx rfl
    simp [hnone, hx s]
  have hsite : ∀ m site, siteOf m = some site → ∀ {x : Dec Value}, ((x s).Panics ↔ Faults (site, s)) → marker = m →
      ((x s).Panics ↔ ∃ site, siteOf marker = some site ∧ Faults (site, s)) := by
    rintro m site hsome x hx rfl
    simp [hsome, hx]
  refine panics_ite (hquiet _ rfl ((quiet_assertMarker _ _).bind fun _ => .pure _)) fun _ => ?_
  refine panics_ite (hquiet _ rfl ((quiet_assertMarker _ _).bind fun _ => .pure _)) fun _ => ?_
  refine panics_ite (hquiet _ rfl (((quiet_assertMarker _ _).bind fun _ => .pure _).bind fun _ => .pure _)) fun _ => ?_
  refine panics_ite (hquiet _ rfl (((quiet_assertMarker _ _).bind fun _ => .pure _).bind fun _ => .pure _)) fun _ => ?_
  refine panics_ite (hquiet _ rfl ((quiet_decodeAmf3Integer _).bind fun _ => .pure _)) fun _ => ?_
  refine panics_ite (hquiet _ rfl ((quiet_decodeAmf3Double _).bind fun _ => .pure _)) fun _ => ?_
  refine panics_ite (hsite _ .amf3String rfl panics_map) fun hstring => ?_
  refine panics_ite (hsite _ .stored rfl (panics_map.trans panics_decodeAmf3Xml)) fun hxmldoc => ?_
  refine panics_ite (hsite _ .stored rfl (panics_map.trans panics_decodeAmf3Date)) fun hdate => ?_
  refine panics_ite (hsite _ .amf3Array rfl panics_map) fun harray => ?_
  refine panics_ite (hsite _ .amf3Object rfl Iff.rfl) fun hobject => ?_
  refine panics_ite (hsite _ .stored rfl (panics_map.trans panics_decodeAmf3Xml)) fun hxmlstring => ?_
  refine panics_ite (hsite _ .stored rfl (panics_map.trans panics_decodeAmf3ByteArray)) fun hbytearray => ?_
  have hnone : siteOf marker = none := by simp [siteOf, *]
  simp [hnone]

theorem faults_amf3String {s : Decoding} : Faults (.amf3String, s) ↔ FaultsHere .amf3String s := by
  refine panics_decodeAmf3String.trans ⟨?_, ?_⟩
  · rintro ⟨i, t, href, hlen⟩
    exact .inl ⟨_, .string href, not_lt.mpr hlen⟩
  · rintro (⟨r, hr, hbad⟩ | ⟨c, hc, -⟩)
    · cases hr with
      | string href => exact ⟨_, _, href, not_lt.mp hbad⟩
    · cases hc

theorem faults_stored {s : Decoding} : Faults (.stored, s) ↔ FaultsHere .stored s := by
  refine ⟨?_, ?_⟩
  · rintro ⟨i, t, href, hlen⟩
    exact .inl ⟨_, .stored href, not_lt.mpr hlen⟩
  · rintro (⟨r, hr, hbad⟩ | ⟨c, hc, -⟩)
    · cases hr with
      | stored href => exact ⟨_, _, href, not_lt.mp hbad⟩
    · cases hc

theorem faults_amf3Array {s : Decoding} : Faults (.amf3Array, s) ↔ FaultsHere .amf3Array s := by
  refine panics_decodeAmf3Array.trans ⟨?_, ?_⟩
  · rintro (⟨i, t, href, hlen⟩ | ⟨n, t, href, hp | ⟨u, hkey, k, hk, vs, v, hvs, hp⟩⟩)
    · exact .inl ⟨_, .array href, not_lt.mpr hlen⟩
    · exact .inr ⟨_, .arrayKey href, hp⟩
    · exact .inr ⟨_, .element href hkey hk hvs, hp⟩
  · rintro (⟨r, hr, hbad⟩ | ⟨c, hc, hp⟩)
    · cases hr with
      | array href => exact .inl ⟨_, _, href, not_lt.mp hbad⟩
    · cases hc with
      | arrayKey href => exact .inr ⟨_, _, href, .inl hp⟩
      | element href hkey hk hvs => exact .inr ⟨_, _, href, .inr ⟨_, hkey, _, hk, _, _, hvs, hp⟩⟩

theorem faults_amf3Object {s : Decoding} : Faults (.amf3Object, s) ↔ FaultsHere .amf3Object s := by
  refine panics_decodeAmf3Object.trans ⟨?_, ?_⟩
  · rintro (⟨i, t, href, hlen⟩ | ⟨n, t, href, hp | ⟨trait, u, htrait, v, hpush, hp⟩⟩)
    · exact .inl ⟨_, .object href, not_lt.mpr hlen⟩
    · obtain ⟨hn, hlen⟩ | ⟨hn, hp | ⟨cls, u, hcls, k, hk, keys, v, hkeys, hp⟩⟩ := panics_decodeTrait.mp hp
      · exact .inl ⟨_, .trait href hn, not_lt.mpr hlen⟩
      · exact .inr ⟨_, .className href hn, hp⟩
      · exact .inr ⟨_, .propertyKey href hn hcls hk hkeys, hp⟩
    · exact .inr ⟨_, .body href htrait hpush, hp⟩
  · rintro (⟨r, hr, hbad⟩ | ⟨c, hc, hp⟩)
    · cases hr with
      | object href => exact .inl ⟨_, _, href, not_lt.mp hbad⟩
      | trait href hn => exact .inr ⟨_, _, href, .inl (panics_decodeTrait.mpr (.inl ⟨hn, not_lt.mp hbad⟩))⟩
    · cases hc with
      | className href hn => exact .inr ⟨_, _, href, .inl (panics_decodeTrait.mpr (.inr ⟨hn, .inl hp⟩))⟩
      | propertyKey href hn hcls hk hkeys =>
          exact .inr ⟨_, _, href, .inl (panics_decodeTrait.mpr (.inr ⟨hn, .inr ⟨_, _, hcls, _, hk, _, _, hkeys, hp⟩⟩))⟩
      | body href htrait hpush => exact .inr ⟨_, _, href, .inr ⟨_, _, htrait, _, hpush, hp⟩⟩

theorem faults_external {fieldSets : List (List String)} {s : Decoding} :
    Faults (.external fieldSets, s) ↔ FaultsHere (.external fieldSets) s := by
  refine ⟨?_, ?_⟩
  · rintro ⟨obj, hp⟩
    obtain ⟨flagSet, t, hflags, k, hk, vs, u, hvs, hp⟩ := panics_decodeExternal.mp hp
    exact .inr ⟨_, .field hflags hk hvs, hp⟩
  · rintro (⟨r, hr, -⟩ | ⟨c, hc, hp⟩)
    · cases hr
    · cases hc with
      | field hflags hk hvs => exact ⟨[], panics_decodeExternal.mpr ⟨_, _, hflags, _, hk, _, _, hvs, hp⟩⟩

/-- Which entries a map already has makes no difference to the fields read into it. -/
theorem faults_external_iff {fieldSets : List (List String)} {s : Decoding} (obj : Object) :
    (decodeExternal decodeAmf3 obj fieldSets s).Panics ↔ Faults (.external fieldSets, s) := by
  refine ⟨fun hp => ⟨obj, hp⟩, ?_⟩
  rintro ⟨obj', hp⟩
  exact panics_decodeExternal.mpr (panics_decodeExternal.mp hp)

theorem faults_body {trait : Trait} {s : Decoding} :
    Faults (.body trait, s) ↔ FaultsHere (.body trait) s := by
  have hsettled : ∀ n, Settled left n decodeAmf3 decodeAmf3 := fun n => settled_decodeAmf3
  refine panics_decodeObjectBody.trans ⟨?_, ?_⟩
  · rintro (⟨hext, hp⟩ | ⟨hext, hp | ⟨hdyn, obj, t, hobj, hp⟩⟩)
    · obtain ⟨htype, hp⟩ | ⟨htype, hp⟩ | ⟨htype, hp⟩ := panics_decodeExternalizable.mp hp
      · obtain hp | ⟨obj, t, hobj, hp⟩ := panics_decodeAsyncMessage.mp hp
        · exact .inr ⟨_, .abstractFields hext (.inl htype), ⟨_, hp⟩⟩
        · exact .inr ⟨_, .asyncFields hext (.inl htype) hobj, ⟨_, hp⟩⟩
      · obtain hp | ⟨obj, t, hobj, hp⟩ := panics_decodeAcknowledgeMessage.mp hp
        · obtain hp | ⟨obj, t, hobj, hp⟩ := panics_decodeAsyncMessage.mp hp
          · exact .inr ⟨_, .abstractFields hext (.inr htype), ⟨_, hp⟩⟩
          · exact .inr ⟨_, .asyncFields hext (.inr htype) hobj, ⟨_, hp⟩⟩
        · exact .inr ⟨_, .acknowledgeFields hext htype hobj, ⟨_, hp⟩⟩
      · exact .inr ⟨_, .collection hext htype, hp⟩
    · obtain ⟨k, hk, vs, t, hvs, hp⟩ := panics_decodeEntries.mp hp
      exact .inr ⟨_, .property hext hk hvs, hp⟩
    · obtain ⟨obj', u, hvisit, hp⟩ := (panics_decodeDynamic hsettled).mp hp
      obtain hp | ⟨key, v, hkey, hne, hp⟩ := panics_dynamicTurn.mp hp
      · exact .inr ⟨_, .dynamicKey hext hdyn hobj hvisit, hp⟩
      · exact .inr ⟨_, .dynamicValue hext hdyn hobj hvisit hkey hne, hp⟩
  · have hasync : trait.type = lit "DSA" ∨ trait.type = lit "DSK" → (decodeAsyncMessage decodeAmf3 s).Panics →
        (decodeExternalizable decodeAmf3 trait.type s).Panics := by
      rintro (htype | htype) hp
      · exact panics_decodeExternalizable.mpr (.inl ⟨htype, hp⟩)
      · exact panics_decodeExternalizable.mpr
          (.inr (.inl ⟨htype, panics_decodeAcknowledgeMessage.mpr (.inl hp)⟩))
    rintro (⟨r, hr, -⟩ | ⟨c, hc, hp⟩)
    · cases hr
    · cases hc with
      | collection hext htype => exact .inl ⟨hext, panics_decodeExternalizable.mpr (.inr (.inr ⟨htype, hp⟩))⟩
      | abstractFields hext htype =>
          exact .inl ⟨hext, hasync htype (panics_decodeAsyncMessage.mpr (.inl ((faults_external_iff _).mpr hp)))⟩
      | asyncFields hext htype hobj =>
          have hpanics := panics_decodeAsyncMessage.mpr (.inr ⟨_, _, hobj, (faults_external_iff _).mpr hp⟩)
          exact .inl ⟨hext, hasync htype hpanics⟩
      | acknowledgeFields hext htype hobj =>
          have hpanics := panics_decodeAcknowledgeMessage.mpr (.inr ⟨_, _, hobj, (faults_external_iff _).mpr hp⟩)
          exact .inl ⟨hext, panics_decodeExternalizable.mpr (.inr (.inl ⟨htype, hpanics⟩))⟩
      | property hext hk hvs => exact .inr ⟨hext, .inl (panics_decodeEntries.mpr ⟨_, hk, _, _, hvs, hp⟩)⟩
      | dynamicKey hext hdyn hobj hvisit =>
          refine .inr ⟨hext, .inr ⟨hdyn, _, _, hobj, (panics_decodeDynamic hsettled).mpr ⟨_, _, hvisit, ?_⟩⟩⟩
          exact panics_dynamicTurn.mpr (.inl hp)
      | dynamicValue hext hdyn hobj hvisit hkey hne =>
          refine .inr ⟨hext, .inr ⟨hdyn, _, _, hobj, (panics_decodeDynamic hsettled).mpr ⟨_, _, hvisit, ?_⟩⟩⟩
          exact panics_dynamicTurn.mpr (.inr ⟨_, _, hkey, hne, hp⟩)

theorem faults_amf3 {s : Decoding} : Faults (.amf3, s) ↔ FaultsHere .amf3 s := by
  have hstep : Faults (.amf3, s) ↔ ∃ marker t, readMarker s = .ok marker t ∧
      ∃ site, siteOf marker = some site ∧ Faults (site, t) := by
    rw [Faults, decodeAmf3_eq, decodeAmf3Body]
    apply quiet_readByte.panics_bind.trans
    simp only [panics_amf3Value]
    rfl
  refine hstep.trans ⟨?_, ?_⟩
  · rintro ⟨marker, t, hmarker, site, hsite, hp⟩
    exact .inr ⟨_, .marker hmarker hsite, hp⟩
  · rintro (⟨r, hr, -⟩ | ⟨c, hc, hp⟩)
    · cases hr
    · cases hc with
      | marker hmarker hsite => exact ⟨_, _, hmarker, _, hsite, hp⟩

theorem quiet_decodeAmf0String (m : Bool) : Quiet (decodeAmf0String m) :=
  (quiet_assertMarker m _).bind fun _ => (quiet_readUint 2).mapErr.bind fun _ => (quiet_readBytes _).mapErr

theorem quiet_decodeAmf0Number (m : Bool) : Quiet (decodeAmf0Number m) :=
  (quiet_assertMarker m _).bind fun _ => quiet_readFloat64.mapErr

theorem quiet_decodeAmf0Boolean (m : Bool) : Quiet (decodeAmf0Boolean m) :=
  (quiet_assertMarker m _).bind fun _ => quiet_readByte.bind fun _ => .ite (.pure _) (.ite (.pure _) (.fail _))

theorem quiet_decodeAmf0Date (m : Bool) : Quiet (decodeAmf0Date m) :=
  (quiet_assertMarker m _).bind fun _ => (quiet_decodeAmf0Number _).mapErr.bind fun _ =>
    (quiet_readBytes 2).mapErr.bind fun _ => .pure _

theorem quiet_decodeAmf0LongString (m : Bool) : Quiet (decodeAmf0LongString m) :=
  (quiet_assertMarker m _).bind fun _ => (quiet_readUint 4).mapErr.bind fun _ => (quiet_readBytes _).mapErr

theorem panics_objectTurn {x : Dec Value} {obj : Object} {s : Decoding} : (objectTurn x obj s).Panics ↔
    ∃ key t, decodeAmf0String false s = .ok key t ∧ key ≠ [] ∧ (x t).Panics := by
  rw [objectTurn, (quiet_decodeAmf0String _).panics_bind]
  refine exists_congr fun key => exists_congr fun t => and_congr_right fun _ => ?_
  by_cases hkey : key = []
  · rw [if_pos hkey, panics_map]
    exact iff_of_false ((quiet_assertMarker true amf0ObjectEndMarker).mapErr t) fun h => h.1 hkey
  · rw [if_neg hkey, panics_map, wrap, panics_mapErr, and_iff_right hkey]

theorem faults_amf0Object {s : Decoding} : Faults (.amf0Object, s) ↔ FaultsHere .amf0Object s := by
  have hloop : Faults (.amf0Object, s) ↔
      ∃ obj t, Visits (objectTurn decodeAmf0) [] s obj t ∧ (objectTurn decodeAmf0 obj t).Panics :=
    panics_loop (Consuming.decreases fun n => consuming_objectTurn (n := n) settled_decodeAmf0) (Nat.lt_succ_self _)
  refine hloop.trans ⟨?_, ?_⟩
  · rintro ⟨obj, t, hvisit, hp⟩
    obtain ⟨key, u, hkey, hne, hp⟩ := panics_objectTurn.mp hp
    exact .inr ⟨_, .entry hvisit hkey hne, hp⟩
  · rintro (⟨r, hr, -⟩ | ⟨c, hc, hp⟩)
    · cases hr
    · cases hc with
      | entry hvisit hkey hne => exact ⟨_, _, hvisit, panics_objectTurn.mpr ⟨_, _, hkey, hne, hp⟩⟩

theorem panics_decodeAmf0EcmaArray {x : Dec Value} {s : Decoding} : (decodeAmf0EcmaArray x false s).Panics ↔
    ∃ r t, attempt (readUint 4) s = .ok r t ∧ (decodeAmf0Object x false t).Panics := by
  rw [decodeAmf0EcmaArray, assertMarker_false, pure_bind, (quiet_readUint 4).attempt.panics_bind]
  simp only [wrap, panics_mapErr]

theorem panics_decodeAmf0TypedObject {x : Dec Value} {s : Decoding} : (decodeAmf0TypedObject x false s).Panics ↔
    ∃ type t, decodeAmf0String false s = .ok type t ∧ (decodeAmf0Object x false t).Panics := by
  rw [decodeAmf0TypedObject, assertMarker_false, pure_bind, wrap, (quiet_decodeAmf0String _).mapErr.panics_bind]
  simp only [wrap, panics_map, panics_mapErr, mapErr_eq_ok]

theorem panics_decodeAmf0StrictArray {x : Dec Value} {s : Decoding} : (decodeAmf0StrictArray x false s).Panics ↔
    ∃ length t, readUint 4 s = .ok length t ∧ ∃ k < length, ∃ vs u, times x k t = .ok vs u ∧ (x u).Panics := by
  rw [decodeAmf0StrictArray, assertMarker_false, pure_bind, wrap, (quiet_readUint 4).mapErr.panics_bind]
  simp only [wrap, mapErr_eq_ok, panics_times, times_mapErr_eq_ok, panics_mapErr]

theorem of_panics_ite {α : Type} {c : Prop} [Decidable c] {x y : Dec α} {s : Decoding} {P : Prop}
    (hx : c → (x s).Panics → P) (hy : (y s).Panics → P) : ((if c then x else y) s).Panics → P := by
  split
  · rename_i hc
    exact hx hc
  · exact hy

theorem faults_amf0 {s : Decoding} : Faults (.amf0, s) ↔ FaultsHere .amf0 s := by
  have hbody : decodeAmf0 s = decodeAmf0Body decodeAmf0 s := congrFun decodeAmf0_eq s
  rw [Faults, hbody, decodeAmf0Body, readMarker, quiet_readByte.panics_bind]
  constructor
  · rintro ⟨marker, t, hmarker, hp⟩
    have hquiet : ∀ {m} {x : Dec Value}, Quiet x → marker = m → (x t).Panics → FaultsHere .amf0 s :=
      fun hx _ hp => (hx t hp).elim
    revert hp
    refine of_panics_ite (hquiet ((quiet_decodeAmf0Number _).bind fun _ => .pure _)) ?_
    refine of_panics_ite (hquiet ((quiet_decodeAmf0Boolean _).bind fun _ => .pure _)) ?_
    refine of_panics_ite (hquiet ((quiet_decodeAmf0String _).bind fun _ => .pure _)) ?_
    refine of_panics_ite (fun hm hp => .inr ⟨_, .object (hm ▸ hmarker), panics_map.mp hp⟩) ?_
    apply of_panics_ite (hquiet (.fail _))
    refine of_panics_ite (hquiet ((quiet_assertMarker _ _).bind fun _ => .pure _)) ?_
    refine of_panics_ite (hquiet ((quiet_assertMarker _ _).bind fun _ => .pure _)) ?_
    apply of_panics_ite (hquiet (.fail _))
    refine of_panics_ite (fun hm hp => ?_) ?_
    · obtain ⟨r, u, hlength, hp⟩ := panics_decodeAmf0EcmaArray.mp (panics_map.mp hp)
      exact .inr ⟨_, .ecmaArray (hm ▸ hmarker) hlength, hp⟩
    refine of_panics_ite (fun hm hp => ?_) ?_
    · obtain ⟨length, u, hlength, k, hk, vs, v, hvs, hp⟩ := panics_decodeAmf0StrictArray.mp (panics_map.mp hp)
      exact .inr ⟨_, .strictArray (hm ▸ hmarker) hlength hk hvs, hp⟩
    refine of_panics_ite (hquiet ((quiet_decodeAmf0Date _).bind fun _ => .pure _)) ?_
    refine of_panics_ite (hquiet ((quiet_decodeAmf0LongString _).bind fun _ => .pure _)) ?_
    refine of_panics_ite (hquiet ((quiet_assertMarker _ _).bind fun _ => .pure _)) ?_
    apply of_panics_ite (hquiet (.fail _))
    refine of_panics_ite (hquiet (((quiet_assertMarker _ _).bind fun _ =>
      quiet_decodeAmf0LongString _).bind fun _ => .pure _)) ?_
    refine of_panics_ite (fun hm hp => ?_) ?_
    · obtain ⟨type, u, htype, hp⟩ := panics_decodeAmf0TypedObject.mp hp
      exact .inr ⟨_, .typedObject (hm ▸ hmarker) htype, hp⟩
    exact of_panics_ite (fun hm hp => .inr ⟨_, .acmplus (hm ▸ hmarker), hp⟩) fun hp => hp.elim
  · rintro (⟨r, hr, -⟩ | ⟨c, hc, hp⟩)
    · cases hr
    · cases hc with
      | object hmarker => exact ⟨_, _, hmarker, panics_map.mpr hp⟩
      | ecmaArray hmarker hlength =>
          exact ⟨_, _, hmarker, panics_map.mpr (panics_decodeAmf0EcmaArray.mpr ⟨_, _, hlength, hp⟩)⟩
      | typedObject hmarker htype =>
          exact ⟨_, _, hmarker, panics_decodeAmf0TypedObject.mpr ⟨_, _, htype, hp⟩⟩
      | strictArray hmarker hlength hk hvs =>
          have hpanics := panics_decodeAmf0StrictArray.mpr ⟨_, _, hlength, _, hk, _, _, hvs, hp⟩
          exact ⟨_, _, hmarker, panics_map.mpr hpanics⟩
      | acmplus hmarker => exact ⟨_, _, hmarker, hp⟩

theorem faults_batch {ver : Nat} {s : Decoding} : Faults (.batch ver, s) ↔ FaultsHere (.batch ver) s := by
  have hturn : ∀ ret t, (batchTurn ver ret t).Panics ↔ (decode ver t).Panics := by
    intro ret t
    rw [batchTurn, panics_bind, panics_attempt]
    apply or_iff_left
    rintro ⟨r, u, -, hp⟩
    cases r <;> exact hp
  have hloop : Faults (.batch ver, s) ↔ ∃ ret t, Visits (batchTurn ver) [] s ret t ∧ (batchTurn ver ret t).Panics :=
    panics_loop (decreases_batchTurn ver) (Nat.lt_succ_self _)
  simp only [hloop, hturn]
  constructor
  · rintro ⟨ret, t, hvisit, hp⟩
    unfold decode at hp
    split at hp
    · subst ver
      exact .inr ⟨_, .value0 hvisit, hp⟩
    · split at hp
      · subst ver
        exact .inr ⟨_, .value3 hvisit, hp⟩
      · exact hp.elim
  · rintro (⟨r, hr, -⟩ | ⟨c, hc, hp⟩)
    · cases hr
    · cases hc with
      | value0 hvisit => exact ⟨_, _, hvisit, hp⟩
      | value3 hvisit => exact ⟨_, _, hvisit, hp⟩

theorem faults_iff (site : Site) (s : Decoding) : Faults (site, s) ↔ FaultsHere site s := by
  cases site with
  | batch ver => exact faults_batch
  | amf0 => exact faults_amf0
  | amf0Object => exact faults_amf0Object
  | amf3 => exact faults_amf3
  | amf3String => exact faults_amf3String
  | stored => exact faults_stored
  | amf3Array => exact faults_amf3Array
  | amf3Object => exact faults_amf3Object
  | body trait => exact faults_body
  | external fieldSets => exact faults_external

/-- The order of those calls that may leave as many bytes to read as there were. -/
def Site.rank : Site → Nat
  | .batch _ => 1
  | .body _ => 2
  | .external _ => 1
  | _ => 0

theorem siteOf_rank {marker : UInt8} {site : Site} (h : siteOf marker = some site) : site.rank = 0 := by
  unfold siteOf at h
  split_ifs at h <;> cases h <;> rfl

/-- The calls of the two routers and of the string functions leave no more bytes than there were. -/
theorem left_le {α : Type} {x : Dec α} (hx : ∀ n, Settled left n x x) {s t : Decoding} {a : α}
    (h : x s = .ok a t) : t.left ≤ s.left := Settled.le_of_ok hx h

theorem left_lt {α : Type} {x : Dec α} (hx : ∀ n, Consuming left n x) {s t : Decoding} {a : α}
    (h : x s = .ok a t) : t.left < s.left := Consuming.lt_of_ok hx h

theorem calls_decreases {c d : Site × Decoding} (h : Calls c d) :
    3 * d.2.left + d.1.rank < 3 * c.2.left + c.1.rank := by
  have hvalue0 : ∀ n, Settled left n decodeAmf0 decodeAmf0 := fun _ => settled_decodeAmf0
  have hvalue3 : ∀ n, Settled left n decodeAmf3 decodeAmf3 := fun _ => settled_decodeAmf3
  have hmarker {s t m} (h : readMarker s = .ok m t) : t.left < s.left := left_lt (fun _ => consuming_readByte) h
  have href {s t ref} (h : decodeReferenceInt s = .ok ref t) : t.left < s.left :=
    left_lt (fun _ => consuming_decodeReferenceInt) h
  have hkey0 {s t key} (h : decodeAmf0String false s = .ok key t) : t.left < s.left :=
    left_lt (fun _ => consuming_decodeAmf0String) h
  have hkey3 {s t key} (h : decodeAmf3String false s = .ok key t) : t.left < s.left :=
    left_lt (fun _ => consuming_decodeAmf3String) h
  have hobj {s t trait obj} (h : decodeEntries decodeAmf3 trait [] s = .ok obj t) : t.left ≤ s.left :=
    left_le (fun n => settled_decodeEntries (hvalue3 n) _ _) h
  have hturn {s t obj obj'} (h : Visits (dynamicTurn decodeAmf3) obj s obj' t) : t.left ≤ s.left :=
    Visits.le (Consuming.decreases fun n => consuming_dynamicTurn (hvalue3 n)) h
  cases h with
  | value0 hvisit =>
      have := Visits.le (decreases_batchTurn 0) hvisit
      simp only [Site.rank]
      omega
  | value3 hvisit =>
      have := Visits.le (decreases_batchTurn 3) hvisit
      simp only [Site.rank]
      omega
  | object hm =>
      have := hmarker hm
      simp only [Site.rank]
      omega
  | ecmaArray hm hlength =>
      have := hmarker hm
      have := left_le (fun _ => (settled_readUint 4).attempt) hlength
      simp only [Site.rank]
      omega
  | typedObject hm htype =>
      have := hmarker hm
      have := hkey0 htype
      simp only [Site.rank]
      omega
  | strictArray hm hlength hk hvs =>
      have := hmarker hm
      have := left_le (fun _ => settled_readUint 4) hlength
      have := left_le (fun n => (hvalue0 n).times _) hvs
      simp only [Site.rank]
      omega
  | acmplus hm =>
      have := hmarker hm
      simp only [Site.rank]
      omega
  | entry hvisit hkey hne =>
      have := Visits.le (Consuming.decreases fun n => consuming_objectTurn (hvalue0 n)) hvisit
      have := hkey0 hkey
      simp only [Site.rank]
      omega
  | marker hm hsite =>
      have := hmarker hm
      have hrank := siteOf_rank hsite
      simp only [Site.rank] at hrank ⊢
      omega
  | arrayKey h =>
      have := href h
      simp only [Site.rank]
      omega
  | element h hkey hk hvs =>
      have := href h
      have := hkey3 hkey
      have := left_le (fun n => (hvalue3 n).times _) hvs
      simp only [Site.rank]
      omega
  | className h hn =>
      have := href h
      simp only [Site.rank]
      omega
  | propertyKey h hn hcls hk hkeys =>
      have := href h
      have := hkey3 hcls
      have := left_le (fun _ => (settled_decodeAmf3String false).times _) hkeys
      simp only [Site.rank]
      omega
  | body h htrait hpush =>
      have := href h
      have := left_le (fun _ => settled_decodeTrait _) htrait
      have := left_le (fun _ => settled_pushObject _) hpush
      simp only [Site.rank]
      omega
  | collection hext htype =>
      simp only [Site.rank]
      omega
  | abstractFields hext htype => exact Nat.lt_succ_self _
  | asyncFields hext htype h =>
      have := left_le (fun n => (settled_decodeExternal (hvalue3 n) _ _).mapErr) h
      simp only [Site.rank]
      omega
  | acknowledgeFields hext htype h =>
      have := left_le (fun n => settled_decodeAsyncMessage (hvalue3 n)) h
      simp only [Site.rank]
      omega
  | property hext hk hvs =>
      have := left_le (fun n => (hvalue3 n).times _) hvs
      simp only [Site.rank]
      omega
  | dynamicKey hext hdyn h hvisit =>
      have := hobj h
      have := hturn hvisit
      simp only [Site.rank]
      omega
  | dynamicValue hext hdyn h hvisit hkey hne =>
      have := hobj h
      have := hturn hvisit
      have := hkey3 hkey
      simp only [Site.rank]
      omega
  | field hflags hk hvs =>
      have := left_le (fun _ => settled_readFlags) hflags
      have := left_le (fun n => (hvalue3 n).times _) hvs
      simp only [Site.rank]
      omega

/-! ### Batches -/

/-- A batch panics exactly if it comes to a reference that points past the end of its table. -/
theorem decodeBatch_panics_iff (ver : Nat) (s : Decoding) :
    (decodeBatch ver s).Panics ↔ ∃ r, Reads ver s r ∧ ¬r.InRange := by
  have hreach := reaches_iff (P := Faults) (R := Calls) (μ := fun c => 3 * c.2.left + c.1.rank)
    (B := fun c => ∃ r, Refers c.1 c.2 r ∧ ¬r.InRange) (fun c => faults_iff c.1 c.2)
    (fun c d h => calls_decreases h) (.batch ver, s)
  refine hreach.trans ⟨?_, ?_⟩
  · rintro ⟨⟨site, t⟩, hcalls, r, hr, hbad⟩
    exact ⟨r, ⟨site, t, hcalls, hr⟩, hbad⟩
  · rintro ⟨r, ⟨site, t, hcalls, hr⟩, hbad⟩
    exact ⟨(site, t), hcalls, r, hr, hbad⟩

/-- A batch ends, and the error that ends it is among its results. -/
theorem decodeBatch_sat (ver : Nat) (s : Decoding) :
    (decodeBatch ver s).Sat (fun _ _ => True) (fun _ _ => False) True := by
  refine sat_loop (μ := fun _ => left) (I := fun _ _ => True) (fun ret t _ => ?_) (Nat.lt_succ_self _) trivial
  have hdecode := consuming_decode (n := t.left + 1) ver t (Nat.lt_succ_self _)
  rw [batchTurn, bind_apply, attempt]
  cases hd : decode ver t with
  | ok v u =>
      rw [hd] at hdecode
      exact ⟨trivial, hdecode⟩
  | err e u => trivial
  | panic p => trivial
  | diverge => simp [hd] at hdecode

/-- Decoding a batch returns values and an error exactly if every reference that it comes to is in
range. -/
theorem decodeBatch_returns_iff (ver : Nat) (s : Decoding) :
    (∃ ret err t, decodeBatch ver s = .ok (ret, err) t) ↔ ∀ r, Reads ver s r → r.InRange := by
  have hpanics : (∃ ret err t, decodeBatch ver s = .ok (ret, err) t) ↔ ¬(decodeBatch ver s).Panics := by
    have hsat := decodeBatch_sat ver s
    cases hb : decodeBatch ver s with
    | ok r t => simpa using ⟨r.1, r.2, rfl⟩
    | err e t => simp [hb] at hsat
    | panic p => simp
    | diverge => simp [hb] at hsat
  rw [hpanics, decodeBatch_panics_iff]
  push Not
  rfl

/-- A string that is marked as AMF3 and refers to the first of no strings. -/
theorem decodeBatch_first_string :
    decodeBatch 0 ⟨{}, ⟨.bytesReader, [0x11, 0x06, 0x00]⟩⟩ = .panic .indexOutOfRange := rfl

end Amf

end Livego
