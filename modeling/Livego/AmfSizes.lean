import Livego.AmfTermination
import Livego.Ensures

/-! How long what is decoded can be: a length of 32 bits comes before every string and every array, and one of
28 bits in AMF3, so that neither the routers nor the tables ever hold a longer one. -/

namespace Livego

open Fallible Call

namespace Amf

/-- Every string and every array in the value, at any depth, has a length that 32 bits hold. -/
inductive Fitting : Value → Prop
  | null : Fitting .null
  | bool (b : Bool) : Fitting (.bool b)
  | int (n : Int) : Fitting (.int n)
  | number (bits : UInt64) : Fitting (.number bits)
  | time (millis : UInt64) : Fitting (.time millis)
  | string {str : Bytes} (hlen : str.length < 2 ^ 32) : Fitting (.string str)
  | bytes {bs : Bytes} (hlen : bs.length < 2 ^ 32) : Fitting (.bytes bs)
  | array {arr : Array} (hlen : arr.length < 2 ^ 32) (helements : ∀ v ∈ arr, Fitting v) : Fitting (.array arr)
  | object {obj : Object} (hvalues : ∀ e ∈ obj, Fitting e.2) : Fitting (.object obj)
  | typedObject {type : Bytes} {obj : Object} (hvalues : ∀ e ∈ obj, Fitting e.2) : Fitting (.typedObject type obj)

structure Decoder.Fits (d : Decoder) : Prop where
  strings : ∀ str ∈ d.stringRefs, str.length < 2 ^ 32
  objects : ∀ v ∈ d.objectRefs, Fitting v

theorem Decoder.Fits.empty : ({} : Decoder).Fits :=
  ⟨fun _ hstr => absurd hstr List.not_mem_nil, fun _ hv => absurd hv List.not_mem_nil⟩

/-- The call keeps the tables within their sizes, and what it returns has `P`. -/
def Sized {α : Type} (P : α → Prop) (x : Dec α) : Prop := Ensures (fun s : Decoding => s.decoder.Fits) P x

theorem Fitting.insert {obj : Object} (h : Fitting (.object obj)) (key : Bytes) {v : Value} (hv : Fitting v) :
    Fitting (.object (obj.insert key v)) := by
  cases h with
  | object hvalues =>
      apply Fitting.object
      induction obj with
      | nil =>
          intro e he
          cases List.mem_singleton.mp he
          exact hv
      | cons e obj ih =>
          obtain ⟨k, u⟩ := e
          obtain ⟨hfirst, hrest⟩ := List.forall_mem_cons.mp hvalues
          rw [Object.insert]
          split
          · exact List.forall_mem_cons.mpr ⟨hv, hrest⟩
          · exact List.forall_mem_cons.mpr ⟨hfirst, ih hrest⟩

/-! ### Reads -/

theorem sized_read (n : Nat) : Sized (fun bytes : Bytes => bytes.length ≤ n) (read n) := by
  intro s hs
  rw [read]
  split
  · exact hs
  · exact ⟨hs, List.length_take_le n _⟩

theorem sized_fill (n : Nat) : Sized (fun bytes : Bytes => bytes.length = n) (fill n) := by
  apply (sized_read n).map
  intro bytes hlength
  rw [List.length_append, List.length_replicate]
  omega

theorem sized_readBytes (n : Nat) : Sized (fun bytes : Bytes => bytes.length = n) (readBytes n) := by
  apply (sized_read n).bind
  intro bytes _
  by_cases h : bytes.length ≠ n
  · rw [if_pos h]
    exact .fail _
  · rw [if_neg h]
    exact .pure (not_not.mp h)

theorem sized_readByte : Sized (fun _ => True) readByte := (sized_readBytes 1).map fun _ _ => trivial

theorem sized_readUint (n : Nat) : Sized (fun v => v < 256 ^ n) (readUint n) := by
  intro s hs
  rw [readUint]
  split
  · exact hs
  · rename_i hlen
    have hlt := Endian.beNat_lt (s.r.unread.take n)
    rw [List.length_take_of_le (Nat.le_of_not_lt hlen)] at hlt
    exact ⟨hs, hlt⟩

theorem sized_readFloat64 : Sized (fun _ => True) readFloat64 := (sized_readUint 8).map fun _ _ => trivial

theorem sized_assertMarker (checkMarker : Bool) (m : UInt8) : Sized (fun _ => True) (assertMarker checkMarker m) := by
  cases checkMarker with
  | false => exact .pure trivial
  | true => exact sized_readByte.bind fun marker _ => .ite (.fail _) (.pure trivial)

theorem sized_index {α : Type} {P : α → Prop} {table : Decoder → List α} (h : ∀ d : Decoder, d.Fits → ∀ a ∈ table d, P a)
    (i : Nat) : Sized P (index table i) := by
  intro s hs
  rw [index]
  split
  · rename_i a ha
    exact ⟨hs, h s.decoder hs a (List.mem_of_getElem? ha)⟩
  · trivial

theorem sized_stringRef (i : Nat) : Sized (fun str : Bytes => str.length < 2 ^ 32) (index Decoder.stringRefs i) :=
  sized_index (fun _ hd => hd.strings) i

theorem sized_objectRef (i : Nat) : Sized Fitting (index Decoder.objectRefs i) :=
  sized_index (fun _ hd => hd.objects) i

theorem sized_pushString {str : Bytes} (hlen : str.length < 2 ^ 32) : Sized (fun _ => True) (pushString str) := by
  apply Ensures.modify
  intro s hs
  refine ⟨fun str' hstr' => ?_, hs.objects⟩
  rcases List.mem_append.mp hstr' with hmem | hmem
  · exact hs.strings str' hmem
  · rwa [List.mem_singleton.mp hmem]

theorem sized_pushObject {v : Value} (hv : Fitting v) : Sized (fun _ => True) (pushObject v) := by
  apply Ensures.modify
  intro s hs
  refine ⟨hs.strings, fun v' hv' => ?_⟩
  rcases List.mem_append.mp hv' with hmem | hmem
  · exact hs.objects v' hmem
  · rwa [List.mem_singleton.mp hmem]

theorem sized_pushTrait (trait : Trait) : Sized (fun _ => True) (pushTrait trait) :=
  .modify fun _ hs => ⟨hs.strings, hs.objects⟩

/-! ### AMF3 -/

/-- Seven bits a byte, and eight in the last. -/
theorem sized_u29Loop (i result : Nat) : Sized (fun v => v < (result + 1) * 2 ^ (7 * i + 8)) (u29Loop i result) := by
  induction i generalizing result with
  | zero =>
      apply sized_readByte.map
      intro b _
      have hb := b.toNat_lt
      rw [Nat.shiftLeft_eq]
      omega
  | succ i ih =>
      apply sized_readByte.bind
      intro b _
      have hlow : (b &&& 0x7f).toNat ≤ 0x7f := by
        rw [UInt8.toNat_and]
        exact Nat.and_le_right
      have hnext : (result <<< 7) + (b &&& 0x7f).toNat + 1 ≤ (result + 1) * 2 ^ 7 := by
        rw [Nat.shiftLeft_eq]
        omega
      have hbound : ((result <<< 7) + (b &&& 0x7f).toNat + 1) * 2 ^ (7 * i + 8) ≤ (result + 1) * 2 ^ (7 * (i + 1) + 8) := by
        calc ((result <<< 7) + (b &&& 0x7f).toNat + 1) * 2 ^ (7 * i + 8)
            ≤ (result + 1) * 2 ^ 7 * 2 ^ (7 * i + 8) := Nat.mul_le_mul_right _ hnext
          _ = (result + 1) * 2 ^ (7 * (i + 1) + 8) := by
              rw [Nat.mul_assoc, ← Nat.pow_add]
              congr 2
              omega
      have hone : 1 ≤ 2 ^ (7 * i + 8) := Nat.one_le_two_pow
      have hself := Nat.mul_le_mul_left ((result <<< 7) + (b &&& 0x7f).toNat + 1) hone
      rw [Nat.mul_one] at hself
      refine .ite (.pure ?_) ((ih _).imp fun v hv => Nat.lt_of_lt_of_le hv hbound)
      exact Nat.lt_of_succ_le (Nat.le_trans hself hbound)

theorem sized_ref {context : String} :
    Sized (fun ref : ReferenceInt => ref.refVal < 2 ^ 28) (wrap context decodeReferenceInt) := by
  apply Ensures.mapErr
  apply (sized_u29Loop 3 0).mapErr.map
  intro u29 hu29
  dsimp only
  rw [Nat.shiftRight_eq_div_pow]
  omega

theorem sized_decodeAmf3String (m : Bool) : Sized (fun str : Bytes => str.length < 2 ^ 32) (decodeAmf3String m) := by
  apply (sized_assertMarker m _).bind
  intro _ _
  apply sized_ref.bind
  intro ref href
  refine .ite (sized_stringRef _) ((sized_fill _).mapErr.bind fun result hresult => ?_)
  have hlen : result.length < 2 ^ 32 := by omega
  exact .ite ((sized_pushString hlen).map fun _ _ => hlen) (.pure hlen)

theorem sized_decodeAmf3Date (m : Bool) : Sized (fun _ => True) (decodeAmf3Date m) := by
  apply (sized_assertMarker m _).bind
  intro _ _
  apply sized_ref.bind
  intro ref _
  refine .ite ((sized_objectRef _).bind fun v _ => ?_) ?_
  · split
    · exact .pure trivial
    · exact .fail _
  · exact sized_readFloat64.mapErr.bind fun u64 _ => (sized_pushObject (.time u64)).map fun _ _ => trivial

theorem sized_assertXmlMarker (m : Bool) : Sized (fun _ => True) (assertXmlMarker m) := by
  cases m with
  | false => exact .pure trivial
  | true => exact sized_readByte.bind fun marker _ => .ite (.fail _) (.pure trivial)

theorem sized_decodeAmf3Xml (m : Bool) : Sized (fun str : Bytes => str.length < 2 ^ 32) (decodeAmf3Xml m) := by
  apply (sized_assertXmlMarker m).bind
  intro _ _
  apply sized_ref.bind
  intro ref href
  refine .ite ((sized_objectRef _).bind fun v hv => ?_) ((sized_fill _).mapErr.bind fun result hresult => ?_)
  · cases hv with
    | string hlen => exact .pure hlen
    | _ => exact .fail _
  · have hlen : result.length < 2 ^ 32 := by omega
    exact .ite ((sized_pushObject (.string hlen)).map fun _ _ => hlen) (.pure hlen)

theorem sized_decodeAmf3ByteArray (m : Bool) : Sized (fun bs : Bytes => bs.length < 2 ^ 32) (decodeAmf3ByteArray m) := by
  apply (sized_assertMarker m _).bind
  intro _ _
  apply sized_ref.bind
  intro ref href
  refine .ite ((sized_objectRef _).bind fun v hv => ?_) ((sized_fill _).mapErr.bind fun result hresult => ?_)
  · cases hv with
    | bytes hlen => exact .pure hlen
    | _ => exact .fail _
  · have hlen : result.length < 2 ^ 32 := by omega
    exact (sized_pushObject (.bytes hlen)).map fun _ _ => hlen

theorem sized_decodeTrait (refVal : Nat) : Sized (fun _ => True) (decodeTrait refVal) := by
  have hkey : ∀ context, Sized (fun _ => True) (wrap context (decodeAmf3String false)) :=
    fun context => (sized_decodeAmf3String false).mapErr.imp fun _ _ => trivial
  refine .ite (sized_index (fun _ _ _ _ => trivial) _) ((hkey _).bind fun cls _ => ?_)
  exact ((hkey _).times _).bind fun properties _ => (sized_pushTrait _).map fun _ _ => trivial

theorem sized_readFlags : Sized (fun _ => True) readFlags := by
  intro s hs
  refine Ensures.loop (Q := fun _ => True) (fun result _ => ?_) (s.left + 1) trivial s hs
  apply sized_readByte.mapErr.map
  intro flag _
  split <;> trivial

section
variable {x : Dec Value} (h : Sized Fitting x)
include h

theorem sized_decodeAmf3Array (m : Bool) :
    Sized (fun arr : Array => Fitting (.array arr)) (decodeAmf3Array x m) := by
  apply (sized_assertMarker m _).bind
  intro _ _
  apply sized_ref.bind
  intro ref href
  refine .ite ((sized_objectRef _).bind fun v hv => ?_) ?_
  · split
    · exact .pure hv
    · exact .fail _
  · refine (sized_decodeAmf3String _).mapErr.bind fun key _ => .ite (.fail _) ?_
    apply (h.mapErr.times _).bind
    intro result hresult
    have hfits : Fitting (.array result) := .array (by omega) hresult.2
    exact (sized_pushObject hfits).map fun _ _ => hfits

theorem sized_decodeEntries (keys : List (Bytes × String)) {obj : Object} (hobj : Fitting (.object obj)) :
    Sized (fun obj : Object => Fitting (.object obj)) (decodeEntries x keys obj) := by
  induction keys generalizing obj with
  | nil => exact .pure hobj
  | cons key keys ih => exact h.mapErr.bind fun val hval => ih (hobj.insert key.1 hval)

theorem sized_decodeExternal {obj : Object} (hobj : Fitting (.object obj)) (fieldSets : List (List String)) :
    Sized (fun obj : Object => Fitting (.object obj)) (decodeExternal x obj fieldSets) :=
  sized_readFlags.mapErr.bind fun _ _ => sized_decodeEntries h _ hobj

theorem sized_decodeAsyncMessage : Sized (fun obj : Object => Fitting (.object obj)) (decodeAsyncMessage x) := by
  have hempty : Fitting (.object []) := .object fun _ he => absurd he List.not_mem_nil
  exact (sized_decodeExternal h hempty _).mapErr.mapErr.bind fun _ hobj => (sized_decodeExternal h hobj _).mapErr

theorem sized_decodeAcknowledgeMessage :
    Sized (fun obj : Object => Fitting (.object obj)) (decodeAcknowledgeMessage x) :=
  (sized_decodeAsyncMessage h).mapErr.bind fun _ hobj => (sized_decodeExternal h hobj _).mapErr

theorem sized_decodeExternalizable (type : Bytes) : Sized Fitting (decodeExternalizable x type) := by
  refine .ite ((sized_decodeAsyncMessage h).mapErr.map fun _ hobj => hobj) ?_
  refine .ite ((sized_decodeAcknowledgeMessage h).mapErr.map fun _ hobj => hobj) ?_
  exact .ite (h.mapErr.mapErr.bind fun _ hv => (sized_pushObject hv).map fun _ _ => hv) (.fail _)

theorem sized_decodeDynamic {obj : Object} (hobj : Fitting (.object obj)) :
    Sized (fun obj : Object => Fitting (.object obj)) (decodeDynamic x obj) := by
  intro s hs
  refine Ensures.loop (Q := fun obj => Fitting (.object obj)) (fun obj hobj => ?_) (s.left + 1) hobj s hs
  apply (sized_decodeAmf3String _).mapErr.bind
  intro key _
  exact .ite (.pure hobj) (h.mapErr.map fun val hval => hobj.insert key hval)

theorem sized_decodeObjectBody (trait : Trait) : Sized Fitting (decodeObjectBody x trait) := by
  have hempty : Fitting (.object []) := .object fun _ he => absurd he List.not_mem_nil
  refine .ite (sized_decodeExternalizable h _) ((sized_decodeEntries h _ hempty).bind fun obj hobj => ?_)
  split
  · exact (sized_decodeDynamic h hobj).map fun _ hobj => hobj
  · exact .pure hobj

theorem sized_decodeAmf3Object (m : Bool) : Sized Fitting (decodeAmf3Object x m) := by
  apply (sized_assertMarker m _).bind
  intro _ _
  apply sized_ref.bind
  intro ref _
  refine .ite (sized_objectRef _) ((sized_decodeTrait _).bind fun trait _ => ?_)
  exact (sized_pushObject .null).bind fun _ _ => sized_decodeObjectBody h trait

theorem sized_amf3Value (marker : UInt8) : Sized Fitting (amf3Value x marker) := by
  refine .ite ((sized_assertMarker _ _).map fun _ _ => .null) ?_
  refine .ite ((sized_assertMarker _ _).map fun _ _ => .null) ?_
  refine .ite (((sized_assertMarker _ _).map fun _ _ => trivial).map fun b (_ : True) => .bool b) ?_
  refine .ite (((sized_assertMarker _ _).map fun _ _ => trivial).map fun b (_ : True) => .bool b) ?_
  refine .ite (((sized_assertMarker _ _).bind fun _ _ =>
    (sized_u29Loop 3 0).map fun _ _ => trivial).map fun n (_ : True) => .int n) ?_
  refine .ite (((sized_assertMarker _ _).bind fun _ _ => sized_readFloat64.mapErr).map fun bits _ => .number bits) ?_
  refine .ite ((sized_decodeAmf3String _).map fun _ hlen => .string hlen) ?_
  refine .ite ((sized_decodeAmf3Xml _).map fun _ hlen => .string hlen) ?_
  refine .ite ((sized_decodeAmf3Date _).map fun millis _ => .time millis) ?_
  refine .ite ((sized_decodeAmf3Array h _).map fun _ harr => harr) ?_
  refine .ite (sized_decodeAmf3Object h _) ?_
  refine .ite ((sized_decodeAmf3Xml _).map fun _ hlen => .string hlen) ?_
  exact .ite ((sized_decodeAmf3ByteArray _).map fun _ hlen => .bytes hlen) (.fail _)

end

theorem sized_decodeAmf3 : Sized Fitting decodeAmf3 :=
  Ensures.recurse Decoding.left fun _ h => sized_readByte.bind fun marker _ => sized_amf3Value h marker

/-! ### AMF0 -/

theorem sized_decodeAmf0Number (m : Bool) : Sized (fun _ => True) (decodeAmf0Number m) :=
  (sized_assertMarker m _).bind fun _ _ => sized_readFloat64.mapErr

theorem sized_decodeAmf0Boolean (m : Bool) : Sized (fun _ => True) (decodeAmf0Boolean m) :=
  (sized_assertMarker m _).bind fun _ _ => sized_readByte.bind fun _ _ =>
    .ite (.pure trivial) (.ite (.pure trivial) (.fail _))

theorem sized_decodeAmf0String (m : Bool) : Sized (fun str : Bytes => str.length < 2 ^ 32) (decodeAmf0String m) := by
  apply (sized_assertMarker m _).bind
  intro _ _
  apply (sized_readUint 2).mapErr.bind
  intro length hlength
  exact (sized_readBytes length).mapErr.imp fun str hstr => by omega

theorem sized_decodeAmf0LongString (m : Bool) :
    Sized (fun str : Bytes => str.length < 2 ^ 32) (decodeAmf0LongString m) := by
  apply (sized_assertMarker m _).bind
  intro _ _
  apply (sized_readUint 4).mapErr.bind
  intro length hlength
  exact (sized_readBytes length).mapErr.imp fun str hstr => by omega

theorem sized_decodeAmf0Date (m : Bool) : Sized (fun _ => True) (decodeAmf0Date m) :=
  (sized_assertMarker m _).bind fun _ _ => (sized_decodeAmf0Number _).mapErr.bind fun _ _ =>
    (sized_readBytes 2).mapErr.map fun _ _ => trivial

section
variable {x : Dec Value} (h : Sized Fitting x)
include h

theorem sized_decodeAmf0Object (m : Bool) :
    Sized (fun obj : Object => Fitting (.object obj)) (decodeAmf0Object x m) := by
  apply (sized_assertMarker m _).bind
  intro _ _ s hs
  have hempty : Fitting (.object []) := .object fun _ he => absurd he List.not_mem_nil
  refine Ensures.loop (Q := fun obj => Fitting (.object obj)) (fun obj hobj => ?_) (s.left + 1) hempty s hs
  apply (sized_decodeAmf0String _).bind
  intro key _
  exact .ite ((sized_assertMarker _ _).mapErr.map fun _ _ => hobj) (h.mapErr.map fun value hvalue => hobj.insert key hvalue)

theorem sized_decodeAmf0EcmaArray (m : Bool) :
    Sized (fun obj : Object => Fitting (.object obj)) (decodeAmf0EcmaArray x m) :=
  (sized_assertMarker m _).bind fun _ _ => (sized_readUint 4).attempt.bind fun _ _ =>
    (sized_decodeAmf0Object h false).mapErr

theorem sized_decodeAmf0StrictArray (m : Bool) :
    Sized (fun arr : Array => Fitting (.array arr)) (decodeAmf0StrictArray x m) := by
  apply (sized_assertMarker m _).bind
  intro _ _
  apply (sized_readUint 4).mapErr.bind
  intro length hlength
  exact (h.mapErr.times length).imp fun arr harr => .array (by omega) harr.2

theorem sized_decodeAmf0TypedObject (m : Bool) : Sized Fitting (decodeAmf0TypedObject x m) := by
  apply (sized_assertMarker m _).bind
  intro _ _
  apply (sized_decodeAmf0String _).mapErr.bind
  intro type _
  apply (sized_decodeAmf0Object h _).mapErr.map
  intro obj hobj
  cases hobj with
  | object hvalues => exact .typedObject hvalues

theorem sized_amf0Value (marker : UInt8) : Sized Fitting (amf0Value x marker) := by
  refine .ite ((sized_decodeAmf0Number _).map fun bits _ => .number bits) ?_
  refine .ite ((sized_decodeAmf0Boolean _).map fun b _ => .bool b) ?_
  refine .ite ((sized_decodeAmf0String _).map fun _ hlen => .string hlen) ?_
  refine .ite ((sized_decodeAmf0Object h _).map fun _ hobj => hobj) ?_
  refine .ite (.fail _) ?_
  refine .ite ((sized_assertMarker _ _).map fun _ _ => .null) ?_
  refine .ite ((sized_assertMarker _ _).map fun _ _ => .null) ?_
  refine .ite (.fail _) ?_
  refine .ite ((sized_decodeAmf0EcmaArray h _).map fun _ hobj => hobj) ?_
  refine .ite ((sized_decodeAmf0StrictArray h _).map fun _ harr => harr) ?_
  refine .ite ((sized_decodeAmf0Date _).map fun bits _ => .number bits) ?_
  refine .ite ((sized_decodeAmf0LongString _).map fun _ hlen => .string hlen) ?_
  refine .ite ((sized_assertMarker _ _).map fun _ _ => .null) ?_
  refine .ite (.fail _) ?_
  refine .ite (((sized_assertMarker _ _).bind fun _ _ => sized_decodeAmf0LongString _).map fun _ hlen => .string hlen) ?_
  refine .ite (sized_decodeAmf0TypedObject h _) ?_
  exact .ite sized_decodeAmf3 (.fail _)

end

theorem sized_decodeAmf0 : Sized Fitting decodeAmf0 :=
  Ensures.recurse Decoding.left fun _ h => sized_readByte.bind fun marker _ => sized_amf0Value h marker

end Amf

end Livego
