import Livego.AmfEncoder0
import Livego.AmfTermination

/-! `MetaDataReform`, which puts `@setDataFrame` before the metadata of a publisher or takes it off. -/

namespace Livego

open Fallible Call

namespace Amf

def add : Nat := 0x0
def del : Nat := 0x3

def setDataFrame : Bytes := lit "@setDataFrame"

/-- What `init` encodes. -/
def setFrameFrame : Bytes :=
  match encodeAmf0 (.string setDataFrame) [] with
  | .ok _ b => b
  | _ => []

/-- The state is the caller's, and not touched. -/
def metaDataReform {σ : Type} (p : Bytes) (flag : Nat) : Call GoError σ Bytes := fun s =>
  if flag = add then
    match decode 0 ⟨{}, ⟨.bytesReader, p⟩⟩ with
    | .ok (.string vv) _ => .ok (if vv ≠ setDataFrame then setFrameFrame ++ p else p) s
    | .ok _ _ => .err (.errorf "setFrameFrame error") s
    | .err e _ => .err e s
    | .panic f => .panic f
    | .diverge => .diverge
  else if flag = del then
    match decode 0 ⟨{}, ⟨.bytesReader, p⟩⟩ with
    | .ok (.string vv) _ =>
      if vv = setDataFrame then
        if p.length < setFrameFrame.length then .panic .sliceBounds else .ok (p.drop setFrameFrame.length) s
      else .ok p s
    | .ok _ _ => .err (.errorf "metadata error") s
    | .err e _ => .err e s
    | .panic f => .panic f
    | .diverge => .diverge
  else .err (.errorf s!"invalid flag:{flag}") s

/-- The payload begins with a value that is decoded to a string. -/
def BeginsWithString (p : Bytes) : Prop := ∃ vv t, decode 0 ⟨{}, ⟨.bytesReader, p⟩⟩ = .ok (.string vv) t

/-! ### The bytes that a string takes -/

open Decoding (left)

variable {s t : Decoding}

theorem left_eq_of_unread {front : Bytes} (h : s.unread = front ++ t.unread) : s.left = front.length + t.left := by
  have hlength := congrArg List.length h
  rwa [List.length_append] at hlength

theorem read_ok {n : Nat} {v : Bytes} (h : read n s = .ok v t) : v = s.unread.take n ∧ t = s.skip n := by
  unfold read at h
  split_ifs at h
  cases h
  exact ⟨rfl, rfl⟩

theorem readBytes_ok {n : Nat} {v : Bytes} (h : readBytes n s = .ok v t) :
    v.length = n ∧ s.unread = v ++ t.unread ∧ t = s.skip n := by
  obtain ⟨bytes, u, hread, hrest⟩ := bind_eq_ok.mp h
  obtain ⟨rfl, rfl⟩ := read_ok hread
  split_ifs at hrest with hlen
  · cases hrest
  · cases hrest
    exact ⟨Decidable.not_not.mp hlen, (List.take_append_drop n s.unread).symm, rfl⟩

theorem readByte_ok {b : UInt8} (h : readByte s = .ok b t) : s.unread = b :: t.unread ∧ t = s.skip 1 := by
  obtain ⟨bytes, u, hread, hrest⟩ := bind_eq_ok.mp h
  obtain ⟨hlength, hunread, rfl⟩ := readBytes_ok hread
  cases hrest
  obtain ⟨b, rfl⟩ := List.length_eq_one_iff.mp hlength
  exact ⟨hunread, rfl⟩

theorem readUint_ok {n v : Nat} (h : readUint n s = .ok v t) :
    n ≤ s.left ∧ v = Endian.beNat (s.unread.take n) ∧ t = s.skip n := by
  unfold readUint at h
  split_ifs at h with hlen
  cases h
  exact ⟨Nat.le_of_not_lt hlen, rfl, rfl⟩

/-- The reads that a string of AMF0 is made of. -/
theorem stringReads_ok {n : Nat} {length value : String} {v : Bytes}
    (h : (wrap length (readUint n) >>= fun length => wrap value (readBytes length)) s = .ok v t) :
    ∃ header, header.length = n ∧ Endian.beNat header = v.length ∧ s.unread = header ++ (v ++ t.unread) := by
  obtain ⟨m, u, hlength, hvalue⟩ := bind_eq_ok.mp h
  obtain ⟨hle, rfl, rfl⟩ := readUint_ok (mapErr_eq_ok.mp hlength)
  obtain ⟨hv, hunread, -⟩ := readBytes_ok (mapErr_eq_ok.mp hvalue)
  refine ⟨s.unread.take n, List.length_take_of_le hle, hv.symm, ?_⟩
  rw [← hunread]
  exact (List.take_append_drop n s.unread).symm

/-- What is not read is zero, so that a string without zeros has been read. -/
theorem fill_whole {n : Nat} {v : Bytes} (h : fill n s = .ok v t) (hzero : 0 ∉ v) :
    v.length = n ∧ s.unread = v ++ t.unread := by
  obtain ⟨buf, u, hread, hrest⟩ := bind_eq_ok.mp h
  obtain ⟨rfl, rfl⟩ := read_ok hread
  cases hrest
  have hnone : n - (s.unread.take n).length = 0 := by
    by_contra hpos
    exact hzero (List.mem_append_right _ (List.mem_replicate.mpr ⟨hpos, rfl⟩))
  rw [hnone, List.replicate_zero, List.append_nil]
  have hle := List.length_take_le n s.unread
  exact ⟨by omega, (List.take_append_drop n s.unread).symm⟩

theorem u29Loop_ok {i result v : Nat} (h : u29Loop i result s = .ok v t) :
    t.left < s.left ∧ t.decoder = s.decoder := by
  induction i generalizing s result with
  | zero =>
      obtain ⟨b, u, hb, hrest⟩ := bind_eq_ok.mp h
      obtain ⟨hunread, rfl⟩ := readByte_ok hb
      cases hrest
      have hleft := @left_eq_of_unread s _ [b] hunread
      rw [List.length_singleton] at hleft
      exact ⟨by omega, rfl⟩
  | succ i ih =>
      obtain ⟨b, u, hb, hrest⟩ := bind_eq_ok.mp h
      obtain ⟨hunread, rfl⟩ := readByte_ok hb
      have hleft := @left_eq_of_unread s _ [b] hunread
      rw [List.length_singleton] at hleft
      split_ifs at hrest
      · cases hrest
        exact ⟨by omega, rfl⟩
      · obtain ⟨hlt, hdecoder⟩ := ih hrest
        exact ⟨by omega, hdecoder⟩

/-- A reference or a length stands in one byte, or goes on after its first. -/
theorem decodeReferenceInt_ok {context : String} {ref : ReferenceInt} (h : wrap context decodeReferenceInt s = .ok ref t) :
    t.decoder = s.decoder ∧ ∃ b rest, s.unread = b :: rest ∧
      (b &&& 0x80 = 0 ∧ t.unread = rest ∧ ref = ⟨(b &&& 0x7f).toNat &&& 1 = 0, (b &&& 0x7f).toNat >>> 1⟩ ∨
        b &&& 0x80 ≠ 0 ∧ t.left < rest.length) := by
  obtain ⟨u29, u, hu29, hrest⟩ := bind_eq_ok.mp (mapErr_eq_ok.mp h)
  cases hrest
  have hu29 := mapErr_eq_ok.mp hu29
  rw [decodeU29, u29Loop] at hu29
  obtain ⟨b, w, hb, hrest⟩ := bind_eq_ok.mp hu29
  obtain ⟨hunread, rfl⟩ := readByte_ok hb
  rw [Nat.zero_shiftLeft, Nat.zero_add] at hrest
  split_ifs at hrest with hlast
  · cases hrest
    exact ⟨rfl, b, _, hunread, .inl ⟨hlast, rfl, rfl⟩⟩
  · obtain ⟨hlt, hdecoder⟩ := u29Loop_ok hrest
    exact ⟨hdecoder, b, _, hunread, .inr ⟨hlast, hlt⟩⟩

theorem index_nil {α : Type} {table : Decoder → List α} {i : Nat} (h : table s.decoder = []) :
    index table i s = .panic .indexOutOfRange := by
  unfold index
  rw [h]
  rfl

/-- From `s` to `t` stands a length in one byte and the string, or something longer. -/
def LengthThen (v : Bytes) (s t : Decoding) : Prop :=
  ∃ b rest, s.unread = b :: rest ∧ (b &&& 0x80 = 0 ∧ (b &&& 0x7f).toNat = 2 * v.length + 1 ∧ rest = v ++ t.unread ∨
    b &&& 0x80 ≠ 0 ∧ t.left + v.length < rest.length)

theorem LengthThen.le {v : Bytes} (h : LengthThen v s t) : t.left + v.length + 1 ≤ s.left := by
  obtain ⟨b, rest, hunread, ⟨-, -, rfl⟩ | ⟨-, hlt⟩⟩ := h
  · have hleft := @left_eq_of_unread s t (b :: v) hunread
    rw [List.length_cons] at hleft
    omega
  · have hleft : s.left = rest.length + 1 := congrArg List.length hunread
    omega

/-- The reads that a string of AMF3 is made of, where the table that it might be taken from is empty. -/
theorem lengthThen_of_ok {context text : String} {v : Bytes} {ref : ReferenceInt} {u w : Decoding}
    (href : wrap context decodeReferenceInt s = .ok ref u) (hnot : ¬ref.isRef = true)
    (hfill : wrap text (fill ref.refVal) u = .ok v w) (hrest : t.r = w.r) (hzero : 0 ∉ v) : LengthThen v s t := by
  obtain ⟨hlength, hunread⟩ := fill_whole (mapErr_eq_ok.mp hfill) hzero
  have hsame : t.unread = w.unread := congrArg Reader.unread hrest
  obtain ⟨-, b, rest, hs, ⟨hlast, rfl, rfl⟩ | ⟨hmore, hlt⟩⟩ := decodeReferenceInt_ok href
  · refine ⟨b, _, hs, .inl ⟨hlast, ?_, by rw [hunread, hsame]⟩⟩
    have hodd : (b &&& 0x7f).toNat &&& 1 ≠ 0 := fun heven => hnot (decide_eq_true heven)
    rw [Nat.and_one_is_mod] at hodd
    have hhalf : (b &&& 0x7f).toNat / 2 = v.length := hlength.symm
    omega
  · have hleft := left_eq_of_unread hunread
    have hleft' : t.left = w.left := congrArg List.length hsame
    exact ⟨b, rest, hs, .inr ⟨hmore, by omega⟩⟩

theorem stored_ok {result v : Bytes} {store : Decoder → Decoder}
    (h : (if result ≠ [] then record store >>= fun _ => pure result else pure result) s = .ok v t) :
    v = result ∧ t.r = s.r := by
  split_ifs at h
  · obtain ⟨_, _, hstored, hpure⟩ := bind_eq_ok.mp h
    cases hstored
    cases hpure
    exact ⟨rfl, rfl⟩
  · cases h
    exact ⟨rfl, rfl⟩

theorem lengthThen_decodeAmf3String {v : Bytes} (hfresh : s.decoder.stringRefs = [])
    (h : decodeAmf3String false s = .ok v t) (hzero : 0 ∉ v) : LengthThen v s t := by
  rw [decodeAmf3String, assertMarker_false, pure_bind] at h
  obtain ⟨ref, u, href, hrest⟩ := bind_eq_ok.mp h
  split_ifs at hrest with hisRef
  · rw [index_nil (by rw [(decodeReferenceInt_ok href).1, hfresh])] at hrest
    cases hrest
  · obtain ⟨result, w, hfill, hpush⟩ := bind_eq_ok.mp hrest
    obtain ⟨rfl, hr⟩ := stored_ok hpush
    exact lengthThen_of_ok href hisRef hfill hr hzero

theorem lengthThen_decodeAmf3Xml {v : Bytes} (hfresh : s.decoder.objectRefs = [])
    (h : decodeAmf3Xml false s = .ok v t) (hzero : 0 ∉ v) : LengthThen v s t := by
  have hmarker : assertXmlMarker false = pure () := rfl
  rw [decodeAmf3Xml, hmarker, pure_bind] at h
  obtain ⟨ref, u, href, hrest⟩ := bind_eq_ok.mp h
  split_ifs at hrest with hisRef
  · rw [bind_of_panic (index_nil (by rw [(decodeReferenceInt_ok href).1, hfresh]))] at hrest
    cases hrest
  · obtain ⟨result, w, hfill, hpush⟩ := bind_eq_ok.mp hrest
    obtain ⟨rfl, hr⟩ := stored_ok hpush
    exact lengthThen_of_ok href hisRef hfill hr hzero

/-- An object is a string only where it is an `ArrayCollection` around one. -/
theorem type_of_decodeObjectBody {x : Dec Value} {trait : Trait} {v : Bytes}
    (h : decodeObjectBody x trait s = .ok (.string v) t) : trait.type = lit "flex.messaging.io.ArrayCollection" := by
  unfold decodeObjectBody at h
  split_ifs at h with hexternalizable
  · unfold decodeExternalizable at h
    split_ifs at h with hdsa hdsk hcollection
    · obtain ⟨_, _, -, hpure⟩ := bind_eq_ok.mp h
      cases hpure
    · obtain ⟨_, _, -, hpure⟩ := bind_eq_ok.mp h
      cases hpure
    · exact hcollection
    · cases h
  all_goals
    obtain ⟨_, _, -, hrest⟩ := bind_eq_ok.mp h
    obtain ⟨_, _, -, hpure⟩ := bind_eq_ok.mp hrest
    cases hpure

theorem length_of_decodeTrait {refVal : Nat} {trait : Trait} (hstrings : s.decoder.stringRefs = [])
    (htraits : s.decoder.traitRefs = []) (h : decodeTrait refVal s = .ok trait t) (hzero : 0 ∉ trait.type) :
    t.left + trait.type.length + 1 ≤ s.left := by
  unfold decodeTrait at h
  split_ifs at h with hisRef
  · rw [index_nil htraits] at h
    cases h
  · obtain ⟨cls, u, hcls, hrest⟩ := bind_eq_ok.mp h
    obtain ⟨properties, w, hproperties, hrest⟩ := bind_eq_ok.mp hrest
    obtain ⟨_, _, hpush, hpure⟩ := bind_eq_ok.mp hrest
    cases hpush
    cases hpure
    have hle := (lengthThen_decodeAmf3String hstrings (mapErr_eq_ok.mp hcls) hzero).le
    have hle' : w.left ≤ u.left :=
      Settled.le_of_ok (fun n => (settled_decodeAmf3String (n := n) false).mapErr.times _) hproperties
    change w.left + cls.length + 1 ≤ s.left
    omega

theorem length_of_decodeAmf3Object {v : Bytes} (hfresh : s.decoder = {})
    (h : decodeAmf3Object decodeAmf3 false s = .ok (.string v) t) : t.left + 15 ≤ s.left := by
  rw [decodeAmf3Object, assertMarker_false, pure_bind] at h
  obtain ⟨ref, u, href, hrest⟩ := bind_eq_ok.mp h
  obtain ⟨hdecoder, -⟩ := decodeReferenceInt_ok href
  have hlt : u.left ≤ s.left := Settled.le_of_ok (fun n => settled_ref (n := n)) href
  rw [hfresh] at hdecoder
  split_ifs at hrest with hisRef
  · rw [index_nil (by rw [hdecoder])] at hrest
    cases hrest
  · obtain ⟨trait, w, htrait, hrest⟩ := bind_eq_ok.mp hrest
    obtain ⟨_, w', hpush, hbody⟩ := bind_eq_ok.mp hrest
    have htype := type_of_decodeObjectBody hbody
    have hle := length_of_decodeTrait (by rw [hdecoder]) (by rw [hdecoder]) htrait (by rw [htype]; decide)
    have hle' : w'.left ≤ w.left := Settled.le_of_ok (fun n => settled_pushObject (n := n) .null) hpush
    have hle'' : t.left ≤ w'.left :=
      Settled.le_of_ok (fun n => settled_decodeObjectBody (settled_decodeAmf3 (n := n)) trait) hbody
    have hlength : trait.type.length = 33 := by rw [htype]; decide
    omega

/-- Where the call results in the string `v`, `P` holds of the state that it leaves. -/
def OnString (v : Bytes) (P : Decoding → Prop) (s : Decoding) (x : Dec Value) : Prop := ∀ t, x s = .ok (.string v) t → P t

namespace OnString

variable {v : Bytes} {P : Decoding → Prop} {x y : Dec Value}

theorem ite {c : Prop} [Decidable c] (hx : c → OnString v P s x) (hy : ¬c → OnString v P s y) :
    OnString v P s (if c then x else y) := by
  split
  · next hc => exact hx hc
  · next hc => exact hy hc

theorem fail (e : GoError) : OnString v P s (Call.fail e) := fun _ h => by cases h

theorem null : OnString v P s (pure .null) := fun _ h => by cases h

theorem string {x : Dec Bytes} (hx : ∀ t, x s = .ok v t → P t) : OnString v P s (do return .string (← x)) := by
  intro t h
  obtain ⟨v, u, hv, hpure⟩ := bind_eq_ok.mp h
  cases hpure
  exact hx t hv

theorem other {α : Type} {x : Dec α} {f : α → Value} (hf : ∀ a, f a ≠ .string v) :
    OnString v P s (do return f (← x)) := by
  intro t h
  obtain ⟨a, u, -, hpure⟩ := bind_eq_ok.mp h
  exact absurd (Outcome.ok.inj hpure).1 (hf a)

end OnString

/-- What stands between `s` and `t` where a value of AMF3 is a string. -/
def StringOf3 (marker : UInt8) (v : Bytes) (s t : Decoding) : Prop :=
  (marker = amf3StringMarker ∨ marker = amf3XmldocMarker ∨ marker = amf3XmlstringMarker) ∧ LengthThen v s t ∨
    marker = amf3ObjectMarker ∧ t.left + 15 ≤ s.left

theorem onString_amf3Value {marker : UInt8} {v : Bytes} (hfresh : s.decoder = {}) (hzero : 0 ∉ v) :
    OnString v (StringOf3 marker v s) s (amf3Value decodeAmf3 marker) := by
  refine .ite (fun _ => .null) fun _ => .ite (fun _ => .null) fun _ => ?_
  refine .ite (fun _ => .other fun _ => nofun) fun _ => .ite (fun _ => .other fun _ => nofun) fun _ => ?_
  refine .ite (fun _ => .other fun _ => nofun) fun _ => .ite (fun _ => .other fun _ => nofun) fun _ => ?_
  refine .ite (fun hm => .string fun t h => ?_) fun _ => .ite (fun hm => .string fun t h => ?_) fun _ => ?_
  · exact .inl ⟨.inl hm, lengthThen_decodeAmf3String (by rw [hfresh]) h hzero⟩
  · exact .inl ⟨.inr (.inl hm), lengthThen_decodeAmf3Xml (by rw [hfresh]) h hzero⟩
  refine .ite (fun _ => .other fun _ => nofun) fun _ => .ite (fun _ => .other fun _ => nofun) fun _ => ?_
  refine .ite (fun hm t h => .inr ⟨hm, length_of_decodeAmf3Object hfresh h⟩) fun _ => ?_
  refine .ite (fun hm => .string fun t h => ?_) fun _ => .ite (fun _ => .other fun _ => nofun) fun _ => .fail _
  exact .inl ⟨.inr (.inr hm), lengthThen_decodeAmf3Xml (by rw [hfresh]) h hzero⟩

/-- What stands between `s` and `t` where a value of AMF0 is a string. -/
def StringOf0 (marker : UInt8) (v : Bytes) (s t : Decoding) : Prop :=
  (∃ header : Bytes, (marker = amf0StringMarker ∧ header.length = 2 ∨
      (marker = amf0LongStringMarker ∨ marker = amf0XmlDocumentMarker) ∧ header.length = 4) ∧
      Endian.beNat header = v.length ∧ s.unread = header ++ (v ++ t.unread)) ∨
    marker = amf0AcmplusObjectMarker ∧ ∃ marker' u, s.unread = marker' :: u.unread ∧ StringOf3 marker' v u t

theorem stringOf3_decodeAmf3 {v : Bytes} (hfresh : s.decoder = {}) (hzero : 0 ∉ v)
    (h : decodeAmf3 s = .ok (.string v) t) : ∃ marker u, s.unread = marker :: u.unread ∧ StringOf3 marker v u t := by
  rw [decodeAmf3_eq] at h
  obtain ⟨marker, u, hmarker, hvalue⟩ := bind_eq_ok.mp h
  obtain ⟨hunread, rfl⟩ := readByte_ok hmarker
  exact ⟨marker, _, hunread, onString_amf3Value (by exact hfresh) hzero t hvalue⟩

theorem onString_amf0Value {x : Dec Value} {marker : UInt8} {v : Bytes} (hfresh : s.decoder = {}) (hzero : 0 ∉ v) :
    OnString v (StringOf0 marker v s) s (amf0Value x marker) := by
  refine .ite (fun _ => .other fun _ => nofun) fun _ => .ite (fun _ => .other fun _ => nofun) fun _ => ?_
  refine .ite (fun hm => .string fun t h => ?_) fun _ => .ite (fun _ => .other fun _ => nofun) fun _ => ?_
  · obtain ⟨header, hlength, hv, hunread⟩ := stringReads_ok h
    exact .inl ⟨header, .inl ⟨hm, hlength⟩, hv, hunread⟩
  have hlong : marker = amf0LongStringMarker ∨ marker = amf0XmlDocumentMarker →
      OnString v (StringOf0 marker v s) s (do return .string (← decodeAmf0LongString false)) := by
    refine fun hm => .string fun t h => ?_
    obtain ⟨header, hlength, hv, hunread⟩ := stringReads_ok h
    exact .inl ⟨header, .inr ⟨hm, hlength⟩, hv, hunread⟩
  refine .ite (fun _ => .fail _) fun _ => .ite (fun _ => .null) fun _ => .ite (fun _ => .null) fun _ => ?_
  refine .ite (fun _ => .fail _) fun _ => .ite (fun _ => .other fun _ => nofun) fun _ => ?_
  refine .ite (fun _ => .other fun _ => nofun) fun _ => .ite (fun _ => .other fun _ => nofun) fun _ => ?_
  refine .ite (fun hm => hlong (.inl hm)) fun _ => .ite (fun _ => .null) fun _ => .ite (fun _ => .fail _) fun _ => ?_
  refine .ite (fun hm => hlong (.inr hm)) fun _ => .ite (fun _ t h => ?_) fun _ => ?_
  · rw [decodeAmf0TypedObject, assertMarker_false, pure_bind] at h
    obtain ⟨_, _, -, hrest⟩ := bind_eq_ok.mp h
    obtain ⟨_, _, -, hpure⟩ := bind_eq_ok.mp hrest
    cases hpure
  · exact .ite (fun hm t h => .inr ⟨hm, stringOf3_decodeAmf3 hfresh hzero h⟩) fun _ => .fail _

/-- How a string stands at the beginning of an input. -/
theorem stringOf0_decode {p v : Bytes} (hzero : 0 ∉ v) (h : decode 0 ⟨{}, ⟨.bytesReader, p⟩⟩ = .ok (.string v) t) :
    ∃ marker s, p = marker :: s.unread ∧ StringOf0 marker v s t := by
  change decodeAmf0 _ = _ at h
  rw [decodeAmf0_eq] at h
  obtain ⟨marker, u, hmarker, hvalue⟩ := bind_eq_ok.mp h
  obtain ⟨hunread, rfl⟩ := readByte_ok hmarker
  exact ⟨marker, _, hunread, onString_amf0Value rfl hzero t hvalue⟩

/-! ### The string `@setDataFrame` -/

theorem zero_notMem_setDataFrame : 0 ∉ setDataFrame := by decide

theorem length_setDataFrame : setDataFrame.length = 13 := by decide

/-- The encodings of `@setDataFrame` that are as long as the one `init` writes. -/
def setDataFrameForms : List Bytes :=
  setFrameFrame :: [amf3StringMarker, amf3XmldocMarker, amf3XmlstringMarker].map fun marker =>
    amf0AcmplusObjectMarker :: marker :: 0x1b :: setDataFrame

theorem setFrameFrame_eq : setFrameFrame = amf0StringMarker :: [0x00, 0x0d] ++ setDataFrame := by decide

theorem length_of_mem_setDataFrameForms {form : Bytes} (h : form ∈ setDataFrameForms) : form.length = 16 := by
  revert h form
  decide

/-- A payload that begins with one of these forms is told by its first bytes. -/
theorem beginsWithForm_cons {marker : UInt8} {p : Bytes} (h : ∃ form ∈ setDataFrameForms, form <+: marker :: p) :
    marker = amf0StringMarker ∨ marker = amf0AcmplusObjectMarker ∧ ∃ marker' p', p = marker' :: 0x1b :: p' ∧
      marker' ∈ [amf3StringMarker, amf3XmldocMarker, amf3XmlstringMarker] := by
  obtain ⟨form, hform, rest, hp⟩ := h
  rw [setDataFrameForms, setFrameFrame_eq, List.mem_cons, List.mem_map] at hform
  rcases hform with rfl | ⟨marker', hmarker', rfl⟩
  · cases hp
    exact .inl rfl
  · cases hp
    exact .inr ⟨rfl, marker', _, rfl, hmarker'⟩

theorem eq_of_low_bits {b : UInt8} (hlast : b &&& 0x80 = 0) (hbits : (b &&& 0x7f).toNat = 27) : b = 0x1b := by
  have hlow : b.toNat % 128 = 27 := (Nat.and_two_pow_sub_one_eq_mod b.toNat 7).symm.trans hbits
  have hlt := b.toNat_lt
  obtain hb | hb : b.toNat = 27 ∨ b.toNat = 155 := by omega
  · exact UInt8.toNat_inj.mp hb
  · obtain rfl : b = 155 := UInt8.toNat_inj.mp hb
    exact absurd hlast (by decide)

/-- The value `@setDataFrame` stands in one of these forms, or takes more bytes than they do. -/
theorem decode_setDataFrame {p : Bytes} (h : decode 0 ⟨{}, ⟨.bytesReader, p⟩⟩ = .ok (.string setDataFrame) t) :
    (∃ form ∈ setDataFrameForms, p = form ++ t.unread) ∨
      t.left + 17 ≤ p.length ∧ ¬∃ form ∈ setDataFrameForms, form <+: p := by
  have hlength := length_setDataFrame
  obtain ⟨marker, s, rfl, ⟨header, hheader, hv, hunread⟩ | ⟨rfl, marker', u, hunread, hstring⟩⟩ :=
    stringOf0_decode zero_notMem_setDataFrame h
  · rcases hheader with ⟨rfl, htwo⟩ | ⟨hm, hfour⟩
    · left
      have hzero : header = [0x00, 0x0d] := Endian.beNat_inj htwo (hv.trans hlength)
      exact ⟨setFrameFrame, List.mem_cons_self, by rw [hunread, hzero, setFrameFrame_eq]; rfl⟩
    · right
      have hleft := @left_eq_of_unread s t (header ++ setDataFrame) (by rw [hunread, List.append_assoc])
      rw [List.length_append] at hleft
      refine ⟨by rw [List.length_cons]; change t.left + 17 ≤ s.left + 1; omega, fun hform => ?_⟩
      rcases beginsWithForm_cons hform with hstring | ⟨hacmplus, -⟩
      · rcases hm with rfl | rfl <;> cases hstring
      · rcases hm with rfl | rfl <;> cases hacmplus
  · have hleft := @left_eq_of_unread s u [marker'] hunread
    rw [List.length_singleton] at hleft
    rcases hstring with ⟨hm, b, rest, hu, ⟨hlast, hb, rfl⟩ | ⟨hmore, hlt⟩⟩ | ⟨rfl, hle⟩
    · left
      have hmem : marker' ∈ [amf3StringMarker, amf3XmldocMarker, amf3XmlstringMarker] := by simpa using hm
      refine ⟨_, List.mem_cons_of_mem _ (List.mem_map_of_mem hmem), ?_⟩
      rw [hunread, hu, eq_of_low_bits hlast (hb.trans (congrArg (2 * · + 1) hlength))]
      rfl
    · right
      have hu' : u.left = rest.length + 1 := congrArg List.length hu
      refine ⟨by rw [List.length_cons]; change t.left + 17 ≤ s.left + 1; omega, fun hform => ?_⟩
      rcases beginsWithForm_cons hform with hstring | ⟨-, marker', p', hp, -⟩
      · cases hstring
      · rw [hunread, hu] at hp
        obtain ⟨-, hb⟩ := List.cons.inj hp
        obtain ⟨rfl, -⟩ := List.cons.inj hb
        exact hmore rfl
    · right
      refine ⟨by rw [List.length_cons]; change t.left + 17 ≤ s.left + 1; omega, fun hform => ?_⟩
      rcases beginsWithForm_cons hform with hstring | ⟨-, marker', p', hp, hmem⟩
      · cases hstring
      · rw [hunread] at hp
        obtain ⟨rfl, -⟩ := List.cons.inj hp
        exact absurd hmem (by decide)

theorem length_of_decode {p : Bytes} (h : decode 0 ⟨{}, ⟨.bytesReader, p⟩⟩ = .ok (.string setDataFrame) t) :
    16 ≤ p.length := by
  rcases decode_setDataFrame h with ⟨form, hform, rfl⟩ | ⟨hle, -⟩
  · rw [List.length_append, length_of_mem_setDataFrameForms hform]
    exact Nat.le_add_right _ _
  · omega

theorem length_setFrameFrame : setFrameFrame.length = 16 := by decide

variable {σ : Type}

/-- What is taken off a payload, if the payload can be reformed. -/
def withoutSetDataFrame (p : Bytes) : Bytes :=
  match decode 0 ⟨{}, ⟨.bytesReader, p⟩⟩ with
  | .ok (.string vv) _ => if vv = setDataFrame then p.drop setFrameFrame.length else p
  | _ => p

theorem metaDataReform_del_of_beginsWithString {p : Bytes} (h : BeginsWithString p) (s : σ) :
    metaDataReform p del s = .ok (withoutSetDataFrame p) s := by
  obtain ⟨vv, t, hdecode⟩ := h
  unfold metaDataReform withoutSetDataFrame
  rw [if_neg (by decide), if_pos rfl, hdecode]
  dsimp only
  by_cases hvv : vv = setDataFrame
  · subst hvv
    have hlong := length_of_decode hdecode
    rw [if_pos rfl, if_pos rfl, if_neg (by rw [length_setFrameFrame]; omega)]
  · rw [if_neg hvv, if_neg hvv]

/-- Only a payload that begins with a string is reformed. -/
theorem metaDataReform_del_eq_ok {p r : Bytes} {s t : σ} (h : metaDataReform p del s = .ok r t) :
    BeginsWithString p := by
  unfold metaDataReform at h
  rw [if_neg (by decide), if_pos rfl] at h
  unfold BeginsWithString
  split at h
  · next vv u hdecode => exact ⟨vv, u, hdecode⟩
  all_goals cases h

/-! ### The payloads that begin with a string -/

/-- A length in `n` bytes and a string that is as long. The reader wants a byte even for an empty one. -/
def HoldsString (n : Nat) (p : Bytes) : Prop := n < p.length ∧ n + Endian.beNat (p.take n) ≤ p.length

theorem readBytes_of_le {n : Nat} (hpos : 0 < s.left) (h : n ≤ s.left) :
    readBytes n s = .ok (s.unread.take n) (s.skip n) := by
  have hne : s.r.unread ≠ [] := List.ne_nil_of_length_pos hpos
  have hread : read n s = .ok (s.unread.take n) (s.skip n) := if_neg fun hempty => hne hempty.1
  have hlength : (s.unread.take n).length = n := List.length_take_of_le h
  rw [readBytes, bind_of_ok hread, hlength, if_neg (fun hne => hne rfl)]
  rfl

theorem readBytes_pos {n : Nat} {v : Bytes} (hkind : s.r.kind = .bytesReader) (h : readBytes n s = .ok v t) :
    0 < s.left := by
  obtain ⟨bytes, u, hread, -⟩ := bind_eq_ok.mp h
  unfold read at hread
  split_ifs at hread with hempty
  refine List.length_pos_iff.mpr fun hnil => hempty ⟨hnil, Or.inl hkind⟩

/-- The reads that a string of AMF0 is made of. -/
theorem holdsString_iff {n : Nat} {length value : String} (hkind : s.r.kind = .bytesReader) :
    (∃ v t, (wrap length (readUint n) >>= fun length => wrap value (readBytes length)) s = .ok v t) ↔
      HoldsString n s.unread := by
  constructor
  · rintro ⟨v, t, h⟩
    obtain ⟨m, u, hlength, hvalue⟩ := bind_eq_ok.mp h
    obtain ⟨hle, rfl, rfl⟩ := readUint_ok (mapErr_eq_ok.mp hlength)
    have hpos := readBytes_pos (by exact hkind) (mapErr_eq_ok.mp hvalue)
    obtain ⟨hv, hunread, -⟩ := readBytes_ok (mapErr_eq_ok.mp hvalue)
    have hleft := left_eq_of_unread hunread
    rw [Decoding.left_skip] at hpos hleft
    show n < s.left ∧ n + Endian.beNat (s.unread.take n) ≤ s.left
    omega
  · rintro ⟨hlt, hle⟩
    change n < s.left at hlt
    change _ ≤ s.left at hle
    have hlength := readUint_of_le (Nat.le_of_lt hlt)
    have hpos : 0 < (s.skip n).left := by
      rw [Decoding.left_skip]
      omega
    have hfits : Endian.beNat (s.unread.take n) ≤ (s.skip n).left := by
      rw [Decoding.left_skip]
      omega
    have hvalue := readBytes_of_le hpos hfits
    exact ⟨_, _, bind_eq_ok.mpr ⟨_, _, mapErr_of_ok hlength, mapErr_of_ok hvalue⟩⟩

/-- The payload that follows the marker of AMF3 begins with a string of AMF3. -/
def BeginsWithAmf3String (p : Bytes) : Prop := ∃ vv t, decodeAmf3 ⟨{}, ⟨.bytesReader, p⟩⟩ = .ok (.string vv) t

/-- Whether a value begins with a string, by its marker. -/
def MarkedString (marker : UInt8) (p : Bytes) : Prop :=
  marker = amf0StringMarker ∧ HoldsString 2 p ∨
    (marker = amf0LongStringMarker ∨ marker = amf0XmlDocumentMarker) ∧ HoldsString 4 p ∨
      marker = amf0AcmplusObjectMarker ∧ BeginsWithAmf3String p

/-- Whether a call results in a string. -/
def ResultsInString (s : Decoding) (x : Dec Value) : Prop := ∃ vv t, x s = .ok (.string vv) t

namespace ResultsInString

variable {P : Prop}

theorem ite_iff {c : Prop} [Decidable c] {x y : Dec Value} (hx : c → (ResultsInString s x ↔ P))
    (hy : ¬c → (ResultsInString s y ↔ P)) : ResultsInString s (if c then x else y) ↔ P := by
  split
  · next hc => exact hx hc
  · next hc => exact hy hc

theorem string_iff {x : Dec Bytes} : ResultsInString s (do return .string (← x)) ↔ ∃ v t, x s = .ok v t := by
  constructor
  · rintro ⟨vv, t, h⟩
    obtain ⟨v, u, hv, -⟩ := bind_eq_ok.mp h
    exact ⟨v, u, hv⟩
  · rintro ⟨v, t, h⟩
    exact ⟨v, t, bind_of_ok h⟩

theorem not_other {α : Type} {x : Dec α} {f : α → Value} (hf : ∀ a v, f a ≠ .string v) :
    ¬ResultsInString s (do return f (← x)) := by
  rintro ⟨vv, t, h⟩
  obtain ⟨v, u, -, hpure⟩ := bind_eq_ok.mp h
  exact hf v vv (Outcome.ok.inj hpure).1

theorem not_fail {e : GoError} : ¬ResultsInString s (Call.fail e) := by
  rintro ⟨vv, t, h⟩
  cases h

theorem not_null : ¬ResultsInString s (pure .null) := by
  rintro ⟨vv, t, h⟩
  cases h

theorem not_typedObject {x : Dec Value} : ¬ResultsInString s (decodeAmf0TypedObject x false) := by
  rintro ⟨vv, t, h⟩
  rw [decodeAmf0TypedObject, assertMarker_false, pure_bind] at h
  obtain ⟨_, _, -, hrest⟩ := bind_eq_ok.mp h
  obtain ⟨_, _, -, hpure⟩ := bind_eq_ok.mp hrest
  cases hpure

end ResultsInString

open ResultsInString

theorem resultsInString_amf0Value {marker : UInt8} {p : Bytes} :
    ResultsInString ⟨{}, ⟨.bytesReader, p⟩⟩ (amf0Value decodeAmf0 marker) ↔ MarkedString marker p := by
  have hother : ∀ m, m ∉ [amf0StringMarker, amf0LongStringMarker, amf0XmlDocumentMarker, amf0AcmplusObjectMarker] →
      ∀ {x : Dec Value}, ¬ResultsInString ⟨{}, ⟨.bytesReader, p⟩⟩ x → marker = m →
      (ResultsInString ⟨{}, ⟨.bytesReader, p⟩⟩ x ↔ MarkedString marker p) := by
    rintro m hm x hx rfl
    simp only [List.mem_cons, List.not_mem_nil, or_false, not_or] at hm
    simp [MarkedString, hm, hx]
  have hlong : (marker = amf0LongStringMarker ∨ marker = amf0XmlDocumentMarker) →
      (ResultsInString ⟨{}, ⟨.bytesReader, p⟩⟩ (do return .string (← decodeAmf0LongString false)) ↔
        MarkedString marker p) := by
    intro hmarker
    rw [string_iff]
    refine (holdsString_iff (s := ⟨{}, ⟨.bytesReader, p⟩⟩) rfl).trans ?_
    rcases hmarker with rfl | rfl
    · simp [MarkedString, amf0LongStringMarker, amf0StringMarker, amf0AcmplusObjectMarker, Decoding.unread]
    · simp [MarkedString, amf0XmlDocumentMarker, amf0StringMarker, amf0AcmplusObjectMarker, Decoding.unread]
  refine ite_iff (hother _ (by decide) (not_other fun _ _ => nofun)) fun _ => ?_
  refine ite_iff (hother _ (by decide) (not_other fun _ _ => nofun)) fun _ => ?_
  refine ite_iff (fun hmarker => ?_) fun hstring => ?_
  · rw [string_iff]
    refine (holdsString_iff (s := ⟨{}, ⟨.bytesReader, p⟩⟩) rfl).trans ?_
    simp [MarkedString, hmarker, amf0LongStringMarker, amf0XmlDocumentMarker, amf0StringMarker,
      amf0AcmplusObjectMarker, Decoding.unread]
  refine ite_iff (hother _ (by decide) (not_other fun _ _ => nofun)) fun _ => ?_
  refine ite_iff (hother _ (by decide) not_fail) fun _ => ?_
  refine ite_iff (hother _ (by decide) not_null) fun _ => ?_
  refine ite_iff (hother _ (by decide) not_null) fun _ => ?_
  refine ite_iff (hother _ (by decide) not_fail) fun _ => ?_
  refine ite_iff (hother _ (by decide) (not_other fun _ _ => nofun)) fun _ => ?_
  refine ite_iff (hother _ (by decide) (not_other fun _ _ => nofun)) fun _ => ?_
  refine ite_iff (hother _ (by decide) (not_other fun _ _ => nofun)) fun _ => ?_
  refine ite_iff (fun hmarker => hlong (Or.inl hmarker)) fun hlongString => ?_
  refine ite_iff (hother _ (by decide) not_null) fun _ => ?_
  refine ite_iff (hother _ (by decide) not_fail) fun _ => ?_
  refine ite_iff (fun hmarker => hlong (Or.inr hmarker)) fun hxml => ?_
  refine ite_iff (hother _ (by decide) not_typedObject) fun _ => ?_
  refine ite_iff (fun hmarker => ?_) fun hacmplus => ?_
  · constructor
    · exact fun h => Or.inr (Or.inr ⟨hmarker, h⟩)
    · rintro (⟨h, -⟩ | ⟨h | h, -⟩ | ⟨-, h⟩)
      · exact absurd h hstring
      · exact absurd h hlongString
      · exact absurd h hxml
      · exact h
  · simp [MarkedString, hstring, hlongString, hxml, hacmplus, not_fail]

/-- A payload that begins with a string, a long string or an XML document and has all its bytes, or with a string of
AMF3. -/
def StringFirst (p : Bytes) : Prop := ∃ marker rest, p = marker :: rest ∧ MarkedString marker rest

theorem beginsWithString_iff (p : Bytes) : BeginsWithString p ↔ StringFirst p := by
  have hdecode : ∀ s, decode 0 s = (readMarker >>= amf0Value decodeAmf0) s := fun s => congrFun decodeAmf0_eq s
  unfold BeginsWithString
  simp only [hdecode]
  cases p with
  | nil =>
      constructor
      · rintro ⟨vv, t, h⟩
        cases h
      · rintro ⟨marker, rest, h, -⟩
        cases h
  | cons marker rest =>
      have hmarker : readMarker ⟨{}, ⟨.bytesReader, marker :: rest⟩⟩ = .ok marker ⟨{}, ⟨.bytesReader, rest⟩⟩ := rfl
      simp only [Call.bind_of_ok hmarker]
      refine resultsInString_amf0Value.trans ⟨fun h => ⟨marker, rest, rfl, h⟩, ?_⟩
      rintro ⟨_, _, heq, h⟩
      cases heq
      exact h

end Amf

end Livego
