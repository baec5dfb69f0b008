import Livego.AmfEncoder0
import Livego.AmfTermination

/-! What the AMF0 encoder writes, the AMF0 decoder reads back, up to exactly the byte where the value
ends. -/

namespace Livego

open Fallible Call

namespace Amf

/-! ### Encoding -/

def stringBytes (val : Bytes) : Bytes := Endian.beBytes 2 (val.length % 2 ^ 16) ++ val

def endBytes : Bytes := stringBytes [] ++ [amf0ObjectEndMarker]

def numberBytes (bits : UInt64) : Bytes := amf0NumberMarker :: Endian.beBytes 8 bits.toNat

mutual
/-- The encoding of a value; nothing where the encoder reports an error. -/
def amf0Bytes : Value → Bytes
  | .null => [amf0NullMarker]
  | .string str =>
    if str.length ≤ amf0StringMax then amf0StringMarker :: stringBytes str
    else amf0LongStringMarker :: (Endian.beBytes 4 (u32 str.length) ++ str)
  | .bool b => [amf0BooleanMarker, if b then 1 else 0]
  | .int n => numberBytes (Float64.ofInt n)
  | .number bits => numberBytes bits
  | .array arr => amf0StrictArrayMarker :: (Endian.beBytes 4 (u32 arr.length) ++ elementsBytes arr)
  | .bytes bs => amf0StrictArrayMarker ::
      (Endian.beBytes 4 (u32 bs.length) ++ bs.flatMap fun b => numberBytes (Float64.ofInt b.toNat))
  | .object obj => amf0ObjectMarker :: (entriesBytes obj ++ endBytes)
  | .typedObject _ _ => []
  | .time _ => []

def elementsBytes : List Value → Bytes
  | [] => []
  | v :: vs => amf0Bytes v ++ elementsBytes vs

def entriesBytes : List (Bytes × Value) → Bytes
  | [] => []
  | (k, v) :: entries => stringBytes k ++ amf0Bytes v ++ entriesBytes entries
end

def ecmaArrayBytes (obj : Object) : Bytes :=
  amf0EcmaArrayMarker :: (Endian.beBytes 4 (u32 obj.length) ++ entriesBytes obj ++ endBytes)

/-- The call appends `bs` to the buffer and counts them. -/
def Writes (x : Enc Nat) (bs : Bytes) : Prop := ∀ w, x w = .ok bs.length (w ++ bs)

/-- A value that the encoder can write. -/
inductive Encodable : Value → Prop
  | null : Encodable .null
  | bool (b : Bool) : Encodable (.bool b)
  | int (n : Int) : Encodable (.int n)
  | number (bits : UInt64) : Encodable (.number bits)
  | string (str : Bytes) : Encodable (.string str)
  | bytes (bs : Bytes) : Encodable (.bytes bs)
  | array {arr : List Value} (helements : ∀ v ∈ arr, Encodable v) : Encodable (.array arr)
  | object {obj : Object} (hentries : ∀ e ∈ obj, Encodable e.2) : Encodable (.object obj)

theorem Writes.wrap {x : Enc Nat} {bs : Bytes} (h : Writes x bs) (text : String) : Writes (wrap text x) bs :=
  fun w => mapErr_of_ok (h w)

/-- Two counts are added. -/
theorem Writes.add {x y : Enc Nat} {bs bs' : Bytes} (hx : Writes x bs) (hy : Writes y bs') :
    Writes (do let m ← x; let n ← y; pure (m + n)) (bs ++ bs') := by
  intro w
  rw [bind_of_ok (hx w), bind_of_ok (hy _), pure_apply, List.append_assoc, List.length_append]

theorem writes_encodeAmf0Number (bits : UInt64) : Writes (encodeAmf0Number bits true) (numberBytes bits) := by
  intro w
  simp [encodeAmf0Number, writeMarkerIf, writeMarker, writeUint, writeBytes, numberBytes, bind_apply]

theorem writes_encodeAmf0String (val : Bytes) : Writes (encodeAmf0String val false) (stringBytes val) := by
  intro w
  simp [encodeAmf0String, writeMarkerIf, writeUint, writeBytes, stringBytes, bind_apply, wrap, mapErr]

theorem writes_string (str : Bytes) : Writes (encodeAmf0 (.string str)) (amf0Bytes (.string str)) := by
  intro w
  rw [encodeAmf0, amf0Bytes]
  split
  · simp [encodeAmf0String, writeMarkerIf, writeMarker, writeUint, writeBytes, stringBytes, bind_apply, wrap, mapErr]
    omega
  · simp [encodeAmf0LongString, writeMarkerIf, writeMarker, writeUint, writeBytes, bind_apply, wrap, mapErr]
    omega

theorem writes_strictArrayWith {length : Nat} {elements : Enc Nat} {bs : Bytes} (h : Writes elements bs) :
    Writes (encodeAmf0StrictArrayWith length elements true)
      (amf0StrictArrayMarker :: (Endian.beBytes 4 (u32 length) ++ bs)) := by
  intro w
  simp [encodeAmf0StrictArrayWith, writeMarkerIf, writeMarker, writeUint, writeBytes, bind_apply, Amf.wrap, mapErr, h _]
  omega

/-- An object after its marker, if it has one. -/
theorem objectWith_eq {entries : Enc Nat} {bs : Bytes} (h : Writes entries bs) (encodeMarker : Bool) (w : Bytes) :
    encodeAmf0ObjectWith entries encodeMarker w =
      let marker := if encodeMarker then [amf0ObjectMarker] else []
      .ok (marker.length + (bs ++ endBytes).length) (w ++ marker ++ (bs ++ endBytes)) := by
  cases encodeMarker with
  | true =>
      simp [encodeAmf0ObjectWith, writeMarkerIf, writeMarker, writeBytes, bind_apply, Amf.wrap, mapErr, h _,
        writes_encodeAmf0String [] _, endBytes]
      omega
  | false =>
      simp [encodeAmf0ObjectWith, writeMarkerIf, writeMarker, writeBytes, bind_apply, Amf.wrap, mapErr, h _,
        writes_encodeAmf0String [] _, endBytes]
      omega

theorem writes_encodeBytes (bs : Bytes) :
    Writes (encodeBytes bs) (bs.flatMap fun b => numberBytes (Float64.ofInt b.toNat)) := by
  induction bs with
  | nil => exact fun w => by simp [encodeBytes]
  | cons b bs ih => exact ((writes_encodeAmf0Number _).wrap _).add ih

theorem writes_encodeElements {vs : List Value} (h : ∀ v ∈ vs, Writes (encodeAmf0 v) (amf0Bytes v)) :
    Writes (encodeElements vs) (elementsBytes vs) := by
  induction vs with
  | nil => exact fun w => by simp [encodeElements, elementsBytes]
  | cons v vs ih =>
      rw [encodeElements, elementsBytes]
      exact ((h v List.mem_cons_self).wrap _).add (ih fun u hu => h u (List.mem_cons_of_mem v hu))

theorem writes_encodeEntries {entries : Object} (h : ∀ e ∈ entries, Writes (encodeAmf0 e.2) (amf0Bytes e.2)) :
    Writes (encodeEntries entries) (entriesBytes entries) := by
  induction entries with
  | nil => exact fun w => by simp [encodeEntries, entriesBytes]
  | cons e entries ih =>
      obtain ⟨k, v⟩ := e
      have hkey := (writes_encodeAmf0String k).wrap "encode amf0: unable to encode object key"
      have hvalue := (h (k, v) List.mem_cons_self).wrap "encode amf0: unable to encode object value"
      have hrest := ih fun e he => h e (List.mem_cons_of_mem (k, v) he)
      intro w
      rw [encodeEntries, entriesBytes, bind_of_ok (hkey w), bind_of_ok (hvalue _), bind_of_ok (hrest _)]
      simp [Nat.add_assoc]

/-- The encoder writes the encoding of a value and counts its bytes. -/
theorem writes_encodeAmf0 {v : Value} (h : Encodable v) : Writes (encodeAmf0 v) (amf0Bytes v) := by
  induction h with
  | null => exact fun _ => by rw [encodeAmf0, amf0Bytes]; rfl
  | bool b =>
      intro w
      rw [encodeAmf0, amf0Bytes]
      cases b <;> simp [encodeAmf0Boolean, writeMarkerIf, writeMarker, writeBytes, bind_apply]
  | int n => rw [encodeAmf0, amf0Bytes]; exact writes_encodeAmf0Number _
  | number bits => rw [encodeAmf0, amf0Bytes]; exact writes_encodeAmf0Number bits
  | string str => exact writes_string str
  | bytes bs => rw [encodeAmf0, amf0Bytes]; exact writes_strictArrayWith (writes_encodeBytes bs)
  | array _ ih => rw [encodeAmf0, amf0Bytes]; exact writes_strictArrayWith (writes_encodeElements ih)
  | object _ ih =>
      intro w
      rw [encodeAmf0, amf0Bytes, objectWith_eq (writes_encodeEntries ih)]
      simp
      omega

theorem writes_encodeAmf0EcmaArray {obj : Object} (h : ∀ e ∈ obj, Encodable e.2) :
    Writes (encodeAmf0EcmaArray obj true) (ecmaArrayBytes obj) := by
  have hentries := writes_encodeEntries fun e he => writes_encodeAmf0 (h e he)
  intro w
  simp [encodeAmf0EcmaArray, encodeAmf0Object, writeMarkerIf, writeMarker, writeUint, writeBytes, bind_apply,
    Amf.wrap, mapErr, objectWith_eq hentries, ecmaArrayBytes]
  omega

/-! ### Decoding -/

/-- Before `rest` the call reads exactly `bs`, returns `a` and leaves the tables as they are. -/
def Decodes {α : Type} (kind : ReaderKind) (rest : Bytes) (x : Dec α) (a : α) (bs : Bytes) : Prop :=
  ∀ d : Decoder, x ⟨d, ⟨kind, bs ++ rest⟩⟩ = .ok a ⟨d, ⟨kind, rest⟩⟩

/-- A read of no bytes succeeds here: on a `bytes.Reader` it takes a byte that is still to come. -/
def ReadsNothing (kind : ReaderKind) (rest : Bytes) : Prop := kind = .bytesBuffer ∨ rest ≠ []

variable {α β : Type} {kind : ReaderKind} {rest : Bytes}

theorem Decodes.pure (a : α) : Decodes kind rest (pure a) a [] := fun _ => rfl

theorem Decodes.bind {x : Dec α} {f : α → Dec β} {a : α} {b : β} {bs bs' : Bytes}
    (hx : Decodes kind (bs' ++ rest) x a bs) (hf : Decodes kind rest (f a) b bs') :
    Decodes kind rest (x >>= f) b (bs ++ bs') := by
  intro d
  rw [List.append_assoc, bind_of_ok (hx d), hf d]

/-- The result in another form. -/
theorem Decodes.map {x : Dec α} {a : α} {bs : Bytes} (hx : Decodes kind rest x a bs) (g : α → β) :
    Decodes kind rest (x >>= fun a => Pure.pure (g a)) (g a) bs :=
  fun d => by rw [bind_of_ok (hx d), pure_apply]

theorem Decodes.wrap {x : Dec α} {a : α} {bs : Bytes} (hx : Decodes kind rest x a bs) (text : String) :
    Decodes kind rest (wrap text x) a bs := fun d => mapErr_of_ok (hx d)

theorem decodes_readBytes {bs : Bytes} (h : bs ≠ [] ∨ ReadsNothing kind rest) :
    Decodes kind rest (readBytes bs.length) bs bs := by
  intro d
  have hread : ¬(bs ++ rest = [] ∧ (kind = .bytesReader ∨ bs.length ≠ 0)) := by
    rintro ⟨hnil, hkind⟩
    obtain ⟨rfl, rfl⟩ := List.append_eq_nil_iff.mp hnil
    obtain h | h | h := h
    · exact h rfl
    · obtain hkind | hlen := hkind
      · exact absurd (h.symm.trans hkind) (by decide)
      · exact hlen rfl
    · exact h rfl
  rw [readBytes, bind_apply, read, if_neg hread]
  simp [Decoding.skip]

theorem decodes_readByte (b : UInt8) : Decodes kind rest readByte b [b] := by
  have hread : Decodes kind rest (readBytes 1) [b] [b] := decodes_readBytes (.inl (List.cons_ne_nil b []))
  exact hread.map fun bytes => bytes.headD 0

theorem decodes_readUint {n v : Nat} (hv : v < 256 ^ n) :
    Decodes kind rest (readUint n) v (Endian.beBytes n v) := by
  intro d
  have hlen : (Endian.beBytes n v).length = n := Endian.beBytes_length n v
  rw [readUint, if_neg (by simp), List.take_left' hlen, Endian.beNat_beBytes_of_lt hv]
  simp [Decoding.skip, List.drop_left' hlen]

theorem decodes_readFloat64 (bits : UInt64) :
    Decodes kind rest readFloat64 bits (Endian.beBytes 8 bits.toNat) := by
  intro d
  rw [readFloat64, bind_of_ok (decodes_readUint bits.toNat_lt d), pure_apply, UInt64.ofNat_toNat]

theorem decodes_decodeAmf0String {str : Bytes} (hlen : str.length < 2 ^ 16) (h : str ≠ [] ∨ ReadsNothing kind rest) :
    Decodes kind rest (decodeAmf0String false) str (stringBytes str) := by
  rw [decodeAmf0String, assertMarker_false, pure_bind, stringBytes, Nat.mod_eq_of_lt hlen]
  exact ((decodes_readUint hlen).wrap _).bind ((decodes_readBytes h).wrap _)

theorem decodes_decodeAmf0LongString {str : Bytes} (hlen : str.length < 2 ^ 32) (h : str ≠ [] ∨ ReadsNothing kind rest) :
    Decodes kind rest (decodeAmf0LongString false) str (Endian.beBytes 4 (u32 str.length) ++ str) := by
  rw [decodeAmf0LongString, assertMarker_false, pure_bind, u32_of_lt hlen]
  exact ((decodes_readUint hlen).wrap _).bind ((decodes_readBytes h).wrap _)

/-- A value that the wire format carries: no integers, which arrive as numbers, and keys that fit. -/
inductive Plain : Value → Prop
  | null : Plain .null
  | bool (b : Bool) : Plain (.bool b)
  | number (bits : UInt64) : Plain (.number bits)
  | string {str : Bytes} (hlen : str.length < 2 ^ 32) : Plain (.string str)
  | array {arr : List Value} (hlen : arr.length < 2 ^ 32) (helements : ∀ v ∈ arr, Plain v) : Plain (.array arr)
  | object {obj : Object} (hnodup : (obj.map Prod.fst).Nodup)
      (hkeys : ∀ e ∈ obj, e.1 ≠ [] ∧ e.1.length < 2 ^ 16) (hvalues : ∀ e ∈ obj, Plain e.2) : Plain (.object obj)

theorem Plain.encodable {v : Value} (h : Plain v) : Encodable v := by
  induction h with
  | null => exact .null
  | bool b => exact .bool b
  | number bits => exact .number bits
  | string _ => exact .string _
  | array _ _ ih => exact .array ih
  | object _ _ _ ih => exact .object ih

theorem decodeAmf0_marker {marker : UInt8} {a : Value} {bs : Bytes}
    (h : Decodes kind rest (amf0Value decodeAmf0 marker) a bs) : Decodes kind rest decodeAmf0 a (marker :: bs) := by
  rw [decodeAmf0_eq]
  exact (decodes_readByte marker).bind h

/-- Whether decoding the value may end with a read of no bytes. -/
def Value.EndsEmpty : Value → Prop
  | .string str => str = []
  | .array arr => arr ≠ []
  | _ => False

theorem decodes_times {vs : List Value} (h : ReadsNothing kind rest ∨ vs = [])
    (hvs : ∀ v ∈ vs, ∀ rest, ReadsNothing kind rest → Decodes kind rest decodeAmf0 v (amf0Bytes v))
    (text : String) :
    Decodes kind rest ((wrap text decodeAmf0).times vs.length) vs (elementsBytes vs) := by
  induction vs with
  | nil => exact .pure []
  | cons v vs ih =>
      have hrest : ReadsNothing kind rest := h.resolve_right (by simp)
      have hmid : ReadsNothing kind (elementsBytes vs ++ rest) := by
        obtain hkind | hrest := hrest
        · exact .inl hkind
        · exact .inr (by simp [hrest])
      have htail := ih (.inl hrest) fun u hu => hvs u (List.mem_cons_of_mem v hu)
      exact ((hvs v List.mem_cons_self _ hmid).wrap text).bind (htail.map fun as => v :: as)

theorem decodes_assertMarker (m : UInt8) : Decodes kind rest (assertMarker true m) () [m] := by
  intro d
  rw [assertMarker, if_pos rfl, readMarker, bind_of_ok (decodes_readByte m d), if_neg (not_not.mpr rfl)]
  rfl

theorem Object.insert_of_notMem {obj : Object} {key : Bytes} (h : key ∉ obj.map Prod.fst) (value : Value) :
    Object.insert obj key value = obj ++ [(key, value)] := by
  induction obj with
  | nil => rfl
  | cons e obj ih =>
      obtain ⟨k, v⟩ := e
      rw [List.map_cons, List.mem_cons, not_or] at h
      rw [Object.insert, if_neg (Ne.symm h.1), ih h.2, List.cons_append]

theorem decodes_endTurn (obj : Object) : Decodes kind rest (objectTurn decodeAmf0 obj) (.inr obj) endBytes := by
  have hkey : Decodes kind ([amf0ObjectEndMarker] ++ rest) (decodeAmf0String false) [] (stringBytes []) :=
    decodes_decodeAmf0String (by decide) (.inr (.inr (by simp)))
  apply hkey.bind
  rw [if_pos rfl]
  exact ((decodes_assertMarker _).wrap _).map fun _ => Sum.inr obj

theorem decodes_entryTurn (obj : Object) {key : Bytes} {v : Value} (hkey : key ≠ [] ∧ key.length < 2 ^ 16)
    (hv : Decodes kind rest decodeAmf0 v (amf0Bytes v)) :
    Decodes kind rest (objectTurn decodeAmf0 obj) (.inl (obj.insert key v)) (stringBytes key ++ amf0Bytes v) := by
  apply (decodes_decodeAmf0String hkey.2 (.inl hkey.1)).bind
  rw [if_neg hkey.1]
  exact (hv.wrap _).map fun value => Sum.inl (obj.insert key value)

/-- The loop over the entries of an object, from the entries that it already has. -/
theorem decodes_entries {obj entries : Object} (hnodup : ((obj ++ entries).map Prod.fst).Nodup)
    (hkeys : ∀ e ∈ entries, e.1 ≠ [] ∧ e.1.length < 2 ^ 16)
    (hvalues : ∀ e ∈ entries, ∀ rest, ReadsNothing kind rest → Decodes kind rest decodeAmf0 e.2 (amf0Bytes e.2)) :
    Decodes kind rest (Call.get >>= fun s => Call.loop (objectTurn decodeAmf0) (s.left + 1) obj) (obj ++ entries)
      (entriesBytes entries ++ endBytes) := by
  have hdecreases : Decreases (objectTurn decodeAmf0) fun _ => Decoding.left :=
    Consuming.decreases fun n => consuming_objectTurn settled_decodeAmf0
  intro d
  induction entries generalizing obj with
  | nil =>
      rw [get_bind_apply, loop_turn hdecreases, entriesBytes, List.nil_append, decodes_endTurn obj d, List.append_nil]
  | cons e entries ih =>
      obtain ⟨key, v⟩ := e
      have hkey : key ∉ obj.map Prod.fst := by
        rw [List.map_append, List.nodup_append] at hnodup
        intro hmem
        exact hnodup.2.2 key hmem key (by simp) rfl
      have hinsert : obj.insert key v ++ entries = obj ++ (key, v) :: entries := by
        rw [Object.insert_of_notMem hkey, List.append_assoc, List.singleton_append]
      have hmid : ReadsNothing kind (entriesBytes entries ++ endBytes ++ rest) := .inr (by simp [endBytes])
      have hturn := decodes_entryTurn obj (hkeys (key, v) List.mem_cons_self)
        (hvalues (key, v) List.mem_cons_self _ hmid) d
      have hrest := ih (hinsert.symm ▸ hnodup) (fun e he => hkeys e (List.mem_cons_of_mem (key, v) he))
        (fun e he => hvalues e (List.mem_cons_of_mem (key, v) he))
      rw [get_bind_apply, hinsert] at hrest
      have hbytes : entriesBytes ((key, v) :: entries) ++ endBytes ++ rest =
          stringBytes key ++ amf0Bytes v ++ (entriesBytes entries ++ endBytes ++ rest) := by
        simp only [entriesBytes, List.append_assoc]
      rw [get_bind_apply, loop_turn hdecreases, hbytes, hturn]
      exact hrest

theorem decodes_decodeAmf0Object {obj : Object} (hnodup : (obj.map Prod.fst).Nodup)
    (hkeys : ∀ e ∈ obj, e.1 ≠ [] ∧ e.1.length < 2 ^ 16)
    (hvalues : ∀ e ∈ obj, ∀ rest, ReadsNothing kind rest → Decodes kind rest decodeAmf0 e.2 (amf0Bytes e.2)) :
    Decodes kind rest (decodeAmf0Object decodeAmf0 false) obj (entriesBytes obj ++ endBytes) := by
  have hobj : (([] ++ obj).map Prod.fst).Nodup := hnodup
  exact decodes_entries hobj hkeys hvalues

theorem amf0Bytes_ne_nil {v : Value} (h : Plain v) : amf0Bytes v ≠ [] := by
  cases h with
  | @string str _ =>
      rw [amf0Bytes]
      split <;> simp
  | _ => simp [amf0Bytes, numberBytes]

/-- A value reads back, up to the byte where it ends. -/
theorem Plain.decodes {v : Value} (h : Plain v) (hend : ReadsNothing kind rest ∨ ¬v.EndsEmpty) :
    Decodes kind rest decodeAmf0 v (amf0Bytes v) := by
  induction h generalizing rest with
  | null =>
      rw [amf0Bytes]
      exact decodeAmf0_marker (Decodes.pure _)
  | bool b =>
      have hread : Decodes kind rest (decodeAmf0Boolean false) b [if b then 1 else 0] := by
        intro d
        rw [decodeAmf0Boolean, assertMarker_false, pure_bind, bind_of_ok (decodes_readByte _ d)]
        cases b <;> rfl
      rw [amf0Bytes]
      exact decodeAmf0_marker (hread.map Value.bool)
  | number bits =>
      rw [amf0Bytes, numberBytes]
      exact decodeAmf0_marker (((decodes_readFloat64 bits).wrap _).map Value.number)
  | @string str hlen =>
      have hne : str ≠ [] ∨ ReadsNothing kind rest := hend.symm
      rw [amf0Bytes]
      split
      · rename_i hshort
        exact decodeAmf0_marker ((decodes_decodeAmf0String (Nat.lt_succ_of_le hshort) hne).map Value.string)
      · exact decodeAmf0_marker ((decodes_decodeAmf0LongString hlen hne).map Value.string)
  | @array arr hlen helements ih =>
      have hread : Decodes kind rest (decodeAmf0StrictArray decodeAmf0 false) arr
          (Endian.beBytes 4 (u32 arr.length) ++ elementsBytes arr) := by
        rw [decodeAmf0StrictArray, assertMarker_false, pure_bind, u32_of_lt hlen]
        refine ((decodes_readUint hlen).wrap _).bind (decodes_times ?_ (fun v hv rest hrest => ih v hv (.inl hrest)) _)
        exact hend.imp_right not_not.mp
      rw [amf0Bytes]
      exact decodeAmf0_marker (hread.map Value.array)
  | @object obj hnodup hkeys hvalues ih =>
      have hread : Decodes kind rest (decodeAmf0Object decodeAmf0 false) obj (entriesBytes obj ++ endBytes) :=
        decodes_decodeAmf0Object hnodup hkeys fun e he rest hrest => ih e he (.inl hrest)
      rw [amf0Bytes]
      exact decodeAmf0_marker (hread.map Value.object)

theorem decodes_ecmaArray {obj : Object} (h : Plain (.object obj)) :
    Decodes kind rest decodeAmf0 (.object obj) (ecmaArrayBytes obj) := by
  cases h with
  | object hnodup hkeys hvalues =>
      have hobject : Decodes kind rest (decodeAmf0Object decodeAmf0 false) obj (entriesBytes obj ++ endBytes) :=
        decodes_decodeAmf0Object hnodup hkeys fun e he rest hrest => (hvalues e he).decodes (.inl hrest)
      have hlength : ∀ rest, Decodes kind rest (attempt (readUint 4)) (.ok (u32 obj.length))
          (Endian.beBytes 4 (u32 obj.length)) := by
        intro rest d
        have hlt : u32 obj.length < 256 ^ 4 := Nat.mod_lt _ (by decide)
        exact attempt_of_ok (decodes_readUint hlt d)
      rw [ecmaArrayBytes, List.append_assoc]
      refine decodeAmf0_marker (Decodes.map ?_ Value.object)
      rw [decodeAmf0EcmaArray, assertMarker_false, Call.pure_bind]
      exact (hlength _).bind (hobject.wrap _)

/-! ### Batches -/

def batchBytes : List Value → Bytes
  | [] => []
  | v :: vs => amf0Bytes v ++ batchBytes vs

/-- `EncodeBatch` returns no count. -/
theorem encodeBatch_eq {vs : List Value} (h : ∀ v ∈ vs, Encodable v) (w : Bytes) :
    encodeBatch vs w = .ok 0 (w ++ batchBytes vs) := by
  induction vs generalizing w with
  | nil => rw [batchBytes, List.append_nil]; rfl
  | cons v vs ih =>
      rw [encodeBatch, batchBytes, bind_of_ok (writes_encodeAmf0 (h v List.mem_cons_self) w),
        ih (fun u hu => h u (List.mem_cons_of_mem v hu)), List.append_assoc]

/-- A batch ends with the plain `EOF` once every byte is read. -/
theorem batchTurn_eof (d : Decoder) (ret : List Value) :
    batchTurn 0 ret ⟨d, ⟨kind, []⟩⟩ = .ok (.inr (ret, .eof)) ⟨d, ⟨kind, []⟩⟩ := by
  have hread : readMarker ⟨d, ⟨kind, []⟩⟩ = .err .eof ⟨d, ⟨kind, []⟩⟩ := by
    simp [readMarker, readByte, readBytes, read, bind_apply]
  have hdecode : decode 0 ⟨d, ⟨kind, []⟩⟩ = .err .eof ⟨d, ⟨kind, []⟩⟩ := by
    rw [decode, if_pos rfl, decodeAmf0_eq, decodeAmf0Body, bind_of_err hread]
  rw [batchTurn, bind_of_ok (attempt_of_err hdecode)]
  rfl

/-- Values that may stand one after the other up to the end of a reader of this kind. -/
def Ends (kind : ReaderKind) (vs : List Value) : Prop :=
  kind = .bytesBuffer ∨ ∀ v, vs.getLast? = some v → ¬v.EndsEmpty

/-- The loop over a batch, from the values that it already has and up to what follows them. -/
theorem loop_batchBytes {vs : List Value} (h : ∀ v ∈ vs, Plain v) (hend : ReadsNothing kind rest ∨ Ends kind vs)
    (d : Decoder) (ret : List Value) :
    (Call.get >>= fun s => Call.loop (batchTurn 0) (s.left + 1) ret) ⟨d, ⟨kind, batchBytes vs ++ rest⟩⟩ =
      (Call.get >>= fun s => Call.loop (batchTurn 0) (s.left + 1) (ret ++ vs)) ⟨d, ⟨kind, rest⟩⟩ := by
  induction vs generalizing ret with
  | nil => rw [batchBytes, List.nil_append, List.append_nil]
  | cons v vs ih =>
      have hlast : (ReadsNothing kind rest ∨ Ends kind vs) ∧
          (ReadsNothing kind (batchBytes vs ++ rest) ∨ ¬v.EndsEmpty) := by
        obtain (hkind | hrest) | (hkind | hlast) := hend
        · exact ⟨.inl (.inl hkind), .inl (.inl hkind)⟩
        · exact ⟨.inl (.inr hrest), .inl (.inr (by simp [hrest]))⟩
        · exact ⟨.inr (.inl hkind), .inl (.inl hkind)⟩
        · cases vs with
          | nil => exact ⟨.inr (.inr (by simp)), .inr (hlast v rfl)⟩
          | cons u us =>
              have hne := amf0Bytes_ne_nil (h u (by simp))
              refine ⟨.inr (.inr fun w hw => hlast w ?_), .inl (.inr (by simp [batchBytes, hne]))⟩
              rw [List.getLast?_cons_cons, hw]
      have hdecode : decode 0 ⟨d, ⟨kind, batchBytes (v :: vs) ++ rest⟩⟩ = .ok v ⟨d, ⟨kind, batchBytes vs ++ rest⟩⟩ := by
        rw [decode, if_pos rfl, batchBytes, List.append_assoc]
        exact (h v List.mem_cons_self).decodes hlast.2 d
      have hturn : batchTurn 0 ret ⟨d, ⟨kind, batchBytes (v :: vs) ++ rest⟩⟩ =
          .ok (.inl (ret ++ [v])) ⟨d, ⟨kind, batchBytes vs ++ rest⟩⟩ := by
        rw [batchTurn, bind_of_ok (attempt_of_ok hdecode)]
        rfl
      have hrest := ih (fun u hu => h u (List.mem_cons_of_mem v hu)) hlast.1 (ret ++ [v])
      rw [get_bind_apply, List.append_assoc, List.singleton_append] at hrest
      rw [get_bind_apply, loop_turn (decreases_batchTurn 0), hturn]
      exact hrest

theorem decodeBatch_batchBytes {vs : List Value} (h : ∀ v ∈ vs, Plain v) (hend : Ends kind vs) (d : Decoder) :
    decodeBatch 0 ⟨d, ⟨kind, batchBytes vs⟩⟩ = .ok (vs, .eof) ⟨d, ⟨kind, []⟩⟩ := by
  have hloop := @loop_batchBytes kind [] vs h (.inr hend) d []
  rw [List.append_nil, List.nil_append] at hloop
  rw [decodeBatch, hloop, get_bind_apply, loop_turn (decreases_batchTurn 0), batchTurn_eof]

/-- The empty string at the end of a `bytes.Reader`: to read no bytes is an error there. -/
theorem decodeAmf0_emptyString (d : Decoder) :
    decodeAmf0 ⟨d, ⟨.bytesReader, amf0Bytes (.string [])⟩⟩ =
      .err (.errorf "decode amf0: unable to decode string value: EOF") ⟨d, ⟨.bytesReader, []⟩⟩ := by
  rw [decodeAmf0_eq]
  rfl

theorem decodeBatch_emptyString {vs : List Value} (h : ∀ v ∈ vs, Plain v) (d : Decoder) :
    decodeBatch 0 ⟨d, ⟨.bytesReader, batchBytes (vs ++ [.string []])⟩⟩ =
      .ok (vs, .errorf "decode amf0: unable to decode string value: EOF") ⟨d, ⟨.bytesReader, []⟩⟩ := by
  have hbytes : batchBytes (vs ++ [.string []]) = batchBytes vs ++ amf0Bytes (.string []) := by
    induction vs with
    | nil => rw [List.nil_append, batchBytes, batchBytes, batchBytes, List.append_nil, List.nil_append]
    | cons v vs ih =>
        rw [List.cons_append, batchBytes, batchBytes, ih fun u hu => h u (List.mem_cons_of_mem v hu), List.append_assoc]
  have hrest : ReadsNothing .bytesReader (amf0Bytes (.string [])) := .inr (by simp [amf0Bytes])
  have hloop := loop_batchBytes h (.inl hrest) d []
  have hturn : batchTurn 0 vs ⟨d, ⟨.bytesReader, amf0Bytes (.string [])⟩⟩ =
      .ok (.inr (vs, .errorf "decode amf0: unable to decode string value: EOF")) ⟨d, ⟨.bytesReader, []⟩⟩ := by
    rw [batchTurn, bind_of_ok (attempt_of_err (by rw [decode, if_pos rfl]; exact decodeAmf0_emptyString d))]
    rfl
  rw [decodeBatch, hbytes, hloop, List.nil_append, get_bind_apply, loop_turn (decreases_batchTurn 0), hturn]

/-- Encoding and then decoding is the identity, whatever follows the encoding, for single values, for
objects written as associative arrays and for batches. The entries of an object stand in the order in
which the encoder came to them. -/
theorem amf0_round_trip :
    (∀ v, Plain v → ∃ bs, (∀ w, encodeAmf0 v w = .ok bs.length (w ++ bs)) ∧
      ∀ d rest, decodeAmf0 ⟨d, ⟨.bytesBuffer, bs ++ rest⟩⟩ = .ok v ⟨d, ⟨.bytesBuffer, rest⟩⟩) ∧
    (∀ obj, Plain (.object obj) → ∃ bs, (∀ w, encodeAmf0EcmaArray obj true w = .ok bs.length (w ++ bs)) ∧
      ∀ d rest, decodeAmf0 ⟨d, ⟨.bytesBuffer, bs ++ rest⟩⟩ = .ok (.object obj) ⟨d, ⟨.bytesBuffer, rest⟩⟩) ∧
    (∀ vs, (∀ v ∈ vs, Plain v) → ∃ bs, (∀ w, encodeBatch vs w = .ok 0 (w ++ bs)) ∧
      ∀ d, decodeBatch 0 ⟨d, ⟨.bytesBuffer, bs⟩⟩ = .ok (vs, .eof) ⟨d, ⟨.bytesBuffer, []⟩⟩) := by
  refine ⟨fun v hv => ?_, fun obj hobj => ?_, fun vs hvs => ?_⟩
  · exact ⟨amf0Bytes v, writes_encodeAmf0 hv.encodable, fun d rest => hv.decodes (.inl (.inl rfl)) d⟩
  · refine ⟨ecmaArrayBytes obj, writes_encodeAmf0EcmaArray ?_, fun d rest => decodes_ecmaArray hobj d⟩
    cases hobj with
    | object _ _ hvalues => exact fun e he => (hvalues e he).encodable
  · exact ⟨batchBytes vs, encodeBatch_eq fun v hv => (hvs v hv).encodable, decodeBatch_batchBytes hvs (.inl rfl)⟩

theorem amf0_round_trip_sample :
    let obj : Object := [(lit "pi", .number 0x400921f9f01b866e),
      (lit "pups", .array [.string (lit "alfie"), .null, .object [(lit "good", .bool true)], .string []])]
    ∃ bs, (∀ w, encodeAmf0 (.object obj) w = .ok bs.length (w ++ bs)) ∧
      ∀ d rest, decodeAmf0 ⟨d, ⟨.bytesBuffer, bs ++ rest⟩⟩ = .ok (.object obj) ⟨d, ⟨.bytesBuffer, rest⟩⟩ := by
  intro obj
  have hgood : Plain (.object [(lit "good", .bool true)]) :=
    .object (by decide) (by decide) (by simpa using Plain.bool true)
  have hpups : Plain (.array [.string (lit "alfie"), .null, .object [(lit "good", .bool true)], .string []]) :=
    .array (by decide) (by simpa using ⟨.string (by decide), .null, hgood, .string (by decide)⟩)
  have hobj : Plain (.object obj) :=
    .object (by decide) (by decide) (by simpa [obj] using ⟨.number _, hpups⟩)
  exact amf0_round_trip.1 (.object obj) hobj

end Amf

end Livego
