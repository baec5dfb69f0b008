import Livego.AmfArrival
import Livego.AmfLocality
import Livego.AmfSizes

/-! Which values the AMF0 encoder writes so that they can be read back. It cuts the length of a key to 16 bits, and it
writes an empty key, which is how an object ends; it reports neither. -/

namespace Livego

open Fallible Call

namespace Amf

/-- The value itself, and the values that it contains at any depth. -/
inductive Within : Value → Value → Prop
  | self (v : Value) : Within v v
  | element {u v : Value} {arr : Array} (hv : v ∈ arr) (h : Within u v) : Within u (.array arr)
  | entry {u : Value} {e : Bytes × Value} {obj : Object} (he : e ∈ obj) (h : Within u e.2) : Within u (.object obj)
  | typedEntry {u : Value} {e : Bytes × Value} {type : Bytes} {obj : Object} (he : e ∈ obj) (h : Within u e.2) :
      Within u (.typedObject type obj)

/-- As in Go, no map has a key twice. -/
def Maps (v : Value) : Prop := ∀ obj, Within (.object obj) v → (obj.map Prod.fst).Nodup

/-- Some object in the value has the key. -/
def HasKey (v : Value) (key : Bytes) : Prop := ∃ obj, Within (.object obj) v ∧ key ∈ obj.map Prod.fst

/-- A key that the wire format can carry: an empty one is the end of the object, and the length has 16 bits. -/
def Carried (key : Bytes) : Prop := key ≠ [] ∧ key.length < 2 ^ 16

/-- An equal value, as far as AMF0 can say it: it has one kind of number, no kind for bytes, and maps come back with
their entries in any order. -/
inductive ArrivesAs : Value → Value → Prop
  | null : ArrivesAs .null .null
  | bool (b : Bool) : ArrivesAs (.bool b) (.bool b)
  | int (n : Int) : ArrivesAs (.int n) (.number (Float64.ofInt n))
  | number (bits : UInt64) : ArrivesAs (.number bits) (.number bits)
  | string (str : Bytes) : ArrivesAs (.string str) (.string str)
  | bytes (bs : Bytes) : ArrivesAs (.bytes bs) (.array (bs.map fun b => .number (Float64.ofInt b.toNat)))
  | array {arr arr' : Array} (hlen : arr'.length = arr.length)
      (helements : ∀ (i : Nat) (v w : Value), arr[i]? = some v → arr'[i]? = some w → ArrivesAs v w) :
      ArrivesAs (.array arr) (.array arr')
  | object {obj obj' : Object} (hkeys : (obj'.map Prod.fst).Perm (obj.map Prod.fst))
      (hvalues : ∀ key v w, (key, v) ∈ obj → (key, w) ∈ obj' → ArrivesAs v w) :
      ArrivesAs (.object obj) (.object obj')

/-- The last byte that decoding the value asks for is the first of an empty string. -/
inductive EndsInEmptyString : Value → Prop
  | string : EndsInEmptyString (.string [])
  | array (front : Array) {last : Value} (h : EndsInEmptyString last) : EndsInEmptyString (.array (front ++ [last]))

/-- What the encoder writes without an error is read back as an equal value, and it writes no object with a key that the
wire format cannot carry. -/
def EncodesFaithfully (kind : ReaderKind) (v : Value) : Prop :=
  (∀ n bs, encodeAmf0 v [] = .ok n bs → ∀ d, ∃ w t, decodeAmf0 ⟨d, ⟨kind, bs⟩⟩ = .ok w t ∧ ArrivesAs v w) ∧
  ((∃ key, HasKey v key ∧ ¬Carried key) → ∃ e t, encodeAmf0 v [] = .err e t)

theorem within_object {u : Value} {obj : Object} (h : Within u (.object obj)) :
    u = .object obj ∨ ∃ e ∈ obj, Within u e.2 := by
  cases h with
  | self => exact .inl rfl
  | @entry e _ he h => exact .inr ⟨e, he, h⟩

theorem Maps.element {arr : Array} (h : Maps (.array arr)) {v : Value} (hv : v ∈ arr) : Maps v :=
  fun obj hobj => h obj (.element hv hobj)

theorem Maps.entry {obj : Object} (h : Maps (.object obj)) {e : Bytes × Value} (he : e ∈ obj) : Maps e.2 :=
  fun obj' hobj' => h obj' (.entry he hobj')

theorem Maps.nodup {obj : Object} (h : Maps (.object obj)) : (obj.map Prod.fst).Nodup := h obj (.self _)

theorem HasKey.element {arr : Array} {v : Value} {key : Bytes} (hv : v ∈ arr) (h : HasKey v key) :
    HasKey (.array arr) key := by
  obtain ⟨obj, hobj, hkey⟩ := h
  exact ⟨obj, .element hv hobj, hkey⟩

theorem HasKey.entry {obj : Object} {e : Bytes × Value} {key : Bytes} (he : e ∈ obj) (h : HasKey e.2 key) :
    HasKey (.object obj) key := by
  obtain ⟨obj', hobj', hkey⟩ := h
  exact ⟨obj', .entry he hobj', hkey⟩

theorem HasKey.self {obj : Object} {e : Bytes × Value} (he : e ∈ obj) : HasKey (.object obj) e.1 :=
  ⟨obj, .self _, List.mem_map_of_mem he⟩

/-! ### What arrives -/

theorem arrivesAs_arrived {v : Value} (h : Encodable v) (hmaps : Maps v) : ArrivesAs v v.arrived := by
  induction h with
  | null => exact arrived_null ▸ .null
  | bool b => exact arrived_bool b ▸ .bool b
  | int n => exact arrived_int n ▸ .int n
  | number bits => exact arrived_number bits ▸ .number bits
  | string str => exact arrived_string str ▸ .string str
  | bytes bs =>
      rw [Value.arrived]
      exact .bytes bs
  | @array arr _ ih =>
      rw [Value.arrived, arrivedElements_eq]
      apply ArrivesAs.array (List.length_map _)
      intro i v w hv hw
      rw [List.getElem?_map, hv] at hw
      cases hw
      have hmem : v ∈ arr := List.mem_of_getElem? hv
      exact ih v hmem (hmaps.element hmem)
  | @object obj _ ih =>
      rw [arrived_object, arrivedEntries_eq]
      have hkeys : ((obj.map fun e => (e.1, e.2.arrived)).map Prod.fst) = obj.map Prod.fst := List.map_map
      apply ArrivesAs.object (by rw [hkeys])
      intro key v w hv hw
      obtain ⟨⟨key', v'⟩, he, heq⟩ := List.mem_map.mp hw
      cases heq
      have hsame : some v = some v' := by
        rw [← lookup_of_mem hmaps.nodup hv, ← lookup_of_mem hmaps.nodup he]
      cases hsame
      exact ih (_, v) hv (hmaps.entry hv)

/-- An equal value is as long. -/
theorem ArrivesAs.fitting {v w : Value} (h : ArrivesAs v w) (hw : Fitting w) : Fitting v := by
  induction h with
  | null => exact .null
  | bool b => exact .bool b
  | int n => exact .int n
  | number bits => exact .number bits
  | string str => exact hw
  | bytes bs =>
      cases hw with
      | array hlen _ =>
          rw [List.length_map] at hlen
          exact .bytes hlen
  | @array arr arr' hlen _ ih =>
      cases hw with
      | array hlen' helements =>
          apply Fitting.array (hlen ▸ hlen')
          intro v hv
          obtain ⟨i, hi, hget⟩ := List.mem_iff_getElem.mp hv
          have hi' : i < arr'.length := hlen ▸ hi
          have hvalue : arr[i]? = some v := by rw [List.getElem?_eq_getElem hi, hget]
          exact ih i v arr'[i] hvalue (List.getElem?_eq_getElem hi') (helements _ (List.getElem_mem hi'))
  | @object obj obj' hkeys _ ih =>
      cases hw with
      | object hvalues =>
          apply Fitting.object
          intro e he
          obtain ⟨key, v⟩ := e
          have hkey : key ∈ obj'.map Prod.fst := hkeys.mem_iff.mpr (List.mem_map_of_mem he)
          obtain ⟨⟨key', w⟩, he', rfl⟩ := List.mem_map.mp hkey
          exact ih key' v w he he' (hvalues (key', w) he')

/-- Where every key is carried and every length fits, what arrives is all that the wire format carries. -/
theorem plain_arrived {v : Value} (h : Encodable v) (hmaps : Maps v) (hkeys : ∀ key, HasKey v key → Carried key)
    (hfits : Fitting v) : Plain v.arrived := by
  induction h with
  | null => exact arrived_null ▸ .null
  | bool b => exact arrived_bool b ▸ .bool b
  | int n => exact arrived_int n ▸ .number _
  | number bits => exact arrived_number bits ▸ .number bits
  | string str =>
      cases hfits with
      | string hlen => exact arrived_string str ▸ .string hlen
  | bytes bs =>
      cases hfits with
      | bytes hlen =>
          rw [Value.arrived]
          apply Plain.array (by rwa [List.length_map])
          intro v hv
          obtain ⟨b, _, rfl⟩ := List.mem_map.mp hv
          exact .number _
  | @array arr _ ih =>
      cases hfits with
      | array hlen helements =>
          rw [Value.arrived, arrivedElements_eq]
          apply Plain.array (by rwa [List.length_map])
          intro w hw
          obtain ⟨v, hv, rfl⟩ := List.mem_map.mp hw
          exact ih v hv (hmaps.element hv) (fun key hkey => hkeys key (.element hv hkey)) (helements v hv)
  | @object obj _ ih =>
      cases hfits with
      | object hvalues =>
          rw [arrived_object, arrivedEntries_eq]
          have hfirst : ((obj.map fun e => (e.1, e.2.arrived)).map Prod.fst) = obj.map Prod.fst := List.map_map
          apply Plain.object
          · rw [hfirst]
            exact hmaps.nodup
          · intro e he
            obtain ⟨e', he', rfl⟩ := List.mem_map.mp he
            exact hkeys e'.1 (.self he')
          · intro e he
            obtain ⟨e', he', rfl⟩ := List.mem_map.mp he
            exact ih e' he' (hmaps.entry he') (fun key hkey => hkeys key (.entry he' hkey)) (hvalues e' he')

theorem endsInEmptyString_arrived {v : Value} (h : EndsInEmptyString v) : EndsInEmptyString v.arrived := by
  induction h with
  | string => exact arrived_string [] ▸ .string
  | array front _ ih =>
      rw [Value.arrived, arrivedElements_eq, List.map_append]
      exact .array _ ih

theorem EndsInEmptyString.of_arrived {v : Value} (h : EndsInEmptyString v.arrived) : EndsInEmptyString v := by
  generalize hw : v.arrived = w at h
  induction h generalizing v with
  | string =>
      cases v <;> simp [Value.arrived] at hw
      subst hw
      exact .string
  | @array front last hlast ih =>
      cases v with
      | array arr =>
          rw [Value.arrived, arrivedElements_eq, Value.array.injEq, List.map_eq_append_iff] at hw
          obtain ⟨front', back, rfl, -, hback⟩ := hw
          obtain ⟨last', rfl, heq⟩ := List.map_eq_singleton_iff.mp hback
          exact .array front' (ih heq)
      | bytes bs =>
          rw [Value.arrived, Value.array.injEq, List.map_eq_append_iff] at hw
          obtain ⟨front', back, rfl, -, hback⟩ := hw
          obtain ⟨b, rfl, heq⟩ := List.map_eq_singleton_iff.mp hback
          rw [← heq] at hlast
          cases hlast
      | _ => simp [Value.arrived] at hw

/-! ### The encoder's errors -/

def Refuses {α : Type} (x : Enc α) : Prop := ∀ w, ∃ e t, x w = .err e t

section
variable {α β : Type} {x : Enc α} {f : α → Enc β}

theorem Refuses.wrap (h : Refuses x) (text : String) : Refuses (wrap text x) := by
  intro w
  obtain ⟨e, t, hx⟩ := h w
  exact ⟨_, t, mapErr_of_err hx⟩

theorem Refuses.bind (h : Refuses x) (f : α → Enc β) : Refuses (x >>= f) := by
  intro w
  obtain ⟨e, t, hx⟩ := h w
  exact ⟨e, t, bind_of_err hx⟩

theorem Refuses.after (hx : ∀ w, ∃ a t, x w = .ok a t) (hf : ∀ a, Refuses (f a)) : Refuses (x >>= f) := by
  intro w
  obtain ⟨a, t, ha⟩ := hx w
  obtain ⟨e, u, he⟩ := hf a t
  exact ⟨e, u, (bind_of_ok ha).trans he⟩

end

theorem Writes.returns {x : Enc Nat} {bs : Bytes} (h : Writes x bs) (w : Bytes) : ∃ a t, x w = .ok a t := ⟨_, _, h w⟩

theorem refuses_strictArrayWith {length : Nat} {elements : Enc Nat} (h : Refuses elements) :
    Refuses (encodeAmf0StrictArrayWith length elements true) := by
  apply Refuses.after (fun w => ⟨_, _, rfl⟩)
  intro n
  apply Refuses.after (fun w => ⟨_, _, rfl⟩)
  intro _
  exact h.bind _

theorem refuses_objectWith {entries : Enc Nat} (h : Refuses entries) : Refuses (encodeAmf0ObjectWith entries true) := by
  apply Refuses.after (fun w => ⟨_, _, rfl⟩)
  intro n
  exact h.bind _

mutual
/-- An error of the encoder is about a kind of value that it does not know. -/
theorem encodable_or_refuses (v : Value) : Encodable v ∨ Refuses (encodeAmf0 v) := by
  cases v with
  | null => exact .inl .null
  | bool b => exact .inl (.bool b)
  | int n => exact .inl (.int n)
  | number bits => exact .inl (.number bits)
  | string str => exact .inl (.string str)
  | bytes bs => exact .inl (.bytes bs)
  | array arr =>
      obtain h | h := encodable_or_refuses_elements arr
      · exact .inl (.array h)
      · right
        rw [encodeAmf0]
        exact refuses_strictArrayWith h
  | object obj =>
      obtain h | h := encodable_or_refuses_entries obj
      · exact .inl (.object h)
      · right
        rw [encodeAmf0]
        exact refuses_objectWith h
  | typedObject type obj =>
      right
      rw [encodeAmf0]
      exact fun w => ⟨_, w, rfl⟩
  | time millis =>
      right
      rw [encodeAmf0]
      exact fun w => ⟨_, w, rfl⟩

theorem encodable_or_refuses_elements (vs : List Value) :
    (∀ v ∈ vs, Encodable v) ∨ Refuses (encodeElements vs) := by
  cases vs with
  | nil => exact .inl (List.forall_mem_nil _)
  | cons v vs =>
      rw [encodeElements]
      obtain hv | hv := encodable_or_refuses v
      · obtain hvs | hvs := encodable_or_refuses_elements vs
        · exact .inl (List.forall_mem_cons.mpr ⟨hv, hvs⟩)
        · exact .inr (.after ((writes_encodeAmf0 hv).wrap _).returns fun _ => hvs.bind _)
      · exact .inr ((hv.wrap _).bind _)

theorem encodable_or_refuses_entries (entries : List (Bytes × Value)) :
    (∀ e ∈ entries, Encodable e.2) ∨ Refuses (encodeEntries entries) := by
  cases entries with
  | nil => exact .inl (List.forall_mem_nil _)
  | cons e entries =>
      obtain ⟨k, v⟩ := e
      rw [encodeEntries]
      have hkey := ((writes_encodeAmf0String k).wrap "encode amf0: unable to encode object key").returns
      obtain hv | hv := encodable_or_refuses v
      · obtain hrest | hrest := encodable_or_refuses_entries entries
        · exact .inl (List.forall_mem_cons.mpr ⟨hv, hrest⟩)
        · exact .inr (.after hkey fun _ => .after ((writes_encodeAmf0 hv).wrap _).returns fun _ => hrest.bind _)
      · exact .inr (.after hkey fun _ => (hv.wrap _).bind _)
end

/-! ### Where the encoding is all that is left to read -/

variable {kind : ReaderKind} {rest : Bytes}

theorem readsNothing_elements {front : List Value} {last : Value} (hlast : Plain last) :
    ReadsNothing kind (elementsBytes (front ++ [last]) ++ rest) := by
  apply Or.inr
  have hne := amf0Bytes_ne_nil hlast
  induction front with
  | nil => simp [elementsBytes, hne]
  | cons v front ih => simp [elementsBytes, ih]

theorem decodes_timesConcat {front : List Value} {last : Value} (hfront : ∀ v ∈ front, Plain v) (hlast : Plain last)
    (hdecodes : Decodes kind rest decodeAmf0 last (amf0Bytes last)) (text : String) :
    Decodes kind rest ((wrap text decodeAmf0).times (front ++ [last]).length) (front ++ [last])
      (elementsBytes (front ++ [last])) := by
  induction front with
  | nil => exact (hdecodes.wrap text).bind ((Decodes.pure []).map fun as => last :: as)
  | cons v front ih =>
      obtain ⟨hv, hfront⟩ := List.forall_mem_cons.mp hfront
      have hfirst := hv.decodes (.inl (@readsNothing_elements kind rest front last hlast))
      exact (hfirst.wrap text).bind ((ih hfront).map fun as => v :: as)

theorem fails_timesConcat {front : List Value} {last : Value} (hfront : ∀ v ∈ front, Plain v) (hlast : Plain last)
    {d : Decoder} (hfails : Fails decodeAmf0 ⟨d, ⟨kind, amf0Bytes last⟩⟩) (text : String) :
    Fails ((wrap text decodeAmf0).times (front ++ [last]).length) ⟨d, ⟨kind, elementsBytes (front ++ [last])⟩⟩ := by
  induction front with
  | nil =>
      have hbytes : elementsBytes ([] ++ [last]) = amf0Bytes last := by simp [elementsBytes]
      rw [hbytes]
      exact (hfails.mapErr _).bind _
  | cons v front ih =>
      obtain ⟨hv, hfront⟩ := List.forall_mem_cons.mp hfront
      have hreads : ReadsNothing kind (elementsBytes (front ++ [last])) := by
        have h := @readsNothing_elements kind [] front last hlast
        rwa [List.append_nil] at h
      have hfirst := (hv.decodes (.inl hreads)).wrap text d
      exact .of_ok hfirst ((ih hfront).bind _)

/-- A value reads back, even at the end of the input, unless an empty string is last. -/
theorem Plain.decodes_of_end {v : Value} (h : Plain v) (hend : ReadsNothing kind rest ∨ ¬EndsInEmptyString v) :
    Decodes kind rest decodeAmf0 v (amf0Bytes v) := by
  obtain hreads | hend := hend
  · exact h.decodes (.inl hreads)
  induction h with
  | @string str hlen =>
      apply (Plain.string hlen).decodes
      right
      rintro rfl
      exact hend .string
  | @array arr hlen helements ih =>
      rcases List.eq_nil_or_concat' arr with rfl | ⟨front, last, rfl⟩
      · exact (Plain.array hlen helements).decodes (.inr fun hne => hne rfl)
      · have hlast : last ∈ front ++ [last] := List.mem_append_right _ List.mem_cons_self
        have hdecodes := ih last hlast fun h => hend (.array front h)
        have htimes := decodes_timesConcat (fun v hv => helements v (List.mem_append_left _ hv)) (helements last hlast)
          hdecodes "decode amf0: unable to decode strict array object"
        have hread : Decodes kind rest (decodeAmf0StrictArray decodeAmf0 false) (front ++ [last])
            (Endian.beBytes 4 (u32 (front ++ [last]).length) ++ elementsBytes (front ++ [last])) := by
          rw [decodeAmf0StrictArray, assertMarker_false, Call.pure_bind, u32_of_lt hlen]
          exact ((decodes_readUint hlen).wrap _).bind htimes
        rw [amf0Bytes]
        exact decodeAmf0_marker (hread.map Value.array)
  | null => exact Plain.null.decodes (.inr id)
  | bool b => exact (Plain.bool b).decodes (.inr id)
  | number bits => exact (Plain.number bits).decodes (.inr id)
  | object hnodup hkeys hvalues _ => exact (Plain.object hnodup hkeys hvalues).decodes (.inr id)

/-- With an empty string last the read of no bytes is an error on a `bytes.Reader`. -/
theorem fails_of_endsInEmptyString {v : Value} (hplain : Plain v) (h : EndsInEmptyString v) (d : Decoder) :
    Fails decodeAmf0 ⟨d, ⟨.bytesReader, amf0Bytes v⟩⟩ := by
  induction h with
  | string => exact ⟨_, _, decodeAmf0_emptyString d⟩
  | @array front last _ ih =>
      cases hplain with
      | array hlen helements =>
          have hlast := helements last (List.mem_append_right _ List.mem_cons_self)
          have htimes := fails_timesConcat (fun v hv => helements v (List.mem_append_left _ hv)) hlast (ih hlast)
            "decode amf0: unable to decode strict array object"
          have hlt : (front ++ [last]).length < 256 ^ 4 := hlen
          have hread : Fails (decodeAmf0StrictArray decodeAmf0 false) ⟨d, ⟨.bytesReader,
              Endian.beBytes 4 (u32 (front ++ [last]).length) ++ elementsBytes (front ++ [last])⟩⟩ := by
            rw [decodeAmf0StrictArray, assertMarker_false, Call.pure_bind, u32_of_lt hlen]
            exact .of_ok ((decodes_readUint hlt).wrap _ d) htimes
          rw [amf0Bytes, decodeAmf0_eq]
          exact .of_ok (decodes_readByte _ d) (hread.bind fun arr => Pure.pure (Value.array arr))

/-! ### The condition -/

/-- Exactly where every key of every object is carried, the lengths fit and, on a `bytes.Reader`, no empty string comes
last, does the encoder write what is read back as it was. A value of a kind that it does not know it never writes. -/
theorem encodesFaithfully_iff (kind : ReaderKind) {v : Value} (hmaps : Maps v) :
    EncodesFaithfully kind v ↔
      (Encodable v → (∀ key, HasKey v key → Carried key) ∧ Fitting v ∧
        (kind = .bytesReader → ¬EndsInEmptyString v)) := by
  constructor
  · intro ⟨hreads, hrefuses⟩ hencodable
    have hwrites := writes_encodeAmf0 hencodable []
    have hkeys : ∀ key, HasKey v key → Carried key := by
      intro key hkey
      by_contra hcarried
      obtain ⟨e, t, herr⟩ := hrefuses ⟨key, hkey, hcarried⟩
      cases hwrites.symm.trans herr
    obtain ⟨w, t, hdecode, hequal⟩ := hreads _ _ hwrites {}
    have hfits : Fitting v := hequal.fitting (sized_decodeAmf0.of_ok .empty hdecode)
    refine ⟨hkeys, hfits, ?_⟩
    intro hkind hend
    have hplain := plain_arrived hencodable hmaps hkeys hfits
    obtain ⟨e, u, hfails⟩ := fails_of_endsInEmptyString hplain (endsInEmptyString_arrived hend) {}
    rw [amf0Bytes_arrived hencodable] at hfails
    rw [hkind, List.nil_append, hfails] at hdecode
    cases hdecode
  · intro hcond
    obtain hencodable | hunknown := encodable_or_refuses v
    · obtain ⟨hkeys, hfits, hend⟩ := hcond hencodable
      have hplain := plain_arrived hencodable hmaps hkeys hfits
      have hlast : ReadsNothing kind [] ∨ ¬EndsInEmptyString v.arrived := by
        cases kind with
        | bytesBuffer => exact .inl (.inl rfl)
        | bytesReader => exact .inr fun h => hend rfl h.of_arrived
      constructor
      · intro n bs hencode d
        rw [writes_encodeAmf0 hencodable, List.nil_append] at hencode
        cases hencode
        have hdecode := hplain.decodes_of_end hlast d
        rw [List.append_nil, amf0Bytes_arrived hencodable] at hdecode
        exact ⟨v.arrived, _, hdecode, arrivesAs_arrived hencodable hmaps⟩
      · intro ⟨key, hkey, hcarried⟩
        exact absurd (hkeys key hkey) hcarried
    · obtain ⟨e, t, herr⟩ := hunknown []
      constructor
      · intro n bs hencode
        rw [herr] at hencode
        cases hencode
      · exact fun _ => ⟨e, t, herr⟩

theorem encodesFaithfully_iff_sample :
    EncodesFaithfully .bytesReader (.object [(lit "pups", .object [(lit "alfie", .int 7)])]) := by
  have hwithin : ∀ obj, Within (.object obj) (.object [(lit "pups", .object [(lit "alfie", .int 7)])]) →
      obj = [(lit "pups", .object [(lit "alfie", .int 7)])] ∨ obj = [(lit "alfie", .int 7)] := by
    intro obj h
    obtain h | ⟨e, he, h⟩ := within_object h
    · exact .inl (Value.object.inj h)
    · cases List.mem_singleton.mp he
      obtain h | ⟨e, he, h⟩ := within_object h
      · exact .inr (Value.object.inj h)
      · cases List.mem_singleton.mp he
        cases h
  refine (encodesFaithfully_iff .bytesReader ?_).mpr fun _ => ⟨?_, ?_, fun _ h => nomatch h⟩
  · intro obj h
    obtain rfl | rfl := hwithin obj h
    · simp
    · simp
  · intro key ⟨obj, h, hkey⟩
    obtain rfl | rfl := hwithin obj h
    · cases List.mem_singleton.mp hkey
      exact ⟨by decide, by decide⟩
    · cases List.mem_singleton.mp hkey
      exact ⟨by decide, by decide⟩
  · exact .object (by simpa using Fitting.object (by simpa using Fitting.int 7))

/-- An object whose key is empty: the value of that key stands where the end of the object is read. -/
theorem encodesFaithfully_emptyKey :
    encodeAmf0 (.object [([], .null)]) [] = .ok 7 [0x03, 0x00, 0x00, 0x05, 0x00, 0x00, 0x09] ∧
    (∀ d kind, ∃ e t, decodeAmf0 ⟨d, ⟨kind, [0x03, 0x00, 0x00, 0x05, 0x00, 0x00, 0x09]⟩⟩ = .err e t) ∧
    ∀ kind, ¬EncodesFaithfully kind (.object [([], .null)]) := by
  have hencode : encodeAmf0 (.object [([], .null)]) [] = .ok 7 [0x03, 0x00, 0x00, 0x05, 0x00, 0x00, 0x09] := rfl
  refine ⟨hencode, ?_, ?_⟩
  · intro d kind
    rw [decodeAmf0_eq]
    cases kind
    · exact ⟨_, _, rfl⟩
    · exact ⟨_, _, rfl⟩
  · intro kind ⟨_, hrefuses⟩
    have hkey : HasKey (.object [([], .null)]) [] := ⟨_, .self _, List.mem_singleton_self _⟩
    obtain ⟨e, t, herr⟩ := hrefuses ⟨[], hkey, fun hcarried => hcarried.1 rfl⟩
    rw [hencode] at herr
    cases herr

end Amf

end Livego
