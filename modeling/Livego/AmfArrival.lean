import Livego.AmfRoundTrip

/-! What a batch of values says where it arrives: AMF0 has one kind of number, and keeps the order in which the entries
of a map were come to. -/

namespace Livego

open Fallible Call

namespace Amf

mutual
/-- What a value arrives as. -/
def Value.arrived : Value → Value
  | .int n => .number (Float64.ofInt n)
  | .bytes bs => .array (bs.map fun b => .number (Float64.ofInt b.toNat))
  | .array arr => .array (arrivedElements arr)
  | .object obj => .object (arrivedEntries obj)
  | v => v

def arrivedElements : List Value → List Value
  | [] => []
  | v :: vs => v.arrived :: arrivedElements vs

def arrivedEntries : List (Bytes × Value) → List (Bytes × Value)
  | [] => []
  | (k, v) :: entries => (k, v.arrived) :: arrivedEntries entries
end

@[simp] theorem arrived_null : Value.null.arrived = .null := by simp [Value.arrived]
@[simp] theorem arrived_bool (b : Bool) : (Value.bool b).arrived = .bool b := by simp [Value.arrived]
@[simp] theorem arrived_int (n : Int) : (Value.int n).arrived = .number (Float64.ofInt n) := by rw [Value.arrived]
@[simp] theorem arrived_number (bits : UInt64) : (Value.number bits).arrived = .number bits := by simp [Value.arrived]
@[simp] theorem arrived_string (str : Bytes) : (Value.string str).arrived = .string str := by simp [Value.arrived]
@[simp] theorem arrived_object (obj : Object) : (Value.object obj).arrived = .object (arrivedEntries obj) := by
  rw [Value.arrived]

theorem arrivedElements_eq (vs : List Value) : arrivedElements vs = vs.map Value.arrived := by
  induction vs with
  | nil => rw [arrivedElements, List.map_nil]
  | cons v vs ih => rw [arrivedElements, ih, List.map_cons]

theorem arrivedEntries_eq (entries : Object) :
    arrivedEntries entries = entries.map fun e => (e.1, e.2.arrived) := by
  induction entries with
  | nil => rw [arrivedEntries, List.map_nil]
  | cons e entries ih => rw [arrivedEntries, ih, List.map_cons]

theorem elementsBytes_congr {vs : List Value} (h : ∀ v ∈ vs, amf0Bytes v.arrived = amf0Bytes v) :
    elementsBytes (vs.map Value.arrived) = elementsBytes vs := by
  induction vs with
  | nil => rfl
  | cons v vs ih =>
      rw [List.map_cons, elementsBytes, elementsBytes, h v List.mem_cons_self,
        ih fun u hu => h u (List.mem_cons_of_mem v hu)]

theorem entriesBytes_congr {entries : Object} (h : ∀ e ∈ entries, amf0Bytes e.2.arrived = amf0Bytes e.2) :
    entriesBytes (entries.map fun e => (e.1, e.2.arrived)) = entriesBytes entries := by
  induction entries with
  | nil => rfl
  | cons e entries ih =>
      rw [List.map_cons, entriesBytes, entriesBytes, h e List.mem_cons_self,
        ih fun u hu => h u (List.mem_cons_of_mem e hu)]

/-- What arrives is what was encoded. -/
theorem amf0Bytes_arrived {v : Value} (h : Encodable v) : amf0Bytes v.arrived = amf0Bytes v := by
  induction h with
  | int n => rw [arrived_int, amf0Bytes, amf0Bytes]
  | bytes bs =>
      have hbytes : elementsBytes (bs.map fun b => Value.number (Float64.ofInt b.toNat)) =
          bs.flatMap fun b => numberBytes (Float64.ofInt b.toNat) := by
        induction bs with
        | nil => rfl
        | cons b bs ih => rw [List.map_cons, elementsBytes, ih, List.flatMap_cons, amf0Bytes]
      rw [Value.arrived, amf0Bytes, amf0Bytes, hbytes, List.length_map]
  | array _ ih => rw [Value.arrived, amf0Bytes, amf0Bytes, arrivedElements_eq, elementsBytes_congr ih, List.length_map]
  | object _ ih => rw [arrived_object, amf0Bytes, amf0Bytes, arrivedEntries_eq, entriesBytes_congr ih]
  | null => rw [arrived_null]
  | bool b => rw [arrived_bool]
  | number bits => rw [arrived_number]
  | string str => rw [arrived_string]

/-- A value that arrives whole: strings and keys have lengths that fit, and no key of a map is empty. -/
inductive Portable : Value → Prop
  | null : Portable .null
  | bool (b : Bool) : Portable (.bool b)
  | int (n : Int) : Portable (.int n)
  | number (bits : UInt64) : Portable (.number bits)
  | string {str : Bytes} (hlen : str.length < 2 ^ 32) : Portable (.string str)
  | object {obj : Object} (hnodup : (obj.map Prod.fst).Nodup)
      (hkeys : ∀ e ∈ obj, e.1 ≠ [] ∧ e.1.length < 2 ^ 16) (hvalues : ∀ e ∈ obj, Portable e.2) : Portable (.object obj)

theorem Portable.encodable {v : Value} (h : Portable v) : Encodable v := by
  induction h with
  | null => exact .null
  | bool b => exact .bool b
  | int n => exact .int n
  | number bits => exact .number bits
  | string _ => exact .string _
  | object _ _ _ ih => exact .object ih

theorem Portable.plain {v : Value} (h : Portable v) : Plain v.arrived := by
  induction h with
  | null => exact arrived_null ▸ .null
  | bool b => exact arrived_bool b ▸ .bool b
  | int n => exact arrived_int n ▸ .number _
  | number bits => exact arrived_number bits ▸ .number bits
  | @string str hlen => exact arrived_string str ▸ .string hlen
  | @object obj hnodup hkeys _ ih =>
      rw [arrived_object, arrivedEntries_eq]
      refine .object ?_ ?_ ?_
      · rwa [List.map_map]
      · intro e he
        obtain ⟨e', he', rfl⟩ := List.mem_map.mp he
        exact hkeys e' he'
      · intro e he
        obtain ⟨e', he', rfl⟩ := List.mem_map.mp he
        exact ih e' he'

theorem length_le_amf0Bytes (str : Bytes) : str.length ≤ (amf0Bytes (.string str)).length := by
  rw [amf0Bytes]
  split
  · simp only [stringBytes, List.length_cons, List.length_append]
    omega
  · simp only [List.length_cons, List.length_append]
    omega

theorem length_le_entriesBytes {e : Bytes × Value} {entries : Object} (h : e ∈ entries) :
    (amf0Bytes e.2).length ≤ (entriesBytes entries).length := by
  induction entries with
  | nil => cases h
  | cons e' entries ih =>
      obtain ⟨k, v⟩ := e'
      rw [entriesBytes, List.length_append, List.length_append]
      rcases List.mem_cons.mp h with rfl | h
      · dsimp only
        omega
      · have := ih h
        omega

theorem length_le_batchBytes {v : Value} {vs : List Value} (h : v ∈ vs) :
    (amf0Bytes v).length ≤ (batchBytes vs).length := by
  induction vs with
  | nil => cases h
  | cons u vs ih =>
      rw [batchBytes, List.length_append]
      rcases List.mem_cons.mp h with rfl | h
      · exact Nat.le_add_right _ _
      · exact (ih h).trans (Nat.le_add_left _ _)

/-- A string of a batch is shorter than the batch. -/
theorem length_lt_of_mem {str : Bytes} {vs : List Value} {n : Nat} (h : .string str ∈ vs)
    (hlt : (batchBytes vs).length < n) : str.length < n :=
  (length_le_amf0Bytes str).trans_lt ((length_le_batchBytes h).trans_lt hlt)

theorem batchBytes_arrived {vs : List Value} (h : ∀ v ∈ vs, Encodable v) :
    batchBytes (vs.map Value.arrived) = batchBytes vs := by
  induction vs with
  | nil => rfl
  | cons v vs ih =>
      rw [List.map_cons, batchBytes, batchBytes, amf0Bytes_arrived (h v List.mem_cons_self),
        ih fun u hu => h u (List.mem_cons_of_mem v hu)]

/-- A batch arrives value by value, and ends with the plain `EOF`. -/
theorem decodeBatch_arrived {kind : ReaderKind} {vs : List Value} (h : ∀ v ∈ vs, Portable v)
    (hend : Ends kind (vs.map Value.arrived)) (d : Decoder) :
    decodeBatch 0 ⟨d, ⟨kind, batchBytes vs⟩⟩ = .ok (vs.map Value.arrived, .eof) ⟨d, ⟨kind, []⟩⟩ := by
  rw [← batchBytes_arrived fun v hv => (h v hv).encodable]
  refine decodeBatch_batchBytes (fun v hv => ?_) hend d
  obtain ⟨u, hu, rfl⟩ := List.mem_map.mp hv
  exact (h u hu).plain

theorem ends_of_getLast {kind : ReaderKind} {vs : List Value} {v : Value} (hlast : vs.getLast? = some v)
    (hv : ¬v.EndsEmpty) : Ends kind vs := by
  refine Or.inr fun u hu => ?_
  rw [hlast] at hu
  cases hu
  exact hv

/-! ### Maps in any order -/

theorem length_entriesBytes_perm {obj obj' : Object} (h : obj.Perm obj') :
    (entriesBytes obj).length = (entriesBytes obj').length := by
  induction h with
  | nil => rfl
  | cons e _ ih => simp [entriesBytes, ih]
  | swap e e' entries => simp [entriesBytes]; omega
  | trans _ _ ih ih' => exact ih.trans ih'

theorem lookup_of_mem {β : Type} {obj : List (Bytes × β)} (hnodup : (obj.map Prod.fst).Nodup) {key : Bytes} {v : β}
    (h : (key, v) ∈ obj) : obj.lookup key = some v := by
  obtain ⟨front, back, rfl⟩ := List.append_of_mem h
  refine List.lookup_eq_some_iff.mpr ⟨front, back, rfl, fun e he => ?_⟩
  rw [List.map_append, List.map_cons, List.nodup_append] at hnodup
  have hne := hnodup.2.2 e.1 (List.mem_map_of_mem he) key List.mem_cons_self
  simpa using hne.symm

theorem length_amf0Bytes_perm {obj obj' : Object} (h : obj.Perm obj') :
    (amf0Bytes (.object obj)).length = (amf0Bytes (.object obj')).length := by
  simp only [amf0Bytes, List.length_cons, List.length_append, length_entriesBytes_perm h]

/-- A string in a map of a batch is shorter than the batch. -/
theorem length_le_of_mem_object {obj : Object} {key str : Bytes} {vs : List Value} (he : (key, .string str) ∈ obj)
    (hobj : .object obj ∈ vs) : str.length ≤ (batchBytes vs).length := by
  have hbatch := length_le_batchBytes hobj
  rw [amf0Bytes, List.length_cons, List.length_append] at hbatch
  calc str.length
      ≤ (amf0Bytes (.string str)).length := length_le_amf0Bytes str
    _ ≤ (entriesBytes obj).length := length_le_entriesBytes he
    _ ≤ (batchBytes vs).length := by omega

/-- A map with these keys. -/
theorem Portable.of_keys {obj : Object} (keys : List Bytes) (hobj : obj.map Prod.fst = keys) (hnodup : keys.Nodup)
    (hkeys : ∀ key ∈ keys, key ≠ [] ∧ key.length < 2 ^ 16) (hvalues : ∀ e ∈ obj, Portable e.2) :
    Portable (.object obj) := by
  subst hobj
  exact .object hnodup (fun e he => hkeys e.1 (List.mem_map_of_mem he)) hvalues

/-- The order does not matter to whether a map arrives. -/
theorem Portable.perm {obj obj' : Object} (h : Portable (.object obj)) (hperm : obj'.Perm obj) :
    Portable (.object obj') := by
  cases h with
  | object hnodup hkeys hvalues =>
      exact .object ((hperm.map Prod.fst).nodup_iff.mpr hnodup) (fun e he => hkeys e (hperm.mem_iff.mp he))
        fun e he => hvalues e (hperm.mem_iff.mp he)

/-- Whatever order the entries of a map are come to in, looking one up finds what was put there. -/
theorem lookup_perm {obj obj' : Object} (hperm : obj'.Perm obj) (hnodup : (obj.map Prod.fst).Nodup) (key : Bytes) :
    obj'.lookup key = obj.lookup key := by
  have hnodup' : (obj'.map Prod.fst).Nodup := (hperm.map Prod.fst).nodup_iff.mpr hnodup
  cases hlookup : obj.lookup key with
  | none =>
      rw [List.lookup_eq_none_iff] at hlookup ⊢
      exact fun e he => hlookup e (hperm.mem_iff.mp he)
  | some v =>
      obtain ⟨front, back, rfl, -⟩ := List.lookup_eq_some_iff.mp hlookup
      exact lookup_of_mem hnodup' (hperm.mem_iff.mpr (by simp))

theorem lookup_arrivedEntries (obj : Object) (key : Bytes) :
    (arrivedEntries obj).lookup key = (obj.lookup key).map Value.arrived := by
  induction obj with
  | nil => rfl
  | cons e obj ih =>
      obtain ⟨k, v⟩ := e
      rw [arrivedEntries, List.lookup_cons, List.lookup_cons, ih]
      cases key == k <;> rfl

/-- What is looked up in a map once it has arrived, whatever the order in which its entries were written. -/
theorem lookup_arrived {obj obj' : Object} (hperm : obj'.Perm obj) (hnodup : (obj.map Prod.fst).Nodup) (key : Bytes) :
    (arrivedEntries obj').lookup key = (obj.lookup key).map Value.arrived := by
  rw [lookup_arrivedEntries, lookup_perm hperm hnodup]

end Amf

end Livego
