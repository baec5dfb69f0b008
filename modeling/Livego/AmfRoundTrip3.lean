import Livego.AmfEncoder3
import Livego.AmfArrival

/-! What the AMF3 encoder writes, the AMF3 decoder reads back. The tables of the decoder grow on the way, but nothing
that the encoder writes refers to them. -/

namespace Livego

open Fallible Call

namespace Amf

/-! ### Integers of 29 bits -/

/-- A number of 29 bits, in as few bytes as it takes. -/
def u29Bytes (val : Nat) : Bytes :=
  if val ≤ 0x0000007f then [UInt8.ofNat val]
  else if val ≤ 0x00003fff then [UInt8.ofNat (val >>> 7 ||| 0x80), UInt8.ofNat (val &&& 0x7f)]
  else if val ≤ 0x001fffff then
    [UInt8.ofNat (val >>> 14 ||| 0x80), UInt8.ofNat (val >>> 7 &&& 0x7f ||| 0x80), UInt8.ofNat (val &&& 0x7f)]
  else
    [UInt8.ofNat (val >>> 22 ||| 0x80), UInt8.ofNat (val >>> 15 &&& 0x7f ||| 0x80),
      UInt8.ofNat (val >>> 8 &&& 0x7f ||| 0x80), UInt8.ofNat val]

theorem writes_encodeAmf3Uint29 {val : Nat} (h : val < 2 ^ 29) : Writes (encodeAmf3Uint29 val) (u29Bytes val) := by
  unfold encodeAmf3Uint29 u29Bytes
  have hle : val ≤ 0x1fffffff := by omega
  rw [if_pos hle]
  split_ifs <;> exact fun _ => rfl

/-- A byte of seven bits after which more follow. -/
theorem middleByte {x : Nat} (hx : x < 128) :
    UInt8.ofNat (x ||| 0x80) &&& 0x80 ≠ 0 ∧ (UInt8.ofNat (x ||| 0x80) &&& 0x7f).toNat = x := by
  have hall : ∀ x : Fin 128,
      UInt8.ofNat (x.val ||| 0x80) &&& 0x80 ≠ 0 ∧ (UInt8.ofNat (x.val ||| 0x80) &&& 0x7f).toNat = x.val := by decide
  exact hall ⟨x, hx⟩

/-- A byte of seven bits with which a number ends. -/
theorem lastByte {x : Nat} (hx : x < 128) : UInt8.ofNat x &&& 0x80 = 0 ∧ (UInt8.ofNat x &&& 0x7f).toNat = x := by
  have hall : ∀ x : Fin 128, UInt8.ofNat x.val &&& 0x80 = 0 ∧ (UInt8.ofNat x.val &&& 0x7f).toNat = x.val := by decide
  exact hall ⟨x, hx⟩

variable {kind : ReaderKind} {rest : Bytes}

theorem decodes_middle {i result x v : Nat} {bs : Bytes} (hx : x < 128)
    (h : Decodes kind rest (u29Loop i (result * 128 + x)) v bs) :
    Decodes kind rest (u29Loop (i + 1) result) v (UInt8.ofNat (x ||| 0x80) :: bs) := by
  obtain ⟨hmore, hbits⟩ := middleByte hx
  refine (decodes_readByte (UInt8.ofNat (x ||| 0x80))).bind ?_
  rw [if_neg hmore, hbits, Nat.shiftLeft_eq]
  exact h

theorem decodes_last {i result x v : Nat} (hx : x < 128) (hv : result * 128 + x = v) :
    Decodes kind rest (u29Loop (i + 1) result) v [UInt8.ofNat x] := by
  obtain ⟨hend, hbits⟩ := lastByte hx
  refine (decodes_readByte (UInt8.ofNat x)).bind ?_
  rw [if_pos hend, hbits, Nat.shiftLeft_eq]
  exact hv ▸ .pure _

/-- The fourth byte has eight bits of the number. -/
theorem decodes_fourth {result x v : Nat} (hv : result * 256 + x % 256 = v) :
    Decodes kind rest (u29Loop 0 result) v [UInt8.ofNat x] := by
  refine (decodes_readByte (UInt8.ofNat x)).bind ?_
  rw [Nat.shiftLeft_eq, UInt8.toNat_ofNat']
  exact hv ▸ .pure _

/-- A number of 29 bits reads back. -/
theorem decodes_decodeU29 {val : Nat} (h : val < 2 ^ 29) : Decodes kind rest decodeU29 val (u29Bytes val) := by
  have hmask : ∀ n : Nat, n &&& 0x7f = n % 2 ^ 7 := fun n => Nat.and_two_pow_sub_one_eq_mod n 7
  have hmod : ∀ n : Nat, n % 2 ^ 7 < 128 := fun n => Nat.mod_lt n (by decide)
  unfold u29Bytes decodeU29
  simp only [hmask, Nat.shiftRight_eq_div_pow]
  split_ifs with h1 h2 h3
  · exact decodes_last (by omega) (by omega)
  · exact decodes_middle (by omega) (decodes_last (hmod _) (by omega))
  · exact decodes_middle (by omega) (decodes_middle (hmod _) (decodes_last (hmod _) (by omega)))
  · exact decodes_middle (by omega) (decodes_middle (hmod _) (decodes_middle (hmod _) (decodes_fourth (by omega))))

/-! ### Reading while the tables grow -/

/-- Before `rest` the call reads exactly `bs` from a buffer and returns `a`, whatever it does to the tables. -/
def DecodesAs {α : Type} (rest : Bytes) (x : Dec α) (a : α) (bs : Bytes) : Prop :=
  ∀ d : Decoder, ∃ d', x ⟨d, ⟨.bytesBuffer, bs ++ rest⟩⟩ = .ok a ⟨d', ⟨.bytesBuffer, rest⟩⟩

section
variable {α β : Type} {x : Dec α} {f : α → Dec β} {a : α} {b : β} {bs bs' : Bytes}

theorem Decodes.decodesAs (h : Decodes .bytesBuffer rest x a bs) : DecodesAs rest x a bs := fun d => ⟨d, h d⟩

theorem DecodesAs.bind (hx : DecodesAs (bs' ++ rest) x a bs) (hf : DecodesAs rest (f a) b bs') :
    DecodesAs rest (x >>= f) b (bs ++ bs') := by
  intro d
  obtain ⟨d1, hx⟩ := hx d
  obtain ⟨d2, hf⟩ := hf d1
  exact ⟨d2, by rw [List.append_assoc, bind_of_ok hx, hf]⟩

/-- A call that reads everything, then one that reads nothing. -/
theorem DecodesAs.bind_nil (hx : DecodesAs rest x a bs) (hf : DecodesAs rest (f a) b []) : DecodesAs rest (x >>= f) b bs := by
  have hboth := @DecodesAs.bind rest _ _ x f a b bs [] hx hf
  rwa [List.append_nil] at hboth

theorem DecodesAs.map (hx : DecodesAs rest x a bs) (g : α → β) : DecodesAs rest (x >>= fun a => pure (g a)) (g a) bs := by
  intro d
  obtain ⟨d', hx⟩ := hx d
  exact ⟨d', by rw [bind_of_ok hx, pure_apply]⟩

theorem DecodesAs.wrap (hx : DecodesAs rest x a bs) (text : String) : DecodesAs rest (wrap text x) a bs := by
  intro d
  obtain ⟨d', hx⟩ := hx d
  exact ⟨d', mapErr_of_ok hx⟩

/-- What is done to the tables alone reads nothing. -/
theorem DecodesAs.record (g : Decoder → Decoder) (hx : DecodesAs rest x a bs) : DecodesAs rest (record g >>= fun _ => x) a bs :=
  fun d => hx (g d)

theorem DecodesAs.pure (a : α) : DecodesAs rest (pure a) a [] := fun d => ⟨d, rfl⟩

end

theorem decodeAmf3_marker {marker : UInt8} {v : Value} {bs : Bytes} (h : DecodesAs rest (amf3Value decodeAmf3 marker) v bs) :
    DecodesAs rest decodeAmf3 v (marker :: bs) := by
  have hmarker : DecodesAs (bs ++ rest) readMarker marker [marker] := (decodes_readByte marker).decodesAs
  intro d
  rw [decodeAmf3_eq]
  exact hmarker.bind h d

theorem decodes_decodeReferenceInt {val : Nat} (h : val < 2 ^ 29) (context : String) :
    Decodes kind rest (wrap context decodeReferenceInt) ⟨decide (val &&& 1 = 0), val >>> 1⟩ (u29Bytes val) :=
  (((decodes_decodeU29 h).wrap _).map fun u29 => (⟨decide (u29 &&& 1 = 0), u29 >>> 1⟩ : ReferenceInt)).wrap context

/-- A header that is not a reference. -/
theorem decodes_inline {n : Nat} (hn : n < 2 ^ 28) (context : String) :
    Decodes kind rest (wrap context decodeReferenceInt) ⟨false, n⟩ (u29Bytes (2 * n + 1)) := by
  have hlow : decide ((2 * n + 1) &&& 1 = 0) = false := by
    rw [Nat.and_one_is_mod]
    exact decide_eq_false (by omega)
  have hhigh : (2 * n + 1) >>> 1 = n := by
    rw [Nat.shiftRight_eq_div_pow]
    omega
  have href := @decodes_decodeReferenceInt kind rest (2 * n + 1) (by omega) context
  rwa [hlow, hhigh] at href

theorem decodesAs_inline {n : Nat} (hn : n < 2 ^ 28) (context : String) :
    DecodesAs rest (wrap context decodeReferenceInt) ⟨false, n⟩ (u29Bytes (2 * n + 1)) :=
  (decodes_inline hn context).decodesAs

/-- A string with its length in front. -/
def utf8Bytes (val : Bytes) : Bytes := u29Bytes (2 * val.length + 1) ++ val

theorem decodes_fill (val : Bytes) : Decodes .bytesBuffer rest (fill val.length) val val := by
  intro d
  have hread : read val.length ⟨d, ⟨.bytesBuffer, val ++ rest⟩⟩ = .ok val ⟨d, ⟨.bytesBuffer, rest⟩⟩ := by
    unfold read
    rw [if_neg]
    · simp [Decoding.skip]
    · rintro ⟨hnil, hkind | hlen⟩
      · cases hkind
      · exact hlen (by rw [(List.append_eq_nil_iff.mp hnil).1]; rfl)
  rw [fill, bind_of_ok hread, Nat.sub_self]
  simp

theorem decodesAs_decodeAmf3String {val : Bytes} (hlen : val.length < 2 ^ 28) :
    DecodesAs rest (decodeAmf3String false) val (utf8Bytes val) := by
  rw [decodeAmf3String, assertMarker_false, pure_bind]
  refine (decodesAs_inline hlen _).bind ?_
  rw [if_neg Bool.false_ne_true]
  refine DecodesAs.bind_nil ((decodes_fill val).decodesAs.wrap _) ?_
  split_ifs
  · exact .record _ (.pure _)
  · exact .pure _

theorem decodesAs_times {vs : List (Value × Bytes)} {text : String}
    (h : ∀ v ∈ vs, ∀ rest, DecodesAs rest decodeAmf3 v.1 v.2) :
    DecodesAs rest ((wrap text decodeAmf3).times vs.length) (vs.map Prod.fst) (vs.flatMap Prod.snd) := by
  induction vs with
  | nil => exact .pure []
  | cons v vs ih =>
      rw [List.flatMap_cons]
      have htail := ih fun u hu => h u (List.mem_cons_of_mem v hu)
      exact ((h v List.mem_cons_self _).wrap text).bind (htail.map fun as => v.1 :: as)

/-- The values of an object, each with its encoding, after the entries that it already has. -/
theorem decodesAs_decodeEntries {entries : List (Bytes × Value × Bytes)} {context : String} {obj : Object}
    (hnodup : (obj.map Prod.fst ++ entries.map Prod.fst).Nodup)
    (h : ∀ e ∈ entries, ∀ rest, DecodesAs rest decodeAmf3 e.2.1 e.2.2) :
    DecodesAs rest (decodeEntries decodeAmf3 ((entries.map Prod.fst).map fun key => (key, context)) obj)
      (obj ++ entries.map fun e => (e.1, e.2.1)) (entries.flatMap fun e => e.2.2) := by
  induction entries generalizing obj with
  | nil =>
      have hnil : obj ++ ([] : List (Bytes × Value × Bytes)).map (fun e => (e.1, e.2.1)) = obj := List.append_nil obj
      rw [hnil]
      exact .pure obj
  | cons e entries ih =>
      have hkey : e.1 ∉ obj.map Prod.fst := by
        rw [List.nodup_append] at hnodup
        exact fun hmem => hnodup.2.2 e.1 hmem e.1 List.mem_cons_self rfl
      have hinsert := Object.insert_of_notMem hkey e.2.1
      have hnodup' : ((obj.insert e.1 e.2.1).map Prod.fst ++ entries.map Prod.fst).Nodup := by
        rw [hinsert, List.map_append, List.append_assoc]
        exact hnodup
      have htail := @ih (obj.insert e.1 e.2.1) hnodup' fun u hu => h u (List.mem_cons_of_mem e hu)
      rw [hinsert, List.append_assoc] at htail
      rw [List.flatMap_cons]
      refine ((h e List.mem_cons_self _).wrap _).bind ?_
      rw [hinsert]
      exact htail

theorem decodesAs_properties {keys : List Bytes} (hkeys : ∀ key ∈ keys, key.length < 2 ^ 28) (context : String) :
    DecodesAs rest ((wrap context (decodeAmf3String false)).times keys.length) keys (keys.flatMap utf8Bytes) := by
  induction keys with
  | nil => exact .pure []
  | cons key keys ih =>
      rw [List.flatMap_cons]
      have htail := ih fun k hk => hkeys k (List.mem_cons_of_mem key hk)
      exact ((decodesAs_decodeAmf3String (hkeys key List.mem_cons_self)).wrap context).bind (htail.map fun ks => key :: ks)

/-- The header of an object whose trait is neither a reference, nor externalizable, nor dynamic. -/
def traitHeader (n : Nat) : Nat := 8 * n + 1

theorem decodesAs_decodeTrait {type : Bytes} {keys : List Bytes} (htype : type.length < 2 ^ 28)
    (hkeys : ∀ key ∈ keys, key.length < 2 ^ 28) :
    DecodesAs rest (decodeTrait (traitHeader keys.length)) { type, properties := keys }
      (utf8Bytes type ++ keys.flatMap utf8Bytes) := by
  have hinline : ¬traitHeader keys.length &&& 1 = 0 := by
    rw [Nat.and_one_is_mod, traitHeader]
    omega
  have hlength : traitHeader keys.length >>> 3 = keys.length := by
    rw [Nat.shiftRight_eq_div_pow, traitHeader]
    omega
  have hlow : traitHeader keys.length &&& 7 = 1 := by
    rw [Nat.and_two_pow_sub_one_eq_mod _ 3, traitHeader]
    omega
  have hflags : traitHeader keys.length &&& 2 = 0 ∧ traitHeader keys.length &&& 4 = 0 := by
    have hpart : ∀ m, 7 &&& m = m → traitHeader keys.length &&& m = 1 &&& m := by
      intro m hm
      rw [← hm, ← Nat.and_assoc, hlow, hm]
    exact ⟨hpart 2 rfl, hpart 4 rfl⟩
  rw [decodeTrait, if_neg hinline, hlength]
  refine ((decodesAs_decodeAmf3String htype).wrap _).bind (DecodesAs.bind_nil (decodesAs_properties hkeys _) ?_)
  simp only [hflags]
  exact .record _ (.pure _)

/-- An object is read back with its entries in the order in which they were written. -/
theorem decodesAs_object {type : Bytes} {entries : List (Bytes × Value × Bytes)} (htype : type.length < 2 ^ 28)
    (hlen : entries.length < 2 ^ 25) (hkeys : ∀ e ∈ entries, e.1.length < 2 ^ 28)
    (hnodup : (entries.map Prod.fst).Nodup) (h : ∀ e ∈ entries, ∀ rest, DecodesAs rest decodeAmf3 e.2.1 e.2.2) :
    DecodesAs rest decodeAmf3 (.object (entries.map fun e => (e.1, e.2.1)))
      (amf3ObjectMarker :: (u29Bytes (2 * traitHeader entries.length + 1) ++ (utf8Bytes type ++
        (entries.map Prod.fst).flatMap utf8Bytes ++ entries.flatMap fun e => e.2.2))) := by
  have hkeys' : ∀ key ∈ entries.map Prod.fst, key.length < 2 ^ 28 := by
    intro key hkey
    obtain ⟨e, he, rfl⟩ := List.mem_map.mp hkey
    exact hkeys e he
  have hlength : entries.length = (entries.map Prod.fst).length := (List.length_map _).symm
  have hentries := @decodesAs_decodeEntries rest entries "amf3 decode: unable to decode object property" []
    (by rwa [List.map_nil, List.nil_append]) h
  refine decodeAmf3_marker ?_
  change DecodesAs rest (decodeAmf3Object decodeAmf3 false) _ _
  rw [decodeAmf3Object, assertMarker_false, pure_bind]
  refine (decodesAs_inline (by rw [traitHeader]; omega) _).bind ?_
  rw [if_neg Bool.false_ne_true, hlength]
  refine (decodesAs_decodeTrait htype hkeys').bind (.record _ ?_)
  rw [decodeObjectBody, if_neg Bool.false_ne_true]
  exact hentries.map Value.object

/-! ### Encoding -/

theorem inlineLength_eq {n : Nat} (hn : n < 2 ^ 28) : inlineLength n = 2 * n + 1 := by
  have hsmall : u32 (u32 n <<< 1) = n <<< 1 := by
    have hn32 : u32 n = n := u32_of_lt (by omega)
    rw [hn32, u32_of_lt (by rw [Nat.shiftLeft_eq]; omega)]
  rw [inlineLength, hsmall, ← Nat.shiftLeft_add_eq_or_of_lt (by decide : 1 < 2 ^ 1), Nat.shiftLeft_eq]
  omega

theorem writes_encodeAmf3Utf8 {val : Bytes} (hlen : val.length < 2 ^ 28) :
    Writes (encodeAmf3Utf8 val) (utf8Bytes val) := by
  have hlength := writes_encodeAmf3Uint29 (by omega : 2 * val.length + 1 < 2 ^ 29)
  rw [← inlineLength_eq hlen] at hlength
  have hvalue : Writes (writeBytes val) val := fun _ => rfl
  rw [utf8Bytes, ← inlineLength_eq hlen]
  exact (hlength.wrap _).add (hvalue.wrap _)

theorem writes_encodeProperties {keys : List Bytes} (hkeys : ∀ key ∈ keys, key.length < 2 ^ 28) :
    Writes (encodeProperties keys) (keys.flatMap utf8Bytes) := by
  induction keys with
  | nil => exact fun w => by simp [encodeProperties]
  | cons key keys ih =>
      rw [List.flatMap_cons]
      exact ((writes_encodeAmf3Utf8 (hkeys key List.mem_cons_self)).wrap _).add
        (ih fun k hk => hkeys k (List.mem_cons_of_mem key hk))

theorem writes_encodeSealed {calls : List (Bytes × Enc Nat)} {entries : List (Bytes × Value × Bytes)}
    (h : ∀ e ∈ entries, ∃ x, calls.lookup e.1 = some x ∧ Writes x e.2.2) :
    Writes (encodeSealed calls (entries.map Prod.fst)) (entries.flatMap fun e => e.2.2) := by
  induction entries with
  | nil => exact fun w => by simp [encodeSealed]
  | cons e entries ih =>
      obtain ⟨x, hlookup, hx⟩ := h e List.mem_cons_self
      rw [List.flatMap_cons, List.map_cons, encodeSealed, hlookup]
      exact (hx.wrap _).add (ih fun e' he => h e' (List.mem_cons_of_mem e he))

/-- An object whose values are encoded by the given calls. -/
theorem writes_object {type : Bytes} {calls : List (Bytes × Enc Nat)} {entries : List (Bytes × Value × Bytes)}
    (hsort : sortStrings (calls.map Prod.fst) = entries.map Prod.fst) (htype : type.length < 2 ^ 28)
    (hlen : entries.length < 2 ^ 25) (hkeys : ∀ e ∈ entries, e.1.length < 2 ^ 28)
    (h : ∀ e ∈ entries, ∃ x, calls.lookup e.1 = some x ∧ Writes x e.2.2) :
    Writes (encodeAmf3ObjectWith type calls true)
      (amf3ObjectMarker :: (u29Bytes (2 * traitHeader entries.length + 1) ++ (utf8Bytes type ++
        (entries.map Prod.fst).flatMap utf8Bytes ++ entries.flatMap fun e => e.2.2))) := by
  have hheader : 0x03 ||| u32 (u32 (entries.map Prod.fst).length <<< 4) = 2 * traitHeader entries.length + 1 := by
    have hlen32 : u32 entries.length = entries.length := u32_of_lt (by omega)
    rw [List.length_map, hlen32, u32_of_lt (by rw [Nat.shiftLeft_eq]; omega), Nat.or_comm,
      ← Nat.shiftLeft_add_eq_or_of_lt (by decide : 0x03 < 2 ^ 4), Nat.shiftLeft_eq, traitHeader]
    omega
  have hu29 := writes_encodeAmf3Uint29 (by rw [traitHeader]; omega : 2 * traitHeader entries.length + 1 < 2 ^ 29)
  have hproperties : Writes (encodeProperties (entries.map Prod.fst)) ((entries.map Prod.fst).flatMap utf8Bytes) := by
    apply writes_encodeProperties
    intro key hkey
    obtain ⟨e, he, rfl⟩ := List.mem_map.mp hkey
    exact hkeys e he
  have hmarker : Writes (writeMarkerIf true amf3ObjectMarker) [amf3ObjectMarker] := fun _ => rfl
  intro w
  rw [encodeAmf3ObjectWith, bind_of_ok (hmarker w), hsort, hheader, bind_of_ok ((hu29.wrap _) _),
    bind_of_ok (((writes_encodeAmf3Utf8 htype).wrap _) _), bind_of_ok (hproperties _), bind_of_ok (writes_encodeSealed h _), pure_apply]
  simp only [List.length_cons, List.length_append, List.length_nil, List.append_assoc, List.cons_append,
    List.nil_append]
  congr 1
  omega

theorem writes_encodeAmf3Double (val : UInt64) :
    Writes (encodeAmf3Double val true) (amf3DoubleMarker :: Endian.beBytes 8 val.toNat) := by
  intro w
  simp [encodeAmf3Double, writeMarkerIf, writeMarker, writeUint, writeBytes, bind_apply]

theorem decodesAs_double (bits : UInt64) :
    DecodesAs rest decodeAmf3 (.number bits) (amf3DoubleMarker :: Endian.beBytes 8 bits.toNat) :=
  decodeAmf3_marker (((decodes_readFloat64 bits).wrap _).map Value.number).decodesAs

/-- The loop over the elements, each with what it is written as. -/
theorem writes_encodeElements3 {vs : List GoValue} {encoded : List (Value × Bytes)}
    (h : List.Forall₂ (fun v e => Writes (encodeAmf3 v) e.2) vs encoded) :
    Writes (encodeElements3 vs) (encoded.flatMap Prod.snd) := by
  induction h with
  | nil => exact fun w => by simp [encodeElements3]
  | cons hv _ ih =>
      rw [encodeElements3, List.flatMap_cons]
      exact (hv.wrap _).add ih

theorem writes_array {vs : List GoValue} {encoded : List (Value × Bytes)} (hlen : vs.length < 2 ^ 28)
    (h : List.Forall₂ (fun v e => Writes (encodeAmf3 v) e.2) vs encoded) :
    Writes (encodeAmf3 (.array vs))
      (amf3ArrayMarker :: (u29Bytes (2 * vs.length + 1) ++ (utf8Bytes [] ++ encoded.flatMap Prod.snd))) := by
  have hu29 := writes_encodeAmf3Uint29 (by omega : 2 * vs.length + 1 < 2 ^ 29)
  have hmarker : Writes (writeMarkerIf true amf3ArrayMarker) [amf3ArrayMarker] := fun _ => rfl
  have hkey := @writes_encodeAmf3Utf8 [] (by decide)
  intro w
  rw [encodeAmf3, encodeAmf3ArrayWith, bind_of_ok (hmarker w), inlineLength_eq hlen, bind_of_ok ((hu29.wrap _) _),
    bind_of_ok ((hkey.wrap _) _), bind_of_ok (writes_encodeElements3 h _), pure_apply]
  simp only [List.length_cons, List.length_append, List.length_nil, List.append_assoc, List.cons_append,
    List.nil_append]
  congr 1
  omega

theorem decodesAs_array {encoded : List (Value × Bytes)} (hlen : encoded.length < 2 ^ 28)
    (h : ∀ e ∈ encoded, ∀ rest, DecodesAs rest decodeAmf3 e.1 e.2) :
    DecodesAs rest decodeAmf3 (.array (encoded.map Prod.fst))
      (amf3ArrayMarker :: (u29Bytes (2 * encoded.length + 1) ++ (utf8Bytes [] ++ encoded.flatMap Prod.snd))) := by
  refine decodeAmf3_marker (DecodesAs.map (x := decodeAmf3Array decodeAmf3 false) ?_ Value.array)
  rw [decodeAmf3Array, assertMarker_false, pure_bind]
  refine (decodesAs_inline hlen _).bind ?_
  rw [if_neg Bool.false_ne_true]
  refine ((decodesAs_decodeAmf3String (by decide)).wrap _).bind ?_
  rw [if_neg (not_not.mpr rfl)]
  exact DecodesAs.bind_nil (decodesAs_times h) (.record _ (.pure _))

/-! ### The round trip -/

/-- A value with integers, lengths and numbers of entries that 29 bits hold beside the flags. -/
inductive Sendable : GoValue → Prop
  | null : Sendable .null
  | bool (b : Bool) : Sendable (.bool b)
  | int (kind : IntKind) {n : Int} (hn : 0 ≤ n ∧ n < 2 ^ 28) : Sendable (.int kind n)
  | number (bits : UInt64) : Sendable (.number bits)
  | string {str : Bytes} (hlen : str.length < 2 ^ 28) : Sendable (.string str)
  | array {vs : List GoValue} (hlen : vs.length < 2 ^ 28) (helements : ∀ v ∈ vs, Sendable v) : Sendable (.array vs)
  | object {entries : List (Bytes × GoValue)} (hnodup : (entries.map Prod.fst).Nodup) (hlen : entries.length < 2 ^ 25)
      (hkeys : ∀ e ∈ entries, e.1.length < 2 ^ 28) (hvalues : ∀ e ∈ entries, Sendable e.2) : Sendable (.object entries)

/-- What a value comes back as: the same value, but for integers of the wide kinds, which come back as doubles. The
entries of a map may stand in another order. -/
inductive ComesBack : GoValue → Value → Prop
  | null : ComesBack .null .null
  | bool (b : Bool) : ComesBack (.bool b) (.bool b)
  | int {kind : IntKind} (hkind : ¬kind.Wide) (n : Int) : ComesBack (.int kind n) (.int n)
  | wide {kind : IntKind} (hkind : kind.Wide) (n : Int) : ComesBack (.int kind n) (.number (Float64.ofInt n))
  | number (bits : UInt64) : ComesBack (.number bits) (.number bits)
  | string (str : Bytes) : ComesBack (.string str) (.string str)
  | array {vs : List GoValue} {vs' : List Value} (hlen : vs'.length = vs.length)
      (helements : ∀ (i : Nat) (g : GoValue) (v : Value), vs[i]? = some g → vs'[i]? = some v → ComesBack g v) :
      ComesBack (.array vs) (.array vs')
  | object {entries : List (Bytes × GoValue)} {entries' : Object}
      (hkeys : (entries'.map Prod.fst).Perm (entries.map Prod.fst))
      (hvalues : ∀ key g v, (key, g) ∈ entries → (key, v) ∈ entries' → ComesBack g v) :
      ComesBack (.object entries) (.object entries')

/-- A value, what it comes back as, and its encoding. -/
def RoundTrips (g : GoValue) (v : Value) (bs : Bytes) : Prop :=
  ComesBack g v ∧ Writes (encodeAmf3 g) bs ∧ ∀ rest, DecodesAs rest decodeAmf3 v bs

theorem exists_forall₂ {α β : Type} {R : α → β → Prop} {as : List α} (h : ∀ a ∈ as, ∃ b, R a b) :
    ∃ bs, List.Forall₂ R as bs := by
  induction as with
  | nil => exact ⟨[], .nil⟩
  | cons a as ih =>
      obtain ⟨b, hb⟩ := h a List.mem_cons_self
      obtain ⟨bs, hbs⟩ := ih fun a' ha => h a' (List.mem_cons_of_mem a ha)
      exact ⟨b :: bs, .cons hb hbs⟩

theorem forall₂_getElem? {α β : Type} {R : α → β → Prop} {as : List α} {bs : List β} (h : List.Forall₂ R as bs)
    {i : Nat} {a : α} {b : β} (ha : as[i]? = some a) (hb : bs[i]? = some b) : R a b := by
  induction h generalizing i with
  | nil => cases ha
  | cons hr _ ih =>
      cases i with
      | zero =>
          cases ha
          cases hb
          exact hr
      | succ i => exact ih ha hb

theorem forall₂_mem_right {α β : Type} {R : α → β → Prop} {as : List α} {bs : List β} (h : List.Forall₂ R as bs)
    {b : β} (hb : b ∈ bs) : ∃ a ∈ as, R a b := by
  obtain ⟨i, hi⟩ := List.mem_iff_getElem?.mp hb
  obtain ⟨hlt, -⟩ := List.getElem?_eq_some_iff.mp hi
  have hlt' : i < as.length := h.length_eq ▸ hlt
  have ha : as[i]? = some as[i] := List.getElem?_eq_getElem hlt'
  exact ⟨as[i], List.getElem_mem _, forall₂_getElem? h ha hi⟩

/-- An integer in the form of 29 bits. -/
theorem writes_integer {kind : IntKind} (hkind : ¬kind.Wide) {m : Nat} (hm : m < 2 ^ 29) :
    Writes (encodeAmf3 (.int kind m)) (amf3IntegerMarker :: u29Bytes m) := by
  have hrange : (m : Int) ≥ 0 ∧ (m : Int) ≤ amf3IntegerMax := by
    rw [amf3IntegerMax]
    omega
  have hmarker : Writes (writeMarkerIf true amf3IntegerMarker) [amf3IntegerMarker] := fun _ => rfl
  rw [encodeAmf3, if_neg hkind, if_pos hrange, Int.toNat_natCast]
  exact hmarker.add (writes_encodeAmf3Uint29 hm)

/-- The decoder takes bit 28 for a sign. -/
theorem decodesAs_integer {m : Nat} (hm : m < 2 ^ 29) :
    DecodesAs rest decodeAmf3 (.int (if m > 0xfffffff then (m : Int) - 0x20000000 else m)) (amf3IntegerMarker :: u29Bytes m) := by
  refine decodeAmf3_marker (DecodesAs.map (x := decodeAmf3Integer false) ?_ Value.int)
  rw [decodeAmf3Integer, assertMarker_false, Call.pure_bind]
  exact (decodes_decodeU29 hm).decodesAs.map fun u29 => (if u29 > 0xfffffff then (u29 : Int) - 0x20000000 else u29)

/-- An integer in the form of a double. -/
theorem writes_double {kind : IntKind} {n : Int} (h : kind.Wide ∨ n < 0 ∨ 2 ^ 29 ≤ n) :
    Writes (encodeAmf3 (.int kind n)) (amf3DoubleMarker :: Endian.beBytes 8 (Float64.ofInt n).toNat) := by
  rw [encodeAmf3]
  split
  · exact writes_encodeAmf3Double _
  · next hkind =>
      rw [if_neg]
      · exact writes_encodeAmf3Double _
      · have hout := h.resolve_left hkind
        rw [amf3IntegerMax]
        omega

theorem roundTrips_int {kind : IntKind} {n : Int} (hn : 0 ≤ n ∧ n < 2 ^ 28) :
    ∃ v bs, RoundTrips (.int kind n) v bs := by
  by_cases hkind : kind.Wide
  · exact ⟨_, _, .wide hkind n, writes_double (.inl hkind), fun _ => decodesAs_double (Float64.ofInt n)⟩
  · obtain ⟨m, rfl⟩ := Int.eq_ofNat_of_zero_le hn.1
    have hm : m < 2 ^ 29 := by omega
    refine ⟨.int m, amf3IntegerMarker :: u29Bytes m, .int hkind m, writes_integer hkind hm, fun rest => ?_⟩
    have hvalue := @decodesAs_integer rest m hm
    rwa [if_neg (by omega)] at hvalue

/-- The keys that the encoder sorts are those of the map. -/
theorem sortStrings_perm (keys : List Bytes) : (sortStrings keys).Perm keys := List.perm_insertionSort _ keys

theorem encodeEntries3_eq (entries : List (Bytes × GoValue)) :
    encodeEntries3 entries = entries.map fun e => (e.1, encodeAmf3 e.2) := by
  induction entries with
  | nil => rfl
  | cons e entries ih => rw [encodeEntries3, ih, List.map_cons]

theorem Sendable.roundTrips {g : GoValue} (h : Sendable g) : ∃ v bs, RoundTrips g v bs := by
  induction h with
  | null =>
      refine ⟨_, [amf3NullMarker], .null, fun _ => ?_, fun _ => decodeAmf3_marker (.pure _)⟩
      rw [encodeAmf3]
      rfl
  | bool b =>
      cases b with
      | false =>
          refine ⟨_, [amf3FalseMarker], .bool false, fun _ => ?_, fun _ => decodeAmf3_marker (.pure _)⟩
          rw [encodeAmf3]
          rfl
      | true =>
          refine ⟨_, [amf3TrueMarker], .bool true, fun _ => ?_, fun _ => decodeAmf3_marker (.pure _)⟩
          rw [encodeAmf3]
          rfl
  | int kind hn => exact roundTrips_int hn
  | number bits =>
      refine ⟨_, _, .number bits, ?_, fun _ => decodesAs_double bits⟩
      rw [encodeAmf3]
      exact writes_encodeAmf3Double bits
  | @string str hlen =>
      refine ⟨.string str, amf3StringMarker :: utf8Bytes str, .string str, ?_, fun rest => ?_⟩
      · have hmarker : Writes (writeMarkerIf true amf3StringMarker) [amf3StringMarker] := fun _ => rfl
        rw [encodeAmf3]
        exact hmarker.add (writes_encodeAmf3Utf8 hlen)
      · exact decodeAmf3_marker ((decodesAs_decodeAmf3String hlen).map Value.string)
  | @array vs hlen _ ih =>
      obtain ⟨encoded, hencoded⟩ : ∃ encoded : List (Value × Bytes),
          List.Forall₂ (fun g e => RoundTrips g e.1 e.2) vs encoded := by
        apply exists_forall₂
        intro g hg
        obtain ⟨v, bs, h⟩ := ih g hg
        exact ⟨(v, bs), h⟩
      have hlength := hencoded.length_eq
      refine ⟨.array (encoded.map Prod.fst), _, ?_, writes_array hlen (hencoded.imp fun _ _ h => h.2.1), fun rest => ?_⟩
      · refine .array (by rw [List.length_map, hlength]) ?_
        intro i g v hg hv
        rw [List.getElem?_map] at hv
        obtain ⟨e, he, rfl⟩ := Option.map_eq_some_iff.mp hv
        exact (forall₂_getElem? hencoded hg he).1
      · rw [hlength]
        refine decodesAs_array (hlength ▸ hlen) ?_
        intro e he
        obtain ⟨g, -, h⟩ := forall₂_mem_right hencoded he
        exact h.2.2
  | @object entries hnodup hlen hkeys _ ih =>
      have hperm := sortStrings_perm (entries.map Prod.fst)
      obtain ⟨encoded, hencoded⟩ : ∃ encoded : List (Bytes × Value × Bytes),
          List.Forall₂ (fun key e => e.1 = key ∧ ∃ g, (key, g) ∈ entries ∧ RoundTrips g e.2.1 e.2.2)
            (sortStrings (entries.map Prod.fst)) encoded := by
        apply exists_forall₂
        intro key hkey
        obtain ⟨e, he, rfl⟩ := List.mem_map.mp (hperm.mem_iff.mp hkey)
        obtain ⟨v, bs, h⟩ := ih e he
        exact ⟨(e.1, v, bs), rfl, e.2, he, h⟩
      have hsort : sortStrings (entries.map Prod.fst) = encoded.map Prod.fst := by
        rw [← List.forall₂_eq_eq_eq, List.forall₂_map_right_iff]
        exact hencoded.imp fun key e h => h.1.symm
      have hperm' : (encoded.map Prod.fst).Perm (entries.map Prod.fst) := hsort ▸ hperm
      have hlen' : encoded.length < 2 ^ 25 := by
        have hlength := hperm'.length_eq
        rw [List.length_map, List.length_map] at hlength
        rwa [hlength]
      have hfrom : ∀ e ∈ encoded, ∃ g, (e.1, g) ∈ entries ∧ RoundTrips g e.2.1 e.2.2 := by
        intro e he
        obtain ⟨key, -, rfl, h⟩ := forall₂_mem_right hencoded he
        exact h
      have hkeys' : ∀ e ∈ encoded, e.1.length < 2 ^ 28 := by
        intro e he
        obtain ⟨g, hg, -⟩ := hfrom e he
        exact hkeys _ hg
      have hdecodes := fun rest => @decodesAs_object rest [] encoded (by decide) hlen' hkeys' (hperm'.nodup_iff.mpr hnodup)
        fun e he => by
          obtain ⟨g, -, h⟩ := hfrom e he
          exact h.2.2
      refine ⟨.object (encoded.map fun e => (e.1, e.2.1)), _, ?_, ?_, hdecodes⟩
      · refine .object (by rwa [List.map_map]) ?_
        intro key g v hg hv
        obtain ⟨e, he, heq⟩ := List.mem_map.mp hv
        cases heq
        obtain ⟨g', hg', h⟩ := hfrom e he
        have hsame := lookup_of_mem hnodup hg
        rw [lookup_of_mem hnodup hg'] at hsame
        cases hsame
        exact h.1
      · rw [encodeAmf3, encodeEntries3_eq]
        have hcalls : (entries.map fun e => (e.1, encodeAmf3 e.2)).map Prod.fst = entries.map Prod.fst := List.map_map ..
        refine writes_object (by rw [hcalls, hsort]) (by decide) hlen' hkeys' ?_
        intro e he
        obtain ⟨g, hg, h⟩ := hfrom e he
        exact ⟨encodeAmf3 g, lookup_of_mem (hcalls ▸ hnodup) (List.mem_map.mpr ⟨_, hg, rfl⟩), h.2.1⟩

/-- Encoding as AMF3 and then decoding is the identity on maps and all else, whatever follows the encoding, except that
the integers of the wide kinds come back as doubles. -/
theorem amf3_round_trip {g : GoValue} (h : Sendable g) :
    ∃ v bs, ComesBack g v ∧ (∀ w, encodeAmf3 g w = .ok bs.length (w ++ bs)) ∧
      ∀ rest, ∃ d, decodeAmf3 ⟨{}, ⟨.bytesBuffer, bs ++ rest⟩⟩ = .ok v ⟨d, ⟨.bytesBuffer, rest⟩⟩ := by
  obtain ⟨v, bs, hback, hwrites, hdecodes⟩ := h.roundTrips
  exact ⟨v, bs, hback, hwrites, fun rest => hdecodes rest {}⟩

theorem amf3_round_trip_sample :
    let g : GoValue := .object [(lit "pups", .array [.string (lit "alfie"), .null, .int .uint8 7]), ([], .bool true)]
    ∃ v bs, ComesBack g v ∧ (∀ w, encodeAmf3 g w = .ok bs.length (w ++ bs)) ∧
      ∀ rest, ∃ d, decodeAmf3 ⟨{}, ⟨.bytesBuffer, bs ++ rest⟩⟩ = .ok v ⟨d, ⟨.bytesBuffer, rest⟩⟩ := by
  intro g
  have hpups : Sendable (.array [.string (lit "alfie"), .null, .int .uint8 7]) :=
    .array (by decide) (by simpa using ⟨.string (by decide), .null, .int .uint8 (by decide)⟩)
  exact amf3_round_trip (.object (by decide) (by decide) (by decide) (by simpa [g] using ⟨hpups, .bool true⟩))

/-- A length that does not fit beside its flag. -/
theorem encodeAmf3Utf8_tooLong {val : Bytes} (hlen : val.length = 2 ^ 28) (w : Bytes) :
    ∃ e, encodeAmf3Utf8 val w = .err e w := by
  have hlength : inlineLength val.length = 2 ^ 29 + 1 := by
    rw [hlen]
    decide
  obtain ⟨e, he⟩ : ∃ e, encodeAmf3Uint29 (2 ^ 29 + 1) w = .err e w := ⟨_, rfl⟩
  rw [← hlength] at he
  exact ⟨_, bind_of_err (mapErr_of_err he)⟩

/-- An object with a key of that length. -/
theorem encodeAmf3_tooLong {key : Bytes} (hlen : key.length = 2 ^ 28) :
    ∃ e w, encodeAmf3 (.object [(key, .null)]) [] = .err e w := by
  have hsort : sortStrings (([(key, encodeAmf3 .null)] : List (Bytes × Enc Nat)).map Prod.fst) = [key] := rfl
  have hkeys : ∀ w, ∃ e, encodeProperties [key] w = .err e w := by
    intro w
    obtain ⟨e, he⟩ := encodeAmf3Utf8_tooLong hlen w
    exact ⟨_, bind_of_err (mapErr_of_err he)⟩
  have hmarker : Writes (writeMarkerIf true amf3ObjectMarker) [amf3ObjectMarker] := fun _ => rfl
  have hcount : 0x03 ||| u32 (u32 [key].length <<< 4) = 19 := by
    rw [List.length_singleton]
    decide
  have hheader : Writes (encodeAmf3Uint29 (0x03 ||| u32 (u32 [key].length <<< 4))) (u29Bytes 19) := by
    rw [hcount]
    exact writes_encodeAmf3Uint29 (by decide)
  have htype := @writes_encodeAmf3Utf8 [] (by decide)
  let written : Bytes := [] ++ [amf3ObjectMarker] ++ u29Bytes 19 ++ utf8Bytes []
  obtain ⟨e, he⟩ := hkeys written
  refine ⟨e, written, ?_⟩
  rw [encodeAmf3, encodeEntries3, encodeEntries3, encodeAmf3ObjectWith, bind_of_ok (hmarker _), hsort,
    bind_of_ok ((hheader.wrap _) _), bind_of_ok ((htype.wrap _) _)]
  exact bind_of_err he

/-- An integer of a wide kind comes back as a double, and a map with a key of 2^28 bytes is not encoded. -/
theorem amf3_not_identity :
    (∃ bs, (∀ w, encodeAmf3 (.int .int64 5) w = .ok bs.length (w ++ bs)) ∧
      decodeAmf3 ⟨{}, ⟨.bytesBuffer, bs⟩⟩ = .ok (.number (Float64.ofInt 5)) ⟨{}, ⟨.bytesBuffer, []⟩⟩) ∧
    ∃ e w, encodeAmf3 (.object [(List.replicate (2 ^ 28) 0x61, .null)]) [] = .err e w := by
  refine ⟨⟨amf3DoubleMarker :: Endian.beBytes 8 (Float64.ofInt 5).toNat, ?_, ?_⟩, ?_⟩
  · rw [encodeAmf3, if_pos (by decide)]
    exact writes_encodeAmf3Double _
  · rw [decodeAmf3_eq]
    rfl
  · exact encodeAmf3_tooLong List.length_replicate

/-! ### What integers keep -/

/-- The number that a decoded value stands for. -/
def Value.numeric : Value → Option ℚ
  | .int n => some n
  | .number bits => Float64.value bits
  | _ => none

/-- What `n` is encoded as decodes to a number equal to it. -/
def KeepsInteger (kind : IntKind) (n : Int) : Prop :=
  ∃ bs v d, (∀ w, encodeAmf3 (.int kind n) w = .ok bs.length (w ++ bs)) ∧
    decodeAmf3 ⟨{}, ⟨.bytesBuffer, bs⟩⟩ = .ok v ⟨d, ⟨.bytesBuffer, []⟩⟩ ∧ v.numeric = some (n : ℚ)

/-- What the encoder writes is one byte sequence, and the decoder returns one value for it. -/
theorem keepsInteger_iff {kind : IntKind} {n : Int} {v : Value} {bs : Bytes}
    (hwrites : Writes (encodeAmf3 (.int kind n)) bs) (hdecodes : DecodesAs [] decodeAmf3 v bs) :
    KeepsInteger kind n ↔ v.numeric = some (n : ℚ) := by
  obtain ⟨d, hd⟩ := hdecodes {}
  rw [List.append_nil] at hd
  refine ⟨?_, fun h => ⟨bs, v, d, hwrites, hd, h⟩⟩
  rintro ⟨bs', v', d', hwrites', hd', hnumeric⟩
  obtain ⟨-, rfl⟩ := Outcome.ok.inj ((hwrites []).symm.trans (hwrites' []))
  obtain ⟨rfl, -⟩ := Outcome.ok.inj (hd.symm.trans hd')
  exact hnumeric

/-- An integer keeps its value unless it is written in the form of 29 bits and has bit 28 set. -/
theorem amf3_integer_kept_iff {kind : IntKind} {n : Int} (hn : n.natAbs < 2 ^ 53) :
    KeepsInteger kind n ↔ kind.Wide ∨ n < 2 ^ 28 ∨ 2 ^ 29 ≤ n := by
  by_cases hdouble : kind.Wide ∨ n < 0 ∨ 2 ^ 29 ≤ n
  · have hkept := Float64.value_ofInt hn
    rw [keepsInteger_iff (writes_double hdouble) (decodesAs_double _), Value.numeric]
    exact iff_of_true hkept (hdouble.imp_right (Or.imp_left fun h => by omega))
  · obtain ⟨hkind, hn0, hn29⟩ : ¬kind.Wide ∧ ¬n < 0 ∧ ¬2 ^ 29 ≤ n := by simpa only [not_or] using hdouble
    obtain ⟨m, rfl⟩ := Int.eq_ofNat_of_zero_le (by omega : 0 ≤ n)
    have hm : m < 2 ^ 29 := by omega
    rw [keepsInteger_iff (writes_integer hkind hm) (decodesAs_integer hm), Value.numeric, Option.some_inj, Int.cast_inj,
      or_iff_right hkind]
    split <;> omega

theorem amf3_integer_kept_iff_sample : KeepsInteger .uint32 268435455 ∧ ¬KeepsInteger .uint32 268435456 :=
  ⟨(amf3_integer_kept_iff (by decide)).mpr (by decide), fun h => by
    have hkept := (amf3_integer_kept_iff (by decide)).mp h
    revert hkept
    decide⟩

/-- The least integer that comes back as another. -/
theorem amf3_integer_negative :
    (∀ w, encodeAmf3 (.int .int32 268435456) w = .ok 5 (w ++ [0x04, 0xc0, 0x80, 0x80, 0x00])) ∧
      decodeAmf3 ⟨{}, ⟨.bytesBuffer, [0x04, 0xc0, 0x80, 0x80, 0x00]⟩⟩ = .ok (.int (-268435456)) ⟨{}, ⟨.bytesBuffer, []⟩⟩ ∧
      ¬KeepsInteger .int32 268435456 := by
  have hbytes : amf3IntegerMarker :: u29Bytes 268435456 = [0x04, 0xc0, 0x80, 0x80, 0x00] := by decide
  have hwrites := @writes_integer .int32 (by decide) 268435456 (by decide)
  have hdecodes := @decodesAs_integer [] 268435456 (by decide)
  rw [hbytes] at hwrites hdecodes
  refine ⟨hwrites, ?_, ?_⟩
  · rw [decodeAmf3_eq]
    rfl
  · intro h
    have hkept := (keepsInteger_iff hwrites hdecodes).mp h
    rw [Value.numeric, Option.some_inj, Int.cast_inj] at hkept
    revert hkept
    decide

end Amf

end Livego
