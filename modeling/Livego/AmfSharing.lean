import Livego.AmfEncodings
import Livego.AmfContents

/-! Reading an encoding with references, whatever is found for them. Strings and traits are numbered by the decoder as the
format says, so that it always ends where the encoding does; complex values it keeps in an order of its own. -/

namespace Livego

open Fallible Call

namespace Amf

/-! ### Calls that read an encoding -/

variable {α β : Type}

/-- The two have the same strings and traits, which is all that tells where an encoding ends. -/
def Decoder.Like (d D : Decoder) : Prop := d.stringRefs = D.stringRefs ∧ d.traitRefs = D.traitRefs

/-- Whatever is kept for the complex values, the call ends where `bs` does, with the strings and traits that it should have
then, and its result has `Q`. -/
def Lands (x : Dec α) (bs : Bytes) (D D' : Decoder) (Q : α → Prop) : Prop :=
  ∀ d rest a t, d.Like D → x ⟨d, ⟨.bytesBuffer, bs ++ rest⟩⟩ = .ok a t →
    Q a ∧ ∃ d' : Decoder, t = ⟨d', ⟨.bytesBuffer, rest⟩⟩ ∧ d'.Like D'

/-- With the tables that it should have the call returns `a` exactly if the references in `bs` are all found, and then
leaves the tables that it should. -/
structure Yields (x : Dec α) (bs : Bytes) (D D' : Decoder) (a : α) (sent : List Sent) : Prop where
  returns : (∀ r ∈ sent, r.Found) → ∀ rest, x ⟨D, ⟨.bytesBuffer, bs ++ rest⟩⟩ = .ok a ⟨D', ⟨.bytesBuffer, rest⟩⟩
  right : ∀ rest t, x ⟨D, ⟨.bytesBuffer, bs ++ rest⟩⟩ = .ok a t → ∀ r ∈ sent, r.Found

/-- The call returns `a` whatever is kept for the complex values. -/
structure Exact (x : Dec α) (bs : Bytes) (D D' : Decoder) (a : α) : Prop where
  fixed : ∀ rest, x ⟨D, ⟨.bytesBuffer, bs ++ rest⟩⟩ = .ok a ⟨D', ⟨.bytesBuffer, rest⟩⟩
  alike : ∀ d rest, d.Like D →
    ∃ d' : Decoder, x ⟨d, ⟨.bytesBuffer, bs ++ rest⟩⟩ = .ok a ⟨d', ⟨.bytesBuffer, rest⟩⟩ ∧ d'.Like D'

variable {x : Dec α} {f : α → Dec β} {bs bs' : Bytes} {D D1 D' : Decoder} {a : α} {c : β} {sent sent' : List Sent}
  {P : α → Prop} {Q : β → Prop}

theorem Decoder.Like.refl (d : Decoder) : d.Like d := ⟨rfl, rfl⟩

theorem Lands.imp {P' : α → Prop} (h : Lands x bs D D' P) (hP : ∀ a, P a → P' a) : Lands x bs D D' P' := by
  intro d rest a t hd hx
  obtain ⟨ha, hend⟩ := h d rest a t hd hx
  exact ⟨hP a ha, hend⟩

theorem Lands.bind (hx : Lands x bs D D1 P) (hf : ∀ b, P b → Lands (f b) bs' D1 D' Q) :
    Lands (x >>= f) (bs ++ bs') D D' Q := by
  intro d rest c t hd hc
  obtain ⟨b, u, hb, hc⟩ := bind_eq_ok.mp hc
  rw [List.append_assoc] at hb
  obtain ⟨hP, d1, rfl, hd1⟩ := hx d (bs' ++ rest) b u hd hb
  exact hf b hP d1 rest c t hd1 hc

theorem Lands.mapErr {h : GoError → GoError} (hx : Lands x bs D D' P) : Lands (mapErr h x) bs D D' P :=
  fun d rest a t hd ha => hx d rest a t hd (mapErr_eq_ok.mp ha)

theorem Lands.pure {a : α} (ha : P a) : Lands (pure a) [] D D P := by
  intro d rest b t hd hb
  cases hb
  exact ⟨ha, d, rfl, hd⟩

theorem Exact.lands (h : Exact x bs D D' a) : Lands x bs D D' (fun b => b = a) := by
  intro d rest b t hd hb
  obtain ⟨d', hx, hd'⟩ := h.alike d rest hd
  obtain ⟨rfl, rfl⟩ := Outcome.ok.inj (hx.symm.trans hb)
  exact ⟨rfl, d', rfl, hd'⟩

theorem Exact.yields (h : Exact x bs D D' a) : Yields x bs D D' a [] :=
  ⟨fun _ => h.fixed, fun _ _ _ _ hr => absurd hr List.not_mem_nil⟩

theorem Exact.pure (a : α) : Exact (pure a) [] D D a := ⟨fun _ => rfl, fun d _ hd => ⟨d, rfl, hd⟩⟩

theorem Exact.mapErr {h : GoError → GoError} (hx : Exact x bs D D' a) : Exact (mapErr h x) bs D D' a := by
  constructor
  · intro rest
    exact mapErr_eq_ok.mpr (hx.fixed rest)
  · intro d rest hd
    obtain ⟨d', hok, hd'⟩ := hx.alike d rest hd
    exact ⟨d', mapErr_eq_ok.mpr hok, hd'⟩

theorem Exact.bind (hx : Exact x bs D D1 a) (hf : Exact (f a) bs' D1 D' c) : Exact (x >>= f) (bs ++ bs') D D' c := by
  constructor
  · intro rest
    rw [List.append_assoc, bind_of_ok (hx.fixed (bs' ++ rest)), hf.fixed]
  · intro d rest hd
    obtain ⟨d1, hok, hd1⟩ := hx.alike d (bs' ++ rest) hd
    obtain ⟨d', hok', hd'⟩ := hf.alike d1 rest hd1
    exact ⟨d', by rw [List.append_assoc, bind_of_ok hok, hok'], hd'⟩

/-- A call that reads everything, then one that reads nothing. -/
theorem Exact.bind_nil (hx : Exact x bs D D1 a) (hf : Exact (f a) [] D1 D' c) : Exact (x >>= f) bs D D' c := by
  have hboth := hx.bind hf
  rwa [List.append_nil] at hboth

/-- What reads without looking at the tables. -/
theorem Exact.of_decodes (h : ∀ rest, Decodes .bytesBuffer rest x a bs) : Exact x bs D D a :=
  ⟨fun rest => h rest D, fun d rest hd => ⟨d, h rest d, hd⟩⟩

theorem Yields.mapErr {h : GoError → GoError} (hx : Yields x bs D D' a sent) : Yields (mapErr h x) bs D D' a sent := by
  constructor
  · intro hsent rest
    exact mapErr_eq_ok.mpr (hx.returns hsent rest)
  · intro rest t ha
    exact hx.right rest t (mapErr_eq_ok.mp ha)

/-- The rule of sequencing. The rest of the body must not make up for a wrong result of the call. -/
theorem Yields.bind (hx : Yields x bs D D1 a sent) (hland : Lands x bs D D1 P)
    (hf : ∀ b, P b → Lands (f b) bs' D1 D' (fun c' => c' = c → b = a)) (hfa : Yields (f a) bs' D1 D' c sent') :
    Yields (x >>= f) (bs ++ bs') D D' c (sent ++ sent') := by
  constructor
  · intro hsent rest
    obtain ⟨hfirst, hrest⟩ := List.forall_mem_append.mp hsent
    rw [List.append_assoc, bind_of_ok (hx.returns hfirst (bs' ++ rest)), hfa.returns hrest]
  · intro rest t hc
    obtain ⟨b, u, hb, hc⟩ := bind_eq_ok.mp hc
    rw [List.append_assoc] at hb
    obtain ⟨hP, d1, rfl, hd1⟩ := hland D (bs' ++ rest) b u (.refl D) hb
    obtain ⟨heq, -⟩ := hf b hP d1 rest c t hd1 hc
    obtain rfl := heq rfl
    have hfirst := hx.right (bs' ++ rest) _ hb
    rw [hx.returns hfirst (bs' ++ rest)] at hb
    cases hb
    exact List.forall_mem_append.mpr ⟨hfirst, hfa.right rest t hc⟩

/-- After a call whose result is certain. -/
theorem Exact.bind_yields (hx : Exact x bs D D1 a) (hf : Yields (f a) bs' D1 D' c sent) :
    Yields (x >>= f) (bs ++ bs') D D' c sent := by
  constructor
  · intro hsent rest
    rw [List.append_assoc, bind_of_ok (hx.fixed (bs' ++ rest)), hf.returns hsent]
  · intro rest t hc
    rw [List.append_assoc, bind_of_ok (hx.fixed (bs' ++ rest))] at hc
    exact hf.right rest t hc

theorem Exact.bind_lands (hx : Exact x bs D D1 a) (hf : Lands (f a) bs' D1 D' Q) : Lands (x >>= f) (bs ++ bs') D D' Q :=
  hx.lands.bind fun _ hb => hb ▸ hf

/-- A result in another form, from which it can be told. -/
theorem Yields.map (hx : Yields x bs D D' a sent) {g : α → β} (hg : ∀ b, g b = g a → b = a) :
    Yields (x >>= fun a => Pure.pure (g a)) bs D D' (g a) sent := by
  constructor
  · intro hsent rest
    rw [bind_of_ok (hx.returns hsent rest), pure_apply]
  · intro rest t hc
    obtain ⟨b, u, hb, hc⟩ := bind_eq_ok.mp hc
    obtain ⟨heq, -⟩ := Outcome.ok.inj hc
    rw [hg b heq] at hb
    exact hx.right rest u hb

theorem Lands.map (hx : Lands x bs D D' P) {g : α → β} (hg : ∀ b, P b → Q (g b)) :
    Lands (x >>= fun a => Pure.pure (g a)) bs D D' Q := by
  have hboth := hx.bind fun b hb => Lands.pure (D := D') (hg b hb)
  rwa [List.append_nil] at hboth

theorem Exact.map (hx : Exact x bs D D' a) (g : α → β) : Exact (x >>= fun a => Pure.pure (g a)) bs D D' (g a) :=
  hx.bind_nil (.pure (g a))

theorem Exact.record {g : Decoder → Decoder} (hg : ∀ d : Decoder, d.Like D → (g d).Like (g D)) :
    Exact (record g) [] D (g D) () :=
  ⟨fun _ => rfl, fun d _ hd => ⟨g d, rfl, hg d hd⟩⟩

/-- A table of names holds what was named. -/
theorem Exact.index {table : Decoder → List α} (htable : ∀ d : Decoder, d.Like D → table d = table D) {i : Nat}
    (ha : (table D)[i]? = some a) : Exact (index table i) [] D D a := by
  constructor
  · intro rest
    show Amf.index table i ⟨D, ⟨.bytesBuffer, rest⟩⟩ = _
    rw [Amf.index, ha]
  · intro d rest hd
    refine ⟨d, ?_, hd⟩
    show Amf.index table i ⟨d, ⟨.bytesBuffer, rest⟩⟩ = _
    rw [Amf.index, htable d hd, ha]

/-! ### Strings and traits -/

def Traits.trait (traits : Traits) : Trait :=
  { type := traits.type.1, externalizable := traits.externalizable, dynamic := traits.dynamic, properties := traits.keys }

/-- The tables of a decoder that has read what was sent. -/
def Rules.tables (R : Rules) : Decoder :=
  { stringRefs := R.strings.map Subtype.val, objectRefs := R.kept, traitRefs := R.traits.map Traits.trait }

variable {R R' : Rules}

theorem nth_eq_ok {γ : Type} {table : Rules → List γ} {i : Nat} {c : γ} :
    nth table i R = .ok c R' ↔ (table R)[i]? = some c ∧ R = R' := by
  rw [nth]
  cases (table R)[i]? <;> simp

theorem require_bind_eq_ok {p : Prop} [Decidable p] {k : Unit → Walk α} :
    (require p >>= k) R = .ok a R' ↔ p ∧ k () R = .ok a R' := by
  rw [bind_apply, require]
  by_cases hp : p
  · rw [if_pos hp]
    exact ⟨fun h => ⟨hp, h⟩, fun h => h.2⟩
  · rw [if_neg hp]
    exact ⟨fun h => (nomatch h), fun h => absurd h.1 hp⟩

theorem exact_inlineHeader {n : Nat} (hn : n < 2 ^ 28) (context : String) :
    Exact (wrap context decodeReferenceInt) (inlineHeader n) D D ⟨false, n⟩ :=
  .of_decodes fun _ => decodes_inline hn context

theorem exact_refHeader {i : Nat} (hi : i < 2 ^ 28) (context : String) :
    Exact (wrap context decodeReferenceInt) (refHeader i) D D ⟨true, i⟩ := by
  have hlow : decide ((2 * i) &&& 1 = 0) = true := by
    rw [Nat.and_one_is_mod]
    exact decide_eq_true (by omega)
  have hhigh : (2 * i) >>> 1 = i := by
    rw [Nat.shiftRight_eq_div_pow]
    omega
  apply Exact.of_decodes
  intro rest
  have href := @decodes_decodeReferenceInt .bytesBuffer rest (2 * i) (by omega) context
  rwa [hlow, hhigh] at href

theorem exact_utf8 (s : Short) (text : String) : Exact (wrap text (fill s.1.length)) s.1 D D s.1 :=
  .of_decodes fun _ => (decodes_fill s.1).wrap text

/-- A string is read as it is named. -/
theorem exact_str {str : Str} {s : Short} (h : str.expand R = .ok s R') :
    Exact (decodeAmf3String false) str.bytes R.tables R'.tables s.1 := by
  rw [decodeAmf3String, assertMarker_false, Call.pure_bind]
  cases str with
  | inline s' =>
      obtain ⟨rfl, rfl⟩ := Outcome.ok.inj h
      refine (exact_inlineHeader s'.2 _).bind ?_
      rw [if_neg Bool.false_ne_true]
      refine (exact_utf8 s' _).bind_nil ?_
      by_cases hnil : s'.1 = []
      · rw [if_neg (not_not.mpr hnil), Rules.withString, if_pos hnil]
        exact .pure _
      · have hpush : Exact (pushString s'.1) [] R.tables (R.withString s').tables () := by
          rw [Rules.withString, if_neg hnil]
          simp only [Rules.tables, List.map_append]
          exact .record fun d hd => ⟨congrArg (· ++ [s'.1]) hd.1, hd.2⟩
        rw [if_pos hnil]
        exact hpush.map fun _ => s'.1
  | ref i =>
      obtain ⟨hs, rfl⟩ := nth_eq_ok.mp h
      refine (exact_refHeader i.2 _).bind_nil ?_
      apply Exact.index (fun d hd => hd.1)
      simp only [Rules.tables, List.getElem?_map, hs, Option.map_some]

theorem exact_strs {strs : List Str} {ss : List Short} (h : expandStrs strs R = .ok ss R') (text : String) :
    Exact ((wrap text (decodeAmf3String false)).times strs.length) (strs.flatMap Str.bytes) R.tables R'.tables
      (ss.map Subtype.val) := by
  induction strs generalizing R ss with
  | nil =>
      obtain ⟨rfl, rfl⟩ := Outcome.ok.inj h
      exact .pure []
  | cons str strs ih =>
      obtain ⟨s, R1, hstr, h⟩ := bind_eq_ok.mp h
      obtain ⟨ss', R2, hstrs, h⟩ := bind_eq_ok.mp h
      obtain ⟨rfl, rfl⟩ := Outcome.ok.inj h
      rw [List.flatMap_cons]
      refine (exact_str hstr).mapErr.bind ?_
      exact (ih hstrs).map fun as => s.1 :: as

theorem Head.refVal_lt (head : Head) : head.refVal < 2 ^ 28 := by
  cases head with
  | inline _ externalizable dynamic _ hcount =>
      have hflags := externalizable.toNat_le
      have hflags' := dynamic.toNat_le
      rw [Head.refVal]
      omega
  | ref i =>
      have hi := i.2
      rw [Head.refVal]
      omega

/-- What the bits of an object's header say. -/
theorem inline_bits (externalizable dynamic : Bool) (n : Nat) :
    let refVal := 1 + 2 * externalizable.toNat + 4 * dynamic.toNat + 8 * n
    ¬refVal &&& 1 = 0 ∧ decide (refVal &&& 2 ≠ 0) = externalizable ∧ decide (refVal &&& 4 ≠ 0) = dynamic ∧
      refVal >>> 3 = n := by
  intro refVal
  have hlow : refVal &&& 7 = 1 + 2 * externalizable.toNat + 4 * dynamic.toNat := by
    have hflags := externalizable.toNat_le
    have hflags' := dynamic.toNat_le
    rw [Nat.and_two_pow_sub_one_eq_mod _ 3]
    omega
  have hpart : ∀ m, 7 &&& m = m → refVal &&& m = (1 + 2 * externalizable.toNat + 4 * dynamic.toNat) &&& m := by
    intro m hm
    rw [← hlow, Nat.and_assoc, hm]
  have hcount : refVal >>> 3 = n := by
    have hflags := externalizable.toNat_le
    have hflags' := dynamic.toNat_le
    rw [Nat.shiftRight_eq_div_pow]
    omega
  rw [hpart 1 rfl, hpart 2 rfl, hpart 4 rfl]
  cases externalizable <;> cases dynamic <;> exact ⟨by decide, by decide, by decide, hcount⟩

/-- The traits of an object are read as they are named. -/
theorem exact_head {head : Head} {traits : Traits} (h : head.expand R = .ok traits R') :
    Exact (decodeTrait head.refVal) (head.names.flatMap Str.bytes) R.tables R'.tables traits.trait := by
  cases head with
  | inline type externalizable dynamic properties _ =>
      obtain ⟨type', R1, htype, h⟩ := bind_eq_ok.mp h
      obtain ⟨properties', R2, hproperties, h⟩ := bind_eq_ok.mp h
      split at h
      · rename_i hcount
        obtain ⟨rfl, rfl⟩ := Outcome.ok.inj h
        obtain ⟨hinline, hexternalizable, hdynamic, hlength⟩ := inline_bits externalizable dynamic properties.length
        rw [Head.names, List.flatMap_cons, Head.refVal, decodeTrait, if_neg hinline, hlength]
        refine (exact_str htype).mapErr.bind ?_
        refine (exact_strs hproperties _).bind_nil ?_
        simp only [hexternalizable, hdynamic]
        have hpush : ∀ traits : Traits, Exact (pushTrait traits.trait) [] R2.tables
            (Rules.tables { R2 with traits := R2.traits ++ [traits] }) () := by
          intro traits
          simp only [Rules.tables, List.map_append]
          exact .record fun d hd => ⟨hd.1, congrArg (· ++ [traits.trait]) hd.2⟩
        exact (hpush ⟨type', externalizable, dynamic, properties', hcount⟩).map fun _ => _
      · cases h
  | ref i =>
      obtain ⟨htraits, rfl⟩ := nth_eq_ok.mp h
      have href : Head.refVal (.ref i) &&& 1 = 0 := by
        rw [Nat.and_one_is_mod, Head.refVal]
        omega
      have hindex : Head.refVal (.ref i) >>> 1 = i := by
        rw [Nat.shiftRight_eq_div_pow, Head.refVal]
        omega
      rw [decodeTrait, if_pos href, hindex]
      apply Exact.index (fun d hd => hd.2)
      simp only [Rules.tables, List.getElem?_map, htraits, Option.map_some]

/-! ### Entries -/

/-- The calls read the entries `es` after those that an object already has. Whatever the values are, the keys are those. -/
structure Extends (g : Object → Dec Object) (bs : Bytes) (D D' : Decoder) (es : Object) (sent : List Sent) : Prop where
  lands : ∀ obj : Object, ((obj ++ es).map Prod.fst).Nodup →
    Lands (g obj) bs D D' (fun obj' => ∃ es' : Object, es'.map Prod.fst = es.map Prod.fst ∧ obj' = obj ++ es')
  yields : ∀ obj : Object, ((obj ++ es).map Prod.fst).Nodup → Yields (g obj) bs D D' (obj ++ es) sent

variable {g g' : Object → Dec Object} {es es' : Object}

theorem Extends.comp (hg : Extends g bs D D1 es sent) (hg' : Extends g' bs' D1 D' es' sent') :
    Extends (fun obj => g obj >>= g') (bs ++ bs') D D' (es ++ es') (sent ++ sent') := by
  have hfront : ∀ obj : Object, ((obj ++ (es ++ es')).map Prod.fst).Nodup → ((obj ++ es).map Prod.fst).Nodup := by
    intro obj hnodup
    rw [← List.append_assoc, List.map_append] at hnodup
    exact (List.nodup_append.mp hnodup).1
  have hsame : ∀ obj es1 : Object, es1.map Prod.fst = es.map Prod.fst → ((obj ++ (es ++ es')).map Prod.fst).Nodup →
      (((obj ++ es1) ++ es').map Prod.fst).Nodup := by
    intro obj es1 hkeys hnodup
    rw [List.map_append, List.map_append, hkeys, ← List.map_append, ← List.map_append, List.append_assoc]
    exact hnodup
  constructor
  · intro obj hnodup
    refine (hg.lands obj (hfront obj hnodup)).bind ?_
    rintro _ ⟨es1, hkeys, rfl⟩
    refine (hg'.lands (obj ++ es1) (hsame obj es1 hkeys hnodup)).imp ?_
    rintro _ ⟨es2, hkeys', rfl⟩
    exact ⟨es1 ++ es2, by rw [List.map_append, hkeys, hkeys', List.map_append], List.append_assoc _ _ _⟩
  · intro obj hnodup
    have hrest := hg'.yields (obj ++ es) (hsame obj es rfl hnodup)
    rw [List.append_assoc] at hrest
    refine (hg.yields obj (hfront obj hnodup)).bind (hg.lands obj (hfront obj hnodup)) ?_ hrest
    rintro _ ⟨es1, hkeys, rfl⟩
    refine (hg'.lands (obj ++ es1) (hsame obj es1 hkeys hnodup)).imp ?_
    rintro _ ⟨es2, -, rfl⟩ heq
    have hlength : es1.length = es.length := by simpa using congrArg List.length hkeys
    rw [List.append_assoc, List.append_cancel_left_eq] at heq
    rw [(List.append_inj heq hlength).1]

theorem Extends.mapErr {h : GoError → GoError} (hg : Extends g bs D D' es sent) :
    Extends (fun obj => mapErr h (g obj)) bs D D' es sent :=
  ⟨fun obj hnodup => (hg.lands obj hnodup).mapErr, fun obj hnodup => (hg.yields obj hnodup).mapErr⟩

theorem Exact.bind_extends {k : Object → α → Dec Object} (hx : Exact x bs D D1 a)
    (hg : Extends (fun obj => k obj a) bs' D1 D' es sent) : Extends (fun obj => x >>= k obj) (bs ++ bs') D D' es sent :=
  ⟨fun obj hnodup => hx.bind_lands (hg.lands obj hnodup), fun obj hnodup => hx.bind_yields (hg.yields obj hnodup)⟩

/-- New keys are added at the end. -/
theorem insertAll_eq {keys : List (Bytes × String)} {vs : List Value} {obj : Object} (hlength : vs.length = keys.length)
    (hnodup : (obj.map Prod.fst ++ keys.map Prod.fst).Nodup) :
    insertAll obj keys vs = obj ++ (keys.map Prod.fst).zip vs := by
  induction keys generalizing obj vs with
  | nil => exact (List.append_nil obj).symm
  | cons key keys ih =>
      cases vs with
      | nil => cases hlength
      | cons v vs =>
          have hkey : key.1 ∉ obj.map Prod.fst :=
            fun hmem => (List.nodup_append.mp hnodup).2.2 key.1 hmem key.1 List.mem_cons_self rfl
          have hinsert : obj.insert key.1 v = obj ++ [(key.1, v)] := Object.insert_of_notMem hkey v
          have hnodup' : ((obj.insert key.1 v).map Prod.fst ++ keys.map Prod.fst).Nodup := by
            rw [hinsert, List.map_append, List.append_assoc]
            exact hnodup
          rw [insertAll, ih (Nat.succ.inj hlength) hnodup', hinsert, List.append_assoc]
          rfl

/-- The call reads `vs`, and as many values whatever they are. -/
structure Lists (x : Dec (List Value)) (bs : Bytes) (D D' : Decoder) (vs : List Value) (sent : List Sent) : Prop where
  lands : Lands x bs D D' (fun vs' => vs'.length = vs.length)
  yields : Yields x bs D D' vs sent

theorem Lists.decodeEntries {keys : List (Bytes × String)} {vs : List Value} (hlength : vs.length = keys.length)
    (h : Lists (decodeAmf3.times keys.length) bs D D' vs sent) :
    Extends (decodeEntries decodeAmf3 keys) bs D D' ((keys.map Prod.fst).zip vs) sent := by
  have hkeys : ∀ vs' : List Value, vs'.length = vs.length →
      ((keys.map Prod.fst).zip vs').map Prod.fst = keys.map Prod.fst := by
    intro vs' hvs'
    exact List.map_fst_zip (by rw [List.length_map]; omega)
  have hentries : ∀ (obj : Object) (vs' : List Value), vs'.length = vs.length →
      ((obj ++ (keys.map Prod.fst).zip vs).map Prod.fst).Nodup →
      insertAll obj keys vs' = obj ++ (keys.map Prod.fst).zip vs' := by
    intro obj vs' hvs' hnodup
    apply insertAll_eq (hvs'.trans hlength)
    rwa [List.map_append, hkeys vs rfl] at hnodup
  constructor
  · intro obj hnodup d rest obj' t hd hok
    obtain ⟨vs', u, htimes, hpure⟩ := bind_eq_ok.mp (decodeEntries_eq_ok.mp hok)
    obtain ⟨rfl, rfl⟩ := Outcome.ok.inj hpure
    obtain ⟨hvs', hend⟩ := h.lands d rest vs' u hd htimes
    refine ⟨⟨(keys.map Prod.fst).zip vs', ?_, hentries obj vs' hvs' hnodup⟩, hend⟩
    rw [hkeys vs' hvs', hkeys vs rfl]
  · intro obj hnodup
    constructor
    · intro hsent rest
      rw [decodeEntries_eq_ok, bind_of_ok (h.yields.returns hsent rest), hentries obj vs rfl hnodup, pure_apply]
    · intro rest t hok
      obtain ⟨vs', u, htimes, hpure⟩ := bind_eq_ok.mp (decodeEntries_eq_ok.mp hok)
      obtain ⟨heq, -⟩ := Outcome.ok.inj hpure
      obtain ⟨hvs', -⟩ := h.lands D rest vs' u (.refl D) htimes
      rw [hentries obj vs' hvs' hnodup, List.append_cancel_left_eq] at heq
      have hsnd : ∀ vs' : List Value, vs'.length = vs.length → ((keys.map Prod.fst).zip vs').map Prod.snd = vs' := by
        intro vs' hvs'
        exact List.map_snd_zip (by rw [List.length_map]; omega)
      have hsame : vs' = vs := by rw [← hsnd vs' hvs', heq, hsnd vs rfl]
      subst hsame
      exact h.yields.right rest u htimes

/-- The loop over the further entries, turn by turn. -/
theorem decodeDynamic_eq (obj : Object) : decodeDynamic decodeAmf3 obj = (do
    let key ← wrap "amf3 decode: unable to decode dynamic key" (decodeAmf3String false)
    if key = [] then pure obj
    else do
      let val ← wrap "amf3 decode: unable to decode dynamic value" decodeAmf3
      decodeDynamic decodeAmf3 (obj.insert key val)) := by
  have hdecreases : Decreases (dynamicTurn decodeAmf3) fun _ => Decoding.left :=
    Consuming.decreases fun n => consuming_dynamicTurn settled_decodeAmf3
  rw [decodeDynamic, get_loop_eq hdecreases, dynamicTurn, Call.bind_bind]
  congr 1
  funext key
  by_cases hkey : key = []
  · rw [if_pos hkey, if_pos hkey]
    rfl
  · rw [if_neg hkey, if_neg hkey, Call.bind_bind]
    rfl

theorem extends_absent : Extends (fun obj => pure obj) [] D D [] [] := by
  constructor
  · exact fun obj _ => Lands.pure ⟨[], rfl, (List.append_nil obj).symm⟩
  · intro obj _
    rw [List.append_nil]
    exact (Exact.pure obj).yields

/-- No further entries: an empty key. -/
theorem extends_done : Extends (decodeDynamic decodeAmf3) (utf8Bytes []) D D [] [] := by
  have hkey : Exact (decodeAmf3String false) (utf8Bytes []) D D [] := by
    rw [decodeAmf3String, assertMarker_false, Call.pure_bind]
    exact (exact_inlineHeader (by decide) _).bind ((exact_utf8 ⟨[], by decide⟩ _).bind_nil (.pure []))
  have hexact : ∀ obj, Exact (decodeDynamic decodeAmf3 obj) (utf8Bytes []) D D obj := by
    intro obj
    rw [decodeDynamic_eq]
    refine hkey.mapErr.bind_nil ?_
    rw [if_pos rfl]
    exact .pure obj
  constructor
  · intro obj _
    refine (hexact obj).lands.imp ?_
    rintro _ rfl
    exact ⟨[], rfl, (List.append_nil _).symm⟩
  · intro obj _
    rw [List.append_nil]
    exact (hexact obj).yields

/-- One further entry, and then the others. -/
theorem extends_cons {D2 : Decoder} {key : Bytes} {v : Value} {bs'' : Bytes} (hkey : key ≠ [])
    (hread : Exact (decodeAmf3String false) bs D D1 key) (hland : Lands decodeAmf3 bs' D1 D2 fun _ => True)
    (hvalue : Yields decodeAmf3 bs' D1 D2 v sent) (hrest : Extends (decodeDynamic decodeAmf3) bs'' D2 D' es sent') :
    Extends (decodeDynamic decodeAmf3) (bs ++ (bs' ++ bs'')) D D' ((key, v) :: es) (sent ++ sent') := by
  have hinsert : ∀ (obj : Object) (u : Value), ((obj ++ (key, v) :: es).map Prod.fst).Nodup →
      obj.insert key u = obj ++ [(key, u)] ∧ (((obj ++ [(key, u)]) ++ es).map Prod.fst).Nodup := by
    intro obj u hnodup
    have hnotMem : key ∉ obj.map Prod.fst := by
      rw [List.map_append, List.nodup_append] at hnodup
      exact fun hmem => hnodup.2.2 key hmem key List.mem_cons_self rfl
    refine ⟨Object.insert_of_notMem hnotMem u, ?_⟩
    simpa using hnodup
  constructor
  · intro obj hnodup
    rw [decodeDynamic_eq]
    refine hread.mapErr.bind_lands ?_
    rw [if_neg hkey]
    refine hland.mapErr.bind ?_
    intro u _
    obtain ⟨heq, hnodup'⟩ := hinsert obj u hnodup
    rw [heq]
    refine (hrest.lands _ hnodup').imp ?_
    rintro _ ⟨es', hkeys, rfl⟩
    exact ⟨(key, u) :: es', by rw [List.map_cons, hkeys, List.map_cons], by simp⟩
  · intro obj hnodup
    rw [decodeDynamic_eq]
    refine hread.mapErr.bind_yields ?_
    rw [if_neg hkey]
    obtain ⟨heq, hnodup'⟩ := hinsert obj v hnodup
    have hfinal := hrest.yields _ hnodup'
    rw [List.append_assoc, List.singleton_append, ← heq] at hfinal
    refine hvalue.mapErr.bind hland.mapErr ?_ hfinal
    intro u _
    obtain ⟨heq', hnodup''⟩ := hinsert obj u hnodup
    rw [heq']
    refine (hrest.lands _ hnodup'').imp ?_
    rintro _ ⟨es', -, rfl⟩ hsame
    rw [List.append_assoc, List.append_cancel_left_eq, List.singleton_append] at hsame
    exact (Prod.mk.inj (List.cons.inj hsame).1).2

theorem exact_readFlags (flags : Flags) : Exact (wrap "unable to read flags" readFlags) flags.1 D D flags.1 := by
  have hloop : ∀ (kind : ReaderKind) (rest : Bytes) (fs : List UInt8), flagsEnd fs → ∀ result,
      Decodes kind rest (Call.get >>= fun s => Call.loop flagTurn (s.left + 1) result) (result ++ fs) fs := by
    intro kind rest fs hfs result d
    have hdecreases : Decreases flagTurn fun _ => Decoding.left := Consuming.decreases fun n => consuming_flagTurn
    have hturn : ∀ (flag : UInt8) (fs : List UInt8) (result : List UInt8),
        flagTurn result ⟨d, ⟨kind, flag :: fs ++ rest⟩⟩ =
          .ok (if flag &&& 0x80 = 0 then .inr (result ++ [flag]) else .inl (result ++ [flag])) ⟨d, ⟨kind, fs ++ rest⟩⟩ := by
      intro flag fs result
      have hbyte : Decodes kind (fs ++ rest) readByte flag [flag] := decodes_readByte flag
      have hread := hbyte.wrap "unable to read flags" d
      rw [flagTurn, List.cons_append]
      exact bind_of_ok hread
    induction fs generalizing result with
    | nil => cases hfs
    | cons flag fs ih =>
        rw [get_bind_apply, loop_turn hdecreases, hturn]
        cases fs with
        | nil =>
            rw [if_pos (by simpa [flagsEnd] using hfs)]
            rfl
        | cons flag' fs =>
            obtain ⟨hmore, hfs⟩ : ¬flag &&& 0x80 = 0 ∧ flagsEnd (flag' :: fs) := by simpa [flagsEnd] using hfs
            have hrest := ih hfs (result ++ [flag])
            rw [get_bind_apply, List.append_assoc, List.singleton_append] at hrest
            rw [if_neg hmore]
            exact hrest
  apply Exact.mapErr
  apply Exact.of_decodes
  intro rest
  exact hloop .bytesBuffer rest flags.1 flags.2 []

/-- A section of an external message: its flags, and the values of the fields that they announce. -/
theorem Lists.decodeExternal {flags : Flags} {fieldSets : List (List String)} {vs : List Value} {n : Nat}
    (hlength : vs.length = n) (hcount : n = (announcedKeys fieldSets flags).length)
    (h : Lists (decodeAmf3.times n) bs D D' vs sent) :
    Extends (fun obj => decodeExternal decodeAmf3 obj fieldSets) (flags.1 ++ bs) D D'
      ((announcedKeys fieldSets flags).zip vs) sent := by
  subst hcount
  rw [announcedKeys, List.length_map] at hlength h
  exact (exact_readFlags flags).bind_extends (Lists.decodeEntries hlength h)

end Amf

end Livego
