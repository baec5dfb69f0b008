import Livego.AmfSharing

/-! Where a reference is read as what it names. The decoder keeps the complex values in the order in which they end, objects
as nil, and looks arrays and objects up at half their number. -/

namespace Livego

open Fallible Call

namespace Amf

variable {α β : Type} {x : Dec α} {bs bs' : Bytes} {D D1 D' : Decoder} {a : α} {sent sent' : List Sent} {R R' : Rules}
  {g : Object → Dec Object} {es es' : Object}

/-! ### References to complex values -/

section
variable {d : Decoder} {rest : Bytes} {w : Value} {t : Decoding} {i : Fin (2 ^ 28)}

theorem refHeader_bind (f : ReferenceInt → Dec α) (context : String) :
    (wrap context decodeReferenceInt >>= f) ⟨d, ⟨.bytesBuffer, refHeader i ++ rest⟩⟩ =
      f ⟨true, i⟩ ⟨d, ⟨.bytesBuffer, rest⟩⟩ :=
  bind_of_ok ((exact_refHeader (D := d) i.2 context).fixed rest)

theorem decodeAmf3_ref {marker : UInt8} {f : Dec Value} (hmarker : amf3Value decodeAmf3 marker = f) :
    decodeAmf3 ⟨d, ⟨.bytesBuffer, marker :: refHeader i ++ rest⟩⟩ = f ⟨d, ⟨.bytesBuffer, refHeader i ++ rest⟩⟩ := by
  rw [decodeAmf3_eq, ← hmarker]
  exact bind_of_ok (decodes_readByte marker d)

theorem index_eq_ok {γ : Type} {table : Decoder → List γ} {j : Nat} {c : γ} {s : Decoding} :
    index table j s = .ok c t ↔ (table s.decoder)[j]? = some c ∧ t = s := by
  rw [index]
  cases (table s.decoder)[j]? <;> simp [eq_comm]

/-- What is kept at the position is returned if it is of the form that it is used in. -/
theorem stored_eq_ok {x : Dec α} {f : Value → Dec α} {form : α → Value} {j : Nat} {s r : Decoding}
    (hx : x s = (index Decoder.objectRefs j >>= f) r) (hf : ∀ u a, f u r = .ok a t ↔ u = form a ∧ t = r) :
    (x >>= fun a => pure (form a)) s = .ok w t ↔ r.decoder.objectRefs[j]? = some w ∧ (∃ a, w = form a) ∧ t = r := by
  constructor
  · intro h
    obtain ⟨a, u, ha, h⟩ := bind_eq_ok.mp h
    obtain ⟨rfl, rfl⟩ := Outcome.ok.inj h
    rw [hx] at ha
    obtain ⟨v, u', hv, hform⟩ := bind_eq_ok.mp ha
    obtain ⟨hget, rfl⟩ := index_eq_ok.mp hv
    obtain ⟨rfl, rfl⟩ := (hf v a).mp hform
    exact ⟨hget, ⟨a, rfl⟩, rfl⟩
  · rintro ⟨hget, ⟨a, rfl⟩, rfl⟩
    have ha : x s = .ok a t := by
      rw [hx, bind_of_ok (index_eq_ok.mpr ⟨hget, rfl⟩)]
      exact (hf _ a).mpr ⟨rfl, rfl⟩
    rw [bind_of_ok ha, pure_apply]

/-- A reference is what is kept at its position, if that is of its kind. -/
theorem decodeAmf3_ref_eq_ok (kind : Kind) :
    decodeAmf3 ⟨d, ⟨.bytesBuffer, kind.marker :: refHeader i ++ rest⟩⟩ = .ok w t ↔
      d.objectRefs[kind.position i]? = some w ∧ kind.Suits w ∧ t = ⟨d, ⟨.bytesBuffer, rest⟩⟩ := by
  have hxml : ∃ f : Value → Dec Bytes, decodeAmf3Xml false ⟨d, ⟨.bytesBuffer, refHeader i ++ rest⟩⟩ =
      (index Decoder.objectRefs i.val >>= f) ⟨d, ⟨.bytesBuffer, rest⟩⟩ ∧
        ∀ u a, f u ⟨d, ⟨.bytesBuffer, rest⟩⟩ = .ok a t ↔ u = .string a ∧ t = ⟨d, ⟨.bytesBuffer, rest⟩⟩ := by
    refine ⟨_, refHeader_bind _ _, ?_⟩
    intro u a
    cases u <;> simp [eq_comm]
  obtain ⟨f, hxml, hform⟩ := hxml
  cases kind with
  | date =>
      rw [Kind.marker, decodeAmf3_ref (f := decodeAmf3Date false >>= fun millis => pure (.time millis)) rfl]
      refine stored_eq_ok (r := ⟨d, ⟨.bytesBuffer, rest⟩⟩) (refHeader_bind _ _) ?_
      intro u a
      cases u <;> simp [eq_comm]
  | array =>
      rw [Kind.marker, decodeAmf3_ref (f := decodeAmf3Array decodeAmf3 false >>= fun arr => pure (.array arr)) rfl]
      refine stored_eq_ok (r := ⟨d, ⟨.bytesBuffer, rest⟩⟩) (refHeader_bind _ _) ?_
      intro u a
      cases u <;> simp [eq_comm]
  | object =>
      rw [Kind.marker, decodeAmf3_ref (f := decodeAmf3Object decodeAmf3 false) rfl]
      have hread : decodeAmf3Object decodeAmf3 false ⟨d, ⟨.bytesBuffer, refHeader i ++ rest⟩⟩ =
          index Decoder.objectRefs (i.val >>> 1) ⟨d, ⟨.bytesBuffer, rest⟩⟩ := refHeader_bind _ _
      rw [hread, index_eq_ok]
      exact ⟨fun ⟨hget, ht⟩ => ⟨hget, trivial, ht⟩, fun ⟨hget, _, ht⟩ => ⟨hget, ht⟩⟩
  | xmlDoc =>
      rw [Kind.marker, decodeAmf3_ref (f := decodeAmf3Xml false >>= fun s => pure (.string s)) rfl]
      exact stored_eq_ok hxml hform
  | xmlString =>
      rw [Kind.marker, decodeAmf3_ref (f := decodeAmf3Xml false >>= fun s => pure (.string s)) rfl]
      exact stored_eq_ok hxml hform
  | byteArray =>
      rw [Kind.marker, decodeAmf3_ref (f := decodeAmf3ByteArray false >>= fun bs => pure (.bytes bs)) rfl]
      refine stored_eq_ok (r := ⟨d, ⟨.bytesBuffer, rest⟩⟩) (refHeader_bind _ _) ?_
      intro u a
      cases u <;> simp [eq_comm]

end

theorem lands_ref (kind : Kind) (i : Fin (2 ^ 28)) : Lands decodeAmf3 (kind.marker :: refHeader i) D D fun _ => True := by
  intro d rest v t hd hv
  obtain ⟨-, -, rfl⟩ := (decodeAmf3_ref_eq_ok kind).mp hv
  exact ⟨trivial, d, rfl, hd⟩

theorem yields_ref {kind : Kind} {v : Value} (hv : kind.Suits v) (i : Fin (2 ^ 28)) :
    Yields decodeAmf3 (kind.marker :: refHeader i) D D v [⟨kind, i, v, D.objectRefs⟩] := by
  constructor
  · intro hsent rest
    have hfound := hsent _ List.mem_cons_self
    exact (decodeAmf3_ref_eq_ok kind).mpr ⟨hfound, hv, rfl⟩
  · intro rest t hok r hr
    cases List.mem_singleton.mp hr
    exact ((decodeAmf3_ref_eq_ok kind).mp hok).1

/-! ### Values -/

def Decoder.keep (d : Decoder) (v : Value) : Decoder := { d with objectRefs := d.objectRefs ++ [v] }

/-- The router reads `bs` as `v` exactly if the references in it are found, and reads as far whatever they are. -/
structure ReadAs (bs : Bytes) (D D' : Decoder) (v : Value) (sent : List Sent) : Prop where
  lands : Lands decodeAmf3 bs D D' fun _ => True
  yields : Yields decodeAmf3 bs D D' v sent

variable {v : Value} {vs : List Value}

theorem exact_marker (m : UInt8) : Exact readMarker [m] D D m := .of_decodes fun _ => decodes_readByte m

theorem ReadAs.of_marker {m : UInt8} {f : Dec Value} {P : Value → Prop} (hm : amf3Value decodeAmf3 m = f)
    (hlands : Lands f bs D D' P) (hyields : Yields f bs D D' v sent) : ReadAs (m :: bs) D D' v sent := by
  subst hm
  constructor
  · rw [decodeAmf3_eq]
    exact (exact_marker m).bind_lands (hlands.imp fun _ _ => trivial)
  · rw [decodeAmf3_eq]
    exact (exact_marker m).bind_yields hyields

theorem ReadAs.of_exact {m : UInt8} {f : Dec Value} (hm : amf3Value decodeAmf3 m = f) (h : Exact f bs D D' v) :
    ReadAs (m :: bs) D D' v [] :=
  .of_marker hm h.lands h.yields

theorem exact_keep (v : Value) (a : α) : Exact (do pushObject v; pure a) [] D (D.keep v) a :=
  ⟨fun _ => rfl, fun d _ hd => ⟨d.keep v, rfl, hd⟩⟩

/-- What is kept does not tell where an encoding ends. -/
theorem lands_keep (v u : Value) (a : α) : Lands (do pushObject u; pure a) [] D (D.keep v) (fun b => b = a) := by
  intro d rest b t hd hb
  obtain ⟨rfl, rfl⟩ := Outcome.ok.inj hb
  exact ⟨rfl, d.keep u, rfl, hd⟩

theorem exact_double (bits : UInt64) (text : String) :
    Exact (wrap text readFloat64) (Endian.beBytes 8 bits.toNat) D D bits :=
  .of_decodes fun _ => (decodes_readFloat64 bits).wrap text

theorem readAs_integer (n : Fin (2 ^ 29)) : ReadAs (amf3IntegerMarker :: u29Bytes n) D D
    (.int (if n.val > 0xfffffff then (n.val : Int) - 0x20000000 else n.val)) [] := by
  refine .of_exact (f := decodeAmf3Integer false >>= fun n => pure (.int n)) rfl (Exact.map ?_ Value.int)
  rw [decodeAmf3Integer, assertMarker_false, Call.pure_bind]
  have hread : Exact decodeU29 (u29Bytes n) D D n.val := .of_decodes fun _ => decodes_decodeU29 n.2
  exact hread.map fun u29 => if u29 > 0xfffffff then (u29 : Int) - 0x20000000 else u29

theorem readAs_date (millis : UInt64) : ReadAs (amf3DateMarker :: (inlineHeader 0 ++ Endian.beBytes 8 millis.toNat)) D
    (D.keep (.time millis)) (.time millis) [] := by
  refine .of_exact (f := decodeAmf3Date false >>= fun millis => pure (.time millis)) rfl (Exact.map ?_ Value.time)
  rw [decodeAmf3Date, assertMarker_false, Call.pure_bind]
  refine (exact_inlineHeader (by decide) _).bind ?_
  rw [if_neg Bool.false_ne_true]
  exact (exact_double millis _).bind_nil (exact_keep (.time millis) millis)

theorem exact_xml (s : Short) : Exact (decodeAmf3Xml false) (utf8Bytes s.1) D
    (if s.1 ≠ [] then D.keep (.string s.1) else D) s.1 := by
  rw [decodeAmf3Xml]
  show Exact (wrap _ decodeReferenceInt >>= _) _ _ _ _
  refine (exact_inlineHeader s.2 _).bind ?_
  rw [if_neg Bool.false_ne_true]
  refine (exact_utf8 s _).bind_nil ?_
  split
  · exact exact_keep (.string s.1) s.1
  · exact .pure s.1

theorem readAs_byteArray (bs : Short) : ReadAs (amf3BytearrayMarker :: utf8Bytes bs.1) D (D.keep (.bytes bs.1))
    (.bytes bs.1) [] := by
  refine .of_exact (f := decodeAmf3ByteArray false >>= fun bs => pure (.bytes bs)) rfl (Exact.map ?_ Value.bytes)
  rw [decodeAmf3ByteArray, assertMarker_false, Call.pure_bind]
  refine (exact_inlineHeader bs.2 _).bind ?_
  rw [if_neg Bool.false_ne_true]
  exact (exact_utf8 bs _).bind_nil (exact_keep (.bytes bs.1) bs.1)

theorem Lists.mapErr {h : GoError → GoError} {n : Nat} (hx : Lists (decodeAmf3.times n) bs D D' vs sent) :
    Lists ((Call.mapErr h decodeAmf3).times n) bs D D' vs sent := by
  constructor
  · exact fun d rest vs' t hd hok => hx.lands d rest vs' t hd (times_mapErr_eq_ok.mp hok)
  · constructor
    · exact fun hsent rest => times_mapErr_eq_ok.mpr (hx.yields.returns hsent rest)
    · exact fun rest t hok => hx.yields.right rest t (times_mapErr_eq_ok.mp hok)

theorem readAs_array {k : Nat} (hk : k < 2 ^ 28) (h : Lists (decodeAmf3.times k) bs D D' vs sent) :
    ReadAs (amf3ArrayMarker :: (inlineHeader k ++ (utf8Bytes [] ++ bs))) D (D'.keep (.array vs)) (.array vs) sent := by
  have hkey : Exact (wrap "amf3 decode: unable to read key for array" (decodeAmf3String false)) (utf8Bytes []) D D [] := by
    rw [decodeAmf3String, assertMarker_false, Call.pure_bind]
    refine Exact.mapErr ((exact_inlineHeader (by decide) _).bind ?_)
    exact (exact_utf8 ⟨[], by decide⟩ _).bind_nil (.pure [])
  have hlands : Lands (decodeAmf3Array decodeAmf3 false) (inlineHeader k ++ (utf8Bytes [] ++ bs)) D (D'.keep (.array vs))
      fun _ => True := by
    rw [decodeAmf3Array, assertMarker_false, Call.pure_bind]
    refine (exact_inlineHeader hk _).bind_lands (hkey.bind_lands ?_)
    rw [if_neg (not_not.mpr rfl), ← List.append_nil bs]
    exact h.mapErr.lands.bind fun vs' _ => (lands_keep (.array vs) (.array vs') vs').imp fun _ _ => trivial
  have hyields : Yields (decodeAmf3Array decodeAmf3 false) (inlineHeader k ++ (utf8Bytes [] ++ bs)) D
      (D'.keep (.array vs)) vs sent := by
    rw [decodeAmf3Array, assertMarker_false, Call.pure_bind]
    refine (exact_inlineHeader hk _).bind_yields (hkey.bind_yields ?_)
    rw [if_neg (not_not.mpr rfl), ← List.append_nil bs, ← List.append_nil sent]
    refine h.mapErr.yields.bind h.mapErr.lands ?_ (exact_keep (.array vs) vs).yields
    intro vs' _
    exact (lands_keep (.array vs) (.array vs') vs').imp fun _ heq hsame => heq.symm.trans hsame
  exact .of_marker (f := decodeAmf3Array decodeAmf3 false >>= fun arr => pure (.array arr)) (P := fun _ => True) rfl
    (hlands.map fun _ _ => trivial) (hyields.map fun _ heq => Value.array.inj heq)

/-- An object, from what follows its traits. -/
theorem readAs_object {head : Head} {traits : Traits} {R1 : Rules}
    (h : head.expand { R with objects := R.objects ++ [none] } = .ok traits R1)
    (hlands : Lands (decodeObjectBody decodeAmf3 traits.trait) bs (R1.tables.keep .null) D' fun _ => True)
    (hyields : Yields (decodeObjectBody decodeAmf3 traits.trait) bs (R1.tables.keep .null) D' v sent) :
    ReadAs (amf3ObjectMarker :: (head.bytes ++ bs)) R.tables D' v sent := by
  have hread := exact_head h
  have hhead : Exact (decodeTrait head.refVal) (head.names.flatMap Str.bytes) R.tables R1.tables traits.trait := hread
  have hpush : Exact (pushObject .null) [] R1.tables (R1.tables.keep .null) () := .record fun _ hd => hd
  refine .of_marker (f := decodeAmf3Object decodeAmf3 false) rfl (P := fun _ => True) ?_ ?_
  · rw [decodeAmf3Object, assertMarker_false, Call.pure_bind, Head.bytes, List.append_assoc]
    refine (exact_inlineHeader head.refVal_lt _).bind_lands ?_
    rw [if_neg Bool.false_ne_true]
    exact hhead.bind_lands (hpush.bind_lands hlands)
  · rw [decodeAmf3Object, assertMarker_false, Call.pure_bind, Head.bytes, List.append_assoc]
    refine (exact_inlineHeader head.refVal_lt _).bind_yields ?_
    rw [if_neg Bool.false_ne_true]
    exact hhead.bind_yields (hpush.bind_yields hyields)

/-- What makes a map of entries is an object. -/
theorem Extends.lands_object (hg : Extends g bs D D' es sent) (hnodup : (es.map Prod.fst).Nodup) :
    Lands (g [] >>= fun obj => pure (Value.object obj)) bs D D' fun _ => True :=
  (hg.lands [] hnodup).map fun _ _ => trivial

theorem Extends.yields_object (hg : Extends g bs D D' es sent) (hnodup : (es.map Prod.fst).Nodup) :
    Yields (g [] >>= fun obj => pure (Value.object obj)) bs D D' (.object es) sent :=
  (hg.yields [] hnodup).map fun _ heq => Value.object.inj heq

/-- The body of an object whose traits say how many values follow, and whether more do. -/
theorem decodeObjectBody_plain {traits : Traits} (hplain : ¬traits.externalizable) :
    decodeObjectBody decodeAmf3 traits.trait =
      (decodeEntries decodeAmf3 traits.trait.keys [] >>= fun obj =>
        if traits.dynamic then decodeDynamic decodeAmf3 obj else pure obj) >>= fun obj => pure (.object obj) := by
  have hplain' : ¬traits.trait.externalizable := hplain
  rw [decodeObjectBody, if_neg hplain', Call.bind_bind]
  congr 1
  funext obj
  show (if traits.dynamic then _ else _) = _
  cases traits.dynamic <;> rfl

theorem decodeObjectBody_collection {traits : Traits} (hexternal : traits.externalizable)
    (htype : traits.type.1 = lit "flex.messaging.io.ArrayCollection") :
    decodeObjectBody decodeAmf3 traits.trait =
      (wrap "amf3 decode: unable to decode ac" (decodeArrayCollection decodeAmf3) >>= fun result =>
        pushObject result >>= fun _ => pure result) := by
  have hdsa : traits.trait.type ≠ lit "DSA" := fun h => absurd (htype.symm.trans h) (by decide)
  have hdsk : traits.trait.type ≠ lit "DSK" := fun h => absurd (htype.symm.trans h) (by decide)
  rw [decodeObjectBody, if_pos (show traits.trait.externalizable from hexternal), decodeExternalizable, if_neg hdsa,
    if_neg hdsk, if_pos (show traits.trait.type = _ from htype)]

theorem decodeObjectBody_message {traits : Traits} (hexternal : traits.externalizable) (htype : traits.type.1 = lit "DSA") :
    decodeObjectBody decodeAmf3 traits.trait =
      wrap "amf3 decode: unable to decode dsa" (decodeAsyncMessageExt decodeAmf3) >>= fun obj => pure (.object obj) := by
  rw [decodeObjectBody, if_pos (show traits.trait.externalizable from hexternal), decodeExternalizable,
    if_pos (show traits.trait.type = _ from htype)]

theorem decodeObjectBody_acknowledge {traits : Traits} (hexternal : traits.externalizable)
    (htype : traits.type.1 = lit "DSK") :
    decodeObjectBody decodeAmf3 traits.trait =
      wrap "amf3 decode: unable to decode dsk" (decodeAcknowledgeMessageExt decodeAmf3) >>= fun obj => pure (.object obj) := by
  have hdsa : traits.trait.type ≠ lit "DSA" := fun h => absurd (htype.symm.trans h) (by decide)
  rw [decodeObjectBody, if_pos (show traits.trait.externalizable from hexternal), decodeExternalizable, if_neg hdsa,
    if_pos (show traits.trait.type = _ from htype)]

/-- The sections of a message, which add their entries to one object. -/
theorem Extends.async {bs1 bs2 : Bytes} {sent1 sent2 : List Sent}
    (h1 : Extends (fun obj => decodeExternal decodeAmf3 obj abstractFieldSets) bs1 D D1 es sent1)
    (h2 : Extends (fun obj => decodeExternal decodeAmf3 obj asyncFieldSets) bs2 D1 D' es' sent2) :
    Extends (fun obj => wrap "unable to decode abstract for async" (wrap "unable to decode abstract external"
        (decodeExternal decodeAmf3 obj abstractFieldSets)) >>= fun result =>
      wrap "unable to decode async external" (decodeExternal decodeAmf3 result asyncFieldSets))
      (bs1 ++ bs2) D D' (es ++ es') (sent1 ++ sent2) :=
  h1.mapErr.mapErr.comp h2.mapErr

theorem Extends.ack {D2 : Decoder} {bs1 bs2 bs3 : Bytes} {sent1 sent2 sent3 : List Sent} {es'' : Object}
    (h1 : Extends (fun obj => decodeExternal decodeAmf3 obj abstractFieldSets) bs1 D D1 es sent1)
    (h2 : Extends (fun obj => decodeExternal decodeAmf3 obj asyncFieldSets) bs2 D1 D2 es' sent2)
    (h3 : Extends (fun obj => decodeExternal decodeAmf3 obj []) bs3 D2 D' es'' sent3) :
    Extends (fun obj => wrap "unable to decode async for ack" (wrap "unable to decode abstract for async"
        (wrap "unable to decode abstract external" (decodeExternal decodeAmf3 obj abstractFieldSets)) >>= fun result =>
      wrap "unable to decode async external" (decodeExternal decodeAmf3 result asyncFieldSets)) >>= fun result =>
      wrap "unable to decode ack external" (decodeExternal decodeAmf3 result []))
      (bs1 ++ bs2 ++ bs3) D D' (es ++ es' ++ es'') (sent1 ++ sent2 ++ sent3) :=
  (h1.async h2).mapErr.comp h3.mapErr

/-! ### Every encoding -/

theorem expandLeaf_tables {kind : Kind} {node : Node} {suits : kind.Suits v} {kept : Bool} {e : Expanded Node Value}
    (h : expandLeaf kind node v suits kept R = .ok e R') :
    e = ⟨node, v, []⟩ ∧ R'.tables = if kept then R.tables.keep v else R.tables := by
  cases kept <;> cases h <;> exact ⟨rfl, rfl⟩

/-- The parts of an object that has been expanded. -/
theorem expandObject_eq_ok {head : Head} {follows : Traits → Prop} [DecidablePred follows]
    {body : Traits → Walk (Expanded (Head → Node) Value)} {e : Expanded Node Value}
    (h : expandObject head follows body R = .ok e R') :
    ∃ traits R1 e' R2, head.expand { R with objects := R.objects ++ [none] } = .ok traits R1 ∧ follows traits ∧
      body traits { R1 with kept := R1.kept ++ [.null] } = .ok e' R2 ∧ e = ⟨e'.form traits.head, e'.value, e'.sent⟩ ∧
      R' = { R2 with objects :=
        R2.objects.set R.objects.length (some ⟨.object, e'.form traits.head, e'.value, trivial⟩) } := by
  obtain ⟨traits, R1, hhead, hrest⟩ :=
    bind_eq_ok.mp (show (head.expand >>= _) { R with objects := R.objects ++ [none] } = _ from h)
  obtain ⟨hfollows, hrest⟩ := require_bind_eq_ok.mp hrest
  obtain ⟨e', R2, hbody, hrest⟩ :=
    bind_eq_ok.mp (show (body traits >>= _) { R1 with kept := R1.kept ++ [.null] } = _ from hrest)
  obtain ⟨rfl, rfl⟩ := Outcome.ok.inj hrest
  exact ⟨traits, R1, e', R2, hhead, hfollows, hbody, rfl, rfl⟩

theorem expandEntries_eq_ok {form : Head → Node} {obj : Object} {e : Expanded (Head → Node) Value}
    (h : expandEntries form obj sent R = .ok e R') : (obj.map Prod.fst).Nodup ∧ e = ⟨form, .object obj, sent⟩ ∧ R = R' := by
  obtain ⟨hnodup, hrest⟩ := require_bind_eq_ok.mp h
  obtain ⟨rfl, rfl⟩ := Outcome.ok.inj hrest
  exact ⟨hnodup, rfl, rfl⟩

theorem expandFields_eq_ok {k : Nat} {fieldSets : List (List String)} {flags : Flags}
    {fields : Walk (Expanded (Items k) (List Value))} {e : Expanded (Items k) Object}
    (h : expandFields fieldSets flags fields R = .ok e R') :
    ∃ e', fields R = .ok e' R' ∧ k = (announcedKeys fieldSets flags).length ∧
      e = ⟨e'.form, (announcedKeys fieldSets flags).zip e'.value, e'.sent⟩ := by
  obtain ⟨e', R1, hfields, hrest⟩ := bind_eq_ok.mp h
  obtain ⟨hcount, hrest⟩ := require_bind_eq_ok.mp hrest
  obtain ⟨rfl, rfl⟩ := Outcome.ok.inj hrest
  exact ⟨e', hfields, hcount, rfl⟩

theorem named_eq_ok {kind : Kind} {i : Nat} {n : { n : Named // n.kind = kind }} (h : named kind i R = .ok n R') :
    R.objects[i]? = some (some n.1) ∧ R = R' := by
  obtain ⟨entry, R1, hentry, h⟩ := bind_eq_ok.mp h
  obtain ⟨hget, rfl⟩ := nth_eq_ok.mp hentry
  cases entry with
  | none => cases h
  | some n' =>
      dsimp only at h
      split at h
      · obtain ⟨rfl, rfl⟩ := Outcome.ok.inj h
        exact ⟨hget, rfl⟩
      · cases h

theorem readAs_xml {m : UInt8} {s : Short}
    (hm : amf3Value decodeAmf3 m = decodeAmf3Xml false >>= fun s => pure (Value.string s)) :
    ReadAs (m :: utf8Bytes s.1) D (if s.1 ≠ [] then D.keep (.string s.1) else D) (.string s.1) [] :=
  .of_exact hm ((exact_xml s).map Value.string)

/-- A section of a message. -/
theorem extends_fields {k : Nat} {fieldSets : List (List String)} {flags : Flags} {fields : Items k}
    {e : Expanded (Items k) Object} (h : expandFields fieldSets flags fields.expand R = .ok e R')
    (hfields : ∀ e' : Expanded (Items k) (List Value), fields.expand R = .ok e' R' → e'.value.length = k ∧
      Lists (decodeAmf3.times k) fields.bytes R.tables R'.tables e'.value e'.sent) :
    Extends (fun obj => decodeExternal decodeAmf3 obj fieldSets) (flags.1 ++ fields.bytes) R.tables R'.tables e.value
      e.sent := by
  obtain ⟨e', hwalk, hcount, rfl⟩ := expandFields_eq_ok h
  obtain ⟨hlength, hlists⟩ := hfields e' hwalk
  exact hlists.decodeExternal hlength hcount

theorem ReadAs.cons {n : Nat} (hv : ReadAs bs D D1 v sent) (hvs : Lists (decodeAmf3.times n) bs' D1 D' vs sent') :
    Lists (decodeAmf3.times (n + 1)) (bs ++ bs') D D' (v :: vs) (sent ++ sent') := by
  constructor
  · refine hv.lands.bind fun u _ => hvs.lands.map ?_
    intro us hus
    rw [List.length_cons, hus, List.length_cons]
  · refine hv.yields.bind hv.lands (fun u _ => hvs.lands.map ?_) (hvs.yields.map ?_)
    · exact fun us _ heq => (List.cons.inj heq).1
    · exact fun us heq => (List.cons.inj heq).2

/-- What a collection contains, which is kept once more. -/
theorem ReadAs.lands_keep (h : ReadAs bs D D' v sent) {text text' : String} :
    Lands (wrap text (wrap text' decodeAmf3) >>= fun result => pushObject result >>= fun _ => pure result) bs D (D'.keep v)
      fun _ => True := by
  rw [← List.append_nil bs]
  exact h.lands.mapErr.mapErr.bind fun u _ => (Amf.lands_keep v u u).imp fun _ _ => trivial

theorem ReadAs.yields_keep (h : ReadAs bs D D' v sent) {text text' : String} :
    Yields (wrap text (wrap text' decodeAmf3) >>= fun result => pushObject result >>= fun _ => pure result) bs D (D'.keep v)
      v sent := by
  rw [← List.append_nil bs, ← List.append_nil sent]
  refine h.yields.mapErr.mapErr.bind h.lands.mapErr.mapErr ?_ (exact_keep v v).yields
  intro u _
  exact (Amf.lands_keep v u u).imp fun _ heq hsame => heq.symm.trans hsame

/-- The values of a class's own properties. -/
theorem Lists.sealed {traits : Traits} {n : Nat} (hlength : vs.length = n) (hcount : traits.properties.length = n)
    (h : Lists (decodeAmf3.times n) bs D D' vs sent) :
    Extends (Amf.decodeEntries decodeAmf3 traits.trait.keys) bs D D' (traits.keys.zip vs) sent := by
  have hkeys : traits.trait.keys.map Prod.fst = traits.keys := by
    rw [Trait.keys, List.map_map]
    exact List.map_id _
  have hkeysLength : traits.trait.keys.length = n := by
    rw [Trait.keys, List.length_map, ← hcount]
    exact List.length_map _
  rw [← hkeysLength] at h hlength
  have hentries := h.decodeEntries hlength
  rwa [hkeys] at hentries

mutual
/-- An encoding is read as the value that it is of exactly if its references are found. -/
theorem Node.readAs (node : Node) {R R' : Rules} {e : Expanded Node Value} (h : node.expand R = .ok e R') :
    ReadAs node.bytes R.tables R'.tables e.value e.sent := by
  cases node with
  | undefined =>
      rw [Node.expand] at h
      cases h
      exact .of_exact rfl (.pure _)
  | null =>
      rw [Node.expand] at h
      cases h
      exact .of_exact rfl (.pure _)
  | bool b =>
      rw [Node.expand] at h
      cases h
      cases b
      · exact .of_exact rfl (.pure _)
      · exact .of_exact rfl (.pure _)
  | integer n =>
      rw [Node.expand] at h
      cases h
      exact readAs_integer n
  | double bits =>
      rw [Node.expand] at h
      cases h
      exact .of_exact rfl ((exact_double bits _).map Value.number)
  | string s =>
      rw [Node.expand] at h
      obtain ⟨s', R1, hs, h⟩ := bind_eq_ok.mp h
      cases h
      exact .of_exact rfl ((exact_str hs).map Value.string)
  | date millis =>
      rw [Node.expand] at h
      obtain ⟨rfl, htables⟩ := expandLeaf_tables h
      rw [htables]
      exact readAs_date millis
  | xmlDoc s =>
      rw [Node.expand] at h
      obtain ⟨rfl, htables⟩ := expandLeaf_tables h
      rw [htables]
      simpa [Node.bytes] using readAs_xml (D := R.tables) (m := amf3XmldocMarker) (s := s) rfl
  | xmlString s =>
      rw [Node.expand] at h
      obtain ⟨rfl, htables⟩ := expandLeaf_tables h
      rw [htables]
      simpa [Node.bytes] using readAs_xml (D := R.tables) (m := amf3XmlstringMarker) (s := s) rfl
  | byteArray bs =>
      rw [Node.expand] at h
      obtain ⟨rfl, htables⟩ := expandLeaf_tables h
      rw [htables]
      exact readAs_byteArray bs
  | array hcount elements =>
      rw [Node.expand] at h
      obtain ⟨e', R1, helements, h⟩ :=
        bind_eq_ok.mp (show (elements.expand >>= _) { R with objects := R.objects ++ [none] } = _ from h)
      obtain ⟨rfl, rfl⟩ := Outcome.ok.inj h
      exact readAs_array hcount (elements.lists helements).2
  | object head sealedValues more =>
      rw [Node.expand] at h
      obtain ⟨traits, R1, e', R2, hhead, ⟨hplain, hdynamic, hcount⟩, hbody, rfl, rfl⟩ := expandObject_eq_ok h
      obtain ⟨e1, R3, hsealed, hbody⟩ := bind_eq_ok.mp hbody
      obtain ⟨e2, R4, hmore, hbody⟩ := bind_eq_ok.mp hbody
      obtain ⟨hnodup, rfl, rfl⟩ := expandEntries_eq_ok hbody
      obtain ⟨hlength, hlists⟩ := sealedValues.lists hsealed
      have hentries := (hlists.sealed hlength hcount).comp (more.extends hmore)
      subst hdynamic
      refine readAs_object hhead ?_ ?_
      · rw [decodeObjectBody_plain hplain]
        exact hentries.lands_object hnodup
      · rw [decodeObjectBody_plain hplain]
        exact hentries.yields_object hnodup
  | collection head source =>
      rw [Node.expand] at h
      obtain ⟨traits, R1, e', R2, hhead, ⟨hexternal, htype⟩, hbody, rfl, rfl⟩ := expandObject_eq_ok h
      obtain ⟨e1, R3, hsource, hbody⟩ := bind_eq_ok.mp hbody
      obtain ⟨rfl, rfl⟩ := Outcome.ok.inj hbody
      have hchild := source.readAs hsource
      refine readAs_object hhead ?_ ?_
      · rw [decodeObjectBody_collection hexternal htype]
        exact hchild.lands_keep
      · rw [decodeObjectBody_collection hexternal htype]
        exact hchild.yields_keep
  | message head flags fields flags' fields' =>
      rw [Node.expand] at h
      obtain ⟨traits, R1, e', R2, hhead, ⟨hexternal, htype⟩, hbody, rfl, rfl⟩ := expandObject_eq_ok h
      obtain ⟨e1, R3, hfields, hbody⟩ := bind_eq_ok.mp hbody
      obtain ⟨e2, R4, hfields', hbody⟩ := bind_eq_ok.mp hbody
      obtain ⟨hnodup, rfl, rfl⟩ := expandEntries_eq_ok hbody
      have hentries := (extends_fields hfields fun _ => fields.lists).async (extends_fields hfields' fun _ => fields'.lists)
      refine readAs_object hhead ?_ ?_
      · rw [decodeObjectBody_message hexternal htype]
        exact hentries.mapErr.lands_object hnodup
      · rw [decodeObjectBody_message hexternal htype]
        exact hentries.mapErr.yields_object hnodup
  | acknowledge head flags fields flags' fields' flags'' fields'' =>
      rw [Node.expand] at h
      obtain ⟨traits, R1, e', R2, hhead, ⟨hexternal, htype⟩, hbody, rfl, rfl⟩ := expandObject_eq_ok h
      obtain ⟨e1, R3, hfields, hbody⟩ := bind_eq_ok.mp hbody
      obtain ⟨e2, R4, hfields', hbody⟩ := bind_eq_ok.mp hbody
      obtain ⟨e3, R5, hfields'', hbody⟩ := bind_eq_ok.mp hbody
      obtain ⟨hnodup, rfl, rfl⟩ := expandEntries_eq_ok hbody
      have hentries := (extends_fields hfields fun _ => fields.lists).ack (extends_fields hfields' fun _ => fields'.lists)
        (extends_fields hfields'' fun _ => fields''.lists)
      refine readAs_object hhead ?_ ?_
      · rw [decodeObjectBody_acknowledge hexternal htype]
        exact hentries.mapErr.lands_object hnodup
      · rw [decodeObjectBody_acknowledge hexternal htype]
        exact hentries.mapErr.yields_object hnodup
  | ref kind i =>
      rw [Node.expand] at h
      obtain ⟨n, R1, hn, h⟩ := bind_eq_ok.mp h
      obtain ⟨-, rfl⟩ := named_eq_ok hn
      obtain ⟨⟨kind', node, value, hsuits⟩, rfl⟩ := n
      cases h
      exact ⟨lands_ref kind' i, yields_ref hsuits i⟩

theorem Items.lists {k : Nat} (items : Items k) {R R' : Rules} {e : Expanded (Items k) (List Value)}
    (h : items.expand R = .ok e R') :
    e.value.length = k ∧ Lists (decodeAmf3.times k) items.bytes R.tables R'.tables e.value e.sent := by
  cases items with
  | nil =>
      rw [Items.expand] at h
      cases h
      exact ⟨rfl, (Exact.pure []).lands.imp fun _ hnil => by rw [hnil], (Exact.pure []).yields⟩
  | cons node rest =>
      rw [Items.expand] at h
      obtain ⟨e1, R1, hnode, h⟩ := bind_eq_ok.mp h
      obtain ⟨e2, R2, hrest, h⟩ := bind_eq_ok.mp h
      obtain ⟨rfl, rfl⟩ := Outcome.ok.inj h
      have hfirst := node.readAs hnode
      obtain ⟨hlength, hothers⟩ := rest.lists hrest
      exact ⟨congrArg (· + 1) hlength, hfirst.cons hothers⟩

theorem Tail.extends {dynamic : Bool} (tail : Tail dynamic) {R R' : Rules} {e : Expanded (Tail dynamic) Object}
    (h : tail.expand R = .ok e R') :
    Extends (fun obj => if dynamic then decodeDynamic decodeAmf3 obj else pure obj) tail.bytes R.tables R'.tables e.value
      e.sent := by
  cases tail with
  | absent =>
      rw [Tail.expand] at h
      cases h
      exact extends_absent
  | done =>
      rw [Tail.expand] at h
      cases h
      exact extends_done
  | cons key node rest =>
      rw [Tail.expand] at h
      obtain ⟨s, R1, hkey, h⟩ := bind_eq_ok.mp h
      obtain ⟨hne, h⟩ := require_bind_eq_ok.mp h
      obtain ⟨e1, R2, hnode, h⟩ := bind_eq_ok.mp h
      obtain ⟨e2, R3, hrest, h⟩ := bind_eq_ok.mp h
      obtain ⟨rfl, rfl⟩ := Outcome.ok.inj h
      have hvalue := node.readAs hnode
      exact extends_cons hne (exact_str hkey) hvalue.lands hvalue.yields (rest.extends hrest)
end

/-! ### What has been expanded refers to nothing -/

/-- Wherever it begins, the walk ends with `a`. -/
def Always (x : Walk α) (a : α) : Prop := ∀ S, ∃ S', x S = .ok a S'

theorem Always.pure (a : α) : Always (pure a) a := fun S => ⟨S, rfl⟩

theorem Always.modify (k : Rules → Rules) : Always (Call.modify k) () := fun S => ⟨k S, rfl⟩

theorem Always.bind {y : Walk α} {k : α → Walk β} {b : β} (hy : Always y a) (hk : Always (k a) b) :
    Always (y >>= k) b := by
  intro S
  obtain ⟨S1, hyS⟩ := hy S
  obtain ⟨S2, hkS⟩ := hk S1
  exact ⟨S2, (bind_of_ok hyS).trans hkS⟩

theorem Always.number {k : Nat → Walk β} {b : β} (hk : ∀ i, Always (k i) b) : Always (number >>= k) b :=
  fun S => hk S.objects.length { S with objects := S.objects ++ [none] }

theorem Always.require {p : Prop} [Decidable p] (hp : p) : Always (require p) () := by
  intro S
  exact ⟨S, by rw [Amf.require, if_pos hp]; rfl⟩

theorem always_keep (v : Value) : Always (keep v) () := .modify _

theorem always_inline (s : Short) : Always (Str.expand (.inline s)) s := (Always.modify _).bind (.pure s)

theorem always_expandStrs (ss : List Short) : Always (expandStrs (ss.map .inline)) ss := by
  induction ss with
  | nil => exact .pure []
  | cons s ss ih => exact (always_inline s).bind (ih.bind (.pure (s :: ss)))

theorem always_head (traits : Traits) : Always traits.head.expand traits := by
  refine (always_inline traits.type).bind ((always_expandStrs traits.properties).bind ?_)
  rw [dif_pos traits.hcount]
  exact (Always.modify _).bind (.pure traits)

theorem always_expandLeaf {kind : Kind} (node : Node) (suits : kind.Suits v) (kept : Bool) :
    Always (expandLeaf kind node v suits kept) ⟨node, v, []⟩ := by
  refine Always.number fun i => (Always.modify _).bind ?_
  cases kept
  · exact .pure _
  · exact (Always.modify _).bind (.pure _)

theorem always_expandObject {traits : Traits} {follows : Traits → Prop} [DecidablePred follows]
    {body : Traits → Walk (Expanded (Head → Node) Value)} {form : Head → Node} (hfollows : follows traits)
    (hbody : Always (body traits) ⟨form, v, []⟩) :
    Always (expandObject traits.head follows body) ⟨form traits.head, v, []⟩ := by
  refine Always.number fun i => (always_head traits).bind ((Always.require hfollows).bind ?_)
  exact (Always.modify _).bind (hbody.bind ((Always.modify _).bind (.pure _)))

theorem always_expandEntries {form : Head → Node} {obj : Object} (hnodup : (obj.map Prod.fst).Nodup) :
    Always (expandEntries form obj []) ⟨form, .object obj, []⟩ :=
  (Always.require hnodup).bind (.pure _)

theorem always_expandFields {k : Nat} {fieldSets : List (List String)} {flags : Flags} {fields : Items k}
    (hcount : k = (announcedKeys fieldSets flags).length) (h : Always fields.expand ⟨fields, vs, []⟩) :
    Always (expandFields fieldSets flags fields.expand) ⟨fields, (announcedKeys fieldSets flags).zip vs, []⟩ :=
  h.bind ((Always.require hcount).bind (.pure _))

/-- Everything that can be named is in full. -/
def Rules.Full (R : Rules) : Prop := ∀ n, some n ∈ R.objects → Always n.node.expand ⟨n.node, n.value, []⟩

theorem Rules.Full.begin (h : R.Full) : Rules.Full { R with objects := R.objects ++ [none] } := by
  intro n hn
  rcases List.mem_append.mp hn with hmem | hmem
  · exact h n hmem
  · cases List.mem_singleton.mp hmem

theorem Rules.Full.complete (h : R.Full) {i : Nat} {n : Named} (hn : Always n.node.expand ⟨n.node, n.value, []⟩) :
    Rules.Full { R with objects := R.objects.set i (some n) } := by
  intro n' hn'
  rcases List.mem_or_eq_of_mem_set hn' with hmem | heq
  · exact h n' hmem
  · cases heq
    exact hn

theorem expand_str_objects {str : Str} {s : Short} (h : str.expand R = .ok s R') : R'.objects = R.objects := by
  cases str with
  | inline s' =>
      obtain ⟨-, rfl⟩ := Outcome.ok.inj h
      show (R.withString s').objects = R.objects
      rw [Rules.withString]
      split <;> rfl
  | ref i =>
      obtain ⟨-, rfl⟩ := nth_eq_ok.mp h
      rfl

theorem expandStrs_objects {strs : List Str} {ss : List Short} (h : expandStrs strs R = .ok ss R') :
    R'.objects = R.objects := by
  induction strs generalizing R ss with
  | nil =>
      obtain ⟨-, rfl⟩ := Outcome.ok.inj h
      rfl
  | cons str strs ih =>
      obtain ⟨s, R1, hstr, hrest⟩ := bind_eq_ok.mp h
      obtain ⟨ss', R2, hstrs, hrest⟩ := bind_eq_ok.mp hrest
      obtain ⟨-, rfl⟩ := Outcome.ok.inj hrest
      exact (ih hstrs).trans (expand_str_objects hstr)

theorem expand_head_objects {head : Head} {traits : Traits} (h : head.expand R = .ok traits R') :
    R'.objects = R.objects := by
  cases head with
  | inline type externalizable dynamic properties _ =>
      obtain ⟨type', R1, htype, hrest⟩ := bind_eq_ok.mp h
      obtain ⟨properties', R2, hproperties, hrest⟩ := bind_eq_ok.mp hrest
      split at hrest
      · obtain ⟨-, rfl⟩ := Outcome.ok.inj hrest
        exact (expandStrs_objects hproperties).trans (expand_str_objects htype)
      · cases hrest
  | ref i =>
      obtain ⟨-, rfl⟩ := nth_eq_ok.mp h
      rfl

theorem full_congr (h : R.Full) (hobjects : R'.objects = R.objects) : R'.Full := by
  intro n hn
  rw [hobjects] at hn
  exact h n hn

/-- The traits of an object name no complex value. -/
theorem Rules.Full.of_head (h : R.Full) {head : Head} {traits : Traits} (hhead : head.expand R = .ok traits R') :
    Rules.Full { R' with kept := R'.kept ++ [.null] } := by
  have hobjects := expand_head_objects hhead
  exact full_congr h hobjects

/-- An object is in full once its body is. -/
theorem full_object {traits : Traits} {R2 : Rules} {follows : Traits → Prop} [DecidablePred follows]
    {body : Traits → Walk (Expanded (Head → Node) Value)} {form : Head → Node} {i : Nat} (hR : R2.Full)
    (hform : (form traits.head).expand = expandObject traits.head follows body) (hfollows : follows traits)
    (hbody : Always (body traits) ⟨form, v, []⟩) :
    Rules.Full { R2 with objects := R2.objects.set i (some ⟨.object, form traits.head, v, trivial⟩) } ∧
      Always (form traits.head).expand ⟨form traits.head, v, []⟩ := by
  have halways := always_expandObject hfollows hbody
  rw [← hform] at halways
  exact ⟨hR.complete halways, halways⟩

theorem full_leaf {kind : Kind} {node : Node} {suits : kind.Suits v} {kept : Bool} {e : Expanded Node Value}
    (hnode : node.expand = expandLeaf kind node v suits kept) (hR : R.Full)
    (h : expandLeaf kind node v suits kept R = .ok e R') : R'.Full ∧ Always e.form.expand ⟨e.form, e.value, []⟩ := by
  have halways := always_expandLeaf node suits kept
  rw [← hnode] at halways
  have hfull := hR.begin.complete (i := R.objects.length) (n := ⟨kind, node, v, suits⟩) halways
  cases kept <;> cases h <;> exact ⟨hfull, halways⟩

mutual
/-- Expanding leaves no reference: what is expanded once is expanded to itself. -/
theorem Node.full (node : Node) {R R' : Rules} {e : Expanded Node Value} (hR : R.Full) (h : node.expand R = .ok e R') :
    R'.Full ∧ Always e.form.expand ⟨e.form, e.value, []⟩ := by
  cases node with
  | undefined =>
      rw [Node.expand] at h
      cases h
      exact ⟨hR, .pure _⟩
  | null =>
      rw [Node.expand] at h
      cases h
      exact ⟨hR, .pure _⟩
  | bool b =>
      rw [Node.expand] at h
      cases h
      exact ⟨hR, .pure _⟩
  | integer n =>
      rw [Node.expand] at h
      cases h
      exact ⟨hR, .pure _⟩
  | double bits =>
      rw [Node.expand] at h
      cases h
      exact ⟨hR, .pure _⟩
  | string s =>
      rw [Node.expand] at h
      obtain ⟨s', R1, hs, hrest⟩ := bind_eq_ok.mp h
      cases hrest
      exact ⟨full_congr hR (expand_str_objects hs), (always_inline s').bind (.pure _)⟩
  | date millis =>
      rw [Node.expand] at h
      exact full_leaf rfl hR h
  | xmlDoc s =>
      rw [Node.expand] at h
      exact full_leaf rfl hR h
  | xmlString s =>
      rw [Node.expand] at h
      exact full_leaf rfl hR h
  | byteArray bs =>
      rw [Node.expand] at h
      exact full_leaf rfl hR h
  | array hcount elements =>
      rw [Node.expand] at h
      obtain ⟨e', R1, helements, hrest⟩ :=
        bind_eq_ok.mp (show (elements.expand >>= _) { R with objects := R.objects ++ [none] } = _ from h)
      obtain ⟨rfl, rfl⟩ := Outcome.ok.inj hrest
      obtain ⟨hR1, helements'⟩ := elements.full hR.begin helements
      have halways : Always (Node.array hcount e'.form).expand ⟨.array hcount e'.form, .array e'.value, []⟩ := by
        rw [Node.expand]
        exact Always.number fun i => helements'.bind ((Always.modify _).bind ((Always.modify _).bind (.pure _)))
      exact ⟨hR1.complete (n := ⟨.array, .array hcount e'.form, .array e'.value, e'.value, rfl⟩) halways, halways⟩
  | object head sealedValues more =>
      rw [Node.expand] at h
      obtain ⟨traits, R1, e', R2, hhead, hfollows, hbody, rfl, rfl⟩ := expandObject_eq_ok h
      obtain ⟨e1, R3, hsealed, hbody⟩ := bind_eq_ok.mp hbody
      obtain ⟨e2, R4, hmore, hbody⟩ := bind_eq_ok.mp hbody
      obtain ⟨hnodup, rfl, rfl⟩ := expandEntries_eq_ok hbody
      have hR1 := hR.begin.of_head hhead
      obtain ⟨hR3, hsealed'⟩ := sealedValues.full hR1 hsealed
      obtain ⟨hR4, hmore'⟩ := more.full hR3 hmore
      exact full_object hR4 (by rw [Node.expand]) hfollows (hsealed'.bind (hmore'.bind (always_expandEntries hnodup)))
  | collection head source =>
      rw [Node.expand] at h
      obtain ⟨traits, R1, e', R2, hhead, hfollows, hbody, rfl, rfl⟩ := expandObject_eq_ok h
      obtain ⟨e1, R3, hsource, hbody⟩ := bind_eq_ok.mp hbody
      obtain ⟨rfl, rfl⟩ := Outcome.ok.inj hbody
      have hR1 := hR.begin.of_head hhead
      obtain ⟨hR3, hsource'⟩ := source.full hR1 hsource
      refine full_object hR3 (by rw [Node.expand]) hfollows (hsource'.bind ?_)
      exact (always_keep e1.value).bind (.pure _)
  | message head flags fields flags' fields' =>
      rw [Node.expand] at h
      obtain ⟨traits, R1, e', R2, hhead, hfollows, hbody, rfl, rfl⟩ := expandObject_eq_ok h
      obtain ⟨e1, R3, hfields, hbody⟩ := bind_eq_ok.mp hbody
      obtain ⟨e2, R4, hfields', hbody⟩ := bind_eq_ok.mp hbody
      obtain ⟨hnodup, rfl, rfl⟩ := expandEntries_eq_ok hbody
      obtain ⟨s1, hwalk1, hcount1, rfl⟩ := expandFields_eq_ok hfields
      obtain ⟨s2, hwalk2, hcount2, rfl⟩ := expandFields_eq_ok hfields'
      have hR1 := hR.begin.of_head hhead
      obtain ⟨hR3, halways1⟩ := fields.full hR1 hwalk1
      obtain ⟨hR4, halways2⟩ := fields'.full hR3 hwalk2
      exact full_object hR4 (by rw [Node.expand]) hfollows ((always_expandFields hcount1 halways1).bind
        ((always_expandFields hcount2 halways2).bind (always_expandEntries hnodup)))
  | acknowledge head flags fields flags' fields' flags'' fields'' =>
      rw [Node.expand] at h
      obtain ⟨traits, R1, e', R2, hhead, hfollows, hbody, rfl, rfl⟩ := expandObject_eq_ok h
      obtain ⟨e1, R3, hfields, hbody⟩ := bind_eq_ok.mp hbody
      obtain ⟨e2, R4, hfields', hbody⟩ := bind_eq_ok.mp hbody
      obtain ⟨e3, R5, hfields'', hbody⟩ := bind_eq_ok.mp hbody
      obtain ⟨hnodup, rfl, rfl⟩ := expandEntries_eq_ok hbody
      obtain ⟨s1, hwalk1, hcount1, rfl⟩ := expandFields_eq_ok hfields
      obtain ⟨s2, hwalk2, hcount2, rfl⟩ := expandFields_eq_ok hfields'
      obtain ⟨s3, hwalk3, hcount3, rfl⟩ := expandFields_eq_ok hfields''
      have hR1 := hR.begin.of_head hhead
      obtain ⟨hR3, halways1⟩ := fields.full hR1 hwalk1
      obtain ⟨hR4, halways2⟩ := fields'.full hR3 hwalk2
      obtain ⟨hR5, halways3⟩ := fields''.full hR4 hwalk3
      exact full_object hR5 (by rw [Node.expand]) hfollows ((always_expandFields hcount1 halways1).bind
        ((always_expandFields hcount2 halways2).bind
          ((always_expandFields hcount3 halways3).bind (always_expandEntries hnodup))))
  | ref kind i =>
      rw [Node.expand] at h
      obtain ⟨n, R1, hn, hrest⟩ := bind_eq_ok.mp h
      obtain ⟨hget, rfl⟩ := named_eq_ok hn
      cases hrest
      exact ⟨hR, hR n.1 (List.mem_of_getElem? hget)⟩

theorem Items.full {k : Nat} (items : Items k) {R R' : Rules} {e : Expanded (Items k) (List Value)} (hR : R.Full)
    (h : items.expand R = .ok e R') : R'.Full ∧ Always e.form.expand ⟨e.form, e.value, []⟩ := by
  cases items with
  | nil =>
      rw [Items.expand] at h
      cases h
      exact ⟨hR, .pure _⟩
  | cons node rest =>
      rw [Items.expand] at h
      obtain ⟨e1, R1, hnode, h⟩ := bind_eq_ok.mp h
      obtain ⟨e2, R2, hrest, h⟩ := bind_eq_ok.mp h
      obtain ⟨rfl, rfl⟩ := Outcome.ok.inj h
      obtain ⟨hR1, hnode'⟩ := node.full hR hnode
      obtain ⟨hR2, hrest'⟩ := rest.full hR1 hrest
      refine ⟨hR2, ?_⟩
      rw [Items.expand]
      exact hnode'.bind (hrest'.bind (.pure _))

theorem Tail.full {dynamic : Bool} (tail : Tail dynamic) {R R' : Rules} {e : Expanded (Tail dynamic) Object} (hR : R.Full)
    (h : tail.expand R = .ok e R') : R'.Full ∧ Always e.form.expand ⟨e.form, e.value, []⟩ := by
  cases tail with
  | absent =>
      rw [Tail.expand] at h
      cases h
      exact ⟨hR, .pure _⟩
  | done =>
      rw [Tail.expand] at h
      cases h
      exact ⟨hR, .pure _⟩
  | cons key node rest =>
      rw [Tail.expand] at h
      obtain ⟨s, R1, hkey, h⟩ := bind_eq_ok.mp h
      obtain ⟨hne, h⟩ := require_bind_eq_ok.mp h
      obtain ⟨e1, R2, hnode, h⟩ := bind_eq_ok.mp h
      obtain ⟨e2, R3, hrest, h⟩ := bind_eq_ok.mp h
      obtain ⟨rfl, rfl⟩ := Outcome.ok.inj h
      obtain ⟨hR2, hnode'⟩ := node.full (full_congr hR (expand_str_objects hkey)) hnode
      obtain ⟨hR3, hrest'⟩ := rest.full hR2 hrest
      refine ⟨hR3, ?_⟩
      rw [Tail.expand]
      exact (always_inline s).bind ((Always.require hne).bind (hnode'.bind (hrest'.bind (.pure _))))
end

/-! ### The condition -/

/-- A fresh decoder returns the same value for the encoding as for the encoding with its references expanded, whatever
follows them. -/
def SameAsExpanded (node form : Node) : Prop :=
  ∀ rest, ∃ v t t', decodeAmf3 ⟨{}, ⟨.bytesBuffer, node.bytes ++ rest⟩⟩ = .ok v t ∧
    decodeAmf3 ⟨{}, ⟨.bytesBuffer, form.bytes ++ rest⟩⟩ = .ok v t'

end Amf

end Livego
