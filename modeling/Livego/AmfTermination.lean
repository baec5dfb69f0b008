import Livego.AmfDecoder0

/-! Decoding ends: every call of the routers to themselves is made with fewer bytes left, so each is a
fixed point of its body and never makes the bytes left more. -/

namespace Livego

open Fallible Call

namespace Amf

open Decoding (left)

variable {n : Nat}

theorem settled_read (k : Nat) : Settled left n (read k) (read k) := by
  apply Settled.of_sat
  intro s
  unfold read
  split
  · exact Nat.le_refl _
  · exact s.left_skip_le k

theorem settled_fill (k : Nat) : Settled left n (fill k) (fill k) :=
  (settled_read k).bind fun _ => .pure _

theorem settled_readBytes (k : Nat) : Settled left n (readBytes k) (readBytes k) :=
  (settled_read k).bind fun _ => .ite (.fail _) (.pure _)

theorem settled_readUint (k : Nat) : Settled left n (readUint k) (readUint k) := by
  apply Settled.of_sat
  intro s
  unfold readUint
  split <;> exact s.left_skip_le k

theorem settled_readFloat64 : Settled left n readFloat64 readFloat64 :=
  (settled_readUint 8).bind fun _ => .pure _

theorem settled_index {α : Type} (table : Decoder → List α) (i : Nat) :
    Settled left n (index table i) (index table i) := by
  apply Settled.of_sat
  intro s
  unfold index
  split
  · exact Nat.le_refl _
  · trivial

theorem settled_record (f : Decoder → Decoder) : Settled left n (record f) (record f) :=
  Settled.of_sat fun _ => Nat.le_refl _

theorem consuming_readByte : Consuming left n readByte := by
  intro s _
  unfold readByte readBytes read
  by_cases hnil : s.r.unread = []
  · simp [bind_apply, hnil]
  · have hpos : 0 < s.r.unread.length := List.length_pos_iff.mpr hnil
    have hone : (s.r.unread.take 1).length = 1 := by rw [List.length_take]; omega
    simp [bind_apply, hnil, hone, left]
    omega

theorem consuming_readUint {k : Nat} (hk : 0 < k) : Consuming left n (readUint k) := by
  intro s _
  unfold readUint
  split
  · exact s.left_skip_le k
  · rename_i hlen
    have hskip := s.left_skip k
    have hleft : s.left = s.r.unread.length := rfl
    simp only [Outcome.sat_ok]
    omega

theorem settled_assertMarker (checkMarker : Bool) (m : UInt8) :
    Settled left n (assertMarker checkMarker m) (assertMarker checkMarker m) := by
  cases checkMarker with
  | false => exact .pure ()
  | true => exact (Settled.of_consuming consuming_readByte).bind fun _ => .ite (.fail _) (.pure ())

/-! ### AMF3 -/

theorem consuming_u29Loop (i result : Nat) : Consuming left n (u29Loop i result) := by
  induction i generalizing result with
  | zero => exact consuming_readByte.bind fun _ => .pure _
  | succ i ih => exact consuming_readByte.bind fun _ => .ite (.pure _) (.of_consuming (ih _))

theorem consuming_decodeReferenceInt : Consuming left n decodeReferenceInt :=
  (consuming_u29Loop 3 0).mapErr.bind fun _ => .pure _

theorem settled_ref {context : String} :
    Settled left n (wrap context decodeReferenceInt) (wrap context decodeReferenceInt) :=
  .mapErr (.of_consuming consuming_decodeReferenceInt)

theorem settled_pushString (result : Bytes) : Settled left n (pushString result) (pushString result) :=
  settled_record _

theorem settled_pushObject (result : Value) : Settled left n (pushObject result) (pushObject result) :=
  settled_record _

theorem consuming_decodeAmf3String : Consuming left n (decodeAmf3String false) := by
  rw [decodeAmf3String, assertMarker_false, pure_bind]
  refine consuming_decodeReferenceInt.mapErr.bind fun ref => ?_
  refine .ite (settled_index _ _) ((settled_fill _).mapErr.bind fun result => ?_)
  exact .ite ((settled_pushString _).bind fun _ => .pure _) (.pure _)

theorem settled_decodeAmf3String (m : Bool) : Settled left n (decodeAmf3String m) (decodeAmf3String m) :=
  (settled_assertMarker m _).bind fun _ => .of_consuming consuming_decodeAmf3String

theorem settled_decodeAmf3Date (m : Bool) : Settled left n (decodeAmf3Date m) (decodeAmf3Date m) := by
  refine (settled_assertMarker m _).bind fun _ => settled_ref.bind fun ref => ?_
  refine .ite ((settled_index _ _).bind fun v => ?_) ?_
  · split
    · exact .pure _
    · exact .fail _
  · exact settled_readFloat64.mapErr.bind fun _ => (settled_pushObject _).bind fun _ => .pure _

theorem settled_assertXmlMarker (m : Bool) : Settled left n (assertXmlMarker m) (assertXmlMarker m) := by
  cases m with
  | false => exact .pure ()
  | true => exact (Settled.of_consuming consuming_readByte).bind fun _ => .ite (.fail _) (.pure ())

theorem settled_decodeAmf3Xml (m : Bool) : Settled left n (decodeAmf3Xml m) (decodeAmf3Xml m) := by
  refine (settled_assertXmlMarker m).bind fun _ => settled_ref.bind fun ref => ?_
  refine .ite ((settled_index _ _).bind fun v => ?_) ?_
  · split
    · exact .pure _
    · exact .fail _
  · exact (settled_fill _).mapErr.bind fun _ => .ite ((settled_pushObject _).bind fun _ => .pure _) (.pure _)

theorem settled_decodeAmf3ByteArray (m : Bool) :
    Settled left n (decodeAmf3ByteArray m) (decodeAmf3ByteArray m) := by
  refine (settled_assertMarker m _).bind fun _ => settled_ref.bind fun ref => ?_
  refine .ite ((settled_index _ _).bind fun v => ?_) ?_
  · split
    · exact .pure _
    · exact .fail _
  · exact (settled_fill _).mapErr.bind fun _ => (settled_pushObject _).bind fun _ => .pure _

theorem settled_decodeTrait (refVal : Nat) : Settled left n (decodeTrait refVal) (decodeTrait refVal) := by
  have hkey : ∀ context, Settled left n (wrap context (decodeAmf3String false)) _ :=
    fun context => (settled_decodeAmf3String false).mapErr
  refine .ite (settled_index _ _) ((hkey _).bind fun cls => ?_)
  exact ((hkey _).times _).bind fun properties => (settled_record _).bind fun _ => .pure _

theorem consuming_flagTurn (result : List UInt8) : Consuming left n (flagTurn result) :=
  consuming_readByte.mapErr.bind fun _ => .pure _

theorem settled_readFlags : Settled left n readFlags readFlags :=
  Settled.loop_consuming (fun result => .of_consuming (consuming_flagTurn result)) consuming_flagTurn []

section
variable {x y : Dec Value} (h : Settled left n x y)
include h

theorem settled_decodeAmf3Array (m : Bool) : Settled left n (decodeAmf3Array x m) (decodeAmf3Array y m) := by
  refine (settled_assertMarker m _).bind fun _ => settled_ref.bind fun ref => ?_
  refine .ite ((settled_index _ _).bind fun v => ?_) ?_
  · split
    · exact .pure _
    · exact .fail _
  · refine (settled_decodeAmf3String _).mapErr.bind fun key => .ite (.fail _) ?_
    exact (h.mapErr.times _).bind fun _ => (settled_pushObject _).bind fun _ => .pure _

theorem settled_decodeEntries (keys : List (Bytes × String)) (obj : Object) :
    Settled left n (decodeEntries x keys obj) (decodeEntries y keys obj) := by
  induction keys generalizing obj with
  | nil => exact .pure obj
  | cons key keys ih => exact h.mapErr.bind fun val => ih _

theorem settled_decodeExternal (obj : Object) (fieldSets : List (List String)) :
    Settled left n (decodeExternal x obj fieldSets) (decodeExternal y obj fieldSets) :=
  settled_readFlags.mapErr.bind fun _ => settled_decodeEntries h _ _

theorem settled_decodeAsyncMessage : Settled left n (decodeAsyncMessage x) (decodeAsyncMessage y) :=
  (settled_decodeExternal h _ _).mapErr.mapErr.bind fun _ => (settled_decodeExternal h _ _).mapErr

theorem settled_decodeAcknowledgeMessage :
    Settled left n (decodeAcknowledgeMessage x) (decodeAcknowledgeMessage y) :=
  (settled_decodeAsyncMessage h).mapErr.bind fun _ => (settled_decodeExternal h _ _).mapErr

theorem settled_decodeExternalizable (type : Bytes) :
    Settled left n (decodeExternalizable x type) (decodeExternalizable y type) := by
  refine .ite ((settled_decodeAsyncMessage h).mapErr.bind fun _ => .pure _) ?_
  refine .ite ((settled_decodeAcknowledgeMessage h).mapErr.bind fun _ => .pure _) ?_
  exact .ite (h.mapErr.mapErr.bind fun _ => (settled_pushObject _).bind fun _ => .pure _) (.fail _)

theorem consuming_dynamicTurn (obj : Object) : Consuming left n (dynamicTurn x obj) :=
  consuming_decodeAmf3String.mapErr.bind fun _ => .ite (.pure _) (h.left.mapErr.bind fun _ => .pure _)

theorem settled_decodeDynamic (obj : Object) : Settled left n (decodeDynamic x obj) (decodeDynamic y obj) := by
  refine Settled.loop_consuming (fun obj => ?_) (consuming_dynamicTurn h) obj
  refine (settled_decodeAmf3String _).mapErr.bind fun key => ?_
  exact .ite (.pure _) (h.mapErr.bind fun val => .pure _)

theorem settled_decodeObjectBody (trait : Trait) :
    Settled left n (decodeObjectBody x trait) (decodeObjectBody y trait) := by
  refine .ite (settled_decodeExternalizable h _) ((settled_decodeEntries h _ _).bind fun obj => ?_)
  split
  · exact (settled_decodeDynamic h obj).bind fun _ => .pure _
  · exact .pure _

theorem settled_decodeAmf3Object (m : Bool) :
    Settled left n (decodeAmf3Object x m) (decodeAmf3Object y m) := by
  refine (settled_assertMarker m _).bind fun _ => settled_ref.bind fun ref => ?_
  refine .ite (settled_index _ _) ((settled_decodeTrait _).bind fun trait => ?_)
  exact (settled_pushObject _).bind fun _ => settled_decodeObjectBody h trait

theorem settled_amf3Value (marker : UInt8) : Settled left n (amf3Value x marker) (amf3Value y marker) := by
  refine .ite ((settled_assertMarker _ _).bind fun _ => .pure _) ?_
  refine .ite ((settled_assertMarker _ _).bind fun _ => .pure _) ?_
  refine .ite (((settled_assertMarker _ _).bind fun _ => .pure _).bind fun _ => .pure _) ?_
  refine .ite (((settled_assertMarker _ _).bind fun _ => .pure _).bind fun _ => .pure _) ?_
  refine .ite (((settled_assertMarker _ _).bind fun _ =>
    (Settled.of_consuming (consuming_u29Loop 3 0)).bind fun _ => .pure _).bind fun _ => .pure _) ?_
  refine .ite (((settled_assertMarker _ _).bind fun _ => settled_readFloat64.mapErr).bind fun _ => .pure _) ?_
  refine .ite ((settled_decodeAmf3String _).bind fun _ => .pure _) ?_
  refine .ite ((settled_decodeAmf3Xml _).bind fun _ => .pure _) ?_
  refine .ite ((settled_decodeAmf3Date _).bind fun _ => .pure _) ?_
  refine .ite ((settled_decodeAmf3Array h _).bind fun _ => .pure _) ?_
  refine .ite (settled_decodeAmf3Object h _) ?_
  refine .ite ((settled_decodeAmf3Xml _).bind fun _ => .pure _) ?_
  exact .ite ((settled_decodeAmf3ByteArray _).bind fun _ => .pure _) (.fail _)

end

theorem guarded_decodeAmf3Body : Guarded left decodeAmf3Body := fun _ _ _ h =>
  Settled.bind_consuming consuming_readByte fun marker => settled_amf3Value h marker

/-- The router calls itself as the source does. -/
theorem decodeAmf3_eq : decodeAmf3 = decodeAmf3Body decodeAmf3 := guarded_decodeAmf3Body.recurse_eq

theorem settled_decodeAmf3 : Settled left n decodeAmf3 decodeAmf3 := guarded_decodeAmf3Body.recurse_settled n

/-! ### AMF0 -/

theorem consuming_decodeAmf0String : Consuming left n (decodeAmf0String false) := by
  rw [decodeAmf0String, assertMarker_false, pure_bind]
  exact (consuming_readUint (by decide)).mapErr.bind fun length => (settled_readBytes _).mapErr

theorem settled_decodeAmf0String (m : Bool) : Settled left n (decodeAmf0String m) (decodeAmf0String m) :=
  (settled_assertMarker m _).bind fun _ => .of_consuming consuming_decodeAmf0String

theorem settled_decodeAmf0Number (m : Bool) : Settled left n (decodeAmf0Number m) (decodeAmf0Number m) :=
  (settled_assertMarker m _).bind fun _ => settled_readFloat64.mapErr

theorem settled_decodeAmf0Boolean (m : Bool) : Settled left n (decodeAmf0Boolean m) (decodeAmf0Boolean m) :=
  (settled_assertMarker m _).bind fun _ => (Settled.of_consuming consuming_readByte).bind fun _ =>
    .ite (.pure _) (.ite (.pure _) (.fail _))

theorem settled_decodeAmf0Date (m : Bool) : Settled left n (decodeAmf0Date m) (decodeAmf0Date m) :=
  (settled_assertMarker m _).bind fun _ => (settled_decodeAmf0Number _).mapErr.bind fun _ =>
    (settled_readBytes 2).mapErr.bind fun _ => .pure _

theorem settled_decodeAmf0LongString (m : Bool) :
    Settled left n (decodeAmf0LongString m) (decodeAmf0LongString m) :=
  (settled_assertMarker m _).bind fun _ => (settled_readUint 4).mapErr.bind fun _ => (settled_readBytes _).mapErr

section
variable {x y : Dec Value} (h : Settled left n x y)
include h

theorem consuming_objectTurn (result : Object) : Consuming left n (objectTurn x result) :=
  consuming_decodeAmf0String.bind fun _ =>
    .ite ((settled_assertMarker _ _).mapErr.bind fun _ => .pure _) (h.left.mapErr.bind fun _ => .pure _)

theorem settled_decodeAmf0Object (m : Bool) :
    Settled left n (decodeAmf0Object x m) (decodeAmf0Object y m) := by
  refine (settled_assertMarker m _).bind fun _ => ?_
  refine Settled.loop_consuming (fun result => ?_) (consuming_objectTurn h) []
  refine (settled_decodeAmf0String _).bind fun key => ?_
  exact .ite ((settled_assertMarker _ _).mapErr.bind fun _ => .pure _) (h.mapErr.bind fun _ => .pure _)

theorem settled_decodeAmf0EcmaArray (m : Bool) :
    Settled left n (decodeAmf0EcmaArray x m) (decodeAmf0EcmaArray y m) :=
  (settled_assertMarker m _).bind fun _ => (settled_readUint 4).attempt.bind fun _ =>
    (settled_decodeAmf0Object h false).mapErr

theorem settled_decodeAmf0StrictArray (m : Bool) :
    Settled left n (decodeAmf0StrictArray x m) (decodeAmf0StrictArray y m) :=
  (settled_assertMarker m _).bind fun _ => (settled_readUint 4).mapErr.bind fun length => h.mapErr.times length

theorem settled_decodeAmf0TypedObject (m : Bool) :
    Settled left n (decodeAmf0TypedObject x m) (decodeAmf0TypedObject y m) :=
  (settled_assertMarker m _).bind fun _ => (settled_decodeAmf0String _).mapErr.bind fun _ =>
    (settled_decodeAmf0Object h _).mapErr.bind fun _ => .pure _

theorem settled_amf0Value (marker : UInt8) : Settled left n (amf0Value x marker) (amf0Value y marker) := by
  refine .ite ((settled_decodeAmf0Number _).bind fun _ => .pure _) ?_
  refine .ite ((settled_decodeAmf0Boolean _).bind fun _ => .pure _) ?_
  refine .ite ((settled_decodeAmf0String _).bind fun _ => .pure _) ?_
  refine .ite ((settled_decodeAmf0Object h _).bind fun _ => .pure _) ?_
  refine .ite (.fail _) ?_
  refine .ite ((settled_assertMarker _ _).bind fun _ => .pure _) ?_
  refine .ite ((settled_assertMarker _ _).bind fun _ => .pure _) ?_
  refine .ite (.fail _) ?_
  refine .ite ((settled_decodeAmf0EcmaArray h _).bind fun _ => .pure _) ?_
  refine .ite ((settled_decodeAmf0StrictArray h _).bind fun _ => .pure _) ?_
  refine .ite ((settled_decodeAmf0Date _).bind fun _ => .pure _) ?_
  refine .ite ((settled_decodeAmf0LongString _).bind fun _ => .pure _) ?_
  refine .ite ((settled_assertMarker _ _).bind fun _ => .pure _) ?_
  refine .ite (.fail _) ?_
  refine .ite (((settled_assertMarker _ _).bind fun _ => settled_decodeAmf0LongString _).bind fun _ => .pure _) ?_
  refine .ite (settled_decodeAmf0TypedObject h _) ?_
  exact .ite settled_decodeAmf3 (.fail _)

end

theorem guarded_decodeAmf0Body : Guarded left decodeAmf0Body := fun _ _ _ h =>
  Settled.bind_consuming consuming_readByte fun marker => settled_amf0Value h marker

/-- The router calls itself as the source does. -/
theorem decodeAmf0_eq : decodeAmf0 = decodeAmf0Body decodeAmf0 := guarded_decodeAmf0Body.recurse_eq

theorem settled_decodeAmf0 : Settled left n decodeAmf0 decodeAmf0 := guarded_decodeAmf0Body.recurse_settled n

/-- A value has at least a marker. -/
theorem consuming_decode (ver : Nat) : Consuming left n (decode ver) := by
  unfold decode
  split
  · rw [decodeAmf0_eq]
    exact consuming_readByte.bind fun marker => settled_amf0Value settled_decodeAmf0 marker
  · split
    · rw [decodeAmf3_eq]
      exact consuming_readByte.bind fun marker => settled_amf3Value settled_decodeAmf3 marker
    · exact fun s _ => Nat.le_refl _

theorem batchTurn_inl {ver : Nat} {ret ret' : List Value} {s t : Decoding}
    (h : batchTurn ver ret s = .ok (.inl ret') t) : ∃ v, decode ver s = .ok v t ∧ ret' = ret ++ [v] := by
  rw [batchTurn, bind_apply, attempt] at h
  cases hd : decode ver s with
  | ok v t' =>
      simp only [hd, pure_apply, Outcome.ok.injEq, Sum.inl.injEq] at h
      exact ⟨v, by rw [h.2], h.1.symm⟩
  | _ => simp [hd] at h

theorem decreases_batchTurn (ver : Nat) : Decreases (batchTurn ver) fun _ => left := by
  intro ret t ret' u hb
  obtain ⟨v, hv, -⟩ := batchTurn_inl hb
  exact Consuming.lt_of_ok (fun _ => consuming_decode ver) hv

theorem settled_decodeBatch (ver : Nat) : Settled left n (decodeBatch ver) (decodeBatch ver) := by
  refine Settled.loop (fun ret => ?_) (fun ret s ret' t hs hturn => ?_) []
  · refine (Settled.of_consuming (consuming_decode ver)).attempt.bind fun r => ?_
    cases r <;> exact .pure _
  · obtain ⟨v, hv, -⟩ := batchTurn_inl hturn
    exact (consuming_decode ver s hs).of_ok hv

end Amf

end Livego
