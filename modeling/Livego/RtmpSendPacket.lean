import Livego.AmfMetadata
import Livego.Each
import Livego.RtmpNoGap
import Livego.RtmpSafety
import Livego.RtmpTimestamps

/-! The loop that sends a player its packets, and what the metadata of a publisher does to it. -/

namespace Livego

open Fallible ChunkStream

namespace Conn

/-- A message that a connection reads, in whatever state the messages and the recovered panics before left it. -/
def Received (cs : ChunkStream) : Prop := ∃ conn conn', Inv conn ∧ read conn = .ok cs conn'

theorem Received.wellFormed {cs : ChunkStream} (h : Received cs) : WellFormed cs := by
  obtain ⟨conn, conn', hinv, hread⟩ := h
  have hloop : (Call.loop readTurn (conn.rw.unread.length + 1) () conn).Sat (fun c conn' => WellFormed c ∧ Inv conn')
      (fun _ _ => True) True := by
    refine Call.sat_loop (μ := fun _ conn => conn.rw.unread.length) (I := fun _ conn => Inv conn) ?_
      (Nat.lt_succ_self _) hinv
    intro b s hs
    have hturn := (readTurn_sat hs).1
    cases hb : readTurn b s with
    | ok r s' =>
        obtain ⟨hinv, -, hwf⟩ := hturn.of_ok hb
        cases r with
        | inl _ => exact ⟨hinv, readTurn_lt hb⟩
        | inr c => exact ⟨hwf c rfl, hinv⟩
    | err e s' => trivial
    | panic p => trivial
    | diverge => exact absurd hb hturn.ne_diverge
  have hsat : (read conn).Sat (fun c _ => WellFormed c) (fun _ _ => True) True := by
    refine hloop.bind fun c s hs => (finish_sat hs.2 c).1.imp ?_ (fun _ _ h => h.elim) fun _ => trivial
    rintro _ _ ⟨rfl, -⟩
    exact hs.1
  exact hsat.of_ok hread

theorem exists_received {m : ChunkStream} (hm : m.Sendable) (hc : ControlReadable m) :
    ∃ cs, Received cs ∧ cs.message = m.message := by
  have hinv := inv_newConn (m.messageBytes 128) .eof
  have hunread : (newConn { unread := m.messageBytes 128 }).rw.unread = m.messageBytes 128 ++ [] :=
    (List.append_nil _).symm
  obtain ⟨cs, pool, hreceiving, hread⟩ :=
    read_messageBytes hm (by decide : 0 < 128) rfl (by simp [newConn]) hunread
  have hmessage := hreceiving.message_eq hm
  have hcontrol : ControlReadable cs := by
    have htype : cs.typeID = m.typeID := congrArg Message.typeID hmessage
    have hdata : cs.data = m.data := congrArg Message.data hmessage
    unfold ControlReadable
    rw [htype, hdata]
    exact hc
  obtain ⟨conn', hfinish, -⟩ := finish_eq ((newConn { unread := m.messageBytes 128 }).turned [] pool
    (chunkKey m.csid) cs) hcontrol hinv.chunkSize_ne
  exact ⟨cs, ⟨_, conn', hinv, hread.trans hfinish⟩, hmessage⟩

end Conn

namespace VirReader

def IsMedia (cs : ChunkStream) : Prop :=
  cs.typeID = tagAudio ∨ cs.typeID = tagVideo ∨ cs.typeID = tagScriptDataAmf0 ∨ cs.typeID = tagScriptDataAmf3

/-- The packets that `Read` makes of the packet it is called with, one call after the other. A panic of the
connection is recovered from, and the packet is handed on as it was. -/
inductive Reads : AvPacket → List AvPacket → Prop where
  | nil {p : AvPacket} : Reads p []
  | message {p : AvPacket} {cs : ChunkStream} {ps : List AvPacket} (hreceived : Conn.Received cs) (hmedia : IsMedia cs)
      (hreads : Reads (read cs p) ps) : Reads p (read cs p :: ps)
  | recovered {p : AvPacket} {ps : List AvPacket} (hreads : Reads p ps) : Reads p (p :: ps)

/-- What is known of a packet that was read: its data are a message's, and metadata are not video. -/
structure Readable (p : AvPacket) : Prop where
  length_le : p.data.length ≤ maxpoolsize
  metadata : p.isVideo = true → p.isMetadata = false

/-- A packet as it is later on: the writers share it, and the others may have set its header and cut its data. -/
structure Shared (p q : AvPacket) : Prop where
  isVideo : q.isVideo = p.isVideo
  isMetadata : q.isMetadata = p.isMetadata
  length_le : q.data.length ≤ p.data.length

theorem Shared.refl (p : AvPacket) : Shared p p := ⟨rfl, rfl, le_rfl⟩

theorem Shared.readable {p q : AvPacket} (h : Shared p q) (hp : Readable p) : Readable q :=
  ⟨h.length_le.trans hp.length_le, fun hvideo => h.isMetadata.trans (hp.metadata (h.isVideo ▸ hvideo))⟩

theorem readable_default : Readable {} := ⟨Nat.zero_le _, fun h => by cases h⟩

theorem data_read (cs : ChunkStream) (p : AvPacket) : (read cs p).data = cs.data := by
  rcases read_eq cs p with heq | ⟨tag, heq⟩ <;> rw [heq] <;> rfl

theorem isMetadata_eq (cs : ChunkStream) (p : AvPacket) :
    (read cs p).isMetadata = decide (cs.typeID = tagScriptDataAmf0 ∨ cs.typeID = tagScriptDataAmf3) := by
  rcases read_eq cs p with heq | ⟨tag, heq⟩ <;> rw [heq] <;> rfl

theorem readable_read {cs : ChunkStream} (h : Conn.Received cs) (p : AvPacket) : Readable (read cs p) := by
  have hwf := h.wellFormed
  refine ⟨?_, isMetadata_read cs p⟩
  rw [data_read, hwf.data_length]
  exact hwf.length_le

theorem Reads.readable {p : AvPacket} {ps : List AvPacket} (h : Reads p ps) (hp : Readable p) :
    ∀ q ∈ ps, Readable q := by
  induction h with
  | nil => simp
  | @message p cs ps hreceived hmedia hreads ih =>
      have hread := readable_read hreceived p
      exact List.forall_mem_cons.mpr ⟨hread, ih hread⟩
  | recovered hreads ih => exact List.forall_mem_cons.mpr ⟨hp, ih hp⟩

end VirReader

/-- `ConnServer.Write`, which acts on the connection only. -/
def ConnServer.write (c : ChunkStream) : Call GoError Conn Unit :=
  if c.typeID = tagScriptDataAmf0 ∨ c.typeID = tagScriptDataAmf3 then do
    let data ← Amf.metaDataReform c.data Amf.del
    Conn.write { c with data, length := u32 data.length }
  else Conn.write c

namespace VirWriter

/-- A turn of `SendPacket` with the next packet and the base that it finds. The statistics, the time of the last
write and the recorded timestamps are left out. -/
def sendTurn (x : Nat × AvPacket) : Call GoError Conn Unit := do
  ConnServer.write (fill x.1 x.2)
  Conn.flush

/-- `SendPacket`, as far as the packets of the queue go. -/
def sendPacket (xs : List (Nat × AvPacket)) : Call GoError Conn Unit := forM xs sendTurn

/-- The bytes that messages are written as. -/
def wireBytes (chunkSize : Nat) (messages : List ChunkStream) : Bytes :=
  messages.flatMap fun m => m.assignCsid.messageBytes (u32 chunkSize)

def media (messages : List ChunkStream) : List ChunkStream :=
  messages.filter fun m => m.typeID ≠ tagScriptDataAmf0

/-- The loop goes on, has sent audio and video as they are and in order, and of the metadata what it can. -/
def Delivers (xs : List (Nat × AvPacket)) (conn : Conn) : Prop := ∃ messages conn',
  sendPacket xs conn = .ok () conn' ∧ conn'.rw.output = conn.rw.output ++ wireBytes conn.chunkSize messages ∧
    (xs ≠ [] → conn'.rw.buffered = []) ∧ media messages = media (xs.map fun x => fill x.1 x.2)

/-- The message that a packet goes out as, where its metadata can be reformed. -/
def sentAs (x : Nat × AvPacket) : ChunkStream :=
  if x.2.isMetadata then
    let data := Amf.withoutSetDataFrame x.2.data
    { fill x.1 x.2 with data, length := u32 data.length }
  else fill x.1 x.2

variable {x : Nat × AvPacket} {xs : List (Nat × AvPacket)} {conn conn' : Conn}

theorem typeID_of_isMetadata {p : AvPacket} (h : VirReader.Readable p) (hmetadata : p.isMetadata = true) :
    typeID p = tagScriptDataAmf0 := by
  have hvideo : p.isVideo ≠ true := fun hvideo => by simp [h.metadata hvideo] at hmetadata
  rw [typeID, if_neg hvideo, if_pos hmetadata]

theorem typeID_of_not_isMetadata {p : AvPacket} (hmetadata : ¬p.isMetadata = true) :
    typeID p = tagVideo ∨ typeID p = tagAudio := by
  rw [typeID, if_neg hmetadata]
  split
  · exact Or.inl rfl
  · exact Or.inr rfl

theorem length_withoutSetDataFrame_le (p : Bytes) : (Amf.withoutSetDataFrame p).length ≤ p.length := by
  unfold Amf.withoutSetDataFrame
  split
  · split
    · rw [List.length_drop]
      exact Nat.sub_le _ _
    · exact le_rfl
  · exact le_rfl

/-- The connection takes every message that has its length and is no control message. -/
theorem connWrite_eq {c : ChunkStream} {data : Bytes} (hdata : c.data = data) (hlength : c.length = u32 data.length)
    (hmax : data.length ≤ maxpoolsize) (htype : c.typeID ≠ idSetChunkSize) (hsize : u32 conn.chunkSize ≠ 0) :
    (Conn.write c >>= fun _ => Conn.flush) conn =
      .ok () { conn with rw := (conn.rw.write (wireBytes conn.chunkSize [c])).flush } := by
  have hfits : maxpoolsize ≤ 0xffffff := by decide
  have hlen : c.length = c.data.length := by
    rw [hlength, hdata]
    exact u32_of_lt (by omega)
  have hwrite : Conn.write c conn =
      .ok () { conn with rw := conn.rw.write (c.assignCsid.messageBytes (u32 conn.chunkSize)) } := by
    rw [Conn.write, if_neg htype]
    exact Conn.onReadWriter_of_ok conn (writeChunk_eq hlen (by rw [hlen, hdata]; omega) hsize conn.rw)
  rw [Call.bind_of_ok hwrite, wireBytes, List.flatMap_singleton]
  rfl

theorem sendTurn_eq (hx : VirReader.Readable x.2) (hstring : x.2.isMetadata = true → Amf.BeginsWithString x.2.data)
    (hsize : u32 conn.chunkSize ≠ 0) :
    sendTurn x conn = .ok () { conn with rw := (conn.rw.write (wireBytes conn.chunkSize [sentAs x])).flush } := by
  have hmax := hx.length_le
  by_cases hmetadata : x.2.isMetadata = true
  · have htype : (fill x.1 x.2).typeID = tagScriptDataAmf0 := typeID_of_isMetadata hx hmetadata
    have hle := length_withoutSetDataFrame_le x.2.data
    have hreform : Amf.metaDataReform (fill x.1 x.2).data Amf.del conn =
        .ok (Amf.withoutSetDataFrame x.2.data) conn :=
      Amf.metaDataReform_del_of_beginsWithString (hstring hmetadata) conn
    rw [sendTurn, ConnServer.write, if_pos (Or.inl htype), Call.bind_bind, Call.bind_of_ok hreform, sentAs,
      if_pos hmetadata]
    exact connWrite_eq rfl rfl (hle.trans hmax) (by rw [htype]; decide) hsize
  · have htype : (fill x.1 x.2).typeID = tagVideo ∨ (fill x.1 x.2).typeID = tagAudio :=
      typeID_of_not_isMetadata hmetadata
    have hscript : ¬((fill x.1 x.2).typeID = tagScriptDataAmf0 ∨ (fill x.1 x.2).typeID = tagScriptDataAmf3) := by
      rcases htype with htype | htype <;> rw [htype] <;> decide
    rw [sendTurn, ConnServer.write, if_neg hscript, sentAs, if_neg hmetadata]
    exact connWrite_eq rfl rfl hmax (by rcases htype with htype | htype <;> rw [htype] <;> decide) hsize

theorem beginsWithString_of_sendTurn (hx : VirReader.Readable x.2) (h : sendTurn x conn = .ok () conn')
    (hmetadata : x.2.isMetadata = true) : Amf.BeginsWithString x.2.data := by
  have htype : (fill x.1 x.2).typeID = tagScriptDataAmf0 := typeID_of_isMetadata hx hmetadata
  rw [sendTurn, ConnServer.write, if_pos (Or.inl htype), Call.bind_bind] at h
  obtain ⟨data, _, hreform, -⟩ := Call.bind_eq_ok.mp h
  exact Amf.metaDataReform_del_eq_ok hreform

theorem sendPacket_cons (x : Nat × AvPacket) (xs : List (Nat × AvPacket)) :
    sendPacket (x :: xs) = (sendTurn x >>= fun _ => sendPacket xs) := List.forM_cons

theorem beginsWithString_of_sendPacket (hxs : ∀ x ∈ xs, VirReader.Readable x.2) (h : sendPacket xs conn = .ok () conn') :
    ∀ x ∈ xs, x.2.isMetadata = true → Amf.BeginsWithString x.2.data := by
  induction xs generalizing conn with
  | nil => simp
  | cons x xs ih =>
      rw [sendPacket_cons] at h
      obtain ⟨_, u, hturn, hrest⟩ := Call.bind_eq_ok.mp h
      obtain ⟨hx, hxs⟩ := List.forall_mem_cons.mp hxs
      exact List.forall_mem_cons.mpr ⟨beginsWithString_of_sendTurn hx hturn, ih hxs hrest⟩

theorem wireBytes_cons (chunkSize : Nat) (m : ChunkStream) (messages : List ChunkStream) :
    wireBytes chunkSize (m :: messages) = wireBytes chunkSize [m] ++ wireBytes chunkSize messages := by
  rw [← List.singleton_append, wireBytes, List.flatMap_append]
  rfl

theorem output_write_flush (rw : ReadWriter) (p : Bytes) : (rw.write p).flush.output = rw.output ++ p := by
  simp [ReadWriter.output, ReadWriter.flush, ReadWriter.write]

theorem sendPacket_eq (hxs : ∀ x ∈ xs, VirReader.Readable x.2)
    (hstring : ∀ x ∈ xs, x.2.isMetadata = true → Amf.BeginsWithString x.2.data) (hsize : u32 conn.chunkSize ≠ 0) :
    ∃ conn', sendPacket xs conn = .ok () conn' ∧
      conn'.rw.output = conn.rw.output ++ wireBytes conn.chunkSize (xs.map sentAs) ∧
      (xs ≠ [] → conn'.rw.buffered = []) ∧ (conn.rw.buffered = [] → conn'.rw.buffered = []) := by
  induction xs generalizing conn with
  | nil => exact ⟨conn, rfl, (List.append_nil _).symm, fun h => absurd rfl h, id⟩
  | cons x xs ih =>
      obtain ⟨hx, hxs⟩ := List.forall_mem_cons.mp hxs
      obtain ⟨hhead, htail⟩ := List.forall_mem_cons.mp hstring
      have hturn := sendTurn_eq hx hhead hsize
      have hsize' : u32 { conn with rw := (conn.rw.write (wireBytes conn.chunkSize [sentAs x])).flush }.chunkSize ≠ 0 :=
        hsize
      obtain ⟨conn', hsend, houtput, -, hbuffered⟩ := ih hxs htail hsize'
      refine ⟨conn', ?_, ?_, fun _ => hbuffered rfl, fun _ => hbuffered rfl⟩
      · rw [sendPacket_cons, Call.bind_of_ok hturn, hsend]
      · calc conn'.rw.output
            = (conn.rw.write (wireBytes conn.chunkSize [sentAs x])).flush.output ++
                wireBytes conn.chunkSize (xs.map sentAs) := houtput
          _ = conn.rw.output ++ wireBytes conn.chunkSize ((x :: xs).map sentAs) := by
            rw [output_write_flush, List.map_cons, wireBytes_cons _ _ (xs.map sentAs), List.append_assoc]

theorem media_sentAs (hxs : ∀ x ∈ xs, VirReader.Readable x.2) :
    media (xs.map sentAs) = media (xs.map fun x => fill x.1 x.2) := by
  induction xs with
  | nil => rfl
  | cons x xs ih =>
      obtain ⟨hx, hxs⟩ := List.forall_mem_cons.mp hxs
      rw [List.map_cons, List.map_cons, media, media, List.filter_cons, List.filter_cons]
      by_cases hmetadata : x.2.isMetadata = true
      · have htype : (fill x.1 x.2).typeID = tagScriptDataAmf0 := typeID_of_isMetadata hx hmetadata
        have hsame : (sentAs x).typeID = tagScriptDataAmf0 := by rw [sentAs, if_pos hmetadata]; exact htype
        rw [if_neg (by simp [hsame]), if_neg (by simp [htype])]
        exact ih hxs
      · have hsame : sentAs x = fill x.1 x.2 := if_neg hmetadata
        have htail := ih hxs
        unfold media at htail
        rw [hsame, htail]

/-! ### Publishers -/

def shortMessage (csid typeID : Nat) (data : Bytes) : ChunkStream := { csid, typeID, data, length := data.length }

/-- Metadata as clients of AMF3 send them, with a zero byte before the values. -/
def amf3Metadata : Bytes := [0x00, 0x02, 0x00, 0x01, 0x61]

/-- A string of AMF3 that refers to an earlier one, and there is none. -/
def danglingMetadata : Bytes := [0x11, 0x06, 0x00]

def amf0Metadata : Bytes := [0x02, 0x00, 0x01, 0x61]

def audioData : Bytes := [0xaf, 0x01]

theorem reads_of_messages {ms : List ChunkStream} (hms : ∀ m ∈ ms, m.Sendable ∧ VirReader.IsMedia m) (p : AvPacket) :
    ∃ ps, VirReader.Reads p ps ∧ ps.map (fun q => (q.isMetadata, q.data)) =
      ms.map fun m => (decide (m.typeID = tagScriptDataAmf0 ∨ m.typeID = tagScriptDataAmf3), m.data) := by
  induction ms generalizing p with
  | nil => exact ⟨[], .nil, rfl⟩
  | cons m ms ih =>
      obtain ⟨⟨hm, hmedia⟩, hms⟩ := List.forall_mem_cons.mp hms
      have hcontrol : ¬(m.typeID = idSetChunkSize ∨ m.typeID = idWindowAckSize) := by
        rcases hmedia with h | h | h | h <;> rw [h] <;> decide
      obtain ⟨cs, hreceived, hmessage⟩ := Conn.exists_received hm fun h => absurd h hcontrol
      have htype : cs.typeID = m.typeID := congrArg Message.typeID hmessage
      have hdata : cs.data = m.data := congrArg Message.data hmessage
      obtain ⟨ps, hreads, hps⟩ := ih hms (VirReader.read cs p)
      refine ⟨_, .message hreceived (by unfold VirReader.IsMedia; rw [htype]; exact hmedia) hreads, ?_⟩
      rw [List.map_cons, List.map_cons, hps, VirReader.data_read, VirReader.isMetadata_eq, htype, hdata]

theorem readable_map {ps : List AvPacket} (hreads : VirReader.Reads {} ps) :
    ∀ x ∈ ps.map fun p => (0, p), VirReader.Readable x.2 := by
  intro x hx
  obtain ⟨p, hp, rfl⟩ := List.mem_map.mp hx
  exact hreads.readable VirReader.readable_default p hp

theorem sendable_shortMessage {typeID : Nat} (htype : typeID < 256) {data : Bytes} (hpos : 0 < data.length)
    (hle : data.length ≤ maxpoolsize) : (shortMessage 6 typeID data).Sendable :=
  ⟨rfl, hpos, hle, htype, (by decide : 0 < 2 ^ 32), (by decide : 0 < 2 ^ 32), (by decide : 2 ≤ 6), (by decide : 6 ≤ 65599)⟩

/-- A publisher whose metadata have the type 15, and that then sends audio. -/
theorem exists_reads (data : Bytes) (hpos : 0 < data.length) (hle : data.length ≤ maxpoolsize) :
    ∃ ps, VirReader.Reads {} ps ∧ ps.map (fun p => (p.isMetadata, p.data)) = [(true, data), (false, audioData)] := by
  have hms : ∀ m ∈ [shortMessage 6 15 data, shortMessage 6 8 audioData], m.Sendable ∧ VirReader.IsMedia m := by
    refine List.forall_mem_cons.mpr ⟨⟨sendable_shortMessage (by decide) hpos hle, ?_⟩, ?_⟩
    · exact Or.inr (Or.inr (Or.inr rfl))
    · exact List.forall_mem_singleton.mpr
        ⟨sendable_shortMessage (by decide) (by decide) (by decide), Or.inl rfl⟩
  exact reads_of_messages hms {}

theorem not_stringFirst_amf3Metadata : ¬Amf.StringFirst amf3Metadata := by
  rintro ⟨marker, rest, heq, hmarked⟩
  cases heq
  simp [Amf.MarkedString, Amf.amf0StringMarker, Amf.amf0LongStringMarker, Amf.amf0XmlDocumentMarker,
    Amf.amf0AcmplusObjectMarker] at hmarked

theorem decode_danglingMetadata :
    Amf.decode 0 ⟨{}, ⟨.bytesReader, danglingMetadata⟩⟩ = .panic .indexOutOfRange := rfl

/-- A player is sent everything, live or from the cache, exactly if all the metadata among it begin with a string. -/
theorem delivers_iff {ps : List AvPacket} (hreads : VirReader.Reads {} ps)
    (hxs : ∀ x ∈ xs, ∃ p ∈ ps, VirReader.Shared p x.2) (hsize : u32 conn.chunkSize ≠ 0) :
    Delivers xs conn ↔ ∀ x ∈ xs, x.2.isMetadata = true → Amf.StringFirst x.2.data := by
  have hreadable : ∀ x ∈ xs, VirReader.Readable x.2 := by
    intro x hx
    obtain ⟨p, hp, hshared⟩ := hxs x hx
    exact hshared.readable (hreads.readable VirReader.readable_default p hp)
  simp only [← Amf.beginsWithString_iff]
  constructor
  · rintro ⟨messages, conn', hsend, -, -, -⟩
    exact beginsWithString_of_sendPacket hreadable hsend
  · intro hstring
    obtain ⟨conn', hsend, houtput, hflushed, -⟩ := sendPacket_eq hreadable hstring hsize
    exact ⟨xs.map sentAs, conn', hsend, houtput, hflushed, media_sentAs hreadable⟩

theorem delivers_amf0Metadata : ∃ ps, VirReader.Reads {} ps ∧
    ps.map (fun p => (p.isMetadata, p.data)) = [(true, amf0Metadata), (false, audioData)] ∧
      (Delivers (ps.map fun p => (0, p)) (Conn.newConn { unread := [] }) ↔
        ∀ x ∈ ps.map fun p => (0, p), x.2.isMetadata = true → Amf.StringFirst x.2.data) := by
  obtain ⟨ps, hreads, hps⟩ := exists_reads amf0Metadata (by decide) (by decide)
  refine ⟨ps, hreads, hps, delivers_iff hreads (fun x hx => ?_) (by decide)⟩
  obtain ⟨p, hp, rfl⟩ := List.mem_map.mp hx
  exact ⟨p, hp, .refl p⟩

/-- The loop ends on metadata of AMF3, and with a dangling reference in them it takes the server down. -/
theorem exists_metadata_not_delivered :
    (∃ ps, VirReader.Reads {} ps ∧ ps.map (fun p => (p.isMetadata, p.data)) = [(true, amf3Metadata), (false, audioData)] ∧
      ¬Delivers (ps.map fun p => (0, p)) (Conn.newConn { unread := [] })) ∧
    ∃ ps, VirReader.Reads {} ps ∧
      ps.map (fun p => (p.isMetadata, p.data)) = [(true, danglingMetadata), (false, audioData)] ∧
      (sendPacket (ps.map fun p => (0, p)) (Conn.newConn { unread := [] })).Panics := by
  constructor
  · obtain ⟨ps, hreads, hps⟩ := exists_reads amf3Metadata (by decide) (by decide)
    refine ⟨ps, hreads, hps, ?_⟩
    rintro ⟨messages, conn', hsend, -, -, -⟩
    obtain ⟨p, qs, rfl, hp, -⟩ := List.map_eq_cons_iff.mp hps
    obtain ⟨hmetadata, hdata⟩ := Prod.mk.inj hp
    have hstring : Amf.BeginsWithString p.data :=
      beginsWithString_of_sendPacket (readable_map hreads) hsend (0, p) List.mem_cons_self hmetadata
    rw [hdata, Amf.beginsWithString_iff] at hstring
    exact not_stringFirst_amf3Metadata hstring
  · obtain ⟨ps, hreads, hps⟩ := exists_reads danglingMetadata (by decide) (by decide)
    refine ⟨ps, hreads, hps, ?_⟩
    obtain ⟨p, qs, rfl, hp, -⟩ := List.map_eq_cons_iff.mp hps
    obtain ⟨hmetadata, hdata⟩ := Prod.mk.inj hp
    have hreadable := readable_map hreads (0, p) List.mem_cons_self
    have htype : (fill 0 p).typeID = tagScriptDataAmf0 := typeID_of_isMetadata hreadable hmetadata
    have hreform : Amf.metaDataReform (fill 0 p).data Amf.del (Conn.newConn { unread := [] }) =
        .panic .indexOutOfRange := by
      show Amf.metaDataReform p.data _ _ = _
      rw [hdata, Amf.metaDataReform, if_neg (by decide), if_pos rfl, decode_danglingMetadata]
    rw [List.map_cons, sendPacket_cons, sendTurn, ConnServer.write, if_pos (Or.inl htype), Call.bind_bind,
      Call.bind_bind, Call.bind_of_panic hreform]
    trivial

end VirWriter

end Livego
