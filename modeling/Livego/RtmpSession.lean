import Livego.RtmpSafety

/-! A session: what one connection writes message by message, another reads message by message. -/

namespace Livego

open Endian Fallible ReadWriter ChunkStream

namespace ChunkStream

/-- What may be given to `write`. The two control messages that the connection reads itself have the four
bytes it reads. -/
structure Writable (m : ChunkStream) : Prop where
  sendable : m.Sendable
  setChunkSize : m.typeID = idSetChunkSize → ∃ v, 4 ≤ v ∧ v < 2 ^ 31 ∧ m = Conn.newSetChunkSize v
  windowAckSize : m.typeID = idWindowAckSize → m.length = 4

theorem sendable_assignCsid {m : ChunkStream} (h : m.Sendable) : m.assignCsid.Sendable := by
  have hcsid : ∀ csid, 2 ≤ csid → csid ≤ 65599 → Sendable { m with csid } := fun _ hge hle =>
    ⟨h.length_eq, h.length_pos, h.length_le, h.typeID_lt, h.timestamp_lt, h.streamID_lt, hge, hle⟩
  unfold assignCsid
  split_ifs
  · exact hcsid 4 (by decide) (by decide)
  · exact hcsid 6 (by decide) (by decide)
  · exact h

theorem Writable.controlReadable {m : ChunkStream} (h : m.Writable) : Conn.ControlReadable m := by
  rintro (htype | htype)
  · obtain ⟨v, _, _, rfl⟩ := h.setChunkSize htype
    exact le_refl 4
  · rw [← h.sendable.length_eq, h.windowAckSize htype]

/-- A message of no more than a chunk goes out as one chunk, whatever the chunk size. -/
theorem messageBytes_of_le {m : ChunkStream} {size : Nat} (hm : m.Sendable) (hle : m.length ≤ size) :
    m.messageBytes size = m.chunkBytes 0 m.data := by
  have hpos := hm.length_pos
  have hdata : (m.data.drop 0).take size = m.data := by
    rw [List.drop_zero, List.take_of_length_le (hm.length_eq ▸ hle)]
  rw [messageBytes, chunksFrom, if_neg (by omega), if_pos rfl]
  simp only [hdata, Nat.zero_add, ← hm.length_eq]
  cases m.length / size <;> simp [chunksFrom]

end ChunkStream

namespace Conn

/-- `write` for one message after the other. -/
def writeAll : List ChunkStream → Call GoError Conn Unit
  | [] => pure ()
  | m :: ms => do
    write m
    writeAll ms

/-- `read` returns these messages, one a call, and leaves the connection as `last` says. -/
def Reads (last : Conn → Prop) : List Message → Conn → Prop
  | [], conn => last conn
  | m :: ms, conn => ∃ c conn', read conn = .ok c conn' ∧ c.message = m ∧ Reads last ms conn'

/-- `read` returns an error. -/
def Ended (conn : Conn) : Prop := ∃ e conn', read conn = .err e conn'

/-- `read` returns these messages, one a call, and then an error. -/
def ReadsAll (ms : List Message) (conn : Conn) : Prop := Reads Ended ms conn

/-- The bytes of a session: every message goes out in chunks of the size that is in force after it. -/
def sessionBytes : List ChunkStream → Nat → Bytes
  | [], _ => []
  | m :: ms, size => m.assignCsid.messageBytes (sizeAfter m size) ++ sessionBytes ms (sizeAfter m size)

theorem sizeAfter_newSetChunkSize {v : Nat} (hv : v < 2 ^ 32) (size : Nat) :
    sizeAfter (newSetChunkSize v) size = v := by
  rw [sizeAfter, if_pos (show (newSetChunkSize v).typeID = idSetChunkSize from rfl)]
  show beNat ((beBytes 4 v ++ List.replicate (4 - 4) 0).take 4) = v
  rw [List.replicate_zero, List.append_nil, List.take_of_length_le (by simp), beNat_beBytes_of_lt hv]

/-- A session never leaves the chunk sizes that `newSetChunkSize` can announce. -/
theorem sizeAfter_bounds {m : ChunkStream} (hm : m.Writable) {size : Nat} (hlo : 4 ≤ size) (hhi : size < 2 ^ 31) :
    4 ≤ sizeAfter m size ∧ sizeAfter m size < 2 ^ 31 := by
  by_cases htype : m.typeID = idSetChunkSize
  · obtain ⟨v, hge, hlt, rfl⟩ := hm.setChunkSize htype
    rw [sizeAfter_newSetChunkSize (by omega)]
    exact ⟨hge, hlt⟩
  · rw [sizeAfter, if_neg htype]
    exact ⟨hlo, hhi⟩

/-- Writing a message emits its chunks, after the chunk size has changed if that is what it is about. -/
theorem write_eq {m : ChunkStream} (hm : m.Writable) {conn : Conn} (hlo : 4 ≤ conn.chunkSize)
    (hhi : conn.chunkSize < 2 ^ 31) :
    write m conn = .ok () { conn with
      chunkSize := sizeAfter m conn.chunkSize
      rw := conn.rw.write (m.assignCsid.messageBytes (sizeAfter m conn.chunkSize)) } := by
  have hle := hm.sendable.length_le
  simp only [maxpoolsize] at hle
  obtain ⟨hge, hlt⟩ := sizeAfter_bounds hm hlo hhi
  have hu32 : u32 (sizeAfter m conn.chunkSize) = sizeAfter m conn.chunkSize := u32_of_lt (by omega)
  have hwrite := writeChunk_eq hm.sendable.length_eq (by omega)
    (show u32 (sizeAfter m conn.chunkSize) ≠ 0 by omega) conn.rw
  rw [hu32] at hwrite
  unfold write
  by_cases htype : m.typeID = idSetChunkSize
  · rw [if_pos htype, uint32BE_of_le (hm.controlReadable (Or.inl htype))]
    have hsize : sizeAfter m conn.chunkSize = beNat (m.data.take 4) := if_pos htype
    rw [hsize] at hwrite ⊢
    exact onReadWriter_of_ok { conn with chunkSize := beNat (m.data.take 4) } hwrite
  · have hsize : sizeAfter m conn.chunkSize = conn.chunkSize := if_neg htype
    rw [if_neg htype]
    rw [hsize] at hwrite ⊢
    exact onReadWriter_of_ok conn hwrite

theorem writeAll_eq {ms : List ChunkStream} (hms : ∀ m ∈ ms, m.Writable) {conn : Conn} (hlo : 4 ≤ conn.chunkSize)
    (hhi : conn.chunkSize < 2 ^ 31) :
    ∃ conn', writeAll ms conn = .ok () conn' ∧ conn'.rw = conn.rw.write (sessionBytes ms conn.chunkSize) := by
  induction ms generalizing conn with
  | nil => exact ⟨conn, rfl, by simp [sessionBytes, ReadWriter.write]⟩
  | cons m ms ih =>
      have hm := hms m List.mem_cons_self
      obtain ⟨hge, hlt⟩ := sizeAfter_bounds hm hlo hhi
      let conn1 : Conn := { conn with
        chunkSize := sizeAfter m conn.chunkSize
        rw := conn.rw.write (m.assignCsid.messageBytes (sizeAfter m conn.chunkSize)) }
      obtain ⟨conn', hrest, hrw⟩ := ih (fun m' h => hms m' (List.mem_cons_of_mem m h))
        (show 4 ≤ conn1.chunkSize from hge) hlt
      refine ⟨conn', ?_, ?_⟩
      · rw [writeAll, Call.bind_of_ok (write_eq hm hlo hhi)]
        exact hrest
      · rw [hrw, write_write, sessionBytes]

/-- The reader between two messages: no entry is in the midst of one. -/
structure Idle (conn : Conn) : Prop where
  inv : Inv conn
  readError : conn.rw.readError = none
  entries : ∀ key e, conn.chunks key = some e → e.remain = 0

theorem idle_newConn (incoming : Bytes) (ending : GoError) : Idle (newConn { unread := incoming, ending }) :=
  ⟨inv_newConn incoming ending, rfl, fun _ _ h => by simp [newConn] at h⟩

theorem sizeAfter_congr {m c : ChunkStream} (h : c.message = m.message) (size : Nat) :
    sizeAfter c size = sizeAfter m size := by
  simp only [message, Message.mk.injEq] at h
  obtain ⟨-, htype, -, -, -, hdata⟩ := h
  rw [sizeAfter, sizeAfter, htype, hdata]

theorem controlReadable_congr {m c : ChunkStream} (h : c.message = m.message) (hm : ControlReadable m) :
    ControlReadable c := by
  simp only [message, Message.mk.injEq] at h
  obtain ⟨-, htype, -, -, -, hdata⟩ := h
  rw [ControlReadable, htype, hdata]
  exact hm

/-- An idle reader returns the message whose chunks come next, and is idle again. -/
theorem Idle.read_message {m : ChunkStream} {conn : Conn} {rest : Bytes} (h : Idle conn) (hm : m.Sendable)
    (hc : ControlReadable m) (hsize : 0 < conn.remoteChunkSize)
    (hu : conn.rw.unread = m.messageBytes conn.remoteChunkSize ++ rest) :
    ∃ c conn', read conn = .ok c conn' ∧ c.message = m.message ∧ Idle conn' ∧ conn'.rw.unread = rest ∧
      conn'.remoteChunkSize = sizeAfter m conn.remoteChunkSize := by
  obtain ⟨e, pool, hr, hread⟩ := read_messageBytes hm hsize h.readError (h.entries _) hu
  have hmessage := hr.message_eq hm
  obtain ⟨conn', hfinish, hsame⟩ := finish_eq (conn.turned rest pool (chunkKey m.csid) e)
    (controlReadable_congr hmessage hc) h.inv.chunkSize_ne
  rw [hfinish] at hread
  refine ⟨e, conn', hread, hmessage, ⟨(read_sat h.inv).of_ok hread, ?_, ?_⟩, hsame.unread, ?_⟩
  · rw [hsame.readError]
    exact h.readError
  · rw [hsame.chunks]
    exact forall_updated (P := fun e => e.remain = 0) h.entries (hr.remain.trans (Nat.sub_self _))
  · rw [hsame.remoteChunkSize]
    exact sizeAfter_congr hmessage _

/-- At the end of the stream `read` returns an error. -/
theorem read_end {conn : Conn} (h : Inv conn) (hu : conn.rw.unread = []) : Ended conn := by
  have hfit : ¬OpensOverlong conn := by
    rintro ⟨_, _, hover⟩
    simp [nextHeader, hu, announced, maxpoolsize] at hover
  have hturn := (readTurn_sat h).1
  unfold Ended
  rw [read_eq]
  cases hcase : readTurn () conn with
  | ok r conn' =>
      have hlt := readTurn_lt hcase
      rw [hu] at hlt
      exact absurd hlt (Nat.not_lt_zero _)
  | err e conn' => exact ⟨e, conn', rfl⟩
  | panic p => exact absurd (hturn.of_panic hcase) hfit
  | diverge => exact absurd hcase hturn.ne_diverge

/-- A message that changes the chunk size fits a chunk of either size. -/
theorem messageBytes_sizeAfter {m : ChunkStream} (hm : m.Writable) {size : Nat} (hlo : 4 ≤ size) (hhi : size < 2 ^ 31) :
    m.assignCsid.messageBytes (sizeAfter m size) = m.assignCsid.messageBytes size := by
  by_cases htype : m.typeID = idSetChunkSize
  · obtain ⟨csid, hcsid⟩ := assignCsid_fields m
    have hsend := sendable_assignCsid hm.sendable
    have hbounds := sizeAfter_bounds hm hlo hhi
    have hlen : m.assignCsid.length ≤ 4 := by
      obtain ⟨v, _, _, hv⟩ := hm.setChunkSize htype
      rw [hcsid, hv]
      exact le_refl 4
    rw [messageBytes_of_le hsend (hlen.trans hbounds.1), messageBytes_of_le hsend (hlen.trans hlo)]
  · rw [sizeAfter, if_neg htype]

/-- The two ends of a session: their chunk sizes differ at most while a message is under way that changes
them, and such a message fits a chunk of either size. -/
theorem Idle.readsAll {ms : List ChunkStream} (hms : ∀ m ∈ ms, m.Writable) {conn : Conn} (h : Idle conn)
    (hlo : 4 ≤ conn.remoteChunkSize) (hhi : conn.remoteChunkSize < 2 ^ 31)
    (hu : conn.rw.unread = sessionBytes ms conn.remoteChunkSize) :
    ReadsAll (ms.map fun m => m.assignCsid.message) conn := by
  induction ms generalizing conn with
  | nil => exact read_end h.inv hu
  | cons m ms ih =>
      have hm := hms m List.mem_cons_self
      have hbounds := sizeAfter_bounds hm hlo hhi
      have hsend := sendable_assignCsid hm.sendable
      obtain ⟨csid, hcsid⟩ := assignCsid_fields m
      have hafter : sizeAfter m.assignCsid conn.remoteChunkSize = sizeAfter m conn.remoteChunkSize := by
        rw [hcsid]
        rfl
      have hcontrol : ControlReadable m.assignCsid := by
        rw [hcsid]
        exact hm.controlReadable
      rw [sessionBytes, messageBytes_sizeAfter hm hlo hhi] at hu
      obtain ⟨c, conn', hread, hmessage, hidle, hrest, hsize⟩ := h.read_message hsend hcontrol (by omega) hu
      rw [hafter] at hsize
      exact ⟨c, conn', hread, hmessage, ih (fun m' h' => hms m' (List.mem_cons_of_mem m h')) hidle
        (hsize ▸ hbounds.1) (hsize ▸ hbounds.2) (hsize ▸ hrest)⟩

/-- A fresh connection that is sent a session reads the messages of the session, and then an error. -/
theorem session_round_trip {ms : List ChunkStream} (hms : ∀ m ∈ ms, m.Writable) (incoming : Bytes)
    (ending ending' : GoError) :
    ∃ conn, (do writeAll ms; flush : Call GoError Conn Unit) (newConn { unread := incoming, ending }) = .ok () conn ∧
      ReadsAll (ms.map fun m => m.assignCsid.message) (newConn { unread := conn.rw.sent, ending := ending' }) := by
  obtain ⟨conn, hwrite, hrw⟩ := writeAll_eq hms
    (show 4 ≤ (newConn { unread := incoming, ending }).chunkSize from (by decide : 4 ≤ 128))
    (by decide : 128 < 2 ^ 31)
  refine ⟨{ conn with rw := conn.rw.flush }, ?_, ?_⟩
  · rw [Call.bind_of_ok hwrite]
    rfl
  · apply (idle_newConn _ ending').readsAll hms (by decide : 4 ≤ 128) (by decide : 128 < 2 ^ 31)
    show conn.rw.sent ++ conn.rw.buffered = _
    rw [hrw]
    rfl

/-- An extended timestamp, a change of the chunk size and a message of exactly the new size. -/
def sampleSession : List ChunkStream :=
  [{ csid := 2, timestamp := 0xffffff, length := 2, typeID := 20, data := [1, 2] }, newSetChunkSize 4,
    { csid := 400, timestamp := 7, length := 4, typeID := 9, streamID := 1, data := [3, 4, 5, 6] }]

theorem session_round_trip_sample :
    ∃ conn, (do writeAll sampleSession; flush : Call GoError Conn Unit) (newConn { unread := [] }) = .ok () conn ∧
      ReadsAll (sampleSession.map fun m => m.assignCsid.message) (newConn { unread := conn.rw.sent }) := by
  refine session_round_trip ?_ [] .eof .eof
  intro m hm
  simp only [sampleSession, List.mem_cons, List.not_mem_nil, or_false] at hm
  rcases hm with rfl | rfl | rfl
  · exact ⟨by constructor <;> decide, fun h => absurd h (by decide), by decide⟩
  · exact ⟨by constructor <;> decide, fun _ => ⟨4, by decide, by decide, rfl⟩, by decide⟩
  · exact ⟨by constructor <;> decide, fun h => absurd h (by decide), by decide⟩

end Conn

end Livego
