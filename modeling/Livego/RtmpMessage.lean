import Livego.RtmpTurn

/-! Whole messages: what `writeChunk` emits, what the acknowledgements add, and that reading the chunks
of a message returns it. -/

namespace Livego

open Endian Fallible ReadWriter

namespace ChunkStream

/-! ### Writing a message -/

/-- The chunks of a message from byte `o` on, at most `turns` of them. -/
def chunksFrom (m : ChunkStream) (chunkSize : Nat) : (turns o : Nat) → Bytes
  | 0, _ => []
  | turns + 1, o =>
    if o = m.length then []
    else
      let payload := (m.data.drop o).take chunkSize
      m.chunkBytes (if o = 0 then 0 else 3) payload ++
        chunksFrom m chunkSize turns (o + payload.length)

/-- All chunks of a message. -/
def messageBytes (m : ChunkStream) (chunkSize : Nat) : Bytes :=
  m.chunksFrom chunkSize (m.length / chunkSize + 1) 0

theorem writeHeader_write {m : ChunkStream} {format : Nat} (hf : format = 0 ∨ format = 3)
    (hlen : m.length ≤ 0xffffff) (w : ReadWriter) (payload : Bytes) :
    ∃ header, writeHeader { m with format } w = .ok () (w.write header) ∧
      m.chunkBytes format payload = header ++ payload := by
  rcases hf with rfl | rfl
  · refine ⟨_, writeHeader_first { m with format := 0 } rfl hlen w, ?_⟩
    rw [chunkBytes_first m hlen]
    simp [fullHeaderBytes, extendedBytes]
  · refine ⟨_, writeHeader_continue { m with format := 3 } rfl w, ?_⟩
    rw [chunkBytes_continue]
    simp [extendedBytes]

/-- The writing loop has sent `i * chunkSize` bytes at turn `i`, or all. -/
theorem writeChunks_eq {m : ChunkStream} {chunkSize : Nat} (hlen : m.length = m.data.length)
    (hmax : m.length ≤ 0xffffff) (hsize : 0 < chunkSize) (hsize' : chunkSize < 2 ^ 32) (turns i : Nat)
    (w : ReadWriter) :
    m.writeChunks chunkSize turns i (min (i * chunkSize) m.length) w =
      .ok () (w.write (m.chunksFrom chunkSize turns (min (i * chunkSize) m.length))) := by
  induction turns generalizing i w with
  | zero => simp [writeChunks, chunksFrom, write]
  | succ turns ih =>
      rw [writeChunks, chunksFrom]
      by_cases hend : min (i * chunkSize) m.length = m.length
      · rw [if_pos hend, if_pos hend]
        simp [write]
      · have hlt : i * chunkSize < m.length := by omega
        have hmin : min (i * chunkSize) m.length = i * chunkSize := by omega
        have hzero : i * chunkSize = 0 ↔ i = 0 := by
          rw [Nat.mul_eq_zero]
          omega
        have hformat : (if min (i * chunkSize) m.length = 0 then 0 else 3) = if i = 0 then 0 else 3 := by
          rw [hmin]
          simp only [hzero]
        rw [if_neg hend, if_neg hend, hformat, hmin]
        set payload := (m.data.drop (i * chunkSize)).take chunkSize with hpayload
        have hplen : payload.length = min chunkSize (m.length - i * chunkSize) := by
          rw [hpayload, List.length_take, List.length_drop, hlen]
        have hf : (if i = 0 then 0 else 3) = 0 ∨ (if i = 0 then 0 else 3) = 3 := by
          split_ifs <;> simp
        obtain ⟨header, hwrite, hbytes⟩ := writeHeader_write hf hmax w payload
        have hstart : u32 (i * chunkSize) = i * chunkSize := u32_of_lt (by omega)
        have hdlen : u32 m.data.length = m.length := by rw [← hlen, u32_of_lt (by omega)]
        have hleft : sub32 m.length (i * chunkSize) = m.length - i * chunkSize :=
          sub32_of_le (by omega) (by omega)
        have hinc : (if m.length - i * chunkSize ≤ chunkSize then m.length - i * chunkSize else chunkSize) =
            payload.length := by
          rw [hplen]
          split_ifs <;> omega
        have hstop : u32 (i * chunkSize + payload.length) = i * chunkSize + payload.length :=
          u32_of_lt (by omega)
        have htake : (m.data.drop (i * chunkSize)).take (i * chunkSize + payload.length - i * chunkSize) =
            payload := by
          rw [Nat.add_sub_cancel_left, hpayload, List.length_take, ← List.take_eq_take_min]
        have hnext : min ((i + 1) * chunkSize) m.length = i * chunkSize + payload.length := by
          rw [hplen, Nat.add_mul]
          omega
        rw [Call.bind_of_ok hwrite]
        simp only [hstart, hdlen, hleft, hinc, hstop, htake]
        rw [if_neg (by omega), Call.modify_bind_apply, write_write, ← hnext, ih, write_write, hbytes]

theorem assignCsid_fields (m : ChunkStream) :
    ∃ csid, m.assignCsid = { m with csid } := by
  unfold assignCsid
  split_ifs
  · exact ⟨_, rfl⟩
  · exact ⟨_, rfl⟩
  · exact ⟨m.csid, rfl⟩

/-- `writeChunk` emits the chunks of the message on the chunk stream it assigns. -/
theorem writeChunk_eq {m : ChunkStream} {chunkSize : Nat} (hlen : m.length = m.data.length)
    (hmax : m.length ≤ 0xffffff) (hsize : u32 chunkSize ≠ 0) (w : ReadWriter) :
    m.writeChunk chunkSize w = .ok () (w.write (m.assignCsid.messageBytes (u32 chunkSize))) := by
  obtain ⟨csid, hcsid⟩ := assignCsid_fields m
  have hlt : u32 chunkSize < 2 ^ 32 := Nat.mod_lt _ (by decide)
  have hloop := writeChunks_eq (m := m.assignCsid) (by rw [hcsid]; exact hlen) (by rw [hcsid]; exact hmax)
    (Nat.pos_of_ne_zero hsize) hlt (m.assignCsid.length / u32 chunkSize + 1) 0 w
  rw [Nat.zero_mul, Nat.zero_min] at hloop
  unfold writeChunk
  rw [if_neg hsize, hloop]
  rfl

end ChunkStream

open ChunkStream

namespace Conn

theorem onReadWriter_of_ok {α : Type} {x : Call GoError ReadWriter α} (conn : Conn) {a : α} {rw : ReadWriter}
    (h : x conn.rw = .ok a rw) : onReadWriter x conn = .ok a { conn with rw } := by
  simp only [onReadWriter, h]

/-- The connection has written and counted, but its reading side is where it was. -/
structure SameReader (conn conn' : Conn) : Prop where
  chunkSize : conn'.chunkSize = conn.chunkSize
  remoteChunkSize : conn'.remoteChunkSize = conn.remoteChunkSize
  unread : conn'.rw.unread = conn.rw.unread
  readError : conn'.rw.readError = conn.rw.readError
  chunks : conn'.chunks = conn.chunks
  pool : conn'.pool = conn.pool

/-- The connection after `ack`. -/
def acked (size : Nat) (conn : Conn) : Conn :=
  let received := u32 (conn.received + u32 size)
  let conn := { conn with received := if received ≥ 0xf0000000 then 0 else received,
                          ackReceived := u32 (conn.ackReceived + u32 size) }
  if conn.ackReceived ≥ conn.remoteWindowAckSize then
    { conn with rw := conn.rw.write ((newAck conn.ackReceived).assignCsid.messageBytes (u32 conn.chunkSize)),
                ackReceived := 0 }
  else conn

theorem ack_eq {conn : Conn} (hsize : u32 conn.chunkSize ≠ 0) (size : Nat) :
    ack size conn = .ok () (conn.acked size) := by
  unfold ack acked
  dsimp only
  split
  · set n := u32 (conn.ackReceived + u32 size)
    have hwrite := writeChunk_eq (m := newAck n) (by simp [newAck, initControlMsg])
      (by simp [newAck, initControlMsg]) hsize conn.rw
    rw [Call.bind_apply, ignoreErr, onReadWriter]
    simp only [hwrite]
    rfl
  · rfl

theorem ack_sameReader {conn : Conn} (hsize : u32 conn.chunkSize ≠ 0) (size : Nat) :
    ∃ conn', ack size conn = .ok () conn' ∧ SameReader conn conn' := by
  refine ⟨conn.acked size, ack_eq hsize size, ?_⟩
  unfold acked
  dsimp only
  split
  · exact ⟨rfl, rfl, rfl, rfl, rfl, rfl⟩
  · exact ⟨rfl, rfl, rfl, rfl, rfl, rfl⟩

/-! ### Reading a message -/

/-- What `read` does with a complete message. -/
def finish (c : ChunkStream) : Call GoError Conn ChunkStream := do
  handleControlMsg c
  ack c.length
  pure c

/-- `read` is one turn, and then it returns the message or reads on. -/
theorem read_eq (conn : Conn) :
    read conn = match readTurn () conn with
      | .ok (.inl ()) conn' => read conn'
      | .ok (.inr c) conn' => finish c conn'
      | .err e conn' => .err e conn'
      | .panic p => .panic p
      | .diverge => .diverge := by
  have hread : ∀ conn : Conn, read conn =
      (Call.loop readTurn (conn.rw.unread.length + 1) () >>= finish) conn := fun _ => rfl
  rw [hread, Call.bind_apply, Call.loop_turn readTurn_decreases]
  cases hturn : readTurn () conn with
  | ok r conn' =>
      cases r with
      | inl _ =>
          dsimp only
          rw [hread, Call.bind_apply]
      | inr c => rfl
  | err e conn' => rfl
  | panic p => rfl
  | diverge => rfl

/-- A control message that is handled has the four bytes that are read from it. -/
def ControlReadable (c : ChunkStream) : Prop :=
  c.typeID = idSetChunkSize ∨ c.typeID = idWindowAckSize → 4 ≤ c.data.length

/-- The chunk size of the peer once it has sent the message. -/
def sizeAfter (c : ChunkStream) (size : Nat) : Nat :=
  if c.typeID = idSetChunkSize then beNat (c.data.take 4) else size

theorem uint32BE_of_le {b : Bytes} (h : 4 ≤ b.length) : uint32BE b = some (beNat (b.take 4)) := by
  rw [uint32BE, if_neg (by omega)]

theorem handleControlMsg_eq {c : ChunkStream} (hc : ControlReadable c) (conn : Conn) :
    ∃ conn', handleControlMsg c conn = .ok () conn' ∧
      SameReader { conn with remoteChunkSize := sizeAfter c conn.remoteChunkSize } conn' := by
  unfold handleControlMsg sizeAfter
  by_cases h1 : c.typeID = idSetChunkSize
  · rw [if_pos h1, if_pos h1, uint32BE_of_le (hc (Or.inl h1))]
    exact ⟨_, rfl, rfl, rfl, rfl, rfl, rfl, rfl⟩
  · rw [if_neg h1, if_neg h1]
    by_cases h5 : c.typeID = idWindowAckSize
    · rw [if_pos h5, uint32BE_of_le (hc (Or.inr h5))]
      exact ⟨_, rfl, rfl, rfl, rfl, rfl, rfl, rfl⟩
    · rw [if_neg h5]
      exact ⟨_, rfl, rfl, rfl, rfl, rfl, rfl, rfl⟩

theorem SameReader.trans {conn conn' conn'' : Conn} (h : SameReader conn conn') (h' : SameReader conn' conn'') :
    SameReader conn conn'' :=
  ⟨h'.chunkSize.trans h.chunkSize, h'.remoteChunkSize.trans h.remoteChunkSize, h'.unread.trans h.unread,
    h'.readError.trans h.readError, h'.chunks.trans h.chunks, h'.pool.trans h.pool⟩

/-- A complete message is returned, and all it does to the reading side is to set the chunk size. -/
theorem finish_eq {c : ChunkStream} (conn : Conn) (hc : ControlReadable c) (hsize : u32 conn.chunkSize ≠ 0) :
    ∃ conn', finish c conn = .ok c conn' ∧
      SameReader { conn with remoteChunkSize := sizeAfter c conn.remoteChunkSize } conn' := by
  obtain ⟨conn1, hcontrol, hsame1⟩ := handleControlMsg_eq hc conn
  obtain ⟨conn2, hack, hsame2⟩ := ack_sameReader (show u32 conn1.chunkSize ≠ 0 by rwa [hsame1.chunkSize]) c.length
  refine ⟨conn2, ?_, hsame1.trans hsame2⟩
  rw [finish, Call.bind_of_ok hcontrol, Call.bind_of_ok hack]
  rfl

theorem turned_turned (conn : Conn) (rest rest' : Bytes) (pool pool' : Pool) (key : Nat) (e e' : ChunkStream) :
    (conn.turned rest pool key e).turned rest' pool' key e' = conn.turned rest' pool' key e' := by
  simp [turned]

/-- The turn of a continuation chunk: `R` says what the entry is when so many bytes of `m` have arrived. -/
def Continues (R : Nat → ChunkStream → Prop) (m : ChunkStream) : Prop :=
  ∀ {conn : Conn} {e : ChunkStream} {o : Nat} {payload rest : Bytes}, conn.chunks (chunkKey m.csid) = some e →
    R o e → o < m.length → conn.rw.readError = none → conn.rw.unread = m.chunkBytes 3 payload ++ rest →
      payload = (m.data.drop o).take conn.remoteChunkSize →
        ∃ e', R (o + payload.length) e' ∧
          readTurn () conn = .ok (if o + payload.length = m.length then .inr e' else .inl ())
            (conn.turned rest conn.pool (chunkKey m.csid) e')

/-- The continuation chunks of a message complete it. -/
theorem read_chunksFrom {R : Nat → ChunkStream → Prop} {m : ChunkStream} (hstep : Continues R m)
    (hlen : m.length = m.data.length) {turns o : Nat} {conn : Conn} {e : ChunkStream} {rest : Bytes} (ho : 0 < o)
    (hlt : o < m.length) (hturns : m.length ≤ o + turns * conn.remoteChunkSize)
    (hentry : conn.chunks (chunkKey m.csid) = some e) (hr : R o e) (he : conn.rw.readError = none)
    (hu : conn.rw.unread = m.chunksFrom conn.remoteChunkSize turns o ++ rest) :
    ∃ e', R m.length e' ∧ read conn = finish e' (conn.turned rest conn.pool (chunkKey m.csid) e') := by
  induction turns generalizing o conn e with
  | zero => omega
  | succ turns ih =>
      rw [chunksFrom, if_neg (by omega), if_neg (by omega)] at hu
      dsimp only at hu
      rw [List.append_assoc] at hu
      set payload := (m.data.drop o).take conn.remoteChunkSize with hpayload
      have hplen : payload.length = min conn.remoteChunkSize (m.length - o) := by
        rw [hpayload, List.length_take, List.length_drop, hlen]
      obtain ⟨e', hr', hturn⟩ := hstep hentry hr hlt he hu hpayload
      rw [read_eq, hturn]
      by_cases hend : o + payload.length = m.length
      · rw [if_pos hend]
        have hrest : m.chunksFrom conn.remoteChunkSize turns (o + payload.length) ++ rest = rest := by
          rw [hend]
          cases turns <;> simp [chunksFrom]
        rw [hrest]
        exact ⟨e', hend ▸ hr', rfl⟩
      · rw [if_neg hend]
        rw [Nat.add_mul, Nat.one_mul] at hturns
        set conn' := conn.turned (m.chunksFrom conn.remoteChunkSize turns (o + payload.length) ++ rest)
          conn.pool (chunkKey m.csid) e' with hconn'
        have hsame : conn'.remoteChunkSize = conn.remoteChunkSize := rfl
        have hself : conn'.chunks (chunkKey m.csid) = some e' := Function.update_self ..
        have hfull : payload.length = conn.remoteChunkSize := by omega
        obtain ⟨e'', hr'', hread⟩ := ih (o := o + payload.length) (by omega) (by omega)
          (by rw [hsame]; omega) hself hr' he (by rw [hsame, hconn']; rfl)
        refine ⟨e'', hr'', ?_⟩
        rw [hconn', turned_turned] at hread
        exact hread

/-- A message whose first chunk has been read is completed by its continuation chunks, if there are any. -/
theorem read_opened {R : Nat → ChunkStream → Prop} {m : ChunkStream} (hstep : Continues R m)
    (hlen : m.length = m.data.length) {conn : Conn} {e : ChunkStream} {pool : Pool} {rest : Bytes}
    (hsize : 0 < conn.remoteChunkSize) (he : conn.rw.readError = none) {payload : Bytes}
    (hpayload : payload = m.data.take conn.remoteChunkSize) (hr : R payload.length e) {turns : Nat}
    (hturns : m.length ≤ payload.length + turns * conn.remoteChunkSize)
    (hturn : readTurn () conn = .ok (if payload.length = m.length then .inr e else .inl ())
      (conn.turned (m.chunksFrom conn.remoteChunkSize turns payload.length ++ rest) pool (chunkKey m.csid) e)) :
    ∃ e', R m.length e' ∧ read conn = finish e' (conn.turned rest pool (chunkKey m.csid) e') := by
  have hplen : payload.length = min conn.remoteChunkSize m.length := by
    rw [hpayload, List.length_take, hlen]
  rw [read_eq, hturn]
  by_cases hend : payload.length = m.length
  · rw [if_pos hend]
    have hrest : m.chunksFrom conn.remoteChunkSize turns payload.length ++ rest = rest := by
      rw [hend]
      cases turns <;> simp [chunksFrom]
    rw [hrest]
    exact ⟨e, hend ▸ hr, rfl⟩
  · rw [if_neg hend]
    set conn' := conn.turned (m.chunksFrom conn.remoteChunkSize turns payload.length ++ rest) pool
      (chunkKey m.csid) e with hconn'
    have hself : conn'.chunks (chunkKey m.csid) = some e := Function.update_self ..
    have hunread : conn'.rw.unread = m.chunksFrom conn'.remoteChunkSize turns payload.length ++ rest := rfl
    have hleft : m.length ≤ payload.length + turns * conn'.remoteChunkSize := hturns
    obtain ⟨e', hr', hread⟩ := read_chunksFrom hstep hlen (by omega) (by omega) hleft hself hr he hunread
    refine ⟨e', hr', ?_⟩
    rw [hconn', turned_turned] at hread
    exact hread

/-- Reading the chunks of one message on an idle entry returns that message. -/
theorem read_messageBytes {m : ChunkStream} (hm : m.Sendable) {conn : Conn} {rest : Bytes}
    (hsize : 0 < conn.remoteChunkSize) (he : conn.rw.readError = none)
    (hidle : ∀ e, conn.chunks (chunkKey m.csid) = some e → e.remain = 0)
    (hu : conn.rw.unread = m.messageBytes conn.remoteChunkSize ++ rest) :
    ∃ e pool, Receiving m m.length e ∧
      read conn = finish e (conn.turned rest pool (chunkKey m.csid) e) := by
  have hpos := hm.length_pos
  rw [messageBytes, chunksFrom, if_neg (by omega), if_pos rfl] at hu
  dsimp only at hu
  rw [List.append_assoc, List.drop_zero, Nat.zero_add] at hu
  set payload := m.data.take conn.remoteChunkSize with hpayload
  have hplen : payload.length = min conn.remoteChunkSize m.length := by
    rw [hpayload, List.length_take, hm.length_eq]
  obtain ⟨e, pool, hr, hturn⟩ := readTurn_first hm he hu hidle hpayload
  have hdiv := Nat.lt_div_mul_add hsize (a := m.length)
  obtain ⟨e', hr', hread⟩ := read_opened (R := Receiving m) (fun {_ _ _ _ _} => readTurn_continue hm) hm.length_eq
    hsize he hpayload hr (by omega) hturn
  exact ⟨e', pool, hr', hread⟩

end Conn

end Livego
