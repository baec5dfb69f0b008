import Livego.RtmpConn

/-! One chunk over the wire: the bytes `writeHeader` produces, and what one turn of the reader makes of
them. A chunk that opens a message needs its entry idle; a continuation chunk needs its entry in the
midst of that message. -/

namespace Livego

open Endian Fallible

namespace ChunkStream

/-- What the session layer sees of a chunk stream. -/
structure Message where
  csid : Nat
  typeID : Nat
  streamID : Nat
  timestamp : Nat
  length : Nat
  data : Bytes
  deriving DecidableEq, Repr

def message (cs : ChunkStream) : Message :=
  ⟨cs.csid, cs.typeID, cs.streamID, cs.timestamp, cs.length, cs.data⟩

/-- A message the wire format carries: its fields fit their slots and its buffer fits the pool. -/
structure Sendable (m : ChunkStream) : Prop where
  length_eq : m.length = m.data.length
  length_pos : 0 < m.length
  length_le : m.length ≤ maxpoolsize
  typeID_lt : m.typeID < 256
  timestamp_lt : m.timestamp < 2 ^ 32
  streamID_lt : m.streamID < 2 ^ 32
  csid_ge : 2 ≤ m.csid
  csid_le : m.csid ≤ 65599

/-! ### What is written -/

def basicHeaderBytes (cs : ChunkStream) : Bytes :=
  if cs.csid < 64 then [UInt8.ofNat (cs.format * 64 + cs.csid)]
  else if cs.csid - 64 < 256 then UInt8.ofNat (cs.format * 64) :: leBytes 1 (cs.csid - 64)
  else if cs.csid - 64 < 65536 then UInt8.ofNat (cs.format * 64 + 1) :: leBytes 2 (cs.csid - 64)
  else []

/-- The extended timestamp, on every chunk of a message that needs one. -/
def extendedBytes (cs : ChunkStream) : Bytes :=
  if 0xffffff ≤ cs.timestamp then beBytes 4 cs.timestamp else []

/-- The message header of a chunk of format 0. -/
def fullHeaderBytes (cs : ChunkStream) : Bytes :=
  beBytes 3 (min cs.timestamp 0xffffff) ++ (beBytes 3 cs.length ++ (beBytes 1 cs.typeID ++
    leBytes 4 cs.streamID))

theorem shiftLeft_or (f c : Nat) (hc : c < 64) : f <<< 6 ||| c = f * 64 + c := by
  rw [← Nat.shiftLeft_add_eq_or_of_lt (by omega : c < 2 ^ 6), Nat.shiftLeft_eq]

theorem beBytes_one (v : Nat) : beBytes 1 v = [UInt8.ofNat v] := rfl

theorem writeBasicHeader_eq (cs : ChunkStream) (w : ReadWriter) :
    cs.writeBasicHeader w = w.write cs.basicHeaderBytes := by
  have hshift : cs.format <<< 6 = cs.format * 64 := Nat.shiftLeft_eq cs.format 6
  unfold writeBasicHeader basicHeaderBytes
  simp only [ReadWriter.writeUintBE_eq, ReadWriter.writeUintLE_eq, ReadWriter.write_write, beBytes_one]
  split_ifs with h1 h2 h3
  · rw [shiftLeft_or _ _ h1]
  · rw [hshift, List.singleton_append]
  · rw [shiftLeft_or _ 1 (by decide), List.singleton_append]
  · simp [ReadWriter.write]

/-- A chunk of format 0 or 3 with the header that `writeHeader` puts before its bytes. -/
def chunkBytes (cs : ChunkStream) (format : Nat) (payload : Bytes) : Bytes :=
  match writeHeader { cs with format } { unread := [] } with
  | .ok _ w => w.output ++ payload
  | _ => []

theorem writeExtended_of_min (cs : ChunkStream) (w : ReadWriter) :
    cs.writeExtended (min cs.timestamp 0xffffff) w = w.write cs.extendedBytes := by
  unfold writeExtended extendedBytes
  by_cases h : 0xffffff ≤ cs.timestamp
  · rw [if_pos (by omega), if_pos h, ReadWriter.writeUintBE_eq]
  · rw [if_neg (by omega), if_neg h]
    simp [ReadWriter.write]

theorem writeExtended_self (cs : ChunkStream) (w : ReadWriter) :
    cs.writeExtended cs.timestamp w = w.write cs.extendedBytes := by
  unfold writeExtended extendedBytes
  by_cases h : 0xffffff ≤ cs.timestamp
  · rw [if_pos h, if_pos h, ReadWriter.writeUintBE_eq]
  · rw [if_neg h, if_neg h]
    simp [ReadWriter.write]

/-- The header of a continuation chunk. -/
theorem writeHeader_continue (cs : ChunkStream) (hf : cs.format = 3) (w : ReadWriter) :
    writeHeader cs w = .ok () (w.write (cs.basicHeaderBytes ++ cs.extendedBytes)) := by
  rw [writeHeader, if_pos hf, writeExtended_self, writeBasicHeader_eq, ReadWriter.write_write]

/-- The header of the chunk that opens a message. -/
theorem writeHeader_first (cs : ChunkStream) (hf : cs.format = 0) (hlen : cs.length ≤ 0xffffff)
    (w : ReadWriter) :
    writeHeader cs w =
      .ok () (w.write (cs.basicHeaderBytes ++ (cs.fullHeaderBytes ++ cs.extendedBytes))) := by
  have hts : (if cs.timestamp > 0xffffff then 0xffffff else cs.timestamp) =
      min cs.timestamp 0xffffff := by
    split_ifs <;> omega
  rw [writeHeader, if_neg (by omega), hts, if_neg (by omega), if_neg (by omega), if_neg (by omega)]
  simp only [writeExtended_of_min, writeBasicHeader_eq, ReadWriter.writeUintBE_eq,
    ReadWriter.writeUintLE_eq, ReadWriter.write_write, fullHeaderBytes, List.append_assoc]

theorem chunkBytes_continue (cs : ChunkStream) (payload : Bytes) :
    cs.chunkBytes 3 payload =
      basicHeaderBytes { cs with format := 3 } ++ (cs.extendedBytes ++ payload) := by
  rw [chunkBytes, writeHeader_continue _ rfl]
  simp [ReadWriter.write, ReadWriter.output, extendedBytes]

theorem chunkBytes_first (cs : ChunkStream) (hlen : cs.length ≤ 0xffffff) (payload : Bytes) :
    cs.chunkBytes 0 payload =
      basicHeaderBytes { cs with format := 0 } ++ (cs.fullHeaderBytes ++ (cs.extendedBytes ++ payload)) := by
  rw [chunkBytes, writeHeader_first { cs with format := 0 } rfl hlen]
  simp [ReadWriter.write, ReadWriter.output, extendedBytes, fullHeaderBytes]

/-! ### What is read -/

/-- The six bits of the basic header, by which the reader looks its entry up. -/
def chunkKey (csid : Nat) : Nat := if csid < 64 then csid else if csid < 320 then 0 else 1

/-- The reader finds format, key and id again in a basic header. -/
theorem readBasic (cs : ChunkStream) {rw : ReadWriter} {rest : Bytes} (hf : cs.format ≤ 3)
    (hlo : 2 ≤ cs.csid) (hhi : cs.csid ≤ 65599) (he : rw.readError = none)
    (hu : rw.unread = cs.basicHeaderBytes ++ rest) :
    ∃ h rw', rw.readUintBE 1 = (h, rw') ∧ h >>> 6 = cs.format ∧ h &&& 0x3f = chunkKey cs.csid ∧
      ∀ e : ChunkStream, readBasicId { e with csid := chunkKey cs.csid } rw' =
        ({ e with csid := cs.csid }, rw.advance rest) := by
  have hbyte : ∀ c < 64, ∀ tail, rw.unread = UInt8.ofNat (cs.format * 64 + c) :: tail →
      rw.readUintBE 1 = (cs.format * 64 + c, rw.advance tail) ∧
        (cs.format * 64 + c) >>> 6 = cs.format ∧ (cs.format * 64 + c) &&& 0x3f = c := by
    intro c hc tail htail
    refine ⟨ReadWriter.readUintBE_beBytes (by decide) (by omega) he (by rw [htail]; rfl), ?_, ?_⟩
    · rw [Nat.shiftRight_eq_div_pow]
      omega
    · rw [show (0x3f : Nat) = 2 ^ 6 - 1 by rfl, Nat.and_two_pow_sub_one_eq_mod]
      omega
  unfold basicHeaderBytes at hu
  split_ifs at hu with h1 h2 h3
  · obtain ⟨hread, hshift, hand⟩ := hbyte cs.csid h1 rest (by simpa using hu)
    refine ⟨_, _, hread, hshift, by rw [hand, chunkKey, if_pos h1], fun e => ?_⟩
    rw [chunkKey, if_pos h1, readBasicId]
    split <;> simp_all
  · obtain ⟨hread, hshift, hand⟩ := hbyte 0 (by decide) (leBytes 1 (cs.csid - 64) ++ rest) (by simpa using hu)
    have hkey : chunkKey cs.csid = 0 := by rw [chunkKey, if_neg h1, if_pos (by omega)]
    refine ⟨_, _, hread, hshift, by rw [hand, hkey], fun e => ?_⟩
    have hid : (rw.advance (leBytes 1 (cs.csid - 64) ++ rest)).readUintLE 1 = _ :=
      ReadWriter.readUintLE_advance (by decide) (by omega) he
    have hsum : u32 (cs.csid - 64 + 64) = cs.csid := by rw [u32_of_lt] <;> omega
    simp only [readBasicId, hkey, hid, hsum]
  · obtain ⟨hread, hshift, hand⟩ := hbyte 1 (by decide) (leBytes 2 (cs.csid - 64) ++ rest) (by simpa using hu)
    have hkey : chunkKey cs.csid = 1 := by rw [chunkKey, if_neg h1, if_neg (by omega)]
    refine ⟨_, _, hread, hshift, by rw [hand, hkey], fun e => ?_⟩
    have hid : (rw.advance (leBytes 2 (cs.csid - 64) ++ rest)).readUintLE 2 = _ :=
      ReadWriter.readUintLE_advance (by decide) (by omega) he
    have hsum : u32 (cs.csid - 64 + 64) = cs.csid := by rw [u32_of_lt] <;> omega
    simp only [readBasicId, hkey, hid, hsum]
  · omega

/-- The entry of a chunk stream when `o` bytes of the message `m` have arrived. -/
structure Receiving (m : ChunkStream) (o : Nat) (e : ChunkStream) : Prop where
  format : e.format = 0
  csid : e.csid = m.csid
  timestamp : e.timestamp = m.timestamp
  length : e.length = m.length
  typeID : e.typeID = m.typeID
  streamID : e.streamID = m.streamID
  exted : e.exted = decide (0xffffff ≤ m.timestamp)
  index : e.index = o
  remain : e.remain = m.length - o
  got : e.got = decide (o = m.length)
  data : e.data = m.data.take o ++ List.replicate (m.length - o) 0

/-- Once all bytes have arrived the entry holds the message. -/
theorem Receiving.message_eq {m e : ChunkStream} (hm : m.Sendable) (h : Receiving m m.length e) :
    e.message = m.message := by
  simp only [message, h.csid, h.typeID, h.streamID, h.timestamp, h.length, h.data, Nat.sub_self,
    List.replicate_zero, List.append_nil, hm.length_eq, List.take_length]

/-- The entry `e` with the header fields of `m`. -/
def headed (m e : ChunkStream) : ChunkStream :=
  { e with
    format := 0
    csid := m.csid
    timestamp := m.timestamp
    length := m.length
    typeID := m.typeID
    streamID := m.streamID
    exted := decide (0xffffff ≤ m.timestamp)
    tmpFromat := 0 }

/-- The timestamp field is read back, with the extended timestamp where there is one. -/
theorem readExtended_min {m : ChunkStream} {rw : ReadWriter} {rest : Bytes} (hts : m.timestamp < 2 ^ 32)
    (he : rw.readError = none) :
    readExtended (min m.timestamp 0xffffff) (rw.advance (m.extendedBytes ++ rest)) =
      ((m.timestamp, decide (0xffffff ≤ m.timestamp)), rw.advance rest) := by
  unfold readExtended
  by_cases hext : 0xffffff ≤ m.timestamp
  · have hbytes : (rw.advance (m.extendedBytes ++ rest)).unread = beBytes 4 m.timestamp ++ rest := by
      simp [extendedBytes, hext]
    have hread : (rw.advance (m.extendedBytes ++ rest)).readUintBE 4 = _ :=
      ReadWriter.readUintBE_beBytes (by decide) (by omega) he hbytes
    rw [if_pos (by omega)]
    simp only [hread, ReadWriter.advance_advance, hext, decide_true]
  · have hbytes : m.extendedBytes = [] := by rw [extendedBytes, if_neg hext]
    have hmin : min m.timestamp 0xffffff = m.timestamp := by omega
    rw [if_neg (by omega), hbytes, hmin]
    simp only [List.nil_append, hext, decide_false]

/-- The header fields of a message fit their slots. -/
structure Slotted (m : ChunkStream) : Prop where
  length_le : m.length ≤ 0xffffff
  typeID_lt : m.typeID < 256
  timestamp_lt : m.timestamp < 2 ^ 32
  streamID_lt : m.streamID < 2 ^ 32

theorem Sendable.slotted {m : ChunkStream} (hm : m.Sendable) : m.Slotted := by
  have hlen := hm.length_le
  simp only [maxpoolsize] at hlen
  exact ⟨by omega, hm.typeID_lt, hm.timestamp_lt, hm.streamID_lt⟩

/-- A full header is read back field by field. -/
theorem readFull_fullHeader {m e : ChunkStream} {rw : ReadWriter} {rest : Bytes} (hm : m.Slotted)
    (he : rw.readError = none) (hu : rw.unread = m.fullHeaderBytes ++ (m.extendedBytes ++ rest)) :
    readFull { e with tmpFromat := 0, csid := m.csid } rw = (headed m e, rw.advance rest) := by
  have hlen := hm.length_le
  have htype := hm.typeID_lt
  have hsid := hm.streamID_lt
  simp only [fullHeaderBytes, List.append_assoc] at hu
  have h1 := ReadWriter.readUintBE_beBytes (n := 3) (by decide) (by omega) he hu
  have h2 : (rw.advance (beBytes 3 m.length ++ (beBytes 1 m.typeID ++ (leBytes 4 m.streamID ++
      (m.extendedBytes ++ rest))))).readUintBE 3 = _ := ReadWriter.readUintBE_advance (by decide) (by omega) he
  have h3 : (rw.advance (beBytes 1 m.typeID ++ (leBytes 4 m.streamID ++
      (m.extendedBytes ++ rest)))).readUintBE 1 = _ := ReadWriter.readUintBE_advance (by decide) (by omega) he
  have h4 : (rw.advance (leBytes 4 m.streamID ++ (m.extendedBytes ++ rest))).readUintLE 4 = _ :=
    ReadWriter.readUintLE_advance (by decide) (by omega) he
  simp only [readFull, h1, h2, h3, h4, readExtended_min hm.timestamp_lt he, headed]

/-- The pool serves every message it has room for. -/
theorem Pool.get_of_le {size : Nat} (hsize : size ≤ maxpoolsize) (pool : Pool) :
    ∃ slice pool', pool.get size = some (slice, pool') ∧ slice.len = size := by
  by_cases h : maxpoolsize < pool.pos + size
  · exact ⟨_, _, by rw [Pool.get, if_pos h]; exact if_neg (by simpa using hsize), rfl⟩
  · exact ⟨_, _, by rw [Pool.get, if_neg h]; exact if_neg h, rfl⟩

/-- The entry with an empty buffer for the announced length. -/
def emptied (e : ChunkStream) : ChunkStream :=
  { e with got := false, index := 0, remain := e.length, data := List.replicate e.length 0 }

theorem new_of_le {e : ChunkStream} (hlen : e.length ≤ maxpoolsize) (rw : ReadWriter) (pool : Pool) :
    ∃ pool', e.new (rw, pool) = .ok e.emptied (rw, pool') := by
  obtain ⟨slice, pool', hget, hslice⟩ := Pool.get_of_le hlen pool
  refine ⟨pool', ?_⟩
  simp only [new, hget, hslice, emptied]

/-- After its header a message has its fields in the entry and all of its bytes to come. -/
theorem receiving_zero {m : ChunkStream} (hm : m.Sendable) (e : ChunkStream) :
    Receiving m 0 (headed m e).emptied := by
  have hpos := hm.length_pos
  refine ⟨rfl, rfl, rfl, rfl, rfl, rfl, rfl, rfl, rfl, ?_, ?_⟩
  · exact (decide_eq_false (by omega)).symm
  · simp [emptied, headed]

/-- The bytes of one chunk go behind those already received. -/
theorem Receiving.readPayload {m e : ChunkStream} {o chunkSize : Nat} {rw : ReadWriter}
    {payload rest : Bytes} (hm : m.Sendable) (hr : Receiving m o e) (ho : o < m.length)
    (hpayload : payload = (m.data.drop o).take chunkSize)
    (he : rw.readError = none) (hu : rw.unread = payload ++ rest) (pool : Pool) :
    ∃ e', Receiving m (o + payload.length) e' ∧
      e.readPayload chunkSize (rw, pool) = .ok e' (rw.advance rest, pool) := by
  have hlen := hm.length_eq
  have hle := hm.length_le
  simp only [maxpoolsize] at hle
  have hsize : (if m.length - o > chunkSize then chunkSize else m.length - o) = payload.length := by
    rw [hpayload, List.length_take, List.length_drop, ← hlen]
    split_ifs <;> omega
  have hpl : payload.length ≤ m.length - o := by
    rw [hpayload, List.length_take, List.length_drop, ← hlen]
    omega
  have hstop : u32 (o + payload.length) = o + payload.length := u32_of_lt (by omega)
  have hsub : sub32 (m.length - o) payload.length = m.length - (o + payload.length) := by
    rw [sub32_of_le hpl (by omega)]
    omega
  have htlen : (m.data.take o).length = o := by
    rw [List.length_take, ← hlen]
    omega
  have hdlen : (m.data.take o ++ List.replicate (m.length - o) (0 : UInt8)).length = m.length := by
    rw [List.length_append, htlen, List.length_replicate]
    omega
  have htake : (m.data.take o ++ List.replicate (m.length - o) (0 : UInt8)).take o = m.data.take o :=
    List.take_left' htlen
  have hdrop : (m.data.take o ++ List.replicate (m.length - o) (0 : UInt8)).drop (o + payload.length) =
      List.replicate (m.length - (o + payload.length)) 0 := by
    rw [List.drop_append, htlen, List.drop_eq_nil_of_le (by omega), List.nil_append, List.drop_replicate]
    congr 1
    omega
  have hfill : m.data.take o ++ payload = m.data.take (o + payload.length) := by
    rw [List.take_add, hpayload, List.length_take]
    congr 1
    rw [← List.take_eq_take_min]
  refine ⟨{ e with index := o + payload.length
                   remain := m.length - (o + payload.length)
                   got := decide (o + payload.length = m.length)
                   data := m.data.take (o + payload.length) ++
                     List.replicate (m.length - (o + payload.length)) 0 }, ?_, ?_⟩
  · exact ⟨hr.format, hr.csid, hr.timestamp, hr.length, hr.typeID, hr.streamID, hr.exted, rfl, rfl, rfl, rfl⟩
  · have hgot : e.got = false := hr.got.trans (decide_eq_false (by omega))
    simp only [ChunkStream.readPayload, hr.index, hr.remain, hr.data, hsize, hstop, hdlen, hsub, htake, hdrop,
      ReadWriter.read_append he hu, ReadWriter.advance_readError, he, hfill]
    rw [if_neg (by omega)]
    by_cases hend : o + payload.length = m.length
    · rw [if_pos (by omega)]
      simp [hend]
    · rw [if_neg (by omega)]
      simp [hend, hgot]

/-- A continuation chunk skips the extended timestamp `m` stands for if the entry has that very timestamp. -/
theorem skipExtended_extendedBytes {m e : ChunkStream} {rw : ReadWriter} {rest : Bytes}
    (hexted : e.exted = decide (0xffffff ≤ m.timestamp)) (hts : m.timestamp < 2 ^ 32)
    (hsame : 0xffffff ≤ m.timestamp → e.timestamp = m.timestamp) (hu : rw.unread = m.extendedBytes ++ rest)
    (pool : Pool) : e.skipExtended (rw, pool) = .ok e (rw.advance rest, pool) := by
  by_cases hext : 0xffffff ≤ m.timestamp
  · have hbytes : m.extendedBytes = beBytes 4 m.timestamp := if_pos hext
    have hexted : e.exted = true := hexted.trans (decide_eq_true hext)
    have hpeek : rw.peek 4 = .ok (beBytes 4 m.timestamp) := by
      rw [ReadWriter.peek, hu, hbytes, if_pos (by simp)]
      simp
    have hdiscard : rw.discard 4 = rw.advance rest := by
      rw [ReadWriter.discard, ReadWriter.advance, hu, hbytes]
      simp
    have hread : beNat (beBytes 4 m.timestamp) = e.timestamp := by
      rw [beNat_beBytes_of_lt hts, hsame hext]
    simp only [ChunkStream.skipExtended, hexted, if_true, hpeek, hread, hdiscard]
  · have hexted : e.exted = false := hexted.trans (decide_eq_false hext)
    have hrw : rw.advance rest = rw := by
      rw [extendedBytes, if_neg hext, List.nil_append] at hu
      rw [ReadWriter.advance, ← hu]
    simp [ChunkStream.skipExtended, hexted, hrw]

end ChunkStream

open ChunkStream

namespace Conn

/-- The connection after a turn: the stream has moved on to `rest` and one entry is new. -/
def turned (conn : Conn) (rest : Bytes) (pool : Pool) (key : Nat) (e : ChunkStream) : Conn :=
  { conn with
    rw := conn.rw.advance rest
    pool := pool
    chunks := Function.update conn.chunks key (some e) }

/-- One turn on a chunk that opens a message. -/
theorem readTurn_first {conn : Conn} {m : ChunkStream} {payload rest : Bytes} (hm : m.Sendable)
    (he : conn.rw.readError = none) (hu : conn.rw.unread = m.chunkBytes 0 payload ++ rest)
    (hidle : ∀ e, conn.chunks (chunkKey m.csid) = some e → e.remain = 0)
    (hpayload : payload = m.data.take conn.remoteChunkSize) :
    ∃ e pool, Receiving m payload.length e ∧
      readTurn () conn = .ok (if payload.length = m.length then .inr e else .inl ())
        (conn.turned rest pool (chunkKey m.csid) e) := by
  have hlen := hm.length_le
  simp only [maxpoolsize] at hlen
  rw [chunkBytes_first m (by omega), List.append_assoc, List.append_assoc, List.append_assoc] at hu
  obtain ⟨h, rw1, hread, hshift, hand, hid⟩ := readBasic { m with format := 0 } (Nat.zero_le 3)
    hm.csid_ge hm.csid_le he hu
  dsimp only at hshift hand hid
  have hremain : ((conn.chunks (chunkKey m.csid)).getD {}).remain = 0 := by
    cases hc : conn.chunks (chunkKey m.csid) with
    | none => rfl
    | some e => exact hidle e hc
  set e0 := (conn.chunks (chunkKey m.csid)).getD {} with he0
  have hfull : readFull { e0 with tmpFromat := 0, csid := m.csid }
      (conn.rw.advance (m.fullHeaderBytes ++ (m.extendedBytes ++ (payload ++ rest)))) = _ :=
    readFull_fullHeader hm.slotted he rfl
  obtain ⟨pool, hnew⟩ := new_of_le (e := headed m e0) hm.length_le (conn.rw.advance (payload ++ rest)) conn.pool
  have hfirst : payload = (m.data.drop 0).take conn.remoteChunkSize := hpayload
  have hpu : (conn.rw.advance (payload ++ rest)).unread = payload ++ rest := rfl
  have hpe : (conn.rw.advance (payload ++ rest)).readError = none := he
  obtain ⟨e, hrecv, hpay⟩ := (receiving_zero hm e0).readPayload hm hm.length_pos hfirst hpe hpu pool
  rw [Nat.zero_add] at hrecv
  refine ⟨e, pool, hrecv, ?_⟩
  have hidx := hid { e0 with tmpFromat := 0 }
  simp only [readTurn, hread, hshift, hand, ← he0, readChunk]
  rw [if_neg (by simp [hremain])]
  simp only [hidx, readHeader, hfull, Call.bind_apply, ReadWriter.advance_advance, hnew, hpay, full, hrecv.got,
    decide_eq_true_eq, Function.update_idem, turned]

/-- One turn on a chunk of format 3 whose entry is in the midst of a message. -/
theorem readTurn_midst {conn : Conn} {m e : ChunkStream} {tail : Bytes} (hlo : 2 ≤ m.csid) (hhi : m.csid ≤ 65599)
    (hentry : conn.chunks (chunkKey m.csid) = some e) (hremain : e.remain ≠ 0) (he : conn.rw.readError = none)
    (hu : conn.rw.unread = basicHeaderBytes { m with format := 3 } ++ tail) {e' : ChunkStream} {rest : Bytes}
    (hchunk : (skipExtended { e with csid := m.csid, tmpFromat := 3 } >>=
      fun e => e.readPayload conn.remoteChunkSize) (conn.rw.advance tail, conn.pool) =
        .ok e' (conn.rw.advance rest, conn.pool)) :
    readTurn () conn = .ok (if e'.full then .inr e' else .inl ())
      (conn.turned rest conn.pool (chunkKey m.csid) e') := by
  obtain ⟨h, rw1, hread, hshift, hand, hid⟩ := readBasic { m with format := 3 } (le_refl 3) hlo hhi he hu
  dsimp only at hshift hand hid
  have hidx := hid { e with tmpFromat := 3 }
  have hheader : readHeader { e with csid := m.csid, tmpFromat := 3 } =
      skipExtended { e with csid := m.csid, tmpFromat := 3 } := by
    funext s
    simp only [readHeader, if_neg hremain]
  simp only [readTurn, hread, hshift, hand, hentry, Option.getD_some, readChunk]
  rw [if_neg (by simp)]
  simp only [hidx, hheader, hchunk, Function.update_idem, turned]

/-- One turn on a chunk that continues the message its entry is in the midst of. -/
theorem readTurn_continue {conn : Conn} {m e : ChunkStream} {o : Nat} {payload rest : Bytes}
    (hm : m.Sendable) (hentry : conn.chunks (chunkKey m.csid) = some e) (hr : Receiving m o e)
    (ho : o < m.length) (he : conn.rw.readError = none)
    (hu : conn.rw.unread = m.chunkBytes 3 payload ++ rest)
    (hpayload : payload = (m.data.drop o).take conn.remoteChunkSize) :
    ∃ e', Receiving m (o + payload.length) e' ∧
      readTurn () conn = .ok (if o + payload.length = m.length then .inr e' else .inl ())
        (conn.turned rest conn.pool (chunkKey m.csid) e') := by
  rw [chunkBytes_continue m, List.append_assoc, List.append_assoc] at hu
  have hremain : e.remain ≠ 0 := by
    rw [hr.remain]
    omega
  have hr' : Receiving m o { e with csid := m.csid, tmpFromat := 3 } :=
    ⟨hr.format, rfl, hr.timestamp, hr.length, hr.typeID, hr.streamID, hr.exted, hr.index, hr.remain, hr.got, hr.data⟩
  have hxu : (conn.rw.advance (m.extendedBytes ++ (payload ++ rest))).unread =
      m.extendedBytes ++ (payload ++ rest) := rfl
  have hpu : (conn.rw.advance (payload ++ rest)).unread = payload ++ rest := rfl
  have hpe : (conn.rw.advance (payload ++ rest)).readError = none := he
  have hskip := skipExtended_extendedBytes hr'.exted hm.timestamp_lt (fun _ => hr'.timestamp) hxu conn.pool
  obtain ⟨e', hrecv, hpay⟩ := hr'.readPayload hm ho hpayload hpe hpu conn.pool
  rw [ReadWriter.advance_advance] at hskip hpay
  refine ⟨e', hrecv, ?_⟩
  rw [readTurn_midst hm.csid_ge hm.csid_le hentry hremain he hu ((Call.bind_of_ok hskip).trans hpay), full, hrecv.got]
  simp only [decide_eq_true_eq]

end Conn

end Livego
