import Livego.RtmpSession
import Mathlib.Data.List.Chain

/-! Messages with compressed headers: a message leaves out what is as in the message before it on its chunk stream, down
to the delta of its timestamp. What is left out stands in the entry of the chunk stream. -/

namespace Livego

open Endian Fallible ReadWriter ChunkStream

namespace ChunkStream

/-- The message header of a chunk of each format, up to the extended timestamp. -/
def headerBytes (cs : ChunkStream) (format : Nat) : Bytes :=
  match format with
  | 0 => cs.fullHeaderBytes
  | 1 => beBytes 3 (min cs.timestamp 0xffffff) ++ (beBytes 3 cs.length ++ beBytes 1 cs.typeID)
  | 2 => beBytes 3 (min cs.timestamp 0xffffff)
  | _ => []

/-- `writeHeader` puts before the bytes of a chunk what its format says. -/
theorem chunkBytes_eq (cs : ChunkStream) {format : Nat} (hf : format ≤ 3) (hlen : cs.length ≤ 0xffffff)
    (payload : Bytes) :
    cs.chunkBytes format payload =
      basicHeaderBytes { cs with format } ++ (cs.headerBytes format ++ (cs.extendedBytes ++ payload)) := by
  have hts : (if cs.timestamp > 0xffffff then 0xffffff else cs.timestamp) = min cs.timestamp 0xffffff := by
    split_ifs <;> omega
  have hext : ∀ (format : Nat) (w : ReadWriter), writeExtended { cs with format } (min cs.timestamp 0xffffff) w =
      w.write cs.extendedBytes := fun format w => writeExtended_of_min { cs with format } w
  have hcases : format = 0 ∨ format = 1 ∨ format = 2 ∨ format = 3 := by omega
  rcases hcases with rfl | rfl | rfl | rfl
  · exact chunkBytes_first cs hlen payload
  · rw [chunkBytes, writeHeader]
    simp only [Nat.reduceEqDiff, if_false, if_true, hts, hext, if_neg (not_lt.mpr hlen), writeBasicHeader_eq,
      writeUintBE_eq, write_write, headerBytes]
    simp [ReadWriter.write, ReadWriter.output]
  · rw [chunkBytes, writeHeader]
    simp only [Nat.reduceEqDiff, if_false, if_true, hts, hext, writeBasicHeader_eq, writeUintBE_eq, write_write,
      headerBytes]
    simp [ReadWriter.write, ReadWriter.output]
  · exact chunkBytes_continue cs payload

theorem readUintBE_min {m : ChunkStream} {rw : ReadWriter} (he : rw.readError = none) (tail : Bytes) :
    (rw.advance (beBytes 3 (min m.timestamp 0xffffff) ++ tail)).readUintBE 3 =
      (min m.timestamp 0xffffff, rw.advance tail) :=
  readUintBE_advance (by decide) (by omega) he

/-- A header of format 1 is read back: the field that stands for the timestamp of `m` is added to the one before. -/
theorem readSameStream_header {m e : ChunkStream} {rw : ReadWriter} {rest : Bytes} (hm : m.Slotted)
    (he : rw.readError = none) :
    e.readSameStream (rw.advance (m.headerBytes 1 ++ (m.extendedBytes ++ rest))) =
      ({ e with
          format := e.tmpFromat
          length := m.length
          typeID := m.typeID
          exted := decide (0xffffff ≤ m.timestamp)
          timeDelta := m.timestamp
          timestamp := u32 (e.timestamp + m.timestamp) }, rw.advance rest) := by
  have hlen := hm.length_le
  have h2 : (rw.advance (beBytes 3 m.length ++ (beBytes 1 m.typeID ++ (m.extendedBytes ++ rest)))).readUintBE 3 = _ :=
    readUintBE_advance (by decide) (by omega) he
  have h3 : (rw.advance (beBytes 1 m.typeID ++ (m.extendedBytes ++ rest))).readUintBE 1 = _ :=
    readUintBE_advance (by decide) hm.typeID_lt he
  simp only [readSameStream, headerBytes, List.append_assoc, readUintBE_min he, h2, h3,
    readExtended_min hm.timestamp_lt he]

theorem readDelta_header {m e : ChunkStream} {rw : ReadWriter} {rest : Bytes} (hm : m.Slotted)
    (he : rw.readError = none) :
    e.readDelta (rw.advance (m.headerBytes 2 ++ (m.extendedBytes ++ rest))) =
      ({ e with
          format := e.tmpFromat
          exted := decide (0xffffff ≤ m.timestamp)
          timeDelta := m.timestamp
          timestamp := u32 (e.timestamp + m.timestamp) }, rw.advance rest) := by
  simp only [readDelta, headerBytes, readUintBE_min he, readExtended_min hm.timestamp_lt he]

/-- A message start of format 3 repeats the delta of the message before, unless that stands in the extended field. -/
theorem readRepeated_header {m e : ChunkStream} {rw : ReadWriter} {rest : Bytes} (hts : m.timestamp < 2 ^ 32)
    (hformat : e.format = 1 ∨ e.format = 2) (hdelta : e.timeDelta = m.timestamp)
    (hexted : e.exted = decide (0xffffff ≤ m.timestamp)) (he : rw.readError = none) :
    e.readRepeated (rw.advance (m.extendedBytes ++ rest)) =
      ({ e with timestamp := u32 (e.timestamp + m.timestamp) }, rw.advance rest) := by
  have htimedet : (if e.exted = true then (rw.advance (m.extendedBytes ++ rest)).readUintBE 4
      else (e.timeDelta, rw.advance (m.extendedBytes ++ rest))) = (m.timestamp, rw.advance rest) := by
    rw [hexted]
    by_cases hext : 0xffffff ≤ m.timestamp
    · rw [if_pos (decide_eq_true hext), extendedBytes, if_pos hext]
      exact readUintBE_advance (by decide) (by omega) he
    · rw [if_neg (by simpa using hext), hdelta, extendedBytes, if_neg hext, List.nil_append]
  rcases hformat with h | h <;> simp only [readRepeated, h, htimedet]

end ChunkStream

/-- A message as it is sent: the format of the header before its first chunk, and what the timestamp field of the header
stands for, the timestamp itself (format 0) or what has been added to the one before. -/
structure Frame where
  format : Nat
  field : Nat
  m : ChunkStream

namespace Frame

/-- The message with the field in the place of its timestamp, which is what `writeHeader` is given. -/
def wire (f : Frame) : ChunkStream := { f.m with timestamp := f.field }

/-- A first chunk with the header of the frame, and the chunks that continue it: each of them repeats the extended
timestamp. -/
def bytes (f : Frame) (chunkSize : Nat) : Bytes :=
  let payload := f.m.data.take chunkSize
  f.wire.chunkBytes f.format payload ++ f.wire.chunksFrom chunkSize (f.m.length / chunkSize + 1) payload.length

/-- The fields of the frame fit their slots. -/
structure Fits (f : Frame) : Prop where
  format_le : f.format ≤ 3
  slotted : f.wire.Slotted
  length_eq : f.m.length = f.m.data.length
  csid_ge : 2 ≤ f.m.csid
  csid_le : f.m.csid ≤ 65599

/-- The chunk stream whose last message has left the entry `e` can go on with this frame: what the header leaves out is
in the entry. -/
structure Opens (f : Frame) (e : ChunkStream) : Prop where
  idle : e.remain = 0
  timestamp : f.m.timestamp = if f.format = 0 then f.field else u32 (e.timestamp + f.field)
  streamID : f.format ≠ 0 → f.m.streamID = e.streamID
  length : 2 ≤ f.format → f.m.length = e.length
  typeID : 2 ≤ f.format → f.m.typeID = e.typeID
  delta : f.format = 3 → (e.format = 1 ∨ e.format = 2) ∧ e.timeDelta = f.field ∧
    e.exted = decide (0xffffff ≤ f.field)

/-- The entry once it has read the header of the frame. -/
def headed (f : Frame) (e : ChunkStream) : ChunkStream :=
  { e with
    format := if f.format = 3 then e.format else f.format
    csid := f.m.csid
    timestamp := f.m.timestamp
    length := f.m.length
    typeID := f.m.typeID
    streamID := f.m.streamID
    timeDelta := if f.format = 0 then e.timeDelta else f.field
    exted := decide (0xffffff ≤ f.field)
    tmpFromat := f.format }

/-- The header of a frame is read back, whichever of the four it is. -/
theorem readHeader_eq {f : Frame} {e : ChunkStream} {rw : ReadWriter} {rest : Bytes} (hf : f.Fits) (ho : f.Opens e)
    (he : rw.readError = none) (pool : Pool) :
    readHeader { e with tmpFromat := f.format, csid := f.m.csid }
        (rw.advance (f.wire.headerBytes f.format ++ (f.wire.extendedBytes ++ rest)), pool) =
      (f.headed e).new (rw.advance rest, pool) := by
  have hformat := hf.format_le
  have hfield : f.wire.timestamp = f.field := rfl
  have hts := ho.timestamp
  have hcases : f.format = 0 ∨ f.format = 1 ∨ f.format = 2 ∨ f.format = 3 := by omega
  rcases hcases with h | h | h | h
  · have hfull : readFull { e with tmpFromat := 0, csid := f.m.csid }
        (rw.advance (f.wire.headerBytes 0 ++ (f.wire.extendedBytes ++ rest))) = _ :=
      readFull_fullHeader (m := f.wire) hf.slotted he rfl
    rw [h, if_pos rfl] at hts
    simp only [readHeader, h, hfull]
    congr 1
    simp only [headed, ChunkStream.headed, h, hts, wire]
    rfl
  · have hsid := ho.streamID (by omega)
    rw [h, if_neg (by decide)] at hts
    simp only [readHeader, h, readSameStream_header hf.slotted he, hfield]
    congr 1
    simp only [headed, h, hts, hsid, wire]
    rfl
  · have hsid := ho.streamID (by omega)
    have hlen := ho.length (by omega)
    have htype := ho.typeID (by omega)
    rw [h, if_neg (by decide)] at hts
    simp only [readHeader, h, readDelta_header hf.slotted he, hfield]
    congr 1
    simp only [headed, h, hts, hsid, hlen, htype]
    rfl
  · have hsid := ho.streamID (by omega)
    have hlen := ho.length (by omega)
    have htype := ho.typeID (by omega)
    obtain ⟨hbefore, hdelta, hexted⟩ := ho.delta h
    have hrepeated : readRepeated { e with tmpFromat := 3, csid := f.m.csid }
        (rw.advance (f.wire.extendedBytes ++ rest)) = _ :=
      readRepeated_header hf.slotted.timestamp_lt hbefore hdelta hexted he
    rw [h, if_neg (by decide)] at hts
    simp only [readHeader, h, if_pos ho.idle, headerBytes, List.nil_append, hrepeated, hfield]
    congr 1
    simp only [headed, h, hts, hsid, hlen, htype, hdelta, hexted]
    rfl

/-- The entry of a chunk stream when `o` bytes of a frame's message have arrived. -/
structure Arriving (f : Frame) (o : Nat) (e : ChunkStream) : Prop where
  csid : e.csid = f.m.csid
  timestamp : e.timestamp = f.m.timestamp
  length : e.length = f.m.length
  typeID : e.typeID = f.m.typeID
  streamID : e.streamID = f.m.streamID
  index : e.index = o
  remain : e.remain = f.m.length - o
  got : o < f.m.length → e.got = false
  data : e.data = f.m.data.take o ++ List.replicate (f.m.length - o) 0
  exted : e.exted = decide (0xffffff ≤ f.field)
  format : if f.format = 0 then e.format = 0 else (e.format = 1 ∨ e.format = 2) ∧ e.timeDelta = f.field

theorem arriving_headed {f : Frame} {e : ChunkStream} (hf : f.Fits) (ho : f.Opens e) :
    f.Arriving 0 (f.headed e).emptied := by
  have hformat := hf.format_le
  refine ⟨rfl, rfl, rfl, rfl, rfl, rfl, rfl, fun _ => rfl, rfl, rfl, ?_⟩
  simp only [headed, emptied]
  by_cases hzero : f.format = 0
  · rw [if_pos hzero, if_neg (by omega)]
    exact hzero
  · rw [if_neg hzero, if_neg hzero]
    refine ⟨?_, rfl⟩
    by_cases hthree : f.format = 3
    · rw [if_pos hthree]
      exact (ho.delta hthree).1
    · rw [if_neg hthree]
      omega

theorem Arriving.wellFormed {f : Frame} {o : Nat} {e : ChunkStream} (h : f.Arriving o e) (hf : f.Fits)
    (hlen : f.m.length ≤ maxpoolsize) (ho : o ≤ f.m.length) : WellFormed e := by
  have hdata := hf.length_eq
  refine ⟨?_, ?_, ?_, ?_⟩
  · rw [h.data, h.length, List.length_append, List.length_take, List.length_replicate]
    omega
  · rw [h.index, h.remain, h.length]
    omega
  · rw [h.length]
    exact hlen
  · intro hne
    rw [h.remain] at hne
    exact h.got (by omega)

/-- The bytes of a chunk go behind those that have arrived, and complete the message if they are its last. -/
theorem Arriving.counted {f : Frame} {o n : Nat} {e : ChunkStream} {payload : Bytes} (h : f.Arriving o e) (hf : f.Fits)
    (ho : o ≤ f.m.length) (hgot : e.got = false) (hpayload : payload = (f.m.data.drop o).take n) :
    f.Arriving (o + payload.length) (e.counted payload) ∧
      (e.counted payload).full = decide (o + payload.length = f.m.length) := by
  have hlen := hf.length_eq
  have hplen : payload.length ≤ f.m.length - o := by
    rw [hpayload, List.length_take, List.length_drop]
    omega
  have htake : (f.m.data.take o).length = o := by
    rw [List.length_take]
    omega
  have hfull : (if e.remain - payload.length = 0 then true else e.got) = decide (o + payload.length = f.m.length) := by
    rw [h.remain, hgot]
    by_cases hend : o + payload.length = f.m.length
    · rw [if_pos (by omega), decide_eq_true hend]
    · rw [if_neg (by omega), decide_eq_false hend]
  refine ⟨⟨h.csid, h.timestamp, h.length, h.typeID, h.streamID, ?_, ?_, ?_, ?_, h.exted, h.format⟩, hfull⟩
  · show e.index + payload.length = o + payload.length
    rw [h.index]
  · show e.remain - payload.length = f.m.length - (o + payload.length)
    rw [h.remain, Nat.sub_sub]
  · intro hlt
    exact hfull.trans (decide_eq_false (by omega))
  · show e.data.take e.index ++ payload ++ e.data.drop (e.index + payload.length) = _
    rw [h.data, h.index, List.take_left' htake, List.drop_append, htake, List.drop_eq_nil_of_le (by omega),
      List.nil_append, List.drop_replicate, List.take_add, hpayload, List.length_take, ← List.take_eq_take_min,
      ← List.length_take, ← hpayload]
    congr 2
    omega

theorem Arriving.readPayload {f : Frame} {o chunkSize : Nat} {e : ChunkStream} {rw : ReadWriter} {payload : Bytes}
    (h : f.Arriving o e) (hf : f.Fits) (hlen : f.m.length ≤ maxpoolsize) (ho : o ≤ f.m.length)
    (he : rw.readError = none) (hpayload : payload = (f.m.data.drop o).take chunkSize) (rest : Bytes) (pool : Pool) :
    e.readPayload chunkSize (rw.advance (payload ++ rest), pool) =
      .ok (e.counted payload) (rw.advance rest, pool) := by
  have hmin : min e.remain chunkSize = payload.length := by
    rw [h.remain, hpayload, List.length_take, List.length_drop, ← hf.length_eq]
    exact min_comm _ _
  have hread : (rw.advance (payload ++ rest)).read payload.length = _ := read_append he rfl
  rw [readPayload_eq (h.wellFormed hf hlen ho), hmin, hread]
  rfl

/-- Once all bytes have arrived the entry holds the message. -/
theorem Arriving.message_eq {f : Frame} {e : ChunkStream} (hf : f.Fits) (h : f.Arriving f.m.length e) :
    e.message = f.m.message := by
  simp only [message, h.csid, h.typeID, h.streamID, h.timestamp, h.length, h.data, Nat.sub_self, List.replicate_zero,
    List.append_nil, hf.length_eq, List.take_length]

/-- The continuation chunks of the frame carry no extended timestamp, or the one that the reader looks for. -/
def Skips (f : Frame) : Prop := 0xffffff ≤ f.field → f.m.timestamp = f.field

end Frame

namespace Conn

/-- The entry in which a chunk stream finds what its last message has left. -/
def entryOf (conn : Conn) (csid : Nat) : ChunkStream := (conn.chunks (chunkKey csid)).getD {}

/-- One turn on the first chunk of a frame. -/
theorem readTurn_opens {conn : Conn} {f : Frame} {payload rest : Bytes} (hf : f.Fits) (hlen : f.m.length ≤ maxpoolsize)
    (ho : f.Opens (conn.entryOf f.m.csid)) (he : conn.rw.readError = none)
    (hu : conn.rw.unread = f.wire.chunkBytes f.format payload ++ rest)
    (hpayload : payload = f.m.data.take conn.remoteChunkSize) :
    ∃ e pool, f.Arriving payload.length e ∧
      readTurn () conn = .ok (if payload.length = f.m.length then .inr e else .inl ())
        (conn.turned rest pool (chunkKey f.m.csid) e) := by
  rw [chunkBytes_eq f.wire hf.format_le hf.slotted.length_le, List.append_assoc, List.append_assoc,
    List.append_assoc] at hu
  obtain ⟨h, rw1, hread, hshift, hand, hid⟩ := readBasic { f.wire with format := f.format } hf.format_le
    hf.csid_ge hf.csid_le he hu
  dsimp only at hshift hand hid
  set e0 := conn.entryOf f.m.csid with he0
  have hidx := hid { e0 with tmpFromat := f.format }
  have hheader : readHeader { e0 with tmpFromat := f.format, csid := f.m.csid }
      (conn.rw.advance (f.wire.headerBytes f.format ++ (f.wire.extendedBytes ++ (payload ++ rest))), conn.pool) = _ :=
    Frame.readHeader_eq hf ho he conn.pool
  obtain ⟨pool, hnew⟩ := new_of_le (e := f.headed e0) hlen (conn.rw.advance (payload ++ rest)) conn.pool
  have hfirst : payload = (f.m.data.drop 0).take conn.remoteChunkSize := hpayload
  obtain ⟨harriving, hfull⟩ := (Frame.arriving_headed hf ho).counted hf (Nat.zero_le _) rfl hfirst
  rw [Nat.zero_add] at harriving hfull
  have hpay := (Frame.arriving_headed hf ho).readPayload hf hlen (Nat.zero_le _) he hfirst rest pool
  refine ⟨_, pool, harriving, ?_⟩
  have hentry : (conn.chunks (chunkKey f.m.csid)).getD {} = e0 := rfl
  have hcsid : f.wire.csid = f.m.csid := rfl
  simp only [hcsid] at hand hidx
  simp only [readTurn, hread, hshift, hand, hentry, readChunk]
  rw [if_neg (by simp [ho.idle])]
  simp only [hidx, hheader, Call.bind_apply, hnew, hpay, hfull, decide_eq_true_eq, Function.update_idem, turned]

/-- One turn on a chunk that continues the message of a frame. -/
theorem readTurn_continues {f : Frame} (hf : f.Fits) (hlen : f.m.length ≤ maxpoolsize) (hskips : f.Skips) :
    Continues f.Arriving f.wire := by
  intro conn e o payload rest hentry hr ho he hu hpayload
  have ho' : o < f.m.length := ho
  rw [chunkBytes_continue f.wire, List.append_assoc, List.append_assoc] at hu
  have hremain : e.remain ≠ 0 := by
    rw [hr.remain]
    omega
  have hr' : f.Arriving o { e with csid := f.wire.csid, tmpFromat := 3 } :=
    ⟨rfl, hr.timestamp, hr.length, hr.typeID, hr.streamID, hr.index, hr.remain, hr.got, hr.data, hr.exted, hr.format⟩
  have hxu : (conn.rw.advance (f.wire.extendedBytes ++ (payload ++ rest))).unread =
      f.wire.extendedBytes ++ (payload ++ rest) := rfl
  have hskip := skipExtended_extendedBytes hr'.exted hf.slotted.timestamp_lt
    (fun hext => hr'.timestamp.trans (hskips hext)) hxu conn.pool
  rw [advance_advance] at hskip
  obtain ⟨harriving, hfull⟩ := hr'.counted hf ho'.le (hr'.got ho') hpayload
  have hpay := hr'.readPayload hf hlen ho'.le he hpayload rest conn.pool
  refine ⟨_, harriving, ?_⟩
  rw [readTurn_midst (m := f.wire) hf.csid_ge hf.csid_le hentry hremain he hu
    ((Call.bind_of_ok hskip).trans hpay), hfull]
  simp only [decide_eq_true_eq]
  rfl

/-- Reading the chunks of a frame on an entry that can go on with it returns its message. -/
theorem read_frame {conn : Conn} {f : Frame} {rest : Bytes} (h : Inv conn) (he : conn.rw.readError = none)
    (hsize : 0 < conn.remoteChunkSize) (hf : f.Fits) (hlen : f.m.length ≤ maxpoolsize) (hc : ControlReadable f.m)
    (ho : f.Opens (conn.entryOf f.m.csid)) (hskips : f.m.length ≤ conn.remoteChunkSize ∨ f.Skips)
    (hu : conn.rw.unread = f.bytes conn.remoteChunkSize ++ rest) :
    ∃ c conn', read conn = .ok c conn' ∧ c.message = f.m.message ∧ Inv conn' ∧ conn'.rw.readError = none ∧
      conn'.rw.unread = rest ∧ conn'.remoteChunkSize = sizeAfter f.m conn.remoteChunkSize ∧
        f.Arriving f.m.length (conn'.entryOf f.m.csid) := by
  have hread : ∃ e pool, f.Arriving f.m.length e ∧
      read conn = finish e (conn.turned rest pool (chunkKey f.m.csid) e) := by
    rw [Frame.bytes, List.append_assoc] at hu
    obtain ⟨e, pool, hr, hturn⟩ := readTurn_opens hf hlen ho he hu rfl
    have hdiv := Nat.lt_div_mul_add hsize (a := f.m.length)
    have hplen : (f.m.data.take conn.remoteChunkSize).length = min conn.remoteChunkSize f.m.length := by
      rw [List.length_take, hf.length_eq]
    have hturns : f.m.length ≤ (f.m.data.take conn.remoteChunkSize).length +
        (f.m.length / conn.remoteChunkSize + 1) * conn.remoteChunkSize := by
      rw [Nat.add_mul, Nat.one_mul]
      omega
    rcases hskips with hone | hskips
    · have hend : (f.m.data.take conn.remoteChunkSize).length = f.m.length := by omega
      have hrest : f.wire.chunksFrom conn.remoteChunkSize (f.m.length / conn.remoteChunkSize + 1) f.m.length = [] :=
        if_pos rfl
      rw [hend] at hr hturn
      rw [if_pos rfl, hrest, List.nil_append] at hturn
      exact ⟨e, pool, hr, by rw [read_eq, hturn]⟩
    · obtain ⟨e', hr', hread⟩ := read_opened (m := f.wire) (readTurn_continues hf hlen hskips) hf.length_eq hsize he
        rfl hr hturns hturn
      exact ⟨e', pool, hr', hread⟩
  obtain ⟨e, pool, hr, hread⟩ := hread
  have hmessage := hr.message_eq hf
  obtain ⟨conn', hfinish, hsame⟩ := finish_eq (conn.turned rest pool (chunkKey f.m.csid) e)
    (controlReadable_congr hmessage hc) h.chunkSize_ne
  rw [hfinish] at hread
  refine ⟨e, conn', hread, hmessage, (read_sat h).of_ok hread, hsame.readError.trans he, hsame.unread, ?_, ?_⟩
  · rw [hsame.remoteChunkSize]
    exact sizeAfter_congr hmessage _
  · have hentry : conn'.entryOf f.m.csid = e := by
      rw [entryOf, hsame.chunks]
      show (Function.update conn.chunks (chunkKey f.m.csid) (some e) (chunkKey f.m.csid)).getD {} = e
      rw [Function.update_self]
      rfl
    rw [hentry]
    exact hr

end Conn

namespace Frame

/-- The header of a frame may leave out what is as in the message before it on the chunk stream. -/
structure Follows (before f : Frame) : Prop where
  timestamp : f.m.timestamp = if f.format = 0 then f.field else u32 (before.m.timestamp + f.field)
  streamID : f.format ≠ 0 → f.m.streamID = before.m.streamID
  length : 2 ≤ f.format → f.m.length = before.m.length
  typeID : 2 ≤ f.format → f.m.typeID = before.m.typeID
  delta : f.format = 3 → before.format ≠ 0 ∧ f.field = before.field

/-- The entry that the message before has left serves a frame that follows it. -/
theorem Arriving.opens {before f : Frame} {e : ChunkStream} (h : before.Arriving before.m.length e)
    (hf : before.Follows f) : f.Opens e := by
  refine ⟨?_, ?_, ?_, ?_, ?_, ?_⟩
  · rw [h.remain, Nat.sub_self]
  · rw [h.timestamp]
    exact hf.timestamp
  · rw [h.streamID]
    exact hf.streamID
  · rw [h.length]
    exact hf.length
  · rw [h.typeID]
    exact hf.typeID
  · intro hthree
    obtain ⟨hne, hfield⟩ := hf.delta hthree
    have hformat := h.format
    rw [if_neg hne] at hformat
    exact ⟨hformat.1, hfield ▸ hformat.2, hfield ▸ h.exted⟩

/-- A frame of a message on the chunk stream `csid` whose timestamp or delta needs no extended field. -/
structure Plain (csid : Nat) (f : Frame) : Prop where
  fits : f.Fits
  csid_eq : f.m.csid = csid
  length_le : f.m.length ≤ maxpoolsize
  field_lt : f.field < 0xffffff
  not_control : f.m.typeID ≠ idSetChunkSize ∧ f.m.typeID ≠ idWindowAckSize

end Frame

namespace Conn

theorem reads_following {frames : List Frame} {csid : Nat} {rest : Bytes} {conn : Conn} (h : Inv conn)
    (he : conn.rw.readError = none) (hsize : 0 < conn.remoteChunkSize) (hplain : ∀ f ∈ frames, f.Plain csid)
    (hchain : frames.IsChain Frame.Follows) (hopens : ∀ f ∈ frames.head?, f.Opens (conn.entryOf csid))
    (hu : conn.rw.unread = frames.flatMap (fun f => f.bytes conn.remoteChunkSize) ++ rest) :
    Reads (fun conn' => conn'.rw.unread = rest) (frames.map fun f => f.m.message) conn := by
  induction frames generalizing conn with
  | nil => exact hu
  | cons f frames ih =>
      have hp := hplain f List.mem_cons_self
      have hcsid := hp.csid_eq
      have hc : ControlReadable f.m := fun htype => absurd htype (not_or.mpr hp.not_control)
      have hskips : f.Skips := fun hext => absurd hext (not_le.mpr hp.field_lt)
      rw [List.flatMap_cons, List.append_assoc] at hu
      obtain ⟨c, conn', hread, hmessage, hinv, he', hrest, hsame, harrived⟩ := read_frame h he hsize hp.fits
        hp.length_le hc (hcsid ▸ hopens f rfl) (Or.inr hskips) hu
      have hsize' : conn'.remoteChunkSize = conn.remoteChunkSize := by
        rw [hsame, sizeAfter, if_neg hp.not_control.1]
      refine ⟨c, conn', hread, hmessage, ?_⟩
      refine ih hinv he' (hsize' ▸ hsize) (fun g hg => hplain g (List.mem_cons_of_mem f hg)) hchain.of_cons ?_
        (by rw [hsize']; exact hrest)
      intro g hg
      cases frames with
      | nil => cases hg
      | cons g' frames =>
          cases hg
          rw [hcsid] at harrived
          exact harrived.opens (List.isChain_cons_cons.mp hchain).1

/-- Messages on one chunk stream, the first with a full header and each later one with any header that leaves out only
what is as in the message before, are read as they are, with their absolute timestamps. -/
theorem reads_frames {first : Frame} {frames : List Frame} {csid : Nat} {rest : Bytes} {conn : Conn} (h : Inv conn)
    (he : conn.rw.readError = none) (hsize : 0 < conn.remoteChunkSize) (hidle : (conn.entryOf csid).remain = 0)
    (hplain : ∀ f ∈ first :: frames, f.Plain csid) (hformat : first.format = 0)
    (hfirst : first.m.timestamp = first.field) (hchain : (first :: frames).IsChain Frame.Follows)
    (hu : conn.rw.unread = (first :: frames).flatMap (fun f => f.bytes conn.remoteChunkSize) ++ rest) :
    Reads (fun conn' => conn'.rw.unread = rest) ((first :: frames).map fun f => f.m.message) conn := by
  refine reads_following h he hsize hplain hchain ?_ hu
  intro f hf
  cases hf
  refine ⟨hidle, ?_, fun hne => absurd hformat hne, ?_, ?_, ?_⟩
  · rw [if_pos hformat]
    exact hfirst
  · intro hle
    omega
  · intro hle
    omega
  · intro hthree
    omega

/-- Video messages with each of the headers; the first of them takes two chunks of two bytes. -/
def sampleFrames : List Frame :=
  let m : ChunkStream := { csid := 6, timestamp := 1000, length := 3, typeID := 9, streamID := 1, data := [1, 2, 3] }
  [⟨0, 1000, m⟩, ⟨1, 40, { m with timestamp := 1040, length := 1, data := [4] }⟩,
    ⟨3, 40, { m with timestamp := 1080, length := 1, data := [5] }⟩,
    ⟨2, 0, { m with timestamp := 1080, length := 1, data := [6] }⟩,
    ⟨3, 0, { m with timestamp := 1080, length := 1, data := [7] }⟩]

theorem reads_frames_sample :
    Reads (fun conn' => conn'.rw.unread = [])
      (sampleFrames.map fun f => f.m.message)
      { newConn { unread := sampleFrames.flatMap fun f => f.bytes 2 } with remoteChunkSize := 2 } := by
  have hplain : ∀ f ∈ sampleFrames, f.Plain 6 := by
    intro f hf
    simp only [sampleFrames, List.mem_cons, List.not_mem_nil, or_false] at hf
    rcases hf with rfl | rfl | rfl | rfl | rfl
    all_goals
      exact ⟨⟨by decide, ⟨by decide, by decide, by decide, by decide⟩, rfl, by decide, by decide⟩, rfl, by decide,
        by decide, by decide⟩
  refine reads_frames ⟨fun hne => absurd rfl hne, fun _ _ h => by simp [newConn] at h, by decide⟩ rfl
    (by decide) ?_ hplain rfl rfl ?_ (by simp [sampleFrames, newConn])
  · rfl
  · simp only [List.isChain_cons_cons, List.isChain_singleton, and_true]
    refine ⟨?_, ?_, ?_, ?_⟩ <;> constructor <;> decide

end Conn

end Livego
