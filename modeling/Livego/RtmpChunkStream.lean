import Livego.RtmpReadWriter

/-! The chunk codec: a message is written as one chunk with a full header and continuation chunks
that repeat nothing but the extended timestamp, and is read back chunk by chunk into a buffer taken
from a pool. -/

namespace Livego

open Fallible

/-- A buffer handed out by the pool: the backing array it lies in, and where. -/
structure Slice where
  buf : Nat
  off : Nat
  len : Nat
  deriving DecidableEq, Repr

/-- The current backing array, by number, and how much of it is handed out. -/
structure Pool where
  buf : Nat := 0
  pos : Nat := 0
  deriving DecidableEq, Repr

def maxpoolsize : Nat := 500 * 1024

/-- `none` is the slice expression going out of range. A fresh backing array always has `maxpoolsize`
bytes, whatever was asked for. -/
def Pool.get (size : Nat) (pool : Pool) : Option (Slice × Pool) :=
  let pool := if maxpoolsize < pool.pos + size then { buf := pool.buf + 1, pos := 0 } else pool
  if maxpoolsize < pool.pos + size then none
  else some (⟨pool.buf, pool.pos, size⟩, { pool with pos := pool.pos + size })

def tagAudio : Nat := 8
def tagVideo : Nat := 9
def tagScriptDataAmf0 : Nat := 18
def tagScriptDataAmf3 : Nat := 0xf

structure ChunkStream where
  format : Nat := 0
  csid : Nat := 0
  timestamp : Nat := 0
  length : Nat := 0
  typeID : Nat := 0
  streamID : Nat := 0
  timeDelta : Nat := 0
  exted : Bool := false
  index : Nat := 0
  remain : Nat := 0
  got : Bool := false
  tmpFromat : Nat := 0
  data : Bytes := []
  deriving DecidableEq, Repr

namespace ChunkStream

def full (cs : ChunkStream) : Bool := cs.got

/-! ### Writing -/

def writeBasicHeader (cs : ChunkStream) (w : ReadWriter) : ReadWriter :=
  let h := cs.format <<< 6
  if cs.csid < 64 then w.writeUintBE (h ||| cs.csid) 1
  else if cs.csid - 64 < 256 then (w.writeUintBE h 1).writeUintLE (cs.csid - 64) 1
  else if cs.csid - 64 < 65536 then (w.writeUintBE (h ||| 1) 1).writeUintLE (cs.csid - 64) 2
  else w

/-- At the label `END`: `ts` is the timestamp field, or the timestamp itself for format 3. -/
def writeExtended (cs : ChunkStream) (ts : Nat) (w : ReadWriter) : ReadWriter :=
  if ts ≥ 0xffffff then w.writeUintBE cs.timestamp 4 else w

def writeHeader (cs : ChunkStream) : Call GoError ReadWriter Unit := fun w =>
  let w := cs.writeBasicHeader w
  if cs.format = 3 then .ok () (cs.writeExtended cs.timestamp w)
  else
    let ts := if cs.timestamp > 0xffffff then 0xffffff else cs.timestamp
    let w := w.writeUintBE ts 3
    if cs.format = 2 then .ok () (cs.writeExtended ts w)
    else if cs.length > 0xffffff then .err (.errorf ("length=" ++ toString cs.length)) w
    else
      let w := (w.writeUintBE cs.length 3).writeUintBE cs.typeID 1
      if cs.format = 1 then .ok () (cs.writeExtended ts w)
      else .ok () (cs.writeExtended ts (w.writeUintLE cs.streamID 4))

/-- Audio goes out on chunk stream 4, video and metadata on chunk stream 6. -/
def assignCsid (cs : ChunkStream) : ChunkStream :=
  if cs.typeID = tagAudio then { cs with csid := 4 }
  else if cs.typeID = tagVideo ∨ cs.typeID = tagScriptDataAmf0 ∨ cs.typeID = tagScriptDataAmf3 then
    { cs with csid := 6 }
  else cs

/-- The loop of `writeChunk`, with `turns` turns left before the counter `i` passes `numChunks`. -/
def writeChunks (cs : ChunkStream) (chunkSize : Nat) :
    (turns i totalLen : Nat) → Call GoError ReadWriter Unit
  | 0, _, _ => pure ()
  | turns + 1, i, totalLen =>
    if totalLen = cs.length then pure ()
    else do
      writeHeader { cs with format := if i = 0 then 0 else 3 }
      let start := u32 (i * chunkSize)
      let left := sub32 (u32 cs.data.length) start
      let inc := if left ≤ chunkSize then left else chunkSize
      let stop := u32 (start + inc)
      -- the capacity of `data` is taken to be its length
      if stop < start ∨ cs.data.length < stop then Call.panic .sliceBounds
      else do
        Call.modify (·.write ((cs.data.drop start).take (stop - start)))
        writeChunks cs chunkSize turns (i + 1) (u32 (totalLen + inc))

def writeChunk (cs : ChunkStream) (chunkSize : Nat) : Call GoError ReadWriter Unit :=
  let cs := cs.assignCsid
  let chunkSize := u32 chunkSize
  if chunkSize = 0 then Call.panic .divideByZero
  else writeChunks cs chunkSize (cs.length / chunkSize + 1) 0 0

/-! ### Reading -/

/-- `new`: a buffer for the announced length. Pool memory is handed out once, so it is zero. -/
def new (cs : ChunkStream) : Call GoError (ReadWriter × Pool) ChunkStream := fun (r, pool) =>
  match pool.get cs.length with
  | none => .panic .sliceBounds
  | some (slice, pool) =>
    .ok { cs with got := false, index := 0, remain := cs.length, data := List.replicate slice.len 0 }
      (r, pool)

/-- The id of the 2-byte and the 3-byte form of the basic header. -/
def readBasicId (cs : ChunkStream) (r : ReadWriter) : ChunkStream × ReadWriter :=
  match cs.csid with
  | 0 =>
    let (id, r) := r.readUintLE 1
    ({ cs with csid := u32 (id + 64) }, r)
  | 1 =>
    let (id, r) := r.readUintLE 2
    ({ cs with csid := u32 (id + 64) }, r)
  | _ => (cs, r)

/-- The timestamp field read as `timestamp` is replaced by the extended one that it announces. -/
def readExtended (timestamp : Nat) (r : ReadWriter) : (Nat × Bool) × ReadWriter :=
  if timestamp = 0xffffff then
    let (timestamp, r) := r.readUintBE 4
    ((timestamp, true), r)
  else ((timestamp, false), r)

/-- Format 0: every field anew. -/
def readFull (cs : ChunkStream) (r : ReadWriter) : ChunkStream × ReadWriter :=
  let (timestamp, r) := r.readUintBE 3
  let (length, r) := r.readUintBE 3
  let (typeID, r) := r.readUintBE 1
  let (streamID, r) := r.readUintLE 4
  let ((timestamp, exted), r) := readExtended timestamp r
  ({ cs with format := cs.tmpFromat, timestamp, length, typeID, streamID, exted }, r)

/-- Format 1: a timestamp delta, a length and a type. -/
def readSameStream (cs : ChunkStream) (r : ReadWriter) : ChunkStream × ReadWriter :=
  let (timeStamp, r) := r.readUintBE 3
  let (length, r) := r.readUintBE 3
  let (typeID, r) := r.readUintBE 1
  let ((timeStamp, exted), r) := readExtended timeStamp r
  ({ cs with format := cs.tmpFromat, length, typeID, exted, timeDelta := timeStamp,
             timestamp := u32 (cs.timestamp + timeStamp) }, r)

/-- Format 2: a timestamp delta. -/
def readDelta (cs : ChunkStream) (r : ReadWriter) : ChunkStream × ReadWriter :=
  let (timeStamp, r) := r.readUintBE 3
  let ((timeStamp, exted), r) := readExtended timeStamp r
  ({ cs with format := cs.tmpFromat, exted, timeDelta := timeStamp,
             timestamp := u32 (cs.timestamp + timeStamp) }, r)

/-- Format 3 at a message start: everything is as in the message before. -/
def readRepeated (cs : ChunkStream) (r : ReadWriter) : ChunkStream × ReadWriter :=
  match cs.format with
  | 0 =>
    if cs.exted then
      let (timestamp, r) := r.readUintBE 4
      ({ cs with timestamp }, r)
    else (cs, r)
  | 1 | 2 =>
    let (timedet, r) := if cs.exted then r.readUintBE 4 else (cs.timeDelta, r)
    ({ cs with timestamp := u32 (cs.timestamp + timedet) }, r)
  | _ => (cs, r)

/-- Format 3 inside a message: an extended timestamp that is repeated here is skipped. -/
def skipExtended (cs : ChunkStream) : Call GoError (ReadWriter × Pool) ChunkStream := fun (r, pool) =>
  if cs.exted then
    match r.peek 4 with
    | .error e => .err e (r, pool)
    | .ok b =>
      if Endian.beNat b = cs.timestamp then .ok cs (r.discard 4, pool) else .ok cs (r, pool)
  else .ok cs (r, pool)

/-- The switch over the chunk format. -/
def readHeader (cs : ChunkStream) : Call GoError (ReadWriter × Pool) ChunkStream := fun (r, pool) =>
  match cs.tmpFromat with
  | 0 =>
    let (cs, r) := cs.readFull r
    cs.new (r, pool)
  | 1 =>
    let (cs, r) := cs.readSameStream r
    cs.new (r, pool)
  | 2 =>
    let (cs, r) := cs.readDelta r
    cs.new (r, pool)
  | 3 =>
    if cs.remain = 0 then
      let (cs, r) := cs.readRepeated r
      cs.new (r, pool)
    else cs.skipExtended (r, pool)
  | _ => .err (.errorf ("invalid format=" ++ toString cs.format)) (r, pool)

/-- The bytes of the chunk: what is missing of the message, or a chunk size of it. -/
def readPayload (cs : ChunkStream) (chunkSize : Nat) : Call GoError (ReadWriter × Pool) ChunkStream :=
  fun (r, pool) =>
    let size := if cs.remain > chunkSize then chunkSize else cs.remain
    let stop := u32 (cs.index + size)
    if stop < cs.index ∨ cs.data.length < stop then .panic .sliceBounds
    else
      match r.read size with
      | (.error e, r) => .err e (r, pool)
      | (.ok buf, r) =>
        let cs := { cs with data := cs.data.take cs.index ++ buf ++ cs.data.drop stop,
                            index := stop, remain := sub32 cs.remain size }
        let cs := if cs.remain = 0 then { cs with got := true } else cs
        match r.readError with
        | some e => .err e (r, pool)
        | none => .ok cs (r, pool)

/-- What is in the buffer of an entry once `readChunk` has failed on a copy `cs` of it. Inside a message the two have one
buffer, and in it is what still arrived of the chunk. -/
def overwritten (cs : ChunkStream) (chunkSize : Nat) : ReadWriter × Pool → Bytes := fun (r, pool) =>
  if cs.remain = 0 ∨ cs.tmpFromat ≠ 3 then cs.data
  else
    let (cs, r) := cs.readBasicId r
    match cs.skipExtended (r, pool) with
    | .ok cs (r, _) =>
      let size := if cs.remain > chunkSize then chunkSize else cs.remain
      let buf := if r.readError.isSome then [] else r.unread.take size
      cs.data.take cs.index ++ buf ++ cs.data.drop (cs.index + buf.length)
    | _ => cs.data

def readChunk (cs : ChunkStream) (chunkSize : Nat) : Call GoError (ReadWriter × Pool) ChunkStream :=
  fun (r, pool) =>
    if cs.remain ≠ 0 ∧ cs.tmpFromat ≠ 3 then
      .err (.errorf ("invalid remain = " ++ toString cs.remain)) (r, pool)
    else
      let (cs, r) := cs.readBasicId r
      (cs.readHeader >>= fun cs => cs.readPayload chunkSize) (r, pool)

end ChunkStream

end Livego
