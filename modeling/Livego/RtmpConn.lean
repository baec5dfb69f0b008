import Livego.Loop
import Livego.RtmpChunkStream
import Mathlib.Logic.Function.Basic

/-! A chunk connection: reassembly of the chunk streams of the peer, the control messages that act on
the connection itself, and the acknowledgements. -/

namespace Livego

open Fallible

def idSetChunkSize : Nat := 1
def idAck : Nat := 3
def idWindowAckSize : Nat := 5
def idSetPeerBandwidth : Nat := 6

structure Conn where
  chunkSize : Nat := 128
  remoteChunkSize : Nat := 128
  remoteWindowAckSize : Nat := 2500000
  received : Nat := 0
  ackReceived : Nat := 0
  rw : ReadWriter
  pool : Pool := {}
  chunks : Nat → Option ChunkStream := fun _ => none

/-- `binary.BigEndian.Uint32`, which reads the first four bytes and panics when there are fewer. -/
def uint32BE (b : Bytes) : Option Nat := if b.length < 4 then none else some (Endian.beNat (b.take 4))

namespace Conn

def newConn (rw : ReadWriter) : Conn := { rw }

/-- `initControlMsg`; `pio.PutU32BE` fills the first four bytes, and every caller asks for that many. -/
def initControlMsg (id size value : Nat) : ChunkStream :=
  { format := 0, csid := 2, typeID := id, streamID := 0, length := size,
    data := Endian.beBytes 4 value ++ List.replicate (size - 4) 0 }

def newAck (size : Nat) : ChunkStream := initControlMsg idAck 4 size
def newSetChunkSize (size : Nat) : ChunkStream := initControlMsg idSetChunkSize 4 size
def newWindowAckSize (size : Nat) : ChunkStream := initControlMsg idWindowAckSize 4 size
def newSetPeerBandwidth (size : Nat) : ChunkStream :=
  let ret := initControlMsg idSetPeerBandwidth 5 size
  { ret with data := ret.data.set 4 2 }

def streamBegin : Nat := 0
def streamIsRecorded : Nat := 4

/-- Event type and, in its four data bytes, stream 1. -/
def userControlMsg (eventType buflen : Nat) : ChunkStream :=
  { format := 0, csid := 2, typeID := 4, streamID := 1, length := buflen + 2,
    data := [UInt8.ofNat (eventType >>> 8), UInt8.ofNat eventType] ++ List.replicate buflen 0 }

/-- A call on the buffered connection alone. -/
def onReadWriter {α : Type} (x : Call GoError ReadWriter α) : Call GoError Conn α := fun conn =>
  match x conn.rw with
  | .ok a rw => .ok a { conn with rw }
  | .err e rw => .err e { conn with rw }
  | .panic p => .panic p
  | .diverge => .diverge

/-- The call with its error dropped. -/
def ignoreErr (x : Call GoError Conn Unit) : Call GoError Conn Unit := fun conn =>
  match x conn with
  | .err _ conn => .ok () conn
  | o => o

def write (c : ChunkStream) : Call GoError Conn Unit := fun conn =>
  if c.typeID = idSetChunkSize then
    match uint32BE c.data with
    | none => .panic .indexOutOfRange
    | some size =>
      let conn := { conn with chunkSize := size }
      onReadWriter (c.writeChunk conn.chunkSize) conn
  else onReadWriter (c.writeChunk conn.chunkSize) conn

def flush : Call GoError Conn Unit := Call.modify fun conn => { conn with rw := conn.rw.flush }

/-- Bytes 2 to 5 of a stream event: stream 1, big-endian. -/
def streamEvent (eventType : Nat) : ChunkStream :=
  let ret := userControlMsg eventType 4
  { ret with data := ret.data.take 2 ++ Endian.beBytes 4 1 }

def setBegin : Call GoError Conn Unit := ignoreErr (write (streamEvent streamBegin))

def setRecorded : Call GoError Conn Unit := ignoreErr (write (streamEvent streamIsRecorded))

def handleControlMsg (c : ChunkStream) : Call GoError Conn Unit := fun conn =>
  if c.typeID = idSetChunkSize then
    match uint32BE c.data with
    | none => .panic .indexOutOfRange
    | some size => .ok () { conn with remoteChunkSize := size }
  else if c.typeID = idWindowAckSize then
    match uint32BE c.data with
    | none => .panic .indexOutOfRange
    | some size => .ok () { conn with remoteWindowAckSize := size }
  else .ok () conn

def ack (size : Nat) : Call GoError Conn Unit := fun conn =>
  let received := u32 (conn.received + u32 size)
  let conn := { conn with received := if received ≥ 0xf0000000 then 0 else received,
                          ackReceived := u32 (conn.ackReceived + u32 size) }
  if conn.ackReceived ≥ conn.remoteWindowAckSize then
    (do ignoreErr (onReadWriter ((newAck conn.ackReceived).writeChunk conn.chunkSize))
        Call.modify fun conn => { conn with ackReceived := 0 }) conn
  else .ok () conn

/-- One turn of the loop of `read`: one chunk, and the message if that completed it. The entry of
the chunk stream is looked up by the six bits of the first byte, and its copy is written back on success. -/
def readTurn (_ : Unit) : Call GoError Conn (Unit ⊕ ChunkStream) := fun conn =>
  let (h, rw) := conn.rw.readUintBE 1
  let format := h >>> 6
  let csid := h &&& 0x3f
  let entry := (conn.chunks csid).getD {}
  let conn := { conn with chunks := Function.update conn.chunks csid (some entry) }
  let cs := { entry with tmpFromat := format, csid := csid }
  match cs.readChunk conn.remoteChunkSize (rw, conn.pool) with
  | .ok cs (rw, pool) =>
    let conn := { conn with rw, pool, chunks := Function.update conn.chunks csid (some cs) }
    .ok (if cs.full then .inr cs else .inl ()) conn
  | .err e (rw', pool) =>
    let entry := { entry with data := cs.overwritten conn.remoteChunkSize (rw, conn.pool) }
    .err e { conn with rw := rw', pool, chunks := Function.update conn.chunks csid (some entry) }
  | .panic p => .panic p
  | .diverge => .diverge

/-- Every turn but the last consumes a byte of the stream, which bounds the turns. -/
def read : Call GoError Conn ChunkStream := do
  let conn ← Call.get
  let c ← Call.loop readTurn (conn.rw.unread.length + 1) ()
  handleControlMsg c
  ack c.length
  pure c

end Conn

end Livego
