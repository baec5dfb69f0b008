import Livego.Machine
import Livego.RtmpResponses

/-! A client that asks to publish and the server, over two streams that keep the order and lose nothing. Each side reads
once what has arrived is enough for a message, and waits till then. -/

namespace Livego

open Fallible ChunkStream
open Amf (Value Object)

/-- How far a goroutine has come. -/
inductive Progress (α : Type) where
  | running (stage : α)
  | returned (err : Option GoError)
  | crashed

/-- How far a goroutine has come after a call, and the state that it leaves. -/
def Progress.after {σ α : Type} (x : Call GoError σ (Progress α)) (s : σ) : Progress α × σ :=
  match x s with
  | .ok progress s => (progress, s)
  | .err e s => (.returned (some e), s)
  | .panic _ => (.crashed, s)
  | .diverge => (.crashed, s)

namespace ConnClient

/-- The command whose response `Start` reads; `dialed` is before the first one. -/
inductive Stage where
  | dialed
  | connect
  | createStream
  | publish
  deriving DecidableEq, Repr

variable (order : ServerConn.RangeOrder)

/-- What `Start` goes on with once it has the response. -/
def proceed : Stage → Cmd (Progress Stage)
  | .dialed => do
    sendConnect order
    pure (.running .connect)
  | .connect => do
    sendCreateStream
    pure (.running .createStream)
  | .createStream => do
    sendPublish
    pure (.running .publish)
  | .publish => pure (.returned none)

/-- What becomes of an error of `readRespMsg`. `writeCreateStreamMsg` reads on unless it is `ErrFail`. -/
def failed : Stage → GoError → Progress Stage
  | .createStream, e => if e = errFail then .returned (some e) else .running .createStream
  | _, e => .returned (some e)

/-- One turn of `readRespMsg` on what `Read` returned. -/
def turn (stage : Stage) (o : Outcome GoError Conn ChunkStream) : Cmd (Progress Stage) := do
  match ← Call.attempt (onConn (fun _ => o) >>= readRespTurn) with
  | .ok true => proceed order stage
  | .ok false => pure (.running stage)
  | .error e => pure (failed stage e)

end ConnClient

/-- One turn of `ReadMsg` on what `Read` returned. -/
def ServerConn.turn (order : RangeOrder) (o : Outcome GoError Conn ChunkStream) :
    Call GoError ServerConn (Progress Unit) := do
  let c ← onConn fun _ => o
  let done ← readMsgTurn order c
  pure (if done then .returned none else .running ())

/-- Both sides, and how much has arrived of what they sent. -/
structure Negotiation where
  client : ConnClient
  clientAt : Progress ConnClient.Stage := .running .dialed
  server : ServerConn
  serverAt : Progress Unit := .running ()
  toServer : Nat := 0
  toClient : Nat := 0

namespace Negotiation

/-- What the client has sent and the server does not have yet. -/
def upward (s : Negotiation) : Bytes := s.client.conn.rw.sent.drop s.toServer

def downward (s : Negotiation) : Bytes := s.server.conn.rw.sent.drop s.toClient

inductive Event where
  | toServer (n : Nat)
  | toClient (n : Nat)
  | client
  | server

variable (order : ServerConn.RangeOrder)

def clientCall (x : ConnClient.Cmd (Progress ConnClient.Stage)) (s : Negotiation) : Negotiation :=
  let (clientAt, client) := Progress.after x s.client
  { s with clientAt, client }

def serverCall (x : Call GoError ServerConn (Progress Unit)) (s : Negotiation) : Negotiation :=
  let (serverAt, server) := Progress.after x s.server
  { s with serverAt, server }

/-- Bytes arrive, or a side that runs goes on. It cannot while it has to wait for bytes. -/
def step (s : Negotiation) : Event → Option Negotiation
  | .toServer n =>
    if 0 < n ∧ n ≤ s.upward.length then
      some { s with server.conn := s.server.conn.more (s.upward.take n), toServer := s.toServer + n }
    else none
  | .toClient n =>
    if 0 < n ∧ n ≤ s.downward.length then
      some { s with client.conn := s.client.conn.more (s.downward.take n), toClient := s.toClient + n }
    else none
  | .client =>
    match s.clientAt with
    | .running .dialed => some (clientCall (ConnClient.proceed order .dialed) s)
    | .running stage => (Conn.readArrived s.client.conn).map fun o => clientCall (ConnClient.turn order stage o) s
    | _ => none
  | .server =>
    match s.serverAt with
    | .running _ => (Conn.readArrived s.server.conn).map fun o => serverCall (ServerConn.turn order o) s
    | _ => none

/-- Both sides after the handshake. -/
def start (app tcurl title : Bytes) : Negotiation where
  client := ConnClient.newConnClient app tcurl title (Conn.newConn { unread := [] })
  server := ServerConn.newConnServer (Conn.newConn { unread := [] })

/-- What both sides have made out. -/
structure Agreed (app tcurl title : Bytes) (s : Negotiation) : Prop where
  client : s.clientAt = .returned none
  server : s.serverAt = .returned none
  streamid : (s.client.streamid : Int) = s.server.streamID
  done : s.server.server.done = true
  isPublisher : s.server.server.isPublisher = true
  clientNames : s.client.app = app ∧ s.client.tcurl = tcurl ∧ s.client.title = title
  app : s.server.server.connInfo.app = s.client.app
  tcUrl : s.server.server.connInfo.tcUrl = s.client.tcurl
  name : s.server.server.publishInfo.name = s.client.title

end Negotiation

end Livego
