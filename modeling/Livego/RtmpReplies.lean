import Livego.RtmpArrival
import Livego.RtmpConnServer
import Livego.AmfArrival

/-! What the server answers: the handler of commands together with the connection that it writes its replies to. -/

namespace Livego

open Fallible

namespace Conn

open Amf (Value)

/-- `writeMsg`: the arguments as one message, written and flushed. What `Write` returns is dropped. -/
def writeMsg (csid streamID : Nat) (args : List Value) : Call GoError Conn Unit := fun conn =>
  match Amf.encodeBatch args [] with
  | .ok _ msg =>
    (do ignoreErr (write { csid, typeID := 20, streamID, length := u32 msg.length, data := msg })
        flush) conn
  | .err err _ => .err err conn
  | .panic p => .panic p
  | .diverge => .diverge

end Conn

/-- A `ConnServer` with its connection. -/
structure ServerConn where
  server : ConnServer := {}
  streamID : Int := 1
  conn : Conn

namespace ServerConn

open Amf (Value Object)

abbrev Reply : Type := Call GoError ServerConn Unit

def onConn {α : Type} (x : Call GoError Conn α) : Call GoError ServerConn α := fun s =>
  match x s.conn with
  | .ok a conn => .ok a { s with conn }
  | .err e conn => .err e { s with conn }
  | .panic p => .panic p
  | .diverge => .diverge

def onServer {α : Type} (x : ConnServer.Cmd α) : Call GoError ServerConn α := fun s =>
  match x s.server with
  | .ok a server => .ok a { s with server }
  | .err e server => .err e { s with server }
  | .panic p => .panic p
  | .diverge => .diverge

def newConnServer (conn : Conn) : ServerConn := { conn }

/-- The order in which `range` comes to the entries of a map. -/
abbrev RangeOrder : Type := Object → Object

variable (order : RangeOrder)

def writeMsg (csid streamID : Nat) (args : List Value) : Reply := onConn (Conn.writeMsg csid streamID args)

def write (c : ChunkStream) : Reply := onConn (Conn.ignoreErr (Conn.write c))

/-- The object that tells the client about its command. -/
def event (code description : String) : Object :=
  [(lit "level", .string (lit "status")), (lit "code", .string (lit code)),
    (lit "description", .string (lit description))]

def connectProps : Object := [(lit "fmsVer", .string (lit "FMS/3,0,1,123")), (lit "capabilities", .int 31)]

def connectEvent (objectEncoding : Int) : Object :=
  event "NetConnection.Connect.Success" "Connection succeeded." ++ [(lit "objectEncoding", .int objectEncoding)]

def connectRespArgs (objectEncoding transactionID : Int) : List Value :=
  [.string (lit "_result"), .int transactionID, .object (order connectProps),
    .object (order (connectEvent objectEncoding))]

def connectResp (cur : ChunkStream) : Reply := do
  write (Conn.newWindowAckSize 2500000)
  write (Conn.newSetPeerBandwidth 2500000)
  write (Conn.newSetChunkSize 1024)
  let s ← Call.get
  writeMsg cur.csid cur.streamID (connectRespArgs order s.server.connInfo.objectEncoding s.server.transactionID)

def createStreamRespArgs (transactionID streamID : Int) : List Value :=
  [.string (lit "_result"), .int transactionID, .null, .int streamID]

def createStreamResp (cur : ChunkStream) : Reply := do
  let s ← Call.get
  writeMsg cur.csid cur.streamID (createStreamRespArgs s.server.transactionID s.streamID)

def onStatusArgs (code description : String) : List Value :=
  [.string (lit "onStatus"), .int 0, .null, .object (order (event code description))]

def onStatus (cur : ChunkStream) (code description : String) : Reply :=
  writeMsg cur.csid cur.streamID (onStatusArgs order code description)

def publishRespArgs : List Value := onStatusArgs order "NetStream.Publish.Start" "Start publishing."

def publishResp (cur : ChunkStream) : Reply := writeMsg cur.csid cur.streamID (publishRespArgs order)

def playResp (cur : ChunkStream) : Reply := do
  onConn Conn.setRecorded
  onConn Conn.setBegin
  onStatus order cur "NetStream.Play.Reset" "Playing and resetting stream."
  onStatus order cur "NetStream.Play.Start" "Started playing stream."
  onStatus order cur "NetStream.Data.Start" "Started playing stream."
  onStatus order cur "NetStream.Play.PublishNotify" "Started playing notify."
  onConn Conn.flush

def command (cur : ChunkStream) (vs : List Value) : Reply :=
  match vs with
  | [] => Call.panic .indexOutOfRange
  | .string cmd :: vs =>
    if cmd = lit "connect" then do
      onServer (ConnServer.connect vs)
      connectResp order cur
    else if cmd = lit "createStream" then do
      onServer (ConnServer.createStream vs)
      createStreamResp cur
    else if cmd = lit "publish" then do
      onServer (ConnServer.publishOrPlay vs)
      publishResp order cur
      Call.modify fun s => { s with server.done := true, server.isPublisher := true }
    else if cmd = lit "play" then do
      onServer (ConnServer.publishOrPlay vs)
      playResp order cur
      Call.modify fun s => { s with server.done := true, server.isPublisher := false }
    else pure ()
  | _ => pure ()

def handleCmdMsg (c : ChunkStream) : Reply := do
  let data ← onServer (ConnServer.skipMarker c)
  let (vs, err) ← onServer (ConnServer.decodeBatch data)
  if err ≠ .eof then Call.fail err else command order c vs

/-- One turn of the loop of `ReadMsg` on the message that was read, and whether it was the last. -/
def readMsgTurn (c : ChunkStream) : Call GoError ServerConn Bool := do
  if c.typeID = 20 ∨ c.typeID = 17 then handleCmdMsg order c
  let s ← Call.get
  pure s.server.done

/-! ### Replies and the server -/

/-- A call that leaves the server itself as it was. -/
def KeepsServer {α : Type} (x : Call GoError ServerConn α) : Prop := ∀ s a s', x s = .ok a s' → s'.server = s.server

variable {order}

theorem keepsServer_onConn {α : Type} (x : Call GoError Conn α) : KeepsServer (onConn x) := by
  intro s a s' h
  unfold onConn at h
  split at h
  · cases h
    rfl
  all_goals cases h

theorem keepsServer_get : KeepsServer (Call.get : Call GoError ServerConn ServerConn) := by
  rintro s a s' ⟨⟩
  rfl

theorem KeepsServer.bind {α β : Type} {x : Call GoError ServerConn α} {f : α → Call GoError ServerConn β}
    (hx : KeepsServer x) (hf : ∀ a, KeepsServer (f a)) : KeepsServer (x >>= f) := by
  intro s b s' h
  obtain ⟨a, t, hhead, hrest⟩ := Call.bind_eq_ok.mp h
  exact (hf a t b s' hrest).trans (hx s a t hhead)

theorem keepsServer_connectResp (cur : ChunkStream) : KeepsServer (connectResp order cur) :=
  (keepsServer_onConn _).bind fun _ => (keepsServer_onConn _).bind fun _ => (keepsServer_onConn _).bind fun _ =>
    keepsServer_get.bind fun _ => keepsServer_onConn _

theorem keepsServer_createStreamResp (cur : ChunkStream) : KeepsServer (createStreamResp cur) :=
  keepsServer_get.bind fun _ => keepsServer_onConn _

theorem keepsServer_playResp (cur : ChunkStream) : KeepsServer (playResp order cur) :=
  (keepsServer_onConn _).bind fun _ => (keepsServer_onConn _).bind fun _ => (keepsServer_onConn _).bind fun _ =>
    (keepsServer_onConn _).bind fun _ => (keepsServer_onConn _).bind fun _ => (keepsServer_onConn _).bind fun _ =>
      keepsServer_onConn _

theorem onServer_eq_ok {α : Type} {x : ConnServer.Cmd α} {s s' : ServerConn} {a : α} (h : onServer x s = .ok a s') :
    x s.server = .ok a s'.server := by
  unfold onServer at h
  split at h
  · rename_i hx
    cases h
    exact hx
  all_goals cases h

/-- A command that is handled and answered. -/
theorem answered_eq_ok {x : ConnServer.Cmd Unit} {reply : Reply} (hreply : KeepsServer reply) {s s' : ServerConn}
    (h : (onServer x >>= fun _ => reply) s = .ok () s') :
    (x >>= fun _ => ConnServer.resp fun _ => none) s.server = .ok () s'.server := by
  obtain ⟨_, t, hx, hrest⟩ := Call.bind_eq_ok.mp h
  rw [Call.bind_of_ok (onServer_eq_ok hx), hreply t () s' hrest]
  rfl

/-- The same for a command that ends the negotiation. -/
theorem finished_eq_ok {x : ConnServer.Cmd Unit} {reply : Reply} (hreply : KeepsServer reply) {isPublisher : Bool}
    {s s' : ServerConn}
    (h : (onServer x >>= fun _ => reply >>= fun _ =>
      Call.modify fun s => { s with server.done := true, server.isPublisher := isPublisher }) s = .ok () s') :
    (x >>= fun _ => ConnServer.resp (fun _ => none) >>= fun _ =>
      Call.modify fun c => { c with done := true, isPublisher := isPublisher }) s.server = .ok () s'.server := by
  obtain ⟨_, t, hx, hrest⟩ := Call.bind_eq_ok.mp h
  obtain ⟨_, u, hsent, hdone⟩ := Call.bind_eq_ok.mp hrest
  cases hdone
  rw [Call.bind_of_ok (onServer_eq_ok hx), ← hreply t () u hsent]
  rfl

/-- But for the replies a command does what it does in a `ConnServer` whose replies are all sent. -/
theorem command_eq_ok {cur : ChunkStream} {vs : List Value} {s s' : ServerConn}
    (h : command order cur vs s = .ok () s') : ConnServer.command (fun _ => none) vs s.server = .ok () s'.server := by
  unfold command at h
  unfold ConnServer.command
  cases vs with
  | nil => cases h
  | cons v vs =>
      cases v with
      | string cmd =>
          dsimp only at h ⊢
          split_ifs at h ⊢
          · exact answered_eq_ok (keepsServer_connectResp cur) h
          · exact answered_eq_ok (keepsServer_createStreamResp cur) h
          · exact finished_eq_ok (keepsServer_onConn _) h
          · exact finished_eq_ok (keepsServer_playResp cur) h
          · cases h
            rfl
      | _ =>
          cases h
          rfl

end ServerConn

end Livego
