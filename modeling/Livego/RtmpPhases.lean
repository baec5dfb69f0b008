import Livego.RtmpNegotiation

/-! How a negotiation goes: its phases, and the message that leads from each to the next. -/

namespace Livego

open Fallible ChunkStream
open Amf (Value Object)

namespace ConnClient

variable {order : ServerConn.RangeOrder} {streamID : Nat} {args : List Value} {rc : ChunkStream} {c c' : ConnClient}
  {conn : Conn}

theorem turn_of_response (h : Sayable args) (hrc : rc.message = (commandMessage streamID args).message)
    (hvalues : (args.map Value.arrived).zipIdx.forM respValue { c with conn } = .ok () c') (stage : Stage) :
    turn order stage (.ok rc conn) c = proceed order stage c' := by
  have harrived : onConn (fun _ => .ok rc conn) c = .ok rc { c with conn } := rfl
  have hread : (onConn (fun _ => .ok rc conn) >>= readRespTurn) c = .ok true c' := by
    rw [Call.bind_of_ok harrived, readRespTurn_command h hrc, Call.bind_of_ok hvalues]
    rfl
  rw [turn, Call.bind_of_ok (Call.attempt_of_ok hread)]

theorem turn_of_control (htype : rc.typeID ≠ 20 ∧ rc.typeID ≠ 17) (stage : Stage) :
    turn order stage (.ok rc conn) c = .ok (.running stage) { c with conn } := by
  have harrived : onConn (fun _ => .ok rc conn) c = .ok rc { c with conn } := rfl
  have hread : (onConn (fun _ => .ok rc conn) >>= readRespTurn) c = .ok false { c with conn } := by
    rw [Call.bind_of_ok harrived, readRespTurn_other htype]
  rw [turn, Call.bind_of_ok (Call.attempt_of_ok hread)]
  rfl

end ConnClient

theorem ServerConn.turn_of_command {order : RangeOrder} {streamID : Nat} {args : List Value} (h : Sayable args)
    {c : ChunkStream} (hc : c.message = (commandMessage streamID args).message) {s s' : ServerConn} {conn : Conn}
    (hcommand : command order c (args.map Value.arrived) { s with conn } = .ok () s') :
    turn order (.ok c conn) s = .ok (if s'.server.done then .returned none else .running ()) s' := by
  have harrived : onConn (fun _ => .ok c conn) s = .ok c { s with conn } := rfl
  rw [turn, Call.bind_of_ok harrived, Call.bind_of_ok (readMsgTurn_command order h hc hcommand)]
  rfl

namespace Negotiation

/-- How far both sides have come: all but their connections, and the messages that are on their way. At most `asked` and
`answered` bytes of messages have been sent either way, and `left` messages are still to be read or sent. -/
structure Phase where
  client : ConnClient
  clientAt : Progress ConnClient.Stage
  server : ServerConn
  serverAt : Progress Unit
  ups : List ChunkStream
  downs : List ChunkStream
  asked : Nat
  answered : Nat
  left : Nat

structure At (p : Phase) (s : Negotiation) : Prop where
  client : s.client = { p.client with conn := s.client.conn }
  clientAt : s.clientAt = p.clientAt
  server : s.server = { p.server with conn := s.server.conn }
  serverAt : s.serverAt = p.serverAt
  linked : Conn.Linked p.asked p.answered s.client.conn s.server.conn s.toServer s.toClient p.ups p.downs

variable (order : ServerConn.RangeOrder)

/-- In `p` the server reads `m`, and sends `ms`. -/
structure ServerMoves (p q : Phase) (m : ChunkStream) (ms : List ChunkStream) : Prop where
  running : p.serverAt = .running ()
  client : q.client = p.client
  clientAt : q.clientAt = p.clientAt
  ups : p.ups = m :: q.ups
  downs : q.downs = p.downs ++ ms
  most : p.asked < 2500000
  asked : q.asked = p.asked
  answered : p.answered + (ms.map fun m => m.length).sum ≤ q.answered
  writable : ∀ m ∈ ms, m.Writable
  keepsWindow : ∀ m ∈ ms, Conn.windowAfter m 2500000 = 2500000
  turn : ∀ c conn s, c.message = m.assignCsid.message → 4 ≤ conn.chunkSize → conn.chunkSize < 2 ^ 31 →
    ServerConn.turn order (.ok c conn) { p.server with conn := s } =
      .ok q.serverAt { q.server with conn := (conn.wrote ms).flushed }

/-- In `p` the client reads `m`, and sends `ms`. -/
structure ClientMoves (p q : Phase) (m : ChunkStream) (ms : List ChunkStream) : Prop where
  running : ∃ stage, stage ≠ .dialed ∧ p.clientAt = .running stage ∧
    ∀ c conn s, c.message = m.assignCsid.message → 4 ≤ conn.chunkSize → conn.chunkSize < 2 ^ 31 →
      conn.rw.buffered = [] → ConnClient.turn order stage (.ok c conn) { p.client with conn := s } =
        .ok q.clientAt { q.client with conn := (conn.wrote ms).flushed }
  server : q.server = p.server
  serverAt : q.serverAt = p.serverAt
  downs : p.downs = m :: q.downs
  ups : q.ups = p.ups ++ ms
  most : p.answered < 2500000
  answered : q.answered = p.answered
  asked : p.asked + (ms.map fun m => m.length).sum ≤ q.asked
  writable : ∀ m ∈ ms, m.Writable
  keepsWindow : ∀ m ∈ ms, Conn.windowAfter m 2500000 = 2500000

variable {order} {p q : Phase} {m : ChunkStream} {ms : List ChunkStream} {s t : Negotiation}

theorem ServerMoves.step (h : ServerMoves order p q m ms) (hs : At p s) :
    step order s .server = none ∧ s.upward ≠ [] ∨ ∃ t, step order s .server = some t ∧ At q t := by
  have hlinked := hs.linked
  rw [h.ups] at hlinked
  have hserverAt : s.serverAt = .running () := hs.serverAt.trans h.running
  obtain ⟨hwaits, hflight⟩ | ⟨c, conn, hread, hmessage, hlinked⟩ := hlinked.read h.most
  · refine Or.inl ⟨?_, hflight⟩
    simp only [Negotiation.step, hserverAt, hwaits, Option.map_none]
  · obtain ⟨hlo, hhi⟩ := hlinked.down.bounds
    have hturn := h.turn c conn s.server.conn hmessage hlo hhi
    rw [← hs.server] at hturn
    refine Or.inr
      ⟨{ s with serverAt := q.serverAt, server := { q.server with conn := (conn.wrote ms).flushed } }, ?_, ?_⟩
    · simp only [Negotiation.step, hserverAt, hread, Option.map_some, serverCall, Progress.after, hturn]
    · refine ⟨by rw [h.client]; exact hs.client, by rw [h.clientAt]; exact hs.clientAt, rfl, rfl, ?_⟩
      rw [h.asked, h.downs]
      exact hlinked.write h.writable h.keepsWindow h.answered

theorem ClientMoves.step (h : ClientMoves order p q m ms) (hs : At p s) :
    step order s .client = none ∧ s.downward ≠ [] ∨ ∃ t, step order s .client = some t ∧ At q t := by
  obtain ⟨stage, hstage, hrunning, hturn⟩ := h.running
  have hlinked := hs.linked.symm
  rw [h.downs] at hlinked
  have hclientAt : s.clientAt = .running stage := hs.clientAt.trans hrunning
  have hstep : Negotiation.step order s .client =
      (Conn.readArrived s.client.conn).map fun o => clientCall (ConnClient.turn order stage o) s := by
    cases stage <;> first | exact absurd rfl hstage | simp only [Negotiation.step, hclientAt]
  obtain ⟨hwaits, hflight⟩ | ⟨c, conn, hread, hmessage, hlinked⟩ := hlinked.read h.most
  · refine Or.inl ⟨?_, hflight⟩
    rw [hstep, hwaits, Option.map_none]
  · obtain ⟨hlo, hhi⟩ := hlinked.down.bounds
    have hturn := hturn c conn s.client.conn hmessage hlo hhi hlinked.down.buffered
    rw [← hs.client] at hturn
    refine Or.inr
      ⟨{ s with clientAt := q.clientAt, client := { q.client with conn := (conn.wrote ms).flushed } }, ?_, ?_⟩
    · simp only [hstep, hread, Option.map_some, clientCall, Progress.after, hturn]
    · refine ⟨rfl, rfl, by rw [h.server]; exact hs.server, by rw [h.serverAt]; exact hs.serverAt, ?_⟩
      rw [h.answered, h.ups]
      exact (hlinked.write h.writable h.keepsWindow h.asked).symm

end Negotiation

/-! ### What the client sends -/

namespace ConnClient

variable {order : ServerConn.RangeOrder} {c : ConnClient}

theorem proceed_dialed (h : Sayable (connectArgs order c.transID c.app c.tcurl)) (hid : c.streamid < 2 ^ 32)
    (hlo : 4 ≤ c.conn.chunkSize) (hhi : c.conn.chunkSize < 2 ^ 31) :
    proceed order .dialed c = .ok (.running .connect) { c with
      curcmdName := lit "connect"
      conn := (c.conn.wrote [commandMessage c.streamid (connectArgs order c.transID c.app c.tcurl)]).flushed } := by
  have hwrite := writeMsg_eq (c := { c with curcmdName := lit "connect" }) h hid hlo hhi
  have hsend : sendConnect order c = _ := hwrite
  rw [proceed, Call.bind_of_ok hsend]
  rfl

theorem proceed_connect (h : Sayable (createStreamArgs (c.transID + 1))) (hid : c.streamid < 2 ^ 32)
    (hlo : 4 ≤ c.conn.chunkSize) (hhi : c.conn.chunkSize < 2 ^ 31) :
    proceed order .connect c = .ok (.running .createStream) { c with
      transID := c.transID + 1
      curcmdName := lit "createStream"
      conn := (c.conn.wrote [commandMessage c.streamid (createStreamArgs (c.transID + 1))]).flushed } := by
  have hwrite := writeMsg_eq (c := { c with transID := c.transID + 1, curcmdName := lit "createStream" }) h hid hlo hhi
  have hsend : sendCreateStream c = _ := hwrite
  rw [proceed, Call.bind_of_ok hsend]
  rfl

theorem proceed_createStream (h : Sayable (publishArgs (c.transID + 1) c.title)) (hid : c.streamid < 2 ^ 32)
    (hlo : 4 ≤ c.conn.chunkSize) (hhi : c.conn.chunkSize < 2 ^ 31) :
    proceed order .createStream c = .ok (.running .publish) { c with
      transID := c.transID + 1
      curcmdName := lit "publish"
      conn := (c.conn.wrote [commandMessage c.streamid (publishArgs (c.transID + 1) c.title)]).flushed } := by
  have hwrite := writeMsg_eq (c := { c with transID := c.transID + 1, curcmdName := lit "publish" }) h hid hlo hhi
  have hsend : sendPublish c = _ := hwrite
  rw [proceed, Call.bind_of_ok hsend]
  rfl

end ConnClient

namespace Negotiation

open ConnClient (connectArgs createStreamArgs publishArgs)
open ServerConn (connectRespArgs createStreamRespArgs publishRespArgs controls)

namespace Phase

variable (order : ServerConn.RangeOrder) (app tcurl title : Bytes)

def dialed : Phase where
  client := (start app tcurl title).client
  clientAt := .running .dialed
  server := (start app tcurl title).server
  serverAt := .running ()
  ups := []
  downs := []
  asked := 0
  answered := 0
  left := 10

def connectAsked : Phase :=
  { dialed app tcurl title with
    client.curcmdName := lit "connect"
    clientAt := .running .connect
    ups := [commandMessage 0 (connectArgs order 1 app tcurl)]
    asked := 600000
    left := 9 }

/-- The client has yet to read `rest` before the response. -/
def connectAnswered (rest : List ChunkStream) : Phase :=
  { connectAsked order app tcurl title with
    server.server.transactionID := 1
    server.server.connInfo := { app, flashver := lit "FMS.3.1", tcUrl := tcurl }
    ups := []
    downs := rest ++ [commandMessage 0 (connectRespArgs order 0 1)]
    answered := 600000
    left := 5 + rest.length }

def createStreamAsked : Phase :=
  { connectAnswered order app tcurl title [] with
    client.transID := 2
    client.curcmdName := lit "createStream"
    clientAt := .running .createStream
    ups := [commandMessage 0 (createStreamArgs 2)]
    downs := []
    asked := 1200000
    left := 4 }

def createStreamAnswered : Phase :=
  { createStreamAsked order app tcurl title with
    server.server.transactionID := 2
    ups := []
    downs := [commandMessage 0 (createStreamRespArgs 2 1)]
    answered := 1200000
    left := 3 }

def publishAsked : Phase :=
  { createStreamAnswered order app tcurl title with
    client.transID := 3
    client.curcmdName := lit "publish"
    client.streamid := 1
    clientAt := .running .publish
    ups := [commandMessage 1 (publishArgs 3 title)]
    downs := []
    asked := 1800000
    left := 2 }

def publishAnswered : Phase :=
  { publishAsked order app tcurl title with
    server.server.transactionID := 3
    server.server.publishInfo := { name := title, type := lit "live" }
    server.server.done := true
    server.server.isPublisher := true
    serverAt := .returned none
    ups := []
    downs := [commandMessage 1 (publishRespArgs order)]
    answered := 1800000
    left := 1 }

def agreed : Phase :=
  { publishAnswered order app tcurl title with
    clientAt := .returned none
    downs := []
    left := 0 }

variable {order app tcurl title}

theorem length_singleton_le {streamID : Nat} {args : List Value} (h : Sayable args) (n : Nat) :
    n + (([commandMessage streamID args].map fun m => m.length).sum) ≤ n + 600000 := by
  have := h.length_lt
  show n + ((Amf.batchBytes args).length + 0) ≤ _
  omega

theorem connectAsked_moves (horder : ∀ obj, (order obj).Perm obj)
    (hconnect : Sayable (connectArgs order 1 app tcurl)) :
    ServerMoves order (connectAsked order app tcurl title) (connectAnswered order app tcurl title controls)
      (commandMessage 0 (connectArgs order 1 app tcurl))
      (controls ++ [commandMessage 0 (connectRespArgs order 0 1)]) where
  running := rfl
  client := rfl
  clientAt := rfl
  ups := rfl
  downs := rfl
  most := (by decide : 600000 < 2500000)
  asked := rfl
  answered := by
    have := (sayable_connectRespArgs horder).length_lt
    show 0 + (4 + (5 + (4 + ((Amf.batchBytes (connectRespArgs order 0 1)).length + 0)))) ≤ 600000
    omega
  writable := List.forall_mem_append.mpr ⟨ServerConn.writable_controls,
    List.forall_mem_singleton.mpr ((sayable_connectRespArgs horder).writable (by decide))⟩
  keepsWindow := List.forall_mem_append.mpr ⟨by decide, List.forall_mem_singleton.mpr rfl⟩
  turn := by
    intro c conn s hmessage hlo hhi
    have hcommand := ServerConn.command_connect horder (congrArg Message.csid hmessage)
      (congrArg Message.streamID hmessage) (s := { (connectAsked order app tcurl title).server with conn }) rfl hlo hhi
      app tcurl
    exact ServerConn.turn_of_command hconnect hmessage hcommand

theorem control_moves {m : ChunkStream} {rest : List ChunkStream} (hm : m.typeID ≠ 20 ∧ m.typeID ≠ 17) :
    ClientMoves order (connectAnswered order app tcurl title (m :: rest)) (connectAnswered order app tcurl title rest)
      m [] where
  running := by
    refine ⟨.connect, by decide, rfl, fun c conn s hmessage _ _ hbuffered => ?_⟩
    have htype : c.typeID = m.typeID := by
      obtain ⟨csid, hcsid⟩ := assignCsid_fields m
      rw [hcsid] at hmessage
      exact congrArg Message.typeID hmessage
    rw [Conn.flushed_wrote_nil hbuffered]
    exact ConnClient.turn_of_control (htype ▸ hm) .connect
  server := rfl
  serverAt := rfl
  downs := rfl
  ups := rfl
  most := (by decide : 600000 < 2500000)
  answered := rfl
  asked := le_refl 600000
  writable := by simp
  keepsWindow := by simp

theorem connectAnswered_moves (horder : ∀ obj, (order obj).Perm obj) :
    ClientMoves order (connectAnswered order app tcurl title []) (createStreamAsked order app tcurl title)
      (commandMessage 0 (connectRespArgs order 0 1)) [commandMessage 0 (createStreamArgs 2)] where
  running := by
    refine ⟨.connect, by decide, rfl, fun c conn s hmessage hlo hhi _ => ?_⟩
    rw [ConnClient.turn_of_response (sayable_connectRespArgs horder) hmessage
      (ConnClient.respValues_connect horder rfl rfl)]
    exact ConnClient.proceed_connect sayable_createStreamArgs (by decide : 0 < 2 ^ 32) hlo hhi
  server := rfl
  serverAt := rfl
  downs := rfl
  ups := rfl
  most := (by decide : 600000 < 2500000)
  answered := rfl
  asked := length_singleton_le sayable_createStreamArgs 600000
  writable := List.forall_mem_singleton.mpr (sayable_createStreamArgs.writable (by decide))
  keepsWindow := List.forall_mem_singleton.mpr rfl

theorem createStreamAsked_moves :
    ServerMoves order (createStreamAsked order app tcurl title) (createStreamAnswered order app tcurl title)
      (commandMessage 0 (createStreamArgs 2)) [commandMessage 0 (createStreamRespArgs 2 1)] where
  running := rfl
  client := rfl
  clientAt := rfl
  ups := rfl
  downs := rfl
  most := (by decide : 1200000 < 2500000)
  asked := rfl
  answered := length_singleton_le sayable_createStreamRespArgs 600000
  writable := List.forall_mem_singleton.mpr (sayable_createStreamRespArgs.writable (by decide))
  keepsWindow := List.forall_mem_singleton.mpr rfl
  turn := by
    intro c conn s hmessage hlo hhi
    have hcommand : ServerConn.command order c _ _ = _ := ServerConn.command_createStream
      (congrArg Message.csid hmessage) (congrArg Message.streamID hmessage)
      (s := { (createStreamAsked order app tcurl title).server with conn }) rfl hlo hhi
    exact ServerConn.turn_of_command sayable_createStreamArgs hmessage hcommand

theorem createStreamAnswered_moves (hpublish : Sayable (publishArgs 3 title)) :
    ClientMoves order (createStreamAnswered order app tcurl title) (publishAsked order app tcurl title)
      (commandMessage 0 (createStreamRespArgs 2 1)) [commandMessage 1 (publishArgs 3 title)] where
  running := by
    refine ⟨.createStream, by decide, rfl, fun c conn s hmessage hlo hhi _ => ?_⟩
    rw [ConnClient.turn_of_response sayable_createStreamRespArgs hmessage (ConnClient.respValues_createStream rfl rfl)]
    exact ConnClient.proceed_createStream hpublish (by decide : 1 < 2 ^ 32) hlo hhi
  server := rfl
  serverAt := rfl
  downs := rfl
  ups := rfl
  most := (by decide : 1200000 < 2500000)
  answered := rfl
  asked := length_singleton_le hpublish 1200000
  writable := List.forall_mem_singleton.mpr (hpublish.writable (by decide))
  keepsWindow := List.forall_mem_singleton.mpr rfl

theorem publishAsked_moves (horder : ∀ obj, (order obj).Perm obj) (hpublish : Sayable (publishArgs 3 title)) :
    ServerMoves order (publishAsked order app tcurl title) (publishAnswered order app tcurl title)
      (commandMessage 1 (publishArgs 3 title))
      [commandMessage 1 (publishRespArgs order)] where
  running := rfl
  client := rfl
  clientAt := rfl
  ups := rfl
  downs := rfl
  most := (by decide : 1800000 < 2500000)
  asked := rfl
  answered := length_singleton_le (sayable_publishRespArgs horder) 1200000
  writable := List.forall_mem_singleton.mpr ((sayable_publishRespArgs horder).writable (by decide))
  keepsWindow := List.forall_mem_singleton.mpr rfl
  turn := by
    intro c conn s hmessage hlo hhi
    have hcommand := ServerConn.command_publish horder (congrArg Message.csid hmessage)
      (congrArg Message.streamID hmessage) (s := { (publishAsked order app tcurl title).server with conn }) hlo hhi
      title
    exact ServerConn.turn_of_command hpublish hmessage hcommand

theorem publishAnswered_moves (horder : ∀ obj, (order obj).Perm obj) :
    ClientMoves order (publishAnswered order app tcurl title) (agreed order app tcurl title)
      (commandMessage 1 (publishRespArgs order)) [] where
  running := by
    refine ⟨.publish, by decide, rfl, fun c conn s hmessage _ _ hbuffered => ?_⟩
    rw [ConnClient.turn_of_response (sayable_publishRespArgs horder) hmessage
      (ConnClient.respValues_publish horder rfl), Conn.flushed_wrote_nil hbuffered]
    rfl
  server := rfl
  serverAt := rfl
  downs := rfl
  ups := rfl
  most := (by decide : 1800000 < 2500000)
  answered := rfl
  asked := le_refl 1800000
  writable := by simp
  keepsWindow := by simp

end Phase

end Negotiation

end Livego
