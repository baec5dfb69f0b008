import Livego.RtmpAgreement
import Livego.RtmpHandshakes

/-! A client that asks to publish and the server, from the first byte on: the handshake, and behind it the negotiation. The
last block of the client waits in its buffer for the first command. -/

namespace Livego

open Fallible ChunkStream
open Rtmp.Handshake

/-- The part of the handshake that a side is at. -/
inductive Greeting where
  | first
  | second
  deriving DecidableEq, Repr

/-- Both sides, each in the handshake or behind it. -/
structure Dialogue where
  talk : Negotiation
  clientAt : Progress Greeting := .running .first
  serverAt : Progress Greeting := .running .first

namespace Dialogue

variable (hmac : Bytes → Bytes → Digest) (random random' : Nat → UInt8) (order : ServerConn.RangeOrder)

/-- The bytes that a part waits for. -/
def clientNeeds : Greeting → Nat
  | .first => 0
  | .second => 3073

def serverNeeds : Greeting → Nat
  | .first => 1537
  | .second => 1536

def clientPart : Greeting → Call GoError Conn (Progress Greeting)
  | .first => do
    Conn.sendC0C1
    pure (.running .second)
  | .second => do
    Conn.answerS0S1S2
    pure (.returned none)

def serverPart : Greeting → Call GoError Conn (Progress Greeting)
  | .first => do
    Conn.answerC0C1 hmac random random'
    pure (.running .second)
  | .second => do
    Conn.readC2
    pure (.returned none)

def clientCall (x : Call GoError Conn (Progress Greeting)) (s : Dialogue) : Dialogue :=
  let (clientAt, conn) := Progress.after x s.talk.client.conn
  { s with clientAt, talk.client.conn := conn }

def serverCall (x : Call GoError Conn (Progress Greeting)) (s : Dialogue) : Dialogue :=
  let (serverAt, conn) := Progress.after x s.talk.server.conn
  { s with serverAt, talk.server.conn := conn }

def onTalk (s : Dialogue) (e : Negotiation.Event) : Option Dialogue :=
  (Negotiation.step order s.talk e).map fun talk => { s with talk }

/-- Bytes arrive, or a side goes on: with the handshake, and once that has returned nil with the negotiation. -/
def step (s : Dialogue) : Negotiation.Event → Option Dialogue
  | .client =>
    match s.clientAt with
    | .running part =>
      if clientNeeds part ≤ s.talk.client.conn.rw.unread.length then some (clientCall (clientPart part) s) else none
    | .returned none => onTalk order s .client
    | _ => none
  | .server =>
    match s.serverAt with
    | .running part =>
      if serverNeeds part ≤ s.talk.server.conn.rw.unread.length then
        some (serverCall (serverPart hmac random random' part) s)
      else none
    | .returned none => onTalk order s .server
    | _ => none
  | e => onTalk order s e

/-- Both sides once the connection is there. -/
def start (app tcurl title : Bytes) : Dialogue where
  talk := Negotiation.start app tcurl title

/-! ### What one side sends to the other -/

/-- Of what `writer` has sent, and of what it holds back in its buffer, `bytes` are not read and `held` not sent. -/
structure Flow (writer : Conn) (arrived : Nat) (reader : Conn) (bytes held : Bytes) : Prop where
  fresh : reader = Conn.newConn reader.rw
  readError : reader.rw.readError = none
  buffered : writer.rw.buffered = held
  arrived_le : arrived ≤ writer.rw.sent.length
  unread : reader.rw.unread ++ writer.rw.sent.drop arrived = bytes

namespace Flow

variable {writer reader : Conn} {arrived n : Nat} {bytes held p : Bytes}

theorem arrive (h : Flow writer arrived reader bytes held) (hn : n ≤ (writer.rw.sent.drop arrived).length) :
    Flow writer (arrived + n) (reader.more ((writer.rw.sent.drop arrived).take n)) bytes held := by
  have hle := h.arrived_le
  rw [List.length_drop] at hn
  refine ⟨?_, h.readError, h.buffered, by omega, ?_⟩
  · rw [h.fresh]
    rfl
  · calc reader.rw.unread ++ (writer.rw.sent.drop arrived).take n ++ writer.rw.sent.drop (arrived + n)
        = reader.rw.unread ++ writer.rw.sent.drop arrived := by
          rw [List.append_assoc, ← List.drop_drop, List.take_append_drop]
      _ = bytes := h.unread

/-- The reader takes what has arrived. -/
theorem skip (h : Flow writer arrived reader bytes held) (hn : n ≤ reader.rw.unread.length) :
    Flow writer arrived (reader.skip n) (bytes.drop n) held := by
  refine ⟨?_, h.readError, h.buffered, h.arrived_le, ?_⟩
  · rw [h.fresh]
    rfl
  · rw [← h.unread, List.drop_append_of_le_length hn]
    rfl

theorem sentOut (h : Flow writer arrived reader bytes held) (p : Bytes) :
    Flow (writer.sentOut p) arrived reader (bytes ++ (held ++ p)) [] := by
  have hsent : (writer.sentOut p).rw.sent = writer.rw.sent ++ (held ++ p) := by
    rw [← h.buffered]
    rfl
  refine ⟨h.fresh, h.readError, rfl, ?_, ?_⟩
  · rw [hsent, List.length_append]
    exact h.arrived_le.trans (Nat.le_add_right _ _)
  · rw [hsent, List.drop_append_of_le_length h.arrived_le, ← List.append_assoc, h.unread]

theorem hold (h : Flow writer arrived reader bytes held) (p : Bytes) :
    Flow { writer with rw := writer.rw.write p } arrived reader bytes (held ++ p) := by
  refine ⟨h.fresh, h.readError, ?_, h.arrived_le, h.unread⟩
  rw [← h.buffered]
  rfl

/-- What the writer reads, and what arrives at it, is no matter. -/
theorem of_skip (h : Flow writer arrived reader bytes held) (n : Nat) :
    Flow (writer.skip n) arrived reader bytes held := ⟨h.fresh, h.readError, h.buffered, h.arrived_le, h.unread⟩

theorem of_more (h : Flow writer arrived reader bytes held) (p : Bytes) :
    Flow (writer.more p) arrived reader bytes held := ⟨h.fresh, h.readError, h.buffered, h.arrived_le, h.unread⟩

/-- What the reader holds back and sends is no matter. -/
theorem of_hold (h : Flow writer arrived reader bytes held) (p : Bytes) :
    Flow writer arrived { reader with rw := reader.rw.write p } bytes held := by
  refine ⟨?_, h.readError, h.buffered, h.arrived_le, h.unread⟩
  rw [h.fresh]
  rfl

theorem of_sentOut (h : Flow writer arrived reader bytes held) (p : Bytes) :
    Flow writer arrived (reader.sentOut p) bytes held := by
  refine ⟨?_, h.readError, h.buffered, h.arrived_le, h.unread⟩
  rw [h.fresh]
  rfl

/-- Either all has arrived that is waited for, or more is under way. -/
theorem arrived_or (h : Flow writer arrived reader bytes held) (hn : n ≤ bytes.length) :
    n ≤ reader.rw.unread.length ∨ ¬n ≤ reader.rw.unread.length ∧ writer.rw.sent.drop arrived ≠ [] := by
  by_cases hle : n ≤ reader.rw.unread.length
  · exact Or.inl hle
  · refine Or.inr ⟨hle, fun hnil => hle ?_⟩
    have hunread := h.unread
    rw [hnil, List.append_nil] at hunread
    rw [hunread]
    exact hn

/-- What flows are the messages that were written on a fresh connection. -/
theorem link {ms : List ChunkStream} (h : Flow writer arrived reader (Conn.sessionBytes ms 128) [])
    (hms : ∀ m ∈ ms, m.Writable) (hkeeps : ∀ m ∈ ms, Conn.windowAfter m 2500000 = 2500000)
    (hsize : writer.chunkSize = Conn.sizeAfterAll ms 128) {budget : Nat}
    (hbudget : (ms.map fun m => m.length).sum ≤ budget) : Conn.Link budget writer arrived reader ms := by
  have hinv : Conn.Inv (Conn.newConn reader.rw) :=
    ⟨fun hne => absurd h.readError hne, fun _ _ hc => by simp [Conn.newConn] at hc,
      (by decide : u32 128 ≠ 0)⟩
  have hidle : Conn.Idle reader := by
    rw [h.fresh]
    exact ⟨hinv, h.readError, fun _ _ hc => by simp [Conn.newConn] at hc⟩
  have hremote : reader.remoteChunkSize = 128 := by
    rw [h.fresh]
    rfl
  refine ⟨hidle, hms, by rw [hremote]; decide, by rw [hremote]; decide, by rw [hremote]; exact hsize, h.buffered,
    h.arrived_le, by rw [hremote]; exact h.unread, by rw [h.fresh]; rfl, hkeeps, ?_⟩
  have hreceived : reader.ackReceived = 0 := by
    rw [h.fresh]
    rfl
  rw [hreceived, Nat.zero_add]
  exact hbudget

theorem length_le (h : Flow writer arrived reader bytes held) : reader.rw.unread.length ≤ bytes.length := by
  rw [← h.unread, List.length_append]
  exact Nat.le_add_right _ _

end Flow

/-! ### The stages of the handshake -/

/-- `dials` has the last block of the client in its buffer, and `asks` has sent it in front of the first command. -/
inductive Stage where
  | greets
  | greeted
  | answered
  | dials
  | asks

def block : Bytes := List.replicate 1536 0

namespace Stage

variable (app tcurl title : Bytes)

def phase : Stage → Negotiation.Phase
  | .asks => .connectAsked order app tcurl title
  | _ => .dialed app tcurl title

def clientAt : Stage → Progress Greeting
  | .greets => .running .first
  | .greeted => .running .second
  | .answered => .running .second
  | .dials => .returned none
  | .asks => .returned none

def serverAt : Stage → Progress Greeting
  | .greets => .running .first
  | .greeted => .running .first
  | .answered => .running .second
  | .dials => .running .second
  | .asks => .running .second

def connect : List ChunkStream := [commandMessage 0 (ConnClient.connectArgs order 1 app tcurl)]

def up : Stage → Bytes
  | .greeted => 3 :: block
  | .asks => block ++ Conn.sessionBytes (connect order app tcurl) 128
  | _ => []

def held : Stage → Bytes
  | .dials => block
  | _ => []

def down : Stage → Bytes
  | .answered => 3 :: block ++ block
  | _ => []

def left : Stage → Nat
  | .greets => 15
  | .greeted => 14
  | .answered => 13
  | .dials => 12
  | .asks => 11

end Stage

variable {order} {app tcurl title : Bytes}

/-- A dialogue in the handshake. -/
structure Shaking (order : ServerConn.RangeOrder) (app tcurl title : Bytes) (stage : Stage) (s : Dialogue) : Prop where
  client : s.talk.client = { (stage.phase order app tcurl title).client with conn := s.talk.client.conn }
  talkAt : s.talk.clientAt = (stage.phase order app tcurl title).clientAt
  server : s.talk.server = { (stage.phase order app tcurl title).server with conn := s.talk.server.conn }
  listensAt : s.talk.serverAt = (stage.phase order app tcurl title).serverAt
  clientAt : s.clientAt = stage.clientAt
  serverAt : s.serverAt = stage.serverAt
  up : Flow s.talk.client.conn s.talk.toServer s.talk.server.conn (stage.up order app tcurl) stage.held
  down : Flow s.talk.server.conn s.talk.toClient s.talk.client.conn stage.down []

/-- A dialogue behind the handshake. -/
structure Talking (p : Negotiation.Phase) (s : Dialogue) : Prop where
  clientAt : s.clientAt = .returned none
  serverAt : s.serverAt = .returned none
  talk : Negotiation.At p s.talk

theorem shaking_start : Shaking order app tcurl title .greets (start app tcurl title) :=
  ⟨rfl, rfl, rfl, rfl, rfl, rfl, ⟨rfl, rfl, rfl, le_refl 0, rfl⟩, ⟨rfl, rfl, rfl, le_refl 0, rfl⟩⟩

theorem length_block : block.length = 1536 := List.length_replicate

variable {s t : Dialogue} {stage : Stage}

/-- A block without a version is accepted, and comes back behind one of zeros. -/
theorem accepts_block : Accepts hmac block := Or.inl rfl

theorem answer_block : answer hmac random random' block = 3 :: block ++ block := if_pos rfl

theorem step_client {part : Greeting} (h : s.clientAt = .running part) :
    step hmac random random' order s .client =
      if clientNeeds part ≤ s.talk.client.conn.rw.unread.length then some (clientCall (clientPart part) s) else none := by
  simp only [step, h]

theorem step_server {part : Greeting} (h : s.serverAt = .running part) :
    step hmac random random' order s .server =
      if serverNeeds part ≤ s.talk.server.conn.rw.unread.length then
        some (serverCall (serverPart hmac random random' part) s)
      else none := by
  simp only [step, h]

theorem Shaking.greets (h : Shaking order app tcurl title .greets s) :
    ∃ t, step hmac random random' order s .client = some t ∧ Shaking order app tcurl title .greeted t := by
  have hpart : clientPart .first s.talk.client.conn =
      .ok (.running .second) (s.talk.client.conn.sentOut (3 :: block)) := rfl
  have hclientAt : s.clientAt = .running .first := h.clientAt
  refine ⟨clientCall (clientPart .first) s, ?_, ?_⟩
  · rw [step_client hmac random random' hclientAt]
    exact if_pos (Nat.zero_le _)
  · simp only [clientCall, Progress.after, hpart]
    exact ⟨congrArg (fun c : ConnClient => { c with conn := s.talk.client.conn.sentOut (3 :: block) }) h.client,
      h.talkAt, h.server, h.listensAt, rfl, h.serverAt, h.up.sentOut _, h.down.of_sentOut _⟩

theorem Shaking.greeted (h : Shaking order app tcurl title .greeted s) :
    step hmac random random' order s .server = none ∧ s.talk.upward ≠ [] ∨
      ∃ t, step hmac random random' order s .server = some t ∧ Shaking order app tcurl title .answered t := by
  have hserverAt : s.serverAt = .running .first := h.serverAt
  have hlength : (3 :: block).length = 1537 := by rw [List.length_cons, length_block]
  obtain harrived | ⟨hwaits, hflight⟩ := h.up.arrived_or (n := 1537) hlength.ge
  · have hrest : s.talk.client.conn.rw.sent.drop s.talk.toServer = [] := by
      have hall := congrArg List.length h.up.unread
      rw [List.length_append] at hall
      exact List.length_eq_zero_iff.mp (by have := hall.trans hlength; omega)
    have hunread : s.talk.server.conn.rw.unread = 3 :: block := by
      have hall := h.up.unread
      rw [hrest, List.append_nil] at hall
      exact hall
    have hopened : Conn.Opened hmac s.talk.server.conn ⟨block, length_block⟩ := by
      refine ⟨h.up.readError, accepts_block hmac, ?_⟩
      rw [hunread, List.drop_of_length_le hlength.le, List.append_nil]
    have hpart : serverPart hmac random random' .first s.talk.server.conn =
        .ok (.running .second) ((s.talk.server.conn.skip 1537).sentOut (3 :: block ++ block)) := by
      rw [serverPart, Call.bind_of_ok (Conn.answerC0C1_of_opened hmac random random' hopened), answer_block]
      rfl
    refine Or.inr ⟨serverCall (serverPart hmac random random' .first) s, ?_, ?_⟩
    · rw [step_server hmac random random' hserverAt]
      exact if_pos harrived
    · simp only [serverCall, Progress.after, hpart]
      have hup := (h.up.skip harrived).of_sentOut (3 :: block ++ block)
      have hdown := (h.down.of_skip 1537).sentOut (3 :: block ++ block)
      rw [Stage.up, List.drop_of_length_le hlength.le] at hup
      exact ⟨h.client, h.talkAt, congrArg (fun c : ServerConn =>
        { c with conn := (s.talk.server.conn.skip 1537).sentOut (3 :: block ++ block) }) h.server, h.listensAt,
        h.clientAt, rfl, hup, hdown⟩
  · refine Or.inl ⟨?_, hflight⟩
    rw [step_server hmac random random' hserverAt]
    exact if_neg hwaits

theorem Shaking.answered (h : Shaking order app tcurl title .answered s) :
    step hmac random random' order s .client = none ∧ s.talk.downward ≠ [] ∨
      ∃ t, step hmac random random' order s .client = some t ∧ Shaking order app tcurl title .dials t := by
  have hclientAt : s.clientAt = .running .second := h.clientAt
  have hfront : (3 :: block).length = 1537 := by rw [List.length_cons, length_block]
  have hlength : (3 :: block ++ block).length = 3073 := by rw [List.length_append, hfront, length_block]
  obtain harrived | ⟨hwaits, hflight⟩ := h.down.arrived_or (n := 3073) hlength.ge
  · have hunread : (s.talk.client.conn.rw.unread.take 1537).drop 1 = block := by
      have hall : (s.talk.client.conn.rw.unread ++ s.talk.server.conn.rw.sent.drop s.talk.toClient).take 1537 =
          3 :: block := by
        rw [h.down.unread, Stage.down, List.take_left' hfront]
      rw [List.take_append_of_le_length (by omega)] at hall
      rw [hall]
      rfl
    have hpart : clientPart .second s.talk.client.conn = .ok (.returned none)
        { s.talk.client.conn.skip 3073 with rw := (s.talk.client.conn.skip 3073).rw.write block } := by
      have hanswer := Conn.answerS0S1S2_of_le h.down.readError harrived
      rw [hunread] at hanswer
      exact Call.bind_of_ok hanswer
    refine Or.inr ⟨clientCall (clientPart .second) s, ?_, ?_⟩
    · rw [step_client hmac random random' hclientAt]
      exact if_pos harrived
    · simp only [clientCall, Progress.after, hpart]
      have hup := (h.up.of_skip 3073).hold block
      have hdown := (h.down.skip harrived).of_hold block
      rw [Stage.down, List.drop_of_length_le hlength.le] at hdown
      exact ⟨congrArg (fun c : ConnClient => { c with conn :=
          { s.talk.client.conn.skip 3073 with rw := (s.talk.client.conn.skip 3073).rw.write block } }) h.client,
        h.talkAt, h.server, h.listensAt, rfl, h.serverAt, hup, hdown⟩
  · refine Or.inl ⟨?_, hflight⟩
    rw [step_client hmac random random' hclientAt]
    exact if_neg hwaits

/-- The first command sends the last block along. -/
theorem Shaking.dials (hconnect : Sayable (ConnClient.connectArgs order 1 app tcurl))
    (h : Shaking order app tcurl title .dials s) :
    ∃ t, step hmac random random' order s .client = some t ∧ Shaking order app tcurl title .asks t := by
  have hclientAt : s.clientAt = .returned none := h.clientAt
  have htalkAt : s.talk.clientAt = .running .dialed := h.talkAt
  have hsize : s.talk.client.conn.chunkSize = 128 := by
    rw [h.down.fresh]
    rfl
  have hcall : ConnClient.proceed order .dialed s.talk.client = .ok (.running .connect)
      { (Negotiation.Phase.connectAsked order app tcurl title).client with
        conn := (s.talk.client.conn.wrote (Stage.connect order app tcurl)).flushed } := by
    conv_lhs => rw [h.client]
    exact ConnClient.proceed_dialed hconnect (by decide : 0 < 2 ^ 32) (by rw [hsize]; decide) (by rw [hsize]; decide)
  have hwrote : (s.talk.client.conn.wrote (Stage.connect order app tcurl)).flushed =
      s.talk.client.conn.sentOut (Conn.sessionBytes (Stage.connect order app tcurl) 128) := by
    rw [h.down.fresh]
    rfl
  refine ⟨{ s with talk := Negotiation.clientCall (ConnClient.proceed order .dialed) s.talk }, ?_, ?_⟩
  · simp only [step, hclientAt, onTalk, Negotiation.step, htalkAt, Option.map_some]
  · simp only [Negotiation.clientCall, Progress.after, hcall, hwrote]
    exact ⟨rfl, rfl, h.server, h.listensAt, h.clientAt, h.serverAt, h.up.sentOut _, h.down.of_sentOut _⟩

theorem Shaking.asks (hconnect : Sayable (ConnClient.connectArgs order 1 app tcurl))
    (h : Shaking order app tcurl title .asks s) :
    step hmac random random' order s .server = none ∧ s.talk.upward ≠ [] ∨
      ∃ t, step hmac random random' order s .server = some t ∧
        Talking (.connectAsked order app tcurl title) t := by
  have hserverAt : s.serverAt = .running .second := h.serverAt
  have hlength : 1536 ≤ (Stage.up order app tcurl .asks).length := by
    rw [Stage.up, List.length_append, length_block]
    exact Nat.le_add_right _ _
  obtain harrived | ⟨hwaits, hflight⟩ := h.up.arrived_or hlength
  · have hpart : serverPart hmac random random' .second s.talk.server.conn =
        .ok (.returned none) (s.talk.server.conn.skip 1536) := by
      rw [serverPart, Conn.readC2, Call.bind_bind, Call.bind_of_ok (Conn.readFull_of_le h.up.readError harrived)]
      rfl
    refine Or.inr ⟨serverCall (serverPart hmac random random' .second) s, ?_, ?_⟩
    · rw [step_server hmac random random' hserverAt]
      exact if_pos harrived
    · simp only [serverCall, Progress.after, hpart]
      have hup := h.up.skip harrived
      have hdown := h.down.of_skip 1536
      rw [Stage.up, List.drop_left' length_block] at hup
      refine ⟨h.clientAt, rfl, h.client, h.talkAt, congrArg (fun c : ServerConn =>
        { c with conn := s.talk.server.conn.skip 1536 }) h.server, h.listensAt, ?_, ?_⟩
      · refine hup.link (List.forall_mem_singleton.mpr (hconnect.writable (by decide : 0 < 2 ^ 32)))
          (List.forall_mem_singleton.mpr rfl) ?_ ?_
        · rw [h.down.fresh]
          rfl
        · have hsum := @Negotiation.Phase.length_singleton_le 0 _ hconnect 0
          rwa [Nat.zero_add, Nat.zero_add] at hsum
      · have hnothing : Flow _ _ _ (Conn.sessionBytes [] 128) [] := hdown
        refine hnothing.link (by simp) (by simp) ?_ (le_refl 0)
        rw [h.up.fresh]
        rfl
  · refine Or.inl ⟨?_, hflight⟩
    rw [step_server hmac random random' hserverAt]
    exact if_neg hwaits

/-! ### Every step leads on -/

theorem Flow.waits {writer reader : Conn} {arrived n : Nat} {held : Bytes} (h : Flow writer arrived reader [] held)
    (hn : 0 < n) : ¬n ≤ reader.rw.unread.length := by
  have hle := h.length_le
  rw [List.length_nil] at hle
  omega

theorem step_toServer {n : Nat} : step hmac random random' order s (.toServer n) = some t ↔
    ∃ talk, Negotiation.step order s.talk (.toServer n) = some talk ∧ { s with talk } = t := Option.map_eq_some_iff

theorem step_toClient {n : Nat} : step hmac random random' order s (.toClient n) = some t ↔
    ∃ talk, Negotiation.step order s.talk (.toClient n) = some talk ∧ { s with talk } = t := Option.map_eq_some_iff

theorem Shaking.arrive_toServer (h : Shaking order app tcurl title stage s) {n : Nat}
    (hstep : step hmac random random' order s (.toServer n) = some t) :
    Shaking order app tcurl title stage t ∧ Negotiation.flight t.talk < Negotiation.flight s.talk := by
  obtain ⟨talk, htalk, rfl⟩ := (step_toServer hmac random random').mp hstep
  obtain ⟨⟨hpos, hle⟩, rfl⟩ := Negotiation.step_toServer.mp htalk
  refine ⟨⟨h.client, h.talkAt, ?_, h.listensAt, h.clientAt, h.serverAt, h.up.arrive hle, h.down.of_more _⟩, ?_⟩
  · exact congrArg (fun c : ServerConn => { c with conn := s.talk.server.conn.more (s.talk.upward.take n) }) h.server
  · simp only [Negotiation.flight, Negotiation.upward, Negotiation.downward, List.length_drop, Conn.more,
      ReadWriter.more] at hle ⊢
    omega

theorem Shaking.arrive_toClient (h : Shaking order app tcurl title stage s) {n : Nat}
    (hstep : step hmac random random' order s (.toClient n) = some t) :
    Shaking order app tcurl title stage t ∧ Negotiation.flight t.talk < Negotiation.flight s.talk := by
  obtain ⟨talk, htalk, rfl⟩ := (step_toClient hmac random random').mp hstep
  obtain ⟨⟨hpos, hle⟩, rfl⟩ := Negotiation.step_toClient.mp htalk
  refine ⟨⟨?_, h.talkAt, h.server, h.listensAt, h.clientAt, h.serverAt, h.up.of_more _, h.down.arrive hle⟩, ?_⟩
  · exact congrArg (fun c : ConnClient => { c with conn := s.talk.client.conn.more (s.talk.downward.take n) }) h.client
  · simp only [Negotiation.flight, Negotiation.upward, Negotiation.downward, List.length_drop, Conn.more,
      ReadWriter.more] at hle ⊢
    omega

/-- What a dialogue of a rank looks like. -/
inductive Ranked (order : ServerConn.RangeOrder) (app tcurl title : Bytes) : Nat → Dialogue → Prop
  | shaking {stage : Stage} {s : Dialogue} (h : Shaking order app tcurl title stage s) :
    Ranked order app tcurl title stage.left s
  | talking {p : Negotiation.Phase} {s : Dialogue} (hp : Negotiation.IsPhase order app tcurl title p)
    (hleft : p.left < 10) (h : Talking p s) : Ranked order app tcurl title p.left s

/-- The side whose turn it is. -/
def Stage.mover : Stage → Negotiation.Event
  | .greets => .client
  | .greeted => .server
  | .answered => .client
  | .dials => .client
  | .asks => .server

/-- What that side waits for is under way, or it leads to a lower rank. -/
theorem Shaking.moves (hconnect : Sayable (ConnClient.connectArgs order 1 app tcurl))
    (h : Shaking order app tcurl title stage s) :
    step hmac random random' order s stage.mover = none ∧ (s.talk.upward ≠ [] ∨ s.talk.downward ≠ []) ∨
      ∃ t, step hmac random random' order s stage.mover = some t ∧
        ∃ m < stage.left, Ranked order app tcurl title m t := by
  cases stage with
  | greets =>
      obtain ⟨t, hstep, ht⟩ := h.greets hmac random random'
      exact Or.inr ⟨t, hstep, 14, by decide, .shaking ht⟩
  | greeted =>
      obtain ⟨hnone, hflight⟩ | ⟨t, hstep, ht⟩ := h.greeted hmac random random'
      · exact Or.inl ⟨hnone, Or.inl hflight⟩
      · exact Or.inr ⟨t, hstep, 13, by decide, .shaking ht⟩
  | answered =>
      obtain ⟨hnone, hflight⟩ | ⟨t, hstep, ht⟩ := h.answered hmac random random'
      · exact Or.inl ⟨hnone, Or.inr hflight⟩
      · exact Or.inr ⟨t, hstep, 12, by decide, .shaking ht⟩
  | dials =>
      obtain ⟨t, hstep, ht⟩ := h.dials hmac random random' hconnect
      exact Or.inr ⟨t, hstep, 11, by decide, .shaking ht⟩
  | asks =>
      obtain ⟨hnone, hflight⟩ | ⟨t, hstep, ht⟩ := h.asks hmac random random' hconnect
      · exact Or.inl ⟨hnone, Or.inl hflight⟩
      · exact Or.inr ⟨t, hstep, 9, by decide, .talking .connectAsked (by decide : 9 < 10) ht⟩

/-- The other side waits. -/
theorem Shaking.client_waits (h : Shaking order app tcurl title stage s) (hmover : stage.mover = .server) :
    step hmac random random' order s .client = none := by
  cases stage with
  | greets => cases hmover
  | greeted =>
      rw [step_client hmac random random' (show s.clientAt = .running .second from h.clientAt)]
      exact if_neg (h.down.waits (by decide))
  | answered => cases hmover
  | dials => cases hmover
  | asks =>
      have hclientAt : s.clientAt = .returned none := h.clientAt
      have htalkAt : s.talk.clientAt = .running .connect := h.talkAt
      have hnothing : Flow _ _ _ (Conn.sessionBytes [] 128) [] := h.down
      have hsize : s.talk.server.conn.chunkSize = 128 := by
        rw [h.up.fresh]
        rfl
      have hidle := (hnothing.link (by simp) (by simp) hsize (le_refl 0)).read_nil.1
      simp only [step, hclientAt, onTalk, Negotiation.step, htalkAt, hidle, Option.map_none]

theorem Shaking.server_waits (h : Shaking order app tcurl title stage s) (hmover : stage.mover = .client) :
    step hmac random random' order s .server = none := by
  cases stage with
  | greets =>
      rw [step_server hmac random random' (show s.serverAt = .running .first from h.serverAt)]
      exact if_neg (h.up.waits (by decide))
  | greeted => cases hmover
  | answered =>
      rw [step_server hmac random random' (show s.serverAt = .running .second from h.serverAt)]
      exact if_neg (h.up.waits (by decide))
  | dials =>
      rw [step_server hmac random random' (show s.serverAt = .running .second from h.serverAt)]
      exact if_neg (h.up.waits (by decide))
  | asks => cases hmover

theorem Stage.mover_cases (stage : Stage) : stage.mover = .client ∨ stage.mover = .server := by
  cases stage with
  | greets => exact Or.inl rfl
  | greeted => exact Or.inr rfl
  | answered => exact Or.inl rfl
  | dials => exact Or.inl rfl
  | asks => exact Or.inr rfl

theorem Shaking.keeps (hconnect : Sayable (ConnClient.connectArgs order 1 app tcurl))
    (h : Shaking order app tcurl title stage s) {e : Negotiation.Event}
    (hstep : step hmac random random' order s e = some t) :
    Shaking order app tcurl title stage t ∧ Negotiation.flight t.talk < Negotiation.flight s.talk ∨
      ∃ m < stage.left, Ranked order app tcurl title m t := by
  have hmoves := h.moves hmac random random' hconnect
  have hside : step hmac random random' order s stage.mover = some t → ∃ m < stage.left, Ranked order app tcurl title m t := by
    intro hstep
    obtain ⟨hnone, -⟩ | ⟨t', hstep', ht'⟩ := hmoves
    · exact absurd (hstep.symm.trans hnone) nofun
    · cases hstep.symm.trans hstep'
      exact ht'
  cases e with
  | toServer n => exact Or.inl (h.arrive_toServer hmac random random' hstep)
  | toClient n => exact Or.inl (h.arrive_toClient hmac random random' hstep)
  | client =>
      obtain hmover | hmover := stage.mover_cases
      · exact Or.inr (hside (by rw [hmover]; exact hstep))
      · exact absurd (hstep.symm.trans (h.client_waits hmac random random' hmover)) nofun
  | server =>
      obtain hmover | hmover := stage.mover_cases
      · exact absurd (hstep.symm.trans (h.server_waits hmac random random' hmover)) nofun
      · exact Or.inr (hside (by rw [hmover]; exact hstep))

/-- Behind the handshake a dialogue is a negotiation. -/
theorem step_talking (hclientAt : s.clientAt = .returned none) (hserverAt : s.serverAt = .returned none)
    (e : Negotiation.Event) : step hmac random random' order s e = onTalk order s e := by
  cases e with
  | toServer n => rfl
  | toClient n => rfl
  | client => simp only [step, hclientAt]
  | server => simp only [step, hserverAt]

theorem Ranked.keeps (horder : ∀ obj, (order obj).Perm obj)
    (hconnect : Sayable (ConnClient.connectArgs order 1 app tcurl)) (hpublish : Sayable (ConnClient.publishArgs 3 title))
    {n : Nat} {e : Negotiation.Event} (h : Ranked order app tcurl title n s)
    (hstep : step hmac random random' order s e = some t) :
    Ranked order app tcurl title n t ∧ Negotiation.flight t.talk < Negotiation.flight s.talk ∨
      ∃ m < n, Ranked order app tcurl title m t := by
  cases h with
  | shaking h =>
      obtain ⟨ht, hlt⟩ | hlower := h.keeps hmac random random' hconnect hstep
      · exact Or.inl ⟨.shaking ht, hlt⟩
      · exact Or.inr hlower
  | talking hp hleft h =>
      rw [step_talking hmac random random' h.clientAt h.serverAt] at hstep
      obtain ⟨talk, htalk, rfl⟩ := Option.map_eq_some_iff.mp hstep
      obtain ⟨ht, hlt⟩ | ⟨q, hq, ht, hlt⟩ := h.talk.keeps horder hconnect hpublish hp htalk
      · exact Or.inl ⟨.talking hp hleft ⟨h.clientAt, h.serverAt, ht⟩, hlt⟩
      · exact Or.inr ⟨q.left, hlt, .talking hq (hlt.trans hleft) ⟨h.clientAt, h.serverAt, ht⟩⟩

/-- A dialogue goes on until both sides agree. -/
theorem Ranked.enabled (horder : ∀ obj, (order obj).Perm obj)
    (hconnect : Sayable (ConnClient.connectArgs order 1 app tcurl)) (hpublish : Sayable (ConnClient.publishArgs 3 title))
    {n : Nat} (h : Ranked order app tcurl title n s) :
    (s.clientAt = .returned none ∧ s.serverAt = .returned none ∧ Negotiation.Agreed app tcurl title s.talk) ∨
      ∃ e t, step hmac random random' order s e = some t := by
  have harrive : ∀ {q : Bytes}, q ≠ [] → 0 < q.length ∧ q.length ≤ q.length := fun hq =>
    ⟨List.length_pos_iff.mpr hq, le_refl _⟩
  cases h with
  | shaking h =>
      refine Or.inr ?_
      obtain ⟨-, hup | hdown⟩ | ⟨t, hstep, -⟩ := h.moves hmac random random' hconnect
      · exact ⟨.toServer s.talk.upward.length, _,
          (step_toServer hmac random random').mpr ⟨_, Negotiation.step_toServer.mpr ⟨harrive hup, rfl⟩, rfl⟩⟩
      · exact ⟨.toClient s.talk.downward.length, _,
          (step_toClient hmac random random').mpr ⟨_, Negotiation.step_toClient.mpr ⟨harrive hdown, rfl⟩, rfl⟩⟩
      · exact ⟨_, t, hstep⟩
  | talking hp hleft h =>
      obtain rfl | ⟨e, talk, htalk⟩ := h.talk.enabled horder hconnect hpublish hp
      · exact Or.inl ⟨h.clientAt, h.serverAt, h.talk.agreed⟩
      · refine Or.inr ⟨e, { s with talk }, ?_⟩
        rw [step_talking hmac random random' h.clientAt h.serverAt, onTalk, htalk, Option.map_some]

/-- Not before the client has sent its first command is the server through with the handshake. -/
theorem Ranked.commanded {n : Nat} (h : Ranked order app tcurl title n s) (hserverAt : s.serverAt = .returned none) :
    s.clientAt = .returned none ∧ s.talk.clientAt ≠ .running .dialed := by
  cases h with
  | @shaking stage _ h =>
      have hstage := h.serverAt.symm.trans hserverAt
      cases stage <;> cases hstage
  | talking hp hleft h =>
      refine ⟨h.clientAt, ?_⟩
      rw [h.talk.clientAt]
      cases hp with
      | dialed => exact absurd hleft (by decide : ¬10 < 10)
      | connectAsked => nofun
      | connectAnswered rest hrest => nofun
      | createStreamAsked => nofun
      | createStreamAnswered => nofun
      | publishAsked => nofun
      | publishAnswered => nofun
      | agreed => nofun

end Dialogue

end Livego
