import Livego.RtmpCreateStream
import Livego.RtmpReadWhole
import Livego.RtmpRelayChain

/-! A client that plays, up to the stream itself: the command, what the server answers, and what of it `Start` reads. -/

namespace Livego

open Fallible ChunkStream
open Amf (Value Object)

namespace ServerConn

variable (order : RangeOrder)

/-- A turn of the loop of `ReadMsg`. -/
def msgTurn (_ : Unit) : Call GoError ServerConn (Unit ⊕ Unit) := do
  let c ← onConn Conn.read
  let done ← readMsgTurn order c
  pure (if done then .inr () else .inl ())

/-- Every message takes a byte of the stream, which bounds the turns. -/
def readMsg : Reply := do
  let s ← Call.get
  Call.loop (msgTurn order) (s.conn.rw.unread.length + 1) ()

/-- The statuses of a stream that is played. -/
def playStatuses : List (List Value) :=
  [onStatusArgs order "NetStream.Play.Reset" "Playing and resetting stream.",
    onStatusArgs order "NetStream.Play.Start" "Started playing stream.",
    onStatusArgs order "NetStream.Data.Start" "Started playing stream.",
    onStatusArgs order "NetStream.Play.PublishNotify" "Started playing notify."]

def streamEvents : List ChunkStream := [Conn.streamEvent Conn.streamIsRecorded, Conn.streamEvent Conn.streamBegin]

/-- What is sent for a command to play on the stream `streamID`. -/
def playMessages (streamID : Nat) : List ChunkStream := streamEvents ++ (playStatuses order).map (commandMessage streamID)

variable {order} {s : ServerConn} {c : ChunkStream}

theorem writable_streamEvents : ∀ m ∈ streamEvents, m.Writable :=
  List.forall_mem_cons.mpr ⟨⟨by constructor <;> decide, fun h => absurd h (by decide), fun h => absurd h (by decide)⟩,
    List.forall_mem_singleton.mpr
      ⟨by constructor <;> decide, fun h => absurd h (by decide), fun h => absurd h (by decide)⟩⟩

theorem sayable_onStatusArgs (horder : ∀ obj, (order obj).Perm obj) {code description : String}
    (hcode : (lit code).length < 2 ^ 32) (hdescription : (lit description).length < 2 ^ 32)
    (hlt : (Amf.batchBytes (onStatusArgs id code description)).length < 512000) :
    Sayable (onStatusArgs order code description) := by
  refine ⟨portable_onStatusArgs horder hcode hdescription, Amf.ends_of_getLast rfl (by simp [Value.EndsEmpty]),
    by simp [onStatusArgs], ?_⟩
  simp only [onStatusArgs, Amf.batchBytes, List.length_append, Amf.length_amf0Bytes_perm (horder _)] at hlt ⊢
  exact hlt

theorem sayable_playStatuses (horder : ∀ obj, (order obj).Perm obj) : ∀ args ∈ playStatuses order, Sayable args :=
  List.forall_mem_cons.mpr ⟨sayable_onStatusArgs horder (by decide) (by decide) (by decide),
    List.forall_mem_cons.mpr ⟨sayable_onStatusArgs horder (by decide) (by decide) (by decide),
      List.forall_mem_cons.mpr ⟨sayable_onStatusArgs horder (by decide) (by decide) (by decide),
        List.forall_mem_singleton.mpr (sayable_onStatusArgs horder (by decide) (by decide) (by decide))⟩⟩⟩

theorem writable_playMessages (horder : ∀ obj, (order obj).Perm obj) {streamID : Nat} (hid : streamID < 2 ^ 32) :
    ∀ m ∈ playMessages order streamID, m.Writable := by
  refine List.forall_mem_append.mpr ⟨writable_streamEvents, ?_⟩
  intro m hm
  obtain ⟨args, hargs, rfl⟩ := List.mem_map.mp hm
  exact (sayable_playStatuses horder args hargs).writable hid

theorem keepsWindow_playMessages {streamID : Nat} :
    ∀ m ∈ playMessages order streamID, Conn.windowAfter m 2500000 = 2500000 := by
  refine List.forall_mem_append.mpr ⟨List.forall_mem_cons.mpr ⟨rfl, List.forall_mem_singleton.mpr rfl⟩, ?_⟩
  intro m hm
  obtain ⟨args, -, rfl⟩ := List.mem_map.mp hm
  rfl

end ServerConn

namespace Conn

theorem flushed_wrote_flushed (ms ms' : List ChunkStream) (conn : Conn) :
    ((conn.wrote ms).flushed.wrote ms').flushed = (conn.wrote (ms ++ ms')).flushed := by
  simp only [wrote, flushed, ReadWriter.write, ReadWriter.flush, sizeAfterAll_append, sessionBytes_append,
    List.nil_append, List.append_assoc]

theorem flushed_flushed (conn : Conn) : conn.flushed.flushed = conn.flushed := by
  simp only [flushed, ReadWriter.flush, List.append_nil]

end Conn

namespace ConnServer

/-- The name is the third argument, and there is no type. -/
theorem play_eq {n : Int} (hn : n.natAbs < 2 ^ 53) (name : Bytes) (s : ConnServer) :
    publishOrPlay [(Value.int n).arrived, Value.null.arrived, (Value.string name).arrived] s =
      .ok () { s with transactionID := n, publishInfo := { s.publishInfo with name } } := by
  have hid : publishOrPlayValue (.number (Float64.ofInt n), 0) s = .ok () { s with transactionID := n } := by
    rw [publishOrPlayValue, Float64.toInt_ofInt hn]
    rfl
  simp only [Amf.arrived_int, Amf.arrived_null, Amf.arrived_string]
  exact Call.bind_of_ok hid

end ConnServer

namespace ServerConn

variable {order : RangeOrder} {s : ServerConn} {c : ChunkStream} {streamID : Nat}

theorem statuses_eq {argss : List (List Value)} (hsayable : ∀ args ∈ argss, Sayable args) (hid : streamID < 2 ^ 32)
    (hlo : 4 ≤ s.conn.chunkSize) (hhi : s.conn.chunkSize < 2 ^ 31) (hbuffered : argss = [] → s.conn.rw.buffered = []) :
    forM argss (writeMsg 3 streamID) s = .ok () { s with
      conn := (s.conn.wrote (argss.map (commandMessage streamID))).flushed } := by
  induction argss generalizing s with
  | nil =>
      obtain ⟨server, id, conn⟩ := s
      rw [Call.forM_apply_nil, List.map_nil, Conn.flushed_wrote_nil (hbuffered rfl)]
  | cons args argss ih =>
      obtain ⟨hhead, htail⟩ := List.forall_mem_cons.mp hsayable
      obtain ⟨hlo', hhi'⟩ := Conn.sizeAfterAll_bounds
        (List.forall_mem_singleton.mpr (hhead.writable hid)) hlo hhi
      have hrest := @ih { s with conn := (s.conn.wrote [commandMessage streamID args]).flushed } htail hlo' hhi' fun _ => rfl
      rw [Call.forM_apply_cons, writeMsg_eq hhead hid hlo hhi]
      rw [Conn.flushed_wrote_flushed] at hrest
      exact hrest

theorem playResp_eq (horder : ∀ obj, (order obj).Perm obj) (hcsid : c.csid = 3) (hid : c.streamID < 2 ^ 32)
    (hlo : 4 ≤ s.conn.chunkSize) (hhi : s.conn.chunkSize < 2 ^ 31) :
    playResp order c s = .ok () { s with conn := (s.conn.wrote (playMessages order c.streamID)).flushed } := by
  obtain ⟨hrecorded, hrest⟩ := List.forall_mem_cons.mp writable_streamEvents
  have hbegin := List.forall_mem_singleton.mp hrest
  let conn1 := s.conn.wrote [Conn.streamEvent Conn.streamIsRecorded]
  let conn2 := conn1.wrote [Conn.streamEvent Conn.streamBegin]
  obtain ⟨hlo1, hhi1⟩ := Conn.sizeAfterAll_bounds (List.forall_mem_singleton.mpr hrecorded) hlo hhi
  obtain ⟨hlo2, hhi2⟩ := Conn.sizeAfterAll_bounds (List.forall_mem_singleton.mpr hbegin) hlo1 hhi1
  have hstatuses := statuses_eq (s := { s with conn := conn2 }) (sayable_playStatuses horder) hid hlo2 hhi2
    (fun h => absurd h (by simp [playStatuses]))
  have hwrites : conn2.wrote ((playStatuses order).map (commandMessage c.streamID)) =
      s.conn.wrote (playMessages order c.streamID) := by
    simp only [conn2, conn1, Conn.wrote_wrote]
    rfl
  have hforM : playResp order c = (do
      onConn Conn.setRecorded
      onConn Conn.setBegin
      forM (playStatuses order) (writeMsg 3 c.streamID)
      onConn Conn.flush) := by
    simp only [playResp, playStatuses, onStatus, hcsid, List.forM_cons, List.forM_nil, Call.bind_bind, Call.pure_bind]
  have hset : onConn Conn.setRecorded s = .ok () { s with conn := conn1 } := write_eq hrecorded hlo hhi
  have hset' : onConn Conn.setBegin { s with conn := conn1 } = .ok () { s with conn := conn2 } :=
    write_eq (s := { s with conn := conn1 }) hbegin hlo1 hhi1
  rw [hforM, Call.bind_of_ok hset, Call.bind_of_ok hset', Call.bind_of_ok hstatuses, hwrites]
  have hflush : Conn.flush (s.conn.wrote (playMessages order c.streamID)).flushed =
      .ok () (s.conn.wrote (playMessages order c.streamID)).flushed :=
    congrArg (Outcome.ok ()) (Conn.flushed_flushed _)
  exact onConn_of_ok hflush

theorem command_play (horder : ∀ obj, (order obj).Perm obj) (hcsid : c.csid = 3) (hid : c.streamID < 2 ^ 32)
    (hlo : 4 ≤ s.conn.chunkSize) (hhi : s.conn.chunkSize < 2 ^ 31) (title : Bytes) :
    command order c ((ConnClient.playArgs title).map Value.arrived) s = .ok () { s with
      server.transactionID := 0
      server.publishInfo := { s.server.publishInfo with name := title }
      server.done := true
      server.isPublisher := false
      conn := (s.conn.wrote (playMessages order c.streamID)).flushed } := by
  have hplay := onServer_of_ok (s := s) (ConnServer.play_eq (by decide : (0 : Int).natAbs < 2 ^ 53) title s.server)
  have hresp := playResp_eq (s := { s with
    server.transactionID := 0
    server.publishInfo := { s.server.publishInfo with name := title } }) horder hcsid hid hlo hhi
  simp only [ConnClient.playArgs, List.map_cons, List.map_nil, Amf.arrived_string, command,
    if_neg (by decide : ¬lit "play" = lit "connect"), if_neg (by decide : ¬lit "play" = lit "createStream"),
    if_neg (by decide : ¬lit "play" = lit "publish"), if_true]
  exact (Call.bind_of_ok hplay).trans (Call.bind_of_ok hresp)

/-- A command that the server is done with is the last that is read. -/
theorem readMsg_of_command {args : List Value} (h : Sayable args) {conn : Conn} {s' : ServerConn}
    (hread : Conn.read s.conn = .ok c conn) (hc : c.message = (commandMessage streamID args).message)
    (hcommand : command order c (args.map Value.arrived) { s with conn } = .ok () s') (hdone : s'.server.done = true) :
    readMsg order s = .ok () s' := by
  have hturn : msgTurn order () s = .ok (.inr ()) s' := by
    rw [msgTurn, Call.bind_of_ok (onConn_of_ok hread), Call.bind_of_ok (readMsgTurn_command order h hc hcommand), hdone]
    rfl
  rw [readMsg, Call.get_bind_apply, Call.loop_succ, hturn]

end ServerConn

/-! ### What the client reads -/

namespace ConnClient

variable {order : ServerConn.RangeOrder} {c : ConnClient} {streamID : Nat}

theorem sayable_playArgs {title : Bytes} (htitle : title ≠ [])
    (hlt : (Amf.batchBytes (playArgs title)).length < 512000) : Sayable (playArgs title) := by
  have hplay : playArgs title ≠ playArgs [] := by
    simp [playArgs, htitle]
  exact ⟨portable_playArgs (by omega), (Said.play title).ends hplay, by simp [playArgs], hlt⟩

/-- Whatever the response is, a client that plays takes it. -/
theorem respValues_play (hcmd : c.curcmdName = lit "play") (vs : List (Value × Nat)) : vs.forM respValue c = .ok () c := by
  have hconnect : ¬(c.curcmdName = lit "connect") := by rw [hcmd]; decide
  have hcreate : ¬(c.curcmdName = lit "createStream") := by rw [hcmd]; decide
  have hpublish : ¬(c.curcmdName = lit "publish") := by rw [hcmd]; decide
  induction vs with
  | nil => rfl
  | cons v vs ih =>
      have hv : respValue v c = .ok () c := by
        obtain ⟨v, k⟩ := v
        cases v with
        | string str | number bits | object objmap =>
            simp only [respValue, Call.get_bind_apply, hconnect, hcreate, hpublish, or_self, if_false]
            rfl
        | _ => rfl
      exact (Call.bind_of_ok hv).trans ih

/-- A message that is no command is passed over. -/
theorem respTurn_other {rc : ChunkStream} {conn : Conn} (hread : Conn.read c.conn = .ok rc conn)
    (htype : rc.typeID ≠ 20 ∧ rc.typeID ≠ 17) : respTurn () c = .ok (.inl ()) { c with conn } := by
  rw [respTurn_of_ok hread, Call.bind_of_ok (readRespTurn_other htype _)]
  rfl

/-- The first command is the response. -/
theorem respTurn_play {args : List Value} (h : Sayable args) (hcmd : c.curcmdName = lit "play") {rc : ChunkStream}
    {conn : Conn} (hread : Conn.read c.conn = .ok rc conn) (hrc : rc.message = (commandMessage streamID args).message) :
    respTurn () c = .ok (.inr ()) { c with conn } := by
  have hresp : readRespTurn rc { c with conn } = .ok true { c with conn } := by
    rw [readRespTurn_command h hrc, Call.bind_of_ok (@respValues_play { c with conn } hcmd _)]
    rfl
  rw [respTurn_of_ok hread, Call.bind_of_ok hresp]
  rfl

/-- The client reads the events and the first status, and leaves what comes after. -/
theorem readRespMsg_play (horder : ∀ obj, (order obj).Perm obj) (hcmd : c.curcmdName = lit "play") {rest : List Message}
    (hreads : Conn.ReadsAll ((ServerConn.playMessages order streamID).map (fun m => m.assignCsid.message) ++ rest) c.conn) :
    ∃ conn, readRespMsg c = .ok () { c with conn } ∧ Conn.ReadsAll
      (((ServerConn.playStatuses order).tail.map (commandMessage streamID)).map (fun m => m.assignCsid.message) ++ rest)
      conn := by
  obtain ⟨rc1, conn1, hread1, hmessage1, rc2, conn2, hread2, hmessage2, rc3, conn3, hread3, hmessage3, hrest⟩ := hreads
  have htype1 : rc1.typeID = 4 := congrArg Message.typeID hmessage1
  have htype2 : rc2.typeID = 4 := congrArg Message.typeID hmessage2
  have hturn1 := respTurn_other hread1 (by rw [htype1]; decide)
  have hturn2 := @respTurn_other { c with conn := conn1 } _ _ hread2 (by rw [htype2]; decide)
  have hturn3 := @respTurn_play { c with conn := conn2 } _ _
    (ServerConn.sayable_playStatuses horder _ List.mem_cons_self) hcmd _ _ hread3 hmessage3
  exact ⟨conn3, readRespMsg_eq_ok.mpr ⟨_, .next hturn1 (.next hturn2 (.here () _)), hturn3⟩, hrest⟩

end ConnClient

namespace Conn

/-- The whole of a message has arrived, and is read. -/
theorem Linked.read_all {most most' toB toA : Nat} {a b : Conn} {m : ChunkStream} {ups downs : List ChunkStream}
    (h : Linked most most' a b toB toA (m :: ups) downs) (hmost : most < 2500000) :
    ∃ c b' toB', Conn.read (b.more (a.rw.sent.drop toB)) = .ok c b' ∧ c.message = m.assignCsid.message ∧
      Linked most most' a b' toB' toA ups downs := by
  have harrived := h.arrive (le_refl (a.rw.sent.drop toB).length)
  rw [List.take_length] at harrived
  obtain ⟨-, hflight⟩ | ⟨c, b', hread, hmessage, hlinked⟩ := harrived.read hmost
  · refine absurd ?_ hflight
    rw [← List.drop_drop, List.drop_length]
  · refine ⟨c, b', _, ?_, hmessage, hlinked⟩
    unfold readArrived at hread
    dsimp only at hread
    split_ifs at hread
    exact Option.some.inj hread

/-- What is still to be read of a writer, and what it writes then. -/
theorem Link.readsAll {budget arrived : Nat} {writer reader : Conn} {ms ms' : List ChunkStream}
    (h : Link budget writer arrived reader ms) (hms' : ∀ m ∈ ms', m.Writable) :
    ReadsAll ((ms ++ ms').map fun m => m.assignCsid.message)
      (reader.more (writer.rw.sent.drop arrived ++ sessionBytes ms' writer.chunkSize)) := by
  apply (h.idle.more _).readsAll (List.forall_mem_append.mpr ⟨h.writable, hms'⟩) h.size_ge h.size_lt
  calc reader.rw.unread ++ (writer.rw.sent.drop arrived ++ sessionBytes ms' writer.chunkSize)
      = sessionBytes ms reader.remoteChunkSize ++ sessionBytes ms' writer.chunkSize := by
        rw [← List.append_assoc, h.unread]
    _ = sessionBytes (ms ++ ms') reader.remoteChunkSize := by rw [sessionBytes_append, h.chunkSize]

end Conn

variable {order : ServerConn.RangeOrder} {client : ConnClient} {server : ServerConn} {ms : List ChunkStream}
  {most most' toServer toClient : Nat}

/-- The command and what the server makes of it, on connections on which nothing is on its way. -/
theorem answers_play (horder : ∀ obj, (order obj).Perm obj)
    (hlinked : Conn.Linked most most' client.conn server.conn toServer toClient [] [])
    (hid : client.streamid < 2 ^ 32) (htitle : client.title ≠ [])
    (hlt : (Amf.batchBytes (ConnClient.playArgs client.title)).length < 512000)
    (hmost : most + (Amf.batchBytes (ConnClient.playArgs client.title)).length < 2500000) :
    ∃ asked answered toServer', ConnClient.sendPlay client = .ok () asked ∧ asked.curcmdName = lit "play" ∧
      ServerConn.readMsg order { server with conn := server.conn.more (asked.conn.rw.sent.drop toServer) } =
        .ok () answered ∧
      answered.server.done = true ∧ answered.server.isPublisher = false ∧
      answered.server.publishInfo.name = client.title ∧
      ∃ most most', Conn.Linked most most' asked.conn answered.conn toServer' toClient []
        (ServerConn.playMessages order client.streamid) := by
  have hsayable := ConnClient.sayable_playArgs htitle hlt
  have hwritable := hsayable.writable hid
  have hasked := @ConnClient.writeMsg_eq _ hsayable
    { client with transID := client.transID + 1, curcmdName := lit "play" } hid hlinked.up.bounds.1 hlinked.up.bounds.2
  have hwritten := (hlinked.symm.write (List.forall_mem_singleton.mpr hwritable) (List.forall_mem_singleton.mpr rfl)
    (le_refl _)).symm
  rw [List.nil_append, List.map_singleton, List.sum_singleton] at hwritten
  obtain ⟨c, conn, toServer', hread, hmessage, hanswering⟩ := hwritten.read_all hmost
  have hcsid : c.csid = 3 := congrArg Message.csid hmessage
  have hstream : c.streamID = client.streamid := congrArg Message.streamID hmessage
  obtain ⟨hlo, hhi⟩ := hanswering.down.bounds
  have hcommand := ServerConn.command_play (s := { server with conn }) horder hcsid (hstream ▸ hid) hlo hhi client.title
  rw [hstream] at hcommand
  have hplaying := hanswering.write (ServerConn.writable_playMessages horder hid) ServerConn.keepsWindow_playMessages
    (le_refl _)
  exact ⟨_, _, toServer', hasked, rfl, ServerConn.readMsg_of_command hsayable hread hmessage hcommand rfl, rfl, rfl, rfl,
    _, _, hplaying⟩

theorem quiet_playStatuses (horder : ∀ obj, (order obj).Perm obj) {streamID : Nat} :
    ∀ msg ∈ ((ServerConn.playStatuses order).tail.map (commandMessage streamID)).map (fun m => m.assignCsid.message),
      PlayRelay.Quiet msg ∧ ¬PlayRelay.Passed msg := by
  intro msg hmsg
  obtain ⟨m, hm, rfl⟩ := List.mem_map.mp hmsg
  obtain ⟨args, hargs, rfl⟩ := List.mem_map.mp hm
  exact ⟨fun _ => ⟨args, ServerConn.sayable_playStatuses horder args (List.mem_of_mem_tail hargs), rfl⟩,
    (by decide : ¬(20 = 18 ∨ 20 = 8 ∨ 20 = 9))⟩

end Livego
