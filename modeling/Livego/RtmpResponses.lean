import Livego.RtmpCommandMessage

/-! The commands up to the one to publish, which the server takes and answers, and its answers, which the client
takes. -/

namespace Livego

open Fallible ChunkStream
open Amf (Value Object)

section
open Amf (Portable)
open ConnClient (connectArgs createStreamArgs publishArgs)
open ServerConn (connectProps event connectRespArgs createStreamRespArgs onStatusArgs publishRespArgs)

variable {order : ServerConn.RangeOrder}

theorem portable_connectEvent {app tcurl : Bytes} (happ : app.length < 2 ^ 32) (htcurl : tcurl.length < 2 ^ 32) :
    Portable (.object (ConnClient.connectEvent app tcurl)) := by
  refine .of_keys [lit "app", lit "type", lit "flashVer", lit "tcUrl"] rfl (by decide) (by decide) ?_
  exact List.forall_mem_cons.mpr ⟨.string happ, List.forall_mem_cons.mpr ⟨.string (by decide),
    List.forall_mem_cons.mpr ⟨.string (by decide), List.forall_mem_singleton.mpr (.string htcurl)⟩⟩⟩

theorem portable_connectArgs (horder : ∀ obj, (order obj).Perm obj) {transID : Int} {app tcurl : Bytes}
    (hlt : (Amf.batchBytes (connectArgs order transID app tcurl)).length < 2 ^ 32) :
    ∀ v ∈ connectArgs order transID app tcurl, Portable v := by
  have hmem : .object (order (ConnClient.connectEvent app tcurl)) ∈ connectArgs order transID app tcurl := by
    simp [connectArgs]
  have hstring : ∀ key str, (key, .string str) ∈ ConnClient.connectEvent app tcurl → str.length < 2 ^ 32 := by
    intro key str he
    exact (Amf.length_le_of_mem_object ((horder _).mem_iff.mpr he) hmem).trans_lt hlt
  have hevent := portable_connectEvent (hstring (lit "app") app (by simp [ConnClient.connectEvent]))
    (hstring (lit "tcUrl") tcurl (by simp [ConnClient.connectEvent]))
  exact List.forall_mem_cons.mpr ⟨.string (by decide), List.forall_mem_cons.mpr ⟨.int transID,
    List.forall_mem_singleton.mpr (hevent.perm (horder _))⟩⟩

theorem sayable_connectArgs (horder : ∀ obj, (order obj).Perm obj) {transID : Int} {app tcurl : Bytes}
    (hlt : (Amf.batchBytes (connectArgs order transID app tcurl)).length < 512000) :
    Sayable (connectArgs order transID app tcurl) :=
  ⟨portable_connectArgs horder (hlt.trans (by decide)), Amf.ends_of_getLast rfl (by simp [Value.EndsEmpty]),
    by simp [connectArgs], hlt⟩

theorem portable_createStreamArgs (transID : Int) : ∀ v ∈ createStreamArgs transID, Portable v :=
  List.forall_mem_cons.mpr ⟨.string (by decide), List.forall_mem_cons.mpr ⟨.int transID,
    List.forall_mem_singleton.mpr .null⟩⟩

theorem sayable_createStreamArgs : Sayable (createStreamArgs 2) :=
  ⟨portable_createStreamArgs 2, Amf.ends_of_getLast rfl (by simp [Value.EndsEmpty]), by simp [createStreamArgs],
    by decide⟩

theorem portable_publishArgs {transID : Int} {title : Bytes}
    (hlt : (Amf.batchBytes (publishArgs transID title)).length < 2 ^ 32) :
    ∀ v ∈ publishArgs transID title, Portable v := by
  have htitle : title.length < 2 ^ 32 := Amf.length_lt_of_mem (by simp [publishArgs]) hlt
  exact List.forall_mem_cons.mpr ⟨.string (by decide), List.forall_mem_cons.mpr ⟨.int transID,
    List.forall_mem_cons.mpr ⟨.null, List.forall_mem_cons.mpr ⟨.string htitle,
      List.forall_mem_singleton.mpr (.string (by decide))⟩⟩⟩⟩

theorem ends_publishArgs (transID : Int) (title : Bytes) :
    Amf.Ends .bytesReader ((publishArgs transID title).map Value.arrived) := by
  have hlive : ¬(Value.arrived (.string (lit "live"))).EndsEmpty := by
    rw [Amf.arrived_string]
    exact (by decide : lit "live" ≠ [])
  exact Amf.ends_of_getLast rfl hlive

theorem sayable_publishArgs {title : Bytes} (hlt : (Amf.batchBytes (publishArgs 3 title)).length < 512000) :
    Sayable (publishArgs 3 title) :=
  ⟨portable_publishArgs (hlt.trans (by decide)), ends_publishArgs 3 title, by simp [publishArgs], hlt⟩

theorem portable_connectProps : Portable (.object connectProps) := by
  refine .of_keys [lit "fmsVer", lit "capabilities"] rfl (by decide) (by decide) ?_
  exact List.forall_mem_cons.mpr ⟨.string (by decide), List.forall_mem_singleton.mpr (.int 31)⟩

theorem portable_connectSuccess (objectEncoding : Int) :
    Portable (.object (ServerConn.connectEvent objectEncoding)) := by
  refine .of_keys [lit "level", lit "code", lit "description", lit "objectEncoding"] rfl (by decide) (by decide) ?_
  exact List.forall_mem_cons.mpr ⟨.string (by decide), List.forall_mem_cons.mpr ⟨.string (by decide),
    List.forall_mem_cons.mpr ⟨.string (by decide), List.forall_mem_singleton.mpr (.int objectEncoding)⟩⟩⟩

theorem portable_event {code description : String} (hcode : (lit code).length < 2 ^ 32)
    (hdescription : (lit description).length < 2 ^ 32) : Portable (.object (event code description)) := by
  refine .of_keys [lit "level", lit "code", lit "description"] rfl (by decide) (by decide) ?_
  exact List.forall_mem_cons.mpr ⟨.string (by decide), List.forall_mem_cons.mpr ⟨.string hcode,
    List.forall_mem_singleton.mpr (.string hdescription)⟩⟩

theorem portable_connectRespArgs (horder : ∀ obj, (order obj).Perm obj) (objectEncoding transactionID : Int) :
    ∀ v ∈ connectRespArgs order objectEncoding transactionID, Portable v :=
  List.forall_mem_cons.mpr ⟨.string (by decide), List.forall_mem_cons.mpr ⟨.int transactionID,
    List.forall_mem_cons.mpr ⟨portable_connectProps.perm (horder _),
      List.forall_mem_singleton.mpr ((portable_connectSuccess objectEncoding).perm (horder _))⟩⟩⟩

theorem sayable_connectRespArgs (horder : ∀ obj, (order obj).Perm obj) : Sayable (connectRespArgs order 0 1) := by
  refine ⟨portable_connectRespArgs horder 0 1, Amf.ends_of_getLast rfl (by simp [Value.EndsEmpty]),
    by simp [connectRespArgs], ?_⟩
  simp only [connectRespArgs, Amf.batchBytes, List.length_append, Amf.length_amf0Bytes_perm (horder _)]
  decide

theorem portable_createStreamRespArgs (transactionID streamID : Int) :
    ∀ v ∈ createStreamRespArgs transactionID streamID, Portable v :=
  List.forall_mem_cons.mpr ⟨.string (by decide), List.forall_mem_cons.mpr ⟨.int transactionID,
    List.forall_mem_cons.mpr ⟨.null, List.forall_mem_singleton.mpr (.int streamID)⟩⟩⟩

theorem sayable_createStreamRespArgs : Sayable (createStreamRespArgs 2 1) :=
  ⟨portable_createStreamRespArgs 2 1, Amf.ends_of_getLast rfl (by simp [Value.EndsEmpty]),
    by simp [createStreamRespArgs], by decide⟩

theorem portable_onStatusArgs (horder : ∀ obj, (order obj).Perm obj) {code description : String}
    (hcode : (lit code).length < 2 ^ 32) (hdescription : (lit description).length < 2 ^ 32) :
    ∀ v ∈ onStatusArgs order code description, Portable v :=
  List.forall_mem_cons.mpr ⟨.string (by decide), List.forall_mem_cons.mpr ⟨.int 0,
    List.forall_mem_cons.mpr ⟨.null,
      List.forall_mem_singleton.mpr ((portable_event hcode hdescription).perm (horder _))⟩⟩⟩

theorem sayable_publishRespArgs (horder : ∀ obj, (order obj).Perm obj) : Sayable (publishRespArgs order) := by
  refine ⟨portable_onStatusArgs horder (by decide) (by decide), Amf.ends_of_getLast rfl (by simp [Value.EndsEmpty]),
    by simp [publishRespArgs, onStatusArgs], ?_⟩
  simp only [publishRespArgs, onStatusArgs, Amf.batchBytes, List.length_append, Amf.length_amf0Bytes_perm (horder _)]
  decide

end

namespace ConnServer

theorem stringProperty_of_some {obimap : Object} {name : String} {str : Bytes}
    (h : obimap.lookup (lit name) = some (.string str)) (set : Bytes → ConnServer → ConnServer) (s : ConnServer) :
    stringProperty obimap name set s = .ok () (set str s) := by
  rw [stringProperty, h]
  rfl

theorem numberProperty_of_none {obimap : Object} {name : String} (h : obimap.lookup (lit name) = none)
    (set : UInt64 → ConnServer → ConnServer) (s : ConnServer) : numberProperty obimap name set s = .ok () s := by
  rw [numberProperty, h]
  rfl

/-- What the server takes from the event of the client. -/
theorem connectValue_event {order : ServerConn.RangeOrder} (horder : ∀ obj, (order obj).Perm obj) (app tcurl : Bytes)
    (s : ConnServer) :
    connectValue (Value.object (order (ConnClient.connectEvent app tcurl))).arrived s = .ok () { s with
      connInfo := { s.connInfo with app, flashver := lit "FMS.3.1", tcUrl := tcurl } } := by
  have hlookup : ∀ key, (Amf.arrivedEntries (order (ConnClient.connectEvent app tcurl))).lookup key =
      ((ConnClient.connectEvent app tcurl).lookup key).map Value.arrived := by
    apply Amf.lookup_arrived (horder _)
    exact (by decide : [lit "app", lit "type", lit "flashVer", lit "tcUrl"].Nodup)
  have happ : (Amf.arrivedEntries (order (ConnClient.connectEvent app tcurl))).lookup (lit "app") =
      some (.string app) := by
    rw [hlookup, ← Amf.arrived_string app]
    rfl
  have hflashVer : (Amf.arrivedEntries (order (ConnClient.connectEvent app tcurl))).lookup (lit "flashVer") =
      some (.string (lit "FMS.3.1")) := by
    rw [hlookup, ← Amf.arrived_string (lit "FMS.3.1")]
    rfl
  have htcUrl : (Amf.arrivedEntries (order (ConnClient.connectEvent app tcurl))).lookup (lit "tcUrl") =
      some (.string tcurl) := by
    rw [hlookup, ← Amf.arrived_string tcurl]
    rfl
  have hencoding : (Amf.arrivedEntries (order (ConnClient.connectEvent app tcurl))).lookup (lit "objectEncoding") =
      none := by
    rw [hlookup]
    rfl
  rw [Amf.arrived_object, connectValue, Call.bind_of_ok (stringProperty_of_some happ _ s),
    Call.bind_of_ok (stringProperty_of_some hflashVer _ _), Call.bind_of_ok (stringProperty_of_some htcUrl _ _),
    numberProperty_of_none hencoding]

theorem connect_eq {order : ServerConn.RangeOrder} (horder : ∀ obj, (order obj).Perm obj) (app tcurl : Bytes)
    (s : ConnServer) :
    connect [(Value.int 1).arrived, (Value.object (order (ConnClient.connectEvent app tcurl))).arrived] s =
      .ok () { s with
        transactionID := 1
        connInfo := { s.connInfo with app, flashver := lit "FMS.3.1", tcUrl := tcurl } } := by
  have hid : connectValue (Value.int 1).arrived s = .ok () { s with transactionID := 1 } := by
    rw [Amf.arrived_int]
    simp only [connectValue, Float64.toInt_ofInt (by decide : (1 : Int).natAbs < 2 ^ 53)]
    rfl
  exact (Call.bind_of_ok hid).trans (Call.bind_of_ok (connectValue_event horder app tcurl _))

theorem createStream_eq {n : Int} (hn : n.natAbs < 2 ^ 53) (s : ConnServer) :
    createStream [(Value.int n).arrived, Value.null.arrived] s = .ok () { s with transactionID := n } := by
  have hid : createStreamValue (Value.int n).arrived s = .ok () { s with transactionID := n } := by
    rw [Amf.arrived_int, createStreamValue, Float64.toInt_ofInt hn]
    rfl
  have hnull : createStreamValue Value.null.arrived = pure () := by rw [Amf.arrived_null]; rfl
  apply (Call.bind_of_ok hid).trans
  show (createStreamValue Value.null.arrived >>= _) _ = _
  rw [hnull]
  rfl

theorem publish_eq {n : Int} (hn : n.natAbs < 2 ^ 53) (name type : Bytes) (s : ConnServer) :
    publishOrPlay [(Value.int n).arrived, Value.null.arrived, (Value.string name).arrived, (Value.string type).arrived]
      s = .ok () { s with transactionID := n, publishInfo := { name, type } } := by
  have hid : publishOrPlayValue (.number (Float64.ofInt n), 0) s = .ok () { s with transactionID := n } := by
    rw [publishOrPlayValue, Float64.toInt_ofInt hn]
    rfl
  simp only [Amf.arrived_int, Amf.arrived_null, Amf.arrived_string]
  exact Call.bind_of_ok hid

end ConnServer

namespace ConnClient

variable {order : ServerConn.RangeOrder} {c : ConnClient}

theorem checkCode_of_none {objmap : Object} (h : objmap.lookup (lit "code") = none) (want : String) :
    checkCode objmap want c = .ok () c := by
  rw [checkCode, h]
  rfl

theorem checkCode_of_some {objmap : Object} {want : String}
    (h : objmap.lookup (lit "code") = some (.string (lit want))) : checkCode objmap want c = .ok () c := by
  simp only [checkCode, h, ne_eq, not_true_eq_false, if_false]
  rfl

theorem respValue_result (hcmd : c.curcmdName = lit "connect" ∨ c.curcmdName = lit "createStream") :
    respValue ((Value.string (lit "_result")).arrived, 0) c = .ok () c := by
  rw [Amf.arrived_string, respValue, Call.get_bind_apply, if_pos hcmd, if_neg (not_not.mpr rfl)]
  rfl

theorem respValue_transID (hcmd : c.curcmdName = lit "connect" ∨ c.curcmdName = lit "createStream")
    (hid : c.transID.natAbs < 2 ^ 53) : respValue ((Value.int c.transID).arrived, 1) c = .ok () c := by
  rw [Amf.arrived_int, respValue, Call.get_bind_apply, Float64.toInt_ofInt hid]
  simp only [if_pos hcmd, if_true, ne_eq, not_true_eq_false, if_false]
  rfl

/-- The client accepts the response to `connect`. -/
theorem respValues_connect (horder : ∀ obj, (order obj).Perm obj) (hcmd : c.curcmdName = lit "connect")
    (hid : c.transID = 1) :
    ((ServerConn.connectRespArgs order 0 1).map Value.arrived).zipIdx.forM respValue c = .ok () c := by
  have hresult := respValue_result (c := c) (Or.inl hcmd)
  have htransID := respValue_transID (c := c) (Or.inl hcmd) (by rw [hid]; decide)
  rw [hid] at htransID
  have hprops : respValue ((Value.object (order ServerConn.connectProps)).arrived, 2) c = .ok () c := by
    rw [Amf.arrived_object, respValue, Call.get_bind_apply, if_pos hcmd]
    refine checkCode_of_none ?_ _
    rw [Amf.lookup_arrived (horder ServerConn.connectProps) (by decide)]
    rfl
  have hevent : respValue ((Value.object (order (ServerConn.connectEvent 0))).arrived, 3) c = .ok () c := by
    rw [Amf.arrived_object, respValue, Call.get_bind_apply, if_pos hcmd]
    apply checkCode_of_some
    rw [Amf.lookup_arrived (horder (ServerConn.connectEvent 0)) (by decide),
      ← Amf.arrived_string (lit "NetConnection.Connect.Success")]
    rfl
  exact (Call.bind_of_ok hresult).trans ((Call.bind_of_ok htransID).trans ((Call.bind_of_ok hprops).trans
    (Call.bind_of_ok hevent)))

/-- The client takes the number of its stream from the response to `createStream`. -/
theorem respValues_createStream (hcmd : c.curcmdName = lit "createStream") (hid : c.transID = 2) :
    ((ServerConn.createStreamRespArgs 2 1).map Value.arrived).zipIdx.forM respValue c =
      .ok () { c with streamid := 1 } := by
  have hresult := respValue_result (c := c) (Or.inr hcmd)
  have htransID := respValue_transID (c := c) (Or.inr hcmd) (by rw [hid]; decide)
  rw [hid] at htransID
  have hnull : respValue (Value.null.arrived, 2) c = .ok () c := by rw [Amf.arrived_null]; rfl
  have hstreamid : respValue ((Value.int 1).arrived, 3) c = .ok () { c with streamid := 1 } := by
    rw [Amf.arrived_int, respValue, Call.get_bind_apply, Float64.toInt_ofInt (by decide)]
    rw [if_pos (Or.inr hcmd)]
    rfl
  exact (Call.bind_of_ok hresult).trans ((Call.bind_of_ok htransID).trans ((Call.bind_of_ok hnull).trans
    (Call.bind_of_ok hstreamid)))

/-- The client accepts that it may publish. -/
theorem respValues_publish (horder : ∀ obj, (order obj).Perm obj) (hcmd : c.curcmdName = lit "publish") :
    ((ServerConn.publishRespArgs order).map Value.arrived).zipIdx.forM
      respValue c = .ok () c := by
  have hother : ¬(c.curcmdName = lit "connect" ∨ c.curcmdName = lit "createStream") := by
    rw [hcmd]
    decide
  have hstatus : respValue ((Value.string (lit "onStatus")).arrived, 0) c = .ok () c := by
    rw [Amf.arrived_string, respValue, Call.get_bind_apply, if_neg hother, if_pos hcmd, if_neg (not_not.mpr rfl)]
    rfl
  have hzero : respValue ((Value.int 0).arrived, 1) c = .ok () c := by
    rw [Amf.arrived_int, respValue, Call.get_bind_apply, Float64.toInt_ofInt (by decide)]
    rw [if_neg hother, if_pos hcmd]
    rfl
  have hnull : respValue (Value.null.arrived, 2) c = .ok () c := by rw [Amf.arrived_null]; rfl
  have hevent : respValue
      ((Value.object (order (ServerConn.event "NetStream.Publish.Start" "Start publishing."))).arrived, 3) c =
      .ok () c := by
    rw [Amf.arrived_object, respValue, Call.get_bind_apply, if_neg (by rw [hcmd]; decide), if_pos hcmd]
    apply checkCode_of_some
    rw [Amf.lookup_arrived (horder (ServerConn.event "NetStream.Publish.Start" "Start publishing.")) (by decide),
      ← Amf.arrived_string (lit "NetStream.Publish.Start")]
    rfl
  exact (Call.bind_of_ok hstatus).trans ((Call.bind_of_ok hzero).trans ((Call.bind_of_ok hnull).trans
    (Call.bind_of_ok hevent)))

end ConnClient

namespace ServerConn

variable {order : RangeOrder} {c : ChunkStream} {s : ServerConn}

/-- What goes out before the response to `connect`. -/
def controls : List ChunkStream :=
  [Conn.newWindowAckSize 2500000, Conn.newSetPeerBandwidth 2500000, Conn.newSetChunkSize 1024]

theorem writable_controls : ∀ m ∈ controls, m.Writable := by
  refine List.forall_mem_cons.mpr ⟨⟨by constructor <;> decide, fun h => absurd h (by decide), fun _ => rfl⟩,
    List.forall_mem_cons.mpr ⟨⟨by constructor <;> decide, fun h => absurd h (by decide), fun h => absurd h (by decide)⟩,
      List.forall_mem_singleton.mpr ⟨by constructor <;> decide, fun _ => ⟨1024, by decide, by decide, rfl⟩,
        fun h => absurd h (by decide)⟩⟩⟩

/-- The controls and the response go out together. -/
theorem connectResp_eq (horder : ∀ obj, (order obj).Perm obj) (hcsid : c.csid = 3) (hstreamID : c.streamID = 0)
    (hid : s.server.transactionID = 1) (hencoding : s.server.connInfo.objectEncoding = 0) (hlo : 4 ≤ s.conn.chunkSize)
    (hhi : s.conn.chunkSize < 2 ^ 31) :
    connectResp order c s = .ok () { s with
      conn := (s.conn.wrote (controls ++ [commandMessage 0 (connectRespArgs order 0 1)])).flushed } := by
  obtain ⟨hwindow, hrest⟩ := List.forall_mem_cons.mp writable_controls
  obtain ⟨hbandwidth, hrest⟩ := List.forall_mem_cons.mp hrest
  have hchunk := List.forall_mem_singleton.mp hrest
  let conn1 := s.conn.wrote [Conn.newWindowAckSize 2500000]
  let conn2 := conn1.wrote [Conn.newSetPeerBandwidth 2500000]
  let conn3 := conn2.wrote [Conn.newSetChunkSize 1024]
  obtain ⟨hlo1, hhi1⟩ := Conn.sizeAfterAll_bounds (List.forall_mem_singleton.mpr hwindow) hlo hhi
  obtain ⟨hlo2, hhi2⟩ := Conn.sizeAfterAll_bounds (List.forall_mem_singleton.mpr hbandwidth) hlo1 hhi1
  obtain ⟨hlo3, hhi3⟩ := Conn.sizeAfterAll_bounds (List.forall_mem_singleton.mpr hchunk) hlo2 hhi2
  have hwrites : conn3.wrote [commandMessage 0 (connectRespArgs order 0 1)] =
      s.conn.wrote (controls ++ [commandMessage 0 (connectRespArgs order 0 1)]) := by
    simp only [conn3, conn2, conn1, Conn.wrote_wrote]
    rfl
  rw [← hwrites, connectResp, Call.bind_of_ok (write_eq hwindow hlo hhi),
    Call.bind_of_ok (write_eq (s := { s with conn := conn1 }) hbandwidth hlo1 hhi1),
    Call.bind_of_ok (write_eq (s := { s with conn := conn2 }) hchunk hlo2 hhi2), Call.get_bind_apply, hcsid, hstreamID]
  simp only [hid, hencoding]
  exact writeMsg_eq (s := { s with conn := conn3 }) (sayable_connectRespArgs horder) (by decide) hlo3 hhi3

theorem command_connect (horder : ∀ obj, (order obj).Perm obj) (hcsid : c.csid = 3) (hstreamID : c.streamID = 0)
    (hencoding : s.server.connInfo.objectEncoding = 0) (hlo : 4 ≤ s.conn.chunkSize) (hhi : s.conn.chunkSize < 2 ^ 31)
    (app tcurl : Bytes) :
    command order c ((ConnClient.connectArgs order 1 app tcurl).map Value.arrived) s = .ok () { s with
      server.transactionID := 1
      server.connInfo := { s.server.connInfo with app, flashver := lit "FMS.3.1", tcUrl := tcurl }
      conn := (s.conn.wrote (controls ++ [commandMessage 0 (connectRespArgs order 0 1)])).flushed } := by
  have hconnect := onServer_of_ok (ConnServer.connect_eq horder app tcurl s.server)
  simp only [ConnClient.connectArgs, List.map_cons, List.map_nil, Amf.arrived_string, command, if_true]
  exact (Call.bind_of_ok hconnect).trans (connectResp_eq horder hcsid hstreamID rfl hencoding hlo hhi)

theorem command_createStream (hcsid : c.csid = 3) (hstreamID : c.streamID = 0) (hid : s.streamID = 1)
    (hlo : 4 ≤ s.conn.chunkSize) (hhi : s.conn.chunkSize < 2 ^ 31) :
    command order c ((ConnClient.createStreamArgs 2).map Value.arrived) s = .ok () { s with
      server.transactionID := 2
      conn := (s.conn.wrote [commandMessage 0 (createStreamRespArgs 2 1)]).flushed } := by
  have hcreate := onServer_of_ok (s := s) (ConnServer.createStream_eq (by decide : (2 : Int).natAbs < 2 ^ 53) s.server)
  have hresp : createStreamResp c { s with server.transactionID := 2 } = .ok () { s with
      server.transactionID := 2
      conn := (s.conn.wrote [commandMessage 0 (createStreamRespArgs 2 1)]).flushed } := by
    rw [createStreamResp, Call.get_bind_apply, hcsid, hstreamID]
    simp only [hid]
    exact writeMsg_eq sayable_createStreamRespArgs (by decide) hlo hhi
  simp only [ConnClient.createStreamArgs, List.map_cons, List.map_nil, Amf.arrived_string, command,
    if_neg (by decide : ¬lit "createStream" = lit "connect"), if_true]
  exact (Call.bind_of_ok hcreate).trans hresp

theorem command_publish (horder : ∀ obj, (order obj).Perm obj) (hcsid : c.csid = 3) (hstreamID : c.streamID = 1)
    (hlo : 4 ≤ s.conn.chunkSize) (hhi : s.conn.chunkSize < 2 ^ 31) (title : Bytes) :
    command order c ((ConnClient.publishArgs 3 title).map Value.arrived) s = .ok () { s with
      server.transactionID := 3
      server.publishInfo := { name := title, type := lit "live" }
      server.done := true
      server.isPublisher := true
      conn := (s.conn.wrote [commandMessage 1 (publishRespArgs order)]).flushed } := by
  have hpublish := onServer_of_ok (s := s)
    (ConnServer.publish_eq (by decide : (3 : Int).natAbs < 2 ^ 53) title (lit "live") s.server)
  have hresp : publishResp order c { s with
      server.transactionID := 3
      server.publishInfo := { name := title, type := lit "live" } } = .ok () { s with
      server.transactionID := 3
      server.publishInfo := { name := title, type := lit "live" }
      conn := (s.conn.wrote [commandMessage 1 (publishRespArgs order)]).flushed } := by
    rw [publishResp, hcsid, hstreamID]
    exact writeMsg_eq (sayable_publishRespArgs horder) (by decide) hlo hhi
  simp only [ConnClient.publishArgs, List.map_cons, List.map_nil, Amf.arrived_string, command,
    if_neg (by decide : ¬lit "publish" = lit "connect"), if_neg (by decide : ¬lit "publish" = lit "createStream"),
    if_true]
  exact (Call.bind_of_ok hpublish).trans (Call.bind_of_ok hresp)

end ServerConn

end Livego
