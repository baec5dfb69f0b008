import Livego.RtmpConnClient
import Livego.RtmpExchange

/-! Commands on the wire: what one side says is what the other side's handler is given. -/

namespace Livego

open Fallible ChunkStream
open Amf (Value Object)

/-- A command as a message. -/
def commandMessage (streamID : Nat) (args : List Value) : ChunkStream :=
  { csid := 3, typeID := 20, streamID, length := (Amf.batchBytes args).length, data := Amf.batchBytes args }

/-- What fits in a message and arrives, up to the kind of its numbers. -/
structure Sayable (args : List Value) : Prop where
  portable : ∀ v ∈ args, Amf.Portable v
  ends : Amf.Ends .bytesReader (args.map Value.arrived)
  ne_nil : args ≠ []
  length_lt : (Amf.batchBytes args).length < 512000

section
variable {streamID : Nat} {args : List Value}

theorem Sayable.length_pos (h : Sayable args) : 0 < (Amf.batchBytes args).length := by
  obtain ⟨v, vs, rfl⟩ := List.exists_cons_of_ne_nil h.ne_nil
  have hv := h.portable v List.mem_cons_self
  have hne : Amf.amf0Bytes v ≠ [] := by
    rw [← Amf.amf0Bytes_arrived hv.encodable]
    exact Amf.amf0Bytes_ne_nil hv.plain
  have hpos := List.length_pos_iff.mpr hne
  rw [Amf.batchBytes, List.length_append]
  omega

theorem Sayable.writable (h : Sayable args) (hid : streamID < 2 ^ 32) : (commandMessage streamID args).Writable := by
  have hle : (Amf.batchBytes args).length ≤ maxpoolsize := h.length_lt.le
  have hsendable : (commandMessage streamID args).Sendable :=
    ⟨rfl, h.length_pos, hle, (by decide : 20 < 256), (by decide : 0 < 2 ^ 32), hid, (by decide : 2 ≤ 3),
      (by decide : 3 ≤ 65599)⟩
  exact ⟨hsendable, fun htype => absurd htype (by decide : ¬20 = 1), fun htype => absurd htype (by decide : ¬20 = 5)⟩

namespace Conn

theorem ignoreErr_of_ok {x : Call GoError Conn Unit} {conn conn' : Conn} (h : x conn = .ok () conn') :
    ignoreErr x conn = .ok () conn' := by
  rw [ignoreErr, h]

theorem writeMsg_eq (h : Sayable args) (hid : streamID < 2 ^ 32) {conn : Conn} (hlo : 4 ≤ conn.chunkSize)
    (hhi : conn.chunkSize < 2 ^ 31) :
    writeMsg 3 streamID args conn = .ok () (conn.wrote [commandMessage streamID args]).flushed := by
  have hlt := h.length_lt
  have hlen : u32 (Amf.batchBytes args).length = (Amf.batchBytes args).length := u32_of_lt (by omega)
  have hencode := Amf.encodeBatch_eq (fun v hv => (h.portable v hv).encodable) []
  rw [List.nil_append] at hencode
  simp only [writeMsg, hencode, hlen]
  exact Call.bind_of_ok (ignoreErr_of_ok (write_wrote (h.writable hid) hlo hhi))

end Conn

namespace ConnClient

theorem onConn_of_ok {α : Type} {x : Call GoError Conn α} {c : ConnClient} {a : α} {conn : Conn}
    (h : x c.conn = .ok a conn) : onConn x c = .ok a { c with conn } := by
  rw [onConn, h]

theorem writeMsg_eq (h : Sayable args) {c : ConnClient} (hid : c.streamid < 2 ^ 32) (hlo : 4 ≤ c.conn.chunkSize)
    (hhi : c.conn.chunkSize < 2 ^ 31) :
    writeMsg args c = .ok () { c with conn := (c.conn.wrote [commandMessage c.streamid args]).flushed } :=
  onConn_of_ok (Conn.writeMsg_eq h hid hlo hhi)

theorem decodeBatch_eq (h : Sayable args) (c : ConnClient) :
    decodeBatch (Amf.batchBytes args) c = .ok (args.map Value.arrived, .eof) c := by
  rw [decodeBatch, Amf.decodeBatch_arrived h.portable h.ends]

/-- The values of a response, one after the other. -/
theorem readRespTurn_command (h : Sayable args) {rc : ChunkStream}
    (hrc : rc.message = (commandMessage streamID args).message) (c : ConnClient) :
    readRespTurn rc c = ((args.map Value.arrived).zipIdx.forM respValue >>= fun _ => pure true) c := by
  have htype : rc.typeID = 20 := congrArg Message.typeID hrc
  have hdata : rc.data = Amf.batchBytes args := congrArg Message.data hrc
  rw [readRespTurn, if_pos (Or.inl htype), hdata, Call.bind_of_ok (decodeBatch_eq h c)]

theorem readRespTurn_other {rc : ChunkStream} (htype : rc.typeID ≠ 20 ∧ rc.typeID ≠ 17) (c : ConnClient) :
    readRespTurn rc c = .ok false c := by
  rw [readRespTurn, if_neg (by simp [htype])]
  rfl

end ConnClient

namespace ServerConn

variable (order : RangeOrder)

theorem onConn_of_ok {α : Type} {x : Call GoError Conn α} {s : ServerConn} {a : α} {conn : Conn}
    (h : x s.conn = .ok a conn) : onConn x s = .ok a { s with conn } := by
  rw [onConn, h]

theorem onServer_of_ok {α : Type} {x : ConnServer.Cmd α} {s : ServerConn} {a : α} {server : ConnServer}
    (h : x s.server = .ok a server) : onServer x s = .ok a { s with server } := by
  rw [onServer, h]

theorem writeMsg_eq (h : Sayable args) (hid : streamID < 2 ^ 32) {s : ServerConn} (hlo : 4 ≤ s.conn.chunkSize)
    (hhi : s.conn.chunkSize < 2 ^ 31) :
    writeMsg 3 streamID args s = .ok () { s with conn := (s.conn.wrote [commandMessage streamID args]).flushed } :=
  onConn_of_ok (Conn.writeMsg_eq h hid hlo hhi)

theorem write_eq {m : ChunkStream} (hm : m.Writable) {s : ServerConn} (hlo : 4 ≤ s.conn.chunkSize)
    (hhi : s.conn.chunkSize < 2 ^ 31) : write m s = .ok () { s with conn := s.conn.wrote [m] } :=
  onConn_of_ok (Conn.ignoreErr_of_ok (Conn.write_wrote hm hlo hhi))

theorem decodeBatch_eq (h : Sayable args) (s : ServerConn) :
    onServer (ConnServer.decodeBatch (Amf.batchBytes args)) s = .ok (args.map Value.arrived, .eof) s := by
  apply onServer_of_ok
  rw [ConnServer.decodeBatch, Amf.decodeBatch_arrived h.portable h.ends]

theorem readMsgTurn_command (h : Sayable args) {c : ChunkStream}
    (hc : c.message = (commandMessage streamID args).message) {s s' : ServerConn}
    (hcommand : command order c (args.map Value.arrived) s = .ok () s') :
    readMsgTurn order c s = .ok s'.server.done s' := by
  have htype : c.typeID = 20 := congrArg Message.typeID hc
  have hdata : c.data = Amf.batchBytes args := congrArg Message.data hc
  have hskip : onServer (ConnServer.skipMarker c) s = .ok (Amf.batchBytes args) s := by
    apply onServer_of_ok
    rw [ConnServer.skipMarker, if_neg (by rw [htype]; decide), hdata]
    rfl
  have hhandle : handleCmdMsg order c s = .ok () s' := by
    rw [handleCmdMsg, Call.bind_of_ok hskip, Call.bind_of_ok (decodeBatch_eq h s)]
    exact hcommand
  rw [readMsgTurn, if_pos (Or.inl htype), Call.bind_of_ok hhandle]
  rfl

end ServerConn

end

end Livego
