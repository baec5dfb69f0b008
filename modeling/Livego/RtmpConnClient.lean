import Livego.AmfReferences
import Livego.RtmpReplies

/-! The client's side of a connection: the commands up to the one to publish or to play, and what it makes of the
responses. -/

namespace Livego

open Fallible

structure ConnClient where
  transID : Int := 1
  tcurl : Bytes
  app : Bytes
  title : Bytes
  curcmdName : Bytes := []
  streamid : Nat := 0
  decoder : Amf.Decoder := {}
  conn : Conn

namespace ConnClient

open Amf (Value Object)

abbrev Cmd (α : Type) : Type := Call GoError ConnClient α

def errFail : GoError := .named "response err"

def onConn {α : Type} (x : Call GoError Conn α) : Cmd α := fun c =>
  match x c.conn with
  | .ok a conn => .ok a { c with conn }
  | .err e conn => .err e { c with conn }
  | .panic p => .panic p
  | .diverge => .diverge

def newConnClient (app tcurl title : Bytes) (conn : Conn) : ConnClient := { app, tcurl, title, conn }

def writeMsg (args : List Value) : Cmd Unit := do
  let c ← Call.get
  onConn (Conn.writeMsg 3 c.streamid args)

/-! ### The commands, up to where they wait for the response -/

def connectEvent (app tcurl : Bytes) : Object :=
  [(lit "app", .string app), (lit "type", .string (lit "nonprivate")), (lit "flashVer", .string (lit "FMS.3.1")),
    (lit "tcUrl", .string tcurl)]

def connectArgs (order : ServerConn.RangeOrder) (transID : Int) (app tcurl : Bytes) : List Value :=
  [.string (lit "connect"), .int transID, .object (order (connectEvent app tcurl))]

def sendConnect (order : ServerConn.RangeOrder) : Cmd Unit := do
  Call.modify fun c => { c with curcmdName := lit "connect" }
  let c ← Call.get
  writeMsg (connectArgs order c.transID c.app c.tcurl)

def createStreamArgs (transID : Int) : List Value := [.string (lit "createStream"), .int transID, .null]

def sendCreateStream : Cmd Unit := do
  Call.modify fun c => { c with transID := c.transID + 1, curcmdName := lit "createStream" }
  let c ← Call.get
  writeMsg (createStreamArgs c.transID)

def publishArgs (transID : Int) (title : Bytes) : List Value :=
  [.string (lit "publish"), .int transID, .null, .string title, .string (lit "live")]

def sendPublish : Cmd Unit := do
  Call.modify fun c => { c with transID := c.transID + 1, curcmdName := lit "publish" }
  let c ← Call.get
  writeMsg (publishArgs c.transID c.title)

/-- The number of the command is not sent. -/
def playArgs (title : Bytes) : List Value := [.string (lit "play"), .int 0, .null, .string title]

def sendPlay : Cmd Unit := do
  Call.modify fun c => { c with transID := c.transID + 1, curcmdName := lit "play" }
  let c ← Call.get
  writeMsg (playArgs c.title)

/-! ### The responses -/

/-- `code, ok := objmap["code"]; ok && code.(string) != want`. -/
def checkCode (objmap : Object) (want : String) : Cmd Unit :=
  match objmap.lookup (lit "code") with
  | some (.string code) => if code ≠ lit want then Call.fail errFail else pure ()
  | some _ => Call.panic .typeAssertion
  | none => pure ()

/-- One value of a response, with its index. -/
def respValue : Value × Nat → Cmd Unit
  | (.string str, _) => do
    let c ← Call.get
    if c.curcmdName = lit "connect" ∨ c.curcmdName = lit "createStream" then
      if str ≠ lit "_result" then Call.fail (.errorf (quote str)) else pure ()
    else if c.curcmdName = lit "publish" then
      if str ≠ lit "onStatus" then Call.fail errFail else pure ()
    else pure ()
  | (.number bits, k) => do
    let c ← Call.get
    let id := Float64.toInt bits
    if c.curcmdName = lit "connect" ∨ c.curcmdName = lit "createStream" then
      if k = 1 then
        if id ≠ c.transID then Call.fail errFail else pure ()
      else if k = 3 then Call.modify fun c => { c with streamid := (id % 2 ^ 32).toNat }
      else pure ()
    else if c.curcmdName = lit "publish" then
      if id ≠ 0 then Call.fail errFail else pure ()
    else pure ()
  | (.object objmap, _) => do
    let c ← Call.get
    if c.curcmdName = lit "connect" then checkCode objmap "NetConnection.Connect.Success"
    else if c.curcmdName = lit "publish" then checkCode objmap "NetStream.Publish.Start"
    else pure ()
  | _ => pure ()

/-- `DecodeBatch` by the decoder of the client. -/
def decodeBatch (data : Bytes) : Cmd (List Value × GoError) := fun c =>
  match Amf.decodeBatch 0 { decoder := c.decoder, r := { kind := .bytesReader, unread := data } } with
  | .ok a d => .ok a { c with decoder := d.decoder }
  | .err err d => .err err { c with decoder := d.decoder }
  | .panic p => .panic p
  | .diverge => .diverge

/-- The decoding changes nothing but the decoder, and it returns unless it panics. -/
theorem decodeBatch_sat (data : Bytes) (c : ConnClient) :
    (decodeBatch data c).Sat (fun _ c' => ∃ decoder, c' = { c with decoder }) (fun _ _ => False) True := by
  have hsat := Amf.decodeBatch_sat 0 ⟨c.decoder, ⟨.bytesReader, data⟩⟩
  unfold decodeBatch
  cases hcase : Amf.decodeBatch 0 ⟨c.decoder, ⟨.bytesReader, data⟩⟩ with
  | ok a d => exact ⟨d.decoder, rfl⟩
  | err e d => exact (hsat.of_err hcase).elim
  | panic p => trivial
  | diverge => exact absurd hcase hsat.ne_diverge

/-- One turn of the loop of `readRespMsg` on the message that was read, and whether it was a response. The error of
the decoding is dropped. -/
def readRespTurn (rc : ChunkStream) : Cmd Bool := do
  if rc.typeID = 20 ∨ rc.typeID = 17 then
    let (vs, _) ← decodeBatch rc.data
    vs.zipIdx.forM respValue
    pure true
  else pure false

end ConnClient

end Livego
