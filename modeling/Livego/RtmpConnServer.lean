import Livego.AmfDecoder0
import Livego.Float64
import Livego.RtmpChunkStream
import Livego.Url

/-! The server's side of a connection: the commands of a client up to the one to publish or to play, and the key that
they give its stream. -/

namespace Livego

open Fallible

structure ConnectInfo where
  app : Bytes := []
  flashver : Bytes := []
  tcUrl : Bytes := []
  objectEncoding : Int := 0

structure PublishInfo where
  name : Bytes := []
  type : Bytes := []

structure ConnServer where
  done : Bool := false
  isPublisher : Bool := false
  transactionID : Int := 0
  connInfo : ConnectInfo := {}
  publishInfo : PublishInfo := {}
  decoder : Amf.Decoder := {}

/-- What is told to the handler about a stream. -/
structure StreamInfo where
  key : Bytes
  url : Bytes
  uid : Bytes
  inter : Bool := false
  deriving DecidableEq, Repr

namespace ConnServer

open Amf (Value)

abbrev Cmd (α : Type) : Type := Call GoError ConnServer α

def errReq : GoError := .named "req error"

/-- `v.(string)`. -/
def assertString : Value → Cmd Bytes
  | .string s => pure s
  | _ => Call.panic .typeAssertion

/-- `v.(float64)`. -/
def assertNumber : Value → Cmd UInt64
  | .number bits => pure bits
  | _ => Call.panic .typeAssertion

/-- `if v, ok := obimap[name]; ok`, where the property has to be a string. -/
def stringProperty (obimap : Amf.Object) (name : String) (set : Bytes → ConnServer → ConnServer) : Cmd Unit :=
  match obimap.lookup (lit name) with
  | some v => do
    let s ← assertString v
    Call.modify (set s)
  | none => pure ()

/-- The same for a number. -/
def numberProperty (obimap : Amf.Object) (name : String) (set : UInt64 → ConnServer → ConnServer) : Cmd Unit :=
  match obimap.lookup (lit name) with
  | some v => do
    let bits ← assertNumber v
    Call.modify (set bits)
  | none => pure ()

def connectValue : Value → Cmd Unit
  | .number bits =>
    let id := Float64.toInt bits
    if id ≠ 1 then Call.fail errReq else Call.modify fun c => { c with transactionID := id }
  | .object obimap => do
    stringProperty obimap "app" fun app c => { c with connInfo.app := app }
    stringProperty obimap "flashVer" fun flashVer c => { c with connInfo.flashver := flashVer }
    stringProperty obimap "tcUrl" fun tcurl c => { c with connInfo.tcUrl := tcurl }
    numberProperty obimap "objectEncoding" fun bits c =>
      { c with connInfo.objectEncoding := Float64.toInt bits }
  | _ => pure ()

def connect (vs : List Value) : Cmd Unit := vs.forM connectValue

def createStreamValue : Value → Cmd Unit
  | .number bits => Call.modify fun c => { c with transactionID := Float64.toInt bits }
  | _ => pure ()

def createStream (vs : List Value) : Cmd Unit := vs.forM createStreamValue

def publishOrPlayValue : Value × Nat → Cmd Unit
  | (.string s, k) =>
    if k = 2 then Call.modify fun c => { c with publishInfo.name := s }
    else if k = 3 then Call.modify fun c => { c with publishInfo.type := s }
    else pure ()
  | (.number bits, _) => Call.modify fun c => { c with transactionID := Float64.toInt bits }
  | _ => pure ()

def publishOrPlay (vs : List Value) : Cmd Unit := vs.zipIdx.forM publishOrPlayValue

/-- `connectResp` and its like, of which only the error is of interest. -/
def resp (reply : ConnServer → Option GoError) : Cmd Unit := fun c =>
  match reply c with
  | some err => .err err c
  | none => .ok () c

/-- `DecodeBatch` on a message, by the decoder of the connection. -/
def decodeBatch (data : Bytes) : Cmd (List Value × GoError) := fun c =>
  match Amf.decodeBatch 0 { decoder := c.decoder, r := { kind := .bytesReader, unread := data } } with
  | .ok a d => .ok a { c with decoder := d.decoder }
  | .err err d => .err err { c with decoder := d.decoder }
  | .panic p => .panic p
  | .diverge => .diverge

def command (reply : ConnServer → Option GoError) (vs : List Value) : Cmd Unit :=
  match vs with
  | [] => Call.panic .indexOutOfRange
  | .string cmd :: vs =>
    if cmd = lit "connect" then do
      connect vs
      resp reply
    else if cmd = lit "createStream" then do
      createStream vs
      resp reply
    else if cmd = lit "publish" then do
      publishOrPlay vs
      resp reply
      Call.modify fun c => { c with done := true, isPublisher := true }
    else if cmd = lit "play" then do
      publishOrPlay vs
      resp reply
      Call.modify fun c => { c with done := true, isPublisher := false }
    else pure ()
  | _ => pure ()

/-- `if c.TypeID == 17`, `c.Data = c.Data[1:]`. -/
def skipMarker (c : ChunkStream) : Cmd Bytes :=
  if c.typeID = 17 then
    match c.data with
    | [] => Call.panic .sliceBounds
    | _ :: data => pure data
  else pure c.data

def handleCmdMsg (reply : ConnServer → Option GoError) (c : ChunkStream) : Cmd Unit := do
  let data ← skipMarker c
  let (vs, err) ← decodeBatch data
  if err ≠ .eof then Call.fail err else command reply vs

/-- `ReadMsg`, with the messages that the connection is read for. -/
def readMsg (reply : ConnServer → Option GoError) : List ChunkStream → Cmd Unit
  | [] => Call.fail .eof
  | c :: cs => do
    if c.typeID = 20 ∨ c.typeID = 17 then handleCmdMsg reply c
    let s ← Call.get
    if s.done then pure () else readMsg reply cs

def slash : UInt8 := Url.chr '/'

def getInfo (c : ConnServer) : Bytes × Bytes × Bytes :=
  (c.connInfo.app, c.publishInfo.name, c.connInfo.tcUrl ++ slash :: c.publishInfo.name)

/-- `strings.TrimLeft(path, "/")`. -/
def trimLeft (path : Bytes) : Bytes := path.dropWhile (· = slash)

/-- `Info` of a publisher or a player. An error of `url.Parse` is only logged, and the nil pointer that comes with it is
used. -/
def info (uid : Bytes) (inter : Bool) (c : ConnServer) : Outcome GoError ConnServer StreamInfo :=
  let (_, _, url) := c.getInfo
  match Url.parse url with
  | some u => .ok { key := trimLeft u.path, url, uid, inter } c
  | none => .panic .nilDereference

/-- `Info` of `VirReader`. -/
def readerInfo (uid : Bytes) : Cmd StreamInfo := info uid false

/-- `Info` of `VirWriter`. -/
def writerInfo (uid : Bytes) : Cmd StreamInfo := info uid true

end ConnServer

end Livego
