import Livego.TsOutput
import Livego.TsTables
import Livego.CodecParser

/-! The sender of an hls source. What comes out of the queue is parsed and muxed, audio by way of a cache of some
frames, and before a key frame the transport stream so far is cut off as a segment once it is long enough. -/

namespace Livego

open Fallible

namespace Hls

def duration : Int := 3000
def videoHZ : Nat := 90000
def aacSampleLen : Nat := 1024
def h264DefaultHz : UInt64 := 90
def syncms : UInt64 := 2
def cacheMaxFrames : UInt8 := 6
def audioCacheLen : Nat := 10 * 1024

def errNoSupportVideoCodec : GoError := .named "no support video codec"
def errNoSupportAudioCodec : GoError := .named "no support audio codec"

/-- `status`, without the times of day. -/
structure Status where
  hasVideo : Bool := false
  seqId : Int := 0
  hasSetFirstTs : Bool := false
  firstTimestamp : Int := 0
  lastTimestamp : Int := 0
  deriving DecidableEq, Repr

namespace Status

def update (isVideo : Bool) (timestamp : Nat) (t : Status) : Status :=
  let t := if isVideo then { t with hasVideo := true } else t
  let t := if t.hasSetFirstTs then t else { t with hasSetFirstTs := true, firstTimestamp := timestamp }
  { t with lastTimestamp := timestamp }

def resetAndNew (t : Status) : Status :=
  { t with seqId := t.seqId + 1, hasVideo := false, hasSetFirstTs := false }

def durationMs (t : Status) : Int := t.lastTimestamp - t.firstTimestamp

@[simp] theorem update_hasSetFirstTs (isVideo : Bool) (timestamp : Nat) (t : Status) :
    (t.update isVideo timestamp).hasSetFirstTs = true := by
  unfold update
  cases isVideo <;> cases h : t.hasSetFirstTs <;> simp [h]

@[simp] theorem update_firstTimestamp (isVideo : Bool) (timestamp : Nat) (t : Status) :
    (t.update isVideo timestamp).firstTimestamp = if t.hasSetFirstTs then t.firstTimestamp else timestamp := by
  unfold update
  cases isVideo <;> cases h : t.hasSetFirstTs <;> simp [h]

@[simp] theorem update_lastTimestamp (isVideo : Bool) (timestamp : Nat) (t : Status) :
    (t.update isVideo timestamp).lastTimestamp = timestamp := rfl

end Status

structure Align where
  frameNum : UInt64 := 0
  frameBase : UInt64 := 0
  deriving DecidableEq, Repr

/-- The first result is what `dts` becomes. -/
def Align.align (dts : UInt64) (inc : UInt32) (a : Align) : UInt64 × Align :=
  let estPts := a.frameBase + a.frameNum * inc.toUInt64
  let dPts := if estPts ≥ dts then estPts - dts else dts - estPts
  if dPts ≤ syncms * h264DefaultHz then (estPts, { a with frameNum := a.frameNum + 1 })
  else (dts, { frameNum := 1, frameBase := dts })

structure AudioCache where
  num : UInt8 := 0
  offset : Nat := 0
  pts : UInt64 := 0
  buf : Bytes := List.replicate audioCacheLen 0
  deriving DecidableEq, Repr

namespace AudioCache

def cache (src : Bytes) (pts : UInt64) (a : AudioCache) : AudioCache :=
  let a := if a.num = 0 then { a with offset := 0, pts, buf := [] } else a
  { a with buf := a.buf ++ src, offset := a.offset + src.length, num := a.num + 1 }

def getFrame (a : AudioCache) : (Nat × UInt64 × Bytes) × AudioCache := ((a.offset, a.pts, a.buf), { a with num := 0 })

end AudioCache

structure TSItem where
  name : String
  seqNum : Nat
  duration : Int
  data : Bytes
  deriving DecidableEq, Repr

/-- The packet in the words of the muxer. -/
def toTs (p : AvPacket) : Packet where
  isVideo := p.isVideo
  timeStamp := p.timeStamp
  header := p.header.map fun videoH => ⟨videoH.isKeyFrame, videoH.compositionTime.toInt⟩
  data := p.data

/-- The packet that `muxAudio` makes of the cached frames. -/
def audioPacket (pts : UInt64) (buf : Bytes) : Packet where
  isVideo := false
  timeStamp := (pts / h264DefaultHz).toUInt32.toNat
  header := none
  data := buf

/-- A source that is not closed. `btswriter` is kept as the slices written since its reset, and `setItems` is what
`SetItem` was passed. The buffer `bwriter` is reset for each frame and is the result of the parser. -/
structure Source where
  key : String
  seq : Nat := 0
  btswriter : Option (List Bytes) := none
  muxer : Muxer := Muxer.newMuxer
  tables : TsTables := {}
  pts : UInt64 := 0
  dts : UInt64 := 0
  stat : Status := {}
  align : Align := {}
  cache : AudioCache := {}
  setItems : List TSItem := []
  tsparser : CodecParser := {}
  deriving DecidableEq, Repr

namespace Source

/-- `source.muxer.Mux(p, source.btswriter)`. -/
def mux (p : Packet) : Call GoError Source Unit := fun source =>
  match source.btswriter with
  | none => .panic .nilDereference
  | some w =>
    match Muxer.mux Muxer.collect p (source.muxer, w) with
    | .ok () (muxer, w) => .ok () { source with muxer, btswriter := some w }
    | .err e (muxer, w) => .err e { source with muxer, btswriter := some w }
    | .panic f => .panic f
    | .diverge => .diverge

def muxAudio (limit : UInt8) : Call GoError Source Unit := fun source =>
  if source.cache.num < limit then .ok () source
  else
    let ((_, pts, buf), cache) := source.cache.getFrame
    mux (audioPacket pts buf) { source with cache }

def flushAudio : Call GoError Source Unit := muxAudio 1

def tsMux (p : AvPacket) : Call GoError Source Unit := fun source =>
  if p.isVideo then mux (toTs p) source
  else muxAudio cacheMaxFrames { source with cache := source.cache.cache p.data source.pts }

def writeTables (source : Source) : Source :=
  let (pat, tables) := source.tables.pat
  let (pmt, tables) := tables.pmt soundAac true
  { source with tables, btswriter := source.btswriter.map (· ++ [pat, pmt]) }

/-- The item goes to `SetItem`, and buffer and statistics begin anew. -/
def setItem (now : Int) (source : Source) : Source :=
  let seq := source.seq + 1
  let filename := s!"/{source.key}/{now}.ts"
  let item : TSItem :=
    { name := filename
      duration := source.stat.durationMs
      seqNum := seq
      data := (source.btswriter.getD []).flatten }
  { source with seq, setItems := source.setItems ++ [item], btswriter := some [], stat := source.stat.resetAndNew }

/-- `now` is the time of day in seconds. -/
def cut (now : Int) : Call GoError Source Unit := fun source =>
  match source.btswriter with
  | none => .ok () (writeTables { source with btswriter := some [] })
  | some _ =>
    if source.stat.durationMs ≥ duration then (do
      let _ ← Call.attempt flushAudio
      Call.modify (setItem now)
      Call.modify writeTables) source
    else .ok () source

def onParser {α : Type} (x : Call GoError CodecParser α) : Call GoError Source α := fun source =>
  match x source.tsparser with
  | .ok a tsparser => .ok a { source with tsparser }
  | .err e tsparser => .err e { source with tsparser }
  | .panic f => .panic f
  | .diverge => .diverge

def parseSeq (p : AvPacket) (compositionTime : Int32) : Call GoError Source (Int32 × Bool × AvPacket) := do
  let _ ← onParser (CodecParser.parse p)
  pure (compositionTime, true, p)

def parseFrame (now : Int) (p : AvPacket) (compositionTime : Int32) (isKeyFrame : Bool) :
    Call GoError Source (Int32 × Bool × AvPacket) := do
  let data ← onParser (CodecParser.parse p)
  if isKeyFrame then cut now
  pure (compositionTime, false, { p with data })

/-- The last result is the packet, whose data is what the parser wrote. -/
def parse (now : Int) (p : AvPacket) : Call GoError Source (Int32 × Bool × AvPacket) :=
  match p.header with
  | none => Call.panic .typeAssertion
  | some h =>
    if p.isVideo then
      if h.codecID ≠ videoH264 then Call.fail errNoSupportVideoCodec
      else if h.isKeyFrame && h.isSeq then parseSeq p h.compositionTime
      else parseFrame now p h.compositionTime h.isKeyFrame
    else
      if h.soundFormat ≠ soundAac then Call.fail errNoSupportAudioCodec
      else if h.aacPacketType = aacSeqhdr then parseSeq p 0
      else parseFrame now p 0 false

def calcPtsDts (isVideo : Bool) (ts : Nat) (compositionTs : UInt32) : Call GoError Source Unit := fun source =>
  let dts := UInt64.ofNat ts * h264DefaultHz
  if isVideo then .ok () { source with dts, pts := dts + compositionTs.toUInt64 * h264DefaultHz }
  else if source.tsparser.sampleRate = 0 then .panic .divideByZero
  else
    let inc := UInt32.ofNat (videoHZ * aacSampleLen / source.tsparser.sampleRate)
    let (dts, align) := source.align.align dts inc
    .ok () { source with dts, align, pts := dts }

/-- What `SendPacket` does with a parsed frame. The error of `tsMux` is dropped. -/
def sendFrame (p : AvPacket) (compositionTime : Int32) : Call GoError Source Unit := do
  Call.modify fun source => { source with stat := source.stat.update p.isVideo p.timeStamp }
  calcPtsDts p.isVideo p.timeStamp compositionTime.toUInt32
  let _ ← Call.attempt (tsMux p)
  pure ()

def sendTurn (now : Int) (p : AvPacket) : Call GoError Source Unit := fun source =>
  if p.isMetadata then .ok () source
  else
    match Demuxer.demux p with
    | .ok () p =>
      match parse now p source with
      | .ok (compositionTime, isSeq, p) source =>
        if isSeq ∨ source.btswriter = none then .ok () source else sendFrame p compositionTime source
      | .err _ source => .ok () source
      | .panic f => .panic f
      | .diverge => .diverge
    | .err e _ => if e = Demuxer.errAvcEndSEQ then .ok () source else .err e source
    | .panic f => .panic f
    | .diverge => .diverge

/-- `SendPacket` over what comes out of the queue, each packet with the time of day of its turn. -/
def sendPacket : List (Int × AvPacket) → Call GoError Source Unit
  | [] => pure ()
  | (now, p) :: arrivals => do
    sendTurn now p
    sendPacket arrivals

end Source

end Hls

end Livego
