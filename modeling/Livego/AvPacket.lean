import Livego.Basic

/-! Audio and video packets, and the flv tag header at the front of their data. -/

namespace Livego

open Fallible

def soundAac : UInt8 := 10
def aacSeqhdr : UInt8 := 0
def avcSeqhdr : UInt8 := 0
def frameKey : UInt8 := 1
def frameInter : UInt8 := 2
def videoH264 : UInt8 := 7

/-- The media part of a `Tag`, which is all of it that is ever read or written. -/
structure Tag where
  soundFormat : UInt8 := 0
  soundRate : UInt8 := 0
  soundSize : UInt8 := 0
  soundType : UInt8 := 0
  aacPacketType : UInt8 := 0
  frameType : UInt8 := 0
  codecID : UInt8 := 0
  avcPacketType : UInt8 := 0
  compositionTime : Int32 := 0
  deriving DecidableEq, Repr

namespace Tag

def isKeyFrame (tag : Tag) : Bool := tag.frameType = frameKey

def isSeq (tag : Tag) : Bool := tag.frameType = frameKey ∧ tag.avcPacketType = avcSeqhdr

/-- The result is the number of bytes of the header. -/
def parseAudioHeader (b : Bytes) : Call GoError Tag Nat := fun tag =>
  match b with
  | [] => .err (.errorf s!"invalid audiodata len={b.length}") tag
  | flags :: _ =>
    let tag := { tag with
      soundFormat := flags >>> 4
      soundRate := flags >>> 2 &&& 0x3
      soundSize := flags >>> 1 &&& 0x1
      soundType := flags &&& 0x1 }
    if tag.soundFormat = soundAac then
      match b[1]? with
      | none => .panic .indexOutOfRange
      | some aacPacketType => .ok 2 { tag with aacPacketType }
    else .ok 1 tag

def parseVideoHeader (b : Bytes) : Call GoError Tag Nat := fun tag =>
  match b with
  | flags :: b1 :: b2 :: b3 :: b4 :: _ =>
    let tag := { tag with frameType := flags >>> 4, codecID := flags &&& 0xf }
    if tag.frameType = frameInter ∨ tag.frameType = frameKey then
      .ok 5 { tag with
        avcPacketType := b1
        compositionTime := [b2, b3, b4].foldl (fun t b => t <<< 8 + Int32.ofNat b.toNat) tag.compositionTime }
    else .ok 1 tag
  | _ => .err (.errorf s!"invalid videodata len={b.length}") tag

def parseMediaTagHeader (b : Bytes) (isVideo : Bool) : Call GoError Tag Nat :=
  if isVideo then parseVideoHeader b else parseAudioHeader b

end Tag

/-- `av.Packet`. The only headers there are in the server are flv tags, which are headers for audio and for
video both; no tag is changed once it is the header of a packet. -/
structure AvPacket where
  isAudio : Bool := false
  isVideo : Bool := false
  isMetadata : Bool := false
  timeStamp : Nat := 0
  streamID : Nat := 0
  header : Option Tag := none
  data : Bytes := []
  deriving DecidableEq, Repr, Inhabited

namespace AvPacket

/-- A video packet that starts a group of pictures. -/
def isKeyFrame (p : AvPacket) : Bool := p.isVideo && p.header.any fun vh => vh.isKeyFrame && !vh.isSeq

def isVideoSeq (p : AvPacket) : Bool := !p.isMetadata && p.isVideo && p.header.any Tag.isSeq

/-- A video packet that is not a sequence header. -/
def isFrame (p : AvPacket) : Bool := !p.isMetadata && p.isVideo && !p.header.any Tag.isSeq

def isAudioSeq (p : AvPacket) : Bool :=
  !p.isMetadata && !p.isVideo && p.header.any fun ah => ah.soundFormat = soundAac && ah.aacPacketType = aacSeqhdr

end AvPacket

namespace Demuxer

def errAvcEndSEQ : GoError := .named "avc end sequence"

/-- `DemuxH`: only the header is set. -/
def demuxH : Call GoError AvPacket Unit := fun p =>
  match Tag.parseMediaTagHeader p.data p.isVideo {} with
  | .ok _ tag => .ok () { p with header := some tag }
  | .err e _ => .err e p
  | .panic f => .panic f
  | .diverge => .diverge

/-- `Demux`: the header is set and taken off the data. -/
def demux : Call GoError AvPacket Unit := fun p =>
  match Tag.parseMediaTagHeader p.data p.isVideo {} with
  | .ok n tag =>
    if tag.codecID = videoH264 ∧ p.data[0]? = some 0x17 ∧ p.data[1]? = some 0x02 then .err errAvcEndSEQ p
    else .ok () { p with header := some tag, data := p.data.drop n }
  | .err e _ => .err e p
  | .panic f => .panic f
  | .diverge => .diverge

/-- Setting the header leaves the other fields. -/
theorem demuxH_header (p : AvPacket) {p' : AvPacket} (h : demuxH p = .ok () p') :
    ∃ tag, p' = { p with header := some tag } := by
  unfold demuxH at h
  split at h
  · cases h
    exact ⟨_, rfl⟩
  · cases h
  · cases h
  · cases h

end Demuxer

end Livego
