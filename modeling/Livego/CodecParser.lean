import Livego.AvPacket
import Livego.Loop

/-! The parsers of H.264 and AAC, which make of the data of a packet what is muxed: NAL units with start codes and a
frame with an ADTS header. -/

namespace Livego

open Fallible Outcome

def aacRaw : UInt8 := 1

namespace Aac

def aacRates : List Nat := [96000, 88200, 64000, 48000, 44100, 32000, 24000, 22050, 16000, 12000, 11025, 8000, 7350]

def specificBufInvalid : GoError := .named "audio mpegspecific error"
def audioBufInvalid : GoError := .named "audiodata  invalid"

/-- `aac.Parser` with what it keeps of `cfgInfo`. -/
structure Parser where
  gettedSpecific : Bool := false
  objectType : UInt8 := 0
  sampleRate : UInt8 := 0
  channel : UInt8 := 0
  deriving DecidableEq, Repr

namespace Parser

def specificInfo (src : Bytes) : Call GoError Parser Unit := fun parser =>
  match src with
  | b0 :: b1 :: _ => .ok ()
    { gettedSpecific := true
      objectType := b0 >>> 3
      sampleRate := (b0 &&& 0x07) <<< 1 ||| b1 >>> 7
      channel := b1 >>> 3 &&& 0x0f }
  | _ => .err specificBufInvalid parser

def adtsHeader (parser : Parser) (frameLen : UInt16) : Bytes :=
  [0xff, 0xf1, (parser.objectType - 1) <<< 6 ||| parser.sampleRate <<< 2,
    parser.channel <<< 2 <<< 4 ||| (frameLen <<< 3 >>> 14).toUInt8, (frameLen <<< 5 >>> 8).toUInt8,
    (frameLen <<< 13 >>> 13).toUInt8 <<< 5 ||| 0x1f, 0xfc]

/-- The result is what is written. -/
def adts (src : Bytes) : Call GoError Parser Bytes := fun parser =>
  if src = [] ∨ parser.gettedSpecific = false then .err audioBufInvalid parser
  else .ok (parser.adtsHeader (UInt16.ofNat src.length + 7) ++ src) parser

def rate (parser : Parser) : Nat := aacRates.getD parser.sampleRate.toNat 44100

def parse (b : Bytes) (packetType : UInt8) : Call GoError Parser Bytes :=
  if packetType = aacSeqhdr then do
    specificInfo b
    pure []
  else if packetType = aacRaw then adts b
  else pure []

theorem rate_pos (parser : Parser) : 0 < parser.rate := by
  have hpos : ∀ r ∈ aacRates, 0 < r := by decide
  unfold rate
  rw [List.getD_eq_getElem?_getD]
  cases hget : aacRates[parser.sampleRate.toNat]? with
  | none => exact (by decide : 0 < 44100)
  | some r => exact hpos r (List.mem_of_getElem? hget)

/-- A parser returns a result or an error. -/
theorem returns_parse (b : Bytes) (packetType : UInt8) (parser : Parser) :
    (parse b packetType parser).Sat (fun _ _ => True) (fun _ _ => True) False := by
  unfold parse
  split_ifs
  · rcases b with _ | ⟨b0, _ | ⟨b1, b⟩⟩ <;> trivial
  · unfold adts
    split_ifs <;> trivial
  · trivial

end Parser

end Aac

namespace H264

def naluTypeSlice : UInt8 := 1
def naluTypeIdr : UInt8 := 5
def naluTypeSei : UInt8 := 6
def naluTypeSps : UInt8 := 7
def naluTypePps : UInt8 := 8

def naluBytesLen : Nat := 4

def decDataNil : GoError := .named "dec buf is nil"
def spsDataError : GoError := .named "sps data error"
def ppsHeaderError : GoError := .named "pps header error"
def ppsDataError : GoError := .named "pps data error"
def videoDataInvalid : GoError := .named "video data not match"
def dataSizeNotMatch : GoError := .named "data size not match"
def naluBodyLenError : GoError := .named "nalu body len error"

def startCode : Bytes := [0x00, 0x00, 0x00, 0x01]
def naluAud : Bytes := [0x00, 0x00, 0x00, 0x01, 0x09, 0xf0]

/-- `h264.Parser`; its buffer for parameter sets is reset for every frame, and here a variable of the loop. -/
structure Parser where
  specificInfo : Bytes := []
  deriving DecidableEq, Repr

/-- The variables of the loop of `getAnnexbH264`: `src[index:]`, whose length is `dataSize`, the parameter sets, and what
is written. -/
structure Annexb where
  rest : Bytes
  pps : Bytes := []
  hasSpsPps : Bool := false
  hasWriteSpsPps : Bool := false
  written : Bytes

namespace Parser

/-- The fields that nothing reads are left out. -/
def parseSpecificInfo (src : Bytes) : Call GoError Parser Unit := fun parser =>
  if src.length < 9 then .err decDataNil parser
  else
    let spsLen := (src.getD 6 0).toNat <<< 8 ||| (src.getD 7 0).toNat
    if (src.drop 8).length < spsLen ∨ spsLen = 0 then .err spsDataError parser
    else
      let sps := startCode ++ (src.drop 8).take spsLen
      let tmpBuf := src.drop (8 + spsLen)
      if tmpBuf.length < 4 then .err ppsHeaderError parser
      else
        let ppsLen := (tmpBuf.getD 1 0).toNat <<< 8 ||| (tmpBuf.getD 2 0).toNat
        if (tmpBuf.drop 3).length < ppsLen ∨ ppsLen = 0 then .err ppsDataError parser
        else
          let pps := startCode ++ tmpBuf.drop 3
          .ok () { parser with specificInfo := parser.specificInfo ++ sps ++ pps }

def isNaluHeader (src : Bytes) : Bool := src.take naluBytesLen = startCode

def naluSize (src : Bytes) : Option Nat :=
  if src.length < naluBytesLen then none else some (Endian.beNat (src.take naluBytesLen))

/-- The switch over the type of a NAL unit. The parameter sets go out before the first IDR slice. -/
def putNalu (parser : Parser) (nalu : Bytes) (v : Annexb) : Annexb :=
  let nalType := nalu.headD 0 &&& 0x1f
  let unit := startCode ++ nalu
  if nalType = naluTypeIdr then
    let sets := if v.hasWriteSpsPps then [] else if v.hasSpsPps then v.pps else parser.specificInfo
    { v with hasWriteSpsPps := true, written := v.written ++ sets ++ unit }
  else if nalType = naluTypeSlice ∨ nalType = naluTypeSei then { v with written := v.written ++ unit }
  else if nalType = naluTypeSps ∨ nalType = naluTypePps then { v with hasSpsPps := true, pps := v.pps ++ unit }
  else v

def annexbTurn (v : Annexb) : Call GoError Parser (Annexb ⊕ Bytes) := fun parser =>
  if v.rest = [] then .ok (.inr v.written) parser
  else
    match naluSize v.rest with
    | none => .err dataSizeNotMatch parser
    | some nalLen =>
      let rest := v.rest.drop naluBytesLen
      if rest.length ≥ nalLen ∧ nalLen > 0 then
        .ok (.inl { putNalu parser (rest.take nalLen) v with rest := rest.drop nalLen }) parser
      else .err naluBodyLenError parser

/-- Every turn takes a NAL unit and its length off the data, which bounds the turns. -/
def getAnnexbH264 (src : Bytes) : Call GoError Parser Bytes :=
  if src.length < naluBytesLen then Call.fail videoDataInvalid
  else Call.loop annexbTurn (src.length + 1) { rest := src, written := naluAud }

/-- The result is what is written. -/
def parse (b : Bytes) (isSeq : Bool) : Call GoError Parser Bytes :=
  if isSeq then do
    parseSpecificInfo b
    pure []
  else if isNaluHeader b then pure b
  else getAnnexbH264 b

theorem returns_getAnnexbH264 (src : Bytes) (parser : Parser) :
    (getAnnexbH264 src parser).Sat (fun _ _ => True) (fun _ _ => True) False := by
  unfold getAnnexbH264
  split_ifs
  · trivial
  · refine Call.sat_loop (μ := fun v _ => v.rest.length) (I := fun _ _ => True) ?_ (Nat.lt_succ_self _) trivial
    intro v parser _
    unfold annexbTurn
    split_ifs with hnil
    · trivial
    · split
      · trivial
      · dsimp only
        split_ifs
        · have hpos : 0 < v.rest.length := List.length_pos_iff.mpr hnil
          refine ⟨trivial, ?_⟩
          simp only [List.length_drop, naluBytesLen]
          omega
        · trivial

theorem returns_parse (b : Bytes) (isSeq : Bool) (parser : Parser) :
    (parse b isSeq parser).Sat (fun _ _ => True) (fun _ _ => True) False := by
  unfold parse
  split_ifs
  · refine Sat.bind (Q := fun _ _ => True) ?_ fun _ _ _ => trivial
    unfold parseSpecificInfo
    dsimp only
    split_ifs <;> trivial
  · trivial
  · exact returns_getAnnexbH264 b parser

end Parser

end H264

/-- `CodecParser`. The parser of MP3, which the hls sources refuse before they come to it, is left out. -/
structure CodecParser where
  aac : Option Aac.Parser := none
  h264 : Option H264.Parser := none
  deriving DecidableEq, Repr

namespace CodecParser

/-- The rate is 0 where there is an error, which the only caller drops. -/
def sampleRate (parser : CodecParser) : Nat := (parser.aac.map Aac.Parser.rate).getD 0

def onAac {α : Type} (x : Call GoError Aac.Parser α) : Call GoError CodecParser α := fun parser =>
  match x (parser.aac.getD {}) with
  | .ok a aac => .ok a { parser with aac := some aac }
  | .err e aac => .err e { parser with aac := some aac }
  | .panic p => .panic p
  | .diverge => .diverge

def onH264 {α : Type} (x : Call GoError H264.Parser α) : Call GoError CodecParser α := fun parser =>
  match x (parser.h264.getD {}) with
  | .ok a h264 => .ok a { parser with h264 := some h264 }
  | .err e h264 => .err e { parser with h264 := some h264 }
  | .panic p => .panic p
  | .diverge => .diverge

/-- The result is what is written. -/
def parse (p : AvPacket) : Call GoError CodecParser Bytes :=
  match p.header with
  | none => pure []
  | some f =>
    if p.isVideo then
      if f.codecID = videoH264 then onH264 (H264.Parser.parse p.data f.isSeq) else pure []
    else if f.soundFormat = soundAac then onAac (Aac.Parser.parse p.data f.aacPacketType)
    else pure []

theorem returns_onAac {α : Type} {x : Call GoError Aac.Parser α} (hx : ∀ aac, (x aac).Sat (fun _ _ => True)
    (fun _ _ => True) False) (parser : CodecParser) :
    (onAac x parser).Sat (fun _ parser' => parser'.aac ≠ none) (fun _ _ => True) False := by
  have hret := hx (parser.aac.getD {})
  unfold onAac
  cases hcall : x (parser.aac.getD {}) with
  | ok a aac => exact Option.some_ne_none aac
  | err e aac => trivial
  | panic f => rwa [hcall] at hret
  | diverge => rwa [hcall] at hret

theorem returns_onH264 {α : Type} {x : Call GoError H264.Parser α} (hx : ∀ h264, (x h264).Sat (fun _ _ => True)
    (fun _ _ => True) False) (parser : CodecParser) :
    (onH264 x parser).Sat (fun _ _ => True) (fun _ _ => True) False := by
  have hret := hx (parser.h264.getD {})
  unfold onH264
  cases hcall : x (parser.h264.getD {}) with
  | ok a h264 => trivial
  | err e h264 => trivial
  | panic f => rwa [hcall] at hret
  | diverge => rwa [hcall] at hret

/-- Audio of AAC that is parsed leaves a parser that knows a rate. -/
theorem returns_parse_aac {p : AvPacket} {f : Tag} (hheader : p.header = some f) (hvideo : p.isVideo = false)
    (haac : f.soundFormat = soundAac) (parser : CodecParser) :
    (parse p parser).Sat (fun _ parser' => parser'.aac ≠ none) (fun _ _ => True) False := by
  unfold parse
  rw [hheader]
  dsimp only
  rw [if_neg (by simp [hvideo]), if_pos haac]
  exact returns_onAac (Aac.Parser.returns_parse p.data f.aacPacketType) parser

theorem returns_parse (p : AvPacket) (parser : CodecParser) :
    (parse p parser).Sat (fun _ _ => True) (fun _ _ => True) False := by
  unfold parse
  cases p.header with
  | none => trivial
  | some f =>
      dsimp only
      split_ifs
      · exact returns_onH264 (H264.Parser.returns_parse p.data f.isSeq) parser
      · trivial
      · exact (returns_onAac (Aac.Parser.returns_parse p.data f.aacPacketType) parser).imp (fun _ _ _ => trivial)
          (fun _ _ _ => trivial) id
      · trivial

theorem sampleRate_pos {parser : CodecParser} (h : parser.aac ≠ none) : 0 < parser.sampleRate := by
  obtain ⟨aac, haac⟩ := Option.ne_none_iff_exists'.mp h
  rw [sampleRate, haac]
  exact aac.rate_pos

end CodecParser

end Livego
