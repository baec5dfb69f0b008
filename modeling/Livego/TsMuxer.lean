import Livego.Loop
import Livego.Basic

/-! The MPEG-TS muxer: one elementary-stream packet becomes a PES packet that is cut into transport packets
of 188 bytes, all built in one reused buffer with 8-bit indices. -/

namespace Livego

open Fallible

def tsDefaultDataLen : Nat := 184
def tsPacketLen : Nat := 188
def h264DefaultHZ : Int := 90
def videoPID : Nat := 0x100
def audioPID : Nat := 0x101
def videoSID : Nat := 0xe0
def audioSID : Nat := 0xc0

structure VideoPacketHeader where
  isKeyFrame : Bool
  compositionTime : Int
  deriving DecidableEq, Repr

/-- An elementary-stream packet; `header` is what the type assertion to a video header gives. -/
structure Packet where
  isVideo : Bool
  timeStamp : Nat
  header : Option VideoPacketHeader
  data : Bytes
  deriving DecidableEq, Repr

/-- The value a `byte` holds. -/
def u8 (n : Nat) : Nat := n % 256

/-- Subtraction of two `byte` values. -/
def sub8 (a b : Nat) : Nat := (a + 256 - b) % 256

/-- `copy(dst[i:], src)`. -/
def copyAt (i : Nat) (src dst : Bytes) : Bytes :=
  dst.take i ++ src.take (dst.length - i) ++ dst.drop (i + src.length)

structure PesHeader where
  len : Nat
  data : Bytes
  deriving DecidableEq, Repr

namespace PesHeader

/-- A 33-bit time stamp in five bytes with marker bits, after the four bits `fb`. -/
def writeTs (fb : Nat) (ts : Int) : Bytes :=
  let ts := if ts > 0x1ffffffff then ts - 0x1ffffffff else ts
  let high := ((ts >>> (30 : Nat)) % 2 ^ 32).toNat &&& 0x07
  let middle := (((ts >>> (15 : Nat)) % 2 ^ 32).toNat &&& 0x7fff) <<< 1 ||| 1
  let low := (ts % 2 ^ 15).toNat <<< 1 ||| 1
  [UInt8.ofNat (fb <<< 4 ||| high <<< 1 ||| 1), UInt8.ofNat (middle >>> 8), UInt8.ofNat middle,
    UInt8.ofNat (low >>> 8), UInt8.ofNat low]

/-- The header bytes that `packet` writes. -/
def written (p : Packet) (pts dts : Int) : Bytes :=
  let sid := if p.isVideo then videoSID else audioSID
  let withDts := p.isVideo ∧ pts ≠ dts
  let flag := if withDts then 0x80 ||| 0x40 else 0x80
  let headerSize := if withDts then 5 + 5 else 5
  let size := p.data.length + headerSize + 3
  let size := if size > 0xffff then 0 else size
  [0x00, 0x00, 0x01, UInt8.ofNat sid, UInt8.ofNat (size >>> 8), UInt8.ofNat size, 0x80, UInt8.ofNat flag,
    UInt8.ofNat headerSize] ++ writeTs (flag >>> 6) pts ++ (if withDts then writeTs 1 dts else [])

/-- The array behind the header bytes stays zero. -/
def packet (p : Packet) (pts dts : Int) : PesHeader :=
  let bytes := written p pts dts
  { len := u8 bytes.length, data := bytes ++ List.replicate (tsPacketLen - bytes.length) 0 }

end PesHeader

structure Muxer where
  videoCc : Nat := 0
  audioCc : Nat := 0
  tsPacket : Bytes := List.replicate tsPacketLen 0
  deriving DecidableEq, Repr

/-- The variables of the loop of `Mux`. The bytes among them are `dataLen` and `pesHeaderLen`. -/
structure MuxLoop where
  first : Bool := true
  wBytes : Nat := 0
  pesIndex : Nat := 0
  dataLen : Nat := 0
  pesHeaderLen : Nat
  packetBytesLen : Int
  deriving DecidableEq, Repr

namespace Muxer

def newMuxer : Muxer := {}

/-- A counter of four bits, kept in a byte. -/
def nextCc (cc : Nat) : Nat := if u8 (cc + 1) > 0xf then 0 else u8 (cc + 1)

/-- The four header bytes. -/
def writeHeader (first : Bool) (pid cc : Nat) (b : Bytes) : Bytes :=
  let high := if first then pid >>> 8 ||| 0x40 else pid >>> 8
  copyAt 0 [0x47, UInt8.ofNat high, UInt8.ofNat pid, UInt8.ofNat (0x10 ||| cc &&& 0x0f)] b

/-- `tsPacket[3] |= 0x20`. -/
def haveAdaptation (b : Bytes) : Bytes := b.modify 3 (· ||| 0x20)

/-- The six bytes of a program clock reference. -/
def writePcr (pcr : Int) : Bytes :=
  [UInt8.ofInt (pcr >>> (25 : Nat)), UInt8.ofInt (pcr >>> (17 : Nat)), UInt8.ofInt (pcr >>> (9 : Nat)),
    UInt8.ofInt (pcr >>> (1 : Nat)), UInt8.ofInt (pcr % 2 * 128 + 0x7e), 0]

/-- An adaptation field of `remainBytes` bytes at `i`: its length, no flags, and stuffing to the end of the
buffer, over which the frame data is written afterwards. -/
def adaptationBufInit (i remainBytes : Nat) (b : Bytes) : Bytes :=
  let length := UInt8.ofNat (sub8 remainBytes 1)
  if remainBytes = 1 then copyAt i [length] b
  else copyAt i (length :: 0x00 :: List.replicate (tsPacketLen - i - 2) 0xff) b

def pidOf (p : Packet) : Nat := if p.isVideo then videoPID else audioPID

def dtsOf (p : Packet) : Int := p.timeStamp * h264DefaultHZ

/-- The composition time of a video packet without a video header is that of a nil interface. -/
def ptsOf (p : Packet) : Option Int :=
  if p.isVideo then p.header.map fun videoH => dtsOf p + videoH.compositionTime * h264DefaultHZ
  else some (dtsOf p)

def isKeyFrame (p : Packet) : Bool := p.isVideo && (p.header.map (·.isKeyFrame)).getD false

variable {ω : Type}

/-- The buffer and the index once header, clock reference and stuffing are written, and how much frame data the
packet is to hold. -/
def layOut (p : Packet) (v : MuxLoop) (cc : Nat) (b : Bytes) : Bytes × Nat × Nat :=
  let b := writeHeader v.first (pidOf p) cc b
  let i := 4
  let (b, i) :=
    if v.first ∧ isKeyFrame p then
      (copyAt i ([7, 0x50] ++ writePcr (dtsOf p)) (haveAdaptation b), i + 8)
    else (b, i)
  if v.packetBytesLen ≥ tsDefaultDataLen then
    (b, i, if v.first then sub8 tsDefaultDataLen (i - 4) else tsDefaultDataLen)
  else
    let b := haveAdaptation b
    let dataLen := (v.packetBytesLen % 256).toNat
    let remainBytes :=
      if v.first then sub8 (sub8 tsDefaultDataLen dataLen) (i - 4) else sub8 tsDefaultDataLen dataLen
    (adaptationBufInit i remainBytes b, u8 (i + remainBytes), dataLen)

/-- The PES header goes into the first packet. -/
def putPes (pes : PesHeader) (v : MuxLoop) (b : Bytes) (i : Nat) : Option (MuxLoop × Bytes × Nat) :=
  if v.first ∧ i < tsPacketLen ∧ v.pesHeaderLen > 0 then
    let tmpLen := sub8 tsPacketLen i
    let tmpLen := if v.pesHeaderLen ≤ tmpLen then v.pesHeaderLen else tmpLen
    if v.pesIndex + tmpLen > tsPacketLen then none
    else some ({ v with
      pesIndex := v.pesIndex + tmpLen
      dataLen := sub8 v.dataLen tmpLen
      pesHeaderLen := sub8 v.pesHeaderLen tmpLen
      packetBytesLen := v.packetBytesLen - tmpLen },
      copyAt i ((pes.data.drop v.pesIndex).take tmpLen) b, u8 (i + tmpLen))
  else some (v, b, i)

/-- As much of the frame as the packet takes; the capacity of `Data` is taken to be its length. -/
def putData (p : Packet) (v : MuxLoop) (b : Bytes) (i : Nat) : Option (MuxLoop × Bytes) :=
  if i < tsPacketLen then
    let tmpLen := sub8 tsPacketLen i
    let dataLen := if tmpLen ≤ v.dataLen then tmpLen else v.dataLen
    if v.wBytes + dataLen > p.data.length then none
    else some ({ v with
      wBytes := v.wBytes + dataLen
      dataLen
      packetBytesLen := v.packetBytesLen - dataLen },
      copyAt i ((p.data.drop v.wBytes).take dataLen) b)
  else some (v, b)

/-- The counter of the stream of the packet goes on by one. -/
def count (p : Packet) (muxer : Muxer) : Muxer :=
  if p.isVideo then { muxer with videoCc := nextCc muxer.videoCc }
  else { muxer with audioCc := nextCc muxer.audioCc }

def ccOf (p : Packet) (muxer : Muxer) : Nat := if p.isVideo then muxer.videoCc else muxer.audioCc

/-- A writer that keeps the packets, as a buffer does. -/
def collect (b : Bytes) : Call GoError (List Bytes) Unit := Call.modify (· ++ [b])

/-- One turn of the loop: one transport packet, handed to the writer. -/
def muxTurn (write : Bytes → Call GoError ω Unit) (p : Packet) (pes : PesHeader) (v : MuxLoop) :
    Call GoError (Muxer × ω) (MuxLoop ⊕ Unit) := fun (muxer, w) =>
  if v.packetBytesLen ≤ 0 then .ok (.inr ()) (muxer, w)
  else
    let muxer := count p muxer
    let (b, i, dataLen) := layOut p v (ccOf p muxer) muxer.tsPacket
    match putPes pes { v with dataLen } b i with
    | none => .panic .sliceBounds
    | some (v, b, i) =>
      match putData p v b i with
      | none => .panic .sliceBounds
      | some (v, b) =>
        let muxer := { muxer with tsPacket := b }
        match write b w with
        | .ok () w => .ok (.inl { v with first := false }) (muxer, w)
        | .err e w => .err e (muxer, w)
        | .panic p => .panic p
        | .diverge => .diverge

/-- `Mux`. The turns are bounded by the bytes to be sent, of which each packet takes one at least. -/
def mux (write : Bytes → Call GoError ω Unit) (p : Packet) : Call GoError (Muxer × ω) Unit :=
  match ptsOf p with
  | none => Call.panic .nilDereference
  | some pts =>
    let pes := PesHeader.packet p pts (dtsOf p)
    let packetBytesLen := p.data.length + pes.len
    Call.loop (muxTurn write p pes) (packetBytesLen + 1) { pesHeaderLen := pes.len, packetBytesLen }

/-- `Mux` for one packet after the other. -/
def muxAll : List Packet → Call GoError (Muxer × List Bytes) Unit
  | [] => pure ()
  | p :: ps => do
    mux collect p
    muxAll ps

end Muxer

end Livego
