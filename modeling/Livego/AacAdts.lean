import Livego.BitFields
import Livego.CodecParser
import Livego.Each
import Livego.Framing

/-! The ADTS header, assembled byte by byte in a buffer that every frame uses again, and read back field by field. The
channel configuration loses its first bit on the way. -/

namespace Livego

open Fallible Call

namespace Aac

def adtsHeaderLen : Nat := 7

/-- The buffer of `adtsHeader`. -/
abbrev Header : Type := { b : Bytes // b.length = adtsHeaderLen }

/-- `aac.Parser` with its buffer. -/
structure Buffered where
  parser : Parser := {}
  adtsHeader : Header := ⟨List.replicate adtsHeaderLen 0, rfl⟩

namespace Buffered

/-- The assignments to the bytes of the header, one after the other. -/
def assign (parser : Parser) (frameLen : UInt16) (b : Bytes) : Bytes :=
  let b := b.set 0 0xff
  let b := b.set 1 0xf1
  let b := b.modify 2 (· &&& 0x00)
  let b := b.modify 2 (· ||| (parser.objectType - 1) <<< 6)
  let b := b.modify 2 (· ||| parser.sampleRate <<< 2)
  let b := b.modify 3 (· &&& 0x00)
  let b := b.modify 3 (· ||| parser.channel <<< 2 <<< 4)
  let b := b.modify 3 (· ||| (frameLen <<< 3 >>> 14).toUInt8)
  let b := b.modify 4 (· &&& 0x00)
  let b := b.modify 4 (· ||| (frameLen <<< 5 >>> 8).toUInt8)
  let b := b.modify 5 (· &&& 0x00)
  let b := b.modify 5 (· ||| (frameLen <<< 13 >>> 13).toUInt8 <<< 5)
  let b := b.modify 5 (· ||| 0x1f)
  b.set 6 0xfc

/-- Nothing is left of what the buffer held. -/
theorem assign_eq (parser : Parser) (frameLen : UInt16) (b : Header) :
    assign parser frameLen b.1 = parser.adtsHeader frameLen := by
  obtain ⟨b, hlength⟩ := b
  match b, hlength with
  | [b0, b1, b2, b3, b4, b5, b6], _ =>
    have hzero : ∀ x : UInt8, x &&& 0x00 = 0 := fun x => UInt8.and_zero
    simp [assign, Parser.adtsHeader, List.modify_cons, hzero]

def write (parser : Parser) (frameLen : UInt16) (b : Header) : Header :=
  ⟨assign parser frameLen b.1, by rw [assign_eq]; rfl⟩

theorem write_val (parser : Parser) (frameLen : UInt16) (b : Header) :
    (write parser frameLen b).1 = parser.adtsHeader frameLen :=
  assign_eq parser frameLen b

def specificInfo (src : Bytes) : Call GoError Buffered Unit := fun s =>
  match Parser.specificInfo src s.parser with
  | .ok () parser => .ok () { s with parser }
  | .err e parser => .err e { s with parser }
  | .panic p => .panic p
  | .diverge => .diverge

/-- The result is what is written. -/
def adts (src : Bytes) : Call GoError Buffered Bytes := fun s =>
  if src = [] ∨ s.parser.gettedSpecific = false then .err audioBufInvalid s
  else
    let adtsHeader := write s.parser (UInt16.ofNat src.length + 7) s.adtsHeader
    .ok (adtsHeader.1 ++ src) { s with adtsHeader }

/-- What is written does not depend on the buffer. -/
theorem adts_eq (src : Bytes) (s : Buffered) : (adts src s).forget = (Parser.adts src s.parser).forget := by
  rw [adts, Parser.adts]
  split_ifs
  · rfl
  · exact congrArg (fun h => Outcome.ok (h ++ src) ()) (write_val _ _ _)

/-- Frames leave the parser as it is, refused ones too. -/
theorem attempt_adts (src : Bytes) (s : Buffered) :
    ∃ result s', attempt (adts src) s = .ok result s' ∧ s'.parser = s.parser := by
  rw [attempt, adts]
  split_ifs
  · exact ⟨_, _, rfl, rfl⟩
  · exact ⟨_, _, rfl, rfl⟩

/-- The frames of a stream up to some point. -/
def adtsEach (frames : List Bytes) : Call GoError Buffered Unit :=
  forM frames fun frame => do
    let _ ← attempt (adts frame)
    pure ()

theorem adtsEach_keeps (frames : List Bytes) (s : Buffered) :
    ∃ s', adtsEach frames s = .ok () s' ∧ s'.parser = s.parser := by
  induction frames generalizing s with
  | nil => exact ⟨s, rfl, rfl⟩
  | cons frame frames ih =>
      obtain ⟨result, s', hcall, hparser⟩ := attempt_adts frame s
      obtain ⟨s'', hcalls, hparser'⟩ := ih s'
      refine ⟨s'', ?_, hparser'.trans hparser⟩
      have hone : (attempt (adts frame) >>= fun _ => pure ()) s = .ok () s' := by
        rw [bind_of_ok hcall]
        rfl
      rw [adtsEach, List.forM_cons, bind_of_ok hone]
      exact hcalls

end Buffered

/-! ### The fields of the two formats -/

section
variable (src : Bytes)

def audioObjectType : Nat := Endian.field src 0 5
def samplingFrequencyIndex : Nat := Endian.field src 5 4
def channelConfiguration : Nat := Endian.field src 9 4

end

namespace Adts

section
variable (frame : Bytes)

def profile : Nat := Endian.field frame 16 2
def samplingFrequencyIndex : Nat := Endian.field frame 18 4
def channelConfiguration : Nat := Endian.field frame 23 3
def frameLength : Nat := Endian.field frame 30 13

end

/-- The header of the frame repeats the configuration. -/
structure Repeats (frame src : Bytes) : Prop where
  profile : profile frame = audioObjectType src - 1
  samplingFrequencyIndex : samplingFrequencyIndex frame = Aac.samplingFrequencyIndex src
  channelConfiguration : channelConfiguration frame = Aac.channelConfiguration src

end Adts

/-- What `specificInfo` keeps are the first three fields. -/
theorem specificInfo_fields {src : Bytes} (h : 2 ≤ src.length) (parser : Parser) :
    ∃ parser', Parser.specificInfo src parser = .ok () parser' ∧ parser'.gettedSpecific = true ∧
      parser'.objectType.toNat = audioObjectType src ∧ parser'.sampleRate.toNat = samplingFrequencyIndex src ∧
      parser'.channel.toNat = channelConfiguration src := by
  match src, h with
  | b0 :: b1 :: rest, _ =>
    have hfield : ∀ {offset width}, offset + width ≤ 16 →
        Endian.field (b0 :: b1 :: rest) offset width = Endian.field [b0, b1] offset width :=
      fun {offset width} hwidth =>
        (Endian.field_append hwidth rest : Endian.field ([b0, b1] ++ rest) offset width = _)
    have hnat : Endian.beNat [b0, b1] = b0.toNat * 256 + b1.toNat := by simp [Endian.beNat]
    have hb0 := b0.toNat_lt
    have hb1 := b1.toNat_lt
    refine ⟨_, rfl, rfl, ?_, ?_, ?_⟩
    · rw [audioObjectType, hfield (by decide), Endian.field, hnat]
      simp
      omega
    · have hlow : (b0 &&& 0x07).toNat = b0.toNat % 8 := by
        rw [UInt8.toNat_and]
        exact Nat.and_two_pow_sub_one_eq_mod _ 3
      have htop : (b1 >>> 7).toNat = b1.toNat / 128 := by
        rw [UInt8.toNat_shiftRight]
        exact Nat.shiftRight_eq_div_pow _ 7
      rw [samplingFrequencyIndex, hfield (by decide), Endian.field, hnat]
      rw [Endian.toNat_shiftLeft_or (by decide) (by rw [htop]; exact Nat.div_lt_of_lt_mul hb1), hlow, htop]
      simp
      omega
    · have hchannel : (b1 >>> 3 &&& 0x0f).toNat = b1.toNat / 8 % 16 := by
        rw [UInt8.toNat_and, UInt8.toNat_shiftRight]
        have hshift : b1.toNat >>> 3 = b1.toNat / 8 := Nat.shiftRight_eq_div_pow _ 3
        exact (Nat.and_two_pow_sub_one_eq_mod _ 4).trans (congrArg (· % 16) hshift)
      rw [channelConfiguration, hfield (by decide), Endian.field, hnat]
      simp [hchannel]
      omega

theorem toNat_shiftLeft_shiftRight (v : UInt16) {a b : UInt16} (ha : a.toNat < 16) (hb : b.toNat < 16) :
    (v <<< a >>> b).toUInt8.toNat = v.toNat * 2 ^ a.toNat % 2 ^ 16 / 2 ^ b.toNat % 2 ^ 8 := by
  rw [UInt16.toNat_toUInt8, UInt16.toNat_shiftRight, UInt16.toNat_shiftLeft, Nat.mod_eq_of_lt ha, Nat.mod_eq_of_lt hb,
    Nat.shiftLeft_eq, Nat.shiftRight_eq_div_pow]

/-- The 13 lower bits of the length, over three bytes. -/
theorem toNat_frameLen_parts (frameLen : UInt16) :
    (frameLen <<< 3 >>> 14).toUInt8.toNat = frameLen.toNat / 2048 % 4 ∧
      (frameLen <<< 5 >>> 8).toUInt8.toNat = frameLen.toNat / 8 % 256 ∧
      (frameLen <<< 13 >>> 13).toUInt8.toNat = frameLen.toNat % 8 := by
  have hlt := frameLen.toNat_lt
  refine ⟨?_, ?_, ?_⟩
  · rw [toNat_shiftLeft_shiftRight frameLen (by decide) (by decide)]
    show frameLen.toNat * 2 ^ 3 % 2 ^ 16 / 2 ^ 14 % 2 ^ 8 = _
    omega
  · rw [toNat_shiftLeft_shiftRight frameLen (by decide) (by decide)]
    show frameLen.toNat * 2 ^ 5 % 2 ^ 16 / 2 ^ 8 % 2 ^ 8 = _
    omega
  · rw [toNat_shiftLeft_shiftRight frameLen (by decide) (by decide)]
    show frameLen.toNat * 2 ^ 13 % 2 ^ 16 / 2 ^ 13 % 2 ^ 8 = _
    omega

theorem field_adtsHeader (parser : Parser) (frameLen : UInt16) (rest : Bytes) {offset width : Nat}
    (h : offset + width ≤ 56) :
    Endian.field (parser.adtsHeader frameLen ++ rest) offset width =
      Endian.field (parser.adtsHeader frameLen) offset width := Endian.field_append h rest

/-- The header as a number. Of the channel configuration it has the two lower bits. -/
theorem beNat_adtsHeader (parser : Parser) (frameLen : UInt16) :
    Endian.beNat (parser.adtsHeader frameLen) =
      (((((0xfff1 * 256 + ((parser.objectType - 1) <<< 6 ||| parser.sampleRate <<< 2).toNat) * 256 +
        (parser.channel.toNat % 4 * 64 + frameLen.toNat / 2048 % 4)) * 256 + frameLen.toNat / 8 % 256) * 256 +
        (frameLen.toNat % 8 * 32 + 31)) * 256 + 0xfc) := by
  obtain ⟨htop, hmiddle, hlow⟩ := toNat_frameLen_parts frameLen
  have hchannel : (parser.channel <<< 2).toNat = parser.channel.toNat * 4 % 256 := by
    rw [UInt8.toNat_shiftLeft, Nat.shiftLeft_eq]
    rfl
  have hb3 : (parser.channel <<< 2 <<< 4 ||| (frameLen <<< 3 >>> 14).toUInt8).toNat = _ :=
    Endian.toNat_shiftLeft_or (by decide) (by rw [htop]; exact (by omega : frameLen.toNat / 2048 % 4 < 16))
  have hb5 : ((frameLen <<< 13 >>> 13).toUInt8 <<< 5 ||| 0x1f).toNat = _ :=
    Endian.toNat_shiftLeft_or (by decide) (by decide)
  rw [hchannel, htop] at hb3
  rw [hlow] at hb5
  simp only [Parser.adtsHeader, Endian.beNat, List.foldl_cons, List.foldl_nil, hb3, hb5, hmiddle]
  simp
  omega

theorem frameLength_adtsHeader (parser : Parser) (frameLen : UInt16) (rest : Bytes) :
    Adts.frameLength (parser.adtsHeader frameLen ++ rest) = frameLen.toNat % 2 ^ 13 := by
  rw [Adts.frameLength, field_adtsHeader parser frameLen rest (by decide), Endian.field, beNat_adtsHeader]
  show _ / 2 ^ 13 % 2 ^ 13 = _
  omega

theorem configuration_adtsHeader (parser : Parser) (frameLen : UInt16) (rest : Bytes)
    (hrate : parser.sampleRate.toNat < 16) :
    Adts.profile (parser.adtsHeader frameLen ++ rest) = (parser.objectType - 1).toNat % 4 ∧
      Adts.samplingFrequencyIndex (parser.adtsHeader frameLen ++ rest) = parser.sampleRate.toNat ∧
      Adts.channelConfiguration (parser.adtsHeader frameLen ++ rest) = parser.channel.toNat % 4 := by
  have hshift : (parser.sampleRate <<< 2).toNat = parser.sampleRate.toNat * 4 := by
    rw [UInt8.toNat_shiftLeft, Nat.shiftLeft_eq]
    exact Nat.mod_eq_of_lt (by simp; omega)
  have hb2 : ((parser.objectType - 1) <<< 6 ||| parser.sampleRate <<< 2).toNat =
      (parser.objectType - 1).toNat % 4 * 64 + parser.sampleRate.toNat * 4 := by
    rw [Endian.toNat_shiftLeft_or (by decide) (by rw [hshift]; exact (by omega : parser.sampleRate.toNat * 4 < 64)),
      hshift]
    rfl
  have hnat := beNat_adtsHeader parser frameLen
  rw [hb2] at hnat
  refine ⟨?_, ?_, ?_⟩
  · rw [Adts.profile, field_adtsHeader parser frameLen rest (by decide), Endian.field, hnat]
    show _ / 2 ^ 38 % 2 ^ 2 = _
    omega
  · rw [Adts.samplingFrequencyIndex, field_adtsHeader parser frameLen rest (by decide), Endian.field, hnat]
    show _ / 2 ^ 34 % 2 ^ 4 = _
    omega
  · rw [Adts.channelConfiguration, field_adtsHeader parser frameLen rest (by decide), Endian.field, hnat]
    show _ / 2 ^ 30 % 2 ^ 3 = _
    omega

namespace Buffered

/-- The configuration of a stream, some frames of it, and one more. -/
def stream (src : Bytes) (before : List Bytes) (frame : Bytes) : Call GoError Buffered Bytes := do
  specificInfo src
  adtsEach before
  adts frame

/-- The header of any frame, whatever the buffer held at the start and whatever frames came before, repeats the
configuration exactly if that has at most three channels. Only an empty frame is refused. -/
theorem repeats_iff {src : Bytes} (hlength : 2 ≤ src.length)
    (hobject : 1 ≤ audioObjectType src ∧ audioObjectType src ≤ 4) (hindex : samplingFrequencyIndex src ≤ 12)
    (hchannel : 1 ≤ channelConfiguration src ∧ channelConfiguration src ≤ 7) (s : Buffered) (before : List Bytes)
    (frame : Bytes) :
    (stream src before frame s).Sat (fun written _ => Adts.Repeats written src ↔ channelConfiguration src ≤ 3)
      (fun _ _ => frame = []) False := by
  obtain ⟨parser, hinfo, hgetted, hobject', hrate, hchannel'⟩ := specificInfo_fields hlength s.parser
  have hinfo' : specificInfo src s = .ok () { s with parser } := by rw [specificInfo, hinfo]
  obtain ⟨s', heach, hparser⟩ := adtsEach_keeps before { s with parser }
  rw [stream, bind_of_ok hinfo', bind_of_ok heach, adts]
  split_ifs with hrefused
  · have hgetted' : s'.parser.gettedSpecific = true := hparser ▸ hgetted
    exact hrefused.resolve_right (by simp [hgetted'])
  · have hparser' : s'.parser = parser := hparser
    obtain ⟨hp, hf, hc⟩ := configuration_adtsHeader parser (UInt16.ofNat frame.length + 7) frame (by omega)
    rw [Outcome.sat_ok, write_val, hparser']
    have hprofile : (parser.objectType - 1).toNat = parser.objectType.toNat - 1 :=
      UInt8.toNat_sub_of_le _ _ (UInt8.le_iff_toNat_le.mpr (hobject' ▸ hobject.1))
    constructor
    · intro h
      have hrepeats := h.channelConfiguration
      omega
    · intro hfew
      constructor
      · omega
      · omega
      · omega

theorem repeats_iff_sample :
    (stream [0x12, 0x10] [[0x21, 0x10]] [0x21] {}).Sat
      (fun written _ => Adts.Repeats written [0x12, 0x10] ↔ channelConfiguration [0x12, 0x10] ≤ 3)
      (fun _ _ => [0x21] = ([] : Bytes)) False :=
  repeats_iff (by decide) (by decide) (by decide) (by decide) {} [[0x21, 0x10]] [0x21]

/-- 5.1, which is announced as two channels. -/
theorem stream_fiveOne :
    audioObjectType [0x12, 0x30] = 2 ∧ samplingFrequencyIndex [0x12, 0x30] = 4 ∧ channelConfiguration [0x12, 0x30] = 6 ∧
      ∃ s, stream [0x12, 0x30] [] [0x21] {} = .ok [0xff, 0xf1, 0x50, 0x80, 0x01, 0x1f, 0xfc, 0x21] s ∧
        Adts.channelConfiguration [0xff, 0xf1, 0x50, 0x80, 0x01, 0x1f, 0xfc, 0x21] = 2 :=
  ⟨by decide, by decide, by decide, _, rfl, by decide⟩

end Buffered

/-! ### Frames after one another -/

namespace Adts

/-- A frame with its header, which has its length. -/
abbrev Framed : Type := { u : Bytes // adtsHeaderLen ≤ u.length ∧ frameLength u = u.length }

theorem frameLength_append {bs : Bytes} (h : adtsHeaderLen ≤ bs.length) (rest : Bytes) :
    frameLength (bs ++ rest) = frameLength bs := by
  have hlen : adtsHeaderLen = 7 := rfl
  exact Endian.field_append (by omega) rest

def next (bs : Bytes) : Option (Framed × Bytes) :=
  if h : adtsHeaderLen ≤ (bs.take (frameLength bs)).length ∧ frameLength (bs.take (frameLength bs)) =
      (bs.take (frameLength bs)).length then some (⟨bs.take (frameLength bs), h⟩, bs.drop (frameLength bs))
  else none

theorem next_eq_some {bs rest : Bytes} {u : Framed} : next bs = some (u, rest) ↔ bs = u.1 ++ rest := by
  unfold next
  constructor
  · intro h
    split_ifs at h with hframed
    cases h
    exact (List.take_append_drop _ bs).symm
  · rintro rfl
    have hlength : frameLength (u.1 ++ rest) = u.1.length := (frameLength_append u.2.1 rest).trans u.2.2
    rw [hlength]
    simp [u.2]

/-- Frames are split by the lengths in their headers. -/
def framing : Framing Framed UInt8 where
  write := fun u => u.1
  next := next
  next_eq_some := next_eq_some
  write_ne_nil := fun u => by
    have hpos : 0 < u.1.length := Nat.lt_of_lt_of_le (by decide) u.2.1
    exact List.length_pos_iff.mp hpos

/-- What is between the headers. -/
def rawFrames (bs : Bytes) : Option (List Bytes) := (framing.split bs).map (List.map fun u => u.1.drop adtsHeaderLen)

theorem rawFrames_flatMap (us : List Framed) :
    rawFrames (us.flatMap fun u => u.1) = some (us.map fun u => u.1.drop adtsHeaderLen) := by
  have hsplit : framing.split (us.flatMap fun u => u.1) = some us := Framing.split_eq_some.mpr rfl
  rw [rawFrames, hsplit]
  rfl

end Adts

/-- A frame of a length that is in the header. -/
theorem framed_adtsHeader (parser : Parser) {raw : Bytes} (h : raw.length ≤ 8184) :
    adtsHeaderLen ≤ (parser.adtsHeader (UInt16.ofNat raw.length + 7) ++ raw).length ∧
      Adts.frameLength (parser.adtsHeader (UInt16.ofNat raw.length + 7) ++ raw) =
        (parser.adtsHeader (UInt16.ofNat raw.length + 7) ++ raw).length := by
  have hlength : (parser.adtsHeader (UInt16.ofNat raw.length + 7) ++ raw).length = 7 + raw.length :=
    List.length_append
  have hnat : (UInt16.ofNat raw.length + 7).toNat = raw.length + 7 := by
    rw [UInt16.toNat_add, UInt16.toNat_ofNat']
    show (raw.length % 2 ^ 16 + 7) % 2 ^ 16 = _
    omega
  rw [frameLength_adtsHeader, hnat, hlength]
  have hlen : adtsHeaderLen = 7 := rfl
  omega

end Aac

end Livego
