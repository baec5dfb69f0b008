import Livego.TsKeyFrame
import Livego.HlsSource

/-! The clocks of a transport stream: what the time stamps of a PES header and the clock reference of a key frame
read back as, and the composition offset that a publisher sent. -/

namespace Livego

open Fallible TsDemux Hls

namespace TsDemux

/-- Five bytes of a time stamp by ISO 13818-1: four bits that say which one it is, and 33 bits of the clock in three
parts with a marker bit behind each. -/
def stampOf (code : Nat) : Bytes → Option Nat
  | b0 :: b1 :: b2 :: b3 :: b4 :: _ =>
    if b0.toNat / 16 = code ∧ b0.toNat % 2 = 1 ∧ b2.toNat % 2 = 1 ∧ b4.toNat % 2 = 1 then
      some (b0.toNat / 2 % 8 * 2 ^ 30 + (b1.toNat * 256 + b2.toNat) / 2 * 2 ^ 15 + (b3.toNat * 256 + b4.toNat) / 2)
    else none
  | _ => none

/-- The PTS of a PES header, and the DTS if there is one. -/
def stampsOf : Bytes → Option (Nat × Option Nat)
  | 0x00 :: 0x00 :: 0x01 :: _ :: _ :: _ :: _ :: flags :: headerSize :: rest =>
    if flags.toNat / 64 = 2 ∧ 5 ≤ headerSize.toNat then (stampOf 2 rest).map fun pts => (pts, none)
    else if flags.toNat / 64 = 3 ∧ 10 ≤ headerSize.toNat then
      (stampOf 3 rest).bind fun pts => (stampOf 1 (rest.drop 5)).map fun dts => (pts, some dts)
    else none
  | _ => none

end TsDemux

/-- The value of a clock of 33 bits. -/
def clock33 (ts : Int) : Nat := (ts % 2 ^ 33).toNat

namespace PesHeader

/-- A marker bit behind a field. -/
theorem marked (x : Nat) : x <<< 1 ||| 1 = x * 2 + 1 := by
  rw [← Nat.shiftLeft_add_eq_or_of_lt (by decide : 1 < 2 ^ 1), Nat.shiftLeft_eq]

theorem fields_eq (fb : Nat) {x : Nat} (hx : x < 8) : fb <<< 4 ||| x <<< 1 ||| 1 = fb * 16 + (x * 2 + 1) := by
  rw [Nat.or_assoc, marked, ← Nat.shiftLeft_add_eq_or_of_lt (by omega : x * 2 + 1 < 2 ^ 4), Nat.shiftLeft_eq]

/-- The bytes of a time stamp whose corrected value is `n`. -/
theorem writeTs_eq (fb : Nat) {ts : Int} {n : Nat} (hn : (if ts > 0x1ffffffff then ts - 0x1ffffffff else ts) = n) :
    writeTs fb ts =
      [UInt8.ofNat (fb * 16 + (n / 2 ^ 30 % 8 * 2 + 1)), UInt8.ofNat ((n / 2 ^ 15 % 2 ^ 15 * 2 + 1) / 256),
        UInt8.ofNat (n / 2 ^ 15 % 2 ^ 15 * 2 + 1), UInt8.ofNat ((n % 2 ^ 15 * 2 + 1) / 256),
        UInt8.ofNat (n % 2 ^ 15 * 2 + 1)] := by
  have hhigh : (((n : Int) >>> (30 : Nat)) % 2 ^ 32).toNat &&& 0x07 = n / 2 ^ 30 % 8 := by
    rw [Int.shiftRight_eq_div_pow, Nat.and_two_pow_sub_one_eq_mod _ 3]
    omega
  have hmiddle : (((n : Int) >>> (15 : Nat)) % 2 ^ 32).toNat &&& 0x7fff = n / 2 ^ 15 % 2 ^ 15 := by
    rw [Int.shiftRight_eq_div_pow, Nat.and_two_pow_sub_one_eq_mod _ 15]
    omega
  have hlow : ((n : Int) % 2 ^ 15).toNat = n % 2 ^ 15 := by omega
  simp only [writeTs, hn, hhigh, hmiddle, hlow, fields_eq fb (Nat.mod_lt _ (by decide : 8 > 0)), marked,
    Nat.shiftRight_eq_div_pow]

/-- What a time stamp reads back as: from the wrap on it is one too high. -/
theorem stampOf_writeTs {fb : Nat} (hfb : fb < 16) {ts : Int} (hts : 0 ≤ ts) (rest : Bytes) :
    stampOf fb (writeTs fb ts ++ rest) = some (clock33 (if ts < 2 ^ 33 then ts else ts + 1)) := by
  obtain ⟨n, hn⟩ : ∃ n : Nat, (if ts > 0x1ffffffff then ts - 0x1ffffffff else ts) = n := by
    apply Int.eq_ofNat_of_zero_le
    split_ifs <;> omega
  have hclock : clock33 (if ts < 2 ^ 33 then ts else ts + 1) = n % 2 ^ 33 := by
    rw [clock33]
    split_ifs at hn ⊢ <;> omega
  rw [writeTs_eq fb hn, hclock]
  simp only [List.cons_append, List.nil_append, stampOf, UInt8.toNat_ofNat']
  have hcond : (fb * 16 + (n / 2 ^ 30 % 8 * 2 + 1)) % 2 ^ 8 = fb * 16 + (n / 2 ^ 30 % 8 * 2 + 1) := by omega
  rw [hcond, if_pos (by omega), Option.some.injEq]
  omega

/-- The clock that a decoder reads where `writeTs` was given `ts`. -/
def shown (ts : Int) : Int := if ts < 2 ^ 33 then ts else ts + 1

theorem clock33_shown {ts : Int} : clock33 (shown ts) = clock33 ts ↔ ts < 2 ^ 33 := by
  unfold clock33 shown
  split_ifs <;> omega

theorem stampsOf_written (p : Packet) {pts dts : Int} (hpts : 0 ≤ pts) (hdts : 0 ≤ dts) (rest : Bytes) :
    stampsOf (written p pts dts ++ rest) =
      some (clock33 (shown pts), if p.isVideo ∧ pts ≠ dts then some (clock33 (shown dts)) else none) := by
  by_cases hwith : p.isVideo ∧ pts ≠ dts
  · simp only [written, if_pos hwith, List.cons_append, List.nil_append, List.append_assoc]
    have hflag : ¬((UInt8.ofNat (0x80 ||| 0x40)).toNat / 64 = 2 ∧ 5 ≤ (UInt8.ofNat (5 + 5)).toNat) := by decide
    have hboth : (UInt8.ofNat (0x80 ||| 0x40)).toNat / 64 = 3 ∧ 10 ≤ (UInt8.ofNat (5 + 5)).toNat := by decide
    have hdrop : (writeTs ((0x80 ||| 0x40) >>> 6) pts ++ (writeTs 1 dts ++ rest)).drop 5 = writeTs 1 dts ++ rest :=
      rfl
    simp only [stampsOf]
    rw [if_neg hflag, if_pos hboth, hdrop, stampOf_writeTs (by decide) hdts]
    have hfirst := stampOf_writeTs (by decide : 3 < 16) hpts (writeTs 1 dts ++ rest)
    rw [show (0x80 ||| 0x40) >>> 6 = 3 from rfl, hfirst]
    rfl
  · simp only [written, if_neg hwith, List.cons_append, List.nil_append, List.append_assoc]
    have hflag : (UInt8.ofNat 0x80).toNat / 64 = 2 ∧ 5 ≤ (UInt8.ofNat 5).toNat := by decide
    simp only [stampsOf]
    rw [if_pos hflag]
    have hfirst := stampOf_writeTs (by decide : 2 < 16) hpts rest
    rw [show 0x80 >>> 6 = 2 from rfl, hfirst]
    rfl

end PesHeader

namespace Muxer

/-- A clock reference of which the bytes from the sixth on in front of `i` are left. -/
theorem clockBase_front {b : Bytes} {cc i : Nat} {dts : Int} (htake : b.take 12 = clockBytes cc dts) (hi : 12 ≤ i)
    (payload : Bytes) : clockBase ((b.take i ++ payload).drop 5) = some (clock33 dts) := by
  have hsplit : b.take i = clockBytes cc dts ++ (b.take i).drop 12 := by
    have hfront : (b.take i).take 12 = clockBytes cc dts := by rw [List.take_take, Nat.min_eq_left hi, htake]
    rw [← hfront, List.take_append_drop]
  rw [hsplit]
  exact clockBase_writePcr dts

/-- The clock reference of a key frame whose PES packet has `n` bytes: from 178 bytes on the PES header is written
over the end of it, and from 184 bytes on the packet is laid out behind it. -/
def ReferenceKept (n clock : Nat) : Prop :=
  n ≤ 178 ∨ 184 ≤ n ∨ n = 179 ∧ clock % 2 ^ 9 = 0 ∨ n = 180 ∧ clock % 2 ^ 17 = 0 ∨ n = 182 ∧ clock = 960

/-- The bytes of a clock reference as parts of the clock. -/
theorem writePcr_parts (pcr : Int) :
    ∃ b0 b1 b2 b3 b4 : Nat, b0 < 256 ∧ b1 < 256 ∧ b2 < 256 ∧ b3 < 256 ∧ b4 < 2 ∧
      clock33 pcr = b0 * 2 ^ 25 + b1 * 2 ^ 17 + b2 * 2 ^ 9 + b3 * 2 + b4 ∧
      writePcr pcr = [UInt8.ofNat b0, UInt8.ofNat b1, UInt8.ofNat b2, UInt8.ofNat b3, UInt8.ofNat (b4 * 128 + 0x7e), 0] := by
  have hbyte : ∀ (x : Int) (n : Nat), x % 256 = n % 256 → UInt8.ofInt x = UInt8.ofNat n := by
    intro x n h
    rw [← UInt8.toNat_inj, UInt8.ofInt, UInt8.toNat_ofNat', UInt8.toNat_ofNat']
    omega
  have hshift : ∀ k : Nat, pcr >>> k = pcr / 2 ^ k := Int.shiftRight_eq_div_pow pcr
  refine ⟨clock33 pcr / 2 ^ 25, clock33 pcr / 2 ^ 17 % 256, clock33 pcr / 2 ^ 9 % 256, clock33 pcr / 2 % 256,
    clock33 pcr % 2, ?_, by omega, by omega, by omega, by omega, by omega, ?_⟩
  · rw [clock33]
    omega
  · rw [writePcr, hshift, hshift, hshift, hshift, clock33]
    rw [hbyte (pcr / 2 ^ 25) ((pcr % 2 ^ 33).toNat / 2 ^ 25), hbyte (pcr / 2 ^ 17) ((pcr % 2 ^ 33).toNat / 2 ^ 17 % 256),
      hbyte (pcr / 2 ^ 9) ((pcr % 2 ^ 33).toNat / 2 ^ 9 % 256), hbyte (pcr / 2 ^ 1) ((pcr % 2 ^ 33).toNat / 2 % 256),
      hbyte (pcr % 2 * 128 + 0x7e) ((pcr % 2 ^ 33).toNat % 2 * 128 + 0x7e)]
    all_goals omega

/-- The start code and the stream in place of the last bytes of a clock reference. -/
theorem clockBase_overwritten {cc n : Nat} {dts : Int} (heven : dts % 2 = 0) (hn : 176 < n ∧ n < 184) (b : UInt8)
    (rest : Bytes) :
    clockBase (((clockBytes cc dts).take (tsPacketLen - n) ++ 0x00 :: 0x00 :: 0x01 :: 0xe0 :: 0x00 :: b :: rest).drop 5) =
      some (clock33 dts) ↔ ReferenceKept n (clock33 dts) := by
  obtain ⟨b0, b1, b2, b3, b4, h0, h1, h2, h3, h4, hclock, hbytes⟩ := writePcr_parts dts
  have hlow : b4 = 0 := by
    rw [clock33] at hclock
    omega
  subst hlow
  obtain rfl | rfl | rfl | rfl | rfl | rfl | rfl : n = 177 ∨ n = 178 ∨ n = 179 ∨ n = 180 ∨ n = 181 ∨ n = 182 ∨ n = 183 := by
    omega
  all_goals
    simp only [clockBytes, headerBytes, hbytes, hclock, tsPacketLen, List.cons_append, List.nil_append, Nat.reduceSub,
      List.take_succ_cons, List.take_zero, List.drop_succ_cons, List.drop_zero, clockBase, ReferenceKept]
  case inr.inr.inr.inr.inr.inr =>
    rw [if_pos (by decide)]
    simp
  all_goals
    rw [if_neg (by decide), Option.some.injEq]
    simp only [UInt8.toNat_ofNat', UInt8.toNat_ofNat, true_and]
    omega

/-- The composition offset of a packet, in milliseconds. -/
def offsetOf (p : Packet) : Option Int := if p.isVideo then p.header.map (·.compositionTime) else some 0

theorem ptsOf_eq {p : Packet} {c : Int} (hc : offsetOf p = some c) : ptsOf p = some ((p.timeStamp + c) * 90) := by
  unfold offsetOf at hc
  unfold ptsOf dtsOf
  have hrate : h264DefaultHZ = 90 := rfl
  split_ifs at hc ⊢ with hvideo
  · obtain ⟨videoH, hheader, rfl⟩ := Option.map_eq_some_iff.mp hc
    rw [hheader, Option.map_some, hrate, Int.add_mul]
  · cases hc
    rw [hrate, Int.add_zero]

/-- How a short PES packet of a video frame begins. -/
theorem written_short {p : Packet} {pts dts : Int} (hvideo : p.isVideo = true)
    (hshort : p.data.length < 184) :
    ∃ b rest, PesHeader.written p pts dts = 0x00 :: 0x00 :: 0x01 :: 0xe0 :: 0x00 :: b :: rest := by
  have hsize : ∀ k, k ≤ 10 → UInt8.ofNat ((if p.data.length + k + 3 > 0xffff then 0 else p.data.length + k + 3) >>> 8) =
      0x00 := by
    intro k hk
    rw [if_neg (by omega), Nat.shiftRight_eq_div_pow, Nat.div_eq_of_lt (by omega)]
    rfl
  have hsid : UInt8.ofNat (if p.isVideo = true then videoSID else audioSID) = 0xe0 := by
    rw [if_pos hvideo]
    rfl
  by_cases hwith : p.isVideo = true ∧ pts ≠ dts
  · simp only [PesHeader.written, List.cons_append, List.nil_append, hsid, if_pos hwith, hsize _ (by decide : 5 + 5 ≤ 10)]
    exact ⟨_, _, rfl⟩
  · simp only [PesHeader.written, List.cons_append, List.nil_append, hsid, if_neg hwith, hsize _ (by decide : 5 ≤ 10)]
    exact ⟨_, _, rfl⟩

/-- A video frame with a header has a clock reference exactly if it is a key frame. -/
theorem isKeyFrame_iff {p : Packet} : isKeyFrame p = true ↔
    p.isVideo = true ∧ ∃ videoH, p.header = some videoH ∧ videoH.isKeyFrame = true := by
  unfold isKeyFrame
  cases p.header <;> simp

/-- The first packet of any frame ends with the beginning of its PES packet, the whole header in it. In front of
that a key frame has its clock reference, or what is left of it. -/
theorem mux_firstPacket {p : Packet} {pts : Int} (hpts : ptsOf p = some pts) {muxer : Muxer} (h : Ok muxer)
    (out : List Bytes) :
    ∃ muxer' head d packets,
      mux collect p (muxer, out) = .ok () (muxer', out ++ (head ++ (pesOf p).take d) :: packets) ∧
      (PesHeader.written p pts (dtsOf p)).length ≤ d ∧
      (isKeyFrame p = true → (clockBase ((head ++ (pesOf p).take d).drop 5) = some (clock33 (dtsOf p)) ↔
        ReferenceKept (pesOf p).length (clock33 (dtsOf p)))) := by
  have hD : tsDefaultDataLen = 184 := rfl
  have hP : tsPacketLen = 188 := rfl
  have hpes : pesOf p = PesHeader.written p pts (dtsOf p) ++ p.data := by
    rw [pesOf, hpts, Option.getD_some, pesBytes_eq]
  have hwritten := PesHeader.written_length p pts (dtsOf p)
  have hlen : (pesOf p).length = (PesHeader.written p pts (dtsOf p)).length + p.data.length := by
    rw [hpes, List.length_append]
  have hle : (PesHeader.written p pts (dtsOf p)).length ≤ 19 := by
    rw [hwritten]
    split_ifs <;> decide
  cases hkey : isKeyFrame p with
  | false =>
      have hinter : InterFrame p := by
        intro hvideo
        simp only [ptsOf, if_pos hvideo, Option.map_eq_some_iff] at hpts
        obtain ⟨videoH, hheader, -⟩ := hpts
        refine ⟨videoH, hheader, ?_⟩
        simpa [isKeyFrame, hvideo, hheader] using hkey
      obtain ⟨muxer', packets, hmux, -, -⟩ := mux_interFrame hinter h out
      exact ⟨muxer', _, _, packets, hmux, by omega, fun hcontra => absurd hcontra Bool.false_ne_true⟩
  | true =>
      obtain ⟨hvideo, videoH, hheader, hkey'⟩ := isKeyFrame_iff.mp hkey
      obtain ⟨muxer', b, packets, hmux, hb, htake, -⟩ := mux_keyFrame hvideo hheader hkey' h out
      have hpay : firstPayload (pesOf p).length = if 184 ≤ (pesOf p).length then 176 else (pesOf p).length := rfl
      refine ⟨muxer', _, _, packets, hmux, ?_, fun _ => ?_⟩
      · rw [hpay]
        split_ifs <;> omega
      · by_cases hshort : 176 < (pesOf p).length ∧ (pesOf p).length < 184
        · obtain ⟨b1, rest, hbytes⟩ := @written_short p pts (dtsOf p) hvideo (by omega)
          have hfront : b.take (tsPacketLen - (pesOf p).length) =
              (clockBytes ((ccOf p muxer + 1) % 16) (dtsOf p)).take (tsPacketLen - (pesOf p).length) := by
            rw [← htake, List.take_take, Nat.min_eq_left (by omega)]
          have heven : dtsOf p % 2 = 0 := by
            rw [dtsOf, h264DefaultHZ]
            omega
          have hover := @clockBase_overwritten ((ccOf p muxer + 1) % 16) _ _ heven hshort b1 (rest ++ p.data)
          rw [hpay, if_neg (by omega), List.take_length, hfront]
          rw [← hover, hpes, hbytes]
          rfl
        · have hkept : ReferenceKept (pesOf p).length (clock33 (dtsOf p)) := by
            rw [ReferenceKept]
            omega
          refine iff_of_true (clockBase_front htake ?_ _) hkept
          rw [hpay]
          split_ifs <;> omega

/-- The second time stamp of a video frame is there exactly if the offset is not zero. -/
theorem pts_ne_dtsOf (p : Packet) (c : Int) : (p.timeStamp + c) * 90 ≠ dtsOf p ↔ c ≠ 0 := by
  rw [dtsOf, h264DefaultHZ]
  omega

/-- The time stamps in the PES header of a frame, as they are read back. -/
theorem stampsOf_pesOf {p : Packet} {c : Int} (hc : offsetOf p = some c) (hpos : 0 ≤ p.timeStamp * 90 + c * 90) {d : Nat}
    (hd : (PesHeader.written p ((p.timeStamp + c) * 90) (dtsOf p)).length ≤ d) :
    stampsOf ((pesOf p).take d) = some (clock33 (PesHeader.shown ((p.timeStamp + c) * 90)),
      if p.isVideo = true ∧ c ≠ 0 then some (clock33 (PesHeader.shown (dtsOf p))) else none) := by
  have hdts : 0 ≤ dtsOf p := by
    rw [dtsOf, h264DefaultHZ]
    omega
  rw [pesOf, ptsOf_eq hc, Option.getD_some, pesBytes_eq, List.take_append, List.take_of_length_le hd,
    PesHeader.stampsOf_written p (by omega) hdts]
  simp only [pts_ne_dtsOf]

/-- What a decoder should find in the first packet of a frame, which ends with the payload: both time stamps of the
frame, the second one if it is another, and for a key frame the clock reference in the adaptation field. -/
def ClocksRight (p : Packet) (c : Int) (head payload : Bytes) : Prop :=
  stampsOf payload = some (clock33 ((p.timeStamp + c) * 90),
    if p.isVideo = true ∧ c ≠ 0 then some (clock33 (p.timeStamp * 90)) else none) ∧
  (isKeyFrame p = true → clockBase ((head ++ payload).drop 5) = some (clock33 (p.timeStamp * 90)))

/-- The clocks of a frame are right exactly if neither time stamp has wrapped and no PES header is written over the
clock reference. -/
theorem mux_clocksRight_iff {p : Packet} {c : Int} (hc : offsetOf p = some c) (hpos : 0 ≤ p.timeStamp * 90 + c * 90)
    {muxer : Muxer} (h : Ok muxer) (out : List Bytes) :
    ∃ muxer' head d packets,
      mux collect p (muxer, out) = .ok () (muxer', out ++ (head ++ (pesOf p).take d) :: packets) ∧
      (if p.isVideo = true ∧ c ≠ 0 then 19 else 14) ≤ d ∧
      (ClocksRight p c head ((pesOf p).take d) ↔
        (p.timeStamp + c) * 90 < 2 ^ 33 ∧ (p.isVideo = true ∧ c ≠ 0 → (p.timeStamp * 90 : Int) < 2 ^ 33) ∧
        (isKeyFrame p = true →
          ReferenceKept (p.data.length + if c = 0 then 14 else 19) (clock33 (p.timeStamp * 90)))) := by
  obtain ⟨muxer', head, d, packets, hmux, hd, hreference⟩ := mux_firstPacket (ptsOf_eq hc) h out
  have hstamps := stampsOf_pesOf hc hpos hd
  rw [PesHeader.written_length] at hd
  simp only [pts_ne_dtsOf] at hd
  refine ⟨muxer', head, d, packets, hmux, hd, ?_⟩
  have hdts : dtsOf p = p.timeStamp * 90 := rfl
  have hsecond : (if p.isVideo = true ∧ c ≠ 0 then some (clock33 (PesHeader.shown (dtsOf p))) else none) =
      (if p.isVideo = true ∧ c ≠ 0 then some (clock33 (p.timeStamp * 90)) else none) ↔
        (p.isVideo = true ∧ c ≠ 0 → (p.timeStamp * 90 : Int) < 2 ^ 33) := by
    by_cases hwith : p.isVideo = true ∧ c ≠ 0
    · rw [if_pos hwith, if_pos hwith, Option.some.injEq, ← hdts, PesHeader.clock33_shown]
      exact ⟨fun hlt _ => hlt, fun hlt => hlt hwith⟩
    · rw [if_neg hwith, if_neg hwith]
      exact iff_of_true rfl (fun hcontra => absurd hcontra hwith)
  have hthird : (isKeyFrame p = true →
        clockBase ((head ++ (pesOf p).take d).drop 5) = some (clock33 (p.timeStamp * 90))) ↔
      (isKeyFrame p = true → ReferenceKept (p.data.length + if c = 0 then 14 else 19) (clock33 (p.timeStamp * 90))) := by
    apply imp_congr_right
    intro hkey
    obtain ⟨hvideo, videoH, hheader, -⟩ := isKeyFrame_iff.mp hkey
    have hoffset : videoH.compositionTime = c := by
      simpa [offsetOf, hvideo, hheader] using hc
    have hkept := hreference hkey
    rwa [pesOf_length hvideo hheader, hoffset, hdts] at hkept
  rw [ClocksRight, hstamps, Option.some.injEq, Prod.mk.injEq, PesHeader.clock33_shown, and_assoc]
  exact and_congr_right fun _ => and_congr hsecond hthird

/-- Audio at the moment at which the clock of 33 bits starts again, after more than 26 hours. -/
def wrappedAudio : Packet := ⟨false, 95443718, none, [0xaf, 0x01]⟩

theorem mux_clocksRight_iff_sample :
    ∃ muxer' head d packets,
      mux collect wrappedAudio (newMuxer, []) = .ok () (muxer', [] ++ (head ++ (pesOf wrappedAudio).take d) :: packets) ∧
      (if wrappedAudio.isVideo = true ∧ (0 : Int) ≠ 0 then 19 else 14) ≤ d ∧
      (ClocksRight wrappedAudio 0 head ((pesOf wrappedAudio).take d) ↔
        (wrappedAudio.timeStamp + 0 : Int) * 90 < 2 ^ 33 ∧
        (wrappedAudio.isVideo = true ∧ (0 : Int) ≠ 0 → (wrappedAudio.timeStamp * 90 : Int) < 2 ^ 33) ∧
        (isKeyFrame wrappedAudio = true →
          ReferenceKept (wrappedAudio.data.length + if (0 : Int) = 0 then 14 else 19)
            (clock33 (wrappedAudio.timeStamp * 90)))) :=
  mux_clocksRight_iff (p := wrappedAudio) rfl (by decide) ok_newMuxer []

/-- The PTS of that packet reads back as 29, where the clock is 28. -/
theorem mux_wrapped :
    ∃ muxer' head d packets,
      mux collect wrappedAudio (newMuxer, []) = .ok () (muxer', (head ++ (pesOf wrappedAudio).take d) :: packets) ∧
      stampsOf ((pesOf wrappedAudio).take d) = some (29, none) ∧ clock33 (wrappedAudio.timeStamp * 90) = 28 ∧
      ¬ClocksRight wrappedAudio 0 head ((pesOf wrappedAudio).take d) := by
  obtain ⟨muxer', head, d, packets, hmux, hd, -⟩ :=
    mux_firstPacket (ptsOf_eq (p := wrappedAudio) (c := 0) rfl) ok_newMuxer []
  have hstamps : stampsOf ((pesOf wrappedAudio).take d) = some (29, none) := by
    rw [stampsOf_pesOf (p := wrappedAudio) (c := 0) rfl (by decide) hd]
    decide
  refine ⟨muxer', head, d, packets, hmux, hstamps, by decide, ?_⟩
  intro hright
  have hwanted := hright.1
  rw [hstamps] at hwanted
  exact absurd hwanted (by decide)

end Muxer

/-! ### Composition offsets -/

/-- A signed number of 24 bits, the most significant byte first. -/
def si24 (b2 b3 b4 : UInt8) : Int :=
  let n : Int := b2.toNat * 2 ^ 16 + b3.toNat * 2 ^ 8 + b4.toNat
  if n < 2 ^ 23 then n else n - 2 ^ 24

theorem shiftLeft_eight (t : Int32) : t <<< 8 = t * 256 := by
  have hby : (Int32.toBitVec 8).smod 32 = 8#32 := by decide
  have htimes : Int32.toBitVec 256 = 256#32 := rfl
  rw [← Int32.toBitVec_inj, Int32.toBitVec_shiftLeft, Int32.toBitVec_mul, hby, htimes]
  apply BitVec.eq_of_toNat_eq
  rw [BitVec.shiftLeft_eq', BitVec.toNat_shiftLeft, BitVec.toNat_mul, Nat.shiftLeft_eq]
  rfl

/-- The bytes are shifted in without their sign. -/
theorem compositionTime_fold (b2 b3 b4 : UInt8) :
    ([b2, b3, b4].foldl (fun (t : Int32) b => t <<< 8 + Int32.ofNat b.toNat) 0).toInt =
      b2.toNat * 2 ^ 16 + b3.toNat * 2 ^ 8 + b4.toNat := by
  have h2 := b2.toNat_lt
  have h3 := b3.toNat_lt
  have h4 := b4.toNat_lt
  have hfold : [b2, b3, b4].foldl (fun (t : Int32) b => t <<< 8 + Int32.ofNat b.toNat) 0 =
      Int32.ofNat (b2.toNat * 2 ^ 16 + b3.toNat * 2 ^ 8 + b4.toNat) := by
    have hsum : b2.toNat * 2 ^ 16 + b3.toNat * 2 ^ 8 + b4.toNat =
        ((0 * 256 + b2.toNat) * 256 + b3.toNat) * 256 + b4.toNat := by
      omega
    rw [hsum]
    simp only [List.foldl_cons, List.foldl_nil, shiftLeft_eight, Int32.ofNat_add, Int32.ofNat_mul]
    rfl
  rw [hfold, Int32.toInt_ofNat_of_lt (by omega)]
  push_cast
  rfl

theorem eq_si24_iff (b2 b3 b4 : UInt8) :
    (b2.toNat * 2 ^ 16 + b3.toNat * 2 ^ 8 + b4.toNat : Int) = si24 b2 b3 b4 ↔ b2 < 0x80 := by
  have h3 := b3.toNat_lt
  have h4 := b4.toNat_lt
  have hsign : b2 < 0x80 ↔ b2.toNat < 128 := UInt8.lt_iff_toNat_lt
  rw [hsign]
  unfold si24
  dsimp only
  generalize b2.toNat = n2, b3.toNat = n3, b4.toNat = n4 at h3 h4
  split_ifs
  · omega
  · omega

/-- The offset that is parsed is the one that was sent exactly if the first of its bytes has no sign. -/
theorem parsed_eq_si24_iff (b2 b3 b4 : UInt8) :
    ([b2, b3, b4].foldl (fun (t : Int32) b => t <<< 8 + Int32.ofNat b.toNat) 0).toInt = si24 b2 b3 b4 ↔ b2 < 0x80 := by
  rw [compositionTime_fold, eq_si24_iff]

/-- The header of a key or an inter frame. -/
theorem parseMediaTagHeader_frame {flags : UInt8} (hframe : flags >>> 4 = frameInter ∨ flags >>> 4 = frameKey)
    (b1 b2 b3 b4 : UInt8) (rest : Bytes) :
    ∃ tag, Tag.parseMediaTagHeader (flags :: b1 :: b2 :: b3 :: b4 :: rest) true {} = .ok 5 tag ∧
      tag.compositionTime = [b2, b3, b4].foldl (fun (t : Int32) b => t <<< 8 + Int32.ofNat b.toNat) 0 := by
  refine ⟨{ frameType := flags >>> 4
            codecID := flags &&& 0xf
            avcPacketType := b1
            compositionTime := [b2, b3, b4].foldl (fun (t : Int32) b => t <<< 8 + Int32.ofNat b.toNat) 0 }, ?_, rfl⟩
  rw [Tag.parseMediaTagHeader, if_pos rfl, Tag.parseVideoHeader, if_pos hframe]

/-- A video frame keeps the composition offset that was sent with it, and is shown that much after it is decoded,
exactly if the offset is not negative. -/
theorem compositionTime_kept_iff {flags : UInt8} (hframe : flags >>> 4 = frameInter ∨ flags >>> 4 = frameKey)
    (b1 b2 b3 b4 : UInt8) (rest : Bytes) :
    ∃ tag, Tag.parseMediaTagHeader (flags :: b1 :: b2 :: b3 :: b4 :: rest) true {} = .ok 5 tag ∧
      ((tag.compositionTime.toInt = si24 b2 b3 b4 ∧
        ∀ p : AvPacket, p.isVideo = true → p.header = some tag →
          Muxer.ptsOf (toTs p) = some (Muxer.dtsOf (toTs p) + 90 * si24 b2 b3 b4)) ↔ b2 < 0x80) := by
  obtain ⟨tag, hparse, htime⟩ := parseMediaTagHeader_frame hframe b1 b2 b3 b4 rest
  refine ⟨tag, hparse, ?_⟩
  rw [htime, parsed_eq_si24_iff]
  refine ⟨And.left, fun hsign => ⟨hsign, fun p hvideo hheader => ?_⟩⟩
  have hoffset : Muxer.offsetOf (toTs p) = some (si24 b2 b3 b4) := by
    have hkept := (parsed_eq_si24_iff b2 b3 b4).mpr hsign
    simp [Muxer.offsetOf, toTs, hvideo, hheader, htime, ← hkept]
  rw [Muxer.ptsOf_eq hoffset, Muxer.dtsOf, h264DefaultHZ, Int.add_mul, Int.mul_comm 90]

theorem compositionTime_kept_iff_sample :
    ∃ tag, Tag.parseMediaTagHeader [0x27, 0x01, 0xff, 0xff, 0xd8] true {} = .ok 5 tag ∧
      ((tag.compositionTime.toInt = si24 0xff 0xff 0xd8 ∧
        ∀ p : AvPacket, p.isVideo = true → p.header = some tag →
          Muxer.ptsOf (toTs p) = some (Muxer.dtsOf (toTs p) + 90 * si24 0xff 0xff 0xd8)) ↔ (0xff : UInt8) < 0x80) :=
  compositionTime_kept_iff (by decide) 0x01 0xff 0xff 0xd8 []

/-- A frame that is to be shown 40 ms before it is decoded is shown more than four hours after it. -/
theorem compositionTime_negative :
    ∃ tag, Tag.parseMediaTagHeader [0x27, 0x01, 0xff, 0xff, 0xd8] true {} = .ok 5 tag ∧ si24 0xff 0xff 0xd8 = -40 ∧
      tag.compositionTime.toInt = 16777176 ∧
      Muxer.ptsOf (toTs { isVideo := true, timeStamp := 40, header := some tag }) = some (40 * 90 + 16777176 * 90) := by
  refine ⟨_, rfl, by decide, by decide, by decide⟩

end Livego
