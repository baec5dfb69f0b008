import Livego.TsStream

/-! Key frames: the first packet has a clock reference in an adaptation field of its own, and the stuffing that
a short frame needs goes into a second one, which the first does not cover. -/

namespace Livego

open Fallible TsDemux

namespace Muxer

/-- Header and clock reference of the first packet of a key frame. -/
def clockBytes (cc : Nat) (dts : Int) : Bytes := headerBytes true videoPID cc true ++ ([7, 0x50] ++ writePcr dts)

theorem copyAt_take_of_le {i k : Nat} {src dst : Bytes} (hk : k ≤ i) (hi : i ≤ dst.length) :
    (copyAt i src dst).take k = dst.take k := by
  rw [copyAt, List.append_assoc, List.take_append_of_le_length (by rw [List.length_take]; omega), List.take_take,
    Nat.min_eq_left hk]

/-- A second adaptation field leaves what is in front of it. -/
theorem adaptationBufInit_front {b : Bytes} {i : Nat} (hb : b.length = tsPacketLen) (hi : i + 2 ≤ tsPacketLen)
    (r : Nat) : (adaptationBufInit i r b).length = tsPacketLen ∧ (adaptationBufInit i r b).take i = b.take i := by
  have hle : i ≤ b.length := by omega
  unfold adaptationBufInit
  dsimp only
  split
  · refine ⟨(copyAt_length ?_).trans hb, copyAt_take_of_le le_rfl hle⟩
    rw [List.length_singleton]
    omega
  · refine ⟨(copyAt_length ?_).trans hb, copyAt_take_of_le le_rfl hle⟩
    simp only [List.length_cons, List.length_replicate]
    omega

/-- A frame that fills the first packet starts behind the clock reference. A shorter one is put at the end of
the packet, wherever that is. -/
theorem layOut_keyFrame {p : Packet} {v : MuxLoop} {b : Bytes} {n : Nat} (hb : b.length = tsPacketLen)
    (hfirst : v.first = true) (hvideo : p.isVideo = true) (hkey : isKeyFrame p = true) (hn : v.packetBytesLen = n)
    (hpos : 14 ≤ n) (cc : Nat) :
    ∃ b', layOut p v cc b =
        (b', if tsDefaultDataLen ≤ n then (12, 176) else (tsPacketLen - n, n)) ∧ b'.length = tsPacketLen ∧
      b'.take 12 = clockBytes cc (dtsOf p) := by
  have hP : tsPacketLen = 188 := rfl
  have hD : tsDefaultDataLen = 184 := rfl
  have hpid : pidOf p = videoPID := by rw [pidOf, if_pos hvideo]
  obtain ⟨htake, hlen⟩ := writeHeader_take hb true (pidOf p) cc
  set b1 := writeHeader true (pidOf p) cc b with hb1
  obtain ⟨htake2, -, hlen2⟩ := haveAdaptation_take htake
  have hfits : 4 + ([7, 0x50] ++ writePcr (dtsOf p)).length ≤ (haveAdaptation b1).length := by
    rw [hlen2, hlen]
    exact (by decide : 4 + 8 ≤ tsPacketLen)
  set b2 := copyAt 4 ([7, 0x50] ++ writePcr (dtsOf p)) (haveAdaptation b1) with hb2
  have hlenb2 : b2.length = tsPacketLen := (copyAt_length hfits).trans (hlen2.trans hlen)
  have htakeb2 : b2.take 12 = clockBytes cc (dtsOf p) := by
    have htake3 := copyAt_take hfits
    rw [htake2, hpid] at htake3
    exact htake3
  by_cases hfull : tsDefaultDataLen ≤ n
  · refine ⟨b2, ?_, hlenb2, htakeb2⟩
    have hcond : v.packetBytesLen ≥ tsDefaultDataLen := by
      rw [hn]
      exact_mod_cast hfull
    simp only [layOut, hfirst, hkey, and_self, if_true, ← hb1, ← hb2, if_pos hcond, if_pos hfull]
    rfl
  · have hfour : b2.take 4 = headerBytes true videoPID cc true := by
      have hfront := congrArg (List.take 4) htakeb2
      rwa [List.take_take] at hfront
    have hsame : haveAdaptation b2 = b2 := by
      obtain ⟨htake5, hdrop5, -⟩ := haveAdaptation_take hfour
      rw [← List.take_append_drop 4 (haveAdaptation b2), htake5, hdrop5, ← hfour, List.take_append_drop]
    have hdata : (v.packetBytesLen % 256).toNat = n := by
      rw [hn]
      omega
    obtain ⟨hlen4, htake4⟩ := adaptationBufInit_front (i := 4 + 8) hlenb2 (by decide)
      (sub8 (sub8 tsDefaultDataLen n) (4 + 8 - 4))
    refine ⟨adaptationBufInit (4 + 8) (sub8 (sub8 tsDefaultDataLen n) (4 + 8 - 4)) b2, ?_, hlen4,
      htake4.trans htakeb2⟩
    have hindex : u8 (4 + 8 + sub8 (sub8 tsDefaultDataLen n) (4 + 8 - 4)) = tsPacketLen - n := by
      simp only [u8, sub8]
      omega
    have hcond : ¬v.packetBytesLen ≥ tsDefaultDataLen := by
      rw [hn]
      omega
    simp only [layOut, hfirst, hkey, and_self, if_true, ← hb1, ← hb2, if_neg hcond, if_neg hfull, hsame, hdata,
      hindex]

/-- The clock reference reads back as the time stamp. -/
theorem clockBase_writePcr (dts : Int) : clockBase (0x50 :: writePcr dts) = some (dts % 2 ^ 33).toNat := by
  have hbyte : ∀ x : Int, ((UInt8.ofInt x).toNat : Int) = x % 256 := by
    intro x
    rw [UInt8.ofInt, UInt8.toNat_ofNat']
    omega
  have hshift : ∀ k : Nat, dts >>> k = dts / 2 ^ k := Int.shiftRight_eq_div_pow dts
  simp only [clockBase, writePcr]
  rw [if_neg (by decide), Option.some.injEq, ← Int.natCast_inj, Int.toNat_of_nonneg (by omega)]
  push_cast
  simp only [hbyte, hshift]
  omega

/-- How much of a key frame goes into its first packet. -/
def firstPayload (n : Nat) : Nat := if tsDefaultDataLen ≤ n then 176 else n

/-- The first packet of a key frame ends with frame data, and the others carry the rest. -/
theorem mux_keyFrame {p : Packet} {videoH : VideoPacketHeader} (hvideo : p.isVideo = true)
    (hheader : p.header = some videoH) (hkey : videoH.isKeyFrame = true) {muxer : Muxer} (h : Ok muxer)
    (out : List Bytes) :
    ∃ muxer' b packets, mux collect p (muxer, out) = .ok () (muxer', out ++ (b.take
        (tsPacketLen - firstPayload (pesOf p).length) ++ (pesOf p).take (firstPayload (pesOf p).length)) :: packets) ∧
      List.length b = tsPacketLen ∧ b.take 12 = clockBytes ((ccOf p muxer + 1) % 16) (dtsOf p) ∧
      Carries videoPID false ((ccOf p muxer + 1) % 16) ((pesOf p).drop (firstPayload (pesOf p).length)) packets := by
  have hD : tsDefaultDataLen = 184 := rfl
  have hP : tsPacketLen = 188 := rfl
  have hpid : pidOf p = videoPID := by rw [pidOf, if_pos hvideo]
  have hpts : ptsOf p = some (dtsOf p + videoH.compositionTime * h264DefaultHZ) := by
    rw [ptsOf, if_pos hvideo, hheader, Option.map_some]
  have hframe : isKeyFrame p = true := by simp [isKeyFrame, hvideo, hheader, hkey]
  set pts := dtsOf p + videoH.compositionTime * h264DefaultHZ
  have hok := h.count p
  have hpes : pesOf p = pesBytes p pts := by rw [pesOf, hpts, Option.getD_some]
  have hwritten := PesHeader.written_length p pts (dtsOf p)
  have hlen : (pesBytes p pts).length = (PesHeader.written p pts (dtsOf p)).length + p.data.length := by
    rw [pesBytes_eq, List.length_append]
  have hmin : 14 ≤ (PesHeader.written p pts (dtsOf p)).length ∧ (PesHeader.written p pts (dtsOf p)).length ≤ 19 := by
    rw [hwritten]
    split_ifs <;> omega
  rw [hpes]
  set n := (pesBytes p pts).length with hn
  obtain ⟨b, hlay, hb, htake⟩ := layOut_keyFrame (v := ⟨true, 0, 0, 0, (PesHeader.packet p pts (dtsOf p)).len, n⟩)
    hok.tsPacket rfl hvideo hframe rfl (by omega : 14 ≤ n) (ccOf p (count p muxer))
  have hindex : (if tsDefaultDataLen ≤ n then (12, 176) else (tsPacketLen - n, n)) =
      (tsPacketLen - firstPayload n, firstPayload n) := by
    unfold firstPayload
    split_ifs <;> rfl
  have hd : firstPayload n ≤ n ∧ firstPayload n ≤ tsDefaultDataLen ∧
      (PesHeader.written p pts (dtsOf p)).length ≤ firstPayload n := by
    unfold firstPayload
    split_ifs <;> omega
  rw [hindex] at hlay
  obtain ⟨muxer1, v1, hturn, hfirst1, hdrop, hn1, hok1, hcc⟩ := muxTurn_first h rfl hlay hb rfl
    (by omega) hd.2.2 hd.1 hd.2.1 out
  obtain ⟨muxer', packets, hmux, hcarries, -⟩ := mux_first hpts h (by rw [hpes]; exact hturn) hfirst1 hn1
    (by rw [hdrop, List.length_drop, hpes]; omega) hok1 hcc
  rw [h.ccOf_count p p, if_pos rfl] at htake
  rw [hdrop, hpid] at hcarries
  exact ⟨muxer', b, packets, hmux, hb, htake, hcarries⟩

/-- What a demultiplexer should find of a key frame: one PES packet, and a first packet whose adaptation field
has the time stamp as clock reference. -/
def FindsKeyFrame (p : Packet) (packets : List Bytes) : Prop :=
  ∃ first us field, demux packets = some (first :: us) ∧ assemble (first :: us) = ([], [pesOf p]) ∧
    first.adaptation = some field ∧ clockBase field = some (dtsOf p % 2 ^ 33).toNat

/-- A first packet that is full, or exactly filled by the frame, has its payload behind the clock reference. -/
theorem parse_clock {cc : Nat} (hcc : cc < 16) (dts : Int) {payload : Bytes} (hlen : payload.length = 176) :
    parse (clockBytes cc dts ++ payload) = some ⟨videoPID, true, cc, some (0x50 :: writePcr dts), payload⟩ := by
  have hrest : (([7, 0x50] ++ writePcr dts) ++ payload).length = tsDefaultDataLen := by
    rw [List.length_append, hlen]
    rfl
  rw [clockBytes, List.append_assoc, parse_header (Or.inl rfl) hcc hrest]
  have hsplit : split 3 (([7, 0x50] ++ writePcr dts) ++ payload) = some (some (0x50 :: writePcr dts), payload) := by
    simp only [writePcr, List.cons_append, List.nil_append, split]
    rw [if_pos]
    · rfl
    · refine ⟨?_, ?_⟩
      · simp only [List.length_cons, hlen]
        decide
      · simp [adaptationOk]
  simp only [if_true, hsplit, Option.map_some]

/-- A packet that says its adaptation field has seven bytes has 176 bytes of payload. -/
theorem parse_seven {cc : Nat} (hcc : cc < 16) {tail : Bytes} (hlen : tail.length = 183) {u : TransportPacket}
    (h : parse (headerBytes true videoPID cc true ++ (7 :: tail)) = some u) : u.payload.length = 176 := by
  rw [parse_header (Or.inl rfl) hcc (by rw [List.length_cons, hlen]; rfl)] at h
  simp only [if_true, split, Option.map_eq_some_iff, Prod.exists] at h
  obtain ⟨field, payload, hsplit, rfl⟩ := h
  split_ifs at hsplit
  cases hsplit
  show (tail.drop 7).length = 176
  rw [List.length_drop, hlen]

/-- The stream of a key frame is as it should be if the PES packet fills the first transport packet up to its end. -/
theorem findsKeyFrame_of_full {p : Packet} {cc : Nat} (hcc : cc < 16) {b : Bytes} {packets : List Bytes}
    (htake : b.take 12 = clockBytes cc (dtsOf p))
    (hn : (pesOf p).length = 176 ∨ tsDefaultDataLen ≤ (pesOf p).length)
    (hcarries : Carries videoPID false cc ((pesOf p).drop (firstPayload (pesOf p).length)) packets) :
    FindsKeyFrame p ((b.take (tsPacketLen - firstPayload (pesOf p).length) ++
      (pesOf p).take (firstPayload (pesOf p).length)) :: packets) := by
  have hD : tsDefaultDataLen = 184 := rfl
  have hpay : firstPayload (pesOf p).length = 176 := by
    unfold firstPayload
    split_ifs <;> omega
  have hindex : tsPacketLen - 176 = 12 := rfl
  rw [hpay] at hcarries
  rw [hpay, hindex, htake]
  have hlen : ((pesOf p).take 176).length = 176 := by
    rw [List.length_take]
    omega
  have hparse := parse_clock hcc (dtsOf p) hlen
  obtain ⟨us, hdemux, -, -, -, hassemble⟩ := hcarries.demux
  have htail := hassemble []
  rw [List.append_nil, if_neg (by simp)] at htail
  refine ⟨⟨videoPID, true, cc, some (0x50 :: writePcr (dtsOf p)), (pesOf p).take 176⟩, us, _, ?_, ?_, rfl,
    clockBase_writePcr _⟩
  · simp only [demux] at hdemux ⊢
    simp only [List.mapM_cons, hparse, hdemux, Option.bind_eq_bind, Option.bind_some, Option.pure_def]
  · rw [assemble, htail]
    simp [assemble]

/-- Otherwise the first packet has 176 bytes behind the clock reference, and the PES packet has not. -/
theorem not_findsKeyFrame {p : Packet} {cc : Nat} (hcc : cc < 16) {b : Bytes} {packets : List Bytes}
    (hb : List.length b = tsPacketLen) (htake : b.take 12 = clockBytes cc (dtsOf p))
    (hn : (pesOf p).length ≠ 176) (hlt : (pesOf p).length < tsDefaultDataLen)
    (hcarries : Carries videoPID false cc ((pesOf p).drop (firstPayload (pesOf p).length)) packets) :
    ¬FindsKeyFrame p ((b.take (tsPacketLen - firstPayload (pesOf p).length) ++
      (pesOf p).take (firstPayload (pesOf p).length)) :: packets) := by
  have hD : tsDefaultDataLen = 184 := rfl
  have hP : tsPacketLen = 188 := rfl
  have hpay : firstPayload (pesOf p).length = (pesOf p).length := if_neg (by omega)
  rw [hpay, List.take_length]
  rw [hpay, List.drop_length] at hcarries
  rintro ⟨first, us, field, hdemux, hassemble, -⟩
  set i := tsPacketLen - (pesOf p).length with hi
  have hfive : b.take i = headerBytes true videoPID cc true ++ (7 :: (b.take i).drop 5) := by
    have hfront : (b.take i).take 5 = headerBytes true videoPID cc true ++ [7] := by
      have hshort := congrArg (List.take 5) htake
      rw [List.take_take] at hshort ⊢
      rw [Nat.min_eq_left (by omega)]
      exact hshort
    rw [← List.singleton_append, ← List.append_assoc, ← hfront, List.take_append_drop]
  have htail : ((b.take i).drop 5 ++ pesOf p).length = 183 := by
    rw [List.length_append, List.length_drop, List.length_take, hb]
    omega
  obtain ⟨us', hdemux', -, -, -, hassemble'⟩ := hcarries.demux
  have hempty := hassemble' []
  rw [List.append_nil, if_neg (by simp)] at hempty
  simp only [demux] at hdemux hdemux'
  simp only [List.mapM_cons, Option.bind_eq_bind, Option.bind_eq_some_iff, Option.pure_def, Option.some.injEq,
    List.cons.injEq] at hdemux
  obtain ⟨u, hparse, us'', hus, rfl, rfl⟩ := hdemux
  rw [hdemux'] at hus
  cases hus
  rw [hfive, List.append_assoc, List.cons_append] at hparse
  have hlen := parse_seven hcc htail hparse
  rw [assemble, hempty] at hassemble
  cases hstart : u.start with
  | false => simp [hstart, assemble] at hassemble
  | true =>
      simp only [hstart, if_true, assemble, List.append_nil, Prod.mk.injEq, List.cons.injEq, true_and, and_true]
        at hassemble
      rw [hassemble] at hlen
      exact hn hlen

/-- The second time stamp of a video header is there exactly if it differs from the first. -/
theorem pesOf_length {p : Packet} {videoH : VideoPacketHeader} (hvideo : p.isVideo = true)
    (hheader : p.header = some videoH) :
    (pesOf p).length = p.data.length + if videoH.compositionTime = 0 then 14 else 19 := by
  have hpts : ptsOf p = some (dtsOf p + videoH.compositionTime * h264DefaultHZ) := by
    rw [ptsOf, if_pos hvideo, hheader, Option.map_some]
  have hiff : dtsOf p + videoH.compositionTime * h264DefaultHZ ≠ dtsOf p ↔ ¬videoH.compositionTime = 0 := by
    rw [h264DefaultHZ]
    omega
  rw [pesOf, hpts, Option.getD_some, pesBytes_eq, List.length_append, PesHeader.written_length, Nat.add_comm]
  simp only [hvideo, true_and, hiff, ite_not]

/-- The transport packets of a key frame are as they should be exactly if the PES packet has 176 bytes, or 184 and
more. -/
theorem mux_keyFrame_iff {p : Packet} {videoH : VideoPacketHeader} (hvideo : p.isVideo = true)
    (hheader : p.header = some videoH) (hkey : videoH.isKeyFrame = true) {muxer : Muxer} (h : Ok muxer)
    (out : List Bytes) :
    ∃ muxer' packets, mux collect p (muxer, out) = .ok () (muxer', out ++ packets) ∧
      (FindsKeyFrame p packets ↔
        let n := p.data.length + if videoH.compositionTime = 0 then 14 else 19
        n = 176 ∨ 184 ≤ n) := by
  have hcc : (ccOf p muxer + 1) % 16 < 16 := Nat.mod_lt _ (by decide)
  obtain ⟨muxer', b, packets, hmux, hb, htake, hcarries⟩ := mux_keyFrame hvideo hheader hkey h out
  refine ⟨muxer', _, hmux, ?_⟩
  dsimp only
  rw [← pesOf_length hvideo hheader]
  by_cases hn : (pesOf p).length = 176 ∨ tsDefaultDataLen ≤ (pesOf p).length
  · exact iff_of_true (findsKeyFrame_of_full hcc htake hn hcarries) hn
  · have hn' := not_or.mp hn
    exact iff_of_false (not_findsKeyFrame hcc hb htake hn'.1 (not_le.mp hn'.2) hcarries) hn

def sampleHeader : VideoPacketHeader := ⟨true, 0⟩

/-- A key frame of `n` bytes without a composition time. -/
def sampleKeyFrame (n : Nat) : Packet := ⟨true, 40, some sampleHeader, List.replicate n 1⟩

theorem mux_keyFrame_iff_sample :
    ∃ muxer' packets, mux collect (sampleKeyFrame 170) (newMuxer, []) = .ok () (muxer', [] ++ packets) ∧
      (FindsKeyFrame (sampleKeyFrame 170) packets ↔
        let n := (sampleKeyFrame 170).data.length + if sampleHeader.compositionTime = 0 then 14 else 19
        n = 176 ∨ 184 ≤ n) :=
  mux_keyFrame_iff (p := sampleKeyFrame 170) rfl rfl rfl ok_newMuxer []

theorem mux_short {n : Nat} (hn : n = 10 ∨ n = 169) :
    ∃ muxer' packets, mux collect (sampleKeyFrame n) (newMuxer, []) = .ok () (muxer', packets) ∧
      ¬FindsKeyFrame (sampleKeyFrame n) packets := by
  have hlen := pesOf_length (p := sampleKeyFrame n) rfl rfl
  obtain ⟨muxer', b, packets, hmux, hb, htake, hcarries⟩ :=
    mux_keyFrame (p := sampleKeyFrame n) rfl rfl rfl ok_newMuxer []
  have hdata : (sampleKeyFrame n).data.length = n := List.length_replicate
  have hD : tsDefaultDataLen = 184 := rfl
  rw [if_pos (show sampleHeader.compositionTime = 0 from rfl), hdata] at hlen
  refine ⟨muxer', _, hmux, not_findsKeyFrame (Nat.mod_lt _ (by decide)) hb htake ?_ ?_ hcarries⟩
  · omega
  · omega

/-- Neither a frame of 10 bytes nor one of 169 bytes is found again. -/
theorem mux_keyFrame_not_found :
    (∃ muxer' packets, mux collect (sampleKeyFrame 10) (newMuxer, []) = .ok () (muxer', packets) ∧
      ¬FindsKeyFrame (sampleKeyFrame 10) packets) ∧
    ∃ muxer' packets, mux collect (sampleKeyFrame 169) (newMuxer, []) = .ok () (muxer', packets) ∧
      ¬FindsKeyFrame (sampleKeyFrame 169) packets :=
  ⟨mux_short (Or.inl rfl), mux_short (Or.inr rfl)⟩

end Muxer

end Livego
