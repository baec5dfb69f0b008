import Livego.TsDemux

/-! What the muxer sends is what the demultiplexer takes apart: one transport packet, the packets of a frame,
and the packets of all frames. -/

namespace Livego

open Fallible

theorem copyAt_length {i : Nat} {src dst : Bytes} (h : i + src.length ≤ dst.length) :
    (copyAt i src dst).length = dst.length := by
  simp only [copyAt, List.length_append, List.length_take, List.length_drop]
  omega

/-- Bytes that are written behind a prefix extend it. -/
theorem copyAt_take {i : Nat} {src dst : Bytes} (h : i + src.length ≤ dst.length) :
    (copyAt i src dst).take (i + src.length) = dst.take i ++ src := by
  have hsrc : src.take (dst.length - i) = src := List.take_of_length_le (by omega)
  rw [copyAt, hsrc]
  apply List.take_left'
  rw [List.length_append, List.length_take]
  omega

/-- Bytes that are written up to the end replace all that was there. -/
theorem copyAt_end {i : Nat} {src dst : Bytes} (h : i + src.length = dst.length) :
    copyAt i src dst = dst.take i ++ src := by
  have htake : (copyAt i src dst).take (i + src.length) = dst.take i ++ src := copyAt_take (by omega)
  rwa [h, List.take_of_length_le (by rw [copyAt_length (by omega)])] at htake

namespace PesHeader

/-- Nine header bytes, and five for each time stamp. -/
theorem written_length (p : Packet) (pts dts : Int) :
    (written p pts dts).length = if p.isVideo ∧ pts ≠ dts then 19 else 14 := by
  by_cases h : p.isVideo ∧ pts ≠ dts
  · rw [written, if_pos h, if_pos h, if_pos h, if_pos h]
    rfl
  · rw [written, if_neg h, if_neg h, if_neg h, if_neg h]
    rfl

theorem written_pos (p : Packet) (pts dts : Int) : 0 < (written p pts dts).length := by
  rw [written_length]
  split_ifs <;> decide

theorem packet_len (p : Packet) (pts dts : Int) : (packet p pts dts).len = (written p pts dts).length := by
  rw [packet, u8, written_length]
  split_ifs <;> rfl

theorem packet_data (p : Packet) (pts dts : Int) (n : Nat) (hn : n ≤ (written p pts dts).length) :
    (packet p pts dts).data.take n = (written p pts dts).take n :=
  List.take_append_of_le_length hn

end PesHeader

namespace Muxer

variable {ω : Type}

/-- The stuffing of a packet whose payload is `r` bytes short of 184. -/
def stuffing : Nat → Bytes
  | 0 => []
  | 1 => [0]
  | r + 2 => UInt8.ofNat (r + 1) :: 0x00 :: List.replicate r 0xff

@[simp] theorem stuffing_length (r : Nat) : (stuffing r).length = r := by
  rcases r with _ | _ | r <;> simp [stuffing]

/-- The four header bytes, with the flag of an adaptation field or without. -/
def headerBytes (first : Bool) (pid cc : Nat) (adaptation : Bool) : Bytes :=
  let high := if first then pid >>> 8 ||| 0x40 else pid >>> 8
  let flags := UInt8.ofNat (0x10 ||| cc &&& 0x0f)
  [0x47, UInt8.ofNat high, UInt8.ofNat pid, if adaptation then flags ||| 0x20 else flags]

theorem headerBytes_length (first : Bool) (pid cc : Nat) (adaptation : Bool) :
    (headerBytes first pid cc adaptation).length = 4 := rfl

theorem writeHeader_take {b : Bytes} (hb : b.length = tsPacketLen) (first : Bool) (pid cc : Nat) :
    (writeHeader first pid cc b).take 4 = headerBytes first pid cc false ∧
      (writeHeader first pid cc b).length = tsPacketLen := by
  have hle : 0 + (headerBytes first pid cc false).length ≤ b.length := by
    rw [hb, headerBytes_length]
    decide
  exact ⟨copyAt_take hle, (copyAt_length hle).trans hb⟩

theorem haveAdaptation_take {b : Bytes} {first : Bool} {pid cc : Nat} {a : Bool}
    (h : b.take 4 = headerBytes first pid cc a) :
    (haveAdaptation b).take 4 = headerBytes first pid cc true ∧ (haveAdaptation b).drop 4 = b.drop 4 ∧
      (haveAdaptation b).length = b.length := by
  rcases b with _ | ⟨b0, _ | ⟨b1, _ | ⟨b2, _ | ⟨b3, b⟩⟩⟩⟩
  · cases h
  · cases h
  · cases h
  · cases h
  · simp only [headerBytes, List.take_succ_cons, List.take_zero, List.cons.injEq, and_true] at h
    obtain ⟨rfl, rfl, rfl, rfl⟩ := h
    simp only [haveAdaptation, headerBytes, List.modify_succ_cons, List.modify_zero_cons]
    refine ⟨?_, rfl, rfl⟩
    cases a
    · rfl
    · simp [UInt8.or_assoc]

/-- What a demultiplexer finds in the second byte of a header. -/
theorem parse_high {pid : Nat} (hpid : pid = videoPID ∨ pid = audioPID) (first : Bool) :
    let high := UInt8.ofNat (if first then pid >>> 8 ||| 0x40 else pid >>> 8)
    high.toNat &&& 0x80 = 0 ∧ (high.toNat &&& 0x1f) <<< 8 ||| (UInt8.ofNat pid).toNat = pid ∧
      decide (high.toNat &&& 0x40 ≠ 0) = first := by
  rcases hpid with rfl | rfl <;> cases first <;> decide

/-- What a demultiplexer finds in the fourth byte of a header. -/
theorem parse_flags {cc : Nat} (hcc : cc < 16) (adaptation : Bool) :
    let flags := if adaptation then UInt8.ofNat (0x10 ||| cc &&& 0x0f) ||| 0x20 else UInt8.ofNat (0x10 ||| cc &&& 0x0f)
    flags.toNat >>> 6 = 0 ∧ flags.toNat >>> 4 &&& 3 = (if adaptation then 3 else 1) ∧ flags.toNat &&& 0x0f = cc := by
  revert cc adaptation
  decide

/-- Behind a header the adaptation field control decides what a demultiplexer finds. -/
theorem parse_header {pid cc : Nat} {rest : Bytes} (hpid : pid = videoPID ∨ pid = audioPID) (hcc : cc < 16)
    (hlen : rest.length = tsDefaultDataLen) (first adaptation : Bool) :
    TsDemux.parse (headerBytes first pid cc adaptation ++ rest) =
      (TsDemux.split (if adaptation then 3 else 1) rest).map fun (field, payload) =>
        ⟨pid, first, cc, field, payload⟩ := by
  obtain ⟨hfault, hid, hstart⟩ := parse_high hpid first
  obtain ⟨hscrambled, hcontrol, hcounter⟩ := parse_flags hcc adaptation
  have htotal : (headerBytes first pid cc adaptation ++ rest).length = tsPacketLen := by
    rw [List.length_append, headerBytes_length, hlen]
    rfl
  simp only [TsDemux.parse, headerBytes, List.cons_append, List.nil_append]
  rw [if_pos ⟨htotal, trivial, hfault, hscrambled⟩, hcontrol, hid, hcounter, hstart]

/-- Stuffing is an adaptation field without flags. -/
theorem split_stuffing {r : Nat} {payload : Bytes} (hr : 0 < r) (hlen : r + payload.length = tsDefaultDataLen)
    (hpos : payload ≠ []) : ∃ field, TsDemux.split 3 (stuffing r ++ payload) = some (some field, payload) := by
  have hpay := List.length_pos_iff.mpr hpos
  simp only [tsDefaultDataLen] at hlen
  rcases r with _ | _ | r
  · omega
  · exact ⟨[], by simp [stuffing, TsDemux.split, TsDemux.adaptationOk, hpay]⟩
  · have hnat : (UInt8.ofNat (r + 1)).toNat = r + 1 := by
      rw [UInt8.toNat_ofNat']
      omega
    have htake : ((0x00 : UInt8) :: List.replicate r 0xff ++ payload).take (r + 1) = 0x00 :: List.replicate r 0xff :=
      List.take_left' (by simp)
    have hdrop : ((0x00 : UInt8) :: List.replicate r 0xff ++ payload).drop (r + 1) = payload :=
      List.drop_left' (by simp)
    refine ⟨0x00 :: List.replicate r 0xff, ?_⟩
    simp only [stuffing, List.cons_append, TsDemux.split, hnat]
    rw [← List.cons_append, htake, hdrop, if_pos]
    refine ⟨?_, by simp [TsDemux.adaptationOk]⟩
    simp only [List.length_append, List.length_cons, List.length_replicate]
    omega

/-- Header, stuffing and payload are a packet that carries the payload. -/
theorem parse_packet {pid cc r : Nat} {payload : Bytes} (hpid : pid = videoPID ∨ pid = audioPID) (hcc : cc < 16)
    (hlen : r + payload.length = tsDefaultDataLen) (hpos : payload ≠ []) (first : Bool) :
    ∃ field, TsDemux.parse (headerBytes first pid cc (decide (0 < r)) ++ (stuffing r ++ payload)) =
      some ⟨pid, first, cc, field, payload⟩ := by
  have htotal : (stuffing r ++ payload).length = tsDefaultDataLen := by
    rw [List.length_append, stuffing_length, hlen]
  by_cases hr : 0 < r
  · obtain ⟨field, hsplit⟩ := split_stuffing hr hlen hpos
    exact ⟨some field, by simp [parse_header hpid hcc htotal, hr, hsplit]⟩
  · have hzero : r = 0 := by omega
    subst hzero
    exact ⟨none, by rw [parse_header hpid hcc htotal]; rfl⟩

/-! ### One turn -/

/-- The stuffing is in place once the frame data is written behind it. -/
theorem adaptationBufInit_take {b : Bytes} {i r : Nat} (hb : b.length = tsPacketLen) (hr : 0 < r)
    (hir : i + r ≤ tsPacketLen) :
    (adaptationBufInit i r b).length = tsPacketLen ∧
      (adaptationBufInit i r b).take (i + r) = b.take i ++ stuffing r := by
  simp only [tsPacketLen] at hb hir
  rcases r with _ | _ | r
  · omega
  · have hle : i + [UInt8.ofNat (sub8 (0 + 1) 1)].length ≤ b.length := by
      simp only [List.length_singleton]
      omega
    exact ⟨(copyAt_length hle).trans hb, copyAt_take hle⟩
  · have hend : i + (UInt8.ofNat (sub8 (r + 1 + 1) 1) :: 0x00 :: List.replicate (tsPacketLen - i - 2) 0xff).length =
        b.length := by
      simp only [List.length_cons, List.length_replicate, tsPacketLen]
      omega
    have hsub : sub8 (r + 1 + 1) 1 = r + 1 := by
      rw [sub8]
      omega
    have hlen : (b.take i).length = i := by
      rw [List.length_take]
      omega
    rw [adaptationBufInit, if_neg (by omega), copyAt_end hend, hsub]
    constructor
    · simp only [List.length_append, List.length_take, List.length_cons, List.length_replicate, tsPacketLen]
      omega
    · rw [List.take_append, List.take_of_length_le (by omega), hlen, Nat.add_sub_cancel_left, stuffing,
        List.take_succ_cons, List.take_succ_cons, List.take_replicate]
      congr 4
      simp only [tsPacketLen]
      omega

/-- Without a clock reference the packet is laid out for as much frame data as it takes, behind stuffing. -/
theorem layOut_plain {p : Packet} {v : MuxLoop} {b : Bytes} {n : Nat} (hb : b.length = tsPacketLen)
    (hkey : ¬(v.first ∧ isKeyFrame p)) (hn : v.packetBytesLen = n) (hpos : 0 < n) (cc : Nat) :
    ∃ b', let d := min n tsDefaultDataLen
      let r := tsDefaultDataLen - d
      layOut p v cc b = (b', 4 + r, d) ∧ b'.length = tsPacketLen ∧
        b'.take (4 + r) = headerBytes v.first (pidOf p) cc (decide (0 < r)) ++ stuffing r := by
  obtain ⟨htake, hlen⟩ := writeHeader_take hb v.first (pidOf p) cc
  set b1 := writeHeader v.first (pidOf p) cc b with hb1
  by_cases hfull : tsDefaultDataLen ≤ n
  · refine ⟨b1, ?_, hlen, ?_⟩
    · rw [layOut, ← hb1]
      dsimp only
      rw [if_neg hkey]
      dsimp only
      rw [if_pos (by rw [hn]; exact_mod_cast hfull)]
      have hmin : min n tsDefaultDataLen = tsDefaultDataLen := by omega
      rw [hmin]
      cases v.first <;> rfl
    · have hzero : tsDefaultDataLen - min n tsDefaultDataLen = 0 := by omega
      rw [hzero]
      simpa [stuffing] using htake
  · simp only [tsDefaultDataLen] at hfull
    obtain ⟨htake2, hdrop2, hlen2⟩ := haveAdaptation_take htake
    set b2 := haveAdaptation b1 with hb2
    have hmin : min n tsDefaultDataLen = n := by
      simp only [tsDefaultDataLen]
      omega
    have hdata : (v.packetBytesLen % 256).toNat = n := by
      rw [hn]
      omega
    have hremain : (if v.first then sub8 (sub8 tsDefaultDataLen n) (4 - 4) else sub8 tsDefaultDataLen n) =
        tsDefaultDataLen - n := by
      simp only [sub8, tsDefaultDataLen]
      split_ifs <;> omega
    have hindex : u8 (4 + (tsDefaultDataLen - n)) = 4 + (tsDefaultDataLen - n) := by
      simp only [u8, tsDefaultDataLen]
      omega
    refine ⟨adaptationBufInit 4 (tsDefaultDataLen - n) b2, ?_, ?_, ?_⟩
    · rw [layOut, ← hb1]
      dsimp only
      rw [if_neg hkey]
      dsimp only
      rw [if_neg (by rw [hn]; simp only [tsDefaultDataLen]; omega), ← hb2, hdata, hremain, hindex, hmin]
    · exact (adaptationBufInit_take (hlen2.trans hlen) (by simp only [tsDefaultDataLen]; omega)
        (by simp only [tsDefaultDataLen, tsPacketLen]; omega)).1
    · rw [hmin, (adaptationBufInit_take (hlen2.trans hlen) (by simp only [tsDefaultDataLen]; omega)
        (by simp only [tsDefaultDataLen, tsPacketLen]; omega)).2, htake2, decide_eq_true]
      simp only [tsDefaultDataLen]
      omega

/-- The rest of a packet takes as much frame data as it was laid out for. -/
theorem putData_eq {p : Packet} {v : MuxLoop} {b : Bytes} {i : Nat} (hb : b.length = tsPacketLen)
    (hi : i + v.dataLen = tsPacketLen) (hd : v.wBytes + v.dataLen ≤ p.data.length) :
    ∃ b', putData p v b i = some ({ v with
        wBytes := v.wBytes + v.dataLen
        packetBytesLen := v.packetBytesLen - v.dataLen }, b') ∧ b'.length = tsPacketLen ∧
      b' = b.take i ++ (p.data.drop v.wBytes).take v.dataLen := by
  have hP : tsPacketLen = 188 := rfl
  by_cases hlt : i < tsPacketLen
  · have hsub : sub8 tsPacketLen i = v.dataLen := by
      rw [sub8]
      omega
    have hend : i + ((p.data.drop v.wBytes).take v.dataLen).length = b.length := by
      rw [List.length_take, List.length_drop]
      omega
    refine ⟨_, ?_, ?_, copyAt_end hend⟩
    · rw [putData, if_pos hlt]
      simp only [hsub, le_refl, if_true]
      rw [if_neg (by omega)]
    · exact (copyAt_length hend.le).trans hb
  · have hzero : v.dataLen = 0 := by omega
    refine ⟨b, ?_, hb, ?_⟩
    · rw [putData, if_neg hlt]
      cases v
      dsimp only at hzero
      subst hzero
      simp
    · rw [hzero, List.take_zero, List.append_nil, List.take_of_length_le (by omega)]

/-- The first packet takes the PES header before frame data. -/
theorem putPes_eq {p : Packet} {pts dts : Int} {v : MuxLoop} {b : Bytes} {i : Nat} (hb : b.length = tsPacketLen)
    (hfirst : v.first = true) (hindex : v.pesIndex = 0) (hlen : v.pesHeaderLen = (PesHeader.written p pts dts).length)
    (hi : i + v.dataLen = tsPacketLen) (hd : v.pesHeaderLen ≤ v.dataLen) (hbyte : v.dataLen ≤ tsDefaultDataLen) :
    ∃ b', putPes (PesHeader.packet p pts dts) v b i = some ({ v with
        pesIndex := v.pesHeaderLen
        dataLen := v.dataLen - v.pesHeaderLen
        pesHeaderLen := 0
        packetBytesLen := v.packetBytesLen - v.pesHeaderLen }, b', i + v.pesHeaderLen) ∧ b'.length = tsPacketLen ∧
      b'.take (i + v.pesHeaderLen) = b.take i ++ PesHeader.written p pts dts := by
  have hwritten := PesHeader.written_length p pts dts
  have hpos : 0 < v.pesHeaderLen ∧ v.pesHeaderLen ≤ 19 := by
    rw [hlen, hwritten]
    split_ifs <;> decide
  have hP : tsPacketLen = 188 := rfl
  have hD : tsDefaultDataLen = 184 := rfl
  have hsub : sub8 tsPacketLen i = v.dataLen := by
    rw [sub8]
    omega
  have hrest : sub8 v.dataLen v.pesHeaderLen = v.dataLen - v.pesHeaderLen := by
    rw [sub8]
    omega
  have hzero : sub8 v.pesHeaderLen v.pesHeaderLen = 0 := by
    rw [sub8]
    omega
  have hnext : u8 (i + v.pesHeaderLen) = i + v.pesHeaderLen := by
    rw [u8]
    omega
  have hbytes : (PesHeader.packet p pts dts).data.take v.pesHeaderLen = PesHeader.written p pts dts := by
    rw [PesHeader.packet_data p pts dts _ hlen.le, hlen, List.take_length]
  have hle : i + (PesHeader.written p pts dts).length ≤ b.length := by omega
  refine ⟨copyAt i (PesHeader.written p pts dts) b, ?_, (copyAt_length hle).trans hb, ?_⟩
  · rw [putPes, if_pos ⟨hfirst, by omega, hpos.1⟩]
    simp only [hsub, if_pos hd, hindex, Nat.zero_add, hrest, hzero, hnext, List.drop_zero, hbytes]
    rw [if_neg (by omega)]
  · rw [hlen]
    exact copyAt_take hle

/-- Later packets have no PES header to take. -/
theorem putPes_later (pes : PesHeader) {v : MuxLoop} (hfirst : v.first = false) (b : Bytes) (i : Nat) :
    putPes pes v b i = some (v, b, i) := by
  rw [putPes, if_neg (by simp [hfirst])]

/-- The muxer between two packets: counters of four bits and a buffer of a packet's size. -/
structure Ok (muxer : Muxer) : Prop where
  videoCc : muxer.videoCc < 16
  audioCc : muxer.audioCc < 16
  tsPacket : muxer.tsPacket.length = tsPacketLen

theorem ok_newMuxer : Ok newMuxer := ⟨by decide, by decide, List.length_replicate⟩

theorem nextCc_eq {cc : Nat} (h : cc < 16) : nextCc cc = (cc + 1) % 16 := by
  unfold nextCc u8
  split <;> omega

theorem Ok.ccOf {muxer : Muxer} (h : Ok muxer) (p : Packet) : Muxer.ccOf p muxer < 16 := by
  unfold Muxer.ccOf
  split_ifs
  · exact h.videoCc
  · exact h.audioCc

theorem Ok.count {muxer : Muxer} (h : Ok muxer) (p : Packet) : Ok (Muxer.count p muxer) := by
  have hv := nextCc_eq h.videoCc
  have ha := nextCc_eq h.audioCc
  unfold Muxer.count
  split_ifs
  · exact ⟨by dsimp only; omega, h.audioCc, h.tsPacket⟩
  · exact ⟨h.videoCc, by dsimp only; omega, h.tsPacket⟩

/-- The counter of the stream goes on by one, and the other stays. -/
theorem Ok.ccOf_count {muxer : Muxer} (h : Ok muxer) (p q : Packet) :
    Muxer.ccOf q (Muxer.count p muxer) =
      if pidOf q = pidOf p then (Muxer.ccOf q muxer + 1) % 16 else Muxer.ccOf q muxer := by
  have hv := nextCc_eq h.videoCc
  have ha := nextCc_eq h.audioCc
  unfold Muxer.ccOf Muxer.count pidOf
  cases p.isVideo <;> cases q.isVideo <;> simp [hv, ha, videoPID, audioPID]

theorem pidOf_cases (p : Packet) : pidOf p = videoPID ∨ pidOf p = audioPID := by
  unfold pidOf
  split_ifs
  · exact Or.inl rfl
  · exact Or.inr rfl

/-- A turn hands its packet to the writer. -/
theorem muxTurn_eq {p : Packet} {pes : PesHeader} {v v1 v2 : MuxLoop} {muxer : Muxer} {b b1 b2 : Bytes} {i d i1 : Nat}
    (h : Ok muxer) (hpos : 0 < v.packetBytesLen)
    (hlay : layOut p v (ccOf p (count p muxer)) (count p muxer).tsPacket = (b, i, d))
    (hpes : putPes pes { v with dataLen := d } b i = some (v1, b1, i1))
    (hdata : putData p v1 b1 i1 = some (v2, b2)) (hb : b2.length = tsPacketLen) (out : List Bytes) :
    ∃ muxer', muxTurn collect p pes v (muxer, out) = .ok (.inl { v2 with first := false }) (muxer', out ++ [b2]) ∧
      Ok muxer' ∧ ∀ q, ccOf q muxer' = ccOf q (count p muxer) := by
  have hok := h.count p
  refine ⟨{ count p muxer with tsPacket := b2 }, ?_, ⟨hok.videoCc, hok.audioCc, hb⟩, fun q => rfl⟩
  simp only [muxTurn, hlay, hpes, hdata, collect, Call.modify_apply]
  rw [if_neg (by omega)]

/-- What `Mux` cuts into transport packets: the PES header and the frame data. -/
def pesBytes (p : Packet) (pts : Int) : Bytes :=
  let pes := PesHeader.packet p pts (dtsOf p)
  pes.data.take pes.len ++ p.data

theorem pesBytes_eq (p : Packet) (pts : Int) : pesBytes p pts = PesHeader.written p pts (dtsOf p) ++ p.data := by
  rw [pesBytes, PesHeader.packet_len, PesHeader.packet_data p pts _ _ le_rfl, List.take_length]

/-- A later packet of a frame carries the next 184 bytes of it, or the rest. -/
theorem muxTurn_later {p : Packet} (pes : PesHeader) {v : MuxLoop} {muxer : Muxer} (h : Ok muxer)
    (hfirst : v.first = false) (hn : v.packetBytesLen = (p.data.drop v.wBytes).length)
    (hpos : 0 < (p.data.drop v.wBytes).length) (out : List Bytes) :
    ∃ b field muxer' v', muxTurn collect p pes v (muxer, out) = .ok (.inl v') (muxer', out ++ [b]) ∧
      v'.first = false ∧ p.data.drop v'.wBytes = (p.data.drop v.wBytes).drop tsDefaultDataLen ∧
      v'.packetBytesLen = (p.data.drop v'.wBytes).length ∧
      TsDemux.parse b = some ⟨pidOf p, false, (ccOf p muxer + 1) % 16, field,
        (p.data.drop v.wBytes).take tsDefaultDataLen⟩ ∧ Ok muxer' ∧
      ∀ q, ccOf q muxer' = ccOf q (count p muxer) := by
  have hP : tsPacketLen = 188 := rfl
  have hD : tsDefaultDataLen = 184 := rfl
  have hok := h.count p
  set n := (p.data.drop v.wBytes).length with hlen
  have hlen' : n = p.data.length - v.wBytes := by rw [hlen, List.length_drop]
  obtain ⟨b, hlay, hb, htake⟩ := layOut_plain (p := p) hok.tsPacket (by simp [hfirst]) hn hpos
    (ccOf p (count p muxer))
  have hmin : (p.data.drop v.wBytes).take (min n tsDefaultDataLen) = (p.data.drop v.wBytes).take tsDefaultDataLen := by
    rw [hlen, Nat.min_comm, ← List.take_eq_take_min]
  obtain ⟨b2, hdata, hb2, hbytes⟩ := putData_eq (p := p) (v := { v with dataLen := min n tsDefaultDataLen })
    (i := 4 + (tsDefaultDataLen - min n tsDefaultDataLen)) hb (by dsimp only; omega) (by dsimp only; omega)
  dsimp only at hdata hbytes
  rw [htake, hmin, List.append_assoc] at hbytes
  have hpayload : ((p.data.drop v.wBytes).take tsDefaultDataLen).length = min n tsDefaultDataLen := by
    rw [List.length_take, Nat.min_comm]
  obtain ⟨field, hparse⟩ := parse_packet (pidOf_cases p) (hok.ccOf p)
    (by rw [hpayload]; omega : tsDefaultDataLen - min n tsDefaultDataLen + _ = tsDefaultDataLen)
    (List.ne_nil_of_length_pos (by rw [hpayload]; omega)) v.first
  rw [← hbytes, h.ccOf_count p p, if_pos rfl, hfirst] at hparse
  obtain ⟨muxer', hturn, hok', hcc⟩ := muxTurn_eq h (by rw [hn]; exact_mod_cast hpos) hlay
    (putPes_later pes (v := { v with dataLen := min n tsDefaultDataLen }) hfirst b _) hdata hb2 out
  refine ⟨b2, field, muxer', _, hturn, rfl, ?_, ?_, hparse, hok', hcc⟩
  · dsimp only
    rw [List.drop_drop]
    by_cases hle : tsDefaultDataLen ≤ n
    · rw [Nat.min_eq_right hle]
    · rw [List.drop_eq_nil_of_le (by omega), List.drop_eq_nil_of_le (by omega)]
  · dsimp only
    rw [List.length_drop, hn]
    omega

/-- The first packet carries the PES header and frame data behind it, whatever is laid out in front of them. -/
theorem muxTurn_first {p : Packet} {pts : Int} {muxer : Muxer} {b pre : Bytes} {i d : Nat} {v : MuxLoop}
    (h : Ok muxer) (hv : v = { pesHeaderLen := (PesHeader.packet p pts (dtsOf p)).len
                               packetBytesLen := (pesBytes p pts).length })
    (hlay : layOut p v (ccOf p (count p muxer)) (count p muxer).tsPacket = (b, i, d))
    (hb : b.length = tsPacketLen) (htake : b.take i = pre) (hi : i + d = tsPacketLen)
    (hd : (PesHeader.written p pts (dtsOf p)).length ≤ d) (hn : d ≤ (pesBytes p pts).length)
    (hbyte : d ≤ tsDefaultDataLen) (out : List Bytes) :
    ∃ muxer' v', muxTurn collect p (PesHeader.packet p pts (dtsOf p)) v (muxer, out) =
        .ok (.inl v') (muxer', out ++ [pre ++ (pesBytes p pts).take d]) ∧
      v'.first = false ∧ p.data.drop v'.wBytes = (pesBytes p pts).drop d ∧
      v'.packetBytesLen = (p.data.drop v'.wBytes).length ∧ Ok muxer' ∧
      ∀ q, ccOf q muxer' = ccOf q (count p muxer) := by
  have hP : tsPacketLen = 188 := rfl
  have hD : tsDefaultDataLen = 184 := rfl
  have hok := h.count p
  have hsum : (pesBytes p pts).length = (PesHeader.written p pts (dtsOf p)).length + p.data.length := by
    rw [pesBytes_eq, List.length_append]
  have hlen := PesHeader.packet_len p pts (dtsOf p)
  set L := (PesHeader.packet p pts (dtsOf p)).len with hL
  subst hv
  obtain ⟨b1, hpes, hb1, htake1⟩ := putPes_eq (p := p) (v := ⟨true, 0, 0, d, L, (pesBytes p pts).length⟩) hb rfl rfl
    hlen hi (by dsimp only; omega) hbyte
  obtain ⟨b2, hdata, hb2, hbytes⟩ := putData_eq (p := p)
    (v := ⟨true, 0, L, d - L, 0, (pesBytes p pts).length - L⟩) (i := i + L) hb1 (by dsimp only; omega)
    (by dsimp only; omega)
  dsimp only at hpes htake1 hdata hbytes
  have hpayload : PesHeader.written p pts (dtsOf p) ++ p.data.take (d - L) = (pesBytes p pts).take d := by
    rw [pesBytes_eq, List.take_append, List.take_of_length_le hd, ← hlen]
  rw [htake1, htake, List.drop_zero, List.append_assoc, hpayload] at hbytes
  have hpos : (0 : Int) < (pesBytes p pts).length := by
    have hwritten := PesHeader.written_pos p pts (dtsOf p)
    omega
  obtain ⟨muxer', hturn, hok', hcc⟩ := muxTurn_eq h hpos hlay hpes hdata hb2 out
  rw [hbytes] at hturn
  refine ⟨muxer', _, hturn, rfl, ?_, ?_, hok', hcc⟩
  · have hnil : (PesHeader.written p pts (dtsOf p)).drop d = [] := List.drop_eq_nil_of_le (by omega)
    dsimp only
    rw [Nat.zero_add, pesBytes_eq, List.drop_append, hnil, List.nil_append, hlen]
  · dsimp only
    rw [List.length_drop]
    omega

/-! ### The packets of a frame -/

/-- A muxer whose counter of one stream has gone on by `n`. -/
structure Counted (p : Packet) (n : Nat) (muxer muxer' : Muxer) : Prop where
  ok : Ok muxer'
  ccOf : ∀ q, Muxer.ccOf q muxer' =
    if pidOf q = pidOf p then (Muxer.ccOf q muxer + n) % 16 else Muxer.ccOf q muxer

theorem Counted.zero {p : Packet} {muxer : Muxer} (h : Ok muxer) : Counted p 0 muxer muxer := by
  refine ⟨h, fun q => ?_⟩
  rw [Nat.add_zero, Nat.mod_eq_of_lt (h.ccOf q), ite_self]

theorem Counted.succ {p : Packet} {n : Nat} {muxer muxer' muxer'' : Muxer} (h : Ok muxer)
    (hcc : ∀ q, Muxer.ccOf q muxer' = Muxer.ccOf q (Muxer.count p muxer)) (h' : Counted p n muxer' muxer'') :
    Counted p (n + 1) muxer muxer'' := by
  refine ⟨h'.ok, fun q => ?_⟩
  rw [h'.ccOf q, hcc q, h.ccOf_count p q]
  split_ifs
  · omega
  · rfl

theorem muxTurn_decreases_end {pes : PesHeader} {p : Packet} {v : MuxLoop} (hn : v.packetBytesLen ≤ 0)
    (s : Muxer × List Bytes) : muxTurn collect p pes v s = .ok (.inr ()) s := by
  rw [muxTurn]
  dsimp only
  rw [if_pos hn]

/-- The loop sends what is left of a frame after its first packet. -/
theorem loop_later {p : Packet} (pes : PesHeader) {fuel : Nat} {v : MuxLoop} {muxer : Muxer} (h : Ok muxer)
    (hfirst : v.first = false) (hn : v.packetBytesLen = (p.data.drop v.wBytes).length)
    (hfuel : (p.data.drop v.wBytes).length < fuel) (out : List Bytes) :
    ∃ muxer' packets, Call.loop (muxTurn collect p pes) fuel v (muxer, out) = .ok () (muxer', out ++ packets) ∧
      TsDemux.Carries (pidOf p) false (ccOf p muxer) (p.data.drop v.wBytes) packets ∧
      Counted p packets.length muxer muxer' := by
  induction fuel generalizing v muxer out with
  | zero => omega
  | succ fuel ih =>
      rw [Call.loop_succ]
      by_cases hpos : 0 < (p.data.drop v.wBytes).length
      · obtain ⟨b, field, muxer1, v1, hturn, hfirst1, hdrop, hn1, hparse, hok1, hcc⟩ :=
          muxTurn_later pes h hfirst hn hpos out
        have hlt : (p.data.drop v1.wBytes).length < fuel := by
          rw [hdrop, List.length_drop, tsDefaultDataLen]
          omega
        obtain ⟨muxer2, packets, hloop, hcarries, hcounted⟩ := ih hok1 hfirst1 hn1 hlt (out ++ [b])
        refine ⟨muxer2, b :: packets, ?_, ?_, hcounted.succ h hcc⟩
        · rw [hturn]
          dsimp only
          rw [hloop, List.append_assoc]
          rfl
        · rw [hdrop, hcc p, h.ccOf_count p p, if_pos rfl] at hcarries
          have hcons := TsDemux.Carries.cons hparse hcarries
          rwa [List.take_append_drop] at hcons
      · have hnil : p.data.drop v.wBytes = [] := List.eq_nil_of_length_eq_zero (by omega)
        rw [muxTurn_decreases_end (by rw [hn, hnil]; rfl)]
        refine ⟨muxer, [], by simp, ?_, Counted.zero h⟩
        rw [hnil]
        exact .nil false _

/-- Audio, or video that starts with no clock reference. -/
def InterFrame (p : Packet) : Prop := p.isVideo = true → ∃ videoH, p.header = some videoH ∧ videoH.isKeyFrame = false

/-- The PES packet that `Mux` makes of a packet. -/
def pesOf (p : Packet) : Bytes := pesBytes p ((ptsOf p).getD 0)

/-- `Mux` is its loop once the time stamps are known. -/
theorem mux_eq {p : Packet} {pts : Int} (hpts : ptsOf p = some pts) :
    mux collect p = Call.loop (muxTurn collect p (PesHeader.packet p pts (dtsOf p))) ((pesOf p).length + 1)
      { pesHeaderLen := (PesHeader.packet p pts (dtsOf p)).len, packetBytesLen := (pesOf p).length } := by
  have hlen : p.data.length + (PesHeader.packet p pts (dtsOf p)).len = (pesOf p).length := by
    rw [PesHeader.packet_len, pesOf, pesBytes_eq, hpts, List.length_append, Nat.add_comm]
    rfl
  rw [mux, hpts]
  dsimp only
  rw [hlen]

theorem InterFrame.isKeyFrame_eq {p : Packet} (h : InterFrame p) : isKeyFrame p = false := by
  cases hv : p.isVideo with
  | false => simp [isKeyFrame, hv]
  | true =>
      obtain ⟨videoH, hheader, hkey⟩ := h hv
      simp [isKeyFrame, hheader, hkey]

theorem InterFrame.ptsOf_eq {p : Packet} (h : InterFrame p) : ∃ pts, ptsOf p = some pts := by
  cases hv : p.isVideo with
  | false => exact ⟨dtsOf p, by simp [ptsOf, hv]⟩
  | true =>
      obtain ⟨videoH, hheader, -⟩ := h hv
      exact ⟨dtsOf p + videoH.compositionTime * h264DefaultHZ, by simp [ptsOf, hv, hheader]⟩

/-- After the first packet of a frame the loop sends the rest of it. -/
theorem mux_first {p : Packet} {pts : Int} {muxer muxer1 : Muxer} {v1 : MuxLoop} {b : Bytes} {out : List Bytes}
    (hpts : ptsOf p = some pts) (h : Ok muxer)
    (hturn : muxTurn collect p (PesHeader.packet p pts (dtsOf p))
      { pesHeaderLen := (PesHeader.packet p pts (dtsOf p)).len, packetBytesLen := (pesOf p).length } (muxer, out) =
        .ok (.inl v1) (muxer1, out ++ [b]))
    (hfirst : v1.first = false) (hn : v1.packetBytesLen = (p.data.drop v1.wBytes).length)
    (hlt : (p.data.drop v1.wBytes).length < (pesOf p).length) (hok : Ok muxer1)
    (hcc : ∀ q, ccOf q muxer1 = ccOf q (count p muxer)) :
    ∃ muxer' packets, mux collect p (muxer, out) = .ok () (muxer', out ++ b :: packets) ∧
      TsDemux.Carries (pidOf p) false ((ccOf p muxer + 1) % 16) (p.data.drop v1.wBytes) packets ∧
      Counted p (packets.length + 1) muxer muxer' := by
  obtain ⟨muxer', packets, hloop, hcarries, hcounted⟩ :=
    loop_later (PesHeader.packet p pts (dtsOf p)) hok hfirst hn hlt (out ++ [b])
  rw [hcc p, h.ccOf_count p p, if_pos rfl] at hcarries
  refine ⟨muxer', packets, ?_, hcarries, hcounted.succ h hcc⟩
  rw [mux_eq hpts, Call.loop_succ, hturn]
  dsimp only
  rw [hloop, List.append_assoc]
  rfl

/-- The first packet of a frame without a clock reference ends with frame data, and the others carry the rest. -/
theorem mux_interFrame {p : Packet} (hp : InterFrame p) {muxer : Muxer} (h : Ok muxer) (out : List Bytes) :
    ∃ muxer' packets, let d := min (pesOf p).length tsDefaultDataLen
      mux collect p (muxer, out) = .ok () (muxer', out ++ (headerBytes true (pidOf p) ((ccOf p muxer + 1) % 16)
        (decide (0 < tsDefaultDataLen - d)) ++ stuffing (tsDefaultDataLen - d) ++ (pesOf p).take d) :: packets) ∧
      TsDemux.Carries (pidOf p) false ((ccOf p muxer + 1) % 16) ((pesOf p).drop d) packets ∧
      Counted p (packets.length + 1) muxer muxer' := by
  have hD : tsDefaultDataLen = 184 := rfl
  have hP : tsPacketLen = 188 := rfl
  obtain ⟨pts, hpts⟩ := hp.ptsOf_eq
  have hok := h.count p
  have hpes : pesOf p = pesBytes p pts := by rw [pesOf, hpts, Option.getD_some]
  have hwritten := PesHeader.written_length p pts (dtsOf p)
  have hwpos := PesHeader.written_pos p pts (dtsOf p)
  have hlen : (pesBytes p pts).length = (PesHeader.written p pts (dtsOf p)).length + p.data.length := by
    rw [pesBytes_eq, List.length_append]
  rw [hpes]
  set n := (pesBytes p pts).length with hn
  set v : MuxLoop := ⟨true, 0, 0, 0, (PesHeader.packet p pts (dtsOf p)).len, n⟩ with hv
  obtain ⟨b, hlay, hb, htake⟩ := layOut_plain (p := p) (v := v) hok.tsPacket (by simp [hp.isKeyFrame_eq]) rfl
    (by omega : 0 < n) (ccOf p (count p muxer))
  have hfit : (PesHeader.written p pts (dtsOf p)).length ≤ min n tsDefaultDataLen := by
    rw [hwritten] at hlen ⊢
    split_ifs at hlen ⊢ <;> omega
  obtain ⟨muxer1, v1, hturn, hfirst1, hdrop, hn1, hok1, hcc⟩ := muxTurn_first h rfl hlay hb htake
    (by omega) hfit (by omega) (by omega) out
  obtain ⟨muxer', packets, hmux, hcarries, hcounted⟩ := mux_first hpts h (by rw [hpes]; exact hturn) hfirst1 hn1
    (by rw [hdrop, List.length_drop, hpes]; omega) hok1 hcc
  rw [h.ccOf_count p p, if_pos rfl] at hmux
  rw [hdrop] at hcarries
  exact ⟨muxer', packets, hmux, hcarries, hcounted⟩

/-- The packets of a frame without a clock reference carry its PES packet. -/
theorem mux_carries {p : Packet} (hp : InterFrame p) {muxer : Muxer} (h : Ok muxer) (out : List Bytes) :
    ∃ muxer' packets, mux collect p (muxer, out) = .ok () (muxer', out ++ packets) ∧
      TsDemux.Carries (pidOf p) true (ccOf p muxer) (pesOf p) packets ∧ packets ≠ [] ∧
      Counted p packets.length muxer muxer' := by
  have hD : tsDefaultDataLen = 184 := rfl
  obtain ⟨muxer', packets, hmux, hcarries, hcounted⟩ := mux_interFrame hp h out
  set d := min (pesOf p).length tsDefaultDataLen with hd
  have hpos : 0 < (pesOf p).length := by
    have hwpos := PesHeader.written_pos p ((ptsOf p).getD 0) (dtsOf p)
    rw [pesOf, pesBytes_eq, List.length_append]
    omega
  have hpayload : ((pesOf p).take d).length = d := by
    rw [List.length_take]
    omega
  obtain ⟨field, hparse⟩ := parse_packet (pidOf_cases p) (Nat.mod_lt (ccOf p muxer + 1) (by decide : 16 > 0))
    (by omega : tsDefaultDataLen - d + ((pesOf p).take d).length = tsDefaultDataLen)
    (List.ne_nil_of_length_pos (by omega)) true
  refine ⟨muxer', _, hmux, ?_, List.cons_ne_nil _ _, hcounted⟩
  have hcons := TsDemux.Carries.cons hparse hcarries
  rwa [List.take_append_drop, ← List.append_assoc] at hcons

end Muxer

end Livego
