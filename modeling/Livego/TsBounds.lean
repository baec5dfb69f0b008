import Livego.Logged
import Livego.Slices
import Livego.TsOutput

/-! The muxer with its bytes as bytes, every index and every slice checked, and what is copied into the transport packets
logged. Where the arithmetic wraps it still comes out right: nothing is out of bounds, and header and data are copied from
their first byte to their last. -/

namespace Livego

open Fallible Call

namespace Muxer

namespace Indexed

/-- What is copied into a transport packet, of the array of the PES header or of the data. -/
inductive Segment where
  | pes (start stop : Nat)
  | data (start stop : Nat)
  deriving DecidableEq, Repr

/-- The variables of the loop. -/
structure Loop where
  first : Bool := true
  wBytes : Nat := 0
  pesIndex : Nat := 0
  tmpLen : UInt8 := 0
  dataLen : UInt8 := 0
  pesHeaderLen : UInt8
  packetBytesLen : Int
  deriving DecidableEq, Repr

section
variable {ε σ : Type}

/-- `b[i] |= x`. -/
def orAt (b : Bytes) (i : Nat) (x : UInt8) : Call ε σ Bytes := do
  let y ← readAt b i
  setAt b i (y ||| x)

/-- The four header bytes. -/
def writeHeader (first : Bool) (pid cc : Nat) (b : Bytes) : Call ε σ (Bytes × UInt8) := do
  let i : UInt8 := 0
  let b ← setAt b i.toNat 0x47
  let i := i + 1
  let b ← setAt b i.toNat (UInt8.ofNat (pid >>> 8))
  let b ← if first then orAt b i.toNat 0x40 else pure b
  let i := i + 1
  let b ← setAt b i.toNat (UInt8.ofNat pid)
  let i := i + 1
  let b ← setAt b i.toNat (UInt8.ofNat (0x10 ||| cc &&& 0x0f))
  pure (b, i + 1)

def writePcr (b : Bytes) (i : UInt8) (pcr : Int) : Call ε σ Bytes := do
  let b ← setAt b i.toNat (UInt8.ofInt (pcr >>> (25 : Nat)))
  let i := i + 1
  let b ← setAt b i.toNat (UInt8.ofInt (pcr >>> (17 : Nat)))
  let i := i + 1
  let b ← setAt b i.toNat (UInt8.ofInt (pcr >>> (9 : Nat)))
  let i := i + 1
  let b ← setAt b i.toNat (UInt8.ofInt (pcr >>> (1 : Nat)))
  let i := i + 1
  let b ← setAt b i.toNat (UInt8.ofInt (pcr % 2 * 128 + 0x7e))
  let i := i + 1
  setAt b i.toNat 0

/-- The clock reference of a key frame. -/
def writeClock (p : Packet) (b : Bytes) (i : UInt8) : Call ε σ (Bytes × UInt8) := do
  let b ← orAt b 3 0x20
  let b ← setAt b i.toNat 7
  let i := i + 1
  let b ← setAt b i.toNat 0x50
  let i := i + 1
  let b ← writePcr b i (dtsOf p)
  pure (b, i + 6)

def adaptationBufInit (src : Bytes) (remainBytes : UInt8) : Call ε σ Bytes := do
  let src ← setAt src 0 (remainBytes - 1)
  if remainBytes = 1 then pure src
  else do
    let src ← setAt src 1 0x00
    fillFrom src 2 0xff

/-- The stuffing, if there is not enough to send, the index behind it, and `dataLen`. -/
def stuff (v : Loop) (b : Bytes) (i : UInt8) : Call ε σ (Bytes × UInt8 × UInt8) :=
  if v.packetBytesLen ≥ tsDefaultDataLen then pure (b, i, if v.first then 184 - (i - 4) else 184)
  else do
    let b ← orAt b 3 0x20
    let dataLen := UInt8.ofInt v.packetBytesLen
    let remainBytes := if v.first then 184 - dataLen - (i - 4) else 184 - dataLen
    let src ← sliceFrom b i.toNat
    let src ← adaptationBufInit src remainBytes
    pure (b.take i.toNat ++ src, i + remainBytes, dataLen)

/-- What is in front of the payload. -/
def layOut (p : Packet) (v : Loop) (cc : Nat) (b : Bytes) : Call ε σ (Bytes × UInt8 × UInt8) := do
  let (b, i) ← writeHeader v.first (pidOf p) cc b
  let (b, i) ← if v.first ∧ isKeyFrame p then writeClock p b i else pure (b, i)
  stuff v b i

/-- `copy(muxer.tsPacket[i:], piece)`, with how much was copied. -/
def copyPiece (b : Bytes) (i : UInt8) (piece : Bytes) : Call ε σ (Bytes × Nat) := do
  let b' ← copyTo b i.toNat piece
  pure (b', min piece.length (b.length - i.toNat))

def putPes (pes : PesHeader) (v : Loop) (b : Bytes) (i : UInt8) :
    Call ε (σ × List Segment) (Loop × Bytes × UInt8) :=
  if v.first ∧ i < 188 ∧ v.pesHeaderLen > 0 then do
    let tmpLen := 188 - i
    let tmpLen := if v.pesHeaderLen ≤ tmpLen then v.pesHeaderLen else tmpLen
    let piece ← slice pes.data v.pesIndex (v.pesIndex + tmpLen.toNat)
    let (b, n) ← copyPiece b i piece
    log (.pes v.pesIndex (v.pesIndex + n))
    pure ({ v with
      tmpLen
      packetBytesLen := v.packetBytesLen - tmpLen.toNat
      dataLen := v.dataLen - tmpLen
      pesHeaderLen := v.pesHeaderLen - tmpLen
      pesIndex := v.pesIndex + tmpLen.toNat }, b, i + tmpLen)
  else pure (v, b, i)

/-- The capacity of `Data` is taken to be its length. -/
def putData (p : Packet) (v : Loop) (b : Bytes) (i : UInt8) : Call ε (σ × List Segment) (Loop × Bytes) :=
  if i < 188 then do
    let tmpLen := 188 - i
    let dataLen := if tmpLen ≤ v.dataLen then tmpLen else v.dataLen
    let piece ← slice p.data v.wBytes (v.wBytes + dataLen.toNat)
    let (b, n) ← copyPiece b i piece
    log (.data v.wBytes (v.wBytes + n))
    pure ({ v with
      tmpLen
      dataLen
      wBytes := v.wBytes + dataLen.toNat
      packetBytesLen := v.packetBytesLen - dataLen.toNat }, b)
  else pure (v, b)

end

variable {ω : Type}

/-- The transport packet goes to the writer. -/
def handOver (write : Bytes → Call GoError ω Unit) (b : Bytes) : Call GoError (Muxer × ω) Unit := fun (muxer, w) =>
  let muxer := { muxer with tsPacket := b }
  match write b w with
  | .ok () w => .ok () (muxer, w)
  | .err e w => .err e (muxer, w)
  | .panic p => .panic p
  | .diverge => .diverge

/-- One turn of the loop, which ends with what `packetBytesLen` is then. -/
def muxTurn (write : Bytes → Call GoError ω Unit) (p : Packet) (pes : PesHeader) (v : Loop) :
    Call GoError ((Muxer × ω) × List Segment) (Loop ⊕ Int) := fun ((muxer, w), segments) =>
  if v.packetBytesLen ≤ 0 then .ok (.inr v.packetBytesLen) ((muxer, w), segments)
  else
    let muxer := count p muxer
    (do
      let (b, i, dataLen) ← layOut p v (ccOf p muxer) muxer.tsPacket
      let (v, b, i) ← putPes pes { v with dataLen } b i
      let (v, b) ← putData p v b i
      unlogged (handOver write b)
      pure (Sum.inl { v with first := false })) ((muxer, w), segments)

/-- `Mux`, with what is left of `packetBytesLen` in the end. -/
def mux (write : Bytes → Call GoError ω Unit) (p : Packet) : Call GoError ((Muxer × ω) × List Segment) Int :=
  match ptsOf p with
  | none => Call.panic .nilDereference
  | some pts =>
    let pes := PesHeader.packet p pts (dtsOf p)
    let packetBytesLen := p.data.length + pes.len
    Call.loop (muxTurn write p pes) (packetBytesLen + 1) { pesHeaderLen := UInt8.ofNat pes.len, packetBytesLen }

/-! ### Bytes and numbers -/

namespace Loop

/-- The variables with their bytes as numbers. -/
def toMuxLoop (v : Loop) : MuxLoop where
  first := v.first
  wBytes := v.wBytes
  pesIndex := v.pesIndex
  dataLen := v.dataLen.toNat
  pesHeaderLen := v.pesHeaderLen.toNat
  packetBytesLen := v.packetBytesLen

end Loop

theorem toNat_sub_eq (a b : UInt8) : (a - b).toNat = sub8 a.toNat b.toNat := by
  have hb := b.toNat_lt
  rw [UInt8.toNat_sub, sub8]
  congr 1
  omega

theorem toNat_add_eq (a b : UInt8) : (a + b).toNat = u8 (a.toNat + b.toNat) := UInt8.toNat_add a b

section
variable {ε σ : Type} {b : Bytes}

theorem writeHeader_eq (hb : b.length = tsPacketLen) (first : Bool) (pid cc : Nat) :
    (writeHeader first pid cc b : Call ε σ (Bytes × UInt8)) = pure (Muxer.writeHeader first pid cc b, 4) := by
  match b, hb with
  | b0 :: b1 :: b2 :: b3 :: rest, _ =>
    cases first with
    | true => simp [writeHeader, orAt, setAt, readAt, Call.pure_bind, Muxer.writeHeader, copyAt]
    | false => simp [writeHeader, setAt, Call.pure_bind, Muxer.writeHeader, copyAt]

theorem writeClock_eq (hb : b.length = tsPacketLen) (p : Packet) :
    (writeClock p b 4 : Call ε σ (Bytes × UInt8)) =
      pure (copyAt 4 ([7, 0x50] ++ Muxer.writePcr (dtsOf p)) (haveAdaptation b), 12) := by
  match b, hb with
  | b0 :: b1 :: b2 :: b3 :: b4 :: b5 :: b6 :: b7 :: b8 :: b9 :: b10 :: b11 :: rest, _ =>
    simp [writeClock, writePcr, orAt, setAt, readAt, Call.pure_bind, Muxer.writePcr, haveAdaptation, copyAt]

theorem orAt_eq (hb : b.length = tsPacketLen) : (orAt b 3 0x20 : Call ε σ Bytes) = pure (haveAdaptation b) := by
  match b, hb with
  | b0 :: b1 :: b2 :: b3 :: rest, _ => simp [orAt, setAt, readAt, Call.pure_bind, haveAdaptation]

/-- The field is written on what is behind `i`. -/
theorem adaptationBufInit_eq {i : Nat} (hb : b.length = tsPacketLen) (hi : i + 2 ≤ tsPacketLen) (r : UInt8) :
    ∃ src, (∀ ε σ : Type, (adaptationBufInit (b.drop i) r : Call ε σ Bytes) = pure src) ∧
      b.take i ++ src = Muxer.adaptationBufInit i r.toNat b := by
  have hdrop : (b.drop i).length = tsPacketLen - i := by rw [List.length_drop, hb]
  have hlength : UInt8.ofNat (sub8 r.toNat 1) = r - 1 := by
    apply UInt8.toNat_inj.mp
    rw [toNat_sub_eq, UInt8.toNat_ofNat']
    exact Nat.mod_mod _ _
  have hone : r.toNat = 1 ↔ r = 1 := UInt8.toNat_inj (b := 1)
  obtain ⟨x, y, rest, hsrc⟩ : ∃ x y rest, b.drop i = x :: y :: rest := by
    obtain ⟨x, more, hx⟩ := List.exists_cons_of_length_pos (by omega : 0 < (b.drop i).length)
    rw [hx, List.length_cons] at hdrop
    obtain ⟨y, rest, rfl⟩ := List.exists_cons_of_length_pos (by omega : 0 < more.length)
    exact ⟨x, y, rest, hx⟩
  have hrest : rest.length = tsPacketLen - i - 2 := by
    rw [hsrc, List.length_cons, List.length_cons] at hdrop
    omega
  have hnext : b.drop (i + 1) = y :: rest := by rw [← List.drop_drop, hsrc, List.drop_one, List.tail_cons]
  have hset : ∀ ε σ : Type, (setAt (x :: y :: rest) 0 (r - 1) : Call ε σ Bytes) = pure ((r - 1) :: y :: rest) :=
    fun ε σ => setAt_of_lt _ (Nat.succ_pos _)
  rw [Muxer.adaptationBufInit, hsrc, hlength]
  by_cases hr : r = 1
  · have hcopy : copyAt i [r - 1] b = b.take i ++ (r - 1) :: y :: rest := by
      have htake : [r - 1].take (b.length - i) = [r - 1] := by
        apply List.take_of_length_le
        rw [List.length_singleton]
        omega
      rw [copyAt, htake, List.length_singleton, hnext, List.append_assoc]
      rfl
    rw [if_pos (hone.mpr hr)]
    refine ⟨(r - 1) :: y :: rest, fun ε σ => ?_, hcopy.symm⟩
    rw [adaptationBufInit, hset, Call.pure_bind, if_pos hr]
  · have hsecond : ∀ ε σ : Type, (setAt ((r - 1) :: y :: rest) 1 0x00 : Call ε σ Bytes) =
        pure ((r - 1) :: 0x00 :: rest) := fun ε σ => setAt_of_lt _ (Nat.succ_lt_succ (Nat.succ_pos _))
    have hfill : ∀ ε σ : Type, (fillFrom ((r - 1) :: 0x00 :: rest) 2 0xff : Call ε σ Bytes) =
        pure ((r - 1) :: 0x00 :: List.replicate (tsPacketLen - i - 2) 0xff) := by
      intro ε σ
      rw [fillFrom_of_le 0xff (by simp), ← hrest]
      rfl
    have hcopy : copyAt i ((r - 1) :: 0x00 :: List.replicate (tsPacketLen - i - 2) 0xff) b =
        b.take i ++ (r - 1) :: 0x00 :: List.replicate (tsPacketLen - i - 2) 0xff := by
      apply copyAt_end
      simp only [List.length_cons, List.length_replicate]
      omega
    rw [if_neg (mt hone.mp hr)]
    refine ⟨_, fun ε σ => ?_, hcopy.symm⟩
    rw [adaptationBufInit, hset, Call.pure_bind, if_neg hr, hsecond, Call.pure_bind, hfill]

/-- The stuffing of the muxer, on numbers. -/
def stuffed (v : MuxLoop) (b : Bytes) (i : Nat) : Bytes × Nat × Nat :=
  if v.packetBytesLen ≥ tsDefaultDataLen then
    (b, i, if v.first then sub8 tsDefaultDataLen (i - 4) else tsDefaultDataLen)
  else
    let dataLen := (v.packetBytesLen % 256).toNat
    let remainBytes := if v.first then sub8 (sub8 tsDefaultDataLen dataLen) (i - 4) else sub8 tsDefaultDataLen dataLen
    (Muxer.adaptationBufInit i remainBytes (haveAdaptation b), u8 (i + remainBytes), dataLen)

theorem layOut_eq_stuffed (p : Packet) (v : MuxLoop) (cc : Nat) (b : Bytes) :
    Muxer.layOut p v cc b =
      if v.first ∧ isKeyFrame p then
        stuffed v (copyAt 4 ([7, 0x50] ++ Muxer.writePcr (dtsOf p))
          (haveAdaptation (Muxer.writeHeader v.first (pidOf p) cc b))) 12
      else stuffed v (Muxer.writeHeader v.first (pidOf p) cc b) 4 := by
  unfold Muxer.layOut
  by_cases hkey : v.first ∧ isKeyFrame p
  · simp only [if_pos hkey]
    rfl
  · simp only [if_neg hkey]
    rfl

theorem stuff_eq (hb : b.length = tsPacketLen) (v : Loop) {i : UInt8} (hi : 4 ≤ i.toNat)
    (hi' : i.toNat + 2 ≤ tsPacketLen) :
    ∃ b' i' d', (∀ ε σ : Type, (stuff v b i : Call ε σ (Bytes × UInt8 × UInt8)) = pure (b', i', d')) ∧
      stuffed v.toMuxLoop b i.toNat = (b', i'.toNat, d'.toNat) := by
  have hfour : (i - 4).toNat = i.toNat - 4 := UInt8.toNat_sub_of_le _ _ (UInt8.le_iff_toNat_le.mpr hi)
  have hfull : (184 : UInt8).toNat = tsDefaultDataLen := rfl
  have hfirst : v.toMuxLoop.first = v.first := rfl
  have hlen : v.toMuxLoop.packetBytesLen = v.packetBytesLen := rfl
  rw [stuffed, hlen, hfirst]
  by_cases hlong : v.packetBytesLen ≥ tsDefaultDataLen
  · rw [if_pos hlong]
    refine ⟨b, i, _, fun ε σ => by rw [stuff, if_pos hlong], ?_⟩
    rw [apply_ite UInt8.toNat, toNat_sub_eq, hfour, hfull]
  · have hlength : (haveAdaptation b).length = tsPacketLen := by
      rw [haveAdaptation, List.length_modify, hb]
    have hdata : (UInt8.ofInt v.packetBytesLen).toNat = (v.packetBytesLen % 256).toNat := by
      rw [UInt8.ofInt, UInt8.toNat_ofNat']
      omega
    set r := if v.first then 184 - UInt8.ofInt v.packetBytesLen - (i - 4) else 184 - UInt8.ofInt v.packetBytesLen with hr
    have hremain : r.toNat = if v.first then sub8 (sub8 tsDefaultDataLen (v.packetBytesLen % 256).toNat) (i.toNat - 4)
        else sub8 tsDefaultDataLen (v.packetBytesLen % 256).toNat := by
      rw [hr, apply_ite UInt8.toNat, toNat_sub_eq, toNat_sub_eq, hfour, hfull, hdata]
    obtain ⟨src, hinit, hfield⟩ := adaptationBufInit_eq hlength hi' r
    rw [if_neg hlong]
    refine ⟨(haveAdaptation b).take i.toNat ++ src, i + r, UInt8.ofInt v.packetBytesLen, fun ε σ => ?_, ?_⟩
    · have hslice : (sliceFrom (haveAdaptation b) i.toNat : Call ε σ Bytes) = pure ((haveAdaptation b).drop i.toNat) :=
        sliceFrom_of_le (by omega)
      rw [stuff, if_neg hlong, orAt_eq hb, Call.pure_bind]
      dsimp only
      rw [hslice, Call.pure_bind, hinit, Call.pure_bind]
    · rw [hfield, toNat_add_eq, hremain, hdata]

theorem layOut_eq (hb : b.length = tsPacketLen) (p : Packet) (v : Loop) (cc : Nat) :
    ∃ b' i d, (∀ ε σ : Type, (layOut p v cc b : Call ε σ (Bytes × UInt8 × UInt8)) = pure (b', i, d)) ∧
      Muxer.layOut p v.toMuxLoop cc b = (b', i.toNat, d.toNat) := by
  have hheader := (writeHeader_take hb v.first (pidOf p) cc).2
  rw [layOut_eq_stuffed]
  by_cases hkey : v.first ∧ isKeyFrame p
  · have hclock : (copyAt 4 ([7, 0x50] ++ Muxer.writePcr (dtsOf p))
        (haveAdaptation (Muxer.writeHeader v.first (pidOf p) cc b))).length = tsPacketLen := by
      rw [length_copyAt, haveAdaptation, List.length_modify, hheader]
    have hkey' : v.toMuxLoop.first ∧ isKeyFrame p := hkey
    obtain ⟨b', i, d, hstuff, heq⟩ := stuff_eq hclock v (i := 12) (by decide) (by decide)
    rw [if_pos hkey']
    refine ⟨b', i, d, fun ε σ => ?_, heq⟩
    rw [layOut, writeHeader_eq hb, Call.pure_bind]
    dsimp only
    rw [if_pos hkey, writeClock_eq hheader, Call.pure_bind]
    exact hstuff ε σ
  · have hkey' : ¬(v.toMuxLoop.first ∧ isKeyFrame p) := hkey
    obtain ⟨b', i, d, hstuff, heq⟩ := stuff_eq hheader v (i := 4) (by decide) (by decide)
    rw [if_neg hkey']
    refine ⟨b', i, d, fun ε σ => ?_, heq⟩
    rw [layOut, writeHeader_eq hb, Call.pure_bind]
    dsimp only
    rw [if_neg hkey, Call.pure_bind]
    exact hstuff ε σ

theorem sub8_of_le {a b : Nat} (h : b ≤ a) (ha : a < 256) : sub8 a b = a - b := by
  rw [sub8]
  omega

theorem toNat_rest (i : UInt8) : (188 - i).toNat = sub8 tsPacketLen i.toNat := toNat_sub_eq 188 i

/-- `n` bytes of an array, from `start` on, are copied behind `i`. -/
theorem copyPiece_eq {α : Type} (hb : b.length = tsPacketLen) {i : UInt8} (hi : i.toNat < tsPacketLen) {src : Bytes}
    {start n : Nat} (hle : n ≤ tsPacketLen - i.toNat) (hfits : start + n ≤ src.length) (f : Bytes × Nat → Call ε σ α) :
    (slice src start (start + n) >>= fun piece => copyPiece b i piece >>= f) =
      f (copyAt i.toNat ((src.drop start).take n) b, n) := by
  have hpiece : ((src.drop start).take n).length = n := by
    rw [List.length_take, List.length_drop]
    omega
  rw [slice_of_le (Nat.le_add_right _ _) hfits, Nat.add_sub_cancel_left, Call.pure_bind, copyPiece, copyTo,
    if_pos (by omega), Call.pure_bind, Call.pure_bind, hpiece, hb, Nat.min_eq_left hle, copyAt, hb, hpiece]

/-- Pieces from `start` to `stop`, each from where the one before it ends. -/
def Covers : Nat → List (Nat × Nat) → Nat → Prop
  | start, [], stop => start = stop
  | start, (a, b) :: pieces, stop => a = start ∧ a ≤ b ∧ Covers b pieces stop

theorem covers_one {start stop : Nat} (h : start ≤ stop) : Covers start [(start, stop)] stop := ⟨rfl, h, rfl⟩

theorem Covers.append {start middle stop : Nat} {pieces more : List (Nat × Nat)} (h : Covers start pieces middle)
    (hmore : Covers middle more stop) : Covers start (pieces ++ more) stop := by
  induction pieces generalizing start with
  | nil =>
      cases h
      exact hmore
  | cons piece pieces ih => exact ⟨h.1, h.2.1, ih h.2.2⟩

def pesSegment (piece : Nat × Nat) : Segment := .pes piece.1 piece.2

def dataSegment (piece : Nat × Nat) : Segment := .data piece.1 piece.2

/-- Where the muxer on numbers takes of the PES header, the same is copied. -/
theorem putPes_eq {pes : PesHeader} (hb : b.length = tsPacketLen) (hpes : pes.data.length = tsPacketLen) {v : Loop}
    {i : UInt8} {v1 : MuxLoop} {b1 : Bytes} {i1 : Nat} (h : Muxer.putPes pes v.toMuxLoop b i.toNat = some (v1, b1, i1)) :
    ∃ v' i' pieces,
      (∀ (ε σ : Type) (s : σ) segments, (putPes pes v b i : Call ε (σ × List Segment) _) (s, segments) =
        .ok (v', b1, i') (s, segments ++ pieces.map pesSegment)) ∧
      v'.toMuxLoop = v1 ∧ i'.toNat = i1 ∧ Covers v.pesIndex pieces v1.pesIndex ∧ (v.first = false → pieces = []) := by
  have hcond : v.toMuxLoop.first ∧ i.toNat < tsPacketLen ∧ v.toMuxLoop.pesHeaderLen > 0 ↔
      v.first ∧ i < 188 ∧ v.pesHeaderLen > 0 := by
    rw [UInt8.lt_iff_toNat_lt, gt_iff_lt, gt_iff_lt, UInt8.lt_iff_toNat_lt]
    rfl
  unfold Muxer.putPes at h
  by_cases hput : v.first ∧ i < 188 ∧ v.pesHeaderLen > 0
  · have hi : i.toNat < tsPacketLen := UInt8.lt_iff_toNat_lt.mp hput.2.1
    have hrest : sub8 tsPacketLen i.toNat = tsPacketLen - i.toNat := sub8_of_le hi.le (by decide)
    set t := if v.pesHeaderLen ≤ 188 - i then v.pesHeaderLen else 188 - i with ht
    have htmp : (if v.toMuxLoop.pesHeaderLen ≤ sub8 tsPacketLen i.toNat then v.toMuxLoop.pesHeaderLen
        else sub8 tsPacketLen i.toNat) = t.toNat := by
      rw [ht, apply_ite UInt8.toNat, toNat_rest, ← toNat_rest]
      exact if_congr UInt8.le_iff_toNat_le.symm rfl rfl
    have hle : t.toNat ≤ tsPacketLen - i.toNat := by
      rw [← htmp, hrest]
      split_ifs with hshort
      · exact hshort
      · exact le_rfl
    rw [if_pos (hcond.mpr hput)] at h
    dsimp only at h
    rw [htmp] at h
    split_ifs at h with hbound
    cases h
    have hfits : v.pesIndex + t.toNat ≤ pes.data.length := by
      rw [hpes]
      exact not_lt.mp hbound
    refine ⟨{ v with
      tmpLen := t
      packetBytesLen := v.packetBytesLen - t.toNat
      dataLen := v.dataLen - t
      pesHeaderLen := v.pesHeaderLen - t
      pesIndex := v.pesIndex + t.toNat }, i + t, [(v.pesIndex, v.pesIndex + t.toNat)], ?_, ?_, toNat_add_eq i t, ?_, ?_⟩
    · intro ε σ s segments
      rw [putPes, if_pos hput]
      dsimp only
      rw [← ht, copyPiece_eq hb hi hle hfits]
      rfl
    · simp only [Loop.toMuxLoop, toNat_sub_eq]
    · exact covers_one (Nat.le_add_right _ _)
    · intro hfirst
      exact absurd hput.1 (by simp [hfirst])
  · rw [if_neg (mt hcond.mp hput)] at h
    cases h
    refine ⟨v, i, [], fun ε σ s segments => ?_, rfl, rfl, rfl, fun _ => rfl⟩
    rw [putPes, if_neg hput, List.map_nil, List.append_nil]
    rfl

theorem putData_eq {p : Packet} (hb : b.length = tsPacketLen) {v : Loop} {i : UInt8} {v1 : MuxLoop} {b1 : Bytes}
    (h : Muxer.putData p v.toMuxLoop b i.toNat = some (v1, b1)) :
    ∃ v' pieces,
      (∀ (ε σ : Type) (s : σ) segments, (putData p v b i : Call ε (σ × List Segment) _) (s, segments) =
        .ok (v', b1) (s, segments ++ pieces.map dataSegment)) ∧ v'.toMuxLoop = v1 ∧ Covers v.wBytes pieces v1.wBytes := by
  have hcond : i.toNat < tsPacketLen ↔ i < 188 := by
    rw [UInt8.lt_iff_toNat_lt]
    rfl
  unfold Muxer.putData at h
  by_cases hput : i < 188
  · have hi : i.toNat < tsPacketLen := hcond.mpr hput
    have hrest : sub8 tsPacketLen i.toNat = tsPacketLen - i.toNat := sub8_of_le hi.le (by decide)
    set t := if 188 - i ≤ v.dataLen then 188 - i else v.dataLen with ht
    have htmp : (if sub8 tsPacketLen i.toNat ≤ v.toMuxLoop.dataLen then sub8 tsPacketLen i.toNat
        else v.toMuxLoop.dataLen) = t.toNat := by
      rw [ht, apply_ite UInt8.toNat, ← toNat_rest]
      exact if_congr UInt8.le_iff_toNat_le.symm rfl rfl
    have hle : t.toNat ≤ tsPacketLen - i.toNat := by
      rw [← htmp, hrest]
      split_ifs with hshort
      · exact le_rfl
      · exact (not_le.mp hshort).le
    rw [if_pos hi] at h
    dsimp only at h
    rw [htmp] at h
    split_ifs at h with hbound
    cases h
    have hfits : v.wBytes + t.toNat ≤ p.data.length := not_lt.mp hbound
    refine ⟨{ v with
      tmpLen := 188 - i
      dataLen := t
      wBytes := v.wBytes + t.toNat
      packetBytesLen := v.packetBytesLen - t.toNat }, [(v.wBytes, v.wBytes + t.toNat)], ?_, ?_, ?_⟩
    · intro ε σ s segments
      rw [putData, if_pos hput]
      dsimp only
      rw [← ht, copyPiece_eq hb hi hle hfits]
      rfl
    · simp only [Loop.toMuxLoop]
    · exact covers_one (Nat.le_add_right _ _)
  · rw [if_neg (mt hcond.mp hput)] at h
    cases h
    refine ⟨v, [], fun ε σ s segments => ?_, rfl, rfl⟩
    rw [putData, if_neg hput, List.map_nil, List.append_nil]
    rfl

end

/-! ### What is sent and what is left -/

/-- The bytes that are left are those of the header and of the data that were not copied yet. -/
structure Balanced (p : Packet) (pes : PesHeader) (v : MuxLoop) : Prop where
  sum : v.packetBytesLen + v.pesIndex + v.wBytes = pes.len + p.data.length
  header : v.pesIndex + v.pesHeaderLen = pes.len
  data : v.wBytes ≤ p.data.length

variable {p : Packet} {pes : PesHeader} {v v1 : MuxLoop} {b b1 : Bytes} {i i1 : Nat}

theorem Balanced.putPes (h : Balanced p pes v) (hbyte : pes.len < 256) (hput : Muxer.putPes pes v b i = some (v1, b1, i1)) :
    Balanced p pes v1 ∧ v1.first = v.first ∧ v1.wBytes = v.wBytes := by
  have hsum := h.sum
  have hheader := h.header
  unfold Muxer.putPes at hput
  dsimp only at hput
  split_ifs at hput with hcond hshort
  · cases hput
    refine ⟨⟨?_, ?_, h.data⟩, rfl, rfl⟩
    · dsimp only
      push_cast
      omega
    · dsimp only
      rw [sub8_of_le le_rfl (by omega)]
      omega
  · cases hput
    have hle : sub8 tsPacketLen i ≤ v.pesHeaderLen := (not_le.mp hshort).le
    refine ⟨⟨?_, ?_, h.data⟩, rfl, rfl⟩
    · dsimp only
      push_cast
      omega
    · dsimp only
      rw [sub8_of_le hle (by omega)]
      omega
  · cases hput
    exact ⟨h, rfl, rfl⟩

theorem Balanced.putData (h : Balanced p pes v) (hput : Muxer.putData p v b i = some (v1, b1)) :
    Balanced p pes v1 ∧ v1.pesIndex = v.pesIndex := by
  have hsum := h.sum
  unfold Muxer.putData at hput
  dsimp only at hput
  split_ifs at hput with hcond hshort hbound
  · cases hput
    refine ⟨⟨?_, h.header, not_lt.mp ‹_›⟩, rfl⟩
    dsimp only
    push_cast
    omega
  · cases hput
    refine ⟨⟨?_, h.header, not_lt.mp ‹_›⟩, rfl⟩
    dsimp only
    push_cast
    omega
  · cases hput
    exact ⟨h, rfl⟩

/-- When nothing is left, nothing is missing. -/
theorem Balanced.done (h : Balanced p pes v) (hend : v.packetBytesLen ≤ 0) :
    v.packetBytesLen = 0 ∧ v.pesIndex = pes.len ∧ v.wBytes = p.data.length := by
  have hsum := h.sum
  have hheader := h.header
  have hdata := h.data
  omega

variable {ω : Type} {write : Bytes → Call GoError ω Unit} {muxer muxer1 : Muxer} {w w1 : ω}

/-- What a turn does that returns while there is something left. -/
theorem muxTurn_cases {r : MuxLoop ⊕ Unit} (hend : ¬v.packetBytesLen ≤ 0)
    (h : Muxer.muxTurn write p pes v (muxer, w) = .ok r (muxer1, w1)) :
    ∃ b i d v2 b2 i2 v3 b3,
      Muxer.layOut p v (ccOf p (count p muxer)) (count p muxer).tsPacket = (b, i, d) ∧
      Muxer.putPes pes { v with dataLen := d } b i = some (v2, b2, i2) ∧ Muxer.putData p v2 b2 i2 = some (v3, b3) ∧
      write b3 w = .ok () w1 ∧ r = .inl { v3 with first := false } ∧
      muxer1 = { count p muxer with tsPacket := b3 } := by
  obtain ⟨b, i, d, hlay⟩ : ∃ b i d, Muxer.layOut p v (ccOf p (count p muxer)) (count p muxer).tsPacket = (b, i, d) :=
    ⟨_, _, _, rfl⟩
  simp only [Muxer.muxTurn, if_neg hend, hlay] at h
  split at h
  · cases h
  · next v2 b2 i2 hpes =>
    split at h
    · cases h
    · next v3 b3 hdata =>
      split at h
      · next w2 hwrite =>
        cases h
        exact ⟨b, i, d, v2, b2, i2, v3, b3, hlay, hpes, hdata, hwrite, rfl, rfl⟩
      · cases h
      · cases h
      · cases h

/-- Ends as the writer does, which is handed bytes. -/
def EndsAs {ω α β : Type} (Q : α → (Muxer × ω) × List Segment → ω → Prop)
    (o : Outcome GoError ((Muxer × ω) × List Segment) α) (o' : Outcome GoError ω β) : Prop :=
  o.Simulates (fun a s _ w => Q a s w) (fun s w => s.1.2 = w) o'

/-- A turn of the muxer on numbers is a turn of the muxer on bytes, for any writer. -/
theorem muxTurn_step {v : Loop} {out out1 : List Bytes} (hok : Ok muxer) (hpes : pes.data.length = tsPacketLen)
    (hbyte : pes.len < 256) (h : Balanced p pes v.toMuxLoop) (hend : ¬v.packetBytesLen ≤ 0) {r : MuxLoop ⊕ Unit}
    (hturn : Muxer.muxTurn collect p pes v.toMuxLoop (muxer, out) = .ok r (muxer1, out1)) :
    ∃ v' b header data, b.length = tsPacketLen ∧ out1 = out ++ [b] ∧ Ok muxer1 ∧ r = .inl v'.toMuxLoop ∧
      v'.first = false ∧ Balanced p pes v'.toMuxLoop ∧ Covers v.pesIndex header v'.pesIndex ∧
      Covers v.wBytes data v'.wBytes ∧ (v.first = false → header = []) ∧
      ∀ (ω : Type) (write : Bytes → Call GoError ω Unit) (w : ω) (segments : List Segment), EndsAs
        (fun r s w' => r = Sum.inl v' ∧
          s = ((muxer1, w'), segments ++ header.map pesSegment ++ data.map dataSegment))
        (muxTurn write p pes v ((muxer, w), segments)) (write b w) := by
  obtain ⟨b, i', d', v2, b2, i2, v3, b3, hlay', hput, hput3, hwrite, rfl, rfl⟩ := muxTurn_cases hend hturn
  have hcount := hok.count p
  obtain ⟨b', i, d, hlay, heq⟩ := layOut_eq hcount.tsPacket p v (ccOf p (count p muxer))
  rw [heq] at hlay'
  cases hlay'
  have hb : b.length = tsPacketLen := by
    have hlength := length_layOut p v.toMuxLoop (ccOf p (count p muxer)) (count p muxer).tsPacket
    rw [heq] at hlength
    exact hlength.trans hcount.tsPacket
  have hput' : Muxer.putPes pes ({ v with dataLen := d } : Loop).toMuxLoop b i.toNat = some (v2, b2, i2) := hput
  obtain ⟨v2', i2', header, hcall2, rfl, rfl, hheader, hfirst⟩ := putPes_eq hb hpes hput'
  have hbalanced : Balanced p pes ({ v with dataLen := d } : Loop).toMuxLoop := ⟨h.sum, h.header, h.data⟩
  obtain ⟨hbalanced2, -, hbytes2⟩ := hbalanced.putPes hbyte hput'
  have hb2 : b2.length = tsPacketLen := (length_putPes hput).trans hb
  obtain ⟨v3', data, hcall3, rfl, hdata3⟩ := putData_eq hb2 hput3
  obtain ⟨hbalanced3, hindex3⟩ := hbalanced2.putData hput3
  have hb3 : b3.length = tsPacketLen := (length_putData hput3).trans hb2
  have hout : out1 = out ++ [b3] := by
    cases hwrite
    rfl
  have hbytes : v2'.wBytes = v.wBytes := hbytes2
  rw [← hindex3] at hheader
  rw [hbytes] at hdata3
  refine ⟨{ v3' with first := false }, b3, header, data, hb3, hout, ⟨hcount.videoCc, hcount.audioCc, hb3⟩, rfl, rfl,
    ⟨hbalanced3.sum, hbalanced3.header, hbalanced3.data⟩, hheader, hdata3, hfirst, fun ω write w segments => ?_⟩
  rw [muxTurn]
  dsimp only
  rw [if_neg hend, hlay, Call.pure_bind]
  dsimp only
  rw [Call.bind_of_ok (hcall2 _ _ _ _)]
  dsimp only
  rw [Call.bind_of_ok (hcall3 _ _ _ _), bind_apply, unlogged, handOver]
  dsimp only
  cases write b3 w with
  | ok a w' => exact ⟨rfl, rfl⟩
  | err e w' => exact ⟨rfl, rfl⟩
  | panic f => exact rfl
  | diverge => trivial

/-- The muxer on bytes hands its packets to the writer one after the other. What it copies covers what is left of the PES
header and then what is left of the data. -/
theorem loop_step {fuel : Nat} {v : Loop} {muxer' : Muxer} {out out' : List Bytes} (hok : Ok muxer)
    (hpes : pes.data.length = tsPacketLen) (hbyte : pes.len < 256) (h : Balanced p pes v.toMuxLoop)
    (hloop : Call.loop (Muxer.muxTurn collect p pes) fuel v.toMuxLoop (muxer, out) = .ok () (muxer', out')) :
    ∃ packets header data, out' = out ++ packets ∧ (∀ b ∈ packets, b.length = tsPacketLen) ∧ Ok muxer' ∧
      Covers v.pesIndex header pes.len ∧ Covers v.wBytes data p.data.length ∧ (v.first = false → header = []) ∧
      ∀ (ω : Type) (write : Bytes → Call GoError ω Unit) (w : ω) (segments : List Segment), EndsAs
        (fun n s w' => n = 0 ∧ s = ((muxer', w'), segments ++ header.map pesSegment ++ data.map dataSegment))
        (Call.loop (muxTurn write p pes) fuel v ((muxer, w), segments)) (packets.forM write w) := by
  induction fuel generalizing v muxer out with
  | zero => cases hloop
  | succ fuel ih =>
      rw [Call.loop_succ] at hloop
      by_cases hend : v.packetBytesLen ≤ 0
      · rw [muxTurn_decreases_end hend] at hloop
        cases hloop
        obtain ⟨hzero, hindex, hbytes⟩ := h.done hend
        have hzero' : v.packetBytesLen = 0 := hzero
        refine ⟨[], [], [], (List.append_nil _).symm, fun b hb => absurd hb List.not_mem_nil, hok, hindex, hbytes,
          fun _ => rfl, fun ω write w segments => ?_⟩
        have hturn : muxTurn write p pes v ((muxer', w), segments) = .ok (.inr 0) ((muxer', w), segments) := by
          rw [muxTurn]
          dsimp only
          rw [if_pos hend, hzero']
        rw [Call.loop_succ, hturn]
        exact ⟨rfl, by simp⟩
      · cases hturn : Muxer.muxTurn collect p pes v.toMuxLoop (muxer, out) with
        | ok r s =>
            obtain ⟨muxer1, out1⟩ := s
            obtain ⟨v', b, header, data, hb, rfl, hok1, rfl, hfirst1, hbalanced, hheader, hdata, hfirst, hends⟩ :=
              muxTurn_step hok hpes hbyte h hend hturn
            rw [hturn] at hloop
            obtain ⟨packets, header', data', rfl, hwhole, hok', hheader', hdata', hnil, hrest⟩ :=
              ih hok1 hbalanced hloop
            cases hnil hfirst1
            refine ⟨b :: packets, header, data ++ data', ?_, ?_, hok', ?_, hdata.append hdata', hfirst,
              fun ω write w segments => ?_⟩
            · rw [List.append_assoc]
              rfl
            · exact List.forall_mem_cons.mpr ⟨hb, hwhole⟩
            · have hall := hheader.append hheader'
              rwa [List.append_nil] at hall
            · refine Call.simulates_bind (hends ω write w segments) ?_
              intro r s a w' hr
              obtain ⟨rfl, rfl⟩ := hr
              have hmore := hrest ω write w' (segments ++ header.map pesSegment ++ data.map dataSegment)
              rw [List.map_nil, List.append_nil, List.append_assoc (segments ++ _), ← List.map_append] at hmore
              exact hmore
        | err e s =>
            rw [hturn] at hloop
            cases hloop
        | panic f =>
            rw [hturn] at hloop
            cases hloop
        | diverge =>
            rw [hturn] at hloop
            cases hloop

theorem length_data (p : Packet) (pts dts : Int) : (PesHeader.packet p pts dts).data.length = tsPacketLen := by
  have hwritten := PesHeader.written_length p pts dts
  have hle : (PesHeader.written p pts dts).length ≤ tsPacketLen := by
    rw [hwritten]
    split_ifs <;> decide
  rw [PesHeader.packet, List.length_append, List.length_replicate]
  omega

theorem mux_bounds {p : Packet} (hp : HasHeader p) {muxer : Muxer} (h : Ok muxer) :
    ∃ muxer' packets pts header data, ptsOf p = some pts ∧
      (∀ out, Muxer.mux collect p (muxer, out) = .ok () (muxer', out ++ packets)) ∧
      (∀ b ∈ packets, b.length = tsPacketLen) ∧ Ok muxer' ∧
      Covers 0 header (PesHeader.packet p pts (dtsOf p)).len ∧ Covers 0 data p.data.length ∧
      ∀ (ω : Type) (write : Bytes → Call GoError ω Unit) (w : ω), EndsAs
        (fun packetBytesLen s w' => packetBytesLen = 0 ∧
          s = ((muxer', w'), header.map pesSegment ++ data.map dataSegment))
        (mux write p ((muxer, w), [])) (packets.forM write w) := by
  obtain ⟨pts, hpts⟩ := hp.ptsOf_eq
  obtain ⟨muxer', packets, -, hwrites⟩ := writes_mux hp h
  set pes := PesHeader.packet p pts (dtsOf p) with hpes
  have hbyte : pes.len < 256 := Nat.mod_lt _ (by decide)
  set v : Loop := { pesHeaderLen := UInt8.ofNat pes.len, packetBytesLen := (p.data.length + pes.len : Nat) } with hv
  have hlen : (UInt8.ofNat pes.len).toNat = pes.len := UInt8.toNat_ofNat_of_lt' hbyte
  have hvar : v.toMuxLoop = { pesHeaderLen := pes.len, packetBytesLen := (p.data.length + pes.len : Nat) } := by
    rw [hv, Loop.toMuxLoop, hlen]
    rfl
  have hloop : Call.loop (Muxer.muxTurn collect p pes) (p.data.length + pes.len + 1) v.toMuxLoop (muxer, []) =
      .ok () (muxer', packets) := by
    have hmux := hwrites.call []
    rw [Muxer.mux, hpts] at hmux
    rw [hvar]
    exact hmux
  have hbalanced : Balanced p pes v.toMuxLoop := by
    rw [hvar]
    refine ⟨?_, Nat.zero_add _, Nat.zero_le _⟩
    dsimp only
    push_cast
    omega
  obtain ⟨packets', header, data, heq, -, -, hheader, hdata, -, hends⟩ :=
    loop_step h (length_data p pts (dtsOf p)) hbyte hbalanced hloop
  rw [List.nil_append] at heq
  subst heq
  refine ⟨muxer', packets, pts, header, data, hpts, hwrites.call, hwrites.whole, hwrites.ok, hheader, hdata,
    fun ω write w => ?_⟩
  rw [mux, hpts]
  exact hends ω write w []

/-- A key frame for which `remainBytes` wraps. -/
theorem mux_bounds_sample :
    ∃ muxer' packets pts header data, ptsOf (sampleKeyFrame 165) = some pts ∧
      (∀ out, Muxer.mux collect (sampleKeyFrame 165) (newMuxer, out) = .ok () (muxer', out ++ packets)) ∧
      (∀ b ∈ packets, b.length = tsPacketLen) ∧ Ok muxer' ∧
      Covers 0 header (PesHeader.packet (sampleKeyFrame 165) pts (dtsOf (sampleKeyFrame 165))).len ∧
      Covers 0 data (sampleKeyFrame 165).data.length ∧
      ∀ (ω : Type) (write : Bytes → Call GoError ω Unit) (w : ω), EndsAs
        (fun packetBytesLen s w' => packetBytesLen = 0 ∧
          s = ((muxer', w'), header.map pesSegment ++ data.map dataSegment))
        (mux write (sampleKeyFrame 165) ((newMuxer, w), [])) (packets.forM write w) :=
  mux_bounds (p := sampleKeyFrame 165) (fun _ => Option.some_ne_none _) ok_newMuxer

end Indexed

end Muxer

end Livego
