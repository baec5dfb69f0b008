import Livego.HlsSource
import Livego.Smoothing

/-! The clock of the audio of an hls source. The base and the number of frames are the next point of a grid, and the code
smooths times as that does, as long as the point is in 64 bits. -/

namespace Livego

open Smoothing (Near Tick ticks)

namespace Hls

namespace Align

def estPts (inc : UInt32) (a : Align) : UInt64 := a.frameBase + a.frameNum * inc.toUInt64

/-- The frame is aligned, and not the base set anew. -/
def Aligns (dts : UInt64) (inc : UInt32) (a : Align) : Prop :=
  (if estPts inc a ≥ dts then estPts inc a - dts else dts - estPts inc a) ≤ syncms * h264DefaultHz

instance (dts : UInt64) (inc : UInt32) (a : Align) : Decidable (Aligns dts inc a) :=
  inferInstanceAs (Decidable (_ ≤ _))

theorem align_eq (dts : UInt64) (inc : UInt32) (a : Align) :
    align dts inc a =
      if Aligns dts inc a then (estPts inc a, { a with frameNum := a.frameNum + 1 })
      else (dts, { frameNum := 1, frameBase := dts }) := rfl

/-- What a call gets and returns, and whether it aligns. -/
structure Turn where
  dts : UInt64
  out : UInt64
  aligned : Bool
  deriving DecidableEq, Repr

/-- The calls for the frames of a stream. -/
def turns (inc : UInt32) : List UInt64 → Align → List Turn
  | [], _ => []
  | dts :: input, a =>
    { dts, out := (align dts inc a).1, aligned := decide (Aligns dts inc a) } :: turns inc input (align dts inc a).2

/-- The point of the grid that comes next, as a number. -/
def expected (inc : UInt32) (a : Align) : Nat := a.frameBase.toNat + a.frameNum.toNat * inc.toNat

/-- No call comes to a point of the grid that is not in 64 bits. -/
def NoOverflow (inc : UInt32) : List UInt64 → Align → Prop
  | [], _ => True
  | dts :: input, a => expected inc a < 2 ^ 64 ∧ NoOverflow inc input (align dts inc a).2

/-- A frame is at least the tolerance after the one before. -/
def Spaced (dts dts' : UInt64) : Prop := dts.toNat + 180 ≤ dts'.toNat

namespace Turn

def toTick (t : Turn) : Tick := { time := t.dts.toNat, out := t.out.toNat, aligned := t.aligned }

end Turn

variable {inc : UInt32} {dts : UInt64} {input : List UInt64} {a : Align}

theorem estPts_toNat (h : expected inc a < 2 ^ 64) : (estPts inc a).toNat = expected inc a := by
  unfold expected at h ⊢
  have hmul : a.frameNum.toNat * inc.toNat < 2 ^ 64 := by omega
  rw [estPts, UInt64.toNat_add, UInt64.toNat_mul, UInt32.toNat_toUInt64, Nat.mod_eq_of_lt hmul, Nat.mod_eq_of_lt h]

theorem aligns_iff (h : expected inc a < 2 ^ 64) : Aligns dts inc a ↔ Near 180 (expected inc a) dts.toNat := by
  have hest := estPts_toNat h
  have htolerance : (syncms * h264DefaultHz).toNat = 180 := rfl
  rw [Aligns, UInt64.le_iff_toNat_le, htolerance, Near, ← hest]
  split_ifs with hge
  · have hle := UInt64.le_iff_toNat_le.mp hge
    rw [UInt64.toNat_sub_of_le _ _ hge]
    omega
  · have hlt := UInt64.lt_iff_toNat_lt.mp (UInt64.not_le.mp hge)
    rw [UInt64.toNat_sub_of_le _ _ (UInt64.le_of_lt (UInt64.not_le.mp hge))]
    omega

/-- A call is a tick, and leaves the point after that. The number of frames stays below the times. -/
theorem align_spec (dts : UInt64) (h : expected inc a < 2 ^ 64) (hnum : a.frameNum.toNat * 180 ≤ dts.toNat) :
    Turn.toTick { dts, out := (align dts inc a).1, aligned := decide (Aligns dts inc a) } =
        Smoothing.tick 180 (expected inc a) dts.toNat ∧
      expected inc (align dts inc a).2 = (align dts inc a).1.toNat + inc.toNat ∧
      (align dts inc a).2.frameNum.toNat * 180 ≤ dts.toNat + 180 := by
  have hdts := dts.toNat_lt
  rw [Smoothing.tick, align_eq, Turn.toTick]
  by_cases hnear : Near 180 (expected inc a) dts.toNat
  · have haligns := (aligns_iff h).mpr hnear
    have hsucc : (a.frameNum + 1).toNat = a.frameNum.toNat + 1 := by
      rw [UInt64.toNat_add]
      exact Nat.mod_eq_of_lt (by simp; omega)
    rw [if_pos haligns, if_pos hnear]
    refine ⟨?_, ?_, ?_⟩
    · simp [haligns, estPts_toNat h]
    · rw [estPts_toNat h]
      show a.frameBase.toNat + (a.frameNum + 1).toNat * inc.toNat = _
      rw [hsucc, expected, Nat.succ_mul, Nat.add_assoc]
    · show (a.frameNum + 1).toNat * 180 ≤ _
      rw [hsucc]
      omega
  · have haligns := mt (aligns_iff h).mp hnear
    rw [if_neg haligns, if_neg hnear]
    refine ⟨?_, ?_, ?_⟩
    · simp [haligns]
    · show dts.toNat + 1 * inc.toNat = _
      rw [Nat.one_mul]
    · show 1 * 180 ≤ dts.toNat + 180
      omega

/-- Calls for a stream are the ticks of its times. -/
theorem turns_eq (hspaced : input.IsChain Spaced) (h : NoOverflow inc input a)
    (hnum : ∀ dts ∈ input.head?, a.frameNum.toNat * 180 ≤ dts.toNat) :
    (turns inc input a).map Turn.toTick = ticks 180 inc.toNat (expected inc a) (input.map UInt64.toNat) := by
  induction input generalizing a with
  | nil => rfl
  | cons dts input ih =>
      obtain ⟨htick, hexpected, hnum'⟩ := align_spec dts h.1 (hnum dts rfl)
      rw [turns, List.map_cons, htick, List.map_cons, ticks]
      have hout : (Smoothing.tick 180 (expected inc a) dts.toNat).out = (align dts inc a).1.toNat := by
        rw [← htick]
        rfl
      have hrest : ∀ dts' ∈ input.head?, (align dts inc a).2.frameNum.toNat * 180 ≤ dts'.toNat := by
        intro dts' hdts'
        exact hnum'.trans (hspaced.rel_head? hdts')
      rw [ih hspaced.tail h.2 hrest, hexpected, hout]

/-- Every frame is moved by at most the tolerance, none comes out before the one in front of it, and one that is aligned is
an increment after that. -/
theorem turns_smooth (hspaced : input.IsChain Spaced) (h : NoOverflow inc input {}) :
    (∀ t ∈ turns inc input {}, t.out.toNat ≤ t.dts.toNat + 180 ∧ t.dts.toNat ≤ t.out.toNat + 180) ∧
      (turns inc input {}).Pairwise (fun t t' => t.out ≤ t'.out) ∧
      (turns inc input {}).IsChain fun t t' => t'.aligned = true → t'.out.toNat = t.out.toNat + inc.toNat := by
  have hturns := turns_eq hspaced h fun dts _ => (Nat.zero_mul 180).trans_le (Nat.zero_le dts.toNat)
  have hspaced' : (input.map UInt64.toNat).IsChain fun time time' => time + 180 ≤ time' := by
    rw [List.isChain_map]
    exact hspaced
  refine ⟨?_, ?_, ?_⟩
  · intro t ht
    exact Smoothing.near_ticks t.toTick (hturns ▸ List.mem_map_of_mem ht)
  · have hordered : (ticks 180 inc.toNat (expected inc {}) _).Pairwise _ := Smoothing.ordered_ticks hspaced'
    rw [← hturns, List.pairwise_map] at hordered
    exact hordered.imp fun hle => UInt64.le_iff_toNat_le.mpr hle
  · have hfollows : (ticks 180 inc.toNat (expected inc {}) _).IsChain _ := Smoothing.follows_ticks hspaced'
    rw [← hturns, List.isChain_map] at hfollows
    exact hfollows.imp fun _ _ h => h.spaced

/-- Two frames that are aligned and one that comes late. -/
def lateFrame : List UInt64 := [100, 2100, 9000]

theorem turns_smooth_sample :
    (∀ t ∈ turns 2089 lateFrame {}, t.out.toNat ≤ t.dts.toNat + 180 ∧ t.dts.toNat ≤ t.out.toNat + 180) ∧
      (turns 2089 lateFrame {}).Pairwise (fun t t' => t.out ≤ t'.out) ∧
      (turns 2089 lateFrame {}).IsChain (fun t t' => t'.aligned = true → t'.out.toNat = t.out.toNat + 2089) ∧
      (turns 2089 lateFrame {}).map Turn.out = [0, 2089, 9000] := by
  have hspaced : lateFrame.IsChain Spaced := by
    simp [lateFrame, Spaced]
  have hfits : NoOverflow 2089 lateFrame {} := ⟨by decide, by decide, by decide, trivial⟩
  obtain ⟨hnear, hordered, hgrid⟩ := turns_smooth hspaced hfits
  exact ⟨hnear, hordered, hgrid, by decide⟩

end Align

end Hls

end Livego
