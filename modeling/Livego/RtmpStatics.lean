import Livego.Basic
import Livego.Each
import Mathlib.Data.List.Induction
import Mathlib.Data.UInt
import Mathlib.Tactic.Abel

/-! The bandwidth of a reader or a writer: its bytes in total, and their speed over the last of the windows of five seconds
or more in which its calls come. -/

namespace Livego

open Fallible

/-- The bandwidth of audio and of video, with all that is not video as audio. -/
structure StaticsBW where
  streamId : UInt32 := 0
  videoDatainBytes : UInt64 := 0
  lastVideoDatainBytes : UInt64 := 0
  videoSpeedInBytesperMS : UInt64 := 0
  audioDatainBytes : UInt64 := 0
  lastAudioDatainBytes : UInt64 := 0
  audioSpeedInBytesperMS : UInt64 := 0
  lastTimestamp : Int := 0
  deriving DecidableEq, Repr

namespace StaticsBW

def saveStaticsInterval : Int := 5000

/-- A call of `SaveStatics`, and what `time.Now().UnixNano()` is in it. -/
structure Sample where
  streamid : UInt32
  length : UInt64
  isVideoFlag : Bool
  unixNano : Int64
  deriving DecidableEq, Repr

/-- The quotient by a million has room enough in an `int64` that no difference of two of them wraps. -/
def Sample.nowInMS (x : Sample) : Int := x.unixNano.toInt.tdiv 1000000

section
variable {ε : Type}

/-- Division of two `uint64` values. -/
def div64 (a b : UInt64) : Call ε StaticsBW UInt64 := if b = 0 then Call.panic .divideByZero else pure (a / b)

def addBytes (x : Sample) (bw : StaticsBW) : StaticsBW :=
  let bw := { bw with streamId := x.streamid }
  if x.isVideoFlag then { bw with videoDatainBytes := bw.videoDatainBytes + x.length }
  else { bw with audioDatainBytes := bw.audioDatainBytes + x.length }

def saveStatics (x : Sample) : Call ε StaticsBW Unit := do
  Call.modify (addBytes x)
  let bw ← Call.get
  if bw.lastTimestamp = 0 then Call.modify fun bw => { bw with lastTimestamp := x.nowInMS }
  else if x.nowInMS - bw.lastTimestamp ≥ saveStaticsInterval then do
    let diffTimestamp := (x.nowInMS - bw.lastTimestamp).tdiv 1000
    let video ← div64 ((bw.videoDatainBytes - bw.lastVideoDatainBytes) * 8) (UInt64.ofInt diffTimestamp)
    let audio ← div64 ((bw.audioDatainBytes - bw.lastAudioDatainBytes) * 8) (UInt64.ofInt diffTimestamp)
    Call.modify fun bw => { bw with
      videoSpeedInBytesperMS := video / 1000
      audioSpeedInBytesperMS := audio / 1000
      lastVideoDatainBytes := bw.videoDatainBytes
      lastAudioDatainBytes := bw.audioDatainBytes
      lastTimestamp := x.nowInMS }
  else pure ()

end

/-! ### Windows -/

/-- The bytes of these calls, of video or of what is not. -/
def bytes (isVideoFlag : Bool) (xs : List Sample) : UInt64 :=
  ((xs.filter fun x => x.isVideoFlag = isVideoFlag).map Sample.length).sum

/-- The calls of a window. It begins where the one before has ended, and ends with its last call. -/
structure Window where
  start : Int
  calls : List Sample
  stop : Int

namespace Window

/-- The last call comes five seconds or more after the start, and the ones before it come sooner. -/
def Complete (w : Window) : Prop := ∃ front last, w.calls = front ++ [last] ∧ w.stop = last.nowInMS ∧
  (∀ x ∈ front, x.nowInMS - w.start < saveStaticsInterval) ∧ saveStaticsInterval ≤ w.stop - w.start

/-- In bits for each millisecond, with the milliseconds of whole seconds only. -/
def speed (isVideoFlag : Bool) (w : Window) : UInt64 :=
  bytes isVideoFlag w.calls * 8 / UInt64.ofInt ((w.stop - w.start).tdiv 1000) / 1000

end Window

/-- Windows from `t` on, each beginning where the one before it ends. -/
inductive Windows (t : Int) : List Window → Int → Prop where
  | nil : Windows t [] t
  | snoc {ws : List Window} {w : Window} (hws : Windows t ws w.start) (hw : w.Complete) : Windows t (ws ++ [w]) w.stop

/-- What the statistics say once `xs` were called: the calls make up windows and the calls since. -/
structure Measured (xs : List Sample) (bw : StaticsBW) (ws : List Window) (rest : List Sample) : Prop where
  calls : xs = ws.flatMap Window.calls ++ rest
  windows : Windows ((xs.head?.map Sample.nowInMS).getD 0) ws bw.lastTimestamp
  recent : ∀ x ∈ rest, x.nowInMS - bw.lastTimestamp < saveStaticsInterval
  streamId : bw.streamId = (xs.getLast?.map Sample.streamid).getD 0
  video : bw.videoDatainBytes = bytes true xs
  audio : bw.audioDatainBytes = bytes false xs
  lastVideo : bw.videoDatainBytes - bw.lastVideoDatainBytes = bytes true rest
  lastAudio : bw.audioDatainBytes - bw.lastAudioDatainBytes = bytes false rest
  videoSpeed : bw.videoSpeedInBytesperMS = (ws.getLast?.map (Window.speed true)).getD 0
  audioSpeed : bw.audioSpeedInBytesperMS = (ws.getLast?.map (Window.speed false)).getD 0

/-! ### What a call does -/

theorem nowInMS_bounds (x : Sample) : -2 ^ 63 ≤ x.nowInMS ∧ x.nowInMS ≤ 2 ^ 63 := by
  have hlow := x.unixNano.le_toInt
  have hhigh := x.unixNano.toInt_lt
  have habs : x.nowInMS.natAbs = x.unixNano.toInt.natAbs / 1000000 := Int.natAbs_tdiv _ _
  omega

theorem div64_of_ne {ε : Type} {a b : UInt64} (h : b ≠ 0) : (div64 a b : Call ε StaticsBW UInt64) = pure (a / b) := if_neg h

/-- The seconds of a window are not zero. -/
theorem ofInt_seconds_ne_zero {d : Int} (hlow : saveStaticsInterval ≤ d) (hhigh : d ≤ 2 ^ 64) :
    UInt64.ofInt (d.tdiv 1000) ≠ 0 := by
  have hinterval : saveStaticsInterval = 5000 := rfl
  have hdiv : d.tdiv 1000 = d / 1000 := Int.tdiv_eq_ediv_of_nonneg (by omega)
  intro hzero
  have hnat := congrArg UInt64.toNat hzero
  simp only [UInt64.ofInt, hdiv, UInt64.toNat_ofNat', UInt64.toNat_zero] at hnat
  omega

variable {ε : Type} {bw : StaticsBW} {x : Sample}

theorem lastTimestamp_addBytes (x : Sample) (bw : StaticsBW) : (addBytes x bw).lastTimestamp = bw.lastTimestamp := by
  rw [addBytes]
  dsimp only
  split_ifs
  · rfl
  · rfl

theorem saveStatics_first (h : bw.lastTimestamp = 0) :
    (saveStatics x : Call ε StaticsBW Unit) bw = .ok () { addBytes x bw with lastTimestamp := x.nowInMS } := by
  have hlast : (addBytes x bw).lastTimestamp = 0 := (lastTimestamp_addBytes x bw).trans h
  rw [saveStatics, Call.bind_of_ok (Call.modify_apply _ _), Call.get_bind_apply, if_pos hlast]
  rfl

theorem saveStatics_within (h : bw.lastTimestamp ≠ 0) (hlt : x.nowInMS - bw.lastTimestamp < saveStaticsInterval) :
    (saveStatics x : Call ε StaticsBW Unit) bw = .ok () (addBytes x bw) := by
  have hlast := lastTimestamp_addBytes x bw
  rw [saveStatics, Call.bind_of_ok (Call.modify_apply _ _), Call.get_bind_apply, hlast, if_neg h, if_neg (by omega)]
  rfl

theorem saveStatics_closes (h : bw.lastTimestamp ≠ 0) (hbound : -2 ^ 63 ≤ bw.lastTimestamp)
    (hge : saveStaticsInterval ≤ x.nowInMS - bw.lastTimestamp) :
    (saveStatics x : Call ε StaticsBW Unit) bw = .ok () { addBytes x bw with
      videoSpeedInBytesperMS := ((addBytes x bw).videoDatainBytes - (addBytes x bw).lastVideoDatainBytes) * 8 /
        UInt64.ofInt ((x.nowInMS - bw.lastTimestamp).tdiv 1000) / 1000
      audioSpeedInBytesperMS := ((addBytes x bw).audioDatainBytes - (addBytes x bw).lastAudioDatainBytes) * 8 /
        UInt64.ofInt ((x.nowInMS - bw.lastTimestamp).tdiv 1000) / 1000
      lastVideoDatainBytes := (addBytes x bw).videoDatainBytes
      lastAudioDatainBytes := (addBytes x bw).audioDatainBytes
      lastTimestamp := x.nowInMS } := by
  have hlast := lastTimestamp_addBytes x bw
  have hnow := nowInMS_bounds x
  have hseconds := ofInt_seconds_ne_zero hge (by omega)
  rw [saveStatics, Call.bind_of_ok (Call.modify_apply _ _), Call.get_bind_apply, hlast, if_neg h, if_pos hge]
  dsimp only
  rw [div64_of_ne hseconds, Call.pure_bind, div64_of_ne hseconds, Call.pure_bind]
  rfl

/-! ### What all calls come to -/

theorem bytes_append (flag : Bool) (xs ys : List Sample) : bytes flag (xs ++ ys) = bytes flag xs + bytes flag ys := by
  rw [bytes, List.filter_append, List.map_append, List.sum_append, bytes, bytes]

theorem addBytes_eq (x : Sample) (bw : StaticsBW) : addBytes x bw = { bw with
    streamId := x.streamid
    videoDatainBytes := bw.videoDatainBytes + bytes true [x]
    audioDatainBytes := bw.audioDatainBytes + bytes false [x] } := by
  cases hflag : x.isVideoFlag with
  | false => simp [addBytes, bytes, hflag]
  | true => simp [addBytes, bytes, hflag]

/-- Behind the first call, which sets the time. -/
structure Running (xs : List Sample) (bw : StaticsBW) : Prop where
  measured : ∃ ws rest, Measured xs bw ws rest
  lastTimestamp : bw.lastTimestamp ≠ 0
  bound : -2 ^ 63 ≤ bw.lastTimestamp
  ne_nil : xs ≠ []

theorem running_first (hx : x.nowInMS ≠ 0) :
    Running [x] { addBytes x {} with lastTimestamp := x.nowInMS } := by
  refine ⟨⟨[], [x], ?_⟩, hx, (nowInMS_bounds x).1, List.cons_ne_nil x []⟩
  rw [addBytes_eq]
  refine ⟨rfl, .nil, ?_, rfl, ?_, ?_, ?_, ?_, rfl, rfl⟩
  · intro y hy
    rw [List.mem_singleton.mp hy]
    exact (by decide : (0 : Int) < 5000).trans_le' (by simp)
  · exact zero_add _
  · exact zero_add _
  · simp
  · simp

theorem Running.next {xs : List Sample} (h : Running xs bw) (hx : x.nowInMS ≠ 0) :
    ∃ bw', (saveStatics x : Call ε StaticsBW Unit) bw = .ok () bw' ∧ Running (xs ++ [x]) bw' := by
  obtain ⟨ws, rest, hm⟩ := h.measured
  have hhead : (xs ++ [x]).head? = xs.head? := List.head?_append_of_ne_nil xs h.ne_nil
  have hstream : ((xs ++ [x]).getLast?.map Sample.streamid).getD 0 = x.streamid := by
    rw [List.getLast?_concat]
    rfl
  have hvideo : bw.videoDatainBytes + bytes true [x] = bytes true (xs ++ [x]) := by rw [bytes_append, hm.video]
  have haudio : bw.audioDatainBytes + bytes false [x] = bytes false (xs ++ [x]) := by rw [bytes_append, hm.audio]
  have hlastVideo : bw.videoDatainBytes + bytes true [x] - bw.lastVideoDatainBytes = bytes true (rest ++ [x]) := by
    rw [bytes_append, ← hm.lastVideo]
    abel
  have hlastAudio : bw.audioDatainBytes + bytes false [x] - bw.lastAudioDatainBytes = bytes false (rest ++ [x]) := by
    rw [bytes_append, ← hm.lastAudio]
    abel
  by_cases hlt : x.nowInMS - bw.lastTimestamp < saveStaticsInterval
  · refine ⟨_, saveStatics_within h.lastTimestamp hlt, ?_⟩
    rw [addBytes_eq]
    refine ⟨⟨ws, rest ++ [x], ?_⟩, h.lastTimestamp, h.bound, by simp⟩
    refine ⟨?_, ?_, ?_, hstream.symm, hvideo, haudio, hlastVideo, hlastAudio, hm.videoSpeed, hm.audioSpeed⟩
    · rw [← List.append_assoc, ← hm.calls]
    · rw [hhead]
      exact hm.windows
    · exact List.forall_mem_append.mpr ⟨hm.recent, List.forall_mem_singleton.mpr hlt⟩
  · have hge : saveStaticsInterval ≤ x.nowInMS - bw.lastTimestamp := not_lt.mp hlt
    let w : Window := { start := bw.lastTimestamp, calls := rest ++ [x], stop := x.nowInMS }
    have hcomplete : w.Complete := ⟨rest, x, rfl, rfl, hm.recent, hge⟩
    refine ⟨_, saveStatics_closes h.lastTimestamp h.bound hge, ?_⟩
    rw [addBytes_eq]
    refine ⟨⟨ws ++ [w], [], ?_⟩, hx, (nowInMS_bounds x).1, by simp⟩
    refine ⟨?_, ?_, by simp, hstream.symm, hvideo, haudio, ?_, ?_, ?_, ?_⟩
    · rw [List.flatMap_append, List.flatMap_singleton, List.append_nil, ← List.append_assoc, ← hm.calls]
    · rw [hhead]
      exact .snoc hm.windows hcomplete
    · exact sub_self _
    · exact sub_self _
    · dsimp only
      rw [hlastVideo, List.getLast?_concat]
      rfl
    · dsimp only
      rw [hlastAudio, List.getLast?_concat]
      rfl

/-- No call divides by zero, and behind any calls the totals are those of all of them and the speeds those of the last
window that is complete. -/
theorem saveStatics_measures (xs : List Sample) (hxs : ∀ x ∈ xs, x.nowInMS ≠ 0) :
    ∃ bw ws rest, (forM xs saveStatics : Call ε StaticsBW Unit) {} = .ok () bw ∧ Measured xs bw ws rest := by
  cases xs with
  | nil => exact ⟨{}, [], [], rfl, rfl, .nil, by simp, rfl, rfl, rfl, rfl, rfl, rfl, rfl⟩
  | cons x xs =>
      rw [List.forall_mem_cons] at hxs
      obtain ⟨hx, hxs⟩ := hxs
      obtain ⟨bw, hrun, hrunning⟩ : ∃ bw, (forM (x :: xs) saveStatics : Call ε StaticsBW Unit) {} = .ok () bw ∧
          Running (x :: xs) bw := by
        induction xs using List.reverseRecOn with
        | nil =>
            refine ⟨_, ?_, running_first hx⟩
            rw [Call.forM_one]
            exact saveStatics_first rfl
        | append_singleton xs y ih =>
            obtain ⟨hxs, hy⟩ := List.forall_mem_append.mp hxs
            obtain ⟨bw, hrun, hrunning⟩ := ih hxs
            obtain ⟨bw', hnext, hrunning'⟩ := hrunning.next (ε := ε) (hy y List.mem_cons_self)
            refine ⟨bw', ?_, hrunning'⟩
            rw [← List.cons_append, Call.forM_concat, Call.bind_of_ok hrun, hnext]
      obtain ⟨ws, rest, hm⟩ := hrunning.measured
      exact ⟨bw, ws, rest, hrun, hm⟩

/-- 1000 bytes of video, 6.5 seconds later 9000 more, and audio after that. -/
def threeSamples : List Sample :=
  [⟨1, 1000, true, 1700000000000000000⟩, ⟨1, 9000, true, 1700000006500000000⟩, ⟨1, 300, false, 1700000007000000000⟩]

theorem saveStatics_measures_threeSamples :
    ∃ bw ws rest, (forM threeSamples saveStatics : Call GoError StaticsBW Unit) {} = .ok () bw ∧
      Measured threeSamples bw ws rest :=
  saveStatics_measures threeSamples (by decide)

end StaticsBW

end Livego
