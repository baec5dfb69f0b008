import Livego.HlsSource
import Mathlib.Data.List.Induction

/-! What the muxer is handed for the frames of a segment: video at once and audio by groups. The audio cache holds the
group that is not complete. -/

namespace Livego

open Fallible

namespace Hls

/-- A frame on its way to the muxer. -/
inductive Frame where
  | video (p : Packet)
  | audio (data : Bytes) (pts : UInt64)

/-- The packet for a group of audio frames, which has the time of the first. -/
def audioCall (group : List (Bytes × UInt64)) : Packet :=
  audioPacket ((group.head?.map Prod.snd).getD 0) (group.flatMap Prod.fst)

/-- What the muxer has been handed, and the group that waits. -/
structure Mixed where
  calls : List Packet := []
  pending : List (Bytes × UInt64) := []

namespace Mixed

def add (m : Mixed) : Frame → Mixed
  | .video p => { m with calls := m.calls ++ [p] }
  | .audio data pts =>
    let group := m.pending ++ [(data, pts)]
    if group.length < cacheMaxFrames.toNat then { m with pending := group }
    else { calls := m.calls ++ [audioCall group], pending := [] }

/-- What has been handed on once the waiting group is, too. -/
def flush (m : Mixed) : List Packet := if m.pending = [] then m.calls else m.calls ++ [audioCall m.pending]

end Mixed

def mix (frames : List Frame) : Mixed := frames.foldl Mixed.add {}

theorem mix_append (frames : List Frame) (f : Frame) : mix (frames ++ [f]) = (mix frames).add f := by
  rw [mix, List.foldl_append]
  rfl

theorem mix_pending (frames : List Frame) : (mix frames).pending.length < cacheMaxFrames.toNat := by
  induction frames using List.reverseRecOn with
  | nil => decide
  | append_singleton frames f ih =>
      rw [mix_append]
      cases f with
      | video p => exact ih
      | audio data pts =>
          unfold Mixed.add
          dsimp only
          split_ifs with hlt
          · exact hlt
          · exact (by decide : 0 < cacheMaxFrames.toNat)

namespace Frame

def video? : Frame → Option Packet
  | video p => some p
  | audio _ _ => none

def sound : Frame → Bytes
  | video _ => []
  | audio data _ => data

end Frame

def soundOf (calls : List Packet) : Bytes := (calls.filter fun p => !p.isVideo).flatMap (·.data)

theorem soundOf_audioCall (calls : List Packet) (group : List (Bytes × UInt64)) :
    soundOf (calls ++ [audioCall group]) = soundOf calls ++ group.flatMap Prod.fst := by
  rw [soundOf, List.filter_append, List.flatMap_append]
  congr 1
  exact List.append_nil _

/-- The muxer gets the video that it is meant to, frame by frame, and no byte of audio is lost, doubled or moved. -/
theorem mix_keeps {frames : List Frame} (h : ∀ p, .video p ∈ frames → p.isVideo = true) :
    (mix frames).flush.filter (·.isVideo) = frames.filterMap Frame.video? ∧
      soundOf (mix frames).flush = frames.flatMap Frame.sound := by
  have hcalls : (mix frames).calls.filter (·.isVideo) = frames.filterMap Frame.video? ∧
      soundOf (mix frames).calls ++ (mix frames).pending.flatMap Prod.fst = frames.flatMap Frame.sound := by
    induction frames using List.reverseRecOn with
    | nil => exact ⟨rfl, rfl⟩
    | append_singleton frames f ih =>
        obtain ⟨hvideo, hsound⟩ := ih fun p hp => h p (List.mem_append_left _ hp)
        rw [mix_append, List.filterMap_append, List.flatMap_append, ← hvideo, ← hsound]
        cases f with
        | video p =>
            have hp : p.isVideo = true := h p (List.mem_append_right _ List.mem_cons_self)
            constructor
            · simp [Mixed.add, Frame.video?, hp]
            · simp [Mixed.add, Frame.sound, soundOf, hp]
        | audio data pts =>
            unfold Mixed.add
            dsimp only
            split_ifs
            · constructor
              · simp [Frame.video?]
              · simp [Frame.sound]
            · constructor
              · simp [Frame.video?, audioCall, audioPacket]
              · simp [soundOf_audioCall, Frame.sound]
  unfold Mixed.flush
  split_ifs with hnil
  · rw [hnil, List.flatMap_nil, List.append_nil] at hcalls
    exact hcalls
  · rw [soundOf_audioCall, List.filter_append]
    refine ⟨?_, hcalls.2⟩
    rw [← hcalls.1]
    exact List.append_nil _

/-! ### The cache -/

/-- The cache holds this group. -/
structure Caches (cache : AudioCache) (group : List (Bytes × UInt64)) : Prop where
  num : cache.num.toNat = group.length
  pts : ∀ f ∈ group.head?, cache.pts = f.2
  buf : group ≠ [] → cache.buf = group.flatMap Prod.fst

namespace Caches

theorem empty {cache : AudioCache} (h : cache.num = 0) : Caches cache [] := by
  refine ⟨?_, fun f hf => ?_, fun hne => absurd rfl hne⟩
  · rw [h]
    rfl
  · cases hf

theorem cache {cache : AudioCache} {group : List (Bytes × UInt64)} (h : Caches cache group)
    (hlt : group.length < cacheMaxFrames.toNat) (data : Bytes) (pts : UInt64) :
    Caches (cache.cache data pts) (group ++ [(data, pts)]) := by
  have hlimit : cacheMaxFrames.toNat = 6 := rfl
  have hnum := h.num
  cases group with
  | nil =>
      have hzero : cache.num = 0 := UInt8.toNat_inj.mp hnum
      constructor
      · rw [AudioCache.cache, hzero]
        rfl
      · intro f hf
        cases hf
        rw [AudioCache.cache, if_pos hzero]
      · intro _
        rw [AudioCache.cache, if_pos hzero]
        simp
  | cons f group =>
      have hne : cache.num ≠ 0 := by
        intro hzero
        rw [hzero] at hnum
        cases hnum
      constructor
      · rw [AudioCache.cache, if_neg hne]
        simp only [List.length_append, List.length_cons, List.length_nil] at hnum hlt ⊢
        rw [UInt8.toNat_add, hnum, UInt8.toNat_one]
        omega
      · intro g hg
        rw [AudioCache.cache, if_neg hne]
        exact h.pts g hg
      · intro _
        rw [AudioCache.cache, if_neg hne]
        dsimp only
        rw [h.buf (List.cons_ne_nil f group), List.flatMap_append, List.flatMap_singleton]

theorem audioPacket_eq {cache : AudioCache} {group : List (Bytes × UInt64)} (h : Caches cache group)
    (hne : group ≠ []) : audioPacket cache.pts cache.buf = audioCall group := by
  cases group with
  | nil => exact absurd rfl hne
  | cons f group =>
      rw [audioCall, h.buf hne, h.pts f rfl]
      rfl

theorem getFrame (cache : AudioCache) : Caches cache.getFrame.2 [] := empty rfl

end Caches

namespace Source

/-- A flush hands the group to the muxer if there are enough frames in it. -/
theorem muxAudio_eq {source : Source} {group : List (Bytes × UInt64)} (h : Caches source.cache group) (limit : UInt8)
    (hlimit : 0 < limit.toNat) :
    muxAudio limit source =
      if group.length < limit.toNat then .ok () source
      else mux (audioCall group) { source with cache := source.cache.getFrame.2 } := by
  have hiff : source.cache.num < limit ↔ group.length < limit.toNat := by
    rw [UInt8.lt_iff_toNat_lt, h.num]
  rw [muxAudio]
  simp only [hiff]
  split_ifs with hlt
  · rfl
  · have hne : group ≠ [] := by
      rintro rfl
      exact hlt hlimit
    rw [← h.audioPacket_eq hne]
    rfl

/-- With a buffer there `Mux` returns, and its packets are in the buffer. -/
theorem mux_writes {source : Source} {w : List Bytes} (hw : source.btswriter = some w) (hok : Muxer.Ok source.muxer)
    {p : Packet} (hp : Muxer.HasHeader p) :
    ∃ muxer packets, mux p source = .ok () { source with muxer, btswriter := some (w ++ packets) } ∧
      packets ≠ [] ∧ Muxer.Writes (Muxer.mux Muxer.collect p) source.muxer () muxer packets := by
  obtain ⟨muxer, packets, hne, hwrites⟩ := Muxer.writes_mux hp hok
  refine ⟨muxer, packets, ?_, hne, hwrites⟩
  rw [mux, hw]
  dsimp only
  rw [hwrites.call w]

theorem hasHeader_audioCall (group : List (Bytes × UInt64)) : Muxer.HasHeader (audioCall group) := by
  intro hvideo
  cases hvideo

end Source

end Hls

end Livego
