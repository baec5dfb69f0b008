import Livego.AacAdts
import Livego.HlsMixing
import Livego.Logged
import Mathlib.Data.List.Forall2

/-! The audio of an hls source on its way to the muxer. The packets that `muxAudio` hands on are logged: split by the
lengths in the ADTS headers, they are the frames that came, in order, each packet with the time of its first. -/

namespace Livego

open Fallible Call

namespace Hls

/-- A source and the packets that `muxAudio` has passed to `Mux`. -/
abbrev Logged : Type := Source × List Packet

namespace Logged

def muxAudio (limit : UInt8) : Call GoError Logged Unit := fun s =>
  if s.1.cache.num < limit then .ok () s
  else
    let ((_, pts, buf), cache) := s.1.cache.getFrame
    (log (audioPacket pts buf) >>= fun _ => unlogged (Source.mux (audioPacket pts buf))) ({ s.1 with cache }, s.2)

def flushAudio : Call GoError Logged Unit := muxAudio 1

def tsMux (p : AvPacket) : Call GoError Logged Unit := fun s =>
  if p.isVideo then unlogged (Source.mux (toTs p)) s
  else muxAudio cacheMaxFrames ({ s.1 with cache := s.1.cache.cache p.data s.1.pts }, s.2)

def cut (now : Int) : Call GoError Logged Unit := fun s =>
  match s.1.btswriter with
  | none => unlogged (modify fun source => source.writeTables) ({ s.1 with btswriter := some [] }, s.2)
  | some _ =>
    if s.1.stat.durationMs ≥ duration then (do
      let _ ← attempt flushAudio
      unlogged (modify (Source.setItem now))
      unlogged (modify Source.writeTables)) s
    else .ok () s

theorem muxAudio_logs (limit : UInt8) : Logs (muxAudio limit) (Source.muxAudio limit) := by
  intro s
  unfold muxAudio Source.muxAudio
  split_ifs
  · exact ⟨rfl, rfl⟩
  · exact (unlogged_logs _).after_log _ _

theorem tsMux_logs (p : AvPacket) : Logs (tsMux p) (Source.tsMux p) := by
  intro s
  unfold tsMux Source.tsMux
  split_ifs
  · exact unlogged_logs _ s
  · exact muxAudio_logs cacheMaxFrames _

theorem cut_logs (now : Int) : Logs (cut now) (Source.cut now) := by
  intro s
  unfold cut Source.cut
  cases s.1.btswriter with
  | none => exact ⟨rfl, rfl⟩
  | some w =>
      dsimp only
      split_ifs
      · have hflush : Logs flushAudio Source.flushAudio := muxAudio_logs 1
        exact hflush.attempt.bind (fun _ => (unlogged_logs _).bind fun _ => unlogged_logs _) s
      · exact ⟨rfl, rfl⟩

end Logged

/-- What happens to a source between its first cut and its end, as far as the muxer is concerned. The time of a frame is
that of `calcPtsDts`, and the statistics of a cut may be any. -/
inductive Event where
  | sequenceHeader (src : Bytes)
  | frame (raw : Bytes) (pts : UInt64)
  | video (p : AvPacket)
  | cut (now : Int) (stat : Status)

namespace Event

/-- Frames of a length that ADTS can tell, and video with its header. -/
def Proper : Event → Prop
  | frame raw _ => 1 ≤ raw.length ∧ raw.length ≤ 8184
  | video p => p.isVideo = true ∧ p.header ≠ none
  | _ => True

def frames : Event → List (Bytes × UInt64)
  | frame raw pts => [(raw, pts)]
  | _ => []

end Event

namespace Source

def onAac {α : Type} (x : Call GoError Aac.Parser α) : Call GoError Source α := onParser (CodecParser.onAac x)

def handle : Event → Call GoError Source Unit
  | .sequenceHeader src => do
    let _ ← attempt (onAac (Aac.Parser.parse src aacSeqhdr))
    pure ()
  | .frame raw pts => do
    let data ← onAac (Aac.Parser.parse raw aacRaw)
    modify fun source => { source with pts }
    let _ ← attempt (tsMux { isAudio := true, data })
    pure ()
  | .video p => do
    let _ ← attempt (tsMux p)
    pure ()
  | .cut now stat => do
    modify fun source => { source with stat }
    cut now

/-- A stream from its first cut to the last flush. -/
def stream (src : Bytes) (now : Int) (events : List Event) : Call GoError Source Unit := do
  handle (.sequenceHeader src)
  cut now
  forM events handle
  flushAudio

end Source

namespace Logged

def onAac {α : Type} (x : Call GoError Aac.Parser α) : Call GoError Logged α := unlogged (Source.onAac x)

def handle : Event → Call GoError Logged Unit
  | .sequenceHeader src => do
    let _ ← attempt (onAac (Aac.Parser.parse src aacSeqhdr))
    pure ()
  | .frame raw pts => do
    let data ← onAac (Aac.Parser.parse raw aacRaw)
    unlogged (modify fun source => { source with pts })
    let _ ← attempt (tsMux { isAudio := true, data })
    pure ()
  | .video p => do
    let _ ← attempt (tsMux p)
    pure ()
  | .cut now stat => do
    unlogged (modify fun source => { source with stat })
    cut now

def stream (src : Bytes) (now : Int) (events : List Event) : Call GoError Logged Unit := do
  handle (.sequenceHeader src)
  cut now
  forM events handle
  flushAudio

theorem handle_logs (e : Event) : Logs (handle e) (Source.handle e) := by
  cases e with
  | sequenceHeader src => exact (unlogged_logs _).attempt.bind fun _ => pure_logs ()
  | frame raw pts =>
      refine (unlogged_logs _).bind fun data => (unlogged_logs _).bind fun _ => ?_
      exact (tsMux_logs _).attempt.bind fun _ => pure_logs ()
  | video p => exact (tsMux_logs p).attempt.bind fun _ => pure_logs ()
  | cut now stat => exact (unlogged_logs _).bind fun _ => cut_logs now

/-- The log does not change what a source does. -/
theorem stream_logs (src : Bytes) (now : Int) (events : List Event) :
    Logs (stream src now events) (Source.stream src now events) := by
  refine (handle_logs _).bind fun _ => (cut_logs now).bind fun _ => ?_
  exact (Logs.forM fun e _ => handle_logs e).bind fun _ => muxAudio_logs 1

end Logged

/-- A frame with its header, and its time. -/
abbrev Timed : Type := Aac.Adts.Framed × UInt64

namespace Timed

def written (t : Timed) : Bytes × UInt64 := (t.1.1, t.2)

def raw (t : Timed) : Bytes × UInt64 := (t.1.1.drop Aac.adtsHeaderLen, t.2)

end Timed

/-- The packet is of these frames and has the time of the first. -/
structure Carries (p : Packet) (group : List Timed) : Prop where
  data : p.data = group.flatMap fun t => t.1.1
  timeStamp : ∃ t, group.head? = some t ∧ p.timeStamp = t.2.toNat / 90 % 2 ^ 32

theorem carries_audioCall {group : List Timed} (hne : group ≠ []) :
    Carries (audioCall (group.map Timed.written)) group := by
  obtain ⟨t, rest, rfl⟩ := List.exists_cons_of_ne_nil hne
  constructor
  · show ((t :: rest).map Timed.written).flatMap Prod.fst = _
    rw [List.flatMap_map]
    rfl
  · refine ⟨t, rfl, ?_⟩
    show (t.2 / h264DefaultHz).toUInt32.toNat = _
    rw [UInt64.toNat_toUInt32, UInt64.toNat_div]
    rfl

namespace Logged

/-- The log is of these groups, and the cache holds the group that waits. -/
structure Holding (s : Logged) (groups : List (List Timed)) (pending : List Timed) : Prop where
  writer : s.1.btswriter ≠ none
  muxer : Muxer.Ok s.1.muxer
  parser : ∃ aac, s.1.tsparser.aac = some aac ∧ aac.gettedSpecific = true
  cache : Caches s.1.cache (pending.map Timed.written)
  log : List.Forall₂ Carries s.2 groups

variable {s : Logged} {groups : List (List Timed)} {pending : List Timed}

theorem mux_holding (h : Holding s groups pending) {p : Packet} (hp : Muxer.HasHeader p) :
    ∃ s', unlogged (Source.mux p) s = .ok () s' ∧ Holding s' groups pending := by
  obtain ⟨w, hw⟩ := Option.ne_none_iff_exists'.mp h.writer
  obtain ⟨muxer, packets, hmux, -, hwrites⟩ := Source.mux_writes hw h.muxer hp
  exact ⟨_, unlogged_of_ok hmux, Option.some_ne_none _, hwrites.ok, h.parser, h.cache, h.log⟩

/-- The group that waits is handed on if it is long enough. -/
theorem muxAudio_holding (h : Holding s groups pending) {limit : UInt8} (hlimit : 0 < limit.toNat) :
    ∃ s' groups' pending', muxAudio limit s = .ok () s' ∧ Holding s' groups' pending' ∧
      groups'.flatten ++ pending' = groups.flatten ++ pending ∧ pending'.length < limit.toNat := by
  have hnum : s.1.cache.num < limit ↔ pending.length < limit.toNat := by
    rw [UInt8.lt_iff_toNat_lt, h.cache.num, List.length_map]
  unfold muxAudio
  split_ifs with hlt
  · exact ⟨s, groups, pending, rfl, h, rfl, hnum.mp hlt⟩
  · have hne : pending ≠ [] := by
      rintro rfl
      exact hlt (hnum.mpr hlimit)
    have hpacket : audioPacket s.1.cache.pts s.1.cache.buf = audioCall (pending.map Timed.written) :=
      h.cache.audioPacket_eq (by simpa using hne)
    have hlogged : Holding ({ s.1 with cache := s.1.cache.getFrame.2 },
        s.2 ++ [audioCall (pending.map Timed.written)]) (groups ++ [pending]) [] :=
      ⟨h.writer, h.muxer, h.parser, Caches.getFrame _, List.rel_append h.log (.cons (carries_audioCall hne) .nil)⟩
    obtain ⟨s', hmux, h'⟩ := mux_holding hlogged (Source.hasHeader_audioCall _)
    refine ⟨s', _, _, ?_, h', ?_, hlimit⟩
    · rw [← hpacket] at hmux
      exact hmux
    · simp

theorem tsMux_holding (h : Holding s groups pending) (hshort : pending.length < cacheMaxFrames.toNat)
    (t : Timed) (hpts : s.1.pts = t.2) :
    ∃ s' groups' pending', tsMux { isAudio := true, data := t.1.1 } s = .ok () s' ∧ Holding s' groups' pending' ∧
      groups'.flatten ++ pending' = groups.flatten ++ (pending ++ [t]) ∧
      pending'.length < cacheMaxFrames.toNat := by
  have hcache : Caches (s.1.cache.cache t.1.1 s.1.pts) ((pending ++ [t]).map Timed.written) := by
    rw [List.map_append, hpts]
    exact h.cache.cache (by simpa using hshort) t.1.1 t.2
  have hcached : Holding ({ s.1 with cache := s.1.cache.cache t.1.1 s.1.pts }, s.2) groups (pending ++ [t]) :=
    ⟨h.writer, h.muxer, h.parser, hcache, h.log⟩
  exact muxAudio_holding hcached (by decide)

/-- The cut flushes the cache or leaves it. -/
theorem cut_holding (h : Holding s groups pending) (hshort : pending.length < cacheMaxFrames.toNat) (now : Int) :
    ∃ s' groups' pending', cut now s = .ok () s' ∧ Holding s' groups' pending' ∧
      groups'.flatten ++ pending' = groups.flatten ++ pending ∧ pending'.length < cacheMaxFrames.toNat := by
  obtain ⟨w, hw⟩ := Option.ne_none_iff_exists'.mp h.writer
  unfold cut
  rw [hw]
  dsimp only
  split_ifs
  · obtain ⟨s', groups', pending', hflush, h', hkeeps, hnone⟩ := muxAudio_holding h (by decide : 0 < (1 : UInt8).toNat)
    have hflush' : flushAudio s = .ok () s' := hflush
    refine ⟨((Source.setItem now s'.1).writeTables, s'.2), groups', pending', ?_, ?_, hkeeps, hnone.trans (by decide)⟩
    · rw [bind_of_ok (attempt_of_ok hflush')]
      rfl
    · exact ⟨Option.some_ne_none _, h'.muxer, h'.parser, h'.cache, h'.log⟩
  · exact ⟨s, groups, pending, rfl, h, rfl, hshort⟩

theorem onAac_of_ok {α : Type} {x : Call GoError Aac.Parser α} {aac aac' : Aac.Parser} {a : α}
    (haac : s.1.tsparser.aac = some aac) (hx : x aac = .ok a aac') :
    onAac x s = .ok a ({ s.1 with tsparser := { s.1.tsparser with aac := some aac' } }, s.2) := by
  rw [onAac, unlogged, Source.onAac, Source.onParser, CodecParser.onAac, haac, Option.getD_some, hx]

theorem attempt_onAac {α : Type} {x : Call GoError Aac.Parser α} {aac : Aac.Parser} {P : Aac.Parser → Prop}
    (haac : s.1.tsparser.aac = some aac) (hx : (x aac).Sat (fun _ aac' => P aac') (fun _ aac' => P aac') False) :
    ∃ result aac', attempt (onAac x) s =
      .ok result ({ s.1 with tsparser := { s.1.tsparser with aac := some aac' } }, s.2) ∧ P aac' := by
  rw [attempt, onAac, unlogged, Source.onAac, Source.onParser, CodecParser.onAac, haac, Option.getD_some]
  cases hcall : x aac with
  | ok a aac' => exact ⟨_, aac', rfl, by rwa [hcall] at hx⟩
  | err e aac' => exact ⟨_, aac', rfl, by rwa [hcall] at hx⟩
  | panic p => exact absurd hx (by simp [hcall])
  | diverge => exact absurd hx (by simp [hcall])

/-- A sequence header, good or not, does not take the configuration away. -/
theorem parse_header (src : Bytes) {aac : Aac.Parser} (haac : aac.gettedSpecific = true) :
    (Aac.Parser.parse src aacSeqhdr aac).Sat (fun _ aac' => aac'.gettedSpecific = true)
      (fun _ aac' => aac'.gettedSpecific = true) False := by
  match src with
  | [] => exact haac
  | [_] => exact haac
  | _ :: _ :: _ => exact rfl

/-- A frame that comes out with its header. -/
theorem parse_frame {raw : Bytes} (hraw : 1 ≤ raw.length ∧ raw.length ≤ 8184) {aac : Aac.Parser}
    (haac : aac.gettedSpecific = true) :
    ∃ u : Aac.Adts.Framed, Aac.Parser.parse raw aacRaw aac = .ok u.1 aac ∧ u.1.drop Aac.adtsHeaderLen = raw := by
  have hne : raw ≠ [] := List.length_pos_iff.mp hraw.1
  refine ⟨⟨_, Aac.framed_adtsHeader aac hraw.2⟩, ?_, rfl⟩
  show Aac.Parser.adts raw aac = _
  rw [Aac.Parser.adts, if_neg (by simp [hne, haac])]

theorem handle_holding (h : Holding s groups pending) (hshort : pending.length < cacheMaxFrames.toNat) {e : Event}
    (he : e.Proper) :
    ∃ s' groups' pending', handle e s = .ok () s' ∧ Holding s' groups' pending' ∧
      (groups'.flatten ++ pending').map Timed.raw = (groups.flatten ++ pending).map Timed.raw ++ e.frames ∧
      pending'.length < cacheMaxFrames.toNat := by
  obtain ⟨aac, haac, hgetted⟩ := h.parser
  cases e with
  | sequenceHeader src =>
      obtain ⟨result, aac', hparse, hgetted'⟩ := attempt_onAac haac (parse_header src hgetted)
      set s1 : Logged := ({ s.1 with tsparser := { s.1.tsparser with aac := some aac' } }, s.2)
      have h1 : Holding s1 groups pending := ⟨h.writer, h.muxer, ⟨aac', rfl, hgetted'⟩, h.cache, h.log⟩
      refine ⟨s1, groups, pending, ?_, h1, (List.append_nil _).symm, hshort⟩
      rw [handle, bind_of_ok hparse]
      rfl
  | frame raw pts =>
      obtain ⟨u, hparse, hraw⟩ := parse_frame he hgetted
      set s1 : Logged := ({ s.1 with tsparser := { s.1.tsparser with aac := some aac }, pts }, s.2)
      have h1 : Holding s1 groups pending := ⟨h.writer, h.muxer, ⟨aac, rfl, hgetted⟩, h.cache, h.log⟩
      obtain ⟨s', groups', pending', hmux, h', hkeeps, hshort'⟩ := tsMux_holding h1 hshort (u, pts) rfl
      refine ⟨s', groups', pending', ?_, h', ?_, hshort'⟩
      · have hstart : onAac (Aac.Parser.parse raw aacRaw) s = .ok u.1 _ := onAac_of_ok haac hparse
        rw [handle, bind_of_ok hstart]
        show (attempt (tsMux { isAudio := true, data := u.1 }) >>= fun _ => pure ()) s1 = _
        rw [bind_of_ok (attempt_of_ok hmux)]
        rfl
      · have hlast : [((u, pts) : Timed)].map Timed.raw = [(raw, pts)] := congrArg (fun raw => [(raw, pts)]) hraw
        rw [hkeeps, ← List.append_assoc, List.map_append, hlast]
        rfl
  | video p =>
      have hheader : Muxer.HasHeader (toTs p) := by
        intro _
        simpa [toTs] using he.2
      obtain ⟨s', hmux, h'⟩ := mux_holding h hheader
      have hts : tsMux p s = .ok () s' := by
        rw [tsMux, if_pos he.1]
        exact hmux
      refine ⟨s', groups, pending, ?_, h', (List.append_nil _).symm, hshort⟩
      rw [handle, bind_of_ok (attempt_of_ok hts)]
      rfl
  | cut now stat =>
      have h1 : Holding ({ s.1 with stat }, s.2) groups pending := ⟨h.writer, h.muxer, h.parser, h.cache, h.log⟩
      obtain ⟨s', groups', pending', hcut, h', hkeeps, hshort'⟩ := cut_holding h1 hshort now
      refine ⟨s', groups', pending', hcut, h', ?_, hshort'⟩
      rw [hkeeps]
      exact (List.append_nil _).symm

theorem handleAll_holding (h : Holding s groups pending) (hshort : pending.length < cacheMaxFrames.toNat)
    {events : List Event} (hevents : ∀ e ∈ events, e.Proper) :
    ∃ s' groups' pending', forM events handle s = .ok () s' ∧ Holding s' groups' pending' ∧
      (groups'.flatten ++ pending').map Timed.raw =
        (groups.flatten ++ pending).map Timed.raw ++ events.flatMap Event.frames := by
  induction events generalizing s groups pending with
  | nil => exact ⟨s, groups, pending, rfl, h, (List.append_nil _).symm⟩
  | cons e events ih =>
      obtain ⟨s1, groups1, pending1, hhandle, h1, hkeeps1, hshort1⟩ :=
        handle_holding h hshort (hevents e List.mem_cons_self)
      obtain ⟨s2, groups2, pending2, hall, h2, hkeeps2⟩ :=
        ih h1 hshort1 fun e' he' => hevents e' (List.mem_cons_of_mem e he')
      refine ⟨s2, groups2, pending2, ?_, h2, ?_⟩
      · rw [List.forM_cons, bind_of_ok hhandle, hall]
      · rw [hkeeps2, hkeeps1, List.flatMap_cons, List.append_assoc]

/-- The first cut, after which a sequence header has come, leaves nothing in cache and log. -/
theorem begin_holding (key : String) {src : Bytes} (hsrc : 2 ≤ src.length) (now : Int) :
    ∃ s, (handle (.sequenceHeader src) >>= fun _ => cut now) ({ key }, []) = .ok () s ∧ Holding s [] [] := by
  match src, hsrc with
  | b0 :: b1 :: rest, _ =>
    refine ⟨_, rfl, Option.some_ne_none _, Muxer.ok_newMuxer, ⟨_, rfl, rfl⟩, .empty rfl, .nil⟩

end Logged

/-- What was flushed in a packet: the frames in their headers, and the time of the first. -/
structure Flushed (p : Packet) (group : List (Bytes × UInt64)) : Prop where
  frames : Aac.Adts.rawFrames p.data = some (group.map Prod.fst)
  timeStamp : ∃ f, group.head? = some f ∧ p.timeStamp = f.2.toNat / 90 % 2 ^ 32

theorem Carries.flushed {p : Packet} {group : List Timed} (h : Carries p group) : Flushed p (group.map Timed.raw) := by
  obtain ⟨t, hhead, htime⟩ := h.timeStamp
  constructor
  · have hdata : p.data = (group.map Prod.fst).flatMap fun u => u.1 := by
      rw [h.data, List.flatMap_map]
    rw [hdata, Aac.Adts.rawFrames_flatMap, List.map_map, List.map_map]
    rfl
  · exact ⟨t.raw, by rw [List.head?_map, hhead]; rfl, htime⟩

theorem flatMap_carries {log : List Packet} {groups : List (List Timed)} (h : List.Forall₂ Carries log groups) :
    log.flatMap (·.data) = (groups.flatten.map Prod.fst).flatMap fun u => u.1 := by
  induction h with
  | nil => rfl
  | cons hcarries _ ih =>
      rw [List.flatMap_cons, hcarries.data, ih, List.flatten_cons, List.map_append, List.flatMap_append]
      simp only [List.flatMap_map]

/-- Whatever happens between the first cut and the last flush, what `muxAudio` hands on is made up of the frames that came,
and each packet has the time of its first. -/
theorem stream_keeps (key : String) {src : Bytes} (hsrc : 2 ≤ src.length) (now : Int) {events : List Event}
    (hevents : ∀ e ∈ events, e.Proper) :
    ∃ source log groups, Source.stream src now events { key } = .ok () source ∧
      Logged.stream src now events ({ key }, []) = .ok () (source, log) ∧
      Aac.Adts.rawFrames (log.flatMap (·.data)) = some ((events.flatMap Event.frames).map Prod.fst) ∧
      groups.flatten = events.flatMap Event.frames ∧ List.Forall₂ Flushed log groups := by
  obtain ⟨s, hbegin, h⟩ := Logged.begin_holding key hsrc now
  obtain ⟨s1, groups1, pending1, hall, h1, hkeeps1⟩ := Logged.handleAll_holding h (by decide) hevents
  obtain ⟨s2, groups2, pending2, hflush, h2, hkeeps2, hnone⟩ :=
    Logged.muxAudio_holding h1 (by decide : 0 < (1 : UInt8).toNat)
  obtain rfl : pending2 = [] := List.length_eq_zero_iff.mp (Nat.lt_one_iff.mp hnone)
  have hframes : groups2.flatten.map Timed.raw = events.flatMap Event.frames := by
    rw [← List.append_nil groups2.flatten, hkeeps2, hkeeps1]
    rfl
  have hstream : Logged.stream src now events ({ key }, []) = .ok () s2 := by
    obtain ⟨u, s0, hheader, hcut⟩ := bind_eq_ok.mp hbegin
    rw [Logged.stream, bind_of_ok hheader, bind_of_ok hcut, bind_of_ok hall]
    exact hflush
  refine ⟨s2.1, s2.2, groups2.map (List.map Timed.raw), ?_, ?_, ?_, ?_, ?_⟩
  · exact (Logged.stream_logs src now events).of_ok hstream
  · exact hstream
  · rw [flatMap_carries h2.log, Aac.Adts.rawFrames_flatMap, ← hframes, List.map_map, List.map_map]
    rfl
  · rw [← hframes, List.map_flatten]
  · rw [List.forall₂_map_right_iff]
    exact h2.log.imp fun _ _ hcarries => hcarries.flushed

/-- A frame before a cut that flushes it, and two frames behind the cut. -/
def threeFrames : List Event :=
  [.frame [0x21] 900, .cut 104 { lastTimestamp := 3000 }, .frame [0x22, 0x23] 3000, .frame [0x24] 5089]

theorem stream_keeps_sample :
    ∃ source log groups, Source.stream [0x12, 0x10] 100 threeFrames { key := "live/movie" } = .ok () source ∧
      Logged.stream [0x12, 0x10] 100 threeFrames ({ key := "live/movie" }, []) = .ok () (source, log) ∧
      Aac.Adts.rawFrames (log.flatMap (·.data)) = some ((threeFrames.flatMap Event.frames).map Prod.fst) ∧
      groups.flatten = threeFrames.flatMap Event.frames ∧ List.Forall₂ Flushed log groups := by
  have hproper : ∀ e ∈ threeFrames, e.Proper := by
    simp [threeFrames, Event.Proper]
  exact stream_keeps "live/movie" (by decide) 100 hproper

end Hls

end Livego
