import Livego.HlsMixing
import Livego.HlsAdmission
import Mathlib.Data.List.Forall2

/-! The segments of an hls source. What they and the open buffer hold, in order, is what the muxer wrote for the frames
that were accepted from the first key frame on. -/

namespace Livego

open Fallible

namespace Hls

/-- What becomes of an accepted frame. The time of audio is that of the smoothed clock. -/
def Frame.Of (p : AvPacket) : Frame → Prop
  | .video q => p.isVideo = true ∧ q = toTs p
  | .audio data _ => p.isVideo = false ∧ data = p.data

/-- What is accepted between two cuts, what becomes of it, and the calls of `Mux` with what each of them wrote. -/
structure Stretch where
  accepted : List AvPacket := []
  frames : List Frame := []
  calls : List (Packet × List Bytes) := []

namespace Stretch

def packets (s : Stretch) : List Bytes := s.calls.flatMap Prod.snd

/-- The bytes are two tables and what the muxer wrote when it was handed `handed`. -/
structure Holds (s : Stretch) (handed : List Packet) (data : Bytes) : Prop where
  frames : List.Forall₂ Frame.Of s.accepted s.frames
  calls : s.calls.map Prod.fst = handed
  whole : ∀ c ∈ s.calls, c.2 ≠ [] ∧ ∀ b ∈ c.2, b.length = tsPacketLen
  keyFrame : ∀ p ∈ s.accepted.head?, p.isKeyFrame = true
  data : ∃ pat pmt, data = TsTables.patBytes pat ++ TsTables.pmtBytes soundAac true pmt ++ s.packets.flatten

variable {s : Stretch} {handed : List Packet} {data : Bytes}

theorem Holds.call (h : s.Holds handed data) {p : Packet} {packets : List Bytes} (hne : packets ≠ [])
    (hwhole : ∀ b ∈ packets, b.length = tsPacketLen) :
    ({ s with calls := s.calls ++ [(p, packets)] } : Stretch).Holds (handed ++ [p]) (data ++ packets.flatten) := by
  obtain ⟨pat, pmt, hdata⟩ := h.data
  refine ⟨h.frames, ?_, ?_, h.keyFrame, pat, pmt, ?_⟩
  · rw [List.map_append, h.calls]
    rfl
  · intro c hc
    rcases List.mem_append.mp hc with hc | hc
    · exact h.whole c hc
    · rw [List.mem_singleton.mp hc]
      exact ⟨hne, hwhole⟩
  · rw [hdata]
    simp [Stretch.packets]

theorem Holds.accept (h : s.Holds handed data) {p : AvPacket} {f : Frame} (hof : Frame.Of p f)
    (hkey : s.accepted = [] → p.isKeyFrame = true) :
    ({ s with accepted := s.accepted ++ [p], frames := s.frames ++ [f] } : Stretch).Holds handed data := by
  refine ⟨List.rel_append h.frames (.cons hof .nil), h.calls, h.whole, ?_, h.data⟩
  intro q hq
  cases haccepted : s.accepted with
  | nil =>
      rw [haccepted] at hq
      cases hq
      exact hkey haccepted
  | cons p' accepted =>
      apply h.keyFrame q
      rw [haccepted] at hq ⊢
      exact hq

end Stretch

/-- Buffer and muxer of a source while a stretch lasts, behind the calls of the stretches before it. -/
structure Muxing (past : List (Packet × List Bytes)) (muxer : Muxer) (w : List Bytes) (s : Stretch)
    (handed : List Packet) : Prop where
  holds : s.Holds handed w.flatten
  muxes : Muxer.Muxes Muxer.newMuxer (past ++ s.calls) muxer
  ok : Muxer.Ok muxer

namespace Source

variable {past : List (Packet × List Bytes)} {source : Source} {w : List Bytes} {s : Stretch} {handed : List Packet}

theorem mux_muxing (hw : source.btswriter = some w) (h : Muxing past source.muxer w s handed) {p : Packet}
    (hp : Muxer.HasHeader p) :
    ∃ muxer packets, mux p source = .ok () { source with muxer, btswriter := some (w ++ packets) } ∧
      Muxing past muxer (w ++ packets) { s with calls := s.calls ++ [(p, packets)] } (handed ++ [p]) := by
  obtain ⟨muxer, packets, hmux, hne, hwrites⟩ := mux_writes hw h.ok hp
  refine ⟨muxer, packets, hmux, ?_, ?_, hwrites.ok⟩
  · rw [List.flatten_append]
    exact h.holds.call hne hwrites.whole
  · dsimp only
    rw [← List.append_assoc]
    exact h.muxes.snoc hwrites.call

/-- The waiting group goes to the muxer. -/
theorem flushAudio_muxing {m : Mixed} (hw : source.btswriter = some w) (h : Muxing past source.muxer w s m.calls)
    (hcache : Caches source.cache m.pending) :
    ∃ muxer w' cache calls, flushAudio source = .ok () { source with muxer, btswriter := some w', cache } ∧
      Muxing past muxer w' { s with calls := s.calls ++ calls } m.flush ∧ Caches cache [] := by
  rw [flushAudio, muxAudio_eq hcache 1 (by decide), Mixed.flush]
  cases hpending : m.pending with
  | nil =>
      refine ⟨source.muxer, w, source.cache, [], ?_, ?_, ?_⟩
      · rw [← hw]
        rfl
      · rw [if_pos rfl, List.append_nil]
        exact h
      · rwa [hpending] at hcache
  | cons f group =>
      have hw' : ({ source with cache := source.cache.getFrame.2 } : Source).btswriter = some w := hw
      obtain ⟨muxer, packets, hmux, hmuxing⟩ := mux_muxing hw' h (hasHeader_audioCall (f :: group))
      rw [if_neg (by simp), if_neg (by simp), hmux]
      exact ⟨muxer, _, _, _, rfl, hmuxing, Caches.getFrame source.cache⟩

theorem tsMux_muxing (hw : source.btswriter = some w) (h : Muxing past source.muxer w s (mix s.frames).calls)
    (hcache : Caches source.cache (mix s.frames).pending) {p : AvPacket} (hp : p.header ≠ none) :
    ∃ f muxer w' cache calls, Frame.Of p f ∧
      tsMux p source = .ok () { source with muxer, btswriter := some w', cache } ∧
      Muxing past muxer w' { s with calls := s.calls ++ calls } (mix (s.frames ++ [f])).calls ∧
      Caches cache (mix (s.frames ++ [f])).pending := by
  unfold tsMux
  cases hvideo : p.isVideo with
  | true =>
      have hheader : Muxer.HasHeader (toTs p) := by
        intro _
        simpa [toTs] using hp
      obtain ⟨muxer, packets, hmux, hmuxing⟩ := mux_muxing hw h hheader
      refine ⟨.video (toTs p), muxer, _, source.cache, [(toTs p, packets)], ⟨hvideo, rfl⟩, hmux, ?_, ?_⟩
      · rw [mix_append]
        exact hmuxing
      · rw [mix_append]
        exact hcache
  | false =>
      have hlimit : cacheMaxFrames.toNat = 6 := rfl
      set group := (mix s.frames).pending ++ [(p.data, source.pts)] with hgroup
      have hcaches := hcache.cache (mix_pending s.frames) p.data source.pts
      rw [if_neg Bool.false_ne_true, muxAudio_eq hcaches cacheMaxFrames (by decide), ← hgroup]
      rw [← hgroup] at hcaches
      by_cases hlt : group.length < cacheMaxFrames.toNat
      · have hmix : mix (s.frames ++ [.audio p.data source.pts]) =
            { calls := (mix s.frames).calls, pending := group } := by
          rw [mix_append, Mixed.add, ← hgroup, if_pos hlt]
        refine ⟨.audio p.data source.pts, source.muxer, w, source.cache.cache p.data source.pts, [], ⟨hvideo, rfl⟩,
          ?_, ?_, ?_⟩
        · rw [if_pos hlt, ← hw]
        · rw [hmix, List.append_nil]
          exact h
        · rw [hmix]
          exact hcaches
      · have hmix : mix (s.frames ++ [.audio p.data source.pts]) =
            { calls := (mix s.frames).calls ++ [audioCall group], pending := [] } := by
          rw [mix_append, Mixed.add, ← hgroup, if_neg hlt]
        have hw' : ({ source with cache := (source.cache.cache p.data source.pts).getFrame.2 } : Source).btswriter =
            some w := hw
        obtain ⟨muxer, packets, hmux, hmuxing⟩ := mux_muxing hw' h (hasHeader_audioCall group)
        rw [if_neg hlt, hmux]
        refine ⟨.audio p.data source.pts, muxer, _, _, [(audioCall group, packets)], ⟨hvideo, rfl⟩, rfl, ?_, ?_⟩
        · rw [hmix]
          exact hmuxing
        · rw [hmix]
          exact Caches.getFrame _

end Source

/-- A source in whose buffer there is a stretch. -/
structure Filling (past : List (Packet × List Bytes)) (source : Source) (s : Stretch) : Prop where
  muxing : ∃ w, source.btswriter = some w ∧ Muxing past source.muxer w s (mix s.frames).calls
  cache : Caches source.cache (mix s.frames).pending
  begun : source.stat.hasSetFirstTs = !s.accepted.isEmpty
  first : ∀ p ∈ s.accepted.head?, source.stat.firstTimestamp = p.timeStamp
  last : ∀ p ∈ s.accepted.getLast?, source.stat.lastTimestamp = p.timeStamp

/-- What a frame and a short stretch leave of a source. -/
structure Unsegmented (source source' : Source) : Prop where
  seq : source'.seq = source.seq
  setItems : source'.setItems = source.setItems
  tsparser : source'.tsparser = source.tsparser

/-- A segment: whole packets, first two tables and then the first of a key frame, and no less than the duration. -/
structure IsSegment (item : TSItem) (s : Stretch) : Prop where
  holds : s.Holds (mix s.frames).flush item.data
  length : tsPacketLen ∣ item.data.length
  starts : ∃ p own pat pmt more, s.accepted.head? = some p ∧ p.isKeyFrame = true ∧ s.calls.head? = some (toTs p, own) ∧
    own ≠ [] ∧ item.data = TsTables.patBytes pat ++ TsTables.pmtBytes soundAac true pmt ++ own.flatten ++ more
  long : ∃ first last, s.accepted.head? = some first ∧ s.accepted.getLast? = some last ∧
    first.timeStamp + 3000 ≤ last.timeStamp

theorem mix_head (p : Packet) (frames : List Frame) : (mix (.video p :: frames)).calls.head? = some p := by
  induction frames using List.reverseRecOn with
  | nil => rfl
  | append_singleton frames f ih =>
      have hhead : ∀ calls : List Packet, ((mix (.video p :: frames)).calls ++ calls).head? = some p := by
        intro calls
        rw [List.head?_append, ih]
        rfl
      rw [← List.cons_append, mix_append]
      cases f with
      | video q => exact hhead [q]
      | audio data pts =>
          unfold Mixed.add
          dsimp only
          split_ifs
          · exact ih
          · exact hhead _

theorem flush_head (p : Packet) (frames : List Frame) : (mix (.video p :: frames)).flush.head? = some p := by
  unfold Mixed.flush
  split_ifs
  · exact mix_head p frames
  · rw [List.head?_append, mix_head]
    rfl

theorem dvd_length_flatten {n : Nat} {bs : List Bytes} (h : ∀ b ∈ bs, b.length = n) : n ∣ bs.flatten.length := by
  induction bs with
  | nil => exact Nat.dvd_zero n
  | cons b bs ih =>
      rw [List.flatten_cons, List.length_append, h b List.mem_cons_self]
      exact Nat.dvd_add (Nat.dvd_refl n) (ih fun c hc => h c (List.mem_cons_of_mem b hc))

namespace Stretch

variable {s : Stretch} {handed : List Packet} {data : Bytes}

theorem Holds.length (h : s.Holds handed data) : tsPacketLen ∣ data.length := by
  obtain ⟨pat, pmt, hdata⟩ := h.data
  have hwhole : ∀ b ∈ s.packets, b.length = tsPacketLen := by
    intro b hb
    obtain ⟨c, hc, hb⟩ := List.mem_flatMap.mp hb
    exact (h.whole c hc).2 b hb
  rw [hdata, List.length_append, List.length_append, TsTables.patBytes_length, TsTables.pmtBytes_length]
  exact Nat.dvd_add ⟨2, rfl⟩ (dvd_length_flatten hwhole)

/-- The first call is for the key frame with which the stretch begins. -/
theorem Holds.starts (h : s.Holds (mix s.frames).flush data) (hne : s.accepted ≠ []) :
    ∃ p own pat pmt more, s.accepted.head? = some p ∧ p.isKeyFrame = true ∧ s.calls.head? = some (toTs p, own) ∧
      own ≠ [] ∧ data = TsTables.patBytes pat ++ TsTables.pmtBytes soundAac true pmt ++ own.flatten ++ more := by
  obtain ⟨p, accepted, haccepted⟩ := List.exists_cons_of_ne_nil hne
  have hkey : p.isKeyFrame = true := h.keyFrame p (by rw [haccepted]; rfl)
  have hvideo : p.isVideo = true := by
    unfold AvPacket.isKeyFrame at hkey
    exact (Bool.and_eq_true_iff.mp hkey).1
  have hframes := h.frames
  rw [haccepted] at hframes
  obtain ⟨f, frames, hof, -, hcons⟩ := List.forall₂_cons_left_iff.mp hframes
  have hvideoFrame : f = .video (toTs p) := by
    cases f with
    | video q => rw [hof.2]
    | audio data pts =>
        rw [hof.1] at hvideo
        cases hvideo
  have hhead := flush_head (toTs p) frames
  rw [← hvideoFrame, ← hcons, ← h.calls, List.head?_map, Option.map_eq_some_iff] at hhead
  obtain ⟨⟨q, own⟩, hcall, rfl⟩ := hhead
  obtain ⟨calls, hcalls⟩ := List.head?_eq_some_iff.mp hcall
  obtain ⟨pat, pmt, hdata⟩ := h.data
  refine ⟨p, own, pat, pmt, (calls.flatMap Prod.snd).flatten, by rw [haccepted]; rfl, hkey, hcall, ?_, ?_⟩
  · exact (h.whole _ (List.mem_of_mem_head? hcall)).1
  · rw [hdata, Stretch.packets, hcalls, List.flatMap_cons, List.flatten_append, List.append_assoc _ own.flatten]

end Stretch

theorem keeps_of_forall₂ {accepted : List AvPacket} {frames : List Frame} (h : List.Forall₂ Frame.Of accepted frames) :
    (∀ p, .video p ∈ frames → p.isVideo = true) ∧
      frames.filterMap Frame.video? = (accepted.filter (·.isVideo)).map toTs ∧
      frames.flatMap Frame.sound = (accepted.filter fun p => !p.isVideo).flatMap (·.data) := by
  induction h with
  | nil => exact ⟨fun p hp => absurd hp List.not_mem_nil, rfl, rfl⟩
  | @cons p f accepted frames hof _ ih =>
      obtain ⟨hvideos, hvideo, hsound⟩ := ih
      cases f with
      | video q =>
          obtain ⟨hp, rfl⟩ := hof
          refine ⟨fun q hq => ?_, ?_, ?_⟩
          · rcases List.mem_cons.mp hq with hq | hq
            · cases hq
              exact hp
            · exact hvideos q hq
          · simp [Frame.video?, hp, hvideo]
          · simp [Frame.sound, hp, hsound]
      | audio data pts =>
          obtain ⟨hp, rfl⟩ := hof
          refine ⟨fun q hq => ?_, ?_, ?_⟩
          · rcases List.mem_cons.mp hq with hq | hq
            · cases hq
            · exact hvideos q hq
          · rw [List.filterMap_cons_none rfl, hvideo, List.filter_cons_of_neg (by simp [hp])]
          · simp [Frame.sound, hp, hsound]

/-- A segment has the video of what was accepted for it, frame by frame, and all of the audio. -/
theorem IsSegment.keeps {item : TSItem} {s : Stretch} (h : IsSegment item s) :
    (s.calls.map Prod.fst).filter (·.isVideo) = (s.accepted.filter (·.isVideo)).map toTs ∧
      soundOf (s.calls.map Prod.fst) = (s.accepted.filter fun p => !p.isVideo).flatMap (·.data) := by
  obtain ⟨hvideos, hvideo, hsound⟩ := keeps_of_forall₂ h.holds.frames
  obtain ⟨hcalls, hsounds⟩ := mix_keeps hvideos
  rw [h.holds.calls, hcalls, hsounds]
  exact ⟨hvideo, hsound⟩

/-! ### What a turn does to the stretch -/

namespace Source

variable {past : List (Packet × List Bytes)} {source : Source} {s : Stretch}

theorem calcPtsDts_ok {isVideo : Bool} (haac : isVideo = false → source.tsparser.aac ≠ none) (ts : Nat)
    (compositionTs : UInt32) :
    ∃ pts dts align, calcPtsDts isVideo ts compositionTs source = .ok () { source with pts, dts, align } := by
  unfold calcPtsDts
  cases isVideo with
  | true => exact ⟨_, _, source.align, rfl⟩
  | false =>
      have hrate := CodecParser.sampleRate_pos (haac rfl)
      dsimp only
      rw [if_neg Bool.false_ne_true, if_neg (by omega)]
      exact ⟨_, _, _, rfl⟩

/-- A frame is put behind the stretch. -/
theorem sendFrame_filling (h : Filling past source s) {p : AvPacket} (hp : p.header ≠ none)
    (haac : p.isVideo = false → source.tsparser.aac ≠ none) (hkey : s.accepted = [] → p.isKeyFrame = true)
    (compositionTime : Int32) :
    ∃ source' s', sendFrame p compositionTime source = .ok () source' ∧ Filling past source' s' ∧
      s'.accepted = s.accepted ++ [p] ∧ Unsegmented source source' := by
  obtain ⟨w, hw, hmuxing⟩ := h.muxing
  set stat := source.stat.update p.isVideo p.timeStamp with hstat
  have haac' : p.isVideo = false → ({ source with stat } : Source).tsparser.aac ≠ none := haac
  obtain ⟨pts, dts, align, hcalc⟩ := calcPtsDts_ok haac' p.timeStamp compositionTime.toUInt32
  have hw' : ({ source with stat, pts, dts, align } : Source).btswriter = some w := hw
  obtain ⟨f, muxer, w', cache, calls, hof, hmux, hmuxing', hcache⟩ := tsMux_muxing hw' hmuxing h.cache hp
  refine ⟨{ source with stat, pts, dts, align, muxer, btswriter := some w', cache },
    { accepted := s.accepted ++ [p], frames := s.frames ++ [f], calls := s.calls ++ calls }, ?_,
    ⟨⟨w', rfl, hmuxing'.holds.accept hof hkey, hmuxing'.muxes, hmuxing'.ok⟩, hcache, ?_, ?_, ?_⟩, rfl, rfl, rfl, rfl⟩
  · rw [sendFrame, Call.modify_bind_apply, Call.bind_of_ok hcalc, Call.bind_of_ok (Call.attempt_of_ok hmux)]
    rfl
  · rw [hstat, Status.update_hasSetFirstTs]
    simp
  · intro q hq
    rw [hstat, Status.update_firstTimestamp, h.begun]
    cases haccepted : s.accepted with
    | nil =>
        rw [haccepted] at hq
        cases hq
        rfl
    | cons p' accepted =>
        rw [haccepted] at hq
        cases hq
        exact h.first q (by rw [haccepted]; rfl)
  · intro q hq
    rw [List.getLast?_concat] at hq
    cases hq
    rfl

theorem writeTables_eq {w : List Bytes} (hw : source.btswriter = some w) :
    ∃ tables pat pmt, writeTables source = { source with
      tables
      btswriter := some (w ++ [TsTables.patBytes pat, TsTables.pmtBytes soundAac true pmt]) } := by
  unfold writeTables TsTables.pat TsTables.pmt
  rw [hw]
  exact ⟨_, _, _, rfl⟩

/-- Behind the tables an empty stretch begins. -/
theorem writeTables_filling (hw : source.btswriter = some []) (hmuxes : Muxer.Muxes Muxer.newMuxer past source.muxer)
    (hok : Muxer.Ok source.muxer) (hcache : Caches source.cache []) (hstat : source.stat.hasSetFirstTs = false) :
    Filling past (writeTables source) {} ∧ Unsegmented source (writeTables source) := by
  obtain ⟨tables, pat, pmt, htables⟩ := writeTables_eq hw
  rw [htables]
  refine ⟨⟨⟨_, rfl, ⟨.nil, rfl, ?_, ?_, pat, pmt, ?_⟩, ?_, hok⟩, hcache, hstat, ?_, ?_⟩, rfl, rfl, rfl⟩
  · intro c hc
    cases hc
  · intro p hp
    cases hp
  · simp [Stretch.packets]
  · rw [List.append_nil]
    exact hmuxes
  · intro p hp
    cases hp
  · intro p hp
    cases hp

/-- A cut of a stretch that is long enough makes a segment of it. -/
theorem cut_filling (h : Filling past source s) (hne : s.accepted ≠ []) (hlong : source.stat.durationMs ≥ duration)
    (now : Int) :
    ∃ source' s' item, cut now source = .ok () source' ∧ IsSegment item s' ∧ s'.accepted = s.accepted ∧
      Filling (past ++ s'.calls) source' {} ∧ source'.seq = source.seq + 1 ∧
      source'.setItems = source.setItems ++ [item] ∧ item.seqNum = source.seq + 1 ∧
      source'.tsparser = source.tsparser := by
  obtain ⟨w, hw, hmuxing⟩ := h.muxing
  obtain ⟨muxer, w', cache, calls, hflush, hmuxing', hcache⟩ := flushAudio_muxing hw hmuxing h.cache
  set source1 : Source := { source with muxer, btswriter := some w', cache }
  have hcut : cut now source = .ok () (writeTables (setItem now source1)) := by
    rw [cut, hw]
    dsimp only
    rw [if_pos hlong, Call.bind_of_ok (Call.attempt_of_ok hflush), Call.modify_bind_apply, Call.modify_apply]
  have hw' : (setItem now source1).btswriter = some [] := rfl
  obtain ⟨hfilling, hunsegmented⟩ := writeTables_filling hw' hmuxing'.muxes hmuxing'.ok hcache rfl
  refine ⟨_, { s with calls := s.calls ++ calls }, _, hcut, ⟨hmuxing'.holds, hmuxing'.holds.length,
    hmuxing'.holds.starts hne, ?_⟩, rfl, hfilling, hunsegmented.seq, hunsegmented.setItems, rfl, hunsegmented.tsparser⟩
  have hfirst := List.head?_eq_some_head hne
  have hlast := List.getLast?_eq_some_getLast hne
  have hduration := hlong
  rw [Status.durationMs, h.first _ hfirst, h.last _ hlast, duration] at hduration
  exact ⟨_, _, hfirst, hlast, by omega⟩

end Source

/-! ### Whole runs -/

/-- The frames from the first key frame on. -/
def sinceKeyFrame (ps : List AvPacket) : List AvPacket := ps.dropWhile fun p => !p.isKeyFrame

theorem sinceKeyFrame_concat (ps : List AvPacket) (p : AvPacket) :
    sinceKeyFrame (ps ++ [p]) =
      if sinceKeyFrame ps = [] ∧ p.isKeyFrame = false then [] else sinceKeyFrame ps ++ [p] := by
  unfold sinceKeyFrame
  rw [List.dropWhile_append]
  cases hps : ps.dropWhile fun p => !p.isKeyFrame with
  | nil => cases hkey : p.isKeyFrame <;> simp [hkey]
  | cons q qs => simp

/-- A source in which no key frame was accepted yet. -/
structure Idle (source : Source) : Prop where
  btswriter : source.btswriter = none
  muxer : source.muxer = Muxer.newMuxer
  cache : source.cache.num = 0
  stat : source.stat.hasSetFirstTs = false
  seq : source.seq = 0
  setItems : source.setItems = []

/-- The segments of a source and the stretch in its buffer, which may be empty. -/
structure Ready (source : Source) (admitted : List AvPacket) (segments : List Stretch) (s : Stretch) : Prop where
  items : List.Forall₂ IsSegment source.setItems segments
  seqNums : source.setItems.map (·.seqNum) = List.range' 1 source.seq
  accepted : segments.flatMap (·.accepted) ++ s.accepted = sinceKeyFrame admitted
  filling : Filling (segments.flatMap (·.calls)) source s

/-- The stretches of a source between two packets. -/
inductive Segmented (source : Source) (admitted : List AvPacket) : List Stretch → Option Stretch → Prop
  | idle (h : Idle source) (hnil : sinceKeyFrame admitted = []) : Segmented source admitted [] none
  | ready {segments : List Stretch} {s : Stretch} (h : Ready source admitted segments s) (hne : s.accepted ≠ []) :
      Segmented source admitted segments (some s)

variable {source : Source} {admitted : List AvPacket} {segments : List Stretch} {rest : Option Stretch} {s : Stretch}

theorem Segmented.parser (h : Segmented source admitted segments rest) (tsparser : CodecParser) :
    Segmented { source with tsparser } admitted segments rest := by
  cases h with
  | idle h hnil => exact .idle ⟨h.btswriter, h.muxer, h.cache, h.stat, h.seq, h.setItems⟩ hnil
  | ready h hne =>
      have hfilling := h.filling
      exact .ready ⟨h.items, h.seqNums, h.accepted,
        ⟨hfilling.muxing, hfilling.cache, hfilling.begun, hfilling.first, hfilling.last⟩⟩ hne

namespace Ready

/-- A frame goes into the buffer. -/
theorem sendFrame (h : Ready source admitted segments s) {p : AvPacket} (hp : p.header ≠ none)
    (haac : p.isVideo = false → source.tsparser.aac ≠ none) (hkey : s.accepted = [] → p.isKeyFrame = true)
    (compositionTime : Int32) :
    ∃ source' s', Source.sendFrame p compositionTime source = .ok () source' ∧
      source'.tsparser = source.tsparser ∧ Segmented source' (admitted ++ [p]) segments (some s') := by
  obtain ⟨source', s', hsend, hfilling, hs', hrest⟩ := Source.sendFrame_filling h.filling hp haac hkey compositionTime
  have hnot : ¬(sinceKeyFrame admitted = [] ∧ p.isKeyFrame = false) := by
    rintro ⟨hnil, hfalse⟩
    rw [← h.accepted] at hnil
    rw [hkey (List.append_eq_nil_iff.mp hnil).2] at hfalse
    cases hfalse
  refine ⟨source', s', hsend, hrest.tsparser, .ready ⟨?_, ?_, ?_, hfilling⟩ ?_⟩
  · rw [hrest.setItems]
    exact h.items
  · rw [hrest.setItems, hrest.seq]
    exact h.seqNums
  · rw [sinceKeyFrame_concat, if_neg hnot, ← h.accepted, hs', List.append_assoc]
  · rw [hs']
    exact List.concat_ne_nil p s.accepted

/-- A cut before a key frame makes a segment, or leaves the stretch as it is because it is too short. -/
theorem cut (h : Ready source admitted segments s) (hne : s.accepted ≠ []) (now : Int) :
    ∃ source' segments' s', Source.cut now source = .ok () source' ∧ source'.tsparser = source.tsparser ∧
      Ready source' admitted segments' s' := by
  by_cases hlong : source.stat.durationMs ≥ duration
  · obtain ⟨source', s', item, hcut, hsegment, hs', hfilling, hseq, hitems, hnum, hparser⟩ :=
      Source.cut_filling h.filling hne hlong now
    refine ⟨source', segments ++ [s'], {}, hcut, hparser, ?_, ?_, ?_, ?_⟩
    · rw [hitems]
      exact List.rel_append h.items (.cons hsegment .nil)
    · rw [hitems, hseq, List.map_append, h.seqNums, List.range'_1_concat, List.map_singleton, hnum, Nat.add_comm]
    · rw [← h.accepted, ← hs']
      simp
    · rw [List.flatMap_append, List.flatMap_singleton]
      exact hfilling
  · obtain ⟨w, hw, -⟩ := h.filling.muxing
    refine ⟨source, segments, s, ?_, rfl, h⟩
    rw [Source.cut, hw]
    exact if_neg hlong

end Ready

/-- With the first key frame the buffer is there. -/
theorem Idle.cut (h : Idle source) (hnil : sinceKeyFrame admitted = []) (now : Int) :
    ∃ source', Source.cut now source = .ok () source' ∧ source'.tsparser = source.tsparser ∧
      Ready source' admitted [] {} := by
  have hw : ({ source with btswriter := some [] } : Source).btswriter = some [] := rfl
  have hmuxes : Muxer.Muxes Muxer.newMuxer [] source.muxer := by
    rw [h.muxer]
    exact .nil _
  have hok : Muxer.Ok source.muxer := by
    rw [h.muxer]
    exact Muxer.ok_newMuxer
  obtain ⟨hfilling, hrest⟩ := Source.writeTables_filling hw hmuxes hok (.empty h.cache) h.stat
  refine ⟨_, by rw [Source.cut, h.btswriter], hrest.tsparser, ?_, ?_, hnil.symm, hfilling⟩
  · rw [hrest.setItems, h.setItems]
    exact .nil
  · rw [hrest.setItems, hrest.seq]
    show source.setItems.map (·.seqNum) = List.range' 1 source.seq
    rw [h.setItems, h.seq]
    rfl

/-- A turn. -/
theorem Segmented.sendTurn (h : Segmented source admitted segments rest) {p : AvPacket}
    (hp : p.isMetadata = false → Framed p) (now : Int) :
    ∃ source' segments' rest', Source.sendTurn now p source = .ok () source' ∧
      source'.tsparser = (accept p source.tsparser).2 ∧
      Segmented source' (admitted ++ (accept p source.tsparser).1.toList) segments' rest' := by
  rcases Source.sendTurn_cases hp now source with ⟨tsparser, haccept, hturn⟩ |
    ⟨q, tsparser, compositionTime, haccept, hheader, haac, hturn⟩
  · rw [haccept]
    refine ⟨_, segments, rest, hturn, rfl, ?_⟩
    rw [Option.toList_none, List.append_nil]
    exact h.parser tsparser
  rw [haccept]
  dsimp only
  rw [Option.toList_some]
  have hframe : ∀ source' segments' s', (if q.isKeyFrame then Source.cut now else pure ()) { source with tsparser } =
      .ok () source' → source'.tsparser = tsparser → Ready source' admitted segments' s' →
      (s'.accepted = [] → q.isKeyFrame = true) →
      ∃ source' segments' rest', Source.sendTurn now p source = .ok () source' ∧ source'.tsparser = tsparser ∧
        Segmented source' (admitted ++ [q]) segments' rest' := by
    intro source' segments' s' hcut hparser hready hkey
    obtain ⟨w, hw, -⟩ := hready.filling.muxing
    obtain ⟨source'', s'', hsend, hparser', hsegmented⟩ :=
      hready.sendFrame hheader (by rwa [hparser]) hkey compositionTime
    refine ⟨source'', segments', some s'', ?_, hparser'.trans hparser, hsegmented⟩
    rw [hturn source' hcut, if_neg (by rw [hw]; exact Option.some_ne_none w), hsend]
  cases h.parser tsparser with
  | idle h1 hnil =>
      cases hkey : q.isKeyFrame with
      | true =>
          obtain ⟨source', hcut, hparser, hready⟩ := h1.cut hnil now
          exact hframe source' [] {} (by rw [hkey]; exact hcut) hparser hready fun _ => hkey
      | false =>
          refine ⟨_, [], none, ?_, rfl, .idle h1 ?_⟩
          · rw [hturn _ (by rw [hkey]; rfl)]
            exact if_pos h1.btswriter
          · rw [sinceKeyFrame_concat, if_pos ⟨hnil, hkey⟩]
  | ready h1 hne =>
      cases hkey : q.isKeyFrame with
      | true =>
          obtain ⟨source', segments', s', hcut, hparser, hready⟩ := h1.cut hne now
          exact hframe source' segments' s' (by rw [hkey]; exact hcut) hparser hready fun _ => hkey
      | false =>
          exact hframe _ segments _ (by rw [hkey]; rfl) rfl h1 fun hnil => absurd hnil hne

/-- A run. -/
theorem Segmented.sendPacket {arrivals : List (Int × AvPacket)} (h : Segmented source admitted segments rest)
    (hp : ∀ a ∈ arrivals, a.2.isMetadata = false → Framed a.2) :
    ∃ source' segments' rest', Source.sendPacket arrivals source = .ok () source' ∧
      Segmented source' (admitted ++ acceptAll (arrivals.map Prod.snd) source.tsparser) segments' rest' := by
  induction arrivals generalizing source admitted segments rest with
  | nil =>
      refine ⟨source, segments, rest, rfl, ?_⟩
      rw [List.map_nil, acceptAll, List.append_nil]
      exact h
  | cons a arrivals ih =>
      obtain ⟨source1, segments1, rest1, hturn, hparser, hsegmented⟩ := h.sendTurn (hp a List.mem_cons_self) a.1
      obtain ⟨source2, segments2, rest2, hrun, hsegmented2⟩ :=
        ih hsegmented fun b hb => hp b (List.mem_cons_of_mem a hb)
      refine ⟨source2, segments2, rest2, ?_, ?_⟩
      · rw [Source.sendPacket, Call.bind_of_ok hturn, hrun]
      · rw [List.map_cons, acceptAll, ← hparser, ← List.append_assoc]
        exact hsegmented2

/-- Segments and buffer of a source hold all that was accepted, in stretches of it. -/
structure KeepsAll (source : Source) (accepted : List AvPacket) (segments : List Stretch) (rest : Option Stretch) :
    Prop where
  accepted : (segments ++ rest.toList).flatMap (·.accepted) = accepted
  muxes : Muxer.Muxes Muxer.newMuxer ((segments ++ rest.toList).flatMap (·.calls)) source.muxer
  items : List.Forall₂ IsSegment source.setItems segments
  seqNums : source.setItems.map (·.seqNum) = List.range' 1 segments.length
  rest : Option.Rel (fun w s => s.Holds (mix s.frames).calls w.flatten) source.btswriter rest

theorem Segmented.keepsAll (h : Segmented source admitted segments rest) :
    KeepsAll source (sinceKeyFrame admitted) segments rest := by
  cases h with
  | idle h hnil =>
      refine ⟨hnil.symm, ?_, ?_, ?_, ?_⟩
      · rw [h.muxer]
        exact .nil _
      · rw [h.setItems]
        exact .nil
      · rw [h.setItems]
        rfl
      · rw [h.btswriter]
        exact .none
  | ready h hne =>
      obtain ⟨w, hw, hmuxing⟩ := h.filling.muxing
      have hlength : source.seq = segments.length := by
        rw [← h.items.length_eq, ← List.length_map (·.seqNum), h.seqNums, List.length_range']
      refine ⟨?_, ?_, h.items, ?_, ?_⟩
      · rw [← h.accepted]
        simp
      · rw [List.flatMap_append]
        simpa using hmuxing.muxes
      · rw [← hlength]
        exact h.seqNums
      · rw [hw]
        exact .some hmuxing.holds

/-- All segments and the buffer together: what a muxer writes that is handed their packets one after the other. -/
theorem KeepsAll.muxAll {accepted : List AvPacket} (h : KeepsAll source accepted segments rest) :
    Muxer.muxAll (((segments ++ rest.toList).flatMap (·.calls)).map Prod.fst) (Muxer.newMuxer, []) =
      .ok () (source.muxer, (segments ++ rest.toList).flatMap (·.packets)) := by
  rw [h.muxes.muxAll, List.nil_append, List.flatMap_assoc]
  rfl

/-- Whatever comes out of the queue of a source, its segments and its open buffer hold, each packet once and in order,
what the muxer wrote for the frames accepted from the first key frame on. -/
theorem sendPacket_keepsAll (key : String) {arrivals : List (Int × AvPacket)}
    (hp : ∀ a ∈ arrivals, a.2.isMetadata = false → Framed a.2) :
    ∃ source segments rest, Source.sendPacket arrivals { key } = .ok () source ∧
      KeepsAll source (sinceKeyFrame (acceptAll (arrivals.map Prod.snd) {})) segments rest := by
  have hidle : Segmented { key } [] [] none := .idle ⟨rfl, rfl, rfl, rfl, rfl, rfl⟩ rfl
  obtain ⟨source, segments, rest, hrun, hsegmented⟩ := hidle.sendPacket hp
  exact ⟨source, segments, rest, hrun, hsegmented.keepsAll⟩

/-- A sequence header and a frame of AAC, and key frames of H.264 with start codes around them. -/
def sampleArrivals : List (Int × AvPacket) :=
  [(100, { isAudio := true, data := [0xaf, 0x00, 0x12, 0x10] }),
    (100, { isVideo := true, data := [0x17, 0x01, 0x00, 0x00, 0x00, 0x00, 0x00, 0x00, 0x01, 0x65] }),
    (101, { isAudio := true, timeStamp := 20, data := [0xaf, 0x01, 0x21] }),
    (103, { isVideo := true, timeStamp := 3000, data := [0x27, 0x01, 0x00, 0x00, 0x00, 0x00, 0x00, 0x00, 0x01, 0x41] }),
    (104, { isVideo := true, timeStamp := 3040, data := [0x17, 0x01, 0x00, 0x00, 0x00, 0x00, 0x00, 0x00, 0x01, 0x65] })]

theorem sendPacket_keepsAll_sample :
    ((sinceKeyFrame (acceptAll (sampleArrivals.map Prod.snd) {})).map (·.timeStamp) = [0, 20, 3000, 3040]) ∧
      ∃ source segments rest, Source.sendPacket sampleArrivals { key := "live/movie" } = .ok () source ∧
        KeepsAll source (sinceKeyFrame (acceptAll (sampleArrivals.map Prod.snd) {})) segments rest :=
  ⟨by decide, sendPacket_keepsAll "live/movie" (by decide)⟩

end Hls

end Livego
