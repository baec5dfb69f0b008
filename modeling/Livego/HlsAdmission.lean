import Livego.HlsSource

/-! Which packets an hls source accepts. That depends on nothing of the source but its parsers, and a turn of the sender
is a step of them, before a frame a cut perhaps, and what is done with the frame. -/

namespace Livego

open Fallible Outcome

namespace Hls

/-- The payload that a packet comes with at least. -/
def Framed (p : AvPacket) : Prop := (if p.isVideo then 5 else 2) ≤ p.data.length

instance (p : AvPacket) : Decidable (Framed p) := inferInstanceAs (Decidable (_ ≤ _))

theorem parseVideoHeader_ok {b : Bytes} (h : 5 ≤ b.length) (tag : Tag) :
    ∃ tag' n, Tag.parseVideoHeader b tag = .ok n tag' := by
  rcases b with _ | ⟨flags, _ | ⟨b1, _ | ⟨b2, _ | ⟨b3, _ | ⟨b4, rest⟩⟩⟩⟩⟩
  · simp at h
  · simp at h
  · simp at h
  · simp at h
  · simp at h
  · rw [Tag.parseVideoHeader]
    split_ifs
    · exact ⟨_, _, rfl⟩
    · exact ⟨_, _, rfl⟩

theorem parseAudioHeader_ok {b : Bytes} (h : 2 ≤ b.length) (tag : Tag) :
    ∃ tag' n, Tag.parseAudioHeader b tag = .ok n tag' := by
  rcases b with _ | ⟨flags, _ | ⟨b1, rest⟩⟩
  · simp at h
  · simp at h
  · rw [Tag.parseAudioHeader]
    dsimp only
    split_ifs
    · exact ⟨_, _, rfl⟩
    · exact ⟨_, _, rfl⟩

theorem demux_framed {p : AvPacket} (hp : Framed p) :
    Demuxer.demux p = .err Demuxer.errAvcEndSEQ p ∨
      ∃ tag n, Demuxer.demux p = .ok () { p with header := some tag, data := p.data.drop n } := by
  have hparse : ∃ tag n, Tag.parseMediaTagHeader p.data p.isVideo {} = .ok n tag := by
    unfold Tag.parseMediaTagHeader
    unfold Framed at hp
    split_ifs at hp ⊢
    · exact parseVideoHeader_ok hp {}
    · exact parseAudioHeader_ok hp {}
  obtain ⟨tag, n, hparse⟩ := hparse
  unfold Demuxer.demux
  rw [hparse]
  dsimp only
  split_ifs
  · exact Or.inl rfl
  · exact Or.inr ⟨tag, n, rfl⟩

/-- Whether the codec of a packet is one that can be segmented. -/
def supported (p : AvPacket) : Bool :=
  p.header.any fun h => if p.isVideo then h.codecID = videoH264 else h.soundFormat = soundAac

/-- The frame that a packet is accepted as, and the parsers after it: what can be demultiplexed, is of H.264 or AAC, is
no sequence header and is parsed without an error. -/
def accept (p : AvPacket) (tsparser : CodecParser) : Option AvPacket × CodecParser :=
  if p.isMetadata then (none, tsparser)
  else
    match Demuxer.demux p with
    | .ok () p =>
      if supported p then
        match CodecParser.parse p tsparser with
        | .ok data tsparser => (if p.isVideoSeq || p.isAudioSeq then none else some { p with data }, tsparser)
        | .err _ tsparser => (none, tsparser)
        | _ => (none, tsparser)
      else (none, tsparser)
    | _ => (none, tsparser)

/-- The frames accepted of a list of packets. -/
def acceptAll : List AvPacket → CodecParser → List AvPacket
  | [], _ => []
  | p :: ps, tsparser => (accept p tsparser).1.toList ++ acceptAll ps (accept p tsparser).2

namespace Source

/-- `parse` is one of three things: nothing that can be parsed, a sequence header, or a frame. -/
theorem parse_eq {p : AvPacket} {h : Tag} (hheader : p.header = some h) (hdata : p.isMetadata = false) (now : Int) :
    ∃ e compositionTime, parse now p =
      if supported p then
        if p.isVideoSeq || p.isAudioSeq then parseSeq p compositionTime
        else parseFrame now p compositionTime (p.isVideo && h.isKeyFrame)
      else Call.fail e := by
  unfold parse supported AvPacket.isVideoSeq AvPacket.isAudioSeq
  rw [hheader, hdata]
  simp only [Option.any_some]
  cases hvideo : p.isVideo with
  | true =>
      refine ⟨errNoSupportVideoCodec, h.compositionTime, ?_⟩
      have hseq : (h.isKeyFrame && h.isSeq) = h.isSeq := by
        unfold Tag.isKeyFrame Tag.isSeq
        by_cases hkey : h.frameType = frameKey <;> simp [hkey]
      by_cases hcodec : h.codecID = videoH264
      · simp [hcodec, hseq]
      · simp [hcodec]
  | false =>
      refine ⟨errNoSupportAudioCodec, 0, ?_⟩
      by_cases hformat : h.soundFormat = soundAac
      · simp [hformat]
      · simp [hformat]

theorem parseFrame_ok {p : AvPacket} {source source' : Source} {data : Bytes} {tsparser : CodecParser}
    {isKeyFrame : Bool} {now : Int} (hparse : CodecParser.parse p source.tsparser = .ok data tsparser)
    (hcut : (if isKeyFrame then cut now else pure ()) { source with tsparser } = .ok () source')
    (compositionTime : Int32) :
    parseFrame now p compositionTime isKeyFrame source = .ok (compositionTime, false, { p with data }) source' := by
  have hparser : onParser (CodecParser.parse p) source = .ok data { source with tsparser } := by
    rw [onParser, hparse]
  rw [parseFrame, Call.bind_of_ok hparser]
  cases isKeyFrame with
  | true => exact Call.bind_of_ok hcut
  | false =>
      cases hcut
      rfl

theorem soundFormat_of_supported {p : AvPacket} {h : Tag} (hheader : p.header = some h) (hvideo : p.isVideo = false)
    (hsupported : supported p = true) : h.soundFormat = soundAac := by
  simpa [supported, hheader, hvideo] using hsupported

/-- A frame that is no sequence header is a key frame by its type alone. -/
theorem isKeyFrame_of_not_seq {p : AvPacket} {h : Tag} (hheader : p.header = some h) (hdata : p.isMetadata = false)
    (hseq : ¬(p.isVideoSeq || p.isAudioSeq) = true) {data : Bytes} :
    AvPacket.isKeyFrame { p with data } = (p.isVideo && h.isKeyFrame) := by
  unfold AvPacket.isKeyFrame
  cases hvideo : p.isVideo with
  | true =>
      have hnot : h.isSeq = false := by
        simpa [AvPacket.isVideoSeq, AvPacket.isAudioSeq, hheader, hdata, hvideo] using hseq
      simp [hheader, hnot]
  | false => rfl

/-- What a turn comes to: the packet is dropped, or accepted as a frame, before which there may be a cut. -/
theorem sendTurn_cases {p : AvPacket} (hp : p.isMetadata = false → Framed p) (now : Int) (source : Source) :
    (∃ tsparser, accept p source.tsparser = (none, tsparser) ∧ sendTurn now p source = .ok () { source with tsparser }) ∨
      ∃ q tsparser compositionTime, accept p source.tsparser = (some q, tsparser) ∧ q.header ≠ none ∧
        (q.isVideo = false → tsparser.aac ≠ none) ∧
        ∀ source', (if q.isKeyFrame then cut now else pure ()) { source with tsparser } = .ok () source' →
          sendTurn now p source =
            if source'.btswriter = none then .ok () source' else sendFrame q compositionTime source' := by
  by_cases hmeta : p.isMetadata = true
  · refine Or.inl ⟨source.tsparser, ?_, ?_⟩
    · rw [accept, if_pos hmeta]
    · rw [sendTurn, if_pos hmeta]
  have hdata : p.isMetadata = false := Bool.eq_false_iff.mpr hmeta
  rcases demux_framed (hp hdata) with hdemux | ⟨h, n, hdemux⟩
  · refine Or.inl ⟨source.tsparser, ?_, ?_⟩
    · rw [accept, if_neg hmeta, hdemux]
    · rw [sendTurn, if_neg hmeta, hdemux]
      exact if_pos rfl
  set p1 : AvPacket := { p with header := some h, data := p.data.drop n } with hp1
  obtain ⟨e, compositionTime, hparse⟩ := parse_eq (p := p1) rfl hdata now
  rw [accept, if_neg hmeta, hdemux]
  dsimp only
  rw [sendTurn, if_neg hmeta, hdemux]
  dsimp only
  rw [hparse]
  by_cases hsupported : supported p1 = true
  swap
  · exact Or.inl ⟨source.tsparser, by rw [if_neg hsupported], by rw [if_neg hsupported]; rfl⟩
  rw [if_pos hsupported, if_pos hsupported]
  have hret := CodecParser.returns_parse p1 source.tsparser
  cases hcodec : CodecParser.parse p1 source.tsparser with
  | ok data tsparser =>
      by_cases hseq : (p1.isVideoSeq || p1.isAudioSeq) = true
      · refine Or.inl ⟨tsparser, by dsimp only; rw [if_pos hseq], ?_⟩
        rw [if_pos hseq, parseSeq]
        simp [onParser, Call.bind_apply, hcodec]
      · refine Or.inr ⟨{ p1 with data }, tsparser, compositionTime, by dsimp only; rw [if_neg hseq], ?_, ?_, ?_⟩
        · exact Option.some_ne_none h
        · intro hvideo
          have hformat := soundFormat_of_supported rfl hvideo hsupported
          exact (CodecParser.returns_parse_aac (p := p1) rfl hvideo hformat source.tsparser).of_ok hcodec
        · intro source' hcut
          rw [isKeyFrame_of_not_seq (p := p1) (h := h) rfl hdata hseq] at hcut
          rw [if_neg hseq, parseFrame_ok hcodec hcut]
          simp only [Bool.false_eq_true, false_or]
  | err e' tsparser =>
      refine Or.inl ⟨tsparser, rfl, ?_⟩
      split_ifs
      · simp [parseSeq, onParser, Call.bind_apply, hcodec]
      · simp [parseFrame, onParser, Call.bind_apply, hcodec]
  | panic f =>
      rw [hcodec] at hret
      cases hret
  | diverge =>
      rw [hcodec] at hret
      cases hret

end Source

end Hls

end Livego
