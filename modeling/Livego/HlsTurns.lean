import Livego.Ensures
import Livego.HlsSource

/-! What one packet out of the queue does to an hls source: it fills the buffer, or there is none yet and it is begun, or
what is in it is cut off as a segment first. -/

namespace Livego

open Fallible

namespace Muxer

/-- What a writer holds stays in front. -/
theorem ensures_muxTurn (out : List Bytes) (p : Packet) (pes : PesHeader) (v : MuxLoop) :
    Call.Ensures (fun s : Muxer × List Bytes => out <+: s.2) (fun _ => True) (muxTurn collect p pes v) := by
  intro ⟨muxer, w⟩ hw
  unfold muxTurn
  dsimp only
  split_ifs
  · exact ⟨hw, trivial⟩
  split
  · trivial
  split
  · trivial
  · exact ⟨hw.trans (List.prefix_append _ _), trivial⟩

theorem ensures_mux (out : List Bytes) (p : Packet) :
    Call.Ensures (fun s : Muxer × List Bytes => out <+: s.2) (fun _ => True) (mux collect p) := by
  unfold mux
  cases ptsOf p with
  | none => exact fun _ _ => trivial
  | some pts =>
      have hturn : ∀ v, True → Call.Ensures (fun s : Muxer × List Bytes => out <+: s.2)
          (Sum.elim (fun _ => True) fun _ => True) (muxTurn collect p (PesHeader.packet p pts (dtsOf p)) v) := by
        intro v _
        refine (ensures_muxTurn out p _ v).imp ?_
        rintro (_ | _) _
        · trivial
        · trivial
      exact .loop hturn _ trivial

end Muxer

namespace Hls

/-- The buffer, if there is one, holds more, and the segments and what they are made with are as they were. -/
structure Fills (source source' : Source) : Prop where
  key : source'.key = source.key
  seq : source'.seq = source.seq
  tables : source'.tables = source.tables
  setItems : source'.setItems = source.setItems
  buffer : ∀ w, source.btswriter = some w → ∃ w', source'.btswriter = some w' ∧ w <+: w'
  unbegun : source.btswriter = none → source'.btswriter = none

/-- What a turn does. -/
inductive Turns (now : Int) (source source' : Source) : Prop
  | fills (h : Fills source source')
  | begins {middle : Source} (hfront : Fills source middle) (hnone : middle.btswriter = none)
      (h : Fills (Source.writeTables { middle with btswriter := some [] }) source')
  | cuts {middle : Source} {w : List Bytes} (hfront : Fills source middle) (hw : middle.btswriter = some w)
      (hlong : duration ≤ middle.stat.durationMs) (h : Fills (Source.writeTables (Source.setItem now middle)) source')

variable {source source' source'' : Source} {now : Int}

namespace Fills

theorem of_eq (hkey : source'.key = source.key) (hseq : source'.seq = source.seq) (htables : source'.tables = source.tables)
    (hitems : source'.setItems = source.setItems) (hbuffer : source'.btswriter = source.btswriter) :
    Fills source source' :=
  ⟨hkey, hseq, htables, hitems, fun w hw => ⟨w, hbuffer.trans hw, List.prefix_refl w⟩, fun hnone => hbuffer.trans hnone⟩

theorem refl (source : Source) : Fills source source := of_eq rfl rfl rfl rfl rfl

theorem trans (h : Fills source source') (h' : Fills source' source'') : Fills source source'' := by
  refine ⟨h'.key.trans h.key, h'.seq.trans h.seq, h'.tables.trans h.tables, h'.setItems.trans h.setItems, ?_,
    fun hnone => h'.unbegun (h.unbegun hnone)⟩
  intro w hw
  obtain ⟨w', hw', hle⟩ := h.buffer w hw
  obtain ⟨w'', hw'', hle'⟩ := h'.buffer w' hw'
  exact ⟨w'', hw'', hle.trans hle'⟩

theorem turns (h : Fills source source') (h' : Turns now source' source'') : Turns now source source'' := by
  cases h' with
  | fills h' => exact .fills (h.trans h')
  | begins hfront hnone h' => exact .begins (h.trans hfront) hnone h'
  | cuts hfront hw hlong h' => exact .cuts (h.trans hfront) hw hlong h'

end Fills

theorem Turns.filled (h : Turns now source source') (h' : Fills source' source'') : Turns now source source'' := by
  cases h with
  | fills h => exact .fills (h.trans h')
  | begins hfront hnone h => exact .begins hfront hnone (h.trans h')
  | cuts hfront hw hlong h => exact .cuts hfront hw hlong (h.trans h')

namespace Source

/-- However the call ends, it has only filled the buffer. -/
abbrev OnlyFills {α : Type} (x : Call GoError Source α) : Prop :=
  ∀ source, Call.Ensures (fun source' => Fills source source' ∧ source'.stat = source.stat) (fun _ => True) x

theorem onlyFills_mux (p : Packet) : OnlyFills (mux p) := by
  intro source source1 ⟨hfills, hstat⟩
  unfold mux
  cases hw : source1.btswriter with
  | none => trivial
  | some w =>
      have hmux := Muxer.ensures_mux w p (source1.muxer, w) (List.prefix_refl w)
      have hfilled : ∀ muxer w', w <+: w' → Fills source1 { source1 with muxer, btswriter := some w' } := by
        intro muxer w' hle
        refine ⟨rfl, rfl, rfl, rfl, fun w1 hw1 => ⟨w', rfl, ?_⟩, fun hnone => absurd (hw.symm.trans hnone) nofun⟩
        exact Option.some.inj (hw.symm.trans hw1) ▸ hle
      dsimp only
      cases hcall : Muxer.mux Muxer.collect p (source1.muxer, w) with
      | ok a s =>
          rw [hcall] at hmux
          exact ⟨⟨hfills.trans (hfilled s.1 s.2 hmux.1), hstat⟩, trivial⟩
      | err e s =>
          rw [hcall] at hmux
          exact ⟨hfills.trans (hfilled s.1 s.2 hmux), hstat⟩
      | panic f => trivial
      | diverge => trivial

theorem onlyFills_muxAudio (limit : UInt8) : OnlyFills (muxAudio limit) := by
  intro source source1 ⟨hfills, hstat⟩
  unfold muxAudio
  split_ifs
  · exact ⟨⟨hfills, hstat⟩, trivial⟩
  · exact onlyFills_mux _ source _ ⟨hfills.trans (.of_eq rfl rfl rfl rfl rfl), hstat⟩

theorem onlyFills_tsMux (p : AvPacket) : OnlyFills (tsMux p) := by
  intro source source1 ⟨hfills, hstat⟩
  unfold tsMux
  split_ifs
  · exact onlyFills_mux _ source source1 ⟨hfills, hstat⟩
  · exact onlyFills_muxAudio _ source _ ⟨hfills.trans (.of_eq rfl rfl rfl rfl rfl), hstat⟩

theorem onlyFills_onParser {α : Type} (x : Call GoError CodecParser α) : OnlyFills (onParser x) := by
  intro source source1 ⟨hfills, hstat⟩
  unfold onParser
  cases x source1.tsparser with
  | ok a tsparser => exact ⟨⟨hfills.trans (.of_eq rfl rfl rfl rfl rfl), hstat⟩, trivial⟩
  | err e tsparser => exact ⟨hfills.trans (.of_eq rfl rfl rfl rfl rfl), hstat⟩
  | panic f => trivial
  | diverge => trivial

theorem cut_turns (now : Int) (source : Source) :
    (cut now source).Meets (fun _ => Turns now source) (fun _ => Turns now source) := by
  unfold cut
  cases hw : source.btswriter with
  | none => exact .begins (.refl source) hw (.refl _)
  | some w =>
      dsimp only
      split_ifs with hlong
      swap
      · exact .fills (.refl source)
      -- the audio that is left goes into the segment
      have hflush := (onlyFills_muxAudio 1 source).attempt source ⟨.refl source, rfl⟩
      rw [Call.bind_apply]
      cases hcall : Call.attempt flushAudio source with
      | ok a middle =>
          rw [flushAudio] at hcall
          rw [hcall] at hflush
          obtain ⟨⟨hfills, hstat⟩, -⟩ := hflush
          obtain ⟨w', hw', -⟩ := hfills.buffer w hw
          have hlong : duration ≤ middle.stat.durationMs := hstat ▸ hlong
          exact .cuts hfills hw' hlong (.refl _)
      | err e middle =>
          rw [flushAudio] at hcall
          rw [hcall] at hflush
          exact .fills hflush.1
      | panic f => trivial
      | diverge => trivial

theorem parse_turns (now : Int) (p : AvPacket) (source : Source) :
    (parse now p source).Meets (fun _ => Turns now source) (fun _ => Turns now source) := by
  have hparser := fun (x : Call GoError CodecParser Bytes) => onlyFills_onParser x source source ⟨.refl source, rfl⟩
  have hseq : ∀ compositionTime,
      (parseSeq p compositionTime source).Meets (fun _ => Turns now source) (fun _ => Turns now source) := by
    intro compositionTime
    have hparsed := hparser (CodecParser.parse p)
    rw [parseSeq, Call.bind_apply]
    cases hcall : onParser (CodecParser.parse p) source with
    | ok a source1 =>
        rw [hcall] at hparsed
        exact .fills hparsed.1.1
    | err e source1 =>
        rw [hcall] at hparsed
        exact .fills hparsed.1
    | panic f => trivial
    | diverge => trivial
  have hframe : ∀ compositionTime isKeyFrame,
      (parseFrame now p compositionTime isKeyFrame source).Meets (fun _ => Turns now source) (fun _ => Turns now source) := by
    intro compositionTime isKeyFrame
    have hparsed := hparser (CodecParser.parse p)
    rw [parseFrame, Call.bind_apply]
    cases hcall : onParser (CodecParser.parse p) source with
    | ok a source1 =>
        rw [hcall] at hparsed
        cases isKeyFrame with
        | false => exact .fills hparsed.1.1
        | true =>
            have hcut := cut_turns now source1
            dsimp only
            rw [if_pos rfl, Call.bind_apply]
            cases hcalled : cut now source1 with
            | ok a source2 =>
                rw [hcalled] at hcut
                exact hparsed.1.1.turns hcut
            | err e source2 =>
                rw [hcalled] at hcut
                exact hparsed.1.1.turns hcut
            | panic f => trivial
            | diverge => trivial
    | err e source1 =>
        rw [hcall] at hparsed
        exact .fills hparsed.1
    | panic f => trivial
    | diverge => trivial
  unfold parse
  cases p.header with
  | none => trivial
  | some h =>
      dsimp only
      split_ifs
      · exact .fills (.refl source)
      · exact hseq _
      · exact hframe _ _
      · exact .fills (.refl source)
      · exact hseq _
      · exact hframe _ _

theorem ensures_sendFrame (p : AvPacket) (compositionTime : Int32) (source : Source) :
    Call.Ensures (Fills source) (fun _ => True) (sendFrame p compositionTime) := by
  have hcalc : Call.Ensures (Fills source) (fun _ => True) (calcPtsDts p.isVideo p.timeStamp compositionTime.toUInt32) := by
    intro source1 h
    unfold calcPtsDts
    dsimp only
    split_ifs
    · exact ⟨h.trans (.of_eq rfl rfl rfl rfl rfl), trivial⟩
    · trivial
    · exact ⟨h.trans (.of_eq rfl rfl rfl rfl rfl), trivial⟩
  have hmux : Call.Ensures (Fills source) (fun _ => True) (Call.attempt (tsMux p)) := by
    intro source1 h
    have hfills := (onlyFills_tsMux p source1).attempt source1 ⟨.refl source1, rfl⟩
    cases hcall : Call.attempt (tsMux p) source1 with
    | ok a source2 =>
        rw [hcall] at hfills
        exact ⟨h.trans hfills.1.1, trivial⟩
    | err e source2 =>
        rw [hcall] at hfills
        exact h.trans hfills.1
    | panic f => trivial
    | diverge => trivial
  refine (Call.Ensures.modify fun source1 h => h.trans (.of_eq rfl rfl rfl rfl rfl)).bind fun _ _ => ?_
  exact hcalc.bind fun _ _ => hmux.bind fun _ _ => .pure trivial

theorem sendTurn_turns (now : Int) (p : AvPacket) (source : Source) :
    (sendTurn now p source).Meets (fun _ => Turns now source) (fun _ => Turns now source) := by
  unfold sendTurn
  split_ifs
  · exact .fills (.refl source)
  split
  · next p1 _ =>
    have hparse := parse_turns now p1 source
    cases hcall : parse now p1 source with
    | ok a source1 =>
        rw [hcall] at hparse
        dsimp only
        split_ifs
        · exact hparse
        have hfills := ensures_sendFrame a.2.2 a.1 source1 source1 (.refl source1)
        cases hsend : sendFrame a.2.2 a.1 source1 with
        | ok b source2 =>
            rw [hsend] at hfills
            exact hparse.filled hfills.1
        | err e source2 =>
            rw [hsend] at hfills
            exact hparse.filled hfills
        | panic f => trivial
        | diverge => trivial
    | err e source1 =>
        rw [hcall] at hparse
        exact hparse
    | panic f => trivial
    | diverge => trivial
  · split_ifs
    · exact .fills (.refl source)
    · exact .fills (.refl source)
  · trivial
  · trivial

/-- What every turn keeps, a run keeps. -/
theorem sendPacket_keeps {I : Source → Prop} (hkeep : ∀ now source source', I source → Turns now source source' → I source')
    (arrivals : List (Int × AvPacket)) : Call.Ensures I (fun _ => True) (sendPacket arrivals) := by
  induction arrivals with
  | nil => exact .pure trivial
  | cons a arrivals ih =>
      have hturn : Call.Ensures I (fun _ => True) (sendTurn a.1 a.2) := by
        intro source h
        have hturns := sendTurn_turns a.1 a.2 source
        cases hcall : sendTurn a.1 a.2 source with
        | ok b source' =>
            rw [hcall] at hturns
            exact ⟨hkeep a.1 source source' h hturns, trivial⟩
        | err e source' =>
            rw [hcall] at hturns
            exact hkeep a.1 source source' h hturns
        | panic f => trivial
        | diverge => trivial
      exact hturn.bind fun _ _ => ih

end Source

end Hls

end Livego
