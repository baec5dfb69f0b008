import Livego.HlsSegments
import Livego.HlsTurns
import Livego.TsPlayback

/-! What a player finds in the segments of an hls source. Each begins with tables that verify, the frames that were
accepted for it are found in it one by one, and the counters on each PID go on from segment to segment. -/

namespace Livego

open Fallible TsDemux

namespace Hls

/-- The tables in front of segment `k`. -/
def tablesAt (k : Nat) : Bytes := TsTables.patBytes (k % 16) ++ TsTables.pmtBytes soundAac true (k % 16)

/-- Counters after `k` tables of each kind. -/
structure Cycled (tables : TsTables) (k : Nat) : Prop where
  patCc : tables.patCc ≤ 16 ∧ tables.patCc % 16 = k % 16
  pmtCc : tables.pmtCc ≤ 16 ∧ tables.pmtCc % 16 = k % 16

/-- The segments, and what is in the buffer, begin with the tables whose turn it was. -/
structure Tabled (source : Source) : Prop where
  items : ∀ k item, source.setItems[k]? = some item → tablesAt k <+: item.data
  cycled : Cycled source.tables (source.setItems.length + if source.btswriter = none then 0 else 1)
  buffer : ∀ w, source.btswriter = some w → tablesAt source.setItems.length <+: w.flatten

theorem length_tablesAt (k : Nat) : (tablesAt k).length = 2 * tsPacketLen := by
  rw [tablesAt, List.length_append, TsTables.patBytes_length, TsTables.pmtBytes_length, Nat.two_mul]

namespace Tabled

variable {source source' : Source}

theorem fills (h : Tabled source) (h' : Fills source source') : Tabled source' := by
  refine ⟨?_, ?_, ?_⟩
  · rw [h'.setItems]
    exact h.items
  · have hcycled := h.cycled
    rw [h'.setItems, h'.tables]
    cases hw : source.btswriter with
    | none =>
        rw [hw] at hcycled
        rwa [h'.unbegun hw]
    | some w =>
        obtain ⟨w', hw', -⟩ := h'.buffer w hw
        rw [hw, if_neg (Option.some_ne_none w)] at hcycled
        rwa [hw', if_neg (Option.some_ne_none w')]
  · intro w2 hw2
    cases hw : source.btswriter with
    | none => exact absurd (hw2.symm.trans (h'.unbegun hw)) nofun
    | some w =>
        obtain ⟨w', hw', more, rfl⟩ := h'.buffer w hw
        cases hw2.symm.trans hw'
        rw [h'.setItems, List.flatten_append]
        exact (h.buffer w hw).trans (List.prefix_append _ _)

theorem writeTables (hitems : ∀ k item, source.setItems[k]? = some item → tablesAt k <+: item.data)
    (hw : source.btswriter = some []) (hcycled : Cycled source.tables source.setItems.length) :
    Tabled (Source.writeTables source) := by
  obtain ⟨⟨hpat, hpat'⟩, ⟨hpmt, hpmt'⟩⟩ := hcycled
  obtain ⟨hpatSent, hpatKept⟩ := TsTables.cycle_spec hpat
  obtain ⟨hpmtSent, hpmtKept⟩ := TsTables.cycle_spec hpmt
  have hwritten : Source.writeTables source =
      { source with
        tables := { patCc := (TsTables.cycle source.tables.patCc).2, pmtCc := (TsTables.cycle source.tables.pmtCc).2 }
        btswriter := some [TsTables.patBytes (TsTables.cycle source.tables.patCc).1,
          TsTables.pmtBytes soundAac true (TsTables.cycle source.tables.pmtCc).1] } := by
    unfold Source.writeTables
    rw [hw]
    rfl
  rw [hwritten, hpatSent, hpmtSent, hpatKept, hpmtKept, hpat', hpmt']
  refine ⟨hitems, ?_, ?_⟩
  · dsimp only
    rw [if_neg (Option.some_ne_none _)]
    constructor <;> dsimp only <;> omega
  · intro w hw'
    cases hw'
    simp [tablesAt]

/-- The buffer becomes a segment, and the next one begins. -/
theorem setItem (h : Tabled source) {w : List Bytes} (hw : source.btswriter = some w) (now : Int) :
    Tabled (Source.writeTables (Source.setItem now source)) := by
  have hcycled := h.cycled
  rw [hw, if_neg (Option.some_ne_none w)] at hcycled
  refine .writeTables ?_ rfl ?_
  · intro k item hk
    rcases Nat.lt_or_ge k source.setItems.length with hlt | hge
    · refine h.items k item ?_
      rwa [Source.setItem, List.getElem?_append_left hlt] at hk
    · rw [Source.setItem, List.getElem?_append_right hge, List.getElem?_singleton, Option.ite_none_right_eq_some] at hk
      obtain ⟨hzero, hitem⟩ := hk
      have hlast : k = source.setItems.length := by omega
      cases hitem
      rw [hlast, hw]
      exact h.buffer w hw
  · rw [Source.setItem, List.length_append]
    exact hcycled

theorem turns {now : Int} (h : Tabled source) (h' : Turns now source source') : Tabled source' := by
  cases h' with
  | fills h' => exact h.fills h'
  | @begins middle hfront hnone h' =>
      have hmiddle := h.fills hfront
      have hcycled := hmiddle.cycled
      rw [hnone, if_pos rfl, Nat.add_zero] at hcycled
      have hbegun : Tabled (Source.writeTables { middle with btswriter := some [] }) :=
        .writeTables hmiddle.items rfl hcycled
      exact hbegun.fills h'
  | cuts hfront hw _ h' => exact ((h.fills hfront).setItem hw now).fills h'

end Tabled

/-! ### What is found in the segments -/

/-- What a player should find in a segment of these frames: two tables, each of them a section that verifies, the video
frame by frame, and PES packets with all of the audio. -/
structure Found (accepted : List AvPacket) (us : List TransportPacket) : Prop where
  tables : ∃ pat pmt more, us = pat :: pmt :: more ∧ pat.pid = TableCall.pat.pid ∧
    pmt.pid = (TableCall.pmt soundAac true).pid ∧ HoldsSection pat ∧ HoldsSection pmt
  video : assemble (us.filter fun u => u.pid = videoPID) =
    ([], (accepted.filter (·.isVideo)).map fun p => Muxer.pesOf (toTs p))
  audio : ∃ sounds : List Packet, assemble (us.filter fun u => u.pid = audioPID) = ([], sounds.map Muxer.pesOf) ∧
    sounds.flatMap (·.data) = (accepted.filter fun p => !p.isVideo).flatMap (·.data)

/-- A key frame reaches to the end of its first transport packet at least. -/
def FillsPacket (p : AvPacket) : Prop :=
  Muxer.isKeyFrame (toTs p) = true →
    (Muxer.pesOf (toTs p)).length = 176 ∨ tsDefaultDataLen ≤ (Muxer.pesOf (toTs p)).length

instance (p : AvPacket) : Decidable (FillsPacket p) := inferInstanceAs (Decidable (_ → _))

/-- The counter in front of a segment, on any PID: before segment `k` there were `k` tables of each kind. -/
def cursor (k pid : Nat) (muxer : Muxer) : Nat :=
  if pid = TableCall.pat.pid ∨ pid = (TableCall.pmt soundAac true).pid then k + 15 else Muxer.counter pid muxer

theorem header_of_mem_accept {p q : AvPacket} {tsparser : CodecParser} (h : q ∈ (accept p tsparser).1) :
    q.header ≠ none := by
  unfold accept at h
  split_ifs at h
  · cases h
  split at h
  · next p1 _ =>
    by_cases hsupported : supported p1 = true
    · have hheader : p1.header ≠ none := by
        intro hnone
        rw [supported, hnone] at hsupported
        cases hsupported
      rw [if_pos hsupported] at h
      split at h
      · dsimp only at h
        split_ifs at h
        · cases h
        · cases h
          exact hheader
      · cases h
      · cases h
    · rw [if_neg hsupported] at h
      cases h
  · cases h

theorem header_of_mem_acceptAll {ps : List AvPacket} {q : AvPacket} {tsparser : CodecParser}
    (h : q ∈ acceptAll ps tsparser) : q.header ≠ none := by
  induction ps generalizing tsparser with
  | nil => cases h
  | cons p ps ih =>
      rw [acceptAll, List.mem_append, Option.mem_toList] at h
      rcases h with h | h
      · exact header_of_mem_accept h
      · exact ih h

/-- What the muxer was handed for a segment can be played back if that holds of the frames. -/
theorem IsSegment.playable {item : TSItem} {s : Stretch} (h : IsSegment item s)
    (hheader : ∀ p ∈ s.accepted, p.header ≠ none) (hfills : ∀ p ∈ s.accepted, FillsPacket p) :
    ∀ c ∈ s.calls, Muxer.Playable c.1 := by
  intro c hc
  by_cases hvideo : c.1.isVideo = true
  · have hmem : c.1 ∈ (s.calls.map Prod.fst).filter (·.isVideo) :=
      List.mem_filter.mpr ⟨List.mem_map_of_mem hc, hvideo⟩
    rw [h.keeps.1] at hmem
    obtain ⟨p, hp, hcall⟩ := List.mem_map.mp hmem
    have haccepted := (List.mem_filter.mp hp).1
    rw [← hcall]
    refine ⟨fun _ => ?_, hfills p haccepted⟩
    simpa [toTs] using hheader p haccepted
  · refine ⟨fun hv => absurd hv hvideo, fun hkey => absurd ?_ hvideo⟩
    exact (Bool.and_eq_true_iff.mp hkey).1

theorem filter_videoPID (ps : List Packet) : ps.filter (fun p => Muxer.pidOf p = videoPID) = ps.filter (·.isVideo) := by
  apply List.filter_congr
  intro p _
  unfold Muxer.pidOf
  cases p.isVideo <;> rfl

theorem filter_audioPID (ps : List Packet) : ps.filter (fun p => Muxer.pidOf p = audioPID) = ps.filter (!·.isVideo) := by
  apply List.filter_congr
  intro p _
  unfold Muxer.pidOf
  cases p.isVideo <;> rfl

/-- A segment in the order of the segments, from the muxer that it began with. -/
theorem IsSegment.found {item : TSItem} {s : Stretch} (h : IsSegment item s) {k : Nat}
    (htables : tablesAt k <+: item.data) {muxer muxer' : Muxer} (hmuxes : Muxer.Muxes muxer s.calls muxer')
    (hok : Muxer.Ok muxer) (hplay : ∀ c ∈ s.calls, Muxer.Playable c.1) :
    Muxer.Ok muxer' ∧ ∃ us, demux (packetsOf item.data) = some us ∧ Found s.accepted us ∧
      ∀ pid, (us.filter fun u => u.pid = pid).map (·.cc) =
          countersFrom (cursor k pid muxer) (us.filter fun u => u.pid = pid).length ∧
        cursor (k + 1) pid muxer' % 16 = (cursor k pid muxer + (us.filter fun u => u.pid = pid).length) % 16 := by
  obtain ⟨hok', us, hplays⟩ := hmuxes.plays hok hplay
  have hk : k % 16 < 16 := Nat.mod_lt k (by decide)
  obtain ⟨upat, hpat, hpatPid, hpatCc, hpatSection⟩ := TsTables.patBytes_spec hk
  obtain ⟨upmt, hpmt, hpmtPid, hpmtCc, hpmtSection⟩ := TsTables.pmtBytes_spec soundAac true hk
  have hdata : item.data = TsTables.patBytes (k % 16) ++ (TsTables.pmtBytes soundAac true (k % 16) ++ s.packets.flatten) := by
    obtain ⟨pat, pmt, hdata⟩ := h.holds.data
    obtain ⟨more, hmore⟩ := htables
    rw [hdata] at hmore ⊢
    have hlength : (tablesAt k).length = (TsTables.patBytes pat ++ TsTables.pmtBytes soundAac true pmt).length := by
      rw [length_tablesAt, List.length_append, TsTables.patBytes_length, TsTables.pmtBytes_length, Nat.two_mul]
    rw [← (List.append_inj hmore hlength).1, tablesAt, List.append_assoc]
  have hwhole : ∀ b ∈ s.packets, b.length = tsPacketLen := by
    intro b hb
    obtain ⟨c, hc, hb⟩ := List.mem_flatMap.mp hb
    exact (h.holds.whole c hc).2 b hb
  have hpackets : demux (packetsOf item.data) = some (upat :: upmt :: us) := by
    rw [hdata, packetsOf_append (TsTables.patBytes_length _), packetsOf_append (TsTables.pmtBytes_length _ _ _),
      packetsOf_flatten hwhole]
    exact demux_cons hpat (demux_cons hpmt hplays.demux)
  have hstream : ∀ pid, pid = videoPID ∨ pid = audioPID → (upat :: upmt :: us).filter (fun u => u.pid = pid) =
      us.filter fun u => u.pid = pid := by
    intro pid hpid
    rw [List.filter_cons_of_neg, List.filter_cons_of_neg]
    · rw [hpmtPid]
      rcases hpid with rfl | rfl <;> decide
    · rw [hpatPid]
      rcases hpid with rfl | rfl <;> decide
  refine ⟨hok', upat :: upmt :: us, hpackets, ⟨⟨upat, upmt, us, rfl, hpatPid, hpmtPid, hpatSection, hpmtSection⟩, ?_, ?_⟩, ?_⟩
  · rw [hstream videoPID (Or.inl rfl), (hplays.finds videoPID).assemble, filter_videoPID, h.keeps.1, List.map_map]
    rfl
  · rw [hstream audioPID (Or.inr rfl), (hplays.finds audioPID).assemble, filter_audioPID]
    exact ⟨_, rfl, h.keeps.2⟩
  · intro pid
    have hnone : ∀ pid, pid ≠ videoPID → pid ≠ audioPID → us.filter (fun u => u.pid = pid) = [] := by
      intro pid hvideo haudio
      refine List.filter_eq_nil_iff.mpr fun u hu => ?_
      rcases hplays.pids u hu with hu | hu
      · rw [hu]
        simpa using hvideo.symm
      · rw [hu]
        simpa using haudio.symm
    have hnext : (k + 15 + 1) % 16 = k % 16 := Nat.add_mod_right k 16
    by_cases hpatHere : pid = TableCall.pat.pid
    · have hfilter : (upat :: upmt :: us).filter (fun u => u.pid = pid) = [upat] := by
        rw [hpatHere, List.filter_cons_of_pos (by simpa using hpatPid), List.filter_cons_of_neg (by rw [hpmtPid]; decide),
          hnone _ (by decide) (by decide)]
      rw [hfilter, cursor, cursor, if_pos (Or.inl hpatHere), if_pos (Or.inl hpatHere)]
      refine ⟨?_, congrArg (· % 16) (Nat.add_right_comm k 1 15)⟩
      rw [List.map_singleton, hpatCc, List.length_singleton, countersFrom_succ, hnext]
      rfl
    by_cases hpmtHere : pid = (TableCall.pmt soundAac true).pid
    · have hfilter : (upat :: upmt :: us).filter (fun u => u.pid = pid) = [upmt] := by
        rw [hpmtHere, List.filter_cons_of_neg (by rw [hpatPid]; decide), List.filter_cons_of_pos (by simpa using hpmtPid),
          hnone _ (by decide) (by decide)]
      rw [hfilter, cursor, cursor, if_pos (Or.inr hpmtHere), if_pos (Or.inr hpmtHere)]
      refine ⟨?_, congrArg (· % 16) (Nat.add_right_comm k 1 15)⟩
      rw [List.map_singleton, hpmtCc, List.length_singleton, countersFrom_succ, hnext]
      rfl
    · have hfilter : (upat :: upmt :: us).filter (fun u => u.pid = pid) = us.filter fun u => u.pid = pid := by
        rw [List.filter_cons_of_neg (by simpa [hpatPid] using Ne.symm hpatHere),
          List.filter_cons_of_neg (by simpa [hpmtPid] using Ne.symm hpmtHere)]
      have hneither := not_or.mpr ⟨hpatHere, hpmtHere⟩
      rw [hfilter, cursor, cursor, if_neg hneither, if_neg hneither]
      exact ⟨(hplays.finds pid).counters, hplays.counter pid⟩

/-- Segment after segment. The induction is on the segments, from any number of them and any muxer in front. -/
theorem found_segments {items : List TSItem} {segments : List Stretch} (h : List.Forall₂ IsSegment items segments)
    {k : Nat} (htables : ∀ j item, items[j]? = some item → tablesAt (k + j) <+: item.data) {muxer muxer' : Muxer}
    (hmuxes : Muxer.Muxes muxer (segments.flatMap (·.calls)) muxer') (hok : Muxer.Ok muxer)
    (hframes : ∀ p ∈ segments.flatMap (·.accepted), p.header ≠ none ∧ FillsPacket p) :
    ∃ found : List (List AvPacket × List TransportPacket),
      List.Forall₂ (fun item x => demux (packetsOf item.data) = some x.2 ∧ Found x.1 x.2) items found ∧
      found.map Prod.fst = segments.map (·.accepted) ∧
      ∀ pid, ((found.flatMap Prod.snd).filter fun u => u.pid = pid).map (·.cc) =
        countersFrom (cursor k pid muxer) ((found.flatMap Prod.snd).filter fun u => u.pid = pid).length := by
  induction h generalizing k muxer with
  | nil => exact ⟨[], .nil, rfl, fun pid => rfl⟩
  | @cons item s items segments hsegment _ ih =>
      rw [List.flatMap_cons] at hmuxes hframes
      obtain ⟨hhere, hthere⟩ := List.forall_mem_append.mp hframes
      obtain ⟨muxer1, hfront, hback⟩ := hmuxes.split
      have hplay := hsegment.playable (fun p hp => (hhere p hp).1) fun p hp => (hhere p hp).2
      obtain ⟨hok1, us, hdemux, hfound, hcounted⟩ := hsegment.found (htables 0 item rfl) hfront hok hplay
      have htables' : ∀ j item, items[j]? = some item → tablesAt (k + 1 + j) <+: item.data := by
        intro j item hj
        have hnext := htables (j + 1) item hj
        rwa [Nat.add_left_comm, Nat.add_comm j] at hnext
      obtain ⟨found, hitems, haccepted, hcounters⟩ := ih htables' hback hok1 hthere
      refine ⟨(s.accepted, us) :: found, .cons ⟨hdemux, hfound⟩ hitems, by rw [List.map_cons, List.map_cons, haccepted], ?_⟩
      intro pid
      obtain ⟨hcc, hcursor⟩ := hcounted pid
      rw [List.flatMap_cons, List.filter_append, List.map_append, List.length_append, countersFrom_add, hcc, hcounters pid]
      congr 1
      exact TsTables.countersFrom_congr (hcursor.trans (Nat.mod_mod _ 16).symm) _

theorem tabled_new (key : String) : Tabled { key } := by
  refine ⟨fun k item hk => absurd hk ?_, ⟨⟨?_, rfl⟩, ?_, rfl⟩, fun w hw => ?_⟩
  · simp
  · exact Nat.zero_le 16
  · exact Nat.zero_le 16
  · cases hw

/-- What is found in the segments that a new source has cut off. -/
theorem found_setItems {key : String} {arrivals : List (Int × AvPacket)}
    (hp : ∀ a ∈ arrivals, a.2.isMetadata = false → Framed a.2)
    (hfills : ∀ p ∈ sinceKeyFrame (acceptAll (arrivals.map Prod.snd) {}), FillsPacket p) {source : Source}
    (hrun : Source.sendPacket arrivals { key } = .ok () source) :
    ∃ found : List (List AvPacket × List TransportPacket),
      List.Forall₂ (fun item x => demux (packetsOf item.data) = some x.2 ∧ Found x.1 x.2) source.setItems found ∧
      found.flatMap Prod.fst <+: sinceKeyFrame (acceptAll (arrivals.map Prod.snd) {}) ∧
      ∀ pid, ((found.flatMap Prod.snd).filter fun u => u.pid = pid).map (·.cc) =
        countersFrom (cursor 0 pid Muxer.newMuxer) ((found.flatMap Prod.snd).filter fun u => u.pid = pid).length := by
  have hidle : Segmented { key } [] [] none := .idle ⟨rfl, rfl, rfl, rfl, rfl, rfl⟩ rfl
  obtain ⟨source1, segments, rest, hrun1, hsegmented⟩ := hidle.sendPacket hp
  cases hrun.symm.trans hrun1
  have hkeeps := hsegmented.keepsAll
  have htabled : Tabled source := by
    have hmeets := Source.sendPacket_keeps (fun _ _ _ h ht => Tabled.turns h ht) arrivals { key } (tabled_new key)
    rw [hrun] at hmeets
    exact hmeets.1
  have haccepted := hkeeps.accepted
  rw [List.nil_append, List.flatMap_append] at haccepted
  have hbegins : segments.flatMap (·.accepted) <+: sinceKeyFrame (acceptAll (arrivals.map Prod.snd) {}) := by
    rw [← haccepted]
    exact List.prefix_append _ _
  have hmuxes := hkeeps.muxes
  rw [List.flatMap_append] at hmuxes
  obtain ⟨muxer1, hfront, -⟩ := hmuxes.split
  have hframes : ∀ p ∈ segments.flatMap (·.accepted), p.header ≠ none ∧ FillsPacket p := by
    intro p hp'
    have hmem := hbegins.subset hp'
    exact ⟨header_of_mem_acceptAll (List.dropWhile_subset _ hmem), hfills p hmem⟩
  have htables : ∀ j item, source.setItems[j]? = some item → tablesAt (0 + j) <+: item.data := by
    intro j item hj
    rw [Nat.zero_add]
    exact htabled.items j item hj
  obtain ⟨found, hitems, hfst, hcounters⟩ := found_segments hkeeps.items htables hfront Muxer.ok_newMuxer hframes
  refine ⟨found, hitems, ?_, hcounters⟩
  rwa [List.flatMap, hfst]

/-- A key frame of H.264 between start codes, and an inter frame. -/
def samplePicture (frameType : UInt8) (timeStamp : Nat) : AvPacket where
  isVideo := true
  timeStamp := timeStamp
  data := [frameType, 0x01, 0x00, 0x00, 0x00, 0x00, 0x00, 0x00, 0x01, 0x65] ++ List.replicate 170 0x80

/-- Two segments and the beginning of a third. -/
def samplePictures : List (Int × AvPacket) :=
  [(100, { isAudio := true, data := [0xaf, 0x00, 0x12, 0x10] }), (100, samplePicture 0x17 0),
    (101, { isAudio := true, timeStamp := 20, data := [0xaf, 0x01, 0x21] }), (103, samplePicture 0x27 3000),
    (104, samplePicture 0x17 3040), (107, samplePicture 0x27 6040), (108, samplePicture 0x17 6080)]

end Hls

end Livego
