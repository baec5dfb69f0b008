import Livego.TsRoundTrip

/-! The stream of many frames: a demultiplexer finds, on each PID, the PES packets of the frames in order and
an unbroken continuity counter. -/

namespace Livego

open Fallible TsDemux

namespace Muxer

/-- The continuity counter of the last packet on a PID. -/
def counter (pid : Nat) (muxer : Muxer) : Nat :=
  if pid = videoPID then muxer.videoCc else if pid = audioPID then muxer.audioCc else 0

theorem ccOf_eq_counter (p : Packet) (muxer : Muxer) : ccOf p muxer = counter (pidOf p) muxer := by
  unfold ccOf counter pidOf
  cases p.isVideo <;> simp [videoPID, audioPID]

/-- The frames of one stream move the counter of its PID and no other. -/
theorem Counted.counter {p : Packet} {n : Nat} {muxer muxer' : Muxer} (h : Counted p n muxer muxer') (pid : Nat) :
    Muxer.counter pid muxer' =
      if pid = pidOf p then (Muxer.counter pid muxer + n) % 16 else Muxer.counter pid muxer := by
  have hof : ∀ q : Packet, pidOf q = pid → Muxer.counter pid muxer' =
      if pid = pidOf p then (Muxer.counter pid muxer + n) % 16 else Muxer.counter pid muxer := by
    rintro q rfl
    rw [← ccOf_eq_counter, ← ccOf_eq_counter, h.ccOf q]
  by_cases hv : pid = videoPID
  · exact hof ⟨true, 0, none, []⟩ hv.symm
  · by_cases ha : pid = audioPID
    · exact hof ⟨false, 0, none, []⟩ ha.symm
    · have hne : pid ≠ pidOf p := by
        rcases pidOf_cases p with hp | hp
        · rwa [hp]
        · rwa [hp]
      simp [Muxer.counter, hv, ha, hne]

/-- What a demultiplexer finds on one PID: these PES packets, with nothing in front of the first, and counters that
go on from `cc`. -/
structure Finds (pid cc : Nat) (us : List TransportPacket) (pes : List Bytes) : Prop where
  assemble : TsDemux.assemble (us.filter fun u => u.pid = pid) = ([], pes)
  counters : (us.filter fun u => u.pid = pid).map (·.cc) = countersFrom cc (us.filter fun u => u.pid = pid).length

theorem Finds.nil (pid cc : Nat) : Finds pid cc [] [] := ⟨rfl, rfl⟩

/-- The packets of a frame in front of a stream. -/
theorem Finds.append {pid pid' cc cc' : Nat} {s : Bytes} {packets : List Bytes} {us us' : List TransportPacket}
    {pes : List Bytes} (hdemux : demux packets = some us) (hcarries : Carries pid' true cc' s packets)
    (hne : packets ≠ []) (hcc : pid = pid' → cc = cc')
    (h : Finds pid (if pid = pid' then (cc + packets.length) % 16 else cc) us' pes) :
    Finds pid cc (us ++ us') (if pid = pid' then s :: pes else pes) := by
  obtain ⟨us1, hdemux1, hpid, hcounters, hlen, hassemble⟩ := hcarries.demux
  rw [hdemux] at hdemux1
  cases hdemux1
  by_cases heq : pid = pid'
  · subst heq
    rw [if_pos rfl] at h ⊢
    have hfilter : us.filter (fun u => u.pid = pid) = us := List.filter_eq_self.mpr (by simpa using hpid)
    have hus : us ≠ [] := by
      intro hnil
      rw [hnil] at hlen
      exact hne (List.eq_nil_of_length_eq_zero hlen.symm)
    constructor
    · rw [List.filter_append, hfilter, hassemble, if_pos ⟨hus, rfl⟩, h.assemble, List.append_nil]
    · rw [List.filter_append, hfilter, List.map_append, List.length_append, countersFrom_add, hcounters, h.counters,
        hcc rfl, hlen]
  · rw [if_neg heq] at h ⊢
    have hfilter : us.filter (fun u => u.pid = pid) = [] := by
      refine List.filter_eq_nil_iff.mpr fun u hu => ?_
      rw [hpid u hu]
      simpa using Ne.symm heq
    exact ⟨by rw [List.filter_append, hfilter]; exact h.assemble, by rw [List.filter_append, hfilter]; exact h.counters⟩

theorem demux_append {packets packets' : List Bytes} {us us' : List TransportPacket} (h : demux packets = some us)
    (h' : demux packets' = some us') : demux (packets ++ packets') = some (us ++ us') := by
  simp only [demux] at h h' ⊢
  simp [List.mapM_append, h, h']

/-- The frames of a list of packets, from any muxer between two frames. -/
theorem muxAll_finds {ps : List Packet} (hps : ∀ p ∈ ps, InterFrame p) {muxer : Muxer} (h : Ok muxer)
    (out : List Bytes) :
    ∃ muxer' packets us, muxAll ps (muxer, out) = .ok () (muxer', out ++ packets) ∧ demux packets = some us ∧
      ∀ pid, Finds pid (counter pid muxer) us ((ps.filter fun p => pidOf p = pid).map pesOf) := by
  induction ps generalizing muxer out with
  | nil => exact ⟨muxer, [], [], by simp [muxAll], rfl, fun pid => .nil pid _⟩
  | cons p ps ih =>
      obtain ⟨muxer1, packets1, hmux, hcarries, hne, hcounted⟩ := mux_carries (hps p List.mem_cons_self) h out
      obtain ⟨us1, hdemux1, -⟩ := hcarries.demux
      obtain ⟨muxer2, packets2, us2, hall, hdemux2, hfinds⟩ :=
        ih (fun q hq => hps q (List.mem_cons_of_mem p hq)) hcounted.ok (out ++ packets1)
      refine ⟨muxer2, packets1 ++ packets2, us1 ++ us2, ?_, demux_append hdemux1 hdemux2, ?_⟩
      · rw [muxAll, Call.bind_of_ok hmux, hall, List.append_assoc]
      · intro pid
        have hrest := hfinds pid
        by_cases hpid : pid = pidOf p
        · subst hpid
          rw [hcounted.counter (pidOf p), if_pos rfl] at hrest
          have happend := Finds.append hdemux1 hcarries hne (fun _ => (ccOf_eq_counter p muxer).symm)
            (by rwa [if_pos rfl])
          rw [if_pos rfl] at happend
          simpa using happend
        · rw [hcounted.counter pid, if_neg hpid] at hrest
          have happend := Finds.append hdemux1 hcarries hne (fun heq => absurd heq hpid) (by rwa [if_neg hpid])
          rw [if_neg hpid] at happend
          rwa [List.filter_cons_of_neg (by simpa using Ne.symm hpid)]

/-- Audio and inter frames, muxed one after the other, are a stream of transport packets on which a
demultiplexer finds every PES packet whole and in order, and counters that go on by one. -/
theorem muxAll_demux {ps : List Packet} (hps : ∀ p ∈ ps, InterFrame p) :
    ∃ muxer packets us, muxAll ps (newMuxer, []) = .ok () (muxer, packets) ∧ demux packets = some us ∧
      ∀ pid, assemble (us.filter fun u => u.pid = pid) = ([], (ps.filter fun p => pidOf p = pid).map pesOf) ∧
        (us.filter fun u => u.pid = pid).map (·.cc) =
          (List.range (us.filter fun u => u.pid = pid).length).map fun j => (j + 1) % 16 := by
  obtain ⟨muxer, packets, us, hall, hdemux, hfinds⟩ := muxAll_finds hps ok_newMuxer []
  refine ⟨muxer, packets, us, hall, hdemux, fun pid => ⟨(hfinds pid).assemble, ?_⟩⟩
  have hzero : counter pid newMuxer = 0 := by
    unfold counter
    split_ifs <;> rfl
  rw [(hfinds pid).counters, hzero, countersFrom]
  apply List.map_congr_left
  intro j _
  rw [Nat.zero_add, Nat.add_comm]

/-- An audio packet, an empty inter frame and one of more than a transport packet. -/
def sampleFrames : List Packet :=
  [⟨false, 0, none, [0xaf, 0x01]⟩, ⟨true, 40, some ⟨false, 40⟩, []⟩, ⟨true, 80, some ⟨false, 0⟩, List.replicate 200 1⟩]

theorem muxAll_demux_sample :
    ∃ muxer packets us, muxAll sampleFrames (newMuxer, []) = .ok () (muxer, packets) ∧ demux packets = some us ∧
      ∀ pid, assemble (us.filter fun u => u.pid = pid) =
          ([], (sampleFrames.filter fun p => pidOf p = pid).map pesOf) ∧
        (us.filter fun u => u.pid = pid).map (·.cc) =
          (List.range (us.filter fun u => u.pid = pid).length).map fun j => (j + 1) % 16 := by
  apply muxAll_demux
  intro p hp
  simp only [sampleFrames, List.mem_cons, List.not_mem_nil, or_false] at hp
  rcases hp with rfl | rfl | rfl
  · intro h
    cases h
  · intro _
    exact ⟨_, rfl, rfl⟩
  · intro _
    exact ⟨_, rfl, rfl⟩

end Muxer

end Livego
