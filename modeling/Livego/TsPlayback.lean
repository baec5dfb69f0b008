import Livego.TsBounds
import Livego.TsStream
import Livego.TsSections

/-! Playing a transport stream back. From a buffer of bytes a demultiplexer takes packets of 188 bytes. On each PID it
looks for PES packets and watches the continuity counter. A run of the muxer stands up to that with key frames in it,
as long as each of them fills its first packet. -/

namespace Livego

open Fallible

namespace TsDemux

/-- The packets in a buffer. -/
def packetsOf (b : Bytes) : List Bytes :=
  (List.range (b.length / tsPacketLen)).map fun i => (b.drop (tsPacketLen * i)).take tsPacketLen

/-- The counters on one PID go on by one, modulo 16. -/
def Unbroken (pid : Nat) (us : List TransportPacket) : Prop :=
  ((us.filter (·.pid = pid)).map (·.cc)).IsChain fun cc cc' => cc' = (cc + 1) % 16

theorem packetsOf_append {b : Bytes} (hb : b.length = tsPacketLen) (rest : Bytes) :
    packetsOf (b ++ rest) = b :: packetsOf rest := by
  have hP : tsPacketLen = 188 := rfl
  have hcount : (b ++ rest).length / tsPacketLen = rest.length / tsPacketLen + 1 := by
    rw [List.length_append, hb, hP]
    omega
  unfold packetsOf
  rw [hcount, List.range_succ_eq_map, List.map_cons, List.map_map, Nat.mul_zero, List.drop_zero, ← hb, List.take_left]
  congr 1
  apply List.map_congr_left
  intro i _
  dsimp only [Function.comp]
  rw [Nat.succ_eq_add_one, Nat.mul_add_one, Nat.add_comm, ← List.drop_drop, List.drop_left]

/-- Whole packets are found again one by one. -/
theorem packetsOf_flatten {bs : List Bytes} (h : ∀ b ∈ bs, b.length = tsPacketLen) : packetsOf bs.flatten = bs := by
  induction bs with
  | nil => rfl
  | cons b bs ih =>
      rw [List.flatten_cons, packetsOf_append (h b List.mem_cons_self), ih fun b' hb' => h b' (List.mem_cons_of_mem b hb')]

theorem isChain_countersFrom (cc n : Nat) : (countersFrom cc n).IsChain fun cc cc' => cc' = (cc + 1) % 16 := by
  induction n generalizing cc with
  | zero => exact .nil
  | succ n ih =>
      rw [countersFrom_succ]
      cases n with
      | zero => exact .singleton _
      | succ n =>
          have hrest := ih ((cc + 1) % 16)
          rw [countersFrom_succ] at hrest ⊢
          exact .cons_cons rfl hrest

/-- A packet in front of the others. -/
theorem demux_cons {b : Bytes} {u : TransportPacket} {packets : List Bytes} {us : List TransportPacket}
    (hparse : parse b = some u) (hdemux : demux packets = some us) : demux (b :: packets) = some (u :: us) := by
  simp only [demux] at hdemux ⊢
  simp only [List.mapM_cons, hparse, hdemux, Option.bind_eq_bind, Option.bind_some, Option.pure_def]

end TsDemux

open TsDemux

namespace Muxer

/-- Each turn counts the packet that it writes. -/
theorem counted_loop {p : Packet} {pes : PesHeader} {fuel : Nat} {v : MuxLoop} {muxer muxer' : Muxer}
    {out packets : List Bytes} (h : Ok muxer)
    (hloop : Call.loop (muxTurn collect p pes) fuel v (muxer, out) = .ok () (muxer', out ++ packets)) :
    Counted p packets.length muxer muxer' := by
  induction fuel generalizing v muxer out packets with
  | zero => cases hloop
  | succ fuel ih =>
      rw [Call.loop_succ] at hloop
      by_cases hend : v.packetBytesLen ≤ 0
      · rw [muxTurn_decreases_end hend] at hloop
        obtain ⟨rfl, hout⟩ := Prod.mk.inj (Outcome.ok.inj hloop).2
        rw [List.self_eq_append_right.mp hout]
        exact .zero h
      · cases hturn : muxTurn collect p pes v (muxer, out) with
        | ok r s =>
            obtain ⟨muxer1, out1⟩ := s
            obtain ⟨packets1, rfl, hwrites⟩ := writes_muxTurn h hturn
            obtain ⟨b, i, d, v2, b2, i2, v3, b3, -, -, -, hwrite, rfl, rfl⟩ := Indexed.muxTurn_cases hend hturn
            rw [hturn] at hloop
            obtain ⟨packets2, hout, -⟩ := writes_loop hwrites.ok hloop
            obtain ⟨rfl⟩ : packets = packets1 ++ packets2 := by
              rw [List.append_assoc] at hout
              exact List.append_cancel_left hout
            obtain ⟨rfl⟩ : [b3] = packets1 := List.append_cancel_left (Outcome.ok.inj hwrite).2
            rw [← List.append_assoc] at hloop
            rw [List.length_append, List.length_singleton, Nat.add_comm]
            have hcc : ∀ q, ccOf q { count p muxer with tsPacket := b3 } = ccOf q (count p muxer) := fun q => rfl
            exact .succ h hcc (ih hwrites.ok hloop)
        | err e s =>
            rw [hturn] at hloop
            cases hloop
        | panic f =>
            rw [hturn] at hloop
            cases hloop
        | diverge =>
            rw [hturn] at hloop
            cases hloop

theorem mux_counted {p : Packet} (hp : HasHeader p) {muxer muxer' : Muxer} {out packets : List Bytes} (h : Ok muxer)
    (hmux : mux collect p (muxer, out) = .ok () (muxer', out ++ packets)) : Counted p packets.length muxer muxer' := by
  obtain ⟨pts, hpts⟩ := hp.ptsOf_eq
  rw [mux_eq hpts] at hmux
  exact counted_loop h hmux

/-- What the muxer can pack up so that it is found again: a key frame has to fill its first packet, up to the end of it
or beyond. -/
structure Playable (p : Packet) : Prop where
  header : HasHeader p
  full : isKeyFrame p = true → (pesOf p).length = 176 ∨ tsDefaultDataLen ≤ (pesOf p).length

/-- The packets of a frame, key frame or not, carry its PES packet. -/
theorem Playable.carries {p : Packet} (hp : Playable p) {muxer : Muxer} (h : Ok muxer) :
    ∃ muxer' packets, (∀ out, mux collect p (muxer, out) = .ok () (muxer', out ++ packets)) ∧
      Carries (pidOf p) true (ccOf p muxer) (pesOf p) packets ∧ packets ≠ [] ∧ Counted p packets.length muxer muxer' := by
  obtain ⟨muxer', packets, hne, hwrites⟩ := writes_mux hp.header h
  refine ⟨muxer', packets, hwrites.call, ?_, hne, mux_counted hp.header h (hwrites.call [])⟩
  have hcall := hwrites.call []
  by_cases hinter : InterFrame p
  · obtain ⟨muxer1, packets1, hmux, hcarries, -⟩ := mux_carries hinter h []
    rw [hmux] at hcall
    obtain ⟨-, rfl⟩ := Prod.mk.inj (Outcome.ok.inj hcall).2
    exact hcarries
  · have hvideo : p.isVideo = true := by
      by_contra hvideo
      exact hinter fun hv => absurd hv hvideo
    obtain ⟨videoH, hheader⟩ := Option.ne_none_iff_exists'.mp (hp.header hvideo)
    have hkey : videoH.isKeyFrame = true := by
      by_contra hkey
      exact hinter fun _ => ⟨videoH, hheader, Bool.eq_false_iff.mpr hkey⟩
    have hfull := hp.full (by simp [isKeyFrame, hvideo, hheader, hkey])
    have hD : tsDefaultDataLen = 184 := rfl
    have hpay : firstPayload (pesOf p).length = 176 := by
      unfold firstPayload
      split_ifs <;> omega
    have hlen : ((pesOf p).take 176).length = 176 := by
      rw [List.length_take]
      omega
    have hpid : pidOf p = videoPID := by rw [pidOf, if_pos hvideo]
    obtain ⟨muxer1, b, packets1, hmux, -, htake, hcarries⟩ := mux_keyFrame hvideo hheader hkey h []
    rw [hmux] at hcall
    obtain ⟨-, rfl⟩ := Prod.mk.inj (Outcome.ok.inj hcall).2
    rw [hpay] at hcarries ⊢
    have hfront : b.take (tsPacketLen - 176) = clockBytes ((ccOf p muxer + 1) % 16) (dtsOf p) := htake
    have hparse := parse_clock (Nat.mod_lt (ccOf p muxer + 1) (by decide : 16 > 0)) (dtsOf p) hlen
    rw [← hfront, ← hpid] at hparse
    rw [← hpid] at hcarries
    have hall := Carries.cons hparse hcarries
    rwa [List.take_append_drop] at hall

/-- A run from one muxer to another, on any PID: the frames are found, and the counter that the muxer is left with is
that of the last packet. -/
structure Plays (calls : List (Packet × List Bytes)) (muxer muxer' : Muxer) (us : List TransportPacket) : Prop where
  demux : demux (calls.flatMap Prod.snd) = some us
  finds : ∀ pid, Finds pid (counter pid muxer) us (((calls.map Prod.fst).filter fun p => pidOf p = pid).map pesOf)
  counter : ∀ pid, counter pid muxer' % 16 = (counter pid muxer + (us.filter fun u => u.pid = pid).length) % 16
  pids : ∀ u ∈ us, u.pid = videoPID ∨ u.pid = audioPID

theorem Muxes.plays {muxer muxer' : Muxer} {calls : List (Packet × List Bytes)} (h : Muxes muxer calls muxer')
    (hok : Ok muxer) (hcalls : ∀ c ∈ calls, Playable c.1) : Ok muxer' ∧ ∃ us, Plays calls muxer muxer' us := by
  induction h with
  | nil muxer => exact ⟨hok, [], rfl, fun pid => .nil pid _, fun pid => rfl, fun u hu => absurd hu List.not_mem_nil⟩
  | @cons p packets muxer muxer1 muxer2 calls call rest ih =>
      obtain ⟨muxer1', packets', hmux, hcarries, hne, hcounted⟩ := (hcalls _ List.mem_cons_self).carries hok
      have hsame := call []
      rw [hmux] at hsame
      obtain ⟨rfl, rfl⟩ := Prod.mk.inj (Outcome.ok.inj hsame).2
      obtain ⟨us1, hdemux1, hpids1, -, hlength1, -⟩ := hcarries.demux
      obtain ⟨hok2, us2, hplays⟩ := ih hcounted.ok fun c hc => hcalls c (List.mem_cons_of_mem _ hc)
      refine ⟨hok2, us1 ++ us2, ?_, ?_, ?_, ?_⟩
      · rw [List.flatMap_cons]
        exact demux_append hdemux1 hplays.demux
      · intro pid
        have hrest := hplays.finds pid
        by_cases hpid : pid = pidOf p
        · subst hpid
          rw [hcounted.counter (pidOf p), if_pos rfl] at hrest
          have happend := Finds.append hdemux1 hcarries hne (fun _ => (ccOf_eq_counter p muxer).symm)
            (by rwa [if_pos rfl])
          rw [if_pos rfl] at happend
          simpa using happend
        · rw [hcounted.counter pid, if_neg hpid] at hrest
          have happend := Finds.append hdemux1 hcarries hne (fun heq => absurd heq hpid) (by rwa [if_neg hpid])
          rw [if_neg hpid] at happend
          rwa [List.map_cons, List.filter_cons_of_neg (by simpa using Ne.symm hpid)]
      · intro pid
        rw [hplays.counter pid, hcounted.counter pid, List.filter_append, List.length_append]
        by_cases hpid : pid = pidOf p
        · have hfilter : us1.filter (fun u => u.pid = pid) = us1 := by
            refine List.filter_eq_self.mpr fun u hu => ?_
            rw [hpids1 u hu]
            exact decide_eq_true hpid.symm
          rw [if_pos hpid, hfilter, hlength1]
          omega
        · have hfilter : us1.filter (fun u => u.pid = pid) = [] := by
            refine List.filter_eq_nil_iff.mpr fun u hu => ?_
            rw [hpids1 u hu]
            simpa using Ne.symm hpid
          rw [if_neg hpid, hfilter, List.length_nil, Nat.zero_add]
      · intro u hu
        rcases List.mem_append.mp hu with hu | hu
        · rw [hpids1 u hu]
          exact pidOf_cases p
        · exact hplays.pids u hu

/-- A run is one run after another. -/
theorem Muxes.split {muxer muxer' : Muxer} {calls calls' : List (Packet × List Bytes)}
    (h : Muxes muxer (calls ++ calls') muxer') : ∃ muxer1, Muxes muxer calls muxer1 ∧ Muxes muxer1 calls' muxer' := by
  induction calls generalizing muxer with
  | nil => exact ⟨muxer, .nil muxer, h⟩
  | cons c calls ih =>
      cases h with
      | cons call rest =>
          obtain ⟨muxer1, hfront, hback⟩ := ih rest
          exact ⟨muxer1, .cons call hfront, hback⟩

end Muxer

end Livego
