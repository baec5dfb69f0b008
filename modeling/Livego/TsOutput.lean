import Livego.TsKeyFrame

/-! What the muxer writes: whole transport packets, one at least for each call, and the same whatever the writer holds
already. A run of calls is the list of what each of them was handed and what it wrote. -/

namespace Livego

open Fallible

theorem length_copyAt (i : Nat) (src dst : Bytes) : (copyAt i src dst).length = dst.length := by
  simp only [copyAt, List.length_append, List.length_take, List.length_drop]
  omega

namespace Muxer

theorem length_layOut (p : Packet) (v : MuxLoop) (cc : Nat) (b : Bytes) : (layOut p v cc b).1.length = b.length := by
  have hfield : ∀ (i r : Nat) (b : Bytes), (adaptationBufInit i r b).length = b.length := by
    intro i r b
    unfold adaptationBufInit
    dsimp only
    split_ifs
    · exact length_copyAt _ _ _
    · exact length_copyAt _ _ _
  unfold layOut
  dsimp only
  split_ifs <;> simp only [hfield, haveAdaptation, writeHeader, List.length_modify, length_copyAt]

theorem length_putPes {pes : PesHeader} {v v' : MuxLoop} {b b' : Bytes} {i i' : Nat}
    (h : putPes pes v b i = some (v', b', i')) : b'.length = b.length := by
  unfold putPes at h
  dsimp only at h
  split_ifs at h
  · cases h
    exact length_copyAt _ _ _
  · cases h
    exact length_copyAt _ _ _
  · cases h
    rfl

theorem length_putData {p : Packet} {v v' : MuxLoop} {b b' : Bytes} {i : Nat}
    (h : putData p v b i = some (v', b')) : b'.length = b.length := by
  unfold putData at h
  dsimp only at h
  split_ifs at h
  · cases h
    exact length_copyAt _ _ _
  · cases h
    exact length_copyAt _ _ _
  · cases h
    rfl

/-- A call writes these packets, whole ones, and leaves the muxer ready for the next. -/
structure Writes {α : Type} (x : Call GoError (Muxer × List Bytes) α) (muxer : Muxer) (a : α) (muxer' : Muxer)
    (packets : List Bytes) : Prop where
  call : ∀ out, x (muxer, out) = .ok a (muxer', out ++ packets)
  whole : ∀ b ∈ packets, b.length = tsPacketLen
  ok : Ok muxer'

theorem writes_muxTurn {p : Packet} {pes : PesHeader} {v : MuxLoop} {muxer muxer' : Muxer} {out w : List Bytes}
    {r : MuxLoop ⊕ Unit} (h : Ok muxer) (hturn : muxTurn collect p pes v (muxer, out) = .ok r (muxer', w)) :
    ∃ packets, w = out ++ packets ∧ Writes (muxTurn collect p pes v) muxer r muxer' packets := by
  unfold muxTurn at hturn
  dsimp only at hturn
  split_ifs at hturn with hend
  · cases hturn
    refine ⟨[], (List.append_nil out).symm, fun out => ?_, fun b hb => absurd hb List.not_mem_nil, h⟩
    rw [muxTurn_decreases_end hend, List.append_nil]
  · have hok := h.count p
    split at hturn
    · cases hturn
    · next v1 b1 i1 hpes =>
      split at hturn
      · cases hturn
      · next v2 b2 hdata =>
        cases hturn
        have hlen : b2.length = tsPacketLen := by
          rw [length_putData hdata, length_putPes hpes, length_layOut]
          exact hok.tsPacket
        refine ⟨[b2], rfl, fun out => ?_, ?_, hok.videoCc, hok.audioCc, hlen⟩
        · simp only [muxTurn, if_neg hend, hpes, hdata, collect, Call.modify_apply]
        · intro b hb
          rwa [List.mem_singleton.mp hb]

theorem writes_loop {p : Packet} {pes : PesHeader} {fuel : Nat} {v : MuxLoop} {muxer muxer' : Muxer}
    {out w : List Bytes} (h : Ok muxer)
    (hloop : Call.loop (muxTurn collect p pes) fuel v (muxer, out) = .ok () (muxer', w)) :
    ∃ packets, w = out ++ packets ∧ Writes (Call.loop (muxTurn collect p pes) fuel v) muxer () muxer' packets := by
  induction fuel generalizing v muxer out with
  | zero => cases hloop
  | succ fuel ih =>
      rw [Call.loop_succ] at hloop
      cases hturn : muxTurn collect p pes v (muxer, out) with
      | ok r s =>
          obtain ⟨muxer1, w1⟩ := s
          obtain ⟨packets1, rfl, hwrites1⟩ := writes_muxTurn h hturn
          rw [hturn] at hloop
          cases r with
          | inl v1 =>
              obtain ⟨packets2, rfl, hwrites2⟩ := ih hwrites1.ok hloop
              refine ⟨packets1 ++ packets2, List.append_assoc _ _ _, fun out => ?_, ?_, hwrites2.ok⟩
              · rw [Call.loop_succ, hwrites1.call out]
                dsimp only
                rw [hwrites2.call, List.append_assoc]
              · intro b hb
                rcases List.mem_append.mp hb with hb | hb
                · exact hwrites1.whole b hb
                · exact hwrites2.whole b hb
          | inr a =>
              cases hloop
              refine ⟨packets1, rfl, fun out => ?_, hwrites1.whole, hwrites1.ok⟩
              rw [Call.loop_succ, hwrites1.call out]
      | err e s =>
          rw [hturn] at hloop
          cases hloop
      | panic f =>
          rw [hturn] at hloop
          cases hloop
      | diverge =>
          rw [hturn] at hloop
          cases hloop

/-- What `Mux` can be handed: audio, or video with a header. -/
def HasHeader (p : Packet) : Prop := p.isVideo = true → p.header ≠ none

theorem HasHeader.ptsOf_eq {p : Packet} (hp : HasHeader p) : ∃ pts, ptsOf p = some pts := by
  unfold ptsOf
  split_ifs with hvideo
  · obtain ⟨videoH, hheader⟩ := Option.ne_none_iff_exists'.mp (hp hvideo)
    exact ⟨_, by rw [hheader, Option.map_some]⟩
  · exact ⟨_, rfl⟩

/-- `Mux` returns without an error, and has written a packet. -/
theorem mux_returns {p : Packet} (hp : HasHeader p) {muxer : Muxer} (h : Ok muxer) (out : List Bytes) :
    ∃ muxer' packets, mux collect p (muxer, out) = .ok () (muxer', out ++ packets) ∧ packets ≠ [] := by
  by_cases hinter : InterFrame p
  · obtain ⟨muxer', packets, hmux, -, hne, -⟩ := mux_carries hinter h out
    exact ⟨muxer', packets, hmux, hne⟩
  · have hvideo : p.isVideo = true := by
      by_contra hvideo
      exact hinter fun hv => absurd hv hvideo
    obtain ⟨videoH, hheader⟩ := Option.ne_none_iff_exists'.mp (hp hvideo)
    have hkey : videoH.isKeyFrame = true := by
      by_contra hkey
      exact hinter fun _ => ⟨videoH, hheader, Bool.eq_false_iff.mpr hkey⟩
    obtain ⟨muxer', b, packets, hmux, -⟩ := mux_keyFrame hvideo hheader hkey h out
    exact ⟨muxer', _, hmux, List.cons_ne_nil _ _⟩

theorem writes_mux {p : Packet} (hp : HasHeader p) {muxer : Muxer} (h : Ok muxer) :
    ∃ muxer' packets, packets ≠ [] ∧ Writes (mux collect p) muxer () muxer' packets := by
  obtain ⟨pts, hpts⟩ := hp.ptsOf_eq
  obtain ⟨muxer', packets, hmux, hne⟩ := mux_returns hp h []
  rw [mux_eq hpts] at hmux ⊢
  obtain ⟨packets', heq, hwrites⟩ := writes_loop h hmux
  rw [List.nil_append, List.nil_append] at heq
  subst heq
  exact ⟨muxer', packets, hne, hwrites⟩

/-! ### Runs of calls -/

/-- The calls that take one muxer to another, each with what it wrote. -/
inductive Muxes : Muxer → List (Packet × List Bytes) → Muxer → Prop
  | nil (muxer : Muxer) : Muxes muxer [] muxer
  | cons {p : Packet} {packets : List Bytes} {muxer muxer1 muxer2 : Muxer} {calls : List (Packet × List Bytes)}
      (call : ∀ out, mux collect p (muxer, out) = .ok () (muxer1, out ++ packets)) (rest : Muxes muxer1 calls muxer2) :
      Muxes muxer ((p, packets) :: calls) muxer2

theorem Muxes.snoc {muxer muxer1 muxer2 : Muxer} {calls : List (Packet × List Bytes)} {p : Packet}
    {packets : List Bytes} (h : Muxes muxer calls muxer1)
    (hcall : ∀ out, mux collect p (muxer1, out) = .ok () (muxer2, out ++ packets)) :
    Muxes muxer (calls ++ [(p, packets)]) muxer2 := by
  induction h with
  | nil muxer => exact .cons hcall (.nil muxer2)
  | cons call _ ih => exact .cons call (ih hcall)

/-- Such a run is what `Mux` writes for one packet after the other. -/
theorem Muxes.muxAll {muxer muxer' : Muxer} {calls : List (Packet × List Bytes)} (h : Muxes muxer calls muxer')
    (out : List Bytes) :
    muxAll (calls.map Prod.fst) (muxer, out) = .ok () (muxer', out ++ calls.flatMap Prod.snd) := by
  induction h generalizing out with
  | nil muxer => simp [Muxer.muxAll]
  | cons call _ ih =>
      rw [List.map_cons, Muxer.muxAll, Call.bind_of_ok (call out), ih, List.flatMap_cons, List.append_assoc]

end Muxer

end Livego
