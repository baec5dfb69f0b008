import Livego.StaticPushOwned

/-! Whose the static pushes are. As long as the loops that run at the same time push to different URLs, a push takes the
packets of one stream only, from its start to its stop, and is gone with its loop. -/

namespace Livego

open Machine

open StaticPush (chunk pushUrls Asked Fills DistinctTargets)

namespace PushedStreams

variable {apps : List StaticPush.Application} {s t : PushedStreams} {i o : Nat} {v : Bytes} {stage : Stage} {e : Event}

theorem live_of_eq (hstage : (s.loop i).stage = stage) (hlive : stage.Live) : (s.loop i).stage.Live := hstage ▸ hlive

theorem inv_goOnEnd (h : Inv apps s) (hurls : (s.loop i).urls = []) (hstep : goOnEnd i s = some t) : Inv apps t := by
  rw [goOnEnd] at hstep
  split at hstep
  · next hstage =>
    cases hstep
    refine h.started (live_of_eq hstage ⟨nofun, nofun⟩) hurls (Or.inl ?_) ?_ ?_ <;> rw [hstage] <;> rfl
  · next p hstage =>
    cases hstep
    have hl := live_of_eq hstage ⟨nofun, nofun⟩
    refine h.started hl hurls (Or.inr (((h.loops i hl).isSend p hstage).symm.trans hurls)) ?_ ?_ <;> rw [hstage] <;> rfl
  · next hstage =>
    cases hstep
    refine h.started (live_of_eq hstage ⟨nofun, nofun⟩) hurls (Or.inl ?_) ?_ ?_ <;> rw [hstage] <;> rfl
  · next hstage =>
    cases hstep
    exact h.ended (live_of_eq hstage ⟨nofun, nofun⟩) hurls hstage
  · cases hstep

theorem inv_goOnAt {urls : List Bytes} (hdistinct : DistinctTargets apps) (h : Inv apps s)
    (hurls : (s.loop i).urls = v :: urls) (hstep : goOnAt apps i v urls s = some t) : Inv apps t := by
  rw [goOnAt] at hstep
  split at hstep
  · next hstage =>
    obtain ⟨hnone, hinv⟩ := h.getAndCreate (live_of_eq hstage ⟨nofun, nofun⟩) hurls hstage
    rw [hnone] at hstep
    cases hstep
    exact hinv
  · next hstage =>
    cases hstep
    exact h.create (live_of_eq hstage ⟨nofun, nofun⟩) hurls hstage
  · next o hstage =>
    obtain ⟨hflag, hinv⟩ := h.start (live_of_eq hstage ⟨nofun, nofun⟩) hurls hstage
    rw [hflag] at hstep
    cases hstep
    exact hinv
  · next o hstage =>
    cases hstep
    exact h.spawn (live_of_eq hstage ⟨nofun, nofun⟩) hurls hstage
  · next o hstage =>
    cases hstep
    exact h.setFlag hdistinct (live_of_eq hstage ⟨nofun, nofun⟩) hurls hstage
  · next p hstage =>
    have hl := live_of_eq hstage ⟨nofun, nofun⟩
    obtain ⟨⟨o, hlookup⟩, hinv⟩ := h.isSend hl hurls hstage
    have hurls' : pushUrls apps (s.loop i).key s.pushUrlList = (targets apps s i, s.pushUrlList) :=
      Prod.ext rfl (h.asked i hl.1).pushUrls_snd
    rw [if_pos (Option.isSome_of_eq_some hlookup), hurls'] at hstep
    cases hstep
    exact hinv
  · next p hstage =>
    obtain ⟨o, hlookup, hinv⟩ := h.send (live_of_eq hstage ⟨nofun, nofun⟩) hurls hstage
    rw [hlookup] at hstep
    cases hstep
    exact hinv
  · next p o hstage =>
    have hinv := h.writeAvPacket hdistinct (live_of_eq hstage ⟨nofun, nofun⟩) hurls hstage
    split_ifs at hstep hinv
    · cases hstep
      exact hinv
    · cases hstep
      exact hinv
  · next p o hstage =>
    split_ifs at hstep
    cases hstep
    exact h.enqueue hdistinct (live_of_eq hstage ⟨nofun, nofun⟩) hurls hstage
  · next hstage =>
    obtain ⟨o, hlookup, hinv⟩ := h.get (live_of_eq hstage ⟨nofun, nofun⟩) hurls hstage
    rw [hlookup] at hstep
    cases hstep
    exact hinv
  · next o hstage =>
    have hinv := h.stop (live_of_eq hstage ⟨nofun, nofun⟩) hurls hstage
    split_ifs at hstep hinv
    · cases hstep
      exact hinv
    · cases hstep
      exact hinv
  · next o hstage =>
    cases hstep
    exact h.clearFlag (live_of_eq hstage ⟨nofun, nofun⟩) hurls hstage
  · next hstage =>
    cases hstep
    exact h.release hdistinct (live_of_eq hstage ⟨nofun, nofun⟩) hurls hstage
  · cases hstep

theorem inv_step (hdistinct : DistinctTargets apps) (h : Inv apps s) (hapart : Apart apps s e)
    (hstep : step apps s e = some t) : Inv apps t := by
  cases e with
  | begins i key =>
      simp only [step, Option.ite_none_right_eq_some, Option.some.injEq] at hstep
      obtain ⟨hidle, rfl⟩ := hstep
      have hnodup : ∀ l ∈ (pushUrls apps key s.pushUrlList).2, l.Nodup :=
        (StaticPush.nodup_pushUrls hdistinct h.distinct).2
      have hasked : Asked key (pushUrls apps key s.pushUrlList).2 := StaticPush.asked_pushUrls
      have hbegins := (h.fills StaticPush.fills_pushUrls hnodup).begins hidle hasked fun j hj => ?_
      · rw [StaticPush.pushUrls_again] at hbegins
        exact hbegins
      · rw [h.targets_fills StaticPush.fills_pushUrls j hj.1, StaticPush.pushUrls_again]
        exact hapart j hj
  | goesOn i =>
      rw [step] at hstep
      split at hstep
      · next hurls => exact inv_goOnEnd h hurls hstep
      · next hurls => exact inv_goOnAt hdistinct h hurls hstep
  | connects i streamID =>
      simp only [step] at hstep
      split at hstep
      · next hstage hurls =>
        cases hstep
        exact h.connected (live_of_eq hstage ⟨nofun, nofun⟩) hurls hstage _
      · next hstage hurls =>
        cases hstep
        exact h.refused hdistinct (live_of_eq hstage ⟨nofun, nofun⟩) hurls hstage
      · cases hstep
  | reads i p =>
      simp only [step, Option.ite_none_right_eq_some, Option.some.injEq] at hstep
      obtain ⟨hstage, rfl⟩ := hstep
      have hfills : Fills s.pushUrlList (isSendUrls apps (s.loop i).key s.pushUrlList).2 := StaticPush.fills_isSendUrls
      have hinv := h.fills hfills (StaticPush.nodup_isSendUrls hdistinct h.distinct)
      have hreads := hinv.reads hstage p
      rw [h.targets_fills hfills i (by rw [hstage]; exact nofun)] at hreads
      rw [StaticPush.isSendUrls_fst]
      exact hreads
  | ends i =>
      simp only [step, Option.ite_none_right_eq_some, Option.some.injEq] at hstep
      obtain ⟨hstage, rfl⟩ := hstep
      rw [(h.asked i (by rw [hstage]; exact nofun)).pushUrls_snd]
      exact h.ends hstage
  | tells i k =>
      rw [step] at hstep
      split at hstep
      · next o hstage =>
        rw [Option.ite_none_right_eq_some] at hstep
        obtain ⟨hselecting, hstep⟩ := hstep
        cases hstep
        have hl := live_of_eq hstage ⟨nofun, nofun⟩
        obtain ⟨v, urls, hurls⟩ := List.exists_cons_of_ne_nil ((h.loops i hl).atUrl (by rw [hstage]; trivial))
        rw [hurls]
        exact h.tell hl hurls hstage hselecting
      · cases hstep
  | works o k =>
      rw [step, Option.ite_none_right_eq_some] at hstep
      obtain ⟨ho, hstep⟩ := hstep
      obtain ⟨push, hworks, rfl⟩ := Option.map_eq_some_iff.mp hstep
      exact h.works ho (Push.works_of_eq_some hworks)

theorem inv_default : Inv apps {} where
  asked _ hidle := absurd rfl hidle
  distinct _ hl := nomatch hl
  loops _ hlive := absurd rfl hlive.1
  apart _ _ _ hlive _ := absurd rfl hlive.1
  world := {
    slots := fun _ hlive => absurd rfl hlive.1
    claimed := fun _ _ hlookup => nomatch hlookup
    named := fun _ _ hlookup => nomatch hlookup
    made := fun _ ho => absurd ho (Nat.not_lt_zero _)
    retired := fun _ ho => absurd ho (Nat.not_lt_zero _) }

theorem inv_run (hdistinct : DistinctTargets apps) {es : List Event} (hrun : run (step apps) es {} = some s)
    (hapart : Along (step apps) (Apart apps) es {}) : Inv apps s :=
  run_invariant (fun _ _ _ h hC hstep => inv_step hdistinct h hC hstep) inv_default hapart hrun

/-! ### What a push gets -/

/-- A push in the map has a loop that runs, and is as that loop expects. -/
theorem Inv.claimed (h : Inv apps s) (hlookup : s.staticPushMap.lookup v = some o) :
    (s.loop (s.push o).maker).stage.Live ∧ v ∈ targets apps s (s.push o).maker ∧
      ∃ o? life, (s.loop (s.push o).maker).expect v = some (o?, life) ∧ (s.push o).At life := by
  obtain ⟨i, hlive, hv⟩ := h.world.claimed v o hlookup
  have hslot := h.world.slots i hlive v hv
  cases hexpect : (s.loop i).expect v with
  | none =>
      rw [hexpect] at hslot
      exact nomatch hslot.symm.trans hlookup
  | some x =>
      rw [hexpect] at hslot
      obtain ⟨o', hlookup', -, rfl, hlife⟩ := hslot
      cases hlookup'.symm.trans hlookup
      exact ⟨hlive, hv, x.1, x.2, hexpect, hlife⟩

/-- While no two loops run that push to the same URL, what a push writes are the first packets of the stream of the loop
that put it into the map. It is stopped and not in the map any more when that loop has ended. When the loop is about to
read there is a push for every URL, and all that was read so far was written there, is in the hand of its goroutine or
waits, unless it could not be connected. -/
theorem pushes_own (hdistinct : DistinctTargets apps) {es : List Event} (hrun : run (step apps) es {} = some s)
    (hapart : Along (step apps) (Apart apps) es {}) :
    (∀ o < s.next, (s.push o).rtmpUrl ∈ targets apps s (s.push o).maker ∧
      (s.push o).Sent (s.loop (s.push o).maker).fed) ∧
    (∀ o < s.next, (s.loop (s.push o).maker).stage = .ended → (s.push o).startflag = false ∧
      ((s.push o).handlers = [] ∨ (s.push o).handlers = [.stopped]) ∧ ∀ u, s.staticPushMap.lookup u ≠ some o) ∧
    ∀ i, (s.loop i).stage = .read → ∀ u ∈ targets apps s i, ∃ o, s.staticPushMap.lookup u = some o ∧
      (s.push o).maker = i ∧ ((s.push o).Unused ∨ (s.push o).Flowing (s.loop i).fed) := by
  have h := inv_run hdistinct hrun hapart
  refine ⟨fun o ho => ⟨(h.world.made o ho).2, ?_⟩, fun o ho hended => ?_, fun i hstage u hu => ?_⟩
  · by_cases hin : s.staticPushMap.lookup (s.push o).rtmpUrl = some o
    · obtain ⟨-, -, o?, life, hexpect, hlife⟩ := h.claimed hin
      exact hlife.sent.mono (PushLoop.packets_prefix hexpect)
    · exact (h.world.retired o ho hin).sent
  · have hout : ∀ u, s.staticPushMap.lookup u ≠ some o := fun u hu => (h.claimed hu).1.2 hended
    have hretired := h.world.retired o ho (hout _)
    exact ⟨hretired.startflag, hretired.handlers, hout⟩
  · have hslot := h.world.slots i (live_of_eq hstage ⟨nofun, nofun⟩) u hu
    rw [PushLoop.expect_read hstage] at hslot
    obtain ⟨o, hlookup, -, hmaker, hlife⟩ := hslot
    exact ⟨o, hlookup, hmaker, hlife⟩

/-- An application that is pushed to another server. -/
def sampleApps : List StaticPush.Application :=
  [{ appname := lit "live", live := true, staticPush := [lit "rtmp://a/live"] }]

theorem distinct_sampleApps : DistinctTargets sampleApps := by
  intro app happ
  cases List.mem_singleton.mp happ
  exact List.nodup_singleton _

def sampleStart (i : Nat) : List Event :=
  [.goesOn i, .goesOn i, .goesOn i, .connects i (some 1), .goesOn i, .goesOn i, .goesOn i, .works i 0]

def samplePass (i : Nat) (p : AvPacket) : List Event :=
  [.reads i p, .goesOn i, .goesOn i, .goesOn i, .goesOn i, .goesOn i, .works i 0, .works i 0]

def sampleStop (i : Nat) : List Event :=
  [.ends i, .goesOn i, .goesOn i, .tells i 0, .goesOn i, .goesOn i, .goesOn i]

/-- What happens to two streams after their loops have begun: each gets a packet, and the first one ends. -/
def sampleEvents : List Event :=
  sampleStart 0 ++ sampleStart 1 ++ samplePass 0 { data := [1] } ++ samplePass 1 { data := [2] } ++ sampleStop 0

theorem apart_sampleEvents : Along (step sampleApps) (Apart sampleApps)
    (.begins 0 (lit "live/x") :: .begins 1 (lit "live/y") :: sampleEvents) {} := by
  refine ⟨fun j hj => absurd rfl hj.1, fun t ht => ⟨fun j hj => ?_, fun u _ => along_of_forall fun e he => ?_⟩⟩
  · simp only [step, Option.ite_none_right_eq_some, Option.some.injEq] at ht
    obtain ⟨-, rfl⟩ := ht
    by_cases hj0 : j = 0
    · rw [hj0, targets_self]
      exact List.disjoint_left.mpr (by decide +kernel)
    · rw [loop_setLoop, if_neg hj0] at hj
      exact absurd rfl hj.1
  · intro s
    have hnone : ∀ e ∈ sampleEvents, ∀ i key, e ≠ .begins i key := by
      simp [sampleEvents, sampleStart, samplePass, sampleStop]
    cases e with
    | begins i key => exact absurd rfl (hnone _ he i key)
    | _ => trivial

theorem pushes_own_sample :
    ∃ s, run (step sampleApps) (.begins 0 (lit "live/x") :: .begins 1 (lit "live/y") :: sampleEvents) {} = some s ∧
      (s.push 0).wire = [chunk 1 { data := [1] }] ∧ (s.push 0).startflag = false ∧
      ∃ o, s.staticPushMap.lookup (lit "rtmp://a/live/y") = some o ∧ (s.push o).maker = 1 := by
  have hrun : (run (step sampleApps) (.begins 0 (lit "live/x") :: .begins 1 (lit "live/y") :: sampleEvents) {}).any
      (fun s => decide ((s.push 0).wire = [chunk 1 { data := [1] }] ∧ s.next = 2 ∧
        (s.loop (s.push 0).maker).stage = .ended ∧ (s.loop 1).stage = .read ∧
        targets sampleApps s 1 = [lit "rtmp://a/live/y"])) = true := by decide +kernel
  obtain ⟨s, hs⟩ := Option.isSome_iff_exists.mp (Option.isSome_of_any hrun)
  rw [hs] at hrun
  obtain ⟨hwire, hnext, hended, hread, htargets⟩ := of_decide_eq_true hrun
  obtain ⟨-, hstopped, hpushes⟩ := pushes_own distinct_sampleApps hs apart_sampleEvents
  obtain ⟨hflag, -, -⟩ := hstopped 0 (hnext ▸ Nat.zero_lt_two) hended
  obtain ⟨o, hlookup, hmaker, -⟩ := hpushes 1 hread (lit "rtmp://a/live/y") (htargets ▸ List.mem_singleton_self _)
  exact ⟨s, hs, hwire, hflag, o, hlookup, hmaker⟩

end PushedStreams

end Livego
