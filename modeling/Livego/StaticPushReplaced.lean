import Livego.StaticPushRuns

/-! A stream whose static pushes another stream has stopped. Two loops that push to the same URL have the same push there,
and the one that ends first stops it and takes it out of the map, where only `StartStaticPush` puts one. -/

namespace Livego

open Machine

open StaticPush (pushUrls Asked Fills)

namespace Stage

/-- The loop is in `StopStaticPush`, or has ended. -/
def Stopping : Stage → Prop
  | .get | .stop _ | .tell _ | .clearFlag _ | .release | .ended => True
  | _ => False

/-- The loop has no push in its hand, and is not about to look for one to write to. -/
def Unpushed : Stage → Prop
  | .read | .isSend _ | .get | .ended => True
  | _ => False

end Stage

namespace PushedStreams

/-- What a step of the loop can do: only while it starts its pushes does it put one into the map, at one of its URLs. -/
structure Moves (j : Nat) (s t : PushedStreams) : Prop where
  others : ∀ i, i ≠ j → t.loop i = s.loop i
  key : (t.loop j).key = (s.loop j).key
  list : Fills s.pushUrlList t.pushUrlList
  starting : (t.loop j).stage.Starting → (s.loop j).stage.Starting ∧ (t.loop j).urls ⊆ (s.loop j).urls
  found : ∀ u o, t.staticPushMap.lookup u = some o →
    s.staticPushMap.lookup u = some o ∨ (s.loop j).stage.Starting ∧ u ∈ (s.loop j).urls

/-- The loop whose step it is, if it is one of a loop. -/
def Event.loop : Event → Nat
  | .begins i _ | .goesOn i | .connects i _ | .reads i _ | .ends i | .tells i _ => i
  | .works _ _ => 0

/-- The stages in which the loop can take the step. -/
def Event.Fits (stage : Stage) : Event → Prop
  | .begins _ _ => stage = .idle
  | .goesOn _ => stage ≠ .idle
  | .connects _ _ => ∃ o, stage = .connect o
  | .reads _ _ | .ends _ => stage = .read
  | .tells _ _ => ∃ o, stage = .tell o
  | .works _ _ => True

/-- No loop that starts its pushes has one of the URLs left. -/
def Quiet (us : List Bytes) (s : PushedStreams) : Prop :=
  ∀ j, (s.loop j).stage.Starting → List.Disjoint (s.loop j).urls us

variable (apps : List StaticPush.Application)

/-- No stream begins that is pushed to one of the URLs. -/
def Elsewhere (us : List Bytes) (s : PushedStreams) : Event → Prop
  | .begins _ key => List.Disjoint (pushUrls apps key s.pushUrlList).1 us
  | _ => True

/-- Of the URLs of a loop that stops its pushes, none that it has come to is in the map. -/
structure Closing (j : Nat) (us : List Bytes) (s : PushedStreams) : Prop where
  stopping : (s.loop j).stage.Stopping
  ended : (s.loop j).stage = .ended → (s.loop j).urls = []
  absent : ∀ u ∈ us, u ∈ (s.loop j).urls ∨ s.staticPushMap.lookup u = none
  quiet : Quiet us s

/-- The loop pushes to URLs that are not in the map. -/
structure Cut (i : Nat) (us : List Bytes) (s : PushedStreams) : Prop where
  asked : Asked (s.loop i).key s.pushUrlList
  targets : targets apps s i ⊆ us
  unpushed : (s.loop i).stage.Unpushed
  urls : (s.loop i).stage ≠ .read → (s.loop i).urls ⊆ us
  absent : ∀ u ∈ us, s.staticPushMap.lookup u = none
  quiet : Quiet us s

variable {apps} {s t : PushedStreams} {i j k o : Nat} {u v : Bytes} {us urls : List Bytes} {stage : Stage} {e : Event}

theorem moves_setLoop {w : PushedStreams} {l : PushLoop} (hloop : w.loop = s.loop)
    (hlist : Fills s.pushUrlList w.pushUrlList) (hkey : l.key = (s.loop j).key)
    (hstarting : l.stage.Starting → (s.loop j).stage.Starting ∧ l.urls ⊆ (s.loop j).urls)
    (hfound : ∀ u o, w.staticPushMap.lookup u = some o →
      s.staticPushMap.lookup u = some o ∨ (s.loop j).stage.Starting ∧ u ∈ (s.loop j).urls) : Moves j s (w.setLoop j l) := by
  have hself : (w.setLoop j l).loop j = l := by rw [loop_setLoop, if_pos rfl]
  refine ⟨fun i hne => ?_, ?_, hlist, ?_, hfound⟩
  · rw [loop_setLoop, if_neg hne, hloop]
  · rw [hself]
    exact hkey
  · rw [hself]
    exact hstarting

/-- A step that leaves the map as it is. -/
theorem moves_goTo {w : PushedStreams} (hloop : w.loop = s.loop) (hlist : Fills s.pushUrlList w.pushUrlList)
    (hmap : w.staticPushMap = s.staticPushMap)
    (hstarting : stage.Starting → (s.loop j).stage.Starting ∧ urls ⊆ (s.loop j).urls) :
    Moves j s (w.goTo j stage urls) := by
  refine moves_setLoop hloop hlist ?_ hstarting fun u o ho => Or.inl ?_
  · rw [hloop]
  · rw [← hmap]
    exact ho

theorem moves_goOnEnd (hstep : goOnEnd j s = some t) : Moves j s t := by
  unfold goOnEnd at hstep
  split at hstep <;> cases hstep <;> exact moves_goTo rfl (Or.inl rfl) rfl fun hstart => hstart.elim

theorem moves_goOnAt (hurls : (s.loop j).urls = v :: urls) (hstep : goOnAt apps j v urls s = some t) : Moves j s t := by
  have hstays : v :: urls ⊆ (s.loop j).urls := hurls ▸ List.Subset.refl _
  have hnext : urls ⊆ (s.loop j).urls := fun u hu => hstays (List.mem_cons_of_mem v hu)
  unfold goOnAt at hstep
  split at hstep
  · next hstage =>
    have hnow : (s.loop j).stage.Starting := hstage ▸ trivial
    split at hstep <;> cases hstep <;> exact moves_goTo rfl (Or.inl rfl) rfl fun _ => ⟨hnow, hstays⟩
  · next hstage =>
    have hnow : (s.loop j).stage.Starting := hstage ▸ trivial
    cases hstep
    refine moves_setLoop rfl (Or.inl rfl) rfl (fun _ => ⟨hnow, hstays⟩) fun u o ho => ?_
    have hinsert : (s.newStaticPush j v).staticPushMap.lookup u = if u = v then some s.next else
        s.staticPushMap.lookup u := SyncMap.lookup_insert_eq s.staticPushMap v u s.next
    rw [hinsert] at ho
    split_ifs at ho with hu
    · exact Or.inr ⟨hnow, hurls ▸ hu ▸ List.mem_cons_self⟩
    · exact Or.inl ho
  · next o hstage =>
    have hnow : (s.loop j).stage.Starting := hstage ▸ trivial
    split_ifs at hstep <;> cases hstep
    · exact moves_goTo rfl (Or.inl rfl) rfl fun _ => ⟨hnow, hnext⟩
    · exact moves_goTo rfl (Or.inl rfl) rfl fun _ => ⟨hnow, hstays⟩
  · next o hstage =>
    have hnow : (s.loop j).stage.Starting := hstage ▸ trivial
    cases hstep
    exact moves_goTo rfl (Or.inl rfl) rfl fun _ => ⟨hnow, hstays⟩
  · next o hstage =>
    have hnow : (s.loop j).stage.Starting := hstage ▸ trivial
    cases hstep
    exact moves_goTo rfl (Or.inl rfl) rfl fun _ => ⟨hnow, hnext⟩
  · split_ifs at hstep <;> cases hstep
    · exact moves_goTo rfl StaticPush.fills_pushUrls rfl fun hstart => hstart.elim
    · exact moves_goTo rfl (Or.inl rfl) rfl fun hstart => hstart.elim
  · split at hstep <;> cases hstep <;> exact moves_goTo rfl (Or.inl rfl) rfl fun hstart => hstart.elim
  · split_ifs at hstep <;> cases hstep <;> exact moves_goTo rfl (Or.inl rfl) rfl fun hstart => hstart.elim
  · split_ifs at hstep
    cases hstep
    exact moves_goTo rfl (Or.inl rfl) rfl fun hstart => hstart.elim
  · split at hstep <;> cases hstep <;> exact moves_goTo rfl (Or.inl rfl) rfl fun hstart => hstart.elim
  · split_ifs at hstep <;> cases hstep <;> exact moves_goTo rfl (Or.inl rfl) rfl fun hstart => hstart.elim
  · cases hstep
    exact moves_goTo rfl (Or.inl rfl) rfl fun hstart => hstart.elim
  · cases hstep
    refine moves_setLoop rfl (Or.inl rfl) rfl (fun hstart => hstart.elim) fun u o ho => Or.inl ?_
    have herase : (s.staticPushMap.erase v).lookup u = if u = v then none else s.staticPushMap.lookup u :=
      SyncMap.lookup_erase_eq s.staticPushMap v u
    have ho' : (s.staticPushMap.erase v).lookup u = some o := ho
    rw [herase] at ho'
    split_ifs at ho'
    exact ho'
  · cases hstep

theorem moves_step (hbegins : ∀ i key, e ≠ .begins i key) (hstep : step apps s e = some t) : Moves e.loop s t := by
  cases e with
  | begins i key => exact absurd rfl (hbegins i key)
  | goesOn i =>
      rw [step] at hstep
      split at hstep
      · exact moves_goOnEnd hstep
      · next hurls => exact moves_goOnAt hurls hstep
  | connects i streamID =>
      simp only [step] at hstep
      split at hstep
      · next o url urls streamID hstage hurls =>
        have hnow : (s.loop i).stage.Starting := hstage ▸ trivial
        have hstays : url :: urls ⊆ (s.loop i).urls := hurls ▸ List.Subset.refl _
        cases hstep
        exact moves_goTo rfl (Or.inl rfl) rfl fun _ => ⟨hnow, hstays⟩
      · next o url urls hstage hurls =>
        have hnow : (s.loop i).stage.Starting := hstage ▸ trivial
        have hnext : urls ⊆ (s.loop i).urls := fun u hu => hurls ▸ List.mem_cons_of_mem url hu
        cases hstep
        exact moves_goTo rfl (Or.inl rfl) rfl fun _ => ⟨hnow, hnext⟩
      · cases hstep
  | reads i p =>
      simp only [step, Option.ite_none_right_eq_some, Option.some.injEq] at hstep
      obtain ⟨-, rfl⟩ := hstep
      exact moves_setLoop rfl StaticPush.fills_isSendUrls rfl (fun hstart => hstart.elim) fun _ _ => Or.inl
  | ends i =>
      simp only [step, Option.ite_none_right_eq_some, Option.some.injEq] at hstep
      obtain ⟨-, rfl⟩ := hstep
      exact moves_goTo rfl StaticPush.fills_pushUrls rfl fun hstart => hstart.elim
  | tells i k =>
      rw [step] at hstep
      split at hstep
      · split_ifs at hstep
        cases hstep
        exact moves_goTo rfl (Or.inl rfl) rfl fun hstart => hstart.elim
      · cases hstep
  | works o k =>
      rw [step, Option.ite_none_right_eq_some] at hstep
      obtain ⟨-, hstep⟩ := hstep
      obtain ⟨push, -, rfl⟩ := Option.map_eq_some_iff.mp hstep
      exact ⟨fun _ _ => rfl, rfl, Or.inl rfl, fun hstart => ⟨hstart, List.Subset.refl _⟩, fun _ _ => Or.inl⟩

/-- A loop begins in no other way. -/
theorem begins_step {key : Bytes} (hstep : step apps s (.begins i key) = some t) :
    (s.loop i).stage = .idle ∧ t = { s with pushUrlList := (pushUrls apps key s.pushUrlList).2 }.setLoop i
      { key, stage := .getAndCreate, urls := (pushUrls apps key s.pushUrlList).1 } := by
  simp only [step, Option.ite_none_right_eq_some, Option.some.injEq] at hstep
  exact ⟨hstep.1, hstep.2.symm⟩

theorem fits_step (hstep : step apps s e = some t) : e.Fits (s.loop e.loop).stage := by
  cases e with
  | begins i key => exact (begins_step hstep).1
  | goesOn i =>
      intro hstage
      have hidle : (s.loop i).stage = .idle := hstage
      rw [step] at hstep
      split at hstep
      · rw [goOnEnd, hidle] at hstep
        cases hstep
      · rw [goOnAt, hidle] at hstep
        cases hstep
  | connects i streamID =>
      simp only [step] at hstep
      split at hstep
      · next hstage _ => exact ⟨_, hstage⟩
      · next hstage _ => exact ⟨_, hstage⟩
      · cases hstep
  | reads i p | ends i =>
      simp only [step, Option.ite_none_right_eq_some] at hstep
      exact hstep.1
  | tells i k =>
      rw [step] at hstep
      split at hstep
      · next hstage => exact ⟨_, hstage⟩
      · cases hstep
  | works o k => trivial

theorem quiet_step (h : Quiet us s) (helse : Elsewhere apps us s e) (hstep : step apps s e = some t) : Quiet us t := by
  intro i hstart
  by_cases hbegins : ∃ j key, e = .begins j key
  · obtain ⟨j, key, rfl⟩ := hbegins
    obtain ⟨-, rfl⟩ := begins_step hstep
    rw [loop_setLoop] at hstart ⊢
    split_ifs at hstart ⊢
    · exact helse
    · exact h i hstart
  · have hmoves := moves_step (fun j key he => hbegins ⟨j, key, he⟩) hstep
    by_cases hi : i = e.loop
    · rw [hi] at hstart ⊢
      obtain ⟨hnow, hsubset⟩ := hmoves.starting hstart
      exact fun u hu => h e.loop hnow (hsubset hu)
    · rw [hmoves.others i hi] at hstart ⊢
      exact h i hstart

/-- A URL that is not in the map stays out of it. -/
theorem absent_step (h : Quiet us s) (hu : u ∈ us) (hnone : s.staticPushMap.lookup u = none)
    (hstep : step apps s e = some t) : t.staticPushMap.lookup u = none := by
  by_cases hbegins : ∃ j key, e = .begins j key
  · obtain ⟨j, key, rfl⟩ := hbegins
    obtain ⟨-, rfl⟩ := begins_step hstep
    exact hnone
  · have hmoves := moves_step (fun j key he => hbegins ⟨j, key, he⟩) hstep
    rw [Option.eq_none_iff_forall_ne_some]
    intro o ho
    rcases hmoves.found u o ho with hsome | ⟨hnow, hmem⟩
    · cases hnone.symm.trans hsome
    · exact h e.loop hnow hmem hu

/-- What a loop has asked for stays as it is. -/
theorem asked_step (hi : (s.loop i).stage ≠ .idle) (h : Asked (s.loop i).key s.pushUrlList)
    (hstep : step apps s e = some t) : Asked (t.loop i).key t.pushUrlList ∧ targets apps t i = targets apps s i := by
  have hkept : (t.loop i).key = (s.loop i).key ∧ Fills s.pushUrlList t.pushUrlList := by
    by_cases hbegins : ∃ j key, e = .begins j key
    · obtain ⟨j, key, rfl⟩ := hbegins
      obtain ⟨hidle, rfl⟩ := begins_step hstep
      have hne : i ≠ j := fun heq => hi (heq ▸ hidle)
      refine ⟨?_, StaticPush.fills_pushUrls⟩
      rw [loop_setLoop, if_neg hne]
    · have hmoves := moves_step (fun j key he => hbegins ⟨j, key, he⟩) hstep
      refine ⟨?_, hmoves.list⟩
      by_cases heq : i = e.loop
      · rw [heq]
        exact hmoves.key
      · rw [hmoves.others i heq]
  rw [targets, hkept.1]
  exact ⟨h.fills hkept.2, h.pushUrls_eq hkept.2⟩

theorem others_step (hi : i ≠ e.loop) (hstep : step apps s e = some t) : t.loop i = s.loop i := by
  by_cases hbegins : ∃ j key, e = .begins j key
  · obtain ⟨j, key, rfl⟩ := hbegins
    obtain ⟨-, rfl⟩ := begins_step hstep
    have hne : i ≠ j := hi
    rw [loop_setLoop, if_neg hne]
  · exact (moves_step (fun j key he => hbegins ⟨j, key, he⟩) hstep).others i hi

theorem others_run {es : List Event} (hes : ∀ e ∈ es, i ≠ e.loop) (hrun : run (step apps) es s = some t) :
    t.loop i = s.loop i :=
  run_invariant (I := fun t => t.loop i = s.loop i) (C := fun _ e => i ≠ e.loop)
    (fun _ _ _ h hi hstep => (others_step hi hstep).trans h) rfl (along_of_forall fun e he _ => hes e he) hrun

/-- A step of another loop, or of a goroutine, or one of its own. -/
theorem loop_step (i : Nat) (hstep : step apps s e = some t) :
    t.loop i = s.loop i ∨ e.loop = i ∧ ∀ o k, e ≠ .works o k := by
  by_cases hworks : ∃ o k, e = .works o k
  · obtain ⟨o, k, rfl⟩ := hworks
    rw [step, Option.ite_none_right_eq_some] at hstep
    obtain ⟨-, hstep⟩ := hstep
    obtain ⟨push, -, rfl⟩ := Option.map_eq_some_iff.mp hstep
    exact Or.inl rfl
  · by_cases hi : i = e.loop
    · exact Or.inr ⟨hi.symm, fun o k he => hworks ⟨o, k, he⟩⟩
    · exact Or.inl (others_step hi hstep)

/-! ### The loop that stops the pushes, and the one that is left without them -/

theorem self_goTo {w : PushedStreams} : (w.goTo i stage urls).loop i = { w.loop i with stage, urls } := by
  rw [loop_goTo, if_pos rfl]

/-- What the closing loop has after a step of its own. -/
structure Closed (j : Nat) (us : List Bytes) (s t : PushedStreams) : Prop where
  stopping : (t.loop j).stage.Stopping
  ended : (t.loop j).stage = .ended → (t.loop j).urls = []
  absent : ∀ u ∈ us, u ∈ (s.loop j).urls → u ∈ (t.loop j).urls ∨ t.staticPushMap.lookup u = none

theorem closed_goTo {w : PushedStreams} (hstage : stage.Stopping) (hended : stage = .ended → urls = [])
    (habsent : ∀ u ∈ us, u ∈ (s.loop j).urls → u ∈ urls ∨ w.staticPushMap.lookup u = none) :
    Closed j us s (w.goTo j stage urls) := by
  refine ⟨?_, ?_, ?_⟩ <;> rw [self_goTo]
  · exact hstage
  · exact hended
  · exact habsent

theorem closed_goOnAt (hstopping : (s.loop j).stage.Stopping) (hurls : (s.loop j).urls = v :: urls)
    (hstep : goOnAt apps j v urls s = some t) : Closed j us s t := by
  have hat : ∀ {stage : Stage}, (s.loop j).stage = stage → stage.Stopping := fun hstage => hstage ▸ hstopping
  have hsame : ∀ u ∈ us, u ∈ (s.loop j).urls → u ∈ v :: urls ∨ s.staticPushMap.lookup u = none :=
    fun u _ hmem => Or.inl (hurls ▸ hmem)
  have hpassed : ∀ {map : SyncMap Bytes Nat}, map.lookup v = none → ∀ u ∈ us, u ∈ (s.loop j).urls →
      u ∈ urls ∨ map.lookup u = none := by
    intro map hnone u _ hmem
    rw [hurls] at hmem
    rcases List.mem_cons.mp hmem with rfl | hmem
    · exact Or.inr hnone
    · exact Or.inl hmem
  unfold goOnAt at hstep
  split at hstep
  · next hstage => exact (hat hstage).elim
  · next hstage => exact (hat hstage).elim
  · next hstage => exact (hat hstage).elim
  · next hstage => exact (hat hstage).elim
  · next hstage => exact (hat hstage).elim
  · next hstage => exact (hat hstage).elim
  · next hstage => exact (hat hstage).elim
  · next hstage => exact (hat hstage).elim
  · next hstage => exact (hat hstage).elim
  · split at hstep
    · cases hstep
      exact closed_goTo trivial (by simp) hsame
    · next hnone =>
      cases hstep
      exact closed_goTo trivial (by simp) (hpassed hnone)
  · split_ifs at hstep <;> cases hstep <;> exact closed_goTo trivial (by simp) hsame
  · cases hstep
    exact closed_goTo trivial (by simp) hsame
  · cases hstep
    have herase : (s.staticPushMap.erase v).lookup v = if v = v then none else s.staticPushMap.lookup v :=
      SyncMap.lookup_erase_eq s.staticPushMap v v
    exact closed_goTo trivial (by simp) (hpassed (herase.trans (if_pos rfl)))
  · cases hstep

theorem closed_goOnEnd (hstopping : (s.loop j).stage.Stopping) (hurls : (s.loop j).urls = [])
    (hstep : goOnEnd j s = some t) : Closed j us s t := by
  have hat : ∀ {stage : Stage}, (s.loop j).stage = stage → stage.Stopping := fun hstage => hstage ▸ hstopping
  unfold goOnEnd at hstep
  split at hstep
  · next hstage => exact (hat hstage).elim
  · next hstage => exact (hat hstage).elim
  · next hstage => exact (hat hstage).elim
  · cases hstep
    exact closed_goTo trivial (fun _ => rfl) fun u _ hmem => Or.inl (hurls ▸ hmem)
  · cases hstep

/-- The loop itself, at a URL or between two of them. -/
theorem closed_step (hstopping : (s.loop j).stage.Stopping) (he : e.loop = j) (hworks : ∀ o k, e ≠ .works o k)
    (hstep : step apps s e = some t) : Closed j us s t := by
  have hat : ∀ {stage : Stage}, (s.loop j).stage = stage → stage.Stopping := fun hstage => hstage ▸ hstopping
  have hfits := fits_step hstep
  rw [he] at hfits
  cases e with
  | begins | reads | ends => exact (hat hfits).elim
  | connects i streamID =>
      obtain ⟨o, hstage⟩ := hfits
      exact (hat hstage).elim
  | goesOn i =>
      have hij : i = j := he
      subst hij
      rw [step] at hstep
      split at hstep
      · next hurls => exact closed_goOnEnd hstopping hurls hstep
      · next hurls => exact closed_goOnAt hstopping hurls hstep
  | tells i k =>
      have hij : i = j := he
      subst hij
      rw [step] at hstep
      split at hstep
      · split_ifs at hstep
        cases hstep
        exact closed_goTo trivial (by simp) fun u _ hmem => Or.inl hmem
      · cases hstep
  | works o k => exact absurd rfl (hworks o k)

theorem closing_step (h : Closing j us s) (helse : Elsewhere apps us s e) (hstep : step apps s e = some t) :
    Closing j us t := by
  have hquiet := quiet_step h.quiet helse hstep
  have hout : ∀ u ∈ us, s.staticPushMap.lookup u = none → t.staticPushMap.lookup u = none :=
    fun u hu hnone => absent_step h.quiet hu hnone hstep
  rcases loop_step j hstep with hloop | ⟨he, hworks⟩
  · refine ⟨hloop ▸ h.stopping, hloop ▸ h.ended, fun u hu => ?_, hquiet⟩
    rw [hloop]
    exact (h.absent u hu).imp_right (hout u hu)
  · have hclosed : Closed j us s t := closed_step h.stopping he hworks hstep
    refine ⟨hclosed.stopping, hclosed.ended, fun u hu => ?_, hquiet⟩
    exact (h.absent u hu).elim (hclosed.absent u hu) fun hnone => Or.inr (hout u hu hnone)

/-- The loop whose pushes are gone looks for one before it sends, and finds none. -/
theorem unpushed_step (h : Cut apps i us s) (he : e.loop = i) (hworks : ∀ o k, e ≠ .works o k)
    (hstep : step apps s e = some t) : (t.loop i).stage.Unpushed ∧ (t.loop i).urls ⊆ us := by
  have hat : ∀ {stage : Stage}, (s.loop i).stage = stage → stage.Unpushed := fun hstage => hstage ▸ h.unpushed
  have hgoTo : ∀ {w : PushedStreams} {stage : Stage} {urls : List Bytes}, t = w.goTo i stage urls → stage.Unpushed →
      urls ⊆ us → (t.loop i).stage.Unpushed ∧ (t.loop i).urls ⊆ us := by
    intro w stage urls heq hstage hurls
    rw [heq, self_goTo]
    exact ⟨hstage, hurls⟩
  have hfits := fits_step hstep
  rw [he] at hfits
  cases e with
  | begins => exact (hat hfits).elim
  | connects | tells =>
      obtain ⟨o, hstage⟩ := hfits
      exact (hat hstage).elim
  | goesOn j =>
      have hji : j = i := he
      subst hji
      rw [step] at hstep
      split at hstep
      · unfold goOnEnd at hstep
        split at hstep
        · next hstage => exact (hat hstage).elim
        · cases hstep
          exact hgoTo rfl trivial (List.nil_subset us)
        · next hstage => exact (hat hstage).elim
        · cases hstep
          exact hgoTo rfl trivial (List.nil_subset us)
        · cases hstep
      · next v urls hurls =>
        have hfound : (s.loop j).stage ≠ .read → s.staticPushMap.lookup v = none ∧ urls ⊆ us := by
          intro hread
          have hsubset : v :: urls ⊆ us := hurls ▸ h.urls hread
          exact ⟨h.absent v (hsubset List.mem_cons_self), List.subset_of_cons_subset hsubset⟩
        unfold goOnAt at hstep
        split at hstep
        · next hstage => exact (hat hstage).elim
        · next hstage => exact (hat hstage).elim
        · next hstage => exact (hat hstage).elim
        · next hstage => exact (hat hstage).elim
        · next hstage => exact (hat hstage).elim
        · next hstage =>
          obtain ⟨hnone, hnext⟩ := hfound (by simp [hstage])
          rw [hnone] at hstep
          cases hstep
          exact hgoTo rfl trivial hnext
        · next hstage => exact (hat hstage).elim
        · next hstage => exact (hat hstage).elim
        · next hstage => exact (hat hstage).elim
        · next hstage =>
          obtain ⟨hnone, hnext⟩ := hfound (by simp [hstage])
          rw [hnone] at hstep
          cases hstep
          exact hgoTo rfl trivial hnext
        · next hstage => exact (hat hstage).elim
        · next hstage => exact (hat hstage).elim
        · next hstage => exact (hat hstage).elim
        · cases hstep
  | reads j p =>
      have hji : j = i := he
      subst hji
      simp only [step, Option.ite_none_right_eq_some, Option.some.injEq] at hstep
      obtain ⟨-, rfl⟩ := hstep
      rw [loop_setLoop, if_pos rfl, StaticPush.isSendUrls_fst]
      exact ⟨trivial, h.targets⟩
  | ends j =>
      have hji : j = i := he
      subst hji
      simp only [step, Option.ite_none_right_eq_some, Option.some.injEq] at hstep
      obtain ⟨-, rfl⟩ := hstep
      exact hgoTo rfl trivial h.targets
  | works o k => exact absurd rfl (hworks o k)

theorem cut_step (h : Cut apps i us s) (helse : Elsewhere apps us s e) (hstep : step apps s e = some t) :
    Cut apps i us t := by
  have hbegun : (s.loop i).stage ≠ .idle := by
    intro hidle
    have hunpushed := h.unpushed
    rw [hidle] at hunpushed
    exact hunpushed
  obtain ⟨hasked, htargets⟩ := asked_step hbegun h.asked hstep
  have hnow : (t.loop i).stage.Unpushed ∧ ((t.loop i).stage ≠ .read → (t.loop i).urls ⊆ us) := by
    rcases loop_step i hstep with hloop | ⟨he, hworks⟩
    · rw [hloop]
      exact ⟨h.unpushed, h.urls⟩
    · obtain ⟨hunpushed, hurls⟩ := unpushed_step h he hworks hstep
      exact ⟨hunpushed, fun _ => hurls⟩
  exact ⟨hasked, htargets ▸ h.targets, hnow.1, hnow.2, fun u hu => absent_step h.quiet hu (h.absent u hu) hstep,
    quiet_step h.quiet helse hstep⟩

/-- A loop that has not begun does nothing else. -/
theorem begins_of_idle (hidle : (s.loop i).stage = .idle) (he : e.loop = i) (hworks : ∀ o k, e ≠ .works o k)
    (hstep : step apps s e = some t) : ∃ key, e = .begins i key := by
  have hfits := fits_step hstep
  rw [he, hidle] at hfits
  cases e with
  | begins j key =>
      have hji : j = i := he
      exact ⟨key, by rw [hji]⟩
  | goesOn => exact absurd rfl hfits
  | connects | tells =>
      obtain ⟨o, hstage⟩ := hfits
      cases hstage
  | reads | ends => cases hfits
  | works o k => exact absurd rfl (hworks o k)

/-- A loop that has begun has asked for its URLs. -/
theorem asked_run {es : List Event} (hrun : run (step apps) es {} = some s) :
    ∀ i, (s.loop i).stage ≠ .idle → Asked (s.loop i).key s.pushUrlList := by
  refine run_keeps (I := fun s => ∀ i, (s.loop i).stage ≠ .idle → Asked (s.loop i).key s.pushUrlList)
    (fun s e t h hstep i hi => ?_) (fun i hi => absurd rfl hi) hrun
  by_cases hidle : (s.loop i).stage = .idle
  · rcases loop_step i hstep with hloop | ⟨he, hworks⟩
    · rw [hloop] at hi
      exact absurd hidle hi
    · obtain ⟨key, rfl⟩ := begins_of_idle hidle he hworks hstep
      obtain ⟨-, rfl⟩ := begins_step hstep
      rw [loop_setLoop, if_pos rfl]
      exact StaticPush.asked_pushUrls
  · exact (asked_step hidle (h i hidle) hstep).1

/-- Of two loops with the same URLs, the one that ends takes the pushes from the other, which hands no packet to a push
any more, as long as no third one begins with such URLs. -/
theorem unpushed_after {es fs gs : List Event} {s t w : PushedStreams} {us : List Bytes}
    (hrun : run (step apps) es {} = some s) (hread : (s.loop j).stage = .read) (htargets : targets apps s j = us)
    (hquiet : Quiet us s) (hstop : run (step apps) (.ends j :: fs) s = some t)
    (helse : Along (step apps) (Elsewhere apps us) (.ends j :: fs) s) (hended : (t.loop j).stage = .ended)
    (hleft : (t.loop i).stage = .read) (hsame : targets apps t i ⊆ us) (hrest : run (step apps) gs t = some w)
    (helse' : Along (step apps) (Elsewhere apps us) gs t) :
    (w.loop i).stage.Unpushed ∧ ∀ u ∈ us, w.staticPushMap.lookup u = none := by
  obtain ⟨s', hends, hfs⟩ := run_cons.mp hstop
  have hclosing : Closing j us s' := by
    have hquiet' := quiet_step hquiet helse.1 hends
    simp only [step, hread, if_true, Option.some.injEq] at hends
    subst hends
    rw [targets] at htargets
    rw [htargets] at hquiet' ⊢
    refine ⟨?_, ?_, fun u hu => Or.inl ?_, hquiet'⟩ <;> rw [self_goTo]
    · trivial
    · exact fun h => by cases h
    · exact hu
  have ht : Closing j us t := run_invariant (fun _ _ _ h hC hstep => closing_step h hC hstep) hclosing
    (helse.2 s' hends) hfs
  have habsent : ∀ u ∈ us, t.staticPushMap.lookup u = none := by
    intro u hu
    refine (ht.absent u hu).resolve_left fun hmem => ?_
    rw [ht.ended hended] at hmem
    exact List.not_mem_nil hmem
  have hbegun : (t.loop i).stage ≠ .idle := by
    rw [hleft]
    simp
  have hasked : Asked (t.loop i).key t.pushUrlList := asked_run (run_append.mpr ⟨s, hrun, hstop⟩) i hbegun
  have hcut : Cut apps i us t :=
    ⟨hasked, hsame, hleft ▸ trivial, fun hread' => absurd hleft hread', habsent, ht.quiet⟩
  have hw : Cut apps i us w := run_invariant (fun _ _ _ h hC hstep => cut_step h hC hstep) hcut helse' hrest
  exact ⟨hw.unpushed, hw.absent⟩

/-- Two publishers of one name: the second one finds the push of the first and starts none. -/
def sampleBoth : List Event :=
  .begins 0 (lit "live/x") :: .begins 1 (lit "live/x") :: sampleStart 0 ++ [.goesOn 1, .goesOn 1, .goesOn 1]

/-- The second one goes on, and reads two packets. -/
def sampleAlone : List Event :=
  [.reads 1 { data := [1] }, .goesOn 1, .goesOn 1, .reads 1 { data := [2] }, .goesOn 1, .goesOn 1]

theorem quiet_sampleBoth (hrun : run (step sampleApps) sampleBoth {} = some s) (h0 : (s.loop 0).stage = .read)
    (h1 : (s.loop 1).stage = .read) : Quiet us s := by
  intro j hstart
  by_cases hj0 : j = 0
  · rw [hj0, h0] at hstart
    exact hstart.elim
  by_cases hj1 : j = 1
  · rw [hj1, h1] at hstart
    exact hstart.elim
  have hother : ∀ e ∈ sampleBoth, j ≠ e.loop := by
    simp [sampleBoth, sampleStart, Event.loop, hj0, hj1]
  rw [others_run hother hrun] at hstart
  exact hstart.elim

theorem unpushed_after_sample :
    ∃ w, run (step sampleApps) (sampleBoth ++ (sampleStop 0 ++ sampleAlone)) {} = some w ∧
      (w.loop 1).fed.length = 2 ∧ (w.loop 1).stage.Unpushed := by
  have hboth : (run (step sampleApps) sampleBoth {}).any (fun s => decide ((s.loop 0).stage = .read ∧
      (s.loop 1).stage = .read ∧ targets sampleApps s 0 = [lit "rtmp://a/live/x"])) = true := by decide +kernel
  have hstopped : (run (step sampleApps) (sampleBoth ++ sampleStop 0) {}).any (fun t => decide ((t.loop 0).stage = .ended ∧
      (t.loop 1).stage = .read ∧ targets sampleApps t 1 = [lit "rtmp://a/live/x"])) = true := by decide +kernel
  have halone : (run (step sampleApps) (sampleBoth ++ (sampleStop 0 ++ sampleAlone)) {}).any (fun w =>
      decide ((w.loop 1).fed.length = 2)) = true := by decide +kernel
  obtain ⟨w, hw⟩ := Option.isSome_iff_exists.mp (Option.isSome_of_any halone)
  obtain ⟨s, hs, hrest⟩ := run_append.mp hw
  obtain ⟨t, ht, hgs⟩ := run_append.mp hrest
  rw [hw] at halone
  rw [hs] at hboth
  rw [run_append.mpr ⟨s, hs, ht⟩] at hstopped
  obtain ⟨h0, h1, htargets⟩ := of_decide_eq_true hboth
  obtain ⟨hended, hleft, hsame⟩ := of_decide_eq_true hstopped
  have helse : ∀ {us : List Bytes} {s : PushedStreams} {es : List Event}, (∀ e ∈ es, ∀ i key, e ≠ .begins i key) →
      Along (step sampleApps) (Elsewhere sampleApps us) es s := by
    intro us s es hnone
    refine along_of_forall fun e he u => ?_
    cases e with
    | begins i key => exact absurd rfl (hnone _ he i key)
    | _ => trivial
  have hunpushed := unpushed_after hs h0 htargets (quiet_sampleBoth hs h0 h1) ht (helse (by simp)) hended hleft
    (hsame ▸ List.Subset.refl _) hgs (helse (by simp [sampleAlone]))
  exact ⟨w, hw, of_decide_eq_true halone, hunpushed.1⟩

end PushedStreams

end Livego
