import Livego.StaticPushLife

/-! The map of the static pushes, as the loops expect it that use it, and what each of them does to it. -/

namespace Livego

open StaticPush (pushUrls)

namespace PushedStreams

variable (apps : List StaticPush.Application)

/-- The URLs that the stream of the loop is pushed to. -/
def targets (s : PushedStreams) (i : Nat) : List Bytes := (pushUrls apps (s.loop i).key s.pushUrlList).1

/-- Under the URL there is what loop `i` expects. -/
def Slot (s : PushedStreams) (i : Nat) (u : Bytes) : Expectation → Prop
  | none => s.staticPushMap.lookup u = none
  | some (o?, life) => ∃ o, s.staticPushMap.lookup u = some o ∧ (∀ o' ∈ o?, o' = o) ∧ (s.push o).maker = i ∧
      (s.push o).At life

/-- Every loop finds what it expects, nothing else is in the map, and what is not in the map any more is retired. -/
structure World (s : PushedStreams) (E : Nat → Bytes → Expectation) : Prop where
  slots : ∀ i, (s.loop i).stage.Live → ∀ u ∈ targets apps s i, Slot s i u (E i u)
  claimed : ∀ u o, s.staticPushMap.lookup u = some o → ∃ i, (s.loop i).stage.Live ∧ u ∈ targets apps s i
  named : ∀ u o, s.staticPushMap.lookup u = some o → o < s.next ∧ (s.push o).rtmpUrl = u
  made : ∀ o < s.next, (s.loop (s.push o).maker).stage ≠ .idle ∧ (s.push o).rtmpUrl ∈ targets apps s (s.push o).maker
  retired : ∀ o < s.next, s.staticPushMap.lookup (s.push o).rtmpUrl ≠ some o →
    (s.push o).Retired (s.loop (s.push o).maker).fed

/-- Another expectation of loop `i` under one URL. -/
def expecting (i : Nat) (v : Bytes) (x : Expectation) (E : Nat → Bytes → Expectation) : Nat → Bytes → Expectation :=
  fun j u => if j = i ∧ u = v then x else E j u

variable {apps} {s t : PushedStreams} {E E' : Nat → Bytes → Expectation} {i o : Nat} {v : Bytes} {life : Life}
  {o? : Option Nat} {stage : Stage}

theorem push_setPush (s : PushedStreams) (o o' : Nat) (push : Push) :
    (s.setPush o push).push o' = if o' = o then push else s.push o' := Function.update_apply s.push o push o'

/-! ### What the loops do to the map and the pushes -/

namespace World

theorem congr (h : World apps s E) (hE : ∀ i, (s.loop i).stage.Live → ∀ u ∈ targets apps s i, E i u = E' i u) :
    World apps s E' :=
  { h with slots := fun i hlive u hu => hE i hlive u hu ▸ h.slots i hlive u hu }

/-- What is found is as expected. -/
theorem expecting_self (h : World apps s E) {x : Expectation} (hx : E i v = x) : World apps s (expecting i v x E) := by
  refine h.congr fun j _ u _ => ?_
  unfold expecting
  split_ifs with hhere
  · rw [hhere.1, hhere.2, hx]
  · rfl

/-- A push that is in the map is there under its own URL. -/
theorem lookup_rtmpUrl (h : World apps s E) (hlookup : s.staticPushMap.lookup v = some o) :
    s.staticPushMap.lookup (s.push o).rtmpUrl = some o := by
  rw [(h.named v o hlookup).2]
  exact hlookup

/-- The loop changes the push that it finds under its URL. -/
theorem setPush (h : World apps s E) (halone : ∀ j, (s.loop j).stage.Live → v ∈ targets apps s j → j = i)
    (hlookup : s.staticPushMap.lookup v = some o) (ho : ∀ o' ∈ o?, o' = o) {push : Push}
    (hurl : push.rtmpUrl = (s.push o).rtmpUrl) (hmaker : push.maker = (s.push o).maker) (hi : (s.push o).maker = i)
    (hlife : push.At life) : World apps (s.setPush o push) (expecting i v (some (o?, life)) E) := by
  have hkept : ∀ o', ((s.setPush o push).push o').rtmpUrl = (s.push o').rtmpUrl ∧
      ((s.setPush o push).push o').maker = (s.push o').maker := by
    intro o'
    rw [push_setPush]
    split_ifs with heq
    · rw [heq]
      exact ⟨hurl, hmaker⟩
    · exact ⟨rfl, rfl⟩
  refine ⟨fun j hlive u hu => ?_, h.claimed, fun u o' ho' => ?_, fun o' ho' => ?_, fun o' ho' hout => ?_⟩
  · unfold expecting
    split_ifs with hhere
    · obtain ⟨rfl, rfl⟩ := hhere
      refine ⟨o, hlookup, ho, (hkept o).2.trans hi, ?_⟩
      rw [push_setPush, if_pos rfl]
      exact hlife
    · have hslot := h.slots j hlive u hu
      cases hexpect : E j u with
      | none =>
          rw [hexpect] at hslot
          exact hslot
      | some x =>
          rw [hexpect] at hslot
          obtain ⟨o', hlookup', ho', hmaker', hlife'⟩ := hslot
          refine ⟨o', hlookup', ho', (hkept o').2.trans hmaker', ?_⟩
          rw [push_setPush, if_neg]
          · exact hlife'
          · rintro rfl
            have hu' : u = v := (h.named u o' hlookup').2.symm.trans (h.named v o' hlookup).2
            exact hhere ⟨halone j hlive (hu' ▸ hu), hu'⟩
  · rw [(hkept o').1]
    exact h.named u o' ho'
  · rw [(hkept o').1, (hkept o').2]
    exact h.made o' ho'
  · rw [(hkept o').1] at hout
    have hne : o' ≠ o := by
      rintro rfl
      exact hout (h.lookup_rtmpUrl hlookup)
    rw [push_setPush, if_neg hne]
    exact h.retired o' ho' hout

/-- The loop puts a new push into the map. -/
theorem newStaticPush (h : World apps s E) (halone : ∀ j, (s.loop j).stage.Live → v ∈ targets apps s j → j = i)
    (hlive : (s.loop i).stage.Live) (hv : v ∈ targets apps s i) (hnone : s.staticPushMap.lookup v = none) :
    World apps (s.newStaticPush i v) (expecting i v (some (some s.next, .fresh)) E) := by
  have hlookup : ∀ u, (s.newStaticPush i v).staticPushMap.lookup u = if u = v then some s.next else
      s.staticPushMap.lookup u := fun u => SyncMap.lookup_insert_eq s.staticPushMap v u s.next
  have hpush : ∀ o', (s.newStaticPush i v).push o' = if o' = s.next then { rtmpUrl := v, maker := i } else s.push o' :=
    fun o' => push_setPush s s.next o' _
  have hold : ∀ o' < s.next, (s.newStaticPush i v).push o' = s.push o' :=
    fun o' ho' => (hpush o').trans (if_neg ho'.ne)
  have hnew : (s.newStaticPush i v).push s.next = { rtmpUrl := v, maker := i } := (hpush _).trans (if_pos rfl)
  refine ⟨fun j hlive' u hu => ?_, fun u o' ho' => ?_, fun u o' ho' => ?_, fun o' ho' => ?_, fun o' ho' hout => ?_⟩
  · unfold expecting
    split_ifs with hhere
    · obtain ⟨rfl, rfl⟩ := hhere
      refine ⟨s.next, (hlookup u).trans (if_pos rfl), fun o' ho' => (Option.some.inj ho').symm, ?_, ?_⟩
      · rw [hnew]
      · rw [hnew]
        exact Push.at_new j u
    · have hu' : u ≠ v := fun hu' => hhere ⟨halone j hlive' (hu' ▸ hu), hu'⟩
      have hslot := h.slots j hlive' u hu
      cases hexpect : E j u with
      | none =>
          rw [hexpect] at hslot
          exact (hlookup u).trans ((if_neg hu').trans hslot)
      | some x =>
          rw [hexpect] at hslot
          obtain ⟨o', hlookup', ho', hmaker', hlife'⟩ := hslot
          refine ⟨o', (hlookup u).trans ((if_neg hu').trans hlookup'), ho', ?_⟩
          rw [hold o' (h.named u o' hlookup').1]
          exact ⟨hmaker', hlife'⟩
  · rw [hlookup] at ho'
    split_ifs at ho' with hu'
    · exact ⟨i, hlive, hu' ▸ hv⟩
    · exact h.claimed u o' ho'
  · rw [hlookup] at ho'
    split_ifs at ho' with hu'
    · cases ho'
      rw [hnew]
      exact ⟨Nat.lt_succ_self _, hu'.symm⟩
    · obtain ⟨hlt, hurl⟩ := h.named u o' ho'
      rw [hold o' hlt]
      exact ⟨Nat.lt_succ_of_lt hlt, hurl⟩
  · rcases Nat.lt_succ_iff_lt_or_eq.mp ho' with hlt | rfl
    · rw [hold o' hlt]
      exact h.made o' hlt
    · rw [hnew]
      exact ⟨hlive.1, hv⟩
  · rw [hlookup] at hout
    rcases Nat.lt_succ_iff_lt_or_eq.mp ho' with hlt | rfl
    · rw [hold o' hlt] at hout ⊢
      split_ifs at hout with hu'
      · exact h.retired o' hlt (by rw [hu', hnone]; exact nofun)
      · exact h.retired o' hlt hout
    · rw [hnew, if_pos rfl] at hout
      exact absurd rfl hout

/-- The loop deletes the entry of a push that it is done with. -/
theorem erase (h : World apps s E) (halone : ∀ j, (s.loop j).stage.Live → v ∈ targets apps s j → j = i)
    (hlookup : s.staticPushMap.lookup v = some o) (hi : (s.push o).maker = i)
    (hretired : (s.push o).Retired (s.loop i).fed) :
    World apps { s with staticPushMap := s.staticPushMap.erase v } (expecting i v none E) := by
  have herase : ∀ u, (s.staticPushMap.erase v).lookup u = if u = v then none else s.staticPushMap.lookup u :=
    fun u => SyncMap.lookup_erase_eq s.staticPushMap v u
  refine ⟨fun j hlive u hu => ?_, fun u o' ho' => ?_, fun u o' ho' => ?_, h.made, fun o' ho' hout => ?_⟩
  · unfold expecting
    split_ifs with hhere
    · exact (herase u).trans (if_pos hhere.2)
    · have hu' : u ≠ v := fun hu' => hhere ⟨halone j hlive (hu' ▸ hu), hu'⟩
      have hslot := h.slots j hlive u hu
      cases hexpect : E j u with
      | none =>
          rw [hexpect] at hslot
          exact (herase u).trans ((if_neg hu').trans hslot)
      | some x =>
          rw [hexpect] at hslot
          obtain ⟨o', hlookup', hrest⟩ := hslot
          exact ⟨o', (herase u).trans ((if_neg hu').trans hlookup'), hrest⟩
  · rw [herase] at ho'
    split_ifs at ho'
    exact h.claimed u o' ho'
  · rw [herase] at ho'
    split_ifs at ho'
    exact h.named u o' ho'
  · rw [herase] at hout
    split_ifs at hout with hu'
    · by_cases heq : o' = o
      · rw [heq, hi]
        exact hretired
      · refine h.retired o' ho' fun hcontra => heq ?_
        rw [hu', hlookup] at hcontra
        exact (Option.some.inj hcontra).symm
    · exact h.retired o' ho' hout

/-- The list of targets has been filled. -/
theorem fills (h : World apps s E) {list : Option (List Bytes)}
    (hkept : ∀ j, (s.loop j).stage ≠ .idle → targets apps { s with pushUrlList := list } j = targets apps s j) :
    World apps { s with pushUrlList := list } E := by
  refine ⟨fun j hlive u hu => ?_, fun u o' ho' => ?_, h.named, fun o' ho' => ?_, h.retired⟩
  · rw [hkept j hlive.1] at hu
    exact h.slots j hlive u hu
  · obtain ⟨j, hlive, hu⟩ := h.claimed u o' ho'
    exact ⟨j, hlive, (hkept j hlive.1).symm ▸ hu⟩
  · obtain ⟨hmaker, hurl⟩ := h.made o' ho'
    exact ⟨hmaker, (hkept _ hmaker).symm ▸ hurl⟩

end World

theorem loop_setLoop (s : PushedStreams) (i j : Nat) (l : PushLoop) :
    (s.setLoop i l).loop j = if j = i then l else s.loop j := Function.update_apply s.loop i l j

theorem targets_setLoop {l : PushLoop} (hkey : l.key = (s.loop i).key) (j : Nat) :
    targets apps (s.setLoop i l) j = targets apps s j := by
  have hkey' : ((s.setLoop i l).loop j).key = (s.loop j).key := by
    rw [loop_setLoop]
    split_ifs with heq
    · rw [heq]
      exact hkey
    · rfl
  exact congrArg (fun key => (pushUrls apps key s.pushUrlList).1) hkey'

theorem targets_self {l : PushLoop} : targets apps (s.setLoop i l) i = (pushUrls apps l.key s.pushUrlList).1 :=
  congrArg (fun l : PushLoop => (pushUrls apps l.key s.pushUrlList).1) ((loop_setLoop s i i l).trans (if_pos rfl))

theorem targets_other {l : PushLoop} {j : Nat} (hne : j ≠ i) : targets apps (s.setLoop i l) j = targets apps s j :=
  congrArg (fun l : PushLoop => (pushUrls apps l.key s.pushUrlList).1) ((loop_setLoop s i j l).trans (if_neg hne))

theorem loop_goTo (s : PushedStreams) (i j : Nat) (stage : Stage) (urls : List Bytes) :
    (s.goTo i stage urls).loop j = if j = i then { s.loop i with stage, urls } else s.loop j := loop_setLoop s i j _

theorem targets_goTo (s : PushedStreams) (i j : Nat) (stage : Stage) (urls : List Bytes) :
    targets apps (s.goTo i stage urls) j = targets apps s j :=
  targets_setLoop (l := { s.loop i with stage, urls }) rfl j

namespace World

/-- A loop goes on, or reads a packet. -/
theorem setLoop (h : World apps s E) {l : PushLoop} (hkey : l.key = (s.loop i).key) (hlive : (s.loop i).stage.Live)
    (hlive' : l.stage.Live) (hfed : (s.loop i).fed <+: l.fed) : World apps (s.setLoop i l) E := by
  have hlives : ∀ j, ((s.setLoop i l).loop j).stage.Live ↔ (s.loop j).stage.Live := by
    intro j
    rw [loop_setLoop]
    split_ifs with heq
    · rw [heq]
      exact iff_of_true hlive' hlive
    · exact Iff.rfl
  have hloops : ∀ j, (s.loop j).fed <+: ((s.setLoop i l).loop j).fed ∧
      ((s.loop j).stage ≠ .idle → ((s.setLoop i l).loop j).stage ≠ .idle) := by
    intro j
    rw [loop_setLoop]
    split_ifs with heq
    · rw [heq]
      exact ⟨hfed, fun _ => hlive'.1⟩
    · exact ⟨List.prefix_refl _, id⟩
  refine ⟨fun j hj u hu => ?_, fun u o' ho' => ?_, h.named, fun o' ho' => ?_, fun o' ho' hout => ?_⟩
  · rw [targets_setLoop hkey] at hu
    exact h.slots j ((hlives j).mp hj) u hu
  · obtain ⟨j, hj, hu⟩ := h.claimed u o' ho'
    exact ⟨j, (hlives j).mpr hj, (targets_setLoop hkey j).symm ▸ hu⟩
  · obtain ⟨hmaker, hurl⟩ := h.made o' ho'
    exact ⟨(hloops _).2 hmaker, (targets_setLoop hkey _).symm ▸ hurl⟩
  · exact (h.retired o' ho' hout).mono (hloops _).1

/-- A loop begins that finds nothing. -/
theorem begins (h : World apps s E) (hidle : (s.loop i).stage = .idle) {l : PushLoop}
    (hnone : ∀ u ∈ (pushUrls apps l.key s.pushUrlList).1, s.staticPushMap.lookup u = none) :
    World apps (s.setLoop i l) fun j => if j = i then fun _ => none else E j := by
  have hother : ∀ j, (s.loop j).stage ≠ .idle → j ≠ i ∧ (s.setLoop i l).loop j = s.loop j := by
    intro j hj
    have hji : j ≠ i := fun hji => hj (hji ▸ hidle)
    exact ⟨hji, (loop_setLoop s i j l).trans (if_neg hji)⟩
  refine ⟨fun j hj u hu => ?_, fun u o' ho' => ?_, h.named, fun o' ho' => ?_, fun o' ho' hout => ?_⟩
  · split_ifs with hji
    · rw [hji, targets_self] at hu
      exact hnone u hu
    · rw [targets_other hji] at hu
      rw [loop_setLoop, if_neg hji] at hj
      exact h.slots j hj u hu
  · obtain ⟨j, hj, hu⟩ := h.claimed u o' ho'
    obtain ⟨hji, hsame⟩ := hother j hj.1
    exact ⟨j, hsame.symm ▸ hj, by rw [targets_other hji]; exact hu⟩
  · obtain ⟨hmaker, hurl⟩ := h.made o' ho'
    obtain ⟨hji, hsame⟩ := hother _ hmaker
    exact ⟨(congrArg PushLoop.stage hsame).trans_ne hmaker, (targets_other hji).symm ▸ hurl⟩
  · obtain ⟨-, hsame⟩ := hother _ (h.made o' ho').1
    exact (congrArg PushLoop.fed hsame).symm ▸ h.retired o' ho' hout

/-- A goroutine takes a step. -/
theorem works (h : World apps s E) {k : Nat} (ho : o < s.next) {push : Push} (hworks : Push.Works k (s.push o) push) :
    World apps (s.setPush o push) E := by
  obtain ⟨hurl, hmaker⟩ := hworks.made
  have hkept : ∀ o', ((s.setPush o push).push o').rtmpUrl = (s.push o').rtmpUrl ∧
      ((s.setPush o push).push o').maker = (s.push o').maker := by
    intro o'
    rw [push_setPush]
    split_ifs with heq
    · rw [heq]
      exact ⟨hurl, hmaker⟩
    · exact ⟨rfl, rfl⟩
  refine ⟨fun j hlive u hu => ?_, h.claimed, fun u o' ho' => ?_, fun o' ho' => ?_, fun o' ho' hout => ?_⟩
  · have hslot := h.slots j hlive u hu
    cases hexpect : E j u with
    | none =>
        rw [hexpect] at hslot
        exact hslot
    | some x =>
        rw [hexpect] at hslot
        obtain ⟨o', hlookup', ho', hmaker', hlife'⟩ := hslot
        refine ⟨o', hlookup', ho', (hkept o').2.trans hmaker', ?_⟩
        rw [push_setPush]
        split_ifs with heq
        · rw [heq] at hlife'
          exact hlife'.works hworks
        · exact hlife'
  · rw [(hkept o').1]
    exact h.named u o' ho'
  · rw [(hkept o').1, (hkept o').2]
    exact h.made o' ho'
  · rw [(hkept o').1] at hout
    have hretired := h.retired o' ho' hout
    have hne : o' ≠ o := by
      rintro rfl
      exact Push.not_works_of_retired hretired hworks
    rw [push_setPush, if_neg hne]
    exact hretired

/-- A loop is over that has no entry left. -/
theorem ended (h : World apps s E) (hlive : (s.loop i).stage.Live) (hE : ∀ u ∈ targets apps s i, E i u = none) :
    World apps (s.goTo i .ended []) E := by
  have hlives : ∀ j, ((s.goTo i .ended []).loop j).stage.Live → j ≠ i ∧ (s.loop j).stage.Live := by
    intro j hj
    rw [loop_goTo] at hj
    split_ifs at hj with heq
    · exact absurd rfl hj.2
    · exact ⟨heq, hj⟩
  refine ⟨fun j hj u hu => ?_, fun u o' ho' => ?_, h.named, fun o' ho' => ?_, fun o' ho' hout => ?_⟩
  · rw [targets_goTo] at hu
    exact h.slots j (hlives j hj).2 u hu
  · obtain ⟨j, hj, hu⟩ := h.claimed u o' ho'
    have hne : j ≠ i := by
      rintro rfl
      have hslot := h.slots j hj u hu
      rw [hE u hu] at hslot
      exact nomatch hslot.symm.trans ho'
    refine ⟨j, ?_, by rw [targets_goTo]; exact hu⟩
    rw [loop_goTo, if_neg hne]
    exact hj
  · obtain ⟨hmaker, hurl⟩ := h.made o' ho'
    refine ⟨?_, by rw [targets_goTo]; exact hurl⟩
    show ((s.goTo i .ended []).loop (s.push o').maker).stage ≠ .idle
    rw [loop_goTo]
    split_ifs
    · exact nofun
    · exact hmaker
  · show (s.push o').Retired ((s.goTo i .ended []).loop (s.push o').maker).fed
    rw [loop_goTo]
    split_ifs with heq
    · rw [← heq]
      exact h.retired o' ho' hout
    · exact h.retired o' ho' hout

end World

end PushedStreams

end Livego
