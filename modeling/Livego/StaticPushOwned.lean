import Livego.StaticPushWorld

/-! What every loop relies on while it uses its static pushes, kept by each of its steps as long as the loops that run at
the same time push to different URLs. -/

namespace Livego

open StaticPush (pushUrls Asked Fills DistinctTargets)

namespace PushedStreams

variable (apps : List StaticPush.Application)

/-- What a loop has left to do belongs to its URLs and its packets. -/
structure Consistent (targets : List Bytes) (l : PushLoop) : Prop where
  urls : l.urls <:+ targets
  isSend : ∀ p, l.stage = .isSend p → l.urls = targets
  unfed : l.stage.Starting → l.fed = []
  fed : ∀ p, l.stage.packet = some p → ∃ ps, l.fed = ps ++ [p]
  atUrl : l.stage.AtUrl → l.urls ≠ []

structure Inv (s : PushedStreams) : Prop where
  asked : ∀ i, (s.loop i).stage ≠ .idle → Asked (s.loop i).key s.pushUrlList
  distinct : ∀ l ∈ s.pushUrlList, l.Nodup
  loops : ∀ i, (s.loop i).stage.Live → Consistent (targets apps s i) (s.loop i)
  apart : ∀ i j, i ≠ j → (s.loop i).stage.Live → (s.loop j).stage.Live →
    List.Disjoint (targets apps s i) (targets apps s j)
  world : World apps s fun i => (s.loop i).expect

/-- No loop that runs has a URL in common with one that begins. -/
def Apart (s : PushedStreams) : Event → Prop
  | .begins _ key => ∀ j, (s.loop j).stage.Live → List.Disjoint (pushUrls apps key s.pushUrlList).1 (targets apps s j)
  | _ => True

variable {apps} {s t : PushedStreams} {E : Nat → Bytes → Expectation} {i o : Nat} {v : Bytes}
  {life : Life} {o? : Option Nat} {stage : Stage}

/-! ### What the steps keep -/

/-- A stage that comes after another at the same URL, or at the next one. -/
structure Follows (fed : List AvPacket) (old new : Stage) : Prop where
  live : new.Live
  done : new.done fed = old.done fed
  due : new.due fed = old.due fed
  starting : new.Starting → old.Starting
  packet : new.packet = old.packet
  isSend : ∀ p, new ≠ .isSend p

namespace Inv

variable {urls : List Bytes} {x : Expectation}

theorem nodup (h : Inv apps s) (hdistinct : DistinctTargets apps) (i : Nat) : (targets apps s i).Nodup :=
  (StaticPush.nodup_pushUrls hdistinct h.distinct).1

theorem alone (h : Inv apps s) (hlive : (s.loop i).stage.Live) (hv : v ∈ targets apps s i) :
    ∀ j, (s.loop j).stage.Live → v ∈ targets apps s j → j = i := by
  intro j hj hv'
  by_contra hne
  exact h.apart j i hne hj hlive hv' hv

theorem mem_targets (h : Inv apps s) (hlive : (s.loop i).stage.Live) (hurls : (s.loop i).urls = v :: urls) :
    v ∈ targets apps s i :=
  (h.loops i hlive).urls.subset (hurls ▸ List.mem_cons_self)

/-- What the loop finds at its URL. -/
theorem slot (h : Inv apps s) (hlive : (s.loop i).stage.Live) (hurls : (s.loop i).urls = v :: urls) :
    Slot s i v (((s.loop i).stage.here (s.loop i).fed).map ((s.loop i).stage.object, ·)) := by
  rw [← PushLoop.expect_here hurls]
  exact h.world.slots i hlive v (h.mem_targets hlive hurls)

/-- A loop goes on, with other expectations. -/
theorem setLoop (h : Inv apps s) {w : PushedStreams} (hloop : w.loop = s.loop) (hlist : w.pushUrlList = s.pushUrlList)
    (hworld : World apps w E) {l : PushLoop} (hkey : l.key = (s.loop i).key) (hfed : (s.loop i).fed <+: l.fed)
    (hlive : (s.loop i).stage.Live) (hlive' : l.stage.Live) (hcons : Consistent (targets apps s i) l)
    (hothers : ∀ j, j ≠ i → ∀ u ∈ targets apps s j, E j u = (s.loop j).expect u)
    (hself : ∀ u ∈ targets apps s i, E i u = l.expect u) : Inv apps (w.setLoop i l) := by
  obtain ⟨list, map, next, push, loop⟩ := w
  cases hloop
  cases hlist
  have hlives : ∀ j, ((PushedStreams.setLoop i l ⟨s.pushUrlList, map, next, push, s.loop⟩).loop j).stage.Live →
      (s.loop j).stage.Live := by
    intro j hj
    rw [loop_setLoop] at hj
    split_ifs at hj with heq
    · exact heq ▸ hlive
    · exact hj
  have htargets : ∀ j, targets apps (PushedStreams.setLoop i l ⟨s.pushUrlList, map, next, push, s.loop⟩) j =
      targets apps s j := targets_setLoop (s := ⟨s.pushUrlList, map, next, push, s.loop⟩) hkey
  refine ⟨fun j hj => ?_, h.distinct, fun j hj => ?_, fun j k hne hj hk => ?_, ?_⟩
  · rw [loop_setLoop] at hj ⊢
    split_ifs at hj ⊢ with heq
    · rw [hkey]
      exact h.asked i hlive.1
    · exact h.asked j hj
  · have hj' := hlives j hj
    rw [htargets, loop_setLoop]
    split_ifs with heq
    · rw [heq]
      exact hcons
    · exact h.loops j hj'
  · rw [htargets, htargets]
    exact h.apart j k hne (hlives j hj) (hlives k hk)
  · refine (hworld.setLoop hkey hlive hlive' hfed).congr fun j hj u hu => ?_
    have hu' : u ∈ targets apps s j := htargets j ▸ hu
    show E j u = ((PushedStreams.setLoop i l ⟨s.pushUrlList, map, next, push, s.loop⟩).loop j).expect u
    rw [loop_setLoop]
    split_ifs with heq
    · subst heq
      exact hself u hu'
    · exact hothers j heq u hu'

theorem goTo (h : Inv apps s) {w : PushedStreams} (hloop : w.loop = s.loop) (hlist : w.pushUrlList = s.pushUrlList)
    (hworld : World apps w E) (hlive : (s.loop i).stage.Live) (hlive' : stage.Live)
    (hcons : Consistent (targets apps s i) { s.loop i with stage, urls })
    (hothers : ∀ j, j ≠ i → ∀ u ∈ targets apps s j, E j u = (s.loop j).expect u)
    (hself : ∀ u ∈ targets apps s i, E i u = ({ s.loop i with stage, urls } : PushLoop).expect u) :
    Inv apps (w.goTo i stage urls) := by
  rw [PushedStreams.goTo, hloop]
  exact h.setLoop hloop hlist hworld rfl (List.prefix_refl _) hlive hlive' hcons hothers hself

/-- The loop goes on at its URL. -/
theorem stay (h : Inv apps s) {w : PushedStreams} (hloop : w.loop = s.loop) (hlist : w.pushUrlList = s.pushUrlList)
    (hlive : (s.loop i).stage.Live) (hurls : (s.loop i).urls = v :: urls) {old : Stage} (hstage : (s.loop i).stage = old)
    (hfollows : Follows (s.loop i).fed old stage)
    (hworld : World apps w
      (expecting i v ((stage.here (s.loop i).fed).map (stage.object, ·)) fun j => (s.loop j).expect)) :
    Inv apps (w.goTo i stage (v :: urls)) := by
  subst hstage
  have hcons := h.loops i hlive
  refine h.goTo hloop hlist hworld hlive hfollows.live ⟨hurls ▸ hcons.urls, fun p hp => absurd hp (hfollows.isSend p),
    fun hstart => hcons.unfed (hfollows.starting hstart), fun p hp => hcons.fed p (hfollows.packet ▸ hp),
    fun _ => List.cons_ne_nil v urls⟩ (fun j hne u hu => if_neg fun hhere => hne hhere.1) fun u hu => ?_
  rw [PushLoop.expect_stay hurls hfollows.done hfollows.due]
  exact if_congr (and_iff_right rfl) rfl rfl

/-- The loop goes on to the next URL. -/
theorem next (h : Inv apps s) (hdistinct : DistinctTargets apps) {w : PushedStreams} (hloop : w.loop = s.loop)
    (hlist : w.pushUrlList = s.pushUrlList) (hlive : (s.loop i).stage.Live) (hurls : (s.loop i).urls = v :: urls)
    {old : Stage} (hstage : (s.loop i).stage = old) (hfollows : Follows (s.loop i).fed old stage)
    (hobject : stage.object = none) (hbetween : ¬stage.AtUrl)
    (hhere : stage.here (s.loop i).fed = stage.due (s.loop i).fed)
    (hworld : World apps w (expecting i v ((stage.done (s.loop i).fed).map (none, ·)) fun j => (s.loop j).expect)) :
    Inv apps (w.goTo i stage urls) := by
  subst hstage
  have hcons := h.loops i hlive
  have hv : v ∉ urls := by
    have hnodup := (h.nodup hdistinct i).sublist hcons.urls.sublist
    rw [hurls] at hnodup
    exact (List.nodup_cons.mp hnodup).1
  refine h.goTo hloop hlist hworld hlive hfollows.live ⟨((List.suffix_cons v urls).trans (hurls ▸ hcons.urls)),
    fun p hp => absurd hp (hfollows.isSend p), fun hstart => hcons.unfed (hfollows.starting hstart),
    fun p hp => hcons.fed p (hfollows.packet ▸ hp), fun hat => absurd hat hbetween⟩
    (fun j hne u hu => if_neg fun hhere => hne hhere.1) fun u hu => ?_
  rw [PushLoop.expect_next hurls hv hfollows.done hfollows.due hhere hobject]
  exact if_congr (and_iff_right rfl) rfl rfl

/-- The push that the loop has at its URL. -/
theorem held (h : Inv apps s) (hlive : (s.loop i).stage.Live) (hurls : (s.loop i).urls = v :: urls)
    (hstage : (s.loop i).stage = stage) (hobject : stage.object = some o) (hhere : stage.here (s.loop i).fed = some life) :
    s.staticPushMap.lookup v = some o ∧ (s.push o).maker = i ∧ (s.push o).At life := by
  have hslot := h.slot hlive hurls
  rw [hstage, hobject, hhere] at hslot
  obtain ⟨o', hlookup, ho, hmaker, hlife⟩ := hslot
  cases ho o rfl
  exact ⟨hlookup, hmaker, hlife⟩

/-- The push that the loop finds at its URL. -/
theorem found (h : Inv apps s) (hlive : (s.loop i).stage.Live) (hurls : (s.loop i).urls = v :: urls)
    (hstage : (s.loop i).stage = stage) (hhere : stage.here (s.loop i).fed = some life) :
    ∃ o, s.staticPushMap.lookup v = some o ∧ (s.push o).maker = i ∧ (s.push o).At life := by
  have hslot := h.slot hlive hurls
  rw [hstage, hhere] at hslot
  obtain ⟨o, hlookup, -, hmaker, hlife⟩ := hslot
  exact ⟨o, hlookup, hmaker, hlife⟩

theorem setPush (h : Inv apps s) (hlive : (s.loop i).stage.Live) (hurls : (s.loop i).urls = v :: urls)
    (hlookup : s.staticPushMap.lookup v = some o) (hmaker : (s.push o).maker = i) (ho : o? = none ∨ o? = some o)
    {push : Push} (hlife : push.At life) (hurl : push.rtmpUrl = (s.push o).rtmpUrl)
    (hmaker' : push.maker = (s.push o).maker) :
    World apps (s.setPush o push) (expecting i v (some (o?, life)) fun j => (s.loop j).expect) := by
  refine h.world.setPush (h.alone hlive (h.mem_targets hlive hurls)) hlookup (fun o' ho' => ?_) hurl hmaker' hmaker hlife
  rcases ho with rfl | rfl
  · cases ho'
  · exact (Option.some.inj ho').symm

theorem see (h : Inv apps s) (hlive : (s.loop i).stage.Live) (hurls : (s.loop i).urls = v :: urls)
    (hlookup : s.staticPushMap.lookup v = some o) (hmaker : (s.push o).maker = i) (ho : o? = none ∨ o? = some o)
    (hlife : (s.push o).At life) : World apps s (expecting i v (some (o?, life)) fun j => (s.loop j).expect) := by
  have hsame : s.setPush o (s.push o) = s := by
    unfold PushedStreams.setPush
    rw [Function.update_eq_self]
  exact hsame ▸ h.setPush hlive hurls hlookup hmaker ho hlife rfl rfl

/-! The stages of `StartStaticPush`. -/

theorem getAndCreate (h : Inv apps s) (hlive : (s.loop i).stage.Live) (hurls : (s.loop i).urls = v :: urls)
    (hstage : (s.loop i).stage = .getAndCreate) :
    s.staticPushMap.lookup v = none ∧ Inv apps (s.goTo i .create (v :: urls)) := by
  have hslot := h.slot hlive hurls
  have hexpect := PushLoop.expect_here hurls
  rw [hstage] at hslot hexpect
  have hworld := h.world.expecting_self hexpect
  exact ⟨hslot, h.stay rfl rfl hlive hurls hstage ⟨⟨nofun, nofun⟩, rfl, rfl, id, rfl, nofun⟩ hworld⟩

theorem create (h : Inv apps s) (hlive : (s.loop i).stage.Live) (hurls : (s.loop i).urls = v :: urls)
    (hstage : (s.loop i).stage = .create) : Inv apps ((s.newStaticPush i v).goTo i (.start s.next) (v :: urls)) := by
  have hv := h.mem_targets hlive hurls
  have hslot := h.slot hlive hurls
  rw [hstage] at hslot
  have hworld := h.world.newStaticPush (h.alone hlive hv) hlive hv hslot
  exact h.stay rfl rfl hlive hurls hstage ⟨⟨nofun, nofun⟩, rfl, rfl, id, rfl, nofun⟩ hworld

theorem start (h : Inv apps s) (hlive : (s.loop i).stage.Live) (hurls : (s.loop i).urls = v :: urls)
    (hstage : (s.loop i).stage = .start o) :
    (s.push o).startflag = false ∧ Inv apps (s.goTo i (.connect o) (v :: urls)) := by
  obtain ⟨hlookup, hmaker, hlife⟩ := h.held hlive hurls hstage rfl rfl
  have hworld := h.see hlive hurls hlookup hmaker (Or.inr rfl) hlife
  exact ⟨hlife.startflag, h.stay rfl rfl hlive hurls hstage ⟨⟨nofun, nofun⟩, rfl, rfl, id, rfl, nofun⟩ hworld⟩

theorem connected (h : Inv apps s) (hlive : (s.loop i).stage.Live) (hurls : (s.loop i).urls = v :: urls)
    (hstage : (s.loop i).stage = .connect o) (streamID : Nat) :
    Inv apps ((s.setPush o { s.push o with streamID }).goTo i (.spawn o) (v :: urls)) := by
  obtain ⟨hlookup, hmaker, hlife⟩ := h.held hlive hurls hstage rfl rfl
  have hworld := h.setPush hlive hurls hlookup hmaker (Or.inr rfl) (Push.At.connected hlife streamID) rfl rfl
  exact h.stay rfl rfl hlive hurls hstage ⟨⟨nofun, nofun⟩, rfl, rfl, id, rfl, nofun⟩ hworld

theorem refused (h : Inv apps s) (hdistinct : DistinctTargets apps) (hlive : (s.loop i).stage.Live)
    (hurls : (s.loop i).urls = v :: urls) (hstage : (s.loop i).stage = .connect o) :
    Inv apps (s.goTo i .getAndCreate urls) := by
  obtain ⟨hlookup, hmaker, hlife⟩ := h.held hlive hurls hstage rfl rfl
  have hfeeding : (s.push o).At (.feeding (s.loop i).fed) := Or.inl hlife
  have hworld := h.see hlive hurls hlookup hmaker (Or.inl rfl) hfeeding
  exact h.next hdistinct rfl rfl hlive hurls hstage ⟨⟨nofun, nofun⟩, rfl, rfl, id, rfl, nofun⟩ rfl id rfl hworld

theorem spawn (h : Inv apps s) (hlive : (s.loop i).stage.Live) (hurls : (s.loop i).urls = v :: urls)
    (hstage : (s.loop i).stage = .spawn o) :
    Inv apps ((s.setPush o { s.push o with handlers := (s.push o).handlers ++ [.spawned] }).goTo i (.setFlag o)
      (v :: urls)) := by
  obtain ⟨hlookup, hmaker, hlife⟩ := h.held hlive hurls hstage rfl rfl
  have hworld := h.setPush hlive hurls hlookup hmaker (Or.inr rfl) (Push.At.spawned hlife) rfl rfl
  exact h.stay rfl rfl hlive hurls hstage ⟨⟨nofun, nofun⟩, rfl, rfl, id, rfl, nofun⟩ hworld

theorem setFlag (h : Inv apps s) (hdistinct : DistinctTargets apps) (hlive : (s.loop i).stage.Live)
    (hurls : (s.loop i).urls = v :: urls) (hstage : (s.loop i).stage = .setFlag o) :
    Inv apps ((s.setPush o { s.push o with startflag := true }).goTo i .getAndCreate urls) := by
  obtain ⟨hlookup, hmaker, hlife⟩ := h.held hlive hurls hstage rfl rfl
  have hunfed : (s.loop i).fed = [] := (h.loops i hlive).unfed (by rw [hstage]; trivial)
  have hstarted := Push.At.started hlife
  rw [← hunfed] at hstarted
  have hworld := h.setPush hlive hurls hlookup hmaker (Or.inl rfl) hstarted rfl rfl
  exact h.next hdistinct rfl rfl hlive hurls hstage ⟨⟨nofun, nofun⟩, rfl, rfl, id, rfl, nofun⟩ rfl id rfl hworld

/-! The stages of `IsSendStaticPush` and `SendStaticPush`. -/

/-- The first push that is asked for is there. -/
theorem isSend {p : AvPacket} (h : Inv apps s) (hlive : (s.loop i).stage.Live) (hurls : (s.loop i).urls = v :: urls)
    (hstage : (s.loop i).stage = .isSend p) :
    (∃ o, s.staticPushMap.lookup v = some o) ∧ Inv apps (s.goTo i (.send p) (targets apps s i)) := by
  have hcons := h.loops i hlive
  have htargets := hcons.isSend p hstage
  obtain ⟨o, hlookup, -⟩ := h.found hlive hurls hstage rfl
  refine ⟨⟨o, hlookup⟩, h.goTo rfl rfl h.world hlive ⟨nofun, nofun⟩
    ⟨List.suffix_refl _, nofun, nofun, fun q hq => ?_, nofun⟩ (fun j _ u _ => rfl) fun u hu => ?_⟩
  · refine hcons.fed q ?_
    rw [hstage]
    exact hq
  · rw [PushLoop.expect_of_alike (Or.inr (htargets ▸ hu)) (by rw [hstage]; rfl) (by rw [hstage]; rfl) (Or.inl rfl),
      PushLoop.expect_of_alike (Or.inr hu) rfl rfl (Or.inl rfl), hstage]
    rfl

theorem send {p : AvPacket} (h : Inv apps s) (hlive : (s.loop i).stage.Live) (hurls : (s.loop i).urls = v :: urls)
    (hstage : (s.loop i).stage = .send p) :
    ∃ o, s.staticPushMap.lookup v = some o ∧ Inv apps (s.goTo i (.writeAvPacket p o) (v :: urls)) := by
  obtain ⟨o, hlookup, hmaker, hlife⟩ := h.found hlive hurls hstage rfl
  have hworld := h.see hlive hurls hlookup hmaker (Or.inr rfl) hlife
  exact ⟨o, hlookup, h.stay rfl rfl hlive hurls hstage ⟨⟨nofun, nofun⟩, rfl, rfl, id, rfl, nofun⟩ hworld⟩

theorem writeAvPacket {p : AvPacket} (h : Inv apps s) (hdistinct : DistinctTargets apps) (hlive : (s.loop i).stage.Live)
    (hurls : (s.loop i).urls = v :: urls) (hstage : (s.loop i).stage = .writeAvPacket p o) :
    Inv apps (if (s.push o).startflag then s.goTo i (.enqueue p o) (v :: urls) else s.goTo i (.send p) urls) := by
  obtain ⟨hlookup, hmaker, hlife⟩ := h.held hlive hurls hstage rfl rfl
  split_ifs with hflag
  · have hworld := h.see hlive hurls hlookup hmaker (Or.inr rfl) (Push.At.flowing hlife hflag)
    exact h.stay rfl rfl hlive hurls hstage ⟨⟨nofun, nofun⟩, rfl, rfl, id, rfl, nofun⟩ hworld
  · have hunused := Push.At.unused hlife (Bool.eq_false_iff.mpr hflag)
    have hfeeding : (s.push o).At (.feeding (s.loop i).fed) := Or.inl hunused
    have hworld := h.see hlive hurls hlookup hmaker (Or.inl rfl) hfeeding
    exact h.next hdistinct rfl rfl hlive hurls hstage ⟨⟨nofun, nofun⟩, rfl, rfl, id, rfl, nofun⟩ rfl id rfl hworld

theorem enqueue {p : AvPacket} (h : Inv apps s) (hdistinct : DistinctTargets apps) (hlive : (s.loop i).stage.Live)
    (hurls : (s.loop i).urls = v :: urls) (hstage : (s.loop i).stage = .enqueue p o) :
    Inv apps ((s.setPush o { s.push o with packetChan := (s.push o).packetChan ++ [p] }).goTo i (.send p) urls) := by
  obtain ⟨hlookup, hmaker, hlife⟩ := h.held hlive hurls hstage rfl rfl
  obtain ⟨ps, hfed⟩ := (h.loops i hlive).fed p (by rw [hstage]; rfl)
  have henqueued := @Push.At.enqueued _ _ p hlife
  rw [hfed, List.dropLast_concat, ← hfed] at henqueued
  have hworld := h.setPush hlive hurls hlookup hmaker (Or.inl rfl) henqueued rfl rfl
  exact h.next hdistinct rfl rfl hlive hurls hstage ⟨⟨nofun, nofun⟩, rfl, rfl, id, rfl, nofun⟩ rfl id rfl hworld

/-! The stages of `StopStaticPush`. -/

theorem get (h : Inv apps s) (hlive : (s.loop i).stage.Live) (hurls : (s.loop i).urls = v :: urls)
    (hstage : (s.loop i).stage = .get) :
    ∃ o, s.staticPushMap.lookup v = some o ∧ Inv apps (s.goTo i (.stop o) (v :: urls)) := by
  obtain ⟨o, hlookup, hmaker, hlife⟩ := h.found hlive hurls hstage rfl
  have hworld := h.see hlive hurls hlookup hmaker (Or.inr rfl) hlife
  exact ⟨o, hlookup, h.stay rfl rfl hlive hurls hstage ⟨⟨nofun, nofun⟩, rfl, rfl, id, rfl, nofun⟩ hworld⟩

theorem stop (h : Inv apps s) (hlive : (s.loop i).stage.Live) (hurls : (s.loop i).urls = v :: urls)
    (hstage : (s.loop i).stage = .stop o) :
    Inv apps (if (s.push o).startflag then s.goTo i (.tell o) (v :: urls) else s.goTo i .release (v :: urls)) := by
  obtain ⟨hlookup, hmaker, hlife⟩ := h.held hlive hurls hstage rfl rfl
  split_ifs with hflag
  · have hworld := h.see hlive hurls hlookup hmaker (Or.inr rfl) (Push.At.flowing hlife hflag)
    exact h.stay rfl rfl hlive hurls hstage ⟨⟨nofun, nofun⟩, rfl, rfl, id, rfl, nofun⟩ hworld
  · have hunused := Push.At.unused hlife (Bool.eq_false_iff.mpr hflag)
    have hretired : (s.push o).At (.retired (s.loop i).fed) := hunused.retired
    have hworld := h.see hlive hurls hlookup hmaker (Or.inl rfl) hretired
    exact h.stay rfl rfl hlive hurls hstage ⟨⟨nofun, nofun⟩, rfl, rfl, id, rfl, nofun⟩ hworld

theorem tell {k : Nat} (h : Inv apps s) (hlive : (s.loop i).stage.Live) (hurls : (s.loop i).urls = v :: urls)
    (hstage : (s.loop i).stage = .tell o) (hselecting : (s.push o).handlers[k]? = some .selecting) :
    Inv apps ((s.setPush o { s.push o with handlers := (s.push o).handlers.set k .stopped }).goTo i (.clearFlag o)
      (v :: urls)) := by
  obtain ⟨hlookup, hmaker, hlife⟩ := h.held hlive hurls hstage rfl rfl
  have hworld := h.setPush hlive hurls hlookup hmaker (Or.inr rfl) (Push.At.told hlife hselecting) rfl rfl
  exact h.stay rfl rfl hlive hurls hstage ⟨⟨nofun, nofun⟩, rfl, rfl, id, rfl, nofun⟩ hworld

theorem clearFlag (h : Inv apps s) (hlive : (s.loop i).stage.Live) (hurls : (s.loop i).urls = v :: urls)
    (hstage : (s.loop i).stage = .clearFlag o) :
    Inv apps ((s.setPush o { s.push o with startflag := false }).goTo i .release (v :: urls)) := by
  obtain ⟨hlookup, hmaker, hlife⟩ := h.held hlive hurls hstage rfl rfl
  have hworld := h.setPush hlive hurls hlookup hmaker (Or.inl rfl) (Push.At.cleared hlife) rfl rfl
  exact h.stay rfl rfl hlive hurls hstage ⟨⟨nofun, nofun⟩, rfl, rfl, id, rfl, nofun⟩ hworld

theorem release (h : Inv apps s) (hdistinct : DistinctTargets apps) (hlive : (s.loop i).stage.Live)
    (hurls : (s.loop i).urls = v :: urls) (hstage : (s.loop i).stage = .release) :
    Inv apps ({ s with staticPushMap := s.staticPushMap.erase v }.goTo i .get urls) := by
  obtain ⟨o, hlookup, hmaker, hlife⟩ := h.found hlive hurls hstage rfl
  have hworld := h.world.erase (h.alone hlive (h.mem_targets hlive hurls)) hlookup hmaker hlife
  exact h.next (w := { s with staticPushMap := s.staticPushMap.erase v }) hdistinct rfl rfl hlive hurls hstage
    ⟨⟨nofun, nofun⟩, rfl, rfl, id, rfl, nofun⟩ rfl id rfl hworld

/-! The ends of the `for` loops. -/

theorem started (h : Inv apps s) (hlive : (s.loop i).stage.Live) (hurls : (s.loop i).urls = [])
    (hdone : (s.loop i).stage.done (s.loop i).fed = some (.feeding (s.loop i).fed) ∨ targets apps s i = [])
    (hhere : (s.loop i).stage.here (s.loop i).fed = (s.loop i).stage.due (s.loop i).fed)
    (hobject : (s.loop i).stage.object = none) : Inv apps (s.goTo i .read []) := by
  refine h.goTo rfl rfl h.world hlive ⟨nofun, nofun⟩ ⟨List.nil_suffix, nofun, nofun, nofun, nofun⟩
    (fun j _ u _ => rfl) fun u hu => ?_
  have hfeeding := hdone.resolve_right (List.ne_nil_of_mem hu)
  rw [PushLoop.expect_of_alike (Or.inl hfeeding) hhere hobject (Or.inr hurls), PushLoop.expect_read rfl]
  rfl

theorem ended (h : Inv apps s) (hlive : (s.loop i).stage.Live) (hurls : (s.loop i).urls = [])
    (hstage : (s.loop i).stage = .get) : Inv apps (s.goTo i .ended []) := by
  have hlives : ∀ j, ((s.goTo i .ended []).loop j).stage.Live → j ≠ i ∧ (s.loop j).stage.Live := by
    intro j hj
    rw [loop_goTo] at hj
    split_ifs at hj with heq
    · exact absurd rfl hj.2
    · exact ⟨heq, hj⟩
  refine ⟨fun j hj => ?_, h.distinct, fun j hj => ?_, fun j k hne hj hk => ?_, ?_⟩
  · rw [loop_goTo] at hj ⊢
    split_ifs at hj ⊢
    · exact h.asked i hlive.1
    · exact h.asked j hj
  · obtain ⟨hne, hj'⟩ := hlives j hj
    rw [targets_goTo, loop_goTo, if_neg hne]
    exact h.loops j hj'
  · rw [targets_goTo, targets_goTo]
    exact h.apart j k hne (hlives j hj).2 (hlives k hk).2
  · refine (h.world.ended hlive fun u _ => ?_).congr fun j hj u _ => ?_
    · rw [PushLoop.expect_of_alike (Or.inl rfl) (by rw [hstage]; rfl) (by rw [hstage]; rfl) (Or.inr hurls), hstage]
      rfl
    · rw [loop_goTo, if_neg (hlives j hj).1]

/-! The list of targets. -/

theorem targets_fills (h : Inv apps s) {list : Option (List Bytes)} (hfills : Fills s.pushUrlList list) (j : Nat)
    (hj : (s.loop j).stage ≠ .idle) : targets apps { s with pushUrlList := list } j = targets apps s j :=
  (h.asked j hj).pushUrls_eq hfills

theorem fills (h : Inv apps s) {list : Option (List Bytes)} (hfills : Fills s.pushUrlList list)
    (hnodup : ∀ l ∈ list, l.Nodup) : Inv apps { s with pushUrlList := list } := by
  refine ⟨fun j hj => (h.asked j hj).fills hfills, hnodup, fun j hj => ?_, fun j k hne hj hk => ?_,
    h.world.fills fun j hj => h.targets_fills hfills j hj⟩
  · rw [h.targets_fills hfills j hj.1]
    exact h.loops j hj
  · rw [h.targets_fills hfills j hj.1, h.targets_fills hfills k hk.1]
    exact h.apart j k hne hj hk

/-! The packets, the end, and the beginning. -/

theorem reads (h : Inv apps s) (hstage : (s.loop i).stage = .read) (p : AvPacket) :
    Inv apps (s.setLoop i { s.loop i with
      stage := .isSend p
      urls := targets apps s i
      fed := (s.loop i).fed ++ [p] }) := by
  have hlive : (s.loop i).stage.Live := by
    rw [hstage]
    exact ⟨nofun, nofun⟩
  refine h.setLoop rfl rfl h.world rfl (List.prefix_append _ _) hlive ⟨nofun, nofun⟩
    ⟨List.suffix_refl _, fun _ _ => rfl, nofun, fun q hq => ⟨_, by cases hq; rfl⟩, nofun⟩ (fun j _ u _ => rfl)
    fun u hu => ?_
  rw [PushLoop.expect_read hstage, PushLoop.expect_of_alike (Or.inr hu) rfl rfl (Or.inl rfl)]
  exact congrArg (fun ps => some (none, Life.feeding ps)) List.dropLast_concat.symm

theorem ends (h : Inv apps s) (hstage : (s.loop i).stage = .read) : Inv apps (s.goTo i .get (targets apps s i)) := by
  have hlive : (s.loop i).stage.Live := by
    rw [hstage]
    exact ⟨nofun, nofun⟩
  refine h.goTo rfl rfl h.world hlive ⟨nofun, nofun⟩ ⟨List.suffix_refl _, nofun, nofun, nofun, nofun⟩
    (fun j _ u _ => rfl) fun u hu => ?_
  rw [PushLoop.expect_read hstage, PushLoop.expect_of_alike (Or.inr hu) rfl rfl (Or.inl rfl)]
  rfl

theorem begins (h : Inv apps s) (hidle : (s.loop i).stage = .idle) {key : Bytes} (hasked : Asked key s.pushUrlList)
    (hapart : ∀ j, (s.loop j).stage.Live → List.Disjoint (pushUrls apps key s.pushUrlList).1 (targets apps s j)) :
    Inv apps (s.setLoop i { key, stage := .getAndCreate, urls := (pushUrls apps key s.pushUrlList).1 }) := by
  let l : PushLoop := { key, stage := .getAndCreate, urls := (pushUrls apps key s.pushUrlList).1 }
  have hnone : ∀ u ∈ l.urls, s.staticPushMap.lookup u = none := by
    intro u hu
    rw [Option.eq_none_iff_forall_ne_some]
    intro o' ho'
    obtain ⟨j, hj, hu'⟩ := h.world.claimed u o' ho'
    exact hapart j hj hu hu'
  have hlives : ∀ j, j ≠ i → ((s.setLoop i l).loop j).stage.Live → (s.loop j).stage.Live := by
    intro j hne hj
    rw [loop_setLoop, if_neg hne] at hj
    exact hj
  refine ⟨fun j hj => ?_, h.distinct, fun j hj => ?_, fun j k hne hj hk => ?_, ?_⟩
  · show Asked ((s.setLoop i l).loop j).key s.pushUrlList
    rw [loop_setLoop] at hj ⊢
    split_ifs at hj ⊢
    · exact hasked
    · exact h.asked j hj
  · by_cases hji : j = i
    · rw [hji, targets_self, loop_setLoop, if_pos rfl]
      exact ⟨List.suffix_refl _, nofun, fun _ => rfl, nofun, nofun⟩
    · rw [targets_other hji, loop_setLoop, if_neg hji]
      exact h.loops j (hlives j hji hj)
  · by_cases hji : j = i
    · have hki : k ≠ i := fun hki => hne (hji.trans hki.symm)
      rw [hji, targets_self, targets_other hki]
      exact hapart k (hlives k hki hk)
    · by_cases hki : k = i
      · rw [hki, targets_self, targets_other hji]
        exact (hapart j (hlives j hji hj)).symm
      · rw [targets_other hji, targets_other hki]
        exact h.apart j k hne (hlives j hji hj) (hlives k hki hk)
  · refine (h.world.begins hidle (l := l) hnone).congr fun j _ u hu => ?_
    rw [loop_setLoop]
    split_ifs with hji
    · rw [hji, targets_self] at hu
      rw [PushLoop.expect_of_alike (Or.inr hu) rfl rfl (Or.inl rfl)]
      rfl
    · rfl

theorem works (h : Inv apps s) {k : Nat} {push : Push} (ho : o < s.next) (hworks : Push.Works k (s.push o) push) :
    Inv apps (s.setPush o push) :=
  ⟨h.asked, h.distinct, h.loops, h.apart, h.world.works ho hworks⟩

end Inv

end PushedStreams

end Livego
