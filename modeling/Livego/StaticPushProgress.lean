import Livego.StaticPushRuns

/-! No stream is held up for good by its static pushes, where their goroutines do not ask for the flag too early: a loop
that waits for room in a channel, or for its stop to be received, has a goroutine that goes on. -/

namespace Livego

open Machine

open StaticPush (chunk pushUrls packetChanCap DistinctTargets)

/-- The goroutines of the push have found its flag set, and no more packets wait than there is room for. -/
structure Push.Ready (push : Push) : Prop where
  accepted : .refused ∉ push.handlers
  room : push.packetChan.length ≤ packetChanCap

/-- All packets are on the wire, or there is no connection. -/
def Push.Delivered (ps : List AvPacket) (push : Push) : Prop :=
  push.Unused ∨ push.startflag = true ∧ push.wire = ps.map (chunk push.streamID)

/-- What its goroutine can do before it needs another packet. -/
def Push.pending (push : Push) : Nat := 2 * push.packetChan.length + if push.handlers = [.selecting] then 0 else 1

namespace Stage

/-- Where the loop is after its calls. -/
def aim : Stage → Stage
  | .get | .stop _ | .tell _ | .clearFlag _ | .release | .ended => .ended
  | _ => .read

/-- The steps that are left at a URL. -/
def rank : Stage → Nat
  | .getAndCreate => 7
  | .create => 6
  | .start _ | .get => 5
  | .connect _ | .isSend _ | .stop _ => 4
  | .spawn _ | .send _ | .tell _ => 3
  | .setFlag _ | .writeAvPacket _ _ | .clearFlag _ => 2
  | .enqueue _ _ | .release => 1
  | .idle | .read | .ended => 0

end Stage

/-- The steps that are left for the loop, at most. -/
def PushLoop.left (l : PushLoop) : Nat := 8 * l.urls.length + l.stage.rank

namespace PushedStreams

/-- What the goroutine can do that the loop may wait for. -/
def pending (s : PushedStreams) (i : Nat) : Nat :=
  match (s.loop i).stage.object with
  | some o => (s.push o).pending
  | none => 0

/-- The loop is nearer to the end of its calls, or the goroutine has taken a step. -/
structure Nearer (i : Nat) (s t : PushedStreams) : Prop where
  begun : (t.loop i).stage ≠ .idle
  aim : (t.loop i).stage.aim = (s.loop i).stage.aim
  key : (t.loop i).key = (s.loop i).key
  fed : (t.loop i).fed = (s.loop i).fed
  list : t.pushUrlList = s.pushUrlList
  less : (t.loop i).left < (s.loop i).left ∨ (t.loop i).left = (s.loop i).left ∧ t.pending i < s.pending i

/-- The events of the loop between two packets, with these results of connecting, and those of the goroutines. -/
def Helps (i : Nat) (result : Nat → Option Nat) (s : PushedStreams) : Event → Prop
  | .goesOn j | .tells j _ => j = i
  | .connects j streamID => j = i ∧ ∀ o ∈ (s.loop i).stage.object, streamID = result o
  | .works _ _ => True
  | _ => False

variable {apps : List StaticPush.Application} {s t : PushedStreams} {i o k : Nat} {v : Bytes} {stage : Stage} {e : Event}

/-- A goroutine asks for the flag after it has been set. -/
def AsksLate (s : PushedStreams) : Event → Prop
  | .works o k => (s.push o).handlers[k]? = some .spawned → (s.push o).startflag = true
  | _ => True

instance (s : PushedStreams) : ∀ e, Decidable (AsksLate s e)
  | .works _ _ => inferInstanceAs (Decidable (_ = _ → _ = _))
  | .begins _ _ | .goesOn _ | .connects _ _ | .reads _ _ | .ends _ | .tells _ _ => isTrue trivial

theorem ready_setPush (h : ∀ o, (s.push o).Ready) {push : Push} (hpush : push.Ready) (o' : Nat) :
    ((s.setPush o push).push o').Ready := by
  rw [push_setPush]
  split_ifs
  · exact hpush
  · exact h o'

/-- The loop changes a push and goes on. -/
theorem ready_goTo (h : ∀ o, (s.push o).Ready) {push : Push} (hpush : push.Ready) {urls : List Bytes} (o' : Nat) :
    (((s.setPush o push).goTo i stage urls).push o').Ready := ready_setPush h hpush o'

/-- It changes neither the goroutines of the push nor its channel. -/
theorem ready_kept (h : ∀ o, (s.push o).Ready) {push : Push} (hhandlers : push.handlers = (s.push o).handlers)
    (hchan : push.packetChan = (s.push o).packetChan) {urls : List Bytes} (o' : Nat) :
    (((s.setPush o push).goTo i stage urls).push o').Ready :=
  ready_goTo h ⟨hhandlers ▸ (h o).accepted, hchan ▸ (h o).room⟩ o'

theorem not_refused_set {push : Push} (h : push.Ready) {handler : StaticPush.Handling} (hhandler : handler ≠ .refused) :
    .refused ∉ push.handlers.set k handler := by
  intro hmem
  rcases List.mem_or_eq_of_mem_set hmem with hold | hnew
  · exact h.accepted hold
  · exact hhandler hnew.symm

theorem ready_goOnAt {urls : List Bytes} (h : ∀ o, (s.push o).Ready) (hstep : goOnAt apps i v urls s = some t) (o : Nat) :
    (t.push o).Ready := by
  unfold goOnAt at hstep
  split at hstep
  · split at hstep <;> cases hstep <;> exact h o
  · cases hstep
    exact ready_setPush h ⟨List.not_mem_nil, Nat.zero_le _⟩ o
  · split_ifs at hstep <;> cases hstep <;> exact h o
  · next o' _ =>
    cases hstep
    refine ready_goTo h ?_ o
    refine ⟨fun hmem => ?_, (h o').room⟩
    rcases List.mem_append.mp hmem with hold | hnew
    · exact (h o').accepted hold
    · cases List.mem_singleton.mp hnew
  · cases hstep
    refine ready_kept h ?_ ?_ o <;> rfl
  · split_ifs at hstep <;> cases hstep <;> exact h o
  · split at hstep <;> cases hstep <;> exact h o
  · split_ifs at hstep <;> cases hstep <;> exact h o
  · next o' _ =>
    split_ifs at hstep with hroom
    cases hstep
    refine ready_goTo h ?_ o
    refine ⟨(h o').accepted, ?_⟩
    rw [List.length_append]
    exact hroom
  · split at hstep <;> cases hstep <;> exact h o
  · split_ifs at hstep <;> cases hstep <;> exact h o
  · cases hstep
    refine ready_kept h ?_ ?_ o <;> rfl
  · cases hstep
    exact h o
  · cases hstep

theorem ready_works {push push' : Push} (h : push.Ready) (hworks : Push.Works k push push')
    (hlate : push.handlers[k]? = some .spawned → push.startflag = true) : push'.Ready := by
  cases hworks with
  | asks hspawned =>
      refine ⟨not_refused_set h ?_, h.room⟩
      rw [if_pos (hlate hspawned)]
      simp
  | receives hselecting hchan =>
      refine ⟨not_refused_set h (by simp), ?_⟩
      have hroom := h.room
      rw [hchan, List.length_cons] at hroom
      exact Nat.le_of_succ_le hroom
  | sends hsending => exact ⟨not_refused_set h (by simp), h.room⟩

theorem ready_step (h : ∀ o, (s.push o).Ready) (hlate : AsksLate s e) (hstep : step apps s e = some t) (o : Nat) :
    (t.push o).Ready := by
  cases e with
  | begins i key =>
      simp only [step, Option.ite_none_right_eq_some, Option.some.injEq] at hstep
      obtain ⟨-, rfl⟩ := hstep
      exact h o
  | goesOn i =>
      rw [step] at hstep
      split at hstep
      · unfold goOnEnd at hstep
        split at hstep <;> cases hstep <;> exact h o
      · exact ready_goOnAt h hstep o
  | connects i streamID =>
      simp only [step] at hstep
      split at hstep
      · cases hstep
        refine ready_kept h ?_ ?_ o <;> rfl
      · cases hstep
        exact h o
      · cases hstep
  | reads i p =>
      simp only [step, Option.ite_none_right_eq_some, Option.some.injEq] at hstep
      obtain ⟨-, rfl⟩ := hstep
      exact h o
  | ends i =>
      simp only [step, Option.ite_none_right_eq_some, Option.some.injEq] at hstep
      obtain ⟨-, rfl⟩ := hstep
      exact h o
  | tells i k =>
      rw [step] at hstep
      split at hstep
      · next o' _ =>
        split_ifs at hstep
        cases hstep
        refine ready_goTo h ?_ o
        exact ⟨not_refused_set (h o') (by simp), (h o').room⟩
      · cases hstep
  | works o' k =>
      rw [step, Option.ite_none_right_eq_some] at hstep
      obtain ⟨-, hstep⟩ := hstep
      obtain ⟨push, hworks, rfl⟩ := Option.map_eq_some_iff.mp hstep
      exact ready_setPush h (ready_works (h o') (Push.works_of_eq_some hworks) hlate) o

/-! ### The steps that a loop needs -/

theorem can_work {push : Push} {ps : List AvPacket} (h : push.Flowing ps) (hready : push.Ready)
    (hwork : push.handlers ≠ [.selecting] ∨ push.packetChan ≠ []) : ∃ push', push.works 0 = some push' := by
  obtain ⟨handler, hhandlers, habsent, hstopped, -⟩ := h.handler
  cases handler with
  | absent => exact absurd rfl habsent
  | spawned =>
      rw [Push.works, hhandlers]
      exact ⟨_, rfl⟩
  | refused => exact absurd (hhandlers ▸ List.mem_singleton_self _) hready.accepted
  | selecting =>
      have hchan := hwork.resolve_left (not_not_intro hhandlers)
      obtain ⟨p, packetChan, hcons⟩ := List.exists_cons_of_ne_nil hchan
      rw [Push.works, hhandlers, hcons]
      exact ⟨_, rfl⟩
  | sending p =>
      rw [Push.works, hhandlers]
      exact ⟨_, rfl⟩
  | stopped => exact absurd rfl hstopped

theorem pending_works {push push' : Push} {ps : List AvPacket} (h : push.Flowing ps) (hworks : Push.Works k push push') :
    push'.pending < push.pending := by
  obtain ⟨handler, hhandlers, -⟩ := h.handler
  cases hworks with
  | asks hspawned =>
      obtain ⟨rfl, rfl⟩ := Push.only_handler hhandlers hspawned
      simp [Push.pending, hhandlers, h.startflag]
  | receives hselecting hchan =>
      obtain ⟨rfl, rfl⟩ := Push.only_handler hhandlers hselecting
      simp [Push.pending, hhandlers, hchan]
      omega
  | sends hsending =>
      obtain ⟨rfl, rfl⟩ := Push.only_handler hhandlers hsending
      simp [Push.pending, hhandlers]

theorem Nearer.targets (h : Nearer i s t) : targets apps t i = targets apps s i := by
  rw [PushedStreams.targets, PushedStreams.targets, h.key, h.list]

theorem nearer_goTo {w : PushedStreams} {old : Stage} {urls : List Bytes} (hloop : w.loop = s.loop)
    (hlist : w.pushUrlList = s.pushUrlList) (hstage : (s.loop i).stage = old) (hbegun : stage ≠ .idle)
    (haim : stage.aim = old.aim) (hleft : 8 * urls.length + stage.rank < 8 * (s.loop i).urls.length + old.rank) :
    Nearer i s (w.goTo i stage urls) := by
  have hself : (w.goTo i stage urls).loop i = { s.loop i with stage, urls } := by
    rw [loop_goTo, if_pos rfl, hloop]
  rw [← hstage] at haim hleft
  exact ⟨hself ▸ hbegun, hself ▸ haim, hself ▸ rfl, hself ▸ rfl, hlist, Or.inl (hself ▸ hleft)⟩

theorem nearer_goOnEnd (hbegun : (s.loop i).stage ≠ .idle) (hleft : (s.loop i).stage ≠ (s.loop i).stage.aim)
    (hat : ¬(s.loop i).stage.AtUrl) (hurls : (s.loop i).urls = []) : ∃ t, goOnEnd i s = some t ∧ Nearer i s t := by
  have hgoes : ∀ (stage : Stage) {old : Stage}, (s.loop i).stage = old → goOnEnd i s = some (s.goTo i stage []) →
      stage ≠ .idle → stage.aim = old.aim → stage.rank < old.rank → ∃ t, goOnEnd i s = some t ∧ Nearer i s t := by
    intro stage old hold hgo hstage haim hrank
    refine ⟨_, hgo, nearer_goTo rfl rfl hold hstage haim ?_⟩
    rw [hurls]
    exact Nat.add_lt_add_left hrank _
  cases hstage : (s.loop i).stage with
  | idle => exact absurd hstage hbegun
  | getAndCreate => exact hgoes .read hstage (by rw [goOnEnd, hstage]) (by simp) rfl (Nat.succ_pos 6)
  | isSend p => exact hgoes .read hstage (by rw [goOnEnd, hstage]) (by simp) rfl (Nat.succ_pos 3)
  | send p => exact hgoes .read hstage (by rw [goOnEnd, hstage]) (by simp) rfl (Nat.succ_pos 2)
  | get => exact hgoes .ended hstage (by rw [goOnEnd, hstage]) (by simp) rfl (Nat.succ_pos 4)
  | read | ended =>
      rw [hstage] at hleft
      exact absurd rfl hleft
  | _ =>
      rw [hstage] at hat
      exact absurd trivial hat

theorem nearer_goOnAt {urls : List Bytes} (h : Inv apps s) (hcons : Consistent (targets apps s i) (s.loop i))
    (hbegun : (s.loop i).stage ≠ .idle) (hleft : (s.loop i).stage ≠ (s.loop i).stage.aim)
    (hconnect : ∀ o, (s.loop i).stage ≠ .connect o) (htell : ∀ o, (s.loop i).stage ≠ .tell o)
    (hroom : ∀ p o, (s.loop i).stage = .enqueue p o → (s.push o).packetChan.length < packetChanCap)
    (hurls : (s.loop i).urls = v :: urls) : ∃ t, goOnAt apps i v urls s = some t ∧ Nearer i s t := by
  have hstays : ∀ (w : PushedStreams) (stage : Stage) {old : Stage}, (s.loop i).stage = old →
      goOnAt apps i v urls s = some (w.goTo i stage (v :: urls)) → w.loop = s.loop →
      w.pushUrlList = s.pushUrlList → stage ≠ .idle → stage.aim = old.aim → stage.rank < old.rank →
      ∃ t, goOnAt apps i v urls s = some t ∧ Nearer i s t := by
    intro w stage old hold hgo hloop hlist hstage haim hrank
    refine ⟨_, hgo, nearer_goTo hloop hlist hold hstage haim ?_⟩
    rw [hurls]
    exact Nat.add_lt_add_left hrank _
  have hnext : ∀ (w : PushedStreams) (stage : Stage) {old : Stage}, (s.loop i).stage = old →
      goOnAt apps i v urls s = some (w.goTo i stage urls) → w.loop = s.loop →
      w.pushUrlList = s.pushUrlList → stage ≠ .idle → stage.aim = old.aim → stage.rank < 8 →
      ∃ t, goOnAt apps i v urls s = some t ∧ Nearer i s t := by
    intro w stage old hold hgo hloop hlist hstage haim hrank
    refine ⟨_, hgo, nearer_goTo hloop hlist hold hstage haim ?_⟩
    rw [hurls, List.length_cons]
    omega
  cases hstage : (s.loop i).stage with
  | idle => exact absurd hstage hbegun
  | getAndCreate =>
      cases hlookup : s.staticPushMap.lookup v with
      | none => exact hstays s .create hstage (by rw [goOnAt, hstage, hlookup]) rfl rfl (by simp) rfl (by simp [Stage.rank])
      | some o =>
          exact hstays s (.start o) hstage (by rw [goOnAt, hstage, hlookup]) rfl rfl (by simp) rfl (by simp [Stage.rank])
  | create =>
      exact hstays (s.newStaticPush i v) (.start s.next) hstage (by rw [goOnAt, hstage]) rfl rfl (by simp) rfl
        (by simp [Stage.rank])
  | start o =>
      by_cases hflag : (s.push o).startflag = true
      · exact hnext s .getAndCreate hstage (by rw [goOnAt, hstage]; exact if_pos hflag) rfl rfl (by simp) rfl
          (by simp [Stage.rank])
      · exact hstays s (.connect o) hstage (by rw [goOnAt, hstage]; exact if_neg hflag) rfl rfl (by simp) rfl
          (by simp [Stage.rank])
  | connect o => exact absurd hstage (hconnect o)
  | spawn o =>
      exact hstays (s.setPush o { s.push o with handlers := (s.push o).handlers ++ [.spawned] }) (.setFlag o) hstage
        (by rw [goOnAt, hstage]) rfl rfl (by simp) rfl (by simp [Stage.rank])
  | setFlag o =>
      exact hnext (s.setPush o { s.push o with startflag := true }) .getAndCreate hstage
        (by rw [goOnAt, hstage]) rfl rfl (by simp) rfl (by simp [Stage.rank])
  | isSend p =>
      by_cases hfound : (s.staticPushMap.lookup v).isSome = true
      · have htargets : (pushUrls apps (s.loop i).key s.pushUrlList).1 = v :: urls :=
          (hcons.isSend p hstage).symm.trans hurls
        refine hstays { s with pushUrlList := (pushUrls apps (s.loop i).key s.pushUrlList).2 } (.send p) hstage ?_ rfl
          (h.asked i hbegun).pushUrls_snd (by simp) rfl (by simp [Stage.rank])
        rw [goOnAt, hstage, ← htargets]
        exact if_pos hfound
      · exact hnext s (.isSend p) hstage (by rw [goOnAt, hstage]; exact if_neg hfound) rfl rfl (by simp) rfl
          (by simp [Stage.rank])
  | send p =>
      cases hlookup : s.staticPushMap.lookup v with
      | none => exact hnext s (.send p) hstage (by rw [goOnAt, hstage, hlookup]) rfl rfl (by simp) rfl (by simp [Stage.rank])
      | some o =>
          exact hstays s (.writeAvPacket p o) hstage (by rw [goOnAt, hstage, hlookup]) rfl rfl (by simp) rfl
            (by simp [Stage.rank])
  | writeAvPacket p o =>
      by_cases hflag : (s.push o).startflag = true
      · exact hstays s (.enqueue p o) hstage (by rw [goOnAt, hstage]; exact if_pos hflag) rfl rfl (by simp) rfl
          (by simp [Stage.rank])
      · exact hnext s (.send p) hstage (by rw [goOnAt, hstage]; exact if_neg hflag) rfl rfl (by simp) rfl
          (by simp [Stage.rank])
  | enqueue p o =>
      refine hnext (s.setPush o { s.push o with packetChan := (s.push o).packetChan ++ [p] }) (.send p) hstage ?_ rfl rfl
        (by simp) rfl (by simp [Stage.rank])
      rw [goOnAt, hstage]
      exact if_pos (hroom p o hstage)
  | get =>
      cases hlookup : s.staticPushMap.lookup v with
      | none => exact hnext s .get hstage (by rw [goOnAt, hstage, hlookup]) rfl rfl (by simp) rfl (by simp [Stage.rank])
      | some o =>
          exact hstays s (.stop o) hstage (by rw [goOnAt, hstage, hlookup]) rfl rfl (by simp) rfl (by simp [Stage.rank])
  | stop o =>
      by_cases hflag : (s.push o).startflag = true
      · exact hstays s (.tell o) hstage (by rw [goOnAt, hstage]; exact if_pos hflag) rfl rfl (by simp) rfl
          (by simp [Stage.rank])
      · exact hstays s .release hstage (by rw [goOnAt, hstage]; exact if_neg hflag) rfl rfl (by simp) rfl
          (by simp [Stage.rank])
  | tell o => exact absurd hstage (htell o)
  | clearFlag o =>
      exact hstays (s.setPush o { s.push o with startflag := false }) .release hstage
        (by rw [goOnAt, hstage]) rfl rfl (by simp) rfl (by simp [Stage.rank])
  | release =>
      exact hnext { s with staticPushMap := s.staticPushMap.erase v } .get hstage
        (by rw [goOnAt, hstage]) rfl rfl (by simp) rfl (by simp [Stage.rank])
  | read | ended =>
      rw [hstage] at hleft
      exact absurd rfl hleft

/-- What the loops rely on, where no goroutine has asked too early. -/
structure Unhindered (apps : List StaticPush.Application) (s : PushedStreams) : Prop where
  inv : Inv apps s
  ready : ∀ o, (s.push o).Ready

theorem unhindered_step (hdistinct : DistinctTargets apps) (h : Unhindered apps s) (hapart : Apart apps s e)
    (hlate : AsksLate s e) (hstep : step apps s e = some t) : Unhindered apps t :=
  ⟨inv_step hdistinct h.inv hapart hstep, ready_step h.ready hlate hstep⟩

theorem Helps.apart {result : Nat → Option Nat} (h : Helps i result s e) : Apart apps s e := by
  cases e with
  | begins => exact h.elim
  | _ => trivial

/-- A goroutine that the loop waits for goes on. -/
theorem nearer_works (h : Inv apps s) {ps : List AvPacket} (hobject : (s.loop i).stage.object = some o)
    (hbegun : (s.loop i).stage ≠ .idle) (hlookup : s.staticPushMap.lookup v = some o) (hflow : (s.push o).Flowing ps)
    {push : Push} (hwork : (s.push o).works 0 = some push) :
    ∃ t, step apps s (.works o 0) = some t ∧ AsksLate s (.works o 0) ∧ Nearer i s t := by
  refine ⟨s.setPush o push, ?_, fun _ => hflow.startflag, hbegun, rfl, rfl, rfl, rfl, Or.inr ⟨rfl, ?_⟩⟩
  · rw [step, if_pos (h.world.named v o hlookup).1, hwork]
    rfl
  · have hless := pending_works hflow (Push.works_of_eq_some hwork)
    have hafter : (s.setPush o push).pending i = push.pending := by
      have hloop : ((s.setPush o push).loop i).stage.object = some o := hobject
      rw [pending, hloop]
      dsimp only
      rw [push_setPush, if_pos rfl]
    have hbefore : s.pending i = (s.push o).pending := by rw [pending, hobject]
    rw [hafter, hbefore]
    exact hless

/-- A loop that is not at the end of its calls has a step, or waits for a goroutine that has one. -/
theorem Unhindered.nearer (h : Unhindered apps s) (hbegun : (s.loop i).stage ≠ .idle)
    (hleft : (s.loop i).stage ≠ (s.loop i).stage.aim) (result : Nat → Option Nat) :
    ∃ e t, step apps s e = some t ∧ Helps i result s e ∧ AsksLate s e ∧ Nearer i s t := by
  have hlive : (s.loop i).stage.Live := ⟨hbegun, fun hended => hleft (by rw [hended]; rfl)⟩
  have hcons := h.inv.loops i hlive
  by_cases hconnect : ∃ o, (s.loop i).stage = .connect o
  · obtain ⟨o, hstage⟩ := hconnect
    obtain ⟨v, urls, hurls⟩ := List.exists_cons_of_ne_nil (hcons.atUrl (by rw [hstage]; trivial))
    have hresult : Helps i result s (.connects i (result o)) := by
      refine ⟨rfl, fun o' ho' => ?_⟩
      rw [hstage] at ho'
      cases ho'
      rfl
    refine ⟨.connects i (result o), ?_⟩
    cases hid : result o with
    | none =>
        refine ⟨s.goTo i .getAndCreate urls, ?_, hid ▸ hresult, trivial, nearer_goTo rfl rfl hstage (by simp) rfl ?_⟩
        · simp only [step, hstage, hurls]
        · rw [hurls, List.length_cons, Stage.rank, Stage.rank]
          omega
    | some streamID =>
        refine ⟨(s.setPush o { s.push o with streamID }).goTo i (.spawn o) (v :: urls), ?_, hid ▸ hresult, trivial,
          nearer_goTo rfl rfl hstage (by simp) rfl ?_⟩
        · simp only [step, hstage, hurls]
        · rw [hurls, Stage.rank, Stage.rank]
          omega
  by_cases htell : ∃ o, (s.loop i).stage = .tell o
  · obtain ⟨o, hstage⟩ := htell
    obtain ⟨v, urls, hurls⟩ := List.exists_cons_of_ne_nil (hcons.atUrl (by rw [hstage]; trivial))
    obtain ⟨hlookup, -, hflow⟩ := h.inv.held hlive hurls hstage rfl rfl
    by_cases hselecting : (s.push o).handlers = [.selecting]
    · refine ⟨.tells i 0, (s.setPush o { s.push o with handlers := (s.push o).handlers.set 0 .stopped }).goTo i
        (.clearFlag o) (v :: urls), ?_, rfl, trivial, nearer_goTo rfl rfl hstage (by simp) rfl ?_⟩
      · simp only [step, hstage, hurls]
        rw [if_pos (by rw [hselecting]; rfl)]
      · rw [hurls, Stage.rank, Stage.rank]
        omega
    · obtain ⟨push, hwork⟩ := can_work hflow (h.ready o) (Or.inl hselecting)
      obtain ⟨t, hstep, hlate, hnearer⟩ := nearer_works h.inv (by rw [hstage]; rfl) hbegun hlookup hflow hwork
      exact ⟨.works o 0, t, hstep, trivial, hlate, hnearer⟩
  by_cases hfull : ∃ p o, (s.loop i).stage = .enqueue p o ∧ ¬(s.push o).packetChan.length < packetChanCap
  · obtain ⟨p, o, hstage, hfull⟩ := hfull
    obtain ⟨v, urls, hurls⟩ := List.exists_cons_of_ne_nil (hcons.atUrl (by rw [hstage]; trivial))
    obtain ⟨hlookup, -, hflow⟩ := h.inv.held hlive hurls hstage rfl rfl
    have hchan : (s.push o).packetChan ≠ [] := by
      intro hnil
      rw [hnil] at hfull
      exact hfull (by decide)
    obtain ⟨push, hwork⟩ := can_work hflow (h.ready o) (Or.inr hchan)
    obtain ⟨t, hstep, hlate, hnearer⟩ := nearer_works h.inv (by rw [hstage]; rfl) hbegun hlookup hflow hwork
    exact ⟨.works o 0, t, hstep, trivial, hlate, hnearer⟩
  refine ⟨.goesOn i, ?_⟩
  rw [step]
  cases hurls : (s.loop i).urls with
  | nil =>
      obtain ⟨t, hstep, hnearer⟩ := nearer_goOnEnd hbegun hleft (fun hat => hcons.atUrl hat hurls) hurls
      exact ⟨t, hstep, rfl, trivial, hnearer⟩
  | cons v urls =>
      obtain ⟨t, hstep, hnearer⟩ := nearer_goOnAt h.inv hcons hbegun hleft (fun o ho => hconnect ⟨o, ho⟩)
        (fun o ho => htell ⟨o, ho⟩) (fun p o ho => by_contra fun hroom => hfull ⟨p, o, ho, hroom⟩) hurls
      exact ⟨t, hstep, rfl, trivial, hnearer⟩

/-- The loop gets to the end of its calls: it has fewer steps left after each of its own, and as many after one of a
goroutine, which has itself less to do then. -/
theorem Unhindered.gets {s : PushedStreams} (hdistinct : DistinctTargets apps) (h : Unhindered apps s)
    (hbegun : (s.loop i).stage ≠ .idle) (result : Nat → Option Nat) : ∃ es t, run (step apps) es s = some t ∧
      Along (step apps) (fun s e => Helps i result s e ∧ AsksLate s e) es s ∧ Unhindered apps t ∧
      (t.loop i).stage = (s.loop i).stage.aim ∧ (t.loop i).fed = (s.loop i).fed ∧
      targets apps t i = targets apps s i := by
  by_cases hleft : (s.loop i).stage = (s.loop i).stage.aim
  · exact ⟨[], s, rfl, trivial, h, hleft, rfl, rfl⟩
  · obtain ⟨e, t, hstep, hhelps, hlate, hnearer⟩ := h.nearer hbegun hleft result
    have ht := unhindered_step hdistinct h hhelps.apart hlate hstep
    have hless := hnearer.less
    obtain ⟨es, u, hrun, halong, hu, haim, hfed, htargets⟩ := ht.gets hdistinct hnearer.begun result
    refine ⟨e :: es, u, run_cons.mpr ⟨t, hstep, hrun⟩, ⟨⟨hhelps, hlate⟩, fun t' ht' => ?_⟩, hu, haim.trans hnearer.aim,
      hfed.trans hnearer.fed, htargets.trans hnearer.targets⟩
    cases hstep.symm.trans ht'
    exact halong
termination_by ((s.loop i).left, s.pending i)
decreasing_by exact Prod.lex_def.mpr hless

/-! ### What is then on the wire -/

/-- The goroutine writes on what it has in its hand and what waits. -/
theorem Unhindered.drains {s : PushedStreams} {ps : List AvPacket} (hdistinct : DistinctTargets apps)
    (h : Unhindered apps s) (hlookup : s.staticPushMap.lookup v = some o) (hflow : (s.push o).Flowing ps)
    (i : Nat) (result : Nat → Option Nat) : ∃ es push, run (step apps) es s = some (s.setPush o push) ∧
      Along (step apps) (fun s e => Helps i result s e ∧ AsksLate s e) es s ∧
      Unhindered apps (s.setPush o push) ∧ push.maker = (s.push o).maker ∧ push.Delivered ps := by
  have hself : s.setPush o (s.push o) = s := by
    unfold setPush
    rw [Function.update_eq_self]
  by_cases hwork : (s.push o).handlers ≠ [.selecting] ∨ (s.push o).packetChan ≠ []
  · obtain ⟨push, hworks⟩ := can_work hflow (h.ready o) hwork
    have hstep : step apps s (.works o 0) = some (s.setPush o push) := by
      rw [step, if_pos (h.inv.world.named v o hlookup).1, hworks]
      rfl
    have hpush : (s.setPush o push).push o = push := by rw [push_setPush, if_pos rfl]
    have hsteps := Push.works_of_eq_some hworks
    have hless : ((s.setPush o push).push o).pending < (s.push o).pending := hpush.symm ▸ pending_works hflow hsteps
    have hlate : AsksLate s (.works o 0) := fun _ => hflow.startflag
    have hapart : Apart apps s (.works o 0) := trivial
    have hnext := unhindered_step hdistinct h hapart hlate hstep
    obtain ⟨es, push', hrun, halong, hafter, hmaker, hdelivered⟩ := hnext.drains hdistinct hlookup
      (hpush.symm ▸ hflow.works hsteps) i result
    have hidem : (s.setPush o push).setPush o push' = s.setPush o push' := by
      unfold setPush
      rw [Function.update_idem]
    rw [hidem] at hrun hafter
    refine ⟨.works o 0 :: es, push', run_cons.mpr ⟨_, hstep, hrun⟩, ⟨⟨trivial, hlate⟩, fun t ht => ?_⟩, hafter,
      hmaker.trans ((congrArg Push.maker hpush).trans hsteps.made.2), hdelivered⟩
    cases hstep.symm.trans ht
    exact halong
  · obtain ⟨hselecting, hchan⟩ := not_or.mp hwork
    rw [not_ne_iff] at hselecting hchan
    refine ⟨[], s.push o, congrArg some hself.symm, trivial, hself.symm ▸ h, rfl, Or.inr ⟨hflow.startflag, ?_⟩⟩
    obtain ⟨handler, hhandlers, -, -, hwire⟩ := hflow.handler
    rw [hselecting] at hhandlers
    cases hhandlers
    rw [hchan] at hwire
    exact (List.append_nil _).symm.trans hwire
termination_by (s.push o).pending
decreasing_by exact hless

/-- The goroutines of all its pushes do, while the loop is at `Read`. -/
theorem Unhindered.delivers (hdistinct : DistinctTargets apps) (h : Unhindered apps s) (hread : (s.loop i).stage = .read)
    (result : Nat → Option Nat) {us : List Bytes} (hus : us ⊆ targets apps s i) :
    ∃ es t, run (step apps) es s = some t ∧
      Along (step apps) (fun s e => Helps i result s e ∧ AsksLate s e) es s ∧ Unhindered apps t ∧
      t = { s with push := t.push } ∧ ∀ u ∈ us, ∃ o, t.staticPushMap.lookup u = some o ∧ (t.push o).maker = i ∧
        (t.push o).Delivered (t.loop i).fed := by
  induction us with
  | nil => exact ⟨[], s, rfl, trivial, h, rfl, nofun⟩
  | cons u us ih =>
      obtain ⟨es, t, hrun, halong, ht, hsame, hdelivered⟩ := ih (List.subset_of_cons_subset hus)
      have hread' : (t.loop i).stage = .read := by rw [hsame]; exact hread
      have hu : u ∈ targets apps t i := by
        rw [hsame]
        exact hus List.mem_cons_self
      have hslot := ht.inv.world.slots i (live_of_eq hread' ⟨nofun, nofun⟩) u hu
      rw [PushLoop.expect_read hread'] at hslot
      obtain ⟨o, hlookup, -, hmaker, hunused | hflow⟩ := hslot
      · refine ⟨es, t, hrun, halong, ht, hsame, fun u' hu' => ?_⟩
        rcases List.mem_cons.mp hu' with rfl | hu'
        · exact ⟨o, hlookup, hmaker, Or.inl hunused⟩
        · exact hdelivered u' hu'
      · obtain ⟨fs, push, hrun', halong', ht', hmaker', hpush⟩ := ht.drains hdistinct hlookup hflow i result
        have hkept : ∀ o', (t.push o').maker = i → o' = o ∨ (t.push o').Delivered (t.loop i).fed →
            ((t.setPush o push).push o').maker = i ∧ ((t.setPush o push).push o').Delivered (t.loop i).fed := by
          intro o' ho' hdone
          rw [push_setPush]
          split_ifs with hsame'
          · exact ⟨hmaker'.trans hmaker, hpush⟩
          · exact ⟨ho', hdone.resolve_left hsame'⟩
        refine ⟨es ++ fs, t.setPush o push, run_append.mpr ⟨t, hrun, hrun'⟩, halong.concat hrun halong', ht', ?_,
          fun u' hu' => ?_⟩
        · rw [hsame]
          rfl
        · rcases List.mem_cons.mp hu' with rfl | hu'
          · exact ⟨o, hlookup, hkept o hmaker (Or.inl rfl)⟩
          · obtain ⟨o', hlookup', ho', hdone⟩ := hdelivered u' hu'
            exact ⟨o', hlookup', hkept o' ho' (Or.inr hdone)⟩

theorem unhindered_run (hdistinct : DistinctTargets apps) {es : List Event} (hrun : run (step apps) es {} = some s)
    (hapart : Along (step apps) (Apart apps) es {}) (hlate : Along (step apps) AsksLate es {}) : Unhindered apps s :=
  run_invariant (fun _ _ _ h hC hstep => unhindered_step hdistinct h hC.1 hC.2 hstep)
    ⟨inv_default, fun _ => ⟨List.not_mem_nil, Nat.zero_le _⟩⟩ (hapart.and hlate) hrun

/-- The first stream has had its packet, the second one has read its own. -/
def sampleFirst : List Event :=
  .begins 0 (lit "live/x") :: .begins 1 (lit "live/y") :: sampleStart 0 ++ sampleStart 1 ++
    samplePass 0 { data := [1] } ++ [.reads 1 { data := [2] }]

end PushedStreams

end Livego
