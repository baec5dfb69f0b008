import Livego.StaticPushStreams

/-! The life of a static push, from its start by a loop to its stop, and what the loop expects of the pushes of its URLs
at each of its stages. -/

namespace Livego

open StaticPush (Handling chunk)

/-- What has become of a push: it is new, or has a goroutine before its flag is set; it has taken packets if it could be
started, or in any case; its goroutine has been told to stop; its loop is done with it. -/
inductive Life where
  | fresh
  | spawned
  | feeding (ps : List AvPacket)
  | flowing (ps : List AvPacket)
  | told (ps : List AvPacket)
  | retired (ps : List AvPacket)

/-- The packets that the push has taken. -/
def Life.packets : Life → List AvPacket
  | .fresh | .spawned => []
  | .feeding ps | .flowing ps | .told ps | .retired ps => ps

namespace Push

variable {push push' : Push} {ps qs : List AvPacket} {k : Nat}

/-- What a goroutine has taken and not yet written on. -/
def inHand : Handling → List AvPacket
  | .sending p => [p]
  | _ => []

/-- No connection was made. -/
structure Unused (push : Push) : Prop where
  startflag : push.startflag = false
  handlers : push.handlers = []
  packetChan : push.packetChan = []
  wire : push.wire = []

/-- The push is started, and every packet is on the wire, in the hand of the goroutine, or waits. -/
structure Flowing (ps : List AvPacket) (push : Push) : Prop where
  startflag : push.startflag = true
  handler : ∃ h, push.handlers = [h] ∧ h ≠ .absent ∧ h ≠ .stopped ∧
    push.wire ++ (inHand h ++ push.packetChan).map (chunk push.streamID) = ps.map (chunk push.streamID)

/-- What is on the wire are the first of the packets. -/
def Sent (ps : List AvPacket) (push : Push) : Prop := ∃ qs, qs <+: ps ∧ push.wire = qs.map (chunk push.streamID)

structure Retired (ps : List AvPacket) (push : Push) : Prop where
  startflag : push.startflag = false
  handlers : push.handlers = [] ∨ push.handlers = [.stopped]
  sent : Sent ps push

/-- The push is at this time of its life. -/
def At (push : Push) : Life → Prop
  | .fresh => push.Unused
  | .spawned => push.startflag = false ∧ (push.handlers = [.spawned] ∨ push.handlers = [.refused]) ∧ push.packetChan = [] ∧
      push.wire = []
  | .feeding ps => push.Unused ∨ push.Flowing ps
  | .flowing ps => push.Flowing ps
  | .told ps => push.startflag = true ∧ push.handlers = [.stopped] ∧ push.Sent ps
  | .retired ps => push.Retired ps

theorem Sent.mono (h : push.Sent ps) (hfirst : ps <+: qs) : push.Sent qs := by
  obtain ⟨rs, hrs, hwire⟩ := h
  exact ⟨rs, hrs.trans hfirst, hwire⟩

theorem Retired.mono (h : push.Retired ps) (hfirst : ps <+: qs) : push.Retired qs :=
  ⟨h.startflag, h.handlers, h.sent.mono hfirst⟩

theorem Unused.sent (h : push.Unused) : push.Sent ps := ⟨[], List.nil_prefix, h.wire⟩

theorem Flowing.sent (h : push.Flowing ps) : push.Sent ps := by
  obtain ⟨h, -, -, -, hwire⟩ := h.handler
  obtain ⟨qs, rs, rfl, hqs, -⟩ := List.map_eq_append_iff.mp hwire.symm
  exact ⟨qs, List.prefix_append qs rs, hqs.symm⟩

/-- What a step of a goroutine is: it asks for the flag, takes a packet, or writes one on. -/
inductive Works (k : Nat) (push : Push) : Push → Prop where
  | asks (hspawned : push.handlers[k]? = some .spawned) :
      Works k push { push with handlers := push.handlers.set k (if push.startflag then .selecting else .refused) }
  | receives {p : AvPacket} {packetChan : List AvPacket} (hselecting : push.handlers[k]? = some .selecting)
      (hchan : push.packetChan = p :: packetChan) :
      Works k push { push with packetChan, handlers := push.handlers.set k (.sending p) }
  | sends {p : AvPacket} (hsending : push.handlers[k]? = some (.sending p)) :
      Works k push { push with
        handlers := push.handlers.set k .selecting
        wire := if push.startflag then push.wire ++ [chunk push.streamID p] else push.wire }

theorem works_of_eq_some (h : push.works k = some push') : Works k push push' := by
  unfold works at h
  split at h
  · next hspawned =>
    cases h
    exact .asks hspawned
  · next hselecting hchan =>
    cases h
    exact .receives hselecting hchan
  · next hsending =>
    cases h
    exact .sends hsending
  · cases h

theorem Works.made (h : Works k push push') : push'.rtmpUrl = push.rtmpUrl ∧ push'.maker = push.maker := by
  cases h <;> exact ⟨rfl, rfl⟩

theorem only_handler {handler h' : Handling} (hhandlers : push.handlers = [handler])
    (hk : push.handlers[k]? = some h') : k = 0 ∧ h' = handler := by
  rw [hhandlers, List.getElem?_singleton] at hk
  split_ifs at hk with hzero
  exact ⟨hzero, (Option.some.inj hk).symm⟩

theorem Flowing.works (h : push.Flowing ps) (hworks : Works k push push') : push'.Flowing ps := by
  obtain ⟨hflag, handler, hhandlers, habsent, hstopped, hwire⟩ := h
  cases hworks with
  | asks hspawned =>
      obtain ⟨rfl, rfl⟩ := only_handler hhandlers hspawned
      refine ⟨hflag, .selecting, ?_, nofun, nofun, hwire⟩
      rw [hhandlers, hflag]
      rfl
  | @receives p packetChan hselecting hchan =>
      obtain ⟨rfl, rfl⟩ := only_handler hhandlers hselecting
      refine ⟨hflag, .sending p, ?_, nofun, nofun, ?_⟩
      · rw [hhandlers]
        rfl
      · rw [hchan] at hwire
        exact hwire
  | @sends p hsending =>
      obtain ⟨rfl, rfl⟩ := only_handler hhandlers hsending
      refine ⟨hflag, .selecting, ?_, nofun, nofun, ?_⟩
      · rw [hhandlers]
        rfl
      · calc (if push.startflag then push.wire ++ [chunk push.streamID p] else push.wire) ++
              push.packetChan.map (chunk push.streamID)
            = push.wire ++ [chunk push.streamID p] ++ push.packetChan.map (chunk push.streamID) := by rw [if_pos hflag]
          _ = push.wire ++ (inHand (.sending p) ++ push.packetChan).map (chunk push.streamID) := by simp [inHand]
          _ = ps.map (chunk push.streamID) := hwire

/-- Without a goroutine, or with one that has stopped, nothing happens. -/
theorem not_works (h : push.handlers = [] ∨ push.handlers = [.stopped] ∨ push.handlers = [.refused]) :
    ¬Works k push push' := by
  intro hworks
  have hk : ∀ h', push.handlers[k]? = some h' → h' = .stopped ∨ h' = .refused := by
    intro h' hk
    have hmem := List.mem_of_getElem? hk
    rcases h with hnone | hstopped | hrefused
    · rw [hnone] at hmem
      exact absurd hmem List.not_mem_nil
    · rw [hstopped] at hmem
      exact Or.inl (List.mem_singleton.mp hmem)
    · rw [hrefused] at hmem
      exact Or.inr (List.mem_singleton.mp hmem)
  cases hworks with
  | asks hspawned => simpa using hk _ hspawned
  | receives hselecting => simpa using hk _ hselecting
  | sends hsending => simpa using hk _ hsending

/-- What a goroutine does by itself is no event in the life of its push. -/
theorem At.works {life : Life} (h : push.At life) (hworks : Works k push push') : push'.At life := by
  cases life with
  | fresh => exact absurd hworks (not_works (Or.inl h.handlers))
  | spawned =>
      obtain ⟨hflag, hspawned | hrefused, hchan, hwire⟩ := h
      · cases hworks with
        | asks hk =>
            refine ⟨hflag, Or.inr ?_, hchan, hwire⟩
            rw [(only_handler hspawned hk).1, hspawned, hflag]
            rfl
        | receives hk hcons =>
            rw [hchan] at hcons
            cases hcons
        | sends hk => exact nomatch (only_handler hspawned hk).2
      · exact absurd hworks (not_works (Or.inr (Or.inr hrefused)))
  | feeding ps =>
      rcases h with hunused | hflowing
      · exact absurd hworks (not_works (Or.inl hunused.handlers))
      · exact Or.inr (hflowing.works hworks)
  | flowing ps => exact Flowing.works h hworks
  | told ps => exact absurd hworks (not_works (Or.inr (Or.inl h.2.1)))
  | retired ps => exact absurd hworks (not_works (h.handlers.imp_right Or.inl))

theorem not_works_of_retired (h : push.Retired ps) : ¬Works k push push' := not_works (h.handlers.imp_right Or.inl)

theorem At.sent {life : Life} (h : push.At life) : push.Sent life.packets := by
  cases life with
  | fresh => exact Unused.sent h
  | spawned => exact ⟨[], List.nil_prefix, h.2.2.2⟩
  | feeding ps => exact h.elim Unused.sent Flowing.sent
  | flowing ps => exact Flowing.sent h
  | told ps => exact h.2.2
  | retired ps => exact Retired.sent h

/-! What its loop does to it. -/

theorem at_new (i : Nat) (url : Bytes) : ({ rtmpUrl := url, maker := i } : Push).At .fresh := ⟨rfl, rfl, rfl, rfl⟩

theorem At.connected (h : push.At .fresh) (streamID : Nat) : ({ push with streamID } : Push).At .fresh :=
  ⟨h.startflag, h.handlers, h.packetChan, h.wire⟩

theorem At.spawned (h : push.At .fresh) : ({ push with handlers := push.handlers ++ [.spawned] } : Push).At .spawned :=
  ⟨h.startflag, Or.inl (by rw [h.handlers]; rfl), h.packetChan, h.wire⟩

theorem At.started (h : push.At .spawned) : ({ push with startflag := true } : Push).At (.feeding []) := by
  obtain ⟨-, hhandlers, hchan, hwire⟩ := h
  have hempty : ∀ h', inHand h' = [] → push.wire ++ (inHand h' ++ push.packetChan).map (chunk push.streamID) =
      ([] : List AvPacket).map (chunk push.streamID) := by
    intro h' hnone
    rw [hnone, hchan, hwire]
    rfl
  rcases hhandlers with hspawned | hrefused
  · exact Or.inr ⟨rfl, .spawned, hspawned, nofun, nofun, hempty _ rfl⟩
  · exact Or.inr ⟨rfl, .refused, hrefused, nofun, nofun, hempty _ rfl⟩

theorem At.flowing (h : push.At (.feeding ps)) (hflag : push.startflag = true) : push.At (.flowing ps) := by
  rcases h with hunused | hflowing
  · rw [hunused.startflag] at hflag
    cases hflag
  · exact hflowing

theorem At.unused (h : push.At (.feeding ps)) (hflag : push.startflag = false) : push.Unused := by
  rcases h with hunused | hflowing
  · exact hunused
  · rw [hflowing.startflag] at hflag
    cases hflag

theorem At.enqueued {p : AvPacket} (h : push.At (.flowing ps)) :
    ({ push with packetChan := push.packetChan ++ [p] } : Push).At (.feeding (ps ++ [p])) := by
  obtain ⟨hflag, handler, hhandlers, habsent, hstopped, hwire⟩ := h
  refine Or.inr ⟨hflag, handler, hhandlers, habsent, hstopped, ?_⟩
  calc push.wire ++ (inHand handler ++ (push.packetChan ++ [p])).map (chunk push.streamID)
      = push.wire ++ (inHand handler ++ push.packetChan).map (chunk push.streamID) ++ [p].map (chunk push.streamID) := by
        simp
    _ = (ps ++ [p]).map (chunk push.streamID) := by rw [hwire, List.map_append]

theorem At.told (h : push.At (.flowing ps)) (hselecting : push.handlers[k]? = some .selecting) :
    ({ push with handlers := push.handlers.set k .stopped } : Push).At (.told ps) := by
  have hflow : push.Flowing ps := h
  obtain ⟨handler, hhandlers, -⟩ := hflow.handler
  have hsent := hflow.sent
  refine ⟨hflow.startflag, ?_, hsent⟩
  rw [(only_handler hhandlers hselecting).1, hhandlers]
  rfl

theorem At.cleared (h : push.At (.told ps)) : ({ push with startflag := false } : Push).At (.retired ps) :=
  ⟨rfl, Or.inr h.2.1, h.2.2⟩

theorem Unused.retired (h : push.Unused) : push.At (.retired ps) := ⟨h.startflag, Or.inl h.handlers, h.sent⟩

end Push

/-! ### What a loop expects of the pushes of its URLs -/

namespace Stage

def Live (stage : Stage) : Prop := stage ≠ .idle ∧ stage ≠ .ended

instance (stage : Stage) : Decidable stage.Live := inferInstanceAs (Decidable (_ ∧ _))

/-- The pushes of URLs that the `for` loop has come to, where they are still in the map. -/
def done (fed : List AvPacket) : Stage → Option Life
  | .getAndCreate | .create | .start _ | .connect _ | .spawn _ | .setFlag _ | .read => some (.feeding fed)
  | .isSend _ | .send _ | .writeAvPacket _ _ | .enqueue _ _ => some (.feeding fed)
  | _ => none

/-- And of those that it has not come to. -/
def due (fed : List AvPacket) : Stage → Option Life
  | .isSend _ | .send _ | .writeAvPacket _ _ | .enqueue _ _ => some (.feeding fed.dropLast)
  | .read | .get | .stop _ | .tell _ | .clearFlag _ | .release => some (.feeding fed)
  | _ => none

/-- The push that the loop is at, if it has asked the map for it. -/
def object : Stage → Option Nat
  | .start o | .connect o | .spawn o | .setFlag o | .writeAvPacket _ o | .enqueue _ o | .stop o | .tell o | .clearFlag o =>
    some o
  | _ => none

/-- The push of the URL that the `for` loop is at. -/
def here (fed : List AvPacket) : Stage → Option Life
  | .start _ | .connect _ | .spawn _ => some .fresh
  | .setFlag _ => some .spawned
  | .writeAvPacket _ _ => some (.feeding fed.dropLast)
  | .enqueue _ _ => some (.flowing fed.dropLast)
  | .stop _ => some (.feeding fed)
  | .tell _ => some (.flowing fed)
  | .clearFlag _ => some (.told fed)
  | .release => some (.retired fed)
  | stage => stage.due fed

/-- The packet that is being handed to the pushes. -/
def packet : Stage → Option AvPacket
  | .isSend p | .send p | .writeAvPacket p _ | .enqueue p _ => some p
  | _ => none

/-- The `for` loop is in the middle of its body. -/
def AtUrl : Stage → Prop
  | .idle | .getAndCreate | .read | .isSend _ | .send _ | .get | .ended => False
  | _ => True

/-- `StartStaticPush` has not returned. -/
def Starting : Stage → Prop
  | .getAndCreate | .create | .start _ | .connect _ | .spawn _ | .setFlag _ => True
  | _ => False

variable {fed : List AvPacket} {stage : Stage} {life : Life}

theorem packets_prefix (h : stage.done fed = some life ∨ stage.here fed = some life ∨ stage.due fed = some life) :
    life.packets <+: fed := by
  cases stage <;> rcases h with h | h | h <;> cases h <;>
    first | exact List.prefix_refl fed | exact List.dropLast_prefix fed | exact List.nil_prefix

end Stage

/-- Whether there is a push in the map, which one, and the time of its life. -/
abbrev Expectation := Option (Option Nat × Life)

namespace PushLoop

/-- What the loop expects under a URL. -/
def expect (l : PushLoop) (u : Bytes) : Expectation :=
  if u ∈ l.urls then
    if l.urls.head? = some u then (l.stage.here l.fed).map (l.stage.object, ·) else (l.stage.due l.fed).map (none, ·)
  else (l.stage.done l.fed).map (none, ·)

variable {l : PushLoop} {stage : Stage} {u v : Bytes} {urls : List Bytes}

theorem expect_here (hurls : l.urls = v :: urls) : l.expect v = (l.stage.here l.fed).map (l.stage.object, ·) := by
  rw [expect, hurls, if_pos List.mem_cons_self]
  exact if_pos rfl

theorem expect_of_ne (hurls : l.urls = v :: urls) (hne : u ≠ v) :
    l.expect u = if u ∈ urls then (l.stage.due l.fed).map (none, ·) else (l.stage.done l.fed).map (none, ·) := by
  have hhead : l.urls.head? ≠ some u := by
    rw [hurls]
    exact fun h => hne (Option.some.inj h).symm
  have hmem : u ∈ l.urls ↔ u ∈ urls := by
    rw [hurls, List.mem_cons]
    exact or_iff_right hne
  rw [expect, if_neg hhead]
  exact if_congr hmem rfl rfl

/-- The loop has gone on at its URL. -/
theorem expect_stay (hurls : l.urls = v :: urls) (hdone : stage.done l.fed = l.stage.done l.fed)
    (hdue : stage.due l.fed = l.stage.due l.fed) (u : Bytes) :
    ({ l with stage, urls := v :: urls } : PushLoop).expect u =
      if u = v then (stage.here l.fed).map (stage.object, ·) else l.expect u := by
  split_ifs with hu
  · rw [hu]
    exact expect_here rfl
  · rw [expect_of_ne hurls hu, ← hdone, ← hdue]
    exact expect_of_ne rfl hu

/-- The loop has gone on to the next URL. -/
theorem expect_next (hurls : l.urls = v :: urls) (hv : v ∉ urls) (hdone : stage.done l.fed = l.stage.done l.fed)
    (hdue : stage.due l.fed = l.stage.due l.fed) (hhere : stage.here l.fed = stage.due l.fed) (hobject : stage.object = none)
    (u : Bytes) :
    ({ l with stage, urls } : PushLoop).expect u =
      if u = v then (stage.done l.fed).map (none, ·) else l.expect u := by
  split_ifs with hu
  · rw [hu]
    exact if_neg hv
  · rw [expect_of_ne hurls hu, ← hdone, ← hdue]
    dsimp only [expect]
    rw [hhere, hobject, ite_self]

/-- What it expects where its stage treats all URLs alike. -/
theorem expect_of_alike {life : Option Life} (hdone : l.stage.done l.fed = life ∨ u ∈ l.urls)
    (hhere : l.stage.here l.fed = l.stage.due l.fed) (hobject : l.stage.object = none)
    (hdue : l.stage.due l.fed = life ∨ l.urls = []) : l.expect u = life.map (none, ·) := by
  unfold expect
  rw [hhere, hobject, ite_self]
  split_ifs with hmem
  · rw [hdue.resolve_right (List.ne_nil_of_mem hmem)]
  · rw [hdone.resolve_right hmem]

/-- The packets that a push has at its time are the first of those that the loop has read. -/
theorem packets_prefix {o? : Option Nat} {life : Life} (h : l.expect u = some (o?, life)) : life.packets <+: l.fed := by
  have hstage : l.stage.done l.fed = some life ∨ l.stage.here l.fed = some life ∨ l.stage.due l.fed = some life := by
    unfold expect at h
    split_ifs at h
    · obtain ⟨_, hhere, heq⟩ := Option.map_eq_some_iff.mp h
      exact Or.inr (Or.inl ((Prod.mk.inj heq).2 ▸ hhere))
    · obtain ⟨_, hdue, heq⟩ := Option.map_eq_some_iff.mp h
      exact Or.inr (Or.inr ((Prod.mk.inj heq).2 ▸ hdue))
    · obtain ⟨_, hdone, heq⟩ := Option.map_eq_some_iff.mp h
      exact Or.inl ((Prod.mk.inj heq).2 ▸ hdone)
  exact Stage.packets_prefix hstage

theorem expect_read (hstage : l.stage = .read) (u : Bytes) : l.expect u = some (none, .feeding l.fed) := by
  unfold expect
  rw [hstage]
  split_ifs <;> rfl

end PushLoop

end Livego
