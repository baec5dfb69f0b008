import Livego.Machine
import Livego.RtmpTimestamps

/-! A static push: its start, the goroutine that sends the packets on, and those who write packets to it and stop it. -/

namespace Livego

open Machine

namespace StaticPush

/-- What `Start` is at: the connection, the `go` statement, the assignment to the flag. -/
inductive Starting where
  | idle
  | connecting
  | spawning
  | setting
  | returned
  deriving DecidableEq

/-- What the goroutine of `HandleAvPacket` is at: its question for the flag, the `select`, or `sendPacket`. It returns if
the flag is not set, or when it is told to stop. -/
inductive Handling where
  | absent
  | spawned
  | refused
  | selecting
  | sending (p : AvPacket)
  | stopped
  deriving DecidableEq

/-- What `Stop` is at: the send to the goroutine, or the assignment to the flag. -/
inductive Stopping where
  | idle
  | sending
  | clearing
  | returned
  deriving DecidableEq

end StaticPush

/-- The push, with the packets of the calls of `WriteAvPacket` that are at their send, and what the connection was given
to write. -/
structure StaticPush where
  startflag : Bool := false
  packetChan : List AvPacket := []
  streamID : Nat := 0
  start : StaticPush.Starting := .idle
  handler : StaticPush.Handling := .absent
  stop : StaticPush.Stopping := .idle
  writers : List AvPacket := []
  wire : List ChunkStream := []
  deriving DecidableEq

namespace StaticPush

def packetChanCap : Nat := 500

/-- The message of a packet. -/
def chunk (streamID : Nat) (p : AvPacket) : ChunkStream where
  data := p.data
  length := u32 p.data.length
  streamID := streamID
  timestamp := p.timeStamp
  typeID := VirWriter.typeID p

inductive Event where
  | start
  /-- `Start` is connected, as `streamID`. -/
  | connected (streamID : Nat)
  | spawn
  | setFlag
  /-- The goroutine asks for the flag. -/
  | isStart
  | receive
  /-- `sendPacket`, after which the goroutine is at its `select` again. -/
  | sendPacket
  | writeAvPacket (p : AvPacket)
  /-- The send of a call of `WriteAvPacket`. -/
  | send (i : Nat)
  | stop
  /-- The goroutine receives what `Stop` sends. -/
  | ctrl
  | clearFlag
  deriving DecidableEq

def step (s : StaticPush) : Event → Option StaticPush
  | .start =>
    if s.start = .idle then some { s with start := if s.startflag then .returned else .connecting } else none
  | .connected streamID => if s.start = .connecting then some { s with streamID, start := .spawning } else none
  | .spawn => if s.start = .spawning then some { s with handler := .spawned, start := .setting } else none
  | .setFlag => if s.start = .setting then some { s with startflag := true, start := .returned } else none
  | .isStart =>
    if s.handler = .spawned then some { s with handler := if s.startflag then .selecting else .refused } else none
  | .receive =>
    match s.handler, s.packetChan with
    | .selecting, p :: packetChan => some { s with packetChan, handler := .sending p }
    | _, _ => none
  | .sendPacket =>
    match s.handler with
    | .sending p =>
      some { s with handler := .selecting, wire := if s.startflag then s.wire ++ [chunk s.streamID p] else s.wire }
    | _ => none
  | .writeAvPacket p => some (if s.startflag then { s with writers := s.writers ++ [p] } else s)
  | .send i => (s.writers[i]?).bind fun p =>
    if s.packetChan.length < packetChanCap then
      some { s with packetChan := s.packetChan ++ [p], writers := s.writers.eraseIdx i }
    else none
  | .stop => if s.stop = .idle then some { s with stop := if s.startflag then .sending else .idle } else none
  | .ctrl =>
    if s.stop = .sending ∧ s.handler = .selecting then some { s with stop := .clearing, handler := .stopped } else none
  | .clearFlag => if s.stop = .clearing then some { s with startflag := false, stop := .returned } else none

/-- The steps of the goroutine that do not end it. -/
def Event.Consumes (e : Event) : Prop := e = .isStart ∨ e = .receive ∨ e = .sendPacket

/-- The goroutine is at its loop or about to enter it, and by its own steps it gets to where every send that waits can
go on. -/
structure Consumed (s : StaticPush) : Prop where
  alive : s.handler = .spawned ∨ s.handler = .selecting ∨ ∃ p, s.handler = .sending p
  serves : ∃ es t, (∀ e ∈ es, e.Consumes) ∧ run step es s = some t ∧ t.writers = s.writers ∧ t.stop = s.stop ∧
    (∀ i < t.writers.length, (step t (.send i)).isSome) ∧ (t.stop = .sending → (step t .ctrl).isSome)

/-- The goroutine asks for the flag after `Start` has set it. -/
def AsksLate (s : StaticPush) (e : Event) : Prop := e = .isStart → s.startflag = true

instance (s : StaticPush) (e : Event) : Decidable (AsksLate s e) := inferInstanceAs (Decidable (_ → _))

structure Inv (s : StaticPush) : Prop where
  started : s.startflag = true → s.start = .returned
  present : s.handler ≠ .absent ↔ s.start = .setting ∨ s.start = .returned
  running : s.stop = .idle ∨ s.stop = .sending → s.handler ≠ .stopped
  room : s.packetChan.length ≤ packetChanCap

variable {s t : StaticPush} {e : Event}

theorem inv_default : Inv {} := ⟨nofun, by decide, fun _ => nofun, Nat.zero_le _⟩

theorem inv_step (h : Inv s) (hstep : step s e = some t) : Inv t := by
  obtain ⟨hstarted, hpresent, hrunning, hroom⟩ := h
  cases e with
  | start =>
      simp only [step, Option.ite_none_right_eq_some, Option.some.injEq] at hstep
      obtain ⟨hidle, rfl⟩ := hstep
      have hflag : s.startflag = false := by
        by_contra hflag
        rw [hstarted (by simpa using hflag)] at hidle
        cases hidle
      exact ⟨fun hset => by simp [hflag] at hset, by simpa [hflag, hidle] using hpresent, hrunning, hroom⟩
  | connected streamID =>
      simp only [step, Option.ite_none_right_eq_some, Option.some.injEq] at hstep
      obtain ⟨hconnecting, rfl⟩ := hstep
      refine ⟨fun hset => ?_, by simpa [hconnecting] using hpresent, hrunning, hroom⟩
      rw [hstarted hset] at hconnecting
      cases hconnecting
  | spawn =>
      simp only [step, Option.ite_none_right_eq_some, Option.some.injEq] at hstep
      obtain ⟨hspawning, rfl⟩ := hstep
      refine ⟨fun hset => ?_, by simp, fun _ => nofun, hroom⟩
      rw [hstarted hset] at hspawning
      cases hspawning
  | setFlag =>
      simp only [step, Option.ite_none_right_eq_some, Option.some.injEq] at hstep
      obtain ⟨hsetting, rfl⟩ := hstep
      exact ⟨fun _ => rfl, by simpa [hsetting] using hpresent, hrunning, hroom⟩
  | isStart =>
      simp only [step, Option.ite_none_right_eq_some, Option.some.injEq] at hstep
      obtain ⟨hspawned, rfl⟩ := hstep
      have hlate := hpresent.mp (by rw [hspawned]; decide)
      have hasked : ∀ h, h = Handling.absent ∨ h = .stopped → (if s.startflag then .selecting else .refused) ≠ h := by
        rintro h (rfl | rfl)
        · split <;> exact nofun
        · split <;> exact nofun
      exact ⟨hstarted, ⟨fun _ => hlate, fun _ => hasked _ (Or.inl rfl)⟩, fun _ => hasked _ (Or.inr rfl), hroom⟩
  | receive =>
      simp only [step] at hstep
      split at hstep
      · next hselecting hchan =>
          cases hstep
          rw [hselecting] at hpresent
          rw [hchan] at hroom
          exact ⟨hstarted, by simpa using hpresent, fun _ => nofun, Nat.le_of_succ_le hroom⟩
      · cases hstep
  | sendPacket =>
      simp only [step] at hstep
      split at hstep
      · next hsending =>
          cases hstep
          rw [hsending] at hpresent
          exact ⟨hstarted, by simpa using hpresent, fun _ => nofun, hroom⟩
      · cases hstep
  | writeAvPacket p =>
      simp only [step, Option.some.injEq] at hstep
      subst hstep
      split <;> exact ⟨hstarted, hpresent, hrunning, hroom⟩
  | send i =>
      obtain ⟨p, -, hsend⟩ := Option.bind_eq_some_iff.mp hstep
      simp only [Option.ite_none_right_eq_some, Option.some.injEq] at hsend
      obtain ⟨hlt, rfl⟩ := hsend
      exact ⟨hstarted, hpresent, hrunning, List.length_append.trans_le hlt⟩
  | stop =>
      simp only [step, Option.ite_none_right_eq_some, Option.some.injEq] at hstep
      obtain ⟨hidle, rfl⟩ := hstep
      exact ⟨hstarted, hpresent, fun _ => hrunning (Or.inl hidle), hroom⟩
  | ctrl =>
      simp only [step, Option.ite_none_right_eq_some, Option.some.injEq] at hstep
      obtain ⟨⟨-, hselecting⟩, rfl⟩ := hstep
      rw [hselecting] at hpresent
      exact ⟨hstarted, by simpa using hpresent, by simp, hroom⟩
  | clearFlag =>
      simp only [step, Option.ite_none_right_eq_some, Option.some.injEq] at hstep
      obtain ⟨-, rfl⟩ := hstep
      exact ⟨nofun, hpresent, by simp, hroom⟩

/-- The goroutine stays where it is, or it is spawned, asks for the flag, or goes on from its loop. -/
theorem handler_step (hstep : step s e = some t) :
    t.handler = s.handler ∨ (s.start = .spawning ∧ t.handler = .spawned) ∨
      (e = .isStart ∧ s.handler = .spawned ∧ t.handler = if s.startflag then .selecting else .refused) ∨
        ((s.handler = .selecting ∨ ∃ p, s.handler = .sending p) ∧ t.handler ≠ .refused) := by
  cases e with
  | spawn =>
      simp only [step, Option.ite_none_right_eq_some, Option.some.injEq] at hstep
      obtain ⟨hspawning, rfl⟩ := hstep
      exact Or.inr (Or.inl ⟨hspawning, rfl⟩)
  | isStart =>
      simp only [step, Option.ite_none_right_eq_some, Option.some.injEq] at hstep
      obtain ⟨hspawned, rfl⟩ := hstep
      exact Or.inr (Or.inr (Or.inl ⟨rfl, hspawned, rfl⟩))
  | ctrl =>
      simp only [step, Option.ite_none_right_eq_some, Option.some.injEq] at hstep
      obtain ⟨⟨-, hselecting⟩, rfl⟩ := hstep
      exact Or.inr (Or.inr (Or.inr ⟨Or.inl hselecting, nofun⟩))
  | receive =>
      simp only [step] at hstep
      split at hstep
      · next hselecting _ =>
          cases hstep
          exact Or.inr (Or.inr (Or.inr ⟨Or.inl hselecting, nofun⟩))
      · cases hstep
  | sendPacket =>
      simp only [step] at hstep
      split at hstep
      · next p hsending =>
          cases hstep
          exact Or.inr (Or.inr (Or.inr ⟨Or.inr ⟨p, hsending⟩, nofun⟩))
      · cases hstep
  | start | connected _ | setFlag | stop | clearFlag =>
      simp only [step, Option.ite_none_right_eq_some, Option.some.injEq] at hstep
      obtain ⟨-, rfl⟩ := hstep
      exact Or.inl rfl
  | writeAvPacket p =>
      simp only [step, Option.some.injEq] at hstep
      subst hstep
      split <;> exact Or.inl rfl
  | send i =>
      obtain ⟨p, -, hsend⟩ := Option.bind_eq_some_iff.mp hstep
      simp only [Option.ite_none_right_eq_some, Option.some.injEq] at hsend
      obtain ⟨-, rfl⟩ := hsend
      exact Or.inl rfl

/-- A goroutine that has not found the flag set is gone for good. -/
theorem refused_step (h : Inv s) (hrefused : s.handler = .refused) (hstep : step s e = some t) :
    t.handler = .refused := by
  rcases handler_step hstep with hsame | ⟨hspawning, -⟩ | ⟨-, hspawned, -⟩ | ⟨hloop, -⟩
  · rw [hsame, hrefused]
  · have hlate := h.present.mp (by rw [hrefused]; decide)
    rw [hspawning] at hlate
    exact absurd hlate (by decide)
  · rw [hrefused] at hspawned
    cases hspawned
  · simp [hrefused] at hloop

/-- Only a question for the flag that comes too early turns the goroutine away. -/
theorem not_refused_step (h : s.handler ≠ .refused) (hlate : AsksLate s e) (hstep : step s e = some t) :
    t.handler ≠ .refused := by
  rcases handler_step hstep with hsame | ⟨-, hspawned⟩ | ⟨hasks, -, hfound⟩ | ⟨-, hne⟩
  · rw [hsame]
    exact h
  · rw [hspawned]
    exact nofun
  · rw [hfound, if_pos (hlate hasks)]
    exact nofun
  · exact hne

/-! ### What the goroutine does by itself -/

/-- The steps change nothing but the queue, the goroutine and the wire. -/
structure Works (es : List Event) (s t : StaticPush) : Prop where
  consumes : ∀ e ∈ es, e.Consumes
  run : run step es s = some t
  writers : t.writers = s.writers
  stop : t.stop = s.stop

theorem Works.trans {u : StaticPush} {es fs : List Event} (h : Works es s t) (h' : Works fs t u) : Works (es ++ fs) s u :=
  ⟨fun e he => (List.mem_append.mp he).elim (h.consumes e) (h'.consumes e), run_append.mpr ⟨t, h.run, h'.run⟩,
    h'.writers.trans h.writers, h'.stop.trans h.stop⟩

theorem works_nil (s : StaticPush) : Works [] s s := ⟨nofun, rfl, rfl, rfl⟩

/-- It gets to its `select`. -/
theorem selects (hflag : s.startflag = true)
    (halive : s.handler = .spawned ∨ s.handler = .selecting ∨ ∃ p, s.handler = .sending p) :
    ∃ es t, Works es s t ∧ t.handler = .selecting ∧ t.packetChan = s.packetChan := by
  rcases halive with hspawned | hselecting | ⟨p, hsending⟩
  · have hstep : step s .isStart = some { s with handler := .selecting } := by
      simp [step, hspawned, hflag]
    exact ⟨[.isStart], _, ⟨by simp [Event.Consumes], run_cons.mpr ⟨_, hstep, rfl⟩, rfl, rfl⟩, rfl, rfl⟩
  · exact ⟨[], s, works_nil s, hselecting, rfl⟩
  · have hstep : ∃ t, step s .sendPacket = some t ∧ t.handler = .selecting ∧ t.packetChan = s.packetChan ∧
        t.writers = s.writers ∧ t.stop = s.stop := by
      simp [step, hsending]
    obtain ⟨t, hstep, hselecting, hchan, hwriters, hstop⟩ := hstep
    exact ⟨[.sendPacket], t, ⟨by simp [Event.Consumes], run_cons.mpr ⟨t, hstep, rfl⟩, hwriters, hstop⟩, hselecting, hchan⟩

/-- And makes room in the queue. -/
theorem makes_room (hroom : s.packetChan.length ≤ packetChanCap) (hselecting : s.handler = .selecting) :
    ∃ es t, Works es s t ∧ t.handler = .selecting ∧ t.packetChan.length < packetChanCap := by
  cases hchan : s.packetChan with
  | nil => exact ⟨[], s, works_nil s, hselecting, by rw [hchan]; decide⟩
  | cons p packetChan =>
      have hreceive : step s .receive = some { s with packetChan, handler := .sending p } := by
        simp [step, hselecting, hchan]
      have hworks : Works [.receive] s { s with packetChan, handler := .sending p } :=
        ⟨by simp [Event.Consumes], run_cons.mpr ⟨_, hreceive, rfl⟩, rfl, rfl⟩
      have hsend : ∃ t, step { s with packetChan, handler := .sending p } .sendPacket = some t ∧ t.handler = .selecting ∧
          t.packetChan = packetChan ∧ t.writers = s.writers ∧ t.stop = s.stop := by
        simp [step]
      obtain ⟨t, hstep, ht, hshort, hwriters, hstop⟩ := hsend
      have hworks' : Works [.sendPacket] { s with packetChan, handler := .sending p } t :=
        ⟨by simp [Event.Consumes], run_cons.mpr ⟨t, hstep, rfl⟩, hwriters, hstop⟩
      refine ⟨[.receive] ++ [.sendPacket], t, hworks.trans hworks', ht, ?_⟩
      rw [hchan, List.length_cons] at hroom
      rw [hshort]
      exact hroom

theorem consumed_of_alive (h : Inv s) (hflag : s.startflag = true)
    (halive : s.handler = .spawned ∨ s.handler = .selecting ∨ ∃ p, s.handler = .sending p) : Consumed s := by
  obtain ⟨es, t, hworks, ht, hchan⟩ := selects hflag halive
  obtain ⟨fs, u, hworks', hu, hlt⟩ := makes_room (hchan ▸ h.room) ht
  have hall := hworks.trans hworks'
  refine ⟨halive, es ++ fs, u, hall.consumes, hall.run, hall.writers, hall.stop, fun i hi => ?_, fun hstop => ?_⟩
  · simp [step, List.getElem?_eq_getElem hi, hlt]
  · simp [step, hstop, hu]

/-- Until a call of `Stop` gets through, a push that is started has its consumer if and only if the goroutine did not ask
for the flag too early. -/
theorem consumed_iff {es : List Event} (hrun : run step es {} = some t) (hflag : t.startflag = true)
    (hstop : t.stop = .idle ∨ t.stop = .sending) : Consumed t ↔ Along step AsksLate es {} := by
  constructor
  · intro hconsumed
    refine along_of_unmarked (I := Inv) (M := fun s => s.handler = .refused) (fun s e t hs hstep => inv_step hs hstep)
      (fun s e t _ hstep hearly => ?_) (fun s e t hs hr hstep => refused_step hs hr hstep) inv_default hrun fun hrefused => ?_
    · obtain ⟨rfl, hunset⟩ : e = .isStart ∧ ¬s.startflag = true := Classical.not_imp.mp hearly
      simp only [step, Option.ite_none_right_eq_some, Option.some.injEq] at hstep
      obtain ⟨-, rfl⟩ := hstep
      exact if_neg hunset
    · have halive := hconsumed.alive
      rw [hrefused] at halive
      simp at halive
  · intro hlate
    have hinv : Inv t ∧ t.handler ≠ .refused :=
      run_invariant (I := fun s => Inv s ∧ s.handler ≠ .refused)
        (fun s e t hs hC hstep => ⟨inv_step hs.1 hstep, not_refused_step hs.2 hC hstep⟩) ⟨inv_default, nofun⟩ hlate hrun
    have hpresent := hinv.1.present.mpr (Or.inr (hinv.1.started hflag))
    have hrunning := hinv.1.running hstop
    refine consumed_of_alive hinv.1 hflag ?_
    cases hhandler : t.handler with
    | absent => exact absurd hhandler hpresent
    | spawned => exact Or.inl rfl
    | refused => exact absurd hhandler hinv.2
    | selecting => exact Or.inr (Or.inl rfl)
    | sending p => exact Or.inr (Or.inr ⟨p, rfl⟩)
    | stopped => exact absurd hhandler hrunning

/-- The goroutine asks after the assignment, and a packet is on its way. -/
theorem consumed_afterStart :
    Consumed { startflag := true, streamID := 1, start := .returned, handler := .selecting, writers := [{}] } :=
  (@consumed_iff _ [.start, .connected 1, .spawn, .setFlag, .isStart, .writeAvPacket {}] rfl rfl (Or.inl rfl)).mpr
    (by decide)

/-- The goroutine asks before the assignment: the push is started, no packet is ever received from the queue, and no call
of `Stop` gets through. -/
theorem consumer_refused : ∃ s, run step [.start, .connected 1, .spawn, .isStart, .setFlag] {} = some s ∧
    s.startflag = true ∧ s.stop = .idle ∧ ¬Consumed s ∧
    ∀ es t, run step es s = some t → step t .receive = none ∧ step t .ctrl = none := by
  refine ⟨{ startflag := true, streamID := 1, start := .returned, handler := .refused }, rfl, rfl, rfl, ?_, ?_⟩
  · intro hconsumed
    have halive := hconsumed.alive
    simp at halive
  · intro es t hrun
    have hinv : Inv { startflag := true, streamID := 1, start := .returned, handler := .refused } :=
      ⟨fun _ => rfl, by decide, fun _ => nofun, Nat.zero_le _⟩
    have hrefused : Inv t ∧ t.handler = .refused :=
      run_keeps (I := fun s => Inv s ∧ s.handler = .refused)
        (fun s e t hs hstep => ⟨inv_step hs.1 hstep, refused_step hs.1 hs.2 hstep⟩) ⟨hinv, rfl⟩ hrun
    exact ⟨by simp [step, hrefused.2], by simp [step, hrefused.2]⟩

end StaticPush

end Livego
