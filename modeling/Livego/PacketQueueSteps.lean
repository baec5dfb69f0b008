import Livego.PacketQueue

/-! `Write` and `DropPacket` step by step, while the consumer takes packets out of the queue at any time: the bound of
the queue, and whether `DropPacket` waits for a packet that nobody will send. -/

namespace Livego

open Machine

/-- Where a call of `Write` is, with the packet that it has in hand and the iterations of `DropPacket` to go after the
one it is in: at the send of its own packet, at the head of the loop, at the question for the length after an audio
packet was received and at what follows, at the send of a video packet, and at the question for the length after that. -/
inductive WriteCall where
  | idle
  | sending (p : PacketRef)
  | receiving (i : Nat)
  | audioLength (tmpPkt : PacketRef) (i : Nat)
  | audioDiscard (tmpPkt : PacketRef) (i : Nat)
  | audioSend (tmpPkt : PacketRef) (i : Nat)
  | videoSend (tmpPkt : PacketRef) (i : Nat)
  | videoLength (i : Nat)
  | videoDiscard (i : Nat)
  deriving DecidableEq

namespace WriteCall

/-- After the branch for audio. -/
def videoBranch (tmpPkt : PacketRef) (i : Nat) : WriteCall :=
  if tmpPkt.isVideo then
    if tmpPkt.headerKept then .videoSend tmpPkt i else .videoLength i
  else .receiving i

/-- After the receive. -/
def received (tmpPkt : PacketRef) (i : Nat) : WriteCall :=
  if tmpPkt.isAudio then .audioLength tmpPkt i else videoBranch tmpPkt i

/-- The packet that `DropPacket` has received and puts back. -/
def taken : WriteCall → List PacketRef
  | .audioLength p _ => [p]
  | .audioSend p _ => [p]
  | .videoSend p _ => [p]
  | _ => []

/-- The packet that is in hand. -/
def held : WriteCall → List PacketRef
  | .sending p => [p]
  | call => call.taken

/-- The receives that `DropPacket` has still to make at the head of its loop. -/
def toGo : WriteCall → Nat
  | .receiving i => i
  | .audioLength _ i => i
  | .audioDiscard _ i => i
  | .audioSend _ i => i
  | .videoSend _ i => i
  | .videoLength i => i
  | .videoDiscard i => i
  | _ => 0

/-- The call cannot go on without a packet from the queue. -/
def Receives : WriteCall → Prop
  | .receiving i => 0 < i
  | .audioDiscard _ _ => True
  | .videoDiscard _ => True
  | _ => False

/-- The call cannot go on without room in the queue. -/
def Sends : WriteCall → Prop
  | .sending _ => True
  | .audioSend _ _ => True
  | .videoSend _ _ => True
  | _ => False

/-- One of the branches in which a packet is dropped because the queue is nearly full. -/
def Forced : WriteCall → Prop
  | .audioDiscard _ _ => True
  | .videoDiscard _ => True
  | _ => False

/-- Steps that the call may take, at most. -/
def left : WriteCall → Nat
  | .idle => 0
  | .sending _ => 1
  | .receiving i => 4 * i + 1
  | .audioLength _ i => 4 * i + 4
  | .audioDiscard _ i => 4 * i + 3
  | .audioSend _ i => 4 * i + 3
  | .videoSend _ i => 4 * i + 3
  | .videoLength i => 4 * i + 2
  | .videoDiscard i => 4 * i + 2

end WriteCall

/-- The queue, the call of `Write`, the number of calls, the packets that `Write` has put into the queue, and those that
the consumer has taken. -/
structure SharedQueue where
  packetQueue : List PacketRef := []
  call : WriteCall := .idle
  next : Nat := 0
  queued : List PacketRef := []
  sent : List PacketRef := []
  deriving DecidableEq

namespace SharedQueue

open PacketRef (kept)
open WriteCall (videoBranch received)

inductive Event where
  /-- `Write` is called and looks at the length of the queue. -/
  | write (p : MediaPacket)
  /-- The call takes its next step. -/
  | advance
  /-- The consumer receives a packet. -/
  | take
  deriving DecidableEq

variable (maxQueueNum : Nat)

/-- A receive of the call, if there is something to receive. -/
def receive (s : SharedQueue) (call : PacketRef → WriteCall) : Option SharedQueue :=
  match s.packetQueue with
  | [] => none
  | p :: packetQueue => some { s with packetQueue, call := call p }

/-- A send of the call, if there is room. -/
def send (s : SharedQueue) (p : PacketRef) (call : WriteCall) : Option SharedQueue :=
  if s.packetQueue.length < maxQueueNum then some { s with packetQueue := s.packetQueue ++ [p], call } else none

def advance (s : SharedQueue) : Option SharedQueue :=
  match s.call with
  | .idle => none
  | .sending p => (send maxQueueNum s p .idle).map fun t => { t with queued := t.queued ++ [p] }
  | .receiving 0 => some { s with call := .idle }
  | .receiving (i + 1) => receive s fun tmpPkt => received tmpPkt i
  | .audioLength tmpPkt i =>
    some { s with call := if s.packetQueue.length > maxQueueNum - 2 then .audioDiscard tmpPkt i else .audioSend tmpPkt i }
  | .audioDiscard tmpPkt i => receive s fun _ => videoBranch tmpPkt i
  | .audioSend tmpPkt i => send maxQueueNum s tmpPkt (videoBranch tmpPkt i)
  | .videoSend tmpPkt i => send maxQueueNum s tmpPkt (.videoLength i)
  | .videoLength i =>
    some { s with call := if s.packetQueue.length > maxQueueNum - 10 then .videoDiscard i else .receiving i }
  | .videoDiscard i => receive s fun _ => .receiving i

def step (s : SharedQueue) : Event → Option SharedQueue
  | .write p =>
    if s.call = .idle then some { s with
      call := if s.packetQueue.length ≥ maxQueueNum - 24 then .receiving (maxQueueNum - 84) else .sending ⟨s.next, p⟩
      next := s.next + 1 }
    else none
  | .advance => advance maxQueueNum s
  | .take =>
    match s.packetQueue with
    | [] => none
    | p :: packetQueue => some { s with packetQueue, sent := s.sent ++ [p] }

variable {maxQueueNum : Nat} {s t : SharedQueue} {e : Event}

/-- The length of the queue, with the packet in hand, is below the threshold, and what `DropPacket` has in hand is kept. -/
structure Fits (maxQueueNum : Nat) (s : SharedQueue) : Prop where
  length : s.packetQueue.length + s.call.held.length ≤ maxQueueNum - 24
  kept : ∀ p ∈ s.call.taken, p.kept = true
  audio : ∀ p i, s.call = .audioLength p i ∨ s.call = .audioSend p i → p.isVideo = false
  unforced : ¬ s.call.Forced

/-- The step of a call in a queue that fits. -/
inductive Advances (s : SharedQueue) : SharedQueue → Prop where
  | sent {p : PacketRef} (hcall : s.call = .sending p) :
      Advances s { s with packetQueue := s.packetQueue ++ [p], call := .idle, queued := s.queued ++ [p] }
  | done (hcall : s.call = .receiving 0) : Advances s { s with call := .idle }
  | received {p : PacketRef} {packetQueue : List PacketRef} {i : Nat} (hcall : s.call = .receiving (i + 1))
      (hqueue : s.packetQueue = p :: packetQueue) : Advances s { s with packetQueue, call := received p i }
  | audioLength {p : PacketRef} {i : Nat} (hcall : s.call = .audioLength p i) :
      Advances s { s with call := .audioSend p i }
  | audioSend {p : PacketRef} {i : Nat} (hcall : s.call = .audioSend p i) :
      Advances s { s with packetQueue := s.packetQueue ++ [p], call := .receiving i }
  | videoSend {p : PacketRef} {i : Nat} (hcall : s.call = .videoSend p i) :
      Advances s { s with packetQueue := s.packetQueue ++ [p], call := .videoLength i }
  | videoLength {i : Nat} (hcall : s.call = .videoLength i) : Advances s { s with call := .receiving i }

theorem send_of_fits (h : Fits maxQueueNum s) {p : PacketRef} (hheld : s.call.held = [p]) (call : WriteCall) :
    send maxQueueNum s p call = some { s with packetQueue := s.packetQueue ++ [p], call } := by
  have hlen := h.length
  rw [hheld, List.length_singleton] at hlen
  exact if_pos (by omega)

theorem advances_of_advance (h : Fits maxQueueNum s) (hstep : advance maxQueueNum s = some t) : Advances s t := by
  have hlen := h.length
  unfold advance at hstep
  split at hstep
  · cases hstep
  · next p hcall =>
      rw [send_of_fits h (by rw [hcall]; rfl)] at hstep
      cases hstep
      exact .sent hcall
  · next hcall =>
      cases hstep
      exact .done hcall
  · next i hcall =>
      unfold receive at hstep
      split at hstep
      · cases hstep
      · next hqueue =>
          cases hstep
          exact .received hcall hqueue
  · next p i hcall =>
      rw [hcall, WriteCall.held, WriteCall.taken, List.length_singleton] at hlen
      · rw [if_neg (by omega)] at hstep
        cases hstep
        exact .audioLength hcall
      · rintro _ ⟨⟩
  · next p i hcall => exact absurd (hcall ▸ trivial) h.unforced
  · next p i hcall =>
      rw [send_of_fits h (by rw [hcall]; rfl), videoBranch, h.audio p i (Or.inr hcall), if_neg Bool.false_ne_true] at hstep
      cases hstep
      exact .audioSend hcall
  · next p i hcall =>
      rw [send_of_fits h (by rw [hcall]; rfl)] at hstep
      cases hstep
      exact .videoSend hcall
  · next i hcall =>
      rw [if_neg (by omega)] at hstep
      cases hstep
      exact .videoLength hcall
  · next i hcall => exact absurd (hcall ▸ trivial) h.unforced

/-- A call goes on, unless it has to receive from an empty queue. -/
theorem exists_advance (h : Fits maxQueueNum s) (hcall : s.call ≠ .idle)
    (hqueue : s.call.Receives → s.packetQueue ≠ []) : ∃ t, advance maxQueueNum s = some t := by
  unfold advance
  cases hpc : s.call with
  | idle => exact absurd hpc hcall
  | sending p => exact ⟨_, Option.map_eq_some_iff.mpr ⟨_, send_of_fits h (by rw [hpc]; rfl) _, rfl⟩⟩
  | receiving i =>
      cases i with
      | zero => exact ⟨_, rfl⟩
      | succ i =>
          obtain ⟨p, packetQueue, hcons⟩ := List.exists_cons_of_ne_nil (hqueue (by rw [hpc]; exact Nat.succ_pos i))
          exact ⟨_, by simp only [receive, hcons]; rfl⟩
  | audioLength p i => exact ⟨_, rfl⟩
  | audioDiscard p i => exact absurd (by rw [hpc]; trivial) h.unforced
  | audioSend p i => exact ⟨_, send_of_fits h (by rw [hpc]; rfl) _⟩
  | videoSend p i => exact ⟨_, send_of_fits h (by rw [hpc]; rfl) _⟩
  | videoLength i => exact ⟨_, rfl⟩
  | videoDiscard i => exact absurd (by rw [hpc]; trivial) h.unforced

/-- What `DropPacket` does with a packet, by what it is. -/
theorem received_eq (p : PacketRef) (i : Nat) :
    p.kept = true ∧ (received p i = .audioLength p i ∧ p.isVideo = false ∨ received p i = .videoSend p i) ∨
      p.kept = false ∧ (received p i = .videoLength i ∨ received p i = .receiving i) := by
  unfold received videoBranch PacketRef.kept PacketRef.isProtected
  cases haudio : p.isAudio with
  | true => exact Or.inl ⟨rfl, Or.inl ⟨rfl, PacketRef.isVideo_eq_false haudio⟩⟩
  | false =>
      cases p.isVideo with
      | false => exact Or.inr ⟨rfl, Or.inr rfl⟩
      | true =>
          cases p.headerKept with
          | true => exact Or.inl ⟨rfl, Or.inr rfl⟩
          | false => exact Or.inr ⟨rfl, Or.inl rfl⟩

/-- The call has no packet in hand. -/
theorem fits_of_held (hlen : s.packetQueue.length ≤ maxQueueNum - 24) (hheld : s.call.held = [])
    (htaken : s.call.taken = []) (hforced : ¬ s.call.Forced) : Fits maxQueueNum s := by
  refine ⟨by rw [hheld]; exact hlen, fun p hp => ?_, fun p i hcall => ?_, hforced⟩
  · rw [htaken] at hp
    cases hp
  · rcases hcall with hcall | hcall <;> rw [hcall] at htaken <;> cases htaken

/-- The call has a packet in hand that it puts back. -/
theorem fits_of_taken {p : PacketRef} (hlen : s.packetQueue.length + 1 ≤ maxQueueNum - 24) (hheld : s.call.held = [p])
    (htaken : s.call.taken = [p]) (hkept : p.kept = true)
    (haudio : ∀ i, s.call = .audioLength p i ∨ s.call = .audioSend p i → p.isVideo = false)
    (hforced : ¬ s.call.Forced) : Fits maxQueueNum s := by
  refine ⟨by rw [hheld]; exact hlen, fun q hq => ?_, fun q i hcall => ?_, hforced⟩
  · rw [htaken] at hq
    rwa [List.mem_singleton.mp hq]
  · have hq : q ∈ s.call.taken := by rcases hcall with hcall | hcall <;> rw [hcall] <;> exact List.mem_singleton_self q
    rw [htaken] at hq
    cases List.mem_singleton.mp hq
    exact haudio i hcall

theorem Fits.received (h : Fits maxQueueNum s) {p : PacketRef} {packetQueue : List PacketRef} {i : Nat}
    (hcall : s.call = .receiving (i + 1)) (hqueue : s.packetQueue = p :: packetQueue) :
    Fits maxQueueNum { s with packetQueue, call := received p i } := by
  have hlen := h.length
  rw [hcall, hqueue] at hlen
  have hless : packetQueue.length ≤ maxQueueNum - 24 := Nat.le_of_succ_le hlen
  rcases received_eq p i with ⟨hkept, ⟨heq, hvideo⟩ | heq⟩ | ⟨-, heq | heq⟩ <;> rw [heq]
  · exact fits_of_taken hlen rfl rfl hkept (fun _ _ => hvideo) id
  · refine fits_of_taken hlen rfl rfl hkept (fun j hcall => ?_) id
    rcases hcall with hcall | hcall <;> cases hcall
  · exact fits_of_held hless rfl rfl id
  · exact fits_of_held hless rfl rfl id

/-- The packet in hand goes to the end of the queue. -/
theorem Fits.sent (h : Fits maxQueueNum s) {p : PacketRef} (hheld : s.call.held = [p]) {call : WriteCall}
    (hnone : call.held = []) (htaken : call.taken = []) (hforced : ¬ call.Forced) (queued : List PacketRef) :
    Fits maxQueueNum { s with packetQueue := s.packetQueue ++ [p], call, queued } := by
  have hlen := h.length
  rw [hheld] at hlen
  exact fits_of_held (by rw [List.length_append]; exact hlen) hnone htaken hforced

theorem fits_advances (h : Fits maxQueueNum s) (hstep : Advances s t) : Fits maxQueueNum t := by
  have hlen := Nat.le_of_add_right_le h.length
  cases hstep with
  | sent hcall => exact h.sent (by rw [hcall]; rfl) rfl rfl id _
  | done hcall => exact fits_of_held hlen rfl rfl id
  | received hcall hqueue => exact h.received hcall hqueue
  | @audioLength p i hcall =>
      have hlen := h.length
      have hkept := h.kept p (by rw [hcall]; exact List.mem_singleton_self p)
      rw [hcall] at hlen
      exact fits_of_taken hlen rfl rfl hkept (fun _ _ => h.audio p i (Or.inl hcall)) id
  | audioSend hcall => exact h.sent (by rw [hcall]; rfl) rfl rfl id _
  | videoSend hcall => exact h.sent (by rw [hcall]; rfl) rfl rfl id _
  | videoLength hcall => exact fits_of_held hlen rfl rfl id

/-- `Write` is called. -/
theorem Fits.write (h : Fits maxQueueNum s) (p : PacketRef) (next : Nat) :
    Fits maxQueueNum { s with
      call := if s.packetQueue.length ≥ maxQueueNum - 24 then .receiving (maxQueueNum - 84) else .sending p
      next } := by
  split_ifs with hlong
  · exact fits_of_held (Nat.le_of_add_right_le h.length) rfl rfl id
  · refine ⟨Nat.lt_of_not_le hlong, fun q hq => absurd hq List.not_mem_nil, fun q i hcall => ?_, id⟩
    rcases hcall with hcall | hcall <;> cases hcall

theorem Fits.take (h : Fits maxQueueNum s) {p : PacketRef} {packetQueue : List PacketRef}
    (hqueue : s.packetQueue = p :: packetQueue) (sent : List PacketRef) :
    Fits maxQueueNum { s with packetQueue, sent } := by
  have hlen := h.length
  rw [hqueue, List.length_cons] at hlen
  exact ⟨by dsimp only; omega, h.kept, h.audio, h.unforced⟩

/-- What a step does, by its event. -/
inductive Does (maxQueueNum : Nat) (s : SharedQueue) : Event → SharedQueue → Prop where
  | write {p : MediaPacket} (hcall : s.call = .idle) : Does maxQueueNum s (.write p) { s with
      call := if s.packetQueue.length ≥ maxQueueNum - 24 then .receiving (maxQueueNum - 84) else .sending ⟨s.next, p⟩
      next := s.next + 1 }
  | advance {u : SharedQueue} (hadvances : Advances s u) : Does maxQueueNum s .advance u
  | take {p : PacketRef} {packetQueue : List PacketRef} (hqueue : s.packetQueue = p :: packetQueue) :
      Does maxQueueNum s .take { s with packetQueue, sent := s.sent ++ [p] }

theorem does_of_step (h : Fits maxQueueNum s) (hstep : step maxQueueNum s e = some t) : Does maxQueueNum s e t := by
  cases e with
  | write p =>
      unfold step at hstep
      by_cases hcall : s.call = .idle
      · cases (if_pos hcall).symm.trans hstep
        exact .write hcall
      · cases (if_neg hcall).symm.trans hstep
  | advance => exact .advance (advances_of_advance h hstep)
  | take =>
      simp only [step] at hstep
      split at hstep
      · cases hstep
      · next hqueue =>
          cases hstep
          exact .take hqueue

theorem fits_step (h : Fits maxQueueNum s) (hstep : step maxQueueNum s e = some t) : Fits maxQueueNum t := by
  cases does_of_step h hstep with
  | write => exact h.write _ _
  | advance hadvances => exact fits_advances h hadvances
  | take hqueue => exact h.take hqueue _

theorem fits_init : Fits maxQueueNum {} := fits_of_held (Nat.zero_le _) rfl rfl id

/-! ### Nothing is dropped that is to be kept -/

/-- What was put into the queue and is to be kept is where it was, in the queue, in the hands of `DropPacket`, or with
the consumer. -/
def Conserved (s : SharedQueue) : Prop :=
  (s.queued.filter kept).Perm ((s.sent ++ (s.call.taken ++ s.packetQueue)).filter kept)

theorem filter_received (p : PacketRef) (packetQueue : List PacketRef) (i : Nat) :
    ((received p i).taken ++ packetQueue).filter kept = (p :: packetQueue).filter kept := by
  rcases received_eq p i with ⟨-, ⟨heq, -⟩ | heq⟩ | ⟨hkept, heq | heq⟩ <;> rw [heq]
  · rfl
  · rfl
  · rw [List.filter_cons_of_neg (by simp [hkept])]
    rfl
  · rw [List.filter_cons_of_neg (by simp [hkept])]
    rfl

theorem conserved_step (h : Fits maxQueueNum s) (hconserved : Conserved s) (hstep : step maxQueueNum s e = some t) :
    Conserved t := by
  unfold Conserved at hconserved ⊢
  cases does_of_step h hstep with
  | write hcall =>
      rw [hcall] at hconserved
      split_ifs
      · exact hconserved
      · exact hconserved
  | advance hadvances =>
      cases hadvances with
      | sent hcall =>
          rw [hcall] at hconserved
          simpa [WriteCall.taken] using hconserved.append_right _
      | done hcall =>
          rw [hcall] at hconserved
          exact hconserved
      | received hcall hqueue =>
          rw [hcall, hqueue] at hconserved
          rw [List.filter_append, filter_received, ← List.filter_append]
          exact hconserved
      | audioLength hcall =>
          rw [hcall] at hconserved
          exact hconserved
      | audioSend hcall =>
          rw [hcall] at hconserved
          exact hconserved.trans ((List.perm_append_comm.append_left _).filter _)
      | videoSend hcall =>
          rw [hcall] at hconserved
          exact hconserved.trans ((List.perm_append_comm.append_left _).filter _)
      | videoLength hcall =>
          rw [hcall] at hconserved
          exact hconserved
  | @take p packetQueue hqueue =>
      rw [hqueue] at hconserved
      refine hconserved.trans (List.Perm.filter _ ?_)
      rw [List.append_assoc]
      exact List.perm_middle.append_left _

/-- In every interleaving with the consumer the queue stays at or below its threshold, neither `Write` nor `DropPacket`
waits for room, nothing is dropped because the queue is nearly full, and what is to be kept is not dropped. -/
theorem bounded_queue {es : List Event} (hrun : run (step maxQueueNum) es {} = some s) :
    s.packetQueue.length ≤ maxQueueNum - 24 ∧ (s.call.Sends → s.packetQueue.length < maxQueueNum) ∧
      ¬ s.call.Forced ∧ Conserved s := by
  have h : Fits maxQueueNum s ∧ Conserved s :=
    run_keeps (I := fun s => Fits maxQueueNum s ∧ Conserved s)
      (fun _ _ _ h hstep => ⟨fits_step h.1 hstep, conserved_step h.1 h.2 hstep⟩) ⟨fits_init, .nil⟩ hrun
  refine ⟨Nat.le_of_add_right_le h.1.length, fun hsends => ?_, h.1.unforced, h.2⟩
  have hlen := h.1.length
  have hheld : s.call.held.length = 1 := by
    cases hcall : s.call <;> rw [hcall] at hsends <;> first | rfl | exact hsends.elim
  omega

theorem bounded_queue_sample :
    ∃ s, run (step VirWriter.maxQueueNum) [.write QueueWriter.keyFrame, .advance, .take] {} = some s ∧
      s.packetQueue.length ≤ VirWriter.maxQueueNum - 24 ∧
      (s.call.Sends → s.packetQueue.length < VirWriter.maxQueueNum) ∧ ¬ s.call.Forced ∧ Conserved s := by
  have hrun : ∃ s, run (step VirWriter.maxQueueNum) [.write QueueWriter.keyFrame, .advance, .take] {} = some s :=
    ⟨_, rfl⟩
  obtain ⟨s, hrun⟩ := hrun
  exact ⟨s, hrun, bounded_queue hrun⟩

/-! ### Waiting for a packet -/

/-- What `DropPacket` has to work with. -/
def pool (s : SharedQueue) : List PacketRef := s.call.taken ++ s.packetQueue

/-- There are as many packets as `DropPacket` has still to receive, or there is one that it puts back. -/
def Enough (s : SharedQueue) : Prop := s.call.toGo ≤ s.pool.length ∨ ∃ p ∈ s.pool, p.kept = true

/-- `DropPacket` is waiting on an empty queue. -/
def Waits (s : SharedQueue) : Prop := s.call.Receives ∧ s.packetQueue = []

/-- By its own steps alone the one state comes to the other. -/
def Leads (maxQueueNum : Nat) (s t : SharedQueue) : Prop :=
  ∃ n, run (step maxQueueNum) (List.replicate n .advance) s = some t

/-- `Write` returns, also if the consumer takes nothing more. -/
def Returns (maxQueueNum : Nat) (s : SharedQueue) : Prop := ∃ t, Leads maxQueueNum s t ∧ t.call = .idle

/-- While `DropPacket` runs, the consumer takes a packet only if there is enough afterwards. -/
def LeavesEnough (s : SharedQueue) : Event → Prop
  | .take => Enough { s with packetQueue := s.packetQueue.tail }
  | _ => True

theorem Leads.refl (s : SharedQueue) : Leads maxQueueNum s s := ⟨0, rfl⟩

theorem Leads.head {u : SharedQueue} (hstep : advance maxQueueNum s = some u) (h : Leads maxQueueNum u t) :
    Leads maxQueueNum s t := by
  obtain ⟨n, hrun⟩ := h
  exact ⟨n + 1, run_cons.mpr ⟨u, hstep, hrun⟩⟩

theorem Leads.trans {u : SharedQueue} (hsu : Leads maxQueueNum s u) (hut : Leads maxQueueNum u t) :
    Leads maxQueueNum s t := by
  obtain ⟨m, hm⟩ := hsu
  obtain ⟨n, hn⟩ := hut
  refine ⟨m + n, ?_⟩
  rw [List.replicate_add]
  exact run_append.mpr ⟨u, hm, hn⟩

theorem enough_of_toGo (h : s.call.toGo = 0) : Enough s := Or.inl (h ▸ Nat.zero_le _)

/-- The steps of the call neither make enough of too little nor the other way round. -/
theorem enough_advances_iff (h : Fits maxQueueNum s) (hstep : Advances s t) : Enough t ↔ Enough s := by
  cases hstep with
  | sent hcall => exact iff_of_true (enough_of_toGo rfl) (enough_of_toGo (by rw [hcall]; rfl))
  | done hcall => exact iff_of_true (enough_of_toGo rfl) (enough_of_toGo (by rw [hcall]; rfl))
  | @received p packetQueue i hcall hqueue =>
      unfold Enough pool
      rw [hcall, hqueue]
      rcases received_eq p i with ⟨hkept, ⟨heq, -⟩ | heq⟩ | ⟨hkept, heq | heq⟩ <;> rw [heq]
      · exact iff_of_true (Or.inr ⟨p, List.mem_cons_self, hkept⟩) (Or.inr ⟨p, List.mem_cons_self, hkept⟩)
      · exact iff_of_true (Or.inr ⟨p, List.mem_cons_self, hkept⟩) (Or.inr ⟨p, List.mem_cons_self, hkept⟩)
      · simp [WriteCall.taken, WriteCall.toGo, hkept]
      · simp [WriteCall.taken, WriteCall.toGo, hkept]
  | @audioLength p i hcall =>
      unfold Enough pool
      rw [hcall]
      rfl
  | @audioSend p i hcall =>
      have hkept := h.kept p (by rw [hcall]; exact List.mem_singleton_self p)
      refine iff_of_true (Or.inr ⟨p, ?_, hkept⟩) (Or.inr ⟨p, ?_, hkept⟩)
      · exact List.mem_append_right _ (List.mem_append_right _ (List.mem_singleton_self p))
      · exact List.mem_append_left _ (by rw [hcall]; exact List.mem_singleton_self p)
  | @videoSend p i hcall =>
      have hkept := h.kept p (by rw [hcall]; exact List.mem_singleton_self p)
      refine iff_of_true (Or.inr ⟨p, ?_, hkept⟩) (Or.inr ⟨p, ?_, hkept⟩)
      · exact List.mem_append_right _ (List.mem_append_right _ (List.mem_singleton_self p))
      · exact List.mem_append_left _ (by rw [hcall]; exact List.mem_singleton_self p)
  | @videoLength i hcall =>
      unfold Enough pool
      rw [hcall]
      rfl

theorem left_advances (hstep : Advances s t) : t.call.left < s.call.left := by
  cases hstep with
  | @received p packetQueue i hcall hqueue =>
      rw [hcall]
      rcases received_eq p i with ⟨-, ⟨heq, -⟩ | heq⟩ | ⟨-, heq | heq⟩ <;> simp only [heq, WriteCall.left] <;> omega
  | sent hcall => simp [hcall, WriteCall.left]
  | done hcall => simp [hcall, WriteCall.left]
  | audioLength hcall => simp [hcall, WriteCall.left]
  | audioSend hcall => simp only [hcall, WriteCall.left]; omega
  | videoSend hcall => simp [hcall, WriteCall.left]
  | videoLength hcall => simp [hcall, WriteCall.left]

theorem not_waits_of_enough (h : Fits maxQueueNum s) (henough : Enough s) : ¬ Waits s := by
  rintro ⟨hreceives, hempty⟩
  have hforced := h.unforced
  unfold Enough pool at henough
  rw [hempty] at henough
  cases hcall : s.call with
  | receiving i =>
      rw [hcall] at hreceives henough
      rcases henough with henough | ⟨p, hp, -⟩
      · exact absurd hreceives (Nat.not_lt_of_le henough)
      · cases hp
  | audioDiscard p i => exact hforced (by rw [hcall]; trivial)
  | videoDiscard i => exact hforced (by rw [hcall]; trivial)
  | _ =>
      rw [hcall] at hreceives
      exact hreceives

theorem returns_of_enough (h : Fits maxQueueNum s) (henough : Enough s) : Returns maxQueueNum s := by
  induction hleft : s.call.left using Nat.strongRecOn generalizing s with
  | ind n ih =>
      by_cases hidle : s.call = .idle
      · exact ⟨s, Leads.refl s, hidle⟩
      · obtain ⟨u, hstep⟩ := exists_advance h hidle fun hreceives hempty =>
          not_waits_of_enough h henough ⟨hreceives, hempty⟩
        have hadvances := advances_of_advance h hstep
        obtain ⟨t, hleads, hdone⟩ := ih _ (hleft ▸ left_advances hadvances) (fits_advances h hadvances)
          ((enough_advances_iff h hadvances).mpr henough) rfl
        exact ⟨t, Leads.head hstep hleads, hdone⟩

theorem enough_of_returns (h : Fits maxQueueNum s) (hreturns : Returns maxQueueNum s) : Enough s := by
  obtain ⟨t, ⟨n, hrun⟩, hdone⟩ := hreturns
  induction n generalizing s with
  | zero =>
      cases hrun
      exact enough_of_toGo (by rw [hdone]; rfl)
  | succ n ih =>
      obtain ⟨u, hstep, hrun⟩ := run_cons.mp hrun
      have hadvances := advances_of_advance h hstep
      exact (enough_advances_iff h hadvances).mp (ih (fits_advances h hadvances) hrun)

theorem enough_step (h : Fits maxQueueNum s) (henough : Enough s) (hleaves : LeavesEnough s e)
    (hstep : step maxQueueNum s e = some t) : Enough t := by
  cases does_of_step h hstep with
  | write hcall =>
      split_ifs with hlong
      · exact Or.inl (by change maxQueueNum - 84 ≤ s.packetQueue.length; omega)
      · exact enough_of_toGo rfl
  | advance hadvances => exact (enough_advances_iff h hadvances).mpr henough
  | take hqueue =>
      unfold LeavesEnough at hleaves
      rw [hqueue] at hleaves
      exact hleaves

/-- In a run with the consumer `DropPacket` never waits on an empty queue, and `Write` returns from where it is, if and
only if no packet that the consumer takes leaves `DropPacket` with fewer packets than it has still to receive and none
among them that it puts back. -/
theorem never_waits_iff {es : List Event} (hrun : run (step maxQueueNum) es {} = some s) :
    Along (step maxQueueNum)
        (fun s e => ∀ t, step maxQueueNum s e = some t → ¬ Waits t ∧ Returns maxQueueNum t) es {} ↔
      Along (step maxQueueNum) LeavesEnough es {} := by
  refine along_iff (I := fun s => Fits maxQueueNum s ∧ Enough s) (E := fun _ => True) (fun s e t hI _ hstep => ?_)
    (fun s e t hI _ hleaves hstep => ?_) ?_ (fun _ _ => trivial) hrun
  · constructor
    · intro hgood
      have henough := enough_of_returns (fits_step hI.1 hstep) (hgood t hstep).2
      cases does_of_step hI.1 hstep with
      | take hqueue =>
          unfold LeavesEnough
          rw [hqueue]
          exact henough
      | _ => trivial
    · intro hleaves u hu
      have hfits := fits_step hI.1 hu
      have henough := enough_step hI.1 hI.2 hleaves hu
      exact ⟨not_waits_of_enough hfits henough, returns_of_enough hfits henough⟩
  · exact ⟨fits_step hI.1 hstep, enough_step hI.1 hI.2 hleaves hstep⟩
  · exact ⟨fits_init, enough_of_toGo rfl⟩

theorem never_waits_iff_sample :
    ∃ s, run (step VirWriter.maxQueueNum) [.write QueueWriter.keyFrame, .advance, .take] {} = some s ∧
      (Along (step VirWriter.maxQueueNum)
          (fun s e => ∀ t, step VirWriter.maxQueueNum s e = some t → ¬ Waits t ∧ Returns VirWriter.maxQueueNum t)
          [.write QueueWriter.keyFrame, .advance, .take] {} ↔
        Along (step VirWriter.maxQueueNum) LeavesEnough [.write QueueWriter.keyFrame, .advance, .take] {}) := by
  have hrun : ∃ s, run (step VirWriter.maxQueueNum) [.write QueueWriter.keyFrame, .advance, .take] {} = some s :=
    ⟨_, rfl⟩
  obtain ⟨s, hrun⟩ := hrun
  exact ⟨s, hrun, never_waits_iff hrun⟩

/-! ### Without the consumer -/

theorem leads_receive {call : PacketRef → WriteCall} {q : List PacketRef}
    (hcall : advance maxQueueNum s = receive s call) (hdiscard : PacketQueue.discard s.packetQueue = some q) :
    ∃ p, Leads maxQueueNum s { s with packetQueue := q, call := call p } := by
  unfold PacketQueue.discard at hdiscard
  split at hdiscard
  · cases hdiscard
  · next p q' hqueue =>
      cases hdiscard
      refine ⟨p, Leads.head (hcall.trans ?_) (Leads.refl _)⟩
      simp only [receive, hqueue]

theorem leads_send {p : PacketRef} {call : WriteCall} {q : List PacketRef}
    (hcall : advance maxQueueNum s = send maxQueueNum s p call)
    (hsend : PacketQueue.send maxQueueNum p s.packetQueue = some q) :
    Leads maxQueueNum s { s with packetQueue := q, call } := by
  unfold PacketQueue.send at hsend
  split_ifs at hsend with hlen
  cases hsend
  exact Leads.head (hcall.trans (if_pos hlen)) (Leads.refl _)

/-- The branch for video. -/
theorem leads_videoBranch {p : PacketRef} {i : Nat} {q : List PacketRef} (hcall : s.call = videoBranch p i)
    (hback : PacketQueue.putBackVideo maxQueueNum p s.packetQueue = some q) :
    Leads maxQueueNum s { s with packetQueue := q, call := .receiving i } := by
  have hlength : ∀ {u : SharedQueue}, u.call = .videoLength i →
      (if u.packetQueue.length > maxQueueNum - 10 then PacketQueue.discard u.packetQueue else some u.packetQueue) =
        some q → Leads maxQueueNum u { u with packetQueue := q, call := .receiving i } := by
    intro u hu hq
    have hstep : advance maxQueueNum u = some { u with
        call := if u.packetQueue.length > maxQueueNum - 10 then .videoDiscard i else .receiving i } := by
      simp only [advance, hu]
    apply Leads.head hstep
    split_ifs at hq ⊢ with hlong
    · have hreceive : advance maxQueueNum { u with call := .videoDiscard i } =
          receive { u with call := .videoDiscard i } fun _ => .receiving i := rfl
      obtain ⟨-, hleads⟩ := leads_receive hreceive hq
      exact hleads
    · cases hq
      exact Leads.refl _
  unfold PacketQueue.putBackVideo at hback
  unfold videoBranch at hcall
  cases hvideo : p.isVideo with
  | false =>
      rw [hvideo, if_neg Bool.false_ne_true] at hback hcall
      cases hback
      exact ⟨0, by rw [← hcall]; rfl⟩
  | true =>
      rw [hvideo, if_pos rfl] at hback hcall
      obtain ⟨q', hsend, hq⟩ := Option.bind_eq_some_iff.mp hback
      cases hheader : p.headerKept with
      | false =>
          rw [hheader, if_neg Bool.false_ne_true] at hsend hcall
          cases hsend
          exact hlength hcall hq
      | true =>
          rw [hheader, if_pos rfl] at hsend hcall
          have hstep : advance maxQueueNum s = send maxQueueNum s p (.videoLength i) := by simp only [advance, hcall]
          have hleads := leads_send hstep hsend
          exact hleads.trans (hlength (u := { s with packetQueue := q', call := .videoLength i }) rfl hq)

/-- The branch for audio, and the one for video after it. -/
theorem leads_received {p : PacketRef} {i : Nat} {q : List PacketRef} (hcall : s.call = received p i)
    (hback : ((PacketQueue.putBackAudio maxQueueNum p s.packetQueue).bind fun q =>
      PacketQueue.putBackVideo maxQueueNum p q) = some q) :
    Leads maxQueueNum s { s with packetQueue := q, call := .receiving i } := by
  obtain ⟨q', haudio, hvideo⟩ := Option.bind_eq_some_iff.mp hback
  unfold PacketQueue.putBackAudio at haudio
  unfold received at hcall
  split_ifs at haudio hcall with hisAudio hlong
  · have hstep : advance maxQueueNum s = some { s with call := .audioDiscard p i } := by
      simp only [advance, hcall, if_pos hlong]
    have hreceive : advance maxQueueNum { s with call := .audioDiscard p i } =
        receive { s with call := .audioDiscard p i } fun _ => videoBranch p i := rfl
    obtain ⟨-, hleads⟩ := leads_receive hreceive haudio
    exact Leads.head hstep (hleads.trans
      (leads_videoBranch (s := { s with packetQueue := q', call := videoBranch p i }) rfl hvideo))
  · have hstep : advance maxQueueNum s = some { s with call := .audioSend p i } := by
      simp only [advance, hcall, if_neg hlong]
    have hsend : advance maxQueueNum { s with call := .audioSend p i } =
        send maxQueueNum { s with call := .audioSend p i } p (videoBranch p i) := rfl
    have hleads := leads_send hsend haudio
    exact Leads.head hstep (hleads.trans
      (leads_videoBranch (s := { s with packetQueue := q', call := videoBranch p i }) rfl hvideo))
  · cases haudio
    exact leads_videoBranch hcall hvideo

theorem leads_dropLoop {i : Nat} {q : List PacketRef} (hcall : s.call = .receiving i)
    (hloop : PacketQueue.dropLoop maxQueueNum i s.packetQueue = some q) :
    Leads maxQueueNum s { s with packetQueue := q, call := .idle } := by
  induction i generalizing s with
  | zero =>
      cases hloop
      exact Leads.head (by simp only [advance, hcall]) (Leads.refl _)
  | succ i ih =>
      cases hqueue : s.packetQueue with
      | nil =>
          rw [hqueue] at hloop
          cases hloop
      | cons p rest =>
          rw [hqueue] at hloop
          have hsplit : ((PacketQueue.putBackAudio maxQueueNum p rest).bind fun q =>
              PacketQueue.putBackVideo maxQueueNum p q).bind (PacketQueue.dropLoop maxQueueNum i) = some q := by
            rw [Option.bind_assoc]
            exact hloop
          obtain ⟨q', hback, hrest⟩ := Option.bind_eq_some_iff.mp hsplit
          have hstep : advance maxQueueNum s = some { s with packetQueue := rest, call := received p i } := by
            simp only [advance, hcall, receive, hqueue]
          apply Leads.head hstep
          apply (leads_received (s := { s with packetQueue := rest, call := received p i }) rfl hback).trans
          exact ih (s := { s with packetQueue := q', call := .receiving i }) rfl hrest

/-- A call of `Write` by itself does what `PacketQueue.write` says. -/
theorem run_write {p : MediaPacket} {q : List PacketRef} (hcall : s.call = .idle)
    (hwrite : PacketQueue.write maxQueueNum ⟨s.next, p⟩ s.packetQueue = some q) :
    ∃ n queued, run (step maxQueueNum) (.write p :: List.replicate n .advance) s =
      some { s with packetQueue := q, next := s.next + 1, queued } := by
  have hstep : step maxQueueNum s (.write p) = some { s with
      call := if s.packetQueue.length ≥ maxQueueNum - 24 then .receiving (maxQueueNum - 84) else .sending ⟨s.next, p⟩
      next := s.next + 1 } := if_pos hcall
  have hidle : ∀ queued, { s with packetQueue := q, call := .idle, next := s.next + 1, queued } =
      { s with packetQueue := q, next := s.next + 1, queued } := by
    intro queued
    rw [← hcall]
  unfold PacketQueue.write at hwrite
  split_ifs at hwrite hstep with hlong
  · obtain ⟨n, hrun⟩ := leads_dropLoop
      (s := { s with call := .receiving (maxQueueNum - 84), next := s.next + 1 }) rfl hwrite
    exact ⟨n, s.queued, run_cons.mpr ⟨_, hstep, hrun.trans (congrArg some (hidle _))⟩⟩
  · unfold PacketQueue.send at hwrite
    split_ifs at hwrite with hlen
    cases hwrite
    refine ⟨1, s.queued ++ [⟨s.next, p⟩], run_cons.mpr ⟨_, hstep, run_cons.mpr ⟨_, ?_, rfl⟩⟩⟩
    rw [← hidle]
    simp [step, advance, send, hlen]

/-- Whatever happens to a queue when calls of `Write` are not interrupted happens in a run of single steps. -/
theorem run_of_atomic {es : List QueueWriter.Event} {w : QueueWriter}
    (hrun : run (QueueWriter.step maxQueueNum) es {} = some w) :
    ∃ fs s, run (step maxQueueNum) fs {} = some s ∧ s.call = .idle ∧ s.packetQueue = w.packetQueue ∧ s.sent = w.sent ∧
      s.next = w.written.length := by
  induction es using List.reverseRecOn generalizing w with
  | nil =>
      cases hrun
      exact ⟨[], {}, rfl, rfl, rfl, rfl, rfl⟩
  | append_singleton es e ih =>
      obtain ⟨v, hv, hlast⟩ := run_append.mp hrun
      obtain ⟨_, hstep, hnil⟩ := run_cons.mp hlast
      cases hnil
      obtain ⟨fs, s, hs, hcall, hqueue, hsent, hnext⟩ := ih hv
      cases e with
      | write p =>
          obtain ⟨q, hwrite, rfl⟩ := Option.map_eq_some_iff.mp hstep
          rw [← hnext, ← hqueue] at hwrite
          obtain ⟨n, queued, hcalls⟩ := run_write hcall hwrite
          exact ⟨_, { s with packetQueue := q, next := s.next + 1, queued }, run_append.mpr ⟨s, hs, hcalls⟩, hcall, rfl,
            hsent, by simp [hnext]⟩
      | receive =>
          simp only [QueueWriter.step] at hstep
          split at hstep
          · cases hstep
          · next p q hw =>
              cases hstep
              have htake : step maxQueueNum s .take = some { s with packetQueue := q, sent := s.sent ++ [p] } := by
                simp only [step, hqueue, hw]
              exact ⟨fs ++ [.take], { s with packetQueue := q, sent := s.sent ++ [p] },
                run_append.mpr ⟨s, hs, run_cons.mpr ⟨_, htake, rfl⟩⟩, hcall, rfl, by rw [hsent], hnext⟩

open QueueWriter (keyFrame interFrame congestion length_congestion numbered length_numbered)

theorem run_takes {n : Nat} (hlen : n ≤ s.packetQueue.length) : run (step maxQueueNum) (List.replicate n .take) s =
    some { s with packetQueue := s.packetQueue.drop n, sent := s.sent ++ s.packetQueue.take n } := by
  induction n generalizing s with
  | zero => simp
  | succ n ih =>
      obtain ⟨p, packetQueue, hqueue⟩ := List.exists_cons_of_length_pos (Nat.lt_of_lt_of_le n.succ_pos hlen)
      rw [hqueue, List.length_cons] at hlen
      have hstep : step maxQueueNum s .take = some { s with packetQueue, sent := s.sent ++ [p] } := by
        simp only [step, hqueue]
      refine run_cons.mpr ⟨_, hstep, ?_⟩
      rw [ih (Nat.le_of_succ_le_succ hlen), hqueue]
      simp

/-- `DropPacket` is called for a queue of inter frames, which the consumer empties before the first receive. -/
theorem drop_waits : ∃ es s, run (step VirWriter.maxQueueNum) es {} = some s ∧ Waits s := by
  have hlen := length_congestion interFrame
  obtain ⟨fs, s, hrun, hcall, hqueue, -, -⟩ := run_of_atomic (QueueWriter.run_writes (Nat.le_of_eq hlen))
  have hlong : s.packetQueue.length = VirWriter.maxQueueNum - 24 := by rw [hqueue, length_numbered, hlen]
  have hwrite : step VirWriter.maxQueueNum s (.write interFrame) = some { s with
      call := .receiving (VirWriter.maxQueueNum - 84), next := s.next + 1 } := by
    simp only [step, hcall, if_true, if_pos (Nat.le_of_eq hlong.symm)]
  refine ⟨_, _, run_append.mpr ⟨s, hrun, run_cons.mpr ⟨_, hwrite, run_takes (Nat.le_refl _)⟩⟩, ?_, List.drop_length⟩
  show 0 < VirWriter.maxQueueNum - 84
  decide

end SharedQueue

end Livego
