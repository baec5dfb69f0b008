import Livego.Machine
import Livego.RtmpRelayReceive

/-! A relay that has been started: the goroutine that receives from the source, the channel, the goroutine that sends on, and
those who stop it. -/

namespace Livego

open Fallible Machine

namespace RunningRelay

/-- What `rcvPlayChunkStream` is at: its question for the flag, `Read`, or the send to the channel. -/
inductive Receiving where
  | asking
  | reading
  | passing (rc : ChunkStream)
  | returned
  deriving DecidableEq

/-- What `sendPublishChunkStream` is at: the `select`, or the connection's `Write`. -/
inductive Sending where
  | selecting
  | writing (rc : ChunkStream)
  | returned
  deriving DecidableEq

end RunningRelay

/-- The relay with the messages that have been read and those that have been written. Of the calls of `Stop`, `clearing` have
found the flag set, `stopping` are at their send, and `stopped` have come through. -/
structure RunningRelay where
  startflag : Bool := true
  csChan : List ChunkStream := []
  receiving : RunningRelay.Receiving := .asking
  sending : RunningRelay.Sending := .selecting
  clearing : Nat := 0
  stopping : Nat := 0
  stopped : Nat := 0
  received : List ChunkStream := []
  wire : List ChunkStream := []
  deriving DecidableEq

namespace RunningRelay

def csChanCap : Nat := 500

/-- The cases of the `switch` that send to the channel. -/
def isRelayed (rc : ChunkStream) : Bool := rc.typeID = 18 || rc.typeID = 8 || rc.typeID = 9

inductive Event where
  /-- The question for the flag. -/
  | ask
  /-- `Read` returns nil, or an error other than `io.EOF` with nothing in `rc`. -/
  | read (rc : ChunkStream)
  | readEOF
  /-- The message gets its place in the channel. -/
  | pass
  | receive
  | write
  /-- `Stop` finds the flag set. -/
  | stop
  | clearFlag
  /-- The sender receives what a call of `Stop` sends. -/
  | ctrl
  deriving DecidableEq

def step (s : RunningRelay) : Event → Option RunningRelay
  | .ask =>
    if s.receiving = .asking then some { s with receiving := if s.startflag then .reading else .returned } else none
  | .read rc =>
    if s.receiving = .reading then
      some { s with receiving := if isRelayed rc then .passing rc else .asking, received := s.received ++ [rc] }
    else none
  | .readEOF => if s.receiving = .reading then some { s with receiving := .returned } else none
  | .pass =>
    match s.receiving with
    | .passing rc =>
      if s.csChan.length < csChanCap then some { s with csChan := s.csChan ++ [rc], receiving := .asking } else none
    | _ => none
  | .receive =>
    match s.sending, s.csChan with
    | .selecting, rc :: csChan => some { s with csChan, sending := .writing rc }
    | _, _ => none
  | .write =>
    match s.sending with
    | .writing rc => some { s with sending := .selecting, wire := s.wire ++ [rc] }
    | _ => none
  | .stop => some (if s.startflag then { s with clearing := s.clearing + 1 } else s)
  | .clearFlag =>
    if 0 < s.clearing then
      some { s with startflag := false, clearing := s.clearing - 1, stopping := s.stopping + 1 }
    else none
  | .ctrl =>
    if 0 < s.stopping ∧ s.sending = .selecting then
      some { s with sending := .returned, stopping := s.stopping - 1, stopped := s.stopped + 1 }
    else none

/-- What a step does, by its event. -/
inductive Does (s : RunningRelay) : Event → RunningRelay → Prop where
  | asks (hasking : s.receiving = .asking) (hflag : s.startflag = true) : Does s .ask { s with receiving := .reading }
  | leaves (hasking : s.receiving = .asking) (hflag : s.startflag = false) :
      Does s .ask { s with receiving := .returned }
  | reads {rc : ChunkStream} (hreading : s.receiving = .reading) (hrelayed : isRelayed rc = true) :
      Does s (.read rc) { s with receiving := .passing rc, received := s.received ++ [rc] }
  | ignores {rc : ChunkStream} (hreading : s.receiving = .reading) (hrelayed : isRelayed rc = false) :
      Does s (.read rc) { s with receiving := .asking, received := s.received ++ [rc] }
  | ends (hreading : s.receiving = .reading) : Does s .readEOF { s with receiving := .returned }
  | passes {rc : ChunkStream} (hpassing : s.receiving = .passing rc) (hroom : s.csChan.length < csChanCap) :
      Does s .pass { s with csChan := s.csChan ++ [rc], receiving := .asking }
  | receives {rc : ChunkStream} {csChan : List ChunkStream} (hselecting : s.sending = .selecting)
      (hchan : s.csChan = rc :: csChan) : Does s .receive { s with csChan, sending := .writing rc }
  | writes {rc : ChunkStream} (hwriting : s.sending = .writing rc) :
      Does s .write { s with sending := .selecting, wire := s.wire ++ [rc] }
  | finds (hflag : s.startflag = true) : Does s .stop { s with clearing := s.clearing + 1 }
  | misses (hflag : s.startflag = false) : Does s .stop s
  | clears (hclearing : 0 < s.clearing) :
      Does s .clearFlag { s with startflag := false, clearing := s.clearing - 1, stopping := s.stopping + 1 }
  | ctrls (hstopping : 0 < s.stopping) (hselecting : s.sending = .selecting) :
      Does s .ctrl { s with sending := .returned, stopping := s.stopping - 1, stopped := s.stopped + 1 }

variable {s t : RunningRelay} {e : Event}

theorem does_of_step (h : step s e = some t) : Does s e t := by
  cases e with
  | ask =>
      simp only [step, Option.ite_none_right_eq_some, Option.some.injEq] at h
      obtain ⟨hasking, rfl⟩ := h
      by_cases hflag : s.startflag = true
      · rw [if_pos hflag]
        exact .asks hasking hflag
      · rw [if_neg hflag]
        exact .leaves hasking (by simpa using hflag)
  | read rc =>
      simp only [step, Option.ite_none_right_eq_some, Option.some.injEq] at h
      obtain ⟨hreading, rfl⟩ := h
      by_cases hrelayed : isRelayed rc = true
      · rw [if_pos hrelayed]
        exact .reads hreading hrelayed
      · rw [if_neg hrelayed]
        exact .ignores hreading (by simpa using hrelayed)
  | readEOF =>
      simp only [step, Option.ite_none_right_eq_some, Option.some.injEq] at h
      obtain ⟨hreading, rfl⟩ := h
      exact .ends hreading
  | pass =>
      simp only [step] at h
      split at h
      · next hpassing =>
          simp only [Option.ite_none_right_eq_some, Option.some.injEq] at h
          obtain ⟨hroom, rfl⟩ := h
          exact .passes hpassing hroom
      · cases h
  | receive =>
      simp only [step] at h
      split at h
      · next hselecting hchan =>
          cases h
          exact .receives hselecting hchan
      · cases h
  | write =>
      simp only [step] at h
      split at h
      · next hwriting =>
          cases h
          exact .writes hwriting
      · cases h
  | stop =>
      simp only [step, Option.some.injEq] at h
      subst h
      by_cases hflag : s.startflag = true
      · rw [if_pos hflag]
        exact .finds hflag
      · rw [if_neg hflag]
        exact .misses (by simpa using hflag)
  | clearFlag =>
      simp only [step, Option.ite_none_right_eq_some, Option.some.injEq] at h
      obtain ⟨hclearing, rfl⟩ := h
      exact .clears hclearing
  | ctrl =>
      simp only [step, Option.ite_none_right_eq_some, Option.some.injEq] at h
      obtain ⟨⟨hstopping, hselecting⟩, rfl⟩ := h
      exact .ctrls hstopping hselecting

/-- The message that the receiver is about to send. -/
def atSend (s : RunningRelay) : List ChunkStream :=
  match s.receiving with
  | .passing rc => [rc]
  | _ => []

/-- The message that the sender has taken. -/
def atWrite (s : RunningRelay) : List ChunkStream :=
  match s.sending with
  | .writing rc => [rc]
  | _ => []

/-- What is read and relayed is written, or still on its way: nothing is lost, doubled or out of its order. -/
structure Forwards (s : RunningRelay) : Prop where
  order : s.wire ++ s.atWrite ++ s.csChan ++ s.atSend = s.received.filter isRelayed
  room : s.csChan.length ≤ csChanCap

theorem forwards_default : Forwards {} := ⟨rfl, Nat.zero_le _⟩

theorem forwards_step (h : Forwards s) (hstep : step s e = some t) : Forwards t := by
  obtain ⟨horder, hroom⟩ := h
  cases does_of_step hstep with
  | asks hasking hflag =>
      rw [atSend, hasking] at horder
      exact ⟨horder, hroom⟩
  | leaves hasking hflag =>
      rw [atSend, hasking] at horder
      exact ⟨horder, hroom⟩
  | reads hreading hrelayed =>
      rw [atSend, hreading, List.append_nil] at horder
      refine ⟨?_, hroom⟩
      rw [List.filter_append, ← horder, List.filter_cons_of_pos hrelayed]
      rfl
  | ignores hreading hrelayed =>
      rw [atSend, hreading] at horder
      refine ⟨?_, hroom⟩
      rw [List.filter_append, List.filter_cons_of_neg (by simp [hrelayed]), List.filter_nil, List.append_nil]
      exact horder
  | ends hreading =>
      rw [atSend, hreading] at horder
      exact ⟨horder, hroom⟩
  | passes hpassing hlt =>
      rw [atSend, hpassing] at horder
      refine ⟨?_, by rw [List.length_append]; exact hlt⟩
      rw [← horder]
      simp [atSend, atWrite]
  | receives hselecting hchan =>
      rw [atWrite, hselecting, hchan] at horder
      rw [hchan] at hroom
      refine ⟨?_, Nat.le_of_succ_le hroom⟩
      rw [← horder]
      simp [atSend, atWrite]
  | writes hwriting =>
      rw [atWrite, hwriting] at horder
      refine ⟨?_, hroom⟩
      rw [← horder]
      simp [atSend, atWrite]
  | finds hflag => exact ⟨horder, hroom⟩
  | misses hflag => exact ⟨horder, hroom⟩
  | clears hclearing => exact ⟨horder, hroom⟩
  | ctrls hstopping hselecting =>
      rw [atWrite, hselecting] at horder
      exact ⟨horder, hroom⟩

/-! ### Stopping -/

/-- The calls of `Stop` that have found the flag set are those of which one ends the sender. -/
structure Stopping (s : RunningRelay) : Prop where
  flag : s.startflag = false ↔ 0 < s.stopping + s.stopped
  once : s.stopped = 0 ∧ s.sending ≠ .returned ∨ s.stopped = 1 ∧ s.sending = .returned

theorem stopping_default : Stopping {} := ⟨by decide, Or.inl ⟨rfl, nofun⟩⟩

theorem stopping_step (h : Stopping s) (hstep : step s e = some t) : Stopping t := by
  obtain ⟨hflag, honce⟩ := h
  cases does_of_step hstep with
  | receives hselecting hchan =>
      refine ⟨hflag, Or.inl ⟨?_, nofun⟩⟩
      obtain ⟨hzero, -⟩ | ⟨-, hreturned⟩ := honce
      · exact hzero
      · rw [hselecting] at hreturned
        cases hreturned
  | writes hwriting =>
      refine ⟨hflag, Or.inl ⟨?_, nofun⟩⟩
      obtain ⟨hzero, -⟩ | ⟨-, hreturned⟩ := honce
      · exact hzero
      · rw [hwriting] at hreturned
        cases hreturned
  | clears hclearing => exact ⟨by simp, honce⟩
  | ctrls hstopping hselecting =>
      obtain ⟨hzero, -⟩ | ⟨-, hreturned⟩ := honce
      · refine ⟨?_, Or.inr ⟨by simp [hzero], rfl⟩⟩
        dsimp only
        rw [hflag]
        omega
      · rw [hselecting] at hreturned
        cases hreturned
  | _ => exact ⟨hflag, honce⟩

/-- The receiver is at its send, there is no room, and nobody makes any. -/
structure Blocked (s : RunningRelay) : Prop where
  passing : ∃ rc, s.receiving = .passing rc
  full : ¬s.csChan.length < csChanCap
  returned : s.sending = .returned

theorem blocked_step (h : Blocked s) (hstep : step s e = some t) : Blocked t ∧ t.receiving = s.receiving := by
  obtain ⟨⟨rc, hpassing⟩, hfull, hreturned⟩ := h
  cases does_of_step hstep with
  | asks hasking hflag =>
      rw [hpassing] at hasking
      cases hasking
  | leaves hasking hflag =>
      rw [hpassing] at hasking
      cases hasking
  | reads hreading hrelayed =>
      rw [hpassing] at hreading
      cases hreading
  | ignores hreading hrelayed =>
      rw [hpassing] at hreading
      cases hreading
  | ends hreading =>
      rw [hpassing] at hreading
      cases hreading
  | passes _ hroom => exact absurd hroom hfull
  | receives hselecting hchan =>
      rw [hreturned] at hselecting
      cases hselecting
  | writes hwriting =>
      rw [hreturned] at hwriting
      cases hwriting
  | finds hflag => exact ⟨⟨⟨rc, hpassing⟩, hfull, hreturned⟩, rfl⟩
  | misses hflag => exact ⟨⟨⟨rc, hpassing⟩, hfull, hreturned⟩, rfl⟩
  | clears hclearing => exact ⟨⟨⟨rc, hpassing⟩, hfull, hreturned⟩, rfl⟩
  | ctrls hstopping hselecting =>
      rw [hreturned] at hselecting
      cases hselecting

theorem blocked_run {es : List Event} (h : Blocked s) (hrun : run step es s = some t) : t.receiving = s.receiving := by
  have hkeeps : Blocked t ∧ t.receiving = s.receiving :=
    run_keeps (I := fun u => Blocked u ∧ u.receiving = s.receiving)
      (fun u e v hu hstep => ⟨(blocked_step hu.1 hstep).1, (blocked_step hu.1 hstep).2.trans hu.2⟩) ⟨h, rfl⟩ hrun
  exact hkeeps.2

/-- Once the flag is cleared, the receiver that is not blocked comes to its end. -/
theorem returns_of_not_blocked (hflag : s.startflag = false) (hreturned : s.sending = .returned) (h : ¬Blocked s) :
    ∃ es t, run step es s = some t ∧ t.receiving = .returned := by
  have hask : ∀ {u : RunningRelay}, u.receiving = .asking → u.startflag = false →
      run step [.ask] u = some { u with receiving := .returned } := by
    intro u hasking hflag
    refine run_cons.mpr ⟨_, ?_, rfl⟩
    rw [step, if_pos hasking, hflag]
    rfl
  cases hreceiving : s.receiving with
  | asking => exact ⟨[.ask], _, hask hreceiving hflag, rfl⟩
  | reading => exact ⟨[.readEOF], _, run_cons.mpr ⟨_, if_pos hreceiving, rfl⟩, rfl⟩
  | passing rc =>
      have hroom : s.csChan.length < csChanCap := by
        by_contra hfull
        exact h ⟨⟨rc, hreceiving⟩, hfull, hreturned⟩
      have hpass : step s .pass = some { s with csChan := s.csChan ++ [rc], receiving := .asking } := by
        simp only [step, hreceiving, if_pos hroom]
      exact ⟨[.pass, .ask], _, run_cons.mpr ⟨_, hpass, hask rfl hflag⟩, rfl⟩
  | returned => exact ⟨[], s, rfl, hreceiving⟩

/-- The messages that have been read, and the one that is about to be. -/
def readAtMost (s : RunningRelay) : Nat := s.received.length + if s.receiving = .reading then 1 else 0

theorem readAtMost_step (hflag : s.startflag = false) (hstep : step s e = some t) :
    t.startflag = false ∧ readAtMost t ≤ readAtMost s := by
  cases does_of_step hstep with
  | asks _ hset =>
      rw [hflag] at hset
      cases hset
  | leaves hasking _ => exact ⟨hflag, by simp [readAtMost, hasking]⟩
  | reads hreading _ => exact ⟨hflag, by simp [readAtMost, hreading]⟩
  | ignores hreading _ => exact ⟨hflag, by simp [readAtMost, hreading]⟩
  | ends hreading => exact ⟨hflag, by simp [readAtMost, hreading]⟩
  | passes hpassing _ => exact ⟨hflag, by simp [readAtMost, hpassing]⟩
  | clears _ => exact ⟨rfl, le_refl _⟩
  | _ => exact ⟨hflag, le_refl _⟩

/-! ### What the goroutines do by themselves -/

/-- The steps that wait neither for the source nor for a call of `Stop`. -/
def Event.Own (e : Event) : Prop := e = .pass ∨ e = .receive ∨ e = .write

def work (s : RunningRelay) : Nat := 3 * s.atSend.length + 2 * s.csChan.length + s.atWrite.length

/-- While the sender is there, a message that is on its way comes further, or there is none. -/
theorem advances (hsender : s.sending ≠ .returned) :
    (∃ e t, e.Own ∧ step s e = some t ∧ t.received = s.received ∧ t.sending ≠ .returned ∧ work t < work s) ∨
      s.atWrite = [] ∧ s.csChan = [] ∧ s.atSend = [] := by
  cases hsending : s.sending with
  | returned => exact absurd hsending hsender
  | writing rc =>
      have hstep : step s .write = some { s with sending := .selecting, wire := s.wire ++ [rc] } := by
        simp only [step, hsending]
      refine Or.inl ⟨_, _, Or.inr (Or.inr rfl), hstep, rfl, nofun, ?_⟩
      simp [work, atSend, atWrite, hsending]
  | selecting =>
      cases hchan : s.csChan with
      | cons rc csChan =>
          have hstep : step s .receive = some { s with csChan, sending := .writing rc } := by
            simp only [step, hsending, hchan]
          refine Or.inl ⟨_, _, Or.inr (Or.inl rfl), hstep, rfl, nofun, ?_⟩
          simp only [work, atSend, atWrite, hsending, hchan, List.length_cons, List.length_nil]
          omega
      | nil =>
          cases hreceiving : s.receiving with
          | passing rc =>
              have hstep : step s .pass = some { s with csChan := [rc], receiving := .asking } := by
                simp [step, hreceiving, hchan, csChanCap]
              refine Or.inl ⟨_, _, Or.inl rfl, hstep, rfl, hsender, ?_⟩
              simp [work, atSend, atWrite, hsending, hchan, hreceiving]
          | _ => exact Or.inr ⟨by rw [atWrite, hsending], rfl, by rw [atSend, hreceiving]⟩

/-- While the sender is there, all that was read gets written. -/
theorem drains (h : Forwards s) (hsender : s.sending ≠ .returned) :
    ∃ es t, (∀ e ∈ es, e.Own) ∧ run step es s = some t ∧ t.received = s.received ∧
      t.wire = s.received.filter isRelayed := by
  induction hwork : work s using Nat.strong_induction_on generalizing s with
  | _ n ih =>
      obtain ⟨e, t, hown, hstep, hreceived, ht, hlt⟩ | ⟨hwrite, hchan, hsend⟩ := advances hsender
      · obtain ⟨es, u, howns, hrun, hsame, hwire⟩ := ih _ (hwork ▸ hlt) (forwards_step h hstep) ht rfl
        refine ⟨e :: es, u, List.forall_mem_cons.mpr ⟨hown, howns⟩, run_cons.mpr ⟨t, hstep, hrun⟩, ?_, ?_⟩
        · rw [hsame, hreceived]
        · rw [hwire, hreceived]
      · have horder := h.order
        rw [hwrite, hchan, hsend, List.append_nil, List.append_nil, List.append_nil] at horder
        exact ⟨[], s, nofun, rfl, rfl, horder⟩

/-! ### The loop on the connection -/

/-- The loop on the connection sends to the channel what is relayed. -/
theorem csChan_pass (rc : ChunkStream) (relay : PlayRelay) :
    (PlayRelay.pass rc relay).Sat (fun _ relay' => relay'.csChan = relay.csChan ++ [rc].filter isRelayed)
      (fun _ _ => False) True := by
  unfold PlayRelay.pass
  split_ifs with hcommand hmedia
  · have hsat := ConnClient.decodeBatch_sat rc.data relay.connectPlayClient
    have hnot : isRelayed rc = false := by
      rcases hcommand with h | h
      · rw [isRelayed, h]
        decide
      · rw [isRelayed, h]
        decide
    rw [List.filter_cons_of_neg (by simp [hnot]), List.filter_nil, List.append_nil, Call.bind_apply, PlayRelay.onClient]
    cases hcase : ConnClient.decodeBatch rc.data relay.connectPlayClient with
    | ok a c => rfl
    | err e c => exact (hsat.of_err hcase).elim
    | panic p => trivial
    | diverge => exact absurd hcase hsat.ne_diverge
  · have hrelayed : isRelayed rc = true := by
      rcases hmedia with h | h | h <;> simp [isRelayed, h]
    rw [List.filter_cons_of_pos hrelayed, List.filter_nil]
    rfl
  · have hnot : isRelayed rc = false := by
      simp only [not_or] at hmedia
      simp [isRelayed, hmedia]
    rw [List.filter_cons_of_neg (by simp [hnot]), List.filter_nil, List.append_nil]
    rfl

/-- In every run the relay writes what it has read and relays, in its order; while it is not stopped its goroutines by
themselves get all of it written. -/
theorem forwards {es : List Event} (hrun : run step es {} = some s) :
    Forwards s ∧ (s.sending ≠ .returned → ∃ fs t, (∀ e ∈ fs, e.Own) ∧ run step fs s = some t ∧
      t.received = s.received ∧ t.wire = s.received.filter isRelayed) := by
  have h : Forwards s := run_keeps (fun s e t hs hstep => forwards_step hs hstep) forwards_default hrun
  exact ⟨h, drains h⟩

def audio : ChunkStream := { typeID := 8, length := 2, data := [0xaf, 1] }

theorem forwards_audio : Forwards { receiving := .passing audio, csChan := [audio], received := [audio, audio] } ∧
    (Sending.selecting ≠ .returned → ∃ fs t, (∀ e ∈ fs, e.Own) ∧
      run step fs { receiving := .passing audio, csChan := [audio], received := [audio, audio] } = some t ∧
      t.received = [audio, audio] ∧ t.wire = [audio, audio].filter isRelayed) :=
  @forwards _ [.ask, .read audio, .pass, .ask, .read audio] rfl

/-- Of the calls of `Stop` one comes through at most. Once the sender has returned, the receiver reads one more message at
most, and it can come to its end if and only if it is not blocked; if it is, it stays so for good. -/
theorem stopsOnce {es : List Event} (hrun : run step es {} = some s) :
    s.stopped ≤ 1 ∧ (s.sending = .returned →
      ((∃ fs t, run step fs s = some t ∧ t.receiving = .returned) ↔ ¬Blocked s) ∧
        ∀ fs t, run step fs s = some t →
          t.received.length ≤ s.received.length + 1 ∧ (Blocked s → t.receiving = s.receiving)) := by
  have h : Stopping s := run_keeps (fun s e t hs hstep => stopping_step hs hstep) stopping_default hrun
  refine ⟨by have := h.once; omega, fun hreturned => ⟨⟨?_, ?_⟩, ?_⟩⟩
  · rintro ⟨fs, t, hfs, ht⟩ hblocked
    obtain ⟨rc, hpassing⟩ := hblocked.passing
    rw [blocked_run hblocked hfs, hpassing] at ht
    cases ht
  · exact returns_of_not_blocked (h.flag.mpr (by have := h.once; simp_all)) hreturned
  · intro fs t hfs
    have hflag : s.startflag = false := h.flag.mpr (by have := h.once; simp_all)
    have hkeeps : t.startflag = false ∧ readAtMost t ≤ readAtMost s :=
      run_keeps (I := fun u => u.startflag = false ∧ readAtMost u ≤ readAtMost s)
        (fun u e v hu hstep => ⟨(readAtMost_step hu.1 hstep).1, (readAtMost_step hu.1 hstep).2.trans hu.2⟩)
        ⟨hflag, le_refl _⟩ hfs
    have hle : t.received.length ≤ readAtMost t := Nat.le_add_right _ _
    have hone : readAtMost s ≤ s.received.length + 1 := by
      rw [readAtMost]
      split_ifs <;> omega
    exact ⟨by omega, fun hblocked => blocked_run hblocked hfs⟩

theorem stopsOnce_reading : 1 ≤ 1 ∧ (Sending.returned = .returned →
    ((∃ fs t, run step fs { startflag := false, receiving := .reading, sending := .returned, stopped := 1 } = some t ∧
        t.receiving = .returned) ↔
      ¬Blocked { startflag := false, receiving := .reading, sending := .returned, stopped := 1 }) ∧
      ∀ fs t, run step fs { startflag := false, receiving := .reading, sending := .returned, stopped := 1 } = some t →
        t.received.length ≤ 0 + 1 ∧
          (Blocked { startflag := false, receiving := .reading, sending := .returned, stopped := 1 } →
            t.receiving = .reading)) :=
  @stopsOnce _ [.ask, .stop, .clearFlag, .ctrl] rfl

/-- The turns of the receiver that fill the channel. -/
theorem fills (rc : ChunkStream) (hrelayed : isRelayed rc = true) (n : Nat) (hn : n ≤ csChanCap) :
    run step ((List.replicate n [Event.ask, .read rc, .pass]).flatten) {} =
      some { csChan := List.replicate n rc, received := List.replicate n rc } := by
  induction n with
  | zero => rfl
  | succ n ih =>
      rw [List.replicate_succ', List.flatten_append, List.flatten_singleton]
      refine run_append.mpr ⟨_, ih (by omega), ?_⟩
      simpa [run, step, hrelayed, List.replicate_succ'] using Nat.lt_of_succ_le hn

/-- A call of `Stop` that comes while the channel is full leaves the receiver blocked. -/
theorem exists_blocked : ∃ es s, run step es {} = some s ∧ Blocked s := by
  refine ⟨(List.replicate csChanCap [Event.ask, .read audio, .pass]).flatten ++
    [.ask, .read audio, .stop, .clearFlag, .ctrl], _, run_append.mpr ⟨_, fills audio rfl csChanCap (le_refl _), rfl⟩, ?_⟩
  exact ⟨⟨audio, rfl⟩, by simp, rfl⟩

end RunningRelay

end Livego
