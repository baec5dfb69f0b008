import Livego.AvPacket
import Livego.Machine
import Livego.RtmpChunkStream
import Mathlib.Data.List.Induction

/-! The timestamps that a player is sent: those of the packets and a base, which is set anew when another publisher takes
the stream over while packets of the first are still queued. -/

namespace Livego

open Machine

structure RWBaser where
  baseTimestamp : Nat := 0
  lastVideoTimestamp : Nat := 0
  lastAudioTimestamp : Nat := 0
  deriving DecidableEq, Repr

namespace RWBaser

def calcBaseTimestamp (rw : RWBaser) : RWBaser :=
  if rw.lastAudioTimestamp > rw.lastVideoTimestamp then { rw with baseTimestamp := rw.lastAudioTimestamp }
  else { rw with baseTimestamp := rw.lastVideoTimestamp }

def recTimeStamp (timestamp typeID : Nat) (rw : RWBaser) : RWBaser :=
  if typeID = tagVideo then { rw with lastVideoTimestamp := timestamp }
  else if typeID = tagAudio then { rw with lastAudioTimestamp := timestamp }
  else rw

end RWBaser

/-- What `SendPacket` is at: it waits for a packet, has taken one from the queue, or has filled in the message that it
is to record and write. -/
inductive Sending where
  | waiting
  | taken (p : AvPacket)
  | filled (cs : ChunkStream)
  deriving DecidableEq, Repr

structure VirWriter where
  rw : RWBaser := {}
  packetQueue : List AvPacket := []
  sending : Sending := .waiting
  wire : List ChunkStream := []
  deriving DecidableEq, Repr

namespace VirWriter

def maxQueueNum : Nat := 1024

def typeID (p : AvPacket) : Nat :=
  if p.isVideo then tagVideo else if p.isMetadata then tagScriptDataAmf0 else tagAudio

/-- The message that a packet is sent as. -/
def fill (base : Nat) (p : AvPacket) : ChunkStream :=
  { data := p.data, length := u32 p.data.length, streamID := p.streamID, timestamp := u32 (p.timeStamp + base),
    typeID := typeID p }

inductive Event where
  /-- `Write`, while the queue is not too long. -/
  | write (p : AvPacket)
  | take
  | fill
  /-- `RecTimeStamp` and the connection's `Write`. -/
  | send
  | calcBaseTimestamp
  deriving DecidableEq, Repr

def step (v : VirWriter) (e : Event) : Option VirWriter :=
  match e, v.sending with
  | .write p, _ =>
    if v.packetQueue.length ≥ maxQueueNum - 24 then none else some { v with packetQueue := v.packetQueue ++ [p] }
  | .take, .waiting =>
    match v.packetQueue with
    | [] => none
    | p :: packetQueue => some { v with packetQueue, sending := .taken p }
  | .fill, .taken p => some { v with sending := .filled (fill v.rw.baseTimestamp p) }
  | .send, .filled cs => some { v with
      rw := v.rw.recTimeStamp cs.timestamp cs.typeID, sending := .waiting, wire := v.wire ++ [cs] }
  | .calcBaseTimestamp, _ => some { v with rw := v.rw.calcBaseTimestamp }
  | _, _ => none

/-- What a step does, by its event. -/
inductive Does (v : VirWriter) : Event → VirWriter → Prop where
  | write {p : AvPacket} : Does v (.write p) { v with packetQueue := v.packetQueue ++ [p] }
  | take {p : AvPacket} {packetQueue : List AvPacket} (hsending : v.sending = .waiting)
      (hqueue : v.packetQueue = p :: packetQueue) : Does v .take { v with packetQueue, sending := .taken p }
  | fill {p : AvPacket} (hsending : v.sending = .taken p) :
      Does v .fill { v with sending := .filled (VirWriter.fill v.rw.baseTimestamp p) }
  | send {cs : ChunkStream} (hsending : v.sending = .filled cs) : Does v .send { v with
      rw := v.rw.recTimeStamp cs.timestamp cs.typeID, sending := .waiting, wire := v.wire ++ [cs] }
  | calcBaseTimestamp : Does v .calcBaseTimestamp { v with rw := v.rw.calcBaseTimestamp }

variable {v w : VirWriter} {e : Event}

theorem does_of_step (h : step v e = some w) : Does v e w := by
  cases e with
  | write p =>
      simp only [step] at h
      split_ifs at h
      cases h
      exact .write
  | take =>
      cases hsending : v.sending with
      | waiting =>
          simp only [step, hsending] at h
          split at h
          · cases h
          · next hqueue =>
              cases h
              exact .take hsending hqueue
      | _ => simp [step, hsending] at h
  | fill =>
      cases hsending : v.sending with
      | taken p =>
          simp only [step, hsending] at h
          cases h
          exact .fill hsending
      | _ => simp [step, hsending] at h
  | send =>
      cases hsending : v.sending with
      | filled cs =>
          simp only [step, hsending] at h
          cases h
          exact .send hsending
      | _ => simp [step, hsending] at h
  | calcBaseTimestamp =>
      simp only [step] at h
      cases h
      exact .calcBaseTimestamp

/-! ### From the queue to the wire -/

def written : List Event → List AvPacket := List.filterMap fun
  | .write p => some p
  | _ => none

/-- The packets that have not been given a timestamp yet. -/
def pending (v : VirWriter) : List AvPacket :=
  match v.sending with
  | .taken p => p :: v.packetQueue
  | _ => v.packetQueue

/-- The message that has not been written yet. -/
def held (v : VirWriter) : List ChunkStream :=
  match v.sending with
  | .filled cs => [cs]
  | _ => []

theorem written_append (es fs : List Event) : written (es ++ fs) = written es ++ written fs := List.filterMap_append

theorem flatMap_written {β : Type} (g : AvPacket → β) (es : List Event) :
    (es.flatMap fun e => (written [e]).map g) = (written es).map g := by
  induction es with
  | nil => rfl
  | cons e es ih => rw [List.flatMap_cons, ih, ← List.map_append, ← written_append, List.singleton_append]

theorem base_recTimeStamp (rw : RWBaser) (timestamp typeID : Nat) :
    (rw.recTimeStamp timestamp typeID).baseTimestamp = rw.baseTimestamp := by
  unfold RWBaser.recTimeStamp
  split_ifs <;> rfl

/-- What is on the wire, is held or is to be filled in with the base `b`. -/
def outgoing (b : Nat) (v : VirWriter) : List ChunkStream := v.wire ++ v.held ++ v.pending.map (fill b)

theorem outgoing_step {b : Nat} (hb : v.rw.baseTimestamp = b) (he : e ≠ .calcBaseTimestamp)
    (h : step v e = some w) :
    w.rw.baseTimestamp = b ∧ outgoing b w = outgoing b v ++ (written [e]).map (fill b) := by
  unfold outgoing
  cases does_of_step h with
  | @write p =>
      refine ⟨hb, ?_⟩
      cases hsending : v.sending <;> simp [held, pending, hsending, written]
  | take hsending hqueue => exact ⟨hb, by simp [held, pending, hsending, hqueue, written]⟩
  | fill hsending => exact ⟨hb, by simp [held, pending, hsending, hb, written]⟩
  | send hsending =>
      exact ⟨(base_recTimeStamp _ _ _).trans hb, by simp [held, pending, hsending, written]⟩
  | calcBaseTimestamp => exact absurd rfl he

/-- While the base stays, the packets that are written go out with it, in order. -/
theorem outgoing_run {b : Nat} {es : List Event} (hb : v.rw.baseTimestamp = b) (hes : .calcBaseTimestamp ∉ es)
    (hrun : run step es v = some w) :
    w.rw.baseTimestamp = b ∧ outgoing b w = outgoing b v ++ (written es).map (fill b) := by
  rw [← flatMap_written]
  exact run_history (C := fun _ e => e ≠ .calcBaseTimestamp) (fun _ _ _ hI hC hstep => outgoing_step hI hC hstep) hb
    (along_of_forall fun e he _ heq => hes (heq ▸ he)) hrun

/-- The packets leave in the order in which they were written. -/
theorem pending_run {es : List Event} (hrun : run step es v = some w) : w.pending <:+ v.pending ++ written es := by
  induction es generalizing v with
  | nil =>
      cases hrun
      exact ⟨[], (List.append_nil _).symm⟩
  | cons e es ih =>
      obtain ⟨u, hstep, hrun⟩ := run_cons.mp hrun
      have hone : u.pending <:+ v.pending ++ written [e] := by
        cases does_of_step hstep with
        | write => cases hsending : v.sending <;> exact ⟨[], by simp [pending, hsending, written]⟩
        | take hsending hqueue => exact ⟨[], by simp [pending, hsending, hqueue, written]⟩
        | @fill p hsending => exact ⟨[p], by simp [pending, hsending, written]⟩
        | send hsending => exact ⟨[], by simp [pending, hsending, written]⟩
        | calcBaseTimestamp => cases hsending : v.sending <;> exact ⟨[], by simp [pending, hsending, written]⟩
      obtain ⟨front, hfront⟩ := hone
      obtain ⟨front', hfront'⟩ := ih hrun
      refine ⟨front ++ front', ?_⟩
      rw [List.append_assoc, hfront', ← List.append_assoc, hfront, List.append_assoc, ← written_append,
        List.singleton_append]

theorem wire_run {es : List Event} (hrun : run step es v = some w) : v.wire <+: w.wire := by
  refine run_keeps (I := fun w => v.wire <+: w.wire) (fun s e t hs hstep => ?_) (List.prefix_refl _) hrun
  cases does_of_step hstep with
  | send hsending => exact hs.trans (List.prefix_append _ _)
  | _ => exact hs

/-! ### The last timestamps -/

/-- The last timestamp of a type on the wire. -/
def lastOn (typeID start : Nat) (wire : List ChunkStream) : Nat :=
  ((wire.filter fun cs => cs.typeID = typeID).getLast?.map ChunkStream.timestamp).getD start

theorem lastOn_concat (typeID start : Nat) (wire : List ChunkStream) (cs : ChunkStream) :
    lastOn typeID start (wire ++ [cs]) = if cs.typeID = typeID then cs.timestamp else lastOn typeID start wire := by
  rw [lastOn, List.filter_append]
  split_ifs with h
  · rw [List.filter_cons_of_pos (by simpa using h), List.filter_nil, List.getLast?_concat]
    rfl
  · rw [List.filter_cons_of_neg (by simpa using h), List.filter_nil, List.append_nil, lastOn]

/-- What was recorded is what is on the wire. -/
theorem last_run {es : List Event} (hwire : v.wire = []) (hrun : run step es v = some w) :
    w.rw.lastVideoTimestamp = lastOn tagVideo v.rw.lastVideoTimestamp w.wire ∧
      w.rw.lastAudioTimestamp = lastOn tagAudio v.rw.lastAudioTimestamp w.wire := by
  refine run_keeps (I := fun w => w.rw.lastVideoTimestamp = lastOn tagVideo v.rw.lastVideoTimestamp w.wire ∧
    w.rw.lastAudioTimestamp = lastOn tagAudio v.rw.lastAudioTimestamp w.wire) (fun s e t hs hstep => ?_) ?_ hrun
  · cases does_of_step hstep with
    | @send cs hsending =>
        simp only [lastOn_concat, RWBaser.recTimeStamp]
        by_cases hvideo : cs.typeID = tagVideo
        · simp [hvideo, hs.2, tagVideo, tagAudio]
        · by_cases haudio : cs.typeID = tagAudio
          · simp [haudio, hs.1, tagVideo, tagAudio]
          · simp [hvideo, haudio, hs.1, hs.2]
    | calcBaseTimestamp =>
        unfold RWBaser.calcBaseTimestamp
        split_ifs <;> exact hs
    | _ => exact hs
  · simp [hwire, lastOn]

/-! ### Never backwards -/

def Media (typeID : Nat) : Prop := typeID = tagVideo ∨ typeID = tagAudio

/-- Of two messages of the same medium the second does not go back. -/
def Earlier (c d : ChunkStream) : Prop := c.typeID = d.typeID → Media c.typeID → c.timestamp ≤ d.timestamp

def EarlierPacket (p q : AvPacket) : Prop := typeID p = typeID q → Media (typeID p) → p.timeStamp ≤ q.timeStamp

instance (typeID : Nat) : Decidable (Media typeID) := inferInstanceAs (Decidable (_ ∨ _))

instance (c d : ChunkStream) : Decidable (Earlier c d) := inferInstanceAs (Decidable (_ → _ → _))

instance (p q : AvPacket) : Decidable (EarlierPacket p q) := inferInstanceAs (Decidable (_ → _ → _))

theorem timestamp_fill {b : Nat} {p : AvPacket} (h : p.timeStamp + b < 2 ^ 32) :
    (fill b p).timestamp = p.timeStamp + b := u32_of_lt h

theorem earlier_fill_iff {b : Nat} {p q : AvPacket} (hp : p.timeStamp + b < 2 ^ 32) (hq : q.timeStamp + b < 2 ^ 32) :
    Earlier (fill b p) (fill b q) ↔ EarlierPacket p q := by
  unfold Earlier EarlierPacket
  rw [timestamp_fill hp, timestamp_fill hq, Nat.add_le_add_iff_right]
  rfl

theorem pairwise_fill_iff {b : Nat} {ps : List AvPacket} (h : ∀ p ∈ ps, p.timeStamp + b < 2 ^ 32) :
    (ps.map (fill b)).Pairwise Earlier ↔ ps.Pairwise EarlierPacket := by
  rw [List.pairwise_map]
  exact List.Pairwise.iff_of_mem fun hp hq => earlier_fill_iff (h _ hp) (h _ hq)

theorem le_lastOn {wire : List ChunkStream} (h : wire.Pairwise Earlier) (start : Nat) {c : ChunkStream}
    (hc : c ∈ wire) (hmedia : Media c.typeID) : c.timestamp ≤ lastOn c.typeID start wire := by
  induction wire using List.reverseRecOn with
  | nil => cases hc
  | append_singleton wire d ih =>
      obtain ⟨hwire, -, hcross⟩ := List.pairwise_append.mp h
      rw [lastOn_concat]
      rcases List.mem_append.mp hc with hc | hc
      · split_ifs with htype
        · exact hcross c hc d List.mem_cons_self htype.symm hmedia
        · exact ih hwire hc
      · rw [List.mem_singleton.mp hc, if_pos rfl]

/-- The new base is not below anything on the wire. -/
theorem le_base {s u : VirWriter} {es : List Event} (hwire : s.wire = []) (hrun : run step es s = some u)
    (hordered : u.wire.Pairwise Earlier) {c : ChunkStream} (hc : c ∈ u.wire) (hmedia : Media c.typeID) :
    c.timestamp ≤ u.rw.calcBaseTimestamp.baseTimestamp := by
  obtain ⟨hvideo, haudio⟩ := last_run hwire hrun
  unfold RWBaser.calcBaseTimestamp
  rcases hmedia with htype | htype
  · have hle := le_lastOn hordered s.rw.lastVideoTimestamp hc (Or.inl htype)
    rw [htype, ← hvideo] at hle
    split_ifs with h
    · exact hle.trans (Nat.le_of_lt h)
    · exact hle
  · have hle := le_lastOn hordered s.rw.lastAudioTimestamp hc (Or.inr htype)
    rw [htype, ← haudio] at hle
    split_ifs with h
    · exact hle
    · exact hle.trans (Nat.le_of_not_lt h)

/-- A list between two others, the second of which has one element more than the first at most before the rest. -/
theorem between {α : Type} {as bs cs xs : List α} (hfront : as <+: xs) (hall : xs <+: as ++ bs ++ cs)
    (hone : bs.length ≤ 1) :
    xs = as ++ bs ++ cs.take (xs.length - (as ++ bs).length) ∨ xs = as ∧ xs.length - (as ++ bs).length = 0 := by
  have htake : xs = (as ++ bs ++ cs).take xs.length := List.prefix_iff_eq_take.mp hall
  have hlen := hfront.length_le
  have hboth : (as ++ bs).length = as.length + bs.length := List.length_append
  by_cases h : (as ++ bs).length ≤ xs.length
  · apply Or.inl
    rw [List.take_append, List.take_of_length_le h] at htake
    exact htake
  · refine Or.inr ⟨?_, by omega⟩
    exact (hfront.eq_of_length (by omega)).symm

/-- A player is carried over from one publisher to another: `first` and `second` are what happens before and after
`CalcBaseTimestamp`. No queue is full and no sum too large. -/
structure Takeover (s u v w : VirWriter) (first second : List Event) : Prop where
  wire : s.wire = []
  packetQueue : s.packetQueue = []
  sending : s.sending = .waiting
  runFirst : run step first s = some u
  rebase : step u .calcBaseTimestamp = some v
  runSecond : run step second v = some w
  once : .calcBaseTimestamp ∉ first ++ second
  ordered : (written first).Pairwise EarlierPacket
  ordered' : (written second).Pairwise EarlierPacket
  sums : ∀ p ∈ written first, p.timeStamp + s.rw.baseTimestamp < 2 ^ 32
  sums' : ∀ p ∈ u.pending ++ written second, p.timeStamp + v.rw.baseTimestamp < 2 ^ 32

/-- The packets that were sent with the new base. -/
def sentAfter (u w : VirWriter) (second : List Event) : List AvPacket :=
  (u.pending ++ written second).take (w.wire.length - (u.wire ++ u.held).length)

namespace Takeover

variable {s u : VirWriter} {first second : List Event}

theorem before (h : Takeover s u v w first second) :
    (u.wire ++ u.held).Pairwise Earlier ∧ u.pending.Pairwise EarlierPacket := by
  have hno : .calcBaseTimestamp ∉ first := fun hmem => h.once (List.mem_append_left _ hmem)
  obtain ⟨-, hout⟩ := outgoing_run rfl hno h.runFirst
  have hnew : outgoing s.rw.baseTimestamp s = [] := by
    simp [outgoing, held, pending, h.wire, h.packetQueue, h.sending]
  rw [hnew, List.nil_append, outgoing] at hout
  have hpairs := (pairwise_fill_iff h.sums).mpr h.ordered
  rw [← hout] at hpairs
  refine ⟨(List.pairwise_append.mp hpairs).1, ?_⟩
  have hsuffix := pending_run h.runFirst
  rw [show s.pending = [] by simp [pending, h.packetQueue, h.sending], List.nil_append] at hsuffix
  exact h.ordered.sublist hsuffix.sublist

theorem after (h : Takeover s u v w first second) :
    v.wire = u.wire ∧ v.held = u.held ∧ v.pending = u.pending ∧
      v.rw.baseTimestamp = u.rw.calcBaseTimestamp.baseTimestamp := by
  cases does_of_step h.rebase with
  | calcBaseTimestamp => exact ⟨rfl, rfl, rfl, rfl⟩

/-- What is on the wire in the end. -/
theorem wire_eq (h : Takeover s u v w first second) :
    w.wire = u.wire ++ u.held ++ (sentAfter u w second).map (fill v.rw.baseTimestamp) ∨
      w.wire = u.wire ∧ sentAfter u w second = [] := by
  obtain ⟨hwire, hheld, hpending, -⟩ := h.after
  have hno : .calcBaseTimestamp ∉ second := fun hmem => h.once (List.mem_append_right _ hmem)
  obtain ⟨-, hout⟩ := outgoing_run rfl hno h.runSecond
  have hfront := wire_run h.runSecond
  have hall : w.wire <+: u.wire ++ u.held ++ (u.pending ++ written second).map (fill v.rw.baseTimestamp) := by
    refine ⟨w.held ++ w.pending.map (fill v.rw.baseTimestamp), ?_⟩
    rw [outgoing, outgoing, hwire, hheld, hpending] at hout
    rw [← List.append_assoc, hout, List.map_append, List.append_assoc]
  rw [hwire] at hfront
  have hone : u.held.length ≤ 1 := by
    unfold held
    split <;> simp
  rcases between hfront hall hone with heq | ⟨heq, hzero⟩
  · apply Or.inl
    rw [sentAfter, List.map_take]
    exact heq
  · refine Or.inr ⟨heq, ?_⟩
    rw [sentAfter, hzero, List.take_zero]

/-- Of the packets sent with the new base, those of the first publisher come first. -/
theorem sentAfter_eq (_ : Takeover s u v w first second) :
    (sentAfter u w second).drop u.pending.length =
        (written second).take (w.wire.length - (u.wire ++ u.held).length - u.pending.length) ∧
      (sentAfter u w second = u.pending ++
          (written second).take (w.wire.length - (u.wire ++ u.held).length - u.pending.length) ∨
        (sentAfter u w second).drop u.pending.length = [] ∧ sentAfter u w second <+: u.pending) := by
  unfold sentAfter
  refine ⟨by rw [List.drop_take, List.drop_left], ?_⟩
  by_cases hlen : u.pending.length ≤ w.wire.length - (u.wire ++ u.held).length
  · exact Or.inl (by rw [List.take_append, List.take_of_length_le hlen])
  · refine Or.inr ⟨?_, ?_⟩
    · rw [List.drop_take, List.drop_left, Nat.sub_eq_zero_of_le (by omega), List.take_zero]
    · rw [List.take_append_of_le_length (by omega)]
      exact List.take_prefix _ _

end Takeover

/-- A takeover leaves the timestamps in order if and only if no packet of the first publisher that is still queued is
later than one of the second's that is sent, and the message that was filled in with the old base, if there is one, is
not later than those that follow. -/
theorem takeover_ordered_iff {s u : VirWriter} {first second : List Event} (h : Takeover s u v w first second) :
    w.wire.Pairwise Earlier ↔
      (∀ q ∈ u.pending, ∀ p ∈ (sentAfter u w second).drop u.pending.length, EarlierPacket q p) ∧
        ∀ c ∈ u.held, ∀ p ∈ sentAfter u w second, Earlier c (fill v.rw.baseTimestamp p) := by
  obtain ⟨hbefore, hpending⟩ := h.before
  obtain ⟨hwire, -, hcross⟩ := List.pairwise_append.mp hbefore
  have hsent : ∀ p ∈ sentAfter u w second, p.timeStamp + v.rw.baseTimestamp < 2 ^ 32 :=
    fun p hp => h.sums' p (List.mem_of_mem_take hp)
  rcases h.wire_eq with heq | ⟨heq, hnone⟩
  · have hbase : ∀ c ∈ u.wire, ∀ p ∈ sentAfter u w second, Earlier c (fill v.rw.baseTimestamp p) := by
      intro c hc p hp htype hmedia
      have hle := le_base h.wire h.runFirst hwire hc hmedia
      rw [← h.after.2.2.2] at hle
      rw [timestamp_fill (hsent p hp)]
      omega
    obtain ⟨hdrop, hsplit⟩ := h.sentAfter_eq
    have hpairs : (sentAfter u w second).Pairwise EarlierPacket ↔
        ∀ q ∈ u.pending, ∀ p ∈ (sentAfter u w second).drop u.pending.length, EarlierPacket q p := by
      rcases hsplit with hall | ⟨hnone, hfront⟩
      · rw [hdrop, hall, List.pairwise_append]
        exact ⟨fun hp => hp.2.2, fun hp => ⟨hpending, h.ordered'.sublist (List.take_sublist _ _), hp⟩⟩
      · rw [hnone]
        exact ⟨fun _ _ _ p hp => absurd hp List.not_mem_nil, fun _ => hpending.sublist hfront.sublist⟩
    rw [heq, List.pairwise_append, pairwise_fill_iff hsent, hpairs]
    constructor
    · rintro ⟨-, hq, hc⟩
      exact ⟨hq, fun c hheld p hp => hc c (List.mem_append_right _ hheld) _ (List.mem_map_of_mem hp)⟩
    · rintro ⟨hq, hc⟩
      refine ⟨hbefore, hq, fun c hmem d hd => ?_⟩
      obtain ⟨p, hp, rfl⟩ := List.mem_map.mp hd
      rcases List.mem_append.mp hmem with hmem | hmem
      · exact hbase c hmem p hp
      · exact hc c hmem p hp
  · rw [heq, hnone, List.drop_nil]
    exact ⟨fun _ => ⟨fun _ _ p hp => absurd hp List.not_mem_nil, fun _ _ p hp => absurd hp List.not_mem_nil⟩,
      fun _ => hwire⟩

def videoAt (timeStamp : Nat) : AvPacket := { isVideo := true, timeStamp }

/-- Of two video packets of the first publisher one is still queued at the takeover. -/
def sampleFirst : List Event := [.write (videoAt 1000), .write (videoAt 1010), .take, .fill, .send]

def sampleSecond (timeStamp : Nat) : List Event :=
  [.write (videoAt timeStamp), .take, .fill, .send, .take, .fill, .send]

theorem takeover_ordered_iff_sample :
    ∃ u v w, Takeover {} u v w sampleFirst (sampleSecond 1020) ∧
      (w.wire.Pairwise Earlier ↔
        (∀ q ∈ u.pending, ∀ p ∈ (sentAfter u w (sampleSecond 1020)).drop u.pending.length, EarlierPacket q p) ∧
          ∀ c ∈ u.held, ∀ p ∈ sentAfter u w (sampleSecond 1020), Earlier c (fill v.rw.baseTimestamp p)) := by
  have h : ∃ u v w, Takeover {} u v w sampleFirst (sampleSecond 1020) :=
    ⟨_, _, _, rfl, rfl, rfl, rfl, rfl, rfl, by decide, by decide, by decide, by decide, by decide⟩
  obtain ⟨u, v, w, h⟩ := h
  exact ⟨u, v, w, h, takeover_ordered_iff h⟩

/-- The queued packet goes out with the base of the takeover, and the second publisher's first packet behind it. -/
theorem takeover_goes_back :
    ∃ w, run step (sampleFirst ++ .calcBaseTimestamp :: sampleSecond 0) {} = some w ∧
      w.wire.map ChunkStream.timestamp = [1000, 2010, 1000] ∧ ¬ w.wire.Pairwise Earlier :=
  ⟨_, rfl, rfl, by decide⟩

end VirWriter

end Livego
