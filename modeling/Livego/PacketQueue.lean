import Livego.RtmpNoGap
import Livego.RtmpTimestamps

/-! The packet queue of a writer: what `Write` does with a packet while the consumer of the queue is not running, and
what `DropPacket` leaves of a queue that has become too long. -/

namespace Livego

open Machine

/-- What `Read` makes of a message is audio or video, and not both. -/
abbrev MediaPacket : Type := { p : AvPacket // (p.isAudio && p.isVideo) = false }

theorem VirReader.exclusive_read (cs : ChunkStream) (p : AvPacket) :
    ((read cs p).isAudio && (read cs p).isVideo) = false := by
  have hfill : ((fill cs p).isAudio && (fill cs p).isVideo) = false := by
    by_cases haudio : cs.typeID = tagAudio
    · simp [fill, haudio, tagAudio, tagVideo]
    · simp [fill, haudio]
  rcases read_eq cs p with heq | ⟨tag, heq⟩ <;> rw [heq]
  · exact hfill
  · exact hfill

/-- A `*av.Packet` in a queue, with the number of the call of `Write` that it was handed to. -/
structure PacketRef where
  id : Nat
  packet : MediaPacket
  deriving DecidableEq

namespace PacketRef

def isAudio (p : PacketRef) : Bool := p.packet.val.isAudio

def isVideo (p : PacketRef) : Bool := p.packet.val.isVideo

/-- The packet has a video header, which says that it is a sequence header or a key frame. -/
def headerKept (p : PacketRef) : Bool :=
  p.packet.val.header.any fun videoPkt => videoPkt.isSeq || videoPkt.isKeyFrame

/-- A video sequence header or a key frame. -/
def isProtected (p : PacketRef) : Bool := p.isVideo && p.headerKept

/-- `DropPacket` puts the packet back: audio, a sequence header or a key frame. -/
def kept (p : PacketRef) : Bool := p.isAudio || p.isProtected

theorem kept_of_isProtected {p : PacketRef} (h : p.isProtected = true) : p.kept = true := by
  rw [kept, h, Bool.or_true]

theorem isVideo_eq_false {p : PacketRef} (h : p.isAudio = true) : p.isVideo = false := by
  have hexclusive := p.packet.property
  rw [show p.packet.val.isAudio = true from h, Bool.true_and] at hexclusive
  exact hexclusive

end PacketRef

namespace PacketQueue

open PacketRef (kept isProtected)

variable (maxQueueNum : Nat)

/-- `pktQue <- p`. Without a consumer a full channel is waited for without end, and so is an empty one below. -/
def send (p : PacketRef) (pktQue : List PacketRef) : Option (List PacketRef) :=
  if pktQue.length < maxQueueNum then some (pktQue ++ [p]) else none

/-- `<-pktQue`. -/
def discard : List PacketRef → Option (List PacketRef)
  | [] => none
  | _ :: pktQue => some pktQue

/-- What is done with a packet that has been received, if it is audio. -/
def putBackAudio (tmpPkt : PacketRef) (pktQue : List PacketRef) : Option (List PacketRef) :=
  if tmpPkt.isAudio then
    if pktQue.length > maxQueueNum - 2 then discard pktQue else send maxQueueNum tmpPkt pktQue
  else some pktQue

/-- What is done with it if it is video. -/
def putBackVideo (tmpPkt : PacketRef) (pktQue : List PacketRef) : Option (List PacketRef) :=
  if tmpPkt.isVideo then
    (if tmpPkt.headerKept then send maxQueueNum tmpPkt pktQue else some pktQue).bind fun pktQue =>
      if pktQue.length > maxQueueNum - 10 then discard pktQue else some pktQue
  else some pktQue

/-- The loop of `DropPacket`, with so many iterations to go. -/
def dropLoop : Nat → List PacketRef → Option (List PacketRef)
  | 0, pktQue => some pktQue
  | _ + 1, [] => none
  | i + 1, tmpPkt :: pktQue => do
    let pktQue ← putBackAudio maxQueueNum tmpPkt pktQue
    let pktQue ← putBackVideo maxQueueNum tmpPkt pktQue
    dropLoop i pktQue

def dropPacket (pktQue : List PacketRef) : Option (List PacketRef) :=
  dropLoop maxQueueNum (maxQueueNum - 84) pktQue

def write (p : PacketRef) (packetQueue : List PacketRef) : Option (List PacketRef) :=
  if packetQueue.length ≥ maxQueueNum - 24 then dropPacket maxQueueNum packetQueue
  else send maxQueueNum p packetQueue

end PacketQueue

namespace VirWriter

def dropPacket (pktQue : List PacketRef) : Option (List PacketRef) := PacketQueue.dropPacket maxQueueNum pktQue

def write (p : PacketRef) (packetQueue : List PacketRef) : Option (List PacketRef) :=
  PacketQueue.write maxQueueNum p packetQueue

end VirWriter

namespace HlsSource

def maxQueueNum : Nat := 512

def dropPacket (pktQue : List PacketRef) : Option (List PacketRef) := PacketQueue.dropPacket maxQueueNum pktQue

def write (p : PacketRef) (packetQueue : List PacketRef) : Option (List PacketRef) :=
  PacketQueue.write maxQueueNum p packetQueue

end HlsSource

namespace PacketQueue

open PacketRef (kept isProtected)

variable {maxQueueNum : Nat}

/-- One iteration, of a queue that is not nearly full: the packet goes to the end, or is dropped. -/
theorem putBack_eq {p : PacketRef} {q : List PacketRef} (hlen : q.length + 1 ≤ maxQueueNum - 10) :
    ((putBackAudio maxQueueNum p q).bind fun q => putBackVideo maxQueueNum p q) = some (q ++ [p].filter kept) := by
  have hsend : send maxQueueNum p q = some (q ++ [p]) := if_pos (by omega)
  have hlen' : ¬ (q ++ [p]).length > maxQueueNum - 10 := by simp; omega
  unfold putBackAudio putBackVideo
  cases haudio : p.isAudio with
  | true =>
      have hvideo := PacketRef.isVideo_eq_false haudio
      have hkept : p.kept = true := by rw [kept, haudio, Bool.true_or]
      rw [if_pos rfl, if_neg (by omega), hsend, Option.bind_some, hvideo, if_neg Bool.false_ne_true]
      simp [hkept]
  | false =>
      rw [if_neg Bool.false_ne_true, Option.bind_some]
      cases hvideo : p.isVideo with
      | false =>
          have hkept : p.kept = false := by simp [kept, isProtected, haudio, hvideo]
          simp [hkept]
      | true =>
          rw [if_pos rfl]
          cases hheader : p.headerKept with
          | true =>
              have hkept : p.kept = true := by simp [kept, isProtected, haudio, hvideo, hheader]
              rw [if_pos rfl, hsend]
              apply (if_neg hlen').trans
              simp [hkept]
          | false =>
              have hkept : p.kept = false := by simp [kept, isProtected, haudio, hvideo, hheader]
              rw [if_neg Bool.false_ne_true]
              apply (if_neg (by omega)).trans
              simp [hkept]

/-- The packets that are put back come behind those that the loop does not come to. -/
theorem dropLoop_eq {n : Nat} {q : List PacketRef} (hn : n ≤ q.length) (hlen : q.length ≤ maxQueueNum - 10) :
    dropLoop maxQueueNum n q = some (q.drop n ++ (q.take n).filter kept) := by
  induction n generalizing q with
  | zero => simp [dropLoop]
  | succ n ih =>
      cases q with
      | nil => simp at hn
      | cons p q =>
          simp only [List.length_cons] at hn hlen
          have hiteration := putBack_eq (p := p) hlen
          have hback : ([p].filter kept).length ≤ 1 := List.length_filter_le _ _
          have hloop : dropLoop maxQueueNum (n + 1) (p :: q) =
              ((putBackAudio maxQueueNum p q).bind fun q => putBackVideo maxQueueNum p q).bind
                (dropLoop maxQueueNum n) := by
            rw [Option.bind_assoc]
            rfl
          rw [hloop, hiteration, Option.bind_some, ih (by simp; omega) (by simp only [List.length_append]; omega),
            List.drop_append_of_le_length (by omega), List.take_append_of_le_length (by omega), List.append_assoc,
            ← List.filter_append, List.drop_succ_cons, List.take_succ_cons, List.singleton_append]

theorem dropPacket_eq {q : List PacketRef} (hn : maxQueueNum - 84 ≤ q.length) (hlen : q.length ≤ maxQueueNum - 10) :
    dropPacket maxQueueNum q =
      some (q.drop (maxQueueNum - 84) ++ (q.take (maxQueueNum - 84)).filter kept) := dropLoop_eq hn hlen

/-- In a list without duplicates nothing of the back comes before something of the front. -/
theorem not_sublist_swap {α : Type} {xs ys : List α} {x y : α} (hnodup : (xs ++ ys).Nodup) (hx : x ∈ xs)
    (hy : y ∈ ys) : ¬ [y, x].Sublist (xs ++ ys) := by
  have hdisjoint := List.disjoint_of_nodup_append hnodup
  intro hsub
  obtain ⟨front, back, heq, hfront, hback⟩ := List.sublist_append_iff.mp hsub
  cases front with
  | nil =>
      have hback' : back = [y, x] := heq.symm
      rw [hback'] at hback
      exact hdisjoint hx (hback.subset (by simp))
  | cons z front =>
      obtain ⟨hyz, -⟩ := List.cons_eq_cons.mp heq
      exact hdisjoint (hfront.subset (hyz ▸ List.mem_cons_self)) hy

/-- `DropPacket` keeps the order if and only if there is nothing to put back among the packets that it comes to. -/
theorem dropPacket_sublist_iff {q : List PacketRef} (hnodup : q.Nodup) (hn : maxQueueNum - 84 < q.length)
    (hlen : q.length ≤ maxQueueNum - 10) :
    (∃ q', dropPacket maxQueueNum q = some q' ∧ q'.Sublist q) ↔ ∀ p ∈ q.take (maxQueueNum - 84), p.kept = false := by
  rw [dropPacket_eq (Nat.le_of_lt hn) hlen]
  constructor
  · rintro ⟨q', heq, hsub⟩ p hp
    cases heq
    obtain ⟨x, hx⟩ := List.exists_mem_of_length_pos (l := q.drop (maxQueueNum - 84)) (by rw [List.length_drop]; omega)
    by_contra hkept
    have hback : p ∈ (q.take (maxQueueNum - 84)).filter kept := List.mem_filter.mpr ⟨hp, by simpa using hkept⟩
    have hswapped : [x, p].Sublist (q.drop (maxQueueNum - 84) ++ (q.take (maxQueueNum - 84)).filter kept) :=
      (List.singleton_sublist.mpr hx).append (List.singleton_sublist.mpr hback)
    rw [← List.take_append_drop (maxQueueNum - 84) q] at hnodup
    apply not_sublist_swap hnodup hp hx
    rw [List.take_append_drop]
    exact hswapped.trans hsub
  · intro h
    refine ⟨_, rfl, ?_⟩
    rw [List.filter_eq_nil_iff.mpr fun p hp => by simp [h p hp], List.append_nil]
    exact List.drop_sublist _ _

end PacketQueue

/-- A writer's queue, with the packets that its `Write` was handed and those that its consumer has taken. -/
structure QueueWriter where
  packetQueue : List PacketRef := []
  written : List PacketRef := []
  sent : List PacketRef := []
  deriving DecidableEq

namespace QueueWriter

open PacketRef (kept isProtected)
open PacketQueue (dropPacket dropPacket_eq)

/-- A call of `Write`, from its beginning to its end, or a receive of the consumer. -/
inductive Event where
  | write (p : MediaPacket)
  | receive

def step (maxQueueNum : Nat) (s : QueueWriter) : Event → Option QueueWriter
  | .write p => (PacketQueue.write maxQueueNum ⟨s.written.length, p⟩ s.packetQueue).map fun packetQueue =>
    { s with packetQueue, written := s.written ++ [⟨s.written.length, p⟩] }
  | .receive =>
    match s.packetQueue with
    | [] => none
    | p :: packetQueue => some { s with packetQueue, sent := s.sent ++ [p] }

variable {maxQueueNum : Nat} {s t : QueueWriter} {e : Event}

/-- The packet that the next call of `Write` is handed. -/
def next (s : QueueWriter) (p : MediaPacket) : PacketRef := ⟨s.written.length, p⟩

/-- `Write` puts its packet into a queue that is short enough, and else drops packets, its own among them. -/
inductive Does (maxQueueNum : Nat) (s : QueueWriter) : Event → QueueWriter → Prop where
  | write {p : MediaPacket} (hlen : s.packetQueue.length < maxQueueNum - 24) : Does maxQueueNum s (.write p)
      { s with packetQueue := s.packetQueue ++ [s.next p], written := s.written ++ [s.next p] }
  | drop {p : MediaPacket} {packetQueue : List PacketRef} (hlen : maxQueueNum - 24 ≤ s.packetQueue.length)
      (hdrop : dropPacket maxQueueNum s.packetQueue = some packetQueue) :
      Does maxQueueNum s (.write p) { s with packetQueue, written := s.written ++ [s.next p] }
  | receive {p : PacketRef} {packetQueue : List PacketRef} (hqueue : s.packetQueue = p :: packetQueue) :
      Does maxQueueNum s .receive { s with packetQueue, sent := s.sent ++ [p] }

theorem does_of_step (h : step maxQueueNum s e = some t) : Does maxQueueNum s e t := by
  cases e with
  | write p =>
      obtain ⟨packetQueue, hwrite, rfl⟩ := Option.map_eq_some_iff.mp h
      unfold PacketQueue.write at hwrite
      split_ifs at hwrite with hlen
      · exact .drop hlen hwrite
      · unfold PacketQueue.send at hwrite
        split_ifs at hwrite
        cases hwrite
        exact .write (Nat.lt_of_not_le hlen)
  | receive =>
      simp only [step] at h
      split at h
      · cases h
      · next hqueue =>
          cases h
          exact .receive hqueue

/-- The queue is never longer than the threshold, and the packets are numbered as they were written. -/
structure Valid (maxQueueNum : Nat) (s : QueueWriter) : Prop where
  length : s.packetQueue.length ≤ maxQueueNum - 24
  numbered : ∀ p ∈ s.written, p.id < s.written.length
  ordered : s.written.Pairwise fun p q => p.id < q.id
  known : ∀ p ∈ s.sent ++ s.packetQueue, p ∈ s.written

theorem Valid.dropPacket (h : Valid maxQueueNum s) (hlen : maxQueueNum - 24 ≤ s.packetQueue.length) :
    dropPacket maxQueueNum s.packetQueue = some (s.packetQueue.drop (maxQueueNum - 84) ++
      (s.packetQueue.take (maxQueueNum - 84)).filter kept) :=
  dropPacket_eq (by omega) (by have := h.length; omega)

theorem Valid.numbered_next (h : Valid maxQueueNum s) (p : MediaPacket) :
    ∀ q ∈ s.written ++ [s.next p], q.id < (s.written ++ [s.next p]).length := by
  intro q hq
  rw [List.length_append, List.length_singleton]
  rcases List.mem_append.mp hq with hq | hq
  · exact Nat.lt_succ_of_lt (h.numbered q hq)
  · rw [List.mem_singleton.mp hq]
    exact Nat.lt_succ_self _

theorem Valid.ordered_next (h : Valid maxQueueNum s) (p : MediaPacket) :
    (s.written ++ [s.next p]).Pairwise fun p q => p.id < q.id := by
  refine List.pairwise_append.mpr ⟨h.ordered, List.pairwise_singleton _ _, fun q hq r hr => ?_⟩
  rw [List.mem_singleton.mp hr]
  exact h.numbered q hq

/-- What `DropPacket` leaves was in the queue. -/
theorem Valid.mem_of_drop (h : Valid maxQueueNum s) (hlen : maxQueueNum - 24 ≤ s.packetQueue.length)
    {packetQueue : List PacketRef} (hdrop : PacketQueue.dropPacket maxQueueNum s.packetQueue = some packetQueue) :
    packetQueue.length ≤ s.packetQueue.length ∧ ∀ p ∈ packetQueue, p ∈ s.packetQueue := by
  rw [h.dropPacket hlen] at hdrop
  cases hdrop
  constructor
  · have hfilter := List.length_filter_le kept (s.packetQueue.take (maxQueueNum - 84))
    simp only [List.length_append, List.length_drop, List.length_take] at hfilter ⊢
    omega
  · intro p hp
    rcases List.mem_append.mp hp with hp | hp
    · exact List.mem_of_mem_drop hp
    · exact List.mem_of_mem_take (List.mem_filter.mp hp).1

theorem valid_step (h : Valid maxQueueNum s) (hstep : step maxQueueNum s e = some t) : Valid maxQueueNum t := by
  cases does_of_step hstep with
  | @write p hlen =>
      refine ⟨?_, h.numbered_next p, h.ordered_next p, fun q hq => ?_⟩
      · rw [List.length_append, List.length_singleton]
        exact hlen
      · rw [← List.append_assoc] at hq
        rcases List.mem_append.mp hq with hq | hq
        · exact List.mem_append_left _ (h.known q hq)
        · exact List.mem_append_right _ hq
  | @drop p packetQueue hlen hdrop =>
      obtain ⟨hle, hmem⟩ := h.mem_of_drop hlen hdrop
      refine ⟨hle.trans h.length, h.numbered_next p, h.ordered_next p, fun q hq => List.mem_append_left _ ?_⟩
      rcases List.mem_append.mp hq with hq | hq
      · exact h.known q (List.mem_append_left _ hq)
      · exact h.known q (List.mem_append_right _ (hmem q hq))
  | @receive p packetQueue hqueue =>
      have hbound := h.length
      have hknown := h.known
      rw [hqueue] at hbound hknown
      exact ⟨Nat.le_of_succ_le hbound, h.numbered, h.ordered, by simpa using hknown⟩

theorem valid_init : Valid maxQueueNum {} := ⟨Nat.zero_le _, by simp, List.Pairwise.nil, by simp⟩

/-! ### A queue that becomes too long -/

/-- The packets as they are numbered by the calls of `Write`. -/
def numbered (ps : List MediaPacket) : List PacketRef := ps.zipIdx.map fun x => ⟨x.2, x.1⟩

theorem length_numbered (ps : List MediaPacket) : (numbered ps).length = ps.length := by simp [numbered]

theorem mem_of_mem_numbered {ps : List MediaPacket} {p : PacketRef} (h : p ∈ numbered ps) : p.packet ∈ ps := by
  obtain ⟨x, hx, rfl⟩ := List.mem_map.mp h
  exact List.fst_mem_of_mem_zipIdx hx

theorem numbered_concat (ps : List MediaPacket) (p : MediaPacket) :
    numbered (ps ++ [p]) = numbered ps ++ [⟨ps.length, p⟩] := by
  simp [numbered, List.zipIdx_append]

/-- Up to the threshold what is written is queued. -/
theorem run_writes {ps : List MediaPacket} (hlen : ps.length ≤ maxQueueNum - 24) :
    run (step maxQueueNum) (ps.map .write) {} = some { packetQueue := numbered ps, written := numbered ps } := by
  induction ps using List.reverseRecOn with
  | nil => rfl
  | append_singleton ps p ih =>
      rw [List.length_append, List.length_singleton] at hlen
      rw [List.map_append, run_append]
      refine ⟨_, ih (by omega), run_cons.mpr ⟨_, ?_, rfl⟩⟩
      have hshort : ¬ (numbered ps).length ≥ maxQueueNum - 24 := by rw [length_numbered]; omega
      have hfree : (numbered ps).length < maxQueueNum := by rw [length_numbered]; omega
      simp only [step, PacketQueue.write, PacketQueue.send]
      rw [if_neg hshort, if_pos hfree, numbered_concat, length_numbered]
      rfl

/-- What `DropPacket` does to a queue of just the threshold's length. -/
theorem step_drop {ps : List MediaPacket} (hlen : ps.length = maxQueueNum - 24) (p : MediaPacket) :
    step maxQueueNum { packetQueue := numbered ps, written := numbered ps } (.write p) = some {
      packetQueue := (numbered ps).drop (maxQueueNum - 84) ++ ((numbered ps).take (maxQueueNum - 84)).filter kept
      written := numbered (ps ++ [p]) } := by
  have hlong : (numbered ps).length ≥ maxQueueNum - 24 := by rw [length_numbered]; omega
  have hshort : (numbered ps).length ≤ maxQueueNum - 10 := by rw [length_numbered]; omega
  have hdrop := dropPacket_eq (by omega) hshort
  simp only [step, PacketQueue.write]
  rw [if_pos hlong, hdrop, numbered_concat, length_numbered]
  rfl

def keyFrame : MediaPacket := ⟨VirReader.read Fanout.keyChunk {}, VirReader.exclusive_read _ _⟩

def interFrame : MediaPacket := ⟨VirReader.read Fanout.interChunk {}, VirReader.exclusive_read _ _⟩

/-- A packet and so many inter frames that the queue of `VirWriter` is at its threshold. -/
def congestion (p : MediaPacket) : List MediaPacket := p :: List.replicate (VirWriter.maxQueueNum - 25) interFrame

theorem length_congestion (p : MediaPacket) : (congestion p).length = VirWriter.maxQueueNum - 24 := by
  rw [congestion, List.length_cons, List.length_replicate]
  rfl

/-- The inter frames are not put back. -/
theorem filter_congestion (p : MediaPacket) (n : Nat) :
    ((numbered (congestion p)).take (n + 1)).filter kept = [⟨0, p⟩].filter kept := by
  have hinter : ∀ q ∈ ((List.replicate (VirWriter.maxQueueNum - 25) interFrame).zipIdx 1).map fun x => PacketRef.mk x.2 x.1,
      q.kept = false := by
    intro q hq
    obtain ⟨x, hx, rfl⟩ := List.mem_map.mp hq
    have hframe : x.1 = interFrame := List.eq_of_mem_replicate (List.fst_mem_of_mem_zipIdx hx)
    rw [hframe]
    rfl
  rw [numbered, congestion, List.zipIdx_cons, List.map_cons, List.take_succ_cons, List.filter_cons,
    List.filter_eq_nil_iff.mpr fun q hq => by simp [hinter q (List.mem_of_mem_take hq)]]
  simp only [List.filter_cons, List.filter_nil]

/-! ### The order of the packets -/

/-- What has been sent and what is still queued comes in the order in which it was written, with timestamps that do not
go back if those of the packets that were written do not. -/
structure InOrder (s : QueueWriter) : Prop where
  subsequence : (s.sent ++ s.packetQueue).Sublist s.written
  timestamps : s.written.Pairwise (fun p q => p.packet.val.timeStamp ≤ q.packet.val.timeStamp) →
    (s.sent ++ s.packetQueue).Pairwise fun p q => p.packet.val.timeStamp ≤ q.packet.val.timeStamp

theorem inOrder_of_sublist (h : (s.sent ++ s.packetQueue).Sublist s.written) : InOrder s :=
  ⟨h, fun htimestamps => htimestamps.sublist h⟩

/-- When packets are dropped, there is nothing to put back among those that `DropPacket` comes to. -/
def DropsOnly (maxQueueNum : Nat) (s : QueueWriter) : Event → Prop
  | .write _ => maxQueueNum - 24 ≤ s.packetQueue.length →
    ∀ p ∈ s.packetQueue.take (maxQueueNum - 84), p.kept = false
  | .receive => True

theorem inOrder_step (h : Valid maxQueueNum s) (horder : InOrder s) (hdrops : DropsOnly maxQueueNum s e)
    (hstep : step maxQueueNum s e = some t) : InOrder t := by
  apply inOrder_of_sublist
  cases does_of_step hstep with
  | @write p =>
      rw [← List.append_assoc]
      exact horder.subsequence.append (List.Sublist.refl _)
  | @drop p packetQueue hlen hdrop =>
      rw [h.dropPacket hlen] at hdrop
      cases hdrop
      rw [List.filter_eq_nil_iff.mpr fun p hp => by simp [hdrops hlen p hp], List.append_nil]
      have hsub : (s.sent ++ s.packetQueue.drop (maxQueueNum - 84)).Sublist (s.sent ++ s.packetQueue) :=
        (List.Sublist.refl _).append (List.drop_sublist _ _)
      exact (hsub.trans horder.subsequence).trans (List.sublist_append_left _ _)
  | @receive p packetQueue hqueue =>
      have hsub := horder.subsequence
      rw [hqueue] at hsub
      simpa using hsub

/-- A packet that is put back comes behind one that was written after it. -/
theorem dropsOnly_of_inOrder (h : Valid maxQueueNum s) (horder : InOrder s) (hstep : step maxQueueNum s e = some t)
    (horder' : InOrder t) : DropsOnly maxQueueNum s e := by
  have hvalid := valid_step h hstep
  cases does_of_step hstep with
  | write hlen => exact fun hlen' => absurd hlen (Nat.not_lt_of_le hlen')
  | receive => trivial
  | @drop p packetQueue hlen hdrop =>
      intro _ q hq
      have hbefore := h.ordered.sublist horder.subsequence
      have hafter := hvalid.ordered.sublist horder'.subsequence
      rw [h.dropPacket hlen] at hdrop
      cases hdrop
      have hpos : 0 < (s.packetQueue.drop (maxQueueNum - 84)).length := by
        have hlong := List.length_pos_of_mem hq
        simp only [List.length_take, List.length_drop] at hlong ⊢
        omega
      obtain ⟨x, hx⟩ := List.exists_mem_of_length_pos hpos
      by_contra hkept
      have hback : q ∈ (s.packetQueue.take (maxQueueNum - 84)).filter kept :=
        List.mem_filter.mpr ⟨hq, by simpa using hkept⟩
      have hqueue := (List.pairwise_append.mp hbefore).2.1
      rw [← List.take_append_drop (maxQueueNum - 84) s.packetQueue] at hqueue
      have hqx := (List.pairwise_append.mp hqueue).2.2 q hq x hx
      have hxq := (List.pairwise_append.mp (List.pairwise_append.mp hafter).2.1).2.2 x hx q hback
      omega

/-- What `DropPacket` leaves of a queue is in its order, and what is sent and queued is in the order of the calls of
`Write` at all times of a run, if and only if there is nothing to put back among the packets that `DropPacket` comes
to. -/
theorem drop_keeps_order_iff (maxQueueNum : Nat) :
    (∀ q : List PacketRef, q.Nodup → maxQueueNum - 84 < q.length → q.length ≤ maxQueueNum - 10 →
      ((∃ q', dropPacket maxQueueNum q = some q' ∧ q'.Sublist q) ↔
        ∀ p ∈ q.take (maxQueueNum - 84), p.kept = false)) ∧
      ∀ es s, run (step maxQueueNum) es {} = some s →
        (Along (step maxQueueNum) (fun s e => ∀ t, step maxQueueNum s e = some t → InOrder t) es {} ↔
          Along (step maxQueueNum) (DropsOnly maxQueueNum) es {}) := by
  refine ⟨fun q hnodup hn hlen => PacketQueue.dropPacket_sublist_iff hnodup hn hlen, fun es s hrun => ?_⟩
  refine along_iff (I := fun s => Valid maxQueueNum s ∧ InOrder s) (E := fun _ => True)
    (fun s e t hI _ hstep => ?_) (fun s e t hI _ hdrops hstep => ?_) ?_ (fun _ _ => trivial) hrun
  · constructor
    · exact fun hgood => dropsOnly_of_inOrder hI.1 hI.2 hstep (hgood t hstep)
    · exact fun hdrops u hu => inOrder_step hI.1 hI.2 hdrops hu
  · exact ⟨valid_step hI.1 hstep, inOrder_step hI.1 hI.2 hdrops hstep⟩
  · exact ⟨valid_init, inOrder_of_sublist List.Sublist.slnil⟩

theorem drop_keeps_order_iff_sample :
    (dropPacket 85 [⟨0, interFrame⟩, ⟨1, keyFrame⟩] = some [⟨1, keyFrame⟩] ∧
      ((∃ q', dropPacket 85 [⟨0, interFrame⟩, ⟨1, keyFrame⟩] = some q' ∧
          q'.Sublist [⟨0, interFrame⟩, ⟨1, keyFrame⟩]) ↔
        ∀ p ∈ [PacketRef.mk 0 interFrame], p.kept = false)) ∧
      ∃ s, run (step VirWriter.maxQueueNum) [.write keyFrame, .receive] {} = some s ∧
        (Along (step VirWriter.maxQueueNum)
            (fun s e => ∀ t, step VirWriter.maxQueueNum s e = some t → InOrder t) [.write keyFrame, .receive] {} ↔
          Along (step VirWriter.maxQueueNum) (DropsOnly VirWriter.maxQueueNum) [.write keyFrame, .receive] {}) := by
  have hrun : ∃ s, run (step VirWriter.maxQueueNum) [.write keyFrame, .receive] {} = some s := ⟨_, rfl⟩
  obtain ⟨s, hrun⟩ := hrun
  exact ⟨⟨by decide, (drop_keeps_order_iff 85).1 [⟨0, interFrame⟩, ⟨1, keyFrame⟩] (by decide) (by decide) (by decide)⟩,
    s, hrun, (drop_keeps_order_iff _).2 _ s hrun⟩

/-- A key frame at the front of the queue, which is behind all later frames when packets have been dropped. -/
theorem key_frame_falls_behind :
    ∃ s t, run (step VirWriter.maxQueueNum) ((congestion keyFrame).map .write) {} = some s ∧
      s.packetQueue.head? = some ⟨0, keyFrame⟩ ∧ step VirWriter.maxQueueNum s (.write interFrame) = some t ∧
      t.packetQueue.getLast? = some ⟨0, keyFrame⟩ ∧ ¬ t.packetQueue.Sublist s.packetQueue ∧ ¬ InOrder t := by
  have hlen := length_congestion keyFrame
  have hrun := run_writes (Nat.le_of_eq hlen)
  have hstep := step_drop hlen interFrame
  rw [show VirWriter.maxQueueNum - 84 = 939 + 1 from rfl, filter_congestion] at hstep
  have hvalid := run_keeps (fun _ _ _ h hstep => valid_step h hstep) valid_init hrun
  have hfirst : ⟨0, keyFrame⟩ ∈ (numbered (congestion keyFrame)).take (VirWriter.maxQueueNum - 84) :=
    List.mem_cons_self
  have hkept : (PacketRef.mk 0 keyFrame).kept ≠ false := by decide
  have hdisorder := fun horder => dropsOnly_of_inOrder hvalid (inOrder_of_sublist (List.Sublist.refl _)) hstep horder
    (Nat.le_of_eq (by rw [length_numbered, hlen])) _ hfirst
  refine ⟨_, _, hrun, rfl, hstep, List.getLast?_concat, fun hsub => ?_, fun horder => ?_⟩
  · refine hkept (hdisorder (inOrder_of_sublist ?_))
    rw [List.nil_append, numbered_concat]
    exact hsub.trans (List.sublist_append_left _ _)
  · exact hkept (hdisorder horder)

/-! ### Sequence headers and key frames -/

/-- A video sequence header or key frame that was handed to `Write` has been sent or is queued. -/
def Survive (s : QueueWriter) : Prop := ∀ p ∈ s.written, p.isProtected = true → p ∈ s.sent ++ s.packetQueue

/-- The packet whose `Write` makes `DropPacket` run is neither a sequence header nor a key frame. -/
def SparesTrigger (maxQueueNum : Nat) (s : QueueWriter) : Event → Prop
  | .write p => maxQueueNum - 24 ≤ s.packetQueue.length → (s.next p).isProtected = false
  | .receive => True

theorem survive_step (h : Valid maxQueueNum s) (hsurvive : Survive s) (hspares : SparesTrigger maxQueueNum s e)
    (hstep : step maxQueueNum s e = some t) : Survive t := by
  intro q hq hprotected
  cases does_of_step hstep with
  | write =>
      rw [← List.append_assoc]
      rcases List.mem_append.mp hq with hq | hq
      · exact List.mem_append_left _ (hsurvive q hq hprotected)
      · exact List.mem_append_right _ hq
  | @drop p packetQueue hlen hdrop =>
      rcases List.mem_append.mp hq with hold | hnew
      · rw [h.dropPacket hlen] at hdrop
        cases hdrop
        rcases List.mem_append.mp (hsurvive q hold hprotected) with hsent | hqueue
        · exact List.mem_append_left _ hsent
        · refine List.mem_append_right _ ?_
          rw [← List.take_append_drop (maxQueueNum - 84) s.packetQueue] at hqueue
          rcases List.mem_append.mp hqueue with htake | hrest
          · refine List.mem_append_right _ (List.mem_filter.mpr ⟨htake, ?_⟩)
            exact PacketRef.kept_of_isProtected hprotected
          · exact List.mem_append_left _ hrest
      · rw [List.mem_singleton.mp hnew, hspares hlen] at hprotected
        cases hprotected
  | @receive p packetQueue hqueue =>
      have hmem := hsurvive q hq hprotected
      rw [hqueue] at hmem
      simpa using hmem

/-- The packet whose `Write` makes `DropPacket` run is lost. -/
theorem sparesTrigger_of_survive (h : Valid maxQueueNum s) (hstep : step maxQueueNum s e = some t)
    (hsurvive : Survive t) : SparesTrigger maxQueueNum s e := by
  cases does_of_step hstep with
  | write hlen => exact fun hlen' => absurd hlen (Nat.not_lt_of_le hlen')
  | receive => trivial
  | @drop p packetQueue hlen hdrop =>
      intro _
      by_contra hprotected
      have hmem := hsurvive (s.next p) (List.mem_append_right _ (List.mem_singleton_self _)) (by simpa using hprotected)
      have hold : s.next p ∈ s.sent ++ s.packetQueue := by
        rcases List.mem_append.mp hmem with hmem | hmem
        · exact List.mem_append_left _ hmem
        · exact List.mem_append_right _ ((h.mem_of_drop hlen hdrop).2 _ hmem)
      exact Nat.lt_irrefl _ (h.numbered _ (h.known _ hold))

/-- No sequence header or key frame is lost in a run if and only if none is handed to a call of `Write` that finds the
queue too long. -/
theorem protected_survive_iff {es : List Event} (hrun : run (step maxQueueNum) es {} = some s) :
    Along (step maxQueueNum) (fun s e => ∀ t, step maxQueueNum s e = some t → Survive t) es {} ↔
      Along (step maxQueueNum) (SparesTrigger maxQueueNum) es {} := by
  refine along_iff (I := fun s => Valid maxQueueNum s ∧ Survive s) (E := fun _ => True)
    (fun s e t hI _ hstep => ?_) (fun s e t hI _ hspares hstep => ?_) ?_ (fun _ _ => trivial) hrun
  · constructor
    · exact fun hgood => sparesTrigger_of_survive hI.1 hstep (hgood t hstep)
    · exact fun hspares u hu => survive_step hI.1 hI.2 hspares hu
  · exact ⟨valid_step hI.1 hstep, survive_step hI.1 hI.2 hspares hstep⟩
  · exact ⟨valid_init, fun p hp => absurd hp List.not_mem_nil⟩

theorem protected_survive_iff_sample :
    ∃ s, run (step VirWriter.maxQueueNum) [.write keyFrame, .receive] {} = some s ∧
      (Along (step VirWriter.maxQueueNum)
          (fun s e => ∀ t, step VirWriter.maxQueueNum s e = some t → Survive t) [.write keyFrame, .receive] {} ↔
        Along (step VirWriter.maxQueueNum) (SparesTrigger VirWriter.maxQueueNum) [.write keyFrame, .receive] {}) := by
  have hrun : ∃ s, run (step VirWriter.maxQueueNum) [.write keyFrame, .receive] {} = some s := ⟨_, rfl⟩
  obtain ⟨s, hrun⟩ := hrun
  exact ⟨s, hrun, protected_survive_iff hrun⟩

/-- A key frame that is written to a queue of inter frames that is too long. -/
theorem key_frame_is_lost :
    ∃ s t, run (step VirWriter.maxQueueNum) ((congestion interFrame).map .write) {} = some s ∧
      step VirWriter.maxQueueNum s (.write keyFrame) = some t ∧ ⟨1000, keyFrame⟩ ∈ t.written ∧
      (PacketRef.mk 1000 keyFrame).isProtected = true ∧ PacketRef.mk 1000 keyFrame ∉ t.sent ++ t.packetQueue := by
  have hlen := length_congestion interFrame
  have hrun := run_writes (Nat.le_of_eq hlen)
  have hstep := step_drop hlen keyFrame
  have hvalid := run_keeps (fun _ _ _ h hstep => valid_step h hstep) valid_init hrun
  have hnew : numbered (congestion interFrame ++ [keyFrame]) = numbered (congestion interFrame) ++ [⟨1000, keyFrame⟩] := by
    rw [numbered_concat, hlen]
    rfl
  refine ⟨_, _, hrun, hstep, ?_, rfl, fun hmem => ?_⟩
  · rw [hnew]
    exact List.mem_append_right _ (List.mem_singleton_self _)
  · have hnone : [PacketRef.mk 0 interFrame].filter kept = [] := rfl
    rw [show VirWriter.maxQueueNum - 84 = 939 + 1 from rfl, filter_congestion, hnone, List.nil_append,
      List.append_nil] at hmem
    dsimp only at hmem
    have hid := hvalid.numbered _ (List.mem_of_mem_drop hmem)
    rw [length_numbered, hlen] at hid
    exact Nat.lt_irrefl _ hid

end QueueWriter

end Livego
