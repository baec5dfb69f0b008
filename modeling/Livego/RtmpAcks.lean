import Livego.Machine
import Livego.RtmpProgress

/-! The acknowledgements of a connection, over whole sessions. What has been acknowledged and what has been counted since
add up to what was read, as long as the counter holds the sum. -/

namespace Livego

open Endian Fallible ReadWriter ChunkStream Machine

namespace Conn

/-- Nothing has been written, and nothing counted. -/
structure SameCounters (conn conn' : Conn) : Prop where
  written : KeepsWritten conn.rw conn'.rw
  chunkSize : conn'.chunkSize = conn.chunkSize
  window : conn'.remoteWindowAckSize = conn.remoteWindowAckSize
  received : conn'.received = conn.received
  ackReceived : conn'.ackReceived = conn.ackReceived

theorem SameCounters.refl (conn : Conn) : SameCounters conn conn := ⟨.refl conn.rw, rfl, rfl, rfl, rfl⟩

theorem SameCounters.trans {conn conn' conn'' : Conn} (h : SameCounters conn conn') (h' : SameCounters conn' conn'') :
    SameCounters conn conn'' :=
  ⟨h.written.trans h'.written, h'.chunkSize.trans h.chunkSize, h'.window.trans h.window,
    h'.received.trans h.received, h'.ackReceived.trans h.ackReceived⟩

theorem readTurn_sameCounters (conn : Conn) :
    (readTurn () conn).Sat (fun _ conn' => SameCounters conn conn') (fun _ conn' => SameCounters conn conn') True := by
  have hbyte := (readUintBE_sticky (n := 1) (by decide) conn.rw).written
  unfold readTurn
  dsimp only
  generalize hcs : ({ (conn.chunks ((conn.rw.readUintBE 1).1 &&& 0x3f)).getD {} with
    tmpFromat := (conn.rw.readUintBE 1).1 >>> 6, csid := (conn.rw.readUintBE 1).1 &&& 0x3f } : ChunkStream) = cs
  have hchunk := readChunk_keepsWritten cs conn.remoteChunkSize ((conn.rw.readUintBE 1).2, conn.pool)
  cases hcase : cs.readChunk conn.remoteChunkSize ((conn.rw.readUintBE 1).2, conn.pool) with
  | ok cs' s => exact ⟨hbyte.trans (hchunk.of_ok hcase), rfl, rfl, rfl, rfl⟩
  | err e s => exact ⟨hbyte.trans (hchunk.of_err hcase), rfl, rfl, rfl, rfl⟩
  | panic p => trivial
  | diverge => exact absurd hcase hchunk.ne_diverge

/-- The value of the acknowledgement that is due with the message. -/
def ackDue (c : ChunkStream) (conn : Conn) : Option Nat :=
  let n := u32 (conn.ackReceived + u32 c.length)
  if windowAfter c conn.remoteWindowAckSize ≤ n then some n else none

/-- How the counters take in a message. -/
structure Counts (c : ChunkStream) (conn conn' : Conn) : Prop where
  window : conn'.remoteWindowAckSize = windowAfter c conn.remoteWindowAckSize
  received : conn'.received =
    if u32 (conn.received + u32 c.length) ≥ 0xf0000000 then 0 else u32 (conn.received + u32 c.length)
  ackReceived : conn'.ackReceived =
    if (ackDue c conn).isSome then 0 else u32 (conn.ackReceived + u32 c.length)
  output : conn'.rw.output =
    conn.rw.output ++ (ackDue c conn).toList.flatMap fun n => (newAck n).messageBytes (u32 conn.chunkSize)

theorem handleControlMsg_ok {c : ChunkStream} {conn conn' : Conn} (h : handleControlMsg c conn = .ok () conn') :
    conn' = { conn with remoteChunkSize := sizeAfter c conn.remoteChunkSize
                        remoteWindowAckSize := windowAfter c conn.remoteWindowAckSize } := by
  by_cases hc : ControlReadable c
  · rw [handleControlMsg_received hc] at h
    cases h
    rfl
  · unfold ControlReadable at hc
    push Not at hc
    obtain ⟨htype, hshort⟩ := hc
    have hnone : uint32BE c.data = none := if_pos hshort
    rcases htype with htype | htype
    · simp [handleControlMsg, htype, hnone] at h
    · simp [handleControlMsg, htype, hnone, idWindowAckSize, idSetChunkSize] at h

/-- An acknowledgement that is due is written, or the chunk size has become zero and writing it panics. -/
theorem ack_ok {size : Nat} {conn conn' : Conn} (h : ack size conn = .ok () conn') : conn' = conn.acked size := by
  by_cases hzero : u32 conn.chunkSize = 0
  · unfold ack at h
    unfold acked
    dsimp only at h ⊢
    split_ifs at h ⊢
    all_goals first
      | (cases h; rfl)
      | simp [Call.bind_apply, ignoreErr, onReadWriter, writeChunk, hzero] at h
  · rw [ack_eq hzero] at h
    cases h
    rfl

theorem assignCsid_newAck (n : Nat) : (newAck n).assignCsid = newAck n := rfl

theorem acked_counts (c : ChunkStream) (conn : Conn) :
    Counts c conn (acked c.length { conn with remoteChunkSize := sizeAfter c conn.remoteChunkSize
                                              remoteWindowAckSize := windowAfter c conn.remoteWindowAckSize }) := by
  unfold acked
  dsimp only
  by_cases hdue : windowAfter c conn.remoteWindowAckSize ≤ u32 (conn.ackReceived + u32 c.length)
  · have hsome : ackDue c conn = some (u32 (conn.ackReceived + u32 c.length)) := if_pos hdue
    rw [if_pos hdue]
    refine ⟨rfl, rfl, by rw [hsome]; rfl, ?_⟩
    rw [hsome, Option.toList_some, List.flatMap_singleton]
    show conn.rw.sent ++ (conn.rw.buffered ++ _) = conn.rw.sent ++ conn.rw.buffered ++ _
    rw [← List.append_assoc, assignCsid_newAck]
  · have hnone : ackDue c conn = none := if_neg hdue
    rw [if_neg hdue]
    refine ⟨rfl, rfl, by rw [hnone]; rfl, ?_⟩
    rw [hnone, Option.toList_none, List.flatMap_nil, List.append_nil]

theorem finish_counts {c c' : ChunkStream} {conn conn' : Conn} (h : finish c conn = .ok c' conn') :
    c' = c ∧ Counts c conn conn' := by
  obtain ⟨_, conn1, hcontrol, h⟩ := Call.bind_eq_ok.mp h
  obtain ⟨_, conn2, hack, h⟩ := Call.bind_eq_ok.mp h
  cases h
  rw [ack_ok hack, handleControlMsg_ok hcontrol]
  exact ⟨rfl, acked_counts c conn⟩

theorem Counts.of_sameCounters {c : ChunkStream} {conn conn' conn'' : Conn} (h : SameCounters conn conn')
    (h' : Counts c conn' conn'') : Counts c conn conn'' := by
  obtain ⟨hwindow, hreceived, hack, houtput⟩ := h'
  have hdue : ackDue c conn' = ackDue c conn := by
    unfold ackDue
    rw [h.window, h.ackReceived]
  have hout : conn'.rw.output = conn.rw.output := by
    unfold ReadWriter.output
    rw [h.written.sent, h.written.buffered]
  refine ⟨?_, ?_, ?_, ?_⟩
  · rw [hwindow, h.window]
  · rw [hreceived, h.received]
  · rw [hack, hdue, h.ackReceived]
  · rw [houtput, hout, hdue, h.chunkSize]

/-- A call of `read` counts the message that it returns, and nothing when it returns an error. -/
theorem read_counts (conn : Conn) :
    (read conn).Sat (fun c conn' => Counts c conn conn') (fun _ conn' => SameCounters conn conn') True := by
  refine sat_read (I := fun s => SameCounters conn s) ?_ (.refl conn)
  intro s hs
  refine (readTurn_sameCounters s).imp ?_ (fun _ _ h => hs.trans h) id
  intro r s' hsame
  cases r with
  | inl _ => exact hs.trans hsame
  | inr c =>
      have hside := finish_sameSide c s'
      show (finish c s').Sat _ _ _
      cases hfinish : finish c s' with
      | ok c' s'' =>
          obtain ⟨rfl, hcounts⟩ := finish_counts hfinish
          exact hcounts.of_sameCounters (hs.trans hsame)
      | err e s'' =>
          rw [hfinish] at hside
          exact hside.elim
      | panic p => trivial
      | diverge => exact absurd hfinish hside.ne_diverge

/-! ### Sessions -/

/-- A connection with the books of its session: the lengths of the messages that were read, the acknowledgements with the
chunk size they were written in, what the calls of `read` wrote, and the sums that were put into the two counters. -/
structure Session where
  conn : Conn
  lengths : List Nat := []
  acks : List (Nat × Nat) := []
  written : Bytes := []
  sums : List (Nat × Nat) := []
  justAcked : Bool := false

inductive Event where
  | read
  | write (m : ChunkStream)
  | flush

/-- The session once `read` has returned the message `c` and left the connection `conn`. -/
def Session.booked (s : Session) (c : ChunkStream) (conn : Conn) : Session :=
  { conn
    lengths := s.lengths ++ [c.length]
    acks := s.acks ++ (ackDue c s.conn).toList.map fun n => (u32 s.conn.chunkSize, n)
    written := s.written ++ conn.rw.output.drop s.conn.rw.output.length
    sums := s.sums ++ [(s.conn.received + c.length, s.conn.ackReceived + c.length)]
    justAcked := (ackDue c s.conn).isSome }

/-- A call that returns. The books are kept by the calls of `read`. -/
def step (s : Session) : Event → Option Session
  | .read =>
    match Conn.read s.conn with
    | .ok c conn => some (s.booked c conn)
    | .err _ conn => some { s with
        conn, written := s.written ++ conn.rw.output.drop s.conn.rw.output.length }
    | _ => none
  | .write m =>
    match Conn.write m s.conn with
    | .ok _ conn | .err _ conn => some { s with conn }
    | _ => none
  | .flush => some { s with conn := { s.conn with rw := s.conn.rw.flush } }

def start (incoming : Bytes) (ending : GoError) : Session := { conn := newConn { unread := incoming, ending } }

/-- No byte is lost: what has been acknowledged and what has been counted since are all the bytes of the messages, no
counter has wrapped, the counter is under the window or an acknowledgement has just been sent, and the acknowledgements
are what was written. -/
structure Accounts (s : Session) : Prop where
  sum : (s.acks.map Prod.snd).sum + s.conn.ackReceived = s.lengths.sum
  unwrapped : ∀ p ∈ s.sums, p.1 < 2 ^ 32 ∧ p.2 < 2 ^ 32
  window : s.conn.ackReceived < s.conn.remoteWindowAckSize ∨ s.conn.ackReceived = 0 ∧ s.justAcked = true
  emitted : s.written = s.acks.flatMap fun a => (newAck a.2).messageBytes a.1

/-- The counter has room for the message that is read next. -/
def Fits (s : Session) (e : Event) : Prop :=
  match e with
  | .read => ∀ c conn, Conn.read s.conn = .ok c conn → s.conn.ackReceived + c.length < 2 ^ 32
  | _ => True

/-- The counters are not touched by what is written. -/
structure SameBooks (conn conn' : Conn) : Prop where
  window : conn'.remoteWindowAckSize = conn.remoteWindowAckSize
  received : conn'.received = conn.received
  ackReceived : conn'.ackReceived = conn.ackReceived

theorem write_sameBooks (m : ChunkStream) (conn : Conn) :
    (write m conn).Sat (fun _ conn' => SameBooks conn conn') (fun _ conn' => SameBooks conn conn') True := by
  have hon : ∀ chunkSize size, (onReadWriter (m.writeChunk size) { conn with chunkSize }).Sat
      (fun _ conn' => SameBooks conn conn') (fun _ conn' => SameBooks conn conn') True := by
    intro chunkSize size
    have hwrite := writeChunk_sameStream m size conn.rw
    unfold onReadWriter
    dsimp only
    cases hcase : m.writeChunk size conn.rw with
    | ok _ rw => exact ⟨rfl, rfl, rfl⟩
    | err e rw => exact ⟨rfl, rfl, rfl⟩
    | panic p => trivial
    | diverge => exact absurd hcase hwrite.ne_diverge
  unfold write
  split_ifs
  · split
    · trivial
    · exact hon _ _
  · exact hon conn.chunkSize _

/-- The part of the books that is right whatever the peer announces. -/
structure Books (s : Session) : Prop where
  live : Live s.conn
  received : s.conn.received < 0xf0000000
  sums : ∀ p ∈ s.sums, p.1 < 2 ^ 32
  window : s.conn.ackReceived < s.conn.remoteWindowAckSize ∨ s.conn.ackReceived = 0 ∧ s.justAcked = true
  emitted : s.written = s.acks.flatMap fun a => (newAck a.2).messageBytes a.1

/-- What is true of the books as long as the counter has room. -/
structure Balanced (s : Session) : Prop where
  sum : (s.acks.map Prod.snd).sum + s.conn.ackReceived = s.lengths.sum
  sums : ∀ p ∈ s.sums, p.2 < 2 ^ 32

theorem accounts_of_books {s : Session} (h : Books s) (h' : Balanced s) : Accounts s :=
  ⟨h'.sum, fun p hp => ⟨h.sums p hp, h'.sums p hp⟩, h.window, h.emitted⟩

theorem books_start (incoming : Bytes) (ending : GoError) : Books (start incoming ending) := by
  have hinv := inv_newConn incoming ending
  exact ⟨⟨hinv.drained, hinv.entries⟩, (by decide : 0 < 0xf0000000), fun p hp => (List.not_mem_nil hp).elim,
    Or.inl (by decide : 0 < 2500000), rfl⟩

theorem balanced_start (incoming : Bytes) (ending : GoError) : Balanced (start incoming ending) :=
  ⟨rfl, fun _ hp => (List.not_mem_nil hp).elim⟩

/-- The books stay as they are but for the connection, whose counters are the same. -/
theorem Books.moved {s : Session} (h : Books s) {conn : Conn} (hlive : Live conn) (hsame : SameBooks s.conn conn) :
    Books { s with conn } := by
  refine ⟨hlive, ?_, h.sums, ?_, h.emitted⟩
  · show conn.received < _
    rw [hsame.received]
    exact h.received
  · show conn.ackReceived < conn.remoteWindowAckSize ∨ conn.ackReceived = 0 ∧ _
    rw [hsame.window, hsame.ackReceived]
    exact h.window

theorem Balanced.moved {s : Session} (h : Balanced s) {conn : Conn} (hsame : SameBooks s.conn conn) :
    Balanced { s with conn } := by
  refine ⟨?_, h.sums⟩
  show (s.acks.map Prod.snd).sum + conn.ackReceived = s.lengths.sum
  rw [hsame.ackReceived]
  exact h.sum

/-- What a call that returns does to the session. -/
theorem step_cases {s t : Session} {e : Event} (h : step s e = some t) :
    (∃ c conn, e = .read ∧ Conn.read s.conn = .ok c conn ∧ t = s.booked c conn) ∨
    (∃ err conn, e = .read ∧ Conn.read s.conn = .err err conn ∧ t = { s with
        conn, written := s.written ++ conn.rw.output.drop s.conn.rw.output.length }) ∨
    (∃ conn, e ≠ .read ∧ Called s.conn conn ∧ SameBooks s.conn conn ∧ t = { s with conn }) := by
  cases e with
  | read =>
      simp only [step] at h
      cases hread : Conn.read s.conn with
      | ok c conn =>
          rw [hread] at h
          cases h
          exact Or.inl ⟨c, conn, rfl, rfl, rfl⟩
      | err err conn =>
          rw [hread] at h
          cases h
          exact Or.inr (Or.inl ⟨err, conn, rfl, rfl, rfl⟩)
      | panic p => simp [hread] at h
      | diverge => simp [hread] at h
  | write m =>
      have hsame := write_sameBooks m s.conn
      simp only [step] at h
      cases hwrite : Conn.write m s.conn with
      | ok _ conn =>
          rw [hwrite] at h
          cases h
          exact Or.inr (Or.inr ⟨conn, nofun, .written hwrite, hsame.of_ok hwrite, rfl⟩)
      | err err conn =>
          rw [hwrite] at h
          cases h
          exact Or.inr (Or.inr ⟨conn, nofun, .refused hwrite, hsame.of_err hwrite, rfl⟩)
      | panic p => simp [hwrite] at h
      | diverge => simp [hwrite] at h
  | flush =>
      cases h
      exact Or.inr (Or.inr ⟨_, nofun, .flushed s.conn, ⟨rfl, rfl, rfl⟩, rfl⟩)

/-- A message that is read has a length that both counters hold apart from what is in them. -/
theorem length_of_read {conn conn' : Conn} {c : ChunkStream} (h : Live conn) (hread : read conn = .ok c conn') :
    c.length ≤ maxpoolsize :=
  ((h.read.of_ok hread).2).length_le

theorem Books.step {s t : Session} {e : Event} (h : Books s) (hstep : Conn.step s e = some t) : Books t := by
  rcases step_cases hstep with ⟨c, conn, rfl, hread, rfl⟩ | ⟨err, conn, rfl, hread, rfl⟩ | ⟨conn, -, hcall, hsame, rfl⟩
  · have hcounts : Counts c s.conn conn := (read_counts s.conn).of_ok hread
    have hlen := length_of_read h.live hread
    have hreceived := h.received
    simp only [maxpoolsize] at hlen
    have hu32 : u32 c.length = c.length := u32_of_lt (by omega)
    refine ⟨(h.live.read.of_ok hread).1, ?_, ?_, ?_, ?_⟩
    · show conn.received < _
      rw [hcounts.received]
      split_ifs with hge
      · decide
      · exact not_le.mp hge
    · intro p hp
      rcases List.mem_append.mp hp with hold | hnew
      · exact h.sums p hold
      · rw [List.mem_singleton.mp hnew]
        show s.conn.received + c.length < 2 ^ 32
        omega
    · show conn.ackReceived < conn.remoteWindowAckSize ∨ conn.ackReceived = 0 ∧ (ackDue c s.conn).isSome = true
      rw [hcounts.ackReceived, hcounts.window]
      by_cases hdue : windowAfter c s.conn.remoteWindowAckSize ≤ u32 (s.conn.ackReceived + u32 c.length)
      · have hsome : (ackDue c s.conn).isSome = true := by rw [ackDue, if_pos hdue]; rfl
        exact Or.inr ⟨if_pos hsome, hsome⟩
      · have hnone : ¬(ackDue c s.conn).isSome = true := by rw [ackDue, if_neg hdue]; simp
        left
        rw [if_neg hnone]
        exact not_le.mp hdue
    · show s.written ++ conn.rw.output.drop s.conn.rw.output.length =
        (s.acks ++ (ackDue c s.conn).toList.map _).flatMap _
      rw [hcounts.output, List.drop_left, h.emitted, List.flatMap_append, List.flatMap_map]
  · have hcounters : SameCounters s.conn conn := (read_counts s.conn).of_err hread
    have hbooks := h.moved (h.live.read.of_err hread) ⟨hcounters.window, hcounters.received, hcounters.ackReceived⟩
    refine ⟨hbooks.live, hbooks.received, hbooks.sums, hbooks.window, ?_⟩
    have hout : conn.rw.output = s.conn.rw.output := by
      rw [ReadWriter.output, ReadWriter.output, hcounters.written.sent, hcounters.written.buffered]
    show s.written ++ conn.rw.output.drop s.conn.rw.output.length = _
    rw [hout, List.drop_length, List.append_nil]
    exact h.emitted
  · exact h.moved (hcall.live h.live) hsame

theorem Balanced.step {s t : Session} {e : Event} (h : Balanced s) (hfits : Fits s e)
    (hstep : Conn.step s e = some t) : Balanced t := by
  rcases step_cases hstep with ⟨c, conn, rfl, hread, rfl⟩ | ⟨err, conn, rfl, hread, rfl⟩ | ⟨conn, -, hcall, hsame, rfl⟩
  · have hcounts : Counts c s.conn conn := (read_counts s.conn).of_ok hread
    have hlt : s.conn.ackReceived + c.length < 2 ^ 32 := hfits c conn hread
    have hsum : u32 (s.conn.ackReceived + u32 c.length) = s.conn.ackReceived + c.length := by
      rw [u32_of_lt (n := c.length) (by omega), u32_of_lt hlt]
    have hold := h.sum
    have hvalue : ∀ n, ackDue c s.conn = some n → n = s.conn.ackReceived + c.length := by
      intro n hn
      rw [ackDue, hsum] at hn
      split_ifs at hn
      cases hn
      rfl
    constructor
    · have hack := hcounts.ackReceived
      rw [hsum] at hack
      show (List.map Prod.snd (s.acks ++ (ackDue c s.conn).toList.map _)).sum + conn.ackReceived =
        (s.lengths ++ [c.length]).sum
      cases hdue : ackDue c s.conn with
      | none =>
          rw [hdue] at hack
          simp only [hack, Option.toList_none, List.map_nil, List.append_nil, List.sum_append, List.sum_singleton,
            Option.isSome_none, Bool.false_eq_true, if_false]
          omega
      | some n =>
          have hn := hvalue n hdue
          rw [hdue] at hack
          simp only [hack, Option.toList_some, List.map_cons, List.map_nil, List.map_append, List.sum_append,
            List.sum_singleton, Option.isSome_some, if_true]
          omega
    · intro p hp
      rcases List.mem_append.mp hp with hmem | hnew
      · exact h.sums p hmem
      · rw [List.mem_singleton.mp hnew]
        exact hlt
  · have hcounters : SameCounters s.conn conn := (read_counts s.conn).of_err hread
    have hsame : SameBooks s.conn conn := ⟨hcounters.window, hcounters.received, hcounters.ackReceived⟩
    have hmoved := h.moved hsame
    exact ⟨hmoved.sum, hmoved.sums⟩
  · exact h.moved hsame

/-- A message for which the counter has no room is entered in the books with a sum it does not hold. -/
theorem unwrapped_of_not_fits {s t : Session} {e : Event} (hfits : ¬Fits s e) (hstep : Conn.step s e = some t) :
    ∃ p ∈ t.sums, 2 ^ 32 ≤ p.2 := by
  cases e with
  | read =>
      simp only [Fits, not_forall, not_lt] at hfits
      obtain ⟨c, conn, hread, hge⟩ := hfits
      rcases step_cases hstep with ⟨c', conn', -, hread', rfl⟩ | ⟨err, conn', -, hread', rfl⟩ | ⟨conn', hne, -⟩
      · cases hread.symm.trans hread'
        exact ⟨_, List.mem_append_right _ (List.mem_singleton_self _), hge⟩
      · cases hread.symm.trans hread'
      · exact absurd rfl hne
  | write m => exact absurd trivial hfits
  | flush => exact absurd trivial hfits

theorem sums_subset_of_step {s t : Session} {e : Event} (hstep : Conn.step s e = some t) : s.sums ⊆ t.sums := by
  rcases step_cases hstep with ⟨c, conn, -, -, rfl⟩ | ⟨err, conn, -, -, rfl⟩ | ⟨conn, -, -, -, rfl⟩
  · exact List.subset_append_left _ _
  · exact List.Subset.refl _
  · exact List.Subset.refl _

/-- The books of a session are right exactly if the counter had room for each message when it was read. -/
theorem accounts_iff {incoming : Bytes} {ending : GoError} {es : List Event} {t : Session}
    (hrun : run step es (start incoming ending) = some t) : Accounts t ↔ Along step Fits es (start incoming ending) := by
  have hbooks : Books t := run_keeps (fun _ _ _ hs hstep => hs.step hstep) (books_start incoming ending) hrun
  constructor
  · intro h
    refine along_of_unmarked (I := fun _ => True) (M := fun s => ∃ p ∈ s.sums, 2 ^ 32 ≤ p.2) ?_ ?_ ?_ trivial hrun ?_
    · exact fun _ _ _ _ _ => trivial
    · exact fun _ _ _ _ hstep hfits => unwrapped_of_not_fits hfits hstep
    · rintro s e u - ⟨p, hp, hge⟩ hstep
      exact ⟨p, sums_subset_of_step hstep hp, hge⟩
    · rintro ⟨p, hp, hge⟩
      have hlt := (h.unwrapped p hp).2
      omega
  · intro h
    refine accounts_of_books hbooks ?_
    have hstart := And.intro (books_start incoming ending) (balanced_start incoming ending)
    refine (run_invariant (I := fun s => Books s ∧ Balanced s) ?_ hstart h hrun).2
    rintro s e u ⟨hb, hbal⟩ hfits hstep
    exact ⟨hb.step hstep, hbal.step hfits hstep⟩

/-- The counter has room as long as the window leaves it room for one message of any length. -/
theorem fits_of_window {s : Session} (h : Books s) (hwindow : s.conn.remoteWindowAckSize ≤ 2 ^ 32 - maxpoolsize) (e : Event) :
    Fits s e := by
  cases e with
  | read =>
      intro c conn hread
      have hlen := length_of_read h.live hread
      have hroom := h.window
      simp only [maxpoolsize] at hlen hwindow
      omega
  | write m => trivial
  | flush => trivial

/-- A message of one byte, after which the stream ends. -/
def oneByte : Bytes := [0x06, 0, 0, 0, 0, 0, 1, 9, 0, 0, 0, 0, 5]

theorem accounts_iff_oneByte : ∃ t, run step [.read, .read] (start oneByte .eof) = some t ∧ t.lengths = [1] ∧
    (Accounts t ↔ Along step Fits [.read, .read] (start oneByte .eof)) := by
  have hlengths : (run step [.read, .read] (start oneByte .eof)).map Session.lengths = some [1] := by decide +kernel
  obtain ⟨t, hrun, hlengths⟩ := Option.map_eq_some_iff.mp hlengths
  exact ⟨t, hrun, hlengths, accounts_iff hrun⟩

/-! ### A window under which the counter wraps -/

theorem ackDue_congr {m c : ChunkStream} (h : c.message = m.message) (conn : Conn) : ackDue c conn = ackDue m conn := by
  simp only [message, Message.mk.injEq] at h
  obtain ⟨-, htype, -, -, hlen, hdata⟩ := h
  rw [ackDue, ackDue, windowAfter, windowAfter, htype, hlen, hdata]

/-- What an idle connection makes of the next message when no acknowledgement is due. -/
structure Entered (m : ChunkStream) (rest : Bytes) (s t : Session) : Prop where
  idle : Idle t.conn
  unread : t.conn.rw.unread = rest
  remoteChunkSize : t.conn.remoteChunkSize = sizeAfter m s.conn.remoteChunkSize
  window : t.conn.remoteWindowAckSize = windowAfter m s.conn.remoteWindowAckSize
  ackReceived : t.conn.ackReceived = u32 (s.conn.ackReceived + u32 m.length)
  lengths : t.lengths = s.lengths ++ [m.length]
  acks : t.acks = s.acks

theorem step_message {m : ChunkStream} {s : Session} {rest : Bytes} (hidle : Idle s.conn) (hm : m.Sendable)
    (hc : ControlReadable m) (hsize : 0 < s.conn.remoteChunkSize) (hdue : ackDue m s.conn = none)
    (hu : s.conn.rw.unread = m.messageBytes s.conn.remoteChunkSize ++ rest) :
    ∃ t, step s .read = some t ∧ Entered m rest s t := by
  obtain ⟨c, conn, hread, hmessage, hidle', hrest, hremote⟩ := hidle.read_message hm hc hsize hu
  have hcounts : Counts c s.conn conn := (read_counts s.conn).of_ok hread
  have hnone : ackDue c s.conn = none := (ackDue_congr hmessage s.conn).trans hdue
  have hack := hcounts.ackReceived
  rw [hnone] at hack
  have hlen : c.length = m.length := congrArg Message.length hmessage
  have hwindow : windowAfter c s.conn.remoteWindowAckSize = windowAfter m s.conn.remoteWindowAckSize := by
    rw [windowAfter, windowAfter, show c.typeID = m.typeID from congrArg Message.typeID hmessage,
      show c.data = m.data from congrArg Message.data hmessage]
  refine ⟨s.booked c conn, by simp only [step, hread], hidle', hrest, hremote, hcounts.window.trans hwindow, ?_, ?_, ?_⟩
  · rw [← hlen]
    exact hack
  · rw [← hlen]
    rfl
  · show s.acks ++ (ackDue c s.conn).toList.map _ = s.acks
    rw [hnone]
    exact List.append_nil _

/-- A message as long as the pool allows. -/
def longMessage : ChunkStream := { csid := 6, length := 512000, typeID := 9, data := List.replicate 512000 0 }

theorem sendable_longMessage : longMessage.Sendable :=
  ⟨List.length_replicate.symm, by decide, by decide, by decide, by decide, by decide, by decide, by decide⟩

/-- The largest window is announced, and then nothing but long messages comes. -/
def wideWindow : Bytes :=
  (newWindowAckSize 0xffffffff).messageBytes 128 ++ (List.replicate 8389 (longMessage.messageBytes 128)).flatten

/-- The first messages fit the window together. -/
theorem run_wideWindow (k : Nat) (hk : k ≤ 8388) :
    ∃ t, run step (List.replicate (k + 1) .read) (start wideWindow .eof) = some t ∧ Idle t.conn ∧
      t.conn.rw.unread = (List.replicate (8389 - k) (longMessage.messageBytes 128)).flatten ∧
      t.conn.remoteChunkSize = 128 ∧ t.conn.remoteWindowAckSize = 0xffffffff ∧
      t.conn.ackReceived = 4 + k * 512000 ∧ t.lengths.sum = 4 + k * 512000 ∧ t.acks = [] := by
  induction k with
  | zero =>
      have hsend : (newWindowAckSize 0xffffffff).Sendable := by constructor <;> decide
      have hdue : ackDue (newWindowAckSize 0xffffffff) (start wideWindow .eof).conn = none := by decide
      obtain ⟨t, hstep, hentered⟩ := step_message (s := start wideWindow .eof) (idle_newConn wideWindow .eof) hsend
        (fun _ => by decide) (by decide : 0 < 128) hdue rfl
      refine ⟨t, run_cons.mpr ⟨t, hstep, rfl⟩, hentered.idle, hentered.unread, hentered.remoteChunkSize,
        hentered.window.trans (by decide), hentered.ackReceived.trans (by decide), ?_, hentered.acks⟩
      rw [hentered.lengths]
      decide
  | succ k ih =>
      obtain ⟨s, hrun, hidle, hunread, hremote, hwindow, hack, hlengths, hacks⟩ := ih (by omega)
      have hu : s.conn.rw.unread = longMessage.messageBytes s.conn.remoteChunkSize ++
          (List.replicate (8389 - (k + 1)) (longMessage.messageBytes 128)).flatten := by
        rw [hunread, hremote, show 8389 - k = 8389 - (k + 1) + 1 by omega, List.replicate_succ, List.flatten_cons]
      have hsum : u32 (s.conn.ackReceived + u32 longMessage.length) = 4 + (k + 1) * 512000 := by
        show u32 (s.conn.ackReceived + u32 512000) = _
        rw [hack, u32_of_lt (by decide : 512000 < 2 ^ 32), u32_of_lt (by omega)]
        omega
      have hafter : windowAfter longMessage s.conn.remoteWindowAckSize = 0xffffffff :=
        (if_neg (by decide)).trans hwindow
      have hdue : ackDue longMessage s.conn = none := by
        rw [ackDue, hsum, hafter]
        exact if_neg (by omega)
      obtain ⟨t, hstep, hentered⟩ := step_message hidle sendable_longMessage (fun h => by revert h; decide)
        (by rw [hremote]; decide) hdue hu
      refine ⟨t, ?_, hentered.idle, hentered.unread, ?_, hentered.window.trans hafter,
        hentered.ackReceived.trans hsum, ?_, hentered.acks.trans hacks⟩
      · rw [List.replicate_succ']
        exact run_append.mpr ⟨s, hrun, run_cons.mpr ⟨t, hstep, rfl⟩⟩
      · exact hentered.remoteChunkSize.trans ((if_neg (by decide)).trans hremote)
      · rw [hentered.lengths, List.sum_append, hlengths, List.sum_singleton]
        show 4 + k * 512000 + 512000 = _
        omega

/-- The message that makes the sum go over 2^32 takes as much off the counter, without an acknowledgement. -/
theorem not_accounts_wideWindow :
    ∃ t, run step (List.replicate 8390 .read) (start wideWindow .eof) = some t ∧ ¬Accounts t := by
  obtain ⟨s, hrun, hidle, hunread, hremote, hwindow, hack, hlengths, hacks⟩ := run_wideWindow 8388 (le_refl _)
  have hu : s.conn.rw.unread = longMessage.messageBytes s.conn.remoteChunkSize ++ [] := by
    rw [hunread, hremote]
    simp
  have hsum : u32 (s.conn.ackReceived + u32 longMessage.length) = 200708 := by
    rw [hack]
    decide
  have hafter : windowAfter longMessage s.conn.remoteWindowAckSize = 0xffffffff :=
    (if_neg (by decide)).trans hwindow
  have hdue : ackDue longMessage s.conn = none := by
    rw [ackDue, hsum, hafter]
    exact if_neg (by decide)
  obtain ⟨t, hstep, hentered⟩ := step_message hidle sendable_longMessage (fun h => by revert h; decide)
    (by rw [hremote]; decide) hdue hu
  refine ⟨t, ?_, fun h => ?_⟩
  · rw [show 8390 = 8388 + 1 + 1 from rfl, List.replicate_succ']
    exact run_append.mpr ⟨s, hrun, run_cons.mpr ⟨t, hstep, rfl⟩⟩
  · have hbalance := h.sum
    rw [hentered.acks, hacks, hentered.ackReceived, hsum, hentered.lengths, List.sum_append, hlengths,
      List.sum_singleton] at hbalance
    exact absurd hbalance (by decide)

end Conn

end Livego
