import Livego.RtmpSubscribe

/-! The periodic check of the registry, between the steps of `HandleReader`: which streams it may delete. -/

namespace Livego

open Machine

namespace Stream

/-- The writers that `Range` comes to are counted, or deleted if they are not alive. -/
def checkWriters (alive : Nat → Bool) : List String → Stream → Nat × Stream
  | [], s => (0, s)
  | key :: keys, s =>
    match s.ws.lookup key with
    | none => checkWriters alive keys s
    | some v =>
      if alive v.w then
        let (n, s) := checkWriters alive keys s
        (n + 1, s)
      else checkWriters alive keys { s with ws := s.ws.erase key }

theorem checkWriters_fields (alive : Nat → Bool) (order : List String) (s : Stream) :
    (checkWriters alive order s).2.r = s.r ∧ (checkWriters alive order s).2.isStart = s.isStart := by
  induction order generalizing s with
  | nil => exact ⟨rfl, rfl⟩
  | cons key keys ih =>
      rw [checkWriters]
      split
      · exact ih s
      · split
        · exact ih s
        · exact ih _

/-- A writer that is alive is counted. -/
theorem checkWriters_pos {alive : Nat → Bool} {order : List String} {s : Stream} {key : String}
    {v : PackWriterCloser} (hkey : key ∈ order) (hv : s.ws.lookup key = some v) (halive : alive v.w = true) :
    0 < (checkWriters alive order s).1 := by
  induction order generalizing s with
  | nil => cases hkey
  | cons key' keys ih =>
      rw [checkWriters]
      by_cases heq : key = key'
      · subst heq
        rw [hv]
        simp only [halive, if_true]
        exact Nat.succ_pos _
      · have hrest : key ∈ keys := (List.mem_cons.mp hkey).resolve_left heq
        split
        · exact ih hrest hv
        · split
          · exact Nat.succ_pos _
          · exact ih hrest ((Finmap.lookup_erase_ne heq).trans hv)

end Stream

/-- Where a call of `HandleReader` is, with the stream that it is about and the one that is to replace it. -/
inductive ReaderCall where
  | idle
  | stopping (i : Nat)
  | choosing (i : Nat)
  | replacing (i : Nat)
  | copying (i j : Nat)
  | storing (i : Nat)
  | adding (i : Nat)
  | done
  deriving DecidableEq, Repr

namespace ReaderCall

/-- The streams that the call still has to do with. -/
def streams : ReaderCall → List Nat
  | .stopping i => [i]
  | .choosing i => [i]
  | .replacing i => [i]
  | .copying i j => [i, j]
  | .storing i => [i]
  | .adding i => [i]
  | _ => []

/-- A stream that the call has made and not stored yet. -/
def new? : ReaderCall → Option Nat
  | .copying _ j => some j
  | .storing i => some i
  | _ => none

theorem mem_streams_of_new? {c : ReaderCall} {i : Nat} (h : c.new? = some i) : i ∈ c.streams := by
  cases c with
  | copying i' j =>
      cases h
      exact List.mem_cons_of_mem _ (List.mem_singleton_self i)
  | storing j =>
      cases h
      exact List.mem_singleton_self i
  | _ => cases h

end ReaderCall

/-- Where `RtmpStream.CheckAlive` is: at rest, in `Range`, or about to delete the key of a stream in which it counted
nobody. -/
inductive Pass where
  | resting
  | ranging (range : SyncMap.Range String)
  | deleting (key : String) (range : SyncMap.Range String)

/-- The registry with the calls of `HandleReader` for each publisher and the check that is under way. -/
structure Watch where
  rs : RtmpStream := {}
  calls : Nat → ReaderCall := fun _ => .idle
  alive : Nat → Bool := fun _ => true
  aliveWriter : Nat → Bool := fun _ => true
  pass : Pass := .resting

namespace Watch

open RtmpStream

inductive Event where
  /-- The steps of `HandleReader`: `Load`, `TransStop`, the comparison of the IDs, `NewStream`, `Copy` of an entry, its
  end, `Store` and `AddReader`. Which entries `Copy` comes to is left open. -/
  | load (r : Nat)
  | transStop (r : Nat)
  | choose (r : Nat)
  | newStream (r : Nat)
  | copy (r : Nat) (key : String)
  | copied (r : Nat)
  | store (r : Nat)
  | addReader (r : Nat)
  /-- `TransStart` begins, and ends after an error of `Read`. -/
  | transStart (i : Nat)
  | transEnd (i : Nat)
  | handleWriter (w : Nat)
  | deleteWriter (w : Nat)
  | close (r : Nat)
  /-- Time passes, or something is read or written. -/
  | setAlive (r : Nat) (alive : Bool)
  | setAliveWriter (w : Nat) (alive : Bool)
  /-- The steps of `CheckAlive`: `Range` begins, `Stream.CheckAlive` is called for an entry, `Delete`, `Range` returns. -/
  | begin
  | check (key : String) (order : List String)
  | delete
  | finish

variable (clients : Clients)

def call (r : Nat) (c : ReaderCall) (s : Watch) : Watch := { s with calls := Function.update s.calls r c }

/-- The publisher's part in `Stream.CheckAlive`: whether it is counted, and the registry afterwards. -/
def checkReader (i : Nat) (s : Watch) : Nat × RtmpStream :=
  match (s.rs.stream i).r, (s.rs.stream i).isStart with
  | some r, true => if s.alive r then (1, s.rs) else (0, s.rs.close r)
  | _, _ => (0, s.rs)

/-- `Stream.CheckAlive`. It is one step, since its two parts read nothing in common: a step of another goroutine between
them could as well come before the second part or after the first. -/
def checkAlive (i : Nat) (order : List String) (s : Watch) : Nat × RtmpStream :=
  let (n, rs) := checkReader i s
  let (m, stream) := Stream.checkWriters s.aliveWriter order (rs.stream i)
  (n + m, rs.set i stream)

def step (s : Watch) : Event → Option Watch
  | .load r =>
    match s.calls r, s.rs.streams.lookup (clients.reader r).key with
    | .idle, some i => some (s.call r (.stopping i))
    | .idle, none => some { s.call r (.storing s.rs.next) with rs := s.rs.newStream }
    | _, _ => none
  | .transStop r =>
    match s.calls r with
    | .stopping i => some { s.call r (.choosing i) with rs := s.rs.transStop i }
    | _ => none
  | .choose r =>
    match s.calls r with
    | .choosing i => some (s.call r (if s.rs.replaces clients r i then .replacing i else .adding i))
    | _ => none
  | .newStream r =>
    match s.calls r with
    | .replacing i => some { s.call r (.copying i s.rs.next) with rs := s.rs.newStream }
    | _ => none
  | .copy r key =>
    match s.calls r with
    | .copying i j => some { s with rs := s.rs.copy clients [key] i j }
    | _ => none
  | .copied r =>
    match s.calls r with
    | .copying _ j => some (s.call r (.storing j))
    | _ => none
  | .store r =>
    match s.calls r with
    | .storing i => some { s.call r (.adding i) with rs := s.rs.store (clients.reader r).key i }
    | _ => none
  | .addReader r =>
    match s.calls r with
    | .adding i => some { s.call r .done with rs := s.rs.addReader r i }
    | _ => none
  | .transStart i => if i ∈ s.rs.spawned then some { s with rs := s.rs.transStart i } else none
  | .transEnd i =>
    let stream := s.rs.stream i
    some { s with rs := s.rs.set i { stream with isStart := false } }
  | .handleWriter w => some { s with rs := s.rs.handleWriter clients w }
  | .deleteWriter w => some { s with rs := s.rs.deleteWriter clients w }
  | .close r => some { s with rs := s.rs.close r }
  | .setAlive r alive => some { s with alive := Function.update s.alive r alive }
  | .setAliveWriter w alive => some { s with aliveWriter := Function.update s.aliveWriter w alive }
  | .begin =>
    match s.pass with
    | .resting => some { s with pass := .ranging (SyncMap.Range.start s.rs.streams) }
    | _ => none
  | .check key order =>
    match s.pass, s.rs.streams.lookup key with
    | .ranging range, some i =>
      if key ∉ range.visited ∧ order.toFinset = (s.rs.stream i).ws.keys ∧ order.Nodup then
        let (n, rs) := checkAlive i order s
        some { s with rs, pass := if n = 0 then .deleting key (range.visit key) else .ranging (range.visit key) }
      else none
    | _, _ => none
  | .delete =>
    match s.pass with
    | .deleting key range => some { s with rs := s.rs.deleteStream key, pass := .ranging (range.drop key) }
    | _ => none
  | .finish =>
    match s.pass with
    | .ranging range => if range.due = ∅ then some { s with pass := .resting } else none
    | _ => none

/-- The stream has a publisher that is alive and has not been closed. -/
def Live (s : Watch) (i : Nat) : Prop := ∃ r, (s.rs.stream i).r = some r ∧ s.alive r = true ∧ s.rs.closed r = false

/-- No check comes to a live publisher whose `TransStart` is not running and who has no player, and between a check that
counted nobody and `Delete` no publisher is added to the stream of the key or comes back to life. -/
def Cautious (s : Watch) : Event → Prop
  | .check key _ => ∀ i, s.rs.streams.lookup key = some i → s.Live i →
    (s.rs.stream i).isStart = true ∨ ∃ uid v, (s.rs.stream i).ws.lookup uid = some v ∧ s.aliveWriter v.w = true
  | .addReader r => ∀ key range i, s.pass = .deleting key range → s.calls r = .adding i →
    s.rs.streams.lookup key ≠ some i
  | .setAlive r alive => alive = true → ∀ key range i, s.pass = .deleting key range →
    s.rs.streams.lookup key = some i → (s.rs.stream i).r ≠ some r
  | _ => True

structure Inv (s : Watch) : Prop where
  registered : ∀ key i, s.rs.streams.lookup key = some i → i < s.rs.next
  called : ∀ r, ∀ i ∈ (s.calls r).streams, i < s.rs.next
  /-- A stream that is still to be stored is known to its call alone, and has no publisher. -/
  fresh : ∀ r i, (s.calls r).new? = some i → (s.rs.stream i).r = none ∧ (∀ key, s.rs.streams.lookup key ≠ some i) ∧
    ∀ r', r' ≠ r → i ∉ (s.calls r').streams
  /-- A stream that is about to be deleted has no live publisher. -/
  deleting : ∀ key range i, s.pass = .deleting key range → s.rs.streams.lookup key = some i → ¬ s.Live i

variable {clients} {s t : Watch} {e : Event}

theorem inv_init : Inv {} := by
  refine ⟨fun _ _ h => ?_, fun _ _ h => ?_, fun _ _ h => ?_, fun _ _ _ h => ?_⟩
  · simp at h
  · cases h
  · cases h
  · cases h

/-- A change that is neither one of the registry nor of who publishes. -/
structure Same (rs rs' : RtmpStream) : Prop where
  streams : rs'.streams = rs.streams
  next : rs'.next = rs.next
  r : ∀ i, (rs'.stream i).r = (rs.stream i).r
  closed : ∀ r, rs'.closed r = false → rs.closed r = false

theorem Live.of_same {i : Nat} (hsame : Same s.rs t.rs) (halive : t.alive = s.alive) (h : t.Live i) : s.Live i := by
  obtain ⟨r, hr, hr', hclosed⟩ := h
  exact ⟨r, hsame.r i ▸ hr, halive ▸ hr', hsame.closed r hclosed⟩

theorem Inv.of_same (h : Inv s) (hsame : Same s.rs t.rs) (hcalls : t.calls = s.calls)
    (hpass : ∀ key range i, t.pass = .deleting key range → s.rs.streams.lookup key = some i → ¬ t.Live i) :
    Inv t := by
  refine ⟨?_, ?_, ?_, ?_⟩
  · rw [hsame.streams, hsame.next]
    exact h.registered
  · rw [hcalls, hsame.next]
    exact h.called
  · intro r i hi
    rw [hcalls] at hi ⊢
    rw [hsame.r, hsame.streams]
    exact h.fresh r i hi
  · rw [hsame.streams]
    exact hpass

/-- A change under which a check that is under way stays as it is. -/
theorem Inv.change (h : Inv s) {rs : RtmpStream} (hsame : Same s.rs rs) : Inv { s with rs } :=
  h.of_same hsame rfl fun key range i hpass hi hlive =>
    h.deleting key range i hpass hi (Live.of_same (t := { s with rs }) hsame rfl hlive)

/-- A call goes on. The streams that it takes up are not new ones of other calls, and its own new one is unknown to
them. -/
theorem Inv.call (h : Inv s) {r : Nat} {c : ReaderCall}
    (hstreams : ∀ i ∈ c.streams, i < s.rs.next ∧ ∀ r', r' ≠ r → (s.calls r').new? ≠ some i)
    (hnew : ∀ i, c.new? = some i → (s.rs.stream i).r = none ∧ (∀ key, s.rs.streams.lookup key ≠ some i) ∧
      ∀ r', r' ≠ r → i ∉ (s.calls r').streams) : Inv (s.call r c) := by
  refine ⟨h.registered, fun r' i hi => ?_, fun r' i hi => ?_, h.deleting⟩
  · simp only [Watch.call, Function.update_apply] at hi
    split_ifs at hi
    · exact (hstreams i hi).1
    · exact h.called r' i hi
  · simp only [Watch.call, Function.update_apply] at hi ⊢
    split_ifs at hi with heq
    · subst heq
      obtain ⟨hnone, hkey, hothers⟩ := hnew i hi
      refine ⟨hnone, hkey, fun r'' hne => ?_⟩
      rw [if_neg hne]
      exact hothers r'' hne
    · obtain ⟨hnone, hkey, hothers⟩ := h.fresh r' i hi
      refine ⟨hnone, hkey, fun r'' hne => ?_⟩
      split_ifs with hr
      · exact fun hmem => (hstreams i hmem).2 r' heq hi
      · exact hothers r'' hne

/-- A call goes on with the streams that it had. -/
theorem Inv.call_of_subset (h : Inv s) {r : Nat} {c : ReaderCall} (hstreams : c.streams ⊆ (s.calls r).streams)
    (hnew : ∀ i, c.new? = some i → (s.calls r).new? = some i) : Inv (s.call r c) := by
  refine h.call (fun i hi => ⟨h.called r i (hstreams hi), fun r' hne hi' => ?_⟩) fun i hi => h.fresh r i (hnew i hi)
  exact (h.fresh r' i hi').2.2 r (Ne.symm hne) (hstreams hi)

theorem Inv.newStream (h : Inv s) : Inv { s with rs := s.rs.newStream } := by
  have hold : ∀ i, i < s.rs.next → s.rs.newStream.stream i = s.rs.stream i := fun i hi => by
    rw [stream_newStream, if_neg (Nat.ne_of_lt hi)]
  refine ⟨fun key i hi => (h.registered key i hi).trans (Nat.lt_succ_self _),
    fun r i hi => (h.called r i hi).trans (Nat.lt_succ_self _), fun r i hi => ?_, fun key range i hpass hi hlive => ?_⟩
  · obtain ⟨hnone, hkey, hothers⟩ := h.fresh r i hi
    refine ⟨?_, hkey, hothers⟩
    show (s.rs.newStream.stream i).r = none
    rw [hold i (h.called r i (ReaderCall.mem_streams_of_new? hi)), hnone]
  · obtain ⟨r, hr, hr', hclosed⟩ := hlive
    change (s.rs.newStream.stream i).r = some r at hr
    rw [hold i (h.registered key i hi)] at hr
    exact h.deleting key range i hpass hi ⟨r, hr, hr', hclosed⟩

/-- A stream has just been made, and nobody knows it. -/
theorem Inv.unknown (h : Inv s) : (s.rs.newStream.stream s.rs.next).r = none ∧
    (∀ key, s.rs.newStream.streams.lookup key ≠ some s.rs.next) ∧ ∀ r, s.rs.next ∉ (s.calls r).streams := by
  refine ⟨?_, fun key hkey => Nat.lt_irrefl _ (h.registered key _ hkey),
    fun r hr => Nat.lt_irrefl _ (h.called r _ hr)⟩
  rw [stream_newStream, if_pos rfl]

/-- A call makes a stream and goes on with it. -/
theorem Inv.call_newStream (h : Inv s) {r : Nat} {c : ReaderCall}
    (hstreams : ∀ i ∈ c.streams, i ∈ (s.calls r).streams ∨ i = s.rs.next) (hnew : c.new? = some s.rs.next) :
    Inv { s.call r c with rs := s.rs.newStream } := by
  obtain ⟨hnone, hkey, hothers⟩ := h.unknown
  refine h.newStream.call (fun i hi => ?_) fun i hi => ?_
  · rcases hstreams i hi with hold | rfl
    · refine ⟨(h.called r i hold).trans (Nat.lt_succ_self _), fun r' hne hi' => ?_⟩
      exact (h.fresh r' i hi').2.2 r (Ne.symm hne) hold
    · exact ⟨Nat.lt_succ_self _, fun r' _ hi' => hothers r' (ReaderCall.mem_streams_of_new? hi')⟩
  · rw [hnew] at hi
    cases hi
    exact ⟨hnone, hkey, fun r' _ => hothers r'⟩

/-- A stream without a publisher is stored. -/
theorem Inv.store (h : Inv s) (key : String) {i : Nat} (hi : i < s.rs.next) (hnone : (s.rs.stream i).r = none)
    (hcalls : ∀ r, (s.calls r).new? ≠ some i) : Inv { s with rs := s.rs.store key i } := by
  refine ⟨fun key' j hj => ?_, h.called, fun r j hj => ?_, fun key' range j hpass hj hlive => ?_⟩
  · simp only [RtmpStream.store, SyncMap.lookup_insert_eq] at hj
    split_ifs at hj
    · cases hj
      exact hi
    · exact h.registered key' j hj
  · obtain ⟨hnone', hkey, hothers⟩ := h.fresh r j hj
    refine ⟨hnone', fun key' hj' => ?_, hothers⟩
    simp only [RtmpStream.store, SyncMap.lookup_insert_eq] at hj'
    split_ifs at hj'
    · cases hj'
      exact hcalls r hj
    · exact hkey key' hj'
  · simp only [RtmpStream.store, SyncMap.lookup_insert_eq] at hj
    split_ifs at hj
    · cases hj
      obtain ⟨r, hr, -⟩ := hlive
      exact absurd (hnone.symm.trans hr) (by simp)
    · exact h.deleting key' range j hpass hj hlive

/-- A publisher is added to a stream that is neither a new one nor about to be deleted. -/
theorem Inv.addReader (h : Inv s) (r : Nat) {i : Nat} (hcalls : ∀ r', (s.calls r').new? ≠ some i)
    (hdeleting : ∀ key range, s.pass = .deleting key range → s.rs.streams.lookup key ≠ some i) :
    Inv { s with rs := s.rs.addReader r i } := by
  refine ⟨h.registered, h.called, fun r' j hj => ?_, fun key range j hpass hj hlive => ?_⟩
  · obtain ⟨hnone, hkey, hothers⟩ := h.fresh r' j hj
    refine ⟨?_, hkey, hothers⟩
    have hne : j ≠ i := fun heq => hcalls r' (heq ▸ hj)
    show ((s.rs.addReader r i).stream j).r = none
    rw [stream_addReader, if_neg hne, hnone]
  · have hne : j ≠ i := fun heq => hdeleting key range hpass (heq ▸ hj)
    obtain ⟨r', hr, halive, hclosed⟩ := hlive
    change ((s.rs.addReader r i).stream j).r = some r' at hr
    rw [stream_addReader, if_neg hne] at hr
    exact h.deleting key range j hpass hj ⟨r', hr, halive, hclosed⟩

theorem Inv.handleWriter (h : Inv s) (w : Nat) : Inv { s with rs := s.rs.handleWriter clients w } := by
  cases hi : s.rs.streams.lookup (clients.writer w).key with
  | none =>
      have heq : s.rs.handleWriter clients w = s.rs.newStream.store (clients.writer w).key s.rs.next := by
        simp only [RtmpStream.handleWriter, hi]
      obtain ⟨hnone, -, hothers⟩ := h.unknown
      rw [heq]
      exact h.newStream.store _ (Nat.lt_succ_self _) hnone fun r hr =>
        hothers r (ReaderCall.mem_streams_of_new? hr)
  | some i =>
      have heq : s.rs.handleWriter clients w = s.rs.set i ((s.rs.stream i).addWriter clients w) := by
        simp only [RtmpStream.handleWriter, hi]
      rw [heq]
      refine h.change ⟨rfl, rfl, fun j => ?_, fun r hr => hr⟩
      rw [stream_set]
      split_ifs with hij
      · rw [hij]
        rfl
      · rfl

theorem Inv.deleteStream (h : Inv s) (key : String) (range : SyncMap.Range String) :
    Inv { s with rs := s.rs.deleteStream key, pass := .ranging range } := by
  have hold : ∀ key' i, (s.rs.streams.erase key).lookup key' = some i → s.rs.streams.lookup key' = some i := by
    intro key' i hi
    rw [SyncMap.lookup_erase_eq] at hi
    split_ifs at hi
    exact hi
  refine ⟨fun key' i hi => h.registered key' i (hold key' i hi), h.called, fun r i hi => ?_,
    fun _ _ _ hpass => by cases hpass⟩
  obtain ⟨hnone, hkey, hothers⟩ := h.fresh r i hi
  exact ⟨hnone, fun key' hi' => hkey key' (hold key' i hi'), hothers⟩

theorem same_transStop (i : Nat) (rs : RtmpStream) : Same rs (rs.transStop i) := by
  refine ⟨streams_transStop i rs, next_transStop i rs, fun j => ?_, fun r hr => ?_⟩
  · rw [stream_transStop]
    split_ifs with hij
    · rw [hij]
    · rfl
  · by_contra hclosed
    rw [Bool.not_eq_false] at hclosed
    change (rs.closeStarted i).closed r = false at hr
    unfold closeStarted at hr
    split at hr
    · simp [RtmpStream.close, Function.update_apply, hclosed] at hr
    · simp [hclosed] at hr

theorem same_transStart (i : Nat) (rs : RtmpStream) : Same rs (rs.transStart i) := by
  refine ⟨rfl, rfl, fun j => ?_, fun r hr => hr⟩
  simp only [RtmpStream.transStart, stream_set]
  split_ifs with hij
  · rw [hij]
  · rfl

theorem same_set {i : Nat} {stream : Stream} {rs : RtmpStream} (hr : stream.r = (rs.stream i).r) :
    Same rs (rs.set i stream) := by
  refine ⟨rfl, rfl, fun j => ?_, fun r hr => hr⟩
  rw [stream_set]
  split_ifs with hij
  · rw [hr, hij]
  · rfl

theorem same_deleteWriter (w : Nat) (rs : RtmpStream) : Same rs (rs.deleteWriter clients w) := by
  unfold RtmpStream.deleteWriter
  split
  · exact same_set rfl
  · exact ⟨rfl, rfl, fun _ => rfl, fun _ hr => hr⟩

theorem same_close (r : Nat) (rs : RtmpStream) : Same rs (rs.close r) := by
  refine ⟨rfl, rfl, fun _ => rfl, fun r' hr => ?_⟩
  simp only [RtmpStream.close, Function.update_apply] at hr
  split_ifs at hr
  exact hr

theorem Same.trans {rs₁ rs₂ rs₃ : RtmpStream} (h : Same rs₁ rs₂) (h' : Same rs₂ rs₃) : Same rs₁ rs₃ :=
  ⟨h'.streams.trans h.streams, h'.next.trans h.next, fun i => (h'.r i).trans (h.r i),
    fun r hr => h.closed r (h'.closed r hr)⟩

theorem same_copy (order : List String) (i j : Nat) (rs : RtmpStream) : Same rs (rs.copy clients order i j) := by
  refine ⟨rfl, rfl, fun k => ?_, fun r hr => hr⟩
  obtain ⟨hi, -, hj, -⟩ := @Stream.copy_fields clients order (rs.stream i) (rs.stream j)
  rw [stream_copy]
  split_ifs with hkj hki
  · rw [hj, hkj]
  · rw [hi, hki]
  · rfl

theorem same_checkReader (i : Nat) (s : Watch) : Same s.rs (checkReader i s).2 := by
  unfold checkReader
  split
  · split_ifs
    · exact ⟨rfl, rfl, fun _ => rfl, fun _ hr => hr⟩
    · exact same_close _ _
  · exact ⟨rfl, rfl, fun _ => rfl, fun _ hr => hr⟩

theorem same_checkAlive (i : Nat) (order : List String) (s : Watch) : Same s.rs (checkAlive i order s).2 :=
  (same_checkReader i s).trans (same_set (Stream.checkWriters_fields _ _ _).1)

/-- Nobody is counted only where nobody publishes. -/
theorem not_live_of_checkAlive {i : Nat} {order : List String} (horder : order.toFinset = (s.rs.stream i).ws.keys)
    (hcautious : s.Live i → (s.rs.stream i).isStart = true ∨
      ∃ uid v, (s.rs.stream i).ws.lookup uid = some v ∧ s.aliveWriter v.w = true)
    (hzero : (checkAlive i order s).1 = 0) : ¬ Live { s with rs := (checkAlive i order s).2 } i := by
  intro hlive
  have hbefore : s.Live i :=
    Live.of_same (t := { s with rs := (checkAlive i order s).2 }) (same_checkAlive i order s) rfl hlive
  have hcounted := hcautious hbefore
  obtain ⟨r, hr, halive, -⟩ := hbefore
  have hsum : (checkReader i s).1 + (Stream.checkWriters s.aliveWriter order ((checkReader i s).2.stream i)).1 = 0 :=
    hzero
  rcases hcounted with hstart | ⟨uid, v, hv, halive'⟩
  · have hone : (checkReader i s).1 = 1 := by
      simp only [checkReader, hr, hstart, halive, if_true]
    omega
  · have hsame : (checkReader i s).2.stream i = s.rs.stream i := by
      unfold checkReader
      split
      · split_ifs <;> rfl
      · rfl
    have huid : uid ∈ order := by
      rw [← List.mem_toFinset, horder]
      exact Finmap.mem_keys.mpr (Finmap.mem_of_lookup_eq_some hv)
    rw [hsame] at hsum
    have hpos := Stream.checkWriters_pos huid hv halive'
    omega

/-- What a step can be. -/
inductive Moves (clients : Clients) (s : Watch) : Event → Watch → Prop
  | load {r i : Nat} (hcall : s.calls r = .idle) (hi : s.rs.streams.lookup (clients.reader r).key = some i) :
      Moves clients s (.load r) (s.call r (.stopping i))
  | loadNone {r : Nat} (hcall : s.calls r = .idle) (hnone : s.rs.streams.lookup (clients.reader r).key = none) :
      Moves clients s (.load r) { s.call r (.storing s.rs.next) with rs := s.rs.newStream }
  | transStop {r i : Nat} (hcall : s.calls r = .stopping i) :
      Moves clients s (.transStop r) { s.call r (.choosing i) with rs := s.rs.transStop i }
  | choose {r i : Nat} (hcall : s.calls r = .choosing i) :
      Moves clients s (.choose r) (s.call r (if s.rs.replaces clients r i then .replacing i else .adding i))
  | newStream {r i : Nat} (hcall : s.calls r = .replacing i) :
      Moves clients s (.newStream r) { s.call r (.copying i s.rs.next) with rs := s.rs.newStream }
  | copy {r i j : Nat} {key : String} (hcall : s.calls r = .copying i j) :
      Moves clients s (.copy r key) { s with rs := s.rs.copy clients [key] i j }
  | copied {r i j : Nat} (hcall : s.calls r = .copying i j) : Moves clients s (.copied r) (s.call r (.storing j))
  | store {r i : Nat} (hcall : s.calls r = .storing i) :
      Moves clients s (.store r) { s.call r (.adding i) with rs := s.rs.store (clients.reader r).key i }
  | addReader {r i : Nat} (hcall : s.calls r = .adding i) :
      Moves clients s (.addReader r) { s.call r .done with rs := s.rs.addReader r i }
  | transStart {i : Nat} (hspawned : i ∈ s.rs.spawned) :
      Moves clients s (.transStart i) { s with rs := s.rs.transStart i }
  | transEnd {i : Nat} :
      Moves clients s (.transEnd i) { s with rs := s.rs.set i { s.rs.stream i with isStart := false } }
  | handleWriter {w : Nat} : Moves clients s (.handleWriter w) { s with rs := s.rs.handleWriter clients w }
  | deleteWriter {w : Nat} : Moves clients s (.deleteWriter w) { s with rs := s.rs.deleteWriter clients w }
  | close {r : Nat} : Moves clients s (.close r) { s with rs := s.rs.close r }
  | setAlive {r : Nat} {alive : Bool} :
      Moves clients s (.setAlive r alive) { s with alive := Function.update s.alive r alive }
  | setAliveWriter {w : Nat} {alive : Bool} :
      Moves clients s (.setAliveWriter w alive) { s with aliveWriter := Function.update s.aliveWriter w alive }
  | begin (hpass : s.pass = .resting) :
      Moves clients s .begin { s with pass := .ranging (SyncMap.Range.start s.rs.streams) }
  | check {key : String} {order : List String} {range : SyncMap.Range String} {i : Nat} (hpass : s.pass = .ranging range)
      (hi : s.rs.streams.lookup key = some i)
      (hdue : key ∉ range.visited ∧ order.toFinset = (s.rs.stream i).ws.keys ∧ order.Nodup) :
      Moves clients s (.check key order) { s with
        rs := (checkAlive i order s).2
        pass := if (checkAlive i order s).1 = 0 then .deleting key (range.visit key) else .ranging (range.visit key) }
  | delete {key : String} {range : SyncMap.Range String} (hpass : s.pass = .deleting key range) :
      Moves clients s .delete { s with rs := s.rs.deleteStream key, pass := .ranging (range.drop key) }
  | finish {range : SyncMap.Range String} (hpass : s.pass = .ranging range) (hdue : range.due = ∅) :
      Moves clients s .finish { s with pass := .resting }

theorem moves_of_step (hstep : step clients s e = some t) : Moves clients s e t := by
  cases e with
  | transEnd | handleWriter | deleteWriter | close | setAlive | setAliveWriter =>
      cases hstep
      constructor
  | transStop | choose | newStream | copy | copied | store | addReader | begin | delete =>
      simp only [Watch.step] at hstep
      split at hstep
      · next hcase =>
          cases hstep
          constructor
          exact hcase
      · cases hstep
  | load r =>
      simp only [Watch.step] at hstep
      split at hstep
      · next i hcall hi =>
          cases hstep
          exact .load hcall hi
      · next hcall hnone =>
          cases hstep
          exact .loadNone hcall hnone
      · cases hstep
  | transStart i =>
      simp only [Watch.step] at hstep
      split_ifs at hstep with hspawned
      cases hstep
      exact .transStart hspawned
  | check key order =>
      simp only [Watch.step] at hstep
      split at hstep
      · next range i hpass hi =>
          split at hstep
          · next hdue =>
              cases hstep
              exact .check hpass hi hdue
          · cases hstep
      · cases hstep
  | finish =>
      simp only [Watch.step] at hstep
      split at hstep
      · next range hpass =>
          split_ifs at hstep with hdue
          cases hstep
          exact .finish hpass hdue
      · cases hstep

theorem Inv.step (h : Inv s) (hcautious : Cautious s e) (hstep : step clients s e = some t) : Inv t := by
  cases moves_of_step hstep with
  | @load r i hcall hi =>
      refine h.call (fun j hj => ?_) fun j hj => by cases hj
      cases List.mem_singleton.mp hj
      exact ⟨h.registered _ i hi, fun r' _ hr' => (h.fresh r' i hr').2.1 _ hi⟩
  | loadNone hcall hnone => exact h.call_newStream (fun j hj => Or.inr (List.mem_singleton.mp hj)) rfl
  | @transStop r i hcall =>
      refine (h.call_of_subset ?_ fun j hj => by cases hj).change (same_transStop i s.rs)
      rw [hcall]
      exact fun j hj => hj
  | choose hcall =>
      refine h.call_of_subset (fun j hj => ?_) fun j hj => ?_
      · rw [hcall]
        split_ifs at hj <;> exact hj
      · split_ifs at hj <;> cases hj
  | newStream hcall =>
      refine h.call_newStream (fun j hj => ?_) rfl
      rw [hcall]
      simpa [ReaderCall.streams] using hj
  | @copy r i j key hcall => exact h.change (same_copy [key] i j s.rs)
  | copied hcall =>
      refine h.call_of_subset (fun k hk => ?_) fun k hk => ?_
      · rw [hcall]
        exact List.mem_cons_of_mem _ hk
      · rw [hcall]
        exact hk
  | @store r i hcall =>
      have hnew : (s.calls r).new? = some i := by rw [hcall]; rfl
      obtain ⟨hnone, -, hothers⟩ := h.fresh r i hnew
      have hcalled : Inv (s.call r (.adding i)) := by
        refine h.call_of_subset ?_ fun j hj => by cases hj
        rw [hcall]
        exact fun j hj => hj
      refine hcalled.store _ (h.called r i (ReaderCall.mem_streams_of_new? hnew)) hnone fun r' hr' => ?_
      simp only [Watch.call, Function.update_apply] at hr'
      split_ifs at hr' with heq
      · cases hr'
      · exact hothers r' heq (ReaderCall.mem_streams_of_new? hr')
  | @addReader r i hcall =>
      have hcalled : Inv (s.call r .done) :=
        h.call_of_subset (List.nil_subset _) fun j hj => by cases hj
      refine hcalled.addReader r (fun r' hr' => ?_) fun key range hpass => hcautious key range i hpass hcall
      simp only [Watch.call, Function.update_apply] at hr'
      split_ifs at hr' with heq
      · cases hr'
      · apply (h.fresh r' i hr').2.2 r (Ne.symm heq)
        rw [hcall]
        exact List.mem_singleton_self i
  | @transStart i => exact h.change (same_transStart i s.rs)
  | transEnd => exact h.change (same_set rfl)
  | @handleWriter w => exact h.handleWriter w
  | @deleteWriter w => exact h.change (same_deleteWriter w s.rs)
  | @close r => exact h.change (same_close r s.rs)
  | @setAlive r alive =>
      refine ⟨h.registered, h.called, h.fresh, fun key range i hpass hi hlive => ?_⟩
      obtain ⟨r', hr, halive, hclosed⟩ := hlive
      change Function.update s.alive r alive r' = true at halive
      rw [Function.update_apply] at halive
      split_ifs at halive with heq
      · exact hcautious halive key range i hpass hi (heq ▸ hr)
      · exact h.deleting key range i hpass hi ⟨r', hr, halive, hclosed⟩
  | setAliveWriter => exact ⟨h.registered, h.called, h.fresh, h.deleting⟩
  | begin => exact ⟨h.registered, h.called, h.fresh, fun _ _ _ hpass => by cases hpass⟩
  | @check key order range i hpass hi hdue =>
      refine h.of_same (same_checkAlive i order s) rfl fun key' range' j hpass' hj => ?_
      dsimp only at hpass'
      split_ifs at hpass' with hzero
      cases hpass'
      rw [hi] at hj
      cases hj
      exact not_live_of_checkAlive hdue.2.1 (hcautious i hi) hzero
  | delete => exact h.deleteStream _ _
  | finish => exact ⟨h.registered, h.called, h.fresh, fun _ _ _ hpass => by cases hpass⟩

/-- An entry of the registry is there until `Store` puts another stream in its place or `CheckAlive` deletes it. -/
theorem lookup_step {key : String} {i : Nat} (hi : s.rs.streams.lookup key = some i)
    (hstep : step clients s e = some t) :
    t.rs.streams.lookup key = some i ∨ (∃ r, e = .store r ∧ (clients.reader r).key = key) ∨
      e = .delete ∧ ∃ range, s.pass = .deleting key range := by
  have hkeeps : ∀ {rs : RtmpStream}, Same s.rs rs → rs.streams.lookup key = some i := fun hsame =>
    (congrArg (Finmap.lookup key) hsame.streams).trans hi
  cases moves_of_step hstep with
  | @store r j hcall =>
      by_cases hkey : key = (clients.reader r).key
      · exact Or.inr (Or.inl ⟨r, rfl, hkey.symm⟩)
      · exact Or.inl ((Finmap.lookup_insert_of_ne _ hkey).trans hi)
  | @delete key' range hpass =>
      by_cases hkey : key = key'
      · subst hkey
        exact Or.inr (Or.inr ⟨rfl, range, hpass⟩)
      · exact Or.inl ((Finmap.lookup_erase_ne hkey).trans hi)
  | @handleWriter w =>
      cases hw : s.rs.streams.lookup (clients.writer w).key with
      | none =>
          have hne : key ≠ (clients.writer w).key := by
            intro heq
            rw [← heq, hi] at hw
            cases hw
          apply Or.inl
          simp only [RtmpStream.handleWriter, hw]
          exact (Finmap.lookup_insert_of_ne _ hne).trans hi
      | some j =>
          apply Or.inl
          simp only [RtmpStream.handleWriter, hw]
          exact hi
  | transStop => exact Or.inl (hkeeps (same_transStop _ _))
  | deleteWriter => exact Or.inl (hkeeps (same_deleteWriter _ _))
  | check => exact Or.inl (hkeeps (same_checkAlive _ _ _))
  | _ => exact Or.inl hi

open Subscriptions (sampleClients)

end Watch

end Livego
