import Livego.RtmpSubscribe

/-! A republish: `HandleReader` carries the players of a stream over to a new one while the `TransStart` loop of the old
publisher goes on, and shuts down. -/

namespace Livego

open Machine

/-- Where `HandleReader` is. -/
inductive CopyCall where
  | stopping
  | choosing
  | copying
  | ranging (range : SyncMap.Range String)
  | deleting (key : String) (v : PackWriterCloser) (range : SyncMap.Range String)
  | adding (v : PackWriterCloser) (range : SyncMap.Range String)
  | storing
  | addingReader
  | keeping
  | done

/-- Where `TransStart` is. In `closeInter` it is noted whether `Read` has failed. -/
inductive TransLoop where
  | checking
  | reading
  | closing (failed : Bool)
  | ranging (failed : Bool) (range : SyncMap.Range String)
  | closingWriter (failed : Bool) (key : String) (v : PackWriterCloser) (range : SyncMap.Range String)
  | deletingWriter (failed : Bool) (key : String) (range : SyncMap.Range String)
  | stopping
  | ended

/-- The entry is deleted by the other goroutine. -/
def CopyCall.drop (key : String) : CopyCall → CopyCall
  | .ranging range => .ranging (range.drop key)
  | .deleting key' v range => .deleting key' v (range.drop key)
  | .adding v range => .adding v (range.drop key)
  | c => c

def TransLoop.drop (key : String) : TransLoop → TransLoop
  | .ranging failed range => .ranging failed (range.drop key)
  | .closingWriter failed key' v range => .closingWriter failed key' v (range.drop key)
  | .deletingWriter failed key' range => .deletingWriter failed key' (range.drop key)
  | l => l

/-- The old stream and the new one, whether the new one is stored under the key, and the players that are closed. -/
structure Republish where
  old : Stream
  new : Stream := {}
  stored : Bool := false
  closed : Nat → Bool := fun _ => false
  call : CopyCall := .stopping
  loop : TransLoop := .checking

namespace Republish

/-- The steps of `HandleReader`: `TransStop`, the comparison of the IDs, the beginning of `Copy`, the call of its function
for an entry with `Delete` and `AddWriter`, its end, `Store` and `AddReader`. -/
inductive CallEvent where
  | transStop
  | choose
  | begin
  | visit (key : String)
  | delete
  | add
  | finish
  | store
  | addReader

/-- The steps of `TransStart`: the look at `isStart`, `Read` and its failing, the beginning of `closeInter`, the call of
its function for an entry with `Close` and `Delete`, its end, and `isStart = false`. -/
inductive LoopEvent where
  | check
  | read
  | fail
  | begin
  | visit (key : String)
  | close
  | delete
  | finish
  | clear

inductive Event where
  | call (e : CallEvent)
  | loop (e : LoopEvent)

variable (clients : Clients) (r : Nat)

/-- `CalcBaseTimestamp`, which comes before `AddWriter`, changes nothing here. -/
def stepCall (s : Republish) : CallEvent → Option Republish
  | .transStop =>
    match s.call with
    | .stopping => some { s with call := .choosing, old := { s.old with isStart := false } }
    | _ => none
  | .choose =>
    match s.call with
    | .choosing =>
      let id := s.old.iD clients
      if id ≠ emptyID ∧ id ≠ (clients.reader r).uid then some { s with call := .copying, new := {} }
      else some { s with call := .keeping }
    | _ => none
  | .begin =>
    match s.call with
    | .copying => some { s with call := .ranging (SyncMap.Range.start s.old.ws) }
    | _ => none
  | .visit key =>
    match s.call, s.old.ws.lookup key with
    | .ranging range, some v =>
      if key ∉ range.visited then some { s with call := .deleting key v (range.visit key) } else none
    | _, _ => none
  | .delete =>
    match s.call with
    | .deleting key v range =>
      some { s with
        call := .adding v range, old := { s.old with ws := s.old.ws.erase key }, loop := s.loop.drop key }
    | _ => none
  | .add =>
    match s.call with
    | .adding v range => some { s with call := .ranging range, new := s.new.addWriter clients v.w }
    | _ => none
  | .finish =>
    match s.call with
    | .ranging range => if range.due = ∅ then some { s with call := .storing } else none
    | _ => none
  | .store =>
    match s.call with
    | .storing => some { s with call := .addingReader, stored := true }
    | _ => none
  | .addReader =>
    match s.call with
    | .addingReader => some { s with call := .done, new := { s.new with r := some r } }
    | .keeping => some { s with call := .done, old := { s.old with r := some r } }
    | _ => none

/-- `TransStop` closes the old publisher, so that its `Read` fails; it may also fail by itself. A packet that is read is
written to players that take it. -/
def stepLoop (s : Republish) : LoopEvent → Option Republish
  | .check =>
    match s.loop with
    | .checking => some { s with loop := if s.old.isStart then .reading else .closing false }
    | _ => none
  | .read =>
    match s.loop with
    | .reading => some { s with loop := .checking }
    | _ => none
  | .fail =>
    match s.loop with
    | .reading => some { s with loop := .closing true }
    | _ => none
  | .begin =>
    match s.loop with
    | .closing failed => some { s with loop := .ranging failed (SyncMap.Range.start s.old.ws) }
    | _ => none
  | .visit key =>
    match s.loop, s.old.ws.lookup key with
    | .ranging failed range, some v =>
      if key ∉ range.visited then some { s with loop := .closingWriter failed key v (range.visit key) } else none
    | _, _ => none
  | .close =>
    match s.loop with
    | .closingWriter failed key v range =>
      some { s with
        closed := Function.update s.closed v.w true
        loop := if (clients.writer v.w).inter then .deletingWriter failed key range else .ranging failed range }
    | _ => none
  | .delete =>
    match s.loop with
    | .deletingWriter failed key range =>
      some { s with
        loop := .ranging failed range, old := { s.old with ws := s.old.ws.erase key }, call := s.call.drop key }
    | _ => none
  | .finish =>
    match s.loop with
    | .ranging failed range => if range.due = ∅ then some { s with loop := if failed then .stopping else .ended } else none
    | _ => none
  | .clear =>
    match s.loop with
    | .stopping => some { s with loop := .ended, old := { s.old with isStart := false } }
    | _ => none

def step (s : Republish) : Event → Option Republish
  | .call e => stepCall clients r s e
  | .loop e => stepLoop clients s e

/-- A stream with players and a publisher whose `TransStart` is running, when a new publisher comes. -/
structure Running (s : Republish) : Prop where
  isStart : s.old.isStart = true
  publisher : s.old.iD clients ≠ emptyID ∧ s.old.iD clients ≠ (clients.reader r).uid
  keyed : s.old.Keyed clients
  healthy : ∀ key v, s.old.ws.lookup key = some v → s.closed v.w = false
  call : s.call = .stopping
  loop : s.loop = .checking ∨ s.loop = .reading

/-- The player is in the writer map of the old stream. -/
def Attached (s : Republish) (w : Nat) : Prop := ∃ v, s.old.ws.lookup (clients.writer w).uid = some v ∧ v.w = w

/-- The player is in the writer map of the new stream. -/
def Added (s : Republish) (w : Nat) : Prop := ∃ v, s.new.ws.lookup (clients.writer w).uid = some v ∧ v.w = w

/-- The player has been carried over to the new stream, which is registered, and has not been closed. -/
def Kept (s : Republish) (w : Nat) : Prop := s.stored = true ∧ Added clients s w ∧ s.closed w = false

/-- How far `HandleReader` is with a player. -/
def Placed (s : Republish) (w : Nat) : Prop :=
  match s.call with
  | .ranging range => (clients.writer w).uid ∈ range.due ∧ Attached clients s w ∨ Added clients s w
  | .deleting key v range =>
    (clients.writer w).uid ∈ range.due ∧ key ≠ (clients.writer w).uid ∧ Attached clients s w ∨ v.w = w ∨
      Added clients s w
  | .adding v range => (clients.writer w).uid ∈ range.due ∧ Attached clients s w ∨ v.w = w ∨ Added clients s w
  | .storing => Added clients s w
  | .addingReader => s.stored = true ∧ Added clients s w
  | .done => s.stored = true ∧ Added clients s w
  | .keeping => False
  | _ => Attached clients s w

/-- `closeInter` has not come to the player. -/
def Spared (s : Republish) (w : Nat) : Prop :=
  match s.loop with
  | .closingWriter _ key v _ => key ≠ (clients.writer w).uid ∧ v.w ≠ w
  | .deletingWriter _ key _ => key ≠ (clients.writer w).uid
  | _ => True

structure Safe (s : Republish) (w : Nat) : Prop where
  publisher : s.old.iD clients ≠ emptyID ∧ s.old.iD clients ≠ (clients.reader r).uid
  keyed : s.old.Keyed clients
  unclosed : s.closed w = false
  spared : Spared clients s w
  placed : Placed clients s w

variable {clients r} {s t : Republish} {w : Nat}

/-- Entries are kept under the UIDs of their players, so that a player's entry is its own. -/
theorem eq_of_lookup (h : s.old.Keyed clients) {v : PackWriterCloser}
    (hv : s.old.ws.lookup (clients.writer w).uid = some v) : v.w = w := clients.uid_injective (h _ v hv)

theorem Attached.erase {key : String} (h : Attached clients s w) (hkey : key ≠ (clients.writer w).uid) :
    Attached clients { s with old := { s.old with ws := s.old.ws.erase key } } w := by
  obtain ⟨v, hv, hw⟩ := h
  exact ⟨v, (Finmap.lookup_erase_ne (Ne.symm hkey)).trans hv, hw⟩

/-- Players that are added do not put each other out. -/
theorem Added.addWriter (h : Added clients s w) (w' : Nat) :
    Added clients { s with new := s.new.addWriter clients w' } w := by
  by_cases heq : w = w'
  · subst heq
    exact ⟨{ w }, Finmap.lookup_insert _, rfl⟩
  · obtain ⟨v, hv, hw⟩ := h
    have huid : (clients.writer w).uid ≠ (clients.writer w').uid := fun huid => heq (clients.uid_injective huid)
    exact ⟨v, (Finmap.lookup_insert_of_ne _ huid).trans hv, hw⟩

theorem added_addWriter (s : Republish) (w : Nat) : Added clients { s with new := s.new.addWriter clients w } w :=
  ⟨{ w }, Finmap.lookup_insert _, rfl⟩

/-- Where a player is does not change when the entry of another one is deleted. -/
theorem Placed.drop {key : String} (h : Placed clients s w) (hkey : key ≠ (clients.writer w).uid) :
    Placed clients { s with old := { s.old with ws := s.old.ws.erase key }, call := s.call.drop key } w := by
  have hdue : ∀ {range : SyncMap.Range String}, (clients.writer w).uid ∈ range.due →
      (clients.writer w).uid ∈ (range.drop key).due := fun h =>
    SyncMap.Range.mem_due_drop.mpr ⟨Ne.symm hkey, h⟩
  unfold Placed at h ⊢
  cases hcall : s.call with
  | ranging range =>
      rw [hcall] at h
      exact h.imp_left fun h => ⟨hdue h.1, h.2.erase hkey⟩
  | deleting key' v range =>
      rw [hcall] at h
      exact h.imp_left fun h => ⟨hdue h.1, h.2.1, h.2.2.erase hkey⟩
  | adding v range =>
      rw [hcall] at h
      exact h.imp_left fun h => ⟨hdue h.1, h.2.erase hkey⟩
  | stopping | choosing | copying =>
      rw [hcall] at h
      exact Attached.erase h hkey
  | _ =>
      rw [hcall] at h
      exact h

theorem Spared.drop (h : Spared clients s w) (key : String) :
    Spared clients { s with loop := s.loop.drop key } w := by
  unfold Spared at h ⊢
  cases hloop : s.loop with
  | _ =>
      rw [hloop] at h
      exact h

/-- What a step of `HandleReader` can be. -/
inductive CallStep (clients : Clients) (r : Nat) (s : Republish) : CallEvent → Republish → Prop
  | transStop (hcall : s.call = .stopping) :
      CallStep clients r s .transStop { s with call := .choosing, old := { s.old with isStart := false } }
  | choose (hcall : s.call = .choosing) (hid : s.old.iD clients ≠ emptyID ∧ s.old.iD clients ≠ (clients.reader r).uid) :
      CallStep clients r s .choose { s with call := .copying, new := {} }
  | keep (hcall : s.call = .choosing)
      (hid : ¬(s.old.iD clients ≠ emptyID ∧ s.old.iD clients ≠ (clients.reader r).uid)) :
      CallStep clients r s .choose { s with call := .keeping }
  | begin (hcall : s.call = .copying) :
      CallStep clients r s .begin { s with call := .ranging (SyncMap.Range.start s.old.ws) }
  | visit {key : String} {range : SyncMap.Range String} {v : PackWriterCloser} (hcall : s.call = .ranging range)
      (hv : s.old.ws.lookup key = some v) (hkey : key ∉ range.visited) :
      CallStep clients r s (.visit key) { s with call := .deleting key v (range.visit key) }
  | delete {key : String} {v : PackWriterCloser} {range : SyncMap.Range String}
      (hcall : s.call = .deleting key v range) :
      CallStep clients r s .delete { s with
        call := .adding v range, old := { s.old with ws := s.old.ws.erase key }, loop := s.loop.drop key }
  | add {v : PackWriterCloser} {range : SyncMap.Range String} (hcall : s.call = .adding v range) :
      CallStep clients r s .add { s with call := .ranging range, new := s.new.addWriter clients v.w }
  | finish {range : SyncMap.Range String} (hcall : s.call = .ranging range) (hdue : range.due = ∅) :
      CallStep clients r s .finish { s with call := .storing }
  | store (hcall : s.call = .storing) :
      CallStep clients r s .store { s with call := .addingReader, stored := true }
  | addReader (hcall : s.call = .addingReader) :
      CallStep clients r s .addReader { s with call := .done, new := { s.new with r := some r } }
  | addOld (hcall : s.call = .keeping) :
      CallStep clients r s .addReader { s with call := .done, old := { s.old with r := some r } }

theorem callStep {e : CallEvent} (hstep : stepCall clients r s e = some t) : CallStep clients r s e t := by
  cases e with
  | transStop | begin | delete | add | store =>
      simp only [stepCall] at hstep
      split at hstep
      · next hcall =>
          cases hstep
          constructor
          exact hcall
      · cases hstep
  | choose =>
      simp only [stepCall] at hstep
      split at hstep
      · next hcall =>
          split_ifs at hstep with hid
          · cases hstep
            exact .choose hcall hid
          · cases hstep
            exact .keep hcall hid
      · cases hstep
  | visit key =>
      simp only [stepCall] at hstep
      split at hstep
      · next hcall hv =>
          split_ifs at hstep with hkey
          cases hstep
          exact .visit hcall hv hkey
      · cases hstep
  | finish =>
      simp only [stepCall] at hstep
      split at hstep
      · next hcall =>
          split_ifs at hstep with hdue
          cases hstep
          exact .finish hcall hdue
      · cases hstep
  | addReader =>
      simp only [stepCall] at hstep
      split at hstep
      · next hcall =>
          cases hstep
          exact .addReader hcall
      · next hcall =>
          cases hstep
          exact .addOld hcall
      · cases hstep

/-- What a step of `TransStart` can be. -/
inductive LoopStep (clients : Clients) (s : Republish) : LoopEvent → Republish → Prop
  | check (hloop : s.loop = .checking) :
      LoopStep clients s .check { s with loop := if s.old.isStart then .reading else .closing false }
  | read (hloop : s.loop = .reading) : LoopStep clients s .read { s with loop := .checking }
  | fail (hloop : s.loop = .reading) : LoopStep clients s .fail { s with loop := .closing true }
  | begin {failed : Bool} (hloop : s.loop = .closing failed) :
      LoopStep clients s .begin { s with loop := .ranging failed (SyncMap.Range.start s.old.ws) }
  | visit {failed : Bool} {key : String} {range : SyncMap.Range String} {v : PackWriterCloser}
      (hloop : s.loop = .ranging failed range) (hv : s.old.ws.lookup key = some v) (hkey : key ∉ range.visited) :
      LoopStep clients s (.visit key) { s with loop := .closingWriter failed key v (range.visit key) }
  | close {failed : Bool} {key : String} {v : PackWriterCloser} {range : SyncMap.Range String}
      (hloop : s.loop = .closingWriter failed key v range) :
      LoopStep clients s .close { s with
        closed := Function.update s.closed v.w true
        loop := if (clients.writer v.w).inter then .deletingWriter failed key range else .ranging failed range }
  | delete {failed : Bool} {key : String} {range : SyncMap.Range String}
      (hloop : s.loop = .deletingWriter failed key range) :
      LoopStep clients s .delete { s with
        loop := .ranging failed range, old := { s.old with ws := s.old.ws.erase key }, call := s.call.drop key }
  | finish {failed : Bool} {range : SyncMap.Range String} (hloop : s.loop = .ranging failed range)
      (hdue : range.due = ∅) : LoopStep clients s .finish { s with loop := if failed then .stopping else .ended }
  | clear (hloop : s.loop = .stopping) :
      LoopStep clients s .clear { s with loop := .ended, old := { s.old with isStart := false } }

theorem loopStep {e : LoopEvent} (hstep : stepLoop clients s e = some t) : LoopStep clients s e t := by
  cases e with
  | visit key =>
      simp only [stepLoop] at hstep
      split at hstep
      · next hloop hv =>
          split_ifs at hstep with hkey
          cases hstep
          exact .visit hloop hv hkey
      · cases hstep
  | finish =>
      simp only [stepLoop] at hstep
      split at hstep
      · next failed range hloop =>
          by_cases hdue : range.due = ∅
          · rw [if_pos hdue] at hstep
            cases hstep
            exact .finish hloop hdue
          · rw [if_neg hdue] at hstep
            cases hstep
      · cases hstep
  | _ =>
      simp only [stepLoop] at hstep
      split at hstep
      · next hloop =>
          cases hstep
          constructor
          exact hloop
      · cases hstep

theorem Safe.stepCall {e : CallEvent} (h : Safe clients r s w) (hstep : stepCall clients r s e = some t) :
    Safe clients r t w := by
  have hplaced := h.placed
  unfold Placed at hplaced
  cases callStep hstep with
  | transStop hcall =>
      rw [hcall] at hplaced
      exact ⟨h.publisher, h.keyed, h.unclosed, h.spared, hplaced⟩
  | choose hcall hid =>
      rw [hcall] at hplaced
      exact ⟨h.publisher, h.keyed, h.unclosed, h.spared, hplaced⟩
  | keep hcall hid => exact absurd h.publisher hid
  | begin hcall =>
      rw [hcall] at hplaced
      refine ⟨h.publisher, h.keyed, h.unclosed, h.spared, Or.inl ⟨?_, hplaced⟩⟩
      obtain ⟨v, hv, -⟩ := hplaced
      exact SyncMap.Range.mem_due_start.mpr (Finmap.mem_of_lookup_eq_some hv)
  | @visit key range v hcall hv hkey =>
      rw [hcall] at hplaced
      refine ⟨h.publisher, h.keyed, h.unclosed, h.spared, ?_⟩
      rcases hplaced with ⟨hdue, hattached⟩ | hadded
      · by_cases hkey : key = (clients.writer w).uid
        · subst hkey
          exact Or.inr (Or.inl (eq_of_lookup h.keyed hv))
        · exact Or.inl ⟨SyncMap.Range.mem_due_visit.mpr ⟨Ne.symm hkey, hdue⟩, hkey, hattached⟩
      · exact Or.inr (Or.inr hadded)
  | @delete key v range hcall =>
      rw [hcall] at hplaced
      refine ⟨h.publisher, Stream.Keyed.erase h.keyed key, h.unclosed, h.spared.drop key, ?_⟩
      rcases hplaced with ⟨hdue, hkey, hattached⟩ | hrest
      · exact Or.inl ⟨hdue, hattached.erase hkey⟩
      · exact Or.inr hrest
  | @add v range hcall =>
      rw [hcall] at hplaced
      refine ⟨h.publisher, h.keyed, h.unclosed, h.spared, ?_⟩
      rcases hplaced with hdue | hw | hadded
      · exact Or.inl hdue
      · subst hw
        exact Or.inr (added_addWriter s v.w)
      · exact Or.inr (hadded.addWriter v.w)
  | finish hcall hdue =>
      rw [hcall] at hplaced
      refine ⟨h.publisher, h.keyed, h.unclosed, h.spared, hplaced.resolve_left fun hdue' => ?_⟩
      rw [hdue] at hdue'
      exact Finset.notMem_empty _ hdue'.1
  | store hcall =>
      rw [hcall] at hplaced
      exact ⟨h.publisher, h.keyed, h.unclosed, h.spared, rfl, hplaced⟩
  | addReader hcall =>
      rw [hcall] at hplaced
      exact ⟨h.publisher, h.keyed, h.unclosed, h.spared, hplaced⟩
  | addOld hcall =>
      rw [hcall] at hplaced
      cases hplaced

/-- The loop does a player no harm unless `closeInter` comes to it. -/
theorem Safe.stepLoop {e : LoopEvent} (h : Safe clients r s w) (hvisit : e ≠ .visit (clients.writer w).uid)
    (hstep : stepLoop clients s e = some t) : Safe clients r t w := by
  have hspared := h.spared
  unfold Spared at hspared
  cases loopStep hstep with
  | check hloop =>
      refine ⟨h.publisher, h.keyed, h.unclosed, ?_, h.placed⟩
      unfold Spared
      cases s.old.isStart <;> trivial
  | @visit failed key range v hloop hv hfresh =>
      have hkey : key ≠ (clients.writer w).uid := fun heq => hvisit (congrArg LoopEvent.visit heq)
      refine ⟨h.publisher, h.keyed, h.unclosed, ⟨hkey, fun hw => hkey ?_⟩, h.placed⟩
      rw [← h.keyed key v hv, hw]
  | @close failed key v range hloop =>
      rw [hloop] at hspared
      obtain ⟨hkey, hw⟩ := hspared
      refine ⟨h.publisher, h.keyed, ?_, ?_, h.placed⟩
      · exact (Function.update_of_ne (Ne.symm hw) _ _).trans h.unclosed
      · unfold Spared
        cases (clients.writer v.w).inter with
        | true => exact hkey
        | false => trivial
  | @delete failed key range hloop =>
      rw [hloop] at hspared
      exact ⟨h.publisher, Stream.Keyed.erase h.keyed key, h.unclosed, trivial, h.placed.drop hspared⟩
  | @finish failed range hloop hdue =>
      refine ⟨h.publisher, h.keyed, h.unclosed, ?_, h.placed⟩
      unfold Spared
      cases failed <;> trivial
  | _ => exact ⟨h.publisher, h.keyed, h.unclosed, trivial, h.placed⟩

/-- The player is closed, or `closeInter` is about to close it. -/
def Doomed (s : Republish) (w : Nat) : Prop :=
  s.closed w = true ∨ ∃ failed key v range, s.loop = .closingWriter failed key v range ∧ v.w = w

/-- What `HandleReader` does outside itself and the new stream: at most an entry is deleted. -/
theorem stepCall_frame {e : CallEvent} (hstep : stepCall clients r s e = some t) :
    t.closed = s.closed ∧ (t.loop = s.loop ∧ t.old.ws = s.old.ws ∨
      ∃ key, t.loop = s.loop.drop key ∧ t.old.ws = s.old.ws.erase key) := by
  cases callStep hstep with
  | @delete key v range hcall => exact ⟨rfl, Or.inr ⟨key, rfl, rfl⟩⟩
  | _ => exact ⟨rfl, Or.inl ⟨rfl, rfl⟩⟩

/-- What the loop does outside itself: players are closed, and at most an entry is deleted. -/
theorem stepLoop_frame {e : LoopEvent} (hstep : stepLoop clients s e = some t) :
    (∀ w, s.closed w = true → t.closed w = true) ∧
      (t.old.ws = s.old.ws ∨ ∃ key, t.old.ws = s.old.ws.erase key) := by
  cases loopStep hstep with
  | close hloop =>
      refine ⟨fun w hclosed => ?_, Or.inl rfl⟩
      show Function.update s.closed _ true w = true
      rw [Function.update_apply]
      split_ifs
      · rfl
      · exact hclosed
  | @delete failed key range hloop => exact ⟨fun _ => id, Or.inr ⟨key, rfl⟩⟩
  | _ => exact ⟨fun _ => id, Or.inl rfl⟩

theorem Doomed.step {e : Event} (h : Doomed s w) (hstep : step clients r s e = some t) : Doomed t w := by
  cases e with
  | call e =>
      obtain ⟨hclosed, hloop⟩ := stepCall_frame hstep
      rcases h with h | ⟨failed, key, v, range, h, hw⟩
      · exact Or.inl (by rw [hclosed, h])
      · rcases hloop with ⟨hloop, -⟩ | ⟨key', hloop, -⟩
        · exact Or.inr ⟨failed, key, v, range, hloop.trans h, hw⟩
        · exact Or.inr ⟨failed, key, v, range.drop key', by rw [hloop, h, TransLoop.drop], hw⟩
  | loop e =>
      rcases h with h | ⟨failed, key, v, range, h, hw⟩
      · exact Or.inl ((stepLoop_frame hstep).1 w h)
      · cases e with
        | close =>
            simp only [Republish.step, stepLoop, h] at hstep
            cases hstep
            subst hw
            exact Or.inl (Function.update_self v.w true s.closed)
        | _ => simp [Republish.step, stepLoop, h] at hstep

/-- The writer map of the old stream stays keyed by the UIDs. -/
theorem keyed_step {e : Event} (h : s.old.Keyed clients) (hstep : step clients r s e = some t) :
    t.old.Keyed clients := by
  have hws : t.old.ws = s.old.ws ∨ ∃ key, t.old.ws = s.old.ws.erase key := by
    cases e with
    | call e => exact (stepCall_frame hstep).2.imp And.right fun ⟨key, _, hkey⟩ => ⟨key, hkey⟩
    | loop e => exact (stepLoop_frame hstep).2
  rcases hws with hws | ⟨key, hws⟩
  · intro uid v hv
    rw [hws] at hv
    exact h uid v hv
  · intro uid v hv
    rw [hws] at hv
    exact h.erase key uid v hv

/-- Once `closeInter` comes to a player, it is as good as closed. -/
theorem doomed_of_visit (h : s.old.Keyed clients)
    (hstep : step clients r s (.loop (.visit (clients.writer w).uid)) = some t) : Doomed t w := by
  have hloop : stepLoop clients s (.visit (clients.writer w).uid) = some t := hstep
  cases loopStep hloop with
  | @visit failed _ range v _ hv _ => exact Or.inr ⟨failed, _, v, _, rfl, eq_of_lookup h hv⟩

theorem Running.safe (h : Running clients r s) (hw : Attached clients s w) : Safe clients r s w := by
  have hunclosed : s.closed w = false := by
    obtain ⟨v, hv, rfl⟩ := hw
    exact h.healthy _ v hv
  refine ⟨h.publisher, h.keyed, hunclosed, ?_, ?_⟩
  · unfold Spared
    rcases h.loop with hloop | hloop <;> rw [hloop] <;> trivial
  · unfold Placed
    rw [h.call]
    exact hw

/-- A player is kept if and only if `closeInter` does not come to it. -/
theorem kept_iff {es : List Event} (h : Running clients r s) (hw : Attached clients s w)
    (hrun : run (step clients r) es s = some t) (hcall : t.call = .done) (hloop : t.loop = .ended) :
    Kept clients t w ↔ .loop (.visit (clients.writer w).uid) ∉ es := by
  constructor
  · rintro ⟨-, -, hclosed⟩ hmem
    obtain ⟨front, back, rfl⟩ := List.append_of_mem hmem
    obtain ⟨u, hfront, hrest⟩ := run_append.mp hrun
    obtain ⟨u', hstep, hback⟩ := run_cons.mp hrest
    have hkeyed : u.old.Keyed clients :=
      run_keeps (I := fun s => s.old.Keyed clients) (fun _ _ _ => keyed_step) h.keyed hfront
    have hdoomed : Doomed t w :=
      run_keeps (I := fun s => Doomed s w) (fun _ _ _ => Doomed.step) (doomed_of_visit hkeyed hstep) hback
    rcases hdoomed with hclosed' | ⟨failed, key, v, range, hloop', -⟩
    · rw [hclosed] at hclosed'
      cases hclosed'
    · rw [hloop] at hloop'
      cases hloop'
  · intro hvisit
    have hsafe : Safe clients r t w := by
      refine run_invariant (I := fun s => Safe clients r s w)
        (C := fun _ e => e ≠ Event.loop (.visit (clients.writer w).uid)) (fun s e t hs he hstep => ?_) (h.safe hw)
        (along_of_forall fun e he _ heq => hvisit (heq ▸ he)) hrun
      cases e with
      | call e => exact hs.stepCall hstep
      | loop e => exact hs.stepLoop (fun heq => he (congrArg Event.loop heq)) hstep
    have hplaced := hsafe.placed
    unfold Placed at hplaced
    rw [hcall] at hplaced
    exact ⟨hplaced.1, hplaced.2, hsafe.unclosed⟩

/-- When both have finished, every player is kept if and only if `closeInter` has come to none of them: `Copy` deleted
each entry before. -/
theorem republish_keeps_iff {es : List Event} (h : Running clients r s) (hrun : run (step clients r) es s = some t)
    (hcall : t.call = .done) (hloop : t.loop = .ended) :
    (∀ w, Attached clients s w → Kept clients t w) ↔
      ∀ w, Attached clients s w → .loop (.visit (clients.writer w).uid) ∉ es :=
  forall₂_congr fun _ hw => kept_iff h hw hrun hcall hloop

/-- Both calls of `Range` are sound, and the entry that a function has been called on is not due again. -/
structure Sound (s : Republish) : Prop where
  call : match s.call with
    | .ranging range => SyncMap.Range.Sound s.old.ws range
    | .deleting key _ range => SyncMap.Range.Sound s.old.ws range ∧ key ∉ range.due
    | .adding _ range => SyncMap.Range.Sound s.old.ws range
    | _ => True
  loop : match s.loop with
    | .ranging _ range => SyncMap.Range.Sound s.old.ws range
    | .closingWriter _ key _ range => SyncMap.Range.Sound s.old.ws range ∧ key ∉ range.due
    | .deletingWriter _ key range => SyncMap.Range.Sound s.old.ws range ∧ key ∉ range.due
    | _ => True

theorem Running.sound (h : Running clients r s) : Sound s := by
  refine ⟨?_, ?_⟩
  · rw [h.call]
    trivial
  · rcases h.loop with hloop | hloop <;> rw [hloop] <;> trivial

theorem Sound.stepCall {e : CallEvent} (h : Sound s) (hstep : stepCall clients r s e = some t) : Sound t := by
  obtain ⟨hsound, hsound'⟩ := h
  cases callStep hstep with
  | begin hcall => exact ⟨SyncMap.Range.sound_start _, hsound'⟩
  | @visit key range v hcall hv hkey =>
      rw [hcall] at hsound
      exact ⟨⟨hsound.visit key, SyncMap.Range.notMem_due_visit⟩, hsound'⟩
  | @delete key v range hcall =>
      rw [hcall] at hsound
      refine ⟨hsound.1.erase_of_notMem hsound.2, ?_⟩
      cases hloop : s.loop with
      | ranging failed range' =>
          rw [hloop] at hsound'
          exact hsound'.erase key
      | closingWriter failed key' v' range' =>
          rw [hloop] at hsound'
          exact ⟨hsound'.1.erase key, SyncMap.Range.notMem_due_drop hsound'.2⟩
      | deletingWriter failed key' range' =>
          rw [hloop] at hsound'
          exact ⟨hsound'.1.erase key, SyncMap.Range.notMem_due_drop hsound'.2⟩
      | _ => trivial
  | add hcall =>
      rw [hcall] at hsound
      exact ⟨hsound, hsound'⟩
  | _ => exact ⟨trivial, hsound'⟩

theorem Sound.stepLoop {e : LoopEvent} (h : Sound s) (hstep : stepLoop clients s e = some t) : Sound t := by
  obtain ⟨hsound, hsound'⟩ := h
  cases loopStep hstep with
  | check hloop =>
      refine ⟨hsound, ?_⟩
      cases s.old.isStart <;> trivial
  | begin hloop => exact ⟨hsound, SyncMap.Range.sound_start _⟩
  | @visit failed key range v hloop hv hkey =>
      rw [hloop] at hsound'
      exact ⟨hsound, hsound'.visit key, SyncMap.Range.notMem_due_visit⟩
  | @close failed key v range hloop =>
      rw [hloop] at hsound'
      refine ⟨hsound, ?_⟩
      cases (clients.writer v.w).inter with
      | true => exact hsound'
      | false => exact hsound'.1
  | @delete failed key range hloop =>
      rw [hloop] at hsound'
      refine ⟨?_, hsound'.1.erase_of_notMem hsound'.2⟩
      cases hcall : s.call with
      | ranging range' =>
          rw [hcall] at hsound
          exact hsound.erase key
      | deleting key' v range' =>
          rw [hcall] at hsound
          exact ⟨hsound.1.erase key, SyncMap.Range.notMem_due_drop hsound.2⟩
      | adding v range' =>
          rw [hcall] at hsound
          exact hsound.erase key
      | _ => trivial
  | @finish failed range hloop hdue =>
      refine ⟨hsound, ?_⟩
      cases failed <;> trivial
  | _ => exact ⟨hsound, trivial⟩

/-- A sound `Range` that has not come to its end finds an entry. -/
theorem exists_due {ws : SyncMap String PackWriterCloser} {range : SyncMap.Range String}
    (h : SyncMap.Range.Sound ws range) (hdue : range.due ≠ ∅) :
    ∃ key v, key ∉ range.visited ∧ ws.lookup key = some v := by
  obtain ⟨key, hkey⟩ := Finset.nonempty_iff_ne_empty.mpr hdue
  obtain ⟨v, hv⟩ := Finmap.mem_iff.mp (h.present key hkey)
  exact ⟨key, v, h.once key hkey, hv⟩

/-- Neither of the two is ever stuck. -/
theorem exists_step {es : List Event} (h : Running clients r s) (hrun : run (step clients r) es s = some t) :
    (t.call = .done ∨ ∃ e u, step clients r t (.call e) = some u) ∧
      (t.loop = .ended ∨ ∃ e u, step clients r t (.loop e) = some u) := by
  have hsound : Sound t := by
    refine run_keeps (I := Sound) (fun s e t hs hstep => ?_) h.sound hrun
    cases e with
    | call e => exact hs.stepCall hstep
    | loop e => exact hs.stepLoop hstep
  obtain ⟨hsound, hsound'⟩ := hsound
  constructor
  · cases hcall : t.call with
    | stopping => exact Or.inr ⟨.transStop, _, by rw [step, stepCall, hcall]⟩
    | choosing =>
        by_cases hid : t.old.iD clients ≠ emptyID ∧ t.old.iD clients ≠ (clients.reader r).uid
        · exact Or.inr ⟨.choose, _, by simp only [step, stepCall, hcall]; exact if_pos hid⟩
        · exact Or.inr ⟨.choose, _, by simp only [step, stepCall, hcall]; exact if_neg hid⟩
    | copying => exact Or.inr ⟨.begin, _, by rw [step, stepCall, hcall]⟩
    | ranging range =>
        rw [hcall] at hsound
        by_cases hdue : range.due = ∅
        · exact Or.inr ⟨.finish, _, by simp only [step, stepCall, hcall]; exact if_pos hdue⟩
        · obtain ⟨key, v, hkey, hv⟩ := exists_due hsound hdue
          exact Or.inr ⟨.visit key, _, by simp only [step, stepCall, hcall, hv]; exact if_pos hkey⟩
    | deleting key v range => exact Or.inr ⟨.delete, _, by rw [step, stepCall, hcall]⟩
    | adding v range => exact Or.inr ⟨.add, _, by rw [step, stepCall, hcall]⟩
    | storing => exact Or.inr ⟨.store, _, by rw [step, stepCall, hcall]⟩
    | addingReader => exact Or.inr ⟨.addReader, _, by rw [step, stepCall, hcall]⟩
    | keeping => exact Or.inr ⟨.addReader, _, by rw [step, stepCall, hcall]⟩
    | done => exact Or.inl rfl
  · cases hloop : t.loop with
    | checking => exact Or.inr ⟨.check, _, by rw [step, stepLoop, hloop]⟩
    | reading => exact Or.inr ⟨.fail, _, by rw [step, stepLoop, hloop]⟩
    | closing failed => exact Or.inr ⟨.begin, _, by rw [step, stepLoop, hloop]⟩
    | ranging failed range =>
        rw [hloop] at hsound'
        by_cases hdue : range.due = ∅
        · exact Or.inr ⟨.finish, _, by simp only [step, stepLoop, hloop]; exact if_pos hdue⟩
        · obtain ⟨key, v, hkey, hv⟩ := exists_due hsound' hdue
          exact Or.inr ⟨.visit key, _, by simp only [step, stepLoop, hloop, hv]; exact if_pos hkey⟩
    | closingWriter failed key v range => exact Or.inr ⟨.close, _, by rw [step, stepLoop, hloop]⟩
    | deletingWriter failed key range => exact Or.inr ⟨.delete, _, by rw [step, stepLoop, hloop]⟩
    | stopping => exact Or.inr ⟨.clear, _, by rw [step, stepLoop, hloop]⟩
    | ended => exact Or.inl rfl

open Subscriptions (sampleClients)

/-- A stream with one player. -/
def sampleStart : Republish :=
  { old := { isStart := true, r := some 0, ws := (∅ : SyncMap String PackWriterCloser).insert "w" { w := 0 } },
    loop := .reading }

theorem running_sampleStart : Running sampleClients 1 sampleStart := by
  refine ⟨rfl, ⟨by decide, by decide⟩, fun key v hv => ?_, fun _ _ _ => rfl, rfl, Or.inr rfl⟩
  rw [sampleStart, SyncMap.lookup_insert_eq] at hv
  split_ifs at hv with hkey
  · cases hv
    exact hkey.symm
  · simp at hv

/-- The loop is done before `Copy` begins: the player is closed, and is in the writer map of no stream. -/
theorem republish_loses_player :
    ∃ t, run (step sampleClients 1) [.call .transStop, .loop .fail, .loop .begin, .loop (.visit "w"), .loop .close,
        .loop .delete, .loop .finish, .loop .clear, .call .choose, .call .begin, .call .finish, .call .store,
        .call .addReader] sampleStart = some t ∧
      Running sampleClients 1 sampleStart ∧ Attached sampleClients sampleStart 0 ∧ t.call = .done ∧ t.loop = .ended ∧
      ¬ Added sampleClients t 0 ∧ t.closed 0 = true := by
  refine ⟨_, rfl, running_sampleStart, ⟨{ w := 0 }, rfl, rfl⟩, rfl, rfl, ?_, rfl⟩
  rintro ⟨v, hv, -⟩
  change none = some v at hv
  cases hv

/-- The loop finds nobody after `Copy`. -/
theorem republish_keeps_iff_sample :
    ∃ t, run (step sampleClients 1) [.call .transStop, .call .choose, .call .begin, .loop .fail, .call (.visit "w"),
        .call .delete, .loop .begin, .call .add, .loop .finish, .call .finish, .call .store, .loop .clear,
        .call .addReader] sampleStart = some t ∧
      ((∀ w, Attached sampleClients sampleStart w → Kept sampleClients t w) ↔
        ∀ w, Attached sampleClients sampleStart w → Event.loop (.visit (sampleClients.writer w).uid) ∉
          [.call .transStop, .call .choose, .call .begin, .loop .fail, .call (.visit "w"), .call .delete, .loop .begin,
            .call .add, .loop .finish, .call .finish, .call .store, .loop .clear, .call .addReader]) := by
  have hrun : ∃ t, run (step sampleClients 1) [.call .transStop, .call .choose, .call .begin, .loop .fail,
      .call (.visit "w"), .call .delete, .loop .begin, .call .add, .loop .finish, .call .finish, .call .store,
      .loop .clear, .call .addReader] sampleStart = some t := ⟨_, rfl⟩
  obtain ⟨t, ht⟩ := hrun
  refine ⟨t, ht, republish_keeps_iff running_sampleStart ht ?_ ?_⟩
  · cases ht
    rfl
  · cases ht
    rfl

end Republish

end Livego
