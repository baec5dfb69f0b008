import Livego.RtmpFanout

/-! Streams and their registry: a publisher is attached to the stream of its key, or to a new one to which the players
of the old stream are carried over; a player is attached to the stream of its key. -/

namespace Livego

structure Info where
  key : String
  uid : String
  inter : Bool := false
  deriving DecidableEq, Repr

/-- What the publishers and the players, which are known by number, are called. No two players have the same UID, since
each comes from `NewId`. -/
structure Clients where
  reader : Nat → Info
  writer : Nat → Info
  uid_injective : Function.Injective fun w => (writer w).uid

structure Stream where
  isStart : Bool := false
  r : Option Nat := none
  ws : SyncMap String PackWriterCloser := ∅

def emptyID : String := ""

variable (clients : Clients)

namespace Stream

def iD (s : Stream) : String :=
  match s.r with
  | some r => (clients.reader r).uid
  | none => emptyID

def addWriter (w : Nat) (s : Stream) : Stream := { s with ws := s.ws.insert (clients.writer w).uid { w := w } }

/-- `Copy` to a stream, with the keys in the order in which `Range` comes to them. -/
def copy : List String → Stream → Stream → Stream × Stream
  | [], s, dst => (s, dst)
  | key :: keys, s, dst =>
    match s.ws.lookup key with
    | none => copy keys s dst
    | some v => copy keys { s with ws := s.ws.erase key } (dst.addWriter clients v.w)

end Stream

/-- `RtmpStream`, with the streams that there are and the publishers that have been closed. A publisher's `TransStart`
is a goroutine of its own: those of `spawned` have not run yet. -/
structure RtmpStream where
  streams : SyncMap String Nat := ∅
  next : Nat := 0
  stream : Nat → Stream := fun _ => {}
  closed : Nat → Bool := fun _ => false
  spawned : List Nat := []

namespace RtmpStream

def set (i : Nat) (s : Stream) (rs : RtmpStream) : RtmpStream := { rs with stream := Function.update rs.stream i s }

@[simp] theorem streams_set (i : Nat) (s : Stream) (rs : RtmpStream) : (rs.set i s).streams = rs.streams := rfl
@[simp] theorem next_set (i : Nat) (s : Stream) (rs : RtmpStream) : (rs.set i s).next = rs.next := rfl
@[simp] theorem closed_set (i : Nat) (s : Stream) (rs : RtmpStream) : (rs.set i s).closed = rs.closed := rfl
@[simp] theorem spawned_set (i : Nat) (s : Stream) (rs : RtmpStream) : (rs.set i s).spawned = rs.spawned := rfl

theorem stream_set (i j : Nat) (s : Stream) (rs : RtmpStream) :
    (rs.set i s).stream j = if j = i then s else rs.stream j := Function.update_apply ..

@[simp] theorem stream_set_self (i : Nat) (s : Stream) (rs : RtmpStream) : (rs.set i s).stream i = s :=
  (stream_set i i s rs).trans (if_pos rfl)

def close (r : Nat) (rs : RtmpStream) : RtmpStream := { rs with closed := Function.update rs.closed r true }

/-- `NewStream`, which is the `next`-th. -/
def newStream (rs : RtmpStream) : RtmpStream := { rs.set rs.next {} with next := rs.next + 1 }

/-- `Store` of a stream under a key. -/
def store (key : String) (i : Nat) (rs : RtmpStream) : RtmpStream := { rs with streams := rs.streams.insert key i }

/-- The publisher of a stream is closed if its `TransStart` has begun. -/
def closeStarted (i : Nat) (rs : RtmpStream) : RtmpStream :=
  match (rs.stream i).r, (rs.stream i).isStart with
  | some r, true => rs.close r
  | _, _ => rs

def transStop (i : Nat) (rs : RtmpStream) : RtmpStream :=
  let s := rs.stream i
  (rs.closeStarted i).set i { s with isStart := false }

def copy (order : List String) (i j : Nat) (rs : RtmpStream) : RtmpStream :=
  let (s, dst) := Stream.copy clients order (rs.stream i) (rs.stream j)
  (rs.set i s).set j dst

def addReader (r i : Nat) (rs : RtmpStream) : RtmpStream :=
  let s := rs.stream i
  { rs.set i { s with r := some r } with spawned := i :: rs.spawned }

/-- The first thing that `TransStart` does. -/
def transStart (i : Nat) (rs : RtmpStream) : RtmpStream :=
  let s := rs.stream i
  { rs.set i { s with isStart := true } with spawned := rs.spawned.erase i }

/-- Whether `HandleReader` carries the players over to a new stream. -/
def replaces (r i : Nat) (rs : RtmpStream) : Bool :=
  let id := (rs.stream i).iD clients
  id ≠ emptyID ∧ id ≠ (clients.reader r).uid

/-- `HandleReader`, where nothing comes in between. -/
def handleReader (r : Nat) (order : List String) (rs : RtmpStream) : RtmpStream :=
  let info := clients.reader r
  match rs.streams.lookup info.key with
  | some i =>
    let rs := rs.transStop i
    if rs.replaces clients r i then
      let ns := rs.next
      (((rs.newStream.copy clients order i ns).store info.key ns).addReader r ns)
    else rs.addReader r i
  | none =>
    let s := rs.next
    (rs.newStream.store info.key s).addReader r s

def handleWriter (w : Nat) (rs : RtmpStream) : RtmpStream :=
  let info := clients.writer w
  match rs.streams.lookup info.key with
  | none => rs.newStream.store info.key rs.next
  | some i => rs.set i ((rs.stream i).addWriter clients w)

end RtmpStream

/-! ### What carrying over leaves -/

variable {clients} {s dst : Stream}

/-- Entries are kept under the UIDs of their players. -/
def Stream.Keyed (clients : Clients) (s : Stream) : Prop :=
  ∀ key v, s.ws.lookup key = some v → (clients.writer v.w).uid = key

theorem Stream.keyed_empty : Stream.Keyed clients {} := fun _ _ hv => by simp at hv

theorem Stream.Keyed.addWriter (h : s.Keyed clients) (w : Nat) : (s.addWriter clients w).Keyed clients := by
  intro key v hv
  rw [Stream.addWriter, SyncMap.lookup_insert_eq] at hv
  split_ifs at hv with hkey
  · cases hv
    exact hkey.symm
  · exact h key v hv

theorem Stream.Keyed.erase (h : s.Keyed clients) (key : String) :
    Stream.Keyed clients { s with ws := s.ws.erase key } := by
  intro key' v hv
  rw [SyncMap.lookup_erase_eq] at hv
  split_ifs at hv
  exact h key' v hv

theorem Stream.keyed_copy (order : List String) (hs : s.Keyed clients) (hdst : dst.Keyed clients) :
    (Stream.copy clients order s dst).1.Keyed clients ∧ (Stream.copy clients order s dst).2.Keyed clients := by
  induction order generalizing s dst with
  | nil => exact ⟨hs, hdst⟩
  | cons key keys ih =>
      rw [Stream.copy]
      cases hv : s.ws.lookup key with
      | none => exact ih hs hdst
      | some v => exact ih (hs.erase key) (hdst.addWriter v.w)

/-- Every entry that `Range` comes to is carried over. -/
theorem Stream.lookup_copy (order : List String) (hs : s.Keyed clients) (key : String) :
    (Stream.copy clients order s dst).2.ws.lookup key =
      if key ∈ order then ((s.ws.lookup key).map fun v => { w := v.w }).or (dst.ws.lookup key)
      else dst.ws.lookup key := by
  induction order generalizing s dst with
  | nil => rfl
  | cons key' keys ih =>
      rw [Stream.copy]
      cases hv : s.ws.lookup key' with
      | none =>
          simp only [ih hs, List.mem_cons]
          by_cases hkey : key = key'
          · subst hkey
            simp [hv]
          · simp [hkey]
      | some v =>
          have huid := hs key' v hv
          simp only [ih (hs.erase key'), List.mem_cons, Stream.addWriter, SyncMap.lookup_insert_eq,
            SyncMap.lookup_erase_eq, huid]
          by_cases hkey : key = key'
          · subst hkey
            simp [hv]
          · simp [hkey]

/-- Carrying over changes the writer maps alone. -/
theorem Stream.copy_fields (order : List String) (s dst : Stream) :
    (Stream.copy clients order s dst).1.r = s.r ∧ (Stream.copy clients order s dst).1.isStart = s.isStart ∧
      (Stream.copy clients order s dst).2.r = dst.r ∧ (Stream.copy clients order s dst).2.isStart = dst.isStart := by
  induction order generalizing s dst with
  | nil => exact ⟨rfl, rfl, rfl, rfl⟩
  | cons key keys ih =>
      rw [Stream.copy]
      cases s.ws.lookup key with
      | none => exact ih s dst
      | some v => exact ih _ _

/-! ### What the calls leave in the registry -/

namespace RtmpStream

variable {rs : RtmpStream}

theorem closeStarted_fields (i : Nat) (rs : RtmpStream) :
    (rs.closeStarted i).streams = rs.streams ∧ (rs.closeStarted i).next = rs.next ∧
      (rs.closeStarted i).stream = rs.stream ∧ (rs.closeStarted i).spawned = rs.spawned := by
  unfold closeStarted
  split <;> exact ⟨rfl, rfl, rfl, rfl⟩

theorem streams_transStop (i : Nat) (rs : RtmpStream) : (rs.transStop i).streams = rs.streams :=
  (closeStarted_fields i rs).1

theorem next_transStop (i : Nat) (rs : RtmpStream) : (rs.transStop i).next = rs.next := (closeStarted_fields i rs).2.1

theorem stream_transStop (i j : Nat) (rs : RtmpStream) :
    (rs.transStop i).stream j = if j = i then { rs.stream i with isStart := false } else rs.stream j := by
  rw [transStop, stream_set, (closeStarted_fields i rs).2.2.1]

theorem stream_newStream (j : Nat) (rs : RtmpStream) :
    rs.newStream.stream j = if j = rs.next then {} else rs.stream j := stream_set rs.next j {} rs

theorem stream_addReader (r i j : Nat) (rs : RtmpStream) :
    (rs.addReader r i).stream j = if j = i then { rs.stream i with r := some r } else rs.stream j :=
  stream_set i j { rs.stream i with r := some r } rs

theorem stream_copy (order : List String) (i j k : Nat) (rs : RtmpStream) :
    (rs.copy clients order i j).stream k =
      if k = j then (Stream.copy clients order (rs.stream i) (rs.stream j)).2
      else if k = i then (Stream.copy clients order (rs.stream i) (rs.stream j)).1 else rs.stream k := by
  rw [copy, stream_set, stream_set]

/-- Every key has a stream of its own, and entries are where they belong. -/
structure Ordered (clients : Clients) (rs : RtmpStream) : Prop where
  bound : ∀ key i, rs.streams.lookup key = some i → i < rs.next
  apart : ∀ key key' i, rs.streams.lookup key = some i → rs.streams.lookup key' = some i → key = key'
  keyed : ∀ i, (rs.stream i).Keyed clients

theorem ordered_init (clients : Clients) : Ordered clients {} :=
  ⟨fun _ _ h => by simp at h, fun _ _ _ h => by simp at h, fun _ => Stream.keyed_empty⟩

/-- A change of streams that leaves the registry. -/
theorem Ordered.of_streams {rs' : RtmpStream} (h : Ordered clients rs) (hstreams : rs'.streams = rs.streams)
    (hnext : rs.next ≤ rs'.next) (hkeyed : ∀ i, (rs'.stream i).Keyed clients) : Ordered clients rs' :=
  ⟨fun key i hi => (h.bound key i (hstreams ▸ hi)).trans_le hnext,
    fun key key' i hi hi' => h.apart key key' i (hstreams ▸ hi) (hstreams ▸ hi'), hkeyed⟩

/-- A stream that is registered nowhere is stored. -/
theorem Ordered.store (h : Ordered clients rs) (key : String) {i : Nat} (hi : i < rs.next)
    (hnew : ∀ key', rs.streams.lookup key' ≠ some i) : Ordered clients (rs.store key i) := by
  refine ⟨fun key' j hj => ?_, fun key₁ key₂ j h₁ h₂ => ?_, h.keyed⟩
  · rw [RtmpStream.store, SyncMap.lookup_insert_eq] at hj
    split_ifs at hj
    · cases hj
      exact hi
    · exact h.bound key' j hj
  · rw [RtmpStream.store, SyncMap.lookup_insert_eq] at h₁ h₂
    split_ifs at h₁ h₂ with hkey₁ hkey₂ hkey₂
    · exact hkey₁.trans hkey₂.symm
    · cases h₁
      exact absurd h₂ (hnew key₂)
    · cases h₂
      exact absurd h₁ (hnew key₁)
    · exact h.apart key₁ key₂ j h₁ h₂

theorem Ordered.transStop (h : Ordered clients rs) (i : Nat) : Ordered clients (rs.transStop i) := by
  refine h.of_streams (streams_transStop i rs) (next_transStop i rs).ge fun j => ?_
  rw [stream_transStop]
  split_ifs
  · exact h.keyed i
  · exact h.keyed j

theorem Ordered.newStream (h : Ordered clients rs) : Ordered clients rs.newStream := by
  refine h.of_streams rfl (Nat.le_succ _) fun j => ?_
  rw [stream_newStream]
  split_ifs
  · exact Stream.keyed_empty
  · exact h.keyed j

theorem Ordered.addReader (h : Ordered clients rs) (r i : Nat) : Ordered clients (rs.addReader r i) := by
  refine h.of_streams rfl le_rfl fun j => ?_
  rw [stream_addReader]
  split_ifs
  · exact h.keyed i
  · exact h.keyed j

theorem Ordered.copy (h : Ordered clients rs) (order : List String) (i j : Nat) :
    Ordered clients (rs.copy clients order i j) := by
  refine h.of_streams rfl le_rfl fun k => ?_
  rw [stream_copy]
  split_ifs
  · exact (Stream.keyed_copy order (h.keyed i) (h.keyed j)).2
  · exact (Stream.keyed_copy order (h.keyed i) (h.keyed j)).1
  · exact h.keyed k

theorem Ordered.new_ne (h : Ordered clients rs) (key : String) : rs.newStream.streams.lookup key ≠ some rs.next :=
  fun hkey => Nat.lt_irrefl _ (h.bound key rs.next hkey)

end RtmpStream

end Livego
