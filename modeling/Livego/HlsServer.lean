import Livego.AvPacket
import Livego.Machine
import Livego.SyncMap

/-! The sources of the hls server: the table from which publishers get them, and the check that takes them out of it. A
publisher that comes back finds the source that it closed when it left, until the check has seen it idle for long. -/

namespace Livego

open Machine

namespace Hls

/-- A source as the server and the publishers see it, with the packets that `Write` has taken; what its sender does is
left out. Times are in nanoseconds. -/
structure Handle where
  key : Bytes
  preTime : Nat
  closed : Bool := false
  /-- Whether there is a playlist; `cleanup` sets it to nil. -/
  tsCache : Bool := true
  taken : List AvPacket := []
  deriving DecidableEq

namespace Handle

def timeout : Nat := 10 * 1000000000

def alive (now : Nat) (source : Handle) : Bool := !(now - source.preTime ≥ timeout)

/-- The queue that the packet goes to is left out. -/
def write (p : AvPacket) (now : Nat) (source : Handle) : Except GoError Handle :=
  if source.closed then .error (.errorf "hls source closed")
  else .ok { source with preTime := now, taken := source.taken ++ [p] }

def cleanup (source : Handle) : Handle := { source with tsCache := false }

def close (hlsKeepAfterEnd : Bool) (source : Handle) : Handle :=
  let source := if !source.closed && !hlsKeepAfterEnd then source.cleanup else source
  { source with closed := true }

end Handle

/-- The server, with all the sources that it has made; the table has their numbers. -/
structure Server where
  conns : SyncMap Bytes Nat := ∅
  sources : List Handle := []

namespace Server

def getWriter (key : Bytes) (now : Nat) (server : Server) : Nat × Server :=
  match server.conns.lookup key with
  | some s => (s, server)
  | none =>
    let s := server.sources.length
    (s, { conns := server.conns.insert key s, sources := server.sources ++ [{ key, preTime := now }] })

def getConn (key : Bytes) (server : Server) : Option Nat := server.conns.lookup key

/-- The source whose playlist `handle` serves for a key. -/
def playlist (key : Bytes) (server : Server) : Option Nat :=
  (server.getConn key).filter fun conn => server.sources[conn]?.any Handle.tsCache

/-- What `checkStop` does with an entry that it comes to. -/
def checkEntry (hlsKeepAfterEnd : Bool) (key : Bytes) (v : Nat) (now : Nat) (server : Server) : Server :=
  if server.sources[v]?.any (fun source => !source.alive now) && !hlsKeepAfterEnd then
    { server with conns := server.conns.erase key }
  else server

/-- A source that has not been closed. -/
def Open (server : Server) (i : Nat) : Prop := ∃ source, server.sources[i]? = some source ∧ source.closed = false

/-- A call of a method of the source. -/
def onSource (i : Nat) (f : Handle → Handle) (server : Server) : Server :=
  { server with sources := server.sources.modify i f }

end Server

/-- The server and its publishers, each with its key and the source that it was handed, and who is publishing a key. -/
structure Publishing where
  server : Server := {}
  publishers : List (Bytes × Nat) := []
  current : Bytes → Option Nat := fun _ => none

namespace Publishing

/-- A publisher comes and gets a source, writes a packet to it, or leaves and closes it; `checkStop` comes to the entry
of a key. -/
inductive Event where
  | publish (key : Bytes) (now : Nat)
  | write (n : Nat) (p : AvPacket) (now : Nat)
  | leave (n : Nat)
  | check (key : Bytes) (now : Nat)

def step (s : Publishing) : Event → Option Publishing
  | .publish key now =>
    let (i, server) := s.server.getWriter key now
    some { server, publishers := s.publishers ++ [(key, i)],
           current := Function.update s.current key (some s.publishers.length) }
  | .write n p now => s.publishers[n]?.map fun x =>
    { s with server := s.server.onSource x.2 fun source => (source.write p now).toOption.getD source }
  | .leave n => s.publishers[n]?.map fun x =>
    { s with server := s.server.onSource x.2 (Handle.close false),
             current := if s.current x.1 = some n then Function.update s.current x.1 none else s.current }
  | .check key now => (s.server.conns.lookup key).map fun v =>
    { s with server := s.server.checkEntry false key v now }

/-- The source of a publisher takes packets, and its playlist is the one that is served. -/
def Works (s : Publishing) (key : Bytes) (n : Nat) : Prop :=
  ∃ i source, s.publishers[n]? = some (key, i) ∧ s.server.sources[i]? = some source ∧
    s.server.playlist key = some i ∧ ∀ p now, ∃ source', source.write p now = .ok source'

def Working (s : Publishing) : Prop := ∀ key n, s.current key = some n → s.Works key n

structure Sound (s : Publishing) : Prop where
  handed : ∀ x ∈ s.publishers, x.2 < s.server.sources.length
  registered : ∀ key i, s.server.conns.lookup key = some i → i < s.server.sources.length
  tsCache : ∀ source ∈ s.server.sources, source.closed = false → source.tsCache = true
  current : ∀ key n, s.current key = some n → ∃ i, s.publishers[n]? = some (key, i)

/-- The registered source of the key is not closed when a publisher comes, nobody else publishes to the source of
one that leaves, and the check does not come to a publisher that has been idle for long. -/
def Spares (s : Publishing) : Event → Prop
  | .publish key _ => ∀ i, s.server.conns.lookup key = some i → s.server.Open i
  | .write _ _ _ => True
  | .leave n => ∀ x key m, s.publishers[n]? = some x → s.current key = some m → m ≠ n → s.publishers[m]? ≠ some (key, x.2)
  | .check key now => ∀ n i source, s.current key = some n → s.server.conns.lookup key = some i →
    s.server.sources[i]? = some source → source.alive now = true

variable {s t : Publishing} {e : Event} {key : Bytes} {source : Handle} {n m i : Nat}

theorem write_eq_ok {source : Handle} :
    (∀ p now, ∃ source', source.write p now = .ok source') ↔ source.closed = false := by
  constructor
  · intro h
    obtain ⟨source', hwrite⟩ := h {} 0
    unfold Handle.write at hwrite
    split_ifs at hwrite with hclosed
    exact Bool.eq_false_of_not_eq_true hclosed
  · intro hclosed p now
    exact ⟨_, if_neg (by rw [hclosed]; exact Bool.false_ne_true)⟩

/-- What there is to a publisher whose source works. -/
structure Serves (s : Publishing) (key : Bytes) (n i : Nat) : Prop where
  publisher : s.publishers[n]? = some (key, i)
  conn : s.server.conns.lookup key = some i
  isOpen : s.server.Open i

theorem Sound.works_iff_serves (h : Sound s) : s.Works key n ↔ ∃ i, s.Serves key n i := by
  constructor
  · rintro ⟨i, source, hpublisher, hsource, hplaylist, hwrite⟩
    exact ⟨i, hpublisher, (Option.filter_eq_some_iff.mp hplaylist).1, source, hsource, write_eq_ok.mp hwrite⟩
  · rintro ⟨i, hpublisher, hconn, source, hsource, hclosed⟩
    refine ⟨i, source, hpublisher, hsource, Option.filter_eq_some_iff.mpr ⟨hconn, ?_⟩, write_eq_ok.mpr hclosed⟩
    rw [hsource]
    exact h.tsCache source (List.mem_of_getElem? hsource) hclosed

theorem Sound.working_iff (h : Sound s) :
    Working s ↔ ∀ key n, s.current key = some n → ∃ i, s.Serves key n i := by
  simp only [Working, h.works_iff_serves]

/-! ### What a step does -/

def handOut (key : Bytes) (i : Nat) (server : Server) (s : Publishing) : Publishing where
  server := server
  publishers := s.publishers ++ [(key, i)]
  current := Function.update s.current key (some s.publishers.length)

inductive Does (s : Publishing) : Event → Publishing → Prop where
  | found {key : Bytes} {now i : Nat} (hconn : s.server.conns.lookup key = some i) :
      Does s (.publish key now) (s.handOut key i s.server)
  | made {key : Bytes} {now : Nat} (hconn : s.server.conns.lookup key = none) :
      Does s (.publish key now) (s.handOut key s.server.sources.length
        { conns := s.server.conns.insert key s.server.sources.length
          sources := s.server.sources ++ [{ key, preTime := now }] })
  | write {n now i : Nat} {p : AvPacket} {key : Bytes} (hpublisher : s.publishers[n]? = some (key, i)) :
      Does s (.write n p now) { s with
        server := s.server.onSource i fun source => (source.write p now).toOption.getD source }
  | leave {n i : Nat} {key : Bytes} (hpublisher : s.publishers[n]? = some (key, i)) :
      Does s (.leave n) { s with
        server := s.server.onSource i (Handle.close false)
        current := if s.current key = some n then Function.update s.current key none else s.current }
  | removed {key : Bytes} {now i : Nat} {source : Handle} (hconn : s.server.conns.lookup key = some i)
      (hsource : s.server.sources[i]? = some source) (hidle : source.alive now = false) :
      Does s (.check key now) { s with server := { s.server with conns := s.server.conns.erase key } }
  | kept {key : Bytes} {now i : Nat} (hconn : s.server.conns.lookup key = some i)
      (halive : ∀ source, s.server.sources[i]? = some source → source.alive now = true) : Does s (.check key now) s

theorem does_of_step (h : step s e = some t) : Does s e t := by
  cases e with
  | publish key now =>
      cases hconn : s.server.conns.lookup key with
      | some i =>
          simp only [step, Server.getWriter, hconn] at h
          cases h
          exact .found hconn
      | none =>
          simp only [step, Server.getWriter, hconn] at h
          cases h
          exact .made hconn
  | write n p now =>
      obtain ⟨⟨key, i⟩, hpublisher, rfl⟩ := Option.map_eq_some_iff.mp h
      exact .write hpublisher
  | leave n =>
      obtain ⟨⟨key, i⟩, hpublisher, rfl⟩ := Option.map_eq_some_iff.mp h
      exact .leave hpublisher
  | check key now =>
      obtain ⟨i, hconn, rfl⟩ := Option.map_eq_some_iff.mp h
      unfold Server.checkEntry
      cases hsource : s.server.sources[i]? with
      | none =>
          rw [if_neg (by simp)]
          exact .kept hconn (by simp [hsource])
      | some source =>
          cases halive : source.alive now with
          | false =>
              rw [if_pos (by simp [halive])]
              exact .removed hconn hsource halive
          | true =>
              rw [if_neg (by simp [halive])]
              exact .kept hconn (by simp [hsource, halive])

/-! ### Sources -/

theorem getElem?_onSource (server : Server) (i j : Nat) (f : Handle → Handle) :
    (server.onSource i f).sources[j]? = (server.sources[j]?).map fun source => if i = j then f source else source :=
  List.getElem?_modify f i server.sources j

theorem length_onSource (server : Server) (i : Nat) (f : Handle → Handle) :
    (server.onSource i f).sources.length = server.sources.length := List.length_modify f server.sources i

/-- `Write` leaves a source closed, or open with its playlist. -/
theorem write_fields (source : Handle) (p : AvPacket) (now : Nat) :
    ((source.write p now).toOption.getD source).closed = source.closed ∧
      ((source.write p now).toOption.getD source).tsCache = source.tsCache := by
  unfold Handle.write
  split_ifs
  · exact ⟨rfl, rfl⟩
  · exact ⟨rfl, rfl⟩

theorem mem_onSource {server : Server} {f : Handle → Handle} {source : Handle}
    (h : source ∈ (server.onSource i f).sources) :
    source ∈ server.sources ∨ ∃ old ∈ server.sources, source = f old := by
  obtain ⟨j, hj⟩ := List.mem_iff_getElem?.mp h
  rw [getElem?_onSource] at hj
  obtain ⟨old, hold, rfl⟩ := Option.map_eq_some_iff.mp hj
  have hmem := List.mem_of_getElem? hold
  split_ifs
  · exact Or.inr ⟨old, hmem, rfl⟩
  · exact Or.inl hmem

theorem open_onSource {server : Server} {j : Nat} {f : Handle → Handle} :
    (server.onSource j f).Open i ↔
      ∃ source, server.sources[i]? = some source ∧ (if j = i then f source else source).closed = false := by
  unfold Server.Open
  rw [getElem?_onSource]
  constructor
  · rintro ⟨source, hsource, hclosed⟩
    obtain ⟨old, hold, rfl⟩ := Option.map_eq_some_iff.mp hsource
    exact ⟨old, hold, hclosed⟩
  · rintro ⟨source, hsource, hclosed⟩
    exact ⟨_, Option.map_eq_some_iff.mpr ⟨source, hsource, rfl⟩, hclosed⟩

theorem open_append {server : Server} (h : server.Open i) (conns : SyncMap Bytes Nat) (source : Handle) :
    Server.Open ⟨conns, server.sources ++ [source]⟩ i := by
  obtain ⟨old, hold, hclosed⟩ := h
  exact ⟨old, (List.getElem?_append_left (List.getElem?_eq_some_iff.mp hold).1).trans hold, hclosed⟩

/-! ### Publishers -/

variable {key' : Bytes} {server : Server}

theorem current_handOut (h : (s.handOut key i server).current key' = some n) :
    key' = key ∧ n = s.publishers.length ∨ key' ≠ key ∧ s.current key' = some n := by
  change Function.update s.current key (some s.publishers.length) key' = some n at h
  by_cases hkey : key' = key
  · rw [hkey, Function.update_self] at h
    exact Or.inl ⟨hkey, (Option.some.inj h).symm⟩
  · rw [Function.update_of_ne hkey] at h
    exact Or.inr ⟨hkey, h⟩

theorem publishers_handOut_new : (s.handOut key i server).publishers[s.publishers.length]? = some (key, i) :=
  List.getElem?_concat_length

theorem publishers_handOut_old {x : Bytes × Nat} (h : s.publishers[n]? = some x) :
    (s.handOut key i server).publishers[n]? = some x := by
  have hlt := (List.getElem?_eq_some_iff.mp h).1
  exact (List.getElem?_append_left hlt).trans h

theorem Sound.current_handOut (h : Sound s) (hcurrent : (s.handOut key i server).current key' = some n) :
    ∃ i', (s.handOut key i server).publishers[n]? = some (key', i') := by
  rcases Publishing.current_handOut hcurrent with ⟨rfl, rfl⟩ | ⟨-, hcurrent⟩
  · exact ⟨i, publishers_handOut_new⟩
  · obtain ⟨i', hpublisher⟩ := h.current key' n hcurrent
    exact ⟨i', publishers_handOut_old hpublisher⟩

/-- Who leaves is not current any more. -/
theorem current_leave (h : (if s.current key = some n then Function.update s.current key none else s.current) key' =
    some m) : s.current key' = some m ∧ (key' = key → m ≠ n) := by
  split_ifs at h with hcurrent
  · by_cases hkey : key' = key
    · rw [hkey, Function.update_self] at h
      cases h
    · rw [Function.update_of_ne hkey] at h
      exact ⟨h, fun heq => absurd heq hkey⟩
  · refine ⟨h, ?_⟩
    rintro rfl rfl
    exact hcurrent h

theorem sound_step (h : Sound s) (hstep : step s e = some t) : Sound t := by
  cases does_of_step hstep with
  | @found key now i hconn =>
      refine ⟨?_, h.registered, h.tsCache, fun key n hcurrent => h.current_handOut hcurrent⟩
      exact List.forall_mem_append.mpr ⟨h.handed, List.forall_mem_singleton.mpr (h.registered key i hconn)⟩
  | @made key now hconn =>
      refine ⟨?_, ?_, ?_, fun key n hcurrent => h.current_handOut hcurrent⟩
      · refine List.forall_mem_append.mpr ⟨fun x hx => ?_, List.forall_mem_singleton.mpr ?_⟩
        · exact (h.handed x hx).trans_le (by simp [handOut])
        · simp [handOut]
      · intro key' i hlookup
        change (s.server.conns.insert key s.server.sources.length).lookup key' = some i at hlookup
        rw [SyncMap.lookup_insert_eq] at hlookup
        show i < (s.server.sources ++ [_]).length
        rw [List.length_append, List.length_singleton]
        split_ifs at hlookup
        · cases hlookup
          exact Nat.lt_succ_self _
        · exact Nat.lt_succ_of_lt (h.registered key' i hlookup)
      · exact List.forall_mem_append.mpr ⟨h.tsCache, List.forall_mem_singleton.mpr fun _ => rfl⟩
  | @write n now i p key hpublisher =>
      refine ⟨?_, ?_, ?_, h.current⟩
      · simpa only [length_onSource] using h.handed
      · intro key' j hlookup
        rw [length_onSource]
        exact h.registered key' j hlookup
      · intro source hsource hclosed
        rcases mem_onSource hsource with hmem | ⟨old, hmem, rfl⟩
        · exact h.tsCache source hmem hclosed
        · rw [(write_fields old p now).1] at hclosed
          rw [(write_fields old p now).2]
          exact h.tsCache old hmem hclosed
  | @leave n i key hpublisher =>
      refine ⟨?_, ?_, ?_, fun key' m hcurrent => h.current key' m (current_leave hcurrent).1⟩
      · simpa only [length_onSource] using h.handed
      · intro key' j hlookup
        rw [length_onSource]
        exact h.registered key' j hlookup
      · intro source hsource hclosed
        rcases mem_onSource hsource with hmem | ⟨old, hmem, rfl⟩
        · exact h.tsCache source hmem hclosed
        · cases hclosed
  | @removed key now i source hconn hsource hidle =>
      refine ⟨h.handed, fun key' i hlookup => ?_, h.tsCache, h.current⟩
      change (s.server.conns.erase key).lookup key' = some i at hlookup
      rw [SyncMap.lookup_erase_eq] at hlookup
      split_ifs at hlookup
      exact h.registered key' i hlookup
  | kept => exact h

/-- From a state in which all works a step leads to one in which all works exactly if it spares the publishers. -/
theorem working_step (h : Sound s) (hw : Working s) (hstep : step s e = some t) : Working t ↔ Spares s e := by
  have ht := sound_step h hstep
  have hs := h.working_iff.mp hw
  rw [ht.working_iff]
  cases does_of_step hstep with
  | @found key now i hconn =>
      constructor
      · intro hall j hj
        obtain ⟨i', hserves⟩ := hall key s.publishers.length (Function.update_self ..)
        have hpublisher := publishers_handOut_new.symm.trans hserves.publisher
        rw [hconn] at hj
        cases hj
        cases hpublisher
        exact hserves.isOpen
      · intro hopen key' n hcurrent
        rcases current_handOut hcurrent with ⟨rfl, rfl⟩ | ⟨hne, hcurrent⟩
        · exact ⟨i, publishers_handOut_new, hconn, hopen i hconn⟩
        · obtain ⟨j, hserves⟩ := hs key' n hcurrent
          exact ⟨j, publishers_handOut_old hserves.publisher, hserves.conn, hserves.isOpen⟩
  | @made key now hconn =>
      constructor
      · intro _ j hj
        rw [hconn] at hj
        cases hj
      · intro _ key' n hcurrent
        rcases current_handOut hcurrent with ⟨rfl, rfl⟩ | ⟨hne, hcurrent⟩
        · refine ⟨s.server.sources.length, publishers_handOut_new, Finmap.lookup_insert _, ?_⟩
          exact ⟨_, List.getElem?_concat_length, rfl⟩
        · obtain ⟨j, hserves⟩ := hs key' n hcurrent
          exact ⟨j, publishers_handOut_old hserves.publisher,
            (Finmap.lookup_insert_of_ne _ hne).trans hserves.conn, open_append hserves.isOpen _ _⟩
  | @write n now i p key hpublisher =>
      refine ⟨fun _ => trivial, fun _ key' m hcurrent => ?_⟩
      obtain ⟨j, hserves⟩ := hs key' m hcurrent
      obtain ⟨source, hsource, hclosed⟩ := hserves.isOpen
      refine ⟨j, hserves.publisher, hserves.conn, open_onSource.mpr ⟨source, hsource, ?_⟩⟩
      split_ifs
      · rw [(write_fields source p now).1, hclosed]
      · exact hclosed
  | @leave n i key hpublisher =>
      constructor
      · intro hall x key' m hx hcurrent hne hm
        cases hx.symm.trans hpublisher
        have hcurrent' : (if s.current key = some n then Function.update s.current key none else s.current) key' =
            some m := by
          split_ifs with hleaving
          · have hkey : key' ≠ key := by
              rintro rfl
              exact hne (Option.some.inj (hcurrent.symm.trans hleaving))
            rw [Function.update_of_ne hkey, hcurrent]
          · exact hcurrent
        obtain ⟨j, hserves⟩ := hall key' m hcurrent'
        cases hm.symm.trans hserves.publisher
        obtain ⟨source, -, hclosed⟩ := open_onSource.mp hserves.isOpen
        rw [if_pos rfl] at hclosed
        cases hclosed
      · intro hspares key' m hcurrent
        obtain ⟨hcurrent, hkey⟩ := current_leave hcurrent
        obtain ⟨j, hserves⟩ := hs key' m hcurrent
        have hne : m ≠ n := by
          rintro rfl
          cases hserves.publisher.symm.trans hpublisher
          exact hkey rfl rfl
        have hij : i ≠ j := by
          rintro rfl
          exact hspares (key, i) key' m hpublisher hcurrent hne hserves.publisher
        obtain ⟨source, hsource, hclosed⟩ := hserves.isOpen
        exact ⟨j, hserves.publisher, hserves.conn, open_onSource.mpr ⟨source, hsource, by rwa [if_neg hij]⟩⟩
  | @removed key now i source hconn hsource hidle =>
      constructor
      · intro hall n j old hcurrent hj hold
        obtain ⟨i', hserves⟩ := hall key n hcurrent
        have hnone := (Finmap.lookup_erase key s.server.conns).symm.trans hserves.conn
        cases hnone
      · intro hspares key' n hcurrent
        obtain ⟨j, hserves⟩ := hs key' n hcurrent
        have hne : key' ≠ key := by
          rintro rfl
          rw [hspares n i source hcurrent hconn hsource] at hidle
          cases hidle
        exact ⟨j, hserves.publisher, (Finmap.lookup_erase_ne hne).trans hserves.conn, hserves.isOpen⟩
  | @kept key now i hconn halive =>
      refine ⟨fun _ n j source hcurrent hj hsource => ?_, fun _ => hs⟩
      cases hj.symm.trans hconn
      exact halive source hsource

def live : Bytes := [0x6c, 0x69, 0x76, 0x65]

end Publishing

end Hls

end Livego
