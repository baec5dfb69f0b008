import Livego.RtmpSession

/-! A peer that has messages under way on several chunk streams and sends their chunks in any order. The
reader follows it as long as no message is opened on an entry that is in the midst of another. -/

namespace Livego

open Endian Fallible ReadWriter ChunkStream

/-- The sending side of a connection, seen chunk by chunk: the messages that each chunk stream has still to
finish, and how much of the first of them has been sent. -/
structure Sender where
  chunkSize : Nat := 128
  todo : Nat → List ChunkStream
  sent : Nat → Nat := fun _ => 0

namespace Sender

/-- The next chunk of a chunk stream: its bytes, the message if that was the last chunk of it, and the sender
after it. The chunk size changes with the last chunk of a SetChunkSize message. -/
def emit (s : Sender) (csid : Nat) : Option (Bytes × List ChunkStream × Sender) :=
  match s.todo csid with
  | [] => none
  | m :: ms =>
    let o := s.sent csid
    let payload := (m.data.drop o).take s.chunkSize
    let bytes := m.chunkBytes (if o = 0 then 0 else 3) payload
    if o + payload.length = m.length then
      some (bytes, [m],
        { chunkSize := Conn.sizeAfter m s.chunkSize
          todo := Function.update s.todo csid ms
          sent := Function.update s.sent csid 0 })
    else some (bytes, [], { s with sent := Function.update s.sent csid (o + payload.length) })

/-- The chunks in the order of a schedule of chunk streams: all bytes, and the messages in the order of their
last chunks. -/
def run : List Nat → Sender → Option (Bytes × List ChunkStream × Sender)
  | [], s => some ([], [], s)
  | csid :: schedule, s => do
    let (bytes, done, s') ← s.emit csid
    let (bytes', done', t) ← run schedule s'
    pure (bytes ++ bytes', done ++ done', t)

/-- Nothing is left to send. -/
def Finished (s : Sender) : Prop := ∀ csid, s.todo csid = []

/-- A message that the reader's own handling of control messages copes with. -/
structure Chunkable (m : ChunkStream) : Prop where
  sendable : m.Sendable
  controlReadable : Conn.ControlReadable m
  size_pos : ∀ size, 0 < size → 0 < Conn.sizeAfter m size

/-- The messages wait on their own chunk streams, and one that is under way has bytes left. -/
structure Ok (s : Sender) : Prop where
  chunkSize_pos : 0 < s.chunkSize
  csid : ∀ csid, ∀ m ∈ s.todo csid, m.csid = csid
  chunkable : ∀ csid, ∀ m ∈ s.todo csid, Chunkable m
  underWay : ∀ csid, 0 < s.sent csid → ∃ m ms, s.todo csid = m :: ms ∧ s.sent csid < m.length

/-- Another message is under way whose chunk stream has the same six bits in its basic header. -/
def Clash (s : Sender) (csid : Nat) : Prop :=
  ∃ csid', csid' ≠ csid ∧ chunkKey csid' = chunkKey csid ∧ 0 < s.sent csid'

/-- In the course of the schedule no message is opened in a clash. -/
def Apart : List Nat → Sender → Prop
  | [], _ => True
  | csid :: schedule, s =>
    (s.sent csid = 0 → ¬Clash s csid) ∧ ∀ bytes done s', s.emit csid = some (bytes, done, s') → Apart schedule s'

/-- What one chunk is and does: it is taken from the first message of its chunk stream, and either that is
finished by it or it goes on. -/
theorem emit_cases {s s' : Sender} {csid : Nat} {bytes : Bytes} {done : List ChunkStream}
    (h : s.emit csid = some (bytes, done, s')) :
    ∃ m ms payload, s.todo csid = m :: ms ∧ payload = (m.data.drop (s.sent csid)).take s.chunkSize ∧
      bytes = m.chunkBytes (if s.sent csid = 0 then 0 else 3) payload ∧
      ((s.sent csid + payload.length = m.length ∧ done = [m] ∧ s' = ⟨Conn.sizeAfter m s.chunkSize,
          Function.update s.todo csid ms, Function.update s.sent csid 0⟩) ∨
        (s.sent csid + payload.length ≠ m.length ∧ done = [] ∧
          s' = { s with sent := Function.update s.sent csid (s.sent csid + payload.length) })) := by
  unfold emit at h
  split at h
  · cases h
  · rename_i m ms htodo
    refine ⟨m, ms, _, htodo, rfl, ?_⟩
    by_cases hend : s.sent csid + ((m.data.drop (s.sent csid)).take s.chunkSize).length = m.length
    · rw [if_pos hend] at h
      cases h
      exact ⟨rfl, Or.inl ⟨hend, rfl, rfl⟩⟩
    · rw [if_neg hend] at h
      cases h
      exact ⟨rfl, Or.inr ⟨hend, rfl, rfl⟩⟩

theorem apart_cons {s s' : Sender} {csid : Nat} {schedule : List Nat} {bytes : Bytes} {done : List ChunkStream}
    (hemit : s.emit csid = some (bytes, done, s')) :
    Apart (csid :: schedule) s ↔ (s.sent csid = 0 → ¬Clash s csid) ∧ Apart schedule s' := by
  rw [Apart]
  refine and_congr_right fun _ => ⟨fun hall => hall _ _ _ hemit, ?_⟩
  intro hs' bytes' done' s'' hemit'
  rw [hemit] at hemit'
  cases hemit'
  exact hs'

/-- A chunk leaves the other chunk streams alone. -/
theorem emit_of_ne {s s' : Sender} {csid id : Nat} {bytes : Bytes} {done : List ChunkStream}
    (h : s.emit csid = some (bytes, done, s')) (hne : id ≠ csid) :
    s'.todo id = s.todo id ∧ s'.sent id = s.sent id := by
  obtain ⟨m, ms, payload, -, -, -, ⟨-, -, rfl⟩ | ⟨-, -, rfl⟩⟩ := emit_cases h
  · exact ⟨Function.update_of_ne hne .., Function.update_of_ne hne ..⟩
  · exact ⟨rfl, Function.update_of_ne hne ..⟩

theorem run_cons {s t : Sender} {csid : Nat} {schedule : List Nat} {bytes : Bytes} {done : List ChunkStream}
    (hrun : s.run (csid :: schedule) = some (bytes, done, t)) :
    ∃ bytes1 done1 s' bytes2 done2, s.emit csid = some (bytes1, done1, s') ∧
      s'.run schedule = some (bytes2, done2, t) ∧ bytes = bytes1 ++ bytes2 ∧ done = done1 ++ done2 := by
  simp only [run, Option.bind_eq_bind, Option.bind_eq_some_iff, Option.pure_def, Option.some.injEq,
    Prod.exists, Prod.mk.injEq] at hrun
  obtain ⟨bytes1, done1, s', hemit, bytes2, done2, t', hrest, rfl, rfl, rfl⟩ := hrun
  exact ⟨bytes1, done1, s', bytes2, done2, hemit, hrest, rfl, rfl⟩

theorem Ok.payload_length {s : Sender} (h : s.Ok) {csid : Nat} {m : ChunkStream} {ms : List ChunkStream}
    (htodo : s.todo csid = m :: ms) :
    s.sent csid < m.length ∧
      ((m.data.drop (s.sent csid)).take s.chunkSize).length = min s.chunkSize (m.length - s.sent csid) := by
  have hm := (h.chunkable csid m (htodo ▸ List.mem_cons_self)).sendable
  have hlt : s.sent csid < m.length := by
    by_cases hzero : s.sent csid = 0
    · rw [hzero]
      exact hm.length_pos
    · obtain ⟨m', ms', htodo', hlt⟩ := h.underWay csid (by omega)
      rw [htodo] at htodo'
      cases htodo'
      exact hlt
  exact ⟨hlt, by rw [List.length_take, List.length_drop, hm.length_eq]⟩

theorem Ok.emit {s s' : Sender} {csid : Nat} {bytes : Bytes} {done : List ChunkStream} (hs : s.Ok)
    (h : s.emit csid = some (bytes, done, s')) : s'.Ok := by
  obtain ⟨m, ms, payload, htodo, hpayload, -, hcase⟩ := emit_cases h
  obtain ⟨hlt, hplen⟩ := hs.payload_length htodo
  rw [← hpayload] at hplen
  have hmem : m ∈ s.todo csid := htodo ▸ List.mem_cons_self
  have hpos := hs.chunkSize_pos
  rcases hcase with ⟨hend, -, rfl⟩ | ⟨hend, -, rfl⟩
  · have hsub : ∀ csid', ∀ m' ∈ Function.update s.todo csid ms csid', m' ∈ s.todo csid' := by
      intro csid' m' hmem'
      by_cases hc : csid' = csid
      · subst hc
        rw [Function.update_self] at hmem'
        exact htodo ▸ List.mem_cons_of_mem m hmem'
      · rwa [Function.update_of_ne hc] at hmem'
    refine ⟨(hs.chunkable csid m hmem).size_pos _ hs.chunkSize_pos, fun csid' m' h' => hs.csid csid' m' (hsub _ _ h'),
      fun csid' m' h' => hs.chunkable csid' m' (hsub _ _ h'), ?_⟩
    intro csid' hsent
    dsimp only at hsent ⊢
    by_cases hc : csid' = csid
    · subst hc
      rw [Function.update_self] at hsent
      omega
    · rw [Function.update_of_ne hc] at hsent ⊢
      rw [Function.update_of_ne hc]
      exact hs.underWay csid' hsent
  · refine ⟨hs.chunkSize_pos, hs.csid, hs.chunkable, ?_⟩
    intro csid' hsent
    dsimp only at hsent ⊢
    by_cases hc : csid' = csid
    · subst hc
      rw [Function.update_self]
      exact ⟨m, ms, htodo, by omega⟩
    · rw [Function.update_of_ne hc] at hsent ⊢
      exact hs.underWay csid' hsent

/-! ### What is finished -/

theorem Ok.emit_filter {s s' : Sender} {csid : Nat} {bytes : Bytes} {done : List ChunkStream} (hs : s.Ok)
    (h : s.emit csid = some (bytes, done, s')) (id : Nat) :
    s.todo id = done.filter (fun m => m.csid = id) ++ s'.todo id := by
  obtain ⟨m, ms, payload, htodo, -, -, hcase⟩ := emit_cases h
  have hid := hs.csid csid m (htodo ▸ List.mem_cons_self)
  rcases hcase with ⟨-, rfl, rfl⟩ | ⟨-, rfl, rfl⟩
  · dsimp only
    by_cases hc : id = csid
    · subst hc
      rw [Function.update_self, List.filter_cons_of_pos (by simpa using hid), htodo]
      rfl
    · rw [Function.update_of_ne hc, List.filter_cons_of_neg (by simpa [hid] using Ne.symm hc)]
      rfl
  · rfl

/-- A run finishes the messages of every chunk stream in their order. -/
theorem Ok.run_filter {s t : Sender} {schedule : List Nat} {bytes : Bytes} {done : List ChunkStream} (hs : s.Ok)
    (h : s.run schedule = some (bytes, done, t)) (id : Nat) :
    s.todo id = done.filter (fun m => m.csid = id) ++ t.todo id := by
  induction schedule generalizing s bytes done with
  | nil =>
      cases h
      rfl
  | cons csid schedule ih =>
      obtain ⟨bytes1, done1, s', bytes2, done2, hemit, hrun, -, rfl⟩ := run_cons h
      rw [hs.emit_filter hemit id, ih (hs.emit hemit) hrun, List.filter_append, List.append_assoc]

/-! ### Schedules without a clash -/

theorem emit_todo {s s' : Sender} {csid : Nat} {bytes : Bytes} {done : List ChunkStream}
    (h : s.emit csid = some (bytes, done, s')) (id : Nat) (hid : s'.todo id ≠ []) : s.todo id ≠ [] := by
  by_cases hc : id = csid
  · obtain ⟨m, ms, _, htodo, -⟩ := emit_cases h
    rw [hc, htodo]
    exact List.cons_ne_nil m ms
  · rwa [← (emit_of_ne h hc).1]

/-- Only chunk streams with something to send are in a schedule. -/
theorem run_mem {s t : Sender} {schedule : List Nat} {bytes : Bytes} {done : List ChunkStream}
    (h : s.run schedule = some (bytes, done, t)) : ∀ csid ∈ schedule, s.todo csid ≠ [] := by
  induction schedule generalizing s bytes done with
  | nil => simp
  | cons csid schedule ih =>
      obtain ⟨_, _, s', _, _, hemit, hrun, -, -⟩ := run_cons h
      obtain ⟨m, ms, _, htodo, -⟩ := emit_cases hemit
      intro id hid
      rcases List.mem_cons.mp hid with rfl | hid
      · rw [htodo]
        exact List.cons_ne_nil m ms
      · exact emit_todo hemit id (ih hrun id hid)

/-- A chunk stream that comes to its end is in the schedule. -/
theorem mem_of_finished {s t : Sender} {schedule : List Nat} {bytes : Bytes} {done : List ChunkStream}
    (h : s.run schedule = some (bytes, done, t)) (hfin : t.Finished) {id : Nat} (hid : s.todo id ≠ []) :
    id ∈ schedule := by
  induction schedule generalizing s bytes done with
  | nil =>
      cases h
      exact absurd (hfin id) hid
  | cons csid schedule ih =>
      obtain ⟨_, _, s', _, _, hemit, hrun, -, -⟩ := run_cons h
      by_cases hc : id = csid
      · exact hc ▸ List.mem_cons_self
      · exact List.mem_cons_of_mem csid (ih hrun (by rwa [(emit_of_ne hemit hc).1]))

/-- Chunk streams that differ in the six bits of their basic headers never clash. -/
theorem Ok.apart {s t : Sender} {schedule : List Nat} {bytes : Bytes} {done : List ChunkStream} (hs : s.Ok)
    (hrun : s.run schedule = some (bytes, done, t))
    (hkeys : ∀ csid csid', s.todo csid ≠ [] → s.todo csid' ≠ [] → chunkKey csid' = chunkKey csid → csid' = csid) :
    Apart schedule s := by
  induction schedule generalizing s bytes done with
  | nil => trivial
  | cons csid schedule ih =>
      obtain ⟨_, _, s', _, _, hemit, hrest, -, -⟩ := run_cons hrun
      rw [apart_cons hemit]
      constructor
      · rintro - ⟨csid', hne, hkey, hsent⟩
        obtain ⟨m, ms, htodo, -⟩ := hs.underWay csid' hsent
        exact hne (hkeys csid csid' (run_mem hrun csid List.mem_cons_self) (htodo ▸ List.cons_ne_nil m ms) hkey)
      · refine ih (hs.emit hemit) hrest fun csid csid' h h' => ?_
        exact hkeys csid csid' (emit_todo hemit csid h) (emit_todo hemit csid' h')

/-- All chunks of `x` come before those of `y`. -/
def Before (x y : Nat) (schedule : List Nat) : Prop := schedule.Pairwise fun c d => c = y → d ≠ x

/-- At most one message each is left, on two chunk streams. -/
structure Pair (s : Sender) (x y : Nat) : Prop where
  ne : x ≠ y
  key : chunkKey y = chunkKey x
  others : ∀ id, id ≠ x → id ≠ y → s.todo id = []
  single : ∀ id, (s.todo id).length ≤ 1

theorem Pair.emit {s s' : Sender} {x y csid : Nat} {bytes : Bytes} {done : List ChunkStream} (h : Pair s x y)
    (hemit : s.emit csid = some (bytes, done, s')) : Pair s' x y := by
  refine ⟨h.ne, h.key, fun id hx hy => ?_, fun id => ?_⟩
  · by_contra hne
    exact emit_todo hemit id hne (h.others id hx hy)
  · obtain ⟨m, ms, payload, htodo, -, -, ⟨-, -, rfl⟩ | ⟨-, -, rfl⟩⟩ := emit_cases hemit
    · by_cases hc : id = csid
      · subst hc
        have hle := h.single id
        rw [htodo, List.length_cons] at hle
        dsimp only
        rw [Function.update_self]
        omega
      · dsimp only
        rw [Function.update_of_ne hc]
        exact h.single id
    · exact h.single id

theorem Pair.symm {s : Sender} {x y : Nat} (h : Pair s x y) : Pair s y x :=
  ⟨h.ne.symm, h.key.symm, fun id hy hx => h.others id hx hy, h.single⟩

/-- When the message on `x` is sent, what is left is apart and has no chunk of `x`. -/
theorem Pair.last {s t : Sender} {x y : Nat} {schedule : List Nat} {bytes : Bytes} {done : List ChunkStream}
    (h : Pair s x y) (hs : s.Ok) (hrun : s.run schedule = some (bytes, done, t)) (hx : s.todo x = []) :
    Apart schedule s ∧ Before x y schedule := by
  have hy : ∀ csid, s.todo csid ≠ [] → csid = y := by
    intro csid hne
    by_contra hcy
    refine hne (h.others csid ?_ hcy)
    rintro rfl
    exact hne hx
  constructor
  · exact hs.apart hrun fun csid csid' hne hne' _ => (hy csid' hne').trans (hy csid hne).symm
  · refine List.pairwise_iff_forall_sublist.mpr fun {c d} hsub _ => ?_
    rintro rfl
    exact run_mem hrun d (hsub.subset (by simp)) hx

/-- While the message on `x` is under way, the one on `y` has to wait. -/
theorem Pair.apart_iff {s t : Sender} {x y : Nat} {schedule : List Nat} {bytes : Bytes} {done : List ChunkStream}
    (h : Pair s x y) (hs : s.Ok) (hrun : s.run schedule = some (bytes, done, t)) (hfin : t.Finished)
    (hx : 0 < s.sent x) (hy : s.sent y = 0) : Apart schedule s ↔ Before x y schedule := by
  induction schedule generalizing s bytes done with
  | nil => exact iff_of_true trivial List.Pairwise.nil
  | cons csid schedule ih =>
      obtain ⟨bytes1, done1, s', _, _, hemit, hrest, -, -⟩ := run_cons hrun
      have hmem := run_mem hrun csid List.mem_cons_self
      rw [apart_cons hemit, Before, List.pairwise_cons]
      by_cases hcx : csid = x
      · subst hcx
        rw [and_iff_right (fun hzero => absurd hzero (by omega)), and_iff_right (fun _ _ heq => absurd heq h.ne)]
        have hpair := h.emit hemit
        have hok := hs.emit hemit
        obtain ⟨m, ms, payload, htodo, -, -, ⟨-, -, rfl⟩ | ⟨-, -, rfl⟩⟩ := emit_cases hemit
        · have hnil : ms = [] := by
            have hle := h.single csid
            rw [htodo, List.length_cons] at hle
            exact List.eq_nil_of_length_eq_zero (by omega)
          have hlast := hpair.last hok hrest (by rw [hnil]; exact Function.update_self ..)
          exact iff_of_true hlast.1 hlast.2
        · refine ih hpair hok hrest ?_ ((emit_of_ne hemit h.ne.symm).2.trans hy)
          dsimp only
          rw [Function.update_self]
          omega
      · have hcy : csid = y := by
          by_contra hcy
          exact hmem (h.others csid hcx hcy)
        subst hcy
        refine iff_of_false (fun hand => hand.1 hy ⟨x, h.ne, h.key.symm, hx⟩) fun hand => ?_
        obtain ⟨m, ms, htodo, -⟩ := hs.underWay x hx
        have hx' : s'.todo x ≠ [] := by
          rw [(emit_of_ne hemit h.ne).1, htodo]
          exact List.cons_ne_nil m ms
        exact hand.1 x (mem_of_finished hrest hfin hx') rfl rfl

/-- Of two messages with the same entry, the one that is opened first has to be finished first. -/
theorem Pair.apart_cons_iff {s t : Sender} {x y : Nat} {schedule : List Nat} {bytes : Bytes}
    {done : List ChunkStream} (h : Pair s x y) (hs : s.Ok) (hfin : t.Finished)
    (hrun : s.run (x :: schedule) = some (bytes, done, t)) (hy : s.todo y ≠ []) (hsent : ∀ id, s.sent id = 0) :
    Apart (x :: schedule) s ↔ Before x y (x :: schedule) ∨ Before y x (x :: schedule) := by
  obtain ⟨bytes1, done1, s', _, _, hemit, hrest, -, -⟩ := run_cons hrun
  have hclash : ¬Clash s x := by
    rintro ⟨csid, -, -, hpos⟩
    rw [hsent csid] at hpos
    exact Nat.lt_irrefl 0 hpos
  have hpair := h.emit hemit
  have hok := hs.emit hemit
  have hxy : Before x y (x :: schedule) ↔ Before x y schedule := by
    rw [Before, List.pairwise_cons, and_iff_right (fun _ _ heq => absurd heq h.ne)]
    rfl
  rw [apart_cons hemit, and_iff_right (fun _ => hclash), hxy]
  have hsenty : s'.sent y = 0 := (emit_of_ne hemit h.ne.symm).2.trans (hsent y)
  have hyx : ¬Before y x (x :: schedule) := by
    intro hbefore
    have hmem := mem_of_finished hrest hfin (by rwa [(emit_of_ne hemit h.ne.symm).1] : s'.todo y ≠ [])
    exact (List.pairwise_cons.mp hbefore).1 y hmem rfl rfl
  rw [or_iff_left hyx]
  obtain ⟨m, ms, payload, htodo, hpayload, -, ⟨-, -, rfl⟩ | ⟨-, -, rfl⟩⟩ := emit_cases hemit
  · have hnil : ms = [] := by
      have hle := h.single x
      rw [htodo, List.length_cons] at hle
      exact List.eq_nil_of_length_eq_zero (by omega)
    have hlast := hpair.last hok hrest (by rw [hnil]; exact Function.update_self ..)
    exact iff_of_true hlast.1 hlast.2
  · obtain ⟨hlt, hplen⟩ := hs.payload_length htodo
    have hpos := hs.chunkSize_pos
    rw [← hpayload] at hplen
    refine hpair.apart_iff hok hrest hfin ?_ hsenty
    dsimp only
    rw [Function.update_self]
    omega

end Sender

open Sender

namespace Conn

/-- The reader has received what the sender has sent: a message that is under way there is half received
here, and no other is. -/
structure Follows (s : Sender) (conn : Conn) : Prop where
  inv : Inv conn
  readError : conn.rw.readError = none
  size : conn.remoteChunkSize = s.chunkSize
  receiving : ∀ csid, 0 < s.sent csid → ∃ m ms e, s.todo csid = m :: ms ∧
    conn.chunks (chunkKey csid) = some e ∧ Receiving m (s.sent csid) e
  idle : ∀ key e, conn.chunks key = some e → e.remain ≠ 0 → ∃ csid, 0 < s.sent csid ∧ chunkKey csid = key

/-- Two messages that are under way have different entries. -/
theorem Follows.chunkKey_ne {s : Sender} {conn : Conn} (h : Follows s conn) (hs : s.Ok) {csid csid' : Nat}
    (hne : csid' ≠ csid) (hsent : 0 < s.sent csid) (hsent' : 0 < s.sent csid') :
    chunkKey csid' ≠ chunkKey csid := by
  intro hkey
  obtain ⟨m, ms, e, htodo, hentry, hr⟩ := h.receiving csid hsent
  obtain ⟨m', ms', e', htodo', hentry', hr'⟩ := h.receiving csid' hsent'
  rw [hkey, hentry] at hentry'
  cases hentry'
  have hm := hs.csid csid m (htodo ▸ List.mem_cons_self)
  have hm' := hs.csid csid' m' (htodo' ▸ List.mem_cons_self)
  exact hne (hm'.symm.trans (hr'.csid.symm.trans (hr.csid.trans hm)))

/-- The reader takes the next chunk, unless it opens a message in a clash. -/
theorem Follows.readTurn {s : Sender} {conn : Conn} {csid : Nat} {m : ChunkStream} {ms : List ChunkStream}
    {payload rest : Bytes} (h : Follows s conn) (hs : s.Ok) (htodo : s.todo csid = m :: ms)
    (hpayload : payload = (m.data.drop (s.sent csid)).take s.chunkSize)
    (hapart : s.sent csid = 0 → ¬Clash s csid)
    (hu : conn.rw.unread = m.chunkBytes (if s.sent csid = 0 then 0 else 3) payload ++ rest) :
    ∃ e pool, Receiving m (s.sent csid + payload.length) e ∧
      readTurn () conn = .ok (if s.sent csid + payload.length = m.length then .inr e else .inl ())
        (conn.turned rest pool (chunkKey csid) e) := by
  have hmem : m ∈ s.todo csid := htodo ▸ List.mem_cons_self
  have hcsid := hs.csid csid m hmem
  have hm := (hs.chunkable csid m hmem).sendable
  rw [← h.size] at hpayload
  by_cases hzero : s.sent csid = 0
  · rw [if_pos hzero] at hu
    have hentry : ∀ e, conn.chunks (chunkKey m.csid) = some e → e.remain = 0 := by
      intro e he
      by_contra hne
      obtain ⟨csid', hsent, hkey⟩ := h.idle _ e he hne
      rw [hcsid] at hkey
      exact hapart hzero ⟨csid', by rintro rfl; omega, hkey, hsent⟩
    obtain ⟨e, pool, hr, hturn⟩ := readTurn_first hm h.readError hu hentry (by simpa [hzero] using hpayload)
    rw [hcsid] at hturn
    exact ⟨e, pool, by rwa [hzero, Nat.zero_add], by rwa [hzero, Nat.zero_add]⟩
  · rw [if_neg hzero] at hu
    obtain ⟨m', ms', e, htodo', hentry, hr⟩ := h.receiving csid (by omega)
    rw [htodo] at htodo'
    cases htodo'
    rw [← hcsid] at hentry
    obtain ⟨e', hr', hturn⟩ := readTurn_continue hm hentry hr (hs.payload_length htodo).1 h.readError hu hpayload
    rw [hcsid] at hturn
    exact ⟨e', conn.pool, hr', hturn⟩

/-- The entries after a chunk: the others are as before, and no other is in the midst of a message of the
same entry. -/
theorem Follows.others {s : Sender} {conn : Conn} {csid : Nat} (h : Follows s conn) (hs : s.Ok)
    (hapart : s.sent csid = 0 → ¬Clash s csid) {csid' : Nat} (hne : csid' ≠ csid) (hsent : 0 < s.sent csid')
    (rest : Bytes) (pool : Pool) (e : ChunkStream) :
    (conn.turned rest pool (chunkKey csid) e).chunks (chunkKey csid') = conn.chunks (chunkKey csid') := by
  apply Function.update_of_ne
  by_cases hzero : s.sent csid = 0
  · exact fun hkey => hapart hzero ⟨csid', hne, hkey, hsent⟩
  · exact h.chunkKey_ne hs hne (by omega) hsent

/-- After a chunk that does not finish its message the reader follows on. -/
theorem Follows.goesOn {s : Sender} {conn : Conn} {csid o : Nat} {m e : ChunkStream} {ms : List ChunkStream}
    (h : Follows s conn) (hs : s.Ok) (hapart : s.sent csid = 0 → ¬Clash s csid) (htodo : s.todo csid = m :: ms)
    (ho : 0 < o) (hr : Receiving m o e) {rest : Bytes} {pool : Pool}
    (hinv : Inv (conn.turned rest pool (chunkKey csid) e)) :
    Follows { s with sent := Function.update s.sent csid o } (conn.turned rest pool (chunkKey csid) e) := by
  refine ⟨hinv, h.readError, h.size, ?_, ?_⟩
  · intro csid' hsent
    dsimp only at hsent ⊢
    by_cases hc : csid' = csid
    · subst hc
      rw [Function.update_self]
      exact ⟨m, ms, e, htodo, Function.update_self .., hr⟩
    · rw [Function.update_of_ne hc] at hsent ⊢
      rw [h.others hs hapart hc hsent]
      exact h.receiving csid' hsent
  · intro key e' hentry hne
    dsimp only
    by_cases hkey : chunkKey csid = key
    · exact ⟨csid, by rwa [Function.update_self], hkey⟩
    · have hold : conn.chunks key = some e' := by
        rw [← hentry]
        exact (Function.update_of_ne (Ne.symm hkey) ..).symm
      obtain ⟨csid', hsent, hkey'⟩ := h.idle key e' hold hne
      have hc : csid' ≠ csid := by
        rintro rfl
        exact hkey hkey'
      exact ⟨csid', by rwa [Function.update_of_ne hc], hkey'⟩

/-- After the last chunk of a message its entry is idle. -/
theorem Follows.completes {s : Sender} {conn : Conn} {csid size : Nat} {m e : ChunkStream} {ms : List ChunkStream}
    (h : Follows s conn) (hs : s.Ok) (hapart : s.sent csid = 0 → ¬Clash s csid) (hr : Receiving m m.length e)
    {rest : Bytes} {pool : Pool} {conn' : Conn} (hinv : Inv conn')
    (hsame : SameReader { conn.turned rest pool (chunkKey csid) e with remoteChunkSize := size } conn') :
    Follows ⟨size, Function.update s.todo csid ms, Function.update s.sent csid 0⟩ conn' := by
  refine ⟨hinv, hsame.readError.trans h.readError, hsame.remoteChunkSize, ?_, ?_⟩
  · intro csid' hsent
    dsimp only at hsent ⊢
    by_cases hc : csid' = csid
    · subst hc
      rw [Function.update_self] at hsent
      omega
    · rw [Function.update_of_ne hc] at hsent ⊢
      rw [Function.update_of_ne hc, hsame.chunks]
      have hothers := h.others hs hapart hc hsent rest pool e
      obtain ⟨m', ms', e', htodo, hentry, hr'⟩ := h.receiving csid' hsent
      exact ⟨m', ms', e', htodo, hothers.trans hentry, hr'⟩
  · intro key e' hentry hne
    rw [hsame.chunks] at hentry
    dsimp only [turned] at hentry ⊢
    by_cases hkey : key = chunkKey csid
    · subst hkey
      rw [Function.update_self] at hentry
      cases hentry
      exact absurd (hr.remain.trans (Nat.sub_self _)) hne
    · rw [Function.update_of_ne hkey] at hentry
      obtain ⟨csid', hsent, hkey'⟩ := h.idle key e' hentry hne
      have hc : csid' ≠ csid := by
        rintro rfl
        exact hkey hkey'.symm
      exact ⟨csid', by rwa [Function.update_of_ne hc], hkey'⟩

/-- A message that is opened in a clash is refused. -/
theorem Follows.refuses {s : Sender} {conn : Conn} {csid : Nat} {m : ChunkStream} {ms : List ChunkStream}
    {payload rest : Bytes} (h : Follows s conn) (hs : s.Ok) (htodo : s.todo csid = m :: ms)
    (hclash : Clash s csid) (hu : conn.rw.unread = m.chunkBytes 0 payload ++ rest) : Ended conn := by
  obtain ⟨csid', hne, hkey, hsent⟩ := hclash
  obtain ⟨m', ms', e, htodo', hentry, hr⟩ := h.receiving csid' hsent
  obtain ⟨m'', ms'', htodo'', hlt⟩ := hs.underWay csid' hsent
  rw [htodo'] at htodo''
  cases htodo''
  have hmem : m ∈ s.todo csid := htodo ▸ List.mem_cons_self
  have hm := (hs.chunkable csid m hmem).sendable
  have hlen := hm.length_le
  simp only [maxpoolsize] at hlen
  rw [chunkBytes_first m (by omega), List.append_assoc] at hu
  obtain ⟨b, rw1, hread, hshift, hand, -⟩ := readBasic { m with format := 0 } (Nat.zero_le 3)
    hm.csid_ge hm.csid_le h.readError hu
  dsimp only at hshift hand
  rw [hs.csid csid m hmem, ← hkey] at hand
  have hremain : e.remain ≠ 0 := by
    rw [hr.remain]
    omega
  unfold Ended
  rw [read_eq, Conn.readTurn]
  simp only [hread, hshift, hand, hentry, Option.getD_some, readChunk]
  rw [if_pos ⟨hremain, by decide⟩]
  exact ⟨_, _, rfl⟩

theorem reads_congr {last : Conn → Prop} {m : Message} {ms : List Message} {conn conn' : Conn}
    (h : read conn = read conn') : Reads last (m :: ms) conn ↔ Reads last (m :: ms) conn' := by
  rw [Reads, Reads, h]

/-- A schedule that still finishes a message has one to return. -/
theorem done_ne_nil {s t : Sender} {schedule : List Nat} {bytes : Bytes} {done : List ChunkStream} (hs : s.Ok)
    (hrun : s.run schedule = some (bytes, done, t)) (hfin : t.Finished) {csid : Nat} {m : ChunkStream}
    {ms : List ChunkStream} (htodo : s.todo csid = m :: ms) : done ≠ [] := by
  rintro rfl
  have hfilter := hs.run_filter hrun csid
  rw [htodo, hfin csid] at hfilter
  simp at hfilter

/-- One chunk: the reader reads on, or returns the message that the chunk finishes, and follows the sender. -/
theorem Follows.step {s s' : Sender} {conn : Conn} {csid : Nat} {bytes rest : Bytes} {done : List ChunkStream}
    (h : Follows s conn) (hs : s.Ok) (hemit : s.emit csid = some (bytes, done, s'))
    (hapart : s.sent csid = 0 → ¬Clash s csid) (hu : conn.rw.unread = bytes ++ rest) :
    ∃ conn', Follows s' conn' ∧ conn'.rw.unread = rest ∧
      ((done = [] ∧ read conn = read conn') ∨
        ∃ m c, done = [m] ∧ read conn = .ok c conn' ∧ c.message = m.message) := by
  obtain ⟨m, ms, payload, htodo, hpayload, rfl, hcase⟩ := emit_cases hemit
  obtain ⟨e, pool, hr, hturn⟩ := h.readTurn hs htodo hpayload hapart hu
  have hinv := ((readTurn_sat h.inv).1.of_ok hturn).1
  obtain ⟨hlt, hplen⟩ := hs.payload_length htodo
  have hpos := hs.chunkSize_pos
  rw [← hpayload] at hplen
  have hread := read_eq conn
  rw [hturn] at hread
  rcases hcase with ⟨hend, rfl, rfl⟩ | ⟨hend, rfl, rfl⟩
  · rw [if_pos hend] at hread
    rw [hend] at hr
    have hm := hs.chunkable csid m (htodo ▸ List.mem_cons_self)
    have hmessage := hr.message_eq hm.sendable
    obtain ⟨conn', hfinish, hsame⟩ := finish_eq (c := e) (conn.turned rest pool (chunkKey csid) e)
      (controlReadable_congr hmessage hm.controlReadable) h.inv.chunkSize_ne
    dsimp only at hread
    rw [hfinish] at hread
    have hsize : sizeAfter e conn.remoteChunkSize = sizeAfter m s.chunkSize := by
      rw [sizeAfter_congr hmessage, h.size]
    exact ⟨conn', h.completes hs hapart hr ((read_sat h.inv).of_ok hread) (hsize ▸ hsame), hsame.unread,
      Or.inr ⟨m, e, rfl, hread, hmessage⟩⟩
  · rw [if_neg hend] at hread
    exact ⟨_, h.goesOn hs hapart htodo (by omega) hr hinv, rfl, Or.inl ⟨rfl, hread⟩⟩

/-- A reader that follows the sender returns the messages in the order of their last chunks exactly if none
is opened in a clash. -/
theorem Follows.reads_iff {last : Conn → Prop} (hlast : ∀ conn, Inv conn → conn.rw.unread = [] → last conn)
    {s t : Sender} {schedule : List Nat} {done : List ChunkStream} {conn : Conn} (h : Follows s conn) (hs : s.Ok)
    (hrun : s.run schedule = some (conn.rw.unread, done, t)) (hfin : t.Finished) :
    Reads last (done.map message) conn ↔ Apart schedule s := by
  induction schedule generalizing s done conn with
  | nil =>
      simp only [run, Option.some.injEq, Prod.mk.injEq] at hrun
      obtain ⟨hu, rfl, rfl⟩ := hrun
      exact iff_of_true (hlast conn h.inv hu.symm) trivial
  | cons csid schedule ih =>
      obtain ⟨bytes1, done1, s', rest, done2, hemit, hrest, hu, rfl⟩ := run_cons hrun
      obtain ⟨m, ms, payload, htodo, hpayload, hbytes, -⟩ := emit_cases hemit
      have hne := done_ne_nil hs hrun hfin htodo
      rw [apart_cons hemit]
      by_cases hapart : s.sent csid = 0 → ¬Clash s csid
      · rw [and_iff_right hapart]
        obtain ⟨conn', hfollows, hunread, ⟨rfl, hread⟩ | ⟨m', c, rfl, hread, hmessage⟩⟩ :=
          h.step hs hemit hapart hu <;> rw [← hunread] at hrest
        · rw [← ih hfollows (hs.emit hemit) hrest, List.nil_append]
          obtain ⟨d, ds, rfl⟩ := List.exists_cons_of_ne_nil hne
          exact reads_congr hread
        · rw [← ih hfollows (hs.emit hemit) hrest]
          constructor
          · rintro ⟨c', conn'', hread', -, hreads⟩
            rw [hread] at hread'
            cases hread'
            exact hreads
          · exact fun hreads => ⟨c, conn', hread, hmessage, hreads⟩
      · refine iff_of_false ?_ fun hand => hapart hand.1
        push Not at hapart
        obtain ⟨hzero, hclash⟩ := hapart
        rw [hbytes, if_pos hzero] at hu
        obtain ⟨err, conn', hread⟩ := h.refuses hs htodo hclash hu
        obtain ⟨d, ds, hd⟩ := List.exists_cons_of_ne_nil hne
        rw [hd]
        rintro ⟨c, conn'', hread', -, -⟩
        rw [hread] at hread'
        cases hread'

/-- An idle reader follows a sender that has nothing under way. -/
theorem Idle.follows {conn : Conn} (h : Idle conn) (todo : Nat → List ChunkStream) :
    Follows { chunkSize := conn.remoteChunkSize, todo } conn :=
  ⟨h.inv, h.readError, rfl, fun _ hsent => absurd hsent (Nat.lt_irrefl 0), fun key e he hne =>
    absurd (h.entries key e he) hne⟩

theorem ok_of_todo {todo : Nat → List ChunkStream} {chunkSize : Nat} (hsize : 0 < chunkSize)
    (hcsid : ∀ csid, ∀ m ∈ todo csid, m.csid = csid) (hchunkable : ∀ csid, ∀ m ∈ todo csid, Chunkable m) :
    Sender.Ok { chunkSize, todo } :=
  ⟨hsize, hcsid, hchunkable, fun _ hsent => absurd hsent (Nat.lt_irrefl 0)⟩

/-- Messages on the chunk streams 3 to 63, and SetChunkSize messages on chunk stream 2. -/
structure LowStreams (streams : Nat → List ChunkStream) : Prop where
  csid : ∀ csid, ∀ m ∈ streams csid, m.csid = csid
  cases : ∀ csid, ∀ m ∈ streams csid,
    (csid = 2 ∧ ∃ v, 1 ≤ v ∧ v < 2 ^ 31 ∧ m = newSetChunkSize v) ∨
      (3 ≤ csid ∧ csid ≤ 63 ∧ m.Sendable ∧ m.typeID ≠ idSetChunkSize ∧ m.typeID ≠ idWindowAckSize)

theorem chunkable_newSetChunkSize {v : Nat} (hv : 1 ≤ v) (hv' : v < 2 ^ 31) : Chunkable (newSetChunkSize v) := by
  refine ⟨by constructor <;> simp [newSetChunkSize, initControlMsg, maxpoolsize, idSetChunkSize], ?_, ?_⟩
  · intro _
    simp [newSetChunkSize, initControlMsg]
  · intro size _
    rw [sizeAfter_newSetChunkSize (by omega)]
    omega

theorem chunkable_of_not_control {m : ChunkStream} (hm : m.Sendable) (h1 : m.typeID ≠ idSetChunkSize)
    (h5 : m.typeID ≠ idWindowAckSize) : Chunkable m := by
  refine ⟨hm, fun hc => absurd hc (by tauto), fun size hsize => ?_⟩
  rwa [sizeAfter, if_neg h1]

theorem LowStreams.ok {streams : Nat → List ChunkStream} (h : LowStreams streams) :
    Sender.Ok { todo := streams } := by
  refine ok_of_todo (by decide) h.csid fun csid m hmem => ?_
  rcases h.cases csid m hmem with ⟨-, v, hlo, hhi, rfl⟩ | ⟨-, -, hm, h1, h5⟩
  · exact chunkable_newSetChunkSize hlo hhi
  · exact chunkable_of_not_control hm h1 h5

theorem LowStreams.chunkKey_eq {streams : Nat → List ChunkStream} (h : LowStreams streams) {csid : Nat}
    (hne : streams csid ≠ []) : chunkKey csid = csid := by
  obtain ⟨m, ms, hcons⟩ := List.exists_cons_of_ne_nil hne
  have hmem : m ∈ streams csid := hcons ▸ List.mem_cons_self
  rw [chunkKey, if_pos]
  rcases h.cases csid m hmem with ⟨rfl, -⟩ | ⟨-, hle, -⟩
  · decide
  · omega

/-- However the chunks of low chunk streams are interleaved, and wherever the chunk size changes, every message
is returned once, when its last chunk has come. -/
theorem interleaved_reads {streams : Nat → List ChunkStream} (hstreams : LowStreams streams) {schedule : List Nat}
    {bytes : Bytes} {done : List ChunkStream} {t : Sender}
    (hrun : Sender.run schedule { todo := streams } = some (bytes, done, t)) (hfin : t.Finished)
    (ending : GoError) :
    ReadsAll (done.map message) (newConn { unread := bytes, ending }) ∧
      ∀ csid, done.filter (fun m => m.csid = csid) = streams csid := by
  have hok := hstreams.ok
  have hidle := idle_newConn bytes ending
  constructor
  · refine ((hidle.follows streams).reads_iff (fun _ hinv hu => read_end hinv hu) hok hrun hfin).mpr ?_
    refine hok.apart hrun fun csid csid' hne hne' hkey => ?_
    rwa [hstreams.chunkKey_eq hne, hstreams.chunkKey_eq hne'] at hkey
  · intro csid
    have hfilter := hok.run_filter hrun csid
    rw [hfin csid, List.append_nil] at hfilter
    exact hfilter.symm

def sampleVideo : ChunkStream :=
  { csid := 6, timestamp := 0x1000000, length := 5, typeID := 9, streamID := 1, data := [1, 2, 3, 4, 5] }

/-- During the message on chunk stream 6 the chunk size changes, by a message that is itself in two chunks. -/
def sampleStreams : Nat → List ChunkStream :=
  Function.update (Function.update (fun _ => []) 2 [newSetChunkSize 2, newSetChunkSize 64]) 6 [sampleVideo]

theorem lowStreams_sample : LowStreams sampleStreams := by
  have hmem : ∀ csid, ∀ m ∈ sampleStreams csid, (csid = 6 ∧ m = sampleVideo) ∨
      (csid = 2 ∧ (m = newSetChunkSize 2 ∨ m = newSetChunkSize 64)) := by
    intro csid m hm
    unfold sampleStreams at hm
    by_cases h6 : csid = 6
    · rw [h6, Function.update_self, List.mem_singleton] at hm
      exact Or.inl ⟨h6, hm⟩
    · rw [Function.update_of_ne h6] at hm
      by_cases h2 : csid = 2
      · rw [h2, Function.update_self] at hm
        exact Or.inr ⟨h2, by simpa using hm⟩
      · rw [Function.update_of_ne h2] at hm
        exact absurd hm List.not_mem_nil
  constructor
  · intro csid m hm
    rcases hmem csid m hm with ⟨rfl, rfl⟩ | ⟨rfl, rfl | rfl⟩ <;> rfl
  · intro csid m hm
    rcases hmem csid m hm with ⟨rfl, rfl⟩ | ⟨rfl, rfl | rfl⟩
    · exact Or.inr ⟨by decide, by decide, by constructor <;> decide, by decide, by decide⟩
    · exact Or.inl ⟨rfl, 2, by decide, by decide, rfl⟩
    · exact Or.inl ⟨rfl, 64, by decide, by decide, rfl⟩

set_option maxRecDepth 4000 in
theorem run_sampleStreams :
    ∃ bytes done t, Sender.run [2, 6, 2, 2, 6] { todo := sampleStreams } = some (bytes, done, t) ∧
      t.Finished := by
  refine ⟨_, _, _, rfl, fun csid => ?_⟩
  by_cases h6 : csid = 6
  · rw [h6]
    rfl
  · by_cases h2 : csid = 2
    · rw [h2]
      rfl
    · simp [sampleStreams, h6, h2]

theorem interleaved_reads_sample :
    ∃ bytes done t, Sender.run [2, 6, 2, 2, 6] { todo := sampleStreams } = some (bytes, done, t) ∧
      ReadsAll (done.map message) (newConn { unread := bytes }) ∧
        ∀ csid, done.filter (fun m => m.csid = csid) = sampleStreams csid := by
  obtain ⟨bytes, done, t, hrun, hfin⟩ := run_sampleStreams
  exact ⟨bytes, done, t, hrun, interleaved_reads lowStreams_sample hrun hfin .eof⟩

/-- One message on each of two chunk streams. -/
def twoStreams (a b : Nat) (ma mb : ChunkStream) : Nat → List ChunkStream :=
  Function.update (Function.update (fun _ => []) a [ma]) b [mb]

/-- The chunks of the two messages are not mixed. -/
def Sequential (a b : Nat) (schedule : List Nat) : Prop := Before a b schedule ∨ Before b a schedule

theorem pair_twoStreams {a b : Nat} (hne : a ≠ b) (hkey : chunkKey b = chunkKey a) (ma mb : ChunkStream) :
    Pair { todo := twoStreams a b ma mb } a b := by
  refine ⟨hne, hkey, fun id ha hb => ?_, fun id => ?_⟩
  · dsimp only [twoStreams]
    rw [Function.update_of_ne hb, Function.update_of_ne ha]
  · dsimp only [twoStreams]
    by_cases hb : id = b
    · rw [hb, Function.update_self]
      exact le_refl 1
    · rw [Function.update_of_ne hb]
      by_cases ha : id = a
      · rw [ha, Function.update_self]
        exact le_refl 1
      · rw [Function.update_of_ne ha]
        exact Nat.zero_le 1

theorem twoStreams_mem {a b id : Nat} {ma mb m : ChunkStream} (h : m ∈ twoStreams a b ma mb id) :
    (id = b ∧ m = mb) ∨ (id = a ∧ m = ma) := by
  unfold twoStreams at h
  by_cases hb : id = b
  · rw [hb, Function.update_self, List.mem_singleton] at h
    exact Or.inl ⟨hb, h⟩
  · rw [Function.update_of_ne hb] at h
    by_cases ha : id = a
    · rw [ha, Function.update_self, List.mem_singleton] at h
      exact Or.inr ⟨ha, h⟩
    · rw [Function.update_of_ne ha] at h
      exact absurd h List.not_mem_nil

theorem twoStreams_ne_nil {a b id : Nat} {ma mb : ChunkStream} (h : twoStreams a b ma mb id ≠ []) :
    id = b ∨ id = a := by
  obtain ⟨m, ms, hcons⟩ := List.exists_cons_of_ne_nil h
  have hmem : m ∈ twoStreams a b ma mb id := hcons ▸ List.mem_cons_self
  exact (twoStreams_mem hmem).imp And.left And.left

theorem ok_twoStreams {a b : Nat} {ma mb : ChunkStream} (hma : Chunkable ma) (hmb : Chunkable mb)
    (ha : ma.csid = a) (hb : mb.csid = b) : Sender.Ok { todo := twoStreams a b ma mb } := by
  refine ok_of_todo (by decide) (fun id m hmem => ?_) fun id m hmem => ?_
  · rcases twoStreams_mem hmem with ⟨rfl, rfl⟩ | ⟨rfl, rfl⟩
    · exact hb
    · exact ha
  · rcases twoStreams_mem hmem with ⟨-, rfl⟩ | ⟨-, rfl⟩
    · exact hmb
    · exact hma

/-- Two messages never clash if their entries differ, and otherwise exactly if they are not mixed. -/
theorem apart_twoStreams_iff {a b : Nat} (hne : a ≠ b) {ma mb : ChunkStream} (hma : Chunkable ma) (hmb : Chunkable mb)
    (ha : ma.csid = a) (hb : mb.csid = b) {schedule : List Nat} {bytes : Bytes} {done : List ChunkStream} {t : Sender}
    (hrun : Sender.run schedule { todo := twoStreams a b ma mb } = some (bytes, done, t)) (hfin : t.Finished) :
    Apart schedule { todo := twoStreams a b ma mb } ↔ chunkKey a ≠ chunkKey b ∨ Sequential a b schedule := by
  have hok := ok_twoStreams hma hmb ha hb
  have hta : twoStreams a b ma mb a ≠ [] := by
    rw [twoStreams, Function.update_of_ne hne, Function.update_self]
    exact List.cons_ne_nil ma []
  have htb : twoStreams a b ma mb b ≠ [] := by
    rw [twoStreams, Function.update_self]
    exact List.cons_ne_nil mb []
  by_cases hkey : chunkKey a = chunkKey b
  · have hpair := pair_twoStreams hne hkey.symm ma mb
    rw [or_iff_right (not_not_intro hkey)]
    cases schedule with
    | nil => exact iff_of_true trivial (Or.inl List.Pairwise.nil)
    | cons csid schedule =>
        have hmem := run_mem hrun csid List.mem_cons_self
        by_cases hca : csid = a
        · subst hca
          exact hpair.apart_cons_iff hok hfin hrun htb fun _ => rfl
        · have hcb : csid = b := by
            by_contra hcb
            exact hmem (hpair.others csid hca hcb)
          subst hcb
          rw [hpair.symm.apart_cons_iff hok hfin hrun hta fun _ => rfl]
          exact or_comm
  · refine iff_of_true (hok.apart hrun fun csid csid' h h' hk => ?_) (Or.inl hkey)
    rcases twoStreams_ne_nil h with rfl | rfl <;> rcases twoStreams_ne_nil h' with rfl | rfl
    · rfl
    · exact absurd hk hkey
    · exact absurd hk.symm hkey
    · rfl

/-- Messages that are the same on every chunk stream are the same up to their order. -/
theorem perm_of_filter {ms ms' : List ChunkStream}
    (h : ∀ csid, ms.filter (fun m => m.csid = csid) = ms'.filter (fun m => m.csid = csid)) : ms.Perm ms' := by
  rw [List.perm_iff_count]
  intro m
  calc ms.count m = (ms.filter (fun m' => m'.csid = m.csid)).count m := (List.count_filter (by simp)).symm
    _ = (ms'.filter (fun m' => m'.csid = m.csid)).count m := by rw [h]
    _ = ms'.count m := List.count_filter (by simp)

theorem chunkKey_ne_iff {a b : Nat} (ha : 64 ≤ a) (hb : 64 ≤ b) :
    chunkKey a ≠ chunkKey b ↔ (a < 320 ↔ 320 ≤ b) := by
  unfold chunkKey
  rw [if_neg (show ¬a < 64 by omega), if_neg (show ¬b < 64 by omega)]
  by_cases ha' : a < 320 <;> by_cases hb' : b < 320 <;> (simp [ha', hb']; try omega)

theorem reads_twoStreams_iff {a b : Nat} (hne : a ≠ b) {ma mb : ChunkStream} (hma : Chunkable ma)
    (hmb : Chunkable mb) (ha : ma.csid = a) (hb : mb.csid = b) {schedule : List Nat} {bytes : Bytes}
    {done : List ChunkStream} {t : Sender}
    (hrun : Sender.run schedule { todo := twoStreams a b ma mb } = some (bytes, done, t)) (hfin : t.Finished)
    (ending : GoError) :
    Reads (fun _ => True) (done.map message) (newConn { unread := bytes, ending }) ↔
      chunkKey a ≠ chunkKey b ∨ Sequential a b schedule := by
  have hok := ok_twoStreams hma hmb ha hb
  rw [((idle_newConn bytes ending).follows (twoStreams a b ma mb)).reads_iff (fun _ _ _ => trivial) hok hrun hfin]
  exact apart_twoStreams_iff hne hma hmb ha hb hrun hfin

/-- Two messages on large chunk stream ids are both read, in the order of their last chunks, if the ids lie on
different sides of 320, and otherwise exactly if their chunks are not mixed. -/
theorem large_ids_read_iff {a b : Nat} (hne : a ≠ b) (ha : 64 ≤ a) (hb : 64 ≤ b) {ma mb : ChunkStream}
    (hma : Chunkable ma) (hmb : Chunkable mb) (hac : ma.csid = a) (hbc : mb.csid = b) {schedule : List Nat}
    {bytes : Bytes} {done : List ChunkStream} {t : Sender}
    (hrun : Sender.run schedule { todo := twoStreams a b ma mb } = some (bytes, done, t)) (hfin : t.Finished)
    (ending : GoError) :
    done.Perm [ma, mb] ∧ (Reads (fun _ => True) (done.map message) (newConn { unread := bytes, ending }) ↔
      ((a < 320 ↔ 320 ≤ b) ∨ Sequential a b schedule)) := by
  have hok := ok_twoStreams hma hmb hac hbc
  constructor
  · refine perm_of_filter fun csid => ?_
    have hfilter := hok.run_filter hrun csid
    rw [hfin csid, List.append_nil] at hfilter
    rw [← hfilter]
    dsimp only [twoStreams]
    by_cases hcb : csid = b
    · subst hcb
      simp [hbc, hac, hne]
    · by_cases hca : csid = a
      · subst hca
        simp [hbc, hac, hne, hne.symm]
      · simp [hbc, hac, hca, hcb, Ne.symm hca, Ne.symm hcb]
  · rw [← chunkKey_ne_iff ha hb]
    exact reads_twoStreams_iff hne hma hmb hac hbc hrun hfin ending

/-- A message of two chunks of the initial size. -/
def twoChunks (csid : Nat) : ChunkStream :=
  { csid, length := 129, typeID := 9, streamID := 1, data := List.replicate 129 0 }

theorem chunkable_twoChunks {csid : Nat} (hlo : 2 ≤ csid) (hhi : csid ≤ 65599) : Chunkable (twoChunks csid) := by
  refine chunkable_of_not_control ⟨?_, ?_, ?_, ?_, ?_, ?_, hlo, hhi⟩ ?_ ?_
  all_goals simp [twoChunks, maxpoolsize, idSetChunkSize, idWindowAckSize]

/-- Nothing is left of two streams once both are empty. -/
theorem finished_twoStreams {a b : Nat} {ma mb : ChunkStream} {s : Sender}
    (h : s.todo = Function.update (Function.update (twoStreams a b ma mb) a []) b []) : s.Finished := by
  intro csid
  rw [h]
  by_cases hb : csid = b
  · rw [hb, Function.update_self]
  · rw [Function.update_of_ne hb]
    by_cases ha : csid = a
    · rw [ha, Function.update_self]
    · rw [Function.update_of_ne ha, twoStreams, Function.update_of_ne hb, Function.update_of_ne ha]

set_option maxRecDepth 4000 in
theorem large_ids_read_iff_mixed :
    ∃ bytes done t, Sender.run [64, 400, 64, 400] { todo := twoStreams 64 400 (twoChunks 64) (twoChunks 400) } =
        some (bytes, done, t) ∧
      done.Perm [twoChunks 64, twoChunks 400] ∧ (Reads (fun _ => True) (done.map message) (newConn { unread := bytes }) ↔
        ((64 < 320 ↔ 320 ≤ 400) ∨ Sequential 64 400 [64, 400, 64, 400])) :=
  ⟨_, _, _, rfl, large_ids_read_iff (by decide) (by decide) (by decide)
    (chunkable_twoChunks (by decide) (by decide)) (chunkable_twoChunks (by decide) (by decide)) rfl rfl rfl
    (finished_twoStreams rfl) .eof⟩

set_option maxRecDepth 4000 in
/-- The chunks of two messages on 64 and 65, one by one: the second message is refused. -/
theorem exists_large_ids_not_read :
    ∃ bytes done t, Sender.run [64, 65, 64, 65] { todo := twoStreams 64 65 (twoChunks 64) (twoChunks 65) } =
        some (bytes, done, t) ∧ t.Finished ∧ done.Perm [twoChunks 64, twoChunks 65] ∧
      ¬Reads (fun _ => True) (done.map message) (newConn { unread := bytes }) := by
  obtain ⟨bytes, t, hrun, hfin⟩ : ∃ bytes t, Sender.run [64, 65, 64, 65]
      { todo := twoStreams 64 65 (twoChunks 64) (twoChunks 65) } = some (bytes, [twoChunks 64, twoChunks 65], t) ∧
        t.Finished := ⟨_, _, rfl, finished_twoStreams rfl⟩
  refine ⟨bytes, _, t, hrun, hfin, List.Perm.refl _, ?_⟩
  rw [reads_twoStreams_iff (by decide) (chunkable_twoChunks (by decide) (by decide))
    (chunkable_twoChunks (by decide) (by decide)) rfl rfl hrun hfin .eof]
  rintro (hkey | hbefore | hbefore)
  · exact hkey (by decide)
  · revert hbefore
    unfold Before
    decide
  · revert hbefore
    unfold Before
    decide

end Conn

end Livego
