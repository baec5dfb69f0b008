import Livego.RtmpReplies

/-! Two connections and the bytes on their way between them. Messages are read in the order in which they were written,
each as soon as the last of its bytes has arrived. -/

namespace Livego

open Endian Fallible ReadWriter ChunkStream

namespace Conn

/-- The chunk size of a writer after these messages. -/
def sizeAfterAll (ms : List ChunkStream) (size : Nat) : Nat := ms.foldl (fun size m => sizeAfter m size) size

theorem sizeAfterAll_append (ms ms' : List ChunkStream) (size : Nat) :
    sizeAfterAll (ms ++ ms') size = sizeAfterAll ms' (sizeAfterAll ms size) := List.foldl_append

theorem sizeAfterAll_bounds {ms : List ChunkStream} (hms : ∀ m ∈ ms, m.Writable) {size : Nat} (hlo : 4 ≤ size)
    (hhi : size < 2 ^ 31) : 4 ≤ sizeAfterAll ms size ∧ sizeAfterAll ms size < 2 ^ 31 := by
  induction ms generalizing size with
  | nil => exact ⟨hlo, hhi⟩
  | cons m ms ih =>
      obtain ⟨hm, hms⟩ := List.forall_mem_cons.mp hms
      obtain ⟨hge, hlt⟩ := sizeAfter_bounds hm hlo hhi
      exact ih hms hge hlt

theorem sessionBytes_append (ms ms' : List ChunkStream) (size : Nat) :
    sessionBytes (ms ++ ms') size = sessionBytes ms size ++ sessionBytes ms' (sizeAfterAll ms size) := by
  induction ms generalizing size with
  | nil => rfl
  | cons m ms ih =>
      rw [List.cons_append, sessionBytes, sessionBytes, ih, List.append_assoc]
      rfl

/-- The connection once the messages are written. -/
def wrote (ms : List ChunkStream) (conn : Conn) : Conn :=
  { conn with chunkSize := sizeAfterAll ms conn.chunkSize, rw := conn.rw.write (sessionBytes ms conn.chunkSize) }

def flushed (conn : Conn) : Conn := { conn with rw := conn.rw.flush }

theorem wrote_wrote (ms ms' : List ChunkStream) (conn : Conn) : (conn.wrote ms).wrote ms' = conn.wrote (ms ++ ms') := by
  simp only [wrote, write_write, sizeAfterAll_append, sessionBytes_append]

theorem flushed_wrote_nil {conn : Conn} (h : conn.rw.buffered = []) : (conn.wrote []).flushed = conn := by
  obtain ⟨_, _, _, _, _, ⟨unread, ending, readError, sent, buffered⟩, _, _⟩ := conn
  subst h
  simp [wrote, flushed, sizeAfterAll, sessionBytes, ReadWriter.write, ReadWriter.flush]

theorem write_wrote {m : ChunkStream} (hm : m.Writable) {conn : Conn} (hlo : 4 ≤ conn.chunkSize)
    (hhi : conn.chunkSize < 2 ^ 31) : write m conn = .ok () (conn.wrote [m]) := by
  rw [write_eq hm hlo hhi]
  simp only [wrote, sizeAfterAll, List.foldl_cons, List.foldl_nil, sessionBytes, List.append_nil]

/-! ### One direction -/

/-- What `writer` has sent to `reader`: the first `arrived` bytes have arrived, and of the messages that all of it makes
`ms` are not read yet. -/
structure Link (budget : Nat) (writer : Conn) (arrived : Nat) (reader : Conn) (ms : List ChunkStream) : Prop where
  idle : Idle reader
  writable : ∀ m ∈ ms, m.Writable
  size_ge : 4 ≤ reader.remoteChunkSize
  size_lt : reader.remoteChunkSize < 2 ^ 31
  chunkSize : writer.chunkSize = sizeAfterAll ms reader.remoteChunkSize
  buffered : writer.rw.buffered = []
  arrived_le : arrived ≤ writer.rw.sent.length
  unread : reader.rw.unread ++ writer.rw.sent.drop arrived = sessionBytes ms reader.remoteChunkSize
  window : reader.remoteWindowAckSize = 2500000
  keepsWindow : ∀ m ∈ ms, windowAfter m 2500000 = 2500000
  received : reader.ackReceived + (ms.map fun m => m.length).sum ≤ budget

namespace Link

variable {budget arrived : Nat} {writer reader : Conn} {m : ChunkStream} {ms : List ChunkStream}

theorem bounds (h : Link budget writer arrived reader ms) : 4 ≤ writer.chunkSize ∧ writer.chunkSize < 2 ^ 31 := by
  rw [h.chunkSize]
  exact sizeAfterAll_bounds h.writable h.size_ge h.size_lt

/-- More of what is under way arrives. -/
theorem arrive (h : Link budget writer arrived reader ms) {n : Nat}
    (hn : n ≤ (writer.rw.sent.drop arrived).length) :
    Link budget writer (arrived + n) (reader.more ((writer.rw.sent.drop arrived).take n)) ms := by
  have hle := h.arrived_le
  rw [List.length_drop] at hn
  refine { h with idle := h.idle.more _, arrived_le := by omega, unread := ?_ }
  calc reader.rw.unread ++ (writer.rw.sent.drop arrived).take n ++ writer.rw.sent.drop (arrived + n)
      = reader.rw.unread ++ writer.rw.sent.drop arrived := by
        rw [List.append_assoc, ← List.drop_drop, List.take_append_drop]
    _ = sessionBytes ms reader.remoteChunkSize := h.unread

theorem length_assignCsid (m : ChunkStream) : m.assignCsid.length = m.length := by
  obtain ⟨csid, hcsid⟩ := assignCsid_fields m
  rw [hcsid]

theorem windowAfter_assignCsid (m : ChunkStream) (window : Nat) :
    windowAfter m.assignCsid window = windowAfter m window := by
  obtain ⟨csid, hcsid⟩ := assignCsid_fields m
  rw [hcsid]
  rfl

theorem sizeAfter_assignCsid (m : ChunkStream) (size : Nat) : sizeAfter m.assignCsid size = sizeAfter m size := by
  obtain ⟨csid, hcsid⟩ := assignCsid_fields m
  rw [hcsid]
  rfl

theorem controlReadable_assignCsid (hm : m.Writable) : ControlReadable m.assignCsid := by
  obtain ⟨csid, hcsid⟩ := assignCsid_fields m
  rw [hcsid]
  exact hm.controlReadable

/-- The reader waits while there is more to arrive, or reads the next message. -/
theorem read (h : Link budget writer arrived reader (m :: ms)) (hbudget : budget < 2500000) :
    readArrived reader = none ∧ writer.rw.sent.drop arrived ≠ [] ∨
      ∃ c reader', readArrived reader = some (.ok c reader') ∧ c.message = m.assignCsid.message ∧
        Link budget writer arrived reader' ms ∧ TookIn m.assignCsid reader reader' := by
  obtain ⟨hm, hms⟩ := List.forall_mem_cons.mp h.writable
  obtain ⟨hkeep, hkeeps⟩ := List.forall_mem_cons.mp h.keepsWindow
  have hsend := sendable_assignCsid hm.sendable
  have hbounds := sizeAfter_bounds hm h.size_ge h.size_lt
  have hreceived := h.received
  rw [List.map_cons, List.sum_cons] at hreceived
  have hwindow : windowAfter m.assignCsid reader.remoteWindowAckSize = 2500000 := by
    rw [windowAfter_assignCsid, h.window, hkeep]
  have hunread := h.unread
  rw [sessionBytes, messageBytes_sizeAfter hm h.size_ge h.size_lt] at hunread
  obtain hwaits | ⟨c, reader', hread, hmessage, hidle, hrest, htook⟩ :=
    h.idle.readArrived_message hsend (controlReadable_assignCsid hm) (by have := h.size_ge; omega)
      (by rw [hwindow]; decide) (by rw [hwindow, length_assignCsid]; omega) hunread
  · exact Or.inl hwaits
  · have hsize : reader'.remoteChunkSize = sizeAfter m reader.remoteChunkSize := by
      rw [htook.remoteChunkSize, sizeAfter_assignCsid]
    have hack : reader'.ackReceived = reader.ackReceived + m.length := by
      rw [htook.ackReceived, length_assignCsid]
    refine Or.inr ⟨c, reader', hread, hmessage, ?_, htook⟩
    exact { h with
      idle := hidle
      writable := hms
      size_ge := hsize ▸ hbounds.1
      size_lt := hsize ▸ hbounds.2
      chunkSize := by rw [hsize, h.chunkSize]; rfl
      unread := by rw [hsize, hrest]
      window := by rw [htook.remoteWindowAckSize, hwindow]
      keepsWindow := hkeeps
      received := by rw [hack]; omega }

/-- Once every message is read nothing is under way, and the reader waits. -/
theorem read_nil (h : Link budget writer arrived reader []) :
    readArrived reader = none ∧ writer.rw.sent.drop arrived = [] := by
  obtain ⟨hunread, hdrop⟩ := List.append_eq_nil_iff.mp h.unread
  exact ⟨h.idle.readArrived_nil hunread, hdrop⟩

theorem write (h : Link budget writer arrived reader ms) {ms' : List ChunkStream} (hms' : ∀ m ∈ ms', m.Writable)
    (hkeeps : ∀ m ∈ ms', windowAfter m 2500000 = 2500000) {budget' : Nat}
    (hbudget : budget + (ms'.map fun m => m.length).sum ≤ budget') :
    Link budget' (writer.wrote ms').flushed arrived reader (ms ++ ms') := by
  have hsent : (writer.wrote ms').flushed.rw.sent = writer.rw.sent ++ sessionBytes ms' writer.chunkSize := by
    simp only [wrote, flushed, ReadWriter.write, ReadWriter.flush, h.buffered, List.nil_append]
  have hreceived := h.received
  exact { h with
    writable := List.forall_mem_append.mpr ⟨h.writable, hms'⟩
    chunkSize := by
      rw [sizeAfterAll_append, ← h.chunkSize]
      rfl
    buffered := rfl
    arrived_le := by
      rw [hsent, List.length_append]
      exact h.arrived_le.trans (Nat.le_add_right _ _)
    unread := by
      rw [hsent, List.drop_append_of_le_length h.arrived_le, ← List.append_assoc, h.unread, h.chunkSize,
        sessionBytes_append]
    keepsWindow := List.forall_mem_append.mpr ⟨h.keepsWindow, hkeeps⟩
    received := by
      rw [List.map_append, List.sum_append]
      omega }

/-- What the writer reads is no matter. -/
theorem of_tookIn (h : Link budget writer arrived reader ms) {writer' : Conn} (htook : TookIn m writer writer') :
    Link budget writer' arrived reader ms :=
  { h with
    chunkSize := htook.chunkSize.trans h.chunkSize
    buffered := htook.buffered.trans h.buffered
    arrived_le := htook.sent ▸ h.arrived_le
    unread := htook.sent ▸ h.unread }

/-- What arrives at the writer is no matter. -/
theorem of_more (h : Link budget writer arrived reader ms) (q : Bytes) :
    Link budget (writer.more q) arrived reader ms := { h with }

/-- What the reader writes is no matter. -/
theorem of_wrote (h : Link budget writer arrived reader ms) {ms' : List ChunkStream} (hms' : ∀ m ∈ ms', m.Writable)
    (hlo : 4 ≤ reader.chunkSize) (hhi : reader.chunkSize < 2 ^ 31) :
    Link budget writer arrived (reader.wrote ms').flushed ms := by
  obtain ⟨hge, hlt⟩ := sizeAfterAll_bounds hms' hlo hhi
  have hsize : u32 (sizeAfterAll ms' reader.chunkSize) ≠ 0 := by
    rw [u32_of_lt (by omega)]
    omega
  exact { h with idle := ⟨⟨h.idle.inv.drained, h.idle.inv.entries, hsize⟩, h.idle.readError, h.idle.entries⟩ }

end Link

/-! ### Both directions -/

/-- Two connections that write to each other, `b` with `ups` still to read and `a` with `downs`. -/
structure Linked (most most' : Nat) (a b : Conn) (toB toA : Nat) (ups downs : List ChunkStream) : Prop where
  up : Link most a toB b ups
  down : Link most' b toA a downs

namespace Linked

variable {most most' toB toA : Nat} {a b : Conn} {m : ChunkStream} {ups downs ms : List ChunkStream}

theorem symm (h : Linked most most' a b toB toA ups downs) : Linked most' most b a toA toB downs ups := ⟨h.down, h.up⟩

theorem arrive (h : Linked most most' a b toB toA ups downs) {n : Nat} (hn : n ≤ (a.rw.sent.drop toB).length) :
    Linked most most' a (b.more ((a.rw.sent.drop toB).take n)) (toB + n) toA ups downs :=
  ⟨h.up.arrive hn, h.down.of_more _⟩

theorem read (h : Linked most most' a b toB toA (m :: ups) downs) (hmost : most < 2500000) :
    readArrived b = none ∧ a.rw.sent.drop toB ≠ [] ∨
      ∃ c b', readArrived b = some (.ok c b') ∧ c.message = m.assignCsid.message ∧
        Linked most most' a b' toB toA ups downs := by
  obtain hwaits | ⟨c, b', hread, hmessage, hup, htook⟩ := h.up.read hmost
  · exact Or.inl hwaits
  · exact Or.inr ⟨c, b', hread, hmessage, hup, h.down.of_tookIn htook⟩

theorem write (h : Linked most most' a b toB toA ups downs) (hms : ∀ m ∈ ms, m.Writable)
    (hkeeps : ∀ m ∈ ms, windowAfter m 2500000 = 2500000) {most'' : Nat}
    (hmost : most' + (ms.map fun m => m.length).sum ≤ most'') :
    Linked most most'' a (b.wrote ms).flushed toB toA ups (downs ++ ms) :=
  ⟨h.up.of_wrote hms h.down.bounds.1 h.down.bounds.2, h.down.write hms hkeeps hmost⟩

end Linked

/-- Two fresh connections. -/
theorem linked_newConn (ending ending' : GoError) :
    Linked 0 0 (newConn { unread := [], ending }) (newConn { unread := [], ending := ending' }) 0 0 [] [] := by
  have hlink : ∀ ending ending', Link 0 (newConn { unread := [], ending }) 0
      (newConn { unread := [], ending := ending' }) [] := by
    intro ending ending'
    exact ⟨idle_newConn [] ending', by simp, (by decide : 4 ≤ 128), (by decide : 128 < 2 ^ 31), rfl, rfl, le_refl 0,
      rfl, rfl, by simp, le_refl 0⟩
  exact ⟨hlink ending ending', hlink ending' ending⟩

end Conn

end Livego
