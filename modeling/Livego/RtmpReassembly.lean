import Livego.RtmpArrival

/-! What the entries of a connection hold, on any stream: the bytes of a message that are there and those that are
missing add up, and the bytes that are there came from the stream in their order. -/

namespace Livego

open Endian Fallible ReadWriter

namespace ChunkStream

/-- The counters of an entry whose message has been announced. -/
structure Counted (e : ChunkStream) : Prop where
  data_length : e.data.length = e.length
  index_remain : e.index + e.remain = e.length
  got_iff : e.got = true ↔ e.remain = 0

/-- The bytes of the message that have been read and counted. -/
def filled (e : ChunkStream) : Bytes := e.data.take e.index

/-- The next chunk is read into the buffer: its slice starts no later than it ends, and ends in the buffer. -/
def InRange (e : ChunkStream) (chunkSize : Nat) : Prop :=
  let stop := u32 (e.index + if e.remain > chunkSize then chunkSize else e.remain)
  e.index ≤ stop ∧ stop ≤ e.data.length

theorem Counted.spilled {e : ChunkStream} (h : Counted e) {buf : Bytes} (hbuf : buf.length ≤ e.remain) :
    Counted (e.spilled buf) := by
  have hlen := h.data_length
  have hsum := h.index_remain
  refine ⟨?_, h.index_remain, h.got_iff⟩
  show (e.data.take e.index ++ buf ++ e.data.drop (e.index + buf.length)).length = e.length
  simp only [List.length_append, List.length_take, List.length_drop]
  omega

/-- What has spilled into the buffer does not count. -/
theorem filled_spilled {e : ChunkStream} (he : WellFormed e) (buf : Bytes) : (e.spilled buf).filled = e.filled := by
  have hlen := he.data_length
  have hsum := he.index_remain
  have hindex : (e.data.take e.index).length = e.index := by
    rw [List.length_take]
    omega
  show (e.data.take e.index ++ buf ++ e.data.drop (e.index + buf.length)).take e.index = e.data.take e.index
  rw [List.append_assoc, List.take_left' hindex]

theorem filled_counted {e : ChunkStream} (he : WellFormed e) (buf : Bytes) :
    (e.counted buf).filled = e.filled ++ buf := by
  have hlen := he.data_length
  have hsum := he.index_remain
  have hindex : (e.data.take e.index ++ buf).length = e.index + buf.length := by
    rw [List.length_append, List.length_take]
    omega
  show (e.data.take e.index ++ buf ++ e.data.drop (e.index + buf.length)).take (e.index + buf.length) = _
  exact List.take_left' hindex

theorem counted_counted {e : ChunkStream} (he : WellFormed e) (hgot : e.got = false) {buf : Bytes}
    (hbuf : buf.length ≤ e.remain) : Counted (e.counted buf) := by
  have hwf := he.counted hbuf
  refine ⟨hwf.data_length, hwf.index_remain, ?_⟩
  show (if e.remain - buf.length = 0 then true else e.got) = true ↔ e.remain - buf.length = 0
  rw [hgot]
  split_ifs with hzero
  · exact iff_of_true rfl hzero
  · exact iff_of_false (by simp) hzero

/-- A header starts a message with an empty buffer, or it goes on with the one that is there. -/
theorem readHeader_opens {e : ChunkStream} (he : WellFormed e) (s : ReadWriter × Pool) :
    (e.readHeader s).Sat (fun e' _ => e'.got = false ∧ (e'.filled = [] ∨ e'.filled = e.filled ∧ e.remain ≠ 0))
      (fun _ _ => True) True := by
  obtain ⟨r, pool⟩ := s
  have hnew : ∀ (e' : ChunkStream) (r' : ReadWriter), (e'.new (r', pool)).Sat
      (fun e' _ => e'.got = false ∧ (e'.filled = [] ∨ e'.filled = e.filled ∧ e.remain ≠ 0)) (fun _ _ => True) True := by
    intro e' r'
    unfold new
    dsimp only
    split
    · trivial
    · exact ⟨rfl, Or.inl rfl⟩
  unfold readHeader
  dsimp only
  split
  · exact hnew _ _
  · exact hnew _ _
  · exact hnew _ _
  · by_cases hzero : e.remain = 0
    · rw [if_pos hzero]
      exact hnew _ _
    · rw [if_neg hzero]
      refine (skipExtended_sat e (r, pool)).imp ?_ (fun _ _ _ => trivial) False.elim
      intro e' s' h
      rw [h.1]
      exact ⟨he.not_got hzero, Or.inr ⟨rfl, hzero⟩⟩
  · trivial

theorem readPayload_fills {e : ChunkStream} (he : WellFormed e) (hgot : e.got = false) (chunkSize : Nat)
    (s : ReadWriter × Pool) :
    (e.readPayload chunkSize s).Sat
      (fun e' s' => Counted e' ∧ ∃ buf, e'.filled = e.filled ++ buf ∧ s.1.unread = buf ++ s'.1.unread)
      (fun _ _ => True) False := by
  obtain ⟨r, pool⟩ := s
  rw [readPayload_eq he]
  rcases read_cases (min e.remain chunkSize) r with ⟨err, r', hread, -⟩ | ⟨-, -, hread⟩
  · rw [hread]
    trivial
  · rw [hread]
    refine ⟨counted_counted he hgot ?_, _, filled_counted he _, (List.take_append_drop _ _).symm⟩
    rw [List.length_take]
    omega

/-- A chunk that is read leaves an entry that counts its bytes, alone or behind those of the message it goes on with. -/
theorem readChunk_fills {e : ChunkStream} {r : ReadWriter} (he : WellFormed e) (hd : r.Drained)
    (hformat : e.tmpFromat ≤ 3) (chunkSize : Nat) (pool : Pool) :
    (e.readChunk chunkSize (r, pool)).Sat
      (fun e' s' => Counted e' ∧ ∃ old buf, (old = [] ∨ old = e.filled ∧ e.remain ≠ 0) ∧ e'.filled = old ++ buf ∧
        buf ++ s'.1.unread <:+ r.unread)
      (fun _ _ => True) True := by
  obtain ⟨csid, hentry⟩ := readBasicId_entry e r
  have hid := readBasicId_later e r
  have he' := he.readBasicId r
  have hsame : (e.readBasicId r).1.filled = e.filled ∧ (e.readBasicId r).1.remain = e.remain := by
    rw [hentry]
    exact ⟨rfl, rfl⟩
  have hformat' := (readBasicId_tmpFromat e r).trans_le hformat
  have hheader := ((readHeader_wellFormed he' (hid.drained hd) hformat' pool).1.and
    (readHeader_opens he' ((e.readBasicId r).2, pool))).and
      (readHeader_later (e.readBasicId r).1 ((e.readBasicId r).2, pool))
  unfold readChunk
  dsimp only
  split
  · trivial
  · refine Outcome.Sat.bind (hheader.imp (fun _ _ h => h) (fun _ _ _ => trivial) fun _ => trivial) ?_
    intro e'' s'' h
    obtain ⟨⟨hwf, hgot, hold⟩, hlater⟩ := h
    refine (readPayload_fills hwf hgot chunkSize s'').imp ?_ (fun _ _ _ => trivial) False.elim
    intro e''' s''' h
    obtain ⟨hcounted, buf, hfilled, hunread⟩ := h
    rw [hsame.1, hsame.2] at hold
    refine ⟨hcounted, e''.filled, buf, hold, hfilled, ?_⟩
    rw [← hunread]
    exact (hid.trans hlater).suffix

/-- The header of a chunk that is read leaves a slice in the buffer. -/
theorem inRange_of_wellFormed {e : ChunkStream} (he : WellFormed e) (chunkSize : Nat) : InRange e chunkSize := by
  have hlen := he.data_length
  have hsum := he.index_remain
  have hle := he.length_le
  simp only [maxpoolsize] at hle
  unfold InRange
  dsimp only
  split_ifs with hgt
  · rw [u32_of_lt (by omega)]
    omega
  · rw [u32_of_lt (by omega)]
    omega

/-- What still arrives of a chunk that cannot be read is the rest of the stream. -/
theorem readPayload_short {e : ChunkStream} {chunkSize : Nat} {r : ReadWriter} {pool : Pool} {err : GoError}
    {s : ReadWriter × Pool} (he : WellFormed e) (h : e.readPayload chunkSize (r, pool) = .err err s) (buf : Bytes)
    (hbuf : buf = if r.readError.isSome then [] else
      r.unread.take (if e.remain > chunkSize then chunkSize else e.remain)) (hne : buf ≠ []) :
    buf.length < e.remain ∧ buf = r.unread ∧ s.1.readError ≠ none := by
  have hsize : (if e.remain > chunkSize then chunkSize else e.remain) = min e.remain chunkSize := by
    split_ifs <;> omega
  have herr := (readPayload_err e chunkSize (r, pool)).of_err h
  rw [readPayload_eq he] at h
  rw [hsize] at hbuf
  cases hr : r.readError with
  | some err' =>
      rw [hr] at hbuf
      exact absurd hbuf hne
  | none =>
      rw [hr] at hbuf
      have hbuf : buf = r.unread.take (min e.remain chunkSize) := hbuf
      have hshort : r.unread.length < min e.remain chunkSize := by
        by_contra hlong
        simp [ReadWriter.read, hr, not_lt.mp hlong] at h
      rw [List.take_of_length_le hshort.le] at hbuf
      subst hbuf
      exact ⟨by omega, rfl, herr⟩

/-- A chunk that cannot be read leaves in the buffer what the stream still had of it, which is something only inside a
message and where the stream ends. -/
theorem readChunk_spills {e : ChunkStream} {chunkSize : Nat} {r : ReadWriter} {pool : Pool} {err : GoError}
    {s : ReadWriter × Pool} (he : WellFormed e) (h : e.readChunk chunkSize (r, pool) = .err err s) :
    ∃ buf, e.overwritten chunkSize (r, pool) = (e.spilled buf).data ∧
      (buf ≠ [] → e.tmpFromat = 3 ∧ buf.length < e.remain ∧ buf <:+ r.unread ∧ s.1.readError ≠ none) := by
  by_cases hnew : e.remain = 0 ∨ e.tmpFromat ≠ 3
  · refine ⟨[], ?_, fun hne => absurd rfl hne⟩
    rw [overwritten, if_pos hnew, spilled_nil]
  have hin : e.remain ≠ 0 ∧ e.tmpFromat = 3 := by rwa [not_or, not_not] at hnew
  obtain ⟨csid, hentry⟩ := readBasicId_entry e r
  have hid := readBasicId_later e r
  have hskipped := skipExtended_sat (e.readBasicId r).1 ((e.readBasicId r).2, pool)
  have hwf := he.readBasicId r
  rw [readChunk_continues hin.1 hin.2, Call.bind_apply] at h
  unfold overwritten
  dsimp only
  rw [if_neg hnew]
  cases hskip : (e.readBasicId r).1.skipExtended ((e.readBasicId r).2, pool) with
  | ok e' s' =>
      obtain ⟨rfl, hlater⟩ := hskipped.of_ok hskip
      simp only [hskip] at h
      have hshort := readPayload_short hwf h
      rw [hentry] at hshort ⊢
      refine ⟨_, rfl, fun hne => ?_⟩
      obtain ⟨hlt, hrest, herr⟩ := hshort _ rfl hne
      refine ⟨hin.2, hlt, ?_, herr⟩
      rw [hrest]
      exact (hid.trans hlater).suffix
  | err err' s' =>
      refine ⟨[], ?_, fun hne => absurd rfl hne⟩
      rw [spilled_nil, hentry]
  | panic p => simp [hskip] at h
  | diverge => simp [hskip] at h

end ChunkStream

open ChunkStream

namespace Conn

/-- A connection that has done nothing but read the stream `incoming`. -/
inductive ReadFrom (incoming : Bytes) (ending : GoError) : Conn → Prop
  | fresh : ReadFrom incoming ending (newConn { unread := incoming, ending })
  | message {conn conn' : Conn} {c : ChunkStream} (h : ReadFrom incoming ending conn)
      (hread : read conn = .ok c conn') : ReadFrom incoming ending conn'
  | failed {conn conn' : Conn} {e : GoError} (h : ReadFrom incoming ending conn)
      (hread : read conn = .err e conn') : ReadFrom incoming ending conn'

/-- The bytes of `b` were read from the stream before the connection came to `conn`, in the order they have in `b`. -/
def HasRead (incoming : Bytes) (conn : Conn) (b : Bytes) : Prop :=
  ∃ consumed, incoming = consumed ++ conn.rw.unread ∧ b.Sublist consumed

/-- The next chunk, if its header can be read, is read into its entry's buffer. -/
def SliceInRange (conn : Conn) : Prop :=
  ∀ e s, (conn.prepared.readBasicId (conn.rw.readUintBE 1).2).1.readHeader
      ((conn.prepared.readBasicId (conn.rw.readUintBE 1).2).2, conn.pool) = .ok e s →
    e.InRange conn.remoteChunkSize

/-- What a chunk that cannot be read leaves of an entry. Nothing has spilled into its buffer, unless the chunk goes on
with the message of this entry and the stream has ended inside it. -/
def Leaves (conn conn' : Conn) (key : Nat) (e : ChunkStream) : Prop :=
  ∃ buf, conn'.chunks key = some (e.spilled buf) ∧
    (buf ≠ [] → conn.nextByte >>> 6 = 3 ∧ conn.nextByte &&& 0x3f = key ∧ buf.length < e.remain ∧
      buf <:+ conn.rw.unread ∧ conn'.rw.readError ≠ none ∧ conn'.rw.unread = [])

/-- The entries of a connection and what its next chunk does to them. -/
structure Reassembles (conn : Conn) : Prop where
  entries : ∀ key e, conn.chunks key = some e → e = {} ∨ Counted e
  slices : SliceInRange conn
  failed : ∀ err conn', readTurn () conn = .err err conn' →
    ∀ key, (conn.chunks key = none → conn'.chunks key = none ∨ conn'.chunks key = some {}) ∧
      ∀ e, conn.chunks key = some e → Leaves conn conn' key e

/-- The invariant of a connection on the stream `incoming`: its entries are counted, and what they hold was read. -/
structure Sourced (incoming : Bytes) (conn : Conn) : Prop where
  entries : ∀ key e, conn.chunks key = some e → e = {} ∨ Counted e
  filled : ∃ consumed, incoming = consumed ++ conn.rw.unread ∧
    ∀ key e, conn.chunks key = some e → e.filled.Sublist consumed

theorem sourced_newConn (incoming : Bytes) (ending : GoError) :
    Sourced incoming (newConn { unread := incoming, ending }) :=
  ⟨fun _ _ h => by simp [newConn] at h, [], rfl, fun _ _ h => by simp [newConn] at h⟩

/-- An entry is written that holds, beyond what the entry of the next chunk held, bytes that were taken since. -/
theorem Sourced.updated {incoming : Bytes} {conn : Conn} (h : Sourced incoming conn) {rw : ReadWriter} {pool : Pool}
    {e : ChunkStream} (taken : Bytes) (hunread : conn.rw.unread = taken ++ rw.unread) (he : e = {} ∨ Counted e)
    (hfilled : ∀ consumed, conn.nextEntry.filled.Sublist consumed → e.filled.Sublist (consumed ++ taken)) :
    Sourced incoming { conn with
      rw := rw
      pool := pool
      chunks := Function.update conn.chunks (conn.nextByte &&& 0x3f) (some e) } := by
  obtain ⟨consumed, hincoming, hconsumed⟩ := h.filled
  have hnext : conn.nextEntry.filled.Sublist consumed := by
    unfold nextEntry
    cases hc : conn.chunks (conn.nextByte &&& 0x3f) with
    | none => exact List.nil_sublist _
    | some e' => exact hconsumed _ _ hc
  refine ⟨forall_updated h.entries he, consumed ++ taken, ?_, ?_⟩
  · calc
      incoming = consumed ++ conn.rw.unread := hincoming
      _ = consumed ++ (taken ++ rw.unread) := by rw [hunread]
      _ = consumed ++ taken ++ rw.unread := (List.append_assoc _ _ _).symm
  · refine forall_updated (P := fun e => e.filled.Sublist (consumed ++ taken)) ?_ (hfilled consumed hnext)
    intro key e' hentry
    exact (hconsumed key e' hentry).trans (List.sublist_append_left _ _)

theorem Sourced.nextEntry_counted {incoming : Bytes} {conn : Conn} (h : Sourced incoming conn) :
    conn.nextEntry = {} ∨ Counted conn.nextEntry := by
  unfold nextEntry
  cases hc : conn.chunks (conn.nextByte &&& 0x3f) with
  | none => exact Or.inl rfl
  | some e => exact h.entries _ _ hc

theorem Sourced.nextEntry_spilled {incoming : Bytes} {conn : Conn} (h : Sourced incoming conn) {buf : Bytes}
    (hbuf : buf.length ≤ conn.nextEntry.remain) :
    conn.nextEntry.spilled buf = {} ∨ Counted (conn.nextEntry.spilled buf) := by
  rcases h.nextEntry_counted with hdefault | hcounted
  · rw [hdefault] at hbuf ⊢
    have hnil : buf = [] := List.eq_nil_of_length_eq_zero (Nat.le_zero.mp hbuf)
    exact Or.inl (by rw [hnil, spilled_nil])
  · exact Or.inr (hcounted.spilled hbuf)

/-- The slice of the next chunk is in range whatever the stream holds. -/
theorem sliceInRange {conn : Conn} (h : Inv conn) : SliceInRange conn := by
  intro e s hheader
  have hd := (readUintBE_later (n := 1) (by decide) conn.rw).drained h.drained
  have hd' := (readBasicId_later conn.prepared (conn.rw.readUintBE 1).2).drained hd
  have hformat := (readBasicId_tmpFromat conn.prepared (conn.rw.readUintBE 1).2).trans_le (nextByte_format conn)
  have hwf := (prepared_wellFormed h).readBasicId (conn.rw.readUintBE 1).2
  exact inRange_of_wellFormed ((readHeader_wellFormed hwf hd' hformat conn.pool).1.of_ok hheader) _

/-- A chunk that is read keeps the invariant, and the message it completes is the one in its entry. -/
theorem Sourced.readTurn_ok {incoming : Bytes} {conn conn' : Conn} {r : Unit ⊕ ChunkStream}
    (h : Sourced incoming conn) (hinv : Inv conn) (hturn : readTurn () conn = .ok r conn') :
    Sourced incoming conn' ∧
      ∀ c, r = .inr c → c.got = true ∧ conn'.chunks (conn.nextByte &&& 0x3f) = some c := by
  have hd := (readUintBE_later (n := 1) (by decide) conn.rw).drained hinv.drained
  have hfirst := (readUintBE_later (n := 1) (by decide) conn.rw).suffix
  have hfills := readChunk_fills (prepared_wellFormed hinv) hd (nextByte_format conn) conn.remoteChunkSize conn.pool
  rw [readTurn_eq hinv.drained] at hturn
  cases hchunk : conn.prepared.readChunk conn.remoteChunkSize ((conn.rw.readUintBE 1).2, conn.pool) with
  | ok cs s =>
      obtain ⟨hcounted, old, buf, hold, hfilled, hsuffix⟩ := hfills.of_ok hchunk
      rw [hchunk] at hturn
      cases hturn
      obtain ⟨header, hheader⟩ := hsuffix.trans hfirst
      refine ⟨h.updated (header ++ buf) ?_ (Or.inr hcounted) ?_, ?_⟩
      · rw [List.append_assoc]
        exact hheader.symm
      · intro consumed hconsumed
        have hsub : old.Sublist consumed := by
          rcases hold with rfl | ⟨rfl, -⟩
          · exact List.nil_sublist _
          · exact hconsumed
        rw [hfilled, ← List.append_assoc]
        exact (hsub.trans (List.sublist_append_left _ _)).append (List.Sublist.refl _)
      · intro c hc
        split_ifs at hc with hfull
        cases hc
        exact ⟨hfull, Function.update_self _ _ _⟩
  | err e s => simp [hchunk] at hturn
  | panic p => simp [hchunk] at hturn
  | diverge => simp [hchunk] at hturn

/-- A chunk that cannot be read keeps the invariant too. -/
theorem Sourced.readTurn_err {incoming : Bytes} {conn conn' : Conn} {err : GoError} (h : Sourced incoming conn)
    (hinv : Inv conn) (hturn : readTurn () conn = .err err conn') :
    Sourced incoming conn' ∧ ∀ key, (conn.chunks key = none → conn'.chunks key = none ∨ conn'.chunks key = some {}) ∧
      ∀ e, conn.chunks key = some e → Leaves conn conn' key e := by
  have hd := (readUintBE_later (n := 1) (by decide) conn.rw).drained hinv.drained
  have hfirst := (readUintBE_later (n := 1) (by decide) conn.rw).suffix
  have hlater := readChunk_later conn.prepared conn.remoteChunkSize ((conn.rw.readUintBE 1).2, conn.pool)
  rw [readTurn_eq hinv.drained] at hturn
  cases hchunk : conn.prepared.readChunk conn.remoteChunkSize ((conn.rw.readUintBE 1).2, conn.pool) with
  | err e s =>
      have hrest := hlater.of_err hchunk
      obtain ⟨taken, htaken⟩ := hrest.suffix.trans hfirst
      obtain ⟨buf, hover, hbuf⟩ := readChunk_spills (prepared_wellFormed hinv) hchunk
      have hle : buf.length ≤ conn.nextEntry.remain := by
        by_cases hne : buf = []
        · simp [hne]
        · exact (hbuf hne).2.1.le
      have hleft : conn.leftBehind = conn.nextEntry.spilled buf := by
        rw [leftBehind, hover]
        rfl
      rw [hchunk, hleft] at hturn
      cases hturn
      refine ⟨h.updated taken htaken.symm (h.nextEntry_spilled hle) ?_, ?_⟩
      · intro consumed hconsumed
        rw [filled_spilled (nextEntry_wellFormed hinv)]
        exact hconsumed.trans (List.sublist_append_left _ _)
      · intro key
        dsimp only
        by_cases hkey : key = conn.nextByte &&& 0x3f
        · subst key
          rw [Function.update_self]
          constructor
          · intro hnew
            have hdefault : conn.nextEntry = {} := by rw [nextEntry, hnew]; rfl
            rw [hdefault] at hle ⊢
            have hnil : buf = [] := List.eq_nil_of_length_eq_zero (Nat.le_zero.mp hle)
            exact Or.inr (by rw [hnil, spilled_nil])
          · intro e' hentry
            have hsame : conn.nextEntry = e' := by rw [nextEntry, hentry]; rfl
            rw [← hsame]
            refine ⟨buf, Function.update_self _ _ _, fun hne => ?_⟩
            obtain ⟨hformat, hlt, hsuffix, herr⟩ := hbuf hne
            exact ⟨hformat, rfl, hlt, hsuffix.trans hfirst, herr, hrest.drained hd herr⟩
        · rw [Function.update_of_ne hkey]
          refine ⟨Or.inl, fun e' hentry => ⟨[], ?_, fun hne => absurd rfl hne⟩⟩
          rw [spilled_nil, ← hentry]
          exact Function.update_of_ne hkey _ _
  | ok cs s => simp [hchunk] at hturn
  | panic p => simp [hchunk] at hturn
  | diverge => simp [hchunk] at hturn

/-- A message that is returned leaves the reading side as the turn left it that completed it. -/
theorem Sourced.finish_keeps {incoming : Bytes} {conn : Conn} (h : Sourced incoming conn) (hinv : Inv conn)
    {c : ChunkStream} {key : Nat} (hentry : conn.chunks key = some c) :
    (finish c conn).Sat
      (fun c' conn' => Inv conn' ∧ Sourced incoming conn' ∧ c' = c ∧ conn'.chunks key = some c)
      (fun _ conn' => Inv conn' ∧ Sourced incoming conn') True := by
  obtain ⟨hsat, hpanics⟩ := finish_sat hinv c
  by_cases hc : ControlReadable c
  · obtain ⟨conn', hfinish, hsame⟩ := finish_eq conn hc hinv.chunkSize_ne
    obtain ⟨-, hinv'⟩ := hsat.of_ok hfinish
    have hchunks : conn'.chunks = conn.chunks := hsame.chunks
    have hunread : conn'.rw.unread = conn.rw.unread := hsame.unread
    rw [hfinish]
    refine ⟨hinv', ⟨hchunks ▸ h.entries, ?_⟩, rfl, hchunks ▸ hentry⟩
    rw [hchunks, hunread]
    exact h.filled
  · exact (hpanics hc).sat trivial

/-- Every call of `read` keeps the invariant, and the message it returns is complete and in its entry. -/
theorem Sourced.read_keeps {incoming : Bytes} {conn : Conn} (h : Sourced incoming conn) (hinv : Inv conn) :
    (read conn).Sat
      (fun c conn' => Inv conn' ∧ Sourced incoming conn' ∧ c.got = true ∧ ∃ key, conn'.chunks key = some c)
      (fun _ conn' => Inv conn' ∧ Sourced incoming conn') True := by
  refine sat_read (I := fun s => Inv s ∧ Sourced incoming s) ?_ ⟨hinv, h⟩
  intro s hs
  have hsat := (readTurn_sat hs.1).1
  cases hturn : readTurn () s with
  | ok r s' =>
      obtain ⟨hinv', -⟩ := hsat.of_ok hturn
      obtain ⟨hsourced, hcomplete⟩ := hs.2.readTurn_ok hs.1 hturn
      cases r with
      | inl _ => exact ⟨hinv', hsourced⟩
      | inr c =>
          obtain ⟨hgot, hentry⟩ := hcomplete c rfl
          refine (hsourced.finish_keeps hinv' hentry).imp ?_ (fun _ _ h => h) id
          intro c' s'' hfinish
          obtain ⟨hinv'', hsourced', hsame, hentry'⟩ := hfinish
          exact ⟨hinv'', hsourced', hsame ▸ hgot, _, hsame ▸ hentry'⟩
  | err e s' => exact ⟨(hsat.of_err hturn).1, (hs.2.readTurn_err hs.1 hturn).1⟩
  | panic p => trivial
  | diverge => exact absurd hturn hsat.ne_diverge

theorem ReadFrom.sourced {incoming : Bytes} {ending : GoError} {conn : Conn} (h : ReadFrom incoming ending conn) :
    Inv conn ∧ Sourced incoming conn := by
  induction h with
  | fresh => exact ⟨inv_newConn incoming ending, sourced_newConn incoming ending⟩
  | message _ hread ih =>
      obtain ⟨hinv, hsourced, -⟩ := (ih.2.read_keeps ih.1).of_ok hread
      exact ⟨hinv, hsourced⟩
  | failed _ hread ih => exact (ih.2.read_keeps ih.1).of_err hread

theorem Sourced.comesTo {incoming : Bytes} {conn conn' : Conn} (h : Sourced incoming conn) (hinv : Inv conn)
    (hcomes : ComesTo conn conn') : Inv conn' ∧ Sourced incoming conn' := by
  refine Call.Visits.invariant (I := fun _ conn => Inv conn ∧ Sourced incoming conn) hcomes ⟨hinv, h⟩ ?_
  intro _ s _ s' hs hturn
  exact ⟨((readTurn_sat hs.1).1.of_ok hturn).1, (hs.2.readTurn_ok hs.1 hturn).1⟩

/-- A complete message is all that has been read of it. -/
theorem filled_of_got {c : ChunkStream} (hc : Counted c) (hgot : c.got = true) : c.filled = c.data := by
  have hlen := hc.data_length
  have hsum := hc.index_remain
  have hzero := hc.got_iff.mp hgot
  exact List.take_of_length_le (by omega)

/-- On every stream the entries are counted wherever `read` has come to, and what it returns is from the stream. -/
theorem ReadFrom.reassembles {incoming : Bytes} {ending : GoError} {conn : Conn}
    (h : ReadFrom incoming ending conn) :
    (∀ conn', ComesTo conn conn' → Reassembles conn') ∧
      ∀ c conn', read conn = .ok c conn' → HasRead incoming conn' c.data := by
  obtain ⟨hinv, hsourced⟩ := h.sourced
  constructor
  · intro conn' hcomes
    obtain ⟨hinv', hsourced'⟩ := hsourced.comesTo hinv hcomes
    exact ⟨hsourced'.entries, sliceInRange hinv', fun _ _ hturn => (hsourced'.readTurn_err hinv' hturn).2⟩
  · intro c conn' hread
    obtain ⟨-, hsourced', hgot, key, hentry⟩ := (hsourced.read_keeps hinv).of_ok hread
    have hcounted : Counted c := by
      rcases hsourced'.entries key c hentry with hdefault | hcounted
      · rw [hdefault] at hgot
        cases hgot
      · exact hcounted
    obtain ⟨consumed, hincoming, hfilled⟩ := hsourced'.filled
    refine ⟨consumed, hincoming, ?_⟩
    rw [← filled_of_got hcounted hgot]
    exact hfilled key c hentry

/-- A message of 130 bytes that breaks off in its second chunk, one byte before its end. -/
def brokenStream : Bytes := [0x03, 0, 0, 0, 0, 0, 130, 9, 0, 0, 0, 0] ++ List.replicate 128 5 ++ [0xc3, 7]

theorem reassembles_broken :
    (∀ conn', ComesTo (newConn { unread := brokenStream }) conn' → Reassembles conn') ∧
      ∀ c conn', read (newConn { unread := brokenStream }) = .ok c conn' → HasRead brokenStream conn' c.data :=
  ReadFrom.reassembles (@ReadFrom.fresh brokenStream .eof)

set_option maxRecDepth 8000 in
/-- The byte that arrives of the second chunk stands in the entry that the first one left, though the chunk fails. -/
theorem entry_overwritten :
    ∃ conn conn' e e', ReadFrom brokenStream .eof (newConn { unread := brokenStream }) ∧
      ComesTo (newConn { unread := brokenStream }) conn ∧ readTurn () conn = .err .unexpectedEOF conn' ∧
        conn.chunks 3 = some e ∧ conn'.chunks 3 = some e' ∧
          e.data.drop 128 = [0, 0] ∧ e'.data.drop 128 = [7, 0] ∧ e' ≠ e :=
  ⟨_, _, _, _, .fresh, .next rfl (.here () _), rfl, rfl, rfl, rfl, rfl,
    fun h => absurd (congrArg (fun e => e.data.drop 128) h) (by decide)⟩

end Conn

end Livego
