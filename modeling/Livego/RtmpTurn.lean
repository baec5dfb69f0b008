import Livego.RtmpChunkRoundTrip

/-! What one turn of the reader does on any stream: the entries stay well-formed, the stream gets
shorter, and the one slice that can go out of range is the pool's, on a header that announces more
than a pool buffer holds. -/

namespace Livego

open Endian Fallible ReadWriter

namespace ReadWriter

/-- A property that the reader of a header has if the readers of its numbers have it. -/
structure Inherited (P : ∀ {α : Type}, (ReadWriter → α × ReadWriter) → Prop) : Prop where
  pure : ∀ {α : Type} (a : α), P fun r => (a, r)
  bind : ∀ {α β : Type} {f : ReadWriter → α × ReadWriter} {g : α → ReadWriter → β × ReadWriter}, P f →
    (∀ a, P (g a)) → P fun r => g (f r).1 (f r).2
  uintBE : ∀ {n : Nat}, n ≤ 4 → P (readUintBE n)
  uintLE : ∀ {n : Nat}, n ≤ 4 → P (readUintLE n)

namespace Inherited

variable {P : ∀ {α : Type}, (ReadWriter → α × ReadWriter) → Prop}

theorem readBasicId (h : Inherited P) (e : ChunkStream) : P e.readBasicId := by
  unfold ChunkStream.readBasicId
  split
  · exact h.bind (h.uintLE (n := 1) (by decide)) fun id => h.pure { e with csid := u32 (id + 64) }
  · exact h.bind (h.uintLE (n := 2) (by decide)) fun id => h.pure { e with csid := u32 (id + 64) }
  · exact h.pure e

theorem readExtended (h : Inherited P) (ts : Nat) : P (ChunkStream.readExtended ts) := by
  unfold ChunkStream.readExtended
  by_cases hts : ts = 0xffffff
  · simp only [if_pos hts]
    exact h.bind (h.uintBE (n := 4) (by decide)) fun timestamp => h.pure (timestamp, true)
  · simp only [if_neg hts]
    exact h.pure (ts, false)

theorem readFull (h : Inherited P) (e : ChunkStream) : P e.readFull :=
  h.bind (h.uintBE (n := 3) (by decide)) fun timestamp => h.bind (h.uintBE (n := 3) (by decide)) fun length =>
    h.bind (h.uintBE (n := 1) (by decide)) fun typeID => h.bind (h.uintLE (n := 4) (by decide)) fun streamID =>
      h.bind (h.readExtended timestamp) fun ts => h.pure
        { e with format := e.tmpFromat, timestamp := ts.1, length, typeID, streamID, exted := ts.2 }

theorem readSameStream (h : Inherited P) (e : ChunkStream) : P e.readSameStream :=
  h.bind (h.uintBE (n := 3) (by decide)) fun timeStamp => h.bind (h.uintBE (n := 3) (by decide)) fun length =>
    h.bind (h.uintBE (n := 1) (by decide)) fun typeID => h.bind (h.readExtended timeStamp) fun ts => h.pure
      { e with format := e.tmpFromat, length, typeID, exted := ts.2, timeDelta := ts.1,
               timestamp := u32 (e.timestamp + ts.1) }

theorem readDelta (h : Inherited P) (e : ChunkStream) : P e.readDelta :=
  h.bind (h.uintBE (n := 3) (by decide)) fun timeStamp => h.bind (h.readExtended timeStamp) fun ts => h.pure
    { e with format := e.tmpFromat, exted := ts.2, timeDelta := ts.1, timestamp := u32 (e.timestamp + ts.1) }

theorem readRepeated (h : Inherited P) (e : ChunkStream) : P e.readRepeated := by
  have hdelta : P fun r => if e.exted = true then r.readUintBE 4 else (e.timeDelta, r) := by
    by_cases hexted : e.exted = true
    · simp only [if_pos hexted]
      exact h.uintBE (by decide)
    · simp only [if_neg hexted]
      exact h.pure e.timeDelta
  unfold ChunkStream.readRepeated
  split
  · by_cases hexted : e.exted = true
    · simp only [if_pos hexted]
      exact h.bind (h.uintBE (n := 4) (by decide)) fun timestamp => h.pure { e with timestamp }
    · simp only [if_neg hexted]
      exact h.pure e
  · exact h.bind hdelta fun timedet => h.pure { e with timestamp := u32 (e.timestamp + timedet) }
  · exact h.bind hdelta fun timedet => h.pure { e with timestamp := u32 (e.timestamp + timedet) }
  · exact h.pure e

end Inherited

/-- A relation between a connection and what is left of it after a read. -/
structure Reading (R : ReadWriter → ReadWriter → Prop) : Prop where
  refl : ∀ r, R r r
  trans : ∀ {r r' r''}, R r r' → R r' r'' → R r r''
  uintBE : ∀ {n : Nat}, n ≤ 4 → ∀ r, R r (r.readUintBE n).2
  uintLE : ∀ {n : Nat}, n ≤ 4 → ∀ r, R r (r.readUintLE n).2
  discard : ∀ n r, R r (r.discard n)

theorem Reading.inherited {R : ReadWriter → ReadWriter → Prop} (h : Reading R) :
    Inherited fun f => ∀ r, R r (f r).2 :=
  ⟨fun _ => h.refl, fun hf hg r => h.trans (hf r) (hg _ _), h.uintBE, h.uintLE⟩

theorem later_reading : Reading Later :=
  ⟨.refl, .trans, readUintBE_later, readUintLE_later,
    fun n r => ⟨List.drop_suffix n r.unread, id, fun hd he => by simp [discard, hd he]⟩⟩

end ReadWriter

namespace ChunkStream

/-- The bookkeeping of an entry: its buffer is the announced one, `index` bytes of it are filled and
`remain` are missing. -/
structure WellFormed (e : ChunkStream) : Prop where
  data_length : e.data.length = e.length
  index_remain : e.index + e.remain = e.length
  length_le : e.length ≤ maxpoolsize
  not_got : e.remain ≠ 0 → e.got = false

theorem wellFormed_default : WellFormed {} := ⟨rfl, rfl, Nat.zero_le _, fun _ => rfl⟩

theorem WellFormed.emptied {e : ChunkStream} (h : e.length ≤ maxpoolsize) : WellFormed e.emptied :=
  ⟨by simp [ChunkStream.emptied], by simp [ChunkStream.emptied], h, fun _ => rfl⟩

theorem Pool.get_of_gt {size : Nat} (hsize : maxpoolsize < size) (pool : Pool) : pool.get size = none := by
  by_cases h : maxpoolsize < pool.pos + size
  · rw [Pool.get, if_pos h]
    exact if_pos (by simpa using hsize)
  · omega

theorem new_of_gt {e : ChunkStream} (hlen : maxpoolsize < e.length) (rw : ReadWriter) (pool : Pool) :
    e.new (rw, pool) = .panic .sliceBounds := by
  simp only [new, Pool.get_of_gt hlen]

theorem readBasicId_later (e : ChunkStream) (r : ReadWriter) : Later r (e.readBasicId r).2 :=
  later_reading.inherited.readBasicId e r

/-- The id is all that reading it changes in the entry. -/
theorem readBasicId_entry (e : ChunkStream) (r : ReadWriter) :
    ∃ csid, (e.readBasicId r).1 = { e with csid } := by
  unfold readBasicId
  split <;> exact ⟨_, rfl⟩

theorem WellFormed.readBasicId {e : ChunkStream} (he : WellFormed e) (r : ReadWriter) :
    WellFormed (e.readBasicId r).1 := by
  obtain ⟨csid, hentry⟩ := readBasicId_entry e r
  rw [hentry]
  exact ⟨he.data_length, he.index_remain, he.length_le, he.not_got⟩

theorem readBasicId_tmpFromat (e : ChunkStream) (r : ReadWriter) : (e.readBasicId r).1.tmpFromat = e.tmpFromat := by
  obtain ⟨csid, hentry⟩ := readBasicId_entry e r
  rw [hentry]

theorem skipExtended_sat (e : ChunkStream) (s : ReadWriter × Pool) :
    (e.skipExtended s).Sat (fun e' s' => e' = e ∧ Later s.1 s'.1) (fun _ s' => Later s.1 s'.1) False := by
  obtain ⟨r, pool⟩ := s
  unfold skipExtended
  dsimp only
  by_cases hexted : e.exted = true
  · rw [if_pos hexted]
    by_cases hpeek : 4 ≤ r.unread.length
    · rw [ReadWriter.peek, if_pos hpeek]
      dsimp only
      split
      · exact ⟨rfl, later_reading.discard 4 r⟩
      · exact ⟨rfl, .refl r⟩
    · rw [ReadWriter.peek, if_neg hpeek]
      exact .refl r
  · rw [if_neg hexted]
    exact ⟨rfl, .refl r⟩

/-- The three bytes of a header of format 0 or 1 that announce the message length. -/
def announced (header : Bytes) : Nat := beNat ((header.drop 3).take 3)

/-- A message above the pool's size announces it with all three length bytes. -/
theorem readUintBE_announced {r : ReadWriter} (hd : r.Drained) :
    maxpoolsize < ((r.readUintBE 3).2.readUintBE 3).1 ↔ maxpoolsize < announced r.unread := by
  have hlater := readUintBE_later (n := 3) (by decide) r
  rw [readUintBE_value (by decide) (hlater.drained hd), readUintBE_unread (by decide) hd, announced]
  by_cases hlen : 3 ≤ (r.unread.drop 3).length
  · rw [if_pos hlen]
  · have hlt := beNat_lt ((r.unread.drop 3).take 3)
    have hshort : ((r.unread.drop 3).take 3).length ≤ 2 := by
      rw [List.length_take]
      omega
    have hpow : 256 ^ ((r.unread.drop 3).take 3).length ≤ 256 ^ 2 :=
      Nat.pow_le_pow_right (by decide) hshort
    rw [if_neg hlen]
    simp only [maxpoolsize]
    omega

theorem new_later (e : ChunkStream) (s : ReadWriter × Pool) :
    (e.new s).Sat (fun _ s' => s'.1 = s.1) (fun _ _ => False) True := by
  unfold new
  dsimp only
  split
  · trivial
  · exact rfl

/-- A header is read number by number, and a buffer that is taken from the pool leaves the connection alone. -/
theorem readHeader_reading {R : ReadWriter → ReadWriter → Prop} (h : Reading R) (e : ChunkStream)
    (s : ReadWriter × Pool) :
    (e.readHeader s).Sat (fun _ s' => R s.1 s'.1) (fun _ s' => R s.1 s'.1) True := by
  obtain ⟨r, pool⟩ := s
  have hopen : ∀ (e' : ChunkStream) (r' : ReadWriter), R r r' →
      (e'.new (r', pool)).Sat (fun _ s' => R r s'.1) (fun _ s' => R r s'.1) True := by
    intro e' r' hr
    exact (new_later e' (r', pool)).imp (fun _ s' hs => hs ▸ hr) (fun _ _ hf => hf.elim) id
  unfold readHeader
  dsimp only
  split
  · exact hopen _ _ (h.inherited.readFull e r)
  · exact hopen _ _ (h.inherited.readSameStream e r)
  · exact hopen _ _ (h.inherited.readDelta e r)
  · split
    · exact hopen _ _ (h.inherited.readRepeated e r)
    · unfold skipExtended
      dsimp only
      split_ifs
      · split
        · exact h.refl r
        · split_ifs
          · exact h.discard 4 r
          · exact h.refl r
      · exact h.refl r
  · exact h.refl r

theorem readHeader_later (e : ChunkStream) (s : ReadWriter × Pool) :
    (e.readHeader s).Sat (fun _ s' => Later s.1 s'.1) (fun _ s' => Later s.1 s'.1) True :=
  readHeader_reading later_reading e s

/-- A chunk whose bytes were all there leaves no read error. -/
theorem readPayload_later (e : ChunkStream) (chunkSize : Nat) (s : ReadWriter × Pool) :
    (e.readPayload chunkSize s).Sat (fun _ s' => Later s.1 s'.1 ∧ s'.1.readError = none)
      (fun _ s' => Later s.1 s'.1) True := by
  obtain ⟨r, pool⟩ := s
  unfold readPayload
  dsimp only
  generalize (if e.remain > chunkSize then chunkSize else e.remain) = size
  split
  · trivial
  · rcases read_cases size r with ⟨err, r', hread, hlater⟩ | ⟨hnone, _, hread⟩
    · simp only [hread]
      exact hlater
    · simp only [hread, advance_readError, hnone]
      exact ⟨later_advance (List.drop_suffix _ _) hnone, hnone⟩

/-- A header leaves a well-formed entry, unless it opens a message the pool cannot hold. -/
theorem readHeader_wellFormed {e : ChunkStream} {r : ReadWriter} (he : WellFormed e)
    (hd : r.Drained) (hformat : e.tmpFromat ≤ 3) (pool : Pool) :
    (e.readHeader (r, pool)).Sat (fun e' _ => WellFormed e') (fun _ _ => True)
      (e.tmpFromat ≤ 1 ∧ maxpoolsize < announced r.unread) ∧
    (e.tmpFromat ≤ 1 ∧ maxpoolsize < announced r.unread → (e.readHeader (r, pool)).Panics) := by
  have hopen : ∀ (e' : ChunkStream) (r' : ReadWriter),
      (e.tmpFromat ≤ 1 ∧ maxpoolsize < announced r.unread ↔ maxpoolsize < e'.length) →
      (e'.new (r', pool)).Sat (fun e' _ => WellFormed e') (fun _ _ => True)
        (e.tmpFromat ≤ 1 ∧ maxpoolsize < announced r.unread) ∧
      (e.tmpFromat ≤ 1 ∧ maxpoolsize < announced r.unread → (e'.new (r', pool)).Panics) := by
    intro e' r' hiff
    rw [hiff]
    by_cases hlen : e'.length ≤ maxpoolsize
    · obtain ⟨pool', hnew⟩ := new_of_le hlen r' pool
      rw [hnew]
      exact ⟨WellFormed.emptied hlen, fun hgt => absurd hlen (by omega)⟩
    · rw [new_of_gt (by omega)]
      exact ⟨by simpa using hlen, fun _ => trivial⟩
  have hle := he.length_le
  have hcases : e.tmpFromat = 0 ∨ e.tmpFromat = 1 ∨ e.tmpFromat = 2 ∨ e.tmpFromat = 3 := by omega
  unfold readHeader
  rcases hcases with h | h | h | h <;> simp only [h] at hopen ⊢
  · exact hopen _ _ ((and_iff_right (by decide)).trans (readUintBE_announced hd).symm)
  · exact hopen _ _ ((and_iff_right (by decide)).trans (readUintBE_announced hd).symm)
  · exact hopen _ _ (iff_of_false (by omega) (not_lt.mpr he.length_le))
  · by_cases hzero : e.remain = 0
    · have hsame : (e.readRepeated r).1.length = e.length := by
        unfold readRepeated
        split <;> (try split) <;> rfl
      rw [if_pos hzero]
      exact hopen _ _ (iff_of_false (by omega) (not_lt.mpr (hsame.trans_le hle)))
    · rw [if_neg hzero]
      refine ⟨(skipExtended_sat e (r, pool)).imp ?_ (fun _ _ _ => trivial) False.elim, by omega⟩
      rintro e' s ⟨rfl, _⟩
      exact he

/-- The entry with `buf` in its buffer, behind the bytes of the message that have been counted. -/
def spilled (e : ChunkStream) (buf : Bytes) : ChunkStream :=
  { e with data := e.data.take e.index ++ buf ++ e.data.drop (e.index + buf.length) }

/-- The entry once `buf` has been read and counted. -/
def counted (e : ChunkStream) (buf : Bytes) : ChunkStream :=
  { e.spilled buf with
    index := e.index + buf.length
    remain := e.remain - buf.length
    got := if e.remain - buf.length = 0 then true else e.got }

theorem spilled_nil (e : ChunkStream) : e.spilled [] = e := by
  simp [spilled, List.take_append_drop]

theorem length_spilled {e : ChunkStream} (he : WellFormed e) {buf : Bytes} (hbuf : buf.length ≤ e.remain) :
    (e.spilled buf).data.length = e.data.length := by
  have hlen := he.data_length
  have hsum := he.index_remain
  simp only [spilled, List.length_append, List.length_take, List.length_drop]
  omega

theorem WellFormed.counted {e : ChunkStream} (he : WellFormed e) {buf : Bytes} (hbuf : buf.length ≤ e.remain) :
    WellFormed (e.counted buf) := by
  have hsum := he.index_remain
  refine ⟨(length_spilled he hbuf).trans he.data_length, ?_, he.length_le, fun hne => ?_⟩
  · show e.index + buf.length + (e.remain - buf.length) = e.length
    omega
  · show (if e.remain - buf.length = 0 then true else e.got) = false
    have hne : e.remain - buf.length ≠ 0 := hne
    rw [if_neg hne]
    exact he.not_got (by omega)

/-- Reading the bytes of a chunk stays inside the buffer of a well-formed entry. -/
theorem readPayload_eq {e : ChunkStream} (he : WellFormed e) (chunkSize : Nat) (r : ReadWriter) (pool : Pool) :
    e.readPayload chunkSize (r, pool) =
      match r.read (min e.remain chunkSize) with
      | (.error err, r) => .err err (r, pool)
      | (.ok buf, r) => .ok (e.counted buf) (r, pool) := by
  have hlen := he.data_length
  have hsum := he.index_remain
  have hle := he.length_le
  simp only [maxpoolsize] at hle
  have hsize : (if e.remain > chunkSize then chunkSize else e.remain) = min e.remain chunkSize := by
    split_ifs <;> omega
  have hstop : u32 (e.index + min e.remain chunkSize) = e.index + min e.remain chunkSize := u32_of_lt (by omega)
  have hsub : sub32 e.remain (min e.remain chunkSize) = e.remain - min e.remain chunkSize :=
    sub32_of_le (by omega) (by omega)
  unfold readPayload
  simp only [hsize, hstop, hsub]
  rw [if_neg (by omega)]
  rcases read_cases (min e.remain chunkSize) r with ⟨err, r', hread, _⟩ | ⟨hnone, havail, hread⟩
  · simp only [hread]
  · have hbuf : (r.unread.take (min e.remain chunkSize)).length = min e.remain chunkSize := by
      rw [List.length_take]
      omega
    simp only [hread, advance_readError, hnone, counted, spilled, hbuf]
    split_ifs with hzero
    · rfl
    · rfl

theorem readPayload_wellFormed {e : ChunkStream} (he : WellFormed e) (chunkSize : Nat)
    (s : ReadWriter × Pool) :
    (e.readPayload chunkSize s).Sat (fun e' _ => WellFormed e') (fun _ _ => True) False := by
  obtain ⟨r, pool⟩ := s
  rw [readPayload_eq he]
  rcases read_cases (min e.remain chunkSize) r with ⟨err, r', hread, _⟩ | ⟨_, _, hread⟩
  · rw [hread]
    trivial
  · rw [hread]
    apply he.counted
    rw [List.length_take]
    omega

/-- A read that fails leaves a buffer of the same length. -/
theorem length_overwritten {e : ChunkStream} (he : WellFormed e) (chunkSize : Nat) (s : ReadWriter × Pool) :
    (e.overwritten chunkSize s).length = e.data.length := by
  obtain ⟨r, pool⟩ := s
  have hlen := he.data_length
  have hsum := he.index_remain
  obtain ⟨csid, hentry⟩ := readBasicId_entry e r
  unfold overwritten
  dsimp only
  split_ifs with hnew
  · rfl
  · have hskip := skipExtended_sat (e.readBasicId r).1 ((e.readBasicId r).2, pool)
    cases hcase : (e.readBasicId r).1.skipExtended ((e.readBasicId r).2, pool) with
    | ok e' s =>
        obtain ⟨rfl, -⟩ := hskip.of_ok hcase
        rw [hentry]
        dsimp only
        generalize hbuf : (if s.1.readError.isSome then [] else
          s.1.unread.take (if e.remain > chunkSize then chunkSize else e.remain)) = buf
        have hle : buf.length ≤ e.remain := by
          rw [← hbuf]
          split_ifs <;> simp only [List.length_nil, List.length_take] <;> omega
        simp only [List.length_append, List.length_take, List.length_drop]
        omega
    | _ => exact congrArg (fun e' => e'.data.length) hentry

theorem readChunk_later (e : ChunkStream) (chunkSize : Nat) (s : ReadWriter × Pool) :
    (e.readChunk chunkSize s).Sat (fun _ s' => Later s.1 s'.1 ∧ s'.1.readError = none)
      (fun _ s' => Later s.1 s'.1) True := by
  obtain ⟨r, pool⟩ := s
  unfold readChunk
  dsimp only
  split
  · exact .refl r
  · have hid := readBasicId_later e r
    apply Outcome.Sat.bind (Q := fun _ s' => Later r s'.1)
    · exact (readHeader_later _ _).imp (fun _ _ h => hid.trans h) (fun _ _ h => hid.trans h) id
    · intro e' s' hs'
      exact (readPayload_later e' chunkSize s').imp (fun _ _ h => ⟨hs'.trans h.1, h.2⟩)
        (fun _ _ h => hs'.trans h) id

/-- How many bytes of the chunk stream id follow the first byte of a chunk. -/
def idLength (key : Nat) : Nat :=
  match key with
  | 0 => 1
  | 1 => 2
  | _ => 0

theorem readBasicId_unread {e : ChunkStream} {r : ReadWriter} (hd : r.Drained) :
    (e.readBasicId r).2.unread = r.unread.drop (idLength e.csid) := by
  unfold readBasicId idLength
  rcases e.csid with _ | _ | key
  · exact (readUintLE_number (n := 1) (by decide)).unread hd
  · exact (readUintLE_number (n := 2) (by decide)).unread hd
  · simp

theorem readChunk_wellFormed {e : ChunkStream} {r : ReadWriter} (he : WellFormed e)
    (hd : r.Drained) (hformat : e.tmpFromat ≤ 3) (chunkSize : Nat) (pool : Pool) :
    (e.readChunk chunkSize (r, pool)).Sat (fun e' _ => WellFormed e') (fun _ _ => True)
      (e.remain = 0 ∧ e.tmpFromat ≤ 1 ∧ maxpoolsize < announced (r.unread.drop (idLength e.csid))) ∧
    (e.remain = 0 ∧ e.tmpFromat ≤ 1 ∧ maxpoolsize < announced (r.unread.drop (idLength e.csid)) →
      (e.readChunk chunkSize (r, pool)).Panics) := by
  unfold readChunk
  dsimp only
  by_cases hinvalid : e.remain ≠ 0 ∧ e.tmpFromat ≠ 3
  · rw [if_pos hinvalid]
    exact ⟨trivial, fun hover => absurd hover.1 hinvalid.1⟩
  · rw [if_neg hinvalid, ← readBasicId_unread hd]
    have hd' := (readBasicId_later e r).drained hd
    have hsame := readBasicId_tmpFromat e r
    have hzero : e.tmpFromat ≤ 1 → e.remain = 0 := by
      intro hle
      by_contra hne
      exact hinvalid ⟨hne, by omega⟩
    obtain ⟨hsat, hpanic⟩ := readHeader_wellFormed (he.readBasicId r) hd' (hsame.trans_le hformat) pool
    rw [hsame] at hsat hpanic
    refine ⟨Outcome.Sat.bind (hsat.imp (fun _ _ h => h) (fun _ _ h => h) fun h => ⟨hzero h.1, h⟩) ?_, ?_⟩
    · intro e' s' hwf
      exact (readPayload_wellFormed hwf chunkSize s').imp (fun _ _ h => h) (fun _ _ h => h) False.elim
    · intro hover
      exact Outcome.panics_bind.mpr (Or.inl (hpanic hover.2))

end ChunkStream

open ChunkStream

namespace Conn

/-- The invariant of a connection that reads: a failed stream is used up, the entries are well-formed,
and the chunk size it writes with is not zero. -/
structure Inv (conn : Conn) : Prop where
  drained : conn.rw.Drained
  entries : ∀ key e, conn.chunks key = some e → WellFormed e
  chunkSize_ne : u32 conn.chunkSize ≠ 0

/-- The first byte of the next chunk; 0 is read once the stream is used up. -/
def nextByte (conn : Conn) : Nat := (conn.rw.unread.headD 0).toNat

/-- The entry under which the next chunk is looked up. -/
def nextEntry (conn : Conn) : ChunkStream := (conn.chunks (conn.nextByte &&& 0x3f)).getD {}

/-- The bytes behind the basic header of the next chunk. -/
def nextHeader (conn : Conn) : Bytes :=
  conn.rw.unread.drop (1 + idLength (conn.nextByte &&& 0x3f))

/-- The next chunk opens a message that announces more bytes than a pool buffer has. -/
def OpensOverlong (conn : Conn) : Prop :=
  conn.nextEntry.remain = 0 ∧ conn.nextByte >>> 6 ≤ 1 ∧ maxpoolsize < announced conn.nextHeader

theorem nextEntry_wellFormed {conn : Conn} (h : Inv conn) : WellFormed conn.nextEntry := by
  unfold nextEntry
  cases hc : conn.chunks (conn.nextByte &&& 0x3f) with
  | none => exact wellFormed_default
  | some e => exact h.entries _ _ hc

theorem readUintBE_one {rw : ReadWriter} (hd : rw.Drained) :
    (rw.readUintBE 1).1 = (rw.unread.headD 0).toNat := by
  rw [readUintBE_value (by decide) hd]
  cases rw.unread with
  | nil => rfl
  | cons b rest => simp [beNat]

/-- The entry as the chunk finds it: with the format and the six bits of its first byte. -/
def prepared (conn : Conn) : ChunkStream :=
  { conn.nextEntry with
    tmpFromat := conn.nextByte >>> 6
    csid := conn.nextByte &&& 0x3f }

theorem prepared_wellFormed {conn : Conn} (h : Inv conn) : WellFormed conn.prepared := by
  have hwf := nextEntry_wellFormed h
  exact ⟨hwf.data_length, hwf.index_remain, hwf.length_le, hwf.not_got⟩

theorem nextByte_format (conn : Conn) : conn.nextByte >>> 6 ≤ 3 := by
  have hbyte : conn.nextByte < 256 := (conn.rw.unread.headD 0).toNat_lt
  rw [Nat.shiftRight_eq_div_pow]
  omega

/-- The entry as a chunk that cannot be read leaves it. -/
def leftBehind (conn : Conn) : ChunkStream :=
  { conn.nextEntry with
    data := conn.prepared.overwritten conn.remoteChunkSize ((conn.rw.readUintBE 1).2, conn.pool) }

theorem leftBehind_wellFormed {conn : Conn} (h : Inv conn) : WellFormed conn.leftBehind := by
  have hwf := nextEntry_wellFormed h
  have hprep := prepared_wellFormed h
  have hlen : conn.leftBehind.data.length = conn.nextEntry.data.length :=
    length_overwritten hprep conn.remoteChunkSize ((conn.rw.readUintBE 1).2, conn.pool)
  exact ⟨hlen.trans hwf.data_length, hwf.index_remain, hwf.length_le, hwf.not_got⟩

/-- A turn that does not fail consumes at least the first byte of its chunk. -/
theorem readTurn_lt {conn conn' : Conn} {r : Unit ⊕ ChunkStream} (h : readTurn () conn = .ok r conn') :
    conn'.rw.unread.length < conn.rw.unread.length := by
  unfold readTurn at h
  dsimp only at h
  split at h
  · rename_i cs rw' pool' hchunk
    obtain ⟨hlater, hnone⟩ := (readChunk_later _ _ _).of_ok hchunk
    have hfirst := readUintBE_lt (n := 1) (by decide) (by decide) (hlater.sticky hnone)
    cases h
    exact hlater.length_le.trans_lt hfirst
  all_goals cases h

theorem readTurn_decreases : Call.Decreases readTurn (fun _ conn => conn.rw.unread.length) :=
  fun _ _ _ _ h => readTurn_lt h

theorem readTurn_eq {conn : Conn} (hd : conn.rw.Drained) :
    readTurn () conn =
      match conn.prepared.readChunk conn.remoteChunkSize ((conn.rw.readUintBE 1).2, conn.pool) with
      | .ok cs (rw, pool) =>
        .ok (if cs.full then .inr cs else .inl ())
          { conn with rw := rw
                      pool := pool
                      chunks := Function.update conn.chunks (conn.nextByte &&& 0x3f) (some cs) }
      | .err e (rw, pool) =>
        .err e
          { conn with rw := rw
                      pool := pool
                      chunks := Function.update conn.chunks (conn.nextByte &&& 0x3f) (some conn.leftBehind) }
      | .panic p => .panic p
      | .diverge => .diverge := by
  have hbyte : (conn.rw.readUintBE 1).1 = conn.nextByte := readUintBE_one hd
  simp only [readTurn, hbyte, Function.update_idem]
  rfl

/-- What holds of the entries and of one that is written holds of the entries after that. -/
theorem forall_updated {P : ChunkStream → Prop} {chunks : Nat → Option ChunkStream} {key : Nat} {e : ChunkStream}
    (h : ∀ k e', chunks k = some e' → P e') (he : P e) :
    ∀ k e', Function.update chunks key (some e) k = some e' → P e' := by
  intro k e' hentry
  by_cases hkey : k = key
  · rw [hkey, Function.update_self] at hentry
    cases hentry
    exact he
  · rw [Function.update_of_ne hkey] at hentry
    exact h k e' hentry

theorem Inv.updated {conn : Conn} {rw : ReadWriter} {pool : Pool} {key : Nat} {e : ChunkStream}
    (h : Inv conn) (hd : rw.Drained) (he : WellFormed e) :
    Inv { conn with rw := rw
                    pool := pool
                    chunks := Function.update conn.chunks key (some e) } :=
  ⟨hd, forall_updated h.entries he, h.chunkSize_ne⟩

/-- One turn keeps the invariant. It panics exactly on a chunk that opens an overlong message. -/
theorem readTurn_sat {conn : Conn} (h : Inv conn) :
    (readTurn () conn).Sat
      (fun r conn' => Inv conn' ∧ conn'.chunkSize = conn.chunkSize ∧ ∀ c, r = .inr c → WellFormed c)
      (fun _ conn' => Inv conn' ∧ conn'.chunkSize = conn.chunkSize) (OpensOverlong conn) ∧
    (OpensOverlong conn → (readTurn () conn).Panics) := by
  have hprep := prepared_wellFormed h
  have hlater := readUintBE_later (n := 1) (by decide) conn.rw
  have hd := hlater.drained h.drained
  have hheader : ((conn.rw.readUintBE 1).2.unread.drop (idLength conn.prepared.csid)) = conn.nextHeader := by
    rw [readUintBE_unread (by decide) h.drained, List.drop_drop]
    rfl
  obtain ⟨hsat, hpanic⟩ := readChunk_wellFormed hprep hd (nextByte_format conn) conn.remoteChunkSize conn.pool
  rw [hheader] at hsat hpanic
  have hboth := hsat.and (readChunk_later conn.prepared conn.remoteChunkSize ((conn.rw.readUintBE 1).2, conn.pool))
  rw [readTurn_eq h.drained]
  constructor
  · cases hchunk : conn.prepared.readChunk conn.remoteChunkSize ((conn.rw.readUintBE 1).2, conn.pool) with
    | ok cs s =>
        obtain ⟨hcs, hs, _⟩ := hboth.of_ok hchunk
        refine ⟨h.updated (hs.drained hd) hcs, rfl, ?_⟩
        intro c hc
        split_ifs at hc
        cases hc
        exact hcs
    | err e s =>
        obtain ⟨_, hs⟩ := hboth.of_err hchunk
        exact ⟨h.updated (hs.drained hd) (leftBehind_wellFormed h), rfl⟩
    | panic p => exact hsat.of_panic hchunk
    | diverge => exact absurd hchunk hsat.ne_diverge
  · intro hover
    obtain ⟨p, hchunk⟩ := Outcome.panics_iff.mp (hpanic hover)
    rw [hchunk]
    trivial

end Conn

end Livego
