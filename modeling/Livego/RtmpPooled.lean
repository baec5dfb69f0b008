import Livego.PoolMemory
import Livego.RtmpProgress
import Livego.Simulation

/-! The reader with the memory in which its messages are. `Data` is a slice of a backing array that entries, messages
that have been returned and the pool share. The reader does to its arrays what it does to lists elsewhere, and it writes
into no slice but that of the message it is reading. -/

namespace Livego

open Endian Fallible ReadWriter ChunkStream

/-- A `ChunkStream` with its `Data` as a slice. The bytes are in the memory; the list `data` of `head` is not used. -/
structure PooledStream where
  head : ChunkStream := {}
  slice : Slice := ⟨0, 0, 0⟩

namespace PooledStream

/-- The chunk stream with the bytes that are in its slice. -/
def value (bufs : Buffers) (cs : PooledStream) : ChunkStream := { cs.head with data := cs.slice.bytes bufs }

def new (cs : PooledStream) : Call GoError (ReadWriter × Pool × Buffers) PooledStream := fun (r, pool, bufs) =>
  match pool.get cs.head.length with
  | none => .panic .sliceBounds
  | some (slice, pool') =>
    .ok ⟨{ cs.head with got := false, index := 0, remain := cs.head.length }, slice⟩ (r, pool', bufs.made pool pool')

/-- The switch over the chunk format. -/
def readHeader (cs : PooledStream) : Call GoError (ReadWriter × Pool × Buffers) PooledStream := fun (r, pool, bufs) =>
  match cs.head.tmpFromat with
  | 0 =>
    let (head, r) := cs.head.readFull r
    new { cs with head } (r, pool, bufs)
  | 1 =>
    let (head, r) := cs.head.readSameStream r
    new { cs with head } (r, pool, bufs)
  | 2 =>
    let (head, r) := cs.head.readDelta r
    new { cs with head } (r, pool, bufs)
  | 3 =>
    if cs.head.remain = 0 then
      let (head, r) := cs.head.readRepeated r
      new { cs with head } (r, pool, bufs)
    else
      match cs.head.skipExtended (r, pool) with
      | .ok head (r, pool) => .ok { cs with head } (r, pool, bufs)
      | .err e (r, pool) => .err e (r, pool, bufs)
      | .panic p => .panic p
      | .diverge => .diverge
  | _ => .err (.errorf ("invalid format=" ++ toString cs.head.format)) (r, pool, bufs)

/-- The bytes of the chunk go into the slice, as far as the stream goes and whether or not that is enough. What bounds
them is the capacity of the slice, not its length. -/
def readPayload (cs : PooledStream) (chunkSize : Nat) : Call GoError (ReadWriter × Pool × Buffers) PooledStream :=
  fun (r, pool, bufs) =>
    let size := if cs.head.remain > chunkSize then chunkSize else cs.head.remain
    let stop := u32 (cs.head.index + size)
    if stop < cs.head.index ∨ cs.slice.cap < stop then .panic .sliceBounds
    else
      let arrived := if r.readError.isSome then [] else r.unread.take size
      let bufs := bufs.write cs.slice.buf (cs.slice.off + cs.head.index) arrived
      match r.read size with
      | (.error e, r) => .err e (r, pool, bufs)
      | (.ok _, r) =>
        let head := { cs.head with index := stop, remain := sub32 cs.head.remain size }
        let head := if head.remain = 0 then { head with got := true } else head
        match r.readError with
        | some e => .err e (r, pool, bufs)
        | none => .ok { cs with head } (r, pool, bufs)

def readChunk (cs : PooledStream) (chunkSize : Nat) : Call GoError (ReadWriter × Pool × Buffers) PooledStream :=
  fun (r, pool, bufs) =>
    if cs.head.remain ≠ 0 ∧ cs.head.tmpFromat ≠ 3 then
      .err (.errorf ("invalid remain = " ++ toString cs.head.remain)) (r, pool, bufs)
    else
      let (head, r) := cs.head.readBasicId r
      (readHeader { cs with head } >>= fun cs => cs.readPayload chunkSize) (r, pool, bufs)

/-- The reader with its memory and the one without are in the same place. -/
def Same (s : ReadWriter × Pool × Buffers) (s' : ReadWriter × Pool) : Prop := s.1 = s'.1 ∧ s.2.1 = s'.2

/-- The slice of a message that is read from now on: the one the message has been read into so far, or a new one. What
has been handed out before is as it was. -/
structure Opened (cs : PooledStream) (pool : Pool) (bufs : Buffers) (cs' : PooledStream) (pool' : Pool)
    (bufs' : Buffers) : Prop where
  backed : pool'.Backed bufs'
  issued : pool'.Issued cs'.slice
  before : ∀ t, pool.Issued t → pool'.Issued t ∧ t.bytes bufs' = t.bytes bufs
  slice : cs'.slice = cs.slice ∧ cs.head.remain ≠ 0 ∨ ∀ t, pool.Issued t → cs'.slice.Apart t

theorem new_simulates {cs : PooledStream} {head : ChunkStream} {r : ReadWriter} {pool : Pool} {bufs : Buffers}
    (h : pool.Backed bufs) {v : ChunkStream} (hv : v = value bufs { cs with head }) :
    Outcome.Simulates
      (fun cs' s v s' => Same s s' ∧ v = cs'.value s.2.2 ∧ Opened cs pool bufs cs' s.2.1 s.2.2)
      (fun _ _ => False) (new { cs with head } (r, pool, bufs)) (v.new (r, pool)) := by
  subst hv
  unfold new ChunkStream.new
  have hlen : (value bufs { cs with head }).length = head.length := rfl
  rw [hlen]
  dsimp only
  cases hget : pool.get head.length with
  | none => exact rfl
  | some got =>
      obtain ⟨slice, pool'⟩ := got
      obtain ⟨hsize, hissued, hbefore⟩ := Pool.get_issued hget
      obtain ⟨hbacked, hzero, hsame⟩ := h.get hget
      refine ⟨⟨rfl, rfl⟩, ?_, hbacked, hissued, ?_, Or.inr fun t ht => (hbefore t ht).2⟩
      · simp only [value, hzero, hsize]
      · exact fun t ht => ⟨(hbefore t ht).1, hsame t ht⟩

/-- Chunk streams of one timestamp treat the extended field of a continuation chunk alike. -/
theorem skipExtended_cases (e e' : ChunkStream) (hexted : e'.exted = e.exted) (hts : e'.timestamp = e.timestamp)
    (r : ReadWriter) (pool : Pool) :
    (∃ r', e.skipExtended (r, pool) = .ok e (r', pool) ∧ e'.skipExtended (r, pool) = .ok e' (r', pool)) ∨
      ∃ err, e.skipExtended (r, pool) = .err err (r, pool) ∧ e'.skipExtended (r, pool) = .err err (r, pool) := by
  simp only [ChunkStream.skipExtended, hexted, hts]
  by_cases hx : e.exted = true
  · rw [if_pos hx, if_pos hx]
    cases r.peek 4 with
    | error err => exact Or.inr ⟨err, rfl, rfl⟩
    | ok b =>
        by_cases hsame : beNat b = e.timestamp
        · simp only [if_pos hsame]
          exact Or.inl ⟨_, rfl, rfl⟩
        · simp only [if_neg hsame]
          exact Or.inl ⟨_, rfl, rfl⟩
  · rw [if_neg hx, if_neg hx]
    exact Or.inl ⟨r, rfl, rfl⟩

theorem readRepeated_value (cs : PooledStream) (bufs : Buffers) (r : ReadWriter) :
    (cs.value bufs).readRepeated r =
      (value bufs { cs with head := (cs.head.readRepeated r).1 }, (cs.head.readRepeated r).2) := by
  have hbefore : (cs.value bufs).format = cs.head.format := rfl
  have hexted : (cs.value bufs).exted = cs.head.exted := rfl
  unfold ChunkStream.readRepeated
  rw [hbefore, hexted]
  split
  · cases cs.head.exted <;> rfl
  · rfl
  · rfl
  · rfl

/-- A header opens a message in a new slice, or it goes on in the slice that is there. -/
theorem readHeader_simulates {cs : PooledStream} {pool : Pool} {bufs : Buffers} (h : pool.Backed bufs)
    (hissued : pool.Issued cs.slice) (hformat : cs.head.tmpFromat ≤ 3) (r : ReadWriter) :
    Outcome.Simulates
      (fun cs' s v s' => Same s s' ∧ v = cs'.value s.2.2 ∧ Opened cs pool bufs cs' s.2.1 s.2.2)
      (fun s s' => Same s s' ∧ s.2 = (pool, bufs)) (cs.readHeader (r, pool, bufs))
      ((cs.value bufs).readHeader (r, pool)) := by
  have hopen : ∀ {head : ChunkStream} {r : ReadWriter} {v : ChunkStream}, v = value bufs { cs with head } →
      Outcome.Simulates
        (fun cs' s v s' => Same s s' ∧ v = cs'.value s.2.2 ∧ Opened cs pool bufs cs' s.2.1 s.2.2)
        (fun s s' => Same s s' ∧ s.2 = (pool, bufs)) (new { cs with head } (r, pool, bufs)) (v.new (r, pool)) :=
    fun hv => (new_simulates h hv).imp (fun _ _ _ _ h => h) fun _ _ h => h.elim
  have hsame : (cs.value bufs).tmpFromat = cs.head.tmpFromat := rfl
  have hremain : (cs.value bufs).remain = cs.head.remain := rfl
  have hcases : cs.head.tmpFromat = 0 ∨ cs.head.tmpFromat = 1 ∨ cs.head.tmpFromat = 2 ∨ cs.head.tmpFromat = 3 := by
    omega
  unfold readHeader ChunkStream.readHeader
  rw [hsame]
  rcases hcases with hf | hf | hf | hf <;> simp only [hf]
  · exact hopen rfl
  · exact hopen rfl
  · exact hopen rfl
  · rw [hremain]
    by_cases hzero : cs.head.remain = 0
    · rw [if_pos hzero, if_pos hzero]
      rw [readRepeated_value]
      exact hopen rfl
    · rw [if_neg hzero, if_neg hzero]
      rcases skipExtended_cases cs.head (cs.value bufs) rfl rfl r pool with
        ⟨r', hskip, hskip'⟩ | ⟨err, hskip, hskip'⟩
      · rw [hskip, hskip']
        exact ⟨⟨rfl, rfl⟩, rfl, h, hissued, fun t ht => ⟨ht, rfl⟩, Or.inl ⟨rfl, hzero⟩⟩
      · rw [hskip, hskip']
        exact ⟨rfl, ⟨rfl, rfl⟩, rfl⟩

/-- The bytes of a chunk have been written into the slice of its message and nowhere else. -/
structure Filled (cs : PooledStream) (pool : Pool) (bufs bufs' : Buffers) : Prop where
  backed : pool.Backed bufs'
  others : ∀ t, cs.slice.Apart t → t.bytes bufs' = t.bytes bufs

/-- Reading the bytes of a chunk fills the slice as it fills the list; where it fails, the slice has what arrived. -/
theorem readPayload_simulates {cs : PooledStream} {pool : Pool} {bufs : Buffers} (h : pool.Backed bufs)
    (hissued : pool.Issued cs.slice) (hwf : WellFormed (cs.value bufs)) (chunkSize : Nat) (r : ReadWriter) :
    Outcome.Simulates
      (fun cs' s v s' => Same s s' ∧ v = cs'.value s.2.2 ∧ cs'.slice = cs.slice ∧ s.2.1 = pool ∧
        Filled cs pool bufs s.2.2)
      (fun s s' => Same s s' ∧ s.2.1 = pool ∧ Filled cs pool bufs s.2.2 ∧
        cs.slice.bytes s.2.2 = splice (cs.slice.bytes bufs) cs.head.index
          (if r.readError.isSome then [] else
            r.unread.take (if cs.head.remain > chunkSize then chunkSize else cs.head.remain)))
      (cs.readPayload chunkSize (r, pool, bufs)) ((cs.value bufs).readPayload chunkSize (r, pool)) := by
  have hin := h.in_bounds hissued
  have hlen : cs.slice.len = cs.head.length := (Slice.length_bytes hin).symm.trans hwf.data_length
  have hsum : cs.head.index + cs.head.remain = cs.head.length := hwf.index_remain
  have hle : cs.head.length ≤ maxpoolsize := hwf.length_le
  simp only [maxpoolsize] at hle
  have hremain : (cs.value bufs).remain = cs.head.remain := rfl
  have hsize : (if cs.head.remain > chunkSize then chunkSize else cs.head.remain) = min cs.head.remain chunkSize := by
    split_ifs <;> omega
  have hstop : u32 (cs.head.index + min cs.head.remain chunkSize) = cs.head.index + min cs.head.remain chunkSize :=
    u32_of_lt (by omega)
  have hsub : sub32 cs.head.remain (min cs.head.remain chunkSize) = cs.head.remain - min cs.head.remain chunkSize :=
    sub32_of_le (by omega) (by omega)
  have hrange : ¬(cs.head.index + min cs.head.remain chunkSize < cs.head.index ∨
      cs.slice.cap < cs.head.index + min cs.head.remain chunkSize) := by
    have hend : cs.slice.off + cs.slice.len ≤ maxpoolsize := hissued.1
    unfold Slice.cap
    omega
  rw [ChunkStream.readPayload_eq hwf, hremain]
  unfold readPayload
  simp only [hsize, hstop, hsub, if_neg hrange]
  generalize harrived : (if r.readError.isSome then [] else r.unread.take (min cs.head.remain chunkSize)) = arrived
  have hshort : cs.head.index + arrived.length ≤ cs.slice.len := by
    have hle' : arrived.length ≤ min cs.head.remain chunkSize := by
      rw [← harrived]
      split_ifs
      · exact Nat.zero_le _
      · rw [List.length_take]
        omega
    omega
  have hfilled : Filled cs pool bufs (bufs.write cs.slice.buf (cs.slice.off + cs.head.index) arrived) :=
    ⟨h.write hissued hshort, fun t ht => Slice.bytes_write_apart ht hshort hin⟩
  have hself := Slice.bytes_write_self hshort hin
  rcases read_cases (min cs.head.remain chunkSize) r with ⟨err, r', hread, -⟩ | ⟨hnone, havail, hread⟩
  · simp only [hread]
    exact ⟨rfl, ⟨rfl, rfl⟩, rfl, hfilled, hself⟩
  · have hbuf : arrived = r.unread.take (min cs.head.remain chunkSize) := by
      rw [← harrived, hnone]
      rfl
    have hblen : arrived.length = min cs.head.remain chunkSize := by
      rw [hbuf, List.length_take]
      omega
    simp only [hread, advance_readError, hnone, ← hbuf]
    refine ⟨⟨rfl, rfl⟩, ?_, rfl, rfl, hfilled⟩
    simp only [value, hself, counted, spilled, splice, hblen]
    split_ifs
    · rfl
    · rfl

/-- A chunk that has been read: its bytes are in the slice that its message was in before, or in one that has nothing in
common with what was handed out before. -/
structure Taken (cs : PooledStream) (pool : Pool) (bufs : Buffers) (cs' : PooledStream) (pool' : Pool)
    (bufs' : Buffers) : Prop where
  backed : pool'.Backed bufs'
  issued : pool'.Issued cs'.slice
  before : ∀ t, pool.Issued t → pool'.Issued t ∧ (cs'.slice.Apart t → t.bytes bufs' = t.bytes bufs)
  slice : cs'.slice = cs.slice ∧ cs.head.remain ≠ 0 ∨ ∀ t, pool.Issued t → cs'.slice.Apart t

/-- A chunk that cannot be read: what it leaves in the slice of its entry is what it leaves in the list. -/
structure Failed (cs : PooledStream) (chunkSize : Nat) (r : ReadWriter) (pool : Pool) (bufs : Buffers) (pool' : Pool)
    (bufs' : Buffers) : Prop where
  backed : pool'.Backed bufs'
  before : ∀ t, pool.Issued t →
    pool'.Issued t ∧ ((cs.head.remain ≠ 0 → cs.slice.Apart t) → t.bytes bufs' = t.bytes bufs)
  own : cs.slice.bytes bufs' = (cs.value bufs).overwritten chunkSize (r, pool)

theorem readBasicId_value (cs : PooledStream) (bufs : Buffers) (r : ReadWriter) :
    (cs.value bufs).readBasicId r =
      (value bufs { cs with head := (cs.head.readBasicId r).1 }, (cs.head.readBasicId r).2) := by
  have hcsid : (cs.value bufs).csid = cs.head.csid := rfl
  unfold ChunkStream.readBasicId
  rw [hcsid]
  split <;> rfl

/-- Reading a chunk does to memory what it does to lists. -/
theorem readChunk_simulates {cs : PooledStream} {pool : Pool} {bufs : Buffers} {r : ReadWriter} (h : pool.Backed bufs)
    (hissued : pool.Issued cs.slice) (hwf : WellFormed (cs.value bufs)) (hd : r.Drained)
    (hformat : cs.head.tmpFromat ≤ 3) (chunkSize : Nat) :
    Outcome.Simulates
      (fun cs' s v s' => Same s s' ∧ v = cs'.value s.2.2 ∧ Taken cs pool bufs cs' s.2.1 s.2.2)
      (fun s s' => Same s s' ∧ Failed cs chunkSize r pool bufs s.2.1 s.2.2)
      (cs.readChunk chunkSize (r, pool, bufs)) ((cs.value bufs).readChunk chunkSize (r, pool)) := by
  have hremain : (cs.value bufs).remain = cs.head.remain := rfl
  have hfromat : (cs.value bufs).tmpFromat = cs.head.tmpFromat := rfl
  have hunchanged : ∀ {pool'}, pool' = pool → cs.head.remain = 0 ∨ cs.head.tmpFromat ≠ 3 →
      Failed cs chunkSize r pool bufs pool' bufs := by
    rintro pool' rfl hnew
    exact ⟨h, fun t ht => ⟨ht, fun _ => rfl⟩, (if_pos hnew).symm⟩
  have hid := readBasicId_later cs.head r
  obtain ⟨csid, hentry⟩ := readBasicId_entry cs.head r
  have hwf1 := hwf.readBasicId r
  rw [readBasicId_value, hentry] at hwf1
  unfold readChunk ChunkStream.readChunk
  rw [hremain, hfromat]
  dsimp only
  by_cases hinvalid : cs.head.remain ≠ 0 ∧ cs.head.tmpFromat ≠ 3
  · rw [if_pos hinvalid, if_pos hinvalid]
    exact ⟨rfl, ⟨rfl, rfl⟩, hunchanged rfl (Or.inr hinvalid.2)⟩
  rw [if_neg hinvalid, if_neg hinvalid, readBasicId_value, hentry]
  dsimp only
  set cs1 : PooledStream := { cs with head := { cs.head with csid } } with hcs1
  set r1 := (cs.head.readBasicId r).2 with hr1
  have hissued1 : pool.Issued cs1.slice := hissued
  by_cases hzero : cs.head.remain = 0
  · -- a message is opened
    have hheader := (readHeader_simulates h hissued1 hformat r1).and_sat
      (readHeader_wellFormed hwf1 (hid.drained hd) hformat pool).1
    refine Call.simulates_bind (hheader.imp (fun _ _ _ _ h => h) ?_) ?_
    · rintro ⟨r', pool', bufs'⟩ s' ⟨hsame, hs⟩
      cases hs
      exact ⟨hsame, hunchanged rfl (Or.inl hzero)⟩
    · rintro cs' ⟨r', pool', bufs'⟩ v ⟨r'', pool''⟩ ⟨⟨⟨rfl, rfl⟩, rfl, hopened⟩, hwf'⟩
      have hfresh : ∀ t, pool.Issued t → cs'.slice.Apart t := by
        rcases hopened.slice with ⟨-, hne⟩ | hfresh
        · exact absurd hzero hne
        · exact hfresh
      refine (readPayload_simulates hopened.backed hopened.issued hwf' chunkSize r').imp ?_ ?_
      · rintro cs'' ⟨r₂, pool₂, bufs₂⟩ v ⟨r₃, pool₃⟩ ⟨hsame, hv, hslice, rfl, hfilled⟩
        refine ⟨hsame, hv, hfilled.backed, hslice ▸ hopened.issued, ?_, Or.inr (hslice ▸ hfresh)⟩
        intro t ht
        obtain ⟨hissued', hbytes⟩ := hopened.before t ht
        exact ⟨hissued', fun hapart => (hfilled.others t (hslice ▸ hapart)).trans hbytes⟩
      · rintro ⟨r₂, pool₂, bufs₂⟩ ⟨r₃, pool₃⟩ ⟨hsame, rfl, hfilled, -⟩
        have hbefore : ∀ t, pool.Issued t → t.bytes bufs₂ = t.bytes bufs := by
          intro t ht
          exact (hfilled.others t (hfresh t ht)).trans (hopened.before t ht).2
        exact ⟨hsame, hfilled.backed, fun t ht => ⟨(hopened.before t ht).1, fun _ => hbefore t ht⟩,
          (hbefore cs.slice hissued).trans (hunchanged rfl (Or.inl hzero)).own⟩
  · -- the message goes on
    have hthree : cs.head.tmpFromat = 3 := by
      by_contra hne
      exact hinvalid ⟨hzero, hne⟩
    have hin : ¬((cs.value bufs).remain = 0 ∨ (cs.value bufs).tmpFromat ≠ 3) := by
      rw [hremain, hfromat, hthree]
      simpa using hzero
    have hheader : cs1.readHeader (r1, pool, bufs) = match cs1.head.skipExtended (r1, pool) with
        | .ok head (r, pool) => .ok { cs1 with head } (r, pool, bufs)
        | .err e (r, pool) => .err e (r, pool, bufs)
        | .panic p => .panic p
        | .diverge => .diverge := by
      simp only [readHeader, hcs1, hthree, if_neg hzero]
    have hheader' : (cs1.value bufs).readHeader (r1, pool) = (cs1.value bufs).skipExtended (r1, pool) := by
      simp only [ChunkStream.readHeader, value, hcs1, hthree, if_neg hzero]
    rw [Call.bind_apply, Call.bind_apply, hheader, hheader']
    rcases skipExtended_cases cs1.head (cs1.value bufs) rfl rfl r1 pool with
      ⟨r2, hskip, hskip'⟩ | ⟨err, hskip, hskip'⟩
    · rw [hskip, hskip']
      refine (readPayload_simulates h hissued1 hwf1 chunkSize r2).imp ?_ ?_
      · rintro cs' ⟨r₂, pool₂, bufs₂⟩ v ⟨r₃, pool₃⟩ ⟨hsame, hv, hslice, rfl, hfilled⟩
        exact ⟨hsame, hv, hfilled.backed, hslice ▸ hissued,
          fun t ht => ⟨ht, fun hapart => hfilled.others t (hslice ▸ hapart)⟩, Or.inl ⟨hslice, hzero⟩⟩
      · rintro ⟨r₂, pool₂, bufs₂⟩ ⟨r₃, pool₃⟩ ⟨hsame, rfl, hfilled, hown⟩
        refine ⟨hsame, hfilled.backed, fun t ht => ⟨ht, fun hapart => hfilled.others t (hapart hzero)⟩, ?_⟩
        rw [overwritten, if_neg hin, readBasicId_value, hentry]
        simp only [← hcs1, ← hr1, hskip']
        exact hown
    · rw [hskip, hskip']
      refine ⟨rfl, ⟨rfl, rfl⟩, h, fun t ht => ⟨ht, fun _ => rfl⟩, ?_⟩
      rw [overwritten, if_neg hin, readBasicId_value, hentry]
      simp only [← hcs1, ← hr1, hskip']
      rfl

end PooledStream

/-- A connection with its memory. The entries are in `chunks`, and those of `conn` are not used. -/
structure PooledConn where
  conn : Conn
  bufs : Buffers
  chunks : Nat → Option PooledStream

namespace PooledConn

open PooledStream

/-- `NewConn`: the first array of the pool is full of zeros. -/
def newConn (rw : ReadWriter) : PooledConn :=
  { conn := Conn.newConn rw, bufs := fun _ => List.replicate maxpoolsize 0, chunks := fun _ => none }

/-- The connection with what is in its memory in the place of the slices. -/
def view (p : PooledConn) : Conn := { p.conn with chunks := fun key => (p.chunks key).map (PooledStream.value p.bufs) }

def readTurn (_ : Unit) : Call GoError PooledConn (Unit ⊕ PooledStream) := fun p =>
  let (h, rw) := p.conn.rw.readUintBE 1
  let format := h >>> 6
  let csid := h &&& 0x3f
  let entry := (p.chunks csid).getD {}
  let chunks := Function.update p.chunks csid (some entry)
  let cs := { entry with head := { entry.head with tmpFromat := format, csid := csid } }
  match cs.readChunk p.conn.remoteChunkSize (rw, p.conn.pool, p.bufs) with
  | .ok cs (rw, pool, bufs) =>
    .ok (if cs.head.full then .inr cs else .inl ())
      { conn := { p.conn with rw, pool }, bufs, chunks := Function.update chunks csid (some cs) }
  | .err e (rw, pool, bufs) => .err e { conn := { p.conn with rw, pool }, bufs, chunks }
  | .panic p => .panic p
  | .diverge => .diverge

/-- A call on the connection that does not touch its entries. -/
def onConn {α : Type} (x : Call GoError Conn α) : Call GoError PooledConn α := fun p =>
  match x p.conn with
  | .ok a conn => .ok a { p with conn }
  | .err e conn => .err e { p with conn }
  | .panic p => .panic p
  | .diverge => .diverge

/-- What `read` does with a complete message; the bytes of a control message are those in its slice. -/
def finish (cs : PooledStream) : Call GoError PooledConn PooledStream := do
  let p ← Call.get
  onConn (Conn.handleControlMsg (cs.value p.bufs))
  onConn (Conn.ack cs.head.length)
  pure cs

def read : Call GoError PooledConn PooledStream := do
  let p ← Call.get
  let cs ← Call.loop readTurn (p.conn.rw.unread.length + 1) ()
  finish cs

/-- The slices besides that of an entry: those of the other entries, and of the messages that have been returned. -/
def Other (held : List Slice) (p : PooledConn) (key : Nat) (t : Slice) : Prop :=
  t ∈ held ∨ ∃ key' e, key' ≠ key ∧ p.chunks key' = some e ∧ e.slice = t

/-- The slices of a connection that has returned the messages in `held`: the slice of a message that is not complete has
nothing in common with any other. -/
structure Layout (held : List Slice) (p : PooledConn) : Prop where
  live : Conn.Live p.view
  backed : p.conn.pool.Backed p.bufs
  entries : ∀ key e, p.chunks key = some e → p.conn.pool.Issued e.slice
  returned : ∀ s ∈ held, p.conn.pool.Issued s
  apart : ∀ key e, p.chunks key = some e → e.head.remain ≠ 0 → ∀ t, Other held p key t → e.slice.Apart t

theorem issued_zero (pool : Pool) : pool.Issued ⟨0, 0, 0⟩ := by
  refine ⟨Nat.zero_le _, ?_⟩
  by_cases hbuf : pool.buf = 0
  · exact Or.inr ⟨hbuf.symm, Nat.zero_le _⟩
  · exact Or.inl (Nat.pos_of_ne_zero hbuf)

theorem apart_zero (s : Slice) : s.Apart ⟨0, 0, 0⟩ := Or.inr (Or.inr (Nat.zero_le _))

theorem Layout.other {held : List Slice} {p : PooledConn} (h : Layout held p) {key : Nat} {t : Slice}
    (ht : Other held p key t) : p.conn.pool.Issued t := by
  rcases ht with ht | ⟨key', e, -, hentry, rfl⟩
  · exact h.returned t ht
  · exact h.entries key' e hentry

/-- The entry of a chunk, which is the zero value if there is none. -/
def entry (p : PooledConn) (key : Nat) : PooledStream := (p.chunks key).getD {}

theorem Layout.entry_issued {held : List Slice} {p : PooledConn} (h : Layout held p) (key : Nat) :
    p.conn.pool.Issued (p.entry key).slice := by
  unfold entry
  cases hc : p.chunks key with
  | none => exact issued_zero _
  | some e => exact h.entries key e hc

theorem Layout.entry_apart {held : List Slice} {p : PooledConn} (h : Layout held p) {key : Nat}
    (hremain : (p.entry key).head.remain ≠ 0) {t : Slice} (ht : Other held p key t) : (p.entry key).slice.Apart t := by
  unfold entry at hremain ⊢
  cases hc : p.chunks key with
  | none =>
      rw [hc] at hremain
      exact absurd rfl hremain
  | some e =>
      rw [hc] at hremain
      exact h.apart key e hc hremain t ht

/-- An entry that is not complete is apart from every other entry, whatever has become of that. -/
theorem Layout.apart_entry {held : List Slice} {p : PooledConn} (h : Layout held p) {key key' : Nat} (hne : key' ≠ key)
    {e : PooledStream} (he : p.chunks key' = some e) (hremain : e.head.remain ≠ 0) :
    e.slice.Apart (p.entry key).slice := by
  unfold entry
  cases hc : p.chunks key with
  | none => exact apart_zero _
  | some e' => exact h.apart key' e he hremain _ (Or.inr ⟨key, e', hne.symm, hc, rfl⟩)

/-- The connection with a new entry, pool and memory. -/
def updated (p : PooledConn) (rw : ReadWriter) (pool : Pool) (bufs : Buffers) (key : Nat) (e : PooledStream) :
    PooledConn :=
  { conn := { p.conn with rw, pool }, bufs, chunks := Function.update p.chunks key (some e) }

theorem view_updated {p : PooledConn} {bufs : Buffers} {key : Nat} (rw : ReadWriter) (pool : Pool) (e : PooledStream)
    (hothers : ∀ key' e', key' ≠ key → p.chunks key' = some e' → e'.slice.bytes bufs = e'.slice.bytes p.bufs) :
    (p.updated rw pool bufs key e).view =
      { p.view with
        rw := rw
        pool := pool
        chunks := Function.update p.view.chunks key (some (e.value bufs)) } := by
  have hchunks :
      (p.updated rw pool bufs key e).view.chunks = Function.update p.view.chunks key (some (e.value bufs)) := by
    funext key'
    show (Function.update p.chunks key (some e) key').map (PooledStream.value bufs) = _
    by_cases hkey : key' = key
    · rw [hkey, Function.update_self, Function.update_self]
      rfl
    · rw [Function.update_of_ne hkey, Function.update_of_ne hkey]
      show _ = (p.chunks key').map (PooledStream.value p.bufs)
      cases hc : p.chunks key' with
      | none => rfl
      | some e' =>
          have hsame := hothers key' e' hkey hc
          simp only [Option.map_some, PooledStream.value, hsame]
  rw [← hchunks]
  rfl

theorem Layout.updated {held : List Slice} {p : PooledConn} {rw : ReadWriter} {pool : Pool} {bufs : Buffers} {key : Nat}
    {e : PooledStream} (h : Layout held p) (hlive : Conn.Live (p.updated rw pool bufs key e).view)
    (hbacked : pool.Backed bufs) (hbefore : ∀ t, p.conn.pool.Issued t → pool.Issued t) (hissued : pool.Issued e.slice)
    (hunder : e.head.remain ≠ 0 → ∀ t, Other held p key t → e.slice.Apart t)
    (hback : ∀ key' e', key' ≠ key → p.chunks key' = some e' → e'.head.remain ≠ 0 → e'.slice.Apart e.slice) :
    Layout held (p.updated rw pool bufs key e) := by
  have hof : ∀ {key' : Nat} {e' : PooledStream}, key' ≠ key → (p.updated rw pool bufs key e).chunks key' = some e' →
      p.chunks key' = some e' := by
    intro key' e' hne hentry
    exact (Function.update_of_ne hne ..).symm.trans hentry
  have hself : ∀ {e' : PooledStream}, (p.updated rw pool bufs key e).chunks key = some e' → e' = e := by
    intro e' hentry
    exact Option.some.inj (hentry.symm.trans (Function.update_self ..))
  refine ⟨hlive, hbacked, ?_, fun s hs => hbefore s (h.returned s hs), ?_⟩
  · intro key' e' hentry
    by_cases hkey : key' = key
    · subst key'
      rw [hself hentry]
      exact hissued
    · exact hbefore _ (h.entries key' e' (hof hkey hentry))
  · intro key' e' hentry hremain t ht
    by_cases hkey : key' = key
    · subst key'
      rw [hself hentry] at hremain ⊢
      refine hunder hremain t (ht.imp id ?_)
      rintro ⟨key', e', hne, hentry', rfl⟩
      exact ⟨key', e', hne, hof hne hentry', rfl⟩
    · have hold := hof hkey hentry
      rcases ht with ht | ⟨key'', e'', hne, hentry'', rfl⟩
      · exact h.apart key' e' hold hremain t (Or.inl ht)
      · by_cases hkey'' : key'' = key
        · subst key''
          rw [hself hentry'']
          exact hback key' e' hkey hold hremain
        · exact h.apart key' e' hold hremain _ (Or.inr ⟨key'', e'', hne, hof hkey'' hentry'', rfl⟩)

/-- A message that is complete can be returned. -/
theorem Layout.return {held : List Slice} {p : PooledConn} (h : Layout held p) {key : Nat} {e : PooledStream}
    (hentry : p.chunks key = some e) (hzero : e.head.remain = 0) : Layout (e.slice :: held) p := by
  refine ⟨h.live, h.backed, h.entries, ?_, ?_⟩
  · intro s hs
    rcases List.mem_cons.mp hs with rfl | hs
    · exact h.entries key e hentry
    · exact h.returned s hs
  · intro key' e' hentry' hremain t ht
    refine h.apart key' e' hentry' hremain t ?_
    rcases ht with ht | ht
    · rcases List.mem_cons.mp ht with rfl | ht
      · refine Or.inr ⟨key, e, ?_, hentry, rfl⟩
        rintro rfl
        rw [hentry] at hentry'
        cases hentry'
        exact hremain hzero
      · exact Or.inl ht
    · exact Or.inr ht

/-- The entry as the chunk finds it. -/
def prepared (p : PooledConn) : PooledStream :=
  let key := p.view.nextByte &&& 0x3f
  { p.entry key with
    head := { (p.entry key).head with
      tmpFromat := p.view.nextByte >>> 6
      csid := key } }

theorem view_nextEntry (p : PooledConn) : p.view.nextEntry = (p.entry (p.view.nextByte &&& 0x3f)).value p.bufs := by
  have hchunks : p.view.chunks (p.view.nextByte &&& 0x3f) =
      (p.chunks (p.view.nextByte &&& 0x3f)).map (PooledStream.value p.bufs) := rfl
  rw [Conn.nextEntry, hchunks, entry]
  cases p.chunks (p.view.nextByte &&& 0x3f) with
  | none => rfl
  | some e => rfl

theorem view_prepared (p : PooledConn) : p.view.prepared = p.prepared.value p.bufs := by
  rw [Conn.prepared, view_nextEntry]
  rfl

theorem readTurn_eq {p : PooledConn} (hd : p.conn.rw.Drained) :
    readTurn () p =
      match p.prepared.readChunk p.conn.remoteChunkSize ((p.conn.rw.readUintBE 1).2, p.conn.pool, p.bufs) with
      | .ok cs (rw, pool, bufs) =>
        .ok (if cs.head.full then .inr cs else .inl ()) (p.updated rw pool bufs (p.view.nextByte &&& 0x3f) cs)
      | .err e (rw, pool, bufs) =>
        .err e (p.updated rw pool bufs (p.view.nextByte &&& 0x3f) (p.entry (p.view.nextByte &&& 0x3f)))
      | .panic p => .panic p
      | .diverge => .diverge := by
  have hbyte : (p.conn.rw.readUintBE 1).1 = p.view.nextByte := Conn.readUintBE_one hd
  simp only [readTurn, hbyte, Function.update_idem]
  rfl

/-- The reader has come from `p` to `p'`, and the reader without memory to `conn`. What has been returned is as it
was. -/
structure Reached (held : List Slice) (p p' : PooledConn) (conn : Conn) : Prop where
  view : conn = p'.view
  layout : Layout held p'
  kept : ∀ s ∈ held, s.bytes p'.bufs = s.bytes p.bufs

theorem Reached.refl {held : List Slice} {p : PooledConn} (h : Layout held p) : Reached held p p p.view :=
  ⟨rfl, h, fun _ _ => rfl⟩

/-- A chunk that has been read keeps the layout: the slice of its message is apart from all others, be it the one that
the message has had so far or a new one. -/
theorem Layout.taken {held : List Slice} {p : PooledConn} {cs : PooledStream} {rw : ReadWriter} {pool : Pool}
    {bufs : Buffers} (h : Layout held p) (htaken : Taken p.prepared p.conn.pool p.bufs cs pool bufs)
    (hlive : Conn.Live { p.view with
      rw := rw
      pool := pool
      chunks := Function.update p.view.chunks (p.view.nextByte &&& 0x3f) (some (cs.value bufs)) }) :
    Reached held p (p.updated rw pool bufs (p.view.nextByte &&& 0x3f) cs) { p.view with
      rw := rw
      pool := pool
      chunks := Function.update p.view.chunks (p.view.nextByte &&& 0x3f) (some (cs.value bufs)) } := by
  set key := p.view.nextByte &&& 0x3f
  have hapart : ∀ t, Other held p key t → cs.slice.Apart t := by
    intro t ht
    rcases htaken.slice with ⟨hslice, hremain⟩ | hfresh
    · exact hslice ▸ h.entry_apart hremain ht
    · exact hfresh t (h.other ht)
  have hkept : ∀ t, Other held p key t → t.bytes bufs = t.bytes p.bufs := by
    intro t ht
    exact (htaken.before t (h.other ht)).2 (hapart t ht)
  have hback : ∀ key' e', key' ≠ key → p.chunks key' = some e' → e'.head.remain ≠ 0 → e'.slice.Apart cs.slice := by
    intro key' e' hne hentry hremain
    rcases htaken.slice with ⟨hslice, -⟩ | hfresh
    · exact hslice ▸ h.apart_entry hne hentry hremain
    · exact (hfresh _ (h.entries key' e' hentry)).symm
  have hview := view_updated rw pool cs fun key' e' hne hentry =>
    hkept e'.slice (Or.inr ⟨key', e', hne, hentry, rfl⟩)
  rw [← hview] at hlive ⊢
  refine ⟨rfl, ?_, fun s hs => hkept s (Or.inl hs)⟩
  exact h.updated hlive htaken.backed (fun t ht => (htaken.before t ht).1) htaken.issued (fun _ => hapart) hback

/-- A chunk that cannot be read keeps the layout, and its entry has what the reader without memory leaves in it. -/
theorem Layout.failed {held : List Slice} {p : PooledConn} {rw : ReadWriter} {pool : Pool} {bufs : Buffers}
    (h : Layout held p) (hfailed : Failed p.prepared p.conn.remoteChunkSize (p.conn.rw.readUintBE 1).2 p.conn.pool
      p.bufs pool bufs)
    (hlive : Conn.Live { p.view with
      rw := rw
      pool := pool
      chunks := Function.update p.view.chunks (p.view.nextByte &&& 0x3f) (some p.view.leftBehind) }) :
    Reached held p (p.updated rw pool bufs (p.view.nextByte &&& 0x3f) (p.entry (p.view.nextByte &&& 0x3f))) { p.view with
      rw := rw
      pool := pool
      chunks := Function.update p.view.chunks (p.view.nextByte &&& 0x3f) (some p.view.leftBehind) } := by
  set key := p.view.nextByte &&& 0x3f
  have hkept : ∀ t, Other held p key t → t.bytes bufs = t.bytes p.bufs := by
    intro t ht
    exact (hfailed.before t (h.other ht)).2 fun hremain => h.entry_apart hremain ht
  have hleft : p.view.leftBehind = (p.entry key).value bufs := by
    have hown : (p.entry key).slice.bytes bufs = (p.prepared.value p.bufs).overwritten p.view.remoteChunkSize
        ((p.view.rw.readUintBE 1).2, p.view.pool) := hfailed.own
    rw [Conn.leftBehind, view_prepared, view_nextEntry, ← hown]
    rfl
  have hview := view_updated rw pool (p.entry key) fun key' e' hne hentry =>
    hkept e'.slice (Or.inr ⟨key', e', hne, hentry, rfl⟩)
  rw [hleft, ← hview] at hlive ⊢
  refine ⟨rfl, ?_, fun s hs => hkept s (Or.inl hs)⟩
  exact h.updated hlive hfailed.backed (fun t ht => (hfailed.before t ht).1)
    (hfailed.before _ (h.entry_issued key)).1 (fun hremain _ ht => h.entry_apart hremain ht)
    fun _ _ hne hentry hremain => h.apart_entry hne hentry hremain

/-- A turn of the reader does to memory what it does to lists, and leaves alone what has been returned. -/
theorem readTurn_simulates {held : List Slice} {p : PooledConn} (h : Layout held p) :
    Outcome.Simulates
      (fun r p' r' conn => Reached held p p' conn ∧ match r, r' with
        | .inl _, .inl _ => True
        | .inr cs, .inr c => c = cs.value p'.bufs ∧ Layout (cs.slice :: held) p'
        | _, _ => False)
      (Reached held p) (readTurn () p) (Conn.readTurn () p.view) := by
  have hd : (p.conn.rw.readUintBE 1).2.Drained := (readUintBE_later (n := 1) (by decide) _).drained h.live.drained
  have hissued : p.conn.pool.Issued p.prepared.slice := h.entry_issued _
  have hprep := Conn.prepared_wellFormed h.live.inv
  have hwf : WellFormed p.view.prepared := hprep
  rw [view_prepared] at hwf
  have hchunk := readChunk_simulates h.backed hissued hwf hd (Conn.nextByte_format p.view) p.conn.remoteChunkSize
  have hsat := h.live.readTurn
  rw [Conn.readTurn_eq h.live.drained, view_prepared] at hsat ⊢
  rw [readTurn_eq h.live.drained]
  have hrw : p.view.rw = p.conn.rw := rfl
  have hpool : p.view.pool = p.conn.pool := rfl
  have hsize : p.view.remoteChunkSize = p.conn.remoteChunkSize := rfl
  rw [hrw, hpool, hsize] at hsat ⊢
  cases hx : p.prepared.readChunk p.conn.remoteChunkSize ((p.conn.rw.readUintBE 1).2, p.conn.pool, p.bufs) <;>
    cases hy : (p.prepared.value p.bufs).readChunk p.conn.remoteChunkSize ((p.conn.rw.readUintBE 1).2, p.conn.pool) <;>
    rw [hx, hy] at hchunk <;> rw [hy] at hsat
  case ok.ok cs s c s' =>
    obtain ⟨rw', pool', bufs'⟩ := s
    obtain ⟨rw'', pool''⟩ := s'
    obtain ⟨⟨rfl, rfl⟩, rfl, htaken⟩ := hchunk
    obtain ⟨hlive, hcomplete⟩ := hsat
    have hreached := h.taken htaken hlive
    refine ⟨hreached, ?_⟩
    have hfull : (cs.value bufs').full = cs.head.full := rfl
    rw [hfull] at hcomplete ⊢
    by_cases hdone : cs.head.full = true
    · rw [if_pos hdone] at hcomplete
      rw [if_pos hdone, if_pos hdone]
      have hzero : cs.head.remain = 0 := by
        by_contra hne
        have hnot : cs.head.got = false := (hcomplete _ rfl).not_got hne
        exact absurd (hdone.symm.trans hnot) (by decide)
      exact ⟨rfl, hreached.layout.return (Function.update_self ..) hzero⟩
    · rw [if_neg hdone, if_neg hdone]
      trivial
  case err.err e s e' s' =>
    obtain ⟨rw', pool', bufs'⟩ := s
    obtain ⟨rw'', pool''⟩ := s'
    obtain ⟨rfl, ⟨rfl, rfl⟩, hfailed⟩ := hchunk
    exact ⟨rfl, h.failed hfailed hsat⟩
  case panic.panic => exact hchunk
  case diverge.diverge => trivial
  all_goals exact hchunk.elim

/-- What the rest of the program makes of a connection: pool, memory and entries stay. -/
structure Elsewhere (p p' : PooledConn) : Prop where
  pool : p'.conn.pool = p.conn.pool
  bufs : p'.bufs = p.bufs
  chunks : p'.chunks = p.chunks

theorem Layout.elsewhere {held : List Slice} {p p' : PooledConn} (h : Layout held p) (hp : Elsewhere p p')
    (hlive : Conn.Live p'.view) : Layout held p' := by
  obtain ⟨hpool, hbufs, hchunks⟩ := hp
  refine ⟨hlive, ?_, ?_, ?_, ?_⟩
  · rw [hpool, hbufs]
    exact h.backed
  · rw [hpool, hchunks]
    exact h.entries
  · rw [hpool]
    exact h.returned
  · unfold Other
    rw [hchunks]
    exact h.apart

theorem handleControlMsg_simulates (c : ChunkStream) (p : PooledConn) :
    Outcome.Simulates (fun _ p' _ conn => conn = p'.view ∧ Elsewhere p p') (fun _ _ => False)
      (onConn (Conn.handleControlMsg c) p) (Conn.handleControlMsg c p.view) := by
  unfold onConn Conn.handleControlMsg
  by_cases hsize : c.typeID = idSetChunkSize
  · simp only [if_pos hsize]
    cases uint32BE c.data with
    | none => exact rfl
    | some size => exact ⟨rfl, rfl, rfl, rfl⟩
  · simp only [if_neg hsize]
    by_cases hwindow : c.typeID = idWindowAckSize
    · simp only [if_pos hwindow]
      cases uint32BE c.data with
      | none => exact rfl
      | some size => exact ⟨rfl, rfl, rfl, rfl⟩
    · simp only [if_neg hwindow]
      exact ⟨rfl, rfl, rfl, rfl⟩

theorem ack_simulates (size : Nat) (p : PooledConn) :
    Outcome.Simulates (fun _ p' _ conn => conn = p'.view ∧ Elsewhere p p') (fun _ _ => False)
      (onConn (Conn.ack size) p) (Conn.ack size p.view) := by
  unfold onConn Conn.ack
  have hreceived : p.view.ackReceived = p.conn.ackReceived := rfl
  have hwindow : p.view.remoteWindowAckSize = p.conn.remoteWindowAckSize := rfl
  have hsize : p.view.chunkSize = p.conn.chunkSize := rfl
  have hrw : p.view.rw = p.conn.rw := rfl
  simp only [hreceived, hwindow]
  by_cases hdue : u32 (p.conn.ackReceived + u32 size) ≥ p.conn.remoteWindowAckSize
  · simp only [if_pos hdue, Call.bind_apply, Conn.ignoreErr, Conn.onReadWriter, hsize, hrw]
    cases (Conn.newAck (u32 (p.conn.ackReceived + u32 size))).writeChunk p.conn.chunkSize p.conn.rw with
    | ok _ rw => exact ⟨rfl, rfl, rfl, rfl⟩
    | err _ rw => exact ⟨rfl, rfl, rfl, rfl⟩
    | panic _ => exact rfl
    | diverge => trivial
  · simp only [if_neg hdue]
    exact ⟨rfl, rfl, rfl, rfl⟩

/-- What is done with a complete message does not depend on where its bytes are. -/
theorem finish_simulates (cs : PooledStream) (p : PooledConn) :
    Outcome.Simulates (fun cs' p' c conn => cs' = cs ∧ c = cs.value p'.bufs ∧ conn = p'.view ∧ Elsewhere p p')
      (fun _ _ => False) (finish cs p) (Conn.finish (cs.value p.bufs) p.view) := by
  unfold finish Conn.finish
  rw [Call.get_bind_apply]
  refine Call.simulates_bind (handleControlMsg_simulates (cs.value p.bufs) p) ?_
  rintro _ p₁ _ conn₁ ⟨rfl, h₁⟩
  refine Call.simulates_bind (ack_simulates cs.head.length p₁) ?_
  rintro _ p₂ _ conn₂ ⟨rfl, h₂⟩
  have hbufs : p₂.bufs = p.bufs := h₂.bufs.trans h₁.bufs
  refine ⟨rfl, ?_, rfl, h₂.pool.trans h₁.pool, hbufs, h₂.chunks.trans h₁.chunks⟩
  rw [hbufs]

/-- A message returned: where its bytes are, what they are, and the layout of the memory with it. -/
structure Returns (held : List Slice) (p : PooledConn) (cs : PooledStream) (p' : PooledConn) (c : ChunkStream)
    (conn : Conn) : Prop where
  value : c = cs.value p'.bufs
  view : conn = p'.view
  layout : Layout (cs.slice :: held) p'
  kept : ∀ s ∈ held, s.bytes p'.bufs = s.bytes p.bufs

/-- Reading a message does to memory what it does to lists, and leaves alone what has been returned. -/
theorem read_simulates {held : List Slice} {p : PooledConn} (h : Layout held p) :
    Outcome.Simulates (Returns held p) (Reached held p) (read p) (Conn.read p.view) := by
  have hread : read p = (Call.loop readTurn (p.conn.rw.unread.length + 1) () >>= finish) p := rfl
  have hread' : Conn.read p.view =
      (Call.loop Conn.readTurn (p.conn.rw.unread.length + 1) () >>= Conn.finish) p.view := rfl
  rw [hread, hread']
  refine Call.simulates_bind
    (Q := fun cs p' c conn => Reached held p p' conn ∧ c = cs.value p'.bufs ∧ Layout (cs.slice :: held) p')
    (Call.simulates_loop (I := fun _ p' _ conn => Reached held p p' conn) ?_ _ (Reached.refl h)) ?_
  · rintro _ p₁ _ conn₁ ⟨rfl, hlayout, hkept⟩
    have hon : ∀ {p₂ : PooledConn} {conn₂ : Conn}, Reached held p₁ p₂ conn₂ → Reached held p p₂ conn₂ :=
      fun hr => ⟨hr.view, hr.layout, fun s hs => (hr.kept s hs).trans (hkept s hs)⟩
    refine (readTurn_simulates hlayout).imp ?_ fun _ _ hr => hon hr
    rintro (_ | cs) p₂ (_ | c) conn₂ ⟨hreached, hresult⟩
    · exact hon hreached
    · exact hresult
    · exact hresult
    · exact ⟨hon hreached, hresult⟩
  · rintro cs p₁ c conn₁ ⟨⟨rfl, -, hkept⟩, rfl, hlayout⟩
    refine ((finish_simulates cs p₁).and_sat (Conn.finish_sameSide (cs.value p₁.bufs) p₁.view)).imp ?_
      fun _ _ hf => hf.elim
    rintro cs' p₂ c conn₂ ⟨⟨rfl, rfl, rfl, hsame⟩, -, hside⟩
    refine ⟨rfl, rfl, hlayout.elsewhere hsame (hside.live hlayout.live), ?_⟩
    rw [hsame.bufs]
    exact hkept

theorem layout_newConn (incoming : Bytes) (ending : GoError) : Layout [] (newConn { unread := incoming, ending }) := by
  have hinv := Conn.inv_newConn incoming ending
  refine ⟨⟨hinv.drained, hinv.entries⟩, ⟨?_, ?_⟩, ?_, ?_, ?_⟩
  · intro buf _
    exact List.length_replicate ..
  · simp only [newConn, Slice.bytes, Conn.newConn, List.drop_zero, List.take_replicate, Nat.sub_zero, min_self]
  · intro key e hentry
    simp [newConn] at hentry
  · intro s hs
    simp at hs
  · intro key e hentry
    simp [newConn] at hentry

/-- The runs of a connection, with the messages that it has returned: the slice of each, and the bytes that were in it
when it was returned. Between two reads the rest of the program may write and flush, and bytes may arrive, though not
once the stream has failed. -/
inductive Runs : PooledConn → List (Slice × Bytes) → Prop
  | fresh (incoming : Bytes) (ending : GoError) : Runs (newConn { unread := incoming, ending }) []
  | message {p p' : PooledConn} {held : List (Slice × Bytes)} {cs : PooledStream} (h : Runs p held)
      (hread : read p = .ok cs p') : Runs p' ((cs.slice, cs.slice.bytes p'.bufs) :: held)
  | failed {p p' : PooledConn} {held : List (Slice × Bytes)} {e : GoError} (h : Runs p held)
      (hread : read p = .err e p') : Runs p' held
  | elsewhere {p p' : PooledConn} {held : List (Slice × Bytes)} (h : Runs p held) (hp : Elsewhere p p')
      (hdrained : p'.conn.rw.Drained) : Runs p' held

/-- In every run the slices of what has been returned are in the layout, and hold what was returned. -/
theorem Runs.layout {p : PooledConn} {held : List (Slice × Bytes)} (h : Runs p held) :
    Layout (held.map Prod.fst) p ∧ ∀ s b, (s, b) ∈ held → s.bytes p.bufs = b := by
  have hslice : ∀ {held : List (Slice × Bytes)} {s b}, (s, b) ∈ held → s ∈ held.map Prod.fst :=
    fun hs => List.mem_map_of_mem (f := Prod.fst) hs
  induction h with
  | fresh incoming ending => exact ⟨layout_newConn incoming ending, by simp⟩
  | message h hread ih =>
      obtain ⟨c, conn, -, hreturns⟩ := (read_simulates ih.1).of_ok hread
      refine ⟨hreturns.layout, ?_⟩
      intro s b hs
      rcases List.mem_cons.mp hs with heq | hs
      · cases heq
        rfl
      · rw [hreturns.kept s (hslice hs)]
        exact ih.2 s b hs
  | failed h hread ih =>
      obtain ⟨conn, -, hreached⟩ := (read_simulates ih.1).of_err hread
      refine ⟨hreached.layout, ?_⟩
      intro s b hs
      rw [hreached.kept s (hslice hs)]
      exact ih.2 s b hs
  | elsewhere h hp hdrained ih =>
      rename_i p p' _
      have hview : p'.view.chunks = p.view.chunks := by
        simp only [view, hp.bufs, hp.chunks]
      refine ⟨ih.1.elsewhere hp ⟨hdrained, ?_⟩, ?_⟩
      · rw [hview]
        exact ih.1.live.entries
      · rw [hp.bufs]
        exact ih.2

/-- Wherever a run has come to, the next read does to memory what it does to lists. -/
theorem Runs.read_simulates {p : PooledConn} {held : List (Slice × Bytes)} (h : Runs p held) :
    Outcome.Simulates (fun cs p' c conn => c = cs.value p'.bufs ∧ conn = p'.view) (fun p' conn => conn = p'.view)
      (read p) (Conn.read p.view) :=
  (PooledConn.read_simulates h.layout.1).imp (fun _ _ _ _ hr => ⟨hr.value, hr.view⟩) fun _ _ hr => hr.view

/-- The messages that the reader without memory returns one after the other are in the memory at the end. -/
theorem Runs.reads {last : Conn → Prop} {ms : List Message} {p : PooledConn} {held : List (Slice × Bytes)}
    (h : Runs p held) (hreads : Conn.Reads last ms p.view) :
    ∃ p' new, Runs p' (new ++ held) ∧ new.map Prod.snd = (ms.map Message.data).reverse := by
  induction ms generalizing p held with
  | nil => exact ⟨p, [], h, rfl⟩
  | cons m ms ih =>
      obtain ⟨c, conn, hread, rfl, hrest⟩ := hreads
      obtain ⟨cs, p₁, hread', rfl, rfl⟩ := h.read_simulates.to_ok hread
      obtain ⟨p', new, hruns, hdata⟩ := ih (h.message hread') hrest
      refine ⟨p', new ++ [(cs.slice, cs.slice.bytes p₁.bufs)], ?_, ?_⟩
      · rw [List.append_assoc]
        exact hruns
      · rw [List.map_append, hdata, List.map_cons, List.map_cons, List.reverse_cons]
        rfl

/-- Any number of calls of `Get` hand out slices of the lengths asked for that have no byte in common. In every run of
a connection that takes its buffers from there, what it has returned stays as it was returned. -/
theorem never_overwritten :
    (∀ sizes : List Nat, (∀ n ∈ sizes, n ≤ maxpoolsize) → ∃ slices pool, Pool.gets sizes {} = some (slices, pool) ∧
      slices.map Slice.len = sizes ∧ slices.Pairwise Slice.Apart ∧ ∀ s ∈ slices, s.off + s.len ≤ maxpoolsize) ∧
    ∀ p held, Runs p held → ∀ s b, (s, b) ∈ held → s.bytes p.bufs = b := by
  constructor
  · intro sizes hsizes
    obtain ⟨slices, pool, hgets, hlens, hapart, hin, -⟩ := Pool.gets_spec {} hsizes
    exact ⟨slices, pool, hgets, hlens, hapart, hin⟩
  · intro p held h
    exact h.layout.2

/-- Two audio messages on one chunk stream. -/
def twoAudios : List ChunkStream :=
  [{ csid := 4, length := 1, typeID := tagAudio, data := [5] },
    { csid := 4, length := 1, typeID := tagAudio, data := [6] }]

/-- The second message is read over the entry of the first, whose slice is then still in it. -/
theorem never_overwritten_twoAudios : ∃ p s s', Runs p [(s', [6]), (s, [5])] ∧ s.bytes p.bufs = [5] := by
  have hwritable : ∀ m ∈ twoAudios, m.Writable := by
    intro m hm
    simp only [twoAudios, List.mem_cons, List.not_mem_nil, or_false] at hm
    rcases hm with rfl | rfl
    · exact ⟨by constructor <;> decide, fun h => absurd h (by decide), by decide⟩
    · exact ⟨by constructor <;> decide, fun h => absurd h (by decide), by decide⟩
  have hreads := (Conn.idle_newConn (Conn.sessionBytes twoAudios 128) .eof).readsAll hwritable (by decide : 4 ≤ 128)
    (by decide : 128 < 2 ^ 31) rfl
  obtain ⟨p, new, hruns, hdata⟩ := (Runs.fresh (Conn.sessionBytes twoAudios 128) .eof).reads hreads
  obtain ⟨⟨s', b'⟩, rest, rfl, hb', hrest⟩ := List.map_eq_cons_iff.mp hdata
  obtain ⟨⟨s, b⟩, rest, rfl, hb, hnil⟩ := List.map_eq_cons_iff.mp hrest
  obtain rfl := List.map_eq_nil_iff.mp hnil
  obtain rfl : b' = [6] := hb'
  obtain rfl : b = [5] := hb
  rw [List.append_nil] at hruns
  exact ⟨p, s, s', hruns, never_overwritten.2 p _ hruns s [5] (List.mem_cons_of_mem _ List.mem_cons_self)⟩

end PooledConn

end Livego
