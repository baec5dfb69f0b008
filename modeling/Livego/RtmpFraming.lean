import Livego.RtmpMessage

/-! The framing of a chunk on any stream: how many bytes its header takes, what length and type the message
has that it belongs to, and which of its bytes it brings. A turn of the reader follows this framing. -/

namespace Livego

open Endian Fallible

namespace ReadWriter

/-- The reader has moved on by `n` bytes, and without an error exactly if they were there. -/
structure Consumes (n : Nat) (rw rw' : ReadWriter) : Prop where
  unread : rw'.unread = rw.unread.drop n
  none_iff : rw'.readError = none ↔ rw.readError = none ∧ n ≤ rw.unread.length

theorem Consumes.refl (rw : ReadWriter) : Consumes 0 rw rw := ⟨rfl, by simp⟩

theorem Consumes.trans {m n : Nat} {rw rw' rw'' : ReadWriter} (h : Consumes m rw rw') (h' : Consumes n rw' rw'') :
    Consumes (m + n) rw rw'' := by
  refine ⟨by rw [h'.unread, h.unread, List.drop_drop], ?_⟩
  rw [h'.none_iff, h.none_iff, h.unread, List.length_drop, and_assoc]
  refine and_congr_right fun _ => ?_
  omega

theorem Consumes.cast {m n : Nat} {rw rw' : ReadWriter} (h : Consumes m rw rw') (hmn : m = n) : Consumes n rw rw' :=
  hmn ▸ h

theorem ReadsNumber.consumes {n : Nat} {number : Bytes → Nat} {f : ReadWriter → Nat × ReadWriter}
    (h : ReadsNumber n number f) {rw : ReadWriter} (hd : rw.Drained) : Consumes n rw (f rw).2 := by
  refine ⟨h.unread hd, ?_⟩
  rw [h rw]
  split_ifs with h1 h2
  · have hne := Option.isSome_iff_ne_none.mp h1
    simp [hne]
  · have hnone : rw.readError = none := by simpa using h1
    simp [hnone, h2]
  · simp [exhaust, h2]

theorem readUintBE_consumes {n : Nat} (hn : n ≤ 4) {rw : ReadWriter} (hd : rw.Drained) :
    Consumes n rw (rw.readUintBE n).2 :=
  (readUintBE_number hn).consumes hd

theorem readUintLE_consumes {n : Nat} (hn : n ≤ 4) {rw : ReadWriter} (hd : rw.Drained) :
    Consumes n rw (rw.readUintLE n).2 :=
  (readUintLE_number hn).consumes hd

theorem discard_consumes {n : Nat} {rw : ReadWriter} (hlen : n ≤ rw.unread.length) :
    Consumes n rw (rw.discard n) :=
  ⟨rfl, (and_iff_left hlen).symm⟩

/-- A three-byte number above two bytes is read exactly if its bytes are there. -/
theorem readUintBE_three {rw : ReadWriter} (hd : rw.Drained) :
    (rw.readUintBE 3).1 = 0xffffff ↔ beNat (rw.unread.take 3) = 0xffffff := by
  rw [readUintBE_value (by decide) hd]
  by_cases hlen : 3 ≤ rw.unread.length
  · rw [if_pos hlen]
  · have hlt := beNat_lt (rw.unread.take 3)
    have hpow : 256 ^ (rw.unread.take 3).length ≤ 256 ^ 2 :=
      Nat.pow_le_pow_right (by decide) (by rw [List.length_take]; omega)
    rw [if_neg hlen]
    omega

end ReadWriter

open ReadWriter

namespace ChunkStream

/-- The bytes of a message header before the extended timestamp. -/
def fixedLength (format : Nat) : Nat :=
  match format with
  | 0 => 11
  | 1 => 7
  | 2 => 3
  | _ => 0

/-- The chunk skips an extended timestamp only after a look at it. -/
def Peeks (e : ChunkStream) : Prop := e.tmpFromat = 3 ∧ e.remain ≠ 0 ∧ e.exted = true

instance (e : ChunkStream) : Decidable e.Peeks := by unfold Peeks; infer_instance

/-- The bytes of the extended timestamp of a chunk whose message header starts with `b`. -/
def extendedLength (e : ChunkStream) (b : Bytes) : Nat :=
  if e.tmpFromat = 3 then
    if e.exted = true ∧ (if e.remain = 0 then e.format ≤ 2 else beNat (b.take 4) = e.timestamp) then 4 else 0
  else if beNat (b.take 3) = 0xffffff then 4 else 0

def headerLength (e : ChunkStream) (b : Bytes) : Nat := fixedLength e.tmpFromat + e.extendedLength b

/-- The length of the message the chunk belongs to. -/
def lengthIn (e : ChunkStream) (b : Bytes) : Nat := if e.tmpFromat ≤ 1 then announced b else e.length

/-- The type of the message the chunk belongs to. -/
def typeIn (e : ChunkStream) (b : Bytes) : Nat :=
  if e.tmpFromat ≤ 1 then beNat ((b.drop 6).take 1) else e.typeID

/-- What is missing of the message before the bytes of the chunk. -/
def remainIn (e : ChunkStream) (b : Bytes) : Nat := if e.remain = 0 then e.lengthIn b else e.remain

/-- The entry between header and payload has the fields that the framing gives it. -/
structure Framed (e : ChunkStream) (b : Bytes) (e' : ChunkStream) : Prop where
  length : e'.length = e.lengthIn b
  typeID : e'.typeID = e.typeIn b
  remain : e'.remain = e.remainIn b
  got : e'.got = false

theorem readExtended_consumes (ts : Nat) {r : ReadWriter} (hd : r.Drained) :
    Consumes (if ts = 0xffffff then 4 else 0) r (readExtended ts r).2 := by
  unfold readExtended
  split_ifs
  · exact readUintBE_consumes (by decide) hd
  · exact .refl r

theorem readFull_consumes {e : ChunkStream} {r : ReadWriter} (hd : r.Drained) :
    Consumes (11 + (if beNat (r.unread.take 3) = 0xffffff then 4 else 0)) r (e.readFull r).2 := by
  have h1 := readUintBE_consumes (n := 3) (by decide) hd
  have hd1 := (readUintBE_later (n := 3) (by decide) r).drained hd
  have h2 := readUintBE_consumes (n := 3) (by decide) hd1
  have hd2 := (readUintBE_later (n := 3) (by decide) _).drained hd1
  have h3 := readUintBE_consumes (n := 1) (by decide) hd2
  have hd3 := (readUintBE_later (n := 1) (by decide) _).drained hd2
  have h4 := readUintLE_consumes (n := 4) (by decide) hd3
  have hd4 := (readUintLE_later (n := 4) (by decide) _).drained hd3
  have h5 := readExtended_consumes (r.readUintBE 3).1 hd4
  simp only [readUintBE_three hd] at h5
  exact (((h1.trans h2).trans h3).trans h4).trans h5

theorem readSameStream_consumes {e : ChunkStream} {r : ReadWriter} (hd : r.Drained) :
    Consumes (7 + (if beNat (r.unread.take 3) = 0xffffff then 4 else 0)) r (e.readSameStream r).2 := by
  have h1 := readUintBE_consumes (n := 3) (by decide) hd
  have hd1 := (readUintBE_later (n := 3) (by decide) r).drained hd
  have h2 := readUintBE_consumes (n := 3) (by decide) hd1
  have hd2 := (readUintBE_later (n := 3) (by decide) _).drained hd1
  have h3 := readUintBE_consumes (n := 1) (by decide) hd2
  have hd3 := (readUintBE_later (n := 1) (by decide) _).drained hd2
  have h4 := readExtended_consumes (r.readUintBE 3).1 hd3
  simp only [readUintBE_three hd] at h4
  exact ((h1.trans h2).trans h3).trans h4

theorem readDelta_consumes {e : ChunkStream} {r : ReadWriter} (hd : r.Drained) :
    Consumes (3 + (if beNat (r.unread.take 3) = 0xffffff then 4 else 0)) r (e.readDelta r).2 := by
  have h1 := readUintBE_consumes (n := 3) (by decide) hd
  have hd1 := (readUintBE_later (n := 3) (by decide) r).drained hd
  have h2 := readExtended_consumes (r.readUintBE 3).1 hd1
  simp only [readUintBE_three hd] at h2
  exact h1.trans h2

theorem readRepeated_consumes {e : ChunkStream} {r : ReadWriter} (hd : r.Drained) :
    Consumes (if e.exted = true ∧ e.format ≤ 2 then 4 else 0) r (e.readRepeated r).2 := by
  have h := readUintBE_consumes (n := 4) (by decide) hd
  have hz := Consumes.refl r
  unfold readRepeated
  rcases hf : e.format with _ | _ | _ | f <;> cases hx : e.exted <;> simpa using by assumption

/-- The announced length and type are read if their bytes are there. -/
theorem readFull_framed {e : ChunkStream} {r : ReadWriter} (hd : r.Drained) (hlen : 7 ≤ r.unread.length) :
    (e.readFull r).1.length = announced r.unread ∧
      (e.readFull r).1.typeID = beNat ((r.unread.drop 6).take 1) := by
  have hd1 := (readUintBE_later (n := 3) (by decide) r).drained hd
  have hu1 := readUintBE_unread (n := 3) (by decide) hd
  have hd2 := (readUintBE_later (n := 3) (by decide) _).drained hd1
  have hu2 := readUintBE_unread (n := 3) (by decide) hd1
  have hv2 := readUintBE_value (n := 3) (by decide) hd1
  have hv3 := readUintBE_value (n := 1) (by decide) hd2
  rw [hu1, List.length_drop, if_pos (by omega)] at hv2
  rw [hu2, hu1, List.drop_drop, List.length_drop, if_pos (by omega)] at hv3
  exact ⟨hv2, hv3⟩

theorem readSameStream_framed {e : ChunkStream} {r : ReadWriter} (hd : r.Drained) (hlen : 7 ≤ r.unread.length) :
    (e.readSameStream r).1.length = announced r.unread ∧
      (e.readSameStream r).1.typeID = beNat ((r.unread.drop 6).take 1) :=
  readFull_framed (e := e) hd hlen

theorem readRepeated_framed (e : ChunkStream) (r : ReadWriter) :
    (e.readRepeated r).1.length = e.length ∧ (e.readRepeated r).1.typeID = e.typeID := by
  unfold readRepeated
  split <;> (try split) <;> exact ⟨rfl, rfl⟩

/-- Opening a message takes the header bytes and sets up an entry for all of it. -/
theorem new_framed {e e' : ChunkStream} {r r' : ReadWriter} {pool : Pool} {n : Nat} (hzero : e.remain = 0)
    (hc : Consumes n r r') (hlen : e'.length ≤ maxpoolsize)
    (hfields : r'.readError = none → e'.length = e.lengthIn r.unread ∧ e'.typeID = e.typeIn r.unread) :
    (e'.new (r', pool)).Sat
      (fun e'' s' => Consumes n r s'.1 ∧ (s'.1.readError = none → Framed e r.unread e''))
      (fun _ _ => False) False := by
  obtain ⟨pool', hnew⟩ := new_of_le hlen r' pool
  rw [hnew]
  refine ⟨hc, fun hnone => ?_⟩
  obtain ⟨hl, ht⟩ := hfields hnone
  refine ⟨hl, ht, ?_, rfl⟩
  rw [remainIn, if_pos hzero]
  exact hl

/-- Reading a header takes its bytes and gives the entry the fields of the framing, unless it fails on the
look at an extended timestamp. -/
theorem readHeader_framed {e : ChunkStream} {r : ReadWriter} (he : WellFormed e) (hd : r.Drained)
    (hformat : e.tmpFromat ≤ 3) (hvalid : e.remain = 0 ∨ e.tmpFromat = 3)
    (hfit : ¬(e.tmpFromat ≤ 1 ∧ maxpoolsize < announced r.unread)) (pool : Pool) :
    (e.readHeader (r, pool)).Sat
      (fun e' s' => (e.Peeks → 4 ≤ r.unread.length) ∧ Consumes (e.headerLength r.unread) r s'.1 ∧
        (s'.1.readError = none → Framed e r.unread e'))
      (fun _ _ => e.Peeks ∧ r.unread.length < 4) False := by
  have hopen : ∀ {e' : ChunkStream} {r' : ReadWriter}, e.remain = 0 → Consumes (e.headerLength r.unread) r r' →
      e'.length ≤ maxpoolsize →
      (r'.readError = none → e'.length = e.lengthIn r.unread ∧ e'.typeID = e.typeIn r.unread) →
      (e'.new (r', pool)).Sat
        (fun e' s' => (e.Peeks → 4 ≤ r.unread.length) ∧ Consumes (e.headerLength r.unread) r s'.1 ∧
          (s'.1.readError = none → Framed e r.unread e'))
        (fun _ _ => e.Peeks ∧ r.unread.length < 4) False := by
    intro e' r' hzero hc hlen hfields
    exact (new_framed hzero hc hlen hfields).imp (fun _ _ h => ⟨fun hp => absurd hzero hp.2.1, h⟩)
      (fun _ _ h => h.elim) id
  have hle := he.length_le
  have hcases : e.tmpFromat = 0 ∨ e.tmpFromat = 1 ∨ e.tmpFromat = 2 ∨ e.tmpFromat = 3 := by omega
  unfold readHeader
  rcases hcases with h | h | h | h <;> simp only [h]
  · have hzero : e.remain = 0 := by omega
    have hc := readFull_consumes (e := e) hd
    refine hopen hzero (hc.cast (by simp [headerLength, extendedLength, h, fixedLength])) ?_ ?_
    · have := mt (readUintBE_announced hd).mp (by simpa [h] using hfit)
      exact not_lt.mp this
    · intro hnone'
      have hlen := (hc.none_iff.mp hnone').2
      obtain ⟨hl, ht⟩ := readFull_framed (e := e) hd (by omega)
      exact ⟨by rw [hl, lengthIn, if_pos (by omega)], by rw [ht, typeIn, if_pos (by omega)]⟩
  · have hzero : e.remain = 0 := by omega
    have hc := readSameStream_consumes (e := e) hd
    refine hopen hzero (hc.cast (by simp [headerLength, extendedLength, h, fixedLength])) ?_ ?_
    · have := mt (readUintBE_announced hd).mp (by simpa [h] using hfit)
      exact not_lt.mp this
    · intro hnone'
      have hlen := (hc.none_iff.mp hnone').2
      obtain ⟨hl, ht⟩ := readSameStream_framed (e := e) hd (by omega)
      exact ⟨by rw [hl, lengthIn, if_pos (by omega)], by rw [ht, typeIn, if_pos (by omega)]⟩
  · have hzero : e.remain = 0 := by omega
    have hc := readDelta_consumes (e := e) hd
    refine hopen hzero (hc.cast (by simp [headerLength, extendedLength, h, fixedLength])) hle ?_
    intro _
    exact ⟨by rw [lengthIn, if_neg (by omega)]; rfl, by rw [typeIn, if_neg (by omega)]; rfl⟩
  · by_cases hzero : e.remain = 0
    · rw [if_pos hzero]
      have hc := readRepeated_consumes (e := e) hd
      obtain ⟨hl, ht⟩ := readRepeated_framed e r
      apply hopen hzero (hc.cast (by simp [headerLength, extendedLength, h, fixedLength, hzero])) (hl.trans_le hle)
      intro _
      exact ⟨by rw [hl, lengthIn, if_neg (by omega)], by rw [ht, typeIn, if_neg (by omega)]⟩
    · rw [if_neg hzero]
      have hsame : Framed e r.unread e :=
        ⟨by rw [lengthIn, if_neg (by omega)], by rw [typeIn, if_neg (by omega)], by rw [remainIn, if_neg hzero],
          he.not_got hzero⟩
      cases hx : e.exted with
      | false =>
          have hc : Consumes (e.headerLength r.unread) r r :=
            (Consumes.refl r).cast (by simp [headerLength, extendedLength, h, fixedLength, hx])
          simp only [skipExtended, hx]
          exact ⟨fun hp => absurd hp.2.2 (by simp [hx]), hc, fun _ => hsame⟩
      | true =>
          simp only [skipExtended, hx, if_true, peek]
          by_cases hpeek : 4 ≤ r.unread.length
          · rw [if_pos hpeek]
            dsimp only
            split_ifs with hts
            · refine ⟨fun _ => hpeek, (discard_consumes hpeek).cast ?_, fun _ => hsame⟩
              simp [headerLength, extendedLength, h, fixedLength, hx, hzero, hts]
            · refine ⟨fun _ => hpeek, (Consumes.refl r).cast ?_, fun _ => hsame⟩
              simp [headerLength, extendedLength, h, fixedLength, hx, hzero, hts]
          · rw [if_neg hpeek]
            exact ⟨⟨h, hzero, hx⟩, by omega⟩

theorem readBasicId_consumes {e : ChunkStream} {r : ReadWriter} (hd : r.Drained) :
    Consumes (idLength e.csid) r (e.readBasicId r).2 := by
  unfold readBasicId idLength
  rcases e.csid with _ | _ | key
  · exact readUintLE_consumes (n := 1) (by decide) hd
  · exact readUintLE_consumes (n := 2) (by decide) hd
  · exact .refl r

/-- The bytes of a chunk are read exactly if they are there, and complete the message exactly if they are
all that is missing. -/
theorem readPayload_framed {e : ChunkStream} {r : ReadWriter} (he : WellFormed e)
    (hgot : r.readError = none → e.got = false) (chunkSize : Nat) (pool : Pool) :
    (e.readPayload chunkSize (r, pool)).Sat
      (fun e' _ => (r.readError = none ∧ min e.remain chunkSize ≤ r.unread.length) ∧
        e'.typeID = e.typeID ∧ e'.data.length = e.length ∧ (e'.full = true ↔ e.remain ≤ chunkSize))
      (fun _ _ => ¬(r.readError = none ∧ min e.remain chunkSize ≤ r.unread.length)) False := by
  have hdata : ∀ buf : Bytes, buf.length ≤ e.remain → (e.counted buf).data.length = e.length :=
    fun buf hbuf => (length_spilled he hbuf).trans he.data_length
  rw [readPayload_eq he]
  cases hnone : r.readError with
  | some err => simp [ReadWriter.read, hnone]
  | none =>
      by_cases havail : min e.remain chunkSize ≤ r.unread.length
      · have hbuf : (r.unread.take (min e.remain chunkSize)).length = min e.remain chunkSize := by
          rw [List.length_take]
          omega
        simp only [ReadWriter.read, hnone, if_pos havail, Outcome.sat_ok]
        refine ⟨⟨trivial, havail⟩, rfl, hdata _ (by omega), ?_⟩
        show (if e.remain - (r.unread.take (min e.remain chunkSize)).length = 0 then true else e.got) = true ↔ _
        rw [hbuf, hgot hnone]
        split_ifs with hzero
        · exact iff_of_true rfl (by omega)
        · exact iff_of_false (by simp) (by omega)
      · simp [ReadWriter.read, hnone, havail]

end ChunkStream

open ChunkStream

namespace Conn

/-- The message of the next chunk: its length, its type, and what is missing of it. -/
def nextLength (conn : Conn) : Nat := conn.prepared.lengthIn conn.nextHeader
def nextType (conn : Conn) : Nat := conn.prepared.typeIn conn.nextHeader
def nextRemain (conn : Conn) : Nat := conn.prepared.remainIn conn.nextHeader

/-- The length of the next chunk on the wire. -/
def nextChunkLength (conn : Conn) : Nat :=
  1 + idLength (conn.nextByte &&& 0x3f) + conn.prepared.headerLength conn.nextHeader +
    min conn.nextRemain conn.remoteChunkSize

/-- The next chunk is all there, and it opens a message only where none is half received. -/
structure Accepts (conn : Conn) : Prop where
  valid : conn.nextEntry.remain = 0 ∨ conn.nextByte >>> 6 = 3
  peeks : conn.prepared.Peeks → 4 ≤ conn.nextHeader.length
  whole : conn.rw.readError = none ∧ conn.nextChunkLength ≤ conn.rw.unread.length

/-- The next chunk brings the rest of its message. -/
def Completes (conn : Conn) : Prop := Accepts conn ∧ conn.nextRemain ≤ conn.remoteChunkSize

/-- The framing decides what a turn does: it fails unless the chunk is accepted, and it returns the message
exactly if the chunk completes it. -/
theorem readTurn_framed {conn : Conn} (h : Inv conn) (hfit : ¬OpensOverlong conn) :
    (readTurn () conn).Sat
      (fun r _ => Accepts conn ∧
        match r with
        | .inl _ => conn.remoteChunkSize < conn.nextRemain
        | .inr c => conn.nextRemain ≤ conn.remoteChunkSize ∧ c.typeID = conn.nextType ∧
            c.data.length = conn.nextLength)
      (fun _ _ => ¬Accepts conn) False := by
  have hd := h.drained
  have hc1 := readUintBE_consumes (n := 1) (by decide) hd
  have hd1 := (readUintBE_later (n := 1) (by decide) conn.rw).drained hd
  have hc2 := readBasicId_consumes (e := conn.prepared) hd1
  have hd2 := (readBasicId_later conn.prepared _).drained hd1
  obtain ⟨csid, hentry⟩ := readBasicId_entry conn.prepared (conn.rw.readUintBE 1).2
  have hc := hc1.trans hc2
  have hheader : (conn.prepared.readBasicId (conn.rw.readUintBE 1).2).2.unread = conn.nextHeader := hc.unread
  have hprep := prepared_wellFormed h
  have hwf : WellFormed { conn.prepared with csid } :=
    ⟨hprep.data_length, hprep.index_remain, hprep.length_le, hprep.not_got⟩
  set r2 := (conn.prepared.readBasicId (conn.rw.readUintBE 1).2).2 with hr2
  rw [readTurn_eq hd]
  by_cases hvalid : conn.nextEntry.remain = 0 ∨ conn.nextByte >>> 6 = 3
  · have hfit' : ¬(conn.nextByte >>> 6 ≤ 1 ∧ maxpoolsize < announced r2.unread) := by
      rw [hheader]
      rintro ⟨hopen, hover⟩
      exact hfit ⟨hvalid.resolve_right (by omega), hopen, hover⟩
    have hhead := (readHeader_framed hwf hd2 (nextByte_format conn) hvalid hfit' conn.pool).and
      (readHeader_wellFormed hwf hd2 (nextByte_format conn) conn.pool).1
    have hchunk : conn.prepared.readChunk conn.remoteChunkSize ((conn.rw.readUintBE 1).2, conn.pool) =
        (readHeader { conn.prepared with csid } >>= fun cs => cs.readPayload conn.remoteChunkSize)
          (r2, conn.pool) := by
      unfold readChunk
      dsimp only
      rw [if_neg (by show ¬(conn.nextEntry.remain ≠ 0 ∧ conn.nextByte >>> 6 ≠ 3); tauto), ← hentry]
    rw [hheader] at hhead
    rw [hchunk, Call.bind_apply]
    cases hh : readHeader { conn.prepared with csid } (r2, conn.pool) with
    | ok e s =>
        obtain ⟨r3, pool3⟩ := s
        obtain ⟨⟨hpeeks, hcons, hframed⟩, hwfe⟩ := hhead.of_ok hh
        have hpay := readPayload_framed hwfe (fun hnone => (hframed hnone).got) conn.remoteChunkSize pool3
        have htotal := hc.trans hcons
        have hwhole : r3.readError = none ∧ min e.remain conn.remoteChunkSize ≤ r3.unread.length ↔
            conn.rw.readError = none ∧ conn.nextChunkLength ≤ conn.rw.unread.length := by
          have hiff : r3.readError = none ↔ conn.rw.readError = none ∧ 1 + idLength (conn.nextByte &&& 0x3f) +
              conn.prepared.headerLength conn.nextHeader ≤ conn.rw.unread.length := htotal.none_iff
          have hunread : r3.unread.length = conn.rw.unread.length - (1 + idLength (conn.nextByte &&& 0x3f) +
              conn.prepared.headerLength conn.nextHeader) := by
            rw [htotal.unread, List.length_drop]
            rfl
          unfold nextChunkLength
          by_cases hnone : r3.readError = none
          · have hremain : e.remain = conn.nextRemain := (hframed hnone).remain
            obtain ⟨hrw, hlen⟩ := hiff.mp hnone
            rw [hremain, hunread]
            exact ⟨fun hl => ⟨hrw, by omega⟩, fun hr => ⟨hnone, by omega⟩⟩
          · exact ⟨fun hl => absurd hl.1 hnone, fun hr => absurd (hiff.mpr ⟨hr.1, by omega⟩) hnone⟩
        dsimp only
        cases hp : e.readPayload conn.remoteChunkSize (r3, pool3) with
        | ok e' s' =>
            obtain ⟨hthere, htype, hlen, hfull⟩ := hpay.of_ok hp
            obtain ⟨hl, ht, hr, _⟩ := hframed hthere.1
            have hremain : e.remain = conn.nextRemain := hr
            refine ⟨⟨hvalid, hpeeks, hwhole.mp hthere⟩, ?_⟩
            rw [hremain] at hfull
            by_cases hdone : conn.nextRemain ≤ conn.remoteChunkSize
            · simp only [if_pos (hfull.mpr hdone)]
              exact ⟨hdone, htype.trans ht, hlen.trans hl⟩
            · simp only [if_neg (mt hfull.mp hdone)]
              exact not_le.mp hdone
        | err err s' =>
            have hnot := hpay.of_err hp
            exact fun hacc => hnot (hwhole.mpr hacc.whole)
        | panic p => exact hpay.of_panic hp
        | diverge => exact absurd hp hpay.ne_diverge
    | err err s =>
        obtain ⟨⟨hpeeks, hshort⟩, _⟩ := hhead.of_err hh
        intro hacc
        have hthere := hacc.peeks hpeeks
        omega
    | panic p => exact (hhead.of_panic hh).1
    | diverge => exact absurd hh hhead.ne_diverge
  · have hrejected : conn.prepared.readChunk conn.remoteChunkSize ((conn.rw.readUintBE 1).2, conn.pool) =
        .err (.errorf ("invalid remain = " ++ toString conn.nextEntry.remain))
          ((conn.rw.readUintBE 1).2, conn.pool) := by
      unfold readChunk
      dsimp only
      rw [if_pos (by show conn.nextEntry.remain ≠ 0 ∧ conn.nextByte >>> 6 ≠ 3; tauto)]
      rfl
    rw [hrejected]
    exact fun hacc => hvalid hacc.valid

end Conn

end Livego
