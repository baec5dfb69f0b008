import Livego.RtmpArrival

/-! How a turn of the reader fails: a chunk that may not come here, an extended timestamp that is not there to
look at, or a stream that ends inside the chunk. The error of the stream is kept by whatever is read after it. -/

namespace Livego

open Endian Fallible

namespace ReadWriter

variable {α : Type}

/-- Nothing has been written, and the stream is to end as before. -/
structure KeepsWritten (r r' : ReadWriter) : Prop where
  sent : r'.sent = r.sent
  buffered : r'.buffered = r.buffered
  ending : r'.ending = r.ending

theorem KeepsWritten.refl (r : ReadWriter) : KeepsWritten r r := ⟨rfl, rfl, rfl⟩

theorem KeepsWritten.trans {r r' r'' : ReadWriter} (h : KeepsWritten r r') (h' : KeepsWritten r' r'') :
    KeepsWritten r r'' :=
  ⟨h'.sent.trans h.sent, h'.buffered.trans h.buffered, h'.ending.trans h.ending⟩

/-- What reads do to the error of the stream: they keep the one there is, and set no other than the one that the stream
ends with. -/
structure KeepsError (r r' : ReadWriter) : Prop where
  written : KeepsWritten r r'
  kept : ∀ e, r.readError = some e → r'.readError = some e
  set : r.readError = none → r'.readError = none ∨ r'.readError = some r.ending

theorem KeepsError.refl (r : ReadWriter) : KeepsError r r := ⟨.refl r, fun _ h => h, Or.inl⟩

theorem KeepsError.trans {r r' r'' : ReadWriter} (h : KeepsError r r') (h' : KeepsError r' r'') :
    KeepsError r r'' := by
  refine ⟨h.written.trans h'.written, fun e he => h'.kept e (h.kept e he), fun hnone => ?_⟩
  rcases h.set hnone with hnone' | hsome
  · rw [← h.written.ending]
    exact h'.set hnone'
  · exact Or.inr (h'.kept _ hsome)

def Sticky (f : ReadWriter → α × ReadWriter) : Prop := ∀ r, KeepsError r (f r).2

theorem ReadsNumber.sticky {n : Nat} {number : Bytes → Nat} {f : ReadWriter → Nat × ReadWriter}
    (h : ReadsNumber n number f) : Sticky f := by
  intro r
  rw [h r]
  split_ifs with hsome hlen
  · exact .refl r
  · exact ⟨⟨rfl, rfl, rfl⟩, fun _ h => h, Or.inl⟩
  · exact ⟨⟨rfl, rfl, rfl⟩, fun e h => by simp [h] at hsome, fun _ => Or.inr rfl⟩

theorem readUintBE_sticky {n : Nat} (hn : n ≤ 4) : Sticky (readUintBE n) := (readUintBE_number hn).sticky

theorem readUintLE_sticky {n : Nat} (hn : n ≤ 4) : Sticky (readUintLE n) := (readUintLE_number hn).sticky

theorem keepsError_reading : Reading KeepsError :=
  ⟨.refl, .trans, readUintBE_sticky, readUintLE_sticky, fun _ _ => ⟨⟨rfl, rfl, rfl⟩, fun _ h => h, Or.inl⟩⟩

/-- A block that is not all there: the error of `io.ReadAtLeast` tells whether some of it was. -/
theorem read_of_gt {size : Nat} {r : ReadWriter} (hnone : r.readError = none) (hsize : r.unread.length < size) :
    r.read size =
      (.error (if r.unread ≠ [] ∧ r.ending = .eof then .unexpectedEOF else r.ending),
        r.exhaust (if r.unread ≠ [] ∧ r.ending = .eof then .unexpectedEOF else r.ending)) := by
  rw [read, hnone]
  exact if_neg (by omega)

theorem read_keepsWritten (size : Nat) (r : ReadWriter) : KeepsWritten r (r.read size).2 := by
  unfold read
  split
  · exact .refl r
  · split
    · exact ⟨rfl, rfl, rfl⟩
    · exact ⟨rfl, rfl, rfl⟩

theorem read_of_readError {size : Nat} {r : ReadWriter} {e : GoError} (h : r.readError = some e) :
    r.read size = (.error e, r) := by
  rw [read, h]

end ReadWriter

open ReadWriter

namespace ChunkStream

theorem readPayload_keepsWritten (e : ChunkStream) (chunkSize : Nat) (s : ReadWriter × Pool) :
    (e.readPayload chunkSize s).Sat (fun _ s' => KeepsWritten s.1 s'.1) (fun _ s' => KeepsWritten s.1 s'.1) True := by
  obtain ⟨r, pool⟩ := s
  unfold readPayload
  dsimp only
  generalize (if e.remain > chunkSize then chunkSize else e.remain) = size
  have hread := read_keepsWritten size r
  split
  · trivial
  · cases hcase : r.read size with
    | mk result r' =>
        rw [hcase] at hread
        cases result with
        | error err => exact hread
        | ok buf =>
            dsimp only
            cases r'.readError with
            | none => exact hread
            | some err => exact hread

/-- Reading a chunk writes nothing. -/
theorem readChunk_keepsWritten (e : ChunkStream) (chunkSize : Nat) (s : ReadWriter × Pool) :
    (e.readChunk chunkSize s).Sat (fun _ s' => KeepsWritten s.1 s'.1) (fun _ s' => KeepsWritten s.1 s'.1) True := by
  obtain ⟨r, pool⟩ := s
  have hid := (keepsError_reading.inherited.readBasicId e r).written
  unfold readChunk
  dsimp only
  split_ifs
  · exact .refl r
  · apply Outcome.Sat.bind (Q := fun _ s' => KeepsWritten r s'.1)
    · exact (readHeader_reading keepsError_reading _ _).imp (fun _ _ h => hid.trans h.written)
        (fun _ _ h => hid.trans h.written) id
    · intro e' s' hs'
      exact (readPayload_keepsWritten e' chunkSize s').imp (fun _ _ h => hs'.trans h) (fun _ _ h => hs'.trans h) id

end ChunkStream

open ChunkStream

namespace Conn

/-- The next chunk comes where it may: it opens a message where none is half received, or goes on with one. -/
def InTurn (conn : Conn) : Prop := conn.nextEntry.remain = 0 ∨ conn.nextByte >>> 6 = 3

/-- The bytes of the next chunk before those of the message. -/
def nextHeaderLength (conn : Conn) : Nat :=
  1 + idLength (conn.nextByte &&& 0x3f) + conn.prepared.headerLength conn.nextHeader

/-- The next chunk has to look at four bytes that are not there. -/
def PeeksPast (conn : Conn) : Prop := conn.prepared.Peeks ∧ conn.nextHeader.length < 4

/-- The error of a stream that ends inside the next chunk. -/
def cutError (conn : Conn) : GoError :=
  if conn.nextHeaderLength < conn.rw.unread.length ∧ conn.rw.ending = .eof then .unexpectedEOF else conn.rw.ending

def invalidRemain (conn : Conn) : GoError := .errorf ("invalid remain = " ++ toString conn.nextEntry.remain)

/-- How a turn fails: with what error, and where it leaves the stream. -/
inductive Failed (conn : Conn) : GoError → ReadWriter → Prop
  | outOfTurn (hout : ¬InTurn conn) : Failed conn conn.invalidRemain (conn.rw.readUintBE 1).2
  | peek {rw : ReadWriter} (hin : InTurn conn) (hpeek : PeeksPast conn) (hrest : rw.unread = conn.nextHeader)
      (hkeeps : KeepsError conn.rw rw) : Failed conn conn.rw.ending rw
  | again {rw : ReadWriter} {e : GoError} (hin : InTurn conn) (hpeek : ¬PeeksPast conn)
      (hsome : conn.rw.readError = some e) (hleft : rw.unread = []) (herror : rw.readError = some e) : Failed conn e rw
  | cut {rw : ReadWriter} (hin : InTurn conn) (hpeek : ¬PeeksPast conn) (hnone : conn.rw.readError = none)
      (hshort : conn.rw.unread.length < conn.nextChunkLength) (hleft : rw.unread = [])
      (herror : rw.readError = some conn.cutError) : Failed conn conn.cutError rw

/-- Reading the bytes of the chunk that `e'` is ready for fails as the stream does. -/
theorem failed_of_readPayload {conn : Conn} {e' : ChunkStream} {r rw : ReadWriter} {pool pool' : Pool} {e : GoError}
    (hin : InTurn conn) (hpeek : ¬PeeksPast conn) (hwf : WellFormed e') (hd : r.Drained)
    (hcons : Consumes conn.nextHeaderLength conn.rw r) (hkeeps : KeepsError conn.rw r)
    (hremain : r.readError = none → e'.remain = conn.nextRemain)
    (hpay : e'.readPayload conn.remoteChunkSize (r, pool) = .err e (rw, pool')) : Failed conn e rw := by
  rw [readPayload_eq hwf] at hpay
  have hchunk : conn.nextChunkLength = conn.nextHeaderLength + min conn.nextRemain conn.remoteChunkSize := rfl
  cases herror : r.readError with
  | some e0 =>
      rw [read_of_readError herror] at hpay
      cases hpay
      have hleft : r.unread = [] := hd (by rw [herror]; exact Option.some_ne_none e)
      cases hconn : conn.rw.readError with
      | some e1 =>
          have hsame := (hkeeps.kept e1 hconn).symm.trans herror
          cases hsame
          exact .again hin hpeek hconn hleft herror
      | none =>
          have hending : some e = some conn.rw.ending := by
            rcases hkeeps.set hconn with hnone | hsome
            · rw [hnone] at herror
              cases herror
            · exact herror.symm.trans hsome
          have hshort : conn.rw.unread.length < conn.nextHeaderLength := by
            by_contra hlong
            have hnone := hcons.none_iff.mpr ⟨hconn, not_lt.mp hlong⟩
            rw [hnone] at herror
            cases herror
          have hcut : e = conn.cutError := by
            rw [cutError, if_neg (by omega)]
            exact Option.some.inj hending
          subst hcut
          exact .cut hin hpeek hconn (by omega) hleft herror
  | none =>
      obtain ⟨hconn, hle⟩ := hcons.none_iff.mp herror
      have hrest : r.unread.length = conn.rw.unread.length - conn.nextHeaderLength := by
        rw [hcons.unread, List.length_drop]
      rw [hremain herror] at hpay
      by_cases hthere : min conn.nextRemain conn.remoteChunkSize ≤ r.unread.length
      · simp [ReadWriter.read, herror, hthere] at hpay
      · rw [read_of_gt herror (not_le.mp hthere)] at hpay
        cases hpay
        have hcut : (if r.unread ≠ [] ∧ r.ending = .eof then .unexpectedEOF else r.ending) = conn.cutError := by
          have hiff : r.unread ≠ [] ↔ conn.nextHeaderLength < conn.rw.unread.length := by
            rw [← List.length_pos_iff, hrest]
            omega
          simp only [cutError, hiff, hkeeps.written.ending]
        rw [hcut]
        exact .cut hin hpeek hconn (by omega) rfl rfl

/-- A turn that returns an error fails in one of these ways, and leaves its entry behind. -/
theorem readTurn_err {conn conn' : Conn} {e : GoError} (h : Inv conn) (hturn : readTurn () conn = .err e conn') :
    Failed conn e conn'.rw ∧
      conn'.chunks = Function.update conn.chunks (conn.nextByte &&& 0x3f) (some conn.leftBehind) := by
  have hd := h.drained
  have hfit : ¬OpensOverlong conn := fun hover => ((readTurn_sat h).2 hover).ne_err hturn
  have hd1 := (readUintBE_later (n := 1) (by decide) conn.rw).drained hd
  have hd2 := (readBasicId_later conn.prepared _).drained hd1
  have hc := (readUintBE_consumes (n := 1) (by decide) hd).trans (readBasicId_consumes (e := conn.prepared) hd1)
  have hkeeps := (readUintBE_sticky (n := 1) (by decide) conn.rw).trans
    (keepsError_reading.inherited.readBasicId conn.prepared _)
  obtain ⟨csid, hentry⟩ := readBasicId_entry conn.prepared (conn.rw.readUintBE 1).2
  have hprep := prepared_wellFormed h
  have hwf : WellFormed { conn.prepared with csid } :=
    ⟨hprep.data_length, hprep.index_remain, hprep.length_le, hprep.not_got⟩
  rw [readTurn_eq hd] at hturn
  by_cases hin : InTurn conn
  · have hheader : (conn.prepared.readBasicId (conn.rw.readUintBE 1).2).2.unread = conn.nextHeader := hc.unread
    have hchunk : conn.prepared.readChunk conn.remoteChunkSize ((conn.rw.readUintBE 1).2, conn.pool) =
        (readHeader { conn.prepared with csid } >>= fun cs => cs.readPayload conn.remoteChunkSize)
          ((conn.prepared.readBasicId (conn.rw.readUintBE 1).2).2, conn.pool) := by
      unfold readChunk
      dsimp only
      rw [if_neg (by show ¬(conn.nextEntry.remain ≠ 0 ∧ conn.nextByte >>> 6 ≠ 3); unfold InTurn at hin; tauto),
        ← hentry]
    rw [hchunk, Call.bind_apply] at hturn
    set r2 := (conn.prepared.readBasicId (conn.rw.readUintBE 1).2).2 with hr2
    have hfit' : ¬(conn.nextByte >>> 6 ≤ 1 ∧ maxpoolsize < announced r2.unread) := by
      rw [hheader]
      rintro ⟨hopen, hover⟩
      exact hfit ⟨hin.resolve_right (by omega), hopen, hover⟩
    have hframed := readHeader_framed hwf hd2 (nextByte_format conn) hin hfit' conn.pool
    have hwf' := (readHeader_wellFormed hwf hd2 (nextByte_format conn) conn.pool).1
    have hsticky := readHeader_reading keepsError_reading { conn.prepared with csid } (r2, conn.pool)
    have hlater := readHeader_later { conn.prepared with csid } (r2, conn.pool)
    rw [hheader] at hframed
    cases hh : readHeader { conn.prepared with csid } (r2, conn.pool) with
    | ok e' s =>
        obtain ⟨r3, pool3⟩ := s
        obtain ⟨hpeeks, hcons, hfields⟩ := hframed.of_ok hh
        rw [hh] at hturn
        dsimp only at hturn
        cases hpay : e'.readPayload conn.remoteChunkSize (r3, pool3) with
        | err err' s =>
            obtain ⟨r4, pool4⟩ := s
            rw [hpay] at hturn
            cases hturn
            refine ⟨failed_of_readPayload hin ?_ (hwf'.of_ok hh) ((hlater.of_ok hh).drained hd2) (hc.trans hcons)
              (hkeeps.trans (hsticky.of_ok hh)) (fun hnone => (hfields hnone).remain) hpay, rfl⟩
            rintro ⟨hp, hshort⟩
            have hlen := hpeeks hp
            omega
        | ok e'' s => simp [hpay] at hturn
        | panic p => simp [hpay] at hturn
        | diverge => simp [hpay] at hturn
    | err err' s =>
        obtain ⟨hp, hshort⟩ := hframed.of_err hh
        rw [hh] at hturn
        cases hturn
        have htmp := hp.1
        have hremain := hp.2.1
        have hskip : skipExtended { conn.prepared with csid } (r2, conn.pool) = .err e s := by
          rw [← hh]
          have htmp' : conn.nextByte >>> 6 = 3 := htmp
          have hremain' : ¬conn.nextEntry.remain = 0 := hremain
          simp only [readHeader, prepared, htmp', if_neg hremain']
        obtain ⟨hsame, herr⟩ := skipExtended_err hskip
        subst hsame
        have hending : e = conn.rw.ending := herr.trans hkeeps.written.ending
        subst hending
        exact ⟨.peek hin ⟨hp, hshort⟩ hheader hkeeps, rfl⟩
    | panic p => simp [hh] at hturn
    | diverge => simp [hh] at hturn
  · have hchunk : conn.prepared.readChunk conn.remoteChunkSize ((conn.rw.readUintBE 1).2, conn.pool) =
        .err conn.invalidRemain ((conn.rw.readUintBE 1).2, conn.pool) := by
      unfold readChunk
      dsimp only
      rw [if_pos (by show conn.nextEntry.remain ≠ 0 ∧ conn.nextByte >>> 6 ≠ 3; unfold InTurn at hin; tauto)]
      rfl
    rw [hchunk] at hturn
    cases hturn
    exact ⟨.outOfTurn hin, rfl⟩

end Conn

end Livego
