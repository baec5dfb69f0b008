import Livego.RtmpTurnErrors
import Mathlib.Logic.Relation

/-! The calls on a connection, and that every call of `read` ends. A turn consumes a byte as long as there is one;
without one it fails, and so does every later call. -/

namespace Livego

open Endian Fallible ReadWriter

namespace ReadWriter

/-- The stream is where it was. -/
structure SameStream (rw rw' : ReadWriter) : Prop where
  unread : rw'.unread = rw.unread
  readError : rw'.readError = rw.readError
  ending : rw'.ending = rw.ending

theorem SameStream.refl (rw : ReadWriter) : SameStream rw rw := ⟨rfl, rfl, rfl⟩

theorem SameStream.trans {rw rw' rw'' : ReadWriter} (h : SameStream rw rw') (h' : SameStream rw' rw'') :
    SameStream rw rw'' :=
  ⟨h'.unread.trans h.unread, h'.readError.trans h.readError, h'.ending.trans h.ending⟩

theorem SameStream.drained {rw rw' : ReadWriter} (h : SameStream rw rw') (hd : rw.Drained) : rw'.Drained := by
  intro hne
  rw [h.readError] at hne
  exact h.unread.trans (hd hne)

theorem write_sameStream (p : Bytes) (w : ReadWriter) : SameStream w (w.write p) := ⟨rfl, rfl, rfl⟩

end ReadWriter

namespace ChunkStream

theorem writeExtended_sameStream (cs : ChunkStream) (ts : Nat) (w : ReadWriter) :
    SameStream w (cs.writeExtended ts w) := by
  unfold writeExtended
  split_ifs
  · rw [writeUintBE_eq]
    exact write_sameStream _ w
  · exact .refl w

theorem writeHeader_sameStream (cs : ChunkStream) (w : ReadWriter) :
    (cs.writeHeader w).Sat (fun _ w' => SameStream w w') (fun _ w' => SameStream w w') False := by
  have hext : ∀ ts bytes, SameStream w (cs.writeExtended ts (w.write bytes)) :=
    fun ts bytes => (write_sameStream bytes w).trans (writeExtended_sameStream cs ts (w.write bytes))
  unfold writeHeader
  simp only [writeBasicHeader_eq, writeUintBE_eq, writeUintLE_eq, write_write]
  generalize (if cs.timestamp > 0xffffff then 0xffffff else cs.timestamp) = ts
  split_ifs
  · exact hext _ _
  · exact hext _ _
  · exact write_sameStream _ w
  · exact hext _ _
  · exact hext _ _

theorem writeChunks_sameStream (cs : ChunkStream) (chunkSize turns i totalLen : Nat) (w : ReadWriter) :
    (cs.writeChunks chunkSize turns i totalLen w).Sat (fun _ w' => SameStream w w') (fun _ w' => SameStream w w')
      True := by
  induction turns generalizing i totalLen w with
  | zero => exact .refl w
  | succ turns ih =>
      rw [writeChunks]
      by_cases hend : totalLen = cs.length
      · rw [if_pos hend]
        exact .refl w
      · rw [if_neg hend]
        refine Outcome.Sat.bind ((writeHeader_sameStream _ w).imp (fun _ _ h => h) (fun _ _ h => h) fun _ => trivial) ?_
        intro _ w' hw
        have hgo : ∀ p i' totalLen', (cs.writeChunks chunkSize turns i' totalLen' (w'.write p)).Sat
            (fun _ w'' => SameStream w w'') (fun _ w'' => SameStream w w'') True := by
          intro p i' totalLen'
          have hwrite := hw.trans (write_sameStream p w')
          exact (ih i' totalLen' _).imp (fun _ _ h => hwrite.trans h) (fun _ _ h => hwrite.trans h) id
        split_ifs
        · trivial
        · exact hgo _ _ _
        · trivial
        · exact hgo _ _ _

theorem writeChunk_sameStream (cs : ChunkStream) (chunkSize : Nat) (w : ReadWriter) :
    (cs.writeChunk chunkSize w).Sat (fun _ w' => SameStream w w') (fun _ w' => SameStream w w') True := by
  unfold writeChunk
  split_ifs
  · trivial
  · exact writeChunks_sameStream _ _ _ _ _ w

end ChunkStream

open ChunkStream

namespace Conn

/-- The reading side is where it was. -/
structure SameSide (conn conn' : Conn) : Prop where
  stream : SameStream conn.rw conn'.rw
  chunks : conn'.chunks = conn.chunks

theorem SameSide.refl (conn : Conn) : SameSide conn conn := ⟨.refl conn.rw, rfl⟩

theorem SameSide.trans {conn conn' conn'' : Conn} (h : SameSide conn conn') (h' : SameSide conn' conn'') :
    SameSide conn conn'' :=
  ⟨h.stream.trans h'.stream, h'.chunks.trans h.chunks⟩

theorem onReadWriter_sameSide {α : Type} {x : Call GoError ReadWriter α} (conn : Conn)
    (h : (x conn.rw).Sat (fun _ w' => SameStream conn.rw w') (fun _ w' => SameStream conn.rw w') True) :
    (onReadWriter x conn).Sat (fun _ conn' => SameSide conn conn') (fun _ conn' => SameSide conn conn') True := by
  unfold onReadWriter
  cases hx : x conn.rw with
  | ok a rw => exact ⟨h.of_ok hx, rfl⟩
  | err e rw => exact ⟨h.of_err hx, rfl⟩
  | panic p => trivial
  | diverge => exact absurd hx h.ne_diverge

theorem write_sameSide (m : ChunkStream) (conn : Conn) :
    (write m conn).Sat (fun _ conn' => SameSide conn conn') (fun _ conn' => SameSide conn conn') True := by
  unfold write
  split_ifs
  · split
    · trivial
    · rename_i size _
      exact (onReadWriter_sameSide { conn with chunkSize := size } (writeChunk_sameStream m size conn.rw)).imp
        (fun _ _ h => ⟨h.stream, h.chunks⟩) (fun _ _ h => ⟨h.stream, h.chunks⟩) id
  · exact onReadWriter_sameSide conn (writeChunk_sameStream m conn.chunkSize conn.rw)

theorem ignoreErr_sat {x : Call GoError Conn Unit} {conn : Conn} {Q : Conn → Prop}
    (h : (x conn).Sat (fun _ conn' => Q conn') (fun _ conn' => Q conn') True) :
    (ignoreErr x conn).Sat (fun _ conn' => Q conn') (fun _ _ => False) True := by
  unfold ignoreErr
  cases hx : x conn with
  | ok _ conn' => exact h.of_ok hx
  | err e conn' => exact h.of_err hx
  | panic p => trivial
  | diverge => exact absurd hx h.ne_diverge

theorem ack_sameSide (size : Nat) (conn : Conn) :
    (ack size conn).Sat (fun _ conn' => SameSide conn conn') (fun _ _ => False) True := by
  unfold ack
  dsimp only
  generalize (if u32 (conn.received + u32 size) ≥ 0xf0000000 then 0 else u32 (conn.received + u32 size)) = received
  generalize u32 (conn.ackReceived + u32 size) = ackReceived
  split
  · refine Outcome.Sat.bind (Q := fun _ conn' => SameSide conn conn') (ignoreErr_sat ?_) ?_
    · exact (onReadWriter_sameSide { conn with received, ackReceived }
        (writeChunk_sameStream (newAck ackReceived) conn.chunkSize conn.rw)).imp
          (fun _ _ h => ⟨h.stream, h.chunks⟩) (fun _ _ h => ⟨h.stream, h.chunks⟩) id
    · intro _ conn' h
      exact ⟨h.stream, h.chunks⟩
  · exact ⟨.refl conn.rw, rfl⟩

/-- A message that is handled leaves the reading side, whatever chunk size the connection writes with. -/
theorem finish_sameSide (c : ChunkStream) (conn : Conn) :
    (finish c conn).Sat (fun c' conn' => c' = c ∧ SameSide conn conn') (fun _ _ => False) True := by
  have hcontrol : (handleControlMsg c conn).Sat (fun _ conn' => SameSide conn conn') (fun _ _ => False) True := by
    unfold handleControlMsg
    split_ifs
    · split
      · trivial
      · exact ⟨.refl conn.rw, rfl⟩
    · split
      · trivial
      · exact ⟨.refl conn.rw, rfl⟩
    · exact .refl conn
  refine hcontrol.bind fun _ conn1 h1 => Outcome.Sat.bind (Q := fun _ conn2 => SameSide conn conn2) ?_ ?_
  · exact (ack_sameSide c.length conn1).imp (fun _ _ h => h1.trans h) (fun _ _ h => h) id
  · exact fun _ _ h => ⟨rfl, h⟩

/-! ### The calls on a connection -/

/-- A call on a connection that returns: a message is read, or written, or what was written is flushed. -/
inductive Called : Conn → Conn → Prop
  | message {conn conn' : Conn} {c : ChunkStream} (hread : read conn = .ok c conn') : Called conn conn'
  | failed {conn conn' : Conn} {e : GoError} (hread : read conn = .err e conn') : Called conn conn'
  | written {conn conn' : Conn} {m : ChunkStream} (hwrite : write m conn = .ok () conn') : Called conn conn'
  | refused {conn conn' : Conn} {m : ChunkStream} {e : GoError} (hwrite : write m conn = .err e conn') :
      Called conn conn'
  | flushed (conn : Conn) : Called conn { conn with rw := conn.rw.flush }

/-- The states of a connection, whatever the peer sends and however reading and writing take turns. -/
def Operated (conn : Conn) : Prop :=
  ∃ incoming ending, Relation.ReflTransGen Called (newConn { unread := incoming, ending }) conn

/-- What every call on a connection keeps. -/
structure Live (conn : Conn) : Prop where
  drained : conn.rw.Drained
  entries : ∀ key e, conn.chunks key = some e → WellFormed e

theorem SameSide.live {conn conn' : Conn} (h : SameSide conn conn') (hlive : Live conn) : Live conn' :=
  ⟨h.stream.drained hlive.drained, h.chunks ▸ hlive.entries⟩

/-- The chunk size that a connection writes with does not matter to a turn. -/
theorem Live.inv {conn : Conn} (h : Live conn) : Inv { conn with chunkSize := 1 } :=
  ⟨h.drained, h.entries, (by decide : u32 1 ≠ 0)⟩

theorem readTurn_chunkSize {conn : Conn} (chunkSize : Nat) :
    readTurn () { conn with chunkSize } =
      match readTurn () conn with
      | .ok r conn' => .ok r { conn' with chunkSize }
      | .err e conn' => .err e { conn' with chunkSize }
      | .panic p => .panic p
      | .diverge => .diverge := by
  unfold readTurn
  dsimp only
  generalize ChunkStream.readChunk _ _ _ = o
  cases o <;> rfl

theorem Live.readTurn {conn : Conn} (h : Live conn) :
    (Conn.readTurn () conn).Sat (fun r conn' => Live conn' ∧ ∀ c, r = .inr c → WellFormed c) (fun _ conn' => Live conn')
      True := by
  have hsat := (readTurn_sat h.inv).1
  rw [readTurn_chunkSize] at hsat
  cases hturn : Conn.readTurn () conn with
  | ok r conn' =>
      rw [hturn] at hsat
      exact ⟨⟨hsat.1.drained, hsat.1.entries⟩, hsat.2.2⟩
  | err e conn' =>
      rw [hturn] at hsat
      exact ⟨hsat.1.drained, hsat.1.entries⟩
  | panic p => trivial
  | diverge => simp [hturn] at hsat

theorem Live.read {conn : Conn} (h : Live conn) :
    (Conn.read conn).Sat (fun c conn' => Live conn' ∧ WellFormed c) (fun _ conn' => Live conn') True := by
  refine sat_read (I := Live) ?_ h
  intro s hs
  refine hs.readTurn.imp ?_ (fun _ _ h => h) id
  rintro r s' ⟨hlive, hwf⟩
  cases r with
  | inl _ => exact hlive
  | inr c =>
      refine (finish_sameSide c s').imp ?_ (fun _ _ h => h.elim) id
      rintro c' s'' ⟨rfl, h⟩
      exact ⟨h.live hlive, hwf c' rfl⟩

theorem Called.live {conn conn' : Conn} (h : Called conn conn') (hlive : Live conn) : Live conn' := by
  cases h with
  | message hread => exact (hlive.read.of_ok hread).1
  | failed hread => exact hlive.read.of_err hread
  | written hwrite => exact ((write_sameSide _ conn).of_ok hwrite).live hlive
  | refused hwrite => exact ((write_sameSide _ conn).of_err hwrite).live hlive
  | flushed => exact ⟨hlive.drained, hlive.entries⟩

theorem live_of_called {conn conn' : Conn} (h : Relation.ReflTransGen Called conn conn') (hlive : Live conn) :
    Live conn' := by
  induction h with
  | refl => exact hlive
  | tail _ hcall ih => exact hcall.live ih

theorem Operated.live {conn : Conn} (h : Operated conn) : Live conn := by
  obtain ⟨incoming, ending, hcalls⟩ := h
  have hinv := inv_newConn incoming ending
  exact live_of_called hcalls ⟨hinv.drained, hinv.entries⟩

/-! ### Progress -/

/-- Turns take bytes from the front of the stream. One that does not fail has met no end of it. -/
theorem readTurn_later (conn : Conn) :
    (readTurn () conn).Sat (fun _ conn' => Later conn.rw conn'.rw ∧ conn'.rw.readError = none)
      (fun _ conn' => Later conn.rw conn'.rw) True := by
  have hbyte := readUintBE_later (n := 1) (by decide) conn.rw
  unfold readTurn
  dsimp only
  generalize hcs : ({ (conn.chunks ((conn.rw.readUintBE 1).1 &&& 0x3f)).getD {} with
    tmpFromat := (conn.rw.readUintBE 1).1 >>> 6, csid := (conn.rw.readUintBE 1).1 &&& 0x3f } : ChunkStream) = cs
  have hchunk := readChunk_later cs conn.remoteChunkSize ((conn.rw.readUintBE 1).2, conn.pool)
  cases hcase : cs.readChunk conn.remoteChunkSize ((conn.rw.readUintBE 1).2, conn.pool) with
  | ok cs' s =>
      obtain ⟨hlater, hnone⟩ := hchunk.of_ok hcase
      exact ⟨hbyte.trans hlater, hnone⟩
  | err e s => exact hbyte.trans (hchunk.of_err hcase)
  | panic p => trivial
  | diverge => exact absurd hcase hchunk.ne_diverge

theorem read_later (conn : Conn) :
    (read conn).Sat (fun _ conn' => conn'.rw.unread <:+ conn.rw.unread ∧ conn'.rw.readError = none)
      (fun _ conn' => conn'.rw.unread <:+ conn.rw.unread) True := by
  refine sat_read (I := fun s => s.rw.unread <:+ conn.rw.unread) ?_ (List.suffix_refl _)
  intro s hs
  refine (readTurn_later s).imp ?_ (fun _ _ h => h.suffix.trans hs) id
  rintro r s' ⟨hlater, hnone⟩
  cases r with
  | inl _ => exact hlater.suffix.trans hs
  | inr c =>
      refine (finish_sameSide c s').imp (fun c' s'' ⟨_, h⟩ => ⟨?_, ?_⟩) (fun _ _ h => h.elim) id
      · rw [h.stream.unread]
        exact hlater.suffix.trans hs
      · rw [h.stream.readError]
        exact hnone

/-- A message that is read takes at least a byte of the stream. -/
theorem read_lt (conn : Conn) :
    (read conn).Sat (fun _ conn' => conn'.rw.unread.length < conn.rw.unread.length) (fun _ _ => True) True := by
  refine sat_read (I := fun s => s.rw.unread.length ≤ conn.rw.unread.length) ?_ (le_refl _)
  intro s hs
  have hlater := readTurn_later s
  cases hturn : readTurn () s with
  | ok r s' =>
      have hlt := (readTurn_lt hturn).trans_le hs
      cases r with
      | inl _ => exact hlt.le
      | inr c =>
          refine (finish_sameSide c s').imp (fun _ s'' h => ?_) (fun _ _ h => h.elim) id
          rw [h.2.stream.unread]
          exact hlt
  | err e s' => trivial
  | panic p => trivial
  | diverge => exact absurd hturn hlater.ne_diverge

/-- The turn has nothing to read. It has the error of the stream recorded and returns it, unless the entry that it comes to
is in the midst of a message. -/
def Gives (conn conn' : Conn) (e : GoError) : Prop :=
  conn.rw.unread = [] ∧
    (conn'.rw.readError = some e ∨ ¬InTurn conn ∧ conn'.rw.readError ≠ none ∧ e = conn.invalidRemain)

/-- A turn takes at least a byte, or it returns an error. -/
def Progresses (conn : Conn) : Prop :=
  (readTurn () conn).Sat (fun _ conn' => conn'.rw.unread.length < conn.rw.unread.length)
    (fun e conn' => conn'.rw.unread.length < conn.rw.unread.length ∨ Gives conn conn' e) True

theorem Failed.progress {conn : Conn} (hd : conn.rw.Drained) {e : GoError} {rw : ReadWriter} (h : Failed conn e rw) :
    rw.unread.length < conn.rw.unread.length ∨ conn.rw.unread = [] ∧
      (rw.readError = some e ∨ ¬InTurn conn ∧ rw.readError ≠ none ∧ e = conn.invalidRemain) := by
  by_cases hnil : conn.rw.unread = []
  · right
    refine ⟨hnil, ?_⟩
    cases h with
    | outOfTurn hout =>
        refine Or.inr ⟨hout, ?_, rfl⟩
        intro hnone
        have hlt := readUintBE_lt (n := 1) (by decide) (by decide) hnone
        simp [hnil] at hlt
    | peek hin hpeek hrest hkeeps =>
        have hformat : (0 : Nat) >>> 6 = 3 := by
          have htmp : conn.nextByte >>> 6 = 3 := hpeek.1.1
          rwa [nextByte, hnil] at htmp
        exact absurd hformat (by decide)
    | again hin hpeek hsome hleft herror => exact Or.inl herror
    | cut hin hpeek hnone hshort hleft herror => exact Or.inl herror
  · left
    have hpos : 0 < conn.rw.unread.length := List.length_pos_iff.mpr hnil
    cases h with
    | outOfTurn hout =>
        rw [readUintBE_unread (by decide) hd, List.length_drop]
        omega
    | peek hin hpeek hrest hkeeps =>
        rw [hrest, nextHeader, List.length_drop]
        omega
    | again hin hpeek hsome hleft herror => exact absurd (hd (by rw [hsome]; exact Option.some_ne_none e)) hnil
    | cut hin hpeek hnone hshort hleft herror =>
        rw [hleft]
        exact hpos

theorem Live.progresses {conn : Conn} (h : Live conn) : Progresses conn := by
  unfold Progresses
  cases hturn : Conn.readTurn () conn with
  | ok r conn' => exact readTurn_lt hturn
  | err e conn' =>
      have hturn' : Conn.readTurn () { conn with chunkSize := 1 } = .err e { conn' with chunkSize := 1 } := by
        rw [readTurn_chunkSize, hturn]
      exact @Failed.progress { conn with chunkSize := 1 } h.drained _ _ (readTurn_err h.inv hturn').1
  | panic p => trivial
  | diverge => exact absurd hturn h.readTurn.ne_diverge

theorem Live.comesTo {conn conn' : Conn} (h : Live conn) (hcomes : ComesTo conn conn') : Live conn' := by
  refine Call.Visits.invariant (I := fun _ conn => Live conn) hcomes h ?_
  intro _ s _ s' hs hturn
  exact (hs.readTurn.of_ok hturn).1

/-- A call ends as the turn does that fails. -/
theorem read_of_comesTo {conn conn' conn'' : Conn} {e : GoError} (hcomes : ComesTo conn conn')
    (hturn : readTurn () conn' = .err e conn'') : read conn = .err e conn'' := by
  have hsame : read conn = read conn' := by
    refine Call.Visits.invariant (I := fun _ s => read conn = read s) hcomes rfl ?_
    rintro _ s ⟨⟩ s' hs hturn
    rw [hs, read_eq s, hturn]
  rw [hsame, read_eq, hturn]

/-- A call that returns an error returns that of the turn it comes to last. -/
theorem exists_turn_of_read {conn conn'' : Conn} {e : GoError} (hread : read conn = .err e conn'') :
    ∃ conn', ComesTo conn conn' ∧ readTurn () conn' = .err e conn'' := by
  refine (sat_read (I := ComesTo conn) (Q := fun _ _ => True) (P := True)
    (E := fun e t => ∃ s, ComesTo conn s ∧ Conn.readTurn () s = .err e t) ?_ (.here () conn)).of_err hread
  intro s hs
  cases hturn : Conn.readTurn () s with
  | ok r s' =>
      cases r with
      | inl _ => exact Call.Visits.trans hs (.next hturn (.here () s'))
      | inr c => exact (finish_sameSide c s').imp (fun _ _ _ => trivial) (fun _ _ h => h.elim) id
  | err e s' => exact ⟨s, hs, hturn⟩
  | panic p => trivial
  | diverge => exact absurd hturn (readTurn_later s).ne_diverge

theorem Live.readTurn_end {conn : Conn} (h : Live conn) (hnil : conn.rw.unread = []) :
    ∃ e conn', Conn.readTurn () conn = .err e conn' := by
  have hsat := (readTurn_sat h.inv).1
  rw [readTurn_chunkSize] at hsat
  cases hturn : Conn.readTurn () conn with
  | ok r conn' =>
      have hlt := readTurn_lt hturn
      simp [hnil] at hlt
  | err e conn' => exact ⟨e, conn', rfl⟩
  | panic p =>
      rw [hturn] at hsat
      obtain ⟨-, -, hover⟩ := hsat
      have hrest : nextHeader { conn with chunkSize := 1 } = [] := by simp [nextHeader, hnil]
      simp [hrest, announced, maxpoolsize] at hover
  | diverge => exact absurd hturn h.readTurn.ne_diverge

/-- What `read` does on a stream that ends: it makes finitely many turns, each of which takes a byte or returns an error,
it returns no message when it has met the end of the stream, and once the stream is used up it and every later call
return an error. -/
structure Terminates (conn : Conn) : Prop where
  ends : Conn.read conn ≠ .diverge
  turns : ∀ conn', ComesTo conn conn' → Progresses conn'
  delivers : ∀ c conn', Conn.read conn = .ok c conn' → conn'.rw.readError = none
  exhausted : ∀ conn', ComesTo conn conn' → conn'.rw.unread = [] → ∃ e last, Conn.read conn = .err e last
  later : ∀ conn', Relation.ReflTransGen Called conn conn' → conn.rw.unread = [] →
    ∃ e last, Conn.read conn' = .err e last

theorem unread_of_called {conn conn' : Conn} (h : Called conn conn') (hnil : conn.rw.unread = []) :
    conn'.rw.unread = [] := by
  cases h with
  | message hread => exact List.suffix_nil.mp (hnil ▸ ((read_later conn).of_ok hread).1)
  | failed hread => exact List.suffix_nil.mp (hnil ▸ (read_later conn).of_err hread)
  | written hwrite => exact ((write_sameSide _ conn).of_ok hwrite).stream.unread.trans hnil
  | refused hwrite => exact ((write_sameSide _ conn).of_err hwrite).stream.unread.trans hnil
  | flushed => exact hnil

theorem Live.read_end {conn conn' : Conn} (h : Live conn) (hcomes : ComesTo conn conn') (hnil : conn'.rw.unread = []) :
    ∃ e last, Conn.read conn = .err e last := by
  obtain ⟨e, last, hturn⟩ := (h.comesTo hcomes).readTurn_end hnil
  exact ⟨e, last, read_of_comesTo hcomes hturn⟩

/-- Whatever has been read and written before, and whatever chunk size the peer has announced. -/
theorem read_terminates {conn : Conn} (h : Operated conn) : Terminates conn := by
  have hlive := h.live
  refine ⟨hlive.read.ne_diverge, fun conn' hcomes => (hlive.comesTo hcomes).progresses, ?_,
    fun conn' hcomes hnil => hlive.read_end hcomes hnil, ?_⟩
  · intro c conn' hread
    exact ((read_later conn).of_ok hread).2
  · intro conn' hcalls hnil
    have hnil' : conn'.rw.unread = [] := by
      induction hcalls with
      | refl => exact hnil
      | tail _ hcall ih => exact unread_of_called hcall ih
    exact (live_of_called hcalls hlive).read_end (.here () conn') hnil'

/-- The first chunk of a message of 130 bytes on the chunk stream 64. -/
def halfMessage : Bytes := [0x00, 0x00, 0, 0, 0, 0, 0, 130, 9, 0, 0, 0, 0] ++ List.replicate 128 5

theorem read_terminates_halfMessage : Terminates (newConn { unread := halfMessage }) :=
  read_terminates ⟨halfMessage, .eof, .refl⟩

set_option maxRecDepth 8000 in
/-- A turn at the end of this stream records the end of it, and returns another error. -/
theorem exists_masked_error :
    ¬∀ conn, Operated conn → ∀ conn', ComesTo conn conn' → ∀ e conn'', readTurn () conn' = .err e conn'' →
      conn''.rw.unread.length < conn'.rw.unread.length ∨ conn''.rw.readError = some e := by
  intro h
  have hoperated : Operated (newConn { unread := halfMessage }) := ⟨halfMessage, .eof, .refl⟩
  obtain ⟨conn', hcomes, conn'', hturn, hsame, herror⟩ :
      ∃ conn', ComesTo (newConn { unread := halfMessage }) conn' ∧
        ∃ conn'', readTurn () conn' = .err (.errorf "invalid remain = 2") conn'' ∧
          conn''.rw.unread = conn'.rw.unread ∧ conn''.rw.readError = some .eof :=
    ⟨_, .next rfl (.here () _), _, rfl, rfl, rfl⟩
  rcases h _ hoperated conn' hcomes _ conn'' hturn with hlt | hsome
  · rw [hsame] at hlt
    exact absurd hlt (lt_irrefl _)
  · rw [herror] at hsome
    cases hsome

end Conn

end Livego
