import Livego.RtmpConnClient
import Livego.RtmpProgress

/-! The loop in which a relay receives what its source sends. It stops on the error `io.EOF` and on no other, so that it
ends with the source exactly if the reader takes the end of the stream for that. -/

namespace Livego

open Endian Fallible ChunkStream ReadWriter

namespace Conn

/-- The reader takes the end of the stream for `io.EOF`: no message is half received where it reads next, and the stream has
ended so already, or it ends before any byte of the message that the chunk brings. -/
structure EndsClean (conn : Conn) : Prop where
  inTurn : InTurn conn
  fits : ¬OpensOverlong conn
  ended : conn.rw.readError = some .eof ∨ conn.rw.readError = none ∧ conn.rw.ending = .eof ∧
    (PeeksPast conn ∨
      conn.rw.unread.length < conn.nextChunkLength ∧ conn.rw.unread.length ≤ conn.nextHeaderLength)

theorem invalidRemain_ne (conn : Conn) : conn.invalidRemain ≠ .eof := by
  rw [invalidRemain]
  exact GoError.noConfusion

/-- Only a chunk of the stream makes the reader look ahead. -/
theorem PeeksPast.readError {conn : Conn} (hd : conn.rw.Drained) (h : PeeksPast conn) : conn.rw.readError = none := by
  by_contra hne
  have hformat : conn.nextByte >>> 6 = 3 := h.1.1
  rw [nextByte, hd hne] at hformat
  exact absurd hformat (by decide)

theorem Failed.endsClean {conn : Conn} (hd : conn.rw.Drained) (hfit : ¬OpensOverlong conn) {rw : ReadWriter}
    (h : Failed conn .eof rw) : EndsClean conn := by
  generalize he : GoError.eof = e at h
  cases h with
  | outOfTurn hout => exact absurd he.symm (invalidRemain_ne conn)
  | peek hin hpeek hrest hkeeps => exact ⟨hin, hfit, Or.inr ⟨hpeek.readError hd, he.symm, Or.inl hpeek⟩⟩
  | again hin hpeek hsome hleft herror => exact ⟨hin, hfit, Or.inl (he ▸ hsome)⟩
  | cut hin hpeek hnone hshort hleft herror =>
      refine ⟨hin, hfit, Or.inr ⟨hnone, ?_⟩⟩
      unfold cutError at he
      split_ifs at he with hlong
      exact ⟨he.symm, Or.inr ⟨hshort, not_lt.mp fun hlt => hlong ⟨hlt, he.symm⟩⟩⟩

theorem EndsClean.not_accepts {conn : Conn} (h : EndsClean conn) : ¬Accepts conn := by
  intro hacc
  rcases h.ended with hsome | ⟨-, -, hpeek | hshort⟩
  · rw [hacc.whole.1] at hsome
    cases hsome
  · have hfour := hacc.peeks hpeek.1
    have hless := hpeek.2
    omega
  · have hle := hacc.whole.2
    omega

theorem EndsClean.eof {conn : Conn} (hd : conn.rw.Drained) (h : EndsClean conn) {e : GoError} {rw : ReadWriter}
    (hfailed : Failed conn e rw) : e = .eof := by
  cases hfailed with
  | outOfTurn hout => exact absurd h.inTurn hout
  | peek hin hpeek hrest hkeeps =>
      rcases h.ended with hsome | ⟨-, hending, -⟩
      · rw [hpeek.readError hd] at hsome
        cases hsome
      · exact hending
  | again hin hpeek hsome hleft herror =>
      rcases h.ended with hsome' | ⟨hnone, -⟩
      · rw [hsome] at hsome'
        exact Option.some.inj hsome'
      · rw [hsome] at hnone
        cases hnone
  | cut hin hpeek hnone hshort hleft herror =>
      rcases h.ended with hsome | ⟨-, hending, hpeek' | hle⟩
      · rw [hnone] at hsome
        cases hsome
      · exact absurd hpeek' hpeek
      · rw [cutError, if_neg fun hlt => by omega]
        exact hending

/-- A turn returns `io.EOF` exactly where the reader takes the end of the stream for that. -/
theorem endsClean_iff {conn : Conn} (h : Inv conn) : EndsClean conn ↔ ∃ conn', readTurn () conn = .err .eof conn' := by
  constructor
  · intro hends
    have hsat := readTurn_framed h hends.fits
    cases hturn : readTurn () conn with
    | ok r conn' => exact absurd (hsat.of_ok hturn).1 hends.not_accepts
    | err e conn' =>
        have heof := hends.eof h.drained (readTurn_err h hturn).1
        exact ⟨conn', by rw [heof]⟩
    | panic p => exact (hsat.of_panic hturn).elim
    | diverge => exact absurd hturn hsat.ne_diverge
  · rintro ⟨conn', hturn⟩
    have hfit : ¬OpensOverlong conn := fun hover => ((readTurn_sat h).2 hover).ne_err hturn
    exact (readTurn_err h hturn).1.endsClean h.drained hfit

/-- Once an error of the stream is recorded, the reader returns that error, or that a message is half received. -/
theorem read_of_readError {conn : Conn} (h : Inv conn) {e : GoError} (herror : conn.rw.readError = some e) :
    ∃ e' conn', read conn = .err e' conn' ∧ conn'.rw.readError = some e ∧ (e' = e ∨ e' = conn.invalidRemain) := by
  have hnil : conn.rw.unread = [] := h.drained (by rw [herror]; exact Option.some_ne_none e)
  obtain ⟨e', conn', hturn⟩ := Live.readTurn_end ⟨h.drained, h.entries⟩ hnil
  refine ⟨e', conn', by rw [read_eq, hturn], ?_⟩
  have hfailed := (readTurn_err h hturn).1
  generalize conn'.rw = rw at hfailed
  cases hfailed with
  | outOfTurn hout =>
      have hsame : conn.rw.readUintBE 1 = (0, conn.rw) := if_pos (by rw [herror]; rfl)
      rw [hsame]
      exact ⟨herror, Or.inr rfl⟩
  | peek hin hpeek hrest hkeeps =>
      rw [hpeek.readError h.drained] at herror
      cases herror
  | again hin hpeek hsome hleft herror' =>
      rw [herror] at hsome
      cases hsome
      exact ⟨herror', Or.inl rfl⟩
  | cut hin hpeek hnone hshort hleft herror' =>
      rw [hnone] at herror
      cases herror

end Conn

/-- A relay that has been started, as its receiving loop sees it. -/
structure PlayRelay where
  connectPlayClient : ConnClient
  csChan : List ChunkStream := []
  startflag : Bool := true

namespace PlayRelay

def onClient {α : Type} (x : ConnClient.Cmd α) : Call GoError PlayRelay α := fun relay =>
  match x relay.connectPlayClient with
  | .ok a connectPlayClient => .ok a { relay with connectPlayClient }
  | .err e connectPlayClient => .err e { relay with connectPlayClient }
  | .panic p => .panic p
  | .diverge => .diverge

/-- The `switch` on the type of what was read. What the decoding returns is only logged. -/
def pass (rc : ChunkStream) : Call GoError PlayRelay Unit :=
  if rc.typeID = 20 ∨ rc.typeID = 17 then do
    let _ ← onClient (ConnClient.decodeBatch rc.data)
    pure ()
  else if rc.typeID = 18 ∨ rc.typeID = 8 ∨ rc.typeID = 9 then
    Call.modify fun relay => { relay with csChan := relay.csChan ++ [rc] }
  else pure ()

/-- A turn of the loop. Nothing is in `rc` when the reading has failed. -/
def rcvPlayTurn (_ : Unit) : Call GoError PlayRelay (Unit ⊕ Unit) := do
  let relay ← Call.get
  if relay.startflag = false then pure (.inr ())
  else
    match ← Call.attempt (onClient (ConnClient.onConn Conn.read)) with
    | .ok rc => do
      pass rc
      pure (.inl ())
    | .error e =>
      if e = .eof then pure (.inr ())
      else do
        pass {}
        pure (.inl ())

/-- The connection that the relay plays from. -/
def conn (relay : PlayRelay) : Conn := relay.connectPlayClient.conn

def withConn (relay : PlayRelay) (conn : Conn) : PlayRelay := { relay with connectPlayClient.conn := conn }

theorem onClient_read (relay : PlayRelay) :
    onClient (ConnClient.onConn Conn.read) relay = match Conn.read relay.conn with
      | .ok rc conn => .ok rc (relay.withConn conn)
      | .err e conn => .err e (relay.withConn conn)
      | .panic p => .panic p
      | .diverge => .diverge := by
  unfold onClient ConnClient.onConn conn
  cases Conn.read relay.connectPlayClient.conn <;> rfl

theorem rcvPlayTurn_eq {relay : PlayRelay} (hstart : relay.startflag = true) :
    rcvPlayTurn () relay = match Conn.read relay.conn with
      | .ok rc conn => (pass rc >>= fun _ => pure (.inl ())) (relay.withConn conn)
      | .err e conn => .ok (if e = .eof then .inr () else .inl ()) (relay.withConn conn)
      | .panic p => .panic p
      | .diverge => .diverge := by
  have hread := onClient_read relay
  simp only [rcvPlayTurn, Call.get_bind_apply, hstart, Bool.true_eq_false, if_false]
  cases hcase : Conn.read relay.conn with
  | ok rc conn =>
      rw [hcase] at hread
      exact Call.bind_of_ok (Call.attempt_of_ok hread)
  | err e conn =>
      rw [hcase] at hread
      rw [Call.bind_of_ok (Call.attempt_of_err hread)]
      dsimp only
      split_ifs
      · rfl
      · rfl
  | panic p =>
      rw [hcase] at hread
      exact Call.bind_of_panic (by rw [Call.attempt, hread])
  | diverge =>
      rw [hcase] at hread
      rw [Call.bind_apply, Call.attempt, hread]

/-- What is passed on leaves the connection, and whether the relay is to go on. -/
theorem pass_sat (rc : ChunkStream) (relay : PlayRelay) :
    (pass rc relay).Sat (fun _ relay' => relay'.conn = relay.conn ∧ relay'.startflag = relay.startflag)
      (fun _ _ => False) True := by
  unfold pass
  split_ifs
  · have hsat := ConnClient.decodeBatch_sat rc.data relay.connectPlayClient
    rw [Call.bind_apply, onClient]
    cases hcase : ConnClient.decodeBatch rc.data relay.connectPlayClient with
    | ok a c =>
        obtain ⟨decoder, rfl⟩ := hsat.of_ok hcase
        exact ⟨rfl, rfl⟩
    | err e c => exact (hsat.of_err hcase).elim
    | panic p => trivial
    | diverge => exact absurd hcase hsat.ne_diverge
  · exact ⟨rfl, rfl⟩
  · exact ⟨rfl, rfl⟩

/-- A turn keeps the invariant of the reader, and leaves the loop exactly on `io.EOF`. -/
theorem rcvPlayTurn_sat {relay : PlayRelay} (h : Conn.Inv relay.conn) (hstart : relay.startflag = true) :
    (rcvPlayTurn () relay).Sat (fun r relay' => Conn.Inv relay'.conn ∧ relay'.startflag = true ∧
      (r = .inr () ↔ ∃ conn, Conn.read relay.conn = .err .eof conn)) (fun _ _ => False) True := by
  have hread := Conn.read_sat h
  rw [rcvPlayTurn_eq hstart]
  cases hcase : Conn.read relay.conn with
  | ok rc conn =>
      refine (pass_sat rc (relay.withConn conn)).bind fun _ relay' hsame => ⟨?_, hsame.2.trans hstart, ?_⟩
      · rw [hsame.1]
        exact hread.of_ok hcase
      · simp
  | err e conn =>
      refine ⟨hread.of_err hcase, hstart, ?_⟩
      by_cases heof : e = .eof
      · simp [heof]
      · simp [heof]
  | panic p => trivial
  | diverge => exact absurd hcase hread.ne_diverge

/-- The chunks that the loop comes to. -/
def ComesBy (relay : PlayRelay) (conn : Conn) : Prop :=
  ∃ relay', Call.Visits rcvPlayTurn () relay () relay' ∧ Conn.ComesTo relay'.conn conn

/-- The loop is left, while nobody stops the relay. -/
def Ends (relay : PlayRelay) : Prop := ∃ last, Call.Leaves rcvPlayTurn () relay () last

theorem visits_sat {relay relay' : PlayRelay} (h : Conn.Inv relay.conn) (hstart : relay.startflag = true)
    (hvisits : Call.Visits rcvPlayTurn () relay () relay') : Conn.Inv relay'.conn ∧ relay'.startflag = true := by
  refine hvisits.invariant (I := fun _ relay => Conn.Inv relay.conn ∧ relay.startflag = true) ⟨h, hstart⟩ ?_
  rintro _ s _ s' ⟨hs, hs'⟩ hturn
  obtain ⟨hinv, hstart', -⟩ := (rcvPlayTurn_sat hs hs').of_ok hturn
  exact ⟨hinv, hstart'⟩

/-- The loop ends exactly if it comes to an end of the stream that the reader takes for `io.EOF`. -/
theorem ends_iff {relay : PlayRelay} (h : Conn.Inv relay.conn) (hstart : relay.startflag = true) :
    relay.Ends ↔ ∃ conn, ComesBy relay conn ∧ Conn.EndsClean conn := by
  constructor
  · rintro ⟨last, ⟨⟩, relay', hvisits, hturn⟩
    obtain ⟨hinv, hstart'⟩ := visits_sat h hstart hvisits
    obtain ⟨conn', hread⟩ := ((rcvPlayTurn_sat hinv hstart').of_ok hturn).2.2.mp rfl
    obtain ⟨conn, hcomes, hlast⟩ := Conn.exists_turn_of_read hread
    exact ⟨conn, ⟨relay', hvisits, hcomes⟩, (Conn.endsClean_iff (hcomes.inv hinv)).mpr ⟨conn', hlast⟩⟩
  · rintro ⟨conn, ⟨relay', hvisits, hcomes⟩, hends⟩
    obtain ⟨hinv, hstart'⟩ := visits_sat h hstart hvisits
    obtain ⟨conn', hlast⟩ := (Conn.endsClean_iff (hcomes.inv hinv)).mp hends
    have hturn := rcvPlayTurn_eq hstart'
    rw [Conn.read_of_comesTo hcomes hlast] at hturn
    exact ⟨_, (), relay', hvisits, hturn⟩

/-- After any other error of the stream the loop goes round for ever. -/
theorem not_ends {relay : PlayRelay} (h : Conn.Inv relay.conn) (hstart : relay.startflag = true) {e : GoError}
    (herror : relay.conn.rw.readError = some e) (hne : e ≠ .eof) : ¬relay.Ends := by
  rintro ⟨last, hleaves⟩
  refine Call.not_leaves (I := fun _ relay => Conn.Inv relay.conn ∧ relay.startflag = true ∧
    relay.conn.rw.readError = some e) ?_ ⟨h, hstart, herror⟩ () last hleaves
  rintro _ s ⟨hs, hs', herror⟩
  obtain ⟨e', conn', hread, herror', he⟩ := Conn.read_of_readError hs herror
  have hne' : e' ≠ .eof := by
    rcases he with rfl | rfl
    · exact hne
    · exact Conn.invalidRemain_ne s.conn
  refine ⟨(), s.withConn conn', ?_, (Conn.read_sat hs).of_err hread, hs', herror'⟩
  rw [rcvPlayTurn_eq hs', hread]
  exact congrArg (Outcome.ok · _) (if_neg hne')

/-- A relay that plays from a source which sends `incoming` and closes the connection. -/
def playing (incoming : Bytes) : PlayRelay where
  connectPlayClient := ConnClient.newConnClient [] [] [] (Conn.newConn { unread := incoming })

/-- The header of a video message of two bytes, and one of them. -/
def halfVideo : Bytes := [0x06, 0, 0, 0, 0, 0, 2, 9, 0, 0, 0, 0, 5]

theorem ends_iff_halfVideo :
    (playing halfVideo).Ends ↔ ∃ conn, ComesBy (playing halfVideo) conn ∧ Conn.EndsClean conn :=
  ends_iff (Conn.inv_newConn halfVideo .eof) rfl

/-- The source ends in the midst of the message, and the loop goes round for ever. -/
theorem not_ends_halfVideo : ¬(playing halfVideo).Ends := by
  rintro ⟨last, hleaves⟩
  obtain ⟨s, hturn, hstart, herror⟩ : ∃ s, rcvPlayTurn () (playing halfVideo) = .ok (.inl ()) s ∧ s.startflag = true ∧
      s.conn.rw.readError = some .unexpectedEOF := ⟨_, rfl, rfl, rfl⟩
  obtain ⟨hinv, -⟩ := (@rcvPlayTurn_sat (playing halfVideo) (Conn.inv_newConn halfVideo .eof) rfl).of_ok hturn
  exact not_ends hinv hstart herror (by decide) ⟨last, (Call.leaves_of_turn hturn).mp hleaves⟩

end PlayRelay

end Livego
