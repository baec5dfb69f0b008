import Livego.RtmpAcks
import Livego.RtmpNegotiation

/-! The client asks for a stream and reads until a response settles the matter. Every other error of the reading, also that
of a stream that has ended, has it read on. -/

namespace Livego

open Fallible ChunkStream
open Amf (Value Object)

namespace Conn

/-- What the stream ends with is no error of the client's own. -/
structure EndsOutside (conn : Conn) : Prop where
  ending : conn.rw.ending ≠ ConnClient.errFail
  readError : conn.rw.readError ≠ some ConnClient.errFail

theorem SameSide.endsOutside {conn conn' : Conn} (h : SameSide conn conn') (hout : EndsOutside conn) :
    EndsOutside conn' :=
  ⟨by rw [h.stream.ending]; exact hout.ending, by rw [h.stream.readError]; exact hout.readError⟩

theorem Failed.endsOutside {conn : Conn} (hout : EndsOutside conn) {e : GoError} {rw : ReadWriter}
    (h : Failed conn e rw) : e ≠ ConnClient.errFail ∧ rw.readError ≠ some ConnClient.errFail := by
  have hkeeps : ∀ {r : ReadWriter}, ReadWriter.KeepsError conn.rw r → r.readError ≠ some ConnClient.errFail := by
    intro r hkeeps hsome
    cases herror : conn.rw.readError with
    | none =>
        rcases hkeeps.set herror with hnone | hending
        · rw [hnone] at hsome
          cases hsome
        · exact hout.ending (Option.some.inj (hending.symm.trans hsome))
    | some e =>
        have hsame := hkeeps.kept e herror
        exact hout.readError (herror.trans (hsame.symm.trans hsome))
  have hcut : conn.cutError ≠ ConnClient.errFail := by
    unfold cutError
    split_ifs
    · decide
    · exact hout.ending
  cases h with
  | outOfTurn hturn => exact ⟨GoError.noConfusion, hkeeps (ReadWriter.readUintBE_sticky (by decide) conn.rw)⟩
  | peek hin hpeek hrest hkept => exact ⟨hout.ending, hkeeps hkept⟩
  | again hin hpeek hsome hleft herror =>
      have hne : some e ≠ some ConnClient.errFail := hsome ▸ hout.readError
      exact ⟨fun he => hne (congrArg some he), by rw [herror]; exact hne⟩
  | cut hin hpeek hnone hshort hleft herror =>
      exact ⟨hcut, by rw [herror]; exact fun he => hcut (Option.some.inj he)⟩

theorem readTurn_endsOutside {conn : Conn} (h : Inv conn) (hout : EndsOutside conn) :
    (readTurn () conn).Sat (fun _ conn' => EndsOutside conn')
      (fun e conn' => e ≠ ConnClient.errFail ∧ EndsOutside conn') True := by
  have hlater := readTurn_later conn
  have hcounters := readTurn_sameCounters conn
  cases hturn : readTurn () conn with
  | ok r conn' =>
      refine ⟨?_, ?_⟩
      · rw [(hcounters.of_ok hturn).written.ending]
        exact hout.ending
      · rw [(hlater.of_ok hturn).2]
        exact nofun
  | err e conn' =>
      obtain ⟨hne, herror⟩ := (readTurn_err h hturn).1.endsOutside hout
      refine ⟨hne, ?_, herror⟩
      rw [(hcounters.of_err hturn).written.ending]
      exact hout.ending
  | panic p => trivial
  | diverge => exact absurd hturn hlater.ne_diverge

/-- No call of `read` returns an error of the client's own. -/
theorem read_endsOutside {conn : Conn} (h : Inv conn) (hout : EndsOutside conn) :
    (read conn).Sat (fun _ conn' => Inv conn' ∧ EndsOutside conn')
      (fun e conn' => Inv conn' ∧ e ≠ ConnClient.errFail ∧ EndsOutside conn') True := by
  have hout' : (read conn).Sat (fun _ conn' => EndsOutside conn')
      (fun e conn' => e ≠ ConnClient.errFail ∧ EndsOutside conn') True := by
    refine sat_read (I := fun conn => Inv conn ∧ EndsOutside conn) ?_ ⟨h, hout⟩
    rintro s ⟨hs, hs'⟩
    refine ((readTurn_sat hs).1.and (readTurn_endsOutside hs hs')).imp ?_ (fun _ _ h => h.2) fun _ => trivial
    rintro r s' ⟨⟨hinv, -⟩, hout⟩
    cases r with
    | inl _ => exact ⟨hinv, hout⟩
    | inr c => exact (finish_sameSide c s').imp (fun _ _ h => h.2.endsOutside hout) (fun _ _ h => h.elim) id
  exact ((read_sat h).and hout').imp (fun _ _ h => h) (fun _ _ h => h) fun _ => trivial

end Conn

namespace ConnClient

/-- A turn of the loop of `readRespMsg`. -/
def respTurn (_ : Unit) : Cmd (Unit ⊕ Unit) := do
  let rc ← onConn Conn.read
  let done ← readRespTurn rc
  pure (if done then .inr () else .inl ())

/-- Every message takes a byte of the stream, which bounds the turns. -/
def readRespMsg : Cmd Unit := do
  let c ← Call.get
  Call.loop respTurn (c.conn.rw.unread.length + 1) ()

/-- A turn of the loop of `writeCreateStreamMsg`, which nothing bounds. -/
def createStreamTurn (_ : Unit) : Cmd (Unit ⊕ Option GoError) := do
  match ← Call.attempt readRespMsg with
  | .ok () => pure (.inr none)
  | .error e => pure (if e = errFail then .inr (some e) else .inl ())

/-- `writeCreateStreamMsg` returns `err`. -/
def Returns (c : ConnClient) (err : Option GoError) (last : ConnClient) : Prop :=
  (∃ e, sendCreateStream c = .err e last ∧ err = some e) ∨
    ∃ asked, sendCreateStream c = .ok () asked ∧ Call.Leaves createStreamTurn () asked err last

/-- What is wrong with a value of a response to `createStream`. -/
def objection (transID : Int) : Value × Nat → Option GoError
  | (.string str, _) => if str = lit "_result" then none else some (.errorf (quote str))
  | (.number bits, k) => if k = 1 ∧ Float64.toInt bits ≠ transID then some errFail else none
  | _ => none

/-- What is wrong first. A response settles the matter unless that is a text other than `_result`. -/
def verdict (transID : Int) (vs : List Value) : Option GoError := vs.zipIdx.findSome? (objection transID)

/-- The next message is a response with the values `vs`. -/
def Responds (c : ConnClient) (vs : List Value) : Prop :=
  ∃ rc conn err c', Conn.read c.conn = .ok rc conn ∧ (rc.typeID = 20 ∨ rc.typeID = 17) ∧
    decodeBatch rc.data { c with conn } = .ok (vs, err) c'

/-- The messages that the client comes to once it has asked. -/
def ComesBy (asked c : ConnClient) : Prop :=
  ∃ between, Call.Visits createStreamTurn () asked () between ∧ Call.Visits respTurn () between () c

/-- Among the responses is one with this verdict. -/
def Finds (c : ConnClient) (err : Option GoError) : Prop :=
  ∃ asked c' vs, sendCreateStream c = .ok () asked ∧ ComesBy asked c' ∧ Responds c' vs ∧ verdict c'.transID vs = err

/-- The client waits for the response. -/
structure Asked (c : ConnClient) : Prop where
  inv : Conn.Inv c.conn
  outside : Conn.EndsOutside c.conn
  curcmdName : c.curcmdName = lit "createStream"

theorem respValue_objection {c : ConnClient} (hcmd : c.curcmdName = lit "createStream") (v : Value × Nat) :
    match objection c.transID v with
    | none => ∃ streamid, respValue v c = .ok () { c with streamid }
    | some e => respValue v c = .err e c := by
  obtain ⟨v, k⟩ := v
  have hconnect : ¬c.curcmdName = lit "connect" := by rw [hcmd]; decide
  have hpublish : ¬c.curcmdName = lit "publish" := by rw [hcmd]; decide
  cases v with
  | string str =>
      simp only [objection, respValue, Call.get_bind_apply, if_pos (Or.inr hcmd)]
      by_cases hstr : str = lit "_result"
      · rw [if_pos hstr, if_neg (not_not.mpr hstr)]
        exact ⟨c.streamid, rfl⟩
      · rw [if_neg hstr, if_pos hstr]
        rfl
  | number bits =>
      simp only [objection, respValue, Call.get_bind_apply, if_pos (Or.inr hcmd)]
      by_cases hk : k = 1
      · by_cases hid : Float64.toInt bits = c.transID
        · rw [if_neg fun h => h.2 hid, if_pos hk, if_neg (not_not.mpr hid)]
          exact ⟨c.streamid, rfl⟩
        · rw [if_pos ⟨hk, hid⟩, if_pos hk, if_pos hid]
          rfl
      · rw [if_neg fun h => hk h.1, if_neg hk]
        split_ifs
        · exact ⟨_, rfl⟩
        · exact ⟨c.streamid, rfl⟩
  | object objmap =>
      simp only [objection, respValue, Call.get_bind_apply, if_neg hconnect, if_neg hpublish]
      exact ⟨c.streamid, rfl⟩
  | _ => exact ⟨c.streamid, rfl⟩

/-- The values are looked at one after the other, up to the first that is wrong. -/
theorem respValues_verdict {c : ConnClient} (hcmd : c.curcmdName = lit "createStream") (vs : List (Value × Nat)) :
    match vs.findSome? (objection c.transID) with
    | none => ∃ streamid, vs.forM respValue c = .ok () { c with streamid }
    | some e => ∃ streamid, vs.forM respValue c = .err e { c with streamid } := by
  induction vs generalizing c with
  | nil => exact ⟨c.streamid, rfl⟩
  | cons v vs ih =>
      have hv := respValue_objection hcmd v
      rw [List.findSome?_cons]
      cases hobj : objection c.transID v with
      | some e =>
          rw [hobj] at hv
          exact ⟨c.streamid, Call.bind_of_err hv⟩
      | none =>
          rw [hobj] at hv
          obtain ⟨streamid, hv⟩ := hv
          have hvs := @ih { c with streamid } hcmd
          dsimp only at hvs
          have hcons : (v :: vs).forM respValue c = vs.forM respValue { c with streamid } := Call.bind_of_ok hv
          rw [hcons]
          exact hvs

theorem respTurn_of_ok {c : ConnClient} {rc : ChunkStream} {conn : Conn} (hread : Conn.read c.conn = .ok rc conn) :
    respTurn () c = (readRespTurn rc >>= fun done => pure (if done then .inr () else .inl ())) { c with conn } :=
  Call.bind_of_ok (onConn_of_ok hread)

/-- A response is returned from, with what is wrong with it. -/
theorem respTurn_of_responds {c : ConnClient} (hcmd : c.curcmdName = lit "createStream") {rc : ChunkStream}
    {conn : Conn} (hread : Conn.read c.conn = .ok rc conn) (htype : rc.typeID = 20 ∨ rc.typeID = 17) {vs : List Value}
    {err : GoError} {c' : ConnClient} (hdecode : decodeBatch rc.data { c with conn } = .ok (vs, err) c') :
    ∃ last, last.conn = conn ∧ last.transID = c.transID ∧ last.curcmdName = lit "createStream" ∧
      respTurn () c = match verdict c.transID vs with
        | none => .ok (.inr ()) last
        | some e => .err e last := by
  obtain ⟨decoder, rfl⟩ := (decodeBatch_sat rc.data { c with conn }).of_ok hdecode
  have hvalues := @respValues_verdict { c with conn, decoder } hcmd vs.zipIdx
  have hresp : readRespTurn rc { c with conn } =
      (vs.zipIdx.forM respValue >>= fun _ => pure true) { c with conn, decoder } := by
    rw [readRespTurn, if_pos htype, Call.bind_of_ok hdecode]
  rw [respTurn_of_ok hread]
  unfold verdict
  cases hwrong : vs.zipIdx.findSome? (objection c.transID) with
  | none =>
      rw [hwrong] at hvalues
      obtain ⟨streamid, hvalues⟩ := hvalues
      exact ⟨{ c with conn, decoder, streamid }, rfl, rfl, hcmd, Call.bind_of_ok (hresp.trans (Call.bind_of_ok hvalues))⟩
  | some e =>
      rw [hwrong] at hvalues
      obtain ⟨streamid, hvalues⟩ := hvalues
      exact ⟨{ c with conn, decoder, streamid }, rfl, rfl, hcmd, Call.bind_of_err (hresp.trans (Call.bind_of_err hvalues))⟩

theorem Responds.unique {c : ConnClient} {vs vs' : List Value} (h : Responds c vs) (h' : Responds c vs') : vs = vs' := by
  obtain ⟨rc, conn, err, c1, hread, -, hdecode⟩ := h
  obtain ⟨rc', conn', err', c1', hread', -, hdecode'⟩ := h'
  cases hread.symm.trans hread'
  cases hdecode.symm.trans hdecode'
  rfl

/-- A turn reads a message, and it settles the matter exactly if that is a response which does. -/
theorem respTurn_sat {c : ConnClient} (h : Asked c) :
    (respTurn () c).Sat
      (fun r c' => Asked c' ∧ c'.conn.rw.unread.length < c.conn.rw.unread.length ∧
        (r = .inr () ↔ ∃ vs, Responds c vs ∧ verdict c.transID vs = none))
      (fun e c' => Asked c' ∧ c'.conn.rw.unread.length ≤ c.conn.rw.unread.length ∧
        (e = errFail ↔ ∃ vs, Responds c vs ∧ verdict c.transID vs = some errFail)) True := by
  have hreads := (Conn.read_endsOutside h.inv h.outside).and ((Conn.read_lt c.conn).and (Conn.read_later c.conn))
  cases hread : Conn.read c.conn with
  | ok rc conn =>
      obtain ⟨⟨hinv, hout⟩, hlt, -⟩ := hreads.of_ok hread
      by_cases htype : rc.typeID = 20 ∨ rc.typeID = 17
      · cases hdecode : decodeBatch rc.data { c with conn } with
        | ok answer c' =>
            obtain ⟨vs, err⟩ := answer
            have hresponds : Responds c vs := ⟨rc, conn, err, c', hread, htype, hdecode⟩
            have hverdict : ∀ e, (∃ vs', Responds c vs' ∧ verdict c.transID vs' = e) ↔ verdict c.transID vs = e := by
              intro e
              constructor
              · rintro ⟨vs', hresponds', rfl⟩
                rw [hresponds.unique hresponds']
              · exact fun he => ⟨vs, hresponds, he⟩
            obtain ⟨last, rfl, -, hcmd, hturn⟩ := respTurn_of_responds h.curcmdName hread htype hdecode
            rw [hturn]
            simp only [hverdict]
            cases verdict c.transID vs with
            | none => exact ⟨⟨hinv, hout, hcmd⟩, hlt, by simp⟩
            | some e => exact ⟨⟨hinv, hout, hcmd⟩, hlt.le, by simp⟩
        | err e c' => exact ((decodeBatch_sat rc.data { c with conn }).of_err hdecode).elim
        | panic p =>
            rw [respTurn_of_ok hread, readRespTurn, if_pos htype]
            rw [Call.bind_of_panic (Call.bind_of_panic hdecode)]
            trivial
        | diverge => exact absurd hdecode (decodeBatch_sat rc.data { c with conn }).ne_diverge
      · rw [respTurn_of_ok hread, readRespTurn, if_neg htype]
        refine ⟨⟨hinv, hout, h.curcmdName⟩, hlt, iff_of_false (by simp) ?_⟩
        rintro ⟨vs, ⟨rc', conn', err, c', hread', htype', -⟩, -⟩
        cases hread.symm.trans hread'
        exact htype htype'
  | err e conn =>
      obtain ⟨⟨hinv, hne, hout⟩, -, hsuffix⟩ := hreads.of_err hread
      have hturn : respTurn () c = .err e { c with conn } := by
        rw [respTurn, Call.bind_apply, onConn, hread]
      rw [hturn]
      refine ⟨⟨hinv, hout, h.curcmdName⟩, hsuffix.length_le, iff_of_false hne ?_⟩
      rintro ⟨vs, ⟨rc', conn', err, c', hread', -⟩, -⟩
      cases hread.symm.trans hread'
  | panic p =>
      rw [respTurn, Call.bind_apply, onConn, hread]
      trivial
  | diverge => exact absurd hread hreads.ne_diverge

/-- Only a message that is no response has the client read on. -/
theorem respTurn_decreases : Call.Decreases respTurn fun _ c => c.conn.rw.unread.length := by
  rintro ⟨⟩ c ⟨⟩ c' hturn
  obtain ⟨rc, c1, hread, hrest⟩ := Call.bind_eq_ok.mp hturn
  obtain ⟨done, c2, hdone, hagain⟩ := Call.bind_eq_ok.mp hrest
  have hlt := (Conn.read_lt c.conn)
  cases hcase : Conn.read c.conn with
  | ok rc' conn =>
      rw [hcase] at hlt
      rw [onConn_of_ok hcase] at hread
      cases hread
      cases done with
      | true => cases hagain
      | false =>
          cases hagain
          unfold readRespTurn at hdone
          split_ifs at hdone
          · obtain ⟨⟨vs, err⟩, c3, -, hvalues⟩ := Call.bind_eq_ok.mp hdone
            obtain ⟨_, c4, -, hpure⟩ := Call.bind_eq_ok.mp hvalues
            cases hpure
          · cases hdone
            exact hlt
  | err e conn => simp [onConn, hcase] at hread
  | panic p => simp [onConn, hcase] at hread
  | diverge => simp [onConn, hcase] at hread

theorem readRespMsg_eq_ok {c last : ConnClient} :
    readRespMsg c = .ok () last ↔ ∃ c', Call.Visits respTurn () c () c' ∧ respTurn () c' = .ok (.inr ()) last := by
  have hloop : readRespMsg c = Call.loop respTurn (c.conn.rw.unread.length + 1) () c := rfl
  have hfuel := Nat.lt_succ_self c.conn.rw.unread.length
  rw [hloop, Call.loop_eq_ok (μ := fun _ c => c.conn.rw.unread.length) respTurn_decreases hfuel]
  exact ⟨fun ⟨_, c', h⟩ => ⟨c', h⟩, fun ⟨c', h⟩ => ⟨(), c', h⟩⟩

theorem readRespMsg_eq_err {c last : ConnClient} {e : GoError} :
    readRespMsg c = .err e last ↔ ∃ c', Call.Visits respTurn () c () c' ∧ respTurn () c' = .err e last := by
  have hloop : readRespMsg c = Call.loop respTurn (c.conn.rw.unread.length + 1) () c := rfl
  have hfuel := Nat.lt_succ_self c.conn.rw.unread.length
  rw [hloop, Call.loop_eq_err (μ := fun _ c => c.conn.rw.unread.length) respTurn_decreases hfuel]
  exact ⟨fun ⟨_, c', h⟩ => ⟨c', h⟩, fun ⟨c', h⟩ => ⟨(), c', h⟩⟩

theorem visits_asked {c c' : ConnClient} (h : Asked c) (hvisits : Call.Visits respTurn () c () c') :
    Asked c' ∧ c'.conn.rw.unread.length ≤ c.conn.rw.unread.length := by
  refine hvisits.invariant (I := fun _ s => Asked s ∧ s.conn.rw.unread.length ≤ c.conn.rw.unread.length)
    ⟨h, le_refl _⟩ ?_
  rintro _ s _ s' ⟨hs, hle⟩ hturn
  obtain ⟨hs', hlt, -⟩ := (respTurn_sat hs).of_ok hturn
  exact ⟨hs', hlt.le.trans hle⟩

theorem createStreamTurn_eq (c : ConnClient) :
    createStreamTurn () c = match readRespMsg c with
      | .ok () c' => .ok (.inr none) c'
      | .err e c' => .ok (if e = errFail then .inr (some e) else .inl ()) c'
      | .panic p => .panic p
      | .diverge => .diverge := by
  rw [createStreamTurn, Call.bind_apply, Call.attempt]
  cases readRespMsg c <;> rfl

/-- How the loop is left: with the verdict of a response that settles the matter. -/
theorem createStreamTurn_leaves {c : ConnClient} (h : Asked c) {err : Option GoError} :
    (∃ last, createStreamTurn () c = .ok (.inr err) last) ↔
      (err = none ∨ err = some errFail) ∧
        ∃ c' vs, Call.Visits respTurn () c () c' ∧ Responds c' vs ∧ verdict c'.transID vs = err := by
  constructor
  · rintro ⟨last, hturn⟩
    rw [createStreamTurn_eq] at hturn
    cases hread : readRespMsg c with
    | ok _ last' =>
        rw [hread] at hturn
        cases hturn
        obtain ⟨c', hvisits, hlast⟩ := readRespMsg_eq_ok.mp hread
        obtain ⟨vs, hresponds, hverdict⟩ := ((respTurn_sat (visits_asked h hvisits).1).of_ok hlast).2.2.mp rfl
        exact ⟨Or.inl rfl, c', vs, hvisits, hresponds, hverdict⟩
    | err e last' =>
        rw [hread] at hturn
        dsimp only at hturn
        by_cases hfail : e = errFail
        · rw [if_pos hfail] at hturn
          cases hturn
          obtain ⟨c', hvisits, hlast⟩ := readRespMsg_eq_err.mp hread
          obtain ⟨vs, hresponds, hverdict⟩ := ((respTurn_sat (visits_asked h hvisits).1).of_err hlast).2.2.mp hfail
          exact ⟨Or.inr (congrArg some hfail), c', vs, hvisits, hresponds, hfail ▸ hverdict⟩
        · simp [hfail] at hturn
    | panic p => simp [hread] at hturn
    | diverge => simp [hread] at hturn
  · rintro ⟨herr, c', vs, hvisits, hresponds, hverdict⟩
    obtain ⟨rc, conn, e, c1, hread, htype, hdecode⟩ := hresponds
    obtain ⟨last, -, -, -, hturn⟩ := respTurn_of_responds (visits_asked h hvisits).1.curcmdName hread htype hdecode
    rw [hverdict] at hturn
    refine ⟨last, ?_⟩
    rw [createStreamTurn_eq]
    rcases herr with rfl | rfl
    · rw [readRespMsg_eq_ok.mpr ⟨c', hvisits, hturn⟩]
    · rw [readRespMsg_eq_err.mpr ⟨c', hvisits, hturn⟩]
      rfl

/-- Turn after turn the client waits, with what is left of the stream. -/
theorem createStreamTurn_asked {c c' : ConnClient} (h : Asked c) (hturn : createStreamTurn () c = .ok (.inl ()) c') :
    Asked c' ∧ c'.conn.rw.unread.length ≤ c.conn.rw.unread.length := by
  rw [createStreamTurn_eq] at hturn
  cases hread : readRespMsg c with
  | ok _ last => simp [hread] at hturn
  | err e last =>
      rw [hread] at hturn
      dsimp only at hturn
      obtain ⟨s, hvisits, hlast⟩ := readRespMsg_eq_err.mp hread
      obtain ⟨hs, hle⟩ := visits_asked h hvisits
      obtain ⟨hlast', hle', -⟩ := (respTurn_sat hs).of_err hlast
      obtain ⟨-, rfl⟩ := Outcome.ok.inj hturn
      exact ⟨hlast', hle'.trans hle⟩
  | panic p => simp [hread] at hturn
  | diverge => simp [hread] at hturn

theorem turns_asked {asked c : ConnClient} (h : Asked asked) (hvisits : Call.Visits createStreamTurn () asked () c) :
    Asked c ∧ c.conn.rw.unread.length ≤ asked.conn.rw.unread.length := by
  refine hvisits.invariant (I := fun _ s => Asked s ∧ s.conn.rw.unread.length ≤ asked.conn.rw.unread.length)
    ⟨h, le_refl _⟩ ?_
  rintro _ s _ s' ⟨hs, hle⟩ hturn
  obtain ⟨hs', hle'⟩ := createStreamTurn_asked hs hturn
  exact ⟨hs', hle'.trans hle⟩

/-- A command changes neither what is still to be read nor the chunk size. -/
theorem writeMsg_sameSide {args : List Value} (h : ∀ v ∈ args, Amf.Encodable v) (csid streamID : Nat) (conn : Conn) :
    (Conn.writeMsg csid streamID args conn).Sat
      (fun _ conn' => Conn.SameSide conn conn' ∧ conn'.chunkSize = conn.chunkSize) (fun _ _ => False) True := by
  simp only [Conn.writeMsg, Amf.encodeBatch_eq h []]
  generalize ([] ++ Amf.batchBytes args) = msg
  have hwrite := writeChunk_sameStream { csid, typeID := 20, streamID, length := u32 msg.length, data := msg }
    conn.chunkSize conn.rw
  have hsame : (Conn.ignoreErr (Conn.write { csid, typeID := 20, streamID, length := u32 msg.length, data := msg })
      conn).Sat (fun _ conn' => Conn.SameSide conn conn' ∧ conn'.chunkSize = conn.chunkSize) (fun _ _ => False) True := by
    rw [Conn.ignoreErr, Conn.write, if_neg (by decide : ¬20 = idSetChunkSize), Conn.onReadWriter]
    cases hcase : writeChunk { csid, typeID := 20, streamID, length := u32 msg.length, data := msg } conn.chunkSize
        conn.rw with
    | ok a rw => exact ⟨⟨hwrite.of_ok hcase, rfl⟩, rfl⟩
    | err e rw => exact ⟨⟨hwrite.of_err hcase, rfl⟩, rfl⟩
    | panic p => trivial
    | diverge => exact absurd hcase hwrite.ne_diverge
  refine hsame.bind ?_
  rintro _ conn' ⟨hside, hsize⟩
  exact ⟨⟨⟨hside.stream.unread, hside.stream.readError, hside.stream.ending⟩, hside.chunks⟩, hsize⟩

/-- Asking sends the command, and leaves the stream of the server alone. -/
theorem sendCreateStream_sat {c : ConnClient} (h : Conn.Inv c.conn) (hout : Conn.EndsOutside c.conn) :
    (sendCreateStream c).Sat (fun _ asked => Asked asked ∧ asked.conn.rw.unread = c.conn.rw.unread)
      (fun _ _ => False) True := by
  have hencodable : ∀ v ∈ createStreamArgs (c.transID + 1), Amf.Encodable v :=
    fun v hv => (portable_createStreamArgs (c.transID + 1) v hv).encodable
  have hwrite := writeMsg_sameSide hencodable 3 c.streamid c.conn
  have hsend : sendCreateStream c = onConn (Conn.writeMsg 3 c.streamid (createStreamArgs (c.transID + 1)))
      { c with transID := c.transID + 1, curcmdName := lit "createStream" } := rfl
  rw [hsend, onConn]
  cases hcase : Conn.writeMsg 3 c.streamid (createStreamArgs (c.transID + 1)) c.conn with
  | ok a conn =>
      obtain ⟨hside, hsize⟩ := hwrite.of_ok hcase
      refine ⟨⟨⟨hside.stream.drained h.drained, hside.chunks ▸ h.entries, ?_⟩, hside.endsOutside hout, rfl⟩,
        hside.stream.unread⟩
      show u32 conn.chunkSize ≠ 0
      rw [hsize]
      exact h.chunkSize_ne
  | err e conn => exact (hwrite.of_err hcase).elim
  | panic p => trivial
  | diverge => exact absurd hcase hwrite.ne_diverge

/-- `writeCreateStreamMsg` returns exactly if it comes to a response that settles the matter, with the verdict on that. -/
theorem returns_iff_finds {c : ConnClient} (h : Conn.Inv c.conn) (hout : Conn.EndsOutside c.conn)
    {err : Option GoError} :
    (∃ last, Returns c err last) ↔ (err = none ∨ err = some errFail) ∧ Finds c err := by
  have hsend := sendCreateStream_sat h hout
  constructor
  · rintro ⟨last, ⟨e, hasked, -⟩ | ⟨asked, hasked, ⟨⟩, between, hvisits, hturn⟩⟩
    · exact (hsend.of_err hasked).elim
    · have hbetween := (turns_asked (hsend.of_ok hasked).1 hvisits).1
      obtain ⟨herr, c', vs, hvisits', hfound⟩ := (createStreamTurn_leaves hbetween).mp ⟨last, hturn⟩
      exact ⟨herr, asked, c', vs, hasked, ⟨between, hvisits, hvisits'⟩, hfound⟩
  · rintro ⟨herr, asked, c', vs, hasked, ⟨between, hvisits, hvisits'⟩, hfound⟩
    have hbetween := (turns_asked (hsend.of_ok hasked).1 hvisits).1
    obtain ⟨last, hturn⟩ := (createStreamTurn_leaves hbetween).mpr ⟨herr, c', vs, hvisits', hfound⟩
    exact ⟨last, Or.inr ⟨asked, hasked, (), between, hvisits, hturn⟩⟩

theorem Returns.unique {c last last' : ConnClient} {err err' : Option GoError} (h : Returns c err last)
    (h' : Returns c err' last') : err = err' := by
  rcases h with ⟨e, hsend, rfl⟩ | ⟨asked, hsend, hleaves⟩
  · rcases h' with ⟨e', hsend', rfl⟩ | ⟨asked', hsend', -⟩
    · cases hsend.symm.trans hsend'
      rfl
    · cases hsend.symm.trans hsend'
  · rcases h' with ⟨e', hsend', -⟩ | ⟨asked', hsend', hleaves'⟩
    · cases hsend.symm.trans hsend'
    · cases hsend.symm.trans hsend'
      exact (hleaves.unique hleaves').1

/-- `writeCreateStreamMsg` returns: nil if it finds a response that it accepts, and otherwise an error. -/
def Negotiates (c : ConnClient) : Prop := ∃ err last, Returns c err last ∧ (err = none ↔ Finds c none)

/-- Once the stream is used up there is no response to be found. -/
theorem not_finds_of_unread {c : ConnClient} (h : Conn.Inv c.conn) (hout : Conn.EndsOutside c.conn)
    (hnil : c.conn.rw.unread = []) (err : Option GoError) : ¬Finds c err := by
  rintro ⟨asked, c', vs, hasked, ⟨between, hvisits, hvisits'⟩, ⟨rc, conn, -, -, hread, -⟩, -⟩
  obtain ⟨hready, hsame⟩ := (sendCreateStream_sat h hout).of_ok hasked
  obtain ⟨hbetween, hle⟩ := turns_asked hready hvisits
  have hle' := (visits_asked hbetween hvisits').2
  have hlt := (Conn.read_lt c'.conn).of_ok hread
  rw [hsame, hnil, List.length_nil] at hle
  omega

/-- The client of a server that sends `incoming` and closes the connection. -/
def connected (incoming : Bytes) : ConnClient :=
  newConnClient [] [] [] (Conn.newConn { unread := incoming })

theorem endsOutside_connected (incoming : Bytes) : Conn.EndsOutside (connected incoming).conn :=
  ⟨by simp [connected, newConnClient, Conn.newConn, errFail], by simp [connected, newConnClient, Conn.newConn]⟩

end ConnClient

end Livego
