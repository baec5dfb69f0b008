import Livego.RtmpFraming

/-! What a peer can make `read` do. It returns a message or an error on every stream, except on the two
kinds of chunk that make it panic. -/

namespace Livego

open Endian Fallible ReadWriter ChunkStream

namespace Conn

/-- The next chunk completes a control message without the four bytes that are read from it. -/
structure ShortControl (conn : Conn) : Prop where
  completes : Completes conn
  control : conn.nextType = idSetChunkSize ∨ conn.nextType = idWindowAckSize
  short : conn.nextLength < 4

/-- The chunks that no branch of the reader provides for. -/
def Malformed (conn : Conn) : Prop := OpensOverlong conn ∨ ShortControl conn

/-- The states in which a call of `read` comes to the next chunk. -/
def ComesTo (conn conn' : Conn) : Prop := Call.Visits readTurn () conn () conn'

/-- A connection that has done nothing but read. -/
inductive Reachable : Conn → Prop
  | fresh (incoming : Bytes) (ending : GoError) : Reachable (newConn { unread := incoming, ending })
  | message {conn conn' : Conn} {c : ChunkStream} (h : Reachable conn) (hread : read conn = .ok c conn') :
      Reachable conn'
  | failed {conn conn' : Conn} {e : GoError} (h : Reachable conn) (hread : read conn = .err e conn') :
      Reachable conn'

theorem inv_newConn (incoming : Bytes) (ending : GoError) : Inv (newConn { unread := incoming, ending }) :=
  ⟨fun hne => absurd rfl hne, fun _ _ h => by simp [newConn] at h, (by decide : u32 128 ≠ 0)⟩

theorem SameReader.inv {conn conn' : Conn} (h : SameReader conn conn') (hinv : Inv conn) : Inv conn' := by
  refine ⟨?_, ?_, ?_⟩
  · intro hne
    rw [h.unread]
    exact hinv.drained (by rwa [← h.readError])
  · rw [h.chunks]
    exact hinv.entries
  · rw [h.chunkSize]
    exact hinv.chunkSize_ne

/-- A complete message is handled and acknowledged, unless it is a control message that is too short. -/
theorem finish_sat {conn : Conn} (h : Inv conn) (c : ChunkStream) :
    (finish c conn).Sat (fun c' conn' => c' = c ∧ Inv conn') (fun _ _ => False) (¬ControlReadable c) ∧
      (¬ControlReadable c → (finish c conn).Panics) := by
  by_cases hc : ControlReadable c
  · obtain ⟨conn', hfinish, hsame⟩ := finish_eq conn hc h.chunkSize_ne
    rw [hfinish]
    exact ⟨⟨rfl, hsame.inv ⟨h.drained, h.entries, h.chunkSize_ne⟩⟩, fun hnot => absurd hc hnot⟩
  · have hpanic : finish c conn = .panic .indexOutOfRange := by
      unfold ControlReadable at hc
      push Not at hc
      obtain ⟨htype, hshort⟩ := hc
      have hnone : uint32BE c.data = none := if_pos hshort
      rw [finish]
      apply Call.bind_of_panic
      rcases htype with htype | htype
      · simp [handleControlMsg, htype, hnone]
      · simp [handleControlMsg, htype, hnone, idWindowAckSize, idSetChunkSize]
    rw [hpanic]
    exact ⟨hc, fun _ => trivial⟩

theorem ComesTo.inv {conn conn' : Conn} (h : ComesTo conn conn') (hinv : Inv conn) : Inv conn' := by
  refine Call.Visits.invariant (I := fun _ conn => Inv conn) h hinv ?_
  intro _ s _ s' hs hturn
  exact ((readTurn_sat hs).1.of_ok hturn).1

/-- The rule for `read`: what every turn keeps holds when a message is complete, and when a turn fails. -/
theorem sat_read {I : Conn → Prop} {Q : ChunkStream → Conn → Prop} {E : GoError → Conn → Prop} {P : Prop}
    (hturn : ∀ s, I s → (readTurn () s).Sat
      (fun r s' => match r with
        | .inl _ => I s'
        | .inr c => (finish c s').Sat Q E P) E P)
    {conn : Conn} (h : I conn) : (read conn).Sat Q E P := by
  induction hn : conn.rw.unread.length using Nat.strong_induction_on generalizing conn with
  | _ n ih =>
      have hs := hturn conn h
      rw [read_eq]
      cases hcase : readTurn () conn with
      | ok r conn' =>
          rw [hcase] at hs
          cases r with
          | inl _ => exact ih _ (hn ▸ readTurn_lt hcase) hs rfl
          | inr c => exact hs
      | err e conn' => exact hs.of_err hcase
      | panic p =>
          rw [hcase] at hs
          exact hs
      | diverge => exact absurd hcase hs.ne_diverge

/-- Every call of `read` ends, and keeps the invariant. -/
theorem read_sat {conn : Conn} (h : Inv conn) :
    (read conn).Sat (fun _ conn' => Inv conn') (fun _ conn' => Inv conn') True := by
  refine sat_read (I := Inv) ?_ h
  intro s hs
  refine (readTurn_sat hs).1.imp ?_ (fun _ _ h => h.1) fun _ => trivial
  intro r s' hr
  cases r with
  | inl _ => exact hr.1
  | inr c => exact (finish_sat hr.1 c).1.imp (fun _ _ h => h.2) (fun _ _ h => h.elim) fun _ => trivial

theorem Reachable.inv {conn : Conn} (h : Reachable conn) : Inv conn := by
  induction h with
  | fresh incoming ending => exact inv_newConn incoming ending
  | message _ hread ih => exact (read_sat ih).of_ok hread
  | failed _ hread ih => exact (read_sat ih).of_err hread

/-- A turn that completes a message completes a short control message exactly if the chunk says so. -/
theorem shortControl_iff {conn conn' : Conn} {c : ChunkStream} (h : Inv conn)
    (hturn : readTurn () conn = .ok (.inr c) conn') : ShortControl conn ↔ ¬ControlReadable c := by
  have hfit : ¬OpensOverlong conn := fun hover => ((readTurn_sat h).2 hover).ne_ok hturn
  obtain ⟨haccepts, hdone, htype, hlen⟩ := (readTurn_framed h hfit).of_ok hturn
  constructor
  · intro hshort hc
    have hle := hc (by rw [htype]; exact hshort.control)
    have hlt := hshort.short
    omega
  · intro hc
    unfold ControlReadable at hc
    push Not at hc
    exact ⟨⟨haccepts, hdone⟩, htype ▸ hc.1, hlen ▸ hc.2⟩

/-- A chunk that completes a message, and is not overlong, has its turn return the message. -/
theorem Completes.readTurn_eq {conn : Conn} (h : Inv conn) (hfit : ¬OpensOverlong conn) (hc : Completes conn) :
    ∃ c conn', readTurn () conn = .ok (.inr c) conn' := by
  have hsat := readTurn_framed h hfit
  cases hturn : readTurn () conn with
  | ok r conn' =>
      cases r with
      | inl _ =>
          have hlt := (hsat.of_ok hturn).2
          have hle := hc.2
          dsimp only at hlt
          omega
      | inr c => exact ⟨c, conn', rfl⟩
  | err e conn' => exact absurd hc.1 (hsat.of_err hturn)
  | panic p => exact (hsat.of_panic hturn).elim
  | diverge => exact absurd hturn hsat.ne_diverge

/-- `read` panics exactly if it comes to a malformed chunk. -/
theorem read_panics_iff {conn : Conn} (h : Inv conn) :
    (read conn).Panics ↔ ∃ conn', ComesTo conn conn' ∧ Malformed conn' := by
  have hread : read conn = (Call.loop readTurn (conn.rw.unread.length + 1) () >>= finish) conn := rfl
  have hfuel := Nat.lt_succ_self conn.rw.unread.length
  rw [hread, Outcome.panics_bind,
    Call.panics_loop (μ := fun _ conn => conn.rw.unread.length) readTurn_decreases hfuel]
  constructor
  · rintro (⟨⟨⟩, conn', hcomes, hpanic⟩ | ⟨c, conn', hloop, hpanic⟩)
    · have hinv := ComesTo.inv hcomes h
      exact ⟨conn', hcomes, Or.inl ((readTurn_sat hinv).1.of_panics hpanic)⟩
    · obtain ⟨⟨⟩, s, hcomes, hturn⟩ := (Call.loop_eq_ok (μ := fun _ conn => conn.rw.unread.length)
        readTurn_decreases hfuel).mp hloop
      have hinv := ComesTo.inv hcomes h
      have hinv' := ((readTurn_sat hinv).1.of_ok hturn).1
      refine ⟨s, hcomes, Or.inr ((shortControl_iff hinv hturn).mpr ?_)⟩
      intro hc
      obtain ⟨conn'', hfinish, _⟩ := finish_eq conn' hc hinv'.chunkSize_ne
      exact hpanic.ne_ok hfinish
  · rintro ⟨s, hcomes, hmal⟩
    have hinv := ComesTo.inv hcomes h
    by_cases hover : OpensOverlong s
    · exact Or.inl ⟨(), s, hcomes, (readTurn_sat hinv).2 hover⟩
    · have hshort := hmal.resolve_left hover
      obtain ⟨c, conn', hturn⟩ := hshort.completes.readTurn_eq hinv hover
      have hinv' := ((readTurn_sat hinv).1.of_ok hturn).1
      refine Or.inr ⟨c, conn', ?_, (finish_sat hinv' c).2 ((shortControl_iff hinv hturn).mp hshort)⟩
      exact (Call.loop_eq_ok (μ := fun _ conn => conn.rw.unread.length) readTurn_decreases hfuel).mpr
        ⟨(), s, hcomes, hturn⟩

/-- `read` returns a complete message or an error. -/
def Returns (conn : Conn) : Prop :=
  (∃ c conn', read conn = .ok c conn') ∨ ∃ e conn', read conn = .err e conn'

theorem returns_iff_not_panics {conn : Conn} (h : Inv conn) : Returns conn ↔ ¬(read conn).Panics := by
  have hsat := read_sat h
  unfold Returns
  cases hread : read conn with
  | ok c conn' => simp
  | err e conn' => simp
  | panic p => simp
  | diverge => exact absurd hread hsat.ne_diverge

/-- Whatever the peer has sent and sends, `read` returns unless it comes to a malformed chunk. -/
theorem read_returns_iff {conn : Conn} (h : Reachable conn) :
    Returns conn ↔ ∀ conn', ComesTo conn conn' → ¬Malformed conn' := by
  rw [returns_iff_not_panics h.inv, read_panics_iff h.inv]
  push Not
  rfl

/-- A header that announces 0xffffff bytes. -/
def overlongStream : Bytes := [0x02, 0, 0, 0, 0xff, 0xff, 0xff, 9, 0, 0, 0, 0]

/-- A SetChunkSize message of three bytes. -/
def shortControlStream : Bytes := [0x02, 0, 0, 0, 0, 0, 3, 1, 0, 0, 0, 0, 0, 0, 1]

theorem read_returns_iff_overlong :
    Returns (newConn { unread := overlongStream }) ↔
      ∀ conn', ComesTo (newConn { unread := overlongStream }) conn' → ¬Malformed conn' :=
  read_returns_iff (.fresh overlongStream .eof)

/-- The connection of a peer that sends either stream panics at its first call of `read`. -/
theorem exists_reachable_not_returns :
    (Reachable (newConn { unread := overlongStream }) ∧ ¬Returns (newConn { unread := overlongStream })) ∧
      Reachable (newConn { unread := shortControlStream }) ∧
        ¬Returns (newConn { unread := shortControlStream }) := by
  have hpanics : ∀ incoming, Malformed (newConn { unread := incoming }) →
      ¬Returns (newConn { unread := incoming }) := by
    intro incoming hmal hret
    have hinv := inv_newConn incoming .eof
    exact (returns_iff_not_panics hinv).mp hret ((read_panics_iff hinv).mpr ⟨_, .here () _, hmal⟩)
  refine ⟨⟨.fresh _ .eof, hpanics _ (Or.inl ⟨rfl, by decide, by decide⟩)⟩, .fresh _ .eof, hpanics _ (Or.inr ?_)⟩
  exact ⟨⟨⟨Or.inl rfl, fun hp => absurd hp.1 (by decide), rfl, by decide⟩, by decide⟩, Or.inl (by decide), by decide⟩

end Conn

end Livego
