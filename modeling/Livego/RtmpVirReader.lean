import Livego.FlvDemux
import Livego.RtmpProgress
import Livego.RtmpSendPacket

/-! The packets that a publisher's reader hands on, call after call into one packet. An error of the header parser is
dropped, and a panic is recovered from with no error: then the packet has parts of the one before. -/

namespace Livego

open Fallible ReadWriter ChunkStream

namespace Conn

/-- The connection as a panic leaves it on a header that announces more than the pool has: the header has been read, and the
pool has begun a new buffer. -/
def inHeader (conn : Conn) : Conn :=
  let (h, rw) := conn.rw.readUintBE 1
  let csid := h &&& 0x3f
  let entry := (conn.chunks csid).getD {}
  let (cs, rw) := readBasicId { entry with tmpFromat := h >>> 6, csid := csid } rw
  let (_, rw) := if cs.tmpFromat = 0 then cs.readFull rw else cs.readSameStream rw
  { conn with
    rw := rw
    pool := { buf := conn.pool.buf + 1, pos := 0 }
    chunks := Function.update conn.chunks csid (some entry) }

theorem inHeader_inv {conn : Conn} (h : Inv conn) : Inv conn.inHeader := by
  have hheader : ∀ (cs : ChunkStream) (rw : ReadWriter),
      Later rw (if cs.tmpFromat = 0 then cs.readFull rw else cs.readSameStream rw).2 := by
    intro cs rw
    split_ifs
    · exact later_reading.inherited.readFull cs rw
    · exact later_reading.inherited.readSameStream cs rw
  have hlater := (readUintBE_later (n := 1) (by decide) conn.rw).trans (readBasicId_later
    { (conn.chunks ((conn.rw.readUintBE 1).1 &&& 0x3f)).getD {} with
      tmpFromat := (conn.rw.readUintBE 1).1 >>> 6, csid := (conn.rw.readUintBE 1).1 &&& 0x3f }
    (conn.rw.readUintBE 1).2)
  have hentry : ∀ key, WellFormed ((conn.chunks key).getD {}) := by
    intro key
    cases hc : conn.chunks key with
    | none => exact wellFormed_default
    | some e => exact h.entries _ _ hc
  exact ⟨(hlater.trans (hheader _ _)).drained h.drained, forall_updated h.entries (hentry _), h.chunkSize_ne⟩

/-- The connection as a panic leaves it that comes up some turns later. -/
def afterPanic : Nat → Conn → Conn
  | 0, conn => conn
  | fuel + 1, conn =>
    match readTurn () conn with
    | .ok (.inl ()) conn => afterPanic fuel conn
    | .ok (.inr c) conn =>
      match finish c conn with
      | .ok _ conn => afterPanic fuel conn
      | _ => conn
    | .err _ conn => conn
    | .panic _ => conn.inHeader
    | .diverge => conn

theorem afterPanic_inv (fuel : Nat) {conn : Conn} (h : Inv conn) : Inv (afterPanic fuel conn) := by
  induction fuel generalizing conn with
  | zero => exact h
  | succ fuel ih =>
      have hsat := (readTurn_sat h).1
      unfold afterPanic
      cases hturn : readTurn () conn with
      | ok r conn' =>
          have hinv := (hsat.of_ok hturn).1
          cases r with
          | inl _ => exact ih hinv
          | inr c =>
              dsimp only
              have hfinish := (finish_sat hinv c).1
              cases hcase : finish c conn' with
              | ok c' conn'' => exact ih (hfinish.of_ok hcase).2
              | err e conn'' => exact hinv
              | panic p => exact hinv
              | diverge => exact hinv
      | err e conn' => exact (hsat.of_err hturn).1
      | panic p => exact inHeader_inv h
      | diverge => exact h

end Conn

namespace VirReader

instance (cs : ChunkStream) : Decidable (IsMedia cs) := by unfold IsMedia; infer_instance

/-- A turn of the loop of `Read`. -/
def mediaTurn (_ : Unit) : Call GoError Conn (Unit ⊕ ChunkStream) := do
  let cs ← Conn.read
  pure (if IsMedia cs then .inr cs else .inl ())

/-- The loop of `Read`: the next message that is audio, video or metadata. Every message takes a byte of the stream. -/
def nextMedia : Call GoError Conn ChunkStream := do
  let conn ← Call.get
  Call.loop mediaTurn (conn.rw.unread.length + 1) ()

/-- `Read` into the packet `p`. A panic below it is recovered from, and the error that is returned then is nil. -/
def readPacket : AvPacket × Conn → Option GoError × AvPacket × Conn := fun (p, conn) =>
  match nextMedia conn with
  | .ok cs conn => (none, read cs p, conn)
  | .err e conn => (some e, p, conn)
  | _ => (none, p, conn.afterPanic (conn.rw.unread.length + 1))

/-- The packet and the connection after `n` calls of `Read`. -/
def calls : Nat → AvPacket × Conn → AvPacket × Conn
  | 0, s => s
  | n + 1, s => calls n (readPacket s).2

theorem mediaTurn_cases (conn : Conn) :
    mediaTurn () conn = match Conn.read conn with
      | .ok cs conn => .ok (if IsMedia cs then .inr cs else .inl ()) conn
      | .err e conn => .err e conn
      | .panic p => .panic p
      | .diverge => .diverge := by
  unfold mediaTurn
  rw [Call.bind_apply]
  cases Conn.read conn <;> rfl

theorem read_of_mediaTurn {conn conn' : Conn} {r : Unit ⊕ ChunkStream} (h : mediaTurn () conn = .ok r conn') :
    ∃ cs, Conn.read conn = .ok cs conn' := by
  rw [mediaTurn_cases] at h
  cases hread : Conn.read conn with
  | ok cs conn'' =>
      simp only [hread, Outcome.ok.injEq] at h
      exact ⟨cs, by rw [h.2]⟩
  | err e conn'' => simp [hread] at h
  | panic p => simp [hread] at h
  | diverge => simp [hread] at h

theorem mediaTurn_decreases : Call.Decreases mediaTurn (fun _ conn => conn.rw.unread.length) := by
  intro _ conn _ conn' hturn
  obtain ⟨cs, hread⟩ := read_of_mediaTurn hturn
  exact (Conn.read_lt conn).of_ok hread

/-- The loop ends, with a media message that was read or with an error. -/
theorem nextMedia_sat {conn : Conn} (h : Conn.Inv conn) :
    (nextMedia conn).Sat
      (fun cs conn' => Conn.Inv conn' ∧ IsMedia cs ∧ conn'.rw.unread.length < conn.rw.unread.length)
      (fun _ conn' => Conn.Inv conn') True := by
  refine Call.sat_loop (μ := fun _ conn => conn.rw.unread.length)
    (I := fun _ s => Conn.Inv s ∧ s.rw.unread.length ≤ conn.rw.unread.length) ?_ (Nat.lt_succ_self _) ⟨h, le_refl _⟩
  rintro _ s ⟨hinv, hle⟩
  have hsat := Conn.read_sat hinv
  rw [mediaTurn_cases]
  cases hread : Conn.read s with
  | ok cs s' =>
      have hlt := (Conn.read_lt s).of_ok hread
      have hinv' := hsat.of_ok hread
      by_cases hmedia : IsMedia cs
      · simp only [if_pos hmedia]
        exact ⟨hinv', hmedia, hlt.trans_le hle⟩
      · simp only [if_neg hmedia]
        exact ⟨⟨hinv', (hlt.trans_le hle).le⟩, hlt⟩
  | err e s' => exact hsat.of_err hread
  | panic p => trivial
  | diverge => exact absurd hread hsat.ne_diverge

theorem inv_readPacket {s : AvPacket × Conn} (h : Conn.Inv s.2) : Conn.Inv (readPacket s).2.2 := by
  obtain ⟨p, conn⟩ := s
  have hsat := nextMedia_sat h
  simp only [readPacket]
  cases hnext : nextMedia conn with
  | ok cs conn' => exact (hsat.of_ok hnext).1
  | err e conn' => exact hsat.of_err hnext
  | panic f => exact Conn.afterPanic_inv _ h
  | diverge => exact absurd hnext hsat.ne_diverge

theorem inv_calls (n : Nat) {s : AvPacket × Conn} (h : Conn.Inv s.2) : Conn.Inv (calls n s).2 := by
  induction n generalizing s with
  | zero => exact h
  | succ n ih => exact ih (inv_readPacket h)

/-- The packet of a message and its tag header, whatever packet it is read into. -/
def packetOf (cs : ChunkStream) (tag : Tag) : AvPacket := { fill cs {} with header := some tag }

/-- A call that returns nil has taken a media message from the stream, and its packet is that message with the header that
is parsed from its data. -/
def Delivers (s : AvPacket × Conn) : Prop :=
  (readPacket s).1 = none → ∃ cs conn n tag, nextMedia s.2 = .ok cs conn ∧ IsMedia cs ∧
    conn.rw.unread.length < s.2.rw.unread.length ∧ Tag.parseMediaTagHeader cs.data (cs.typeID = tagVideo) {} = .ok n tag ∧
    readPacket s = (none, packetOf cs tag, conn)

/-- The chunks that a call of `Read` comes to. -/
def ComesBy (conn conn' : Conn) : Prop := ∃ between, Call.Visits mediaTurn () conn () between ∧ Conn.ComesTo between conn'

/-- The call comes to no malformed chunk, and the media message it comes to holds its tag header. -/
structure Sound (conn : Conn) : Prop where
  wellFormed : ∀ conn', ComesBy conn conn' → ¬Conn.Malformed conn'
  tagged : ∀ cs conn', nextMedia conn = .ok cs conn' → Tag.HoldsHeader (cs.typeID = tagVideo) cs.data

theorem nextMedia_panics_iff {conn : Conn} (h : Conn.Inv conn) :
    (nextMedia conn).Panics ↔ ∃ conn', ComesBy conn conn' ∧ Conn.Malformed conn' := by
  have hfuel := Nat.lt_succ_self conn.rw.unread.length
  have hloop : nextMedia conn = Call.loop mediaTurn (conn.rw.unread.length + 1) () conn := rfl
  have hinv : ∀ between, Call.Visits mediaTurn () conn () between → Conn.Inv between := by
    intro between hvisits
    refine Call.Visits.invariant (I := fun _ s => Conn.Inv s) hvisits h ?_
    intro _ s _ s' hs hturn
    obtain ⟨cs, hread⟩ := read_of_mediaTurn hturn
    exact (Conn.read_sat hs).of_ok hread
  have hpanics : ∀ between, (mediaTurn () between).Panics ↔ (Conn.read between).Panics := by
    intro between
    rw [mediaTurn_cases]
    cases Conn.read between <;> simp
  rw [hloop, Call.panics_loop (μ := fun _ conn => conn.rw.unread.length) mediaTurn_decreases hfuel]
  constructor
  · rintro ⟨⟨⟩, between, hvisits, hpanic⟩
    obtain ⟨conn', hcomes, hmal⟩ := (Conn.read_panics_iff (hinv between hvisits)).mp ((hpanics between).mp hpanic)
    exact ⟨conn', ⟨between, hvisits, hcomes⟩, hmal⟩
  · rintro ⟨conn', ⟨between, hvisits, hcomes⟩, hmal⟩
    exact ⟨(), between, hvisits,
      (hpanics between).mpr ((Conn.read_panics_iff (hinv between hvisits)).mpr ⟨conn', hcomes, hmal⟩)⟩

theorem read_eq_packetOf {cs : ChunkStream} {n : Nat} {tag : Tag} (p : AvPacket)
    (hparse : Tag.parseMediaTagHeader cs.data (cs.typeID = tagVideo) {} = .ok n tag) : read cs p = packetOf cs tag := by
  have hdemux : Demuxer.demuxH (fill cs p) = .ok () { fill cs p with header := some tag } := by
    simp only [Demuxer.demuxH, fill, hparse]
  rw [read, hdemux]
  rfl

/-- One call delivers a new packet exactly if it meets a sound message. -/
theorem delivers_iff_sound {s : AvPacket × Conn} (h : Conn.Inv s.2) : Delivers s ↔ Sound s.2 := by
  obtain ⟨p, conn⟩ := s
  have hsat := nextMedia_sat h
  have hpanics := nextMedia_panics_iff h
  cases hnext : nextMedia conn with
  | ok cs conn' =>
      obtain ⟨-, hmedia, hlt⟩ := hsat.of_ok hnext
      have hquiet : ∀ conn', ComesBy conn conn' → ¬Conn.Malformed conn' := by
        intro conn' hcomes hmal
        exact (hpanics.mpr ⟨conn', hcomes, hmal⟩).ne_ok hnext
      constructor
      · intro hdelivers
        refine ⟨hquiet, fun cs' conn'' hnext' => ?_⟩
        obtain ⟨cs0, conn0, n, tag, hnext0, -, -, hparse, -⟩ := hdelivers (by simp only [readPacket, hnext])
        cases hnext0.symm.trans hnext'
        exact (Tag.parseMediaTagHeader_ok_iff _ _).mp ⟨n, tag, hparse⟩
      · rintro ⟨-, htagged⟩ -
        obtain ⟨n, tag, hparse⟩ := (Tag.parseMediaTagHeader_ok_iff _ _).mpr (htagged cs conn' hnext)
        refine ⟨cs, conn', n, tag, hnext, hmedia, hlt, hparse, ?_⟩
        simp only [readPacket, hnext, read_eq_packetOf p hparse]
  | err e conn' =>
      refine iff_of_true (fun hnil => by simp [readPacket, hnext] at hnil) ⟨?_, ?_⟩
      · intro conn' hcomes hmal
        exact (hpanics.mpr ⟨conn', hcomes, hmal⟩).ne_err hnext
      · intro cs conn'' hnext'
        cases hnext.symm.trans hnext'
  | panic f =>
      apply iff_of_false
      · intro hdelivers
        obtain ⟨cs, conn', n, tag, hnext', -⟩ := hdelivers (by simp only [readPacket, hnext])
        cases hnext.symm.trans hnext'
      · intro hsound
        obtain ⟨conn', hcomes, hmal⟩ := hpanics.mp (by rw [hnext]; trivial)
        exact hsound.wellFormed conn' hcomes hmal
  | diverge => exact absurd hnext hsat.ne_diverge

/-- Call after call on one packet, whatever was read before and however it ended. -/
theorem calls_deliver_iff {conn : Conn} (h : Conn.Inv conn) (p : AvPacket) (n : Nat) :
    Delivers (calls n (p, conn)) ↔ Sound (calls n (p, conn)).2 :=
  delivers_iff_sound (inv_calls n h)

/-- AAC audio, and then video of one byte. -/
def shortVideo : Bytes := [0x04, 0, 0, 0, 0, 0, 2, 8, 0, 0, 0, 0, 0xaf, 1] ++ [0x06, 0, 0, 5, 0, 0, 1, 9, 0, 0, 0, 0, 0x17]

theorem calls_deliver_iff_shortVideo :
    Delivers (calls 1 ({}, Conn.newConn { unread := shortVideo })) ↔
      Sound (calls 1 ({}, Conn.newConn { unread := shortVideo })).2 :=
  calls_deliver_iff (Conn.inv_newConn shortVideo .eof) {} 1

/-- The second call returns the video with the header of the audio. -/
theorem not_delivers_shortVideo :
    (calls 1 ({}, Conn.newConn { unread := shortVideo })).1.header =
        some { soundFormat := 10, soundRate := 3, soundSize := 1, soundType := 1, aacPacketType := 1 } ∧
      (readPacket (calls 1 ({}, Conn.newConn { unread := shortVideo }))).1 = none ∧
        (readPacket (calls 1 ({}, Conn.newConn { unread := shortVideo }))).2.1 =
          { isVideo := true, timeStamp := 5, data := [0x17]
            header := (calls 1 ({}, Conn.newConn { unread := shortVideo })).1.header } ∧
          ¬Delivers (calls 1 ({}, Conn.newConn { unread := shortVideo })) := by
  have hnil : (readPacket (calls 1 ({}, Conn.newConn { unread := shortVideo }))).1 = none := by decide +kernel
  have hpacket : (readPacket (calls 1 ({}, Conn.newConn { unread := shortVideo }))).2.1 =
      { isVideo := true, timeStamp := 5, data := [0x17]
        header := (calls 1 ({}, Conn.newConn { unread := shortVideo })).1.header } := by decide +kernel
  refine ⟨by decide +kernel, hnil, hpacket, fun hdelivers => ?_⟩
  obtain ⟨cs, conn, n, tag, -, -, -, hparse, heq⟩ := hdelivers hnil
  rw [heq] at hpacket
  have hvideo : decide (cs.typeID = tagVideo) = true := congrArg AvPacket.isVideo hpacket
  have hdata : cs.data = [0x17] := congrArg AvPacket.data hpacket
  rw [hvideo, hdata] at hparse
  cases hparse

end VirReader

end Livego
