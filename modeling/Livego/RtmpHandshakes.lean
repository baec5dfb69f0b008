import Livego.RtmpConn
import Livego.RtmpHandshake

/-! The handshake on a connection, from either end. A side that accepts leaves to the reader of chunks exactly the bytes that
come after the handshake. -/

namespace Livego

open Fallible ReadWriter
open Rtmp.Handshake
open SelfDigest (window)

namespace Conn

/-- `io.ReadFull(conn.rw, p)`, for `n` bytes. -/
def readFull (n : Nat) : Call GoError Conn Bytes := fun conn =>
  match conn.rw.read n with
  | (.ok p, rw) => .ok p { conn with rw }
  | (.error e, rw) => .err e { conn with rw }

/-- `conn.rw.Write(p)`. -/
def writeBytes (p : Bytes) : Call GoError Conn Unit := Call.modify fun conn => { conn with rw := conn.rw.write p }

/-! The two parts of `HandshakeClient`: what it sends before it reads, and what it does with what it reads. S1 has a version
or not, and either way it is C2. It stays in the buffer. -/

def sendC0C1 : Call GoError Conn Unit := do
  writeBytes (3 :: List.replicate 1536 0)
  flush

def answerS0S1S2 : Call GoError Conn Unit := do
  let S0S1S2 ← readFull 3073
  let S1 ← Call.slice S0S1S2 1 1537
  writeBytes S1

def handshakeClient : Call GoError Conn Unit := do
  sendC0C1
  answerS0S1S2

section
variable (hmac : Bytes → Bytes → Digest) (random random' : Nat → UInt8)

/-! The two parts of `HandshakeServer`. -/

def answerC0C1 : Call GoError Conn Unit := do
  let C0C1 ← readFull 1537
  let S0S1S2 ← Rtmp.Handshake.handshakeServer hmac random random' C0C1
  writeBytes S0S1S2
  flush

def readC2 : Call GoError Conn Unit := do
  let _ ← readFull 1536
  pure ()

def handshakeServer : Call GoError Conn Unit := do
  answerC0C1 hmac random random'
  readC2

end

/-! ### What is read and what is sent -/

/-- The connection without the next `n` bytes of the stream. -/
def skip (n : Nat) (conn : Conn) : Conn := { conn with rw := conn.rw.advance (conn.rw.unread.drop n) }

/-- The connection once `p` is sent. -/
def sentOut (p : Bytes) (conn : Conn) : Conn := { conn with rw := (conn.rw.write p).flush }

theorem readFull_of_le {conn : Conn} {n : Nat} (hnone : conn.rw.readError = none) (h : n ≤ conn.rw.unread.length) :
    readFull n conn = .ok (conn.rw.unread.take n) (conn.skip n) := by
  have hread : conn.rw.read n = (.ok (conn.rw.unread.take n), conn.rw.advance (conn.rw.unread.drop n)) := by
    simp only [ReadWriter.read, hnone, if_pos h, ReadWriter.advance]
  rw [readFull, hread]
  rfl

theorem readFull_fails {conn : Conn} {n : Nat} (h : ¬(conn.rw.readError = none ∧ n ≤ conn.rw.unread.length)) :
    ∃ e conn', readFull n conn = .err e conn' := by
  obtain ⟨e, rw, hread, -⟩ | ⟨hnone, hle, -⟩ := ReadWriter.read_cases n conn.rw
  · exact ⟨e, _, by rw [readFull, hread]⟩
  · exact absurd ⟨hnone, hle⟩ h

theorem writeBytes_flush (p : Bytes) (conn : Conn) :
    (writeBytes p >>= fun _ => flush) conn = .ok () (conn.sentOut p) := rfl

/-- The client takes any 3073 bytes for an answer, and has the second block of them to send. -/
theorem answerS0S1S2_of_le {conn : Conn} (hnone : conn.rw.readError = none) (h : 3073 ≤ conn.rw.unread.length) :
    answerS0S1S2 conn = writeBytes ((conn.rw.unread.take 1537).drop 1) (conn.skip 3073) := by
  have hlength : (conn.rw.unread.take 3073).length = 3073 := List.length_take_of_le h
  have hslice : (Call.slice (conn.rw.unread.take 3073) 1 1537 : Call GoError Conn Bytes) =
      pure ((conn.rw.unread.take 1537).drop 1) := by
    rw [Call.slice_of_le (by decide) (by omega), List.drop_take, List.drop_take, List.take_take]
    rfl
  rw [answerS0S1S2, Call.bind_of_ok (readFull_of_le hnone h), hslice]
  rfl

end Conn

namespace Rtmp

namespace Handshake

section
variable (hmac : Bytes → Bytes → Digest) {ε σ : Type}

/-- What the server asks of C1: no version, or a digest in one of the two places. -/
def Accepts (C1 : Bytes) : Prop :=
  Endian.beNat (window C1 4 4) = 0 ∨ (scheme hmac hsClientPartialKey 772).Verifies C1 ∨
    (scheme hmac hsClientPartialKey 8).Verifies C1

instance (C1 : Bytes) : Decidable (Accepts hmac C1) := by unfold Accepts; infer_instance

/-- The digest that S2 is made with. -/
def peerDigest (C1 : Bytes) : Bytes :=
  answerDigest hmac hsServerFullKey (if (scheme hmac hsClientPartialKey 772).Verifies C1 then 772 else 8) C1

/-- S0, S1 and S2 for a C1 that is accepted. -/
def answer (random random' : Nat → UInt8) (C1 : Bytes) : Bytes :=
  if Endian.beNat (window C1 4 4) = 0 then 3 :: List.replicate 1536 0 ++ C1
  else
    3 :: (scheme hmac hsServerPartialKey 8).put
        (unsigned random (UInt32.ofNat (Endian.beNat (window C1 0 4))) 0x0d0e0a0d) ++
      (randRead random' 1504 ++ (hmac (peerDigest hmac C1) (randRead random' 1504)).1)

theorem u32BE_block (C1 : Block 1536) {i : Nat} (hi : i + 4 ≤ 1536) :
    (u32BE C1.1 i : Call ε σ UInt32) = pure (UInt32.ofNat (Endian.beNat (window C1.1 i 4))) := by
  rw [u32BE, slice_window (by rw [C1.2]; exact hi)]
  rfl

theorem ofNat_beNat_ne_zero {p : Bytes} (h : p.length = 4) : UInt32.ofNat (Endian.beNat p) ≠ 0 ↔ Endian.beNat p ≠ 0 := by
  have hlt : Endian.beNat p < 2 ^ 32 := by
    have hbound := Endian.beNat_lt p
    rw [h] at hbound
    exact hbound
  rw [not_iff_not, ← UInt32.toNat_inj, UInt32.toNat_ofNat_of_lt' hlt]
  rfl

/-- The server refuses a wrong version and a C1 that it does not accept, and else answers. -/
theorem handshakeServer_eq (random random' : Nat → UInt8) (C0 : UInt8) (C1 : Block 1536) :
    (handshakeServer hmac random random' (C0 :: C1.1) : Call GoError σ Bytes) =
      if C0 ≠ 3 then Call.fail (.errorf s!"rtmp: handshake version={C0.toNat} invalid")
      else if Accepts hmac C1.1 then pure (answer hmac random random' C1.1)
      else Call.fail (.errorf "rtmp: handshake server: C1 invalid") := by
  have hversion : (Call.readAt (C0 :: C1.1) 0 : Call GoError σ UInt8) = pure C0 := Call.readAt_of_lt (Nat.succ_pos _)
  have hrest : (Call.sliceFrom (C0 :: C1.1) 1 : Call GoError σ Bytes) = pure C1.1 := Call.sliceFrom_of_le (by simp)
  have hcliver := ofNat_beNat_ne_zero (p := window C1.1 4 4) (by simp [window, C1.2])
  have hparse : (hsParse1 hmac C1.1 hsClientPartialKey hsServerFullKey : Call GoError σ (Bool × Bytes)) = _ :=
    hsParse1_of_block hmac C1 hsClientPartialKey hsServerFullKey
  rw [Handshake.handshakeServer, hversion, Call.pure_bind]
  split_ifs with hthree haccepts
  · rfl
  · rw [hrest, Call.pure_bind, u32BE_block C1 (by decide), Call.pure_bind, u32BE_block C1 (by decide), Call.pure_bind]
    by_cases hzero : Endian.beNat (window C1.1 4 4) = 0
    · rw [if_neg (not_not.mpr hzero ∘ hcliver.mp), answer, if_pos hzero]
    · have hfound : (hsParse1 hmac C1.1 hsClientPartialKey hsServerFullKey : Call GoError σ (Bool × Bytes)) =
          pure (true, peerDigest hmac C1.1) := by
        rw [hparse, peerDigest]
        split_ifs with hfar hnear
        · rfl
        · rfl
        · exact absurd haccepts (not_or.mpr ⟨hzero, not_or.mpr ⟨hfar, hnear⟩⟩)
      rw [if_pos (hcliver.mpr hzero), hfound, Call.pure_bind]
      dsimp only
      rw [if_neg (by decide), hsCreate01_of_block hmac random ⟨List.replicate 1537 0, List.length_replicate⟩,
        Call.pure_bind, hsCreate2_of_block hmac random' ⟨List.replicate 1536 0, List.length_replicate⟩, Call.pure_bind,
        answer, if_neg hzero]
  · obtain ⟨hzero, hdigest⟩ := not_or.mp haccepts
    obtain ⟨hfar, hnear⟩ := not_or.mp hdigest
    rw [hrest, Call.pure_bind, u32BE_block C1 (by decide), Call.pure_bind, u32BE_block C1 (by decide), Call.pure_bind,
      if_pos (hcliver.mpr hzero), hparse, if_neg hfar, if_neg hnear]
    rfl

/-- Without a version the client has its own block back, and else it has digests that verify. -/
theorem answer_cases (random random' : Nat → UInt8) (C1 : Block 1536) (h : Accepts hmac C1.1) :
    answer hmac random random' C1.1 = 3 :: List.replicate 1536 0 ++ C1.1 ∨
      Answers hmac C1.1 (answer hmac random random' C1.1) := by
  have hsat := handshakeServer_answers hmac random random' 3 C1
  rw [handshakeServer_eq, if_neg (not_not.mpr rfl), if_pos h] at hsat
  exact hsat.2

theorem length_answer (random random' : Nat → UInt8) (C1 : Block 1536) (h : Accepts hmac C1.1) :
    (answer hmac random random' C1.1).length = 3073 := by
  obtain hplain | hanswers := answer_cases hmac random random' C1 h
  · rw [hplain, List.length_append, List.length_cons, List.length_replicate, C1.2]
  · exact hanswers.length

end

end Handshake

end Rtmp

namespace Conn

section
variable (hmac : Bytes → Bytes → Digest) (random random' : Nat → UInt8)

/-- What the stream has to begin with for the server to answer. -/
structure Opened (conn : Conn) (C1 : Block 1536) : Prop where
  readError : conn.rw.readError = none
  accepts : Rtmp.Handshake.Accepts hmac C1.1
  unread : conn.rw.unread = 3 :: C1.1 ++ conn.rw.unread.drop 1537

/-- What the stream has to begin with for the server to go through the handshake. -/
structure Greeted (conn : Conn) (C1 : Block 1536) (rest : Bytes) : Prop where
  readError : conn.rw.readError = none
  accepts : Rtmp.Handshake.Accepts hmac C1.1
  unread : ∃ C2 : Block 1536, conn.rw.unread = 3 :: C1.1 ++ C2.1 ++ rest

/-- The server has gone through the handshake. -/
structure Greets (conn conn' : Conn) (C1 : Block 1536) (rest : Bytes) : Prop where
  state : conn' = (conn.skip 3073).sentOut (answer hmac random random' C1.1)
  unread : conn'.rw.unread = rest
  output : conn'.rw.output = conn.rw.output ++ answer hmac random random' C1.1
  length : (answer hmac random random' C1.1).length = 3073
  answers : answer hmac random random' C1.1 = 3 :: List.replicate 1536 0 ++ C1.1 ∨
    Answers hmac C1.1 (answer hmac random random' C1.1)

theorem Opened.take {conn : Conn} {C1 : Block 1536} (h : Opened hmac conn C1) :
    1537 ≤ conn.rw.unread.length ∧ conn.rw.unread.take 1537 = 3 :: C1.1 := by
  have hlength : (3 :: C1.1).length = 1537 := by rw [List.length_cons, C1.2]
  constructor
  · rw [h.unread, List.length_append, hlength]
    exact Nat.le_add_right _ _
  · rw [h.unread, List.take_left' hlength]

theorem Greeted.opened {conn : Conn} {C1 : Block 1536} {rest : Bytes} (h : Greeted hmac conn C1 rest) :
    Opened hmac conn C1 := by
  obtain ⟨C2, hunread⟩ := h.unread
  have hlength : (3 :: C1.1).length = 1537 := by rw [List.length_cons, C1.2]
  refine ⟨h.readError, h.accepts, ?_⟩
  rw [hunread, List.append_assoc, List.drop_left' hlength]

theorem Greeted.length_le {conn : Conn} {C1 : Block 1536} {rest : Bytes} (h : Greeted hmac conn C1 rest) :
    3073 ≤ conn.rw.unread.length := by
  obtain ⟨C2, hunread⟩ := h.unread
  rw [hunread, List.length_append, List.length_append, List.length_cons, C1.2, C2.2]
  omega

theorem answerC0C1_sat (conn : Conn) :
    (answerC0C1 hmac random random' conn).Sat
      (fun _ conn' => ∃ C1, Opened hmac conn C1 ∧ conn' = (conn.skip 1537).sentOut (answer hmac random random' C1.1))
      (fun _ _ => ¬∃ C1, Opened hmac conn C1) False := by
  by_cases hread : conn.rw.readError = none ∧ 1537 ≤ conn.rw.unread.length
  · obtain ⟨hnone, hlength⟩ := hread
    obtain ⟨C0, p, hp⟩ := List.exists_cons_of_length_eq_add_one (List.length_take_of_le hlength)
    have hC1 : p.length = 1536 := by
      have htake := List.length_take_of_le hlength
      rw [hp] at htake
      exact Nat.succ.inj htake
    have hserver : (Rtmp.Handshake.handshakeServer hmac random random' (C0 :: p) : Call GoError Conn Bytes) = _ :=
      handshakeServer_eq hmac random random' C0 ⟨p, hC1⟩
    rw [answerC0C1, Call.bind_of_ok (readFull_of_le hnone hlength), hp, hserver]
    split_ifs with hthree haccepts
    · rintro ⟨C1, hopened⟩
      have hfront := hp.symm.trans (hopened.take hmac).2
      exact hthree (List.cons.inj hfront).1
    · have hsplit := List.take_append_drop 1537 conn.rw.unread
      rw [hp, not_not.mp hthree] at hsplit
      exact ⟨⟨p, hC1⟩, ⟨hnone, haccepts, hsplit.symm⟩, rfl⟩
    · rintro ⟨C1, hopened⟩
      have hfront := hp.symm.trans (hopened.take hmac).2
      obtain ⟨-, rfl⟩ := List.cons.inj hfront
      exact haccepts hopened.accepts
  · obtain ⟨e, conn', hfails⟩ := readFull_fails hread
    rw [answerC0C1, Call.bind_of_err hfails]
    rintro ⟨C1, hopened⟩
    exact hread ⟨hopened.readError, (hopened.take hmac).1⟩

theorem answerC0C1_of_opened {conn : Conn} {C1 : Block 1536} (h : Opened hmac conn C1) :
    answerC0C1 hmac random random' conn = .ok () ((conn.skip 1537).sentOut (answer hmac random random' C1.1)) := by
  have hsat := answerC0C1_sat hmac random random' conn
  cases hanswer : answerC0C1 hmac random random' conn with
  | ok u conn' =>
      obtain ⟨C1', hopened, rfl⟩ := hsat.of_ok hanswer
      have hsame : C1'.1 = C1.1 := (List.cons.inj ((hopened.take hmac).2.symm.trans (h.take hmac).2)).2
      rw [hsame]
  | err e conn' => exact absurd ⟨C1, h⟩ (hsat.of_err hanswer)
  | panic p => exact (hsat.of_panic hanswer).elim
  | diverge => exact absurd hanswer hsat.ne_diverge

/-- The server returns nil exactly if it is greeted, and then it has taken the handshake from the stream, and no more. -/
theorem handshakeServer_greets (conn : Conn) :
    (handshakeServer hmac random random' conn).Sat
      (fun _ conn' => ∃ C1 rest, Greeted hmac conn C1 rest ∧ Greets hmac random random' conn conn' C1 rest)
      (fun _ _ => ¬∃ C1 rest, Greeted hmac conn C1 rest) False := by
  refine ((answerC0C1_sat hmac random random' conn).imp (fun _ _ h => h) ?_ id).bind ?_
  · rintro e conn' hclosed ⟨C1, rest, hgreeted⟩
    exact hclosed ⟨C1, hgreeted.opened hmac⟩
  · rintro ⟨⟩ conn' ⟨C1, hopened, rfl⟩
    by_cases hlength : 1536 ≤ (conn.rw.unread.drop 1537).length
    · have hread := @readFull_of_le ((conn.skip 1537).sentOut (answer hmac random random' C1.1)) _
        hopened.readError hlength
      have hrest : (conn.rw.unread.drop 1537).drop 1536 = conn.rw.unread.drop 3073 := List.drop_drop
      have haccepts := hopened.accepts
      rw [readC2, Call.bind_of_ok hread]
      refine ⟨C1, conn.rw.unread.drop 3073,
        ⟨hopened.readError, haccepts, ⟨_, List.length_take_of_le hlength⟩, ?_⟩, ?_⟩
      · rw [List.append_assoc, ← hrest, List.take_append_drop, ← hopened.unread]
      · refine ⟨?_, hrest, ?_, length_answer hmac random random' C1 haccepts,
          answer_cases hmac random random' C1 haccepts⟩
        · simp only [skip, sentOut, ReadWriter.advance, ReadWriter.write, ReadWriter.flush, hrest]
        · simp [skip, sentOut, ReadWriter.output, ReadWriter.advance, ReadWriter.write, ReadWriter.flush]
    · obtain ⟨e, conn', hfails⟩ :=
        @readFull_fails ((conn.skip 1537).sentOut (answer hmac random random' C1.1)) 1536 fun h => hlength h.2
      rw [readC2, Call.bind_of_err hfails]
      rintro ⟨C1', rest, hgreeted⟩
      have hlong := hgreeted.length_le hmac
      rw [List.length_drop] at hlength
      omega

end

end Conn

end Livego
