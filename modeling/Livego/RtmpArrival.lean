import Livego.RtmpSession

/-! A stream that is still arriving. What a reader does with the bytes that are there does not depend on those that
follow, unless it runs into the end of what is there: then it waits. -/

namespace Livego

open Endian Fallible

namespace ReadWriter

/-- The connection once `q` has arrived as well. -/
def more (q : Bytes) (rw : ReadWriter) : ReadWriter := { rw with unread := rw.unread ++ q }

variable {α β : Type}

/-- A read that fails only at the end of the stream, and else takes the same bytes whatever follows them. -/
structure Local (f : ReadWriter → α × ReadWriter) : Prop where
  later : ∀ r, Later r (f r).2
  more : ∀ r q, (f r).2.readError = none → f (r.more q) = ((f r).1, (f r).2.more q)

theorem Local.pure (a : α) : Local fun r => (a, r) := ⟨Later.refl, fun _ _ _ => rfl⟩

theorem Local.bind {f : ReadWriter → α × ReadWriter} {g : α → ReadWriter → β × ReadWriter} (hf : Local f)
    (hg : ∀ a, Local (g a)) : Local fun r => g (f r).1 (f r).2 := by
  refine ⟨fun r => (hf.later r).trans ((hg _).later _), fun r q hnone => ?_⟩
  have hmid := ((hg (f r).1).later (f r).2).sticky hnone
  rw [hf.more r q hmid]
  exact (hg _).more _ q hnone

theorem ReadsNumber.isLocal {n : Nat} {number : Bytes → Nat} {f : ReadWriter → Nat × ReadWriter}
    (h : ReadsNumber n number f) : Local f := by
  refine ⟨h.later, fun r q hnone => ?_⟩
  have hr := (h.later r).sticky hnone
  have hr' : (r.more q).readError = none := hr
  rw [h r] at hnone ⊢
  rw [h (r.more q)]
  simp only [hr, hr', Option.isSome_none, Bool.false_eq_true, if_false] at hnone ⊢
  by_cases hlen : n ≤ r.unread.length
  · have hlen' : n ≤ (r.more q).unread.length := by
      rw [ReadWriter.more, List.length_append]
      omega
    rw [if_pos hlen, if_pos hlen']
    simp only [ReadWriter.more, advance, List.take_append_of_le_length hlen, List.drop_append_of_le_length hlen]
  · simp [hlen, exhaust] at hnone

theorem readUintBE_local {n : Nat} (hn : n ≤ 4) : Local (readUintBE n) := (readUintBE_number hn).isLocal

theorem readUintLE_local {n : Nat} (hn : n ≤ 4) : Local (readUintLE n) := (readUintLE_number hn).isLocal

theorem read_local (size : Nat) : Local (read size) := by
  refine ⟨fun r => ?_, fun r q hnone => ?_⟩
  · rcases read_cases size r with ⟨e, r', hread, hlater⟩ | ⟨hnone, -, hread⟩
    · rw [hread]
      exact hlater
    · rw [hread]
      exact later_advance (List.drop_suffix _ _) hnone
  · unfold read at hnone ⊢
    cases he : r.readError with
    | some e =>
        rw [he] at hnone
        rw [he] at hnone
        cases hnone
    | none =>
        have he' : (r.more q).readError = none := he
        simp only [he, he'] at hnone ⊢
        by_cases hlen : size ≤ r.unread.length
        · have hlen' : size ≤ (r.more q).unread.length := by
            rw [ReadWriter.more, List.length_append]
            omega
          rw [if_pos hlen, if_pos hlen']
          simp only [ReadWriter.more, List.take_append_of_le_length hlen, List.drop_append_of_le_length hlen]
        · simp [hlen] at hnone

theorem local_inherited : Inherited @Local := ⟨Local.pure, Local.bind, readUintBE_local, readUintLE_local⟩

end ReadWriter

open ReadWriter

namespace ChunkStream

/-! ### Calls -/

/-- A call that has not run into the end of the stream takes the same bytes whatever follows them. -/
def Foreseen {α : Type} (x : Call GoError (ReadWriter × Pool) α) : Prop :=
  ∀ r pool, (x (r, pool)).Sat
    (fun a s => Later r s.1 ∧ (s.1.readError = none → ∀ q, x (r.more q, pool) = .ok a (s.1.more q, s.2)))
    (fun e s => Later r s.1 ∧ (s.1.readError = none → e ≠ s.1.ending →
      ∀ q, x (r.more q, pool) = .err e (s.1.more q, s.2))) True

theorem Foreseen.bind {α β : Type} {x : Call GoError (ReadWriter × Pool) α}
    {f : α → Call GoError (ReadWriter × Pool) β} (hx : Foreseen x) (hf : ∀ a, Foreseen (f a)) :
    Foreseen (x >>= f) := by
  intro r pool
  have hhead := hx r pool
  simp only [Call.bind_apply]
  cases hxs : x (r, pool) with
  | ok a s =>
      obtain ⟨r', pool'⟩ := s
      rw [hxs] at hhead
      obtain ⟨hlater, hmore⟩ := hhead
      refine (hf a r' pool').imp ?_ ?_ id
      · rintro b s ⟨hlater', hmore'⟩
        refine ⟨hlater.trans hlater', fun hnone q => ?_⟩
        rw [hmore (hlater'.sticky hnone) q]
        exact hmore' hnone q
      · rintro e s ⟨hlater', hmore'⟩
        refine ⟨hlater.trans hlater', fun hnone hne q => ?_⟩
        rw [hmore (hlater'.sticky hnone) q]
        exact hmore' hnone hne q
  | err e s =>
      rw [hxs] at hhead
      refine ⟨hhead.1, fun hnone hne q => ?_⟩
      rw [hhead.2 hnone hne q]
  | panic p => trivial
  | diverge => simp [hxs] at hhead

/-- The rest of a body after a read. -/
theorem Foreseen.read {α β : Type} {f : ReadWriter → α × ReadWriter} (hf : Local f)
    {x : α → Call GoError (ReadWriter × Pool) β} (hx : ∀ a, Foreseen (x a)) :
    Foreseen fun s => x (f s.1).1 ((f s.1).2, s.2) := by
  intro r pool
  refine (hx (f r).1 (f r).2 pool).imp ?_ ?_ id
  · rintro b s ⟨hlater, hmore⟩
    refine ⟨(hf.later r).trans hlater, fun hnone q => ?_⟩
    dsimp only
    rw [hf.more r q (hlater.sticky hnone)]
    exact hmore hnone q
  · rintro e s ⟨hlater, hmore⟩
    refine ⟨(hf.later r).trans hlater, fun hnone hne q => ?_⟩
    dsimp only
    rw [hf.more r q (hlater.sticky hnone)]
    exact hmore hnone hne q

theorem new_foreseen (e : ChunkStream) : Foreseen e.new := by
  intro r pool
  unfold new
  dsimp only
  split
  · trivial
  · exact ⟨.refl r, fun _ _ => rfl⟩

theorem skipExtended_foreseen (e : ChunkStream) : Foreseen e.skipExtended := by
  intro r pool
  have hlater := skipExtended_sat e (r, pool)
  unfold skipExtended at hlater ⊢
  dsimp only at hlater ⊢
  by_cases hexted : e.exted = true
  · simp only [if_pos hexted] at hlater ⊢
    by_cases hpeek : 4 ≤ r.unread.length
    · have htake : r.peek 4 = .ok (r.unread.take 4) := by rw [ReadWriter.peek, if_pos hpeek]
      have htake' : ∀ q, (r.more q).peek 4 = .ok (r.unread.take 4) := by
        intro q
        rw [ReadWriter.peek, if_pos (by rw [ReadWriter.more, List.length_append]; omega), ReadWriter.more,
          List.take_append_of_le_length hpeek]
      have hdrop : ∀ q, (r.more q).discard 4 = (r.discard 4).more q := by
        intro q
        simp only [ReadWriter.more, ReadWriter.discard, List.drop_append_of_le_length hpeek]
      simp only [htake, htake', hdrop] at hlater ⊢
      split_ifs at hlater ⊢ with hts
      · exact ⟨hlater.2, fun _ _ => rfl⟩
      · exact ⟨hlater.2, fun _ _ => rfl⟩
    · simp only [ReadWriter.peek, if_neg hpeek]
      exact ⟨.refl r, fun _ hne => absurd rfl hne⟩
  · simp only [if_neg hexted]
    exact ⟨.refl r, fun _ _ => rfl⟩

theorem readHeader_foreseen (e : ChunkStream) : Foreseen e.readHeader := by
  unfold readHeader
  dsimp only
  split
  · exact .read (local_inherited.readFull e) new_foreseen
  · exact .read (local_inherited.readSameStream e) new_foreseen
  · exact .read (local_inherited.readDelta e) new_foreseen
  · split
    · exact .read (local_inherited.readRepeated e) new_foreseen
    · exact skipExtended_foreseen e
  · exact fun r pool => ⟨.refl r, fun _ _ _ => rfl⟩

/-- What `readPayload` does with the bytes of the chunk. -/
def takePayload (e : ChunkStream) (size : Nat) (res : Except GoError Bytes) :
    Call GoError (ReadWriter × Pool) ChunkStream := fun s =>
  match res with
  | .error err => .err err s
  | .ok buf =>
    let cs := { e with data := e.data.take e.index ++ buf ++ e.data.drop (u32 (e.index + size)),
                       index := u32 (e.index + size), remain := sub32 e.remain size }
    let cs := if cs.remain = 0 then { cs with got := true } else cs
    match s.1.readError with
    | some err => .err err s
    | none => .ok cs s

theorem takePayload_foreseen (e : ChunkStream) (size : Nat) (res : Except GoError Bytes) :
    Foreseen (e.takePayload size res) := by
  intro r pool
  unfold takePayload
  cases res with
  | error err => exact ⟨.refl r, fun _ _ _ => rfl⟩
  | ok buf =>
      dsimp only
      cases he : r.readError with
      | some err => exact ⟨.refl r, fun hnone => absurd (he.symm.trans hnone) (by simp)⟩
      | none => exact ⟨.refl r, fun _ q => by rw [show (r.more q).readError = none from he]⟩

theorem readPayload_foreseen (e : ChunkStream) (chunkSize : Nat) : Foreseen (e.readPayload chunkSize) := by
  unfold readPayload
  dsimp only
  generalize (if e.remain > chunkSize then chunkSize else e.remain) = size
  split
  · exact fun _ _ => trivial
  · refine (congrArg Foreseen (funext fun s => ?_)).mp (.read (read_local size) (takePayload_foreseen e size))
    rcases s.1.read size with ⟨_ | _, r⟩
    · rfl
    · rfl

theorem readChunk_foreseen (e : ChunkStream) (chunkSize : Nat) : Foreseen (e.readChunk chunkSize) := by
  unfold readChunk
  dsimp only
  split
  · exact fun r _ => ⟨.refl r, fun _ _ _ => rfl⟩
  · exact .read (local_inherited.readBasicId e) fun e' =>
      (readHeader_foreseen e').bind fun e'' => readPayload_foreseen e'' chunkSize

theorem read_err {size : Nat} {rw rw' : ReadWriter} {e : GoError} (h : rw.read size = (.error e, rw')) :
    rw'.readError ≠ none := by
  unfold ReadWriter.read at h
  cases he : rw.readError with
  | some e' =>
      simp only [he] at h
      cases h
      simp [he]
  | none =>
      by_cases hlen : size ≤ rw.unread.length
      · simp only [he, if_pos hlen, Prod.mk.injEq, reduceCtorEq, false_and] at h
      · simp only [he, if_neg hlen, Prod.mk.injEq] at h
        rw [← h.2]
        exact Option.some_ne_none _

/-- What cannot be read of a chunk leaves its error with the connection. -/
theorem readPayload_err (e : ChunkStream) (chunkSize : Nat) (s : ReadWriter × Pool) :
    (e.readPayload chunkSize s).Sat (fun _ _ => True) (fun _ s' => s'.1.readError ≠ none) True := by
  obtain ⟨r, pool⟩ := s
  unfold readPayload
  dsimp only
  generalize (if e.remain > chunkSize then chunkSize else e.remain) = size
  split
  · trivial
  · cases hread : r.read size with
    | mk result r' =>
        cases result with
        | error err => exact read_err hread
        | ok buf =>
            cases he : r'.readError with
            | none => simp [he]
            | some err => simp [he]

theorem skipExtended_err {e : ChunkStream} {s s' : ReadWriter × Pool} {err : GoError}
    (h : e.skipExtended s = .err err s') : s' = s ∧ err = s.1.ending := by
  obtain ⟨r, pool⟩ := s
  unfold skipExtended at h
  dsimp only at h
  split_ifs at h
  rw [ReadWriter.peek] at h
  split_ifs at h
  · dsimp only at h
    split_ifs at h
  · cases h
    exact ⟨rfl, rfl⟩

/-- A chunk that goes on with a message has no header but the id and an extended timestamp. -/
theorem readChunk_continues {e : ChunkStream} (hremain : e.remain ≠ 0) (hformat : e.tmpFromat = 3) (chunkSize : Nat)
    (r : ReadWriter) (pool : Pool) :
    e.readChunk chunkSize (r, pool) =
      ((e.readBasicId r).1.skipExtended >>= fun cs => cs.readPayload chunkSize) ((e.readBasicId r).2, pool) := by
  obtain ⟨csid, hentry⟩ := readBasicId_entry e r
  have hheader : ∀ s, (e.readBasicId r).1.readHeader s = (e.readBasicId r).1.skipExtended s := by
    intro s
    rw [hentry]
    simp only [readHeader, hformat, if_neg hremain]
  unfold readChunk
  dsimp only
  rw [if_neg (by simp [hformat]), Call.bind_apply, Call.bind_apply, hheader]

/-- Inside a message the reading of a chunk fails only where the stream ends. -/
theorem readChunk_inside {e : ChunkStream} {chunkSize : Nat} {r : ReadWriter} {pool : Pool} {err : GoError}
    {s : ReadWriter × Pool} (hremain : e.remain ≠ 0) (hformat : e.tmpFromat = 3)
    (h : e.readChunk chunkSize (r, pool) = .err err s) : s.1.readError ≠ none ∨ err = s.1.ending := by
  rw [readChunk_continues hremain hformat, Call.bind_apply] at h
  cases hskip : (e.readBasicId r).1.skipExtended ((e.readBasicId r).2, pool) with
  | ok e' s' =>
      simp only [hskip] at h
      exact Or.inl ((readPayload_err e' chunkSize s').of_err h)
  | err err' s' =>
      simp only [hskip] at h
      cases h
      obtain ⟨rfl, hending⟩ := skipExtended_err hskip
      exact Or.inr hending
  | panic p => simp [hskip] at h
  | diverge => simp [hskip] at h

/-- Unless the stream ends, what is left of an entry does not depend on what comes after. -/
theorem overwritten_more {e : ChunkStream} {chunkSize : Nat} {r : ReadWriter} {pool : Pool} {err : GoError}
    {s : ReadWriter × Pool} (h : e.readChunk chunkSize (r, pool) = .err err s) (hnone : s.1.readError = none)
    (hne : err ≠ s.1.ending) (q : Bytes) :
    e.overwritten chunkSize (r.more q, pool) = e.overwritten chunkSize (r, pool) := by
  have hnew : e.remain = 0 ∨ e.tmpFromat ≠ 3 := by
    by_contra hin
    rw [not_or, not_not] at hin
    exact (readChunk_inside hin.1 hin.2 h).elim (fun hsome => hsome hnone) hne
  rw [overwritten, overwritten, if_pos hnew, if_pos hnew]

end ChunkStream

open ChunkStream

namespace Conn

def more (q : Bytes) (conn : Conn) : Conn := { conn with rw := conn.rw.more q }

/-- The call has run into the end of the stream. -/
def RanOut {α : Type} : Outcome GoError Conn α → Prop
  | .err e conn => conn.rw.readError ≠ none ∨ e = conn.rw.ending
  | _ => False

instance {α : Type} : (o : Outcome GoError Conn α) → Decidable (RanOut o)
  | .err e conn => inferInstanceAs (Decidable (conn.rw.readError ≠ none ∨ e = conn.rw.ending))
  | .ok _ _ => inferInstanceAs (Decidable False)
  | .panic _ => inferInstanceAs (Decidable False)
  | .diverge => inferInstanceAs (Decidable False)

/-- `read` with what has arrived. It waits while that is not enough. -/
def readArrived (conn : Conn) : Option (Outcome GoError Conn ChunkStream) :=
  let o := read conn
  if RanOut o then none else some o

/-- What a call that has not run out does is what it does with more to come. -/
def Settled {α : Type} (x : Call GoError Conn α) (conn : Conn) : Prop :=
  match x conn with
  | .ok a conn' => ∀ q, x (conn.more q) = .ok a (conn'.more q)
  | .err e conn' => conn'.rw.readError = none → e ≠ conn'.rw.ending → ∀ q, x (conn.more q) = .err e (conn'.more q)
  | .panic _ => ∀ q, (x (conn.more q)).Panics
  | .diverge => False

theorem OpensOverlong.unread_ne_nil {conn : Conn} (h : OpensOverlong conn) : conn.rw.unread ≠ [] := by
  intro hnil
  obtain ⟨-, -, hover⟩ := h
  simp [nextHeader, hnil, announced, maxpoolsize] at hover

theorem OpensOverlong.more {conn : Conn} (h : OpensOverlong conn) (q : Bytes) : OpensOverlong (conn.more q) := by
  obtain ⟨b, rest, hu⟩ := List.exists_cons_of_ne_nil h.unread_ne_nil
  obtain ⟨hremain, hformat, hover⟩ := h
  have hbyte : (conn.more q).nextByte = conn.nextByte := by
    simp [nextByte, Conn.more, ReadWriter.more, hu]
  have hentry : (conn.more q).nextEntry = conn.nextEntry := by
    rw [nextEntry, hbyte]
    rfl
  have hlen : 6 ≤ conn.nextHeader.length := by
    have hlt := beNat_lt ((conn.nextHeader.drop 3).take 3)
    by_contra hshort
    have hpow : 256 ^ ((conn.nextHeader.drop 3).take 3).length ≤ 256 ^ 2 :=
      Nat.pow_le_pow_right (by decide) (by rw [List.length_take, List.length_drop]; omega)
    simp only [announced, maxpoolsize] at hover
    omega
  have hheader : (conn.more q).nextHeader = conn.nextHeader ++ q := by
    have hle : 1 + idLength (conn.nextByte &&& 0x3f) ≤ conn.rw.unread.length := by
      rw [nextHeader, List.length_drop] at hlen
      omega
    rw [nextHeader, hbyte]
    exact List.drop_append_of_le_length hle
  refine ⟨hentry ▸ hremain, hbyte ▸ hformat, ?_⟩
  rw [hheader, announced, List.drop_append_of_le_length (by omega),
    List.take_append_of_le_length (by rw [List.length_drop]; omega)]
  exact hover

theorem Inv.more {conn : Conn} (h : Inv conn) (he : conn.rw.readError = none) (q : Bytes) : Inv (conn.more q) :=
  ⟨fun hne => absurd he hne, h.entries, h.chunkSize_ne⟩

theorem readTurn_settled {conn : Conn} (h : Inv conn) : Settled (readTurn ()) conn := by
  obtain ⟨b, r, hbyte⟩ : ∃ b r, conn.rw.readUintBE 1 = (b, r) := ⟨_, _, rfl⟩
  have hfirst : r.readError = none → ∀ q, (conn.rw.more q).readUintBE 1 = (b, r.more q) := by
    intro hnone q
    have hmore := (readUintBE_local (n := 1) (by decide)).more conn.rw q
    rw [hbyte] at hmore
    exact hmore hnone
  unfold Settled
  cases hturn : readTurn () conn with
  | ok c conn' =>
      intro q
      simp only [readTurn, hbyte] at hturn
      split at hturn
      · rename_i cs s hchunk
        cases hturn
        obtain ⟨-, hnone⟩ := (readChunk_later _ _ _).of_ok hchunk
        obtain ⟨hlater, hmore⟩ := (readChunk_foreseen _ _ r conn.pool).of_ok hchunk
        simp only [readTurn, Conn.more, hfirst (hlater.sticky hnone) q, hmore hnone q]
      all_goals cases hturn
  | err e conn' =>
      intro hnone hne q
      simp only [readTurn, hbyte] at hturn
      split at hturn
      · cases hturn
      · rename_i s hchunk
        cases hturn
        obtain ⟨hlater, hmore⟩ := (readChunk_foreseen _ _ r conn.pool).of_err hchunk
        simp only [readTurn, Conn.more, hfirst (hlater.sticky hnone) q, hmore hnone hne q,
          overwritten_more hchunk hnone hne q]
      all_goals cases hturn
  | panic p =>
      intro q
      have hover : OpensOverlong conn := by
        have hsat := (readTurn_sat h).1
        rwa [hturn] at hsat
      have hnone : conn.rw.readError = none := by
        by_contra hne
        exact hover.unread_ne_nil (h.drained hne)
      exact (readTurn_sat (h.more hnone q)).2 (hover.more q)
  | diverge => exact absurd hturn (readTurn_sat h).1.ne_diverge

theorem handleControlMsg_more {c : ChunkStream} {conn conn' : Conn} (h : handleControlMsg c conn = .ok () conn')
    (q : Bytes) : handleControlMsg c (conn.more q) = .ok () (conn'.more q) := by
  unfold handleControlMsg at h ⊢
  split_ifs at h ⊢
  · cases hsize : uint32BE c.data with
    | none => simp [hsize] at h
    | some size =>
        simp only [hsize] at h
        cases h
        rfl
  · cases hsize : uint32BE c.data with
    | none => simp [hsize] at h
    | some size =>
        simp only [hsize] at h
        cases h
        rfl
  · cases h
    rfl

theorem acked_more (size : Nat) (conn : Conn) (q : Bytes) : (conn.more q).acked size = (conn.acked size).more q := by
  unfold acked
  dsimp only
  rw [apply_ite (Conn.more q)]
  rfl

theorem finish_settled {conn : Conn} (h : Inv conn) (hnone : conn.rw.readError = none) (c : ChunkStream) :
    Settled (finish c) conn := by
  obtain ⟨hsat, hpanics⟩ := finish_sat h c
  unfold Settled
  cases hfinish : finish c conn with
  | ok c' conn' =>
      intro q
      obtain ⟨_, conn1, hcontrol, hrest⟩ := Call.bind_eq_ok.mp hfinish
      have hsize : u32 conn1.chunkSize ≠ 0 := by
        have hc : ControlReadable c := by
          by_contra hnot
          exact (hpanics hnot).ne_ok hfinish
        obtain ⟨conn1', hcontrol', hsame⟩ := handleControlMsg_eq hc conn
        rw [hcontrol] at hcontrol'
        cases hcontrol'
        rw [hsame.chunkSize]
        exact h.chunkSize_ne
      rw [Call.bind_of_ok (ack_eq hsize _)] at hrest
      cases hrest
      rw [finish, Call.bind_of_ok (handleControlMsg_more hcontrol q), Call.bind_of_ok (ack_eq (by exact hsize) _),
        acked_more]
      rfl
  | err e conn' => exact (hsat.of_err hfinish).elim
  | panic p =>
      intro q
      exact (finish_sat (h.more hnone q) c).2 (hsat.of_panic hfinish)
  | diverge => exact absurd hfinish hsat.ne_diverge

theorem readTurn_readError {conn conn' : Conn} {r : Unit ⊕ ChunkStream} (h : readTurn () conn = .ok r conn') :
    conn'.rw.readError = none := by
  unfold readTurn at h
  dsimp only at h
  split at h
  · rename_i cs rw' pool' hchunk
    cases h
    exact ((readChunk_later _ _ _).of_ok hchunk).2
  all_goals cases h

/-- The bytes that have arrived settle what `read` does, unless it runs out of them. -/
theorem read_settled {conn : Conn} (h : Inv conn) : Settled read conn := by
  induction hn : conn.rw.unread.length using Nat.strong_induction_on generalizing conn with
  | _ n ih =>
      have hturn := readTurn_settled h
      have hsat := (readTurn_sat h).1
      unfold Settled at hturn ⊢
      rw [read_eq]
      simp only [read_eq (conn.more _)]
      cases hcase : readTurn () conn with
      | ok r conn' =>
          rw [hcase] at hturn
          have hinv := (hsat.of_ok hcase).1
          have hlt := readTurn_lt hcase
          simp only [hturn]
          cases r with
          | inl _ => exact ih _ (hn ▸ hlt) hinv rfl
          | inr c =>
              exact finish_settled hinv (readTurn_readError hcase) c
      | err e conn' =>
          rw [hcase] at hturn
          intro hnone hne q
          simp only [hturn hnone hne q]
      | panic p =>
          rw [hcase] at hturn
          intro q
          obtain ⟨p', hmore⟩ := Outcome.panics_iff.mp (hturn q)
          rw [hmore]
          trivial
      | diverge => exact absurd hcase hsat.ne_diverge

/-! ### Messages that arrive piece by piece -/

/-- The window of the peer's acknowledgements once it has sent the message. -/
def windowAfter (m : ChunkStream) (window : Nat) : Nat :=
  if m.typeID = idWindowAckSize then beNat (m.data.take 4) else window

/-- A message has been read, and it was no time for an acknowledgement. -/
structure TookIn (m : ChunkStream) (conn conn' : Conn) : Prop where
  chunkSize : conn'.chunkSize = conn.chunkSize
  remoteChunkSize : conn'.remoteChunkSize = sizeAfter m conn.remoteChunkSize
  remoteWindowAckSize : conn'.remoteWindowAckSize = windowAfter m conn.remoteWindowAckSize
  ackReceived : conn'.ackReceived = conn.ackReceived + m.length
  sent : conn'.rw.sent = conn.rw.sent
  buffered : conn'.rw.buffered = conn.rw.buffered

theorem handleControlMsg_received {c : ChunkStream} (hc : ControlReadable c) (conn : Conn) :
    handleControlMsg c conn = .ok ()
      { conn with remoteChunkSize := sizeAfter c conn.remoteChunkSize
                  remoteWindowAckSize := windowAfter c conn.remoteWindowAckSize } := by
  unfold handleControlMsg sizeAfter windowAfter
  by_cases h1 : c.typeID = idSetChunkSize
  · have h5 : c.typeID ≠ idWindowAckSize := by rw [h1]; decide
    rw [if_pos h1, if_pos h1, if_neg h5, uint32BE_of_le (hc (Or.inl h1))]
  · rw [if_neg h1, if_neg h1]
    by_cases h5 : c.typeID = idWindowAckSize
    · rw [if_pos h5, if_pos h5, uint32BE_of_le (hc (Or.inr h5))]
    · rw [if_neg h5, if_neg h5]

theorem acked_of_lt {conn : Conn} {size : Nat} (hsize : size < 2 ^ 32) (hwindow : conn.remoteWindowAckSize ≤ 2 ^ 32)
    (hlt : conn.ackReceived + size < conn.remoteWindowAckSize) :
    conn.acked size = { conn with
      received := if u32 (conn.received + size) ≥ 0xf0000000 then 0 else u32 (conn.received + size)
      ackReceived := conn.ackReceived + size } := by
  have hsize' : u32 size = size := u32_of_lt hsize
  have hack : u32 (conn.ackReceived + size) = conn.ackReceived + size := u32_of_lt (by omega)
  unfold acked
  simp only [hsize', hack]
  rw [if_neg (by omega)]

/-- An idle reader that is not due to acknowledge anything reads the next message, and writes nothing. -/
theorem Idle.read_received {m : ChunkStream} {conn : Conn} {rest : Bytes} (h : Idle conn) (hm : m.Sendable)
    (hc : ControlReadable m) (hsize : 0 < conn.remoteChunkSize)
    (hwindow : windowAfter m conn.remoteWindowAckSize ≤ 2 ^ 32)
    (hack : conn.ackReceived + m.length < windowAfter m conn.remoteWindowAckSize)
    (hu : conn.rw.unread = m.messageBytes conn.remoteChunkSize ++ rest) :
    ∃ c conn', read conn = .ok c conn' ∧ c.message = m.message ∧ Idle conn' ∧ conn'.rw.unread = rest ∧
      TookIn m conn conn' := by
  obtain ⟨c, conn', hread, hmessage, hidle, hrest, hremote⟩ := h.read_message hm hc hsize hu
  obtain ⟨e, pool, hr, hread'⟩ := read_messageBytes hm hsize h.readError (h.entries _) hu
  have hlen := hm.length_le
  simp only [maxpoolsize] at hlen
  have hmessage' := hr.message_eq hm
  have hwindow' : windowAfter e conn.remoteWindowAckSize = windowAfter m conn.remoteWindowAckSize := by
    simp only [message, Message.mk.injEq] at hmessage'
    rw [windowAfter, windowAfter, hmessage'.2.1, hmessage'.2.2.2.2.2]
  have hfinish : finish e (conn.turned rest pool (chunkKey m.csid) e) = _ :=
    (Call.bind_of_ok (handleControlMsg_received (controlReadable_congr hmessage' hc) _)).trans
      (Call.bind_of_ok (ack_eq (by exact h.inv.chunkSize_ne) e.length))
  rw [hfinish, hr.length, acked_of_lt (by omega) (hwindow' ▸ hwindow) (hwindow' ▸ hack)] at hread'
  have heq := hread.symm.trans hread'
  cases heq
  exact ⟨c, _, hread', hmessage, hidle, hrest, rfl, hremote, hwindow', rfl, rfl, rfl⟩

theorem Idle.more {conn : Conn} (h : Idle conn) (q : Bytes) : Idle (conn.more q) :=
  ⟨h.inv.more h.readError q, h.readError, h.entries⟩

theorem Idle.of_more {conn : Conn} {q : Bytes} (h : Idle (conn.more q)) : Idle conn :=
  ⟨⟨fun hne => absurd h.readError hne, h.inv.entries, h.inv.chunkSize_ne⟩, h.readError, h.entries⟩

/-- What `read` returns once all has arrived, it returns already unless it waits. -/
theorem Idle.readArrived_of_more {conn conn'' : Conn} {q : Bytes} {c : ChunkStream} (h : Idle conn)
    (hmore : read (conn.more q) = .ok c conn'') :
    readArrived conn = none ∨ ∃ conn', readArrived conn = some (.ok c conn') ∧ conn'.more q = conn'' := by
  unfold readArrived
  by_cases hout : RanOut (read conn)
  · exact Or.inl (if_pos hout)
  · apply Or.inr
    have hsettled := read_settled h.inv
    unfold Settled at hsettled
    simp only [if_neg hout]
    cases hread : read conn with
    | ok c' conn' =>
        rw [hread] at hsettled
        have heq := (hsettled q).symm.trans hmore
        cases heq
        exact ⟨conn', rfl, rfl⟩
    | err e conn' =>
        rw [hread] at hsettled hout
        have hnone : conn'.rw.readError = none := by
          by_contra hne
          exact hout (Or.inl hne)
        have heq := (hsettled hnone (fun he => hout (Or.inr he)) q).symm.trans hmore
        cases heq
    | panic p =>
        rw [hread] at hsettled
        exact absurd hmore (hsettled q).ne_ok
    | diverge =>
        rw [hread] at hsettled
        exact hsettled.elim

/-- While a message is arriving, a reader that is not due to acknowledge anything waits for all of it, and reads it. -/
theorem Idle.readArrived_message {m : ChunkStream} {conn : Conn} {q rest : Bytes} (h : Idle conn) (hm : m.Sendable)
    (hc : ControlReadable m) (hsize : 0 < conn.remoteChunkSize)
    (hwindow : windowAfter m conn.remoteWindowAckSize ≤ 2 ^ 32)
    (hack : conn.ackReceived + m.length < windowAfter m conn.remoteWindowAckSize)
    (hu : conn.rw.unread ++ q = m.messageBytes conn.remoteChunkSize ++ rest) :
    readArrived conn = none ∧ q ≠ [] ∨
      ∃ c conn', readArrived conn = some (.ok c conn') ∧ c.message = m.message ∧ Idle conn' ∧
        conn'.rw.unread ++ q = rest ∧ TookIn m conn conn' := by
  obtain ⟨c, conn'', hread, hmessage, hidle, hrest, hreceived⟩ := (h.more q).read_received hm hc hsize hwindow hack hu
  obtain hwaits | ⟨conn', harrived, hconn'⟩ := h.readArrived_of_more hread
  · refine Or.inl ⟨hwaits, ?_⟩
    rintro rfl
    rw [List.append_nil] at hu
    obtain ⟨c', conn', hnow, -⟩ := h.read_received hm hc hsize hwindow hack hu
    simp [readArrived, hnow, RanOut] at hwaits
  · subst hconn'
    exact Or.inr ⟨c, conn', harrived, hmessage, hidle.of_more, hrest,
      ⟨hreceived.chunkSize, hreceived.remoteChunkSize, hreceived.remoteWindowAckSize, hreceived.ackReceived,
        hreceived.sent, hreceived.buffered⟩⟩

/-- With nothing there a reader waits. -/
theorem Idle.readArrived_nil {conn : Conn} (h : Idle conn) (hu : conn.rw.unread = []) : readArrived conn = none := by
  have hbyte : conn.rw.readUintBE 1 = (0, conn.rw.exhaust conn.rw.ending) := by
    rw [readUintBE_eq (by decide), h.readError, hu]
    rfl
  have hsat := (readTurn_sat h.inv).1
  apply if_pos
  rw [read_eq]
  cases hturn : readTurn () conn with
  | ok r conn' =>
      have hlt := readTurn_lt hturn
      rw [hu] at hlt
      exact absurd hlt (Nat.not_lt_zero _)
  | err e conn' =>
      refine Or.inl fun hnone => ?_
      simp only [readTurn, hbyte] at hturn
      split at hturn
      · cases hturn
      · rename_i s hchunk
        cases hturn
        exact absurd (((readChunk_later _ _ _).of_err hchunk).sticky hnone) (by simp [exhaust])
      all_goals cases hturn
  | panic p => exact absurd hu (hsat.of_panic hturn).unread_ne_nil
  | diverge => exact absurd hturn hsat.ne_diverge

end Conn

end Livego
