import Livego.Basic

/-! The buffered connection: numbers and byte blocks over a stream that may end anywhere, with a
read error that sticks. -/

namespace Livego

open Endian

/-- A connection with its two buffers. `unread` is what the peer still sends and `ending` what the
connection answers once that is used up; `buffered` waits for a flush and `sent` is on its way. -/
structure ReadWriter where
  unread : Bytes
  ending : GoError := .eof
  readError : Option GoError := none
  sent : Bytes := []
  buffered : Bytes := []
  deriving DecidableEq, Repr

namespace ReadWriter

/-- The loop of `readUintBE`: `n` bytes are still to come and `ret` holds those read. -/
def readUintBEFrom : Nat → Nat → ReadWriter → Nat × ReadWriter
  | 0, ret, rw => (ret, rw)
  | n + 1, ret, rw =>
    match rw.unread with
    | [] => (0, { rw with readError := some rw.ending })
    | b :: rest => readUintBEFrom n (u32 ((ret <<< 8) + b.toNat)) { rw with unread := rest }

/-- A big-endian number of `n` bytes. Its callers drop the error: after a failed read they see 0. -/
def readUintBE (n : Nat) (rw : ReadWriter) : Nat × ReadWriter :=
  if rw.readError.isSome then (0, rw) else readUintBEFrom n 0 rw

def readUintLEFrom : Nat → Nat → Nat → ReadWriter → Nat × ReadWriter
  | 0, _, ret, rw => (ret, rw)
  | n + 1, i, ret, rw =>
    match rw.unread with
    | [] => (0, { rw with readError := some rw.ending })
    | b :: rest =>
      readUintLEFrom n (i + 1) (u32 (ret + u32 (b.toNat <<< (i * 8)))) { rw with unread := rest }

def readUintLE (n : Nat) (rw : ReadWriter) : Nat × ReadWriter :=
  if rw.readError.isSome then (0, rw) else readUintLEFrom n 0 0 rw

/-- `io.ReadAtLeast` of exactly `size` bytes; the error it ends with becomes the sticky one. -/
def read (size : Nat) (rw : ReadWriter) : Except GoError Bytes × ReadWriter :=
  match rw.readError with
  | some e => (.error e, rw)
  | none =>
    if size ≤ rw.unread.length then
      (.ok (rw.unread.take size), { rw with unread := rw.unread.drop size })
    else
      let e := if rw.unread ≠ [] ∧ rw.ending = .eof then .unexpectedEOF else rw.ending
      (.error e, { rw with unread := [], readError := some e })

/-- `bufio.Reader.Peek`: the sticky error is neither looked at nor set. -/
def peek (n : Nat) (rw : ReadWriter) : Except GoError Bytes :=
  if n ≤ rw.unread.length then .ok (rw.unread.take n) else .error rw.ending

def discard (n : Nat) (rw : ReadWriter) : ReadWriter := { rw with unread := rw.unread.drop n }

def write (p : Bytes) (rw : ReadWriter) : ReadWriter := { rw with buffered := rw.buffered ++ p }

def writeUintBE (v : Nat) : Nat → ReadWriter → ReadWriter
  | 0, rw => rw
  | n + 1, rw => writeUintBE v n (rw.write [UInt8.ofNat (v >>> (n <<< 3))])

def writeUintLE : Nat → Nat → ReadWriter → ReadWriter
  | _, 0, rw => rw
  | v, n + 1, rw => writeUintLE (v >>> 8) n (rw.write [UInt8.ofNat v])

def flush (rw : ReadWriter) : ReadWriter := { rw with sent := rw.sent ++ rw.buffered, buffered := [] }

/-- Everything written so far, flushed or not. -/
def output (rw : ReadWriter) : Bytes := rw.sent ++ rw.buffered

@[simp] theorem write_write (p q : Bytes) (rw : ReadWriter) :
    (rw.write p).write q = rw.write (p ++ q) := by
  simp [write]

theorem writeUintBE_eq (v n : Nat) (rw : ReadWriter) :
    writeUintBE v n rw = rw.write (beBytes n v) := by
  induction n generalizing rw with
  | zero => simp [writeUintBE, beBytes, write]
  | succ n ih =>
      have hshift : n <<< 3 = 8 * n := by rw [Nat.shiftLeft_eq]; omega
      rw [writeUintBE, ih, write_write, beBytes, hshift]
      rfl

theorem writeUintLE_eq (v n : Nat) (rw : ReadWriter) :
    writeUintLE v n rw = rw.write (leBytes n v) := by
  induction n generalizing v rw with
  | zero => simp [writeUintLE, leBytes, write]
  | succ n ih =>
      rw [writeUintLE, ih, write_write, leBytes]
      rfl

/-- The connection once it has delivered all but `rest`. -/
def advance (rw : ReadWriter) (rest : Bytes) : ReadWriter := { rw with unread := rest }

@[simp] theorem advance_unread (rw : ReadWriter) (rest : Bytes) : (rw.advance rest).unread = rest := rfl
@[simp] theorem advance_readError (rw : ReadWriter) (rest : Bytes) :
    (rw.advance rest).readError = rw.readError := rfl
@[simp] theorem advance_advance (rw : ReadWriter) (rest rest' : Bytes) :
    (rw.advance rest).advance rest' = rw.advance rest' := rfl

@[simp] theorem advance_sent (rw : ReadWriter) (rest : Bytes) : (rw.advance rest).sent = rw.sent := rfl
@[simp] theorem advance_buffered (rw : ReadWriter) (rest : Bytes) :
    (rw.advance rest).buffered = rw.buffered := rfl
@[simp] theorem advance_ending (rw : ReadWriter) (rest : Bytes) :
    (rw.advance rest).ending = rw.ending := rfl

/-- The connection after a read that the stream could not serve. -/
def exhaust (rw : ReadWriter) (e : GoError) : ReadWriter :=
  { rw with unread := [], readError := some e }

theorem readUintBEFrom_eq (n ret : Nat) (rw : ReadWriter) (hret : ret * 256 ^ n + 256 ^ n ≤ 2 ^ 32) :
    readUintBEFrom n ret rw =
      if n ≤ rw.unread.length then
        (ret * 256 ^ n + beNat (rw.unread.take n), rw.advance (rw.unread.drop n))
      else (0, rw.exhaust rw.ending) := by
  induction n generalizing ret rw with
  | zero => simp [readUintBEFrom, advance]
  | succ n ih =>
      rw [readUintBEFrom]
      cases hu : rw.unread with
      | nil => simp [exhaust]
      | cons b rest =>
          have hb : b.toNat < 256 := b.toNat_lt
          have hpow : 256 ^ (n + 1) = 256 ^ n * 256 := pow_succ 256 n
          have hpos : 0 < 256 ^ n := Nat.pow_pos (by decide)
          have hshift : ret <<< 8 = ret * 256 := Nat.shiftLeft_eq ret 8
          have hle : (ret * 256 + b.toNat) * 256 ^ n + 256 ^ n ≤ 2 ^ 32 := by
            calc (ret * 256 + b.toNat) * 256 ^ n + 256 ^ n
                = ret * 256 ^ (n + 1) + (b.toNat + 1) * 256 ^ n := by rw [hpow]; ring
              _ ≤ ret * 256 ^ (n + 1) + 256 * 256 ^ n :=
                  Nat.add_le_add_left (Nat.mul_le_mul_right _ hb) _
              _ = ret * 256 ^ (n + 1) + 256 ^ (n + 1) := by rw [hpow]; ring
              _ ≤ 2 ^ 32 := hret
          have hsmall : ret * 256 + b.toNat < 2 ^ 32 := by
            have : (ret * 256 + b.toNat) * 1 ≤ (ret * 256 + b.toNat) * 256 ^ n :=
              Nat.mul_le_mul_left _ hpos
            omega
          simp only [hshift, u32_of_lt hsmall, ih _ _ hle, List.length_cons,
            Nat.add_le_add_iff_right, List.take_succ_cons, List.drop_succ_cons, beNat_cons]
          split_ifs with hlen
          · have htake : (rest.take n).length = n := by simp [hlen]
            rw [htake, hpow]
            congr 1
            ring
          · rfl

/-- A big-endian number is read whole, or the stream ends in it and 0 is read. -/
theorem readUintBE_eq {n : Nat} (hn : n ≤ 4) (rw : ReadWriter) :
    rw.readUintBE n =
      if rw.readError.isSome then (0, rw)
      else if n ≤ rw.unread.length then (beNat (rw.unread.take n), rw.advance (rw.unread.drop n))
      else (0, rw.exhaust rw.ending) := by
  have hpow : 256 ^ n ≤ 2 ^ 32 := (Nat.pow_le_pow_right (by decide) hn).trans (by decide)
  rw [readUintBE, readUintBEFrom_eq n 0 rw (by omega)]
  simp

theorem readUintLEFrom_eq (n i ret : Nat) (rw : ReadWriter) (hi : n + i ≤ 4)
    (hret : ret < 256 ^ i) :
    readUintLEFrom n i ret rw =
      if n ≤ rw.unread.length then
        (ret + leNat (rw.unread.take n) * 256 ^ i, rw.advance (rw.unread.drop n))
      else (0, rw.exhaust rw.ending) := by
  induction n generalizing i ret rw with
  | zero => simp [readUintLEFrom, advance]
  | succ n ih =>
      rw [readUintLEFrom]
      cases hu : rw.unread with
      | nil => simp [exhaust]
      | cons b rest =>
          have hb : b.toNat < 256 := b.toNat_lt
          have hpow : 256 ^ (i + 1) = 256 * 256 ^ i := pow_succ' 256 i
          have hbound : 256 ^ (i + 1) ≤ 2 ^ 32 :=
            (Nat.pow_le_pow_right (by decide) (by omega : i + 1 ≤ 4)).trans (by decide)
          have hshift : b.toNat <<< (i * 8) = b.toNat * 256 ^ i := by
            rw [Nat.shiftLeft_eq, Nat.mul_comm i 8, pow_mul]
            rfl
          have hdigit : b.toNat * 256 ^ i ≤ 255 * 256 ^ i := Nat.mul_le_mul_right _ (by omega)
          have hnext : ret + b.toNat * 256 ^ i < 256 ^ (i + 1) := by omega
          have hword : u32 (ret + u32 (b.toNat <<< (i * 8))) = ret + b.toNat * 256 ^ i := by
            rw [hshift, u32_of_lt (n := b.toNat * 256 ^ i) (by omega), u32_of_lt (by omega)]
          simp only [hword, ih (i + 1) _ _ (by omega) hnext, List.length_cons,
            Nat.add_le_add_iff_right, List.take_succ_cons, List.drop_succ_cons, leNat]
          split_ifs with hlen
          · rw [pow_succ]
            congr 1
            ring
          · rfl

theorem readUintLE_eq {n : Nat} (hn : n ≤ 4) (rw : ReadWriter) :
    rw.readUintLE n =
      if rw.readError.isSome then (0, rw)
      else if n ≤ rw.unread.length then (leNat (rw.unread.take n), rw.advance (rw.unread.drop n))
      else (0, rw.exhaust rw.ending) := by
  rw [readUintLE, readUintLEFrom_eq n 0 0 rw (by omega) (by decide)]
  simp

/-- A reader of numbers of `n` bytes. -/
def ReadsNumber (n : Nat) (number : Bytes → Nat) (f : ReadWriter → Nat × ReadWriter) : Prop :=
  ∀ rw, f rw =
    if rw.readError.isSome then (0, rw)
    else if n ≤ rw.unread.length then (number (rw.unread.take n), rw.advance (rw.unread.drop n))
    else (0, rw.exhaust rw.ending)

theorem readUintBE_number {n : Nat} (hn : n ≤ 4) : ReadsNumber n beNat (readUintBE n) := readUintBE_eq hn

theorem readUintLE_number {n : Nat} (hn : n ≤ 4) : ReadsNumber n leNat (readUintLE n) := readUintLE_eq hn

/-- A number that was written big-endian is read back, and exactly its bytes are consumed. -/
theorem readUintBE_beBytes {n v : Nat} {rw : ReadWriter} {rest : Bytes} (hn : n ≤ 4)
    (hv : v < 256 ^ n) (he : rw.readError = none) (hu : rw.unread = beBytes n v ++ rest) :
    rw.readUintBE n = (v, rw.advance rest) := by
  rw [readUintBE_eq hn, hu]
  simp [he, beNat_beBytes_of_lt hv]

theorem readUintBE_advance {n v : Nat} {rw : ReadWriter} {rest : Bytes} (hn : n ≤ 4)
    (hv : v < 256 ^ n) (he : rw.readError = none) :
    (rw.advance (beBytes n v ++ rest)).readUintBE n = (v, rw.advance rest) :=
  readUintBE_beBytes hn hv he rfl

theorem readUintLE_leBytes {n v : Nat} {rw : ReadWriter} {rest : Bytes} (hn : n ≤ 4)
    (hv : v < 256 ^ n) (he : rw.readError = none) (hu : rw.unread = leBytes n v ++ rest) :
    rw.readUintLE n = (v, rw.advance rest) := by
  rw [readUintLE_eq hn, hu]
  simp [he, leNat_leBytes_of_lt hv]

theorem readUintLE_advance {n v : Nat} {rw : ReadWriter} {rest : Bytes} (hn : n ≤ 4)
    (hv : v < 256 ^ n) (he : rw.readError = none) :
    (rw.advance (leBytes n v ++ rest)).readUintLE n = (v, rw.advance rest) :=
  readUintLE_leBytes hn hv he rfl

theorem read_append {bs rest : Bytes} {rw : ReadWriter} (he : rw.readError = none)
    (hu : rw.unread = bs ++ rest) : rw.read bs.length = (.ok bs, rw.advance rest) := by
  simp [read, he, hu, advance]

/-! ### Reading on any stream -/

/-- After a failed read nothing is left of the stream. -/
def Drained (rw : ReadWriter) : Prop := rw.readError ≠ none → rw.unread = []

/-- What reads do to a connection: they take bytes from the front of the stream, and an error stays and uses it up. -/
structure Later (rw rw' : ReadWriter) : Prop where
  suffix : rw'.unread <:+ rw.unread
  sticky : rw'.readError = none → rw.readError = none
  drained : rw.Drained → rw'.Drained

theorem Later.length_le {rw rw' : ReadWriter} (h : Later rw rw') : rw'.unread.length ≤ rw.unread.length :=
  h.suffix.length_le

theorem Later.refl (rw : ReadWriter) : Later rw rw := ⟨List.suffix_refl _, id, id⟩

theorem Later.trans {rw rw' rw'' : ReadWriter} (h : Later rw rw') (h' : Later rw' rw'') : Later rw rw'' :=
  ⟨h'.suffix.trans h.suffix, fun he => h.sticky (h'.sticky he), fun hd => h'.drained (h.drained hd)⟩

theorem later_advance {rw : ReadWriter} {rest : Bytes} (hrest : rest <:+ rw.unread)
    (he : rw.readError = none) : Later rw (rw.advance rest) :=
  ⟨hrest, id, fun _ hne => absurd he hne⟩

theorem later_exhaust (rw : ReadWriter) (e : GoError) : Later rw (rw.exhaust e) :=
  ⟨List.nil_suffix, fun he => absurd he (by simp [exhaust]), fun _ _ => rfl⟩

theorem ReadsNumber.later {n : Nat} {number : Bytes → Nat} {f : ReadWriter → Nat × ReadWriter}
    (h : ReadsNumber n number f) (rw : ReadWriter) : Later rw (f rw).2 := by
  rw [h rw]
  split_ifs with h1 h2
  · exact .refl rw
  · exact later_advance (List.drop_suffix _ _) (by simpa using h1)
  · exact later_exhaust rw _

theorem readUintBE_later {n : Nat} (hn : n ≤ 4) (rw : ReadWriter) : Later rw (rw.readUintBE n).2 :=
  (readUintBE_number hn).later rw

theorem readUintLE_later {n : Nat} (hn : n ≤ 4) (rw : ReadWriter) : Later rw (rw.readUintLE n).2 :=
  (readUintLE_number hn).later rw

theorem Drained.eq_nil {rw : ReadWriter} (hd : rw.Drained) (he : rw.readError.isSome = true) :
    rw.unread = [] :=
  hd (Option.isSome_iff_ne_none.mp he)

/-- Whether or not it is there, a number moves the stream on by its width. -/
theorem ReadsNumber.unread {n : Nat} {number : Bytes → Nat} {f : ReadWriter → Nat × ReadWriter}
    (h : ReadsNumber n number f) {rw : ReadWriter} (hd : rw.Drained) : (f rw).2.unread = rw.unread.drop n := by
  rw [h rw]
  split_ifs with h1 h2
  · simp [hd.eq_nil h1]
  · rfl
  · exact (List.drop_eq_nil_of_le (by omega)).symm

theorem readUintBE_unread {n : Nat} (hn : n ≤ 4) {rw : ReadWriter} (hd : rw.Drained) :
    (rw.readUintBE n).2.unread = rw.unread.drop n :=
  (readUintBE_number hn).unread hd

theorem readUintBE_value {n : Nat} (hn : n ≤ 4) {rw : ReadWriter} (hd : rw.Drained) :
    (rw.readUintBE n).1 = if n ≤ rw.unread.length then beNat (rw.unread.take n) else 0 := by
  rw [readUintBE_eq hn]
  split_ifs with h1 h2
  · have hn0 : n = 0 := by simpa [hd.eq_nil h1] using h2
    simp [hn0]
  · rfl
  · rfl
  · rfl

/-- A number that was read without error consumed a byte. -/
theorem readUintBE_lt {n : Nat} (hn : n ≤ 4) (hpos : 0 < n) {rw : ReadWriter}
    (he : (rw.readUintBE n).2.readError = none) :
    (rw.readUintBE n).2.unread.length < rw.unread.length := by
  have hnone := (readUintBE_later hn rw).sticky he
  rw [readUintBE_eq hn, hnone] at he ⊢
  by_cases h : n ≤ rw.unread.length
  · simp only [Option.isSome_none, Bool.false_eq_true, if_false, if_pos h, advance_unread, List.length_drop]
    omega
  · simp [h, exhaust] at he

/-- A read of a block fails, or it takes exactly the block. -/
theorem read_cases (size : Nat) (rw : ReadWriter) :
    (∃ e rw', rw.read size = (.error e, rw') ∧ Later rw rw') ∨
      (rw.readError = none ∧ size ≤ rw.unread.length ∧
        rw.read size = (.ok (rw.unread.take size), rw.advance (rw.unread.drop size))) := by
  unfold read
  cases he : rw.readError with
  | some e => exact Or.inl ⟨e, rw, rfl, .refl rw⟩
  | none =>
      by_cases h : size ≤ rw.unread.length
      · exact Or.inr ⟨rfl, h, by simp [h, advance, he]⟩
      · refine Or.inl ⟨_, _, by rw [if_neg h], ?_⟩
        exact ⟨List.nil_suffix, fun hnone => absurd hnone (by simp), fun _ _ => rfl⟩

end ReadWriter

end Livego
