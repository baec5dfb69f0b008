import Livego.Basic
import Livego.Endian
import Livego.SelfDigest
import Livego.Slices

/-! The complex handshake of RTMP: the digests that the server puts into its blocks, and how they are found again. What is
computed of a key and a message is any function with results of 32 bytes. -/

namespace Livego

open Fallible Call
open SelfDigest (window around overwrite)

namespace Rtmp

namespace Handshake

/-- What `hmac.New(sha256.New, key)` sums up to. -/
abbrev Digest : Type := { d : Bytes // d.length = 32 }

/-- A block of `n` bytes. -/
abbrev Block (n : Nat) : Type := { p : Bytes // p.length = n }

def hsFullKeyTail : Bytes :=
  [0xf0, 0xee, 0xc2, 0x4a, 0x80, 0x68, 0xbe, 0xe8, 0x2e, 0x00, 0xd0, 0xd1, 0x02, 0x9e, 0x7e, 0x57, 0x6e, 0xec, 0x5d, 0x2d,
    0x29, 0x80, 0x6f, 0xab, 0x93, 0xb8, 0xe6, 0x36, 0xcf, 0xeb, 0x31, 0xae]

def ascii (text : String) : Bytes := text.toList.map fun c => UInt8.ofNat c.toNat

def hsClientFullKey : Bytes := ascii "Genuine Adobe Flash Player 001" ++ hsFullKeyTail
def hsServerFullKey : Bytes := ascii "Genuine Adobe Flash Media Server 001" ++ hsFullKeyTail
def hsClientPartialKey : Bytes := hsClientFullKey.take 30
def hsServerPartialKey : Bytes := hsServerFullKey.take 36

variable {ε σ : Type}

section
variable (hmac : Bytes → Bytes → Digest)

def hsMakeDigest (key src : Bytes) (gap : Int) : Call ε σ Bytes :=
  if gap ≤ 0 then pure (hmac key src).1
  else do
    let front ← slice src 0 gap.toNat
    let back ← sliceFrom src (gap.toNat + 32)
    pure (hmac key (front ++ back)).1

def hsCalcDigestPos (p : Bytes) (base : Nat) : Call ε σ Nat := do
  let pos ← [0, 1, 2, 3].foldlM (fun pos i => do
    let b ← readAt p (base + i)
    pure (pos + b.toNat)) 0
  pure (pos % 728 + base + 4)

def hsFindDigest (p key : Bytes) (base : Nat) : Call ε σ Int := do
  let gap ← hsCalcDigestPos p base
  let digest ← hsMakeDigest hmac key p gap
  let found ← slice p gap (gap + 32)
  pure (if found ≠ digest then -1 else gap)

/-- No digest, which is nil, is the empty one. -/
def hsParse1 (p peerkey key : Bytes) : Call ε σ (Bool × Bytes) := do
  let pos ← hsFindDigest hmac p peerkey 772
  let pos ← if pos = -1 then hsFindDigest hmac p peerkey 8 else pure pos
  if pos = -1 then pure (false, [])
  else
    let found ← slice p pos.toNat (pos.toNat + 32)
    let digest ← hsMakeDigest hmac key found (-1)
    pure (true, digest)

/-- `rand.Read` of `n` bytes. -/
def randRead (random : Nat → UInt8) (n : Nat) : Bytes := (List.range n).map random

/-- `pio.PutU32BE(p[i:i+4], v)`. -/
def putU32BE (p : Bytes) (i : Nat) (v : UInt32) : Call ε σ Bytes := do
  let _ ← slice p i (i + 4)
  copyTo p i (Endian.beBytes 4 v.toNat)

/-- The result is what becomes of `p`. -/
def hsCreate01 (random : Nat → UInt8) (p : Bytes) (time ver : UInt32) (key : Bytes) : Call ε σ Bytes := do
  let p ← setAt p 0 3
  let p1 ← sliceFrom p 1
  let rest ← sliceFrom p1 8
  let p1 ← copyTo p1 8 (randRead random rest.length)
  let p1 ← putU32BE p1 0 time
  let p1 ← putU32BE p1 4 ver
  let gap ← hsCalcDigestPos p1 8
  let digest ← hsMakeDigest hmac key p1 gap
  let p1 ← copyTo p1 gap digest
  copyTo p 1 p1

/-- The result is what becomes of `p`. -/
def hsCreate2 (random : Nat → UInt8) (p key : Bytes) : Call ε σ Bytes := do
  let p := randRead random p.length
  let gap : Int := p.length - 32
  let digest ← hsMakeDigest hmac key p gap
  if gap < 0 then panic .sliceBounds else copyTo p gap.toNat digest

end

section
variable (hmac : Bytes → Bytes → Digest)

/-- `pio.U32BE(p[i:i+4])`. -/
def u32BE (p : Bytes) (i : Nat) : Call ε σ UInt32 := do
  let bs ← slice p i (i + 4)
  pure (UInt32.ofNat (Endian.beNat bs))

/-- `HandshakeServer` from C0 and C1, which were read, to S0, S1 and S2, which are written. Nothing was read into C2 yet. -/
def handshakeServer (random random' : Nat → UInt8) (C0C1 : Bytes) : Call GoError σ Bytes := do
  let version ← readAt C0C1 0
  if version ≠ 3 then fail (.errorf s!"rtmp: handshake version={version.toNat} invalid")
  else
    let C1 ← sliceFrom C0C1 1
    let clitime ← u32BE C1 0
    let cliver ← u32BE C1 4
    if cliver ≠ 0 then do
      let (ok, digest) ← hsParse1 hmac C1 hsClientPartialKey hsServerFullKey
      if ok = false then fail (.errorf "rtmp: handshake server: C1 invalid")
      else
        let S0S1 ← hsCreate01 hmac random (List.replicate 1537 0) clitime 0x0d0e0a0d hsServerPartialKey
        let S2 ← hsCreate2 hmac random' (List.replicate 1536 0) digest
        pure (S0S1 ++ S2)
    else pure (3 :: List.replicate 1536 0 ++ C1)

end

/-! ### The digest of a block -/

/-- Where the digest of a block is. -/
def digestPos (base : Nat) (p : Bytes) : Nat := ((window p base 4).map UInt8.toNat).sum % 728 + base + 4

theorem le_digestPos (base : Nat) (p : Bytes) : base + 4 ≤ digestPos base p ∧ digestPos base p ≤ base + 731 := by
  have hlt : ((window p base 4).map UInt8.toNat).sum % 728 < 728 := Nat.mod_lt _ (by decide)
  unfold digestPos
  omega

variable {p key : Bytes} {base : Nat}

theorem hsCalcDigestPos_of_le (h : base + 4 ≤ p.length) :
    (hsCalcDigestPos p base : Call ε σ Nat) = pure (digestPos base p) := by
  have h0 : (readAt p (base + 0) : Call ε σ UInt8) = pure p[base] := readAt_of_lt (by omega)
  have h1 : (readAt p (base + 1) : Call ε σ UInt8) = pure p[base + 1] := readAt_of_lt (by omega)
  have h2 : (readAt p (base + 2) : Call ε σ UInt8) = pure p[base + 2] := readAt_of_lt (by omega)
  have h3 : (readAt p (base + 3) : Call ε σ UInt8) = pure p[base + 3] := readAt_of_lt (by omega)
  have hwindow : window p base 4 = [p[base], p[base + 1], p[base + 2], p[base + 3]] := by
    rw [window, List.drop_eq_getElem_cons (by omega), List.take_succ_cons, List.drop_eq_getElem_cons (by omega),
      List.take_succ_cons, List.drop_eq_getElem_cons (by omega), List.take_succ_cons,
      List.drop_eq_getElem_cons (by omega), List.take_succ_cons, List.take_zero]
  rw [hsCalcDigestPos]
  simp only [List.foldlM_cons, List.foldlM_nil, h0, h1, h2, h3, Call.pure_bind]
  rw [digestPos, hwindow]
  simp [Nat.add_assoc]

variable (hmac : Bytes → Bytes → Digest)

/-- A digest behind the four bytes that tell where it is. -/
def scheme (key : Bytes) (base : Nat) : SelfDigest.Scheme UInt8 where
  size := 32
  place := digestPos base
  digest := fun src => (hmac key src).1
  digest_length := fun src => (hmac key src).2

/-- The digest does not come over the bytes that tell where it is. -/
theorem digestPos_put (h : base + 763 ≤ p.length) :
    digestPos base ((scheme hmac key base).put p) = digestPos base p := by
  obtain ⟨hlow, hhigh⟩ := le_digestPos base p
  have hplace : digestPos base p ≤ p.length := by omega
  have hwindow : window ((scheme hmac key base).put p) base 4 = window p base 4 :=
    SelfDigest.window_overwrite_of_le hlow hplace
  rw [digestPos, hwindow, digestPos]

theorem verifies_put (h : base + 763 ≤ p.length) :
    (scheme hmac key base).Verifies ((scheme hmac key base).put p) := by
  obtain ⟨-, hhigh⟩ := le_digestPos base p
  have hplace : digestPos base p ≤ p.length := by omega
  exact SelfDigest.Scheme.verifies_put hplace (digestPos_put hmac h)

/-! ### What is computed of a block -/

theorem hsMakeDigest_of_le {gap : Nat} (hpos : 0 < gap) (h : gap + 32 ≤ p.length) :
    (hsMakeDigest hmac key p gap : Call ε σ Bytes) = pure (hmac key (around p gap 32)).1 := by
  have hfront : (slice p 0 gap : Call ε σ Bytes) = pure (p.take gap) := slice_of_le (Nat.zero_le gap) (by omega)
  have hback : (sliceFrom p (gap + 32) : Call ε σ Bytes) = pure (p.drop (gap + 32)) := sliceFrom_of_le h
  rw [hsMakeDigest, if_neg (by omega), Int.toNat_natCast, hfront, hback]
  rfl

theorem slice_window {i n : Nat} (h : i + n ≤ p.length) :
    (slice p i (i + n) : Call ε σ Bytes) = pure (window p i n) := by
  rw [slice_of_le (Nat.le_add_right i n) h, Nat.add_sub_cancel_left]
  rfl

theorem hsFindDigest_of_le (h : base + 763 ≤ p.length) :
    (hsFindDigest hmac p key base : Call ε σ Int) =
      pure (if (scheme hmac key base).Verifies p then (digestPos base p : Int) else -1) := by
  obtain ⟨hlow, hhigh⟩ := le_digestPos base p
  rw [hsFindDigest, hsCalcDigestPos_of_le (by omega), Call.pure_bind, hsMakeDigest_of_le hmac (by omega) (by omega),
    Call.pure_bind, slice_window (by omega), Call.pure_bind]
  by_cases hverifies : (scheme hmac key base).Verifies p
  · have heq : window p (digestPos base p) 32 = (hmac key (around p (digestPos base p) 32)).1 := hverifies
    rw [if_neg (not_not.mpr heq), if_pos hverifies]
  · have hne : window p (digestPos base p) 32 ≠ (hmac key (around p (digestPos base p) 32)).1 := hverifies
    rw [if_pos hne, if_neg hverifies]

/-- The digest of the digest that was found. -/
def answerDigest (key : Bytes) (base : Nat) (p : Bytes) : Bytes := (hmac key (window p (digestPos base p) 32)).1

/-- Both places are inside a block. -/
theorem hsParse1_of_block (p : Block 1536) (peerkey key : Bytes) :
    (hsParse1 hmac p.1 peerkey key : Call ε σ (Bool × Bytes)) =
      pure (if (scheme hmac peerkey 772).Verifies p.1 then (true, answerDigest hmac key 772 p.1)
        else if (scheme hmac peerkey 8).Verifies p.1 then (true, answerDigest hmac key 8 p.1)
        else (false, [])) := by
  have hlength := p.2
  have hfound : ∀ base, base + 763 ≤ 1536 → (do
      let found ← slice p.1 (digestPos base p.1 : Int).toNat ((digestPos base p.1 : Int).toNat + 32)
      let digest ← hsMakeDigest hmac key found (-1)
      pure (true, digest) : Call ε σ (Bool × Bytes)) = pure (true, answerDigest hmac key base p.1) := by
    intro base hbase
    obtain ⟨-, hhigh⟩ := le_digestPos base p.1
    rw [Int.toNat_natCast, slice_window (by omega)]
    rfl
  have hsome : ∀ base, (digestPos base p.1 : Int) ≠ -1 := fun base => by omega
  rw [hsParse1, hsFindDigest_of_le hmac (by omega), Call.pure_bind]
  by_cases hfar : (scheme hmac peerkey 772).Verifies p.1
  · simp only [if_pos hfar, if_neg (hsome 772), Call.pure_bind]
    exact hfound 772 (by decide)
  · rw [if_neg hfar, if_pos rfl, if_neg hfar, hsFindDigest_of_le hmac (by omega), Call.pure_bind]
    by_cases hnear : (scheme hmac peerkey 8).Verifies p.1
    · simp only [if_pos hnear, if_neg (hsome 8)]
      exact hfound 8 (by decide)
    · rw [if_neg hnear, if_neg hnear]
      rfl

/-! ### What the server makes -/

theorem length_randRead (random : Nat → UInt8) (n : Nat) : (randRead random n).length = n := by
  rw [randRead, List.length_map, List.length_range]

theorem putU32BE_of_le {i : Nat} (v : UInt32) (h : i + 4 ≤ p.length) :
    (putU32BE p i v : Call ε σ Bytes) = pure (overwrite p i (Endian.beBytes 4 v.toNat)) := by
  have hlength : (Endian.beBytes 4 v.toNat).length = 4 := Endian.beBytes_length 4 v.toNat
  rw [putU32BE, slice_window h, Call.pure_bind, copyTo_of_le (by omega)]
  rfl

/-- Time, version and random bytes, of which S1 is made. -/
def unsigned (random : Nat → UInt8) (time ver : UInt32) : Bytes :=
  Endian.beBytes 4 time.toNat ++ Endian.beBytes 4 ver.toNat ++ randRead random 1528

theorem length_unsigned (random : Nat → UInt8) (time ver : UInt32) : (unsigned random time ver).length = 1536 := by
  rw [unsigned, List.length_append, List.length_append, Endian.beBytes_length, Endian.beBytes_length, length_randRead]

theorem length_signed (random : Nat → UInt8) (time ver : UInt32) (key : Bytes) :
    ((scheme hmac key 8).put (unsigned random time ver)).length = 1536 := by
  have hunsigned := length_unsigned random time ver
  obtain ⟨-, hhigh⟩ := le_digestPos 8 (unsigned random time ver)
  have hfits : digestPos 8 (unsigned random time ver) + 32 ≤ (unsigned random time ver).length := by omega
  rw [SelfDigest.Scheme.length_put hfits, hunsigned]

/-- Random bytes behind the first eight of what was there, and time and version over these. -/
theorem unsigned_eq (random : Nat → UInt8) (time ver : UInt32) (front : Block 8) :
    overwrite (overwrite (front.1 ++ randRead random 1528) 0 (Endian.beBytes 4 time.toNat)) 4
      (Endian.beBytes 4 ver.toNat) = unsigned random time ver := by
  have htime : (Endian.beBytes 4 time.toNat).length = 4 := Endian.beBytes_length 4 time.toNat
  have hver : (Endian.beBytes 4 ver.toNat).length = 4 := Endian.beBytes_length 4 ver.toNat
  have hfront := front.2
  have hfirst : overwrite (front.1 ++ randRead random 1528) 0 (Endian.beBytes 4 time.toNat) =
      Endian.beBytes 4 time.toNat ++ (front.1.drop 4 ++ randRead random 1528) := by
    rw [overwrite, htime, List.take_zero, List.nil_append, List.drop_append_of_le_length (by omega)]
  have hback : (Endian.beBytes 4 time.toNat ++ front.1.drop 4).length = 8 := by
    rw [List.length_append, List.length_drop, htime, hfront]
  rw [hfirst, overwrite, hver, List.take_left' htime, ← List.append_assoc _ (front.1.drop 4), List.drop_left' hback,
    unsigned]

/-- S0 and S1. -/
theorem hsCreate01_of_block (random : Nat → UInt8) (p : Block 1537) (time ver : UInt32) (key : Bytes) :
    (hsCreate01 hmac random p.1 time ver key : Call ε σ Bytes) =
      pure (3 :: (scheme hmac key 8).put (unsigned random time ver)) := by
  obtain ⟨p, hlength⟩ := p
  obtain ⟨b, p1, rfl⟩ := List.exists_cons_of_length_eq_add_one hlength
  have hp1 : p1.length = 1536 := Nat.succ.inj hlength
  have hunsigned := length_unsigned random time ver
  have hset : (setAt (b :: p1) 0 3 : Call ε σ Bytes) = pure (3 :: p1) := setAt_of_lt 3 (Nat.succ_pos p1.length)
  have hrest : (sliceFrom (3 :: p1) 1 : Call ε σ Bytes) = pure p1 := sliceFrom_of_le (by simp)
  have hrandom : (copyTo p1 8 (randRead random 1528) : Call ε σ Bytes) = pure (p1.take 8 ++ randRead random 1528) := by
    rw [copyTo_of_le (by rw [length_randRead, hp1]), List.drop_of_length_le (by rw [length_randRead, hp1]),
      List.append_nil]
  have hfront : (p1.take 8).length = 8 := List.length_take_of_le (by omega)
  have hfilled : (p1.take 8 ++ randRead random 1528).length = 1536 := by
    rw [List.length_append, hfront, length_randRead]
  have htimed : (overwrite (p1.take 8 ++ randRead random 1528) 0 (Endian.beBytes 4 time.toNat)).length = 1536 := by
    rw [SelfDigest.length_overwrite (by rw [Endian.beBytes_length]; omega), hfilled]
  obtain ⟨hlow, hhigh⟩ := le_digestPos 8 (unsigned random time ver)
  have hput := length_signed hmac random time ver key
  have hdigest : (hmac key (around (unsigned random time ver) (digestPos 8 (unsigned random time ver)) 32)).1.length = 32 :=
    (hmac key _).2
  rw [hsCreate01, hset, Call.pure_bind, hrest, Call.pure_bind, sliceFrom_of_le (by omega), Call.pure_bind,
    List.length_drop, hp1, hrandom, Call.pure_bind, putU32BE_of_le time (by omega), Call.pure_bind,
    putU32BE_of_le ver (by omega), Call.pure_bind, unsigned_eq random time ver ⟨p1.take 8, hfront⟩,
    hsCalcDigestPos_of_le (by omega), Call.pure_bind, hsMakeDigest_of_le hmac (by omega) (by omega), Call.pure_bind,
    copyTo_of_le (by omega), Call.pure_bind]
  show copyTo (3 :: p1) 1 ((scheme hmac key 8).put (unsigned random time ver)) = _
  rw [copyTo_of_le (by rw [hput, List.length_cons, hp1]), List.drop_of_length_le (by rw [hput, List.length_cons, hp1]),
    List.append_nil]
  rfl

/-- The last 32 bytes are the digest of those before them. -/
theorem hsCreate2_of_block (random : Nat → UInt8) (p : Block 1536) (key : Bytes) :
    (hsCreate2 hmac random p.1 key : Call ε σ Bytes) =
      pure (randRead random 1504 ++ (hmac key (randRead random 1504)).1) := by
  have hlength := length_randRead random 1536
  have htake : (randRead random 1536).take 1504 = randRead random 1504 := by
    rw [randRead, randRead, ← List.map_take, List.take_range]
    rfl
  have haround : around (randRead random 1536) 1504 32 = randRead random 1504 := by
    rw [around, htake, List.drop_of_length_le (by rw [hlength]), List.append_nil]
  have hdigest : (hmac key (randRead random 1504)).1.length = 32 := (hmac key _).2
  have hgap : ((randRead random 1536).length : Int) - 32 = (1504 : Nat) := by
    rw [hlength]
    rfl
  rw [hsCreate2, p.2, hgap, hsMakeDigest_of_le hmac (by decide) (by rw [hlength]), haround, Call.pure_bind,
    if_neg (by decide), Int.toNat_natCast, copyTo_of_le (by omega), htake, List.drop_of_length_le (by omega),
    List.append_nil]

/-- The digest in S1 is found, in the place where it was put if not in the other. -/
theorem hsParse1_signed (random : Nat → UInt8) (time ver : UInt32) (key key' : Bytes) :
    ∃ digest, (hsParse1 hmac ((scheme hmac key 8).put (unsigned random time ver)) key key' : Call ε σ (Bool × Bytes)) =
      pure (true, digest) := by
  have hparse : (hsParse1 hmac _ key key' : Call ε σ (Bool × Bytes)) = _ :=
    hsParse1_of_block hmac ⟨_, length_signed hmac random time ver key⟩ key key'
  have hverifies : (scheme hmac key 8).Verifies ((scheme hmac key 8).put (unsigned random time ver)) :=
    verifies_put hmac (by rw [length_unsigned]; decide)
  rw [if_pos hverifies] at hparse
  rw [hparse]
  split_ifs
  · exact ⟨_, rfl⟩
  · exact ⟨_, rfl⟩

/-- What a server answers to a client with a version: S1 verifies with the key of servers, and S2 with the digest that the
server makes of that of the client. -/
structure Answers (C1 answer : Bytes) : Prop where
  length : answer.length = 3073
  s1 : ∃ digest, ∀ s : Unit, (hsParse1 hmac ((answer.drop 1).take 1536) hsServerPartialKey hsClientFullKey :
    Call GoError Unit (Bool × Bytes)) s = .ok (true, digest) s
  s2 : ∃ digest, (∀ s : Unit, (hsParse1 hmac C1 hsClientPartialKey hsServerFullKey :
    Call GoError Unit (Bool × Bytes)) s = .ok (true, digest) s) ∧
      answer.drop 3041 = (hmac digest ((answer.drop 1537).take 1504)).1

theorem answers_of_parse (random random' : Nat → UInt8) (C1 : Block 1536) (time : UInt32) {digest : Bytes}
    (h : ∀ s : Unit, (hsParse1 hmac C1.1 hsClientPartialKey hsServerFullKey : Call GoError Unit (Bool × Bytes)) s =
      .ok (true, digest) s) :
    Answers hmac C1.1 (3 :: (scheme hmac hsServerPartialKey 8).put (unsigned random time 0x0d0e0a0d) ++
      (randRead random' 1504 ++ (hmac digest (randRead random' 1504)).1)) := by
  have hs1 := length_signed hmac random time 0x0d0e0a0d hsServerPartialKey
  have hrandom := length_randRead random' 1504
  have hdigest : (hmac digest (randRead random' 1504)).1.length = 32 := (hmac digest _).2
  set s1 := (scheme hmac hsServerPartialKey 8).put (unsigned random time 0x0d0e0a0d) with hs1eq
  have hfront : (3 :: s1).length = 1537 := by rw [List.length_cons, hs1]
  constructor
  · rw [List.length_append, List.length_append, hfront, hrandom, hdigest]
  · obtain ⟨found, hparse⟩ : ∃ found, (hsParse1 hmac s1 hsServerPartialKey hsClientFullKey :
        Call GoError Unit (Bool × Bytes)) = pure (true, found) :=
      hsParse1_signed hmac random time 0x0d0e0a0d hsServerPartialKey hsClientFullKey
    have htake : ((3 :: s1 ++ (randRead random' 1504 ++ (hmac digest (randRead random' 1504)).1)).drop 1).take 1536 =
        s1 := List.take_left' hs1
    refine ⟨found, fun s => ?_⟩
    rw [htake, hparse]
    rfl
  · have hbefore : (3 :: s1 ++ randRead random' 1504).length = 3041 := by rw [List.length_append, hfront, hrandom]
    refine ⟨digest, h, ?_⟩
    rw [List.drop_left' hfront, List.take_left' hrandom, ← List.append_assoc, List.drop_left' hbefore]

/-- Whatever a client sends, the server answers, with digests that verify where it answers to a version, or it refuses a wrong
version or a C1 in which there is no digest. -/
theorem handshakeServer_answers (random random' : Nat → UInt8) (C0 : UInt8) (C1 : Block 1536) :
    (handshakeServer hmac random random' (C0 :: C1.1) ()).Sat
      (fun answer _ => C0 = 3 ∧ (answer = 3 :: List.replicate 1536 0 ++ C1.1 ∨ Answers hmac C1.1 answer))
      (fun _ _ => C0 ≠ 3 ∨ ¬(scheme hmac hsClientPartialKey 772).Verifies C1.1 ∧
        ¬(scheme hmac hsClientPartialKey 8).Verifies C1.1) False := by
  have hversion : (readAt (C0 :: C1.1) 0 : Call GoError Unit UInt8) = pure C0 := readAt_of_lt (Nat.succ_pos _)
  have hrest : (sliceFrom (C0 :: C1.1) 1 : Call GoError Unit Bytes) = pure C1.1 := sliceFrom_of_le (by simp)
  have hread : ∀ i, i + 4 ≤ 1536 → (u32BE C1.1 i : Call GoError Unit UInt32) =
      pure (UInt32.ofNat (Endian.beNat (window C1.1 i 4))) := by
    intro i hi
    rw [u32BE, slice_window (by rw [C1.2]; exact hi)]
    rfl
  rw [handshakeServer, hversion, Call.pure_bind]
  by_cases hthree : C0 = 3
  · rw [if_neg (not_not.mpr hthree), hrest, Call.pure_bind, hread 0 (by decide), Call.pure_bind, hread 4 (by decide),
      Call.pure_bind]
    split_ifs with hcliver
    · have hparse : (hsParse1 hmac C1.1 hsClientPartialKey hsServerFullKey : Call GoError Unit (Bool × Bytes)) = _ :=
        hsParse1_of_block hmac C1 hsClientPartialKey hsServerFullKey
      by_cases hfound : (scheme hmac hsClientPartialKey 772).Verifies C1.1 ∨
          (scheme hmac hsClientPartialKey 8).Verifies C1.1
      · obtain ⟨digest, hdigest⟩ : ∃ digest, (hsParse1 hmac C1.1 hsClientPartialKey hsServerFullKey :
            Call GoError Unit (Bool × Bytes)) = pure (true, digest) := by
          rw [hparse]
          split_ifs with hfar hnear
          · exact ⟨_, rfl⟩
          · exact ⟨_, rfl⟩
          · exact absurd hfound (not_or.mpr ⟨hfar, hnear⟩)
        have hs01 : (hsCreate01 hmac random _ _ _ _ : Call GoError Unit Bytes) = _ :=
          hsCreate01_of_block hmac random ⟨List.replicate 1537 0, List.length_replicate⟩
            (UInt32.ofNat (Endian.beNat (window C1.1 0 4))) 0x0d0e0a0d hsServerPartialKey
        have hs2 : (hsCreate2 hmac random' _ digest : Call GoError Unit Bytes) = _ :=
          hsCreate2_of_block hmac random' ⟨List.replicate 1536 0, List.length_replicate⟩ digest
        rw [hdigest, Call.pure_bind]
        dsimp only
        rw [if_neg (by decide), hs01, Call.pure_bind, hs2, Call.pure_bind]
        exact ⟨hthree, .inr (answers_of_parse hmac random random' C1 _ fun s => congrFun hdigest s)⟩
      · obtain ⟨hfar, hnear⟩ := not_or.mp hfound
        rw [hparse, if_neg hfar, if_neg hnear]
        exact .inr ⟨hfar, hnear⟩
    · exact ⟨hthree, .inl rfl⟩
  · rw [if_pos hthree]
    exact .inl hthree

/-- The digest in S1 is found with the key that it was made with, S2 ends with the digest of what is before it, and there is
no block in which the search leaves the block. -/
theorem digests_verify (s : σ) :
    (∀ (random : Nat → UInt8) (p : Block 1537) (time ver : UInt32) (key : Bytes), ∃ p' digest,
      (hsCreate01 hmac random p.1 time ver hsServerPartialKey : Call ε σ Bytes) s = .ok p' s ∧ p'.length = 1537 ∧
        (hsParse1 hmac (p'.drop 1) hsServerPartialKey key : Call ε σ (Bool × Bytes)) s = .ok (true, digest) s) ∧
      (∀ (random : Nat → UInt8) (p : Block 1536) (key : Bytes), ∃ p',
        (hsCreate2 hmac random p.1 key : Call ε σ Bytes) s = .ok p' s ∧ p'.length = 1536 ∧
          p'.drop 1504 = (hmac key (p'.take 1504)).1) ∧
      ∀ p : Block 1536,
        (∀ peerkey key, ∃ found, (hsParse1 hmac p.1 peerkey key : Call ε σ (Bool × Bytes)) s = .ok found s) ∧
          (∃ pos, (hsCalcDigestPos p.1 8 : Call ε σ Nat) s = .ok pos s ∧ pos + 32 ≤ 1536) ∧
          ∃ pos, (hsCalcDigestPos p.1 772 : Call ε σ Nat) s = .ok pos s ∧ pos + 32 ≤ 1536 := by
  refine ⟨?_, ?_, ?_⟩
  · intro random p time ver key
    obtain ⟨digest, hparse⟩ : ∃ digest, (hsParse1 hmac _ _ key : Call ε σ (Bool × Bytes)) = pure (true, digest) :=
      hsParse1_signed hmac random time ver hsServerPartialKey key
    refine ⟨3 :: (scheme hmac hsServerPartialKey 8).put (unsigned random time ver), digest, ?_, ?_, ?_⟩
    · rw [hsCreate01_of_block]
      rfl
    · rw [List.length_cons, length_signed]
    · exact congrFun hparse s
  · intro random p key
    have hrandom := length_randRead random 1504
    have hdigest : (hmac key (randRead random 1504)).1.length = 32 := (hmac key _).2
    refine ⟨randRead random 1504 ++ (hmac key (randRead random 1504)).1, ?_, ?_, ?_⟩
    · rw [hsCreate2_of_block]
      rfl
    · rw [List.length_append, hrandom, hdigest]
    · rw [List.drop_left' hrandom, List.take_left' hrandom]
  · intro p
    have hlength := p.2
    refine ⟨?_, ?_, ?_⟩
    · intro peerkey key
      exact ⟨_, by rw [hsParse1_of_block]; rfl⟩
    · have hle := le_digestPos 8 p.1
      exact ⟨digestPos 8 p.1, by rw [hsCalcDigestPos_of_le (by omega)]; rfl, by omega⟩
    · have hle := le_digestPos 772 p.1
      exact ⟨digestPos 772 p.1, by rw [hsCalcDigestPos_of_le (by omega)]; rfl, by omega⟩

end Handshake

end Rtmp

end Livego
