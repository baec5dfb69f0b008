import Livego.H264Annexb
import Mathlib.Data.List.Induction

/-! The parameter sets of a sequence header. What one header adds to those that the parser holds, and what it holds after a
run of headers and frames. -/

namespace Livego

open Fallible Outcome Call

namespace H264

/-! ### One header -/

/-- A configuration record with one sequence and one picture parameter set. The first byte of `flags` ends with the size of
the lengths, and the second with the number of sequence parameter sets. -/
structure AVCDecoderConfigurationRecord where
  configVersion : UInt8
  avcProfileIndication : UInt8
  profileCompatility : UInt8
  avcLevelIndication : UInt8
  naluLen : UInt8
  spsNum : UInt8
  sps : Bytes
  pps : Bytes
  one : spsNum &&& 0x1f = 1
  hsps : sps.length < 2 ^ 16
  hpps : pps.length < 2 ^ 16

namespace AVCDecoderConfigurationRecord

def bytes (r : AVCDecoderConfigurationRecord) : Bytes :=
  [r.configVersion, r.avcProfileIndication, r.profileCompatility, r.avcLevelIndication, r.naluLen, r.spsNum] ++
    (Endian.beBytes 2 r.sps.length ++ (r.sps ++ (1 :: (Endian.beBytes 2 r.pps.length ++ r.pps))))

/-- The two sets with start codes. -/
def sets (r : AVCDecoderConfigurationRecord) : Bytes := startCode ++ r.sps ++ (startCode ++ r.pps)

end AVCDecoderConfigurationRecord

theorem beBytes_two (n : Nat) : Endian.beBytes 2 n = [UInt8.ofNat (n >>> 8), UInt8.ofNat n] := rfl

/-- Two bytes put together again. -/
theorem joined {n : Nat} (hn : n < 2 ^ 16) : (UInt8.ofNat (n >>> 8)).toNat <<< 8 ||| (UInt8.ofNat n).toNat = n := by
  have hhigh : (UInt8.ofNat (n >>> 8)).toNat = n / 2 ^ 8 := by
    rw [UInt8.toNat_ofNat', Nat.shiftRight_eq_div_pow]
    omega
  have hlow : (UInt8.ofNat n).toNat = n % 2 ^ 8 := UInt8.toNat_ofNat'
  rw [hhigh, hlow, ← Nat.shiftLeft_add_eq_or_of_lt (Nat.mod_lt n (by decide)), Nat.shiftLeft_eq]
  omega

/-- An accepted record adds its sets and everything behind them. -/
theorem specificInfo_of_accepted {r : AVCDecoderConfigurationRecord} {tail : Bytes} {parser parser' : Parser}
    (h : Parser.parseSpecificInfo (r.bytes ++ tail) parser = .ok () parser') :
    parser'.specificInfo = parser.specificInfo ++ (r.sets ++ tail) := by
  have hsrc : r.bytes ++ tail = [r.configVersion, r.avcProfileIndication, r.profileCompatility, r.avcLevelIndication,
      r.naluLen, r.spsNum, UInt8.ofNat (r.sps.length >>> 8), UInt8.ofNat r.sps.length] ++ (r.sps ++
        ([1, UInt8.ofNat (r.pps.length >>> 8), UInt8.ofNat r.pps.length] ++ (r.pps ++ tail))) := by
    simp [AVCDecoderConfigurationRecord.bytes, beBytes_two]
  have hspsLen : ((r.bytes ++ tail).getD 6 0).toNat <<< 8 ||| ((r.bytes ++ tail).getD 7 0).toNat = r.sps.length := by
    rw [hsrc]
    exact joined r.hsps
  have hsps : (r.bytes ++ tail).drop 8 = r.sps ++
      ([1, UInt8.ofNat (r.pps.length >>> 8), UInt8.ofNat r.pps.length] ++ (r.pps ++ tail)) := by
    rw [hsrc]
    rfl
  have htmpBuf : (r.bytes ++ tail).drop (8 + r.sps.length) =
      [1, UInt8.ofNat (r.pps.length >>> 8), UInt8.ofNat r.pps.length] ++ (r.pps ++ tail) := by
    rw [← List.drop_drop, hsps, List.drop_left]
  have hrest : ([1, UInt8.ofNat (r.pps.length >>> 8), UInt8.ofNat r.pps.length] ++ (r.pps ++ tail)).drop 3 =
      r.pps ++ tail := rfl
  rw [Parser.parseSpecificInfo] at h
  dsimp only at h
  rw [hspsLen, htmpBuf, hsps, hrest, List.take_left] at h
  split_ifs at h
  cases h
  simp [AVCDecoderConfigurationRecord.sets]

/-- An accepted record adds its two sets and nothing else exactly if nothing follows it. -/
theorem parseSpecificInfo_exact_iff {r : AVCDecoderConfigurationRecord} {tail : Bytes} {parser parser' : Parser}
    (h : Parser.parseSpecificInfo (r.bytes ++ tail) parser = .ok () parser') :
    parser'.specificInfo = parser.specificInfo ++ r.sets ↔ tail = [] := by
  rw [specificInfo_of_accepted h, List.append_cancel_left_eq, List.append_right_eq_self]

def sampleRecord : AVCDecoderConfigurationRecord where
  configVersion := 1
  avcProfileIndication := 0x64
  profileCompatility := 0
  avcLevelIndication := 0x1e
  naluLen := 0xff
  spsNum := 0xe1
  sps := [0x67, 0x64, 0x00, 0x1e]
  pps := [0x68, 0xee]
  one := by decide
  hsps := by decide
  hpps := by decide

theorem parseSpecificInfo_exact_iff_sample :
    ∃ parser', Parser.parseSpecificInfo (sampleRecord.bytes ++ []) {} = .ok () parser' ∧
      parser'.specificInfo = [] ++ sampleRecord.sets := by
  have hcall : Parser.parseSpecificInfo (sampleRecord.bytes ++ []) {} = .ok () { specificInfo := sampleRecord.sets } := rfl
  exact ⟨_, hcall, (parseSpecificInfo_exact_iff hcall).mpr rfl⟩

/-- A record of the High profile with its four further bytes, which end up behind the picture parameter set. -/
theorem parseSpecificInfo_tail :
    Parser.parseSpecificInfo (sampleRecord.bytes ++ [0xfd, 0xf8, 0xf8, 0x00]) {} =
        .ok () { specificInfo := sampleRecord.sets ++ [0xfd, 0xf8, 0xf8, 0x00] } ∧
      ¬∀ parser', Parser.parseSpecificInfo (sampleRecord.bytes ++ [0xfd, 0xf8, 0xf8, 0x00]) {} = .ok () parser' →
        parser'.specificInfo = [] ++ sampleRecord.sets := by
  have hcall : Parser.parseSpecificInfo (sampleRecord.bytes ++ [0xfd, 0xf8, 0xf8, 0x00]) {} =
      .ok () { specificInfo := sampleRecord.sets ++ [0xfd, 0xf8, 0xf8, 0x00] } := rfl
  refine ⟨hcall, ?_⟩
  intro h
  have hsets := congrArg List.length (h _ hcall)
  exact absurd hsets (by decide)

/-! ### A run of headers and frames -/

/-- What a header adds to the parameter sets, if it is accepted. -/
def setsOf (src : Bytes) : Option Bytes :=
  match Parser.parseSpecificInfo src {} with
  | .ok () parser => some parser.specificInfo
  | _ => none

theorem parseSpecificInfo_cases (src : Bytes) :
    (∃ sets, setsOf src = some sets ∧ startCode <+: sets ∧ ∀ parser : Parser,
      Parser.parseSpecificInfo src parser = .ok () { specificInfo := parser.specificInfo ++ sets }) ∨
    (setsOf src = none ∧ ∃ e, ∀ parser, Parser.parseSpecificInfo src parser = .err e parser) := by
  rw [setsOf]
  unfold Parser.parseSpecificInfo
  dsimp only
  split_ifs
  · exact .inr ⟨rfl, _, fun _ => rfl⟩
  · exact .inr ⟨rfl, _, fun _ => rfl⟩
  · exact .inr ⟨rfl, _, fun _ => rfl⟩
  · exact .inr ⟨rfl, _, fun _ => rfl⟩
  · refine .inl ⟨_, rfl, ?_, fun parser => ?_⟩
    · rw [List.nil_append, List.append_assoc]
      exact List.prefix_append _ _
    · simp

/-- The calls of `Parse` one after the other, each with its data and whether these are a sequence header. The results are
those of the calls. -/
def parseAll : List (Bytes × Bool) → Call GoError Parser (List (Except GoError Bytes))
  | [] => pure []
  | (b, isSeq) :: calls => do
    let r ← Call.attempt (Parser.parse b isSeq)
    let rs ← parseAll calls
    pure (r :: rs)

/-- What a fresh parser is after the calls. -/
def Reaches (calls : List (Bytes × Bool)) (parser : Parser) : Prop := ∃ rs, parseAll calls {} = .ok rs parser

/-- The call has a sequence header that is accepted. -/
def Accepted (call : Bytes × Bool) : Prop := call.2 = true ∧ setsOf call.1 ≠ none

instance : DecidablePred Accepted := fun _ => inferInstanceAs (Decidable (_ ∧ _))

/-- What the parameter sets of the calls are. -/
def setsOfCall (call : Bytes × Bool) : Bytes := if call.2 then (setsOf call.1).getD [] else []

theorem setsOfCall_eq_nil {call : Bytes × Bool} : setsOfCall call = [] ↔ ¬Accepted call := by
  obtain ⟨b, isSeq⟩ := call
  cases isSeq with
  | false => simp [setsOfCall, Accepted]
  | true =>
      rcases parseSpecificInfo_cases b with ⟨sets, hsets, hprefix, -⟩ | ⟨hnone, -⟩
      · have hne : sets ≠ [] := by
          rintro rfl
          exact absurd (List.prefix_nil.mp hprefix) (by decide)
        simp [setsOfCall, Accepted, hsets, hne]
      · simp [setsOfCall, Accepted, hnone]

/-- A call adds its parameter sets, and is the same whatever the parser holds if it is a header. -/
theorem attempt_parse (call : Bytes × Bool) (parser : Parser) :
    ∃ r, Call.attempt (Parser.parse call.1 call.2) parser =
      .ok r { specificInfo := parser.specificInfo ++ setsOfCall call } := by
  obtain ⟨b, isSeq⟩ := call
  cases isSeq with
  | true =>
      rcases parseSpecificInfo_cases b with ⟨sets, hsets, -, hok⟩ | ⟨hnone, e, herr⟩
      · refine ⟨.ok [], Call.attempt_of_ok ?_⟩
        rw [Parser.parse, if_pos rfl, Call.bind_of_ok (hok parser), setsOfCall, if_pos rfl, hsets]
        rfl
      · refine ⟨.error e, Call.attempt_of_err ?_⟩
        rw [Parser.parse, if_pos rfl, Call.bind_of_err (herr parser), setsOfCall, if_pos rfl, hnone]
        simp
  | false =>
      have hkept : ({ specificInfo := parser.specificInfo ++ setsOfCall (b, false) } : Parser) = parser := by
        simp [setsOfCall]
      rw [hkept]
      dsimp only
      by_cases hheader : Parser.isNaluHeader b = true
      · refine ⟨.ok b, Call.attempt_of_ok ?_⟩
        rw [Parser.parse, if_neg Bool.false_ne_true, if_pos hheader, Call.pure_apply]
      · rw [Parser.parse, if_neg Bool.false_ne_true, if_neg hheader]
        rcases getAnnexbH264_eq parser b with ⟨units, -, hok⟩ | ⟨-, e, herr⟩
        · exact ⟨_, Call.attempt_of_ok hok⟩
        · exact ⟨_, Call.attempt_of_err herr⟩

/-- After a run the parser holds the sets of every header that was accepted. -/
theorem parseAll_eq (calls : List (Bytes × Bool)) (parser : Parser) :
    ∃ rs, parseAll calls parser = .ok rs { specificInfo := parser.specificInfo ++ calls.flatMap setsOfCall } := by
  induction calls generalizing parser with
  | nil =>
      refine ⟨[], ?_⟩
      rw [List.flatMap_nil, List.append_nil]
      rfl
  | cons call calls ih =>
      obtain ⟨r, hcall⟩ := attempt_parse call parser
      obtain ⟨rs, hrest⟩ := ih { specificInfo := parser.specificInfo ++ setsOfCall call }
      refine ⟨r :: rs, ?_⟩
      rw [parseAll, Call.bind_of_ok hcall, Call.bind_of_ok hrest, List.flatMap_cons, ← List.append_assoc]
      rfl

theorem reaches_iff {calls : List (Bytes × Bool)} {parser : Parser} :
    Reaches calls parser ↔ parser = { specificInfo := calls.flatMap setsOfCall } := by
  obtain ⟨rs, hrun⟩ := parseAll_eq calls {}
  rw [Reaches, hrun]
  constructor
  · rintro ⟨rs', h⟩
    exact (Outcome.ok.inj h).2.symm
  · rintro rfl
    exact ⟨rs, rfl⟩

/-- The most recent accepted sequence header, alone. -/
def lastHeader (calls : List (Bytes × Bool)) : List (Bytes × Bool) := (calls.filter Accepted).getLast?.toList

/-- The parameter sets are those that a fresh parser holds after the most recent accepted header alone, and every frame is
written with those. -/
def HoldsLast (calls : List (Bytes × Bool)) : Prop :=
  ∃ parser parser', Reaches calls parser ∧ Reaches (lastHeader calls) parser' ∧
    parser.specificInfo = parser'.specificInfo ∧
    ∀ b, (Parser.parse b false parser).forget = (Parser.parse b false parser').forget

theorem flatMap_setsOfCall (calls : List (Bytes × Bool)) :
    calls.flatMap setsOfCall = (calls.filter Accepted).flatMap setsOfCall := by
  induction calls with
  | nil => rfl
  | cons call calls ih =>
      by_cases h : Accepted call
      · rw [List.filter_cons_of_pos (by simpa using h), List.flatMap_cons, List.flatMap_cons, ih]
      · rw [List.filter_cons_of_neg (by simpa using h), List.flatMap_cons, setsOfCall_eq_nil.mpr h, List.nil_append, ih]

theorem holdsLast_iff {calls : List (Bytes × Bool)} : HoldsLast calls ↔ (calls.filter Accepted).length ≤ 1 := by
  have hsame : HoldsLast calls ↔ (calls.filter Accepted).flatMap setsOfCall = (lastHeader calls).flatMap setsOfCall := by
    rw [← flatMap_setsOfCall]
    constructor
    · rintro ⟨parser, parser', h, h', heq, -⟩
      rw [reaches_iff.mp h, reaches_iff.mp h'] at heq
      exact heq
    · intro heq
      exact ⟨_, _, reaches_iff.mpr rfl, reaches_iff.mpr rfl, heq, fun b => by rw [heq]⟩
  rw [hsame, lastHeader]
  set headers := calls.filter Accepted with hheaders
  have haccepted : ∀ call ∈ headers, setsOfCall call ≠ [] := by
    intro call hcall hnil
    exact setsOfCall_eq_nil.mp hnil (by simpa using List.of_mem_filter hcall)
  clear_value headers
  cases headers using List.reverseRecOn with
  | nil => simp
  | append_singleton front call =>
      rw [List.getLast?_concat, Option.toList_some, List.flatMap_append, List.append_left_eq_self, List.length_append,
        List.length_singleton]
      cases front with
      | nil => simp
      | cons call' front =>
          have hne := haccepted call' (List.mem_append_left _ List.mem_cons_self)
          simp [hne]

/-- In every state that a run reaches the parameter sets are those of the last accepted header exactly if at most one header
is accepted in the run. -/
theorem holdsLast_always_iff (calls : List (Bytes × Bool)) :
    (∀ front, front <+: calls → HoldsLast front) ↔ (calls.filter Accepted).length ≤ 1 := by
  constructor
  · exact fun h => holdsLast_iff.mp (h calls List.prefix_rfl)
  · intro hone front hfront
    exact holdsLast_iff.mpr ((hfront.sublist.filter _).length_le.trans hone)

/-- A record of another resolution. -/
def olderRecord : AVCDecoderConfigurationRecord :=
  { sampleRecord with sps := [0x67, 0x42, 0x00, 0x0a], hsps := by decide }

def twoHeaders : List (Bytes × Bool) := [(olderRecord.bytes, true), (sampleRecord.bytes, true)]

/-- After headers of two resolutions an IDR frame is written with the sets of both. -/
theorem holdsLast_twoHeaders :
    Reaches twoHeaders { specificInfo := olderRecord.sets ++ sampleRecord.sets } ∧
      Reaches [(sampleRecord.bytes, true)] { specificInfo := sampleRecord.sets } ∧
      (∃ parser, Parser.parse [0, 0, 0, 2, 0x65, 0x88] false { specificInfo := olderRecord.sets ++ sampleRecord.sets } =
        .ok (naluAud ++ (olderRecord.sets ++ sampleRecord.sets) ++ (startCode ++ [0x65, 0x88])) parser) ∧
      ¬∀ front, front <+: twoHeaders → HoldsLast front := by
  have hidr : LengthPrefixed [0, 0, 0, 2, 0x65, 0x88] [⟨[0x65, 0x88], by decide⟩] := ⟨List.cons_ne_nil _ _, rfl⟩
  refine ⟨reaches_iff.mpr rfl, reaches_iff.mpr rfl, ⟨{ specificInfo := olderRecord.sets ++ sampleRecord.sets }, ?_⟩, ?_⟩
  · rw [Parser.parse, if_neg Bool.false_ne_true, if_neg (by decide), getAnnexbH264_of_units hidr]
    rfl
  intro h
  have hone := holdsLast_iff.mp (h twoHeaders (List.prefix_refl twoHeaders))
  have htwo : twoHeaders.filter Accepted = twoHeaders := by
    rw [List.filter_eq_self]
    decide
  rw [htwo] at hone
  exact absurd hone (by decide)

end H264

end Livego
