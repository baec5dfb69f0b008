import Livego.CodecParser
import Livego.Framing
import Livego.Simulation
import Livego.Slices

/-! From NAL units with lengths in front to NAL units with start codes. The loop is followed with its two counters and a
writer, and what it writes is what a reading of the units as a whole says. -/

namespace Livego

open Fallible Outcome Call

namespace H264

/-! ### Length-prefixed units -/

/-- A NAL unit whose length a prefix of four bytes can announce. -/
abbrev Nalu : Type := { nalu : Bytes // nalu ≠ [] ∧ nalu.length < 2 ^ 32 }

namespace Nalu

def nalType (nalu : Nalu) : UInt8 := nalu.1.headD 0 &&& 0x1f

/-- A slice or additional information. -/
def IsPicture (nalu : Nalu) : Prop :=
  nalu.nalType = naluTypeSlice ∨ nalu.nalType = naluTypeIdr ∨ nalu.nalType = naluTypeSei

def IsParameterSet (nalu : Nalu) : Prop := nalu.nalType = naluTypeSps ∨ nalu.nalType = naluTypePps

def IsIdr (nalu : Nalu) : Prop := nalu.nalType = naluTypeIdr

instance : DecidablePred IsPicture := fun _ => inferInstanceAs (Decidable (_ ∨ _))
instance : DecidablePred IsParameterSet := fun _ => inferInstanceAs (Decidable (_ ∨ _))
instance : DecidablePred IsIdr := fun _ => inferInstanceAs (Decidable (_ = _))

def lengthPrefixed (nalu : Nalu) : Bytes := Endian.beBytes naluBytesLen nalu.1.length ++ nalu.1

def startCoded (nalu : Nalu) : Bytes := startCode ++ nalu.1

end Nalu

/-- The first unit and what follows it. -/
def nextNalu (src : Bytes) : Option (Nalu × Bytes) :=
  (Parser.naluSize src).bind fun nalLen =>
    let rest := src.drop naluBytesLen
    if h : rest.take nalLen ≠ [] ∧ (rest.take nalLen).length < 2 ^ 32 then
      if nalLen ≤ rest.length then some (⟨rest.take nalLen, h⟩, rest.drop nalLen) else none
    else none

theorem naluSize_append (n : Nat) (rest : Bytes) :
    Parser.naluSize (Endian.beBytes naluBytesLen n ++ rest) = some (n % 2 ^ 32) := by
  have hlength : (Endian.beBytes naluBytesLen n).length = naluBytesLen := Endian.beBytes_length _ _
  rw [Parser.naluSize, if_neg (by rw [List.length_append]; omega), List.take_left' hlength, Endian.beNat_beBytes]
  rfl

/-- The number in front of data is the length that it announces. -/
theorem eq_of_naluSize {src : Bytes} {n : Nat} (h : Parser.naluSize src = some n) :
    src = Endian.beBytes naluBytesLen n ++ src.drop naluBytesLen ∧ n < 2 ^ 32 := by
  rw [Parser.naluSize] at h
  split_ifs at h with hshort
  cases h
  have hlength : (src.take naluBytesLen).length = naluBytesLen := by
    rw [List.length_take]
    omega
  have hlt := Endian.beNat_lt (src.take naluBytesLen)
  rw [hlength] at hlt
  refine ⟨?_, hlt⟩
  have hdigits : Endian.beBytes naluBytesLen (Endian.beNat (src.take naluBytesLen)) = src.take naluBytesLen := by
    apply Endian.beNat_inj
    · rw [Endian.beBytes_length, hlength]
    · exact Endian.beNat_beBytes_of_lt hlt
  rw [hdigits, List.take_append_drop]

theorem nextNalu_eq_some {src : Bytes} {nalu : Nalu} {rest : Bytes} :
    nextNalu src = some (nalu, rest) ↔ src = nalu.lengthPrefixed ++ rest := by
  constructor
  · intro h
    obtain ⟨n, hsize, h⟩ := Option.bind_eq_some_iff.mp h
    obtain ⟨hsrc, -⟩ := eq_of_naluSize hsize
    dsimp only at h
    split_ifs at h with hnalu hle
    cases h
    have hlength : ((src.drop naluBytesLen).take n).length = n := by
      rw [List.length_take]
      omega
    rw [Nalu.lengthPrefixed, hlength, List.append_assoc, List.take_append_drop]
    exact hsrc
  · rintro rfl
    have hlength : (Endian.beBytes naluBytesLen nalu.1.length).length = naluBytesLen := Endian.beBytes_length _ _
    rw [Nalu.lengthPrefixed, List.append_assoc, nextNalu, naluSize_append, Nat.mod_eq_of_lt nalu.2.2,
      Option.bind_some, List.drop_left' hlength]
    dsimp only
    simp only [List.take_left, List.drop_left]
    rw [dif_pos nalu.2, if_pos (by rw [List.length_append]; omega)]

/-- Units with their lengths in front. -/
def nalUnits : Framing Nalu UInt8 where
  write := Nalu.lengthPrefixed
  next := nextNalu
  next_eq_some := nextNalu_eq_some
  write_ne_nil _ h := absurd (congrArg List.length h) (by simp [Nalu.lengthPrefixed, naluBytesLen])

/-- The data are these units, one at least. -/
def LengthPrefixed (src : Bytes) (units : List Nalu) : Prop := units ≠ [] ∧ src = units.flatMap Nalu.lengthPrefixed

/-! ### What is written -/

def pictures (units : List Nalu) : Bytes := (units.filter (·.IsPicture)).flatMap Nalu.startCoded

def parameterSets (units : List Nalu) : Bytes := (units.filter (·.IsParameterSet)).flatMap Nalu.startCoded

theorem pictures_cons (nalu : Nalu) (units : List Nalu) :
    pictures (nalu :: units) = (if nalu.IsPicture then nalu.startCoded else []) ++ pictures units := by
  rw [pictures, pictures, List.filter_cons]
  by_cases h : nalu.IsPicture <;> simp [h]

theorem parameterSets_cons (nalu : Nalu) (units : List Nalu) :
    parameterSets (nalu :: units) = (if nalu.IsParameterSet then nalu.startCoded else []) ++ parameterSets units := by
  rw [parameterSets, parameterSets, List.filter_cons]
  by_cases h : nalu.IsParameterSet <;> simp [h]

/-- The units in front of the first IDR slice. -/
def beforeIdr (units : List Nalu) : List Nalu := units.takeWhile (¬·.IsIdr)

/-- The first IDR slice and what follows it. -/
def fromIdr (units : List Nalu) : List Nalu := units.dropWhile (¬·.IsIdr)

def HasParameterSet (units : List Nalu) : Prop := ∃ nalu ∈ units, nalu.IsParameterSet

instance : DecidablePred HasParameterSet := fun _ => inferInstanceAs (Decidable (∃ _ ∈ _, _))

/-- The access unit with start codes: a delimiter and the pictures, and in front of the first IDR slice the parameter
sets among the units before it, or else those of the sequence header. -/
def annexb (specificInfo : Bytes) (units : List Nalu) : Bytes :=
  let front := beforeIdr units
  let back := fromIdr units
  let block := if back = [] then [] else if HasParameterSet front then parameterSets front else specificInfo
  naluAud ++ pictures front ++ block ++ pictures back

section
variable {nalu : Nalu} {units : List Nalu}

theorem not_hasParameterSet_nil : ¬HasParameterSet [] := by simp [HasParameterSet]

theorem hasParameterSet_cons : HasParameterSet (nalu :: units) ↔ nalu.IsParameterSet ∨ HasParameterSet units := by
  simp [HasParameterSet]

theorem beforeIdr_cons (h : ¬nalu.IsIdr) : beforeIdr (nalu :: units) = nalu :: beforeIdr units :=
  List.takeWhile_cons_of_pos (by simpa using h)

theorem beforeIdr_idr (h : nalu.IsIdr) : beforeIdr (nalu :: units) = [] :=
  List.takeWhile_cons_of_neg (by simpa using h)

theorem fromIdr_cons (h : ¬nalu.IsIdr) : fromIdr (nalu :: units) = fromIdr units :=
  List.dropWhile_cons_of_pos (by simpa using h)

theorem fromIdr_idr (h : nalu.IsIdr) : fromIdr (nalu :: units) = nalu :: units :=
  List.dropWhile_cons_of_neg (by simpa using h)

end

namespace Nalu

variable {nalu : Nalu}

theorem not_isParameterSet_of_isPicture (h : nalu.IsPicture) : ¬nalu.IsParameterSet := by
  rintro (hset | hset) <;> rcases h with h | h | h <;> exact absurd (hset.symm.trans h) (by decide)

theorem IsIdr.isPicture (h : nalu.IsIdr) : nalu.IsPicture := .inr (.inl h)

end Nalu

section
variable {parser : Parser} {v : Annexb} {nalu : Nalu} {units : List Nalu}

theorem putNalu_idr (h : nalu.IsIdr) : Parser.putNalu parser nalu.1 v = { v with
    hasWriteSpsPps := true
    written := v.written ++ (if v.hasWriteSpsPps then [] else if v.hasSpsPps then v.pps else parser.specificInfo) ++
      nalu.startCoded } := if_pos h

theorem putNalu_picture (h : nalu.IsPicture) (hidr : ¬nalu.IsIdr) :
    Parser.putNalu parser nalu.1 v = { v with written := v.written ++ nalu.startCoded } := by
  have hother : nalu.nalType = naluTypeSlice ∨ nalu.nalType = naluTypeSei := by
    rcases h with h | h | h
    · exact .inl h
    · exact absurd h hidr
    · exact .inr h
  rw [Parser.putNalu]
  exact (if_neg hidr).trans (if_pos hother)

theorem putNalu_of_not_isPicture (hpicture : ¬nalu.IsPicture) : Parser.putNalu parser nalu.1 v =
    if nalu.IsParameterSet then { v with hasSpsPps := true, pps := v.pps ++ nalu.startCoded } else v := by
  have hidr : ¬nalu.IsIdr := fun hidr => hpicture hidr.isPicture
  have hother : ¬(nalu.nalType = naluTypeSlice ∨ nalu.nalType = naluTypeSei) := by
    intro hother
    rcases hother with hslice | hsei
    · exact hpicture (.inl hslice)
    · exact hpicture (.inr (.inr hsei))
  rw [Parser.putNalu]
  exact (if_neg hidr).trans (if_neg hother)

theorem putNalu_parameterSet (h : nalu.IsParameterSet) :
    Parser.putNalu parser nalu.1 v = { v with hasSpsPps := true, pps := v.pps ++ nalu.startCoded } := by
  have hpicture : ¬nalu.IsPicture := fun hpicture => Nalu.not_isParameterSet_of_isPicture hpicture h
  rw [putNalu_of_not_isPicture hpicture, if_pos h]

theorem putNalu_other (hpicture : ¬nalu.IsPicture) (hset : ¬nalu.IsParameterSet) :
    Parser.putNalu parser nalu.1 v = v := by
  rw [putNalu_of_not_isPicture hpicture, if_neg hset]

/-- The loop over the units. -/
def putAll (parser : Parser) (units : List Nalu) (v : Annexb) : Annexb :=
  units.foldl (fun v nalu => Parser.putNalu parser nalu.1 v) v

/-- After an IDR slice the pictures go out and nothing else. -/
theorem written_putAll_back (h : v.hasWriteSpsPps = true) :
    (putAll parser units v).written = v.written ++ pictures units := by
  induction units generalizing v with
  | nil => exact (List.append_nil _).symm
  | cons nalu units ih =>
      have hput : (Parser.putNalu parser nalu.1 v).hasWriteSpsPps = true ∧
          (Parser.putNalu parser nalu.1 v).written = v.written ++ if nalu.IsPicture then nalu.startCoded else [] := by
        by_cases hpicture : nalu.IsPicture
        · rw [if_pos hpicture]
          by_cases hidr : nalu.IsIdr
          · rw [putNalu_idr hidr, h, if_pos rfl, List.append_nil]
            exact ⟨rfl, rfl⟩
          · rw [putNalu_picture hpicture hidr]
            exact ⟨h, rfl⟩
        · rw [if_neg hpicture, List.append_nil]
          by_cases hset : nalu.IsParameterSet
          · rw [putNalu_parameterSet hset]
            exact ⟨h, rfl⟩
          · rw [putNalu_other hpicture hset]
            exact ⟨h, rfl⟩
      show (putAll parser units (Parser.putNalu parser nalu.1 v)).written = _
      rw [ih hput.1, hput.2, pictures_cons, List.append_assoc]

/-- Before the first one the parameter sets are gathered. -/
theorem written_putAll_front (h : v.hasWriteSpsPps = false) (hpps : v.hasSpsPps = false → v.pps = []) :
    (putAll parser units v).written =
      let front := beforeIdr units
      let back := fromIdr units
      let block := if back = [] then []
        else if v.hasSpsPps = true ∨ HasParameterSet front then v.pps ++ parameterSets front
        else parser.specificInfo
      v.written ++ pictures front ++ block ++ pictures back := by
  induction units generalizing v with
  | nil => simp [putAll, pictures, beforeIdr, fromIdr]
  | cons nalu units ih =>
      show (putAll parser units (Parser.putNalu parser nalu.1 v)).written = _
      by_cases hidr : nalu.IsIdr
      · have hback : pictures (nalu :: units) = nalu.startCoded ++ pictures units := by
          rw [pictures_cons, if_pos hidr.isPicture]
        rw [putNalu_idr hidr, written_putAll_back rfl, h, beforeIdr_idr hidr, fromIdr_idr hidr]
        dsimp only
        rw [hback]
        simp [pictures, parameterSets, not_hasParameterSet_nil]
      · rw [beforeIdr_cons hidr, fromIdr_cons hidr]
        by_cases hpicture : nalu.IsPicture
        · have hset := Nalu.not_isParameterSet_of_isPicture hpicture
          have hrest := ih (v := { v with written := v.written ++ nalu.startCoded }) h hpps
          rw [putNalu_picture hpicture hidr, hrest]
          simp [pictures_cons, parameterSets_cons, hasParameterSet_cons, hpicture, hset]
        · by_cases hset : nalu.IsParameterSet
          · have hrest := ih (v := { v with hasSpsPps := true, pps := v.pps ++ nalu.startCoded }) h nofun
            rw [putNalu_parameterSet hset, hrest]
            simp [pictures_cons, parameterSets_cons, hasParameterSet_cons, hpicture, hset]
          · rw [putNalu_other hpicture hset, ih h hpps]
            simp [pictures_cons, parameterSets_cons, hasParameterSet_cons, hpicture, hset]

theorem written_putAll_rest (rest : Bytes) :
    (putAll parser units { v with rest }).written = (putAll parser units v).written := by
  induction units generalizing v with
  | nil => rfl
  | cons nalu units ih =>
      have hput : Parser.putNalu parser nalu.1 { v with rest } = { Parser.putNalu parser nalu.1 v with rest } := by
        unfold Parser.putNalu
        dsimp only
        split_ifs <;> rfl
      show (putAll parser units (Parser.putNalu parser nalu.1 { v with rest })).written = _
      rw [hput, ih]
      rfl

/-! ### The loop over what is left -/

theorem annexbTurn_of_next {rest : Bytes} (h : nextNalu v.rest = some (nalu, rest)) :
    Parser.annexbTurn v parser = .ok (.inl { Parser.putNalu parser nalu.1 v with rest }) parser := by
  have hrest := nextNalu_eq_some.mp h
  have hne : v.rest ≠ [] := by
    intro hnil
    exact nalUnits.write_ne_nil nalu (List.append_eq_nil_iff.mp (hrest.symm.trans hnil)).1
  have hlength : (Endian.beBytes naluBytesLen nalu.1.length).length = naluBytesLen := Endian.beBytes_length _ _
  rw [Nalu.lengthPrefixed, List.append_assoc] at hrest
  have hsize : Parser.naluSize v.rest = some nalu.1.length := by
    rw [hrest, naluSize_append, Nat.mod_eq_of_lt nalu.2.2]
  have hdrop : v.rest.drop naluBytesLen = nalu.1 ++ rest := by rw [hrest, List.drop_left' hlength]
  have hpos : nalu.1.length > 0 := List.length_pos_iff.mpr nalu.2.1
  rw [Parser.annexbTurn, if_neg hne, hsize]
  dsimp only
  rw [hdrop, if_pos ⟨by rw [List.length_append]; omega, hpos⟩, List.take_left, List.drop_left]

theorem annexbTurn_of_none (parser : Parser) (hne : v.rest ≠ []) (h : nextNalu v.rest = none) :
    ∃ e, Parser.annexbTurn v parser = .err e parser := by
  rw [Parser.annexbTurn, if_neg hne]
  cases hsize : Parser.naluSize v.rest with
  | none => exact ⟨_, rfl⟩
  | some n =>
      refine ⟨naluBodyLenError, if_neg ?_⟩
      rintro ⟨hle, hpos⟩
      have hlength : ((v.rest.drop naluBytesLen).take n).length = n := by
        rw [List.length_take]
        omega
      have hnalu : (v.rest.drop naluBytesLen).take n ≠ [] ∧ ((v.rest.drop naluBytesLen).take n).length < 2 ^ 32 := by
        refine ⟨List.length_pos_iff.mp (by omega), ?_⟩
        rw [hlength]
        exact (eq_of_naluSize hsize).2
      rw [nextNalu, hsize, Option.bind_some] at h
      dsimp only at h
      rw [dif_pos hnalu, if_pos hle] at h
      cases h

theorem loop_annexbTurn (parser : Parser) {fuel : Nat} (hfuel : v.rest.length < fuel) :
    (∀ units : List Nalu, v.rest = units.flatMap Nalu.lengthPrefixed →
      Call.loop Parser.annexbTurn fuel v parser = .ok (putAll parser units v).written parser) ∧
    ((∀ units : List Nalu, v.rest ≠ units.flatMap Nalu.lengthPrefixed) →
      ∃ e, Call.loop Parser.annexbTurn fuel v parser = .err e parser) := by
  induction fuel generalizing v with
  | zero => omega
  | succ fuel ih =>
      rw [Call.loop_succ]
      by_cases hnil : v.rest = []
      · have hturn : Parser.annexbTurn v parser = .ok (.inr v.written) parser := if_pos hnil
        rw [hturn]
        constructor
        · intro units hunits
          cases units with
          | nil => rfl
          | cons nalu units =>
              rw [hnil, List.flatMap_cons] at hunits
              exact absurd (List.append_eq_nil_iff.mp hunits.symm).1 (nalUnits.write_ne_nil nalu)
        · exact fun h => absurd hnil (h [])
      · cases hnext : nextNalu v.rest with
        | none =>
            obtain ⟨e, hturn⟩ := annexbTurn_of_none parser hnil hnext
            rw [hturn]
            constructor
            · intro units hunits
              cases units with
              | nil => exact absurd hunits hnil
              | cons nalu units =>
                  rw [List.flatMap_cons] at hunits
                  rw [nextNalu_eq_some.mpr hunits] at hnext
                  cases hnext
            · exact fun _ => ⟨e, rfl⟩
        | some p =>
            obtain ⟨nalu, rest⟩ := p
            rw [annexbTurn_of_next hnext]
            have hrest := nextNalu_eq_some.mp hnext
            have hlt : rest.length < v.rest.length := nalUnits.length_next hnext
            obtain ⟨hok, herr⟩ := ih (v := { Parser.putNalu parser nalu.1 v with rest }) (by dsimp only; omega)
            constructor
            · intro units hunits
              cases units with
              | nil => exact absurd hunits hnil
              | cons nalu' units =>
                  rw [List.flatMap_cons] at hunits
                  rw [nextNalu_eq_some.mpr hunits] at hnext
                  cases hnext
                  exact (hok units rfl).trans (by rw [written_putAll_rest]; rfl)
            · intro hno
              apply herr
              intro units hunits
              apply hno (nalu :: units)
              rw [hrest, List.flatMap_cons, ← hunits]

/-- What is written for length-prefixed units; other data are refused. -/
theorem getAnnexbH264_eq (parser : Parser) (src : Bytes) :
    (∃ units, LengthPrefixed src units ∧
      Parser.getAnnexbH264 src parser = .ok (annexb parser.specificInfo units) parser) ∨
    (¬∃ units, LengthPrefixed src units) ∧ ∃ e, Parser.getAnnexbH264 src parser = .err e parser := by
  have hloop := loop_annexbTurn parser (v := { rest := src, written := naluAud }) (Nat.lt_succ_self src.length)
  rw [Parser.getAnnexbH264]
  split_ifs with hshort
  · refine .inr ⟨?_, _, rfl⟩
    rintro ⟨units, hne, rfl⟩
    obtain ⟨nalu, units, rfl⟩ := List.exists_cons_of_ne_nil hne
    rw [List.flatMap_cons, Nalu.lengthPrefixed, List.length_append, List.length_append, Endian.beBytes_length] at hshort
    omega
  · by_cases hunits : ∃ units : List Nalu, src = units.flatMap Nalu.lengthPrefixed
    · obtain ⟨units, rfl⟩ := hunits
      refine .inl ⟨units, ⟨?_, rfl⟩, ?_⟩
      · rintro rfl
        exact hshort (by decide)
      · rw [hloop.1 units rfl, written_putAll_front rfl fun _ => rfl]
        simp [annexb]
    · refine .inr ⟨?_, hloop.2 fun units hsrc => hunits ⟨units, hsrc⟩⟩
      rintro ⟨units, -, hsrc⟩
      exact hunits ⟨units, hsrc⟩

theorem getAnnexbH264_of_units {src : Bytes} {units : List Nalu} (h : LengthPrefixed src units) (parser : Parser) :
    Parser.getAnnexbH264 src parser = .ok (annexb parser.specificInfo units) parser := by
  rcases getAnnexbH264_eq parser src with ⟨units', h', hok⟩ | ⟨hno, -⟩
  · have hsame : units'.flatMap nalUnits.write = units.flatMap nalUnits.write := h'.2.symm.trans h.2
    rwa [nalUnits.flatMap_write_injective hsame] at hok
  · exact absurd ⟨units, h⟩ hno

end

/-! ### The code with its counters, its buffer and its writer -/

namespace Indexed

/-- `parser.pps` and the writer. -/
structure Buffers (ω : Type) where
  pps : Bytes
  w : ω

/-- The other variables of `getAnnexbH264`. -/
structure Vars where
  index : Nat := 0
  dataSize : Int
  hasSpsPps : Bool := false
  hasWriteSpsPps : Bool := false

variable {ω : Type} (write : Bytes → Call GoError ω Unit) (specificInfo src : Bytes)

/-- `w.Write(b)`. -/
def onWriter (b : Bytes) : Call GoError (Buffers ω) Unit := fun s =>
  match write b s.w with
  | .ok () w => .ok () { s with w }
  | .err e w => .err e { s with w }
  | .panic p => .panic p
  | .diverge => .diverge

/-- `parser.pps.Write(b)`, which does not fail. -/
def buffer (b : Bytes) : Call GoError (Buffers ω) Unit := Call.modify fun s => { s with pps := s.pps ++ b }

def putSets (v : Vars) : Call GoError (Buffers ω) Vars :=
  if v.hasWriteSpsPps then pure v
  else do
    if v.hasSpsPps then do
      let s ← Call.get
      onWriter write s.pps
    else onWriter write specificInfo
    pure { v with hasWriteSpsPps := true }

/-- A start code and `src[index : index+nalLen]`. -/
def putUnit (out : Bytes → Call GoError (Buffers ω) Unit) (index nalLen : Nat) : Call GoError (Buffers ω) Unit := do
  out startCode
  let nalu ← Call.slice src index (index + nalLen)
  out nalu

/-- The switch over the type of a unit. -/
def putNalu (index nalLen : Nat) (v : Vars) : Call GoError (Buffers ω) Vars := do
  let b ← Call.readAt src index
  let nalType := b &&& 0x1f
  if nalType = naluTypeIdr then do
    let v ← putSets write specificInfo v
    putUnit src (onWriter write) index nalLen
    pure v
  else if nalType = naluTypeSlice ∨ nalType = naluTypeSei then do
    putUnit src (onWriter write) index nalLen
    pure v
  else if nalType = naluTypeSps ∨ nalType = naluTypePps then do
    putUnit src buffer index nalLen
    pure { v with hasSpsPps := true }
  else pure v

def annexbTurn (v : Vars) : Call GoError (Buffers ω) (Vars ⊕ Unit) :=
  if v.dataSize ≤ 0 then pure (.inr ())
  else do
    let buf ← Call.sliceFrom src v.index
    match Parser.naluSize buf with
    | none => Call.fail dataSizeNotMatch
    | some nalLen =>
      let index := v.index + naluBytesLen
      let dataSize := v.dataSize - naluBytesLen
      if dataSize < nalLen then Call.fail naluBodyLenError
      else do
        let rest ← Call.sliceFrom src index
        if rest.length < nalLen ∨ nalLen = 0 then Call.fail naluBodyLenError
        else do
          let v ← putNalu write specificInfo src index nalLen { v with index, dataSize }
          pure (.inl { v with index := index + nalLen, dataSize := dataSize - nalLen })

/-- `getAnnexbH264`. A unit and its length take five bytes at least, which bounds the turns. -/
def getAnnexbH264 : Call GoError (Buffers ω) Unit :=
  if src.length < naluBytesLen then Call.fail videoDataInvalid
  else do
    Call.modify fun s => { s with pps := [] }
    onWriter write naluAud
    Call.loop (annexbTurn write specificInfo src) (src.length + 1) { dataSize := src.length }

/-- A writer that does not fail. -/
def unfailing (step : ω → Bytes → ω) (b : Bytes) : Call GoError ω Unit := Call.modify fun w => step w b

variable {step : ω → Bytes → ω} {w w' : ω} {specificInfo src : Bytes}

/-- The slices that the writer was handed make up `bs`. -/
def Wrote (step : ω → Bytes → ω) (w : ω) (bs : Bytes) (w' : ω) : Prop :=
  ∃ slices : List Bytes, slices.flatten = bs ∧ w' = slices.foldl step w

theorem Wrote.snoc {bs : Bytes} (h : Wrote step w bs w') (b : Bytes) : Wrote step w (bs ++ b) (step w' b) := by
  obtain ⟨slices, rfl, rfl⟩ := h
  exact ⟨slices ++ [b], by rw [List.flatten_append, List.flatten_singleton], by rw [List.foldl_append]; rfl⟩

/-- The variables have the values that the loop over what is left has, and the writer has what it has written. -/
structure Agrees (step : ω → Bytes → ω) (w : ω) (v : Vars) (s : Buffers ω) (v' : Annexb) : Prop where
  pps : s.pps = v'.pps
  hasSpsPps : v.hasSpsPps = v'.hasSpsPps
  hasWriteSpsPps : v.hasWriteSpsPps = v'.hasWriteSpsPps
  wrote : Wrote step w v'.written s.w

variable {v : Vars} {s : Buffers ω} {v' : Annexb} {index nalLen : Nat}

theorem putUnit_eq (hle : index + nalLen ≤ src.length) (out : Bytes → Call GoError (Buffers ω) Unit) :
    putUnit src out index nalLen = (do
      out startCode
      out ((src.drop index).take nalLen)) := by
  rw [putUnit, Call.slice_of_le (Nat.le_add_right index nalLen) hle, Nat.add_sub_cancel_left]
  rfl

theorem putSets_agrees (specificInfo : Bytes) (h : Agrees step w v s v') (hwrite : v'.hasWriteSpsPps = false) :
    ∃ w1, putSets (unfailing step) specificInfo v s = .ok { v with hasWriteSpsPps := true } { s with w := w1 } ∧
      Wrote step w (v'.written ++ if v'.hasSpsPps then v'.pps else specificInfo) w1 := by
  rw [putSets, if_neg (by rw [h.hasWriteSpsPps, hwrite]; exact Bool.false_ne_true), h.hasSpsPps, ← h.pps]
  cases v'.hasSpsPps with
  | true => exact ⟨_, rfl, h.wrote.snoc s.pps⟩
  | false => exact ⟨_, rfl, h.wrote.snoc specificInfo⟩

theorem putNalu_agrees (specificInfo : Bytes) (h : Agrees step w v s v') (hle : index + nalLen ≤ src.length)
    (hpos : 0 < nalLen) :
    ∃ v1 s1, putNalu (unfailing step) specificInfo src index nalLen v s = .ok v1 s1 ∧
      Agrees step w v1 s1 (Parser.putNalu { specificInfo } ((src.drop index).take nalLen) v') := by
  have hlt : index < src.length := by omega
  have hhead : ((src.drop index).take nalLen).headD 0 = src[index] := by
    obtain ⟨n, rfl⟩ := Nat.exists_eq_succ_of_ne_zero (Nat.ne_of_gt hpos)
    rw [List.drop_eq_getElem_cons hlt, List.take_succ_cons, List.headD_cons]
  set nalu := (src.drop index).take nalLen
  rw [putNalu, Call.readAt_of_lt hlt, Call.pure_bind_apply, Parser.putNalu, hhead, putUnit_eq hle, putUnit_eq hle]
  dsimp only
  by_cases hidr : src[index] &&& 0x1f = naluTypeIdr
  · rw [if_pos hidr, if_pos hidr]
    cases hwrite : v'.hasWriteSpsPps with
    | true =>
        refine ⟨v, { s with w := step (step s.w startCode) nalu }, ?_, h.pps, h.hasSpsPps,
          h.hasWriteSpsPps.trans hwrite, ?_⟩
        · rw [putSets, if_pos (h.hasWriteSpsPps.trans hwrite)]
          rfl
        · rw [if_pos rfl, List.append_nil, ← List.append_assoc]
          exact (h.wrote.snoc startCode).snoc nalu
    | false =>
        obtain ⟨w1, hsets, hw1⟩ := putSets_agrees specificInfo h hwrite
        refine ⟨{ v with hasWriteSpsPps := true }, { s with w := step (step w1 startCode) nalu }, ?_, h.pps,
          h.hasSpsPps, rfl, ?_⟩
        · rw [Call.bind_of_ok hsets]
          rfl
        · rw [if_neg Bool.false_ne_true, ← List.append_assoc]
          exact (hw1.snoc startCode).snoc nalu
  · rw [if_neg hidr, if_neg hidr]
    by_cases hpicture : src[index] &&& 0x1f = naluTypeSlice ∨ src[index] &&& 0x1f = naluTypeSei
    · rw [if_pos hpicture, if_pos hpicture]
      refine ⟨v, { s with w := step (step s.w startCode) nalu }, rfl, h.pps, h.hasSpsPps, h.hasWriteSpsPps, ?_⟩
      dsimp only
      rw [← List.append_assoc]
      exact (h.wrote.snoc startCode).snoc nalu
    · rw [if_neg hpicture, if_neg hpicture]
      by_cases hset : src[index] &&& 0x1f = naluTypeSps ∨ src[index] &&& 0x1f = naluTypePps
      · rw [if_pos hset, if_pos hset]
        refine ⟨{ v with hasSpsPps := true }, { s with pps := s.pps ++ startCode ++ nalu }, rfl, ?_, rfl,
          h.hasWriteSpsPps, h.wrote⟩
        dsimp only
        rw [h.pps, List.append_assoc]
      · rw [if_neg hset, if_neg hset]
        exact ⟨v, s, rfl, h⟩

/-- The loop with counters is where the loop over what is left is. -/
structure Tracks (src : Bytes) (step : ω → Bytes → ω) (w : ω) (v : Vars) (s : Buffers ω) (v' : Annexb) : Prop where
  index : v.index ≤ src.length
  rest : v'.rest = src.drop v.index
  dataSize : v.dataSize = v'.rest.length
  agrees : Agrees step w v s v'

theorem annexbTurn_simulates (h : Tracks src step w v s v') :
    Simulates
      (fun r s r' parser => parser = { specificInfo } ∧ match r, r' with
        | .inl v, .inl v' => Tracks src step w v s v'
        | .inr (), .inr written => Wrote step w written s.w
        | _, _ => False) (fun _ _ => True)
      (annexbTurn (unfailing step) specificInfo src v s) (Parser.annexbTurn v' { specificInfo }) := by
  have hlength : v'.rest.length = src.length - v.index := by rw [h.rest, List.length_drop]
  rw [annexbTurn, Parser.annexbTurn]
  by_cases hnil : v'.rest = []
  · have hend : v.dataSize ≤ 0 := by
      rw [h.dataSize, hnil]
      exact Int.le_refl 0
    rw [if_pos hnil, if_pos hend]
    exact ⟨rfl, h.agrees.wrote⟩
  have hgo : ¬v.dataSize ≤ 0 := by
    have hpos : 0 < v'.rest.length := List.length_pos_iff.mpr hnil
    rw [h.dataSize]
    omega
  rw [if_neg hnil, if_neg hgo, Call.sliceFrom_of_le h.index, Call.pure_bind_apply, ← h.rest]
  cases hsize : Parser.naluSize v'.rest with
  | none => exact ⟨rfl, trivial⟩
  | some nalLen =>
      have hfour : naluBytesLen ≤ v'.rest.length := by
        by_contra hshort
        rw [Parser.naluSize, if_pos (Nat.lt_of_not_le hshort)] at hsize
        cases hsize
      have hindex : v.index + naluBytesLen ≤ src.length := by
        have hbefore := h.index
        have hpositive : 0 < naluBytesLen := by decide
        omega
      have hrest : v'.rest.drop naluBytesLen = src.drop (v.index + naluBytesLen) := by rw [h.rest, List.drop_drop]
      have hleft : (src.drop (v.index + naluBytesLen)).length = v'.rest.length - naluBytesLen := by
        rw [← hrest, List.length_drop]
      dsimp only
      rw [hrest]
      by_cases hshort : v.dataSize - naluBytesLen < nalLen
      · have hfails : ¬((src.drop (v.index + naluBytesLen)).length ≥ nalLen ∧ nalLen > 0) := by
          rw [hleft]
          rw [h.dataSize] at hshort
          omega
        rw [if_pos hshort, if_neg hfails]
        exact ⟨rfl, trivial⟩
      rw [if_neg hshort, Call.sliceFrom_of_le hindex, Call.pure_bind_apply]
      by_cases hbody : (src.drop (v.index + naluBytesLen)).length < nalLen ∨ nalLen = 0
      · have hfails : ¬((src.drop (v.index + naluBytesLen)).length ≥ nalLen ∧ nalLen > 0) := by omega
        rw [if_pos hbody, if_neg hfails]
        exact ⟨rfl, trivial⟩
      obtain ⟨hle, hpos⟩ := not_or.mp hbody
      have hunit : v.index + naluBytesLen + nalLen ≤ src.length := by
        rw [List.length_drop] at hle
        omega
      rw [if_neg hbody, if_pos ⟨Nat.le_of_not_lt hle, Nat.pos_of_ne_zero hpos⟩]
      have hagrees :
          Agrees step w { v with index := v.index + naluBytesLen, dataSize := v.dataSize - naluBytesLen } s v' :=
        ⟨h.agrees.pps, h.agrees.hasSpsPps, h.agrees.hasWriteSpsPps, h.agrees.wrote⟩
      obtain ⟨v1, s1, hput, hagrees1⟩ := putNalu_agrees specificInfo hagrees hunit (Nat.pos_of_ne_zero hpos)
      rw [Call.bind_of_ok hput]
      refine ⟨rfl, hunit, ?_, ?_, hagrees1.pps, hagrees1.hasSpsPps, hagrees1.hasWriteSpsPps, hagrees1.wrote⟩
      · dsimp only
        rw [List.drop_drop]
      · dsimp only
        rw [List.length_drop, hleft, h.dataSize]
        omega

theorem getAnnexbH264_simulates (step : ω → Bytes → ω) (specificInfo src : Bytes) (s : Buffers ω) :
    Simulates (fun _ t written parser => parser = { specificInfo } ∧ Wrote step s.w written t.w) (fun _ _ => True)
      (getAnnexbH264 (unfailing step) specificInfo src s) (Parser.getAnnexbH264 src { specificInfo }) := by
  rw [getAnnexbH264, Parser.getAnnexbH264]
  split_ifs with hshort
  · exact ⟨rfl, trivial⟩
  · have hstart :
        Tracks src step s.w { dataSize := src.length } ⟨[], step s.w naluAud⟩ { rest := src, written := naluAud } :=
      ⟨Nat.zero_le _, rfl, rfl, rfl, rfl, rfl, [naluAud], rfl, rfl⟩
    refine Call.simulates_loop (I := fun v t v' parser => parser = { specificInfo } ∧ Tracks src step s.w v t v') ?_
      (src.length + 1) ⟨rfl, hstart⟩
    rintro v t v' _ ⟨rfl, htracks⟩
    refine (annexbTurn_simulates htracks).imp ?_ fun _ _ _ => trivial
    rintro (v | _) t (v' | written) parser ⟨rfl, h⟩
    · exact ⟨rfl, h⟩
    · exact h
    · exact h
    · exact ⟨rfl, h⟩

/-- With a writer that does not fail the data are accepted exactly if they are length-prefixed units, and then the access
unit is written; all other data are refused with an error. Nothing is out of range, and the loop ends. -/
theorem getAnnexbH264_exact (step : ω → Bytes → ω) (specificInfo src : Bytes) (s : Buffers ω) :
    (∃ units t, LengthPrefixed src units ∧ getAnnexbH264 (unfailing step) specificInfo src s = .ok () t ∧
      Wrote step s.w (annexb specificInfo units) t.w) ∨
    (¬∃ units, LengthPrefixed src units) ∧
      ∃ e t, getAnnexbH264 (unfailing step) specificInfo src s = .err e t := by
  have hsimulates := getAnnexbH264_simulates step specificInfo src s
  rcases getAnnexbH264_eq { specificInfo } src with ⟨units, hunits, hok⟩ | ⟨hno, e, herr⟩
  · obtain ⟨_, t, hcall, -, hwrote⟩ := hsimulates.to_ok hok
    exact .inl ⟨units, t, hunits, hcall, hwrote⟩
  · refine .inr ⟨hno, ?_⟩
    cases hcall : getAnnexbH264 (unfailing step) specificInfo src s with
    | ok _ t =>
        obtain ⟨_, _, hok, -⟩ := hsimulates.of_ok hcall
        rw [herr] at hok
        cases hok
    | err e t => exact ⟨e, t, rfl⟩
    | panic p => simp [hcall, herr, Simulates] at hsimulates
    | diverge => simp [hcall, herr, Simulates] at hsimulates

end Indexed

end H264

end Livego
