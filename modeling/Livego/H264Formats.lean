import Livego.H264SpecificInfo

/-! Which data are taken to have start codes already: length-prefixed units look so exactly if the first is of one byte, and
are then written as they are, which is never what they should be written as. -/

namespace Livego

open Fallible Outcome Call

namespace H264

/-! ### What an access unit begins with -/

/-- Nothing, or a start code first. -/
def BeginsCoded (bs : Bytes) : Prop := bs = [] ∨ startCode <+: bs

variable {bs bs' specificInfo : Bytes} {nalu : Nalu} {units : List Nalu}

theorem BeginsCoded.append (h : BeginsCoded bs) (h' : BeginsCoded bs') : BeginsCoded (bs ++ bs') := by
  rcases h with rfl | h
  · exact h'
  · exact .inr (h.trans (List.prefix_append bs bs'))

theorem beginsCoded_flatMap (units : List Nalu) : BeginsCoded (units.flatMap Nalu.startCoded) := by
  cases units with
  | nil => exact .inl rfl
  | cons nalu units =>
      rw [List.flatMap_cons, Nalu.startCoded, List.append_assoc]
      exact .inr (List.prefix_append _ _)

/-- What is written behind the delimiter. -/
def body (specificInfo : Bytes) (units : List Nalu) : Bytes :=
  let front := beforeIdr units
  let back := fromIdr units
  let block := if back = [] then [] else if HasParameterSet front then parameterSets front else specificInfo
  pictures front ++ block ++ pictures back

theorem annexb_eq (specificInfo : Bytes) (units : List Nalu) :
    annexb specificInfo units = naluAud ++ body specificInfo units := by
  rw [annexb, body]
  simp only [List.append_assoc]

theorem body_picture (h : nalu.IsPicture) (hidr : ¬nalu.IsIdr) :
    body specificInfo (nalu :: units) = nalu.startCoded ++ body specificInfo units := by
  have hset := Nalu.not_isParameterSet_of_isPicture h
  rw [body, beforeIdr_cons hidr, fromIdr_cons hidr, body]
  simp [pictures_cons, parameterSets_cons, hasParameterSet_cons, h, hset]

theorem body_other (h : ¬nalu.IsPicture) (hset : ¬nalu.IsParameterSet) :
    body specificInfo (nalu :: units) = body specificInfo units := by
  have hidr : ¬nalu.IsIdr := fun hidr => h hidr.isPicture
  rw [body, beforeIdr_cons hidr, fromIdr_cons hidr, body]
  simp [pictures_cons, parameterSets_cons, hasParameterSet_cons, h, hset]

theorem beginsCoded_body (h : BeginsCoded specificInfo) (units : List Nalu) : BeginsCoded (body specificInfo units) := by
  have hblock : BeginsCoded (if fromIdr units = [] then []
      else if HasParameterSet (beforeIdr units) then parameterSets (beforeIdr units) else specificInfo) := by
    split_ifs
    · exact .inl rfl
    · exact beginsCoded_flatMap _
    · exact h
  exact ((beginsCoded_flatMap _).append hblock).append (beginsCoded_flatMap _)

/-- The parameter sets of a parser begin with a start code. -/
theorem Reaches.beginsCoded {calls : List (Bytes × Bool)} {parser : Parser} (h : Reaches calls parser) :
    BeginsCoded parser.specificInfo := by
  rw [reaches_iff.mp h]
  dsimp only
  clear h
  induction calls with
  | nil => exact .inl rfl
  | cons call calls ih =>
      have hcall : BeginsCoded (setsOfCall call) := by
        rw [setsOfCall]
        split_ifs
        · rcases parseSpecificInfo_cases call.1 with ⟨sets, hsets, hprefix, -⟩ | ⟨hnone, -⟩
          · rw [hsets]
            exact .inr hprefix
          · rw [hnone]
            exact .inl rfl
        · exact .inl rfl
      rw [List.flatMap_cons]
      exact hcall.append ih

/-! ### The two readings -/

/-- A front that comes back one place later. -/
theorem eq_cons_of_append_eq {front : Bytes} {b : UInt8} (h : front ++ bs = b :: (front ++ bs')) : bs = b :: bs' := by
  induction front with
  | nil => exact h
  | cons c front ih =>
      obtain ⟨rfl, hrest⟩ := List.cons.inj h
      exact ih hrest

/-- Units are never what is written for them, moved by one byte: the three zeros of a start code would be the end of a
length, so that the first unit and then every one after it would begin with 01. -/
theorem flatMap_lengthPrefixed_ne (h : BeginsCoded specificInfo) (units : List Nalu) (b : UInt8) :
    units.flatMap Nalu.lengthPrefixed ≠ b :: body specificInfo units := by
  induction units generalizing b with
  | nil => exact (List.cons_ne_nil _ _).symm
  | cons nalu units ih =>
      intro heq
      obtain ⟨b1, b2, b3, hlength⟩ : ∃ b1 b2 b3, Endian.beBytes naluBytesLen nalu.1.length = [b, b1, b2, b3] := by
        rw [List.flatMap_cons, Nalu.lengthPrefixed] at heq
        obtain ⟨rfl, -⟩ := List.cons.inj heq
        exact ⟨_, _, _, rfl⟩
      rw [List.flatMap_cons, Nalu.lengthPrefixed, hlength] at heq
      have hbody : body specificInfo (nalu :: units) = [b1, b2, b3] ++ (nalu.1 ++ units.flatMap Nalu.lengthPrefixed) := by
        rw [← (List.cons.inj heq).2]
        simp
      rcases beginsCoded_body h (nalu :: units) with hnil | ⟨more, hmore⟩
      · rw [hnil] at hbody
        cases hbody
      · rw [hbody] at hmore
        obtain ⟨first, rest, hfirst⟩ := List.exists_cons_of_ne_nil nalu.2.1
        have hone : first = 1 := by
          rw [hfirst] at hmore
          exact (List.cons.inj (List.cons.inj (List.cons.inj (List.cons.inj hmore).2).2).2).1.symm
        have htype : nalu.nalType = naluTypeSlice := by
          rw [Nalu.nalType, hfirst, hone, List.headD_cons]
          decide
        have hidr : ¬nalu.IsIdr := by
          rw [Nalu.IsIdr, htype]
          decide
        rw [body_picture (.inl htype) hidr, Nalu.startCoded, List.append_assoc] at hbody
        have hmoved : nalu.1 ++ units.flatMap Nalu.lengthPrefixed = 1 :: (nalu.1 ++ body specificInfo units) :=
          (List.cons.inj (List.cons.inj (List.cons.inj hbody).2).2).2.symm
        exact ih 1 (eq_cons_of_append_eq hmoved)

theorem isNaluHeader_iff {data : Bytes} (h : data = (nalu :: units).flatMap Nalu.lengthPrefixed) :
    Parser.isNaluHeader data = true ↔ nalu.1.length = 1 := by
  have hlength : (Endian.beBytes naluBytesLen nalu.1.length).length = naluBytesLen := Endian.beBytes_length _ _
  have hone : startCode = Endian.beBytes naluBytesLen 1 := rfl
  have hlt : ∀ n < 2 ^ 32, Endian.beNat (Endian.beBytes naluBytesLen n) = n := fun n hn => Endian.beNat_beBytes_of_lt hn
  rw [Parser.isNaluHeader, h, List.flatMap_cons, Nalu.lengthPrefixed, List.append_assoc, List.take_left' hlength,
    decide_eq_true_iff, hone]
  constructor
  · intro heq
    rw [← hlt nalu.1.length nalu.2.2, heq, hlt 1 (by decide)]
  · intro heq
    rw [heq]

/-- Length-prefixed units for a parser in any state: what `Parse` writes is what `getAnnexbH264` writes exactly if the first
unit is not of one byte. -/
theorem parse_eq_getAnnexbH264_iff {calls : List (Bytes × Bool)} {parser : Parser} (h : Reaches calls parser) {data : Bytes}
    {units : List Nalu} (hunits : LengthPrefixed data units) :
    Parser.parse data false parser = Parser.getAnnexbH264 data parser ↔ ∀ nalu ∈ units.head?, nalu.1.length ≠ 1 := by
  obtain ⟨nalu, rest, rfl⟩ := List.exists_cons_of_ne_nil hunits.1
  have hheader := isNaluHeader_iff hunits.2
  have hhead : (∀ nalu' ∈ (nalu :: rest).head?, nalu'.1.length ≠ 1) ↔ ¬Parser.isNaluHeader data = true := by
    simp [hheader]
  rw [hhead, Parser.parse, if_neg Bool.false_ne_true]
  by_cases hone : Parser.isNaluHeader data = true
  · rw [if_pos hone, getAnnexbH264_of_units hunits]
    refine iff_of_false ?_ (not_not.mpr hone)
    intro heq
    obtain ⟨hdata, -⟩ := Outcome.ok.inj heq
    obtain ⟨b, hnalu⟩ := List.length_eq_one_iff.mp (hheader.mp hone)
    have hprefix : nalu.lengthPrefixed = startCode ++ [b] := by
      have hfour : Endian.beBytes naluBytesLen 1 = startCode := rfl
      rw [Nalu.lengthPrefixed, hheader.mp hone, hnalu, hfour]
    rw [hunits.2, List.flatMap_cons, hprefix, annexb_eq, List.append_assoc] at hdata
    have htail : [b] ++ rest.flatMap Nalu.lengthPrefixed = 0x09 :: 0xf0 :: body parser.specificInfo (nalu :: rest) :=
      List.append_cancel_left hdata
    obtain ⟨rfl, hrest⟩ := List.cons.inj htail
    have htype : nalu.nalType = 9 := by
      rw [Nalu.nalType, hnalu, List.headD_cons]
      decide
    have hpicture : ¬nalu.IsPicture := by
      rw [Nalu.IsPicture, htype]
      decide
    have hset : ¬nalu.IsParameterSet := by
      rw [Nalu.IsParameterSet, htype]
      decide
    rw [body_other hpicture hset] at hrest
    exact flatMap_lengthPrefixed_ne h.beginsCoded rest 0xf0 hrest
  · rw [if_neg hone]
    exact iff_of_true rfl hone

theorem parse_eq_getAnnexbH264_iff_sample :
    Parser.parse [0, 0, 0, 2, 0x65, 0x88] false {} = Parser.getAnnexbH264 [0, 0, 0, 2, 0x65, 0x88] {} := by
  have hreaches : Reaches [] {} := ⟨[], rfl⟩
  have hunits : LengthPrefixed [0, 0, 0, 2, 0x65, 0x88] [⟨[0x65, 0x88], by decide⟩] := ⟨List.cons_ne_nil _ _, rfl⟩
  exact (parse_eq_getAnnexbH264_iff hreaches hunits).mpr (by simp)

/-- An end of sequence, which is one byte long, is taken to be a start code with its unit. -/
theorem parse_oneByte :
    LengthPrefixed [0, 0, 0, 1, 0x0a] [⟨[0x0a], by decide⟩] ∧
      Parser.parse [0, 0, 0, 1, 0x0a] false {} = .ok [0, 0, 0, 1, 0x0a] {} ∧
      Parser.getAnnexbH264 [0, 0, 0, 1, 0x0a] {} = .ok [0, 0, 0, 1, 0x09, 0xf0] {} := by
  have hunits : LengthPrefixed [0, 0, 0, 1, 0x0a] [⟨[0x0a], by decide⟩] := ⟨List.cons_ne_nil _ _, rfl⟩
  exact ⟨hunits, rfl, getAnnexbH264_of_units hunits {}⟩

end H264

end Livego
