import Livego.AvPacket

/-! What the two demuxers do on every packet. The header parser checks for the flags byte of audio and for
five bytes of video, and then reads the second byte of AAC audio without a check. -/

namespace Livego

open Fallible

namespace Tag

/-- How many bytes the tag header takes: audio has a second byte if it is AAC, video has four more bytes if
it is a key frame or an inter frame. -/
def headerLength (isVideo : Bool) (flags : UInt8) : Nat :=
  if isVideo then if flags >>> 4 = frameInter ∨ flags >>> 4 = frameKey then 5 else 1
  else if flags >>> 4 = soundAac then 2 else 1

/-- AAC audio that ends behind its flags byte. -/
def CutAac (isVideo : Bool) (b : Bytes) : Prop :=
  isVideo = false ∧ ∃ flags, b = [flags] ∧ flags >>> 4 = soundAac

/-- A header that was parsed lies inside the data. -/
structure Parsed (b : Bytes) (isVideo : Bool) (n : Nat) (tag : Tag) : Prop where
  length : ∃ flags rest, b = flags :: rest ∧ n = headerLength isVideo flags
  inside : n ≤ b.length
  coded : tag.codecID ≠ 0 → 5 ≤ b.length

theorem parseAudioHeader_sat (b : Bytes) :
    (parseAudioHeader b {}).Sat (Parsed b false) (fun _ _ => True) (CutAac false b) ∧
      (CutAac false b → (parseAudioHeader b {}).Panics) := by
  cases b with
  | nil => exact ⟨trivial, fun ⟨_, flags, hb, _⟩ => by cases hb⟩
  | cons flags rest =>
      simp only [parseAudioHeader]
      by_cases haac : flags >>> 4 = soundAac
      · rw [if_pos haac]
        cases rest with
        | nil => exact ⟨⟨rfl, flags, rfl, haac⟩, fun _ => trivial⟩
        | cons packetType rest =>
            refine ⟨⟨⟨flags, _, rfl, ?_⟩, by simp, fun hne => absurd rfl hne⟩, ?_⟩
            · simp [headerLength, haac]
            · rintro ⟨_, flags', hb, _⟩
              cases hb
      · rw [if_neg haac]
        refine ⟨⟨⟨flags, _, rfl, ?_⟩, by simp, fun hne => absurd rfl hne⟩, ?_⟩
        · simp [headerLength, haac]
        · rintro ⟨_, flags', hb, haac'⟩
          cases hb
          exact haac haac'

theorem parseVideoHeader_sat (b : Bytes) :
    (parseVideoHeader b {}).Sat (Parsed b true) (fun _ _ => True) False := by
  unfold parseVideoHeader
  split
  · rename_i flags b1 b2 b3 b4 rest
    dsimp only
    have hlen : 5 ≤ (flags :: b1 :: b2 :: b3 :: b4 :: rest).length := by simp
    by_cases hframe : flags >>> 4 = frameInter ∨ flags >>> 4 = frameKey
    · rw [if_pos hframe]
      exact ⟨⟨flags, _, rfl, by simp [headerLength, hframe]⟩, hlen, fun _ => hlen⟩
    · rw [if_neg hframe]
      exact ⟨⟨flags, _, rfl, by simp [headerLength, hframe]⟩, by simp, fun _ => hlen⟩
  · trivial

/-- The header is parsed, or an error says that it is too short. Only cut AAC audio panics. -/
theorem parseMediaTagHeader_sat (b : Bytes) (isVideo : Bool) :
    (parseMediaTagHeader b isVideo {}).Sat (Parsed b isVideo) (fun _ _ => True) (CutAac isVideo b) ∧
      (CutAac isVideo b → (parseMediaTagHeader b isVideo {}).Panics) := by
  cases isVideo with
  | false => exact parseAudioHeader_sat b
  | true =>
      refine ⟨(parseVideoHeader_sat b).imp (fun _ _ h => h) (fun _ _ h => h) False.elim, ?_⟩
      rintro ⟨hvideo, _⟩
      cases hvideo

/-- The data hold all of the tag header. -/
def HoldsHeader (isVideo : Bool) (b : Bytes) : Prop :=
  if isVideo = true then 5 ≤ b.length else b ≠ [] ∧ ¬CutAac isVideo b

theorem parseMediaTagHeader_ok_iff (b : Bytes) (isVideo : Bool) :
    (∃ n tag, parseMediaTagHeader b isVideo {} = .ok n tag) ↔ HoldsHeader isVideo b := by
  cases isVideo with
  | false =>
      have hsat := parseAudioHeader_sat b
      show (∃ n tag, parseAudioHeader b {} = .ok n tag) ↔ b ≠ [] ∧ ¬CutAac false b
      cases hparse : parseAudioHeader b {} with
      | ok n tag =>
          obtain ⟨flags, rest, hb, -⟩ := (hsat.1.of_ok hparse).length
          have hne : b ≠ [] := by
            rw [hb]
            exact List.cons_ne_nil _ _
          exact iff_of_true ⟨n, tag, rfl⟩ ⟨hne, fun hcut => (hsat.2 hcut).ne_ok hparse⟩
      | err e tag =>
          refine iff_of_false (by simp) fun ⟨hne, _⟩ => ?_
          obtain ⟨flags, rest, hb⟩ := List.exists_cons_of_ne_nil hne
          subst hb
          simp only [parseAudioHeader] at hparse
          split_ifs at hparse
          split at hparse <;> cases hparse
      | panic f =>
          have hcut : CutAac false b := hsat.1.of_panic hparse
          exact iff_of_false (by simp) fun ⟨_, hwhole⟩ => hwhole hcut
      | diverge => exact absurd hparse hsat.1.ne_diverge
  | true =>
      show (∃ n tag, parseVideoHeader b {} = .ok n tag) ↔ 5 ≤ b.length
      unfold parseVideoHeader
      split
      · dsimp only
        split_ifs <;> simp
      · rename_i hshort
        refine iff_of_false (by simp) fun hlen => ?_
        match b, hlen with
        | flags :: b1 :: b2 :: b3 :: b4 :: rest, _ => exact hshort flags b1 b2 b3 b4 rest rfl

end Tag

open Tag

namespace Demuxer

/-- Both demuxers return on the packet, and leave it as it was when they return an error. The header that
`demux` takes off is the one that `demuxH` sets, its bytes are those in front of what is left, and the two bytes that
`demux` compares are there. -/
structure SafeAndAtomic (p : AvPacket) : Prop where
  demuxH : (demuxH p).Sat (fun _ p' => ∃ tag, p' = { p with header := some tag }) (fun _ p' => p' = p) False
  demux : (demux p).Sat
    (fun _ p' => ∃ header : Bytes, p.data = header ++ p'.data ∧
      (∃ flags rest, header = flags :: rest ∧ header.length = headerLength p.isVideo flags) ∧
      Demuxer.demuxH p = .ok () { p with header := p'.header } ∧
      p' = { p with header := p'.header, data := p'.data })
    (fun _ p' => p' = p) False
  compared : ∀ n tag, parseMediaTagHeader p.data p.isVideo {} = .ok n tag → tag.codecID = videoH264 →
    2 ≤ p.data.length

theorem demuxH_panics_iff (p : AvPacket) : (demuxH p).Panics ↔ CutAac p.isVideo p.data := by
  obtain ⟨hsat, hcut⟩ := parseMediaTagHeader_sat p.data p.isVideo
  constructor
  · intro hp
    unfold demuxH at hp
    cases hparse : parseMediaTagHeader p.data p.isVideo {} with
    | panic f => exact hsat.of_panic hparse
    | _ => simp [hparse] at hp
  · intro h
    obtain ⟨f, hparse⟩ := Outcome.panics_iff.mp (hcut h)
    simp only [demuxH, hparse]
    trivial

/-- Demuxing is safe and atomic except on AAC audio of one byte. -/
theorem safeAndAtomic_iff (p : AvPacket) : SafeAndAtomic p ↔ ¬CutAac p.isVideo p.data := by
  obtain ⟨hsat, -⟩ := parseMediaTagHeader_sat p.data p.isVideo
  constructor
  · intro h hcut
    exact h.demuxH.of_panics ((demuxH_panics_iff p).mpr hcut)
  · intro hwhole
    cases hparse : parseMediaTagHeader p.data p.isVideo {} with
    | ok n tag =>
        obtain ⟨⟨flags, rest, hdata, hn⟩, hinside, hcoded⟩ := hsat.of_ok hparse
        have hH : demuxH p = .ok () { p with header := some tag } := by simp only [demuxH, hparse]
        refine ⟨by rw [hH]; exact ⟨tag, rfl⟩, ?_, ?_⟩
        · simp only [demux, hparse]
          split
          · exact rfl
          · have hpos : 0 < n := by
              rw [hn]
              unfold headerLength
              split <;> split <;> decide
            refine ⟨p.data.take n, (List.take_append_drop n p.data).symm, ⟨flags, rest.take (n - 1), ?_, ?_⟩, hH, rfl⟩
            · rw [hdata, ← Nat.succ_pred_eq_of_pos hpos]
              rfl
            · rw [List.length_take, Nat.min_eq_left hinside, hn]
        · intro n' tag' hok hh264
          rw [hparse] at hok
          cases hok
          have := hcoded (by rw [hh264]; decide)
          omega
    | err e tag =>
        refine ⟨by simp [demuxH, hparse], by simp [demux, hparse], ?_⟩
        intro n' tag' hok
        rw [hparse] at hok
        cases hok
    | panic f => exact absurd (hsat.of_panic hparse) hwhole
    | diverge => exact absurd hparse hsat.ne_diverge

/-- An AAC packet that ends behind its flags panics both. -/
theorem not_safeAndAtomic :
    ¬SafeAndAtomic { isAudio := true, data := [0xaf] } ∧
      demuxH { isAudio := true, data := [0xaf] } = .panic .indexOutOfRange ∧
        demux { isAudio := true, data := [0xaf] } = .panic .indexOutOfRange := by
  refine ⟨?_, rfl, rfl⟩
  intro h
  exact h.demux

end Demuxer

end Livego
