import Livego.HlsPlaylist
import Livego.Strings

/-! What a player reads in the playlists that hls sources write. -/

namespace Livego

namespace Hls

open Strings (decimal number)

/-- The target duration is in seconds, and each segment has its duration in milliseconds and its URI. -/
structure MediaPlaylist where
  targetDuration : Nat
  mediaSequence : Nat
  segments : List (Nat × Bytes)
  deriving DecidableEq, Repr

namespace MediaPlaylist

/-- Seconds with three decimals, up to a comma. -/
def milliseconds (s : Bytes) : Option Nat :=
  match (s.takeWhile (· ≠ Url.chr ',')).splitOn (Url.chr '.') with
  | [whole, decimals] => if decimals.length = 3 then number (whole ++ decimals) else none
  | _ => none

/-- The number in the first line with this tag. -/
def tagged (tag : Bytes) (ls : List Bytes) : Option Nat := (ls.findSome? fun l => l.dropPrefix? tag).bind number

/-- The lines that are neither empty nor tags are URIs. The duration of a segment stands in front of its URI. -/
def segmentsOf (ms : Nat) : List Bytes → List (Nat × Bytes)
  | [] => []
  | l :: ls =>
    match l.dropPrefix? (lit "#EXTINF:") with
    | some s => segmentsOf ((milliseconds s).getD 0) ls
    | none => if l = [] ∨ l.head? = some (Url.chr '#') then segmentsOf ms ls else (ms, l) :: segmentsOf ms ls

def read (text : Bytes) : Option MediaPlaylist :=
  let ls := text.splitOn (Url.chr '\n')
  if ls.head? = some (lit "#EXTM3U") then
    (tagged (lit "#EXT-X-TARGETDURATION:") ls).map fun targetDuration =>
      { targetDuration
        mediaSequence := (tagged (lit "#EXT-X-MEDIA-SEQUENCE:") ls).getD 0
        segments := segmentsOf 0 ls }
  else none

end MediaPlaylist

/-! ### The text of a number -/

theorem lit_repr (n : Nat) : lit n.repr = decimal n := by
  induction n using Nat.strongRecOn with
  | ind n ih =>
      have hdigit : ∀ d : Fin 10, lit (String.singleton d.val.digitChar) = decimal d := by decide +kernel
      rcases Nat.lt_or_ge n 10 with hlt | hge
      · rw [Nat.repr_of_lt hlt]
        exact hdigit ⟨n, hlt⟩
      · rw [Nat.repr_of_ge hge, lit_append, ih (n / 10) (by omega), Strings.decimal_of_ge hge]
        exact congrArg _ (hdigit ⟨n % 10, Nat.mod_lt n (by decide)⟩)

theorem not_mem_decimal {c : UInt8} (hc : Url.isDigit c = false) (n : Nat) : c ∉ decimal n := by
  intro hmem
  rw [Strings.isDigit_decimal n c hmem] at hc
  cases hc

/-- The digits that `%.3f` prints. -/
theorem lit_seconds {ms : Int} (hms : 0 ≤ ms) :
    lit (seconds ms) = decimal (ms.toNat / 1000) ++ Url.chr '.' ::
      (decimal (ms.toNat / 100 % 10) ++ decimal (ms.toNat / 10 % 10) ++ decimal (ms.toNat % 10)) := by
  have hsign : ¬ms < 0 := not_lt.mpr hms
  have hnat : ms.natAbs = ms.toNat := by omega
  have hdot : lit "." = [Url.chr '.'] := rfl
  simp only [seconds, if_neg hsign, hnat, toString, lit_append, lit_repr, hdot]
  simp [lit]

theorem milliseconds_seconds {ms : Int} (hms : 0 ≤ ms) :
    MediaPlaylist.milliseconds (lit (seconds ms) ++ lit ",") = some ms.toNat := by
  obtain ⟨h1, hl1⟩ := Strings.number_digit ⟨ms.toNat / 100 % 10, Nat.mod_lt _ (by decide)⟩
  obtain ⟨h2, hl2⟩ := Strings.number_digit ⟨ms.toNat / 10 % 10, Nat.mod_lt _ (by decide)⟩
  obtain ⟨h3, hl3⟩ := Strings.number_digit ⟨ms.toNat % 10, Nat.mod_lt _ (by decide)⟩
  dsimp only at h1 hl1 h2 hl2 h3 hl3
  set decimals := decimal (ms.toNat / 100 % 10) ++ decimal (ms.toNat / 10 % 10) ++ decimal (ms.toNat % 10) with hdecimals
  have hlength : decimals.length = 3 := by
    rw [hdecimals, List.length_append, List.length_append, hl1, hl2, hl3]
  have hdot : Url.chr '.' ∉ decimals := by
    rw [hdecimals, List.mem_append, List.mem_append]
    rintro ((h | h) | h)
    · exact not_mem_decimal (by decide) _ h
    · exact not_mem_decimal (by decide) _ h
    · exact not_mem_decimal (by decide) _ h
  have hcomma : ∀ c ∈ lit (seconds ms), decide (c ≠ Url.chr ',') = true := by
    rw [lit_seconds hms, ← hdecimals]
    intro c hc
    rw [decide_eq_true_eq]
    rintro rfl
    rw [hdecimals, List.mem_append, List.mem_cons, List.mem_append, List.mem_append] at hc
    obtain h | h | (h | h) | h := hc
    · exact not_mem_decimal (by decide) _ h
    · exact absurd h (by decide)
    · exact not_mem_decimal (by decide) _ h
    · exact not_mem_decimal (by decide) _ h
    · exact not_mem_decimal (by decide) _ h
  have htake : (lit (seconds ms) ++ lit ",").takeWhile (· ≠ Url.chr ',') = lit (seconds ms) := by
    rw [List.takeWhile_append_of_pos hcomma]
    exact List.append_nil _
  have hsplit : (lit (seconds ms)).splitOn (Url.chr '.') = [decimal (ms.toNat / 1000), decimals] := by
    rw [lit_seconds hms, ← hdecimals, List.splitOn_append_cons_self_of_not_mem (not_mem_decimal (by decide) _),
      List.splitOn_eq_singleton hdot]
  have hnumber : number decimals = some (10 ^ 1 * (10 ^ 1 * (ms.toNat / 100 % 10) + ms.toNat / 10 % 10) + ms.toNat % 10) := by
    rw [hdecimals, Strings.number_append (Strings.number_append h1 h2) h3, hl2, hl3]
  rw [MediaPlaylist.milliseconds, htake, hsplit]
  dsimp only
  rw [if_pos hlength, Strings.number_append (Strings.number_decimal _) hnumber, hlength]
  congr 1
  omega

/-! ### The lines of a playlist -/

def headerLines (maxDuration : Int) (seq : Nat) : List Bytes :=
  [lit "#EXTM3U", lit "#EXT-X-VERSION:3", lit "#EXT-X-ALLOW-CACHE:NO",
    lit "#EXT-X-TARGETDURATION:" ++ decimal (maxDuration.toNat / 1000 + 1), lit "#EXT-X-MEDIA-SEQUENCE:" ++ decimal seq, []]

def entryLines (v : TSItem) : List Bytes := [lit "#EXTINF:" ++ (lit (seconds v.duration) ++ lit ","), lit v.name]

theorem m3u8Header_eq {maxDuration : Int} (hmax : 0 ≤ maxDuration) (seq : Nat) :
    m3u8Header maxDuration seq = (headerLines maxDuration seq).flatMap (· ++ [Url.chr '\n']) := by
  have htarget : maxDuration.tdiv 1000 + 1 = ((maxDuration.toNat / 1000 + 1 : Nat) : Int) := by
    obtain ⟨n, rfl⟩ := Int.eq_ofNat_of_zero_le hmax
    rfl
  have hfront : lit "#EXTM3U\n#EXT-X-VERSION:3\n#EXT-X-ALLOW-CACHE:NO\n#EXT-X-TARGETDURATION:" =
      lit "#EXTM3U" ++ [Url.chr '\n'] ++ (lit "#EXT-X-VERSION:3" ++ [Url.chr '\n']) ++
        (lit "#EXT-X-ALLOW-CACHE:NO" ++ [Url.chr '\n']) ++ lit "#EXT-X-TARGETDURATION:" := by decide +kernel
  have hsequence : lit "\n#EXT-X-MEDIA-SEQUENCE:" = [Url.chr '\n'] ++ lit "#EXT-X-MEDIA-SEQUENCE:" := by decide +kernel
  have hback : lit "\n\n" = [Url.chr '\n', Url.chr '\n'] := by decide +kernel
  calc
    m3u8Header maxDuration seq =
        lit "#EXTM3U\n#EXT-X-VERSION:3\n#EXT-X-ALLOW-CACHE:NO\n#EXT-X-TARGETDURATION:" ++
          decimal (maxDuration.toNat / 1000 + 1) ++ lit "\n#EXT-X-MEDIA-SEQUENCE:" ++ decimal seq ++ lit "\n\n" := by
      rw [m3u8Header, htarget]
      simp only [← lit_repr, ← lit_append]
      rfl
    _ = (headerLines maxDuration seq).flatMap (· ++ [Url.chr '\n']) := by
      rw [hfront, hsequence, hback]
      simp [headerLines]

theorem m3u8Entry_eq (v : TSItem) : m3u8Entry v = (entryLines v).flatMap (· ++ [Url.chr '\n']) := by
  have hcomma : lit ",\n" = lit "," ++ [Url.chr '\n'] := rfl
  have hend : lit "\n" = [Url.chr '\n'] := rfl
  calc
    m3u8Entry v = lit "#EXTINF:" ++ lit (seconds v.duration) ++ lit ",\n" ++ lit v.name ++ lit "\n" := by
      rw [m3u8Entry]
      simp only [← lit_append]
      rfl
    _ = (entryLines v).flatMap (· ++ [Url.chr '\n']) := by
      rw [hcomma, hend]
      simp [entryLines]

/-- An item as `cut` makes it: the name is a rooted path of one line. -/
structure Readable (v : TSItem) : Prop where
  duration : 0 ≤ v.duration
  rooted : (lit v.name).head? = some (Url.chr '/')
  line : Url.chr '\n' ∉ lit v.name

theorem line_headerLines (maxDuration : Int) (seq : Nat) : ∀ l ∈ headerLines maxDuration seq, Url.chr '\n' ∉ l := by
  have hdecimal := fun n => not_mem_decimal (by decide : Url.isDigit (Url.chr '\n') = false) n
  simp only [headerLines, List.forall_mem_cons, List.mem_append, not_or]
  refine ⟨by decide +kernel, by decide +kernel, by decide +kernel, ⟨by decide +kernel, hdecimal _⟩,
    ⟨by decide +kernel, hdecimal _⟩, List.not_mem_nil, ?_⟩
  exact List.forall_mem_nil _

theorem line_entryLines {v : TSItem} (hv : Readable v) : ∀ l ∈ entryLines v, Url.chr '\n' ∉ l := by
  have hdecimal := fun n => not_mem_decimal (by decide : Url.isDigit (Url.chr '\n') = false) n
  have hextinf : Url.chr '\n' ∉ lit "#EXTINF:" ++ (lit (seconds v.duration) ++ lit ",") := by
    rw [lit_seconds hv.duration]
    simp only [List.mem_append, List.mem_cons, not_or]
    exact ⟨by decide +kernel, ⟨hdecimal _, by decide, ⟨hdecimal _, hdecimal _⟩, hdecimal _⟩, by decide +kernel⟩
  exact List.forall_mem_cons.mpr ⟨hextinf, List.forall_mem_singleton.mpr hv.line⟩

theorem dropPrefix?_append (tag s : Bytes) : (tag ++ s).dropPrefix? tag = some s :=
  List.dropPrefix?_append_of_beq s (beq_self_eq_true tag)

theorem tagged_target (maxDuration : Int) (seq : Nat) (ls : List Bytes) :
    MediaPlaylist.tagged (lit "#EXT-X-TARGETDURATION:") (headerLines maxDuration seq ++ ls) =
      some (maxDuration.toNat / 1000 + 1) := by
  have h1 : (lit "#EXTM3U").dropPrefix? (lit "#EXT-X-TARGETDURATION:") = none := by decide +kernel
  have h2 : (lit "#EXT-X-VERSION:3").dropPrefix? (lit "#EXT-X-TARGETDURATION:") = none := by decide +kernel
  have h3 : (lit "#EXT-X-ALLOW-CACHE:NO").dropPrefix? (lit "#EXT-X-TARGETDURATION:") = none := by decide +kernel
  simp only [MediaPlaylist.tagged, headerLines, List.cons_append, List.findSome?_cons, h1, h2, h3, dropPrefix?_append,
    Option.bind_some, Strings.number_decimal]

theorem tagged_sequence (maxDuration : Int) (seq : Nat) (ls : List Bytes) :
    MediaPlaylist.tagged (lit "#EXT-X-MEDIA-SEQUENCE:") (headerLines maxDuration seq ++ ls) = some seq := by
  have h1 : (lit "#EXTM3U").dropPrefix? (lit "#EXT-X-MEDIA-SEQUENCE:") = none := by decide +kernel
  have h2 : (lit "#EXT-X-VERSION:3").dropPrefix? (lit "#EXT-X-MEDIA-SEQUENCE:") = none := by decide +kernel
  have h3 : (lit "#EXT-X-ALLOW-CACHE:NO").dropPrefix? (lit "#EXT-X-MEDIA-SEQUENCE:") = none := by decide +kernel
  have h4 : ∀ s, (lit "#EXT-X-TARGETDURATION:" ++ s).dropPrefix? (lit "#EXT-X-MEDIA-SEQUENCE:") = none := fun s => rfl
  simp only [MediaPlaylist.tagged, headerLines, List.cons_append, List.findSome?_cons, h1, h2, h3, h4, dropPrefix?_append,
    Option.bind_some, Strings.number_decimal]

theorem segmentsOf_header (maxDuration : Int) (seq ms : Nat) (ls : List Bytes) :
    MediaPlaylist.segmentsOf ms (headerLines maxDuration seq ++ ls) = MediaPlaylist.segmentsOf ms ls := by
  have hskip : ∀ l : Bytes, ∀ ls, l.dropPrefix? (lit "#EXTINF:") = none → l = [] ∨ l.head? = some (Url.chr '#') →
      MediaPlaylist.segmentsOf ms (l :: ls) = MediaPlaylist.segmentsOf ms ls := by
    intro l ls hnone hl
    rw [MediaPlaylist.segmentsOf, hnone]
    exact if_pos hl
  simp only [headerLines, List.cons_append, List.nil_append]
  rw [hskip _ _ (by decide +kernel) (by decide +kernel), hskip _ _ (by decide +kernel) (by decide +kernel),
    hskip _ _ (by decide +kernel) (by decide +kernel), hskip _ _ rfl (Or.inr rfl), hskip _ _ rfl (Or.inr rfl),
    hskip _ _ rfl (Or.inl rfl)]

theorem segmentsOf_entries {items : List TSItem} (h : ∀ v ∈ items, Readable v) (ms : Nat) :
    MediaPlaylist.segmentsOf ms (items.flatMap entryLines ++ [[]]) =
      items.map fun v => (v.duration.toNat, lit v.name) := by
  induction items generalizing ms with
  | nil => rfl
  | cons v items ih =>
      obtain ⟨hv, hitems⟩ := List.forall_mem_cons.mp h
      obtain ⟨rest, hname⟩ := List.head?_eq_some_iff.mp hv.rooted
      rw [List.flatMap_cons, List.append_assoc, entryLines, List.cons_append, List.cons_append, List.nil_append,
        MediaPlaylist.segmentsOf, dropPrefix?_append]
      dsimp only
      rw [milliseconds_seconds hv.duration, MediaPlaylist.segmentsOf, hname]
      have hnone : (Url.chr '/' :: rest).dropPrefix? (lit "#EXTINF:") = none := rfl
      have hnot : ¬(Url.chr '/' :: rest = [] ∨ (Url.chr '/' :: rest).head? = some (Url.chr '#')) := by
        rintro (hnil | hhead)
        · cases hnil
        · exact absurd (Option.some.inj hhead) (by decide)
      rw [hnone]
      dsimp only
      rw [if_neg hnot, ih hitems, List.map_cons, hname]
      rfl

/-- The playlist says which segments there are. Its target duration is the whole seconds of the longest and one more. -/
theorem read_playlistOf {items : List TSItem} (h : ∀ v ∈ items, Readable v) :
    MediaPlaylist.read (playlistOf items) = some
      { targetDuration := ((items.map TSItem.duration).foldl max 0).toNat / 1000 + 1
        mediaSequence := (items.head?.map TSItem.seqNum).getD 0
        segments := items.map fun v => (v.duration.toNat, lit v.name) } := by
  have hmax : 0 ≤ (items.map TSItem.duration).foldl max 0 :=
    (List.max?_eq_some_iff.mp List.max?_cons').2 0 List.mem_cons_self
  set maxDuration := (items.map TSItem.duration).foldl max 0
  set seq := (items.head?.map TSItem.seqNum).getD 0
  have htext : playlistOf items =
      (headerLines maxDuration seq ++ items.flatMap entryLines).flatMap (· ++ [Url.chr '\n']) := by
    rw [playlistOf, m3u8Header_eq hmax, List.flatMap_append, List.flatMap_assoc]
    congr 1
    exact List.flatMap_congr fun v _ => m3u8Entry_eq v
  have hlines : ∀ l ∈ headerLines maxDuration seq ++ items.flatMap entryLines, Url.chr '\n' ∉ l := by
    refine List.forall_mem_append.mpr ⟨line_headerLines _ _, fun l hl => ?_⟩
    obtain ⟨v, hv, hl⟩ := List.mem_flatMap.mp hl
    exact line_entryLines (h v hv) l hl
  have hhead : (headerLines maxDuration seq ++ (items.flatMap entryLines ++ [[]])).head? = some (lit "#EXTM3U") := rfl
  rw [MediaPlaylist.read, htext, Strings.splitOn_ended hlines, List.append_assoc, if_pos hhead,
    tagged_target, tagged_sequence, segmentsOf_header, segmentsOf_entries h]
  rfl

end Hls

end Livego
