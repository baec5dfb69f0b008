import Mathlib.Data.List.DropRight
import Mathlib.Data.List.TakeWhile

/-! URLs `[scheme:][//[userinfo@]host][/]path[?query][#fragment]` as byte strings: how package net/url parses them, and
which texts have which path. -/

namespace Url

abbrev Text := List UInt8

def chr (c : Char) : UInt8 := UInt8.ofNat c.toNat

/-! ### Percent-encoding -/

def isDigit (c : UInt8) : Bool := chr '0' ≤ c && c ≤ chr '9'

def isLetter (c : UInt8) : Bool := (chr 'a' ≤ c && c ≤ chr 'z') || (chr 'A' ≤ c && c ≤ chr 'Z')

/-- The value of a hexadecimal digit. -/
def unhex (c : UInt8) : Option UInt8 :=
  if isDigit c then some (c - chr '0')
  else if chr 'a' ≤ c && c ≤ chr 'f' then some (c - chr 'a' + 10)
  else if chr 'A' ≤ c && c ≤ chr 'F' then some (c - chr 'A' + 10)
  else none

/-- The parts of a URL as far as `unescape` tells them apart. -/
inductive Encoding where
  | path
  | host
  | zone
  deriving DecidableEq, Repr

/-- What may not stand unescaped in a host or a zone. -/
def shouldEscape (c : UInt8) : Bool :=
  !(isLetter c || isDigit c || c ∈ ['!', '$', '&', '\'', '(', ')', '*', '+', ',', ';', '=', ':', '[', ']', '<', '>', '"',
    '-', '_', '.', '~'].map chr)

/-- Whether the byte may not be spelled by an escape. -/
def Encoding.refuses (mode : Encoding) (v : UInt8) : Bool :=
  match mode with
  | .path => false
  | .host => v < 128 && v ≠ chr '%'
  | .zone => v ≠ chr '%' && v ≠ chr ' ' && shouldEscape v

/-- Whether the byte may not stand for itself. -/
def Encoding.excludes (mode : Encoding) (c : UInt8) : Bool := mode ≠ .path && c < 128 && shouldEscape c

def unescape (mode : Encoding) : Text → Option Text
  | [] => some []
  | c :: s =>
    if c = chr '%' then
      match s with
      | h :: l :: s =>
        match unhex h, unhex l with
        | some h, some l =>
          let v := h * 16 + l
          if mode.refuses v then none else (unescape mode s).map (v :: ·)
        | _, _ => none
      | _ => none
    else if mode.excludes c then none
    else (unescape mode s).map (c :: ·)

/-! ### Parsing -/

structure URL where
  scheme : Text := []
  opaqueText : Text := []
  user : Option (Text × Option Text) := none
  host : Text := []
  path : Text := []
  rawQuery : Text := []
  fragment : Text := []
  deriving DecidableEq, Repr

def isCTL (c : UInt8) : Bool := c < chr ' ' || c = 127

def isSchemeChar (c : UInt8) : Bool := isLetter c || isDigit c || c ∈ ['+', '-', '.'].map chr

/-- The scheme, which is empty if there is none, and the rest. -/
def getScheme (raw : Text) : Option (Text × Text) :=
  match raw.takeWhile isSchemeChar, raw.dropWhile isSchemeChar with
  | c :: s, d :: rest => if isLetter c ∧ d = chr ':' then some (c :: s, rest) else some ([], raw)
  | _ :: _, [] => some ([], raw)
  | [], _ => if raw.head? = some (chr ':') then none else some ([], raw)

def toLower (c : UInt8) : UInt8 := if chr 'A' ≤ c && c ≤ chr 'Z' then c + 32 else c

/-- What stands before the first `c` and after it. -/
def cut (c : UInt8) (s : Text) : Text × Text := (s.takeWhile (· ≠ c), (s.dropWhile (· ≠ c)).drop 1)

def isUserinfoChar (c : UInt8) : Bool :=
  isLetter c || isDigit c || c ∈ ['-', '.', '_', ':', '~', '!', '$', '&', '\'', '(', ')', '*', '+', ',', ';', '=', '%',
    '@'].map chr

def parseUserinfo (s : Text) : Option (Text × Option Text) :=
  if ¬ s.all isUserinfoChar then none
  else if chr ':' ∉ s then (unescape .path s).map (·, none)
  else do
    let (username, password) := cut (chr ':') s
    let username ← unescape .path username
    let password ← unescape .path password
    return (username, some password)

def validOptionalPort (port : Text) : Bool :=
  match port with
  | [] => true
  | c :: digits => c = chr ':' && digits.all isDigit

/-- What stands before the first escaped percent sign. -/
def beforeZone : Text → Option Text
  | [] => none
  | c :: s => if (c :: s).take 3 = ['%', '2', '5'].map chr then some [] else (beforeZone s).map (c :: ·)

def parseHost (host : Text) : Option Text :=
  if host.head? = some (chr '[') then
    if chr ']' ∉ host then none
    else
      let port := host.rtakeWhile (· ≠ chr ']')
      let address := (host.rdropWhile (· ≠ chr ']')).dropLast
      if ¬ validOptionalPort port then none
      else
        match beforeZone address with
        | some before => do
          let host1 ← unescape .host before
          let host2 ← unescape .zone (address.drop before.length)
          let host3 ← unescape .host (chr ']' :: port)
          return host1 ++ host2 ++ host3
        | none => unescape .host host
  else if chr ':' ∈ host ∧ ¬ validOptionalPort (chr ':' :: host.rtakeWhile (· ≠ chr ':')) then none
  else unescape .host host

/-- `[userinfo@]host`, with the user information up to the last `@`. -/
def parseAuthority (authority : Text) : Option (Option (Text × Option Text) × Text) :=
  if chr '@' ∉ authority then (parseHost authority).map (none, ·)
  else do
    let host ← parseHost (authority.rtakeWhile (· ≠ chr '@'))
    let user ← parseUserinfo (authority.rdropWhile (· ≠ chr '@')).dropLast
    return (some user, host)

def setPath (url : URL) (path : Text) : Option URL := (unescape .path path).map fun path => { url with path }

/-- What follows the scheme, without the query. -/
def parseRest (url : URL) (rest : Text) : Option URL :=
  if rest.head? ≠ some (chr '/') then
    if url.scheme ≠ [] then some { url with opaqueText := rest }
    else if chr ':' ∈ rest.takeWhile (· ≠ chr '/') then none
    else setPath url rest
  else if rest.take 2 = ['/', '/'].map chr ∧ (url.scheme ≠ [] ∨ rest.take 3 ≠ ['/', '/', '/'].map chr) then
    match parseAuthority ((rest.drop 2).takeWhile (· ≠ chr '/')) with
    | some (user, host) => setPath { url with user, host } ((rest.drop 2).dropWhile (· ≠ chr '/'))
    | none => none
  else setPath url rest

/-- A URL without a fragment. -/
def parseNoFragment (raw : Text) : Option URL :=
  if raw.any isCTL then none
  else if raw = [chr '*'] then some { path := raw }
  else
    match getScheme raw with
    | some (scheme, rest) =>
      let (rest, rawQuery) := cut (chr '?') rest
      parseRest { scheme := scheme.map toLower, rawQuery } rest
    | none => none

/-- `Parse`, or `none` if it returns an error. -/
def parse (raw : Text) : Option URL :=
  let (text, fragment) := cut (chr '#') raw
  match parseNoFragment text with
  | some url => (unescape .path fragment).map fun fragment => { url with fragment }
  | none => none

/-! ### Which text is the path of a URL -/

/-- A text spells the bytes that its escapes stand for. -/
inductive Spells : Text → Text → Prop
  | nil : Spells [] []
  | byte {c : UInt8} {p s : Text} : c ≠ chr '%' → Spells p s → Spells (c :: p) (c :: s)
  | escape {h l hi lo : UInt8} {p s : Text} : unhex h = some hi → unhex l = some lo → Spells p s →
      Spells (chr '%' :: h :: l :: p) ((hi * 16 + lo) :: s)

/-- A letter and then letters, digits, `+`, `-` and `.`. -/
def IsScheme (s : Text) : Prop := s.all isSchemeChar = true ∧ ∃ c t, s = c :: t ∧ isLetter c = true

/-- `[scheme:]rest`, and whether there is a scheme. -/
inductive Schemed : Text → Bool → Text → Prop
  | scheme {s rest : Text} : IsScheme s → Schemed (s ++ chr ':' :: rest) true rest
  | relative {rest : Text} : rest.head? ≠ some (chr ':') → (∀ s rest', IsScheme s → rest ≠ s ++ chr ':' :: rest') →
      Schemed rest false rest

/-- What follows the scheme: `//authority[/path]`, `/path`, or without a slash in front a path if there is no scheme and
no path at all if there is one. -/
inductive Hier (scheme : Bool) : Text → Text → Prop
  | rootless {rest : Text} : scheme = true → rest.head? ≠ some (chr '/') → Hier scheme rest []
  | relative {rest : Text} : scheme = false → rest.head? ≠ some (chr '/') → chr ':' ∉ rest.takeWhile (· ≠ chr '/') →
      Hier scheme rest rest
  | authority {a path : Text} : chr '/' ∉ a → (parseAuthority a).isSome = true →
      path = [] ∨ path.head? = some (chr '/') → scheme = true ∨ a ≠ [] ∨ path = [] →
      Hier scheme (chr '/' :: chr '/' :: (a ++ path)) path
  | absolute {path : Text} : path.head? = some (chr '/') →
      path.take 2 ≠ ['/', '/'].map chr ∨ scheme = false ∧ path.take 3 = ['/', '/', '/'].map chr → Hier scheme path path

/-- The part of a URL that its path is spelled by. -/
inductive Locates : Text → Text → Prop
  | intro {scheme : Bool} {text rest query fragment path : Text} : text.any isCTL = false → chr '#' ∉ text →
      Schemed text scheme (rest ++ query) → chr '?' ∉ rest → query = [] ∨ query.head? = some (chr '?') →
      Hier scheme rest path → fragment = [] ∨ (∃ f s, fragment = chr '#' :: f ∧ Spells f s) →
      Locates (text ++ fragment) path

theorem unescape_iff {p s : Text} : unescape .path p = some s ↔ Spells p s := by
  constructor
  · intro h
    fun_induction unescape .path p generalizing s with
    | case1 =>
        cases h
        exact .nil
    | case2 => cases h
    | case3 =>
        rename_i hlo hhi _ _ ih
        obtain ⟨s', hs', rfl⟩ := Option.map_eq_some_iff.mp h
        exact .escape hhi hlo (ih hs')
    | case4 => cases h
    | case5 => cases h
    | case6 c rest hc hexcludes => simp [Encoding.excludes] at hexcludes
    | case7 c rest hc hexcludes ih =>
        obtain ⟨s', hs', rfl⟩ := Option.map_eq_some_iff.mp h
        exact .byte hc (ih hs')
  · intro h
    induction h with
    | nil => rfl
    | byte hc _ ih =>
        unfold unescape
        rw [if_neg hc, ih]
        rfl
    | escape hhi hlo _ ih =>
        rw [unescape, if_pos rfl]
        simp only [hhi, hlo, ih]
        rfl

/-- A text that spells a concatenation falls into two accordingly. -/
theorem spells_append_iff {p a b : Text} :
    Spells p (a ++ b) ↔ ∃ q r, p = q ++ r ∧ Spells q a ∧ Spells r b := by
  constructor
  · intro h
    generalize hab : a ++ b = s at h
    induction h generalizing a with
    | nil =>
        obtain ⟨rfl, rfl⟩ := List.append_eq_nil_iff.mp hab
        exact ⟨[], [], rfl, .nil, .nil⟩
    | byte hc h ih =>
        cases a with
        | nil =>
            cases hab
            exact ⟨[], _, rfl, .nil, .byte hc h⟩
        | cons d a =>
            cases hab
            obtain ⟨q, r, rfl, hq, hr⟩ := ih rfl
            exact ⟨_ :: q, r, rfl, .byte hc hq, hr⟩
    | escape hhi hlo h ih =>
        cases a with
        | nil =>
            cases hab
            exact ⟨[], _, rfl, .nil, .escape hhi hlo h⟩
        | cons d a =>
            cases hab
            obtain ⟨q, r, rfl, hq, hr⟩ := ih rfl
            exact ⟨_ :: _ :: _ :: q, r, rfl, .escape hhi hlo hq, hr⟩
  · rintro ⟨q, r, rfl, hq, hr⟩
    induction hq with
    | nil => exact hr
    | byte hc _ ih => exact .byte hc ih
    | escape hhi hlo _ ih => exact .escape hhi hlo ih

/-- Where a list is first left by a predicate. -/
theorem span_iff {α : Type} {f : α → Bool} {l a b : List α} :
    l.takeWhile f = a ∧ l.dropWhile f = b ↔
      l = a ++ b ∧ (∀ x ∈ a, f x = true) ∧ ∀ x, b.head? = some x → f x = false := by
  constructor
  · rintro ⟨rfl, rfl⟩
    refine ⟨List.takeWhile_append_dropWhile.symm, fun x hx => List.mem_takeWhile_imp hx, fun x hx => ?_⟩
    have hnot := List.head?_dropWhile_not f l
    rw [hx] at hnot
    exact hnot
  · rintro ⟨rfl, ha, hb⟩
    rw [List.takeWhile_append_of_pos ha, List.dropWhile_append_of_pos ha]
    cases b with
    | nil => exact ⟨List.append_nil a, rfl⟩
    | cons x b =>
        have hx : ¬ f x = true := by
          rw [hb x rfl]
          exact Bool.false_ne_true
        exact ⟨by rw [List.takeWhile_cons_of_neg hx, List.append_nil], List.dropWhile_cons_of_neg hx⟩

/-- The same for the first occurrence of a byte. -/
theorem span_ne_iff {c : UInt8} {l a b : Text} :
    l.takeWhile (· ≠ c) = a ∧ l.dropWhile (· ≠ c) = b ↔ l = a ++ b ∧ c ∉ a ∧ (b = [] ∨ b.head? = some c) := by
  have ha : (∀ x ∈ a, decide (x ≠ c) = true) ↔ c ∉ a := by
    simp only [decide_eq_true_eq]
    exact ⟨fun h hc => h c hc rfl, fun h x hx heq => h (heq ▸ hx)⟩
  have hb : (∀ x, b.head? = some x → decide (x ≠ c) = false) ↔ b = [] ∨ b.head? = some c := by
    cases b with
    | nil => simp
    | cons y b => simp
  rw [span_iff, ha, hb]

theorem not_isSchemeChar_colon : isSchemeChar (chr ':') = false := by decide

theorem isCTL_of_isSchemeChar {c : UInt8} (h : isSchemeChar c = true) : isCTL c = false := by
  by_contra hctl
  rw [Bool.not_eq_false, isCTL, Bool.or_eq_true, decide_eq_true_eq, decide_eq_true_eq, UInt8.lt_iff_toNat_lt] at hctl
  rcases hctl with hctl | rfl
  · have hspace : c.toNat < 32 := hctl
    simp only [isSchemeChar, isLetter, isDigit, Bool.or_eq_true, Bool.and_eq_true, decide_eq_true_eq,
      UInt8.le_iff_toNat_le, List.map_cons, List.map_nil, List.mem_cons, List.not_mem_nil, or_false] at h
    rcases h with ((⟨ha, -⟩ | ⟨ha, -⟩) | ⟨ha, -⟩) | rfl | rfl | rfl
    · exact absurd (ha.trans_lt hspace) (by decide)
    · exact absurd (ha.trans_lt hspace) (by decide)
    · exact absurd (ha.trans_lt hspace) (by decide)
    · exact absurd hspace (by decide)
    · exact absurd hspace (by decide)
    · exact absurd hspace (by decide)
  · exact absurd h (by decide)

theorem span_scheme {s rest : Text} (hs : s.all isSchemeChar = true) :
    (s ++ chr ':' :: rest).takeWhile isSchemeChar = s ∧ (s ++ chr ':' :: rest).dropWhile isSchemeChar = chr ':' :: rest := by
  refine span_iff.mpr ⟨rfl, List.all_eq_true.mp hs, fun x hx => ?_⟩
  cases hx
  exact not_isSchemeChar_colon

/-- `getScheme` finds the scheme if there is one. -/
theorem schemed_iff {raw rest : Text} {b : Bool} :
    Schemed raw b rest ↔ ∃ s, getScheme raw = some (s, rest) ∧ decide (s ≠ []) = b := by
  constructor
  · rintro (⟨⟨hall, c, t, rfl, hc⟩⟩ | ⟨hhead, hnone⟩)
    · obtain ⟨htake, hdrop⟩ := @span_scheme (c :: t) rest hall
      refine ⟨c :: t, ?_, rfl⟩
      unfold getScheme
      rw [htake, hdrop]
      exact if_pos ⟨hc, rfl⟩
    · refine ⟨[], ?_, rfl⟩
      unfold getScheme
      split
      · next c s d rest' htake hdrop =>
          obtain ⟨hraw, hs, -⟩ := span_iff.mp ⟨htake, hdrop⟩
          rw [if_neg]
          rintro ⟨hc, rfl⟩
          exact hnone (c :: s) rest' ⟨List.all_eq_true.mpr hs, c, s, rfl, hc⟩ hraw
      · rfl
      · exact if_neg hhead
  · rintro ⟨s, hs, rfl⟩
    unfold getScheme at hs
    split at hs
    · next c s' d rest' htake hdrop =>
        obtain ⟨hraw, hall, hd⟩ := span_iff.mp ⟨htake, hdrop⟩
        split_ifs at hs with hc
        · obtain ⟨hc, rfl⟩ := hc
          cases hs
          rw [hraw]
          exact .scheme ⟨List.all_eq_true.mpr hall, c, s', rfl, hc⟩
        · cases hs
          refine .relative ?_ fun s₂ rest₂ hs₂ heq => hc ?_
          · rw [hraw]
            intro heq
            cases heq
            exact absurd (hall _ List.mem_cons_self) (by decide)
          · obtain ⟨hall₂, c₂, t₂, rfl, hc₂⟩ := hs₂
            obtain ⟨htake₂, hdrop₂⟩ := @span_scheme (c₂ :: t₂) rest₂ hall₂
            rw [← heq, htake] at htake₂
            rw [← heq, hdrop] at hdrop₂
            cases htake₂
            cases hdrop₂
            exact ⟨hc₂, rfl⟩
    · next c s' htake hdrop =>
        cases hs
        obtain ⟨hraw, hall, -⟩ := span_iff.mp ⟨htake, hdrop⟩
        rw [List.append_nil] at hraw
        refine .relative ?_ fun s₂ rest₂ _ heq => ?_
        · rw [hraw]
          intro heq
          cases heq
          exact absurd (hall _ List.mem_cons_self) (by decide)
        · have hmem : chr ':' ∈ c :: s' := by
            rw [← hraw, heq]
            exact List.mem_append_right _ List.mem_cons_self
          exact absurd (hall _ hmem) (by decide)
    · next b' htake =>
        split_ifs at hs with hhead
        cases hs
        refine .relative hhead fun s₂ rest₂ hs₂ heq => ?_
        obtain ⟨hall₂, c₂, t₂, rfl, hc₂⟩ := hs₂
        have hc : isSchemeChar c₂ = true := List.all_eq_true.mp hall₂ c₂ List.mem_cons_self
        rw [heq, List.cons_append, List.takeWhile_cons_of_pos hc] at htake
        cases htake

theorem setPath_iff {url : URL} {path p : Text} :
    (∃ u, setPath url path = some u ∧ u.path = p) ↔ Spells path p := by
  rw [← unescape_iff]
  constructor
  · rintro ⟨u, hu, rfl⟩
    obtain ⟨s, hs, rfl⟩ := Option.map_eq_some_iff.mp hu
    exact hs
  · intro hp
    exact ⟨{ url with path := p }, by rw [setPath, hp]; rfl, rfl⟩

theorem spells_nil_iff {p : Text} : Spells [] p ↔ p = [] := by
  constructor
  · intro h
    cases h
    rfl
  · rintro rfl
    exact .nil

theorem hier_iff_of_head_ne {b : Bool} {rest path : Text} (h : rest.head? ≠ some (chr '/')) :
    Hier b rest path ↔
      b = true ∧ path = [] ∨ b = false ∧ chr ':' ∉ rest.takeWhile (· ≠ chr '/') ∧ path = rest := by
  constructor
  · intro hier
    cases hier with
    | rootless hb _ => exact Or.inl ⟨hb, rfl⟩
    | relative hb _ hcolon => exact Or.inr ⟨hb, hcolon, rfl⟩
    | authority => exact absurd rfl h
    | absolute hhead _ => exact absurd hhead h
  · rintro (⟨hb, rfl⟩ | ⟨hb, hcolon, rfl⟩)
    · exact .rootless hb h
    · exact .relative hb h hcolon

/-- A text with two slashes in front, of which the authority follows up to the next slash. -/
theorem hier_iff_of_authority {b : Bool} {rest path : Text}
    (h : rest.take 2 = ['/', '/'].map chr ∧ (b = true ∨ rest.take 3 ≠ ['/', '/', '/'].map chr)) :
    Hier b rest path ↔
      (parseAuthority ((rest.drop 2).takeWhile (· ≠ chr '/'))).isSome = true ∧
        path = (rest.drop 2).dropWhile (· ≠ chr '/') := by
  obtain ⟨htwo, hthree⟩ := h
  constructor
  · intro hier
    cases hier with
    | rootless _ hhead =>
        refine absurd ?_ hhead
        rw [← List.take_append_drop 2 rest, htwo]
        rfl
    | relative _ hhead =>
        refine absurd ?_ hhead
        rw [← List.take_append_drop 2 rest, htwo]
        rfl
    | @authority a path ha hvalid hpath _ =>
        obtain ⟨htake, hdrop⟩ := span_ne_iff.mpr ⟨rfl, ha, hpath⟩
        show (parseAuthority ((a ++ path).takeWhile _)).isSome = true ∧ path = (a ++ path).dropWhile _
        rw [htake, hdrop]
        exact ⟨hvalid, rfl⟩
    | absolute _ hnot =>
        rcases hnot with hnot | ⟨hb, hnot⟩
        · exact absurd htwo hnot
        · rcases hthree with hthree | hthree
          · rw [hb] at hthree
            cases hthree
          · exact absurd hnot hthree
  · rintro ⟨hvalid, rfl⟩
    obtain ⟨hrest, ha, hpath⟩ := span_ne_iff.mp
      (⟨rfl, rfl⟩ : (rest.drop 2).takeWhile (· ≠ chr '/') = _ ∧ (rest.drop 2).dropWhile (· ≠ chr '/') = _)
    have hfull : rest = chr '/' :: chr '/' :: ((rest.drop 2).takeWhile (· ≠ chr '/') ++
        (rest.drop 2).dropWhile (· ≠ chr '/')) := by
      rw [← hrest]
      exact (List.take_append_drop 2 rest).symm.trans (congrArg (· ++ rest.drop 2) htwo)
    have hier : Hier b (chr '/' :: chr '/' :: ((rest.drop 2).takeWhile (· ≠ chr '/') ++
        (rest.drop 2).dropWhile (· ≠ chr '/'))) ((rest.drop 2).dropWhile (· ≠ chr '/')) := by
      refine .authority ha hvalid hpath ?_
      by_contra hnone
      push Not at hnone
      obtain ⟨hb, hempty, hsome⟩ := hnone
      have hslash := hpath.resolve_left hsome
      rcases hthree with hthree | hthree
      · exact hb hthree
      · apply hthree
        rw [hfull, hempty]
        obtain ⟨t, ht⟩ := List.head?_eq_some_iff.mp hslash
        rw [ht]
        rfl
    rw [← hfull] at hier
    exact hier

theorem hier_iff_of_absolute {b : Bool} {rest path : Text} (hhead : rest.head? = some (chr '/'))
    (h : ¬ (rest.take 2 = ['/', '/'].map chr ∧ (b = true ∨ rest.take 3 ≠ ['/', '/', '/'].map chr))) :
    Hier b rest path ↔ path = rest := by
  constructor
  · intro hier
    cases hier with
    | rootless _ hne => exact absurd hhead hne
    | relative _ hne => exact absurd hhead hne
    | @authority a path ha _ _ hb =>
        refine absurd ⟨rfl, ?_⟩ h
        rcases hb with hb | hne | hpath
        · exact Or.inl hb
        · obtain ⟨c, a, rfl⟩ := List.exists_cons_of_ne_nil hne
          refine Or.inr fun heq => ha ?_
          have hc : c = chr '/' := by simpa using heq
          rw [hc]
          exact List.mem_cons_self
        · subst hpath
          refine Or.inr fun heq => ?_
          rw [List.append_nil] at heq
          cases a with
          | nil => cases heq
          | cons c a =>
              have hc : c = chr '/' := by simpa using heq
              rw [hc] at ha
              exact ha List.mem_cons_self
    | absolute => rfl
  · rintro rfl
    refine .absolute hhead ?_
    by_contra hnone
    push Not at hnone
    obtain ⟨htwo, hthree⟩ := hnone
    refine h ⟨htwo, ?_⟩
    cases b with
    | true => exact Or.inl rfl
    | false => exact Or.inr (hthree rfl)

theorem parseRest_iff {url : URL} {rest p : Text} (hurl : url.path = []) :
    (∃ u, parseRest url rest = some u ∧ u.path = p) ↔
      ∃ path, Hier (decide (url.scheme ≠ [])) rest path ∧ Spells path p := by
  unfold parseRest
  by_cases hhead : rest.head? = some (chr '/')
  · rw [if_neg (not_not.mpr hhead)]
    have hdec : (decide (url.scheme ≠ []) = true ∨ rest.take 3 ≠ ['/', '/', '/'].map chr) ↔
        url.scheme ≠ [] ∨ rest.take 3 ≠ ['/', '/', '/'].map chr := by rw [decide_eq_true_eq]
    split_ifs with hauthority
    · have hier := fun path => @hier_iff_of_authority (decide (url.scheme ≠ [])) rest path
        ⟨hauthority.1, hdec.mpr hauthority.2⟩
      simp only [hier]
      cases hvalid : parseAuthority ((rest.drop 2).takeWhile (· ≠ chr '/')) with
      | none => simp
      | some userHost =>
          rw [setPath_iff]
          simp
    · have hier := fun path => @hier_iff_of_absolute (decide (url.scheme ≠ [])) rest path hhead fun h =>
        hauthority ⟨h.1, hdec.mp h.2⟩
      simp only [hier]
      rw [setPath_iff]
      simp
  · rw [if_pos hhead]
    have hier := fun path => @hier_iff_of_head_ne (decide (url.scheme ≠ [])) rest path hhead
    simp only [hier]
    split_ifs with hscheme hcolon
    · simp [hscheme, hurl, spells_nil_iff, eq_comm]
    · constructor
      · rintro ⟨_, h, _⟩
        cases h
      · rintro ⟨path, ⟨hb, _⟩ | ⟨_, hnot, _⟩, _⟩
        · exact absurd (of_decide_eq_true hb) hscheme
        · exact absurd hcolon hnot
    · rw [setPath_iff]
      constructor
      · exact fun hp => ⟨rest, Or.inr ⟨decide_eq_false hscheme, hcolon, rfl⟩, hp⟩
      · rintro ⟨path, ⟨hb, _⟩ | ⟨_, _, rfl⟩, hp⟩
        · exact absurd (of_decide_eq_true hb) hscheme
        · exact hp

/-- A text falls at the first `c` into what `cut` returns, which tells the two parts. -/
theorem exists_cut (c : UInt8) (l : Text) :
    ∃ a b, l = a ++ b ∧ c ∉ a ∧ (b = [] ∨ b.head? = some c) ∧ cut c l = (a, b.drop 1) := by
  obtain ⟨hl, ha, hb⟩ := span_ne_iff.mp
    (⟨rfl, rfl⟩ : l.takeWhile (· ≠ c) = _ ∧ l.dropWhile (· ≠ c) = _)
  exact ⟨_, _, hl, ha, hb, rfl⟩

theorem cut_unique {c : UInt8} {a b a' b' : Text} (heq : a ++ b = a' ++ b') (ha : c ∉ a)
    (hb : b = [] ∨ b.head? = some c) (ha' : c ∉ a') (hb' : b' = [] ∨ b'.head? = some c) : a = a' ∧ b = b' := by
  obtain ⟨htake, hdrop⟩ := span_ne_iff.mpr ⟨rfl, ha, hb⟩
  obtain ⟨htake', hdrop'⟩ := span_ne_iff.mpr ⟨heq, ha', hb'⟩
  exact ⟨htake.symm.trans htake', hdrop.symm.trans hdrop'⟩

/-- The asterisk is a path like any other. -/
theorem parseNoFragment_eq (raw : Text) :
    parseNoFragment raw =
      if raw.any isCTL then none
      else
        match getScheme raw with
        | some (scheme, rest) =>
          parseRest { scheme := scheme.map toLower, rawQuery := (cut (chr '?') rest).2 } (cut (chr '?') rest).1
        | none => none := by
  unfold parseNoFragment
  split_ifs with hctl hstar
  · rfl
  · subst hstar
    rfl
  · rfl

theorem parseNoFragment_iff {text p : Text} :
    (∃ u, parseNoFragment text = some u ∧ u.path = p) ↔
      text.any isCTL = false ∧ ∃ b rest query path, Schemed text b (rest ++ query) ∧ chr '?' ∉ rest ∧
        (query = [] ∨ query.head? = some (chr '?')) ∧ Hier b rest path ∧ Spells path p := by
  rw [parseNoFragment_eq]
  by_cases hctl : text.any isCTL = true
  · simp [hctl]
  · rw [if_neg hctl, Bool.not_eq_true] at *
    simp only [hctl, true_and]
    cases hscheme : getScheme text with
    | none =>
        constructor
        · rintro ⟨u, hu, -⟩
          cases hu
        · rintro ⟨b, rest, query, path, hschemed, -⟩
          obtain ⟨s, hs, -⟩ := schemed_iff.mp hschemed
          rw [hscheme] at hs
          cases hs
    | some schemeRest =>
        obtain ⟨scheme, full⟩ := schemeRest
        obtain ⟨rest, query, hfull, hrest, hquery, hcut⟩ := exists_cut (chr '?') full
        have hlower : decide (scheme.map toLower ≠ []) = decide (scheme ≠ []) := by
          rw [decide_eq_decide, ne_eq, List.map_eq_nil_iff]
        dsimp only
        rw [hcut, parseRest_iff rfl, hlower]
        constructor
        · rintro ⟨path, hier, hp⟩
          refine ⟨_, rest, query, path, schemed_iff.mpr ⟨scheme, ?_, rfl⟩, hrest, hquery, hier, hp⟩
          rw [hscheme, hfull]
        · rintro ⟨b, rest', query', path, hschemed, hrest', hquery', hier, hp⟩
          obtain ⟨s, hs, rfl⟩ := schemed_iff.mp hschemed
          rw [hscheme] at hs
          cases hs
          obtain ⟨rfl, rfl⟩ := cut_unique hfull hrest' hquery' hrest hquery
          exact ⟨path, hier, hp⟩

/-- A URL is parsed with a path if and only if the part of its text that locates the path spells it. -/
theorem parse_iff {raw p : Text} :
    (∃ u, parse raw = some u ∧ u.path = p) ↔ ∃ path, Locates raw path ∧ Spells path p := by
  obtain ⟨text, fragment, hraw, htext, hfragment, hcut⟩ := exists_cut (chr '#') raw
  unfold parse
  rw [hcut]
  dsimp only
  constructor
  · rintro ⟨u, hu, rfl⟩
    cases hparse : parseNoFragment text with
    | none =>
        rw [hparse] at hu
        cases hu
    | some url =>
        rw [hparse] at hu
        obtain ⟨f, hf, rfl⟩ := Option.map_eq_some_iff.mp hu
        obtain ⟨hctl, b, rest, query, path, hschemed, hrest, hquery, hier, hp⟩ :=
          parseNoFragment_iff.mp ⟨url, hparse, rfl⟩
        refine ⟨path, ?_, hp⟩
        rw [hraw]
        refine .intro hctl htext hschemed hrest hquery hier (hfragment.imp_right fun hhead => ?_)
        obtain ⟨t, rfl⟩ := List.head?_eq_some_iff.mp hhead
        exact ⟨t, f, rfl, unescape_iff.mp hf⟩
  · rintro ⟨path, hlocates, hp⟩
    cases hlocates with
    | @intro b text' rest query fragment' _ hctl htext' hschemed hrest hquery hier hfragment' =>
        have hhead : fragment' = [] ∨ fragment'.head? = some (chr '#') := by
          apply hfragment'.imp_right
          rintro ⟨f, s, rfl, -⟩
          rfl
        obtain ⟨rfl, rfl⟩ := cut_unique hraw htext' hhead htext hfragment
        obtain ⟨url, hurl, rfl⟩ := parseNoFragment_iff.mpr ⟨hctl, b, rest, query, path, hschemed, hrest, hquery, hier, hp⟩
        have hspelled : ∃ s, unescape .path (fragment'.drop 1) = some s := by
          rcases hfragment' with rfl | ⟨f, s, rfl, hs⟩
          · exact ⟨[], rfl⟩
          · exact ⟨s, unescape_iff.mpr hs⟩
        obtain ⟨s, hs⟩ := hspelled
        refine ⟨{ url with fragment := s }, ?_, rfl⟩
        rw [hurl, hs]
        rfl

/-- A byte that stands for itself in the path of a URL. -/
def isPlain (c : UInt8) : Bool := !isCTL c && c ∉ ['%', '?', '#'].map chr

theorem isPlain_of_isDigit {c : UInt8} (h : isDigit c = true) : isPlain c = true := by
  have hctl : isCTL c = false := isCTL_of_isSchemeChar (by simp [isSchemeChar, h])
  have hmem : c ∉ ['%', '?', '#'].map chr := by
    intro hmem
    simp only [List.map_cons, List.map_nil, List.mem_cons, List.not_mem_nil, or_false] at hmem
    rcases hmem with rfl | rfl | rfl
    · exact absurd h (by decide)
    · exact absurd h (by decide)
    · exact absurd h (by decide)
  rw [isPlain, hctl, decide_eq_true hmem]
  rfl

theorem spells_self {p : Text} (h : ∀ c ∈ p, isPlain c = true) : Spells p p := by
  induction p with
  | nil => exact .nil
  | cons c p ih =>
      rw [List.forall_mem_cons] at h
      refine .byte ?_ (ih h.2)
      rintro rfl
      exact absurd h.1 (by decide)

/-- A rooted path of such bytes is the path of the URL that it is. -/
theorem parse_plain {c : UInt8} {p : Text} (hc : c ≠ chr '/') (h : ∀ d ∈ c :: p, isPlain d = true) :
    ∃ u, parse (chr '/' :: c :: p) = some u ∧ u.path = chr '/' :: c :: p := by
  have hplain : ∀ d ∈ chr '/' :: c :: p, isPlain d = true := List.forall_mem_cons.mpr ⟨by decide, h⟩
  have hnot : ∀ d, isPlain d = false → d ∉ chr '/' :: c :: p := by
    intro d hd hmem
    rw [hplain d hmem] at hd
    cases hd
  refine parse_iff.mpr ⟨chr '/' :: c :: p, ?_, spells_self hplain⟩
  have hctl : (chr '/' :: c :: p).any isCTL = false := by
    rw [List.any_eq_false]
    intro d hd
    have hd := hplain d hd
    rw [isPlain, Bool.and_eq_true, Bool.not_eq_true'] at hd
    rw [hd.1]
    decide
  have hschemed : Schemed (chr '/' :: c :: p) false ((chr '/' :: c :: p) ++ []) := by
    rw [List.append_nil]
    refine .relative (fun hcolon => absurd (Option.some.inj hcolon) (by decide)) ?_
    rintro s rest ⟨-, d, t, rfl, hletter⟩ heq
    rw [← (List.cons.inj heq).1] at hletter
    exact absurd hletter (by decide)
  have hier : Hier false (chr '/' :: c :: p) (chr '/' :: c :: p) := by
    refine .absolute rfl (Or.inl fun htwo => hc ?_)
    exact (List.cons.inj (List.cons.inj htwo).2).1
  have hlocates := Locates.intro hctl (hnot _ (by decide)) hschemed (hnot _ (by decide)) (Or.inl rfl) hier (Or.inl rfl)
  rwa [List.append_nil] at hlocates

end Url
