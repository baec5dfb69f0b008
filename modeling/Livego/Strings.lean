import Livego.Url
import Mathlib.Data.List.Infix
import Mathlib.Tactic.Ring

/-! Byte strings: the first occurrence of a separator, splitting at separators, lines, decimal numerals, and the last
element and the extension of a path. -/

namespace Strings

open Url (Text chr isDigit)

section Splitting

variable {α : Type} {c : α} {sep s a : List α}

/-- A separator whose first byte does not come again in it does not begin in `s` and end in a copy of itself. -/
theorem prefix_append_self (hc : c ∉ sep) (d : α) (s : List α) :
    c :: sep <+: d :: s ++ c :: sep ↔ c :: sep <+: d :: s := by
  constructor
  · intro h
    rcases Nat.le_total (c :: sep).length (d :: s).length with hle | hle
    · exact List.prefix_of_prefix_length_le h (List.prefix_append _ _) hle
    · obtain ⟨r, hr⟩ := List.prefix_of_prefix_length_le (List.prefix_append _ _) h hle
      rw [← hr] at h
      cases r with
      | nil => exact ⟨[], by simpa using hr.symm⟩
      | cons e r =>
          have hshort := (List.prefix_append_right_inj _).mp h
          rw [hr] at hshort
          rw [(List.cons_prefix_cons.mp hshort).1] at hr
          have hmem : c ∈ sep := by
            rw [← (List.cons.inj hr).2]
            exact List.mem_append_right _ List.mem_cons_self
          exact absurd hmem hc
  · intro h
    exact h.trans (List.prefix_append _ _)

variable [DecidableEq α]

/-- Where the separator first occurs. -/
def index (sep : List α) : List α → Option Nat
  | [] => if sep = [] then some 0 else none
  | c :: s => if sep <+: c :: s then some 0 else (index sep s).map (· + 1)

/-- At most `n` pieces, of which the last is not split. -/
def splitN (sep : List α) : Nat → List α → List (List α)
  | 0, _ => []
  | 1, s => [s]
  | n + 2, s =>
    match index sep s with
    | none => [s]
    | some m => s.take m :: splitN sep (n + 1) (s.drop (m + sep.length))

theorem index_singleton (hc : c ∉ a) (b : List α) : index [c] (a ++ c :: b) = some a.length := by
  induction a with
  | nil => simp [index]
  | cons d a ih =>
      rw [List.mem_cons, not_or] at hc
      have hstart : ¬[c] <+: d :: (a ++ c :: b) := fun h => hc.1 (List.cons_prefix_cons.mp h).1
      rw [List.cons_append, index, if_neg hstart, ih hc.2]
      rfl

theorem splitN_singleton (hc : c ∉ a) (b : List α) (n : Nat) :
    splitN [c] (n + 2) (a ++ c :: b) = a :: splitN [c] (n + 1) b := by
  rw [splitN, index_singleton hc]
  simp

theorem index_append_self (hc : c ∉ sep) (s : List α) :
    index (c :: sep) (s ++ c :: sep) = some s.length ↔ ¬c :: sep <:+: s := by
  induction s with
  | nil => simp [index]
  | cons d s ih =>
      rw [List.cons_append, index, ← List.cons_append, List.infix_cons_iff]
      simp only [prefix_append_self hc]
      split_ifs with h
      · simp [h]
      · simp [h, ih]

theorem index_isSome (h : sep <:+: s) : (index sep s).isSome := by
  induction s with
  | nil => simp [index, List.infix_nil.mp h]
  | cons d s ih =>
      rw [index]
      split_ifs with hstart
      · rfl
      · simpa using ih ((List.infix_cons_iff.mp h).resolve_left hstart)

end Splitting

section Lines

variable {α : Type} [BEq α] [LawfulBEq α] {c : α}

/-- Lines each of which is ended. -/
theorem splitOn_ended {ls : List (List α)} (hls : ∀ l ∈ ls, c ∉ l) :
    (ls.flatMap (· ++ [c])).splitOn c = ls ++ [[]] := by
  induction ls with
  | nil => rfl
  | cons l ls ih =>
      rw [List.forall_mem_cons] at hls
      rw [List.flatMap_cons, List.append_assoc, List.singleton_append, List.splitOn_append_cons_self_of_not_mem hls.1,
        ih hls.2, List.cons_append]

end Lines

section Numerals

/-- The decimal digits of a number. -/
def decimal (n : Nat) : Text := (Nat.toDigits 10 n).map chr

/-- What digits come to, after others that come to `n`. -/
def digitsFrom (n : Nat) (s : Text) : Nat := s.foldl (fun n c => 10 * n + (c - chr '0').toNat) n

/-- The number of which a text is the decimal digits, zeros in front allowed. -/
def number (s : Text) : Option Nat := if s ≠ [] ∧ s.all isDigit then some (digitsFrom 0 s) else none

theorem decimal_of_lt {n : Nat} (h : n < 10) : decimal n = [chr n.digitChar] := by
  rw [decimal, Nat.toDigits_of_lt_base h, List.map_singleton]

theorem decimal_of_ge {n : Nat} (h : 10 ≤ n) : decimal n = decimal (n / 10) ++ decimal (n % 10) := by
  rw [decimal_of_lt (Nat.mod_lt n (by decide)), decimal, Nat.toDigits_of_base_le (by decide) h, List.map_append,
    List.map_singleton, decimal]

theorem digitsFrom_eq (n : Nat) (s : Text) : digitsFrom n s = 10 ^ s.length * n + digitsFrom 0 s := by
  induction s generalizing n with
  | nil => simp [digitsFrom]
  | cons c s ih =>
      have hcons : ∀ m, digitsFrom m (c :: s) = digitsFrom (10 * m + (c - chr '0').toNat) s := fun m => rfl
      rw [hcons, hcons, ih, ih (10 * 0 + _), List.length_cons, pow_succ]
      ring

theorem number_append {s t : Text} {m n : Nat} (hs : number s = some m) (ht : number t = some n) :
    number (s ++ t) = some (10 ^ t.length * m + n) := by
  unfold number at hs ht
  split_ifs at hs ht with hs' ht'
  cases hs
  cases ht
  have hdigits : s ++ t ≠ [] ∧ (s ++ t).all isDigit := by
    rw [List.all_append, hs'.2, ht'.2]
    exact ⟨fun h => hs'.1 (List.append_eq_nil_iff.mp h).1, rfl⟩
  have happend : digitsFrom 0 (s ++ t) = digitsFrom (digitsFrom 0 s) t := List.foldl_append
  rw [number, if_pos hdigits, happend, digitsFrom_eq]

theorem number_digit : ∀ d : Fin 10, number (decimal d) = some d.val ∧ (decimal d).length = 1 := by decide

theorem number_decimal (n : Nat) : number (decimal n) = some n := by
  induction n using Nat.strongRecOn with
  | ind n ih =>
      rcases Nat.lt_or_ge n 10 with hlt | hge
      · exact (number_digit ⟨n, hlt⟩).1
      · have hlast := number_digit ⟨n % 10, Nat.mod_lt n (by decide)⟩
        rw [decimal_of_ge hge, number_append (ih (n / 10) (by omega)) hlast.1, hlast.2]
        congr 1
        dsimp only
        omega

theorem isDigit_decimal (n : Nat) : ∀ c ∈ decimal n, isDigit c = true := by
  have h := number_decimal n
  unfold number at h
  split_ifs at h with hdigits
  exact List.all_eq_true.mp hdigits.2

end Numerals

section Runes

/-- Bounds for the second byte of a character that begins with `b`, and the length of the character. -/
def lead (b : UInt8) : Option (UInt8 × UInt8 × Nat) :=
  if b < 0xC2 then none
  else if b < 0xE0 then some (0x80, 0xBF, 2)
  else if b = 0xE0 then some (0xA0, 0xBF, 3)
  else if b = 0xED then some (0x80, 0x9F, 3)
  else if b < 0xF0 then some (0x80, 0xBF, 3)
  else if b = 0xF0 then some (0x90, 0xBF, 4)
  else if b < 0xF4 then some (0x80, 0xBF, 4)
  else if b = 0xF4 then some (0x80, 0x8F, 4)
  else none

/-- The length of the first character, which is one byte where the text is not UTF-8. -/
def runeLen : Text → Nat
  | [] => 0
  | b :: s =>
    match lead b with
    | none => 1
    | some (low, high, n) =>
      let rest := s.take (n - 1)
      if rest.length = n - 1 ∧ rest.head?.all (fun c => low ≤ c ∧ c ≤ high) ∧
          rest.tail.all (fun c => 0x80 ≤ c ∧ c ≤ 0xBF) then n
      else 1

/-- The characters of a text of at most `n` bytes. -/
def explode : Nat → Text → List Text
  | 0, _ => []
  | _, [] => []
  | n + 1, s => s.take (runeLen s) :: explode n (s.drop (runeLen s))

def split (s sep : Text) : List Text :=
  if sep = [] then explode s.length s else splitN sep (s.length + 1) s

theorem head?_split {s sep : Text} (hsep : sep ≠ []) {m : Nat} (h : index sep s = some m) :
    (split s sep).head? = some (s.take m) := by
  cases s with
  | nil => simp [index, hsep] at h
  | cons c s => rw [split, if_neg hsep, List.length_cons, splitN, h, List.head?_cons]

end Runes

section Paths

/-- The suffix from the last dot of the last element. -/
def ext : Text → Text
  | [] => []
  | c :: s => if c = chr '.' ∧ chr '.' ∉ s ∧ chr '/' ∉ s then c :: s else ext s

/-- The last element, without slashes at the end. -/
def base (path : Text) : Text :=
  if path = [] then [chr '.']
  else
    let path := path.rdropWhile (· = chr '/')
    if path = [] then [chr '/'] else path.rtakeWhile (· ≠ chr '/')

theorem ext_append {e : Text} (hdot : chr '.' ∉ e) (hslash : chr '/' ∉ e) (s : Text) :
    ext (s ++ chr '.' :: e) = chr '.' :: e := by
  induction s with
  | nil => exact if_pos ⟨rfl, hdot, hslash⟩
  | cons c s ih =>
      rw [List.cons_append, ext, if_neg, ih]
      exact fun h => h.2.1 (List.mem_append_right _ List.mem_cons_self)

theorem getLast?_base {c : UInt8} (hc : c ≠ chr '/') (s : Text) : (base (s ++ [c])).getLast? = some c := by
  have hne : s ++ [c] ≠ [] := List.append_ne_nil_of_right_ne_nil s (List.cons_ne_nil c [])
  have hdrop : (s ++ [c]).rdropWhile (· = chr '/') = s ++ [c] := List.rdropWhile_concat_neg _ _ _ (by simpa using hc)
  rw [base, if_neg hne]
  simp only [hdrop, if_neg hne]
  rw [List.rtakeWhile_concat_pos _ _ _ (by simpa using hc), List.getLast?_concat]

end Paths

end Strings
