import Livego.Groups
import Livego.RtmpCacheSend
import Mathlib.Data.List.Nodup

/-! The ring of groups of pictures. A packet that opens no group goes to the slot behind the one that is opened
next, and that is where the newest group is in rings of one or two slots only. -/

namespace Livego

open Fallible Outcome Groups

theorem mod_ne_mod {n m k : Nat} (hlt : m < k) (hnear : k < m + n) : m % n ≠ k % n := by
  intro heq
  have hzero := Nat.sub_mod_eq_zero_of_mod_eq heq.symm
  rw [Nat.mod_eq_of_lt (by omega)] at hzero
  omega

namespace GopCache

/-- `k` groups have been opened in `n` slots. The last `n` of them, counted from 0, are where their numbers say,
and `held` says of each what is in its array. -/
structure Ring (n k : Nat) (held : Nat → GopArray → Prop) (c : GopCache) : Prop where
  count : c.count = n
  length : c.gops.length = n
  nextindex : c.nextindex = k % n
  num : c.num = min k n
  start : c.start = decide (0 < k)
  live : ∀ m, m < k → k ≤ m + n → ∃ array, c.gops[m % n]? = some (some array) ∧ held m array
  empty : ∀ i, k ≤ i → i < n → c.gops[i]? = some none

variable {n k : Nat} {held held' : Nat → GopArray → Prop} {c : GopCache}

theorem ring_newGopCache (n : Nat) (held : Nat → GopArray → Prop) : Ring n 0 held (newGopCache n) := by
  refine ⟨rfl, List.length_replicate, rfl, rfl, rfl, fun m hm => absurd hm (Nat.not_lt_zero m), fun i _ hi => ?_⟩
  simp [newGopCache, hi]

theorem Ring.imp (h : Ring n k held c) (himp : ∀ m, m < k → ∀ array, held m array → held' m array) :
    Ring n k held' c := by
  refine { h with live := fun m hm hnear => ?_ }
  obtain ⟨array, hget, hheld⟩ := h.live m hm hnear
  exact ⟨array, hget, himp m hm array hheld⟩

/-- The next group takes the place of the oldest one of a full ring. -/
theorem Ring.opens (h : Ring n k held c) (hn : 0 < n) (r : Nat) :
    ∃ c', writeToArray r true { c with start := true } = .ok () c' ∧
      Ring n (k + 1) (fun m array => if m = k then array = GopArray.ofGroup [r] else held m array) c' := by
  have hslot : k % n < n := Nat.mod_lt k hn
  have hnext : (k % n + 1) % n = (k + 1) % n := by rw [Nat.mod_add_mod]
  have hlive : ∀ gops : List (Option GopArray), gops = c.gops.set (k % n) (some (GopArray.ofGroup [r])) →
      ∀ m, m < k + 1 → k + 1 ≤ m + n → ∃ array, gops[m % n]? = some (some array) ∧
        if m = k then array = GopArray.ofGroup [r] else held m array := by
    rintro gops rfl m hm hnear
    by_cases hmk : m = k
    · refine ⟨_, ?_, by rw [if_pos hmk]⟩
      rw [hmk, List.getElem?_set_self (by rw [h.length]; exact hslot)]
    · obtain ⟨array, hget, hheld⟩ := h.live m (by omega) (by omega)
      refine ⟨array, ?_, by rwa [if_neg hmk]⟩
      rw [List.getElem?_set_ne (mod_ne_mod (by omega) (by omega)).symm, hget]
  have hempty : ∀ gops : List (Option GopArray), gops = c.gops.set (k % n) (some (GopArray.ofGroup [r])) →
      ∀ i, k + 1 ≤ i → i < n → gops[i]? = some none := by
    rintro gops rfl i hki hi
    rw [List.getElem?_set_ne (by rw [Nat.mod_eq_of_lt (by omega : k < n)]; omega)]
    exact h.empty i (by omega) hi
  have hcount : ¬n = 0 := by omega
  by_cases hfull : n ≤ k
  · obtain ⟨old, hget, -⟩ := h.live (k - n) (by omega) (by omega)
    have hsame : (k - n) % n = k % n := (Nat.mod_eq_sub_mod hfull).symm
    rw [hsame] at hget
    refine ⟨{ c with
      start := true
      gops := c.gops.set (k % n) (some (GopArray.ofGroup [r]))
      nextindex := (k + 1) % n }, ?_, ⟨h.count, ?_, rfl, ?_, rfl, hlive _ rfl, hempty _ rfl⟩⟩
    · simp only [writeToArray, if_true, h.nextindex, hget, h.count, if_neg hcount, GopArray.put_reset, hnext]
    · rw [List.length_set, h.length]
    · show c.num = min (k + 1) n
      rw [h.num]
      omega
  · have hget : c.gops[k % n]? = some none := by
      rw [Nat.mod_eq_of_lt (by omega)]
      exact h.empty k le_rfl (by omega)
    refine ⟨{ c with
      start := true
      num := c.num + 1
      gops := c.gops.set (k % n) (some (GopArray.ofGroup [r]))
      nextindex := (k + 1) % n }, ?_, ⟨h.count, ?_, rfl, ?_, rfl, hlive _ rfl, hempty _ rfl⟩⟩
    · have hnew : GopArray.newArray.put r = GopArray.ofGroup [r] := GopArray.put_ofGroup [] r
      simp only [writeToArray, if_true, h.nextindex, hget, h.count, if_neg hcount, hnew, hnext]
    · rw [List.length_set, h.length]
    · show c.num + 1 = min (k + 1) n
      rw [h.num]
      omega

/-- A packet that opens no group goes to the group in the slot behind the next one. -/
theorem Ring.continues (h : Ring n k held c) {t : Nat} (ht : t < k) (hnear : k ≤ t + n)
    (hslot : t % n = (k + 1) % n) (r : Nat) :
    ∃ c', writeToArray r false c = .ok () c' ∧
      Ring n k (fun m array => if m = t then ∃ b, held m b ∧ array = b.put r else held m array) c' := by
  have hn : 0 < n := by omega
  obtain ⟨old, hget, hheld⟩ := h.live t ht hnear
  have hnext : (c.nextindex + 1) % c.count = t % n := by rw [h.nextindex, h.count, hslot, Nat.mod_add_mod]
  have hcount : c.count ≠ 0 := by rw [h.count]; omega
  refine ⟨{ c with gops := c.gops.set (t % n) (some (old.put r)) }, ?_,
    ⟨h.count, ?_, h.nextindex, h.num, h.start, fun m hm hmn => ?_, fun i hki hi => ?_⟩⟩
  · simp only [writeToArray, Bool.false_eq_true, if_false, if_neg hcount, hnext, hget]
  · rw [List.length_set, h.length]
  · by_cases hmt : m = t
    · refine ⟨old.put r, ?_, by rw [if_pos hmt]; exact ⟨old, hmt ▸ hheld, rfl⟩⟩
      rw [hmt, List.getElem?_set_self (by rw [h.length]; exact Nat.mod_lt t hn)]
    · obtain ⟨array, hget', hheld'⟩ := h.live m hm hmn
      refine ⟨array, ?_, by rwa [if_neg hmt]⟩
      have hne : t % n ≠ m % n := by
        rcases Nat.lt_or_gt_of_ne hmt with hlt | hlt
        · exact (mod_ne_mod hlt (by omega)).symm
        · exact mod_ne_mod hlt (by omega)
      rw [List.getElem?_set_ne hne, hget']
  · rw [List.getElem?_set_ne (by rw [Nat.mod_eq_of_lt (by omega : t < n)]; omega)]
    exact h.empty i hki hi

/-- While two slots or more are empty, the slot behind the next one is. -/
theorem Ring.panics (h : Ring n k held c) (hk : k + 1 < n) (r : Nat) :
    writeToArray r false c = .panic .nilDereference := by
  have hnext : (c.nextindex + 1) % c.count = k + 1 := by
    rw [h.nextindex, h.count, Nat.mod_add_mod, Nat.mod_eq_of_lt hk]
  have hcount : c.count ≠ 0 := by rw [h.count]; omega
  simp only [writeToArray, Bool.false_eq_true, if_false, if_neg hcount, hnext, h.empty (k + 1) (by omega) hk]

/-! ### One call of `Write` -/

variable {p : AvPacket} {r : Nat}

theorem header_of_isKeyFrame (h : p.isKeyFrame = true) : p.header ≠ none := by
  intro hnone
  simp [AvPacket.isKeyFrame, hnone] at h

theorem write_key (hkey : p.isKeyFrame = true) (c : GopCache) :
    write r p c = writeToArray r true { c with start := true } := by
  rw [write, if_neg fun h => header_of_isKeyFrame hkey h.2, if_pos (Or.inl hkey), hkey]

theorem write_other (hkey : p.isKeyFrame = false) (hheader : p.isVideo = true → p.header ≠ none)
    (hstart : c.start = true) : write r p c = writeToArray r false c := by
  have hsame : { c with start := true } = c := by rw [← hstart]
  rw [write, if_neg fun h => hheader h.1 h.2, if_pos (Or.inr hstart), hkey, hsame]

theorem write_before (hkey : p.isKeyFrame = false) (hheader : p.isVideo = true → p.header ≠ none)
    (hstart : c.start = false) : write r p c = .ok () c := by
  rw [write, if_neg fun h => hheader h.1 h.2, if_neg (by simp [hkey, hstart])]

/-- The packets that were written, each with its pointer, in groups that start with a key frame. The newest group
stands first. -/
def pictures (xs : List (AvPacket × Nat)) : List (List (AvPacket × Nat)) :=
  groups (fun x => x.1.isKeyFrame) xs

/-- The array has of the `m`-th group what `Q` says. -/
def InGroup (Q : GopArray → List Nat → Prop) (xs : List (AvPacket × Nat)) (m : Nat) (array : GopArray) : Prop :=
  ∃ g, (pictures xs).reverse[m]? = some g ∧ Q array (g.map Prod.snd)

/-- The ring after these packets. -/
def Holds (Q : GopArray → List Nat → Prop) (n : Nat) (xs : List (AvPacket × Nat)) (c : GopCache) : Prop :=
  Ring n (pictures xs).length (InGroup Q xs) c

variable {Q : GopArray → List Nat → Prop} {xs : List (AvPacket × Nat)}

theorem pictures_concat (xs : List (AvPacket × Nat)) (p : AvPacket) (r : Nat) :
    pictures (xs ++ [(p, r)]) = add (fun x => x.1.isKeyFrame) (pictures xs) (p, r) := groups_concat xs (p, r)

theorem pictures_key (hkey : p.isKeyFrame = true) : pictures (xs ++ [(p, r)]) = [(p, r)] :: pictures xs :=
  (pictures_concat xs p r).trans (add_of_key hkey)

theorem pictures_other {g : List (AvPacket × Nat)} {gs : List (List (AvPacket × Nat))}
    (hkey : p.isKeyFrame = false) (hgs : pictures xs = g :: gs) :
    pictures (xs ++ [(p, r)]) = (g ++ [(p, r)]) :: gs := by
  rw [pictures_concat, hgs]
  exact add_of_not_key hkey

theorem pictures_before (hkey : p.isKeyFrame = false) (hgs : pictures xs = []) :
    pictures (xs ++ [(p, r)]) = [] := by
  rw [pictures_concat, hgs]
  exact add_nil_of_not_key hkey

theorem holds_newGopCache (n : Nat) : Holds Q n [] (newGopCache n) := ring_newGopCache n _

theorem Holds.write_key (h : Holds Q n xs c) (hn : 0 < n) (hQ : Q (GopArray.ofGroup [r]) [r])
    (hkey : p.isKeyFrame = true) :
    ∃ c', write r p c = .ok () c' ∧ Holds Q n (xs ++ [(p, r)]) c' := by
  obtain ⟨c', hwrite, hring⟩ := Ring.opens h hn r
  refine ⟨c', by rw [GopCache.write_key hkey, hwrite], ?_⟩
  rw [Holds, pictures_key hkey, List.length_cons]
  refine hring.imp fun m hm array harray => ?_
  rw [InGroup, pictures_key hkey, List.reverse_cons]
  by_cases hmk : m = (pictures xs).length
  · rw [if_pos hmk] at harray
    refine ⟨[(p, r)], ?_, harray ▸ hQ⟩
    rw [List.getElem?_append_right (by rw [List.length_reverse]; omega), List.length_reverse, hmk, Nat.sub_self]
    rfl
  · rw [if_neg hmk] at harray
    obtain ⟨g, hg, hq⟩ := harray
    exact ⟨g, by rw [List.getElem?_append_left (by rw [List.length_reverse]; omega), hg], hq⟩

theorem Holds.write_before (h : Holds Q n xs c) (hkey : p.isKeyFrame = false)
    (hheader : p.isVideo = true → p.header ≠ none) (hgs : pictures xs = []) :
    write r p c = .ok () c ∧ Holds Q n (xs ++ [(p, r)]) c := by
  have hstart : c.start = false := by rw [Ring.start h, hgs]; rfl
  refine ⟨GopCache.write_before hkey hheader hstart, ?_⟩
  rw [Holds, hgs] at h
  rw [Holds, pictures_before hkey hgs]
  exact Ring.imp h fun m hm => absurd hm (Nat.not_lt_zero m)

/-- A packet that opens no group: the newest group gets it, the array in the slot behind the next one is where it
is put. -/
theorem Holds.write_other (h : Holds Q n xs c) (hkey : p.isKeyFrame = false)
    (hheader : p.isVideo = true → p.header ≠ none) {g : List (AvPacket × Nat)} {gs : List (List (AvPacket × Nat))}
    (hgs : pictures xs = g :: gs) {t : Nat} (ht : t ≤ gs.length) (hnear : gs.length + 1 ≤ t + n)
    (hslot : t % n = (gs.length + 2) % n)
    (hput : ∀ m array g', (if m = t then ∃ b, Q b g' ∧ array = b.put r else Q array g') →
      Q array (if m = gs.length then g' ++ [r] else g')) :
    ∃ c', write r p c = .ok () c' ∧ Holds Q n (xs ++ [(p, r)]) c' := by
  have hk : (pictures xs).length = gs.length + 1 := by rw [hgs, List.length_cons]
  have hstart : c.start = true := by rw [Ring.start h, hk]; simp
  obtain ⟨c', hwrite, hring⟩ := Ring.continues h (t := t) (by omega) (by omega) (by rw [hk]; exact hslot) r
  refine ⟨c', by rw [GopCache.write_other hkey hheader hstart, hwrite], ?_⟩
  rw [Holds, pictures_other hkey hgs, List.length_cons, ← hk]
  refine hring.imp fun m hm array harray => ?_
  -- the group that the array is of, before the packet and after it
  have hmem : ∃ g', (pictures xs).reverse[m]? = some g' ∧
      (if m = t then ∃ b, Q b (g'.map Prod.snd) ∧ array = b.put r else Q array (g'.map Prod.snd)) := by
    by_cases hmt : m = t
    · rw [if_pos hmt] at harray
      obtain ⟨b, ⟨g', hg', hq⟩, hb⟩ := harray
      exact ⟨g', hg', by rw [if_pos hmt]; exact ⟨b, hq, hb⟩⟩
    · rw [if_neg hmt] at harray
      obtain ⟨g', hg', hq⟩ := harray
      exact ⟨g', hg', by rwa [if_neg hmt]⟩
  obtain ⟨g', hg', hq⟩ := hmem
  have hafter := hput m array (g'.map Prod.snd) hq
  rw [InGroup, pictures_other hkey hgs, List.reverse_cons]
  rw [hgs, List.reverse_cons] at hg'
  by_cases hmk : m = gs.length
  · rw [if_pos hmk] at hafter
    rw [List.getElem?_append_right (by rw [List.length_reverse]; omega), List.length_reverse, hmk, Nat.sub_self] at hg'
    cases hg'
    refine ⟨g ++ [(p, r)], ?_, by rw [List.map_append]; exact hafter⟩
    rw [List.getElem?_append_right (by rw [List.length_reverse]; omega), List.length_reverse, hmk, Nat.sub_self]
    rfl
  · rw [if_neg hmk] at hafter
    rw [List.getElem?_append_left (by rw [List.length_reverse]; omega)] at hg'
    exact ⟨g', by rw [List.getElem?_append_left (by rw [List.length_reverse]; omega), hg'], hafter⟩

/-! ### Rings of one or two slots -/

/-- Every array holds the first packets of its own group. -/
def Kept (n : Nat) (xs : List (AvPacket × Nat)) (c : GopCache) : Prop :=
  Holds (fun array g => array = GopArray.ofGroup g) n xs c

theorem Kept.write (h : Kept n xs c) (hn : 0 < n) (hn2 : n ≤ 2) (hheader : p.isVideo = true → p.header ≠ none) :
    ∃ c', write r p c = .ok () c' ∧ Kept n (xs ++ [(p, r)]) c' := by
  cases hkey : p.isKeyFrame with
  | true => exact Holds.write_key h hn rfl hkey
  | false =>
      cases hgs : pictures xs with
      | nil => exact ⟨c, Holds.write_before h hkey hheader hgs⟩
      | cons g gs =>
          have hslot : gs.length % n = (gs.length + 2) % n := by
            obtain rfl | rfl : n = 1 ∨ n = 2 := by omega
            · omega
            · omega
          refine Holds.write_other h hkey hheader hgs le_rfl (by omega) hslot fun m array g' hq => ?_
          by_cases hm : m = gs.length
          · rw [if_pos hm] at hq ⊢
            obtain ⟨b, rfl, rfl⟩ := hq
            exact GopArray.put_ofGroup g' r
          · rwa [if_neg hm] at hq ⊢

/-- The last `n` groups, oldest first, each cut after the packets that an array takes. -/
def recent (n : Nat) (xs : List (AvPacket × Nat)) : List (List Nat) :=
  ((pictures xs).take n).reverse.map fun g => (g.map Prod.snd).take maxGOPCap

theorem recent_one (xs : List (AvPacket × Nat)) :
    (recent 1 xs).flatten = ((fromLast (fun x => x.1.isKeyFrame) xs).map Prod.snd).take maxGOPCap := by
  rw [recent, ← headD_groups, ← pictures]
  cases pictures xs <;> simp

theorem flatMap_range_length {α β : Type} {as : List α} {f : Nat → List β} {g : α → List β}
    (h : ∀ i a, as[i]? = some a → f i = g a) : (List.range as.length).flatMap f = as.flatMap g := by
  induction as using List.reverseRecOn with
  | nil => rfl
  | append_singleton as a ih =>
      have hinit : ∀ i b, as[i]? = some b → f i = g b := by
        intro i b hb
        obtain ⟨hi, -⟩ := List.getElem?_eq_some_iff.mp hb
        exact h i b (by rw [List.getElem?_append_left hi, hb])
      have hlast : f as.length = g a := h as.length a (by simp)
      rw [List.length_append, List.length_singleton, List.range_succ, List.flatMap_append, List.flatMap_append,
        ih hinit, List.flatMap_singleton, List.flatMap_singleton, hlast]

theorem Kept.replayed (h : Kept n xs c) (hn : 0 < n) (hn2 : n ≤ 2) {i : Nat} {g : List (AvPacket × Nat)}
    (hg : ((pictures xs).take n).reverse[i]? = some g) :
    c.replayed i = some (some (GopArray.ofGroup (g.map Prod.snd))) := by
  rw [List.reverse_take, List.getElem?_drop] at hg
  set k := (pictures xs).length with hk
  obtain ⟨hlt, -⟩ := List.getElem?_eq_some_iff.mp hg
  rw [List.length_reverse, ← hk] at hlt
  obtain ⟨array, hget, g', hg', harray⟩ := Ring.live h (k - n + i) hlt (by omega)
  rw [hg] at hg'
  cases hg'
  have hnum : c.num = min k n := Ring.num h
  have hindex : c.replayed i = c.gops[(k - n + i) % n]? := by
    have hcount : c.count = n := Ring.count h
    have hnext : c.nextindex = k % n := Ring.nextindex h
    simp only [GopCache.replayed, hcount, hnext, hnum, Nat.mod_add_mod]
    obtain rfl | rfl : n = 1 ∨ n = 2 := by omega
    · rw [if_neg (by split_ifs <;> omega)]
      congr 1
      split_ifs <;> omega
    · rw [if_neg (by split_ifs <;> omega)]
      congr 1
      split_ifs <;> omega
  rw [hindex, hget, harray]

/-- What is sent: the packets of the last groups themselves. -/
theorem Kept.actions (h : Kept n xs c) (hn : 0 < n) (hn2 : n ≤ 2) (mem : Memory) :
    c.actions mem = ((recent n xs).flatten.map fun r => (⟨r, true, mem.cell r⟩ : Delivery)).map .ok := by
  have hcount : ¬c.count = 0 := by
    rw [Ring.count h]
    omega
  have hnum : c.num = ((pictures xs).take n).reverse.length := by
    rw [Ring.num h, List.length_reverse, List.length_take, Nat.min_comm]
  rw [GopCache.actions, if_neg hcount, hnum]
  have hturn : ∀ i g, ((pictures xs).take n).reverse[i]? = some g →
      turnActions mem (c.replayed i) =
      (((g.map Prod.snd).take maxGOPCap).map fun r => (⟨r, true, mem.cell r⟩ : Delivery)).map Except.ok := by
    intro i g hg
    rw [h.replayed hn hn2 hg]
    exact GopArray.actions_of_length mem rfl
  rw [flatMap_range_length hturn, recent, List.map_flatten, List.map_flatten, List.map_map, List.map_map,
    List.flatMap_def]
  rfl

/-! ### Rings of more slots -/

/-- The array starts with the key frame of the group, whatever comes behind it. -/
structure SameHead (array : GopArray) (g : List Nat) : Prop where
  index : array.index = array.packets.length
  head : array.packets.head? = g.head?
  ne_nil : array.packets ≠ []

theorem SameHead.ofGroup (r : Nat) : SameHead (GopArray.ofGroup [r]) [r] := ⟨rfl, rfl, List.cons_ne_nil _ _⟩

theorem SameHead.put {array : GopArray} {g : List Nat} (h : SameHead array g) (r : Nat) :
    SameHead (array.put r) g := by
  by_cases hfull : maxGOPCap ≤ array.index
  · rwa [GopArray.put_of_full hfull]
  · rw [GopArray.put_of_lt (by omega)]
    refine ⟨?_, ?_, by simp⟩
    · rw [List.length_append, List.length_singleton, h.index]
    · rw [List.head?_append, ← h.head, List.head?_eq_some_head h.ne_nil]
      rfl

theorem SameHead.append {array : GopArray} {g : List Nat} (h : SameHead array g) (r : Nat) :
    SameHead array (g ++ [r]) := by
  refine ⟨h.index, ?_, h.ne_nil⟩
  rw [List.head?_append, ← h.head, List.head?_eq_some_head h.ne_nil]
  rfl

/-- A write that returns leaves the key frames where they are. -/
theorem Holds.write_sameHead (h : Holds SameHead n xs c) (hn : 3 ≤ n) {c' : GopCache}
    (hwrite : write r p c = .ok () c') : Holds SameHead n (xs ++ [(p, r)]) c' := by
  have hheader : p.isVideo = true → p.header ≠ none := by
    intro hvideo hnone
    rw [write, if_pos ⟨hvideo, hnone⟩] at hwrite
    cases hwrite
  have hsame : ∀ c'', write r p c = .ok () c'' → Holds SameHead n (xs ++ [(p, r)]) c'' →
      Holds SameHead n (xs ++ [(p, r)]) c' := by
    intro c'' hwrite' hholds
    rw [hwrite] at hwrite'
    cases hwrite'
    exact hholds
  cases hkey : p.isKeyFrame with
  | true =>
      obtain ⟨c'', hwrite', hholds⟩ := Holds.write_key h (by omega) (SameHead.ofGroup r) hkey
      exact hsame c'' hwrite' hholds
  | false =>
      cases hgs : pictures xs with
      | nil =>
          obtain ⟨hwrite', hholds⟩ := Holds.write_before h hkey hheader hgs
          exact hsame c hwrite' hholds
      | cons g gs =>
          have hk : (pictures xs).length = gs.length + 1 := by rw [hgs, List.length_cons]
          have hstart : c.start = true := by rw [Ring.start h, hk]; simp
          by_cases hfew : gs.length + 2 < n
          · rw [GopCache.write_other hkey hheader hstart, Ring.panics h (by omega)] at hwrite
            cases hwrite
          · have hslot : (gs.length + 2 - n) % n = (gs.length + 2) % n := (Nat.mod_eq_sub_mod (by omega)).symm
            obtain ⟨c'', hwrite', hholds⟩ := Holds.write_other h hkey hheader hgs (t := gs.length + 2 - n) (by omega)
              (by omega) hslot fun m array g' hq => by
                have hq' : SameHead array g' := by
                  split_ifs at hq
                  · obtain ⟨b, hb, rfl⟩ := hq
                    exact hb.put r
                  · exact hq
                split_ifs
                · exact hq'.append r
                · exact hq'
            exact hsame c'' hwrite' hholds

/-- Until the ring is full, sending it comes to an empty slot. -/
theorem Holds.actions_panic (h : Holds Q n xs c) (hn : 3 ≤ n) (hpos : 0 < (pictures xs).length)
    (hfew : (pictures xs).length < n) (mem : Memory) : .error .nilDereference ∈ c.actions mem := by
  set k := (pictures xs).length with hk
  have hcount : c.count = n := Ring.count h
  have hnum : c.num = k := by rw [Ring.num h]; omega
  have hnext : c.nextindex = k := by rw [Ring.nextindex h, Nat.mod_eq_of_lt hfew]
  have hslot : ∃ i, i < k ∧ c.replayed i = some none := by
    by_cases hlast : k + 1 = n
    · refine ⟨k - 2, by omega, ?_⟩
      simp only [replayed, hcount, hnum, hnext, hlast, Nat.mod_self]
      rw [if_neg (by split_ifs <;> omega), if_pos (by omega)]
      exact Ring.empty h _ (by omega) (by omega)
    · refine ⟨k - 1, by omega, ?_⟩
      simp only [replayed, hcount, hnum, hnext, Nat.mod_eq_of_lt (by omega : k + 1 < n)]
      rw [if_neg (by split_ifs <;> omega), if_neg (by omega)]
      exact Ring.empty h _ (by omega) (by omega)
  obtain ⟨i, hi, hnone⟩ := hslot
  rw [actions, if_neg (by omega), hnum]
  refine List.mem_flatMap.mpr ⟨i, List.mem_range.mpr hi, ?_⟩
  rw [hnone]
  exact List.mem_cons_self

/-- A full ring is sent from its third oldest group on. -/
theorem Holds.actions_head (h : Holds SameHead n xs c) (hn : 3 ≤ n) (hfull : n ≤ (pictures xs).length)
    (mem : Memory) : ∃ g rest, (pictures xs).reverse[(pictures xs).length + 2 - n]? = some g ∧
      (∃ r, (g.map Prod.snd).head? = some r ∧ c.actions mem = .ok ⟨r, true, mem.cell r⟩ :: rest) := by
  set k := (pictures xs).length with hk
  have hcount : c.count = n := Ring.count h
  have hnum : c.num = n := by rw [Ring.num h]; omega
  have hnext : c.nextindex = k % n := Ring.nextindex h
  obtain ⟨array, hget, g, hg, hhead⟩ := Ring.live h (k + 2 - n) (by omega) (by omega)
  have hslot : (k + 2 - n) % n = (k + 2) % n := (Nat.mod_eq_sub_mod (by omega)).symm
  have hfirst : c.replayed 0 = some (some array) := by
    have hpos : (c.nextindex + 1) % n = (k + 1) % n := by rw [hnext, Nat.mod_add_mod]
    have hnext2 : (k + 2) % n = ((k + 1) % n + 1) % n := by rw [Nat.mod_add_mod]
    have hlt : (k + 1) % n < n := Nat.mod_lt _ (by omega)
    rw [← hget, hslot, hnext2]
    simp only [replayed, hcount, hpos, hnum]
    generalize (k + 1) % n = pos at hlt ⊢
    by_cases hwrap : pos + 1 = n
    · rw [if_neg (by split_ifs <;> omega), if_neg (by omega), hwrap, Nat.mod_self]
      congr 1
      omega
    · rw [if_neg (by split_ifs <;> omega), if_pos (by omega), Nat.mod_eq_of_lt (by omega)]
      congr 1
      omega
  obtain ⟨r, tail, hpackets⟩ := List.exists_cons_of_ne_nil hhead.ne_nil
  have hturn : ∃ rest, turnActions mem (c.replayed 0) = .ok ⟨r, true, mem.cell r⟩ :: rest := by
    rw [hfirst, turnActions, GopArray.actions_of_length mem hhead.index, hpackets]
    exact ⟨_, rfl⟩
  obtain ⟨rest, hturn⟩ := hturn
  obtain ⟨l, hl⟩ : ∃ l, List.range n = 0 :: l := ⟨_, by rw [show n = n - 1 + 1 by omega, List.range_succ_eq_map]⟩
  refine ⟨g, rest ++ l.flatMap fun i => turnActions mem (c.replayed i), hg, r, ?_, ?_⟩
  · rw [← hhead.head, hpackets]
    rfl
  · rw [actions, if_neg (by omega), hnum, hl, List.flatMap_cons, hturn, List.cons_append]

/-! ### Any number of calls -/

/-- `Write` for each of the packets, with the pointer that stands beside it. -/
def writeAll (xs : List (AvPacket × Nat)) : Call GoError GopCache Unit := forM xs fun x => write x.2 x.1

theorem writeAll_append {ys zs : List (AvPacket × Nat)} {c c' : GopCache} :
    writeAll (ys ++ zs) c = .ok () c' ↔ ∃ d, writeAll ys c = .ok () d ∧ writeAll zs d = .ok () c' := by
  rw [writeAll, Call.forM_append, Call.bind_eq_ok]
  exact ⟨fun ⟨_, d, hys, hzs⟩ => ⟨d, hys, hzs⟩, fun ⟨d, hys, hzs⟩ => ⟨(), d, hys, hzs⟩⟩

theorem writeAll_singleton (x : AvPacket × Nat) (c c' : GopCache) :
    writeAll [x] c = .ok () c' ↔ write x.2 x.1 c = .ok () c' := by
  rw [writeAll, Call.forM_one]

/-- What a call keeps that returns, calls that return keep. -/
theorem writeAll_keeps {P : List (AvPacket × Nat) → GopCache → Prop}
    (hstep : ∀ xs p r c c', P xs c → write r p c = .ok () c' → P (xs ++ [(p, r)]) c') {c c' : GopCache}
    (h : P [] c) (hwrite : writeAll xs c = .ok () c') : P xs c' := by
  induction xs using List.reverseRecOn generalizing c' with
  | nil =>
      cases hwrite
      exact h
  | append_singleton xs x ih =>
      obtain ⟨d, hxs, hx⟩ := writeAll_append.mp hwrite
      exact hstep xs x.1 x.2 d c' (ih hxs) ((writeAll_singleton x d c').mp hx)

theorem Kept.writeAll (hn : 0 < n) (hn2 : n ≤ 2) (hheader : ∀ x ∈ xs, x.1.isVideo = true → x.1.header ≠ none) :
    ∃ c, GopCache.writeAll xs (newGopCache n) = .ok () c ∧ Kept n xs c := by
  induction xs using List.reverseRecOn with
  | nil => exact ⟨_, rfl, holds_newGopCache n⟩
  | append_singleton xs x ih =>
      obtain ⟨d, hxs, hd⟩ := ih fun y hy => hheader y (List.mem_append_left _ hy)
      obtain ⟨c, hx, hc⟩ := hd.write (r := x.2) hn hn2 (hheader x (by simp))
      exact ⟨c, writeAll_append.mpr ⟨d, hxs, (writeAll_singleton x d c).mpr hx⟩, hc⟩

/-- Without a key frame nothing is kept. -/
theorem writeAll_before (hheader : ∀ x ∈ xs, x.1.isVideo = true → x.1.header ≠ none)
    (hkey : ∀ x ∈ xs, x.1.isKeyFrame = false) : writeAll xs (newGopCache n) = .ok () (newGopCache n) := by
  induction xs using List.reverseRecOn with
  | nil => rfl
  | append_singleton xs x ih =>
      refine writeAll_append.mpr ⟨newGopCache n, ih (fun y hy => hheader y (List.mem_append_left _ hy))
        (fun y hy => hkey y (List.mem_append_left _ hy)), (writeAll_singleton x _ _).mpr ?_⟩
      exact GopCache.write_before (hkey x (by simp)) (hheader x (by simp)) rfl

theorem header_of_writeAll {c c' : GopCache} (h : writeAll xs c = .ok () c') :
    ∀ x ∈ xs, x.1.isVideo = true → x.1.header ≠ none := by
  intro x hx hvideo hnone
  obtain ⟨ys, zs, rfl⟩ := List.append_of_mem hx
  obtain ⟨d, -, hrest⟩ := writeAll_append.mp h
  rw [← List.singleton_append] at hrest
  obtain ⟨e, hwrite, -⟩ := writeAll_append.mp hrest
  rw [writeAll_singleton, write, if_pos ⟨hvideo, hnone⟩] at hwrite
  cases hwrite

theorem pictures_eq_nil (h : ∀ x ∈ xs, x.1.isKeyFrame = false) : pictures xs = [] := by
  refine List.length_eq_zero_iff.mp ((length_groups xs).trans (List.countP_eq_zero.mpr fun x hx => ?_))
  simp [h x hx]

theorem pictures_pos {x : AvPacket × Nat} (hx : x ∈ xs) (hkey : x.1.isKeyFrame = true) :
    0 < (pictures xs).length := by
  rw [pictures, length_groups]
  exact List.countP_pos_iff.mpr ⟨x, hx, hkey⟩

/-- Groups with numbers of their own start with pointers of their own. -/
theorem pictures_head_ne (hnodup : (xs.map Prod.snd).Nodup) {i j : Nat} (hij : i < j)
    {g g' : List (AvPacket × Nat)} (hg : (pictures xs).reverse[i]? = some g)
    (hg' : (pictures xs).reverse[j]? = some g') {r r' : Nat} (hr : (g.map Prod.snd).head? = some r)
    (hr' : (g'.map Prod.snd).head? = some r') : r ≠ r' := by
  rintro rfl
  have hflat : (((pictures xs).reverse.map (List.map Prod.snd)).flatten).Nodup := by
    rw [← List.map_flatten]
    exact hnodup.sublist ((flatten_groups_suffix xs).sublist.map Prod.snd)
  have hpair := (List.nodup_flatten.mp hflat).2
  obtain ⟨hi, hgi⟩ := List.getElem?_eq_some_iff.mp hg
  obtain ⟨hj, hgj⟩ := List.getElem?_eq_some_iff.mp hg'
  have hdisjoint := List.pairwise_iff_getElem.mp hpair i j (by simpa using hi) (by simpa using hj) hij
  rw [List.getElem_map, List.getElem_map, hgi, hgj] at hdisjoint
  exact hdisjoint (List.mem_of_mem_head? hr) (List.mem_of_mem_head? hr')

/-- After these calls, each with a pointer of its own, the cache sends the last groups: no call panics, and what is
handed over are the pointers of the packets from the `n`-th last key frame on, except those that come after the
first `maxGOPCap` of a group. -/
def Replays (mem : Memory) (n : Nat) (calls : List AvPacket) : Prop :=
  ∃ c out, writeAll calls.zipIdx (newGopCache n) = .ok () c ∧ c.send mem collect [] = .ok () out ∧
    out.map Delivery.origin = (recent n calls.zipIdx).flatten

theorem replays_of_actions {mem : Memory} {calls : List AvPacket}
    (hwrite : writeAll calls.zipIdx (newGopCache n) = .ok () c)
    (hactions : c.actions mem =
      ((recent n calls.zipIdx).flatten.map fun r => (⟨r, true, mem.cell r⟩ : Delivery)).map .ok) :
    Replays mem n calls := by
  refine ⟨c, (recent n calls.zipIdx).flatten.map fun r => (⟨r, true, mem.cell r⟩ : Delivery), hwrite, ?_, ?_⟩
  · rw [send_eq, hactions, forM_act_ok, forM_collect, List.nil_append]
  · rw [List.map_map]
    exact List.map_id _

/-- A ring of three slots or more fails with the first key frame. -/
theorem not_replays {mem : Memory} {calls : List AvPacket} (hn : 3 ≤ n) (hkey : ∃ p ∈ calls, p.isKeyFrame = true) :
    ¬Replays mem n calls := by
  rintro ⟨c, out, hwrite, hsend, hout⟩
  have hholds : Holds SameHead n calls.zipIdx c :=
    writeAll_keeps (P := Holds SameHead n) (fun xs p r c c' h hw => h.write_sameHead hn hw)
      (holds_newGopCache n) hwrite
  obtain ⟨p, hp, hk⟩ := hkey
  obtain ⟨i, hi, hpi⟩ := List.getElem_of_mem hp
  have hpos : 0 < (pictures calls.zipIdx).length :=
    pictures_pos (x := (p, i)) (List.mk_mem_zipIdx_iff_getElem?.mpr (by rw [List.getElem?_eq_getElem hi, hpi])) hk
  rw [send_eq] at hsend
  have hnopanic : ∀ f, .error f ∉ c.actions mem := by
    intro f hf
    have hpanics : (forM _ (act collect) []).Panics := forM_act_panics (fun d s => ⟨_, rfl⟩) hf []
    rw [hsend] at hpanics
    exact hpanics
  by_cases hfull : n ≤ (pictures calls.zipIdx).length
  · obtain ⟨g, rest, hg, r, hr, hactions⟩ := hholds.actions_head hn hfull mem
    obtain ⟨oldest, holdest⟩ : ∃ g, (pictures calls.zipIdx).reverse[(pictures calls.zipIdx).length - n]? = some g :=
      ⟨_, List.getElem?_eq_getElem (by rw [List.length_reverse]; omega)⟩
    -- what is handed over first is the start of the third group of the ring, where the oldest should be
    rw [hactions, Call.forM_apply_cons] at hsend
    obtain ⟨tail, rfl⟩ := prefix_of_forM_collect hsend
    obtain ⟨k, body, rfl, -⟩ := head_of_mem_groups (List.mem_reverse.mp (List.mem_of_getElem? holdest))
    have hdrop : (recent n calls.zipIdx).flatten.head? = some k.2 := by
      rw [recent, List.reverse_take, List.drop_eq_getElem_cons (by rw [List.length_reverse]; omega)]
      have hget := (List.getElem?_eq_some_iff.mp holdest).2
      rw [hget]
      rfl
    rw [← hout] at hdrop
    have hsame : r = k.2 := Option.some.inj hdrop
    have hnodup : (calls.zipIdx.map Prod.snd).Nodup := by
      rw [List.zipIdx_map_snd]
      exact List.nodup_range'
    exact pictures_head_ne hnodup (by omega) holdest hg rfl hr hsame.symm
  · exact hnopanic _ (hholds.actions_panic hn hpos (by omega) mem)

/-- Which rings keep the most recent groups: those of one or two slots, as long as every video packet has a video
header, and any other while there is no key frame. -/
theorem replays_iff (hn : 0 < n) (mem : Memory) (calls : List AvPacket) :
    (∀ pre, pre <+: calls → Replays mem n pre) ↔
      (∀ p ∈ calls, p.isVideo = true → p.header ≠ none) ∧ (n ≤ 2 ∨ ∀ p ∈ calls, p.isKeyFrame = false) := by
  constructor
  · intro h
    have hall := h calls List.prefix_rfl
    constructor
    · obtain ⟨c, -, hwrite, -⟩ := hall
      intro p hp
      obtain ⟨i, hi, rfl⟩ := List.getElem_of_mem hp
      exact header_of_writeAll hwrite (calls[i], i)
        (List.mk_mem_zipIdx_iff_getElem?.mpr (List.getElem?_eq_getElem hi))
    · by_contra hnot
      push Not at hnot
      exact not_replays (by omega) (hnot.2.imp fun p ⟨hp, hk⟩ => ⟨hp, by simpa using hk⟩) hall
  · rintro ⟨hheader, hfew⟩ pre hpre
    have hmem : ∀ x ∈ pre.zipIdx, x.1 ∈ calls := fun x hx => hpre.subset (List.fst_mem_of_mem_zipIdx hx)
    have hheader' : ∀ x ∈ pre.zipIdx, x.1.isVideo = true → x.1.header ≠ none := fun x hx => hheader x.1 (hmem x hx)
    rcases hfew with hn2 | hkey
    · obtain ⟨c, hwrite, hkept⟩ := Kept.writeAll hn hn2 hheader'
      exact replays_of_actions hwrite (hkept.actions hn hn2 mem)
    · have hkey' : ∀ x ∈ pre.zipIdx, x.1.isKeyFrame = false := fun x hx => hkey x.1 (hmem x hx)
      apply replays_of_actions (writeAll_before hheader' hkey')
      have hcount : ¬(newGopCache n).count = 0 := by
        show ¬n = 0
        omega
      rw [recent, pictures_eq_nil hkey', actions, if_neg hcount, List.take_nil]
      rfl

def keyFrame : AvPacket := { isVideo := true, header := some { frameType := frameKey, avcPacketType := 1 } }

def interFrame : AvPacket := { isVideo := true, header := some { frameType := frameInter, avcPacketType := 1 } }

theorem replays_iff_two : (∀ pre, pre <+: [keyFrame, interFrame, keyFrame] → Replays {} 2 pre) ↔
    (∀ p ∈ [keyFrame, interFrame, keyFrame], p.isVideo = true → p.header ≠ none) ∧
      (2 ≤ 2 ∨ ∀ p ∈ [keyFrame, interFrame, keyFrame], p.isKeyFrame = false) :=
  replays_iff (by decide) {} _

/-- With three slots the frame after the first key frame is put into a slot that is empty. -/
theorem writeAll_three_panics :
    writeAll [keyFrame, interFrame].zipIdx (newGopCache 3) = .panic .nilDereference ∧
      ¬Replays {} 3 [keyFrame, interFrame] :=
  ⟨by rfl, not_replays le_rfl ⟨keyFrame, List.mem_cons_self, by decide⟩⟩

end GopCache

end Livego
