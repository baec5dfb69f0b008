import Livego.AmfLocality
import Mathlib.Data.Set.Basic

/-! Decoding inputs that are cut. A call takes some bytes; without all of them it fails, unless what it takes last is
content whose bytes it does not count, which is then filled up with zeros. -/

namespace Livego

open Fallible Call

namespace Amf

open Decoding (left)

variable {α β : Type}

/-- Content that a length announces: whether the result keeps it, how long it is to be, and where it begins. -/
structure Content where
  kept : Bool
  length : Nat
  start : Decoding

/-- There are fewer bytes than the length calls for. -/
def Content.Short (c : Content) : Prop := c.start.left < c.length

theorem Agrees.after {j k : Nat} {s s' t : Decoding} (h : Agrees (j + k) s s') (hr : t.r = (s.skip j).r) :
    Agrees k t ⟨t.decoder, (s'.skip j).r⟩ := by
  have hskip := h.skip
  refine ⟨rfl, ?_, ?_⟩
  · rw [hr]
    exact hskip.kind
  · rw [hr]
    exact hskip.unread

/-- A run of `x` from `s` that returns `a` in `t`: it takes `k` bytes, the last `m` of them as content. `A` is the content
that it meets, `E` that with which it ends, and `Q` holds of the results that are filled up. -/
structure Run (A E : Set Content) (Q : α → Prop) (x : Dec α) (s : Decoding) (a : α) (t : Decoding) (k m : Nat) : Prop where
  le : k ≤ s.left
  reader : t.r = (s.skip k).r
  last_le : m ≤ k
  single : ∀ c ∈ E, ∀ c' ∈ E, c = c'
  last : ∀ c ∈ E, 0 < c.length → 0 < m ∧ c.start.left = t.left + m ∧ m = min c.length c.start.left
  exists_last : 0 < m → ∃ c ∈ E, 0 < c.length
  short : ∀ c ∈ A, c.Short → c ∈ E
  filled_up : (∃ c ∈ E, c.Short) → Q a
  missing : ∀ s', Agrees k s s' → s'.left < k → s'.left ≤ k - m → Fails x s'
  filled : ∀ s', Agrees k s s' → k - m < s'.left → s'.left < k → ∃ a' t', x s' = .ok a' t' ∧ t'.left = 0 ∧ Q a'
  same : (∀ c ∈ E, ¬c.Short) → ∀ s', Agrees k s s' → k ≤ s'.left →
    x s' = .ok a ⟨t.decoder, (s'.skip k).r⟩ ∨ s'.left = k ∧ k < s.left ∧ Fails x s'
  more : (∃ c ∈ E, c.Short) → ∀ s', Agrees k s s' → k < s'.left → ∀ a' t', x s' = .ok a' t' → t'.left < s'.left - k

/-- Where it succeeds, the call runs so. -/
def CutAt (A E : Set Content) (Q : α → Prop) (x : Dec α) (s : Decoding) : Prop :=
  ∀ a t, x s = .ok a t → ∃ k m, Run A E Q x s a t k m

/-- A call that ends with no content. -/
abbrev Whole (A : Set Content) (x : Dec α) (s : Decoding) : Prop := CutAt A ∅ (fun _ => False) x s

/-- A call that reads nothing and always returns, by what is in the tables. -/
def Idle (x : Dec α) : Prop := ∃ g : Decoder → α × Decoder, ∀ s, x s = .ok (g s.decoder).1 ⟨(g s.decoder).2, s.r⟩

theorem Run.left_eq {A E : Set Content} {Q : α → Prop} {x : Dec α} {s t : Decoding} {a : α} {k m : Nat}
    (h : Run A E Q x s a t k m) : t.left = s.left - k := by
  rw [left, h.reader]
  exact Decoding.left_skip k s

/-- After content that is short, nothing is left. -/
theorem Run.left_eq_zero {A E : Set Content} {Q : α → Prop} {x : Dec α} {s t : Decoding} {a : α} {k m : Nat}
    (h : Run A E Q x s a t k m) {c : Content} (hc : c ∈ E) (hshort : c.Short) : t.left = 0 := by
  unfold Content.Short at hshort
  obtain ⟨-, hstart, hm⟩ := h.last c hc (by omega)
  omega

namespace Idle

variable {x y : Dec α} {f : α → Dec β}

theorem pure (a : α) : Idle (pure a : Dec α) := ⟨fun d => (a, d), fun _ => rfl⟩

theorem record (g : Decoder → Decoder) : Idle (record g) := ⟨fun d => ((), g d), fun _ => rfl⟩

theorem bind (hx : Idle x) (hf : ∀ a, Idle (f a)) : Idle (x >>= f) := by
  obtain ⟨g, hg⟩ := hx
  choose h hh using hf
  refine ⟨fun d => h (g d).1 (g d).2, fun s => ?_⟩
  rw [bind_of_ok (hg s), hh]

theorem ite {c : Prop} [Decidable c] (hx : Idle x) (hy : Idle y) : Idle (if c then x else y) := by
  split
  · exact hx
  · exact hy

end Idle

namespace CutAt

variable {A A' E : Set Content} {Q Q' : α → Prop} {x y : Dec α} {f : α → Dec β} {s : Decoding}

theorem mono (h : CutAt A' E Q x s) (hA : A ⊆ A') : CutAt A E Q x s := by
  intro a t hok
  obtain ⟨k, m, hrun⟩ := h a t hok
  exact ⟨k, m, { hrun with short := fun c hc => hrun.short c (hA hc) }⟩

theorem imp (h : CutAt A E Q x s) (hQ : ∀ a, Q a → Q' a) : CutAt A E Q' x s := by
  intro a t hok
  obtain ⟨k, m, hrun⟩ := h a t hok
  refine ⟨k, m, { hrun with filled_up := fun hc => hQ a (hrun.filled_up hc), filled := fun s' hs' hlt hlt' => ?_ }⟩
  obtain ⟨a', t', hok', hleft, hq⟩ := hrun.filled s' hs' hlt hlt'
  exact ⟨a', t', hok', hleft, hQ a' hq⟩

/-- What is filled up is a result of the call. -/
theorem result (h : CutAt A E Q x s) : CutAt A E (fun a => ∃ s t, x s = .ok a t) x s := by
  intro a t hok
  obtain ⟨k, m, hrun⟩ := h a t hok
  refine ⟨k, m, { hrun with filled_up := fun _ => ⟨s, t, hok⟩, filled := fun s' hs' hlt hlt' => ?_ }⟩
  obtain ⟨a', t', hok', hzero, -⟩ := hrun.filled s' hs' hlt hlt'
  exact ⟨a', t', hok', hzero, s', t', hok'⟩

/-- A call that meets no content: without all the bytes that it takes it fails. -/
theorem whole (h : ∀ a t, x s = .ok a t → ∃ k ≤ s.left, t.r = (s.skip k).r ∧ ∀ s', Agrees k s s' →
    (s'.left < k → Fails x s') ∧
      (k ≤ s'.left → x s' = .ok a ⟨t.decoder, (s'.skip k).r⟩ ∨ s'.left = k ∧ k < s.left ∧ Fails x s')) :
    Whole ∅ x s := by
  intro a t hok
  obtain ⟨k, hle, hreader, hcut⟩ := h a t hok
  refine ⟨k, 0, ?_⟩
  exact
    { le := hle
      reader := hreader
      last_le := Nat.zero_le k
      single := fun c hc => hc.elim
      last := fun c hc => hc.elim
      exists_last := fun h => absurd h (Nat.lt_irrefl 0)
      short := fun c hc => hc.elim
      filled_up := fun ⟨c, hc, _⟩ => hc.elim
      missing := fun s' hs' hlt _ => (hcut s' hs').1 hlt
      filled := fun s' _ hlt hlt' => absurd hlt' (Nat.lt_asymm hlt)
      same := fun _ s' hs' => (hcut s' hs').2
      more := fun ⟨c, hc, _⟩ => hc.elim }

/-- A call that reads nothing. -/
theorem of_idle (hx : Idle x) (hA : ∀ c, c ∉ A) (hE : ∀ c, c ∉ E) : CutAt A E Q x s := by
  rw [Set.eq_empty_iff_forall_notMem.mpr hA, Set.eq_empty_iff_forall_notMem.mpr hE]
  refine imp (whole fun a t hok => ⟨0, Nat.zero_le _, ?_, fun s' hs' => ?_⟩) fun _ => False.elim
  · obtain ⟨g, hg⟩ := hx
    obtain ⟨-, rfl⟩ := Outcome.ok.inj ((hg s).symm.trans hok)
    rfl
  · obtain ⟨g, hg⟩ := hx
    obtain ⟨rfl, rfl⟩ := Outcome.ok.inj ((hg s).symm.trans hok)
    refine ⟨fun hlt => absurd hlt (Nat.not_lt_zero _), fun _ => Or.inl ?_⟩
    rw [hg, hs'.decoder]
    rfl

theorem fail (e : GoError) : CutAt A E Q (Call.fail e : Dec α) s := by
  intro a t hok
  cases hok

/-- The rule of sequencing, where nothing can be filled up that is followed by the rest. -/
theorem bind {A₁ E₁ : Set Content} {Q₁ : α → Prop} {A E : Set Content} {Q : β → Prop} (hx : CutAt A₁ E₁ Q₁ x s)
    (hneeds : ∀ a t, Q₁ a → t.left = 0 → Fails (f a) t) (hf : ∀ a t, x s = .ok a t → CutAt (A \ A₁) E Q (f a) t) :
    CutAt A E Q (x >>= f) s := by
  intro b u hok
  obtain ⟨a, t, hxs, hfa⟩ := bind_eq_ok.mp hok
  obtain ⟨j, l, hfirst⟩ := hx a t hxs
  obtain ⟨k, m, hrest⟩ := hf a t hxs b u hfa
  have hleft := hfirst.left_eq
  have hj := hfirst.le
  have hk := hrest.le
  have hm := hrest.last_le
  have hwhole : ∀ c ∈ E₁, ¬c.Short := by
    intro c hc hshort
    obtain ⟨e, w, herr⟩ := hneeds a t (hfirst.filled_up ⟨c, hc, hshort⟩) (hfirst.left_eq_zero hc hshort)
    rw [herr] at hfa
    cases hfa
  -- Without what the first call takes nothing succeeds; with it, the rest begins as it did.
  have hcut : ∀ s', Agrees (j + k) s s' → s'.left < j → Fails (x >>= f) s' := by
    intro s' hs' hlt
    have hs := hs'.mono (Nat.le_add_right j k)
    by_cases hle : s'.left ≤ j - l
    · exact (hfirst.missing s' hs hlt hle).bind f
    · obtain ⟨a', t', hok', hzero, hq⟩ := hfirst.filled s' hs (not_le.mp hle) hlt
      exact .of_ok hok' (hneeds a' t' hq hzero)
  have hnext : ∀ s', Agrees (j + k) s s' → j ≤ s'.left →
      x s' = .ok a ⟨t.decoder, (s'.skip j).r⟩ ∨ s'.left = j ∧ j < s.left ∧ Fails x s' :=
    fun s' hs' hle => hfirst.same hwhole s' (hs'.mono (Nat.le_add_right j k)) hle
  have hafter : ∀ s' : Decoding, (⟨t.decoder, (s'.skip j).r⟩ : Decoding).left = s'.left - j := fun s' => s'.left_skip j
  refine ⟨j + k, m, ?_⟩
  exact
    { le := by omega
      reader := by
        rw [hrest.reader, Decoding.skip, hfirst.reader, ← Decoding.skip_skip]
        rfl
      last_le := by omega
      single := hrest.single
      last := hrest.last
      exists_last := hrest.exists_last
      short := fun c hc hshort => by
        by_cases hc₁ : c ∈ A₁
        · exact absurd hshort (hwhole c (hfirst.short c hc₁ hshort))
        · exact hrest.short c ⟨hc, hc₁⟩ hshort
      filled_up := hrest.filled_up
      missing := fun s' hs' hlt hle => by
        by_cases hlt' : s'.left < j
        · exact hcut s' hs' hlt'
        · rcases hnext s' hs' (not_lt.mp hlt') with hsame | ⟨-, -, hfails⟩
          · refine .of_ok hsame (hrest.missing _ (hs'.after hfirst.reader) ?_ ?_)
            · rw [hafter]
              omega
            · rw [hafter]
              omega
          · exact hfails.bind f
      filled := fun s' hs' hlt hlt' => by
        rcases hnext s' hs' (by omega) with hsame | ⟨heq, -, -⟩
        · obtain ⟨b', u', hok', hzero, hq⟩ :=
            hrest.filled _ (hs'.after hfirst.reader) (by rw [hafter]; omega) (by rw [hafter]; omega)
          exact ⟨b', u', (bind_of_ok hsame).trans hok', hzero, hq⟩
        · omega
      same := fun hE s' hs' hle => by
        rcases hnext s' hs' (by omega) with hsame | ⟨heq, hlt, hfails⟩
        · rcases hrest.same hE _ (hs'.after hfirst.reader) (by rw [hafter]; omega) with hsame' | ⟨heq', hlt', hfails'⟩
          · left
            rw [bind_of_ok hsame, hsame', ← Decoding.skip_skip]
            rfl
          · rw [hafter] at heq'
            exact Or.inr ⟨by omega, by omega, .of_ok hsame hfails'⟩
        · exact Or.inr ⟨by omega, by omega, hfails.bind f⟩
      more := fun hE s' hs' hlt b' u' hok' => by
        rcases hnext s' hs' (by omega) with hsame | ⟨heq, -, -⟩
        · rw [bind_of_ok hsame] at hok'
          have hmore := hrest.more hE _ (hs'.after hfirst.reader) (by rw [hafter]; omega) b' u' hok'
          rw [hafter] at hmore
          omega
        · omega }

/-- After a call that meets no content anything may follow. -/
theorem bind_whole {A E : Set Content} {Q : β → Prop} (hx : Whole ∅ x s)
    (hf : ∀ a t, x s = .ok a t → CutAt A E Q (f a) t) : CutAt A E Q (x >>= f) s := by
  refine bind hx (fun _ _ hfalse => hfalse.elim) fun a t hok => ?_
  rw [Set.sdiff_empty]
  exact hf a t hok

/-- The rule of sequencing, where the rest reads nothing. -/
theorem bind_idle_of {Q : β → Prop} (hx : CutAt A E Q' x s) (hf : ∀ {s a t}, x s = .ok a t → Idle (f a))
    (hQ : ∀ a t b u, Q' a → f a t = .ok b u → Q b) : CutAt A E Q (x >>= f) s := by
  intro b u hok
  obtain ⟨a, t, hxs, hfa⟩ := bind_eq_ok.mp hok
  obtain ⟨k, m, hrun⟩ := hx a t hxs
  obtain ⟨g, hg⟩ := hf hxs
  obtain ⟨rfl, rfl⟩ := Outcome.ok.inj ((hg t).symm.trans hfa)
  refine ⟨k, m, ?_⟩
  exact
    { le := hrun.le
      reader := hrun.reader
      last_le := hrun.last_le
      single := hrun.single
      last := hrun.last
      exists_last := hrun.exists_last
      short := hrun.short
      filled_up := fun hE => hQ a t _ _ (hrun.filled_up hE) (hg t)
      missing := fun s' hs' hlt hle => (hrun.missing s' hs' hlt hle).bind f
      filled := fun s' hs' hlt hlt' => by
        obtain ⟨a', t', hok', hzero, hq⟩ := hrun.filled s' hs' hlt hlt'
        obtain ⟨g', hg'⟩ := hf hok'
        exact ⟨_, _, (bind_of_ok hok').trans (hg' t'), hzero, hQ a' t' _ _ hq (hg' t')⟩
      same := fun hE s' hs' hle => by
        rcases hrun.same hE s' hs' hle with hsame | ⟨heq, hlt, hfails⟩
        · exact Or.inl ((bind_of_ok hsame).trans (hg _))
        · exact Or.inr ⟨heq, hlt, hfails.bind f⟩
      more := fun hE s' hs' hlt b' u' hok' => by
        obtain ⟨a', t', hok₁, hok₂⟩ := bind_eq_ok.mp hok'
        obtain ⟨g', hg'⟩ := hf hok₁
        obtain ⟨-, rfl⟩ := Outcome.ok.inj ((hg' t').symm.trans hok₂)
        exact hrun.more hE s' hs' hlt a' t' hok₁ }

theorem bind_idle {Q : β → Prop} (hx : CutAt A E Q' x s) (hf : ∀ a, Idle (f a))
    (hQ : ∀ a t b u, Q' a → f a t = .ok b u → Q b) : CutAt A E Q (x >>= f) s :=
  hx.bind_idle_of (fun _ => hf _) hQ

/-- A call of which only the result is turned into another. -/
theorem map {γ : Type} (hx : CutAt A E Q x s) (g : α → γ) : CutAt A E (fun _ => True) (x >>= fun a => Pure.pure (g a)) s :=
  hx.bind_idle (fun a => .pure (g a)) fun _ _ _ _ _ _ => trivial

theorem ite {c : Prop} [Decidable c] (hx : c → CutAt A E Q x s) (hy : ¬c → CutAt A E Q y s) :
    CutAt A E Q (if c then x else y) s := by
  by_cases hc : c
  · rw [if_pos hc]
    exact hx hc
  · rw [if_neg hc]
    exact hy hc

/-- A call that succeeds as another does, and fails wherever that one fails. -/
theorem of_imp (hy : CutAt A E Q y s) (hok : ∀ s a t, x s = .ok a t ↔ y s = .ok a t) (hfails : ∀ s, Fails y s → Fails x s) :
    CutAt A E Q x s := by
  intro a t hxs
  obtain ⟨k, m, hrun⟩ := hy a t ((hok s a t).mp hxs)
  refine ⟨k, m, ?_⟩
  exact
    { hrun with
      missing := fun s' hs' hlt hle => hfails s' (hrun.missing s' hs' hlt hle)
      filled := fun s' hs' hlt hlt' => by
        obtain ⟨a', t', hok', hzero, hq⟩ := hrun.filled s' hs' hlt hlt'
        exact ⟨a', t', (hok s' a' t').mpr hok', hzero, hq⟩
      same := fun hE s' hs' hle => by
        rcases hrun.same hE s' hs' hle with hsame | ⟨heq, hlt, hfails'⟩
        · exact Or.inl ((hok s' a _).mpr hsame)
        · exact Or.inr ⟨heq, hlt, hfails s' hfails'⟩
      more := fun hE s' hs' hlt a' t' hok' => hrun.more hE s' hs' hlt a' t' ((hok s' a' t').mp hok') }

theorem mapErr (hx : CutAt A E Q x s) (h : GoError → GoError) : CutAt A E Q (mapErr h x) s :=
  hx.of_imp (fun _ _ _ => mapErr_eq_ok) fun _ hfails => hfails.mapErr h

/-- The calls of `x`, one after the other: what the last one ends with, they end with. -/
theorem times {n : Nat} {A E : Set Content} (A' E' : Decoding → Set Content) (hneeds : ∀ t, t.left = 0 → Fails x t)
    (hx : ∀ k < n, ∀ as t, Call.times x k s = .ok as t → CutAt (A' t) (E' t) Q x t)
    (hA : ∀ c ∈ A, ∃ k < n, ∃ as t, Call.times x k s = .ok as t ∧ c ∈ A' t)
    (hE : ∀ c, c ∈ E ↔ ∃ k as t, n = k + 1 ∧ Call.times x k s = .ok as t ∧ c ∈ E' t) :
    CutAt A E (fun as => as.length = n) (Call.times x n) s := by
  induction n generalizing s A with
  | zero =>
      refine of_idle (.pure []) (fun c hc => ?_) fun c hc => ?_
      · obtain ⟨k, hk, -⟩ := hA c hc
        exact Nat.not_lt_zero k hk
      · obtain ⟨k, -, -, hk, -⟩ := (hE c).mp hc
        exact absurd hk (Nat.succ_ne_zero k).symm
  | succ n ih =>
      have hfirst := hx 0 (Nat.succ_pos n) [] s rfl
      -- What comes after the first call, counted from there.
      have hshift : ∀ {a t}, x s = .ok a t → ∀ k as u, Call.times x k t = .ok as u →
          Call.times x (k + 1) s = .ok (a :: as) u := by
        intro a t ha k as u has
        rw [Call.times, bind_of_ok ha, bind_of_ok has]
        rfl
      have hpeel : ∀ {a t}, x s = .ok a t → ∀ k as u, Call.times x (k + 1) s = .ok as u →
          ∃ as', Call.times x k t = .ok as' u := by
        intro a t ha k as u has
        rw [Call.times, bind_of_ok ha] at has
        obtain ⟨as', u', has', hpure⟩ := bind_eq_ok.mp has
        cases hpure
        exact ⟨as', has'⟩
      have hA₁ : ∀ {a t}, x s = .ok a t → ∀ c ∈ A \ A' s, ∃ k < n, ∃ as u, Call.times x k t = .ok as u ∧ c ∈ A' u := by
        rintro a t ha c ⟨hc, hc'⟩
        obtain ⟨k, hk, as, u, has, hcu⟩ := hA c hc
        cases k with
        | zero =>
            cases has
            exact absurd hcu hc'
        | succ k =>
            obtain ⟨as', has'⟩ := hpeel ha k as u has
            exact ⟨k, by omega, as', u, has', hcu⟩
      cases n with
      | zero =>
          have hmono : A ⊆ A' s := by
            intro c hc
            obtain ⟨k, hk, as, t, has, hct⟩ := hA c hc
            obtain rfl : k = 0 := by omega
            cases has
            exact hct
          have heq : E = E' s := by
            ext c
            rw [hE]
            constructor
            · rintro ⟨k, as, t, hk, has, hct⟩
              obtain rfl : k = 0 := by omega
              cases has
              exact hct
            · exact fun hc => ⟨0, [], s, rfl, rfl, hc⟩
          rw [heq]
          refine (hfirst.mono hmono).bind_idle (fun a => .bind (.pure []) fun as => .pure _) ?_
          rintro a t b u - hb
          cases hb
          rfl
      | succ n =>
          refine (hfirst.imp fun _ _ => trivial).bind (fun a t _ hzero => ?_) fun a t ha => ?_
          · exact ((hneeds t hzero).bind _).bind _
          · refine (ih (s := t) (A := A \ A' s) (fun k hk as u has => ?_) (hA₁ ha) fun c => ?_).bind_idle
              (fun as => .pure _) ?_
            · exact hx (k + 1) (by omega) (a :: as) u (hshift ha k as u has)
            · rw [hE]
              constructor
              · rintro ⟨k, as, u, hk, has, hcu⟩
                obtain rfl : k = n + 1 := by omega
                obtain ⟨as', has'⟩ := hpeel ha n as u has
                exact ⟨n, as', u, rfl, has', hcu⟩
              · rintro ⟨k, as, u, hk, has, hcu⟩
                obtain rfl : k = n := by omega
                exact ⟨k + 1, a :: as, u, rfl, hshift ha k as u has, hcu⟩
            · intro as t b u hlength hb
              cases hb
              exact congrArg (· + 1) hlength

/-- A loop that takes bytes turn by turn and is left with no content: what ends a turn that goes round again is followed by
a turn that needs bytes. -/
theorem loop {body : β → Dec (β ⊕ α)} (A' E' : β → Decoding → Set Content) (hμ : Decreases body fun _ => left)
    (hneeds : ∀ b t, t.left = 0 → Fails (body b) t) {A : Set Content} {b : β} {s : Decoding}
    (hbody : ∀ b' t, Visits body b s b' t → CutAt (A' b' t) (E' b' t) (fun r => ∃ b, r = .inl b) (body b') t)
    (hA : ∀ c ∈ A, ∃ b' t, Visits body b s b' t ∧ c ∈ A' b' t) :
    Whole A (get >>= fun s => Call.loop body (left s + 1) b) s := by
  have hloop : ∀ b t, t.left = 0 → Fails (get >>= fun s => Call.loop body (left s + 1) b) t := by
    intro b t hzero
    rw [get_loop_eq hμ]
    exact (hneeds b t hzero).bind _
  induction hn : s.left using Nat.strongRecOn generalizing A b s with
  | ind n ih =>
      rw [get_loop_eq hμ]
      refine (hbody b s (.here b s)).bind ?_ fun r t hturn => ?_
      · rintro _ t ⟨b', rfl⟩ hzero
        exact hloop b' t hzero
      · cases r with
        | inl b' =>
            refine ih t.left (hn ▸ hμ b s b' t hturn) (fun c u hvisit => hbody c u (.next hturn hvisit)) ?_ rfl
            rintro c ⟨hc, hc'⟩
            obtain ⟨b'', u, hvisit, hcu⟩ := hA c hc
            cases hvisit with
            | here => exact absurd hcu hc'
            | next turn rest =>
                obtain ⟨hinl, rfl⟩ := Outcome.ok.inj (hturn.symm.trans turn)
                cases hinl
                exact ⟨b'', u, rest, hcu⟩
        | inr a =>
            refine of_idle (.pure a) ?_ fun c hc => hc
            rintro c ⟨hc, hc'⟩
            obtain ⟨b'', u, hvisit, hcu⟩ := hA c hc
            cases hvisit with
            | here => exact hc' hcu
            | next turn rest =>
                obtain ⟨hinr, -⟩ := Outcome.ok.inj (hturn.symm.trans turn)
                cases hinr

end CutAt

/-! ### The reads -/

variable {s : Decoding}

theorem whole_readUint (n : Nat) : Whole ∅ (readUint n) s := by
  refine CutAt.whole fun a t hok => ?_
  by_cases hle : n ≤ s.left
  · obtain ⟨rfl, rfl⟩ := Outcome.ok.inj ((readUint_of_le hle).symm.trans hok)
    refine ⟨n, hle, rfl, fun s' hs' => ⟨fun hlt => ⟨_, _, readUint_of_lt hlt⟩, fun hle' => Or.inl ?_⟩⟩
    rw [readUint_of_le hle', Decoding.unread, hs'.take_eq hle' hle, Decoding.skip, hs'.decoder]
    rfl
  · rw [readUint_of_lt (not_le.mp hle)] at hok
    cases hok

theorem read_of_nil {n : Nat} (hnil : s.r.unread = []) (hfails : s.r.kind = .bytesReader ∨ n ≠ 0) :
    read n s = .err .eof s := if_pos ⟨hnil, hfails⟩

theorem read_of_not_nil {n : Nat} (hread : ¬(s.r.unread = [] ∧ (s.r.kind = .bytesReader ∨ n ≠ 0))) :
    read n s = .ok (s.r.unread.take n) (s.skip n) := if_neg hread

theorem whole_readBytes (n : Nat) : Whole ∅ (readBytes n) s := by
  refine CutAt.whole fun a t hok => ?_
  rw [readBytes_eq] at hok
  split_ifs at hok with hnil hle
  obtain ⟨rfl, rfl⟩ := Outcome.ok.inj hok
  refine ⟨n, hle, rfl, fun s' hs' => ⟨fails_readBytes, fun hle' => ?_⟩⟩
  by_cases hnil' : s'.r.unread = [] ∧ (s'.r.kind = .bytesReader ∨ n ≠ 0)
  · have hzero : s'.left = 0 := List.length_eq_zero_iff.mpr hnil'.1
    have hne : s.r.unread ≠ [] := fun hs => hnil ⟨hs, hs'.kind ▸ hnil'.2⟩
    have hpos : 0 < s.left := List.length_pos_iff.mpr hne
    right
    rw [Fails, readBytes_eq, if_pos hnil']
    exact ⟨by omega, by omega, _, _, rfl⟩
  · left
    rw [readBytes_eq, if_neg hnil', if_pos hle', hs'.take_eq hle' hle, Decoding.skip, hs'.decoder]
    rfl

theorem whole_readByte : Whole ∅ readByte s :=
  (whole_readBytes 1).bind_whole fun _ _ _ => .of_idle (.pure _) (fun _ => id) fun _ => id

theorem whole_readFloat64 : Whole ∅ readFloat64 s :=
  (whole_readUint 8).bind_whole fun _ _ _ => .of_idle (.pure _) (fun _ => id) fun _ => id

/-- A reference that resolves does so wherever the tables are the same. -/
theorem whole_index {γ : Type} (table : Decoder → List γ) (i : Nat) : Whole ∅ (index table i) s := by
  have hindex : ∀ (s' : Decoding) (a : γ), (table s'.decoder)[i]? = some a → index table i s' = .ok a s' := by
    intro s' a h
    rw [index, h]
  refine CutAt.whole fun a t hok => ?_
  obtain ⟨b, hb⟩ : ∃ b, (table s.decoder)[i]? = some b := by
    cases hb : (table s.decoder)[i]? with
    | some b => exact ⟨b, rfl⟩
    | none => simp [index, hb] at hok
  obtain ⟨rfl, rfl⟩ := Outcome.ok.inj ((hindex s b hb).symm.trans hok)
  refine ⟨0, Nat.zero_le _, rfl, fun s' hs' => ⟨fun hlt => absurd hlt (Nat.not_lt_zero _), fun _ => Or.inl ?_⟩⟩
  rw [hindex s' b (by rw [hs'.decoder, hb])]
  rw [Decoding.skip, List.drop_zero, ← hs'.decoder]

/-- Content that may be short. -/
theorem cut_fill (kept : Bool) (n : Nat) : CutAt {⟨kept, n, s⟩} {⟨kept, n, s⟩} (· ≠ []) (fill n) s := by
  have hfill : ∀ s' : Decoding, ¬(s'.r.unread = [] ∧ (s'.r.kind = .bytesReader ∨ n ≠ 0)) →
      fill n s' = .ok (s'.r.unread.take n ++ List.replicate (n - (s'.r.unread.take n).length) 0) (s'.skip n) :=
    fun s' hread => bind_of_ok (read_of_not_nil hread)
  have hne : ∀ s' : Decoding, 0 < n →
      s'.r.unread.take n ++ List.replicate (n - (s'.r.unread.take n).length) 0 ≠ [] := by
    intro s' hpos hnil
    obtain ⟨htake, hreplicate⟩ := List.append_eq_nil_iff.mp hnil
    rw [htake] at hreplicate
    exact hpos.ne' (by simpa using hreplicate)
  intro a t hok
  have hread : ¬(s.r.unread = [] ∧ (s.r.kind = .bytesReader ∨ n ≠ 0)) := by
    rintro ⟨hnil, hfails⟩
    rw [fill, bind_of_err (read_of_nil hnil hfails)] at hok
    cases hok
  obtain ⟨rfl, rfl⟩ := Outcome.ok.inj ((hfill s hread).symm.trans hok)
  have hpos : n ≠ 0 → 0 < s.left := fun hn =>
    List.length_pos_iff.mpr fun hnil => hread ⟨hnil, Or.inr hn⟩
  have hskip : (s.skip (min n s.left)).r = (s.skip n).r := by
    have hdrop : s.r.unread.drop (min n s.left) = s.r.unread.drop n := by
      rcases Nat.le_total n s.left with hle | hle
      · rw [Nat.min_eq_left hle]
      · have hall : s.r.unread.length ≤ s.left := Nat.le_refl _
        rw [Nat.min_eq_right hle, List.drop_eq_nil_of_le hall, List.drop_eq_nil_of_le hle]
    rw [Decoding.skip, Decoding.skip, hdrop]
  refine ⟨min n s.left, min n s.left, ?_⟩
  exact
    { le := Nat.min_le_right _ _
      reader := hskip.symm
      last_le := Nat.le_refl _
      single := by
        rintro c rfl c' rfl
        rfl
      last := by
        rintro c rfl hn
        have hleft := hpos (Nat.ne_of_gt hn)
        rw [Decoding.left_skip]
        refine ⟨?_, ?_, rfl⟩ <;> dsimp only at * <;> omega
      exists_last := fun hm => ⟨_, rfl, by dsimp only; omega⟩
      short := fun c hc _ => hc
      filled_up := by
        rintro ⟨c, rfl, hshort⟩
        unfold Content.Short at hshort
        exact hne s (by dsimp only at hshort; omega)
      missing := fun s' hs' hlt hle => by
        have hnil : s'.r.unread = [] := List.length_eq_zero_iff.mp (by change s'.left = 0; omega)
        exact ⟨_, _, bind_of_err (read_of_nil hnil (Or.inr (by omega)))⟩
      filled := fun s' hs' hlt hlt' => by
        refine ⟨_, _, hfill s' ?_, ?_, hne s' (by omega)⟩
        · rintro ⟨hnil, -⟩
          have hzero : s'.left = 0 := List.length_eq_zero_iff.mpr hnil
          omega
        · rw [Decoding.left_skip]
          omega
      same := fun hE s' hs' hle => by
        have hwhole : n ≤ s.left := not_lt.mp (hE _ rfl)
        rw [Nat.min_eq_left hwhole] at hle hs' ⊢
        by_cases hend : s'.r.unread = [] ∧ (s'.r.kind = .bytesReader ∨ n ≠ 0)
        · have hzero : s'.left = 0 := List.length_eq_zero_iff.mpr hend.1
          obtain rfl : n = 0 := by omega
          have hkind : s.r.kind = .bytesReader := hs'.kind ▸ hend.2.resolve_right fun h => h rfl
          have hsome : 0 < s.left := List.length_pos_iff.mpr fun hnil => hread ⟨hnil, Or.inl hkind⟩
          exact Or.inr ⟨hzero, hsome, _, _, bind_of_err (read_of_nil hend.1 hend.2)⟩
        · left
          rw [hfill s' hend, hs'.take_eq hle hwhole, Decoding.skip, hs'.decoder]
          rfl
      more := by
        rintro ⟨c, rfl, hshort⟩ s' hs' hlt a' t' hok'
        unfold Content.Short at hshort
        dsimp only at hshort
        have hend : ¬(s'.r.unread = [] ∧ (s'.r.kind = .bytesReader ∨ n ≠ 0)) := by
          rintro ⟨hnil, -⟩
          have hzero : s'.left = 0 := List.length_eq_zero_iff.mpr hnil
          omega
        obtain ⟨-, rfl⟩ := Outcome.ok.inj ((hfill s' hend).symm.trans hok')
        rw [Decoding.left_skip]
        omega }

end Amf

end Livego
