import Livego.RtmpChunkRoundTrip

/-! The memory behind the pool: its backing arrays and the slices of them that it hands out. Every slice is in bounds,
and no two slices have a byte in common, however many there are and however often a new array has been made. -/

namespace Livego

/-- `b` in the place of as many elements of `l`, from position `o` on. -/
def splice {α : Type} (l : List α) (o : Nat) (b : List α) : List α := l.take o ++ b ++ l.drop (o + b.length)

theorem length_splice {α : Type} {l b : List α} {o : Nat} (h : o + b.length ≤ l.length) :
    (splice l o b).length = l.length := by
  simp only [splice, List.length_append, List.length_take, List.length_drop]
  omega

theorem getElem?_splice {α : Type} {l b : List α} {o : Nat} (h : o + b.length ≤ l.length) (i : Nat) :
    (splice l o b)[i]? = if i < o then l[i]? else if i < o + b.length then b[i - o]? else l[i]? := by
  have htake : (l.take o).length = o := by
    rw [List.length_take]
    omega
  have hfirst : (l.take o ++ b).length = o + b.length := by rw [List.length_append, htake]
  unfold splice
  split_ifs with h1 h2
  · rw [List.getElem?_append_left (by omega), List.getElem?_append_left (by omega), List.getElem?_take_of_lt h1]
  · rw [List.getElem?_append_left (by omega), List.getElem?_append_right (by omega), htake]
  · rw [List.getElem?_append_right (by omega), hfirst, List.getElem?_drop]
    congr 1
    omega

/-- The backing arrays of a pool, by their numbers. -/
abbrev Buffers : Type := Nat → Bytes

namespace Buffers

/-- `b` is written into an array from `off` on. -/
def write (bufs : Buffers) (buf off : Nat) (b : Bytes) : Buffers := Function.update bufs buf (splice (bufs buf) off b)

end Buffers

namespace Slice

/-- A slice can be extended to the end of its array. -/
def cap (s : Slice) : Nat := maxpoolsize - s.off

/-- What is in a slice. -/
def bytes (s : Slice) (bufs : Buffers) : Bytes := ((bufs s.buf).drop s.off).take s.len

/-- No byte of one slice is a byte of the other. -/
def Apart (s t : Slice) : Prop := s.buf ≠ t.buf ∨ s.off + s.len ≤ t.off ∨ t.off + t.len ≤ s.off

theorem Apart.symm {s t : Slice} (h : s.Apart t) : t.Apart s :=
  h.imp Ne.symm Or.symm

theorem length_bytes {s : Slice} {bufs : Buffers} (h : s.off + s.len ≤ (bufs s.buf).length) :
    (s.bytes bufs).length = s.len := by
  rw [bytes, List.length_take, List.length_drop]
  omega

theorem getElem?_bytes (s : Slice) (bufs : Buffers) (i : Nat) :
    (s.bytes bufs)[i]? = if i < s.len then (bufs s.buf)[s.off + i]? else none := by
  unfold bytes
  split_ifs with h
  · rw [List.getElem?_take_of_lt h, List.getElem?_drop]
  · exact List.getElem?_eq_none (by rw [List.length_take]; omega)

/-- Writing into a slice leaves what is apart from it. -/
theorem bytes_write_apart {s t : Slice} {bufs : Buffers} {o : Nat} {b : Bytes} (hst : s.Apart t)
    (hb : o + b.length ≤ s.len) (hs : s.off + s.len ≤ (bufs s.buf).length) :
    t.bytes (bufs.write s.buf (s.off + o) b) = t.bytes bufs := by
  by_cases hbuf : t.buf = s.buf
  · have hfit : s.off + o + b.length ≤ (bufs s.buf).length := by omega
    apply List.ext_getElem?
    intro i
    rw [getElem?_bytes, getElem?_bytes, Buffers.write, hbuf, Function.update_self, getElem?_splice hfit]
    rcases hst with hne | hlt | hlt
    · exact absurd hbuf.symm hne
    · split_ifs <;> first | rfl | omega
    · split_ifs <;> first | rfl | omega
  · rw [bytes, bytes, Buffers.write, Function.update_of_ne hbuf]

/-- What is written into a slice is then in it. -/
theorem bytes_write_self {s : Slice} {bufs : Buffers} {o : Nat} {b : Bytes} (hb : o + b.length ≤ s.len)
    (hs : s.off + s.len ≤ (bufs s.buf).length) :
    s.bytes (bufs.write s.buf (s.off + o) b) = splice (s.bytes bufs) o b := by
  have hfit : s.off + o + b.length ≤ (bufs s.buf).length := by omega
  have hlen := length_bytes hs
  apply List.ext_getElem?
  intro i
  rw [getElem?_splice (by omega), getElem?_bytes, getElem?_bytes, Buffers.write, Function.update_self,
    getElem?_splice hfit]
  split_ifs
  all_goals
    first
      | rfl
      | omega
      | (congr 1; omega)

end Slice

namespace Pool

/-- The slice has been handed out: it is in an array that has been made, and in the part of it that is used up. -/
def Issued (pool : Pool) (s : Slice) : Prop :=
  s.off + s.len ≤ maxpoolsize ∧ (s.buf < pool.buf ∨ s.buf = pool.buf ∧ s.off + s.len ≤ pool.pos)

/-- A slice comes from behind what has been handed out of the array in use, or from the start of a new array. -/
theorem get_cases {pool pool' : Pool} {size : Nat} {s : Slice} (h : pool.get size = some (s, pool')) :
    size ≤ maxpoolsize ∧
      (pool.pos + size ≤ maxpoolsize ∧ s = ⟨pool.buf, pool.pos, size⟩ ∧ pool' = ⟨pool.buf, pool.pos + size⟩ ∨
        s = ⟨pool.buf + 1, 0, size⟩ ∧ pool' = ⟨pool.buf + 1, size⟩) := by
  unfold Pool.get at h
  by_cases hfull : maxpoolsize < pool.pos + size
  · simp only [if_pos hfull, Nat.zero_add, Option.ite_none_left_eq_some, not_lt, Option.some.injEq, Prod.mk.injEq] at h
    obtain ⟨hsize, rfl, rfl⟩ := h
    exact ⟨hsize, Or.inr ⟨rfl, rfl⟩⟩
  · simp only [if_neg hfull, Option.some.injEq, Prod.mk.injEq] at h
    obtain ⟨rfl, rfl⟩ := h
    exact ⟨by omega, Or.inl ⟨not_lt.mp hfull, rfl, rfl⟩⟩

/-- `Get` hands out as many bytes as it is asked for, none of which it has handed out before. -/
theorem get_issued {pool pool' : Pool} {size : Nat} {s : Slice} (h : pool.get size = some (s, pool')) :
    s.len = size ∧ pool'.Issued s ∧ ∀ t, pool.Issued t → pool'.Issued t ∧ s.Apart t := by
  obtain ⟨hsize, ⟨hroom, rfl, rfl⟩ | ⟨rfl, rfl⟩⟩ := get_cases h
  · refine ⟨rfl, ⟨hroom, Or.inr ⟨rfl, le_refl _⟩⟩, ?_⟩
    rintro t ⟨hin, hbuf⟩
    refine ⟨⟨hin, hbuf.imp id fun h => ⟨h.1, by dsimp only; omega⟩⟩, ?_⟩
    rcases hbuf with hlt | ⟨-, hle⟩
    · exact Or.inl hlt.ne'
    · exact Or.inr (Or.inr hle)
  · refine ⟨rfl, ⟨by dsimp only; omega, Or.inr ⟨rfl, by dsimp only; omega⟩⟩, ?_⟩
    rintro t ⟨hin, hbuf⟩
    refine ⟨⟨hin, Or.inl (by dsimp only; omega)⟩, Or.inl ?_⟩
    show pool.buf + 1 ≠ t.buf
    omega

/-- `Get` for one size after the other. -/
def gets : List Nat → Pool → Option (List Slice × Pool)
  | [], pool => some ([], pool)
  | size :: sizes, pool => do
    let (s, pool) ← pool.get size
    let (slices, pool) ← gets sizes pool
    pure (s :: slices, pool)

/-- The slices of any number of calls of `Get` are as long as asked for, in bounds, and apart from each other and from
all that was handed out before. -/
theorem gets_spec {sizes : List Nat} (pool : Pool) (hsizes : ∀ n ∈ sizes, n ≤ maxpoolsize) :
    ∃ slices pool', gets sizes pool = some (slices, pool') ∧ slices.map Slice.len = sizes ∧
      slices.Pairwise Slice.Apart ∧ (∀ s ∈ slices, s.off + s.len ≤ maxpoolsize) ∧
        ∀ t, pool.Issued t → ∀ s ∈ slices, s.Apart t := by
  induction sizes generalizing pool with
  | nil => exact ⟨[], pool, rfl, rfl, List.Pairwise.nil, by simp, by simp⟩
  | cons size sizes ih =>
      obtain ⟨s, pool', hget, -⟩ := ChunkStream.Pool.get_of_le (hsizes size List.mem_cons_self) pool
      obtain ⟨hlen, hissued, hbefore⟩ := get_issued hget
      obtain ⟨slices, pool'', hgets, hlens, hapart, hin, hrest⟩ :=
        ih pool' fun n hn => hsizes n (List.mem_cons_of_mem size hn)
      refine ⟨s :: slices, pool'', ?_, ?_, ?_, ?_, ?_⟩
      · rw [gets, hget]
        simp only [Option.bind_eq_bind, Option.bind_some, hgets]
        rfl
      · rw [List.map_cons, hlen, hlens]
      · exact List.pairwise_cons.mpr ⟨fun t ht => (hrest s hissued t ht).symm, hapart⟩
      · intro t ht
        rcases List.mem_cons.mp ht with rfl | ht
        · exact hissued.1
        · exact hin t ht
      · intro t ht u hu
        rcases List.mem_cons.mp hu with rfl | hu
        · exact (hbefore t ht).2
        · exact hrest t (hbefore t ht).1 u hu

end Pool

/-- The memory once `Get` has made `pool'` of `pool`: an array that it makes is full of zeros. -/
def Buffers.made (bufs : Buffers) (pool pool' : Pool) : Buffers :=
  if pool'.buf = pool.buf then bufs else Function.update bufs pool'.buf (List.replicate maxpoolsize 0)

namespace Pool

/-- The memory is as the pool has left it: its arrays are as large as it makes them, and of the one in use there are
zeros where nothing has been handed out. -/
structure Backed (pool : Pool) (bufs : Buffers) : Prop where
  arrays : ∀ buf ≤ pool.buf, (bufs buf).length = maxpoolsize
  clear : Slice.bytes ⟨pool.buf, pool.pos, maxpoolsize - pool.pos⟩ bufs = List.replicate (maxpoolsize - pool.pos) 0

theorem Backed.in_bounds {pool : Pool} {bufs : Buffers} (h : pool.Backed bufs) {s : Slice} (hs : pool.Issued s) :
    s.off + s.len ≤ (bufs s.buf).length := by
  rw [h.arrays s.buf (by rcases hs.2 with hlt | ⟨heq, -⟩ <;> omega)]
  exact hs.1

/-- A new slice is full of zeros, and what is in the others stays. -/
theorem Backed.get {pool pool' : Pool} {bufs : Buffers} {size : Nat} {s : Slice} (h : pool.Backed bufs)
    (hget : pool.get size = some (s, pool')) :
    pool'.Backed (bufs.made pool pool') ∧ s.bytes (bufs.made pool pool') = List.replicate size 0 ∧
      ∀ t, pool.Issued t → t.bytes (bufs.made pool pool') = t.bytes bufs := by
  obtain ⟨hsize, ⟨hroom, rfl, rfl⟩ | ⟨rfl, rfl⟩⟩ := get_cases hget
  · have hsame : bufs.made pool ⟨pool.buf, pool.pos + size⟩ = bufs := if_pos rfl
    rw [hsame]
    have hclear := h.clear
    unfold Slice.bytes at hclear ⊢
    dsimp only at hclear ⊢
    refine ⟨⟨h.arrays, ?_⟩, ?_, fun _ _ => rfl⟩
    · have hdrop := congrArg (List.drop size) hclear
      rwa [List.drop_take, List.drop_drop, List.drop_replicate, Nat.sub_sub] at hdrop
    · have htake := congrArg (List.take size) hclear
      rwa [List.take_take, List.take_replicate, min_eq_left (by omega)] at htake
  · have hmade : bufs.made pool ⟨pool.buf + 1, size⟩ =
        Function.update bufs (pool.buf + 1) (List.replicate maxpoolsize 0) := if_neg (by dsimp only; omega)
    rw [hmade]
    refine ⟨⟨?_, ?_⟩, ?_, ?_⟩
    · intro buf hbuf
      by_cases hnew : buf = pool.buf + 1
      · rw [hnew, Function.update_self, List.length_replicate]
      · rw [Function.update_of_ne hnew]
        exact h.arrays buf (by dsimp only at hbuf; omega)
    · simp only [Slice.bytes, Function.update_self, List.drop_replicate, List.take_replicate, min_self]
    · simp only [Slice.bytes, Function.update_self, List.drop_zero, List.take_replicate, min_eq_left hsize]
    · rintro t ⟨-, hbuf⟩
      have hne : t.buf ≠ pool.buf + 1 := by omega
      rw [Slice.bytes, Slice.bytes, Function.update_of_ne hne]

/-- Writing into a slice that has been handed out leaves the rest of the memory to the pool. -/
theorem Backed.write {pool : Pool} {bufs : Buffers} (h : pool.Backed bufs) {s : Slice} (hs : pool.Issued s) {o : Nat}
    {b : Bytes} (hb : o + b.length ≤ s.len) : pool.Backed (bufs.write s.buf (s.off + o) b) := by
  have hin := h.in_bounds hs
  constructor
  · intro buf hbuf
    by_cases hsame : buf = s.buf
    · rw [hsame, Buffers.write, Function.update_self, length_splice (by omega)]
      exact h.arrays s.buf (hsame ▸ hbuf)
    · rw [Buffers.write, Function.update_of_ne hsame]
      exact h.arrays buf hbuf
  · rw [Slice.bytes_write_apart ?_ hb hin]
    · exact h.clear
    · rcases hs.2 with hlt | ⟨-, hle⟩
      · exact Or.inl hlt.ne
      · exact Or.inr (Or.inl hle)

end Pool

end Livego
