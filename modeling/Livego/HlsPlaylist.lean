import Livego.AmfReader
import Livego.HlsSource
import Livego.SyncMap
import Mathlib.Data.List.DropRight

/-! The playlist of an hls source: the keys of its last segments in a list, and the segments in a map under their keys. -/

namespace Livego

namespace Hls

def maxTSCacheNum : Nat := 3

def errNoKey : GoError := .named "No key for cache"

structure TSCacheItem where
  id : Bytes
  num : Nat
  ll : List Bytes
  lm : Finmap fun _ : Bytes => TSItem
  deriving DecidableEq

/-- What `%.3f` prints for milliseconds over 1000. Up to 2^52 ms the quotient of the two `float64` values rounds to
these digits. -/
def seconds (ms : Int) : String :=
  let sign := if ms < 0 then "-" else ""
  let n := ms.natAbs
  s!"{sign}{n / 1000}.{n / 100 % 10}{n / 10 % 10}{n % 10}"

def m3u8Header (maxDuration : Int) (seq : Nat) : Bytes :=
  let target := maxDuration.tdiv 1000 + 1
  lit s!"#EXTM3U\n#EXT-X-VERSION:3\n#EXT-X-ALLOW-CACHE:NO\n#EXT-X-TARGETDURATION:{target}\n#EXT-X-MEDIA-SEQUENCE:{seq}\n\n"

def m3u8Entry (v : TSItem) : Bytes :=
  let length := seconds v.duration
  lit s!"#EXTINF:{length},\n" ++ lit v.name ++ lit "\n"

/-- The variables of the loop in `GenM3U8PlayList`. -/
structure Listing where
  seq : Nat := 0
  getSeq : Bool := false
  maxDuration : Int := 0
  m3u8body : Bytes := []

def Listing.add (l : Listing) (v : TSItem) : Listing where
  maxDuration := if v.duration > l.maxDuration then v.duration else l.maxDuration
  seq := if l.getSeq then l.seq else v.seqNum
  getSeq := true
  m3u8body := l.m3u8body ++ m3u8Entry v

namespace TSCacheItem

def newTSCacheItem (id : Bytes) : TSCacheItem := { id, num := maxTSCacheNum, ll := [], lm := ∅ }

def genM3U8PlayList (c : TSCacheItem) : Bytes :=
  let l := c.ll.foldl (fun l key =>
    match c.lm.lookup key with
    | some v => l.add v
    | none => l) ({} : Listing)
  m3u8Header l.maxDuration l.seq ++ l.m3u8body

/-- The front of the list goes, and what the map has under its key. -/
def evict (c : TSCacheItem) : TSCacheItem :=
  match c.ll with
  | [] => c
  | k :: ll => { c with ll, lm := c.lm.erase k }

def setItem (key : Bytes) (item : TSItem) (c : TSCacheItem) : TSCacheItem :=
  let c := if c.ll.length = c.num then c.evict else c
  { c with lm := c.lm.insert key item, ll := c.ll ++ [key] }

def getItem (key : Bytes) (c : TSCacheItem) : Except GoError TSItem :=
  match c.lm.lookup key with
  | some item => .ok item
  | none => .error errNoKey

def setItems (calls : List (Bytes × TSItem)) (c : TSCacheItem) : TSCacheItem :=
  calls.foldl (fun c x => c.setItem x.1 x.2) c

end TSCacheItem

/-- The playlist of these segments, the target duration from the longest and the number from the first. -/
def playlistOf (items : List TSItem) : Bytes :=
  m3u8Header ((items.map TSItem.duration).foldl max 0) ((items.head?.map TSItem.seqNum).getD 0) ++
    items.flatMap m3u8Entry

/-- The calls whose items the cache holds. -/
def recent (calls : List (Bytes × TSItem)) : List (Bytes × TSItem) := calls.rtake maxTSCacheNum

/-- Those of them that stay when another item is set. -/
def kept (calls : List (Bytes × TSItem)) : List (Bytes × TSItem) := calls.rtake (maxTSCacheNum - 1)

/-- After these calls the playlist is that of the last three segments, or of all when there are fewer, and every name
that it lists leads to its segment. -/
structure Shows (calls : List (Bytes × TSItem)) (c : TSCacheItem) : Prop where
  nodup : c.ll.Nodup
  agree : ∀ k, k ∈ c.lm ↔ k ∈ c.ll
  atMost : c.ll.length ≤ maxTSCacheNum
  playlist : c.genM3U8PlayList = playlistOf ((recent calls).map Prod.snd)
  retrievable : ∀ x ∈ recent calls, c.getItem (lit x.2.name) = .ok x.2

/-- No call has the key of one of the two calls before it. -/
def Spaced (calls : List (Bytes × TSItem)) : Prop :=
  ∀ before x, before ++ [x] <+: calls → x.1 ∉ (kept before).map Prod.fst

theorem recent_concat (before : List (Bytes × TSItem)) (x : Bytes × TSItem) :
    recent (before ++ [x]) = kept before ++ [x] := List.rtake_concat_succ before (maxTSCacheNum - 1) x

theorem kept_eq (calls : List (Bytes × TSItem)) :
    kept calls = if (recent calls).length = maxTSCacheNum then (recent calls).tail else recent calls := by
  unfold kept recent List.rtake maxTSCacheNum
  rw [List.length_drop, List.tail_drop]
  split <;> congr 1 <;> omega

theorem spaced_concat {before : List (Bytes × TSItem)} {x : Bytes × TSItem} :
    Spaced (before ++ [x]) ↔ Spaced before ∧ x.1 ∉ (kept before).map Prod.fst := by
  constructor
  · intro h
    exact ⟨fun b y hb => h b y (hb.trans (List.prefix_append _ _)), h before x (List.prefix_refl _)⟩
  · intro ⟨h, hx⟩ b y hb
    rcases List.prefix_concat_iff.mp hb with heq | hb
    · obtain ⟨rfl, hy⟩ := List.append_inj' heq rfl
      cases hy
      exact hx
    · exact h b y hb

theorem length_recent_le (calls : List (Bytes × TSItem)) : (recent calls).length ≤ maxTSCacheNum := by
  unfold recent List.rtake
  rw [List.length_drop]
  omega

namespace Listing

theorem foldl_add (items : List TSItem) (l : Listing) :
    items.foldl add l = { maxDuration := (items.map TSItem.duration).foldl max l.maxDuration
                          seq := if l.getSeq then l.seq else (items.head?.map TSItem.seqNum).getD l.seq
                          getSeq := l.getSeq || !items.isEmpty
                          m3u8body := l.m3u8body ++ items.flatMap m3u8Entry } := by
  induction items generalizing l with
  | nil => cases l; simp
  | cons v items ih =>
      have hmax : (if v.duration > l.maxDuration then v.duration else l.maxDuration) = max l.maxDuration v.duration := by
        split <;> omega
      rw [List.foldl_cons, ih, add, hmax]
      simp

end Listing

namespace TSCacheItem

variable {calls before : List (Bytes × TSItem)} {c : TSCacheItem} {x : Bytes × TSItem}

theorem genM3U8PlayList_eq (c : TSCacheItem) : c.genM3U8PlayList = playlistOf (c.ll.filterMap c.lm.lookup) := by
  have hloop : c.ll.foldl (fun l key =>
      match c.lm.lookup key with
      | some v => l.add v
      | none => l) ({} : Listing) = (c.ll.filterMap c.lm.lookup).foldl Listing.add {} := by
    rw [List.foldl_filterMap]
    congr 1
    funext l key
    cases c.lm.lookup key <;> rfl
  rw [genM3U8PlayList, hloop, Listing.foldl_add]
  simp [playlistOf]

theorem setItems_concat (before : List (Bytes × TSItem)) (x : Bytes × TSItem) (c : TSCacheItem) :
    c.setItems (before ++ [x]) = (c.setItems before).setItem x.1 x.2 := by
  simp [setItems]

@[simp] theorem evict_ll (c : TSCacheItem) : c.evict.ll = c.ll.tail := by
  unfold evict
  split
  · next h => rw [h, List.tail_nil]
  · next h => rw [h, List.tail_cons]

@[simp] theorem evict_num (c : TSCacheItem) : c.evict.num = c.num := by
  unfold evict
  split <;> rfl

/-- What is kept of the cache when an item is set. -/
def room (c : TSCacheItem) : TSCacheItem := if c.ll.length = c.num then c.evict else c

theorem setItem_eq (key : Bytes) (item : TSItem) (c : TSCacheItem) :
    c.setItem key item = { c.room with lm := c.room.lm.insert key item, ll := c.room.ll ++ [key] } := rfl

/-- The list has the keys of the last three calls. -/
structure Lists (calls : List (Bytes × TSItem)) (c : TSCacheItem) : Prop where
  num : c.num = maxTSCacheNum
  ll : c.ll = (recent calls).map Prod.fst

theorem Lists.room_ll (h : Lists before c) : c.room.ll = (kept before).map Prod.fst := by
  rw [kept_eq]
  unfold room
  rw [h.num, h.ll, List.length_map]
  split
  · rw [evict_ll, h.ll, List.map_tail]
  · exact h.ll

theorem Lists.setItem (h : Lists before c) (x : Bytes × TSItem) : Lists (before ++ [x]) (c.setItem x.1 x.2) := by
  refine ⟨?_, ?_⟩
  · have hroom : c.room.num = c.num := by
      unfold room
      split
      · exact evict_num c
      · rfl
    exact hroom.trans h.num
  · calc
      (c.setItem x.1 x.2).ll = c.room.ll ++ [x.1] := rfl
      _ = (kept before ++ [x]).map Prod.fst := by rw [h.room_ll, List.map_append]; rfl
      _ = (recent (before ++ [x])).map Prod.fst := by rw [recent_concat]

theorem lists_setItems (id : Bytes) (calls : List (Bytes × TSItem)) :
    Lists calls ((newTSCacheItem id).setItems calls) := by
  induction calls using List.reverseRecOn with
  | nil => exact ⟨rfl, rfl⟩
  | append_singleton before x ih =>
      rw [setItems_concat]
      exact ih.setItem x

/-- The map has the last three calls, which have different keys. -/
structure Maps (calls : List (Bytes × TSItem)) (c : TSCacheItem) : Prop where
  nodup : ((recent calls).map Prod.fst).Nodup
  lm : ∀ k item, c.lm.lookup k = some item ↔ (k, item) ∈ recent calls

theorem Maps.room_lm (h : Maps before c) (hl : Lists before c) (k : Bytes) (item : TSItem) :
    c.room.lm.lookup k = some item ↔ (k, item) ∈ kept before := by
  rw [kept_eq]
  unfold room
  rw [hl.num, hl.ll, List.length_map]
  split
  · next hfull =>
      have hll := hl.ll
      have hnodup := h.nodup
      have hlm := h.lm k item
      cases hrecent : recent before with
      | nil =>
          rw [hrecent] at hfull
          cases hfull
      | cons y rest =>
          rw [hrecent, List.map_cons] at hll hnodup
          rw [hrecent, List.mem_cons] at hlm
          have hy := (List.nodup_cons.mp hnodup).1
          have hevict : c.evict.lm = c.lm.erase y.1 := by
            unfold evict
            rw [hll]
          rw [hevict, SyncMap.lookup_erase_eq, List.tail_cons]
          split_ifs with hk
          · refine ⟨fun hnone => (nomatch hnone), fun hmem => ?_⟩
            exact absurd (hk ▸ List.mem_map_of_mem hmem) hy
          · rw [hlm]
            exact ⟨fun hmem => hmem.resolve_left fun heq => hk (heq ▸ rfl), Or.inr⟩
  · exact h.lm k item

theorem Maps.setItem (h : Maps before c) (hl : Lists before c) (hx : x.1 ∉ (kept before).map Prod.fst) :
    Maps (before ++ [x]) (c.setItem x.1 x.2) := by
  have hnodup : ((kept before).map Prod.fst).Nodup := by
    rw [kept_eq]
    split
    · exact List.map_tail ▸ h.nodup.tail
    · exact h.nodup
  refine ⟨?_, fun k item => ?_⟩
  · rw [recent_concat, List.map_append]
    exact List.nodup_append.mpr ⟨hnodup, List.nodup_singleton _,
      fun a ha b hb hab => hx (List.mem_singleton.mp hb ▸ hab ▸ ha)⟩
  · rw [recent_concat, setItem_eq, SyncMap.lookup_insert_eq, List.mem_append, List.mem_singleton]
    split_ifs with hk
    · subst hk
      have hfree : (x.1, item) ∉ kept before := fun hmem => hx (List.mem_map.mpr ⟨_, hmem, rfl⟩)
      simp only [hfree, false_or, Option.some.injEq, Prod.ext_iff, true_and]
      exact eq_comm
    · rw [h.room_lm hl]
      exact ⟨Or.inl, fun hmem => hmem.resolve_right fun heq => hk (heq ▸ rfl)⟩

theorem Maps.shows (h : Maps calls c) (hl : Lists calls c) (hname : ∀ x ∈ calls, x.1 = lit x.2.name) : Shows calls c := by
  have hlookup : ∀ x ∈ recent calls, c.lm.lookup x.1 = some x.2 := fun x hx => (h.lm x.1 x.2).mpr hx
  refine ⟨hl.ll ▸ h.nodup, fun k => ?_, ?_, ?_, fun x hx => ?_⟩
  · rw [Finmap.mem_iff, hl.ll, List.mem_map]
    constructor
    · intro ⟨item, hitem⟩
      exact ⟨(k, item), (h.lm k item).mp hitem, rfl⟩
    · intro ⟨x, hx, hk⟩
      exact ⟨x.2, hk ▸ hlookup x hx⟩
  · rw [hl.ll, List.length_map]
    exact length_recent_le calls
  · rw [genM3U8PlayList_eq, hl.ll, List.filterMap_map]
    congr 1
    rw [← List.filterMap_eq_map]
    exact List.filterMap_congr hlookup
  · have hmem : x ∈ calls := List.mem_of_mem_drop hx
    rw [← hname x hmem, getItem, hlookup x hx]

theorem maps_setItems (id : Bytes) (h : Spaced calls) : Maps calls ((newTSCacheItem id).setItems calls) := by
  induction calls using List.reverseRecOn with
  | nil => exact ⟨List.nodup_nil, fun k item => by simp [newTSCacheItem, setItems, recent]⟩
  | append_singleton before x ih =>
      obtain ⟨hbefore, hx⟩ := spaced_concat.mp h
      rw [setItems_concat]
      exact (ih hbefore).setItem (lists_setItems id before) hx

/-- As `cut` makes the calls, with the name of the item as the key: the playlist is right throughout a run if and only
if the keys of any three calls in a row are different. -/
theorem shows_iff_spaced (id : Bytes) (calls : List (Bytes × TSItem)) (hname : ∀ x ∈ calls, x.1 = lit x.2.name) :
    (∀ before, before <+: calls → Shows before ((newTSCacheItem id).setItems before)) ↔ Spaced calls := by
  constructor
  · intro h before x hstart hx
    have hnodup := (h _ hstart).nodup
    rw [(lists_setItems id (before ++ [x])).ll, recent_concat, List.map_append] at hnodup
    exact (List.nodup_append.mp hnodup).2.2 x.1 hx x.1 List.mem_cons_self rfl
  · intro h before hstart
    have hspaced : Spaced before := fun before' x hx => h before' x (hx.trans hstart)
    exact (maps_setItems id hspaced).shows (lists_setItems id before) fun x hx => hname x (hstart.subset hx)

/-- A segment of three seconds. -/
def segment (name : String) (seqNum : Nat) : Bytes × TSItem :=
  (lit name, { name, seqNum, duration := 3000, data := [] })

def fourSegments : List (Bytes × TSItem) :=
  [segment "/a/b/3.ts" 1, segment "/a/b/6.ts" 2, segment "/a/b/9.ts" 3, segment "/a/b/12.ts" 4]

theorem shows_fourSegments : Shows fourSegments ((newTSCacheItem []).setItems fourSegments) := by
  refine (shows_iff_spaced [] fourSegments (by decide)).mpr ?_ fourSegments (List.prefix_refl _)
  have hnone : Spaced [] := fun b y hb => by simp at hb
  have hone : Spaced [segment "/a/b/3.ts" 1] := (@spaced_concat [] _).mpr ⟨hnone, by decide⟩
  have htwo := (@spaced_concat [_] (segment "/a/b/6.ts" 2)).mpr ⟨hone, by decide⟩
  have hthree := (@spaced_concat [_, _] (segment "/a/b/9.ts" 3)).mpr ⟨htwo, by decide⟩
  exact (@spaced_concat [_, _, _] (segment "/a/b/12.ts" 4)).mpr ⟨hthree, by decide⟩

/-- The first two segments are cut within one second. -/
def hurriedSegments : List (Bytes × TSItem) :=
  [segment "/a/b/3.ts" 1, segment "/a/b/3.ts" 2, segment "/a/b/6.ts" 3, segment "/a/b/9.ts" 4]

/-- When the first of them leaves the list, the second leaves the map. -/
theorem second_segment_lost : ∃ c, c = (newTSCacheItem []).setItems hurriedSegments ∧
    (∀ x ∈ hurriedSegments, x.1 = lit x.2.name) ∧ ¬Shows hurriedSegments c ∧ c.ll.length = 3 ∧ c.lm.keys.card = 2 ∧
    c.getItem (lit "/a/b/3.ts") = .error errNoKey ∧
    c.genM3U8PlayList = playlistOf ((hurriedSegments.drop 2).map Prod.snd) := by
  refine ⟨_, rfl, by decide, fun h => ?_, by decide +kernel, by decide +kernel, by decide +kernel, by decide +kernel⟩
  have hfound := h.retrievable (segment "/a/b/3.ts" 2) (by decide +kernel)
  exact absurd hfound (by decide +kernel)

end TSCacheItem

namespace Source

/-- What `SetItem` was called with. -/
def setCalls (source : Source) : List (Bytes × TSItem) := source.setItems.map fun item => (lit item.name, item)

def tsCache (source : Source) : TSCacheItem :=
  (TSCacheItem.newTSCacheItem (lit source.key)).setItems source.setCalls

theorem shows_tsCache {source : Source} (h : Spaced source.setCalls) : Shows source.setCalls source.tsCache := by
  refine (TSCacheItem.maps_setItems _ h).shows (TSCacheItem.lists_setItems _ _) fun x hx => ?_
  obtain ⟨item, -, rfl⟩ := List.mem_map.mp hx
  rfl

end Source

end Hls

end Livego
