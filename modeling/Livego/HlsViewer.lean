import Livego.HlsPlaylistReader
import Livego.HlsTurns
import Livego.HlsUrls
import Livego.Machine

/-! Watching by hls. While packets come out of the queue of a source, a player reads its playlist and asks for the
segments listed there, as it likes and can. What it has found is a part of the segments in their order, and without gaps
as long as it keeps up. -/

namespace Livego

open Fallible Machine

namespace Hls

open ConnServer (slash)

/-- A key of an application and a name, which a URL spells as it is. -/
structure Spelled (key : Bytes) : Prop where
  head : key.head? ≠ some slash
  parts : key.count slash = 1
  extension : ¬lit ".m3u8" <:+: key
  plain : ∀ c ∈ key, Url.isPlain c = true

/-- The player's state: the number of the segment from which on it asks, what it is about to ask for, with numbers, and
what it has got. -/
structure Viewer where
  next : Nat := 0
  pending : List (Bytes × Nat) := []
  found : List (Nat × Bytes) := []

namespace Viewer

/-- The playlist has come. -/
def shown (res : Response) (v : Viewer) : Viewer :=
  match MediaPlaylist.read res.body with
  | some m => { v with pending := ((m.segments.map Prod.snd).zipIdx m.mediaSequence).filter fun x => v.next ≤ x.2 }
  | none => v

@[simp] theorem shown_next (res : Response) (v : Viewer) : (v.shown res).next = v.next := by
  unfold shown
  split <;> rfl

@[simp] theorem shown_found (res : Response) (v : Viewer) : (v.shown res).found = v.found := by
  unfold shown
  split <;> rfl

/-- The answer for segment `n` has come. -/
def received (n : Nat) (res : Response) (v : Viewer) : Viewer where
  next := n + 1
  pending := v.pending.tail
  found := if res.status = 200 then v.found ++ [(n, res.body)] else v.found

end Viewer

structure Viewing where
  source : Source
  viewer : Viewer := {}

namespace Viewing

inductive Event where
  | arrives (now : Int) (p : AvPacket)
  | reloads
  | asks

section Steps

variable (server : Server) (caches : Nat → TSCacheItem) (conn : Nat)

/-- What a server answers that has the source as its `conn`. -/
def get (uri : Bytes) (s : Viewing) : Option Response :=
  (Url.parse uri).bind fun url => (server.handle (Function.update caches conn s.source.tsCache) url.path).toOption

def step (s : Viewing) : Event → Option Viewing
  | .arrives now p =>
    match Source.sendTurn now p s.source with
    | .ok () source => some { s with source }
    | _ => none
  | .reloads =>
    (get server caches conn (playlistPath (lit s.source.key)) s).map fun res => { s with viewer := s.viewer.shown res }
  | .asks =>
    match s.viewer.pending with
    | [] => none
    | (uri, n) :: _ => (get server caches conn uri s).map fun res => { s with viewer := s.viewer.received n res }

end Steps

/-- After its first segment a player asks no later than when there are two after the one that it needs next. -/
def KeepsUp (s : Viewing) : Event → Prop
  | .asks => s.viewer.next = 0 ∨ s.source.setItems.length < s.viewer.next + 3
  | _ => True

def start (key : String) : Viewing where
  source := { key }

end Viewing

/-! ### What the source keeps -/

theorem lit_name (key : String) (now : Int) : lit s!"/{key}/{now}.ts" = filename (lit key) now := by
  have hslash : lit "/" = [slash] := rfl
  simp [toString, lit_append, filename, hslash]

/-- The segments are numbered from one, and named after their key. -/
structure Cutting (key : String) (source : Source) : Prop where
  named : source.key = key
  seq : source.seq = source.setItems.length
  numbered : source.setItems.map (·.seqNum) = List.range' 1 source.setItems.length
  items : ∀ item ∈ source.setItems, duration ≤ item.duration ∧ ∃ now, lit item.name = filename (lit key) now

variable {key : String} {source source' : Source}

theorem Turns.grows {now : Int} (h : Turns now source source') : source.setItems <+: source'.setItems := by
  cases h with
  | fills h =>
      rw [h.setItems]
  | begins hfront _ h =>
      rw [h.setItems]
      exact hfront.setItems ▸ List.prefix_refl _
  | cuts hfront _ _ h =>
      rw [h.setItems, ← hfront.setItems]
      exact List.prefix_append _ _

namespace Cutting

theorem fills (h : Cutting key source) (h' : Fills source source') : Cutting key source' := by
  refine ⟨h'.key.trans h.named, ?_, ?_, ?_⟩
  · rw [h'.seq, h'.setItems, h.seq]
  · rw [h'.setItems, h.numbered]
  · rw [h'.setItems]
    exact h.items

theorem setItem (h : Cutting key source) (hlong : duration ≤ source.stat.durationMs) (now : Int) :
    Cutting key (Source.writeTables (Source.setItem now source)) := by
  obtain ⟨item, hitems, hnum, hduration, hname⟩ : ∃ item,
      (Source.writeTables (Source.setItem now source)).setItems = source.setItems ++ [item] ∧
        item.seqNum = source.setItems.length + 1 ∧ item.duration = source.stat.durationMs ∧
        lit item.name = filename (lit key) now :=
    ⟨_, rfl, congrArg (· + 1) h.seq, rfl, h.named ▸ lit_name source.key now⟩
  refine ⟨h.named, ?_, ?_, ?_⟩
  · rw [hitems, List.length_append]
    exact congrArg (· + 1) h.seq
  · rw [hitems, List.map_append, h.numbered, List.length_append, List.length_singleton, List.range'_1_concat,
      List.map_singleton, hnum, Nat.add_comm]
  · rw [hitems]
    refine List.forall_mem_append.mpr ⟨h.items, List.forall_mem_singleton.mpr ⟨?_, now, hname⟩⟩
    rw [hduration]
    exact hlong

theorem turns {now : Int} (h : Cutting key source) (h' : Turns now source source') : Cutting key source' := by
  cases h' with
  | fills h' => exact h.fills h'
  | @begins middle hfront _ h' =>
      have hmiddle := h.fills hfront
      have hbegun : Cutting key (Source.writeTables { middle with btswriter := some [] }) :=
        ⟨hmiddle.named, hmiddle.seq, hmiddle.numbered, hmiddle.items⟩
      exact hbegun.fills h'
  | cuts hfront _ hlong h' => exact ((h.fills hfront).setItem hlong _).fills h'

end Cutting

/-! ### What the server answers -/

theorem plain_decimal (n : Nat) : ∀ c ∈ Strings.decimal n, Url.isPlain c = true :=
  fun c hc => Url.isPlain_of_isDigit (Strings.isDigit_decimal n c hc)

theorem plain_toString (now : Int) : ∀ c ∈ lit (toString now), Url.isPlain c = true := by
  cases now with
  | ofNat n =>
      rw [show toString (Int.ofNat n) = n.repr from rfl, lit_repr]
      exact plain_decimal n
  | negSucc n =>
      rw [show toString (Int.negSucc n) = "-" ++ (n + 1).repr from rfl, lit_append, lit_repr]
      exact List.forall_mem_append.mpr ⟨by decide +kernel, plain_decimal (n + 1)⟩

namespace Spelled

variable {k : Bytes}

theorem ne_nil (h : Spelled k) : k ≠ [] := by
  rintro rfl
  exact absurd h.parts (by decide)

/-- What is under the key on the server is asked for by its path. -/
theorem parse (h : Spelled k) {s : Bytes} (hs : ∀ c ∈ s, Url.isPlain c = true) :
    ∃ u, Url.parse (slash :: (k ++ s)) = some u ∧ u.path = slash :: (k ++ s) := by
  cases k with
  | nil => exact absurd rfl h.ne_nil
  | cons c k =>
      have hplain : ∀ d ∈ c :: k ++ s, Url.isPlain d = true := List.forall_mem_append.mpr ⟨h.plain, hs⟩
      exact Url.parse_plain (fun hc => h.head (congrArg some hc)) hplain

theorem parse_playlistPath (h : Spelled k) : ∃ u, Url.parse (playlistPath k) = some u ∧ u.path = playlistPath k :=
  h.parse (by decide +kernel)

theorem parse_filename (h : Spelled k) (now : Int) :
    ∃ u, Url.parse (filename k now) = some u ∧ u.path = filename k now := by
  refine h.parse (List.forall_mem_cons.mpr ⟨by decide, ?_⟩)
  exact List.forall_mem_append.mpr ⟨plain_toString now, by decide +kernel⟩

end Spelled

namespace Server

variable {server : Server} {caches : Nat → TSCacheItem} {conn : Nat} {k : Bytes} {tsCache : TSCacheItem}

theorem handle_playlistPath (hkey : Spelled k) (hconn : server.getConn k = some conn)
    (hcache : server.getCacheInc caches conn = some tsCache) :
    server.handle caches (playlistPath k) = .ok (.m3u8 tsCache.genM3U8PlayList) := by
  have hparse : parseM3u8 (playlistPath k) = .ok k := (parseM3u8_iff hkey.ne_nil hkey.head).mpr hkey.extension
  have hbase : Strings.base (playlistPath k) ≠ lit "crossdomain.xml" :=
    base_ne_crossdomain (c := Url.chr '8') (List.getLast?_append.trans rfl) (by decide) (by decide)
  have hext : Strings.ext (playlistPath k) = lit ".m3u8" := ext_playlist (slash :: k)
  rw [handle, if_neg hbase, if_pos hext, handleM3u8, hparse]
  simp only [bind, Except.bind, hconn, hcache]

theorem handle_filename (hkey : Spelled k) (hconn : server.getConn k = some conn)
    (hcache : server.getCacheInc caches conn = some tsCache) (now : Int) :
    server.handle caches (filename k now) =
      .ok (match tsCache.getItem (filename k now) with
        | .ok item => .ts item
        | .error err => .error err 400) := by
  have hparse : parseTs (filename k now) = (k, none) := (parseTs_iff hkey.ne_nil hkey.head now).mpr hkey.parts
  have hbase : Strings.base (filename k now) ≠ lit "crossdomain.xml" := by
    rw [filename_eq]
    exact base_ne_crossdomain (c := Url.chr 's') (List.getLast?_append.trans rfl) (by decide) (by decide)
  have hext := ext_filename k now
  rw [handle, if_neg hbase, if_neg (by rw [hext]; decide), if_pos hext]
  simp only [handleTs, hparse, hconn, hcache]
  cases tsCache.getItem (filename k now) <;> rfl

end Server

/-! ### What the cache has -/

theorem lit_injective : Function.Injective lit := by
  intro a b h
  exact String.toByteArray_inj.mp (ByteArray.ext (Array.toList_inj.mp h))

theorem spaced_of_nodup {calls : List (Bytes × TSItem)} (h : (calls.map Prod.fst).Nodup) : Spaced calls := by
  intro before x hfront hx
  have hnodup := h.sublist (hfront.map Prod.fst).sublist
  rw [List.map_append, List.nodup_append] at hnodup
  obtain ⟨y, hy, hfst⟩ := List.mem_map.mp hx
  exact hnodup.2.2 y.1 (List.mem_map_of_mem (List.mem_of_mem_drop hy)) x.1 List.mem_cons_self hfst

/-- The segments that are listed. -/
def window (items : List TSItem) : List TSItem := items.drop (items.length - maxTSCacheNum)

namespace Source

variable {k : Nat} {item : TSItem}

theorem recent_setCalls (source : Source) :
    recent source.setCalls = (window source.setItems).map fun item => (lit item.name, item) := by
  rw [recent, List.rtake, setCalls, List.length_map, window, List.map_drop]

theorem nodup_setCalls (hnames : (source.setItems.map TSItem.name).Nodup) : (source.setCalls.map Prod.fst).Nodup := by
  have hmap : source.setCalls.map Prod.fst = (source.setItems.map TSItem.name).map lit := by
    simp only [setCalls, List.map_map, Function.comp_def]
  rw [hmap]
  exact hnames.map lit_injective

theorem genM3U8PlayList_tsCache (hspaced : Spaced source.setCalls) :
    source.tsCache.genM3U8PlayList = playlistOf (window source.setItems) := by
  rw [(shows_tsCache hspaced).playlist, recent_setCalls, List.map_map]
  exact congrArg playlistOf (List.map_id _)

/-- Under its name is the segment, as long as there are not three later ones. -/
theorem getItem_tsCache (hnames : (source.setItems.map TSItem.name).Nodup) (hk : source.setItems[k]? = some item) :
    source.tsCache.getItem (lit item.name) =
      if source.setItems.length ≤ k + maxTSCacheNum then .ok item else .error errNoKey := by
  have hmaps := TSCacheItem.maps_setItems (lit source.key) (spaced_of_nodup (nodup_setCalls hnames))
  have hitem : item ∈ source.setItems := List.mem_of_getElem? hk
  have hwindow : item ∈ window source.setItems ↔ source.setItems.length ≤ k + maxTSCacheNum := by
    constructor
    · intro hmem
      obtain ⟨j, hj⟩ := List.mem_iff_getElem?.mp hmem
      rw [window, List.getElem?_drop] at hj
      have hlt := (List.getElem?_eq_some_iff.mp hk).1
      have hsame := (List.getElem?_inj hlt (List.Nodup.of_map _ hnames)).mp (hk.trans hj.symm)
      omega
    · intro hle
      refine List.mem_iff_getElem?.mpr ⟨k - (source.setItems.length - maxTSCacheNum), ?_⟩
      rw [window, List.getElem?_drop, ← hk]
      congr 1
      omega
  have hlookup : ∀ item', source.tsCache.lm.lookup (lit item.name) = some item' ↔
      item' = item ∧ item ∈ window source.setItems := by
    intro item'
    rw [tsCache, hmaps.lm, recent_setCalls, List.mem_map]
    constructor
    · rintro ⟨i, hi, heq⟩
      obtain ⟨hname, rfl⟩ := Prod.mk.inj heq
      have hsame := List.inj_on_of_nodup_map hnames (List.mem_of_mem_drop hi) hitem (lit_injective hname)
      exact ⟨hsame, hsame ▸ hi⟩
    · rintro ⟨rfl, hmem⟩
      exact ⟨item', hmem, rfl⟩
  rw [TSCacheItem.getItem]
  split_ifs with hle
  · rw [(hlookup item).mpr ⟨rfl, hwindow.mpr hle⟩]
  · have hnone : source.tsCache.lm.lookup (lit item.name) = none := by
      rw [Option.eq_none_iff_forall_ne_some]
      intro item' hitem'
      exact hle (hwindow.mp ((hlookup item').mp hitem').2)
    rw [hnone]

end Source

/-! ### What the player finds -/

def ask (item : TSItem) : Bytes × Nat := (lit item.name, item.seqNum)

def answer (item : TSItem) : Nat × Bytes := (item.seqNum, item.data)

namespace Viewing

section Get

variable {server : Server} {caches : Nat → TSCacheItem} {conn : Nat} {s : Viewing}

theorem getCacheInc_update (hopen : server.sources[conn]?.any Handle.tsCache = true) (tsCache : TSCacheItem) :
    server.getCacheInc (Function.update caches conn tsCache) conn = some tsCache := by
  rw [Server.getCacheInc, if_pos hopen, Function.update_self]

theorem get_playlistPath (hkey : Spelled (lit key)) (hconn : server.getConn (lit key) = some conn)
    (hopen : server.sources[conn]?.any Handle.tsCache = true) (hspaced : Spaced s.source.setCalls) :
    get server caches conn (playlistPath (lit key)) s = some (.m3u8 (playlistOf (window s.source.setItems))) := by
  obtain ⟨u, hu, hpath⟩ := hkey.parse_playlistPath
  rw [get, hu, Option.bind_some, hpath, Server.handle_playlistPath hkey hconn (getCacheInc_update hopen _),
    Source.genM3U8PlayList_tsCache hspaced]
  rfl

theorem get_name (hkey : Spelled (lit key)) (hconn : server.getConn (lit key) = some conn)
    (hopen : server.sources[conn]?.any Handle.tsCache = true) (hcutting : Cutting key s.source)
    (hnames : (s.source.setItems.map TSItem.name).Nodup) {k : Nat} {item : TSItem}
    (hk : s.source.setItems[k]? = some item) :
    get server caches conn (lit item.name) s =
      some (if s.source.setItems.length ≤ k + maxTSCacheNum then .ts item else .error errNoKey 400) := by
  obtain ⟨-, now, hname⟩ := hcutting.items item (List.mem_of_getElem? hk)
  obtain ⟨u, hu, hpath⟩ := hkey.parse_filename now
  have hitem := Source.getItem_tsCache hnames hk
  rw [hname] at hitem ⊢
  rw [get, hu, Option.bind_some, hpath, Server.handle_filename hkey hconn (getCacheInc_update hopen _), hitem]
  split_ifs
  · rfl
  · rfl

end Get

end Viewing

theorem readable_of_filename {item : TSItem} {key : String} {now : Int} (hkey : Spelled (lit key))
    (hduration : duration ≤ item.duration) (hname : lit item.name = filename (lit key) now) : Readable item := by
  have hrooted : (filename (lit key) now).head? = some (Url.chr '/') := rfl
  refine ⟨le_trans (by decide) hduration, hname ▸ hrooted, ?_⟩
  intro hmem
  have hplain : ∀ c ∈ filename (lit key) now, Url.isPlain c = true := by
    refine List.forall_mem_cons.mpr ⟨by decide, List.forall_mem_append.mpr ⟨hkey.plain, ?_⟩⟩
    refine List.forall_mem_cons.mpr ⟨by decide, List.forall_mem_append.mpr ⟨plain_toString now, by decide +kernel⟩⟩
  exact absurd (hplain _ (hname ▸ hmem)) (by decide)

/-- Numbers that go up by one from `a`, and those from `n` on. -/
theorem filter_numbered {items : List TSItem} {a : Nat} (h : items.map (·.seqNum) = List.range' a items.length) (n : Nat) :
    (items.map ask).filter (fun x => n ≤ x.2) = (items.drop (n - a)).map ask := by
  induction items generalizing a with
  | nil => simp
  | cons item items ih =>
      rw [List.map_cons, List.length_cons, List.range'_succ, List.cons.injEq] at h
      obtain ⟨hnum, htail⟩ := h
      have hask : (ask item).2 = a := hnum
      have hrest := ih htail
      rcases Nat.lt_or_ge a n with hlt | hge
      · rw [List.map_cons, List.filter_cons_of_neg (by rw [hask]; simpa using hlt), hrest,
          show n - a = n - (a + 1) + 1 by omega, List.drop_succ_cons]
      · rw [List.map_cons, List.filter_cons_of_pos (by rw [hask]; simpa using hge), hrest,
          show n - a = 0 by omega, show n - (a + 1) = 0 by omega, List.drop_zero, List.drop_zero, List.map_cons]

theorem zipIdx_numbered {items : List TSItem} {a : Nat} (h : items.map (·.seqNum) = List.range' a items.length) :
    (items.map fun item => lit item.name).zipIdx a = items.map ask := by
  induction items generalizing a with
  | nil => rfl
  | cons item items ih =>
      rw [List.map_cons, List.length_cons, List.range'_succ, List.cons.injEq] at h
      rw [List.map_cons, List.zipIdx_cons, ih h.2, List.map_cons, ask, h.1]

/-- A player among the segments that there are: what it is to ask for is part of some window, and what it has found is
before that. -/
structure Views (items : List TSItem) (v : Viewer) : Prop where
  next_le : v.next ≤ items.length + 1
  pending : ∃ m ≤ items.length, v.pending = ((items.take m).drop (max (v.next - 1) (m - maxTSCacheNum))).map ask
  found : v.found.Sublist ((items.take (v.next - 1)).map answer)

/-- It has found everything from some segment on. -/
def Gapless (items : List TSItem) (v : Viewer) : Prop :=
  ∃ a ≤ v.next - 1, v.found = ((items.take (v.next - 1)).drop a).map answer

variable {items items' : List TSItem} {v : Viewer}

theorem Views.grow (h : Views items v) (hle : items <+: items') : Views items' v := by
  obtain ⟨more, rfl⟩ := hle
  obtain ⟨m, hm, hpending⟩ := h.pending
  have hnext := h.next_le
  refine ⟨?_, ⟨m, ?_, ?_⟩, ?_⟩
  · rw [List.length_append]
    omega
  · rw [List.length_append]
    omega
  · rw [List.take_append_of_le_length hm, hpending]
  · rw [List.take_append_of_le_length (by omega)]
    exact h.found

theorem Gapless.grow (h : Gapless items v) (hnext : v.next ≤ items.length + 1) (hle : items <+: items') :
    Gapless items' v := by
  obtain ⟨more, rfl⟩ := hle
  obtain ⟨a, ha, hfound⟩ := h
  refine ⟨a, ha, ?_⟩
  rw [List.take_append_of_le_length (by omega), hfound]

theorem numbered_window (hnumbered : items.map (·.seqNum) = List.range' 1 items.length) :
    (window items).map (·.seqNum) = List.range' (1 + (items.length - maxTSCacheNum)) (window items).length := by
  rw [window, List.map_drop, hnumbered, List.drop_range', List.length_drop]
  congr 1
  omega

theorem Views.shown (h : Views items v) (hnumbered : items.map (·.seqNum) = List.range' 1 items.length)
    (hreadable : ∀ item ∈ items, Readable item) : Views items (v.shown (.m3u8 (playlistOf (window items)))) := by
  have hwindow := numbered_window hnumbered
  have hzip : ((window items).map fun item => lit item.name).zipIdx
      (((window items).head?.map TSItem.seqNum).getD 0) = (window items).map ask := by
    cases hitems : window items with
    | nil => rfl
    | cons item rest =>
        rw [hitems] at hwindow
        have hnum : item.seqNum = 1 + (items.length - maxTSCacheNum) := (List.cons.inj hwindow).1
        rw [← zipIdx_numbered hwindow, ← hnum]
        rfl
  have hread := read_playlistOf fun item (hitem : item ∈ window items) => hreadable item (List.mem_of_mem_drop hitem)
  have hpending : (v.shown (.m3u8 (playlistOf (window items)))).pending =
      (items.drop (max (v.next - 1) (items.length - maxTSCacheNum))).map ask := by
    have hmap : ((window items).map fun item => (item.duration.toNat, lit item.name)).map Prod.snd =
        (window items).map fun item => lit item.name := by
      rw [List.map_map]
      rfl
    rw [Viewer.shown, Response.m3u8]
    simp only [hread, hmap, hzip]
    rw [filter_numbered hwindow, window, List.drop_drop]
    congr 2
    omega
  refine ⟨?_, ⟨items.length, le_refl _, ?_⟩, ?_⟩
  · rw [Viewer.shown_next]
    exact h.next_le
  · rw [hpending, Viewer.shown_next, List.take_length]
  · rw [Viewer.shown_next, Viewer.shown_found]
    exact h.found

/-- Segment `k`, counted from zero, is what the player asks for next, out of the window that ended with segment `m`. -/
structure Due (items : List TSItem) (v : Viewer) (k m : Nat) (item : TSItem) : Prop where
  listed : items[k]? = some item
  seqNum : item.seqNum = k + 1
  length : m ≤ items.length
  first : k = max (v.next - 1) (m - maxTSCacheNum)
  pending : v.pending = (lit item.name, k + 1) :: ((items.take m).drop (k + 1)).map ask

theorem Views.due (h : Views items v) (hne : v.pending ≠ [])
    (hnumbered : items.map (·.seqNum) = List.range' 1 items.length) : ∃ k m item, Due items v k m item := by
  obtain ⟨m, hm, hpending⟩ := h.pending
  set k := max (v.next - 1) (m - maxTSCacheNum) with hk
  have hlt : k < (items.take m).length := by
    by_contra hge
    rw [List.drop_eq_nil_of_le (Nat.le_of_not_lt hge)] at hpending
    exact hne hpending
  rw [List.drop_eq_getElem_cons hlt, List.map_cons, List.getElem_take] at hpending
  have hlength : k < items.length := by
    rw [List.length_take] at hlt
    omega
  have hnum : items[k].seqNum = k + 1 := by
    have hget := congrArg (·[k]?) hnumbered
    simp only [List.getElem?_map, List.getElem?_eq_getElem hlength, Option.map_some] at hget
    rw [List.getElem?_range' hlength, Option.some.injEq] at hget
    rw [hget]
    omega
  refine ⟨k, m, items[k], List.getElem?_eq_getElem hlength, hnum, hm, hk, ?_⟩
  rw [hpending, ask, hnum]

namespace Due

variable {k m : Nat} {item : TSItem}

theorem lt (h : Due items v k m item) : k < items.length := (List.getElem?_eq_some_iff.mp h.listed).1

theorem next_le (h : Due items v k m item) : v.next - 1 ≤ k := by
  have hfirst := h.first
  omega

theorem take_succ (h : Due items v k m item) : items.take (k + 1) = items.take k ++ [item] := by
  rw [List.take_succ_eq_append_getElem h.lt, (List.getElem?_eq_some_iff.mp h.listed).2]

theorem answer_eq (h : Due items v k m item) : answer item = (k + 1, item.data) := by
  rw [answer, h.seqNum]

end Due

/-- What the server has for the player that asks for segment `k`. -/
def held (items : List TSItem) (k : Nat) (item : TSItem) : Response :=
  if items.length ≤ k + maxTSCacheNum then .ts item else .error errNoKey 400

section Received

variable {k m : Nat} {item : TSItem}

theorem received_found (items : List TSItem) (k : Nat) (item : TSItem) (v : Viewer) :
    (v.received (k + 1) (held items k item)).found =
      v.found ++ if items.length ≤ k + maxTSCacheNum then [(k + 1, item.data)] else [] := by
  unfold held
  by_cases hle : items.length ≤ k + maxTSCacheNum
  · rw [if_pos hle, if_pos hle]
    rfl
  · rw [if_neg hle, if_neg hle, List.append_nil]
    rfl

theorem Views.received (h : Views items v) (hdue : Due items v k m item) :
    Views items (v.received (k + 1) (held items k item)) := by
  have hlt := hdue.lt
  have hnext := hdue.next_le
  have hfirst := hdue.first
  refine ⟨Nat.succ_le_succ hlt, ⟨m, hdue.length, ?_⟩, ?_⟩
  · have htail : (v.received (k + 1) (held items k item)).pending = ((items.take m).drop (k + 1)).map ask := by
      rw [Viewer.received, hdue.pending]
      rfl
    have hmax : max ((v.received (k + 1) (held items k item)).next - 1) (m - maxTSCacheNum) = k + 1 := by
      show max (k + 1 + 1 - 1) (m - maxTSCacheNum) = k + 1
      omega
    rw [htail, hmax]
  · have hold : v.found.Sublist ((items.take k).map answer) :=
      h.found.trans ((List.take_prefix_take_left hnext).map answer).sublist
    show (v.received (k + 1) (held items k item)).found.Sublist ((items.take (k + 1)).map answer)
    rw [received_found, hdue.take_succ, List.map_append, List.map_singleton, hdue.answer_eq]
    refine hold.append ?_
    split_ifs
    · exact List.Sublist.refl _
    · exact List.nil_sublist _

theorem Gapless.received (h : Gapless items v) (hdue : Due items v k m item)
    (hpace : v.next = 0 ∨ items.length < v.next + 3) : Gapless items (v.received (k + 1) (held items k item)) := by
  obtain ⟨a, ha, hfound⟩ := h
  have hlt := hdue.lt
  have hfirst := hdue.first
  have hlength := hdue.length
  have hthree : maxTSCacheNum = 3 := rfl
  show ∃ a ≤ k + 1, (v.received (k + 1) (held items k item)).found = ((items.take (k + 1)).drop a).map answer
  rw [received_found]
  by_cases hnil : v.found = []
  · -- whether it is the first answer or not, nothing comes before it
    rw [hnil, List.nil_append]
    by_cases hle : items.length ≤ k + maxTSCacheNum
    · refine ⟨k, Nat.le_succ k, ?_⟩
      rw [if_pos hle, hdue.take_succ, List.drop_left' (List.length_take_of_le hlt.le), List.map_singleton, hdue.answer_eq]
    · refine ⟨k + 1, le_refl _, ?_⟩
      rw [if_neg hle, List.drop_eq_nil_of_le (List.length_take_le _ _), List.map_nil]
  · have hzero : v.next ≠ 0 := by
      intro hzero
      rw [hzero, Nat.zero_sub, List.take_zero, List.drop_nil, List.map_nil] at hfound
      exact hnil hfound
    have hpace := hpace.resolve_left hzero
    have hk : v.next - 1 = k := by omega
    have hle : items.length ≤ k + maxTSCacheNum := by omega
    refine ⟨a, by omega, ?_⟩
    rw [if_pos hle, hdue.take_succ, List.drop_append_of_le_length, List.map_append, List.map_singleton, hdue.answer_eq,
      hfound, hk]
    rw [List.length_take_of_le hlt.le]
    omega

end Received

/-! ### Runs -/

namespace Viewing

variable {server : Server} {caches : Nat → TSCacheItem} {conn : Nat} {s t : Viewing} {e : Event}

theorem step_source (h : step server caches conn s e = some t) :
    t.source = s.source ∨ ∃ now, Turns now s.source t.source := by
  cases e with
  | arrives now p =>
      have hturns := Source.sendTurn_turns now p s.source
      rw [step] at h
      cases hcall : Source.sendTurn now p s.source with
      | ok a source =>
          rw [hcall] at h hturns
          cases h
          exact Or.inr ⟨now, hturns⟩
      | err e source =>
          rw [hcall] at h
          cases h
      | panic f =>
          rw [hcall] at h
          cases h
      | diverge =>
          rw [hcall] at h
          cases h
  | reloads =>
      obtain ⟨res, -, rfl⟩ := Option.map_eq_some_iff.mp h
      exact Or.inl rfl
  | asks =>
      rw [step] at h
      split at h
      · cases h
      · obtain ⟨res, -, rfl⟩ := Option.map_eq_some_iff.mp h
        exact Or.inl rfl

theorem cutting_step (hcutting : Cutting key s.source) (h : step server caches conn s e = some t) :
    Cutting key t.source := by
  obtain heq | ⟨now, hturns⟩ := step_source h
  · rw [heq]
    exact hcutting
  · exact hcutting.turns hturns

theorem grows_step (h : step server caches conn s e = some t) : s.source.setItems <+: t.source.setItems := by
  obtain heq | ⟨now, hturns⟩ := step_source h
  · rw [heq]
  · exact hturns.grows

/-- The names of all segments are different, that is, no two of them were cut off within one second. -/
def Distinct (s : Viewing) : Prop := (s.source.setItems.map TSItem.name).Nodup

theorem Distinct.before (ht : Distinct t) (h : step server caches conn s e = some t) : Distinct s :=
  ht.sublist ((grows_step h).map TSItem.name).sublist

/-- What happens to the player. -/
theorem step_viewer (hkey : Spelled (lit key)) (hconn : server.getConn (lit key) = some conn)
    (hopen : server.sources[conn]?.any Handle.tsCache = true) (hcutting : Cutting key s.source) (hnames : Distinct s)
    (hviews : Views s.source.setItems s.viewer) (h : step server caches conn s e = some t) :
    t.viewer = s.viewer ∨
      t.source = s.source ∧ t.viewer = s.viewer.shown (.m3u8 (playlistOf (window s.source.setItems))) ∨
      ∃ k m item, e = .asks ∧ Due s.source.setItems s.viewer k m item ∧
        t.source = s.source ∧ t.viewer = s.viewer.received (k + 1) (held s.source.setItems k item) := by
  cases e with
  | arrives now p =>
      rw [step] at h
      split at h
      · cases h
        exact Or.inl rfl
      · cases h
  | reloads =>
      rw [step, hcutting.named, get_playlistPath hkey hconn hopen (spaced_of_nodup (Source.nodup_setCalls hnames))] at h
      cases h
      exact Or.inr (Or.inl ⟨rfl, rfl⟩)
  | asks =>
      have hne : s.viewer.pending ≠ [] := by
        intro hnil
        rw [step, hnil] at h
        cases h
      obtain ⟨k, m, item, hdue⟩ := hviews.due hne hcutting.numbered
      rw [step, hdue.pending] at h
      dsimp only at h
      rw [get_name hkey hconn hopen hcutting hnames hdue.listed] at h
      cases h
      exact Or.inr (Or.inr ⟨k, m, item, rfl, hdue, rfl, rfl⟩)

theorem readable (hkey : Spelled (lit key)) (hcutting : Cutting key s.source) :
    ∀ item ∈ s.source.setItems, Readable item := by
  intro item hitem
  obtain ⟨hduration, now, hname⟩ := hcutting.items item hitem
  exact readable_of_filename hkey hduration hname

theorem views_step (hkey : Spelled (lit key)) (hconn : server.getConn (lit key) = some conn)
    (hopen : server.sources[conn]?.any Handle.tsCache = true) (hcutting : Cutting key s.source) (hnames : Distinct s)
    (hviews : Views s.source.setItems s.viewer) (h : step server caches conn s e = some t) :
    Views t.source.setItems t.viewer := by
  obtain hviewer | ⟨hsource, hviewer⟩ | ⟨k, m, item, -, hdue, hsource, hviewer⟩ :=
    step_viewer hkey hconn hopen hcutting hnames hviews h
  · rw [hviewer]
    exact hviews.grow (grows_step h)
  · rw [hsource, hviewer]
    exact hviews.shown hcutting.numbered (readable hkey hcutting)
  · rw [hsource, hviewer]
    exact hviews.received hdue

theorem gapless_step (hkey : Spelled (lit key)) (hconn : server.getConn (lit key) = some conn)
    (hopen : server.sources[conn]?.any Handle.tsCache = true) (hcutting : Cutting key s.source) (hnames : Distinct s)
    (hviews : Views s.source.setItems s.viewer) (hgapless : Gapless s.source.setItems s.viewer) (hpace : KeepsUp s e)
    (h : step server caches conn s e = some t) : Gapless t.source.setItems t.viewer := by
  obtain hviewer | ⟨hsource, hviewer⟩ | ⟨k, m, item, rfl, hdue, hsource, hviewer⟩ :=
    step_viewer hkey hconn hopen hcutting hnames hviews h
  · rw [hviewer]
    exact hgapless.grow hviews.next_le (grows_step h)
  · rw [hsource, hviewer, Gapless, Viewer.shown_next, Viewer.shown_found]
    exact hgapless
  · rw [hsource, hviewer]
    exact hgapless.received hdue hpace

theorem cutting_start (key : String) : Cutting key (start key).source :=
  ⟨rfl, rfl, rfl, List.forall_mem_nil _⟩

theorem views_start (key : String) : Views (start key).source.setItems (start key).viewer :=
  ⟨Nat.zero_le _, ⟨0, le_refl _, rfl⟩, List.Sublist.refl _⟩

theorem gapless_start (key : String) : Gapless (start key).source.setItems (start key).viewer := ⟨0, le_refl _, rfl⟩

theorem found_sublist {es : List Event} (hkey : Spelled (lit key)) (hconn : server.getConn (lit key) = some conn)
    (hopen : server.sources[conn]?.any Handle.tsCache = true) (hrun : run (step server caches conn) es (start key) = some s)
    (hnames : Distinct s) : s.viewer.found.Sublist (s.source.setItems.map answer) := by
  obtain ⟨-, hviews⟩ := run_keeps (I := fun s => Cutting key s.source ∧ (Distinct s → Views s.source.setItems s.viewer))
    (fun s e t hs h => ⟨cutting_step hs.1 h, fun ht =>
      views_step hkey hconn hopen hs.1 (ht.before h) (hs.2 (ht.before h)) h⟩)
    ⟨cutting_start key, fun _ => views_start key⟩ hrun
  exact (hviews hnames).found.trans ((List.take_sublist _ _).map answer)

theorem found_contiguous {es : List Event} (hkey : Spelled (lit key)) (hconn : server.getConn (lit key) = some conn)
    (hopen : server.sources[conn]?.any Handle.tsCache = true) (hrun : run (step server caches conn) es (start key) = some s)
    (hnames : Distinct s) (hpace : Along (step server caches conn) KeepsUp es (start key)) :
    s.viewer.found <:+: s.source.setItems.map answer := by
  obtain ⟨-, hboth⟩ := run_invariant
    (I := fun s => Cutting key s.source ∧
      (Distinct s → Views s.source.setItems s.viewer ∧ Gapless s.source.setItems s.viewer))
    (fun s e t hs hc h => ⟨cutting_step hs.1 h, fun ht =>
      have hbefore := hs.2 (ht.before h)
      ⟨views_step hkey hconn hopen hs.1 (ht.before h) hbefore.1 h,
        gapless_step hkey hconn hopen hs.1 (ht.before h) hbefore.1 hbefore.2 hc h⟩⟩)
    ⟨cutting_start key, fun _ => ⟨views_start key, gapless_start key⟩⟩ hpace hrun
  obtain ⟨a, -, hfound⟩ := (hboth hnames).2
  rw [hfound]
  exact ((List.drop_suffix _ _).isInfix.trans (List.take_prefix _ _).isInfix).map answer

end Viewing

end Hls

end Livego
