import Livego.HlsPlaylist
import Livego.HlsServer
import Livego.RtmpConnServer
import Livego.Strings

/-! The URLs of the hls server: from a path to the key of a stream and back, and what is served under a path. -/

namespace Livego

open Fallible ConnServer

namespace Hls

open Strings (ext base splitN split)

def errNoPublisher : GoError := .named "no publisher"

def crossdomainxml : Bytes := lit ("<?xml version=\"1.0\" ?>\n<cross-domain-policy>\n\t<allow-access-from domain=\"*\" />\n" ++
  "\t<allow-http-request-headers-from domain=\"*\" headers=\"*\"/>\n</cross-domain-policy>")

structure Response where
  status : Nat := 200
  header : List (String × Bytes) := []
  body : Bytes := []
  deriving DecidableEq

/-- `http.Error`. -/
def Response.error (err : GoError) (code : Nat) : Response where
  status := code
  header := [("Content-Type", lit "text/plain; charset=utf-8"), ("X-Content-Type-Options", lit "nosniff")]
  body := lit err.text ++ lit "\n"

def Response.m3u8 (body : Bytes) : Response where
  header := [("Access-Control-Allow-Origin", lit "*"), ("Cache-Control", lit "no-cache"),
    ("Content-Type", lit "application/x-mpegURL"), ("Content-Length", lit (toString body.length))]
  body := body

def Response.ts (item : TSItem) : Response where
  header := [("Access-Control-Allow-Origin", lit "*"), ("Content-Type", lit "video/mp2ts"),
    ("Content-Length", lit (toString item.data.length))]
  body := item.data

/-- The name of a segment. -/
def filename (key : Bytes) (now : Int) : Bytes := slash :: key ++ slash :: (lit (toString now) ++ lit ".ts")

/-- The path of a playlist. -/
def playlistPath (key : Bytes) : Bytes := slash :: key ++ lit ".m3u8"

namespace Server

/-- The error is always nil. -/
def parseM3u8 (pathstr : Bytes) : Except Panic Bytes :=
  let pathstr := trimLeft pathstr
  match (split pathstr (ext pathstr)).head? with
  | some key => .ok key
  | none => .error .indexOutOfRange

def parseTs (pathstr : Bytes) : Bytes × Option GoError :=
  let pathstr := trimLeft pathstr
  match splitN [slash] 3 pathstr with
  | [p, q, _] => (p ++ slash :: q, none)
  | _ => ([], some (.errorf s!"invalid path={quote pathstr}"))

/-- `conn.GetCacheInc()`, where these are the caches of the sources. -/
def getCacheInc (caches : Nat → TSCacheItem) (conn : Nat) (server : Server) : Option TSCacheItem :=
  if server.sources[conn]?.any Handle.tsCache then some (caches conn) else none

def handleM3u8 (caches : Nat → TSCacheItem) (path : Bytes) (server : Server) : Except Panic Response := do
  let key ← parseM3u8 path
  match server.getConn key with
  | none => .ok (.error errNoPublisher 403)
  | some conn =>
    match server.getCacheInc caches conn with
    | none => .ok (.error errNoPublisher 403)
    | some tsCache => .ok (.m3u8 tsCache.genM3U8PlayList)

def handleTs (caches : Nat → TSCacheItem) (path : Bytes) (server : Server) : Except Panic Response :=
  let (key, _) := parseTs path
  match server.getConn key with
  | none => .ok (.error errNoPublisher 403)
  | some conn =>
    match server.getCacheInc caches conn with
    | none => .error .nilDereference
    | some tsCache =>
      match tsCache.getItem path with
      | .error err => .ok (.error err 400)
      | .ok item => .ok (.ts item)

def handle (caches : Nat → TSCacheItem) (path : Bytes) (server : Server) : Except Panic Response :=
  if base path = lit "crossdomain.xml" then
    .ok { header := [("Content-Type", lit "application/xml")], body := crossdomainxml }
  else if ext path = lit ".m3u8" then handleM3u8 caches path server
  else if ext path = lit ".ts" then handleTs caches path server
  else .ok {}

/-- The URLs of the stream lead back to its key: that of its playlist and those of its segments. The source that is
registered under the key is the one that serves them. -/
structure Resolves (key : Bytes) : Prop where
  playlist : parseM3u8 (playlistPath key) = .ok key
  segment : ∀ now, parseTs (filename key now) = (key, none)
  shown : ∀ (server : Server) caches conn tsCache, server.getConn key = some conn →
    server.getCacheInc caches conn = some tsCache →
    server.handle caches (playlistPath key) = .ok (.m3u8 tsCache.genM3U8PlayList)
  served : ∀ (server : Server) caches conn tsCache item now, server.getConn key = some conn →
    server.getCacheInc caches conn = some tsCache → tsCache.getItem (filename key now) = .ok item →
    server.handle caches (filename key now) = .ok (.ts item)

variable {key : Bytes}

theorem trimLeft_slash (hne : key ≠ []) (hhead : key.head? ≠ some slash) (s : Bytes) :
    trimLeft (slash :: key ++ s) = key ++ s := by
  cases key with
  | nil => exact absurd rfl hne
  | cons c key =>
      have hc : c ≠ slash := fun heq => hhead (congrArg some heq)
      simp [trimLeft, List.dropWhile, hc]

theorem filename_eq (key : Bytes) (now : Int) :
    filename key now = (slash :: key ++ slash :: lit (toString now)) ++ lit ".ts" := by
  simp only [filename, List.cons_append, List.append_assoc]

theorem ext_playlist (s : Bytes) : ext (s ++ lit ".m3u8") = lit ".m3u8" :=
  Strings.ext_append (e := lit "m3u8") (by decide) (by decide) s

theorem ext_filename (key : Bytes) (now : Int) : ext (filename key now) = lit ".ts" := by
  rw [filename_eq]
  exact Strings.ext_append (e := lit "ts") (by decide) (by decide) _

theorem base_ne_crossdomain {c : UInt8} {path : Bytes} (hpath : path.getLast? = some c) (hc : c ≠ slash)
    (hl : c ≠ Url.chr 'l') : base path ≠ lit "crossdomain.xml" := by
  intro heq
  obtain ⟨s, rfl⟩ := List.getLast?_eq_some_iff.mp hpath
  have hlast := Strings.getLast?_base hc s
  rw [heq] at hlast
  exact hl (Option.some.inj hlast).symm

theorem parseM3u8_iff (hne : key ≠ []) (hhead : key.head? ≠ some slash) :
    parseM3u8 (playlistPath key) = .ok key ↔ ¬lit ".m3u8" <:+: key := by
  have hindex : Strings.index (lit ".m3u8") (key ++ lit ".m3u8") = some key.length ↔ ¬lit ".m3u8" <:+: key :=
    Strings.index_append_self (by decide : Url.chr '.' ∉ lit "m3u8") key
  obtain ⟨m, hm⟩ := Option.isSome_iff_exists.mp (Strings.index_isSome (List.suffix_append key (lit ".m3u8")).isInfix)
  have hparse : parseM3u8 (playlistPath key) = .ok ((key ++ lit ".m3u8").take m) := by
    rw [parseM3u8, playlistPath]
    simp only [trimLeft_slash hne hhead, ext_playlist]
    rw [Strings.head?_split (by decide) hm]
  rw [hparse, ← hindex, hm, Except.ok.injEq, Option.some.injEq]
  constructor
  · intro htake
    have hlength := congrArg List.length htake
    rw [List.length_take, List.length_append] at hlength
    have : (lit ".m3u8").length = 5 := rfl
    omega
  · rintro rfl
    exact List.take_left

theorem parseTs_of_pieces {path p q r : Bytes} (h : splitN [slash] 3 (trimLeft path) = [p, q, r]) :
    parseTs path = (p ++ slash :: q, none) := by
  simp only [parseTs, h]

theorem parseTs_iff (hne : key ≠ []) (hhead : key.head? ≠ some slash) (now : Int) :
    parseTs (filename key now) = (key, none) ↔ key.count slash = 1 := by
  obtain ⟨t, ht⟩ : ∃ t, trimLeft (filename key now) = key ++ slash :: t := ⟨_, trimLeft_slash hne hhead _⟩
  by_cases hslash : slash ∈ key
  · obtain ⟨a, b, rfl, ha⟩ := List.eq_append_cons_of_mem hslash
    rw [List.append_assoc, List.cons_append] at ht
    have hcount : (a ++ slash :: b).count slash = b.count slash + 1 := by
      rw [List.count_append, List.count_eq_zero_of_not_mem ha, List.count_cons_self, Nat.zero_add]
    by_cases hb : slash ∈ b
    · -- the key ends before the second slash
      obtain ⟨b, b', rfl, hfirst⟩ := List.eq_append_cons_of_mem hb
      have hpieces : splitN [slash] 3 (trimLeft (filename (a ++ slash :: (b ++ slash :: b')) now)) =
          [a, b, b' ++ slash :: t] := by
        rw [ht, Strings.splitN_singleton ha, List.append_assoc, List.cons_append,
          Strings.splitN_singleton hfirst]
        rfl
      rw [parseTs_of_pieces hpieces, hcount]
      have hlt : (a ++ slash :: b).length < (a ++ slash :: (b ++ slash :: b')).length := by
        simp only [List.length_append, List.length_cons]
        omega
      have htwo : 0 < (b ++ slash :: b').count slash :=
        List.count_pos_iff.mpr (List.mem_append_right _ List.mem_cons_self)
      constructor
      · intro heq
        rw [Prod.mk.injEq] at heq
        exact absurd (congrArg List.length heq.1) (Nat.ne_of_lt hlt)
      · intro hone
        omega
    · have hpieces : splitN [slash] 3 (trimLeft (filename (a ++ slash :: b) now)) = [a, b, t] := by
        rw [ht, Strings.splitN_singleton ha, Strings.splitN_singleton hb]
        rfl
      rw [parseTs_of_pieces hpieces, hcount, List.count_eq_zero_of_not_mem hb]
      exact ⟨fun _ => rfl, fun _ => rfl⟩
  · have hcount : key.count slash = 0 := List.count_eq_zero_of_not_mem hslash
    rw [hcount]
    refine ⟨fun heq => ?_, fun h => nomatch h⟩
    have hpieces : splitN [slash] 3 (trimLeft (filename key now)) = key :: splitN [slash] 2 t := by
      rw [ht, Strings.splitN_singleton hslash]
    simp only [parseTs, hpieces] at heq
    split at heq
    · next h =>
        obtain ⟨rfl, -⟩ := List.cons.inj h
        have hlength := congrArg (fun x => x.1.length) heq
        simp at hlength
    · exact absurd (Prod.mk.inj heq).1 hne.symm

/-- For a key of the usual form, an application and a name, the extension of a playlist must not occur in it. -/
theorem resolves_iff (hne : key ≠ []) (hhead : key.head? ≠ some slash) :
    Resolves key ↔ key.count slash = 1 ∧ ¬lit ".m3u8" <:+: key := by
  constructor
  · intro h
    exact ⟨(parseTs_iff hne hhead 0).mp (h.segment 0), (parseM3u8_iff hne hhead).mp h.playlist⟩
  · intro ⟨hcount, hinfix⟩
    have hplaylist := (parseM3u8_iff hne hhead).mpr hinfix
    have hsegment := fun now => (parseTs_iff hne hhead now).mpr hcount
    refine ⟨hplaylist, hsegment, fun server caches conn tsCache hconn hcache => ?_,
      fun server caches conn tsCache item now hconn hcache hitem => ?_⟩
    · have hbase : base (playlistPath key) ≠ lit "crossdomain.xml" :=
        base_ne_crossdomain (c := Url.chr '8') (List.getLast?_append.trans rfl) (by decide) (by decide)
      have hext : ext (playlistPath key) = lit ".m3u8" := ext_playlist (slash :: key)
      rw [handle, if_neg hbase, if_pos hext, handleM3u8, hplaylist]
      show (match server.getConn key with
        | none => _
        | some conn => _) = _
      rw [hconn]
      simp only [hcache]
    · have hbase : base (filename key now) ≠ lit "crossdomain.xml" := by
        rw [filename_eq]
        exact base_ne_crossdomain (c := Url.chr 's') (List.getLast?_append.trans rfl) (by decide) (by decide)
      have hext := ext_filename key now
      rw [handle, if_neg hbase, if_neg (by rw [hext]; decide), if_pos hext]
      simp only [handleTs, hsegment, hconn, hcache, hitem]

theorem resolves_movie : Resolves (lit "live/movie") :=
  (resolves_iff (by decide) (by decide)).mpr (by decide)

/-- The name of this stream has a slash. -/
theorem nested_name_unresolved : parseTs (filename (lit "live/room/1") 7) = (lit "live/room", none) ∧
    ¬Resolves (lit "live/room/1") := by
  have hparse : parseTs (filename (lit "live/room/1") 7) = (lit "live/room", none) := by decide +kernel
  refine ⟨hparse, fun h => ?_⟩
  exact absurd (hparse.symm.trans (h.segment 7)) (by decide)

end Server

/-- What `cut` names a segment. -/
theorem name_setItem (now : Int) (source : Source) :
    (source.setItem now).setItems.map (fun item => lit item.name) =
      source.setItems.map (fun item => lit item.name) ++ [filename (lit source.key) now] := by
  have hslash : lit "/" = [slash] := rfl
  simp [Source.setItem, toString, lit_append, filename, hslash]

/-- A segment that the playlist of a registered source lists is served under its name. -/
theorem listed_served {server : Server} {caches : Nat → TSCacheItem} {conn : Nat} {source : Source}
    (hkey : Server.Resolves (lit source.key)) (hconn : server.getConn (lit source.key) = some conn)
    (hcache : server.getCacheInc caches conn = some source.tsCache) (hspaced : Spaced source.setCalls)
    {x : Bytes × TSItem} (hx : x ∈ recent source.setCalls) {now : Int}
    (hname : lit x.2.name = filename (lit source.key) now) :
    server.handle caches (lit x.2.name) = .ok (.ts x.2) := by
  have hitem := (Source.shows_tsCache hspaced).retrievable x hx
  rw [hname] at hitem ⊢
  exact hkey.served server caches conn source.tsCache x.2 now hconn hcache hitem

end Hls

end Livego
