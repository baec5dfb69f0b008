import Livego.RtmpConnServer

/-! The check of a client's application, and whether its stream is registered under that application. -/

namespace Livego

open Fallible

structure Application where
  appname : Bytes
  live : Bool

def checkAppName (apps : List Application) (appname : Bytes) : Bool :=
  match apps.find? (·.appname = appname) with
  | some app => app.live
  | none => false

/-- The tables of room keys, which live in a cache or in a database of their own. -/
structure RoomKeys where
  getKey : Bytes → Except GoError Bytes
  getChannel : Bytes → Except GoError Bytes

/-- The configuration, and what the network answers: the error, if any, of the reply to a command. -/
structure Server where
  apps : List Application
  rtmpNoauth : Bool := false
  roomKeys : RoomKeys
  reply : ConnServer → Option GoError := fun _ => none

namespace ConnServer

/-- The part of `handleConn` in which the room key of a publisher is exchanged for its channel. -/
def exchangeKey (server : Server) : Cmd Unit := do
  let c ← Call.get
  let (_, name, _) := c.getInfo
  let key ← if server.rtmpNoauth then
      match server.roomKeys.getKey name with
      | .ok key => pure key
      | .error err => Call.fail (.errorf s!"Cannot create key err={err.text}")
    else pure name
  match server.roomKeys.getChannel key with
  | .ok channel => Call.modify fun c => { c with publishInfo.name := channel }
  | .error err => Call.fail (.errorf s!"invalid key err={err.text}")

/-- `handleConn` after the handshake, up to what `HandleReader` or `HandleWriter` is told. -/
def handleConn (server : Server) (uid : Bytes) (cs : List ChunkStream) : Cmd StreamInfo := do
  readMsg server.reply cs
  let c ← Call.get
  let (appname, _, _) := c.getInfo
  if ¬ checkAppName server.apps appname then
    Call.fail (.errorf s!"application name={quote appname} is not configured")
  if c.isPublisher then
    exchangeKey server
    readerInfo uid
  else writerInfo uid

/-- The part of a key up to its first slash. -/
def firstSegment (key : Bytes) : Bytes := key.takeWhile (· ≠ slash)

/-- The client has named its application and its stream, the application passes the check, and a publisher has its room
key exchanged. -/
structure Admitted (server : Server) (cs : List ChunkStream) (asked c : ConnServer) : Prop where
  read : readMsg server.reply cs {} = .ok () asked
  checked : checkAppName server.apps asked.connInfo.app = true
  exchanged : if asked.isPublisher then exchangeKey server asked = .ok () c else c = asked

/-- A URL whose path begins, after slashes, with the application as a whole segment. Escapes in the path stand for what
they spell. -/
def UnderApp (app url : Bytes) : Prop :=
  ∃ lead seg rest tail n, Url.Locates url (lead ++ (seg ++ rest)) ∧ Url.Spells lead (List.replicate n slash) ∧
    Url.Spells seg app ∧ slash ∉ app ∧ Url.Spells rest tail ∧ (tail = [] ∨ app ≠ [] ∧ tail.head? = some slash)

theorem firstSegment_trimLeft_iff {path app : Bytes} :
    firstSegment (trimLeft path) = app ↔ ∃ n tail, path = List.replicate n slash ++ (app ++ tail) ∧ slash ∉ app ∧
      (tail = [] ∨ app ≠ [] ∧ tail.head? = some slash) := by
  constructor
  · rintro rfl
    obtain ⟨hpath, hlead, hrest⟩ := Url.span_iff.mp
      (⟨rfl, rfl⟩ : path.takeWhile (· = slash) = _ ∧ path.dropWhile (· = slash) = _)
    obtain ⟨hsegment, happ, htail⟩ := Url.span_ne_iff.mp
      (⟨rfl, rfl⟩ : (trimLeft path).takeWhile (· ≠ slash) = _ ∧ (trimLeft path).dropWhile (· ≠ slash) = _)
    refine ⟨(path.takeWhile (· = slash)).length, (trimLeft path).dropWhile (· ≠ slash), ?_, happ,
      htail.elim Or.inl fun hhead => ?_⟩
    · refine hpath.trans (congrArg₂ _ (List.eq_replicate_of_mem fun x hx => ?_) hsegment)
      exact of_decide_eq_true (hlead x hx)
    · refine Or.inr ⟨fun hempty => ?_, hhead⟩
      have hnil : (trimLeft path).takeWhile (· ≠ slash) = [] := hempty
      rw [hnil, List.nil_append] at hsegment
      have hfirst : (trimLeft path).head? = some slash := hsegment ▸ hhead
      exact absurd (hrest slash hfirst) (by decide)
  · rintro ⟨n, tail, rfl, happ, htail⟩
    have htrim : trimLeft (List.replicate n slash ++ (app ++ tail)) = app ++ tail := by
      refine (Url.span_iff.mpr ⟨rfl, fun x hx => ?_, fun x hx => ?_⟩).2
      · exact decide_eq_true (List.eq_of_mem_replicate hx)
      · apply decide_eq_false
        rintro rfl
        cases app with
        | nil =>
            rcases htail with rfl | ⟨hne, -⟩
            · cases hx
            · exact hne rfl
        | cons y app =>
            cases hx
            exact happ List.mem_cons_self
    rw [htrim]
    exact (Url.span_ne_iff.mpr ⟨rfl, happ, htail.imp_right And.right⟩).1

theorem info_iff {uid app : Bytes} {inter : Bool} {c : ConnServer} :
    (∃ i, info uid inter c = .ok i c ∧ firstSegment i.key = app) ↔
      UnderApp app (c.connInfo.tcUrl ++ slash :: c.publishInfo.name) := by
  have hparse : (∃ i, info uid inter c = .ok i c ∧ firstSegment i.key = app) ↔
      ∃ p, (∃ u, Url.parse (c.connInfo.tcUrl ++ slash :: c.publishInfo.name) = some u ∧ u.path = p) ∧
        firstSegment (trimLeft p) = app := by
    constructor
    · rintro ⟨i, hi, rfl⟩
      simp only [info, getInfo] at hi
      split at hi
      · next u hu =>
          cases hi
          exact ⟨u.path, ⟨u, hu, rfl⟩, rfl⟩
      · cases hi
    · rintro ⟨p, ⟨u, hu, rfl⟩, rfl⟩
      refine ⟨{ key := trimLeft u.path, url := c.connInfo.tcUrl ++ slash :: c.publishInfo.name, uid, inter }, ?_, rfl⟩
      simp only [info, getInfo, hu]
  rw [hparse]
  constructor
  · rintro ⟨p, hp, happ⟩
    obtain ⟨path, hlocates, hspells⟩ := Url.parse_iff.mp hp
    obtain ⟨n, tail, rfl, hslash, htail⟩ := firstSegment_trimLeft_iff.mp happ
    obtain ⟨lead, rest', rfl, hlead, hrest'⟩ := Url.spells_append_iff.mp hspells
    obtain ⟨seg, rest, rfl, hseg, hrest⟩ := Url.spells_append_iff.mp hrest'
    exact ⟨lead, seg, rest, tail, n, hlocates, hlead, hseg, hslash, hrest, htail⟩
  · rintro ⟨lead, seg, rest, tail, n, hlocates, hlead, hseg, hslash, hrest, htail⟩
    have hspells := Url.spells_append_iff.mpr ⟨_, _, rfl, hlead, Url.spells_append_iff.mpr ⟨_, _, rfl, hseg, hrest⟩⟩
    exact ⟨_, Url.parse_iff.mpr ⟨_, hlocates, hspells⟩, firstSegment_trimLeft_iff.mpr ⟨n, tail, rfl, hslash, htail⟩⟩

theorem handleConn_eq {server : Server} {uid : Bytes} {cs : List ChunkStream} {asked c : ConnServer}
    (h : Admitted server cs asked c) : handleConn server uid cs {} = info uid (!asked.isPublisher) c := by
  have hexchanged := h.exchanged
  unfold handleConn
  rw [Call.bind_of_ok h.read, Call.get_bind_apply]
  dsimp only [getInfo]
  rw [h.checked]
  cases hpublisher : asked.isPublisher with
  | true =>
      rw [hpublisher, if_pos rfl] at hexchanged
      exact Call.bind_of_ok hexchanged
  | false =>
      rw [hpublisher] at hexchanged
      cases hexchanged
      rfl

/-- The stream of a client that is admitted is registered under the application that was checked if and only if the path
of `TcUrl` and the name leads there. -/
theorem checked_app_used_iff {server : Server} {uid : Bytes} {cs : List ChunkStream} {asked c : ConnServer}
    (h : Admitted server cs asked c) :
    (∃ i, handleConn server uid cs {} = .ok i c ∧ firstSegment i.key = asked.connInfo.app) ↔
      UnderApp asked.connInfo.app (c.connInfo.tcUrl ++ slash :: c.publishInfo.name) := by
  rw [handleConn_eq h]
  exact info_iff

/-- A text without escapes, delimiters of a query or a fragment, and control bytes. -/
def Plain (s : Bytes) : Prop :=
  ∀ c ∈ s, c ≠ Url.chr '%' ∧ c ≠ Url.chr '?' ∧ c ≠ Url.chr '#' ∧ Url.isCTL c = false

theorem Plain.append {s s' : Bytes} (h : Plain s) (h' : Plain s') : Plain (s ++ s') :=
  fun c hc => (List.mem_append.mp hc).elim (h c) (h' c)

theorem Plain.cons {c : UInt8} {s : Bytes}
    (hc : c ≠ Url.chr '%' ∧ c ≠ Url.chr '?' ∧ c ≠ Url.chr '#' ∧ Url.isCTL c = false) (h : Plain s) : Plain (c :: s) :=
  List.forall_mem_cons.mpr ⟨hc, h⟩

theorem Plain.spells {s : Bytes} (h : Plain s) : Url.Spells s s := by
  induction s with
  | nil => exact .nil
  | cons c s ih =>
      obtain ⟨⟨hc, -⟩, hs⟩ := List.forall_mem_cons.mp h
      exact .byte hc (ih hs)

theorem plain_scheme {s : Bytes} (h : Url.IsScheme s) : Plain s := by
  intro c hc
  have hchar : Url.isSchemeChar c = true := List.all_eq_true.mp h.1 c hc
  refine ⟨?_, ?_, ?_, ?_⟩
  · rintro rfl
    exact absurd hchar (by decide)
  · rintro rfl
    exact absurd hchar (by decide)
  · rintro rfl
    exact absurd hchar (by decide)
  · exact Url.isCTL_of_isSchemeChar hchar

/-- A client that writes the application after the host in `tcUrl`, as clients do, stays in it. -/
theorem underApp_of_tcUrl {s authority app name : Bytes} (hs : Url.IsScheme s) (ha : Plain authority)
    (hslash : slash ∉ authority) (hvalid : (Url.parseAuthority authority).isSome = true) (happ : Plain app)
    (hne : app ≠ []) (hslash' : slash ∉ app) (hname : Plain name) :
    UnderApp app ((s ++ Url.chr ':' :: slash :: slash :: (authority ++ slash :: app)) ++ slash :: name) := by
  have hplain : Plain (slash :: slash :: (authority ++ slash :: (app ++ slash :: name))) := by
    have hs : slash ≠ Url.chr '%' ∧ slash ≠ Url.chr '?' ∧ slash ≠ Url.chr '#' ∧ Url.isCTL slash = false := by decide
    exact .cons hs (.cons hs (ha.append (.cons hs (happ.append (.cons hs hname)))))
  have hcolon : Url.chr ':' ≠ Url.chr '%' ∧ Url.chr ':' ≠ Url.chr '?' ∧ Url.chr ':' ≠ Url.chr '#' ∧
      Url.isCTL (Url.chr ':') = false := by decide
  have htext := (plain_scheme hs).append (.cons hcolon hplain)
  refine ⟨[slash], app, slash :: name, slash :: name, 1, ?_, .byte (by decide) .nil, happ.spells, hslash',
    .byte (by decide) hname.spells, Or.inr ⟨hne, rfl⟩⟩
  have hschemed : Url.Schemed (s ++ Url.chr ':' :: slash :: slash :: (authority ++ slash :: (app ++ slash :: name))) true
      (slash :: slash :: (authority ++ slash :: (app ++ slash :: name)) ++ []) := by
    rw [List.append_nil]
    exact .scheme hs
  have hctl : (s ++ Url.chr ':' :: slash :: slash :: (authority ++ slash :: (app ++ slash :: name))).any Url.isCTL =
      false := by
    refine List.any_eq_false.mpr fun c hc => ?_
    rw [(htext c hc).2.2.2]
    exact Bool.false_ne_true
  have hlocates := Url.Locates.intro hctl (fun hc => (htext _ hc).2.2.1 rfl) hschemed (fun hc => (hplain _ hc).2.1 rfl)
    (Or.inl rfl) (.authority hslash hvalid (Or.inr rfl) (Or.inl rfl)) (Or.inl rfl)
  simpa using hlocates

/-- A server with the application `live`. -/
def sampleServer : Server :=
  { apps := [{ appname := lit "live", live := true }], roomKeys := { getKey := .ok, getChannel := .ok } }

/-- An AMF0 string without its marker. -/
def sampleString (s : String) : Bytes := 0 :: UInt8.ofNat (lit s).length :: lit s

/-- `connect` to the application `live`, and `play` of the stream `x`. -/
def sampleMsgs (tcUrl : String) : List ChunkStream :=
  [{ typeID := 20, data := 2 :: sampleString "connect" ++ [0, 63, 240, 0, 0, 0, 0, 0, 0, 3] ++ sampleString "app" ++
      2 :: sampleString "live" ++ sampleString "tcUrl" ++ 2 :: sampleString tcUrl ++ [0, 0, 9] },
    { typeID := 20, data := 2 :: sampleString "play" ++ [0, 0, 0, 0, 0, 0, 0, 0, 0, 5] ++ 2 :: sampleString "x" }]

/-- What the server then knows. -/
def sampleAsked (tcUrl : String) : ConnServer :=
  { done := true, connInfo := { app := lit "live", tcUrl := lit tcUrl }, publishInfo := { name := lit "x" } }

/-- A client that names another application in `tcUrl` than in `app`, and publishes or plays there. -/
theorem checked_app_not_used :
    Admitted sampleServer (sampleMsgs "rtmp://host/other") (sampleAsked "rtmp://host/other")
        (sampleAsked "rtmp://host/other") ∧
      handleConn sampleServer [] (sampleMsgs "rtmp://host/other") {} =
        .ok { key := lit "other/x", url := lit "rtmp://host/other/x", uid := [], inter := true }
          (sampleAsked "rtmp://host/other") ∧
      firstSegment (lit "other/x") ≠ (sampleAsked "rtmp://host/other").connInfo.app ∧
      checkAppName sampleServer.apps (lit "other") = false :=
  ⟨⟨rfl, rfl, rfl⟩, rfl, by decide, rfl⟩

/-- A client that names one application. -/
theorem checked_app_used_iff_sample :
    (∃ i, handleConn sampleServer [] (sampleMsgs "rtmp://host/live") {} = .ok i (sampleAsked "rtmp://host/live") ∧
        firstSegment i.key = (sampleAsked "rtmp://host/live").connInfo.app) ↔
      UnderApp (sampleAsked "rtmp://host/live").connInfo.app ((sampleAsked "rtmp://host/live").connInfo.tcUrl ++
        slash :: (sampleAsked "rtmp://host/live").publishInfo.name) :=
  checked_app_used_iff ⟨rfl, rfl, rfl⟩

end ConnServer

end Livego
