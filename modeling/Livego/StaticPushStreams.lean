import Livego.StaticPushList
import Livego.StaticPushStart
import Livego.SyncMap

/-! The static pushes of all streams. The loop of a stream starts its pushes, hands every packet to them and stops them,
while the loops of other streams do the same with other pushes, or with the same ones. -/

namespace Livego

open Machine

/-- A `StaticPush` with the goroutines that were started for it, and all that its connections were given to write. Its
maker is the loop that put it into the map. -/
structure Push where
  rtmpUrl : Bytes := []
  startflag : Bool := false
  packetChan : List AvPacket := []
  streamID : Nat := 0
  handlers : List StaticPush.Handling := []
  wire : List ChunkStream := []
  maker : Nat := 0

/-- What a loop is at: the calls of `StartStaticPush`, `Read`, the calls of `IsSendStaticPush` and `SendStaticPush` with a
packet, and the calls of `StopStaticPush`. -/
inductive Stage where
  | idle
  | getAndCreate
  | create
  | start (o : Nat)
  | connect (o : Nat)
  | spawn (o : Nat)
  | setFlag (o : Nat)
  | read
  | isSend (p : AvPacket)
  | send (p : AvPacket)
  | writeAvPacket (p : AvPacket) (o : Nat)
  | enqueue (p : AvPacket) (o : Nat)
  | get
  | stop (o : Nat)
  | tell (o : Nat)
  | clearFlag (o : Nat)
  | release
  | ended
  deriving DecidableEq

/-- A `TransStart` loop, with the URLs that its `for` loop still has to come to, and the packets read so far. -/
structure PushLoop where
  key : Bytes := []
  stage : Stage := .idle
  urls : List Bytes := []
  fed : List AvPacket := []

structure PushedStreams where
  pushUrlList : Option (List Bytes) := none
  staticPushMap : SyncMap Bytes Nat := ∅
  next : Nat := 0
  push : Nat → Push := fun _ => {}
  loop : Nat → PushLoop := fun _ => {}

namespace Push

open StaticPush (chunk)

/-- The next step of the goroutine `k` by itself. -/
def works (k : Nat) (push : Push) : Option Push :=
  match push.handlers[k]?, push.packetChan with
  | some .spawned, _ =>
    some { push with handlers := push.handlers.set k (if push.startflag then .selecting else .refused) }
  | some .selecting, p :: packetChan => some { push with packetChan, handlers := push.handlers.set k (.sending p) }
  | some (.sending p), _ =>
    some { push with
      handlers := push.handlers.set k .selecting
      wire := if push.startflag then push.wire ++ [chunk push.streamID p] else push.wire }
  | _, _ => none

end Push

namespace PushedStreams

open StaticPush (pushUrls getStaticPushList packetChanCap)

inductive Event where
  /-- `go s.TransStart()`, of a stream with the key. -/
  | begins (i : Nat) (key : Bytes)
  /-- The next step of the loop, where it does not have to wait for others. -/
  | goesOn (i : Nat)
  /-- `connectClient.Start` returns, with the ID of the stream or with an error. -/
  | connects (i : Nat) (streamID : Option Nat)
  | reads (i : Nat) (p : AvPacket)
  /-- The loop is stopped, or `Read` returns an error. -/
  | ends (i : Nat)
  /-- The goroutine `k` of the push receives what `Stop` sends. -/
  | tells (i k : Nat)
  | works (o k : Nat)

variable (apps : List StaticPush.Application)

/-- The URLs that `IsSendStaticPush` looks up, which asks for the list before it looks for the slash. -/
def isSendUrls (key : Bytes) (pushUrlList : Option (List Bytes)) : List Bytes × Option (List Bytes) :=
  match Strings.index [ConnServer.slash] key with
  | none => ([], (getStaticPushList apps (ConnServer.firstSegment key) pushUrlList).2)
  | some _ => pushUrls apps key pushUrlList

def setLoop (i : Nat) (loop : PushLoop) (s : PushedStreams) : PushedStreams :=
  { s with loop := Function.update s.loop i loop }

/-- The loop gets to a stage. -/
def goTo (i : Nat) (stage : Stage) (urls : List Bytes) (s : PushedStreams) : PushedStreams :=
  s.setLoop i { s.loop i with stage, urls }

def setPush (o : Nat) (push : Push) (s : PushedStreams) : PushedStreams := { s with push := Function.update s.push o push }

/-- `NewStaticPush`, put into the map. -/
def newStaticPush (i : Nat) (url : Bytes) (s : PushedStreams) : PushedStreams :=
  { s.setPush s.next { rtmpUrl := url, maker := i } with
    staticPushMap := s.staticPushMap.insert url s.next
    next := s.next + 1 }

/-- A step at the URL that the `for` loop has come to. -/
def goOnAt (i : Nat) (url : Bytes) (urls : List Bytes) (s : PushedStreams) : Option PushedStreams :=
  match (s.loop i).stage with
  | .getAndCreate =>
    match s.staticPushMap.lookup url with
    | some o => some (s.goTo i (.start o) (url :: urls))
    | none => some (s.goTo i .create (url :: urls))
  | .create => some ((s.newStaticPush i url).goTo i (.start s.next) (url :: urls))
  | .start o =>
    if (s.push o).startflag then some (s.goTo i .getAndCreate urls) else some (s.goTo i (.connect o) (url :: urls))
  | .spawn o =>
    some ((s.setPush o { s.push o with handlers := (s.push o).handlers ++ [.spawned] }).goTo i (.setFlag o) (url :: urls))
  | .setFlag o => some ((s.setPush o { s.push o with startflag := true }).goTo i .getAndCreate urls)
  | .isSend p =>
    if (s.staticPushMap.lookup url).isSome then
      let (urls, pushUrlList) := pushUrls apps (s.loop i).key s.pushUrlList
      some ({ s with pushUrlList }.goTo i (.send p) urls)
    else some (s.goTo i (.isSend p) urls)
  | .send p =>
    match s.staticPushMap.lookup url with
    | some o => some (s.goTo i (.writeAvPacket p o) (url :: urls))
    | none => some (s.goTo i (.send p) urls)
  | .writeAvPacket p o =>
    if (s.push o).startflag then some (s.goTo i (.enqueue p o) (url :: urls)) else some (s.goTo i (.send p) urls)
  | .enqueue p o =>
    if (s.push o).packetChan.length < packetChanCap then
      some ((s.setPush o { s.push o with packetChan := (s.push o).packetChan ++ [p] }).goTo i (.send p) urls)
    else none
  | .get =>
    match s.staticPushMap.lookup url with
    | some o => some (s.goTo i (.stop o) (url :: urls))
    | none => some (s.goTo i .get urls)
  | .stop o =>
    if (s.push o).startflag then some (s.goTo i (.tell o) (url :: urls)) else some (s.goTo i .release (url :: urls))
  | .clearFlag o => some ((s.setPush o { s.push o with startflag := false }).goTo i .release (url :: urls))
  | .release => some ({ s with staticPushMap := s.staticPushMap.erase url }.goTo i .get urls)
  | _ => none

/-- The `for` loop is over. -/
def goOnEnd (i : Nat) (s : PushedStreams) : Option PushedStreams :=
  match (s.loop i).stage with
  | .getAndCreate | .isSend _ | .send _ => some (s.goTo i .read [])
  | .get => some (s.goTo i .ended [])
  | _ => none

def step (s : PushedStreams) : Event → Option PushedStreams
  | .begins i key =>
    if (s.loop i).stage = .idle then
      let (urls, pushUrlList) := pushUrls apps key s.pushUrlList
      some ({ s with pushUrlList }.setLoop i { key, stage := .getAndCreate, urls })
    else none
  | .goesOn i =>
    match (s.loop i).urls with
    | [] => goOnEnd i s
    | url :: urls => goOnAt apps i url urls s
  | .connects i streamID =>
    match (s.loop i).stage, (s.loop i).urls, streamID with
    | .connect o, url :: urls, some streamID =>
      some ((s.setPush o { s.push o with streamID }).goTo i (.spawn o) (url :: urls))
    | .connect _, _ :: urls, none => some (s.goTo i .getAndCreate urls)
    | _, _, _ => none
  | .reads i p =>
    if (s.loop i).stage = .read then
      let (urls, pushUrlList) := isSendUrls apps (s.loop i).key s.pushUrlList
      some ({ s with pushUrlList }.setLoop i
        { s.loop i with stage := .isSend p, urls, fed := (s.loop i).fed ++ [p] })
    else none
  | .ends i =>
    if (s.loop i).stage = .read then
      let (urls, pushUrlList) := pushUrls apps (s.loop i).key s.pushUrlList
      some ({ s with pushUrlList }.goTo i .get urls)
    else none
  | .tells i k =>
    match (s.loop i).stage with
    | .tell o =>
      if (s.push o).handlers[k]? = some .selecting then
        some ((s.setPush o { s.push o with handlers := (s.push o).handlers.set k .stopped }).goTo i (.clearFlag o)
          (s.loop i).urls)
      else none
    | _ => none
  | .works o k => if o < s.next then ((s.push o).works k).map fun push => s.setPush o push else none

end PushedStreams

/-! ### The URLs of a stream -/

namespace StaticPush

variable {apps : List Application} {key : Bytes} {list list' : Option (List Bytes)}

/-- The URLs of a stream with the key do not change any more. -/
def Asked (key : Bytes) (list : Option (List Bytes)) : Prop :=
  Strings.index [ConnServer.slash] key = none ∨ list.isSome = true

/-- No application has a target twice. -/
def DistinctTargets (apps : List Application) : Prop := ∀ app ∈ apps, app.staticPush.Nodup

/-- The list is the one before, or there was none. -/
def Fills (list list' : Option (List Bytes)) : Prop := list' = list ∨ list = none

variable (apps key list) in
/-- The list that there is after it was asked for. -/
def askedList : List Bytes := list.getD ((getStaticPushUrlList apps (ConnServer.firstSegment key)).getD [])

theorem pushUrls_of_none (hindex : Strings.index [ConnServer.slash] key = none) : pushUrls apps key list = ([], list) := by
  rw [pushUrls, hindex]

theorem pushUrls_of_some {n : Nat} (hindex : Strings.index [ConnServer.slash] key = some n) :
    pushUrls apps key list = ((askedList apps key list).map fun url => url ++ ConnServer.slash :: key.drop (n + 1),
      some (askedList apps key list)) := by
  have hlist : getStaticPushList apps (ConnServer.firstSegment key) list =
      (if (askedList apps key list).length = 0 then .error errNoStaticPush else .ok (askedList apps key list),
        some (askedList apps key list)) := rfl
  rw [pushUrls, hindex, hlist]
  dsimp only
  split_ifs with hzero
  · rw [List.eq_nil_of_length_eq_zero hzero]
    rfl
  · rfl

theorem fills_pushUrls : Fills list (pushUrls apps key list).2 := by
  cases hindex : Strings.index [ConnServer.slash] key with
  | none =>
      rw [pushUrls_of_none hindex]
      exact Or.inl rfl
  | some n =>
      rw [pushUrls_of_some hindex]
      exact list.eq_none_or_eq_some.elim Or.inr fun ⟨l, hl⟩ => Or.inl (by rw [hl]; rfl)

theorem asked_pushUrls : Asked key (pushUrls apps key list).2 := by
  cases hindex : Strings.index [ConnServer.slash] key with
  | none => exact Or.inl hindex
  | some n =>
      rw [pushUrls_of_some hindex]
      exact Or.inr rfl

theorem Asked.fills (h : Asked key list) (hfills : Fills list list') : Asked key list' := by
  rcases hfills with rfl | rfl
  · exact h
  · exact h.imp_right fun hsome => nomatch hsome

/-- Who has asked for the list gets the same URLs later. -/
theorem Asked.pushUrls_eq (h : Asked key list) (hfills : Fills list list') :
    (pushUrls apps key list').1 = (pushUrls apps key list).1 := by
  rcases hfills with rfl | rfl
  · rfl
  · rcases h with hindex | hsome
    · rw [pushUrls_of_none hindex, pushUrls_of_none hindex]
    · cases hsome

theorem Asked.pushUrls_snd (h : Asked key list) : (pushUrls apps key list).2 = list := by
  rcases h with hindex | hsome
  · rw [pushUrls_of_none hindex]
  · have hfills : Fills list (pushUrls apps key list).2 := fills_pushUrls
    rcases hfills with hsame | rfl
    · exact hsame
    · cases hsome

theorem pushUrls_again : (pushUrls apps key (pushUrls apps key list).2).1 = (pushUrls apps key list).1 := by
  cases hindex : Strings.index [ConnServer.slash] key with
  | none => rw [pushUrls_of_none hindex, pushUrls_of_none hindex]
  | some n =>
      rw [pushUrls_of_some hindex, pushUrls_of_some hindex]
      rfl

theorem isSendUrls_fst : (PushedStreams.isSendUrls apps key list).1 = (pushUrls apps key list).1 := by
  unfold PushedStreams.isSendUrls
  split
  · next hindex => rw [pushUrls_of_none hindex]
  · rfl

theorem fills_isSendUrls : Fills list (PushedStreams.isSendUrls apps key list).2 := by
  unfold PushedStreams.isSendUrls
  split
  · exact list.eq_none_or_eq_some.elim Or.inr fun ⟨l, hl⟩ => Or.inl (by rw [hl]; rfl)
  · exact fills_pushUrls

variable (hdistinct : DistinctTargets apps) (hlist : ∀ l ∈ list, l.Nodup)

include hdistinct in
theorem nodup_configured (app : Bytes) : ((getStaticPushUrlList apps app).getD []).Nodup := by
  unfold getStaticPushUrlList
  split
  · next app' hfind =>
    split_ifs
    · exact hdistinct app' (List.mem_of_find?_eq_some hfind)
    · exact List.nodup_nil
  · exact List.nodup_nil

include hdistinct hlist in
theorem nodup_askedList : (askedList apps key list).Nodup := by
  cases list with
  | none => exact nodup_configured hdistinct _
  | some l => exact hlist l rfl

include hdistinct hlist in
theorem nodup_pushUrls : (pushUrls apps key list).1.Nodup ∧ ∀ l ∈ (pushUrls apps key list).2, l.Nodup := by
  cases hindex : Strings.index [ConnServer.slash] key with
  | none =>
      rw [pushUrls_of_none hindex]
      exact ⟨List.nodup_nil, hlist⟩
  | some n =>
      have hnodup : (askedList apps key list).Nodup := nodup_askedList hdistinct hlist
      rw [pushUrls_of_some hindex]
      refine ⟨hnodup.map fun a b h => List.append_cancel_right h, fun l hl => ?_⟩
      cases hl
      exact hnodup

include hdistinct hlist in
theorem nodup_isSendUrls : ∀ l ∈ (PushedStreams.isSendUrls apps key list).2, l.Nodup := by
  unfold PushedStreams.isSendUrls
  split
  · intro l hl
    cases hl
    have hnodup : (askedList apps key list).Nodup := nodup_askedList hdistinct hlist
    exact hnodup
  · exact (nodup_pushUrls hdistinct hlist).2

end StaticPush

end Livego
