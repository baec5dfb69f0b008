import Livego.RtmpAppName
import Livego.Strings

/-! The targets that the streams of an application are pushed to. They are looked up in the configuration once, and kept
for the whole server. -/

namespace Livego

namespace StaticPush

structure Application extends Livego.Application where
  staticPush : List Bytes := []

/-- The push list of the application, if there is one. -/
def getStaticPushUrlList (apps : List Application) (appname : Bytes) : Option (List Bytes) :=
  match apps.find? fun app => app.appname = appname && app.live with
  | some app => if app.staticPush.length > 0 then some app.staticPush else none
  | none => none

def errNoStaticPush : GoError := .errorf "no static push url"

/-- `GetStaticPushList`, where the state is `G_PushUrlList`. -/
def getStaticPushList (apps : List Application) (appname : Bytes) (pushUrlList : Option (List Bytes)) :
    Except GoError (List Bytes) × Option (List Bytes) :=
  let list := pushUrlList.getD ((getStaticPushUrlList apps appname).getD [])
  (if list.length = 0 then .error errNoStaticPush else .ok list, some list)

/-- The same after calls for other applications. -/
def afterCalls (apps : List Application) (earlier : List Bytes) : Option (List Bytes) :=
  earlier.foldl (fun list appname => (getStaticPushList apps appname list).2) none

/-- What the configuration says. -/
def configured (apps : List Application) (appname : Bytes) : Except GoError (List Bytes) :=
  match getStaticPushUrlList apps appname with
  | some list => .ok list
  | none => .error errNoStaticPush

/-- The URLs that `SendStaticPush` writes a packet of the stream to, if they have been started. -/
def pushUrls (apps : List Application) (key : Bytes) (pushUrlList : Option (List Bytes)) :
    List Bytes × Option (List Bytes) :=
  match Strings.index [ConnServer.slash] key with
  | none => ([], pushUrlList)
  | some index =>
    match getStaticPushList apps (ConnServer.firstSegment key) pushUrlList with
    | (.ok list, pushUrlList) => (list.map fun pushurl => pushurl ++ ConnServer.slash :: key.drop (index + 1), pushUrlList)
    | (.error _, pushUrlList) => ([], pushUrlList)

variable {apps : List Application} {app first : Bytes} {earlier : List Bytes} {list : List Bytes}

theorem length_ne_of_configured (h : getStaticPushUrlList apps app = some list) : list.length ≠ 0 := by
  unfold getStaticPushUrlList at h
  split at h
  · split_ifs at h with hlength
    cases h
    exact Nat.ne_of_gt hlength
  · cases h

/-- The first call fills the cache. -/
theorem afterCalls_cons (apps : List Application) (first : Bytes) (earlier : List Bytes) :
    afterCalls apps (first :: earlier) = some ((getStaticPushUrlList apps first).getD []) := by
  have hfull : ∀ list, earlier.foldl (fun list appname => (getStaticPushList apps appname list).2) (some list) =
      some list := by
    induction earlier with
    | nil => exact fun _ => rfl
    | cons appname earlier ih => exact fun list => ih list
  exact hfull _

/-- Whoever asks gets what the configuration says of the application that was asked for first. -/
theorem getStaticPushList_of_cached (apps : List Application) (first app : Bytes) :
    (getStaticPushList apps app (some ((getStaticPushUrlList apps first).getD []))).1 = configured apps first := by
  unfold configured
  cases hfirst : getStaticPushUrlList apps first with
  | none => rfl
  | some list => exact if_neg (length_ne_of_configured hfirst)

theorem getStaticPushList_none (apps : List Application) (app : Bytes) :
    (getStaticPushList apps app none).1 = configured apps app := getStaticPushList_of_cached apps app app

theorem configured_inj : configured apps first = configured apps app ↔
    getStaticPushUrlList apps first = getStaticPushUrlList apps app := by
  unfold configured
  cases getStaticPushUrlList apps first <;> cases getStaticPushUrlList apps app <;> simp

/-- The answer is that of the configuration if and only if the application that was asked for first has the same list. -/
theorem pushList_iff (apps : List Application) (earlier : List Bytes) (app : Bytes) :
    (getStaticPushList apps app (afterCalls apps earlier)).1 = configured apps app ↔
      ∀ first ∈ earlier.head?, getStaticPushUrlList apps first = getStaticPushUrlList apps app := by
  cases earlier with
  | nil => simp [afterCalls, getStaticPushList_none]
  | cons first earlier =>
      rw [afterCalls_cons, getStaticPushList_of_cached, configured_inj]
      simp only [List.head?_cons, Option.mem_some_iff, forall_eq']

/-- Two applications, each with a target of its own. -/
def twoApps : List Application :=
  [{ appname := lit "live", live := true, staticPush := [lit "rtmp://a/live"] },
    { appname := lit "movie", live := true, staticPush := [lit "rtmp://b/movie"] }]

/-- After a stream of the one, a stream of the other is pushed to the target of the first. -/
theorem pushed_elsewhere :
    (getStaticPushList twoApps (lit "movie") (afterCalls twoApps [lit "live"])).1 = .ok [lit "rtmp://a/live"] ∧
      configured twoApps (lit "movie") = .ok [lit "rtmp://b/movie"] ∧
      (pushUrls twoApps (lit "movie/x") (afterCalls twoApps [lit "live"])).1 = [lit "rtmp://a/live/x"] := by
  refine ⟨by decide, by decide, by decide⟩

/-! ### What a stream is pushed to -/

/-- The URLs of the configuration for a stream. -/
def ownUrls (apps : List Application) (app name : Bytes) : List Bytes :=
  ((getStaticPushUrlList apps app).getD []).map (· ++ ConnServer.slash :: name)

theorem ownUrls_inj (name : Bytes) : ownUrls apps first name = ownUrls apps app name ↔
    getStaticPushUrlList apps first = getStaticPushUrlList apps app := by
  have hinj : Function.Injective (· ++ ConnServer.slash :: name) := fun a b h => List.append_cancel_right h
  unfold ownUrls
  rw [(List.map_injective_iff.mpr hinj).eq_iff]
  cases hfirst : getStaticPushUrlList apps first with
  | none =>
      cases happ : getStaticPushUrlList apps app with
      | none => simp
      | some list => exact ⟨fun heq => absurd (congrArg List.length heq).symm (length_ne_of_configured happ), nofun⟩
  | some list =>
      cases happ : getStaticPushUrlList apps app with
      | none => exact ⟨fun heq => absurd (congrArg List.length heq) (length_ne_of_configured hfirst), nofun⟩
      | some list' => simp

theorem pushUrls_eq (hslash : ConnServer.slash ∉ app) (name : Bytes) {cache : Option (List Bytes)}
    (hanswer : (getStaticPushList apps app cache).1 = configured apps first) :
    (pushUrls apps (app ++ ConnServer.slash :: name) cache).1 = ownUrls apps first name := by
  have hsegment : ConnServer.firstSegment (app ++ ConnServer.slash :: name) = app :=
    (Url.span_ne_iff.mpr ⟨rfl, hslash, Or.inr rfl⟩).1
  rw [pushUrls, Strings.index_singleton hslash]
  simp only [hsegment]
  cases hcall : getStaticPushList apps app cache with
  | mk answer cache' =>
      rw [hcall] at hanswer
      subst hanswer
      unfold ownUrls configured
      cases getStaticPushUrlList apps first with
      | none => rfl
      | some list => simp

/-- The packets of a stream go to the targets of its application, unless another list was asked for first. -/
theorem pushUrls_iff (apps : List Application) (earlier : List Bytes) (hslash : ConnServer.slash ∉ app) (name : Bytes) :
    (pushUrls apps (app ++ ConnServer.slash :: name) (afterCalls apps earlier)).1 = ownUrls apps app name ↔
      ∀ first ∈ earlier.head?, getStaticPushUrlList apps first = getStaticPushUrlList apps app := by
  cases earlier with
  | nil => simp [pushUrls_eq hslash name (getStaticPushList_none apps app), afterCalls]
  | cons first earlier =>
      rw [afterCalls_cons, pushUrls_eq hslash name (getStaticPushList_of_cached apps first app), ownUrls_inj]
      simp only [List.head?_cons, Option.mem_some_iff, forall_eq']

end StaticPush

end Livego
