import Livego.Machine
import Livego.RtmpAppName
import Livego.SyncMap

/-! The room keys in the local cache: one table that leads from a channel to its key and from a key to its channel. -/

namespace Livego

open Machine

structure RoomKeysType where
  localCache : SyncMap Bytes Bytes := ∅
  deriving DecidableEq

namespace RoomKeysType

/-- `SetKey`, where `RandStringRunes` draws these strings. There is no result while all of them are in the cache. -/
def setKey (channel : Bytes) : List Bytes → RoomKeysType → Option (Bytes × RoomKeysType)
  | [], _ => none
  | key :: draws, r =>
    if (r.localCache.lookup key).isSome then setKey channel draws r
    else some (key, { localCache := (r.localCache.insert channel key).insert key channel })

def getKey (channel : Bytes) (draws : List Bytes) (r : RoomKeysType) : Option (Bytes × RoomKeysType) :=
  match r.localCache.lookup channel with
  | some key => some (key, r)
  | none => setKey channel draws r

def getChannel (r : RoomKeysType) (key : Bytes) : Except GoError Bytes :=
  match r.localCache.lookup key with
  | some chann => .ok chann
  | none => .error (.errorf s!"{quote key} does not exists")

def deleteChannel (channel : Bytes) (r : RoomKeysType) : Bool × RoomKeysType :=
  match r.localCache.lookup channel with
  | some key => (true, { localCache := (r.localCache.erase channel).erase key })
  | none => (false, r)

def deleteKey (key : Bytes) (r : RoomKeysType) : Bool × RoomKeysType :=
  match r.localCache.lookup key with
  | some channel => (true, { localCache := (r.localCache.erase channel).erase key })
  | none => (false, r)

theorem getChannel_eq_ok {r : RoomKeysType} {key channel : Bytes} :
    r.getChannel key = .ok channel ↔ r.localCache.lookup key = some channel := by
  unfold getChannel
  split <;> simp_all

theorem setKey_eq_some {channel : Bytes} {draws : List Bytes} {r r' : RoomKeysType} {key : Bytes}
    (h : setKey channel draws r = some (key, r')) :
    key ∈ draws ∧ r.localCache.lookup key = none ∧
      r' = { localCache := (r.localCache.insert channel key).insert key channel } := by
  induction draws with
  | nil => cases h
  | cons key' draws ih =>
      rw [setKey] at h
      split_ifs at h with hfound
      · obtain ⟨hmem, hrest⟩ := ih h
        exact ⟨List.mem_cons_of_mem key' hmem, hrest⟩
      · cases h
        exact ⟨List.mem_cons_self, by simpa using hfound, rfl⟩

end RoomKeysType

/-- The cache, and the channels and keys of the calls that have issued a key, the latest first. -/
structure KeyService where
  keys : RoomKeysType := {}
  issued : List (Bytes × Bytes) := []
  deriving DecidableEq

namespace KeyService

open RoomKeysType (getChannel)

inductive Op where
  | setKey (channel : Bytes) (draws : List Bytes)
  | getKey (channel : Bytes) (draws : List Bytes)
  | getChannel (key : Bytes)
  | deleteChannel (channel : Bytes)
  | deleteKey (key : Bytes)

def step (s : KeyService) : Op → Option KeyService
  | .setKey channel draws =>
    (RoomKeysType.setKey channel draws s.keys).map fun kr => ⟨kr.2, (channel, kr.1) :: s.issued⟩
  | .getKey channel draws => (RoomKeysType.getKey channel draws s.keys).map fun kr =>
    ⟨kr.2, if (s.keys.localCache.lookup channel).isSome then s.issued else (channel, kr.1) :: s.issued⟩
  | .getChannel _ => some s
  | .deleteChannel channel => some { s with keys := (RoomKeysType.deleteChannel channel s.keys).2 }
  | .deleteKey key => some { s with keys := (RoomKeysType.deleteKey key s.keys).2 }

def lookup (s : KeyService) (x : Bytes) : Option Bytes := s.keys.localCache.lookup x

/-- A key is issued for a channel. -/
def issue (channel key : Bytes) (s : KeyService) : KeyService :=
  ⟨⟨(s.keys.localCache.insert channel key).insert key channel⟩, (channel, key) :: s.issued⟩

/-- Two entries are deleted. -/
def revoke (x y : Bytes) (s : KeyService) : KeyService :=
  { s with keys := ⟨(s.keys.localCache.erase x).erase y⟩ }

/-- What a step does, by its call. -/
inductive Does (s : KeyService) : Op → KeyService → Prop where
  | setKey {channel key : Bytes} {draws : List Bytes} (hdraw : key ∈ draws) (hkey : s.lookup key = none)
      (hset : RoomKeysType.setKey channel draws s.keys = some (key, (s.issue channel key).keys)) :
      Does s (.setKey channel draws) (s.issue channel key)
  | newKey {channel key : Bytes} {draws : List Bytes} (hdraw : key ∈ draws) (hkey : s.lookup key = none)
      (hchannel : s.lookup channel = none) : Does s (.getKey channel draws) (s.issue channel key)
  | getKey {channel key : Bytes} {draws : List Bytes} (hchannel : s.lookup channel = some key) :
      Does s (.getKey channel draws) s
  | getChannel {key : Bytes} : Does s (.getChannel key) s
  | deleteChannel {channel key : Bytes} (hchannel : s.lookup channel = some key) :
      Does s (.deleteChannel channel) (s.revoke channel key)
  | noChannel {channel : Bytes} (hchannel : s.lookup channel = none) : Does s (.deleteChannel channel) s
  | deleteKey {channel key : Bytes} (hkey : s.lookup key = some channel) :
      Does s (.deleteKey key) (s.revoke channel key)
  | noKey {key : Bytes} (hkey : s.lookup key = none) : Does s (.deleteKey key) s

variable {s t : KeyService} {e : Op}

theorem does_of_step (h : step s e = some t) : Does s e t := by
  cases e with
  | setKey channel draws =>
      obtain ⟨⟨key, r⟩, hset, rfl⟩ := Option.map_eq_some_iff.mp h
      obtain ⟨hdraw, hkey, rfl⟩ := RoomKeysType.setKey_eq_some hset
      exact .setKey hdraw hkey hset
  | getKey channel draws =>
      obtain ⟨⟨key, r⟩, hget, rfl⟩ := Option.map_eq_some_iff.mp h
      unfold RoomKeysType.getKey at hget
      split at hget
      · next hchannel =>
          cases hget
          rw [if_pos (by rw [hchannel]; rfl)]
          exact .getKey hchannel
      · next hchannel =>
          obtain ⟨hdraw, hkey, rfl⟩ := RoomKeysType.setKey_eq_some hget
          rw [if_neg (by rw [hchannel]; exact Bool.false_ne_true)]
          exact .newKey hdraw hkey hchannel
  | getChannel key =>
      cases h
      exact .getChannel
  | deleteChannel channel =>
      simp only [step, RoomKeysType.deleteChannel] at h
      split at h
      · next hchannel =>
          cases h
          exact .deleteChannel hchannel
      · next hchannel =>
          cases h
          exact .noChannel hchannel
  | deleteKey key =>
      simp only [step, RoomKeysType.deleteKey] at h
      split at h
      · next hkey =>
          cases h
          exact .deleteKey hkey
      · next hkey =>
          cases h
          exact .noKey hkey

theorem lookup_issue (channel key x : Bytes) (s : KeyService) :
    (s.issue channel key).lookup x =
      if x = key then some channel else if x = channel then some key else s.lookup x := by
  simp only [lookup, issue, SyncMap.lookup_insert_eq]

theorem lookup_revoke (x y z : Bytes) (s : KeyService) :
    (s.revoke x y).lookup z = if z = x ∨ z = y then none else s.lookup z := by
  simp only [lookup, revoke, SyncMap.lookup_erase_eq]
  split_ifs <;> simp_all

/-! ### Which strings pass for keys -/

/-- Every entry was made when a key was issued, as that of the channel or as that of the key. -/
theorem issued_of_lookup {es : List Op} (hrun : run step es {} = some s) {x y : Bytes} (h : s.lookup x = some y) :
    (y, x) ∈ s.issued ∨ (x, y) ∈ s.issued := by
  refine run_keeps (I := fun s => ∀ x y, s.lookup x = some y → (y, x) ∈ s.issued ∨ (x, y) ∈ s.issued)
    (fun s e t hs hstep x y hxy => ?_) (fun x y hxy => ?_) hrun x y h
  · have hissue : ∀ channel key, t = s.issue channel key → (y, x) ∈ t.issued ∨ (x, y) ∈ t.issued := by
      rintro channel key rfl
      rw [lookup_issue] at hxy
      split_ifs at hxy with hkey hchannel
      · cases hxy
        exact Or.inl (hkey ▸ List.mem_cons_self)
      · cases hxy
        exact Or.inr (hchannel ▸ List.mem_cons_self)
      · exact (hs x y hxy).imp (List.mem_cons_of_mem _) (List.mem_cons_of_mem _)
    have hrevoke : ∀ a b, t = s.revoke a b → (y, x) ∈ t.issued ∨ (x, y) ∈ t.issued := by
      rintro a b rfl
      rw [lookup_revoke] at hxy
      split_ifs at hxy
      exact hs x y hxy
    cases does_of_step hstep with
    | setKey => exact hissue _ _ rfl
    | newKey => exact hissue _ _ rfl
    | deleteChannel => exact hrevoke _ _ rfl
    | deleteKey => exact hrevoke _ _ rfl
    | _ => exact hs x y hxy
  · cases hxy

/-- The channel has the key: it was issued for it, and `GetKey` returns it. -/
def Holds (s : KeyService) (channel key : Bytes) : Prop :=
  (channel, key) ∈ s.issued ∧ ∀ draws, RoomKeysType.getKey channel draws s.keys = some (key, s.keys)

theorem getKey_of_lookup {channel key : Bytes} (h : s.lookup channel = some key) (draws : List Bytes) :
    RoomKeysType.getKey channel draws s.keys = some (key, s.keys) := by
  unfold RoomKeysType.getKey
  rw [show s.keys.localCache.lookup channel = some key from h]

theorem lookup_of_holds {channel key : Bytes} (h : s.Holds channel key) : s.lookup channel = some key := by
  have hget := h.2 []
  unfold RoomKeysType.getKey at hget
  split at hget
  · next hchannel =>
      cases hget
      exact hchannel
  · cases hget

theorem issued_iff {es : List Op} (hrun : run step es {} = some s) {x : Bytes} :
    (∀ channel, s.lookup x = some channel → (channel, x) ∈ s.issued) ↔
      ∀ key, s.Holds x key → (key, x) ∈ s.issued := by
  constructor
  · exact fun h key hholds => h key (lookup_of_holds hholds)
  · intro h channel hlookup
    rcases issued_of_lookup hrun hlookup with hissued | hissued
    · exact hissued
    · exact h channel ⟨hissued, getKey_of_lookup hlookup⟩

/-- Without `rtmp_noauth` the name that a publisher gives is taken for its key. -/
theorem exchangeKey_eq_ok {server : Server} {keys : RoomKeysType} (hauth : server.rtmpNoauth = false)
    (hkeys : server.roomKeys.getChannel = keys.getChannel) {c c' : ConnServer} :
    ConnServer.exchangeKey server c = .ok () c' ↔
      ∃ channel, keys.getChannel c.publishInfo.name = .ok channel ∧ c' = { c with publishInfo.name := channel } := by
  unfold ConnServer.exchangeKey
  rw [Fallible.Call.get_bind_apply]
  simp only [ConnServer.getInfo, hauth, hkeys, Fallible.Call.pure_bind_apply, Bool.false_eq_true, if_false]
  cases keys.getChannel c.publishInfo.name with
  | ok channel => simp [eq_comm]
  | error err => simp

/-- `GetChannel` and the check of a publisher accept a string as a key only where it was issued for the channel that it
leads to, if and only if the string is not the name of a channel that has a key, unless it is a key itself. -/
theorem accepted_keys_iff {es : List Op} (hrun : run step es {} = some s) (x : Bytes) :
    ((∀ channel, s.keys.getChannel x = .ok channel → (channel, x) ∈ s.issued) ↔
        ∀ key, s.Holds x key → (key, x) ∈ s.issued) ∧
      ∀ server : Server, server.rtmpNoauth = false → server.roomKeys.getChannel = s.keys.getChannel →
        ∀ c : ConnServer, c.publishInfo.name = x →
          ((∀ c', ConnServer.exchangeKey server c = .ok () c' → (c'.publishInfo.name, x) ∈ s.issued) ↔
            ∀ key, s.Holds x key → (key, x) ∈ s.issued) := by
  simp only [RoomKeysType.getChannel_eq_ok]
  refine ⟨issued_iff hrun, ?_⟩
  rintro server hauth hkeys c rfl
  rw [← issued_iff hrun]
  simp only [exchangeKey_eq_ok hauth hkeys, RoomKeysType.getChannel_eq_ok]
  constructor
  · exact fun h channel hchannel => h _ ⟨channel, hchannel, rfl⟩
  · rintro h c' ⟨channel, hchannel, rfl⟩
    exact h channel hchannel

/-- A string as `RandStringRunes` may draw it. -/
def drawn (c : Char) : Bytes := List.replicate 48 (Url.chr c)

theorem accepted_keys_iff_sample :
    ∃ s, run step [.setKey (lit "movie") [drawn 'k']] {} = some s ∧
      ((∀ channel, s.keys.getChannel (drawn 'k') = .ok channel → (channel, drawn 'k') ∈ s.issued) ↔
        ∀ key, s.Holds (drawn 'k') key → (key, drawn 'k') ∈ s.issued) := by
  have h : ∃ s, run step [.setKey (lit "movie") [drawn 'k']] {} = some s := ⟨_, rfl⟩
  obtain ⟨s, hrun⟩ := h
  exact ⟨s, hrun, (accepted_keys_iff hrun (drawn 'k')).1⟩

/-- A publisher that gives the name of the channel gets through, and publishes under the channel's key. -/
theorem channel_name_is_accepted :
    ∃ s, run step [.setKey (lit "movie") [drawn 'k']] {} = some s ∧ s.issued = [(lit "movie", drawn 'k')] ∧
      s.keys.getChannel (lit "movie") = .ok (drawn 'k') ∧ ∀ server : Server, server.rtmpNoauth = false →
        server.roomKeys.getChannel = s.keys.getChannel →
          ConnServer.exchangeKey server { publishInfo := { name := lit "movie" } } =
            .ok () { publishInfo := { name := drawn 'k' } } := by
  refine ⟨_, rfl, rfl, rfl, fun server hauth hkeys => ?_⟩
  exact (exchangeKey_eq_ok hauth hkeys).mpr ⟨_, rfl, rfl⟩

/-! ### One key for each channel -/

/-- The strings that are drawn are keys, and the channels are not. -/
def Op.Apart (isKey : Bytes → Prop) : Op → Prop
  | .setKey channel draws => ¬ isKey channel ∧ ∀ key ∈ draws, isKey key
  | .getKey channel draws => ¬ isKey channel ∧ ∀ key ∈ draws, isKey key
  | .deleteChannel channel => ¬ isKey channel
  | _ => True

/-- The channel that a key was last issued for. -/
def owner (s : KeyService) (key : Bytes) : Option Bytes :=
  (s.issued.find? fun ck => ck.2 = key).map Prod.fst

/-- A channel has at most one valid key, which is the one that `GetKey` returns. -/
structure OneKey (isKey : Bytes → Prop) (s : KeyService) : Prop where
  unique : ∀ channel key key', ¬ isKey channel → s.keys.getChannel key = .ok channel →
    s.keys.getChannel key' = .ok channel → key = key'
  current : ∀ channel key, ¬ isKey channel → s.keys.getChannel key = .ok channel →
    ∀ draws, RoomKeysType.getKey channel draws s.keys = some (key, s.keys)

/-- The keys of a channel are rejected, except one. -/
def Rejects (s t : KeyService) (channel : Bytes) (new : Option Bytes) : Prop :=
  ∀ key, s.owner key = some channel → some key ≠ new → ∀ channel', t.keys.getChannel key ≠ .ok channel'

/-- After a call that resets or deletes it a key is of no more use. -/
def Revokes (s : KeyService) (e : Op) (t : KeyService) : Prop :=
  match e with
  | .setKey channel draws => Rejects s t channel ((RoomKeysType.setKey channel draws s.keys).map Prod.fst)
  | .deleteChannel channel => Rejects s t channel none
  | .deleteKey key => ∀ channel, s.keys.getChannel key = .ok channel → Rejects s t channel none
  | _ => True

/-- `SetKey` is called for a channel without a key. -/
def NoReset (s : KeyService) : Op → Prop
  | .setKey channel _ => s.lookup channel = none
  | _ => True

/-- The two directions of the table belong together. -/
structure Paired (isKey : Bytes → Prop) (s : KeyService) : Prop where
  back : ∀ x y, s.lookup x = some y → s.lookup y = some x
  roles : ∀ x y, s.lookup x = some y → (isKey x ↔ ¬ isKey y)
  owned : ∀ key channel, isKey key → s.lookup key = some channel → s.owner key = some channel
  keys : ∀ key channel, s.owner key = some channel → isKey key

variable {isKey : Bytes → Prop}

theorem owner_issue (channel key key' : Bytes) (s : KeyService) :
    (s.issue channel key).owner key' = if key' = key then some channel else s.owner key' := by
  by_cases h : key' = key
  · simp [owner, issue, h]
  · simp [owner, issue, h, Ne.symm h]

theorem Paired.issue (h : Paired isKey s) {channel key : Bytes} (hchannel : ¬ isKey channel) (hkey : isKey key)
    (hnew : s.lookup key = none) (hnone : s.lookup channel = none) : Paired isKey (s.issue channel key) := by
  have hne : channel ≠ key := fun heq => hchannel (heq ▸ hkey)
  have hold : ∀ x y, s.lookup x = some y → y ≠ key ∧ y ≠ channel := by
    intro x y hxy
    have hyx := h.back x y hxy
    constructor
    · rintro rfl
      rw [hnew] at hyx
      cases hyx
    · rintro rfl
      rw [hnone] at hyx
      cases hyx
  refine ⟨fun x y hxy => ?_, fun x y hxy => ?_, fun k c hk hkc => ?_, fun k c hkc => ?_⟩
  · rw [lookup_issue] at hxy ⊢
    split_ifs at hxy with hx hx'
    · cases hxy
      rw [if_neg hne, if_pos rfl, hx]
    · cases hxy
      rw [if_pos rfl, hx']
    · rw [if_neg (hold x y hxy).1, if_neg (hold x y hxy).2]
      exact h.back x y hxy
  · rw [lookup_issue] at hxy
    split_ifs at hxy with hx hx'
    · cases hxy
      simp [hx, hkey, hchannel]
    · cases hxy
      simp [hx', hkey, hchannel]
    · exact h.roles x y hxy
  · rw [lookup_issue] at hkc
    rw [owner_issue]
    split_ifs at hkc with hx hx'
    · rw [if_pos hx]
      exact hkc
    · exact absurd (hx' ▸ hk) hchannel
    · rw [if_neg hx]
      exact h.owned k c hk hkc
  · rw [owner_issue] at hkc
    split_ifs at hkc with hx
    · exact hx ▸ hkey
    · exact h.keys k c hkc

theorem Paired.revoke (h : Paired isKey s) {x y : Bytes} (hxy : s.lookup x = some y) :
    Paired isKey (s.revoke x y) := by
  have hyx := h.back x y hxy
  refine ⟨fun a b hab => ?_, fun a b hab => ?_, fun key channel hkey hab => ?_, h.keys⟩
  · rw [lookup_revoke] at hab ⊢
    split_ifs at hab with ha
    have hba := h.back a b hab
    rw [if_neg ?_]
    · exact hba
    · rintro (rfl | rfl)
      · rw [hxy] at hba
        cases hba
        exact ha (Or.inr rfl)
      · rw [hyx] at hba
        cases hba
        exact ha (Or.inl rfl)
  · rw [lookup_revoke] at hab
    split_ifs at hab
    exact h.roles a b hab
  · rw [lookup_revoke] at hab
    split_ifs at hab
    exact h.owned key channel hkey hab

theorem paired_step (h : Paired isKey s) (hapart : e.Apart isKey) (hreset : NoReset s e) (hstep : step s e = some t) :
    Paired isKey t := by
  cases does_of_step hstep with
  | setKey hdraw hkey => exact h.issue hapart.1 (hapart.2 _ hdraw) hkey hreset
  | newKey hdraw hkey hchannel => exact h.issue hapart.1 (hapart.2 _ hdraw) hkey hchannel
  | deleteChannel hchannel => exact h.revoke hchannel
  | deleteKey hkey => exact h.revoke (h.back _ _ hkey)
  | _ => exact h

theorem Paired.oneKey (h : Paired isKey s) : OneKey isKey s := by
  refine ⟨fun channel key key' _ hkey hkey' => ?_, fun channel key _ hkey draws => ?_⟩
  · have hback := h.back _ _ (RoomKeysType.getChannel_eq_ok.mp hkey)
    rw [h.back _ _ (RoomKeysType.getChannel_eq_ok.mp hkey')] at hback
    exact (Option.some.inj hback).symm
  · exact getKey_of_lookup (h.back _ _ (RoomKeysType.getChannel_eq_ok.mp hkey)) draws

/-- The only key that a channel has is the one in its entry. -/
theorem Paired.lookup_of_owner (h : Paired isKey s) {key channel channel' : Bytes} (howner : s.owner key = some channel)
    (hlookup : s.lookup key = some channel') : s.lookup channel = some key := by
  have howned := h.owned key channel' (h.keys key channel howner) hlookup
  rw [howner] at howned
  cases howned
  exact h.back _ _ hlookup

/-- Without an entry a channel has no key. -/
theorem Paired.lookup_eq_none (h : Paired isKey s) {key channel : Bytes} (howner : s.owner key = some channel)
    (hchannel : s.lookup channel = none) : s.lookup key = none := by
  by_contra hsome
  obtain ⟨channel', hlookup⟩ := Option.ne_none_iff_exists'.mp hsome
  rw [h.lookup_of_owner howner hlookup] at hchannel
  cases hchannel

theorem rejects_of_lookup {channel : Bytes} {new : Option Bytes}
    (h : ∀ key, s.owner key = some channel → some key ≠ new → t.lookup key = none) : Rejects s t channel new := by
  intro key howner hne channel' hget
  have hlookup : t.lookup key = some channel' := RoomKeysType.getChannel_eq_ok.mp hget
  rw [h key howner hne] at hlookup
  cases hlookup

theorem Paired.rejects_issue (h : Paired isKey s) {channel key : Bytes} (hchannel : ¬ isKey channel)
    (hnone : s.lookup channel = none) : Rejects s (s.issue channel key) channel (some key) := by
  refine rejects_of_lookup fun k howner hne => ?_
  have hk : k ≠ channel := fun heq => hchannel (heq ▸ h.keys k channel howner)
  rw [lookup_issue, if_neg fun heq => hne (congrArg some heq), if_neg hk]
  exact h.lookup_eq_none howner hnone

theorem Paired.rejects_revoke (h : Paired isKey s) {channel key : Bytes} (hchannel : s.lookup channel = some key) :
    Rejects s (s.revoke channel key) channel none := by
  refine rejects_of_lookup fun k howner _ => ?_
  rw [lookup_revoke]
  split_ifs with hgone
  · rfl
  · by_contra hsome
    obtain ⟨channel', hlookup⟩ := Option.ne_none_iff_exists'.mp hsome
    have hback := h.lookup_of_owner howner hlookup
    rw [hchannel] at hback
    exact hgone (Or.inr (Option.some.inj hback).symm)

theorem Paired.revokes (h : Paired isKey s) (hapart : e.Apart isKey) (hreset : NoReset s e) (hstep : step s e = some t) :
    Revokes s e t := by
  cases does_of_step hstep with
  | setKey hdraw hkey hset =>
      simp only [Revokes, hset, Option.map_some]
      exact h.rejects_issue hapart.1 hreset
  | deleteChannel hchannel => exact h.rejects_revoke hchannel
  | noChannel hchannel => exact rejects_of_lookup fun key howner _ => h.lookup_eq_none howner hchannel
  | deleteKey hkey =>
      intro channel hget
      have hlookup := RoomKeysType.getChannel_eq_ok.mp hget
      cases hkey.symm.trans hlookup
      exact h.rejects_revoke (h.back _ _ hkey)
  | noKey hkey =>
      intro channel hget
      cases hkey.symm.trans (RoomKeysType.getChannel_eq_ok.mp hget)
  | _ => trivial

/-- The old key of a channel that is given a new one is left in the table. -/
theorem Paired.noReset_of_oneKey (h : Paired isKey s) (hapart : e.Apart isKey) (hstep : step s e = some t)
    (hone : OneKey isKey t) : NoReset s e := by
  cases does_of_step hstep with
  | @setKey channel key draws hdraw hkey hset =>
      show s.lookup channel = none
      by_contra hsome
      obtain ⟨old, hold⟩ := Option.ne_none_iff_exists'.mp hsome
      have hback := h.back _ _ hold
      have hne : old ≠ key := by
        rintro rfl
        rw [hkey] at hback
        cases hback
      have hne' : old ≠ channel := by
        rintro rfl
        have := h.roles _ _ hold
        tauto
      refine hne (hone.unique channel old key hapart.1 ?_ ?_) <;> refine RoomKeysType.getChannel_eq_ok.mpr ?_
      · exact (lookup_issue channel key old s).trans ((if_neg hne).trans ((if_neg hne').trans hback))
      · exact (lookup_issue channel key key s).trans (if_pos rfl)
  | _ => trivial

theorem paired_init : Paired isKey {} := by
  have hempty : ∀ x y, lookup {} x ≠ some y := fun x y h => by cases h
  refine ⟨fun x y h => absurd h (hempty x y), fun x y h => absurd h (hempty x y),
    fun key channel _ h => absurd h (hempty key channel), fun key channel h => ?_⟩
  cases h

/-- Every call leaves each channel with one key at most and revokes what it resets or deletes, if and only if no key is
set for a channel that has one. -/
theorem one_key_iff {es : List Op} (hrun : run step es {} = some s) (hapart : ∀ e ∈ es, e.Apart isKey) :
    Along step (fun s e => ∀ t, step s e = some t → OneKey isKey t ∧ Revokes s e t) es {} ↔
      Along step NoReset es {} := by
  refine along_iff (I := Paired isKey) (fun s e t h hapart hstep => ?_)
    (fun s e t h hapart hreset hstep => paired_step h hapart hreset hstep) paired_init hapart hrun
  constructor
  · exact fun hgood => h.noReset_of_oneKey hapart hstep (hgood t hstep).1
  · exact fun hreset u hu => ⟨(paired_step h hapart hreset hu).oneKey, h.revokes hapart hreset hu⟩

/-- A channel gets a key, is deleted, and gets another. -/
def sampleCalls : List Op :=
  [.setKey (lit "movie") [drawn 'k'], .deleteChannel (lit "movie"), .getKey (lit "movie") [drawn 'l']]

theorem one_key_iff_sample :
    Along step (fun s e => ∀ t, step s e = some t → OneKey (fun x => x.length = 48) t ∧ Revokes s e t) sampleCalls {} ↔
      Along step NoReset sampleCalls {} := by
  have h : ∃ s, run step sampleCalls {} = some s := ⟨_, rfl⟩
  obtain ⟨s, hrun⟩ := h
  apply one_key_iff hrun
  have hmovie : (lit "movie").length ≠ 48 := by decide
  simp [sampleCalls, Op.Apart, drawn, hmovie]

/-- A key that has been reset still leads to its channel, also after the channel has been deleted. -/
theorem reset_key_is_accepted :
    ∃ s t, run step [.setKey (lit "movie") [drawn 'k'], .setKey (lit "movie") [drawn 'l']] {} = some s ∧
      step s (.deleteChannel (lit "movie")) = some t ∧ s.keys.getChannel (drawn 'k') = .ok (lit "movie") ∧
      s.keys.getChannel (drawn 'l') = .ok (lit "movie") ∧ t.keys.getChannel (drawn 'k') = .ok (lit "movie") :=
  ⟨_, _, rfl, rfl, rfl, rfl, rfl⟩

end KeyService

end Livego
