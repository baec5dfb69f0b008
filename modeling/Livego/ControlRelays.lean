import Livego.AmfReader
import Livego.Machine
import Livego.SyncMap

/-! The relays that the control interface starts and stops. A session leads from the key of a request to the relay that
was started for it. -/

namespace Livego

open Machine

structure RtmpRelay where
  playUrl : Bytes
  publishUrl : Bytes
  startflag : Bool := false
  deriving DecidableEq

namespace RtmpRelay

/-- `Start`, where this is the error, if any, of the two connections. -/
def start (connect : Option GoError) (relay : RtmpRelay) : Except GoError RtmpRelay :=
  if relay.startflag then
    .error (.errorf s!"The rtmprelay already started, playurl={quote relay.playUrl}, publishurl={quote relay.publishUrl}\n")
  else
    match connect with
    | some err => .error err
    | none => .ok { relay with startflag := true }

def stop (relay : RtmpRelay) : RtmpRelay := { relay with startflag := false }

end RtmpRelay

namespace Api

/-- The server, with all relays that requests have made and the keys of these requests; the session has their numbers. -/
structure Server where
  session : SyncMap Bytes Nat := ∅
  rtmpAddr : Bytes := []
  relays : List (Bytes × RtmpRelay) := []
  deriving DecidableEq

structure Response where
  status : Nat := 200
  data : Option Bytes := none
  deriving DecidableEq

/-- A request, whose form may fail to parse, and the error that connecting a relay for it would give. -/
structure Request where
  parsed : Bool := true
  oper : Bytes := []
  app : Bytes := []
  name : Bytes := []
  url : Bytes := []
  connect : Option GoError := none

/-- What tells `handlePull` and `handlePush` apart: the key, who plays and who publishes, the texts, and the status when a
relay has not been started. -/
structure Control where
  kind : Bytes
  relay : Bytes → Bytes → RtmpRelay
  status : Nat
  usage : Bytes
  missing : Bytes → Bytes
  started : Bytes → Bytes

namespace Control

def handlePull : Control where
  kind := lit "pull:"
  relay url server := { playUrl := url, publishUrl := server }
  status := 400
  usage := lit "url: /control/pull?&oper=start&app=live&name=123456&url=rtmp://192.168.16.136/live/123456"
  missing key := lit "session key[" ++ key ++ lit "] not exist, please check it again."
  started url := lit "<h1>pull url start " ++ url ++ lit " ok</h1></br>"

def handlePush : Control where
  kind := lit "push:"
  relay url server := { playUrl := server, publishUrl := url }
  status := 200
  usage := lit "url: /control/push?&oper=start&app=live&name=123456&url=rtmp://192.168.16.136/live/123456"
  missing key := lit "<h1>session key[" ++ key ++ lit "] not exist, please check it again.</h1>"
  started url := lit "<h1>push url start " ++ url ++ lit " ok</h1></br>"

def key (c : Control) (req : Request) : Bytes := c.kind ++ req.app ++ lit "/" ++ req.name

def serverUrl (req : Request) (s : Server) : Bytes :=
  lit "rtmp://127.0.0.1" ++ s.rtmpAddr ++ lit "/" ++ req.app ++ lit "/" ++ req.name

def stop (c : Control) (req : Request) (s : Server) : Response × Server :=
  match s.session.lookup (c.key req) with
  | none => ({ status := c.status, data := some (c.missing (c.key req)) }, s)
  | some i =>
    ({ status := c.status, data := some (lit "<h1>push url stop " ++ req.url ++ lit " ok</h1></br>") },
      { s with relays := s.relays.modify i fun x => (x.1, x.2.stop), session := s.session.erase (c.key req) })

def start (c : Control) (req : Request) (s : Server) : Response × Server :=
  let relay := c.relay req.url (serverUrl req s)
  match relay.start req.connect with
  | .error err =>
    ({ status := c.status, data := some (lit "push error=" ++ lit err.text) },
      { s with relays := s.relays ++ [(c.key req, relay)] })
  | .ok relay =>
    ({ data := some (c.started req.url) },
      { s with relays := s.relays ++ [(c.key req, relay)], session := s.session.insert (c.key req) s.relays.length })

def handle (c : Control) (req : Request) (s : Server) : Response × Server :=
  if ¬req.parsed then ({ status := c.status, data := some c.usage }, s)
  else if req.app.length ≤ 0 ∨ req.name.length ≤ 0 ∨ req.url.length ≤ 0 then
    ({ status := c.status, data := some (lit "control push parameter error, please check them.") }, s)
  else if req.oper = lit "stop" then c.stop req s
  else c.start req s

end Control

namespace Server

/-- A request to pull or to push. -/
inductive Event where
  | pull (req : Request)
  | push (req : Request)

def Event.control : Event → Control
  | .pull _ => .handlePull
  | .push _ => .handlePush

def Event.request : Event → Request
  | .pull req => req
  | .push req => req

def step (s : Server) (e : Event) : Option Server := some (e.control.handle e.request s).2

/-- The relay was started and has not been stopped. -/
def Running (s : Server) (i : Nat) (key : Bytes) : Prop := ∃ relay, s.relays[i]? = some (key, relay) ∧ relay.startflag = true

/-- A request that asks for a stop. -/
def Event.Stops (e : Event) : Prop :=
  e.request.parsed = true ∧ e.request.oper = lit "stop" ∧ 0 < e.request.app.length ∧ 0 < e.request.name.length ∧
    0 < e.request.url.length

/-- A request that starts a relay. -/
def Event.Starts (e : Event) : Prop :=
  e.request.parsed = true ∧ e.request.oper ≠ lit "stop" ∧ 0 < e.request.app.length ∧ 0 < e.request.name.length ∧
    0 < e.request.url.length ∧ e.request.connect = none

/-- Every relay that runs is the one under its key, and a request to stop that key stops it. -/
structure Controlled (s : Server) : Prop where
  registered : ∀ i key, s.Running i key → s.session.lookup key = some i
  stoppable : ∀ i e, s.Running i (e.control.key e.request) → e.Stops →
    ∀ t, step s e = some t → ¬t.Running i (e.control.key e.request)

/-- What the session has under a key is a relay that was started under it and runs. -/
def Sound (s : Server) : Prop := ∀ key i, s.session.lookup key = some i → s.Running i key

def Registered (s : Server) : Prop := ∀ i key, s.Running i key → s.session.lookup key = some i

/-- No relay is started under a key that the session has. -/
def Fresh (s : Server) (e : Event) : Prop := e.Starts → e.control.key e.request ∉ s.session

instance (e : Event) : Decidable e.Starts := inferInstanceAs (Decidable (_ ∧ _))

instance (s : Server) (e : Event) : Decidable (Fresh s e) := inferInstanceAs (Decidable (_ → _))

variable {s t : Server} {e : Event} {i j : Nat} {key : Bytes}

theorem Running.lt (h : s.Running i key) : i < s.relays.length := by
  obtain ⟨relay, hrelay, -⟩ := h
  exact (List.getElem?_eq_some_iff.mp hrelay).1

theorem Running.key_unique {key' : Bytes} (h : s.Running i key) (h' : s.Running i key') : key = key' := by
  obtain ⟨relay, hrelay, -⟩ := h
  obtain ⟨relay', hrelay', -⟩ := h'
  rw [hrelay] at hrelay'
  cases hrelay'
  rfl

/-- The relays after one has been made. -/
theorem running_append {x : Bytes × RtmpRelay} (ht : t.relays = s.relays ++ [x]) :
    t.Running i key ↔ s.Running i key ∨ i = s.relays.length ∧ x.1 = key ∧ x.2.startflag = true := by
  unfold Running
  rw [ht]
  rcases Nat.lt_trichotomy i s.relays.length with hlt | rfl | hgt
  · rw [List.getElem?_append_left hlt]
    simp [Nat.ne_of_lt hlt]
  · simp [Prod.ext_iff, and_assoc]
  · have hnone : (s.relays ++ [x])[i]? = none := by
      rw [List.getElem?_eq_none_iff, List.length_append, List.length_singleton]
      exact hgt
    have hnone' : s.relays[i]? = none := List.getElem?_eq_none_iff.mpr (Nat.le_of_lt hgt)
    simp [hnone, hnone', Nat.ne_of_gt hgt]

/-- The relays after one has been stopped. -/
theorem running_stop (ht : t.relays = s.relays.modify j fun x => (x.1, x.2.stop)) :
    t.Running i key ↔ i ≠ j ∧ s.Running i key := by
  unfold Running
  rw [ht, List.getElem?_modify]
  by_cases hij : j = i
  · subst hij
    simp [RtmpRelay.stop]
  · simp [hij, Ne.symm hij]

/-- What a request does: nothing to the session and to the relays that run, or a stop, or a start. -/
inductive Does (s : Server) (e : Event) (t : Server) : Prop where
  | nothing (hstarts : ¬e.Starts) (hstops : e.Stops → e.control.key e.request ∉ s.session)
      (hsession : t.session = s.session) (hrunning : ∀ i key, t.Running i key ↔ s.Running i key)
  | stops (i : Nat) (hstarts : ¬e.Starts) (hi : s.session.lookup (e.control.key e.request) = some i)
      (hsession : t.session = s.session.erase (e.control.key e.request))
      (hrelays : t.relays = s.relays.modify i fun x => (x.1, x.2.stop))
  | starts (hstarts : e.Starts) (hstops : ¬e.Stops)
      (hsession : t.session = s.session.insert (e.control.key e.request) s.relays.length)
      (hrunning : ∀ i key, t.Running i key ↔ s.Running i key ∨ i = s.relays.length ∧ e.control.key e.request = key)

theorem startflag_relay (e : Event) (url server : Bytes) : (e.control.relay url server).startflag = false := by
  cases e <;> rfl

theorem does_of_step (h : step s e = some t) : Does s e t := by
  cases h
  unfold Control.handle
  split_ifs with hparsed hempty hoper
  · exact .nothing (fun hs => by unfold Event.Starts at hs; omega) (fun hs => by unfold Event.Stops at hs; omega) rfl
      fun _ _ => Iff.rfl
  · have hstarts : ¬e.Starts := fun hs => hs.2.1 hoper
    unfold Control.stop
    split
    · next hnone => exact .nothing hstarts (fun _ => Finmap.lookup_eq_none.mp hnone) rfl fun _ _ => Iff.rfl
    · next i hi => exact .stops i hstarts hi rfl rfl
  · have hstops : ¬e.Stops := fun hs => hoper hs.2.1
    have hflag := startflag_relay e e.request.url (Control.serverUrl e.request s)
    cases hconnect : e.request.connect with
    | some err =>
        have hstart : (e.control.relay e.request.url (Control.serverUrl e.request s)).start e.request.connect =
            .error err := by
          simp [RtmpRelay.start, hflag, hconnect]
        simp only [Control.start, hstart]
        refine .nothing (fun hs => ?_) (fun hs => absurd hs hstops) rfl fun i key => ?_
        · exact absurd (hconnect.symm.trans hs.2.2.2.2.2) nofun
        · rw [running_append rfl]
          simp [hflag]
    | none =>
        have hstart : (e.control.relay e.request.url (Control.serverUrl e.request s)).start e.request.connect =
            .ok { e.control.relay e.request.url (Control.serverUrl e.request s) with startflag := true } := by
          simp [RtmpRelay.start, hflag, hconnect]
        simp only [Control.start, hstart]
        refine .starts ?_ hstops rfl fun i key => ?_
        · exact ⟨hparsed, hoper, by omega, by omega, by omega, hconnect⟩
        · rw [running_append rfl]
          simp
  · exact .nothing (fun hs => hparsed hs.1) (fun hs => absurd hs.1 hparsed) rfl fun _ _ => Iff.rfl

theorem sound_step (h : Sound s) (hstep : step s e = some t) : Sound t := by
  intro key i hi
  cases does_of_step hstep with
  | nothing _ _ hsession hrunning => exact (hrunning i key).mpr (h key i (hsession ▸ hi))
  | stops j _ hj hsession hrelays =>
      rw [hsession, SyncMap.lookup_erase_eq] at hi
      split_ifs at hi with hkey
      refine (running_stop hrelays).mpr ⟨fun hij => hkey ?_, h key i hi⟩
      exact (h key i hi).key_unique (hij ▸ h _ j hj)
  | starts _ _ hsession hrunning =>
      rw [hsession, SyncMap.lookup_insert_eq] at hi
      rw [hrunning]
      split_ifs at hi with hkey
      · cases hi
        exact Or.inr ⟨rfl, hkey.symm⟩
      · exact Or.inl (h key i hi)

theorem registered_step (hs : Sound s) (h : Registered s) (hstep : step s e = some t) : Registered t ↔ Fresh s e := by
  cases does_of_step hstep with
  | nothing hstarts _ hsession hrunning =>
      refine ⟨fun _ hs => absurd hs hstarts, fun _ i key hi => ?_⟩
      rw [hsession]
      exact h i key ((hrunning i key).mp hi)
  | stops j hstarts hj hsession hrelays =>
      refine ⟨fun _ hs => absurd hs hstarts, fun _ i key hi => ?_⟩
      obtain ⟨hij, hi⟩ := (running_stop hrelays).mp hi
      have hlookup := h i key hi
      rw [hsession, SyncMap.lookup_erase_eq, if_neg, hlookup]
      rintro rfl
      rw [hj] at hlookup
      exact hij (Option.some.inj hlookup).symm
  | starts hstarts _ hsession hrunning =>
      constructor
      · intro ht _ hmem
        obtain ⟨j, hj⟩ := Finmap.mem_iff.mp hmem
        have hold := hs _ j hj
        have hlookup := ht j _ ((hrunning j _).mpr (Or.inl hold))
        rw [hsession, SyncMap.lookup_insert_eq, if_pos rfl] at hlookup
        exact absurd (Option.some.inj hlookup) (Nat.ne_of_gt hold.lt)
      · intro hfresh i key hi
        rw [hsession, SyncMap.lookup_insert_eq]
        rcases (hrunning i key).mp hi with hi | ⟨rfl, hkey⟩
        · rw [if_neg, h i key hi]
          rintro rfl
          exact hfresh hstarts (Finmap.mem_iff.mpr ⟨i, h i _ hi⟩)
        · rw [if_pos hkey.symm]

/-- A relay that is registered can be stopped. -/
theorem controlled_iff : Controlled s ↔ Registered s := by
  refine ⟨Controlled.registered, fun h => ⟨h, fun i e hi hstops t hstep ht => ?_⟩⟩
  have hlookup := h i _ hi
  cases does_of_step hstep with
  | nothing _ hnone _ _ => exact hnone hstops (Finmap.mem_iff.mpr ⟨i, hlookup⟩)
  | stops j _ hj _ hrelays =>
      rw [hj] at hlookup
      exact ((running_stop hrelays).mp ht).1 (Option.some.inj hlookup).symm
  | starts _ hnot _ _ => exact hnot hstops

/-- After every request all relays that run can be stopped, if and only if none is started under a key in use. -/
theorem controlled_iff_fresh {es : List Event} (rtmpAddr : Bytes) (hrun : run step es { rtmpAddr } = some t) :
    Along step (fun s e => ∀ u, step s e = some u → Controlled u) es { rtmpAddr } ↔ Along step Fresh es { rtmpAddr } := by
  have hinit : Sound { rtmpAddr } := fun key i h => by simp at h
  have hnone : Registered { rtmpAddr } := fun i key h => absurd h.lt (Nat.not_lt_zero i)
  refine along_iff (I := fun s => Sound s ∧ Registered s) (E := fun _ => True) ?_ ?_ ⟨hinit, hnone⟩
    (fun _ _ => trivial) hrun
  · intro s e t ⟨hs, hr⟩ _ hstep
    rw [← registered_step hs hr hstep, ← controlled_iff]
    constructor
    · intro hall
      exact hall t hstep
    · intro ht u hu
      cases hu.symm.trans hstep
      exact ht
  · intro s e t ⟨hs, hr⟩ _ hfresh hstep
    exact ⟨sound_step hs hstep, (registered_step hs hr hstep).mpr hfresh⟩

/-- A request for the stream a of the application live. -/
def sampleRequest (oper : String) : Request :=
  { oper := lit oper, app := lit "live", name := lit "a", url := lit "rtmp://h/live/a" }

def sampleRelay : RtmpRelay :=
  { playUrl := lit "rtmp://h/live/a", publishUrl := lit "rtmp://127.0.0.1/live/a", startflag := true }

theorem controlled_in_turn : Along step (fun s e => ∀ u, step s e = some u → Controlled u)
    [.pull (sampleRequest "start"), .push (sampleRequest "start"), .pull (sampleRequest "stop")] {} :=
  (controlled_iff_fresh [] rfl).mpr (by decide +kernel)

/-- The same start twice, and a stop: the first relay runs on, and nobody finds it. -/
theorem relay_out_of_reach : ∃ s, run step [.pull (sampleRequest "start"), .pull (sampleRequest "start"),
      .pull (sampleRequest "stop")] {} = some s ∧ s.Running 0 (lit "pull:live/a") ∧ s.session = ∅ ∧ ¬Controlled s := by
  refine ⟨{ relays := [(lit "pull:live/a", sampleRelay), (lit "pull:live/a", sampleRelay.stop)] }, by decide +kernel,
    ⟨sampleRelay, rfl, rfl⟩, rfl, fun h => ?_⟩
  exact nomatch h.registered 0 (lit "pull:live/a") ⟨sampleRelay, rfl, rfl⟩

end Server

end Api

end Livego
