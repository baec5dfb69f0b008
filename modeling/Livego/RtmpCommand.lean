import Livego.Each
import Livego.RtmpConnServer

/-! Which commands of a client stop the server: where the handler of commands, and the key of a stream, panic. -/

namespace Livego

open Fallible Call Outcome

namespace ConnServer

open Amf (Value)

/-- The properties of `connect` have the types that they are asserted to have. -/
structure WellTyped (obimap : Amf.Object) : Prop where
  app : ∀ v, obimap.lookup (lit "app") = some v → ∃ s, v = .string s
  flashVer : ∀ v, obimap.lookup (lit "flashVer") = some v → ∃ s, v = .string s
  tcUrl : ∀ v, obimap.lookup (lit "tcUrl") = some v → ∃ s, v = .string s
  objectEncoding : ∀ v, obimap.lookup (lit "objectEncoding") = some v → ∃ bits, v = .number bits

/-- Every object that `connect` comes to, before a number that it refuses, is well typed. -/
def Connectable (vs : List Value) : Prop :=
  ∀ front obimap back, vs = front ++ .object obimap :: back →
    (∀ bits, .number bits ∈ front → Float64.toInt bits = 1) → WellTyped obimap

/-- A text whose path can be read. -/
def IsUrl (url : Bytes) : Prop := ∃ path p, Url.Locates url path ∧ Url.Spells path p

variable {s : ConnServer} {reply : ConnServer → Option GoError}

theorem stringProperty_cases (obimap : Amf.Object) (name : String) (set : Bytes → ConnServer → ConnServer)
    (s : ConnServer) :
    (∃ t, stringProperty obimap name set s = .ok () t) ∧ (∀ v, obimap.lookup (lit name) = some v → ∃ s, v = .string s) ∨
      (stringProperty obimap name set s).Panics ∧ ∃ v, obimap.lookup (lit name) = some v ∧ ∀ s, v ≠ .string s := by
  unfold stringProperty
  cases hv : obimap.lookup (lit name) with
  | none => exact Or.inl ⟨⟨s, rfl⟩, fun _ h => by cases h⟩
  | some v =>
      cases v with
      | string str =>
          refine Or.inl ⟨⟨set str s, rfl⟩, fun v h => ?_⟩
          cases h
          exact ⟨str, rfl⟩
      | _ => exact Or.inr ⟨trivial, _, rfl, fun _ h => by cases h⟩

theorem numberProperty_cases (obimap : Amf.Object) (name : String) (set : UInt64 → ConnServer → ConnServer)
    (s : ConnServer) :
    (∃ t, numberProperty obimap name set s = .ok () t) ∧
        (∀ v, obimap.lookup (lit name) = some v → ∃ bits, v = .number bits) ∨
      (numberProperty obimap name set s).Panics ∧
        ∃ v, obimap.lookup (lit name) = some v ∧ ∀ bits, v ≠ .number bits := by
  unfold numberProperty
  cases hv : obimap.lookup (lit name) with
  | none => exact Or.inl ⟨⟨s, rfl⟩, fun _ h => by cases h⟩
  | some v =>
      cases v with
      | number bits =>
          refine Or.inl ⟨⟨set bits s, rfl⟩, fun v h => ?_⟩
          cases h
          exact ⟨bits, rfl⟩
      | _ => exact Or.inr ⟨trivial, _, rfl, fun _ h => by cases h⟩

/-- The object of `connect` is taken over if it is well typed, and stops the server else. -/
theorem connectValue_object (obimap : Amf.Object) (s : ConnServer) :
    (∃ t, connectValue (.object obimap) s = .ok () t) ∧ WellTyped obimap ∨
      (connectValue (.object obimap) s).Panics ∧ ¬ WellTyped obimap := by
  rw [connectValue]
  rcases stringProperty_cases obimap "app" _ s with ⟨⟨s₁, h₁⟩, happ⟩ | ⟨hp, v, hv, hne⟩
  · rw [bind_of_ok h₁]
    rcases stringProperty_cases obimap "flashVer" _ s₁ with ⟨⟨s₂, h₂⟩, hflashVer⟩ | ⟨hp, v, hv, hne⟩
    · rw [bind_of_ok h₂]
      rcases stringProperty_cases obimap "tcUrl" _ s₂ with ⟨⟨s₃, h₃⟩, htcUrl⟩ | ⟨hp, v, hv, hne⟩
      · rw [bind_of_ok h₃]
        rcases numberProperty_cases obimap "objectEncoding" _ s₃ with ⟨⟨s₄, h₄⟩, hencoding⟩ | ⟨hp, v, hv, hne⟩
        · exact Or.inl ⟨⟨s₄, h₄⟩, happ, hflashVer, htcUrl, hencoding⟩
        · refine Or.inr ⟨hp, fun h => ?_⟩
          obtain ⟨bits, hbits⟩ := h.objectEncoding v hv
          exact hne bits hbits
      · refine Or.inr ⟨panics_bind.mpr (Or.inl hp), fun h => ?_⟩
        obtain ⟨str, hstr⟩ := h.tcUrl v hv
        exact hne str hstr
    · refine Or.inr ⟨panics_bind.mpr (Or.inl hp), fun h => ?_⟩
      obtain ⟨str, hstr⟩ := h.flashVer v hv
      exact hne str hstr
  · refine Or.inr ⟨panics_bind.mpr (Or.inl hp), fun h => ?_⟩
    obtain ⟨str, hstr⟩ := h.app v hv
    exact hne str hstr

/-- A value other than an object does not stop the server, and ends `connect` if it is a number other than 1. -/
theorem connectValue_other {v : Value} (hv : ∀ obimap, v ≠ .object obimap) (s : ConnServer) :
    (∃ t, connectValue v s = .ok () t) ∧ (∀ bits, v = .number bits → Float64.toInt bits = 1) ∨
      (∃ t, connectValue v s = .err errReq t) ∧ ∃ bits, v = .number bits ∧ Float64.toInt bits ≠ 1 := by
  cases v with
  | number bits =>
      by_cases hone : Float64.toInt bits = 1
      · refine Or.inl ⟨⟨{ s with transactionID := Float64.toInt bits }, ?_⟩, fun _ h => ?_⟩
        · simp only [connectValue, hone, ne_eq, not_true, if_false]
          rfl
        · cases h
          exact hone
      · refine Or.inr ⟨⟨s, ?_⟩, bits, rfl, hone⟩
        simp only [connectValue, ne_eq, hone, not_false_eq_true, if_true]
        rfl
  | object obimap => exact absurd rfl (hv obimap)
  | _ => exact Or.inl ⟨⟨s, rfl⟩, fun _ h => by cases h⟩

theorem connectable_cons_object {obimap : Amf.Object} {vs : List Value} :
    Connectable (.object obimap :: vs) ↔ WellTyped obimap ∧ Connectable vs := by
  constructor
  · intro h
    refine ⟨h [] obimap vs rfl fun _ hb => absurd hb List.not_mem_nil, fun front obimap' back hvs hfront => ?_⟩
    refine h (.object obimap :: front) obimap' back (by rw [hvs]; rfl) fun bits hbits => ?_
    rcases List.mem_cons.mp hbits with heq | hbits
    · cases heq
    · exact hfront bits hbits
  · rintro ⟨hobimap, h⟩ front obimap' back hvs hfront
    cases front with
    | nil =>
        cases hvs
        exact hobimap
    | cons v front =>
        cases hvs
        exact h front obimap' back rfl fun bits hbits => hfront bits (List.mem_cons_of_mem _ hbits)

theorem connectable_cons_other {v : Value} (hv : ∀ obimap, v ≠ .object obimap) {vs : List Value} :
    Connectable (v :: vs) ↔ (∀ bits, v = .number bits → Float64.toInt bits = 1) → Connectable vs := by
  constructor
  · intro h haccepted front obimap back hvs hfront
    refine h (v :: front) obimap back (by rw [hvs]; rfl) fun bits hbits => ?_
    rcases List.mem_cons.mp hbits with heq | hbits
    · exact haccepted bits heq.symm
    · exact hfront bits hbits
  · intro h front obimap back hvs hfront
    cases front with
    | nil =>
        cases hvs
        exact absurd rfl (hv obimap)
    | cons u front =>
        cases hvs
        refine h (fun bits heq => hfront bits (heq ▸ List.mem_cons_self)) front obimap back rfl fun bits hbits => ?_
        exact hfront bits (List.mem_cons_of_mem _ hbits)

theorem panics_connect {vs : List Value} {s : ConnServer} : (connect vs s).Panics ↔ ¬ Connectable vs := by
  unfold connect
  show (forM vs connectValue s).Panics ↔ _
  induction vs generalizing s with
  | nil =>
      rw [forM_apply_nil]
      refine iff_of_false id (not_not.mpr fun front obimap back hvs => ?_)
      cases front <;> cases hvs
  | cons v vs ih =>
      rw [forM_apply_cons]
      by_cases hobject : ∃ obimap, v = .object obimap
      · obtain ⟨obimap, rfl⟩ := hobject
        rw [connectable_cons_object]
        rcases connectValue_object obimap s with ⟨⟨t, ht⟩, hwell⟩ | ⟨hp, hill⟩
        · rw [ht]
          simp only [ih, hwell, true_and]
        · refine iff_of_true ?_ fun h => hill h.1
          obtain ⟨p, hv⟩ := Outcome.panics_iff.mp hp
          rw [hv]
          trivial
      · have hv : ∀ obimap, v ≠ .object obimap := fun obimap heq => hobject ⟨obimap, heq⟩
        rw [connectable_cons_other hv]
        rcases connectValue_other hv s with ⟨⟨t, ht⟩, haccepted⟩ | ⟨⟨t, ht⟩, bits, hbits, hone⟩
        · rw [ht]
          simp only [ih]
          exact not_congr ⟨fun h _ => h, fun h => h haccepted⟩
        · rw [ht]
          exact iff_of_false id (not_not.mpr fun h => absurd (h bits hbits) hone)

theorem quiet_resp : Quiet (resp reply) := by
  intro s
  unfold resp
  split <;> exact id

theorem quiet_createStream (vs : List Value) : Quiet (createStream vs) := by
  refine quiet_forM fun v _ => ?_
  cases v with
  | number bits => exact fun _ => id
  | _ => exact .pure ()

theorem quiet_publishOrPlay (vs : List Value) : Quiet (publishOrPlay vs) := by
  refine quiet_forM fun vk _ => ?_
  obtain ⟨v, k⟩ := vk
  cases v with
  | string str => exact .ite (fun _ => id) (.ite (fun _ => id) (.pure ()))
  | number bits => exact fun _ => id
  | _ => exact .pure ()

/-- Only `connect` can stop the server. -/
theorem quiet_command {v : Value} (hv : v ≠ .string (lit "connect")) (rest : List Value) :
    Quiet (command reply (v :: rest)) := by
  cases v with
  | string cmd =>
      have hconnect : cmd ≠ lit "connect" := fun heq => hv (congrArg Value.string heq)
      unfold command
      dsimp only
      rw [if_neg hconnect]
      refine .ite ?_ (.ite ?_ (.ite ?_ (.pure ())))
      · exact (quiet_createStream rest).bind fun _ => quiet_resp
      · exact (quiet_publishOrPlay rest).bind fun _ => quiet_resp.bind fun _ _ => id
      · exact (quiet_publishOrPlay rest).bind fun _ => quiet_resp.bind fun _ _ => id
  | _ => exact .pure ()

theorem panics_command {vs : List Value} :
    (command reply vs s).Panics ↔ vs = [] ∨ ∃ rest, vs = .string (lit "connect") :: rest ∧ ¬ Connectable rest := by
  cases vs with
  | nil => exact iff_of_true trivial (Or.inl rfl)
  | cons v rest =>
      by_cases hv : v = .string (lit "connect")
      · subst hv
        unfold command
        dsimp only
        rw [if_pos rfl, panics_bind, panics_connect]
        constructor
        · rintro (hp | ⟨_, t, _, hp⟩)
          · exact Or.inr ⟨rest, rfl, hp⟩
          · exact absurd hp (quiet_resp t)
        · rintro (h | ⟨rest', heq, hp⟩)
          · cases h
          · cases heq
            exact Or.inl hp
      · apply iff_of_false (quiet_command hv rest s)
        rintro (h | ⟨rest', heq, -⟩)
        · cases h
        · cases heq
          exact hv rfl

/-- The decoding of a message. -/
def decoding (c : ChunkStream) (s : ConnServer) : Amf.Decoding :=
  { decoder := s.decoder,
    r := { kind := .bytesReader, unread := if c.typeID = 17 then c.data.tail else c.data } }

/-- A message marked as AMF3 has a byte to be skipped, and a message that decodes without an error has values that no
assertion fails on. -/
structure Harmless (c : ChunkStream) (s : ConnServer) : Prop where
  marked : c.typeID = 17 → c.data ≠ []
  values : ∀ vs d, Amf.decodeBatch 0 (decoding c s) = .ok (vs, .eof) d →
    vs ≠ [] ∧ ∀ rest, vs = .string (lit "connect") :: rest → Connectable rest

theorem skipMarker_cases (c : ChunkStream) (s : ConnServer) :
    skipMarker c s = .ok (decoding c s).r.unread s ∧ (c.typeID = 17 → c.data ≠ []) ∨
      (skipMarker c s).Panics ∧ c.typeID = 17 ∧ c.data = [] := by
  unfold skipMarker decoding
  by_cases h17 : c.typeID = 17
  · simp only [h17, if_true]
    cases hdata : c.data with
    | nil => exact Or.inr ⟨trivial, trivial, rfl⟩
    | cons b data => exact Or.inl ⟨rfl, fun _ h => by cases h⟩
  · simp only [h17, if_false]
    exact Or.inl ⟨rfl, fun h => absurd h id⟩

theorem panics_handleCmdMsg {c : ChunkStream} {vs : List Value} {err : GoError} {d : Amf.Decoding}
    (hdecode : Amf.decodeBatch 0 (decoding c s) = .ok (vs, err) d) :
    (handleCmdMsg reply c s).Panics ↔ ¬ Harmless c s := by
  have hbatch : decodeBatch (decoding c s).r.unread s = .ok (vs, err) { s with decoder := d.decoder } := by
    have heq : ({ decoder := s.decoder, r := { kind := .bytesReader, unread := (decoding c s).r.unread } } :
        Amf.Decoding) = decoding c s := rfl
    unfold decodeBatch
    rw [heq, hdecode]
  unfold handleCmdMsg
  rcases skipMarker_cases c s with ⟨hskip, hmarked⟩ | ⟨hp, h17, hempty⟩
  · rw [bind_of_ok hskip, bind_of_ok hbatch]
    dsimp only
    split_ifs with herr
    · refine iff_of_false id (not_not.mpr ⟨hmarked, fun vs' d' hdecode' => ?_⟩)
      rw [hdecode] at hdecode'
      cases hdecode'
      exact absurd rfl herr
    · rw [ne_eq, not_not] at herr
      subst herr
      rw [panics_command]
      constructor
      · rintro (hnil | ⟨rest, hvs, hp⟩) h
        · exact (h.values vs d hdecode).1 hnil
        · exact hp ((h.values vs d hdecode).2 rest hvs)
      · intro h
        by_contra hnone
        push Not at hnone
        refine h ⟨hmarked, fun vs' d' hdecode' => ?_⟩
        rw [hdecode] at hdecode'
        cases hdecode'
        exact hnone
  · exact iff_of_true (panics_bind.mpr (Or.inl hp)) fun h => h.marked h17 hempty

theorem panics_info {uid : Bytes} {inter : Bool} :
    (info uid inter s).Panics ↔ ¬ IsUrl (s.connInfo.tcUrl ++ slash :: s.publishInfo.name) := by
  have hparse : IsUrl (s.connInfo.tcUrl ++ slash :: s.publishInfo.name) ↔
      ∃ u, Url.parse (s.connInfo.tcUrl ++ slash :: s.publishInfo.name) = some u := by
    constructor
    · rintro ⟨path, p, hurl⟩
      obtain ⟨u, hu, -⟩ := Url.parse_iff.mpr ⟨path, hurl⟩
      exact ⟨u, hu⟩
    · rintro ⟨u, hu⟩
      obtain ⟨path, hurl⟩ := Url.parse_iff.mp ⟨u, hu, rfl⟩
      exact ⟨path, u.path, hurl⟩
  rw [hparse]
  unfold info getInfo
  dsimp only
  cases Url.parse (s.connInfo.tcUrl ++ slash :: s.publishInfo.name) with
  | none => exact iff_of_true trivial fun ⟨u, hu⟩ => by cases hu
  | some u => exact iff_of_false id (not_not.mpr ⟨u, rfl⟩)

/-- A command whose decoding completes stops the server neither when it is handled nor when the stream is asked for its
key, if and only if no assertion fails on its values and what it leaves in `TcUrl` and the name is a URL. -/
theorem handler_never_panics_iff {c : ChunkStream}
    (hdecode : ∃ vs err d, Amf.decodeBatch 0 (decoding c s) = .ok (vs, err) d) :
    (¬ (handleCmdMsg reply c s).Panics ∧
        ∀ t, handleCmdMsg reply c s = .ok () t → ∀ uid inter, ¬ (info uid inter t).Panics) ↔
      Harmless c s ∧
        ∀ t, handleCmdMsg reply c s = .ok () t → IsUrl (t.connInfo.tcUrl ++ slash :: t.publishInfo.name) := by
  obtain ⟨vs, err, d, hdecode⟩ := hdecode
  rw [panics_handleCmdMsg hdecode, not_not]
  simp only [panics_info, not_not, forall_const]

/-- `connect` with `app`, as bytes of AMF0. -/
def connectMsg (app : Bytes) : ChunkStream :=
  { typeID := 20, data := [2, 0, 7] ++ lit "connect" ++ [0, 63, 240, 0, 0, 0, 0, 0, 0, 3, 0, 3] ++ lit "app" ++ app ++
      [0, 0, 9] }

/-- An empty message, a message that is marked as AMF3 and empty, `connect` with `app` null, and a `TcUrl` with a broken
escape. -/
theorem handler_panics :
    (handleCmdMsg (fun _ => none) { typeID := 20 } {}).Panics ∧
      (handleCmdMsg (fun _ => none) { typeID := 17 } {}).Panics ∧
      (∃ vs d, Amf.decodeBatch 0 (decoding (connectMsg [5]) {}) = .ok (vs, .eof) d ∧ vs.length = 3) ∧
      (handleCmdMsg (fun _ => none) (connectMsg [5]) {}).Panics ∧
      (info [] true { connInfo := { tcUrl := lit "rtmp://host/%" } }).Panics :=
  ⟨trivial, trivial, ⟨_, _, rfl, rfl⟩, trivial, trivial⟩

/-- `connect` with a string. -/
theorem handler_never_panics_iff_sample :
    (¬ (handleCmdMsg (fun _ => none) (connectMsg [2, 0, 1, 97]) {}).Panics ∧
        ∀ t, handleCmdMsg (fun _ => none) (connectMsg [2, 0, 1, 97]) {} = .ok () t →
          ∀ uid inter, ¬ (info uid inter t).Panics) ↔
      Harmless (connectMsg [2, 0, 1, 97]) {} ∧
        ∀ t, handleCmdMsg (fun _ => none) (connectMsg [2, 0, 1, 97]) {} = .ok () t →
          IsUrl (t.connInfo.tcUrl ++ slash :: t.publishInfo.name) :=
  handler_never_panics_iff ⟨_, _, _, rfl⟩

end ConnServer

end Livego
