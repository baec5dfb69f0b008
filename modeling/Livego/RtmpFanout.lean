import Livego.Machine
import Livego.RtmpSharing
import Livego.SyncMap

/-! The loop of a publisher: packet after packet is read, cached and handed to every writer there is, while writers
come and go. -/

namespace Livego

open Fallible Outcome Machine

/-- `PackWriterCloser`, with the number of its writer. -/
structure PackWriterCloser where
  init : Bool := false
  w : Nat
  deriving DecidableEq, Repr

/-- The UIDs of the writers, and what the `i`-th call of a writer's `Write` returns. -/
structure Writers where
  uid : Nat → String
  answer : Nat → Nat → Option GoError

/-- Where `TransStart` is: at `Read`, in `Range` with the packet it read last, which is the `r`-th, or at its end. A
panic ends the whole server. -/
inductive Loop where
  | reading
  | ranging (r : Nat) (p : AvPacket) (range : SyncMap.Range String)
  | ended
  | crashed

/-- A stream that is published, and what its writers were handed so far. -/
structure Fanout where
  mem : Memory := {}
  cache : Cache
  ws : SyncMap String PackWriterCloser := ∅
  loop : Loop := .reading
  out : Nat → List Delivery := fun _ => []

namespace Fanout

inductive Event where
  /-- `Read` returns a packet, which is cached. -/
  | read (p : AvPacket)
  /-- `Range` comes to an entry. -/
  | visit (key : String)
  /-- `Range` returns. -/
  | done
  /-- `Read` returns an error, or `isStart` is no longer set. -/
  | stop
  | addWriter (w : Nat)
  /-- An entry is deleted from outside the loop. -/
  | remove (key : String)
  /-- The consumer of a writer assigns to a packet. -/
  | assign (w : Nat) (e : Assignment)
  deriving DecidableEq

def start (gopNum : Nat) : Fanout := { cache := Cache.newCache gopNum }

variable (writers : Writers)

/-- What the function that is ranged with writes to the writer of an entry: the cache at first, then a copy of each
packet. -/
def serve (r : Nat) (p : AvPacket) (v : PackWriterCloser) (s : Fanout) : Outcome GoError (List Delivery) Unit :=
  if v.init then record (writers.answer v.w) ⟨r, false, p⟩ (s.out v.w)
  else s.cache.send s.mem (record (writers.answer v.w)) (s.out v.w)

/-- The function that is ranged with. It assigns to `err` before it looks at it, so that no writer's error is taken
for another's. -/
def visit (r : Nat) (p : AvPacket) (range : SyncMap.Range String) (key : String) (v : PackWriterCloser)
    (s : Fanout) : Fanout :=
  match serve writers r p v s with
  | .ok _ out => { s with
      out := Function.update s.out v.w out
      ws := s.ws.insert key { v with init := true }
      loop := .ranging r p (range.visit key) }
  | .err _ out => { s with
      out := Function.update s.out v.w out
      ws := s.ws.erase key
      loop := .ranging r p (range.visit key) }
  | _ => { s with loop := .crashed }

/-- The loop after someone else has deleted an entry. -/
def dropFrom (key : String) : Loop → Loop
  | .ranging r p range => .ranging r p (range.drop key)
  | loop => loop

def step (s : Fanout) (e : Event) : Option Fanout :=
  match e, s.loop with
  | _, .crashed => none
  | .read p, .reading =>
    match Cache.write p (s.mem, s.cache) with
    | .ok _ (mem, cache) => some { s with mem, cache, loop := .ranging s.mem.next p (SyncMap.Range.start s.ws) }
    | .err _ (mem, cache) => some { s with mem, cache, loop := .ranging s.mem.next p (SyncMap.Range.start s.ws) }
    | _ => some { s with loop := .crashed }
  | .visit key, .ranging r p range =>
    match s.ws.lookup key with
    | none => none
    | some v => if key ∈ range.visited then none else some (visit writers r p range key v s)
  | .done, .ranging _ _ range => if range.due = ∅ then some { s with loop := .reading } else none
  | .stop, .reading => some { s with loop := .ended }
  | .addWriter w, _ => some { s with ws := s.ws.insert (writers.uid w) { w := w } }
  | .remove key, loop => some { s with ws := s.ws.erase key, loop := dropFrom key loop }
  | .assign w e, _ => some { s with mem := assign (s.out w) s.mem e }
  | _, _ => none

/-- What a step does, by its event. -/
inductive Does (s : Fanout) : Event → Fanout → Prop where
  | read {p : AvPacket} {mem : Memory} {cache : Cache} (hloop : s.loop = .reading)
      (hwrite : Cache.write p (s.mem, s.cache) = .ok () (mem, cache)) :
      Does s (.read p) { s with mem, cache, loop := .ranging s.mem.next p (SyncMap.Range.start s.ws) }
  | crash {p : AvPacket} (hloop : s.loop = .reading) (hpanics : (Cache.write p (s.mem, s.cache)).Panics) :
      Does s (.read p) { s with loop := .crashed }
  | visit {key : String} {r : Nat} {p : AvPacket} {range : SyncMap.Range String} {v : PackWriterCloser}
      (hloop : s.loop = .ranging r p range) (hv : s.ws.lookup key = some v) (honce : key ∉ range.visited) :
      Does s (.visit key) (visit writers r p range key v s)
  | done {r : Nat} {p : AvPacket} {range : SyncMap.Range String} (hloop : s.loop = .ranging r p range)
      (hdue : range.due = ∅) : Does s .done { s with loop := .reading }
  | stop (hloop : s.loop = .reading) : Does s .stop { s with loop := .ended }
  | addWriter {w : Nat} (hloop : s.loop ≠ .crashed) :
      Does s (.addWriter w) { s with ws := s.ws.insert (writers.uid w) { w := w } }
  | remove {key : String} (hloop : s.loop ≠ .crashed) :
      Does s (.remove key) { s with ws := s.ws.erase key, loop := dropFrom key s.loop }
  | assign {w : Nat} {e : Assignment} (hloop : s.loop ≠ .crashed) :
      Does s (.assign w e) { s with mem := Livego.assign (s.out w) s.mem e }

variable {writers} {s t : Fanout} {e : Event}

theorem step_crashed (hloop : s.loop = .crashed) (e : Event) : step writers s e = none := by
  unfold step
  rw [hloop]

theorem gop_write_cases (r : Nat) (p : AvPacket) (gopCache : GopCache) :
    (∃ gopCache', GopCache.write r p gopCache = .ok () gopCache') ∨ (GopCache.write r p gopCache).Panics := by
  have harray : ∀ (startNew : Bool) (c : GopCache),
      (∃ c', GopCache.writeToArray r startNew c = .ok () c') ∨ (GopCache.writeToArray r startNew c).Panics := by
    intro startNew c
    unfold GopCache.writeToArray
    split
    · split
      · exact Or.inr trivial
      · split
        · exact Or.inr trivial
        · exact Or.inl ⟨_, rfl⟩
      · split
        · exact Or.inr trivial
        · exact Or.inl ⟨_, rfl⟩
    · split
      · exact Or.inr trivial
      · split
        · exact Or.inr trivial
        · exact Or.inr trivial
        · exact Or.inl ⟨_, rfl⟩
  unfold GopCache.write
  split
  · exact Or.inr trivial
  · split
    · exact harray _ _
    · exact Or.inl ⟨_, rfl⟩

/-- `Cache.Write` returns, with a new cell for the packet, or it panics. -/
theorem cache_write_cases (p : AvPacket) (mem : Memory) (cache : Cache) :
    (∃ cache', Cache.write p (mem, cache) = .ok () (mem.alloc p, cache')) ∨
      (Cache.write p (mem, cache)).Panics := by
  rw [Cache.write_eq]
  split
  · exact Or.inl ⟨_, rfl⟩
  split
  · exact Or.inl ⟨_, rfl⟩
  split
  · exact Or.inl ⟨_, rfl⟩
  split
  · unfold Cache.onGop
    rcases gop_write_cases mem.next p cache.gop with ⟨gop, hgop⟩ | hpanics
    · exact Or.inl ⟨{ cache with gop }, by simp only [hgop]⟩
    · cases hgop : GopCache.write mem.next p cache.gop with
      | panic f =>
          apply Or.inr
          simp only [hgop]
          trivial
      | _ => simp [hgop, Panics] at hpanics
  · exact Or.inl ⟨_, rfl⟩

theorem does_of_step (h : step writers s e = some t) : Does writers s e t := by
  have hlive : s.loop ≠ .crashed := fun hloop => by simp [step_crashed hloop] at h
  cases e with
  | read p =>
      cases hloop : s.loop with
      | reading =>
          simp only [step, hloop] at h
          rcases cache_write_cases p s.mem s.cache with ⟨cache, hwrite⟩ | hpanics
          · rw [hwrite] at h
            cases h
            exact .read hloop hwrite
          · cases hwrite : Cache.write p (s.mem, s.cache) with
            | panic f =>
                rw [hwrite] at h
                cases h
                exact .crash hloop hpanics
            | _ => simp [hwrite, Panics] at hpanics
      | _ => simp [step, hloop] at h
  | visit key =>
      cases hloop : s.loop with
      | ranging r p range =>
          simp only [step, hloop] at h
          split at h
          · cases h
          · next v hv =>
              split_ifs at h with honce
              cases h
              exact .visit hloop hv honce
      | _ => simp [step, hloop] at h
  | done =>
      cases hloop : s.loop with
      | ranging r p range =>
          simp only [step, hloop] at h
          split_ifs at h with hdue
          cases h
          exact .done hloop hdue
      | _ => simp [step, hloop] at h
  | stop =>
      cases hloop : s.loop with
      | reading =>
          simp only [step, hloop] at h
          cases h
          exact .stop hloop
      | _ => simp [step, hloop] at h
  | addWriter w =>
      have ht : some { s with ws := s.ws.insert (writers.uid w) { w := w } } = some t := by
        rw [← h]
        unfold step
        cases hloop : s.loop <;> first | rfl | exact absurd hloop hlive
      cases ht
      exact .addWriter hlive
  | remove key =>
      have ht : some { s with ws := s.ws.erase key, loop := dropFrom key s.loop } = some t := by
        rw [← h]
        unfold step
        cases hloop : s.loop <;> first | rfl | exact absurd hloop hlive
      cases ht
      exact .remove hlive
  | assign w e =>
      have ht : some { s with mem := Livego.assign (s.out w) s.mem e } = some t := by
        rw [← h]
        unfold step
        cases hloop : s.loop <;> first | rfl | exact absurd hloop hlive
      cases ht
      exact .assign hlive

/-! ### What a visit writes -/

/-- The cache as it would be sent now. -/
def held (s : Fanout) : List Delivery := delivered (s.cache.actions s.mem)

theorem record_eq_collect {answer : Nat → Option GoError} (h : ∀ i, answer i = none) : record answer = collect := by
  funext d out
  rw [record, h]
  rfl

/-- One who takes everything is handed everything, or there is a panic. -/
theorem forM_act_collect (actions : List (Except Panic Delivery)) (out : List Delivery) :
    forM actions (act collect) out = .ok () (out ++ delivered actions) ∨
      (forM actions (act collect) out).Panics := by
  induction actions generalizing out with
  | nil =>
      apply Or.inl
      rw [show delivered [] = [] from rfl, List.append_nil, Call.forM_apply_nil]
  | cons a actions ih =>
      rw [Call.forM_apply_cons]
      cases a with
      | error f => exact Or.inr trivial
      | ok d =>
          rcases ih (out ++ [d]) with hok | hpanics
          · apply Or.inl
            rw [List.append_assoc, List.singleton_append] at hok
            exact hok
          · exact Or.inr hpanics

theorem sat_record (answer : Nat → Option GoError) (d : Delivery) (out : List Delivery) :
    (record answer d out).Sat (fun _ _ => True) (fun _ _ => True) False := by
  unfold record
  split <;> trivial

theorem serve_healthy {v : PackWriterCloser} (hw : ∀ i, writers.answer v.w i = none) (r : Nat) (p : AvPacket)
    (s : Fanout) :
    serve writers r p v s = .ok () (s.out v.w ++ if v.init then [⟨r, false, p⟩] else s.held) ∨
      (serve writers r p v s).Panics := by
  unfold serve
  rw [record_eq_collect hw]
  cases v.init with
  | true => exact Or.inl rfl
  | false =>
      rw [if_neg (by simp), if_neg (by simp), Cache.send_eq]
      exact forM_act_collect _ _

/-- A writer that returns no error stays. -/
theorem visit_healthy {v : PackWriterCloser} (hw : ∀ i, writers.answer v.w i = none) {r : Nat} {p : AvPacket}
    {range : SyncMap.Range String} {key : String} (hloop : (visit writers r p range key v s).loop ≠ .crashed) :
    visit writers r p range key v s = { s with
      out := Function.update s.out v.w (s.out v.w ++ if v.init then [⟨r, false, p⟩] else s.held)
      ws := s.ws.insert key { v with init := true }
      loop := .ranging r p (range.visit key) } := by
  rcases serve_healthy hw r p s with hok | hpanics
  · rw [visit, hok]
  · refine absurd ?_ hloop
    unfold visit
    split
    · next hserve => simp [hserve, Panics] at hpanics
    · next hserve => simp [hserve, Panics] at hpanics
    · rfl

/-- Writing to one writer leaves the others alone. -/
theorem out_visit_of_ne {v : PackWriterCloser} {w : Nat} (hw : w ≠ v.w) (r : Nat) (p : AvPacket)
    (range : SyncMap.Range String) (key : String) (s : Fanout) :
    (visit writers r p range key v s).out w = s.out w := by
  unfold visit
  split
  · exact Function.update_of_ne hw _ _
  · exact Function.update_of_ne hw _ _
  · rfl

theorem lookup_visit_of_ne {v : PackWriterCloser} {key key' : String} (hkey : key' ≠ key) (r : Nat) (p : AvPacket)
    (range : SyncMap.Range String) (s : Fanout) :
    (visit writers r p range key v s).ws.lookup key' = s.ws.lookup key' := by
  unfold visit
  split
  · exact Finmap.lookup_insert_of_ne _ hkey
  · exact Finmap.lookup_erase_ne hkey
  · rfl

theorem mem_visit (r : Nat) (p : AvPacket) (range : SyncMap.Range String) (key : String) (v : PackWriterCloser)
    (s : Fanout) : (visit writers r p range key v s).mem = s.mem := by
  unfold visit
  split <;> rfl

theorem cache_visit (r : Nat) (p : AvPacket) (range : SyncMap.Range String) (key : String) (v : PackWriterCloser)
    (s : Fanout) : (visit writers r p range key v s).cache = s.cache := by
  unfold visit
  split <;> rfl

theorem loop_visit (r : Nat) (p : AvPacket) (range : SyncMap.Range String) (key : String) (v : PackWriterCloser)
    (s : Fanout) :
    (visit writers r p range key v s).loop = .ranging r p (range.visit key) ∨
      (visit writers r p range key v s).loop = .crashed := by
  unfold visit
  split
  · exact Or.inl rfl
  · exact Or.inl rfl
  · exact Or.inr rfl

/-! ### What one writer gets -/

/-- Entries are kept under the UIDs of their writers. -/
def Keyed (writers : Writers) (s : Fanout) : Prop :=
  ∀ key v, s.ws.lookup key = some v → writers.uid v.w = key

theorem Keyed.step (h : Keyed writers s) (hstep : step writers s e = some t) : Keyed writers t := by
  cases does_of_step hstep with
  | read hloop hwrite => exact h
  | crash hloop hpanics => exact h
  | done hloop hdue => exact h
  | stop hloop => exact h
  | assign hloop => exact h
  | @visit key r p range v hloop hv honce =>
      intro key' v' hv'
      by_cases hkey : key' = key
      · subst hkey
        unfold Fanout.visit at hv'
        split at hv'
        · rw [Finmap.lookup_insert] at hv'
          cases hv'
          exact h key' v hv
        · rw [Finmap.lookup_erase] at hv'
          cases hv'
        · exact h key' v' hv'
      · rw [lookup_visit_of_ne hkey] at hv'
        exact h key' v' hv'
  | @addWriter w hloop =>
      intro key v hv
      rw [SyncMap.lookup_insert_eq] at hv
      split at hv
      · next hkey =>
          cases hv
          exact hkey.symm
      · exact h key v hv
  | @remove key hloop =>
      intro key' v hv
      rw [SyncMap.lookup_erase_eq] at hv
      split at hv
      · cases hv
      · exact h key' v hv

/-- Someone takes the writer's entry away or puts another there. -/
def Event.disturbs (writers : Writers) (w : Nat) : Event → Prop
  | .addWriter w' => writers.uid w' = writers.uid w
  | .remove key => key = writers.uid w
  | _ => False

/-- The packet that the writer is still to be handed in the pass that is under way. -/
def owed (key : String) (s : Fanout) : List Delivery :=
  match s.loop with
  | .ranging r p range => if key ∈ range.due then [⟨r, false, p⟩] else []
  | _ => []

def Event.packet? : Event → Option AvPacket
  | .read p => some p
  | _ => none

/-- The packets that are read in a run. -/
def published (es : List Event) : List AvPacket := es.filterMap Event.packet?

/-- Copies of the packets that are read in a run, numbered from `n` on. -/
def live (n : Nat) (es : List Event) : List Delivery :=
  ((published es).zipIdx n).map fun x => ⟨x.2, false, x.1⟩

theorem published_cons (e : Event) (es : List Event) : published (e :: es) = published [e] ++ published es := by
  rw [published, published, published, ← List.filterMap_append, List.singleton_append]

theorem live_cons (n : Nat) (e : Event) (es : List Event) :
    live n (e :: es) = live n [e] ++ live (n + (published [e]).length) es := by
  rw [live, published_cons, List.zipIdx_append, List.map_append]
  rfl

/-- The writer has been sent the cache, and in the pass under way it has its turn once. -/
structure Served (writers : Writers) (w : Nat) (s : Fanout) : Prop where
  entry : s.ws.lookup (writers.uid w) = some ⟨true, w⟩
  turn : ∀ r p range, s.loop = .ranging r p range →
    (writers.uid w ∈ range.due ↔ writers.uid w ∉ range.visited)

variable {w : Nat}

/-- One step of the loop hands a writer that has been served the packet that it is owed, or owes it the one that is
read. -/
theorem Served.step (h : Served writers w s) (hkeyed : Keyed writers s) (hw : ∀ i, writers.answer w i = none)
    (hstep : step writers s e = some t) (he : ¬ e.disturbs writers w) (ht : t.loop ≠ .crashed) :
    Served writers w t ∧
      t.out w ++ owed (writers.uid w) t = s.out w ++ owed (writers.uid w) s ++ live s.mem.next [e] := by
  cases does_of_step hstep with
  | @read p mem cache hloop hwrite =>
      have hmem : writers.uid w ∈ s.ws := Finmap.mem_of_lookup_eq_some h.entry
      refine ⟨⟨h.entry, fun r q range hq => ?_⟩, ?_⟩
      · cases hq
        exact ⟨fun _ => Finset.notMem_empty _, fun _ => SyncMap.Range.mem_due_start.mpr hmem⟩
      · simp [owed, live, published, Event.packet?, hloop, hmem]
  | crash hloop hpanics => exact absurd rfl ht
  | @visit key r p range v hloop hv honce =>
      by_cases hkey : key = writers.uid w
      · subst hkey
        have hv' := h.entry
        rw [hv] at hv'
        cases hv'
        have hdue : writers.uid w ∈ range.due := (h.turn r p range hloop).mpr honce
        rw [visit_healthy hw ht]
        refine ⟨⟨Finmap.lookup_insert _, fun r' q range' hq => ?_⟩, ?_⟩
        · cases hq
          simp
        · simp [owed, live, published, Event.packet?, hloop, hdue]
      · have hne : w ≠ v.w := by
          rintro rfl
          exact hkey (hkeyed key v hv).symm
        have hloop' : (Fanout.visit writers r p range key v s).loop = .ranging r p (range.visit key) :=
          (loop_visit r p range key v s).resolve_right ht
        refine ⟨⟨?_, fun r' q range' hq => ?_⟩, ?_⟩
        · rw [lookup_visit_of_ne (Ne.symm hkey)]
          exact h.entry
        · rw [hloop'] at hq
          cases hq
          have := h.turn r p range hloop
          simpa [Ne.symm hkey] using this
        · rw [out_visit_of_ne hne]
          simp [owed, live, published, Event.packet?, hloop, hloop', Ne.symm hkey]
  | @done r p range hloop hdue =>
      refine ⟨⟨h.entry, fun r q range hq => by cases hq⟩, ?_⟩
      simp [owed, live, published, Event.packet?, hloop, hdue]
  | stop hloop =>
      refine ⟨⟨h.entry, fun r q range hq => by cases hq⟩, ?_⟩
      simp [owed, live, published, Event.packet?, hloop]
  | @addWriter w' hloop =>
      refine ⟨⟨?_, h.turn⟩, by simp [owed, live, published, Event.packet?]⟩
      rw [SyncMap.lookup_insert_eq, if_neg fun heq => he heq.symm]
      exact h.entry
  | @remove key hloop =>
      have hne : writers.uid w ≠ key := fun heq => he heq.symm
      refine ⟨⟨?_, fun r q range hq => ?_⟩, ?_⟩
      · rw [SyncMap.lookup_erase_eq, if_neg hne]
        exact h.entry
      · cases hloop' : s.loop with
        | ranging r' p' range' =>
            simp only [hloop', dropFrom] at hq
            cases hq
            have := h.turn _ _ _ hloop'
            simpa [hne] using this
        | _ => simp [hloop', dropFrom] at hq
      · cases hloop' : s.loop <;> simp [owed, live, published, Event.packet?, hloop', dropFrom, hne]
  | assign hloop => exact ⟨⟨h.entry, h.turn⟩, by simp [owed, live, published, Event.packet?]⟩

theorem next_assign (handed : List Delivery) (mem : Memory) (e : Assignment) :
    (Livego.assign handed mem e).next = mem.next := by
  unfold Livego.assign
  split
  · rfl
  · split <;> rfl

theorem mem_of_write {p : AvPacket} {mem mem' : Memory} {cache cache' : Cache}
    (h : Cache.write p (mem, cache) = .ok () (mem', cache')) : mem' = mem.alloc p := by
  rcases cache_write_cases p mem cache with ⟨cache₁, hok⟩ | hpanics
  · rw [hok] at h
    cases h
    rfl
  · simp [h, Panics] at hpanics

/-- Every packet that is read has a number. -/
theorem next_step (hstep : step writers s e = some t) (ht : t.loop ≠ .crashed) :
    t.mem.next = s.mem.next + (published [e]).length := by
  cases does_of_step hstep with
  | read hloop hwrite =>
      rw [mem_of_write hwrite]
      rfl
  | crash hloop hpanics => exact absurd rfl ht
  | visit hloop hv honce =>
      rw [mem_visit]
      rfl
  | assign hloop => exact next_assign _ _ _
  | _ => rfl

/-- Nothing happens after a crash. -/
theorem not_crashed_of_run {es : List Event} (hrun : run (step writers) es s = some t) (ht : t.loop ≠ .crashed) :
    s.loop ≠ .crashed := by
  intro hs
  cases es with
  | nil =>
      cases hrun
      exact ht hs
  | cons e es =>
      obtain ⟨u, hstep, -⟩ := run_cons.mp hrun
      simp [step_crashed hs] at hstep

/-- A writer that has been served gets what it is owed and then every packet. -/
theorem Served.run {es : List Event} (h : Served writers w s) (hkeyed : Keyed writers s)
    (hw : ∀ i, writers.answer w i = none) (hrun : run (Fanout.step writers) es s = some t)
    (hes : ∀ e ∈ es, ¬ e.disturbs writers w) (ht : t.loop ≠ .crashed) :
    t.out w ++ owed (writers.uid w) t = s.out w ++ owed (writers.uid w) s ++ live s.mem.next es := by
  induction es generalizing s with
  | nil =>
      cases hrun
      exact (List.append_nil _).symm
  | cons e es ih =>
      obtain ⟨u, hstep, hrun⟩ := run_cons.mp hrun
      have hu := not_crashed_of_run hrun ht
      obtain ⟨hserved, hout⟩ := h.step hkeyed hw hstep (hes e List.mem_cons_self) hu
      rw [ih hserved (hkeyed.step hstep) hrun fun f hf => hes f (List.mem_cons_of_mem e hf), hout,
        live_cons s.mem.next e es, next_step hstep hu, List.append_assoc]

/-- The writer has been added and no pass has come to it yet. -/
def Waiting (writers : Writers) (w : Nat) (s : Fanout) : Prop := s.ws.lookup (writers.uid w) = some ⟨false, w⟩

theorem Waiting.step (h : Waiting writers w s) (hkeyed : Keyed writers s) (hstep : step writers s e = some t)
    (he : ¬ e.disturbs writers w) (hvisit : e ≠ .visit (writers.uid w)) : Waiting writers w t ∧ t.out w = s.out w := by
  cases does_of_step hstep with
  | @visit key r p range v hloop hv honce =>
      have hkey : writers.uid w ≠ key := fun heq => hvisit (heq ▸ rfl)
      refine ⟨?_, out_visit_of_ne ?_ r p range key s⟩
      · rw [Waiting, lookup_visit_of_ne hkey]
        exact h
      · rintro rfl
        exact hkey (hkeyed key v hv)
  | @addWriter w' hloop =>
      refine ⟨?_, rfl⟩
      rw [Waiting, SyncMap.lookup_insert_eq, if_neg fun heq => he heq.symm]
      exact h
  | @remove key hloop =>
      refine ⟨?_, rfl⟩
      rw [Waiting, SyncMap.lookup_erase_eq, if_neg fun heq => he heq.symm]
      exact h
  | _ => exact ⟨h, rfl⟩

/-- The first visit sends the cache. -/
theorem Waiting.visit (h : Waiting writers w s) (hw : ∀ i, writers.answer w i = none)
    (hstep : Fanout.step writers s (.visit (writers.uid w)) = some t) (ht : t.loop ≠ .crashed) :
    Served writers w t ∧ t.out w = s.out w ++ s.held ∧ owed (writers.uid w) t = [] := by
  cases does_of_step hstep with
  | @visit key r p range v hloop hv honce =>
      rw [h] at hv
      cases hv
      rw [visit_healthy hw ht]
      refine ⟨⟨Finmap.lookup_insert _, fun r' q range' hq => ?_⟩, ?_, ?_⟩
      · cases hq
        simp
      · simp
      · simp [owed]

/-- There is no entry for the writer. -/
def Gone (writers : Writers) (w : Nat) (s : Fanout) : Prop :=
  ∀ v, s.ws.lookup (writers.uid w) = some v → v.w ≠ w

theorem Gone.step (h : Gone writers w s) (hkeyed : Keyed writers s) (hstep : step writers s e = some t)
    (he : e ≠ .addWriter w) : Gone writers w t ∧ t.out w = s.out w := by
  cases does_of_step hstep with
  | @visit key r p range v hloop hv honce =>
      have hne : w ≠ v.w := by
        rintro rfl
        obtain rfl := hkeyed key v hv
        exact h v hv rfl
      refine ⟨fun v' hv' => ?_, out_visit_of_ne hne r p range key s⟩
      by_cases hkey : writers.uid w = key
      · rw [hkey] at hv'
        unfold Fanout.visit at hv'
        split at hv'
        · rw [Finmap.lookup_insert] at hv'
          cases hv'
          exact Ne.symm hne
        · rw [Finmap.lookup_erase] at hv'
          cases hv'
        · rw [← hkey] at hv'
          exact h v' hv'
      · rw [lookup_visit_of_ne hkey] at hv'
        exact h v' hv'
  | @addWriter w' hloop =>
      refine ⟨fun v hv => ?_, rfl⟩
      rw [SyncMap.lookup_insert_eq] at hv
      split at hv
      · cases hv
        rintro rfl
        exact he rfl
      · exact h v hv
  | @remove key hloop =>
      refine ⟨fun v hv => ?_, rfl⟩
      rw [SyncMap.lookup_erase_eq] at hv
      split at hv
      · cases hv
      · exact h v hv
  | _ => exact ⟨h, rfl⟩

theorem Gone.run {es : List Event} (h : Gone writers w s) (hkeyed : Keyed writers s)
    (hrun : run (Fanout.step writers) es s = some t) (hes : .addWriter w ∉ es) : t.out w = s.out w := by
  induction es generalizing s with
  | nil =>
      cases hrun
      rfl
  | cons e es ih =>
      obtain ⟨u, hstep, hrun⟩ := run_cons.mp hrun
      obtain ⟨hgone, hout⟩ := h.step hkeyed hstep fun he => hes (he ▸ List.mem_cons_self)
      rw [ih hgone (hkeyed.step hstep) hrun fun hmem => hes (List.mem_cons_of_mem e hmem), hout]

/-- A writer that returns an error is removed. -/
theorem gone_of_err {key : String} {r : Nat} {p : AvPacket} {range : SyncMap.Range String} {v : PackWriterCloser}
    {err : GoError} {out : List Delivery} (hkeyed : Keyed writers s) (hv : s.ws.lookup key = some v)
    (herr : serve writers r p v s = .err err out) : Gone writers v.w (visit writers r p range key v s) := by
  intro v' hv'
  rw [hkeyed key v hv, Fanout.visit, herr] at hv'
  simp only [Finmap.lookup_erase] at hv'
  cases hv'

/-! ### What all of a run keeps -/

/-- What is due in a pass is there and has not had its turn. -/
def Ranged (s : Fanout) : Prop := ∀ r p range, s.loop = .ranging r p range → SyncMap.Range.Sound s.ws range

theorem Ranged.step (h : Ranged s) (hstep : step writers s e = some t) : Ranged t := by
  cases does_of_step hstep with
  | read hloop hwrite =>
      intro r p range hq
      cases hq
      exact SyncMap.Range.sound_start s.ws
  | crash hloop hpanics => exact fun r p range hq => by cases hq
  | @visit key r p range v hloop hv honce =>
      intro r' p' range' hq
      unfold Fanout.visit at hq ⊢
      split at hq
      · cases hq
        exact ((h r p range hloop).visit key).insert key _
      · cases hq
        exact (h r p range hloop).visit_erase key
      · cases hq
  | done hloop hdue => exact fun r p range hq => by cases hq
  | stop hloop => exact fun r p range hq => by cases hq
  | @addWriter w hloop => exact fun r p range hq => (h r p range hq).insert _ _
  | @remove key hloop =>
      intro r p range hq
      cases hloop' : s.loop with
      | ranging r' p' range' =>
          simp only [hloop', dropFrom] at hq
          cases hq
          exact (h _ _ _ hloop').erase key
      | _ => simp [hloop', dropFrom] at hq
  | assign hloop => exact h

/-- The cache is that of the packets that were read, whatever the writers did. -/
def Caching (gopNum : Nat) (ps : List AvPacket) (s : Fanout) : Prop :=
  ∃ mem, Cache.writeAll ps ({}, Cache.newCache gopNum) = .ok () (mem, s.cache) ∧ mem.next = s.mem.next

/-- What is cached of a packet does not depend on the packets before it. -/
theorem write_congr {p : AvPacket} {mem mem' mem₁ : Memory} {cache cache' : Cache} (hnext : mem.next = mem'.next)
    (h : Cache.write p (mem, cache) = .ok () (mem₁, cache')) :
    Cache.write p (mem', cache) = .ok () (mem'.alloc p, cache') := by
  rw [Cache.write_eq, hnext] at h
  rw [Cache.write_eq]
  split_ifs at h ⊢
  · cases h
    rfl
  · cases h
    rfl
  · cases h
    rfl
  · cases hgop : GopCache.write mem'.next p cache.gop with
    | ok u gop =>
        rw [Cache.onGop, hgop] at h ⊢
        cases h
        rfl
    | _ => simp [Cache.onGop, hgop] at h
  · cases h
    rfl

variable {gopNum : Nat} {ps : List AvPacket}

theorem Caching.step (h : Caching gopNum ps s) (hstep : step writers s e = some t) (ht : t.loop ≠ .crashed) :
    Caching gopNum (ps ++ published [e]) t := by
  cases does_of_step hstep with
  | @read p mem cache hloop hwrite =>
      obtain ⟨before, hps, hnext⟩ := h
      refine ⟨before.alloc p, ?_, ?_⟩
      · rw [show published [.read p] = [p] from rfl, Cache.writeAll_concat, Call.bind_of_ok hps,
          write_congr hnext.symm hwrite]
      · rw [mem_of_write hwrite, Memory.next_alloc, Memory.next_alloc, hnext]
  | crash hloop hpanics => exact absurd rfl ht
  | @visit key r p range v hloop hv honce =>
      rw [Caching, cache_visit, mem_visit, show published [.visit key] = [] from rfl, List.append_nil]
      exact h
  | @assign w e hloop =>
      rw [Caching, next_assign, show published [.assign w e] = [] from rfl, List.append_nil]
      exact h
  | done => exact (List.append_nil ps).symm ▸ h
  | stop => exact (List.append_nil ps).symm ▸ h
  | addWriter => exact (List.append_nil ps).symm ▸ h
  | remove => exact (List.append_nil ps).symm ▸ h

theorem caching_run {es : List Event} (h : Caching gopNum ps s) (hrun : run (step writers) es s = some t)
    (ht : t.loop ≠ .crashed) : Caching gopNum (ps ++ published es) t := by
  induction es generalizing s ps with
  | nil =>
      cases hrun
      exact (List.append_nil ps).symm ▸ h
  | cons e es ih =>
      obtain ⟨u, hstep, hrun⟩ := run_cons.mp hrun
      have := ih (h.step hstep (not_crashed_of_run hrun ht)) hrun
      rwa [published_cons e es, ← List.append_assoc]

theorem Caching.cached (h : Caching gopNum ps s) (hn : 0 < gopNum) (hn2 : gopNum ≤ 2) :
    Cache.Cached gopNum ps s.mem.next s.cache := by
  obtain ⟨mem, hps, hnext⟩ := h
  obtain ⟨mem', cache', hwrite, hcached, -⟩ := Cache.writeAll_cached hn hn2 ps
  rw [hps] at hwrite
  cases hwrite
  exact hnext ▸ hcached

/-- A ring of one or two groups never panics. -/
theorem Caching.not_crashed (h : Caching gopNum ps s) (hn : 0 < gopNum) (hn2 : gopNum ≤ 2)
    (hs : s.loop ≠ .crashed) (hstep : Fanout.step writers s e = some t) : t.loop ≠ .crashed := by
  have hcached := h.cached hn hn2
  cases does_of_step hstep with
  | read hloop hwrite => simp
  | @crash p hloop hpanics =>
      obtain ⟨cache, hwrite, -⟩ := hcached.write hn hn2 p
      simp [hwrite, Panics] at hpanics
  | @visit key r p range v hloop hv honce =>
      have hserve : (serve writers r p v s).Sat (fun _ _ => True) (fun _ _ => True) False := by
        unfold serve
        split
        · exact sat_record _ _ _
        · rw [hcached.send hn hn2]
          exact Call.sat_forM (fun _ => trivial) (fun _ _ _ _ _ => trivial) (fun d _ out => sat_record _ d out) _
      intro hcrash
      unfold Fanout.visit at hcrash
      split at hcrash
      · cases hcrash
      · cases hcrash
      · cases hresult : serve writers r p v s <;> simp_all [Outcome.Sat]
  | done hloop hdue => simp
  | stop hloop => simp
  | addWriter hloop => exact hs
  | @remove key hloop => cases hloop : s.loop <;> simp_all [dropFrom]
  | assign hloop => exact hs

theorem caching_start (gopNum : Nat) : Caching gopNum [] (start gopNum) := ⟨{}, rfl, rfl⟩

theorem keyed_start (gopNum : Nat) : Keyed writers (start gopNum) := fun _ _ hv => by simp [start] at hv

theorem ranged_start (gopNum : Nat) : Ranged (start gopNum) := fun _ _ _ hq => by cases hq

theorem not_crashed_run {es : List Event} (hn : 0 < gopNum) (hn2 : gopNum ≤ 2) (h : Caching gopNum ps s)
    (hs : s.loop ≠ .crashed) (hrun : run (step writers) es s = some t) : t.loop ≠ .crashed := by
  induction es generalizing s ps with
  | nil =>
      cases hrun
      exact hs
  | cons e es ih =>
      obtain ⟨u, hstep, hrun⟩ := run_cons.mp hrun
      have hu := h.not_crashed hn hn2 hs hstep
      exact ih (h.step hstep hu) hu hrun

/-- Only a stop ends the loop. -/
theorem ended_of_run {es : List Event} (hs : s.loop ≠ .ended) (hrun : run (step writers) es s = some t)
    (ht : t.loop = .ended) : .stop ∈ es := by
  induction es generalizing s with
  | nil =>
      cases hrun
      exact absurd ht hs
  | cons e es ih =>
      obtain ⟨u, hstep, hrun⟩ := run_cons.mp hrun
      by_cases hu : u.loop = .ended
      · refine List.mem_cons.mpr (Or.inl ?_)
        cases does_of_step hstep with
        | visit hloop hv honce =>
            rcases @loop_visit writers _ _ _ _ _ s with h | h <;> rw [h] at hu <;> cases hu
        | addWriter hloop => exact absurd hu hs
        | @remove key hloop => cases hloop' : s.loop <;> simp_all [dropFrom]
        | assign hloop => exact absurd hu hs
        | _ => first | rfl | cases hu
      · exact List.mem_cons_of_mem e (ih hu hrun)

/-- The loop can go on: it can read, or it can turn to an entry, or it is through with all of them. -/
theorem progress (h : Ranged s) :
    (s.loop = .reading → ∀ p, (step writers s (.read p)).isSome) ∧
      ∀ r p range, s.loop = .ranging r p range →
        (step writers s .done).isSome ∨ ∃ key ∈ range.due, (step writers s (.visit key)).isSome := by
  constructor
  · intro hloop p
    simp only [step, hloop]
    split <;> rfl
  · intro r p range hloop
    obtain hdue | ⟨key, hkey⟩ := range.due.eq_empty_or_nonempty
    · exact Or.inl (by simp [step, hloop, hdue])
    · obtain ⟨v, hv⟩ := Finmap.mem_iff.mp ((h r p range hloop).present key hkey)
      exact Or.inr ⟨key, hkey, by simp [step, hloop, hv, (h r p range hloop).once key hkey]⟩

theorem Waiting.run {es : List Event} (h : Waiting writers w s) (hkeyed : Keyed writers s)
    (hrun : run (Fanout.step writers) es s = some t) (hes : ∀ e ∈ es, ¬ e.disturbs writers w)
    (hvisit : .visit (writers.uid w) ∉ es) : Waiting writers w t ∧ t.out w = s.out w := by
  induction es generalizing s with
  | nil =>
      cases hrun
      exact ⟨h, rfl⟩
  | cons e es ih =>
      obtain ⟨u, hstep, hrun⟩ := run_cons.mp hrun
      obtain ⟨hwaiting, hout⟩ := h.step hkeyed hstep (hes e List.mem_cons_self) fun he =>
        hvisit (he ▸ List.mem_cons_self)
      rw [← hout]
      exact ih hwaiting (hkeyed.step hstep) hrun (fun f hf => hes f (List.mem_cons_of_mem e hf)) fun hmem =>
        hvisit (List.mem_cons_of_mem e hmem)

/-- A writer without errors gets the cache at its first visit and from then on every packet. -/
theorem healthy_writer (hkeyed : Keyed writers s) (hw : ∀ i, writers.answer w i = none)
    {waiting joined : List Event} {u v : Fanout} (hes : ∀ e ∈ waiting ++ joined, ¬ e.disturbs writers w)
    (hfirst : .visit (writers.uid w) ∉ waiting) (hwaiting : run (step writers) (.addWriter w :: waiting) s = some u)
    (hvisit : step writers u (.visit (writers.uid w)) = some v) (hjoined : run (step writers) joined v = some t)
    (ht : t.loop ≠ .crashed) :
    u.out w = s.out w ∧ t.out w ++ owed (writers.uid w) t = s.out w ++ u.held ++ live u.mem.next joined := by
  obtain ⟨added, hadd, hwaiting⟩ := run_cons.mp hwaiting
  have hentry : Waiting writers w added ∧ added.out w = s.out w := by
    cases does_of_step hadd with
    | addWriter hloop => exact ⟨Finmap.lookup_insert _, rfl⟩
  obtain ⟨hu, hout⟩ := hentry.1.run (hkeyed.step hadd) hwaiting (fun e he => hes e (List.mem_append_left _ he)) hfirst
  have hkeyed' : Keyed writers u := run_keeps (fun _ _ _ h hstep => Keyed.step h hstep) (hkeyed.step hadd) hwaiting
  have hv := not_crashed_of_run hjoined ht
  obtain ⟨hserved, hheld, howed⟩ := hu.visit hw hvisit hv
  have hnext : v.mem.next = u.mem.next := next_step hvisit hv
  refine ⟨hout.trans hentry.2, ?_⟩
  rw [hserved.run (hkeyed'.step hvisit) hw hjoined (fun e he => hes e (List.mem_append_right _ he)) ht, howed, hheld,
    hout, hentry.2, hnext, List.append_nil]

/-- What the writers cannot do to each other, in the state after the events `before`. -/
structure Isolated (writers : Writers) (gopNum : Nat) (before : List Event) (s : Fanout) : Prop where
  /-- The cache is that of the packets that were read. -/
  cache : s.loop ≠ .crashed →
    ∃ mem, Cache.writeAll (published before) ({}, Cache.newCache gopNum) = .ok () (mem, s.cache)
  /-- A writer without errors gets the cache at its first visit and then every packet, once and in order. -/
  healthy : ∀ w, (∀ i, writers.answer w i = none) → ∀ (waiting joined : List Event) (u v t : Fanout),
    (∀ e ∈ waiting ++ joined, ¬ e.disturbs writers w) → .visit (writers.uid w) ∉ waiting →
    run (step writers) (.addWriter w :: waiting) s = some u → step writers u (.visit (writers.uid w)) = some v →
    run (step writers) joined v = some t → t.loop ≠ .crashed →
      u.out w = s.out w ∧ t.out w ++ owed (writers.uid w) t = s.out w ++ u.held ++ live u.mem.next joined
  /-- A writer that returns an error gets nothing more. -/
  failing : ∀ key r p range v err out, s.loop = .ranging r p range → s.ws.lookup key = some v →
    serve writers r p v s = .err err out → ∀ (es : List Event) (t : Fanout), .addWriter v.w ∉ es →
    run (step writers) (.visit key :: es) s = some t → t.out v.w = out
  /-- The loop is where it can go on until it is stopped. -/
  ended : s.loop = .ended → .stop ∈ before
  crashed : 0 < gopNum → gopNum ≤ 2 → s.loop ≠ .crashed
  reading : s.loop = .reading → ∀ p, (step writers s (.read p)).isSome
  ranging : ∀ r p range, s.loop = .ranging r p range →
    (step writers s .done).isSome ∨ ∃ key ∈ range.due, (step writers s (.visit key)).isSome

theorem fan_out_isolation (gopNum : Nat) {before : List Event}
    (hbefore : run (step writers) before (start gopNum) = some s) : Isolated writers gopNum before s := by
  have hkeyed : Keyed writers s := run_keeps (fun _ _ _ h hstep => Keyed.step h hstep) (keyed_start gopNum) hbefore
  have hranged : Ranged s := run_keeps (fun _ _ _ h hstep => Ranged.step h hstep) (ranged_start gopNum) hbefore
  refine ⟨fun hs => ?_, ?_, ?_, ?_, ?_, (progress hranged).1, (progress hranged).2⟩
  · obtain ⟨mem, hps, -⟩ := caching_run (caching_start gopNum) hbefore hs
    exact ⟨mem, hps⟩
  · intro w hw waiting joined u v t hes hfirst hwaiting hvisit hjoined ht
    exact healthy_writer hkeyed hw hes hfirst hwaiting hvisit hjoined ht
  · intro key r p range v err out hloop hv herr es t hes hrun
    obtain ⟨u, hstep, hrun⟩ := run_cons.mp hrun
    have hu := hkeyed.step hstep
    cases does_of_step hstep with
    | @visit key' r' p' range' v' hloop' hv' honce =>
        rw [hloop] at hloop'
        cases hloop'
        rw [hv] at hv'
        cases hv'
        rw [(gone_of_err hkeyed hv herr).run hu hrun hes, Fanout.visit, herr]
        simp
  · exact ended_of_run (by simp [start]) hbefore
  · intro hn hn2
    exact not_crashed_run hn hn2 (caching_start gopNum) (by simp [start]) hbefore

/-- A player that takes everything and one that takes nothing. -/
def sampleWriters : Writers where
  uid w := if w = 0 then "player" else "other"
  answer w _ := if w = 0 then none else some (.named "closed")

/-- Both join before the first packet, and the pass has come to the one that fails. -/
def sampleEvents : List Event := [.addWriter 1, .addWriter 0, .read Cache.sampleKeyFrame, .visit "other"]

theorem fan_out_isolation_sample :
    ∃ s, run (step sampleWriters) sampleEvents (start 1) = some s ∧ s.ws.lookup "other" = none ∧
      (s.out 1).length = 1 ∧ Isolated sampleWriters 1 sampleEvents s := by
  have hrun : ∃ s, run (step sampleWriters) sampleEvents (start 1) = some s ∧ s.ws.lookup "other" = none ∧
      (s.out 1).length = 1 := ⟨_, rfl, rfl, rfl⟩
  obtain ⟨s, hs, hgone, hout⟩ := hrun
  exact ⟨s, hs, hgone, hout, fan_out_isolation 1 hs⟩

end Fanout

end Livego
