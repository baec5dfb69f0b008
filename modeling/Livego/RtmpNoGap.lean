import Livego.RtmpChunkStream
import Livego.RtmpFanout

/-! The video frames that a player gets, of those that were published: the frames of the cache and those that are read
after it joined. -/

namespace Livego

open Fallible Groups Machine

namespace VirReader

/-- What `Read` sets of the packet, which is the loop's variable. -/
def fill (cs : ChunkStream) (p : AvPacket) : AvPacket := { p with
  isAudio := cs.typeID = tagAudio
  isVideo := cs.typeID = tagVideo
  isMetadata := cs.typeID = tagScriptDataAmf0 ∨ cs.typeID = tagScriptDataAmf3
  streamID := cs.streamID
  data := cs.data
  timeStamp := cs.timestamp }

/-- `Read` once the connection has come to a media message. A message whose tag cannot be parsed has the header of the
message before; a panic of the demuxer is recovered from. -/
def read (cs : ChunkStream) (p : AvPacket) : AvPacket :=
  match Demuxer.demuxH (fill cs p) with
  | .ok _ p => p
  | .err _ p => p
  | _ => fill cs p

/-- The packets of one `Read` after the other. -/
def reads : List ChunkStream → AvPacket → List AvPacket
  | [], _ => []
  | cs :: css, p => read cs p :: reads css (read cs p)

theorem read_eq (cs : ChunkStream) (p : AvPacket) :
    read cs p = fill cs p ∨ ∃ tag, read cs p = { fill cs p with header := some tag } := by
  unfold read
  split
  · next hdemux => exact Or.inr (Demuxer.demuxH_header _ hdemux)
  · next hdemux =>
      unfold Demuxer.demuxH at hdemux
      split at hdemux <;> cases hdemux
      exact Or.inl rfl
  · exact Or.inl rfl

/-- Once a packet has a header, the next one has. -/
theorem header_read (cs : ChunkStream) {p : AvPacket} (h : p.header ≠ none) : (read cs p).header ≠ none := by
  rcases read_eq cs p with heq | ⟨tag, heq⟩ <;> rw [heq]
  · exact h
  · simp

theorem isMetadata_read (cs : ChunkStream) (p : AvPacket) (h : (read cs p).isVideo = true) :
    (read cs p).isMetadata = false := by
  have hvideo : cs.typeID = tagVideo := by
    rcases read_eq cs p with heq | ⟨tag, heq⟩ <;> rw [heq] at h <;> simpa [fill] using h
  rcases read_eq cs p with heq | ⟨tag, heq⟩ <;> rw [heq] <;>
    simp [fill, hvideo, tagVideo, tagScriptDataAmf0, tagScriptDataAmf3]

theorem header_reads {css : List ChunkStream} {p : AvPacket} (h : p.header ≠ none) :
    ∀ q ∈ reads css p, q.header ≠ none := by
  induction css generalizing p with
  | nil => simp [reads]
  | cons cs css ih =>
      intro q hq
      rcases List.mem_cons.mp hq with rfl | hq
      · exact header_read cs h
      · exact ih (header_read cs h) q hq

theorem pairwise_reads (css : List ChunkStream) (p : AvPacket) :
    (reads css p).Pairwise fun q r => q.header ≠ none → r.header ≠ none := by
  induction css generalizing p with
  | nil => exact List.Pairwise.nil
  | cons cs css ih => exact List.pairwise_cons.mpr ⟨fun q hq h => header_reads h q hq, ih _⟩

theorem isMetadata_reads (css : List ChunkStream) (p : AvPacket) :
    ∀ q ∈ reads css p, q.isVideo = true → q.isMetadata = false := by
  induction css generalizing p with
  | nil => simp [reads]
  | cons cs css ih =>
      intro q hq
      rcases List.mem_cons.mp hq with rfl | hq
      · exact isMetadata_read cs p
      · exact ih _ q hq

end VirReader

namespace Fanout

/-- The video frames of the packets, with their numbers from `n` on. -/
def frames (n : Nat) (ps : List AvPacket) : List (AvPacket × Nat) := (ps.zipIdx n).filter fun x => x.1.isFrame

/-- The video frames among what was handed over, told by their numbers. -/
def framesIn (all : List AvPacket) (ds : List Delivery) : List (AvPacket × Nat) :=
  ds.filterMap fun d => (all[d.origin]?.filter AvPacket.isFrame).map fun p => (p, d.origin)

theorem framesIn_append (all : List AvPacket) (ds ds' : List Delivery) :
    framesIn all (ds ++ ds') = framesIn all ds ++ framesIn all ds' := List.filterMap_append

/-- Packets that are handed over with their numbers. -/
theorem framesIn_map {all : List AvPacket} {xs : List (AvPacket × Nat)} {f : AvPacket × Nat → Delivery}
    (hf : ∀ x ∈ xs, (f x).origin = x.2) (hxs : ∀ x ∈ xs, all[x.2]? = some x.1) :
    framesIn all (xs.map f) = xs.filter fun x => x.1.isFrame := by
  induction xs with
  | nil => rfl
  | cons x xs ih =>
      have hx := hxs x List.mem_cons_self
      have ih := ih (fun y hy => hf y (List.mem_cons_of_mem x hy)) fun y hy => hxs y (List.mem_cons_of_mem x hy)
      rw [framesIn] at ih ⊢
      rw [List.map_cons, List.filterMap_cons, hf x List.mem_cons_self, hx, ih]
      cases hframe : x.1.isFrame <;> simp [hframe, Option.filter]

theorem getElem?_of_mem_zipIdx {ps rest : List AvPacket} {x : AvPacket × Nat} (h : x ∈ ps.zipIdx) :
    (ps ++ rest)[x.2]? = some x.1 := by
  obtain ⟨hlt, hx⟩ := List.mem_zipIdx' h
  rw [List.getElem?_append_left hlt, List.getElem?_eq_getElem hlt, hx]

theorem getElem?_of_mem_zipIdx_length {ps rest : List AvPacket} {x : AvPacket × Nat}
    (h : x ∈ rest.zipIdx ps.length) : (ps ++ rest)[x.2]? = some x.1 := by
  rw [List.mem_zipIdx_iff_le_and_getElem?_sub] at h
  rw [List.getElem?_append_right h.1, h.2]

theorem delivered_map_ok (ds : List Delivery) : delivered (ds.map .ok) = ds := by
  induction ds with
  | nil => rfl
  | cons d ds ih => rw [List.map_cons, delivered, ih]

/-- Neither metadata nor a sequence header is a frame. -/
theorem not_frame_of_kind (p : AvPacket) (h : p.isMetadata = true ∨ p.isVideoSeq = true ∨ p.isAudioSeq = true) :
    p.isFrame = false := by
  revert h
  unfold AvPacket.isVideoSeq AvPacket.isAudioSeq AvPacket.isFrame
  cases p.isMetadata <;> cases p.isVideo <;> simp

theorem framesIn_special {all ps : List AvPacket} {mem : Memory} {kind : AvPacket → Bool}
    (hkind : ∀ p : AvPacket, kind p = true → p.isFrame = false) (hps : ∀ x ∈ ps.zipIdx, all[x.2]? = some x.1) :
    framesIn all ((Cache.lastOf kind ps).toList.map (Delivery.of mem false)) = [] := by
  rw [framesIn_map (fun x hx => rfl) fun x hx => hps x (Cache.mem_of_lastOf hx), List.filter_eq_nil_iff]
  intro x hx
  have hmem := List.mem_of_getLast? (Option.mem_toList.mp hx)
  rw [hkind x.1 (List.mem_filter.mp hmem).2]
  decide

/-- Behind the last key frame the ring keeps all frames. -/
theorem fromLast_grouped {ps : List AvPacket} (hheader : ps.Pairwise fun p q => p.header ≠ none → q.header ≠ none)
    (hvideo : ∀ p ∈ ps, p.isVideo = true → p.isMetadata = false) :
    fromLast (fun x => x.1.isKeyFrame) (Cache.grouped ps) = fromLast (fun x => x.1.isKeyFrame) (frames 0 ps) := by
  have hfst : ∀ x ∈ ps.zipIdx, x.1 ∈ ps := fun x hx => by
    have := List.mem_map_of_mem (f := Prod.fst) hx
    rwa [List.zipIdx_map_fst] at this
  have hkey : ∀ p ∈ ps, p.isKeyFrame = true → p.header ≠ none ∧ Cache.toGop p = true := by
    intro p hp hk
    have hv : p.isVideo = true := by
      unfold AvPacket.isKeyFrame at hk
      exact (Bool.and_eq_true _ _ ▸ hk).1
    have hm := hvideo p hp hv
    unfold AvPacket.isKeyFrame at hk
    unfold Cache.toGop
    cases hh : p.header with
    | none => simp [hh] at hk
    | some vh =>
        simp only [hv, hh, Option.any_some, Bool.true_and, Bool.and_eq_true, Bool.not_eq_true'] at hk
        simp [hm, hv, hk.2]
  have hkept : ∀ x ∈ fromLast (fun x => x.1.isKeyFrame) ps.zipIdx, x.1.header ≠ none := by
    intro x hx
    have hpairs : ps.zipIdx.Pairwise fun x y => x.1.header ≠ none → y.1.header ≠ none := by
      rw [← List.zipIdx_map_fst 0 ps, List.pairwise_map] at hheader
      exact hheader
    rcases rel_of_mem_fromLast hpairs hx with hk | ⟨k, hkmem, hk, hrel⟩
    · exact (hkey x.1 (hfst x (fromLast_subset _ hx)) hk).1
    · exact hrel (hkey k.1 (hfst k hkmem) hk).1
  rw [Cache.grouped, frames, fromLast_filter fun x hx hk => (hkey x.1 (hfst x hx) hk).2, fromLast_filter]
  · exact List.filter_congr fun x hx => Cache.toGop_eq_isFrame (hkept x hx)
  · intro x hx hk
    obtain ⟨hh, hg⟩ := hkey x.1 (hfst x hx) hk
    rw [← Cache.toGop_eq_isFrame hh]
    exact hg

variable {writers : Writers} {s t : Fanout} {w : Nat} {e : Event}

/-- The frames of a cache that is sent. -/
theorem framesIn_held {ps rest : List AvPacket} (hcaching : Caching 1 ps s)
    (hheader : ps.Pairwise fun p q => p.header ≠ none → q.header ≠ none)
    (hvideo : ∀ p ∈ ps, p.isVideo = true → p.isMetadata = false) :
    framesIn (ps ++ rest) s.held = (fromLast (fun x => x.1.isKeyFrame) (frames 0 ps)).take maxGOPCap := by
  have hps : ∀ x ∈ ps.zipIdx, (ps ++ rest)[x.2]? = some x.1 := fun x hx => getElem?_of_mem_zipIdx hx
  have hcached := hcaching.cached (by decide) (by decide)
  rw [held, hcached.actions (by decide) (by decide), delivered_map_ok, Cache.contents, framesIn_append,
    framesIn_append, framesIn_append, framesIn_special (fun p hp => not_frame_of_kind p (Or.inl hp)) hps,
    framesIn_special (fun p hp => not_frame_of_kind p (Or.inr (Or.inl hp))) hps,
    framesIn_special (fun p hp => not_frame_of_kind p (Or.inr (Or.inr hp))) hps, GopCache.recent_one, ← List.map_take,
    List.map_map, List.nil_append, List.nil_append, List.nil_append, fromLast_grouped hheader hvideo]
  have hframes : ∀ x ∈ (fromLast (fun x => x.1.isKeyFrame) (frames 0 ps)).take maxGOPCap, x ∈ frames 0 ps :=
    fun x hx => fromLast_subset _ (List.mem_of_mem_take hx)
  rw [framesIn_map (fun x hx => rfl) fun x hx => hps x (List.mem_filter.mp (hframes x hx)).1, List.filter_eq_self]
  exact fun x hx => (List.mem_filter.mp (hframes x hx)).2

theorem framesIn_live (ps : List AvPacket) (es : List Event) :
    framesIn (ps ++ published es) (live ps.length es) = frames ps.length (published es) := by
  rw [live, framesIn_map (fun x hx => rfl) fun x hx => getElem?_of_mem_zipIdx_length hx, frames]

/-- What is added to nobody gets nothing. -/
theorem out_of_not_added {es : List Event} (hrun : run (step writers) es (start 1) = some s)
    (hnew : .addWriter w ∉ es) : s.out w = [] :=
  Gone.run (fun v hv => by simp [start] at hv) (keyed_start 1) hrun hnew

/-- A player without errors joins once: it is added after the events `before`, a pass comes to it after those of
`waiting`, and it is left alone from then on. -/
structure Joins (writers : Writers) (w : Nat) (before waiting joined : List Event) (s u v t : Fanout) : Prop where
  healthy : ∀ i, writers.answer w i = none
  once : .addWriter w ∉ before
  alone : ∀ e ∈ waiting ++ joined, ¬ e.disturbs writers w
  first : .visit (writers.uid w) ∉ waiting
  before : run (step writers) before (start 1) = some s
  waiting : run (step writers) (.addWriter w :: waiting) s = some u
  visit : step writers u (.visit (writers.uid w)) = some v
  joined : run (step writers) joined v = some t

variable {before waiting joined : List Event} {u v : Fanout}

theorem Joins.all (h : Joins writers w before waiting joined s u v t) :
    run (step writers) (before ++ .addWriter w :: waiting) (start 1) = some u :=
  run_append.mpr ⟨s, h.before, h.waiting⟩

theorem Joins.published (w : Nat) (before waiting : List Event) :
    Fanout.published (before ++ .addWriter w :: waiting) = Fanout.published (before ++ waiting) := by
  rw [Fanout.published, Fanout.published, List.filterMap_append, List.filterMap_append]
  rfl

theorem Joins.caching (h : Joins writers w before waiting joined s u v t) :
    u.loop ≠ .crashed ∧ Caching 1 (Fanout.published (before ++ waiting)) u := by
  have hu : u.loop ≠ .crashed :=
    not_crashed_run (by decide) (by decide) (caching_start 1) (by simp [start]) h.all
  have hcaching := caching_run (caching_start 1) h.all hu
  rw [List.nil_append, Joins.published] at hcaching
  exact ⟨hu, hcaching⟩

/-- The player is handed the cache as it is at the first visit, and then every packet. -/
theorem Joins.received (h : Joins writers w before waiting joined s u v t) :
    t.out w ++ owed (writers.uid w) t =
      u.held ++ live (Fanout.published (before ++ waiting)).length joined := by
  have hkeyed : Keyed writers s := run_keeps (fun _ _ _ h hstep => Keyed.step h hstep) (keyed_start 1) h.before
  obtain ⟨hu, hcaching⟩ := h.caching
  have hv := hcaching.not_crashed (by decide) (by decide) hu h.visit
  have ht := not_crashed_run (by decide) (by decide) (hcaching.step h.visit hv) hv h.joined
  obtain ⟨-, hout⟩ := healthy_writer hkeyed h.healthy h.alone h.first h.waiting h.visit h.joined ht
  rw [hout, out_of_not_added h.before h.once, List.nil_append, (hcaching.cached (by decide) (by decide)).next]

theorem published_append (es fs : List Event) : published (es ++ fs) = published es ++ published fs :=
  List.filterMap_append

/-- From the first visit on the player gets the frames of the cache and then every frame. -/
theorem Joins.framesIn (h : Joins writers w before waiting joined s u v t) {css : List ChunkStream}
    (hreads : Fanout.published (before ++ waiting ++ joined) = VirReader.reads css {}) :
    Fanout.framesIn (Fanout.published (before ++ waiting ++ joined)) (t.out w ++ owed (writers.uid w) t) =
      (fromLast (fun x => x.1.isKeyFrame) (frames 0 (Fanout.published (before ++ waiting)))).take maxGOPCap ++
        frames (Fanout.published (before ++ waiting)).length (Fanout.published joined) := by
  have hheader := VirReader.pairwise_reads css {}
  have hvideo := VirReader.isMetadata_reads css {}
  rw [← hreads, published_append] at hheader hvideo
  rw [h.received, published_append, framesIn_append, framesIn_live, framesIn_held h.caching.2
    (List.pairwise_append.mp hheader).1 fun p hp => hvideo p (List.mem_append_left _ hp)]

/-- Until a consumer assigns to one, the packets are as they were published. -/
theorem published_run {es : List Event} {ps : List AvPacket} (h : Cache.Published ps s.mem)
    (hnext : s.mem.next = ps.length) (hrun : run (step writers) es s = some t) (ht : t.loop ≠ .crashed)
    (hes : ∀ w e, .assign w e ∉ es) : Cache.Published (ps ++ published es) t.mem := by
  induction es generalizing s ps with
  | nil =>
      cases hrun
      exact (List.append_nil ps).symm ▸ h
  | cons e es ih =>
      obtain ⟨u, hstep, hrun⟩ := run_cons.mp hrun
      have hu := not_crashed_of_run hrun ht
      have hlen : u.mem.next = (ps ++ published [e]).length := by
        rw [next_step hstep hu, hnext, List.length_append]
      rw [published_cons e es, ← List.append_assoc]
      refine ih ?_ hlen hrun fun w f hf => hes w f (List.mem_cons_of_mem e hf)
      cases does_of_step hstep with
      | @read p mem cache hloop hwrite =>
          rw [mem_of_write hwrite]
          exact h.alloc hnext p
      | crash hloop hpanics => exact absurd rfl hu
      | visit hloop hv honce =>
          rw [mem_visit]
          exact (List.append_nil ps).symm ▸ h
      | @assign w e hloop => exact absurd List.mem_cons_self (hes w e)
      | _ => exact (List.append_nil ps).symm ▸ h

theorem packet_of_held {ps : List AvPacket} {d : Delivery} (hcaching : Caching 1 ps s)
    (hpublished : Cache.Published ps s.mem) (hd : d ∈ s.held) : ps[d.origin]? = some d.packet := by
  have hcached := hcaching.cached (by decide) (by decide)
  rw [held, hcached.actions (by decide) (by decide), delivered_map_ok] at hd
  have hx : ∃ x ∈ ps.zipIdx, d.origin = x.2 ∧ d.packet = s.mem.cell x.2 := by
    simp only [Cache.contents, GopCache.recent_one, List.mem_append, List.mem_map] at hd
    rcases hd with ⟨x, hx, rfl⟩ | ⟨x, hx, rfl⟩ | ⟨x, hx, rfl⟩ | ⟨r, hr, rfl⟩
    · exact ⟨x, Cache.mem_of_lastOf hx, rfl, rfl⟩
    · exact ⟨x, Cache.mem_of_lastOf hx, rfl, rfl⟩
    · exact ⟨x, Cache.mem_of_lastOf hx, rfl, rfl⟩
    · obtain ⟨x, hx, rfl⟩ := List.mem_map.mp (List.mem_of_mem_take hr)
      exact ⟨x, (List.mem_filter.mp (fromLast_subset _ hx)).1, rfl, rfl⟩
  obtain ⟨x, hx, horigin, hpacket⟩ := hx
  have := @getElem?_of_mem_zipIdx ps [] x hx
  rwa [List.append_nil, ← horigin, ← hpublished x hx, ← hpacket] at this

/-- The pass under way is still to come to the writer, or there was a crash in it. -/
def Turning (writers : Writers) (w : Nat) (s : Fanout) : Prop :=
  s.loop = .crashed ∨ ∃ r p range, s.loop = .ranging r p range ∧ writers.uid w ∈ range.due

/-- Nothing is read before the pass has come to the writer. -/
theorem Turning.step (h : Turning writers w s) (hstep : Fanout.step writers s e = some t)
    (he : ¬ e.disturbs writers w) (hvisit : e ≠ .visit (writers.uid w)) :
    published [e] = [] ∧ Turning writers w t := by
  rcases h with hloop | ⟨r, p, range, hloop, hdue⟩
  · rw [step_crashed hloop] at hstep
    cases hstep
  cases does_of_step hstep with
  | read hloop' hwrite => exact absurd (hloop.symm.trans hloop') (by simp)
  | crash hloop' hpanics => exact absurd (hloop.symm.trans hloop') (by simp)
  | @visit key r' p' range' v hloop' hv honce =>
      rw [hloop] at hloop'
      cases hloop'
      refine ⟨rfl, ?_⟩
      rcases @loop_visit writers r p range key v s with heq | heq
      · refine Or.inr ⟨r, p, range.visit key, heq, SyncMap.Range.mem_due_visit.mpr ⟨?_, hdue⟩⟩
        rintro rfl
        exact hvisit rfl
      · exact Or.inl heq
  | done hloop' hempty =>
      rw [hloop] at hloop'
      cases hloop'
      rw [hempty] at hdue
      cases hdue
  | stop hloop' => exact absurd (hloop.symm.trans hloop') (by simp)
  | addWriter hloop' => exact ⟨rfl, Or.inr ⟨r, p, range, hloop, hdue⟩⟩
  | @remove key hloop' =>
      refine ⟨rfl, Or.inr ⟨r, p, range.drop key, ?_, SyncMap.Range.mem_due_drop.mpr ⟨?_, hdue⟩⟩⟩
      · simp [hloop, dropFrom]
      · exact fun heq => he heq.symm
  | assign hloop' => exact ⟨rfl, Or.inr ⟨r, p, range, hloop, hdue⟩⟩

theorem Turning.run {es : List Event} (h : Turning writers w s) (hrun : run (Fanout.step writers) es s = some t)
    (hes : ∀ e ∈ es, ¬ e.disturbs writers w) (hfirst : .visit (writers.uid w) ∉ es) : published es = [] := by
  induction es generalizing s with
  | nil => rfl
  | cons e es ih =>
      obtain ⟨u, hstep, hrun⟩ := run_cons.mp hrun
      obtain ⟨hnone, hturning⟩ := h.step hstep (hes e List.mem_cons_self) fun he =>
        hfirst (he ▸ List.mem_cons_self)
      rw [published_cons, hnone, List.nil_append]
      exact ih hturning hrun (fun f hf => hes f (List.mem_cons_of_mem e hf)) fun hmem =>
        hfirst (List.mem_cons_of_mem e hmem)

/-- Between the joining and the first visit one packet at most is read, which the cache holds at the visit. -/
theorem reads_waiting {es : List Event} (h : Waiting writers w s) (hkeyed : Keyed writers s)
    (hrun : run (step writers) es s = some t) (hes : ∀ e ∈ es, ¬ e.disturbs writers w)
    (hfirst : .visit (writers.uid w) ∉ es) : (published es).length ≤ 1 := by
  induction es generalizing s with
  | nil => exact Nat.zero_le 1
  | cons e es ih =>
      obtain ⟨u, hstep, hrun⟩ := run_cons.mp hrun
      have hrest : ∀ f ∈ es, ¬ f.disturbs writers w := fun f hf => hes f (List.mem_cons_of_mem e hf)
      have hfirst' : .visit (writers.uid w) ∉ es := fun hmem => hfirst (List.mem_cons_of_mem e hmem)
      obtain ⟨hu, -⟩ := h.step hkeyed hstep (hes e List.mem_cons_self) fun he => hfirst (he ▸ List.mem_cons_self)
      rw [published_cons, List.length_append]
      have hread : published [e] = [] ∨ Turning writers w u := by
        cases does_of_step hstep with
        | read hloop hwrite =>
            refine Or.inr (Or.inr ⟨_, _, _, rfl, ?_⟩)
            exact SyncMap.Range.mem_due_start.mpr (Finmap.mem_of_lookup_eq_some h)
        | crash hloop hpanics => exact Or.inr (Or.inl rfl)
        | _ => exact Or.inl rfl
      rcases hread with hnone | hturning
      · rw [hnone, List.length_nil, Nat.zero_add]
        exact ih hu (hkeyed.step hstep) hrun hrest hfirst'
      · rw [hturning.run hrun hrest hfirst', List.length_nil]
        exact List.length_filterMap_le Event.packet? [e]

theorem waiting_of_addWriter (h : step writers s (.addWriter w) = some t) : Waiting writers w t := by
  cases does_of_step h with
  | addWriter hloop => exact Finmap.lookup_insert _

/-- The packets that the player is handed are as they were published, if no consumer has assigned to one before. -/
theorem Joins.packet (h : Joins writers w before waiting joined s u v t)
    (hassign : ∀ w e, .assign w e ∉ before ++ waiting) {d : Delivery}
    (hd : d ∈ t.out w ++ owed (writers.uid w) t) :
    (Fanout.published (before ++ waiting ++ joined))[d.origin]? = some d.packet := by
  obtain ⟨hu, hcaching⟩ := h.caching
  rw [published_append]
  rw [h.received, List.mem_append] at hd
  rcases hd with hd | hd
  · have hpublished : Cache.Published ([] ++ Fanout.published (before ++ .addWriter w :: waiting)) u.mem := by
      refine published_run (fun x hx => by cases hx) rfl h.all hu fun w' e he => hassign w' e ?_
      rw [List.mem_append, List.mem_cons] at he
      rw [List.mem_append]
      rcases he with he | he | he
      · exact Or.inl he
      · cases he
      · exact Or.inr he
    rw [List.nil_append, Joins.published] at hpublished
    have hheld := packet_of_held hcaching hpublished hd
    rw [List.getElem?_append_left (List.getElem?_eq_some_iff.mp hheld).1, hheld]
  · obtain ⟨x, hx, rfl⟩ := List.mem_map.mp hd
    exact getElem?_of_mem_zipIdx_length hx

/-- A player gets of the frames the first 1024 from the last key frame on, and then each one that is published. It
joins at the first visit that a pass pays it, before which one packet at most is read. -/
theorem late_joiner_frames {css : List ChunkStream} (h : Joins writers w before waiting joined s u v t)
    (hreads : published (before ++ waiting ++ joined) = VirReader.reads css {}) :
    (published waiting).length ≤ 1 ∧
      framesIn (published (before ++ waiting ++ joined)) (t.out w ++ owed (writers.uid w) t) =
        (fromLast (fun x => x.1.isKeyFrame) (frames 0 (published (before ++ waiting)))).take maxGOPCap ++
          frames (published (before ++ waiting)).length (published joined) ∧
        ((∀ w e, .assign w e ∉ before ++ waiting) → ∀ d ∈ t.out w ++ owed (writers.uid w) t,
          (published (before ++ waiting ++ joined))[d.origin]? = some d.packet) := by
  have hkeyed : Keyed writers s := run_keeps (fun _ _ _ h hstep => Keyed.step h hstep) (keyed_start 1) h.before
  obtain ⟨added, hadd, hrest⟩ := run_cons.mp h.waiting
  refine ⟨?_, h.framesIn hreads, fun hassign d hd => h.packet hassign hd⟩
  exact reads_waiting (waiting_of_addWriter hadd) (hkeyed.step hadd) hrest
    (fun e he => h.alone e (List.mem_append_left _ he)) h.first

/-! ### A group that does not fit -/

/-- The packets while nobody listens. -/
def alone (ps : List AvPacket) : List Event := ps.flatMap fun p => [.read p, .done]

theorem published_alone (ps : List AvPacket) : published (alone ps) = ps := by
  induction ps with
  | nil => rfl
  | cons p ps ih =>
      rw [alone, List.flatMap_cons, published_append, ← alone, ih]
      rfl

theorem run_alone (writers : Writers) (ps : List AvPacket) :
    ∃ s, run (step writers) (alone ps) (start 1) = some s ∧ s.loop = .reading ∧ s.ws = ∅ ∧ Caching 1 ps s := by
  induction ps using List.reverseRecOn with
  | nil => exact ⟨start 1, rfl, rfl, rfl, caching_start 1⟩
  | append_singleton ps p ih =>
      obtain ⟨s, hrun, hloop, hws, hcaching⟩ := ih
      obtain ⟨cache, hwrite, -⟩ := (hcaching.cached (by decide) (by decide)).write (by decide) (by decide) p
      have hread : step writers s (.read p) = some { s with
          mem := s.mem.alloc p, cache, loop := .ranging s.mem.next p (SyncMap.Range.start s.ws) } := by
        simp only [step, hloop, hwrite]
      have hdue : (SyncMap.Range.start s.ws).due = ∅ := by
        rw [hws]
        exact Finmap.keys_empty
      have hnext := hcaching.step hread (by simp)
      refine ⟨{ s with mem := s.mem.alloc p, cache, loop := .reading }, ?_, rfl, hws, hnext⟩
      rw [alone, List.flatMap_append, ← alone]
      refine run_append.mpr ⟨s, hrun, run_cons.mpr ⟨_, hread, run_cons.mpr ⟨_, ?_, rfl⟩⟩⟩
      simp only [step, hdue, if_true]

def keyChunk : ChunkStream := { typeID := tagVideo, data := [0x17, 1, 0, 0, 0] }
def interChunk : ChunkStream := { typeID := tagVideo, data := [0x27, 1, 0, 0, 0] }

/-- A key frame and then `n` frames that are none. -/
def longGroup (n : Nat) : List AvPacket :=
  VirReader.read keyChunk {} :: List.replicate n (VirReader.read interChunk {})

theorem reads_longGroup (n : Nat) : VirReader.reads (keyChunk :: List.replicate n interChunk) {} = longGroup n := by
  have hinter : ∀ p, VirReader.read interChunk p = VirReader.read interChunk {} := fun p => rfl
  have hrest : ∀ n p, VirReader.reads (List.replicate n interChunk) p =
      List.replicate n (VirReader.read interChunk {}) := by
    intro n
    induction n with
    | zero => exact fun p => rfl
    | succ n ih =>
        intro p
        rw [List.replicate_succ, VirReader.reads, ih, hinter, List.replicate_succ]
  rw [VirReader.reads, hrest, longGroup]

theorem length_fromLast_longGroup (n : Nat) :
    (fromLast (fun x => x.1.isKeyFrame) (frames 0 (longGroup n))).length = n + 1 := by
  have hframes : frames 0 (longGroup n) = (longGroup n).zipIdx := by
    refine List.filter_eq_self.mpr fun x hx => ?_
    have hmem := List.mem_map_of_mem (f := Prod.fst) hx
    rw [List.zipIdx_map_fst] at hmem
    rcases List.mem_cons.mp hmem with heq | hrest
    · rw [heq]
      rfl
    · rw [List.eq_of_mem_replicate hrest]
      rfl
  have hnone : ((List.replicate n (VirReader.read interChunk {})).zipIdx 1).any (fun x => x.1.isKeyFrame) = false := by
    refine List.any_eq_false.mpr fun x hx => ?_
    have hmem := List.mem_map_of_mem (f := Prod.fst) hx
    rw [List.zipIdx_map_fst] at hmem
    rw [List.eq_of_mem_replicate hmem]
    decide
  have hkey : (VirReader.read keyChunk {}).isKeyFrame = true := rfl
  rw [hframes, longGroup, List.zipIdx_cons, fromLast, hnone, if_neg (by decide), if_pos hkey, List.length_cons,
    List.length_zipIdx, List.length_replicate]

/-- A player joins after `n` frames of a group, and the next one is read. -/
theorem joins_longGroup (n : Nat) :
    ∃ s u v, Joins sampleWriters 0 (alone (longGroup n)) [.read (VirReader.read interChunk {})] [] s u v v := by
  obtain ⟨s, hrun, hloop, hws, hcaching⟩ := run_alone sampleWriters (longGroup n)
  obtain ⟨cache, hwrite, -⟩ :=
    (hcaching.cached (by decide) (by decide)).write (by decide) (by decide) (VirReader.read interChunk {})
  have hadd : step sampleWriters s (.addWriter 0) =
      some { s with ws := s.ws.insert (sampleWriters.uid 0) { w := 0 } } := by
    simp only [step, hloop]
  have hread : step sampleWriters { s with ws := s.ws.insert (sampleWriters.uid 0) { w := 0 } }
      (.read (VirReader.read interChunk {})) = some { s with
        ws := s.ws.insert (sampleWriters.uid 0) { w := 0 }
        mem := s.mem.alloc (VirReader.read interChunk {})
        cache
        loop := .ranging s.mem.next (VirReader.read interChunk {})
          (SyncMap.Range.start (s.ws.insert (sampleWriters.uid 0) { w := 0 })) } := by
    simp only [step, hloop, hwrite]
  have hvisit : ∃ v, step sampleWriters { s with
        ws := s.ws.insert (sampleWriters.uid 0) { w := 0 }
        mem := s.mem.alloc (VirReader.read interChunk {})
        cache
        loop := .ranging s.mem.next (VirReader.read interChunk {})
          (SyncMap.Range.start (s.ws.insert (sampleWriters.uid 0) { w := 0 })) }
      (.visit (sampleWriters.uid 0)) = some v := by
    simp only [step, Finmap.lookup_insert]
    exact ⟨_, rfl⟩
  obtain ⟨v, hvisit⟩ := hvisit
  refine ⟨s, _, v, ?_, ?_, ?_, ?_, hrun, run_cons.mpr ⟨_, hadd, run_cons.mpr ⟨_, hread, rfl⟩⟩, hvisit, rfl⟩
  · exact fun i => rfl
  · simp [alone]
  · simp [Event.disturbs]
  · simp

/-- Of a group of 1025 frames that is under way when the player joins it is not handed the last. -/
theorem late_joiner_misses_frame :
    ∃ (s u v : Fanout) (before waiting : List Event),
      Joins sampleWriters 0 before waiting [] s u v v ∧
        published (before ++ waiting) = VirReader.reads (keyChunk :: List.replicate 1024 interChunk) {} ∧
          (fromLast (fun x => x.1.isKeyFrame) (frames 0 (published (before ++ waiting)))).length = 1025 ∧
            (framesIn (published (before ++ waiting)) (v.out 0 ++ owed "player" v)).length = 1024 := by
  obtain ⟨s, u, v, hjoins⟩ := joins_longGroup 1023
  have hlong : longGroup 1023 ++ [VirReader.read interChunk {}] = longGroup 1024 := by
    rw [longGroup, List.cons_append, ← List.replicate_succ', longGroup]
  have hpublished : published (alone (longGroup 1023) ++ [.read (VirReader.read interChunk {})]) = longGroup 1024 := by
    rw [published_append, published_alone, ← hlong]
    rfl
  have hreads : published (alone (longGroup 1023) ++ [.read (VirReader.read interChunk {})] ++ []) =
      VirReader.reads (keyChunk :: List.replicate 1024 interChunk) {} := by
    rw [List.append_nil, hpublished, reads_longGroup]
  have hlength := length_fromLast_longGroup 1024
  have hframes := hjoins.framesIn hreads
  rw [List.append_nil] at hreads hframes
  refine ⟨s, u, v, _, _, hjoins, hreads, by rw [hpublished, hlength], ?_⟩
  rw [show owed "player" v = owed (sampleWriters.uid 0) v from rfl, hframes, hpublished]
  rw [List.length_append, List.length_take, hlength]
  rfl

theorem late_joiner_frames_sample :
    ∃ (s u v : Fanout) (before waiting : List Event),
      Joins sampleWriters 0 before waiting [] s u v v ∧
        published (before ++ waiting ++ []) = VirReader.reads [keyChunk, interChunk, interChunk] {} ∧
          (published waiting).length ≤ 1 ∧
            framesIn (published (before ++ waiting ++ [])) (v.out 0 ++ owed (sampleWriters.uid 0) v) =
              (fromLast (fun x => x.1.isKeyFrame) (frames 0 (published (before ++ waiting)))).take maxGOPCap ++
                frames (published (before ++ waiting)).length (published []) := by
  obtain ⟨s, u, v, hjoins⟩ := joins_longGroup 1
  have hreads : published (alone (longGroup 1) ++ [.read (VirReader.read interChunk {})] ++ []) =
      VirReader.reads [keyChunk, interChunk, interChunk] {} := rfl
  obtain ⟨hone, hframes, -⟩ := late_joiner_frames hjoins hreads
  exact ⟨s, u, v, _, _, hjoins, hreads, hone, hframes⟩

end Fanout

end Livego
