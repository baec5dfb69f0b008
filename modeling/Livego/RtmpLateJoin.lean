import Livego.RtmpGop

/-! What the cache holds after any packets, and with that what it sends to one who joins late. -/

namespace Livego

open Fallible Outcome Groups

/-- What is pointed to where. -/
def Delivery.of (mem : Memory) (shared : Bool) (x : AvPacket × Nat) : Delivery := ⟨x.2, shared, mem.cell x.2⟩

namespace Cache

/-- The last packet of a kind, with its position. -/
def lastOf (kind : AvPacket → Bool) (ps : List AvPacket) : Option (AvPacket × Nat) :=
  (ps.zipIdx.filter fun x => kind x.1).getLast?

def special (last : Option (AvPacket × Nat)) : SpecialCache := { full := last.isSome, p := last.map Prod.snd }

/-- What `Write` hands on to the ring: video packets that are not sequence headers, and what is neither metadata nor
video and has no header. -/
def toGop (p : AvPacket) : Bool :=
  !p.isMetadata && (if p.isVideo then p.header.any (fun vh => !vh.isSeq) else p.header.isNone)

def grouped (ps : List AvPacket) : List (AvPacket × Nat) := ps.zipIdx.filter fun x => toGop x.1

/-- The cache after the packets, each of which is pointed to by its position. -/
structure Cached (num : Nat) (ps : List AvPacket) (next : Nat) (cache : Cache) : Prop where
  next : next = ps.length
  metadata : cache.metadata = special (lastOf AvPacket.isMetadata ps)
  videoSeq : cache.videoSeq = special (lastOf AvPacket.isVideoSeq ps)
  audioSeq : cache.audioSeq = special (lastOf AvPacket.isAudioSeq ps)
  gop : GopCache.Kept num (grouped ps) cache.gop

variable {num next : Nat} {ps : List AvPacket} {p : AvPacket} {mem : Memory} {cache : Cache}
  {kind : AvPacket → Bool}

theorem zipIdx_concat (ps : List AvPacket) (p : AvPacket) : (ps ++ [p]).zipIdx = ps.zipIdx ++ [(p, ps.length)] := by
  rw [List.zipIdx_append, Nat.zero_add]
  rfl

theorem lastOf_concat (ps : List AvPacket) (p : AvPacket) :
    lastOf kind (ps ++ [p]) = if kind p then some (p, ps.length) else lastOf kind ps := by
  rw [lastOf, zipIdx_concat, List.filter_append]
  split_ifs with h
  · rw [List.filter_cons_of_pos (by simpa using h), List.filter_nil, List.getLast?_concat]
  · rw [List.filter_cons_of_neg (by simpa using h), List.filter_nil, List.append_nil, lastOf]

theorem grouped_concat (ps : List AvPacket) (p : AvPacket) :
    grouped (ps ++ [p]) = if toGop p then grouped ps ++ [(p, ps.length)] else grouped ps := by
  rw [grouped, zipIdx_concat, List.filter_append]
  split_ifs with h
  · rw [List.filter_cons_of_pos (by simpa using h), List.filter_nil, grouped]
  · rw [List.filter_cons_of_neg (by simpa using h), List.filter_nil, List.append_nil, grouped]

theorem cached_newCache (num : Nat) : Cached num [] 0 (newCache num) :=
  ⟨rfl, rfl, rfl, rfl, GopCache.holds_newGopCache num⟩

/-- What `Write` does by kind of packet. -/
theorem write_eq (p : AvPacket) (mem : Memory) (cache : Cache) :
    Cache.write p (mem, cache) =
      if p.isMetadata then .ok () (mem.alloc p, { cache with metadata := cache.metadata.write mem.next })
      else if p.isVideoSeq then .ok () (mem.alloc p, { cache with videoSeq := cache.videoSeq.write mem.next })
      else if p.isAudioSeq then .ok () (mem.alloc p, { cache with audioSeq := cache.audioSeq.write mem.next })
      else if toGop p then onGop (GopCache.write mem.next p) (mem.alloc p, cache)
      else .ok () (mem.alloc p, cache) := by
  unfold Cache.write AvPacket.isVideoSeq AvPacket.isAudioSeq toGop
  cases p.isMetadata with
  | true => simp
  | false =>
      cases p.isVideo with
      | true =>
          cases p.header with
          | none => simp
          | some vh => cases hseq : vh.isSeq <;> simp [hseq]
      | false =>
          cases p.header with
          | none => simp
          | some ah => by_cases haac : ah.soundFormat = soundAac ∧ ah.aacPacketType = aacSeqhdr <;> simp [haac]

/-- A packet is of one kind at most. -/
theorem kinds_exclusive (p : AvPacket) :
    (p.isMetadata = true → p.isVideoSeq = false ∧ p.isAudioSeq = false ∧ toGop p = false) ∧
      (p.isVideoSeq = true → p.isMetadata = false ∧ p.isAudioSeq = false ∧ toGop p = false) ∧
        (p.isAudioSeq = true → p.isMetadata = false ∧ p.isVideoSeq = false ∧ toGop p = false) := by
  unfold AvPacket.isVideoSeq AvPacket.isAudioSeq toGop
  cases p.isMetadata <;> cases p.isVideo <;> cases p.header <;> simp

theorem header_of_toGop (h : toGop p = true) : p.isVideo = true → p.header ≠ none := by
  intro hvideo hnone
  simp [toGop, hvideo, hnone] at h

/-- A packet changes one of the caches at most. -/
theorem Cached.write (h : Cached num ps mem.next cache) (hn : 0 < num) (hn2 : num ≤ 2) (p : AvPacket) :
    ∃ cache', Cache.write p (mem, cache) = .ok () (mem.alloc p, cache') ∧
      Cached num (ps ++ [p]) (mem.alloc p).next cache' := by
  have hr : mem.next = ps.length := h.next
  have hnext : (mem.alloc p).next = (ps ++ [p]).length := by
    rw [List.length_append, List.length_singleton, ← hr]
    rfl
  obtain ⟨hmeta, hvideo, haudio⟩ := kinds_exclusive p
  rw [write_eq]
  by_cases hm : p.isMetadata = true
  · obtain ⟨hv, ha, hg⟩ := hmeta hm
    refine ⟨{ cache with metadata := cache.metadata.write mem.next }, if_pos hm, hnext, ?_, ?_, ?_, ?_⟩
    · rw [lastOf_concat, if_pos hm, hr]
      rfl
    · rw [lastOf_concat, hv]
      exact h.videoSeq
    · rw [lastOf_concat, ha]
      exact h.audioSeq
    · rw [grouped_concat, hg]
      exact h.gop
  rw [if_neg hm]
  by_cases hv : p.isVideoSeq = true
  · obtain ⟨-, ha, hg⟩ := hvideo hv
    refine ⟨{ cache with videoSeq := cache.videoSeq.write mem.next }, if_pos hv, hnext, ?_, ?_, ?_, ?_⟩
    · rw [lastOf_concat, if_neg hm]
      exact h.metadata
    · rw [lastOf_concat, if_pos hv, hr]
      rfl
    · rw [lastOf_concat, ha]
      exact h.audioSeq
    · rw [grouped_concat, hg]
      exact h.gop
  rw [if_neg hv]
  by_cases ha : p.isAudioSeq = true
  · obtain ⟨-, -, hg⟩ := haudio ha
    refine ⟨{ cache with audioSeq := cache.audioSeq.write mem.next }, if_pos ha, hnext, ?_, ?_, ?_, ?_⟩
    · rw [lastOf_concat, if_neg hm]
      exact h.metadata
    · rw [lastOf_concat, if_neg hv]
      exact h.videoSeq
    · rw [lastOf_concat, if_pos ha, hr]
      rfl
    · rw [grouped_concat, hg]
      exact h.gop
  rw [if_neg ha]
  have hothers : ∀ gop, GopCache.Kept num (grouped (ps ++ [p])) gop →
      Cached num (ps ++ [p]) (mem.alloc p).next { cache with gop } := by
    intro gop hgop
    refine ⟨hnext, ?_, ?_, ?_, hgop⟩
    · rw [lastOf_concat, if_neg hm]
      exact h.metadata
    · rw [lastOf_concat, if_neg hv]
      exact h.videoSeq
    · rw [lastOf_concat, if_neg ha]
      exact h.audioSeq
  by_cases hg : toGop p = true
  · obtain ⟨gop, hwrite, hkept⟩ := h.gop.write (r := mem.next) hn hn2 (header_of_toGop hg)
    refine ⟨{ cache with gop }, by rw [if_pos hg, onGop, hwrite], hothers gop ?_⟩
    rw [grouped_concat, if_pos hg, ← hr]
    exact hkept
  · refine ⟨cache, if_neg hg, hothers cache.gop ?_⟩
    rw [grouped_concat, if_neg hg]
    exact h.gop

/-- `Write` for one packet after the other. -/
def writeAll (ps : List AvPacket) : Call GoError (Memory × Cache) Unit := forM ps write

theorem writeAll_concat (ps : List AvPacket) (p : AvPacket) :
    writeAll (ps ++ [p]) = writeAll ps >>= fun _ => write p := Call.forM_concat ps p write

/-- Nothing but the parameter of `Write` is pointed to. -/
def Published (ps : List AvPacket) (mem : Memory) : Prop := ∀ x ∈ ps.zipIdx, mem.cell x.2 = x.1

theorem Published.alloc (h : Published ps mem) (hnext : mem.next = ps.length) (p : AvPacket) :
    Published (ps ++ [p]) (mem.alloc p) := by
  intro x hx
  rw [zipIdx_concat, List.mem_append, List.mem_singleton] at hx
  rcases hx with hx | rfl
  · have hlt : x.2 < ps.length := by
      obtain ⟨hlt, -⟩ := List.mem_zipIdx' hx
      exact hlt
    rw [Memory.cell_alloc, if_neg (by omega)]
    exact h x hx
  · rw [Memory.cell_alloc, if_pos hnext.symm]

theorem writeAll_cached (hn : 0 < num) (hn2 : num ≤ 2) (ps : List AvPacket) :
    ∃ mem cache, writeAll ps ({}, newCache num) = .ok () (mem, cache) ∧ Cached num ps mem.next cache ∧
      Published ps mem := by
  induction ps using List.reverseRecOn with
  | nil => exact ⟨{}, newCache num, rfl, cached_newCache num, fun x hx => by simp at hx⟩
  | append_singleton ps p ih =>
      obtain ⟨mem, cache, hwrite, hcached, hpublished⟩ := ih
      obtain ⟨cache', hp, hcached'⟩ := hcached.write hn hn2 p
      exact ⟨mem.alloc p, cache', by rw [writeAll_concat, Call.bind_of_ok hwrite, hp], hcached',
        hpublished.alloc hcached.next p⟩

/-! ### What is sent -/

/-- What a writer is handed from a cache of the packets. -/
def contents (num : Nat) (ps : List AvPacket) (mem : Memory) : List Delivery :=
  (lastOf AvPacket.isMetadata ps).toList.map (Delivery.of mem false) ++
    ((lastOf AvPacket.isVideoSeq ps).toList.map (Delivery.of mem false) ++
      ((lastOf AvPacket.isAudioSeq ps).toList.map (Delivery.of mem false) ++
        (GopCache.recent num (grouped ps)).flatten.map fun r => ⟨r, true, mem.cell r⟩))

theorem special_actions (last : Option (AvPacket × Nat)) (mem : Memory) :
    (special last).actions mem = (last.toList.map (Delivery.of mem false)).map .ok := by
  cases last <;> rfl

theorem Cached.actions (h : Cached num ps next cache) (hn : 0 < num) (hn2 : num ≤ 2) (mem : Memory) :
    cache.actions mem = (contents num ps mem).map .ok := by
  rw [Cache.actions, h.metadata, h.videoSeq, h.audioSeq, special_actions, special_actions, special_actions,
    h.gop.actions hn hn2, contents, List.map_append, List.map_append, List.map_append]

/-- Sending the cache is handing over its contents, whatever the writer. -/
theorem Cached.send (h : Cached num ps next cache) (hn : 0 < num) (hn2 : num ≤ 2) (mem : Memory) {ω : Type}
    (write : Delivery → Call GoError ω Unit) : cache.send mem write = forM (contents num ps mem) write := by
  rw [send_eq, h.actions hn hn2, forM_act_ok]

/-- What one who joins after the packets is to be sent. -/
def replay (ps : List AvPacket) : List AvPacket :=
  (ps.filter AvPacket.isMetadata).getLast?.toList ++ ((ps.filter AvPacket.isVideoSeq).getLast?.toList ++
    ((ps.filter AvPacket.isAudioSeq).getLast?.toList ++
      (fromLast AvPacket.isKeyFrame (ps.filter AvPacket.isFrame)).take maxGOPCap))

theorem filter_zipIdx (ps : List AvPacket) (kind : AvPacket → Bool) :
    (ps.zipIdx.filter fun x => kind x.1).map Prod.fst = ps.filter kind := by
  conv_rhs => rw [← List.zipIdx_map_fst 0 ps, List.filter_map]
  rfl

theorem lastOf_packets (ps : List AvPacket) (kind : AvPacket → Bool) :
    (lastOf kind ps).toList.map Prod.fst = (ps.filter kind).getLast?.toList := by
  rw [lastOf, ← filter_zipIdx, List.getLast?_map]
  cases List.getLast? _ <;> rfl

theorem mem_of_lastOf {x : AvPacket × Nat} (h : x ∈ (lastOf kind ps).toList) : x ∈ ps.zipIdx :=
  (List.mem_filter.mp (List.mem_of_getLast? (Option.mem_toList.mp h))).1

theorem Published.map_packet (h : Published ps mem) (shared : Bool) {xs : List (AvPacket × Nat)}
    (hxs : ∀ x ∈ xs, x ∈ ps.zipIdx) : (xs.map (Delivery.of mem shared)).map Delivery.packet = xs.map Prod.fst := by
  rw [List.map_map]
  exact List.map_congr_left fun x hx => h x (hxs x hx)

theorem toGop_eq_isFrame (h : p.header ≠ none) : toGop p = p.isFrame := by
  unfold toGop AvPacket.isFrame
  cases hheader : p.header with
  | none => exact absurd hheader h
  | some vh => cases p.isMetadata <;> cases p.isVideo <;> simp

/-- Before a packet is changed the contents are those of the published packets. -/
theorem contents_packets (hpublished : Published ps mem) (hheader : ∀ p ∈ ps, p.header ≠ none) :
    (contents 1 ps mem).map Delivery.packet = replay ps := by
  have hgrouped : (grouped ps).map Prod.fst = ps.filter AvPacket.isFrame := by
    rw [grouped, filter_zipIdx]
    exact List.filter_congr fun p hp => toGop_eq_isFrame (hheader p hp)
  have hgop : ((GopCache.recent 1 (grouped ps)).flatten.map fun r => (⟨r, true, mem.cell r⟩ : Delivery)) =
      ((fromLast (fun x => x.1.isKeyFrame) (grouped ps)).take maxGOPCap).map (Delivery.of mem true) := by
    rw [GopCache.recent_one, ← List.map_take, List.map_map]
    rfl
  have hmem : ∀ x ∈ (fromLast (fun x => x.1.isKeyFrame) (grouped ps)).take maxGOPCap, x ∈ ps.zipIdx := fun x hx =>
    (List.mem_filter.mp (fromLast_subset _ (List.mem_of_mem_take hx))).1
  rw [contents, hgop, replay, List.map_append, List.map_append, List.map_append,
    hpublished.map_packet _ fun _ => mem_of_lastOf, hpublished.map_packet _ fun _ => mem_of_lastOf,
    hpublished.map_packet _ fun _ => mem_of_lastOf, hpublished.map_packet _ hmem, lastOf_packets, lastOf_packets,
    lastOf_packets, ← hgrouped, fromLast_map, List.map_take]
  rfl

/-- Whatever was written, if every packet has its tag as a header, a writer is sent the last metadata, the last
sequence headers and then the frames from the last key frame on. -/
theorem late_joiner_replay (ps : List AvPacket) (hheader : ∀ p ∈ ps, p.header ≠ none) :
    ∃ (mem : Memory) (cache : Cache) (ds : List Delivery), writeAll ps ({}, newCache 1) = .ok () (mem, cache) ∧
      (∀ (ω : Type) (write : Delivery → Call GoError ω Unit), cache.send mem write = forM ds write) ∧
        ds.map Delivery.packet = replay ps := by
  obtain ⟨mem, cache, hwrite, hcached, hpublished⟩ := @writeAll_cached 1 (by decide) (by decide) ps
  exact ⟨mem, cache, contents 1 ps mem, hwrite, fun ω write => hcached.send (by decide) (by decide) mem write,
    contents_packets hpublished hheader⟩

/-- Metadata, a sequence header of each kind, raw audio and two groups of pictures. -/
def samplePackets : List AvPacket :=
  [{ isMetadata := true, header := some {}, data := [2] },
    { isVideo := true, header := some { frameType := frameKey, avcPacketType := avcSeqhdr } },
    { isAudio := true, header := some { soundFormat := soundAac, aacPacketType := aacSeqhdr } },
    GopCache.keyFrame, GopCache.interFrame,
    { isAudio := true, header := some { soundFormat := soundAac, aacPacketType := 1 } },
    GopCache.keyFrame, { GopCache.interFrame with timeStamp := 40 }]

theorem late_joiner_replay_sample :
    ∃ (mem : Memory) (cache : Cache) (ds : List Delivery),
      writeAll samplePackets ({}, newCache 1) = .ok () (mem, cache) ∧
        (∀ (ω : Type) (write : Delivery → Call GoError ω Unit), cache.send mem write = forM ds write) ∧
          ds.map Delivery.packet = replay samplePackets :=
  late_joiner_replay samplePackets (by decide)

end Cache

end Livego
