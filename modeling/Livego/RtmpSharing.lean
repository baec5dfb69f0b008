import Livego.RtmpLateJoin

/-! Two writers that are sent one cache. The special caches send copies, the ring the packets themselves, so that
what the first writer's consumer makes of these the second writer gets. -/

namespace Livego

open Fallible Outcome

/-- A writer that keeps what it is handed, and whose `i`-th `Write` returns what `answer i` says. -/
def record (answer : Nat → Option GoError) (d : Delivery) : Call GoError (List Delivery) Unit := fun out =>
  match answer out.length with
  | none => .ok () (out ++ [d])
  | some e => .err e (out ++ [d])

/-- The consumer of a writer assigns to `Header` and `Data` of the `item`-th packet that the writer was handed. -/
structure Assignment where
  item : Nat
  header : Option Tag
  data : Bytes
  deriving DecidableEq, Repr

/-- An assignment to a copy is seen by nobody else. -/
def assign (handed : List Delivery) (mem : Memory) (e : Assignment) : Memory :=
  match handed[e.item]? with
  | none => mem
  | some d =>
    if d.shared then
      let p := mem.cell d.origin
      { mem with cell := Function.update mem.cell d.origin { p with header := e.header, data := e.data } }
    else mem

def assignAll (handed : List Delivery) (es : List Assignment) (mem : Memory) : Memory :=
  es.foldl (assign handed) mem

/-- The last assignment, if there is one, to the packet that `r` points to. -/
def lastTo (handed : List Delivery) (es : List Assignment) (r : Nat) : Option Assignment :=
  (es.filter fun e => handed[e.item]?.any fun d => d.shared && d.origin == r).getLast?

/-- The fields that a consumer assigns to. -/
def SameFields (p q : AvPacket) : Prop := p.header = q.header ∧ p.data = q.data

instance (p q : AvPacket) : Decidable (SameFields p q) := inferInstanceAs (Decidable (_ ∧ _))

theorem cell_assign (handed : List Delivery) (e : Assignment) (mem : Memory) (r : Nat) :
    (assign handed mem e).cell r =
      if handed[e.item]?.any (fun d => d.shared && d.origin == r) then
        { mem.cell r with header := e.header, data := e.data }
      else mem.cell r := by
  unfold assign
  cases handed[e.item]? with
  | none => rfl
  | some d =>
      cases hshared : d.shared with
      | false => simp [hshared]
      | true =>
          by_cases hr : d.origin = r
          · simp [hshared, hr]
          · simp [hshared, hr, Function.update_of_ne (Ne.symm hr)]

/-- A packet has the fields that were assigned to it last. -/
theorem sameFields_assignAll (handed : List Delivery) (es : List Assignment) (mem : Memory) (r : Nat) :
    SameFields (mem.cell r) ((assignAll handed es mem).cell r) ↔
      ∀ e, lastTo handed es r = some e → e.header = (mem.cell r).header ∧ e.data = (mem.cell r).data := by
  induction es using List.reverseRecOn with
  | nil => exact ⟨fun _ _ he => absurd he (by simp [lastTo]), fun _ => ⟨rfl, rfl⟩⟩
  | append_singleton es e ih =>
      have hlast : assignAll handed (es ++ [e]) mem = assign handed (assignAll handed es mem) e := by
        rw [assignAll, List.foldl_append]
        rfl
      rw [hlast, cell_assign, lastTo, List.filter_append]
      by_cases hto : handed[e.item]?.any (fun d => d.shared && d.origin == r) = true
      · rw [if_pos hto, List.filter_cons_of_pos (by simpa using hto), List.filter_nil, List.getLast?_concat]
        refine ⟨fun hsame f hf => ?_, fun hall => ?_⟩
        · cases hf
          exact ⟨hsame.1.symm, hsame.2.symm⟩
        · exact ⟨(hall e rfl).1.symm, (hall e rfl).2.symm⟩
      · rw [if_neg hto, List.filter_cons_of_neg (by simpa using hto), List.filter_nil, List.append_nil]
        exact ih

/-- Only packets that were handed over themselves are assigned to. -/
theorem lastTo_shared {handed : List Delivery} {es : List Assignment} {r : Nat} {e : Assignment}
    (h : lastTo handed es r = some e) : ∃ d ∈ handed, d.shared = true ∧ d.origin = r := by
  have hto := (List.mem_filter.mp (List.mem_of_getLast? h)).2
  obtain ⟨d, hd, hboth⟩ := (Option.any_eq_true _ _).mp hto
  rw [Bool.and_eq_true, beq_iff_eq] at hboth
  exact ⟨d, List.mem_of_getElem? hd, hboth⟩

/-- What is handed over before the first panic. -/
def delivered : List (Except Panic Delivery) → List Delivery
  | .ok d :: actions => d :: delivered actions
  | _ => []

/-- A writer is handed the first of the packets, as far as it takes them. -/
theorem handed_prefix {answer : Nat → Option GoError} {actions : List (Except Panic Delivery)}
    {out before : List Delivery}
    (h : forM actions (act (record answer)) before = .ok () out ∨
      ∃ e, forM actions (act (record answer)) before = .err e out) :
    ∃ handed, handed <+: delivered actions ∧ out = before ++ handed := by
  induction actions generalizing before with
  | nil =>
      rcases h with h | ⟨e, h⟩
      · cases h
        exact ⟨[], List.nil_prefix, (List.append_nil _).symm⟩
      · cases h
  | cons a actions ih =>
      cases a with
      | error f => rcases h with h | ⟨e, h⟩ <;> cases h
      | ok d =>
          rw [Call.forM_apply_cons] at h
          cases hanswer : answer before.length with
          | none =>
              have hrecord : act (record answer) (.ok d) before = .ok () (before ++ [d]) := by
                rw [act, record, hanswer]
              simp only [hrecord] at h
              obtain ⟨handed, hfront, rfl⟩ := ih h
              refine ⟨d :: handed, ?_, by rw [List.append_assoc, List.singleton_append]⟩
              exact List.cons_prefix_cons.mpr ⟨rfl, hfront⟩
          | some e =>
              have hrecord : act (record answer) (.ok d) before = .err e (before ++ [d]) := by
                rw [act, record, hanswer]
              simp only [hrecord, reduceCtorEq, false_or, err.injEq] at h
              obtain ⟨-, -, rfl⟩ := h
              exact ⟨[d], List.cons_prefix_cons.mpr ⟨rfl, List.nil_prefix⟩, rfl⟩

namespace Cache

variable {mem mem' : Memory} {cache cache' : Cache}

/-- The cache is sent to a writer, which is handed `out` of it. -/
def Sends (cache : Cache) (mem : Memory) (answer : Nat → Option GoError) (out : List Delivery) : Prop :=
  cache.send mem (record answer) [] = .ok () out ∨ ∃ e, cache.send mem (record answer) [] = .err e out

theorem Sends.handed_prefix {answer : Nat → Option GoError} {out : List Delivery}
    (h : cache.Sends mem answer out) : out <+: delivered (cache.actions mem) := by
  rw [Sends, send_eq] at h
  obtain ⟨handed, hfront, rfl⟩ := Livego.handed_prefix h
  exact hfront

/-- Which packet is handed over does not depend on what is in it. -/
def retarget (mem : Memory) (d : Delivery) : Delivery := { d with packet := mem.cell d.origin }

theorem actions_retarget (cache : Cache) (mem mem' : Memory) :
    cache.actions mem' = (cache.actions mem).map (Except.map (retarget mem')) := by
  have hspecial : ∀ c : SpecialCache, c.actions mem' = (c.actions mem).map (Except.map (retarget mem')) := by
    intro c
    unfold SpecialCache.actions
    cases c.full <;> cases c.p <;> rfl
  have harray : ∀ array : GopArray, array.actions mem' = (array.actions mem).map (Except.map (retarget mem')) := by
    intro array
    rw [GopArray.actions, GopArray.actions, List.map_map]
    refine List.map_congr_left fun i _ => ?_
    simp only [Function.comp_apply]
    cases array.packets[i]? <;> rfl
  have hturn : ∀ o : Option (Option GopArray),
      GopCache.turnActions mem' o = (GopCache.turnActions mem o).map (Except.map (retarget mem')) := by
    intro o
    rcases o with _ | _ | array
    · rfl
    · rfl
    · exact harray array
  have hgop : cache.gop.actions mem' = (cache.gop.actions mem).map (Except.map (retarget mem')) := by
    rw [GopCache.actions, GopCache.actions]
    split
    · rfl
    · rw [List.map_flatMap]
      simp only [hturn]
  rw [actions, actions, hspecial, hspecial, hspecial, hgop, List.map_append, List.map_append, List.map_append]

theorem delivered_retarget (f : Delivery → Delivery) (actions : List (Except Panic Delivery)) :
    delivered (actions.map (Except.map f)) = (delivered actions).map f := by
  induction actions with
  | nil => rfl
  | cons a actions ih =>
      cases a with
      | ok d =>
          rw [delivered, List.map_cons, List.map_cons, ← ih]
          rfl
      | error e => rfl

end Cache

/-! ### Which packets the caches point to -/

namespace GopCache

def Shares (gopCache : GopCache) (r : Nat) : Prop := ∃ array, some array ∈ gopCache.gops ∧ r ∈ array.packets

variable {gopCache gopCache' : GopCache} {chunk r : Nat}

theorem mem_put {array : GopArray} (h : r ∈ (array.put chunk).packets) : r = chunk ∨ r ∈ array.packets := by
  by_cases hfull : maxGOPCap ≤ array.index
  · rw [GopArray.put_of_full hfull] at h
    exact Or.inr h
  · rw [GopArray.put_of_lt (by omega), List.mem_append, List.mem_singleton] at h
    exact h.symm

/-- A slot is replaced by an array that points to the new packet and to packets of the ring. -/
theorem Shares.of_set {array : GopArray} {i : Nat} (harray : ∀ r ∈ array.packets, r = chunk ∨ gopCache.Shares r)
    (hgops : gopCache'.gops = gopCache.gops.set i (some array)) (h : gopCache'.Shares r) :
    r = chunk ∨ gopCache.Shares r := by
  obtain ⟨found, hfound, hr⟩ := h
  rw [hgops] at hfound
  rcases List.mem_or_eq_of_mem_set hfound with hold | hnew
  · exact Or.inr ⟨found, hold, hr⟩
  · cases hnew
    exact harray r hr

theorem Shares.of_writeToArray {startNew : Bool} (h : writeToArray chunk startNew gopCache = .ok () gopCache')
    (hr : gopCache'.Shares r) : r = chunk ∨ gopCache.Shares r := by
  have hfresh : ∀ array : GopArray, array.packets = [] → ∀ r ∈ (array.put chunk).packets,
      r = chunk ∨ gopCache.Shares r := by
    intro array hempty r hmem
    rcases mem_put hmem with heq | hold
    · exact Or.inl heq
    · rw [hempty] at hold
      cases hold
  unfold writeToArray at h
  split at h
  · split at h
    · cases h
    · split at h
      · cases h
      · cases h
        exact Shares.of_set (hfresh GopArray.newArray rfl) rfl hr
    · split at h
      · cases h
      · cases h
        exact Shares.of_set (hfresh (GopArray.reset _) rfl) rfl hr
  · split at h
    · cases h
    · split at h
      · cases h
      · cases h
      · next array hslot =>
          cases h
          refine Shares.of_set (fun r hmem => ?_) rfl hr
          rcases mem_put hmem with heq | hold
          · exact Or.inl heq
          · exact Or.inr ⟨array, List.mem_of_getElem? hslot, hold⟩

theorem Shares.of_write {p : AvPacket} (h : write chunk p gopCache = .ok () gopCache') (hr : gopCache'.Shares r) :
    r = chunk ∨ gopCache.Shares r := by
  unfold write at h
  split at h
  · cases h
  · split at h
    · exact @Shares.of_writeToArray { gopCache with start := true } _ _ _ _ h hr
    · cases h
      exact Or.inr hr

theorem mem_of_replayed {i : Nat} {slot : Option GopArray} (h : gopCache.replayed i = some slot) :
    slot ∈ gopCache.gops := by
  unfold replayed at h
  dsimp only at h
  split_ifs at h <;> exact List.mem_of_getElem? h

/-- What is sent of the ring is what the ring points to. -/
theorem shares_of_actions {mem : Memory} {d : Delivery} (h : .ok d ∈ gopCache.actions mem) :
    d.shared = true ∧ gopCache.Shares d.origin := by
  unfold actions at h
  split at h
  · simp at h
  · obtain ⟨i, -, hd⟩ := List.mem_flatMap.mp h
    cases hslot : gopCache.replayed i with
    | none => simp [hslot, turnActions] at hd
    | some slot =>
        cases slot with
        | none => simp [hslot, turnActions] at hd
        | some array =>
            rw [hslot, turnActions, GopArray.actions] at hd
            obtain ⟨j, -, hj⟩ := List.mem_map.mp hd
            cases hpacket : array.packets[j]? with
            | none => simp [hpacket] at hj
            | some packet =>
                simp only [hpacket, Except.ok.injEq] at hj
                subst hj
                exact ⟨rfl, array, mem_of_replayed hslot, List.mem_of_getElem? hpacket⟩

end GopCache

namespace Cache

def Copies (cache : Cache) (r : Nat) : Prop :=
  cache.metadata.p = some r ∨ cache.videoSeq.p = some r ∨ cache.audioSeq.p = some r

/-- No packet of the ring is also one that copies are sent of. -/
structure Separate (next : Nat) (cache : Cache) : Prop where
  copies : ∀ r, cache.Copies r → r < next
  shares : ∀ r, cache.gop.Shares r → r < next
  apart : ∀ r, cache.Copies r → ¬ cache.gop.Shares r

variable {mem mem' : Memory} {cache cache' : Cache}

theorem separate_newCache (num next : Nat) : Separate next (newCache num) := by
  have hempty : ∀ r, ¬ (newCache num).gop.Shares r := by
    rintro r ⟨array, harray, -⟩
    cases List.eq_of_mem_replicate harray
  refine ⟨fun r hr => ?_, fun r hr => absurd hr (hempty r), fun r _ => hempty r⟩
  rcases hr with hr | hr | hr <;> cases hr

/-- A new packet goes to one of the special caches. -/
theorem Separate.special (h : Separate mem.next cache) (p : AvPacket) (hgop : cache'.gop = cache.gop)
    (hcopies : ∀ r, cache'.Copies r → r = mem.next ∨ cache.Copies r) : Separate (mem.alloc p).next cache' := by
  rw [Memory.next_alloc]
  refine ⟨fun r hr => ?_, fun r hr => ?_, fun r hr hs => ?_⟩
  · rcases hcopies r hr with rfl | hold
    · omega
    · have := h.copies r hold
      omega
  · have := h.shares r (hgop ▸ hr)
    omega
  · rw [hgop] at hs
    rcases hcopies r hr with rfl | hold
    · have := h.shares _ hs
      omega
    · exact h.apart r hold hs

/-- A new packet goes to the ring. -/
theorem Separate.ring (h : Separate mem.next cache) (p : AvPacket) (hcopies : ∀ r, cache'.Copies r → cache.Copies r)
    (hshares : ∀ r, cache'.gop.Shares r → r = mem.next ∨ cache.gop.Shares r) :
    Separate (mem.alloc p).next cache' := by
  rw [Memory.next_alloc]
  refine ⟨fun r hr => ?_, fun r hr => ?_, fun r hr hs => ?_⟩
  · have := h.copies r (hcopies r hr)
    omega
  · rcases hshares r hr with rfl | hold
    · omega
    · have := h.shares r hold
      omega
  · rcases hshares r hs with rfl | hold
    · have := h.copies _ (hcopies _ hr)
      omega
    · exact h.apart r (hcopies r hr) hold

theorem Separate.write {p : AvPacket} (h : Separate mem.next cache)
    (hwrite : Cache.write p (mem, cache) = .ok () (mem', cache')) : Separate mem'.next cache' := by
  rw [write_eq] at hwrite
  split at hwrite
  · cases hwrite
    refine h.special p rfl fun r hr => ?_
    rcases hr with hr | hr
    · exact Or.inl (Option.some.inj hr).symm
    · exact Or.inr (Or.inr hr)
  split at hwrite
  · cases hwrite
    refine h.special p rfl fun r hr => ?_
    rcases hr with hr | hr | hr
    · exact Or.inr (Or.inl hr)
    · exact Or.inl (Option.some.inj hr).symm
    · exact Or.inr (Or.inr (Or.inr hr))
  split at hwrite
  · cases hwrite
    refine h.special p rfl fun r hr => ?_
    rcases hr with hr | hr | hr
    · exact Or.inr (Or.inl hr)
    · exact Or.inr (Or.inr (Or.inl hr))
    · exact Or.inl (Option.some.inj hr).symm
  split at hwrite
  · cases hgop : GopCache.write mem.next p cache.gop with
    | ok u gop =>
        rw [onGop, hgop] at hwrite
        cases hwrite
        exact h.ring p (fun r hr => hr) fun r hr => hr.of_write hgop
    | _ => simp [onGop, hgop] at hwrite
  · cases hwrite
    exact h.ring p (fun r hr => hr) fun r hr => Or.inr hr

theorem separate_writeAll {num : Nat} {ps : List AvPacket}
    (h : writeAll ps ({}, newCache num) = .ok () (mem, cache)) : Separate mem.next cache := by
  induction ps using List.reverseRecOn generalizing mem cache with
  | nil =>
      cases h
      exact separate_newCache num 0
  | append_singleton ps p ih =>
      rw [writeAll_concat] at h
      obtain ⟨u, ⟨before, cache₁⟩, hps, hp⟩ := Call.bind_eq_ok.mp h
      exact (ih hps).write hp

theorem copies_of_special {specialCache : SpecialCache} {d : Delivery} (h : .ok d ∈ specialCache.actions mem) :
    d.shared = false ∧ specialCache.p = some d.origin := by
  unfold SpecialCache.actions at h
  split at h
  · cases hp : specialCache.p with
    | none => simp [hp] at h
    | some p =>
        simp only [hp, List.mem_singleton, Except.ok.injEq] at h
        subst h
        exact ⟨rfl, rfl⟩
  · cases h

/-- What is not shared is a copy. -/
theorem copies_of_actions {d : Delivery} (h : .ok d ∈ cache.actions mem) :
    if d.shared then cache.gop.Shares d.origin else cache.Copies d.origin := by
  simp only [actions, List.mem_append] at h
  rcases h with h | h | h | h
  · obtain ⟨hcopy, hp⟩ := copies_of_special h
    rw [if_neg (by simp [hcopy])]
    exact Or.inl hp
  · obtain ⟨hcopy, hp⟩ := copies_of_special h
    rw [if_neg (by simp [hcopy])]
    exact Or.inr (Or.inl hp)
  · obtain ⟨hcopy, hp⟩ := copies_of_special h
    rw [if_neg (by simp [hcopy])]
    exact Or.inr (Or.inr hp)
  · obtain ⟨hshared, hr⟩ := GopCache.shares_of_actions h
    rw [if_pos hshared]
    exact hr

/-! ### What the second writer is handed -/

theorem mem_delivered {actions : List (Except Panic Delivery)} {d : Delivery} (h : d ∈ delivered actions) :
    .ok d ∈ actions := by
  induction actions with
  | nil => cases h
  | cons a actions ih =>
      cases a with
      | error f => cases h
      | ok first =>
          rcases List.mem_cons.mp h with rfl | h
          · exact List.mem_cons_self
          · exact List.mem_cons_of_mem _ (ih h)

theorem getElem?_of_prefix {α : Type} {as bs : List α} (h : as <+: bs) {i : Nat} {a : α} (ha : as[i]? = some a) :
    bs[i]? = some a := by
  obtain ⟨hi, rfl⟩ := List.getElem?_eq_some_iff.mp ha
  exact List.prefix_iff_getElem?.mp h i hi

theorem packet_of_actions {d : Delivery} (h : .ok d ∈ cache.actions mem) : d.packet = mem.cell d.origin := by
  rw [actions_retarget cache mem mem] at h
  obtain ⟨a, -, ha⟩ := List.mem_map.mp h
  cases a with
  | error f => cases ha
  | ok first =>
      cases ha
      rfl

/-- The packets that copies are sent of stay as they are. -/
theorem Separate.frame {next : Nat} {out : List Delivery} (h : Separate next cache)
    (hout : ∀ d ∈ out, .ok d ∈ cache.actions mem) (es : List Assignment) {r : Nat} (hr : cache.Copies r) :
    SameFields (mem.cell r) ((assignAll out es mem).cell r) := by
  refine (sameFields_assignAll out es mem r).mpr fun e he => ?_
  obtain ⟨d, hd, hshared, rfl⟩ := lastTo_shared he
  have hring := copies_of_actions (hout d hd)
  rw [if_pos hshared] at hring
  exact absurd hring (h.apart _ hr)

/-- Two writers that are sent a cache, with nothing written in between, are handed the same headers and data if and
only if the first one's consumer leaves the packets of the ring that both are handed with what they had. -/
theorem sends_alike_iff {num : Nat} {ps : List AvPacket} {start mem : Memory}
    (hcache : writeAll ps ({}, newCache num) = .ok () (start, cache)) {answer answer' : Nat → Option GoError}
    {out out' : List Delivery} (es : List Assignment) (hA : cache.Sends mem answer out)
    (hB : cache.Sends (assignAll out es mem) answer' out') :
    (∀ (i : Nat) (a b : Delivery), out[i]? = some a → out'[i]? = some b → SameFields a.packet b.packet) ↔
      ∀ a ∈ out.take out'.length, a.shared = true → ∀ e, lastTo out es a.origin = some e →
        e.header = a.packet.header ∧ e.data = a.packet.data := by
  have hseparate := separate_writeAll hcache
  have hfront := hA.handed_prefix
  have hfront' := hB.handed_prefix
  rw [actions_retarget cache mem, delivered_retarget] at hfront'
  have hout : ∀ d ∈ out, .ok d ∈ cache.actions mem := fun d hd => mem_delivered (hfront.subset hd)
  have hsecond : ∀ (i : Nat) (a b : Delivery), out[i]? = some a → out'[i]? = some b →
      b.packet = (assignAll out es mem).cell a.origin := by
    intro i a b ha hb
    have ha' := getElem?_of_prefix hfront ha
    have hb' := getElem?_of_prefix hfront' hb
    rw [List.getElem?_map, ha', Option.map_some, Option.some.injEq] at hb'
    rw [← hb', retarget]
  constructor
  · intro hsame a ha hshared
    obtain ⟨i, hi, htake⟩ := List.mem_iff_getElem.mp ha
    rw [List.length_take] at hi
    have ha : out[i]? = some a := by
      rw [← htake, List.getElem_take]
      exact List.getElem?_eq_getElem (by omega)
    have hlt : i < out'.length := by omega
    have hb : out'[i]? = some out'[i] := List.getElem?_eq_getElem hlt
    have hpacket := packet_of_actions (hout a (List.mem_of_getElem? ha))
    have hfields := hsame i a _ ha hb
    rw [hsecond i a _ ha hb, hpacket] at hfields
    rw [hpacket]
    exact (sameFields_assignAll out es mem a.origin).mp hfields
  · intro hleft i a b ha hb
    have hmem := hout a (List.mem_of_getElem? ha)
    have hpacket := packet_of_actions hmem
    rw [hsecond i a b ha hb, hpacket]
    cases hshared : a.shared with
    | true =>
        have hlt : i < out'.length := (List.getElem?_eq_some_iff.mp hb).1
        have htake : a ∈ out.take out'.length := by
          have hi : (out.take out'.length)[i]? = some a := by rw [List.getElem?_take_of_lt hlt, ha]
          exact List.mem_of_getElem? hi
        have hall := hleft a htake hshared
        rw [hpacket] at hall
        exact (sameFields_assignAll out es mem a.origin).mpr hall
    | false =>
        have hcopy := copies_of_actions hmem
        rw [if_neg (by simp [hshared])] at hcopy
        exact hseparate.frame hout es hcopy

/-- A key frame of one byte, behind five bytes of header. -/
def sampleKeyFrame : AvPacket :=
  { isVideo := true, header := some { frameType := frameKey, codecID := videoH264, avcPacketType := 1 },
    data := [0x17, 1, 0, 0, 0, 0xaa] }

/-- Once the first writer's consumer has demuxed the key frame that it was handed, the second writer is handed it
without its header. -/
theorem sends_alike_fails :
    ∃ (mem : Memory) (cache : Cache) (out out' : List Delivery) (p : AvPacket),
      writeAll [sampleKeyFrame] ({}, newCache 1) = .ok () (mem, cache) ∧ cache.Sends mem (fun _ => none) out ∧
        Demuxer.demux sampleKeyFrame = .ok () p ∧
          cache.Sends (assignAll out [⟨0, p.header, p.data⟩] mem) (fun _ => none) out' ∧
            out.map Delivery.packet = [sampleKeyFrame] ∧ out'.map Delivery.packet = [p] ∧ p.data = [0xaa] :=
  ⟨_, _, _, _, _, rfl, Or.inl rfl, rfl, Or.inl rfl, rfl, rfl, rfl⟩

def sampleMetadata : AvPacket := { isMetadata := true, header := some {}, data := [2, 0] }

def sampleCache : Cache where
  gop := { start := true, num := 1, count := 1, nextindex := 0, gops := [some ⟨1, [1]⟩] }
  metadata := ⟨true, some 0⟩

/-- The first writer's consumer empties its copy of the metadata. -/
theorem sends_alike_iff_sample :
    ∃ (mem : Memory) (cache : Cache) (out out' : List Delivery),
      writeAll [sampleMetadata, sampleKeyFrame] ({}, newCache 1) = .ok () (mem, cache) ∧
        cache.Sends mem (fun _ => none) out ∧ cache.Sends (assignAll out [⟨0, none, []⟩] mem) (fun _ => none) out' ∧
          ((∀ (i : Nat) (a b : Delivery), out[i]? = some a → out'[i]? = some b → SameFields a.packet b.packet) ↔
            ∀ a ∈ out.take out'.length, a.shared = true → ∀ e, lastTo out [⟨0, none, []⟩] a.origin = some e →
              e.header = a.packet.header ∧ e.data = a.packet.data) := by
  have hcache : writeAll [sampleMetadata, sampleKeyFrame] ({}, newCache 1) =
      .ok () ((Memory.alloc sampleMetadata {}).alloc sampleKeyFrame, sampleCache) := rfl
  have hA : sampleCache.Sends ((Memory.alloc sampleMetadata {}).alloc sampleKeyFrame) (fun _ => none)
      [⟨0, false, sampleMetadata⟩, ⟨1, true, sampleKeyFrame⟩] := Or.inl rfl
  have hB : sampleCache.Sends (assignAll [⟨0, false, sampleMetadata⟩, ⟨1, true, sampleKeyFrame⟩] [⟨0, none, []⟩]
      ((Memory.alloc sampleMetadata {}).alloc sampleKeyFrame)) (fun _ => none)
        [⟨0, false, sampleMetadata⟩, ⟨1, true, sampleKeyFrame⟩] := Or.inl rfl
  exact ⟨_, _, _, _, hcache, hA, hB, sends_alike_iff hcache _ hA hB⟩

end Cache

end Livego
