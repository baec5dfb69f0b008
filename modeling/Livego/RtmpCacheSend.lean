import Livego.Each
import Livego.RtmpCache

/-! Sending a cache: the packets that are handed over one after the other, whatever the writer does with them. -/

namespace Livego

open Fallible Outcome

section

variable {ω : Type}

/-- One thing that a cache does when it sends itself: it hands over a packet, or it panics. -/
def act (write : Delivery → Call GoError ω Unit) : Except Panic Delivery → Call GoError ω Unit
  | .ok d => write d
  | .error f => Call.panic f

/-- A writer that keeps what it is handed. -/
def collect (d : Delivery) : Call GoError (List Delivery) Unit := Call.modify (· ++ [d])

theorem forM_act_ok (write : Delivery → Call GoError ω Unit) (ds : List Delivery) :
    forM (ds.map .ok) (act write) = forM ds write := by
  rw [Call.forM_map]
  rfl

theorem forM_collect (ds out : List Delivery) : forM ds collect out = .ok () (out ++ ds) := by
  induction ds generalizing out with
  | nil => simp [Call.forM_apply_nil]
  | cons d ds ih =>
      rw [Call.forM_apply_cons]
      show forM ds collect (out ++ [d]) = _
      rw [ih, List.append_assoc, List.singleton_append]

/-- What was kept before is kept. -/
theorem prefix_of_forM_collect {actions : List (Except Panic Delivery)} {out out' : List Delivery}
    (h : forM actions (act collect) out = .ok () out') : out <+: out' := by
  have hsat : (forM actions (act collect) out).Sat (fun _ t => out <+: t) (fun _ t => out <+: t) True :=
    Call.sat_forM List.prefix_refl (fun _ _ _ => List.IsPrefix.trans) (fun a _ s => ?_) out
  · exact hsat.of_ok h
  · cases a with
    | ok d => exact List.prefix_append s [d]
    | error f => trivial

/-- A writer that takes everything gets as far as the first panic. -/
theorem forM_act_panics {write : Delivery → Call GoError ω Unit} (htakes : ∀ d s, ∃ t, write d s = .ok () t)
    {actions : List (Except Panic Delivery)} {f : Panic} (hf : .error f ∈ actions) (s : ω) :
    (forM actions (act write) s).Panics := by
  refine Call.forM_panics (fun a _ s => ?_) ⟨_, hf, fun _ => trivial⟩
  cases a with
  | ok d => exact Or.inl (htakes d s)
  | error f => exact Or.inr trivial

end

namespace GopArray

/-- What `send` does, whatever the writer. -/
def actions (mem : Memory) (array : GopArray) : List (Except Panic Delivery) :=
  (List.range array.index).map fun i =>
    match array.packets[i]? with
    | none => .error .indexOutOfRange
    | some packet => .ok ⟨packet, true, mem.cell packet⟩

theorem send_eq {ω : Type} (mem : Memory) (write : Delivery → Call GoError ω Unit) (array : GopArray) :
    array.send mem write = forM (array.actions mem) (act write) := by
  rw [send, actions, List.forM_eq_forM, Call.forM_map]
  congr 1
  funext i
  cases array.packets[i]? <;> rfl

/-- The array that holds the first packets of a group. -/
def ofGroup (g : List Nat) : GopArray := { index := (g.take maxGOPCap).length, packets := g.take maxGOPCap }

theorem put_of_full {array : GopArray} (h : maxGOPCap ≤ array.index) (r : Nat) : array.put r = array := by
  rw [put, write, if_pos h]

theorem put_of_lt {array : GopArray} (h : array.index < maxGOPCap) (r : Nat) :
    array.put r = { index := array.index + 1, packets := array.packets ++ [r] } := by
  rw [put, write, if_neg (by omega)]

theorem put_ofGroup (g : List Nat) (r : Nat) : (ofGroup g).put r = ofGroup (g ++ [r]) := by
  have hindex : (ofGroup g).index = min maxGOPCap g.length := List.length_take
  by_cases hfull : maxGOPCap ≤ g.length
  · have hsame : (g ++ [r]).take maxGOPCap = g.take maxGOPCap := List.take_append_of_le_length hfull
    rw [put_of_full (by omega), ofGroup, ofGroup, hsame]
  · have hshort : (g ++ [r]).take maxGOPCap = g ++ [r] :=
      List.take_of_length_le (by rw [List.length_append, List.length_singleton]; omega)
    have hg : g.take maxGOPCap = g := List.take_of_length_le (by omega)
    rw [put_of_lt (by omega), ofGroup, ofGroup, hg, hshort, List.length_append, List.length_singleton]

theorem put_reset (array : GopArray) (r : Nat) : array.reset.put r = ofGroup [r] := put_ofGroup [] r

theorem actions_of_length (mem : Memory) {array : GopArray} (h : array.index = array.packets.length) :
    array.actions mem = (array.packets.map fun r => (⟨r, true, mem.cell r⟩ : Delivery)).map .ok := by
  rw [actions, h]
  apply List.ext_getElem
  · simp
  · intro i hi hi'
    simp only [List.length_map, List.length_range] at hi hi'
    simp [hi]

end GopArray

namespace SpecialCache

def actions (mem : Memory) (specialCache : SpecialCache) : List (Except Panic Delivery) :=
  if specialCache.full then
    match specialCache.p with
    | none => [.error .nilDereference]
    | some p => [.ok ⟨p, false, mem.cell p⟩]
  else []

theorem send_eq {ω : Type} (mem : Memory) (write : Delivery → Call GoError ω Unit) (specialCache : SpecialCache) :
    specialCache.send mem write = forM (specialCache.actions mem) (act write) := by
  rw [send, actions]
  split
  · cases specialCache.p with
    | none => exact (Call.forM_one (act write) (.error .nilDereference)).symm
    | some p => exact (Call.forM_one (act write) (.ok ⟨p, false, mem.cell p⟩)).symm
  · rfl

end SpecialCache

namespace GopCache

/-- One turn of the loop of `sendTo`. -/
def turnActions (mem : Memory) : Option (Option GopArray) → List (Except Panic Delivery)
  | none => [.error .indexOutOfRange]
  | some none => [.error .nilDereference]
  | some (some g) => g.actions mem

def actions (mem : Memory) (gopCache : GopCache) : List (Except Panic Delivery) :=
  if gopCache.count = 0 then [.error .divideByZero]
  else (List.range gopCache.num).flatMap fun i => turnActions mem (gopCache.replayed i)

theorem send_eq {ω : Type} (mem : Memory) (write : Delivery → Call GoError ω Unit) (gopCache : GopCache) :
    gopCache.send mem write = forM (gopCache.actions mem) (act write) := by
  rw [send, sendTo, actions]
  split
  · exact (Call.forM_one (act write) (.error .divideByZero)).symm
  · rw [List.forM_eq_forM, Call.forM_flatMap]
    congr 1
    funext i
    rcases gopCache.replayed i with _ | _ | g
    · exact (Call.forM_one (act write) (.error .indexOutOfRange)).symm
    · exact (Call.forM_one (act write) (.error .nilDereference)).symm
    · exact g.send_eq mem write

end GopCache

namespace Cache

/-- What `send` does, whatever the writer. -/
def actions (mem : Memory) (cache : Cache) : List (Except Panic Delivery) :=
  cache.metadata.actions mem ++ (cache.videoSeq.actions mem ++
    (cache.audioSeq.actions mem ++ cache.gop.actions mem))

theorem send_eq {ω : Type} (mem : Memory) (write : Delivery → Call GoError ω Unit) (cache : Cache) :
    cache.send mem write = forM (cache.actions mem) (act write) := by
  simp only [send, actions, Call.forM_append, SpecialCache.send_eq, GopCache.send_eq]

end Cache

end Livego
