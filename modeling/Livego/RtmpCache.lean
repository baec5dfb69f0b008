import Livego.AvPacket
import Mathlib.Logic.Function.Basic

/-! What a stream keeps of its packets for those who join later: the last metadata, the last sequence headers
and a ring of groups of pictures. The caches hold pointers to packets; a writer is handed either the packet that
is pointed to or a copy of it. -/

namespace Livego

open Fallible

/-- The packets that are pointed to. -/
structure Memory where
  next : Nat := 0
  cell : Nat → AvPacket := fun _ => {}

/-- A new cell with the packet in it. -/
def Memory.alloc (p : AvPacket) (mem : Memory) : Memory :=
  { next := mem.next + 1, cell := Function.update mem.cell mem.next p }

@[simp] theorem Memory.next_alloc (p : AvPacket) (mem : Memory) : (mem.alloc p).next = mem.next + 1 := rfl

theorem Memory.cell_alloc (p : AvPacket) (mem : Memory) (r : Nat) :
    (mem.alloc p).cell r = if r = mem.next then p else mem.cell r := Function.update_apply ..

/-- What `Write` of a writer is called with: the pointer to a cell itself (`shared`) or to a copy of it, with the
packet as it stands there at the call. -/
structure Delivery where
  origin : Nat
  shared : Bool
  packet : AvPacket
  deriving DecidableEq, Repr

def maxGOPCap : Nat := 1024

def errGopTooBig : GoError := .named "gop to big"

/-- `array` of package cache. -/
structure GopArray where
  index : Nat := 0
  packets : List Nat := []
  deriving DecidableEq, Repr

namespace GopArray

def newArray : GopArray := {}

def reset (_ : GopArray) : GopArray := { index := 0, packets := [] }

def write (packet : Nat) : Call GoError GopArray Unit := fun array =>
  if array.index ≥ maxGOPCap then .err errGopTooBig array
  else .ok () { index := array.index + 1, packets := array.packets ++ [packet] }

/-- The array after a `write` whose error is dropped. -/
def put (packet : Nat) (array : GopArray) : GopArray :=
  match write packet array with
  | .ok _ array => array
  | _ => array

variable {ω : Type}

def send (mem : Memory) (write : Delivery → Call GoError ω Unit) (array : GopArray) : Call GoError ω Unit :=
  (List.range array.index).forM fun i =>
    match array.packets[i]? with
    | none => Call.panic .indexOutOfRange
    | some packet => write ⟨packet, true, mem.cell packet⟩

end GopArray

structure GopCache where
  start : Bool := false
  num : Nat := 0
  count : Nat
  nextindex : Nat := 0
  gops : List (Option GopArray)
  deriving DecidableEq, Repr

namespace GopCache

def newGopCache (num : Nat) : GopCache := { count := num, gops := List.replicate num none }

def writeToArray (chunk : Nat) (startNew : Bool) : Call GoError GopCache Unit := fun gopCache =>
  if startNew then
    match gopCache.gops[gopCache.nextindex]? with
    | none => .panic .indexOutOfRange
    | some none =>
      if gopCache.count = 0 then .panic .divideByZero
      else .ok () { gopCache with
        num := gopCache.num + 1
        gops := gopCache.gops.set gopCache.nextindex (some (GopArray.newArray.put chunk))
        nextindex := (gopCache.nextindex + 1) % gopCache.count }
    | some (some ginc) =>
      if gopCache.count = 0 then .panic .divideByZero
      else .ok () { gopCache with
        gops := gopCache.gops.set gopCache.nextindex (some (ginc.reset.put chunk))
        nextindex := (gopCache.nextindex + 1) % gopCache.count }
  else if gopCache.count = 0 then .panic .divideByZero
  else
    match gopCache.gops[(gopCache.nextindex + 1) % gopCache.count]? with
    | none => .panic .indexOutOfRange
    | some none => .panic .nilDereference
    | some (some ginc) => .ok () { gopCache with
        gops := gopCache.gops.set ((gopCache.nextindex + 1) % gopCache.count) (some (ginc.put chunk)) }

/-- `Write` of the pointer `r`, behind which there is the packet `p`. -/
def write (r : Nat) (p : AvPacket) : Call GoError GopCache Unit := fun gopCache =>
  if p.isVideo ∧ p.header = none then .panic .typeAssertion
  else if p.isKeyFrame ∨ gopCache.start then writeToArray r p.isKeyFrame { gopCache with start := true }
  else .ok () gopCache

variable {ω : Type}

/-- The group at the index that the `i`-th turn of the loop of `sendTo` comes to. -/
def replayed (gopCache : GopCache) (i : Nat) : Option (Option GopArray) :=
  let pos : Int := ((gopCache.nextindex + 1) % gopCache.count : Nat)
  let index := pos - gopCache.num + 1 + i
  let index := if index < 0 then index + gopCache.count else index
  if index < 0 then none else gopCache.gops[index.toNat]?

def sendTo (mem : Memory) (write : Delivery → Call GoError ω Unit) (gopCache : GopCache) : Call GoError ω Unit :=
  if gopCache.count = 0 then Call.panic .divideByZero
  else
    (List.range gopCache.num).forM fun i =>
      match gopCache.replayed i with
      | none => Call.panic .indexOutOfRange
      | some none => Call.panic .nilDereference
      | some (some g) => g.send mem write

def send (mem : Memory) (write : Delivery → Call GoError ω Unit) (gopCache : GopCache) : Call GoError ω Unit :=
  gopCache.sendTo mem write

end GopCache

structure SpecialCache where
  full : Bool := false
  p : Option Nat := none
  deriving DecidableEq, Repr

namespace SpecialCache

def newSpecialCache : SpecialCache := {}

def write (p : Nat) (_ : SpecialCache) : SpecialCache := { full := true, p := some p }

variable {ω : Type}

/-- A copy of the packet is sent, since the writer may change it. -/
def send (mem : Memory) (write : Delivery → Call GoError ω Unit) (specialCache : SpecialCache) :
    Call GoError ω Unit :=
  if specialCache.full then
    match specialCache.p with
    | none => Call.panic .nilDereference
    | some p => write ⟨p, false, mem.cell p⟩
  else pure ()

end SpecialCache

structure Cache where
  gop : GopCache
  videoSeq : SpecialCache := {}
  audioSeq : SpecialCache := {}
  metadata : SpecialCache := {}
  deriving DecidableEq, Repr

namespace Cache

/-- `NewCache` with the configured `gop_num`. -/
def newCache (gopNum : Nat) : Cache := { gop := GopCache.newGopCache gopNum }

/-- A call on the ring alone. -/
def onGop (x : Call GoError GopCache Unit) : Call GoError (Memory × Cache) Unit := fun (mem, cache) =>
  match x cache.gop with
  | .ok _ gop => .ok () (mem, { cache with gop })
  | .err e gop => .err e (mem, { cache with gop })
  | .panic f => .panic f
  | .diverge => .diverge

/-- `Write` has a packet of its own to point to: its parameter. -/
def write (p : AvPacket) : Call GoError (Memory × Cache) Unit := fun (mem, cache) =>
  let r := mem.next
  let mem := mem.alloc p
  if p.isMetadata then .ok () (mem, { cache with metadata := cache.metadata.write r })
  else if !p.isVideo then
    match p.header with
    | some ah =>
      if ah.soundFormat = soundAac ∧ ah.aacPacketType = aacSeqhdr then
        .ok () (mem, { cache with audioSeq := cache.audioSeq.write r })
      else .ok () (mem, cache)
    | none => onGop (GopCache.write r p) (mem, cache)
  else
    match p.header with
    | some vh =>
      if vh.isSeq then .ok () (mem, { cache with videoSeq := cache.videoSeq.write r })
      else onGop (GopCache.write r p) (mem, cache)
    | none => .ok () (mem, cache)

variable {ω : Type}

def send (mem : Memory) (write : Delivery → Call GoError ω Unit) (cache : Cache) : Call GoError ω Unit := do
  cache.metadata.send mem write
  cache.videoSeq.send mem write
  cache.audioSeq.send mem write
  cache.gop.send mem write

end Cache

end Livego
