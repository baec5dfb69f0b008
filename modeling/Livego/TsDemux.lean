import Livego.TsMuxer

/-! A demultiplexer for transport streams by ISO 13818-1: what a packet of 188 bytes carries, and how the
packets of one PID make up PES packets. -/

namespace Livego.TsDemux

/-- A transport packet: its header fields, its adaptation field behind the length byte, and its payload. -/
structure TransportPacket where
  pid : Nat
  start : Bool
  cc : Nat
  adaptation : Option Bytes
  payload : Bytes
  deriving DecidableEq, Repr

/-- The flags of an adaptation field, then the program clock reference if they say so, then stuffing. The other
optional parts, each with a flag of its own, do not occur here. -/
def adaptationOk : Bytes → Bool
  | [] => true
  | flags :: field =>
    let optional := if flags.toNat &&& 0x10 = 0 then 0 else 6
    decide (flags.toNat &&& 0x0f = 0 ∧ optional ≤ field.length) && (field.drop optional).all (· = 0xff)

/-- The 33 bits of the clock base, if the field has a clock reference. -/
def clockBase : Bytes → Option Nat
  | flags :: b0 :: b1 :: b2 :: b3 :: b4 :: _ =>
    if flags.toNat &&& 0x10 = 0 then none
    else some (b0.toNat * 2 ^ 25 + b1.toNat * 2 ^ 17 + b2.toNat * 2 ^ 9 + b3.toNat * 2 + b4.toNat / 128)
  | _ => none

/-- What the adaptation_field_control leaves of the bytes behind the header. -/
def split (control : Nat) (b : Bytes) : Option (Option Bytes × Bytes) :=
  match control, b with
  | 1, b => some (none, b)
  | 2, length :: field =>
    if length.toNat = field.length ∧ adaptationOk field then some (some field, []) else none
  | 3, length :: field =>
    if length.toNat < field.length ∧ adaptationOk (field.take length.toNat) then
      some (some (field.take length.toNat), field.drop length.toNat)
    else none
  | _, _ => none

/-- A packet of 188 bytes that starts with the sync byte and is neither marked as faulty nor scrambled. -/
def parse (b : Bytes) : Option TransportPacket :=
  match b with
  | sync :: b1 :: b2 :: b3 :: rest =>
    if b.length = tsPacketLen ∧ sync = 0x47 ∧ b1.toNat &&& 0x80 = 0 ∧ b3.toNat >>> 6 = 0 then
      (split (b3.toNat >>> 4 &&& 3) rest).map fun (adaptation, payload) =>
        { pid := (b1.toNat &&& 0x1f) <<< 8 ||| b2.toNat
          start := decide (b1.toNat &&& 0x40 ≠ 0)
          cc := b3.toNat &&& 0x0f
          adaptation
          payload }
    else none
  | _ => none

/-- All packets of a stream. -/
def demux (packets : List Bytes) : Option (List TransportPacket) := packets.mapM parse

/-- The PES packets of one PID: each runs from a packet with payload_unit_start to the next. The first component
is payload in front of the first start. -/
def assemble : List TransportPacket → Bytes × List Bytes
  | [] => ([], [])
  | u :: us =>
    let (tail, pes) := assemble us
    if u.start then ([], (u.payload ++ tail) :: pes) else (u.payload ++ tail, pes)

/-- Packets that carry the bytes `s` on one PID, the first with `start`, the others without, and with the
continuity counter going on from `cc`. -/
inductive Carries (pid : Nat) : (start : Bool) → (cc : Nat) → (s : Bytes) → List Bytes → Prop
  | nil (start : Bool) (cc : Nat) : Carries pid start cc [] []
  | cons {start : Bool} {cc : Nat} {b : Bytes} {adaptation : Option Bytes} {payload s : Bytes} {packets : List Bytes}
      (first : parse b = some ⟨pid, start, (cc + 1) % 16, adaptation, payload⟩)
      (rest : Carries pid false ((cc + 1) % 16) s packets) : Carries pid start cc (payload ++ s) (b :: packets)

/-- Counters that go on from `cc` by one each, modulo 16. -/
def countersFrom (cc n : Nat) : List Nat := (List.range n).map fun j => (cc + 1 + j) % 16

theorem countersFrom_succ (cc n : Nat) :
    countersFrom cc (n + 1) = (cc + 1) % 16 :: countersFrom ((cc + 1) % 16) n := by
  rw [countersFrom, List.range_succ_eq_map, List.map_cons, List.map_map]
  congr 1
  apply List.map_congr_left
  intro j _
  dsimp only [Function.comp]
  omega

theorem countersFrom_add (cc m n : Nat) :
    countersFrom cc (m + n) = countersFrom cc m ++ countersFrom ((cc + m) % 16) n := by
  rw [countersFrom, List.range_add, List.map_append, List.map_map]
  congr 1
  apply List.map_congr_left
  intro j _
  dsimp only [Function.comp]
  omega

/-- What packets that carry bytes are to a demultiplexer. -/
theorem Carries.demux {pid cc : Nat} {start : Bool} {s : Bytes} {packets : List Bytes}
    (h : Carries pid start cc s packets) :
    ∃ us, demux packets = some us ∧ (∀ u ∈ us, u.pid = pid) ∧
      us.map (·.cc) = countersFrom cc us.length ∧ us.length = packets.length ∧
      ∀ us', assemble (us ++ us') = if us ≠ [] ∧ start then ([], (s ++ (assemble us').1) :: (assemble us').2)
        else (s ++ (assemble us').1, (assemble us').2) := by
  induction h with
  | nil start cc => exact ⟨[], rfl, by simp, rfl, rfl, by simp⟩
  | @cons start cc b adaptation payload s packets first rest ih =>
      obtain ⟨us, hdemux, hpid, hcc, hlen, hassemble⟩ := ih
      refine ⟨⟨pid, start, (cc + 1) % 16, adaptation, payload⟩ :: us, ?_, ?_, ?_, by simp [hlen], ?_⟩
      · simp only [TsDemux.demux] at hdemux ⊢
        simp [List.mapM_cons, first, hdemux]
      · intro u hu
        rcases List.mem_cons.mp hu with rfl | hu
        · rfl
        · exact hpid u hu
      · rw [List.map_cons, List.length_cons, countersFrom_succ, hcc]
      · intro us'
        rw [List.cons_append, assemble, hassemble us']
        cases start <;> simp

end Livego.TsDemux
