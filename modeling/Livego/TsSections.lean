import Livego.Crc
import Livego.TsDemux
import Livego.TsTables

/-! The checksum of the tables is CRC-32/MPEG-2, and the packets of any calls for tables hold sections that a
demultiplexer accepts, with continuity counters that go on. -/

namespace Livego

open TsDemux

/-- The bits of a message in the order in which they are sent. -/
def messageBits (s : Bytes) : List Bool := s.flatMap fun b => Crc.bits b.toBitVec

/-- CRC-32/MPEG-2, bit by bit: nothing is reflected, and nothing is added at the end. -/
def crc32Mpeg2 (s : Bytes) : BitVec 32 := Crc.remainder 0x04c11db7#32 0xffffffff#32 (messageBits s)

/-- Each word of the table is the remainder of its index. -/
theorem crcTable_eq (x : BitVec 8) :
    (crcTable.getD x.toNat 0).toBitVec = Crc.shifts 0x04c11db7#32 8 (x.setWidth 32 <<< 24) := by
  have hall : ∀ j : Fin 256, (crcTable.getD j.val 0).toBitVec =
      Crc.shifts 0x04c11db7#32 8 ((BitVec.ofNat 8 j.val).setWidth 32 <<< 24) := by decide +kernel
  have hx := hall ⟨x.toNat, x.isLt⟩
  rwa [BitVec.ofNat_toNat, BitVec.setWidth_eq] at hx

/-- One byte by the table. -/
theorem crc32_byte (crc32 : UInt32) (b : UInt8) :
    (crc32 <<< 8 ^^^ crcTable.getD ((crc32 >>> 24).toUInt8 ^^^ b).toNat 0).toBitVec =
      Crc.remainder 0x04c11db7#32 crc32.toBitVec (Crc.bits b.toBitVec) := by
  rw [Crc.remainder_word _ _ (by decide : 8 ≤ 32), UInt32.toBitVec_xor, ← UInt8.toNat_toBitVec, crcTable_eq]
  rfl

theorem genCrc32_from (src : Bytes) (crc32 : UInt32) :
    (src.foldl (fun (crc32 : UInt32) b =>
        crc32 <<< 8 ^^^ crcTable.getD ((crc32 >>> 24).toUInt8 ^^^ b).toNat 0) crc32).toBitVec =
      Crc.remainder 0x04c11db7#32 crc32.toBitVec (messageBits src) := by
  induction src generalizing crc32 with
  | nil => rfl
  | cons b src ih => rw [List.foldl_cons, ih, crc32_byte, ← Crc.remainder_append]; rfl

theorem genCrc32_eq (src : Bytes) : (genCrc32 src).toBitVec = crc32Mpeg2 src := genCrc32_from src 0xffffffff

/-- The four bytes of a checksum have its bits. -/
theorem messageBits_crcBytes (crc32Value : UInt32) :
    messageBits (crcBytes crc32Value) = Crc.bits crc32Value.toBitVec := by
  have hbyte : ∀ k, (crc32Value.toBitVec >>> k).setWidth 8 = crc32Value.toBitVec.extractLsb' k 8 := by
    intro k
    apply BitVec.eq_of_getLsbD_eq
    intro i hi
    simp
  have hbytes : messageBits (crcBytes crc32Value) =
      Crc.bits ((crc32Value.toBitVec >>> 24).setWidth 8) ++ (Crc.bits ((crc32Value.toBitVec >>> 16).setWidth 8) ++
        (Crc.bits ((crc32Value.toBitVec >>> 8).setWidth 8) ++ Crc.bits ((crc32Value.toBitVec >>> 0).setWidth 8))) := rfl
  rw [hbytes, hbyte, hbyte, hbyte, hbyte, ← Crc.bits_append, ← Crc.bits_append, ← Crc.bits_append,
    BitVec.extractLsb'_append_extractLsb'_eq_extractLsb' (by decide : 8 = 0 + 8),
    BitVec.extractLsb'_append_extractLsb'_eq_extractLsb' (by decide : 16 = 0 + (8 + 8)),
    BitVec.extractLsb'_append_extractLsb'_eq_extractLsb' (by decide : 24 = 0 + (8 + (8 + 8))), BitVec.extractLsb'_eq_self]

/-- Behind its own checksum a message has checksum zero. -/
theorem genCrc32_append_crcBytes (src : Bytes) : genCrc32 (src ++ crcBytes (genCrc32 src)) = 0 := by
  apply UInt32.toBitVec_inj.mp
  rw [genCrc32_eq, crc32Mpeg2, messageBits, List.flatMap_append, Crc.remainder_append]
  change Crc.remainder _ (crc32Mpeg2 src) (messageBits (crcBytes (genCrc32 src))) = 0
  rw [messageBits_crcBytes, genCrc32_eq, Crc.remainder_bits_self]

/-- The section in the payload of a packet that starts one, by ISO 13818-1: behind the pointer_field, three bytes
and as many more as the section_length in the last two says. The second component is what the packet has left. -/
def sectionOf : Bytes → Option (Bytes × Bytes)
  | [] => none
  | pointer :: rest =>
    match rest.drop pointer.toNat with
    | tableId :: b1 :: b2 :: body =>
      let sectionLength := (b1.toNat &&& 0x0f) <<< 8 ||| b2.toNat
      if sectionLength ≤ body.length then
        some (tableId :: b1 :: b2 :: body.take sectionLength, body.drop sectionLength)
      else none
    | _ => none

/-- The packet starts a section that ends with its checksum, and only stuffing follows. -/
def HoldsSection (u : TransportPacket) : Prop :=
  ∃ table stuffing, u.start = true ∧ sectionOf u.payload = some (table ++ crcBytes (genCrc32 table), stuffing) ∧
    crc32Mpeg2 (table ++ crcBytes (genCrc32 table)) = 0 ∧ ∀ x ∈ stuffing, x = 0xff

/-- A call for a table. -/
inductive TableCall where
  | pat
  | pmt (soundFormat : UInt8) (hasVideo : Bool)
  deriving DecidableEq, Repr

/-- The PID on which the table goes out. -/
def TableCall.pid : TableCall → Nat
  | .pat => 0
  | .pmt .. => 0x1001

namespace TsTables

def table : TableCall → TsTables → Bytes × TsTables
  | .pat, tables => tables.pat
  | .pmt soundFormat hasVideo, tables => tables.pmt soundFormat hasVideo

/-- The packets of one call after the other. -/
def packets : List TableCall → TsTables → List Bytes
  | [], _ => []
  | c :: cs, tables => (tables.table c).1 :: packets cs (tables.table c).2

/-- The counter that is kept for the tables on a PID. -/
def counter (pid : Nat) (tables : TsTables) : Nat :=
  if pid = 0 then tables.patCc else if pid = 0x1001 then tables.pmtCc else 0

/-- What the fourth byte of a table packet says: it is not scrambled, has a payload only, and its counter. -/
theorem tableFlags {cc : Nat} (hcc : cc < 16) :
    (0x10 ||| UInt8.ofNat cc &&& 0x0f).toNat >>> 6 = 0 ∧ (0x10 ||| UInt8.ofNat cc &&& 0x0f).toNat >>> 4 &&& 3 = 1 ∧
      (0x10 ||| UInt8.ofNat cc &&& 0x0f).toNat &&& 0x0f = cc := by
  have hall : ∀ cc : Fin 16, (0x10 ||| UInt8.ofNat cc.val &&& 0x0f).toNat >>> 6 = 0 ∧
      (0x10 ||| UInt8.ofNat cc.val &&& 0x0f).toNat >>> 4 &&& 3 = 1 ∧
      (0x10 ||| UInt8.ofNat cc.val &&& 0x0f).toNat &&& 0x0f = cc.val := by decide
  exact hall ⟨cc, hcc⟩

theorem parse_tableBytes {b1 b2 : UInt8} (hb1 : b1.toNat &&& 0x80 = 0) {cc : Nat} (hcc : cc < 16) {table : Bytes}
    (hlen : table.length ≤ 179) :
    parse (tableBytes [0x47, b1, b2, 0x10 ||| UInt8.ofNat cc &&& 0x0f, 0x00] table) =
      some ⟨(b1.toNat &&& 0x1f) <<< 8 ||| b2.toNat, decide (b1.toNat &&& 0x40 ≠ 0), cc, none,
        0x00 :: (table ++ crcBytes (genCrc32 table) ++ List.replicate (179 - table.length) 0xff)⟩ := by
  obtain ⟨hscrambled, hcontrol, hcounter⟩ := tableFlags hcc
  have htotal : (tableBytes [0x47, b1, b2, 0x10 ||| UInt8.ofNat cc &&& 0x0f, 0x00] table).length = tsPacketLen :=
    tableBytes_length (by simp only [List.length_cons, List.length_nil, tsPacketLen]; omega)
  have hcrc : (crcBytes (genCrc32 table)).length = 4 := rfl
  have hstuffing : tsPacketLen - ([0x47, b1, b2, 0x10 ||| UInt8.ofNat cc &&& 0x0f, 0x00] ++ table ++
      crcBytes (genCrc32 table)).length = 179 - table.length := by
    simp only [List.length_append, List.length_cons, List.length_nil, hcrc, tsPacketLen]
    omega
  have hbytes : tableBytes [0x47, b1, b2, 0x10 ||| UInt8.ofNat cc &&& 0x0f, 0x00] table =
      0x47 :: b1 :: b2 :: (0x10 ||| UInt8.ofNat cc &&& 0x0f) ::
        (0x00 :: (table ++ crcBytes (genCrc32 table) ++ List.replicate (179 - table.length) 0xff)) := by
    simp only [tableBytes]
    rw [hstuffing]
    rfl
  rw [hbytes] at htotal ⊢
  simp only [parse]
  rw [if_pos ⟨htotal, trivial, hb1, hscrambled⟩, hcontrol, hcounter]
  rfl

/-- A table whose length field says how long it is, with its checksum. -/
theorem sectionOf_table {tableId b1 b2 : UInt8} {body stuffing crc : Bytes} (hcrc : crc.length = 4)
    (hlen : (b1.toNat &&& 0x0f) <<< 8 ||| b2.toNat = body.length + 4) :
    sectionOf (0x00 :: (tableId :: b1 :: b2 :: body ++ crc ++ stuffing)) =
      some (tableId :: b1 :: b2 :: body ++ crc, stuffing) := by
  have htotal : (body ++ crc).length = body.length + 4 := by rw [List.length_append, hcrc]
  have hfits : body.length + 4 ≤ (body ++ crc ++ stuffing).length := by
    rw [List.length_append, htotal]
    omega
  simp only [sectionOf, List.cons_append, UInt8.toNat_zero, List.drop_zero]
  rw [hlen, if_pos hfits, ← htotal, List.take_left, List.drop_left]

/-- The packet that is made of a table with its own length in it. -/
theorem tableBytes_spec {b1 b2 : UInt8} (hfault : b1.toNat &&& 0x80 = 0) (hstart : b1.toNat &&& 0x40 ≠ 0) {cc : Nat}
    (hcc : cc < 16) {tableId l1 l2 : UInt8} {body : Bytes} (hlen : (l1.toNat &&& 0x0f) <<< 8 ||| l2.toNat = body.length + 4)
    (hfits : body.length ≤ 176) :
    ∃ u, parse (tableBytes [0x47, b1, b2, 0x10 ||| UInt8.ofNat cc &&& 0x0f, 0x00] (tableId :: l1 :: l2 :: body)) =
      some u ∧ u.pid = (b1.toNat &&& 0x1f) <<< 8 ||| b2.toNat ∧ u.cc = cc ∧ HoldsSection u := by
  have hparse := @parse_tableBytes b1 b2 hfault cc hcc (tableId :: l1 :: l2 :: body)
    (by simp only [List.length_cons]; omega)
  refine ⟨_, hparse, rfl, rfl, tableId :: l1 :: l2 :: body, _, decide_eq_true hstart, sectionOf_table rfl hlen, ?_, ?_⟩
  · rw [← genCrc32_eq, genCrc32_append_crcBytes]
    rfl
  · intro x hx
    exact List.eq_of_mem_replicate hx

theorem cycle_spec {cc : Nat} (hcc : cc ≤ 16) : (cycle cc).1 = cc % 16 ∧ (cycle cc).2 = cc % 16 + 1 := by
  simp only [cycle, u8]
  split_ifs <;> omega

theorem patBytes_spec {cc : Nat} (hcc : cc < 16) :
    ∃ u, parse (patBytes cc) = some u ∧ u.pid = TableCall.pat.pid ∧ u.cc = cc ∧ HoldsSection u :=
  tableBytes_spec (by decide) (by decide) hcc (by decide) (by decide)

theorem pmtBytes_spec (soundFormat : UInt8) (hasVideo : Bool) {cc : Nat} (hcc : cc < 16) :
    ∃ u, parse (pmtBytes soundFormat hasVideo cc) = some u ∧ u.pid = (TableCall.pmt soundFormat hasVideo).pid ∧
      u.cc = cc ∧ HoldsSection u := by
  -- the program has one stream or two, of five bytes each
  have hone : ((0xb0 : UInt8).toNat &&& 0x0f) <<< 8 ||| (UInt8.ofNat (5 + 9 + 4)).toNat = 14 + 4 := by decide
  have htwo : ((0xb0 : UInt8).toNat &&& 0x0f) <<< 8 ||| (UInt8.ofNat (10 + 9 + 4)).toNat = 19 + 4 := by decide
  cases hasVideo
  · exact tableBytes_spec (by decide) (by decide) hcc hone (by simp)
  · exact tableBytes_spec (by decide) (by decide) hcc htwo (by simp)

/-- One call: a packet with a good section on the PID of the table. The counter of that PID goes on, the other
stays. -/
theorem table_spec (c : TableCall) {tables : TsTables} (hcc : ∀ pid, tables.counter pid ≤ 16) :
    ∃ u, parse (tables.table c).1 = some u ∧ u.pid = c.pid ∧ u.cc = tables.counter c.pid % 16 ∧ HoldsSection u ∧
      ∀ pid, (tables.table c).2.counter pid =
        if c.pid = pid then tables.counter pid % 16 + 1 else tables.counter pid := by
  cases c with
  | pat =>
      obtain ⟨hsent, hkept⟩ := cycle_spec (hcc 0)
      obtain ⟨u, hparse, hpid, hcc, hsection⟩ := patBytes_spec (Nat.mod_lt (tables.counter 0) (by decide : 16 > 0))
      rw [← hsent] at hparse
      refine ⟨u, hparse, hpid, hcc, hsection, ?_⟩
      intro pid
      by_cases hpid : (0 : Nat) = pid
      · subst hpid
        exact hkept
      · simp only [counter, TableCall.pid, if_neg hpid, if_neg (Ne.symm hpid)]
        rfl
  | pmt soundFormat hasVideo =>
      obtain ⟨hsent, hkept⟩ := cycle_spec (hcc 0x1001)
      obtain ⟨u, hparse, hpid, hcc, hsection⟩ :=
        pmtBytes_spec soundFormat hasVideo (Nat.mod_lt (tables.counter 0x1001) (by decide : 16 > 0))
      rw [← hsent] at hparse
      refine ⟨u, hparse, hpid, hcc, hsection, ?_⟩
      intro pid
      by_cases hpid : 0x1001 = pid
      · subst hpid
        exact hkept
      · simp only [counter, TableCall.pid, if_neg hpid, if_neg (Ne.symm hpid)]
        rfl

/-- Only the low four bits of the counter before matter. -/
theorem countersFrom_congr {cc cc' : Nat} (h : cc % 16 = cc' % 16) (n : Nat) : countersFrom cc n = countersFrom cc' n := by
  apply List.map_congr_left
  intro j _
  omega

/-- The packets of any calls, with the counters on each PID from the one that is kept for it. -/
theorem packets_spec (calls : List TableCall) {tables : TsTables} (hcc : ∀ pid, tables.counter pid ≤ 16) :
    ∃ us, demux (tables.packets calls) = some us ∧ us.map (·.pid) = calls.map (·.pid) ∧ (∀ u ∈ us, HoldsSection u) ∧
      ∀ pid, (us.filter (·.pid = pid)).map (·.cc) =
        countersFrom (tables.counter pid + 15) (calls.countP (·.pid = pid)) := by
  induction calls generalizing tables with
  | nil => exact ⟨[], rfl, rfl, by simp, fun _ => rfl⟩
  | cons c calls ih =>
      obtain ⟨u, hparse, hpid, hsent, hsection, hkept⟩ := table_spec c hcc
      have hcc' : ∀ pid, (tables.table c).2.counter pid ≤ 16 := by
        intro pid
        have hle := hcc pid
        rw [hkept]
        split_ifs <;> omega
      obtain ⟨us, hdemux, hpids, hsections, hcounters⟩ := ih hcc'
      refine ⟨u :: us, ?_, by rw [List.map_cons, List.map_cons, hpid, hpids], ?_, ?_⟩
      · simp only [demux] at hdemux ⊢
        simp only [packets, List.mapM_cons, hparse, hdemux, Option.bind_eq_bind, Option.bind_some, Option.pure_def]
      · intro u' hu'
        rcases List.mem_cons.mp hu' with rfl | hu'
        · exact hsection
        · exact hsections u' hu'
      · intro pid
        by_cases hsame : c.pid = pid
        · rw [List.filter_cons_of_pos (by simpa [hpid] using hsame), List.countP_cons_of_pos (by simpa using hsame),
            List.map_cons, hcounters, hsent, hkept, if_pos hsame, hsame, countersFrom_succ]
          congr 1
          · omega
          · exact countersFrom_congr (by omega) _
        · rw [List.filter_cons_of_neg (by simpa [hpid] using hsame), List.countP_cons_of_neg (by simpa using hsame),
            hcounters, hkept, if_neg hsame]

theorem length_of_mem_packets {calls : List TableCall} {tables : TsTables} {b : Bytes} (hb : b ∈ tables.packets calls) :
    b.length = tsPacketLen := by
  induction calls generalizing tables with
  | nil => cases hb
  | cons c calls ih =>
      rcases List.mem_cons.mp hb with rfl | hb
      · cases c
        · exact patBytes_length _
        · exact pmtBytes_length _ _ _
      · exact ih hb

end TsTables

/-- The checksum is that of the standard, which a message with its checksum behind it takes to zero. The packets of
any calls for tables have 188 bytes each and hold sections up to the end of a checksum that verifies, and on each PID
the counters go on by one. -/
theorem tables_verify :
    (∀ s : Bytes, (genCrc32 s).toBitVec = crc32Mpeg2 s) ∧ (∀ s : Bytes, genCrc32 (s ++ crcBytes (genCrc32 s)) = 0) ∧
      ∀ calls : List TableCall, let packets := TsTables.packets calls {}
        (∀ b ∈ packets, b.length = 188) ∧ ∃ us, demux packets = some us ∧ us.map (·.pid) = calls.map (·.pid) ∧
          (∀ u ∈ us, HoldsSection u) ∧
          ∀ pid, (us.filter (·.pid = pid)).map (·.cc) = (List.range (calls.countP (·.pid = pid))).map (· % 16) := by
  refine ⟨genCrc32_eq, genCrc32_append_crcBytes, ?_⟩
  intro calls packets
  have hnew : ∀ pid, TsTables.counter pid {} = 0 := by
    intro pid
    simp [TsTables.counter]
  obtain ⟨us, hdemux, hpids, hsections, hcounters⟩ := TsTables.packets_spec calls 
    (fun pid => by rw [hnew]; omega)
  refine ⟨fun b hb => TsTables.length_of_mem_packets hb, us, hdemux, hpids, hsections, ?_⟩
  intro pid
  rw [hcounters, hnew]
  apply List.map_congr_left
  intro j _
  omega

end Livego
