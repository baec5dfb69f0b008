import Livego.RtmpFrames
import Livego.RtmpReassembly
import Mathlib.Data.Finset.Card

/-! Extended timestamps before the payload of continuation chunks. The reader skips one that equals the timestamp of the
message, but a header that carries a delta is continued with the delta: its four bytes become bytes of the message. -/

namespace Livego

open Endian Fallible ReadWriter ChunkStream

/-- A byte that is not among fewer than 256. -/
theorem exists_byte_notMem {avoid : Bytes} (h : avoid.length < 256) : ∃ b : UInt8, b ∉ avoid := by
  have hcard : (avoid.map UInt8.toNat).toFinset.card < (Finset.range 256).card := by
    rw [Finset.card_range]
    refine (List.toFinset_card_le _).trans_lt ?_
    rwa [List.length_map]
  obtain ⟨n, hn, hnot⟩ := Finset.exists_mem_notMem_of_card_lt_card hcard
  have hlt : n < 256 := Finset.mem_range.mp hn
  refine ⟨UInt8.ofNat n, fun hmem => hnot ?_⟩
  rw [List.mem_toFinset, List.mem_map]
  exact ⟨_, hmem, by rw [UInt8.toNat_ofNat', Nat.mod_eq_of_lt hlt]⟩

namespace ChunkStream

/-- A byte that is in no header is in the continuation chunks of a message no more often than their payload is long. -/
theorem count_chunksFrom {m : ChunkStream} {b : UInt8} (hheader : b ∉ basicHeaderBytes { m with format := 3 })
    (hext : b ∉ m.extendedBytes) (size turns : Nat) {o : Nat} (ho : 0 < o) :
    (m.chunksFrom size turns o).count b ≤ m.data.length - o := by
  induction turns generalizing o with
  | zero => exact Nat.zero_le _
  | succ turns ih =>
      rw [chunksFrom]
      by_cases hend : o = m.length
      · rw [if_pos hend]
        exact Nat.zero_le _
      · rw [if_neg hend, if_neg (by omega)]
        set payload := (m.data.drop o).take size with hpayload
        have hplen : payload.length ≤ m.data.length - o := by
          rw [hpayload, List.length_take, List.length_drop]
          omega
        have hrest := ih (o := o + payload.length) (by omega)
        have hcount : payload.count b ≤ payload.length := List.count_le_length
        dsimp only
        rw [chunkBytes_continue, List.count_append, List.count_append, List.count_append,
          List.count_eq_zero_of_not_mem hheader, List.count_eq_zero_of_not_mem hext]
        omega

end ChunkStream

namespace Conn

/-- No message of `n` bytes that all are `b` can come out of the connection any more: one that is half received has
another byte in it, or too few bytes `b` are left for the rest of it. -/
structure Spoilt (b : UInt8) (n : Nat) (conn : Conn) : Prop where
  unread : conn.rw.unread.count b < n
  entries : ∀ key < 64, ∀ e, conn.chunks key = some e → e.remain ≠ 0 →
    (∃ x ∈ e.filled, x ≠ b) ∨ e.filled.count b + conn.rw.unread.count b < n

theorem ne_replicate {b : UInt8} {n k : Nat} {data : Bytes} (h : (∃ x ∈ data, x ≠ b) ∨ data.count b + k < n) :
    data ≠ List.replicate n b := by
  rintro rfl
  rcases h with ⟨x, hx, hne⟩ | hlt
  · exact hne (List.eq_of_mem_replicate hx)
  · rw [List.count_replicate_self] at hlt
    omega

theorem Spoilt.readTurn {b : UInt8} {n : Nat} {conn conn' : Conn} {r : Unit ⊕ ChunkStream} (h : Spoilt b n conn)
    (hinv : Inv conn) (hturn : readTurn () conn = .ok r conn') :
    (r = .inl () → Spoilt b n conn') ∧ ∀ c, r = .inr c → c.data ≠ List.replicate n b := by
  have hd := (readUintBE_later (n := 1) (by decide) conn.rw).drained hinv.drained
  have hfirst := (readUintBE_later (n := 1) (by decide) conn.rw).suffix
  have hfills := readChunk_fills (prepared_wellFormed hinv) hd (nextByte_format conn) conn.remoteChunkSize conn.pool
  have hkey : conn.nextByte &&& 0x3f < 64 := by
    rw [show (0x3f : Nat) = 2 ^ 6 - 1 by rfl, Nat.and_two_pow_sub_one_eq_mod]
    omega
  rw [readTurn_eq hinv.drained] at hturn
  cases hchunk : conn.prepared.readChunk conn.remoteChunkSize ((conn.rw.readUintBE 1).2, conn.pool) with
  | ok cs s =>
      obtain ⟨hcounted, old, buf, hold, hfilled, hsuffix⟩ := hfills.of_ok hchunk
      have hcount := (hsuffix.trans hfirst).sublist.count_le b
      rw [List.count_append] at hcount
      have hunread := h.unread
      have hspoilt : (∃ x ∈ cs.filled, x ≠ b) ∨ cs.filled.count b + s.1.unread.count b < n := by
        rw [hfilled, List.count_append]
        rcases hold with rfl | ⟨rfl, hremain⟩
        · rw [List.count_nil]
          omega
        · have hentry : conn.chunks (conn.nextByte &&& 0x3f) = some conn.nextEntry := by
            unfold nextEntry
            cases hc : conn.chunks (conn.nextByte &&& 0x3f) with
            | none =>
                have hzero : conn.nextEntry.remain = 0 := by rw [nextEntry, hc]; rfl
                exact absurd hzero hremain
            | some e => rfl
          have hsame : conn.prepared.filled = conn.nextEntry.filled := rfl
          rw [hsame]
          rcases h.entries _ hkey _ hentry hremain with ⟨x, hx, hne⟩ | hlt
          · exact Or.inl ⟨x, List.mem_append_left buf hx, hne⟩
          · omega
      rw [hchunk] at hturn
      cases hturn
      constructor
      · intro _
        refine ⟨by dsimp only; omega, ?_⟩
        intro key hlt e hentry hremain
        dsimp only at hentry ⊢
        by_cases hk : key = conn.nextByte &&& 0x3f
        · rw [hk, Function.update_self] at hentry
          cases hentry
          exact hspoilt
        · rw [Function.update_of_ne hk] at hentry
          rcases h.entries key hlt e hentry hremain with hx | hlt'
          · exact Or.inl hx
          · omega
      · intro c hc
        split_ifs at hc with hfull
        cases hc
        rw [← filled_of_got hcounted hfull]
        exact ne_replicate hspoilt
  | err e s => simp [hchunk] at hturn
  | panic p => simp [hchunk] at hturn
  | diverge => simp [hchunk] at hturn

theorem Spoilt.read {b : UInt8} {n : Nat} {conn : Conn} (h : Spoilt b n conn) (hinv : Inv conn) :
    (read conn).Sat (fun c _ => c.data ≠ List.replicate n b) (fun _ _ => True) True := by
  refine sat_read (I := fun s => Inv s ∧ Spoilt b n s) ?_ ⟨hinv, h⟩
  intro s hs
  have hsat := (readTurn_sat hs.1).1
  cases hturn : Conn.readTurn () s with
  | ok r s' =>
      obtain ⟨hinv', -⟩ := hsat.of_ok hturn
      obtain ⟨hspoilt, hother⟩ := hs.2.readTurn hs.1 hturn
      cases r with
      | inl _ => exact ⟨hinv', hspoilt rfl⟩
      | inr c =>
          refine (finish_sat hinv' c).1.imp ?_ (fun _ _ _ => trivial) fun _ => trivial
          rintro c' s'' ⟨rfl, -⟩
          exact hother _ rfl
  | err e s' => trivial
  | panic p => trivial
  | diverge => exact absurd hturn hsat.ne_diverge

/-- A message that is returned is complete, and has been handled if it is a control message. -/
theorem read_returned {conn : Conn} (h : Inv conn) :
    (Conn.read conn).Sat (fun c _ => WellFormed c ∧ ControlReadable c) (fun _ _ => True) True := by
  refine sat_read (I := Inv) ?_ h
  intro s hs
  refine (readTurn_sat hs).1.imp ?_ (fun _ _ _ => trivial) fun _ => trivial
  intro r s' hr
  cases r with
  | inl _ => exact hr.1
  | inr c =>
      obtain ⟨hsat, hpanics⟩ := finish_sat hr.1 c
      by_cases hc : ControlReadable c
      · refine hsat.imp ?_ (fun _ _ _ => trivial) fun _ => trivial
        rintro c' s'' ⟨rfl, -⟩
        exact ⟨hr.2.2 _ rfl, hc⟩
      · exact (hpanics hc).sat trivial

end Conn

/-- The frame with another payload of the message's length. -/
def Frame.carrying (f : Frame) (data : Bytes) : Frame := { f with m := { f.m with data } }

theorem Frame.Fits.carrying {f : Frame} (h : f.Fits) {data : Bytes} (hdata : data.length = f.m.length) :
    (f.carrying data).Fits :=
  ⟨h.format_le, ⟨h.slotted.length_le, h.slotted.typeID_lt, h.slotted.timestamp_lt, h.slotted.streamID_lt⟩, hdata.symm,
    h.csid_ge, h.csid_le⟩

theorem Frame.Opens.carrying {f : Frame} {e : ChunkStream} (h : f.Opens e) (data : Bytes) : (f.carrying data).Opens e :=
  ⟨h.idle, h.timestamp, h.streamID, h.length, h.typeID, h.delta⟩

namespace Conn

/-- The connection with these bytes before it. -/
def sent (conn : Conn) (b : Bytes) : Conn := { conn with rw := conn.rw.advance b }

/-- `read` returns the message of the frame if it is what comes next. -/
def Delivers (conn : Conn) (f : Frame) : Prop :=
  ∀ rest, ∃ c conn', read (conn.sent (f.bytes conn.remoteChunkSize ++ rest)) = .ok c conn' ∧ c.message = f.m.message

theorem inv_sent {conn : Conn} (h : Inv conn) (he : conn.rw.readError = none) (b : Bytes) : Inv (conn.sent b) :=
  ⟨fun hne => absurd he hne, h.entries, h.chunkSize_ne⟩

/-- The bytes that a message of one repeated byte has to avoid, so that what is not of it shows: those of the
continuation headers, and the first bytes of the messages that are half received. -/
def telling (conn : Conn) (f : Frame) : Bytes :=
  beBytes 4 f.field ++ (basicHeaderBytes { f.wire with format := 3 } ++
    (List.range 64).flatMap fun key => ((conn.chunks key).getD {}).filled.take 1)

theorem length_telling (conn : Conn) (f : Frame) : (conn.telling f).length < 256 := by
  have hbasic : (basicHeaderBytes { f.wire with format := 3 }).length ≤ 3 := by
    unfold basicHeaderBytes
    split_ifs <;> simp
  have hfirst : ∀ keys : List Nat,
      (keys.flatMap fun key => ((conn.chunks key).getD {}).filled.take 1).length ≤ keys.length := by
    intro keys
    induction keys with
    | nil => exact le_rfl
    | cons key keys ih =>
        rw [List.flatMap_cons, List.length_append, List.length_take, List.length_cons]
        omega
  have hkeys := hfirst (List.range 64)
  rw [List.length_range] at hkeys
  rw [telling, List.length_append, List.length_append, beBytes_length]
  omega

/-- The turn after the first chunk of a frame, where the message goes on in a chunk that repeats a delta: the four bytes
of the delta are taken for bytes of the message. -/
theorem readTurn_misreads {conn : Conn} {f : Frame} {e : ChunkStream} {o : Nat} {payload rest : Bytes} (hf : f.Fits)
    (hlen : f.m.length ≤ maxpoolsize) (hext : 0xffffff ≤ f.field) (hts : f.m.timestamp ≠ f.field)
    (hentry : conn.chunks (chunkKey f.m.csid) = some e) (hr : f.Arriving o e) (ho : o < f.m.length)
    (he : conn.rw.readError = none) (hu : conn.rw.unread = f.wire.chunkBytes 3 payload ++ rest)
    (hpayload : payload = (f.m.data.drop o).take conn.remoteChunkSize) :
    let tail := beBytes 4 f.field ++ (payload ++ rest)
    ∃ e', Counted e' ∧ e'.filled = e.filled ++ tail.take payload.length ∧
      readTurn () conn = .ok (if e'.full then .inr e' else .inl ())
        (conn.turned (tail.drop payload.length) conn.pool (chunkKey f.m.csid) e') := by
  intro tail
  have htail : tail = beBytes 4 f.field ++ (payload ++ rest) := rfl
  have hfield : f.wire.extendedBytes = beBytes 4 f.field := if_pos hext
  rw [chunkBytes_continue f.wire, List.append_assoc, List.append_assoc, hfield, ← htail] at hu
  have hremain : e.remain ≠ 0 := by
    rw [hr.remain]
    omega
  have hwf := hr.wellFormed hf hlen ho.le
  set e0 : ChunkStream := { e with csid := f.m.csid, tmpFromat := 3 } with he0
  have hwf0 : WellFormed e0 := ⟨hwf.data_length, hwf.index_remain, hwf.length_le, hwf.not_got⟩
  have hskip : e0.skipExtended (conn.rw.advance tail, conn.pool) = .ok e0 (conn.rw.advance tail, conn.pool) := by
    have hexted : e0.exted = true := hr.exted.trans (decide_eq_true hext)
    have hpeek : (conn.rw.advance tail).peek 4 = .ok (beBytes 4 f.field) := by
      rw [ReadWriter.peek, advance_unread, htail, if_pos (by simp)]
      simp
    have hother : beNat (beBytes 4 f.field) ≠ e0.timestamp := by
      rw [beNat_beBytes_of_lt hf.slotted.timestamp_lt]
      exact fun h => hts (hr.timestamp.symm.trans h.symm)
    simp only [ChunkStream.skipExtended, hexted, if_true, hpeek, hother, if_false]
  have hmin : min e0.remain conn.remoteChunkSize = payload.length := by
    have hremain0 : e0.remain = f.m.length - o := hr.remain
    rw [hremain0, hpayload, List.length_take, List.length_drop, ← hf.length_eq]
    exact min_comm _ _
  have hsplit : (conn.rw.advance tail).read payload.length =
      (.ok (tail.take payload.length), conn.rw.advance (tail.drop payload.length)) := by
    have hle : payload.length ≤ tail.length := by
      rw [htail, List.length_append, List.length_append]
      omega
    have htake : (tail.take payload.length).length = payload.length := by
      rw [List.length_take]
      omega
    have hparts : (conn.rw.advance tail).unread = tail.take payload.length ++ tail.drop payload.length :=
      (List.take_append_drop _ _).symm
    have hnone : (conn.rw.advance tail).readError = none := he
    have hread := read_append hnone hparts
    rwa [htake] at hread
  have hpay := readPayload_eq hwf0 conn.remoteChunkSize (conn.rw.advance tail) conn.pool
  rw [hmin, hsplit] at hpay
  have hbuf : (tail.take payload.length).length ≤ e0.remain := by
    rw [List.length_take]
    omega
  refine ⟨e0.counted (tail.take payload.length), counted_counted hwf0 (hr.got ho) hbuf, filled_counted hwf0 _, ?_⟩
  exact readTurn_midst hf.csid_ge hf.csid_le hentry hremain he hu ((Call.bind_of_ok hskip).trans hpay)

/-- Once a delta has been taken for bytes of a message, no message is returned that repeats a byte not in the delta. -/
theorem read_misreads {conn : Conn} {f : Frame} {e : ChunkStream} {o turns : Nat} {b : UInt8} (h : Inv conn)
    (hf : f.Fits) (hlen : f.m.length ≤ maxpoolsize) (hext : 0xffffff ≤ f.field) (hts : f.m.timestamp ≠ f.field)
    (hentry : conn.chunks (chunkKey f.m.csid) = some e) (hr : f.Arriving o e) (hpos : 0 < o) (ho : o < f.m.length)
    (hsize : 0 < conn.remoteChunkSize) (he : conn.rw.readError = none)
    (hu : conn.rw.unread = f.wire.chunksFrom conn.remoteChunkSize (turns + 1) o) (hfield : b ∉ beBytes 4 f.field)
    (hheader : b ∉ basicHeaderBytes { f.wire with format := 3 })
    (hfirst : ∀ key < 64, key ≠ chunkKey f.m.csid → ∀ e, conn.chunks key = some e → b ∉ e.filled.take 1) :
    (read conn).Sat (fun c _ => c.data ≠ List.replicate f.m.length b) (fun _ _ => True) True := by
  have hwext : f.wire.extendedBytes = beBytes 4 f.field := if_pos hext
  have hcount := count_chunksFrom (m := f.wire) (b := b) hheader (hwext ▸ hfield) conn.remoteChunkSize (turns + 1) hpos
  have hdata : f.wire.data.length = f.m.length := hf.length_eq.symm
  rw [← hu, hdata] at hcount
  have hne : o ≠ f.wire.length := ho.ne
  rw [chunksFrom, if_neg hne, if_neg (by omega)] at hu
  obtain ⟨e', hcounted, hfilled, hturn⟩ := readTurn_misreads hf hlen hext hts hentry hr ho he hu rfl
  set payload := (f.wire.data.drop o).take conn.remoteChunkSize with hpayload
  set rest := f.wire.chunksFrom conn.remoteChunkSize turns (o + payload.length) with hrest
  have hunread : conn.rw.unread = f.wire.chunkBytes 3 payload ++ rest := hu
  rw [hunread, chunkBytes_continue, hwext, List.append_assoc, List.count_append,
    List.count_eq_zero_of_not_mem hheader, Nat.zero_add, List.append_assoc] at hcount
  -- the first byte of the delta is now a byte of the message
  have hother : ∃ x ∈ e'.filled, x ≠ b := by
    have hplen : 0 < payload.length := by
      rw [hpayload, List.length_take, List.length_drop, hdata]
      omega
    refine ⟨UInt8.ofNat (f.field >>> 24), ?_, ?_⟩
    · rw [hfilled]
      refine List.mem_append_right _ ?_
      obtain ⟨n, hn⟩ := Nat.exists_eq_succ_of_ne_zero hplen.ne'
      rw [hn]
      exact List.mem_cons_self
    · rintro rfl
      exact hfield List.mem_cons_self
  obtain ⟨hinv, -, -⟩ := (readTurn_sat h).1.of_ok hturn
  rw [read_eq, hturn]
  by_cases hfull : e'.full = true
  · rw [if_pos hfull]
    refine (finish_sat hinv e').1.imp ?_ (fun _ _ _ => trivial) fun _ => trivial
    rintro c conn' ⟨rfl, -⟩
    rw [← filled_of_got hcounted hfull]
    exact ne_replicate (k := 0) (Or.inl hother)
  · rw [if_neg hfull]
    have hless : (conn.turned ((beBytes 4 f.field ++ (payload ++ rest)).drop payload.length) conn.pool
        (chunkKey f.m.csid) e').rw.unread.count b < f.m.length := by
      have hsub := (List.drop_suffix payload.length (beBytes 4 f.field ++ (payload ++ rest))).sublist.count_le b
      show ((beBytes 4 f.field ++ (payload ++ rest)).drop payload.length).count b < f.m.length
      omega
    refine Spoilt.read ⟨hless, ?_⟩ hinv
    intro key hkey e'' hentry'' _
    by_cases hk : key = chunkKey f.m.csid
    · rw [hk] at hentry''
      have hself : e'' = e' := Option.some.inj (hentry''.symm.trans (Function.update_self ..))
      exact Or.inl (hself ▸ hother)
    · have hentry : conn.chunks key = some e'' := (Function.update_of_ne hk ..).symm.trans hentry''
      have hnot := hfirst key hkey hk e'' hentry
      cases hx : e''.filled with
      | nil =>
          rw [List.count_nil, Nat.zero_add]
          exact Or.inr hless
      | cons x xs =>
          rw [hx] at hnot
          exact Or.inl ⟨x, List.mem_cons_self, fun heq => hnot (heq ▸ List.mem_cons_self)⟩

/-- A message that is continued with its delta does not come through with every payload. -/
theorem exists_not_delivers {conn : Conn} {f : Frame} (h : Inv conn) (he : conn.rw.readError = none)
    (hsize : 0 < conn.remoteChunkSize) (hf : f.Fits) (hlen : f.m.length ≤ maxpoolsize) (hext : 0xffffff ≤ f.field)
    (ho : f.Opens (conn.entryOf f.m.csid)) (hlong : conn.remoteChunkSize < f.m.length)
    (hts : f.m.timestamp ≠ f.field) : ∃ data, data.length = f.m.length ∧ ¬Delivers conn (f.carrying data) := by
  obtain ⟨b, hb⟩ := exists_byte_notMem (length_telling conn f)
  simp only [telling, List.mem_append, not_or] at hb
  obtain ⟨hbfield, hbheader, hbfirst⟩ := hb
  set data := List.replicate f.m.length b with hdata
  have hdlen : data.length = f.m.length := List.length_replicate
  refine ⟨data, hdlen, fun hdelivers => ?_⟩
  set g := f.carrying data with hg
  have hgf : g.Fits := hf.carrying hdlen
  have hgo : g.Opens ((conn.sent (g.bytes conn.remoteChunkSize ++ [])).entryOf g.m.csid) := ho.carrying data
  have hinv := inv_sent h he (g.bytes conn.remoteChunkSize ++ [])
  obtain ⟨c, conn', hread, hmessage⟩ := hdelivers []
  have hcdata : c.data = data := congrArg Message.data hmessage
  have hu : (conn.sent (g.bytes conn.remoteChunkSize ++ [])).rw.unread =
      g.wire.chunkBytes g.format (g.m.data.take conn.remoteChunkSize) ++ g.wire.chunksFrom conn.remoteChunkSize
        (g.m.length / conn.remoteChunkSize + 1) (g.m.data.take conn.remoteChunkSize).length := by
    show g.bytes conn.remoteChunkSize ++ [] = _
    rw [List.append_nil]
    rfl
  obtain ⟨e, pool, hr, hturn⟩ := readTurn_opens hgf hlen hgo he hu rfl
  have hfirst : (g.m.data.take conn.remoteChunkSize).length = conn.remoteChunkSize := by
    rw [List.length_take]
    show min conn.remoteChunkSize data.length = _
    omega
  have hgoes : (g.m.data.take conn.remoteChunkSize).length ≠ g.m.length := by
    rw [hfirst]
    exact hlong.ne
  rw [if_neg hgoes, hfirst] at hturn
  rw [hfirst] at hr
  obtain ⟨hinv', -, -⟩ := (readTurn_sat hinv).1.of_ok hturn
  rw [read_eq, hturn] at hread
  refine (read_misreads hinv' hgf hlen hext hts (Function.update_self ..) hr hsize hlong hsize he rfl hbfield hbheader
    ?_).of_ok hread hcdata
  intro key hkey hne e' hentry hmem
  have hentry' : conn.chunks key = some e' := (Function.update_of_ne hne ..).symm.trans hentry
  refine hbfirst (List.mem_flatMap.mpr ⟨key, List.mem_range.mpr hkey, ?_⟩)
  rw [hentry']
  exact hmem

/-- A message that is delivered can be held, and a control message has its number. -/
theorem Delivers.readable {conn : Conn} {f : Frame} (hdelivers : Delivers conn f) (h : Inv conn)
    (he : conn.rw.readError = none) :
    f.m.length ≤ maxpoolsize ∧ (f.m.typeID = idSetChunkSize ∨ f.m.typeID = idWindowAckSize → 4 ≤ f.m.length) := by
  obtain ⟨c, conn', hread, hmessage⟩ := hdelivers []
  obtain ⟨hwf, hc⟩ := (read_returned (inv_sent h he _)).of_ok hread
  have hlength : c.length = f.m.length := congrArg Message.length hmessage
  have htype : c.typeID = f.m.typeID := congrArg Message.typeID hmessage
  have hle := hwf.length_le
  have hdata := hwf.data_length
  refine ⟨by omega, fun hcontrol => ?_⟩
  rw [← htype] at hcontrol
  have hfour := hc hcontrol
  omega

/-- The header of a delta has the timestamp itself only behind the timestamp 0. -/
theorem timestamp_eq_field_iff {f : Frame} {e : ChunkStream} (ho : f.Opens e) (hfield : f.field < 2 ^ 32)
    (hext : 0xffffff ≤ f.field) : f.m.timestamp = f.field ↔ f.format = 0 ∨ u32 e.timestamp = 0 := by
  have hts := ho.timestamp
  by_cases hzero : f.format = 0
  · rw [if_pos hzero] at hts
    exact iff_of_true hts (Or.inl hzero)
  · rw [if_neg hzero] at hts
    rw [hts, or_iff_right hzero]
    simp only [u32]
    omega

/-- A message with an extended timestamp that its continuation chunks repeat is delivered, whatever its bytes are, if
and only if it can be held at all, it is not a control message too short for its number, and either it takes one chunk,
or its header has the timestamp itself, or the timestamp before it was 0, so that the delta is the timestamp. -/
theorem delivers_extended_iff {conn : Conn} {f : Frame} (h : Inv conn) (he : conn.rw.readError = none)
    (hsize : 0 < conn.remoteChunkSize) (hf : f.Fits) (hext : 0xffffff ≤ f.field)
    (ho : f.Opens (conn.entryOf f.m.csid)) :
    (∀ data, data.length = f.m.length → Delivers conn (f.carrying data)) ↔
      f.m.length ≤ maxpoolsize ∧ (f.m.typeID = idSetChunkSize ∨ f.m.typeID = idWindowAckSize → 4 ≤ f.m.length) ∧
        (f.m.length ≤ conn.remoteChunkSize ∨ f.format = 0 ∨ u32 (conn.entryOf f.m.csid).timestamp = 0) := by
  have hsame := timestamp_eq_field_iff ho hf.slotted.timestamp_lt hext
  constructor
  · intro hall
    obtain ⟨hlen, hcontrol⟩ := (hall f.m.data hf.length_eq.symm).readable h he
    refine ⟨hlen, hcontrol, ?_⟩
    by_contra hnot
    obtain ⟨hlong, hother⟩ := not_or.mp hnot
    obtain ⟨data, hdlen, hbad⟩ :=
      exists_not_delivers h he hsize hf hlen hext ho (Nat.lt_of_not_le hlong) (mt hsame.mp hother)
    exact hbad (hall data hdlen)
  · rintro ⟨hlen, hcontrol, hcase⟩ data hdata rest
    have hc : ControlReadable (f.carrying data).m := fun htype => (hcontrol htype).trans_eq hdata.symm
    have hskips : (f.carrying data).m.length ≤ conn.remoteChunkSize ∨ (f.carrying data).Skips :=
      hcase.imp id fun hopens _ => hsame.mpr hopens
    have hinv := inv_sent h he ((f.carrying data).bytes conn.remoteChunkSize ++ rest)
    obtain ⟨c, conn', hread, hmessage, -⟩ :=
      read_frame hinv he hsize (hf.carrying hdata) hlen hc (ho.carrying data) hskips rfl
    exact ⟨c, conn', hread, hmessage⟩

/-- Two bytes of audio, 0xffffff milliseconds after the message before. -/
def deltaFrame : Frame :=
  ⟨1, 0xffffff, { csid := 4, timestamp := 1000 + 0xffffff, length := 2, typeID := 8, data := [7, 8] }⟩

/-- The same as the first message of its chunk stream. -/
def firstFrame : Frame := ⟨1, 0xffffff, { csid := 4, timestamp := 0xffffff, length := 2, typeID := 8, data := [7, 8] }⟩

theorem delivers_extended_iff_first :
    (∀ data, data.length = firstFrame.m.length → Delivers (newConn { unread := [] }) (firstFrame.carrying data)) ↔
      firstFrame.m.length ≤ maxpoolsize ∧
        (firstFrame.m.typeID = idSetChunkSize ∨ firstFrame.m.typeID = idWindowAckSize → 4 ≤ firstFrame.m.length) ∧
          (firstFrame.m.length ≤ (newConn { unread := [] }).remoteChunkSize ∨ firstFrame.format = 0 ∨
            u32 ((newConn { unread := [] }).entryOf firstFrame.m.csid).timestamp = 0) :=
  delivers_extended_iff (inv_newConn [] .eof) rfl (by decide)
    ⟨by decide, ⟨by decide, by decide, by decide, by decide⟩, rfl, by decide, by decide⟩ (by decide)
    ⟨rfl, by decide, by decide, by decide, by decide, by decide⟩

/-- A SetChunkSize message that announces chunks of one byte, and a byte of audio with timestamp 1000. -/
def beforeDelta : Bytes :=
  [0x02, 0, 0, 0, 0, 0, 4, 1, 0, 0, 0, 0, 0, 0, 0, 1] ++ [0x04, 0, 3, 0xe8, 0, 0, 1, 8, 0, 0, 0, 0, 7]

/-- The two chunks of it, of one byte each: the four bytes of the delta stand before either of them. -/
def deltaBytes : Bytes :=
  [0x44, 0xff, 0xff, 0xff, 0, 0, 2, 8, 0, 0xff, 0xff, 0xff, 7] ++ [0xc4, 0, 0xff, 0xff, 0xff, 8]

/-- What is seen of a connection that has read the two messages: its chunk size, the entry of the audio, and the bytes
of the message that it makes of the two chunks. -/
def seen (conn : Conn) : Nat × ChunkStream × Bytes :=
  (conn.remoteChunkSize, conn.entryOf 4,
    match read (conn.sent deltaBytes) with
    | .ok c _ => c.data
    | _ => [])

/-- The second byte of the audio is read as the first byte of the delta that is repeated before it. -/
theorem not_delivers_delta :
    ∃ conn, Reachable conn ∧ conn.rw.readError = none ∧ conn.remoteChunkSize = 1 ∧ deltaFrame.Fits ∧
      deltaFrame.Opens (conn.entryOf 4) ∧ ¬Delivers conn deltaFrame := by
  have hrun : (match read (newConn { unread := beforeDelta }) with
      | .ok _ conn =>
        match read conn with
        | .ok _ conn => (conn.rw.readError.isNone, seen conn)
        | _ => (false, 0, {}, [])
      | _ => (false, 0, {}, [])) = (true, 1,
        { csid := 4, timestamp := 1000, length := 1, typeID := 8, index := 1, got := true, data := [7] }, [7, 0]) := by
    decide +kernel
  cases hread1 : read (newConn { unread := beforeDelta }) with
  | ok c1 conn1 =>
      cases hread2 : read conn1 with
      | ok c2 conn2 =>
          simp only [hread1, hread2, seen, Prod.mk.injEq, Option.isNone_iff_eq_none] at hrun
          obtain ⟨herror, hsize, hentry, hdata⟩ := hrun
          refine ⟨conn2, .message (.message (.fresh beforeDelta .eof) hread1) hread2, herror, hsize,
            ⟨by decide, ⟨by decide, by decide, by decide, by decide⟩, rfl, by decide, by decide⟩, ?_, ?_⟩
          · rw [hentry]
            exact ⟨rfl, by decide, by decide, by decide, by decide, by decide⟩
          · intro hdelivers
            obtain ⟨c, conn', hread, hmessage⟩ := hdelivers []
            have hbytes : deltaFrame.bytes 1 ++ [] = deltaBytes := by decide
            have hsame : c.data = [7, 8] := congrArg Message.data hmessage
            rw [hsize, hbytes] at hread
            rw [hread] at hdata
            exact absurd (hsame.symm.trans hdata) (by decide)
      | _ => simp [hread1, hread2] at hrun
  | _ => simp [hread1] at hrun

end Conn

end Livego
