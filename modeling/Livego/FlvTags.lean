import Livego.AmfMetadata
import Livego.RtmpTimestamps

/-! The flv format: what the writer of a file and the writer of an HTTP response make of packets, and how it is read. -/

namespace Livego

open Fallible

namespace Flv

def flvHeader : Bytes := [0x46, 0x4c, 0x56, 0x01, 0x05, 0x00, 0x00, 0x00, 0x09]

def headerLen : Nat := 11

/-- A file or a response, and the errors of its writes by their number. -/
structure Ctx where
  out : Bytes := []
  writes : Nat := 0
  fault : Nat → Option GoError := fun _ => none

def Ctx.write (b : Bytes) (ctx : Ctx) : Option GoError × Ctx :=
  match ctx.fault ctx.writes with
  | some err => (some err, { ctx with writes := ctx.writes + 1 })
  | none => (none, { ctx with out := ctx.out ++ b, writes := ctx.writes + 1 })

/-- What both kinds of writer have. -/
structure FLVWriter where
  rw : RWBaser := {}
  buf : Bytes := List.replicate headerLen 0
  ctx : Ctx

/-- The bytes go to the place in the buffer. -/
def put (i : Nat) (b buf : Bytes) : Bytes := buf.take i ++ b ++ buf.drop (i + b.length)

def putU8 (i v : Nat) : Bytes → Bytes := put i [UInt8.ofNat v]

def putI24BE (i v : Nat) : Bytes → Bytes := put i (Endian.beBytes 3 v)

def putI32BE (i v : Nat) : Bytes → Bytes := put i (Endian.beBytes 4 v)

namespace FLVWriter

def ctxWrite (b : Bytes) : Call GoError FLVWriter Unit := fun w =>
  match w.ctx.write b with
  | (some err, ctx) => .err err { w with ctx }
  | (none, ctx) => .ok () { w with ctx }

/-- `p.Data` as it is written. -/
def reform {σ : Type} (p : AvPacket) : Call GoError σ Bytes :=
  if !p.isVideo && p.isMetadata then Amf.metaDataReform p.data Amf.del else pure p.data

/-- The body of `Write` of a file's writer, and of the loop in `SendPacket` of a response's. -/
def writeTag (p : AvPacket) : Call GoError FLVWriter Unit := do
  let data ← reform p
  let typeID := VirWriter.typeID p
  let dataLen := data.length
  let w ← Call.get
  let timestamp := u32 (p.timeStamp + w.rw.baseTimestamp)
  let preDataLen := dataLen + headerLen
  let timestampbase := timestamp &&& 0xffffff
  let timestampExt := timestamp >>> 24 &&& 0xff
  Call.modify fun w => { w with
    rw := w.rw.recTimeStamp timestamp typeID
    buf := putU8 7 timestampExt (putI24BE 4 timestampbase (putI24BE 1 dataLen (putU8 0 typeID w.buf))) }
  let w ← Call.get
  ctxWrite w.buf
  ctxWrite data
  Call.modify fun w => { w with buf := putI32BE 0 preDataLen w.buf }
  let w ← Call.get
  ctxWrite (w.buf.take 4)

/-- The base timestamp, as it is when the next packet comes. -/
def setBase (base : Nat) : Call GoError FLVWriter Unit :=
  Call.modify fun w => { w with rw := { w.rw with baseTimestamp := base } }

end FLVWriter

namespace File

/-- The errors of the writes are not looked at. -/
def newFLVWriter (ctx : Ctx) : FLVWriter :=
  let w : FLVWriter := { ctx := (ctx.write flvHeader).2 }
  let w := { w with buf := putI32BE 0 0 w.buf }
  { w with ctx := (w.ctx.write (w.buf.take 4)).2 }

def write (p : AvPacket) : Call GoError FLVWriter Unit := FLVWriter.writeTag p

/-- `Write` for each packet, with the base timestamp at that time. -/
def writes (xs : List (Nat × AvPacket)) : Call GoError FLVWriter Unit :=
  xs.forM fun x => do
    FLVWriter.setBase x.1
    write x.2

end File

namespace Http

/-- The first result is `closed`. -/
def newFLVWriter (ctx : Ctx) : Bool × FLVWriter :=
  let (err, ctx) := ctx.write flvHeader
  let closed := err.isSome
  let w : FLVWriter := { ctx }
  let w := { w with buf := putI32BE 0 0 w.buf }
  let (err, ctx) := w.ctx.write (w.buf.take 4)
  (closed || err.isSome, { w with ctx })

/-- `SendPacket` over what comes out of the queue before it is closed. -/
def sendPacket : List (Nat × AvPacket) → Call GoError FLVWriter Unit
  | [] => Call.fail (.errorf "closed")
  | x :: xs => do
    FLVWriter.setBase x.1
    FLVWriter.writeTag x.2
    sendPacket xs

end Http

/-- A tag, with the size that is given after it. -/
structure Tag where
  typeID : Nat
  timestamp : Nat
  streamID : Nat := 0
  data : Bytes
  previousTagSize : Nat
  deriving DecidableEq, Repr

/-- Eleven bytes of type, data size, timestamp with its high byte last, and stream id; the data; the size of both. -/
def parseTag (b : Bytes) : Option (Tag × Bytes) :=
  let size := Endian.beNat ((b.drop 1).take 3)
  if b.length < headerLen + size + 4 then none
  else
    let rest := b.drop headerLen
    some ({ typeID := Endian.beNat (b.take 1)
            timestamp := Endian.beNat ((b.drop 4).take 3) + 2 ^ 24 * Endian.beNat ((b.drop 7).take 1)
            streamID := Endian.beNat ((b.drop 8).take 3)
            data := rest.take size
            previousTagSize := Endian.beNat ((rest.drop size).take 4) }, (rest.drop size).drop 4)

/-- At most so many tags. -/
def parseTags : Nat → Bytes → Option (List Tag)
  | _, [] => some []
  | 0, _ => none
  | n + 1, b => do
    let (t, rest) ← parseTag b
    let ts ← parseTags n rest
    some (t :: ts)

/-- The header, which gives its own length, and the size 0 before the first tag. -/
def parseFlv (b : Bytes) : Option (List Tag) :=
  if b.take 9 = flvHeader ∧ Endian.beNat ((b.drop 9).take 4) = 0 ∧ 13 ≤ b.length then parseTags b.length (b.drop 13)
  else none

/-- The tag of a packet with these data, where the base timestamp is `x.1`. -/
def packetTag (x : Nat × AvPacket) (data : Bytes) : Tag where
  typeID := VirWriter.typeID x.2
  timestamp := u32 (x.2.timeStamp + x.1)
  data := data
  previousTagSize := headerLen + data.length

def tagOf (x : Nat × AvPacket) : Option Tag :=
  match FLVWriter.reform x.2 () with
  | .ok data _ => some (packetTag x data)
  | _ => none

/-- The bytes of the tag. -/
def Tag.bytes (t : Tag) : Bytes :=
  UInt8.ofNat t.typeID :: (Endian.beBytes 3 t.data.length ++ (Endian.beBytes 3 (t.timestamp &&& 0xffffff) ++
    UInt8.ofNat (t.timestamp >>> 24 &&& 0xff) :: ([0, 0, 0] ++ (t.data ++ Endian.beBytes 4 t.previousTagSize))))

/-- A tag that a writer makes. -/
structure Tag.Fits (t : Tag) : Prop where
  typeID : t.typeID < 256
  timestamp : t.timestamp < 2 ^ 32
  streamID : t.streamID = 0
  length : t.data.length < 2 ^ 24
  previousTagSize : t.previousTagSize = headerLen + t.data.length

/-- The bytes of the stream id are zero, and no write fails. -/
structure Clean (w : FLVWriter) : Prop where
  buf : ∃ b0 b1 b2 b3 b4 b5 b6 b7, w.buf = [b0, b1, b2, b3, b4, b5, b6, b7, 0, 0, 0]
  fault : w.ctx.fault = fun _ => none

section Reading

variable {t : Tag}

theorem timestamp_eq {n : Nat} (h : n < 2 ^ 32) :
    Endian.beNat (Endian.beBytes 3 (n &&& 0xffffff)) + 2 ^ 24 * Endian.beNat [UInt8.ofNat (n >>> 24 &&& 0xff)] = n := by
  have hlow : n &&& 0xffffff = n % 2 ^ 24 := Nat.and_two_pow_sub_one_eq_mod n 24
  have hhigh : n >>> 24 &&& 0xff = n / 2 ^ 24 % 2 ^ 8 := by
    rw [Nat.shiftRight_eq_div_pow]
    exact Nat.and_two_pow_sub_one_eq_mod _ 8
  have hbyte : Endian.beNat [UInt8.ofNat (n / 2 ^ 24 % 2 ^ 8)] = n / 2 ^ 24 := by
    rw [Endian.beNat_cons, Endian.beNat_nil, UInt8.toNat_ofNat']
    simp only [List.length_nil, pow_zero]
    omega
  rw [hlow, hhigh, hbyte, Endian.beNat_beBytes_of_lt (by omega)]
  omega

theorem Tag.Fits.parseTag (h : t.Fits) (rest : Bytes) : parseTag (t.bytes ++ rest) = some (t, rest) := by
  have hwidth : t.data.length < 256 ^ 3 := h.length
  have hsize : Endian.beNat (((t.bytes ++ rest).drop 1).take 3) = t.data.length := Endian.beNat_beBytes_of_lt hwidth
  have htime : Endian.beNat (((t.bytes ++ rest).drop 4).take 3) +
      2 ^ 24 * Endian.beNat (((t.bytes ++ rest).drop 7).take 1) = t.timestamp := timestamp_eq h.timestamp
  have htype : Endian.beNat ((t.bytes ++ rest).take 1) = t.typeID := by
    show Endian.beNat [UInt8.ofNat t.typeID] = t.typeID
    rw [Endian.beNat_cons, Endian.beNat_nil, UInt8.toNat_ofNat', Nat.mod_eq_of_lt h.typeID]
    simp
  have hstream : Endian.beNat (((t.bytes ++ rest).drop 8).take 3) = t.streamID := h.streamID.symm
  have hrest : (t.bytes ++ rest).drop headerLen = t.data ++ (Endian.beBytes 4 t.previousTagSize ++ rest) := by
    rw [← List.append_assoc]
    rfl
  have hlong : ¬(t.bytes ++ rest).length < headerLen + t.data.length + 4 := by
    have hsplit := congrArg List.length hrest
    simp only [List.length_drop, List.length_append, Endian.beBytes_length] at hsplit ⊢
    unfold headerLen at *
    omega
  have hlast : Endian.beNat (Endian.beBytes 4 t.previousTagSize) = t.previousTagSize := by
    apply Endian.beNat_beBytes_of_lt
    have := h.previousTagSize
    have := h.length
    unfold headerLen at *
    omega
  simp only [Flv.parseTag, hsize, if_neg hlong, htype, htime, hstream, hrest, List.take_left, List.drop_left]
  rw [List.take_left' (Endian.beBytes_length 4 _), List.drop_left' (Endian.beBytes_length 4 _), hlast]

theorem length_bytes (t : Tag) : 0 < t.bytes.length := Nat.succ_pos _

theorem parseTags_flatMap {ts : List Tag} (h : ∀ t ∈ ts, t.Fits) {n : Nat} (hn : ts.length ≤ n) :
    parseTags n (ts.flatMap Tag.bytes) = some ts := by
  induction ts generalizing n with
  | nil => cases n <;> rfl
  | cons t ts ih =>
      obtain ⟨n, rfl⟩ : ∃ m, n = m + 1 := ⟨n - 1, by rw [List.length_cons] at hn; omega⟩
      have hts := ih (fun t' ht' => h t' (List.mem_cons_of_mem t ht')) (Nat.le_of_succ_le_succ hn)
      have ht := (h t List.mem_cons_self).parseTag (ts.flatMap Tag.bytes)
      have hstep : parseTags (n + 1) (t.bytes ++ ts.flatMap Tag.bytes) =
          (parseTag (t.bytes ++ ts.flatMap Tag.bytes)).bind fun x =>
            (parseTags n x.2).bind fun ts => some (x.1 :: ts) := rfl
      rw [List.flatMap_cons, hstep, ht, Option.bind_some, hts]
      rfl

theorem length_le_flatMap (ts : List Tag) : ts.length ≤ (ts.flatMap Tag.bytes).length := by
  induction ts with
  | nil => exact le_rfl
  | cons t ts ih =>
      have := length_bytes t
      rw [List.flatMap_cons, List.length_cons, List.length_append]
      omega

theorem parseFlv_flatMap {ts : List Tag} (h : ∀ t ∈ ts, t.Fits) :
    parseFlv (flvHeader ++ Endian.beBytes 4 0 ++ ts.flatMap Tag.bytes) = some ts := by
  have hlength : (flvHeader ++ Endian.beBytes 4 0 ++ ts.flatMap Tag.bytes).length = 13 + (ts.flatMap Tag.bytes).length :=
    List.length_append
  have hcount := length_le_flatMap ts
  rw [parseFlv, if_pos ⟨rfl, rfl, by omega⟩]
  exact parseTags_flatMap h (by omega)

end Reading

section Writing

variable {w : FLVWriter}

theorem reform_eq {σ τ : Type} {p : AvPacket} {data : Bytes} {s s' : σ} (h : FLVWriter.reform p s = .ok data s') (u : τ) :
    FLVWriter.reform p u = .ok data u := by
  unfold FLVWriter.reform at h ⊢
  split
  · next hmetadata =>
      rw [if_pos hmetadata] at h
      have hstring := Amf.metaDataReform_del_eq_ok h
      rw [Amf.metaDataReform_del_of_beginsWithString hstring] at h ⊢
      cases h
      rfl
  · next hmetadata =>
      rw [if_neg hmetadata] at h
      cases h
      rfl

theorem tagOf_eq_some {x : Nat × AvPacket} {t : Tag} (h : tagOf x = some t) :
    ∃ data s, FLVWriter.reform x.2 () = .ok data s ∧ t = packetTag x data := by
  unfold tagOf at h
  split at h
  · next data s hreform => exact ⟨data, s, hreform, (Option.some.inj h).symm⟩
  · cases h

theorem fits_tagOf {x : Nat × AvPacket} {t : Tag} (h : tagOf x = some t) (hlength : t.data.length < 2 ^ 24) : t.Fits := by
  obtain ⟨data, s, -, rfl⟩ := tagOf_eq_some h
  refine ⟨?_, Nat.mod_lt _ (by decide), rfl, hlength, rfl⟩
  show VirWriter.typeID x.2 < 256
  unfold VirWriter.typeID
  split_ifs <;> decide

/-- The buffer after the header of a tag has been put into it. -/
theorem header_eq (b0 b1 b2 b3 b4 b5 b6 b7 : UInt8) (typeID dataLen base ext : Nat) :
    putU8 7 ext (putI24BE 4 base (putI24BE 1 dataLen (putU8 0 typeID [b0, b1, b2, b3, b4, b5, b6, b7, 0, 0, 0]))) =
      UInt8.ofNat typeID :: (Endian.beBytes 3 dataLen ++ (Endian.beBytes 3 base ++ UInt8.ofNat ext :: [0, 0, 0])) := rfl

theorem take_putI32BE (v : Nat) (buf : Bytes) : (putI32BE 0 v buf).take 4 = Endian.beBytes 4 v := rfl

theorem Clean.writeTag (h : Clean w) {x : Nat × AvPacket} {t : Tag} (ht : tagOf x = some t) :
    ∃ w', (FLVWriter.setBase x.1 >>= fun _ => FLVWriter.writeTag x.2) w = .ok () w' ∧ Clean w' ∧
      w'.ctx.out = w.ctx.out ++ t.bytes := by
  obtain ⟨data, s, hreform, rfl⟩ := tagOf_eq_some ht
  obtain ⟨⟨b0, b1, b2, b3, b4, b5, b6, b7, hbuf⟩, hfault⟩ := h
  rw [FLVWriter.setBase, Call.modify_bind_apply, FLVWriter.writeTag, Call.bind_of_ok (reform_eq hreform _)]
  simp only [hbuf, header_eq, Call.bind_apply, FLVWriter.ctxWrite, Ctx.write, hfault, Call.modify_apply, Call.get_apply]
  refine ⟨_, rfl, ⟨⟨_, _, _, _, _, _, _, _, rfl⟩, rfl⟩, ?_⟩
  rw [take_putI32BE, Nat.add_comm data.length headerLen]
  simp only [Tag.bytes, packetTag, List.append_assoc, List.cons_append, List.nil_append]

/-- What all of the tags of the packets come to. -/
theorem mapM_tagOf_cons {x : Nat × AvPacket} {xs : List (Nat × AvPacket)} {t : Tag} (ht : tagOf x = some t) :
    (x :: xs).mapM tagOf = (xs.mapM tagOf).map (t :: ·) := by
  rw [List.mapM_cons, ht]
  cases xs.mapM tagOf <;> rfl

/-- The data of every packet, after the metadata reform, fit the three bytes for their length. -/
def Short (x : Nat × AvPacket) : Prop :=
  ∃ data s, FLVWriter.reform x.2 () = .ok data s ∧ data.length < 2 ^ 24

theorem Short.tagOf {x : Nat × AvPacket} (h : Short x) : ∃ t, tagOf x = some t ∧ t.Fits := by
  obtain ⟨data, s, hreform, hlength⟩ := h
  have htag : Flv.tagOf x = some (packetTag x data) := by rw [Flv.tagOf, hreform]
  exact ⟨_, htag, fits_tagOf htag hlength⟩

/-- Both writers put the same tags after what they have written. -/
theorem Clean.writes (h : Clean w) {xs : List (Nat × AvPacket)} (hxs : ∀ x ∈ xs, Short x) :
    ∃ ts w', xs.mapM tagOf = some ts ∧ (∀ t ∈ ts, t.Fits) ∧ File.writes xs w = .ok () w' ∧
      Http.sendPacket xs w = .err (.errorf "closed") w' ∧ w'.ctx.out = w.ctx.out ++ ts.flatMap Tag.bytes := by
  induction xs generalizing w with
  | nil => exact ⟨[], w, rfl, by simp, rfl, rfl, by simp⟩
  | cons x xs ih =>
      obtain ⟨t, ht, hfits⟩ := (hxs x List.mem_cons_self).tagOf
      obtain ⟨w1, hturn, hclean, hout⟩ := h.writeTag ht
      obtain ⟨ts, w', hts, hall, hfile, hhttp, hrest⟩ := ih hclean fun y hy => hxs y (List.mem_cons_of_mem x hy)
      refine ⟨t :: ts, w', by rw [mapM_tagOf_cons ht, hts]; rfl, List.forall_mem_cons.mpr ⟨hfits, hall⟩, ?_, ?_, ?_⟩
      · rw [← hfile]
        exact Call.bind_of_ok hturn
      · rw [← hhttp]
        obtain ⟨_, w0, hbase, hwrite⟩ := Call.bind_eq_ok.mp hturn
        rw [Http.sendPacket, Call.bind_of_ok hbase, Call.bind_of_ok hwrite]
      · rw [hrest, hout, List.flatMap_cons, List.append_assoc]

theorem newFLVWriter_eq : ∃ w, Clean w ∧ w.ctx.out = flvHeader ++ Endian.beBytes 4 0 ∧ File.newFLVWriter {} = w ∧
    Http.newFLVWriter {} = (false, w) := by
  refine ⟨File.newFLVWriter {}, ⟨⟨0, 0, 0, 0, 0, 0, 0, 0, rfl⟩, rfl⟩, rfl, rfl, rfl⟩

/-- A file and a response that never fails get the same bytes, which read back as the tags of the packets. -/
theorem flv_read_back {xs : List (Nat × AvPacket)} (hxs : ∀ x ∈ xs, Short x) :
    ∃ file response, File.writes xs (File.newFLVWriter {}) = .ok () file ∧
      Http.sendPacket xs (Http.newFLVWriter {}).2 = .err (.errorf "closed") response ∧
      (Http.newFLVWriter {}).1 = false ∧ response.ctx.out = file.ctx.out ∧
      (xs.mapM tagOf).isSome ∧ parseFlv file.ctx.out = xs.mapM tagOf := by
  obtain ⟨w, hclean, hout, hfile, hhttp⟩ := newFLVWriter_eq
  obtain ⟨ts, w', hts, hfits, hwrites, hsends, hrest⟩ := hclean.writes hxs
  rw [hfile, hhttp]
  refine ⟨w', w', hwrites, hsends, rfl, rfl, by rw [hts]; rfl, ?_⟩
  rw [hrest, hout, hts]
  exact parseFlv_flatMap hfits

/-- A key frame, audio and metadata, whose timestamp wraps around. -/
def threePackets : List (Nat × AvPacket) :=
  [(7, { isVideo := true, timeStamp := 2 ^ 24, data := [0x17, 0x01] }),
    (7, { isAudio := true, timeStamp := 2 ^ 24 + 20, data := [] }),
    (8, { isMetadata := true, timeStamp := 2 ^ 32 - 1, data := [0x02, 0x00, 0x01, 0x61] })]

theorem flv_read_back_three : ∃ file, File.writes threePackets (File.newFLVWriter {}) = .ok () file ∧
    parseFlv file.ctx.out = some [packetTag (7, { isVideo := true, timeStamp := 2 ^ 24 }) [0x17, 0x01],
      packetTag (7, { isAudio := true, timeStamp := 2 ^ 24 + 20 }) [],
      packetTag (8, { isMetadata := true, timeStamp := 2 ^ 32 - 1 }) [0x02, 0x00, 0x01, 0x61]] := by
  have hshort : ∀ x ∈ threePackets, Short x := by
    intro x hx
    rcases List.mem_cons.mp hx with rfl | hx
    · exact ⟨_, _, rfl, by decide⟩
    rcases List.mem_cons.mp hx with rfl | hx
    · exact ⟨_, _, rfl, by decide⟩
    · cases List.mem_singleton.mp hx
      exact ⟨_, _, rfl, by decide⟩
  obtain ⟨file, response, hfile, -, -, -, -, hparse⟩ := flv_read_back hshort
  exact ⟨file, hfile, hparse.trans (by decide +kernel)⟩

end Writing

end Flv

end Livego
