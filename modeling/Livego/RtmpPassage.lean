import Livego.RtmpExchange
import Livego.RtmpVirReader

/-! The way of a stream through the server: what a publisher writes on its connection is read as packets, and what these are
sent as is what a player reads. -/

namespace Livego

open Fallible ReadWriter ChunkStream

namespace VirReader

/-- What calls of `Read` return, with the packet after each. -/
def packets : Nat → AvPacket × Conn → List (Option GoError × AvPacket)
  | 0, _ => []
  | n + 1, s => ((readPacket s).1, (readPacket s).2.1) :: packets n (readPacket s).2

theorem nextMedia_eq (conn : Conn) :
    nextMedia conn = match Conn.read conn with
      | .ok cs conn => if IsMedia cs then .ok cs conn else nextMedia conn
      | .err e conn => .err e conn
      | .panic p => .panic p
      | .diverge => .diverge := by
  have hnext : ∀ conn, nextMedia conn = Call.loop mediaTurn (conn.rw.unread.length + 1) () conn := fun _ => rfl
  rw [hnext, Call.loop_turn mediaTurn_decreases, mediaTurn_cases]
  cases Conn.read conn with
  | ok cs conn' =>
      dsimp only
      split_ifs
      · rfl
      · rfl
  | err e conn' => rfl
  | panic p => rfl
  | diverge => rfl

/-- What is read of a message, but for the chunk stream that it comes on. -/
theorem fields_of_message {c m : ChunkStream} (h : c.message = m.assignCsid.message) :
    c.typeID = m.typeID ∧ c.streamID = m.streamID ∧ c.timestamp = m.timestamp ∧ c.data = m.data := by
  obtain ⟨csid, hcsid⟩ := assignCsid_fields m
  rw [hcsid] at h
  simp only [message, Message.mk.injEq] at h
  obtain ⟨-, htype, hstream, htime, -, hdata⟩ := h
  exact ⟨htype, hstream, htime, hdata⟩

theorem isMedia_congr {c m : ChunkStream} (h : c.message = m.assignCsid.message) : IsMedia c ↔ IsMedia m := by
  obtain ⟨htype, -⟩ := fields_of_message h
  rw [IsMedia, IsMedia, htype]

/-- The packet of a message that holds its tag header, read after any other. -/
theorem read_congr {c m : ChunkStream} (h : c.message = m.assignCsid.message)
    (htag : Tag.HoldsHeader (m.typeID = tagVideo) m.data) (p : AvPacket) : read c p = read m {} := by
  obtain ⟨n, tag, hparse⟩ := (Tag.parseMediaTagHeader_ok_iff _ _).mpr htag
  obtain ⟨htype, hstream, htime, hdata⟩ := fields_of_message h
  have hparse' : Tag.parseMediaTagHeader c.data (c.typeID = tagVideo) {} = .ok n tag := by rw [htype, hdata, hparse]
  rw [read_eq_packetOf p hparse', read_eq_packetOf {} hparse, packetOf, packetOf, fill, fill, htype, hstream, htime,
    hdata]

/-- The next media message is come to, or there is none. -/
theorem nextMedia_of_readsAll {ms : List ChunkStream} {conn : Conn} (h : Conn.ReadsAll (ms.map fun m => m.assignCsid.message) conn) :
    (∃ e conn', nextMedia conn = .err e conn' ∧ ms.filter (fun m => IsMedia m) = []) ∨
      ∃ m ms' c conn', m :: ms' <:+ ms ∧ IsMedia m ∧
        ms.filter (fun m => IsMedia m) = m :: ms'.filter (fun m => IsMedia m) ∧ nextMedia conn = .ok c conn' ∧
          c.message = m.assignCsid.message ∧ Conn.ReadsAll (ms'.map fun m => m.assignCsid.message) conn' := by
  induction ms generalizing conn with
  | nil =>
      obtain ⟨e, conn', hread⟩ := h
      exact Or.inl ⟨e, conn', by rw [nextMedia_eq, hread], rfl⟩
  | cons m ms ih =>
      obtain ⟨c, conn', hread, hmessage, hrest⟩ := h
      have hmedia : IsMedia c ↔ IsMedia m := isMedia_congr hmessage
      by_cases hcase : IsMedia m
      · refine Or.inr ⟨m, ms, c, conn', List.suffix_refl _, hcase, List.filter_cons_of_pos (by simpa using hcase), ?_,
          hmessage, hrest⟩
        rw [nextMedia_eq, hread]
        exact if_pos (hmedia.mpr hcase)
      · have hnext : nextMedia conn = nextMedia conn' := by
          rw [nextMedia_eq, hread]
          exact if_neg (hmedia.not.mpr hcase)
        rw [hnext, List.filter_cons_of_neg (by simpa using hcase)]
        obtain hend | ⟨m', ms', c', conn'', hsuffix, hfound⟩ := ih hrest
        · exact Or.inl hend
        · exact Or.inr ⟨m', ms', c', conn'', hsuffix.trans (List.suffix_cons m ms), hfound⟩

/-- A reader hands on the media messages of its connection and leaves out the others, and then returns an error. -/
theorem packets_of_readsAll {ms : List ChunkStream} {conn : Conn} (h : Conn.ReadsAll (ms.map fun m => m.assignCsid.message) conn)
    (htag : ∀ m ∈ ms, IsMedia m → Tag.HoldsHeader (m.typeID = tagVideo) m.data) (p : AvPacket) :
    packets (ms.filter fun m => IsMedia m).length (p, conn) =
        (ms.filter fun m => IsMedia m).map (fun m => (none, read m {})) ∧
      ∃ e, (readPacket (calls (ms.filter fun m => IsMedia m).length (p, conn))).1 = some e := by
  induction hlength : ms.length using Nat.strong_induction_on generalizing ms conn p with
  | _ n ih =>
      obtain ⟨e, conn', hnext, hnil⟩ | ⟨m, ms', c, conn', hsuffix, hmedia, hfilter, hnext, hmessage, hrest⟩ :=
        nextMedia_of_readsAll h
      · rw [hnil]
        refine ⟨rfl, e, ?_⟩
        show (readPacket (p, conn)).1 = some e
        simp only [readPacket, hnext]
      · obtain ⟨hm, hms⟩ := List.forall_mem_cons.mp fun m hm => htag m (hsuffix.subset hm)
        have hpacket : readPacket (p, conn) = (none, read m {}, conn') := by
          simp only [readPacket, hnext, read_congr hmessage (hm hmedia) p]
        have hlt : ms'.length < n := by
          have hle := hsuffix.length_le
          rw [List.length_cons] at hle
          omega
        obtain ⟨hpackets, hend⟩ := ih _ hlt hrest hms (read m {}) rfl
        rw [hfilter, List.length_cons, packets, hpacket, List.map_cons]
        refine ⟨congrArg _ hpackets, ?_⟩
        rw [calls, hpacket]
        exact hend

theorem readable_of_writable {m : ChunkStream} (hm : m.Writable) (p : AvPacket) : Readable (read m p) := by
  refine ⟨?_, isMetadata_read m p⟩
  rw [data_read, ← hm.sendable.length_eq]
  exact hm.sendable.length_le

end VirReader

namespace Conn

/-- A message without data is not written. -/
theorem messageBytes_of_empty {m : ChunkStream} (h : m.length = 0) (size : Nat) : m.messageBytes size = [] := by
  rw [messageBytes, h, Nat.zero_div, chunksFrom, if_pos h.symm]

theorem assignCsid_assignCsid (m : ChunkStream) : m.assignCsid.assignCsid = m.assignCsid := by
  by_cases haudio : m.typeID = tagAudio
  · simp [assignCsid, haudio]
  · by_cases hother : m.typeID = tagVideo ∨ m.typeID = tagScriptDataAmf0 ∨ m.typeID = tagScriptDataAmf3
    · simp [assignCsid, haudio, hother]
    · simp [assignCsid, haudio, hother]

/-- The messages of a player are a session. -/
theorem wireBytes_eq_sessionBytes {ms : List ChunkStream} (htype : ∀ m ∈ ms, m.typeID ≠ idSetChunkSize) {size : Nat}
    (hsize : size < 2 ^ 32) :
    VirWriter.wireBytes size ms = sessionBytes ((ms.map assignCsid).filter fun m => 0 < m.length) size := by
  induction ms with
  | nil => rfl
  | cons m ms ih =>
      obtain ⟨hm, hms⟩ := List.forall_mem_cons.mp htype
      have hafter : sizeAfter m.assignCsid size = size := by
        rw [Link.sizeAfter_assignCsid]
        exact if_neg hm
      have hbytes : VirWriter.wireBytes size [m] = m.assignCsid.messageBytes size := by
        rw [VirWriter.wireBytes, List.flatMap_singleton, u32_of_lt hsize]
      rw [VirWriter.wireBytes_cons, hbytes, ih hms, List.map_cons]
      by_cases hpos : 0 < m.assignCsid.length
      · rw [List.filter_cons_of_pos (by simpa using hpos), sessionBytes, hafter, assignCsid_assignCsid]
      · rw [List.filter_cons_of_neg (by simpa using hpos), messageBytes_of_empty (by omega), List.nil_append]

/-- `reader` has read all that `writer` has written, and nothing waits for a flush. -/
structure CaughtUp (writer reader : Conn) : Prop where
  idle : Idle reader
  unread : reader.rw.unread = []
  buffered : writer.rw.buffered = []
  size : reader.remoteChunkSize = writer.chunkSize
  size_ge : 4 ≤ writer.chunkSize
  size_lt : writer.chunkSize < 2 ^ 31

theorem CaughtUp.readsAll {writer reader : Conn} (h : CaughtUp writer reader) {ms : List ChunkStream}
    (hms : ∀ m ∈ ms, m.Writable) :
    ReadsAll (ms.map fun m => m.assignCsid.message) (reader.more (sessionBytes ms writer.chunkSize)) := by
  apply (h.idle.more _).readsAll hms
  · show 4 ≤ reader.remoteChunkSize
    rw [h.size]
    exact h.size_ge
  · show reader.remoteChunkSize < 2 ^ 31
    rw [h.size]
    exact h.size_lt
  · show reader.rw.unread ++ sessionBytes ms writer.chunkSize = sessionBytes ms reader.remoteChunkSize
    rw [h.unread, List.nil_append, h.size]

theorem caughtUp_newConn (ending ending' : GoError) :
    CaughtUp (newConn { unread := [], ending }) (newConn { unread := [], ending := ending' }) :=
  ⟨idle_newConn [] ending', rfl, rfl, rfl, (by decide : 4 ≤ 128), (by decide : 128 < 2 ^ 31)⟩

end Conn

namespace VirWriter

/-- What a player reads of a message of the publisher: metadata are of AMF0 and without their `@setDataFrame`. -/
def played (base : Nat) (m : ChunkStream) : Message :=
  let data := if m.typeID = tagScriptDataAmf0 ∨ m.typeID = tagScriptDataAmf3 then Amf.withoutSetDataFrame m.data else m.data
  { csid := if m.typeID = tagAudio then 4 else 6
    typeID := if m.typeID = tagScriptDataAmf3 then tagScriptDataAmf0 else m.typeID
    streamID := m.streamID
    timestamp := u32 (m.timestamp + base)
    length := data.length
    data }

theorem message_sentAs {m : ChunkStream} (hm : m.Writable) (hmedia : VirReader.IsMedia m)
    (base : Nat) : (sentAs (base, VirReader.read m {})).assignCsid.message = played base m := by
  have hmax : maxpoolsize < 2 ^ 32 := by decide
  have hdata : m.data.length ≤ maxpoolsize := hm.sendable.length_eq ▸ hm.sendable.length_le
  have hreformed := length_withoutSetDataFrame_le m.data
  have hlength : u32 m.data.length = m.data.length := u32_of_lt (by omega)
  have hlength' : u32 (Amf.withoutSetDataFrame m.data).length = (Amf.withoutSetDataFrame m.data).length :=
    u32_of_lt (by omega)
  have hsent : sentAs (base, VirReader.read m {}) = sentAs (base, VirReader.fill m {}) := by
    rcases VirReader.read_eq m {} with heq | ⟨tag, heq⟩
    · rw [heq]
    · rw [heq]
      rfl
  rw [hsent]
  rcases hmedia with htype | htype | htype | htype
  · simp [sentAs, fill, VirReader.fill, typeID, assignCsid, message, played, htype, hlength, tagAudio, tagVideo,
      tagScriptDataAmf0, tagScriptDataAmf3]
  · simp [sentAs, fill, VirReader.fill, typeID, assignCsid, message, played, htype, hlength, tagAudio, tagVideo,
      tagScriptDataAmf0, tagScriptDataAmf3]
  · simp [sentAs, fill, VirReader.fill, typeID, assignCsid, message, played, htype, hlength', tagAudio, tagVideo,
      tagScriptDataAmf0, tagScriptDataAmf3]
  · simp [sentAs, fill, VirReader.fill, typeID, assignCsid, message, played, htype, hlength', tagAudio, tagVideo,
      tagScriptDataAmf0, tagScriptDataAmf3]

theorem typeID_played {m : ChunkStream} (hmedia : VirReader.IsMedia m) (base : Nat) :
    (played base m).typeID = tagAudio ∨ (played base m).typeID = tagVideo ∨ (played base m).typeID = tagScriptDataAmf0 := by
  rw [played]
  rcases hmedia with htype | htype | htype | htype
  · exact Or.inl (by rw [htype]; rfl)
  · exact Or.inr (Or.inl (by rw [htype]; rfl))
  · exact Or.inr (Or.inr (by rw [htype]; rfl))
  · exact Or.inr (Or.inr (by rw [htype]; rfl))

theorem length_played_le {m : ChunkStream} (hm : m.Writable) (base : Nat) : (played base m).data.length ≤ maxpoolsize := by
  have hmax : m.data.length ≤ maxpoolsize := hm.sendable.length_eq ▸ hm.sendable.length_le
  rw [played]
  dsimp only
  split_ifs
  · exact (length_withoutSetDataFrame_le _).trans hmax
  · exact hmax

theorem writable_of_played {c m : ChunkStream} {base : Nat} (hc : c.message = played base m) (hm : m.Writable)
    (hmedia : VirReader.IsMedia m) (hpos : 0 < c.length) : c.Writable := by
  have htypeID : c.typeID = (played base m).typeID := congrArg Message.typeID hc
  have hdata : c.data = (played base m).data := congrArg Message.data hc
  have hlength : c.length = (played base m).data.length := congrArg Message.length hc
  have hcsid : c.csid = if m.typeID = tagAudio then 4 else 6 := congrArg Message.csid hc
  have htime : c.timestamp = u32 (m.timestamp + base) := congrArg Message.timestamp hc
  have hstream : c.streamID = m.streamID := congrArg Message.streamID hc
  have htype : c.typeID = tagAudio ∨ c.typeID = tagVideo ∨ c.typeID = tagScriptDataAmf0 := by
    rw [htypeID]
    exact typeID_played hmedia base
  have hsendable : c.Sendable := by
    refine ⟨by rw [hlength, hdata], hpos, hlength.trans_le (length_played_le hm base), ?_, ?_, ?_, ?_, ?_⟩
    · rcases htype with h | h | h <;> rw [h] <;> decide
    · rw [htime]
      exact Nat.mod_lt _ (by decide)
    · rw [hstream]
      exact hm.sendable.streamID_lt
    · rw [hcsid]
      split_ifs <;> decide
    · rw [hcsid]
      split_ifs <;> decide
  refine ⟨hsendable, fun hsize => ?_, fun hwindow => ?_⟩
  · rcases htype with h | h | h <;> rw [h] at hsize <;> cases hsize
  · rcases htype with h | h | h <;> rw [h] at hwindow <;> cases hwindow

/-- What is sent of packets is a session. -/
theorem sends {down : Conn} (hbuffered : down.rw.buffered = []) (hge : 4 ≤ down.chunkSize)
    (hlt : down.chunkSize < 2 ^ 31) {xs : List (Nat × ChunkStream)}
    (hxs : ∀ x ∈ xs, x.2.Writable ∧ VirReader.IsMedia x.2 ∧
      (x.2.typeID = tagScriptDataAmf0 ∨ x.2.typeID = tagScriptDataAmf3 → Amf.BeginsWithString x.2.data)) :
    ∃ ms down', sendPacket (xs.map fun x => (x.1, VirReader.read x.2 {})) down = .ok () down' ∧
      down'.rw.sent = down.rw.sent ++ Conn.sessionBytes ms down.chunkSize ∧ (∀ m ∈ ms, m.Writable) ∧
      ms.map (fun m => m.assignCsid.message) = (xs.map fun x => played x.1 x.2).filter fun m => 0 < m.length := by
  have hreadable : ∀ y ∈ xs.map fun x => (x.1, VirReader.read x.2 {}), VirReader.Readable y.2 := by
    intro y hy
    obtain ⟨x, hx, rfl⟩ := List.mem_map.mp hy
    exact VirReader.readable_of_writable (hxs x hx).1 {}
  have hstring : ∀ y ∈ xs.map fun x => (x.1, VirReader.read x.2 {}), y.2.isMetadata = true →
      Amf.BeginsWithString y.2.data := by
    intro y hy hscript
    obtain ⟨x, hx, rfl⟩ := List.mem_map.mp hy
    rw [VirReader.data_read]
    refine (hxs x hx).2.2 ?_
    rw [VirReader.isMetadata_eq] at hscript
    exact of_decide_eq_true hscript
  have hsize : u32 down.chunkSize ≠ 0 := by
    rw [u32_of_lt (by omega)]
    omega
  obtain ⟨down', hsend, houtput, -, hbuffered'⟩ := sendPacket_eq hreadable hstring hsize
  let sent := xs.map fun x => sentAs (x.1, VirReader.read x.2 {})
  have hmap : (xs.map fun x => (x.1, VirReader.read x.2 {})).map sentAs = sent := by
    rw [List.map_map]
    rfl
  have hplayed : ∀ x ∈ xs, (sentAs (x.1, VirReader.read x.2 {})).assignCsid.message = played x.1 x.2 := fun x hx =>
    message_sentAs (hxs x hx).1 (hxs x hx).2.1 x.1
  have hcontrol : ∀ m ∈ sent, m.typeID ≠ idSetChunkSize := by
    intro m hm
    obtain ⟨x, hx, rfl⟩ := List.mem_map.mp hm
    have htypeID : (sentAs (x.1, VirReader.read x.2 {})).typeID = (played x.1 x.2).typeID := by
      obtain ⟨csid, hcsid⟩ := assignCsid_fields (sentAs (x.1, VirReader.read x.2 {}))
      rw [← hplayed x hx, hcsid]
      rfl
    rw [htypeID]
    rcases typeID_played (hxs x hx).2.1 x.1 with h | h | h <;> rw [h] <;> decide
  have hwritable : ∀ m ∈ (sent.map assignCsid).filter fun m => 0 < m.length, m.Writable := by
    intro m hm
    obtain ⟨hmem, hpos⟩ := List.mem_filter.mp hm
    obtain ⟨c, hc, rfl⟩ := List.mem_map.mp hmem
    obtain ⟨x, hx, rfl⟩ := List.mem_map.mp hc
    exact writable_of_played (hplayed x hx) (hxs x hx).1 (hxs x hx).2.1 (by simpa using hpos)
  have hmessages : ((sent.map assignCsid).filter fun m => 0 < m.length).map (fun m => m.assignCsid.message) =
      (xs.map fun x => played x.1 x.2).filter fun m => 0 < m.length := by
    have hall : (sent.map assignCsid).map (fun m => m.assignCsid.message) = xs.map fun x => played x.1 x.2 := by
      rw [List.map_map, List.map_map]
      refine List.map_congr_left fun x hx => ?_
      show (sentAs (x.1, VirReader.read x.2 {})).assignCsid.assignCsid.message = played x.1 x.2
      rw [Conn.assignCsid_assignCsid, hplayed x hx]
    have hlength : (fun m : ChunkStream => decide (0 < m.length)) =
        (fun m : Message => decide (0 < m.length)) ∘ fun m => m.assignCsid.message := by
      funext m
      show _ = decide (0 < m.assignCsid.length)
      rw [Conn.Link.length_assignCsid]
    rw [← hall, hlength]
    exact List.filter_map.symm
  rw [hmap, Conn.wireBytes_eq_sessionBytes hcontrol (by omega)] at houtput
  refine ⟨_, down', hsend, ?_, hwritable, hmessages⟩
  have hsent : down'.rw.output = down'.rw.sent := by rw [ReadWriter.output, hbuffered' hbuffered, List.append_nil]
  rw [← hsent, houtput, ReadWriter.output, hbuffered, List.append_nil]

/-- What is sent of packets is what their player reads. -/
theorem plays {down player : Conn} (h : Conn.CaughtUp down player) {xs : List (Nat × ChunkStream)}
    (hxs : ∀ x ∈ xs, x.2.Writable ∧ VirReader.IsMedia x.2 ∧
      (x.2.typeID = tagScriptDataAmf0 ∨ x.2.typeID = tagScriptDataAmf3 → Amf.BeginsWithString x.2.data)) :
    ∃ sent down', sendPacket (xs.map fun x => (x.1, VirReader.read x.2 {})) down = .ok () down' ∧
      down'.rw.sent = down.rw.sent ++ sent ∧
      Conn.ReadsAll ((xs.map fun x => played x.1 x.2).filter fun m => 0 < m.length) (player.more sent) := by
  obtain ⟨ms, down', hsend, hsent, hwritable, hmessages⟩ := sends h.buffered h.size_ge h.size_lt hxs
  exact ⟨_, down', hsend, hsent, hmessages ▸ h.readsAll hwritable⟩

end VirWriter

open VirReader (IsMedia)

/-- A new chunk size, metadata behind `@setDataFrame`, and audio. -/
def publishedSession : List ChunkStream :=
  [Conn.newSetChunkSize 1024, VirWriter.shortMessage 4 18 (Amf.setFrameFrame ++ VirWriter.amf0Metadata),
    VirWriter.shortMessage 4 8 VirWriter.audioData]

end Livego
