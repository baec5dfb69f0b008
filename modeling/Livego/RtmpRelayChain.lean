import Livego.AmfReform
import Livego.RtmpCommandMessage
import Livego.RtmpPassage
import Livego.RtmpRelayForward
import Livego.StaticPushStart

/-! Servers in a chain, each linked to the next by a static push or by a relay that plays from it. What is published to the
first comes to the last. -/

namespace Livego

open Fallible ChunkStream

namespace Amf

/-- What `MetaDataReform` makes of a payload that it puts `@setDataFrame` before. -/
def withSetDataFrame (p : Bytes) : Bytes :=
  match decode 0 ⟨{}, ⟨.bytesReader, p⟩⟩ with
  | .ok (.string vv) _ => if vv ≠ setDataFrame then setFrameFrame ++ p else p
  | _ => p

variable {p : Bytes}

theorem metaDataReform_add_of_beginsWithString {σ : Type} (h : BeginsWithString p) (s : σ) :
    metaDataReform p add s = .ok (withSetDataFrame p) s := by
  obtain ⟨vv, t, hdecode⟩ := h
  unfold metaDataReform withSetDataFrame
  rw [if_pos rfl, hdecode]

theorem withSetDataFrame_cases (p : Bytes) : withSetDataFrame p = p ∨
    withSetDataFrame p = setFrameFrame ++ p ∧ withoutSetDataFrame p = p := by
  unfold withSetDataFrame
  split
  · next vv t hdecode =>
      by_cases hvv : vv = setDataFrame
      · exact Or.inl (if_neg fun hne => hne hvv)
      · refine Or.inr ⟨if_pos hvv, ?_⟩
        rw [withoutSetDataFrame, hdecode]
        exact if_neg hvv
  · exact Or.inl rfl

theorem withoutSetDataFrame_append (p : Bytes) : withoutSetDataFrame (setFrameFrame ++ p) = p := by
  rw [withoutSetDataFrame, decode_setFrameFrame]
  exact (if_pos rfl).trans (List.drop_left' rfl)

/-- What is put on is taken off again, and nothing else. -/
theorem without_withSetDataFrame (p : Bytes) : withoutSetDataFrame (withSetDataFrame p) = withoutSetDataFrame p := by
  rcases withSetDataFrame_cases p with heq | ⟨heq, hplain⟩
  · rw [heq]
  · rw [heq, withoutSetDataFrame_append, hplain]

theorem beginsWithString_of_without (h : BeginsWithString (withoutSetDataFrame p)) : BeginsWithString p := by
  unfold withoutSetDataFrame at h
  split at h
  · next vv t hdecode => exact ⟨vv, t, hdecode⟩
  · exact h

theorem beginsWithString_withSetDataFrame (h : BeginsWithString p) : BeginsWithString (withSetDataFrame p) := by
  rcases withSetDataFrame_cases p with heq | ⟨heq, -⟩
  · rwa [heq]
  · rw [heq]
    exact ⟨_, _, decode_setFrameFrame p⟩

/-- The header of an audio tag could be cut off behind its first byte only if that were a marker of another value. -/
theorem holdsHeader_of_beginsWithString (h : BeginsWithString p) : Tag.HoldsHeader false p := by
  obtain ⟨marker, rest, rfl, hmarked⟩ := (beginsWithString_iff p).mp h
  refine ⟨List.cons_ne_nil _ _, ?_⟩
  rintro ⟨-, flags, hflags, hformat⟩
  obtain ⟨rfl, rfl⟩ := List.cons.inj hflags
  rcases hmarked with ⟨rfl, -⟩ | ⟨rfl | rfl, -⟩ | ⟨rfl, -⟩
  · exact absurd hformat (by decide)
  · exact absurd hformat (by decide)
  · exact absurd hformat (by decide)
  · exact absurd hformat (by decide)

end Amf

/-- Metadata, of either encoding. -/
def ChunkStream.IsScript (m : ChunkStream) : Prop := m.typeID = tagScriptDataAmf0 ∨ m.typeID = tagScriptDataAmf3

instance (m : ChunkStream) : Decidable m.IsScript :=
  inferInstanceAs (Decidable (m.typeID = tagScriptDataAmf0 ∨ m.typeID = tagScriptDataAmf3))

namespace ConnClient

/-- `Write`. -/
def write (c : ChunkStream) : Cmd Unit :=
  if c.IsScript then do
    let data ← Amf.metaDataReform c.data Amf.add
    onConn (Conn.write { c with data, length := u32 data.length })
  else onConn (Conn.write c)

end ConnClient

/-- `sendPublishChunkStream` on what comes out of the channel. No error of a `Write` is looked at. -/
def PlayRelay.sendPublishChunkStream (rcs : List ChunkStream) : ConnClient.Cmd Unit :=
  forM rcs fun rc => do
    let _ ← Call.attempt (ConnClient.write rc)
    pure ()

/-- `HandleAvPacket` on what comes out of the channel, while nobody stops the push. -/
def StaticPush.handleAvPacket (ps : List AvPacket) : ConnClient.Cmd Unit :=
  forM ps fun p => do
    let connectClient ← Call.get
    let _ ← Call.attempt (ConnClient.write (chunk connectClient.streamid p))
    pure ()

namespace Conn

/-- The chunk stream that a message is written on is its own from then on. -/
theorem write_assignCsid (c : ChunkStream) : write c.assignCsid = write c := by
  obtain ⟨csid, hcsid⟩ := assignCsid_fields c
  have htype : c.assignCsid.typeID = c.typeID := by rw [hcsid]
  have hdata : c.assignCsid.data = c.data := by rw [hcsid]
  have hchunk : c.assignCsid.writeChunk = c.writeChunk := by
    funext size
    rw [writeChunk, writeChunk, assignCsid_assignCsid]
  funext conn
  rw [write, write, htype, hdata, hchunk]

end Conn

namespace VirReader

theorem read_assignCsid (m : ChunkStream) (p : AvPacket) : read m.assignCsid p = read m p := by
  obtain ⟨csid, hcsid⟩ := assignCsid_fields m
  rw [hcsid]
  rfl

end VirReader

/-- A message that can be relayed: audio, video or metadata that hold their tag header. Without their `@setDataFrame` the
metadata begin with another string, and there is room for one. -/
structure Relayable (m : ChunkStream) : Prop where
  writable : m.Writable
  media : VirReader.IsMedia m
  tagged : Tag.HoldsHeader (m.typeID = tagVideo) m.data
  named : m.IsScript → Amf.BeginsWithString (Amf.withoutSetDataFrame m.data)
  plain : m.IsScript → Amf.withoutSetDataFrame (Amf.withoutSetDataFrame m.data) = Amf.withoutSetDataFrame m.data
  room : m.IsScript → (Amf.withoutSetDataFrame m.data).length + Amf.setFrameFrame.length ≤ maxpoolsize

/-- `m'` has what `m` has, `later`. -/
structure Echoes (later : Nat) (m m' : ChunkStream) : Prop where
  isScript : m'.IsScript ↔ m.IsScript
  typeID : ¬m.IsScript → m'.typeID = m.typeID
  timestamp : m'.timestamp = u32 (m.timestamp + later)
  script : m.IsScript → Amf.withoutSetDataFrame m'.data = Amf.withoutSetDataFrame m.data
  data : ¬m.IsScript → m'.data = m.data

theorem Echoes.refl {m : ChunkStream} (h : m.timestamp < 2 ^ 32) : Echoes 0 m m :=
  ⟨Iff.rfl, fun _ => rfl, (u32_of_lt h).symm, fun _ => rfl, fun _ => rfl⟩

theorem Echoes.trans {n k : Nat} {m m' m'' : ChunkStream} (h : Echoes n m m') (h' : Echoes k m' m'') :
    Echoes (n + k) m m'' := by
  have hnot : ¬m.IsScript → ¬m'.IsScript := h.isScript.not.mpr
  refine ⟨h'.isScript.trans h.isScript, fun hm => ?_, ?_, fun hm => ?_, fun hm => ?_⟩
  · rw [h'.typeID (hnot hm), h.typeID hm]
  · rw [h'.timestamp, h.timestamp, u32, u32, u32, Nat.mod_add_mod, Nat.add_assoc]
  · rw [h'.script (h.isScript.mpr hm), h.script hm]
  · rw [h'.data (hnot hm), h.data hm]

theorem Echoes.forall₂_trans {n k : Nat} {ms ms' ms'' : List ChunkStream} (h : List.Forall₂ (Echoes n) ms ms')
    (h' : List.Forall₂ (Echoes k) ms' ms'') : List.Forall₂ (Echoes (n + k)) ms ms'' := by
  induction h generalizing ms'' with
  | nil =>
      cases h'
      exact .nil
  | cons hhead htail ih =>
      obtain _ | ⟨hhead', htail'⟩ := h'
      exact .cons (hhead.trans hhead') (ih htail')

/-! ### What is written for a message -/

/-- The message that `Write` gives to the connection, on its chunk stream. -/
def ConnClient.framed (c : ChunkStream) : ChunkStream :=
  let data := Amf.withSetDataFrame c.data
  assignCsid (if c.IsScript then { c with data, length := u32 data.length } else c)

namespace ConnClient

structure Pushable (c : ChunkStream) : Prop where
  string : c.IsScript → Amf.BeginsWithString c.data
  writable : (framed c).Writable

theorem write_eq {c : ChunkStream} (h : Pushable c) {client : ConnClient} (hlo : 4 ≤ client.conn.chunkSize)
    (hhi : client.conn.chunkSize < 2 ^ 31) :
    write c client = .ok () { client with conn := client.conn.wrote [framed c] } := by
  have hwrote := Conn.write_wrote h.writable hlo hhi
  by_cases hscript : c.IsScript
  · rw [write, if_pos hscript,
      Call.bind_of_ok (Amf.metaDataReform_add_of_beginsWithString (h.string hscript) client)]
    refine onConn_of_ok ?_
    rw [← hwrote, framed, if_pos hscript, Conn.write_assignCsid]
  · rw [write, if_neg hscript]
    refine onConn_of_ok ?_
    rw [← hwrote, framed, if_neg hscript, Conn.write_assignCsid]

/-- One call after the other, their errors not looked at. -/
theorem forM_write_eq {α : Type} {chunkOf : α → ConnClient → ChunkStream} {xs : List α} {client : ConnClient}
    (hsame : ∀ x client conn, chunkOf x { client with conn } = chunkOf x client)
    (hxs : ∀ x ∈ xs, Pushable (chunkOf x client)) (hlo : 4 ≤ client.conn.chunkSize)
    (hhi : client.conn.chunkSize < 2 ^ 31) :
    (forM xs fun x => (do
        let connectClient ← Call.get
        let _ ← Call.attempt (write (chunkOf x connectClient))
        pure () : Cmd Unit)) client =
      .ok () { client with conn := client.conn.wrote (xs.map fun x => framed (chunkOf x client)) } := by
  induction xs generalizing client with
  | nil =>
      obtain ⟨_, _, _, _, _, _, _, ⟨_, _, _, _, _, ⟨_, _, _, _, _⟩, _, _⟩⟩ := client
      simp [Conn.wrote, Conn.sizeAfterAll, Conn.sessionBytes, ReadWriter.write, Call.forM_apply_nil]
  | cons x xs ih =>
      obtain ⟨hx, hxs⟩ := List.forall_mem_cons.mp hxs
      have hwrite := write_eq hx hlo hhi
      obtain ⟨hlo', hhi'⟩ := Conn.sizeAfterAll_bounds
        (List.forall_mem_singleton.mpr hx.writable) hlo hhi
      have hrest := @ih { client with conn := client.conn.wrote [framed (chunkOf x client)] }
        (fun y hy => by rw [hsame]; exact hxs y hy) hlo' hhi'
      simp only [hsame, Conn.wrote_wrote] at hrest
      rw [Call.forM_apply_cons, Call.get_bind_apply, Call.bind_of_ok (Call.attempt_of_ok hwrite)]
      exact hrest

end ConnClient

/-- What comes to be relayed of `m`, which is `later` by then and may have lost its `@setDataFrame`. -/
structure Conveys (later : Nat) (m c : ChunkStream) : Prop where
  typeID : c.typeID = if m.IsScript then tagScriptDataAmf0 else m.typeID
  timestamp : c.timestamp = u32 (m.timestamp + later)
  streamID_lt : c.streamID < 2 ^ 32
  length_eq : c.length = c.data.length
  script : m.IsScript → c.data = m.data ∨ c.data = Amf.withoutSetDataFrame m.data
  data : ¬m.IsScript → c.data = m.data

namespace Conveys

variable {n : Nat} {m c : ChunkStream}

theorem isScript (h : Conveys n m c) : c.IsScript ↔ m.IsScript := by
  rw [ChunkStream.IsScript, h.typeID]
  by_cases hm : m.IsScript
  · rw [if_pos hm]
    exact iff_of_true (Or.inl rfl) hm
  · rw [if_neg hm]
    exact Iff.rfl

/-- Either way the same is left without `@setDataFrame`. -/
theorem without_data (h : Conveys n m c) (hm : Relayable m) (hscript : m.IsScript) :
    Amf.withoutSetDataFrame c.data = Amf.withoutSetDataFrame m.data := by
  rcases h.script hscript with hdata | hdata
  · rw [hdata]
  · rw [hdata, hm.plain hscript]

theorem named (h : Conveys n m c) (hm : Relayable m) (hscript : m.IsScript) : Amf.BeginsWithString c.data := by
  refine Amf.beginsWithString_of_without ?_
  rw [h.without_data hm hscript]
  exact hm.named hscript

theorem length_withSetDataFrame_le (h : Conveys n m c) (hm : Relayable m) (hscript : m.IsScript) :
    (Amf.withSetDataFrame c.data).length ≤ maxpoolsize := by
  have hmax : m.data.length ≤ maxpoolsize := hm.writable.sendable.length_eq ▸ hm.writable.sendable.length_le
  have hle : c.data.length ≤ maxpoolsize := by
    rcases h.script hscript with hdata | hdata
    · rwa [hdata]
    · rw [hdata]
      exact (VirWriter.length_withoutSetDataFrame_le m.data).trans hmax
  rcases Amf.withSetDataFrame_cases c.data with heq | ⟨heq, hplain⟩
  · rwa [heq]
  · have hroom := hm.room hscript
    rw [← h.without_data hm hscript, hplain] at hroom
    rw [heq, List.length_append, Nat.add_comm]
    exact hroom

theorem fields_framed (c : ChunkStream) :
    (ConnClient.framed c).typeID = c.typeID ∧ (ConnClient.framed c).timestamp = c.timestamp ∧
      (ConnClient.framed c).streamID = c.streamID ∧
      (ConnClient.framed c).data = if c.IsScript then Amf.withSetDataFrame c.data else c.data := by
  rw [ConnClient.framed]
  by_cases hscript : c.IsScript
  · rw [if_pos hscript, if_pos hscript]
    obtain ⟨csid, hcsid⟩ := assignCsid_fields { c with
      data := Amf.withSetDataFrame c.data, length := u32 (Amf.withSetDataFrame c.data).length }
    rw [hcsid]
    exact ⟨rfl, rfl, rfl, rfl⟩
  · rw [if_neg hscript, if_neg hscript]
    obtain ⟨csid, hcsid⟩ := assignCsid_fields c
    rw [hcsid]
    exact ⟨rfl, rfl, rfl, rfl⟩

theorem echoes (h : Conveys n m c) (hm : Relayable m) : Echoes n m (ConnClient.framed c) := by
  obtain ⟨htype, htime, -, hdata⟩ := fields_framed c
  refine ⟨?_, fun hscript => ?_, htime.trans h.timestamp, fun hscript => ?_, fun hscript => ?_⟩
  · rw [IsScript, htype]
    exact h.isScript
  · rw [htype, h.typeID, if_neg hscript]
  · rw [hdata, if_pos (h.isScript.mpr hscript), Amf.without_withSetDataFrame, h.without_data hm hscript]
  · rw [hdata, if_neg fun hc => hscript (h.isScript.mp hc), h.data hscript]

theorem media_typeID (h : Conveys n m c) (hm : Relayable m) :
    c.typeID = tagAudio ∨ c.typeID = tagVideo ∨ c.typeID = tagScriptDataAmf0 := by
  rw [h.typeID]
  by_cases hscript : m.IsScript
  · exact Or.inr (Or.inr (if_pos hscript))
  · rw [if_neg hscript]
    rcases hm.media with haudio | hvideo | hamf0 | hamf3
    · exact Or.inl haudio
    · exact Or.inr (Or.inl hvideo)
    · exact absurd (Or.inl hamf0) hscript
    · exact absurd (Or.inr hamf3) hscript

theorem length_framed (h : Conveys n m c) (hm : Relayable m) :
    (ConnClient.framed c).length = (ConnClient.framed c).data.length ∧
      0 < (ConnClient.framed c).data.length ∧ (ConnClient.framed c).data.length ≤ maxpoolsize := by
  have hmax : maxpoolsize < 2 ^ 32 := by decide
  obtain ⟨-, -, -, hdata⟩ := fields_framed c
  by_cases hscript : m.IsScript
  · have hle := h.length_withSetDataFrame_le hm hscript
    obtain ⟨marker, rest, hcons, -⟩ :=
      (Amf.beginsWithString_iff _).mp (Amf.beginsWithString_withSetDataFrame (h.named hm hscript))
    rw [if_pos (h.isScript.mpr hscript)] at hdata
    rw [hdata]
    refine ⟨?_, by rw [hcons]; exact Nat.succ_pos _, hle⟩
    rw [ConnClient.framed, if_pos (h.isScript.mpr hscript), Conn.Link.length_assignCsid]
    exact u32_of_lt (by omega)
  · have hsendable := hm.writable.sendable
    rw [if_neg fun hc => hscript (h.isScript.mp hc), h.data hscript] at hdata
    rw [hdata, ← hsendable.length_eq]
    refine ⟨?_, hsendable.length_pos, hsendable.length_le⟩
    rw [ConnClient.framed, if_neg fun hc => hscript (h.isScript.mp hc), Conn.Link.length_assignCsid, h.length_eq,
      h.data hscript, hsendable.length_eq]

theorem csid_framed (h : Conveys n m c) (hm : Relayable m) :
    (ConnClient.framed c).csid = 4 ∨ (ConnClient.framed c).csid = 6 := by
  have hof : ∀ x : ChunkStream, x.typeID = c.typeID → x.assignCsid.csid = 4 ∨ x.assignCsid.csid = 6 := by
    intro x hx
    rw [assignCsid, hx]
    rcases h.media_typeID hm with haudio | hvideo | hamf0
    · simp [haudio]
    · simp [hvideo, tagAudio, tagVideo]
    · simp [hamf0, tagAudio, tagVideo, tagScriptDataAmf0]
  rw [ConnClient.framed]
  split_ifs
  · exact hof _ rfl
  · exact hof _ rfl

theorem writable_framed (h : Conveys n m c) (hm : Relayable m) : (ConnClient.framed c).Writable := by
  obtain ⟨htype, htime, hstream, -⟩ := fields_framed c
  obtain ⟨hlength, hpos, hle⟩ := h.length_framed hm
  have hmedia := h.media_typeID hm
  rw [← htype] at hmedia
  have hcsid := h.csid_framed hm
  refine ⟨⟨hlength, by omega, by omega, ?_, ?_, ?_, by omega, by omega⟩, fun hsize => ?_, fun hwindow => ?_⟩
  · rcases hmedia with htype | htype | htype <;> rw [htype] <;> decide
  · rw [htime, h.timestamp]
    exact Nat.mod_lt _ (by decide)
  · rw [hstream]
    exact h.streamID_lt
  · rcases hmedia with htype | htype | htype <;> rw [htype] at hsize <;> cases hsize
  · rcases hmedia with htype | htype | htype <;> rw [htype] at hwindow <;> cases hwindow

theorem pushable (h : Conveys n m c) (hm : Relayable m) : ConnClient.Pushable c :=
  ⟨fun hscript => h.named hm (h.isScript.mp hscript), h.writable_framed hm⟩

theorem relayable_framed (h : Conveys n m c) (hm : Relayable m) : Relayable (ConnClient.framed c) := by
  have hechoes := h.echoes hm
  obtain ⟨htype, -, -, hdata⟩ := fields_framed c
  refine ⟨h.writable_framed hm, ?_, ?_, fun hscript => ?_, fun hscript => ?_, fun hscript => ?_⟩
  · rw [VirReader.IsMedia, htype]
    exact (h.media_typeID hm).imp_right (Or.imp_right Or.inl)
  · rw [htype, hdata, h.typeID]
    by_cases hscript : m.IsScript
    · rw [if_pos hscript, if_pos (h.isScript.mpr hscript)]
      exact Amf.holdsHeader_of_beginsWithString (Amf.beginsWithString_withSetDataFrame (h.named hm hscript))
    · rw [if_neg hscript, if_neg fun hc => hscript (h.isScript.mp hc), h.data hscript]
      exact hm.tagged
  · rw [hechoes.script (hechoes.isScript.mp hscript)]
    exact hm.named (hechoes.isScript.mp hscript)
  · rw [hechoes.script (hechoes.isScript.mp hscript)]
    exact hm.plain (hechoes.isScript.mp hscript)
  · rw [hechoes.script (hechoes.isScript.mp hscript)]
    exact hm.room (hechoes.isScript.mp hscript)

end Conveys

theorem length_played_pos {m : ChunkStream} (hm : Relayable m) (base : Nat) : 0 < (VirWriter.played base m).length := by
  show 0 < (if m.IsScript then Amf.withoutSetDataFrame m.data else m.data).length
  by_cases hscript : m.IsScript
  · obtain ⟨marker, rest, hcons, -⟩ := (Amf.beginsWithString_iff _).mp (hm.named hscript)
    rw [if_pos hscript, hcons]
    exact Nat.succ_pos _
  · rw [if_neg hscript, ← hm.writable.sendable.length_eq]
    exact hm.writable.sendable.length_pos

namespace VirWriter

variable {ms : List ChunkStream} {base : Nat}

/-- A player's connection. -/
theorem exists_sent (hms : ∀ m ∈ ms, Relayable m) {down : Conn} (hbuffered : down.rw.buffered = [])
    (hlo : 4 ≤ down.chunkSize) (hhi : down.chunkSize < 2 ^ 31) :
    ∃ sent down', sendPacket ((ms.map fun m => VirReader.read m {}).map fun p => (base, p)) down = .ok () down' ∧
      down'.rw.sent = down.rw.sent ++ Conn.sessionBytes sent down.chunkSize ∧ (∀ m ∈ sent, m.Writable) ∧
      sent.map (fun m => m.assignCsid.message) = ms.map (played base) := by
  obtain ⟨sent, down', hsend, hsent, hwritable, hmessages⟩ :=
    @sends down hbuffered hlo hhi (ms.map fun m => (base, m)) (by
      intro x hx
      obtain ⟨m, hm, rfl⟩ := List.mem_map.mp hx
      have hm := hms m hm
      exact ⟨hm.writable, hm.media, fun hscript => Amf.beginsWithString_of_without (hm.named hscript)⟩)
  have hmaps : (ms.map fun m => (base, m)).map (fun x => played x.1 x.2) = ms.map (played base) := List.map_map
  have hfilter : (ms.map (played base)).filter (fun m => 0 < m.length) = ms.map (played base) := by
    refine List.filter_eq_self.mpr fun msg hmsg => decide_eq_true ?_
    obtain ⟨m, hm, rfl⟩ := List.mem_map.mp hmsg
    exact length_played_pos (hms m hm) base
  rw [hmaps, hfilter] at hmessages
  refine ⟨sent, down', ?_, hsent, hwritable, hmessages⟩
  rw [← hsend, List.map_map, List.map_map]
  rfl

theorem exists_played (hms : ∀ m ∈ ms, Relayable m) {down player : Conn} (h : Conn.CaughtUp down player) :
    ∃ down' sent, sendPacket ((ms.map fun m => VirReader.read m {}).map fun p => (base, p)) down = .ok () down' ∧
      down'.rw.sent = down.rw.sent ++ sent ∧ Conn.ReadsAll (ms.map (played base)) (player.more sent) := by
  obtain ⟨sent, down', hsend, hsent, hwritable, hmessages⟩ := exists_sent hms h.buffered h.size_ge h.size_lt
  exact ⟨down', _, hsend, hsent, hmessages ▸ h.readsAll hwritable⟩

end VirWriter

/-! ### The links -/

namespace PlayRelay

/-- A message on which the decoding of commands does not fail. -/
def Quiet (msg : Message) : Prop :=
  msg.typeID = 20 ∨ msg.typeID = 17 → ∃ args, Sayable args ∧ msg.data = Amf.batchBytes args

/-- The message is given to the other goroutine. -/
def Passed (msg : Message) : Prop := msg.typeID = 18 ∨ msg.typeID = 8 ∨ msg.typeID = 9

instance : DecidablePred Passed := fun msg =>
  inferInstanceAs (Decidable (msg.typeID = 18 ∨ msg.typeID = 8 ∨ msg.typeID = 9))

theorem pass_eq {rc : ChunkStream} (hquiet : Quiet rc.message) (relay : PlayRelay) :
    pass rc relay = .ok () { relay with csChan := relay.csChan ++ if Passed rc.message then [rc] else [] } := by
  unfold pass
  by_cases hcommand : rc.typeID = 20 ∨ rc.typeID = 17
  · have hnot : ¬Passed rc.message := by
      rintro (htype | htype | htype)
      · exact absurd (htype ▸ hcommand : 18 = 20 ∨ 18 = 17) (by decide)
      · exact absurd (htype ▸ hcommand : 8 = 20 ∨ 8 = 17) (by decide)
      · exact absurd (htype ▸ hcommand : 9 = 20 ∨ 9 = 17) (by decide)
    obtain ⟨args, hsayable, hdata⟩ := hquiet hcommand
    have hdecode : onClient (ConnClient.decodeBatch rc.data) relay = .ok (args.map Amf.Value.arrived, .eof) relay := by
      rw [onClient, show rc.data = Amf.batchBytes args from hdata, ConnClient.decodeBatch_eq hsayable]
    rw [if_pos hcommand, Call.bind_of_ok hdecode, if_neg hnot, List.append_nil]
    rfl
  · rw [if_neg hcommand]
    by_cases hpassed : Passed rc.message
    · rw [if_pos hpassed, if_pos (show rc.typeID = 18 ∨ rc.typeID = 8 ∨ rc.typeID = 9 from hpassed)]
      rfl
    · rw [if_neg hpassed, if_neg (show ¬(rc.typeID = 18 ∨ rc.typeID = 8 ∨ rc.typeID = 9) from hpassed), List.append_nil]
      rfl

/-- The loop comes to where all is read, and has passed on audio, video and metadata in their order. -/
theorem receives {msgs : List Message} {relay : PlayRelay} (hstart : relay.startflag = true)
    (hreads : Conn.ReadsAll msgs relay.conn) (hquiet : ∀ msg ∈ msgs, Quiet msg) :
    ∃ relay' cs, Call.Visits rcvPlayTurn () relay () relay' ∧ Conn.Ended relay'.conn ∧
      relay'.csChan = relay.csChan ++ cs ∧ cs.map message = msgs.filter Passed := by
  induction msgs generalizing relay with
  | nil => exact ⟨relay, [], .here () relay, hreads, (List.append_nil _).symm, rfl⟩
  | cons msg msgs ih =>
      obtain ⟨rc, conn, hread, hmessage, hrest⟩ := hreads
      obtain ⟨hhead, htail⟩ := List.forall_mem_cons.mp hquiet
      have hpass := pass_eq (hmessage ▸ hhead : Quiet rc.message) (relay.withConn conn)
      have hturn := rcvPlayTurn_eq hstart
      rw [hread] at hturn
      dsimp only at hturn
      rw [Call.bind_of_ok hpass] at hturn
      obtain ⟨relay', cs, hvisits, hended, hchan, hcs⟩ := @ih { relay.withConn conn with
        csChan := relay.csChan ++ if Passed rc.message then [rc] else [] } hstart hrest htail
      refine ⟨relay', (if Passed rc.message then [rc] else []) ++ cs, .next hturn hvisits, hended, ?_, ?_⟩
      · rw [hchan, List.append_assoc]
      · rw [List.map_append, hcs, hmessage]
        by_cases hpassed : Passed msg
        · rw [if_pos hpassed, List.filter_cons_of_pos (by simpa using hpassed), List.map_singleton, hmessage]
          rfl
        · rw [if_neg hpassed, List.filter_cons_of_neg (by simpa using hpassed)]
          rfl

/-- What is played is passed on, whatever else is read before. -/
theorem receives_played {base : Nat} {ms : List ChunkStream} (hms : ∀ m ∈ ms, Relayable m) {others : List Message}
    (hothers : ∀ msg ∈ others, Quiet msg ∧ ¬Passed msg) {relay : PlayRelay} (hstart : relay.startflag = true)
    (hempty : relay.csChan = []) (hreads : Conn.ReadsAll (others ++ ms.map (VirWriter.played base)) relay.conn) :
    ∃ relay', Call.Visits rcvPlayTurn () relay () relay' ∧ Conn.Ended relay'.conn ∧
      relay'.csChan.map message = ms.map (VirWriter.played base) := by
  have hmedia : ∀ msg ∈ ms.map (VirWriter.played base), Quiet msg ∧ Passed msg := by
    intro msg hmsg
    obtain ⟨m, hm, rfl⟩ := List.mem_map.mp hmsg
    have htype : (VirWriter.played base m).typeID = 8 ∨ (VirWriter.played base m).typeID = 9 ∨
        (VirWriter.played base m).typeID = 18 := VirWriter.typeID_played (hms m hm).media base
    refine ⟨fun hcommand => ?_, ?_⟩
    · omega
    · unfold Passed
      omega
  obtain ⟨relay', cs, hvisits, hended, hchan, hcs⟩ := receives hstart hreads
    (List.forall_mem_append.mpr ⟨fun msg h => (hothers msg h).1, fun msg h => (hmedia msg h).1⟩)
  rw [List.filter_append, List.filter_eq_nil_iff.mpr fun msg h => by simpa using (hothers msg h).2, List.nil_append,
    List.filter_eq_self.mpr fun msg h => by simpa using (hmedia msg h).2] at hcs
  rw [hempty, List.nil_append] at hchan
  exact ⟨relay', hvisits, hended, hchan ▸ hcs⟩

end PlayRelay

namespace Conveys

variable {n base streamID : Nat} {m c : ChunkStream}

theorem of_staticPush (hm : Relayable m) (hid : streamID < 2 ^ 32) :
    Conveys 0 m (StaticPush.chunk streamID (VirReader.read m {})) := by
  have hmax : maxpoolsize < 2 ^ 32 := by decide
  have hsendable := hm.writable.sendable
  have hdata : (VirReader.read m {}).data = m.data := VirReader.data_read m {}
  refine ⟨?_, ?_, hid, ?_, fun _ => Or.inl hdata, fun _ => hdata⟩
  · show VirWriter.typeID (VirReader.read m {}) = _
    have hsame : VirWriter.typeID (VirReader.read m {}) = VirWriter.typeID (VirReader.fill m {}) := by
      rcases VirReader.read_eq m {} with heq | ⟨tag, heq⟩
      · rw [heq]
      · rw [heq]
        rfl
    rw [hsame]
    rcases hm.media with htype | htype | htype | htype
    · simp [VirWriter.typeID, VirReader.fill, IsScript, htype, tagAudio, tagVideo, tagScriptDataAmf0, tagScriptDataAmf3]
    · simp [VirWriter.typeID, VirReader.fill, IsScript, htype, tagAudio, tagVideo, tagScriptDataAmf0, tagScriptDataAmf3]
    · simp [VirWriter.typeID, VirReader.fill, IsScript, htype, tagAudio, tagVideo, tagScriptDataAmf0, tagScriptDataAmf3]
    · simp [VirWriter.typeID, VirReader.fill, IsScript, htype, tagAudio, tagVideo, tagScriptDataAmf0, tagScriptDataAmf3]
  · have htime : (VirReader.read m {}).timeStamp = m.timestamp := by
      rcases VirReader.read_eq m {} with heq | ⟨tag, heq⟩ <;> rw [heq] <;> rfl
    show (VirReader.read m {}).timeStamp = _
    rw [htime, Nat.add_zero, u32_of_lt hsendable.timestamp_lt]
  · show u32 (VirReader.read m {}).data.length = (VirReader.read m {}).data.length
    rw [hdata, ← hsendable.length_eq]
    exact u32_of_lt (hsendable.length_le.trans_lt hmax)

theorem of_played (hm : Relayable m) (h : c.message = VirWriter.played base m) : Conveys base m c := by
  simp only [ChunkStream.message, VirWriter.played, Message.mk.injEq] at h
  obtain ⟨-, htype, hstream, htime, hlength, hdata⟩ := h
  have hmedia := hm.media
  refine ⟨?_, htime, hstream ▸ hm.writable.sendable.streamID_lt, ?_, fun hscript => Or.inr ?_, fun hscript => ?_⟩
  · rw [htype]
    rcases hmedia with hm | hm | hm | hm <;>
      simp [IsScript, hm, tagAudio, tagVideo, tagScriptDataAmf0, tagScriptDataAmf3]
  · rw [hlength, hdata]
  · exact hdata.trans (if_pos hscript)
  · exact hdata.trans (if_neg hscript)

theorem forall₂_of_played {ms cs : List ChunkStream} (hms : ∀ m ∈ ms, Relayable m)
    (h : cs.map message = ms.map (VirWriter.played base)) : List.Forall₂ (Conveys base) ms cs := by
  rw [← List.forall₂_eq_eq_eq, List.forall₂_map_left_iff, List.forall₂_map_right_iff] at h
  induction h with
  | nil => exact .nil
  | cons hhead htail ih =>
      obtain ⟨hm, hms⟩ := List.forall_mem_cons.mp hms
      exact .cons (.of_played hm hhead) (ih hms)

end Conveys

namespace ConnClient

variable {n : Nat} {ms cs : List ChunkStream} {client : ConnClient} {up : Conn}

/-- What is written for messages is read on the other side as messages that echo them. -/
theorem relays (hms : ∀ m ∈ ms, Relayable m) (hcs : List.Forall₂ (Conveys n) ms cs)
    (hup : Conn.CaughtUp client.conn up) :
    List.Forall₂ (Echoes n) ms (cs.map framed) ∧ (∀ m ∈ cs.map framed, Relayable m) ∧ (∀ c ∈ cs, Pushable c) ∧
      (client.conn.wrote (cs.map framed)).rw.output =
        client.conn.rw.output ++ Conn.sessionBytes (cs.map framed) client.conn.chunkSize ∧
      VirReader.packets (cs.map framed).length
          ({}, up.more (Conn.sessionBytes (cs.map framed) client.conn.chunkSize)) =
        (cs.map framed).map (fun m => (none, VirReader.read m {})) ∧
      ∃ e, (VirReader.readPacket (VirReader.calls (cs.map framed).length
        ({}, up.more (Conn.sessionBytes (cs.map framed) client.conn.chunkSize)))).1 = some e := by
  have hall : List.Forall₂ (Echoes n) ms (cs.map framed) ∧ (∀ m ∈ cs.map framed, Relayable m) ∧
      ∀ c ∈ cs, Pushable c := by
    induction hcs with
    | nil => exact ⟨.nil, by simp, by simp⟩
    | cons hc hcs ih =>
        obtain ⟨hm, hms⟩ := List.forall_mem_cons.mp hms
        obtain ⟨hechoes, hrelayable, hpushable⟩ := ih hms
        exact ⟨.cons (hc.echoes hm) hechoes, List.forall_mem_cons.mpr ⟨hc.relayable_framed hm, hrelayable⟩,
          List.forall_mem_cons.mpr ⟨hc.pushable hm, hpushable⟩⟩
  obtain ⟨hechoes, hrelayable, hpushable⟩ := hall
  have hreads := hup.readsAll fun m hm => (hrelayable m hm).writable
  have hfilter : (cs.map framed).filter (fun m => VirReader.IsMedia m) = cs.map framed :=
    List.filter_eq_self.mpr fun m hm => decide_eq_true (hrelayable m hm).media
  obtain ⟨hpackets, hend⟩ := VirReader.packets_of_readsAll hreads (fun m hm _ => (hrelayable m hm).tagged) {}
  rw [hfilter] at hpackets hend
  refine ⟨hechoes, hrelayable, hpushable, ?_, hpackets, hend⟩
  rw [Conn.wrote, ReadWriter.output, ReadWriter.output, ReadWriter.write, List.append_assoc]

end ConnClient

/-- Where a link has its packets from: the stream itself, or a player's connection to it. -/
inductive ServerLink.Source where
  | staticPush
  | rtmpRelay (base : Nat) (down : Conn) (play : ConnClient)

/-- A link to another server: its source, the client that publishes, and the connection of the other server. -/
structure ServerLink where
  source : ServerLink.Source
  publish : ConnClient
  up : Conn

namespace ServerLink

/-- The client once it has been given all of the packets to write. -/
inductive Publishes (link : ServerLink) (ps : List AvPacket) (publish : ConnClient) : Prop where
  | staticPush (hsource : link.source = .staticPush)
      (hwrites : StaticPush.handleAvPacket ps link.publish = .ok () publish)
  | rtmpRelay {base : Nat} {down down' : Conn} {play : ConnClient} {sent : Bytes} {relay : PlayRelay}
      (hsource : link.source = .rtmpRelay base down play)
      (hsends : VirWriter.sendPacket (ps.map fun p => (base, p)) down = .ok () down')
      (hsent : down'.rw.sent = down.rw.sent ++ sent)
      (hreceives : Call.Visits PlayRelay.rcvPlayTurn ()
        { connectPlayClient := { play with conn := play.conn.more sent } } () relay)
      (hended : Conn.Ended relay.conn)
      (hwrites : PlayRelay.sendPublishChunkStream relay.csChan link.publish = .ok () publish)

/-- The other server reads packets of what is published, and then nothing more. -/
structure Passes (link : ServerLink) (ps qs : List AvPacket) : Prop where
  publishes : ∃ publish bytes, link.Publishes ps publish ∧
    publish.conn.rw.output = link.publish.conn.rw.output ++ bytes ∧
    VirReader.packets qs.length ({}, link.up.more bytes) = qs.map (fun q => (none, q)) ∧
    ∃ e, (VirReader.readPacket (VirReader.calls qs.length ({}, link.up.more bytes))).1 = some e

/-- The two ends of every connection agree. -/
structure Ready (link : ServerLink) : Prop where
  publish : Conn.CaughtUp link.publish.conn link.up
  streamid_lt : link.publish.streamid < 2 ^ 32
  play : ∀ base down play, link.source = .rtmpRelay base down play → Conn.CaughtUp down play.conn

/-- What the timestamps grow by. -/
def base (link : ServerLink) : Nat :=
  match link.source with
  | .staticPush => 0
  | .rtmpRelay base _ _ => base

/-- The packets that the first server reads and those that the last one does. -/
inductive Along : List ServerLink → List AvPacket → List AvPacket → Prop where
  | nil (ps : List AvPacket) : Along [] ps ps
  | cons {link : ServerLink} {links : List ServerLink} {ps qs rs : List AvPacket} (hpasses : link.Passes ps qs)
      (hrest : Along links qs rs) : Along (link :: links) ps rs

variable {link : ServerLink} {ms : List ChunkStream}

/-- What conveys the messages is published as messages that echo them. -/
theorem passes_of_publishes (hready : link.Ready) (hms : ∀ m ∈ ms, Relayable m) {n : Nat} {cs : List ChunkStream}
    (hcs : List.Forall₂ (Conveys n) ms cs) {ps : List AvPacket}
    (hpublishes : (∀ c ∈ cs, ConnClient.Pushable c) → link.Publishes ps
      { link.publish with conn := link.publish.conn.wrote (cs.map ConnClient.framed) }) :
    ∃ ms', (∀ m ∈ ms', Relayable m) ∧ List.Forall₂ (Echoes n) ms ms' ∧
      link.Passes ps (ms'.map fun m => VirReader.read m {}) := by
  obtain ⟨hechoes, hrelayable, hpushable, houtput, hpackets, hend⟩ := ConnClient.relays hms hcs hready.publish
  refine ⟨_, hrelayable, hechoes, ⟨_, _, hpublishes hpushable, houtput, ?_, ?_⟩⟩
  · rw [List.length_map, hpackets]
    exact List.map_map.symm
  · rw [List.length_map]
    exact hend

theorem exists_passes (hready : link.Ready) (hms : ∀ m ∈ ms, Relayable m) :
    ∃ ms', (∀ m ∈ ms', Relayable m) ∧ List.Forall₂ (Echoes link.base) ms ms' ∧
      link.Passes (ms.map fun m => VirReader.read m {}) (ms'.map fun m => VirReader.read m {}) := by
  have hlo := hready.publish.size_ge
  have hhi := hready.publish.size_lt
  cases hsource : link.source with
  | staticPush =>
      have hbase : link.base = 0 := by rw [base, hsource]
      have hconveys : List.Forall₂ (Conveys 0) ms
          ((ms.map fun m => VirReader.read m {}).map (StaticPush.chunk link.publish.streamid)) := by
        rw [List.map_map, List.forall₂_map_right_iff, List.forall₂_same]
        exact fun m hm => .of_staticPush (hms m hm) hready.streamid_lt
      rw [hbase]
      refine passes_of_publishes hready hms hconveys fun hpushable => .staticPush hsource ?_
      have hwrites := @ConnClient.forM_write_eq _ (fun p client => StaticPush.chunk client.streamid p)
        (ms.map fun m => VirReader.read m {}) _ (fun _ _ _ => rfl) (fun p hp => hpushable _ (List.mem_map_of_mem hp)) hlo hhi
      rw [List.map_map]
      exact hwrites
  | rtmpRelay base down play =>
      have hbase : link.base = base := by rw [ServerLink.base, hsource]
      obtain ⟨down', sent, hsends, hsent, hreads⟩ := VirWriter.exists_played hms (hready.play base down play hsource)
      obtain ⟨relay, hvisits, hended, hplayed⟩ := @PlayRelay.receives_played base ms hms [] (by simp)
        { connectPlayClient := { play with conn := play.conn.more sent } } rfl rfl hreads
      rw [hbase]
      refine passes_of_publishes hready hms (Conveys.forall₂_of_played hms hplayed) fun hpushable =>
        .rtmpRelay hsource hsends hsent hvisits hended ?_
      exact @ConnClient.forM_write_eq _ (fun rc _ => rc) _ _ (fun _ _ _ => rfl) hpushable hlo hhi

/-- What the timestamps grow by on the way. -/
def lateness (links : List ServerLink) : Nat := (links.map base).sum

/-- What a player finds in a message, whatever the number of its stream. -/
def content (msg : Message) : Nat × Nat × Bytes := (msg.typeID, msg.timestamp, msg.data)

theorem content_played {n base : Nat} {m m' : ChunkStream} (h : Echoes n m m') :
    content (VirWriter.played base m') = content (VirWriter.played (base + n) m) := by
  have htime : u32 (m'.timestamp + base) = u32 (m.timestamp + (base + n)) := by
    rw [h.timestamp, u32, u32, u32, Nat.mod_add_mod, Nat.add_assoc, Nat.add_comm n base]
  have htype : (if m'.typeID = tagScriptDataAmf3 then tagScriptDataAmf0 else m'.typeID) =
      if m.typeID = tagScriptDataAmf3 then tagScriptDataAmf0 else m.typeID := by
    by_cases hm : m.IsScript
    · rcases hm with hm | hm <;> rcases h.isScript.mpr (by simp [IsScript, hm]) with hm' | hm' <;>
        simp [hm, hm', tagScriptDataAmf0, tagScriptDataAmf3]
    · rw [h.typeID hm]
  have hdata : (if m'.IsScript then Amf.withoutSetDataFrame m'.data else m'.data) =
      if m.IsScript then Amf.withoutSetDataFrame m.data else m.data := by
    by_cases hm : m.IsScript
    · rw [if_pos hm, if_pos (h.isScript.mpr hm), h.script hm]
    · rw [if_neg hm, if_neg (h.isScript.not.mpr hm), h.data hm]
  exact congrArg₂ Prod.mk htype (congrArg₂ Prod.mk htime hdata)

theorem exists_along {links : List ServerLink} (hready : ∀ link ∈ links, link.Ready) (hms : ∀ m ∈ ms, Relayable m) :
    ∃ ms', (∀ m ∈ ms', Relayable m) ∧ List.Forall₂ (Echoes (lateness links)) ms ms' ∧
      Along links (ms.map fun m => VirReader.read m {}) (ms'.map fun m => VirReader.read m {}) := by
  induction links generalizing ms with
  | nil => exact ⟨ms, hms, List.forall₂_same.mpr fun m hm => .refl (hms m hm).writable.sendable.timestamp_lt, .nil _⟩
  | cons link links ih =>
      obtain ⟨hlink, hlinks⟩ := List.forall_mem_cons.mp hready
      obtain ⟨ms', hms', hechoes, hpasses⟩ := exists_passes hlink hms
      obtain ⟨ms'', hms'', hechoes', halong⟩ := ih hlinks hms'
      exact ⟨ms'', hms'', Echoes.forall₂_trans hechoes hechoes', .cons hpasses halong⟩

def sampleConn : Conn := Conn.newConn { unread := [] }

def sampleClient : ConnClient := ConnClient.newConnClient (lit "live") (lit "rtmp://localhost/live") (lit "movie") sampleConn

/-- A static push, and then a relay whose player has a base of 40 ms. -/
def sampleLinks : List ServerLink :=
  [⟨.staticPush, sampleClient, sampleConn⟩, ⟨.rtmpRelay 40 sampleConn sampleClient, sampleClient, sampleConn⟩]

theorem ready_sampleLinks : ∀ link ∈ sampleLinks, link.Ready := by
  have hconn : Conn.CaughtUp sampleClient.conn sampleConn := Conn.caughtUp_newConn .eof .eof
  have hconn' : Conn.CaughtUp sampleConn sampleClient.conn := Conn.caughtUp_newConn .eof .eof
  refine List.forall_mem_cons.mpr ⟨⟨hconn, (by decide : 0 < 2 ^ 32), ?_⟩,
    List.forall_mem_singleton.mpr ⟨hconn, (by decide : 0 < 2 ^ 32), ?_⟩⟩
  · rintro base down play hsource
    cases hsource
  · rintro base down play hsource
    cases hsource
    exact hconn'

/-- Metadata behind `@setDataFrame`, and audio. -/
def sampleMessages : List ChunkStream :=
  [VirWriter.shortMessage 4 18 (Amf.setFrameFrame ++ VirWriter.amf0Metadata), VirWriter.shortMessage 4 8 VirWriter.audioData]

theorem relayable_sampleMessages : ∀ m ∈ sampleMessages, Relayable m := by
  intro m hm
  simp only [sampleMessages, List.mem_cons, List.not_mem_nil, or_false] at hm
  rcases hm with rfl | rfl
  · refine ⟨⟨by constructor <;> decide, fun h => absurd h (by decide), fun h => absurd h (by decide)⟩,
      Or.inr (Or.inr (Or.inl rfl)), (Tag.parseMediaTagHeader_ok_iff _ _).mp ⟨_, _, rfl⟩, fun _ => ⟨_, _, rfl⟩,
      fun _ => rfl, fun _ => by decide⟩
  · exact ⟨⟨by constructor <;> decide, fun h => absurd h (by decide), fun h => absurd h (by decide)⟩,
      Or.inl rfl, (Tag.parseMediaTagHeader_ok_iff _ _).mp ⟨_, _, rfl⟩, fun h => absurd h (by decide),
      fun h => absurd h (by decide), fun h => absurd h (by decide)⟩

end ServerLink

end Livego
