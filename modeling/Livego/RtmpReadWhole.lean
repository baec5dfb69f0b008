import Livego.RtmpResponses
import Livego.Strings

/-! Commands and responses read whole: the values that one side writes, and where they are read the plain `EOF` after
them. -/

namespace Livego

open Fallible
open Amf (Value Portable)
open ServerConn (RangeOrder connectRespArgs createStreamRespArgs onStatusArgs publishRespArgs)

namespace ConnClient

/-- What `Start` takes from its URL: the application, the title and the URL to connect to. -/
def names (url : Bytes) : Option (Bytes × Bytes × Bytes) :=
  (Url.parse url).bind fun u =>
    match Strings.splitN [ConnServer.slash] 2 (ConnServer.trimLeft u.path) with
    | [app, title] =>
      let scheme := if lit "rtmps://" <+: url then "rtmps://" else "rtmp://"
      some (app, if u.rawQuery ≠ [] then title ++ lit "?" ++ u.rawQuery else title,
        lit scheme ++ u.host ++ lit "/" ++ app)
    | _ => none

/-- What the two sides pass to `writeMsg`. -/
inductive Said : List Value → Prop
  | connect {order : RangeOrder} (horder : ∀ obj, (order obj).Perm obj) (transID : Int) (app tcurl : Bytes) :
      Said (connectArgs order transID app tcurl)
  | createStream (transID : Int) : Said (createStreamArgs transID)
  | publish (transID : Int) (title : Bytes) : Said (publishArgs transID title)
  | play (title : Bytes) : Said (playArgs title)
  | connectResp {order : RangeOrder} (horder : ∀ obj, (order obj).Perm obj) (objectEncoding transactionID : Int) :
      Said (connectRespArgs order objectEncoding transactionID)
  | createStreamResp (transactionID streamID : Int) : Said (createStreamRespArgs transactionID streamID)
  | onStatus {order : RangeOrder} (horder : ∀ obj, (order obj).Perm obj) (code description : String) :
      Said (onStatusArgs order code description)

/-- The message says how long it is, and whoever decodes it has the values, with the plain `EOF` after the last. -/
def ReadWhole (args : List Value) : Prop :=
  ∃ n msg, Amf.encodeBatch args [] = .ok n msg ∧ u32 msg.length = msg.length ∧
    ∀ d, ∃ s, Amf.decodeBatch 0 ⟨d, ⟨.bytesReader, msg⟩⟩ = .ok (args.map Value.arrived, .eof) s

variable {args : List Value}

theorem portable_playArgs {title : Bytes} (hlt : (Amf.batchBytes (playArgs title)).length < 2 ^ 32) :
    ∀ v ∈ playArgs title, Portable v := by
  have htitle : title.length < 2 ^ 32 := Amf.length_lt_of_mem (by simp [playArgs]) hlt
  exact List.forall_mem_cons.mpr ⟨.string (by decide), List.forall_mem_cons.mpr ⟨.int 0,
    List.forall_mem_cons.mpr ⟨.null, List.forall_mem_singleton.mpr (.string htitle)⟩⟩⟩

theorem encodable_order {order : RangeOrder} (horder : ∀ obj, (order obj).Perm obj) {obj : Amf.Object}
    (h : ∀ e ∈ obj, Amf.Encodable e.2) : Amf.Encodable (.object (order obj)) :=
  .object fun e he => h e ((horder obj).mem_iff.mp he)

theorem encodable_event (code description : String) : ∀ e ∈ ServerConn.event code description, Amf.Encodable e.2 :=
  List.forall_mem_cons.mpr ⟨.string _, List.forall_mem_cons.mpr ⟨.string _, List.forall_mem_singleton.mpr (.string _)⟩⟩

/-- Whatever its length, all of it is encoded. -/
theorem Said.encodable (h : Said args) : ∀ v ∈ args, Amf.Encodable v := by
  cases h with
  | createStream transID => exact fun v hv => (portable_createStreamArgs transID v hv).encodable
  | createStreamResp transactionID streamID =>
      exact fun v hv => (portable_createStreamRespArgs transactionID streamID v hv).encodable
  | connectResp horder objectEncoding transactionID =>
      exact fun v hv => (portable_connectRespArgs horder objectEncoding transactionID v hv).encodable
  | publish transID title =>
      exact List.forall_mem_cons.mpr ⟨.string _, List.forall_mem_cons.mpr ⟨.int _, List.forall_mem_cons.mpr ⟨.null,
        List.forall_mem_cons.mpr ⟨.string _, List.forall_mem_singleton.mpr (.string _)⟩⟩⟩⟩
  | play title =>
      exact List.forall_mem_cons.mpr ⟨.string _, List.forall_mem_cons.mpr ⟨.int _, List.forall_mem_cons.mpr ⟨.null,
        List.forall_mem_singleton.mpr (.string _)⟩⟩⟩
  | connect horder transID app tcurl =>
      have hevent : ∀ e ∈ connectEvent app tcurl, Amf.Encodable e.2 :=
        List.forall_mem_cons.mpr ⟨.string _, List.forall_mem_cons.mpr ⟨.string _, List.forall_mem_cons.mpr ⟨.string _,
          List.forall_mem_singleton.mpr (.string _)⟩⟩⟩
      exact List.forall_mem_cons.mpr ⟨.string _, List.forall_mem_cons.mpr ⟨.int _,
        List.forall_mem_singleton.mpr (encodable_order horder hevent)⟩⟩
  | onStatus horder code description =>
      exact List.forall_mem_cons.mpr ⟨.string _, List.forall_mem_cons.mpr ⟨.int _, List.forall_mem_cons.mpr ⟨.null,
        List.forall_mem_singleton.mpr (encodable_order horder (encodable_event code description))⟩⟩⟩

theorem Said.portable (h : Said args) (hlt : (Amf.batchBytes args).length < 2 ^ 32) : ∀ v ∈ args, Portable v := by
  cases h with
  | connect horder transID app tcurl => exact portable_connectArgs horder hlt
  | createStream transID => exact portable_createStreamArgs transID
  | publish transID title => exact portable_publishArgs hlt
  | play title => exact portable_playArgs hlt
  | connectResp horder objectEncoding transactionID => exact portable_connectRespArgs horder objectEncoding transactionID
  | createStreamResp transactionID streamID => exact portable_createStreamRespArgs transactionID streamID
  | @onStatus order horder code description =>
      have hmem : .object (order (ServerConn.event code description)) ∈ onStatusArgs order code description := by
        simp [onStatusArgs]
      have hstring : ∀ key str, (key, .string str) ∈ ServerConn.event code description → str.length < 2 ^ 32 := by
        intro key str he
        exact (Amf.length_le_of_mem_object ((horder _).mem_iff.mpr he) hmem).trans_lt hlt
      exact portable_onStatusArgs horder (hstring (lit "code") _ (by simp [ServerConn.event]))
        (hstring (lit "description") _ (by simp [ServerConn.event]))

/-- Only the title of a command to play stands at the end of its message. -/
theorem Said.ends (h : Said args) (hplay : args ≠ playArgs []) : Amf.Ends .bytesReader (args.map Value.arrived) := by
  cases h with
  | publish transID title => exact ends_publishArgs transID title
  | play title =>
      have htitle : ¬(Value.arrived (.string title)).EndsEmpty := by
        rw [Amf.arrived_string]
        exact fun hempty => hplay (congrArg playArgs hempty)
      exact Amf.ends_of_getLast rfl htitle
  | connect horder transID app tcurl => exact Amf.ends_of_getLast rfl (by simp [Value.EndsEmpty])
  | createStream transID => exact Amf.ends_of_getLast rfl (by simp [Value.EndsEmpty])
  | connectResp horder objectEncoding transactionID => exact Amf.ends_of_getLast rfl (by simp [Value.EndsEmpty])
  | createStreamResp transactionID streamID => exact Amf.ends_of_getLast rfl (by simp [Value.EndsEmpty])
  | onStatus horder code description => exact Amf.ends_of_getLast rfl (by simp [Value.EndsEmpty])

/-- What is made of the command to play a stream without a title, by any decoder. -/
theorem decodeBatch_playArgs_nil (d : Amf.Decoder) :
    Amf.decodeBatch 0 ⟨d, ⟨.bytesReader, Amf.batchBytes (playArgs [])⟩⟩ =
      .ok ([.string (lit "play"), .number (Float64.ofInt 0), .null],
        .errorf "decode amf0: unable to decode string value: EOF") ⟨d, ⟨.bytesReader, []⟩⟩ := by
  have hplain : ∀ v ∈ [Value.string (lit "play"), .number (Float64.ofInt 0), .null], Amf.Plain v :=
    List.forall_mem_cons.mpr ⟨.string (by decide), List.forall_mem_cons.mpr ⟨.number _,
      List.forall_mem_singleton.mpr .null⟩⟩
  have hbytes : Amf.batchBytes (playArgs []) =
      Amf.batchBytes ([.string (lit "play"), .number (Float64.ofInt 0), .null] ++ [.string []]) := by
    simp [playArgs, Amf.batchBytes, Amf.amf0Bytes]
  rw [hbytes]
  exact Amf.decodeBatch_emptyString hplain d

/-- What is written is read whole, but for the command to play a stream without a title. -/
theorem readWhole_iff (h : Said args) :
    ReadWhole args ↔ args ≠ playArgs [] ∧ (Amf.batchBytes args).length < 2 ^ 32 := by
  have hencode := Amf.encodeBatch_eq h.encodable []
  rw [List.nil_append] at hencode
  constructor
  · rintro ⟨n, msg, hmsg, hlength, hdecode⟩
    rw [hencode] at hmsg
    cases hmsg
    refine ⟨?_, hlength ▸ Nat.mod_lt _ (by decide)⟩
    rintro rfl
    obtain ⟨s, hs⟩ := hdecode {}
    rw [decodeBatch_playArgs_nil] at hs
    cases hs
  · rintro ⟨hplay, hlt⟩
    exact ⟨0, _, hencode, u32_of_lt hlt, fun d => ⟨_, Amf.decodeBatch_arrived (h.portable hlt) (h.ends hplay) d⟩⟩

/-- To publish a stream without a title is read whole. -/
theorem readWhole_publish : ReadWhole (publishArgs 3 []) :=
  (readWhole_iff (.publish 3 [])).mpr ⟨by simp [publishArgs, playArgs], by decide⟩

/-- `Start` accepts a URL without a title, and the decoding of its command to play ends with an error. -/
theorem play_without_title : names (lit "rtmp://host/app/") = some (lit "app", [], lit "rtmp://host/app") ∧
    Said (playArgs []) ∧ ¬ReadWhole (playArgs []) ∧
    ∀ d, ∃ s, Amf.decodeBatch 0 ⟨d, ⟨.bytesReader, Amf.batchBytes (playArgs [])⟩⟩ =
      .ok ([.string (lit "play"), .number (Float64.ofInt 0), .null],
        .errorf "decode amf0: unable to decode string value: EOF") s := by
  refine ⟨by decide, .play [], ?_, fun d => ⟨_, decodeBatch_playArgs_nil d⟩⟩
  rintro ⟨n, msg, hmsg, -, hdecode⟩
  rw [Amf.encodeBatch_eq (Said.play []).encodable [], List.nil_append] at hmsg
  cases hmsg
  obtain ⟨s, hs⟩ := hdecode {}
  rw [decodeBatch_playArgs_nil] at hs
  cases hs

end ConnClient

end Livego
