import Livego.AmfMetadata

/-! What `MetaDataReform` adds and takes off. The decision is made on the first value, which may be `@setDataFrame` in any
encoding; the cut is as long as the one encoding that `init` writes. -/

namespace Livego

open Fallible Call

namespace Amf

/-- Taking off leaves the payload, or what follows its first value where that is `@setDataFrame`. -/
def StripsFirst (p : Bytes) : Prop :=
  ∀ v t r, decode 0 ⟨{}, ⟨.bytesReader, p⟩⟩ = .ok v t → metaDataReform p del () = .ok r () →
    (v ≠ .string setDataFrame → r = p) ∧ (v = .string setDataFrame → r = t.unread)

/-- What is put on is taken off again, and not put on twice. -/
def AddsOnce (p : Bytes) : Prop :=
  ∀ v t q, decode 0 ⟨{}, ⟨.bytesReader, p⟩⟩ = .ok v t → v ≠ .string setDataFrame → metaDataReform p add () = .ok q () →
    metaDataReform q del () = .ok p () ∧ metaDataReform q add () = .ok q ()

/-- The payload begins with the value `@setDataFrame`, whatever the encoding. -/
def BeginsWithFrame (p : Bytes) : Prop := ∃ t, decode 0 ⟨{}, ⟨.bytesReader, p⟩⟩ = .ok (.string setDataFrame) t

/-- The payload begins with an encoding of `@setDataFrame` that is as long as the one `init` writes. -/
def BeginsWithForm (p : Bytes) : Prop := ∃ form ∈ setDataFrameForms, form <+: p

theorem decode_setFrameFrame (p : Bytes) :
    decode 0 ⟨{}, ⟨.bytesReader, setFrameFrame ++ p⟩⟩ = .ok (.string setDataFrame) ⟨{}, ⟨.bytesReader, p⟩⟩ := by
  rw [setFrameFrame_eq]
  rfl

variable {σ : Type}

theorem metaDataReform_del_frame {p : Bytes} {t : Decoding} (s : σ)
    (h : decode 0 ⟨{}, ⟨.bytesReader, p⟩⟩ = .ok (.string setDataFrame) t) :
    metaDataReform p del s = .ok (p.drop 16) s := by
  rw [metaDataReform_del_of_beginsWithString ⟨_, t, h⟩, withoutSetDataFrame, h]
  exact congrArg (fun n => Outcome.ok (p.drop n) s) length_setFrameFrame

theorem metaDataReform_add_frame {p : Bytes} {t : Decoding} (s : σ)
    (h : decode 0 ⟨{}, ⟨.bytesReader, p⟩⟩ = .ok (.string setDataFrame) t) : metaDataReform p add s = .ok p s := by
  unfold metaDataReform
  rw [if_pos rfl, h]
  exact congrArg (fun q => Outcome.ok q s) (if_neg fun hne => hne rfl)

/-- Where something is put on, it is the string that `init` wrote. -/
theorem metaDataReform_add_eq_ok {p q : Bytes} {v : Value} {s s' : σ} {t : Decoding}
    (hdecode : decode 0 ⟨{}, ⟨.bytesReader, p⟩⟩ = .ok v t) (hne : v ≠ .string setDataFrame)
    (h : metaDataReform p add s = .ok q s') : q = setFrameFrame ++ p := by
  unfold metaDataReform at h
  rw [if_pos rfl, hdecode] at h
  cases v with
  | string vv =>
      have hvv : vv ≠ setDataFrame := fun heq => hne (congrArg Value.string heq)
      obtain ⟨rfl, -⟩ := Outcome.ok.inj h
      exact if_pos hvv
  | _ => cases h

theorem addsOnce (p : Bytes) : AddsOnce p := by
  intro v t q hdecode hne hadd
  obtain rfl := metaDataReform_add_eq_ok hdecode hne hadd
  have hframe := decode_setFrameFrame p
  refine ⟨?_, metaDataReform_add_frame () hframe⟩
  rw [metaDataReform_del_frame () hframe, List.drop_left' length_setFrameFrame]

/-- What is taken off is the first value exactly where that stands in one of the short forms. -/
theorem drop_eq_unread_iff {p : Bytes} {t : Decoding}
    (h : decode 0 ⟨{}, ⟨.bytesReader, p⟩⟩ = .ok (.string setDataFrame) t) : p.drop 16 = t.unread ↔ BeginsWithForm p := by
  rcases decode_setDataFrame h with ⟨form, hform, rfl⟩ | ⟨hle, hnot⟩
  · exact iff_of_true (List.drop_left' (length_of_mem_setDataFrameForms hform)) ⟨form, hform, t.unread, rfl⟩
  · refine iff_of_false (fun heq => ?_) hnot
    have hlength := congrArg List.length heq
    rw [List.length_drop] at hlength
    change p.length - 16 = t.left at hlength
    omega

/-- Reform strips and adds one value exactly where a payload that begins with `@setDataFrame` begins with a short form. -/
theorem reform_exact_iff (p : Bytes) : (StripsFirst p ∧ AddsOnce p) ↔ (BeginsWithFrame p → BeginsWithForm p) := by
  constructor
  · rintro ⟨hstrips, -⟩ ⟨t, hdecode⟩
    have hcut := (hstrips _ t _ hdecode (metaDataReform_del_frame () hdecode)).2 rfl
    exact (drop_eq_unread_iff hdecode).mp hcut
  · refine fun hform => ⟨fun v t r hdecode hdel => ⟨fun hne => ?_, fun heq => ?_⟩, addsOnce p⟩
    · obtain ⟨vv, u, hstring⟩ := metaDataReform_del_eq_ok hdel
      rw [metaDataReform_del_of_beginsWithString ⟨vv, u, hstring⟩, withoutSetDataFrame, hstring] at hdel
      obtain ⟨rfl, -⟩ := Outcome.ok.inj (hstring.symm.trans hdecode)
      obtain ⟨rfl, -⟩ := Outcome.ok.inj hdel
      exact if_neg fun hvv => hne (congrArg Value.string hvv)
    · subst heq
      obtain ⟨rfl, -⟩ := Outcome.ok.inj ((metaDataReform_del_frame () hdecode).symm.trans hdel)
      exact (drop_eq_unread_iff hdecode).mpr (hform ⟨t, hdecode⟩)

/-- The string as a long string, before another string. -/
def longStringPayload : Bytes := amf0LongStringMarker :: [0x00, 0x00, 0x00, 0x0d] ++ setDataFrame ++ [0x02, 0x00, 0x01, 0x61]

/-- Two of its bytes stay. -/
theorem reform_cuts_longString :
    decode 0 ⟨{}, ⟨.bytesReader, longStringPayload⟩⟩ =
        .ok (.string setDataFrame) ⟨{}, ⟨.bytesReader, [0x02, 0x00, 0x01, 0x61]⟩⟩ ∧
      metaDataReform longStringPayload del () = .ok [0x6d, 0x65, 0x02, 0x00, 0x01, 0x61] () ∧
      ¬(StripsFirst longStringPayload ∧ AddsOnce longStringPayload) := by
  have hdecode : decode 0 ⟨{}, ⟨.bytesReader, longStringPayload⟩⟩ =
      .ok (.string setDataFrame) ⟨{}, ⟨.bytesReader, [0x02, 0x00, 0x01, 0x61]⟩⟩ := rfl
  have hdel : metaDataReform longStringPayload del () = .ok [0x6d, 0x65, 0x02, 0x00, 0x01, 0x61] () := rfl
  refine ⟨hdecode, hdel, fun h => ?_⟩
  cases (h.1 _ _ _ hdecode hdel).2 rfl

end Amf

end Livego
