import Livego.Machine
import Mathlib.Data.List.Basic

/-! The end of an HTTP-FLV viewer: the writer with its flag and its two channels, and the goroutines that mark it closed,
close the channels and take it out of the stream. What is in the packet queue is left out. -/

namespace Livego

open Machine

namespace HttpFlv

/-- Whether the writer is in the table of its stream. -/
inductive Place where
  | outside
  | member
  | removed
  deriving DecidableEq

/-- What `handleConn` is at: the two writes of `NewFLVWriter`, `HandleWriter` and `Wait`. -/
inductive Handler where
  | header
  | size
  | handing
  | waiting
  | ended
  deriving DecidableEq

/-- What the goroutine of `SendPacket` is at: it receives from the queue, writes a packet to the response, or has
returned and is to mark the writer. -/
inductive Sender where
  | absent
  | receiving
  | writing
  | returned
  | ended
  deriving DecidableEq

/-- What `TransStart` is at: it calls `Write`, which has found the flag unset, or it has an error and is to delete the
writer. -/
inductive Trans where
  | idle
  | sending
  | refused
  deriving DecidableEq

/-- Where a call of `Close` is: at the question for the flag, at one of the two closes, at the assignment after them or
without them; and `closeInter` deletes the writer after its call. -/
inductive ClosePc where
  | check
  | queue
  | chan
  | mark
  | skip
  | delete
  | ended
  deriving DecidableEq

structure CloseCall where
  pc : ClosePc := .check
  inter : Bool
  deriving DecidableEq

/-- The writer, with how often its channels have been closed, and those who use it. -/
structure FLVWriter where
  closed : Bool := false
  queueCloses : Nat := 0
  chanCloses : Nat := 0
  place : Place := .outside
  handler : Handler := .header
  sender : Sender := .absent
  trans : Trans := .idle
  calls : List CloseCall := []
  deriving DecidableEq

namespace FLVWriter

inductive Event where
  /-- A write of `NewFLVWriter`, which may fail. -/
  | header (ok : Bool)
  /-- A stream that is not found is made, without the writer. -/
  | handleWriter (found : Bool)
  /-- `Wait` returns. -/
  | wait
  /-- `SendPacket` receives a packet. -/
  | receive
  /-- It has written the packet, or returns the error of a write or of the metadata. -/
  | written (ok : Bool)
  /-- It finds the queue closed. -/
  | drained
  /-- The goroutine marks the writer closed after `SendPacket`. -/
  | sendError
  /-- `TransStart` calls `Write`. -/
  | write
  /-- The call returns, with an error if the send panicked. -/
  | sent (ok : Bool)
  /-- `TransStart` deletes the writer. -/
  | remove
  /-- `CheckAlive` deletes the writer and calls `Close`. -/
  | timeout
  /-- `closeInter` calls `Close`. -/
  | closeInter
  /-- A call of `Close` takes its next step. -/
  | close (i : Nat)
  deriving DecidableEq

def setPc (i : Nat) (pc : ClosePc) (w : FLVWriter) : FLVWriter :=
  { w with calls := w.calls.modify i fun call => { call with pc } }

/-- A step of a call. The close of a closed channel panics. -/
def closeStep (i : Nat) (call : CloseCall) (w : FLVWriter) : Option FLVWriter :=
  let returned : ClosePc := if call.inter then .delete else .ended
  match call.pc with
  | .check => some (w.setPc i (if w.closed then .skip else .queue))
  | .queue => some { w.setPc i (if w.queueCloses = 0 then .chan else .ended) with queueCloses := w.queueCloses + 1 }
  | .chan => some { w.setPc i (if w.chanCloses = 0 then .mark else .ended) with chanCloses := w.chanCloses + 1 }
  | .mark => some { w.setPc i returned with closed := true }
  | .skip => some { w.setPc i returned with closed := true }
  | .delete => some { w.setPc i .ended with place := .removed }
  | .ended => none

def step (w : FLVWriter) : Event → Option FLVWriter
  | .header ok =>
    match w.handler with
    | .header => some { w with closed := w.closed || !ok, handler := .size }
    | .size => some { w with closed := w.closed || !ok, handler := .handing, sender := .receiving }
    | _ => none
  | .handleWriter found =>
    if w.handler = .handing then
      some { w with place := if found then .member else .outside, handler := .waiting }
    else none
  | .wait => if w.handler = .waiting ∧ 0 < w.chanCloses then some { w with handler := .ended } else none
  | .receive => if w.sender = .receiving then some { w with sender := .writing } else none
  | .written ok => if w.sender = .writing then some { w with sender := if ok then .receiving else .returned } else none
  | .drained => if w.sender = .receiving ∧ 0 < w.queueCloses then some { w with sender := .returned } else none
  | .sendError => if w.sender = .returned then some { w with closed := true, sender := .ended } else none
  | .write =>
    if w.place ≠ .outside ∧ w.trans = .idle then some { w with trans := if w.closed then .refused else .sending }
    else none
  | .sent ok =>
    if w.trans = .sending ∧ (ok ∨ 0 < w.queueCloses) then some { w with trans := if ok then .idle else .refused }
    else none
  | .remove => if w.trans = .refused then some { w with place := .removed, trans := .idle } else none
  | .timeout =>
    if w.place = .outside then none else some { w with place := .removed, calls := w.calls ++ [{ inter := false }] }
  | .closeInter => if w.place = .outside then none else some { w with calls := w.calls ++ [{ inter := true }] }
  | .close i => w.calls[i]?.bind fun call => closeStep i call w

/-- The call has found the flag unset and has not yet set it. -/
def Inside (call : CloseCall) : Prop := call.pc = .queue ∨ call.pc = .chan ∨ call.pc = .mark

instance (call : CloseCall) : Decidable (Inside call) := inferInstanceAs (Decidable (_ ∨ _))

/-- Once the writer is marked and deleted its handler can end, and no channel has been closed twice. -/
structure Released (w : FLVWriter) : Prop where
  signalled : w.closed = true → w.place = .removed → w.chanCloses = 1
  ends : w.closed = true → w.place = .removed → w.handler = .ended ∨ ∃ v, step w .wait = some v ∧ v.handler = .ended
  queueOnce : w.queueCloses ≤ 1
  chanOnce : w.chanCloses ≤ 1

/-- The flag is set only where `closedChan` has been closed, and no call of `Close` finds it unset while another is at
its closes. -/
def Orderly (w : FLVWriter) : Event → Prop
  | .header ok => ok = true
  | .sendError => 0 < w.chanCloses
  | .close i => w.calls[i]?.map CloseCall.pc = some .check → w.closed = false → ∀ other ∈ w.calls, ¬Inside other
  | _ => True

instance (w : FLVWriter) : ∀ e, Decidable (Orderly w e)
  | .header ok => inferInstanceAs (Decidable (ok = true))
  | .sendError => inferInstanceAs (Decidable (0 < w.chanCloses))
  | .close i => inferInstanceAs (Decidable (w.calls[i]?.map CloseCall.pc = some .check → _ → _))
  | .handleWriter _ | .wait | .receive | .written _ | .drained | .write | .sent _ | .remove | .timeout | .closeInter =>
    isTrue trivial

/-- What the place of a call says of the flag and the channels. -/
structure Fits (closed : Bool) (queueCloses chanCloses : Nat) (pc : ClosePc) : Prop where
  queue : pc = .queue → queueCloses = 0
  chan : pc = .chan → queueCloses = 1 ∧ chanCloses = 0
  mark : pc = .mark → chanCloses = 1
  past : pc = .skip ∨ pc = .delete → closed = true

structure Inv (w : FLVWriter) : Prop where
  queueOnce : w.queueCloses ≤ 1
  chanAfter : w.chanCloses ≤ w.queueCloses
  alone : ∀ (i j : Nat) a b, w.calls[i]? = some a → w.calls[j]? = some b → Inside a → Inside b → i = j
  fits : ∀ (i : Nat) a, w.calls[i]? = some a → Fits w.closed w.queueCloses w.chanCloses a.pc
  marked : w.closed = true → w.chanCloses = 1
  unmarked : w.closed = false → (∀ a ∈ w.calls, ¬Inside a) → w.queueCloses = 0
  waiting : w.place ≠ .outside ∨ w.calls ≠ [] ∨ w.trans ≠ .idle → w.handler = .waiting ∨ w.handler = .ended

variable {w v : FLVWriter} {i : Nat} {call : CloseCall} {pc : ClosePc}

theorem inv_default : Inv {} where
  queueOnce := Nat.zero_le 1
  chanAfter := Nat.le_refl 0
  alone i j a b ha := by simp at ha
  fits i a ha := by simp at ha
  marked h := nomatch h
  unmarked _ _ := rfl
  waiting h := absurd h (by decide)

theorem Inv.released (h : Inv w) : Released w := by
  refine ⟨fun hclosed _ => h.marked hclosed, fun hclosed hplace => ?_, h.queueOnce, Nat.le_trans h.chanAfter h.queueOnce⟩
  rcases h.waiting (Or.inl (by rw [hplace]; decide)) with hwaiting | hended
  · right
    refine ⟨{ w with handler := .ended }, if_pos ⟨hwaiting, ?_⟩, rfl⟩
    rw [h.marked hclosed]
    exact Nat.one_pos
  · exact Or.inl hended

/-! ### A step of a call -/

theorem getElem?_setPc (w : FLVWriter) (i j : Nat) (pc : ClosePc) :
    (w.setPc i pc).calls[j]? = if i = j then w.calls[j]?.map fun call => { call with pc } else w.calls[j]? := by
  rw [setPc, List.getElem?_modify]
  split_ifs <;> simp

/-- The calls after a step of one of them. -/
theorem setPc_cases {j : Nat} {b : CloseCall} (hb : (w.setPc i pc).calls[j]? = some b) :
    j = i ∧ b.pc = pc ∨ j ≠ i ∧ w.calls[j]? = some b := by
  rw [getElem?_setPc] at hb
  split_ifs at hb with hij
  · obtain ⟨a, -, rfl⟩ := Option.map_eq_some_iff.mp hb
    exact Or.inl ⟨hij.symm, rfl⟩
  · exact Or.inr ⟨Ne.symm hij, hb⟩

/-- The calls after another has begun. -/
theorem getElem?_begun {calls : List CloseCall} {new b : CloseCall} {j : Nat} (hb : (calls ++ [new])[j]? = some b) :
    b = new ∨ calls[j]? = some b := by
  rcases Nat.lt_or_ge j calls.length with hj | hj
  · rw [List.getElem?_append_left hj] at hb
    exact Or.inr hb
  · rw [List.getElem?_append_right hj] at hb
    exact Or.inl (List.mem_singleton.mp (List.mem_of_getElem? hb))

/-- Where a call of `Close` goes when it returns. -/
theorem returned_cases (call : CloseCall) :
    (if call.inter then ClosePc.delete else .ended) = .skip ∨
      (if call.inter then ClosePc.delete else .ended) = .delete ∨
        (if call.inter then ClosePc.delete else .ended) = .ended := by
  cases call.inter
  · exact Or.inr (Or.inr rfl)
  · exact Or.inr (Or.inl rfl)

theorem Inv.waiting_of_call (h : Inv w) (hcall : w.calls[i]? = some call) : w.handler = .waiting ∨ w.handler = .ended :=
  h.waiting (Or.inr (Or.inl fun hnil => by rw [hnil] at hcall; cases hcall))

theorem Inv.outside_of_alone (h : Inv w) (hcall : w.calls[i]? = some call) (hinside : Inside call) :
    ∀ j b, j ≠ i → w.calls[j]? = some b → ¬Inside b :=
  fun j b hne hb hb' => hne (h.alone j i b call hb hcall hb' hinside)

/-- A call goes on among its closes, into them or out of them, while the others are elsewhere. -/
theorem Inv.advance (h : Inv w) (pc : ClosePc) (hcall : w.calls[i]? = some call)
    (hothers : ∀ j b, j ≠ i → w.calls[j]? = some b → ¬Inside b) (hcalls : v.calls = (w.setPc i pc).calls)
    (hhandler : v.handler = w.handler) (hqueue : v.queueCloses ≤ 1) (hchan : v.chanCloses ≤ v.queueCloses)
    (hfits : Fits v.closed v.queueCloses v.chanCloses pc) (hclosed : w.closed = true → v.closed = true)
    (hmarked : v.closed = true → v.chanCloses = 1)
    (hunmarked : v.closed = false → pc = .queue ∨ pc = .chan ∨ pc = .mark) : Inv v := by
  have hinside : ∀ (j : Nat) b, v.calls[j]? = some b → Inside b → j = i := by
    intro j b hb hb'
    rw [hcalls] at hb
    rcases setPc_cases hb with ⟨rfl, -⟩ | ⟨hne, hb⟩
    · rfl
    · exact absurd hb' (hothers j b hne hb)
  refine ⟨hqueue, hchan, fun j k a b ha hb ha' hb' => ?_, fun j b hb => ?_, hmarked, fun hopen hnone => ?_, fun _ => ?_⟩
  · rw [hinside j a ha ha', hinside k b hb hb']
  · rw [hcalls] at hb
    rcases setPc_cases hb with ⟨rfl, hpc⟩ | ⟨hne, hb⟩
    · exact hpc ▸ hfits
    · have hout := hothers j b hne hb
      refine ⟨fun hpc => absurd (Or.inl hpc) hout, fun hpc => absurd (Or.inr (Or.inl hpc)) hout,
        fun hpc => absurd (Or.inr (Or.inr hpc)) hout, fun hpc => hclosed ((h.fits j b hb).past hpc)⟩
  · have hi : v.calls[i]? = some { call with pc } := by rw [hcalls, getElem?_setPc, if_pos rfl, hcall]; rfl
    exact absurd (hunmarked hopen) (hnone _ (List.mem_of_getElem? hi))
  · rw [hhandler]
    exact h.waiting_of_call hcall

/-- A call goes on that is not at its closes, with the flag set. -/
theorem Inv.pass (h : Inv w) (pc : ClosePc) (hcall : w.calls[i]? = some call)
    (hcalls : v.calls = (w.setPc i pc).calls) (hpc : pc = .skip ∨ pc = .delete ∨ pc = .ended)
    (hhandler : v.handler = w.handler) (hqueue : v.queueCloses = w.queueCloses)
    (hchan : v.chanCloses = w.chanCloses) (hclosed : w.closed = true) (hclosed' : v.closed = true) : Inv v := by
  have hout : ¬(pc = .queue ∨ pc = .chan ∨ pc = .mark) := by rcases hpc with rfl | rfl | rfl <;> decide
  refine ⟨hqueue ▸ h.queueOnce, by rw [hchan, hqueue]; exact h.chanAfter, fun j k a b ha hb ha' hb' => ?_,
    fun j b hb => ?_, fun _ => hchan ▸ h.marked hclosed, fun hopen => ?_, fun _ => ?_⟩
  · rw [hcalls] at ha hb
    rcases setPc_cases ha with ⟨-, hpca⟩ | ⟨-, ha⟩
    · exact absurd (hpca ▸ ha') hout
    rcases setPc_cases hb with ⟨-, hpcb⟩ | ⟨-, hb⟩
    · exact absurd (hpcb ▸ hb') hout
    exact h.alone j k a b ha hb ha' hb'
  · rw [hcalls] at hb
    rcases setPc_cases hb with ⟨-, hpcb⟩ | ⟨-, hb⟩
    · rw [hpcb]
      exact ⟨fun heq => absurd (Or.inl heq) hout, fun heq => absurd (Or.inr (Or.inl heq)) hout,
        fun heq => absurd (Or.inr (Or.inr heq)) hout, fun _ => hclosed'⟩
    · obtain ⟨hq, hc, hm, -⟩ := h.fits j b hb
      exact ⟨hqueue ▸ hq, by rw [hqueue, hchan]; exact hc, hchan ▸ hm, fun _ => hclosed'⟩
  · rw [hclosed'] at hopen
    cases hopen
  · rw [hhandler]
    exact h.waiting_of_call hcall

theorem Inv.close (h : Inv w) (hcall : w.calls[i]? = some call) (hsafe : Orderly w (.close i))
    (hstep : closeStep i call w = some v) : Inv v := by
  have hfits := h.fits i call hcall
  cases hpc : call.pc with
  | check =>
      simp only [closeStep, hpc, Option.some.injEq] at hstep
      subst hstep
      cases hclosed : w.closed with
      | true => exact h.pass .skip hcall rfl (Or.inl rfl) rfl rfl rfl hclosed hclosed
      | false =>
          have hnone := hsafe (by rw [hcall, Option.map_some, hpc]) hclosed
          have hqueue := h.unmarked hclosed hnone
          exact h.advance .queue hcall (fun j b _ hb => hnone b (List.mem_of_getElem? hb)) rfl rfl h.queueOnce
            h.chanAfter ⟨fun _ => hqueue, nofun, nofun, fun hpast => absurd hpast (by decide)⟩ id h.marked
            fun _ => Or.inl rfl
  | queue =>
      have hqueue := hfits.queue hpc
      have hchan : w.chanCloses = 0 := Nat.le_zero.mp (hqueue ▸ h.chanAfter)
      simp only [closeStep, hpc, Option.some.injEq, if_pos hqueue] at hstep
      subst hstep
      refine h.advance .chan hcall (h.outside_of_alone hcall (Or.inl hpc)) rfl rfl ?_ ?_
        ⟨nofun, fun _ => ⟨?_, hchan⟩, nofun, fun hpast => absurd hpast (by decide)⟩ id h.marked
        fun _ => Or.inr (Or.inl rfl)
      · show w.queueCloses + 1 ≤ 1
        omega
      · show w.chanCloses ≤ w.queueCloses + 1
        omega
      · show w.queueCloses + 1 = 1
        omega
  | chan =>
      obtain ⟨hqueue, hchan⟩ := hfits.chan hpc
      simp only [closeStep, hpc, Option.some.injEq, if_pos hchan] at hstep
      subst hstep
      have hnext : w.chanCloses + 1 = 1 := by rw [hchan]
      refine h.advance .mark hcall (h.outside_of_alone hcall (Or.inr (Or.inl hpc))) rfl rfl h.queueOnce ?_
        ⟨nofun, nofun, fun _ => hnext, fun hpast => absurd hpast (by decide)⟩ id (fun _ => hnext)
        fun _ => Or.inr (Or.inr rfl)
      show w.chanCloses + 1 ≤ w.queueCloses
      omega
  | mark =>
      have hchan := hfits.mark hpc
      simp only [closeStep, hpc, Option.some.injEq] at hstep
      subst hstep
      have hpc' := returned_cases call
      exact h.advance _ hcall (h.outside_of_alone hcall (Or.inr (Or.inr hpc))) rfl rfl h.queueOnce h.chanAfter
        ⟨by grind, by grind, by grind, fun _ => rfl⟩ (fun _ => rfl) (fun _ => hchan) nofun
  | skip =>
      have hclosed := hfits.past (Or.inl hpc)
      simp only [closeStep, hpc, Option.some.injEq] at hstep
      subst hstep
      exact h.pass _ hcall rfl (returned_cases call) rfl rfl rfl hclosed rfl
  | delete =>
      have hclosed := hfits.past (Or.inr hpc)
      simp only [closeStep, hpc, Option.some.injEq] at hstep
      subst hstep
      exact h.pass _ hcall rfl (Or.inr (Or.inr rfl)) rfl rfl rfl hclosed hclosed
  | ended => simp [closeStep, hpc] at hstep

/-- A call begins. -/
theorem Inv.begin (h : Inv w) (new : CloseCall) (hnew : new.pc = .check) {place : Place} (hplace : w.place ≠ .outside) :
    Inv { w with place, calls := w.calls ++ [new] } := by
  have hout : ¬Inside new := by simp [Inside, hnew]
  refine { h with alone := fun j k a b ha hb ha' hb' => ?_, fits := fun j b hb => ?_,
                  unmarked := fun hopen hnone => ?_, waiting := fun _ => h.waiting (Or.inl hplace) }
  · rcases getElem?_begun ha with rfl | ha
    · exact absurd ha' hout
    rcases getElem?_begun hb with rfl | hb
    · exact absurd hb' hout
    exact h.alone j k a b ha hb ha' hb'
  · rcases getElem?_begun hb with rfl | hb
    · rw [hnew]
      exact ⟨nofun, nofun, nofun, fun hpast => absurd hpast (by decide)⟩
    · exact h.fits j b hb
  · exact h.unmarked hopen fun a ha => hnone a (List.mem_append_left _ ha)

theorem inv_step {e : Event} (h : Inv w) (hsafe : Orderly w e) (hstep : step w e = some v) : Inv v := by
  cases e with
  | header ok =>
      cases hsafe
      simp only [step, Bool.not_true, Bool.or_false] at hstep
      split at hstep
      · next hhandler =>
          cases hstep
          exact { h with waiting := fun hor => absurd (h.waiting hor) (by rw [hhandler]; decide) }
      · next hhandler =>
          cases hstep
          exact { h with waiting := fun hor => absurd (h.waiting hor) (by rw [hhandler]; decide) }
      · cases hstep
  | handleWriter found =>
      simp only [step, Option.ite_none_right_eq_some, Option.some.injEq] at hstep
      obtain ⟨-, rfl⟩ := hstep
      exact { h with waiting := fun _ => Or.inl rfl }
  | wait =>
      simp only [step, Option.ite_none_right_eq_some, Option.some.injEq] at hstep
      obtain ⟨-, rfl⟩ := hstep
      exact { h with waiting := fun _ => Or.inr rfl }
  | receive | written ok | drained =>
      simp only [step, Option.ite_none_right_eq_some, Option.some.injEq] at hstep
      obtain ⟨-, rfl⟩ := hstep
      exact { h with }
  | sendError =>
      simp only [step, Option.ite_none_right_eq_some, Option.some.injEq] at hstep
      obtain ⟨-, rfl⟩ := hstep
      have hchan : w.chanCloses = 1 := Nat.le_antisymm (Nat.le_trans h.chanAfter h.queueOnce) hsafe
      refine { h with fits := fun j b hb => ?_, marked := fun _ => hchan, unmarked := nofun }
      obtain ⟨hq, hc, hm, -⟩ := h.fits j b hb
      exact ⟨hq, hc, hm, fun _ => rfl⟩
  | write =>
      simp only [step, Option.ite_none_right_eq_some, Option.some.injEq] at hstep
      obtain ⟨⟨hplace, -⟩, rfl⟩ := hstep
      exact { h with waiting := fun _ => h.waiting (Or.inl hplace) }
  | sent ok =>
      simp only [step, Option.ite_none_right_eq_some, Option.some.injEq] at hstep
      obtain ⟨⟨htrans, -⟩, rfl⟩ := hstep
      exact { h with waiting := fun _ => h.waiting (Or.inr (Or.inr (by rw [htrans]; decide))) }
  | remove =>
      simp only [step, Option.ite_none_right_eq_some, Option.some.injEq] at hstep
      obtain ⟨htrans, rfl⟩ := hstep
      exact { h with waiting := fun _ => h.waiting (Or.inr (Or.inr (by rw [htrans]; decide))) }
  | timeout =>
      simp only [step, Option.ite_none_left_eq_some, Option.some.injEq] at hstep
      obtain ⟨hplace, rfl⟩ := hstep
      exact h.begin _ rfl hplace
  | closeInter =>
      simp only [step, Option.ite_none_left_eq_some, Option.some.injEq] at hstep
      obtain ⟨hplace, rfl⟩ := hstep
      exact h.begin _ rfl hplace
  | close i =>
      obtain ⟨call, hcall, hclose⟩ := Option.bind_eq_some_iff.mp hstep
      exact h.close hcall hsafe hclose

/-- In a run in which the flag is only ever set where `closedChan` has been closed and no two calls of `Close` overlap at
their closes, the handler is released. -/
theorem released_of_orderly {es : List Event} (hrun : run step es {} = some w) (hsafe : Along step Orderly es {}) :
    Released w :=
  (run_invariant (fun _ _ _ hinv hs hstep => inv_step hinv hs hstep) inv_default hsafe hrun).released

/-- The publisher leaves while the viewer is connected. -/
def publisherLeaves : List Event :=
  [.header true, .header true, .handleWriter true, .write, .sent true, .receive, .written true, .closeInter, .close 0,
    .close 0, .close 0, .drained, .sendError, .close 0, .close 0, .timeout, .close 1, .close 1, .wait]

theorem released_publisherLeaves : ∃ w, run step publisherLeaves {} = some w ∧ w.handler = .ended ∧ Released w := by
  obtain ⟨w, hrun⟩ := Option.isSome_iff_exists.mp (by decide : (run step publisherLeaves {}).isSome = true)
  have hended : (run step publisherLeaves {}).map FLVWriter.handler = some .ended := by decide
  rw [hrun] at hended
  exact ⟨w, hrun, Option.some.inj hended, released_of_orderly hrun (by decide)⟩

/-! ### A writer that is marked too early -/

/-- The flag is set and no call of `Close` is at its closes. -/
structure Stuck (w : FLVWriter) : Prop where
  closed : w.closed = true
  outside : ∀ (i : Nat) a, w.calls[i]? = some a → ¬Inside a

theorem Stuck.setPc (h : Stuck w) (hpc : pc = .skip ∨ pc = .delete ∨ pc = .ended) (hclosed : v.closed = true)
    (hcalls : v.calls = (w.setPc i pc).calls) : Stuck v := by
  refine ⟨hclosed, fun j b hb => ?_⟩
  rw [hcalls] at hb
  rcases setPc_cases hb with ⟨-, hpcb⟩ | ⟨-, hb⟩
  · unfold Inside
    rw [hpcb]
    rcases hpc with rfl | rfl | rfl <;> decide
  · exact h.outside j b hb

theorem Stuck.closeStep (h : Stuck w) (hcall : w.calls[i]? = some call) (hstep : closeStep i call w = some v) :
    Stuck v ∧ v.chanCloses = w.chanCloses := by
  have hout := h.outside i call hcall
  cases hpc : call.pc with
  | check =>
      simp only [FLVWriter.closeStep, hpc, h.closed, if_true, Option.some.injEq] at hstep
      subst hstep
      exact ⟨h.setPc (Or.inl rfl) h.closed rfl, rfl⟩
  | queue => exact absurd (Or.inl hpc) hout
  | chan => exact absurd (Or.inr (Or.inl hpc)) hout
  | mark => exact absurd (Or.inr (Or.inr hpc)) hout
  | skip =>
      simp only [FLVWriter.closeStep, hpc, Option.some.injEq] at hstep
      subst hstep
      exact ⟨h.setPc (returned_cases call) rfl rfl, rfl⟩
  | delete =>
      simp only [FLVWriter.closeStep, hpc, Option.some.injEq] at hstep
      subst hstep
      exact ⟨h.setPc (Or.inr (Or.inr rfl)) h.closed rfl, rfl⟩
  | ended => simp [FLVWriter.closeStep, hpc] at hstep

theorem Stuck.begin (h : Stuck w) (inter : Bool) (place : Place) :
    Stuck { w with place, calls := w.calls ++ [{ inter }] } := by
  refine ⟨h.closed, fun j b hb => ?_⟩
  rcases getElem?_begun hb with rfl | hb
  · simp [Inside]
  · exact h.outside j b hb

theorem Stuck.step {e : Event} (h : Stuck w) (hstep : step w e = some v) : Stuck v ∧ v.chanCloses = w.chanCloses := by
  cases e with
  | header ok =>
      simp only [FLVWriter.step] at hstep
      split at hstep
      · cases hstep
        exact ⟨⟨by simp [h.closed], h.outside⟩, rfl⟩
      · cases hstep
        exact ⟨⟨by simp [h.closed], h.outside⟩, rfl⟩
      · cases hstep
  | handleWriter _ | wait | receive | written _ | drained | write | sent _ | remove =>
      simp only [FLVWriter.step, Option.ite_none_right_eq_some, Option.some.injEq] at hstep
      obtain ⟨-, rfl⟩ := hstep
      exact ⟨⟨h.closed, h.outside⟩, rfl⟩
  | sendError =>
      simp only [FLVWriter.step, Option.ite_none_right_eq_some, Option.some.injEq] at hstep
      obtain ⟨-, rfl⟩ := hstep
      exact ⟨⟨rfl, h.outside⟩, rfl⟩
  | timeout | closeInter =>
      simp only [FLVWriter.step, Option.ite_none_left_eq_some, Option.some.injEq] at hstep
      obtain ⟨-, rfl⟩ := hstep
      exact ⟨h.begin _ _, rfl⟩
  | close i =>
      obtain ⟨call, hcall, hclose⟩ := Option.bind_eq_some_iff.mp hstep
      exact h.closeStep hcall hclose

/-- Nobody closes `closedChan` any more. -/
theorem Stuck.run {es : List Event} (h : Stuck w) (hrun : Machine.run FLVWriter.step es w = some v) :
    v.chanCloses = w.chanCloses := by
  have hkeep : Stuck v ∧ v.chanCloses = w.chanCloses := by
    refine run_keeps (I := fun v => Stuck v ∧ v.chanCloses = w.chanCloses) (fun u e t hu hstep => ?_) ⟨h, rfl⟩ hrun
    obtain ⟨hstuck, hchan⟩ := hu.1.step hstep
    exact ⟨hstuck, hchan.trans hu.2⟩
  exact hkeep.2

/-- A write to the response fails, which marks the writer; the next `Write` is refused, and the writer is deleted. -/
def responseFails : List Event :=
  [.header true, .header true, .handleWriter true, .write, .sent true, .receive, .written false, .sendError, .write,
    .remove]

/-- What is left of it. -/
def abandoned : FLVWriter := { closed := true, place := .removed, handler := .waiting, sender := .ended }

/-- The handler waits for ever. -/
theorem handler_never_released : run step responseFails {} = some abandoned ∧ ¬Released abandoned ∧
    ∀ es v, run step es abandoned = some v → step v .wait = none := by
  refine ⟨by decide, fun h => absurd (h.signalled rfl rfl) (by decide), fun es v hrun => ?_⟩
  have hstuck : Stuck abandoned := ⟨rfl, by simp [abandoned]⟩
  have hchan : v.chanCloses = 0 := hstuck.run hrun
  simp [FLVWriter.step, hchan]

/-- Two calls of `Close` find the flag unset, and the second closes a closed channel. -/
example : (run step [.header true, .header true, .handleWriter true, .closeInter, .timeout, .close 0, .close 1,
    .close 0, .close 1] {}).map FLVWriter.queueCloses = some 2 := by decide

end FLVWriter

end HttpFlv

end Livego
