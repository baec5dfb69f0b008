import Livego.RtmpStream

/-! Which players stay attached to the stream of their key, over any calls of `HandleReader` and `HandleWriter` one after
the other. -/

namespace Livego

open Machine

namespace RtmpStream

variable (clients : Clients)

/-- The player is in the writer map of the stream that is registered under its key. -/
def Attached (rs : RtmpStream) (w : Nat) : Prop :=
  ∃ i, rs.streams.lookup (clients.writer w).key = some i ∧
    ∃ v, (rs.stream i).ws.lookup (clients.writer w).uid = some v ∧ v.w = w

/-- The entry of a player that is closed, has timed out or has returned an error is deleted. -/
def deleteWriter (w : Nat) (rs : RtmpStream) : RtmpStream :=
  match rs.streams.lookup (clients.writer w).key with
  | some i =>
    let s := rs.stream i
    rs.set i { s with ws := s.ws.erase (clients.writer w).uid }
  | none => rs

/-- A stream without anybody is deleted. -/
def deleteStream (key : String) (rs : RtmpStream) : RtmpStream := { rs with streams := rs.streams.erase key }

variable {clients} {rs : RtmpStream} {w : Nat}

theorem Ordered.deleteWriter (h : Ordered clients rs) (w : Nat) : Ordered clients (rs.deleteWriter clients w) := by
  unfold RtmpStream.deleteWriter
  split
  · refine h.of_streams rfl le_rfl fun j => ?_
    rw [stream_set]
    split_ifs
    · exact (h.keyed _).erase _
    · exact h.keyed j
  · exact h

theorem Ordered.deleteStream (h : Ordered clients rs) (key : String) : Ordered clients (rs.deleteStream key) := by
  have hold : ∀ key' i, (rs.streams.erase key).lookup key' = some i → rs.streams.lookup key' = some i := by
    intro key' i hi
    rw [SyncMap.lookup_erase_eq] at hi
    split_ifs at hi
    exact hi
  exact ⟨fun key' i hi => h.bound key' i (hold key' i hi),
    fun key₁ key₂ i h₁ h₂ => h.apart key₁ key₂ i (hold key₁ i h₁) (hold key₂ i h₂), h.keyed⟩

theorem Ordered.transStart (h : Ordered clients rs) (i : Nat) : Ordered clients (rs.transStart i) := by
  refine h.of_streams rfl le_rfl fun j => ?_
  rw [RtmpStream.transStart]
  simp only [stream_set]
  split_ifs
  · exact h.keyed i
  · exact h.keyed j

/-- A new stream for a key takes over the players that `order` names. -/
theorem handleReader_replaces {r i : Nat} {order : List String}
    (hi : rs.streams.lookup (clients.reader r).key = some i) (hreplaces : (rs.transStop i).replaces clients r i) :
    rs.handleReader clients r order =
      ((((rs.transStop i).newStream.copy clients order i rs.next).store (clients.reader r).key rs.next).addReader r
        rs.next) := by
  rw [handleReader, hi]
  simp only [hreplaces, if_true, next_transStop]

theorem handleReader_keeps {r i : Nat} {order : List String}
    (hi : rs.streams.lookup (clients.reader r).key = some i) (hreplaces : ¬ (rs.transStop i).replaces clients r i) :
    rs.handleReader clients r order = (rs.transStop i).addReader r i := by
  rw [handleReader, hi]
  simp only [hreplaces]
  rfl

theorem handleReader_new {r : Nat} {order : List String} (hi : rs.streams.lookup (clients.reader r).key = none) :
    rs.handleReader clients r order = (rs.newStream.store (clients.reader r).key rs.next).addReader r rs.next := by
  rw [handleReader, hi]

theorem Ordered.handleReader (h : Ordered clients rs) (r : Nat) (order : List String) :
    Ordered clients (rs.handleReader clients r order) := by
  cases hi : rs.streams.lookup (clients.reader r).key with
  | none =>
      rw [handleReader_new hi]
      exact (h.newStream.store _ (Nat.lt_succ_self _) h.new_ne).addReader r _
  | some i =>
      by_cases hreplaces : (rs.transStop i).replaces clients r i = true
      · rw [handleReader_replaces hi hreplaces]
        have hnew := (h.transStop i).new_ne
        rw [next_transStop] at hnew
        refine Ordered.addReader (Ordered.store (Ordered.copy (h.transStop i).newStream order i _) _ ?_ hnew) r _
        exact (next_transStop i rs).symm ▸ Nat.lt_succ_self _
      · rw [handleReader_keeps hi hreplaces]
        exact (h.transStop i).addReader r i

theorem Ordered.handleWriter (h : Ordered clients rs) (w : Nat) : Ordered clients (rs.handleWriter clients w) := by
  unfold RtmpStream.handleWriter
  dsimp only
  split
  · exact h.newStream.store _ (Nat.lt_succ_self _) h.new_ne
  · refine h.of_streams rfl le_rfl fun j => ?_
    rw [stream_set]
    split_ifs
    · exact (h.keyed _).addWriter w
    · exact h.keyed j

/-- A call that leaves a player's stream alone. -/
theorem Attached.of_same {rs' : RtmpStream} (h : Attached clients rs w)
    (hstreams : ∀ i, rs.streams.lookup (clients.writer w).key = some i →
      rs'.streams.lookup (clients.writer w).key = some i ∧ (rs'.stream i).ws = (rs.stream i).ws) :
    Attached clients rs' w := by
  obtain ⟨i, hi, v, hv, hw⟩ := h
  obtain ⟨hi', hws⟩ := hstreams i hi
  exact ⟨i, hi', v, hws ▸ hv, hw⟩

/-- The new stream has the players of the old one, and the streams of other keys are as before. -/
theorem handleReader_replaces_fields {r i : Nat} {order : List String} (hbound : i < rs.next)
    (hi : rs.streams.lookup (clients.reader r).key = some i)
    (hreplaces : (rs.transStop i).replaces clients r i = true) :
    (rs.handleReader clients r order).streams = rs.streams.insert (clients.reader r).key rs.next ∧
      ((rs.handleReader clients r order).stream rs.next).ws =
        (Stream.copy clients order { rs.stream i with isStart := false } {}).2.ws ∧
      ∀ j, j ≠ i → j ≠ rs.next → (rs.handleReader clients r order).stream j = rs.stream j := by
  have hne : i ≠ rs.next := Nat.ne_of_lt hbound
  have hnext : (rs.transStop i).next = rs.next := next_transStop i rs
  have hold : (rs.transStop i).newStream.stream i = { rs.stream i with isStart := false } := by
    rw [stream_newStream, hnext, if_neg hne, stream_transStop, if_pos rfl]
  have hnew : (rs.transStop i).newStream.stream rs.next = {} := by
    rw [stream_newStream, hnext, if_pos rfl]
  rw [handleReader_replaces hi hreplaces]
  refine ⟨?_, ?_, fun j hj hj' => ?_⟩
  · show (rs.transStop i).streams.insert _ _ = _
    rw [streams_transStop]
  · rw [stream_addReader, if_pos rfl]
    show (((rs.transStop i).newStream.copy clients order i rs.next).stream rs.next).ws = _
    rw [stream_copy, if_pos rfl, hold, hnew]
  · rw [stream_addReader, if_neg hj']
    show ((rs.transStop i).newStream.copy clients order i rs.next).stream j = _
    rw [stream_copy, if_neg hj', if_neg hj, stream_newStream, hnext, if_neg hj', stream_transStop, if_neg hj]

/-- No publisher takes a player away. -/
theorem Attached.handleReader (h : Attached clients rs w) (hordered : Ordered clients rs) {r : Nat}
    {order : List String}
    (horder : ∀ i, rs.streams.lookup (clients.reader r).key = some i →
      ∀ uid v, (rs.stream i).ws.lookup uid = some v → uid ∈ order) :
    Attached clients (rs.handleReader clients r order) w := by
  cases hi : rs.streams.lookup (clients.reader r).key with
  | none =>
      rw [handleReader_new hi]
      refine h.of_same fun i hw => ?_
      have hne : (clients.writer w).key ≠ (clients.reader r).key := by
        intro heq
        rw [heq, hi] at hw
        cases hw
      have hold : i ≠ rs.next := Nat.ne_of_lt (hordered.bound _ i hw)
      refine ⟨(SyncMap.lookup_insert_eq _ _ _ _).trans ((if_neg hne).trans hw), ?_⟩
      rw [stream_addReader, if_neg hold]
      exact congrArg Stream.ws ((stream_newStream i rs).trans (if_neg hold))
  | some i =>
      have hbound : i < rs.next := hordered.bound _ i hi
      by_cases hreplaces : (rs.transStop i).replaces clients r i = true
      · obtain ⟨hstreams, hws, hothers⟩ := @handleReader_replaces_fields _ _ r i order hbound hi hreplaces
        by_cases hkey : (clients.writer w).key = (clients.reader r).key
        · obtain ⟨j, hj, v, hv, hw⟩ := h
          rw [hkey, hi] at hj
          cases hj
          refine ⟨rs.next, ?_, { w := v.w }, ?_, hw⟩
          · rw [hstreams, hkey, Finmap.lookup_insert]
          · have hkeyed : Stream.Keyed clients { rs.stream i with isStart := false } := hordered.keyed i
            rw [hws, Stream.lookup_copy order hkeyed, if_pos (horder i hi _ v hv)]
            simp only [hv]
            rfl
        · refine h.of_same fun j hj => ?_
          have hne : j ≠ i := fun heq => hkey (hordered.apart _ _ i (heq ▸ hj) hi)
          have hold : j ≠ rs.next := Nat.ne_of_lt (hordered.bound _ j hj)
          rw [hstreams, Finmap.lookup_insert_of_ne _ hkey, hothers j hne hold]
          exact ⟨hj, rfl⟩
      · rw [handleReader_keeps hi hreplaces]
        refine h.of_same fun j hj => ⟨(congrArg _ (streams_transStop i rs)).trans hj, ?_⟩
        rw [stream_addReader, stream_transStop, stream_transStop, if_pos rfl]
        by_cases heq : j = i
        · rw [if_pos heq, heq]
        · rw [if_neg heq, if_neg heq]

/-- A player that finds a stream is in its writer map, and the others stay in theirs. -/
theorem attached_handleWriter {i : Nat} (hi : rs.streams.lookup (clients.writer w).key = some i) :
    Attached clients (rs.handleWriter clients w) w := by
  refine ⟨i, ?_, { w := w }, ?_, rfl⟩
  · simp only [handleWriter, hi, streams_set]
  · simp only [handleWriter, hi, stream_set_self, Stream.addWriter, Finmap.lookup_insert]

theorem Attached.handleWriter (h : Attached clients rs w) (hordered : Ordered clients rs) (w' : Nat) :
    Attached clients (rs.handleWriter clients w') w := by
  by_cases hw : w = w'
  · subst hw
    obtain ⟨i, hi, -⟩ := h
    exact attached_handleWriter hi
  obtain ⟨i, hi, v, hv, hvw⟩ := h
  have huid : (clients.writer w).uid ≠ (clients.writer w').uid := fun heq => hw (clients.uid_injective heq)
  cases hi' : rs.streams.lookup (clients.writer w').key with
  | none =>
      have hkey : (clients.writer w).key ≠ (clients.writer w').key := by
        intro heq
        rw [heq, hi'] at hi
        cases hi
      have hold : i ≠ rs.next := Nat.ne_of_lt (hordered.bound _ i hi)
      have heq : rs.handleWriter clients w' = rs.newStream.store (clients.writer w').key rs.next := by
        simp only [RtmpStream.handleWriter, hi']
      refine ⟨i, ?_, v, ?_, hvw⟩
      · rw [heq]
        exact (SyncMap.lookup_insert_eq _ _ _ _).trans ((if_neg hkey).trans hi)
      · rw [heq]
        show (rs.newStream.stream i).ws.lookup _ = _
        rw [stream_newStream, if_neg hold, hv]
  | some j =>
      refine ⟨i, ?_, v, ?_, hvw⟩
      · simp only [RtmpStream.handleWriter, hi', streams_set, hi]
      · simp only [RtmpStream.handleWriter, hi', stream_set]
        split_ifs with hij
        · rw [Stream.addWriter, Finmap.lookup_insert_of_ne _ huid, ← hij, hv]
        · exact hv

theorem Attached.deleteWriter (h : Attached clients rs w) {w' : Nat} (hw : w ≠ w') :
    Attached clients (rs.deleteWriter clients w') w := by
  obtain ⟨i, hi, v, hv, hvw⟩ := h
  have huid : (clients.writer w).uid ≠ (clients.writer w').uid := fun heq => hw (clients.uid_injective heq)
  unfold RtmpStream.deleteWriter
  split
  · refine ⟨i, hi, v, ?_, hvw⟩
    rw [stream_set]
    split_ifs with hij
    · rw [Finmap.lookup_erase_ne huid, ← hij, hv]
    · exact hv
  · exact ⟨i, hi, v, hv, hvw⟩

/-- A stream that has players is not deleted. -/
theorem Attached.deleteStream (h : Attached clients rs w) {key : String} {j : Nat}
    (hj : rs.streams.lookup key = some j) (hempty : (rs.stream j).ws.keys = ∅) :
    Attached clients (rs.deleteStream key) w := by
  obtain ⟨i, hi, v, hv, hvw⟩ := h
  refine ⟨i, ?_, v, hv, hvw⟩
  rw [RtmpStream.deleteStream, SyncMap.lookup_erase_eq, if_neg, hi]
  intro heq
  rw [heq, hj] at hi
  cases hi
  have hmem : (clients.writer w).uid ∈ (rs.stream j).ws.keys := Finmap.mem_keys.mpr (Finmap.mem_of_lookup_eq_some hv)
  rw [hempty] at hmem
  cases hmem

theorem Attached.transStart (h : Attached clients rs w) (i : Nat) : Attached clients (rs.transStart i) w := by
  refine h.of_same fun j hj => ⟨hj, ?_⟩
  rw [RtmpStream.transStart]
  simp only [stream_set]
  split_ifs with heq
  · rw [heq]
  · rfl

end RtmpStream

/-- The registry, and the players that `HandleWriter` was called for and that have neither been closed nor timed out
nor returned an error since. -/
structure Subscriptions where
  rs : RtmpStream := {}
  subscribed : Finset Nat := ∅

namespace Subscriptions

open RtmpStream

inductive Event where
  /-- `HandleReader`, with the keys of the writers in the order in which `Copy` ranges over them. -/
  | handleReader (r : Nat) (order : List String)
  | handleWriter (w : Nat)
  /-- The `TransStart` of a publisher begins. -/
  | transStart (i : Nat)
  /-- A player is closed, times out or returns an error. -/
  | leave (w : Nat)
  /-- `CheckAlive` has counted nobody in the stream of a key. -/
  | expire (key : String)

variable (clients : Clients)

def step (s : Subscriptions) : Event → Option Subscriptions
  | .handleReader r order =>
    match s.rs.streams.lookup (clients.reader r).key with
    | some i =>
      if order.toFinset = (s.rs.stream i).ws.keys then some { s with rs := s.rs.handleReader clients r order } else none
    | none => some { s with rs := s.rs.handleReader clients r order }
  | .handleWriter w => some { rs := s.rs.handleWriter clients w, subscribed := insert w s.subscribed }
  | .transStart i => if i ∈ s.rs.spawned then some { s with rs := s.rs.transStart i } else none
  | .leave w => some { rs := s.rs.deleteWriter clients w, subscribed := s.subscribed.erase w }
  | .expire key =>
    match s.rs.streams.lookup key with
    | some i => if (s.rs.stream i).ws.keys = ∅ then some { s with rs := s.rs.deleteStream key } else none
    | none => none

/-- The stream of a player's key is registered when `HandleWriter` looks for it. -/
def Found (s : Subscriptions) : Event → Prop
  | .handleWriter w => (s.rs.streams.lookup (clients.writer w).key).isSome
  | _ => True

/-- No subscriber is lost. -/
def Kept (s : Subscriptions) : Prop := ∀ w ∈ s.subscribed, Attached clients s.rs w

variable {clients} {s t : Subscriptions} {e : Event}

theorem ordered_step (h : Ordered clients s.rs) (hstep : step clients s e = some t) : Ordered clients t.rs := by
  cases e with
  | handleReader r order =>
      simp only [step] at hstep
      split at hstep
      · split_ifs at hstep
        cases hstep
        exact h.handleReader r order
      · cases hstep
        exact h.handleReader r order
  | handleWriter w =>
      cases hstep
      exact h.handleWriter w
  | transStart i =>
      simp only [step] at hstep
      split_ifs at hstep
      cases hstep
      exact h.transStart i
  | leave w =>
      cases hstep
      exact h.deleteWriter w
  | expire key =>
      simp only [step] at hstep
      split at hstep
      · split_ifs at hstep
        cases hstep
        exact h.deleteStream key
      · cases hstep

/-- A step keeps the subscribers if it does not find a stream missing. -/
theorem Kept.step (h : Kept clients s) (hordered : Ordered clients s.rs) (hfound : Found clients s e)
    (hstep : step clients s e = some t) : Kept clients t := by
  cases e with
  | handleReader r order =>
      simp only [Subscriptions.step] at hstep
      split at hstep
      · next i hi =>
          split_ifs at hstep with horder
          cases hstep
          refine fun w hw => (h w hw).handleReader hordered fun j hj uid v hv => ?_
          rw [hi] at hj
          cases hj
          rw [← List.mem_toFinset, horder]
          exact Finmap.mem_keys.mpr (Finmap.mem_of_lookup_eq_some hv)
      · next hi =>
          cases hstep
          refine fun w hw => (h w hw).handleReader hordered fun j hj => ?_
          rw [hi] at hj
          cases hj
  | handleWriter w =>
      cases hstep
      intro w' hw'
      rcases Finset.mem_insert.mp hw' with rfl | hw'
      · obtain ⟨i, hi⟩ := Option.isSome_iff_exists.mp hfound
        exact attached_handleWriter hi
      · exact (h w' hw').handleWriter hordered w
  | transStart i =>
      simp only [Subscriptions.step] at hstep
      split_ifs at hstep
      cases hstep
      exact fun w hw => (h w hw).transStart i
  | leave w =>
      cases hstep
      intro w' hw'
      obtain ⟨hne, hold⟩ := Finset.mem_erase.mp hw'
      exact (h w' hold).deleteWriter hne
  | expire key =>
      simp only [Subscriptions.step] at hstep
      split at hstep
      · next i hi =>
          split_ifs at hstep with hempty
          cases hstep
          exact fun w hw => (h w hw).deleteStream hi hempty
      · cases hstep

/-- A player that finds no stream is in the writer map of none. -/
theorem not_kept {w : Nat} (hmissing : s.rs.streams.lookup (clients.writer w).key = none)
    (hstep : step clients s (.handleWriter w) = some t) : ¬ Kept clients t := by
  intro hkept
  cases hstep
  obtain ⟨i, hi, v, hv, -⟩ := hkept w (Finset.mem_insert_self w s.subscribed)
  have heq : s.rs.handleWriter clients w = s.rs.newStream.store (clients.writer w).key s.rs.next := by
    simp only [handleWriter, hmissing]
  rw [heq] at hi hv
  have hnew : i = s.rs.next := by
    rw [store, Finmap.lookup_insert] at hi
    exact (Option.some.inj hi).symm
  change (s.rs.newStream.stream i).ws.lookup _ = _ at hv
  rw [stream_newStream, if_pos hnew] at hv
  simp at hv

theorem kept_run_iff {es : List Event} (hordered : Ordered clients s.rs) (hkept : Kept clients s)
    (hrun : run (step clients) es s = some t) :
    (∀ front u, front <+: es → run (step clients) front s = some u → Kept clients u) ↔
      Along (step clients) (Found clients) es s := by
  induction es generalizing s with
  | nil =>
      refine ⟨fun _ => trivial, fun _ front u hfront hu => ?_⟩
      rw [List.prefix_nil.mp hfront] at hu
      cases hu
      exact hkept
  | cons e es ih =>
      obtain ⟨v, hstep, hes⟩ := run_cons.mp hrun
      have hordered' := ordered_step hordered hstep
      constructor
      · intro hall
        have hv : Kept clients v := hall [e] v ⟨es, rfl⟩ (run_cons.mpr ⟨v, hstep, rfl⟩)
        have hfound : Found clients s e := by
          cases e with
          | handleWriter w =>
              refine Option.isSome_iff_ne_none.mpr fun hmissing => ?_
              exact not_kept hmissing hstep hv
          | _ => trivial
        refine ⟨hfound, fun v' hv' => ?_⟩
        rw [hstep] at hv'
        cases hv'
        refine (ih hordered' hv hes).mp fun front u hfront hu => ?_
        exact hall (e :: front) u (List.cons_prefix_cons.mpr ⟨rfl, hfront⟩) (run_cons.mpr ⟨v, hstep, hu⟩)
      · rintro ⟨hfound, hrest⟩ front u hfront hu
        cases front with
        | nil =>
            cases hu
            exact hkept
        | cons f front =>
            obtain ⟨rfl, hrest'⟩ := List.cons_prefix_cons.mp hfront
            obtain ⟨v', hv', hu⟩ := run_cons.mp hu
            rw [hstep] at hv'
            cases hv'
            have hv := hkept.step hordered hfound hstep
            exact (ih hordered' hv hes).mpr (hrest v hstep) front u hrest' hu

/-- Along a run no subscriber is ever lost if and only if no player comes before the stream of its key. -/
theorem no_subscriber_lost_iff {es : List Event} (hrun : run (step clients) es {} = some s) :
    (∀ front t, front <+: es → run (step clients) front {} = some t → Kept clients t) ↔
      Along (step clients) (Found clients) es {} :=
  kept_run_iff (ordered_init clients) (fun _ hw => absurd hw (Finset.notMem_empty _)) hrun

/-- Publishers and players of one key. -/
def sampleClients : Clients where
  reader r := { key := "live/a", uid := String.ofList (List.replicate (r + 1) 'r') }
  writer w := { key := "live/a", uid := String.ofList (List.replicate (w + 1) 'w'), inter := true }
  uid_injective := by
    intro w w' h
    have hlists := congrArg (List.length ∘ String.toList) h
    simpa using hlists

/-- A player that connects before the publisher is attached to no stream. -/
theorem no_subscriber_lost_fails :
    ∃ s, run (step sampleClients) [.handleWriter 0, .handleReader 0 []] {} = some s ∧ 0 ∈ s.subscribed ∧
      ¬ Attached sampleClients s.rs 0 := by
  refine ⟨_, rfl, by decide, ?_⟩
  rintro ⟨i, hi, v, hv, -⟩
  change some 0 = some i at hi
  cases hi
  change none = some v at hv
  cases hv

/-- A publisher, a player, and another publisher. -/
theorem no_subscriber_lost_iff_sample :
    ∃ s, run (step sampleClients) [.handleReader 0 [], .handleWriter 0, .transStart 0, .handleReader 1 ["w"]] {} =
        some s ∧
      ((∀ front t, front <+: [.handleReader 0 [], .handleWriter 0, .transStart 0, .handleReader 1 ["w"]] →
          run (step sampleClients) front {} = some t → Kept sampleClients t) ↔
        Along (step sampleClients) (Found sampleClients)
          [.handleReader 0 [], .handleWriter 0, .transStart 0, .handleReader 1 ["w"]] {}) := by
  have hrun : ∃ s, run (step sampleClients)
      [.handleReader 0 [], .handleWriter 0, .transStart 0, .handleReader 1 ["w"]] {} = some s := ⟨_, rfl⟩
  obtain ⟨s, hs⟩ := hrun
  exact ⟨s, hs, no_subscriber_lost_iff hs⟩

end Subscriptions

end Livego
