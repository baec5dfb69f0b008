import Livego.RtmpPhases
import Mathlib.Order.WellFounded

/-! A negotiation comes to its end, and then the client and the server agree. -/

namespace Livego

open Fallible ChunkStream
open Amf (Value Object)

namespace Negotiation

open ConnClient (connectArgs createStreamArgs publishArgs)
open ServerConn (connectRespArgs createStreamRespArgs publishRespArgs controls)

/-- The phases of a negotiation. -/
inductive IsPhase (order : ServerConn.RangeOrder) (app tcurl title : Bytes) : Phase → Prop
  | dialed : IsPhase order app tcurl title (.dialed app tcurl title)
  | connectAsked : IsPhase order app tcurl title (.connectAsked order app tcurl title)
  | connectAnswered (rest : List ChunkStream) (hrest : ∀ m ∈ rest, m.typeID ≠ 20 ∧ m.typeID ≠ 17) :
    IsPhase order app tcurl title (.connectAnswered order app tcurl title rest)
  | createStreamAsked : IsPhase order app tcurl title (.createStreamAsked order app tcurl title)
  | createStreamAnswered : IsPhase order app tcurl title (.createStreamAnswered order app tcurl title)
  | publishAsked : IsPhase order app tcurl title (.publishAsked order app tcurl title)
  | publishAnswered : IsPhase order app tcurl title (.publishAnswered order app tcurl title)
  | agreed : IsPhase order app tcurl title (.agreed order app tcurl title)

/-- One side can move, and the other one waits for it. -/
inductive Moves (order : ServerConn.RangeOrder) (p q : Phase) : Prop
  | client (m : ChunkStream) (ms : List ChunkStream) (h : ClientMoves order p q m ms) (hups : p.ups = [])
  | server (m : ChunkStream) (ms : List ChunkStream) (h : ServerMoves order p q m ms) (hdowns : p.downs = [])
    (hdialed : p.clientAt ≠ .running .dialed)

section
variable {order : ServerConn.RangeOrder} {app tcurl title : Bytes} {p : Phase} {s t : Negotiation} {e : Event}

theorem phase_cases (horder : ∀ obj, (order obj).Perm obj) (hconnect : Sayable (connectArgs order 1 app tcurl))
    (hpublish : Sayable (publishArgs 3 title)) (hp : IsPhase order app tcurl title p) :
    p = .dialed app tcurl title ∨ p = .agreed order app tcurl title ∨
      ∃ q, IsPhase order app tcurl title q ∧ q.left < p.left ∧ Moves order p q := by
  cases hp with
  | dialed => exact Or.inl rfl
  | agreed => exact Or.inr (Or.inl rfl)
  | connectAsked =>
      refine Or.inr (Or.inr ⟨_, .connectAnswered controls (by decide), (by decide : 8 < 9), ?_⟩)
      exact .server _ _ (Phase.connectAsked_moves horder hconnect) rfl nofun
  | connectAnswered rest hrest =>
      cases rest with
      | nil =>
          refine Or.inr (Or.inr ⟨_, .createStreamAsked, (by decide : 4 < 5), ?_⟩)
          exact .client _ _ (Phase.connectAnswered_moves horder) rfl
      | cons m rest =>
          obtain ⟨hm, hrest⟩ := List.forall_mem_cons.mp hrest
          refine Or.inr (Or.inr ⟨_, .connectAnswered rest hrest, Nat.lt_succ_self (5 + rest.length), ?_⟩)
          exact .client _ _ (Phase.control_moves hm) rfl
  | createStreamAsked =>
      refine Or.inr (Or.inr ⟨_, .createStreamAnswered, (by decide : 3 < 4), ?_⟩)
      exact .server _ _ Phase.createStreamAsked_moves rfl nofun
  | createStreamAnswered =>
      refine Or.inr (Or.inr ⟨_, .publishAsked, (by decide : 2 < 3), ?_⟩)
      exact .client _ _ (Phase.createStreamAnswered_moves hpublish) rfl
  | publishAsked =>
      refine Or.inr (Or.inr ⟨_, .publishAnswered, (by decide : 1 < 2), ?_⟩)
      exact .server _ _ (Phase.publishAsked_moves horder hpublish) rfl nofun
  | publishAnswered =>
      refine Or.inr (Or.inr ⟨_, .agreed, (by decide : 0 < 1), ?_⟩)
      exact .client _ _ (Phase.publishAnswered_moves horder) rfl

/-- What is under way. -/
def flight (s : Negotiation) : Nat := s.upward.length + s.downward.length

theorem At.server_waits (h : At p s) (hups : p.ups = []) : step order s .server = none := by
  have hup := h.linked.up
  rw [hups] at hup
  simp only [step]
  split
  · rw [hup.read_nil.1, Option.map_none]
  · rfl

theorem At.client_waits (h : At p s) (hdowns : p.downs = []) (hdialed : p.clientAt ≠ .running .dialed) :
    step order s .client = none := by
  have hdown := h.linked.down
  rw [hdowns] at hdown
  simp only [step]
  split
  · rename_i hclientAt
    exact absurd (h.clientAt.symm.trans hclientAt) hdialed
  · rw [hdown.read_nil.1, Option.map_none]
  · rfl

/-- The client begins. -/
theorem At.dialed (hconnect : Sayable (connectArgs order 1 app tcurl)) (h : At (.dialed app tcurl title) s) :
    ∃ t, step order s .client = some t ∧ At (.connectAsked order app tcurl title) t := by
  obtain ⟨hlo, hhi⟩ := h.linked.up.bounds
  have hclientAt : s.clientAt = .running .dialed := h.clientAt
  have hcall : ConnClient.proceed order .dialed s.client = .ok (.running .connect)
      { (Phase.connectAsked order app tcurl title).client with
        conn := (s.client.conn.wrote [commandMessage 0 (connectArgs order 1 app tcurl)]).flushed } := by
    conv_lhs => rw [h.client]
    exact ConnClient.proceed_dialed hconnect (by decide : 0 < 2 ^ 32) hlo hhi
  have hlinked := h.linked.symm.write (List.forall_mem_singleton.mpr (hconnect.writable (by decide : 0 < 2 ^ 32)))
    (List.forall_mem_singleton.mpr rfl) (Phase.length_singleton_le hconnect 0)
  refine ⟨clientCall (ConnClient.proceed order .dialed) s, ?_, ?_⟩
  · simp only [step, hclientAt]
  · simp only [clientCall, Progress.after, hcall]
    exact ⟨rfl, rfl, h.server, h.serverAt, hlinked.symm⟩

/-- A negotiation goes on until both sides agree. -/
theorem At.enabled (horder : ∀ obj, (order obj).Perm obj) (hconnect : Sayable (connectArgs order 1 app tcurl))
    (hpublish : Sayable (publishArgs 3 title)) (hp : IsPhase order app tcurl title p) (h : At p s) :
    p = .agreed order app tcurl title ∨ ∃ e t, step order s e = some t := by
  have harrive : ∀ {q : Bytes}, q ≠ [] → 0 < q.length ∧ q.length ≤ q.length := fun hq =>
    ⟨List.length_pos_iff.mpr hq, le_refl _⟩
  rcases phase_cases horder hconnect hpublish hp with rfl | hagreed | ⟨q, -, -, hmoves⟩
  · obtain ⟨t, hstep, -⟩ := h.dialed hconnect
    exact Or.inr ⟨_, t, hstep⟩
  · exact Or.inl hagreed
  · cases hmoves with
    | client m ms hclient _ =>
        obtain ⟨-, hflight⟩ | ⟨t, hstep, -⟩ := hclient.step h
        · exact Or.inr ⟨.toClient s.downward.length, _, if_pos (harrive hflight)⟩
        · exact Or.inr ⟨_, t, hstep⟩
    | server m ms hserver _ _ =>
        obtain ⟨-, hflight⟩ | ⟨t, hstep, -⟩ := hserver.step h
        · exact Or.inr ⟨.toServer s.upward.length, _, if_pos (harrive hflight)⟩
        · exact Or.inr ⟨_, t, hstep⟩

theorem step_toServer {n : Nat} : step order s (.toServer n) = some t ↔ (0 < n ∧ n ≤ s.upward.length) ∧
    { s with server.conn := s.server.conn.more (s.upward.take n), toServer := s.toServer + n } = t := by
  simp only [step, Option.ite_none_right_eq_some, Option.some.injEq]

theorem step_toClient {n : Nat} : step order s (.toClient n) = some t ↔ (0 < n ∧ n ≤ s.downward.length) ∧
    { s with client.conn := s.client.conn.more (s.downward.take n), toClient := s.toClient + n } = t := by
  simp only [step, Option.ite_none_right_eq_some, Option.some.injEq]

/-- Bytes that arrive leave fewer under way. -/
theorem At.arrive_toServer (h : At p s) {n : Nat} (hstep : step order s (.toServer n) = some t) :
    At p t ∧ flight t < flight s := by
  obtain ⟨⟨hpos, hle⟩, rfl⟩ := step_toServer.mp hstep
  refine ⟨⟨h.client, h.clientAt, ?_, h.serverAt, h.linked.arrive hle⟩, ?_⟩
  · have hserver := h.server
    exact congrArg (fun server : ServerConn => { server with conn := s.server.conn.more (s.upward.take n) }) hserver
  · simp only [flight, upward, downward, List.length_drop, Conn.more, ReadWriter.more] at hle ⊢
    omega

theorem At.arrive_toClient (h : At p s) {n : Nat} (hstep : step order s (.toClient n) = some t) :
    At p t ∧ flight t < flight s := by
  obtain ⟨⟨hpos, hle⟩, rfl⟩ := step_toClient.mp hstep
  refine ⟨⟨?_, h.clientAt, h.server, h.serverAt, (h.linked.symm.arrive hle).symm⟩, ?_⟩
  · exact congrArg (fun client : ConnClient => { client with conn := s.client.conn.more (s.downward.take n) }) h.client
  · simp only [flight, upward, downward, List.length_drop, Conn.more, ReadWriter.more] at hle ⊢
    omega

/-- Bytes arrive, which leaves fewer under way, or a message is read or sent. -/
theorem At.keeps (horder : ∀ obj, (order obj).Perm obj) (hconnect : Sayable (connectArgs order 1 app tcurl))
    (hpublish : Sayable (publishArgs 3 title)) (hp : IsPhase order app tcurl title p) (h : At p s)
    (hstep : step order s e = some t) :
    At p t ∧ flight t < flight s ∨ ∃ q, IsPhase order app tcurl title q ∧ At q t ∧ q.left < p.left := by
  have hphase := phase_cases horder hconnect hpublish hp
  cases e with
  | toServer n => exact Or.inl (h.arrive_toServer hstep)
  | toClient n => exact Or.inl (h.arrive_toClient hstep)
  | client =>
      rcases hphase with rfl | rfl | ⟨q, hq, hlt, ⟨m, ms, hclient, -⟩ | ⟨m, ms, -, hdowns, hdialed⟩⟩
      · obtain ⟨t', hstep', ht'⟩ := h.dialed hconnect
        cases hstep.symm.trans hstep'
        exact Or.inr ⟨_, .connectAsked, ht', (by decide : 9 < 10)⟩
      · exact absurd (hstep.symm.trans (h.client_waits rfl nofun)) nofun
      · obtain ⟨hnone, -⟩ | ⟨t', hstep', ht'⟩ := hclient.step h
        · exact absurd (hstep.symm.trans hnone) nofun
        · cases hstep.symm.trans hstep'
          exact Or.inr ⟨q, hq, ht', hlt⟩
      · exact absurd (hstep.symm.trans (h.client_waits hdowns hdialed)) nofun
  | server =>
      rcases hphase with rfl | rfl | ⟨q, hq, hlt, ⟨m, ms, -, hups⟩ | ⟨m, ms, hserver, -, -⟩⟩
      · exact absurd (hstep.symm.trans (h.server_waits rfl)) nofun
      · exact absurd (hstep.symm.trans (h.server_waits rfl)) nofun
      · exact absurd (hstep.symm.trans (h.server_waits hups)) nofun
      · obtain ⟨hnone, -⟩ | ⟨t', hstep', ht'⟩ := hserver.step h
        · exact absurd (hstep.symm.trans hnone) nofun
        · cases hstep.symm.trans hstep'
          exact Or.inr ⟨q, hq, ht', hlt⟩

theorem at_start (app tcurl title : Bytes) : At (.dialed app tcurl title) (start app tcurl title) :=
  ⟨rfl, rfl, rfl, rfl, Conn.linked_newConn .eof .eof⟩

theorem At.agreed (h : At (.agreed order app tcurl title) s) : Agreed app tcurl title s := by
  have hserver : s.server.server = (Phase.agreed order app tcurl title).server.server := by rw [h.server]
  have hstreamID : s.server.streamID = 1 := by rw [h.server]; rfl
  have hstreamid : s.client.streamid = 1 := by rw [h.client]; rfl
  have happ : s.client.app = app := by rw [h.client]; rfl
  have htcurl : s.client.tcurl = tcurl := by rw [h.client]; rfl
  have htitle : s.client.title = title := by rw [h.client]; rfl
  refine ⟨h.clientAt, h.serverAt, ?_, ?_, ?_, ⟨happ, htcurl, htitle⟩, ?_, ?_, ?_⟩
  · rw [hstreamid, hstreamID]
    rfl
  · rw [hserver]
    rfl
  · rw [hserver]
    rfl
  · rw [hserver, happ]
    rfl
  · rw [hserver, htcurl]
    rfl
  · rw [hserver, htitle]
    rfl

/-- No negotiation goes on for ever. -/
theorem At.acc (horder : ∀ obj, (order obj).Perm obj) (hconnect : Sayable (connectArgs order 1 app tcurl))
    (hpublish : Sayable (publishArgs 3 title)) (hp : IsPhase order app tcurl title p) (h : At p s) :
    Acc (fun t s => ∃ e, step order s e = some t) s := by
  induction hleft : p.left using Nat.strong_induction_on generalizing p s with
  | _ left ihleft =>
      induction hflight : flight s using Nat.strong_induction_on generalizing s with
      | _ bytes ihbytes =>
          refine .intro s fun t ⟨e, hstep⟩ => ?_
          obtain ⟨ht, hlt⟩ | ⟨q, hq, ht, hlt⟩ := h.keeps horder hconnect hpublish hp hstep
          · exact ihbytes _ (hflight ▸ hlt) ht rfl
          · exact ihleft _ (hleft ▸ hlt) hq ht rfl

/-- Whatever the order in which bytes arrive and the sides go on, a negotiation ends, and then both sides agree. -/
theorem negotiation_agrees (horder : ∀ obj, (order obj).Perm obj)
    (hconnect : (Amf.batchBytes (connectArgs order 1 app tcurl)).length < 512000)
    (hpublish : (Amf.batchBytes (publishArgs 3 title)).length < 512000) :
    (∀ es s, Machine.run (step order) es (start app tcurl title) = some s →
      Agreed app tcurl title s ∨ ∃ e t, step order s e = some t) ∧
    ¬∃ states : Nat → Negotiation, states 0 = start app tcurl title ∧
      ∀ i, ∃ e, step order (states i) e = some (states (i + 1)) := by
  have hconnect := sayable_connectArgs horder hconnect
  have hpublish := sayable_publishArgs hpublish
  constructor
  · intro es s hrun
    obtain ⟨p, hp, h⟩ : ∃ p, IsPhase order app tcurl title p ∧ At p s := by
      refine Machine.run_keeps (I := fun s => ∃ p, IsPhase order app tcurl title p ∧ At p s) ?_
        ⟨_, .dialed, at_start app tcurl title⟩ hrun
      rintro s e t ⟨p, hp, h⟩ hstep
      obtain ⟨ht, -⟩ | ⟨q, hq, ht, -⟩ := h.keeps horder hconnect hpublish hp hstep
      · exact ⟨p, hp, ht⟩
      · exact ⟨q, hq, ht⟩
    obtain rfl | henabled := h.enabled horder hconnect hpublish hp
    · exact Or.inl h.agreed
    · exact Or.inr henabled
  · rintro ⟨states, hstart, hsteps⟩
    have hacc := (at_start app tcurl title).acc horder hconnect hpublish .dialed
    exact (acc_iff_isEmpty_descending_chain.mp hacc).false ⟨states, hstart, hsteps⟩

theorem negotiation_agrees_reverse :
    (∀ obj : Object, obj.reverse.Perm obj) ∧
    (∀ es s, Machine.run (step List.reverse) es
        (start (lit "live") (lit "rtmp://localhost/live") (lit "movie")) = some s →
      Agreed (lit "live") (lit "rtmp://localhost/live") (lit "movie") s ∨ ∃ e t, step List.reverse s e = some t) ∧
    ¬∃ states : Nat → Negotiation, states 0 = start (lit "live") (lit "rtmp://localhost/live") (lit "movie") ∧
      ∀ i, ∃ e, step List.reverse (states i) e = some (states (i + 1)) :=
  ⟨List.reverse_perm, negotiation_agrees List.reverse_perm (by decide) (by decide)⟩

end

end Negotiation

end Livego
