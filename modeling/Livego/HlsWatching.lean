import Livego.HlsPlayback
import Livego.HlsViewer

/-! What a player of hls sees: in the segments that it finds there are frames that were accepted from the publisher. -/

namespace Livego

open Fallible Machine TsDemux

/-- A part of a list has its counterpart in a list that it agrees with. -/
theorem exists_sublist_of_forall₂ {α β : Type} {R : α → β → Prop} {xs l : List α} {ys : List β} (h : List.Forall₂ R xs ys)
    (hl : l.Sublist xs) : ∃ l', l'.Sublist ys ∧ List.Forall₂ R l l' := by
  induction hl generalizing ys with
  | slnil => exact ⟨[], List.nil_sublist _, .nil⟩
  | cons x _ ih =>
      cases h with
      | cons _ htail =>
          obtain ⟨l', hsub, hl'⟩ := ih htail
          exact ⟨l', hsub.cons _, hl'⟩
  | cons_cons x _ ih =>
      cases h with
      | cons hhead htail =>
          obtain ⟨l', hsub, hl'⟩ := ih htail
          exact ⟨_ :: l', hsub.cons_cons _, .cons hhead hl'⟩

theorem exists_infix_of_forall₂ {α β : Type} {R : α → β → Prop} {xs l : List α} {ys : List β} (h : List.Forall₂ R xs ys)
    (hl : l <:+: xs) : ∃ l', l' <:+: ys ∧ List.Forall₂ R l l' := by
  obtain ⟨a, b, rfl⟩ := hl
  refine ⟨(ys.drop a.length).take l.length, (List.take_prefix _ _).isInfix.trans (List.drop_suffix _ _).isInfix, ?_⟩
  have hpart := List.forall₂_take l.length (List.forall₂_drop a.length h)
  rwa [List.append_assoc, List.drop_left, List.take_left] at hpart

namespace Hls

/-- Whatever has come out of the queue of a source, with the keys of any three segments in a row different, its playlist
reads as the last segments. None of them is shorter than three seconds, and none, rounded, longer than the target. -/
theorem reads_window {key : String} {arrivals : List (Int × AvPacket)} {source : Source} {server : Server}
    {caches : Nat → TSCacheItem} {conn : Nat} (hkey : Spelled (lit key)) (hconn : server.getConn (lit key) = some conn)
    (hopen : server.sources[conn]?.any Handle.tsCache = true)
    (hrun : Source.sendPacket arrivals { key } = .ok () source) (hspaced : Spaced source.setCalls) :
    ∃ res m, server.handle (Function.update caches conn source.tsCache) (playlistPath (lit key)) = .ok res ∧
      MediaPlaylist.read res.body = some m ∧
      m.segments = (window source.setItems).map (fun item => (item.duration.toNat, lit item.name)) ∧
      (∀ x ∈ m.segments, 3000 ≤ x.1 ∧ (x.1 + 500) / 1000 ≤ m.targetDuration) ∧
      (source.setItems ≠ [] → m.mediaSequence = source.setItems.length - maxTSCacheNum + 1) := by
  have hcutting : Cutting key source := by
    have hmeets := Source.sendPacket_keeps (fun _ _ _ h ht => Cutting.turns h ht) arrivals { key }
      (Viewing.cutting_start key)
    rw [hrun] at hmeets
    exact hmeets.1
  have hwindow : ∀ item ∈ window source.setItems, Readable item := by
    intro item hitem
    obtain ⟨hduration, now, hname⟩ := hcutting.items item (List.mem_of_mem_drop hitem)
    exact readable_of_filename hkey hduration hname
  have hread := read_playlistOf hwindow
  rw [← Source.genM3U8PlayList_tsCache hspaced] at hread
  refine ⟨_, _, Server.handle_playlistPath hkey hconn (Viewing.getCacheInc_update hopen _), hread, rfl, ?_, ?_⟩
  · intro x hx
    obtain ⟨item, hitem, rfl⟩ := List.mem_map.mp hx
    have hlong : duration ≤ item.duration := (hcutting.items item (List.mem_of_mem_drop hitem)).1
    have hmax : item.duration ≤ ((window source.setItems).map TSItem.duration).foldl max 0 :=
      (List.max?_eq_some_iff.mp List.max?_cons').2 _ (List.mem_cons_of_mem 0 (List.mem_map_of_mem hitem))
    have hthree : duration = 3000 := rfl
    dsimp only
    omega
  · intro hne
    have hlength : 0 < (window source.setItems).length := by
      have := List.length_pos_iff.mpr hne
      have hthree : maxTSCacheNum = 3 := rfl
      rw [window, List.length_drop]
      omega
    have hnumbered := numbered_window hcutting.numbered
    obtain ⟨item, rest, hitems⟩ := List.exists_cons_of_length_pos hlength
    rw [hitems] at hnumbered
    dsimp only
    rw [hitems]
    exact (List.cons.inj hnumbered).1.trans (Nat.add_comm 1 _)

namespace Viewing

/-- What comes out of the queue. -/
def Event.arrival : Event → Option (Int × AvPacket)
  | .arrives now p => some (now, p)
  | _ => none

variable {key : String} {server : Server} {caches : Nat → TSCacheItem} {conn : Nat} {s t : Viewing}

theorem sendPacket_arrivals {es : List Event} (h : run (step server caches conn) es s = some t) :
    Source.sendPacket (es.filterMap Event.arrival) s.source = .ok () t.source := by
  induction es generalizing s with
  | nil =>
      cases h
      rfl
  | cons e es ih =>
      obtain ⟨u, hstep, hrest⟩ := run_cons.mp h
      cases e with
      | arrives now p =>
          rw [step] at hstep
          split at hstep
          · next source hturn =>
            cases hstep
            rw [List.filterMap_cons_some (rfl : Event.arrival (.arrives now p) = some (now, p)), Source.sendPacket,
              Call.bind_of_ok hturn]
            exact ih hrest
          · cases hstep
      | reloads =>
          obtain ⟨res, -, rfl⟩ := Option.map_eq_some_iff.mp hstep
          exact @ih { s with viewer := s.viewer.shown res } hrest
      | asks =>
          rw [step] at hstep
          split at hstep
          · cases hstep
          · next n _ _ =>
            obtain ⟨res, -, rfl⟩ := Option.map_eq_some_iff.mp hstep
            exact @ih { s with viewer := s.viewer.received n res } hrest

/-- The frames in what was found. -/
def Sees (found : List (Nat × Bytes)) (seen : List (List AvPacket × List TransportPacket)) : Prop :=
  List.Forall₂ (fun x y => demux (packetsOf x.2) = some y.2 ∧ Found y.1 y.2) found seen

instance (s : Viewing) (e : Event) : Decidable (KeepsUp s e) :=
  match e with
  | .arrives _ _ => isTrue trivial
  | .reloads => isTrue trivial
  | .asks => inferInstanceAs (Decidable (_ ∨ _))

instance (s : Viewing) : Decidable (Distinct s) := inferInstanceAs (Decidable (List.Nodup _))

/-- While a source cuts off segments, each in another second, a player finds some of them, in their order and none
twice. They follow one another if it keeps up. -/
theorem finds_segments {es : List Event} (hkey : Spelled (lit key)) (hconn : server.getConn (lit key) = some conn)
    (hopen : server.sources[conn]?.any Handle.tsCache = true) (hrun : run (step server caches conn) es (start key) = some s)
    (hnames : Distinct s) :
    s.viewer.found.Sublist (s.source.setItems.map answer) ∧
      (Along (step server caches conn) KeepsUp es (start key) → s.viewer.found <:+: s.source.setItems.map answer) :=
  ⟨found_sublist hkey hconn hopen hrun hnames, found_contiguous hkey hconn hopen hrun hnames⟩

/-- A server with one source. -/
def sampleServer : Server := (Server.getWriter (lit "live/movie") 0 {}).2

def noCaches (_ : Nat) : TSCacheItem := TSCacheItem.newTSCacheItem []

theorem spelled_movie : Spelled (lit "live/movie") := ⟨by decide, by decide, by decide, by decide +kernel⟩

/-- A player that comes once after the first segment and once after the second. -/
def sampleEvents : List Event :=
  (samplePictures.take 5).map (fun a => .arrives a.1 a.2) ++ [.reloads, .asks] ++
    (samplePictures.drop 5).map (fun a => .arrives a.1 a.2) ++ [.reloads, .asks]

theorem getConn_sampleServer : sampleServer.getConn (lit "live/movie") = some 0 := by decide +kernel

theorem open_sampleServer : sampleServer.sources[0]?.any Handle.tsCache = true := by decide +kernel

theorem run_sampleEvents : ∃ s, run (step sampleServer noCaches 0) sampleEvents (start "live/movie") = some s ∧
    Distinct s ∧ s.viewer.found.length = 2 := by
  have hrun : (run (step sampleServer noCaches 0) sampleEvents (start "live/movie")).any
      (fun s => decide (Distinct s ∧ s.viewer.found.length = 2)) = true := by decide +kernel
  obtain ⟨s, hs⟩ := Option.isSome_iff_exists.mp (Option.isSome_of_any hrun)
  rw [hs] at hrun
  exact ⟨s, hs, of_decide_eq_true hrun⟩

theorem reads_window_movie : ∃ source res m,
    Source.sendPacket (sampleEvents.filterMap Event.arrival) { key := "live/movie" } = .ok () source ∧
      sampleServer.handle (Function.update noCaches 0 source.tsCache) (playlistPath (lit "live/movie")) = .ok res ∧
      MediaPlaylist.read res.body = some m ∧ ∀ x ∈ m.segments, 3000 ≤ x.1 ∧ (x.1 + 500) / 1000 ≤ m.targetDuration := by
  obtain ⟨s, hrun, hnames, -⟩ := run_sampleEvents
  have hsend := sendPacket_arrivals hrun
  obtain ⟨res, m, hhandle, hread, -, hdurations, -⟩ := reads_window spelled_movie getConn_sampleServer open_sampleServer
    hsend (spaced_of_nodup (Source.nodup_setCalls hnames))
  exact ⟨s.source, res, m, hsend, hhandle, hread, hdurations⟩

theorem finds_segments_movie : ∃ s, run (step sampleServer noCaches 0) sampleEvents (start "live/movie") = some s ∧
    s.viewer.found.length = 2 ∧ s.viewer.found <:+: s.source.setItems.map answer := by
  obtain ⟨s, hrun, hnames, hlength⟩ := run_sampleEvents
  refine ⟨s, hrun, hlength, (finds_segments spelled_movie getConn_sampleServer open_sampleServer hrun hnames).2 ?_⟩
  decide +kernel

end Viewing

end Hls

end Livego
