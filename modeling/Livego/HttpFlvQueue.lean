import Livego.CountingOut
import Livego.PacketQueue

/-! The packet queue of an HTTP-FLV viewer, whose `DropPacket` receives a second packet for each video packet. -/

namespace Livego

namespace FLVWriter

open CountingOut (Role play turn round spared)
def maxQueueNum : Nat := 1024

def send (p : PacketRef) (pktQue : List PacketRef) : Option (List PacketRef) := PacketQueue.send maxQueueNum p pktQue

/-- What is done with a packet that has been received, if it is video: it is sent back if it is a sequence header or a key
frame, and another packet is dropped. -/
def dropVideo (tmpPkt : PacketRef) (pktQue : List PacketRef) : Option (List PacketRef) :=
  if tmpPkt.isVideo then
    (if tmpPkt.headerKept then send tmpPkt pktQue else some pktQue).bind fun pktQue =>
      (if pktQue.length > maxQueueNum - 10 then PacketQueue.discard pktQue else some pktQue).bind PacketQueue.discard
  else some pktQue

/-- What is done with it if it is audio. -/
def putBackAudio (tmpPkt : PacketRef) (pktQue : List PacketRef) : Option (List PacketRef) :=
  if tmpPkt.isAudio then send tmpPkt pktQue else some pktQue

/-- The loop of `DropPacket`, with so many iterations to go. -/
def dropLoop : Nat → List PacketRef → Option (List PacketRef)
  | 0, pktQue => some pktQue
  | _ + 1, [] => none
  | i + 1, tmpPkt :: pktQue => ((dropVideo tmpPkt pktQue).bind (putBackAudio tmpPkt)).bind (dropLoop i)

def dropPacket (pktQue : List PacketRef) : Option (List PacketRef) := dropLoop (maxQueueNum - 84) pktQue

def write (p : PacketRef) (packetQueue : List PacketRef) : Option (List PacketRef) :=
  if packetQueue.length ≥ maxQueueNum - 24 then dropPacket packetQueue else send p packetQueue

/-- What becomes of a packet that is received: audio stays, a key frame stays and has the next packet dropped, another
video packet is dropped with the next one, and everything else is dropped. -/
def role (p : PacketRef) : Role :=
  if p.isVideo then
    if p.headerKept then .strikes else .falls
  else if p.isAudio then .stays
  else .leaves

theorem map_discard (q : List PacketRef) : (PacketQueue.discard q).map (List.map role) = (q.map role).tail? := by
  cases q <;> rfl

/-- An iteration, of a queue that is not nearly full, is a turn. -/
theorem map_iteration {p : PacketRef} {q : List PacketRef} (hlen : q.length + 1 ≤ maxQueueNum - 10) :
    ((dropVideo p q).bind (putBackAudio p)).map (List.map role) = turn (role p :: q.map role) := by
  have hmax : maxQueueNum = 1024 := rfl
  have hsend : send p q = some (q ++ [p]) := if_pos (by omega)
  have hlen' : ¬ (q ++ [p]).length > maxQueueNum - 10 := by rw [List.length_append, List.length_singleton]; omega
  unfold dropVideo
  cases hvideo : p.isVideo with
  | false =>
      rw [if_neg Bool.false_ne_true, Option.bind_some, putBackAudio]
      cases haudio : p.isAudio with
      | false =>
          have hrole : role p = .leaves := by simp [role, hvideo, haudio]
          rw [hrole]
          rfl
      | true =>
          have hrole : role p = .stays := by simp [role, hvideo, haudio]
          rw [if_pos rfl, hsend, hrole]
          simp [turn, hrole]
  | true =>
      have haudio : p.isAudio = false := by
        by_contra haudio
        rw [PacketRef.isVideo_eq_false (by simpa using haudio)] at hvideo
        cases hvideo
      have hnone : ∀ q, (PacketQueue.discard q).bind (putBackAudio p) = PacketQueue.discard q := by
        intro q
        cases q <;> simp [PacketQueue.discard, putBackAudio, haudio]
      rw [if_pos rfl]
      cases hheader : p.headerKept with
      | false =>
          have hrole : role p = .falls := by simp [role, hvideo, hheader]
          rw [if_neg Bool.false_ne_true, Option.bind_some, if_neg (by omega), Option.bind_some, hnone, map_discard, hrole]
          rfl
      | true =>
          have hrole : role p = .strikes := by simp [role, hvideo, hheader]
          rw [if_pos rfl, hsend, Option.bind_some, if_neg hlen', Option.bind_some, hnone, map_discard, hrole]
          simp [turn, hrole]

/-- `DropPacket` counts the queue out. -/
theorem map_dropLoop {n : Nat} {q : List PacketRef} (hlen : q.length ≤ maxQueueNum - 10) :
    (dropLoop n q).map (List.map role) = play n (q.map role) := by
  induction n generalizing q with
  | zero => rfl
  | succ n ih =>
      cases q with
      | nil => rfl
      | cons p q =>
          have hiteration := map_iteration (p := p) (q := q) hlen
          rw [dropLoop, List.map_cons, play, ← hiteration]
          cases hturn : (dropVideo p q).bind (putBackAudio p) with
          | none => rfl
          | some q' =>
              rw [hturn] at hiteration
              have hshort := CountingOut.length_turn hiteration.symm
              rw [List.length_map, List.length_cons, List.length_map] at hshort
              exact ih (hshort.trans hlen)

theorem length_dropLoop {n : Nat} {q q' : List PacketRef} (hlen : q.length ≤ maxQueueNum - 10)
    (hloop : dropLoop n q = some q') : q'.length ≤ q.length := by
  have hmap := map_dropLoop (n := n) hlen
  rw [hloop, Option.map_some] at hmap
  simpa using CountingOut.length_play hmap.symm

/-- `Write` never makes the queue longer than the threshold. -/
theorem length_write {p : PacketRef} {q q' : List PacketRef} (hlen : q.length ≤ maxQueueNum - 24)
    (hwrite : write p q = some q') : q'.length ≤ maxQueueNum - 24 := by
  unfold write at hwrite
  split_ifs at hwrite with hlong
  · exact (length_dropLoop (hlen.trans (by decide)) hwrite).trans hlen
  · unfold send PacketQueue.send at hwrite
    split_ifs at hwrite
    cases hwrite
    rw [List.length_append, List.length_singleton]
    omega

/-- `DropPacket` returns, when nothing is received by the consumer, if and only if the video packets other than sequence
headers and key frames that it comes to when it goes once round the queue are made up for by the packets of the queue
that there are more than iterations, and by the audio packets that it comes to in all its rounds. -/
theorem dropPacket_returns_iff {pktQue : List PacketRef} (hlen : pktQue.length ≤ maxQueueNum - 10) :
    (dropPacket pktQue).isSome ↔ ∃ rounds, (round (pktQue.map role)).count .falls + (maxQueueNum - 84) ≤
      pktQue.length + spared rounds (pktQue.map role) := by
  have hmap := congrArg Option.isSome (map_dropLoop (n := maxQueueNum - 84) hlen)
  rw [Option.isSome_map] at hmap
  rw [dropPacket, hmap, CountingOut.isSome_play_iff, List.length_map]

open QueueWriter (keyFrame interFrame numbered congestion length_congestion length_numbered)

theorem length_congested (p : MediaPacket) : (numbered (congestion p)).length = maxQueueNum - 24 := by
  rw [length_numbered, length_congestion]
  rfl

theorem dropPacket_returns_iff_sample :
    (dropPacket (numbered (congestion keyFrame))).isSome ↔
      ∃ rounds, (round ((numbered (congestion keyFrame)).map role)).count .falls + (maxQueueNum - 84) ≤
        (numbered (congestion keyFrame)).length + spared rounds ((numbered (congestion keyFrame)).map role) :=
  dropPacket_returns_iff (by rw [length_congested]; decide)

/-- A queue of inter frames is used up after half as many iterations. -/
theorem dropPacket_waits :
    (numbered (congestion interFrame)).length = maxQueueNum - 24 ∧ dropPacket (numbered (congestion interFrame)) = none := by
  have hlen := length_congested interFrame
  refine ⟨hlen, ?_⟩
  have hfalls : (numbered (congestion interFrame)).map role = List.replicate (maxQueueNum - 24) .falls := by
    refine List.eq_replicate_iff.mpr ⟨by rw [List.length_map, hlen], fun r hr => ?_⟩
    obtain ⟨p, hp, rfl⟩ := List.mem_map.mp hr
    have hframe : p.packet = interFrame := by
      rcases List.mem_cons.mp (QueueWriter.mem_of_mem_numbered hp) with heq | hmem
      · exact heq
      · exact List.eq_of_mem_replicate hmem
    simp only [role, PacketRef.isVideo, PacketRef.headerKept, hframe]
    rfl
  have hmap := map_dropLoop (n := maxQueueNum - 84) (q := numbered (congestion interFrame)) (by rw [hlen]; decide)
  rw [hfalls, CountingOut.play_replicate_falls (by decide)] at hmap
  exact Option.map_eq_none_iff.mp hmap

end FLVWriter

end Livego
