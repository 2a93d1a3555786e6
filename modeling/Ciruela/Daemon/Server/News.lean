import Ciruela.Daemon.Server.Cluster
import Ciruela.Daemon.Tracking.Announced

/-!
# Whether clients are told the truth

A client is told that an image has been received by a machine: by the server it is connected
to, or by another one whose packets that server has read. In either case the machine that is
named has had the image in the state file of the path.
-/

namespace Ciruela

open Foundation

open Remote (SocketAddr)
open Peers (Gossip GossipOp Packet PathSet Peer Choice Sent Matter)
open Proto (Notification)
open Tracking (Node Committed Orderly Apart spotsOf)

namespace Tracking

/-- What was committed stays committed. -/
theorem Committed.append {start : Node} {trace : List NodeEvent} {place : List Component}
    {image : ImageId} (committed : Committed start trace place image) (later : List NodeEvent) :
    Committed start (trace ++ later) place image := by
  obtain ⟨spot, located, records | ⟨event, member, records⟩⟩ := committed
  · exact ⟨spot, located, Or.inl records⟩
  · exact ⟨spot, located, Or.inr ⟨event, List.mem_append_left _ member, records⟩⟩

end Tracking

section Local

variable {Hash : Type} [DecidableEq Hash] {setup : Setup Hash} {forObject : PathSet → Hash}
  {own : MachineId} {history : List (ServerEvent Hash)} {finish : Server Hash}

/-- The tracking subsystem is worked on in an orderly way. -/
structure Ordered (setup : Setup Hash) (history : List (ServerEvent Hash)) : Prop where
  orderly : ∀ event ∈ history.filterMap nodeEvent, Orderly setup.env event
  apart : Apart (spotsOf (history.filterMap nodeEvent))

/-- The tracking subsystem has committed the image. -/
def Setup.Has (setup : Setup Hash) (history : List (ServerEvent Hash)) (place : List Component)
    (image : ImageId) : Prop :=
  Committed (Node.new setup.signatures setup.indexes) (history.filterMap nodeEvent) place image

omit [DecidableEq Hash] in
/-- The beginning of an ordered history is ordered. -/
theorem Ordered.front {front back : List (ServerEvent Hash)}
    (ordered : Ordered setup (front ++ back)) : Ordered setup front where
  orderly event member := ordered.orderly event (by
    rw [List.filterMap_append]
    exact List.mem_append_left _ member)
  apart := by
    have fewer : spotsOf (front.filterMap nodeEvent) ⊆ spotsOf ((front ++ back).filterMap nodeEvent) := by
      rintro spot ⟨event, member, located⟩
      rw [List.filterMap_append]
      exact ⟨event, List.mem_append_left _ member, located⟩
    exact fun first isFirst second isSecond =>
      ordered.apart first (fewer isFirst) second (fewer isSecond)

omit [DecidableEq Hash] in
/-- What a machine has had, it has had in a longer history. -/
theorem Setup.Has.append {front : List (ServerEvent Hash)} {place : List Component} {image : ImageId}
    (has : setup.Has front place image) (back : List (ServerEvent Hash)) :
    setup.Has (front ++ back) place image := by
  unfold Setup.Has
  rw [List.filterMap_append]
  exact Tracking.Committed.append has _

/-- The list of peers that is fetched has each of them under its id. -/
def Named (event : ServerEvent Hash) : Prop :=
  ∀ peers, event.op = .change (.refresh peers) →
    ∀ id (peer : Peer), peers.lookup id = some peer → peer.id = id

end Local

namespace Server.Sample

/-- The list of the peers is read again, with one machine in it. -/
def fetched (other : MachineId) (port : Nat) : ServerOp Nat :=
  .change (.refresh ((∅ : Map MachineId Peer).insert other (peer other port)))

/-- The two servers do nothing but this. -/
theorem op_of_mem {event : ClusterEvent Nat} (member : event ∈ trace) :
    event.2.op ∈ fetched [1] 24001 :: uploading ++ [write, write] ∨
      event.2.op ∈ fetched [2] 24002 :: [.connect (.accept ⟨[127, 0, 0, 1], 24783⟩),
        .upload 0 Metadata.Sample.path, .receive ⟨[127, 0, 0, 1], 24002⟩ news] := by
  refine (List.mem_append.mp member).imp (fun first => ?_) fun second => ?_
  · obtain ⟨taken, isMove, rfl⟩ := List.mem_map.mp first
    exact Machine.Steps.op_mem_of_play isMove
  · obtain ⟨taken, isMove, rfl⟩ := List.mem_map.mp second
    exact Machine.Steps.op_mem_of_play isMove

/-- Only the upload makes the tracking subsystem move. -/
theorem op_of_track {id : MachineId} {taken : ServerEvent Nat} {inner : Tracking.NodeEvent}
    (member : (id, taken) ∈ trace) (moves : nodeEvent taken = some inner) :
    inner.op ∈ Tracking.Sample.uploading 0 Metadata.Io.working := by
  have isOp := op_of_mem member
  unfold nodeEvent at moves
  split at moves
  · rename_i op reason found same
    obtain rfl := Option.some.inj moves
    simp [same, fetched, uploading, write] at isOp
    exact isOp.1
  · rename_i same
    simp [same, fetched, uploading, write] at isOp
  · cases moves

/-- The list of the example has its machine under its own id. -/
theorem named {event : ClusterEvent Nat} (member : event ∈ trace) : Named event.2 := by
  intro peers isRefresh id known found
  have isOp := op_of_mem member
  rw [isRefresh] at isOp
  have inserted : ∃ other port, peers = (∅ : Map MachineId Peer).insert other (peer other port) := by
    simp [fetched, uploading, write] at isOp
    exact isOp.elim (fun same => ⟨_, _, same⟩) fun same => ⟨_, _, same⟩
  obtain ⟨other, port, rfl⟩ := inserted
  rw [Map.lookup_insert_eq] at found
  split at found
  · rename_i same
    obtain rfl := Option.some.inj found
    exact same.symm
  · simp at found

/-- The runs of the example are ordered. -/
theorem ordered (id : MachineId) : Ordered (setup id) (Network.alone id trace) := by
  have ops : ∀ event ∈ (Network.alone id trace).filterMap nodeEvent,
      event.op ∈ Tracking.Sample.uploading 0 Metadata.Io.working := by
    intro event member
    obtain ⟨taken, isMove, moves⟩ := List.mem_filterMap.mp member
    exact op_of_track (Network.mem_alone.mp isMove) moves
  have onePath : ∀ op ∈ Tracking.Sample.uploading 0 Metadata.Io.working, ∀ path ∈ op.paths,
      path = Metadata.Sample.path := by
    decide
  refine ⟨fun event member => ?_, ?_⟩
  · have isOp := ops event member
    refine ⟨fun path isPath => onePath _ isOp path isPath ▸ by decide, ?_, ?_⟩
    · intro task io keys params same
      rw [same] at isOp
      simp [Tracking.Sample.uploading, Metadata.Sample.append] at isOp
    · intro task io same
      rw [same] at isOp
      obtain ⟨_, rfl⟩ : task = 0 ∧ io = Metadata.Io.working := by
        simpa [Tracking.Sample.uploading] using isOp
      exact Metadata.Io.not_faulty_working
  · rintro first ⟨event, member, path, isPath, located⟩ second
      ⟨otherEvent, otherMember, otherPath, otherIsPath, otherLocated⟩ different
    rw [onePath _ (ops event member) path isPath] at located
    rw [onePath _ (ops otherEvent otherMember) otherPath otherIsPath] at otherLocated
    exact absurd (Spot.place_injective (located.symm.trans otherLocated)) different

end Server.Sample

end Ciruela
