import Ciruela.Cluster.Set
import Ciruela.Daemon.Peers.Stalled
import Ciruela.Daemon.Server.News

/-!
# Whom a machine asks

A machine that needs a part of an image asks a machine that is said to have it, or a client that
has published the image, and only when there is neither does it ask at random. Gossip is late, so
whoever is asked may have lost the image in the meantime, but the machine did come to show it as
complete, or was at work on a download of it.
-/

namespace Ciruela

open Foundation

open Remote (SocketAddr)
open Peers (Gossip Matter Order PathSet Peer)

namespace Mask

/-- `index_bit`. -/
def indexBit : Mask := ⟨1#16 <<< 15⟩

end Mask

namespace Peers.Gossip

variable {Hash : Type} (gossip : Gossip Hash) (order : Order MachineId)

end Peers.Gossip

namespace Remote.Connections

variable (connections : Connections)

/-- `split_connected`: the connections there are, and the addresses that have not failed just
now. -/
def splitConnected (now : Nat) (addrs : List SocketAddr) : List Nat × List SocketAddr :=
  (addrs.filterMap connections.outgoing.lookup, addrs.filter fun addr =>
    decide (addr ∉ connections.outgoing) &&
      Cluster.canTry connections.failures Cluster.retryTime now addr)

end Remote.Connections

/-- A connection that is there, or an address for `ensure_connected`. -/
inductive Source where
  | connected (id : Nat)
  | connect (addr : SocketAddr)
deriving DecidableEq

/-- What is drawn, and the orders of the hash tables. -/
structure Draw where
  pick : Nat
  now : Nat
  hosts : Order MachineId
  /-- The hosts that the path was received from, in their order. -/
  recentlyReceived : List SocketAddr
  connections : Order Nat

namespace Server

variable {Hash : Type} (server : Server Hash) (draw : Draw) (canTry : SocketAddr → Bool)

/-- Those of the addresses that may be tried, connected or not. -/
def split (addrs : List SocketAddr) : List Nat × List SocketAddr :=
  server.connections.splitConnected draw.now (addrs.filter canTry)

end Server

section Connections

variable {connections after : Remote.Connections} {history : List Remote.Event}
  {event : Remote.Event}

/-- The source is at this address. -/
def Source.At (connections : Remote.Connections) (addr : SocketAddr) : Source → Prop
  | connected id => ∃ connection, connections.made[id]? = some connection ∧ connection.addr = addr
  | connect other => other = addr

/-- What leads to a connection: its address, if it is an outgoing one, and the images that were
published there. -/
structure Remote.Leads (history : List Remote.Event) (connections : Remote.Connections) : Prop where
  outgoing : ∀ addr id, connections.outgoing.lookup addr = some id →
    (Source.connected id).At connections addr
  offers : ∀ image id, connections.Offers image id → Remote.Published history id image

/-- No connection leads anywhere at first. -/
theorem Remote.Leads.new : Remote.Leads [] .new where
  outgoing := by simp [Remote.Connections.new]
  offers := fun image id offers => absurd offers (Multimap.not_relates_empty image id)

/-- A connection keeps its address. -/
theorem at_of_exec {op : Remote.Op} (moved : connections.exec op = some after) {id : Nat}
    {addr : SocketAddr} (here : (Source.connected id).At connections addr) :
    (Source.connected id).At after addr := by
  obtain ⟨connection, there, isAddr⟩ := here
  have inside : id < connections.made.length := (List.getElem?_eq_some_iff.mp there).1
  have put (other : Nat) {old : Remote.Connection} (isOld : connections.made[other]? = some old)
      (new : Remote.Connection) (same : new.addr = old.addr) :
      ∃ connection, (connections.made.set other new)[id]? = some connection ∧
        connection.addr = addr := by
    rw [List.getElem?_set]
    by_cases changed : other = id
    · subst changed
      rw [if_pos rfl, if_pos inside]
      exact ⟨new, rfl, by rw [same, ← isAddr, Option.some.inj (isOld.symm.trans there)]⟩
    · rw [if_neg changed]
      exact ⟨connection, there, isAddr⟩
  cases op with
  | accept other =>
      obtain rfl := Option.some.inj moved
      exact ⟨connection, (List.getElem?_append_left inside).trans there, isAddr⟩
  | ensureConnected other =>
      rw [Remote.Connections.exec] at moved
      split at moved
      · obtain rfl := Option.some.inj moved
        exact ⟨connection, there, isAddr⟩
      · obtain rfl := Option.some.inj moved
        exact ⟨connection, (List.getElem?_append_left inside).trans there, isAddr⟩
  | handshake other =>
      obtain ⟨old, isOld, moved⟩ := Option.bind_eq_some_iff.mp moved
      obtain ⟨_, same⟩ := Option.ite_none_right_eq_some.mp moved
      obtain rfl := Option.some.inj same
      exact put other isOld _ rfl
  | publish other image =>
      obtain ⟨old, isOld, moved⟩ := Option.bind_eq_some_iff.mp moved
      obtain ⟨_, same⟩ := Option.ite_none_right_eq_some.mp moved
      obtain rfl := Option.some.inj same
      exact put other isOld _ rfl
  | drop other hanging now =>
      obtain ⟨old, isOld, moved⟩ := Option.bind_eq_some_iff.mp moved
      obtain ⟨_, same⟩ := Option.ite_none_right_eq_some.mp moved
      obtain rfl := Option.some.inj same
      exact ⟨connection, there, isAddr⟩

/-- An outgoing connection was one before, or is made. -/
theorem outgoing_of_exec {op : Remote.Op} (moved : connections.exec op = some after) {id : Nat}
    {addr : SocketAddr} (found : after.outgoing.lookup addr = some id) :
    connections.outgoing.lookup addr = some id ∨ (Source.connected id).At after addr := by
  cases op with
  | accept other =>
      obtain rfl := Option.some.inj moved
      exact .inl found
  | ensureConnected other =>
      rw [Remote.Connections.exec] at moved
      split at moved
      · obtain rfl := Option.some.inj moved
        exact .inl found
      · obtain rfl := Option.some.inj moved
        rw [Map.lookup_insert_eq] at found
        split at found
        · rename_i same
          obtain rfl := Option.some.inj found
          refine .inr ⟨⟨other, false, []⟩, ?_, same.symm⟩
          simp [Remote.Connections.make]
        · exact .inl found
  | handshake other =>
      obtain ⟨old, isOld, moved⟩ := Option.bind_eq_some_iff.mp moved
      obtain ⟨_, same⟩ := Option.ite_none_right_eq_some.mp moved
      obtain rfl := Option.some.inj same
      exact .inl found
  | publish other image =>
      obtain ⟨old, isOld, moved⟩ := Option.bind_eq_some_iff.mp moved
      obtain ⟨_, same⟩ := Option.ite_none_right_eq_some.mp moved
      obtain rfl := Option.some.inj same
      exact .inl found
  | drop other hanging now =>
      obtain ⟨old, isOld, moved⟩ := Option.bind_eq_some_iff.mp moved
      obtain ⟨_, same⟩ := Option.ite_none_right_eq_some.mp moved
      obtain rfl := Option.some.inj same
      refine .inl ?_
      dsimp only [Remote.Connections.dropToken] at found
      split at found
      · rw [Map.lookup_erase_eq] at found
        split at found
        · cases found
        · exact found
      · exact found

/-- A step keeps where the connections lead. -/
theorem Remote.Leads.step (leads : Remote.Leads history event.before)
    (takes : Remote.machine.Takes event) : Remote.Leads (history ++ [event]) event.after := by
  have effect := Remote.effect_of_takes takes
  obtain ⟨next, moved, same⟩ := Option.map_eq_some_iff.mp takes
  obtain rfl : next = event.after := congrArg Prod.snd same
  refine ⟨fun addr id found => ?_, fun image id offers => ?_⟩
  · exact (outgoing_of_exec moved found).elim
      (fun before => at_of_exec moved (leads.outgoing addr id before)) fun new => new
  · obtain ⟨before, op, answer, after⟩ := event
    have related : after.declaredImages.Relates image id := offers
    have old (known : before.declaredImages.Relates image id) :
        Remote.Published (history ++ [⟨before, op, answer, after⟩]) id image :=
      Remote.published_append.mpr (.inl (leads.offers image id known))
    cases effect with
    | quiet _ _ _ declared _ =>
        dsimp only at declared
        rw [declared] at related
        exact old related
    | @published other extra _ _ _ declared _ =>
        dsimp only at declared
        rw [declared] at related
        rcases Multimap.relates_add.mp related with known | ⟨rfl, rfl⟩
        · exact old known
        · exact Remote.published_append.mpr (.inr rfl)
    | @dropped other _ _ _ _ declared _ =>
        dsimp only at declared
        rw [declared] at related
        split at related
        · exact old (Multimap.relates_foldl_remove.mp related).1
        · exact old related

end Connections

section Asked

variable {Hash : Type} {server : Server Hash} {draw : Draw} {canTry : SocketAddr → Bool}
  {place : List Component} {image : ImageId} {mask : Mask} {source : Source}

end Asked

namespace Server.Sample

/-- The first of everything is drawn, a second after the start. -/
def draw : Draw where
  pick := 0
  now := 10 ^ 9
  hosts := default
  recentlyReceived := []
  connections :=
    ⟨fun set => set.sort (· ≤ ·), fun set => set.sort_nodup _, fun _ _ => Finset.mem_sort _⟩

end Server.Sample

end Ciruela
