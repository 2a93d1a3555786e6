import Mathlib.Data.Finset.Sort
import Mathlib.Data.List.Lex
import Ciruela.Daemon.Config
import Ciruela.Daemon.Mask
import Ciruela.Daemon.Peers.TwoWayMap
import Ciruela.Daemon.Remote.Connections
import Ciruela.Foundation.Machine
import Ciruela.PathMap

/-!
# Gossip

The nodes of a cluster tell each other in packets what they have and what they wait for.
What a packet says about a host is kept, and the paths that hosts wait for go out again with
messages about other things. A path may have only its key, and such a path has no parent.

A hash set of machines is a list. The order in which a hash table hands out its entries is
part of the operation, and so is what the random generator gives.
-/

namespace Ciruela

open Foundation

namespace Peers

open Remote (SocketAddr)

namespace PathSet

/-- A set without paths. -/
def empty : PathSet := ⟨[], List.nodup_nil⟩

/-- `BTreeSet::insert`: a path that is there stays. -/
def insert (set : PathSet) (path : VPath) : PathSet :=
  if known : set.Contains path.place then set
  else ⟨path :: set.paths, by
    rw [List.map_cons, List.nodup_cons]
    refine ⟨fun member => known ?_, set.apart⟩
    obtain ⟨other, isOther, same⟩ := List.mem_map.mp member
    exact ⟨other, isOther, same⟩⟩

/-- `BTreeSet::remove`. -/
def remove (set : PathSet) (path : VPath) : PathSet :=
  ⟨set.paths.filter fun other => other.place ≠ path.place,
    set.apart.sublist ((List.filter_sublist).map VPath.place)⟩

/-- The paths of a set after one is inserted. -/
theorem mem_insert {set : PathSet} {path other : VPath} (member : other ∈ (set.insert path).paths) :
    other = path ∨ other ∈ set.paths := by
  unfold insert at member
  split at member
  · exact Or.inr member
  · exact List.mem_cons.mp member

/-- What a set contains after a path is inserted. -/
theorem contains_insert {set : PathSet} {path : VPath} {place : List Component} :
    (set.insert path).Contains place ↔ path.place = place ∨ set.Contains place := by
  unfold insert
  split
  · rename_i known
    exact ⟨Or.inr, fun either => either.elim (fun same => same ▸ known) id⟩
  · simp [Contains]

/-- The paths of a set after many are inserted. -/
theorem mem_foldl_insert {paths : List VPath} {set : PathSet} {path : VPath}
    (member : path ∈ (paths.foldl insert set).paths) : path ∈ paths ∨ path ∈ set.paths := by
  induction paths generalizing set with
  | nil => exact Or.inr member
  | cons first rest ih =>
      rcases ih member with later | early
      · exact Or.inl (List.mem_cons_of_mem _ later)
      · rcases mem_insert early with rfl | old
        · exact Or.inl List.mem_cons_self
        · exact Or.inr old

/-- What a set contains after many paths are inserted. -/
theorem contains_foldl_insert {paths : List VPath} {set : PathSet} {place : List Component} :
    (paths.foldl insert set).Contains place ↔
      (∃ path ∈ paths, path.place = place) ∨ set.Contains place := by
  induction paths generalizing set with
  | nil => simp
  | cons first rest ih =>
      rw [List.foldl_cons, ih, contains_insert, List.exists_mem_cons_iff, ← or_assoc,
        or_comm (b := first.place = place)]

end PathSet

/-- `Peer`: a machine of the cluster, where it is and what it is called. -/
structure Peer where
  id : MachineId
  addr : SocketAddr
  hostname : List Char
  name : List Char

/-- `Downloading`: how far the download of an image is, as others are told. -/
structure Downloading where
  image : ImageId
  mask : Mask
  source : Bool
  stalled : Bool
deriving DecidableEq

/-- `HostData`: what is known of another machine. -/
structure HostData where
  downloading : Map (List Component) Downloading
  complete : Map (List Component) ImageId
  watching : PathSet
  deleted : Finset (List Component × ImageId)

/-- Nothing is known of the machine. -/
def HostData.empty : HostData := ⟨∅, ∅, .empty, ∅⟩

/-- `Message`: what the machines of a cluster tell each other. -/
inductive Message (Hash : Type) where
  | baseDirs (inProgress : PathMap Downloading) (watching : PathSet) (complete : PathMap ImageId)
      (deleted : Finset (List Component × ImageId)) (baseDirs : PathMap Hash)
  | downloading (path : VPath) (image : ImageId) (mask : Mask) (source : Bool)
      (watches : List MachineId)
  | reconcile (path : VPath) (hash : Hash) (watches : PathMap (List MachineId))
  | complete (path : VPath) (image : ImageId)
  | completeAck (path : VPath)
  | configSync (paths : PathSet)

/-- `Packet`: a message with its sender, and the hash of the configuration that it has of the
other. -/
structure Packet (Hash : Type) where
  machineId : MachineId
  yourConfig : Option Hash
  message : Message Hash

/-- What the gossip sees of the tracking subsystem and of the connections. -/
structure Around (Hash : Type) where
  inProgress : PathSet
  /-- The base directories, with the hashes that they are a superset of. -/
  baseDirs : Map (List Component) (Finset Hash)
  reconciling : Map (List Component × Hash) (Finset (SocketAddr × MachineId))
  watched : Finset (List Component)
  /-- The commands `Reconcile` that were sent. -/
  commands : List (VPath × Hash × SocketAddr × MachineId)
  /-- What is watched on each incoming connection. -/
  incoming : List (Nat × PathSet)

/-- `Gossip`: the tables of one machine. -/
structure Gossip (Hash : Type) where
  machineId : MachineId
  config : Config
  configHash : Hash
  configList : PathSet
  futurePeers : Map SocketAddr (List Char)
  peers : Map MachineId Peer
  byHost : Map MachineId HostData
  configs : ConfigMap Hash
  messages : List (Message Hash)
  around : Around Hash

/-- The tables at the start of the server. -/
def Gossip.start {Hash : Type} (machineId : MachineId) (config : Config) (configHash : Hash)
    (configList : PathSet) (futurePeers : Map SocketAddr (List Char)) : Gossip Hash :=
  ⟨machineId, config, configHash, configList, futurePeers, ∅, ∅, .new, [], ⟨.empty, ∅, ∅, ∅, [], []⟩⟩

/-- What is sent while a packet is read. -/
inductive Sent (Hash : Type) where
  | packet (addr : SocketAddr) (packet : Packet Hash)
  /-- `forward_notify_received_image`. -/
  | forwarded (image : ImageId) (path : VPath) (peer : Peer)

/-- `VPath::matches_basedir`. -/
def matchesBasedir (path base : VPath) : Run Bool := do
  let parent ← path.parent
  return decide (parent.place = base.place)

/-- `RECONCILE_MAX_DOWNLOADING`. -/
def reconcileMaxDownloading : Nat := 20

/-- `RECONCILE_BASEDIR_THROTTLE`. -/
def reconcileBasedirThrottle : Nat := 3

/-- `PACKETS_AT_ONCE`: the number of machines that a message goes to. -/
def packetsAtOnce : Nat := 4

namespace Around

variable {Hash : Type} [DecidableEq Hash] (around : Around Hash)

/-- How many downloads go on right below a base directory. -/
def downloadingInBasedir (path : VPath) : Run Nat :=
  around.inProgress.paths.foldlM
    (fun count item => do return if ← matchesBasedir item path then count + 1 else count) 0

/-- `reconcile_dir`: a directory that differs is compared, unless too much goes on already. -/
def reconcileDir (config : Config) (path : VPath) (hash : Hash) (addr : SocketAddr)
    (id : MachineId) : Run (Around Hash) :=
  if path.key ∉ config.dirs then return around
  else if reconcileMaxDownloading < around.inProgress.paths.length then return around
  else if ((around.baseDirs.lookup path.place).map fun known => decide (hash ∉ known)).getD true then
    let pair := (path.place, hash)
    if pair ∈ around.reconciling then do
      let peers ← Run.expect (around.reconciling.lookup pair)
        "called `Option::unwrap()` on a `None` value"
      return { around with
        reconciling := around.reconciling.insert pair (Insert.insert (addr, id) peers) }
    else do
      let current ← around.downloadingInBasedir path
      if reconcileBasedirThrottle ≤ current then return around
      else return { around with
        reconciling := around.reconciling.insert pair {(addr, id)}
        commands := around.commands ++ [(path, hash, addr, id)] }
  else return around

/-- Paths that others wait for are waited for here too, when an image can be there. -/
def checkWatched (config : Config) (paths : List VPath) : Around Hash :=
  paths.foldl
    (fun around path =>
      if path.place ∉ around.watched ∧ ¬ around.inProgress.Contains path.place ∧
          config.isValidDestination path = true then
        { around with watched := Insert.insert path.place around.watched }
      else around)
    around

/-- `Remote::get_watching`. -/
def getWatching : PathSet :=
  (around.incoming.flatMap fun connection => connection.2.paths).foldl PathSet.insert .empty

end Around

/-- The random part of the choice of peers: the order of `by_host`, the numbers that
`gen_range` is made from, and a sample of the peers. -/
structure Choice where
  hosts : List MachineId
  random : Nat → Nat
  sample : List MachineId

/-- `Rng::gen_range`. -/
def genRange (low high random : Nat) : Run Nat := do
  Run.assert (low < high) "low < high"
  return low + random % (high - low)

/-- The order of ids is that of their bytes. -/
def IdLe (first second : MachineId) : Prop := first.map UInt8.toNat ≤ second.map UInt8.toNat

instance : DecidableRel IdLe := fun first second =>
  inferInstanceAs (Decidable (first.map UInt8.toNat ≤ second.map UInt8.toNat))

instance : IsTrans MachineId IdLe := ⟨fun _ _ _ => le_trans (α := List ℕ)⟩

instance : Std.Antisymm IdLe :=
  ⟨fun _ _ below above =>
    List.map_injective_iff.mpr (fun _ _ => UInt8.toNat_inj.mp) (le_antisymm below above)⟩

instance : Std.Total IdLe := ⟨fun _ _ => le_total (α := List ℕ) _ _⟩

/-- The machines in order. -/
def sortIds (ids : Finset MachineId) : List MachineId := ids.sort IdLe

namespace Gossip

variable {Hash : Type} [DecidableEq Hash] (gossip : Gossip Hash)

/-- Change what is known about a host, also where nothing was. -/
def adjustHost (id : MachineId) (change : HostData → HostData) : Gossip Hash :=
  { gossip with
    byHost := gossip.byHost.insert id (change ((gossip.byHost.lookup id).getD .empty)) }

/-- The hosts watch a path. This machine is not one of the hosts. -/
def watch (path : VPath) (ids : List MachineId) : Gossip Hash :=
  ids.foldl
    (fun gossip id =>
      if id = gossip.machineId then gossip
      else gossip.adjustHost id fun host => { host with watching := host.watching.insert path })
    gossip

/-- A packet for a machine, which hears what is known of its configuration. -/
def packetTo (id : MachineId) (message : Message Hash) : Packet Hash :=
  ⟨gossip.machineId, (gossip.configs.get id).map HostInfo.hash, message⟩

/-- The images of a peer that are complete go on to the clients, and the peer is told so. -/
def acknowledge (addr : SocketAddr) (id : MachineId) (complete : List (VPath × ImageId)) :
    List (Sent Hash) :=
  match gossip.peers.lookup id with
  | some peer => complete.flatMap fun entry =>
      [.forwarded entry.2 entry.1 peer, .packet addr (gossip.packetTo id (.completeAck entry.1))]
  | none => []

/-- The message of a packet that is read. -/
def readMessage (forObject : PathSet → Hash) (addr : SocketAddr) (id : MachineId) :
    Message Hash → Run (List (Sent Hash) × Gossip Hash)
  | .baseDirs inProgress watching complete deleted baseDirs => do
      let around ← baseDirs.entries.foldlM
        (fun around entry => around.reconcileDir gossip.config entry.1 entry.2 addr id) gossip.around
      let around := around.checkWatched gossip.config watching.paths
      let byHost :=
        if inProgress.entries = [] ∧ deleted = ∅ ∧ watching.paths = [] ∧ complete.entries = [] then
          gossip.byHost.erase id
        else gossip.byHost.insert id ⟨inProgress.table, complete.table, watching, deleted⟩
      return (gossip.acknowledge addr id complete.entries,
        { gossip with around := around, byHost := byHost })
  | .downloading path image mask source watches =>
      let host := gossip.adjustHost id fun host =>
        { host with
          downloading := host.downloading.insert path.place ⟨image, mask, source, false⟩ }
      let around := gossip.around.checkWatched gossip.config [path]
      return ([], { host with around := around }.watch path watches)
  | .reconcile path hash watches => do
      let around ← gossip.around.reconcileDir gossip.config path hash addr id
      return ([], watches.entries.foldl (fun gossip entry => gossip.watch entry.1 entry.2)
        { gossip with around := around })
  | .complete path image =>
      return (gossip.acknowledge addr id [(path, image)], gossip.adjustHost id fun host =>
        { host with
          downloading := host.downloading.erase path.place
          complete := host.complete.insert path.place image })
  | .completeAck path =>
      match gossip.byHost.lookup id with
      | some host =>
          let host := { host with watching := host.watching.remove path }
          return ([], { gossip with byHost := gossip.byHost.insert id host })
      | none => return ([], gossip)
  | .configSync paths => do
      let configs ← gossip.configs.set forObject id paths
      return ([], { gossip with configs := configs })

/-- A peer whose address was read from a file has told its id. -/
def meet (addr : SocketAddr) (id : MachineId) : Gossip Hash :=
  match gossip.futurePeers.lookup addr with
  | some name => { gossip with
      futurePeers := gossip.futurePeers.erase addr
      peers := gossip.peers.insert id ⟨id, addr, name, name⟩ }
  | none => gossip

/-- `Gossip::read_messages`, for one packet that was decoded. -/
def readPacket (forObject : PathSet → Hash) (addr : SocketAddr) (packet : Packet Hash) :
    Run (List (Sent Hash) × Gossip Hash) :=
  if packet.machineId = gossip.machineId then return ([], gossip)
  else do
    let gossip := gossip.meet addr packet.machineId
    let config :=
      if packet.yourConfig = some gossip.configHash then []
      else [.packet addr (gossip.packetTo packet.machineId (.configSync gossip.configList))]
    let (sent, gossip) ← gossip.readMessage forObject addr packet.machineId packet.message
    return (config ++ sent, gossip)

/-- The closure `add_peer` of `dest_for_packet`. -/
def addPeer (sorted : List MachineId) (idx : Nat) (peers : Map SocketAddr MachineId) :
    Run (Map SocketAddr MachineId) := do
  let id ← Run.expect sorted[idx % sorted.length]? "index out of bounds"
  match gossip.peers.lookup id with
  | some peer => return peers.insert peer.addr id
  | none => return peers

/-- The peers that have a configuration: the next one in the ring and some others. -/
def addConfigured (choice : Choice) (ids : Finset MachineId)
    (peers : Map SocketAddr MachineId) : Run (Map SocketAddr MachineId) :=
  let sorted := sortIds ids
  if 1 < sorted.length then do
    let myIdx := (sorted.findIdx? fun id => !decide (IdLe id gossip.machineId)).getD 0
    let peers ← gossip.addPeer sorted myIdx peers
    (List.range (packetsAtOnce - 1)).foldlM
      (fun peers i => do
        let random ← genRange 1 sorted.length (choice.random i)
        gossip.addPeer sorted ((myIdx + random) % 2 ^ 64) peers)
      peers
  else return peers

/-- Add a peer under its address. -/
def addKnown (peers : Map SocketAddr MachineId) (id : MachineId) : Map SocketAddr MachineId :=
  match gossip.peers.lookup id with
  | some peer => peers.insert peer.addr id
  | none => peers

/-- Where a message about a path goes: to who waits for it, and to who has the directory. -/
def destForPath (choice : Choice) (path : VPath) : Run (Map SocketAddr MachineId) := do
  let watchers := choice.hosts.filter fun id =>
    (gossip.byHost.lookup id).any fun host => decide (host.watching.Contains path.place)
  let peers := watchers.foldl gossip.addKnown ∅
  let base ← path.keyVpath
  let peers ← match gossip.configs.byDir base with
    | some ids => gossip.addConfigured choice ids peers
    | none => pure peers
  if peers.keys.card < packetsAtOnce then return choice.sample.foldl gossip.addKnown peers
  else return peers

/-- Where a message goes. -/
def destForPacket (choice : Choice) : Message Hash → Run (Map SocketAddr MachineId)
  | .baseDirs _ _ _ _ _ => .error .unreachable
  | .configSync _ => .error .unreachable
  | .completeAck _ => .error .unreachable
  | .reconcile path _ _ => gossip.destForPath choice path
  | .downloading path _ _ _ _ => gossip.destForPath choice path
  | .complete path _ => gossip.destForPath choice path

/-- A machine watches these paths: those right below the path of a message go with it. -/
def fillWatches (path : VPath) (id : MachineId) (paths : List VPath)
    (watches : PathMap (List MachineId)) : Run (PathMap (List MachineId)) :=
  paths.foldlM
    (fun watches watched => do
      let parent ← watched.parent
      return if parent.place = path.place then watches.adjust watched [] (List.insert id) else watches)
    watches

/-- What a host watches. -/
def watchingOf (id : MachineId) : List VPath :=
  ((gossip.byHost.lookup id).map fun host => host.watching.paths).getD []

/-- `fill_msg`: who waits for the path is added when the message goes out. -/
def fillMsg (hosts : List MachineId) : Message Hash → Run (Message Hash)
  | .reconcile path hash watches => do
      let watches ← hosts.foldlM
        (fun watches id => fillWatches path id (gossip.watchingOf id) watches) watches
      let watches ← fillWatches path gossip.machineId gossip.around.getWatching.paths watches
      return .reconcile path hash watches
  | .downloading path image mask source watches =>
      let watchers := hosts.filter fun id =>
        (gossip.byHost.lookup id).any fun host => decide (host.watching.Contains path.place)
      let watches := watchers.foldl (fun watches id => watches.insert id) watches
      let watches :=
        if gossip.around.getWatching.Contains path.place then watches.insert gossip.machineId
        else watches
      return .downloading path image mask source watches
  | message => return message

end Gossip

/-- The messages that are put into the queue. -/
def Message.Sendable {Hash : Type} : Message Hash → Prop
  | .reconcile _ _ _ => True
  | .downloading _ _ _ _ _ => True
  | .complete _ _ => True
  | _ => False

/-- The random choices fit the tables. -/
def Choice.Fits {Hash : Type} (choice : Choice) (gossip : Gossip Hash) : Prop :=
  choice.hosts.Nodup ∧ choice.hosts.toFinset = gossip.byHost.keys ∧ choice.sample.Nodup ∧
    choice.sample.toFinset ⊆ gossip.peers.keys ∧
    choice.sample.length = min packetsAtOnce gossip.peers.keys.card

instance {Hash : Type} (choice : Choice) (gossip : Gossip Hash) : Decidable (choice.Fits gossip) :=
  inferInstanceAs (Decidable (_ ∧ _))

/-- `GossipOp`: what happens at the gossip of a machine. -/
inductive GossipOp (Hash : Type) where
  | receive (addr : SocketAddr) (packet : Packet Hash)
  /-- `Gossip::write_messages`, for one message. -/
  | write (choice : Choice)
  | notifyProgress (path : VPath) (image : ImageId) (mask : Mask) (source : Bool)
  | notifyBasedir (path : VPath) (hash : Hash)
  | notifyComplete (path : VPath) (image : ImageId)
  | connect (id : Nat)
  /-- A client uploads to a path, and waits for it from now on. -/
  | addWatch (id : Nat) (path : VPath)
  | disconnect (id : Nat)
  /-- `fetch_dir::start`. -/
  | startDownload (path : VPath)
  | endDownload (path : VPath)
  /-- The other tables of the tracking subsystem change. -/
  | track (baseDirs : Map (List Component) (Finset Hash))
      (reconciling : Map (List Component × Hash) (Finset (SocketAddr × MachineId)))
      (watched : Finset (List Component))
  /-- The list of the peers is fetched. -/
  | refresh (peers : Map MachineId Peer)

/-- What comes of an operation. -/
inductive Outcome (Hash : Type) where
  | read (sent : List (Sent Hash))
  | written (peers : Map SocketAddr MachineId) (message : Message Hash)
  | changed

namespace Gossip

variable {Hash : Type} [DecidableEq Hash] (gossip : Gossip Hash)

/-- The first message of the queue, with whom it goes to. -/
def writeMessage (choice : Choice) (message : Message Hash) (rest : List (Message Hash)) :
    Run (Outcome Hash × Gossip Hash) := do
  let peers ← gossip.destForPacket choice message
  let filled ← gossip.fillMsg choice.hosts message
  return (.written peers filled, { gossip with messages := rest })

/-- Operations that only change the tables. -/
def change : GossipOp Hash → Option (Gossip Hash)
  | .receive _ _ => none
  | .write _ => none
  | .notifyProgress path image mask source => some { gossip with
      messages := gossip.messages ++ [.downloading path image mask source []] }
  | .notifyBasedir path hash => some { gossip with
      messages := gossip.messages ++ [.reconcile path hash .empty] }
  | .notifyComplete path image => some { gossip with
      messages := gossip.messages ++ [.complete path image] }
  | .connect id => some { gossip with around := { gossip.around with
      incoming := (id, .empty) :: gossip.around.incoming } }
  | .addWatch id path => some { gossip with around := { gossip.around with
      incoming := gossip.around.incoming.map fun connection =>
        if connection.1 = id then (connection.1, connection.2.insert path) else connection } }
  | .disconnect id => some { gossip with around := { gossip.around with
      incoming := gossip.around.incoming.filter fun connection => connection.1 ≠ id } }
  | .startDownload path =>
      -- the metadata has accepted the upload
      if gossip.config.isValidDestination path = true then
        some { gossip with around := { gossip.around with
          inProgress := gossip.around.inProgress.insert path } }
      else none
  | .endDownload path => some { gossip with around := { gossip.around with
      inProgress := gossip.around.inProgress.remove path } }
  | .track baseDirs reconciling watched => some { gossip with around := { gossip.around with
      baseDirs := baseDirs, reconciling := reconciling, watched := watched } }
  | .refresh peers => some { gossip with peers := peers }

/-- A panic ends the task; what the tables are then does not matter. -/
def settle (run : Run (Outcome Hash × Gossip Hash)) : Run (Outcome Hash) × Gossip Hash :=
  match run with
  | .ok (outcome, next) => (.ok outcome, next)
  | .error panic => (.error panic, gossip)

/-- One step of gossip. -/
def exec (forObject : PathSet → Hash) : GossipOp Hash → Option (Run (Outcome Hash) × Gossip Hash)
  | .receive addr packet => some (gossip.settle do
      let (sent, next) ← gossip.readPacket forObject addr packet
      return (.read sent, next))
  | .write choice =>
      match gossip.messages with
      | [] => none
      | message :: rest =>
          if choice.Fits gossip then some (gossip.settle (gossip.writeMessage choice message rest))
          else none
  | op => do
      let next ← gossip.change op
      return (.ok .changed, next)

end Gossip

/-- Gossip as a machine. -/
def gossipMachine {Hash : Type} [DecidableEq Hash] (forObject : PathSet → Hash) :
    Machine (Gossip Hash) (GossipOp Hash) (Run (Outcome Hash)) where
  exec gossip op := gossip.exec forObject op

/-- A step of gossip. -/
abbrev GossipEvent (Hash : Type) := Transition (Gossip Hash) (GossipOp Hash) (Run (Outcome Hash))

/-- Somebody waits for the path. -/
def Gossip.Watches {Hash : Type} (gossip : Gossip Hash) (path : VPath) : Prop :=
  (∃ id host, gossip.byHost.lookup id = some host ∧ path ∈ host.watching.paths) ∨
    ∃ connection ∈ gossip.around.incoming, path ∈ connection.2.paths

/-- A machine that is not this one waits for the path, as the message says. -/
def Message.Brings {Hash : Type} (own : MachineId) (path : VPath) : Message Hash → Prop
  | .baseDirs _ watching _ _ _ => path ∈ watching.paths
  | .downloading there _ _ _ watches => path = there ∧ ∃ id ∈ watches, id ≠ own
  | .reconcile _ _ watches => ∃ ids, (path, ids) ∈ watches.entries ∧ ∃ id ∈ ids, id ≠ own
  | _ => False

/-- When the news of a base directory goes out, no path that somebody waits for is a key
alone. -/
def SendsDeep {Hash : Type} (event : GossipEvent Hash) : Prop :=
  ∀ choice path hash watches rest, event.op = .write choice →
    event.before.messages = .reconcile path hash watches :: rest →
      ∀ watched, event.before.Watches watched → 0 < watched.level

/-- Nobody says that a machine waits for a key alone. -/
def BringsDeep {Hash : Type} (event : GossipEvent Hash) : Prop :=
  (∀ addr packet, event.op = .receive addr packet → packet.machineId ≠ event.before.machineId →
      ∀ path, packet.message.Brings event.before.machineId path → 0 < path.level) ∧
    ∀ id path, event.op = .addWatch id path → 0 < path.level

end Peers

end Ciruela
