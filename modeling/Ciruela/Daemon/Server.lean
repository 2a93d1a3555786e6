import Ciruela.Daemon.Metadata.Scan
import Ciruela.Daemon.Peers.Gossip
import Ciruela.Daemon.Remote.Connections
import Ciruela.Daemon.Tracking.Cells
import Ciruela.Daemon.Tracking.Watched
import Ciruela.Foundation.Network
import Ciruela.Proto.Message

/-!
# The server

A server is the tracking subsystem, the connections of its clients and the gossip with its
peers. They meet in what is told. Clients that wait for an image are told when it is complete,
and what a peer says to be complete goes on to them. The peers are told of every download that
moves on, of every image that is committed, and of every lookup that has ended well when the
watched paths are polled; and at times they are sent all the tables: what is in progress,
complete, watched and deleted here.

The base directories and what is being reconciled are tables of the gossip alone and may be any
at any time.
-/

namespace Ciruela

open Foundation

open Remote (SocketAddr)
open Peers (Gossip GossipOp Packet PathSet Peer Choice Sent)
open Proto (Notification)

/-- A server, with all that its parts tell each other. -/
structure Server (Hash : Type) where
  hostname : List Char
  node : Tracking.Node
  /-- The cells of the downloads that were started, by their tasks. -/
  cells : Map Nat Tracking.Cells
  /-- `recently_deleted`, without the times. -/
  deleted : Finset (List Component × ImageId)
  /-- What the cleanup has read in the state files. -/
  scanned : List (VPath × ImageId)
  connections : Remote.Connections
  gossip : Gossip Hash
  /-- What was put into the channel of each connection, oldest first. -/
  outbox : Nat → List Notification

/-- What clients are told about. -/
inductive News where
  /-- `Subsystem::dir_committed`. -/
  | committed (path : VPath) (image : ImageId)
  /-- An upload of an image that is in its place. -/
  | alreadyDone (path : VPath) (image : ImageId)
  /-- `Subsystem::dir_aborted`. -/
  | aborted (path : VPath) (image : ImageId) (reason : List Char)
  /-- A peer says that an image is complete. -/
  | forwarded (path : VPath) (image : ImageId) (peer : Peer)

namespace News

/-- The path that the news are about. -/
def path : News → VPath
  | committed path _ => path
  | alreadyDone path _ => path
  | aborted path _ _ => path
  | forwarded path _ _ => path

/-- The image that the news are about. -/
def image : News → ImageId
  | committed _ image => image
  | alreadyDone _ image => image
  | aborted _ image _ => image
  | forwarded _ image _ => image

/-- Whether a client that has uploaded to the path is told, without having the image. -/
def toWatchers : News → Bool
  | aborted _ _ _ => false
  | _ => true

/-- The call of `Peers::notify_complete` in `dir_committed`. -/
def messages {Hash : Type} : News → List (Peers.Message Hash)
  | committed path image => [.complete path image]
  | _ => []

/-- What comes of the answer of a closure. -/
def ofEffect : Tracking.Effect → Option News
  | .notifyReceivedImage image path => some (.alreadyDone path image)
  | _ => none

/-- What a step of the tracking subsystem lets clients know. -/
def ofNode (config : Config) (node : Tracking.Node) (reason : List Char) : Tracking.NodeOp → List News
  | .proceed task peers =>
      match node.tasks.lookup task with
      | some (.answered op answer) =>
          match Tracking.proceed config peers op answer with
          | .ok effects => effects.filterMap ofEffect
          | .error _ => []
      | _ => []
  | .finished task =>
      match node.tasks.lookup task with
      | some (.finished path image true) => [.committed path image]
      | some (.finished path image false) => [.aborted path image reason]
      | _ => []
  | _ => []

/-- What is forwarded to clients while a packet is read. -/
def ofSent {Hash : Type} : Sent Hash → Option News
  | .forwarded image path peer => some (.forwarded path image peer)
  | .packet _ _ => none

end News

namespace Server

variable {Hash : Type} (server : Server Hash)

/-- `Connection::has_watch`, for an incoming connection. -/
def hasWatch (id : Nat) (place : List Component) : Prop :=
  ∃ connection ∈ server.gossip.around.incoming, connection.1 = id ∧ connection.2.Contains place

instance (id : Nat) (place : List Component) : Decidable (server.hasWatch id place) :=
  inferInstanceAs (Decidable (∃ connection ∈ _, _))

/-- The connection is told the news. -/
def Tells (id : Nat) (news : News) : Prop :=
  id ∈ server.connections.incoming ∧ (news.image ∈ server.connections.imagesOf id ∨
    news.toWatchers = true ∧ server.hasWatch id news.path.place)

instance (id : Nat) (news : News) : Decidable (server.Tells id news) :=
  inferInstanceAs (Decidable (_ ∧ _))

/-- The notification that carries the news. -/
def notice : News → Notification
  | .committed path image =>
      .receivedImage ⟨image, path, server.gossip.machineId, server.hostname, false⟩
  | .alreadyDone path image =>
      .receivedImage ⟨image, path, server.gossip.machineId, server.hostname, false⟩
  | .aborted path image reason =>
      .abortedImage ⟨image, path, server.gossip.machineId, server.hostname, false, reason⟩
  | .forwarded path image peer => .receivedImage ⟨image, path, peer.id, peer.hostname, true⟩

/-- `Remote::_received_image` and `Remote::notify_aborted_image`. -/
def tell (news : News) : Server Hash :=
  { server with outbox := fun id =>
      if server.Tells id news then server.outbox id ++ [server.notice news] else server.outbox id }

/-- The clients are told, and the peers will be. -/
def announce (news : News) : Server Hash :=
  { server.tell news with gossip := { server.gossip with
      messages := server.gossip.messages ++ news.messages } }

/-- The news of a step, one after another. -/
def announceAll (news : List News) : Server Hash := news.foldl announce server

/-- Put messages for the peers into the queue of the gossip. -/
def queue (messages : List (Peers.Message Hash)) : Server Hash :=
  { server with gossip := { server.gossip with messages := server.gossip.messages ++ messages } }

/-- The message of `Peers::notify_progress`. -/
def progressMessage (path : VPath) (image : ImageId) (mask : Mask) : Peers.Message Hash :=
  .downloading path image mask (server.connections.hasImageSource image) []

/-- The cells of the downloads after a step of the tracking subsystem. -/
def cellsAfter : Tracking.NodeOp → Map Nat Tracking.Cells
  | .start task => server.cells.insert task .new
  | _ => server.cells

/-- `recently_deleted` after a step of the tracking subsystem. -/
def deletedAfter : Tracking.NodeOp → Finset (List Component × ImageId)
  | .start task =>
      match server.node.tasks.lookup task with
      | some (.fetch path image) => server.deleted.erase (path.place, image)
      | _ => server.deleted
  | .finished task =>
      match server.node.tasks.lookup task with
      -- `dir_aborted`
      | some (.finished path image false) => insert (path.place, image) server.deleted
      | _ => server.deleted
  | _ => server.deleted

/-- The messages of `poll_watched`, for the lookups that were ready. -/
def readyMessages (found : List (VPath × ImageId)) : List (Peers.Message Hash) :=
  found.map fun entry => .complete entry.1 entry.2

/-- What a step of the tracking subsystem tells the peers, beside the news. -/
def messagesOf : Tracking.NodeOp → List (VPath × ImageId) → List (Peers.Message Hash)
  | .start task, _ =>
      match server.node.tasks.lookup task with
      | some (.fetch path image) => [server.progressMessage path image Tracking.Cells.new.mask]
      | _ => []
  | _, found => readyMessages found

/-- What a download has told of itself, or would now. -/
def progressOf (task : Nat) : Option (VPath × Peers.Downloading) := do
  let (path, image) ← server.node.download task
  let cells ← server.cells.lookup task
  return (path, ⟨image, cells.mask, server.connections.hasImageSource image, cells.stalled⟩)

/-- The table is that of `Tracking::get_in_progress`. -/
def InProgress (inProgress : PathMap Peers.Downloading) : Prop :=
  (∀ entry ∈ inProgress.entries,
    server.node.inProgress.lookup entry.1.place = some entry.2.image ∧
      ∃ task ∈ server.node.tasks.keys, server.progressOf task = some entry) ∧
    ∀ place ∈ server.node.inProgress.keys, (inProgress.lookup place).isSome = true

instance (inProgress : PathMap Peers.Downloading) : Decidable (server.InProgress inProgress) :=
  inferInstanceAs (Decidable (_ ∧ _))

end Server

/-- What `all_states` reads of an image: `x.new.state`, or `x.state`. -/
def Metadata.Meta.stateOf (io : Metadata.Io) (path : VPath) (isNew : Bool) (store : Metadata.Meta) :
    Run Metadata.Look := do
  match ← store.openParent io path with
  | .error _ => return .nothing
  | .ok dir => do
      let name ← path.finalName
      return Metadata.look io (store.signatures.files dir)
        (if isNew then Metadata.newStateFile name else Metadata.stateFile name)

/-- What becomes of a server. -/
inductive ServerOp (Hash : Type) where
  /-- A step of the tracking subsystem. The reason is that of an abort, and the lookups that a
  poll finds to be ready are in the order of the hash table. -/
  | track (op : Tracking.NodeOp) (reason : List Char) (found : List (VPath × ImageId))
  /-- A download moves on. -/
  | progress (task : Nat) (op : Tracking.CellOp)
  /-- A scan of the cleanup reads a state file. -/
  | scan (io : Metadata.Io) (path : VPath) (isNew : Bool)
  /-- `Subsystem::dir_deleted`: the cleanup sets out to remove an image that was scanned. -/
  | dirDeleted (path : VPath) (image : ImageId)
  /-- Deletions are long ago. -/
  | forget (gone : Finset (List Component × ImageId))
  | connect (op : Remote.Op)
  /-- `Dispatcher::frame` gets an upload and notes its path. -/
  | upload (id : Nat) (path : VPath)
  | receive (addr : SocketAddr) (packet : Packet Hash)
  /-- `Gossip::write_messages`, for one message. -/
  | write (choice : Choice)
  /-- `Gossip::send_gossip`, with the tables that are read for it. -/
  | sendGossip (addr : SocketAddr) (id : Option MachineId)
      (inProgress : PathMap Peers.Downloading) (baseDirs : PathMap Hash)
      (found : List (VPath × ImageId))
  /-- The other tables and messages of the gossip change. -/
  | change (op : GossipOp Hash)

namespace Peers

/-- The operations of gossip that no other part of the server is told about. -/
def GossipOp.free {Hash : Type} : GossipOp Hash → Bool
  | .notifyBasedir _ _ => true
  | .startDownload _ => true
  | .endDownload _ => true
  | .track _ _ _ => true
  | .refresh _ => true
  | _ => false

/-- What opening and closing connections does to those that gossip sees. -/
def Gossip.follow {Hash : Type} (gossip : Gossip Hash) (made : Nat) : Remote.Op → Gossip Hash
  | .accept _ => { gossip with around := { gossip.around with
      incoming := (made, .empty) :: gossip.around.incoming } }
  | .drop id _ _ => { gossip with around := { gossip.around with
      incoming := gossip.around.incoming.filter fun connection => connection.1 ≠ id } }
  | _ => gossip

/-- `Connection::add_watch`. -/
def Gossip.addWatch {Hash : Type} (gossip : Gossip Hash) (id : Nat) (path : VPath) : Gossip Hash :=
  { gossip with around := { gossip.around with
      incoming := gossip.around.incoming.map fun connection =>
        if connection.1 = id then (connection.1, connection.2.insert path) else connection } }

/-- The packets that an outcome sends. -/
def Outcome.packets {Hash : Type} (gossip : Gossip Hash) :
    Outcome Hash → Multiset (SocketAddr × Packet Hash)
  | .read sent => ↑(sent.filterMap fun
      | .packet addr packet => some (addr, packet)
      | .forwarded _ _ _ => none)
  | .written peers message =>
      peers.entries.map fun entry => (entry.1, gossip.packetTo entry.2 message)
  | .changed => 0

/-- What an outcome says to clients. -/
def Outcome.news {Hash : Type} : Outcome Hash → List News
  | .read sent => sent.filterMap News.ofSent
  | _ => []

end Peers

namespace Server

variable {Hash : Type} [DecidableEq Hash] (server : Server Hash)

/-- A step of the gossip, with what is forwarded and what is sent. -/
def settle : Run (Peers.Outcome Hash) × Gossip Hash →
    Multiset (SocketAddr × Packet Hash) × Server Hash
  | (.ok outcome, gossip) =>
      (outcome.packets gossip, { server.announceAll outcome.news with gossip := gossip })
  | (.error _, gossip) => (0, { server with gossip := gossip })

/-- The step polls the watched paths and finds these lookups to be ready. -/
def Polls (op : Tracking.NodeOp) (found : List (VPath × ImageId)) : Prop :=
  found.Perm (if op.polls then server.node.found else [])

instance (op : Tracking.NodeOp) (found : List (VPath × ImageId)) : Decidable (server.Polls op found) :=
  inferInstanceAs (Decidable (List.Perm _ _))

/-- What `Gossip::send_gossip` sends. -/
def gossipPacket (id : Option MachineId) (inProgress : PathMap Peers.Downloading)
    (baseDirs : PathMap Hash) : Packet Hash where
  machineId := server.gossip.machineId
  yourConfig := id.bind fun id => (server.gossip.configs.get id).map Peers.HostInfo.hash
  message := .baseDirs inProgress server.gossip.around.getWatching server.node.complete
    server.deleted baseDirs

/-- One step of the server. -/
def exec (env : Metadata.Env) (forObject : PathSet → Hash) :
    ServerOp Hash → Option (Multiset (SocketAddr × Packet Hash) × Server Hash)
  | .track op reason found => do
      let node ← server.node.exec env op
      if server.Polls op found then
        let after := { server with
          node := node
          cells := server.cellsAfter op
          deleted := server.deletedAfter op }
        some (0, (after.queue (server.messagesOf op found)).announceAll
          (News.ofNode env.config server.node reason op))
      else none
  | .progress task op =>
      match server.node.tasks.lookup task with
      | some (.downloading path image) => do
          let cells ← (← server.cells.lookup task).exec op
          return (0, { server with cells := server.cells.insert task cells }.queue
            (if op.tells then [server.progressMessage path image cells.mask] else []))
      | _ => none
  | .scan io path isNew =>
      match server.node.store.stateOf io path isNew with
      | .ok (.stored state) =>
          some (0, { server with scanned := (path, state.image) :: server.scanned })
      | _ => none
  | .dirDeleted path image =>
      if (path, image) ∈ server.scanned then
        some (0, { server with deleted := insert (path.place, image) server.deleted })
      else none
  | .forget gone => some (0, { server with deleted := server.deleted \ gone })
  | .connect op => do
      let connections ← server.connections.exec op
      return (0, { server with
        connections := connections
        gossip := server.gossip.follow server.connections.made.length op })
  | .upload id path => do
      let connection ← server.connections.made[id]?
      if id ∈ server.connections.live ∧ connection.connected = true then
        some (0, { server with gossip := server.gossip.addWatch id path })
      else none
  | .receive addr packet =>
      (server.gossip.exec forObject (.receive addr packet)).map server.settle
  | .write choice => (server.gossip.exec forObject (.write choice)).map server.settle
  | .sendGossip addr id inProgress baseDirs found =>
      if server.InProgress inProgress ∧ server.Polls .getComplete found then
        some ({(addr, server.gossipPacket id inProgress baseDirs)},
          { server with node := { server.node with
              watched := Tracking.pollWatched server.node.watched } }.queue (readyMessages found))
      else none
  | .change op => do
      if op.free = true then
        let gossip ← server.gossip.change op
        return (0, { server with gossip := gossip })
      else none

/-- What clients are told about in a step. -/
def newsOf (env : Metadata.Env) (forObject : PathSet → Hash) : ServerOp Hash → List News
  | .track op reason _ => News.ofNode env.config server.node reason op
  | .receive addr packet =>
      match server.gossip.readPacket forObject addr packet with
      | .ok (sent, _) => sent.filterMap News.ofSent
      | .error _ => []
  | _ => []

end Server

/-- The steps of a server in any order. -/
def serverMachine {Hash : Type} [DecidableEq Hash] (env : Metadata.Env) (forObject : PathSet → Hash) :
    Machine (Server Hash) (ServerOp Hash) (Multiset (SocketAddr × Packet Hash)) where
  exec server op := server.exec env forObject op

/-- A step of the server. -/
abbrev ServerEvent (Hash : Type) :=
  Transition (Server Hash) (ServerOp Hash) (Multiset (SocketAddr × Packet Hash))

/-- What the steps of a server do. -/
inductive ServerStep {Hash : Type} [DecidableEq Hash] (env : Metadata.Env)
    (forObject : PathSet → Hash) (server : Server Hash) :
    ServerOp Hash → Multiset (SocketAddr × Packet Hash) → Server Hash → Prop where
  | track {op : Tracking.NodeOp} {reason : List Char} {found : List (VPath × ImageId)}
      {node : Tracking.Node} (moved : server.node.exec env op = some node)
      (polls : server.Polls op found) :
      ServerStep env forObject server (.track op reason found) 0
        (({ server with
          node := node
          cells := server.cellsAfter op
          deleted := server.deletedAfter op }.queue (server.messagesOf op found)).announceAll
            (News.ofNode env.config server.node reason op))
  | progress {task : Nat} {op : Tracking.CellOp} {path : VPath} {image : ImageId}
      {before cells : Tracking.Cells} (running :
        server.node.tasks.lookup task = some (.downloading path image))
      (there : server.cells.lookup task = some before) (moved : before.exec op = some cells) :
      ServerStep env forObject server (.progress task op) 0
        ({ server with cells := server.cells.insert task cells }.queue
          (if op.tells then [server.progressMessage path image cells.mask] else []))
  | scan {io : Metadata.Io} {path : VPath} {isNew : Bool} {state : State}
      (read : server.node.store.stateOf io path isNew = .ok (.stored state)) :
      ServerStep env forObject server (.scan io path isNew) 0
        { server with scanned := (path, state.image) :: server.scanned }
  | dirDeleted {path : VPath} {image : ImageId} (known : (path, image) ∈ server.scanned) :
      ServerStep env forObject server (.dirDeleted path image) 0
        { server with deleted := insert (path.place, image) server.deleted }
  | forget {gone : Finset (List Component × ImageId)} :
      ServerStep env forObject server (.forget gone) 0
        { server with deleted := server.deleted \ gone }
  | connect {op : Remote.Op} {connections : Remote.Connections}
      (moved : server.connections.exec op = some connections) :
      ServerStep env forObject server (.connect op) 0 { server with
        connections := connections
        gossip := server.gossip.follow server.connections.made.length op }
  | upload {id : Nat} {path : VPath} {connection : Remote.Connection}
      (there : server.connections.made[id]? = some connection)
      (live : id ∈ server.connections.live) :
      ServerStep env forObject server (.upload id path) 0
        { server with gossip := server.gossip.addWatch id path }
  | heard {addr : SocketAddr} {packet : Packet Hash} {sent : List (Sent Hash)}
      {gossip : Gossip Hash} (ran : server.gossip.readPacket forObject addr packet = .ok (sent, gossip)) :
      ServerStep env forObject server (.receive addr packet)
        ((Peers.Outcome.read sent).packets gossip)
        { server.announceAll (sent.filterMap News.ofSent) with gossip := gossip }
  | deaf {addr : SocketAddr} {packet : Packet Hash} {panic : Panic}
      (ran : server.gossip.readPacket forObject addr packet = .error panic) :
      ServerStep env forObject server (.receive addr packet) 0 server
  | wrote {choice : Choice} {message filled : Peers.Message Hash} {rest : List (Peers.Message Hash)}
      {peers : Map SocketAddr MachineId} (isFirst : server.gossip.messages = message :: rest)
      (ran : server.gossip.fillMsg choice.hosts message = .ok filled) :
      ServerStep env forObject server (.write choice)
        ((Peers.Outcome.written peers filled).packets { server.gossip with messages := rest })
        { server with gossip := { server.gossip with messages := rest } }
  | unwritten {choice : Choice} : ServerStep env forObject server (.write choice) 0 server
  | sendGossip {addr : SocketAddr} {id : Option MachineId} {inProgress : PathMap Peers.Downloading}
      {baseDirs : PathMap Hash} {found : List (VPath × ImageId)}
      (shows : server.InProgress inProgress) (polls : server.Polls .getComplete found) :
      ServerStep env forObject server (.sendGossip addr id inProgress baseDirs found)
        {(addr, server.gossipPacket id inProgress baseDirs)}
        ({ server with node := { server.node with
            watched := Tracking.pollWatched server.node.watched } }.queue
          (Server.readyMessages found))
  | change {op : GossipOp Hash} {gossip : Gossip Hash} (free : op.free = true)
      (changes : server.gossip.change op = some gossip) :
      ServerStep env forObject server (.change op) 0 { server with gossip := gossip }

section Steps

variable {Hash : Type} {server : Server Hash} {news : List News}

@[simp] theorem node_queue (server : Server Hash) (messages : List (Peers.Message Hash)) :
    (server.queue messages).node = server.node := rfl

@[simp] theorem connections_queue (server : Server Hash) (messages : List (Peers.Message Hash)) :
    (server.queue messages).connections = server.connections := rfl

@[simp] theorem outbox_queue (server : Server Hash) (messages : List (Peers.Message Hash)) :
    (server.queue messages).outbox = server.outbox := rfl

@[simp] theorem gossip_queue (server : Server Hash) (messages : List (Peers.Message Hash)) :
    (server.queue messages).gossip = { server.gossip with
      messages := server.gossip.messages ++ messages } := rfl

/-- What is left of a server when all the news is out. -/
theorem announceAll_eq (server : Server Hash) (news : List News) :
    server.announceAll news = { server with
      gossip := { server.gossip with messages := server.gossip.messages ++ news.flatMap News.messages }
      outbox := fun id => server.outbox id ++
        (news.filter fun item => server.Tells id item).map server.notice } := by
  unfold Server.announceAll
  induction news generalizing server with
  | nil => simp
  | cons item rest ih =>
      rw [List.foldl_cons, ih]
      have told (id : Nat) : (server.announce item).outbox id ++
            (rest.filter fun other => (server.announce item).Tells id other).map
              (server.announce item).notice =
          server.outbox id ++
            ((item :: rest).filter fun other => server.Tells id other).map server.notice := by
        show (if server.Tells id item then server.outbox id ++ [server.notice item]
            else server.outbox id) ++
          (rest.filter fun other => server.Tells id other).map server.notice = _
        by_cases tells : server.Tells id item
        · simp [tells]
        · simp [tells]
      rw [funext told, List.flatMap_cons, ← List.append_assoc]
      rfl

@[simp] theorem connections_announceAll (server : Server Hash) (news : List News) :
    (server.announceAll news).connections = server.connections := by
  rw [announceAll_eq]

@[simp] theorem node_announceAll (server : Server Hash) (news : List News) :
    (server.announceAll news).node = server.node := by
  rw [announceAll_eq]

@[simp] theorem cells_announceAll (server : Server Hash) (news : List News) :
    (server.announceAll news).cells = server.cells := by
  rw [announceAll_eq]

@[simp] theorem scanned_announceAll (server : Server Hash) (news : List News) :
    (server.announceAll news).scanned = server.scanned := by
  rw [announceAll_eq]

@[simp] theorem deleted_announceAll (server : Server Hash) (news : List News) :
    (server.announceAll news).deleted = server.deleted := by
  rw [announceAll_eq]

@[simp] theorem gossip_announceAll (server : Server Hash) (news : List News) :
    (server.announceAll news).gossip = { server.gossip with
      messages := server.gossip.messages ++ news.flatMap News.messages } := by
  rw [announceAll_eq]

@[simp] theorem outbox_announceAll (server : Server Hash) (news : List News) (id : Nat) :
    (server.announceAll news).outbox id = server.outbox id ++
      (news.filter fun item => server.Tells id item).map server.notice := by
  rw [announceAll_eq]

variable [DecidableEq Hash] {env : Metadata.Env} {forObject : PathSet → Hash}

/-- What an operation of the server does. -/
theorem serverStep_of_exec {op : ServerOp Hash} {sent : Multiset (SocketAddr × Packet Hash)}
    {next : Server Hash} (stepped : server.exec env forObject op = some (sent, next)) :
    ServerStep env forObject server op sent next := by
  cases op with
  | track op reason found =>
      obtain ⟨node, moved, done⟩ := Option.bind_eq_some_iff.mp stepped
      obtain ⟨polls, done⟩ := Option.ite_none_right_eq_some.mp done
      obtain ⟨rfl, rfl⟩ := Prod.mk.inj (Option.some.inj done)
      exact .track moved polls
  | progress task op =>
      rw [Server.exec] at stepped
      split at stepped
      · rename_i path image running
        obtain ⟨before, there, stepped⟩ := Option.bind_eq_some_iff.mp stepped
        obtain ⟨cells, moved, done⟩ := Option.bind_eq_some_iff.mp stepped
        obtain ⟨rfl, rfl⟩ := Prod.mk.inj (Option.some.inj done)
        exact .progress running there moved
      · cases stepped
  | scan io path isNew =>
      rw [Server.exec] at stepped
      split at stepped
      · rename_i state read
        obtain ⟨rfl, rfl⟩ := Prod.mk.inj (Option.some.inj stepped)
        exact .scan read
      · cases stepped
  | dirDeleted path image =>
      obtain ⟨known, done⟩ := Option.ite_none_right_eq_some.mp stepped
      obtain ⟨rfl, rfl⟩ := Prod.mk.inj (Option.some.inj done)
      exact .dirDeleted known
  | forget gone =>
      obtain ⟨rfl, rfl⟩ := Prod.mk.inj (Option.some.inj stepped)
      exact .forget
  | connect op =>
      obtain ⟨connections, moved, done⟩ := Option.bind_eq_some_iff.mp stepped
      obtain ⟨rfl, rfl⟩ := Prod.mk.inj (Option.some.inj done)
      exact .connect moved
  | upload id path =>
      obtain ⟨connection, there, done⟩ := Option.bind_eq_some_iff.mp stepped
      split at done
      · rename_i isOpen
        obtain ⟨rfl, rfl⟩ := Prod.mk.inj (Option.some.inj done)
        exact .upload there isOpen.1
      · cases done
  | receive addr packet =>
      rw [Server.exec] at stepped
      obtain ⟨settled, read, done⟩ := Option.map_eq_some_iff.mp stepped
      obtain rfl := Option.some.inj read
      cases ran : server.gossip.readPacket forObject addr packet with
      | ok result =>
          rw [ran] at done
          obtain ⟨rfl, rfl⟩ := Prod.mk.inj done
          exact .heard ran
      | error panic =>
          rw [ran] at done
          obtain ⟨rfl, rfl⟩ := Prod.mk.inj done
          exact .deaf ran
  | write choice =>
      rw [Server.exec] at stepped
      obtain ⟨settled, wrote, done⟩ := Option.map_eq_some_iff.mp stepped
      rw [Gossip.exec] at wrote
      split at wrote
      · cases wrote
      · rename_i message rest isFirst
        split at wrote
        · obtain rfl := Option.some.inj wrote
          cases ran : server.gossip.writeMessage choice message rest with
          | ok result =>
              rw [ran] at done
              obtain ⟨peers, _, ran⟩ := Run.bind_eq_ok_iff.mp ran
              obtain ⟨filled, fills, ran⟩ := Run.bind_eq_ok_iff.mp ran
              obtain rfl := Except.ok.inj ran
              obtain ⟨rfl, rfl⟩ := Prod.mk.inj done
              exact .wrote isFirst fills
          | error panic =>
              rw [ran] at done
              obtain ⟨rfl, rfl⟩ := Prod.mk.inj done
              exact .unwritten
        · cases wrote
  | sendGossip addr id inProgress baseDirs found =>
      obtain ⟨⟨shows, polls⟩, done⟩ := Option.ite_none_right_eq_some.mp stepped
      obtain ⟨rfl, rfl⟩ := Prod.mk.inj (Option.some.inj done)
      exact .sendGossip shows polls
  | change op =>
      rw [Server.exec] at stepped
      split at stepped
      · rename_i free
        obtain ⟨gossip, changes, done⟩ := Option.bind_eq_some_iff.mp stepped
        obtain ⟨rfl, rfl⟩ := Prod.mk.inj (Option.some.inj done)
        exact .change free changes
      · cases stepped

/-- What a step of the server does. -/
theorem serverStep_of_takes {event : ServerEvent Hash}
    (takes : (serverMachine env forObject).Takes event) :
    ServerStep env forObject event.before event.op event.answer event.after :=
  serverStep_of_exec takes

/-- What a step does to the tracking subsystem. The images that are complete are polled when
they are sent. -/
def nodeEvent (event : ServerEvent Hash) : Option Tracking.NodeEvent :=
  match event.op with
  | .track op _ _ => some ⟨event.before.node, op, (), event.after.node⟩
  | .sendGossip _ _ _ _ _ => some ⟨event.before.node, .getComplete, (), event.after.node⟩
  | _ => none

/-- The same step, as the connections see it. -/
def connectionEvent (event : ServerEvent Hash) : Option Remote.Event :=
  match event.op with
  | .connect op => some ⟨event.before.connections, op, (), event.after.connections⟩
  | _ => none

/-- The connections move by their own steps. -/
theorem shows_connections {event : ServerEvent Hash}
    (takes : (serverMachine env forObject).Takes event) :
    Remote.machine.Shows Server.connections event (connectionEvent event) := by
  obtain ⟨before, op, answer, after⟩ := event
  have stepped : ServerStep env forObject before op answer after := serverStep_of_takes takes
  cases stepped with
  | track => exact connections_announceAll _ _
  | connect moved =>
      refine ⟨?_, rfl, rfl⟩
      simp [Machine.Takes, Remote.machine, moved]
  | heard => exact connections_announceAll _ _
  | _ => rfl

end Steps

/-- A server before anything has happened, whatever its directories hold. -/
def Server.start {Hash : Type} (hostname : List Char) (signatures : Tree Metadata.Content)
    (indexes : Tree (List UInt8)) (gossip : Gossip Hash) : Server Hash :=
  ⟨hostname, .new signatures indexes, ∅, ∅, [], .new, gossip, fun _ => []⟩

end Ciruela
