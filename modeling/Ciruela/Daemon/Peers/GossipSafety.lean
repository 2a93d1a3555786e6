import Ciruela.Daemon.Metadata.Meta
import Ciruela.Daemon.Peers.Gossip

/-!
# When gossip panics

Reading a packet never panics, and neither does choosing whom a message goes to. What goes
out with the news of a base directory are the watched paths whose parent it is, and for that
every watched path is asked for its parent.
-/

namespace Ciruela

open Foundation

namespace Peers

open Remote (SocketAddr)

/-- Only a path with nothing but its key has no parent. -/
theorem returns_parent_iff {path : VPath} : path.parent.Returns ↔ 0 < path.level := by
  unfold VPath.parent
  split
  · rename_i deep
    simp [deep]
  · rename_i shallow
    simp [shallow]

/-- Paths at the same place have the same level. -/
theorem level_eq_of_place {path other : VPath} (same : path.place = other.place) :
    path.level = other.level := by
  rw [VPath.level, VPath.level, same]

section Around

variable {Hash : Type} {around : Around Hash}

/-- The downloads of a base directory can be counted where every download has a parent. -/
theorem returns_downloadingInBasedir (deep : ∀ path ∈ around.inProgress.paths, 0 < path.level)
    (base : VPath) : (around.downloadingInBasedir base).Returns := by
  have counted : ∃ count, around.downloadingInBasedir base = .ok count ∧ True := by
    refine Run.exists_foldlM (fun _ => True) trivial fun path member count _ => ?_
    obtain ⟨parent, isParent⟩ := returns_parent_iff.mpr (deep path member)
    simp only [matchesBasedir, isParent, Run.ok_bind]
    exact ⟨_, rfl, trivial⟩
  obtain ⟨count, counted, _⟩ := counted
  exact ⟨count, counted⟩

/-- What a check of watched paths leaves as it is. -/
theorem checkWatched_spec (around : Around Hash) (config : Config) (paths : List VPath) :
    (around.checkWatched config paths).inProgress = around.inProgress ∧
      (around.checkWatched config paths).incoming = around.incoming := by
  unfold Around.checkWatched
  induction paths generalizing around with
  | nil => exact ⟨rfl, rfl⟩
  | cons path rest ih =>
      rw [List.foldl_cons]
      obtain ⟨inProgress, incoming⟩ := ih _
      rw [inProgress, incoming]
      split
      · exact ⟨rfl, rfl⟩
      · exact ⟨rfl, rfl⟩

/-- What is waited for is waited for on some connection. -/
theorem mem_getWatching {path : VPath} (member : path ∈ around.getWatching.paths) :
    ∃ connection ∈ around.incoming, path ∈ connection.2.paths := by
  rcases PathSet.mem_foldl_insert member with watched | nothing
  · exact List.mem_flatMap.mp watched
  · cases nothing

/-- Every path that is watched on a connection is there, perhaps with another text. -/
theorem contains_getWatching {connection : Nat × PathSet} {path : VPath}
    (isIncoming : connection ∈ around.incoming) (member : path ∈ connection.2.paths) :
    around.getWatching.Contains path.place := by
  have listed : path ∈ around.incoming.flatMap fun connection => connection.2.paths :=
    List.mem_flatMap.mpr ⟨connection, isIncoming, member⟩
  exact PathSet.contains_foldl_insert.mpr (Or.inl ⟨path, listed, rfl⟩)

variable [DecidableEq Hash]

/-- A report about a base directory is taken or dropped, and changes nothing that later steps
rely on. -/
theorem exists_reconcileDir (deep : ∀ path ∈ around.inProgress.paths, 0 < path.level)
    (config : Config) (path : VPath) (hash : Hash) (addr : SocketAddr) (id : MachineId) :
    ∃ after, around.reconcileDir config path hash addr id = .ok after ∧
      after.inProgress = around.inProgress ∧ after.incoming = around.incoming := by
  unfold Around.reconcileDir
  split
  · exact ⟨around, rfl, rfl, rfl⟩
  split
  · exact ⟨around, rfl, rfl, rfl⟩
  split
  · dsimp only
    split
    · rename_i known
      obtain ⟨peers, found⟩ := Finmap.mem_iff.mp known
      rw [found]
      exact ⟨_, rfl, rfl, rfl⟩
    · obtain ⟨count, counted⟩ := returns_downloadingInBasedir deep path
      rw [counted, Run.ok_bind]
      split
      · exact ⟨around, rfl, rfl, rfl⟩
      · exact ⟨_, rfl, rfl, rfl⟩
  · exact ⟨around, rfl, rfl, rfl⟩

end Around

section Reading

variable {Hash : Type} {gossip : Gossip Hash} {path : VPath}

/-- A change of what is known about a host brings only what it puts into its paths. -/
theorem watches_adjustHost {id : MachineId} {change : HostData → HostData} (Brings : VPath → Prop)
    (watches : (gossip.adjustHost id change).Watches path)
    (changes : ∀ host, ∀ path ∈ (change host).watching.paths,
      path ∈ host.watching.paths ∨ Brings path) : gossip.Watches path ∨ Brings path := by
  obtain ⟨other, host, found, member⟩ | ⟨connection, isIncoming, member⟩ := watches
  · rw [Gossip.adjustHost, Map.lookup_insert_eq] at found
    split at found
    · obtain rfl := Option.some.inj found
      refine (changes _ path member).imp_left fun old => ?_
      cases known : gossip.byHost.lookup id with
      | none =>
          rw [known] at old
          cases old
      | some host =>
          rw [known] at old
          exact Or.inl ⟨id, host, known, old⟩
    · exact Or.inl (Or.inl ⟨other, host, found, member⟩)
  · exact Or.inl (Or.inr ⟨connection, isIncoming, member⟩)

theorem watches_of_adjustHost {id : MachineId} {change : HostData → HostData}
    (watches : (gossip.adjustHost id change).Watches path)
    (same : ∀ host, (change host).watching = host.watching) : gossip.Watches path := by
  refine (watches_adjustHost (fun _ => False) watches fun host path member => ?_).resolve_right
    not_false
  exact Or.inl (same host ▸ member)

/-- What `watch` changes: who waits, and nothing else. -/
theorem watch_spec (gossip : Gossip Hash) (there : VPath) (ids : List MachineId) :
    ∃ byHost, gossip.watch there ids = { gossip with byHost := byHost } ∧
      ∀ path, (gossip.watch there ids).Watches path →
        gossip.Watches path ∨ path = there ∧ ∃ id ∈ ids, id ≠ gossip.machineId := by
  unfold Gossip.watch
  induction ids generalizing gossip with
  | nil => exact ⟨_, rfl, fun path watches => Or.inl watches⟩
  | cons id rest ih =>
      rw [List.foldl_cons]
      split
      · obtain ⟨byHost, same, watches⟩ := ih gossip
        refine ⟨byHost, same, fun path isWatched => (watches path isWatched).imp_right ?_⟩
        rintro ⟨rfl, other, member, foreign⟩
        exact ⟨rfl, other, List.mem_cons_of_mem _ member, foreign⟩
      · rename_i foreign
        obtain ⟨byHost, same, watches⟩ := ih (gossip.adjustHost id fun host =>
          { host with watching := host.watching.insert there })
        refine ⟨byHost, same, fun path isWatched => ?_⟩
        rcases watches path isWatched with early | ⟨rfl, other, member, isForeign⟩
        · refine (watches_adjustHost (· = there) early fun host path member => ?_).imp_right
            fun isThere => ⟨isThere, id, List.mem_cons_self, foreign⟩
          exact (PathSet.mem_insert member).symm
        · exact Or.inr ⟨rfl, other, List.mem_cons_of_mem _ member, isForeign⟩

/-- What many of them change. -/
theorem foldl_watch_spec (gossip : Gossip Hash) (entries : List (VPath × List MachineId)) :
    ∃ byHost, entries.foldl (fun gossip entry => gossip.watch entry.1 entry.2) gossip =
        { gossip with byHost := byHost } ∧
      ∀ path,
        (entries.foldl (fun gossip entry => gossip.watch entry.1 entry.2) gossip).Watches path →
        gossip.Watches path ∨
          ∃ ids, (path, ids) ∈ entries ∧ ∃ id ∈ ids, id ≠ gossip.machineId := by
  induction entries generalizing gossip with
  | nil => exact ⟨_, rfl, fun path watches => Or.inl watches⟩
  | cons entry rest ih =>
      rw [List.foldl_cons]
      obtain ⟨middle, isMiddle, early⟩ := watch_spec gossip entry.1 entry.2
      obtain ⟨byHost, same, later⟩ := ih (gossip.watch entry.1 entry.2)
      refine ⟨byHost, by rw [same, isMiddle], fun path isWatched => ?_⟩
      obtain before | ⟨ids, member, foreign⟩ := later path isWatched
      · refine (early path before).imp_right ?_
        rintro ⟨rfl, foreign⟩
        exact ⟨entry.2, List.mem_cons_self, foreign⟩
      · rw [isMiddle] at foreign
        exact Or.inr ⟨ids, List.mem_cons_of_mem _ member, foreign⟩

/-- What reading does to the tables: it keeps what later steps rely on, and what hosts wait
for afterwards they waited for before, or it was brought. -/
structure Reads (forObject : PathSet → Hash) (gossip next : Gossip Hash) (Brings : VPath → Prop) :
    Prop where
  machineId : next.machineId = gossip.machineId
  messages : next.messages = gossip.messages
  inProgress : next.around.inProgress = gossip.around.inProgress
  configs : Consistent forObject next.configs
  watches : ∀ path, next.Watches path → gossip.Watches path ∨ Brings path

/-- The entry of a host that is written whole. -/
theorem watches_insert {around : Around Hash} {id : MachineId} {host : HostData}
    (incoming : around.incoming = gossip.around.incoming)
    (watches : ({ gossip with around := around, byHost := gossip.byHost.insert id host } :
      Gossip Hash).Watches path) : gossip.Watches path ∨ path ∈ host.watching.paths := by
  obtain ⟨other, found, isFound, member⟩ | ⟨connection, isIncoming, member⟩ := watches
  · rw [Map.lookup_insert_eq] at isFound
    split at isFound
    · obtain rfl := Option.some.inj isFound
      exact Or.inr member
    · exact Or.inl (Or.inl ⟨other, found, isFound, member⟩)
  · exact Or.inl (Or.inr ⟨connection, incoming ▸ isIncoming, member⟩)

/-- What meeting a machine changes: who it is. -/
theorem meet_spec (gossip : Gossip Hash) (addr : SocketAddr) (id : MachineId) :
    ∃ futurePeers peers,
      gossip.meet addr id = { gossip with futurePeers := futurePeers, peers := peers } := by
  unfold Gossip.meet
  split
  · exact ⟨_, _, rfl⟩
  · exact ⟨_, _, rfl⟩

variable [DecidableEq Hash] {forObject : PathSet → Hash}

/-- Reading a message never panics as long as the tables are sound. -/
theorem exists_readMessage (consistent : Consistent forObject gossip.configs)
    (deep : ∀ path ∈ gossip.around.inProgress.paths, 0 < path.level) (addr : SocketAddr)
    (id : MachineId) (message : Message Hash) :
    ∃ sent next, gossip.readMessage forObject addr id message = .ok (sent, next) ∧
      Reads forObject gossip next fun path => message.Brings gossip.machineId path := by
  cases message with
  | baseDirs inProgress watching complete deleted baseDirs =>
      have reconciled : ∃ around : Around Hash, baseDirs.entries.foldlM (fun around entry =>
            around.reconcileDir gossip.config entry.1 entry.2 addr id) gossip.around = .ok around ∧
          around.inProgress = gossip.around.inProgress ∧
            around.incoming = gossip.around.incoming := by
        refine Run.exists_foldlM (fun around : Around Hash =>
          around.inProgress = gossip.around.inProgress ∧
            around.incoming = gossip.around.incoming) ⟨rfl, rfl⟩ fun entry _ around same => ?_
        obtain ⟨after, ran, inProgress, incoming⟩ := exists_reconcileDir (by rwa [same.1])
          gossip.config entry.1 entry.2 addr id
        exact ⟨after, ran, inProgress.trans same.1, incoming.trans same.2⟩
      obtain ⟨around, ran, sameProgress, sameIncoming⟩ := reconciled
      obtain ⟨checkedProgress, checkedIncoming⟩ :=
        checkWatched_spec around gossip.config watching.paths
      simp only [Gossip.readMessage, ran, Run.ok_bind]
      refine ⟨_, _, rfl, ⟨rfl, rfl, checkedProgress.trans sameProgress, consistent, ?_⟩⟩
      intro path watches
      split at watches
      · obtain ⟨other, host, found, member⟩ | ⟨connection, isIncoming, member⟩ := watches
        · rw [Map.lookup_erase_eq] at found
          split at found
          · cases found
          · exact Or.inl (Or.inl ⟨other, host, found, member⟩)
        · rw [checkedIncoming, sameIncoming] at isIncoming
          exact Or.inl (Or.inr ⟨connection, isIncoming, member⟩)
      · exact watches_insert (checkedIncoming.trans sameIncoming) watches
  | downloading there image mask source watches =>
      obtain ⟨checkedProgress, checkedIncoming⟩ :=
        checkWatched_spec gossip.around gossip.config [there]
      let change (host : HostData) : HostData := { host with
        downloading := host.downloading.insert there.place ⟨image, mask, source, false⟩ }
      obtain ⟨byHost, same, brings⟩ := watch_spec { gossip.adjustHost id change with
        around := gossip.around.checkWatched gossip.config [there] } there watches
      refine ⟨_, _, rfl, ⟨?_, ?_, ?_, ?_, fun path isWatched => ?_⟩⟩
      · rw [same]
        rfl
      · rw [same]
        rfl
      · rw [same]
        exact checkedProgress
      · rw [same]
        exact consistent
      · refine (brings path isWatched).imp_left fun early => ?_
        have watched : (gossip.adjustHost id change).Watches path := by
          refine early.imp_right ?_
          rintro ⟨connection, isIncoming, member⟩
          exact ⟨connection, checkedIncoming ▸ isIncoming, member⟩
        exact watches_of_adjustHost watched fun _ => rfl
  | reconcile there hash watches =>
      obtain ⟨around, ran, inProgress, incoming⟩ :=
        exists_reconcileDir deep gossip.config there hash addr id
      simp only [Gossip.readMessage, ran, Run.ok_bind]
      obtain ⟨byHost, same, brings⟩ :=
        foldl_watch_spec { gossip with around := around } watches.entries
      refine ⟨_, _, rfl, ⟨?_, ?_, ?_, ?_, fun path isWatched => ?_⟩⟩
      · rw [same]
      · rw [same]
      · rw [same]
        exact inProgress
      · rw [same]
        exact consistent
      · refine (brings path isWatched).imp_left (Or.imp_right ?_)
        rintro ⟨connection, isIncoming, member⟩
        exact ⟨connection, incoming ▸ isIncoming, member⟩
  | complete there image =>
      refine ⟨_, _, rfl, ⟨rfl, rfl, rfl, consistent, fun path watches => ?_⟩⟩
      exact Or.inl (watches_of_adjustHost watches fun _ => rfl)
  | completeAck there =>
      simp only [Gossip.readMessage]
      cases known : gossip.byHost.lookup id with
      | none => exact ⟨_, _, rfl, ⟨rfl, rfl, rfl, consistent, fun path watches => Or.inl watches⟩⟩
      | some host =>
          refine ⟨_, _, rfl, ⟨rfl, rfl, rfl, consistent, fun path watches => Or.inl ?_⟩⟩
          obtain old | kept := watches_insert rfl watches
          · exact old
          · exact Or.inl ⟨id, host, known, List.mem_of_mem_filter kept⟩
  | configSync paths =>
      obtain ⟨configs, ran, stillConsistent, _⟩ := consistent.set id paths
      simp only [Gossip.readMessage, ran, Run.ok_bind]
      exact ⟨_, _, rfl, ⟨rfl, rfl, rfl, stillConsistent, fun path watches => Or.inl watches⟩⟩

/-- Every packet can be read. -/
theorem exists_readPacket (consistent : Consistent forObject gossip.configs)
    (deep : ∀ path ∈ gossip.around.inProgress.paths, 0 < path.level) (addr : SocketAddr)
    (packet : Packet Hash) :
    ∃ sent next, gossip.readPacket forObject addr packet = .ok (sent, next) ∧
      Reads forObject gossip next fun path =>
        packet.machineId ≠ gossip.machineId ∧ packet.message.Brings gossip.machineId path := by
  unfold Gossip.readPacket
  split
  · exact ⟨[], gossip, rfl, ⟨rfl, rfl, rfl, consistent, fun path watches => Or.inl watches⟩⟩
  · rename_i foreign
    obtain ⟨futurePeers, peers, met⟩ := meet_spec gossip addr packet.machineId
    have sound : Consistent forObject (gossip.meet addr packet.machineId).configs := by
      rw [met]
      exact consistent
    have stillDeep : ∀ path ∈ (gossip.meet addr packet.machineId).around.inProgress.paths,
        0 < path.level := by
      rw [met]
      exact deep
    obtain ⟨sent, next, ran, reads⟩ :=
      exists_readMessage sound stillDeep addr packet.machineId packet.message
    dsimp only
    rw [ran, Run.ok_bind]
    rw [met] at reads
    refine ⟨_, next, rfl, ⟨reads.machineId, reads.messages, reads.inProgress, reads.configs, ?_⟩⟩
    intro path watches
    exact (reads.watches path watches).imp_right fun brings => ⟨foreign, brings⟩

end Reading

section Writing

variable {Hash : Type} {gossip : Gossip Hash}

/-- Adding a peer never panics when there are two of them. -/
theorem returns_addPeer (gossip : Gossip Hash) {sorted : List MachineId} (many : 1 < sorted.length)
    (idx : Nat) (peers : Map SocketAddr MachineId) : (gossip.addPeer sorted idx peers).Returns := by
  have inside : idx % sorted.length < sorted.length := Nat.mod_lt _ (by omega)
  unfold Gossip.addPeer
  rw [List.getElem?_eq_getElem inside, Run.expect, Run.ok_bind]
  split
  · exact Run.returns_pure _
  · exact Run.returns_pure _

/-- The random numbers are in range, since there are two machines to choose from. -/
theorem returns_addConfigured (gossip : Gossip Hash) (choice : Choice) (ids : Finset MachineId)
    (peers : Map SocketAddr MachineId) : (gossip.addConfigured choice ids peers).Returns := by
  unfold Gossip.addConfigured
  dsimp only
  split
  · rename_i many
    obtain ⟨first, added⟩ := returns_addPeer gossip many
      (((sortIds ids).findIdx? fun id => !decide (IdLe id gossip.machineId)).getD 0) peers
    rw [added, Run.ok_bind]
    refine (Run.returns_foldlM_iff fun value i => (iff_of_true ?_ trivial : _ ↔ True)).mpr
      fun _ _ => trivial
    have range : genRange 1 (sortIds ids).length (choice.random i) =
        .ok (1 + choice.random i % ((sortIds ids).length - 1)) := by
      simp [genRange, Run.assert, many]
    rw [range, Run.ok_bind]
    exact returns_addPeer gossip many _ _
  · exact Run.returns_pure _

/-- Finding the destinations for a path never panics. -/
theorem returns_destForPath (gossip : Gossip Hash) (choice : Choice) (path : VPath) :
    (gossip.destForPath choice path).Returns := by
  obtain ⟨base, isKey⟩ := path.returns_keyVpath
  unfold Gossip.destForPath
  rw [isKey, Run.ok_bind]
  have finish (peers : Map SocketAddr MachineId) :
      Run.Returns (if peers.keys.card < packetsAtOnce then
        pure (choice.sample.foldl gossip.addKnown peers) else pure peers) := by
    split
    · exact Run.returns_pure _
    · exact Run.returns_pure _
  split
  · rename_i ids _
    exact Run.returns_bind.mpr
      ((returns_addConfigured gossip choice ids _).imp fun peers added => ⟨added, finish peers⟩)
  · exact finish _

/-- The messages of the queue are those that have a destination. -/
theorem returns_destForPacket (gossip : Gossip Hash) (choice : Choice) {message : Message Hash}
    (sendable : message.Sendable) : (gossip.destForPacket choice message).Returns := by
  cases message with
  | baseDirs => exact sendable.elim
  | configSync => exact sendable.elim
  | completeAck => exact sendable.elim
  | reconcile path => exact returns_destForPath gossip choice path
  | downloading path => exact returns_destForPath gossip choice path
  | complete path => exact returns_destForPath gossip choice path

/-- The watches are filled in when no path that is waited for is a bare key. -/
theorem returns_fillWatches {path : VPath} {id : MachineId} {paths : List VPath}
    {watches : PathMap (List MachineId)} :
    (Gossip.fillWatches path id paths watches).Returns ↔ ∀ watched ∈ paths, 0 < watched.level := by
  refine Run.returns_foldlM_iff fun value watched => ?_
  rw [Run.returns_bind, ← returns_parent_iff]
  constructor
  · rintro ⟨parent, isParent, _⟩
    exact ⟨parent, isParent⟩
  · rintro ⟨parent, isParent⟩
    exact ⟨parent, isParent, Run.returns_pure _⟩

/-- The news of a base directory can be filled in when every watched path has a parent. -/
theorem returns_fillMsg_reconcile {hosts : List MachineId} {path : VPath} {hash : Hash}
    {watches : PathMap (List MachineId)} (all : ∀ id, id ∈ hosts ↔ id ∈ gossip.byHost) :
    (gossip.fillMsg hosts (.reconcile path hash watches)).Returns ↔
      ∀ watched, gossip.Watches watched → 0 < watched.level := by
  have ofHosts (start : PathMap (List MachineId)) : (hosts.foldlM (fun watches id =>
      Gossip.fillWatches path id (gossip.watchingOf id) watches) start).Returns ↔
        ∀ id ∈ hosts, ∀ watched ∈ gossip.watchingOf id, 0 < watched.level := by
    refine Run.returns_foldlM_iff fun _ id => ?_
    exact returns_fillWatches
  rw [Gossip.fillMsg]
  constructor
  · intro returns
    obtain ⟨filled, fills, rest⟩ := Run.returns_bind.mp returns
    obtain ⟨both, own, _⟩ := Run.returns_bind.mp rest
    have deepHosts := (ofHosts watches).mp ⟨filled, fills⟩
    have deepOwn := returns_fillWatches.mp ⟨both, own⟩
    rintro watched (⟨id, host, found, member⟩ | ⟨connection, isIncoming, member⟩)
    · refine deepHosts id ((all id).mpr (Finmap.mem_iff.mpr ⟨host, found⟩)) watched ?_
      rw [Gossip.watchingOf, found]
      exact member
    · obtain ⟨other, isOther, same⟩ := contains_getWatching isIncoming member
      rw [← level_eq_of_place same]
      exact deepOwn other isOther
  · intro deep
    have deepHosts : ∀ id ∈ hosts, ∀ watched ∈ gossip.watchingOf id, 0 < watched.level := by
      intro id _ watched member
      cases found : gossip.byHost.lookup id with
      | none =>
          rw [Gossip.watchingOf, found] at member
          cases member
      | some host =>
          rw [Gossip.watchingOf, found] at member
          exact deep watched (Or.inl ⟨id, host, found, member⟩)
    obtain ⟨filled, fills⟩ := (ofHosts watches).mpr deepHosts
    have own : (Gossip.fillWatches path gossip.machineId gossip.around.getWatching.paths
        filled).Returns :=
      returns_fillWatches.mpr fun watched member => deep watched (Or.inr (mem_getWatching member))
    obtain ⟨both, own⟩ := own
    rw [fills, Run.ok_bind, own, Run.ok_bind]
    exact Run.returns_pure _

end Writing

section Runs

variable {Hash : Type} {forObject : PathSet → Hash} {event : GossipEvent Hash}

/-- The two maps of configurations agree, every download has a parent, and the queue has only
messages with a destination. -/
structure Sound (forObject : PathSet → Hash) (gossip : Gossip Hash) : Prop where
  configs : Consistent forObject gossip.configs
  deep : ∀ path ∈ gossip.around.inProgress.paths, 0 < path.level
  sendable : ∀ message ∈ gossip.messages, message.Sendable

/-- The tables are sound at first. -/
theorem Sound.start (machineId : MachineId) (config : Config) (configHash : Hash)
    (configList : PathSet) (futurePeers : Map SocketAddr (List Char)) :
    Sound forObject (.start machineId config configHash configList futurePeers) :=
  ⟨.new, fun _ member => (by cases member), fun _ member => (by cases member)⟩

/-- An image is not put right at a key. -/
theorem level_of_isValidDestination {config : Config} {path : VPath}
    (valid : config.isValidDestination path = true) : 0 < path.level := by
  unfold Config.isValidDestination at valid
  split at valid
  · rename_i directory _
    have levels := directory.one_le_numLevels
    rw [beq_iff_eq] at valid
    omega
  · cases valid

/-- A change keeps the tables sound. -/
theorem Sound.change {gossip next : Gossip Hash} {op : GossipOp Hash}
    (sound : Sound forObject gossip) (changes : gossip.change op = some next) :
    Sound forObject next := by
  have sends (message : Message Hash) (sendable : message.Sendable) :
      ∀ other ∈ gossip.messages ++ [message], other.Sendable := by
    intro other member
    rcases List.mem_append.mp member with old | last
    · exact sound.sendable other old
    · rwa [List.mem_singleton.mp last]
  cases op with
  | receive addr packet => cases changes
  | write choice => cases changes
  | notifyProgress path image mask source =>
      obtain rfl := Option.some.inj changes
      exact ⟨sound.configs, sound.deep, sends _ trivial⟩
  | notifyBasedir path hash =>
      obtain rfl := Option.some.inj changes
      exact ⟨sound.configs, sound.deep, sends _ trivial⟩
  | notifyComplete path image =>
      obtain rfl := Option.some.inj changes
      exact ⟨sound.configs, sound.deep, sends _ trivial⟩
  | startDownload path =>
      rw [Gossip.change] at changes
      split at changes
      · rename_i valid
        obtain rfl := Option.some.inj changes
        refine ⟨sound.configs, fun other member => ?_, sound.sendable⟩
        obtain rfl | old := PathSet.mem_insert member
        · exact level_of_isValidDestination valid
        · exact sound.deep other old
      · cases changes
  | endDownload path =>
      obtain rfl := Option.some.inj changes
      exact ⟨sound.configs, fun other member => sound.deep other (List.mem_of_mem_filter member),
        sound.sendable⟩
  | _ =>
      obtain rfl := Option.some.inj changes
      exact ⟨sound.configs, sound.deep, sound.sendable⟩

/-- What is watched on the connections comes from the clients. -/
theorem watches_of_change {gossip next : Gossip Hash} {op : GossipOp Hash} {path : VPath}
    (changes : gossip.change op = some next) (watches : next.Watches path) :
    gossip.Watches path ∨ ∃ id, op = .addWatch id path := by
  cases op with
  | receive addr packet => cases changes
  | write choice => cases changes
  | connect id =>
      obtain rfl := Option.some.inj changes
      obtain hosts | ⟨connection, isIncoming, member⟩ := watches
      · exact Or.inl (Or.inl hosts)
      · rcases List.mem_cons.mp isIncoming with rfl | old
        · cases member
        · exact Or.inl (Or.inr ⟨connection, old, member⟩)
  | addWatch id there =>
      obtain rfl := Option.some.inj changes
      obtain hosts | ⟨connection, isIncoming, member⟩ := watches
      · exact Or.inl (Or.inl hosts)
      · obtain ⟨old, isOld, rfl⟩ := List.mem_map.mp isIncoming
        split at member
        · rcases PathSet.mem_insert member with rfl | kept
          · exact Or.inr ⟨id, rfl⟩
          · exact Or.inl (Or.inr ⟨old, isOld, kept⟩)
        · exact Or.inl (Or.inr ⟨old, isOld, member⟩)
  | disconnect id =>
      obtain rfl := Option.some.inj changes
      obtain hosts | ⟨connection, isIncoming, member⟩ := watches
      · exact Or.inl (Or.inl hosts)
      · exact Or.inl (Or.inr ⟨connection, List.mem_of_mem_filter isIncoming, member⟩)
  | startDownload there =>
      rw [Gossip.change] at changes
      split at changes
      · obtain rfl := Option.some.inj changes
        exact Or.inl watches
      · cases changes
  | _ =>
      obtain rfl := Option.some.inj changes
      exact Or.inl watches

/-- What a step does, from a sound state. -/
inductive Took (forObject : PathSet → Hash) (event : GossipEvent Hash) : Prop where
  | read (addr : SocketAddr) (packet : Packet Hash) (isRead : event.op = .receive addr packet)
      (answers : event.answer.Returns)
      (reads : Reads forObject event.before event.after fun path =>
        packet.machineId ≠ event.before.machineId ∧
          packet.message.Brings event.before.machineId path)
  | wrote (choice : Choice) (message : Message Hash) (rest : List (Message Hash))
      (isWrite : event.op = .write choice) (isFirst : event.before.messages = message :: rest)
      (answers : event.answer.Returns ↔ (event.before.fillMsg choice.hosts message).Returns)
      (all : ∀ id, id ∈ choice.hosts ↔ id ∈ event.before.byHost)
      (after : ∃ messages, messages ⊆ event.before.messages ∧
        event.after = { event.before with messages := messages })
  | changed (changes : event.before.change event.op = some event.after)
      (answers : event.answer.Returns)

variable [DecidableEq Hash]

/-- What a step has taken from sound tables. -/
theorem Sound.took (sound : Sound forObject event.before)
    (takes : (gossipMachine forObject).Takes event) : Took forObject event := by
  obtain ⟨before, op, answer, after⟩ := event
  have stepped : before.exec forObject op = some (answer, after) := takes
  have changes (isChange : (do
      let next ← before.change op
      return (.ok .changed, next) : Option (Run (Outcome Hash) × Gossip Hash)) =
        some (answer, after)) : Took forObject ⟨before, op, answer, after⟩ := by
    obtain ⟨next, changed, same⟩ := Option.bind_eq_some_iff.mp isChange
    obtain ⟨rfl, rfl⟩ := Prod.mk.inj (Option.some.inj same)
    exact .changed changed (Run.returns_ok _)
  cases op with
  | receive addr packet =>
      obtain ⟨sent, next, ran, reads⟩ := exists_readPacket sound.configs sound.deep addr packet
      have settled := Option.some.inj stepped
      rw [show before.readPacket forObject addr packet = _ from ran] at settled
      obtain ⟨rfl, rfl⟩ := Prod.mk.inj settled
      exact .read addr packet rfl (Run.returns_ok _) reads
  | write choice =>
      rw [Gossip.exec] at stepped
      split at stepped
      · cases stepped
      · rename_i message rest isFirst
        split at stepped
        · rename_i fits
          have all : ∀ id, id ∈ choice.hosts ↔ id ∈ before.byHost := by
            intro id
            rw [← List.mem_toFinset, fits.2.1, Finmap.mem_keys]
          have sendable : message.Sendable :=
            sound.sendable message (isFirst ▸ List.mem_cons_self)
          obtain ⟨peers, chosen⟩ := returns_destForPacket before choice sendable
          have settled := Option.some.inj stepped
          rw [Gossip.writeMessage, chosen, Run.ok_bind] at settled
          cases filling : before.fillMsg choice.hosts message with
          | ok filled =>
              rw [filling] at settled
              obtain ⟨rfl, rfl⟩ := Prod.mk.inj settled
              refine .wrote choice message rest rfl isFirst ?_ all ⟨rest, ?_, rfl⟩
              · simp [filling]
              · show rest ⊆ before.messages
                rw [isFirst]
                exact List.subset_cons_self _ _
          | error panic =>
              rw [filling] at settled
              obtain ⟨rfl, rfl⟩ := Prod.mk.inj settled
              refine .wrote choice message rest rfl isFirst ?_ all ⟨before.messages, ?_, rfl⟩
              · simp [filling]
              · exact List.Subset.refl _
        · cases stepped
  | _ => exact changes stepped

/-- A step keeps the tables sound. -/
theorem Sound.step (sound : Sound forObject event.before)
    (takes : (gossipMachine forObject).Takes event) : Sound forObject event.after := by
  cases sound.took takes with
  | read addr packet _ _ reads =>
      refine ⟨reads.configs, ?_, ?_⟩
      · rw [reads.inProgress]
        exact sound.deep
      · rw [reads.messages]
        exact sound.sendable
  | wrote _ _ _ _ _ _ _ after =>
      obtain ⟨messages, fewer, same⟩ := after
      rw [same]
      exact ⟨sound.configs, sound.deep, fun message member => sound.sendable message (fewer member)⟩
  | changed changes => exact sound.change changes

/-- A step panics exactly when it sends the news of a base directory while somebody waits for
a key alone. -/
theorem Sound.returns_iff (sound : Sound forObject event.before)
    (takes : (gossipMachine forObject).Takes event) :
    event.answer.Returns ↔ SendsDeep event := by
  cases sound.took takes with
  | read addr packet isRead answers =>
      refine iff_of_true answers fun choice path hash watches rest isWrite => ?_
      rw [isRead] at isWrite
      cases isWrite
  | wrote choice message rest isWrite isFirst answers all =>
      rw [answers]
      cases message with
      | reconcile path hash watches =>
          rw [returns_fillMsg_reconcile all]
          refine ⟨fun deep _ _ _ _ _ _ _ => deep, fun sends => ?_⟩
          exact sends choice path hash watches rest isWrite isFirst
      | _ =>
          refine iff_of_true (Run.returns_pure _) fun _ path hash watches others _ isOther => ?_
          rw [isFirst] at isOther
          cases isOther
  | changed changes answers =>
      refine iff_of_true answers fun choice path hash watches rest isWrite => ?_
      rw [isWrite] at changes
      cases changes

/-- A step that brings no bare key keeps that none is waited for. -/
theorem Sound.deep_step (sound : Sound forObject event.before)
    (takes : (gossipMachine forObject).Takes event) (brings : BringsDeep event)
    (deep : ∀ path, event.before.Watches path → 0 < path.level) :
    ∀ path, event.after.Watches path → 0 < path.level := by
  intro path watches
  cases sound.took takes with
  | read addr packet isRead _ reads =>
      obtain old | ⟨foreign, brought⟩ := reads.watches path watches
      · exact deep path old
      · exact brings.1 addr packet isRead foreign path brought
  | wrote _ _ _ _ _ _ _ after =>
      obtain ⟨messages, _, same⟩ := after
      rw [same] at watches
      exact deep path watches
  | changed changes =>
      obtain old | ⟨id, isAdd⟩ := watches_of_change changes watches
      · exact deep path old
      · exact brings.2 id path isAdd

/-- Gossip runs without a panic exactly when nobody waits for a key alone while the news of a
base directory goes out. So it is where no packet and no client names a key alone as watched. -/
theorem gossip_returns_iff (machineId : MachineId) (config : Config) (configHash : Hash)
    (configList : PathSet) (futurePeers : Map SocketAddr (List Char))
    {trace : List (GossipEvent Hash)} {finish : Gossip Hash}
    (steps : (gossipMachine forObject).Steps
      (.start machineId config configHash configList futurePeers) trace finish) :
    ((∀ event ∈ trace, event.answer.Returns) ↔ ∀ event ∈ trace, SendsDeep event) ∧
      ((∀ event ∈ trace, BringsDeep event) → ∀ event ∈ trace, event.answer.Returns) := by
  have sound := (steps.preserves (Sound forObject) (fun _ => True)
    (fun _ takes _ sound => sound.step takes) (fun _ _ => trivial)
    (.start machineId config configHash configList futurePeers)).2
  have exact (event : GossipEvent Hash) (member : event ∈ trace) :
      event.answer.Returns ↔ SendsDeep event :=
    (sound event member).1.returns_iff (steps.takes_of_mem member)
  refine ⟨forall₂_congr exact, fun brings event member => (exact event member).mpr ?_⟩
  have deep := (steps.preserves
    (fun gossip => Sound forObject gossip ∧ ∀ path, gossip.Watches path → 0 < path.level) BringsDeep
    (fun _ takes brings inv => ⟨inv.1.step takes, inv.1.deep_step takes brings inv.2⟩) brings
    ⟨.start machineId config configHash configList futurePeers, ?_⟩).2
  · exact fun _ _ _ _ _ _ _ => (deep event member).1.2
  · rintro path (⟨id, host, found, _⟩ | ⟨connection, isIncoming, _⟩)
    · simp [Gossip.start] at found
    · cases isIncoming

end Runs

namespace Sample

/-- A hash that only counts the paths. -/
def count (set : PathSet) : Nat := set.paths.length

/-- The gossip of a machine at its start. -/
def gossip : Gossip Nat := .start [1] (Metadata.Sample.env false).config 0 .empty ∅

/-- Machine `2` waits for a path. -/
def waiting (path : VPath) : Packet Nat :=
  ⟨[2], none, .baseDirs .empty ⟨[path], by simp⟩ .empty ∅ .empty⟩

/-- The state of `/k` has changed, and the peers are told so. -/
def telling (path : VPath) : List (GossipOp Nat) :=
  [.receive ⟨[127, 0, 0, 1], 24783⟩ (waiting path), .notifyBasedir Metadata.Sample.base 7,
    .write ⟨[[2]], fun _ => 0, []⟩]

end Sample

/-- Machine `2` waits for `/k/a`. -/
theorem gossip_returns_iff_waiting :
    let run := (gossipMachine Sample.count).play Sample.gossip (Sample.telling Metadata.Sample.path)
    run.1.length = 3 ∧ (∀ event ∈ run.1, BringsDeep event) ∧
      ∀ event ∈ run.1, event.answer.Returns := by
  intro run
  have brings : ∀ event ∈ run.1, BringsDeep event := by
    intro event member
    have isOp := Machine.Steps.op_mem_of_play member
    simp only [Sample.telling, List.mem_cons, List.not_mem_nil, or_false] at isOp
    refine ⟨fun addr packet isRead _ path brought => ?_, fun id path isAdd => ?_⟩
    · rcases isOp with isOp | isOp | isOp
      · obtain ⟨-, rfl⟩ := GossipOp.receive.inj (isOp.symm.trans isRead)
        rw [List.mem_singleton.mp brought]
        decide
      · cases isOp.symm.trans isRead
      · cases isOp.symm.trans isRead
    · rcases isOp with isOp | isOp | isOp
      all_goals cases isOp.symm.trans isAdd
  refine ⟨by decide +kernel, brings, ?_⟩
  exact (gossip_returns_iff _ _ _ _ _ (Machine.Steps.of_play _ _ _)).2 brings

/-- Machine `2` waits for `/k`, which is a path that is accepted. The news of `/k` cannot be
sent. -/
theorem key_alone_panics :
    VPath.deserialize "/k".toList = some Metadata.Sample.base ∧
      ∃ trace finish, (gossipMachine Sample.count).Steps Sample.gossip trace finish ∧
        trace.map (fun event => decide event.answer.Returns) = [true, true, false] := by
  refine ⟨by decide, _, _, Machine.Steps.of_play _ _ (Sample.telling Metadata.Sample.base), ?_⟩
  decide +kernel

end Peers

end Ciruela
