import Ciruela.Daemon.Peers.GossipSafety
import Ciruela.Foundation.Serde

/-!
# What a machine believes of others

A machine keeps what it was told about other machines: what they download and have, what
they have deleted, what their clients wait for and which directories they are configured
for. Who tells it of a wait may be somebody else. Here is what a packet says, and that a
machine believes only what it was told and passes on only what it believes or knows itself.
-/

namespace Ciruela

open Foundation

namespace Peers

open Remote (SocketAddr)

/-- What can be said about a machine. -/
inductive Matter where
  | downloading (place : List Component) (progress : Downloading)
  | complete (place : List Component) (image : ImageId)
  | watching (place : List Component)
  | deleted (pair : List Component × ImageId)
  | config (paths : PathSet)

/-- The tables of a machine say this of it. -/
def HostData.Holds (host : HostData) : Matter → Prop
  | .downloading place progress => host.downloading.lookup place = some progress
  | .complete place image => host.complete.lookup place = some image
  | .watching place => host.watching.Contains place
  | .deleted pair => pair ∈ host.deleted
  | .config _ => False

/-- What a message says about a machine, when it comes from the sender. -/
inductive Message.Says {Hash : Type} (sender : MachineId) :
    Message Hash → MachineId → Matter → Prop where
  | inProgress {inProgress : PathMap Downloading} {watching : PathSet} {complete : PathMap ImageId}
      {deleted : Finset (List Component × ImageId)} {baseDirs : PathMap Hash} {path : VPath}
      {progress : Downloading} (member : (path, progress) ∈ inProgress.entries) :
      Says sender (.baseDirs inProgress watching complete deleted baseDirs) sender
        (.downloading path.place progress)
  | watching {inProgress : PathMap Downloading} {watching : PathSet} {complete : PathMap ImageId}
      {deleted : Finset (List Component × ImageId)} {baseDirs : PathMap Hash}
      {place : List Component} (member : watching.Contains place) :
      Says sender (.baseDirs inProgress watching complete deleted baseDirs) sender (.watching place)
  | complete {inProgress : PathMap Downloading} {watching : PathSet} {complete : PathMap ImageId}
      {deleted : Finset (List Component × ImageId)} {baseDirs : PathMap Hash} {path : VPath}
      {image : ImageId} (member : (path, image) ∈ complete.entries) :
      Says sender (.baseDirs inProgress watching complete deleted baseDirs) sender
        (.complete path.place image)
  | deleted {inProgress : PathMap Downloading} {watching : PathSet} {complete : PathMap ImageId}
      {deleted : Finset (List Component × ImageId)} {baseDirs : PathMap Hash}
      {pair : List Component × ImageId} (member : pair ∈ deleted) :
      Says sender (.baseDirs inProgress watching complete deleted baseDirs) sender (.deleted pair)
  | downloads {path : VPath} {image : ImageId} {mask : Mask} {source : Bool}
      {watches : List MachineId} :
      Says sender (.downloading path image mask source watches) sender
        (.downloading path.place ⟨image, mask, source, false⟩)
  | waits {path : VPath} {image : ImageId} {mask : Mask} {source : Bool}
      {watches : List MachineId} {host : MachineId} (member : host ∈ watches) :
      Says sender (.downloading path image mask source watches) host (.watching path.place)
  | waitsBelow {base : VPath} {hash : Hash} {watches : PathMap (List MachineId)} {path : VPath}
      {hosts : List MachineId} {host : MachineId} (member : (path, hosts) ∈ watches.entries)
      (isHost : host ∈ hosts) :
      Says sender (.reconcile base hash watches) host (.watching path.place)
  | completed {path : VPath} {image : ImageId} :
      Says sender (.complete path image) sender (.complete path.place image)
  | config {paths : PathSet} : Says sender (.configSync paths) sender (.config paths)

/-- A packet says of a machine what its message says. -/
def Packet.Says {Hash : Type} (packet : Packet Hash) : MachineId → Matter → Prop :=
  packet.message.Says packet.machineId

/-- What a machine keeps about another. -/
def Gossip.Believes {Hash : Type} (gossip : Gossip Hash) (host : MachineId) (matter : Matter) : Prop :=
  (∃ data, gossip.byHost.lookup host = some data ∧ data.Holds matter) ∨
    ∃ info, gossip.configs.get host = some info ∧ matter = .config info.configs

/-- Nothing is believed of a machine nobody has told about. -/
theorem not_holds_empty (matter : Matter) : ¬ HostData.empty.Holds matter := by
  cases matter with
  | downloading place progress => simp [HostData.Holds, HostData.empty]
  | complete place image => simp [HostData.Holds, HostData.empty]
  | watching place => simp [HostData.Holds, HostData.empty, PathSet.Contains, PathSet.empty]
  | deleted pair => simp [HostData.Holds, HostData.empty]
  | config paths => exact not_false

theorem mem_of_lookup_table {Value : Type} {map : PathMap Value} {place : List Component}
    {value : Value} (found : map.table.lookup place = some value) :
    ∃ path, path.place = place ∧ (path, value) ∈ map.entries := by
  have listed : (map.entries.map fun entry => (entry.1.place, entry.2)).foldl
      (fun table entry => table.insert entry.1 entry.2) ∅ = map.table := by
    rw [List.foldl_map]
    rfl
  rw [← listed] at found
  rcases mem_or_of_lookup_foldl found with member | nothing
  · obtain ⟨⟨path, other⟩, isEntry, same⟩ := List.mem_map.mp member
    obtain ⟨rfl, rfl⟩ := Prod.mk.inj same
    exact ⟨path, rfl, isEntry⟩
  · simp at nothing

section Reading

variable {Hash : Type} {gossip next : Gossip Hash} {host : MachineId} {matter : Matter}

/-- The beliefs do not depend on the other tables. -/
theorem believes_congr (byHost : next.byHost = gossip.byHost) (configs : next.configs = gossip.configs) :
    next.Believes host matter ↔ gossip.Believes host matter := by
  rw [Gossip.Believes, Gossip.Believes, byHost, configs]

/-- An entry that is written brings only what it holds. -/
theorem believes_insert (gossip : Gossip Hash) {id : MachineId} {data : HostData}
    (believes : next.Believes host matter) (byHost : next.byHost = gossip.byHost.insert id data)
    (configs : next.configs = gossip.configs) :
    gossip.Believes host matter ∨ host = id ∧ data.Holds matter := by
  obtain ⟨other, found, holds⟩ | ⟨info, isInfo, same⟩ := believes
  · rw [byHost, Map.lookup_insert_eq] at found
    split at found
    · rename_i same
      obtain rfl := Option.some.inj found
      exact Or.inr ⟨same, holds⟩
    · exact Or.inl (Or.inl ⟨other, found, holds⟩)
  · exact Or.inl (Or.inr ⟨info, configs ▸ isInfo, same⟩)

/-- A change of an entry brings what it adds. -/
theorem believes_adjustHost {id : MachineId} {change : HostData → HostData} (New : Matter → Prop)
    (changes : ∀ data, (change data).Holds matter → data.Holds matter ∨ New matter)
    (believes : (gossip.adjustHost id change).Believes host matter) :
    gossip.Believes host matter ∨ host = id ∧ New matter := by
  rcases believes_insert gossip believes rfl rfl with old | ⟨rfl, holds⟩
  · exact Or.inl old
  · refine (changes _ holds).imp (fun before => Or.inl ?_) fun new => ⟨rfl, new⟩
    cases found : gossip.byHost.lookup host with
    | none =>
        rw [found] at before
        exact absurd before (not_holds_empty matter)
    | some data =>
        rw [found] at before
        exact ⟨data, rfl, before⟩

theorem holds_watch {data : HostData} {path : VPath}
    (holds : ({ data with watching := data.watching.insert path } : HostData).Holds matter) :
    data.Holds matter ∨ matter = .watching path.place := by
  cases matter with
  | watching place =>
      obtain same | old := PathSet.contains_insert.mp holds
      · exact Or.inr (congrArg Matter.watching same.symm)
      · exact Or.inl old
  | _ => exact Or.inl holds

/-- Some machines other than this one wait for the path. -/
theorem believes_watch {path : VPath} {ids : List MachineId}
    (believes : (gossip.watch path ids).Believes host matter) :
    gossip.Believes host matter ∨
      host ≠ gossip.machineId ∧ host ∈ ids ∧ matter = .watching path.place := by
  unfold Gossip.watch at believes
  induction ids generalizing gossip with
  | nil => exact Or.inl believes
  | cons id rest ih =>
      rw [List.foldl_cons] at believes
      split at believes
      · refine (ih believes).imp_right ?_
        rintro ⟨foreign, member, same⟩
        exact ⟨foreign, List.mem_cons_of_mem _ member, same⟩
      · rename_i foreign
        rcases ih believes with early | ⟨isForeign, member, same⟩
        · rcases believes_adjustHost (· = .watching path.place) (fun data => holds_watch) early with
            old | ⟨rfl, same⟩
          · exact Or.inl old
          · exact Or.inr ⟨foreign, List.mem_cons_self, same⟩
        · exact Or.inr ⟨isForeign, List.mem_cons_of_mem _ member, same⟩

@[simp] theorem machineId_watch (path : VPath) (ids : List MachineId) :
    (gossip.watch path ids).machineId = gossip.machineId := by
  obtain ⟨byHost, same, _⟩ := watch_spec gossip path ids
  rw [same]

theorem believes_foldl_watch {entries : List (VPath × List MachineId)}
    (believes : (entries.foldl (fun gossip entry => gossip.watch entry.1 entry.2) gossip).Believes
      host matter) :
    gossip.Believes host matter ∨ host ≠ gossip.machineId ∧
      ∃ entry ∈ entries, host ∈ entry.2 ∧ matter = .watching entry.1.place := by
  induction entries generalizing gossip with
  | nil => exact Or.inl believes
  | cons entry rest ih =>
      rcases ih believes with early | ⟨foreign, other, member, isHost⟩
      · refine (believes_watch early).imp_right ?_
        rintro ⟨foreign, isHost⟩
        exact ⟨foreign, entry, List.mem_cons_self, isHost⟩
      · rw [machineId_watch] at foreign
        exact Or.inr ⟨foreign, other, List.mem_cons_of_mem _ member, isHost⟩

variable [DecidableEq Hash] {forObject : PathSet → Hash}

/-- A set that is stored is that of its machine. -/
theorem forward_of_set {map after : ConfigMap Hash} {id : MachineId} {paths : PathSet}
    (ran : map.set forObject id paths = .ok after) :
    after = map ∨ after.forward = map.forward.insert id ⟨forObject paths, paths⟩ := by
  unfold ConfigMap.set at ran
  dsimp only at ran
  split at ran
  · obtain rfl := Except.ok.inj ran
    exact Or.inr rfl
  · split at ran
    · exact Or.inl (Except.ok.inj ran).symm
    · obtain ⟨backward, _, done⟩ := Run.bind_eq_ok_iff.mp ran
      obtain rfl := Except.ok.inj done
      exact Or.inr rfl

theorem believes_set {configs : ConfigMap Hash} {id : MachineId} {paths : PathSet}
    (ran : gossip.configs.set forObject id paths = .ok configs)
    (believes : ({ gossip with configs := configs } : Gossip Hash).Believes host matter) :
    gossip.Believes host matter ∨ host = id ∧ matter = .config paths := by
  obtain known | ⟨info, isInfo, same⟩ := believes
  · exact Or.inl (Or.inl known)
  · rcases forward_of_set ran with rfl | forward
    · exact Or.inl (Or.inr ⟨info, isInfo, same⟩)
    · rw [ConfigMap.get, forward, Map.lookup_insert_eq] at isInfo
      split at isInfo
      · rename_i isHost
        obtain rfl := Option.some.inj isInfo
        exact Or.inr ⟨isHost, same⟩
      · exact Or.inl (Or.inr ⟨info, isInfo, same⟩)

/-- A message that is read brings only what it says, and nothing about this machine. -/
theorem believes_of_readMessage {addr : SocketAddr} {id : MachineId} {message : Message Hash}
    {sent : List (Sent Hash)} (foreign : id ≠ gossip.machineId)
    (ran : gossip.readMessage forObject addr id message = .ok (sent, next))
    (believes : next.Believes host matter) :
    gossip.Believes host matter ∨ host ≠ gossip.machineId ∧ message.Says id host matter := by
  cases message with
  | baseDirs inProgress watching complete deleted baseDirs =>
      obtain ⟨around, _, ran⟩ := Run.bind_eq_ok_iff.mp ran
      obtain ⟨-, rfl⟩ := Prod.mk.inj (Except.ok.inj ran)
      obtain ⟨data, found, holds⟩ | known := believes
      · dsimp only at found
        split at found
        · rw [Map.lookup_erase_eq] at found
          split at found
          · cases found
          · exact Or.inl (Or.inl ⟨data, found, holds⟩)
        · rw [Map.lookup_insert_eq] at found
          split at found
          · rename_i same
            obtain rfl := Option.some.inj found
            subst same
            refine Or.inr ⟨foreign, ?_⟩
            cases matter with
            | downloading place progress =>
                obtain ⟨path, rfl, member⟩ := mem_of_lookup_table holds
                exact .inProgress member
            | complete place image =>
                obtain ⟨path, rfl, member⟩ := mem_of_lookup_table holds
                exact .complete member
            | watching place => exact .watching holds
            | deleted pair => exact .deleted holds
            | config paths => exact absurd holds not_false
          · exact Or.inl (Or.inl ⟨data, found, holds⟩)
      · exact Or.inl (Or.inr known)
  | downloading path image mask source watches =>
      obtain ⟨-, rfl⟩ := Prod.mk.inj (Except.ok.inj ran)
      rcases believes_watch believes with early | ⟨isForeign, member, rfl⟩
      · have changes (data : HostData)
            (holds : ({ data with
              downloading := data.downloading.insert path.place ⟨image, mask, source, false⟩ } :
              HostData).Holds matter) :
            data.Holds matter ∨ matter = .downloading path.place ⟨image, mask, source, false⟩ := by
          cases matter with
          | downloading place progress =>
              rw [HostData.Holds, Map.lookup_insert_eq] at holds
              split at holds
              · rename_i same
                exact Or.inr (by rw [same, Option.some.inj holds])
              · exact Or.inl holds
          | _ => exact Or.inl holds
        rcases believes_adjustHost (· = .downloading path.place ⟨image, mask, source, false⟩) changes
          ((believes_congr rfl rfl).mp early) with old | ⟨rfl, rfl⟩
        · exact Or.inl old
        · exact Or.inr ⟨foreign, .downloads⟩
      · exact Or.inr ⟨isForeign, .waits member⟩
  | reconcile base hash watches =>
      obtain ⟨around, _, ran⟩ := Run.bind_eq_ok_iff.mp ran
      obtain ⟨-, rfl⟩ := Prod.mk.inj (Except.ok.inj ran)
      rcases believes_foldl_watch believes with early | ⟨isForeign, entry, member, isHost, rfl⟩
      · exact Or.inl ((believes_congr rfl rfl).mp early)
      · exact Or.inr ⟨isForeign, .waitsBelow member isHost⟩
  | complete path image =>
      obtain ⟨-, rfl⟩ := Prod.mk.inj (Except.ok.inj ran)
      have changes (data : HostData)
          (holds : ({ data with
            downloading := data.downloading.erase path.place
            complete := data.complete.insert path.place image } : HostData).Holds matter) :
          data.Holds matter ∨ matter = .complete path.place image := by
        cases matter with
        | downloading place progress =>
            rw [HostData.Holds, Map.lookup_erase_eq] at holds
            split at holds
            · cases holds
            · exact Or.inl holds
        | complete place other =>
            rw [HostData.Holds, Map.lookup_insert_eq] at holds
            split at holds
            · rename_i same
              exact Or.inr (by rw [same, Option.some.inj holds])
            · exact Or.inl holds
        | _ => exact Or.inl holds
      rcases believes_adjustHost (· = .complete path.place image) changes believes with old | ⟨rfl, rfl⟩
      · exact Or.inl old
      · exact Or.inr ⟨foreign, .completed⟩
  | completeAck path =>
      rw [Gossip.readMessage] at ran
      split at ran
      · rename_i data known
        obtain ⟨-, rfl⟩ := Prod.mk.inj (Except.ok.inj ran)
        rcases believes_insert gossip believes rfl rfl with old | ⟨rfl, holds⟩
        · exact Or.inl old
        · refine Or.inl (Or.inl ⟨data, known, ?_⟩)
          cases matter with
          | watching place =>
              obtain ⟨other, member, same⟩ := holds
              exact ⟨other, List.mem_of_mem_filter member, same⟩
          | _ => exact holds
      · obtain ⟨-, rfl⟩ := Prod.mk.inj (Except.ok.inj ran)
        exact Or.inl believes
  | configSync paths =>
      obtain ⟨configs, isSet, ran⟩ := Run.bind_eq_ok_iff.mp ran
      obtain ⟨-, rfl⟩ := Prod.mk.inj (Except.ok.inj ran)
      rcases believes_set isSet believes with old | ⟨rfl, rfl⟩
      · exact Or.inl old
      · exact Or.inr ⟨foreign, .config⟩

/-- A report about a base directory changes nothing on the connections. -/
theorem incoming_of_reconcileDir {around after : Around Hash} {config : Config} {path : VPath}
    {hash : Hash} {addr : SocketAddr} {id : MachineId}
    (ran : around.reconcileDir config path hash addr id = .ok after) :
    after.incoming = around.incoming := by
  unfold Around.reconcileDir at ran
  split at ran
  · rw [← Except.ok.inj ran]
  split at ran
  · rw [← Except.ok.inj ran]
  split at ran
  · dsimp only at ran
    split at ran
    · obtain ⟨peers, _, done⟩ := Run.bind_eq_ok_iff.mp ran
      rw [← Except.ok.inj done]
    · obtain ⟨current, _, rest⟩ := Run.bind_eq_ok_iff.mp ran
      split at rest
      · rw [← Except.ok.inj rest]
      · rw [← Except.ok.inj rest]
  · rw [← Except.ok.inj ran]

/-- What reading leaves as it is. -/
structure Unmoved (gossip next : Gossip Hash) : Prop where
  machineId : next.machineId = gossip.machineId
  configList : next.configList = gossip.configList
  messages : next.messages = gossip.messages
  incoming : next.around.incoming = gossip.around.incoming
  peers : next.peers = gossip.peers

theorem unmoved_of_readMessage {addr : SocketAddr} {id : MachineId} {message : Message Hash}
    {sent : List (Sent Hash)}
    (ran : gossip.readMessage forObject addr id message = .ok (sent, next)) :
    Unmoved gossip next := by
  cases message with
  | baseDirs inProgress watching complete deleted baseDirs =>
      obtain ⟨around, reconciled, ran⟩ := Run.bind_eq_ok_iff.mp ran
      obtain ⟨-, rfl⟩ := Prod.mk.inj (Except.ok.inj ran)
      have incoming : around.incoming = gossip.around.incoming :=
        Run.inv_of_foldlM (fun around => around.incoming = gossip.around.incoming) reconciled rfl
          fun entry _ before after taken same => (incoming_of_reconcileDir taken).trans same
      exact ⟨rfl, rfl, rfl, (checkWatched_spec _ _ _).2.trans incoming, rfl⟩
  | downloading path image mask source watches =>
      obtain ⟨-, rfl⟩ := Prod.mk.inj (Except.ok.inj ran)
      obtain ⟨byHost, same, _⟩ := watch_spec { gossip.adjustHost id fun host =>
        { host with downloading := host.downloading.insert path.place ⟨image, mask, source, false⟩ }
        with around := gossip.around.checkWatched gossip.config [path] } path watches
      rw [same]
      exact ⟨rfl, rfl, rfl, (checkWatched_spec _ _ _).2, rfl⟩
  | reconcile base hash watches =>
      obtain ⟨around, reconciled, ran⟩ := Run.bind_eq_ok_iff.mp ran
      obtain ⟨-, rfl⟩ := Prod.mk.inj (Except.ok.inj ran)
      obtain ⟨byHost, same, _⟩ := foldl_watch_spec { gossip with around := around } watches.entries
      rw [same]
      exact ⟨rfl, rfl, rfl, incoming_of_reconcileDir reconciled, rfl⟩
  | complete path image =>
      obtain ⟨-, rfl⟩ := Prod.mk.inj (Except.ok.inj ran)
      exact ⟨rfl, rfl, rfl, rfl, rfl⟩
  | completeAck path =>
      rw [Gossip.readMessage] at ran
      split at ran
      · obtain ⟨-, rfl⟩ := Prod.mk.inj (Except.ok.inj ran)
        exact ⟨rfl, rfl, rfl, rfl, rfl⟩
      · obtain ⟨-, rfl⟩ := Prod.mk.inj (Except.ok.inj ran)
        exact ⟨rfl, rfl, rfl, rfl, rfl⟩
  | configSync paths =>
      obtain ⟨configs, _, ran⟩ := Run.bind_eq_ok_iff.mp ran
      obtain ⟨-, rfl⟩ := Prod.mk.inj (Except.ok.inj ran)
      exact ⟨rfl, rfl, rfl, rfl, rfl⟩

omit [DecidableEq Hash] in
/-- The images that are acknowledged go on under the name of a peer. -/
theorem mem_acknowledge {addr : SocketAddr} {id : MachineId} {complete : List (VPath × ImageId)}
    {item : Sent Hash} (member : item ∈ gossip.acknowledge addr id complete) :
    ∃ peer, gossip.peers.lookup id = some peer ∧ ∃ entry ∈ complete,
      item = .forwarded entry.2 entry.1 peer ∨
        item = .packet addr (gossip.packetTo id (.completeAck entry.1)) := by
  unfold Gossip.acknowledge at member
  split at member
  · rename_i peer known
    obtain ⟨entry, isEntry, isItem⟩ := List.mem_flatMap.mp member
    simp only [List.mem_cons, List.not_mem_nil, or_false] at isItem
    exact ⟨peer, known, entry, isEntry, isItem⟩
  · cases member

/-- What is sent while a message is read comes from the images it says to be complete. -/
theorem sent_of_readMessage {addr : SocketAddr} {id : MachineId} {message : Message Hash}
    {sent : List (Sent Hash)} {item : Sent Hash}
    (ran : gossip.readMessage forObject addr id message = .ok (sent, next)) (member : item ∈ sent) :
    ∃ peer, gossip.peers.lookup id = some peer ∧ ∃ path image,
      message.Says id id (.complete path.place image) ∧ (item = .forwarded image path peer ∨
        item = .packet addr (gossip.packetTo id (.completeAck path))) := by
  cases message with
  | baseDirs inProgress watching complete deleted baseDirs =>
      obtain ⟨around, _, ran⟩ := Run.bind_eq_ok_iff.mp ran
      obtain ⟨rfl, -⟩ := Prod.mk.inj (Except.ok.inj ran)
      obtain ⟨peer, known, ⟨path, image⟩, isEntry, isItem⟩ := mem_acknowledge member
      exact ⟨peer, known, path, image, .complete isEntry, isItem⟩
  | complete path image =>
      obtain ⟨rfl, -⟩ := Prod.mk.inj (Except.ok.inj ran)
      obtain ⟨peer, known, entry, isEntry, isItem⟩ := mem_acknowledge member
      obtain rfl := List.mem_singleton.mp isEntry
      exact ⟨peer, known, path, image, .completed, isItem⟩
  | downloading path image mask source watches =>
      obtain ⟨rfl, -⟩ := Prod.mk.inj (Except.ok.inj ran)
      cases member
  | reconcile base hash watches =>
      obtain ⟨around, _, ran⟩ := Run.bind_eq_ok_iff.mp ran
      obtain ⟨rfl, -⟩ := Prod.mk.inj (Except.ok.inj ran)
      cases member
  | completeAck path =>
      rw [Gossip.readMessage] at ran
      split at ran
      · obtain ⟨rfl, -⟩ := Prod.mk.inj (Except.ok.inj ran)
        cases member
      · obtain ⟨rfl, -⟩ := Prod.mk.inj (Except.ok.inj ran)
        cases member
  | configSync paths =>
      obtain ⟨configs, _, ran⟩ := Run.bind_eq_ok_iff.mp ran
      obtain ⟨rfl, -⟩ := Prod.mk.inj (Except.ok.inj ran)
      cases member

/-- All that comes of a packet: beliefs that it has brought, and news and replies that rest
on it. -/
structure Heard (gossip : Gossip Hash) (packet : Packet Hash) (sent : List (Sent Hash))
    (next : Gossip Hash) : Prop where
  machineId : next.machineId = gossip.machineId
  configList : next.configList = gossip.configList
  messages : next.messages = gossip.messages
  incoming : next.around.incoming = gossip.around.incoming
  believes : ∀ host matter, next.Believes host matter → gossip.Believes host matter ∨
    host ≠ gossip.machineId ∧ packet.Says host matter
  peers : ∀ id peer, next.peers.lookup id = some peer →
    gossip.peers.lookup id = some peer ∨ peer.id = id
  forwarded : ∀ image path peer, .forwarded image path peer ∈ sent →
    packet.machineId ≠ gossip.machineId ∧ next.peers.lookup packet.machineId = some peer ∧
      packet.Says packet.machineId (.complete path.place image)
  replies : ∀ addr reply, .packet addr reply ∈ sent → reply.machineId = gossip.machineId ∧
    ∀ host matter, reply.Says host matter →
      host = gossip.machineId ∧ matter = .config gossip.configList

theorem heard_of_readPacket {addr : SocketAddr} {packet : Packet Hash} {sent : List (Sent Hash)}
    (ran : gossip.readPacket forObject addr packet = .ok (sent, next)) :
    Heard gossip packet sent next := by
  unfold Gossip.readPacket at ran
  split at ran
  · obtain ⟨rfl, rfl⟩ := Prod.mk.inj (Except.ok.inj ran)
    exact ⟨rfl, rfl, rfl, rfl, fun _ _ old => Or.inl old, fun _ _ old => Or.inl old, by simp, by simp⟩
  · rename_i foreign
    obtain ⟨⟨sent', next'⟩, isRead, ran⟩ := Run.bind_eq_ok_iff.mp ran
    obtain ⟨rfl, rfl⟩ := Prod.mk.inj (Except.ok.inj ran)
    have met : ∀ id peer, (gossip.meet addr packet.machineId).peers.lookup id = some peer →
        gossip.peers.lookup id = some peer ∨ peer.id = id := by
      intro id peer known
      unfold Gossip.meet at known
      split at known
      · rw [Map.lookup_insert_eq] at known
        split at known
        · rename_i same
          rw [← Option.some.inj known]
          exact Or.inr same.symm
        · exact Or.inl known
      · exact Or.inl known
    obtain ⟨futurePeers, peers, isMet⟩ := meet_spec gossip addr packet.machineId
    have unmoved := unmoved_of_readMessage isRead
    rw [← unmoved.peers] at met
    have isForeign : packet.machineId ≠ (gossip.meet addr packet.machineId).machineId := by
      rw [isMet]
      exact foreign
    have said := fun item (member : item ∈ sent') => sent_of_readMessage isRead member
    have brought := fun host matter (believes : next'.Believes host matter) =>
      believes_of_readMessage isForeign isRead believes
    rw [← unmoved.peers] at said
    rw [isMet] at unmoved said brought
    refine ⟨unmoved.machineId, unmoved.configList, unmoved.messages, unmoved.incoming, brought, met,
      fun image path peer member => ?_, fun replyAddr reply member => ?_⟩
    · have inner : .forwarded image path peer ∈ sent' := by
        rcases List.mem_append.mp member with config | inner
        · split at config
          · cases config
          · simp at config
        · exact inner
      obtain ⟨known, isKnown, there, other, claim, same | same⟩ := said _ inner
      · obtain ⟨rfl, rfl, rfl⟩ := Sent.forwarded.inj same
        exact ⟨foreign, isKnown, claim⟩
      · cases same
    · rcases List.mem_append.mp member with config | inner
      · split at config
        · cases config
        · obtain ⟨-, rfl⟩ := Sent.packet.inj (List.mem_singleton.mp config)
          rw [isMet]
          refine ⟨rfl, fun host matter claim => ?_⟩
          cases claim with
          | config => exact ⟨rfl, rfl⟩
      · obtain ⟨known, isKnown, there, other, claim, same | same⟩ := said _ inner
        · cases same
        · obtain ⟨-, rfl⟩ := Sent.packet.inj same
          exact ⟨rfl, fun host matter claim => by cases claim⟩

end Reading

section Writing

variable {Hash : Type} {gossip : Gossip Hash} {host id : MachineId} {place : List Component}

/-- A machine is among those that wait for a path. -/
def WaitsIn (watches : PathMap (List MachineId)) (host : MachineId) (place : List Component) : Prop :=
  ∃ entry ∈ watches.entries, entry.1.place = place ∧ host ∈ entry.2

theorem waitsIn_of_adjust {watches : PathMap (List MachineId)} {path : VPath}
    (waits : WaitsIn (watches.adjust path [] (List.insert id)) host place) :
    WaitsIn watches host place ∨ host = id ∧ path.place = place := by
  obtain ⟨entry, member, rfl, isHost⟩ := waits
  unfold PathMap.adjust at member
  split at member
  · obtain ⟨old, isOld, rfl⟩ := List.mem_map.mp member
    split at isHost
    · rename_i same
      rw [if_pos same]
      rcases List.mem_insert_iff.mp isHost with rfl | before
      · exact Or.inr ⟨rfl, same.symm⟩
      · exact Or.inl ⟨old, isOld, rfl, before⟩
    · rename_i different
      rw [if_neg different]
      exact Or.inl ⟨old, isOld, rfl, isHost⟩
  · rcases List.mem_cons.mp member with rfl | old
    · have isNew : host ∈ List.insert id [] := isHost
      rcases List.mem_insert_iff.mp isNew with rfl | nothing
      · exact Or.inr ⟨rfl, rfl⟩
      · cases nothing
    · exact Or.inl ⟨entry, old, rfl, isHost⟩

theorem waitsIn_of_fillWatches {base : VPath} {paths : List VPath}
    {watches filled : PathMap (List MachineId)}
    (ran : Gossip.fillWatches base id paths watches = .ok filled) (waits : WaitsIn filled host place) :
    WaitsIn watches host place ∨ host = id ∧ ∃ path ∈ paths, path.place = place := by
  refine Run.inv_of_foldlM (fun filled => WaitsIn filled host place →
    WaitsIn watches host place ∨ host = id ∧ ∃ path ∈ paths, path.place = place)
    ran Or.inl (fun path member before after step ih waits => ?_) waits
  obtain ⟨parent, _, done⟩ := Run.bind_eq_ok_iff.mp step
  obtain rfl := Except.ok.inj done
  split at waits
  · rcases waitsIn_of_adjust waits with old | ⟨rfl, same⟩
    · exact ih old
    · exact Or.inr ⟨rfl, path, member, same⟩
  · exact ih waits

/-- A path that a machine is known to wait for. -/
theorem believes_of_mem_watchingOf {path : VPath} (member : path ∈ gossip.watchingOf id) :
    gossip.Believes id (.watching path.place) := by
  unfold Gossip.watchingOf at member
  cases found : gossip.byHost.lookup id with
  | none =>
      rw [found] at member
      cases member
  | some data =>
      rw [found] at member
      exact Or.inl ⟨data, found, path, member, rfl⟩

/-- The machines of a list after others were added. -/
theorem mem_foldl_insert {ids hosts : List MachineId}
    (member : host ∈ hosts.foldl (fun watches id => watches.insert id) ids) :
    host ∈ hosts ∨ host ∈ ids := by
  induction hosts generalizing ids with
  | nil => exact Or.inr member
  | cons first rest ih =>
      rcases ih member with later | early
      · exact Or.inl (List.mem_cons_of_mem _ later)
      · rcases List.mem_insert_iff.mp early with rfl | old
        · exact Or.inl List.mem_cons_self
        · exact Or.inr old

/-- A message that goes out says what it said in the queue, what is believed of others, and
what the clients of this machine wait for. -/
theorem claims_of_fillMsg {hosts : List MachineId} {message filled : Message Hash}
    {sender : MachineId} {matter : Matter} (ran : gossip.fillMsg hosts message = .ok filled)
    (claim : filled.Says sender host matter) :
    message.Says sender host matter ∨ gossip.Believes host matter ∨ host = gossip.machineId ∧
      ∃ place, matter = .watching place ∧ gossip.around.getWatching.Contains place := by
  cases message with
  | reconcile base hash watches =>
      obtain ⟨others, byHosts, rest⟩ := Run.bind_eq_ok_iff.mp ran
      obtain ⟨both, own, done⟩ := Run.bind_eq_ok_iff.mp rest
      obtain rfl := Except.ok.inj done
      cases claim with
      | @waitsBelow _ _ _ path ids _ member isHost =>
          rcases waitsIn_of_fillWatches own ⟨_, member, rfl, isHost⟩ with known | ⟨rfl, watches⟩
          · have told : WaitsIn others host path.place → WaitsIn watches host path.place ∨
                gossip.Believes host (.watching path.place) :=
              Run.inv_of_foldlM (fun filled => WaitsIn filled host path.place →
                WaitsIn watches host path.place ∨ gossip.Believes host (.watching path.place))
                byHosts Or.inl fun id _ before after step ih waits => by
                  rcases waitsIn_of_fillWatches step waits with old | ⟨rfl, other, isOther, same⟩
                  · exact ih old
                  · rw [← same]
                    exact Or.inr (believes_of_mem_watchingOf isOther)
            rcases told known with ⟨⟨there, ids⟩, isEntry, same, isHost⟩ | believes
            · rw [← same]
              exact Or.inl (.waitsBelow isEntry isHost)
            · exact Or.inr (Or.inl believes)
          · exact Or.inr (Or.inr ⟨rfl, path.place, rfl, watches⟩)
  | downloading path image mask source watches =>
      obtain rfl := Except.ok.inj ran
      cases claim with
      | downloads => exact Or.inl .downloads
      | waits member =>
          have known (listed : host ∈ (hosts.filter fun id => (gossip.byHost.lookup id).any fun host =>
                decide (host.watching.Contains path.place)).foldl
                (fun watches id => watches.insert id) watches) :
              Message.Says sender (.downloading path image mask source watches : Message Hash) host
                (.watching path.place) ∨ gossip.Believes host (.watching path.place) := by
            rcases mem_foldl_insert listed with watcher | old
            · obtain ⟨data, found, holds⟩ :=
                (Option.any_eq_true _ _).mp (List.mem_filter.mp watcher).2
              have contains : data.watching.Contains path.place := of_decide_eq_true holds
              exact Or.inr (Or.inl ⟨data, found, contains⟩)
            · exact Or.inl (.waits old)
          split at member
          · rename_i own
            rcases List.mem_insert_iff.mp member with rfl | listed
            · exact Or.inr (Or.inr ⟨rfl, path.place, rfl, own⟩)
            · exact (known listed).imp_right Or.inl
          · exact (known member).imp_right Or.inl
  | baseDirs inProgress watching complete deleted baseDirs =>
      obtain rfl := Except.ok.inj ran
      exact Or.inl claim
  | complete path image =>
      obtain rfl := Except.ok.inj ran
      exact Or.inl claim
  | completeAck path =>
      obtain rfl := Except.ok.inj ran
      exact Or.inl claim
  | configSync paths =>
      obtain rfl := Except.ok.inj ran
      exact Or.inl claim

end Writing

end Peers

end Ciruela
