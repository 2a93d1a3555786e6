import Ciruela.Daemon.Peers.GossipSafety
import Ciruela.Foundation.Cyclic

/-!
# Whom gossip goes to

A message about a path goes to everybody who waits for the path, to the next machine that is
configured for its directory, and to some more. No machine finds itself among the configured
ones, so each of them looks for the next one in a list of its own, and together these choices
go round the cluster once.
-/

namespace Ciruela

open Foundation

namespace Peers

open Remote (SocketAddr)

variable {Hash : Type}

/-- The configured peer that a message goes to in any case. -/
def Gossip.successor (gossip : Gossip Hash) (ids : Finset MachineId) : Option MachineId :=
  (sortIds ids)[nextInList IdLe (sortIds ids) gossip.machineId]?

/-- A message is about this path. -/
def Message.About (path : VPath) : Message Hash → Prop
  | .reconcile there _ _ => there = path
  | .downloading there _ _ _ _ => there = path
  | .complete there _ => there = path
  | _ => False

/-- The packet goes to the address of the peer. -/
def Gossip.Sends (gossip : Gossip Hash) (dest : Map SocketAddr MachineId) (id : MachineId) : Prop :=
  ∃ peer, gossip.peers.lookup id = some peer ∧ ∃ target, dest.lookup peer.addr = some target ∧
    ∃ other, gossip.peers.lookup target = some other ∧ other.addr = peer.addr

section Destinations

variable {gossip : Gossip Hash} {dest next : Map SocketAddr MachineId} {id : MachineId}

/-- Every destination is the address of a peer. -/
def Gossip.Known (gossip : Gossip Hash) (dest : Map SocketAddr MachineId) : Prop :=
  ∀ addr target, dest.lookup addr = some target →
    ∃ other, gossip.peers.lookup target = some other ∧ other.addr = addr

/-- Peers are added to the destinations. -/
structure Gossip.Extends (gossip : Gossip Hash) (dest next : Map SocketAddr MachineId) : Prop where
  known : gossip.Known dest → gossip.Known next
  keeps : ∀ addr, addr ∈ dest → addr ∈ next

theorem Gossip.Extends.refl (dest : Map SocketAddr MachineId) : gossip.Extends dest dest :=
  ⟨id, fun _ => id⟩

theorem Gossip.Extends.trans {last : Map SocketAddr MachineId} (first : gossip.Extends dest next)
    (second : gossip.Extends next last) : gossip.Extends dest last :=
  ⟨second.known ∘ first.known, fun addr member => second.keeps addr (first.keeps addr member)⟩

/-- Who is known and among the destinations is sent to. -/
theorem Gossip.Known.sends (known : gossip.Known dest) {peer : Peer}
    (isPeer : gossip.peers.lookup id = some peer) (member : peer.addr ∈ dest) :
    gossip.Sends dest id := by
  obtain ⟨target, isTarget⟩ := Finmap.mem_iff.mp member
  exact ⟨peer, isPeer, target, isTarget, known _ _ isTarget⟩

theorem extends_insert {peer : Peer} (isPeer : gossip.peers.lookup id = some peer) :
    gossip.Extends dest (dest.insert peer.addr id) where
  known known addr target isTarget := by
    rw [Map.lookup_insert_eq] at isTarget
    split at isTarget
    · rename_i same
      obtain rfl := Option.some.inj isTarget
      exact ⟨peer, isPeer, same.symm⟩
    · exact known addr target isTarget
  keeps addr member := Finmap.mem_insert.mpr (Or.inr member)

/-- Adding a machine only extends the destinations. -/
theorem extends_addKnown (dest : Map SocketAddr MachineId) (id : MachineId) :
    gossip.Extends dest (gossip.addKnown dest id) := by
  unfold Gossip.addKnown
  split
  · rename_i peer isPeer
    exact extends_insert isPeer
  · exact .refl dest

theorem extends_foldl_addKnown (ids : List MachineId) (dest : Map SocketAddr MachineId) :
    gossip.Extends dest (ids.foldl gossip.addKnown dest) := by
  induction ids generalizing dest with
  | nil => exact .refl dest
  | cons id rest ih => exact (extends_addKnown dest id).trans (ih _)

/-- Every machine that is added and known is among the destinations. -/
theorem mem_foldl_addKnown {ids : List MachineId} (member : id ∈ ids) {peer : Peer}
    (isPeer : gossip.peers.lookup id = some peer) (dest : Map SocketAddr MachineId) :
    peer.addr ∈ ids.foldl gossip.addKnown dest := by
  induction ids generalizing dest with
  | nil => cases member
  | cons first rest ih =>
      rw [List.foldl_cons]
      rcases List.mem_cons.mp member with rfl | later
      · apply (extends_foldl_addKnown rest _).keeps
        rw [Gossip.addKnown, isPeer]
        exact Finmap.mem_insert.mpr (Or.inl rfl)
      · exact ih later _

/-- Adding a peer only extends the destinations. -/
theorem extends_addPeer {sorted : List MachineId} {idx : Nat}
    (added : gossip.addPeer sorted idx dest = .ok next) : gossip.Extends dest next := by
  obtain ⟨id, _, added⟩ := Run.bind_eq_ok_iff.mp added
  split at added
  · rename_i peer isPeer
    rw [← Except.ok.inj added]
    exact extends_insert isPeer
  · rw [← Except.ok.inj added]
    exact .refl dest

/-- The next machine is among the destinations where there are two that are configured. -/
theorem addConfigured_spec {choice : Choice} {ids : Finset MachineId} (many : 1 < ids.card)
    (added : gossip.addConfigured choice ids dest = .ok next) :
    gossip.Extends dest next ∧ ∀ id peer, gossip.successor ids = some id →
      gossip.peers.lookup id = some peer → peer.addr ∈ next := by
  have length : (sortIds ids).length = ids.card := Finset.length_sort IdLe
  unfold Gossip.addConfigured at added
  rw [if_pos (by rw [length]; exact many)] at added
  obtain ⟨first, isFirst, added⟩ := Run.bind_eq_ok_iff.mp added
  have rest : gossip.Extends first next :=
    Run.inv_of_foldlM (gossip.Extends first) added (.refl first) fun i _ value after step inv => by
      obtain ⟨random, _, step⟩ := Run.bind_eq_ok_iff.mp step
      exact inv.trans (extends_addPeer step)
  refine ⟨(extends_addPeer isFirst).trans rest, fun id peer isNext isPeer => rest.keeps _ ?_⟩
  have place : nextInList IdLe (sortIds ids) gossip.machineId < (sortIds ids).length :=
    (List.getElem?_eq_some_iff.mp isNext).1
  obtain ⟨found, isFound, isFirst⟩ := Run.bind_eq_ok_iff.mp isFirst
  rw [Run.expect_eq_ok_iff] at isFound
  have same : found = id := by
    rw [Gossip.successor, ← Nat.mod_eq_of_lt place] at isNext
    exact Option.some.inj (isFound.symm.trans isNext)
  rw [same, isPeer] at isFirst
  rw [← Except.ok.inj isFirst]
  exact Finmap.mem_insert.mpr (Or.inl rfl)

/-- Who waits for the path gets the packet, and so does the next machine. -/
theorem destForPath_spec {choice : Choice} {path base : VPath} {ids : Finset MachineId}
    (isBase : path.keyVpath = .ok base) (configured : gossip.configs.byDir base = some ids)
    (many : 1 < ids.card) (fits : choice.Fits gossip) :
    ∃ dest, gossip.destForPath choice path = .ok dest ∧
      (∀ next, gossip.successor ids = some next → next ∈ gossip.peers → gossip.Sends dest next) ∧
      ∀ watcher host, gossip.byHost.lookup watcher = some host →
        host.watching.Contains path.place → watcher ∈ gossip.peers → gossip.Sends dest watcher := by
  obtain ⟨dest, isDest⟩ := returns_destForPath gossip choice path
  refine ⟨dest, isDest, ?_⟩
  unfold Gossip.destForPath at isDest
  rw [isBase, Run.ok_bind, configured] at isDest
  obtain ⟨chosen, added, isDest⟩ := Run.bind_eq_ok_iff.mp isDest
  generalize isWatchers : choice.hosts.filter _ = watchers at added
  have last : gossip.Extends chosen dest := by
    dsimp only at isDest
    split at isDest
    · rw [← Except.ok.inj isDest]
      exact extends_foldl_addKnown _ _
    · rw [← Except.ok.inj isDest]
      exact .refl chosen
  have nothing : gossip.Known ∅ := by
    intro addr target isTarget
    rw [Finmap.lookup_empty] at isTarget
    cases isTarget
  obtain ⟨extended, _⟩ := addConfigured_spec many added
  have known : gossip.Known dest :=
    last.known (extended.known ((extends_foldl_addKnown watchers ∅).known nothing))
  constructor
  · intro next isNext isKnown
    obtain ⟨peer, isPeer⟩ := Finmap.mem_iff.mp isKnown
    exact known.sends isPeer (last.keeps _ ((addConfigured_spec many added).2 next peer isNext isPeer))
  · intro watcher host isHost watches isKnown
    obtain ⟨peer, isPeer⟩ := Finmap.mem_iff.mp isKnown
    have isWatcher : watcher ∈ watchers := by
      rw [← isWatchers, List.mem_filter, isHost]
      refine ⟨?_, by simpa using watches⟩
      rw [← List.mem_toFinset, fits.2.1, Finmap.mem_keys]
      exact Finmap.mem_iff.mpr ⟨host, isHost⟩
    exact known.sends isPeer
      (last.keeps _ (extended.keeps _ (mem_foldl_addKnown isWatcher isPeer ∅)))

end Destinations

section Runs

variable {forObject : PathSet → Hash}

/-- A change keeps the own id and the configurations. -/
theorem change_configs {gossip next : Gossip Hash} {op : GossipOp Hash}
    (changes : gossip.change op = some next) :
    next.machineId = gossip.machineId ∧ next.configs = gossip.configs := by
  cases op with
  | receive addr packet => cases changes
  | write choice => cases changes
  | startDownload path =>
      rw [Gossip.change] at changes
      split at changes
      · obtain rfl := Option.some.inj changes
        exact ⟨rfl, rfl⟩
      · cases changes
  | _ =>
      obtain rfl := Option.some.inj changes
      exact ⟨rfl, rfl⟩

/-- The tables are sound, and this machine is not in its own. -/
structure Foreign (forObject : PathSet → Hash) (id : MachineId) (gossip : Gossip Hash) : Prop where
  sound : Sound forObject gossip
  own : gossip.machineId = id
  absent : gossip.configs.get id = none

/-- A foreign machine does not have the directory. -/
theorem Foreign.notMem_byDir {id : MachineId} {gossip : Gossip Hash}
    (foreign : Foreign forObject id gossip) {dir : VPath} {ids : Finset MachineId}
    (configured : gossip.configs.byDir dir = some ids) : id ∉ ids := by
  intro member
  obtain ⟨info, isInfo, _⟩ := (foreign.sound.configs.backward dir.place id).mp ⟨ids, configured, member⟩
  rw [foreign.absent] at isInfo
  cases isInfo

variable [DecidableEq Hash]

/-- Reading a message changes the configurations only by what its sender says of itself. -/
theorem readMessage_configs {gossip next : Gossip Hash} {addr : SocketAddr} {id : MachineId}
    {message : Message Hash} {sent : List (Sent Hash)}
    (ran : gossip.readMessage forObject addr id message = .ok (sent, next)) :
    next.configs = gossip.configs ∨
      ∃ paths, gossip.configs.set forObject id paths = .ok next.configs := by
  cases message with
  | baseDirs inProgress watching complete deleted baseDirs =>
      obtain ⟨around, _, ran⟩ := Run.bind_eq_ok_iff.mp ran
      obtain ⟨-, rfl⟩ := Prod.mk.inj (Except.ok.inj ran)
      exact Or.inl rfl
  | downloading there image mask source watches =>
      obtain ⟨-, rfl⟩ := Prod.mk.inj (Except.ok.inj ran)
      obtain ⟨byHost, same, _⟩ := watch_spec { gossip.adjustHost id fun host =>
        { host with downloading := host.downloading.insert there.place ⟨image, mask, source, false⟩ }
        with around := gossip.around.checkWatched gossip.config [there] } there watches
      left
      rw [same]
      rfl
  | reconcile there hash watches =>
      obtain ⟨around, _, ran⟩ := Run.bind_eq_ok_iff.mp ran
      obtain ⟨-, rfl⟩ := Prod.mk.inj (Except.ok.inj ran)
      obtain ⟨byHost, same, _⟩ := foldl_watch_spec { gossip with around := around } watches.entries
      left
      rw [same]
  | complete there image =>
      obtain ⟨-, rfl⟩ := Prod.mk.inj (Except.ok.inj ran)
      exact Or.inl rfl
  | completeAck there =>
      rw [Gossip.readMessage] at ran
      split at ran
      · obtain ⟨-, rfl⟩ := Prod.mk.inj (Except.ok.inj ran)
        exact Or.inl rfl
      · obtain ⟨-, rfl⟩ := Prod.mk.inj (Except.ok.inj ran)
        exact Or.inl rfl
  | configSync paths =>
      obtain ⟨configs, isSet, ran⟩ := Run.bind_eq_ok_iff.mp ran
      obtain ⟨-, rfl⟩ := Prod.mk.inj (Except.ok.inj ran)
      exact Or.inr ⟨paths, isSet⟩

/-- Only its configuration is learned from a packet. -/
theorem readPacket_configs {gossip next : Gossip Hash} {addr : SocketAddr} {packet : Packet Hash}
    {sent : List (Sent Hash)}
    (ran : gossip.readPacket forObject addr packet = .ok (sent, next)) :
    next.configs = gossip.configs ∨ packet.machineId ≠ gossip.machineId ∧
      ∃ paths, gossip.configs.set forObject packet.machineId paths = .ok next.configs := by
  unfold Gossip.readPacket at ran
  split at ran
  · obtain ⟨-, rfl⟩ := Prod.mk.inj (Except.ok.inj ran)
    exact Or.inl rfl
  · rename_i foreign
    obtain ⟨⟨sent', next'⟩, isRead, ran⟩ := Run.bind_eq_ok_iff.mp ran
    obtain ⟨-, rfl⟩ := Prod.mk.inj (Except.ok.inj ran)
    obtain ⟨futurePeers, peers, met⟩ := meet_spec gossip addr packet.machineId
    have configs := readMessage_configs isRead
    rw [met] at configs
    exact configs.imp_right fun isSet => ⟨foreign, isSet⟩

/-- A step keeps a machine foreign. -/
theorem Foreign.step {id : MachineId} {event : GossipEvent Hash}
    (foreign : Foreign forObject id event.before)
    (takes : (gossipMachine forObject).Takes event) : Foreign forObject id event.after := by
  obtain ⟨before, op, answer, after⟩ := event
  have sound := foreign.sound.step takes
  cases foreign.sound.took takes with
  | read addr packet isRead answers reads =>
      refine ⟨sound, reads.machineId.trans foreign.own, ?_⟩
      obtain rfl := isRead
      have stepped : before.exec forObject (.receive addr packet) = some (answer, after) := takes
      have settled := Option.some.inj stepped
      cases ran : before.readPacket forObject addr packet with
      | error panic =>
          rw [ran] at settled
          obtain ⟨-, rfl⟩ := Prod.mk.inj settled
          exact foreign.absent
      | ok read =>
          rw [ran] at settled
          obtain ⟨-, rfl⟩ := Prod.mk.inj settled
          obtain same | ⟨other, paths, isSet⟩ := readPacket_configs ran
          · rw [same]
            exact foreign.absent
          · obtain ⟨stored, isStored, _, kept | forward⟩ :=
              foreign.sound.configs.set packet.machineId paths
            · obtain ⟨_, _, _, rfl⟩ := kept
              rw [← Except.ok.inj (isStored.symm.trans isSet)]
              exact foreign.absent
            · rw [← Except.ok.inj (isStored.symm.trans isSet), ConfigMap.get, forward,
                Map.lookup_insert_eq, if_neg]
              · exact foreign.absent
              · rw [← foreign.own]
                exact other.symm
  | wrote _ _ _ _ _ _ _ kept =>
      obtain ⟨messages, _, same⟩ := kept
      obtain rfl : after = { before with messages := messages } := same
      exact ⟨sound, foreign.own, foreign.absent⟩
  | changed changes _ =>
      have same := change_configs changes
      refine ⟨sound, same.1.trans foreign.own, ?_⟩
      show after.configs.get id = none
      rw [same.2]
      exact foreign.absent

/-- No sequence of packets brings a machine into its own table. -/
theorem foreign_of_steps {id : MachineId} {config : Config} {configHash : Hash}
    {configList : PathSet} {futurePeers : Map SocketAddr (List Char)}
    {trace : List (GossipEvent Hash)} {finish : Gossip Hash}
    (steps : (gossipMachine forObject).Steps
      (.start id config configHash configList futurePeers) trace finish) :
    Foreign forObject id finish :=
  (steps.preserves (Foreign forObject id) (fun _ => True)
    (fun _ takes _ foreign => foreign.step takes) (fun _ _ => trivial)
    ⟨.start id config configHash configList futurePeers, rfl, by
      simp [Gossip.start, ConfigMap.get, ConfigMap.new]⟩).1

end Runs

/-- A cluster of at least three machines. Each of them has all others as the configured ones of
a directory, and knows their addresses. -/
structure Meshed (nodes : Finset MachineId) (node : MachineId → Gossip Hash) (base : VPath) :
    Prop where
  three : 3 ≤ nodes.card
  own : ∀ id ∈ nodes, (node id).machineId = id
  others : ∀ id ∈ nodes, (node id).configs.byDir base = some (nodes.erase id)
  known : ∀ id ∈ nodes, ∀ other ∈ nodes, other ≠ id → other ∈ (node id).peers

section Clusters

variable {nodes : Finset MachineId} {node : MachineId → Gossip Hash} {base : VPath}

/-- The successor in a mesh is the next machine of the cycle. -/
theorem Meshed.successor_eq (meshed : Meshed nodes node base) {id : MachineId} (member : id ∈ nodes) :
    (node id).successor (nodes.erase id) = some (cycleOf IdLe nodes id) := by
  have two : 2 ≤ nodes.card := (Nat.le_succ 2).trans meshed.three
  rw [Gossip.successor, meshed.own id member, ← getElem?_nextInList member two]
  rfl

/-- Nobody is its own successor in a mesh. -/
theorem Meshed.cycleOf_ne (meshed : Meshed nodes node base) {id : MachineId} (member : id ∈ nodes) :
    cycleOf IdLe nodes id ≠ id := by
  have length : (sortIds nodes).length = nodes.card := Finset.length_sort IdLe
  refine (List.formPerm_apply_mem_ne_self_iff _ (Finset.sort_nodup nodes IdLe) id
    ((Finset.mem_sort IdLe).mpr member)).mpr ?_
  have three := meshed.three
  rw [← length] at three
  exact (Nat.le_succ 2).trans three

/-- No machine is ever in its own table; a message goes to everybody who waits for its path and
to the next machine; and the next machines make up one cycle, in which each machine is the next
one of exactly one other. -/
theorem gossip_goes_round [DecidableEq Hash] (forObject : PathSet → Hash)
    (meshed : Meshed nodes node base) :
    (∀ id ∈ nodes, ∀ config configHash configList futurePeers trace finish,
      (gossipMachine forObject).Steps (.start id config configHash configList futurePeers) trace
          finish →
        finish.configs.get id = none ∧
          ∀ dir ids, finish.configs.byDir dir = some ids → id ∉ ids) ∧
    (∀ id ∈ nodes, ∃ next, (node id).successor (nodes.erase id) = some next ∧
      IsNext IdLe nodes id next ∧ next ≠ id ∧
      ∀ choice message path key, choice.Fits (node id) → message.About path →
        path.keyVpath = .ok key → key.place = base.place →
        ∃ dest, (node id).destForPacket choice message = .ok dest ∧ (node id).Sends dest next ∧
          ∀ watcher host, (node id).byHost.lookup watcher = some host →
            host.watching.Contains path.place → watcher ∈ (node id).peers →
              (node id).Sends dest watcher) ∧
    (∃ ring : Equiv.Perm MachineId, ring.IsCycleOn nodes ∧
      ∀ id ∈ nodes, (node id).successor (nodes.erase id) = some (ring id)) ∧
    ∀ target ∈ nodes, ∃! id, id ∈ nodes ∧ (node id).successor (nodes.erase id) = some target := by
  have two : 2 ≤ nodes.card := (Nat.le_succ 2).trans meshed.three
  have cycle : (cycleOf IdLe nodes).IsCycleOn nodes := isCycleOn_cycleOf nodes
  refine ⟨?_, ?_, ⟨cycleOf IdLe nodes, cycle, fun id member => meshed.successor_eq member⟩, ?_⟩
  · intro id _ config configHash configList futurePeers trace finish steps
    have foreign := foreign_of_steps steps
    exact ⟨foreign.absent, fun dir ids configured => foreign.notMem_byDir configured⟩
  · intro id member
    have isNext : IsNext IdLe nodes id (cycleOf IdLe nodes id) := isNext_cycleOf member two
    refine ⟨cycleOf IdLe nodes id, meshed.successor_eq member, isNext, meshed.cycleOf_ne member, ?_⟩
    intro choice message path key fits about isKey atBase
    have configured : (node id).configs.byDir key = some (nodes.erase id) := by
      rw [← meshed.others id member, ConfigMap.byDir, ConfigMap.byDir, atBase]
    have many : 1 < (nodes.erase id).card := by
      rw [Finset.card_erase_of_mem member]
      have three := meshed.three
      omega
    obtain ⟨dest, isDest, toNext, toWatchers⟩ := destForPath_spec isKey configured many fits
    have sends := toNext _ (meshed.successor_eq member)
      (meshed.known id member _ isNext.1 (meshed.cycleOf_ne member))
    refine ⟨dest, ?_, sends, toWatchers⟩
    cases message with
    | reconcile there hash watches =>
        obtain rfl := about
        exact isDest
    | downloading there image mask source watches =>
        obtain rfl := about
        exact isDest
    | complete there image =>
        obtain rfl := about
        exact isDest
    | _ => exact about.elim
  · intro target member
    obtain ⟨id, isNode, isTarget⟩ := cycle.1.surjOn member
    refine ⟨id, ⟨isNode, ?_⟩, ?_⟩
    · rw [meshed.successor_eq isNode, isTarget]
    · rintro other ⟨isOther, same⟩
      rw [meshed.successor_eq isOther] at same
      exact cycle.1.injOn isOther isNode ((Option.some.inj same).trans isTarget.symm)

end Clusters

namespace Sample

/-- The machines of the example. -/
def nodes : Finset MachineId := {[1], [2], [3]}

/-- A machine at the address that its id is. -/
def peer (id : MachineId) : Peer := ⟨id, ⟨id, 24783⟩, [], []⟩

/-- A machine that was told by two others that they serve `/k`, and has their addresses. -/
def told (id first second : MachineId) : Gossip Nat :=
  let telling (other : MachineId) : GossipOp Nat :=
    .receive (peer other).addr ⟨other, none, .configSync ⟨[Metadata.Sample.base], by simp⟩⟩
  let peers : Map MachineId Peer :=
    ((∅ : Map MachineId Peer).insert first (peer first)).insert second (peer second)
  ((gossipMachine count).play (.start id (Metadata.Sample.env false).config 0 .empty ∅)
    [telling first, telling second, .refresh peers]).2

/-- Every machine has heard of the two others. -/
def node (id : MachineId) : Gossip Nat :=
  if id = [1] then told [1] [2] [3] else if id = [2] then told [2] [1] [3] else told [3] [1] [2]

end Sample

/-- In a cluster of three the last machine goes on to the first one. -/
theorem gossip_goes_round_three :
    ∃ ring : Equiv.Perm MachineId, ring.IsCycleOn Sample.nodes ∧
      ∀ id ∈ Sample.nodes, (Sample.node id).successor (Sample.nodes.erase id) = some (ring id) := by
  have meshed : Meshed Sample.nodes Sample.node Metadata.Sample.base := by
    refine ⟨by decide, by decide, by decide, ?_⟩
    decide
  exact (gossip_goes_round Sample.count meshed).2.2.1

end Peers

end Ciruela
