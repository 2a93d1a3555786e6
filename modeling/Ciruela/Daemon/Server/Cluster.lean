import Ciruela.Daemon.Server.Happened

/-!
# A cluster of servers

The servers of a cluster gossip in packets that may be lost, doubled, delayed and delivered to
the wrong machine. Nothing is believed of a machine that did not happen on that machine:
neither about its images and downloads, nor about its configuration, nor about what its
clients wait for, which is passed on from machine to machine.
-/

namespace Ciruela

open Foundation

open Remote (SocketAddr)
open Peers (Gossip GossipOp Packet PathSet Peer Choice Sent Matter)

/-- The servers, each with its own machine id, and the packets between them. -/
def cluster {Hash : Type} [DecidableEq Hash] (forObject : PathSet → Hash)
    (setup : MachineId → Setup Hash) :
    Network MachineId (Server Hash) (ServerOp Hash) (Multiset (SocketAddr × Packet Hash))
      (Packet Hash) where
  party id := serverMachine (setup id).env forObject
  takes op packet := ∃ addr, op = .receive addr packet
  sends sent packet := ∃ addr, (addr, packet) ∈ sent

/-- A step of one of the servers. -/
abbrev ClusterEvent (Hash : Type) := Network.Event MachineId (Server Hash) (ServerOp Hash)
  (Multiset (SocketAddr × Packet Hash))

section Grounds

variable {Hash : Type} [DecidableEq Hash] {setup : Setup Hash} {forObject : PathSet → Hash}
  {own : MachineId} {Told : MachineId → Matter → Prop} {history : List (ServerEvent Hash)}
  {event : ServerEvent Hash} {server : Server Hash}

variable (setup own Told) in
/-- A server believes what it was told of others, and what waits in its queue has happened
here. -/
structure Grounded (history : List (ServerEvent Hash)) (server : Server Hash) : Prop where
  machineId : server.gossip.machineId = own
  configList : server.gossip.configList = setup.configList
  believes : ∀ host matter, server.gossip.Believes host matter → host ≠ own ∧ Told host matter
  queued : ∀ message ∈ server.gossip.messages, ∀ host matter,
    message.Says own host matter → host = own ∧ Happened setup history matter

omit [DecidableEq Hash] in
/-- Nothing is believed at first. -/
theorem grounded_start : Grounded setup own Told [] (setup.server own) where
  machineId := rfl
  configList := rfl
  believes host matter believes := by
    obtain ⟨data, found, _⟩ | ⟨info, isInfo, _⟩ := believes
    · simp [Setup.server, Server.start, Gossip.start] at found
    · simp [Setup.server, Server.start, Gossip.start, Peers.ConfigMap.get, Peers.ConfigMap.new]
        at isInfo
  queued message member := by cases member

/-- Only a packet changes who a server is and what it believes. -/
theorem beliefs_of_step (takes : (serverMachine setup.env forObject).Takes event)
    (deaf : ∀ addr packet, event.op ≠ .receive addr packet) :
    event.after.gossip.machineId = event.before.gossip.machineId ∧
      event.after.gossip.configList = event.before.gossip.configList ∧
      ∀ host matter, event.after.gossip.Believes host matter →
        event.before.gossip.Believes host matter := by
  obtain ⟨before, op, answer, after⟩ := event
  have stepped : ServerStep setup.env forObject before op answer after := serverStep_of_takes takes
  cases stepped with
  | track moved =>
      rw [gossip_announceAll, gossip_queue]
      exact ⟨rfl, rfl, fun _ _ believes => (Peers.believes_congr rfl rfl).mp believes⟩
  | @connect op connections moved =>
      cases op <;>
        exact ⟨rfl, rfl, fun _ _ believes => (Peers.believes_congr rfl rfl).mp believes⟩
  | heard => exact absurd rfl (deaf _ _)
  | change free changes =>
      obtain ⟨messages, around, peers, rfl, _⟩ := exists_of_change free changes
      exact ⟨rfl, rfl, fun _ _ believes => (Peers.believes_congr rfl rfl).mp believes⟩
  | _ => exact ⟨rfl, rfl, fun _ _ believes => (Peers.believes_congr rfl rfl).mp believes⟩

/-- A step that is told the truth keeps the beliefs grounded. -/
theorem Grounded.step (grounded : Grounded setup own Told history event.before)
    (known : Known setup history event.before)
    (takes : (serverMachine setup.env forObject).Takes event)
    (told : ∀ addr packet, event.op = .receive addr packet → ∀ host matter,
      packet.Says host matter → Told host matter) :
    Grounded setup own Told (history ++ [event]) event.after := by
  have queued : ∀ message ∈ event.after.gossip.messages, ∀ host matter,
      message.Says own host matter → host = own ∧ Happened setup (history ++ [event]) matter := by
    intro message member host matter claim
    rcases known.queued takes member claim with old | new
    · obtain ⟨isOwn, happened⟩ := grounded.queued message old host matter claim
      exact ⟨isOwn, happened.snoc event⟩
    · exact new
  by_cases deaf : ∀ addr packet, event.op ≠ .receive addr packet
  · obtain ⟨machineId, configList, fewer⟩ := beliefs_of_step takes deaf
    exact ⟨machineId.trans grounded.machineId, configList.trans grounded.configList,
      fun host matter believes => grounded.believes host matter (fewer host matter believes), queued⟩
  · push Not at deaf
    obtain ⟨addr, packet, isReceive⟩ := deaf
    obtain ⟨before, op, answer, after⟩ := event
    obtain rfl : op = .receive addr packet := isReceive
    have stepped : ServerStep setup.env forObject before (.receive addr packet) answer after :=
      serverStep_of_takes takes
    cases stepped with
    | heard ran =>
        have heard := Peers.heard_of_readPacket ran
        refine ⟨heard.machineId.trans grounded.machineId,
          heard.configList.trans grounded.configList, fun host matter believes => ?_, queued⟩
        rcases heard.believes host matter believes with old | ⟨foreign, brought⟩
        · exact grounded.believes host matter old
        · rw [show before.gossip.machineId = own from grounded.machineId] at foreign
          exact ⟨foreign, told addr packet rfl host matter brought⟩
    | deaf ran => exact ⟨grounded.machineId, grounded.configList, grounded.believes, queued⟩

omit [DecidableEq Hash] in
/-- A path that gossip sees to be watched was uploaded to. -/
theorem Mirror.uploads_of_watching (mirror : Mirror history server) {place : List Component}
    (watching : server.gossip.around.getWatching.Contains place) : ∃ id, Uploads history id place := by
  obtain ⟨path, member, rfl⟩ := watching
  obtain ⟨connection, isIncoming, watched⟩ := Peers.mem_getWatching member
  have isOpen := (mirror.listed connection.1).mpr ⟨connection, isIncoming, rfl⟩
  exact ⟨connection.1, (mirror.watches connection.1 isOpen path.place).mp
    ⟨connection, isIncoming, rfl, path, watched, rfl⟩⟩

/-- What a server sends rests on what it was told and on what has happened here. -/
theorem Grounded.sends (grounded : Grounded setup own Told history event.before)
    (known : Known setup history event.before) (mirror : Mirror history event.before)
    (takes : (serverMachine setup.env forObject).Takes event)
    {addr : SocketAddr} {packet : Packet Hash} (sent : (addr, packet) ∈ event.answer) :
    packet.machineId = own ∧ ∀ host matter, packet.Says host matter →
      Told host matter ∨ host = own ∧ Happened setup (history ++ [event]) matter := by
  obtain ⟨before, op, answer, after⟩ := event
  have stepped : ServerStep setup.env forObject before op answer after := serverStep_of_takes takes
  cases stepped with
  | @heard from' packet' items gossip ran =>
      have heard := Peers.heard_of_readPacket ran
      obtain ⟨item, isItem, same⟩ := List.mem_filterMap.mp (Multiset.mem_coe.mp sent)
      cases item with
      | forwarded image path peer => cases same
      | packet target reply =>
          obtain ⟨rfl, rfl⟩ := Prod.mk.inj (Option.some.inj same)
          obtain ⟨isOwn, config⟩ := heard.replies _ _ isItem
          refine ⟨isOwn.trans grounded.machineId, fun host matter claim => ?_⟩
          obtain ⟨rfl, rfl⟩ := config host matter claim
          exact Or.inr ⟨grounded.machineId, grounded.configList⟩
  | @wrote choice message filled rest peers isFirst ran =>
      obtain ⟨entry, _, same⟩ := Multiset.mem_map.mp sent
      obtain ⟨-, rfl⟩ := Prod.mk.inj same
      refine ⟨grounded.machineId, fun host matter claim => ?_⟩
      have isSaid : filled.Says own host matter := by
        have sender : before.gossip.machineId = own := grounded.machineId
        rw [← sender]
        exact claim
      rcases Peers.claims_of_fillMsg ran isSaid with queued | believes | ⟨isOwn, place, rfl, watching⟩
      · obtain ⟨isOwn, happened⟩ := grounded.queued message
          (by rw [show before.gossip.messages = message :: rest from isFirst]; exact List.mem_cons_self)
          host matter queued
        exact Or.inr ⟨isOwn, happened.snoc _⟩
      · exact Or.inl (grounded.believes host matter believes).2
      · have happened : Happened setup history (.watching place) :=
          mirror.uploads_of_watching watching
        exact Or.inr ⟨isOwn.trans grounded.machineId, happened.snoc _⟩
  | @sendGossip target id inProgress baseDirs found shows polls =>
      obtain ⟨-, rfl⟩ := Prod.mk.inj (Multiset.mem_singleton.mp sent)
      refine ⟨grounded.machineId, fun host matter claim => Or.inr ?_⟩
      cases claim with
      | inProgress member =>
          obtain ⟨task, _, isProgress⟩ := (shows.1 _ member).2
          exact ⟨grounded.machineId, _, List.mem_append_right _ (List.mem_singleton.mpr rfl), _,
            fun stalled => stalled, task, _, isProgress, rfl⟩
      | watching contains =>
          have happened : Happened setup history (.watching _) :=
            mirror.uploads_of_watching contains
          exact ⟨grounded.machineId, happened.snoc _⟩
      | complete member =>
          have happened := known.shown _ _ (Tracking.shown_of_mem_complete member)
          exact ⟨grounded.machineId, happened.snoc _⟩
      | deleted member => exact ⟨grounded.machineId, (known.deleted _ member).snoc _⟩
  | _ => simp at sent

/-- The beliefs are grounded in every run in which the truth is told. -/
theorem grounded_of_steps {finish : Server Hash}
    (steps : (serverMachine setup.env forObject).Steps (setup.server own) history finish)
    (told : ∀ event ∈ history, ∀ addr packet, event.op = .receive addr packet →
      ∀ host matter, packet.Says host matter → Told host matter) :
    Grounded setup own Told history finish :=
  (steps.preserves_history
    (fun history server => Grounded setup own Told history server ∧ Known setup history server)
    (fun event => ∀ addr packet, event.op = .receive addr packet →
      ∀ host matter, packet.Says host matter → Told host matter)
    (fun _ _ takes told inv => ⟨inv.1.step inv.2 takes told, inv.2.step takes⟩) told
    ⟨grounded_start, known_start own⟩).1

end Grounds

section Runs

variable {Hash : Type} [DecidableEq Hash] {forObject : PathSet → Hash}
  {setup : MachineId → Setup Hash} {trace : List (ClusterEvent Hash)}
  {finish : MachineId → Server Hash}

/-- Whatever a packet says of a machine has happened there. -/
def Honest (setup : MachineId → Setup Hash) (trace : List (ClusterEvent Hash))
    (packet : Packet Hash) : Prop :=
  ∀ host matter, packet.Says host matter →
    Happened (setup host) (Network.alone host trace) matter

omit [DecidableEq Hash] in
/-- What has happened has happened after one step more. -/
theorem happened_snoc {history : List (ClusterEvent Hash)} {host : MachineId} {matter : Matter}
    (happened : Happened (setup host) (Network.alone host history) matter)
    (event : ClusterEvent Hash) :
    Happened (setup host) (Network.alone host (history ++ [event])) matter := by
  by_cases own : event.1 = host
  · subst own
    rw [Network.alone_snoc_self]
    exact happened.snoc event.2
  · rw [Network.alone_snoc_of_ne own]
    exact happened

/-- No packet is dishonest. -/
theorem honest_of_sent
    (steps : (cluster forObject setup).Steps (fun id => (setup id).server id) trace finish) :
    ∀ packet, (cluster forObject setup).Sent trace packet → Honest setup trace packet := by
  refine steps.causal (Honest setup) ?_ ?_
  · exact fun history event packet honest host matter claim =>
      happened_snoc (honest host matter claim) event
  · rintro history event states steps told packet ⟨addr, sent⟩ host matter claim
    have whole := steps.alone event.1
    rw [Network.alone_snoc_self] at whole told
    obtain ⟨prior, takes, _⟩ := whole.cut
    have heard : ∀ taken ∈ Network.alone event.1 history, ∀ addr packet,
        taken.op = .receive addr packet → ∀ host matter, packet.Says host matter →
          Happened (setup host) (Network.alone host (history ++ [event])) matter :=
      fun taken member addr packet isReceive =>
        told taken (List.mem_append_left _ member) packet ⟨addr, isReceive⟩
    have grounded := grounded_of_steps prior heard
    obtain ⟨isOwn, grounds⟩ :=
      grounded.sends (known_of_steps prior) (mirror_of_steps rfl prior) takes sent
    rcases grounds host matter claim with known | ⟨rfl, happened⟩
    · exact known
    · rw [Network.alone_snoc_self]
      exact happened

end Runs

/-- Whatever a server believes of a machine has happened on that machine, and it believes nothing
of itself. -/
theorem beliefs_happened {Hash : Type} [DecidableEq Hash] (forObject : PathSet → Hash)
    (setup : MachineId → Setup Hash) {trace : List (ClusterEvent Hash)}
    {finish : MachineId → Server Hash}
    (steps : (cluster forObject setup).Steps (fun id => (setup id).server id) trace finish)
    {own host : MachineId} {matter : Matter} (believes : (finish own).gossip.Believes host matter) :
    host ≠ own ∧ Happened (setup host) (Network.alone host trace) matter := by
  have honest := honest_of_sent steps
  have heard : ∀ taken ∈ Network.alone own trace, ∀ addr packet,
      taken.op = .receive addr packet → ∀ host matter, packet.Says host matter →
        Happened (setup host) (Network.alone host trace) matter :=
    fun taken member addr packet isReceive => steps.told honest member ⟨addr, isReceive⟩
  exact (grounded_of_steps (steps.alone own) heard).believes host matter believes

namespace Server.Sample

/-- Every server of the example starts alike. -/
def setup (_ : MachineId) : Setup Nat :=
  ⟨Metadata.Sample.env false, "host".toList, .empty, .empty, 0, .empty, ∅⟩

/-- A machine of the example. -/
def peer (id : MachineId) (port : Nat) : Peer :=
  ⟨id, ⟨[127, 0, 0, 1], port⟩, "host".toList, "name".toList⟩

/-- A server that knows this peer makes these steps. -/
def play (id other : MachineId) (port : Nat) (ops : List (ServerOp Nat)) :
    List (ServerEvent Nat) × Server Nat :=
  (serverMachine (Metadata.Sample.env false) count).play ((setup id).server id)
    (.change (.refresh ((∅ : Map MachineId Peer).insert other (peer other port))) :: ops)

/-- The first message of the queue goes to machine `1`. -/
def write : ServerOp Nat := .write ⟨[], fun _ => 0, [[1]]⟩

/-- Machine `2` gets an image and lets machine `1` know. -/
def telling : List (ServerEvent Nat) × Server Nat :=
  play [2] [1] 24001 (uploading ++ [write, write])

/-- The packet that tells of the image. -/
def news : Packet Nat := ⟨[2], none, .complete Metadata.Sample.path (Metadata.Sample.image 1)⟩

/-- A client of machine `1` waits for the image, and the packet of machine `2` arrives. -/
def hearing : List (ServerEvent Nat) × Server Nat :=
  play [1] [2] 24002 [.connect (.accept ⟨[127, 0, 0, 1], 24783⟩), .upload 0 Metadata.Sample.path,
    .receive ⟨[127, 0, 0, 1], 24002⟩ news]

/-- One server tells and the other hears it. -/
def trace : List (ClusterEvent Nat) :=
  (telling.1.map fun taken => ([2], taken)) ++ hearing.1.map fun taken => ([1], taken)

/-- The servers after that. -/
def finish : MachineId → Server Nat :=
  Function.update (Function.update (fun id => (setup id).server id) [2] telling.2) [1] hearing.2

/-- The machine that has the image sends a packet about it. -/
theorem news_sent : ∃ taken ∈ telling.1, ∃ addr, (addr, news) ∈ taken.answer :=
  ⟨telling.1.get ⟨9, by decide⟩, List.get_mem _ _, ⟨[127, 0, 0, 1], 24001⟩,
    Multiset.mem_singleton.mpr rfl⟩

/-- The machines of the example play their own runs. -/
theorem plays (id other : MachineId) (port : Nat) (ops : List (ServerOp Nat)) :
    ((cluster count setup).party id).Steps ((setup id).server id) (play id other port ops).1
      (play id other port ops).2 :=
  Machine.Steps.of_play _ _ _

/-- The example is a run of the cluster. -/
theorem steps : (cluster count setup).Steps (fun id => (setup id).server id) trace finish := by
  have begun : (cluster count setup).Steps (fun id => (setup id).server id) []
      fun id => (setup id).server id := .refl
  have first := begun.go (plays [2] [1] 24001 (uploading ++ [write, write])) (by
    rintro taken member packet ⟨addr, isReceive⟩
    have isOp := Machine.Steps.op_mem_of_play member
    rw [isReceive] at isOp
    simp [uploading, write] at isOp)
  refine first.go (plays [1] [2] 24002 _) ?_
  rintro taken member packet ⟨addr, isReceive⟩
  have isOp := Machine.Steps.op_mem_of_play member
  rw [isReceive] at isOp
  have isNews : packet = news := by
    simp at isOp
    exact isOp.2
  obtain ⟨sender, isMove, sent⟩ := news_sent
  exact ⟨([2], sender), List.mem_map_of_mem isMove, isNews ▸ sent⟩

/-- The machine that was told believes it. -/
theorem believes : (finish [1]).gossip.Believes [2]
    (.complete Metadata.Sample.path.place (Metadata.Sample.image 1)) := by
  refine Or.inl ⟨⟨∅, (∅ : Map _ _).insert Metadata.Sample.path.place (Metadata.Sample.image 1),
    .empty, ∅⟩, ?_, ?_⟩
  · rfl
  · exact Finmap.lookup_insert _

end Server.Sample

/-- Machine `1` believes that machine `2` has the image. -/
theorem beliefs_happened_complete :
    let matter : Matter := .complete Metadata.Sample.path.place (Metadata.Sample.image 1)
    (Server.Sample.finish [1]).gossip.Believes [2] matter ∧ ([2] : MachineId) ≠ [1] ∧
      Happened (Server.Sample.setup [2])
        (Network.alone [2] Server.Sample.trace) matter :=
  ⟨Server.Sample.believes, beliefs_happened _ _ Server.Sample.steps Server.Sample.believes⟩

end Ciruela
