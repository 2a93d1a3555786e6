import Ciruela.Daemon.Server.Notices
import Ciruela.Daemon.Tracking.Announced

/-!
# What has happened on a machine

Whatever a machine says of itself can be read off its own history: a download was under way and
had come so far; an image was committed, was found in the state file, or stood in the way of a
replacement; a client has uploaded to a path; a download was given up, or the cleanup has set
out to remove what a scan had found. The tables and the messages in the queue rest on nothing
else.
-/

namespace Ciruela

open Foundation

open Remote (SocketAddr)
open Peers (Gossip GossipOp Packet PathSet Peer Choice Sent Matter)

/-- What a server is started with. -/
structure Setup (Hash : Type) where
  env : Metadata.Env
  hostname : List Char
  signatures : Tree Metadata.Content
  indexes : Tree (List UInt8)
  configHash : Hash
  configList : PathSet
  futurePeers : Map SocketAddr (List Char)

namespace Setup

variable {Hash : Type}

/-- The server before its first step. -/
def server (setup : Setup Hash) (id : MachineId) : Server Hash :=
  .start setup.hostname setup.signatures setup.indexes
    (.start id setup.env.config setup.configHash setup.configList setup.futurePeers)

end Setup

section Truth

variable {Hash : Type}

/-- A task is at work on a download at this place, and this is how far it has come. -/
def Server.Downloads (server : Server Hash) (place : List Component) (progress : Peers.Downloading) :
    Prop :=
  ∃ task path, server.progressOf task = some (path, progress) ∧ path.place = place

/-- The tracking subsystem comes to show the image as complete. -/
def Completes (event : ServerEvent Hash) (path : VPath) (image : ImageId) : Prop :=
  ∃ op reason found, event.op = .track op reason found ∧
    Tracking.Completes event.before.node op path image

/-- A download is given up. -/
def Aborts (event : ServerEvent Hash) (path : VPath) (image : ImageId) : Prop :=
  ∃ task reason found, event.op = .track (.finished task) reason found ∧
    event.before.node.tasks.lookup task = some (.finished path image false)

/-- A scan reads the image in a state file. -/
def Scans (event : ServerEvent Hash) (path : VPath) (image : ImageId) : Prop :=
  ∃ io isNew state, event.op = .scan io path isNew ∧
    event.before.node.store.stateOf io path isNew = .ok (.stored state) ∧ state.image = image

/-- What makes it true of a machine, in its own history. -/
def Happened (setup : Setup Hash) (history : List (ServerEvent Hash)) : Matter → Prop
  -- a message of a download does not say that it is stalled
  | .downloading place progress => ∃ event ∈ history, ∃ stalled,
      (progress.stalled = true → stalled = true) ∧
        event.after.Downloads place { progress with stalled := stalled }
  | .complete place image => ∃ event ∈ history, ∃ path, Completes event path image ∧ path.place = place
  | .watching place => ∃ id, Uploads history id place
  | .deleted pair => ∃ path, path.place = pair.1 ∧ ((∃ event ∈ history, Aborts event path pair.2) ∨
      (∃ event ∈ history, Scans event path pair.2) ∧
        ∃ event ∈ history, event.op = .dirDeleted path pair.2)
  | .config paths => paths = setup.configList

variable {setup : Setup Hash} {history : List (ServerEvent Hash)}

/-- What has happened stays so. -/
theorem Happened.snoc {matter : Matter} (happened : Happened setup history matter)
    (event : ServerEvent Hash) : Happened setup (history ++ [event]) matter := by
  have later {P : ServerEvent Hash → Prop} (did : ∃ event ∈ history, P event) :
      ∃ other ∈ history ++ [event], P other := by
    obtain ⟨other, member, did⟩ := did
    exact ⟨other, List.mem_append_left _ member, did⟩
  cases matter with
  | downloading place progress => exact later happened
  | complete place image => exact later happened
  | watching place =>
      obtain ⟨id, uploads⟩ := happened
      exact ⟨id, later uploads⟩
  | deleted pair =>
      obtain ⟨path, isAt, aborted | ⟨scanned, removed⟩⟩ := happened
      · exact ⟨path, isAt, .inl (later aborted)⟩
      · exact ⟨path, isAt, .inr ⟨later scanned, later removed⟩⟩
  | config paths => exact happened

end Truth

section Tables

variable {Hash : Type} {setup : Setup Hash} {history : List (ServerEvent Hash)}
  {event : ServerEvent Hash} {server : Server Hash}

variable (setup) in
/-- What the tables of the tracking subsystem hold has happened. -/
structure Known (history : List (ServerEvent Hash)) (server : Server Hash) : Prop where
  shown : ∀ place image, server.node.shown place = some image →
    Happened setup history (.complete place image)
  scanned : ∀ path image, (path, image) ∈ server.scanned → ∃ event ∈ history, Scans event path image
  deleted : ∀ pair ∈ server.deleted, Happened setup history (.deleted pair)

/-- A machine knows nothing of itself at first. -/
theorem known_start (own : MachineId) : Known setup [] (setup.server own) where
  shown place image shown := by
    simp [Setup.server, Server.start, Tracking.Node.shown, Tracking.Node.new] at shown
  scanned path image member := by cases member
  deleted pair member := by simp [Setup.server, Server.start] at member

/-- A step whose tables hold nothing new. -/
theorem Known.keep (known : Known setup history event.before)
    (shown : ∀ place image, event.after.node.shown place = some image →
      event.before.node.shown place = some image)
    (scanned : event.after.scanned = event.before.scanned)
    (deleted : event.after.deleted ⊆ event.before.deleted) :
    Known setup (history ++ [event]) event.after where
  shown place image isShown := (known.shown place image (shown place image isShown)).snoc event
  scanned path image member := by
    obtain ⟨other, isOther, scans⟩ := known.scanned path image (scanned ▸ member)
    exact ⟨other, List.mem_append_left _ isOther, scans⟩
  deleted pair member := (known.deleted pair (deleted member)).snoc event

/-- What is in the table of deletions was there, or is entered by a download that is given up. -/
theorem mem_deletedAfter {op : Tracking.NodeOp} {pair : List Component × ImageId}
    (member : pair ∈ server.deletedAfter op) :
    pair ∈ server.deleted ∨ ∃ task path image, op = .finished task ∧
      server.node.tasks.lookup task = some (.finished path image false) ∧
        pair = (path.place, image) := by
  unfold Server.deletedAfter at member
  split at member
  · split at member
    · exact .inl (Finset.mem_of_mem_erase member)
    · exact .inl member
  · split at member
    · rename_i task _ path image waiting
      refine (Finset.mem_insert.mp member).symm.imp_right fun same => ?_
      exact ⟨task, path, image, rfl, waiting, same⟩
    · exact .inl member
  · exact .inl member

variable [DecidableEq Hash] {env : Metadata.Env} {forObject : PathSet → Hash}

/-- A step keeps that a machine knows only what has happened. -/
theorem Known.step (known : Known setup history event.before)
    (takes : (serverMachine env forObject).Takes event) :
    Known setup (history ++ [event]) event.after := by
  obtain ⟨before, op, answer, after⟩ := event
  have stepped : ServerStep env forObject before op answer after := serverStep_of_takes takes
  have here {event : ServerEvent Hash} : event ∈ history ++ [event] :=
    List.mem_append_right _ (List.mem_singleton.mpr rfl)
  cases stepped with
  | @track op reason found node moved polls =>
      refine ⟨fun place image shown => ?_, fun path image member => ?_, fun pair member => ?_⟩
      · rw [node_announceAll] at shown
        rcases Tracking.shown_of_step (Tracking.nodeStep_of_exec moved) shown with
          old | ⟨path, completes, isAt⟩
        · exact (known.shown place image old).snoc _
        · exact ⟨_, here, path, ⟨op, reason, found, rfl, completes⟩, isAt⟩
      · rw [scanned_announceAll] at member
        obtain ⟨other, isOther, scans⟩ := known.scanned path image member
        exact ⟨other, List.mem_append_left _ isOther, scans⟩
      · rw [deleted_announceAll] at member
        rcases mem_deletedAfter member with old | ⟨task, path, image, rfl, waiting, rfl⟩
        · exact (known.deleted pair old).snoc _
        · exact ⟨path, rfl, .inl ⟨_, here, task, reason, found, rfl, waiting⟩⟩
  | @scan io path isNew state read =>
      refine ⟨fun place image shown => (known.shown place image shown).snoc _,
        fun other image member => ?_, fun pair member => (known.deleted pair member).snoc _⟩
      rcases List.mem_cons.mp member with same | old
      · obtain ⟨rfl, rfl⟩ := Prod.mk.inj same
        exact ⟨_, here, io, isNew, state, rfl, read, rfl⟩
      · obtain ⟨event, isEvent, scans⟩ := known.scanned other image old
        exact ⟨event, List.mem_append_left _ isEvent, scans⟩
  | @dirDeleted path image isScanned =>
      refine ⟨fun place image shown => (known.shown place image shown).snoc _,
        fun other image member => ?_, fun pair member => ?_⟩
      · obtain ⟨event, isEvent, scans⟩ := known.scanned other image member
        exact ⟨event, List.mem_append_left _ isEvent, scans⟩
      · rcases Finset.mem_insert.mp member with rfl | old
        · obtain ⟨event, isEvent, scans⟩ := known.scanned path image isScanned
          exact ⟨path, rfl, .inr ⟨⟨event, List.mem_append_left _ isEvent, scans⟩, _, here, rfl⟩⟩
        · exact (known.deleted pair old).snoc _
  | forget => exact known.keep (fun _ _ shown => shown) rfl Finset.sdiff_subset
  | heard ran =>
      exact known.keep (fun _ _ shown => by rwa [node_announceAll] at shown)
        (scanned_announceAll _ _) (deleted_announceAll _ _).le
  | sendGossip shows polls =>
      exact known.keep (fun _ _ shown => Tracking.shown_of_poll shown) rfl (Finset.Subset.refl _)
  | _ => exact known.keep (fun _ _ shown => shown) rfl (Finset.Subset.refl _)

/-- A machine knows only what has happened, in every run. -/
theorem known_of_steps {own : MachineId} {finish : Server Hash}
    (steps : (serverMachine env forObject).Steps (setup.server own) history finish) :
    Known setup history finish :=
  steps.preserves_history (Known setup) (fun _ => True)
    (fun _ _ takes _ known => known.step takes) (fun _ _ => trivial) (known_start own)

end Tables

section Queue

variable {Hash : Type} {setup : Setup Hash} {history : List (ServerEvent Hash)}
  {event : ServerEvent Hash} {server : Server Hash} {own host : MachineId} {matter : Matter}

/-- What a message about a complete image says. -/
theorem claim_complete {path : VPath} {image : ImageId}
    (claim : (Peers.Message.complete path image : Peers.Message Hash).Says own host matter) :
    host = own ∧ matter = .complete path.place image := by
  cases claim with
  | completed => exact ⟨rfl, rfl⟩

/-- What a message about progress says. -/
theorem claim_progress {path : VPath} {image : ImageId} {mask : Mask}
    (claim : (server.progressMessage path image mask).Says own host matter) :
    host = own ∧ matter =
      .downloading path.place ⟨image, mask, server.connections.hasImageSource image, false⟩ := by
  cases claim with
  | downloads => exact ⟨rfl, rfl⟩
  | waits nobody => cases nobody

/-- How far a task has come that is at work on a download. -/
theorem progressOf_eq_some {path : VPath} {image : ImageId} {cells : Tracking.Cells} {task : Nat}
    (started : server.node.tasks.lookup task = some (.downloading path image))
    (there : server.cells.lookup task = some cells) : server.progressOf task = some (path,
      ⟨image, cells.mask, server.connections.hasImageSource image, cells.stalled⟩) := by
  simp [Server.progressOf, Tracking.Node.download, started, there, Tracking.Task.started]

/-- Where the messages of an operation come from. -/
theorem mem_messagesOf {op : Tracking.NodeOp} {found : List (VPath × ImageId)}
    {message : Peers.Message Hash} (member : message ∈ server.messagesOf op found) :
    (∃ task path image, op = .start task ∧
        server.node.tasks.lookup task = some (.fetch path image) ∧
        message = server.progressMessage path image Tracking.Cells.new.mask) ∨
      message ∈ Server.readyMessages found := by
  unfold Server.messagesOf at member
  split at member
  · rename_i task
    split at member
    · rename_i path image waiting
      exact .inl ⟨_, path, image, rfl, waiting, List.mem_singleton.mp member⟩
    · cases member
  · exact .inr member

/-- A download that begins has fetched nothing. -/
theorem tasks_of_start {env : Metadata.Env} {node : Tracking.Node} {task : Nat} {path : VPath}
    {image : ImageId} (waiting : server.node.tasks.lookup task = some (.fetch path image))
    (moved : server.node.exec env (.start task) = some node) :
    node.tasks.lookup task = some (.downloading path image) := by
  cases Tracking.nodeStep_of_exec moved with
  | start isWaiting =>
      obtain ⟨rfl, rfl⟩ := Tracking.Task.fetch.inj (Option.some.inj (isWaiting.symm.trans waiting))
      rw [Map.lookup_insert_eq, if_pos rfl]

/-- The message of a poll is true. -/
theorem Known.ready {op : Tracking.NodeOp} {found : List (VPath × ImageId)}
    {message : Peers.Message Hash} (known : Known setup history server)
    (polls : server.Polls op found) (member : message ∈ Server.readyMessages found)
    (claim : message.Says own host matter) : host = own ∧ Happened setup history matter := by
  obtain ⟨⟨path, image⟩, isFound, rfl⟩ := List.mem_map.mp member
  obtain ⟨rfl, rfl⟩ := claim_complete claim
  refine ⟨rfl, known.shown path.place image (Tracking.shown_of_mem_found ?_)⟩
  have listed := polls.mem_iff.mp isFound
  split at listed
  · exact listed
  · cases listed

/-- The news of a step that goes into the queue is true. -/
theorem happened_of_news {op : Tracking.NodeOp} {reason : List Char} {found : List (VPath × ImageId)}
    {message : Peers.Message Hash} (isTrack : event.op = .track op reason found)
    (member : message ∈
      (News.ofNode setup.env.config event.before.node reason op).flatMap News.messages)
    (claim : message.Says own host matter) :
    host = own ∧ Happened setup (history ++ [event]) matter := by
  obtain ⟨news, isNews, isMessage⟩ := List.mem_flatMap.mp member
  unfold News.ofNode at isNews
  split at isNews
  · split at isNews
    · split at isNews
      · obtain ⟨effect, _, shown⟩ := List.mem_filterMap.mp isNews
        cases effect with
        | notifyReceivedImage image path =>
            obtain rfl := Option.some.inj shown
            cases isMessage
        | _ => cases shown
      · cases isNews
    · cases isNews
  · rename_i task
    split at isNews
    · rename_i path image ended
      obtain rfl := List.mem_singleton.mp isNews
      obtain rfl := List.mem_singleton.mp isMessage
      obtain ⟨rfl, rfl⟩ := claim_complete claim
      exact ⟨rfl, event, List.mem_append_right _ (List.mem_singleton.mpr rfl), path,
        ⟨_, reason, found, isTrack, .committed ended⟩, rfl⟩
    · obtain rfl := List.mem_singleton.mp isNews
      cases isMessage
    · cases isNews
  · cases isNews

/-- The operations of gossip that are free put nothing into the queue that says something. -/
theorem exists_of_change {op : GossipOp Hash} {gossip next : Gossip Hash} (free : op.free = true)
    (changes : gossip.change op = some next) : ∃ messages around peers,
      next = { gossip with
        messages := gossip.messages ++ messages, around := around, peers := peers } ∧
        ∀ message ∈ messages, ∀ own host matter, ¬ message.Says own host matter := by
  cases op with
  | notifyBasedir path hash =>
      obtain rfl := Option.some.inj changes
      refine ⟨[.reconcile path hash .empty], _, _, rfl, fun message member own host matter claim => ?_⟩
      obtain rfl := List.mem_singleton.mp member
      cases claim with
      | waitsBelow nobody => cases nobody
  | startDownload path =>
      obtain ⟨_, same⟩ := Option.ite_none_right_eq_some.mp changes
      obtain rfl := Option.some.inj same
      exact ⟨[], _, _, by rw [List.append_nil], nofun⟩
  | endDownload path =>
      obtain rfl := Option.some.inj changes
      exact ⟨[], _, _, by rw [List.append_nil], nofun⟩
  | track baseDirs reconciling watched =>
      obtain rfl := Option.some.inj changes
      exact ⟨[], _, _, by rw [List.append_nil], nofun⟩
  | refresh peers =>
      obtain rfl := Option.some.inj changes
      exact ⟨[], _, _, by rw [List.append_nil], nofun⟩
  | _ => cases free

variable [DecidableEq Hash] {forObject : PathSet → Hash}

/-- Every message that a step puts into the queue is true. -/
theorem Known.queued (known : Known setup history event.before)
    (takes : (serverMachine setup.env forObject).Takes event) {message : Peers.Message Hash}
    (member : message ∈ event.after.gossip.messages) (claim : message.Says own host matter) :
    message ∈ event.before.gossip.messages ∨
      host = own ∧ Happened setup (history ++ [event]) matter := by
  obtain ⟨before, op, answer, after⟩ := event
  have stepped : ServerStep setup.env forObject before op answer after := serverStep_of_takes takes
  have here {event : ServerEvent Hash} : event ∈ history ++ [event] :=
    List.mem_append_right _ (List.mem_singleton.mpr rfl)
  cases stepped with
  | @track op reason found node moved polls =>
      simp only [gossip_announceAll, gossip_queue] at member
      rcases List.mem_append.mp member with early | isNews
      · refine (List.mem_append.mp early).imp_right fun isNew => ?_
        rcases mem_messagesOf isNew with ⟨task, path, image, rfl, waiting, rfl⟩ | isReady
        · obtain ⟨isOwn, rfl⟩ := claim_progress claim
          refine ⟨isOwn, _, here, false, nofun, task, path, ?_, rfl⟩
          have started := tasks_of_start waiting moved
          have begun := Map.lookup_insert_eq before.cells task task Tracking.Cells.new
          simp only [announceAll_eq]
          exact progressOf_eq_some started (begun.trans (if_pos rfl))
        · exact (known.ready polls isReady claim).imp_right fun happened => happened.snoc _
      · exact .inr (happened_of_news rfl isNews claim)
  | @progress task op path image old cells running there moved =>
      refine (List.mem_append.mp member).imp_right fun isNew => ?_
      split at isNew
      · obtain rfl := List.mem_singleton.mp isNew
        obtain ⟨isOwn, rfl⟩ := claim_progress claim
        have there := Map.lookup_insert_eq before.cells task task cells
        exact ⟨isOwn, _, here, cells.stalled, nofun, task, path,
          progressOf_eq_some running (there.trans (if_pos rfl)), rfl⟩
      · cases isNew
  | @heard addr packet sent gossip ran =>
      exact .inl ((Peers.heard_of_readPacket ran).messages ▸ member)
  | @wrote choice message filled rest peers isFirst ran =>
      exact .inl (isFirst ▸ List.mem_cons_of_mem _ member)
  | sendGossip shows polls =>
      refine (List.mem_append.mp member).imp_right fun isNew => ?_
      exact (known.ready polls isNew claim).imp_right fun happened => happened.snoc _
  | @change op gossip free changes =>
      obtain ⟨messages, around, peers, rfl, mute⟩ := exists_of_change free changes
      exact (List.mem_append.mp member).imp_right fun isNew => absurd claim (mute _ isNew _ _ _)
  | @connect op connections moved => cases op <;> exact .inl member
  | _ => exact .inl member

end Queue

end Ciruela
