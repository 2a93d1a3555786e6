import Ciruela.Daemon.Tracking.Rpc
import Ciruela.PathMap

/-!
# Watched paths

A node tells its peers which images are complete at the paths somebody watches. The
table of watched paths is written when a download is committed, when the metadata
has looked up a path, when a replacement is rejected, and by a periodic clean-up.
`Node` is the tracking subsystem with the closures that are under way, and its
machine interleaves their steps in every order.
-/

namespace Ciruela

open Foundation

namespace Tracking

open Metadata (Env Io Meta Records footprint newStateFile)

/-- The status of a watched path. A lookup that is under way has no result yet. -/
inductive Status where
  | absent
  | checking (result : Option (Except Metadata.Error ImageId))
  | complete (image : ImageId)

/-- What is left to be done on behalf of a request. -/
inductive Task where
  /-- The closure on the pool has ended; its answer waits for the main loop. -/
  | answered (op : Metadata.Op) (answer : Metadata.Answer)
  | fetch (path : VPath) (image : ImageId)
  | downloading (path : VPath) (image : ImageId)
  /-- The metadata knows about the end of the download. -/
  | finished (path : VPath) (image : ImageId) (committed : Bool)

/-- What is known of each path that somebody watches. -/
abbrev Watched := PathMap Status

/-- The metadata of a server with the tables of its downloads, and the tasks at work on them. -/
structure Node where
  store : Meta
  watched : Watched
  inProgress : Map (List Component) ImageId
  tasks : Map Nat Task

/-- Nothing is under way, whatever the database directory holds. -/
def Node.new (signatures : Tree Metadata.Content) (indexes : Tree (List UInt8)) : Node :=
  ⟨Meta.new signatures indexes, .empty, ∅, ∅⟩

/-- `State::poll_watched`, for one entry. -/
def Status.poll : Status → Option Status
  | .checking (some (.ok image)) => some (.complete image)
  | .checking (some (.error (.pathNotFound _))) => some .absent
  | .checking (some (.error _)) => none
  | status => some status

/-- `State::poll_watched`, for the table. -/
def pollWatched (watched : Watched) : Watched := watched.filterMap fun _ status => status.poll

/-- `Tracking::get_complete`. -/
def Node.getComplete (node : Node) (place : List Component) : Option ImageId :=
  match (pollWatched node.watched).lookup place with
  | some (.complete image) => some image
  | _ => none

/-- The images that `Tracking::get_complete` lists, with the texts of the table. -/
def Node.complete (node : Node) : PathMap ImageId :=
  (pollWatched node.watched).filterMap fun
    | _, .complete image => some image
    | _, _ => none

/-- The lookups that have ended well, which a poll lets the peers know of. -/
def Node.found (node : Node) : List (VPath × ImageId) :=
  node.watched.entries.filterMap fun
    | (path, .checking (some (.ok image))) => some (path, image)
    | _ => none

/-- What the main loop does with the answer of a closure. -/
def proceed (config : Config) (peers : Peers) :
    Metadata.Op → Metadata.Answer → Run (List Effect)
  | .startAppend _ _ params, .upload (.ok upload) => do
      let (_, effects) ←
        acknowledge peers params.path (appendEffects config params.path params.image) upload
      return effects
  | .startReplace _ _ params, .upload (.ok upload) => do
      let (_, effects) ←
        acknowledge peers params.path (replaceEffects config params.path params.image) upload
      return effects
  | .resumeUpload _ path, .resumed (.ok image) => do return [← fetchDir config path image false]
  | _, _ => return []

/-- Carry out what a handler has started. -/
def Node.apply (task : Nat) (node : Node) : Effect → Node
  | .fetchDir path image _ => { node with tasks := node.tasks.insert task (.fetch path image) }
  | .notifyReceivedImage _ _ => node
  | .watchComplete path image =>
      { node with watched := node.watched.insert path (.complete image) }

/-- A step of the node. -/
inductive NodeOp where
  /-- Run the closure of a request on the pool. -/
  | request (task : Nat) (op : Metadata.Op)
  | proceed (task : Nat) (peers : Peers)
  /-- `fetch_dir::start`. -/
  | start (task : Nat)
  /-- The download has ended and the metadata commits or aborts it. -/
  | finish (task : Nat) (io : Io) (commit : Bool)
  /-- `Subsystem::dir_committed` and `Subsystem::dir_aborted`. -/
  | finished (task : Nat)
  | checkWatched (path : VPath)
  /-- The closure `get_image_id` that a check has started. -/
  | lookUp (io : Io) (path : VPath)
  | getComplete
  | retain (watching : Finset (List Component))

/-- Whether the watched paths are polled: `get_complete`, `get_watched` and the clean-up. -/
def NodeOp.polls : NodeOp → Bool
  | .getComplete => true
  | .retain _ => true
  | _ => false

/-- The operation that a download ends with. -/
def finishing (io : Io) (path : VPath) (commit : Bool) : Metadata.Op :=
  if commit then .dirCommitted io path else .dirAborted io path

/-- One step of a node. -/
def Node.exec (env : Env) (node : Node) : NodeOp → Option Node
  | .request task op =>
      if op.finishes = true ∨ task ∈ node.tasks then none
      else do
        let (answer, store) ← (Metadata.run env node.store op).toOption
        return { node with store := store, tasks := node.tasks.insert task (.answered op answer) }
  | .proceed task peers =>
      match node.tasks.lookup task with
      | some (.answered op answer) => do
          let effects ← (Tracking.proceed env.config peers op answer).toOption
          return effects.foldl (Node.apply task) { node with tasks := node.tasks.erase task }
      | _ => none
  | .start task =>
      match node.tasks.lookup task with
      | some (.fetch path image) =>
          some { node with
            inProgress := node.inProgress.insert path.place image
            tasks := node.tasks.insert task (.downloading path image) }
      | _ => none
  | .finish task io commit =>
      match node.tasks.lookup task with
      | some (.downloading path image) => do
          let (_, store) ← (Metadata.run env node.store (finishing io path commit)).toOption
          return { node with
            store := store, tasks := node.tasks.insert task (.finished path image commit) }
      | _ => none
  | .finished task =>
      match node.tasks.lookup task with
      | some (.finished path image commit) =>
          some { node with
            inProgress := node.inProgress.erase path.place
            watched :=
              if commit then node.watched.insert path (.complete image) else node.watched
            tasks := node.tasks.erase task }
      | _ => none
  | .checkWatched path =>
      if (node.watched.lookup path.place).isNone = true ∧ path.place ∉ node.inProgress ∧
          env.config.isValidDestination path = true then
        some { node with watched := node.watched.insert path (.checking none) }
      else some node
  | .lookUp io path =>
      match node.watched.lookup path.place with
      | some (.checking none) => do
          let (result, store) ← (node.store.getImageId io path).toOption
          return { node with
            store := store
            watched := node.watched.insert path (.checking (some result)) }
      | _ => none
  | .getComplete => some { node with watched := pollWatched node.watched }
  | .retain watching =>
      some { node with
        watched := node.watched.filterMap fun path status =>
          if path.place ∈ watching then status.poll else none }

/-- The steps of a node in any order. -/
def nodeMachine (env : Env) : Machine Node NodeOp Unit where
  exec node op := (node.exec env op).map fun next => ((), next)

/-- A step of a node. -/
abbrev NodeEvent := Transition Node NodeOp Unit

/-- What the steps of a node do. -/
inductive NodeStep (env : Env) (node : Node) : NodeOp → Node → Prop where
  | request {task : Nat} {op : Metadata.Op} {answer : Metadata.Answer} {store : Meta}
      (unfinished : op.finishes = false) (free : task ∉ node.tasks)
      (ran : Metadata.run env node.store op = .ok (answer, store)) :
      NodeStep env node (.request task op)
        { node with store := store, tasks := node.tasks.insert task (.answered op answer) }
  | proceed {task : Nat} {peers : Peers} {op : Metadata.Op} {answer : Metadata.Answer}
      {effects : List Effect} (waiting : node.tasks.lookup task = some (.answered op answer))
      (ran : Tracking.proceed env.config peers op answer = .ok effects) :
      NodeStep env node (.proceed task peers)
        (effects.foldl (Node.apply task) { node with tasks := node.tasks.erase task })
  | start {task : Nat} {path : VPath} {image : ImageId}
      (waiting : node.tasks.lookup task = some (.fetch path image)) :
      NodeStep env node (.start task) { node with
        inProgress := node.inProgress.insert path.place image
        tasks := node.tasks.insert task (.downloading path image) }
  | finish {task : Nat} {io : Io} {commit : Bool} {path : VPath} {image : ImageId}
      {answer : Metadata.Answer} {store : Meta}
      (running : node.tasks.lookup task = some (.downloading path image))
      (ran : Metadata.run env node.store (finishing io path commit) = .ok (answer, store)) :
      NodeStep env node (.finish task io commit) { node with
        store := store, tasks := node.tasks.insert task (.finished path image commit) }
  | finished {task : Nat} {path : VPath} {image : ImageId} {commit : Bool}
      (waiting : node.tasks.lookup task = some (.finished path image commit)) :
      NodeStep env node (.finished task) { node with
        inProgress := node.inProgress.erase path.place
        watched :=
          if commit then node.watched.insert path (.complete image) else node.watched
        tasks := node.tasks.erase task }
  | check {path : VPath} :
      NodeStep env node (.checkWatched path)
        { node with watched := node.watched.insert path (.checking none) }
  | known {path : VPath} : NodeStep env node (.checkWatched path) node
  | lookUp {io : Io} {path : VPath} {result : Except Metadata.Error ImageId} {store : Meta}
      (ran : node.store.getImageId io path = .ok (result, store)) :
      NodeStep env node (.lookUp io path) { node with
        store := store
        watched := node.watched.insert path (.checking (some result)) }
  | getComplete : NodeStep env node .getComplete { node with watched := pollWatched node.watched }
  | retain {watching : Finset (List Component)} :
      NodeStep env node (.retain watching) { node with
        watched := node.watched.filterMap fun path status =>
          if path.place ∈ watching then status.poll else none }

/-- What an operation of the node does. -/
theorem nodeStep_of_exec {env : Env} {node next : Node} {op : NodeOp}
    (stepped : node.exec env op = some next) : NodeStep env node op next := by
  cases op with
  | request task op =>
      rw [Node.exec] at stepped
      split at stepped
      · cases stepped
      · rename_i fresh
        obtain ⟨unfinished, free⟩ := not_or.mp fresh
        obtain ⟨answered, ran, done⟩ := Option.bind_eq_some_iff.mp stepped
        rw [← Option.some.inj done]
        exact .request (by simpa using unfinished) free (Run.ok_of_toOption ran)
  | proceed task peers =>
      rw [Node.exec] at stepped
      split at stepped
      · rename_i op answer waiting
        obtain ⟨effects, ran, done⟩ := Option.bind_eq_some_iff.mp stepped
        rw [← Option.some.inj done]
        exact .proceed waiting (Run.ok_of_toOption ran)
      · cases stepped
  | start task =>
      rw [Node.exec] at stepped
      split at stepped
      · rename_i path image waiting
        rw [← Option.some.inj stepped]
        exact .start waiting
      · cases stepped
  | finish task io commit =>
      rw [Node.exec] at stepped
      split at stepped
      · rename_i path image running
        obtain ⟨answered, ran, done⟩ := Option.bind_eq_some_iff.mp stepped
        rw [← Option.some.inj done]
        exact .finish running (Run.ok_of_toOption ran)
      · cases stepped
  | finished task =>
      rw [Node.exec] at stepped
      split at stepped
      · rename_i path image commit waiting
        rw [← Option.some.inj stepped]
        exact .finished waiting
      · cases stepped
  | checkWatched path =>
      rw [Node.exec] at stepped
      split at stepped
      · rw [← Option.some.inj stepped]
        exact .check
      · rw [← Option.some.inj stepped]
        exact .known
  | lookUp io path =>
      rw [Node.exec] at stepped
      split at stepped
      · obtain ⟨found, ran, done⟩ := Option.bind_eq_some_iff.mp stepped
        rw [← Option.some.inj done]
        exact .lookUp (Run.ok_of_toOption ran)
      · cases stepped
  | getComplete =>
      rw [← Option.some.inj stepped]
      exact .getComplete
  | retain watching =>
      rw [← Option.some.inj stepped]
      exact .retain

/-- The image and path a task is at work on, until the download has ended. -/
def Task.owns : Task → Option (VPath × ImageId)
  | .answered op (.upload (.ok (.accepted .new))) =>
      op.demand.map fun demand => (demand.path, demand.image)
  | .answered (.resumeUpload _ path) (.resumed (.ok image)) => some (path, image)
  | .fetch path image => some (path, image)
  | .downloading path image => some (path, image)
  | _ => none

/-- The download a task has started and not ended. -/
def Task.started : Task → Option (VPath × ImageId)
  | .downloading path image => some (path, image)
  | .finished path image _ => some (path, image)
  | _ => none

/-- The download that a task is at work on. -/
def Node.download (node : Node) (task : Nat) : Option (VPath × ImageId) :=
  (node.tasks.lookup task).bind Task.started

/-- The image is being written, and `x.new.state` says so. -/
def Held (record : Metadata.Record) (image : ImageId) : Prop :=
  ∃ writing, record.writing = some writing ∧ writing.image = image ∧ Records record.newState image

section Holding

variable {env : Env} {before after : Metadata.Record} {op : Metadata.Op} {answer : Metadata.Answer}
  {image : ImageId}

/-- An upload stays as it is until it is finished. -/
theorem Held.change (held : Held before image) (change : Metadata.Change env before op answer after)
    (unfinished : op.finishes = false) : Held after image := by
  obtain ⟨writing, entry, rfl, records⟩ := held
  cases change with
  | kept => exact ⟨writing, entry, rfl, records⟩
  | begun _ _ vacant => simp [vacant] at entry
  | extended _ _ found =>
      obtain ⟨rfl⟩ := found.symm.trans entry
      exact ⟨_, rfl, rfl, _, rfl, rfl⟩
  | merged _ _ vacant => simp [vacant] at entry
  | unsaved _ _ _ same _ steady => exact ⟨_, rfl, same.trans (steady writing entry).symm, records⟩
  | resumed vacant => simp [vacant] at entry
  | resumedNew vacant => simp [vacant] at entry
  | aborted => simp [Metadata.Op.finishes] at unfinished
  | committed => simp [Metadata.Op.finishes] at unfinished
  | unfinished _ _ finishes => simp [finishes] at unfinished
  | removed vacant => simp [vacant] at entry

/-- What a task is going to work on was free and is held. -/
theorem held_of_owns {path : VPath} (change : Metadata.Change env before op answer after)
    (owns : (Task.answered op answer).owns = some (path, image)) :
    before.writing = none ∧ path = op.vpath ∧ Held after image := by
  cases change with
  | kept idle =>
      cases answer with
      | upload result =>
          cases result with
          | error error => simp [Task.owns] at owns
          | ok upload =>
              cases upload with
              | accepted accept => exact absurd idle not_false
              | rejected reason other => simp [Task.owns] at owns
      | resumed result =>
          cases result with
          | error error => cases op <;> simp [Task.owns] at owns
          | ok image => exact absurd idle not_false
      | finished => cases op <;> simp [Task.owns] at owns
      | removed result => cases op <;> simp [Task.owns] at owns
  | begun asked _ vacant =>
      simp only [Metadata.accepted, Task.owns, asked, Option.map_some, Option.some.injEq,
        Prod.mk.injEq] at owns
      obtain ⟨rfl, rfl⟩ := owns
      exact ⟨vacant, Metadata.Op.demand_path asked, _, rfl, rfl, _, rfl, rfl⟩
  | extended => simp [Metadata.accepted, Task.owns] at owns
  | merged => simp [Metadata.accepted, Task.owns] at owns
  | unsaved => simp [Task.owns] at owns
  | resumed vacant =>
      simp only [Task.owns, Option.some.injEq, Prod.mk.injEq] at owns
      obtain ⟨rfl, rfl⟩ := owns
      exact ⟨vacant, rfl, _, rfl, rfl, _, rfl, rfl⟩
  | resumedNew vacant _ written =>
      simp only [Task.owns, Option.some.injEq, Prod.mk.injEq] at owns
      obtain ⟨rfl, rfl⟩ := owns
      exact ⟨vacant, rfl, _, rfl, rfl, _, written, rfl⟩
  | aborted => simp [Task.owns] at owns
  | committed => simp [Task.owns] at owns
  | unfinished => cases op <;> simp [Task.owns] at owns
  | removed => simp [Task.owns] at owns

/-- A request that is rejected changes nothing. -/
theorem unchanged_of_rejected {reason : String} {other : Option ImageId}
    (change : Metadata.Change env before op (.upload (.ok (.rejected reason other))) after) :
    after = before := by
  cases change with
  | kept => rfl

/-- A commit of an upload that is held moves its image to `x.state`. -/
theorem Held.commit {io : Io} {path : VPath} (held : Held before image)
    (change : Metadata.Change env before (.dirCommitted io path) answer after)
    (working : ¬ io.Faulty) : Records after.state image := by
  obtain ⟨writing, entry, rfl, records⟩ := held
  obtain ⟨state, written, _⟩ := records
  cases change with
  | kept _ nothing => simp [nothing rfl] at entry
  | begun asked => simp [Metadata.Op.demand] at asked
  | extended asked => simp [Metadata.Op.demand] at asked
  | merged asked => simp [Metadata.Op.demand] at asked
  | unsaved asked => simp [Metadata.Op.demand] at asked
  | committed _ found =>
      obtain rfl := Option.some.inj (found.symm.trans written)
      exact ⟨state, rfl, ‹_›⟩
  | unfinished _ failed =>
      rcases failed with faulty | missing
      · exact absurd faulty working
      · simp [missing] at written

end Holding

/-- The spots whose metadata a run works on. -/
def NodeOp.paths : NodeOp → List VPath
  | .request _ op => [op.vpath]
  | .lookUp _ path => [path]
  | _ => []

/-- The places that a run asks for something at. -/
def spotsOf (trace : List NodeEvent) : Set Spot :=
  { spot | ∃ event ∈ trace, ∃ path ∈ event.op.paths, path.place = spot.place }

/-- No operation on one spot touches `x.new.state` of another. -/
def Apart (spots : Set Spot) : Prop :=
  ∀ first ∈ spots, ∀ second ∈ spots, first ≠ second → first.dir = second.dir →
    newStateFile first.name ∉ footprint second.name

/-- An operation on one spot leaves an upload to another alone. -/
theorem Held.frame {spots : Set Spot} {spot other : Spot} {before after : Meta} {image : ImageId}
    (apart : Apart spots) (frame : Metadata.Frame spot before after) (inside : spot ∈ spots)
    (otherInside : other ∈ spots) (different : other ≠ spot)
    (held : Held (before.record other) image) : Held (after.record other) image := by
  have writing : (after.record other).writing = (before.record other).writing :=
    frame.writing _ fun same => different (Spot.place_injective same)
  have newState : (after.record other).newState = (before.record other).newState := by
    refine frame.files _ _ ?_
    by_cases dirs : other.dir = spot.dir
    · exact Or.inr (apart other otherInside spot inside different dirs)
    · exact Or.inl dirs
  unfold Held
  rw [writing, newState]
  exact held

/-- The image and path a task is about to report as complete. -/
def Task.reports : Task → Option (VPath × ImageId)
  | .answered (.startReplace _ _ params) (.upload (.ok (.rejected _ (some other)))) =>
      some (params.path, other)
  | .finished path image true => some (path, image)
  | _ => none

/-- The image a status shows, at the latest when it is polled. -/
def Status.shows : Status → Option ImageId
  | .complete image => some image
  | .checking (some (.ok image)) => some image
  | _ => none

namespace Node

/-- The download whose path a task holds. -/
def owner (node : Node) (task : Nat) : Option (VPath × ImageId) :=
  (node.tasks.lookup task).bind Task.owns

/-- The download whose end a task is to report. -/
def report (node : Node) (task : Nat) : Option (VPath × ImageId) :=
  (node.tasks.lookup task).bind Task.reports

/-- The image that is shown at a place. -/
def shown (node : Node) (place : List Component) : Option ImageId :=
  (node.watched.lookup place).bind Status.shows

end Node

/-- At some point of a run `x.state` has recorded the image. -/
def Committed (start : Node) (trace : List NodeEvent) (place : List Component) (image : ImageId) :
    Prop :=
  ∃ spot : Spot, place = spot.place ∧
    (Records (start.store.record spot).state image ∨
      ∃ event ∈ trace, Records (event.after.store.record spot).state image)

/-- What was committed stays committed. -/
theorem Committed.snoc {start : Node} {trace : List NodeEvent} {place : List Component}
    {image : ImageId} (committed : Committed start trace place image) (event : NodeEvent) :
    Committed start (trace ++ [event]) place image := by
  obtain ⟨spot, located, records | ⟨other, member, records⟩⟩ := committed
  · exact ⟨spot, located, Or.inl records⟩
  · exact ⟨spot, located, Or.inr ⟨other, List.mem_append_left _ member, records⟩⟩

/-- What is recorded now was committed. -/
theorem Committed.now {start : Node} {trace : List NodeEvent} {spot : Spot} {image : ImageId}
    {event : NodeEvent} (records : Records (event.after.store.record spot).state image) :
    Committed start (trace ++ [event]) spot.place image :=
  ⟨spot, rfl, Or.inr ⟨event, by simp, records⟩⟩

/-- The paths come from the wire, no admitted replacement meets an upload of another
image, and the files of a commit can be written. -/
structure Orderly (env : Env) (event : NodeEvent) : Prop where
  checked : ∀ path ∈ event.op.paths, VPath.checkPath path.path = true
  replaces : ∀ task io keys params, event.op = .request task (.startReplace io keys params) →
    (Metadata.Demand.ofReplace keys params).Admitted env →
      ∀ writing, event.before.store.writing.lookup params.path.place = some writing →
        writing.image = params.image
  commits : ∀ task io, event.op = .finish task io true → ¬ io.Faulty

/-- What is shown, or is about to be, has been committed, and every download has the
metadata of its path to itself. -/
structure Inv (spots : Set Spot) (start : Node) (trace : List NodeEvent) (node : Node) : Prop where
  shown : ∀ place image, node.shown place = some image → Committed start trace place image
  reports : ∀ task path image, node.report task = some (path, image) →
    Committed start trace path.place image
  owned : ∀ task path image, node.owner task = some (path, image) →
    ∃ spot ∈ spots, path.place = spot.place ∧ Held (node.store.record spot) image
  unique : ∀ first second path other image image', node.owner first = some (path, image) →
    node.owner second = some (other, image') → path.place = other.place → first = second

/-- The invariant holds at first. -/
theorem inv_new (spots : Set Spot) (signatures : Tree Metadata.Content)
    (indexes : Tree (List UInt8)) :
    Inv spots (Node.new signatures indexes) [] (Node.new signatures indexes) where
  shown place image shown := by simp [Node.shown, Node.new] at shown
  reports task path image reports := by simp [Node.report, Node.new] at reports
  owned task path image owned := by simp [Node.owner, Node.new] at owned
  unique first second path other image image' owned := by simp [Node.owner, Node.new] at owned

section Steps

variable {env : Env} {spots : Set Spot} {start : Node} {history : List NodeEvent} {event : NodeEvent}

/-- A step that leaves the files of every spot alone and only drops, or shows what was
reported. -/
theorem Inv.bookkeeping (inv : Inv spots start history event.before)
    (record : ∀ spot, event.after.store.record spot = event.before.store.record spot)
    (shown : ∀ place image, event.after.shown place = some image →
      event.before.shown place = some image ∨
        ∃ task path, event.before.report task = some (path, image) ∧ path.place = place)
    (reports : ∀ task report, event.after.report task = some report →
      event.before.report task = some report)
    (owners : ∀ task owner, event.after.owner task = some owner →
      event.before.owner task = some owner) :
    Inv spots start (history ++ [event]) event.after where
  shown place image isShown := by
    rcases shown place image isShown with old | ⟨task, path, reported, rfl⟩
    · exact (inv.shown place image old).snoc event
    · exact (inv.reports task path image reported).snoc event
  reports task path image reported := (inv.reports task path image (reports _ _ reported)).snoc event
  owned task path image owned := by
    obtain ⟨spot, inside, located, held⟩ := inv.owned task path image (owners _ _ owned)
    exact ⟨spot, inside, located, record spot ▸ held⟩
  unique first second path other image image' owned otherOwned :=
    inv.unique first second path other image image' (owners _ _ owned) (owners _ _ otherOwned)

/-- A status that was polled shows nothing new. -/
theorem Status.shows_of_poll {status polled : Status} (polls : status.poll = some polled)
    {image : ImageId} (shows : polled.shows = some image) : status.shows = some image := by
  unfold Status.poll at polls
  split at polls
  · obtain rfl := Option.some.inj polls
    exact shows
  · obtain rfl := Option.some.inj polls
    cases shows
  · cases polls
  · obtain rfl := Option.some.inj polls
    exact shows

/-- A poll shows nothing new, whatever else it drops. -/
theorem shown_of_retain {watched : Watched} {keep : VPath → Status → Option Status}
    (polls : ∀ path status polled, keep path status = some polled → status.poll = some polled)
    {place : List Component} {image : ImageId}
    (shown : ((watched.filterMap keep).lookup place).bind Status.shows = some image) :
    (watched.lookup place).bind Status.shows = some image := by
  obtain ⟨polled, found, shows⟩ := Option.bind_eq_some_iff.mp shown
  obtain ⟨path, status, _, isEntry, kept⟩ := PathMap.exists_of_lookup_filterMap found
  rw [isEntry]
  exact Status.shows_of_poll (polls path status polled kept) shows

/-- What a poll shows was shown before. -/
theorem shown_of_poll {watched : Watched} {place : List Component} {image : ImageId}
    (shown : ((pollWatched watched).lookup place).bind Status.shows = some image) :
    (watched.lookup place).bind Status.shows = some image :=
  shown_of_retain (fun _ _ _ kept => kept) shown

theorem acknowledge_ok {peers : Peers} {path : VPath}
    {effects : Metadata.Upload → Run (List Effect)} {upload : Metadata.Upload}
    {result : Ack × List Effect} (ran : acknowledge peers path effects upload = .ok result) :
    effects upload = .ok result.2 := by
  obtain ⟨parent, _, rest⟩ := Run.bind_eq_ok_iff.mp ran
  obtain ⟨started, starts, rest⟩ := Run.bind_eq_ok_iff.mp rest
  obtain ⟨hosts, _, done⟩ := Run.bind_eq_ok_iff.mp rest
  obtain rfl := Except.ok.inj done
  exact starts

/-- A download is of the image that was asked for. -/
theorem fetchDir_ok {config : Config} {path : VPath} {image : ImageId} {replacing : Bool}
    {effect : Effect} (ran : fetchDir config path image replacing = .ok effect) :
    effect = .fetchDir path image replacing := by
  obtain ⟨_, _, done⟩ := Run.bind_eq_ok_iff.mp ran
  exact (Except.ok.inj done).symm

/-- A download is of a path that is configured. -/
theorem mem_of_fetchDir {config : Config} {path : VPath} {image : ImageId} {replacing : Bool}
    {effect : Effect} (ran : fetchDir config path image replacing = .ok effect) :
    path.key ∈ config.dirs := by
  obtain ⟨directory, found, _⟩ := Run.bind_eq_ok_iff.mp ran
  exact Finmap.mem_iff.mpr ⟨directory, Run.expect_eq_ok_iff.mp found⟩

/-- A handler begins a download only where there is a configuration for it. -/
theorem fetched_ok {config : Config} {path : VPath} {image : ImageId} {replacing : Bool}
    {effects : List Effect}
    (ran : (do return [← fetchDir config path image replacing] : Run (List Effect)) = .ok effects) :
    effects = [.fetchDir path image replacing] ∧ path.key ∈ config.dirs := by
  obtain ⟨effect, fetched, done⟩ := Run.bind_eq_ok_iff.mp ran
  rw [← Except.ok.inj done, fetchDir_ok fetched]
  exact ⟨rfl, mem_of_fetchDir fetched⟩

/-- What the answer of a closure can start: a download of what its task owns, or an
entry for what its task reports. -/
theorem proceed_cases {config : Config} {peers : Peers} {op : Metadata.Op}
    {answer : Metadata.Answer} {effects : List Effect}
    (ran : proceed config peers op answer = .ok effects) :
    effects = [] ∨ (∃ image path, effects = [.notifyReceivedImage image path]) ∨
      (∃ path image replacing, effects = [.fetchDir path image replacing] ∧
        (Task.answered op answer).owns = some (path, image) ∧ path.key ∈ config.dirs) ∨
      ∃ path image, effects = [.watchComplete path image] ∧
        (Task.answered op answer).reports = some (path, image) := by
  unfold proceed at ran
  split at ran
  · rename_i io keys params upload
    obtain ⟨result, acknowledged, done⟩ := Run.bind_eq_ok_iff.mp ran
    obtain rfl := Except.ok.inj done
    have started := acknowledge_ok acknowledged
    cases upload with
    | accepted accept =>
        cases accept with
        | new =>
            obtain ⟨isFetch, isConfigured⟩ := fetched_ok started
            exact Or.inr (Or.inr (Or.inl ⟨_, _, _, isFetch, rfl, isConfigured⟩))
        | inProgress => exact Or.inl (Except.ok.inj started).symm
        | alreadyDone => exact Or.inr (Or.inl ⟨_, _, (Except.ok.inj started).symm⟩)
    | rejected reason other => exact Or.inl (Except.ok.inj started).symm
  · rename_i io keys params upload
    obtain ⟨result, acknowledged, done⟩ := Run.bind_eq_ok_iff.mp ran
    obtain rfl := Except.ok.inj done
    have started := acknowledge_ok acknowledged
    cases upload with
    | accepted accept =>
        cases accept with
        | new =>
            obtain ⟨isFetch, isConfigured⟩ := fetched_ok started
            exact Or.inr (Or.inr (Or.inl ⟨_, _, _, isFetch, rfl, isConfigured⟩))
        | inProgress => exact Or.inl (Except.ok.inj started).symm
        | alreadyDone => exact Or.inr (Or.inl ⟨_, _, (Except.ok.inj started).symm⟩)
    | rejected reason other =>
        cases other with
        | none => exact Or.inl (Except.ok.inj started).symm
        | some image =>
            exact Or.inr (Or.inr (Or.inr ⟨_, _, (Except.ok.inj started).symm, rfl⟩))
  · obtain ⟨rfl, isConfigured⟩ := fetched_ok ran
    exact Or.inr (Or.inr (Or.inl ⟨_, _, _, rfl, rfl, isConfigured⟩))
  · exact Or.inl (Except.ok.inj ran).symm

/-- What is seen of the tasks after one of them was put in. -/
theorem seen_insert {tasks : Map Nat Task} {task other : Nat} {new : Task}
    {view : Task → Option (VPath × ImageId)} {found : VPath × ImageId}
    (seen : ((tasks.insert task new).lookup other).bind view = some found) :
    (other = task ∧ view new = some found) ∨ (tasks.lookup other).bind view = some found := by
  rw [Map.lookup_insert_eq] at seen
  split at seen
  · rename_i same
    exact Or.inl ⟨same, seen⟩
  · exact Or.inr seen

/-- Fewer tasks see less. -/
theorem seen_erase {tasks : Map Nat Task} {task other : Nat}
    {view : Task → Option (VPath × ImageId)} {found : VPath × ImageId}
    (seen : ((tasks.erase task).lookup other).bind view = some found) :
    (tasks.lookup other).bind view = some found := by
  rw [Map.lookup_erase_eq] at seen
  split at seen
  · simp at seen
  · exact seen

/-- What is shown after the status of one path was set. -/
theorem shown_insert {watched : Watched} {path : VPath} {place : List Component} {status : Status}
    {image : ImageId}
    (shown : ((watched.insert path status).lookup place).bind Status.shows = some image) :
    (place = path.place ∧ status.shows = some image) ∨
      (watched.lookup place).bind Status.shows = some image := by
  rw [PathMap.lookup_insert] at shown
  split at shown
  · rename_i same
    exact Or.inl ⟨same, shown⟩
  · exact Or.inr shown

/-- The main loop takes up an answer. -/
theorem Inv.proceed {task : Nat} {op : Metadata.Op} {answer : Metadata.Answer}
    {config : Config} {peers : Peers} {effects : List Effect}
    (inv : Inv spots start history event.before)
    (waiting : event.before.tasks.lookup task = some (.answered op answer))
    (proceeds : Tracking.proceed config peers op answer = .ok effects)
    (after : event.after = effects.foldl (Node.apply task)
      { event.before with tasks := event.before.tasks.erase task }) :
    Inv spots start (history ++ [event]) event.after := by
  rcases proceed_cases proceeds with rfl | ⟨image, path, rfl⟩ |
    ⟨path, image, replacing, rfl, owns, _⟩ | ⟨path, image, rfl, reports⟩
  · refine inv.bookkeeping ?_ ?_ ?_ ?_
    all_goals rw [after]
    · exact fun _ => rfl
    · exact fun _ _ shown => Or.inl shown
    · exact fun _ _ reported => seen_erase reported
    · exact fun _ _ owned => seen_erase owned
  · refine inv.bookkeeping ?_ ?_ ?_ ?_
    all_goals rw [after]
    · exact fun _ => rfl
    · exact fun _ _ shown => Or.inl shown
    · exact fun _ _ reported => seen_erase reported
    · exact fun _ _ owned => seen_erase owned
  · -- The download takes the place of the answer that owned its path.
    refine inv.bookkeeping ?_ ?_ ?_ ?_
    all_goals rw [after]
    · exact fun _ => rfl
    · exact fun _ _ shown => Or.inl shown
    · intro other found reported
      rcases seen_insert reported with ⟨_, nothing⟩ | old
      · simp [Task.reports] at nothing
      · exact seen_erase old
    · intro other found owned
      rcases seen_insert owned with ⟨rfl, same⟩ | old
      · rw [Node.owner, waiting]
        exact owns.trans same
      · exact seen_erase old
  · -- What was reported is shown.
    refine inv.bookkeeping ?_ ?_ ?_ ?_
    all_goals rw [after]
    · exact fun _ => rfl
    · intro place shownImage isShown
      rcases shown_insert isShown with ⟨rfl, same⟩ | old
      · obtain rfl : image = shownImage := Option.some.inj same
        refine Or.inr ⟨task, path, ?_, rfl⟩
        rw [Node.report, waiting]
        exact reports
      · exact Or.inl old
    · exact fun _ _ reported => seen_erase reported
    · exact fun _ _ owned => seen_erase owned

/-- A download that starts keeps the invariant. -/
theorem Inv.started {task : Nat} {path : VPath} {image : ImageId}
    (inv : Inv spots start history event.before)
    (waiting : event.before.tasks.lookup task = some (.fetch path image))
    (after : event.after = { event.before with
      inProgress := event.before.inProgress.insert path.place image
      tasks := event.before.tasks.insert task (.downloading path image) }) :
    Inv spots start (history ++ [event]) event.after := by
  refine inv.bookkeeping ?_ ?_ ?_ ?_
  all_goals rw [after]
  · exact fun _ => rfl
  · exact fun _ _ shown => Or.inl shown
  · intro other found reported
    rcases seen_insert reported with ⟨_, nothing⟩ | old
    · simp [Task.reports] at nothing
    · exact old
  · intro other found owned
    rcases seen_insert owned with ⟨rfl, same⟩ | old
    · rw [Node.owner, waiting]
      exact same
    · exact old

/-- A download that has ended keeps the invariant. -/
theorem Inv.finished {task : Nat} {path : VPath} {image : ImageId} {commit : Bool}
    (inv : Inv spots start history event.before)
    (waiting : event.before.tasks.lookup task = some (.finished path image commit))
    (after : event.after = { event.before with
      inProgress := event.before.inProgress.erase path.place
      watched :=
        if commit then event.before.watched.insert path (.complete image)
        else event.before.watched
      tasks := event.before.tasks.erase task }) :
    Inv spots start (history ++ [event]) event.after := by
  refine inv.bookkeeping ?_ ?_ ?_ ?_
  all_goals rw [after]
  · exact fun _ => rfl
  · intro place shownImage isShown
    cases commit with
    | false => exact Or.inl isShown
    | true =>
        rcases shown_insert isShown with ⟨rfl, same⟩ | old
        · obtain rfl : image = shownImage := Option.some.inj same
          refine Or.inr ⟨task, path, ?_, rfl⟩
          rw [Node.report, waiting]
          rfl
        · exact Or.inl old
  · exact fun _ _ reported => seen_erase reported
  · exact fun _ _ owned => seen_erase owned

/-- A step that only touches the table and shows nothing new. -/
theorem Inv.rewatched {watched : Watched} (inv : Inv spots start history event.before)
    (quiet : ∀ place image, (watched.lookup place).bind Status.shows = some image →
      event.before.shown place = some image)
    (after : event.after = { event.before with watched := watched }) :
    Inv spots start (history ++ [event]) event.after := by
  refine inv.bookkeeping ?_ ?_ ?_ ?_
  all_goals rw [after]
  · exact fun _ => rfl
  · exact fun place image shown => Or.inl (quiet place image shown)
  · exact fun _ _ reported => reported
  · exact fun _ _ owned => owned

theorem ensureParent_frame {io : Io} {store after : Meta} {path : VPath}
    {result : Except Metadata.Error (List FileName)}
    (ran : store.ensureParent io path = .ok (result, after)) :
    after.writing = store.writing ∧
      ∀ dir, after.signatures.files dir = store.signatures.files dir := by
  unfold Meta.ensureParent at ran
  split at ran
  · obtain ⟨_, rfl⟩ := Prod.mk.inj (Except.ok.inj ran)
    exact ⟨rfl, fun _ => rfl⟩
  · obtain ⟨parentRel, _, rest⟩ := Run.bind_eq_ok_iff.mp ran
    split at rest
    · obtain ⟨_, rfl⟩ := Prod.mk.inj (Except.ok.inj rest)
      exact ⟨rfl, fun _ => rfl⟩
    · obtain ⟨_, rfl⟩ := Prod.mk.inj (Except.ok.inj rest)
      exact ⟨rfl, fun _ => Tree.files_ensureDir _ _ _⟩

/-- A lookup changes no entry and no file. -/
theorem getImageId_frame {io : Io} {store after : Meta} {path : VPath}
    {result : Except Metadata.Error ImageId}
    (ran : store.getImageId io path = .ok (result, after)) :
    after.writing = store.writing ∧
      ∀ dir, after.signatures.files dir = store.signatures.files dir := by
  obtain ⟨⟨opened, created⟩, ensured, rest⟩ := Run.bind_eq_ok_iff.mp ran
  have frame := ensureParent_frame ensured
  suffices same : after = created by
    rw [same]
    exact frame
  cases opened with
  | error error => exact (Prod.mk.inj (Except.ok.inj rest)).2.symm
  | ok dir =>
      obtain ⟨name, _, done⟩ := Run.bind_eq_ok_iff.mp rest
      split at done
      all_goals exact (Prod.mk.inj (Except.ok.inj done)).2.symm

/-- What a lookup finds is what `x.state` records. -/
theorem records_of_getImageId {io : Io} {store after : Meta} {path : VPath} {image : ImageId}
    (accepted : VPath.checkPath path.path = true)
    (found : store.getImageId io path = .ok (.ok image, after)) :
    ∃ spot : Spot, path.place = spot.place ∧ Records (store.record spot).state image := by
  by_cases deep : 0 < path.level
  · obtain ⟨spot, located⟩ := VPath.exists_spot accepted deep
    obtain ⟨result, other, ran, recorded⟩ := getImageId_at io store located
    obtain ⟨rfl, _⟩ := Prod.mk.inj (Except.ok.inj (ran.symm.trans found))
    obtain ⟨_, otherSpot, otherLocated, state, read, same⟩ := (recorded image).mp rfl
    exact ⟨otherSpot, otherLocated, state, Metadata.readFile_eq_some read, same⟩
  · have noParent : path.parentRel = .error (.assertion "self.level() > 0") := by
      simp [VPath.parentRel, deep, Run.assert]
    unfold Meta.getImageId Meta.ensureParent at found
    split at found
    · cases (Prod.mk.inj (Except.ok.inj found)).1
    · simp [noParent] at found

/-- What a rejected replacement reports is in `x.state`, unless it met an upload. -/
theorem records_of_reports {op : Metadata.Op} {answer : Metadata.Answer} {store after : Meta}
    {spot : Spot} {path : VPath} {image : ImageId} (located : op.vpath.place = spot.place)
    (ran : Metadata.run env store op = .ok (answer, after))
    (alone : ∀ io keys params, op = .startReplace io keys params →
      (Metadata.Demand.ofReplace keys params).Admitted env →
        ∀ writing, store.writing.lookup params.path.place = some writing →
          writing.image = params.image)
    (reports : (Task.answered op answer).reports = some (path, image)) :
    path = op.vpath ∧ Records (after.record spot).state image := by
  obtain ⟨_, change⟩ := Metadata.run_at located ran
  unfold Task.reports at reports
  split at reports
  · rename_i io keys params reason other same
    obtain ⟨rfl, rfl⟩ := Task.answered.inj same
    obtain ⟨rfl, rfl⟩ := Prod.mk.inj (Option.some.inj reports)
    refine ⟨rfl, ?_⟩
    obtain ⟨⟨result, marked⟩, started, done⟩ := Run.bind_eq_ok_iff.mp ran
    obtain ⟨rejected, rfl⟩ := Prod.mk.inj (Except.ok.inj done)
    obtain rfl := Metadata.Answer.upload.inj rejected
    obtain ⟨admitted, ⟨writing, entry, rfl, different⟩ | records⟩ :=
      Metadata.startReplaceMarked_rejected located started
    · have there : store.writing.lookup params.path.place = some writing := by
        rw [show params.path.place = spot.place from located]
        exact entry
      exact absurd (alone io keys params rfl admitted writing there) different
    · rw [unchanged_of_rejected change]
      exact records
  · rename_i same
    cases same
  · simp at reports

/-- A lookup shows what `x.state` records. -/
theorem Inv.lookUp {io : Io} {path : VPath} {result : Except Metadata.Error ImageId} {store : Meta}
    (inv : Inv spots start history event.before) (accepted : VPath.checkPath path.path = true)
    (found : event.before.store.getImageId io path = .ok (result, store))
    (after : event.after = { event.before with
      store := store
      watched := event.before.watched.insert path (.checking (some result)) }) :
    Inv spots start (history ++ [event]) event.after := by
  obtain ⟨writing, files⟩ := getImageId_frame found
  have record (spot : Spot) : event.after.store.record spot = event.before.store.record spot := by
    rw [after]
    simp only [Meta.record, writing, files]
  refine ⟨?_, ?_, ?_, ?_⟩
  · intro place image isShown
    rw [after] at isShown
    rcases shown_insert isShown with ⟨rfl, same⟩ | old
    · have ok : result = .ok image := by
        cases result with
        | error error => simp [Status.shows] at same
        | ok other =>
            obtain rfl : other = image := Option.some.inj same
            rfl
      obtain ⟨spot, located, records⟩ := records_of_getImageId accepted (ok ▸ found)
      rw [located]
      exact Committed.now (record spot ▸ records)
    · exact (inv.shown place image old).snoc event
  · intro task other image reported
    rw [after] at reported
    exact (inv.reports task other image reported).snoc event
  · intro task other image owned
    rw [after] at owned
    obtain ⟨spot, inside, located, held⟩ := inv.owned task other image owned
    exact ⟨spot, inside, located, record spot ▸ held⟩
  · rw [after]
    exact inv.unique

/-- The closure of a request runs at a spot. -/
theorem Inv.request {task : Nat} {op : Metadata.Op} {answer : Metadata.Answer} {store : Meta}
    {spot : Spot} (inv : Inv spots start history event.before) (apart : Apart spots)
    (orderly : Orderly env event) (isRequest : event.op = .request task op)
    (unfinished : op.finishes = false) (fresh : task ∉ event.before.tasks)
    (located : op.vpath.place = spot.place) (inside : spot ∈ spots)
    (ran : Metadata.run env event.before.store op = .ok (answer, store))
    (after : event.after = { event.before with
      store := store, tasks := event.before.tasks.insert task (.answered op answer) }) :
    Inv spots start (history ++ [event]) event.after := by
  obtain ⟨frame, change⟩ := Metadata.run_at located ran
  have afterStore : event.after.store = store := by rw [after]
  have vacant {path : VPath} {image : ImageId}
      (owns : (Task.answered op answer).owns = some (path, image)) (other : Nat) (otherPath : VPath)
      (otherImage : ImageId) (owned : event.before.owner other = some (otherPath, otherImage)) :
      path.place ≠ otherPath.place := by
    obtain ⟨free, rfl, _⟩ := held_of_owns change owns
    intro same
    obtain ⟨otherSpot, _, otherLocated, writing, entry, _⟩ := inv.owned other _ _ owned
    obtain rfl := Spot.place_injective (located.symm.trans (same.trans otherLocated))
    simp [free] at entry
  refine ⟨?_, ?_, ?_, ?_⟩
  · intro place image isShown
    rw [after] at isShown
    exact (inv.shown place image isShown).snoc event
  · intro other path image reported
    rw [after] at reported
    rcases seen_insert reported with ⟨_, new⟩ | old
    · have alone (io : Io) (keys : Metadata.KeyFiles) (params : ReplaceDir)
          (replaced : op = .startReplace io keys params) :=
        orderly.replaces task io keys params (isRequest.trans (by rw [replaced]))
      obtain ⟨rfl, records⟩ := records_of_reports located ran alone new
      rw [located]
      exact Committed.now (afterStore ▸ records)
    · exact (inv.reports other path image old).snoc event
  · intro other path image owned
    rw [after] at owned
    rw [afterStore]
    rcases seen_insert owned with ⟨_, new⟩ | old
    · obtain ⟨_, rfl, held⟩ := held_of_owns change new
      exact ⟨spot, inside, located, held⟩
    · obtain ⟨otherSpot, otherInside, otherLocated, held⟩ := inv.owned other path image old
      refine ⟨otherSpot, otherInside, otherLocated, ?_⟩
      by_cases same : otherSpot = spot
      · subst same
        exact held.change change unfinished
      · exact Held.frame apart frame inside otherInside same held
  · intro first second path other image image' owned otherOwned same
    rw [after] at owned otherOwned
    rcases seen_insert owned with ⟨rfl, new⟩ | old
    · rcases seen_insert otherOwned with ⟨rfl, _⟩ | otherOld
      · rfl
      · exact absurd same (vacant new second other image' otherOld)
    · rcases seen_insert otherOwned with ⟨rfl, otherNew⟩ | otherOld
      · exact absurd same.symm (vacant otherNew first path image old)
      · exact inv.unique first second path other image image' old otherOld same

/-- A request for a path that is only a key changes nothing. -/
theorem Inv.shallowRequest {task : Nat} {op : Metadata.Op} {answer : Metadata.Answer} {store : Meta}
    (inv : Inv spots start history event.before) (shallow : op.vpath.level = 0)
    (unfinished : op.finishes = false)
    (ran : Metadata.run env event.before.store op = .ok (answer, store))
    (after : event.after = { event.before with
      store := store, tasks := event.before.tasks.insert task (.answered op answer) }) :
    Inv spots start (history ++ [event]) event.after := by
  obtain ⟨writing, signatures, idle, unnamed⟩ :=
    Metadata.run_of_level_eq_zero shallow unfinished ran
  have record (spot : Spot) : event.after.store.record spot = event.before.store.record spot := by
    rw [after]
    simp only [Meta.record, writing, signatures]
  have reportless (found : VPath × ImageId) : (Task.answered op answer).reports ≠ some found := by
    unfold Task.reports
    split
    · rename_i same
      exact absurd (Task.answered.inj same).2 (unnamed _ _)
    · rename_i same
      cases same
    · simp
  have ownerless (found : VPath × ImageId) : (Task.answered op answer).owns ≠ some found := by
    unfold Task.owns
    split
    · rename_i same
      rw [(Task.answered.inj same).2] at idle
      exact absurd idle not_false
    · rename_i same
      rw [(Task.answered.inj same).2] at idle
      exact absurd idle not_false
    · rename_i same
      cases same
    · rename_i same
      cases same
    · simp
  refine inv.bookkeeping record ?_ ?_ ?_
  all_goals rw [after]
  · exact fun _ _ shown => Or.inl shown
  · intro other found reported
    rcases seen_insert reported with ⟨_, new⟩ | old
    · exact absurd new (reportless found)
    · exact old
  · intro other found owned
    rcases seen_insert owned with ⟨_, new⟩ | old
    · exact absurd new (ownerless found)
    · exact old

/-- A download ends: it gives up its path, and what it has committed is recorded. -/
theorem Inv.finish {task : Nat} {path : VPath} {image : ImageId} {io : Io} {commit : Bool}
    {answer : Metadata.Answer} {store : Meta} (inv : Inv spots start history event.before)
    (apart : Apart spots) (orderly : Orderly env event) (isFinish : event.op = .finish task io commit)
    (running : event.before.tasks.lookup task = some (.downloading path image))
    (ran : Metadata.run env event.before.store (finishing io path commit) = .ok (answer, store))
    (after : event.after = { event.before with
      store := store, tasks := event.before.tasks.insert task (.finished path image commit) }) :
    Inv spots start (history ++ [event]) event.after := by
  have owning : event.before.owner task = some (path, image) := by
    rw [Node.owner, running]
    rfl
  obtain ⟨spot, inside, located, held⟩ := inv.owned task path image owning
  have finishLocated : (finishing io path commit).vpath.place = spot.place := by
    cases commit <;> exact located
  obtain ⟨frame, change⟩ := Metadata.run_at finishLocated ran
  have afterStore : event.after.store = store := by rw [after]
  have owner (other : Nat) (found : VPath × ImageId) (owned : event.after.owner other = some found) :
      other ≠ task ∧ event.before.owner other = some found := by
    rw [after, Node.owner, Map.lookup_insert_eq] at owned
    split at owned
    · simp [Task.owns] at owned
    · rename_i different
      exact ⟨different, owned⟩
  refine ⟨?_, ?_, ?_, ?_⟩
  · intro place image isShown
    rw [after] at isShown
    exact (inv.shown place image isShown).snoc event
  · intro other otherPath otherImage reported
    rw [after] at reported
    rcases seen_insert reported with ⟨_, new⟩ | old
    · cases commit with
      | false => simp [Task.reports] at new
      | true =>
          obtain ⟨rfl, rfl⟩ := Prod.mk.inj (Option.some.inj new)
          rw [located]
          refine Committed.now ?_
          rw [afterStore]
          exact held.commit change (orderly.commits task io isFinish)
    · exact (inv.reports other otherPath otherImage old).snoc event
  · intro other otherPath otherImage owned
    obtain ⟨different, old⟩ := owner other _ owned
    obtain ⟨otherSpot, otherInside, otherLocated, otherHeld⟩ :=
      inv.owned other otherPath otherImage old
    refine ⟨otherSpot, otherInside, otherLocated, ?_⟩
    rw [afterStore]
    refine Held.frame apart frame inside otherInside ?_ otherHeld
    rintro rfl
    exact different (inv.unique _ _ _ _ _ _ old owning (otherLocated.trans located.symm))
  · intro first second firstPath other firstImage image' owned otherOwned
    exact inv.unique first second firstPath other firstImage image' (owner first _ owned).2
      (owner second _ otherOwned).2

theorem exec_of_takes (valid : (nodeMachine env).Takes event) :
    event.before.exec env event.op = some event.after := by
  obtain ⟨next, stepped, same⟩ := Option.map_eq_some_iff.mp valid
  rw [stepped, (Prod.mk.inj same).2]

/-- Every orderly step keeps the invariant. -/
theorem Inv.step (inv : Inv spots start history event.before) (apart : Apart spots)
    (orderly : Orderly env event)
    (within : ∀ path ∈ event.op.paths, ∀ spot : Spot, path.place = spot.place → spot ∈ spots)
    (valid : (nodeMachine env).Takes event) :
    Inv spots start (history ++ [event]) event.after := by
  obtain ⟨before, op, answer, after⟩ := event
  have stepped : before.exec env op = some after := exec_of_takes valid
  cases nodeStep_of_exec stepped with
  | request unfinished absent ran =>
      rename_i task op answer store
      have accepted := orderly.checked op.vpath (by simp [NodeOp.paths])
      by_cases deep : 0 < op.vpath.level
      · obtain ⟨spot, located⟩ := VPath.exists_spot accepted deep
        exact inv.request apart orderly rfl unfinished absent located
          (within op.vpath (by simp [NodeOp.paths]) spot located) ran rfl
      · exact inv.shallowRequest (by omega) unfinished ran rfl
  | proceed waiting ran => exact inv.proceed waiting ran rfl
  | start waiting => exact inv.started waiting rfl
  | finish running ran => exact inv.finish apart orderly rfl running ran rfl
  | finished waiting => exact inv.finished waiting rfl
  | check =>
      refine inv.rewatched (fun place image shown => ?_) rfl
      rcases shown_insert shown with ⟨_, nothing⟩ | old
      · simp [Status.shows] at nothing
      · exact old
  | known => exact inv.rewatched (fun _ _ shown => shown) rfl
  | lookUp ran => exact inv.lookUp (orderly.checked _ (by simp [NodeOp.paths])) ran rfl
  | getComplete => exact inv.rewatched (fun _ _ shown => shown_of_poll shown) rfl
  | retain =>
      refine inv.rewatched (fun place image shown => ?_) rfl
      refine shown_of_retain (fun path status polled kept => ?_) shown
      exact (Option.ite_none_right_eq_some.mp kept).2

end Steps

/-- Append an image and download it. -/
def Sample.uploading (task : Nat) (io : Io) : List NodeOp :=
  [.request task (Metadata.Sample.append (Metadata.Sample.image 1)), .proceed task ⟨∅, ∅⟩,
    .start task, .finish task io true, .finished task]

end Tracking

end Ciruela
