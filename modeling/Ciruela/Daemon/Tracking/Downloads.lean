import Ciruela.Daemon.Tracking.Tracker

/-!
# Downloads under way

`in_progress` is keyed by the path of a download, and a base directory counts the downloads
below it by increments and decrements. A path is free for a new upload as soon as the
metadata knows that a download has ended, which is before the tables here do.
-/

namespace Ciruela

open Foundation

namespace Tracking

open Metadata (Env)

section Nodes

variable {env : Env} {node next : Node}

/-- The downloads after one task has changed. -/
theorem download_insert {tasks : Map Nat Task} {task : Nat} {entry : Task}
    (changed : next.tasks = tasks.insert task entry) (other : Nat) :
    next.download other =
      if other = task then entry.started else (tasks.lookup other).bind Task.started := by
  rw [Node.download, changed, Map.lookup_insert_eq]
  split <;> rfl

/-- The effects of a handler start no download. -/
theorem download_apply {task : Nat} (vacant : node.download task = none) (effect : Effect)
    (other : Nat) :
    (node.apply task effect).inProgress = node.inProgress ∧
      (node.apply task effect).download other = node.download other := by
  cases effect with
  | fetchDir path image replacing =>
      refine ⟨rfl, ?_⟩
      rw [Node.apply, download_insert rfl]
      split
      · rename_i same
        rw [same, vacant]
        rfl
      · rfl
  | notifyReceivedImage image path => exact ⟨rfl, rfl⟩
  | watchComplete path image => exact ⟨rfl, rfl⟩

/-- All effects of an answer together start no download. -/
theorem download_foldl_apply {task : Nat} (effects : List Effect)
    (vacant : node.download task = none) (other : Nat) :
    (effects.foldl (Node.apply task) node).inProgress = node.inProgress ∧
      (effects.foldl (Node.apply task) node).download other = node.download other := by
  induction effects generalizing node with
  | nil => exact ⟨rfl, rfl⟩
  | cons effect rest ih =>
      obtain ⟨inProgress, same⟩ := download_apply vacant effect other
      have stillVacant : (node.apply task effect).download task = none := by
        rw [(download_apply vacant effect task).2, vacant]
      obtain ⟨restInProgress, restSame⟩ := ih stillVacant
      exact ⟨restInProgress.trans inProgress, restSame.trans same⟩

/-- The other steps of a node leave the downloads as they are. -/
theorem downloads_of_exec {op : NodeOp} (plain : op.counts = false)
    (stepped : node.exec env op = some next) :
    next.inProgress = node.inProgress ∧ ∀ task, next.download task = node.download task := by
  cases nodeStep_of_exec stepped with
  | request _ free =>
      refine ⟨rfl, fun other => ?_⟩
      rw [download_insert rfl]
      split
      · rename_i same
        rw [same, Node.download, Finmap.lookup_eq_none.mpr free]
        rfl
      · rfl
  | proceed waiting ran =>
      rename_i task peers op answer effects
      have erased (other : Nat) :
          Node.download { node with tasks := node.tasks.erase task } other =
            node.download other := by
        rw [Node.download, Map.lookup_erase_eq]
        split
        · rename_i same
          rw [same, Node.download, waiting]
          rfl
        · rfl
      have vacant : Node.download { node with tasks := node.tasks.erase task } task = none := by
        rw [erased, Node.download, waiting]
        rfl
      refine ⟨(download_foldl_apply effects vacant task).1, fun other => ?_⟩
      rw [(download_foldl_apply effects vacant other).2, erased]
  | start => cases plain
  | finish running =>
      refine ⟨rfl, fun other => ?_⟩
      rw [download_insert rfl]
      split
      · rename_i same
        rw [same, Node.download, running]
        rfl
      · rfl
  | finished => cases plain
  | check => exact ⟨rfl, fun _ => rfl⟩
  | known => exact ⟨rfl, fun _ => rfl⟩
  | lookUp => exact ⟨rfl, fun _ => rfl⟩
  | getComplete => exact ⟨rfl, fun _ => rfl⟩
  | retain => exact ⟨rfl, fun _ => rfl⟩

end Nodes

/-- The number of downloads a base directory has counted. -/
def Tracker.count (tracker : Tracker) (place : List Component) : Option Nat :=
  (tracker.baseDirs.lookup place).map BaseDir.numDownloading

/-- What a step does to the downloads and to their counters. -/
inductive Counted (event : TrackerEvent) : Prop where
  | same (inProgress : event.after.node.inProgress = event.before.node.inProgress)
      (downloads : ∀ task, event.after.node.download task = event.before.node.download task)
      (counts : ∀ place, event.after.count place = event.before.count place)
  | started (task : Nat) (path : VPath) (image : ImageId)
      (isStart : event.op = .node (.start task))
      (isFetch : event.before.node.tasks.lookup task = some (.fetch path image))
      (inProgress : event.after.node.inProgress =
        event.before.node.inProgress.insert path.place image)
      (fits : event.after.node.inProgress.keys.card < 2 ^ 64)
      (downloads : ∀ other, event.after.node.download other =
        if other = task then some (path, image) else event.before.node.download other)
      (counts : ∀ place, event.after.count place =
        if place = path.place.dropLast then
          (event.before.count place).map fun count => (count + 1) % 2 ^ 64
        else event.before.count place)
  | ended (task : Nat) (path : VPath) (image : ImageId) (committed : Bool)
      (isEnd : event.op = .node (.finished task))
      (isFinished : event.before.node.tasks.lookup task = some (.finished path image committed))
      (inProgress : event.after.node.inProgress = event.before.node.inProgress.erase path.place)
      (downloads : ∀ other, event.after.node.download other =
        if other = task then none else event.before.node.download other)
      (counts : ∀ place, event.after.count place =
        if place = path.place.dropLast then
          (event.before.count place).map fun count => (count + (2 ^ 64 - 1)) % 2 ^ 64
        else event.before.count place)
  /-- A new base directory takes the number of the downloads below it. -/
  | found (place : List Component)
      (inProgress : event.after.node.inProgress = event.before.node.inProgress)
      (downloads : ∀ task, event.after.node.download task = event.before.node.download task)
      (counts : ∀ other, event.after.count other =
        if other = place then some (event.before.downloading place % 2 ^ 64)
        else event.before.count other)

section Counters

variable {env : Env} {tracker next : Tracker}

/-- The counters after one directory has changed. -/
theorem count_insert {baseDirs : Map (List Component) BaseDir} {place : List Component}
    {dir : BaseDir} (changed : next.baseDirs = baseDirs.insert place dir) (other : List Component) :
    next.count other =
      if other = place then some dir.numDownloading
      else (baseDirs.lookup other).map BaseDir.numDownloading := by
  rw [Tracker.count, changed, Map.lookup_insert_eq]
  split <;> rfl

/-- The counters after one of them was adjusted. -/
theorem count_adjust (tracker : Tracker) (place : List Component) {change : BaseDir → BaseDir}
    (step : Nat → Nat) (steps : ∀ dir, (change dir).numDownloading = step dir.numDownloading)
    (other : List Component) :
    (tracker.adjust place change).count other =
      if other = place then (tracker.count other).map step else tracker.count other := by
  unfold Tracker.adjust
  split
  · rename_i dir found
    rw [count_insert rfl]
    by_cases same : other = place
    · subst same
      simp [Tracker.count, found, steps]
    · simp only [if_neg same]
      rfl
  · rename_i missing
    split
    · rename_i same
      subst same
      simp [Tracker.count, missing]
    · rfl

theorem count_incr (tracker : Tracker) (place other : List Component) :
    (tracker.adjust place BaseDir.incrDownloading).count other =
      if other = place then (tracker.count other).map fun count => (count + 1) % 2 ^ 64
      else tracker.count other :=
  count_adjust tracker place (fun count => (count + 1) % 2 ^ 64) (fun _ => rfl) other

theorem count_decr (tracker : Tracker) (place other : List Component) :
    (tracker.adjust place BaseDir.decrDownloading).count other =
      if other = place then (tracker.count other).map fun count => (count + (2 ^ 64 - 1)) % 2 ^ 64
      else tracker.count other :=
  count_adjust tracker place (fun count => (count + (2 ^ 64 - 1)) % 2 ^ 64) (fun _ => rfl) other

theorem node_adjust (tracker : Tracker) (place : List Component) (change : BaseDir → BaseDir) :
    (tracker.adjust place change).node = tracker.node := by
  unfold Tracker.adjust
  split <;> rfl

/-- Ending a scan keeps a count that is there. -/
theorem count_commitScan (tracker : Tracker) (data : Ciruela.BaseDir.BaseDirState)
    (config : Directory) (scanTime : Nat) (other : List Component) :
    (tracker.commitScan data config scanTime).2.count other =
      if other = data.path.place then
        some ((tracker.count other).getD (tracker.downloading data.path.place % 2 ^ 64))
      else tracker.count other := by
  obtain ⟨dir, committed, _, _, count⟩ := commitScan_spec tracker data config scanTime
  rw [committed, count_insert rfl]
  split
  · rename_i same
    subst same
    rw [count]
    rfl
  · rfl

/-- How a step of the downloads counts. -/
theorem Counted.node {op : NodeOp} {answer : Option (VPath × Metadata.Found)}
    (stepped : tracker.execNode env op = some next) :
    Counted ⟨tracker, .node op, answer, next⟩ := by
  obtain ⟨task, path, image, parent, sent, node, rfl, isFetch, isParent, isSent, ran, fits, rfl⟩ |
    ⟨task, path, image, committed, parent, node, rfl, isFinished, isParent, ran, isSent⟩ |
    ⟨plain, node, ran, rfl⟩ := execNode_cases stepped
  · rw [Node.exec, isFetch] at ran
    obtain rfl := Option.some.inj ran
    obtain ⟨-, rfl⟩ := send_eq isSent
    refine .started task path image rfl isFetch ?_ ?_ (fun other => ?_) fun place => ?_
    · rw [node_adjust]
    · rw [node_adjust]
      exact fits
    · rw [node_adjust, download_insert rfl]
      rfl
    · rw [← VPath.place_parent isParent]
      exact count_incr _ parent.place place
  · rw [Node.exec, isFinished] at ran
    obtain rfl := Option.some.inj ran
    obtain ⟨-, rfl⟩ := send_eq isSent
    refine .ended task path image committed rfl isFinished ?_ (fun other => ?_) fun place => ?_
    · rw [node_adjust]
    · rw [node_adjust, Node.download, Map.lookup_erase_eq]
      split <;> rfl
    · rw [← VPath.place_parent isParent]
      exact count_decr _ parent.place place
  · obtain ⟨inProgress, downloads⟩ := downloads_of_exec plain ran
    exact .same inProgress downloads fun _ => rfl

/-- Looking for the next image changes only where the loop stands. -/
theorem counted_nextDir {op : TrackerOp} {answer : Option (VPath × Metadata.Found)}
    {middle : Tracker} {request : Request} {config : Directory} {dirs : List (List Char × State)}
    (counted : ∀ rescan, Counted ⟨tracker, op, answer, { middle with rescan := rescan }⟩)
    (moved : middle.nextDir request config dirs = some next) :
    Counted ⟨tracker, op, answer, next⟩ := by
  obtain ⟨_, rfl⟩ | ⟨_, _, _, _, _, rfl⟩ := nextDir_eq moved
  all_goals exact counted _

/-- A scan that is taken over keeps the counters. -/
theorem Counted.commitScan {op : TrackerOp} {answer : Option (VPath × Metadata.Found)}
    (store : Metadata.Meta) (data : Ciruela.BaseDir.BaseDirState) (config : Directory)
    (scanTime : Nat) (rescan : Rescan) :
    Counted ⟨tracker, op, answer,
      { ({ tracker with node := { tracker.node with store := store } }.commitScan data config
          scanTime).2 with rescan := rescan }⟩ := by
  have counts := count_commitScan { tracker with node := { tracker.node with store := store } }
    data config scanTime
  obtain ⟨dir, committed, _⟩ := commitScan_spec
    { tracker with node := { tracker.node with store := store } } data config scanTime
  rw [committed] at counts ⊢
  cases known : tracker.count data.path.place with
  | some count =>
      refine .same rfl (fun _ => rfl) fun other => (counts other).trans ?_
      split
      · rename_i same
        subst same
        show some ((tracker.count data.path.place).getD _) = tracker.count data.path.place
        rw [known]
        rfl
      · rfl
  | none =>
      refine .found data.path.place rfl (fun _ => rfl) fun other => (counts other).trans ?_
      split
      · rename_i same
        subst same
        show some ((tracker.count data.path.place).getD _) = _
        rw [known]
        rfl
      · rfl

/-- How a step counts. -/
theorem counted_of_takes {event : TrackerEvent} (takes : (trackerMachine env).Takes event) :
    Counted event := by
  obtain ⟨before, op, answer, after⟩ := event
  have stepped : before.exec env op = some (answer, after) := takes
  have plain {middle : Tracker} (inProgress : middle.node.inProgress = before.node.inProgress)
      (downloads : ∀ task, middle.node.download task = before.node.download task)
      (baseDirs : middle.baseDirs = before.baseDirs) : Counted ⟨before, op, answer, middle⟩ :=
    .same inProgress downloads fun place => by rw [Tracker.count, baseDirs]; rfl
  cases op with
  | tick elapsed =>
      obtain ⟨-, rfl⟩ := Prod.mk.inj (Option.some.inj stepped)
      exact plain rfl (fun _ => rfl) rfl
  | node op =>
      obtain ⟨next, ran, stepped⟩ := Option.bind_eq_some_iff.mp stepped
      obtain ⟨-, rfl⟩ := Prod.mk.inj (Option.some.inj stepped)
      exact .node ran
  | scanDir path =>
      obtain ⟨-, rfl⟩ := send_eq (scanDir_eq stepped).2
      exact plain rfl (fun _ => rfl) rfl
  | rescanDir path =>
      obtain ⟨-, rfl⟩ := send_eq (rescanDir_eq stepped).2
      exact plain rfl (fun _ => rfl) rfl
  | take =>
      obtain ⟨request, queue, _, _, ⟨_, rfl⟩ | ⟨_, config, _, rfl⟩⟩ := take_cases stepped
      all_goals exact plain rfl (fun _ => rfl) rfl
  | scanned io now names file =>
      obtain ⟨request, config, scanTime, _, ⟨error, store, _, rfl⟩ | ⟨data, store, _, moved⟩⟩ :=
        scanned_cases stepped
      · exact plain rfl (fun _ => rfl) rfl
      · exact counted_nextDir (fun rescan => .commitScan store data config scanTime rescan) moved
  | checked result =>
      obtain ⟨request, config, path, rest, _, ⟨_, rfl⟩ | ⟨_, moved⟩⟩ := checked_cases stepped
      · exact plain rfl (fun _ => rfl) rfl
      · exact counted_nextDir (fun rescan => plain rfl (fun _ => rfl) rfl) moved
  | resume io =>
      obtain ⟨request, config, path, rest, result, store, _, _, rfl⟩ := resume_cases stepped
      exact plain rfl (fun _ => rfl) rfl
  | proceed task =>
      obtain ⟨request, config, path, rest, ⟨image, effect, _, free, _, moved⟩ | ⟨error, _, rfl⟩⟩ :=
        proceed_rescan_cases stepped
      · have vacant : before.node.download task = none := by
          rw [Node.download, Finmap.lookup_eq_none.mpr free]
          rfl
        refine counted_nextDir ?_ moved
        intro rescan
        exact plain (download_apply vacant effect task).1
          (fun other => (download_apply vacant effect other).2) rfl
      · exact plain rfl (fun _ => rfl) rfl

end Counters

section Tracked

/-- The table of downloads is that of the tasks, and every base directory counts those below
it. -/
structure Tracked (tracker : Tracker) : Prop where
  started : ∀ task path image, tracker.node.download task = some (path, image) →
    tracker.node.inProgress.lookup path.place = some image
  distinct : ∀ first second path image other others,
    tracker.node.download first = some (path, image) →
    tracker.node.download second = some (other, others) → path.place = other.place → first = second
  covered : ∀ place image, tracker.node.inProgress.lookup place = some image →
    ∃ task path, tracker.node.download task = some (path, image) ∧ path.place = place
  counted : ∀ place count, tracker.count place = some count → count = tracker.downloading place

/-- A download begins where none is under way. -/
def StartsFree (event : TrackerEvent) : Prop :=
  ∀ task path image, event.op = .node (.start task) →
    event.before.node.tasks.lookup task = some (.fetch path image) →
      path.place ∉ event.before.node.inProgress

/-- The counter of a base directory is not zero where it is decremented. -/
def Subtracts (event : TrackerEvent) : Prop :=
  ∀ task path image committed, event.op = .node (.finished task) →
    event.before.node.tasks.lookup task = some (.finished path image committed) →
      ∀ dir, event.before.baseDirs.lookup path.place.dropLast = some dir → 0 < dir.numDownloading

variable {env : Env} {tracker next : Tracker} {event : TrackerEvent}

/-- The downloads below a directory after one more has started. -/
theorem downloading_insert {place : List Component} {image : ImageId}
    (fresh : place ∉ tracker.node.inProgress)
    (inserted : next.node.inProgress = tracker.node.inProgress.insert place image)
    (parent : List Component) :
    next.downloading parent =
      tracker.downloading parent + if place.dropLast = parent then 1 else 0 := by
  have keys : next.node.inProgress.keys = insert place tracker.node.inProgress.keys := by
    ext other
    rw [inserted, Finmap.mem_keys, Finmap.mem_insert, Finset.mem_insert, Finmap.mem_keys]
  have outside : place ∉ tracker.node.inProgress.keys.filter fun path => path.dropLast = parent :=
    fun member => fresh (Finmap.mem_keys.mp (Finset.mem_filter.mp member).1)
  unfold Tracker.downloading
  rw [keys, Finset.filter_insert]
  split
  · rw [Finset.card_insert_of_notMem outside]
  · rfl

/-- The downloads below a directory after one has ended. -/
theorem downloading_erase {place : List Component} (known : place ∈ tracker.node.inProgress)
    (erased : next.node.inProgress = tracker.node.inProgress.erase place)
    (parent : List Component) :
    tracker.downloading parent =
      next.downloading parent + if place.dropLast = parent then 1 else 0 := by
  unfold Tracker.downloading
  rw [erased, Finmap.keys_erase, Finset.filter_erase]
  split
  · rename_i below
    refine (Finset.card_erase_add_one ?_).symm
    exact Finset.mem_filter.mpr ⟨Finmap.mem_keys.mpr known, by simpa using below⟩
  · rename_i elsewhere
    rw [Finset.erase_eq_of_notMem]
    · rfl
    · exact fun member => elsewhere (by simpa using (Finset.mem_filter.mp member).2)

theorem downloading_congr (same : next.node.inProgress = tracker.node.inProgress)
    (place : List Component) : next.downloading place = tracker.downloading place := by
  rw [Tracker.downloading, same]
  rfl

theorem downloading_lt (fits : tracker.node.inProgress.keys.card < 2 ^ 64)
    (place : List Component) : tracker.downloading place < 2 ^ 64 :=
  lt_of_le_of_lt (Finset.card_filter_le _ _) fits

namespace Tracked

/-- Everything is tracked at first. -/
theorem new (signatures : Tree Metadata.Content) (indexes : Tree (List UInt8)) (now : Nat) :
    Tracked (Tracker.new (Node.new signatures indexes) now) where
  started := by simp [Tracker.new, Node.new, Node.download]
  distinct := by simp [Tracker.new, Node.new, Node.download]
  covered := by simp [Tracker.new, Node.new]
  counted := by simp [Tracker.new, Tracker.count]

/-- The tasks and the table stay, and the counters are right. -/
theorem same (tracked : Tracked tracker)
    (inProgress : next.node.inProgress = tracker.node.inProgress)
    (downloads : ∀ task, next.node.download task = tracker.node.download task)
    (counted : ∀ place count, next.count place = some count → count = tracker.downloading place) :
    Tracked next where
  started task path image isStarted := by
    rw [inProgress]
    exact tracked.started task path image (downloads task ▸ isStarted)
  distinct first second path image other others isFirst isSecond same :=
    tracked.distinct first second path image other others (downloads first ▸ isFirst)
      (downloads second ▸ isSecond) same
  covered place image found := by
    obtain ⟨task, path, isStarted, same⟩ := tracked.covered place image (inProgress ▸ found)
    exact ⟨task, path, (downloads task).trans isStarted, same⟩
  counted place count isCount := by
    rw [downloading_congr inProgress]
    exact counted place count isCount

/-- A download that starts keeps everything tracked. -/
theorem start {task : Nat} {path : VPath} {image : ImageId} (tracked : Tracked tracker)
    (free : path.place ∉ tracker.node.inProgress) (idle : tracker.node.download task = none)
    (fits : next.node.inProgress.keys.card < 2 ^ 64)
    (inProgress : next.node.inProgress = tracker.node.inProgress.insert path.place image)
    (downloads : ∀ other, next.node.download other =
      if other = task then some (path, image) else tracker.node.download other)
    (counts : ∀ place, next.count place =
      if place = path.place.dropLast then (tracker.count place).map fun count => (count + 1) % 2 ^ 64
      else tracker.count place) : Tracked next := by
  -- a download that was under way before is at another place
  have elsewhere {other : Nat} {old : VPath} {oldImage : ImageId}
      (isOld : tracker.node.download other = some (old, oldImage)) : old.place ≠ path.place := by
    intro same
    refine free (Finmap.mem_iff.mpr ⟨oldImage, ?_⟩)
    rw [← same]
    exact tracked.started other old oldImage isOld
  refine ⟨?_, ?_, ?_, ?_⟩
  · intro other old oldImage isStarted
    rw [downloads] at isStarted
    rw [inProgress, Map.lookup_insert_eq]
    split at isStarted
    · obtain ⟨rfl, rfl⟩ := Prod.mk.inj (Option.some.inj isStarted)
      rw [if_pos rfl]
    · rw [if_neg (elsewhere isStarted)]
      exact tracked.started other old oldImage isStarted
  · intro first second one image' other others isFirst isSecond same
    rw [downloads] at isFirst isSecond
    split at isFirst
    · rename_i firstTask
      obtain ⟨rfl, -⟩ := Prod.mk.inj (Option.some.inj isFirst)
      split at isSecond
      · rename_i secondTask
        rw [firstTask, secondTask]
      · exact absurd same.symm (elsewhere isSecond)
    · split at isSecond
      · obtain ⟨rfl, -⟩ := Prod.mk.inj (Option.some.inj isSecond)
        exact absurd same (elsewhere isFirst)
      · exact tracked.distinct first second one image' other others isFirst isSecond same
  · intro place found isFound
    rw [inProgress, Map.lookup_insert_eq] at isFound
    split at isFound
    · rename_i here
      obtain rfl := Option.some.inj isFound
      exact ⟨task, path, by rw [downloads, if_pos rfl], here.symm⟩
    · obtain ⟨other, old, isOld, same⟩ := tracked.covered place found isFound
      refine ⟨other, old, ?_, same⟩
      rw [downloads, if_neg, isOld]
      rintro rfl
      rw [idle] at isOld
      cases isOld
  · intro place count isCount
    have bound := downloading_lt fits place
    rw [downloading_insert free inProgress] at bound ⊢
    rw [counts] at isCount
    split at isCount
    · rename_i here
      obtain ⟨old, isOld, rfl⟩ := Option.map_eq_some_iff.mp isCount
      rw [if_pos here.symm] at bound ⊢
      rw [← tracked.counted place old isOld] at bound ⊢
      exact Nat.mod_eq_of_lt bound
    · rename_i notHere
      rw [if_neg (Ne.symm notHere)]
      exact tracked.counted place count isCount

/-- A download that ends keeps everything tracked. -/
theorem ended {task : Nat} {path : VPath} {image : ImageId} (tracked : Tracked tracker)
    (isStarted : tracker.node.download task = some (path, image))
    (fits : tracker.node.inProgress.keys.card < 2 ^ 64)
    (inProgress : next.node.inProgress = tracker.node.inProgress.erase path.place)
    (downloads : ∀ other, next.node.download other =
      if other = task then none else tracker.node.download other)
    (counts : ∀ place, next.count place =
      if place = path.place.dropLast then
        (tracker.count place).map fun count => (count + (2 ^ 64 - 1)) % 2 ^ 64
      else tracker.count place) : Tracked next := by
  have known : path.place ∈ tracker.node.inProgress :=
    Finmap.mem_iff.mpr ⟨image, tracked.started task path image isStarted⟩
  refine ⟨?_, ?_, ?_, ?_⟩
  · intro other old oldImage isOld
    rw [downloads] at isOld
    split at isOld
    · cases isOld
    · rename_i different
      rw [inProgress, Map.lookup_erase_eq, if_neg]
      · exact tracked.started other old oldImage isOld
      · exact fun same => different (tracked.distinct other task old oldImage path image isOld
          isStarted same)
  · intro first second one image' other others isFirst isSecond same
    rw [downloads] at isFirst isSecond
    split at isFirst
    · cases isFirst
    · split at isSecond
      · cases isSecond
      · exact tracked.distinct first second one image' other others isFirst isSecond same
  · intro place found isFound
    rw [inProgress, Map.lookup_erase_eq] at isFound
    split at isFound
    · cases isFound
    · rename_i different
      obtain ⟨other, old, isOld, same⟩ := tracked.covered place found isFound
      refine ⟨other, old, ?_, same⟩
      rw [downloads, if_neg, isOld]
      rintro rfl
      obtain ⟨rfl, -⟩ := Prod.mk.inj (Option.some.inj (isOld.symm.trans isStarted))
      exact different same.symm
  · intro place count isCount
    have bound := downloading_lt fits place
    have before := downloading_erase known inProgress place
    rw [counts] at isCount
    split at isCount
    · rename_i here
      obtain ⟨old, isOld, rfl⟩ := Option.map_eq_some_iff.mp isCount
      have counted := tracked.counted place old isOld
      rw [if_pos here.symm] at before
      omega
    · rename_i notHere
      rw [if_neg (Ne.symm notHere)] at before
      exact (tracked.counted place count isCount).trans before

/-- A step keeps everything tracked. -/
theorem step (tracked : Tracked event.before)
    (fits : event.before.node.inProgress.keys.card < 2 ^ 64) (free : StartsFree event)
    (takes : (trackerMachine env).Takes event) :
    Tracked event.after ∧ event.after.node.inProgress.keys.card < 2 ^ 64 := by
  cases counted_of_takes takes with
  | same inProgress downloads counts =>
      refine ⟨tracked.same inProgress downloads fun place count isCount => ?_, inProgress ▸ fits⟩
      exact tracked.counted place count (counts place ▸ isCount)
  | started task path image isStart isFetch inProgress fitsAfter downloads counts =>
      have idle : event.before.node.download task = none := by
        rw [Node.download, isFetch]
        rfl
      exact ⟨tracked.start (free task path image isStart isFetch) idle fitsAfter inProgress downloads
        counts, fitsAfter⟩
  | ended task path image committed isEnd isFinished inProgress downloads counts =>
      have isStarted : event.before.node.download task = some (path, image) := by
        rw [Node.download, isFinished]
        rfl
      refine ⟨tracked.ended isStarted fits inProgress downloads counts, ?_⟩
      rw [inProgress, Finmap.keys_erase]
      exact lt_of_le_of_lt (Finset.card_erase_le) fits
  | found place inProgress downloads counts =>
      refine ⟨tracked.same inProgress downloads fun other count isCount => ?_, inProgress ▸ fits⟩
      rw [counts] at isCount
      split at isCount
      · rename_i here
        rw [← Option.some.inj isCount, here]
        exact Nat.mod_eq_of_lt (downloading_lt fits place)
      · exact tracked.counted other count isCount

/-- The download that ends is one of those that are counted. -/
theorem subtracts (tracked : Tracked event.before) : Subtracts event := by
  intro task path image committed _ isFinished dir found
  have isStarted : event.before.node.download task = some (path, image) := by
    rw [Node.download, isFinished]
    rfl
  have known : path.place ∈ event.before.node.inProgress :=
    Finmap.mem_iff.mpr ⟨image, tracked.started task path image isStarted⟩
  have counted := tracked.counted path.place.dropLast dir.numDownloading
    (by rw [Tracker.count, found]; rfl)
  rw [counted]
  refine Finset.card_pos.mpr ⟨path.place, ?_⟩
  exact Finset.mem_filter.mpr ⟨Finmap.mem_keys.mpr known, by simp⟩

end Tracked

/-- Where every download begins at a path without one, the table has exactly the downloads
that are under way, every base directory counts those below it, and no counter wraps. -/
theorem downloads_tracked (signatures : Tree Metadata.Content) (indexes : Tree (List UInt8))
    (now : Nat) {trace : List TrackerEvent} {finish : Tracker}
    (steps : (trackerMachine env).Steps (Tracker.new (Node.new signatures indexes) now) trace finish)
    (free : ∀ event ∈ trace, StartsFree event) :
    Tracked finish ∧ ∀ event ∈ trace, Tracked event.before ∧ Subtracts event := by
  have kept := steps.preserves
    (fun tracker => Tracked tracker ∧ tracker.node.inProgress.keys.card < 2 ^ 64) StartsFree
    (fun _ takes free inv => inv.1.step inv.2 free takes) free
    ⟨.new signatures indexes now, by simp [Tracker.new, Node.new]⟩
  refine ⟨kept.1.1, fun event member => ?_⟩
  have tracked := (kept.2 event member).1.1
  exact ⟨tracked, tracked.subtracts⟩

end Tracked

/-- Whether the operation is the start of a download. -/
def TrackerOp.starts : TrackerOp → Bool
  | node (.start _) => true
  | _ => false

namespace Sample

open Metadata (Io)

/-- Upload an image to `/k/a`, up to the beginning of its download. -/
def starting (task : Nat) (image : ImageId) : List TrackerOp :=
  [.node (.request task (Metadata.Sample.append image)), .node (.proceed task ⟨∅, ∅⟩),
    .node (.start task)]

/-- The second upload is accepted when the metadata has aborted the first. Then `/k` is
scanned for the first time. -/
def overlapping : List TrackerOp :=
  starting 0 (Metadata.Sample.image 1) ++ [.node (.finish 0 Io.working false)] ++
    starting 1 (Metadata.Sample.image 2) ++ [.node (.finish 1 Io.working false), .take]

/-- The ends of the downloads get to the tracking subsystem. -/
def ending : List TrackerOp := [.node (.finished 0), .node (.finished 1)]

/-- Before the scan of `/k` ends, and after it. -/
def unscanned : Tracker := (play tracker overlapping).2

/-- The tracker after a scan. -/
def scanned : Tracker := scannedAt unscanned 0

end Sample

/-- The second download begins after the first one has ended. -/
theorem downloads_tracked_twice :
    let run := Sample.play Sample.tracker (Sample.starting 0 (Metadata.Sample.image 1) ++
      [.node (.finish 0 Metadata.Io.working false), .node (.finished 0)] ++
      Sample.starting 1 (Metadata.Sample.image 2))
    run.1.length = 8 ∧ Tracked run.2 ∧ ∀ event ∈ run.1, Tracked event.before ∧ Subtracts event := by
  intro run
  refine ⟨by decide +kernel, downloads_tracked .empty .empty 0 (Machine.Steps.of_play _ _ _) ?_⟩
  have free : ∀ event ∈ run.1, event.op.starts = true → event.before.node.inProgress.keys = ∅ := by
    decide +kernel
  intro event member task path image isStart _ known
  have nothing := free event member (by rw [isStart]; rfl)
  rw [← Finmap.mem_keys, nothing] at known
  exact absurd known (Finset.notMem_empty _)

/-- The end of the first download takes away the entry of the second, and the end of the
second makes the counter wrap. -/
theorem counter_wraps :
    ∃ trace finish, (trackerMachine (Metadata.Sample.env false)).Steps Sample.tracker trace finish ∧
      (∃ event ∈ trace,
        event.before.node.inProgress.lookup Metadata.Sample.spot.place =
          some (Metadata.Sample.image 2) ∧
        Metadata.Sample.spot.place ∉ event.after.node.inProgress ∧
        (event.after.node.download 1).isSome = true) ∧
      finish.downloading Metadata.Sample.base.place = 0 ∧
      finish.count Metadata.Sample.base.place = some (2 ^ 64 - 1) ∧ ¬ Tracked finish := by
  have isScanning : Sample.unscanned.rescan =
      .scanning ⟨0, Metadata.Sample.base, 0, false⟩ (Metadata.Sample.directory false) 0 := rfl
  have nothing : Sample.unscanned.node.store.signatures.files Metadata.Sample.base.names = ∅ := by
    decide +kernel
  have scans : ∃ answer, (trackerMachine (Metadata.Sample.env false)).Takes
      ⟨Sample.unscanned, .scanned Metadata.Io.working 0 [] .notFound, answer, Sample.scanned⟩ :=
    exists_takes_scanned 0 isScanning rfl rfl nothing
  obtain ⟨answer, scans⟩ := scans
  have removed : ∃ event ∈ (Sample.play Sample.scanned Sample.ending).1,
      event.before.node.inProgress.lookup Metadata.Sample.spot.place =
        some (Metadata.Sample.image 2) ∧
      Metadata.Sample.spot.place ∉ event.after.node.inProgress ∧
      (event.after.node.download 1).isSome = true := by decide +kernel
  have none : (Sample.play Sample.scanned Sample.ending).2.downloading
      Metadata.Sample.base.place = 0 := by decide +kernel
  have wrapped : (Sample.play Sample.scanned Sample.ending).2.count Metadata.Sample.base.place =
      some (2 ^ 64 - 1) := by decide +kernel
  refine ⟨_, _, (Machine.Steps.of_play _ _ Sample.overlapping).append
    (.cons scans (.of_play _ _ Sample.ending)), ?_, none, wrapped, fun tracked => ?_⟩
  · obtain ⟨event, member, gone⟩ := removed
    exact ⟨event, List.mem_append_right _ (List.mem_cons_of_mem _ member), gone⟩
  · have counted : 2 ^ 64 - 1 = 0 := (tracked.counted _ _ wrapped).trans none
    omega

end Tracking

end Ciruela
