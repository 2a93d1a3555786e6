import Mathlib.Data.Prod.Lex
import Ciruela.Daemon.Tracking.Rescan

/-!
# How the loop over the rescan requests goes on

The loop expects a configuration for every path it scans. The paths come from the first
scan, from downloads and from directories that were scanned before, and all of these are
configured. Every step of the loop leaves less for it to do.
-/

namespace Ciruela

open Foundation

namespace Tracking

open Metadata (Env Io Found)

/-- The request the loop is busy with. -/
def Rescan.request : Rescan → Option Request
  | .scanning request _ _ => some request
  | .checking request _ _ _ => some request
  | .resuming request _ _ _ => some request
  | .resumed request _ _ _ _ => some request
  | _ => none

/-- What is left to do for that request. How much a scan finds is not known before. -/
def Rescan.left : Rescan → ℕ ×ₗ ℕ
  | .idle => toLex (0, 0)
  | .scanning _ _ _ => toLex (2, 0)
  | .checking _ _ _ rest => toLex (1, 3 * rest.length + 3)
  | .resuming _ _ _ rest => toLex (1, 3 * rest.length + 2)
  | .resumed _ _ _ _ rest => toLex (1, 3 * rest.length + 1)
  | .ended => toLex (0, 0)

/-- Where a task downloads to. -/
def Task.target : Task → Option VPath
  | .answered _ _ => none
  | .fetch path _ => some path
  | .downloading path _ => some path
  | .finished path _ _ => some path

/-- A task is at work for a download to the path. -/
def Node.Targets (node : Node) (path : VPath) : Prop :=
  ∃ task entry, node.tasks.lookup task = some entry ∧ entry.target = some path

section Nodes

variable {env : Env} {node next : Node} {path : VPath}

/-- The targets after one task has changed. -/
theorem targets_insert {tasks : Map Nat Task} {task : Nat} {entry : Task}
    (changed : next.tasks = tasks.insert task entry) (targets : next.Targets path) :
    entry.target = some path ∨
      ∃ other old, tasks.lookup other = some old ∧ old.target = some path := by
  obtain ⟨other, old, found, isTarget⟩ := targets
  rw [changed, Map.lookup_insert_eq] at found
  split at found
  · obtain rfl := Option.some.inj found
    exact Or.inl isTarget
  · exact Or.inr ⟨other, old, found, isTarget⟩

/-- The targets after one task has ended. -/
theorem targets_erase {tasks : Map Nat Task} {task : Nat} (changed : next.tasks = tasks.erase task)
    (targets : next.Targets path) :
    ∃ other old, tasks.lookup other = some old ∧ old.target = some path := by
  obtain ⟨other, old, found, isTarget⟩ := targets
  rw [changed, Map.lookup_erase_eq] at found
  split at found
  · cases found
  · exact ⟨other, old, found, isTarget⟩

/-- The targets after the effects of an answer. -/
theorem targets_foldl_apply {task : Nat} {effects : List Effect}
    (targets : (effects.foldl (Node.apply task) node).Targets path) :
    node.Targets path ∨ ∃ image replacing, .fetchDir path image replacing ∈ effects := by
  induction effects generalizing node with
  | nil => exact Or.inl targets
  | cons effect rest ih =>
      obtain earlier | ⟨image, replacing, later⟩ := ih targets
      · cases effect with
        | fetchDir target image replacing =>
            obtain same | old := targets_insert rfl earlier
            · obtain rfl := Option.some.inj same
              exact Or.inr ⟨image, replacing, List.mem_cons_self⟩
            · exact Or.inl old
        | notifyReceivedImage image target => exact Or.inl earlier
        | watchComplete target image => exact Or.inl earlier
      · exact Or.inr ⟨image, replacing, List.mem_cons_of_mem _ later⟩

/-- A step of the node takes up only downloads that are configured. -/
theorem targets_of_exec {op : NodeOp} (stepped : node.exec env op = some next)
    (targets : next.Targets path) : node.Targets path ∨ path.key ∈ env.config.dirs := by
  cases nodeStep_of_exec stepped with
  | request =>
      obtain impossible | old := targets_insert rfl targets
      · cases impossible
      · exact Or.inl old
  | proceed waiting ran =>
      obtain erased | ⟨image, replacing, member⟩ := targets_foldl_apply targets
      · exact Or.inl (targets_erase rfl erased)
      · refine Or.inr ?_
        obtain rfl | ⟨_, _, rfl⟩ | ⟨other, _, _, rfl, _, isConfigured⟩ | ⟨_, _, rfl, _⟩ :=
          proceed_cases ran
        · cases member
        · simp at member
        · obtain ⟨rfl, -, -⟩ := Effect.fetchDir.inj (List.mem_singleton.mp member)
          exact isConfigured
        · simp at member
  | start waiting =>
      obtain same | old := targets_insert rfl targets
      · exact Or.inl ⟨_, _, waiting, same⟩
      · exact Or.inl old
  | finish running =>
      obtain same | old := targets_insert rfl targets
      · exact Or.inl ⟨_, _, running, same⟩
      · exact Or.inl old
  | finished => exact Or.inl (targets_erase rfl targets)
  | check => exact Or.inl targets
  | known => exact Or.inl targets
  | lookUp => exact Or.inl targets
  | getComplete => exact Or.inl targets
  | retain => exact Or.inl targets

end Nodes

section Loop

variable {env : Env} {event : TrackerEvent} {history : List TrackerEvent}

/-- Going on with the next directory leaves less to do. -/
theorem nextDir_left {tracker next : Tracker} {request : Request} {config : Directory}
    {dirs : List (List Char × State)} (moved : tracker.nextDir request config dirs = some next) :
    (next.rescan.request = some request ∨ next.rescan.request = none) ∧
      next.rescan.left < toLex (1, 3 * dirs.length + 1) := by
  obtain ⟨rfl, rfl⟩ | ⟨dir, rest, path, rfl, _, rfl⟩ := nextDir_eq moved
  · exact ⟨Or.inr rfl, Prod.Lex.left _ _ Nat.zero_lt_one⟩
  · refine ⟨Or.inl rfl, Prod.Lex.right _ ?_⟩
    rw [List.length_cons]
    omega

/-- After it has taken a request the loop stays with it, and has less to do with every step. -/
theorem loop_step (takes : (trackerMachine env).Takes event) (loops : event.op.ofLoop = true)
    (notTake : event.op ≠ .take) :
    ∃ request, event.before.rescan.request = some request ∧
      (event.after.rescan.request = some request ∨ event.after.rescan.request = none) ∧
      event.after.rescan.left < event.before.rescan.left := by
  obtain ⟨before, op, answer, after⟩ := event
  have stepped : before.exec env op = some (answer, after) := takes
  show ∃ request, before.rescan.request = some request ∧
    (after.rescan.request = some request ∨ after.rescan.request = none) ∧
      after.rescan.left < before.rescan.left
  cases op with
  | tick elapsed => cases loops
  | node op => cases loops
  | scanDir path => cases loops
  | rescanDir path => cases loops
  | take => exact absurd rfl notTake
  | scanned io now names file =>
      obtain ⟨request, config, time, isScanning, outcome⟩ := scanned_cases stepped
      rw [isScanning]
      refine ⟨request, rfl, ?_⟩
      obtain ⟨error, store, _, rfl⟩ | ⟨data, store, _, goes⟩ := outcome
      · exact ⟨Or.inr rfl, Prod.Lex.left _ _ Nat.zero_lt_two⟩
      · obtain ⟨same, less⟩ := nextDir_left goes
        exact ⟨same, less.trans (Prod.Lex.left _ _ Nat.one_lt_two)⟩
  | checked result =>
      obtain ⟨request, config, path, rest, isChecking, outcome⟩ := checked_cases stepped
      rw [isChecking]
      refine ⟨request, rfl, ?_⟩
      obtain ⟨rfl, rfl⟩ | ⟨_, goes⟩ := outcome
      · exact ⟨Or.inl rfl, Prod.Lex.right _ (Nat.lt_succ_self _)⟩
      · obtain ⟨same, less⟩ := nextDir_left goes
        exact ⟨same, less.trans (Prod.Lex.right _ (by omega))⟩
  | resume io =>
      obtain ⟨request, config, path, rest, result, store, isResuming, _, rfl⟩ :=
        resume_cases stepped
      rw [isResuming]
      exact ⟨request, rfl, Or.inl rfl, Prod.Lex.right _ (Nat.lt_succ_self _)⟩
  | proceed task =>
      obtain ⟨request, config, path, rest, outcome⟩ := proceed_rescan_cases stepped
      refine ⟨request, ?_⟩
      obtain ⟨image, effect, isResumed, _, _, goes⟩ | ⟨error, isResumed, rfl⟩ := outcome
      · rw [isResumed]
        exact ⟨rfl, nextDir_left goes⟩
      · rw [isResumed]
        exact ⟨rfl, Or.inr rfl, Prod.Lex.left _ _ Nat.zero_lt_one⟩

/-- The loop is busy with what it was busy with, or with the request it has taken. -/
theorem request_cases (takes : (trackerMachine env).Takes event) {request : Request}
    (busy : event.after.rescan.request = some request) :
    event.before.rescan.request = some request ∨ request ∈ event.before.queue := by
  have moved := moved_of_takes takes
  cases loops : event.op.ofLoop with
  | false => exact Or.inl (moved.rescan_of_quiet loops ▸ busy)
  | true =>
      by_cases isTake : event.op = .take
      · obtain ⟨before, op, answer, after⟩ := event
        obtain rfl : op = .take := isTake
        have stepped : before.exec env .take = some (answer, after) := takes
        obtain ⟨head, queue, isIdle, isQueue, ⟨_, rfl⟩ | ⟨_, config, _, rfl⟩⟩ := take_cases stepped
        · exact Or.inl busy
        · obtain rfl := Option.some.inj busy
          refine Or.inr ?_
          show head ∈ before.queue
          rw [isQueue]
          exact List.mem_cons_self
      · obtain ⟨other, isOther, same | none, _⟩ := loop_step takes loops isTake
        · exact Or.inl (isOther.trans (same.symm.trans busy))
        · cases none.symm.trans busy

end Loop

/-- Every path that is or may come to be scanned is configured. -/
structure Configured (env : Env) (tracker : Tracker) : Prop where
  targets : ∀ path, tracker.node.Targets path → path.key ∈ env.config.dirs
  waiting : ∀ request ∈ tracker.queue, request.path.key ∈ env.config.dirs
  busy : ∀ request, tracker.rescan.request = some request → request.path.key ∈ env.config.dirs
  known : ∀ path : VPath, (tracker.lastScan path.place).isSome = true → path.key ∈ env.config.dirs

namespace Configured

variable {env : Env} {event : TrackerEvent} {tracker next : Tracker}

/-- Everything is configured at first. -/
theorem new (signatures : Tree Metadata.Content) (indexes : Tree (List UInt8)) (now : Nat) :
    Configured env (Tracker.new (Node.new signatures indexes) now) := by
  refine ⟨?_, by simp [Tracker.new], fun request busy => (by cases busy), ?_⟩
  · rintro path ⟨task, entry, found, _⟩
    simp [Tracker.new, Node.new] at found
  · simp [Tracker.new, Tracker.lastScan]

/-- Only configured directories are known. -/
theorem known_step (configured : Configured env event.before) (moved : Moved event) {path : VPath}
    (isKnown : (event.after.lastScan path.place).isSome = true) : path.key ∈ env.config.dirs := by
  obtain ⟨scans, _⟩ | ⟨_, _, _, _, scans, _⟩ | ⟨request, time, data, ends, scans, _⟩ :=
    moved.scan_cases
  · exact configured.known path (scans _ ▸ isKnown)
  · exact configured.known path (scans _ ▸ isKnown)
  · rw [scans] at isKnown
    split at isKnown
    · rename_i here
      obtain ⟨config, isScanning⟩ := ends.scans
      rw [VPath.key_eq_of_above (here ▸ List.prefix_rfl : request.path.place <+: path.place)]
      exact configured.busy request (by rw [isScanning]; rfl)
    · exact configured.known path isKnown

/-- What a step of the node sends is about a directory with a download. -/
theorem node_step {op : NodeOp} (configured : Configured env tracker)
    (stepped : tracker.execNode env op = some next) :
    (∀ path, next.node.Targets path → path.key ∈ env.config.dirs) ∧
      ∀ request ∈ next.queue, request.path.key ∈ env.config.dirs := by
  have targets {node : Node} {op : NodeOp} (ran : tracker.node.exec env op = some node)
      (path : VPath) (isTarget : node.Targets path) : path.key ∈ env.config.dirs :=
    (targets_of_exec ran isTarget).elim (configured.targets path) id
  have sends {path parent : VPath} {task : Nat} {entry : Task} (isParent : path.parent = .ok parent)
      (found : tracker.node.tasks.lookup task = some entry) (isTarget : entry.target = some path)
      (request : Request)
      (member : request ∈ tracker.queue ++ [⟨tracker.sent, parent, tracker.now, false⟩]) :
      request.path.key ∈ env.config.dirs := by
    rcases List.mem_append.mp member with earlier | last
    · exact configured.waiting request earlier
    · rw [List.mem_singleton.mp last]
      show parent.key ∈ env.config.dirs
      rw [VPath.key_parent isParent]
      exact configured.targets path ⟨task, entry, found, isTarget⟩
  obtain ⟨task, path, image, parent, sent, node, rfl, found, isParent, isSent, ran, _, rfl⟩ |
    ⟨task, path, image, committed, parent, node, rfl, found, isParent, ran, isSent⟩ |
    ⟨_, node, ran, rfl⟩ := execNode_cases stepped
  · obtain ⟨baseDirs, adjusted, _⟩ := adjust_spec { sent with node := node } parent.place
      BaseDir.incrDownloading (by simp) (by simp)
    obtain ⟨-, rfl⟩ := send_eq isSent
    rw [adjusted]
    exact ⟨targets ran, sends isParent found rfl⟩
  · obtain ⟨baseDirs, adjusted, _⟩ := adjust_spec { tracker with node := node } parent.place
      BaseDir.decrDownloading (by simp) (by simp)
    rw [adjusted] at isSent
    obtain ⟨-, rfl⟩ := send_eq isSent
    exact ⟨targets ran, sends isParent found rfl⟩
  · exact ⟨targets ran, configured.waiting⟩

/-- The loop itself sends nothing, and begins only downloads that are configured. -/
theorem nextDir_step {request : Request} {config : Directory} {dirs : List (List Char × State)}
    (moved : tracker.nextDir request config dirs = some next)
    (targets : ∀ path, tracker.node.Targets path → path.key ∈ env.config.dirs)
    (waiting : ∀ request ∈ tracker.queue, request.path.key ∈ env.config.dirs) :
    (∀ path, next.node.Targets path → path.key ∈ env.config.dirs) ∧
      ∀ request ∈ next.queue, request.path.key ∈ env.config.dirs := by
  obtain ⟨_, rfl⟩ | ⟨_, _, _, _, _, rfl⟩ := nextDir_eq moved
  all_goals exact ⟨targets, waiting⟩

/-- Where targets and requests come from. -/
theorem sources_step (configured : Configured env event.before)
    (takes : (trackerMachine env).Takes event) :
    (∀ path, event.after.node.Targets path → path.key ∈ env.config.dirs) ∧
      ∀ request ∈ event.after.queue, request.path.key ∈ env.config.dirs := by
  obtain ⟨before, op, answer, after⟩ := event
  have stepped : before.exec env op = some (answer, after) := takes
  have targets : ∀ path, before.node.Targets path → path.key ∈ env.config.dirs :=
    configured.targets
  have waiting : ∀ request ∈ before.queue, request.path.key ∈ env.config.dirs := configured.waiting
  have sends {path : VPath} {firstTime : Bool} (isConfigured : path.key ∈ env.config.dirs)
      (sent : before.send path firstTime = some after) :
      (∀ path, after.node.Targets path → path.key ∈ env.config.dirs) ∧
        ∀ request ∈ after.queue, request.path.key ∈ env.config.dirs := by
    obtain ⟨-, rfl⟩ := send_eq sent
    refine ⟨targets, fun request member => ?_⟩
    rcases List.mem_append.mp member with earlier | last
    · exact waiting request earlier
    · rw [List.mem_singleton.mp last]
      exact isConfigured
  show (∀ path, after.node.Targets path → path.key ∈ env.config.dirs) ∧
    ∀ request ∈ after.queue, request.path.key ∈ env.config.dirs
  cases op with
  | tick elapsed =>
      obtain ⟨-, rfl⟩ := Prod.mk.inj (Option.some.inj stepped)
      exact ⟨targets, waiting⟩
  | node op =>
      obtain ⟨next, ran, stepped⟩ := Option.bind_eq_some_iff.mp stepped
      obtain ⟨-, rfl⟩ := Prod.mk.inj (Option.some.inj stepped)
      exact configured.node_step ran
  | scanDir path =>
      obtain ⟨isConfigured, sent⟩ := scanDir_eq stepped
      exact sends isConfigured sent
  | rescanDir path =>
      obtain ⟨isKnown, sent⟩ := rescanDir_eq stepped
      refine sends (configured.known path ?_) sent
      obtain ⟨dir, found⟩ := Finmap.mem_iff.mp isKnown
      rw [Tracker.lastScan, found]
      rfl
  | take =>
      obtain ⟨request, queue, _, isQueue, ⟨_, rfl⟩ | ⟨_, config, _, rfl⟩⟩ := take_cases stepped
      all_goals
        refine ⟨targets, fun other member => waiting other ?_⟩
        rw [isQueue]
        exact List.mem_cons_of_mem _ member
  | scanned io now names file =>
      obtain ⟨request, config, time, _, outcome⟩ := scanned_cases stepped
      obtain ⟨error, store, _, rfl⟩ | ⟨data, store, _, goes⟩ := outcome
      · exact ⟨targets, waiting⟩
      · obtain ⟨dir, committed, _⟩ := commitScan_spec
          { before with node := { before.node with store := store } } data config time
        rw [committed] at goes
        exact nextDir_step goes targets waiting
  | checked result =>
      obtain ⟨request, config, path, rest, _, ⟨_, rfl⟩ | ⟨_, goes⟩⟩ := checked_cases stepped
      · exact ⟨targets, waiting⟩
      · exact nextDir_step goes targets waiting
  | resume io =>
      obtain ⟨request, config, path, rest, result, store, _, _, rfl⟩ := resume_cases stepped
      exact ⟨targets, waiting⟩
  | proceed task =>
      obtain ⟨request, config, path, rest, outcome⟩ := proceed_rescan_cases stepped
      obtain ⟨image, effect, _, _, fetched, goes⟩ | ⟨error, _, rfl⟩ := outcome
      · refine nextDir_step goes (fun other isTarget => ?_) waiting
        obtain rfl := fetchDir_ok fetched
        obtain same | old := targets_insert rfl isTarget
        · obtain rfl := Option.some.inj same
          exact mem_of_fetchDir fetched
        · exact targets other old
      · exact ⟨targets, waiting⟩

/-- A step keeps everything configured. -/
theorem step (configured : Configured env event.before) (takes : (trackerMachine env).Takes event) :
    Configured env event.after := by
  obtain ⟨targets, waiting⟩ := configured.sources_step takes
  refine ⟨targets, waiting, fun request busy => ?_,
    fun path isKnown => configured.known_step (moved_of_takes takes) isKnown⟩
  exact (request_cases takes busy).elim (configured.busy request) (configured.waiting request)

end Configured

end Tracking

end Ciruela
