import Ciruela.Daemon.Disk.Images
import Ciruela.Daemon.Metadata.IndexGc
import Ciruela.Daemon.Tracking.BaseDir

/-!
# The cleanup loop

The commands of the cleanup channel are carried out one after another, with a pause after
each. A `Base` command scans its directory, sorts out the images nobody needs and removes
for each of them the state file and then the directory. Every part of this is a step of its
own, and the other threads work in between.

The daemon starts with the `dry_cleanup` flag up. The flag is read where the unused images
are counted, and only the notice in the log depends on it.
-/

namespace Ciruela

open Foundation

namespace CleanupLoop

open Metadata (Meta Workers GcOp Io Found)

/-- The parts of a base directory a cleanup uses. -/
structure Base where
  path : VPath
  config : Directory
deriving DecidableEq

/-- `Command`: what the cleanup is told to do. -/
inductive Command where
  | base (dir : Base)
  | indexGc
  | reschedule
deriving DecidableEq

/-- What is written to the log about the images sorted out. -/
inductive Notice where
  | dryRun (used unused keepList : Nat)
  | cleaning (used unused keepList : Nat)
  | nothingToDo (used keepList : Nat)
deriving DecidableEq

/-- The images of a directory by their paths below the configured directory. -/
def Base.images (dir : Base) (all : Found) : List (Path × State) :=
  (BaseDir.entries all).map fun entry => (dir.path.suffix.join (Path.ofText entry.1), entry.2)

/-- `find_unused`: the images to remove, and what is logged about them. -/
def findUnused (dryCleanup : Bool) (now : Nat) (dir : Base) (all : Found) (keepList : List Path) :
    Run (Notice × List (Path × State)) := do
  let sorted ← Cleanup.sortOut BaseDir.samePath now dir.config (dir.images all) keepList
  let notice :=
    if 0 < sorted.unused.length then
      if dryCleanup then Notice.dryRun sorted.used.length sorted.unused.length keepList.length
      else Notice.cleaning sorted.used.length sorted.unused.length keepList.length
    else Notice.nothingToDo sorted.used.length keepList.length
  return (notice, sorted.unused)

/-- Where the loop stands. `time` is when the command was taken, in seconds. -/
inductive Stage where
  /-- The next command can be taken. -/
  | idle
  /-- `scan_dir` and `read_keep_list` are running. -/
  | scanning (dir : Base) (time : Nat)
  /-- `remove_state_file` is running. -/
  | removingState (dir : Base) (time : Nat) (vpath : VPath) (path : Path)
      (rest : List (Path × State))
  /-- `remove_image` is running. -/
  | removingImage (dir : Base) (time : Nat) (path : Path) (rest : List (Path × State))
  /-- `index_gc` is running, or is about to. -/
  | collecting (begun : Bool)
  /-- Ten seconds after a command. -/
  | pause

/-- An image is being removed. -/
def Stage.Removing : Stage → Prop
  | removingState _ _ _ _ _ => True
  | removingImage _ _ _ _ => True
  | _ => False

/-- The tracking subsystem as the cleanup sees it. -/
structure Loop (Folder : Type) where
  dryCleanup : Bool
  queue : List Command
  stage : Stage
  baseDirs : List Base
  workers : Workers
  /-- The directories of images, by the place of the directory they are in. -/
  disk : Map (List FileName) (Files Folder)
  deletedSinceIndexGc : Nat
  lastIndexGc : Nat
  recentlyDeleted : List (List Component × ImageId)
  rescans : List VPath

variable {Folder : Type}

/-- `tracking::start`: cleanup begins dry. -/
def Loop.new (workers : Workers) (disk : Map (List FileName) (Files Folder)) (lastIndexGc : Nat) :
    Loop Folder :=
  ⟨true, [], .idle, [], workers, disk, 0, lastIndexGc, [], []⟩

/-- The directory the images of a base directory are in. -/
def Base.location (dir : Base) : List FileName := dir.config.directory ++ dir.path.names.tail

namespace Loop

/-- `should_run_index_gc`, in seconds. -/
def shouldRunIndexGc (loop : Loop Folder) (now downloading : Nat) : Bool :=
  downloading < 5 && (100 < loop.deletedSinceIndexGc || loop.lastIndexGc + 86400 < now)

/-- Begin with the next unused image, or end the command. -/
def proceed (loop : Loop Folder) (dir : Base) (time : Nat) :
    List (Path × State) → Run (Loop Folder)
  | [] => return { loop with rescans := loop.rescans ++ [dir.path], stage := .pause }
  | (path, state) :: rest => do
      let name ← Run.expect path.fileName "valid image path"
      let vpath ← dir.path.join (Path.ofText name.text)
      return { loop with
        deletedSinceIndexGc := loop.deletedSinceIndexGc + 1
        recentlyDeleted := loop.recentlyDeleted ++ [(vpath.place, state.image)]
        stage := .removingState dir time vpath path rest }

/-- Carry out the part of a command that comes before the first wait. `dirs` are the base
directories in the order of the hash map. -/
def take (loop : Loop Folder) (aggressive : Bool) (now downloading : Nat) (dirs : List Base) :
    Command → Loop Folder
  | .base dir => { loop with stage := .scanning dir now }
  | .indexGc => { loop with stage := .collecting false }
  | .reschedule =>
      let collects := aggressive || loop.shouldRunIndexGc now downloading
      { loop with
        queue := loop.queue ++ (if collects then [.indexGc] else []) ++
          (dirs.filter fun dir => dir.config.autoClean).map .base ++ [.reschedule]
        deletedSinceIndexGc := if collects then 0 else loop.deletedSinceIndexGc
        stage := .pause }

/-- The directory is scanned and its keep list is read. An error ends the command. -/
def scanned (loop : Loop Folder) (dir : Base) (time : Nat) (io : Io) (names : List FileName)
    (file : Disk.KeepListFile) (now : Nat) : Run (Option Notice × Loop Folder) := do
  let (found, store) ← loop.workers.store.scanDir io dir.path names
  let loop := { loop with workers := { loop.workers with store := store } }
  match found, Disk.readKeepList dir.config file with
  | .ok all, .ok keepList => do
      let (notice, unused) ← findUnused loop.dryCleanup now dir all keepList
      let loop ← loop.proceed dir time unused
      return (some notice, loop)
  | _, _ => return (none, { loop with stage := .pause })

end Loop

/-- A step of the loop or of another part of the daemon. -/
inductive Step where
  /-- The timer of `tracking::start`. -/
  | undryCleanup
  /-- The first scan has ended. -/
  | startCleanup
  /-- A scan has found a new base directory. -/
  | addBase (dir : Base)
  /-- A step of the threads of the metadata pool. -/
  | metadata (op : GcOp)
  /-- A download puts an image in place. -/
  | place (location : List FileName) (name : FileName)
  /-- The loop takes the next command. -/
  | take (now downloading : Nat) (dirs : List Base)
  | scanned (io : Io) (names : List FileName) (file : Disk.KeepListFile) (now : Nat)
  | removeStateFile (io : Io) (modified : Nat)
  | removeImage (works : Bool)
  | collected (now : Nat)
  | wake

/-- Only the cleanup removes state files. -/
def ByOthers : GcOp → Bool
  | .operate (.removeStateFile _ _ _ _) => false
  | .snapshot => false
  | _ => true

/-- One step of the loop, or of what is around it. -/
def Loop.exec (env : Metadata.Env) (aggressive : Bool) (empty : Folder) (loop : Loop Folder) :
    Step → Option (Option Notice × Loop Folder)
  | .undryCleanup => some (none, { loop with dryCleanup := false })
  | .startCleanup => some (none, { loop with queue := loop.queue ++ [.reschedule] })
  | .addBase dir =>
      if env.config.dirs.lookup dir.path.key = some dir.config ∧
          ∀ known ∈ loop.baseDirs, known.path.place ≠ dir.path.place then
        some (none, { loop with baseDirs := loop.baseDirs ++ [dir] })
      else none
  | .metadata op => do
      let workers ← loop.workers.exec env op
      match op, loop.stage with
      -- the collector begins when the loop calls it
      | .snapshot, .collecting false =>
          return (none, { loop with workers := workers, stage := .collecting true })
      | _, _ => if ByOthers op then return (none, { loop with workers := workers }) else none
  | .place location name =>
      let files := (loop.disk.lookup location).getD ∅
      some (none, { loop with disk := loop.disk.insert location (files.insert name empty) })
  | .take now downloading dirs =>
      match loop.stage, loop.queue with
      | .idle, command :: queue =>
          if dirs.Perm loop.baseDirs then
            some (none, { loop with queue := queue }.take aggressive now downloading dirs command)
          else none
      | _, _ => none
  | .scanned io names file now =>
      match loop.stage with
      | .scanning dir time =>
          if (loop.workers.store.signatures.files dir.path.names).Lists names then
            (loop.scanned dir time io names file now).toOption
          else none
      | _ => none
  | .removeStateFile io modified =>
      match loop.stage with
      | .removingState dir time vpath path rest => do
          let (result, store) ←
            (loop.workers.store.removeStateFile io vpath time modified).toOption
          let stage := match result with
            | .ok () => Stage.removingImage dir time path rest
            | .error _ => .pause
          return (none, { loop with workers := { loop.workers with store := store }, stage := stage })
      | _ => none
  | .removeImage works =>
      match loop.stage with
      | .removingImage dir time path rest =>
          if works then do
            let name ← path.fileName
            let files := (loop.disk.lookup dir.location).getD ∅
            let cleared := (Disk.removeImage name).foldl (fun files action => action.apply empty files) files
            let next ← ({ loop with disk := loop.disk.insert dir.location cleared }.proceed dir
              time rest).toOption
            return (none, next)
          else some (none, { loop with stage := .pause })
      | _ => none
  | .collected now =>
      match loop.stage, loop.workers.gc with
      | .collecting true, .idle => some (none, { loop with lastIndexGc := now, stage := .pause })
      | _, _ => none
  | .wake =>
      match loop.stage with
      | .pause => some (none, { loop with stage := .idle })
      | _ => none

/-- The loop as a machine. -/
def loopMachine (env : Metadata.Env) (aggressive : Bool) (empty : Folder) :
    Machine (Loop Folder) Step (Option Notice) where
  exec loop step := loop.exec env aggressive empty step

/-- A step of the loop. -/
abbrev Event (Folder : Type) := Transition (Loop Folder) Step (Option Notice)

/-- All a step of the loop can do. -/
inductive Loop.Goes (env : Metadata.Env) (aggressive : Bool) (empty : Folder)
    (loop after : Loop Folder) : Step → Prop where
  | undryCleanup (done : after = { loop with dryCleanup := false }) :
      Goes env aggressive empty loop after .undryCleanup
  | startCleanup (done : after = { loop with queue := loop.queue ++ [.reschedule] }) :
      Goes env aggressive empty loop after .startCleanup
  | addBase {dir : Base} (done : after = { loop with baseDirs := loop.baseDirs ++ [dir] }) :
      Goes env aggressive empty loop after (.addBase dir)
  /-- The collector begins. -/
  | snapshot {workers : Workers} (stage : loop.stage = .collecting false)
      (done : after = { loop with workers := workers, stage := .collecting true }) :
      Goes env aggressive empty loop after (.metadata .snapshot)
  | metadata {op : GcOp} {workers : Workers} (others : ByOthers op = true)
      (done : after = { loop with workers := workers }) :
      Goes env aggressive empty loop after (.metadata op)
  | place {location : List FileName} {name : FileName} {disk : Map (List FileName) (Files Folder)}
      (done : after = { loop with disk := disk }) :
      Goes env aggressive empty loop after (.place location name)
  | take {now downloading : Nat} {dirs : List Base} {command : Command} {queue : List Command}
      (idle : loop.stage = .idle) (isQueue : loop.queue = command :: queue)
      (done : after =
        { loop with queue := queue }.take aggressive now downloading dirs command) :
      Goes env aggressive empty loop after (.take now downloading dirs)
  | scanned {io : Io} {names : List FileName} {file : Disk.KeepListFile} {now time : Nat}
      {dir : Base} {notice : Option Notice} (stage : loop.stage = .scanning dir time)
      (ran : loop.scanned dir time io names file now = .ok (notice, after)) :
      Goes env aggressive empty loop after (.scanned io names file now)
  | removeStateFile {io : Io} {modified time : Nat} {dir : Base} {vpath : VPath} {path : Path}
      {rest : List (Path × State)} {store : Meta}
      (stage : loop.stage = .removingState dir time vpath path rest)
      (ran : loop.workers.store.removeStateFile io vpath time modified = .ok (.ok (), store))
      (done : after = { loop with
        workers := { loop.workers with store := store }
        stage := .removingImage dir time path rest }) :
      Goes env aggressive empty loop after (.removeStateFile io modified)
  | stateFileStays {io : Io} {modified time : Nat} {dir : Base} {vpath : VPath} {path : Path}
      {rest : List (Path × State)} {error : Metadata.Error} {store : Meta}
      (stage : loop.stage = .removingState dir time vpath path rest)
      (ran : loop.workers.store.removeStateFile io vpath time modified = .ok (.error error, store))
      (done : after = { loop with
        workers := { loop.workers with store := store }
        stage := .pause }) :
      Goes env aggressive empty loop after (.removeStateFile io modified)
  | removeImage {time : Nat} {dir : Base} {path : Path} {rest : List (Path × State)}
      {disk : Map (List FileName) (Files Folder)}
      (stage : loop.stage = .removingImage dir time path rest)
      (goesOn : { loop with disk := disk }.proceed dir time rest = .ok after) :
      Goes env aggressive empty loop after (.removeImage true)
  | imageStays {time : Nat} {dir : Base} {path : Path} {rest : List (Path × State)}
      (stage : loop.stage = .removingImage dir time path rest)
      (done : after = { loop with stage := .pause }) :
      Goes env aggressive empty loop after (.removeImage false)
  | collected {now : Nat} (stage : loop.stage = .collecting true)
      (done : after = { loop with lastIndexGc := now, stage := .pause }) :
      Goes env aggressive empty loop after (.collected now)
  | wake (stage : loop.stage = .pause) (done : after = { loop with stage := .idle }) :
      Goes env aggressive empty loop after .wake

/-- How a step goes. -/
theorem Loop.goes_of_exec {env : Metadata.Env} {aggressive : Bool} {empty : Folder}
    {loop after : Loop Folder} {step : Step} {notice : Option Notice}
    (stepped : loop.exec env aggressive empty step = some (notice, after)) :
    loop.Goes env aggressive empty after step := by
  have moved {other : Option Notice} {next : Loop Folder}
      (done : some (other, next) = some (notice, after)) : after = next :=
    (Prod.mk.inj (Option.some.inj done)).2.symm
  cases step with
  | undryCleanup => exact .undryCleanup (moved stepped)
  | startCleanup => exact .startCleanup (moved stepped)
  | addBase dir =>
      rw [Loop.exec] at stepped
      split at stepped
      · exact .addBase (moved stepped)
      · cases stepped
  | metadata op =>
      rw [Loop.exec] at stepped
      obtain ⟨workers, _, stepped⟩ := Option.bind_eq_some_iff.mp stepped
      split at stepped
      · exact .snapshot (by assumption) (moved stepped)
      · split at stepped
        · rename_i others
          exact .metadata others (moved stepped)
        · cases stepped
  | place location name => exact .place (moved stepped)
  | take now downloading dirs =>
      rw [Loop.exec] at stepped
      split at stepped
      · rename_i command queue idle isQueue
        split at stepped
        · exact .take idle isQueue (moved stepped)
        · cases stepped
      · cases stepped
  | scanned io names file now =>
      rw [Loop.exec] at stepped
      split at stepped
      · rename_i dir time stage
        split at stepped
        · exact .scanned stage (Run.ok_of_toOption stepped)
        · cases stepped
      · cases stepped
  | removeStateFile io modified =>
      rw [Loop.exec] at stepped
      split at stepped
      · rename_i dir time vpath path rest stage
        obtain ⟨⟨result, store⟩, ran, stepped⟩ := Option.bind_eq_some_iff.mp stepped
        cases result with
        | ok => exact .removeStateFile stage (Run.ok_of_toOption ran) (moved stepped)
        | error error => exact .stateFileStays stage (Run.ok_of_toOption ran) (moved stepped)
      · cases stepped
  | removeImage works =>
      rw [Loop.exec] at stepped
      split at stepped
      · rename_i dir time path rest stage
        cases works with
        | true =>
            rw [if_pos rfl] at stepped
            obtain ⟨name, _, stepped⟩ := Option.bind_eq_some_iff.mp stepped
            obtain ⟨next, goesOn, stepped⟩ := Option.bind_eq_some_iff.mp stepped
            rw [moved stepped]
            exact .removeImage stage (Run.ok_of_toOption goesOn)
        | false => exact .imageStays stage (moved stepped)
      · cases stepped
  | collected now =>
      rw [Loop.exec] at stepped
      split at stepped
      · rename_i stage _
        exact .collected stage (moved stepped)
      · cases stepped
  | wake =>
      rw [Loop.exec] at stepped
      split at stepped
      · rename_i stage
        exact .wake stage (moved stepped)
      · cases stepped

/-- The cleanup removes a state file or the directory of an image. -/
def Step.removes : Step → Bool
  | removeStateFile _ _ => true
  | removeImage _ => true
  | _ => false

/-- Whether the step is a scan. -/
def Step.scans : Step → Bool
  | scanned _ _ _ _ => true
  | _ => false

/-- When a directory has been scanned while cleanup is dry, `sort_out` leaves none of its
images unused. -/
def FindsNothing (event : Event Folder) : Prop :=
  ∀ io names file now dir time, event.op = .scanned io names file now →
    event.before.stage = .scanning dir time → event.before.dryCleanup = true →
      ∀ all store keepList sorted,
        event.before.workers.store.scanDir io dir.path names = .ok (.ok all, store) →
        Disk.readKeepList dir.config file = .ok keepList →
        Cleanup.sortOut BaseDir.samePath now dir.config (dir.images all) keepList = .ok sorted →
          sorted.unused = []

section DryRuns

variable {loop next : Loop Folder} {dir : Base} {time : Nat}

/-- The flag has no influence on the images that are removed. -/
theorem findUnused_eq_ok_iff (dryCleanup : Bool) {now : Nat} {all : Found} {keepList : List Path}
    {unused : List (Path × State)} :
    (∃ notice, findUnused dryCleanup now dir all keepList = .ok (notice, unused)) ↔
      ∃ sorted, Cleanup.sortOut BaseDir.samePath now dir.config (dir.images all) keepList =
        .ok sorted ∧ sorted.unused = unused := by
  unfold findUnused
  constructor
  · rintro ⟨notice, ran⟩
    obtain ⟨sorted, sorts, done⟩ := Run.bind_eq_ok_iff.mp ran
    exact ⟨sorted, sorts, (Prod.mk.inj (Except.ok.inj done)).2⟩
  · rintro ⟨sorted, sorts, rfl⟩
    rw [sorts]
    exact ⟨_, rfl⟩

/-- Without images the directory is done. -/
theorem proceed_nil (loop : Loop Folder) (dir : Base) (time : Nat) :
    loop.proceed dir time [] =
      .ok { loop with rescans := loop.rescans ++ [dir.path], stage := .pause } := rfl

theorem dryCleanup_proceed {images : List (Path × State)}
    (ran : loop.proceed dir time images = .ok next) : next.dryCleanup = loop.dryCleanup := by
  cases images with
  | nil =>
      obtain rfl := Except.ok.inj ran
      rfl
  | cons image rest =>
      obtain ⟨name, _, ran⟩ := Run.bind_eq_ok_iff.mp ran
      obtain ⟨vpath, _, ran⟩ := Run.bind_eq_ok_iff.mp ran
      obtain rfl := Except.ok.inj ran
      rfl

/-- What a scan leads to: an error or nothing to remove, or the removal of what is unused. -/
theorem scanned_cases {io : Io} {names : List FileName} {file : Disk.KeepListFile} {now : Nat}
    {notice : Option Notice} (ran : loop.scanned dir time io names file now = .ok (notice, next)) :
    next.dryCleanup = loop.dryCleanup ∧ (¬ next.stage.Removing ∨
      ∃ all store keepList sorted,
        loop.workers.store.scanDir io dir.path names = .ok (.ok all, store) ∧
        Disk.readKeepList dir.config file = .ok keepList ∧
        Cleanup.sortOut BaseDir.samePath now dir.config (dir.images all) keepList = .ok sorted ∧
        sorted.unused ≠ []) := by
  unfold Loop.scanned at ran
  obtain ⟨⟨found, store⟩, scans, ran⟩ := Run.bind_eq_ok_iff.mp ran
  dsimp only at ran
  split at ran
  · rename_i all keepList reads
    obtain ⟨⟨noted, unused⟩, finds, ran⟩ := Run.bind_eq_ok_iff.mp ran
    obtain ⟨sorted, sorts, rfl⟩ := (findUnused_eq_ok_iff _).mp ⟨noted, finds⟩
    obtain ⟨proceeded, goesOn, ran⟩ := Run.bind_eq_ok_iff.mp ran
    obtain ⟨-, rfl⟩ := Prod.mk.inj (Except.ok.inj ran)
    have same := dryCleanup_proceed goesOn
    refine ⟨same, ?_⟩
    by_cases nothing : sorted.unused = []
    · rw [nothing, proceed_nil] at goesOn
      obtain rfl := Except.ok.inj goesOn
      exact Or.inl id
    · exact Or.inr ⟨all, store, keepList, sorted, scans, reads, sorts, nothing⟩
  · obtain ⟨-, rfl⟩ := Prod.mk.inj (Except.ok.inj ran)
    exact ⟨rfl, Or.inl id⟩

/-- A scan that finds unused images leads to their removal, whatever the flag says. -/
theorem exists_scanned_eq_ok {io : Io} {names : List FileName} {file : Disk.KeepListFile} {now : Nat}
    {all : Found} {store : Meta} {keepList : List Path} {sorted : Cleanup.Sorted Path}
    (scans : loop.workers.store.scanDir io dir.path names = .ok (.ok all, store))
    (reads : Disk.readKeepList dir.config file = .ok keepList)
    (sorts : Cleanup.sortOut BaseDir.samePath now dir.config (dir.images all) keepList = .ok sorted)
    (proceeds : { loop with workers := { loop.workers with store := store } }.proceed dir time
      sorted.unused = .ok next) :
    ∃ notice, loop.scanned dir time io names file now = .ok (some notice, next) := by
  obtain ⟨notice, finds⟩ := (findUnused_eq_ok_iff loop.dryCleanup).mpr ⟨sorted, sorts, rfl⟩
  refine ⟨notice, ?_⟩
  rw [Loop.scanned, scans, Run.ok_bind]
  simp only [reads, finds, Run.ok_bind, proceeds]
  rfl

/-- While cleanup is dry no image is being removed. -/
def Dry (loop : Loop Folder) : Prop := loop.dryCleanup = true → ¬ loop.stage.Removing

variable {env : Metadata.Env} {aggressive : Bool} {empty : Folder} {event : Event Folder}

/-- A removal is made only where one is under way, and does not touch the flag. -/
theorem removing_of_removes (takes : (loopMachine env aggressive empty).Takes event)
    (removes : event.op.removes = true) :
    event.before.stage.Removing ∧ event.after.dryCleanup = event.before.dryCleanup := by
  have goes := Loop.goes_of_exec takes
  generalize event.op = step at goes removes
  cases goes with
  | removeStateFile stage _ done | stateFileStays stage _ done | imageStays stage done =>
      rw [stage, done]
      exact ⟨trivial, rfl⟩
  | removeImage stage goesOn =>
      have same := dryCleanup_proceed goesOn
      rw [stage]
      exact ⟨trivial, same⟩
  | _ => cases removes

/-- While cleanup is dry there is no removal to begin with. -/
theorem Dry.of_removes (dry : Dry event.before)
    (takes : (loopMachine env aggressive empty).Takes event)
    (removes : event.op.removes = true) : Dry event.after := by
  obtain ⟨removing, same⟩ := removing_of_removes takes removes
  intro up
  exact absurd removing (dry (same ▸ up))

/-- A step that leaves the flag up begins a removal only after a scan. -/
theorem Dry.step (dry : Dry event.before) (nothing : FindsNothing event)
    (takes : (loopMachine env aggressive empty).Takes event) : Dry event.after := by
  have kept {next : Loop Folder} (flag : next.dryCleanup = event.before.dryCleanup)
      (stage : next.stage = event.before.stage) : Dry next := by
    intro up
    rw [stage]
    exact dry (flag ▸ up)
  have removed := dry.of_removes takes
  have goes := Loop.goes_of_exec takes
  unfold FindsNothing at nothing
  generalize event.op = step at goes nothing removed
  cases goes with
  | undryCleanup done =>
      rw [done]
      exact fun up => absurd up Bool.false_ne_true
  | startCleanup done | addBase done | metadata _ done | place done =>
      rw [done]
      exact kept rfl rfl
  | snapshot _ done | collected _ done | wake _ done =>
      rw [done]
      exact fun _ => id
  | @take now downloading dirs command queue idle isQueue done =>
      rw [done]
      intro _
      cases command <;> exact id
  | scanned stage ran =>
      obtain ⟨same, calm | ⟨all, store, keepList, sorted, scans, reads, sorts, some⟩⟩ :=
        scanned_cases ran
      · exact fun _ => calm
      · intro up
        exact absurd (nothing _ _ _ _ _ _ rfl stage (same ▸ up) all store keepList sorted scans
          reads sorts) some
  | removeStateFile | stateFileStays | removeImage | imageStays => exact removed rfl

/-- While the flag is up cleanup removes neither a state file nor an image, on every run
where no scan finds an unused image before the flag is down. -/
theorem dry_cleanup_removes_nothing {workers : Workers} {disk : Map (List FileName) (Files Folder)}
    {lastIndexGc : Nat} {trace : List (Event Folder)} {finish : Loop Folder}
    (steps : (loopMachine env aggressive empty).Steps (Loop.new workers disk lastIndexGc) trace finish)
    (nothing : ∀ event ∈ trace, FindsNothing event) :
    ∀ event ∈ trace, event.op.removes = true → event.before.dryCleanup = false := by
  have dry : ∀ event ∈ trace, Dry event.before := fun event member =>
    ((steps.preserves Dry FindsNothing (fun _ takes finds dry => dry.step finds takes) nothing
      (fun _ => id)).2 event member).1
  intro event member removes
  rw [← Bool.not_eq_true]
  intro up
  exact dry event member up (removing_of_removes (steps.takes_of_mem member) removes).1

end DryRuns

namespace Sample

open Metadata.Sample (vpath image env keys signature)

/-- `/k` is cleaned, and one image of it is always kept. -/
def directory : Directory := { Metadata.Sample.directory false with autoClean := true }

/-- A configuration whose directory is cleaned. -/
def cleaned : Metadata.Env :=
  { env false with config := ⟨[], Finmap.singleton "k".toList directory⟩ }

/-- The directory that is cleaned. -/
def base : Base := ⟨Metadata.Sample.base, directory⟩

/-- The path of a second image. -/
def second : VPath := vpath "b" (by decide)

/-- The name of the second image. -/
def secondName : FileName := ⟨['b'], by decide, by decide, by decide, by decide⟩

/-- Upload an image with a timestamp. -/
def upload (task : Nat) (vpath : VPath) (timestamp : Nat) : List Step :=
  [.metadata (.mark task (.append keys ⟨vpath, image 1, timestamp, [signature 1]⟩)),
    .metadata (.act task Io.working []),
    .metadata (.operate (.dirCommitted Io.working vpath))]

/-- The state files of both images. -/
def stateNames : List FileName :=
  [Metadata.stateFile Metadata.Sample.name, Metadata.stateFile secondName]

/-- Two images are uploaded, and the first scan ends. -/
def filling : List Step :=
  upload 0 Metadata.Sample.path 5 ++ upload 1 second 6 ++
    [.place [] Metadata.Sample.name, .place [] secondName, .addBase base, .startCleanup]

/-- The first command, and the beginning of the second. -/
def scanning : List Step := [.take 100 0 [base], .wake, .take 110 0 [base]]

/-- The loop before anything has happened. -/
def start : Loop Unit := Loop.new (Workers.new .empty .empty) ∅ 0

/-- Some steps of the loop of the example. -/
def run (loop : Loop Unit) (steps : List Step) : List (Event Unit) × Loop Unit :=
  (loopMachine cleaned false ()).play loop steps

/-- The state of the loop after a scan that has found `a` and `b`, with the order of the
names written out. -/
def afterScan (loop : Loop Unit) : Option (Loop Unit) := do
  let (result, store) ← (loop.workers.store.scanDir Io.working base.path stateNames).toOption
  let all ← result.toOption
  let named := [['a'], ['b']].filterMap fun name => (all.lookup name).map fun state => (name, state)
  let images := named.map fun entry => (base.path.suffix.join (Path.ofText entry.1), entry.2)
  if all.keys = [['a'], ['b']].toFinset then
    let sorted ← (Cleanup.sortOut BaseDir.samePath 110000000000 directory images []).toOption
    ({ loop with workers := { loop.workers with store := store } }.proceed base 110
      sorted.unused).toOption
  else none

/-- A scan of the directory, at which one image is unused. -/
def scan : Step := .scanned Io.working stateNames .notFound 110000000000

/-- The scan of the example is a step. -/
theorem exists_takes_scan {loop next : Loop Unit} (leads : afterScan loop = some next)
    (stage : loop.stage = .scanning base 110)
    (lists : (loop.workers.store.signatures.files base.path.names).Lists stateNames) :
    ∃ notice, (loopMachine cleaned false ()).Takes ⟨loop, scan, notice, next⟩ := by
  unfold afterScan at leads
  obtain ⟨⟨result, store⟩, scans, sorting⟩ := Option.bind_eq_some_iff.mp leads
  cases result with
  | error error => cases sorting
  | ok all =>
      simp only [Except.toOption, Option.bind_eq_bind, Option.bind_some] at sorting
      split at sorting
      · rename_i keys
        rw [← BaseDir.entries_eq keys (by decide) (by decide)] at sorting
        obtain ⟨sorted, sorts, proceeds⟩ := Option.bind_eq_some_iff.mp sorting
        obtain ⟨notice, ran⟩ := exists_scanned_eq_ok (Run.ok_of_toOption scans) rfl
          (Run.ok_of_toOption sorts) (Run.ok_of_toOption proceeds)
        refine ⟨some notice, ?_⟩
        show loop.exec cleaned false () scan = some (some notice, next)
        rw [scan, Loop.exec, stage]
        simp only [lists, if_true]
        rw [ran]
        rfl
      · cases sorting

/-- The removal of the one unused image. -/
def clearing : List Step := [.removeStateFile Io.working 6, .removeImage true]

/-- The state before the scan, after `front`. -/
def unscanned (front : List Step) : Loop Unit := (run start (front ++ scanning)).2

/-- The state after that scan. -/
def scanned (front : List Step) : Loop Unit := (afterScan (unscanned front)).getD start

/-- The run up to the scan, the scan and what follows make up one run. -/
theorem exists_steps (front rest : List Step) (leads : (afterScan (unscanned front)).isSome = true)
    (stage : (unscanned front).stage = .scanning base 110)
    (lists : ((unscanned front).workers.store.signatures.files base.path.names).Lists stateNames) :
    ∃ notice, (loopMachine cleaned false ()).Steps start
      ((run start (front ++ scanning)).1 ++
        ⟨unscanned front, scan, notice, scanned front⟩ :: (run (scanned front) rest).1)
      (run (scanned front) rest).2 := by
  obtain ⟨next, found⟩ := Option.isSome_iff_exists.mp leads
  have here : scanned front = next := by rw [scanned, found, Option.getD_some]
  obtain ⟨notice, takes⟩ := exists_takes_scan found stage lists
  rw [here]
  exact ⟨notice, (Machine.Steps.of_play _ _ _).append (.cons takes (.of_play _ _ _))⟩

end Sample

/-- Once the flag is down nothing is asked of a scan. -/
theorem findsNothing_of_scans {event : Event Folder}
    (down : event.op.scans = true → event.before.dryCleanup = false) : FindsNothing event := by
  intro io names file now dir time scanned _ up
  rw [down (by rw [scanned]; rfl)] at up
  cases up

/-- Where the timer comes first, the image is removed after it. -/
theorem dry_cleanup_removes_nothing_early :
    ∃ trace finish, (loopMachine Sample.cleaned false ()).Steps Sample.start trace finish ∧
      (∃ event ∈ trace, event.op.removes = true) ∧
      ∀ event ∈ trace, event.op.removes = true → event.before.dryCleanup = false := by
  let front := Sample.filling ++ [.undryCleanup]
  obtain ⟨notice, steps⟩ := Sample.exists_steps front Sample.clearing (by decide +kernel) rfl
    (by decide +kernel)
  refine ⟨_, _, steps, ?_, dry_cleanup_removes_nothing steps fun event member => ?_⟩
  · have removed : ∃ event ∈ (Sample.run (Sample.scanned front) Sample.clearing).1,
        event.op.removes = true := by decide +kernel
    obtain ⟨event, member, removes⟩ := removed
    exact ⟨event, List.mem_append_right _ (List.mem_cons_of_mem _ member), removes⟩
  · have early : ∀ event ∈ (Sample.run Sample.start (front ++ Sample.scanning)).1,
        event.op.scans = false := by decide +kernel
    have late : ∀ event ∈ (Sample.run (Sample.scanned front) Sample.clearing).1,
        event.op.scans = false := by decide +kernel
    refine findsNothing_of_scans fun scans => ?_
    rcases List.mem_append.mp member with first | rest
    · rw [early event first] at scans
      cases scans
    · rcases List.mem_cons.mp rest with rfl | last
      · rfl
      · rw [late event last] at scans
        cases scans

/-- Cleanup removes a state file and the directory of an image while it is dry. -/
theorem removed_while_dry :
    ∃ trace finish, (loopMachine Sample.cleaned false ()).Steps Sample.start trace finish ∧
      (∃ event ∈ trace, event.op.removes = true ∧ event.before.dryCleanup = true ∧
        Metadata.stateFile Metadata.Sample.name ∈
          event.before.workers.store.signatures.files Metadata.Sample.spot.dir ∧
        Metadata.stateFile Metadata.Sample.name ∉
          event.after.workers.store.signatures.files Metadata.Sample.spot.dir) ∧
      ∃ event ∈ trace, event.op.removes = true ∧ event.before.dryCleanup = true ∧
        Metadata.Sample.name ∈ (event.before.disk.lookup []).getD ∅ ∧
        Metadata.Sample.name ∉ (event.after.disk.lookup []).getD ∅ := by
  obtain ⟨notice, steps⟩ := Sample.exists_steps Sample.filling Sample.clearing (by decide +kernel) rfl
    (by decide +kernel)
  refine ⟨_, _, steps, ?_, ?_⟩
  · have removed : ∃ event ∈ (Sample.run (Sample.scanned Sample.filling) Sample.clearing).1,
        event.op.removes = true ∧ event.before.dryCleanup = true ∧
        Metadata.stateFile Metadata.Sample.name ∈
          event.before.workers.store.signatures.files Metadata.Sample.spot.dir ∧
        Metadata.stateFile Metadata.Sample.name ∉
          event.after.workers.store.signatures.files Metadata.Sample.spot.dir := by
      decide +kernel
    obtain ⟨event, member, gone⟩ := removed
    exact ⟨event, List.mem_append_right _ (List.mem_cons_of_mem _ member), gone⟩
  · have removed : ∃ event ∈ (Sample.run (Sample.scanned Sample.filling) Sample.clearing).1,
        event.op.removes = true ∧ event.before.dryCleanup = true ∧
        Metadata.Sample.name ∈ (event.before.disk.lookup []).getD ∅ ∧
        Metadata.Sample.name ∉ (event.after.disk.lookup []).getD ∅ := by
      decide +kernel
    obtain ⟨event, member, gone⟩ := removed
    exact ⟨event, List.mem_append_right _ (List.mem_cons_of_mem _ member), gone⟩

end CleanupLoop

end Ciruela
