import Ciruela.Daemon.Tracking.BaseDir
import Ciruela.Daemon.Tracking.Watched

/-!
# Base directories and their rescans

The tracking subsystem with its base directories: how many downloads each of them has
under way, and what its last scan has found. A channel of requests leads to one loop that
scans the directories, one request after another. A request of the first scan also has the
loop look for the directory of every image, and resume the upload where it is missing.

The digest of a directory is left as the states it is a digest of.
-/

namespace Ciruela

open Foundation

namespace Tracking

open Metadata (Env Io Found)

/-- A request to scan a directory. Requests are numbered in the order they are sent. -/
structure Request where
  number : Nat
  path : VPath
  time : Nat
  firstTime : Bool
deriving DecidableEq

/-- `BaseDir`: a base directory with what its last scan has found. -/
structure BaseDir where
  path : VPath
  config : Directory
  hash : Found
  lastScan : Nat
  numSubdirs : Nat
  /-- In 64 bits. -/
  numDownloading : Nat
  reconTable : Map Found Nat

/-- `incr_downloading`, in the 64 bits of the counter. -/
def BaseDir.incrDownloading (dir : BaseDir) : BaseDir :=
  { dir with numDownloading := (dir.numDownloading + 1) % 2 ^ 64 }

/-- `decr_downloading`, in the 64 bits of the counter. -/
def BaseDir.decrDownloading (dir : BaseDir) : BaseDir :=
  { dir with numDownloading := (dir.numDownloading + (2 ^ 64 - 1)) % 2 ^ 64 }

@[simp] theorem BaseDir.hash_incrDownloading (dir : BaseDir) :
    dir.incrDownloading.hash = dir.hash := by rw [incrDownloading]

@[simp] theorem BaseDir.hash_decrDownloading (dir : BaseDir) :
    dir.decrDownloading.hash = dir.hash := by rw [decrDownloading]

@[simp] theorem BaseDir.lastScan_incrDownloading (dir : BaseDir) :
    dir.incrDownloading.lastScan = dir.lastScan := by rw [incrDownloading]

@[simp] theorem BaseDir.lastScan_decrDownloading (dir : BaseDir) :
    dir.decrDownloading.lastScan = dir.lastScan := by rw [decrDownloading]

/-- Where the loop over the requests stands. `rest` are the images that are still to be
looked for. -/
inductive Rescan where
  | idle
  | scanning (request : Request) (config : Directory) (scanTime : Nat)
  /-- `check_exists` is running. -/
  | checking (request : Request) (config : Directory) (path : VPath)
      (rest : List (List Char × State))
  /-- `resume_dir` is about to run. -/
  | resuming (request : Request) (config : Directory) (path : VPath)
      (rest : List (List Char × State))
  | resumed (request : Request) (config : Directory) (path : VPath)
      (result : Except Metadata.Error ImageId) (rest : List (List Char × State))
  /-- An error has ended the loop, and the channel is closed. -/
  | ended

/-- The tracking subsystem: the downloads, the base directories and the loop that scans them. -/
structure Tracker where
  node : Node
  baseDirs : Map (List Component) BaseDir
  queue : List Request
  /-- The number of requests sent so far. -/
  sent : Nat
  rescan : Rescan
  now : Nat

/-- The tracker at the start of the server. -/
def Tracker.new (node : Node) (now : Nat) : Tracker := ⟨node, ∅, [], 0, .idle, now⟩

/-- What happens to the tracker. -/
inductive TrackerOp where
  | tick (elapsed : Nat)
  | node (op : NodeOp)
  /-- The first scan of the metadata reports a directory. -/
  | scanDir (path : VPath)
  /-- A directory has been cleaned. -/
  | rescanDir (path : VPath)
  /-- The loop takes the next request. -/
  | take
  | scanned (io : Io) (now : Nat) (names : List FileName) (file : Disk.KeepListFile)
  /-- `check_exists` has ended; `none` is an error. -/
  | checked (result : Option Bool)
  | resume (io : Io)
  | proceed (task : Nat)

/-- Starts or ends a download. -/
def NodeOp.counts : NodeOp → Bool
  | start _ => true
  | finished _ => true
  | _ => false

/-- The steps of the loop over the requests. -/
def TrackerOp.ofLoop : TrackerOp → Bool
  | take => true
  | scanned _ _ _ _ => true
  | checked _ => true
  | resume _ => true
  | proceed _ => true
  | _ => false

namespace Tracker

variable (tracker : Tracker)

/-- Send a request to the loop. Once the channel is closed this panics. -/
def send (path : VPath) (firstTime : Bool) : Option Tracker :=
  match tracker.rescan with
  | .ended => none
  | _ => some { tracker with
      queue := tracker.queue ++ [⟨tracker.sent, path, tracker.now, firstTime⟩]
      sent := tracker.sent + 1 }

/-- The number of downloads below a directory. -/
def downloading (place : List Component) : Nat :=
  (tracker.node.inProgress.keys.filter fun path => path.dropLast = place).card

/-- Change the base directory at a place, if there is one. -/
def adjust (place : List Component) (change : BaseDir → BaseDir) : Tracker :=
  match tracker.baseDirs.lookup place with
  | some dir => { tracker with baseDirs := tracker.baseDirs.insert place (change dir) }
  | none => tracker

/-- `BaseDir::commit_scan`, with what the peers are told. -/
def commitScan (data : BaseDir.BaseDirState) (config : Directory) (scanTime : Nat) :
    Option (VPath × Found) × Tracker :=
  let place := data.path.place
  match tracker.baseDirs.lookup place with
  | none =>
      let down := tracker.downloading place
      (some (data.path, data.dirs), { tracker with
        baseDirs := tracker.baseDirs.insert place
          ⟨data.path, config, data.dirs, scanTime, data.dirs.keys.card, down % 2 ^ 64, ∅⟩ })
  | some dir =>
      let dir := { dir with lastScan := scanTime }
      if dir.hash = data.dirs then
        (none, { tracker with baseDirs := tracker.baseDirs.insert place dir })
      else
        (some (data.path, data.dirs), { tracker with
          baseDirs := tracker.baseDirs.insert place { dir with
            hash := data.dirs
            numSubdirs := data.dirs.keys.card
            reconTable := dir.reconTable.insert dir.hash tracker.now } })

/-- Look for the next image. -/
def nextDir (request : Request) (config : Directory) :
    List (List Char × State) → Option Tracker
  | [] => some { tracker with rescan := .idle }
  | (dir, _) :: rest => do
      let path ← (request.path.join (Path.ofText dir)).toOption
      return { tracker with rescan := .checking request config path rest }

/-- A step of the node. Starting and ending a download count it at its base directory and
ask for a scan. -/
def execNode (env : Env) : NodeOp → Option Tracker
  | .request _ (.resumeUpload _ _) => none
  | .start task =>
      match tracker.node.tasks.lookup task with
      | some (.fetch path _) => do
          let parent ← path.parent.toOption
          let sent ← tracker.send parent false
          let node ← tracker.node.exec env (.start task)
          -- a hash map with more entries does not fit the memory
          if node.inProgress.keys.card < 2 ^ 64 then
            return { sent with node := node }.adjust parent.place BaseDir.incrDownloading
          else none
      | _ => none
  | .finished task =>
      match tracker.node.tasks.lookup task with
      | some (.finished path _ _) => do
          let parent ← path.parent.toOption
          let node ← tracker.node.exec env (.finished task)
          ({ tracker with node := node }.adjust parent.place BaseDir.decrDownloading).send parent false
      | _ => none
  | op => do
      let node ← tracker.node.exec env op
      return { tracker with node := node }

/-- The loop has seen a newer state than a request asks for. -/
def skips (request : Request) : Bool :=
  match tracker.baseDirs.lookup request.path.place with
  | some dir => request.time < dir.lastScan
  | none => false

/-- One step of the tracker, with the scan that it ends. -/
def exec (env : Env) : TrackerOp → Option (Option (VPath × Found) × Tracker)
  | .tick elapsed => some (none, { tracker with now := tracker.now + elapsed })
  | .node op => do
      let next ← tracker.execNode env op
      return (none, next)
  | .scanDir path =>
      if path.key ∈ env.config.dirs then do
        let next ← tracker.send path true
        return (none, next)
      else none
  | .rescanDir path =>
      if path.place ∈ tracker.baseDirs then do
        let next ← tracker.send path false
        return (none, next)
      else none
  | .take =>
      match tracker.rescan, tracker.queue with
      | .idle, request :: queue =>
          let tracker := { tracker with queue := queue }
          if tracker.skips request then some (none, tracker)
          else do
            let config ← env.config.dirs.lookup request.path.key
            return (none, { tracker with rescan := .scanning request config tracker.now })
      | _, _ => none
  | .scanned io now names file =>
      match tracker.rescan with
      | .scanning request config scanTime =>
          if (tracker.node.store.signatures.files request.path.names).Lists names then do
            let (result, store) ←
              (BaseDir.scan io now names file config request.path tracker.node.store).toOption
            let tracker := { tracker with node := { tracker.node with store := store } }
            match result with
            | .error _ => return (none, { tracker with rescan := .idle })
            | .ok data =>
                let (notice, tracker) := tracker.commitScan data config scanTime
                let dirs := if request.firstTime then BaseDir.entries data.dirs else []
                let next ← tracker.nextDir request config dirs
                return (notice, next)
          else none
      | _ => none
  | .checked result =>
      match tracker.rescan with
      | .checking request config path rest =>
          if result = some false then
            some (none, { tracker with rescan := .resuming request config path rest })
          else do
            let next ← tracker.nextDir request config rest
            return (none, next)
      | _ => none
  | .resume io =>
      match tracker.rescan with
      | .resuming request config path rest => do
          let (result, store) ← (Metadata.resumeUpload env io path tracker.node.store).toOption
          return (none, { tracker with
            node := { tracker.node with store := store }
            rescan := .resumed request config path result rest })
      | _ => none
  | .proceed task =>
      match tracker.rescan with
      | .resumed request config path (.ok image) rest =>
          if task ∈ tracker.node.tasks then none
          else do
            let effect ← (fetchDir env.config path image false).toOption
            let next ← { tracker with node := tracker.node.apply task effect }.nextDir request config rest
            return (none, next)
      -- the error goes through all of the stream
      | .resumed _ _ _ (.error _) _ => some (none, { tracker with rescan := .ended })
      | _ => none

end Tracker

/-- The tracker as a machine. -/
def trackerMachine (env : Env) : Machine Tracker TrackerOp (Option (VPath × Found)) where
  exec tracker op := tracker.exec env op

/-- A step of the tracker. -/
abbrev TrackerEvent := Transition Tracker TrackerOp (Option (VPath × Found))

section Parts

variable {tracker next : Tracker}

/-- Sending a request changes nothing but the queue. -/
theorem send_eq {path : VPath} {firstTime : Bool} (sent : tracker.send path firstTime = some next) :
    tracker.rescan ≠ .ended ∧ next = { tracker with
      queue := tracker.queue ++ [⟨tracker.sent, path, tracker.now, firstTime⟩]
      sent := tracker.sent + 1 } := by
  unfold Tracker.send at sent
  split at sent
  · cases sent
  · rename_i alive
    exact ⟨alive, (Option.some.inj sent).symm⟩

/-- The loop is done with a request, or looks for the first image. -/
theorem nextDir_eq {request : Request} {config : Directory} {dirs : List (List Char × State)}
    (moved : tracker.nextDir request config dirs = some next) :
    dirs = [] ∧ next = { tracker with rescan := .idle } ∨
      ∃ dir rest path, dirs = dir :: rest ∧ request.path.join (Path.ofText dir.1) = .ok path ∧
        next = { tracker with rescan := .checking request config path rest } := by
  cases dirs with
  | nil => exact Or.inl ⟨rfl, (Option.some.inj moved).symm⟩
  | cons dir rest =>
      obtain ⟨path, joined, moved⟩ := Option.bind_eq_some_iff.mp moved
      exact Or.inr ⟨dir, rest, path, rfl, Run.ok_of_toOption joined, (Option.some.inj moved).symm⟩

/-- What a scan has found is kept with the time the scan began at. A count that is there
stays. -/
theorem commitScan_spec (tracker : Tracker) (data : BaseDir.BaseDirState) (config : Directory)
    (scanTime : Nat) :
    ∃ dir, (tracker.commitScan data config scanTime).2 =
        { tracker with baseDirs := tracker.baseDirs.insert data.path.place dir } ∧
      dir.hash = data.dirs ∧ dir.lastScan = scanTime ∧
      dir.numDownloading =
        ((tracker.baseDirs.lookup data.path.place).map BaseDir.numDownloading).getD
          (tracker.downloading data.path.place % 2 ^ 64) := by
  unfold Tracker.commitScan
  dsimp only
  split
  · rename_i missing
    exact ⟨_, rfl, rfl, rfl, by rw [missing]; rfl⟩
  · rename_i dir found
    split
    · rename_i same
      exact ⟨_, rfl, same, rfl, by rw [found]; rfl⟩
    · exact ⟨_, rfl, rfl, rfl, by rw [found]; rfl⟩

end Parts

section Outside

variable {env : Env} {tracker next : Tracker} {answer : Option (VPath × Found)}

/-- A download is started or ended, or the node alone makes a step. -/
theorem execNode_cases {op : NodeOp} (stepped : tracker.execNode env op = some next) :
    (∃ task path image parent sent node, op = .start task ∧
        tracker.node.tasks.lookup task = some (.fetch path image) ∧ path.parent = .ok parent ∧
        tracker.send parent false = some sent ∧ tracker.node.exec env (.start task) = some node ∧
        node.inProgress.keys.card < 2 ^ 64 ∧
        next = { sent with node := node }.adjust parent.place BaseDir.incrDownloading) ∨
      (∃ task path image committed parent node, op = .finished task ∧
        tracker.node.tasks.lookup task = some (.finished path image committed) ∧
        path.parent = .ok parent ∧ tracker.node.exec env (.finished task) = some node ∧
        ({ tracker with node := node }.adjust parent.place BaseDir.decrDownloading).send parent
          false = some next) ∨
      op.counts = false ∧ ∃ node, tracker.node.exec env op = some node ∧
        next = { tracker with node := node } := by
  have alone (plain : op.counts = false) (ran : (do
      let node ← tracker.node.exec env op
      return { tracker with node := node } : Option Tracker) = some next) :
      op.counts = false ∧ ∃ node, tracker.node.exec env op = some node ∧
        next = { tracker with node := node } := by
    obtain ⟨node, ofNode, moved⟩ := Option.bind_eq_some_iff.mp ran
    exact ⟨plain, node, ofNode, (Option.some.inj moved).symm⟩
  cases op with
  | request task op =>
      cases op <;> first | exact Or.inr (Or.inr (alone rfl stepped)) | cases stepped
  | start task =>
      rw [Tracker.execNode] at stepped
      split at stepped
      · rename_i path image isFetch
        obtain ⟨parent, isParent, stepped⟩ := Option.bind_eq_some_iff.mp stepped
        obtain ⟨sent, isSent, stepped⟩ := Option.bind_eq_some_iff.mp stepped
        obtain ⟨node, ran, stepped⟩ := Option.bind_eq_some_iff.mp stepped
        split at stepped
        · rename_i fits
          exact Or.inl ⟨task, path, image, parent, sent, node, rfl, isFetch,
            Run.ok_of_toOption isParent, isSent, ran, fits, (Option.some.inj stepped).symm⟩
        · cases stepped
      · cases stepped
  | finished task =>
      rw [Tracker.execNode] at stepped
      split at stepped
      · rename_i path image committed isFinished
        obtain ⟨parent, isParent, stepped⟩ := Option.bind_eq_some_iff.mp stepped
        obtain ⟨node, ran, stepped⟩ := Option.bind_eq_some_iff.mp stepped
        exact Or.inr (Or.inl ⟨task, path, image, committed, parent, node, rfl, isFinished,
          Run.ok_of_toOption isParent, ran, stepped⟩)
      · cases stepped
  | _ => exact Or.inr (Or.inr (alone rfl stepped))

/-- The first scan reports what is configured. -/
theorem scanDir_eq {path : VPath}
    (stepped : tracker.exec env (.scanDir path) = some (answer, next)) :
    path.key ∈ env.config.dirs ∧ tracker.send path true = some next := by
  rw [Tracker.exec] at stepped
  split at stepped
  · rename_i isConfigured
    obtain ⟨sent, isSent, stepped⟩ := Option.bind_eq_some_iff.mp stepped
    obtain ⟨-, rfl⟩ := Prod.mk.inj (Option.some.inj stepped)
    exact ⟨isConfigured, isSent⟩
  · cases stepped

/-- What is cleaned is known. -/
theorem rescanDir_eq {path : VPath}
    (stepped : tracker.exec env (.rescanDir path) = some (answer, next)) :
    path.place ∈ tracker.baseDirs ∧ tracker.send path false = some next := by
  rw [Tracker.exec] at stepped
  split at stepped
  · rename_i isKnown
    obtain ⟨sent, isSent, stepped⟩ := Option.bind_eq_some_iff.mp stepped
    obtain ⟨-, rfl⟩ := Prod.mk.inj (Option.some.inj stepped)
    exact ⟨isKnown, isSent⟩
  · cases stepped

end Outside

section Loop

variable {env : Env} {tracker next : Tracker} {answer : Option (VPath × Found)}

/-- The loop drops the first request, or begins with a scan. -/
theorem take_cases (took : tracker.exec env .take = some (answer, next)) :
    ∃ request queue, tracker.rescan = .idle ∧ tracker.queue = request :: queue ∧
      (tracker.skips request = true ∧ next = { tracker with queue := queue } ∨
        tracker.skips request = false ∧
          ∃ config, env.config.dirs.lookup request.path.key = some config ∧
            next = { tracker with
              queue := queue, rescan := .scanning request config tracker.now }) := by
  rw [Tracker.exec] at took
  split at took
  · rename_i request queue isIdle isQueue
    refine ⟨request, queue, isIdle, isQueue, ?_⟩
    dsimp only at took
    split at took
    · rename_i skips
      exact Or.inl ⟨skips, (Prod.mk.inj (Option.some.inj took)).2.symm⟩
    · rename_i goes
      obtain ⟨config, found, took⟩ := Option.bind_eq_some_iff.mp took
      refine Or.inr ⟨Bool.eq_false_iff.mpr goes, config, found, ?_⟩
      exact (Prod.mk.inj (Option.some.inj took)).2.symm
  · cases took

/-- A scan fails, or what it has found is committed. -/
theorem scanned_cases {io : Io} {now : Nat} {names : List FileName} {file : Disk.KeepListFile}
    (scanned : tracker.exec env (.scanned io now names file) = some (answer, next)) :
    ∃ request config scanTime, tracker.rescan = .scanning request config scanTime ∧
      ((∃ error store,
          BaseDir.scan io now names file config request.path tracker.node.store =
            .ok (.error error, store) ∧
          next = { tracker with
            node := { tracker.node with store := store }, rescan := .idle }) ∨
        ∃ data store,
          BaseDir.scan io now names file config request.path tracker.node.store =
            .ok (.ok data, store) ∧
          ({ tracker with node := { tracker.node with store := store } }.commitScan data config
              scanTime).2.nextDir request config
            (if request.firstTime then BaseDir.entries data.dirs else []) = some next) := by
  rw [Tracker.exec] at scanned
  split at scanned
  · rename_i request config scanTime isScanning
    refine ⟨request, config, scanTime, isScanning, ?_⟩
    split at scanned
    · obtain ⟨⟨result, store⟩, ran, scanned⟩ := Option.bind_eq_some_iff.mp scanned
      cases result with
      | error error =>
          refine Or.inl ⟨error, store, Run.ok_of_toOption ran, ?_⟩
          exact (Prod.mk.inj (Option.some.inj scanned)).2.symm
      | ok data =>
          obtain ⟨moved, isNext, scanned⟩ := Option.bind_eq_some_iff.mp scanned
          obtain ⟨-, rfl⟩ := Prod.mk.inj (Option.some.inj scanned)
          exact Or.inr ⟨data, store, Run.ok_of_toOption ran, isNext⟩
    · cases scanned
  · cases scanned

/-- A directory was looked for: the next is taken up, or this one is resumed. -/
theorem checked_cases {result : Option Bool}
    (checked : tracker.exec env (.checked result) = some (answer, next)) :
    ∃ request config path rest, tracker.rescan = .checking request config path rest ∧
      (result = some false ∧
          next = { tracker with rescan := .resuming request config path rest } ∨
        result ≠ some false ∧ tracker.nextDir request config rest = some next) := by
  rw [Tracker.exec] at checked
  split at checked
  · rename_i request config path rest isChecking
    refine ⟨request, config, path, rest, isChecking, ?_⟩
    split at checked
    · rename_i missing
      exact Or.inl ⟨missing, (Prod.mk.inj (Option.some.inj checked)).2.symm⟩
    · rename_i there
      obtain ⟨moved, isNext, checked⟩ := Option.bind_eq_some_iff.mp checked
      obtain ⟨-, rfl⟩ := Prod.mk.inj (Option.some.inj checked)
      exact Or.inr ⟨there, isNext⟩
  · cases checked

/-- An upload is resumed, and how that went is looked at next. -/
theorem resume_cases {io : Io} (resumed : tracker.exec env (.resume io) = some (answer, next)) :
    ∃ request config path rest result store,
      tracker.rescan = .resuming request config path rest ∧
      Metadata.resumeUpload env io path tracker.node.store = .ok (result, store) ∧
      next = { tracker with
        node := { tracker.node with store := store }
        rescan := .resumed request config path result rest } := by
  rw [Tracker.exec] at resumed
  split at resumed
  · rename_i request config path rest isResuming
    obtain ⟨⟨result, store⟩, ran, resumed⟩ := Option.bind_eq_some_iff.mp resumed
    refine ⟨request, config, path, rest, result, store, isResuming, Run.ok_of_toOption ran, ?_⟩
    exact (Prod.mk.inj (Option.some.inj resumed)).2.symm
  · cases resumed

/-- The download begins, or an error ends the loop. -/
theorem proceed_rescan_cases {task : Nat}
    (went : tracker.exec env (.proceed task) = some (answer, next)) :
    ∃ request config path rest,
      ((∃ image effect, tracker.rescan = .resumed request config path (.ok image) rest ∧
          task ∉ tracker.node.tasks ∧ fetchDir env.config path image false = .ok effect ∧
          { tracker with node := tracker.node.apply task effect }.nextDir request config rest =
            some next) ∨
        ∃ error, tracker.rescan = .resumed request config path (.error error) rest ∧
          next = { tracker with rescan := .ended }) := by
  rw [Tracker.exec] at went
  split at went
  · rename_i request config path image rest isResumed
    split at went
    · cases went
    · rename_i free
      obtain ⟨effect, fetched, went⟩ := Option.bind_eq_some_iff.mp went
      obtain ⟨moved, isNext, went⟩ := Option.bind_eq_some_iff.mp went
      obtain ⟨-, rfl⟩ := Prod.mk.inj (Option.some.inj went)
      exact ⟨request, config, path, rest,
        Or.inl ⟨image, effect, isResumed, free, Run.ok_of_toOption fetched, isNext⟩⟩
  · rename_i request config path error rest isResumed
    refine ⟨request, config, path, rest, Or.inr ⟨error, isResumed, ?_⟩⟩
    exact (Prod.mk.inj (Option.some.inj went)).2.symm
  · cases went

/-- The scan of a directory without files ends. -/
theorem exists_takes_scanned {request : Request} {config : Directory} {scanTime : Nat} (now : Nat)
    (isScanning : tracker.rescan = .scanning request config scanTime)
    (unclean : config.autoClean = false) (unlisted : config.keepListFile = none)
    (nothing : tracker.node.store.signatures.files request.path.names = ∅) :
    ∃ answer, (trackerMachine env).Takes ⟨tracker, .scanned Io.working now [] .notFound, answer,
      { (tracker.commitScan ⟨request.path, config, ∅, ∅⟩ config scanTime).2 with
        rescan := .idle }⟩ := by
  have lists : (tracker.node.store.signatures.files request.path.names).Lists [] := by
    rw [nothing]
    exact ⟨List.nodup_nil, fun name => iff_of_false List.not_mem_nil Finmap.notMem_empty⟩
  refine ⟨(tracker.commitScan ⟨request.path, config, ∅, ∅⟩ config scanTime).1, ?_⟩
  show tracker.exec env (.scanned Io.working now [] .notFound) = some _
  rw [Tracker.exec, isScanning]
  simp only [lists, if_true]
  rw [BaseDir.scan_nil now unclean unlisted]
  simp only [Except.toOption, Option.bind_eq_bind, Option.bind_some, BaseDir.entries_empty, ite_self]
  rw [← isScanning]
  rfl

end Loop

namespace Sample

/-- The tracker of the examples at its start. -/
def tracker : Tracker := Tracker.new (Node.new .empty .empty) 0

/-- Some steps of the tracker of the examples. -/
def play (start : Tracker) (ops : List TrackerOp) : List TrackerEvent × Tracker :=
  (trackerMachine (Metadata.Sample.env false)).play start ops

/-- After a scan of `/k` that has begun at this time and found nothing. -/
def scannedAt (tracker : Tracker) (time : Nat) : Tracker :=
  { (tracker.commitScan ⟨Metadata.Sample.base, Metadata.Sample.directory false, ∅, ∅⟩
      (Metadata.Sample.directory false) time).2 with rescan := .idle }

end Sample

end Tracking

end Ciruela
