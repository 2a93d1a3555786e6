import Ciruela.Daemon.Tracking.Tracker

/-!
# The loop over the rescan requests

A request is dropped when a scan of its directory has begun after it was sent. So the state
of a directory is never older than the last request for it that was handled.

`Moved` says what every step does to the queue, to the loop and to what the scans have found.
The history of a run tells where a request was sent, where a scan began and where it ended.
-/

namespace Ciruela

open Foundation

namespace Tracking

open Metadata (Env Io Found)

/-- What the last scan of a directory has found, and when it began. -/
def Tracker.lastScan (tracker : Tracker) (place : List Component) : Option (Found × Nat) :=
  (tracker.baseDirs.lookup place).map fun dir => (dir.hash, dir.lastScan)

/-- The loop is scanning for a request. -/
def Rescan.Scans (rescan : Rescan) (request : Request) (time : Nat) : Prop :=
  ∃ config, rescan = .scanning request config time

/-- Anything but a scan scans nothing. -/
theorem Rescan.not_scans {rescan : Rescan}
    (different : ∀ request config time, rescan ≠ .scanning request config time) (request : Request)
    (time : Nat) : ¬ rescan.Scans request time := by
  rintro ⟨config, isScanning⟩
  exact different request config time isScanning

/-- The event is the end of the scan for a request that has begun at a time, with what it has
found. -/
def Ends (event : TrackerEvent) (request : Request) (time : Nat)
    (result : Except BaseDir.Error BaseDir.BaseDirState) : Prop :=
  ∃ config io now names file store, event.before.rescan = .scanning request config time ∧
    event.op = .scanned io now names file ∧
    BaseDir.scan io now names file config request.path event.before.node.store =
      .ok (result, store)

namespace Ends

variable {event : TrackerEvent} {request : Request} {time : Nat}
  {result : Except BaseDir.Error BaseDir.BaseDirState}

theorem scans (ends : Ends event request time result) : event.before.rescan.Scans request time := by
  obtain ⟨config, _, _, _, _, _, isScanning, _⟩ := ends
  exact ⟨config, isScanning⟩

theorem loops (ends : Ends event request time result) : event.op.ofLoop = true := by
  obtain ⟨_, _, _, _, _, _, _, isScanned, _⟩ := ends
  rw [isScanned]
  rfl

theorem ne_take (ends : Ends event request time result) : event.op ≠ .take := by
  obtain ⟨_, _, _, _, _, _, _, isScanned, _⟩ := ends
  rw [isScanned]
  simp

/-- A scan ends in one way. -/
theorem unique {other : Request} {otherTime : Nat}
    {otherResult : Except BaseDir.Error BaseDir.BaseDirState}
    (ends : Ends event request time result) (otherEnds : Ends event other otherTime otherResult) :
    request = other ∧ time = otherTime ∧ result = otherResult := by
  obtain ⟨config, io, now, names, file, store, isScanning, isScanned, ran⟩ := ends
  obtain ⟨_, _, _, _, _, _, otherScanning, otherScanned, otherRan⟩ := otherEnds
  obtain ⟨rfl, rfl, rfl⟩ := Rescan.scanning.inj (isScanning.symm.trans otherScanning)
  obtain ⟨rfl, rfl, rfl, rfl⟩ := TrackerOp.scanned.inj (isScanned.symm.trans otherScanned)
  obtain ⟨rfl, -⟩ := Prod.mk.inj (Except.ok.inj (ran.symm.trans otherRan))
  exact ⟨rfl, rfl, rfl⟩

end Ends

/-- How a step moves the queue and the scans, one case for each place of the loop. -/
inductive Moved (event : TrackerEvent) : Prop where
  /-- A step outside of the loop. -/
  | outside (queue : event.after.queue = event.before.queue)
      (sent : event.after.sent = event.before.sent)
      (rescan : event.after.rescan = event.before.rescan)
      (scans : ∀ place, event.after.lastScan place = event.before.lastScan place)
      (clock : event.before.now ≤ event.after.now) (quiet : event.op.ofLoop = false)
  | sent (path : VPath) (firstTime : Bool)
      (queue : event.after.queue =
        event.before.queue ++ [⟨event.before.sent, path, event.before.now, firstTime⟩])
      (sent : event.after.sent = event.before.sent + 1)
      (rescan : event.after.rescan = event.before.rescan)
      (scans : ∀ place, event.after.lastScan place = event.before.lastScan place)
      (clock : event.after.now = event.before.now) (quiet : event.op.ofLoop = false)
      (first : firstTime = true → event.op = .scanDir path)
  | skipped (request : Request) (queue : List Request) (found : Found) (time : Nat)
      (isTake : event.op = .take) (isIdle : event.before.rescan = .idle)
      (isQueue : event.before.queue = request :: queue)
      (isScan : event.before.lastScan request.path.place = some (found, time))
      (newer : request.time < time) (after : event.after = { event.before with queue := queue })
  | began (request : Request) (queue : List Request) (config : Directory)
      (isTake : event.op = .take) (isIdle : event.before.rescan = .idle)
      (isQueue : event.before.queue = request :: queue)
      (older : ∀ found time, event.before.lastScan request.path.place = some (found, time) →
        time ≤ request.time)
      (after : event.after = { event.before with
        queue := queue, rescan := .scanning request config event.before.now })
  | failed (request : Request) (time : Nat) (error : BaseDir.Error)
      (ends : Ends event request time (.error error))
      (queue : event.after.queue = event.before.queue)
      (sent : event.after.sent = event.before.sent) (rescan : event.after.rescan = .idle)
      (scans : ∀ place, event.after.lastScan place = event.before.lastScan place)
      (clock : event.after.now = event.before.now)
  | committed (request : Request) (time : Nat) (data : BaseDir.BaseDirState)
      (ends : Ends event request time (.ok data))
      (queue : event.after.queue = event.before.queue)
      (sent : event.after.sent = event.before.sent)
      (scans : ∀ place, event.after.lastScan place =
        if place = request.path.place then some (data.dirs, time) else event.before.lastScan place)
      (clock : event.after.now = event.before.now)
      (rescan : ∃ config, (if request.firstTime then BaseDir.entries data.dirs else []) = [] ∧
          event.after.rescan = .idle ∨
        ∃ dir rest path, (if request.firstTime then BaseDir.entries data.dirs else []) = dir :: rest ∧
          request.path.join (Path.ofText dir.1) = .ok path ∧
          event.after.rescan = .checking request config path rest)
  /-- The loop looks for the images. -/
  | looked (queue : event.after.queue = event.before.queue)
      (sent : event.after.sent = event.before.sent)
      (notScanned : ∀ request time, ¬ event.before.rescan.Scans request time)
      (notScanning : ∀ request time, ¬ event.after.rescan.Scans request time)
      (scans : ∀ place, event.after.lastScan place = event.before.lastScan place)
      (clock : event.after.now = event.before.now) (loops : event.op.ofLoop = true)
      (notTake : event.op ≠ .take)

section Moves

variable {env : Env} {tracker next : Tracker} {answer : Option (VPath × Found)}

theorem lastScan_insert {baseDirs : Map (List Component) BaseDir} {place : List Component}
    {dir : BaseDir} (changed : next.baseDirs = baseDirs.insert place dir) (other : List Component) :
    next.lastScan other =
      if other = place then some (dir.hash, dir.lastScan)
      else (baseDirs.lookup other).map fun dir => (dir.hash, dir.lastScan) := by
  rw [Tracker.lastScan, changed, Map.lookup_insert_eq]
  split <;> rfl

/-- Counting a download leaves the scans alone. -/
theorem adjust_spec (tracker : Tracker) (place : List Component) (change : BaseDir → BaseDir)
    (hash : ∀ dir, (change dir).hash = dir.hash)
    (lastScan : ∀ dir, (change dir).lastScan = dir.lastScan) :
    ∃ baseDirs, tracker.adjust place change = { tracker with baseDirs := baseDirs } ∧
      ∀ other, (tracker.adjust place change).lastScan other = tracker.lastScan other := by
  unfold Tracker.adjust
  split
  · rename_i dir found
    refine ⟨_, rfl, fun other => ?_⟩
    rw [lastScan_insert rfl]
    split
    · rename_i same
      rw [same, Tracker.lastScan, found, hash, lastScan]
      rfl
    · rfl
  · exact ⟨_, rfl, fun _ => rfl⟩

/-- A request is skipped when a later scan is known. -/
theorem skips_iff {request : Request} :
    tracker.skips request = true ↔
      ∃ found time, tracker.lastScan request.path.place = some (found, time) ∧ request.time < time := by
  unfold Tracker.skips Tracker.lastScan
  split
  · rename_i dir known
    simp [known]
  · rename_i missing
    simp [missing]

/-- Sending a request from outside of the loop. -/
theorem Moved.send {op : TrackerOp} {middle : Tracker} {path : VPath} {firstTime : Bool}
    (quiet : op.ofLoop = false) (queue : middle.queue = tracker.queue)
    (count : middle.sent = tracker.sent) (rescan : middle.rescan = tracker.rescan)
    (scans : ∀ place, middle.lastScan place = tracker.lastScan place)
    (clock : middle.now = tracker.now) (first : firstTime = true → op = .scanDir path)
    (sent : middle.send path firstTime = some next) : Moved ⟨tracker, op, answer, next⟩ := by
  obtain ⟨-, rfl⟩ := send_eq sent
  refine .sent path firstTime ?_ ?_ rescan scans clock quiet first
  · rw [queue, count, clock]
  · rw [count]

/-- How a step of the downloads moves. -/
theorem Moved.node {op : NodeOp} (stepped : tracker.execNode env op = some next) :
    Moved ⟨tracker, .node op, answer, next⟩ := by
  obtain ⟨task, path, image, parent, sent, node, rfl, _, _, isSent, _, _, rfl⟩ |
    ⟨task, path, image, committed, parent, node, rfl, _, _, _, isSent⟩ |
    ⟨_, node, _, rfl⟩ := execNode_cases stepped
  · obtain ⟨baseDirs, adjusted, scans⟩ := adjust_spec { sent with node := node } parent.place
      BaseDir.incrDownloading (by simp) (by simp)
    obtain ⟨-, rfl⟩ := send_eq isSent
    rw [adjusted] at scans ⊢
    exact .sent parent false rfl rfl rfl scans rfl rfl (fun first => by cases first)
  · obtain ⟨baseDirs, adjusted, scans⟩ := adjust_spec { tracker with node := node } parent.place
      BaseDir.decrDownloading (by simp) (by simp)
    rw [adjusted] at isSent scans
    refine .send rfl ?_ ?_ ?_ scans ?_ (fun first => by cases first) isSent
    all_goals rfl
  · exact .outside rfl rfl rfl (fun _ => rfl) le_rfl rfl

/-- How a step moves. -/
theorem moved_of_takes {event : TrackerEvent} (takes : (trackerMachine env).Takes event) :
    Moved event := by
  obtain ⟨before, op, answer, after⟩ := event
  have stepped : before.exec env op = some (answer, after) := takes
  cases op with
  | tick elapsed =>
      obtain ⟨-, rfl⟩ := Prod.mk.inj (Option.some.inj stepped)
      exact .outside rfl rfl rfl (fun _ => rfl) (Nat.le_add_right _ _) rfl
  | node op =>
      obtain ⟨next, ran, stepped⟩ := Option.bind_eq_some_iff.mp stepped
      obtain ⟨-, rfl⟩ := Prod.mk.inj (Option.some.inj stepped)
      exact .node ran
  | scanDir path =>
      obtain ⟨_, sent⟩ := scanDir_eq stepped
      exact .send rfl rfl rfl rfl (fun _ => rfl) rfl (fun _ => rfl) sent
  | rescanDir path =>
      obtain ⟨_, sent⟩ := rescanDir_eq stepped
      exact .send rfl rfl rfl rfl (fun _ => rfl) rfl (fun first => by cases first) sent
  | take =>
      obtain ⟨request, queue, isIdle, isQueue, ⟨skips, rfl⟩ | ⟨goes, config, _, rfl⟩⟩ :=
        take_cases stepped
      · obtain ⟨found, time, isScan, newer⟩ := skips_iff.mp skips
        exact .skipped request queue found time rfl isIdle isQueue isScan newer rfl
      · refine .began request queue config rfl isIdle isQueue (fun found time isScan => ?_) rfl
        by_contra newer
        rw [skips_iff.mpr ⟨found, time, isScan, not_le.mp newer⟩] at goes
        cases goes
  | scanned io now names file =>
      obtain ⟨request, config, scanTime, isScanning, outcome⟩ := scanned_cases stepped
      obtain ⟨error, store, ran, rfl⟩ | ⟨data, store, ran, moved⟩ := outcome
      · exact .failed request scanTime error
          ⟨config, io, now, names, file, store, isScanning, rfl, ran⟩ rfl rfl rfl (fun _ => rfl) rfl
      · obtain ⟨dir, committed, hash, lastScan, _⟩ := commitScan_spec
          { before with node := { before.node with store := store } } data config scanTime
        have scans (rescan : Rescan) (place : List Component) : Tracker.lastScan
            { (({ before with node := { before.node with store := store } } :
                Tracker).commitScan data config scanTime).2 with rescan := rescan } place =
            if place = request.path.place then some (data.dirs, scanTime)
            else before.lastScan place := by
          rw [committed, lastScan_insert rfl, hash, lastScan, BaseDir.path_of_scan ran]
          rfl
        have ends : Ends ⟨before, .scanned io now names file, answer, after⟩ request scanTime
            (.ok data) := ⟨config, io, now, names, file, store, isScanning, rfl, ran⟩
        obtain ⟨nothing, rfl⟩ | ⟨dir', rest, path, list, joined, rfl⟩ := nextDir_eq moved
        · refine .committed request scanTime data ends ?_ ?_ (scans _) ?_
            ⟨config, Or.inl ⟨nothing, rfl⟩⟩
          all_goals rw [committed]
        · refine .committed request scanTime data ends ?_ ?_ (scans _) ?_
            ⟨config, Or.inr ⟨dir', rest, path, list, joined, rfl⟩⟩
          all_goals rw [committed]
  | checked result =>
      obtain ⟨request, config, path, rest, isChecking, moved⟩ := checked_cases stepped
      have notScanned : ∀ request time, ¬ before.rescan.Scans request time :=
        Rescan.not_scans (by simp [isChecking])
      obtain ⟨_, rfl⟩ | ⟨_, moved⟩ := moved
      · exact .looked rfl rfl notScanned (Rescan.not_scans (by simp)) (fun _ => rfl) rfl rfl
          (by simp)
      · obtain ⟨_, rfl⟩ | ⟨_, _, _, _, _, rfl⟩ := nextDir_eq moved
        all_goals
          exact .looked rfl rfl notScanned (Rescan.not_scans (by simp)) (fun _ => rfl) rfl
            rfl (by simp)
  | resume io =>
      obtain ⟨request, config, path, rest, result, store, isResuming, _, rfl⟩ :=
        resume_cases stepped
      exact .looked rfl rfl (Rescan.not_scans (by simp [isResuming])) (Rescan.not_scans (by simp))
        (fun _ => rfl) rfl rfl (by simp)
  | proceed task =>
      obtain ⟨request, config, path, rest, outcome⟩ := proceed_rescan_cases stepped
      obtain ⟨image, effect, isResumed, _, _, moved⟩ | ⟨error, isResumed, rfl⟩ := outcome
      · have notScanned : ∀ request time, ¬ before.rescan.Scans request time :=
          Rescan.not_scans (by simp [isResumed])
        obtain ⟨_, rfl⟩ | ⟨_, _, _, _, _, rfl⟩ := nextDir_eq moved
        all_goals
          exact .looked rfl rfl notScanned (Rescan.not_scans (by simp)) (fun _ => rfl) rfl
            rfl (by simp)
      · exact .looked rfl rfl (Rescan.not_scans (by simp [isResumed])) (Rescan.not_scans (by simp))
          (fun _ => rfl) rfl rfl (by simp)

/-- What a step does to the scans: nothing, or one begins, or one ends well. -/
theorem Moved.scan_cases {event : TrackerEvent} (moved : Moved event) :
    ((∀ place, event.after.lastScan place = event.before.lastScan place) ∧
        ∀ request time, event.after.rescan.Scans request time →
          event.before.rescan.Scans request time) ∨
      (∃ request config, event.op = .take ∧ event.before.queue.head? = some request ∧
        (∀ place, event.after.lastScan place = event.before.lastScan place) ∧
        event.after.rescan = .scanning request config event.before.now) ∨
      ∃ request time data, Ends event request time (.ok data) ∧
        (∀ place, event.after.lastScan place =
          if place = request.path.place then some (data.dirs, time)
          else event.before.lastScan place) ∧
        ∀ request time, ¬ event.after.rescan.Scans request time := by
  cases moved with
  | outside _ _ rescan scans => exact Or.inl ⟨scans, fun _ _ => rescan ▸ id⟩
  | sent _ _ _ _ rescan scans => exact Or.inl ⟨scans, fun _ _ => rescan ▸ id⟩
  | skipped _ _ _ _ _ _ _ _ _ after =>
      exact Or.inl ⟨fun _ => by rw [after]; rfl, fun _ _ => by rw [after]; exact id⟩
  | began request queue config isTake _ isQueue _ after =>
      refine Or.inr (Or.inl ⟨request, config, isTake, by rw [isQueue]; rfl, fun _ => ?_, ?_⟩)
      · rw [after]
        rfl
      · rw [after]
  | failed _ _ _ _ _ _ rescan scans =>
      refine Or.inl ⟨scans, fun request time isScanning => ?_⟩
      exact absurd isScanning (Rescan.not_scans (by simp [rescan]) request time)
  | committed request time data ends _ _ scans _ rescan =>
      refine Or.inr (Or.inr ⟨request, time, data, ends, scans, ?_⟩)
      obtain ⟨_, ⟨_, isIdle⟩ | ⟨_, _, _, _, _, isChecking⟩⟩ := rescan
      · exact Rescan.not_scans (by simp [isIdle])
      · exact Rescan.not_scans (by simp [isChecking])
  | looked _ _ _ notScanning scans =>
      exact Or.inl ⟨scans, fun request time scans => absurd scans (notScanning request time)⟩

/-- What a step does to the queue: nothing, or it adds a request, or it takes the first. -/
theorem Moved.queue_cases {event : TrackerEvent} (moved : Moved event) :
    (event.after.queue = event.before.queue ∧ event.op ≠ .take) ∨
      (∃ path firstTime, event.after.now = event.before.now ∧
        event.after.queue =
          event.before.queue ++ [⟨event.before.sent, path, event.before.now, firstTime⟩] ∧
        event.op ≠ .take ∧ (firstTime = true → event.op = .scanDir path)) ∨
      ∃ request, event.before.queue = request :: event.after.queue := by
  have ofQuiet (quiet : event.op.ofLoop = false) : event.op ≠ .take := by
    intro isTake
    rw [isTake] at quiet
    cases quiet
  cases moved with
  | outside queue _ _ _ _ quiet => exact Or.inl ⟨queue, ofQuiet quiet⟩
  | sent path firstTime queue _ _ _ clock quiet first =>
      exact Or.inr (Or.inl ⟨path, firstTime, clock, queue, ofQuiet quiet, first⟩)
  | skipped request queue _ _ _ _ isQueue _ _ after =>
      exact Or.inr (Or.inr ⟨request, by rw [isQueue, after]⟩)
  | began request queue _ _ _ isQueue _ after =>
      exact Or.inr (Or.inr ⟨request, by rw [isQueue, after]⟩)
  | failed _ _ _ ends queue => exact Or.inl ⟨queue, ends.ne_take⟩
  | committed _ _ _ ends queue => exact Or.inl ⟨queue, ends.ne_take⟩
  | looked queue _ _ _ _ _ _ notTake => exact Or.inl ⟨queue, notTake⟩

/-- Only the loop moves the loop. -/
theorem Moved.rescan_of_quiet {event : TrackerEvent} (moved : Moved event)
    (quiet : event.op.ofLoop = false) : event.after.rescan = event.before.rescan := by
  cases moved with
  | outside _ _ rescan => exact rescan
  | sent _ _ _ _ rescan => exact rescan
  | skipped _ _ _ _ _ _ _ _ _ after => rw [after]
  | began _ _ _ isTake =>
      rw [isTake] at quiet
      cases quiet
  | failed _ _ _ ends => simp [ends.loops] at quiet
  | committed _ _ _ ends => simp [ends.loops] at quiet
  | looked _ _ _ _ _ _ loops => simp [loops] at quiet

/-- From outside of the loop requests are only sent. -/
theorem Moved.queue_of_quiet {event : TrackerEvent} (moved : Moved event)
    (quiet : event.op.ofLoop = false) :
    event.after.queue = event.before.queue ∨
      ∃ path firstTime, event.after.queue =
        event.before.queue ++ [⟨event.before.sent, path, event.before.now, firstTime⟩] := by
  cases moved with
  | outside queue => exact Or.inl queue
  | sent path firstTime queue => exact Or.inr ⟨path, firstTime, queue⟩
  | skipped _ _ _ _ isTake => simp [isTake, TrackerOp.ofLoop] at quiet
  | began _ _ _ isTake => simp [isTake, TrackerOp.ofLoop] at quiet
  | failed _ _ _ _ queue => exact Or.inl queue
  | committed _ _ _ _ queue => exact Or.inl queue
  | looked queue => exact Or.inl queue

/-- While the loop is busy it leaves the queue alone. -/
theorem Moved.queue_of_loop {event : TrackerEvent} (moved : Moved event)
    (loops : event.op.ofLoop = true) (notTake : event.op ≠ .take) :
    event.after.queue = event.before.queue := by
  cases moved with
  | outside queue => exact queue
  | sent _ _ _ _ _ _ _ quiet => simp [loops] at quiet
  | skipped _ _ _ _ isTake => exact absurd isTake notTake
  | began _ _ _ isTake => exact absurd isTake notTake
  | failed _ _ _ _ queue => exact queue
  | committed _ _ _ _ queue => exact queue
  | looked queue => exact queue

/-- A directory that is known stays known. -/
theorem Moved.lastScan_isSome {event : TrackerEvent} (moved : Moved event)
    {place : List Component} (known : (event.before.lastScan place).isSome = true) :
    (event.after.lastScan place).isSome = true := by
  obtain ⟨scans, _⟩ | ⟨_, _, _, _, scans, _⟩ | ⟨_, _, _, _, scans, _⟩ := moved.scan_cases
  · rwa [scans]
  · rwa [scans]
  · rw [scans]
    split
    · rfl
    · exact known

/-- The clock never goes back. -/
theorem Moved.clock_le {event : TrackerEvent} (moved : Moved event) :
    event.before.now ≤ event.after.now := by
  cases moved with
  | outside _ _ _ _ clock => exact clock
  | sent _ _ _ _ _ _ clock => exact clock.ge
  | skipped _ _ _ _ _ _ _ _ _ after => rw [after]
  | began _ _ _ _ _ _ _ after => rw [after]
  | failed _ _ _ _ _ _ _ _ clock => exact clock.ge
  | committed _ _ _ _ _ _ _ clock => exact clock.ge
  | looked _ _ _ _ _ clock => exact clock.ge

end Moves

section Served

variable {env : Env} {tracker : Tracker} {event : TrackerEvent} {history : List TrackerEvent}

/-- The request is sent by the event with this number. -/
def SentAt (history : List TrackerEvent) (request : Request) (index : Nat) : Prop :=
  ∃ event, history[index]? = some event ∧ event.before.sent = request.number ∧
    event.before.now = request.time ∧ event.after.queue = event.before.queue ++ [request]

/-- A scan for the request begins with the event with this number. -/
def BegunAt (history : List TrackerEvent) (request : Request) (time index : Nat) : Prop :=
  ∃ event, history[index]? = some event ∧ event.op = .take ∧ event.before.now = time ∧
    event.before.queue.head? = some request ∧ event.after.rescan.Scans request time

/-- A scan of the place begins and ends with the events of these numbers, and it has found
these states. -/
def ScannedAt (history : List TrackerEvent) (place : List Component) (found : Found)
    (time first last : Nat) : Prop :=
  ∃ request data event, request.path.place = place ∧ BegunAt history request time first ∧
    first < last ∧ history[last]? = some event ∧ Ends event request time (.ok data) ∧
      data.dirs = found

/-- The loop drops the request, or ends the scan for it. -/
def Handles (event : TrackerEvent) (request : Request) : Prop :=
  event.op = .take ∧ event.before.queue.head? = some request ∧ event.after.rescan = .idle ∨
    ∃ time result, Ends event request time result

/-- What is known about a place, or is being found out, comes from scans that have begun
after an event, or from `Old` ones. -/
structure Later (history : List TrackerEvent) (tracker : Tracker) (place : List Component)
    (index : Nat) (Old : Nat → Prop) : Prop where
  known : ∀ found time, tracker.lastScan place = some (found, time) →
    Old time ∨ ∃ first last, index < first ∧ ScannedAt history place found time first last
  coming : ∀ request time, tracker.rescan.Scans request time → request.path.place = place →
    Old time ∨ ∃ first, index < first ∧ BegunAt history request time first

theorem getElem?_snoc {index : Nat} {old : TrackerEvent} (found : history[index]? = some old)
    (event : TrackerEvent) : (history ++ [event])[index]? = some old := by
  obtain ⟨inside, _⟩ := List.getElem?_eq_some_iff.mp found
  rw [List.getElem?_append_left inside, found]

theorem SentAt.snoc {request : Request} {index : Nat} (sent : SentAt history request index)
    (event : TrackerEvent) : SentAt (history ++ [event]) request index := by
  obtain ⟨old, found, rest⟩ := sent
  exact ⟨old, getElem?_snoc found event, rest⟩

theorem BegunAt.snoc {request : Request} {time index : Nat}
    (begun : BegunAt history request time index) (event : TrackerEvent) :
    BegunAt (history ++ [event]) request time index := by
  obtain ⟨old, found, rest⟩ := begun
  exact ⟨old, getElem?_snoc found event, rest⟩

theorem BegunAt.lt_length {request : Request} {time index : Nat}
    (begun : BegunAt history request time index) : index < history.length := by
  obtain ⟨old, found, _⟩ := begun
  exact (List.getElem?_eq_some_iff.mp found).1

/-- A scan stays where it was in the history. -/
theorem ScannedAt.snoc {place : List Component} {found : Found} {time first last : Nat}
    (scanned : ScannedAt history place found time first last) (event : TrackerEvent) :
    ScannedAt (history ++ [event]) place found time first last := by
  obtain ⟨request, data, old, located, begun, ordered, isOld, rest⟩ := scanned
  exact ⟨request, data, old, located, begun.snoc event, ordered, getElem?_snoc isOld event, rest⟩

namespace Later

variable {place : List Component} {index : Nat} {Old : Nat → Prop}

/-- Every step keeps it: a scan that begins now begins later, and a scan that ends now was
one of those under way. -/
theorem step (later : Later history event.before place index Old)
    (inside : index < history.length) (moved : Moved event) :
    Later (history ++ [event]) event.after place index Old := by
  have known {found : Found} {time : Nat}
      (isKnown : event.before.lastScan place = some (found, time)) :
      Old time ∨ ∃ first last, index < first ∧
        ScannedAt (history ++ [event]) place found time first last := by
    refine (later.known found time isKnown).imp_right ?_
    rintro ⟨first, last, isLater, scanned⟩
    exact ⟨first, last, isLater, scanned.snoc event⟩
  obtain ⟨scans, rescan⟩ | ⟨request, config, isTake, isHead, scans, begun⟩ |
    ⟨request, time, data, ends, scans, notScanning⟩ := moved.scan_cases
  · refine ⟨fun found time isKnown => known (scans place ▸ isKnown), ?_⟩
    intro request time isScanning located
    refine (later.coming request time (rescan request time isScanning) located).imp_right ?_
    rintro ⟨first, isLater, begun⟩
    exact ⟨first, isLater, begun.snoc event⟩
  · refine ⟨fun found time isKnown => known (scans place ▸ isKnown), ?_⟩
    rintro other time ⟨_, isScanning⟩ _
    obtain ⟨rfl, rfl, rfl⟩ := Rescan.scanning.inj (begun.symm.trans isScanning)
    exact Or.inr ⟨history.length, inside, event, List.getElem?_concat_length, isTake, rfl, isHead,
      _, begun⟩
  · refine ⟨fun found foundTime isKnown => ?_,
      fun other otherTime isScanning => absurd isScanning (notScanning other otherTime)⟩
    rw [scans] at isKnown
    split at isKnown
    · rename_i here
      obtain ⟨rfl, rfl⟩ := Prod.mk.inj (Option.some.inj isKnown)
      refine (later.coming request time ends.scans here.symm).imp_right ?_
      rintro ⟨first, isLater, begun⟩
      exact ⟨first, history.length, isLater, request, data, event, here.symm, begun.snoc event,
        begun.lt_length, List.getElem?_concat_length, ends, rfl⟩
    · exact known isKnown

end Later

/-- The clock of a run. -/
structure Timed (history : List TrackerEvent) (tracker : Tracker) : Prop where
  past : ∀ event ∈ history, event.before.now ≤ tracker.now
  ordered : history.Pairwise fun first second => first.before.now ≤ second.before.now
  known : ∀ place found time, tracker.lastScan place = some (found, time) → time ≤ tracker.now
  coming : ∀ request time, tracker.rescan.Scans request time → time ≤ tracker.now

/-- The times are in order at first. -/
theorem Timed.new (node : Node) (now : Nat) : Timed [] (Tracker.new node now) := by
  refine ⟨by simp, .nil, by simp [Tracker.new, Tracker.lastScan], ?_⟩
  rintro _ _ ⟨_, isScanning⟩
  cases isScanning

/-- A step keeps the times in order. -/
theorem Timed.step (timed : Timed history event.before) (moved : Moved event) :
    Timed (history ++ [event]) event.after := by
  have clock := moved.clock_le
  have known {place : List Component} {found : Found} {time : Nat}
      (isKnown : event.before.lastScan place = some (found, time)) : time ≤ event.after.now :=
    (timed.known place found time isKnown).trans clock
  have past : ∀ old ∈ history ++ [event], old.before.now ≤ event.after.now := by
    intro old member
    rcases List.mem_append.mp member with earlier | last
    · exact (timed.past old earlier).trans clock
    · rw [List.mem_singleton.mp last]
      exact clock
  have ordered : (history ++ [event]).Pairwise fun first second =>
      first.before.now ≤ second.before.now := by
    refine List.pairwise_append.mpr ⟨timed.ordered, List.pairwise_singleton _ _, ?_⟩
    intro first isFirst second isSecond
    rw [List.mem_singleton.mp isSecond]
    exact timed.past first isFirst
  obtain ⟨scans, rescan⟩ | ⟨request, config, _, _, scans, begun⟩ |
    ⟨request, time, data, ends, scans, notScanning⟩ := moved.scan_cases
  · refine ⟨past, ordered, fun place found time isKnown => known (scans place ▸ isKnown), ?_⟩
    intro request time isScanning
    exact (timed.coming request time (rescan request time isScanning)).trans clock
  · refine ⟨past, ordered, fun place found time isKnown => known (scans place ▸ isKnown), ?_⟩
    rintro other time ⟨_, isScanning⟩
    obtain ⟨-, -, rfl⟩ := Rescan.scanning.inj (begun.symm.trans isScanning)
    exact clock
  · refine ⟨past, ordered, fun place found foundTime isKnown => ?_,
      fun other otherTime isScanning => absurd isScanning (notScanning other otherTime)⟩
    rw [scans] at isKnown
    split at isKnown
    · obtain ⟨-, rfl⟩ := Prod.mk.inj (Option.some.inj isKnown)
      exact (timed.coming request time ends.scans).trans clock
    · exact known isKnown

/-- A scan that has begun after a request was sent has begun no earlier than that. -/
theorem Timed.le_of_lt (timed : Timed history tracker) {request : Request}
    {place : List Component} {found : Found} {time index first last : Nat}
    (sent : SentAt history request index) (after : index < first)
    (scanned : ScannedAt history place found time first last) : request.time ≤ time := by
  obtain ⟨sending, isSending, _, sentTime, _⟩ := sent
  obtain ⟨_, _, _, _, ⟨beginning, isBeginning, _, begunTime, _⟩, _⟩ := scanned
  obtain ⟨sendingInside, rfl⟩ := List.getElem?_eq_some_iff.mp isSending
  obtain ⟨beginningInside, rfl⟩ := List.getElem?_eq_some_iff.mp isBeginning
  rw [← sentTime, ← begunTime]
  exact List.pairwise_iff_getElem.mp timed.ordered index first sendingInside beginningInside after

/-- Every request that waits was sent, every scan was begun for one that waited, and what is
known about the directory of a request that was handled is newer than the request. -/
structure Traced (history : List TrackerEvent) (tracker : Tracker) : Prop where
  timed : Timed history tracker
  waiting : ∀ request ∈ tracker.queue, ∃ index, SentAt history request index ∧
    Later history tracker request.path.place index (· ≤ request.time)
  current : ∀ request time, tracker.rescan.Scans request time →
    ∃ index first, SentAt history request index ∧ index < first ∧
      BegunAt history request time first
  handled : ∀ event ∈ history, ∀ request, Handles event request →
    (∃ time error, Ends event request time (.error error)) ∨
      (tracker.lastScan request.path.place).isSome = true ∧
        ∃ index, SentAt history request index ∧
          Later history tracker request.path.place index fun _ => False

theorem SentAt.lt_length {request : Request} {index : Nat} (sent : SentAt history request index) :
    index < history.length := by
  obtain ⟨old, found, _⟩ := sent
  exact (List.getElem?_eq_some_iff.mp found).1

namespace Traced

/-- A step keeps the trace of the requests that wait. -/
theorem waiting_step (traced : Traced history event.before) (moved : Moved event)
    (timed : Timed (history ++ [event]) event.after) {request : Request}
    (member : request ∈ event.after.queue) :
    ∃ index, SentAt (history ++ [event]) request index ∧
      Later (history ++ [event]) event.after request.path.place index (· ≤ request.time) := by
  have old (waits : request ∈ event.before.queue) : ∃ index,
      SentAt (history ++ [event]) request index ∧
        Later (history ++ [event]) event.after request.path.place index (· ≤ request.time) := by
    obtain ⟨index, sent, later⟩ := traced.waiting request waits
    exact ⟨index, sent.snoc event, later.step sent.lt_length moved⟩
  obtain ⟨same, _⟩ | ⟨path, firstTime, clock, queue, _⟩ | ⟨first, queue⟩ := moved.queue_cases
  · exact old (same ▸ member)
  · rw [queue] at member
    rcases List.mem_append.mp member with earlier | last
    · exact old earlier
    · -- everything that has been scanned so far is older than the new request
      obtain rfl := List.mem_singleton.mp last
      refine ⟨history.length, ⟨event, List.getElem?_concat_length, rfl, rfl, queue⟩, ?_⟩
      refine ⟨fun found time isKnown => Or.inl ?_, fun request time isScanning _ => Or.inl ?_⟩
      · exact (timed.known _ found time isKnown).trans clock.le
      · exact (timed.coming request time isScanning).trans clock.le
  · exact old (queue ▸ List.mem_cons_of_mem _ member)

/-- A step keeps the trace of the scan under way. -/
theorem current_step (traced : Traced history event.before) (moved : Moved event)
    {request : Request} {time : Nat} (isScanning : event.after.rescan.Scans request time) :
    ∃ index first, SentAt (history ++ [event]) request index ∧ index < first ∧
      BegunAt (history ++ [event]) request time first := by
  obtain ⟨_, rescan⟩ | ⟨head, config, isTake, isHead, _, begun⟩ | ⟨_, _, _, _, _, notScanning⟩ :=
    moved.scan_cases
  · obtain ⟨index, first, sent, isLater, begun⟩ :=
      traced.current request time (rescan request time isScanning)
    exact ⟨index, first, sent.snoc event, isLater, begun.snoc event⟩
  · obtain ⟨_, isScanning⟩ := isScanning
    obtain ⟨rfl, rfl, rfl⟩ := Rescan.scanning.inj (begun.symm.trans isScanning)
    obtain ⟨index, sent, _⟩ := traced.waiting head (List.mem_of_mem_head? isHead)
    exact ⟨index, history.length, sent.snoc event, sent.lt_length, event,
      List.getElem?_concat_length, isTake, rfl, isHead, _, begun⟩
  · exact absurd isScanning (notScanning request time)

/-- A request is dropped only when what is known is newer. -/
theorem skipped (traced : Traced history event.before) {request : Request} {found : Found}
    {time : Nat} (waits : request ∈ event.before.queue)
    (isKnown : event.before.lastScan request.path.place = some (found, time))
    (newer : request.time < time)
    (scans : ∀ place, event.after.lastScan place = event.before.lastScan place)
    (isIdle : event.after.rescan = .idle) :
    (event.after.lastScan request.path.place).isSome = true ∧
      ∃ index, SentAt (history ++ [event]) request index ∧
        Later (history ++ [event]) event.after request.path.place index fun _ => False := by
  obtain ⟨index, sent, later⟩ := traced.waiting request waits
  rw [scans, isKnown]
  refine ⟨rfl, index, sent.snoc event, fun other otherTime isOther => Or.inr ?_, ?_⟩
  · rw [scans, isKnown] at isOther
    obtain ⟨rfl, rfl⟩ := Prod.mk.inj (Option.some.inj isOther)
    obtain older | ⟨first, last, isLater, scanned⟩ := later.known found time isKnown
    · exact absurd newer (not_lt.mpr older)
    · exact ⟨first, last, isLater, scanned.snoc event⟩
  · intro other otherTime isScanning _
    exact absurd isScanning (Rescan.not_scans (by simp [isIdle]) other otherTime)

/-- A scan that has ended well began after its request was sent. -/
theorem committed (traced : Traced history event.before) {request : Request} {time : Nat}
    {data : BaseDir.BaseDirState} (ends : Ends event request time (.ok data))
    (scans : ∀ place, event.after.lastScan place =
      if place = request.path.place then some (data.dirs, time) else event.before.lastScan place)
    (notScanning : ∀ request time, ¬ event.after.rescan.Scans request time) :
    (event.after.lastScan request.path.place).isSome = true ∧
      ∃ index, SentAt (history ++ [event]) request index ∧
        Later (history ++ [event]) event.after request.path.place index fun _ => False := by
  obtain ⟨index, first, sent, isLater, begun⟩ := traced.current request time ends.scans
  rw [scans, if_pos rfl]
  refine ⟨rfl, index, sent.snoc event, fun found foundTime isKnown => Or.inr ?_,
    fun other otherTime isScanning => absurd isScanning (notScanning other otherTime)⟩
  rw [scans, if_pos rfl] at isKnown
  obtain ⟨rfl, rfl⟩ := Prod.mk.inj (Option.some.inj isKnown)
  exact ⟨first, history.length, isLater, request, data, event, rfl, begun.snoc event,
    begun.lt_length, List.getElem?_concat_length, ends, rfl⟩

/-- The event itself handles a request. -/
theorem handled_last (traced : Traced history event.before) (moved : Moved event)
    {request : Request} (handles : Handles event request) :
    (∃ time error, Ends event request time (.error error)) ∨
      (event.after.lastScan request.path.place).isSome = true ∧
        ∃ index, SentAt (history ++ [event]) request index ∧
          Later (history ++ [event]) event.after request.path.place index fun _ => False := by
  rcases handles with ⟨isTake, isHead, isIdle⟩ | ⟨time, result, ends⟩
  · cases moved with
    | skipped other queue found time _ _ isQueue isScan newer after =>
        obtain rfl : other = request := by simpa [isQueue] using isHead
        refine Or.inr (traced.skipped ?_ isScan newer (fun _ => by rw [after]; rfl) isIdle)
        rw [isQueue]
        exact List.mem_cons_self
    | began _ _ _ _ _ _ _ after =>
        rw [after] at isIdle
        cases isIdle
    | outside _ _ _ _ _ quiet => simp [isTake, TrackerOp.ofLoop] at quiet
    | sent _ _ _ _ _ _ _ quiet => simp [isTake, TrackerOp.ofLoop] at quiet
    | failed _ _ _ ends => exact absurd isTake ends.ne_take
    | committed _ _ _ ends => exact absurd isTake ends.ne_take
    | looked _ _ _ _ _ _ _ notTake => exact absurd isTake notTake
  · cases moved with
    | failed other otherTime error otherEnds =>
        obtain ⟨rfl, rfl, rfl⟩ := ends.unique otherEnds
        exact Or.inl ⟨time, error, ends⟩
    | committed other otherTime data otherEnds _ _ scans _ rescan =>
        obtain ⟨rfl, rfl, rfl⟩ := ends.unique otherEnds
        refine Or.inr (traced.committed ends scans ?_)
        obtain ⟨_, ⟨_, isIdle⟩ | ⟨_, _, _, _, _, isChecking⟩⟩ := rescan
        · exact Rescan.not_scans (by simp [isIdle])
        · exact Rescan.not_scans (by simp [isChecking])
    | outside _ _ _ _ _ quiet => simp [ends.loops] at quiet
    | sent _ _ _ _ _ _ _ quiet => simp [ends.loops] at quiet
    | skipped _ _ _ _ isTake => exact absurd isTake ends.ne_take
    | began _ _ _ isTake => exact absurd isTake ends.ne_take
    | looked _ _ notScanned => exact absurd ends.scans (notScanned request time)

/-- A step keeps the trace. -/
theorem step (traced : Traced history event.before) (moved : Moved event) :
    Traced (history ++ [event]) event.after := by
  have timed := traced.timed.step moved
  refine ⟨timed, fun request member => traced.waiting_step moved timed member,
    fun request time isScanning => traced.current_step moved isScanning, ?_⟩
  intro old member request handles
  rcases List.mem_append.mp member with earlier | last
  · refine (traced.handled old earlier request handles).imp_right ?_
    rintro ⟨known, index, sent, later⟩
    exact ⟨moved.lastScan_isSome known, index, sent.snoc event, later.step sent.lt_length moved⟩
  · obtain rfl := List.mem_singleton.mp last
    exact traced.handled_last moved handles

end Traced

/-- Once a request has been handled, its scan has failed, or what is known about its
directory comes from a scan that has begun after the request was sent. -/
theorem handled_request_served (node : Node) (now : Nat) {trace : List TrackerEvent}
    {finish : Tracker} (steps : (trackerMachine env).Steps (Tracker.new node now) trace finish) :
    ∀ event ∈ trace, ∀ request, Handles event request →
      (∃ time error, Ends event request time (.error error)) ∨
        ∃ found time index first last,
          finish.lastScan request.path.place = some (found, time) ∧
          SentAt trace request index ∧ index < first ∧ request.time ≤ time ∧
          ScannedAt trace request.path.place found time first last := by
  have initially : Traced [] (Tracker.new node now) := by
    refine ⟨.new node now, by simp [Tracker.new], ?_, by simp⟩
    rintro _ _ ⟨_, isScanning⟩
    cases isScanning
  have traced := steps.preserves_history Traced (fun _ => True)
    (fun _ _ takes _ traced => traced.step (moved_of_takes takes)) (fun _ _ => trivial) initially
  intro event member request handles
  refine (traced.handled event member request handles).imp_right ?_
  rintro ⟨known, index, sent, later⟩
  obtain ⟨⟨found, time⟩, isKnown⟩ := Option.isSome_iff_exists.mp known
  obtain impossible | ⟨first, last, isLater, scanned⟩ := later.known found time isKnown
  · exact impossible.elim
  · exact ⟨found, time, index, first, last, isKnown, sent, isLater,
      traced.timed.le_of_lt sent isLater scanned, scanned⟩

end Served

namespace Sample

/-- Two requests for `/k` are sent, and the loop begins with the first one later. -/
def asking : List TrackerOp :=
  [.scanDir Metadata.Sample.base, .scanDir Metadata.Sample.base, .tick 1, .take]

/-- The tracker after the directory was cleaned, before the scan. -/
def asked : Tracker := (play tracker asking).2

/-- The loop drops the second request. -/
def dropping : TrackerEvent :=
  ⟨scannedAt asked 1, .take, none, { scannedAt asked 1 with queue := [] }⟩

end Sample

/-- The second request is dropped: the scan for the first has begun after it was sent. -/
theorem handled_request_served_dropped :
    let request : Request := ⟨1, Metadata.Sample.base, 0, true⟩
    ∃ trace finish, (trackerMachine (Metadata.Sample.env false)).Steps Sample.tracker trace finish ∧
      (∃ event ∈ trace, event.op = .take ∧ Handles event request) ∧
      ∃ found time index first last,
        finish.lastScan request.path.place = some (found, time) ∧
        SentAt trace request index ∧ index < first ∧ request.time ≤ time ∧
        ScannedAt trace request.path.place found time first last := by
  intro request
  have isScanning : Sample.asked.rescan =
      .scanning ⟨0, Metadata.Sample.base, 0, true⟩ (Metadata.Sample.directory false) 1 := rfl
  have scans : ∃ answer, (trackerMachine (Metadata.Sample.env false)).Takes
      ⟨Sample.asked, .scanned Metadata.Io.working 0 [] .notFound, answer,
        Sample.scannedAt Sample.asked 1⟩ :=
    exists_takes_scanned 0 isScanning rfl rfl (by decide +kernel)
  obtain ⟨answer, scans⟩ := scans
  have drops : (trackerMachine (Metadata.Sample.env false)).Takes Sample.dropping := by
    show (trackerMachine (Metadata.Sample.env false)).exec _ _ = _
    rfl
  have handles : Handles Sample.dropping request := Or.inl ⟨rfl, by decide +kernel, rfl⟩
  have steps := ((Machine.Steps.of_play (trackerMachine (Metadata.Sample.env false)) Sample.tracker
    Sample.asking).append (.cons scans (.cons drops .refl)))
  have member : Sample.dropping ∈ ((trackerMachine (Metadata.Sample.env false)).play Sample.tracker
      Sample.asking).1 ++ [⟨Sample.asked, .scanned Metadata.Io.working 0 [] .notFound, answer,
        Sample.scannedAt Sample.asked 1⟩, Sample.dropping] := by simp
  refine ⟨_, _, steps, ⟨Sample.dropping, member, rfl, handles⟩, ?_⟩
  obtain ⟨time, error, _, _, _, _, _, _, _, isScanned, _⟩ | served :=
    handled_request_served _ _ steps Sample.dropping member request handles
  · cases isScanned
  · exact served

end Tracking

end Ciruela
