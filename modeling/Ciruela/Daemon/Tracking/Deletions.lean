import Ciruela.Daemon.Tracking.CleanupLoop

/-!
# What is reported as deleted

The tracking subsystem keeps the images that were deleted lately and counts deletions
since the last collection of indexes. Cleanup enters an image before its state file is
removed, and takes nothing back when that fails. A ledger is kept of a run besides: the
tables as they would be without the removal under way, and the tables if it succeeds. When
the tables agree with the ledger, and all that is reported was deleted, is stated last.
-/

namespace Ciruela

open Foundation

namespace Deletions

open CleanupLoop (Loop Step Stage)
open Metadata (Io Meta)

variable {Folder : Type}

/-- The place of an image and its id. -/
abbrev Pair : Type := List Component × ImageId

/-- What happens to the tables of deletions. -/
inductive Op where
  /-- A step of the cleanup loop, or of what is around it. -/
  | step (step : Step)
  /-- A download is given up: `dir_aborted`. -/
  | abort (vpath : VPath) (image : ImageId)
  /-- A deletion is long ago, or the image is downloaded again. -/
  | forget (pair : Pair)
  | getDeleted

/-- One step, with what `get_deleted` answers. -/
def exec (env : Metadata.Env) (aggressive : Bool) (empty : Folder) (loop : Loop Folder) :
    Op → Option (Option (List Pair) × Loop Folder)
  | .step step => do
      let moved ← loop.exec env aggressive empty step
      return (none, moved.2)
  | .abort vpath image => some (none, { loop with
      deletedSinceIndexGc := loop.deletedSinceIndexGc + 1
      recentlyDeleted := loop.recentlyDeleted ++ [(vpath.place, image)] })
  | .forget pair => some (none, { loop with
      recentlyDeleted := loop.recentlyDeleted.filter fun other => other ≠ pair })
  | .getDeleted => some (some loop.recentlyDeleted.dedup, loop)

/-- The loop with its tables of deletions as a machine. -/
def machine (env : Metadata.Env) (aggressive : Bool) (empty : Folder) :
    Machine (Loop Folder) Op (Option (List Pair)) :=
  ⟨fun loop op => exec env aggressive empty loop op⟩

/-- A step of the loop with its tables. -/
abbrev Event (Folder : Type) := Transition (Loop Folder) Op (Option (List Pair))

/-- What the tracking subsystem keeps of deletions. -/
structure Tables where
  recentlyDeleted : List Pair
  deletedSinceIndexGc : Nat
deriving DecidableEq

namespace Tables

variable (tables : Tables)

/-- A deletion is entered. -/
def add (pair : Pair) : Tables := ⟨tables.recentlyDeleted ++ [pair], tables.deletedSinceIndexGc + 1⟩

/-- Deletions of the pair are not told any longer. -/
def forget (pair : Pair) : Tables :=
  ⟨tables.recentlyDeleted.filter fun other => other ≠ pair, tables.deletedSinceIndexGc⟩

/-- The indexes are collected, and the count starts again. -/
def reset : Tables := ⟨tables.recentlyDeleted, 0⟩

end Tables

/-- The tables of a state. -/
def tablesOf (loop : Loop Folder) : Tables := ⟨loop.recentlyDeleted, loop.deletedSinceIndexGc⟩

/-- A state file is being removed. -/
def attempting : Stage → Bool
  | .removingState _ _ _ _ _ => true
  | _ => false

/-- The state file has been removed. -/
def removed : Stage → Bool
  | .removingImage _ _ _ _ => true
  | _ => false

/-- The loop takes up `Reschedule`, and a collection of indexes is due. -/
def resets (aggressive : Bool) (loop : Loop Folder) : Step → Bool
  | .take now downloading _ => decide (loop.queue.head? = some .reschedule) &&
      (aggressive || loop.shouldRunIndexGc now downloading)
  | _ => false

/-- What has been deleted in a run. -/
structure Ledger where
  /-- The tables as if the removal under way had not been attempted. -/
  settled : Tables
  /-- The tables if it succeeds. -/
  current : Tables
  attempt : Option Pair
  /-- All that was removed or aborted. -/
  deleted : List Pair

namespace Ledger

/-- Nothing has been deleted. -/
def start : Ledger := ⟨⟨[], 0⟩, ⟨[], 0⟩, none, []⟩

variable (ledger : Ledger)

/-- The removal under way has succeeded. -/
def commit : Ledger :=
  ⟨ledger.current, ledger.current, none, ledger.deleted ++ ledger.attempt.toList⟩

/-- It has failed. -/
def drop : Ledger := ⟨ledger.settled, ledger.settled, none, ledger.deleted⟩

/-- A removal is attempted of the last pair that was entered. -/
def attempts (pair : Option Pair) : Ledger :=
  match pair with
  | some pair => { ledger with current := ledger.settled.add pair, attempt := some pair }
  | none => ledger

/-- The indexes are collected. -/
def reset : Ledger :=
  { ledger with settled := ledger.settled.reset, current := ledger.current.reset }

/-- A download is given up, which counts as a deletion. -/
def abort (pair : Pair) : Ledger :=
  { ledger with
    settled := ledger.settled.add pair
    current := ledger.current.add pair
    deleted := ledger.deleted ++ [pair] }

/-- Deletions of the pair are not told any longer. -/
def forget (pair : Pair) : Ledger :=
  { ledger with settled := ledger.settled.forget pair, current := ledger.current.forget pair }

/-- What a step writes into the books. -/
def note (aggressive : Bool) (event : Event Folder) : Ledger :=
  match event.op with
  | .abort vpath image => ledger.abort (vpath.place, image)
  | .forget pair => ledger.forget pair
  | .getDeleted => ledger
  | .step step =>
      match attempting event.before.stage, attempting event.after.stage with
      | false, true => ledger.attempts event.after.recentlyDeleted.getLast?
      | true, false => if removed event.after.stage then ledger.commit else ledger.drop
      | _, _ => if resets aggressive event.before step then ledger.reset else ledger

/-- The ledger of a run. -/
def ofRun (aggressive : Bool) (history : List (Event Folder)) : Ledger :=
  history.foldl (fun ledger event => ledger.note aggressive event) start

/-- What a step adds to the books of a run. -/
theorem ofRun_concat (aggressive : Bool) (history : List (Event Folder)) (event : Event Folder) :
    ofRun aggressive (history ++ [event]) = (ofRun aggressive history).note aggressive event := by
  rw [ofRun, List.foldl_append]
  rfl

end Ledger

/-- `remove_state_file` can remove the file: the path is not being written, the file is
there and has not changed lately, and no call fails. -/
structure Removable (io : Io) (vpath : VPath) (time modified : Nat) (store : Meta) : Prop where
  idle : vpath.place ∉ store.writing
  present : ∃ dir name, store.openParent io vpath = .ok (.ok dir) ∧ vpath.finalName = .ok name ∧
    Metadata.stateFile name ∈ store.signatures.files dir ∧
    io.fails (.stat (Metadata.stateFile name)) = false ∧
    io.fails (.removeFile (Metadata.stateFile name)) = false
  old : modified < time

section Removing

variable {io : Io} {vpath : VPath} {time modified : Nat} {store after : Meta}

/-- When a state file is removed. -/
theorem removeStateFile_ok_iff {result : Except Metadata.Error Unit}
    (ran : store.removeStateFile io vpath time modified = .ok (result, after)) :
    result = .ok () ↔ Removable io vpath time modified store := by
  have failed {error : Metadata.Error}
      (unfit : ¬ Removable io vpath time modified store) (same : .error error = result) :
      result = .ok () ↔ Removable io vpath time modified store := by
    rw [← same]
    exact ⟨nofun, fun removable => absurd removable unfit⟩
  unfold Meta.removeStateFile at ran
  split at ran
  · rename_i writing
    refine failed (fun removable => removable.idle writing) (Prod.mk.inj (Except.ok.inj ran)).1
  rename_i idle
  obtain ⟨opened, opens, ran⟩ := Run.bind_eq_ok_iff.mp ran
  cases opened with
  | error error =>
      refine failed (fun removable => ?_) (Prod.mk.inj (Except.ok.inj ran)).1
      obtain ⟨dir, name, isDir, _⟩ := removable.present
      cases Except.ok.inj (opens.symm.trans isDir)
  | ok dir =>
      obtain ⟨name, isName, ran⟩ := Run.bind_eq_ok_iff.mp ran
      -- what `Removable` says about the file, for this directory and name
      have about (removable : Removable io vpath time modified store) :
          Metadata.stateFile name ∈ store.signatures.files dir ∧
            io.fails (.stat (Metadata.stateFile name)) = false ∧
            io.fails (.removeFile (Metadata.stateFile name)) = false := by
        obtain ⟨dir', name', isDir, isName', facts⟩ := removable.present
        obtain rfl := Except.ok.inj (Except.ok.inj (opens.symm.trans isDir))
        obtain rfl := Except.ok.inj (isName.symm.trans isName')
        exact facts
      dsimp only at ran
      split at ran
      · rename_i unread
        refine failed (fun removable => ?_) (Prod.mk.inj (Except.ok.inj ran)).1
        exact absurd unread (by simp [(about removable).2.1])
      rename_i read
      split at ran
      · rename_i present
        obtain ⟨fresher, checked, ran⟩ := Run.bind_eq_ok_iff.mp ran
        have old : fresher = false ↔ modified < time := by
          unfold Metadata.isFresher at checked
          split at checked
          · cases checked
          · rw [← Except.ok.inj checked]
            simp only [decide_eq_false_iff_not, not_lt]
            omega
        split at ran
        · rename_i fresh
          refine failed (fun removable => ?_) (Prod.mk.inj (Except.ok.inj ran)).1
          rw [old.mpr removable.old] at fresh
          cases fresh
        · rename_i stale
          obtain ⟨rfl, -⟩ := Prod.mk.inj (Except.ok.inj ran)
          cases fails : io.fails (.removeFile (Metadata.stateFile name)) with
          | true =>
              have stuck : (Metadata.removeFile io (store.signatures.files dir)
                  (Metadata.stateFile name)).1 = .error (.remove (Metadata.stateFile name)) := by
                rw [Metadata.removeFile, if_pos fails]
              refine failed (fun removable => ?_) stuck.symm
              cases fails.symm.trans (about removable).2.2
          | false =>
              have works : (Metadata.removeFile io (store.signatures.files dir)
                  (Metadata.stateFile name)).1 = .ok () := by
                rw [Metadata.removeFile, if_neg (by simp [fails])]
              refine ⟨fun _ => ⟨idle, ⟨dir, name, opens, isName, present, ?_, fails⟩, ?_⟩,
                fun _ => works⟩
              · simpa using read
              · exact old.mp (by simpa using stale)
      · rename_i missing
        refine failed (fun removable => ?_) (Prod.mk.inj (Except.ok.inj ran)).1
        exact missing (about removable).1

end Removing

/-- What a step of the loop can do to the tables. -/
inductive Moves (aggressive : Bool) (loop after : Loop Folder) (step : Step) : Prop where
  | begins (pair : Pair) (calm : attempting loop.stage = false)
      (under : attempting after.stage = true) (added : tablesOf after = (tablesOf loop).add pair)
  | ends {io : Io} {modified : Nat} {dir : CleanupLoop.Base} {time : Nat} {vpath : VPath}
      {path : Path} {rest : List (Path × State)} (isRemoval : step = .removeStateFile io modified)
      (under : loop.stage = .removingState dir time vpath path rest)
      (calm : attempting after.stage = false) (same : tablesOf after = tablesOf loop)
      (outcome : removed after.stage = true ↔ Removable io vpath time modified loop.workers.store)
  | clears (calm : attempting loop.stage = false) (still : attempting after.stage = false)
      (due : resets aggressive loop step = true) (same : tablesOf after = (tablesOf loop).reset)
  | stays (stage : attempting after.stage = attempting loop.stage)
      (undue : resets aggressive loop step = false) (same : tablesOf after = tablesOf loop)

section Steps

variable {env : Metadata.Env} {aggressive : Bool} {empty : Folder} {loop after : Loop Folder}
  {step : Step}

/-- How a directory goes on: with another image, or it is done. -/
theorem proceed_cases {dir : CleanupLoop.Base} {time : Nat} {images : List (Path × State)}
    (ran : loop.proceed dir time images = .ok after) :
    (attempting after.stage = false ∧ tablesOf after = tablesOf loop) ∨
      (attempting after.stage = true ∧ ∃ pair, tablesOf after = (tablesOf loop).add pair) := by
  cases images with
  | nil =>
      obtain rfl := Except.ok.inj ran
      exact Or.inl ⟨rfl, rfl⟩
  | cons image rest =>
      obtain ⟨name, _, ran⟩ := Run.bind_eq_ok_iff.mp ran
      obtain ⟨vpath, _, ran⟩ := Run.bind_eq_ok_iff.mp ran
      obtain rfl := Except.ok.inj ran
      exact Or.inr ⟨rfl, _, rfl⟩

/-- The loop goes on with its list, or ends the command. -/
theorem Moves.of_proceed {before : Loop Folder} {dir : CleanupLoop.Base} {time : Nat}
    {images : List (Path × State)} (ran : before.proceed dir time images = .ok after)
    (same : tablesOf before = tablesOf loop) (calm : attempting loop.stage = false)
    (undue : resets aggressive loop step = false) : Moves aggressive loop after step := by
  rcases proceed_cases ran with ⟨still, kept⟩ | ⟨under, pair, added⟩
  · exact .stays (still.trans calm.symm) undue (kept.trans same)
  · refine .begins pair calm under ?_
    rw [added, same]

/-- How the loop takes up a command. -/
theorem Moves.of_take {now downloading : Nat} {dirs : List CleanupLoop.Base}
    {command : CleanupLoop.Command} {queue : List CleanupLoop.Command}
    (idle : loop.stage = .idle) (isQueue : loop.queue = command :: queue) :
    Moves aggressive loop
      ({ loop with queue := queue }.take aggressive now downloading dirs command)
      (.take now downloading dirs) := by
  have calm : attempting loop.stage = false := by simp [idle, attempting]
  cases command with
  | base dir => exact .stays calm.symm (by simp [resets, isQueue]) rfl
  | indexGc => exact .stays calm.symm (by simp [resets, isQueue]) rfl
  | reschedule =>
      have asked : resets aggressive loop (.take now downloading dirs) =
          (aggressive || loop.shouldRunIndexGc now downloading) := by simp [resets, isQueue]
      have counted : Loop.shouldRunIndexGc { loop with queue := queue } now downloading =
          loop.shouldRunIndexGc now downloading := rfl
      cases due : aggressive || loop.shouldRunIndexGc now downloading with
      | false =>
          refine .stays calm.symm (asked.trans due) ?_
          simp only [tablesOf, Loop.take, counted, due, Bool.false_eq_true, if_false]
      | true =>
          refine .clears calm rfl (asked.trans due) ?_
          simp only [tablesOf, Loop.take, counted, due, if_true, Tables.reset]

/-- A removal of a state file leaves the tables as they are, and ends well exactly when the
file can be removed. -/
theorem removal_cases {io : Io} {modified : Nat} {dir : CleanupLoop.Base} {time : Nat}
    {vpath : VPath} {path : Path} {rest : List (Path × State)}
    (stage : loop.stage = .removingState dir time vpath path rest)
    (goes : loop.Goes env aggressive empty after (.removeStateFile io modified)) :
    attempting after.stage = false ∧ tablesOf after = tablesOf loop ∧
      (removed after.stage = true ↔ Removable io vpath time modified loop.workers.store) := by
  cases goes with
  | removeStateFile isStage ran done =>
      cases stage.symm.trans isStage
      have fits := removeStateFile_ok_iff ran
      rw [done]
      exact ⟨rfl, rfl, fun _ => fits.mp rfl, fun _ => rfl⟩
  | stateFileStays isStage ran done =>
      cases stage.symm.trans isStage
      have fits := removeStateFile_ok_iff ran
      rw [done]
      refine ⟨rfl, rfl, ?_, ?_⟩
      · intro impossible
        cases impossible
      · intro removable
        cases fits.mpr removable

/-- How a step moves the tables. -/
theorem moves_of_goes (goes : loop.Goes env aggressive empty after step) :
    Moves aggressive loop after step := by
  have removal := goes
  cases goes with
  | undryCleanup done | startCleanup done | addBase done | metadata _ done | place done =>
      rw [done]
      exact .stays rfl rfl rfl
  | snapshot stage done | collected stage done | wake stage done =>
      rw [done]
      exact .stays (by simp [stage, attempting]) rfl rfl
  | take idle isQueue done =>
      rw [done]
      exact .of_take idle isQueue
  | scanned stage ran =>
      have calm : attempting loop.stage = false := by simp [stage, attempting]
      obtain ⟨⟨found, store⟩, _, ran⟩ := Run.bind_eq_ok_iff.mp ran
      dsimp only at ran
      split at ran
      · obtain ⟨⟨noted, unused⟩, _, ran⟩ := Run.bind_eq_ok_iff.mp ran
        obtain ⟨proceeded, goesOn, ran⟩ := Run.bind_eq_ok_iff.mp ran
        obtain ⟨-, rfl⟩ := Prod.mk.inj (Except.ok.inj ran)
        exact .of_proceed goesOn rfl calm rfl
      · obtain ⟨-, rfl⟩ := Prod.mk.inj (Except.ok.inj ran)
        exact .stays calm.symm rfl rfl
  | removeStateFile stage | stateFileStays stage =>
      obtain ⟨calm, same, outcome⟩ := removal_cases stage removal
      exact .ends rfl stage calm same outcome
  | removeImage stage goesOn =>
      exact .of_proceed goesOn rfl (by simp [stage, attempting]) rfl
  | imageStays stage done =>
      rw [done]
      exact .stays (by simp [stage, attempting]) rfl rfl

end Steps

/-- What the ledger always has to do with the loop. -/
structure Tracks (ledger : Ledger) (loop : Loop Folder) : Prop where
  attempt : attempting loop.stage = ledger.attempt.isSome
  calm : ledger.attempt = none → ledger.current = ledger.settled
  count : ∀ pair, ledger.attempt = some pair →
    ledger.current.deletedSinceIndexGc = ledger.settled.deletedSinceIndexGc + 1
  entered : ∀ pair ∈ ledger.current.recentlyDeleted,
    pair ∈ ledger.settled.recentlyDeleted ∨ ledger.attempt = some pair
  deleted : ∀ pair ∈ ledger.settled.recentlyDeleted, pair ∈ ledger.deleted

section Ledgers

variable {env : Metadata.Env} {aggressive : Bool} {empty : Folder} {loop after : Loop Folder}
  {ledger : Ledger} {event : Event Folder} {pair : Pair}

/-- The books track the loop at first. -/
theorem Tracks.start {workers : Metadata.Workers} {disk : Map (List FileName) (Files Folder)}
    {lastIndexGc : Nat} : Tracks .start (Loop.new workers disk lastIndexGc) where
  attempt := rfl
  calm _ := rfl
  count _ under := by cases under
  entered _ member := by cases member
  deleted _ member := by cases member

/-- Nothing is attempted while no state file is being removed. -/
theorem Tracks.attempt_eq_none (tracks : Tracks ledger loop)
    (calm : attempting loop.stage = false) : ledger.attempt = none := by
  rw [← Option.isNone_iff_eq_none, ← Option.not_isSome, ← tracks.attempt, calm]
  rfl

theorem Tracks.of_stage (tracks : Tracks ledger loop)
    (same : attempting after.stage = attempting loop.stage) : Tracks ledger after :=
  { tracks with attempt := same.trans tracks.attempt }

/-- A removal that succeeds is entered. -/
theorem Tracks.commit (tracks : Tracks ledger loop) (calm : attempting after.stage = false) :
    Tracks ledger.commit after where
  attempt := calm
  calm _ := rfl
  count _ under := by cases under
  entered _ member := Or.inl member
  deleted pair member := by
    rcases tracks.entered pair member with old | isPair
    · exact List.mem_append_left _ (tracks.deleted pair old)
    · refine List.mem_append_right _ ?_
      rw [isPair]
      exact List.mem_singleton.mpr rfl

/-- A removal that fails is taken back. -/
theorem Tracks.drop (tracks : Tracks ledger loop) (calm : attempting after.stage = false) :
    Tracks ledger.drop after where
  attempt := calm
  calm _ := rfl
  count _ under := by cases under
  entered _ member := Or.inl member
  deleted := tracks.deleted

theorem Tracks.attempts (tracks : Tracks ledger loop) (under : attempting after.stage = true) :
    Tracks (ledger.attempts (some pair)) after where
  attempt := under
  calm := nofun
  count _ _ := rfl
  entered other member := by
    rcases List.mem_append.mp member with old | isPair
    · exact Or.inl old
    · exact Or.inr (congrArg some (List.mem_singleton.mp isPair).symm)
  deleted := tracks.deleted

/-- A collection of indexes starts the count again. -/
theorem Tracks.reset (tracks : Tracks ledger loop) (calm : attempting loop.stage = false)
    (still : attempting after.stage = false) : Tracks ledger.reset after := by
  have none := tracks.attempt_eq_none calm
  refine ⟨?_, fun _ => ?_, fun pair under => ?_, tracks.entered, tracks.deleted⟩
  · rw [still, Ledger.reset, none]
    rfl
  · rw [Ledger.reset, tracks.calm none]
  · rw [Ledger.reset, none] at under
    cases under

/-- A download that is given up is entered. -/
theorem Tracks.abort (tracks : Tracks ledger loop) (same : after.stage = loop.stage) :
    Tracks (ledger.abort pair) after where
  attempt := by
    rw [same]
    exact tracks.attempt
  calm calm := congrArg (fun tables : Tables => tables.add pair) (tracks.calm calm)
  count other under := congrArg (· + 1) (tracks.count other under)
  entered other member := by
    rcases List.mem_append.mp member with old | isNew
    · rcases tracks.entered other old with settled | under
      · exact Or.inl (List.mem_append_left _ settled)
      · exact Or.inr under
    · exact Or.inl (List.mem_append_right _ isNew)
  deleted other member := by
    rcases List.mem_append.mp member with old | isNew
    · exact List.mem_append_left _ (tracks.deleted other old)
    · exact List.mem_append_right _ isNew

theorem Tracks.forget (tracks : Tracks ledger loop) (same : after.stage = loop.stage) :
    Tracks (ledger.forget pair) after where
  attempt := by
    rw [same]
    exact tracks.attempt
  calm calm := congrArg (fun tables : Tables => tables.forget pair) (tracks.calm calm)
  count := tracks.count
  entered other member := by
    obtain ⟨old, differs⟩ := List.mem_filter.mp member
    rcases tracks.entered other old with settled | under
    · exact Or.inl (List.mem_filter.mpr ⟨settled, differs⟩)
    · exact Or.inr under
  deleted other member := tracks.deleted other (List.mem_filter.mp member).1

/-- A removal of a state file ends without having removed it. -/
def Fails (event : Event Folder) : Prop :=
  attempting event.before.stage = true ∧ attempting event.after.stage = false ∧
    removed event.after.stage = false

/-- What one operation means for the ledger, and for the tables as long as it is not a
removal that fails. -/
theorem Tracks.note (tracks : Tracks ledger event.before)
    (takes : (machine env aggressive empty).Takes event) :
    Tracks (ledger.note aggressive event) event.after ∧
      (tablesOf event.before = ledger.current → ¬ Fails event →
        tablesOf event.after = (ledger.note aggressive event).current) := by
  obtain ⟨before, op, answer, after⟩ := event
  change exec env aggressive empty before op = some (answer, after) at takes
  change Tracks ledger before at tracks
  cases op with
  | abort vpath image =>
      obtain ⟨-, rfl⟩ := Prod.mk.inj (Option.some.inj takes)
      refine ⟨tracks.abort rfl, fun same _ => ?_⟩
      exact congrArg (fun tables : Tables => tables.add (vpath.place, image)) same
  | forget pair =>
      obtain ⟨-, rfl⟩ := Prod.mk.inj (Option.some.inj takes)
      refine ⟨tracks.forget rfl, fun same _ => ?_⟩
      exact congrArg (fun tables : Tables => tables.forget pair) same
  | getDeleted =>
      obtain ⟨-, rfl⟩ := Prod.mk.inj (Option.some.inj takes)
      exact ⟨tracks, fun same _ => same⟩
  | step step =>
      obtain ⟨⟨notice, next⟩, moved, done⟩ := Option.bind_eq_some_iff.mp takes
      obtain ⟨-, rfl⟩ := Prod.mk.inj (Option.some.inj done)
      cases moves_of_goes (Loop.goes_of_exec moved) with
      | begins pair calm under added =>
          have last : next.recentlyDeleted.getLast? = some pair := by
            rw [show next.recentlyDeleted = before.recentlyDeleted ++ [pair] from
              congrArg Tables.recentlyDeleted added]
            exact List.getLast?_concat
          simp only [Ledger.note, calm, under, last]
          refine ⟨tracks.attempts under, fun same _ => ?_⟩
          rw [added, same, tracks.calm (tracks.attempt_eq_none calm)]
          rfl
      | ends _ stage calm kept _ =>
          have under : attempting before.stage = true := by simp [stage, attempting]
          simp only [Ledger.note, calm, under]
          cases succeeded : removed next.stage with
          | true =>
              refine ⟨tracks.commit calm, fun same _ => ?_⟩
              exact kept.trans same
          | false =>
              refine ⟨tracks.drop calm, fun _ succeeds => ?_⟩
              exact absurd ⟨under, calm, succeeded⟩ succeeds
      | clears calm still due cleared =>
          simp only [Ledger.note, calm, still, due, if_true]
          refine ⟨tracks.reset calm still, fun same _ => ?_⟩
          rw [cleared, same]
          rfl
      | stays stage undue kept =>
          have unchanged : ledger.note aggressive ⟨before, .step step, answer, next⟩ = ledger := by
            simp only [Ledger.note, stage, undue, Bool.false_eq_true, if_false]
            cases attempting before.stage with
            | true => rfl
            | false => rfl
          show Tracks (ledger.note aggressive ⟨before, .step step, answer, next⟩) next ∧
            (tablesOf before = ledger.current → _ → tablesOf next =
              (ledger.note aggressive ⟨before, .step step, answer, next⟩).current)
          rw [unchanged]
          exact ⟨tracks.of_stage stage, fun same _ => kept.trans same⟩

variable {workers : Metadata.Workers} {disk : Map (List FileName) (Files Folder)}
  {lastIndexGc : Nat} {trace : List (Event Folder)} {finish : Loop Folder}

/-- The books of a run track the loop. -/
theorem tracks_ofRun
    (steps : (machine env aggressive empty).Steps (Loop.new workers disk lastIndexGc) trace finish) :
    Tracks (.ofRun aggressive trace) finish := by
  refine steps.preserves_history (fun history loop => Tracks (.ofRun aggressive history) loop)
    (fun _ => True) ?_ (fun _ _ => trivial) .start
  intro history taken valid _ tracks
  rw [Ledger.ofRun_concat]
  exact (tracks.note valid).1

/-- As long as no removal fails, the tables are those of the ledger. -/
theorem tables_ofRun
    (steps : (machine env aggressive empty).Steps (Loop.new workers disk lastIndexGc) trace finish)
    (succeed : ∀ event ∈ trace, ¬ Fails event) :
    tablesOf finish = (Ledger.ofRun aggressive trace).current := by
  have both := steps.preserves_history
    (fun history loop => Tracks (.ofRun aggressive history) loop ∧
      tablesOf loop = (Ledger.ofRun aggressive history).current)
    (fun event => ¬ Fails event) ?_ succeed ⟨.start, rfl⟩
  · exact both.2
  · rintro history taken valid succeeds ⟨tracks, same⟩
    rw [Ledger.ofRun_concat]
    obtain ⟨next, kept⟩ := tracks.note valid
    exact ⟨next, kept same succeeds⟩

/-- Where no removal is under way the tables are as if none had been attempted that failed,
and everything that is reported as deleted was removed or aborted. -/
structure Accounts (aggressive : Bool) (trace : List (Event Folder)) : Prop where
  settled : ∀ front event back, trace = front ++ event :: back →
    attempting event.after.stage = false →
      tablesOf event.after = (Ledger.ofRun aggressive (front ++ [event])).settled
  reports : ∀ front event back, trace = front ++ event :: back →
    ∀ answer, event.answer = some answer →
      ∀ pair ∈ answer, pair ∈ (Ledger.ofRun aggressive front).deleted

/-- Every state file that is to be removed can be, and while one is being removed, its
image is not reported, unless it was deleted before. -/
structure Clears (aggressive : Bool) (trace : List (Event Folder)) : Prop where
  removable : ∀ event ∈ trace, ∀ io modified dir time vpath path rest,
    event.op = .step (.removeStateFile io modified) →
      event.before.stage = .removingState dir time vpath path rest →
        Removable io vpath time modified event.before.workers.store
  asked : ∀ front event back, trace = front ++ event :: back → event.op = .getDeleted →
    ∀ pair ∈ event.before.recentlyDeleted, (Ledger.ofRun aggressive front).attempt = some pair →
      pair ∈ (Ledger.ofRun aggressive front).deleted

/-- A removal that fails is one of a state file that cannot be removed, and leaves the
tables as they are. -/
theorem Fails.cases (ledger : Ledger) (fails : Fails event)
    (takes : (machine env aggressive empty).Takes event) :
    (∃ io modified dir time vpath path rest, event.op = .step (.removeStateFile io modified) ∧
      event.before.stage = .removingState dir time vpath path rest ∧
      ¬ Removable io vpath time modified event.before.workers.store) ∧
    tablesOf event.after = tablesOf event.before ∧
      ledger.note aggressive event = ledger.drop := by
  obtain ⟨before, op, answer, after⟩ := event
  obtain ⟨under, calm, failed⟩ := fails
  change attempting before.stage = true at under
  change attempting after.stage = false at calm
  change removed after.stage = false at failed
  change exec env aggressive empty before op = some (answer, after) at takes
  cases op with
  | step step =>
      obtain ⟨⟨notice, next⟩, moved, done⟩ := Option.bind_eq_some_iff.mp takes
      obtain ⟨-, rfl⟩ := Prod.mk.inj (Option.some.inj done)
      cases moves_of_goes (Loop.goes_of_exec moved) with
      | begins _ still _ _ => cases still.symm.trans under
      | ends isRemoval stage _ same outcome =>
          refine ⟨⟨_, _, _, _, _, _, _, congrArg Op.step isRemoval, stage, ?_⟩, same, ?_⟩
          · rw [← outcome, failed]
            exact Bool.false_ne_true
          · simp only [Ledger.note, under, calm, failed, Bool.false_eq_true, if_false]
      | clears still _ _ _ => cases still.symm.trans under
      | stays stage _ _ => cases (calm.symm.trans stage).trans under
  | abort vpath image =>
      obtain ⟨-, rfl⟩ := Prod.mk.inj (Option.some.inj takes)
      cases under.symm.trans calm
  | forget pair =>
      obtain ⟨-, rfl⟩ := Prod.mk.inj (Option.some.inj takes)
      cases under.symm.trans calm
  | getDeleted =>
      obtain ⟨-, rfl⟩ := Prod.mk.inj (Option.some.inj takes)
      cases under.symm.trans calm

/-- A removal of a state file that can be removed does not fail. -/
theorem removable_of_not_fails (takes : (machine env aggressive empty).Takes event)
    (succeeds : ¬ Fails event) {io : Io} {modified : Nat} {dir : CleanupLoop.Base} {time : Nat}
    {vpath : VPath} {path : Path} {rest : List (Path × State)}
    (isRemoval : event.op = .step (.removeStateFile io modified))
    (stage : event.before.stage = .removingState dir time vpath path rest) :
    Removable io vpath time modified event.before.workers.store := by
  obtain ⟨before, op, answer, after⟩ := event
  change op = _ at isRemoval
  subst isRemoval
  obtain ⟨⟨notice, next⟩, moved, done⟩ := Option.bind_eq_some_iff.mp takes
  obtain ⟨-, rfl⟩ := Prod.mk.inj (Option.some.inj done)
  obtain ⟨calm, _, outcome⟩ := removal_cases stage (Loop.goes_of_exec moved)
  refine outcome.mp ?_
  by_contra failed
  have under : attempting before.stage = true := by
    rw [show before.stage = _ from stage]
    rfl
  exact succeeds ⟨under, calm, Bool.eq_false_iff.mpr failed⟩

/-- What accounts for a run accounts for its beginning. -/
theorem Accounts.of_append {front back : List (Event Folder)}
    (accounts : Accounts aggressive (front ++ back)) : Accounts aggressive front where
  settled earlier event later split :=
    accounts.settled earlier event (later ++ back) (by simp [split])
  reports earlier event later split :=
    accounts.reports earlier event (later ++ back) (by simp [split])

/-- While the tables are accounted for, no removal fails: one that does leaves the counter
too high. -/
theorem Accounts.not_fails (accounts : Accounts aggressive trace)
    (steps : (machine env aggressive empty).Steps (Loop.new workers disk lastIndexGc) trace finish) :
    ∀ event ∈ trace, ¬ Fails event := by
  induction steps with
  | refl => simp
  | @step history taken prior valid ih =>
      have earlier := ih accounts.of_append
      intro event member
      rcases List.mem_append.mp member with old | isLast
      · exact earlier event old
      · obtain rfl := List.mem_singleton.mp isLast
        intro fails
        have tracks := tracks_ofRun prior
        have before := tables_ofRun prior earlier
        have after := accounts.settled history event [] rfl fails.2.1
        obtain ⟨_, same, dropped⟩ :=
          fails.cases (Ledger.ofRun aggressive history) valid
        rw [Ledger.ofRun_concat, dropped] at after
        obtain ⟨pair, under⟩ := Option.isSome_iff_exists.mp (tracks.attempt.symm.trans fails.1)
        -- the counter is as it was before, and the removal is not to be counted
        have counted : (Ledger.ofRun aggressive history).current.deletedSinceIndexGc =
            (Ledger.ofRun aggressive history).settled.deletedSinceIndexGc := by
          rw [← before, ← same, after]
          rfl
        rw [tracks.count pair under] at counted
        omega

/-- `get_deleted` answers with what was deleted recently. -/
theorem answer_of_getDeleted (takes : (machine env aggressive empty).Takes event)
    (asks : event.op = .getDeleted) : event.answer = some event.before.recentlyDeleted.dedup := by
  obtain ⟨before, op, answer, after⟩ := event
  change op = _ at asks
  subst asks
  exact (Prod.mk.inj (Option.some.inj takes)).1.symm

/-- Only `get_deleted` reports anything. -/
theorem getDeleted_of_answer (takes : (machine env aggressive empty).Takes event)
    {answer : List Pair} (reports : event.answer = some answer) :
    event.op = .getDeleted ∧ answer = event.before.recentlyDeleted.dedup := by
  obtain ⟨before, op, reported, after⟩ := event
  change reported = _ at reports
  subst reports
  cases op with
  | step step =>
      obtain ⟨_, _, done⟩ := Option.bind_eq_some_iff.mp takes
      cases (Prod.mk.inj (Option.some.inj done)).1
  | abort vpath image => cases (Prod.mk.inj (Option.some.inj takes)).1
  | forget pair => cases (Prod.mk.inj (Option.some.inj takes)).1
  | getDeleted =>
      obtain ⟨same, -⟩ := Prod.mk.inj (Option.some.inj takes)
      exact ⟨rfl, (Option.some.inj same).symm⟩

/-- The tables are accounted for, and only deletions are reported, exactly in the runs where
every state file can be removed when cleanup comes to it, and no image is asked about while
its state file is being removed. -/
theorem accounts_iff
    (steps : (machine env aggressive empty).Steps (Loop.new workers disk lastIndexGc) trace finish) :
    Accounts aggressive trace ↔ Clears aggressive trace := by
  constructor
  · intro accounts
    refine ⟨?_, ?_⟩
    · intro event member io modified dir time vpath path rest isRemoval stage
      exact removable_of_not_fails (steps.takes_of_mem member) (accounts.not_fails steps event member)
        isRemoval stage
    · intro front event back split asks pair member _
      have takes : (machine env aggressive empty).Takes event :=
        steps.takes_of_mem (by simp [split])
      have reported := answer_of_getDeleted takes asks
      exact accounts.reports front event back split _ reported pair (List.mem_dedup.mpr member)
  · intro clears
    have succeed : ∀ event ∈ trace, ¬ Fails event := by
      intro event member fails
      obtain ⟨⟨io, modified, dir, time, vpath, path, rest, isRemoval, stage, stuck⟩, _⟩ :=
        fails.cases .start (steps.takes_of_mem member)
      exact stuck (clears.removable event member io modified dir time vpath path rest isRemoval stage)
    constructor
    · intro front event back split calm
      rw [split] at steps succeed
      obtain ⟨first, valid, _⟩ := steps.cut
      have upTo := first.step valid
      have tracks := tracks_ofRun upTo
      rw [← tracks.calm (tracks.attempt_eq_none calm)]
      refine tables_ofRun upTo fun other member => succeed other ?_
      rcases List.mem_append.mp member with old | isLast
      · exact List.mem_append_left _ old
      · rw [List.mem_singleton.mp isLast]
        exact List.mem_append_right _ List.mem_cons_self
    · intro front event back split answer reports pair member
      have asked := clears.asked front event back split
      rw [split] at steps succeed
      obtain ⟨first, valid, _⟩ := steps.cut
      obtain ⟨asks, rfl⟩ := getDeleted_of_answer valid reports
      have tracks := tracks_ofRun first
      have same := tables_ofRun first fun other old => succeed other (List.mem_append_left _ old)
      have entered : pair ∈ (Ledger.ofRun aggressive front).current.recentlyDeleted := by
        rw [← same]
        exact List.mem_dedup.mp member
      rcases tracks.entered pair entered with settled | under
      · exact tracks.deleted pair settled
      · exact asked asks pair (List.mem_dedup.mp member) under

end Ledgers

/-! In the directory `/k` the image `a` is not needed any more. -/

namespace Sample

open CleanupLoop.Sample (base cleaned clearing filling run scan scanned scanning unscanned)

/-- A step of the loop as an operation. -/
def lift (event : CleanupLoop.Event Folder) : Event Folder :=
  ⟨event.before, .step event.op, none, event.after⟩

/-- The steps of the loop are steps of the loop with its tables. -/
theorem steps_lift {env : Metadata.Env} {aggressive : Bool} {empty : Folder}
    {start finish : Loop Folder} {trace : List (CleanupLoop.Event Folder)}
    (steps : (CleanupLoop.loopMachine env aggressive empty).Steps start trace finish) :
    (machine env aggressive empty).Steps start (trace.map lift) finish := by
  induction steps with
  | refl => exact .refl
  | @step trace taken prior valid ih =>
      have moved : taken.before.exec env aggressive empty taken.op =
        some (taken.answer, taken.after) := valid
      have takes : (machine env aggressive empty).Takes (lift taken) := by
        show exec env aggressive empty taken.before (.step taken.op) = some (none, taken.after)
        rw [exec, moved]
        rfl
      rw [List.map_append]
      exact ih.step takes

/-- The loop after a removal. -/
def finished (removal : List Step) : Loop Unit := (run (scanned filling) removal).2

/-- Two images are uploaded, and one of them is to be removed. -/
def cleanup (removal : List Step) : List (Event Unit) :=
  ((run CleanupLoop.Sample.start (filling ++ scanning)).1 ++
    ⟨unscanned filling, scan, none, scanned filling⟩ :: (run (scanned filling) removal).1).map lift

/-- `get_deleted` is asked. -/
def asking (loop : Loop Unit) : Event Unit :=
  ⟨loop, .getDeleted, some loop.recentlyDeleted.dedup, loop⟩

/-- The image that is removed. -/
def pair : Pair := (Metadata.Sample.path.place, Metadata.Sample.image 1)

/-- The run of the example. -/
theorem steps (removal : List Step) :
    (machine cleaned false ()).Steps CleanupLoop.Sample.start
      (cleanup removal ++ [asking (finished removal)]) (finished removal) := by
  obtain ⟨notice, steps⟩ := CleanupLoop.Sample.exists_steps filling removal (by decide +kernel) rfl
    (by decide +kernel)
  have takes : (machine cleaned false ()).Takes (asking (finished removal)) := rfl
  exact (steps_lift steps).step takes

end Sample

/-- The state file of `a` is removed, and then its directory. -/
theorem accounts_cleared :
    let trace := Sample.cleanup CleanupLoop.Sample.clearing ++
      [Sample.asking (Sample.finished CleanupLoop.Sample.clearing)]
    Accounts false trace ∧ ∃ event ∈ trace, event.answer = some [Sample.pair] := by
  intro trace
  have steps := Sample.steps CleanupLoop.Sample.clearing
  have succeed : ∀ event ∈ trace, attempting event.before.stage = true →
      attempting event.after.stage = false → removed event.after.stage = true := by
    decide +kernel
  refine ⟨(accounts_iff steps).mpr ⟨?_, ?_⟩, by decide +kernel⟩
  · intro event member io modified dir time vpath path rest isRemoval stage
    refine removable_of_not_fails (steps.takes_of_mem member) ?_ isRemoval stage
    rintro ⟨under, calm, failed⟩
    cases (succeed event member under calm).symm.trans failed
  · intro front event back split asks pair _ under
    rcases List.eq_nil_or_concat back with rfl | ⟨back, last, rfl⟩
    · obtain ⟨rfl, -⟩ := List.append_inj' split rfl
      have none : (Ledger.ofRun false (Sample.cleanup CleanupLoop.Sample.clearing)).attempt =
          none := by decide +kernel
      cases none.symm.trans under
    · rw [List.concat_eq_append, ← List.cons_append, ← List.append_assoc] at split
      obtain ⟨same, -⟩ := List.append_inj' split rfl
      have among : event ∈ Sample.cleanup CleanupLoop.Sample.clearing := by simp [same]
      obtain ⟨taken, _, rfl⟩ := List.mem_map.mp among
      cases asks

/-- The state file of `a` has changed in the second before the cleanup, and stays. The image
is reported as deleted, and counted. -/
theorem reports_kept :
    let removal := [.removeStateFile Io.working 110]
    let trace := Sample.cleanup removal ++ [Sample.asking (Sample.finished removal)]
    (machine CleanupLoop.Sample.cleaned false ()).Steps CleanupLoop.Sample.start trace
        (Sample.finished removal) ∧
      (∃ event ∈ trace, event.answer = some [Sample.pair]) ∧
      (Ledger.ofRun false trace).deleted = [] ∧
      Metadata.stateFile Metadata.Sample.name ∈
        (Sample.finished removal).workers.store.signatures.files Metadata.Sample.spot.dir ∧
      attempting (Sample.finished removal).stage = false ∧
      tablesOf (Sample.finished removal) = ⟨[Sample.pair], 1⟩ ∧
      (Ledger.ofRun false trace).settled = ⟨[], 0⟩ ∧ ¬ Accounts false trace := by
  intro removal trace
  have facts : (∃ event ∈ trace, event.answer = some [Sample.pair]) ∧
      (Ledger.ofRun false trace).deleted = [] ∧
      Metadata.stateFile Metadata.Sample.name ∈
        (Sample.finished removal).workers.store.signatures.files Metadata.Sample.spot.dir ∧
      tablesOf (Sample.finished removal) = ⟨[Sample.pair], 1⟩ ∧
      (Ledger.ofRun false trace).settled = ⟨[], 0⟩ := by
    decide +kernel
  obtain ⟨reported, nothing, kept, tables, settled⟩ := facts
  refine ⟨Sample.steps removal, reported, nothing, kept, rfl, tables, settled, fun accounts => ?_⟩
  have same := accounts.settled _ (Sample.asking (Sample.finished removal)) [] rfl rfl
  cases tables.symm.trans (same.trans settled)

end Deletions

end Ciruela
