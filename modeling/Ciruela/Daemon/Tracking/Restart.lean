import Ciruela.Daemon.Tracking.BaseDir
import Ciruela.Daemon.Tracking.FetchDir

/-!
# Crashes and the first scan

A crash leaves what is on the disk. The daemon starts with nothing being written and
scans the base directory of the path, which removes `x.new.state`. Where there is an
`x.state` and no directory, the upload is resumed.

An upload puts its image in place by one rename and renames `x.new.state` to `x.state`
by another. Only where it replaces an image does `x.state` say anything in between.
-/

namespace Ciruela

open Foundation

namespace FetchDir

open Metadata (Io Meta)

variable {Folder : Type}

/-- A place of a server that can crash and start again. -/
structure Daemon (Folder : Type) where
  pipeline : Pipeline Folder
  /-- The first scan has found the path, and its directory has not been looked for. -/
  unchecked : Bool
  /-- The directory was not found, and its upload has not been resumed. -/
  missing : Bool

/-- What happens at the place, crashes included. -/
inductive DaemonOp (Folder : Type) where
  | run (op : Op Folder)
  /-- A crash, the start after it and the scan of the base directory, whose files the
  system lists as `names`. -/
  | restart (names : List FileName)
  /-- `Disk::check_exists`. -/
  | checkExists
  /-- `Meta::resume_dir`. -/
  | resume

/-- Whether the operation is a restart. -/
def DaemonOp.isRestart : DaemonOp Folder → Bool
  | restart _ => true
  | _ => false

namespace Daemon

variable (setting : Setting Folder) (daemon : Daemon Folder)

/-- The state after a restart: only what is in files is still there. -/
def restart (names : List FileName) : Option (Daemon Folder) := do
  let store := Meta.new daemon.pipeline.store.signatures daemon.pipeline.store.indexes
  let base ← setting.vpath.parent.toOption
  if (store.signatures.files base.names).Lists names then do
    let (result, store) ← (store.scanDir Io.working base names).toOption
    match result with
    | .error _ => none
    | .ok found =>
        let pipeline := { daemon.pipeline with store := store, uploads := [], cleanup := none }
        return ⟨pipeline, decide (setting.name.text ∈ found), false⟩
  else none

/-- One step at the place. -/
def exec : DaemonOp Folder → Option (Daemon Folder)
  | .run op => do
      let pipeline ← daemon.pipeline.exec setting op
      return { daemon with pipeline := pipeline }
  | .restart names => daemon.restart setting names
  | .checkExists =>
      if daemon.unchecked then
        some { daemon with
          unchecked := false, missing := !decide (setting.name ∈ daemon.pipeline.disk) }
      else none
  | .resume =>
      if daemon.missing then do
        let pipeline ← daemon.pipeline.request setting ⟨∅, ∅⟩
          (.resumeUpload Io.working setting.vpath)
        return { daemon with pipeline := pipeline, missing := false }
      else none

end Daemon

/-- The place with its restarts as a machine. -/
def daemonMachine (setting : Setting Folder) : Machine (Daemon Folder) (DaemonOp Folder) Unit :=
  ⟨fun daemon op => (daemon.exec setting op).map fun next => ((), next)⟩

/-- A step at the place. -/
abbrev DaemonEvent (Folder : Type) := Transition (Daemon Folder) (DaemonOp Folder) Unit

section Matching

variable (setting : Setting Folder)

/-- The image `x.state` records. -/
def Pipeline.recorded (pipeline : Pipeline Folder) : Option ImageId :=
  (pipeline.record setting).state.bind imageOf

/-- The directory holds the image, if it is there. -/
def Matches (image : Option ImageId) (folder : Option Folder) : Prop :=
  ∀ known there, image = some known → folder = some there → setting.Holds known there

/-- The directory, if it is there, holds the image that `x.state` records. -/
def Daemon.Agrees (daemon : Daemon Folder) : Prop :=
  Matches setting (daemon.pipeline.recorded setting) (daemon.pipeline.place setting)

/-- There is no crash between putting an image in place and committing it, unless
`x.state` is missing or records this image. -/
def CrashesOutside (event : DaemonEvent Folder) : Prop :=
  event.op.isRestart = true →
    ∀ upload ∈ event.before.pipeline.uploads, upload.work.isSwitched = true →
      ∀ image ∈ event.before.pipeline.recorded setting, image = upload.image

instance (event : DaemonEvent Folder) : Decidable (CrashesOutside setting event) :=
  inferInstanceAs (Decidable (_ → ∀ upload ∈ _, _ → ∀ image ∈ _, _ = _))

variable {setting} {before after : Daemon Folder}

/-- A scan takes no part in uploads, and it keeps `x.state` or takes it away. -/
theorem record_of_scanDir {base : VPath} {names : List FileName} {found : Metadata.Found}
    {store next : Meta} (scanned : store.scanDir Io.working base names = .ok (.ok found, next))
    (spot : Spot) :
    (next.record spot).state = (store.record spot).state ∨ (next.record spot).state = none := by
  unfold Meta.scanDir at scanned
  simp only [Metadata.Io.working_fails, Bool.false_eq_true, if_false] at scanned
  split at scanned
  · have steps := Metadata.allStates_steps scanned
    generalize (⟨base, base.names, .next, Metadata.listFiles names Metadata.stateEnding, ∅⟩ :
      Metadata.Scan) = scan at steps
    generalize ended : ((⟨base, base.names, .next, [], found⟩ : Metadata.Scan), next) = finish at steps
    obtain rfl : next = finish.2 := congrArg Prod.snd ended
    clear ended scanned
    induction steps with
    | refl => exact Or.inl rfl
    | tail _ step ih =>
        rcases (Metadata.Scan.step_effect step spot).state with same | gone
        · rw [same]
          exact ih
        · exact Or.inr gone
  · obtain ⟨_, rfl⟩ := Prod.mk.inj (Except.ok.inj scanned)
    exact Or.inl rfl

/-- What is recorded is the image of the state. -/
theorem recorded_of_state {pipeline : Pipeline Folder} {content : Metadata.Content}
    (isState : (pipeline.record setting).state = some content) :
    pipeline.recorded setting = imageOf content := by
  rw [Pipeline.recorded, isState]
  rfl

/-- After a restart nothing is under way, and `x.state` is as before the crash or gone. -/
theorem inv_restart {names : List FileName} (inv : Inv setting (Matches setting) before.pipeline)
    (outside : ∀ upload ∈ before.pipeline.uploads, upload.work.isSwitched = true →
      ∀ image ∈ before.pipeline.recorded setting, image = upload.image)
    (restarted : before.restart setting names = some after) :
    after.pipeline.uploads = [] ∧ Inv setting (Matches setting) after.pipeline := by
  obtain ⟨base, _, restarted⟩ := Option.bind_eq_some_iff.mp restarted
  split at restarted
  · obtain ⟨⟨result, store⟩, scanned, restarted⟩ := Option.bind_eq_some_iff.mp restarted
    cases result with
    | error error => cases restarted
    | ok found =>
        obtain rfl := Option.some.inj restarted
        refine ⟨rfl, by simp, by simp, ?_, nofun⟩
        intro _ content isState
        have isAfter : (store.record setting.spot).state = some content := isState
        rcases record_of_scanDir (Run.ok_of_toOption scanned) setting.spot with same | gone
        · have isBefore : (before.pipeline.record setting).state = some content :=
            same.symm.trans isAfter
          by_cases settled : before.pipeline.Settled
          · exact inv.fits settled content isBefore
          · -- the image of an upload is in place, and `x.state` records it
            simp only [Pipeline.Settled, not_forall, Bool.not_eq_false] at settled
            obtain ⟨upload, member, isSwitched⟩ := settled
            have fits := (inv.sound upload member).switched isSwitched
            intro known there isKnown isThere
            have isRecorded : known ∈ before.pipeline.recorded setting := by
              rw [recorded_of_state isBefore, isKnown]
              rfl
            rw [outside upload member isSwitched known isRecorded]
            exact fits upload.image there rfl isThere
        · rw [gone] at isAfter
          cases isAfter
  · cases restarted

/-- An operation outside of a switch keeps the invariant. -/
theorem inv_exec {op : DaemonOp Folder} (inv : Inv setting (Matches setting) before.pipeline)
    (outside : op.isRestart = true → ∀ upload ∈ before.pipeline.uploads,
      upload.work.isSwitched = true →
        ∀ image ∈ before.pipeline.recorded setting, image = upload.image)
    (stepped : before.exec setting op = some after) :
    (op.isRestart = true → after.pipeline.uploads = []) ∧
      Inv setting (Matches setting) after.pipeline := by
  cases op with
  | run op =>
      obtain ⟨pipeline, ran, stepped⟩ := Option.bind_eq_some_iff.mp stepped
      obtain rfl := Option.some.inj stepped
      refine ⟨nofun, inv.step ?_ ran fun _ _ => Or.inr nofun⟩
      rintro image folder holds _ _ ⟨⟩ ⟨⟩
      exact holds
  | restart names =>
      obtain ⟨none, inv⟩ := inv_restart inv (outside rfl) stepped
      exact ⟨fun _ => none, inv⟩
  | checkExists =>
      rw [Daemon.exec] at stepped
      split at stepped
      · obtain rfl := Option.some.inj stepped
        exact ⟨nofun, inv⟩
      · cases stepped
  | resume =>
      rw [Daemon.exec] at stepped
      split at stepped
      · obtain ⟨pipeline, requested, stepped⟩ := Option.bind_eq_some_iff.mp stepped
        obtain rfl := Option.some.inj stepped
        exact ⟨nofun, inv.request requested rfl⟩
      · cases stepped

/-- Recovery goes by `x.state` alone. It finds the image of it in place wherever no crash
came between the two renames of a replacement. -/
theorem state_matches {start finish : Daemon Folder} {trace : List (DaemonEvent Folder)}
    (rests : start.pipeline.AtRest) (agrees : start.Agrees setting)
    (steps : (daemonMachine setting).Steps start trace finish)
    (outside : ∀ event ∈ trace, CrashesOutside setting event) :
    ∀ event ∈ trace, event.op.isRestart = true ∨ event.after.pipeline.Settled →
      event.after.Agrees setting := by
  have exec (event : DaemonEvent Folder) (takes : (daemonMachine setting).Takes event) :
      event.before.exec setting event.op = some event.after := by
    obtain ⟨next, stepped, same⟩ := Option.map_eq_some_iff.mp takes
    rw [stepped]
    exact congrArg some (congrArg Prod.snd same)
  have initially : Inv setting (Matches setting) start.pipeline := by
    refine ⟨by simp [rests.1], by simp [rests.1], ?_, by simp [rests.2]⟩
    intro _ content isState
    rw [← recorded_of_state isState]
    exact agrees
  have kept := steps.preserves (fun daemon => Inv setting (Matches setting) daemon.pipeline)
    (CrashesOutside setting)
    (fun event takes allowed inv => (inv_exec inv allowed (exec event takes)).2) outside initially
  intro event member quiet
  obtain ⟨invBefore, invAfter⟩ := kept.2 event member
  have settled : event.after.pipeline.Settled := by
    rcases quiet with isRestart | settled
    · have stepped := exec event (steps.takes_of_mem member)
      have none := (inv_exec invBefore (outside event member) stepped).1 isRestart
      simp [Pipeline.Settled, none]
    · exact settled
  intro known there isKnown isThere
  obtain ⟨content, isState, isImage⟩ := Option.bind_eq_some_iff.mp isKnown
  exact invAfter.fits settled content isState known there isImage isThere

end Matching

namespace Sample

/-- Nothing is at the place. -/
def daemon : Daemon Disk.Folder := ⟨start, false, false⟩

/-- An image is put in the place of whatever is there. -/
def replace (image : ImageId) : Op Disk.Folder :=
  .replace ⟨∅, ∅⟩ Metadata.Sample.keys
    ⟨Metadata.Sample.path, image, none, 5, [Metadata.Sample.signature 1]⟩

/-- An image is there, and a replacement of it is about to be put in place. -/
def replacing : List (DaemonOp Disk.Folder) :=
  (upload (Metadata.Sample.image 1) ++
    filling (replace (Metadata.Sample.image 2))).map .run

/-- A restart at which both state files are listed. -/
def restart : DaemonOp Disk.Folder :=
  .restart [Metadata.stateFile Metadata.Sample.name, Metadata.newStateFile Metadata.Sample.name]

/-- The second image. -/
def linked : Disk.Folder := Finmap.singleton [Metadata.Sample.name] (.link (Path.ofText "b".toList))

/-- It is not the first, where the file `a` is no link. -/
theorem not_holds_linked : ¬ setting.Holds (Metadata.Sample.image 1) linked := by
  intro holds
  have isFile := Setting.has_of_holds holds ([Metadata.Sample.name],
    .file (Path.ofText "/a".toList) false 0 []) (by decide)
  obtain ⟨bytes, isFound, _⟩ := isFile
  have isLink : linked.found [Metadata.Sample.name] = some (.link (Path.ofText "b".toList)) := by
    decide
  rw [isLink] at isFound
  cases isFound

theorem agrees_daemon : daemon.Agrees setting := by
  intro known there isKnown
  cases isKnown

end Sample

/-- A crash before the directories are exchanged. -/
theorem state_matches_before_exchange :
    let run := (daemonMachine Sample.setting).play Sample.daemon
      (Sample.replacing ++ [Sample.restart, .checkExists])
    ∃ event ∈ run.1, event.op.isRestart = true ∧
      event.after.pipeline.recorded Sample.setting = some (Metadata.Sample.image 1) ∧
      (event.after.pipeline.place Sample.setting).isSome = true ∧
      event.after.Agrees Sample.setting := by
  intro run
  have outside : ∀ event ∈ run.1, CrashesOutside Sample.setting event := by decide +kernel
  have there : ∃ event ∈ run.1, event.op.isRestart = true ∧
      event.after.pipeline.recorded Sample.setting = some (Metadata.Sample.image 1) ∧
      (event.after.pipeline.place Sample.setting).isSome = true := by
    decide +kernel
  obtain ⟨event, member, isRestart, isRecorded, isPlace⟩ := there
  exact ⟨event, member, isRestart, isRecorded, isPlace,
    state_matches ⟨rfl, rfl⟩ Sample.agrees_daemon (Machine.Steps.of_play _ _ _) outside event member
      (Or.inl isRestart)⟩

/-- A crash after the directories were exchanged. The new image stays in place, and the
first scan removes the file that says so. -/
theorem old_state_after_exchange :
    let run := (daemonMachine Sample.setting).play Sample.daemon
      (Sample.replacing ++ [.run (.act 0), Sample.restart, .checkExists])
    Sample.daemon.pipeline.AtRest ∧ Sample.daemon.Agrees Sample.setting ∧
      run.1.length = 23 ∧ run.2.pipeline.AtRest ∧ ¬ run.2.Agrees Sample.setting := by
  intro run
  refine ⟨⟨rfl, rfl⟩, Sample.agrees_daemon, by decide +kernel,
    ⟨by decide +kernel, by decide +kernel⟩, ?_⟩
  intro agrees
  have isRecorded : run.2.pipeline.recorded Sample.setting = some (Metadata.Sample.image 1) := by
    decide +kernel
  have isPlace : run.2.pipeline.place Sample.setting = some Sample.linked := by decide +kernel
  exact Sample.not_holds_linked (agrees _ _ isRecorded isPlace)

end FetchDir

end Ciruela
