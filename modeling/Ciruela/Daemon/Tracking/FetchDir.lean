import Ciruela.Daemon.Disk.CommitImage
import Ciruela.Daemon.Tracking.Watched

/-!
# From a request to a directory

An upload of a path goes through three subsystems: the metadata accepts it and writes
`x.new.state`, the disk fills `.tmp.x` and puts it in the place of `x`, and the metadata
renames `x.new.state` to `x.state`. A cleanup goes the other way: the metadata removes
`x.state` under its lock, and later the disk removes `x`.

`Pipeline` is what all this leaves of one path, with the uploads and the cleanup that are
under way. No file operation fails, but a directory that is to be exchanged can be gone.
`Daemon` adds a crash at any point, the first scan after it and the uploads it resumes.
-/

namespace Ciruela

open Foundation

namespace FetchDir

open Disk (Action)
open Metadata (Env Io KeyFiles Meta Records tmpFile)

variable {Folder : Type}

/-- The path the uploads are for, and what can be in a directory. -/
structure Setting (Folder : Type) where
  env : Env
  vpath : VPath
  spot : Spot
  located : vpath.place = spot.place
  empty : Folder
  /-- The loop of `commit_image` over the entries of the index of an image: what it makes
  of a directory, and whether all files in it are as the index says. -/
  check : ImageId → Folder → Folder × Bool

namespace Setting

variable (setting : Setting Folder)

/-- The name of the directory of the image. -/
def name : FileName := setting.spot.name

/-- The directory has been checked, and it is this image. -/
def Holds (image : ImageId) (folder : Folder) : Prop :=
  ∃ before, setting.check image before = (folder, true)

/-- The setting of the source. The index of an image is known, and the directories have
files in them. What a check that fails leaves does not matter. -/
def ofIndexes (env : Env) {vpath : VPath} {spot : Spot} (located : vpath.place = spot.place)
    (checkFile : Disk.CheckFile) (index : ImageId → List Entry) : Setting Disk.Folder where
  env := env
  vpath := vpath
  spot := spot
  located := located
  empty := ∅
  check := fun image folder =>
    match Disk.commitEntries checkFile (index image) none folder with
    | .ok (.ok after) => (after, true)
    | _ => (folder, false)

/-- A directory that holds an image has every entry of its index. -/
theorem has_of_holds {env : Env} {vpath : VPath} {spot : Spot} {located : vpath.place = spot.place}
    {checkFile : Disk.CheckFile} {index : ImageId → List Entry} {image : ImageId}
    {folder : Disk.Folder} (holds : (ofIndexes env located checkFile index).Holds image folder) :
    ∀ found ∈ Disk.locate none (index image), folder.Has checkFile found.1 found.2 := by
  obtain ⟨before, passed⟩ := holds
  dsimp only [ofIndexes] at passed
  split at passed
  · rename_i after committed
    obtain rfl : after = folder := congrArg Prod.fst passed
    exact (Disk.commitEntries_ok committed).2
  · cases congrArg Prod.snd passed

end Setting

/-- What an upload is at. -/
inductive Work where
  | fetchIndex
  | startImage (rest : List Action)
  | fetchBlocks
  /-- `commit_image` has checked the files and looks for the directory next. -/
  | checked
  /-- The directory was or was not found. -/
  | switch (found : Bool)
  /-- The image is in its place, and the directory that was there goes away. -/
  | switched (rest : List Action)
  /-- The upload has failed, and the metadata does not know yet. -/
  | failed
deriving DecidableEq

/-- A download: its image and how far it has come. -/
structure Upload where
  image : ImageId
  work : Work
deriving DecidableEq

namespace Work

/-- The image is in its place, and `x.state` does not say so yet. -/
def isSwitched : Work → Bool
  | switched _ => true
  | _ => false

/-- What is in `.tmp.x` has been checked. -/
def isReady : Work → Bool
  | checked => true
  | switch _ => true
  | _ => false

/-- What is left to be done on the disk. -/
def rest : Work → List Action
  | startImage rest => rest
  | switched rest => rest
  | _ => []

end Work

/-- One place of a server: what is recorded, what is on the disk, and who is at work there. -/
structure Pipeline (Folder : Type) where
  store : Meta
  /-- The directories next to the image. -/
  disk : Files Folder
  uploads : List Upload
  /-- What a cleanup has left to do after it has removed `x.state`. -/
  cleanup : Option (List Action)

/-- What happens at the place. -/
inductive Op (Folder : Type) where
  | append (peers : Peers) (keys : KeyFiles) (params : AppendDir)
  | replace (peers : Peers) (keys : KeyFiles) (params : ReplaceDir)
  /-- The index is there. -/
  | startImage (position : Nat)
  /-- A block is written or a file is linked. -/
  | write (position : Nat) (folder : Folder)
  /-- All blocks are there. -/
  | commitImage (position : Nat)
  /-- The next step on the disk. -/
  | act (position : Nat)
  /-- The index or a block cannot be had. -/
  | fail (position : Nat)
  /-- `dir_committed` or `dir_aborted` of the metadata. -/
  | finish (position : Nat)
  | removeStateFile (time modified : Nat)
  /-- The next step of `remove_image`. -/
  | removeImage

/-- The operation of the cleanup. -/
def Op.isRemoveImage : Op Folder → Bool
  | removeImage => true
  | _ => false

/-- The upload that an effect of a handler starts. -/
def begun : Tracking.Effect → Option Upload
  | .fetchDir _ image _ => some ⟨image, .fetchIndex⟩
  | _ => none

namespace Pipeline

variable (pipeline : Pipeline Folder)

/-- Run a closure of the metadata and start what its answer starts. -/
def request (setting : Setting Folder) (peers : Peers) (op : Metadata.Op) :
    Option (Pipeline Folder) :=
  if op.vpath.place = setting.vpath.place then do
    let (answer, store) ← (Metadata.run setting.env pipeline.store op).toOption
    let effects ← (Tracking.proceed setting.env.config peers op answer).toOption
    return { pipeline with store := store, uploads := pipeline.uploads ++ effects.filterMap begun }
  else none

/-- An upload goes on with something else. -/
def setWork (position : Nat) (work : Work) : Pipeline Folder :=
  { pipeline with
    uploads := pipeline.uploads.modify position fun upload => { upload with work := work } }

/-- An upload ends. -/
def finish (setting : Setting Folder) (position : Nat) (op : Metadata.Op) :
    Option (Pipeline Folder) := do
  let (_, store) ← (Metadata.run setting.env pipeline.store op).toOption
  return { pipeline with store := store, uploads := pipeline.uploads.eraseIdx position }

/-- The next step of an upload on the disk. -/
def act (setting : Setting Folder) (position : Nat) : Work → Option (Pipeline Folder)
  | .startImage [] => some (pipeline.setWork position .fetchBlocks)
  | .startImage (action :: rest) =>
      some { pipeline.setWork position (.startImage rest) with
        disk := action.apply setting.empty pipeline.disk }
  | .checked => some (pipeline.setWork position (.switch (decide (setting.name ∈ pipeline.disk))))
  | .switch found =>
      match Disk.switch setting.name found pipeline.disk with
      | none => some (pipeline.setWork position .failed)
      | some disk =>
          let rest := if found then Disk.removeDirRecursive (tmpFile setting.name) else []
          some { pipeline.setWork position (.switched rest) with disk := disk }
  | .switched (action :: rest) =>
      some { pipeline.setWork position (.switched rest) with
        disk := action.apply setting.empty pipeline.disk }
  | _ => none

/-- The loop of `commit_image` over the entries of the index. -/
def commitImage (setting : Setting Folder) (position : Nat) (image : ImageId) : Pipeline Folder :=
  match pipeline.disk.lookup (tmpFile setting.name) with
  | none => pipeline.setWork position .failed
  | some folder =>
      let (after, good) := setting.check image folder
      { pipeline.setWork position (if good then .checked else .failed) with
        disk := pipeline.disk.insert (tmpFile setting.name) after }

/-- One step at the place. -/
def exec (setting : Setting Folder) : Op Folder → Option (Pipeline Folder)
  | .append peers keys params => pipeline.request setting peers (.startAppend Io.working keys params)
  | .replace peers keys params =>
      pipeline.request setting peers (.startReplace Io.working keys params)
  | .startImage position => do
      let upload ← pipeline.uploads[position]?
      if upload.work = .fetchIndex then
        some (pipeline.setWork position (.startImage (Disk.startImage setting.name)))
      else none
  | .write position folder => do
      let upload ← pipeline.uploads[position]?
      if upload.work = .fetchBlocks ∧ tmpFile setting.name ∈ pipeline.disk then
        some { pipeline with disk := pipeline.disk.insert (tmpFile setting.name) folder }
      else none
  | .commitImage position => do
      let upload ← pipeline.uploads[position]?
      if upload.work = .fetchBlocks then some (pipeline.commitImage setting position upload.image)
      else none
  | .act position => do
      let upload ← pipeline.uploads[position]?
      pipeline.act setting position upload.work
  | .fail position => do
      let upload ← pipeline.uploads[position]?
      if upload.work = .fetchIndex ∨ upload.work = .fetchBlocks then
        some (pipeline.setWork position .failed)
      else none
  | .finish position => do
      let upload ← pipeline.uploads[position]?
      match upload.work with
      | .switched [] => pipeline.finish setting position (.dirCommitted Io.working setting.vpath)
      | .failed => pipeline.finish setting position (.dirAborted Io.working setting.vpath)
      | _ => none
  | .removeStateFile time modified =>
      match pipeline.cleanup with
      | some _ => none
      | none => do
          let op := Metadata.Op.removeStateFile Io.working setting.vpath time modified
          let (answer, store) ← (Metadata.run setting.env pipeline.store op).toOption
          let cleanup := match answer with
            | .removed (.ok _) => some (Disk.removeImage setting.name)
            | _ => none
          return { pipeline with store := store, cleanup := cleanup }
  | .removeImage =>
      match pipeline.cleanup with
      | none => none
      | some [] => some { pipeline with cleanup := none }
      | some (action :: rest) =>
          some { pipeline with
            disk := action.apply setting.empty pipeline.disk, cleanup := some rest }

end Pipeline

/-- The steps of the uploads and the cleanup of a path, in any order. -/
def machine (setting : Setting Folder) : Machine (Pipeline Folder) (Op Folder) Unit :=
  ⟨fun pipeline op => (pipeline.exec setting op).map fun next => ((), next)⟩

/-- A step at the place. -/
abbrev Event (Folder : Type) := Transition (Pipeline Folder) (Op Folder) Unit

/-- The image a state file records. -/
def imageOf : Metadata.Content → Option ImageId
  | .state state => some state.image
  | .broken => none

namespace Pipeline

variable (setting : Setting Folder) (pipeline : Pipeline Folder)

/-- What the metadata records of the place. -/
def record : Metadata.Record := pipeline.store.record setting.spot

/-- The directory of the image. -/
def place : Option Folder := pipeline.disk.lookup setting.name

/-- No upload is between putting its image in place and committing it. -/
def Settled : Prop := ∀ upload ∈ pipeline.uploads, upload.work.isSwitched = false

/-- Nothing is under way. -/
def AtRest : Prop := pipeline.uploads = [] ∧ pipeline.cleanup = none

/-- The next step of the cleanup renames the directory of the image away. -/
def Removes : Prop := pipeline.cleanup.bind List.head? = some (.moveAside setting.name)

end Pipeline

section Invariant

/-- What an upload relies on while it is under way. `Fits` says what the directory of an
image has to be like. -/
structure Sound (setting : Setting Folder) (Fits : Option ImageId → Option Folder → Prop)
    (pipeline : Pipeline Folder) (upload : Upload) : Prop where
  held : Tracking.Held (pipeline.record setting) upload.image
  ready : upload.work.isReady = true →
    ∃ folder, pipeline.disk.lookup (tmpFile setting.name) = some folder ∧
      setting.Holds upload.image folder
  switched : upload.work.isSwitched = true → Fits (some upload.image) (pipeline.place setting)
  apart : ∀ action ∈ upload.work.rest, setting.name ∉ action.names

/-- What holds at the place in every state: one download at most, and the directory fits the
record. -/
structure Inv (setting : Setting Folder) (Fits : Option ImageId → Option Folder → Prop)
    (pipeline : Pipeline Folder) : Prop where
  single : pipeline.uploads.length ≤ 1
  sound : ∀ upload ∈ pipeline.uploads, Sound setting Fits pipeline upload
  fits : pipeline.Settled → ∀ content, (pipeline.record setting).state = some content →
    Fits (imageOf content) (pipeline.place setting)
  cleaning : ∀ rest, pipeline.cleanup = some rest → ∀ action ∈ rest,
    tmpFile setting.name ∉ action.names ∧
      (action = .moveAside setting.name ∨ setting.name ∉ action.names)

variable {setting : Setting Folder} {Fits : Option ImageId → Option Folder → Prop}
  {pipeline after : Pipeline Folder}

/-- An operation of the metadata that ends no upload keeps the image of `x.state`, or
takes the file away. -/
theorem state_of_change {env : Env} {before after : Metadata.Record} {op : Metadata.Op}
    {answer : Metadata.Answer} (change : Metadata.Change env before op answer after)
    (unfinished : op.finishes = false) :
    after.state = none ∨ after.state.map imageOf = before.state.map imageOf := by
  cases change with
  | kept => exact Or.inr rfl
  | begun => exact Or.inr rfl
  | extended => exact Or.inr rfl
  | merged _ _ _ committed =>
      right
      rw [committed]
      rfl
  | unsaved => exact Or.inr rfl
  | resumed => exact Or.inl rfl
  | resumedNew => exact Or.inr rfl
  | aborted => simp [Metadata.Op.finishes] at unfinished
  | committed => simp [Metadata.Op.finishes] at unfinished
  | unfinished _ _ finishes => simp [finishes] at unfinished
  | removed => exact Or.inl rfl

/-- Giving up a download leaves the state as it was. -/
theorem state_of_dirAborted {env : Env} {before after : Metadata.Record} {io : Io} {vpath : VPath}
    {answer : Metadata.Answer}
    (change : Metadata.Change env before (.dirAborted io vpath) answer after) :
    after.state = before.state := by
  cases change with
  | kept => rfl
  | begun => rfl
  | extended => rfl
  | merged asked => simp [Metadata.Op.demand] at asked
  | unsaved => rfl
  | aborted => rfl
  | unfinished => rfl

/-- Where there is one upload at most, an upload that is found is all there is. -/
theorem eq_singleton {uploads : List Upload} {position : Nat} {upload : Upload}
    (single : uploads.length ≤ 1) (found : uploads[position]? = some upload) :
    uploads = [upload] ∧ position = 0 := by
  obtain ⟨inside, isUpload⟩ := List.getElem?_eq_some_iff.mp found
  obtain rfl : position = 0 := by omega
  obtain ⟨only, rfl⟩ := List.length_eq_one_iff.mp (show uploads.length = 1 by omega)
  exact ⟨by simpa using isUpload, rfl⟩

namespace Inv

/-- An operation of the metadata that ends no upload. -/
theorem change (inv : Inv setting Fits pipeline) {op : Metadata.Op} {answer : Metadata.Answer}
    {store : Meta} (located : op.vpath.place = setting.vpath.place)
    (ran : Metadata.run setting.env pipeline.store op = .ok (answer, store))
    (unfinished : op.finishes = false) : Inv setting Fits { pipeline with store := store } := by
  obtain ⟨_, change⟩ := Metadata.run_at (located.trans setting.located) ran
  refine ⟨inv.single, ?_, ?_, inv.cleaning⟩
  · intro upload member
    have sound := inv.sound upload member
    exact ⟨sound.held.change change unfinished, sound.ready, sound.switched, sound.apart⟩
  · intro settled content isState
    have isAfter : (store.record setting.spot).state = some content := isState
    rcases state_of_change change unfinished with gone | same
    · rw [gone] at isAfter
      cases isAfter
    · rw [isAfter, Option.map_some, eq_comm, Option.map_eq_some_iff] at same
      obtain ⟨old, isOld, sameImage⟩ := same
      rw [← sameImage]
      exact inv.fits settled old isOld

/-- A request is answered, and a new upload may begin. -/
theorem request (inv : Inv setting Fits pipeline) {peers : Peers} {op : Metadata.Op}
    (requested : pipeline.request setting peers op = some after) (unfinished : op.finishes = false) :
    Inv setting Fits after := by
  unfold Pipeline.request at requested
  split at requested
  · rename_i located
    obtain ⟨⟨answer, store⟩, ran, requested⟩ := Option.bind_eq_some_iff.mp requested
    obtain ⟨effects, proceeds, requested⟩ := Option.bind_eq_some_iff.mp requested
    obtain rfl := Option.some.inj requested
    have ran := Run.ok_of_toOption ran
    have changed := inv.change located ran unfinished
    have nothing (none : effects.filterMap begun = []) :
        Inv setting Fits { pipeline with
          store := store, uploads := pipeline.uploads ++ effects.filterMap begun } := by
      rw [none, List.append_nil]
      exact changed
    rcases Tracking.proceed_cases (Run.ok_of_toOption proceeds) with rfl | ⟨image, path, rfl⟩ |
      ⟨path, image, replacing, rfl, owns, _⟩ | ⟨path, image, rfl, _⟩
    · exact nothing rfl
    · exact nothing rfl
    · obtain ⟨_, change⟩ := Metadata.run_at (located.trans setting.located) ran
      obtain ⟨vacant, _, held⟩ := Tracking.held_of_owns change owns
      -- an upload that is under way would have its entry in `writing`
      have free : pipeline.uploads = [] := by
        rw [List.eq_nil_iff_forall_not_mem]
        intro upload member
        obtain ⟨writing, entry, _⟩ := (inv.sound upload member).held
        rw [Pipeline.record, vacant] at entry
        cases entry
      have only :
          pipeline.uploads ++ [Tracking.Effect.fetchDir path image replacing].filterMap begun =
            [⟨image, .fetchIndex⟩] := by
        rw [free]
        rfl
      rw [only]
      refine ⟨by simp, ?_, ?_, inv.cleaning⟩
      · intro upload member
        obtain rfl := List.mem_singleton.mp member
        exact ⟨held, nofun, nofun, nofun⟩
      · intro _ content isState
        exact changed.fits (by simp [Pipeline.Settled, free]) content isState
    · exact nothing rfl
  · cases requested

/-- An upload goes on without touching the place of its image. -/
theorem setWork (inv : Inv setting Fits pipeline) {position : Nat} {upload : Upload} {work : Work}
    {disk : Files Folder} (found : pipeline.uploads[position]? = some upload)
    (same : disk.lookup setting.name = pipeline.disk.lookup setting.name)
    (switched : work.isSwitched = upload.work.isSwitched)
    (ready : work.isReady = true →
      ∃ folder, disk.lookup (tmpFile setting.name) = some folder ∧
        setting.Holds upload.image folder)
    (apart : ∀ action ∈ work.rest, setting.name ∉ action.names) :
    Inv setting Fits { pipeline.setWork position work with disk := disk } := by
  obtain ⟨only, rfl⟩ := eq_singleton inv.single found
  have sound := inv.sound upload (List.mem_of_getElem? found)
  have isAfter : (pipeline.setWork 0 work).uploads = [⟨upload.image, work⟩] := by
    rw [Pipeline.setWork, only]
    rfl
  refine ⟨by simp [isAfter], ?_, ?_, inv.cleaning⟩
  · intro other member
    rw [show other = ⟨upload.image, work⟩ by simpa [isAfter] using member]
    refine ⟨sound.held, ready, ?_, apart⟩
    intro isSwitched
    rw [Pipeline.place, same]
    exact sound.switched (switched ▸ isSwitched)
  · intro settled content isState
    rw [Pipeline.place, same]
    refine inv.fits ?_ content isState
    intro other member
    rw [show other = upload by simpa [only] using member, ← switched]
    exact settled ⟨upload.image, work⟩ (by simp [isAfter])

/-- The check of a download keeps the invariant. -/
theorem commitImage (inv : Inv setting Fits pipeline) {position : Nat} {upload : Upload}
    (found : pipeline.uploads[position]? = some upload) (isFetching : upload.work = .fetchBlocks) :
    Inv setting Fits (pipeline.commitImage setting position upload.image) := by
  have notSwitched : upload.work.isSwitched = false := by
    rw [isFetching]
    rfl
  unfold Pipeline.commitImage
  split
  · exact inv.setWork found rfl notSwitched.symm nofun nofun
  · rename_i folder _
    have kept (after : Folder) :
        (pipeline.disk.insert (tmpFile setting.name) after).lookup setting.name =
          pipeline.disk.lookup setting.name := by
      rw [Map.lookup_insert_eq, if_neg (Metadata.tmpFile_ne_self _).symm]
    rcases checked : setting.check upload.image folder with ⟨after, good⟩
    cases good with
    | true =>
        refine inv.setWork found (kept after) notSwitched.symm ?_ nofun
        intro _
        exact ⟨after, Finmap.lookup_insert _, folder, checked⟩
    | false => exact inv.setWork found (kept after) notSwitched.symm nofun nofun

/-- The image is put in its place. -/
theorem switch (inv : Inv setting Fits pipeline)
    (good : ∀ image folder, setting.Holds image folder → Fits (some image) (some folder))
    {position : Nat} {upload : Upload} {rest : List Action} {isThere : Bool} {disk : Files Folder}
    (found : pipeline.uploads[position]? = some upload) (isReady : upload.work.isReady = true)
    (switched : Disk.switch setting.name isThere pipeline.disk = some disk)
    (apart : ∀ action ∈ rest, setting.name ∉ action.names) :
    Inv setting Fits { pipeline.setWork position (.switched rest) with disk := disk } := by
  obtain ⟨only, rfl⟩ := eq_singleton inv.single found
  have sound := inv.sound upload (List.mem_of_getElem? found)
  obtain ⟨folder, isFolder, holds⟩ := sound.ready isReady
  have isAfter :
      (pipeline.setWork 0 (.switched rest)).uploads = [⟨upload.image, .switched rest⟩] := by
    rw [Pipeline.setWork, only]
    rfl
  refine ⟨by simp [isAfter], ?_, ?_, inv.cleaning⟩
  · intro other member
    rw [show other = ⟨upload.image, .switched rest⟩ by simpa [isAfter] using member]
    refine ⟨sound.held, nofun, ?_, apart⟩
    intro _
    rw [Pipeline.place, Disk.lookup_switch switched, isFolder]
    exact good upload.image folder holds
  · intro settled
    have impossible := settled ⟨upload.image, .switched rest⟩ (by simp [isAfter])
    cases impossible

/-- One action of a download keeps the invariant. -/
theorem act (inv : Inv setting Fits pipeline)
    (good : ∀ image folder, setting.Holds image folder → Fits (some image) (some folder))
    {position : Nat} {upload : Upload} (found : pipeline.uploads[position]? = some upload)
    (acted : pipeline.act setting position upload.work = some after) : Inv setting Fits after := by
  have sound := inv.sound upload (List.mem_of_getElem? found)
  -- a step of `start_image`, or of the removal of what was exchanged
  have step {action : Action} {rest : List Action} {work : Work}
      (isRest : upload.work.rest = action :: rest) (stays : work.rest = rest)
      (switched : work.isSwitched = upload.work.isSwitched) (notReady : work.isReady = false) :
      Inv setting Fits { pipeline.setWork position work with
        disk := action.apply setting.empty pipeline.disk } := by
    have apart := sound.apart
    rw [isRest] at apart
    refine inv.setWork found ?_ switched (by simp [notReady]) ?_
    · exact Disk.Action.lookup_apply (apart action List.mem_cons_self)
    · rw [stays]
      exact fun other member => apart other (List.mem_cons_of_mem _ member)
  unfold Pipeline.act at acted
  split at acted
  · rename_i isWork
    obtain rfl := Option.some.inj acted
    exact inv.setWork found rfl (by rw [isWork]; rfl) nofun nofun
  · rename_i action rest isWork
    obtain rfl := Option.some.inj acted
    exact step (by rw [isWork]; rfl) rfl (by rw [isWork]; rfl) rfl
  · rename_i isWork
    obtain rfl := Option.some.inj acted
    exact inv.setWork found rfl (by rw [isWork]; rfl)
      (fun _ => sound.ready (by rw [isWork]; rfl)) nofun
  · rename_i isThere isWork
    split at acted
    · obtain rfl := Option.some.inj acted
      exact inv.setWork found rfl (by rw [isWork]; rfl) nofun nofun
    · rename_i disk switched
      obtain rfl := Option.some.inj acted
      refine inv.switch good found (by rw [isWork]; rfl) switched ?_
      intro action member
      split at member
      · exact Disk.notMem_of_startImage (List.mem_append_left _ member)
      · cases member
  · rename_i action rest isWork
    obtain rfl := Option.some.inj acted
    exact step (by rw [isWork]; rfl) rfl (by rw [isWork]; rfl) rfl
  · cases acted

/-- The upload that was under way has ended, and what `x.state` records is in place. -/
theorem ended (inv : Inv setting Fits pipeline) {position : Nat} {upload : Upload} {store : Meta}
    (found : pipeline.uploads[position]? = some upload)
    (fits : ∀ content, (store.record setting.spot).state = some content →
      Fits (imageOf content) (pipeline.place setting)) :
    Inv setting Fits
      { pipeline with store := store, uploads := pipeline.uploads.eraseIdx position } := by
  obtain ⟨only, rfl⟩ := eq_singleton inv.single found
  have none : pipeline.uploads.eraseIdx 0 = [] := by rw [only, List.eraseIdx_zero, List.tail_cons]
  rw [none]
  exact ⟨by simp, by simp, fun _ => fits, inv.cleaning⟩

/-- The commit of a download keeps the invariant. -/
theorem committed (inv : Inv setting Fits pipeline) {position : Nat} {upload : Upload}
    (found : pipeline.uploads[position]? = some upload)
    (isSwitched : upload.work.isSwitched = true)
    (finished : pipeline.finish setting position (.dirCommitted Io.working setting.vpath) =
      some after) : Inv setting Fits after := by
  have located : (Metadata.Op.dirCommitted Io.working setting.vpath).vpath.place =
      setting.spot.place := setting.located
  obtain ⟨⟨answer, store⟩, ran, finished⟩ := Option.bind_eq_some_iff.mp finished
  obtain rfl := Option.some.inj finished
  obtain ⟨_, change⟩ := Metadata.run_at located (Run.ok_of_toOption ran)
  have sound := inv.sound upload (List.mem_of_getElem? found)
  obtain ⟨state, isState, sameImage⟩ := sound.held.commit change Metadata.Io.not_faulty_working
  refine inv.ended found ?_
  intro content isContent
  obtain rfl := Option.some.inj (isState.symm.trans isContent)
  rw [imageOf, sameImage]
  exact sound.switched isSwitched

/-- Giving up a download keeps the invariant. -/
theorem aborted (inv : Inv setting Fits pipeline) {position : Nat} {upload : Upload}
    (found : pipeline.uploads[position]? = some upload)
    (notSwitched : upload.work.isSwitched = false)
    (finished : pipeline.finish setting position (.dirAborted Io.working setting.vpath) =
      some after) : Inv setting Fits after := by
  have located : (Metadata.Op.dirAborted Io.working setting.vpath).vpath.place =
      setting.spot.place := setting.located
  obtain ⟨⟨answer, store⟩, ran, finished⟩ := Option.bind_eq_some_iff.mp finished
  obtain rfl := Option.some.inj finished
  obtain ⟨_, change⟩ := Metadata.run_at located (Run.ok_of_toOption ran)
  refine inv.ended found ?_
  intro content isContent
  rw [state_of_dirAborted change] at isContent
  refine inv.fits ?_ content isContent
  intro other member
  obtain ⟨only, rfl⟩ := eq_singleton inv.single found
  rwa [show other = upload by simpa [only] using member]

/-- Removing the state file keeps the invariant. -/
theorem removeStateFile (inv : Inv setting Fits pipeline) {time modified : Nat}
    (removed : pipeline.exec setting (.removeStateFile time modified) = some after) :
    Inv setting Fits after := by
  unfold Pipeline.exec at removed
  dsimp only at removed
  split at removed
  · cases removed
  · obtain ⟨⟨answer, store⟩, ran, removed⟩ := Option.bind_eq_some_iff.mp removed
    obtain rfl := Option.some.inj removed
    have changed := inv.change rfl (Run.ok_of_toOption ran) rfl
    refine ⟨changed.single, ?_, changed.fits, ?_⟩
    · intro upload member
      have sound := changed.sound upload member
      exact ⟨sound.held, sound.ready, sound.switched, sound.apart⟩
    · intro rest isRest action member
      dsimp only at isRest
      split at isRest
      · obtain rfl := Option.some.inj isRest
        exact Disk.of_mem_removeImage member
      · cases isRest

/-- Another disk, where what is ready stays and the place of the image is good for all who
rely on it. -/
theorem setDisk (inv : Inv setting Fits pipeline) {disk : Files Folder}
    {cleanup : Option (List Action)}
    (ready : ∀ upload ∈ pipeline.uploads, upload.work.isReady = true →
      disk.lookup (tmpFile setting.name) = pipeline.disk.lookup (tmpFile setting.name))
    (switched : ∀ upload ∈ pipeline.uploads, upload.work.isSwitched = true →
      Fits (some upload.image) (disk.lookup setting.name))
    (fits : pipeline.Settled → ∀ content, (pipeline.record setting).state = some content →
      Fits (imageOf content) (disk.lookup setting.name))
    (cleaning : ∀ rest, cleanup = some rest → ∀ action ∈ rest, tmpFile setting.name ∉ action.names ∧
      (action = .moveAside setting.name ∨ setting.name ∉ action.names)) :
    Inv setting Fits { pipeline with disk := disk, cleanup := cleanup } := by
  refine ⟨inv.single, ?_, fits, cleaning⟩
  intro upload member
  have sound := inv.sound upload member
  refine ⟨sound.held, ?_, switched upload member, sound.apart⟩
  intro isReady
  rw [ready upload member isReady]
  exact sound.ready isReady

/-- A step of the removal. Where it renames the image away, nothing may rely on it. -/
theorem removeImage (inv : Inv setting Fits pipeline)
    (clears : pipeline.Removes setting →
      pipeline.Settled ∧ (pipeline.record setting).state = none ∨ ∀ image, Fits image none)
    (removed : pipeline.exec setting .removeImage = some after) : Inv setting Fits after := by
  unfold Pipeline.exec at removed
  dsimp only at removed
  split at removed
  · cases removed
  · obtain rfl := Option.some.inj removed
    exact inv.setDisk (fun _ _ _ => rfl) (fun upload member => (inv.sound upload member).switched)
      inv.fits nofun
  · rename_i action rest isCleanup
    obtain rfl := Option.some.inj removed
    obtain ⟨notTmp, onPlace⟩ := inv.cleaning _ isCleanup action List.mem_cons_self
    have later : ∀ left, some rest = some left → ∀ action ∈ left,
        tmpFile setting.name ∉ action.names ∧
          (action = .moveAside setting.name ∨ setting.name ∉ action.names) := by
      rintro _ ⟨⟩ other member
      exact inv.cleaning _ isCleanup other (List.mem_cons_of_mem _ member)
    refine inv.setDisk (fun _ _ _ => Disk.Action.lookup_apply notTmp) ?_ ?_ later
    · intro upload member isSwitched
      rcases onPlace with rfl | outside
      · rcases clears (by rw [Pipeline.Removes, isCleanup]; rfl) with ⟨settled, _⟩ | fits
        · rw [settled upload member] at isSwitched
          cases isSwitched
        · rw [Disk.lookup_moveAside]
          exact fits _
      · rw [Disk.Action.lookup_apply outside]
        exact (inv.sound upload member).switched isSwitched
    · intro settled content isState
      rcases onPlace with rfl | outside
      · rcases clears (by rw [Pipeline.Removes, isCleanup]; rfl) with ⟨_, noState⟩ | fits
        · rw [noState] at isState
          cases isState
        · rw [Disk.lookup_moveAside]
          exact fits _
      · rw [Disk.Action.lookup_apply outside]
        exact inv.fits settled content isState

/-- Every step keeps the invariant, as long as no removal takes away what is relied on. -/
theorem step (inv : Inv setting Fits pipeline)
    (good : ∀ image folder, setting.Holds image folder → Fits (some image) (some folder))
    {op : Op Folder} (stepped : pipeline.exec setting op = some after)
    (clears : op.isRemoveImage = true → pipeline.Removes setting →
      pipeline.Settled ∧ (pipeline.record setting).state = none ∨ ∀ image, Fits image none) :
    Inv setting Fits after := by
  cases op with
  | append peers keys params => exact inv.request stepped rfl
  | replace peers keys params => exact inv.request stepped rfl
  | startImage position =>
      obtain ⟨upload, found, stepped⟩ := Option.bind_eq_some_iff.mp stepped
      split at stepped
      · rename_i isWork
        obtain rfl := Option.some.inj stepped
        exact inv.setWork found rfl (by rw [isWork]; rfl) nofun
          fun action member => Disk.notMem_of_startImage member
      · cases stepped
  | write position folder =>
      obtain ⟨upload, found, stepped⟩ := Option.bind_eq_some_iff.mp stepped
      split at stepped
      · rename_i allowed
        obtain rfl := Option.some.inj stepped
        obtain ⟨only, _⟩ := eq_singleton inv.single found
        have same : (pipeline.disk.insert (tmpFile setting.name) folder).lookup setting.name =
            pipeline.disk.lookup setting.name := by
          rw [Map.lookup_insert_eq, if_neg (Metadata.tmpFile_ne_self _).symm]
        refine inv.setDisk ?_ ?_ ?_ inv.cleaning
        · intro other member isReady
          rw [show other = upload by simpa [only] using member, allowed.1] at isReady
          cases isReady
        · intro other member isSwitched
          rw [same]
          exact (inv.sound other member).switched isSwitched
        · intro settled content isState
          rw [same]
          exact inv.fits settled content isState
      · cases stepped
  | commitImage position =>
      obtain ⟨upload, found, stepped⟩ := Option.bind_eq_some_iff.mp stepped
      split at stepped
      · rename_i isWork
        obtain rfl := Option.some.inj stepped
        exact inv.commitImage found isWork
      · cases stepped
  | act position =>
      obtain ⟨upload, found, stepped⟩ := Option.bind_eq_some_iff.mp stepped
      exact inv.act good found stepped
  | fail position =>
      obtain ⟨upload, found, stepped⟩ := Option.bind_eq_some_iff.mp stepped
      split at stepped
      · rename_i isWork
        obtain rfl := Option.some.inj stepped
        refine inv.setWork found rfl ?_ nofun nofun
        rcases isWork with isWork | isWork
        · rw [isWork]
          rfl
        · rw [isWork]
          rfl
      · cases stepped
  | finish position =>
      obtain ⟨upload, found, stepped⟩ := Option.bind_eq_some_iff.mp stepped
      split at stepped
      · rename_i isWork
        exact inv.committed found (by rw [isWork]; rfl) stepped
      · rename_i isWork
        exact inv.aborted found (by rw [isWork]; rfl) stepped
      · cases stepped
  | removeStateFile time modified => exact inv.removeStateFile stepped
  | removeImage => exact inv.removeImage (clears rfl) stepped

end Inv

end Invariant

section Backed

variable (setting : Setting Folder)

/-- The directory is there, and it holds the image. -/
def Present (image : Option ImageId) (folder : Option Folder) : Prop :=
  ∃ known there, image = some known ∧ folder = some there ∧ setting.Holds known there

/-- If there is an `x.state`, the image it records is in its place. -/
def Pipeline.Backed (pipeline : Pipeline Folder) : Prop :=
  ∀ content, (pipeline.record setting).state = some content →
    Present setting (imageOf content) (pipeline.place setting)

/-- When the directory is renamed away, there is no `x.state`, and no upload is about to
make one. -/
def RemovesInTime (event : Event Folder) : Prop :=
  event.op.isRemoveImage = true → event.before.Removes setting →
    event.before.Settled ∧ (event.before.record setting).state = none

variable {setting}

/-- `x.state` goes under the lock, but the directory goes later and without it. So an
upload can be accepted in between, and the removal must not come after it has put its
image in place. -/
theorem state_backed {start finish : Pipeline Folder} {trace : List (Event Folder)}
    (rests : start.AtRest) (backed : start.Backed setting)
    (steps : (machine setting).Steps start trace finish)
    (inTime : ∀ event ∈ trace, RemovesInTime setting event) :
    ∀ event ∈ trace, event.after.AtRest → event.after.Backed setting := by
  have initially : Inv setting (Present setting) start := by
    refine ⟨by simp [rests.1], by simp [rests.1], fun _ => backed, ?_⟩
    simp [rests.2]
  have kept := steps.preserves (Inv setting (Present setting)) (RemovesInTime setting) ?_ inTime
    initially
  · intro event member atRest
    refine (kept.2 event member).2.fits ?_
    simp [Pipeline.Settled, atRest.1]
  · intro event takes isInTime inv
    obtain ⟨next, stepped, same⟩ := Option.map_eq_some_iff.mp takes
    obtain rfl : next = event.after := congrArg Prod.snd same
    refine inv.step ?_ stepped fun removes isNext => Or.inl (isInTime removes isNext)
    exact fun image folder holds => ⟨image, folder, rfl, rfl, holds⟩

end Backed

instance (event : Event Folder) (setting : Setting Folder) :
    Decidable (RemovesInTime setting event) :=
  inferInstanceAs (Decidable (_ → (_ = _) → (∀ upload ∈ _, _ = _) ∧ _ = _))

section CommitImage

variable {setting : Setting Folder} {pipeline : Pipeline Folder} {position : Nat} {upload : Upload}

/-- What an upload is at after it has gone on. -/
theorem getElem?_setWork (found : pipeline.uploads[position]? = some upload) (work : Work) :
    (pipeline.setWork position work).uploads[position]? = some { upload with work := work } := by
  simp [Pipeline.setWork, found]

/-- Only what the upload is at last counts. -/
theorem setWork_setWork (first second : Work) :
    (pipeline.setWork position first).setWork position second =
      pipeline.setWork position second := by
  simp only [Pipeline.setWork, List.modify_modify_eq]
  rfl

/-- An upload on the disk goes on. -/
theorem takes_act {next : Pipeline Folder} (found : pipeline.uploads[position]? = some upload)
    (acted : pipeline.act setting position upload.work = some next) :
    (machine setting).Takes ⟨pipeline, .act position, (), next⟩ := by
  simp [Machine.Takes, machine, Pipeline.exec, found, acted]

/-- The directory that was in the place goes away step by step. -/
theorem steps_switched (found : pipeline.uploads[position]? = some upload) (rest : List Action) :
    ∃ trace, (machine setting).Steps (pipeline.setWork position (.switched rest)) trace
      { pipeline.setWork position (.switched []) with
        disk := rest.foldl (Action.apply setting.empty) pipeline.disk } := by
  induction rest generalizing pipeline with
  | nil => exact ⟨[], .refl⟩
  | cons action rest ih =>
      let next : Pipeline Folder :=
        { pipeline with disk := action.apply setting.empty pipeline.disk }
      obtain ⟨trace, later⟩ := ih (show next.uploads[position]? = some upload from found)
      have acts : (machine setting).Takes ⟨pipeline.setWork position (.switched (action :: rest)),
          .act position, (), _⟩ := takes_act (getElem?_setWork found _) rfl
      rw [setWork_setWork] at acts
      exact ⟨_, .cons acts later⟩

/-- The files are checked and the directory is switched, and then what was there goes away. -/
theorem steps_commit {image : ImageId} {folder checked : Folder} {switched : Files Folder}
    (found : pipeline.uploads[position]? = some ⟨image, .fetchBlocks⟩)
    (there : pipeline.disk.lookup (tmpFile setting.name) = some folder)
    (good : setting.check image folder = (checked, true))
    (isSwitched : Disk.switch setting.name (decide (setting.name ∈ pipeline.disk))
      (pipeline.disk.insert (tmpFile setting.name) checked) = some switched) :
    ∃ trace, (machine setting).Steps pipeline trace
      { pipeline.setWork position (.switched []) with
        disk := (if decide (setting.name ∈ pipeline.disk) then
          Disk.removeDirRecursive (tmpFile setting.name) else []).foldl
            (Action.apply setting.empty) switched } := by
  let filled : Pipeline Folder :=
    { pipeline with disk := pipeline.disk.insert (tmpFile setting.name) checked }
  let isThere := decide (setting.name ∈ pipeline.disk)
  let rest := if isThere then Disk.removeDirRecursive (tmpFile setting.name) else []
  have filledFound : filled.uploads[position]? = some ⟨image, .fetchBlocks⟩ := found
  -- the temporary directory has another name, so it does not change what is found
  have same : decide (setting.name ∈ filled.disk) = isThere := by
    rw [decide_eq_decide, Map.mem_iff_lookup_ne_none, Map.mem_iff_lookup_ne_none,
      Map.lookup_insert_eq, if_neg (Metadata.tmpFile_ne_self setting.name).symm]
  have checks : (machine setting).Takes
      ⟨pipeline, .commitImage position, (), filled.setWork position .checked⟩ := by
    simp [Machine.Takes, machine, Pipeline.exec, found, Pipeline.commitImage, there, good, filled,
      Pipeline.setWork]
  have looks : (machine setting).Takes ⟨filled.setWork position .checked, .act position, (),
      filled.setWork position (.switch isThere)⟩ := by
    refine takes_act (getElem?_setWork filledFound .checked) ?_
    simp only [Pipeline.act, setWork_setWork, ← same]
    rfl
  have switches : (machine setting).Takes
      ⟨filled.setWork position (.switch isThere), .act position, (),
        { filled.setWork position (.switched rest) with disk := switched }⟩ := by
    refine takes_act (getElem?_setWork filledFound _) ?_
    have exchanged : Disk.switch setting.name isThere
        (filled.setWork position (.switch isThere)).disk = some switched := isSwitched
    simp only [Pipeline.act, exchanged, setWork_setWork, rest]
  let moved : Pipeline Folder := { pipeline with disk := switched }
  have movedFound : moved.uploads[position]? = some ⟨image, .fetchBlocks⟩ := found
  obtain ⟨trace, removes⟩ := steps_switched movedFound rest
  exact ⟨_, .cons checks (.cons looks (.cons switches removes))⟩

/-- `commit_image` in one piece is a run of the steps of the upload. -/
theorem steps_of_commitImage {env : Env} {vpath : VPath} {spot : Spot}
    {located : vpath.place = spot.place} {checkFile : Disk.CheckFile}
    {index : ImageId → List Entry} {pipeline : Pipeline Disk.Folder} {image : ImageId}
    {after : Files Disk.Folder}
    (found : pipeline.uploads[position]? = some ⟨image, .fetchBlocks⟩)
    (committed : Disk.commitImage checkFile (index image) spot.name pipeline.disk =
      .ok (.ok after)) :
    ∃ trace, (machine (.ofIndexes env located checkFile index)).Steps pipeline trace
      { pipeline.setWork position (.switched []) with disk := after } := by
  obtain ⟨folder, checked, switched, there, passed, isSwitched, rfl⟩ :=
    Disk.commitImage_ok committed
  refine steps_commit found there ?_ isSwitched
  simp only [Setting.ofIndexes, passed]

end CommitImage

namespace Sample

/-- The first image has an empty file `a` in it, any other a link. -/
def index (image : ImageId) : List Entry :=
  [.dir (Path.ofText "/".toList),
    if image = Metadata.Sample.image 1 then .file (Path.ofText "/a".toList) false 0 []
    else .link (Path.ofText "/a".toList) (Path.ofText "b".toList)]

theorem located : Metadata.Sample.path.place = Metadata.Sample.spot.place := by decide

/-- No file here has anything in it to be compared. -/
def setting : Setting Disk.Folder :=
  .ofIndexes (Metadata.Sample.env false) located (fun _ _ => false) index

/-- Nothing is at the place. -/
def start : Pipeline Disk.Folder := ⟨Meta.new .empty .empty, ∅, [], none⟩

/-- An upload up to the point where the image is to be put in place. -/
def filling (request : Op Disk.Folder) : List (Op Disk.Folder) :=
  [request, .startImage 0, .act 0, .act 0, .act 0, .act 0, .act 0, .commitImage 0, .act 0]

/-- An image is appended at the place. -/
def append (image : ImageId) : Op Disk.Folder :=
  .append ⟨∅, ∅⟩ Metadata.Sample.keys
    ⟨Metadata.Sample.path, image, 5, [Metadata.Sample.signature 1]⟩

/-- An upload to a place where there is nothing. -/
def upload (image : ImageId) : List (Op (Disk.Folder)) :=
  filling (append image) ++ [.act 0, .finish 0]

/-- An upload to a place where a directory is left. -/
def uploadOver (image : ImageId) : List (Op (Disk.Folder)) :=
  filling (append image) ++ [.act 0, .act 0, .act 0, .act 0, .finish 0]

/-- The image is removed. -/
def removal : List (Op (Disk.Folder)) := [.removeImage, .removeImage, .removeImage, .removeImage]

end Sample

/-- The directory goes before the next upload begins. -/
theorem state_backed_in_turn :
    let run := (machine Sample.setting).play Sample.start
      (Sample.upload (Metadata.Sample.image 1) ++ [.removeStateFile 10 0] ++ Sample.removal ++
        Sample.upload (Metadata.Sample.image 2))
    ∃ event ∈ run.1, Records (event.after.record Sample.setting).state (Metadata.Sample.image 2) ∧
      event.after.Backed Sample.setting := by
  intro run
  have inTime : ∀ event ∈ run.1, RemovesInTime Sample.setting event := by decide +kernel
  have last : ∃ event ∈ run.1, Records (event.after.record Sample.setting).state
      (Metadata.Sample.image 2) ∧ event.after.uploads = [] ∧ event.after.cleanup = none := by
    decide +kernel
  obtain ⟨event, member, records, noUploads, noCleanup⟩ := last
  refine ⟨event, member, records, ?_⟩
  refine state_backed ⟨rfl, rfl⟩ ?_ (Machine.Steps.of_play _ _ _) inTime event member
    ⟨noUploads, noCleanup⟩
  intro content isState
  cases isState

/-- An upload is accepted and committed after `x.state` was removed and before the
directory was. -/
theorem directory_removed_later :
    let run := (machine Sample.setting).play Sample.start
      (Sample.upload (Metadata.Sample.image 1) ++ [.removeStateFile 10 0] ++
        Sample.uploadOver (Metadata.Sample.image 2) ++ Sample.removal)
    Sample.start.AtRest ∧ Sample.start.Backed Sample.setting ∧ run.2.AtRest ∧
      Records (run.2.record Sample.setting).state (Metadata.Sample.image 2) ∧
      run.2.place Sample.setting = none := by
  refine ⟨⟨rfl, rfl⟩, ?_, ⟨?_, ?_⟩, ?_, ?_⟩
  · intro content isState
    cases isState
  · decide +kernel
  · decide +kernel
  · decide +kernel
  · decide +kernel

end FetchDir

end Ciruela
