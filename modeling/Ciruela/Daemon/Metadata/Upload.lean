import Ciruela.Daemon.Metadata.Keys

/-!
# Accepting, resuming, aborting and committing uploads

`startAppend`, `startReplace` and `resumeUpload` check the request and then, under
the `writing` lock, decide on the entry of `writing` for the path and the two
state files of its name. The part under the lock is a function of that entry and
of the files of the directory: `appendLocked`, `replaceLocked`, `resumeLocked`.
-/

namespace Ciruela

open Foundation

namespace Metadata

/-- `Accept`: how a request is taken. -/
inductive Accept where
  | new
  | inProgress
  | alreadyDone
deriving DecidableEq

/-- `Upload`: the answer to a request, with the image that is there where it is refused. -/
inductive Upload where
  | accepted (accept : Accept)
  | rejected (reason : String) (other : Option ImageId)
deriving DecidableEq

/-- An upload in progress. -/
structure Writing where
  image : ImageId
  signatures : List SignatureEntry
  replacing : Bool
deriving DecidableEq

/-- The state file that an upload writes. -/
def Writing.toState (writing : Writing) : State := ⟨writing.image, writing.signatures⟩

/-- The metadata subsystem: what is locked in memory and what is on disk. -/
structure Meta where
  writing : Map (List Component) Writing
  collecting : Option (Finset ImageId)
  signatures : Tree Content
  indexes : Tree (List UInt8)

namespace Meta

/-- `Meta::new`: nothing is being written and nothing is collected, whatever the
database directory holds. -/
def new (signatures : Tree Content) (indexes : Tree (List UInt8)) : Meta :=
  ⟨∅, none, signatures, indexes⟩

/-- Remember that an image is used, if a collection is running or has run. -/
def markUsed (store : Meta) (image : ImageId) : Meta :=
  { store with collecting := store.collecting.map (insert image) }

/-- Put back the entry of a path and the files of its directory. -/
def putBack (store : Meta) (place : List Component) (dir : List FileName) (entry : Option Writing)
    (files : Files Content) : Meta :=
  { store with
    writing := match entry with
      | some writing => store.writing.insert place writing
      | none => store.writing.erase place
    signatures := store.signatures.setFiles dir files }

/-- `meta.signatures()?.ensure_dir(vpath.parent_rel())?`. The components are
checked one after another, so the directories in front of one that is no name are
created. -/
def ensureParent (io : Io) (store : Meta) (vpath : VPath) :
    Run (Except Error (List FileName) × Meta) := do
  if io.fails .signatures then return (.error .createDir, store)
  let parentRel ← vpath.parentRel
  if io.fails .ensureDir then return (.error .createDir, store)
  let created := { store with signatures := store.signatures.ensureDir (leadingNames parentRel) }
  return (checkComponents parentRel, created)

end Meta

/-- The answer of the part under the lock with the entry and the files it leaves. -/
abbrev Locked (Answer : Type) := Except Error Answer × Option Writing × Files Content

/-- Write `x.new.state` for an entry that is already in `writing`. -/
def storeNewState (io : Io) (name : FileName) (writing : Writing) (accept : Accept)
    (files : Files Content) : Locked Upload :=
  match replaceFile io files (newStateFile name) writing.toState with
  | (.error error, files) => (.error error, some writing, files)
  | (.ok (), files) => (.ok (.accepted accept), some writing, files)

/-- The image is committed already: merge the signatures into `x.state`. -/
def mergeState (io : Io) (name : FileName) (state : State) (signatures : List SignatureEntry)
    (files : Files Content) : Locked Upload :=
  let merged : State := { state with signatures := appendSignatures state.signatures signatures }
  match replaceFile io files (stateFile name) merged with
  | (.error error, files) => (.error error, none, files)
  | (.ok (), files) => (.ok (.accepted .alreadyDone), none, files)

/-- The image is being written already: merge the signatures into the entry. -/
def mergeWriting (io : Io) (name : FileName) (old : Writing) (signatures : List SignatureEntry)
    (files : Files Content) : Locked Upload :=
  let merged :=
    if signatures ≠ old.signatures then appendSignatures old.signatures signatures
    else old.signatures
  storeNewState io name { old with signatures := merged } .inProgress files

/-- `start_append` under the lock of the table of uploads. -/
def appendLocked (io : Io) (name : FileName) (image : ImageId) (signatures : List SignatureEntry)
    (entry : Option Writing) (files : Files Content) : Locked Upload :=
  match entry with
  | none =>
      match readFile io files (stateFile name) with
      | .error error => (.error error, none, files)
      | .ok (some state) =>
          if state.image = image then mergeState io name state signatures files
          else (.ok (.rejected "already_exists" (some state.image)), none, files)
      | .ok none => storeNewState io name ⟨image, signatures, false⟩ .new files
  | some old =>
      if old.image = image then mergeWriting io name old signatures files
      else (.ok (.rejected "already_uploading_different_version" (some old.image)), some old, files)

/-- `start_replace` under the lock: over nothing it is taken whatever the old image is. -/
def replaceLocked (io : Io) (name : FileName) (image : ImageId) (oldImage : Option ImageId)
    (signatures : List SignatureEntry) (entry : Option Writing) (files : Files Content) :
    Locked Upload :=
  match entry with
  | none =>
      match readFile io files (stateFile name) with
      | .error error => (.error error, none, files)
      | .ok (some state) =>
          if state.image = image then mergeState io name state signatures files
          else if oldImage.isSome ∧ oldImage ≠ some state.image then
            (.ok (.rejected "replace_doesnt_match_index" (some state.image)), none, files)
          else storeNewState io name ⟨image, signatures, true⟩ .new files
      | .ok none => storeNewState io name ⟨image, signatures, false⟩ .new files
  | some old =>
      if old.image = image then mergeWriting io name old signatures files
      else if oldImage.isSome ∧ oldImage ≠ some old.image then
        (.ok (.rejected "replace_doesnt_match_index" (some old.image)), some old, files)
      else
        (.ok (.rejected "already_uploading_different_version" (some old.image)), some old, files)

/-- `resume_upload` under the lock. -/
def resumeLocked (io : Io) (vpath : VPath) (name : FileName) (entry : Option Writing)
    (files : Files Content) : Locked ImageId :=
  match entry with
  | none =>
      match readFile io files (stateFile name) with
      | .error error => (.error error, none, files)
      | .ok (some state) =>
          match renameFile io files (stateFile name) (newStateFile name) with
          | (.error error, files) => (.error error, none, files)
          | (.ok (), files) => (.ok state.image, some ⟨state.image, state.signatures, false⟩, files)
      | .ok none =>
          match readFile io files (newStateFile name) with
          | .error error => (.error error, none, files)
          | .ok (some state) => (.ok state.image, some ⟨state.image, state.signatures, false⟩, files)
          | .ok none => (.error (.resumeNoFile vpath), none, files)
  | some old => (.error (.resumeConflict vpath), some old, files)

/-- Open the directory of a path, take the lock and run the part under it. -/
def underLock {Answer : Type} (io : Io) (store : Meta) (vpath : VPath)
    (locked : FileName → Option Writing → Files Content → Locked Answer) :
    Run (Except Error Answer × Meta) := do
  match ← store.ensureParent io vpath with
  | (.error error, store) => return (.error error, store)
  | (.ok dir, store) =>
      let name ← vpath.finalName
      let result := locked name (store.writing.lookup vpath.place) (store.signatures.files dir)
      return (result.1, store.putBack vpath.place dir result.2.1 result.2.2)

/-- `start_append` after its image has been marked as used. -/
def startAppendMarked (env : Env) (io : Io) (keys : KeyFiles) (params : AppendDir) (store : Meta) :
    Run (Except Error Upload × Meta) :=
  match env.config.dirs.lookup params.path.key with
  | none => .ok (.error (.pathNotFound params.path), store)
  | some directory =>
      if params.path.level ≠ directory.numLevels then
        .ok (.ok (.rejected "config_level_mismatch" none), store)
      else match checkKeys env keys params.sigData params.signatures directory with
        | .error error => .ok (.error error, store)
        | .ok false => .ok (.ok (.rejected "signature_mismatch" none), store)
        | .ok true =>
            underLock io store params.path fun name =>
              appendLocked io name params.image (sortSignatures params.entries)

/-- `start_append`. -/
def startAppend (env : Env) (io : Io) (keys : KeyFiles) (params : AppendDir) (store : Meta) :
    Run (Except Error Upload × Meta) :=
  startAppendMarked env io keys params (store.markUsed params.image)

/-- `start_replace` after its image has been marked as used. -/
def startReplaceMarked (env : Env) (io : Io) (keys : KeyFiles) (params : ReplaceDir) (store : Meta) :
    Run (Except Error Upload × Meta) :=
  match env.config.dirs.lookup params.path.key with
  | none => .ok (.error (.pathNotFound params.path), store)
  | some directory =>
      if params.path.level ≠ directory.numLevels then
        .ok (.ok (.rejected "config_level_mismatch" none), store)
      else if directory.appendOnly then .ok (.ok (.rejected "dir_is_append_only" none), store)
      else match checkKeys env keys params.sigData params.signatures directory with
        | .error error => .ok (.error error, store)
        | .ok false => .ok (.ok (.rejected "signature_mismatch" none), store)
        | .ok true =>
            underLock io store params.path fun name =>
              replaceLocked io name params.image params.oldImage (sortSignatures params.entries)

/-- `start_replace`. -/
def startReplace (env : Env) (io : Io) (keys : KeyFiles) (params : ReplaceDir) (store : Meta) :
    Run (Except Error Upload × Meta) :=
  startReplaceMarked env io keys params (store.markUsed params.image)

/-- `resume_upload`. -/
def resumeUpload (env : Env) (io : Io) (vpath : VPath) (store : Meta) :
    Run (Except Error ImageId × Meta) :=
  match env.config.dirs.lookup vpath.key with
  | none => .ok (.error (.pathNotFound vpath), store)
  | some directory =>
      if vpath.level ≠ directory.numLevels then
        .ok (.error (.levelMismatch vpath.level directory.numLevels), store)
      else underLock io store vpath fun name => resumeLocked io vpath name

/-- Change the files next to a path. The lock is held and the entry of the path is
already gone. -/
def changeFiles (io : Io) (vpath : VPath) (store : Meta)
    (change : FileName → Files Content → Except Error Unit × Files Content) :
    Run (Except Error Unit × Meta) := do
  let name ← vpath.finalName
  match ← store.ensureParent io vpath with
  | (.error error, store) => return (.error error, store)
  | (.ok dir, store) =>
      let result := change name (store.signatures.files dir)
      return (result.1, { store with signatures := store.signatures.setFiles dir result.2 })

/-- `abort_dir`: the new state is forgotten. -/
def abortDir (io : Io) (vpath : VPath) (store : Meta) : Run (Except Error Unit × Meta) :=
  changeFiles io vpath store fun name files => removeFile io files (newStateFile name)

/-- `commit_dir`: the new state becomes the state. -/
def commitDir (io : Io) (vpath : VPath) (store : Meta) : Run (Except Error Unit × Meta) :=
  changeFiles io vpath store fun name files =>
    renameFile io files (newStateFile name) (stateFile name)

end Metadata

end Ciruela
