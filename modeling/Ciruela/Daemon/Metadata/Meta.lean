import Ciruela.Daemon.Metadata.Upload
import Ciruela.Foundation.Machine

/-!
# The metadata subsystem

The operations the metadata pool offers on one path, and the machine they form.
Every operation holds the `writing` lock while it looks at the entry and the files
of its path, so one operation is one transition. An operation that panics has no
transition.
-/

namespace Ciruela

open Foundation

namespace Metadata

namespace Meta

/-- Take the entry of a path out of `writing` and finish its upload. A failure is
only logged, and so is an upload that is not there. -/
def finish (store : Meta) (vpath : VPath) (act : Meta → Run (Except Error Unit × Meta)) : Run Meta :=
  match store.writing.lookup vpath.place with
  | some _ => do
      let result ← act { store with writing := store.writing.erase vpath.place }
      return result.2
  | none => return store

/-- `Meta::dir_aborted`. -/
def dirAborted (io : Io) (vpath : VPath) (store : Meta) : Run Meta :=
  store.finish vpath (abortDir io vpath)

/-- `Meta::dir_committed`. -/
def dirCommitted (io : Io) (vpath : VPath) (store : Meta) : Run Meta :=
  store.finish vpath (commitDir io vpath)

/-- `meta.signatures()?.open_path(vpath.parent_rel())?`. -/
def openParent (io : Io) (store : Meta) (vpath : VPath) : Run (Except Error (List FileName)) := do
  if io.fails .signatures then return .error .createDir
  let parentRel ← vpath.parentRel
  if io.fails .openDir then return .error .openDir
  match checkComponents parentRel with
  | .error error => return .error error
  | .ok dir => if dir ∈ store.signatures.dirs then return .ok dir else return .error .openDir

end Meta

/-- A file changed at `modified` is not older than a second at the time `at`, both
in seconds since the epoch. -/
def isFresher (modified time : Nat) : Run Bool :=
  if time = 0 then .error (.overflow "attempt to subtract with overflow")
  else .ok (decide (time - 1 < modified))

/-- Remove `x.state`, unless the path is being written or the file has changed
lately. `modified` is what the system says about the file. -/
def Meta.removeStateFile (io : Io) (vpath : VPath) (time modified : Nat) (store : Meta) :
    Run (Except Error Unit × Meta) := do
  if vpath.place ∈ store.writing then return (.error (.cleanupCanceled vpath), store)
  match ← store.openParent io vpath with
  | .error error => return (.error error, store)
  | .ok dir =>
      let state := stateFile (← vpath.finalName)
      let files := store.signatures.files dir
      if io.fails (.stat state) then return (.error (.read state), store)
      if state ∈ files then
        if ← isFresher modified time then return (.error (.cleanupCanceled vpath), store)
        let result := removeFile io files state
        return (result.1, { store with signatures := store.signatures.setFiles dir result.2 })
      else return (.error (.fileWasVanished state), store)

/-- The image a path is committed with. -/
def Meta.getImageId (io : Io) (vpath : VPath) (store : Meta) : Run (Except Error ImageId × Meta) := do
  match ← store.ensureParent io vpath with
  | (.error error, store) => return (.error error, store)
  | (.ok dir, store) =>
      let name ← vpath.finalName
      match readFile io (store.signatures.files dir) (stateFile name) with
      | .error error => return (.error error, store)
      | .ok (some state) => return (.ok state.image, store)
      | .ok none => return (.error (.pathNotFound vpath), store)

/-- Whether an upload to the path goes on. -/
def Meta.isWriting (vpath : VPath) (store : Meta) : Bool := decide (vpath.place ∈ store.writing)

/-- An operation on a path, with what the system answers to it: the calls that
fail, the keys that are there, the time of the last change of a file. -/
inductive Op where
  | startAppend (io : Io) (keys : KeyFiles) (params : AppendDir)
  | startReplace (io : Io) (keys : KeyFiles) (params : ReplaceDir)
  | resumeUpload (io : Io) (vpath : VPath)
  | dirAborted (io : Io) (vpath : VPath)
  | dirCommitted (io : Io) (vpath : VPath)
  | removeStateFile (io : Io) (vpath : VPath) (time modified : Nat)

namespace Op

/-- How the calls of the operation go. -/
def io : Op → Io
  | startAppend io _ _ => io
  | startReplace io _ _ => io
  | resumeUpload io _ => io
  | dirAborted io _ => io
  | dirCommitted io _ => io
  | removeStateFile io _ _ _ => io

/-- The path that the operation is about. -/
def vpath : Op → VPath
  | startAppend _ _ params => params.path
  | startReplace _ _ params => params.path
  | resumeUpload _ vpath => vpath
  | dirAborted _ vpath => vpath
  | dirCommitted _ vpath => vpath
  | removeStateFile _ vpath _ _ => vpath

end Op

/-- What an operation gives back. -/
inductive Answer where
  | upload (result : Except Error Upload)
  | resumed (result : Except Error ImageId)
  | finished
  | removed (result : Except Error Unit)

/-- The answer to a request that is taken. -/
def accepted (accept : Accept) : Answer := .upload (.ok (.accepted accept))

/-- Run an operation. -/
def run (env : Env) (store : Meta) : Op → Run (Answer × Meta)
  | .startAppend io keys params => do
      let (result, store) ← startAppend env io keys params store
      return (.upload result, store)
  | .startReplace io keys params => do
      let (result, store) ← startReplace env io keys params store
      return (.upload result, store)
  | .resumeUpload io vpath => do
      let (result, store) ← resumeUpload env io vpath store
      return (.resumed result, store)
  | .dirAborted io vpath => do
      let store ← store.dirAborted io vpath
      return (.finished, store)
  | .dirCommitted io vpath => do
      let store ← store.dirCommitted io vpath
      return (.finished, store)
  | .removeStateFile io vpath time modified => do
      let (result, store) ← store.removeStateFile io vpath time modified
      return (.removed result, store)

/-- The metadata subsystem as a machine. -/
def machine (env : Env) : Machine Meta Op Answer where
  exec store op := (run env store op).toOption

/-- A step of the metadata. -/
abbrev Event := Transition Meta Op Answer

/-! A small configuration for concrete runs: one directory `k` of one level whose
key accepts every signature. -/

namespace Sample

/-- An image with an id of one byte. -/
def image (byte : UInt8) : ImageId := ⟨[byte]⟩

/-- A signature of one byte, over and over. -/
def signature (byte : UInt8) : Signature := ⟨List.replicate 64 byte, by simp⟩

/-- A directory whose images lie right below its key. -/
def directory (appendOnly : Bool) : Directory where
  directory := []
  appendOnly := appendOnly
  numLevels := 1
  uploadKeys := []
  autoClean := false
  keepListFile := none
  keepMinDirectories := 1
  keepMaxDirectories := 100
  keepRecent := ⟨0, 0⟩
  one_le_numLevels := by decide
  numLevels_le := by decide
  one_le_keepMin := by decide
  one_le_keepMax := by decide

/-- The key `k` is configured, and every signature is good. -/
def env (appendOnly : Bool) : Env where
  config := ⟨[], Finmap.singleton "k".toList (directory appendOnly)⟩
  ed25519 := fun _ _ _ => true
  parsePublicKey := fun _ => some (.ed25519 [])

/-- The files of the keys, with one key. -/
def keys : KeyFiles := ⟨true, .found [some "key".toList], .missing⟩

/-- The path `/k/{name}`. -/
def vpath (name : String) (valid : (VPath.deserialize ("/k/".toList ++ name.toList)).isSome) : VPath :=
  (VPath.deserialize ("/k/".toList ++ name.toList)).get valid

/-- The path of the examples. -/
def path : VPath := vpath "a" (by decide)

/-- The directory that the path is in. -/
def base : VPath := (VPath.deserialize "/k".toList).get (by decide)

/-- The name of the image at the path. -/
def name : FileName := ⟨['a'], by decide, by decide, by decide, by decide⟩

/-- Where the image at the path is recorded. -/
def spot : Spot := ⟨[⟨['k'], by decide, by decide, by decide, by decide⟩], name, by decide⟩

/-- An image is appended at the path. -/
def append (image : ImageId) : Op := .startAppend Io.working keys ⟨path, image, 5, [signature 1]⟩

/-- An image is appended again, later and with another signature. -/
def appendAgain (image : ImageId) : Op :=
  .startAppend Io.working keys ⟨path, image, 6, [signature 2]⟩

/-- An image is put in the place of another. -/
def replace (image : ImageId) (oldImage : Option ImageId) : Op :=
  .startReplace Io.working keys ⟨path, image, oldImage, 5, [signature 1]⟩

/-- The download to the path is done. -/
def commit : Op := .dirCommitted Io.working path

/-- The upload to the path is taken up again after a restart. -/
def resume : Op := .resumeUpload Io.working path

/-- The download to the path is given up. -/
def abort : Op := .dirAborted Io.working path

/-- Replace a committed image, with an append in between that is refused. -/
def replacing : List Op :=
  [append (image 1), commit, replace (image 2) (some (image 1)), append (image 3), commit]

end Sample

end Metadata

end Ciruela
