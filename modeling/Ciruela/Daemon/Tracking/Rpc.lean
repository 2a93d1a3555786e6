import Ciruela.Daemon.Metadata.IndexFiles
import Ciruela.Daemon.Tracking.BaseDir

/-!
# The handlers of requests

What the daemon answers to each kind of request and what it does on the way. A
handler starts a closure on a pool and goes on when it is done; a request for the
index at a path starts two, one after the other.
-/

namespace Ciruela

open Foundation

/-- The peers: who serves a base directory, and what the machines are called. -/
structure Peers where
  byDir : Map (List Component) (Finset MachineId)
  names : Map MachineId (List Char)

/-- `servers_by_basedir`: the machines that have the directory of the path, with their names. -/
def Peers.serversByBasedir (peers : Peers) (vpath : VPath) :
    Run (Finset (MachineId × List Char)) := do
  let base ← vpath.keyVpath
  match peers.byDir.lookup base.place with
  | none => return ∅
  | some ids =>
      return ids.biUnion fun id => ((peers.names.lookup id).map fun name => (id, name)).toFinset

namespace Tracking

open Metadata (Upload Accept)

/-- What a handler does besides answering. -/
inductive Effect where
  | fetchDir (path : VPath) (image : ImageId) (replacing : Bool)
  | notifyReceivedImage (image : ImageId) (path : VPath)
  | watchComplete (path : VPath) (image : ImageId)
deriving DecidableEq

/-- `AppendDirAck` and `ReplaceDirAck`. -/
structure Ack where
  accepted : Bool
  rejectReason : Option String
  hosts : Finset (MachineId × List Char)
deriving DecidableEq

/-- The error of a reply: a text, or an error of the metadata or of the disk. -/
inductive Error where
  | text (message : String)
  | metadata (error : Metadata.Error)
  | disk (error : Disk.Error)

/-- What a request is answered by. -/
inductive Reply where
  | ack (ack : Ack)
  | index (data : List UInt8)
  | indexAt (data : Option (List UInt8)) (hosts : Finset (MachineId × List Char))
  | block (data : List UInt8)
  | baseDir (state : BaseDir.BaseDirState)
  | error (error : Error)

/-- The answer to a request that the metadata has decided on. -/
def ackOf (upload : Upload) (hosts : Finset (MachineId × List Char)) : Ack where
  accepted := match upload with
    | .accepted _ => true
    | .rejected _ _ => false
  rejectReason := match upload with
    | .rejected reason _ => some reason
    | .accepted _ => none
  hosts := hosts

/-- `fetch_dir::start`, which needs the configuration of the path. -/
def fetchDir (config : Config) (path : VPath) (image : ImageId) (replacing : Bool) : Run Effect := do
  let _ ← Run.expect (config.dirs.lookup path.key) "config should exist"
  return .fetchDir path image replacing

/-- What `append_dir` starts when the metadata has answered. -/
def appendEffects (config : Config) (path : VPath) (image : ImageId) : Upload → Run (List Effect)
  | .accepted .new => do return [← fetchDir config path image false]
  | .accepted .alreadyDone => return [.notifyReceivedImage image path]
  | .accepted .inProgress => return []
  | .rejected _ _ => return []

/-- What `replace_dir` starts when the metadata has answered. An image a rejection
names is taken for complete. -/
def replaceEffects (config : Config) (path : VPath) (image : ImageId) : Upload → Run (List Effect)
  | .accepted .new => do return [← fetchDir config path image true]
  | .accepted .alreadyDone => return [.notifyReceivedImage image path]
  | .rejected _ (some other) => return [.watchComplete path other]
  | .accepted .inProgress => return []
  | .rejected _ none => return []

/-- The acknowledgement of an upload with what it starts. -/
def acknowledge (peers : Peers) (path : VPath) (effects : Upload → Run (List Effect))
    (upload : Upload) : Run (Ack × List Effect) := do
  let parent ← path.parent
  let started ← effects upload
  let hosts ← peers.serversByBasedir parent
  return (ackOf upload hosts, started)

/-- The answer where the key of the path is not configured. -/
def noConfig (peers : Peers) (path : VPath) : Run (Reply × List Effect) := do
  let hosts ← peers.serversByBasedir (← path.parent)
  return (.ack ⟨false, some "no_config", hosts⟩, [])

section Handlers

open Metadata (Env Io KeyFiles Meta startAppend startReplace)

/-- Answer an upload, once the metadata has. -/
def uploadReply (peers : Peers) (path : VPath) (effects : Upload → Run (List Effect)) :
    Except Metadata.Error Upload → Run (Reply × List Effect)
  | .error error => return (.error (.metadata error), [])
  | .ok upload => do
      let (ack, started) ← acknowledge peers path effects upload
      return (.ack ack, started)

/-- The course of an upload; `begun` is what the metadata makes of it. -/
def answerUpload (config : Config) (peers : Peers) (path : VPath)
    (begun : Run (Except Metadata.Error Upload × Meta)) (effects : Upload → Run (List Effect)) :
    Run (Reply × List Effect) := do
  if path.key ∉ config.dirs then noConfig peers path
  else
    let (result, _) ← begun
    uploadReply peers path effects result

/-- `append_dir`. -/
def appendDir (env : Env) (peers : Peers) (io : Io) (keys : KeyFiles) (params : AppendDir)
    (store : Meta) : Run (Reply × List Effect) :=
  answerUpload env.config peers params.path (startAppend env io keys params store)
    (appendEffects env.config params.path params.image)

/-- `replace_dir`. -/
def replaceDir (env : Env) (peers : Peers) (io : Io) (keys : KeyFiles) (params : ReplaceDir)
    (store : Meta) : Run (Reply × List Effect) :=
  answerUpload env.config peers params.path (startReplace env io keys params store)
    (replaceEffects env.config params.path params.image)

/-- `get_index`. -/
def getIndex (io : Io) (params : GetIndex) (store : Meta) : Run Reply := do
  match ← store.readIndexBytes io params.id with
  | .error error => return .error (.metadata error)
  | .ok data => return .index data

/-- The second half of a request for an index at a path, which starts from what the
first found. Any error is an answer without data. -/
def indexOf (io : Io) (store : Meta) :
    Except Metadata.Error ImageId → Run (Option (List UInt8))
  | .error _ => return none
  | .ok image => do
      let read ← store.readIndexBytes io image
      return read.toOption

/-- `later` is the metadata when the second closure runs. -/
def getIndexAt (peers : Peers) (io laterIo : Io) (params : GetIndexAt) (store later : Meta) :
    Run Reply := do
  let (found, _) ← store.getImageId io params.path
  let data ← indexOf laterIo later found
  let parent ← params.path.parent
  let hosts ← peers.serversByBasedir parent
  return .indexAt data hosts

/-- What `get_block` hands to `read_block`, or the error it answers at once. -/
def blockHint (params : GetBlock) : Except String (VPath × Path × Nat) :=
  match params.hint with
  | some (vpath, path, offset) =>
      if path.fileName.isNone then .error "Path must have at least one component"
      else if !path.isAbsolute then .error "Path must be absolute"
      else .ok (vpath, path, offset)
  | none => .error "Hint is required for fetching blocks from server"

/-- A hint that is taken is the one of the request. -/
theorem of_blockHint {params : GetBlock} {vpath : VPath} {path : Path} {offset : Nat}
    (hinted : blockHint params = .ok (vpath, path, offset)) :
    params.hint = some (vpath, path, offset) ∧ ∃ file, path.fileName = some file ∧
      path.isAbsolute = true := by
  unfold blockHint at hinted
  split at hinted
  · rename_i hintPath hintOffset given
    split at hinted
    · simp at hinted
    · rename_i named
      split at hinted
      · simp at hinted
      · rename_i absolute
        simp only [Except.ok.injEq, Prod.mk.injEq] at hinted
        obtain ⟨rfl, rfl, rfl⟩ := hinted
        rw [Option.isNone_iff_eq_none] at named
        obtain ⟨file, found⟩ := Option.ne_none_iff_exists'.mp named
        exact ⟨given, file, found, by simpa using absolute⟩
  · simp at hinted

/-- `get_block`: a block is read where the hint says that it is. -/
def getBlock (config : Config) (fs : Disk.FileSystem) (params : GetBlock) (store : Meta) :
    Run Reply := do
  match blockHint params with
  | .error message => return .error (.text message)
  | .ok (vpath, path, offset) =>
      let (_, read) ← Disk.readBlock config fs vpath path offset (store.isWriting vpath)
      match read with
      | .error error => return .error (.disk error)
      | .ok data => return .block data

/-- `get_base_dir`: the directory is scanned, and its hash made, for every request. -/
def getBaseDir (config : Config) (io : Io) (now : Nat) (names : List FileName)
    (file : Disk.KeepListFile) (params : GetBaseDir) (store : Meta) : Run Reply := do
  match config.dirs.lookup params.path.key with
  | none => return .error (.text "No such config")
  | some directory =>
      let (scanned, _) ← BaseDir.scan io now names file directory params.path store
      match scanned with
      | .error (.metadata error) => return .error (.metadata error)
      | .error (.disk error) => return .error (.disk error)
      | .ok state => return .baseDir state

end Handlers

section Returning

open Metadata (Env Io KeyFiles Meta startAppend startReplace)

variable {path : VPath} {spot : Spot}

/-- The servers of a directory can always be told. -/
theorem returns_serversByBasedir (vpath : VPath) (peers : Peers) :
    (peers.serversByBasedir vpath).Returns := by
  obtain ⟨base, isKey⟩ := vpath.returns_keyVpath
  unfold Peers.serversByBasedir
  rw [isKey, Run.ok_bind]
  split <;> exact Run.returns_pure _

/-- Below a spot there is always a parent, and its servers can be looked up. -/
theorem returns_parentServers (located : path.place = spot.place) (peers : Peers) :
    ∃ upper, path.parent = .ok upper ∧ (peers.serversByBasedir upper).Returns := by
  obtain ⟨upper, found, _⟩ := VPath.parent_at located
  exact ⟨upper, found, returns_serversByBasedir upper peers⟩

theorem parent_of_level_eq_zero (shallow : path.level = 0) :
    path.parent = .error (.assertion "self.level() > 0") :=
  dif_neg (by omega)

/-- An upload is acknowledged exactly when its path has a level below the key. -/
theorem returns_answerUpload (accepted : VPath.checkPath path.path = true) {config : Config}
    {begun : Run (Except Metadata.Error Upload × Meta)} {effects : Upload → Run (List Effect)}
    (peers : Peers) (begins : ∀ spot : Spot, path.place = spot.place → begun.Returns)
    (mismatch : path.key ∈ config.dirs → path.level = 0 →
      ∃ store, begun = .ok (.ok (.rejected "config_level_mismatch" none), store))
    (started : path.key ∈ config.dirs → ∀ upload, (effects upload).Returns) :
    (answerUpload config peers path begun effects).Returns ↔ 1 ≤ path.level := by
  constructor
  · intro answered
    by_contra shallow
    have noParent := parent_of_level_eq_zero (show path.level = 0 by omega)
    unfold answerUpload at answered
    split at answered
    · simp [noConfig, noParent] at answered
    · rename_i configured
      obtain ⟨store, rejects⟩ := mismatch (not_not.mp configured) (by omega)
      simp [rejects, uploadReply, acknowledge, noParent] at answered
  · intro deep
    obtain ⟨spot, located⟩ := VPath.exists_spot accepted deep
    obtain ⟨upper, parent, hosts, served⟩ := returns_parentServers located peers
    unfold answerUpload
    split
    · simp [noConfig, parent, served]
    · rename_i configured
      obtain ⟨⟨result, store⟩, begins⟩ := begins spot located
      cases result with
      | error error => simp [begins, uploadReply]
      | ok upload =>
          obtain ⟨effect, starts⟩ := started (not_not.mp configured) upload
          simp [begins, uploadReply, acknowledge, parent, starts, served]

/-- A download starts when its path is configured. -/
theorem returns_fetchDir {config : Config} (configured : path.key ∈ config.dirs) (image : ImageId)
    (replacing : Bool) : (fetchDir config path image replacing).Returns := by
  obtain ⟨directory, found⟩ := Finmap.mem_iff.mp configured
  simp [fetchDir, found, Run.expect]

theorem returns_underLock {Answer : Type} (io : Io) (store : Meta)
    (locked : FileName → Option Metadata.Writing → Files Metadata.Content → Metadata.Locked Answer)
    (located : path.place = spot.place) : (Metadata.underLock io store path locked).Returns := by
  unfold Metadata.underLock
  obtain ⟨_, failed⟩ | opened := Metadata.ensureParent_at io store located
  · simp [failed]
  · simp [opened, VPath.finalName_at located]

/-- An append with a path that is accepted never panics. -/
theorem returns_appendDir (env : Env) (peers : Peers) (io : Io) (keys : KeyFiles)
    {params : AppendDir} (store : Meta) (accepted : VPath.checkPath params.path.path = true) :
    (appendDir env peers io keys params store).Returns ↔ 1 ≤ params.path.level := by
  refine returns_answerUpload accepted peers ?_ ?_ ?_
  · intro spot located
    unfold startAppend Metadata.startAppendMarked
    split
    · exact Run.returns_ok _
    · split
      · exact Run.returns_ok _
      · split
        · exact Run.returns_ok _
        · exact Run.returns_ok _
        · exact returns_underLock _ _ _ located
  · intro configured shallow
    obtain ⟨directory, found⟩ := Finmap.mem_iff.mp configured
    have depth := directory.one_le_numLevels
    have differs : params.path.level ≠ directory.numLevels := by omega
    refine ⟨store.markUsed params.image, ?_⟩
    simp only [startAppend, Metadata.startAppendMarked, found, if_pos differs]
  · intro configured upload
    obtain ⟨effect, fetched⟩ := returns_fetchDir configured params.image false
    cases upload with
    | accepted accept => cases accept <;> simp [appendEffects, fetched]
    | rejected reason other => simp [appendEffects]

/-- A replacement with a path that is accepted never panics. -/
theorem returns_replaceDir (env : Env) (peers : Peers) (io : Io) (keys : KeyFiles)
    {params : ReplaceDir} (store : Meta) (accepted : VPath.checkPath params.path.path = true) :
    (replaceDir env peers io keys params store).Returns ↔ 1 ≤ params.path.level := by
  refine returns_answerUpload accepted peers ?_ ?_ ?_
  · intro spot located
    unfold startReplace Metadata.startReplaceMarked
    split
    · exact Run.returns_ok _
    · split
      · exact Run.returns_ok _
      · split
        · exact Run.returns_ok _
        · split
          · exact Run.returns_ok _
          · exact Run.returns_ok _
          · exact returns_underLock _ _ _ located
  · intro configured shallow
    obtain ⟨directory, found⟩ := Finmap.mem_iff.mp configured
    have depth := directory.one_le_numLevels
    have differs : params.path.level ≠ directory.numLevels := by omega
    refine ⟨store.markUsed params.image, ?_⟩
    simp only [startReplace, Metadata.startReplaceMarked, found, if_pos differs]
  · intro configured upload
    obtain ⟨effect, fetched⟩ := returns_fetchDir configured params.image true
    cases upload with
    | accepted accept => cases accept <;> simp [replaceEffects, fetched]
    | rejected reason other => cases other <;> simp [replaceEffects]

/-- An index is read or missed, unless the id has no digits. -/
theorem returns_readIndexBytes {io : Io} {image : ImageId} (store : Meta) :
    (store.readIndexBytes io image).Returns ↔ image.bytes ≠ [] ∨ io.fails .indexes = true := by
  unfold Meta.readIndexBytes
  cases fails : io.fails .indexes with
  | true => simp
  | false =>
      by_cases empty : image.bytes = []
      · have short : image.toHex = [] := by simp [ImageId.toHex, empty]
        simp [empty, short, Run.slicePrefix]
      · have positive := List.length_pos_iff.mpr empty
        have long : 2 ≤ image.toHex.length := by
          rw [ImageId.length_toHex]
          omega
        obtain ⟨notDot, notDots, noSlash⟩ := ImageId.take_two_toHex empty
        have sliced : Run.slicePrefix image.toHex 2 = .ok (image.toHex.take 2) := if_pos long
        simp [empty, sliced, Run.assert, notDot, notDots, noSlash]

/-- `get_index` panics on an empty id, unless the indexes cannot be opened first. -/
theorem returns_getIndex {io : Io} {params : GetIndex} {store : Meta} :
    (getIndex io params store).Returns ↔ params.id.bytes ≠ [] ∨ io.fails .indexes = true := by
  rw [← returns_readIndexBytes store, getIndex, Run.returns_bind]
  constructor
  · rintro ⟨read, ran, _⟩
    exact ⟨read, ran⟩
  · rintro ⟨read, ran⟩
    refine ⟨read, ran, ?_⟩
    cases read <;> exact Run.returns_pure _

/-- The state file of a path is read and has this image. -/
def Recorded (io : Io) (path : VPath) (store : Meta) (image : ImageId) : Prop :=
  io.OpensParent ∧ ∃ spot : Spot, path.place = spot.place ∧
    ∃ state, Metadata.readFile io (store.signatures.files spot.dir)
      (Metadata.stateFile spot.name) = .ok (some state) ∧ state.image = image

/-- The image of a path is the one that is recorded. -/
theorem getImageId_at (io : Io) (store : Meta) (located : path.place = spot.place) :
    ∃ found after, store.getImageId io path = .ok (found, after) ∧
      ∀ image, found = .ok image ↔ Recorded io path store image := by
  obtain ⟨closed, failed⟩ | ⟨opens, opened⟩ := Metadata.ensureParent_eq io store located
  · refine ⟨.error .createDir, store, by simp [Meta.getImageId, failed]; rfl, fun image => ?_⟩
    simp [Recorded, closed]
  · have recorded (image : ImageId) : Recorded io path store image ↔
        ∃ state, Metadata.readFile io (store.signatures.files spot.dir)
          (Metadata.stateFile spot.name) = .ok (some state) ∧ state.image = image := by
      constructor
      · rintro ⟨_, other, otherLocated, stored⟩
        obtain rfl := Spot.place_injective (otherLocated.symm.trans located)
        exact stored
      · intro stored
        exact ⟨opens, spot, located, stored⟩
    simp only [recorded, Meta.getImageId, opened, Run.ok_bind, VPath.finalName_at located,
      Tree.files_ensureDir]
    cases read : Metadata.readFile io (store.signatures.files spot.dir)
        (Metadata.stateFile spot.name) with
    | error error => exact ⟨_, _, rfl, by simp⟩
    | ok state =>
        cases state with
        | none => exact ⟨_, _, rfl, by simp⟩
        | some state => exact ⟨_, _, rfl, by simp⟩

/-- The index at a path is looked up unless the path is a key, or its image has no
digits. -/
theorem returns_getIndexAt {peers : Peers} {io laterIo : Io} {params : GetIndexAt}
    {store later : Meta} (accepted : VPath.checkPath params.path.path = true) :
    (getIndexAt peers io laterIo params store later).Returns ↔
      1 ≤ params.path.level ∧ ∀ image, Recorded io params.path store image →
        image.bytes ≠ [] ∨ laterIo.fails .indexes = true := by
  by_cases deep : 1 ≤ params.path.level
  · obtain ⟨spot, located⟩ := VPath.exists_spot accepted deep
    obtain ⟨upper, parent, hosts, served⟩ := returns_parentServers located peers
    obtain ⟨found, after, read, recorded⟩ := getImageId_at io store located
    have answered : (getIndexAt peers io laterIo params store later).Returns ↔
        (indexOf laterIo later found).Returns := by
      simp only [getIndexAt, read, parent, served, Run.ok_bind, Run.returns_bind, Run.returns_pure,
        and_true]
      rfl
    rw [answered]
    simp only [deep, true_and, ← recorded]
    cases found with
    | error error => simp [indexOf]
    | ok image =>
        simp only [Except.ok.injEq, forall_eq', indexOf, Run.returns_bind, Run.returns_pure,
          and_true]
        exact returns_readIndexBytes later
  · have noParent := parent_of_level_eq_zero (show params.path.level = 0 by omega)
    simp only [deep, false_and, iff_false]
    rintro ⟨reply, answered⟩
    obtain ⟨found, _, rest⟩ := Run.bind_eq_ok_iff.mp answered
    obtain ⟨data, _, done⟩ := Run.bind_eq_ok_iff.mp rest
    simp [noParent] at done

/-- When `get_block` panics. -/
theorem returns_getBlock {config : Config} {fs : Disk.FileSystem} {params : GetBlock} {store : Meta}
    (accepted : ∀ vpath path offset, params.hint = some (vpath, path, offset) →
      VPath.checkPath vpath.path = true) :
    (getBlock config fs params store).Returns ↔
      ∀ hint, blockHint params = .ok hint →
        ∀ directory, config.dirs.lookup hint.1.key = some directory →
          fs.opensBase directory.directory = true → 1 ≤ hint.1.level := by
  cases hinted : blockHint params with
  | error message => simp [getBlock, hinted]
  | ok hint =>
      obtain ⟨vpath, path, offset⟩ := hint
      obtain ⟨given, file, named, absolute⟩ := of_blockHint hinted
      simp only [Except.ok.injEq, forall_eq']
      rw [← Disk.returns_readBlock (accepted _ _ _ given) absolute named offset
        (store.isWriting vpath)]
      simp only [getBlock, hinted, Run.returns_bind]
      constructor
      · rintro ⟨calls, ran, _⟩
        exact ⟨calls, ran⟩
      · rintro ⟨calls, ran⟩
        refine ⟨calls, ran, ?_⟩
        obtain ⟨opened, read⟩ := calls
        cases read <;> exact Run.returns_pure _

/-- When `get_base_dir` panics. -/
theorem returns_getBaseDir {config : Config} {io : Io} {now : Nat} {names : List FileName}
    {file : Disk.KeepListFile} {params : GetBaseDir} {store : Meta} :
    (getBaseDir config io now names file params store).Returns ↔
      ∀ directory, config.dirs.lookup params.path.key = some directory →
        (BaseDir.scan io now names file directory params.path store).Returns := by
  cases configured : config.dirs.lookup params.path.key with
  | none => simp [getBaseDir, configured]
  | some directory =>
      simp only [getBaseDir, configured, Option.some.injEq, forall_eq', Run.returns_bind]
      constructor
      · rintro ⟨scanned, ran, _⟩
        exact ⟨scanned, ran⟩
      · rintro ⟨⟨scanned, after⟩, ran⟩
        refine ⟨_, ran, ?_⟩
        cases scanned with
        | ok state => exact Run.returns_pure _
        | error error => cases error <;> exact Run.returns_pure _

end Returning

end Tracking

end Ciruela
