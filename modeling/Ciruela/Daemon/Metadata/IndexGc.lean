import Ciruela.Daemon.Metadata.IndexFiles
import Ciruela.Daemon.Metadata.Scan

/-!
# The index collector

`index_gc` takes the images that are being written, publishes them as the set of used
images, adds the image of every state file it can list, and then removes the index
files of all other images. It runs on a thread of its own while uploads are accepted,
resumed and finished on others. `Work` is one call the collector has still to make,
and `Workers` is the machine of its calls and of the operations of the other threads
in every order.
-/

namespace Ciruela

open Foundation

/-- A directory uploads are accepted to: its key is configured, and it is as deep as
the configuration says. -/
def Config.IsBase (config : Config) (dir : List FileName) : Prop :=
  ∃ name directory, [name] <+: dir ∧ config.dirs.lookup name.text = some directory ∧
    dir.length = directory.numLevels

namespace Metadata

/-- A directory this many levels down, where the first level is that of `upper`. -/
def Below (upper : List FileName) (level : Nat) (dir : List FileName) : Prop :=
  upper <+: dir ∧ dir.length + 1 = upper.length + level

section Territory

variable {upper dir : List FileName} {level : Nat} {name other : FileName} {names : List FileName}
  {tree : Tree Content}

/-- At the first level there is the directory itself. -/
theorem below_one_iff : Below upper 1 dir ↔ dir = upper := by
  constructor
  · rintro ⟨above, depth⟩
    exact (above.eq_of_length (Nat.succ_injective depth).symm).symm
  · rintro rfl
    exact ⟨List.prefix_refl dir, rfl⟩

/-- There is one way down to a directory. -/
theorem name_eq_of_below (first : upper ++ [name] <+: dir) (second : upper ++ [other] <+: dir) :
    name = other := by
  have same := List.prefix_of_prefix_length_le first second (by simp)
  have whole := same.eq_of_length (by simp)
  exact List.singleton_inj.mp (List.append_cancel_left whole)

/-- What is below a directory is one level deeper below the one above it. -/
theorem Below.up (below : Below (upper ++ [name]) (level + 1) dir) :
    Below upper (level + 2) dir := by
  obtain ⟨inside, depth⟩ := below
  refine ⟨(List.prefix_append upper [name]).trans inside, ?_⟩
  simp only [List.length_append, List.length_cons, List.length_nil] at depth
  omega

/-- What is further down is below one of the names that a listing shows. -/
theorem Below.down (lists : ∀ name, upper ++ [name] ∈ tree.dirs → name ∈ names)
    (present : dir ∈ tree.dirs) (below : Below upper (level + 2) dir) :
    ∃ name ∈ names, Below (upper ++ [name]) (level + 1) dir := by
  obtain ⟨⟨rest, rfl⟩, depth⟩ := below
  cases rest with
  | nil =>
      simp only [List.append_nil] at depth
      omega
  | cons name rest =>
      have inside : upper ++ [name] <+: upper ++ name :: rest := ⟨rest, by simp⟩
      refine ⟨name, lists name (tree.mem_of_above inside present), inside, ?_⟩
      simp only [List.length_append, List.length_cons, List.length_nil] at depth ⊢
      omega

/-- A listing shows the directories that are there. -/
theorem mem_of_shown (shown : names.toFinset = tree.subdirs upper)
    (present : upper ++ [name] ∈ tree.dirs) : name ∈ names := by
  rw [← List.mem_toFinset, shown, Tree.mem_subdirs]
  exact present

end Territory

/-- The ending of the files with indexes. -/
def indexEnding : List Char := ".ds1".toList

/-- The images that are being written. -/
def Meta.writingImages (store : Meta) : Finset ImageId :=
  store.writing.keys.biUnion fun place => ((store.writing.lookup place).map Writing.image).toFinset

/-- A call of the collector that is still to be made. -/
inductive Work where
  /-- Open the directory of a configured key. -/
  | root (key : List Char)
  | enter (dir : List FileName) (level : Nat)
  | scanDir (dir : List FileName) (level : Nat)
  | read (dir : List FileName) (file : FileName)
  | listIndexes
  | enterIndexes (group : FileName)
  | check (group file : FileName)
  | remove (group file : FileName)
deriving DecidableEq

namespace Work

/-- The system can list the directory the call looks at as `names`. -/
def Lists (store : Meta) (names : List FileName) : Work → Prop
  | scanDir dir level =>
      if 1 < level then names.Nodup ∧ names.toFinset = store.signatures.subdirs dir
      else (store.signatures.files dir).Lists names
  | listIndexes => names.Nodup ∧ names.toFinset = store.indexes.subdirs []
  | enterIndexes group => (store.indexes.files [group]).Lists names
  | _ => True

instance (store : Meta) (names : List FileName) (work : Work) : Decidable (work.Lists store names) :=
  match work with
  | scanDir dir level =>
      inferInstanceAs (Decidable (if 1 < level then
          names.Nodup ∧ names.toFinset = store.signatures.subdirs dir
        else (store.signatures.files dir).Lists names))
  | listIndexes => inferInstanceAs (Decidable (_ ∧ _))
  | enterIndexes _ => inferInstanceAs (Decidable (Files.Lists _ _))
  | root _ | enter _ _ | read _ _ | check _ _ | remove _ _ => inferInstanceAs (Decidable True)

/-- Make the call: the calls it leads to, which come before all others. An error ends
the collection. -/
def run (config : Config) (io : Io) (names : List FileName) (store : Meta) :
    Work → Run (Except Error (List Work) × Meta)
  | root key => do
      Run.assert (key ≠ ['.'] && key ≠ ['.', '.'] && !decide ('/' ∈ key))
        "name != \".\" && name != \"..\" && name.find(\"/\").is_none()"
      if io.fails .openDir then return (.error .openDir, store)
      match FileName.ofText key, config.dirs.lookup key with
      | some name, some directory =>
          if [name] ∈ store.signatures.dirs then
            return (.ok [scanDir [name] directory.numLevels], store)
          else return (.ok [], store)
      | _, _ => return (.ok [], store)
  | enter dir level =>
      if io.fails .openDir then return (.error .openDir, store)
      else if dir ∈ store.signatures.dirs then return (.ok [scanDir dir level], store)
      else return (.ok [], store)
  | scanDir dir level =>
      if 1 < level then
        if io.fails .listDir then return (.error .listDir, store)
        else return (.ok (names.map fun name => enter (dir ++ [name]) (level - 1)), store)
      else if io.fails .signatures then return (.error .createDir, store)
      else if io.fails .openDir then return (.error .openDir, store)
      else if dir ∈ store.signatures.dirs then
        if io.fails .listDir then return (.error .listDir, store)
        else return (.ok ((listFiles names stateEnding).map (read dir)), store)
      else return (.ok [], store)
  | read dir file =>
      match readFile io (store.signatures.files dir) file with
      | .error error => return (.error error, store)
      | .ok none => return (.ok [], store)
      | .ok (some state) => return (.ok [], store.markUsed state.image)
  | listIndexes =>
      if io.fails .indexes then return (.error .createDir, store)
      else if io.fails .listDir then return (.error .listDir, store)
      else return (.ok (names.map enterIndexes), store)
  | enterIndexes group =>
      if io.fails .openDir then return (.error .openDir, store)
      else if [group] ∈ store.indexes.dirs then
        if io.fails .listDir then return (.error .listDir, store)
        else return (.ok ((listFiles names indexEnding).map (check group)), store)
      else return (.ok [], store)
  | check group file =>
      match ImageId.ofHex (dropEnd file.text indexEnding.length), store.collecting with
      | none, _ => return (.ok [], store)
      | some _, none => return (.error .indexGcInterrupted, store)
      | some image, some marks =>
          if image ∈ marks then return (.ok [], store) else return (.ok [remove group file], store)
  | remove group file =>
      -- a failure to remove is only logged
      let result := removeFile io (store.indexes.files [group]) file
      return (.ok [], { store with indexes := store.indexes.setFiles [group] result.2 })

end Work

/-- Where the collector stands. -/
inductive Gc where
  | idle
  /-- The images being written are taken, and not published yet. -/
  | snapped (images : Finset ImageId)
  | running (todo : List Work)
deriving DecidableEq

/-- What a thread does after it has marked an image as used. -/
inductive Pending where
  | append (keys : KeyFiles) (params : AppendDir)
  | replace (keys : KeyFiles) (params : ReplaceDir)
  | storeIndex (image : ImageId) (data : List UInt8)

namespace Pending

/-- The image that the work is about, which is marked as used before anything else. -/
def image : Pending → ImageId
  | append _ params => params.image
  | replace _ params => params.image
  | storeIndex image _ => image

/-- What the work asks to have recorded. To store an index asks for nothing. -/
def demand : Pending → Option Demand
  | append keys params => some (.ofAppend keys params)
  | replace keys params => some (.ofReplace keys params)
  | storeIndex _ _ => none

/-- The work after its mark: the request as a whole, or the index as far as it is written. -/
def run (env : Env) (io : Io) (partly : List UInt8) (store : Meta) : Pending → Run Meta
  | append keys params => do
      let (_, store) ← startAppendMarked env io keys params store
      return store
  | replace keys params => do
      let (_, store) ← startReplaceMarked env io keys params store
      return store
  | storeIndex image data => do
      let (_, store) ← store.writeIndex io image data partly
      return store

end Pending

/-- The threads of the metadata pool. -/
structure Workers where
  store : Meta
  marked : Map Nat Pending
  gc : Gc

/-- A store at the start of the server: nobody works and the collector waits. -/
def Workers.new (signatures : Tree Content) (indexes : Tree (List UInt8)) : Workers :=
  ⟨Meta.new signatures indexes, ∅, .idle⟩

/-- A step of one of the threads. -/
inductive GcOp where
  /-- `mark_used` at the beginning of an operation that records an image. -/
  | mark (task : Nat) (pending : Pending)
  /-- The rest of that operation. -/
  | act (task : Nat) (io : Io) (partly : List UInt8)
  /-- An operation that marks nothing. -/
  | operate (op : Op)
  | snapshot
  /-- Publish the images taken, and begin with the keys in this order. -/
  | publish (keys : List (List Char))
  | collect (io : Io) (names : List FileName)

/-- One step of the workers or of the collector. -/
def Workers.exec (env : Env) (workers : Workers) : GcOp → Option Workers
  | .mark task pending =>
      if task ∈ workers.marked then none
      else some { workers with
        store := workers.store.markUsed pending.image
        marked := workers.marked.insert task pending }
  | .act task io partly => do
      let pending ← workers.marked.lookup task
      let store ← (pending.run env io partly workers.store).toOption
      return { workers with store := store, marked := workers.marked.erase task }
  | .operate op =>
      if op.demand.isSome then none
      else do
        let (_, store) ← (Metadata.run env workers.store op).toOption
        return { workers with store := store }
  | .snapshot =>
      match workers.gc with
      | .idle => some { workers with gc := .snapped workers.store.writingImages }
      | _ => none
  | .publish keys =>
      match workers.gc with
      | .snapped images =>
          if keys.Nodup ∧ keys.toFinset = env.config.dirs.keys then
            some { workers with
              store := { workers.store with collecting := some images }
              gc := .running (keys.map .root ++ [.listIndexes]) }
          else none
      | _ => none
  | .collect io names =>
      match workers.gc with
      | .running [] => some { workers with gc := .idle }
      | .running (work :: rest) =>
          if work.Lists workers.store names then
            match work.run env.config io names workers.store with
            | .ok (.ok more, store) => some { workers with store := store, gc := .running (more ++ rest) }
            | .ok (.error _, store) => some { workers with store := store, gc := .idle }
            | .error _ => some { workers with gc := .idle }
          else none
      | _ => none

/-- The steps of the collector and of the other threads in any order. -/
def gcMachine (env : Env) : Machine Workers GcOp Unit where
  exec workers op := (workers.exec env op).map fun next => ((), next)

/-- A step of the store with its collector. -/
abbrev GcEvent := Transition Workers GcOp Unit

/-- The image is being written, or a state file of a base directory records it. -/
def Recorded (env : Env) (store : Meta) (image : ImageId) : Prop :=
  (∃ place writing, store.writing.lookup place = some writing ∧ writing.image = image) ∨
    ∃ spot : Spot, env.config.IsBase spot.dir ∧
      (Records (store.record spot).state image ∨ Records (store.record spot).newState image)

/-- The index file of an image is there before a step of the collector and is gone
after it. -/
def Collects (event : GcEvent) (image : ImageId) : Prop :=
  (∃ io names, event.op = .collect io names) ∧
    ∃ group, image.indexFile ∈ event.before.store.indexes.files [group] ∧
      image.indexFile ∉ event.after.store.indexes.files [group]

end Metadata

end Ciruela
