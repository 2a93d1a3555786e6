import Ciruela.Blocks
import Ciruela.Client.Signing
import Ciruela.Cluster.Contents

/-!
# Files that are put into a directory of the cluster

`ciruela put-file` and `ciruela edit` fetch the index of a directory, put one file into it, and
upload what is written then under the condition that the directory still has the index that was
fetched. The parser and the emitter of indexes and the digests live in another package.
-/

namespace Ciruela.Client

open Foundation
open Cluster (RawIndex MutableIndex IndexUpdateError Call NewUpload SignedUpload)

/-- What is used of `dir_signature`. -/
structure Tools where
  parser : Parser
  emitter : HashType → Nat → List Call → List UInt8
  getHash : List UInt8 → Option ImageId
  digest : HashType → List UInt8 → List UInt8
  /-- `Hashes::hash_file` of data in memory. -/
  hashFile : HashType → Nat → List UInt8 → Option (Nat × Cluster.Hashes)

/-- `InMemoryIndexes`. -/
structure InMemoryIndexes where
  indexes : Map ImageId (List UInt8)

namespace InMemoryIndexes

/-- `register_index`. An index without a hash is no index. -/
def registerIndex (getHash : List UInt8 → Option ImageId) (data : List UInt8)
    (stored : InMemoryIndexes) : Option (ImageId × InMemoryIndexes) :=
  (getHash data).map fun image => (image, ⟨stored.indexes.insert image data⟩)

/-- `read_index`. -/
def readIndex (stored : InMemoryIndexes) (image : ImageId) : Option (List UInt8) :=
  stored.indexes.lookup image

end InMemoryIndexes

/-- Why a file cannot be put: the index that was fetched is unreadable, or refuses the file. -/
inductive PutError where
  /-- "can't parse index" -/
  | index
  | update (error : IndexUpdateError)
deriving DecidableEq

/-- What a client serves. -/
structure Serving where
  indexes : InMemoryIndexes
  blocks : BlockReader

/-- An index with one file put into it. -/
structure Edit where
  oldImage : ImageId
  image : ImageId
  index : MutableIndex
  file : Path
  data : List UInt8

namespace Edit

/-- The upload of an edit, for which the old image has to be there. -/
def upload (edit : Edit) (signed : SignedUpload) : NewUpload :=
  replaceIfMatches signed edit.oldImage

/-- The index that is uploaded. -/
def newIndex (tools : Tools) (edit : Edit) : List UInt8 := edit.index.toRawData tools.emitter

/-- The file as it is in that index, with the size and the hashes of its data. -/
def item (tools : Tools) (edit : Edit) : Option Cluster.Item :=
  (tools.hashFile edit.index.hashType edit.index.blockSize edit.data).map fun (size, hashes) =>
    .remoteFile false size ⟨edit.index.blockSize, hashes.hashes⟩

/-- What is written over an index: one file. -/
def write (tools : Tools) (edit : Edit) : List FileName × Option Cluster.Item :=
  (Cluster.namesOf edit.file, edit.item tools)

end Edit

variable (tools : Tools)

/-- What `put` and `edit` do with an index that was fetched and with the data of a file: the file
is put in, it is served from memory, and so is the index that is written. -/
def insert (serving : Serving) (oldImage : ImageId) (index : MutableIndex) (path : Path)
    (data : List UInt8) : Run (Except PutError (Edit × Serving)) :=
  match index.insertFile tools.hashFile path data false with
  | (_, .error error) => return .error (.update error)
  | (index, .ok ()) => do
      let (_, hashes) ← Run.expect (tools.hashFile index.hashType index.blockSize data)
        "can't fail to read"
      let blocks ← serving.blocks.registerHashedBlocks hashes.hashes index.blockSize data
      let newIndex := index.toRawData tools.emitter
      let (image, indexes) ← Run.expect (serving.indexes.registerIndex tools.getHash newIndex)
        "index is valid"
      return .ok (⟨oldImage, image, index, path, data⟩, ⟨indexes, blocks⟩)

/-- What both do first. -/
def parse (raw : RawIndex) : Except PutError (ImageId × MutableIndex) := do
  let oldImage ← match tools.getHash raw.data with
    | some image => .ok image
    | none => .error .index
  let index ← match raw.intoMut tools.parser with
    | .ok index => .ok index
    | .error _ => .error .index
  return (oldImage, index)

/-- `put`, from the index that was fetched up to the upload. -/
def put (serving : Serving) (raw : RawIndex) (file : Path) (data : List UInt8) :
    Run (Except PutError (Edit × Serving)) :=
  match parse tools raw with
  | .error error => return .error error
  | .ok (oldImage, index) => insert tools serving oldImage index file data

/-- `edit`, from the index that was fetched up to the upload. The file has to be there. An editor
that leaves the data alone gives none. -/
def edit (serving : Serving) (raw : RawIndex) (file : Path) (edited : Option (List UInt8)) :
    Run (Except PutError (Option (Edit × Serving))) :=
  match parse tools raw with
  | .error error => return .error error
  | .ok (oldImage, index) => do
      let _ ← index.fetchFile file
      match edited with
      | none => return .ok none
      | some data => return (← insert tools serving oldImage index file data).map some

section Written

variable {tools} {serving after : Serving} {raw : RawIndex} {file : Path} {data : List UInt8}
  {made : Edit} {oldImage : ImageId} {index : MutableIndex}

/-- An index that was fetched is parsed. -/
theorem parse_eq_ok (parsed : parse tools raw = .ok (oldImage, index)) :
    tools.getHash raw.data = some oldImage ∧ raw.intoMut tools.parser = .ok index := by
  unfold parse at parsed
  cases hashed : tools.getHash raw.data with
  | none =>
      rw [hashed] at parsed
      cases parsed
  | some image =>
      rw [hashed] at parsed
      cases read : raw.intoMut tools.parser with
      | error error =>
          rw [read] at parsed
          cases parsed
      | ok found =>
          rw [read] at parsed
          cases parsed
          exact ⟨rfl, rfl⟩

/-- A file is inserted: the index is the one with the file, and it is registered under its own
hash. -/
theorem insert_eq_ok (inserted : insert tools serving oldImage index file data =
      .ok (.ok (made, after))) :
    index.insertFile tools.hashFile file data false = (made.index, .ok ()) ∧
      (∃ size hashes,
        tools.hashFile made.index.hashType made.index.blockSize data = some (size, hashes) ∧
          serving.blocks.registerHashedBlocks hashes.hashes made.index.blockSize data =
            .ok after.blocks) ∧
      serving.indexes.registerIndex tools.getHash (made.newIndex tools) =
        some (made.image, after.indexes) ∧
      made.oldImage = oldImage ∧ made.file = file ∧ made.data = data := by
  unfold insert at inserted
  split at inserted
  · cases Except.ok.inj inserted
  · rename_i changed put
    obtain ⟨⟨size, hashes⟩, hashed, inserted⟩ := Run.bind_eq_ok_iff.mp inserted
    obtain ⟨blocks, registers, inserted⟩ := Run.bind_eq_ok_iff.mp inserted
    obtain ⟨⟨image, indexes⟩, registered, inserted⟩ := Run.bind_eq_ok_iff.mp inserted
    cases inserted
    exact ⟨put, ⟨size, hashes, Run.expect_eq_ok_iff.mp hashed, registers⟩,
      Run.expect_eq_ok_iff.mp registered, rfl, rfl, rfl⟩

/-- What is uploaded contains the file over what was fetched, and it is served. -/
theorem insert_written (parsed : parse tools raw = .ok (oldImage, index))
    (inserted : insert tools serving oldImage index file data = .ok (.ok (made, after)))
    (reads : made.index.Reads tools.parser tools.emitter) :
    tools.getHash raw.data = some made.oldImage ∧
      tools.getHash (made.newIndex tools) = some made.image ∧
      after.indexes.readIndex made.image = some (made.newIndex tools) ∧
      Cluster.content tools.parser (made.newIndex tools) =
        overlay (made.write tools) (Cluster.content tools.parser raw.data) := by
  obtain ⟨hashed, read⟩ := parse_eq_ok parsed
  obtain ⟨changed, _, registered, rfl, rfl, rfl⟩ := insert_eq_ok inserted
  obtain ⟨image, isHash, isImage⟩ := Option.map_eq_some_iff.mp registered
  obtain ⟨rfl, isIndexes⟩ := Prod.mk.inj isImage
  obtain ⟨_, _, _, sameHash, sameBlock, _⟩ := Cluster.leafAt_insertFile changed
  obtain ⟨size, hashes, isFile, contains⟩ := Cluster.content_insertFile read changed reads
  refine ⟨hashed, isHash, ?_, ?_⟩
  · rw [InMemoryIndexes.readIndex, ← isIndexes, Map.lookup_insert_eq, if_pos rfl]
  · have isItem : made.item tools =
        some (.remoteFile false size ⟨index.blockSize, hashes.hashes⟩) := by
      rw [Edit.item, sameHash, sameBlock, isFile]
      rfl
    rw [Edit.newIndex, contains, Edit.write, isItem]

/-- The data of a file that was put in has been hashed. -/
theorem exists_item (inserted : insert tools serving oldImage index file data =
      .ok (.ok (made, after))) :
    ∃ size hashes,
      tools.hashFile made.index.hashType made.index.blockSize made.data = some (size, hashes) ∧
        made.item tools = some (.remoteFile false size ⟨made.index.blockSize, hashes.hashes⟩) := by
  obtain ⟨_, ⟨size, hashes, hashed, _⟩, _, _, _, rfl⟩ := insert_eq_ok inserted
  refine ⟨size, hashes, hashed, ?_⟩
  rw [Edit.item, hashed]
  rfl

/-- A client has made an edit of an index, by either command. -/
inductive Made (tools : Tools) (raw : RawIndex) (made : Edit) : Prop where
  | put {serving after : Serving} {file : Path} {data : List UInt8}
      (isPut : put tools serving raw file data = .ok (.ok (made, after)))
  | edit {serving after : Serving} {file : Path} {edited : Option (List UInt8)}
      (isEdit : edit tools serving raw file edited = .ok (.ok (some (made, after))))

/-- What is made was made by inserting a file into what was fetched. -/
theorem Made.exists_insert (isMade : Made tools raw made) :
    ∃ oldImage index serving file data after, parse tools raw = .ok (oldImage, index) ∧
      insert tools serving oldImage index file data = .ok (.ok (made, after)) := by
  cases isMade with
  | put isPut =>
      unfold Client.put at isPut
      split at isPut
      · cases isPut
      · rename_i oldImage index parsed
        exact ⟨oldImage, index, _, _, _, _, parsed, isPut⟩
  | edit isEdit =>
      unfold Client.edit at isEdit
      split at isEdit
      · cases isEdit
      · rename_i oldImage index parsed
        obtain ⟨_, _, isEdit⟩ := Run.bind_eq_ok_iff.mp isEdit
        split at isEdit
        · cases isEdit
        · obtain ⟨result, inserted, isEdit⟩ := Run.bind_eq_ok_iff.mp isEdit
          cases result with
          | error error => cases isEdit
          | ok result =>
              cases isEdit
              exact ⟨oldImage, index, _, _, _, _, parsed, inserted⟩

end Written

end Ciruela.Client
