import Ciruela.Blocks
import Ciruela.Daemon.IndexCache
import Ciruela.VirtualPath

/-!
# Directories that are served

The blocks of a directory are registered by its index: each is a part of a file on disk. Two files
may have the same block, and then the one that was registered last is read. What is read has the
hash that was asked for as long as the files are what the index says.
-/

namespace Ciruela

open Foundation

/-- Why the blocks of a directory cannot be registered. -/
inductive DirError where
  | parse
  | hashSize
deriving DecidableEq

/-- The hashes of an entry. -/
def Entry.blockHashes : Entry → List (List UInt8)
  | .file _ _ _ hashes => hashes
  | _ => []

namespace BlockReader

/-- Where a file of the index is on disk. -/
def diskPath (dir path : Path) : Run Path := do
  let relative ← Run.expect (path.stripPrefix VPath.rootPath) "paths are absolute"
  return dir.join relative

/-- The inner loop of `_register_dir`. Hashes in front of one that is not supported stay
registered. -/
def registerHashes (blockSize : Nat) (path : Path) :
    List (List UInt8 × Nat) → Nat → BlockReader → Run (Except DirError Unit × BlockReader)
  | [], _, reader => return (.ok (), reader)
  | (hash, idx) :: rest, left, reader =>
      match BlockHash.fromBytes hash with
      | none => return (.error .hashSize, reader)
      | some id =>
          if idx * blockSize < 2 ^ 64 then
            registerHashes blockSize path rest (left - blockSize)
              (reader.insert id (.disk path (idx * blockSize) (min left blockSize)))
          else .error (.overflow "attempt to multiply with overflow")

/-- The outer loop of `_register_dir`. -/
def registerEntries (blockSize : Nat) (dir : Path) :
    List (Option Entry) → BlockReader → Run (Except DirError Unit × BlockReader)
  | [], reader => return (.ok (), reader)
  | none :: _, _ => .error (.expect "just created index is valid")
  | some (.file path _ size hashes) :: rest, reader => do
      let path ← diskPath dir path
      match ← registerHashes blockSize path hashes.zipIdx size reader with
      | (.error error, reader) => return (.error error, reader)
      | (.ok (), reader) => registerEntries blockSize dir rest reader
  | some _ :: rest, reader => registerEntries blockSize dir rest reader

/-- `_register_dir`. -/
def registerDir (parser : Parser) (dir : Path) (indexData : List UInt8) (reader : BlockReader) :
    Run (Except DirError Unit × BlockReader) :=
  match parser indexData with
  | none => return (.error .parse, reader)
  | some (header, items) => registerEntries header.blockSize dir items reader

variable {files : Path → Option (List UInt8)} {digest : List UInt8 → List UInt8}
  {blockSize : Nat} {reader after : BlockReader} {result : Except DirError Unit}

/-- A block can be read that has this hash. -/
def Serves (files : Path → Option (List UInt8)) (digest : List UInt8 → List UInt8)
    (reader : BlockReader) (hash : BlockHash) : Prop :=
  ∃ block, reader.readBlock files hash = .ok (.ok block) ∧ digest block = hash.bytes

/-- Every hash that is registered is served. -/
def Good (files : Path → Option (List UInt8)) (digest : List UInt8 → List UInt8)
    (reader : BlockReader) : Prop :=
  ∀ hash, hash ∈ reader.blocks → reader.Serves files digest hash

/-- The file is on disk as its entry says. -/
def Holds (files : Path → Option (List UInt8)) (digest : List UInt8 → List UInt8)
    (blockSize : Nat) (dir : Path) : Entry → Prop
  | .file path _ size hashes => ∃ place content, diskPath dir path = .ok place ∧
      files place = some content ∧ content.length = size ∧ content.length < 2 ^ 64 ∧
      hashes = hashFile digest blockSize content
  | _ => True

/-- What the registration of these hashes has come to. -/
structure Registered (files : Path → Option (List UInt8)) (digest : List UInt8 → List UInt8)
    (hashes : List (List UInt8)) (before : BlockReader) (result : Except DirError Unit)
    (after : BlockReader) : Prop where
  good : before.Good files digest → after.Good files digest
  keeps : ∀ hash ∈ before.blocks, hash ∈ after.blocks
  complete : result = .ok () ↔ ∀ bytes ∈ hashes, bytes.length = 32
  registered : result = .ok () → ∀ hash : BlockHash, hash.bytes ∈ hashes → hash ∈ after.blocks

section Registered

/-- A part of a file that has the hash is served, and what was served before still is. -/
theorem Good.insert (good : reader.Good files digest) {id : BlockHash} {place : Path}
    {content : List UInt8} {offset size : Nat} (isFile : files place = some content)
    (inside : ((content.drop offset).take size).length = size)
    (isHash : digest ((content.drop offset).take size) = id.bytes) :
    (reader.insert id (.disk place offset size)).Good files digest := by
  intro hash member
  by_cases same : hash = id
  · subst same
    refine ⟨(content.drop offset).take size, ?_, isHash⟩
    have found : (reader.insert hash (.disk place offset size)).blocks.lookup hash =
        some (.disk place offset size) := by
      rw [BlockReader.insert, Map.lookup_insert_eq, if_pos rfl]
    rw [readBlock, found]
    simp [isFile, inside, Run.assert]
  · have unchanged : (reader.insert id (.disk place offset size)).blocks.lookup hash =
        reader.blocks.lookup hash := by
      rw [BlockReader.insert, Map.lookup_insert_eq, if_neg same]
    have earlier : hash ∈ reader.blocks := by
      rw [Map.mem_iff_lookup_ne_none] at member ⊢
      rwa [unchanged] at member
    obtain ⟨block, read, isBlock⟩ := good hash earlier
    refine ⟨block, ?_, isBlock⟩
    rw [readBlock, unchanged]
    exact read

/-- The blocks after one is inserted. -/
theorem mem_insert {id hash : BlockHash} {pointer : BlockPointer} :
    hash ∈ (reader.insert id pointer).blocks ↔ hash = id ∨ hash ∈ reader.blocks := by
  rw [BlockReader.insert, Finmap.mem_insert]

/-- Nothing is registered at first. -/
theorem Registered.nil : Registered files digest [] reader (.ok ()) reader :=
  ⟨id, fun _ => id, by simp, by simp⟩

/-- After one registration comes another. -/
theorem Registered.append {first second : List (List UInt8)} {middle : BlockReader}
    (done : Registered files digest first reader (.ok ()) middle)
    (next : Registered files digest second middle result after) :
    Registered files digest (first ++ second) reader result after where
  good := fun good => next.good (done.good good)
  keeps := fun hash member => next.keeps hash (done.keeps hash member)
  complete := by
    rw [next.complete, List.forall_mem_append]
    exact ⟨fun rest => ⟨done.complete.mp rfl, rest⟩, And.right⟩
  registered := by
    intro isOk hash member
    rcases List.mem_append.mp member with here | later
    · exact next.keeps hash (done.registered rfl hash here)
    · exact next.registered isOk hash later

/-- After a registration that failed there is no other. -/
theorem Registered.stops {first : List (List UInt8)} {error : DirError}
    (failed : Registered files digest first reader (.error error) after)
    (second : List (List UInt8)) :
    Registered files digest (first ++ second) reader (.error error) after where
  good := failed.good
  keeps := failed.keeps
  complete := by
    constructor
    · intro isOk
      cases isOk
    · intro supported
      exact failed.complete.mpr fun bytes member => supported bytes (List.mem_append_left _ member)
  registered := by
    intro isOk
    cases isOk

/-- One hash is registered for a part of a file. -/
theorem Registered.insert {id : BlockHash} {place : Path} {content : List UInt8}
    {offset size : Nat} (isFile : files place = some content)
    (inside : ((content.drop offset).take size).length = size)
    (isHash : digest ((content.drop offset).take size) = id.bytes) :
    Registered files digest [id.bytes] reader (.ok ())
      (reader.insert id (.disk place offset size)) where
  good := fun good => good.insert isFile inside isHash
  keeps := fun hash member => mem_insert.mpr (.inr member)
  complete := by simp [id.length]
  registered := by
    intro _ hash member
    exact mem_insert.mpr (.inl (BlockHash.ext (List.mem_singleton.mp member)))

/-- A hash that is not supported ends the registration. -/
theorem Registered.refuse {bytes : List UInt8} (unsupported : BlockHash.fromBytes bytes = none) :
    Registered files digest [bytes] reader (.error .hashSize) reader where
  good := id
  keeps := fun _ => id
  complete := by
    constructor
    · intro isOk
      cases isOk
    · intro supported
      obtain ⟨hash, isSome, _⟩ := BlockHash.exists_fromBytes (supported bytes (by simp))
      cases unsupported.symm.trans isSome
  registered := by
    intro isOk
    cases isOk

/-- The blocks of a file from some block on. -/
def blocksFrom (digest : List UInt8 → List UInt8) (blockSize : Nat) (content : List UInt8)
    (start count : Nat) : List (List UInt8 × Nat) :=
  (List.range' start count).map fun idx => (digest (blockAt blockSize content idx), idx)

/-- The numbered hashes of a file are those of its blocks. -/
theorem zipIdx_hashFile (content : List UInt8) : (hashFile digest blockSize content).zipIdx =
    blocksFrom digest blockSize content 0 (blockCount blockSize content.length) := by
  refine List.ext_getElem (by simp [hashFile, blocksFrom]) fun idx _ _ => ?_
  simp [hashFile, blocksFrom]

/-- The blocks of a file are registered one after another, up to one whose hash is not supported. -/
theorem registerHashes_blocksFrom (digest : List UInt8 → List UInt8) (reader : BlockReader)
    {place : Path} {content : List UInt8} (isFile : files place = some content)
    (bounded : content.length < 2 ^ 64) {start count : Nat}
    (inside : start + count ≤ blockCount blockSize content.length) :
    ∃ result after, registerHashes blockSize place (blocksFrom digest blockSize content start count)
        (content.length - start * blockSize) reader = .ok (result, after) ∧
      Registered files digest ((blocksFrom digest blockSize content start count).map Prod.fst)
        reader result after := by
  induction count generalizing start reader with
  | zero => exact ⟨.ok (), reader, rfl, .nil⟩
  | succ count ih =>
      have positive : 0 < blockSize := by
        rcases Nat.eq_zero_or_pos blockSize with rfl | positive
        · simp [blockCount] at inside
        · exact positive
      have isBlock : start < blockCount blockSize content.length := by omega
      have begins := (lt_blockCount_iff positive).mp isBlock
      have isCons : blocksFrom digest blockSize content start (count + 1) =
          (digest (blockAt blockSize content start), start) ::
            blocksFrom digest blockSize content (start + 1) count := by
        rw [blocksFrom, List.range'_succ]
        rfl
      rw [isCons, registerHashes, List.map_cons]
      cases isHash : BlockHash.fromBytes (digest (blockAt blockSize content start)) with
      | none => exact ⟨.error .hashSize, reader, rfl, (Registered.refuse isHash).stops _⟩
      | some id =>
          have isBytes := BlockHash.fromBytes_eq_some_iff.mp isHash
          have isPart : (content.drop (start * blockSize)).take
              (min (content.length - start * blockSize) blockSize) =
                blockAt blockSize content start := by
            rw [blockAt, List.take_eq_take_iff, List.length_drop]
            omega
          have whole : ((content.drop (start * blockSize)).take
              (min (content.length - start * blockSize) blockSize)).length =
                min (content.length - start * blockSize) blockSize := by
            rw [isPart, length_blockAt, Nat.min_comm]
          have done : Registered files digest [id.bytes] reader (.ok ()) _ :=
            .insert isFile whole (isPart ▸ isBytes.symm)
          obtain ⟨result, after, registers, next⟩ := ih _ (show start + 1 + count ≤ _ by omega)
          refine ⟨result, after, ?_, isBytes ▸ done.append next⟩
          have left : content.length - start * blockSize - blockSize =
              content.length - (start + 1) * blockSize := by
            rw [Nat.succ_mul]
            omega
          dsimp only
          rw [if_pos (by omega), left, registers]

/-- The files of a directory are registered one after another. -/
theorem registerEntries_holds {dir : Path} {entries : List Entry}
    (holds : ∀ entry ∈ entries, Holds files digest blockSize dir entry) :
    ∃ result after, registerEntries blockSize dir (entries.map some) reader = .ok (result, after) ∧
      Registered files digest (entries.flatMap Entry.blockHashes) reader result after := by
  induction entries generalizing reader with
  | nil => exact ⟨.ok (), reader, rfl, .nil⟩
  | cons entry rest ih =>
      obtain ⟨here, later⟩ := List.forall_mem_cons.mp holds
      cases entry with
      | dir path => exact ih later
      | link path dest => exact ih later
      | file path exe size hashes =>
          obtain ⟨place, content, isPlace, isFile, rfl, bounded, rfl⟩ := here
          have all : 0 + blockCount blockSize content.length ≤
              blockCount blockSize content.length := by omega
          obtain ⟨result, middle, registers, done⟩ :=
            registerHashes_blocksFrom digest reader isFile bounded all
          rw [← zipIdx_hashFile, Nat.zero_mul, Nat.sub_zero] at registers
          rw [← zipIdx_hashFile, List.zipIdx_map_fst] at done
          rw [List.map_cons, registerEntries, isPlace, Run.ok_bind, registers, Run.ok_bind]
          cases result with
          | error error => exact ⟨.error error, middle, rfl, done.stops _⟩
          | ok _ =>
              obtain ⟨result, after, registers', next⟩ := ih later
              exact ⟨result, after, registers', done.append next⟩

/-- A directory that its index describes is registered with all of its blocks if and only if all of
its hashes are supported. -/
theorem registerDir_holds (reader : BlockReader) {parser : Parser} {dir : Path}
    {data : List UInt8} {header : Header} {entries : List Entry}
    (reads : parser data = some (header, entries.map some))
    (holds : ∀ entry ∈ entries, Holds files digest header.blockSize dir entry) :
    ∃ result after, reader.registerDir parser dir data = .ok (result, after) ∧
      Registered files digest (entries.flatMap Entry.blockHashes) reader result after := by
  rw [registerDir, reads]
  exact registerEntries_holds holds

end Registered

end BlockReader

end Ciruela
