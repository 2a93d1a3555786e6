import Ciruela.BlockId
import Ciruela.Foundation.Cut
import Ciruela.Foundation.Panic
import Ciruela.Foundation.Tree

/-!
# Blocks for an upload

A client registers where the blocks of an upload are, by their hashes, and reads them when a
server asks. A block is in a file or in memory.
-/

namespace Ciruela

open Foundation

/-- Where a block can be read again: in a file at an offset, or in the bytes that were registered.
-/
inductive BlockPointer where
  | disk (path : Path) (offset size : Nat)
  | mem (data : List UInt8) (offset size : Nat)
deriving DecidableEq

/-- `ReadError`: the file could not be read, or nobody has registered the block. -/
inductive ReadError where
  | fs (path : Path)
  | notFound (hash : BlockHash)
deriving DecidableEq

/-- `ThreadedBlockReader`. -/
structure BlockReader where
  blocks : Map BlockHash BlockPointer
deriving DecidableEq

/-- The hashes of consecutive blocks: what is assumed of the hashes that `Hashes::hash_file` of
another package gives. The version that is locked adds the hash of an empty block where the data
ends with a block. -/
def hashFile (digest : List UInt8 → List UInt8) (blockSize : Nat) (data : List UInt8) :
    List (List UInt8) :=
  (List.range (blockCount blockSize data.length)).map fun idx => digest (blockAt blockSize data idx)

/-- `data[offset..][..size]`. -/
def slice (data : List UInt8) (offset size : Nat) : Run (List UInt8) :=
  if offset ≤ data.length then
    if size ≤ data.length - offset then .ok ((data.drop offset).take size)
    else .error (.slice "range end index is out of range")
  else .error (.slice "range start index is out of range")

namespace BlockReader

variable (reader : BlockReader)

/-- `HashMap::insert`: a block that is registered twice is read where it was registered last. -/
def insert (id : BlockHash) (pointer : BlockPointer) : BlockReader :=
  ⟨reader.blocks.insert id pointer⟩

/-- One block of `register_memory_blocks`. The products do not overflow: a block begins inside of
the data, which fills at most half of the memory. -/
def registerBlock (blockSize : Nat) (data : List UInt8) (item : List UInt8 × Nat) :
    Run BlockReader := do
  let (hash, idx) := item
  let id ← Run.expect (BlockHash.fromBytes hash) "block hash converted"
  return reader.insert id
    (.mem data (idx * blockSize) (min data.length ((idx + 1) * blockSize)))

/-- `register_memory_blocks` after `Hashes::hash_file` has hashed the data. -/
def registerHashedBlocks (hashes : List (List UInt8)) (blockSize : Nat) (data : List UInt8) :
    Run BlockReader :=
  hashes.zipIdx.foldlM (fun reader item => reader.registerBlock blockSize data item) reader

/-- `register_memory_blocks`: the data is cut into blocks and each is registered under its hash. -/
def registerMemoryBlocks (digest : List UInt8 → List UInt8) (blockSize : Nat) (data : List UInt8) :
    Run BlockReader :=
  reader.registerHashedBlocks (hashFile digest blockSize data) blockSize data

/-- A file may fail to open. A single read fills the buffer or comes to the end of the file. -/
def readBlock (files : Path → Option (List UInt8)) (hash : BlockHash) :
    Run (Except ReadError (List UInt8)) :=
  match reader.blocks.lookup hash with
  | none => .ok (.error (.notFound hash))
  | some (.disk path offset size) =>
      match files path with
      | none => .ok (.error (.fs path))
      | some content => do
          let result := (content.drop offset).take size
          Run.assert (decide (result.length = size)) "result.len() == size"
          return .ok result
  | some (.mem data offset size) => do
      let result ← slice data offset size
      return .ok result

section Served

variable {digest : List UInt8 → List UInt8} {blockSize : Nat} {data : List UInt8}

/-- A slice is as long as was asked for. -/
theorem length_of_slice {offset size : Nat} {result : List UInt8}
    (read : slice data offset size = .ok result) : result.length = size := by
  unfold slice at read
  split at read
  · split at read
    · rename_i inside
      rw [← Except.ok.inj read, List.length_take, List.length_drop, Nat.min_eq_left inside]
    · cases read
  · cases read

/-- All of the data is a slice of it. -/
theorem slice_all (data : List UInt8) : slice data 0 data.length = .ok data := by
  rw [slice, if_pos (Nat.zero_le _), if_pos (Nat.sub_zero _).ge, List.drop_zero, List.take_length]

/-- A block that is kept in memory is read by slicing the bytes that were registered. -/
theorem readBlock_mem {reader : BlockReader} {files : Path → Option (List UInt8)} {id : BlockHash}
    {offset size : Nat} {result : List UInt8}
    (isThere : reader.blocks.lookup id = some (.mem data offset size)) :
    reader.readBlock files id = .ok (.ok result) ↔ slice data offset size = .ok result := by
  rw [readBlock, isThere]
  dsimp only
  cases slice data offset size with
  | ok found => simp
  | error panic => simp

/-- Blocks are registered one after another, under their hashes. Among blocks with one hash the
last is the one that is found. -/
theorem registered (supported : ∀ block, (digest block).length = 32) (blockSize : Nat)
    (data : List UInt8) (reader : BlockReader) (count : Nat) :
    ∃ after : BlockReader,
      ((List.range count).map fun idx => digest (blockAt blockSize data idx)).zipIdx.foldlM
          (fun reader item => reader.registerBlock blockSize data item) reader = .ok after ∧
        ∀ idx < count, ∀ id : BlockHash, id.bytes = digest (blockAt blockSize data idx) →
          ∃ last, idx ≤ last ∧ last < count ∧ after.blocks.lookup id =
            some (.mem data (last * blockSize) (min data.length ((last + 1) * blockSize))) := by
  induction count with
  | zero => exact ⟨reader, rfl, fun idx below => absurd below (Nat.not_lt_zero idx)⟩
  | succ count ih =>
      obtain ⟨before, registers, found⟩ := ih
      obtain ⟨last, isHash, bytes⟩ :=
        BlockHash.exists_fromBytes (supported (blockAt blockSize data count))
      refine ⟨before.insert last (.mem data (count * blockSize)
        (min data.length ((count + 1) * blockSize))), ?_, fun idx below id isId => ?_⟩
      · rw [List.range_succ, List.map_append, List.zipIdx_append, List.foldlM_append, registers]
        simp [registerBlock, isHash, Run.expect]
      · show ∃ last', idx ≤ last' ∧ last' < count + 1 ∧ (before.blocks.insert last _).lookup id = _
        rw [Map.lookup_insert_eq]
        by_cases same : id = last
        · refine ⟨count, by omega, by omega, ?_⟩
          rw [if_pos same]
        · have earlier : idx < count := by
            refine lt_of_le_of_ne (Nat.le_of_lt_succ below) ?_
            rintro rfl
            apply same
            exact BlockHash.ext (isId.trans bytes.symm)
          obtain ⟨index, atLeast, atMost, isThere⟩ := found idx earlier id isId
          refine ⟨index, atLeast, by omega, ?_⟩
          rw [if_neg same, isThere]

/-- Every block that was registered is read back exactly when there is no second block: what is
kept as the size of a block is its end. -/
theorem memory_blocks_served_iff (supported : ∀ block, (digest block).length = 32)
    (positive : 0 < blockSize) (reader : BlockReader) (files : Path → Option (List UInt8)) :
    (∃ after, reader.registerMemoryBlocks digest blockSize data = .ok after ∧
      ∀ idx < blockCount blockSize data.length, ∀ id : BlockHash,
        id.bytes = digest (blockAt blockSize data idx) →
          after.readBlock files id = .ok (.ok (blockAt blockSize data idx))) ↔
      data.length ≤ blockSize := by
  obtain ⟨after, registers, found⟩ := registered supported blockSize data reader
    (blockCount blockSize data.length)
  constructor
  · rintro ⟨other, same, served⟩
    obtain rfl := Except.ok.inj (registers.symm.trans same)
    rw [← blockCount_le_one_iff positive]
    by_contra several
    -- the last block is read as if it began where the data does
    have isLast : blockCount blockSize data.length - 1 < blockCount blockSize data.length := by omega
    obtain ⟨id, _, isId⟩ := BlockHash.exists_fromBytes
      (supported (blockAt blockSize data (blockCount blockSize data.length - 1)))
    obtain ⟨idx, atLeast, below, isThere⟩ := found _ isLast id isId
    obtain rfl : idx = blockCount blockSize data.length - 1 := by omega
    have read := (readBlock_mem isThere).mp (served _ isLast id isId)
    have length := length_of_slice read
    have begins := (lt_blockCount_iff positive).mp isLast
    have later : blockSize ≤ (blockCount blockSize data.length - 1) * blockSize :=
      Nat.le_mul_of_pos_left blockSize (by omega)
    rw [length_blockAt, Nat.add_mul, Nat.one_mul] at length
    omega
  · intro short
    refine ⟨after, registers, fun idx below id isId => ?_⟩
    have single := (blockCount_le_one_iff positive).mpr short
    obtain rfl : idx = 0 := by omega
    obtain ⟨last, _, below, isThere⟩ := found 0 below id isId
    obtain rfl : last = 0 := by omega
    rw [Nat.zero_mul, Nat.zero_add, Nat.one_mul, Nat.min_eq_left short] at isThere
    rw [readBlock_mem isThere, blockAt_zero short, slice_all]

end Served

namespace Sample

/-- Tells short blocks apart. -/
def digest (block : List UInt8) : List UInt8 := (block ++ List.replicate 32 0).take 32

theorem supported (block : List UInt8) : (digest block).length = 32 := by
  simp [digest]

/-- The hash under which a block of the example is registered. -/
def hash (block : List UInt8) : BlockHash := ⟨digest block, supported block⟩

/-- Register data, and read the block that has the hash of this one. -/
def serve (blockSize : Nat) (data block : List UInt8) : Run (Except ReadError (List UInt8)) := do
  let reader ← registerMemoryBlocks ⟨∅⟩ digest blockSize data
  reader.readBlock (fun _ => none) (hash block)

end Sample

/-- All of the data is in one block. -/
theorem memory_blocks_served_single :
    ∃ after, registerMemoryBlocks ⟨∅⟩ Sample.digest 4 [1, 2, 3] = .ok after ∧
      ∀ idx < blockCount 4 3, ∀ id : BlockHash,
        id.bytes = Sample.digest (blockAt 4 [1, 2, 3] idx) →
          after.readBlock (fun _ => none) id = .ok (.ok (blockAt 4 [1, 2, 3] idx)) :=
  (memory_blocks_served_iff Sample.supported (by decide) ⟨∅⟩ fun _ => none).mpr (by decide)

/-- The second of two blocks panics, and the second of three is read with the one after it. No
two of the blocks have one hash. -/
theorem second_block_misread :
    Sample.serve 2 [1, 2, 3, 4] [3, 4] = .error (.slice "range end index is out of range") ∧
      Sample.digest [1, 2] ≠ Sample.digest [3, 4] ∧
      Sample.serve 1 [1, 2, 3] [2] = .ok (.ok [2, 3]) ∧
      ([[1], [2], [3]].map Sample.digest).Nodup := by
  decide +kernel

end BlockReader

end Ciruela
