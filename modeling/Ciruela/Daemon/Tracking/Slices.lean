import Ciruela.Daemon.Tracking.Progress

/-!
# Blocks in slices

A download is planned so that every block of every file that was not linked from another image
is in exactly one slice. A slice is there when its bit is clear, and then it has a block.
-/

namespace Ciruela

open Foundation

namespace Progress

/-- A block of an index: its path, where it begins, and its hash. -/
abbrev Spot := Path × Nat × List UInt8

/-- Where the bytes of a block are to go, and their hash. -/
def Block.spot (block : Block) : Spot := (block.path, block.offset, block.hash.bytes)

/-- The blocks of a file, each at its offset. -/
def fileSpots (blockSize : Nat) (path : Path) (hashes : List (List UInt8)) : List Spot :=
  hashes.zipIdx.map fun (hash, i) => (path, i * blockSize, hash)

/-- The file was linked from another image. -/
def Linked (hardlinks : List Path) (path : Path) : Prop :=
  ∃ link ∈ hardlinks, link.components = path.components

instance (hardlinks : List Path) (path : Path) : Decidable (Linked hardlinks path) :=
  inferInstanceAs (Decidable (∃ link ∈ hardlinks, _))

/-- The blocks of an entry that are to be fetched: those of a file that is not linked. -/
def entrySpots (blockSize : Nat) (hardlinks : List Path) : Entry → List Spot
  | .file path _ _ hashes => if Linked hardlinks path then [] else fileSpots blockSize path hashes
  | _ => []

/-- The blocks of all files of an index that were not linked. -/
def indexSpots (index : IndexData) (hardlinks : List Path) : List Spot :=
  index.entries.flatMap (entrySpots index.blockSize hardlinks)

section Blocks

variable {blockSize : Nat}

/-- The blocks of a file with all its hashes. -/
theorem exists_fileBlocks {path : Path} {exe : Bool} {size : Nat} {hashes : List (List UInt8)}
    (whole : (Entry.file path exe size hashes).Whole blockSize) :
    ∃ blocks, fileBlocks blockSize path hashes = .ok blocks ∧
      blocks.map Block.spot = fileSpots blockSize path hashes := by
  obtain ⟨fits, counted, supported⟩ := whole
  refine Run.exists_mapM Block.spot (fun (item : List UInt8 × Nat) =>
    (path, item.2 * blockSize, item.1))
    fun (hash, i) member => ?_
  obtain ⟨_, inside, isHash⟩ := List.mem_zipIdx member
  rw [Nat.zero_add] at inside
  obtain ⟨read, isRead, bytes⟩ := BlockHash.exists_fromBytes (supported hash (isHash ▸ List.getElem_mem _))
  -- a block begins inside of the file, and so its offset is not cut off
  have begins : i * blockSize < size := by
    rw [counted] at inside
    rcases Nat.eq_zero_or_pos blockSize with rfl | positive
    · simp [blockCount] at inside
    · exact (lt_blockCount_iff positive).mp inside
  refine ⟨⟨read, path, i * blockSize⟩, ?_, ?_⟩
  · dsimp only
    rw [isRead, Nat.mod_eq_of_lt (begins.trans fits)]
    rfl
  · rw [Block.spot, bytes]

/-- The blocks of an index that was read are its spots. -/
theorem exists_indexBlocks {index : IndexData} (hardlinks : List Path)
    (whole : ∀ entry ∈ index.entries, entry.Whole index.blockSize) :
    ∃ blocks, indexBlocks index hardlinks = .ok blocks ∧
      blocks.map Block.spot = indexSpots index hardlinks := by
  unfold indexBlocks
  refine Run.exists_bind (Run.exists_mapM (List.map Block.spot)
    (entrySpots index.blockSize hardlinks) fun entry member => ?_) fun blocks spots => ?_
  · cases entry with
    | dir path => exact ⟨[], rfl, rfl⟩
    | link path dest => exact ⟨[], rfl, rfl⟩
    | file path exe size hashes =>
        have linked : (hardlinks.any fun other => other.components == path.components) = true ↔
            Linked hardlinks path := by
          simp [Linked]
        unfold entrySpots
        dsimp only
        by_cases isLinked : Linked hardlinks path
        · rw [if_pos (linked.mpr isLinked), if_pos isLinked]
          exact ⟨[], rfl, rfl⟩
        · rw [if_neg (fun any => isLinked (linked.mp any)), if_neg isLinked]
          exact exists_fileBlocks (whole _ member)
  · refine ⟨blocks.flatten, rfl, ?_⟩
    rw [List.map_flatten, spots, indexSpots, List.flatMap]

end Blocks

section Bits

variable {count : Nat} {plan : List Slice × Mask}

/-- The bits that are clear are those of the slices that are there, and every slice that is there
has a block. -/
structure Marked (plan : List Slice × Mask) : Prop where
  bits : ∀ i, plan.2.has i = decide (plan.1.length ≤ i ∧ i < 16)
  filled : ∀ slice ∈ plan.1, slice.blocks ≠ []

/-- A chunk is added to a slice that has blocks, or to a new one. -/
theorem Marked.deal (marked : Marked plan) (dealt : Dealt count plan) {chunk : List Block}
    (nonempty : chunk ≠ []) : Marked (Progress.deal plan (chunk, count)) := by
  have length := dealt.length
  have below : count % maxSlices < 15 := Nat.mod_lt _ (by decide)
  have grown := dealt.grow
  have total := dealt.grown.1
  unfold Progress.deal
  dsimp only at total ⊢
  constructor
  · intro i
    rw [Mask.has_sliceUnfetched _ (by omega), marked.bits, List.length_modify, total, length,
      ← Bool.decide_and, decide_eq_decide]
    by_cases few : count < maxSlices
    · rw [Nat.mod_eq_of_lt few]
      unfold maxSlices at *
      omega
    · unfold maxSlices at *
      omega
  · intro slice member
    obtain ⟨i, inside, isSlice⟩ := List.mem_iff_getElem.mp member
    rw [List.length_modify] at inside
    rw [List.getElem_modify] at isSlice
    split at isSlice
    · rw [← isSlice, Slice.addBlocks]
      exact List.append_ne_nil_of_right_ne_nil _ nonempty
    · rename_i other
      have old : i < plan.1.length := by
        rw [total] at inside
        by_cases few : count < maxSlices
        · rw [Nat.mod_eq_of_lt few] at other
          omega
        · omega
      have same : (Progress.grow plan.1 (count % maxSlices))[i] = plan.1[i] := by
        simp only [grown]
        exact List.getElem_append_left old
      rw [← isSlice, same]
      exact marked.filled _ (List.getElem_mem old)

/-- Dealing marks the slices that get blocks. -/
theorem marked_foldl (marked : Marked plan) (dealt : Dealt count plan) {pieces : List (List Block)}
    (nonempty : ∀ chunk ∈ pieces, chunk ≠ []) : Marked ((pieces.zipIdx count).foldl deal plan) := by
  induction pieces generalizing count plan with
  | nil => exact marked
  | cons chunk rest ih =>
      rw [List.zipIdx_cons, List.foldl_cons]
      obtain ⟨first, others⟩ := List.forall_mem_cons.mp nonempty
      exact ih (marked.deal dealt first) (dealt.deal chunk).1 others

/-- No chunk is empty. -/
theorem chunks_ne_nil {Item : Type} {size : Nat} (positive : 0 < size) {items chunk : List Item}
    (member : chunk ∈ chunks size items) : chunk ≠ [] := by
  obtain ⟨i, inside, rfl⟩ := List.mem_map.mp member
  have begins : i * size < items.length :=
    (lt_blockCount_iff positive).mp (List.mem_range.mp inside)
  rw [← List.length_pos_iff, List.length_take, List.length_drop]
  omega

/-- What `fill_blocks` makes has its slices marked. -/
theorem fillBlocks_marked {index : IndexData} {hardlinks : List Path}
    (fills : fillBlocks index hardlinks = .ok plan) : ∃ count, Dealt count plan ∧ Marked plan := by
  obtain ⟨blocks, _, done⟩ := Run.bind_eq_ok_iff.mp fills
  rw [← Except.ok.inj done]
  have start : Dealt 0 ([], Mask.full) := ⟨rfl, rfl, by simp, by simp⟩
  have empty : Marked ([], Mask.full) := by
    refine ⟨fun i => ?_, by simp⟩
    rw [Mask.has_full]
    simp
  refine ⟨_, (dealt_foldl start _).1, ?_⟩
  exact marked_foldl empty start fun chunk member => chunks_ne_nil (by decide) member

end Bits

/-- What a download of an index is planned as, in some slices with a mask. -/
structure Covers (index : IndexData) (hardlinks : List Path) (slices : List Slice) (mask : Mask) :
    Prop where
  /-- Every block of a file that was not linked is in one slice, and nothing else is. -/
  exact : (placed slices).map (fun item => item.2.spot) = (indexSpots index hardlinks : Multiset Spot)
  nodup : (slices.map Slice.index).Nodup
  few : ∀ slice ∈ slices, slice.index < maxSlices
  clear : ∀ i < maxSlices,
    mask.has i = false ↔ ∃ slice ∈ slices, slice.index = i ∧ slice.blocks ≠ []
  indexBit : mask.has 15 = true
  unlinked : ∀ item ∈ placed slices, ¬ Linked hardlinks item.2.path

/-- A block that is placed is a spot of the index. -/
theorem Covers.spot_mem {index : IndexData} {hardlinks : List Path} {slices : List Slice} {mask : Mask}
    (covers : Covers index hardlinks slices mask) {item : Nat × Block} (isPlaced : item ∈ placed slices) :
    item.2.spot ∈ indexSpots index hardlinks := by
  have recorded := Multiset.mem_map_of_mem (fun item : Nat × Block => item.2.spot) isPlaced
  rw [covers.exact] at recorded
  exact Multiset.mem_coe.mp recorded

/-- A spot is not that of a linked file. -/
theorem not_linked_of_mem {index : IndexData} {hardlinks : List Path} {spot : Spot}
    (member : spot ∈ indexSpots index hardlinks) : ¬ Linked hardlinks spot.1 := by
  obtain ⟨entry, _, isSpot⟩ := List.mem_flatMap.mp member
  cases entry with
  | file path exe size hashes =>
      unfold entrySpots at isSpot
      dsimp only at isSpot
      split at isSpot
      · cases isSpot
      · rename_i unlinked
        obtain ⟨item, _, rfl⟩ := List.mem_map.mp isSpot
        exact unlinked
  | _ => cases isSpot

/-- The blocks of every index that is read are dealt out completely and without repetition,
however the slices are shuffled. -/
theorem blocks_covered {parser : Parser} (checks : parser.Checks) {id : ImageId}
    {bytes : List UInt8} {index : IndexData}
    (parsed : IndexData.parse parser id bytes = .ok (some index)) (hardlinks : List Path) :
    ∃ slices mask, fillBlocks index hardlinks = .ok (slices, mask) ∧
      ∀ shuffled : List Slice, shuffled.Perm slices → Covers index hardlinks shuffled mask := by
  obtain ⟨blocks, reads, spots⟩ :=
    exists_indexBlocks hardlinks (IndexData.whole_of_parse checks parsed)
  obtain ⟨⟨slices, mask⟩, fills⟩ : (fillBlocks index hardlinks).Returns :=
    Run.returns_bind.mpr ⟨blocks, reads, Run.returns_pure _⟩
  refine ⟨slices, mask, fills, fun shuffled shuffles => ?_⟩
  obtain ⟨others, same, plans⟩ := fillBlocks_plans fills shuffles
  obtain rfl := Except.ok.inj (reads.symm.trans same)
  obtain ⟨count, dealt, marked⟩ := fillBlocks_marked fills
  have exact : (placed shuffled).map (fun item => item.2.spot) =
      (indexSpots index hardlinks : Multiset Spot) := by
    rw [← spots, ← Multiset.map_coe, ← plans.total, Multiset.map_map]
    rfl
  refine ⟨exact, plans.nodup, plans.few, fun i below => ?_, ?_, fun item member => ?_⟩
  · rw [marked.bits, decide_eq_false_iff_not]
    constructor
    · intro clear
      have member : i ∈ slices.map Slice.index := by
        rw [dealt.indices, List.mem_range]
        unfold maxSlices at below
        dsimp only at clear ⊢
        omega
      obtain ⟨slice, isSlice, rfl⟩ := List.mem_map.mp member
      exact ⟨slice, shuffles.mem_iff.mpr isSlice, rfl, marked.filled slice isSlice⟩
    · rintro ⟨slice, isSlice, rfl, _⟩ ⟨tooFar, _⟩
      have member : slice.index ∈ slices.map Slice.index :=
        List.mem_map_of_mem (shuffles.mem_iff.mp isSlice)
      rw [dealt.indices, List.mem_range] at member
      exact absurd member (Nat.not_lt.mpr tooFar)
  · have length := dealt.length
    rw [marked.bits, decide_eq_true_iff]
    unfold maxSlices at length
    omega
  · have isSpot : item.2.spot ∈ (indexSpots index hardlinks : Multiset Spot) := by
      rw [← exact]
      exact Multiset.mem_map_of_mem _ member
    exact not_linked_of_mem (Multiset.mem_coe.mp isSpot)

namespace Sample

/-- The file whose blocks are fetched. -/
def path : Path := .ofText "/a".toList

/-- The file that is linked. -/
def linked : Path := .ofText "/b".toList

/-- An index of two files, one of two blocks and one of a single block. -/
def entries : List Entry :=
  [.file path false 6 [List.replicate 32 1, List.replicate 32 2],
    .file linked false 3 [List.replicate 32 3]]

/-- An index with both files. -/
def index : IndexData := ⟨⟨[]⟩, .blake2bx256, 4, entries, 9, 3⟩

/-- Every index is this one. -/
def parser : Parser := fun _ => some (⟨.blake2bx256, 4⟩, entries.map some)

theorem checks : parser.Checks := by
  intro bytes header items parses entry member
  obtain ⟨rfl, rfl⟩ := Prod.mk.inj (Option.some.inj parses)
  simp only [entries, List.map_cons, List.map_nil, List.mem_cons, Option.some.injEq,
    List.not_mem_nil, or_false] at member
  rcases member with rfl | rfl
  · refine ⟨by decide, rfl, ?_⟩
    decide
  · refine ⟨by decide, rfl, ?_⟩
    decide

end Sample

/-- One of two files was linked. -/
theorem blocks_covered_linked :
    ∃ slices mask, fillBlocks Sample.index [Sample.linked] = .ok (slices, mask) ∧
      ∀ shuffled : List Slice, shuffled.Perm slices →
        Covers Sample.index [Sample.linked] shuffled mask := by
  have parsed : IndexData.parse Sample.parser ⟨[]⟩ [] = .ok (some Sample.index) := rfl
  exact blocks_covered Sample.checks parsed [Sample.linked]

end Progress

end Ciruela
