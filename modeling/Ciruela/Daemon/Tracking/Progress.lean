import Ciruela.BlockId
import Ciruela.Daemon.IndexCache
import Ciruela.Daemon.Mask
import Mathlib.Algebra.BigOperators.Group.List.Basic
import Mathlib.Algebra.BigOperators.Group.Multiset.Basic
import Mathlib.Tactic.Abel

/-!
# The plan of a download

Before the blocks of an image are fetched, they are dealt out to at most fifteen slices
in chunks of a hundred, and the bits of the slices are taken out of the mask.
-/

namespace Ciruela

open Foundation

namespace Progress

/-- `MAX_SLICES`. -/
def maxSlices : Nat := 15

/-- A block of a file, which a download has to write. -/
structure Block where
  hash : BlockHash
  path : Path
  offset : Nat
deriving DecidableEq

/-- `Slice`: blocks that are fetched together, and how many of them are being fetched. -/
structure Slice where
  index : Nat
  inProgress : Nat
  blocks : List Block
deriving DecidableEq

/-- `Slice::new`. -/
def Slice.new (index : Nat) : Slice := ⟨index, 0, []⟩

/-- `Slice::add_blocks`. -/
def Slice.addBlocks (slice : Slice) (blocks : List Block) : Slice :=
  { slice with blocks := slice.blocks ++ blocks }

/-- The blocks of a file. Offsets are 64 bits wide. -/
def fileBlocks (blockSize : Nat) (path : Path) (hashes : List (List UInt8)) : Run (List Block) :=
  hashes.zipIdx.mapM fun (hash, i) => do
    let hash ← Run.expect (BlockHash.fromBytes hash) "valid hash type"
    return ⟨hash, path, i * blockSize % 2 ^ 64⟩

/-- The blocks of all files that are not hard links. -/
def indexBlocks (index : IndexData) (hardlinks : List Path) : Run (List Block) := do
  let blocks ← index.entries.mapM fun
    | .dir _ => return []
    | .link _ _ => return []
    | .file path _ _ hashes =>
        if hardlinks.any fun other => other.components == path.components then return []
        else fileBlocks index.blockSize path hashes
  return blocks.flatten

/-- `<[T]>::chunks`. -/
def chunks {Item : Type} (size : Nat) (items : List Item) : List (List Item) :=
  (List.range ((items.length + size - 1) / size)).map fun i => (items.drop (i * size)).take size

/-- Add slices until there is one at `position`. -/
def grow (slices : List Slice) (position : Nat) : List Slice :=
  slices ++ (List.range' slices.length (position + 1 - slices.length)).map Slice.new

/-- Deal out the chunk with the number `idx`. -/
def deal (plan : List Slice × Mask) (chunk : List Block × Nat) : List Slice × Mask :=
  let position := chunk.2 % maxSlices
  ((grow plan.1 position).modify position fun slice => slice.addBlocks chunk.1,
    plan.2.sliceUnfetched position)

/-- The slices and the mask of `fill_blocks`. The slices are shuffled afterwards. -/
def fillBlocks (index : IndexData) (hardlinks : List Path) : Run (List Slice × Mask) := do
  let blocks ← indexBlocks index hardlinks
  return (chunks 100 blocks).zipIdx.foldl deal ([], Mask.full)

/-- The blocks of the slices, each with the index of its slice. -/
def placed (slices : List Slice) : Multiset (Nat × Block) :=
  (slices.map fun slice => ((slice.blocks.map (slice.index, ·)) : Multiset (Nat × Block))).sum

section Chunks

variable {Item : Type}

theorem flatten_range_chunks (size count : Nat) (items : List Item) :
    ((List.range count).map fun i => (items.drop (i * size)).take size).flatten =
      items.take (count * size) := by
  induction count with
  | zero => simp
  | succ count ih =>
      rw [List.range_succ, List.map_append, List.flatten_append, ih, Nat.succ_mul, List.take_add]
      simp

/-- Chunks put together are the list that they were cut from. -/
theorem flatten_chunks {size : Nat} (positive : 0 < size) (items : List Item) :
    (chunks size items).flatten = items := by
  unfold chunks
  rw [flatten_range_chunks]
  apply List.take_of_length_le
  have whole := Nat.div_add_mod (items.length + size - 1) size
  have rest := Nat.mod_lt (items.length + size - 1) positive
  rw [Nat.mul_comm] at whole
  omega

end Chunks

section Plan

theorem placed_cons (slice : Slice) (slices : List Slice) :
    placed (slice :: slices) = (slice.blocks.map (slice.index, ·) : List (Nat × Block)) + placed slices := by
  simp [placed]

theorem placed_append (front back : List Slice) :
    placed (front ++ back) = placed front + placed back := by
  simp [placed]

/-- Where blocks are placed does not depend on the order of the slices. -/
theorem placed_perm {slices others : List Slice} (perm : slices.Perm others) :
    placed slices = placed others :=
  (perm.map _).sum_eq

/-- A block is placed in the slice that has it. -/
theorem mem_placed {slices : List Slice} {index : Nat} {block : Block} :
    (index, block) ∈ placed slices ↔ ∃ slice ∈ slices, slice.index = index ∧ block ∈ slice.blocks := by
  induction slices with
  | nil => simp [placed]
  | cons slice rest ih =>
      rw [placed_cons, Multiset.mem_add, ih]
      simp only [Multiset.mem_coe, List.mem_map, Prod.mk.injEq, List.mem_cons, exists_eq_or_imp]
      constructor
      · rintro (⟨_, isBlock, rfl, rfl⟩ | later)
        · exact Or.inl ⟨rfl, isBlock⟩
        · exact Or.inr later
      · rintro (⟨rfl, isBlock⟩ | later)
        · exact Or.inl ⟨_, isBlock, rfl, rfl⟩
        · exact Or.inr later

/-- The plan after `count` chunks: the slices are numbered in order, nothing is being
fetched, and the bit of each is clear. -/
structure Dealt (count : Nat) (plan : List Slice × Mask) : Prop where
  length : plan.1.length = min count maxSlices
  indices : plan.1.map Slice.index = List.range plan.1.length
  fresh : ∀ slice ∈ plan.1, slice.inProgress = 0
  unfetched : ∀ slice ∈ plan.1, plan.2.has slice.index = false

/-- A chunk goes to a new slice or to one that is there. -/
theorem Dealt.grow {count : Nat} {plan : List Slice × Mask} (dealt : Dealt count plan) :
    Progress.grow plan.1 (count % maxSlices) =
      plan.1 ++ (if count < maxSlices then [Slice.new count] else []) := by
  have length := dealt.length
  unfold Progress.grow
  by_cases few : count < maxSlices
  · rw [Nat.mod_eq_of_lt few, if_pos few, length, Nat.min_eq_left few.le, Nat.add_sub_cancel_left]
    rfl
  · have inside : count % maxSlices < maxSlices := Nat.mod_lt _ (by decide)
    rw [Nat.min_eq_right (Nat.le_of_not_lt few)] at length
    have none : count % maxSlices + 1 - plan.1.length = 0 := by omega
    rw [none, if_neg few]
    rfl

/-- The slices that are there before a chunk is added. -/
theorem Dealt.grown {count : Nat} {plan : List Slice × Mask} (dealt : Dealt count plan) :
    let slices := Progress.grow plan.1 (count % maxSlices)
    slices.length = min (count + 1) maxSlices ∧ slices.map Slice.index = List.range slices.length ∧
      (∀ slice ∈ slices, slice.inProgress = 0) ∧
      (∀ slice ∈ slices, (plan.2.sliceUnfetched (count % maxSlices)).has slice.index = false) ∧
      placed slices = placed plan.1 := by
  have length := dealt.length
  have inside : count % maxSlices < 16 := Nat.lt_of_lt_of_le (Nat.mod_lt _ (by decide)) (by decide)
  have old : ∀ slice ∈ plan.1,
      (plan.2.sliceUnfetched (count % maxSlices)).has slice.index = false := by
    intro slice member
    rw [Mask.has_sliceUnfetched _ inside, dealt.unfetched slice member, Bool.false_and]
  dsimp only
  rw [dealt.grow]
  by_cases few : count < maxSlices
  · rw [if_pos few]
    rw [Nat.min_eq_left few.le] at length
    refine ⟨?_, ?_, ?_, ?_, ?_⟩
    · rw [List.length_append, length, Nat.min_eq_left few]
      rfl
    · rw [List.map_append, dealt.indices, List.length_append, length]
      exact List.range_succ.symm
    · intro slice member
      rcases List.mem_append.mp member with known | new
      · exact dealt.fresh slice known
      · rw [List.mem_singleton.mp new]
        rfl
    · intro slice member
      rcases List.mem_append.mp member with known | new
      · exact old slice known
      · rw [List.mem_singleton.mp new, Mask.has_sliceUnfetched _ inside]
        simp [Slice.new, Nat.mod_eq_of_lt few]
    · rw [placed_append]
      simp [placed, Slice.new]
  · rw [if_neg few, List.append_nil]
    refine ⟨?_, dealt.indices, dealt.fresh, old, rfl⟩
    omega

/-- Dealing one chunk more. -/
theorem Dealt.deal {count : Nat} {plan : List Slice × Mask} (dealt : Dealt count plan)
    (chunk : List Block) :
    Dealt (count + 1) (Progress.deal plan (chunk, count)) ∧
      (placed (Progress.deal plan (chunk, count)).1).map Prod.snd =
        (placed plan.1).map Prod.snd + (chunk : Multiset Block) := by
  obtain ⟨length, indices, fresh, unfetched, same⟩ := dealt.grown
  have inside : count % maxSlices < maxSlices := Nat.mod_lt _ (by decide)
  have position : count % maxSlices < (Progress.grow plan.1 (count % maxSlices)).length := by
    have atMost := Nat.mod_le count maxSlices
    omega
  obtain ⟨front, slice, back, whole, _, modified⟩ :=
    List.exists_of_modify (fun slice => slice.addBlocks chunk) position
  unfold Progress.deal
  dsimp only
  rw [modified]
  rw [whole] at length indices fresh unfetched same
  constructor
  · refine ⟨by simpa using length, by simpa [Slice.addBlocks] using indices, ?_, ?_⟩
    · intro other member
      rcases List.mem_append.mp member with before | after
      · exact fresh other (List.mem_append_left _ before)
      · rcases List.mem_cons.mp after with rfl | later
        · exact fresh slice (by simp)
        · exact fresh other (by simp [later])
    · intro other member
      rcases List.mem_append.mp member with before | after
      · exact unfetched other (List.mem_append_left _ before)
      · rcases List.mem_cons.mp after with rfl | later
        · exact unfetched slice (by simp)
        · exact unfetched other (by simp [later])
  · rw [← same, placed_append, placed_append, placed_cons, placed_cons]
    simp only [Slice.addBlocks, List.map_append, ← Multiset.coe_add, Multiset.map_add,
      Multiset.map_coe, List.map_map]
    have back' : (chunk.map (Prod.snd ∘ fun block => (slice.index, block))) = chunk := by
      simp [Function.comp_def]
    rw [back']
    abel

/-- Dealing the chunks one after another. -/
theorem dealt_foldl {count : Nat} {plan : List Slice × Mask} (dealt : Dealt count plan)
    (pieces : List (List Block)) :
    Dealt (count + pieces.length) ((pieces.zipIdx count).foldl deal plan) ∧
      (placed ((pieces.zipIdx count).foldl deal plan).1).map Prod.snd =
        (placed plan.1).map Prod.snd + (pieces.flatten : Multiset Block) := by
  induction pieces generalizing count plan with
  | nil => simpa using dealt
  | cons chunk rest ih =>
      obtain ⟨next, total⟩ := dealt.deal chunk
      obtain ⟨last, sum⟩ := ih next
      rw [List.zipIdx_cons, List.foldl_cons, List.length_cons, List.flatten_cons]
      refine ⟨by rwa [Nat.add_comm rest.length, ← Nat.add_assoc], ?_⟩
      rw [sum, total, ← Multiset.coe_add, add_assoc]

/-- What `fill_blocks` plans: every block of the index once, in slices with different
indices whose bits are clear. -/
structure Plans (blocks : List Block) (slices : List Slice) (mask : Mask) : Prop where
  nodup : (slices.map Slice.index).Nodup
  few : ∀ slice ∈ slices, slice.index < maxSlices
  fresh : ∀ slice ∈ slices, slice.inProgress = 0
  unfetched : ∀ slice ∈ slices, mask.has slice.index = false
  total : (placed slices).map Prod.snd = blocks

/-- What `fill_blocks` makes is a plan of the blocks, however it is shuffled. -/
theorem fillBlocks_plans {index : IndexData} {hardlinks : List Path} {slices shuffled : List Slice}
    {mask : Mask} (fills : fillBlocks index hardlinks = .ok (slices, mask))
    (shuffles : shuffled.Perm slices) :
    ∃ blocks, indexBlocks index hardlinks = .ok blocks ∧ Plans blocks shuffled mask := by
  obtain ⟨blocks, read, done⟩ := Run.bind_eq_ok_iff.mp fills
  have start : Dealt 0 ([], Mask.full) := ⟨rfl, rfl, by simp, by simp⟩
  obtain ⟨dealt, total⟩ := dealt_foldl start (chunks 100 blocks)
  rw [Except.ok.inj done] at dealt total
  have numbered : ∀ slice ∈ slices, slice.index < maxSlices := by
    intro slice member
    have inRange : slice.index ∈ List.range slices.length :=
      dealt.indices ▸ List.mem_map_of_mem member
    have below := List.mem_range.mp inRange
    have length := dealt.length
    dsimp only at length
    omega
  refine ⟨blocks, read, ?_, fun slice member => ?_, fun slice member => ?_, fun slice member => ?_, ?_⟩
  · rw [(shuffles.map _).nodup_iff, dealt.indices]
    exact List.nodup_range
  · exact numbered slice (shuffles.mem_iff.mp member)
  · exact dealt.fresh slice (shuffles.mem_iff.mp member)
  · exact dealt.unfetched slice (shuffles.mem_iff.mp member)
  · rw [placed_perm shuffles, total, flatten_chunks (by decide)]
    simp [placed]

end Plan

end Progress

end Ciruela
