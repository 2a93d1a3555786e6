import Ciruela.Blocks
import Ciruela.Daemon.Disk.Commit
import Ciruela.Daemon.Tracking.FetchBlocks
import Ciruela.Daemon.Tracking.Slices

/-!
# Blocks that are what their index says

An index says which hash its blocks are hashed with. The commit of an image checks files with
that hash, and a download checks blocks with `BlockHash::hash_bytes`, which is Blake2b whatever
the index says. The functions themselves are those of other packages, and so is the check of a
file.
-/

namespace Ciruela

open Foundation

/-- The functions behind the types of hashes, cut to 32 bytes. -/
abbrev Digest := HashType → List UInt8 → BlockHash

/-- `BlockHash::hash_bytes`. -/
def Digest.hashBytes (digest : Digest) : List UInt8 → BlockHash := digest .blake2bx256

/-- These are the hashes of the blocks of a content, with the function its index names. -/
def Digest.HashesOf (digest : Digest) (hashes : Hashes) (content : List UInt8) : Prop :=
  hashFile (fun block => (digest hashes.header.hashType block).bytes) hashes.header.blockSize
    content = hashes.values

instance (digest : Digest) (hashes : Hashes) (content : List UInt8) :
    Decidable (digest.HashesOf hashes content) :=
  inferInstanceAs (Decidable (_ = _))

/-- A block of a content, with its number. -/
theorem Digest.HashesOf.getElem? {digest : Digest} {hashes : Hashes} {content : List UInt8}
    (isContent : digest.HashesOf hashes content) {number : Nat}
    (inside : number < blockCount hashes.header.blockSize content.length) :
    hashes.values[number]? = some (digest hashes.header.hashType
      (blockAt hashes.header.blockSize content number)).bytes := by
  rw [← isContent, hashFile, List.getElem?_map, List.getElem?_range inside]
  rfl

/-- There are as many hashes as blocks. -/
theorem Digest.HashesOf.length {digest : Digest} {hashes : Hashes} {content : List UInt8}
    (isContent : digest.HashesOf hashes content) :
    hashes.values.length = blockCount hashes.header.blockSize content.length := by
  rw [← isContent, hashFile, List.length_map, List.length_range]

/-- What is assumed of `Hashes::check_file`. -/
structure Digest.Compares (digest : Digest) (checkHashes : Disk.CheckHashes) : Prop where
  /-- Every block of a content that passes has its hash. -/
  hashed : ∀ {hashes content}, checkHashes hashes content = true →
    ∀ number < blockCount hashes.header.blockSize content.length,
      hashes.values[number]? = some (digest hashes.header.hashType
        (blockAt hashes.header.blockSize content number)).bytes
  /-- Contents that pass for the same hashes have as many blocks. -/
  counted : ∀ {hashes content other}, checkHashes hashes content = true →
    checkHashes hashes other = true →
      blockCount hashes.header.blockSize content.length =
        blockCount hashes.header.blockSize other.length

namespace FetchBlocks

open Progress (Block Slice placed Plans)

/-- The data is on its way to the disk, or there. -/
def Writes (block : Block) (slice : Nat) (data : List UInt8) (rest : List FetchBlock)
    (before after : Fetcher) : Prop :=
  (∃ write, after.futures = rest ++ [.writing block slice data write] ∧
    after.written = before.written) ∨
    after.futures = rest ∧ after.written = before.written ++ [⟨block, slice, data⟩]

section Poll

variable {hashBytes : List UInt8 → BlockHash} {planned : Multiset (Nat × Block)}
  {fetcher : Fetcher} {block : Block} {slice left : Nat} {rest : List FetchBlock}

/-- What a poll of the first future does. -/
theorem exec_pollFuture (reply : Reply) {future : FetchBlock}
    (polls : fetcher.phase = .polling (left + 1)) (taken : fetcher.futures = future :: rest) :
    fetcher.exec hashBytes (.pollFuture reply) =
      some ({ fetcher with futures := rest, phase := .polling left }.pollTaken hashBytes reply
        future) := by
  simp only [Fetcher.exec, polls, taken]

/-- A write that begins takes the data along, however it goes. -/
theorem writes_pollWrite {slices : List Slice} {phase : Phase} (data : List UInt8) (write : Write) :
    Writes block slice data rest fetcher
      ({ fetcher with futures := rest, slices := slices, phase := phase }.pollWrite block slice data
        write) := by
  cases write with
  | running => exact Or.inl ⟨.running, rfl, rfl⟩
  | done => exact Or.inr ⟨rfl, rfl⟩
  | failed => exact Or.inl ⟨.failed, rfl, rfl⟩

/-- What starts no write writes nothing. -/
theorem not_writes {data : List UInt8} {after : Fetcher} (futures : after.futures = rest)
    (written : after.written = fetcher.written) : ¬ Writes block slice data rest fetcher after := by
  rintro (⟨write, grown, _⟩ | ⟨_, grown⟩)
  · exact absurd (grown.symm.trans futures) (by simp)
  · exact absurd (grown.symm.trans written) (by simp)

/-- The data of a reply is written when it has the hash that `hash_bytes` compares with the one
of the block, and only then. -/
theorem Inv.writes_iff (inv : Inv hashBytes planned fetcher)
    (polls : fetcher.phase = .polling (left + 1))
    (taken : fetcher.futures = .fetching block slice :: rest) (data : List UInt8) (write : Write) :
    (∃ after, fetcher.exec hashBytes (.pollFuture (.data data write)) = some after ∧
      Writes block slice data rest fetcher after) ↔ hashBytes data = block.hash := by
  have underflow : releaseAll slice fetcher.slices ≠ none ∧
      requeue block slice fetcher.slices ≠ none := by
    have accounts := inv.accounted
    unfold Fetcher.Accounted at accounts
    rw [taken] at accounts
    exact accounts.releases
  rw [exec_pollFuture _ polls taken]
  simp only [Option.some.injEq, exists_eq_left', Fetcher.pollTaken]
  by_cases good : hashBytes data = block.hash
  · obtain ⟨slices, released⟩ := Option.ne_none_iff_exists'.mp underflow.1
    simp only [if_pos good, released]
    exact iff_of_true (writes_pollWrite data write) good
  · obtain ⟨slices, requeued⟩ := Option.ne_none_iff_exists'.mp underflow.2
    simp only [if_neg good, Fetcher.putBack, requeued]
    exact iff_of_false (not_writes rfl rfl) good

end Poll

/-- A block that a run fetches is one of the index. -/
theorem spot_of_fetching {index : IndexData} {hardlinks : List Path} {shuffled : List Slice}
    {mask : Mask} {hashBytes : List UInt8 → BlockHash} {fetcher : Fetcher} {block : Block}
    {slice : Nat} (covers : Progress.Covers index hardlinks shuffled mask)
    (inv : Inv hashBytes (placed shuffled) fetcher)
    (isThere : .fetching block slice ∈ fetcher.futures) :
    block.spot ∈ Progress.indexSpots index hardlinks := by
  have fetches : (slice, block) ∈ fetching fetcher.futures :=
    Multiset.mem_coe.mpr (List.mem_filterMap.mpr ⟨_, isThere, rfl⟩)
  have isPlaced : (slice, block) ∈ placed shuffled := by
    rw [← inv.accounted.total, flight]
    simp [fetches]
  exact covers.spot_mem isPlaced

/-- In every run of a download, the data of a reply that is what the index records for the block
is written exactly when Blake2b hashes it as the index does, and that is so when the index says
Blake2b. -/
theorem true_block_written_iff (digest : Digest) {parser : Parser} (checks : parser.Checks)
    {id : ImageId} {bytes : List UInt8} {index : IndexData}
    (parsed : IndexData.parse parser id bytes = .ok (some index)) {hardlinks : List Path}
    {slices shuffled : List Slice} {mask : Mask}
    (fills : Progress.fillBlocks index hardlinks = .ok (slices, mask))
    (shuffles : shuffled.Perm slices) {trace : List Event} {fetcher : Fetcher}
    (steps : (machine digest.hashBytes).Steps (Fetcher.new shuffled mask) trace fetcher)
    {left slice : Nat} {block : Block} {rest : List FetchBlock}
    (polls : fetcher.phase = .polling (left + 1))
    (taken : fetcher.futures = .fetching block slice :: rest)
    {data : List UInt8} (isTrue : digest index.hashType data = block.hash) (write : Write) :
    block.spot ∈ Progress.indexSpots index hardlinks ∧
      ((∃ after, fetcher.exec digest.hashBytes (.pollFuture (.data data write)) = some after ∧
        Writes block slice data rest fetcher after) ↔
        index.hashType = .blake2bx256 ∨ digest .blake2bx256 data = digest index.hashType data) := by
  obtain ⟨others, mask', fills', covers⟩ := Progress.blocks_covered checks parsed hardlinks
  obtain ⟨rfl, rfl⟩ := Prod.mk.inj (Except.ok.inj (fills'.symm.trans fills))
  obtain ⟨_, _, plans⟩ := Progress.fillBlocks_plans fills shuffles
  have inv := inv_of_steps plans steps
  refine ⟨spot_of_fetching (covers shuffled shuffles) inv (taken ▸ List.mem_cons_self), ?_⟩
  rw [inv.writes_iff polls taken, Digest.hashBytes, ← isTrue]
  constructor
  · exact Or.inr
  · rintro (blake | same)
    · rw [blake]
    · exact same

/-! An image of one file, with an index of each type. -/

namespace Sample

/-- The two hashes of `abc`. -/
def digest : Digest
  | .blake2bx256, data => hashBytes data
  | .sha512x256, data =>
      if data = abc then
        ⟨[83, 4, 142, 38, 129, 148, 30, 249, 155, 46, 41, 183, 107, 76, 125, 171, 228, 194, 208,
          198, 52, 252, 109, 70, 224, 226, 241, 49, 7, 231, 175, 35], rfl⟩
      else hashBytes data

/-- All hashes of a content are compared. -/
def checkHashes : Disk.CheckHashes := fun hashes content => decide (digest.HashesOf hashes content)

/-- The hashes of the example are checked as it is assumed. -/
theorem compares : digest.Compares checkHashes where
  hashed passes _ inside := (of_decide_eq_true passes).getElem? inside
  counted passes others :=
    (of_decide_eq_true passes).length.symm.trans (of_decide_eq_true others).length

/-- The entries of an image with one file, for either type of hash. -/
def typedEntries (hashType : HashType) : List Entry :=
  [.dir (Path.ofText "/".toList),
    .file (Path.ofText "/a".toList) false 3 [(digest hashType abc).bytes]]

/-- The index of that image. -/
def typedIndex (hashType : HashType) : IndexData :=
  ⟨⟨[1]⟩, hashType, 32768, typedEntries hashType, 3, 1⟩

/-- The parser reads that index, whatever the bytes are. -/
def typedParser (hashType : HashType) : Parser := fun _ =>
  some (⟨hashType, 32768⟩, (typedEntries hashType).map some)

/-- The block of the file. -/
def typedBlock (hashType : HashType) : Block :=
  ⟨digest hashType abc, Path.ofText "/a".toList, 0⟩

/-- The slice with the block. -/
def typedSlices (hashType : HashType) : List Slice := [⟨0, 0, [typedBlock hashType]⟩]

theorem typed_checks (hashType : HashType) : (typedParser hashType).Checks := by
  intro bytes header items parses entry member
  obtain ⟨rfl, rfl⟩ := Prod.mk.inj (Option.some.inj parses)
  simp only [typedEntries, List.map_cons, List.map_nil, List.mem_cons, Option.some.injEq,
    List.not_mem_nil, or_false] at member
  rcases member with rfl | rfl
  · trivial
  · exact ⟨by decide, by simp [blockCount], by simp [(digest hashType abc).length]⟩

/-- The block is requested. -/
def requested : List Op :=
  [.enter false, .pollFuture .pending, .retain, .retain, .check false, .spawn true, .spawn true,
    .spawn true]

/-- The run in which the block is asked for. -/
def requests (hashType : HashType) : List Event × Fetcher :=
  (machine digest.hashBytes).play (Fetcher.new (typedSlices hashType) mask) requested

end Sample

/-- The index says Blake2b, and the block is written. -/
theorem true_block_written_blake :
    ∃ after, (Sample.requests .blake2bx256).2.exec Sample.digest.hashBytes
        (.pollFuture (.data Sample.abc .running)) = some after ∧
      Writes (Sample.typedBlock .blake2bx256) 0 Sample.abc [] (Sample.requests .blake2bx256).2
        after := by
  have parsed : IndexData.parse (Sample.typedParser .blake2bx256) ⟨[1]⟩ [] =
      .ok (some (Sample.typedIndex .blake2bx256)) := by decide
  have fills : Progress.fillBlocks (Sample.typedIndex .blake2bx256) [] =
      .ok (Sample.typedSlices .blake2bx256, Sample.mask) := by decide
  have polls : (Sample.requests .blake2bx256).2.phase = .polling (0 + 1) := by decide
  have taken : (Sample.requests .blake2bx256).2.futures =
      [.fetching (Sample.typedBlock .blake2bx256) 0] := by decide
  have isTrue : Sample.digest (Sample.typedIndex .blake2bx256).hashType Sample.abc =
      (Sample.typedBlock .blake2bx256).hash := rfl
  have written := true_block_written_iff Sample.digest (Sample.typed_checks .blake2bx256) parsed fills
    (List.Perm.refl _) (Machine.Steps.of_play _ _ Sample.requested) polls taken isTrue .running
  exact written.2.mpr (Or.inl rfl)

/-- The index says SHA-512/256. A commit accepts the content of the file, and a download does not
write it. -/
theorem true_block_refused :
    let index := Sample.typedIndex .sha512x256
    let block := Sample.typedBlock .sha512x256
    let fetcher := (Sample.requests .sha512x256).2
    IndexData.parse (Sample.typedParser .sha512x256) ⟨[1]⟩ [] = .ok (some index) ∧
      Progress.fillBlocks index [] = .ok (Sample.typedSlices .sha512x256, Sample.mask) ∧
      fetcher.phase = .polling 1 ∧ fetcher.futures = [.fetching block 0] ∧
      Sample.digest index.hashType Sample.abc = block.hash ∧
      Sample.checkHashes ⟨index.header, [block.hash.bytes]⟩ Sample.abc = true ∧
      ¬ ∃ after, fetcher.exec Sample.digest.hashBytes
          (.pollFuture (.data Sample.abc .running)) = some after ∧
        Writes block 0 Sample.abc [] fetcher after := by
  refine ⟨by decide, by decide, by decide, by decide, by decide, by decide, ?_⟩
  rintro ⟨after, moved, writes⟩
  have nothing : after.futures = [] ∧ after.written = [] := by
    rw [← Option.some.inj moved]
    decide
  exact not_writes nothing.1 nothing.2 writes

end FetchBlocks

end Ciruela
