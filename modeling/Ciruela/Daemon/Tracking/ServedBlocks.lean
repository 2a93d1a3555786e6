import Ciruela.Daemon.Disk
import Ciruela.Daemon.Metadata.Meta
import Ciruela.Daemon.Tracking.TrueBlocks

/-!
# Blocks that are served

A download asks for a block by its path and by where it begins, and where it begins is counted in
blocks of the index. `Disk::read_block` is not told of the index and reads blocks of one size.
-/

namespace Ciruela

open Foundation

/-- The paths of files begin at the root and end in a name. -/
def Parser.Rooted (parser : Parser) : Prop :=
  ∀ bytes header items, parser bytes = some (header, items) →
    ∀ path exe size hashes, some (Entry.file path exe size hashes) ∈ items →
      path.isAbsolute = true ∧ ∃ name, path.fileName = some name

/-- The paths of a parsed index are rooted. -/
theorem IndexData.rooted_of_parse {parser : Parser} (rooted : parser.Rooted) {id : ImageId}
    {bytes : List UInt8} {data : IndexData} (parsed : parse parser id bytes = .ok (some data))
    {path : Path} {exe : Bool} {size : Nat} {hashes : List (List UInt8)}
    (member : Entry.file path exe size hashes ∈ data.entries) :
    path.isAbsolute = true ∧ ∃ name, path.fileName = some name := by
  unfold parse at parsed
  split at parsed
  · cases parsed
  · rename_i header items isParsed
    split at parsed
    · cases parsed
    · rename_i entries read
      obtain ⟨blocks, _, done⟩ := Run.bind_eq_ok_iff.mp parsed
      rw [← Option.some.inj (Except.ok.inj done)] at member
      exact rooted bytes header items isParsed path exe size hashes (mem_of_mapM read member)

namespace Progress

/-- The block is the one with this number of a file in the index. -/
structure Block.IsOf (block : Block) (index : IndexData) (number size : Nat)
    (hashes : List (List UInt8)) : Prop where
  entry : ∃ exe, Entry.file block.path exe size hashes ∈ index.entries
  hash : hashes[number]? = some block.hash.bytes
  offset : block.offset = number * index.blockSize

/-- A spot is a block of a file of the index. -/
theorem exists_isOf {index : IndexData} {hardlinks : List Path} {block : Block}
    (recorded : block.spot ∈ indexSpots index hardlinks) :
    ∃ number size hashes, block.IsOf index number size hashes := by
  obtain ⟨entry, isEntry, member⟩ := List.mem_flatMap.mp recorded
  cases entry with
  | file path exe size hashes =>
      unfold entrySpots at member
      dsimp only at member
      split at member
      · cases member
      · obtain ⟨⟨hash, number⟩, isHash, same⟩ := List.mem_map.mp member
        obtain ⟨rfl, rest⟩ := Prod.mk.inj same
        obtain ⟨offset, rfl⟩ := Prod.mk.inj rest
        exact ⟨number, size, hashes, ⟨exe, isEntry⟩, List.mem_zipIdx_iff_getElem?.mp isHash,
          offset.symm⟩
  | _ => cases member

end Progress

namespace Disk

section Opens

variable {fs : FileSystem} {location : List FileName} {front back : List Component}

/-- Every directory on the way is there. -/
def Opens (fs : FileSystem) : List FileName → List Component → Prop
  | _, [] => True
  | location, component :: rest =>
      fs.opensDir ⟨location, component⟩ = true ∧ Opens fs (component.enter location) rest

/-- Components that open lead to where they walk. -/
theorem openComponents_of_opens (opens : Opens fs location front) :
    (openComponents fs location front).2 = .ok (walk location front) := by
  induction front generalizing location with
  | nil => rfl
  | cons component rest ih =>
      rw [openComponents]
      simp only [opens.1, if_true]
      exact ih opens.2

/-- A path opens when its parts do, one after the other. -/
theorem opens_append :
    Opens fs location (front ++ back) ↔
      Opens fs location front ∧ Opens fs (walk location front) back := by
  induction front generalizing location with
  | nil => simp [Opens, walk]
  | cons component rest ih =>
      rw [List.cons_append, Opens, Opens, ih, and_assoc]
      rfl

end Opens

/-- The second half answers when the first has led to it. -/
theorem exists_andThen {Value Next : Type} {first : Calls Value} {rest : Value → Run (Calls Next)}
    {value : Value} {result : Next} (found : first.2 = .ok value)
    (answers : ∃ calls, rest value = .ok (calls, .ok result)) :
    ∃ calls, first.andThen rest = .ok (calls, .ok result) := by
  obtain ⟨calls, went⟩ := answers
  exact ⟨_, andThen_of_ok found went⟩

/-- What is opened on the way from the directory of a key to that of a file. -/
def wayTo (spot : Spot) (writing : Bool) (path : Path) : List Component :=
  spot.dir.tail.map .normal ++
    ([if writing then Metadata.tmpFile spot.name else spot.name].map .normal ++
      path.components.tail.dropLast)

/-- The file is there with this content, and a single read of it fills the buffer or comes to
the end. -/
structure Serves (fs : FileSystem) (directory : Directory) (spot : Spot) (writing : Bool)
    (path : Path) (content : List UInt8) : Prop where
  base : fs.opensBase directory.directory = true
  way : Opens fs directory.directory (wayTo spot writing path)
  reads : ∀ name, path.fileName = some name → ∀ offset,
    fs.readsFile ⟨walk directory.directory (wayTo spot writing path), .normal name⟩ offset =
      some (content.drop offset)

variable {config : Config} {fs : FileSystem} {directory : Directory} {vpath : VPath} {spot : Spot}
  {path : Path} {writing : Bool} {content : List UInt8}

/-- A block is read of a file that is served. -/
theorem readBlock_of_serves (located : vpath.place = spot.place) (absolute : path.isAbsolute = true)
    {name : FileName} (named : path.fileName = some name)
    (configured : config.dirs.lookup vpath.key = some directory)
    (serves : Serves fs directory spot writing path content) (offset : Nat) :
    ∃ calls, readBlock config fs vpath path offset writing =
      .ok (calls, .ok ((content.drop offset).take 32768)) := by
  have way := serves.way
  have reads := serves.reads name named offset
  unfold wayTo at way reads
  rw [walk_append, walk_append] at reads
  obtain ⟨toParent, below⟩ := opens_append.mp way
  obtain ⟨toImage, toFile⟩ := opens_append.mp below
  rw [readBlock_at located absolute named configured serves.base]
  refine exists_andThen (openComponents_of_opens toParent)
    (exists_andThen (openComponents_of_opens toImage)
      (exists_andThen (openComponents_of_opens toFile) ?_))
  rw [reads]
  exact ⟨_, rfl⟩

/-- What is read is a block when blocks are as long as the buffer, or when the data ends before
either does. -/
theorem read_eq_blockAt_iff {blockSize number : Nat} :
    (content.drop (number * blockSize)).take 32768 = blockAt blockSize content number ↔
      blockSize = 32768 ∨ content.length - number * blockSize ≤ min blockSize 32768 := by
  rw [blockAt, List.take_eq_take_iff, List.length_drop]
  omega

end Disk

namespace Progress

/-- The content of a file is what the index says. -/
structure Matches (digest : Digest) (index : IndexData) (size : Nat) (hashes : List (List UInt8))
    (content : List UInt8) : Prop where
  length : content.length = size
  hashes : digest.HashesOf ⟨index.header, hashes⟩ content

/-- A block of content that matches has the hash that is recorded. -/
theorem Block.IsOf.hash_eq {digest : Digest} {index : IndexData} {block : Block}
    {number size : Nat} {hashes : List (List UInt8)} {content : List UInt8}
    (isOf : block.IsOf index number size hashes)
    (isContent : Matches digest index size hashes content) :
    digest index.hashType (blockAt index.blockSize content number) = block.hash := by
  have hashed : _ = hashes := isContent.hashes
  have recorded := isOf.hash
  rw [← hashed, hashFile, List.getElem?_map, Option.map_eq_some_iff] at recorded
  obtain ⟨other, inRange, same⟩ := recorded
  obtain ⟨_, rfl⟩ := List.getElem?_eq_some_iff.mp inRange
  rw [List.getElem_range] at same
  exact BlockHash.ext same

/-- Every planned block is one of a file of the index. From a node where the content of the file is
what the index says, the block is read exactly when the blocks of the index are as long as the
buffer, or when what is left of the file is not longer than a block nor than the buffer. -/
theorem planned_block_read_iff (digest : Digest) {parser : Parser} (checks : parser.Checks)
    (rooted : parser.Rooted) {id : ImageId} {bytes : List UInt8} {index : IndexData}
    (parsed : IndexData.parse parser id bytes = .ok (some index)) {hardlinks : List Path}
    {slices : List Slice} {mask : Mask} (fills : fillBlocks index hardlinks = .ok (slices, mask))
    {slice : Slice} (isSlice : slice ∈ slices) {block : Block} (planned : block ∈ slice.blocks) :
    (∃ number size hashes, block.IsOf index number size hashes) ∧
      ∀ number size hashes content, block.IsOf index number size hashes →
        Matches digest index size hashes content →
        ∀ (config : Config) (fs : Disk.FileSystem) (directory : Directory) (vpath : VPath)
          (spot : Ciruela.Spot) (writing : Bool), vpath.place = spot.place →
          config.dirs.lookup vpath.key = some directory →
          Disk.Serves fs directory spot writing block.path content →
            digest index.hashType (blockAt index.blockSize content number) = block.hash ∧
            ((∃ calls, Disk.readBlock config fs vpath block.path block.offset writing =
                .ok (calls, .ok (blockAt index.blockSize content number))) ↔
              index.blockSize = 32768 ∨ size - block.offset ≤ min index.blockSize 32768) := by
  constructor
  · obtain ⟨others, mask', fills', covers⟩ := blocks_covered checks parsed hardlinks
    obtain ⟨rfl, rfl⟩ := Prod.mk.inj (Except.ok.inj (fills'.symm.trans fills))
    have isPlaced : (slice.index, block) ∈ placed others :=
      mem_placed.mpr ⟨slice, isSlice, rfl, planned⟩
    exact exists_isOf ((covers _ (List.Perm.refl _)).spot_mem isPlaced)
  · intro number size hashes content isOf isContent config fs directory vpath spot writing located
      configured serves
    obtain ⟨exe, isEntry⟩ := isOf.entry
    obtain ⟨absolute, name, named⟩ := IndexData.rooted_of_parse rooted parsed isEntry
    obtain ⟨calls, reads⟩ :=
      Disk.readBlock_of_serves located absolute named configured serves block.offset
    refine ⟨isOf.hash_eq isContent, ?_⟩
    rw [reads, ← isContent.length, isOf.offset, ← Disk.read_eq_blockAt_iff]
    constructor
    · rintro ⟨_, same⟩
      exact Except.ok.inj (Prod.mk.inj (Except.ok.inj same)).2
    · intro same
      rw [same]
      exact ⟨calls, rfl⟩

/-! A file of six bytes in blocks of three. -/

namespace Sample

open FetchBlocks.Sample (abc digest)

/-- The content of the file, of two equal blocks. -/
def abcabc : List UInt8 := abc ++ abc

/-- The hashes of the two blocks. -/
def shortHashes : List (List UInt8) := List.replicate 2 (digest .blake2bx256 abc).bytes

/-- The entries of an image with that file. -/
def shortEntries : List Entry := [.dir (.ofText "/".toList), .file path false 6 shortHashes]

/-- An index with blocks of three bytes. -/
def shortIndex : IndexData := ⟨⟨[]⟩, .blake2bx256, 3, shortEntries, 6, 2⟩

/-- The parser reads that index, whatever the bytes are. -/
def shortParser : Parser := fun _ => some (⟨.blake2bx256, 3⟩, shortEntries.map some)

/-- A block of the file. -/
def shortBlock (number : Nat) : Block := ⟨digest .blake2bx256 abc, path, number * 3⟩

/-- The slice with both blocks. -/
def shortSlice : Slice := ⟨0, 0, [shortBlock 0, shortBlock 1]⟩

/-- Every directory is there, and every file has this content. -/
def shortFs : Disk.FileSystem :=
  ⟨fun _ => true, fun _ => true, fun _ offset => some (abcabc.drop offset)⟩

theorem short_checks : shortParser.Checks := by
  intro bytes header items parses entry member
  obtain ⟨rfl, rfl⟩ := Prod.mk.inj (Option.some.inj parses)
  simp only [shortEntries, List.map_cons, List.map_nil, List.mem_cons, Option.some.injEq,
    List.not_mem_nil, or_false] at member
  rcases member with rfl | rfl
  · trivial
  · exact ⟨by decide, by decide, by decide⟩

theorem short_rooted : shortParser.Rooted := by
  intro bytes header items parses path exe size hashes member
  obtain ⟨rfl, rfl⟩ := Prod.mk.inj (Option.some.inj parses)
  simp only [shortEntries, List.map_cons, List.map_nil, List.mem_cons, Option.some.injEq,
    List.not_mem_nil, or_false, reduceCtorEq, false_or, Entry.file.injEq] at member
  rw [member.1]
  exact ⟨by decide, _, rfl⟩

theorem short_parsed : IndexData.parse shortParser ⟨[]⟩ [] = .ok (some shortIndex) := by decide

theorem short_fills :
    fillBlocks shortIndex [] = .ok ([shortSlice], Mask.full.sliceUnfetched 0) := by decide

theorem short_isOf {number : Nat} (isBlock : number < 2) :
    (shortBlock number).IsOf shortIndex number 6 shortHashes := by
  refine ⟨⟨false, ?_⟩, ?_, rfl⟩
  · exact List.mem_cons_of_mem _ List.mem_cons_self
  · rw [shortHashes, List.getElem?_replicate_of_lt isBlock]
    rfl

theorem short_matches : Matches digest shortIndex 6 shortHashes abcabc := ⟨rfl, by decide⟩

theorem short_serves : Disk.Serves shortFs (Metadata.Sample.directory true) Metadata.Sample.spot
    false path abcabc :=
  ⟨rfl, ⟨rfl, trivial⟩, fun _ _ _ => rfl⟩

end Sample

/-- The second block is the rest of the file, and it is read. -/
theorem planned_block_read_last :
    ∃ calls, Disk.readBlock (Metadata.Sample.env true).config Sample.shortFs Metadata.Sample.path
      Sample.path 3 false = .ok (calls, .ok (blockAt 3 Sample.abcabc 1)) := by
  have isLast : Sample.shortBlock 1 ∈ Sample.shortSlice.blocks := by decide
  have read := planned_block_read_iff FetchBlocks.Sample.digest Sample.short_checks
    Sample.short_rooted Sample.short_parsed Sample.short_fills List.mem_cons_self isLast
  have served := read.2 1 6 _ _ (Sample.short_isOf (by decide)) Sample.short_matches
    (Metadata.Sample.env true).config Sample.shortFs (Metadata.Sample.directory true)
    Metadata.Sample.path Metadata.Sample.spot false (by decide) (by decide) Sample.short_serves
  exact served.2.mpr (Or.inr (by decide))

/-- Where the first block is asked for, the whole file is returned. -/
theorem first_block_overread :
    IndexData.parse Sample.shortParser ⟨[]⟩ [] = .ok (some Sample.shortIndex) ∧
      fillBlocks Sample.shortIndex [] = .ok ([Sample.shortSlice], Mask.full.sliceUnfetched 0) ∧
      Sample.shortBlock 0 ∈ Sample.shortSlice.blocks ∧
      (Sample.shortBlock 0).IsOf Sample.shortIndex 0 6 Sample.shortHashes ∧
      Matches FetchBlocks.Sample.digest Sample.shortIndex 6 Sample.shortHashes Sample.abcabc ∧
      Disk.Serves Sample.shortFs (Metadata.Sample.directory true) Metadata.Sample.spot false
        Sample.path Sample.abcabc ∧
      (Disk.readBlock (Metadata.Sample.env true).config Sample.shortFs Metadata.Sample.path
        Sample.path 0 false).map Prod.snd = .ok (.ok Sample.abcabc) ∧
      Sample.abcabc ≠ blockAt 3 Sample.abcabc 0 := by
  refine ⟨Sample.short_parsed, Sample.short_fills, by decide, Sample.short_isOf (by decide),
    Sample.short_matches, Sample.short_serves, by decide, by decide⟩

end Progress

end Ciruela
