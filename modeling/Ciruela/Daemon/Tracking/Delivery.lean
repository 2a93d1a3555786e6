import Ciruela.Daemon.Disk.CommitImage
import Ciruela.Daemon.Disk.WriteBlock
import Ciruela.Daemon.Tracking.TrueBlocks

/-!
# From an index to an image

A download of an image links files that other images have, plans the blocks of the files that
are left, and writes these blocks into the temporary directory, in any order and several at once.
When all are written the directory is committed and put in place. `Delivery` is the download
together with the directory it fills.
-/

namespace Ciruela

open Foundation

/-- No other data hashes to what a block of the image hashes to, with either of the functions. -/
def Digest.Separates (digest : Digest) (index : IndexData) (image : Disk.Folder) : Prop :=
  ∀ location content exe, image.lookup location = some (.file content exe) →
    ∀ number < blockCount index.blockSize content.length, ∀ hashType data,
      digest hashType data = digest index.hashType (blockAt index.blockSize content number) →
        data = blockAt index.blockSize content number

namespace FetchBlocks

open Disk (CheckFile CheckHashes Depicts Describes Folder RootedAt)
open Progress (Block Slice placed)

/-- A download of blocks with the directory that they are written to. -/
structure Delivery where
  fetcher : Fetcher
  folder : Folder

namespace Delivery

/-- What happens to a download and to its directory. -/
inductive Op where
  | fetch (op : FetchBlocks.Op)
  /-- A write that is running has come to this many bytes. -/
  | write (position count : Nat)
deriving DecidableEq

/-- The write that ends well in a step, with its slice. -/
def completes (hashBytes : List UInt8 → BlockHash) (fetcher : Fetcher) :
    FetchBlocks.Op → Option Written
  | .pollFuture (.data data .done) =>
      match fetcher.phase, fetcher.futures with
      | .polling (_ + 1), .fetching block slice :: _ =>
          if hashBytes data = block.hash then some ⟨block, slice, data⟩ else none
      | _, _ => none
  | .endWrite position .done =>
      match fetcher.futures[position]? with
      | some (.writing block slice data .running) => some ⟨block, slice, data⟩
      | _ => none
  | _ => none

/-- `Disk::write_block`, of so much of a block. -/
def writes (written : Written) (count : Nat) (folder : Folder) : Option Folder :=
  match Disk.writeBlock written.block.path written.block.offset (written.data.take count) folder with
  | .ok (.ok folder) => some folder
  | _ => none

/-- A write ends well only when the directory can be written. -/
def exec (hashBytes : List UInt8 → BlockHash) (delivery : Delivery) : Op → Option Delivery
  | .fetch op => do
      let fetcher ← delivery.fetcher.exec hashBytes op
      match completes hashBytes delivery.fetcher op with
      | none => some ⟨fetcher, delivery.folder⟩
      | some written =>
          let folder ← writes written written.data.length delivery.folder
          some ⟨fetcher, folder⟩
  | .write position count =>
      match delivery.fetcher.futures[position]? with
      | some (.writing block slice data .running) => do
          let folder ← writes ⟨block, slice, data⟩ count delivery.folder
          some ⟨delivery.fetcher, folder⟩
      | _ => none

/-- The download with its directory as a machine. -/
def machine (hashBytes : List UInt8 → BlockHash) : Machine Delivery Op Unit :=
  ⟨fun delivery op => (delivery.exec hashBytes op).map ((), ·)⟩

/-- A step of the download. -/
abbrev Event := Transition Delivery Op Unit

end Delivery

section Finishing

variable {front back : List FetchBlock} {hashBytes : List UInt8 → BlockHash}
  {planned : Multiset (Nat × Block)} {fetcher after : Fetcher}

@[simp] theorem finishing_append : finishing (front ++ back) = finishing front + finishing back := by
  simp [finishing]

@[simp] theorem finishing_cons_fetching {block : Block} {slice : Nat} :
    finishing (.fetching block slice :: back) = finishing back := rfl

@[simp] theorem finishing_cons_running {block : Block} {slice : Nat} {data : List UInt8} :
    finishing (.writing block slice data .running :: back) = finishing back := rfl

@[simp] theorem finishing_cons_failed {block : Block} {slice : Nat} {data : List UInt8} :
    finishing (.writing block slice data .failed :: back) = finishing back := rfl

@[simp] theorem finishing_cons_done {block : Block} {slice : Nat} {data : List UInt8} :
    finishing (.writing block slice data .done :: back) = {(slice, block)} + finishing back := rfl

@[simp] theorem finishing_nil : finishing [] = 0 := rfl

/-- A write that was polled is reported, or it stays. -/
theorem finished_pollWrite {block : Block} {slice : Nat} {data : List UInt8} (write : Write) :
    finished (fetcher.pollWrite block slice data write) =
      finished fetcher + finishing [.writing block slice data write] := by
  cases write with
  | running => simp [Fetcher.pollWrite, finished]
  | failed => simp [Fetcher.pollWrite, finished]
  | done =>
      simp only [Fetcher.pollWrite, finished, reported_append, reported_singleton,
        finishing_cons_done, finishing_nil, add_zero]
      abel

/-- A block that is put back is not finished. -/
theorem finished_putBack {block : Block} {slice : Nat} :
    finished (fetcher.putBack block slice) = finished fetcher := by
  unfold Fetcher.putBack
  split
  · rfl
  · rfl

/-- What a step does to the blocks that are finished. -/
def Finishes (hashBytes : List UInt8 → BlockHash) (fetcher after : Fetcher) : Option Written → Prop
  | none => finished after = finished fetcher
  | some written =>
      finished after = finished fetcher + {(written.slice, written.block)} ∧
        hashBytes written.data = written.block.hash ∧
        (written.slice, written.block) ∈ flight fetcher.futures fetcher.written

theorem finished_congr (futures : after.futures = fetcher.futures)
    (written : after.written = fetcher.written) : finished after = finished fetcher := by
  rw [finished, finished, futures, written]

/-- A future that is polled is finished when its data matches and its write ends well at once. -/
theorem finishes_pollTaken (inv : Inv hashBytes planned fetcher) {left : Nat} {reply : Reply}
    {future : FetchBlock} {rest : List FetchBlock} (polls : fetcher.phase = .polling (left + 1))
    (taken : fetcher.futures = future :: rest) :
    Finishes hashBytes fetcher
      ({ fetcher with futures := rest, phase := .polling left }.pollTaken hashBytes reply future)
      (Delivery.completes hashBytes fetcher (.pollFuture reply)) := by
  have before : finished fetcher = finishing [future] + finished { fetcher with futures := rest } := by
    rw [finished, taken, ← List.singleton_append, finishing_append, finished]
    abel
  cases future with
  | writing block slice data write =>
      have none : Delivery.completes hashBytes fetcher (.pollFuture reply) = none := by
        unfold Delivery.completes
        split
        · simp only [polls, taken]
        · rename_i isEnd
          cases isEnd
        · rfl
      rw [none, Finishes, Fetcher.pollTaken, finished_pollWrite, before, add_comm]
      rfl
  | fetching block slice =>
      have same : finished fetcher = finished { fetcher with futures := rest } := by
        rw [before, finishing_cons_fetching, finishing_nil, zero_add]
      cases reply with
      | pending =>
          show finished _ = finished fetcher
          rw [same]
          simp [Fetcher.pollTaken, finished]
      | failed =>
          show finished _ = finished fetcher
          rw [same, Fetcher.pollTaken, finished_putBack]
          rfl
      | data bytes write =>
          by_cases good : hashBytes bytes = block.hash
          · have accounts := inv.accounted
            unfold Fetcher.Accounted at accounts
            rw [taken] at accounts
            obtain ⟨slices, released⟩ := Option.ne_none_iff_exists'.mp accounts.releases.1
            have after : finished ({ fetcher with futures := rest, phase := .polling left }.pollTaken
                hashBytes (.data bytes write) (.fetching block slice)) =
                finished fetcher + finishing [.writing block slice bytes write] := by
              simp only [Fetcher.pollTaken, if_pos good, released]
              rw [finished_pollWrite, same]
              rfl
            cases write with
            | running => exact after.trans (add_zero _)
            | failed => exact after.trans (add_zero _)
            | done =>
                simp only [Delivery.completes, polls, taken, if_pos good, Finishes]
                refine ⟨by simpa using after, good, ?_⟩
                simp [flight]
          · have none : Delivery.completes hashBytes fetcher (.pollFuture (.data bytes write)) =
                none := by
              cases write with
              | running => rfl
              | failed => rfl
              | done => simp only [Delivery.completes, polls, taken, if_neg good]
            rw [none, Finishes, same]
            simp only [Fetcher.pollTaken, if_neg good]
            rw [finished_putBack]
            rfl

/-- A block is finished when its write ends well, and not before. -/
theorem finishes_of_exec (inv : Inv hashBytes planned fetcher) {op : Op}
    (moved : fetcher.exec hashBytes op = some after) :
    Finishes hashBytes fetcher after (Delivery.completes hashBytes fetcher op) := by
  cases op with
  | enter elapsed =>
      simp only [Fetcher.exec] at moved
      split at moved
      · split at moved
        · obtain rfl := Option.some.inj moved
          exact finished_congr rfl rfl
        · obtain rfl := Option.some.inj moved
          exact finished_congr rfl rfl
      · cases moved
  | pollFuture reply =>
      simp only [Fetcher.exec] at moved
      split at moved
      · rename_i phase
        obtain rfl := Option.some.inj moved
        have none : Delivery.completes hashBytes fetcher (.pollFuture reply) = none := by
          unfold Delivery.completes
          split
          · simp only [phase]
          · rename_i isEnd
            cases isEnd
          · rfl
        rw [none]
        exact finished_congr rfl rfl
      · rename_i left polls
        split at moved
        · rename_i future rest taken
          obtain rfl := Option.some.inj moved
          exact finishes_pollTaken inv polls taken
        · rename_i empty
          exact absurd (Or.inl ⟨left, polls, empty⟩) inv.not_panics
      · cases moved
  | retain =>
      simp only [Fetcher.exec] at moved
      split at moved
      · split at moved
        · split at moved
          · obtain rfl := Option.some.inj moved
            exact finished_congr rfl rfl
          · obtain rfl := Option.some.inj moved
            exact finished_congr rfl rfl
        · obtain rfl := Option.some.inj moved
          exact finished_congr rfl rfl
      · cases moved
  | check deadline =>
      simp only [Fetcher.exec] at moved
      split at moved
      · have same {phase : Phase} (isAfter : some { fetcher with phase := phase } = some after) :
            finished after = finished fetcher := by
          obtain rfl := Option.some.inj isAfter
          exact finished_congr rfl rfl
        split at moved
        · exact same moved
        · split at moved
          · exact same moved
          · split at moved
            · exact same moved
            · exact same moved
      · cases moved
  | spawn connected =>
      simp only [Fetcher.exec] at moved
      split at moved
      · split at moved
        · split at moved
          · obtain rfl := Option.some.inj moved
            exact finished_congr rfl rfl
          · split at moved
            · obtain rfl := Option.some.inj moved
              show finished _ = finished fetcher
              simp [finished]
            · obtain rfl := Option.some.inj moved
              exact finished_congr rfl rfl
        · split at moved
          · obtain rfl := Option.some.inj moved
            exact finished_congr rfl rfl
          · obtain rfl := Option.some.inj moved
            unfold Fetcher.endRound
            split
            · exact finished_congr rfl rfl
            · exact finished_congr rfl rfl
      · cases moved
  | stall clusterStalled elapsed =>
      simp only [Fetcher.exec] at moved
      split at moved
      · have same {retry : Bool} {phase : Phase}
            (isAfter : some { fetcher with retryTimeout := retry, phase := phase } = some after) :
            finished after = finished fetcher := by
          obtain rfl := Option.some.inj isAfter
          exact finished_congr rfl rfl
        split at moved
        · exact same moved
        · split at moved
          · exact same moved
          · exact same moved
      · cases moved
  | endWrite position write =>
      simp only [Fetcher.exec] at moved
      split at moved
      · rename_i block slice data found
        obtain rfl := Option.some.inj moved
        obtain ⟨front, back, whole, _, set⟩ := exists_middle found
        have isThere : .writing block slice data .running ∈ fetcher.futures :=
          List.mem_of_getElem? found
        have grown : finished { fetcher with
              futures := fetcher.futures.set position (.writing block slice data write) } =
            finished fetcher + finishing [.writing block slice data write] := by
          rw [finished, set, finished, whole, finishing_append, finishing_append,
            finishing_cons_running, ← List.singleton_append, finishing_append]
          abel
        cases write with
        | running => exact grown.trans (add_zero _)
        | failed => exact grown.trans (add_zero _)
        | done =>
            simp only [Delivery.completes, found, Finishes]
            refine ⟨grown, inv.accounted.matched.writing _ _ _ _ isThere, ?_⟩
            have isWritten : (slice, block) ∈ writing fetcher.futures :=
              Multiset.mem_coe.mpr (List.mem_filterMap.mpr ⟨_, isThere, rfl⟩)
            simp [flight, isWritten]
      · cases moved

end Finishing

/-- A file that was linked. -/
def IsLinked (paths : List Path) (location : List FileName) : Prop :=
  ∃ path ∈ paths, RootedAt path location

/-- The block with this number of a file has been written. -/
def IsWritten (blockSize : Nat) (fetcher : Fetcher) (location : List FileName) (number : Nat) : Prop :=
  ∃ place ∈ finished fetcher, RootedAt place.2.path location ∧ place.2.offset = number * blockSize

/-- A place is linked when its path is. -/
theorem isLinked_iff {paths : List Path} {path : Path} {location : List FileName}
    (rooted : RootedAt path location) : IsLinked paths location ↔ Progress.Linked paths path := by
  unfold IsLinked Progress.Linked RootedAt at *
  rw [rooted]

section Image

variable {digest : Digest} {checkHashes : CheckHashes} {index : IndexData} {image : Folder}
  {paths : List Path}

/-- The hashes of a file of the index are those of its blocks. -/
theorem getElem?_of_checkFile (compares : digest.Compares checkHashes)
    {hashes : List (List UInt8)} {content : List UInt8}
    (right : CheckFile.ofIndex checkHashes index hashes content = true) {number : Nat}
    (inside : number < blockCount index.blockSize content.length) :
    hashes[number]? = some (digest index.hashType (blockAt index.blockSize content number)).bytes :=
  compares.hashed right number inside

/-- A block of a file that is not linked, with the content it is a part of. -/
structure PartOf (digest : Digest) (index : IndexData) (image : Folder) (block : Block)
    (dir : List FileName) (name : FileName) (content : List UInt8) (exe : Bool) (number : Nat) :
    Prop where
  rooted : RootedAt block.path (dir ++ [name])
  isFile : image.lookup (dir ++ [name]) = some (.file content exe)
  above : ∀ front, front ≠ [] → front <+: dir → image.lookup front = some .dir
  inside : number < blockCount index.blockSize content.length
  offset : block.offset = number * index.blockSize
  hash : block.hash = digest index.hashType (blockAt index.blockSize content number)

/-- Every spot of the index is a part of a file of the image. -/
theorem exists_partOf (compares : digest.Compares checkHashes)
    (depicts : Depicts (CheckFile.ofIndex checkHashes index) index.entries image)
    (whole : ∀ entry ∈ index.entries, entry.Whole index.blockSize) {block : Block}
    (isSpot : block.spot ∈ Progress.indexSpots index paths) :
    ∃ dir name content exe number, PartOf digest index image block dir name content exe number := by
  obtain ⟨entry, listed, isSpot⟩ := List.mem_flatMap.mp isSpot
  cases entry with
  | dir path => cases isSpot
  | link path dest => cases isSpot
  | file path exe size hashes =>
      unfold Progress.entrySpots at isSpot
      dsimp only at isSpot
      split at isSpot
      · cases isSpot
      · obtain ⟨⟨hash, number⟩, isHash, same⟩ := List.mem_map.mp isSpot
        obtain ⟨isPath, isOffset, isBytes⟩ :
            block.path = path ∧ block.offset = number * index.blockSize ∧ block.hash.bytes = hash := by
          simpa [Block.spot, eq_comm] using same
        obtain ⟨dir, name, content, file⟩ := depicts.hasFile listed
        have found : hashes[number]? = some hash := List.mk_mem_zipIdx_iff_getElem?.mp isHash
        have inside : number < blockCount index.blockSize content.length := by
          obtain ⟨_, counted, _⟩ := whole _ listed
          rw [file.length, ← counted]
          exact (List.getElem?_eq_some_iff.mp found).1
        have isThere := getElem?_of_checkFile compares file.right inside
        refine ⟨dir, name, content, exe, number, isPath ▸ file.rooted, file.isFile, file.above,
          inside, isOffset, ?_⟩
        apply BlockHash.ext
        rw [isBytes]
        exact Option.some.inj (found.symm.trans isThere)

/-- Every block of a file of the image that is not linked is a spot. -/
theorem exists_spot (compares : digest.Compares checkHashes)
    (depicts : Depicts (CheckFile.ofIndex checkHashes index) index.entries image)
    {location : List FileName} {content : List UInt8} {exe : Bool}
    (isFile : image.lookup location = some (.file content exe)) (unlinked : ¬ IsLinked paths location)
    {number : Nat} (inside : number < blockCount index.blockSize content.length) :
    ∃ path hash, RootedAt path location ∧
      (path, number * index.blockSize, hash) ∈ Progress.indexSpots index paths := by
  obtain ⟨path, hashes, listed, rooted, right⟩ := depicts.listed isFile
  have isThere := getElem?_of_checkFile compares right inside
  refine ⟨path, (digest index.hashType (blockAt index.blockSize content number)).bytes, rooted,
    List.mem_flatMap.mpr ⟨_, listed, ?_⟩⟩
  unfold Progress.entrySpots
  rw [isLinked_iff rooted] at unlinked
  simp only [if_neg unlinked]
  exact List.mem_map.mpr ⟨(_, number), List.mk_mem_zipIdx_iff_getElem?.mpr isThere, rfl⟩

/-- A file with the hashes of a file of the image is that file. -/
theorem eq_of_checkHashes (compares : digest.Compares checkHashes)
    (separates : digest.Separates index image) {location : List FileName}
    {content bytes : List UInt8} {exe : Bool} {hashes : List (List UInt8)}
    (isFile : image.lookup location = some (.file content exe))
    (right : CheckFile.ofIndex checkHashes index hashes content = true)
    (positive : 0 < index.blockSize)
    (checked : checkHashes ⟨index.header, hashes⟩ bytes = true) : bytes = content := by
  have count : blockCount index.blockSize bytes.length =
      blockCount index.blockSize content.length := compares.counted checked right
  refine eq_of_blocks positive count fun number inside => ?_
  have ofBytes : hashes[number]? =
      some (digest index.hashType (blockAt index.blockSize bytes number)).bytes :=
    getElem?_of_checkFile compares checked (count ▸ inside)
  have ofContent := getElem?_of_checkFile compares right inside
  have hash := Option.some.inj (ofBytes.symm.trans ofContent)
  exact separates location content exe isFile number inside index.hashType _ (BlockHash.ext hash)

end Image

/-- What holds in every state of a download: the blocks are accounted for, and the directory has
the linked files and the blocks that are finished, and nothing else. -/
structure Delivery.Inv (digest : Digest) (index : IndexData) (image : Folder) (paths : List Path)
    (planned : Multiset (Nat × Block)) (delivery : Delivery) : Prop where
  fetch : FetchBlocks.Inv digest.hashBytes planned delivery.fetcher
  fills : delivery.folder.Fills index.blockSize (IsLinked paths)
    (IsWritten index.blockSize delivery.fetcher) image

section Runs

variable {digest : Digest} {checkHashes : CheckHashes} {index : IndexData} {image : Folder}
  {paths : List Path} {planned : Multiset (Nat × Block)} {delivery : Delivery}

/-- What a download of an index relies on. -/
structure Relies (digest : Digest) (checkHashes : CheckHashes) (index : IndexData) (image : Folder)
    (paths : List Path) (planned : Multiset (Nat × Block)) : Prop where
  compares : digest.Compares checkHashes
  depicts : Depicts (CheckFile.ofIndex checkHashes index) index.entries image
  whole : ∀ entry ∈ index.entries, entry.Whole index.blockSize
  separates : digest.Separates index image
  positive : ∀ path exe size hashes, .file path exe size hashes ∈ index.entries → 0 < index.blockSize
  spots : ∀ place ∈ planned, place.2.spot ∈ Progress.indexSpots index paths

/-- A block that is being written is a part of a file of the image, and its data is what that file
has there. -/
theorem Relies.partOf (relies : Relies digest checkHashes index image paths planned) {place : Nat × Block}
    (isPlanned : place ∈ planned) {data : List UInt8} (matched : digest.hashBytes data = place.2.hash) :
    ∃ dir name content exe number,
      PartOf digest index image place.2 dir name content exe number ∧
      data = blockAt index.blockSize content number ∧ ¬ IsLinked paths (dir ++ [name]) := by
  have isSpot := relies.spots place isPlanned
  obtain ⟨dir, name, content, exe, number, part⟩ :=
    exists_partOf relies.compares relies.depicts relies.whole isSpot
  refine ⟨dir, name, content, exe, number, part, ?_, ?_⟩
  · exact relies.separates _ content exe part.isFile number part.inside .blake2bx256 data
      (matched.trans part.hash)
  · rw [isLinked_iff part.rooted]
    exact Progress.not_linked_of_mem isSpot

/-- A block is a part of an index with blocks. -/
theorem PartOf.positive {block : Block} {dir : List FileName} {name : FileName}
    {content : List UInt8} {exe : Bool} {number : Nat}
    (part : PartOf digest index image block dir name content exe number) : 0 < index.blockSize := by
  rcases Nat.eq_zero_or_pos index.blockSize with zero | positive
  · have inside := part.inside
    rw [zero, blockCount, Nat.div_zero] at inside
    exact absurd inside (Nat.not_lt_zero number)
  · exact positive

/-- A file with a block has content. -/
theorem PartOf.nonempty {block : Block} {dir : List FileName} {name : FileName}
    {content : List UInt8} {exe : Bool} {number : Nat}
    (part : PartOf digest index image block dir name content exe number) : content ≠ [] := by
  rintro rfl
  have begins := (lt_blockCount_iff part.positive).mp part.inside
  exact absurd begins (Nat.not_lt_zero _)

/-- Any part of a block can be written at any time. -/
theorem Delivery.Inv.writes (relies : Relies digest checkHashes index image paths planned)
    (inv : Delivery.Inv digest index image paths planned delivery) (written : Written)
    (isPlanned : (written.slice, written.block) ∈ planned)
    (matched : digest.hashBytes written.data = written.block.hash) (count : Nat) :
    ∃ folder, Delivery.writes written count delivery.folder = some folder ∧
      folder.Fills index.blockSize (IsLinked paths) (IsWritten index.blockSize delivery.fetcher)
        image := by
  obtain ⟨dir, name, content, exe, number, part, data, unlinked⟩ :=
    relies.partOf isPlanned matched
  obtain ⟨folder, wrote, fills⟩ := inv.fills.writeBlock part.above part.rooted part.isFile unlinked
    part.nonempty _ _ _ (fun data patched => patched.writePart number count) fun _ _ => rfl
  refine ⟨folder, ?_, fills⟩
  rw [Delivery.writes, data, part.offset, wrote]

/-- A block that has been written is finished. -/
theorem Delivery.Inv.completes (relies : Relies digest checkHashes index image paths planned)
    (inv : Delivery.Inv digest index image paths planned delivery) {written : Written}
    (isPlanned : (written.slice, written.block) ∈ planned)
    (matched : digest.hashBytes written.data = written.block.hash) {fetcher : Fetcher}
    (grown : finished fetcher = finished delivery.fetcher + {(written.slice, written.block)}) :
    ∃ folder, Delivery.writes written written.data.length delivery.folder = some folder ∧
      folder.Fills index.blockSize (IsLinked paths) (IsWritten index.blockSize fetcher) image := by
  obtain ⟨dir, name, content, exe, number, part, data, unlinked⟩ :=
    relies.partOf isPlanned matched
  obtain ⟨folder, wrote, fills⟩ := inv.fills.writeBlock part.above part.rooted part.isFile unlinked
    part.nonempty
    (fun location other => location = dir ++ [name] ∧ other = number ∨
      IsWritten index.blockSize delivery.fetcher location other)
    (number * index.blockSize) (blockAt index.blockSize content number)
    (fun data patched => by
      refine (patched.write part.positive number).congr (fun other _ isDone => ?_) part.positive
      exact isDone.imp_left And.right)
    fun location different => by
      funext other
      exact propext ⟨fun isDone => isDone.resolve_left fun here => different here.1, Or.inr⟩
  refine ⟨folder, ?_, fills.congr (fun _ => Iff.rfl) ?_⟩
  · rw [Delivery.writes, List.take_length, data, part.offset, wrote]
  · rintro location _ _ _ _ other ⟨place, isFinished, rooted, offset⟩
    rw [grown, Multiset.mem_add, Multiset.mem_singleton] at isFinished
    rcases isFinished with old | rfl
    · exact Or.inr ⟨place, old, rooted, offset⟩
    · refine Or.inl ⟨rooted.unique part.rooted, ?_⟩
      exact Nat.eq_of_mul_eq_mul_right part.positive (offset.symm.trans part.offset)

/-- A write that is running is one of the plan, and its data matches. -/
theorem Delivery.Inv.running (inv : Delivery.Inv digest index image paths planned delivery)
    {position slice : Nat} {block : Block} {data : List UInt8}
    (found : delivery.fetcher.futures[position]? = some (.writing block slice data .running)) :
    (slice, block) ∈ planned ∧ digest.hashBytes data = block.hash := by
  have isThere : .writing block slice data .running ∈ delivery.fetcher.futures :=
    List.mem_of_getElem? found
  have isWriting : (slice, block) ∈ writing delivery.fetcher.futures :=
    Multiset.mem_coe.mpr (List.mem_filterMap.mpr ⟨_, isThere, rfl⟩)
  refine ⟨?_, inv.fetch.accounted.matched.writing _ _ _ _ isThere⟩
  rw [← inv.fetch.accounted.total]
  simp [flight, isWriting]

/-- Every step keeps the invariant, whichever write it is about. -/
theorem Delivery.Inv.step (relies : Relies digest checkHashes index image paths planned)
    (inv : Delivery.Inv digest index image paths planned delivery) {op : Delivery.Op}
    {after : Delivery} (moved : delivery.exec digest.hashBytes op = some after) :
    Delivery.Inv digest index image paths planned after := by
  cases op with
  | fetch op =>
      obtain ⟨fetcher, fetched, moved⟩ := Option.bind_eq_some_iff.mp moved
      have valid : (FetchBlocks.machine digest.hashBytes).Takes
          ⟨delivery.fetcher, op, (), fetcher⟩ := Option.map_eq_some_iff.mpr ⟨fetcher, fetched, rfl⟩
      have finishes := finishes_of_exec inv.fetch fetched
      cases ends : Delivery.completes digest.hashBytes delivery.fetcher op with
      | none =>
          rw [ends] at finishes
          simp only [ends] at moved
          obtain rfl := Option.some.inj moved
          refine ⟨inv.fetch.step valid, inv.fills.congr (fun _ => Iff.rfl) ?_⟩
          rintro location _ _ _ _ number ⟨place, isFinished, facts⟩
          exact ⟨place, finishes ▸ isFinished, facts⟩
      | some written =>
          rw [ends] at finishes
          obtain ⟨grown, matched, isFlying⟩ := finishes
          have isPlanned : (written.slice, written.block) ∈ planned := by
            rw [← inv.fetch.accounted.total]
            exact Multiset.mem_add.mpr (Or.inr isFlying)
          obtain ⟨folder, wrote, fills⟩ := inv.completes relies isPlanned matched grown
          simp only [ends, wrote] at moved
          obtain rfl := Option.some.inj moved
          exact ⟨inv.fetch.step valid, fills⟩
  | write position count =>
      simp only [Delivery.exec] at moved
      split at moved
      · rename_i block slice data found
        obtain ⟨isPlanned, matched⟩ := inv.running found
        obtain ⟨folder, wrote, fills⟩ :=
          inv.writes relies ⟨block, slice, data⟩ isPlanned matched count
        simp only [wrote] at moved
        obtain rfl := Option.some.inj moved
        exact ⟨inv.fetch, fills⟩
      · cases moved

/-- The directory is complete when the download is ready. -/
theorem Delivery.Inv.ready (relies : Relies digest checkHashes index image paths planned)
    (inv : Delivery.Inv digest index image paths planned delivery)
    (covers : ∀ spot ∈ Progress.indexSpots index paths, ∃ place ∈ planned, place.2.spot = spot)
    (isReady : delivery.fetcher.phase = .ready) : delivery.folder.Ready image := by
  obtain ⟨noFutures, noSlices⟩ := inv.fetch.inPhase.ready isReady
  have all : finished delivery.fetcher = planned := by
    rw [← inv.fetch.accounted.total, finished, flight, noFutures, noSlices]
    simp [placed]
  refine inv.fills.ready (fun location content exe isFile => ?_)
    fun location content exe isFile unlinked number inside => ?_
  · obtain ⟨path, hashes, listed, _⟩ := relies.depicts.listed isFile
    exact relies.positive _ _ _ _ listed
  · obtain ⟨path, hash, rooted, isSpot⟩ := exists_spot relies.compares relies.depicts isFile unlinked inside
    obtain ⟨place, isPlanned, same⟩ := covers _ isSpot
    obtain ⟨isPath, isOffset, _⟩ :
        place.2.path = path ∧ place.2.offset = number * index.blockSize ∧
          place.2.hash.bytes = hash := by
      simpa [Block.spot] using same
    exact ⟨place, all ▸ isPlanned, isPath ▸ rooted, isOffset⟩

end Runs

/-- A file has no blocks of size zero. -/
theorem positive_of_parse {parser : Parser} {id : ImageId} {bytes : List UInt8} {index : IndexData}
    (parsed : IndexData.parse parser id bytes = .ok (some index)) {path : Path} {exe : Bool}
    {size : Nat} {hashes : List (List UInt8)}
    (listed : .file path exe size hashes ∈ index.entries) : 0 < index.blockSize := by
  unfold IndexData.parse at parsed
  split at parsed
  · cases parsed
  · rename_i header items _
    split at parsed
    · cases parsed
    · rename_i entries _
      obtain ⟨blocks, counted, done⟩ := Run.bind_eq_ok_iff.mp parsed
      obtain rfl := Option.some.inj (Except.ok.inj done)
      refine Nat.pos_of_ne_zero fun zero => ?_
      have fails (rest : List Entry) (member : .file path exe size hashes ∈ rest)
          (total : List Nat) : rest.mapM (Entry.blocks header.blockSize) ≠ .ok total := by
        induction rest generalizing total with
        | nil => exact absurd member List.not_mem_nil
        | cons first rest ih =>
            intro counted
            rw [List.mapM_cons] at counted
            obtain ⟨count, isCount, counted⟩ := Run.bind_eq_ok_iff.mp counted
            obtain ⟨others, areOthers, _⟩ := Run.bind_eq_ok_iff.mp counted
            rcases List.mem_cons.mp member with rfl | later
            · rw [Entry.blocks, if_pos zero] at isCount
              cases isCount
            · exact ih later others areOthers
      exact fails entries listed blocks counted

section Whole

variable {digest : Digest} {checkHashes : CheckHashes} {parser : Parser} {id : ImageId}
  {bytes : List UInt8} {index : IndexData} {image folder : Folder} {Merged : Type} {merger : Metadata.Merger Merged}
  {files : List (VPath × Metadata.OpenedIndex)} {links order : List Metadata.Hardlink}
  {paths : List Path} {slices shuffled : List Slice} {mask : Mask}

/-- Files are linked into an empty directory, whatever the other images have. -/
theorem fills_linked (compares : digest.Compares checkHashes)
    (depicts : Depicts (CheckFile.ofIndex checkHashes index) index.entries image)
    (separates : digest.Separates index image)
    (positive : ∀ path exe size hashes, .file path exe size hashes ∈ index.entries →
      0 < index.blockSize)
    (scanned : Metadata.scanLinks merger index files = some links) (reordered : order.Perm links)
    (config : Config) (openFile : Disk.OpenFile) :
    ∃ paths folder, Disk.checkAndHardlink config openFile checkHashes order ∅ =
        .ok (paths, folder) ∧
      Folder.Fills index.blockSize (IsLinked paths) (fun _ _ => False) folder image := by
  obtain ⟨start, _, rfl⟩ := Option.map_eq_some_iff.mp scanned
  obtain ⟨paths, folder, ran, fills⟩ :=
    (Disk.fills_empty index.blockSize image).checkAndHardlink config openFile checkHashes
      order fun hlink member => by
        have isLink := reordered.mem_iff.mp member
        obtain ⟨header, _⟩ := Metadata.exists_of_mem_scanEntries isLink
        have listed : hlink.entry ∈ index.entries :=
          Metadata.scanEntries_sublist.subset (List.mem_map_of_mem isLink)
        obtain ⟨dir, name, content, file⟩ := depicts.hasFile listed
        refine ⟨dir, name, file.above, file.rooted, content, file.isFile, fun bytes checked => ?_⟩
        have hashes : hlink.hashes = ⟨index.header, hlink.hashes.values⟩ := by rw [← header]
        rw [hashes] at checked
        exact eq_of_checkHashes compares separates file.isFile file.right (positive _ _ _ _ listed) checked
  refine ⟨paths, folder, ran, fills.congr (fun location => ?_) fun _ _ _ _ _ _ isDone => isDone⟩
  exact (or_false _).symm ▸ Iff.rfl

/-- Whatever files were linked and however the steps of the writes and the replies come in
between each other, every state of a download has the files that were linked and the blocks that
are finished in its directory and nothing else, and every write that is running can end well. When
the download is ready, `commit_image` puts exactly the image that the index is of in its place,
whatever was there. -/
theorem download_delivers_image (compares : digest.Compares checkHashes) (checks : parser.Checks)
    (parsed : IndexData.parse parser id bytes = .ok (some index))
    (depicts : Depicts (CheckFile.ofIndex checkHashes index) index.entries image)
    (separates : digest.Separates index image)
    (scanned : Metadata.scanLinks merger index files = some links) (reordered : order.Perm links)
    {config : Config} {openFile : Disk.OpenFile}
    (linked : Disk.checkAndHardlink config openFile checkHashes order ∅ = .ok (paths, folder))
    (fills : Progress.fillBlocks index paths = .ok (slices, mask))
    (shuffles : shuffled.Perm slices) {trace : List Delivery.Event} {finish : Delivery}
    (steps : (Delivery.machine digest.hashBytes).Steps ⟨Fetcher.new shuffled mask, folder⟩ trace
      finish) :
    Folder.Fills index.blockSize (IsLinked paths) (IsWritten index.blockSize finish.fetcher)
        finish.folder image ∧
      (∀ (position : Nat) (block : Block) (slice : Nat) (data : List UInt8),
        finish.fetcher.futures[position]? = some (.writing block slice data .running) →
          (Delivery.exec digest.hashBytes finish (.fetch (.endWrite position .done))).isSome) ∧
      (finish.fetcher.phase = .ready →
        ∀ (name : FileName) (disk : Files Folder),
          disk.lookup (Metadata.tmpFile name) = some finish.folder →
            ∃ after, Disk.commitImage (CheckFile.ofIndex checkHashes index) index.entries name
              disk = .ok (.ok after) ∧ Disk.InPlace name image disk after) := by
  have positive : ∀ path exe size hashes, .file path exe size hashes ∈ index.entries →
      0 < index.blockSize := fun _ _ _ _ listed => positive_of_parse parsed listed
  obtain ⟨others, mask', fills', covered⟩ := Progress.blocks_covered checks parsed paths
  obtain ⟨rfl, rfl⟩ := Prod.mk.inj (Except.ok.inj (fills.symm.trans fills'))
  have covers := covered shuffled shuffles
  obtain ⟨_, _, plans⟩ := Progress.fillBlocks_plans fills shuffles
  have relies : Relies digest checkHashes index image paths (placed shuffled) :=
    ⟨compares, depicts, IndexData.whole_of_parse checks parsed, separates, positive,
      fun place isPlaced => covers.spot_mem isPlaced⟩
  obtain ⟨paths', folder', linked', start⟩ :=
    fills_linked compares depicts separates positive scanned reordered config openFile
  obtain ⟨rfl, rfl⟩ := Prod.mk.inj (Except.ok.inj (linked.symm.trans linked'))
  have begins : Delivery.Inv digest index image paths (placed shuffled)
      ⟨Fetcher.new shuffled mask, folder⟩ := by
    refine ⟨inv_new plans, start.congr (fun _ => Iff.rfl) ?_⟩
    rintro _ _ _ _ _ _ ⟨place, isFinished, _⟩
    exact absurd isFinished (Multiset.notMem_zero place)
  obtain ⟨inv, _⟩ := steps.preserves (Delivery.Inv digest index image paths (placed shuffled))
    (fun _ => True)
    (fun event valid _ here => by
      obtain ⟨after, moved, same⟩ := Option.map_eq_some_iff.mp valid
      rw [← (Prod.mk.inj same).2]
      exact here.step relies moved)
    (fun _ _ => trivial) begins
  refine ⟨inv.fills, fun position block slice data found => ?_,
    fun isReady name disk there => Disk.commitImage_of_checked there ?_⟩
  · obtain ⟨isPlanned, matched⟩ := inv.running found
    obtain ⟨folder, wrote, _⟩ := inv.writes relies ⟨block, slice, data⟩ isPlanned matched data.length
    have ends : Delivery.completes digest.hashBytes finish.fetcher (.endWrite position .done) =
        some ⟨block, slice, data⟩ := by
      simp only [Delivery.completes, found]
    simp only [Delivery.exec, Fetcher.exec, found, Option.bind_eq_bind, Option.bind_some, ends, wrote,
      Option.isSome_some]
  · refine Disk.commitEntries_of_ready depicts (inv.ready relies (fun spot isSpot => ?_) isReady)
    have recorded : spot ∈ (placed shuffled).map fun item => item.2.spot := by
      rw [covers.exact]
      exact Multiset.mem_coe.mpr isSpot
    exact Multiset.mem_map.mp recorded

end Whole

/-! An image of two files with one content. One is linked, and the other is fetched. -/

namespace Sample

/-- The file whose block is fetched. -/
def pathA : Path := Path.ofText "/a".toList

/-- The file that is linked. -/
def pathB : Path := Path.ofText "/b".toList

/-- The name of the first file. -/
def nameA : FileName := pathA.fileName.get (by decide)

/-- The name of the second file. -/
def nameB : FileName := pathB.fileName.get (by decide)

/-- Two files with the same content. -/
def twoEntries : List Entry :=
  [.dir (Path.ofText "/".toList), .file pathA false 3 [(hashBytes abc).bytes],
    .file pathB true 3 [(hashBytes abc).bytes]]

/-- The index of the two files. -/
def twoIndex : IndexData := ⟨⟨[1]⟩, .blake2bx256, 32768, twoEntries, 6, 2⟩

/-- The parser reads that index, whatever the bytes are. -/
def twoParser : Parser := fun _ => some (⟨.blake2bx256, 32768⟩, twoEntries.map some)

/-- The image that the download is to show. -/
def twoImage : Folder :=
  ((∅ : Folder).insert [nameA] (.file abc false)).insert [nameB] (.file abc true)

/-- Another image has one of the files. -/
def otherFiles : List (VPath × Metadata.OpenedIndex) :=
  [(Metadata.Sample.path, ⟨.blake2bx256, 32768⟩,
    [some (.file pathB true 3 [(hashBytes abc).bytes])])]

/-- The second file can be linked. -/
def twoLinks : List Metadata.Hardlink :=
  [⟨Metadata.Sample.path, pathB, true, 3, ⟨⟨.blake2bx256, 32768⟩, [(hashBytes abc).bytes]⟩⟩]

/-- The file that is linked to is what it should be. -/
def openFile : Disk.OpenFile := fun _ _ _ _ => some ⟨abc, 0o755⟩

/-- The directory as the link leaves it. -/
def linkedFolder : Folder := (∅ : Folder).insert [nameB] (.file abc true)

/-- The write has come to two bytes before it ends. -/
def delivered : List Delivery.Op :=
  replied.map .fetch ++ [.write 0 2] ++ (whole.drop replied.length).map .fetch

/-- The parser of the example checks its files. -/
theorem two_checks : twoParser.Checks := by
  intro bytes header items parses entry member
  obtain ⟨rfl, rfl⟩ := Prod.mk.inj (Option.some.inj parses)
  simp only [twoEntries, List.map_cons, List.map_nil, List.mem_cons, Option.some.injEq,
    List.not_mem_nil, or_false] at member
  rcases member with rfl | rfl | rfl
  · trivial
  · exact ⟨by decide, by simp [blockCount], by simp [(hashBytes abc).length]⟩
  · exact ⟨by decide, by simp [blockCount], by simp [(hashBytes abc).length]⟩

/-- The image of the example shows its index. -/
theorem two_depicts : Depicts (CheckFile.ofIndex checkHashes twoIndex) twoEntries twoImage := by
  have located : Disk.locate none twoEntries =
      [([], .dir (Path.ofText "/".toList)), ([nameA], .file pathA false 3 [(hashBytes abc).bytes]),
        ([nameB], .file pathB true 3 [(hashBytes abc).bytes])] := by decide
  have there (location : List FileName) (item : Disk.Item)
      (found : twoImage.lookup location = some item) :
      location = [nameA] ∧ item = .file abc false ∨ location = [nameB] ∧ item = .file abc true := by
    rw [twoImage, Map.lookup_insert_eq, Map.lookup_insert_eq, Finmap.lookup_empty] at found
    split at found
    · rename_i isB
      exact Or.inr ⟨isB, (Option.some.inj found).symm⟩
    · split at found
      · rename_i isA
        exact Or.inl ⟨isA, (Option.some.inj found).symm⟩
      · cases found
  have right : CheckFile.ofIndex checkHashes twoIndex [(hashBytes abc).bytes] abc = true := by
    decide
  refine ⟨⟨[], by decide, ⟨[], nameA, rfl, by decide⟩, ⟨[], nameB, rfl, by decide⟩, trivial⟩,
    by rw [located]; decide, fun location item found => ?_, fun location entry member below => ?_,
    fun location name item found => ?_⟩
  · rw [located]
    rcases there location item found with ⟨rfl, rfl⟩ | ⟨rfl, rfl⟩
    · exact ⟨by simp, _, List.mem_cons_of_mem _ List.mem_cons_self, rfl, rfl, right⟩
    · exact ⟨by simp, _, List.mem_cons_of_mem _ (List.mem_cons_of_mem _ List.mem_cons_self), rfl, rfl,
        right⟩
  · rw [located] at member
    simp only [List.mem_cons, List.not_mem_nil, or_false, Prod.mk.injEq] at member
    rcases member with ⟨rfl, _⟩ | ⟨rfl, rfl⟩ | ⟨rfl, rfl⟩
    · exact absurd rfl below
    · exact ⟨.file abc false, by decide, rfl, rfl, right⟩
    · exact ⟨.file abc true, by decide, rfl, rfl, right⟩
  · left
    have single : (location ++ [name]).length = 1 := by
      rcases there _ item found with ⟨same, _⟩ | ⟨same, _⟩
      · rw [same]
        rfl
      · rw [same]
        rfl
    exact List.length_eq_zero_iff.mp (by simpa using single)

/-- The hashes of the example tell its blocks apart. -/
theorem two_separates : digest.Separates twoIndex twoImage := by
  intro location content exe isFile number inside hashType data same
  have isAbc : content = abc := by
    rw [twoImage, Map.lookup_insert_eq, Map.lookup_insert_eq, Finmap.lookup_empty] at isFile
    split at isFile
    · exact (Disk.Item.file.inj (Option.some.inj isFile)).1.symm
    · split at isFile
      · exact (Disk.Item.file.inj (Option.some.inj isFile)).1.symm
      · cases isFile
  subst isAbc
  have one : blockCount twoIndex.blockSize abc.length = 1 := by decide
  obtain rfl : number = 0 := by omega
  have block : blockAt twoIndex.blockSize abc 0 = abc := blockAt_zero (by decide)
  rw [block] at same ⊢
  by_contra different
  have zeros : hashBytes data = ⟨List.replicate 32 0, rfl⟩ := if_neg different
  have hash : digest twoIndex.hashType abc = hashBytes abc := rfl
  rw [hash] at same
  cases hashType with
  | blake2bx256 =>
      rw [digest, zeros] at same
      revert same
      decide
  | sha512x256 =>
      rw [digest, if_neg different, zeros] at same
      revert same
      decide

end Sample

/-- One file is linked, the other is written in two parts, and the commit puts both in the place
of another image. -/
theorem download_delivers_two_files :
    let run := (Delivery.machine Sample.digest.hashBytes).play
      ⟨Fetcher.new Sample.slices Sample.mask, Sample.linkedFolder⟩ Sample.delivered
    let disk : Files Folder := (Finmap.singleton Metadata.Sample.name Sample.linkedFolder).insert
      (Metadata.tmpFile Metadata.Sample.name) run.2.folder
    run.1.length = 21 ∧ run.2.fetcher.phase = .ready ∧
      ∃ after, Disk.commitImage (CheckFile.ofIndex Sample.checkHashes Sample.twoIndex)
          Sample.twoEntries Metadata.Sample.name disk = .ok (.ok after) ∧
        Disk.InPlace Metadata.Sample.name Sample.twoImage disk after := by
  intro run disk
  have isReady : run.2.fetcher.phase = .ready := by decide
  have linked : Disk.checkAndHardlink (Metadata.Sample.env true).config Sample.openFile
      Sample.checkHashes Sample.twoLinks ∅ = .ok ([Sample.pathB], Sample.linkedFolder) := by
    decide
  have fills : Progress.fillBlocks Sample.twoIndex [Sample.pathB] =
      .ok (Sample.slices, Sample.mask) := by decide
  have scanned : Metadata.scanLinks Metadata.Merger.plain Sample.twoIndex Sample.otherFiles =
      some Sample.twoLinks := by decide
  have parsed : IndexData.parse Sample.twoParser ⟨[1]⟩ [] = .ok (some Sample.twoIndex) := by decide
  have delivers := download_delivers_image Sample.compares Sample.two_checks parsed
    Sample.two_depicts Sample.two_separates scanned (List.Perm.refl _) linked fills
    (List.Perm.refl _) (Machine.Steps.of_play _ _ Sample.delivered)
  refine ⟨by decide, isReady, delivers.2.2 isReady _ disk ?_⟩
  rw [Map.lookup_insert_eq, if_pos rfl]

end FetchBlocks

end Ciruela
