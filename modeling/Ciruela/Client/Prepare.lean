import Ciruela.Client.PutFile
import Ciruela.Client.Uploads
import Ciruela.RegisterDir

/-!
# Directories that are prepared for an upload

`ciruela sync` scans every directory that it is given, and registers the index and the blocks
before anything is uploaded. The scanner lives in another package. What it gives describes the
files as they are.
-/

namespace Ciruela.Client

open Foundation
open Cluster (NewUpload SignedUpload)

/-- `sync::uploads::Upload`. -/
inductive Upload where
  | append (upload : SignedUpload)
  | weakAppend (upload : SignedUpload)
  | replace (upload : SignedUpload)
  | replaceIfMatches (upload : SignedUpload) (oldImage : ImageId)

/-- What `network::upload` starts for it. -/
def Upload.start : Upload → NewUpload
  | append upload => Client.append upload
  | weakAppend upload => Client.appendWeak upload
  | replace upload => Client.replace upload
  | replaceIfMatches upload oldImage => Client.replaceIfMatches upload oldImage

/-- What is used of `SyncOptions`. -/
structure SyncOptions where
  append : List (List Char)
  appendWeak : List (List Char)
  replace : List (List Char)

/-- Why the preparation of an upload fails: an argument, the scanner, the index or the blocks. -/
inductive PrepareError where
  | split (error : SplitError)
  | scan (dir : Path)
  | index
  | blocks (error : DirError)
  /-- The program ends at a key that it cannot sign with. -/
  | exit

/-- A directory, its destination, and what is made of it when it is signed. -/
abbrev Asked := Path × VPath × (SignedUpload → Upload)

/-- What an argument of one of the two appends asks for. -/
def readSplit (make : SignedUpload → Upload) (text : List Char) : Except SplitError Asked :=
  match split text with
  | none => .error (.destination text)
  | some (src, dest) => .ok (src, dest, make)

/-- `-a` or `--append`. -/
def readAppend : List Char → Except SplitError Asked := readSplit .append

/-- `--append-if-not-exists`. -/
def readAppendWeak : List Char → Except SplitError Asked := readSplit .weakAppend

/-- `--replace`: with an old image, the replacement is only made over that image. -/
def readReplace (text : List Char) : Except SplitError Asked :=
  (splitReplace text).map fun (src, dest, oldImage) =>
    (src, dest, fun upload =>
      match oldImage with
      | some old => .replaceIfMatches upload old
      | none => .replace upload)

section Prepare

variable (tools : Tools) (signer : Signer) (scan : Path → Option (List UInt8))
  (keys : List PrivateKey) (timestamp : SystemTime)

/-- What is done with one directory. -/
def prepareDir (src : Path) (dest : VPath) (serving : Serving) :
    Run (Except PrepareError SignedUpload × Serving) :=
  match scan src with
  | none => return (.error (.scan src), serving)
  | some indexBuf =>
      match serving.indexes.registerIndex tools.getHash indexBuf with
      | none => return (.error .index, serving)
      | some (image, indexes) => do
          match ← serving.blocks.registerDir tools.parser src indexBuf with
          | (.error error, blocks) => return (.error (.blocks error), ⟨indexes, blocks⟩)
          | (.ok (), blocks) =>
              match ← signUpload signer dest image timestamp keys with
              | none => return (.error .exit, ⟨indexes, blocks⟩)
              | some upload => return (.ok upload, ⟨indexes, blocks⟩)

/-- One loop of `prepare`, with the uploads that there are already. -/
def prepareLoop (read : List Char → Except SplitError Asked) :
    List (List Char) → List Upload → Serving → Run (Except PrepareError (List Upload) × Serving)
  | [], result, serving => return (.ok result, serving)
  | text :: rest, result, serving =>
      match read text with
      | .error error => return (.error (.split error), serving)
      | .ok (src, dest, make) => do
          match ← prepareDir tools signer scan keys timestamp src dest serving with
          | (.error error, serving) => return (.error error, serving)
          | (.ok upload, serving) => prepareLoop read rest (result ++ [make upload]) serving

/-- `prepare`. -/
def prepare (opts : SyncOptions) (serving : Serving) :
    Run (Except PrepareError (List Upload) × Serving) := do
  match ← prepareLoop tools signer scan keys timestamp readAppend opts.append [] serving with
  | (.error error, serving) => return (.error error, serving)
  | (.ok result, serving) =>
      match ← prepareLoop tools signer scan keys timestamp readAppendWeak opts.appendWeak result
        serving with
      | (.error error, serving) => return (.error error, serving)
      | (.ok result, serving) =>
          prepareLoop tools signer scan keys timestamp readReplace opts.replace result serving

end Prepare

/-- What the options ask for, in order. -/
def SyncOptions.asked (opts : SyncOptions) : List (Except SplitError Asked) :=
  opts.append.map readAppend ++ opts.appendWeak.map readAppendWeak ++ opts.replace.map readReplace

section Served

variable {tools : Tools} {signer : Signer} {scan : Path → Option (List UInt8)}
  {keys : List PrivateKey} {timestamp : SystemTime} {files : Path → Option (List UInt8)}
  {serving after : Serving}

/-- The scanner gives an index with BLAKE2 of the files as they are. -/
def Scans (tools : Tools) (files : Path → Option (List UInt8)) (scan : Path → Option (List UInt8)) :
    Prop :=
  ∀ src data, scan src = some data → ∃ (blockSize : Nat) (entries : List Entry),
    tools.parser data = some (⟨.blake2bx256, blockSize⟩, entries.map some) ∧
      ∀ entry ∈ entries,
        BlockReader.Holds files (tools.digest .blake2bx256) blockSize src entry

/-- An index is kept under its hash, and there is something for all hashes in it. -/
def HasImage (tools : Tools) (indexes : InMemoryIndexes) (Has : BlockHash → Prop)
    (image : ImageId) : Prop :=
  ∃ data header, ∃ entries : List Entry, indexes.readIndex image = some data ∧
    tools.getHash data = some image ∧ tools.parser data = some (header, entries.map some) ∧
      ∀ bytes ∈ entries.flatMap Entry.blockHashes,
        ∃ hash : BlockHash, hash.bytes = bytes ∧ Has hash

/-- Every index that is served is served with its blocks. -/
structure Serving.Sound (tools : Tools) (files : Path → Option (List UInt8)) (serving : Serving) :
    Prop where
  good : serving.blocks.Good files (tools.digest .blake2bx256)
  whole : ∀ image ∈ serving.indexes.indexes,
    HasImage tools serving.indexes (· ∈ serving.blocks.blocks) image

/-- An upload is signed for the image of a directory, which is served. -/
def IsPrepared (tools : Tools) (signer : Signer) (scan : Path → Option (List UInt8))
    (keys : List PrivateKey) (timestamp : SystemTime) (Served : ImageId → Prop)
    (asked : Except SplitError Asked) (upload : Upload) : Prop :=
  ∃ src dest make signed, asked = .ok (src, dest, make) ∧ upload = make signed ∧
    (scan src).bind tools.getHash = some signed.imageId ∧
      signUpload signer dest signed.imageId timestamp keys = .ok (some signed) ∧
        Served signed.imageId

/-- An image stays there when more blocks are served. -/
theorem HasImage.mono {indexes : InMemoryIndexes} {Has Has' : BlockHash → Prop} {image : ImageId}
    (has : HasImage tools indexes Has image) (more : ∀ hash, Has hash → Has' hash) :
    HasImage tools indexes Has' image := by
  obtain ⟨data, header, entries, isRead, isHash, isParsed, all⟩ := has
  refine ⟨data, header, entries, isRead, isHash, isParsed, fun bytes member => ?_⟩
  obtain ⟨hash, isBytes, there⟩ := all bytes member
  exact ⟨hash, isBytes, more hash there⟩

/-- What is signed is the image that was asked for. -/
theorem signUpload_imageId {dest : VPath} {image : ImageId} {signed : SignedUpload}
    (isSigned : signUpload signer dest image timestamp keys = .ok (some signed)) :
    signed.imageId = image := by
  obtain ⟨ms, _, isSigned⟩ := Run.bind_eq_ok_iff.mp isSigned
  obtain ⟨signatures, _, isUpload⟩ := Option.map_eq_some_iff.mp (Except.ok.inj isSigned)
  rw [← isUpload]

/-- A directory is prepared: it was scanned, its index and its blocks are there, and it is signed.
-/
theorem prepareDir_eq_ok {src : Path} {dest : VPath} {signed : SignedUpload}
    (prepared : prepareDir tools signer scan keys timestamp src dest serving =
      .ok (.ok signed, after)) :
    ∃ data, scan src = some data ∧ tools.getHash data = some signed.imageId ∧
      serving.blocks.registerDir tools.parser src data = .ok (.ok (), after.blocks) ∧
      after.indexes.indexes = serving.indexes.indexes.insert signed.imageId data ∧
      signUpload signer dest signed.imageId timestamp keys = .ok (some signed) := by
  unfold prepareDir at prepared
  split at prepared
  · cases prepared
  · rename_i data scanned
    split at prepared
    · cases prepared
    · rename_i image indexes registered
      obtain ⟨hash, isHash, isImage⟩ := Option.map_eq_some_iff.mp registered
      obtain ⟨rfl, rfl⟩ := Prod.mk.inj isImage
      obtain ⟨⟨result, blocks⟩, registers, prepared⟩ := Run.bind_eq_ok_iff.mp prepared
      cases result with
      | error error => cases prepared
      | ok _ =>
          obtain ⟨signing, isSigned, prepared⟩ := Run.bind_eq_ok_iff.mp prepared
          cases signing with
          | none => cases prepared
          | some upload =>
              cases prepared
              obtain rfl := signUpload_imageId isSigned
              exact ⟨data, scanned, isHash, registers, rfl, isSigned⟩

/-- The index and the blocks of one more directory. -/
theorem Serving.Sound.prepareDir (scans : Scans tools files scan)
    (sound : serving.Sound tools files) {src : Path} {dest : VPath} {signed : SignedUpload}
    (prepared : prepareDir tools signer scan keys timestamp src dest serving =
      .ok (.ok signed, after)) :
    after.Sound tools files ∧ (∀ image ∈ serving.indexes.indexes, image ∈ after.indexes.indexes) ∧
      signed.imageId ∈ after.indexes.indexes := by
  obtain ⟨data, scanned, hashed, registers, isAfter, _⟩ := prepareDir_eq_ok prepared
  obtain ⟨blockSize, entries, parsed, holds⟩ := scans src data scanned
  obtain ⟨result, blocks, registers', registered⟩ :=
    BlockReader.registerDir_holds serving.blocks parsed holds
  cases registers.symm.trans registers'
  refine ⟨⟨registered.good sound.good, ?_⟩, ?_, ?_⟩
  · intro image member
    by_cases same : image = signed.imageId
    · subst same
      refine ⟨data, _, entries, ?_, hashed, parsed, fun bytes isHash => ?_⟩
      · rw [InMemoryIndexes.readIndex, isAfter, Map.lookup_insert_eq, if_pos rfl]
      · obtain ⟨hash, isSome, isBytes⟩ :=
          BlockHash.exists_fromBytes (registered.complete.mp rfl bytes isHash)
        exact ⟨hash, isBytes, registered.registered rfl hash (isBytes ▸ isHash)⟩
    · rw [isAfter, Finmap.mem_insert] at member
      have isThere := (sound.whole image (member.resolve_left same)).mono registered.keeps
      obtain ⟨other, header, others, isRead, isHash, isParsed, all⟩ := isThere
      refine ⟨other, header, others, ?_, isHash, isParsed, all⟩
      rw [← isRead, InMemoryIndexes.readIndex, InMemoryIndexes.readIndex, isAfter,
        Map.lookup_insert_eq, if_neg same]
  · intro image member
    rw [isAfter, Finmap.mem_insert]
    exact .inr member
  · rw [isAfter, Finmap.mem_insert]
    exact .inl rfl

/-- The uploads of one loop come after those that there were. -/
theorem Serving.Sound.prepareLoop (scans : Scans tools files scan)
    {read : List Char → Except SplitError Asked} {texts : List (List Char)} {before result : List Upload}
    (sound : serving.Sound tools files)
    (prepared : prepareLoop tools signer scan keys timestamp read texts before serving =
      .ok (.ok result, after)) :
    after.Sound tools files ∧ (∀ image ∈ serving.indexes.indexes, image ∈ after.indexes.indexes) ∧
      ∃ uploads, result = before ++ uploads ∧
        List.Forall₂ (IsPrepared tools signer scan keys timestamp (· ∈ after.indexes.indexes))
          (texts.map read) uploads := by
  induction texts generalizing before serving with
  | nil =>
      cases prepared
      exact ⟨sound, fun _ => id, [], by simp, .nil⟩
  | cons text rest ih =>
      rw [Client.prepareLoop] at prepared
      split at prepared
      · cases prepared
      · rename_i src dest make isRead
        obtain ⟨⟨outcome, middle⟩, first, prepared⟩ := Run.bind_eq_ok_iff.mp prepared
        cases outcome with
        | error error => cases prepared
        | ok signed =>
            obtain ⟨soundMiddle, kept, isThere⟩ := sound.prepareDir scans first
            obtain ⟨soundAfter, keeps, uploads, rfl, all⟩ := ih soundMiddle prepared
            obtain ⟨data, scanned, hashed, _, _, isSigned⟩ := prepareDir_eq_ok first
            refine ⟨soundAfter, fun image member => keeps image (kept image member),
              make signed :: uploads, by simp, ?_⟩
            rw [List.map_cons, isRead]
            refine .cons ⟨src, dest, make, signed, rfl, rfl, ?_, isSigned, keeps _ isThere⟩ all
            rw [scanned]
            exact hashed

/-- What is prepared stays so when more images are served. -/
theorem IsPrepared.mono {Served Served' : ImageId → Prop} {asked : Except SplitError Asked}
    {upload : Upload}
    (prepared : IsPrepared tools signer scan keys timestamp Served asked upload)
    (more : ∀ image, Served image → Served' image) :
    IsPrepared tools signer scan keys timestamp Served' asked upload := by
  obtain ⟨src, dest, make, signed, isAsked, isUpload, scanned, isSigned, served⟩ := prepared
  exact ⟨src, dest, make, signed, isAsked, isUpload, scanned, isSigned, more _ served⟩

/-- Whatever a client asks for is uploaded in order, signed for the image of its directory and its
destination, and the index of every image is served with all the blocks of its files. -/
theorem prepared_served (scans : Scans tools files scan) {opts : SyncOptions}
    {uploads : List Upload}
    (prepared : prepare tools signer scan keys timestamp opts ⟨⟨∅⟩, ⟨∅⟩⟩ =
      .ok (.ok uploads, after)) :
    List.Forall₂ (IsPrepared tools signer scan keys timestamp (HasImage tools after.indexes
      (after.blocks.Serves files (tools.digest .blake2bx256)))) opts.asked uploads := by
  have empty : Serving.Sound tools files ⟨⟨∅⟩, ⟨∅⟩⟩ :=
    ⟨fun hash member => absurd member Finmap.notMem_empty,
      fun image member => absurd member Finmap.notMem_empty⟩
  obtain ⟨⟨outcome, first⟩, appends, prepared⟩ := Run.bind_eq_ok_iff.mp prepared
  cases outcome with
  | error error => cases prepared
  | ok appended =>
      obtain ⟨⟨outcome, second⟩, weak, prepared⟩ := Run.bind_eq_ok_iff.mp prepared
      cases outcome with
      | error error => cases prepared
      | ok weakly =>
          obtain ⟨soundFirst, _, one, rfl, isOne⟩ := empty.prepareLoop scans appends
          obtain ⟨soundSecond, keepsSecond, two, rfl, isTwo⟩ := soundFirst.prepareLoop scans weak
          obtain ⟨soundAfter, keepsAfter, three, rfl, isThree⟩ :=
            soundSecond.prepareLoop scans prepared
          have served : ∀ image ∈ after.indexes.indexes, HasImage tools after.indexes
              (after.blocks.Serves files (tools.digest .blake2bx256)) image :=
            fun image member => (soundAfter.whole image member).mono soundAfter.good
          rw [SyncOptions.asked]
          refine List.rel_append (List.rel_append ?_ ?_) ?_
          · exact isOne.imp fun _ _ isPrepared => isPrepared.mono fun image member =>
              served image (keepsAfter image (keepsSecond image member))
          · exact isTwo.imp fun _ _ isPrepared => isPrepared.mono fun image member =>
              served image (keepsAfter image member)
          · exact isThree.imp fun _ _ isPrepared => isPrepared.mono served

end Served

namespace Prepare.Sample

/-- The file that is in the directory. -/
def motd : List UInt8 := [1, 2, 3]

/-- The files that are there. -/
def files (path : Path) : Option (List UInt8) :=
  if path = Path.ofText "dir/motd".toList then some motd else none

/-- An index knows its only file. -/
def entry : Entry :=
  .file (Path.ofText "/motd".toList) false 3 (hashFile BlockReader.Sample.digest 2 motd)

/-- Tools for a directory with one file. -/
def tools : Tools where
  parser := fun data => if data = [9] then some (⟨.blake2bx256, 2⟩, [some entry]) else none
  emitter := fun _ _ _ => []
  getHash := fun data => some ⟨data⟩
  digest := fun _ => BlockReader.Sample.digest
  hashFile := fun _ _ _ => none

/-- The scanner finds that one file. -/
def scan (dir : Path) : Option (List UInt8) :=
  if dir = Path.ofText "dir".toList then some [9] else none

/-- The scanner of the example does what it is assumed to do. -/
theorem scans : Scans tools files scan := by
  intro src data scanned
  unfold scan at scanned
  split at scanned
  · rename_i isDir
    cases scanned
    refine ⟨2, [entry], by decide, ?_⟩
    intro entry member
    obtain rfl := List.mem_singleton.mp member
    rw [isDir]
    exact ⟨_, motd, rfl, rfl, rfl, by decide, rfl⟩
  · cases scanned

/-- Every key signs with zeros. -/
def signer : Signer := fun _ _ => ⟨List.replicate 64 0, rfl⟩

/-- One directory is uploaded to two places. -/
def options : SyncOptions := ⟨["dir:/a/x".toList], [], ["dir:/b/y:09".toList]⟩

/-- The uploads of the example, with what is served for them. -/
def prepared : Run (Except PrepareError (List Upload) × Serving) :=
  prepare tools signer scan [] unixEpoch options ⟨⟨∅⟩, ⟨∅⟩⟩

end Prepare.Sample

open Prepare.Sample in

/-- Both uploads of the example are prepared, and what they need is served. -/
theorem prepared_served_twice : ∃ uploads after, prepared = .ok (.ok uploads, after) ∧
    uploads.length = 2 ∧
    List.Forall₂ (IsPrepared tools signer scan [] unixEpoch
      (HasImage tools after.indexes
        (after.blocks.Serves files BlockReader.Sample.digest))) options.asked uploads := by
  obtain ⟨uploads, after, isPrepared⟩ : ∃ uploads after, prepared = .ok (.ok uploads, after) :=
    ⟨_, _, rfl⟩
  have all := prepared_served scans isPrepared
  exact ⟨uploads, after, isPrepared, all.length_eq.symm, all⟩

end Ciruela.Client
