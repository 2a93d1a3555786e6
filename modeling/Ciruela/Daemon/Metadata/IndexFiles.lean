import Ciruela.Daemon.IndexCache
import Ciruela.Daemon.Metadata.Meta

/-!
# Index files

The index of an image is a file named by the id, in a directory named by the first two
digits of it. A file that does not parse is set aside.
-/

namespace Ciruela

open Foundation

/-- A name, if the text is one. -/
def Foundation.FileName.ofText (text : List Char) : Option FileName :=
  if valid : text ≠ [] ∧ '/' ∉ text ∧ text ≠ ['.'] ∧ text ≠ ['.', '.'] then
    some ⟨text, valid.1, valid.2.1, valid.2.2.1, valid.2.2.2⟩
  else none

/-- A text that is a file name is the text of that file name. -/
theorem Foundation.FileName.ofText_eq_some_iff {text : List Char} {name : FileName} :
    FileName.ofText text = some name ↔ name.text = text := by
  unfold FileName.ofText
  constructor
  · intro named
    split at named
    · rw [← Option.some.inj named]
    · cases named
  · rintro rfl
    rw [dif_pos ⟨name.nonempty, name.slashFree, name.notDot, name.notDotDot⟩]

namespace Metadata

/-- The content of an index file in a directory of the indexes. -/
def Meta.indexBytes (io : Io) (dir : List Char) (file : FileName) (store : Meta) :
    Except Error (List UInt8) :=
  if io.fails .openDir then .error .openDir
  else match (Path.ofText dir).fileName.bind fun name => store.indexes.dirs.lookup [name] with
    | none => .error .indexNotFound
    | some files =>
        if io.fails (.openFile file) then .error (.read file)
        else match files.lookup file with
          | none => .error .indexNotFound
          | some bytes => if io.fails (.readFile file) then .error (.decode file) else .ok bytes

/-- `read_index::read_bytes`. The directory is named by the first two digits. -/
def Meta.readIndexBytes (io : Io) (image : ImageId) (store : Meta) :
    Run (Except Error (List UInt8)) := do
  if io.fails .indexes then return .error .createDir
  let dir ← Run.slicePrefix image.toHex 2
  Run.assert (dir ≠ ['.'] && dir ≠ ['.', '.'] && !dir.contains '/')
    "name != \".\" && name != \"..\" && name.find(\"/\").is_none()"
  return store.indexBytes io dir image.indexFile

/-- `store_index::write`. What a failed write leaves in the temporary file is
`partly`. -/
def Meta.writeIndex (io : Io) (image : ImageId) (data partly : List UInt8) (store : Meta) :
    Run (Except Error Unit × Meta) := do
  if io.fails .indexes then return (.error .createDir, store)
  let group ← Run.slicePrefix image.toHex 2
  if io.fails .ensureDir then return (.error .createDir, store)
  match FileName.ofText group with
  | none => return (.error .invalidPath, store)
  | some group =>
      let result := replaceWith io (store.indexes.files [group]) image.indexFile partly data
      return (result.1, { store with indexes := store.indexes.setFiles [group] result.2 })

/-- Rename a file of the indexes that does not parse. -/
def Meta.setIndexAside (io : Io) (dir : List Char) (file : FileName) (store : Meta) : Meta :=
  match (Path.ofText dir).fileName with
  | none => store
  | some group =>
      let files := renameBrokenFile io (store.indexes.files [group]) file
      { store with indexes := store.indexes.setFiles [group] files }

/-- `read_index::read`, with the bytes the index is parsed from. -/
def Meta.readIndex (parser : Parser) (io : Io) (image : ImageId) (store : Meta) :
    Run (Except Error (IndexData × List UInt8) × Meta) := do
  if io.fails .indexes then return (.error .createDir, store)
  let dir ← Run.slicePrefix image.toHex 2
  Run.assert (dir ≠ ['.'] && dir ≠ ['.', '.'] && !dir.contains '/')
    "name != \".\" && name != \"..\" && name.find(\"/\").is_none()"
  match store.indexBytes io dir image.indexFile with
  | .ok bytes =>
      match ← IndexData.parse parser image bytes with
      | some data => return (.ok (data, bytes), store)
      | none => return (.error .indexNotFound, store.setIndexAside io dir image.indexFile)
  | .error (.decode _) =>
      return (.error .indexNotFound, store.setIndexAside io dir image.indexFile)
  | .error error => return (.error error, store)

section Files

variable {io : Io} {image other : ImageId} {store after : Meta} {bytes : List UInt8}

/-- Index files tell images apart. -/
theorem indexFile_injective (same : image.indexFile = other.indexFile) : image = other := by
  have texts := congrArg FileName.text same
  simp only [ImageId.indexFile, FileName.ofLong_text] at texts
  have digits : image.toHex = other.toHex := List.append_cancel_right texts
  have read := congrArg ImageId.ofHex digits
  rwa [ImageId.ofHex_toHex, ImageId.ofHex_toHex, Option.some.injEq] at read

theorem indexFile_ne_tmpFile : other.indexFile ≠ tmpFile image.indexFile := by
  intro same
  have texts := congrArg FileName.text same
  simp only [ImageId.indexFile, tmpFile, FileName.ofLong_text] at texts
  rw [← List.append_assoc] at texts
  have digits : other.toHex = ".tmp.".toList ++ image.toHex := List.append_cancel_right texts
  have dot : '.' ∈ other.toHex := by
    rw [digits]
    simp
  exact other.dot_notMem_toHex dot

theorem indexFile_ne_backupFile : other.indexFile ≠ backupFile image.indexFile := by
  intro same
  have texts := congrArg (fun file => file.text.reverse.head?) same
  simp [ImageId.indexFile, backupFile] at texts

/-- The indexes have a file with these bytes for the image. -/
def Meta.HasIndex (store : Meta) (image : ImageId) (bytes : List UInt8) : Prop :=
  ∃ group, (store.indexes.files [group]).lookup image.indexFile = some bytes

/-- Other files of the group may change, as long as the file of the index stays. -/
theorem Meta.HasIndex.of_setFiles {group : FileName} {files : Files (List UInt8)}
    (has : Meta.HasIndex { store with indexes := store.indexes.setFiles [group] files } other bytes) :
    store.HasIndex other bytes ∨ files.lookup other.indexFile = some bytes := by
  obtain ⟨place, found⟩ := has
  rw [Tree.files_setFiles] at found
  split at found
  · exact Or.inr found
  · exact Or.inl ⟨place, found⟩

/-- A file that is set aside does not come back as an index. -/
theorem Meta.HasIndex.of_setIndexAside {dir : List Char}
    (has : (store.setIndexAside io dir image.indexFile).HasIndex other bytes) :
    store.HasIndex other bytes := by
  unfold Meta.setIndexAside at has
  split at has
  · exact has
  · rename_i group _
    rcases has.of_setFiles with old | found
    · exact old
    · refine ⟨group, ?_⟩
      have apart : image.indexFile ≠ backupFile image.indexFile := indexFile_ne_backupFile
      by_cases same : other.indexFile = image.indexFile
      · rw [same] at found ⊢
        obtain ⟨kept, _⟩ | gone := lookup_renameBrokenFile_cases io
          (store.indexes.files [group]) apart
        · rwa [kept] at found
        · rw [gone] at found
          cases found
      · rwa [lookup_renameBrokenFile same indexFile_ne_backupFile] at found

/-- A write leaves the indexes of other images, and its own bytes for its image. -/
theorem Meta.HasIndex.of_writeIndex {data partly : List UInt8} {result : Except Error Unit}
    (wrote : store.writeIndex io image data partly = .ok (result, after))
    (has : after.HasIndex other bytes) :
    store.HasIndex other bytes ∨ other = image ∧ bytes = data := by
  unfold Meta.writeIndex at wrote
  split at wrote
  · obtain ⟨_, rfl⟩ := Prod.mk.inj (Except.ok.inj wrote)
    exact Or.inl has
  · obtain ⟨group, _, wrote⟩ := Run.bind_eq_ok_iff.mp wrote
    split at wrote
    · obtain ⟨_, rfl⟩ := Prod.mk.inj (Except.ok.inj wrote)
      exact Or.inl has
    · split at wrote
      · obtain ⟨_, rfl⟩ := Prod.mk.inj (Except.ok.inj wrote)
        exact Or.inl has
      · rename_i group _
        obtain ⟨_, rfl⟩ := Prod.mk.inj (Except.ok.inj wrote)
        rcases has.of_setFiles with old | found
        · exact Or.inl old
        · by_cases same : other.indexFile = image.indexFile
          · obtain rfl := indexFile_injective same
            obtain ⟨_, stored⟩ | ⟨_, _, kept⟩ := replaceWith_cases io
              (store.indexes.files [group]) other.indexFile partly data
            · exact Or.inr ⟨rfl, Option.some.inj (found.symm.trans stored)⟩
            · exact Or.inl ⟨group, kept ▸ found⟩
          · rw [lookup_replaceWith same indexFile_ne_tmpFile] at found
            exact Or.inl ⟨group, found⟩

/-- An index whose bytes are read is there. -/
theorem hasIndex_of_indexBytes {dir : List Char}
    (read : store.indexBytes io dir image.indexFile = .ok bytes) : store.HasIndex image bytes := by
  unfold Meta.indexBytes at read
  split at read
  · cases read
  · split at read
    · cases read
    · rename_i files opened
      obtain ⟨name, _, isDir⟩ := Option.bind_eq_some_iff.mp opened
      split at read
      · cases read
      · split at read
        · cases read
        · rename_i content found
          split at read
          · cases read
          · obtain rfl := Except.ok.inj read
            refine ⟨name, ?_⟩
            rw [Tree.files, isDir]
            exact found

/-- What is read is the parsed content of a file, and reading brings no index. -/
theorem readIndex_eq_ok {parser : Parser} {result : Except Error (IndexData × List UInt8)}
    (read : store.readIndex parser io image = .ok (result, after)) :
    (∀ data bytes, result = .ok (data, bytes) →
      IndexData.parse parser image bytes = .ok (some data) ∧ store.HasIndex image bytes) ∧
    ∀ other bytes, after.HasIndex other bytes → store.HasIndex other bytes := by
  have fails {error : Error} {next : Meta}
      (brings : ∀ other bytes, next.HasIndex other bytes → store.HasIndex other bytes)
      (done : (pure (.error error, next) : Run _) = .ok (result, after)) :
      (∀ data bytes, result = .ok (data, bytes) →
        IndexData.parse parser image bytes = .ok (some data) ∧ store.HasIndex image bytes) ∧
      ∀ other bytes, after.HasIndex other bytes → store.HasIndex other bytes := by
    obtain ⟨rfl, rfl⟩ := Prod.mk.inj (Except.ok.inj done)
    exact ⟨nofun, brings⟩
  unfold Meta.readIndex at read
  split at read
  · exact fails (fun _ _ has => has) read
  · obtain ⟨dir, _, read⟩ := Run.bind_eq_ok_iff.mp read
    obtain ⟨_, _, read⟩ := Run.bind_eq_ok_iff.mp read
    split at read
    · rename_i bytes isBytes
      obtain ⟨parsed, isParsed, read⟩ := Run.bind_eq_ok_iff.mp read
      split at read
      · obtain ⟨rfl, rfl⟩ := Prod.mk.inj (Except.ok.inj read)
        refine ⟨?_, fun _ _ has => has⟩
        rintro _ _ ⟨⟩
        exact ⟨isParsed, hasIndex_of_indexBytes isBytes⟩
      · exact fails (fun _ _ has => has.of_setIndexAside) read
    · exact fails (fun _ _ has => has.of_setIndexAside) read
    · exact fails (fun _ _ has => has) read

end Files

end Metadata

end Ciruela
