import Ciruela.Daemon.IndexCache
import Ciruela.Foundation.Tree

/-!
# Checking an image before it is committed

`commit_image` goes through the entries of the index. It makes the directories, the
empty files and the links, and compares every other file with its hashes. What comes
after a directory in the index is put into that directory.

Paths that leave the directory are not followed here.
-/

namespace Ciruela

open Foundation

namespace Disk

/-- What an entry of a folder is. -/
inductive Item where
  | dir
  | file (bytes : List UInt8) (exe : Bool)
  | link (dest : Path)
deriving DecidableEq

/-- What is inside the directory of an image, by the names that lead to it. -/
abbrev Folder := Map (List FileName) Item

/-- Why an image cannot be committed: an entry, a directory, a file, a link, or the move at the
end. -/
inductive CommitError where
  | outside (path : Path)
  | openDir (location : List FileName)
  | readFile (location : List FileName)
  | checksum (location : List FileName)
  | createSymlink (location : List FileName)
  | commit (name : FileName)
deriving DecidableEq

/-- The names of a path below the directory. -/
def relativeNames (path : Path) : Option (List FileName) :=
  (path.components.filter (· ≠ .rootDir)).mapM fun
    | .normal name => some name
    | _ => none

/-- `ensure_path`, from a place inside the directory. -/
def ensurePath (location : List FileName) : List FileName → Folder → Except CommitError Folder
  | [], folder => .ok folder
  | name :: rest, folder =>
      match folder.lookup (location ++ [name]) with
      | none => ensurePath (location ++ [name]) rest (folder.insert (location ++ [name]) .dir)
      | some .dir => ensurePath (location ++ [name]) rest folder
      | some _ => .error (.openDir (location ++ [name]))

/-- `Hashes::check_file`, a function of the package that reads indexes. It says whether a
content has the hashes. -/
abbrev CheckHashes := Hashes → List UInt8 → Bool

/-- Compares the content of a file with the hashes of its blocks. -/
abbrev CheckFile := List (List UInt8) → List UInt8 → Bool

/-- The check of the files of an index. -/
def CheckFile.ofIndex (checkHashes : CheckHashes) (index : IndexData) : CheckFile :=
  fun hashes bytes => checkHashes ⟨index.header, hashes⟩ bytes

/-- An entry for a file: the empty one is made, any other has to be there with its hashes. -/
def commitFile (checkFile : CheckFile) (location : List FileName) (exe : Bool) (size : Nat)
    (hashes : List (List UInt8)) (folder : Folder) : Except CommitError Folder :=
  match size, folder.lookup location with
  | 0, none => .ok (folder.insert location (.file [] exe))
  | 0, some (.file bytes _) => if bytes = [] then .ok folder else .error (.checksum location)
  | 0, some .dir => .error (.checksum location)
  | 0, some (.link _) => .error (.readFile location)
  | _ + 1, some (.file bytes executable) =>
      if checkFile hashes bytes then .ok (folder.insert location (.file bytes (executable || exe)))
      else .error (.checksum location)
  | _ + 1, _ => .error (.readFile location)

/-- An entry for a link, which must not be there. -/
def commitLink (location : List FileName) (dest : Path) (folder : Folder) :
    Except CommitError Folder :=
  match folder.lookup location with
  | none => .ok (folder.insert location (.link dest))
  | some _ => .error (.createSymlink location)

/-- Where an entry that is no directory belongs, in the directory that was opened last. -/
def locationOf (opened : Option (List FileName)) (path : Path) (missing : String) :
    Run (List FileName) := do
  let dir ← Run.expect opened "called `Option::unwrap()` on a `None` value"
  let name ← Run.expect path.fileName missing
  return dir ++ [name]

/-- One turn of the loop, with the directory that was opened last. -/
def commitEntry (checkFile : CheckFile) (opened : Option (List FileName)) (folder : Folder) :
    Entry → Run (Except CommitError (Option (List FileName) × Folder))
  | .dir path =>
      match relativeNames path with
      | none => return .error (.outside path)
      | some names => return (ensurePath [] names folder).map (some names, ·)
  | .file path exe size hashes => do
      let location ← locationOf opened path "file has filename"
      return (commitFile checkFile location exe size hashes folder).map (opened, ·)
  | .link path dest => do
      let location ← locationOf opened path "symlink has filename"
      return (commitLink location dest folder).map (opened, ·)

/-- The loop of `commit_image` over the entries of the index. -/
def commitEntries (checkFile : CheckFile) :
    List Entry → Option (List FileName) → Folder → Run (Except CommitError Folder)
  | [], _, folder => return .ok folder
  | entry :: rest, opened, folder => do
      match ← commitEntry checkFile opened folder entry with
      | .error error => return .error error
      | .ok (opened, folder) => commitEntries checkFile rest opened folder

/-- Where every entry belongs. -/
def locate : Option (List FileName) → List Entry → List (List FileName × Entry)
  | _, [] => []
  | _, .dir path :: rest =>
      let names := (relativeNames path).getD []
      (names, .dir path) :: locate (some names) rest
  | opened, .file path exe size hashes :: rest =>
      (opened.getD [] ++ path.fileName.toList, .file path exe size hashes) :: locate opened rest
  | opened, .link path dest :: rest =>
      (opened.getD [] ++ path.fileName.toList, .link path dest) :: locate opened rest

/-- An item without its permissions. -/
def Item.plain : Item → Item
  | file bytes _ => file bytes false
  | item => item

namespace Folder

variable {folder middle after : Folder} {checkFile : CheckFile}

/-- What is found at a place, whatever its permissions. -/
def found (folder : Folder) (location : List FileName) : Option Item :=
  (folder.lookup location).map Item.plain

/-- The entry is in the directory as the index says. The directory itself is always
there. -/
def Has (checkFile : CheckFile) (folder : Folder) (location : List FileName) : Entry → Prop
  | .dir _ => location ≠ [] → folder.found location = some .dir
  | .link _ dest => folder.found location = some (.link dest)
  | .file _ _ size hashes => ∃ bytes, folder.found location = some (.file bytes false) ∧
      if size = 0 then bytes = [] else checkFile hashes bytes = true

/-- Nothing goes away or changes. -/
def Keeps (before after : Folder) : Prop :=
  ∀ location item, before.found location = some item → after.found location = some item

theorem Keeps.refl (folder : Folder) : folder.Keeps folder := fun _ _ isFound => isFound

theorem Keeps.trans (first : folder.Keeps middle) (second : middle.Keeps after) :
    folder.Keeps after :=
  fun location item isFound => second location item (first location item isFound)

/-- An entry stays there as long as what was found is kept. -/
theorem Has.keeps {location : List FileName} {entry : Entry}
    (has : folder.Has checkFile location entry) (keeps : folder.Keeps after) :
    after.Has checkFile location entry := by
  cases entry with
  | dir path => exact fun inside => keeps _ _ (has inside)
  | link path dest => exact keeps _ _ has
  | file path exe size hashes =>
      obtain ⟨bytes, isFound, right⟩ := has
      exact ⟨bytes, keeps _ _ isFound, right⟩

/-- What is found after an item is put in. -/
theorem found_insert (folder : Folder) (location other : List FileName) (item : Item) :
    Folder.found (folder.insert location item) other =
      if other = location then some item.plain else folder.found other := by
  unfold found
  rw [Map.lookup_insert_eq]
  split
  · rfl
  · rfl

/-- Something is put where nothing else was. -/
theorem keeps_insert {location : List FileName} {item : Item}
    (same : ∀ old, folder.found location = some old → old = item.plain) :
    folder.Keeps (folder.insert location item) := by
  intro other old isFound
  rw [found_insert]
  split
  · rename_i isLocation
    rw [same old (isLocation ▸ isFound)]
  · exact isFound

theorem found_eq_none {location : List FileName} (missing : folder.lookup location = none) :
    folder.found location = none := by
  rw [found, missing]
  rfl

end Folder

section Entries

variable {folder after : Folder} {checkFile : CheckFile}

/-- Making sure of a path keeps what is there and makes the directories. -/
theorem ensurePath_ok {location names : List FileName}
    (made : ensurePath location names folder = .ok after) :
    folder.Keeps after ∧ (names ≠ [] → after.found (location ++ names) = some .dir) := by
  induction names generalizing location folder with
  | nil =>
      obtain rfl := Except.ok.inj made
      exact ⟨.refl _, fun nonempty => absurd rfl nonempty⟩
  | cons name rest ih =>
      -- the directory on the way is there, whatever comes below it
      have below {middle : Folder} (kept : folder.Keeps middle)
          (isDir : middle.found (location ++ [name]) = some .dir)
          (made : ensurePath (location ++ [name]) rest middle = .ok after) :
          folder.Keeps after ∧ after.found (location ++ name :: rest) = some .dir := by
        obtain ⟨keeps, isThere⟩ := ih made
        refine ⟨kept.trans keeps, ?_⟩
        by_cases last : rest = []
        · rw [last]
          exact keeps _ _ isDir
        · simpa using isThere last
      rw [ensurePath] at made
      split at made
      · rename_i missing
        have kept : folder.Keeps (folder.insert (location ++ [name]) .dir) :=
          Folder.keeps_insert (by simp [Folder.found_eq_none missing])
        obtain ⟨keeps, isThere⟩ := below kept (by simp [Folder.found_insert, Item.plain]) made
        exact ⟨keeps, fun _ => isThere⟩
      · rename_i isDir
        obtain ⟨keeps, isThere⟩ := below (.refl _) (by simp [Folder.found, isDir, Item.plain]) made
        exact ⟨keeps, fun _ => isThere⟩
      · cases made

/-- A file that is committed is there with its hashes. -/
theorem commitFile_ok {location : List FileName} {path : Path} {exe : Bool} {size : Nat}
    {hashes : List (List UInt8)}
    (committed : commitFile checkFile location exe size hashes folder = .ok after) :
    folder.Keeps after ∧ after.Has checkFile location (.file path exe size hashes) := by
  unfold commitFile at committed
  split at committed
  · rename_i missing
    obtain rfl := Except.ok.inj committed
    refine ⟨Folder.keeps_insert (by simp [Folder.found_eq_none missing]), [], ?_, rfl⟩
    simp [Folder.found_insert, Item.plain]
  · rename_i bytes executable isFile
    split at committed
    · rename_i isEmpty
      obtain rfl := Except.ok.inj committed
      exact ⟨.refl _, bytes, by simp [Folder.found, isFile, Item.plain], isEmpty⟩
    · cases committed
  · cases committed
  · cases committed
  · rename_i bytes executable isFile
    split at committed
    · rename_i isRight
      obtain rfl := Except.ok.inj committed
      refine ⟨Folder.keeps_insert (by simp [Folder.found, isFile, Item.plain]), bytes, ?_, isRight⟩
      simp [Folder.found_insert, Item.plain]
    · cases committed
  · cases committed

/-- A link that is committed is there. -/
theorem commitLink_ok {location : List FileName} {path dest : Path}
    (committed : commitLink location dest folder = .ok after) :
    folder.Keeps after ∧ after.Has checkFile location (.link path dest) := by
  unfold commitLink at committed
  split at committed
  · rename_i missing
    obtain rfl := Except.ok.inj committed
    refine ⟨Folder.keeps_insert (by simp [Folder.found_eq_none missing]), ?_⟩
    simp [Folder.Has, Folder.found_insert, Item.plain]
  · cases committed

/-- The place of an entry is below the directory that is open. -/
theorem locationOf_ok {opened : Option (List FileName)} {path : Path} {missing : String}
    {location : List FileName} (located : locationOf opened path missing = .ok location) :
    location = opened.getD [] ++ path.fileName.toList := by
  obtain ⟨dir, isOpened, located⟩ := Run.bind_eq_ok_iff.mp located
  obtain ⟨name, isName, located⟩ := Run.bind_eq_ok_iff.mp located
  rw [Run.expect_eq_ok_iff.mp isOpened, Run.expect_eq_ok_iff.mp isName]
  exact (Except.ok.inj located).symm

theorem map_eq_ok {Error Value Next : Type} {result : Except Error Value} {next : Value → Next}
    {value : Next} (mapped : result.map next = .ok value) :
    ∃ inner, result = .ok inner ∧ next inner = value := by
  cases result with
  | error error => cases mapped
  | ok inner => exact ⟨inner, rfl, Except.ok.inj mapped⟩

/-- An image that passes has every entry of its index. -/
theorem commitEntries_ok {entries : List Entry} {opened : Option (List FileName)}
    (committed : commitEntries checkFile entries opened folder = .ok (.ok after)) :
    folder.Keeps after ∧
      ∀ located ∈ locate opened entries, after.Has checkFile located.1 located.2 := by
  induction entries generalizing opened folder with
  | nil =>
      obtain rfl := Except.ok.inj (Except.ok.inj committed)
      exact ⟨.refl _, by simp [locate]⟩
  | cons entry rest ih =>
      obtain ⟨result, isResult, committed⟩ := Run.bind_eq_ok_iff.mp committed
      -- the entry is there after its turn, and it stays
      have turn {next : Option (List FileName)} {middle : Folder} {location : List FileName}
          (kept : folder.Keeps middle) (has : middle.Has checkFile location entry)
          (later : commitEntries checkFile rest next middle = .ok (.ok after)) :
          folder.Keeps after ∧ ∀ located ∈ (location, entry) :: locate next rest,
            after.Has checkFile located.1 located.2 := by
        obtain ⟨keeps, all⟩ := ih later
        refine ⟨kept.trans keeps, ?_⟩
        intro located member
        rcases List.mem_cons.mp member with rfl | old
        · exact has.keeps keeps
        · exact all located old
      cases result with
      | error error => cases committed
      | ok progress =>
          cases entry with
          | dir path =>
              rw [commitEntry] at isResult
              split at isResult
              · cases isResult
              · rename_i names isNames
                obtain ⟨middle, made, rfl⟩ := map_eq_ok (Except.ok.inj isResult)
                obtain ⟨keeps, isThere⟩ := ensurePath_ok made
                rw [locate, isNames]
                exact turn keeps isThere committed
          | file path exe size hashes =>
              obtain ⟨location, isLocation, isResult⟩ := Run.bind_eq_ok_iff.mp isResult
              obtain ⟨middle, made, rfl⟩ := map_eq_ok (Except.ok.inj isResult)
              obtain ⟨keeps, has⟩ := commitFile_ok made
              rw [locate, ← locationOf_ok isLocation]
              exact turn keeps has committed
          | link path dest =>
              obtain ⟨location, isLocation, isResult⟩ := Run.bind_eq_ok_iff.mp isResult
              obtain ⟨middle, made, rfl⟩ := map_eq_ok (Except.ok.inj isResult)
              obtain ⟨keeps, has⟩ := commitLink_ok made
              rw [locate, ← locationOf_ok isLocation]
              exact turn keeps has committed

end Entries

end Disk

end Ciruela
