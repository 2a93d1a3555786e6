import Ciruela.Database.Signatures
import Ciruela.Foundation.Text
import Ciruela.Foundation.Tree
import Ciruela.VirtualPath

/-!
# Files of the metadata directory

The operations `metadata::dir` performs on one directory, over its files. Any
call to the operating system may fail for a reason of its own; `Io` says which
ones do, and `Io.working` is the run of an operation where none does. A file that
is missing is not such a failure: the code looks at it separately.
-/

namespace Ciruela

open Foundation

namespace Metadata

/-- What a file read as a state can hold. -/
inductive Content where
  | state (state : State)
  | broken
deriving DecidableEq

/-- The errors of the metadata functions, without the texts of the operating
system. -/
inductive Error where
  | invalidPath
  | pathNotFound (path : VPath)
  | fileWasVanished (file : FileName)
  | cleanupCanceled (path : VPath)
  | levelMismatch (has required : Nat)
  | openDir
  | createDir
  | read (file : FileName)
  | encode (file : FileName)
  | decode (file : FileName)
  | listDir
  | rename (source target : FileName)
  | writeMeta (file : FileName)
  | remove (file : FileName)
  | readKey
  | indexNotFound
  | resumeConflict (path : VPath)
  | resumeNoFile (path : VPath)
  | indexGcInterrupted
deriving DecidableEq

/-- The calls to the operating system. -/
inductive Call where
  | signatures
  | indexes
  | openDir
  | ensureDir
  | listDir
  | openFile (file : FileName)
  | readFile (file : FileName)
  | writeFile (file : FileName)
  | encode (file : FileName)
  | rename (source target : FileName)
  | removeFile (file : FileName)
  | stat (file : FileName)
deriving DecidableEq

/-- The calls that fail during an operation. -/
structure Io where
  fails : Call → Bool

/-- No call fails. -/
def Io.working : Io := ⟨fun _ => false⟩

@[simp] theorem Io.working_fails (call : Call) : Io.working.fails call = false := rfl

/-- `{name}.state`. -/
def stateFile (name : FileName) : FileName :=
  FileName.ofLong (name.text ++ ".state".toList) (by simp) (by
    rw [List.mem_append, not_or]
    exact ⟨name.slashFree, by decide⟩)

/-- `{name}.new.state`. -/
def newStateFile (name : FileName) : FileName :=
  FileName.ofLong (name.text ++ ".new.state".toList) (by simp) (by
    rw [List.mem_append, not_or]
    exact ⟨name.slashFree, by decide⟩)

/-- `.tmp.{name}`. -/
def tmpFile (name : FileName) : FileName :=
  FileName.ofLong (".tmp.".toList ++ name.text) (by simp) (by
    rw [List.mem_append, not_or]
    exact ⟨by decide, name.slashFree⟩)

/-- `.{name}.backup`. -/
def backupFile (name : FileName) : FileName :=
  FileName.ofLong (".".toList ++ name.text ++ ".backup".toList) (by simp) (by
    rw [List.mem_append, List.mem_append, not_or, not_or]
    exact ⟨⟨by decide, name.slashFree⟩, by decide⟩)

/-- The names of the directories a path walks down to, each of which must be a
name. -/
def checkComponents (path : Path) : Except Error (List FileName) :=
  path.components.mapM fun
    | .normal file => .ok file
    | _ => .error .invalidPath

/-- The names in front of the first component that is no name. -/
def leadingNames (path : Path) : List FileName :=
  (path.components.takeWhile Component.isNormal).filterMap fun
    | .normal file => some file
    | _ => none

/-- Components that pass the check are names. -/
theorem components_of_checkComponents {path : Path} {names : List FileName}
    (checked : checkComponents path = .ok names) : path.components = names.map .normal := by
  unfold checkComponents at checked
  generalize path.components = components at checked ⊢
  induction components generalizing names with
  | nil =>
      obtain rfl := Except.ok.inj checked
      rfl
  | cons first rest ih =>
      rw [List.mapM_cons] at checked
      cases first with
      | normal file =>
          cases later : rest.mapM (fun component : Component => match component with
            | .normal file => (.ok file : Except Error FileName)
            | _ => .error .invalidPath) with
          | error error =>
              rw [later] at checked
              cases checked
          | ok others =>
              rw [later] at checked
              obtain rfl := Except.ok.inj checked
              rw [ih later]
              rfl
      | rootDir => cases checked
      | curDir => cases checked
      | parentDir => cases checked

/-- `Dir::list_files` over the names in the order the system returns them. -/
def listFiles (names : List FileName) (ending : List Char) : List FileName :=
  names.filter fun name => !startsWith name.text ".".toList && endsWith name.text ending

/-- `Dir::read_file` with the decoder of states. A failure to read what was opened
is reported as a failure to decode it. -/
def readFile (io : Io) (files : Files Content) (name : FileName) : Except Error (Option State) :=
  if io.fails (.openFile name) then .error (.read name)
  else match files.lookup name with
    | none => .ok none
    | some (.state state) =>
        if io.fails (.readFile name) then .error (.decode name) else .ok (some state)
    | some .broken => .error (.decode name)

/-- `Dir::replace_file`: write a temporary file and rename it over the target. A
failure in between leaves the temporary file behind, with `partly` in it where the
writing itself has failed. -/
def replaceWith {Value : Type} (io : Io) (files : Files Value) (name : FileName)
    (partly whole : Value) : Except Error Unit × Files Value :=
  let tmp := tmpFile name
  if io.fails (.writeFile tmp) then (.error (.writeMeta name), files)
  else if io.fails (.encode name) then (.error (.encode name), files.insert tmp partly)
  else
    let written : Files Value := files.insert tmp whole
    if io.fails (.rename tmp name) then (.error (.writeMeta name), written)
    else match Files.rename written tmp name with
      | none => (.error (.writeMeta name), written)
      | some renamed => (.ok (), renamed)

/-- Replace a file by the encoding of a state. -/
def replaceFile (io : Io) (files : Files Content) (name : FileName) (state : State) :
    Except Error Unit × Files Content :=
  replaceWith io files name .broken (.state state)

/-- `Dir::remove_file`: a file that is not there counts as removed. -/
def removeFile {Value : Type} (io : Io) (files : Files Value) (name : FileName) :
    Except Error Unit × Files Value :=
  if io.fails (.removeFile name) then (.error (.remove name), files) else (.ok (), files.erase name)

/-- `Dir::rename`. -/
def renameFile (io : Io) (files : Files Content) (source target : FileName) :
    Except Error Unit × Files Content :=
  if io.fails (.rename source target) then (.error (.rename source target), files)
  else match files.rename source target with
    | none => (.error (.rename source target), files)
    | some renamed => (.ok (), renamed)

/-- `Dir::rename_broken_file`: failures are only logged. -/
def renameBrokenFile {Value : Type} (io : Io) (files : Files Value) (name : FileName) :
    Files Value :=
  if io.fails (.rename name (backupFile name)) then files
  else (files.rename name (backupFile name)).getD files

section Names

/-- The four files the metadata of one name uses are different files. The lengths
of the added texts already tell them apart. -/
theorem stateFile_ne_newStateFile (name : FileName) : stateFile name ≠ newStateFile name := by
  intro equal
  have lengths := congrArg (fun file => file.text.length) equal
  simp [stateFile, newStateFile] at lengths

theorem tmpFile_ne_self (name : FileName) : tmpFile name ≠ name := by
  intro equal
  have lengths := congrArg (fun file => file.text.length) equal
  simp [tmpFile] at lengths
  omega

theorem tmpFile_stateFile_ne_newStateFile (name : FileName) :
    tmpFile (stateFile name) ≠ newStateFile name := by
  intro equal
  have lengths := congrArg (fun file => file.text.length) equal
  simp [tmpFile, stateFile, newStateFile] at lengths

theorem tmpFile_newStateFile_ne_stateFile (name : FileName) :
    tmpFile (newStateFile name) ≠ stateFile name := by
  intro equal
  have lengths := congrArg (fun file => file.text.length) equal
  simp [tmpFile, stateFile, newStateFile] at lengths

end Names

section Effects

variable {io : Io} {files : Files Content}

/-- A replacement touches only its name and the temporary name. -/
theorem lookup_replaceWith {Value : Type} {files : Files Value} {name other : FileName}
    {partly whole : Value} (different : other ≠ name) (notTmp : other ≠ tmpFile name) :
    (replaceWith io files name partly whole).2.lookup other = files.lookup other := by
  unfold replaceWith
  dsimp only
  split
  · rfl
  · split
    · rw [Map.lookup_insert_eq, if_neg notTmp]
    · split
      · rw [Map.lookup_insert_eq, if_neg notTmp]
      · split
        · rw [Map.lookup_insert_eq, if_neg notTmp]
        · rename_i renamed rename
          obtain ⟨content, _, rfl⟩ := Files.rename_eq_some_iff.mp rename
          rw [Map.lookup_insert_eq, if_neg different, Map.lookup_erase_eq, if_neg notTmp,
            Map.lookup_insert_eq, if_neg notTmp]

/-- Replacing a file leaves other files alone. -/
theorem lookup_replaceFile {name other : FileName} {state : State} (different : other ≠ name)
    (notTmp : other ≠ tmpFile name) :
    (replaceFile io files name state).2.lookup other = files.lookup other :=
  lookup_replaceWith different notTmp

/-- A replacement stores the whole, or fails because a call failed and leaves the file
alone. -/
theorem replaceWith_cases {Value : Type} (io : Io) (files : Files Value) (name : FileName)
    (partly whole : Value) :
    ((replaceWith io files name partly whole).1 = .ok () ∧
      (replaceWith io files name partly whole).2.lookup name = some whole) ∨
    (∃ error, (replaceWith io files name partly whole).1 = .error error) ∧
      (∃ call, io.fails call = true) ∧
      (replaceWith io files name partly whole).2.lookup name = files.lookup name := by
  have apart : name ≠ tmpFile name := (tmpFile_ne_self name).symm
  unfold replaceWith
  dsimp only
  split
  · rename_i fails
    exact Or.inr ⟨⟨_, rfl⟩, ⟨_, fails⟩, rfl⟩
  · split
    · rename_i fails
      exact Or.inr ⟨⟨_, rfl⟩, ⟨_, fails⟩, by rw [Map.lookup_insert_eq, if_neg apart]⟩
    · split
      · rename_i fails
        exact Or.inr ⟨⟨_, rfl⟩, ⟨_, fails⟩, by rw [Map.lookup_insert_eq, if_neg apart]⟩
      · have renamed : Files.rename (files.insert (tmpFile name) whole) (tmpFile name) name =
            some (((files.insert (tmpFile name) whole).erase (tmpFile name)).insert name whole) := by
          simp [Files.rename]
        rw [renamed]
        exact Or.inl ⟨rfl, Finmap.lookup_insert _⟩

/-- A replacement stores the state, or fails because a call failed and leaves the
file alone. -/
theorem replaceFile_cases (io : Io) (files : Files Content) (name : FileName) (state : State) :
    ((replaceFile io files name state).1 = .ok () ∧
      (replaceFile io files name state).2.lookup name = some (.state state)) ∨
    (∃ error, (replaceFile io files name state).1 = .error error) ∧
      (∃ call, io.fails call = true) ∧
      (replaceFile io files name state).2.lookup name = files.lookup name :=
  replaceWith_cases io files name .broken (.state state)

/-- A file is removed, or a call has failed. -/
theorem removeFile_cases {Value : Type} (io : Io) (files : Files Value) (name : FileName) :
    removeFile io files name = (.ok (), files.erase name) ∨
      (∃ call, io.fails call = true) ∧ removeFile io files name = (.error (.remove name), files) := by
  unfold removeFile
  split
  · rename_i fails
    exact Or.inr ⟨⟨_, fails⟩, rfl⟩
  · exact Or.inl rfl

/-- Removing a file leaves other files alone. -/
theorem lookup_removeFile {Value : Type} {files : Files Value} {name other : FileName}
    (different : other ≠ name) :
    (removeFile io files name).2.lookup other = files.lookup other := by
  obtain removed | ⟨_, failed⟩ := removeFile_cases io files name
  · rw [removed, Map.lookup_erase_eq, if_neg different]
  · rw [failed]

/-- A file that reads as nothing is not there. -/
theorem readFile_eq_none {name : FileName} (read : readFile io files name = .ok none) :
    files.lookup name = none := by
  unfold readFile at read
  split at read
  · simp at read
  · split at read
    · assumption
    · split at read <;> simp at read
    · simp at read

/-- A file that reads as a state has that state. -/
theorem readFile_eq_some {name : FileName} {state : State}
    (read : readFile io files name = .ok (some state)) :
    files.lookup name = some (.state state) := by
  unfold readFile at read
  split at read
  · simp at read
  · split at read
    · simp at read
    · split at read
      · simp at read
      · simp_all
    · simp at read

/-- A rename moves the file, or changes nothing because a call failed or because
there is no such file. -/
theorem renameFile_cases (io : Io) (files : Files Content) (source target : FileName) :
    (∃ content, files.lookup source = some content ∧
      renameFile io files source target =
        (.ok (), (files.erase source).insert target content)) ∨
    ((∃ call, io.fails call = true) ∨ files.lookup source = none) ∧
      renameFile io files source target = (.error (.rename source target), files) := by
  unfold renameFile
  split
  · rename_i fails
    exact Or.inr ⟨Or.inl ⟨_, fails⟩, rfl⟩
  · split
    · rename_i missing
      refine Or.inr ⟨Or.inr ?_, rfl⟩
      simpa [Files.rename] using missing
    · rename_i renamed rename
      obtain ⟨content, found, rfl⟩ := Files.rename_eq_some_iff.mp rename
      exact Or.inl ⟨content, found, rfl⟩

/-- Renaming a file leaves other files alone. -/
theorem lookup_renameFile {source target other : FileName} (notSource : other ≠ source)
    (notTarget : other ≠ target) :
    (renameFile io files source target).2.lookup other = files.lookup other := by
  obtain ⟨content, _, renamed⟩ | ⟨_, failed⟩ := renameFile_cases io files source target
  · rw [renamed, Map.lookup_insert_eq, if_neg notTarget, Map.lookup_erase_eq, if_neg notSource]
  · rw [failed]

/-- Setting a file aside leaves every other file that is no backup. -/
theorem lookup_renameBrokenFile {Value : Type} {files : Files Value} {name other : FileName}
    (different : other ≠ name) (notBackup : other ≠ backupFile name) :
    (renameBrokenFile io files name).lookup other = files.lookup other := by
  unfold renameBrokenFile
  split
  · rfl
  · cases renamed : Files.rename files name (backupFile name) with
    | none => rfl
    | some after =>
        obtain ⟨content, _, rfl⟩ := Files.rename_eq_some_iff.mp renamed
        simp [different, notBackup]

/-- A file that is set aside is gone, or the rename failed. -/
theorem lookup_renameBrokenFile_cases {Value : Type} (io : Io) (files : Files Value)
    {name : FileName}
    (notBackup : name ≠ backupFile name) :
    (renameBrokenFile io files name).lookup name = files.lookup name ∧
        io.fails (.rename name (backupFile name)) = true ∨
      (renameBrokenFile io files name).lookup name = none := by
  unfold renameBrokenFile
  split
  · rename_i fails
    exact Or.inl ⟨rfl, fails⟩
  · cases renamed : Files.rename files name (backupFile name) with
    | none => exact Or.inr (by simpa [Files.rename] using renamed)
    | some after =>
        obtain ⟨content, _, rfl⟩ := Files.rename_eq_some_iff.mp renamed
        exact Or.inr (by simp [notBackup])

/-- A broken file that was renamed is gone. -/
theorem lookup_renameBrokenFile_self {Value : Type} {files : Files Value} {name : FileName}
    (notBackup : name ≠ backupFile name) :
    (renameBrokenFile Io.working files name).lookup name = none := by
  obtain ⟨_, fails⟩ | gone := lookup_renameBrokenFile_cases Io.working files notBackup
  · simp at fails
  · exact gone

end Effects

end Metadata

end Ciruela
