import Ciruela.Daemon.Metadata.Dir

/-!
# The directories of images

An image is written to `.tmp.x` next to its place `x`, checked there and then put in
place. A directory that goes away is renamed to `.tmp.old.x` first. The closures of the
disk pool run at the same time, so what they do is a list of actions here, each of which
is one call of the system or works on a name nobody else uses. The calls succeed.

What is inside a directory is a type of its own.
-/

namespace Ciruela

open Foundation

namespace Disk

open Metadata (tmpFile)

/-- `.tmp.old.{name}`. -/
def oldFile (name : FileName) : FileName :=
  FileName.ofLong (".tmp.old.".toList ++ name.text) (by simp) (by
    rw [List.mem_append, not_or]
    exact ⟨by decide, name.slashFree⟩)

/-- What the disk operations do to the names of a directory. -/
inductive Action where
  /-- `remove_by_str`. -/
  | clear (name : FileName)
  /-- Rename a directory that may be missing. -/
  | moveAside (name : FileName)
  /-- `ensure_subdir`. -/
  | create (name : FileName)
deriving DecidableEq

/-- `remove_dir_recursive`. Where there is nothing to rename it ends early; there is
nothing to clear then. -/
def removeDirRecursive (name : FileName) : List Action :=
  [.clear (oldFile name), .moveAside name, .clear (oldFile name)]

/-- `Disk::start_image` below the parent of the image. -/
def startImage (name : FileName) : List Action :=
  removeDirRecursive (tmpFile name) ++ [.create (tmpFile name)]

/-- `Disk::remove_image` below the parent of the image. -/
def removeImage (name : FileName) : List Action := removeDirRecursive name

section Actions

variable {Folder : Type}

/-- The names after an action. -/
def Action.apply (empty : Folder) (disk : Files Folder) : Action → Files Folder
  | .clear name => disk.erase name
  | .moveAside name => (disk.rename name (oldFile name)).getD disk
  | .create name => if name ∈ disk then disk else disk.insert name empty

/-- `Dir::local_exchange`. -/
def exchange (disk : Files Folder) (first second : FileName) : Option (Files Folder) := do
  let one ← disk.lookup first
  let other ← disk.lookup second
  return (disk.insert first other).insert second one

/-- The end of `commit_image`: put `.tmp.x` in the place of what was found there. -/
def switch (name : FileName) (found : Bool) (disk : Files Folder) : Option (Files Folder) :=
  if found then exchange disk (tmpFile name) name else disk.rename (tmpFile name) name

/-- The names an action works on. -/
def Action.names : Action → List FileName
  | .clear name => [name]
  | .moveAside name => [name, oldFile name]
  | .create name => [name]

/-- What moving aside does to a directory that is there, and to one that is not. -/
theorem moveAside_cases (empty : Folder) (disk : Files Folder) (name : FileName) :
    disk.lookup name = none ∧ (Action.moveAside name).apply empty disk = disk ∨
      ∃ folder, disk.lookup name = some folder ∧
        (Action.moveAside name).apply empty disk =
          (disk.erase name).insert (oldFile name) folder := by
  cases found : disk.lookup name with
  | none => exact Or.inl ⟨rfl, by simp [Action.apply, Files.rename, found]⟩
  | some folder => exact Or.inr ⟨folder, rfl, by simp [Action.apply, Files.rename, found]⟩

/-- An action leaves other names alone. -/
theorem Action.lookup_apply {empty : Folder} {disk : Files Folder} {action : Action}
    {other : FileName} (outside : other ∉ action.names) :
    (action.apply empty disk).lookup other = disk.lookup other := by
  cases action with
  | clear name =>
      have different : other ≠ name := by simpa [names] using outside
      rw [apply, Map.lookup_erase_eq, if_neg different]
  | moveAside name =>
      obtain ⟨notName, notOld⟩ : other ≠ name ∧ other ≠ oldFile name := by
        simpa [names] using outside
      obtain ⟨_, same⟩ | ⟨folder, _, moved⟩ := moveAside_cases empty disk name
      · rw [same]
      · rw [moved, Map.lookup_insert_eq, if_neg notOld, Map.lookup_erase_eq, if_neg notName]
  | create name =>
      have different : other ≠ name := by simpa [names] using outside
      rw [apply]
      split
      · rfl
      · rw [Map.lookup_insert_eq, if_neg different]

theorem oldFile_ne_self (name : FileName) : oldFile name ≠ name := by
  intro equal
  have lengths := congrArg (fun file => file.text.length) equal
  simp [oldFile] at lengths
  omega

theorem tmpFile_ne_oldFile (name : FileName) : tmpFile name ≠ oldFile name := by
  intro equal
  have lengths := congrArg (fun file => file.text.length) equal
  simp [oldFile, tmpFile] at lengths

theorem oldFile_tmpFile_ne_self (name : FileName) : oldFile (tmpFile name) ≠ name := by
  intro equal
  have lengths := congrArg (fun file => file.text.length) equal
  simp [oldFile, tmpFile] at lengths
  omega

/-- A directory that was moved aside is gone. -/
theorem lookup_moveAside (empty : Folder) (disk : Files Folder) (name : FileName) :
    ((Action.moveAside name).apply empty disk).lookup name = none := by
  obtain ⟨missing, same⟩ | ⟨folder, _, moved⟩ := moveAside_cases empty disk name
  · rw [same, missing]
  · rw [moved, Map.lookup_insert_eq, if_neg (oldFile_ne_self name).symm, Map.lookup_erase_eq,
      if_pos rfl]

/-- The place of the image holds what was in `.tmp.x`. -/
theorem lookup_switch {name : FileName} {found : Bool} {disk after : Files Folder}
    (switched : switch name found disk = some after) :
    after.lookup name = disk.lookup (tmpFile name) := by
  unfold switch at switched
  split at switched
  · obtain ⟨one, isOne, switched⟩ := Option.bind_eq_some_iff.mp switched
    obtain ⟨other, _, switched⟩ := Option.bind_eq_some_iff.mp switched
    obtain rfl := Option.some.inj switched
    rw [Map.lookup_insert_eq, if_pos rfl, isOne]
  · obtain ⟨folder, isFolder, rfl⟩ := Files.rename_eq_some_iff.mp switched
    rw [Map.lookup_insert_eq, if_pos rfl, isFolder]

/-- Making and removing `.tmp.x` leaves the place of the image alone. -/
theorem notMem_of_startImage {name : FileName} {action : Action}
    (member : action ∈ startImage name) : name ∉ action.names := by
  have apart := (Metadata.tmpFile_ne_self name).symm
  have old := (oldFile_tmpFile_ne_self name).symm
  simp only [startImage, removeDirRecursive, List.cons_append, List.nil_append, List.mem_cons,
    List.not_mem_nil, or_false] at member
  rcases member with rfl | rfl | rfl | rfl
  · simpa [Action.names] using old
  · simpa [Action.names] using And.intro apart old
  · simpa [Action.names] using old
  · simpa [Action.names] using apart

/-- Removing an image leaves `.tmp.x` alone, and only the renaming touches its place. -/
theorem of_mem_removeImage {name : FileName} {action : Action}
    (member : action ∈ removeImage name) :
    tmpFile name ∉ action.names ∧ (action = .moveAside name ∨ name ∉ action.names) := by
  have apart := Metadata.tmpFile_ne_self name
  have old := tmpFile_ne_oldFile name
  have self := (oldFile_ne_self name).symm
  simp only [removeImage, removeDirRecursive, List.mem_cons, List.not_mem_nil, or_false] at member
  rcases member with rfl | rfl | rfl
  · exact ⟨by simpa [Action.names] using old, Or.inr (by simpa [Action.names] using self)⟩
  · exact ⟨by simpa [Action.names] using And.intro apart old, Or.inl rfl⟩
  · exact ⟨by simpa [Action.names] using old, Or.inr (by simpa [Action.names] using self)⟩

end Actions

end Disk

end Ciruela
