import Ciruela.Daemon.Disk.Depicted
import Ciruela.Daemon.Disk.Images

/-!
# From the temporary directory to the place of the image

`commit_image` goes through the entries of the index, and puts the directory that it has checked
into the place of the image. What was in that place is removed.
-/

namespace Ciruela

open Foundation

namespace Disk

open Metadata (tmpFile)

/-- `commit_image`, next to the place of the image. The calls after the check succeed, but for a
directory that is gone. -/
def commitImage (checkFile : CheckFile) (entries : List Entry) (name : FileName)
    (disk : Files Folder) : Run (Except CommitError (Files Folder)) :=
  match disk.lookup (tmpFile name) with
  | none => return .error (.commit name)
  | some folder => do
      match ← commitEntries checkFile entries none folder with
      | .error error => return .error error
      | .ok checked =>
          let found := decide (name ∈ disk)
          match switch name found (disk.insert (tmpFile name) checked) with
          | none => return .error (.commit name)
          | some switched =>
              let rest := if found then removeDirRecursive (tmpFile name) else []
              return .ok (rest.foldl (Action.apply ∅) switched)

/-- The names that a commit works on: the place of the image, the temporary directory, and the
name under which a directory is removed. -/
def committing (name : FileName) : List FileName := [name, tmpFile name, oldFile (tmpFile name)]

/-- In the place of the image is this image, the temporary directory is gone, and all other names
are as before. -/
structure InPlace (name : FileName) (image : Folder) (before after : Files Folder) : Prop where
  here : after.lookup name = some image
  gone : after.lookup (tmpFile name) = none
  others : ∀ other, other ∉ committing name → after.lookup other = before.lookup other

section Place

variable {Content : Type} {empty : Content} {disk : Files Content} {name other : FileName}

/-- Removing a directory leaves all names alone but its own and the one it is renamed to. -/
theorem lookup_removeDirRecursive (notName : other ≠ name) (notOld : other ≠ oldFile name) :
    ((removeDirRecursive name).foldl (Action.apply empty) disk).lookup other =
      disk.lookup other := by
  simp only [removeDirRecursive, List.foldl_cons, List.foldl_nil]
  rw [Action.lookup_apply (by simpa [Action.names] using notOld),
    Action.lookup_apply (by simpa [Action.names] using And.intro notName notOld),
    Action.lookup_apply (by simpa [Action.names] using notOld)]

/-- A directory that was removed is gone. -/
theorem lookup_removeDirRecursive_self :
    ((removeDirRecursive name).foldl (Action.apply empty) disk).lookup name = none := by
  have apart := (oldFile_ne_self name).symm
  simp only [removeDirRecursive, List.foldl_cons, List.foldl_nil]
  rw [Action.lookup_apply (by simpa [Action.names] using apart), lookup_moveAside]

end Place

section Commit

variable {checkFile : CheckFile} {entries : List Entry} {name : FileName} {folder image : Folder}
  {disk : Files Folder}

/-- What has been checked is put into the place of the image. -/
theorem commitImage_of_checked (there : disk.lookup (tmpFile name) = some folder)
    (checked : commitEntries checkFile entries none folder = .ok (.ok image)) :
    ∃ after, commitImage checkFile entries name disk = .ok (.ok after) ∧
      InPlace name image disk after := by
  have apart := Metadata.tmpFile_ne_self name
  have oldApart := oldFile_tmpFile_ne_self name
  have oldTmp := oldFile_ne_self (tmpFile name)
  unfold commitImage
  rw [there]
  dsimp only
  rw [checked, Run.ok_bind]
  dsimp only
  cases found : disk.lookup name with
  | none =>
      -- there is nothing in the place, and the directory is renamed
      have missing : name ∉ disk := by
        rw [Map.mem_iff_lookup_ne_none, found]
        simp
      have renamed : switch name false (disk.insert (tmpFile name) image) =
          some (((disk.insert (tmpFile name) image).erase (tmpFile name)).insert name image) := by
        rw [switch, if_neg Bool.false_ne_true]
        exact Files.rename_eq_some_iff.mpr ⟨image, by rw [Map.lookup_insert_eq, if_pos rfl], rfl⟩
      simp only [missing, decide_false, renamed, Bool.false_eq_true, if_false, List.foldl_nil]
      refine ⟨_, rfl, ?_, ?_, fun other outside => ?_⟩
      · rw [Map.lookup_insert_eq, if_pos rfl]
      · rw [Map.lookup_insert_eq, if_neg apart, Map.lookup_erase_eq, if_pos rfl]
      · simp only [committing, List.mem_cons, List.not_mem_nil, or_false, not_or] at outside
        rw [Map.lookup_insert_eq, if_neg outside.1, Map.lookup_erase_eq, if_neg outside.2.1,
          Map.lookup_insert_eq, if_neg outside.2.1]
  | some old =>
      -- the directories change places, and the old one is removed
      have present : name ∈ disk := by
        rw [Map.mem_iff_lookup_ne_none, found]
        simp
      have exchanged : switch name true (disk.insert (tmpFile name) image) =
          some (((disk.insert (tmpFile name) image).insert (tmpFile name) old).insert name
            image) := by
        rw [switch, if_pos rfl, exchange, Map.lookup_insert_eq, if_pos rfl, Map.lookup_insert_eq,
          if_neg apart.symm, found]
        rfl
      simp only [present, decide_true, exchanged, if_true]
      refine ⟨_, rfl, ?_, lookup_removeDirRecursive_self, fun other outside => ?_⟩
      · rw [lookup_removeDirRecursive apart.symm oldApart.symm, Map.lookup_insert_eq, if_pos rfl]
      · simp only [committing, List.mem_cons, List.not_mem_nil, or_false, not_or] at outside
        rw [lookup_removeDirRecursive outside.2.1 outside.2.2, Map.lookup_insert_eq,
          if_neg outside.1, Map.lookup_insert_eq, if_neg outside.2.1, Map.lookup_insert_eq,
          if_neg outside.2.1]

/-- What has to go well for a commit, one step after the other. -/
theorem commitImage_ok {after : Files Folder}
    (committed : commitImage checkFile entries name disk = .ok (.ok after)) :
    ∃ folder image switched, disk.lookup (tmpFile name) = some folder ∧
      commitEntries checkFile entries none folder = .ok (.ok image) ∧
      switch name (decide (name ∈ disk)) (disk.insert (tmpFile name) image) = some switched ∧
      after = (if decide (name ∈ disk) then removeDirRecursive (tmpFile name) else []).foldl
        (Action.apply ∅) switched := by
  unfold commitImage at committed
  split at committed
  · cases committed
  · rename_i folder there
    obtain ⟨result, checked, committed⟩ := Run.bind_eq_ok_iff.mp committed
    cases result with
    | error error => cases committed
    | ok image =>
        dsimp only at committed
        split at committed
        · cases committed
        · rename_i switched isSwitched
          exact ⟨folder, image, switched, there, checked, isSwitched,
            (Except.ok.inj (Except.ok.inj committed)).symm⟩

end Commit

end Disk

end Ciruela
