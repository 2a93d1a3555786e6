import Ciruela.Daemon.Disk.Images

/-!
# Removing a directory

A directory is renamed and then emptied entry by entry, its own directories first. A listing
need not say of what type an entry is. The type is asked for then, and the question goes to the
directory above the one that is being emptied.

Whatever bears a name can be opened, and links are not followed; what is not a directory cannot
be listed. Nobody else changes the tree, and no other call fails.
-/

namespace Ciruela

open Foundation

namespace Disk

namespace Removal

/-- The errors of the system calls that a removal tells apart. -/
inductive Io where
  /-- `ENOTDIR`. -/
  | notADirectory
  /-- `EISDIR`. -/
  | isADirectory
  /-- `ENOTEMPTY`. -/
  | notEmpty
deriving DecidableEq

/-- `Error::Delete`, with the path from the directory at the top. -/
structure Error where
  path : List FileName
  error : Io
deriving DecidableEq

/-- The entries of a directory in the order in which they are handed out, and whether the
listing says of what type they are. A file is anything that is not a directory. -/
inductive Listing where
  | done
  | file (name : FileName) (typed : Bool) (rest : Listing)
  | folder (name : FileName) (typed : Bool) (inside rest : Listing)
deriving DecidableEq

namespace Listing

/-- One listing after another. -/
def append : Listing → Listing → Listing
  | done, later => later
  | file name typed rest, later => file name typed (rest.append later)
  | folder name typed inside rest, later => folder name typed inside (rest.append later)

/-- `Dir::metadata`: whether the name is that of a directory. -/
def isDir (listing : Listing) (name : FileName) : Option Bool :=
  match listing with
  | done => none
  | file other _ rest => if other = name then some false else rest.isDir name
  | folder other _ _ rest => if other = name then some true else rest.isDir name

end Listing

/-- What a name of a directory stands for. -/
inductive Entry where
  | file
  | folder (inside : Listing)
deriving DecidableEq

/-- `Dir::metadata` in the directory at the top. -/
def isDir (dir : Files Entry) (name : FileName) : Option Bool :=
  (dir.lookup name).map fun entry =>
    match entry with
    | .file => false
    | .folder _ => true

/-- Remove the entries of the directory at `me`: the loop of `remove_by_str` and of
`remove_by_entry`. What comes around the loop of the latter stands where it is called. `above`
is the directory that types are asked of, and `left` are the entries that were passed over. -/
def removeEntries (me : List FileName) (above : FileName → Option Bool) (left : Listing) :
    Listing → Except Error Unit × Listing
  | .done => (.ok (), left)
  | .file name typed rest =>
      match if typed then some false else above name with
      | none => removeEntries me above (left.append (.file name typed .done)) rest
      | some true => (.error ⟨me ++ [name], .notADirectory⟩, left.append (.file name typed rest))
      | some false => removeEntries me above left rest
  | .folder name typed inside rest =>
      match if typed then some true else above name with
      | none => removeEntries me above (left.append (.folder name typed inside .done)) rest
      | some false =>
          (.error ⟨me ++ [name], .isADirectory⟩, left.append (.folder name typed inside rest))
      | some true =>
          let here := left.append (.folder name typed inside rest)
          match removeEntries (me ++ [name]) here.isDir .done inside with
          | (.ok (), .done) => removeEntries me above left rest
          | (.ok (), kept) =>
              (.error ⟨me ++ [name], .notEmpty⟩, left.append (.folder name typed kept rest))
          | (.error error, kept) => (.error error, left.append (.folder name typed kept rest))

/-- `remove_by_str`. A file turns out to be one when it is listed. -/
def removeByStr (dir : Files Entry) (name : FileName) : Except Error Unit × Files Entry :=
  match dir.lookup name with
  | none => (.ok (), dir)
  | some .file => (.ok (), dir.erase name)
  | some (.folder inside) =>
      match removeEntries [name] (isDir dir) .done inside with
      | (.ok (), .done) => (.ok (), dir.erase name)
      | (.ok (), kept) => (.error ⟨[name], .notEmpty⟩, dir.insert name (.folder kept))
      | (.error error, kept) => (.error error, dir.insert name (.folder kept))

/-- `remove_dir_recursive`. -/
def removeDirRecursive (dir : Files Entry) (name : FileName) :
    Except Error Unit × Files Entry :=
  match removeByStr dir (oldFile name) with
  | (.error error, dir) => (.error error, dir)
  | (.ok (), dir) =>
      match dir.rename name (oldFile name) with
      | none => (.ok (), dir)
      | some dir => removeByStr dir (oldFile name)

/-- Every entry at every depth has its type reported, or the directory that is asked for it has
an entry of the same name and kind. What was removed before an entry is not asked any more. -/
def Told (above : FileName → Option Bool) : Listing → Prop
  | .done => True
  | .file name typed rest => (typed = true ∨ above name = some false) ∧ Told above rest
  | .folder name typed inside rest =>
      (typed = true ∨ above name = some true) ∧
        Told (Listing.folder name typed inside rest).isDir inside ∧ Told above rest

/-- All types are told in the directory of this name, if it is one. -/
def ToldIn (dir : Files Entry) (name : FileName) : Prop :=
  ∀ inside, dir.lookup name = some (.folder inside) → Told (isDir dir) inside

/-- The directory is gone with its twin, and everything else is as it was. -/
structure Removed (dir : Files Entry) (name : FileName) (after : Files Entry) : Prop where
  gone : after.lookup name = none
  twin : after.lookup (oldFile name) = none
  others : ∀ other, other ≠ name → other ≠ oldFile name → after.lookup other = dir.lookup other

section Entries

variable {me : List FileName} {above : FileName → Option Bool} {listing left : Listing}

theorem Listing.append_eq_done {later : Listing} (empty : listing.append later = .done) :
    listing = .done ∧ later = .done := by
  cases listing with
  | done => exact ⟨rfl, empty⟩
  | file name typed rest => cases empty
  | folder name typed inside rest => cases empty

/-- Where all types are told, nothing is left. -/
theorem removeEntries_of_told (told : Told above listing) :
    removeEntries me above .done listing = (.ok (), .done) := by
  induction listing generalizing me above with
  | done => rfl
  | file name typed rest ih =>
      have isFile : (if typed then some false else above name) = some false := by
        cases typed with
        | true => rfl
        | false => exact told.1.resolve_left Bool.false_ne_true
      rw [removeEntries, isFile]
      exact ih told.2
  | folder name typed inside rest ihInside ihRest =>
      have isFolder : (if typed then some true else above name) = some true := by
        cases typed with
        | true => rfl
        | false => exact told.1.resolve_left Bool.false_ne_true
      have emptied : removeEntries (me ++ [name])
          (Listing.append .done (.folder name typed inside rest)).isDir .done inside =
            (.ok (), .done) := ihInside told.2.1
      rw [removeEntries, isFolder]
      dsimp only
      rw [emptied]
      exact ihRest told.2.2

/-- Where nothing is left, nothing was passed over and all types were told. -/
theorem told_of_removeEntries
    (removed : removeEntries me above left listing = (.ok (), .done)) :
    left = .done ∧ Told above listing := by
  induction listing generalizing me above left with
  | done => exact ⟨(Prod.mk.inj removed).2, trivial⟩
  | file name typed rest ih =>
      rw [removeEntries] at removed
      split at removed
      · cases (Listing.append_eq_done (ih removed).1).2
      · cases (Prod.mk.inj removed).1
      · rename_i isFile
        obtain ⟨nothing, told⟩ := ih removed
        refine ⟨nothing, ?_, told⟩
        cases typed with
        | true => exact Or.inl rfl
        | false => exact Or.inr isFile
  | folder name typed inside rest ihInside ihRest =>
      rw [removeEntries] at removed
      split at removed
      · cases (Listing.append_eq_done (ihRest removed).1).2
      · cases (Prod.mk.inj removed).1
      · rename_i isFolder
        dsimp only at removed
        split at removed
        · rename_i emptied
          obtain ⟨rfl, told⟩ := ihRest removed
          refine ⟨rfl, ?_, (ihInside emptied).2, told⟩
          cases typed with
          | true => exact Or.inl rfl
          | false => exact Or.inr isFolder
        · cases (Prod.mk.inj removed).1
        · cases (Prod.mk.inj removed).1

/-- A directory is emptied when the types of its entries are told. -/
theorem removeEntries_iff :
    removeEntries me above .done listing = (.ok (), .done) ↔ Told above listing :=
  ⟨fun removed => (told_of_removeEntries removed).2, removeEntries_of_told⟩

end Entries

section Directories

variable {dir after : Files Entry} {name : FileName}

/-- Removing by name works exactly where all types are told, and takes away nothing else. -/
theorem removeByStr_iff :
    removeByStr dir name = (.ok (), after) ↔ ToldIn dir name ∧ after = dir.erase name := by
  unfold removeByStr ToldIn
  cases found : dir.lookup name with
  | none =>
      have same : dir.erase name = dir := by
        apply Finmap.ext_lookup
        intro other
        rw [Map.lookup_erase_eq]
        split
        · rename_i isName
          rw [isName, found]
        · rfl
      simp [same, eq_comm]
  | some entry =>
      cases entry with
      | file => simp [eq_comm]
      | folder inside =>
          have exact : removeEntries [name] (isDir dir) .done inside = (.ok (), .done) ↔
              Told (isDir dir) inside := removeEntries_iff
          simp only [Option.some.injEq, Entry.folder.injEq, forall_eq']
          rw [← exact]
          split
          · rename_i emptied
            simp [emptied, eq_comm]
          · rename_i kept notEmptied emptied
            simpa [emptied] using fun empty => absurd empty notEmptied
          · rename_i error kept emptied
            simp [emptied]

/-- The directory where the name was moved to its twin. -/
def aside (dir : Files Entry) (name : FileName) : Files Entry :=
  (dir.rename name (oldFile name)).getD dir

/-- What is found after a directory was moved aside. -/
theorem lookup_aside (dir : Files Entry) (name other : FileName) :
    (aside dir name).lookup other =
      if name ∉ dir then dir.lookup other
      else if other = oldFile name then dir.lookup name
      else if other = name then none
      else dir.lookup other := by
  unfold aside Files.rename
  cases found : dir.lookup name with
  | none =>
      have missing : name ∉ dir := Finmap.lookup_eq_none.mp found
      rw [if_pos missing]
      rfl
  | some entry =>
      have present : name ∈ dir := Finmap.mem_iff.mpr ⟨entry, found⟩
      rw [if_neg (not_not.mpr present)]
      show ((dir.erase name).insert (oldFile name) entry).lookup other = _
      rw [Map.lookup_insert_eq, Map.lookup_erase_eq]

/-- Whether there was an older twin makes no difference to what is moved aside. -/
theorem rename_erase_twin (dir : Files Entry) (name : FileName) :
    Files.rename (dir.erase (oldFile name)) name (oldFile name) =
      if name ∈ dir then some (aside dir name) else none := by
  have differs : name ≠ oldFile name := (oldFile_ne_self name).symm
  unfold Files.rename
  rw [Map.lookup_erase_eq, if_neg differs]
  cases found : dir.lookup name with
  | none =>
      rw [if_neg (Finmap.lookup_eq_none.mp found)]
      rfl
  | some entry =>
      have present : name ∈ dir := Finmap.mem_iff.mpr ⟨entry, found⟩
      rw [if_pos present]
      refine congrArg some (Finmap.ext_lookup fun other => ?_)
      rw [lookup_aside, if_neg (not_not.mpr present), Map.lookup_insert_eq, Map.lookup_erase_eq,
        Map.lookup_erase_eq, found]
      by_cases isTwin : other = oldFile name
      · rw [if_pos isTwin, if_pos isTwin]
      · rw [if_neg isTwin, if_neg isTwin, if_neg isTwin]

/-- A removal succeeds when the types of all entries are told. -/
theorem removeDirRecursive_iff :
    removeDirRecursive dir name = (.ok (), after) ↔
      (ToldIn dir (oldFile name) ∧ ToldIn (aside dir name) (oldFile name)) ∧
        after = (aside dir name).erase (oldFile name) := by
  unfold removeDirRecursive
  cases ran : removeByStr dir (oldFile name) with
  | mk result cleared =>
      cases result with
      | error error =>
          have notTold : ¬ ToldIn dir (oldFile name) := by
            intro told
            rw [removeByStr_iff.mpr ⟨told, rfl⟩] at ran
            cases (Prod.mk.inj ran).1
          simp [notTold]
      | ok =>
          obtain ⟨told, rfl⟩ := removeByStr_iff.mp ran
          dsimp only
          rw [rename_erase_twin]
          by_cases present : name ∈ dir
          · rw [if_pos present]
            dsimp only
            rw [removeByStr_iff, and_iff_right told]
          · have same : aside dir name = dir := by
              apply Finmap.ext_lookup
              intro other
              rw [lookup_aside, if_pos present]
            rw [if_neg present, same]
            simp [told, eq_comm]

/-- What was moved aside and emptied is removed. -/
theorem Removed.of_aside (dir : Files Entry) (name : FileName) :
    Removed dir name ((aside dir name).erase (oldFile name)) where
  gone := by
    rw [Map.lookup_erase_eq, lookup_aside]
    by_cases present : name ∈ dir
    · simp [present, (oldFile_ne_self name).symm]
    · simp [present, Finmap.lookup_eq_none.mpr present]
  twin := by rw [Map.lookup_erase_eq, if_pos rfl]
  others other notName notTwin := by
    rw [Map.lookup_erase_eq, if_neg notTwin, lookup_aside]
    by_cases present : name ∈ dir
    · simp [present, notName, notTwin]
    · simp [present]

/-- When it succeeds, removing a directory is what it is taken for elsewhere. -/
theorem removeDirRecursive_refines (removed : removeDirRecursive dir name = (.ok (), after)) :
    after = (Disk.removeDirRecursive name).foldl
      (fun files action => action.apply .file files) dir := by
  obtain ⟨_, rfl⟩ := removeDirRecursive_iff.mp removed
  show (aside dir name).erase (oldFile name) =
    ((Files.rename (dir.erase (oldFile name)) name (oldFile name)).getD
      (dir.erase (oldFile name))).erase (oldFile name)
  rw [rename_erase_twin]
  by_cases present : name ∈ dir
  · rw [if_pos present]
    rfl
  · rw [if_neg present]
    apply Finmap.ext_lookup
    intro other
    simp only [Option.getD_none, Map.lookup_erase_eq]
    split
    · rfl
    · rename_i notTwin
      rw [lookup_aside, if_pos present]

/-- A directory is removed with its twin, and nothing else is touched, exactly when the types of
all entries of both are told. -/
theorem removed_iff (dir : Files Entry) (name : FileName) :
    (∃ after, removeDirRecursive dir name = (.ok (), after) ∧ Removed dir name after) ↔
      ToldIn dir (oldFile name) ∧ ToldIn (aside dir name) (oldFile name) := by
  constructor
  · rintro ⟨after, removed, _⟩
    exact (removeDirRecursive_iff.mp removed).1
  · intro told
    exact ⟨_, removeDirRecursive_iff.mpr ⟨told, rfl⟩, .of_aside dir name⟩

end Directories

namespace Sample

/-- The image that is removed. -/
def image : FileName := .ofLong "image".toList (by decide) (by decide)

/-- A file of it. -/
def index : FileName := .ofLong "index.html".toList (by decide) (by decide)

/-- The directory of an image with one file, whose type the listing may not report. -/
def dir (typed : Bool) : Files Entry :=
  Finmap.singleton image (.folder (.file index typed .done))

end Sample

/-- Where another file of the name stands beside the image, the type is told by accident. -/
example : (removeDirRecursive ((Sample.dir false).insert Sample.index .file) Sample.image).1 =
    .ok () := by
  decide

/-- A file whose type is not reported is passed over, and then the directory is not empty. -/
theorem removed_fails :
    removeDirRecursive (Sample.dir false) Sample.image =
        (.error ⟨[oldFile Sample.image], .notEmpty⟩,
          Finmap.singleton (oldFile Sample.image) (.folder (.file Sample.index false .done))) ∧
      ¬ ∃ after, removeDirRecursive (Sample.dir false) Sample.image = (.ok (), after) ∧
        Removed (Sample.dir false) Sample.image after := by
  have failed : removeDirRecursive (Sample.dir false) Sample.image =
      (.error ⟨[oldFile Sample.image], .notEmpty⟩,
        Finmap.singleton (oldFile Sample.image) (.folder (.file Sample.index false .done))) := by
    decide
  refine ⟨failed, ?_⟩
  rintro ⟨after, removed, _⟩
  rw [failed] at removed
  cases (Prod.mk.inj removed).1

end Removal

end Disk

end Ciruela
