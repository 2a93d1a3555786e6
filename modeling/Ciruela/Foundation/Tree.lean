import Mathlib.Data.Finmap
import Ciruela.Foundation.Path

/-!
# Directories of files

`Files` is the content of one directory, a finite map by name. `Tree` is a set of
directories below one root, each with its files, closed under taking parents:
a directory cannot exist without the ones above it, so a walk from the root that
lists subdirectories reaches every directory there is.
-/

namespace Ciruela.Foundation

/-- Finite maps with values of one type. -/
abbrev Map (Key Value : Type) := Finmap fun _ : Key => Value

namespace Map

variable {Key Value : Type} [DecidableEq Key]

/-- What is found after an entry is inserted. -/
theorem lookup_insert_eq (map : Map Key Value) (key other : Key) (value : Value) :
    (map.insert key value).lookup other = if other = key then some value else map.lookup other := by
  split
  · rename_i same
    rw [same, Finmap.lookup_insert]
  · rename_i different
    exact Finmap.lookup_insert_of_ne map different

/-- What is found after an entry is erased. -/
theorem lookup_erase_eq (map : Map Key Value) (key other : Key) :
    (map.erase key).lookup other = if other = key then none else map.lookup other := by
  split
  · rename_i same
    rw [same, Finmap.lookup_erase]
  · rename_i different
    exact Finmap.lookup_erase_ne different

theorem mem_iff_lookup_ne_none {map : Map Key Value} {key : Key} :
    key ∈ map ↔ map.lookup key ≠ none := by
  rw [ne_eq, Finmap.lookup_eq_none, not_not]

omit [DecidableEq Key] in
/-- The table with these keys and a value for each. -/
def ofKeys (keys : Finset Key) (value : Key → Value) : Map Key Value :=
  ⟨keys.val.map fun key => ⟨key, value key⟩, by
    rw [← Multiset.nodup_keys, Multiset.keys, Multiset.map_map]
    exact (Multiset.map_id keys.val).symm ▸ keys.nodup⟩

omit [DecidableEq Key] in
theorem mem_ofKeys {keys : Finset Key} {value : Key → Value} {key : Key} :
    key ∈ ofKeys keys value ↔ key ∈ keys := by
  rw [Finmap.mem_def, ofKeys]
  simp [Multiset.keys]

end Map

/-- The files of one directory. -/
abbrev Files (Content : Type) := Map FileName Content

namespace Files

variable {Content : Type}

/-- Rename a file over whatever bears the new name; `none` when there is nothing
to rename. -/
def rename (files : Files Content) (source target : FileName) : Option (Files Content) :=
  (files.lookup source).map fun content => (files.erase source).insert target content

/-- A file is renamed when it is there, over whatever has the new name. -/
theorem rename_eq_some_iff {files after : Files Content} {source target : FileName} :
    files.rename source target = some after ↔
      ∃ content, files.lookup source = some content ∧
        after = (files.erase source).insert target content := by
  simp [rename, eq_comm]

/-- A listing of a directory: every name once, in the order the system hands them
out. -/
def Lists (files : Files Content) (names : List FileName) : Prop :=
  names.Nodup ∧ ∀ name, name ∈ names ↔ name ∈ files

instance (files : Files Content) (names : List FileName) : Decidable (files.Lists names) :=
  decidable_of_iff (names.Nodup ∧ (∀ name ∈ names, name ∈ files) ∧ ∀ name ∈ files.keys, name ∈ names)
    ⟨fun ⟨nodup, sound, complete⟩ =>
      ⟨nodup, fun name => ⟨sound name, fun member => complete name (Finmap.mem_keys.mpr member)⟩⟩,
     fun ⟨nodup, exact⟩ =>
      ⟨nodup, fun name => (exact name).mp, fun name member => (exact name).mpr (Finmap.mem_keys.mp member)⟩⟩

/-- Every directory has a listing. -/
theorem exists_lists (files : Files Content) : ∃ names, files.Lists names := by
  refine ⟨files.keys.toList, Finset.nodup_toList _, fun name => ?_⟩
  rw [Finset.mem_toList, Finmap.mem_keys]

end Files

/-- Directories with their files. -/
structure Tree (Content : Type) where
  dirs : Map (List FileName) (Files Content)
  closed : ∀ path name, path ++ [name] ∈ dirs → path ∈ dirs

namespace Tree

variable {Content : Type}

/-- Trees with the same directories are the same. -/
@[ext] theorem ext {left right : Tree Content} (dirs : left.dirs = right.dirs) : left = right := by
  cases left
  cases right
  cases dirs
  rfl

instance [DecidableEq Content] : DecidableEq (Tree Content) := fun left right =>
  decidable_of_iff (left.dirs = right.dirs) ⟨ext, fun equal => congrArg dirs equal⟩

/-- A tree without directories. -/
def empty : Tree Content := ⟨∅, fun _ _ member => absurd member Finmap.notMem_empty⟩

/-- The files of a directory; a missing directory has none. -/
def files (tree : Tree Content) (path : List FileName) : Files Content :=
  (tree.dirs.lookup path).getD ∅

/-- A directory that is there without files, unless it is there already. -/
private def touch (dirs : Map (List FileName) (Files Content)) (path : List FileName) :
    Map (List FileName) (Files Content) :=
  if path ∈ dirs then dirs else dirs.insert path ∅

private theorem mem_touch (dirs : Map (List FileName) (Files Content)) (path other : List FileName) :
    other ∈ touch dirs path ↔ other ∈ dirs ∨ other = path := by
  unfold touch
  split
  · constructor
    · exact Or.inl
    · rintro (member | rfl) <;> assumption
  · rw [Finmap.mem_insert, or_comm]

private theorem files_touch (dirs : Map (List FileName) (Files Content)) (path other : List FileName) :
    ((touch dirs path).lookup other).getD ∅ = (dirs.lookup other).getD ∅ := by
  unfold touch
  split
  · rfl
  · rename_i missing
    rw [Map.lookup_insert_eq]
    split
    · rename_i same
      rw [same, Finmap.lookup_eq_none.mpr missing]
      rfl
    · rfl

private theorem mem_foldl_touch (paths : List (List FileName))
    (dirs : Map (List FileName) (Files Content)) (other : List FileName) :
    other ∈ paths.foldl touch dirs ↔ other ∈ dirs ∨ other ∈ paths := by
  induction paths generalizing dirs with
  | nil => simp
  | cons path rest ih => rw [List.foldl_cons, ih, mem_touch, List.mem_cons, or_assoc]

private theorem files_foldl_touch (paths : List (List FileName))
    (dirs : Map (List FileName) (Files Content)) (other : List FileName) :
    ((paths.foldl touch dirs).lookup other).getD ∅ = (dirs.lookup other).getD ∅ := by
  induction paths generalizing dirs with
  | nil => rfl
  | cons path rest ih => rw [List.foldl_cons, ih, files_touch]

/-- Create a directory and the ones above it where they are missing. -/
def ensureDir (tree : Tree Content) (path : List FileName) : Tree Content where
  dirs := path.inits.foldl touch tree.dirs
  closed := by
    intro upper name member
    rw [mem_foldl_touch] at member ⊢
    rcases member with existing | created
    · exact Or.inl (tree.closed upper name existing)
    · rw [List.mem_inits] at created ⊢
      exact Or.inr ((List.prefix_append upper [name]).trans created)

/-- A directory is made with all that it is in. -/
theorem mem_ensureDir (tree : Tree Content) (path other : List FileName) :
    other ∈ (tree.ensureDir path).dirs ↔ other ∈ tree.dirs ∨ other <+: path := by
  rw [ensureDir, mem_foldl_touch, List.mem_inits]

/-- Creating directories leaves the files of every directory alone. -/
@[simp] theorem files_ensureDir (tree : Tree Content) (path other : List FileName) :
    (tree.ensureDir path).files other = tree.files other :=
  files_foldl_touch _ _ _

/-- Put `content` as the files of a directory, creating it if needed. -/
def setFiles (tree : Tree Content) (path : List FileName) (content : Files Content) : Tree Content where
  dirs := (tree.ensureDir path).dirs.insert path content
  closed := by
    intro upper name member
    have present : path ∈ (tree.ensureDir path).dirs :=
      (mem_ensureDir tree path path).mpr (Or.inr (List.prefix_refl path))
    rw [Finmap.mem_insert] at member ⊢
    refine Or.inr ((tree.ensureDir path).closed upper name ?_)
    rcases member with rfl | existing
    · exact present
    · exact existing

/-- Putting files into a directory makes the directory. -/
theorem mem_setFiles (tree : Tree Content) (path other : List FileName) (content : Files Content) :
    other ∈ (tree.setFiles path content).dirs ↔ other ∈ tree.dirs ∨ other <+: path := by
  rw [setFiles, Finmap.mem_insert, mem_ensureDir]
  constructor
  · rintro (rfl | present)
    · exact Or.inr (List.prefix_refl _)
    · exact present
  · exact Or.inr

/-- Only the directory that the files are put into has other files. -/
theorem files_setFiles (tree : Tree Content) (path other : List FileName) (content : Files Content) :
    (tree.setFiles path content).files other = if other = path then content else tree.files other := by
  unfold files setFiles
  rw [Map.lookup_insert_eq]
  split
  · rfl
  · exact files_foldl_touch _ _ _

@[simp] theorem files_setFiles_self (tree : Tree Content) (path : List FileName)
    (content : Files Content) : (tree.setFiles path content).files path = content := by
  simp [files_setFiles]

/-- Every directory above an existing one exists. -/
theorem mem_of_above (tree : Tree Content) {upper path : List FileName} (isPrefix : upper <+: path)
    (present : path ∈ tree.dirs) : upper ∈ tree.dirs := by
  obtain ⟨rest, rfl⟩ := isPrefix
  induction rest using List.reverseRecOn with
  | nil => simpa using present
  | append_singleton rest name ih =>
      rw [← List.append_assoc] at present
      exact ih (tree.closed _ _ present)

/-- The names of the directories right below `path`. -/
def subdirs (tree : Tree Content) (path : List FileName) : Finset FileName :=
  (tree.dirs.keys.filter fun dir => dir.dropLast = path ∧ dir ≠ []).biUnion fun dir =>
    dir.getLast?.toFinset

/-- The directories right below another. -/
theorem mem_subdirs {tree : Tree Content} {path : List FileName} {name : FileName} :
    name ∈ tree.subdirs path ↔ path ++ [name] ∈ tree.dirs := by
  unfold subdirs
  rw [Finset.mem_biUnion]
  constructor
  · rintro ⟨dir, member, last⟩
    obtain ⟨present, below, nonempty⟩ := Finset.mem_filter.mp member
    rw [Option.mem_toFinset, Option.mem_def] at last
    have whole : path ++ [name] = dir := by
      rw [← below, List.dropLast_append_getLast? name last]
    rw [whole]
    exact Finmap.mem_keys.mp present
  · intro present
    exact ⟨path ++ [name], by simp [Finmap.mem_keys.mpr present], by simp⟩

end Tree

end Ciruela.Foundation

namespace Ciruela

-- Mathlib has a type of binary trees by this name.
export Foundation (Tree)

end Ciruela
