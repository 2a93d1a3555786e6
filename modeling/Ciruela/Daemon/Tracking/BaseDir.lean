import Mathlib.Data.Char
import Mathlib.Data.Finset.Sort
import Ciruela.Daemon.Cleanup.SortOut
import Ciruela.Daemon.Disk
import Ciruela.Daemon.Metadata.AllStates

/-!
# The state of a base directory

`scan` puts together what the metadata knows about a directory and its keep list.
The digests of the source are left as the values they are digests of.
-/

namespace Ciruela

open Foundation

namespace Metadata

/-- `Meta::scan_dir` of a path that is made of names, where the system lists the
files of its directory as `names`. A directory that is not there holds nothing. -/
def Meta.scanDir (io : Io) (vpath : VPath) (names : List FileName) (store : Meta) :
    Run (Except Error Found × Meta) :=
  if io.fails .signatures then return (.error .createDir, store)
  else if io.fails .openDir then return (.error .openDir, store)
  else if vpath.names ∈ store.signatures.dirs then allStates io vpath vpath.names names store
  else return (.ok ∅, store)

/-- The name a state file is collected under. -/
def imageName (file : FileName) : List Char :=
  if endsWith (stem file) newEnding then dropEnd (stem file) newEnding.length else stem file

/-- A scan collects the state in this file. -/
def collects (io : Io) (vpath : VPath) (dir : List FileName) (store : Meta) (file : FileName) :
    Bool :=
  match stale vpath store file, look io (store.signatures.files dir) file with
  | .ok false, .stored _ => true
  | _, _ => false

/-- The images of a directory that have a state file to be collected. -/
def heldImages (io : Io) (vpath : VPath) (dir names : List FileName) (store : Meta) :
    Finset (List Char) :=
  (((listFiles names stateEnding).filter (collects io vpath dir store)).map imageName).toFinset

/-- A file that `list_files` hands out to a scan. -/
def Listed (file : FileName) : Prop :=
  startsWith file.text ".".toList = false ∧ endsWith file.text stateEnding = true

/-- What is listed of a directory is a listed file. -/
theorem listed_of_listFiles {names : List FileName} {file : FileName}
    (member : file ∈ listFiles names stateEnding) : Listed file := by
  have kept := (List.mem_filter.mp member).2
  rw [Bool.and_eq_true, Bool.not_eq_true'] at kept
  exact kept

section Held

variable {io : Io} {vpath : VPath} {dir : List FileName} {store : Meta} {file : FileName}

/-- The names that are found after one state more. -/
theorem keys_collect (found : Found) (file : FileName) (state : State) :
    (collect found file state).keys = insert (imageName file) found.keys := by
  have keysInsert (name : List Char) :
      (found.insert name state).keys = insert name found.keys := by
    ext other
    simp [Finmap.mem_keys]
  have unfolded : collect found file state =
      if endsWith (stem file) newEnding then
        found.insert (dropEnd (stem file) newEnding.length) state
      else if stem file ∈ found then found else found.insert (stem file) state := rfl
  rw [unfolded, imageName]
  split
  · exact keysInsert _
  · split
    · rename_i known
      exact (Finset.insert_eq_of_mem (Finmap.mem_keys.mpr known)).symm
    · exact keysInsert _

/-- The names images are collected under are file names. -/
theorem exists_fileName (listed : Listed file) : ∃ name : FileName, name.text = imageName file := by
  have whole : stem file ++ stateEnding = file.text := dropEnd_append_of_endsWith listed.2
  unfold imageName
  split
  · rename_i ends
    have inner : file.text =
        dropEnd (stem file) newEnding.length ++ (newEnding ++ stateEnding) := by
      rw [← List.append_assoc, dropEnd_append_of_endsWith ends, whole]
    exact exists_name_of_visible inner listed.1 rfl
  · exact exists_name_of_visible whole.symm listed.1 rfl

/-- Whether a listed file is stale can always be told. -/
theorem returns_stale (listed : Listed file) (vpath : VPath) (store : Meta) :
    (stale vpath store file).Returns := by
  by_cases ends : endsWith file.text newStateEnding = true
  · obtain ⟨name, text⟩ :=
      exists_name_of_visible (dropEnd_append_of_endsWith ends).symm listed.1 rfl
    have same : file = newStateFile name := by
      ext1
      rw [← dropEnd_append_of_endsWith ends, ← text]
      rfl
    rw [same, stale_newStateFile]
    exact Run.returns_ok _
  · rw [stale, if_neg ends]
    exact Run.returns_pure _

/-- Looking at a file depends on this file only. -/
theorem look_congr {files files' : Files Content} (same : files'.lookup file = files.lookup file) :
    look io files' file = look io files file := by
  simp only [look, readFile, same]

theorem look_of_missing {files : Files Content} (missing : files.lookup file = none) :
    look io files file = .nothing := by
  simp only [look, readFile, missing]
  cases io.fails (.openFile file) <;> rfl

/-- Staleness depends on the uploads only. -/
theorem stale_congr {store' : Meta} (same : store'.writing = store.writing) :
    stale vpath store' file = stale vpath store file := by
  simp only [stale, same]

/-- A change of the files that takes away at most what is not collected. -/
theorem collects_setFiles {files : Files Content} {other : FileName}
    (same : other ≠ file → files.lookup other = (store.signatures.files dir).lookup other)
    (self : files.lookup file = (store.signatures.files dir).lookup file ∨
      files.lookup file = none)
    (refused : collects io vpath dir store file = false) :
    collects io vpath dir (store.setFiles dir files) other = collects io vpath dir store other := by
  have checked : stale vpath (store.setFiles dir files) other = stale vpath store other :=
    stale_congr rfl
  have put : (store.setFiles dir files).signatures.files dir = files :=
    Tree.files_setFiles_self _ _ _
  by_cases equal : other = file
  · subst equal
    rcases self with kept | gone
    · simp only [collects, checked, put, look_congr kept]
    · rw [refused]
      simp only [collects, checked, put, look_of_missing gone]
      split <;> simp_all
  · simp only [collects, checked, put, look_congr (same equal)]

/-- One visit: the file is collected or not, and this has no influence on the
other files. -/
theorem visit_collects (listed : Listed file) (found : Found) :
    ∃ found' store', visit io vpath dir (found, store) file = .ok (found', store') ∧
      found'.keys = (if collects io vpath dir store file then insert (imageName file) found.keys
        else found.keys) ∧
      ∀ other, Listed other →
        collects io vpath dir store' other = collects io vpath dir store other := by
  obtain ⟨isStale, checked⟩ := returns_stale listed vpath store
  cases isStale with
  | true =>
      have refused : collects io vpath dir store file = false := by simp [collects, checked]
      refine ⟨found, store.setFiles dir (removeFile io (store.signatures.files dir) file).2,
        by simp [visit, checked]; rfl, by simp [refused], fun other _ => ?_⟩
      refine collects_setFiles (fun different => lookup_removeFile different) ?_ refused
      obtain removed | ⟨_, failed⟩ := removeFile_cases io (store.signatures.files dir) file
      · exact Or.inr (by rw [removed, Finmap.lookup_erase])
      · exact Or.inl (by rw [failed])
  | false =>
      cases seen : look io (store.signatures.files dir) file with
      | stored state =>
          have taken : collects io vpath dir store file = true := by simp [collects, checked, seen]
          exact ⟨collect found file state, store, by simp [visit, checked, seen]; rfl,
            by simp [taken, keys_collect], fun _ _ => rfl⟩
      | nothing =>
          have refused : collects io vpath dir store file = false := by
            simp [collects, checked, seen]
          exact ⟨found, store, by simp [visit, checked, seen]; rfl, by simp [refused],
            fun _ _ => rfl⟩
      | broken =>
          have refused : collects io vpath dir store file = false := by
            simp [collects, checked, seen]
          refine ⟨found, store.setFiles dir
            (renameBrokenFile io (store.signatures.files dir) file),
            by simp [visit, checked, seen]; rfl, by simp [refused], fun other otherListed => ?_⟩
          refine collects_setFiles
            (fun different => lookup_renameBrokenFile different (ne_backupFile otherListed.2 _))
            ?_ refused
          exact (lookup_renameBrokenFile_cases io _ (ne_backupFile listed.2 _)).imp_left And.left

/-- A scan collects exactly the images that are held. -/
theorem foldlM_visit_collects (io : Io) (vpath : VPath) (dir : List FileName) (store : Meta)
    {files : List FileName} (listed : ∀ file ∈ files, Listed file) (found : Found) :
    ∃ found' store', files.foldlM (visit io vpath dir) (found, store) = .ok (found', store') ∧
      found'.keys =
        found.keys ∪ ((files.filter (collects io vpath dir store)).map imageName).toFinset := by
  induction files generalizing found store with
  | nil => exact ⟨found, store, rfl, by simp⟩
  | cons file rest ih =>
      obtain ⟨next, after, visited, keys, same⟩ := visit_collects (listed file List.mem_cons_self)
        found
      obtain ⟨found', store', folded, final⟩ :=
        ih after (fun other member => listed other (List.mem_cons_of_mem _ member)) next
      refine ⟨found', store', by rw [List.foldlM_cons, visited, Run.ok_bind, folded], ?_⟩
      have others : rest.filter (collects io vpath dir after) =
          rest.filter (collects io vpath dir store) := by
        refine List.filter_congr fun other member => ?_
        exact same other (listed other (List.mem_cons_of_mem _ member))
      rw [final, others, keys, List.filter_cons]
      split
      · simp
      · rfl

/-- A listing of a directory never fails in an assertion, and finds what is held. -/
theorem allStates_eq (io : Io) (vpath : VPath) (dir names : List FileName) (store : Meta) :
    (io.fails .listDir = true ∧ allStates io vpath dir names store = .ok (.error .listDir, store)) ∨
      io.fails .listDir = false ∧
        ∃ found after, allStates io vpath dir names store = .ok (.ok found, after) ∧
          found.keys = heldImages io vpath dir names store := by
  unfold allStates
  cases fails : io.fails .listDir with
  | true => exact Or.inl ⟨rfl, rfl⟩
  | false =>
      obtain ⟨found, after, folded, keys⟩ :=
        foldlM_visit_collects io vpath dir store
          (fun file (member : file ∈ listFiles names stateEnding) => listed_of_listFiles member) ∅
      refine Or.inr ⟨rfl, found, after, ?_, ?_⟩
      · simp only [Bool.false_eq_true, if_false, folded, Run.ok_bind]
        rfl
      · rw [keys]
        simp [heldImages]

/-- The directory cannot be scanned. -/
def Meta.ScanFails (io : Io) (vpath : VPath) (store : Meta) : Prop :=
  io.fails .signatures = true ∨ io.fails .openDir = true ∨
    vpath.names ∈ store.signatures.dirs ∧ io.fails .listDir = true

/-- The images right below a path. -/
def Meta.imagesAt (io : Io) (vpath : VPath) (names : List FileName) (store : Meta) :
    Finset (List Char) :=
  if vpath.names ∈ store.signatures.dirs then heldImages io vpath vpath.names names store else ∅

/-- A request for a directory fails or finds the images that are there. -/
theorem scanDir_eq (io : Io) (vpath : VPath) (names : List FileName) (store : Meta) :
    (store.ScanFails io vpath ∧
        ∃ error, store.scanDir io vpath names = .ok (.error error, store)) ∨
      ¬ store.ScanFails io vpath ∧
        ∃ found after, store.scanDir io vpath names = .ok (.ok found, after) ∧
          found.keys = store.imagesAt io vpath names := by
  unfold Meta.ScanFails Meta.scanDir Meta.imagesAt
  cases signatures : io.fails .signatures with
  | true => exact Or.inl ⟨Or.inl rfl, _, rfl⟩
  | false =>
      cases opening : io.fails .openDir with
      | true => exact Or.inl ⟨Or.inr (Or.inl rfl), _, rfl⟩
      | false =>
          by_cases present : vpath.names ∈ store.signatures.dirs
          · obtain ⟨fails, scanned⟩ | ⟨works, found, after, scanned, keys⟩ :=
              allStates_eq io vpath vpath.names names store
            · refine Or.inl ⟨Or.inr (Or.inr ⟨present, fails⟩), .listDir, ?_⟩
              simp [present, scanned]
            · refine Or.inr ⟨by simp [works], found, after, ?_, ?_⟩
              · simp [present, scanned]
              · rw [keys, if_pos present]
          · exact Or.inr ⟨by simp [present], ∅, store, by simp [present]; rfl, by simp [present]⟩

/-- A directory without files holds no images. -/
theorem scanDir_nil (vpath : VPath) (store : Meta) :
    store.scanDir Io.working vpath [] = .ok (.ok ∅, store) := by
  unfold Meta.scanDir allStates
  simp only [Io.working_fails, Bool.false_eq_true, if_false]
  split <;> rfl

/-- The images right below a path have file names. -/
theorem exists_fileName_of_imagesAt {names : List FileName} {name : List Char}
    (member : name ∈ store.imagesAt io vpath names) : ∃ file : FileName, file.text = name := by
  unfold Meta.imagesAt at member
  split at member
  · rw [heldImages, List.mem_toFinset] at member
    obtain ⟨file, kept, rfl⟩ := List.mem_map.mp member
    exact exists_fileName (listed_of_listFiles (List.mem_of_mem_filter kept))
  · simp at member

end Held

end Metadata

namespace BaseDir

open Metadata (Found)

/-- The entries of a map in the order of their names. -/
def entries (found : Found) : List (List Char × State) :=
  (found.keys.sort (· ≤ ·)).filterMap fun name => (found.lookup name).map fun state => (name, state)

/-- The states by the last name of their paths. -/
def shortList (items : List (Path × State)) : Run Found :=
  items.foldlM
    (fun short item => do
      let name ← Run.expect item.1.fileName "dir name is left intact"
      return short.insert name.text item.2)
    ∅

/-- The names right below a path that a keep list has. -/
def keepListNames (vpath : VPath) : List Path → Run (Finset (List Char))
  | [] => return ∅
  | path :: rest =>
      match path.stripPrefix vpath.suffix with
      | none => keepListNames vpath rest
      | some name => do
          Run.assert (!name.text.contains '/') "name.find('/').is_none()"
          let later ← keepListNames vpath rest
          return insert name.text later

/-- `BaseDirState`: a base directory as its hash is made of it. -/
structure BaseDirState where
  path : VPath
  config : Directory
  keepList : Finset (List Char)
  dirs : Found

/-- Why a base directory cannot be read. -/
inductive Error where
  | metadata (error : Metadata.Error)
  | disk (error : Disk.Error)

/-- Two paths are the same when their components are. -/
def samePath (first second : Path) : Bool := first.components == second.components

/-- What a scan makes of the states and the keep list it has read. -/
def assemble (now : Nat) (directory : Directory) (vpath : VPath) (dirs : Found)
    (keepList : List Path) : Run BaseDirState := do
  let images := (entries dirs).map fun entry => (vpath.suffix.join (Path.ofText entry.1), entry.2)
  let dirs ←
    if directory.autoClean then do
      let sorted ← Cleanup.sortOut samePath now directory images keepList
      shortList sorted.used
    else shortList images
  let keepList ← keepListNames vpath keepList
  return ⟨vpath, directory, keepList, dirs⟩

/-- `base_dir::scan`, where `file` is what opening the keep list gives and `now` is
the time in nanoseconds. -/
def scan (io : Metadata.Io) (now : Nat) (names : List FileName) (file : Disk.KeepListFile)
    (directory : Directory) (vpath : VPath) (store : Metadata.Meta) :
    Run (Except Error BaseDirState × Metadata.Meta) := do
  let (scanned, store) ← store.scanDir io vpath names
  match scanned, Disk.readKeepList directory file with
  | .error error, _ => return (.error (.metadata error), store)
  | .ok _, .error error => return (.error (.disk error), store)
  | .ok dirs, .ok keepList => do
      let state ← assemble now directory vpath dirs keepList
      return (.ok state, store)

section Paths

/-- What is put together is about the path, and its states are listed by their last names. -/
theorem assemble_spec {now : Nat} {config : Directory} {path : VPath} {dirs : Found}
    {keepList : List Path} {data : BaseDirState}
    (assembled : assemble now config path dirs keepList = .ok data) :
    data.path = path ∧ ∃ items, shortList items = .ok data.dirs := by
  unfold assemble at assembled
  dsimp only at assembled
  split at assembled
  · obtain ⟨sorted, _, assembled⟩ := Run.bind_eq_ok_iff.mp assembled
    obtain ⟨short, listed, assembled⟩ := Run.bind_eq_ok_iff.mp assembled
    obtain ⟨kept, _, assembled⟩ := Run.bind_eq_ok_iff.mp assembled
    obtain rfl := Except.ok.inj assembled
    exact ⟨rfl, _, listed⟩
  · obtain ⟨short, listed, assembled⟩ := Run.bind_eq_ok_iff.mp assembled
    obtain ⟨kept, _, assembled⟩ := Run.bind_eq_ok_iff.mp assembled
    obtain rfl := Except.ok.inj assembled
    exact ⟨rfl, _, listed⟩

/-- A scan assembles what it has found. -/
theorem assemble_of_scan {io : Metadata.Io} {now : Nat} {names : List FileName}
    {file : Disk.KeepListFile} {config : Directory} {path : VPath} {store after : Metadata.Meta}
    {data : BaseDirState}
    (scanned : scan io now names file config path store = .ok (.ok data, after)) :
    ∃ dirs keepList, assemble now config path dirs keepList = .ok data := by
  unfold scan at scanned
  obtain ⟨⟨result, next⟩, _, scanned⟩ := Run.bind_eq_ok_iff.mp scanned
  dsimp only at scanned
  split at scanned
  · cases scanned
  · cases scanned
  · obtain ⟨state, assembled, scanned⟩ := Run.bind_eq_ok_iff.mp scanned
    obtain ⟨isData, -⟩ := Prod.mk.inj (Except.ok.inj scanned)
    obtain rfl := Except.ok.inj isData
    exact ⟨_, _, assembled⟩

/-- A scan is about the path that it was made for. -/
theorem path_of_scan {io : Metadata.Io} {now : Nat} {names : List FileName} {file : Disk.KeepListFile}
    {config : Directory} {path : VPath} {store after : Metadata.Meta} {data : BaseDirState}
    (scanned : scan io now names file config path store = .ok (.ok data, after)) :
    data.path = path := by
  obtain ⟨dirs, keepList, assembled⟩ := assemble_of_scan scanned
  exact (assemble_spec assembled).1

end Paths

section Returning

/-- There are as many entries as images. -/
theorem length_entries (found : Found) : (entries found).length = found.keys.card := by
  rw [entries, ← Finset.length_sort (· ≤ ·), List.filterMap_length_eq_length]
  intro name member
  rw [Finset.mem_sort, Finmap.mem_keys] at member
  obtain ⟨state, found⟩ := Finmap.mem_iff.mp member
  simp [found]

/-- The entries for names that are listed in their order. -/
theorem entries_eq {found : Found} {names : List (List Char)} (keys : found.keys = names.toFinset)
    (nodup : names.Nodup) (sorted : names.Pairwise (· ≤ ·)) :
    entries found =
      names.filterMap fun name => (found.lookup name).map fun state => (name, state) := by
  rw [entries, keys, (List.toFinset_sort (· ≤ ·) nodup).mpr sorted]

@[simp] theorem entries_empty : entries ∅ = [] := entries_eq rfl List.nodup_nil .nil

/-- The entries are named by what was found. -/
theorem mem_keys_of_entries {found : Found} {entry : List Char × State}
    (member : entry ∈ entries found) : entry.1 ∈ found.keys := by
  obtain ⟨name, sorted, kept⟩ := List.mem_filterMap.mp member
  obtain ⟨state, _, rfl⟩ := Option.map_eq_some_iff.mp kept
  exact (Finset.mem_sort _).mp sorted

/-- Joining a name makes it the last one. -/
theorem fileName_join (path : Path) (name : FileName) :
    (path.join (Path.ofText name.text)).fileName = some name := by
  rw [Path.fileName_eq_some_iff, Path.components_join_fileName, List.getLast?_concat]

/-- A short list can be made of items with names. -/
theorem returns_shortList {items : List (Path × State)}
    (named : ∀ item ∈ items, ∃ name, item.1.fileName = some name) : (shortList items).Returns := by
  refine (Run.returns_foldlM_iff fun short item => ?_).mpr named
  simp only [Run.returns_bind, Run.expect_eq_ok_iff, Run.returns_pure, and_true]

/-- The names of a keep list can be made when no kept path goes deeper than the directory. -/
theorem returns_keepListNames {vpath : VPath} {paths : List Path} :
    (keepListNames vpath paths).Returns ↔
      ∀ path ∈ paths, ∀ name, path.stripPrefix vpath.suffix = some name → '/' ∉ name.text := by
  induction paths with
  | nil => simp [keepListNames]
  | cons path rest ih =>
      rw [keepListNames, List.forall_mem_cons, ← ih]
      cases stripped : path.stripPrefix vpath.suffix with
      | none => simp
      | some name =>
          simp only [Run.returns_bind, Run.assert_eq_ok_iff, Run.returns_pure, and_true]
          simp [Run.Returns]

/-- Below a path that has fewer levels left the names of a keep list are plain. -/
theorem slash_mem_stripPrefix {path base name : Path} (relative : path.isAbsolute = false)
    (stripped : path.stripPrefix base = some name) :
    '/' ∈ name.text ↔ base.components.length + 2 ≤ path.components.length := by
  unfold Path.stripPrefix at stripped
  split at stripped
  · obtain rfl := Option.some.inj stripped
    rw [Path.slash_mem_text_afterComponents relative, Path.components_afterComponents,
      List.length_drop]
    omega
  · simp at stripped

/-- When what a scan has read can be put together: the clock less the time to keep
images must be a time, and the keep list must have no names further below. -/
theorem returns_assemble (now : Nat) {directory : Directory} (vpath : VPath) {dirs : Found}
    {keepList : List Path}
    (named : ∀ name ∈ dirs.keys, ∃ file : FileName, file.text = name)
    (relative : ∀ path ∈ keepList,
      path.isAbsolute = false ∧ path.components.length = directory.numLevels) :
    (assemble now directory vpath dirs keepList).Returns ↔
      (directory.autoClean = true → dirs.keys.card ≤ directory.keepMinDirectories ∨
        directory.keepRecent.seconds < 2 ^ 63) ∧
      (vpath.level + 2 ≤ directory.numLevels →
        ∀ path ∈ keepList, ¬ vpath.suffix.components <+: path.components) := by
  have suffixLength : vpath.suffix.components.length = vpath.level := by
    rw [VPath.suffix_components, List.length_drop, VPath.level]
  have images : ∀ item ∈ (entries dirs).map fun entry =>
      (vpath.suffix.join (Path.ofText entry.1), entry.2),
      ∃ name, item.1.fileName = some name := by
    intro item member
    obtain ⟨entry, listed, rfl⟩ := List.mem_map.mp member
    obtain ⟨file, text⟩ := named entry.1 (mem_keys_of_entries listed)
    exact ⟨file, text ▸ fileName_join _ file⟩
  have listNames : (keepListNames vpath keepList).Returns ↔
      (vpath.level + 2 ≤ directory.numLevels →
        ∀ path ∈ keepList, ¬ vpath.suffix.components <+: path.components) := by
    rw [returns_keepListNames]
    constructor
    · intro plain deep path member below
      have stripped : path.stripPrefix vpath.suffix =
          some (path.afterComponents vpath.suffix.components.length) :=
        if_pos (List.isPrefixOf_iff_prefix.mpr below)
      obtain ⟨isRelative, depth⟩ := relative path member
      refine plain path member _ stripped ?_
      rw [slash_mem_stripPrefix isRelative stripped, depth, suffixLength]
      exact deep
    · intro shallow path member name stripped slash
      obtain ⟨isRelative, depth⟩ := relative path member
      rw [slash_mem_stripPrefix isRelative stripped, depth, suffixLength] at slash
      refine shallow slash path member ?_
      unfold Path.stripPrefix at stripped
      split at stripped
      · rename_i below
        exact List.isPrefixOf_iff_prefix.mp below
      · simp at stripped
  unfold assemble
  cases clean : directory.autoClean with
  | false =>
      obtain ⟨short, listed⟩ := returns_shortList images
      simp only [Bool.false_eq_true, if_false, listed, Run.ok_bind, Run.returns_bind,
        Run.returns_pure, and_true, false_imp_iff, true_and]
      exact listNames
  | true =>
      have sorting := Cleanup.returns_sortOut samePath now directory
        ((entries dirs).map fun entry => (vpath.suffix.join (Path.ofText entry.1), entry.2)) keepList
      rw [List.length_map, length_entries] at sorting
      rw [← sorting, ← listNames]
      simp only [if_true, true_imp_iff, Run.returns_bind, Run.returns_pure, and_true]
      constructor
      · rintro ⟨sorted, sorts, short, shortens, names⟩
        exact ⟨⟨sorted, sorts⟩, names⟩
      · rintro ⟨⟨sorted, sorts⟩, names⟩
        have kept : ∀ item ∈ sorted.used, ∃ name, item.1.fileName = some name := by
          intro item member
          refine images item ((Cleanup.sortOut_perm sorts).mem_iff.mp ?_)
          exact List.mem_append_left _ member
        obtain ⟨short, shortens⟩ := returns_shortList kept
        exact ⟨sorted, sorts, short, shortens, names⟩

/-- When a scan of a directory ends with a state or an error. -/
theorem returns_scan {io : Metadata.Io} {now : Nat} {names : List FileName}
    {file : Disk.KeepListFile} {directory : Directory} {vpath : VPath} {store : Metadata.Meta} :
    (scan io now names file directory vpath store).Returns ↔
      ∀ keepList, Disk.readKeepList directory file = .ok keepList →
        ¬ store.ScanFails io vpath →
          (directory.autoClean = true →
            (store.imagesAt io vpath names).card ≤ directory.keepMinDirectories ∨
              directory.keepRecent.seconds < 2 ^ 63) ∧
          (vpath.level + 2 ≤ directory.numLevels →
            ∀ path ∈ keepList, ¬ vpath.suffix.components <+: path.components) := by
  unfold scan
  obtain ⟨fails, error, scanned⟩ | ⟨works, found, after, scanned, keys⟩ :=
    Metadata.scanDir_eq io vpath names store
  · simp [scanned, fails]
  · rw [scanned, Run.ok_bind]
    cases read : Disk.readKeepList directory file with
    | error error => simp
    | ok keepList =>
        have named : ∀ name ∈ found.keys, ∃ file : FileName, file.text = name := by
          intro name member
          exact Metadata.exists_fileName_of_imagesAt (keys ▸ member)
        have assembled := returns_assemble now vpath named
          fun path member => Disk.of_mem_readKeepList read member
        rw [keys] at assembled
        simp only [Run.returns_bind, Run.returns_pure, and_true, Except.ok.injEq, forall_eq', works,
          not_false_iff, true_imp_iff]
        exact assembled

/-- The names in a short list are file names. -/
theorem exists_fileName_of_shortList {items : List (Path × State)} {dirs : Found}
    (listed : shortList items = .ok dirs) {name : List Char} (member : name ∈ dirs.keys) :
    ∃ file : FileName, file.text = name := by
  refine Run.inv_of_foldlM
    (fun short : Found => ∀ name ∈ short.keys, ∃ file : FileName, file.text = name) listed
    (fun name known => by simp at known) ?_ name member
  intro item _ short next inserted named other known
  obtain ⟨file, _, inserted⟩ := Run.bind_eq_ok_iff.mp inserted
  obtain rfl := Except.ok.inj inserted
  rcases Finmap.mem_insert.mp (Finmap.mem_keys.mp known) with rfl | earlier
  · exact ⟨file, rfl⟩
  · exact named other (Finmap.mem_keys.mpr earlier)

/-- What a scan has found is under file names. -/
theorem exists_fileName_of_scan {io : Metadata.Io} {now : Nat} {names : List FileName}
    {file : Disk.KeepListFile} {directory : Directory} {vpath : VPath}
    {store after : Metadata.Meta} {data : BaseDirState}
    (scanned : scan io now names file directory vpath store = .ok (.ok data, after))
    {entry : List Char × State} (member : entry ∈ entries data.dirs) :
    ∃ file : FileName, file.text = entry.1 := by
  obtain ⟨dirs, keepList, assembled⟩ := assemble_of_scan scanned
  obtain ⟨_, items, listed⟩ := assemble_spec assembled
  exact exists_fileName_of_shortList listed (mem_keys_of_entries member)

/-- The states below a path are listed under their own names. -/
theorem shortList_join (base : Path) (states : List (List Char × State))
    (named : ∀ entry ∈ states, ∃ file : FileName, file.text = entry.1) :
    ∃ dirs, shortList (states.map fun entry => (base.join (Path.ofText entry.1), entry.2)) =
        .ok dirs ∧ dirs.keys = (states.map Prod.fst).toFinset := by
  have general (short : Found) : ∃ dirs,
      (states.map fun entry => (base.join (Path.ofText entry.1), entry.2)).foldlM
        (fun (short : Found) item => do
          let name ← Run.expect item.1.fileName "dir name is left intact"
          return short.insert name.text item.2) short = Except.ok dirs ∧
      dirs.keys = short.keys ∪ (states.map Prod.fst).toFinset := by
    induction states generalizing short with
    | nil => exact ⟨short, rfl, by simp⟩
    | cons entry rest ih =>
        obtain ⟨file, text⟩ := named entry List.mem_cons_self
        obtain ⟨dirs, folded, keys⟩ := ih (fun other member =>
          named other (List.mem_cons_of_mem _ member)) (short.insert file.text entry.2)
        refine ⟨dirs, ?_, ?_⟩
        · rw [List.map_cons, List.foldlM_cons, ← text, fileName_join]
          exact folded
        · rw [keys]
          ext name
          simp [Finmap.mem_keys, ← text, or_assoc]
  obtain ⟨dirs, listed, keys⟩ := general ∅
  exact ⟨dirs, listed, by rw [keys]; simp⟩

theorem map_fst_entries (found : Found) : ((entries found).map Prod.fst).toFinset = found.keys := by
  ext name
  rw [List.mem_toFinset, List.mem_map]
  constructor
  · rintro ⟨entry, member, rfl⟩
    exact mem_keys_of_entries member
  · intro member
    obtain ⟨state, isFound⟩ := Finmap.mem_iff.mp (Finmap.mem_keys.mp member)
    refine ⟨(name, state), List.mem_filterMap.mpr ⟨name, ?_, by rw [isFound]; rfl⟩, rfl⟩
    exact (Finset.mem_sort _).mpr member

/-- Where nothing is cleaned, a scan finds the images that are there. -/
theorem scan_works {io : Metadata.Io} (now : Nat) (names : List FileName) {directory : Directory}
    {vpath : VPath} {store : Metadata.Meta} (works : ¬ store.ScanFails io vpath)
    (unclean : directory.autoClean = false) (unlisted : directory.keepListFile = none) :
    ∃ data after, scan io now names .notFound directory vpath store = .ok (.ok data, after) ∧
      data.dirs.keys = store.imagesAt io vpath names := by
  obtain ⟨fails, _⟩ | ⟨_, found, after, scanned, keys⟩ := Metadata.scanDir_eq io vpath names store
  · exact absurd fails works
  · obtain ⟨dirs, listed, same⟩ := shortList_join vpath.suffix (entries found)
      fun entry member => Metadata.exists_fileName_of_imagesAt (keys ▸ mem_keys_of_entries member)
    refine ⟨⟨vpath, directory, ∅, dirs⟩, after, ?_, ?_⟩
    · rw [scan, scanned, Run.ok_bind]
      simp only [Disk.readKeepList, unlisted, assemble, unclean, Bool.false_eq_true, if_false,
        listed, Run.ok_bind, keepListNames]
      rfl
    · rw [same, map_fst_entries, keys]

/-- A directory without files and without a keep list. -/
theorem scan_nil (now : Nat) {directory : Directory} (unclean : directory.autoClean = false)
    (unlisted : directory.keepListFile = none) (vpath : VPath) (store : Metadata.Meta) :
    scan .working now [] .notFound directory vpath store =
      .ok (.ok ⟨vpath, directory, ∅, ∅⟩, store) := by
  rw [scan, Metadata.scanDir_nil, Run.ok_bind]
  simp only [Disk.readKeepList, unlisted, assemble, unclean, entries_empty]
  rfl

end Returning

end BaseDir

end Ciruela
