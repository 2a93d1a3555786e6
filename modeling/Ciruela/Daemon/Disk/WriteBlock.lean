import Ciruela.Daemon.Disk
import Ciruela.Daemon.Disk.Depicted
import Ciruela.Daemon.Metadata.HardlinkSources
import Ciruela.Foundation.Patch

/-!
# How the temporary directory is filled

Files that other images have are linked into the directory of a new image, once their content
and their mode have been checked. The blocks of all other files are written one by one, and
directories are made on the way.
-/

namespace Ciruela

open Foundation

namespace Disk

open Metadata (Hardlink)

/-- Why a block cannot be written. -/
inductive WriteError where
  | outside (path : Path)
  | ensure (error : CommitError)
  | writeFile (location : List FileName)
deriving DecidableEq

/-- `update_file`, a seek and `write_all`. A link is not followed. -/
def updateFile (location : List FileName) (offset : Nat) (data : List UInt8) (folder : Folder) :
    Except WriteError Folder :=
  match folder.lookup location with
  | none => .ok (folder.insert location (.file (writeAt 0 [] offset data) false))
  | some (.file bytes exe) => .ok (folder.insert location (.file (writeAt 0 bytes offset data) exe))
  | some .dir => .error (.writeFile location)
  | some (.link _) => .error (.writeFile location)

/-- `Disk::write_block`. -/
def writeBlock (path : Path) (offset : Nat) (data : List UInt8) (folder : Folder) :
    Run (Except WriteError Folder) := do
  let path ← Run.expect (path.stripPrefix VPath.rootPath) "path is absolute"
  let parent ← Run.expect path.parent "path is never root"
  match relativeNames parent with
  | none => return .error (.outside parent)
  | some names =>
      match ensurePath [] names folder with
      | .error error => return .error (.ensure error)
      | .ok folder => do
          let fname ← Run.expect path.fileName "path has a filename"
          return updateFile (names ++ [fname]) offset data folder

/-- A file as it was opened. -/
structure OpenedFile where
  bytes : List UInt8
  mode : Nat
deriving DecidableEq

/-- Open a file: the directory of the configuration, the path of the image in it, the path of the
directory of the file in the image, and the name of the file. -/
abbrev OpenFile := List FileName → Path → Path → FileName → Option OpenedFile

/-- Why a file cannot be linked: it is not there or not the same, or the place for it fails. -/
inductive LinkError where
  | noDir (path : VPath)
  | readFile (path : Path)
  | checksum (path : Path)
  | outside (path : Path)
  | ensure (error : CommitError)
  | hardlink (location : List FileName)
deriving DecidableEq

/-- The directories that `ensure_path` makes before something is in its way. -/
def ensuredDirs (location : List FileName) : List FileName → Folder → Folder
  | [], folder => folder
  | name :: rest, folder =>
      match folder.lookup (location ++ [name]) with
      | none => ensuredDirs (location ++ [name]) rest (folder.insert (location ++ [name]) .dir)
      | some .dir => ensuredDirs (location ++ [name]) rest folder
      | some _ => folder

/-- The permissions that a file of an image has. -/
def targetPerm (exe : Bool) : Nat := if exe then 0o755 else 0o644

/-- `try_hardlink`. -/
def tryHardlink (config : Config) (openFile : OpenFile) (checkFile : CheckHashes)
    (hlink : Hardlink) (folder : Folder) : Run (Except LinkError Unit × Folder) :=
  match config.dirs.lookup hlink.source.key with
  | none => return (.error (.noDir hlink.source), folder)
  | some cfg => do
      let parent ← Run.expect hlink.path.parent "path is never root"
      let fileName ← Run.expect hlink.path.fileName "file name should exist"
      match openFile cfg.directory hlink.source.suffix parent fileName with
      | none => return (.error (.readFile hlink.path), folder)
      | some file =>
          if !checkFile hlink.hashes file.bytes then return (.error (.checksum hlink.path), folder)
          else if file.mode % 0o1000 ≠ targetPerm hlink.exe then
            return (.error (.checksum hlink.path), folder)
          else
            match relativeNames parent with
            | none => return (.error (.outside parent), folder)
            | some names =>
                match ensurePath [] names folder with
                | .error error => return (.error (.ensure error), ensuredDirs [] names folder)
                | .ok folder =>
                    let location := names ++ [fileName]
                    match folder.lookup location with
                    | some _ => return (.error (.hardlink location), folder)
                    | none =>
                        return (.ok (), folder.insert location
                          (.file file.bytes (decide (file.mode % 0o1000 = 0o755))))

/-- `check_and_hardlink`, with the links in the order they are made: the paths that were linked.
A link that fails is left out. -/
def checkAndHardlink (config : Config) (openFile : OpenFile)
    (checkFile : CheckHashes) : List Hardlink → Folder → Run (List Path × Folder)
  | [], folder => return ([], folder)
  | hlink :: rest, folder => do
      let (result, folder) ← tryHardlink config openFile checkFile hlink folder
      let (paths, folder) ← checkAndHardlink config openFile checkFile rest folder
      match result with
      | .ok () => return (hlink.path :: paths, folder)
      | .error _ => return (paths, folder)

/-- How much of an item of an image is there. A file is linked as a whole, or blocks of it are
written. -/
def Partly (blockSize : Nat) (linked : Prop) (done : Nat → Prop) :
    Option Item → Option Item → Prop
  | none, found => found = none
  | some (.link _), found => found = none
  | some .dir, found => found = none ∨ found = some .dir
  | some (.file content exe), found =>
      linked ∧ found = some (.file content exe) ∨
      ¬ linked ∧ (content = [] → found = none) ∧
        ∃ data, (found = some (.file data false) ∨ found = none ∧ data = []) ∧
          Patched blockSize content data done

/-- Everything in the directory is of the image, and so much of it. -/
def Folder.Fills (blockSize : Nat) (linked : List FileName → Prop)
    (done : List FileName → Nat → Prop) (folder image : Folder) : Prop :=
  ∀ location, Partly blockSize (linked location) (done location) (image.lookup location)
    (folder.lookup location)

section Fills

variable {blockSize : Nat} {linked linked' : List FileName → Prop}
  {done done' : List FileName → Nat → Prop} {folder after image : Folder}
  {location : List FileName} {content : List UInt8} {exe : Bool}

/-- Nothing is filled at first. -/
theorem fills_empty (blockSize : Nat) (image : Folder) :
    Folder.Fills blockSize (fun _ => False) (fun _ _ => False) ∅ image := by
  intro location
  rw [Finmap.lookup_empty]
  cases image.lookup location with
  | none => rfl
  | some item =>
      cases item with
      | dir => exact Or.inl rfl
      | link dest => rfl
      | file content exe =>
          exact Or.inr ⟨not_false, fun _ => rfl, [], Or.inr ⟨rfl, rfl⟩, patched_nil _ _⟩

/-- Where the image has a directory, one is there or can be made. -/
theorem Folder.Fills.free (fills : Folder.Fills blockSize linked done folder image)
    (isDir : image.lookup location = some .dir) :
    folder.lookup location = none ∨ folder.lookup location = some .dir := by
  have here := fills location
  rwa [isDir] at here

/-- Directories of the image may be made. -/
theorem Folder.Fills.ensure (fills : Folder.Fills blockSize linked done folder image)
    {names : List FileName}
    (above : ∀ front, front ≠ [] → front <+: names → image.lookup front = some .dir) :
    ∃ after, ensurePath [] names folder = .ok after ∧
      Folder.Fills blockSize linked done after image ∧
      ∀ other, image.lookup other ≠ some .dir → after.lookup other = folder.lookup other := by
  obtain ⟨after, made, there, outside⟩ := ensurePath_spec folder [] names
    fun front nonempty isPrefix => fills.free (above front nonempty isPrefix)
  have same {other : List FileName} (noPrefix : ¬ (other ≠ [] ∧ other <+: names)) :
      after.lookup other = folder.lookup other := by
    refine outside other fun front nonempty isPrefix same => noPrefix ?_
    rw [List.nil_append] at same
    exact same ▸ ⟨nonempty, isPrefix⟩
  refine ⟨after, made, fun other => ?_, fun other noDir => same fun onPath => ?_⟩
  · by_cases onPath : other ≠ [] ∧ other <+: names
    · rw [above other onPath.1 onPath.2]
      exact Or.inr (there other onPath.1 onPath.2)
    · rw [same onPath]
      exact fills other
  · exact noDir (above other onPath.1 onPath.2)

/-- Which blocks are there and which files are linked may be told in another way. -/
theorem Folder.Fills.congr (fills : Folder.Fills blockSize linked done folder image)
    (sameLinked : ∀ location, linked' location ↔ linked location)
    (fewer : ∀ location content exe, image.lookup location = some (.file content exe) →
      ¬ linked location → ∀ number, done' location number → done location number) :
    Folder.Fills blockSize linked' done' folder image := by
  intro location
  have here := fills location
  cases isItem : image.lookup location with
  | none => rwa [isItem] at here
  | some item =>
      rw [isItem] at here
      cases item with
      | dir => exact here
      | link dest => exact here
      | file content exe =>
          rcases here with ⟨isLinked, found⟩ | ⟨unlinked, empty, data, found, patched⟩
          · exact Or.inl ⟨(sameLinked location).mpr isLinked, found⟩
          · refine Or.inr ⟨fun isLinked => unlinked ((sameLinked location).mp isLinked), empty, data,
              found, patched.short, fun i inside isDone => patched.there i inside ?_⟩
            exact fewer location content exe isItem unlinked _ isDone

/-- One file is put, and nothing else changes. -/
theorem Folder.Fills.put {item : Item} (fills : Folder.Fills blockSize linked done folder image)
    (here : Partly blockSize (linked' location) (done' location) (image.lookup location) (some item))
    (others : ∀ other, other ≠ location →
      linked' other = linked other ∧ done' other = done other) :
    Folder.Fills blockSize linked' done' (folder.insert location item) image := by
  intro other
  rw [Map.lookup_insert_eq]
  by_cases same : other = location
  · rw [if_pos same, same]
    exact here
  · obtain ⟨sameLinked, sameDone⟩ := others other same
    rw [if_neg same, sameLinked, sameDone]
    exact fills other

/-- When all blocks of the files that are not linked are there, the directory can be committed. -/
theorem Folder.Fills.ready (fills : Folder.Fills blockSize linked done folder image)
    (positive : ∀ location content exe, image.lookup location = some (.file content exe) →
      0 < blockSize)
    (all : ∀ location content exe, image.lookup location = some (.file content exe) →
      ¬ linked location → ∀ number < blockCount blockSize content.length, done location number) :
    folder.Ready image := by
  have whole {location : List FileName} {content : List UInt8} {exe : Bool}
      (isFile : image.lookup location = some (.file content exe)) :
      folder.lookup location = some (.file content exe) ∨
        (content ≠ [] ∧ folder.lookup location = some (.file content false)) ∨
        content = [] ∧ folder.lookup location = none := by
    have here := fills location
    rw [isFile] at here
    rcases here with ⟨_, found⟩ | ⟨unlinked, empty, data, found, patched⟩
    · exact Or.inl found
    · obtain rfl := patched.eq (positive location content exe isFile) (all location content exe isFile unlinked)
      by_cases nothing : data = []
      · exact Or.inr (Or.inr ⟨nothing, empty nothing⟩)
      · rcases found with found | ⟨_, isEmpty⟩
        · exact Or.inr (Or.inl ⟨nothing, found⟩)
        · exact absurd isEmpty nothing
  refine ⟨fun location item found => ?_, fun location bytes exe isFile nonempty => ?_,
    fun location dest isLink => ?_⟩
  · have here := fills location
    cases isItem : image.lookup location with
    | none =>
        rw [isItem, found] at here
        cases here
    | some goal =>
        refine ⟨goal, rfl, ?_⟩
        rw [isItem, found] at here
        cases goal with
        | dir =>
            rcases here with none | isDir
            · cases none
            · exact Item.becomes_dir.mpr (Option.some.inj isDir)
        | link dest => cases here
        | file content exe =>
            rcases whole isItem with same | ⟨nonempty, same⟩ | ⟨_, missing⟩
            · obtain rfl := Option.some.inj (found.symm.trans same)
              exact ⟨rfl, Or.inl rfl⟩
            · obtain rfl := Option.some.inj (found.symm.trans same)
              exact ⟨rfl, Or.inr ⟨rfl, nonempty⟩⟩
            · rw [found] at missing
              cases missing
  · rcases whole isFile with same | ⟨_, same⟩ | ⟨empty, _⟩
    · exact ⟨exe, same⟩
    · exact ⟨false, same⟩
    · exact absurd empty nonempty
  · have here := fills location
    rwa [isLink] at here

end Fills

section Steps

variable {blockSize : Nat} {linked : List FileName → Prop} {done : List FileName → Nat → Prop}
  {folder image : Folder} {path : Path} {dir : List FileName} {name : FileName}
  {content : List UInt8} {exe : Bool}

theorem isAbsolute_of_rootedAt {names : List FileName} (rooted : RootedAt path names) :
    path.isAbsolute = true := by
  rw [Path.isAbsolute_iff_head?, rooted]
  rfl

/-- The directory of a file of an image. -/
theorem parent_of_rootedAt (rooted : RootedAt path (dir ++ [name])) :
    ∃ parent, path.parent = some parent ∧ relativeNames parent = some dir := by
  have long : 2 ≤ path.components.length := by
    rw [rooted]
    simp
  obtain ⟨upper, found, _⟩ := Path.parent_of_isAbsolute (isAbsolute_of_rootedAt rooted) long
  refine ⟨upper, found, relativeNames_of_rootedAt ?_⟩
  rw [RootedAt, Path.components_parent found, rooted, List.map_append, List.map_cons, List.map_nil,
    ← List.cons_append, List.dropLast_concat]

/-- What is written of a file that has content is written where the file belongs. -/
theorem Folder.Fills.writeBlock (fills : Folder.Fills blockSize linked done folder image)
    (above : ∀ front, front ≠ [] → front <+: dir → image.lookup front = some .dir)
    (rooted : RootedAt path (dir ++ [name]))
    (isFile : image.lookup (dir ++ [name]) = some (.file content exe))
    (unlinked : ¬ linked (dir ++ [name])) (nonempty : content ≠ [])
    (done' : List FileName → Nat → Prop) (offset : Nat) (piece : List UInt8)
    (patches : ∀ data, Patched blockSize content data (done (dir ++ [name])) →
      Patched blockSize content (writeAt 0 data offset piece) (done' (dir ++ [name])))
    (others : ∀ other, other ≠ dir ++ [name] → done' other = done other) :
    ∃ after, Disk.writeBlock path offset piece folder = .ok (.ok after) ∧
      Folder.Fills blockSize linked done' after image := by
  obtain ⟨relative, upper, stripped, parent, fileName, upperComponents, _, _⟩ :=
    below_root (isAbsolute_of_rootedAt rooted) (fileName_of_rootedAt rooted)
  have named : relativeNames upper = some dir := by
    refine relativeNames_of_names ?_
    rw [upperComponents, rooted, List.tail_cons, List.map_append, List.map_cons, List.map_nil,
      List.dropLast_concat, filter_names]
  obtain ⟨middle, made, fills, _⟩ := fills.ensure above
  have wrote : Disk.writeBlock path offset piece folder =
      .ok (updateFile (dir ++ [name]) offset piece middle) := by
    rw [Disk.writeBlock, stripped, Run.expect, Run.ok_bind, parent, Run.expect, Run.ok_bind, named]
    dsimp only
    rw [made]
    dsimp only
    rw [fileName]
    rfl
  rw [wrote]
  have here := fills (dir ++ [name])
  rw [isFile] at here
  rcases here with ⟨isLinked, _⟩ | ⟨_, _, data, found, patched⟩
  · exact absurd isLinked unlinked
  · have put : Folder.Fills blockSize linked done'
        (middle.insert (dir ++ [name]) (.file (writeAt 0 data offset piece) false)) image := by
      refine fills.put ?_ fun other different => ⟨rfl, others other different⟩
      rw [isFile]
      exact Or.inr ⟨unlinked, fun empty => absurd empty nonempty, _, Or.inl rfl,
        patches data patched⟩
    rcases found with found | ⟨found, rfl⟩
    · exact ⟨_, by rw [updateFile, found], put⟩
    · exact ⟨_, by rw [updateFile, found], put⟩

/-- A link for a file of the image, with its hashes. -/
structure LinksTo (checkFile : CheckHashes) (image : Folder) (hlink : Hardlink)
    (dir : List FileName) (name : FileName) : Prop where
  above : ∀ front, front ≠ [] → front <+: dir → image.lookup front = some .dir
  rooted : RootedAt hlink.path (dir ++ [name])
  /-- The hashes are those of the file only. -/
  same : ∃ content, image.lookup (dir ++ [name]) = some (.file content hlink.exe) ∧
    ∀ bytes, checkFile hlink.hashes bytes = true → bytes = content

/-- A file that is linked is the one of the image. -/
theorem Folder.Fills.tryHardlink (fills : Folder.Fills blockSize linked done folder image)
    (config : Config) (openFile : OpenFile) {checkFile : CheckHashes}
    {hlink : Hardlink} (links : LinksTo checkFile image hlink dir name) :
    ∃ result after, Disk.tryHardlink config openFile checkFile hlink folder = .ok (result, after) ∧
      Folder.Fills blockSize
        (fun location => result = .ok () ∧ location = dir ++ [name] ∨ linked location) done after
        image := by
  have failed {error : LinkError} {after : Folder}
      (fills : Folder.Fills blockSize linked done after image) :
      Folder.Fills blockSize (fun location =>
        (.error error : Except LinkError Unit) = .ok () ∧ location = dir ++ [name] ∨
          linked location) done after image := by
    refine fills.congr (fun location => ?_) fun _ _ _ _ _ _ isDone => isDone
    constructor
    · rintro (⟨impossible, _⟩ | isLinked)
      · cases impossible
      · exact isLinked
    · exact Or.inr
  obtain ⟨parent, isParent, named⟩ := parent_of_rootedAt links.rooted
  obtain ⟨content, isFile, same⟩ := links.same
  unfold Disk.tryHardlink
  cases config.dirs.lookup hlink.source.key with
  | none => exact ⟨_, _, rfl, failed fills⟩
  | some cfg =>
      simp only [isParent, fileName_of_rootedAt links.rooted, Run.expect, Run.ok_bind, named]
      cases openFile cfg.directory hlink.source.suffix parent name with
      | none => exact ⟨_, _, rfl, failed fills⟩
      | some file =>
          dsimp only
          split
          · exact ⟨_, _, rfl, failed fills⟩
          · rename_i checked
            split
            · exact ⟨_, _, rfl, failed fills⟩
            · rename_i permitted
              obtain rfl := same file.bytes (by simpa using checked)
              obtain ⟨middle, made, fills, _⟩ := fills.ensure links.above
              rw [made]
              dsimp only
              cases found : middle.lookup (dir ++ [name]) with
              | some item => exact ⟨_, _, rfl, failed fills⟩
              | none =>
                  refine ⟨_, _, rfl, fills.put ?_ fun other different => ?_⟩
                  · rw [isFile]
                    refine Or.inl ⟨Or.inl ⟨rfl, rfl⟩, ?_⟩
                    rw [ne_eq, not_not] at permitted
                    rw [permitted]
                    cases hlink.exe with
                    | true => rfl
                    | false => rfl
                  · refine ⟨propext ⟨?_, Or.inr⟩, rfl⟩
                    rintro (⟨_, here⟩ | isLinked)
                    · exact absurd here different
                    · exact isLinked

/-- Whatever order the links are made in, the files that are said to be linked are those of the
image, and nothing of the others is there. -/
theorem Folder.Fills.checkAndHardlink (fills : Folder.Fills blockSize linked done folder image)
    (config : Config) (openFile : OpenFile) (checkFile : CheckHashes)
    (hlinks : List Hardlink)
    (links : ∀ hlink ∈ hlinks, ∃ dir name, LinksTo checkFile image hlink dir name) :
    ∃ paths after, Disk.checkAndHardlink config openFile checkFile hlinks folder =
        .ok (paths, after) ∧
      Folder.Fills blockSize
        (fun location => (∃ path ∈ paths, RootedAt path location) ∨ linked location) done after
        image := by
  induction hlinks generalizing folder linked with
  | nil =>
      refine ⟨[], folder, rfl, fills.congr (fun location => ?_) fun _ _ _ _ _ _ isDone => isDone⟩
      simp
  | cons hlink rest ih =>
      obtain ⟨dir, name, linksTo⟩ := links hlink List.mem_cons_self
      obtain ⟨result, middle, tried, fills⟩ := fills.tryHardlink config openFile linksTo
      obtain ⟨paths, after, others, fills⟩ :=
        ih fills fun other member => links other (List.mem_cons_of_mem _ member)
      rw [Disk.checkAndHardlink, tried, Run.ok_bind]
      dsimp only
      rw [others, Run.ok_bind]
      dsimp only
      have isRooted {location : List FileName} :
          RootedAt hlink.path location ↔ location = dir ++ [name] := by
        constructor
        · exact fun rooted => rooted.unique linksTo.rooted
        · rintro rfl
          exact linksTo.rooted
      cases result with
      | error error =>
          refine ⟨paths, after, rfl, fills.congr (fun location => ?_) fun _ _ _ _ _ _ isDone => isDone⟩
          simp
      | ok done =>
          refine ⟨hlink.path :: paths, after, rfl,
            fills.congr (fun location => ?_) fun _ _ _ _ _ _ isDone => isDone⟩
          simp only [List.mem_cons, exists_eq_or_imp, isRooted, true_and]
          rw [or_left_comm, or_assoc]

end Steps

end Disk

end Ciruela
