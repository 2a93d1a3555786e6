import Ciruela.Daemon.Config
import Ciruela.Daemon.Metadata.Dir
import Ciruela.Foundation.Text

/-!
# The disk subsystem

Reading a block of an image and reading a keep list. Directories are opened one
component after another; each opening is recorded with the directory it starts
from and the component that is handed to the system. What the file system holds is
a parameter.
-/

namespace Ciruela

open Foundation

namespace Disk

/-- A call of `sub_dir` or `open_file`. -/
structure Opening where
  location : List FileName
  component : Component
deriving DecidableEq

/-- Where the call leads. -/
def Opening.target (opening : Opening) : List FileName := opening.component.enter opening.location

/-- The file system as a reader meets it. -/
structure FileSystem where
  opensBase : List FileName → Bool
  opensDir : Opening → Bool
  /-- Open a file, seek and read once. -/
  readsFile : Opening → Nat → Option (List UInt8)

/-- A file system where everything opens. -/
def FileSystem.permissive : FileSystem := ⟨fun _ => true, fun _ => true, fun _ _ => some []⟩

/-- `Error`: the call of the disk that failed, and where. -/
inductive Error where
  | noDir (path : VPath)
  | openBase (directory : List FileName)
  | openDir (opening : Opening)
  | readFile (opening : Opening)
  | readKeepList (file : Path)
deriving DecidableEq

/-- The calls made and what came of them. -/
abbrev Calls (Value : Type) := List Opening × Except Error Value

/-- Go on from what was opened. -/
def Calls.andThen {Value Next : Type} (first : Calls Value) (rest : Value → Run (Calls Next)) :
    Run (Calls Next) :=
  match first.2 with
  | .error error => return (first.1, .error error)
  | .ok value => do
      let later ← rest value
      return (first.1 ++ later.1, later.2)

/-- `open_path`: one component after another is opened below the last. -/
def openComponents (fs : FileSystem) (location : List FileName) :
    List Component → Calls (List FileName)
  | [] => ([], .ok location)
  | component :: rest =>
      let opening : Opening := ⟨location, component⟩
      if fs.opensDir opening then
        let later := openComponents fs opening.target rest
        (opening :: later.1, later.2)
      else ([opening], .error (.openDir opening))

/-- The components are handed to the system as they are. -/
def openPath (fs : FileSystem) (location : List FileName) (path : Path) :
    Calls (List FileName) :=
  let path := if path.isAbsolute then (path.stripPrefix VPath.rootPath).getD path else path
  openComponents fs location path.components

/-- `Disk::read_block`. -/
def readBlock (config : Config) (fs : FileSystem) (vpath : VPath) (path : Path) (offset : Nat)
    (writing : Bool) : Run (Calls (List UInt8)) := do
  Run.assert path.isAbsolute "path.is_absolute()"
  let path ← Run.expect (path.stripPrefix VPath.rootPath) "path is absolute"
  match config.dirs.lookup vpath.key with
  | none => return ([], .error (.noDir vpath))
  | some directory =>
      if !fs.opensBase directory.directory then
        return ([], .error (.openBase directory.directory))
      let parent ← vpath.parent
      (openPath fs directory.directory parent.suffix).andThen fun location => do
        let name ← vpath.finalName
        let image := if writing then Metadata.tmpFile name else name
        (openPath fs location (Path.ofText image.text)).andThen fun location => do
          let upper ← Run.expect path.parent "parent should exist"
          (openPath fs location upper).andThen fun location => do
            let file ← Run.expect path.fileName "file name should exist"
            let opening : Opening := ⟨location, .normal file⟩
            match fs.readsFile opening offset with
            | none => return ([opening], .error (.readFile opening))
            | some bytes => return ([opening], .ok (bytes.take 32768))

/-- What opening the keep list gives; `none` where reading a line fails. -/
inductive KeepListFile where
  | lines (lines : List (Option (List Char)))
  | notFound
  | failed

/-- The paths of the lines of a keep list that have the right depth. -/
def keepListPaths (numLevels : Nat) : List (Option (List Char)) → Option (List Path)
  | [] => some []
  | none :: _ => none
  | some line :: rest =>
      let line := trim line
      if startsWith line "#".toList then keepListPaths numLevels rest
      else
        let path := Path.ofText (line.dropWhile (· == '/'))
        if path.components.length = numLevels then
          (keepListPaths numLevels rest).map (path :: ·)
        else keepListPaths numLevels rest

/-- `read_keep_list`: a list that is not there is empty, any other failure is an error. -/
def readKeepList (directory : Directory) (file : KeepListFile) : Except Error (List Path) :=
  match directory.keepListFile with
  | none => .ok []
  | some name =>
      match file with
      | .notFound => .ok []
      | .failed => .error (.readKeepList name)
      | .lines lines =>
          match keepListPaths directory.numLevels lines with
          | none => .error (.readKeepList name)
          | some paths => .ok paths

/-- A line of the keep list without its slashes is relative. -/
theorem isAbsolute_trimmed (line : List Char) :
    (Path.ofText (line.dropWhile (· == '/'))).isAbsolute = false := by
  rw [← Bool.not_eq_true]
  intro absolute
  have starts := Path.head?_text_of_isAbsolute absolute
  rw [Path.text_ofText] at starts
  have first := List.head?_dropWhile_not (· == '/') line
  rw [starts] at first
  simp at first

/-- Every path of a keep list is relative and has the depth of the directory. -/
theorem of_mem_keepListPaths {numLevels : Nat} {lines : List (Option (List Char))}
    {paths : List Path} {path : Path} (read : keepListPaths numLevels lines = some paths)
    (member : path ∈ paths) : path.isAbsolute = false ∧ path.components.length = numLevels := by
  induction lines generalizing paths with
  | nil =>
      obtain rfl := Option.some.inj read
      simp at member
  | cons line rest ih =>
      cases line with
      | none => simp [keepListPaths] at read
      | some line =>
          rw [keepListPaths] at read
          dsimp only at read
          split at read
          · exact ih read member
          · split at read
            · rename_i depth
              obtain ⟨later, laterRead, rfl⟩ := Option.map_eq_some_iff.mp read
              rcases List.mem_cons.mp member with rfl | old
              · exact ⟨isAbsolute_trimmed _, depth⟩
              · exact ih laterRead old
            · exact ih read member

/-- The paths of a keep list are relative. -/
theorem of_mem_readKeepList {directory : Directory} {file : KeepListFile} {paths : List Path}
    {path : Path} (read : readKeepList directory file = .ok paths) (member : path ∈ paths) :
    path.isAbsolute = false ∧ path.components.length = directory.numLevels := by
  have none (empty : Except.ok [] = (.ok paths : Except Error (List Path))) : False := by
    obtain rfl := Except.ok.inj empty
    simp at member
  unfold readKeepList at read
  split at read
  · exact (none read).elim
  · split at read
    · exact (none read).elim
    · simp at read
    · split at read
      · simp at read
      · rename_i found
        obtain rfl := Except.ok.inj read
        exact of_mem_keepListPaths found member

section ReadBlock

variable {config : Config} {fs : FileSystem} {directory : Directory} {vpath : VPath} {spot : Spot}
  {path : Path} {offset : Nat} {writing : Bool}

/-- A relative path is opened component after component. -/
theorem openPath_eq (fs : FileSystem) (location : List FileName) {path : Path}
    (relative : path.components.head? ≠ some .rootDir) :
    openPath fs location path = openComponents fs location path.components := by
  have notAbsolute : path.isAbsolute ≠ true := fun absolute =>
    relative (Path.isAbsolute_iff_head?.mp absolute)
  simp [openPath, notAbsolute]

/-- The path of a block below the root: it has a parent and a file name. -/
theorem below_root {file : FileName} (absolute : path.isAbsolute = true)
    (named : path.fileName = some file) :
    ∃ relative upper, path.stripPrefix VPath.rootPath = some relative ∧
      relative.parent = some upper ∧ relative.fileName = some file ∧
      upper.components = path.components.tail.dropLast ∧
      path.components = .rootDir :: (upper.components ++ [.normal file]) ∧
      ∀ component ∈ upper.components,
        component = .parentDir ∨ ∃ name, component = .normal name := by
  obtain ⟨below, shape, inside⟩ := Path.components_of_isAbsolute absolute
  have last := Path.fileName_eq_some_iff.mp named
  have nonempty : below ≠ [] := by
    rintro rfl
    simp [shape] at last
  have belowLast : below.getLast? = some (.normal file) := by
    rw [shape, List.getLast?_cons_of_ne_nil nonempty] at last
    exact last
  have components : (path.afterComponents 1).components = below := by
    rw [Path.components_afterComponents, shape, List.drop_one, List.tail_cons]
  have relative : (path.afterComponents 1).isAbsolute = false := by
    rw [← Bool.not_eq_true, Path.isAbsolute_iff_head?, components]
    intro root
    rcases inside .rootDir (List.mem_of_mem_head? root) with up | ⟨name, down⟩
    · simp at up
    · simp at down
  obtain ⟨upper, found⟩ := Option.isSome_iff_exists.mp
    (Path.parent_isSome_of_components relative (components ▸ nonempty))
  have upperComponents : upper.components = below.dropLast := by
    rw [Path.components_parent found, components]
  refine ⟨_, upper, VPath.stripPrefix_rootPath absolute, found, ?_, ?_, ?_, ?_⟩
  · rw [Path.fileName_eq_some_iff, components]
    exact belowLast
  · rw [shape, List.tail_cons, upperComponents]
  · rw [shape, upperComponents, List.dropLast_append_getLast? _ belowLast]
  · rw [upperComponents]
    intro component member
    exact inside component (List.mem_of_mem_dropLast member)

theorem head?_names (names : List FileName) :
    (names.map Component.normal).head? ≠ some .rootDir := by
  cases names <;> simp

/-- The calls of a read below a spot, as openings of lists of components. -/
theorem readBlock_at (located : vpath.place = spot.place) (absolute : path.isAbsolute = true)
    {file : FileName} (named : path.fileName = some file)
    (configured : config.dirs.lookup vpath.key = some directory)
    (opens : fs.opensBase directory.directory = true) :
    readBlock config fs vpath path offset writing =
      (openComponents fs directory.directory (spot.dir.tail.map .normal)).andThen fun location =>
        (openComponents fs location
          ([if writing then Metadata.tmpFile spot.name else spot.name].map .normal)).andThen
          fun location =>
            (openComponents fs location (path.components.tail.dropLast)).andThen fun location =>
              match fs.readsFile ⟨location, .normal file⟩ offset with
              | none => .ok ([⟨location, .normal file⟩], .error (.readFile ⟨location, .normal file⟩))
              | some bytes => .ok ([⟨location, .normal file⟩], .ok (bytes.take 32768)) := by
  obtain ⟨relative, upper, stripped, parent, fileName, upperComponents, _, inside⟩ :=
    below_root absolute named
  obtain ⟨above, aboveFound, abovePlace⟩ := VPath.parent_at located
  have suffix : above.suffix.components = spot.dir.tail.map .normal := by
    rw [VPath.suffix_components, abovePlace]
    cases spot.dir <;> rfl
  have openSuffix : openPath fs directory.directory above.suffix =
      openComponents fs directory.directory (spot.dir.tail.map .normal) := by
    rw [openPath_eq _ _ (suffix ▸ head?_names _), suffix]
  have openImage (location : List FileName) (name : FileName) :
      openPath fs location (Path.ofText name.text) =
        openComponents fs location ([name].map .normal) := by
    rw [openPath_eq _ _ (by simp), Path.components_ofText_fileName]
    rfl
  have openUpper (location : List FileName) : openPath fs location upper =
      openComponents fs location path.components.tail.dropLast := by
    rw [openPath_eq _ _ ?_, upperComponents]
    intro root
    rcases inside .rootDir (List.mem_of_mem_head? root) with up | ⟨name, down⟩
    · simp at up
    · simp at down
  simp only [readBlock, absolute, stripped, configured, opens, aboveFound, openSuffix,
    VPath.finalName_at located, openImage, parent, openUpper, fileName, Run.assert, Run.expect,
    Run.ok_bind, if_true, Bool.not_true, Bool.false_eq_true, if_false]
  rfl

/-- Nothing is opened when the base directory is not there. -/
theorem readBlock_closed (absolute : path.isAbsolute = true)
    (configured : config.dirs.lookup vpath.key = some directory)
    (closed : fs.opensBase directory.directory = false) :
    readBlock config fs vpath path offset writing =
      .ok ([], .error (.openBase directory.directory)) := by
  simp only [readBlock, absolute, VPath.stripPrefix_rootPath absolute, configured, closed,
    Run.assert, Run.expect, Run.ok_bind, if_true, Bool.not_false]
  rfl

/-- Calls one after another return when all of them do. -/
theorem returns_andThen {Value Next : Type} {first : Calls Value} {rest : Value → Run (Calls Next)}
    (returns : ∀ value, (rest value).Returns) : (first.andThen rest).Returns := by
  unfold Calls.andThen
  split
  · exact Run.returns_pure _
  · rename_i value _
    obtain ⟨later, went⟩ := returns value
    simp [went]

/-- The second half goes on where the first half has led. -/
theorem andThen_of_ok {Value Next : Type} {first : Calls Value} {rest : Value → Run (Calls Next)}
    {value : Value} {later : Calls Next} (found : first.2 = .ok value)
    (went : rest value = .ok later) : first.andThen rest = .ok (first.1 ++ later.1, later.2) := by
  simp only [Calls.andThen, found, went, Run.ok_bind]
  rfl

/-- A read ends with a block or an error, unless the path is a configured key and
nothing more. -/
theorem returns_readBlock (accepted : VPath.checkPath vpath.path = true)
    (absolute : path.isAbsolute = true) {file : FileName} (named : path.fileName = some file)
    (offset : Nat) (writing : Bool) :
    (readBlock config fs vpath path offset writing).Returns ↔
      ∀ directory, config.dirs.lookup vpath.key = some directory →
        fs.opensBase directory.directory = true → 1 ≤ vpath.level := by
  have stripped := VPath.stripPrefix_rootPath absolute
  cases configured : config.dirs.lookup vpath.key with
  | none =>
      simp [readBlock, absolute, stripped, configured, Run.assert, Run.expect]
  | some directory =>
      cases opens : fs.opensBase directory.directory with
      | false =>
          rw [readBlock_closed absolute configured opens]
          simp [opens]
      | true =>
          simp only [Option.some.injEq, forall_eq', opens, true_imp_iff]
          constructor
          · intro answered
            by_contra shallow
            have noParent : vpath.parent = .error (.assertion "self.level() > 0") :=
              dif_neg (by omega)
            simp [readBlock, absolute, stripped, configured, opens, noParent, Run.assert,
              Run.expect] at answered
          · intro deep
            obtain ⟨spot, located⟩ := VPath.exists_spot accepted deep
            rw [readBlock_at located absolute named configured opens]
            refine returns_andThen fun _ => returns_andThen fun _ => returns_andThen fun _ => ?_
            split <;> exact Run.returns_ok _

end ReadBlock

end Disk

end Ciruela
