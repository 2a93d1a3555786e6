import Ciruela.Foundation.Panic
import Ciruela.Foundation.Path

/-!
# Virtual paths

A virtual path is an absolute path with at least one component, the key, below
the root; the type carries that. `VPath` values reach the daemon through
`VPath.deserialize`, which also refuses `..`, and through `VPath.tryFrom`, which
does not.

Equality and hashing of virtual paths look at components only, while the text is
kept as it was received. `VPath.place` is what equality sees, and it is the key
of every map indexed by virtual paths.
-/

namespace Ciruela

open Foundation

/-- `VPath`: an absolute path that is not the root. -/
structure VPath where
  path : Path
  absolute : path.isAbsolute = true
  notRoot : path.components ≠ [.rootDir]
deriving DecidableEq

namespace VPath

/-- The identity of a virtual path under equality and hashing. -/
def place (vpath : VPath) : List Component := vpath.path.components

/-- A path is the root, a first component and others, which lead up or are names. -/
theorem place_eq_cons (vpath : VPath) :
    ∃ first rest, vpath.place = .rootDir :: first :: rest ∧
      ∀ component ∈ first :: rest, component = .parentDir ∨ ∃ file, component = .normal file := by
  obtain ⟨below, shape, inside⟩ := Path.components_of_isAbsolute vpath.absolute
  cases below with
  | nil => exact absurd shape vpath.notRoot
  | cons first rest => exact ⟨first, rest, shape, inside⟩

theorem two_le_length (vpath : VPath) : 2 ≤ vpath.place.length := by
  obtain ⟨first, rest, shape, _⟩ := vpath.place_eq_cons
  simp [shape]

/-- The key, i.e. the first component. -/
def key (vpath : VPath) : List Char := (vpath.place.get ⟨1, vpath.two_le_length⟩).text

/-- Number of components not counting the key. -/
def level (vpath : VPath) : Nat := vpath.place.length - 2

/-- The root as a path. -/
def rootPath : Path := Path.ofText ['/']

/-- The parent relative to the root. -/
def parentRel (vpath : VPath) : Run Path := do
  Run.assert (0 < vpath.level) "self.level() > 0"
  Run.expect ((vpath.path.stripPrefix rootPath).bind Path.parent) "valid virtual path"

/-- Every path has something above it. -/
theorem parent_isSome (vpath : VPath) : vpath.path.parent.isSome := by
  obtain ⟨upper, found, _⟩ := Path.parent_of_isAbsolute vpath.absolute vpath.two_le_length
  simp [found]

/-- The virtual path of the directory above. -/
def parent (vpath : VPath) : Run VPath :=
  if deep : 0 < vpath.level then
    .ok {
      path := vpath.path.parent.get vpath.parent_isSome
      absolute := by
        obtain ⟨upper, found, absolute⟩ :=
          Path.parent_of_isAbsolute vpath.absolute vpath.two_le_length
        simpa [found] using absolute
      notRoot := by
        obtain ⟨upper, found, _⟩ := Path.parent_of_isAbsolute vpath.absolute vpath.two_le_length
        have length : upper.components.length = vpath.place.length - 1 := by
          rw [Path.components_parent found, List.length_dropLast]
          rfl
        unfold level at deep
        intro equal
        have short : upper.components.length = 1 := by
          have same : vpath.path.parent.get vpath.parent_isSome = upper := by simp [found]
          rw [← same, equal]
          rfl
        omega }
  else .error (.assertion "self.level() > 0")

/-- The place of the parent is that of the path without its last component. -/
theorem place_parent {vpath upper : VPath} (found : vpath.parent = .ok upper) :
    upper.place = vpath.place.dropLast := by
  unfold parent at found
  split at found
  · obtain rfl := Except.ok.inj found
    obtain ⟨above, isParent, _⟩ := Path.parent_of_isAbsolute vpath.absolute vpath.two_le_length
    show (vpath.path.parent.get vpath.parent_isSome).components = _
    simp only [isParent, Option.get_some]
    exact Path.components_parent isParent
  · cases found

/-- A path has the key of the paths above it. -/
theorem key_eq_of_above {vpath upper : VPath} (above : upper.place <+: vpath.place) :
    vpath.key = upper.key := by
  have same := above.getElem (i := 1) upper.two_le_length
  unfold key
  rw [List.get_eq_getElem, List.get_eq_getElem, same]

/-- The parent of a path has its key. -/
theorem key_parent {vpath upper : VPath} (found : vpath.parent = .ok upper) :
    upper.key = vpath.key := by
  refine (key_eq_of_above ?_).symm
  rw [place_parent found]
  exact List.dropLast_prefix _

/-- The path relative to the key. -/
def suffix (vpath : VPath) : Path := vpath.path.afterComponents 2

/-- The last component of the directory. -/
def finalName (vpath : VPath) : Run FileName := do
  Run.assert (0 < vpath.level) "self.level() > 0"
  Run.expect vpath.path.fileName "valid virtual path"

/-- Components that all name something are those of a path that starts with a
name. -/
theorem plain_of_normal {path : Path} (normal : path.components.all Component.isNormal = true) :
    ∃ segments, path.shape = .plain segments := by
  cases form : path.shape with
  | rooted rest => simp [Path.components_of_rooted form, Component.isNormal] at normal
  | dotted rest => simp [Path.components_of_dotted form, Component.isNormal] at normal
  | plain segments => exact ⟨segments, rfl⟩

/-- Joining names to a path puts them after its components. -/
theorem place_join (vpath : VPath) {path : Path}
    (normal : path.components.all Component.isNormal = true) :
    (vpath.path.join path).components = vpath.place ++ path.components := by
  obtain ⟨segments, plain⟩ := plain_of_normal normal
  exact Path.components_join plain

/-- Join a path to the virtual path. -/
def join (vpath : VPath) (path : Path) : Run VPath :=
  if valid : path.components ≠ [] ∧ path.components.all Component.isNormal = true then
    .ok {
      path := vpath.path.join path
      absolute := by
        rw [Path.isAbsolute_iff_head?, place_join vpath valid.2]
        obtain ⟨first, rest, shape, _⟩ := vpath.place_eq_cons
        simp [shape]
      notRoot := by
        rw [place_join vpath valid.2]
        obtain ⟨first, rest, shape, _⟩ := vpath.place_eq_cons
        simp [shape] }
  else .error (.assertion "path.components().all(|x| matches!(x, Normal(_)))")

/-- `VPath::try_from`. -/
def tryFrom (path : Path) : Option VPath :=
  if valid : path.isAbsolute = true ∧ path.components ≠ [.rootDir] then
    some ⟨path, valid.1, valid.2⟩
  else none

/-- `VPath::from`: the same test as `tryFrom`, as two assertions. -/
def fromPath (path : Path) : Run VPath :=
  if valid : path.isAbsolute = true ∧ path.components ≠ [.rootDir] then
    .ok ⟨path, valid.1, valid.2⟩
  else .error (.assertion "buf.is_absolute()")

/-- The virtual path that has only the key of this one. -/
def keyVpath (vpath : VPath) : Run VPath := fromPath (Path.ofText ('/' :: vpath.key))

/-- A path always has the path of its key. -/
theorem returns_keyVpath (vpath : VPath) : vpath.keyVpath.Returns := by
  have valid : (Path.ofText ('/' :: vpath.key)).isAbsolute = true ∧
      (Path.ofText ('/' :: vpath.key)).components ≠ [.rootDir] := by
    obtain ⟨first, rest, shape, inside⟩ := vpath.place_eq_cons
    have isKey : vpath.key = first.text := by simp [key, shape]
    rw [isKey]
    obtain rfl | ⟨file, rfl⟩ := inside first List.mem_cons_self
    · decide
    · rw [Path.isAbsolute_iff_head?, Component.text, Path.components_ofText_slash]
      simp
  unfold keyVpath fromPath
  rw [dif_pos valid]
  exact Run.returns_ok _

/-- What is accepted from the wire: the root followed by one or more names. -/
def checkPath (path : Path) : Bool :=
  match path.components with
  | .rootDir :: rest => rest.all Component.isNormal && decide (1 ≤ rest.length)
  | _ => false

/-- A path that passes the check is absolute, and more than the root. -/
theorem valid_of_checkPath {path : Path} (accepted : checkPath path = true) :
    path.isAbsolute = true ∧ path.components ≠ [.rootDir] := by
  unfold checkPath at accepted
  split at accepted
  · rename_i rest shape
    rw [Bool.and_eq_true, decide_eq_true_eq] at accepted
    refine ⟨Path.isAbsolute_iff_head?.mpr (by simp [shape]), ?_⟩
    rw [shape]
    intro equal
    simp [(List.cons.inj equal).2] at accepted
  · simp at accepted

/-- `VPath` as it is received: a path that `check_path` refuses is not read. -/
def deserialize (text : List Char) : Option VPath :=
  if accepted : checkPath (Path.ofText text) = true then
    some ⟨Path.ofText text, (valid_of_checkPath accepted).1, (valid_of_checkPath accepted).2⟩
  else none

end VPath

/-- A place for an image: the directory above it, which is not the root, and its
name there. -/
structure Spot where
  dir : List FileName
  name : FileName
  deep : dir ≠ []
deriving DecidableEq

namespace Spot

/-- The identity of the virtual paths of this spot. -/
def place (spot : Spot) : List Component := .rootDir :: (spot.dir ++ [spot.name]).map .normal

/-- A spot is known by its place. -/
theorem place_injective : Function.Injective place := by
  intro first second equal
  obtain ⟨dir, name, deep⟩ := first
  obtain ⟨dir', name', deep'⟩ := second
  have names : dir ++ [name] = dir' ++ [name'] :=
    List.map_injective_iff.mpr (fun _ _ => Component.normal.inj) (List.cons.inj equal).2
  obtain ⟨rfl, same⟩ := List.append_inj' names rfl
  obtain rfl := List.singleton_inj.mp same
  rfl

end Spot

namespace VPath

variable {vpath : VPath} {spot : Spot}

/-- The level of a path at a spot. -/
theorem level_at (located : vpath.place = spot.place) : vpath.level = spot.dir.length := by
  simp [level, located, Spot.place]

/-- The key of a path at a spot. -/
theorem key_at (located : vpath.place = spot.place) :
    vpath.key = (spot.dir.head spot.deep).text := by
  obtain ⟨dir, name, deep⟩ := spot
  cases dir with
  | nil => exact absurd rfl deep
  | cons first rest => simp [key, located, Spot.place, Component.text]

/-- An absolute path starts with the root. -/
theorem stripPrefix_rootPath {path : Path} (absolute : path.isAbsolute = true) :
    path.stripPrefix rootPath = some (path.afterComponents 1) := by
  have rootComponents : rootPath.components = [.rootDir] := by decide
  obtain ⟨below, components, _⟩ := Path.components_of_isAbsolute absolute
  simp [Path.stripPrefix, rootComponents, components]

theorem place_getLast? (located : vpath.place = spot.place) :
    vpath.place.getLast? = some (.normal spot.name) := by
  rw [located, Spot.place, List.map_append, ← List.cons_append]
  exact List.getLast?_concat

/-- The final name of a path at a spot. -/
theorem finalName_at (located : vpath.place = spot.place) : vpath.finalName = .ok spot.name := by
  have positive : 0 < spot.dir.length := List.length_pos_iff.mpr spot.deep
  have named : vpath.path.fileName = some spot.name :=
    Path.fileName_eq_some_iff.mpr (place_getLast? located)
  simp [finalName, level_at located, positive, named, Run.assert, Run.expect]

/-- The parent relative to the root has the names of the directory above. -/
theorem parentRel_at (located : vpath.place = spot.place) :
    ∃ path, vpath.parentRel = .ok path ∧ path.components = spot.dir.map .normal := by
  have positive : 0 < spot.dir.length := List.length_pos_iff.mpr spot.deep
  have stripped := stripPrefix_rootPath vpath.absolute
  have below : (vpath.path.afterComponents 1).components =
      (spot.dir ++ [spot.name]).map .normal := by
    have components : vpath.path.components = spot.place := located
    rw [Path.components_afterComponents, components, Spot.place, List.drop_one, List.tail_cons]
  have relative : (vpath.path.afterComponents 1).isAbsolute = false := by
    rw [← Bool.not_eq_true, Path.isAbsolute_iff_head?, below]
    obtain ⟨first, rest, dir⟩ := List.exists_cons_of_ne_nil spot.deep
    simp [dir]
  have nonempty : (vpath.path.afterComponents 1).components ≠ [] := by simp [below]
  obtain ⟨upper, found⟩ :=
    Option.isSome_iff_exists.mp (Path.parent_isSome_of_components relative nonempty)
  refine ⟨upper, ?_, ?_⟩
  · simp [parentRel, level_at located, positive, stripped, found, Run.assert, Run.expect]
  · rw [Path.components_parent found, below, List.map_append]
    exact List.dropLast_concat

/-- The path of the directory above. -/
theorem parent_at (located : vpath.place = spot.place) :
    ∃ upper, vpath.parent = .ok upper ∧ upper.place = .rootDir :: spot.dir.map .normal := by
  have positive : 0 < vpath.level := by
    rw [level_at located]
    exact List.length_pos_iff.mpr spot.deep
  refine ⟨_, dif_pos positive, ?_⟩
  obtain ⟨upper, found, _⟩ := Path.parent_of_isAbsolute vpath.absolute vpath.two_le_length
  have components : vpath.path.components = spot.place := located
  show (vpath.path.parent.get vpath.parent_isSome).components = _
  simp only [found, Option.get_some]
  rw [Path.components_parent found, components, Spot.place, List.map_append, ← List.cons_append]
  exact List.dropLast_concat

/-- The names among the components. -/
def names (vpath : VPath) : List FileName :=
  vpath.place.filterMap fun
    | .normal file => some file
    | _ => none

/-- The names of a path at a spot. -/
theorem names_at (located : vpath.place = spot.place) : vpath.names = spot.dir ++ [spot.name] := by
  unfold names
  rw [located, Spot.place, List.filterMap_cons_none rfl, List.filterMap_map]
  exact List.filterMap_some

theorem suffix_components (vpath : VPath) : vpath.suffix.components = vpath.place.drop 2 :=
  Path.components_afterComponents _ _

/-- Normal components are names. -/
theorem exists_names {components : List Component}
    (normal : components.all Component.isNormal = true) :
    ∃ names : List FileName, components = names.map .normal := by
  induction components with
  | nil => exact ⟨[], rfl⟩
  | cons first rest ih =>
      rw [List.all_cons, Bool.and_eq_true] at normal
      obtain ⟨names, rfl⟩ := ih normal.2
      cases first with
      | normal file => exact ⟨file :: names, rfl⟩
      | rootDir => simp [Component.isNormal] at normal
      | curDir => simp [Component.isNormal] at normal
      | parentDir => simp [Component.isNormal] at normal

/-- A path whose parent has names only and that ends in a name is one of a spot. -/
theorem exists_spot_of_parentRel {path : Path} {dir : List FileName} {name : FileName}
    (above : vpath.parentRel = .ok path) (components : path.components = dir.map .normal)
    (named : vpath.finalName = .ok name) :
    ∃ spot : Spot, vpath.place = spot.place ∧ spot.dir = dir ∧ spot.name = name := by
  obtain ⟨first, rest, shape, _⟩ := vpath.place_eq_cons
  obtain ⟨_, asserted, found⟩ := Run.bind_eq_ok_iff.mp above
  have deep : 0 < vpath.level := by
    by_contra shallow
    simp [Run.assert, shallow] at asserted
  rw [stripPrefix_rootPath vpath.absolute] at found
  have upper : (vpath.path.afterComponents 1).parent = some path := by
    cases parent : (vpath.path.afterComponents 1).parent with
    | none => simp [parent, Run.expect] at found
    | some other =>
        simp only [parent, Option.bind_some, Run.expect] at found
        rw [Except.ok.inj found]
  have above : vpath.place.tail.dropLast = dir.map .normal := by
    rw [← components, Path.components_parent upper, Path.components_afterComponents, List.drop_one]
    rfl
  have last : vpath.place.getLast? = some (.normal name) := by
    obtain ⟨_, _, final⟩ := Run.bind_eq_ok_iff.mp named
    cases fileName : vpath.path.fileName with
    | none => simp [fileName, Run.expect] at final
    | some other =>
        simp only [fileName, Run.expect] at final
        rw [← Except.ok.inj final]
        exact Path.fileName_eq_some_iff.mp fileName
  have nonempty : dir ≠ [] := by
    rintro rfl
    rw [shape] at above
    have length : vpath.place.length = rest.length + 2 := by simp [shape]
    cases rest with
    | nil => simp [level, length] at deep
    | cons second rest => simp at above
  refine ⟨⟨dir, name, nonempty⟩, ?_, rfl, rfl⟩
  rw [shape] at above last
  rw [shape, Spot.place, List.map_append, ← above]
  have lastBelow : (first :: rest).getLast? = some (.normal name) := by simpa using last
  exact congrArg _ (List.dropLast_append_getLast? _ lastBelow).symm

/-- What the wire accepts below the key is a spot. -/
theorem exists_spot (accepted : checkPath vpath.path = true) (deep : 0 < vpath.level) :
    ∃ spot : Spot, vpath.place = spot.place := by
  unfold checkPath at accepted
  split at accepted
  · rename_i rest shape
    rw [Bool.and_eq_true] at accepted
    obtain ⟨names, rfl⟩ := exists_names accepted.1
    have long : 2 ≤ names.length := by
      have length : vpath.place.length = names.length + 1 := by simp [place, shape]
      unfold level at deep
      omega
    have nonempty : names ≠ [] := by
      intro empty
      simp [empty] at long
    have whole : names.dropLast ++ [names.getLast nonempty] = names :=
      List.dropLast_append_getLast nonempty
    refine ⟨⟨names.dropLast, names.getLast nonempty, ?_⟩, ?_⟩
    · apply List.ne_nil_of_length_pos
      rw [List.length_dropLast]
      omega
    · rw [Spot.place, whole]
      exact shape
  · simp at accepted

end VPath

end Ciruela
