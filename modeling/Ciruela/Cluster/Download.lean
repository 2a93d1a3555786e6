import Mathlib.Data.Char
import Mathlib.Data.List.Lex
import Ciruela.Cluster.Set
import Ciruela.Daemon.IndexCache
import Ciruela.Foundation.Nested

/-!
# Indexes that can be changed

An index that was fetched is read into a tree of directories, and written again from it. A
directory is known by the names in it, in order. What is written are the calls to the emitter of
indexes, which lives in another package, as the parser does.
-/

namespace Ciruela.Cluster

open Foundation

/-- Names are compared by their text. The order of the code points is that of their bytes. -/
instance : LinearOrder FileName := LinearOrder.lift' FileName.text fun _ _ => FileName.ext

deriving instance DecidableEq for Hashes

/-- `Item` without `Dir`, which is a level of its own. -/
inductive Item where
  | remoteFile (exe : Bool) (size : Nat) (hashes : Hashes)
  | link (dest : Path)
  | localFile (exe : Bool) (size : Nat) (hashes : Hashes)
deriving DecidableEq

/-- `BTreeMap<OsString, Item>`. -/
abbrev Dir := Nested FileName Item

/-- `IndexParseError`: the index is unreadable, or a path of it cannot be put into the tree. -/
inductive IndexParseError where
  | parse
  | invalidPath (path : Path)
  | pathConflict (path : Path)
deriving DecidableEq

/-- `IndexUpdateError`: why a file cannot be put into the tree. -/
inductive IndexUpdateError where
  | badPath
  | notADirectory
  | read
deriving DecidableEq

/-- A location is known by its number. -/
structure RawIndex where
  data : List UInt8
  location : Nat

/-- `MutableIndex`: the entries of an index as a tree, whose names are in order in every directory.
-/
structure MutableIndex where
  header : Header
  root : Dir
  sorted : root.Sorted
  location : Nat
  blockSize : Nat
  hashType : HashType

/-- `entry(..).or_insert_with(..)`. -/
def Dir.entry (dir : Dir) (chunk : FileName) : Slot FileName Item :=
  (dir.find chunk).getD (.node .nil)

/-- The entry for a directory: the one that is there, or a new one. -/
theorem Dir.entry_eq_node_iff {dir next : Dir} {chunk : FileName} :
    Dir.entry dir chunk = .node next ↔
      dir.find chunk = some (.node next) ∨ dir.find chunk = none ∧ next = .nil := by
  unfold Dir.entry
  cases dir.find chunk with
  | none => simp [eq_comm]
  | some slot => simp

/-- The entry for an item: the one that is there. -/
theorem Dir.entry_eq_leaf_iff {dir : Dir} {item : Item} {chunk : FileName} :
    Dir.entry dir chunk = .leaf item ↔ dir.find chunk = some (.leaf item) := by
  unfold Dir.entry
  cases dir.find chunk with
  | none => simp
  | some slot => simp

section FillDirs

/-- A directory is entered from the root. Where the cursor is then is given by names. -/
def enterDir (path : Path) : List Component → Dir → Except IndexParseError (Dir × List FileName)
  | [], dir => .ok (dir, [])
  | .rootDir :: rest, dir => enterDir path rest dir
  | .normal chunk :: rest, dir =>
      match Dir.entry dir chunk with
      | .leaf _ => .error (.pathConflict path)
      | .node inside => do
          let (inside, cursor) ← enterDir path rest inside
          return (dir.put chunk (.node inside), chunk :: cursor)
  | _ :: _, _ => .error (.invalidPath path)

/-- `dir.insert(..)` at the cursor. -/
def insertAt (name : FileName) (item : Item) : List FileName → Dir → Dir
  | [], dir => dir.put name (.leaf item)
  | chunk :: rest, dir =>
      match dir.find chunk with
      | some (.node inside) => dir.put chunk (.node (insertAt name item rest inside))
      -- the cursor is at a directory that is there
      | _ => dir

/-- A file or a link. -/
def addItem (state : Dir × List FileName) (path : Path) (item : Item) :
    Except IndexParseError (Dir × List FileName) :=
  match path.fileName with
  | none => .error (.invalidPath path)
  | some name => .ok (insertAt name item state.2 state.1, state.2)

/-- One entry in `fill_dirs`. -/
def fillEntry (blockSize : Nat) (state : Dir × List FileName) :
    Option Entry → Except IndexParseError (Dir × List FileName)
  | none => .error .parse
  | some (.dir path) => enterDir path path.components state.1
  | some (.file path exe size hashes) =>
      addItem state path (.remoteFile exe size ⟨blockSize, hashes⟩)
  | some (.link path dest) => addItem state path (.link dest)

/-- `fill_dirs`. -/
def fillDirs (blockSize : Nat) (items : List (Option Entry)) : Except IndexParseError Dir :=
  (items.foldlM (fillEntry blockSize) (.nil, [])).map Prod.fst

/-- An entry of a tree in order is in order. -/
theorem sorted_entry {dir : Dir} (sorted : dir.Sorted) (chunk : FileName) :
    (Dir.entry dir chunk).Sorted := by
  unfold Dir.entry
  cases found : dir.find chunk with
  | none => trivial
  | some slot => exact sorted.of_find found

/-- Entering a directory keeps the order. -/
theorem sorted_enterDir {path : Path} {components : List Component} {dir after : Dir}
    {cursor : List FileName} (sorted : dir.Sorted)
    (entered : enterDir path components dir = .ok (after, cursor)) : after.Sorted := by
  induction components generalizing dir after cursor with
  | nil =>
      cases Except.ok.inj entered
      exact sorted
  | cons component rest ih =>
      cases component with
      | rootDir => exact ih sorted entered
      | normal chunk =>
          have inside := sorted_entry sorted chunk
          rw [enterDir] at entered
          split at entered
          · cases entered
          · rename_i inner isEntry
            rw [isEntry] at inside
            cases further : enterDir path rest inner with
            | error error =>
                rw [further] at entered
                cases entered
            | ok result =>
                rw [further] at entered
                cases Except.ok.inj entered
                have later : (Slot.node result.1).Sorted := ih inside further
                exact sorted.put later chunk
      | _ => cases entered

/-- Inserting an item keeps the order. -/
theorem sorted_insertAt {dir : Dir} (sorted : dir.Sorted) (name : FileName) (item : Item)
    (cursor : List FileName) : (insertAt name item cursor dir).Sorted := by
  induction cursor generalizing dir with
  | nil =>
      have inner : (Slot.leaf item : Slot FileName Item).Sorted := trivial
      exact sorted.put inner name
  | cons chunk rest ih =>
      rw [insertAt]
      split
      · rename_i inside found
        have later : (Slot.node (insertAt name item rest inside)).Sorted := ih (sorted.of_find found)
        exact sorted.put later chunk
      · exact sorted

/-- Filling in an entry keeps the order. -/
theorem sorted_fillEntry {blockSize : Nat} {state after : Dir × List FileName}
    {item : Option Entry} (sorted : state.1.Sorted)
    (filled : fillEntry blockSize state item = .ok after) : after.1.Sorted := by
  have added : ∀ {path : Path} {item : Item}, addItem state path item = .ok after →
      after.1.Sorted := by
    intro path item isAdded
    unfold addItem at isAdded
    split at isAdded
    · cases isAdded
    · rw [← Except.ok.inj isAdded]
      exact sorted_insertAt sorted _ _ _
  match item with
  | none => cases filled
  | some (.dir path) => exact sorted_enterDir sorted filled
  | some (.file _ _ _ _) => exact added filled
  | some (.link _ _) => exact added filled

/-- A tree that was filled is in order. -/
theorem sorted_fillDirs {blockSize : Nat} {items : List (Option Entry)} {root : Dir}
    (filled : fillDirs blockSize items = .ok root) : root.Sorted := by
  suffices kept : ∀ (state after : Dir × List FileName), state.1.Sorted →
      items.foldlM (fillEntry blockSize) state = .ok after → after.1.Sorted by
    unfold fillDirs at filled
    cases folded : items.foldlM (fillEntry blockSize) (.nil, []) with
    | error error =>
        rw [folded] at filled
        cases filled
    | ok after =>
        rw [folded] at filled
        rw [← Except.ok.inj filled]
        exact kept (.nil, []) after trivial folded
  clear filled
  induction items with
  | nil =>
      intro state after sorted folded
      rwa [← Except.ok.inj folded]
  | cons item rest ih =>
      intro state after sorted folded
      rw [List.foldlM_cons] at folded
      cases first : fillEntry blockSize state item with
      | error error =>
          rw [first] at folded
          cases folded
      | ok next =>
          rw [first] at folded
          exact ih next after (sorted_fillEntry sorted first) folded

end FillDirs

/-- `RawIndex::into_mut`. -/
def RawIndex.intoMut (parser : Parser) (raw : RawIndex) : Except IndexParseError MutableIndex :=
  match parser raw.data with
  | none => .error .parse
  | some (header, items) =>
      match filled : fillDirs header.blockSize items with
      | .error error => .error error
      | .ok root =>
          .ok ⟨header, root, sorted_fillDirs filled, raw.location, header.blockSize,
            header.hashType⟩

/-- A call to the emitter. -/
inductive Call where
  | startDir (path : Path)
  | addFile (name : FileName) (exe : Bool) (size : Nat) (hashes : Hashes)
  | addSymlink (name : FileName) (dest : Path)
deriving DecidableEq

/-- The call of the emitter that writes an item. -/
def Item.call (name : FileName) : Item → Call
  | remoteFile exe size hashes => .addFile name exe size hashes
  | link dest => .addSymlink name dest
  | localFile exe size hashes => .addFile name exe size hashes

/-- The path of the root directory. -/
def rootPath : Path := .ofText "/".toList

/-- The name of a directory or a file put after the path it is in. -/
def below (path : Path) (name : FileName) : Path := path.join (.ofText name.text)

namespace Dir

/-- The first loop of `_emit_dir`. -/
def emitItems : Dir → List Call
  | .nil => []
  | .leaf name item rest => item.call name :: emitItems rest
  | .node _ _ rest => emitItems rest

/-- A directory without entries is left out. -/
def withDir (path : Path) (dir : Dir) (subdirs : List Call) : List Call :=
  if dir = .nil then [] else .startDir path :: emitItems dir ++ subdirs

/-- The second loop of `_emit_dir`. -/
def emitSubdirs : Path → Dir → List Call
  | _, .nil => []
  | path, .leaf _ _ rest => emitSubdirs path rest
  | path, .node name inside rest =>
      withDir (below path name) inside (emitSubdirs (below path name) inside) ++
        emitSubdirs path rest

/-- `_emit_dir`. -/
def emit (path : Path) (dir : Dir) : List Call := withDir path dir (emitSubdirs path dir)

end Dir

namespace MutableIndex

variable (index : MutableIndex)

/-- The calls that `to_raw_data` makes. -/
def calls : List Call := Dir.emit rootPath index.root

/-- `to_raw_data`. -/
def toRawData (emitter : HashType → Nat → List Call → List UInt8) : List UInt8 :=
  emitter index.hashType index.blockSize index.calls

/-- The directory a file is looked for in. -/
def enter : List Component → Dir → Option Dir
  | [], dir => some dir
  | .rootDir :: rest, dir => enter rest dir
  | .normal name :: rest, dir =>
      match dir.find name with
      | some (.node inside) => enter rest inside
      | _ => none
  | _ :: _, _ => none

/-- `get_file`. A file that was inserted is not found. -/
def getFile (path : Path) : Option (Bool × Nat × Hashes) := do
  let parent ← path.parent
  let dir ← enter parent.components index.root
  let name ← path.fileName
  match dir.find name with
  | some (.leaf (.remoteFile exe size hashes)) => some (exe, size, hashes)
  | _ => none

/-- `Connection::fetch_file`: what is sent to the set. The size is added to in 64 bits. -/
def fetchFile (path : Path) : Run Message := do
  let (_, size, hashes) ← Run.expect (index.getFile path) "file must exist"
  Run.assert (decide (size < 2 ^ 64 - 1)) "file must fit memory"
  if hashes.blockSize = 0 then .error (.overflow "attempt to divide by zero")
  Run.assert (decide ((size + hashes.blockSize + (2 ^ 64 - 1)) % 2 ^ 64 / hashes.blockSize =
    hashes.hashes.length)) "valid number of hashes"
  return .fetchFile path index.location size hashes

end MutableIndex

end Ciruela.Cluster
