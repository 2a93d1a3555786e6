import Ciruela.Cluster.RoundTrip

/-!
# Files put into an index

A file is put at a path from the root down, and the directories that are missing on the way are
made. Where the path can be taken, nothing else changes. Where it cannot, the directories were made
already when that is found out.
-/

namespace Ciruela.Cluster

open Foundation

/-- `_insert_file`. -/
def Dir.insertFile (fname : FileName) (item : Item) :
    List Component → Dir → Dir × Except IndexUpdateError Unit
  | [], dir => (dir.put fname (.leaf item), .ok ())
  | .rootDir :: rest, dir => Dir.insertFile fname item rest dir
  | .normal name :: rest, dir =>
      match Dir.entry dir name with
      | .node next =>
          let (next, result) := Dir.insertFile fname item rest next
          (dir.put name (.node next), result)
      -- it was there before
      | .leaf _ => (dir, .error .notADirectory)
  | _ :: _, dir => (dir, .error .badPath)

/-- Inserting a file keeps the order. -/
theorem Dir.sorted_insertFile {dir : Dir} (sorted : dir.Sorted) (fname : FileName) (item : Item)
    (components : List Component) : (Dir.insertFile fname item components dir).1.Sorted := by
  induction components generalizing dir with
  | nil =>
      have inner : (Slot.leaf item : Slot FileName Item).Sorted := trivial
      exact sorted.put inner fname
  | cons component rest ih =>
      cases component with
      | rootDir => exact ih sorted
      | normal name =>
          have entry := sorted_entry sorted name
          rw [Dir.insertFile]
          split
          · rename_i next isEntry
            rw [isEntry] at entry
            have inner : (Slot.node (Dir.insertFile fname item rest next).1).Sorted := ih entry
            exact sorted.put inner name
          · exact sorted
      | _ => exact sorted

/-- `insert_file`. The size and the hashes of what is read come from another package. -/
def MutableIndex.insertFile {Reader : Type} (index : MutableIndex)
    (hashFile : HashType → Nat → Reader → Option (Nat × Hashes)) (path : Path) (file : Reader)
    (executable : Bool) : MutableIndex × Except IndexUpdateError Unit :=
  if path.isAbsolute then
    match path.fileName, path.parent with
    | some fname, some parent =>
        match hashFile index.hashType index.blockSize file with
        | none => (index, .error .read)
        | some (size, hashes) =>
            let item := .localFile executable size hashes
            let inserted := Dir.insertFile fname item parent.components index.root
            ({ index with
                root := inserted.1
                sorted := Dir.sorted_insertFile index.sorted fname item parent.components },
              inserted.2)
    | _, _ => (index, .error .badPath)
  else (index, .error .badPath)

section Places

variable {fname : FileName} {item : Item} {names place : List FileName} {dir after : Dir}

/-- One directory further down. -/
theorem insertFile_cons {name : FileName} {components : List Component}
    (inserted : Dir.insertFile fname item (.normal name :: components) dir = (after, .ok ())) :
    ∃ next inner, Dir.entry dir name = .node next ∧
      Dir.insertFile fname item components next = (inner, .ok ()) ∧
        after = dir.put name (.node inner) := by
  rw [Dir.insertFile] at inserted
  split at inserted
  · rename_i next isEntry
    obtain ⟨isAfter, isOk⟩ := Prod.mk.inj inserted
    exact ⟨next, _, isEntry, Prod.ext rfl isOk, isAfter.symm⟩
  · cases (Prod.mk.inj inserted).2

/-- What there is in an entry was there before, or there was nothing. -/
theorem lookup_of_entry {name : FileName} {next : Dir} (isEntry : Dir.entry dir name = .node next)
    (deeper : place ≠ []) : dir.lookup (name :: place) = next.lookup place := by
  rw [Nested.lookup_cons]
  rcases Dir.entry_eq_node_iff.mp isEntry with found | ⟨found, rfl⟩
  · rw [found]
    rfl
  · rw [found]
    cases place with
    | nil => exact absurd rfl deeper
    | cons first place => rfl

/-- The file is where it was put. -/
theorem lookup_insertFile
    (inserted : Dir.insertFile fname item (names.map .normal) dir = (after, .ok ())) :
    after.lookup (names ++ [fname]) = some (.leaf item) := by
  induction names generalizing dir after with
  | nil =>
      rw [← (Prod.mk.inj inserted).1, List.nil_append, Nested.lookup_cons, Nested.find_put,
        if_pos rfl]
      rfl
  | cons name names ih =>
      obtain ⟨next, inner, _, further, rfl⟩ := insertFile_cons inserted
      rw [List.cons_append, Nested.lookup_cons, Nested.find_put, if_pos rfl]
      exact ih further

/-- What is neither on the way to the file nor below it stays. -/
theorem lookup_insertFile_elsewhere
    (inserted : Dir.insertFile fname item (names.map .normal) dir = (after, .ok ()))
    (above : ¬ place <+: names ++ [fname]) (below : ¬ names ++ [fname] <+: place) :
    after.lookup place = dir.lookup place := by
  induction names generalizing dir after place with
  | nil =>
      cases place with
      | nil => exact absurd List.nil_prefix above
      | cons first place =>
          have other : first ≠ fname := by
            rintro rfl
            exact below (List.prefix_append [first] place)
          rw [← (Prod.mk.inj inserted).1, Nested.lookup_cons, Nested.lookup_cons,
            Nested.find_put, if_neg other]
  | cons name names ih =>
      obtain ⟨next, inner, isEntry, further, rfl⟩ := insertFile_cons inserted
      cases place with
      | nil => exact absurd List.nil_prefix above
      | cons first place =>
          by_cases same : first = name
          · subst same
            rw [List.cons_append, List.cons_prefix_cons] at above below
            have deeper : place ≠ [] := by
              rintro rfl
              exact above ⟨rfl, List.nil_prefix⟩
            rw [Nested.lookup_cons, Nested.find_put, if_pos rfl, lookup_of_entry isEntry deeper]
            exact ih further (fun isPrefix => above ⟨rfl, isPrefix⟩)
              (fun isPrefix => below ⟨rfl, isPrefix⟩)
          · rw [Nested.lookup_cons, Nested.lookup_cons, Nested.find_put, if_neg same]

end Places

section Paths

variable {Reader : Type} {hashFile : HashType → Nat → Reader → Option (Nat × Hashes)}
  {index after : MutableIndex} {path : Path} {file : Reader} {executable : Bool}

/-- A path that `insert_file` goes down: what it enters, and the name at the end. -/
theorem components_of_fileName {fname : FileName} (absolute : path.isAbsolute = true)
    (named : path.fileName = some fname) :
    ∃ parent above, path.parent = some parent ∧ parent.components = .rootDir :: above ∧
      path.components = .rootDir :: (above ++ [.normal fname]) ∧
        ∀ component ∈ above, component = .parentDir ∨ ∃ name, component = .normal name := by
  obtain ⟨rest, isRest, down⟩ := Path.components_of_isAbsolute absolute
  have last := Path.fileName_eq_some_iff.mp named
  rw [isRest] at last
  have deep : rest ≠ [] := by
    rintro rfl
    cases last
  rw [List.getLast?_cons_of_ne_nil deep] at last
  obtain ⟨above, isAbove⟩ := List.getLast?_eq_some_iff.mp last
  obtain ⟨parent, isParent, _⟩ := Path.parent_of_isAbsolute absolute (by
    rw [isRest, isAbove]
    simp)
  refine ⟨parent, above, isParent, ?_, by rw [isRest, isAbove], fun component member => ?_⟩
  · rw [Path.components_parent isParent, isRest, isAbove, ← List.cons_append,
      List.dropLast_concat]
  · exact down component (isAbove ▸ List.mem_append_left _ member)

/-- `insert_file` goes down to the directory, or fails before it changes anything. -/
theorem insertFile_cases {result : Except IndexUpdateError Unit}
    (called : index.insertFile hashFile path file executable = (after, result)) :
    (∃ fname above size hashes, path.isAbsolute = true ∧
      path.components = .rootDir :: (above ++ [.normal fname]) ∧
        (∀ component ∈ above, component = .parentDir ∨ ∃ name, component = .normal name) ∧
          hashFile index.hashType index.blockSize file = some (size, hashes) ∧
            Dir.insertFile fname (.localFile executable size hashes) above index.root =
              (after.root, result) ∧
            after.hashType = index.hashType ∧ after.blockSize = index.blockSize) ∨
    (after = index ∧ result ≠ .ok () ∧
      ¬ (path.isAbsolute = true ∧ path.fileName.isSome ∧
        (hashFile index.hashType index.blockSize file).isSome)) := by
  unfold MutableIndex.insertFile at called
  split at called
  · rename_i absolute
    cases named : path.fileName with
    | none =>
        rw [named] at called
        obtain ⟨rfl, rfl⟩ := Prod.mk.inj called
        exact .inr ⟨rfl, by simp, by simp⟩
    | some fname =>
        obtain ⟨parent, above, isParent, isAbove, isPath, down⟩ :=
          components_of_fileName absolute named
        rw [named, isParent] at called
        dsimp only at called
        cases hashed : hashFile index.hashType index.blockSize file with
        | none =>
            rw [hashed] at called
            obtain ⟨rfl, rfl⟩ := Prod.mk.inj called
            exact .inr ⟨rfl, by simp, by simp⟩
        | some content =>
            rw [hashed] at called
            obtain ⟨rfl, rfl⟩ := Prod.mk.inj called
            refine .inl ⟨fname, above, content.1, content.2, absolute, isPath, down, rfl, ?_, rfl,
              rfl⟩
            dsimp only
            rw [isAbove]
            rfl
  · rename_i relative
    obtain ⟨rfl, rfl⟩ := Prod.mk.inj called
    exact .inr ⟨rfl, by simp, fun reached => relative reached.1⟩

/-- A path that is absolute and never goes up. -/
theorem exists_leads (absolute : path.isAbsolute = true) (plain : .parentDir ∉ path.components) :
    ∃ names, Leads path names := by
  obtain ⟨rest, isRest, down⟩ := Path.components_of_isAbsolute absolute
  suffices named : ∃ names : List FileName, rest = names.map .normal by
    obtain ⟨names, isNames⟩ := named
    exact ⟨names, by rw [Leads, isRest, isNames]⟩
  rw [isRest] at plain
  clear isRest
  induction rest with
  | nil => exact ⟨[], rfl⟩
  | cons component rest ih =>
      obtain ⟨names, isNames⟩ := ih
        (fun member => plain (by
          rcases List.mem_cons.mp member with isRoot | later
          · cases isRoot
          · exact .tail _ (.tail _ later)))
        (fun other member => down other (.tail _ member))
      rcases down component (.head _) with rfl | ⟨name, rfl⟩
      · exact absurd (.tail _ (.head _)) plain
      · exact ⟨name :: names, by rw [isNames, List.map_cons]⟩

/-- What `insert_file` changes when it succeeds. -/
theorem insertFile_frame (absolute : path.isAbsolute = true)
    (plain : .parentDir ∉ path.components)
    (inserted : index.insertFile hashFile path file executable = (after, .ok ())) :
    ∃ names size hashes, Leads path names ∧
      hashFile index.hashType index.blockSize file = some (size, hashes) ∧
        after.root.lookup names = some (.leaf (.localFile executable size hashes)) ∧
          (∀ above, above <+: names → above ≠ names →
            ∃ inside, after.root.lookup above = some (.node inside)) ∧
          (∀ place, ¬ place <+: names → ¬ names <+: place →
            after.root.lookup place = index.root.lookup place) ∧
          ∀ place slot, after.root.lookup place = some slot → index.root.lookup place = none →
            place <+: names := by
  rcases insertFile_cases inserted with reached | ⟨_, failed, _⟩
  · obtain ⟨fname, components, size, hashes, _, isPath, _, hashed, inserted, _⟩ := reached
    obtain ⟨names, leads⟩ := exists_leads absolute plain
    have isNames := leads
    rw [Leads, isPath] at isNames
    obtain ⟨above, last, rfl, rfl, isLast⟩ :=
      List.append_eq_map_iff.mp (List.cons.inj isNames).2
    obtain rfl : last = [fname] := by
      rw [List.map_eq_cons_iff] at isLast
      obtain ⟨name, rest, rfl, same, isRest⟩ := isLast
      rw [Component.normal.inj same, List.map_eq_nil_iff.mp isRest]
    have isThere := lookup_insertFile inserted
    refine ⟨above ++ [fname], size, hashes, leads, hashed, isThere, ?_,
      fun place => lookup_insertFile_elsewhere inserted, ?_⟩
    · rintro upper ⟨rest, isNames⟩ proper
      rw [← isNames] at isThere proper
      exact Nested.exists_node_of_lookup_append isThere fun none => proper (by simp [none])
    · intro place slot found missing
      by_contra notAbove
      by_cases below : above ++ [fname] <+: place
      · obtain ⟨rest, rfl⟩ := below
        have deeper : rest ≠ [] := by
          rintro rfl
          exact notAbove (by simp)
        rw [Nested.lookup_append_of_leaf isThere deeper] at found
        cases found
      · rw [lookup_insertFile_elsewhere inserted notAbove below, missing] at found
        cases found
  · exact absurd rfl failed

end Paths

namespace Sample

/-- What is hashed of an empty file. -/
def hashFile (_ : HashType) (blockSize : Nat) (data : List UInt8) : Option (Nat × Hashes) :=
  if data = [] then some (0, ⟨blockSize, []⟩) else none

/-- An index of a tree, with the header of the examples. -/
def index (root : Dir) (sorted : root.Sorted) : MutableIndex :=
  ⟨header, root, sorted, 0, header.blockSize, header.hashType⟩

/-- The index of a small image. -/
def small : MutableIndex := index image (by decide)

end Sample

/-- A file is put into a directory that is not there yet. -/
theorem insertFile_frame_new :
    let path := Path.ofText "/var/motd".toList
    let after := (Sample.small.insertFile Sample.hashFile path [] false).1
    ∃ names size hashes, Leads path names ∧
      Sample.hashFile Sample.small.hashType Sample.small.blockSize [] = some (size, hashes) ∧
        after.root.lookup names = some (.leaf (.localFile false size hashes)) ∧
          (∀ above, above <+: names → above ≠ names →
            ∃ inside, after.root.lookup above = some (.node inside)) ∧
          (∀ place, ¬ place <+: names → ¬ names <+: place →
            after.root.lookup place = Sample.small.root.lookup place) ∧
          ∀ place slot, after.root.lookup place = some slot →
            Sample.small.root.lookup place = none → place <+: names :=
  insertFile_frame (by decide) (by decide) (Prod.ext rfl (by decide))

section Failing

/-- The names of a path before anything else in it. -/
def leading : List Component → List FileName
  | .normal name :: rest => name :: leading rest
  | _ => []

/-- Going down these names leaves nothing behind that is written. What is missing is an empty
directory, which is left out, in one that is written already. -/
def Dir.Keeps : List FileName → Dir → Prop
  | [], _ => True
  | name :: rest, dir =>
      match dir.find name with
      | some (.node inside) => Dir.Keeps rest inside
      | some (.leaf _) => True
      | none => rest = [] ∧ dir ≠ .nil

/-- The call for an entry in the first loop. -/
def itemOf (entry : FileName × Slot FileName Item) : List Call :=
  match entry.2 with
  | .leaf item => [item.call entry.1]
  | .node _ => []

/-- The calls for an entry in the second loop. -/
def subdirOf (path : Path) (entry : FileName × Slot FileName Item) : List Call :=
  match entry.2 with
  | .leaf _ => []
  | .node inside => Dir.emit (below path entry.1) inside

variable {path : Path} {name : FileName} {dir next : Dir}

/-- The items of a directory are emitted one after another. -/
theorem emitItems_eq (dir : Dir) : Dir.emitItems dir = dir.entries.flatMap itemOf := by
  induction dir with
  | nil => rfl
  | leaf name item rest ih => exact congrArg (item.call name :: ·) ih
  | node name inside rest _ ih => exact ih

/-- The directories in a directory are emitted one after another. -/
theorem emitSubdirs_eq (path : Path) (dir : Dir) :
    Dir.emitSubdirs path dir = dir.entries.flatMap (subdirOf path) := by
  induction dir with
  | nil => rfl
  | leaf name item rest ih => exact ih
  | node name inside rest _ ih => exact congrArg (Dir.emit (below path name) inside ++ ·) ih

/-- A directory with entries is started, then its items are emitted, then what is in it. -/
theorem emit_of_ne_nil (path : Path) (some : dir ≠ .nil) :
    Dir.emit path dir = .startDir path :: Dir.emitItems dir ++ Dir.emitSubdirs path dir := by
  rw [Dir.emit, Dir.withDir, if_neg some]

/-- A directory put in place of another is written in its place. -/
theorem emit_put (sorted : dir.Sorted) (isEntry : Dir.entry dir name = .node next) (path : Path) :
    ∃ front back,
      Dir.emitSubdirs path dir = front ++ Dir.emit (below path name) next ++ back ∧
        ∀ inside, Dir.emitItems (dir.put name (.node inside)) = Dir.emitItems dir ∧
          Dir.emitSubdirs path (dir.put name (.node inside)) =
            front ++ Dir.emit (below path name) inside ++ back := by
  obtain ⟨before, after, entries, put⟩ := sorted.entries_put name
  refine ⟨before.flatMap (subdirOf path), after.flatMap (subdirOf path), ?_, fun inside =>
    ⟨?_, ?_⟩⟩
  · rw [emitSubdirs_eq, entries]
    rcases Dir.entry_eq_node_iff.mp isEntry with found | ⟨found, rfl⟩
    · simp [found, subdirOf]
    · simp [found, Dir.emit, Dir.withDir]
  · rw [emitItems_eq, emitItems_eq, entries, put]
    rcases Dir.entry_eq_node_iff.mp isEntry with found | ⟨found, _⟩
    · simp [found, itemOf]
    · simp [found, itemOf]
  · rw [emitSubdirs_eq, put]
    simp [subdirOf]

/-- Going down one name keeps what is written if and only if the directory has entries and going
further does. -/
theorem keeps_cons (isEntry : Dir.entry dir name = .node next) (names : List FileName) :
    Dir.Keeps (name :: names) dir ↔ dir ≠ .nil ∧ Dir.Keeps names next := by
  rw [Dir.Keeps]
  rcases Dir.entry_eq_node_iff.mp isEntry with found | ⟨found, rfl⟩
  · have some : dir ≠ .nil := by
      rintro rfl
      cases found
    simp [found, some]
  · rw [found]
    cases names <;> simp [Dir.Keeps]

/-- What an error leaves behind, and whether it is written. -/
theorem emit_insertFile {fname : FileName} {item : Item} {above : List Component} {after : Dir}
    {error : IndexUpdateError} (sorted : dir.Sorted)
    (down : ∀ component ∈ above, component = .parentDir ∨ ∃ name, component = .normal name)
    (failed : Dir.insertFile fname item above dir = (after, .error error)) (path : Path) :
    (Dir.Keeps (leading above) dir → Dir.emit path after = Dir.emit path dir) ∧
      (¬ Dir.Keeps (leading above) dir →
        (Dir.emit path dir).length < (Dir.emit path after).length) := by
  induction above generalizing dir after path with
  | nil => cases (Prod.mk.inj failed).2
  | cons component rest ih =>
      rcases down component (.head _) with rfl | ⟨name, rfl⟩
      · obtain ⟨rfl, _⟩ := Prod.mk.inj failed
        exact ⟨fun _ => rfl, fun lost => absurd trivial lost⟩
      · rw [Dir.insertFile] at failed
        split at failed
        · rename_i next isEntry
          rcases called : Dir.insertFile fname item rest next with ⟨inside, result⟩
          rw [called] at failed
          obtain ⟨rfl, rfl⟩ := Prod.mk.inj failed
          have inner := sorted_entry sorted name
          rw [isEntry] at inner
          obtain ⟨same, longer⟩ := ih inner (fun other member => down other (.tail _ member)) called
            (below path name)
          obtain ⟨front, back, before, put⟩ := emit_put sorted isEntry path
          obtain ⟨items, subdirs⟩ := put inside
          have some := Nested.put_ne_nil name (.node inside) dir
          rw [leading, keeps_cons isEntry, emit_of_ne_nil path some, items, subdirs]
          constructor
          · rintro ⟨full, kept⟩
            rw [emit_of_ne_nil path full, same kept, before]
          · intro lost
            by_cases empty : dir = .nil
            · rw [empty]
              exact Nat.succ_pos _
            · have deeper := longer fun kept => lost ⟨empty, kept⟩
              rw [emit_of_ne_nil path empty, before]
              simp only [List.length_append, List.length_cons]
              omega
        · rename_i found isEntry
          obtain ⟨rfl, _⟩ := Prod.mk.inj failed
          have kept : Dir.Keeps (leading (.normal name :: rest)) dir := by
            rw [leading, Dir.Keeps, Dir.entry_eq_leaf_iff.mp isEntry]
            trivial
          exact ⟨fun _ => rfl, fun lost => absurd kept lost⟩

end Failing

section Unchanged

variable {Reader : Type} {hashFile : HashType → Nat → Reader → Option (Nat × Hashes)}
  {index after : MutableIndex} {path : Path} {file : Reader} {executable : Bool}
  {parser : Parser} {emitter : HashType → Nat → List Call → List UInt8}

/-- The parser reads what the emitter writes of this index. -/
def MutableIndex.Reads (index : MutableIndex) (parser : Parser)
    (emitter : HashType → Nat → List Call → List UInt8) : Prop :=
  parser (index.toRawData emitter) =
    some (⟨index.hashType, index.blockSize⟩, (Call.entries rootPath index.calls).map some)

/-- Indexes written alike have as many calls. -/
theorem length_calls_of_toRawData (reads : index.Reads parser emitter)
    (readsAfter : after.Reads parser emitter)
    (same : after.toRawData emitter = index.toRawData emitter) :
    after.calls.length = index.calls.length := by
  unfold MutableIndex.Reads at reads readsAfter
  rw [same, reads] at readsAfter
  have lengths := congrArg (fun read => read.2.length) (Option.some.inj readsAfter)
  simp only [List.length_map, length_entries] at lengths
  exact lengths.symm

/-- An error leaves the index as it is written if and only if the way to the first `..` does. -/
theorem insertFile_unchanged_iff {error : IndexUpdateError} (reads : index.Reads parser emitter)
    (readsAfter : after.Reads parser emitter)
    (failed : index.insertFile hashFile path file executable = (after, .error error)) :
    after.toRawData emitter = index.toRawData emitter ↔
      (path.isAbsolute = true → path.fileName.isSome →
        (hashFile index.hashType index.blockSize file).isSome →
          ∀ parent, path.parent = some parent →
            Dir.Keeps (leading parent.components.tail) index.root) := by
  rcases insertFile_cases failed with reached | ⟨rfl, _, notReached⟩
  · obtain ⟨fname, above, size, hashes, absolute, isPath, down, hashed, inserted, sameHash,
      sameBlock⟩ := reached
    have named : path.fileName = some fname := by
      rw [Path.fileName_eq_some_iff, isPath, ← List.cons_append]
      exact List.getLast?_concat
    obtain ⟨parent, others, isParent, isAbove, isOthers, _⟩ :=
      components_of_fileName absolute named
    obtain rfl : above = others :=
      List.append_cancel_right (List.cons.inj (isPath.symm.trans isOthers)).2
    obtain ⟨kept, longer⟩ := emit_insertFile index.sorted down inserted rootPath
    constructor
    · intro same _ _ _ other isOther
      obtain rfl := Option.some.inj (isParent.symm.trans isOther)
      rw [isAbove]
      by_contra lost
      exact (longer lost).ne' (length_calls_of_toRawData reads readsAfter same)
    · intro keeps
      have way := keeps absolute (by simp [named]) (by simp [hashed]) parent isParent
      rw [isAbove] at way
      have calls : after.calls = index.calls := kept way
      rw [MutableIndex.toRawData, MutableIndex.toRawData, calls, sameHash, sameBlock]
  · refine ⟨fun _ absolute named hashed => ?_, fun _ => rfl⟩
    exact absurd ⟨absolute, named, hashed⟩ notReached

end Unchanged

namespace Sample

/-- It is enough here to write how many calls there were. -/
def emitter (_ : HashType) (_ : Nat) (calls : List Call) : List UInt8 :=
  [UInt8.ofNat calls.length]

/-- A parser that knows these indexes. -/
def parser (written : List MutableIndex) : Parser := fun bytes =>
  (written.find? fun index => index.toRawData emitter = bytes).map fun index =>
    (header, (Call.entries rootPath index.calls).map some)

/-- A path that goes up again before a file in the root. -/
def up (text : String) : Path := Path.ofText (text ++ "/../motd").toList

/-- The index after an insertion at a path that leads above the root. -/
def climbing (text : String) : MutableIndex := (small.insertFile hashFile (up text) [] false).1

end Sample

/-- The directory that the path leaves again is there. -/
theorem insertFile_unchanged_there :
    (Sample.climbing "/etc").toRawData Sample.emitter = Sample.small.toRawData Sample.emitter := by
  have reads : ∀ index ∈ [Sample.small, Sample.climbing "/etc"],
      index.Reads (Sample.parser [Sample.small, Sample.climbing "/etc"]) Sample.emitter := by
    unfold MutableIndex.Reads
    decide
  have failed : Sample.small.insertFile Sample.hashFile (Sample.up "/etc") [] false =
      (Sample.climbing "/etc", .error .badPath) := Prod.ext rfl (by decide)
  refine (insertFile_unchanged_iff (reads _ (.head _)) (reads _ (.tail _ (.head _)))
    failed).mpr fun _ _ _ parent isParent => ?_
  have isEtc : (Sample.up "/etc").parent = some (Path.ofText "/etc/..".toList) := by decide
  obtain rfl := Option.some.inj (isEtc.symm.trans isParent)
  have isLeading : leading (Path.ofText "/etc/..".toList).components.tail = [Sample.etc] := by
    decide
  rw [isLeading]
  trivial

/-- The directories that the path leaves again are made, and one of them is written. -/
theorem insertFile_leaves_directories :
    ¬ ∀ (hashFile : HashType → Nat → List UInt8 → Option (Nat × Hashes)) (parser : Parser)
      (emitter : HashType → Nat → List Call → List UInt8) (index after : MutableIndex)
      (path : Path) (file : List UInt8) (executable : Bool) (error : IndexUpdateError),
      index.Reads parser emitter → after.Reads parser emitter →
      index.insertFile hashFile path file executable = (after, .error error) →
      after.toRawData emitter = index.toRawData emitter := by
  intro unchanged
  have reads : ∀ index ∈ [Sample.small, Sample.climbing "/var/lib"],
      index.Reads (Sample.parser [Sample.small, Sample.climbing "/var/lib"]) Sample.emitter := by
    unfold MutableIndex.Reads
    decide
  have failed : Sample.small.insertFile Sample.hashFile (Sample.up "/var/lib") [] false =
      (Sample.climbing "/var/lib", .error .badPath) := Prod.ext rfl (by decide)
  have same := unchanged _ _ _ _ _ _ _ _ _ (reads _ (.head _)) (reads _ (.tail _ (.head _))) failed
  exact absurd same (by decide)

end Ciruela.Cluster
