import Ciruela.Cluster.InsertFile
import Ciruela.Foundation.Overlay

/-!
# What an index contains

The files and links of an index are those at their places below the root. An index that was
changed is written, and what is read from that has the same files and links, with those that were
put in like all others. So a file that is put into an index is written over what the index that
was read contained.
-/

namespace Ciruela.Cluster

open Foundation

/-- An item as it is read from an index that it was written to. -/
def Item.asParsed (blockSize : Nat) : Item → Item
  | remoteFile exe size hashes => remoteFile exe size ⟨blockSize, hashes.hashes⟩
  | link dest => link dest
  | localFile exe size hashes => remoteFile exe size ⟨blockSize, hashes.hashes⟩

/-- An item as it is read again is one that the parser gives. -/
theorem Item.parsed_asParsed (blockSize : Nat) (item : Item) :
    (item.asParsed blockSize).Parsed blockSize := by
  cases item <;> trivial

/-- What the parser gives is read as it is. -/
theorem Item.asParsed_of_parsed {blockSize : Nat} {item : Item} (parsed : item.Parsed blockSize) :
    item.asParsed blockSize = item := by
  cases item with
  | remoteFile exe size hashes =>
      obtain rfl : hashes.blockSize = blockSize := parsed
      rfl
  | link dest => rfl
  | localFile exe size hashes => cases parsed

/-- The file or link at a place in an index. -/
def content (parser : Parser) (data : List UInt8) (place : List FileName) : Option Item :=
  match RawIndex.intoMut parser ⟨data, 0⟩ with
  | .ok index => index.root.leafAt place
  | .error _ => none

section Read

variable {parser : Parser} {raw : RawIndex} {header : Header} {items : List (Option Entry)}
  {root : Dir} {index : MutableIndex}

/-- An index is made of the entries that were put into the tree. -/
theorem intoMut_of_fillDirs (reads : parser raw.data = some (header, items))
    (filled : fillDirs header.blockSize items = .ok root) :
    raw.intoMut parser = .ok ⟨header, root, sorted_fillDirs filled, raw.location,
      header.blockSize, header.hashType⟩ := by
  unfold RawIndex.intoMut
  rw [reads]
  dsimp only
  split
  · rename_i error failed
    rw [filled] at failed
    cases failed
  · rename_i other isOther
    obtain rfl := Except.ok.inj (filled.symm.trans isOther)
    rfl

/-- An index that was read is the tree of its entries. -/
theorem fillDirs_of_intoMut (read : raw.intoMut parser = .ok index) :
    ∃ header items, parser raw.data = some (header, items) ∧
      fillDirs header.blockSize items = .ok index.root ∧ index.blockSize = header.blockSize ∧
        index.hashType = header.hashType := by
  unfold RawIndex.intoMut at read
  split at read
  · cases read
  · rename_i header items reads
    split at read
    · cases read
    · rename_i root filled
      obtain rfl := Except.ok.inj read
      exact ⟨header, items, reads, filled, rfl, rfl⟩

/-- The content of the data is that of the tree. -/
theorem content_of_fillDirs {data : List UInt8} (reads : parser data = some (header, items))
    (filled : fillDirs header.blockSize items = .ok root) : content parser data = root.leafAt := by
  funext place
  have read : RawIndex.intoMut parser ⟨data, 0⟩ = .ok _ := intoMut_of_fillDirs reads filled
  rw [content, read]

/-- What was read from an index is what it contains, wherever it comes from. -/
theorem content_of_intoMut (read : raw.intoMut parser = .ok index) :
    content parser raw.data = index.root.leafAt := by
  obtain ⟨header, items, reads, filled, _⟩ := fillDirs_of_intoMut read
  exact content_of_fillDirs reads filled

end Read

section Parsed

variable {blockSize : Nat} {path : Path} {dir after : Dir} {item : Item}

theorem leaves_entry {Good : Item → Prop} (good : dir.Leaves Good) (name : FileName) :
    (Dir.entry dir name).Leaves Good := by
  unfold Dir.entry
  cases found : dir.find name with
  | none => trivial
  | some slot => exact good.of_find found

/-- Entering a directory keeps the leaves good. -/
theorem leaves_enterDir {Good : Item → Prop} {components : List Component} {cursor : List FileName}
    (good : dir.Leaves Good) (entered : enterDir path components dir = .ok (after, cursor)) :
    after.Leaves Good := by
  induction components generalizing dir after cursor with
  | nil =>
      cases Except.ok.inj entered
      exact good
  | cons component rest ih =>
      cases component with
      | rootDir => exact ih good entered
      | normal chunk =>
          have inside := leaves_entry good chunk
          rw [enterDir] at entered
          split at entered
          · cases entered
          · rename_i inner isEntry
            rw [isEntry] at inside
            cases further : enterDir path rest inner with
            | error error =>
                rw [further] at entered
                cases entered
            | ok result =>
                rw [further] at entered
                cases Except.ok.inj entered
                have later : (Slot.node result.1).Leaves Good := ih inside further
                exact good.put later chunk
      | _ => cases entered

/-- Inserting a good item keeps the leaves good. -/
theorem leaves_insertAt {Good : Item → Prop} (good : dir.Leaves Good) (name : FileName)
    (isGood : Good item) (cursor : List FileName) :
    (insertAt name item cursor dir).Leaves Good := by
  induction cursor generalizing dir with
  | nil =>
      have inner : (Slot.leaf item : Slot FileName Item).Leaves Good := isGood
      exact good.put inner name
  | cons chunk rest ih =>
      rw [insertAt]
      split
      · rename_i inside found
        have later : (Slot.node (insertAt name item rest inside)).Leaves Good :=
          ih (good.of_find found)
        exact good.put later chunk
      · exact good

/-- Filling in an entry keeps the leaves as the parser gives them. -/
theorem leaves_fillEntry {state next : Dir × List FileName} {entry : Option Entry}
    (good : state.1.Leaves (Item.Parsed blockSize))
    (filled : fillEntry blockSize state entry = .ok next) :
    next.1.Leaves (Item.Parsed blockSize) := by
  have added : ∀ {path : Path} {item : Item}, item.Parsed blockSize →
      addItem state path item = .ok next → next.1.Leaves (Item.Parsed blockSize) := by
    intro path item parsed isAdded
    unfold addItem at isAdded
    split at isAdded
    · cases isAdded
    · rw [← Except.ok.inj isAdded]
      exact leaves_insertAt good _ parsed _
  match entry with
  | none => cases filled
  | some (.dir path) => exact leaves_enterDir good filled
  | some (.file path exe size hashes) =>
      have parsed : (Item.remoteFile exe size ⟨blockSize, hashes⟩).Parsed blockSize := rfl
      exact added parsed filled
  | some (.link path dest) =>
      have parsed : (Item.link dest).Parsed blockSize := trivial
      exact added parsed filled

/-- All that is read from an index is of its block size. -/
theorem leaves_fillDirs {entries : List (Option Entry)} {root : Dir}
    (filled : fillDirs blockSize entries = .ok root) : root.Leaves (Item.Parsed blockSize) := by
  suffices kept : ∀ (state next : Dir × List FileName), state.1.Leaves (Item.Parsed blockSize) →
      entries.foldlM (fillEntry blockSize) state = .ok next →
        next.1.Leaves (Item.Parsed blockSize) by
    unfold fillDirs at filled
    cases folded : entries.foldlM (fillEntry blockSize) (.nil, []) with
    | error error =>
        rw [folded] at filled
        cases filled
    | ok next =>
        rw [folded] at filled
        rw [← Except.ok.inj filled]
        exact kept (.nil, []) next trivial folded
  clear filled
  induction entries with
  | nil =>
      intro state next good folded
      rwa [← Except.ok.inj folded]
  | cons entry rest ih =>
      intro state next good folded
      rw [List.foldlM_cons] at folded
      cases first : fillEntry blockSize state entry with
      | error error =>
          rw [first] at folded
          cases folded
      | ok middle =>
          rw [first] at folded
          exact ih middle next (leaves_fillEntry good first) folded

end Parsed

section Written

variable {blockSize : Nat}

theorem entry_asParsed (blockSize : Nat) (item : Item) (path : Path) :
    (item.asParsed blockSize).entry path = item.entry path := by
  cases item <;> rfl

/-- Pruning does not change how the items of a directory are listed. -/
theorem listItems_prune (path : Path) (dir : Dir) :
    Dir.listItems path (dir.prune (Item.asParsed blockSize)) = Dir.listItems path dir := by
  induction dir with
  | nil => rfl
  | leaf name item rest ih =>
      rw [Nested.prune, Dir.listItems, Dir.listItems, entry_asParsed, ih]
  | node name inside rest _ ih =>
      rw [Nested.prune]
      split
      · exact ih
      · exact ih

/-- The directories with entries are written, and the others are not. -/
theorem entries_emitSubdirs_prune (blockSize : Nat) (dir : Dir) (path current : Path)
    (more : List Call) :
    ∃ last, Call.entries current (Dir.emitSubdirs path dir ++ more) =
      Dir.listSubdirs path (dir.prune (Item.asParsed blockSize)) ++ Call.entries last more := by
  induction dir generalizing path current more with
  | nil => exact ⟨current, rfl⟩
  | leaf name item rest ih => exact ih path current more
  | node name inside rest ihInside ih =>
      by_cases empty : inside = .nil
      · obtain ⟨last, others⟩ := ih path current more
        refine ⟨last, ?_⟩
        rw [Dir.emitSubdirs, Dir.withDir, if_pos empty, List.nil_append, others, Nested.prune,
          if_pos empty]
      · obtain ⟨inner, subdirs⟩ := ihInside (below path name) (below path name)
          (Dir.emitSubdirs path rest ++ more)
        obtain ⟨last, others⟩ := ih path inner more
        refine ⟨last, ?_⟩
        rw [Dir.emitSubdirs, Dir.withDir, if_neg empty, Nested.prune, if_neg empty,
          Dir.listSubdirs, listItems_prune]
        simp only [List.append_assoc, List.cons_append, Call.entries]
        rw [entries_emitItems, subdirs, others]

/-- What the parser reads of an index that was written. -/
theorem fillDirs_calls (blockSize : Nat) (index : MutableIndex) :
    fillDirs blockSize ((Call.entries rootPath index.calls).map some) =
      .ok (index.root.prune (Item.asParsed blockSize)) := by
  by_cases empty : index.root = .nil
  · rw [MutableIndex.calls, Dir.emit, Dir.withDir, if_pos empty, empty]
    rfl
  · obtain ⟨last, subdirs⟩ := entries_emitSubdirs_prune blockSize index.root rootPath
      rootPath []
    rw [List.append_nil, Call.entries, List.append_nil] at subdirs
    have listed : Call.entries rootPath index.calls =
        Dir.list rootPath (index.root.prune (Item.asParsed blockSize)) := by
      rw [MutableIndex.calls, Dir.emit, Dir.withDir, if_neg empty, Dir.list, listItems_prune,
        List.cons_append, Call.entries, entries_emitItems, subdirs]
    rw [listed]
    exact fillDirs_list index.sorted.prune (Nested.leaves_prune (Item.parsed_asParsed blockSize))

/-- An index that was written has the files and links that were in it. -/
theorem content_toRawData {index : MutableIndex} {parser : Parser}
    {emitter : HashType → Nat → List Call → List UInt8} (reads : index.Reads parser emitter)
    (place : List FileName) :
    content parser (index.toRawData emitter) place =
      (index.root.leafAt place).map (Item.asParsed index.blockSize) := by
  rw [content_of_fillDirs reads (fillDirs_calls index.blockSize index)]
  exact index.sorted.leafAt_prune place

end Written

section Inserted

variable {Reader : Type} {hashFile : HashType → Nat → Reader → Option (Nat × Hashes)}
  {index after : MutableIndex} {path : Path} {file : Reader} {executable : Bool}

/-- The names of a path. -/
def namesOf (path : Path) : List FileName :=
  path.components.filterMap fun
    | .normal name => some name
    | _ => none

/-- The names of a path that leads along them. -/
theorem namesOf_of_leads {names : List FileName} (leads : Leads path names) :
    namesOf path = names := by
  rw [namesOf, leads]
  simp [List.filterMap_map]

/-- A path that goes up is not taken. -/
theorem plain_of_insertFile {fname : FileName} {item : Item} {above : List Component}
    {dir after : Dir} (inserted : Dir.insertFile fname item above dir = (after, .ok ())) :
    .parentDir ∉ above := by
  induction above generalizing dir after with
  | nil => exact List.not_mem_nil
  | cons component rest ih =>
      cases component with
      | rootDir => exact fun member => ih inserted (by simpa using member)
      | normal name =>
          obtain ⟨next, inner, _, further, _⟩ := insertFile_cons inserted
          exact fun member => ih further (by simpa using member)
      | _ => cases (Prod.mk.inj inserted).2

/-- What an entry contains was there before. -/
theorem leafAt_of_entry {dir next : Dir} {name : FileName}
    (isEntry : Dir.entry dir name = .node next) (place : List FileName) :
    dir.leafAt (name :: place) = next.leafAt place := by
  rw [Nested.leafAt_cons]
  rcases Dir.entry_eq_node_iff.mp isEntry with found | ⟨found, rfl⟩
  · rw [found]
    rfl
  · rw [found]
    cases place <;> rfl

/-- A file that is inserted is written over the tree. -/
theorem leafAt_dirInsertFile {fname : FileName} {item : Item} {names : List FileName}
    {dir after : Dir}
    (inserted : Dir.insertFile fname item (names.map .normal) dir = (after, .ok ())) :
    after.leafAt = overlay (names ++ [fname], some item) dir.leafAt := by
  funext place
  induction names generalizing dir after place with
  | nil =>
      rw [← (Prod.mk.inj inserted).1]
      cases place with
      | nil => rfl
      | cons first place =>
          rw [overlay, Nested.leafAt_cons, Nested.leafAt_cons, Nested.find_put]
          by_cases same : first = fname
          · cases place with
            | nil => simp [same, Slot.leafAt, Slot.lookup]
            | cons second place => simp [same, Slot.leafAt, Slot.lookup]
          · have apart : ¬ [fname] <+: first :: place := fun isPrefix =>
              same (List.cons_prefix_cons.mp isPrefix).1.symm
            simp [same, apart]
  | cons name names ih =>
      obtain ⟨next, inner, isEntry, further, rfl⟩ := insertFile_cons inserted
      cases place with
      | nil => rfl
      | cons first place =>
          by_cases same : first = name
          · subst same
            have below := ih further place
            have isNow : (dir.put first (.node inner)).leafAt (first :: place) =
                inner.leafAt place := by
              rw [Nested.leafAt_cons, Nested.find_put, if_pos rfl]
              rfl
            rw [isNow, below, overlay, overlay, leafAt_of_entry isEntry]
            simp [List.cons_prefix_cons]
          · have isNow : (dir.put name (.node inner)).leafAt (first :: place) =
                dir.leafAt (first :: place) := by
              rw [Nested.leafAt_cons, Nested.leafAt_cons, Nested.find_put, if_neg same]
            rw [isNow, overlay_elsewhere]
            intro isPrefix
            rw [List.cons_append] at isPrefix
            exact same (List.cons_prefix_cons.mp isPrefix).1.symm

/-- A file that was put into an index is over what was in it. -/
theorem leafAt_insertFile
    (inserted : index.insertFile hashFile path file executable = (after, .ok ())) :
    ∃ size hashes, hashFile index.hashType index.blockSize file = some (size, hashes) ∧
      after.hashType = index.hashType ∧ after.blockSize = index.blockSize ∧ after.root.leafAt =
        overlay (namesOf path, some (.localFile executable size hashes)) index.root.leafAt := by
  rcases insertFile_cases inserted with reached | ⟨_, failed, _⟩
  · obtain ⟨fname, above, size, hashes, absolute, isPath, _, hashed, put, sameHash, sameBlock⟩ :=
      reached
    have plain : .parentDir ∉ path.components := by
      rw [isPath]
      simpa using plain_of_insertFile put
    obtain ⟨names, leads⟩ := exists_leads absolute plain
    have isNames := leads
    rw [Leads, isPath] at isNames
    obtain ⟨front, last, rfl, rfl, isLast⟩ := List.append_eq_map_iff.mp (List.cons.inj isNames).2
    obtain rfl : last = [fname] := by
      rw [List.map_eq_cons_iff] at isLast
      obtain ⟨name, rest, rfl, same, isRest⟩ := isLast
      rw [Component.normal.inj same, List.map_eq_nil_iff.mp isRest]
    refine ⟨size, hashes, hashed, sameHash, sameBlock, ?_⟩
    rw [namesOf_of_leads leads]
    exact leafAt_dirInsertFile put
  · exact absurd rfl failed

/-- What is written after a file was put into an index contains that file over what the index
contained. -/
theorem content_insertFile {parser : Parser} {emitter : HashType → Nat → List Call → List UInt8}
    {raw : RawIndex} (read : raw.intoMut parser = .ok index)
    (inserted : index.insertFile hashFile path file executable = (after, .ok ()))
    (reads : after.Reads parser emitter) :
    ∃ size hashes, hashFile index.hashType index.blockSize file = some (size, hashes) ∧
      content parser (after.toRawData emitter) =
        overlay (namesOf path, some (.remoteFile executable size ⟨index.blockSize, hashes.hashes⟩))
          (content parser raw.data) := by
  obtain ⟨size, hashes, hashed, _, sameBlock, leaves⟩ := leafAt_insertFile inserted
  refine ⟨size, hashes, hashed, ?_⟩
  funext place
  obtain ⟨header, items, _, filled, isBlock, _⟩ := fillDirs_of_intoMut read
  have parsed := leaves_fillDirs filled
  have isRead : (index.root.leafAt place).map (Item.asParsed index.blockSize) =
      index.root.leafAt place := by
    cases found : index.root.leafAt place with
    | none => rfl
    | some item =>
        have good : item.Parsed header.blockSize := parsed.of_leafAt found
        rw [Option.map_some, isBlock, Item.asParsed_of_parsed good]
  rw [content_toRawData reads, sameBlock, leaves, content_of_intoMut read, overlay, overlay]
  split
  · rfl
  · split
    · rfl
    · exact isRead

end Inserted

end Ciruela.Cluster
