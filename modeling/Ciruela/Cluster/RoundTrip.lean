import Ciruela.Cluster.Download

/-!
# Indexes read and written again

An index lists a directory, then the files and links in it by name, and then the directories in it
in the same way. Reading it and writing it again leaves out the directories without entries.
-/

namespace Ciruela.Cluster

open Foundation

/-- The entry of a file or a link. -/
def Item.entry (path : Path) : Item → Entry
  | remoteFile exe size hashes => .file path exe size hashes.hashes
  | link dest => .link path dest
  | localFile exe size hashes => .file path exe size hashes.hashes

/-- An item comes from an index with this block size. -/
def Item.Parsed (blockSize : Nat) : Item → Prop
  | remoteFile _ _ hashes => hashes.blockSize = blockSize
  | link _ => True
  | localFile _ _ _ => False

instance (blockSize : Nat) : (item : Item) → Decidable (item.Parsed blockSize)
  | .remoteFile _ _ hashes => inferInstanceAs (Decidable (hashes.blockSize = blockSize))
  | .link _ => .isTrue trivial
  | .localFile _ _ _ => .isFalse id

namespace Dir

/-- The files and links of one directory as the parser gives them. -/
def listItems (path : Path) : Dir → List Entry
  | .nil => []
  | .leaf name item rest => item.entry (below path name) :: listItems path rest
  | .node _ _ rest => listItems path rest

/-- The directories below one as the parser gives them, each with all that is inside. -/
def listSubdirs : Path → Dir → List Entry
  | _, .nil => []
  | path, .leaf _ _ rest => listSubdirs path rest
  | path, .node name inside rest =>
      .dir (below path name) :: (listItems (below path name) inside ++
        (listSubdirs (below path name) inside ++ listSubdirs path rest))

/-- The entries of an index, one for every directory. -/
def list (path : Path) (dir : Dir) : List Entry :=
  .dir path :: (listItems path dir ++ listSubdirs path dir)

/-- No directory in this one is without entries. -/
def NoneEmpty : Dir → Prop
  | .nil => True
  | .leaf _ _ rest => NoneEmpty rest
  | .node _ inside rest => (inside ≠ .nil ∧ NoneEmpty inside) ∧ NoneEmpty rest

/-- Every directory holds a file, a link or a directory. -/
def Full (dir : Dir) : Prop := dir ≠ .nil ∧ NoneEmpty dir

end Dir

/-- What the parser reads of what the emitter writes when it is called so. -/
def Call.entries : Path → List Call → List Entry
  | _, [] => []
  | _, startDir path :: rest => .dir path :: entries path rest
  | current, addFile name exe size hashes :: rest =>
      .file (below current name) exe size hashes.hashes :: entries current rest
  | current, addSymlink name dest :: rest => .link (below current name) dest :: entries current rest

section Places

variable {path : Path} {names : List FileName} {name : FileName}

/-- An absolute path through these directories. -/
def Leads (path : Path) (names : List FileName) : Prop :=
  path.components = .rootDir :: names.map .normal

/-- The path of the root leads to the root. -/
theorem leads_root : Leads rootPath [] := by
  unfold Leads
  decide

/-- A path below leads one name further. -/
theorem leads_below (leads : Leads path names) (name : FileName) :
    Leads (below path name) (names ++ [name]) := by
  unfold Leads below
  rw [Path.components_join_fileName, leads]
  simp

/-- The file name of a path below. -/
theorem fileName_below (leads : Leads path names) (name : FileName) :
    (below path name).fileName = some name := by
  rw [Path.fileName_eq_some_iff, leads_below leads name, List.map_append, ← List.cons_append]
  exact List.getLast?_concat

end Places

section Filling

/-- A fold over two lists is one over the first and then over the second. -/
theorem foldlM_append_of_ok {State Input Error : Type} {step : State → Input → Except Error State}
    {state middle : State} {front : List Input} (back : List Input)
    (first : front.foldlM step state = .ok middle) :
    (front ++ back).foldlM step state = back.foldlM step middle := by
  rw [List.foldlM_append, first]
  rfl

theorem foldlM_cons_of_ok {State Input Error : Type} {step : State → Input → Except Error State}
    {state middle : State} {input : Input} (rest : List Input)
    (first : step state input = .ok middle) :
    (input :: rest).foldlM step state = rest.foldlM step middle := by
  rw [List.foldlM_cons, first]
  rfl

variable {blockSize : Nat} {path : Path} {names : List FileName} {name : FileName}
  {dir content : Dir}

/-- A directory that is not there yet is made where it belongs. -/
theorem enterDir_eq (path : Path) (isAt : dir.lookup names = some (.node content))
    (missing : content.find name = none) :
    enterDir path ((names ++ [name]).map .normal) dir =
      .ok (Nested.graft (names ++ [name]) .nil dir, names ++ [name]) := by
  induction names generalizing dir with
  | nil =>
      obtain rfl := Slot.node.inj (Option.some.inj isAt)
      have isEntry : Dir.entry dir name = .node .nil :=
        Dir.entry_eq_node_iff.mpr (.inr ⟨missing, rfl⟩)
      rw [List.nil_append, List.map_cons, enterDir, isEntry]
      rfl
  | cons first names ih =>
      rw [Nested.lookup_cons] at isAt
      obtain ⟨slot, found, isAt⟩ := Option.bind_eq_some_iff.mp isAt
      cases slot with
      | leaf item => cases names <;> cases isAt
      | node inner =>
          have isEntry : Dir.entry dir first = .node inner :=
            Dir.entry_eq_node_iff.mpr (.inl found)
          rw [List.cons_append, List.map_cons, enterDir, isEntry, Nested.graft,
            Nested.child_of_find found]
          simp only [ih isAt]
          rfl

/-- An item is put where the cursor is. -/
theorem insertAt_eq (name : FileName) (item : Item)
    (isAt : dir.lookup names = some (.node content)) :
    insertAt name item names dir = Nested.graft names (content.put name (.leaf item)) dir := by
  induction names generalizing dir with
  | nil =>
      obtain rfl := Slot.node.inj (Option.some.inj isAt)
      rfl
  | cons first names ih =>
      rw [Nested.lookup_cons] at isAt
      obtain ⟨slot, found, isAt⟩ := Option.bind_eq_some_iff.mp isAt
      cases slot with
      | leaf item => cases names <;> cases isAt
      | node inner =>
          rw [insertAt, found, Nested.graft, Nested.child_of_find found]
          simp only [ih isAt]

/-- An item is filled in where the cursor is. -/
theorem fillEntry_item {item : Item} (leads : Leads path names) (parsed : item.Parsed blockSize) :
    fillEntry blockSize (dir, names) (some (item.entry (below path name))) =
      .ok (insertAt name item names dir, names) := by
  have isName := fileName_below leads name
  cases item with
  | remoteFile exe size hashes =>
      obtain rfl : hashes.blockSize = blockSize := parsed
      simp only [Item.entry, fillEntry, addItem, isName]
  | link dest => simp only [Item.entry, fillEntry, addItem, isName]
  | localFile exe size hashes => cases parsed

/-- A directory that is new is filled in, and the cursor moves there. -/
theorem fillEntry_dir (blockSize : Nat) (leads : Leads path names) (cursor : List FileName)
    (isAt : dir.lookup names = some (.node content)) (missing : content.find name = none) :
    fillEntry blockSize (dir, cursor) (some (.dir (below path name))) =
      .ok (Nested.graft (names ++ [name]) .nil dir, names ++ [name]) := by
  rw [fillEntry, leads_below leads name, enterDir]
  exact enterDir_eq _ isAt missing

/-- The files and links of a directory are put into it. -/
theorem fill_listItems (leads : Leads path names) {items : Dir}
    (parsed : items.Leaves (Item.Parsed blockSize)) (sorted : dir.Sorted)
    (sortedContent : content.Sorted) (isAt : dir.lookup names = some (.node content)) :
    ((Dir.listItems path items).map some).foldlM (fillEntry blockSize) (dir, names) =
      .ok (Nested.graft names (Nested.putSome Slot.isLeaf content items) dir, names) := by
  induction items generalizing dir content with
  | nil =>
      rw [Nested.putSome, sorted.graft_self isAt]
      rfl
  | leaf name item rest ih =>
      have inner : (Slot.leaf item : Slot FileName Item).Sorted := trivial
      have later := sortedContent.put inner name
      rw [Dir.listItems, List.map_cons, List.foldlM_cons, fillEntry_item leads parsed.1,
        insertAt_eq name item isAt]
      refine (ih parsed.2 (sorted.graft later names) later (Nested.lookup_graft ..)).trans ?_
      rw [Nested.graft_graft]
      rfl
  | node name inside rest _ ih => exact ih parsed.2 sorted sortedContent isAt

/-- The directories of a directory are put into it, where there is nothing under their names. -/
theorem fill_listSubdirs (leads : Leads path names) {items : Dir}
    (parsed : items.Leaves (Item.Parsed blockSize)) (sortedItems : items.Sorted)
    (sorted : dir.Sorted) (sortedContent : content.Sorted)
    (isAt : dir.lookup names = some (.node content))
    (missing : ∀ name inside, items.find name = some (.node inside) → content.find name = none)
    (cursor : List FileName) :
    ∃ last, ((Dir.listSubdirs path items).map some).foldlM (fillEntry blockSize) (dir, cursor) =
      .ok (Nested.graft names (Nested.putSome (fun slot => !slot.isLeaf) content items) dir,
        last) := by
  induction items generalizing path names dir content cursor with
  | nil =>
      rw [Nested.putSome, sorted.graft_self isAt]
      exact ⟨cursor, rfl⟩
  | leaf name item rest ih =>
      refine ih leads parsed.2 sortedItems.2 sorted sortedContent isAt ?_ cursor
      intro other inside found
      refine missing other inside ?_
      have later := sortedItems.1 other (Nested.mem_keys_of_find found)
      rw [Nested.find, if_neg (ne_of_gt later), found]
  | node name inside rest ihInside ih =>
      obtain ⟨below, sortedInside, sortedRest⟩ := sortedItems
      have place := leads_below leads name
      have here : content.find name = none := missing name inside (by rw [Nested.find, if_pos rfl])
      -- the directory is made, and what is in it is put there
      have entered := fillEntry_dir blockSize leads cursor isAt here
      have empty : Nested.Sorted (.nil : Dir) := trivial
      have files := fill_listItems place parsed.1 (sorted.graft empty (names ++ [name])) empty
        (Nested.lookup_graft (names ++ [name]) .nil dir)
      rw [Nested.graft_graft] at files
      have sortedFiles := sortedInside.putSome Slot.isLeaf empty
      obtain ⟨inner, subdirs⟩ := ihInside place parsed.1 sortedInside
        (sorted.graft sortedFiles (names ++ [name])) sortedFiles (Nested.lookup_graft ..)
        (fun other subdir found => by
          rw [sortedInside.find_putSome, found]
          rfl) (names ++ [name])
      rw [Nested.graft_graft, sortedInside.putSome_putSome,
        Nested.graft_append isAt name inside] at subdirs
      -- then those after it
      have slotSorted : (Slot.node inside : Slot FileName Item).Sorted := sortedInside
      have later := sortedContent.put slotSorted name
      obtain ⟨last, others⟩ := ih leads parsed.2 sortedRest (sorted.graft later names) later
        (Nested.lookup_graft ..) (fun other subdir found => by
          have isAfter := below other (Nested.mem_keys_of_find found)
          rw [Nested.find_put, if_neg (ne_of_gt isAfter)]
          refine missing other subdir ?_
          rw [Nested.find, if_neg (ne_of_gt isAfter), found]) inner
      rw [Nested.graft_graft] at others
      refine ⟨last, ?_⟩
      rw [Dir.listSubdirs, List.map_cons, List.map_append, List.map_append,
        foldlM_cons_of_ok _ entered, foldlM_append_of_ok _ files,
        foldlM_append_of_ok _ subdirs, others]
      rfl

/-- What is read from the list of a directory is the directory. -/
theorem fillDirs_list {root : Dir} (sorted : root.Sorted)
    (parsed : root.Leaves (Item.Parsed blockSize)) :
    fillDirs blockSize ((Dir.list rootPath root).map some) = .ok root := by
  have empty : Nested.Sorted (.nil : Dir) := trivial
  have files := fill_listItems leads_root parsed empty empty rfl
  have sortedFiles := sorted.putSome Slot.isLeaf empty
  obtain ⟨last, subdirs⟩ := fill_listSubdirs leads_root parsed sorted sortedFiles sortedFiles rfl
    (fun name inside found => by
      rw [sorted.find_putSome, found]
      rfl) []
  have entered : fillEntry blockSize (.nil, []) (some (.dir rootPath)) = .ok (.nil, []) := by
    rw [fillEntry, leads_root]
    rfl
  rw [sorted.putSome_putSome] at subdirs
  rw [fillDirs, Dir.list, List.map_cons, List.map_append, foldlM_cons_of_ok _ entered,
    foldlM_append_of_ok _ files, Nested.graft, subdirs]
  rfl

end Filling

section Emitting

variable {path : Path}

/-- The calls for the items of a directory are its entries. -/
theorem entries_emitItems (path : Path) (dir : Dir) (more : List Call) :
    Call.entries path (Dir.emitItems dir ++ more) =
      Dir.listItems path dir ++ Call.entries path more := by
  induction dir with
  | nil => rfl
  | leaf name item rest ih =>
      rw [Dir.emitItems, Dir.listItems, List.cons_append, List.cons_append, ← ih]
      cases item <;> rfl
  | node name inside rest _ ih => exact ih

/-- Where no directory is empty, all of them are written. -/
theorem entries_emitSubdirs {dir : Dir} (full : dir.NoneEmpty) (path current : Path)
    (more : List Call) :
    ∃ last, Call.entries current (Dir.emitSubdirs path dir ++ more) =
      Dir.listSubdirs path dir ++ Call.entries last more := by
  induction dir generalizing path current more with
  | nil => exact ⟨current, rfl⟩
  | leaf name item rest ih => exact ih full path current more
  | node name inside rest ihInside ih =>
      obtain ⟨⟨some, fullInside⟩, fullRest⟩ := full
      obtain ⟨inner, subdirs⟩ := ihInside fullInside (below path name) (below path name)
        (Dir.emitSubdirs path rest ++ more)
      obtain ⟨last, others⟩ := ih fullRest path inner more
      refine ⟨last, ?_⟩
      rw [Dir.emitSubdirs, Dir.withDir, if_neg some, Dir.listSubdirs]
      simp only [List.append_assoc, List.cons_append, Call.entries]
      rw [entries_emitItems, subdirs, others]

/-- There are as many entries as calls. -/
theorem length_entries (path : Path) (calls : List Call) :
    (Call.entries path calls).length = calls.length := by
  induction calls generalizing path with
  | nil => rfl
  | cons call rest ih => cases call <;> simp [Call.entries, ih]

/-- There are as many calls as items. -/
theorem length_emitItems (path : Path) (dir : Dir) :
    (Dir.emitItems dir).length = (Dir.listItems path dir).length := by
  have lengths := congrArg List.length (entries_emitItems path dir [])
  rw [length_entries, List.append_nil] at lengths
  simpa [Call.entries] using lengths

/-- What is written is never longer, and shorter where a directory is empty. -/
theorem length_emitSubdirs (path : Path) (dir : Dir) :
    (Dir.emitSubdirs path dir).length ≤ (Dir.listSubdirs path dir).length ∧
      ((Dir.emitSubdirs path dir).length = (Dir.listSubdirs path dir).length →
        dir.NoneEmpty) := by
  induction dir generalizing path with
  | nil => exact ⟨le_rfl, fun _ => trivial⟩
  | leaf name item rest ih => exact ih path
  | node name inside rest ihInside ih =>
      obtain ⟨shorter, full⟩ := ihInside (below path name)
      obtain ⟨shorterRest, fullRest⟩ := ih path
      have items := length_emitItems (below path name) inside
      by_cases empty : inside = .nil
      · rw [Dir.emitSubdirs, Dir.withDir, if_pos empty, Dir.listSubdirs]
        simp only [List.nil_append, List.length_cons, List.length_append]
        omega
      · rw [Dir.emitSubdirs, Dir.withDir, if_neg empty, Dir.listSubdirs]
        simp only [List.length_cons, List.length_append]
        refine ⟨by omega, fun same => ⟨⟨empty, full ?_⟩, fullRest ?_⟩⟩ <;> omega

/-- What is written of a directory is its list if and only if nothing in it is empty. -/
theorem entries_emit_iff (path : Path) (dir : Dir) :
    Call.entries path (Dir.emit path dir) = Dir.list path dir ↔ Dir.Full dir := by
  constructor
  · intro same
    have lengths := congrArg List.length same
    rw [length_entries] at lengths
    by_cases empty : dir = .nil
    · rw [Dir.emit, Dir.withDir, if_pos empty] at lengths
      cases lengths
    · rw [Dir.emit, Dir.withDir, if_neg empty, Dir.list] at lengths
      simp only [List.length_cons, List.length_append, length_emitItems path dir] at lengths
      exact ⟨empty, (length_emitSubdirs path dir).2 (by omega)⟩
  · rintro ⟨some, full⟩
    obtain ⟨last, subdirs⟩ := entries_emitSubdirs full path path []
    rw [List.append_nil] at subdirs
    rw [Dir.emit, Dir.withDir, if_neg some, Dir.list, List.cons_append, Call.entries,
      entries_emitItems, subdirs, Call.entries, List.append_nil]

end Emitting

section RoundTrip

variable {parser : Parser} {raw : RawIndex} {header : Header} {root : Dir}

/-- An index is read as the directory it lists. -/
theorem intoMut_list (sorted : root.Sorted) (parsed : root.Leaves (Item.Parsed header.blockSize))
    (reads : parser raw.data = some (header, (Dir.list rootPath root).map some)) :
    raw.intoMut parser =
      .ok ⟨header, root, sorted, raw.location, header.blockSize, header.hashType⟩ := by
  have filled := fillDirs_list sorted parsed
  unfold RawIndex.intoMut
  rw [reads]
  dsimp only
  split
  · rename_i error failed
    rw [filled] at failed
    cases failed
  · rename_i other isOther
    rw [filled] at isOther
    obtain rfl := Except.ok.inj isOther
    rfl

/-- An index is written as it was read if and only if it lists no directory without entries. -/
theorem roundtrip_iff (sorted : root.Sorted) (parsed : root.Leaves (Item.Parsed header.blockSize))
    (reads : parser raw.data = some (header, (Dir.list rootPath root).map some)) :
    (∃ index, raw.intoMut parser = .ok index ∧
        Call.entries rootPath index.calls = Dir.list rootPath root) ↔ Dir.Full root := by
  rw [intoMut_list sorted parsed reads, ← entries_emit_iff rootPath root]
  constructor
  · rintro ⟨index, isIndex, same⟩
    rw [← Except.ok.inj isIndex] at same
    exact same
  · intro same
    exact ⟨_, rfl, same⟩

end RoundTrip

namespace Sample

/-- A directory with a file. -/
def etc : FileName := .ofLong "etc".toList (by decide) (by decide)

/-- A directory without entries. -/
def proc : FileName := .ofLong "proc".toList (by decide) (by decide)

/-- The file in the first of them. -/
def hosts : FileName := .ofLong "hosts".toList (by decide) (by decide)

/-- The header of the example. -/
def header : Header := ⟨.sha512x256, 32768⟩

/-- The file as it is read from an index. -/
def remote : Item := .remoteFile false 6 ⟨32768, [List.replicate 32 1]⟩

/-- `/etc` with one file in it. -/
def image : Dir := .node etc (.leaf hosts remote .nil) .nil

/-- `/proc` is there as well, for a file system to be mounted on. -/
def container : Dir := .node etc (.leaf hosts remote .nil) (.node proc .nil .nil)

/-- A parser that reads these entries. -/
def listing (root : Dir) : Parser := fun _ => some (header, (Dir.list rootPath root).map some)

end Sample

/-- A file comes back as it was. -/
theorem roundtrip_file :
    ∃ index, RawIndex.intoMut (Sample.listing Sample.image) ⟨[], 0⟩ = .ok index ∧
      Call.entries rootPath index.calls = Dir.list rootPath Sample.image :=
  (roundtrip_iff (by decide) (by decide) rfl).mpr ⟨by decide, ⟨by decide, trivial⟩, trivial⟩

/-- The empty directory is gone. -/
theorem empty_dir_dropped :
    ¬ ∀ (parser : Parser) (raw : RawIndex) (header : Header) (root : Dir), root.Sorted →
      root.Leaves (Item.Parsed header.blockSize) →
      parser raw.data = some (header, (Dir.list rootPath root).map some) →
      ∃ index, raw.intoMut parser = .ok index ∧
        Call.entries rootPath index.calls = Dir.list rootPath root := by
  intro faithful
  obtain ⟨index, isIndex, same⟩ := faithful (Sample.listing Sample.container) ⟨[], 0⟩
    Sample.header Sample.container (by decide) (by decide) rfl
  rw [intoMut_list (by decide) (by decide) rfl] at isIndex
  rw [← Except.ok.inj isIndex] at same
  exact absurd same (by decide)

end Ciruela.Cluster
