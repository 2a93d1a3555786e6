import Ciruela.Daemon.Metadata.AllStates
import Ciruela.Daemon.Metadata.IndexFiles

/-!
# Where the files of an image may be linked from

An image that replaces another one has files in common with it, and one that is appended has
files in common with those next to it. `files_to_hardlink` reads the indexes of at most
thirty-seven images that are complete and looks for the files of the new index in them. The
indexes are read side by side by another package.
-/

namespace Ciruela

open Foundation

namespace Metadata

/-- `Hardlink`: a file of an image that stands already, to link a file of a new one to. -/
structure Hardlink where
  source : VPath
  path : Path
  exe : Bool
  size : Nat
  hashes : Hashes
deriving DecidableEq

/-- An index that was opened. An entry may fail to be read. -/
abbrev OpenedIndex := Header × List (Option Entry)

/-- What one of the indexes has at a path. -/
abbrev Candidate := VPath × Option (Header × Entry)

/-- `MergedSignatures`. -/
structure Merger (State : Type) where
  new : List (VPath × OpenedIndex) → Option State
  advance : State → Path → List Candidate
  /-- The state when so many of the candidates have been looked at. -/
  after : State → Path → Nat → State

/-- The candidate is the same file. -/
def Candidate.isFile (candidate : Candidate) (exe : Bool) (size : Nat) (hashes : Hashes) : Bool :=
  match candidate.2 with
  | some (header, .file _ otherExe otherSize values) =>
      exe == otherExe && size == otherSize && decide (hashes = ⟨header, values⟩)
  | _ => false

section Links

variable {Merged : Type} (merger : Merger Merged)

/-- The candidates up to the first one that is the file. -/
def lookedAt (found : Candidate → Bool) (candidates : List Candidate) : Nat :=
  min candidates.length (candidates.findIdx found + 1)

/-- One turn of the loop of `scan_links`. -/
def scanEntry (index : IndexData) (state : Merged) : Entry → List Hardlink × Merged
  | .file path exe size values =>
      let hashes : Hashes := ⟨index.header, values⟩
      let candidates := merger.advance state path
      let found := fun candidate : Candidate => candidate.isFile exe size hashes
      (((candidates.find? found).map fun candidate =>
          (⟨candidate.1, path, exe, size, hashes⟩ : Hardlink)).toList,
        merger.after state path (lookedAt found candidates))
  | _ => ([], state)

/-- The links for all entries of an index, the merged images moving along with the entries. -/
def scanEntries (index : IndexData) : Merged → List Entry → List Hardlink
  | _, [] => []
  | state, entry :: rest =>
      let (links, next) := scanEntry merger index state entry
      links ++ scanEntries index next rest

/-- `scan_links`. Only the merging can fail. -/
def scanLinks (index : IndexData) (files : List (VPath × OpenedIndex)) : Option (List Hardlink) :=
  (merger.new files).map fun state => scanEntries merger index state index.entries

end Links

/-- `read_index::open`. -/
def Meta.openIndex (parser : Parser) (io : Io) (image : ImageId) (store : Meta) :
    Run (Except Error OpenedIndex) := do
  match ← store.readIndexBytes io image with
  | .error error => return .error error
  | .ok bytes =>
      match parser bytes with
      | none => return .error (.decode image.indexFile)
      | some opened => return .ok opened

/-- The newest signature, or the epoch. -/
def newest (state : State) : Nat := (state.signatures.map SignatureEntry.timestamp).foldl max 0

/-- A name below a directory, with the state that was found for it. -/
abbrev Named := List Char × State

/-- The loop of `append_mode` over the states, newest first. -/
def selectImages (base : VPath) (store : Meta) : List ImageId → Nat → List Named →
    Run (List Named)
  | _, _, [] => return []
  | visited, count, (name, state) :: rest =>
      if state.image ∈ visited then selectImages base store visited count rest
      else do
        let path ← base.join (Path.ofText name)
        if path.place ∈ store.writing then selectImages base store visited count rest
        else if 36 < count + 1 then return [(name, state)]
        else do
          let others ← selectImages base store (state.image :: visited) (count + 1) rest
          return (name, state) :: others

/-- Open the indexes of these images. One that does not open is left out. -/
def openIndexes (parser : Parser) (io : Io) (base : VPath) (store : Meta) :
    List Named → Run (List (VPath × OpenedIndex))
  | [] => return []
  | (name, state) :: rest => do
      match ← store.openIndex parser io state.image with
      | .ok opened => do
          let path ← base.join (Path.ofText name)
          let others ← openIndexes parser io base store rest
          return (path, opened) :: others
      | .error _ => openIndexes parser io base store rest

/-- The states in the order the images are tried in. The order of states that are equally new
is left open. -/
def Sorted (found : Found) (order : List Named) : Prop :=
  (order.map Prod.fst).Nodup ∧ (∀ name state, (name, state) ∈ order ↔ found.lookup name = some state) ∧
    order.Pairwise fun first second => newest second.2 ≤ newest first.2

/-- `append_mode`, once the states have been found and sorted; `none` where the indexes cannot be
merged. -/
def appendMode {Merged : Type} (merger : Merger Merged) (parser : Parser) (io : Io)
    (index : IndexData) (base : VPath) (order : List Named) (store : Meta) :
    Run (Option (List Hardlink)) := do
  let selected ← selectImages base store [] 0 order
  let files ← openIndexes parser io base store selected
  return scanLinks merger index files

/-- `replace_mode`. -/
def replaceMode {Merged : Type} (merger : Merger Merged) (parser : Parser) (io : Io)
    (index : IndexData) (path : VPath) (store : Meta) :
    Run (Except Error (Option (List Hardlink)) × Meta) := do
  match ← store.ensureParent io path with
  | (.error error, store) => return (.error error, store)
  | (.ok dir, store) =>
      let name ← path.finalName
      match readFile io (store.signatures.files dir) (stateFile name) with
      | .error error => return (.error error, store)
      | .ok none => return (.ok (some []), store)
      | .ok (some state) =>
          match ← store.openIndex parser io state.image with
          | .error _ => return (.ok (some []), store)
          | .ok opened => return (.ok (scanLinks merger index [(path, opened)]), store)

/-- The path of an image is not being written. -/
def Complete (base : VPath) (store : Meta) (item : Named) : Prop :=
  ∃ path, base.join (Path.ofText item.1) = .ok path ∧ path.place ∉ store.writing

/-- What is selected of images that are tried in some order, where some images are visited
already. -/
structure Selected (Before : Named → Named → Prop) (base : VPath) (store : Meta)
    (visited : List ImageId) (count : Nat) (order selected : List Named) : Prop where
  among : selected.Sublist order
  fresh : ∀ item ∈ selected, item.2.image ∉ visited
  complete : ∀ item ∈ selected, Complete base store item
  distinct : (selected.map fun item => item.2.image).Nodup
  few : count + selected.length ≤ 37
  /-- An image that is not selected is one that was selected before it, is being written, or
  comes after all that are wanted. -/
  others : ∀ item ∈ order, item ∈ selected ∨ item.2.image ∈ visited ∨ ¬ Complete base store item ∨
    (∃ chosen ∈ selected, chosen.2.image = item.2.image ∧ Before chosen item) ∨
    (count + selected.length = 37 ∧ ∀ chosen ∈ selected, Before chosen item)

section Selection

variable {Before : Named → Named → Prop} {base : VPath} {store : Meta} {visited : List ImageId}
  {count : Nat} {order selected : List Named}

/-- Images are selected from the newest on, as long as there is room. -/
theorem selectImages_selects (ran : selectImages base store visited count order = .ok selected)
    (room : count ≤ 36) (ordered : order.Pairwise Before) :
    Selected Before base store visited count order selected := by
  induction order generalizing visited count selected with
  | nil =>
      obtain rfl := Except.ok.inj ran
      exact ⟨.slnil, List.forall_mem_nil _, List.forall_mem_nil _, List.nodup_nil,
        by rw [List.length_nil]; omega, List.forall_mem_nil _⟩
  | cons item rest ih =>
      obtain ⟨name, state⟩ := item
      obtain ⟨before, ordered⟩ := List.pairwise_cons.mp ordered
      -- an image that is passed over for a reason
      have passed (later : Selected Before base store visited count rest selected)
          (reason : state.image ∈ visited ∨ ¬ Complete base store (name, state)) :
          Selected Before base store visited count ((name, state) :: rest) selected := by
        refine ⟨later.among.cons _, later.fresh, later.complete, later.distinct, later.few, ?_⟩
        intro other member
        rcases List.mem_cons.mp member with rfl | old
        · exact Or.inr (reason.imp_right Or.inl)
        · exact later.others other old
      rw [selectImages] at ran
      split at ran
      · rename_i seen
        exact passed (ih ran room ordered) (Or.inl seen)
      · rename_i unseen
        obtain ⟨path, joined, ran⟩ := Run.bind_eq_ok_iff.mp ran
        have isComplete (free : path.place ∉ store.writing) : Complete base store (name, state) :=
          ⟨path, joined, free⟩
        split at ran
        · rename_i writing
          refine passed (ih ran room ordered) (Or.inr ?_)
          rintro ⟨other, same, free⟩
          obtain rfl := Except.ok.inj (joined.symm.trans same)
          exact free writing
        · rename_i free
          split at ran
          · rename_i last
            obtain rfl := Except.ok.inj ran
            refine ⟨List.singleton_sublist.mpr List.mem_cons_self, by simpa using unseen,
              by simpa using isComplete free, by simp, by rw [List.length_singleton]; omega, ?_⟩
            intro other member
            rcases List.mem_cons.mp member with rfl | later
            · exact Or.inl (List.mem_singleton.mpr rfl)
            · refine Or.inr (Or.inr (Or.inr (Or.inr ⟨by rw [List.length_singleton]; omega, ?_⟩)))
              intro chosen isChosen
              rw [List.mem_singleton.mp isChosen]
              exact before other later
          · obtain ⟨others, following, done⟩ := Run.bind_eq_ok_iff.mp ran
            obtain rfl := Except.ok.inj done
            have later := ih following (by omega) ordered
            refine ⟨later.among.cons_cons _, ?_, ?_, ?_, ?_, ?_⟩
            · intro chosen member
              rcases List.mem_cons.mp member with rfl | old
              · exact unseen
              · exact fun seen => later.fresh chosen old (List.mem_cons_of_mem _ seen)
            · intro chosen member
              rcases List.mem_cons.mp member with rfl | old
              · exact isComplete free
              · exact later.complete chosen old
            · rw [List.map_cons, List.nodup_cons]
              refine ⟨fun again => ?_, later.distinct⟩
              obtain ⟨chosen, isChosen, same⟩ := List.mem_map.mp again
              exact later.fresh chosen isChosen (same ▸ List.mem_cons_self)
            · have few := later.few
              rw [List.length_cons]
              omega
            · intro other member
              rcases List.mem_cons.mp member with rfl | old
              · exact Or.inl List.mem_cons_self
              · rcases later.others other old with chosen | seen | writing |
                  ⟨chosen, isChosen, same, first⟩ | ⟨enough, all⟩
                · exact Or.inl (List.mem_cons_of_mem _ chosen)
                · rcases List.mem_cons.mp seen with same | visited
                  · exact Or.inr (Or.inr (Or.inr (Or.inl
                      ⟨_, List.mem_cons_self, same.symm, before other old⟩)))
                  · exact Or.inr (Or.inl visited)
                · exact Or.inr (Or.inr (Or.inl writing))
                · exact Or.inr (Or.inr (Or.inr (Or.inl
                    ⟨chosen, List.mem_cons_of_mem _ isChosen, same, first⟩)))
                · refine Or.inr (Or.inr (Or.inr (Or.inr ⟨?_, fun chosen isChosen => ?_⟩)))
                  · rw [List.length_cons]
                    omega
                  · rcases List.mem_cons.mp isChosen with rfl | isChosen
                    · exact before other old
                    · exact all chosen isChosen

/-- The images that an append looks into are different ones that are complete, at most
thirty-seven of them, and no image that is newer is left out. -/
theorem newest_images_selected {found : Found} (sorted : Sorted found order)
    (ran : selectImages base store [] 0 order = .ok selected) :
    (selected.map fun item => item.2.image).Nodup ∧ selected.length ≤ 37 ∧
      (∀ item ∈ selected, found.lookup item.1 = some item.2 ∧ Complete base store item) ∧
      ∀ name state, found.lookup name = some state → Complete base store (name, state) →
        (∃ chosen ∈ selected, chosen.2.image = state.image ∧ newest state ≤ newest chosen.2) ∨
          selected.length = 37 ∧ ∀ chosen ∈ selected, newest state ≤ newest chosen.2 := by
  obtain ⟨_, listed, ordered⟩ := sorted
  have selects := selectImages_selects ran (Nat.zero_le _) ordered
  refine ⟨selects.distinct, ?_, fun item member => ?_, fun name state isFound complete => ?_⟩
  · have few := selects.few
    omega
  · exact ⟨(listed _ _).mp (selects.among.subset member), selects.complete item member⟩
  · rcases selects.others (name, state) ((listed name state).mpr isFound) with
      chosen | seen | writing | ⟨chosen, isChosen, same, before⟩ | ⟨enough, all⟩
    · exact Or.inl ⟨_, chosen, rfl, Nat.le_refl _⟩
    · exact absurd seen List.not_mem_nil
    · exact absurd complete writing
    · exact Or.inl ⟨chosen, isChosen, same, before⟩
    · exact Or.inr ⟨by omega, all⟩

end Selection

/-- The entry that a link is for. -/
def Hardlink.entry (link : Hardlink) : Entry :=
  .file link.path link.exe link.size link.hashes.values

/-- A state that the merging comes to. -/
def Merger.Reaches {Merged : Type} (merger : Merger Merged) : Merged → Merged → Prop :=
  Relation.ReflTransGen fun before after => ∃ path count, after = merger.after before path count

/-- What is read at a path is an entry of one of the indexes for that path. -/
def Merger.Reads {Merged : Type} (merger : Merger Merged) : Prop :=
  ∀ files start state, merger.new files = some start → merger.Reaches start state →
    ∀ path source header other exe size values,
      (source, some (header, .file other exe size values)) ∈ merger.advance state path →
      other.components = path.components ∧
        ∃ items, (source, header, items) ∈ files ∧ some (.file other exe size values) ∈ items

section Scanned

variable {Merged : Type} {merger : Merger Merged} {index : IndexData} {state : Merged}
  {entries : List Entry}

/-- Every file gets one link at most, in the order of the index. -/
theorem scanEntries_sublist :
    ((scanEntries merger index state entries).map Hardlink.entry).Sublist entries := by
  induction entries generalizing state with
  | nil => exact .slnil
  | cons entry rest ih =>
      rw [scanEntries, List.map_append]
      have first : ((scanEntry merger index state entry).1.map Hardlink.entry).Sublist [entry] := by
        cases entry with
        | dir path => exact List.nil_sublist _
        | link path dest => exact List.nil_sublist _
        | file path exe size values =>
            simp only [scanEntry]
            cases (merger.advance state path).find? _ with
            | none => exact List.nil_sublist _
            | some candidate => exact List.Sublist.refl _
      exact first.append ih

/-- A link is to a file that is the same. -/
theorem exists_of_mem_scanEntries {link : Hardlink}
    (member : link ∈ scanEntries merger index state entries) :
    link.hashes.header = index.header ∧ ∃ later, merger.Reaches state later ∧
      ∃ other, (link.source, some (index.header,
        .file other link.exe link.size link.hashes.values)) ∈ merger.advance later link.path := by
  induction entries generalizing state with
  | nil => exact absurd member List.not_mem_nil
  | cons entry rest ih =>
      rw [scanEntries] at member
      have step : merger.Reaches state (scanEntry merger index state entry).2 := by
        cases entry with
        | dir path => exact .refl
        | link path dest => exact .refl
        | file path exe size values => exact .single ⟨_, _, rfl⟩
      rcases List.mem_append.mp member with here | further
      · cases entry with
        | dir path => exact absurd here List.not_mem_nil
        | link path dest => exact absurd here List.not_mem_nil
        | file path exe size values =>
            simp only [Option.mem_toList, Option.map_eq_some_iff] at here
            obtain ⟨⟨source, read⟩, found, rfl⟩ := here
            have same := List.find?_some found
            have isThere := List.mem_of_find?_eq_some found
            refine ⟨rfl, state, .refl, ?_⟩
            unfold Candidate.isFile at same
            dsimp only at same
            split at same
            · simp only [Bool.and_eq_true, beq_iff_eq, decide_eq_true_eq] at same
              obtain ⟨⟨rfl, rfl⟩, hashes⟩ := same
              obtain ⟨rfl, rfl⟩ := Hashes.mk.inj hashes
              exact ⟨_, isThere⟩
            · cases same
      · obtain ⟨header, later, reaches, isThere⟩ := ih further
        exact ⟨header, later, step.trans reaches, isThere⟩

/-- An index that was opened is that of an image that was selected. -/
theorem exists_of_mem_openIndexes {parser : Parser} {io : Io} {base : VPath} {store : Meta}
    {selected : List Named} {files : List (VPath × OpenedIndex)}
    (ran : openIndexes parser io base store selected = .ok files) {file : VPath × OpenedIndex}
    (member : file ∈ files) :
    ∃ item ∈ selected, base.join (Path.ofText item.1) = .ok file.1 ∧
      store.openIndex parser io item.2.image = .ok (.ok file.2) := by
  induction selected generalizing files with
  | nil =>
      obtain rfl := Except.ok.inj ran
      exact absurd member List.not_mem_nil
  | cons item rest ih =>
      obtain ⟨result, opened, ran⟩ := Run.bind_eq_ok_iff.mp ran
      cases result with
      | error error =>
          obtain ⟨found, isItem, facts⟩ := ih ran member
          exact ⟨found, List.mem_cons_of_mem _ isItem, facts⟩
      | ok index =>
          obtain ⟨path, joined, ran⟩ := Run.bind_eq_ok_iff.mp ran
          obtain ⟨others, later, done⟩ := Run.bind_eq_ok_iff.mp ran
          obtain rfl := Except.ok.inj done
          rcases List.mem_cons.mp member with rfl | old
          · exact ⟨item, List.mem_cons_self, joined, opened⟩
          · obtain ⟨found, isItem, facts⟩ := ih later old
            exact ⟨found, List.mem_cons_of_mem _ isItem, facts⟩

/-- At most one index is opened for an image. -/
theorem length_openIndexes {parser : Parser} {io : Io} {base : VPath} {store : Meta}
    {selected : List Named} {files : List (VPath × OpenedIndex)}
    (ran : openIndexes parser io base store selected = .ok files) :
    files.length ≤ selected.length := by
  induction selected generalizing files with
  | nil =>
      obtain rfl := Except.ok.inj ran
      exact Nat.le_refl _
  | cons item rest ih =>
      obtain ⟨result, opened, ran⟩ := Run.bind_eq_ok_iff.mp ran
      cases result with
      | error error => exact Nat.le_succ_of_le (ih ran)
      | ok index =>
          obtain ⟨path, _, ran⟩ := Run.bind_eq_ok_iff.mp ran
          obtain ⟨others, later, done⟩ := Run.bind_eq_ok_iff.mp ran
          obtain rfl := Except.ok.inj done
          exact Nat.succ_le_succ (ih later)

/-- A link is from one of the indexes that were opened, and that index has the file. -/
theorem exists_of_mem_scanLinks (reads : merger.Reads) {files : List (VPath × OpenedIndex)}
    {links : List Hardlink} (scanned : scanLinks merger index files = some links) :
    (links.map Hardlink.entry).Sublist index.entries ∧
      ∀ link ∈ links, link.hashes.header = index.header ∧
        ∃ path items, (link.source, index.header, items) ∈ files ∧
          path.components = link.path.components ∧
          some (.file path link.exe link.size link.hashes.values) ∈ items := by
  obtain ⟨start, begins, rfl⟩ := Option.map_eq_some_iff.mp scanned
  refine ⟨scanEntries_sublist, fun link member => ?_⟩
  obtain ⟨header, later, reaches, other, isThere⟩ := exists_of_mem_scanEntries member
  obtain ⟨path, items, isFile, isEntry⟩ :=
    reads files start later begins reaches _ _ _ _ _ _ _ isThere
  exact ⟨header, other, items, isFile, path, isEntry⟩

/-- When an image is appended, every file is linked once at most, from the newest place of an image
that has the same file and that nobody writes. No more than thirty-seven images are looked into. -/
theorem append_links_same_files (reads : merger.Reads) {parser : Parser} {io : Io} {base : VPath}
    {store : Meta} {found : Found} {order : List Named} (sorted : Sorted found order)
    {links : List Hardlink}
    (ran : appendMode merger parser io index base order store = .ok (some links)) :
    (links.map Hardlink.entry).Sublist index.entries ∧
      (∃ sources : List VPath, sources.length ≤ 37 ∧ ∀ link ∈ links, link.source ∈ sources) ∧
      ∀ link ∈ links, link.hashes.header = index.header ∧
        ∃ name state, found.lookup name = some state ∧
          base.join (Path.ofText name) = .ok link.source ∧ link.source.place ∉ store.writing ∧
          (∀ other otherState, found.lookup other = some otherState →
            otherState.image = state.image → Complete base store (other, otherState) →
              newest otherState ≤ newest state) ∧
          ∃ path items, store.openIndex parser io state.image = .ok (.ok (index.header, items)) ∧
            path.components = link.path.components ∧
            some (.file path link.exe link.size link.hashes.values) ∈ items := by
  obtain ⟨selected, selects, ran⟩ := Run.bind_eq_ok_iff.mp ran
  obtain ⟨files, opens, done⟩ := Run.bind_eq_ok_iff.mp ran
  obtain ⟨among, all⟩ := exists_of_mem_scanLinks reads (Except.ok.inj done)
  obtain ⟨distinct, few, sound, newer⟩ := newest_images_selected sorted selects
  refine ⟨among, ⟨files.map Prod.fst, ?_, fun link member => ?_⟩, fun link member => ?_⟩
  · rw [List.length_map]
    exact (length_openIndexes opens).trans few
  · obtain ⟨_, _, _, isFile, _⟩ := all link member
    exact List.mem_map.mpr ⟨_, isFile, rfl⟩
  · obtain ⟨header, other, items, isFile, path, isEntry⟩ := all link member
    obtain ⟨⟨name, state⟩, isSelected, joined, opened⟩ := exists_of_mem_openIndexes opens isFile
    obtain ⟨isFound, ⟨place, isPlace, free⟩⟩ := sound _ isSelected
    obtain rfl := Except.ok.inj (joined.symm.trans isPlace)
    refine ⟨header, name, state, isFound, joined, free,
      fun twin twinState isTwin same complete => ?_, other, items, opened, path, isEntry⟩
    rcases newer twin twinState isTwin complete with ⟨chosen, isChosen, image, atMost⟩ | ⟨_, all⟩
    · -- there is one selected place for an image
      have one := List.inj_on_of_nodup_map distinct isChosen isSelected (image.trans same)
      rw [one] at atMost
      exact atMost
    · exact all _ isSelected

/-- When an image is replaced, every file is linked once at most, from the image that is in its
place, which has the same file. -/
theorem replace_links_same_files (reads : merger.Reads) {parser : Parser} {io : Io} {path : VPath}
    {store after : Meta} {links : List Hardlink}
    (ran : replaceMode merger parser io index path store = .ok (.ok (some links), after)) :
    (links.map Hardlink.entry).Sublist index.entries ∧
      ∀ link ∈ links, link.source = path ∧ link.hashes.header = index.header ∧
        ∃ dir name state, path.finalName = .ok name ∧
          readFile io (after.signatures.files dir) (stateFile name) = .ok (some state) ∧
          ∃ other items, after.openIndex parser io state.image = .ok (.ok (index.header, items)) ∧
            other.components = link.path.components ∧
            some (.file other link.exe link.size link.hashes.values) ∈ items := by
  have nothing {links : List Hardlink} (none : links = []) {Good : Hardlink → Prop} :
      (links.map Hardlink.entry).Sublist index.entries ∧ ∀ link ∈ links, Good link := by
    rw [none]
    exact ⟨List.nil_sublist _, List.forall_mem_nil _⟩
  unfold replaceMode at ran
  obtain ⟨⟨result, created⟩, ensured, ran⟩ := Run.bind_eq_ok_iff.mp ran
  cases result with
  | error error => cases ran
  | ok dir =>
      obtain ⟨name, named, ran⟩ := Run.bind_eq_ok_iff.mp ran
      split at ran
      · cases ran
      · obtain ⟨same, _⟩ := Prod.mk.inj (Except.ok.inj ran)
        exact nothing (Option.some.inj (Except.ok.inj same)).symm
      · rename_i state stored
        obtain ⟨result, opened, ran⟩ := Run.bind_eq_ok_iff.mp ran
        cases result with
        | error error =>
            obtain ⟨same, _⟩ := Prod.mk.inj (Except.ok.inj ran)
            exact nothing (Option.some.inj (Except.ok.inj same)).symm
        | ok index' =>
            obtain ⟨same, rfl⟩ := Prod.mk.inj (Except.ok.inj ran)
            obtain ⟨among, all⟩ := exists_of_mem_scanLinks reads (Except.ok.inj same)
            refine ⟨among, fun link member => ?_⟩
            obtain ⟨header, other, items, isFile, facts⟩ := all link member
            obtain ⟨isSource, rfl⟩ := Prod.mk.inj (List.mem_singleton.mp isFile)
            exact ⟨isSource, header, dir, name, state, named, stored, other, items, opened, facts⟩

end Scanned

/-- A merger that looks a path up in every index. -/
def Merger.plain : Merger (List (VPath × OpenedIndex)) where
  new := some
  advance files path := files.flatMap fun file => file.2.2.filterMap fun
    | some (.file other exe size values) =>
        if other.components = path.components then
          some (file.1, some (file.2.1, .file other exe size values))
        else none
    | _ => none
  after files _ _ := files

/-- A merger that looks a path up in every index reads as it is assumed to. -/
theorem Merger.plain_reads : Merger.plain.Reads := by
  intro files start state begins reaches
  have unmoved : state = start := by
    induction reaches with
    | refl => rfl
    | tail _ step ih =>
        obtain ⟨_, _, rfl⟩ := step
        exact ih
  obtain rfl := unmoved.trans (Option.some.inj begins).symm
  intro path source header other exe size values member
  obtain ⟨file, isFile, member⟩ := List.mem_flatMap.mp member
  obtain ⟨entry, isEntry, read⟩ := List.mem_filterMap.mp member
  split at read
  · split at read
    · rename_i same
      simp only [Option.some.injEq, Prod.mk.injEq] at read
      obtain ⟨rfl, rfl, isFound⟩ := read
      obtain ⟨rfl, rfl, rfl, rfl⟩ := Entry.file.inj isFound
      exact ⟨same, file.2.2, isFile, isEntry⟩
    · cases read
  · cases read

/-! An image that was appended before and has the one file of the new image. -/

namespace Sample

/-- The entries of an image with one file. -/
def linkEntries : List Entry :=
  [.dir (Path.ofText "/".toList), .file (Path.ofText "/b".toList) true 3 [List.replicate 32 7]]

/-- The index of that image. -/
def linkIndex : IndexData := ⟨image 2, .blake2bx256, 32768, linkEntries, 3, 1⟩

/-- The parser reads that index, whatever the bytes are. -/
def linkParser : Parser := fun _ => some (⟨.blake2bx256, 32768⟩, linkEntries.map some)

/-- The state of an older image. -/
def linkState : State := ⟨image 1, [⟨5, signature 1⟩]⟩

/-- The scan of the directory has found that image. -/
def linkFound : Found := (∅ : Found).insert "a".toList linkState

/-- The index of the older image is in the store. -/
def linkStore : Meta :=
  .new .empty (Tree.empty.setFiles [⟨"01".toList, by decide, by decide, by decide, by decide⟩]
    (Finmap.singleton (image 1).indexFile [1]))

/-- The link to the file of the older image. -/
def linkSource : Hardlink :=
  ⟨path, Path.ofText "/b".toList, true, 3, ⟨⟨.blake2bx256, 32768⟩, [List.replicate 32 7]⟩⟩

end Sample

/-- The file is linked from the older image. -/
theorem append_links_same_file :
    ∃ name state, Sample.linkFound.lookup name = some state ∧
      Sample.base.join (Path.ofText name) = .ok Sample.linkSource.source := by
  have sorted : Sorted Sample.linkFound [("a".toList, Sample.linkState)] := by
    refine ⟨List.nodup_singleton _, fun name state => ?_, List.pairwise_singleton _ _⟩
    rw [List.mem_singleton, Prod.mk.injEq, Sample.linkFound, Map.lookup_insert_eq]
    split
    · simp_all [eq_comm]
    · simp_all
  have ran : appendMode Merger.plain Sample.linkParser Io.working Sample.linkIndex Sample.base
      [("a".toList, Sample.linkState)] Sample.linkStore = .ok (some [Sample.linkSource]) := by
    decide
  obtain ⟨_, _, all⟩ := append_links_same_files Merger.plain_reads sorted ran
  obtain ⟨_, name, state, isFound, joined, _⟩ := all Sample.linkSource List.mem_cons_self
  exact ⟨name, state, isFound, joined⟩

end Metadata

end Ciruela
