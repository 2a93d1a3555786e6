import Ciruela.Daemon.Disk.Commit

/-!
# The image that an index is of

An index lists the directories of an image, each before what is in it, and for every file the
hashes of its content. `commit_image` makes that image of a directory where the files that have
content are and nothing that belongs elsewhere.
-/

namespace Ciruela

open Foundation

namespace Disk

/-- The path leads to these names from the root of an image. -/
def RootedAt (path : Path) (names : List FileName) : Prop :=
  path.components = .rootDir :: names.map .normal

instance (path : Path) (names : List FileName) : Decidable (RootedAt path names) :=
  inferInstanceAs (Decidable (_ = _))

/-- Names are read whether the path begins at the root or not. -/
theorem relativeNames_of_names {path : Path} {names : List FileName}
    (components : path.components.filter (· ≠ .rootDir) = names.map .normal) :
    relativeNames path = some names := by
  rw [relativeNames, components]
  clear components
  induction names with
  | nil => rfl
  | cons name rest ih =>
      rw [List.map_cons, List.mapM_cons, ih]
      rfl

theorem filter_names (names : List FileName) :
    (names.map Component.normal).filter (· ≠ .rootDir) = names.map .normal := by
  rw [List.filter_eq_self]
  intro component member
  obtain ⟨name, _, rfl⟩ := List.mem_map.mp member
  simp

/-- The names of a path that is rooted at them. -/
theorem relativeNames_of_rootedAt {path : Path} {names : List FileName}
    (rooted : RootedAt path names) : relativeNames path = some names := by
  refine relativeNames_of_names ?_
  rw [rooted, List.filter_cons_of_neg (by simp), filter_names]

/-- A path is rooted at one list of names. -/
theorem RootedAt.unique {path : Path} {names others : List FileName} (rooted : RootedAt path names)
    (again : RootedAt path others) : names = others :=
  List.map_injective_iff.mpr (fun _ _ same => Component.normal.inj same)
    (List.cons.inj (rooted.symm.trans again)).2

/-- The file name of a rooted path. -/
theorem fileName_of_rootedAt {path : Path} {dir : List FileName} {name : FileName}
    (rooted : RootedAt path (dir ++ [name])) : path.fileName = some name := by
  rw [Path.fileName_eq_some_iff, rooted, List.map_append, List.map_cons, List.map_nil,
    ← List.cons_append, List.getLast?_concat]

/-- Where an entry of the open directory is. -/
theorem locationOf_eq {path : Path} {name : FileName} {dir : List FileName} {missing : String}
    (named : path.fileName = some name) :
    locationOf (some dir) path missing = .ok (dir ++ [name]) := by
  rw [locationOf, named]
  rfl

/-- Paths begin at the root, and a file or link is in the directory that was listed last. -/
def Laid : Option (List FileName) → List Entry → Prop
  | _, [] => True
  | _, .dir path :: rest => ∃ names, RootedAt path names ∧ Laid (some names) rest
  | opened, .file path _ _ _ :: rest =>
      (∃ dir name, opened = some dir ∧ RootedAt path (dir ++ [name])) ∧ Laid opened rest
  | opened, .link path _ :: rest =>
      (∃ dir name, opened = some dir ∧ RootedAt path (dir ++ [name])) ∧ Laid opened rest

/-- The item is what the entry says. -/
def Describes (checkFile : CheckFile) : Entry → Item → Prop
  | .dir _, .dir => True
  | .link _ dest, .link target => target = dest
  | .file _ exe size hashes, .file bytes executable =>
      executable = exe ∧ bytes.length = size ∧ checkFile hashes bytes = true
  | _, _ => False

/-- The entries are those of the image. -/
structure Depicts (checkFile : CheckFile) (entries : List Entry) (image : Folder) : Prop where
  laid : Laid none entries
  distinct : ((locate none entries).map Prod.fst).Nodup
  sound : ∀ location item, image.lookup location = some item →
    location ≠ [] ∧ ∃ entry, (location, entry) ∈ locate none entries ∧ Describes checkFile entry item
  complete : ∀ location entry, (location, entry) ∈ locate none entries → location ≠ [] →
    ∃ item, image.lookup location = some item ∧ Describes checkFile entry item
  closed : ∀ location name item, image.lookup (location ++ [name]) = some item →
    location = [] ∨ image.lookup location = some .dir

/-- Every directory above something in an image is one. -/
theorem Depicts.above {checkFile : CheckFile} {entries : List Entry} {image : Folder}
    (depicts : Depicts checkFile entries image) {upper rest : List FileName} {item : Item}
    (nonempty : upper ≠ []) (more : rest ≠ [])
    (there : image.lookup (upper ++ rest) = some item) : image.lookup upper = some .dir := by
  induction rest using List.reverseRecOn generalizing item with
  | nil => exact absurd rfl more
  | append_singleton rest name ih =>
      rw [← List.append_assoc] at there
      rcases depicts.closed _ _ _ there with empty | isDir
      · exact absurd (List.append_eq_nil_iff.mp empty).1 nonempty
      · by_cases last : rest = []
        · rw [last, List.append_nil] at isDir
          exact isDir
        · exact ih last isDir

/-- The image itself has no entry. -/
theorem Depicts.lookup_nil {checkFile : CheckFile} {entries : List Entry} {image : Folder}
    (depicts : Depicts checkFile entries image) : image.lookup [] = none := by
  cases there : image.lookup [] with
  | none => rfl
  | some item => exact absurd rfl (depicts.sound _ _ there).1

/-- A directory that is listed is in the image, with those above it. -/
theorem Depicts.isDir {checkFile : CheckFile} {entries : List Entry} {image : Folder}
    (depicts : Depicts checkFile entries image) {names front : List FileName} {path : Path}
    (listed : (names, .dir path) ∈ locate none entries) (nonempty : front ≠ [])
    (isPrefix : front <+: names) : image.lookup front = some .dir := by
  obtain ⟨back, rfl⟩ := isPrefix
  obtain ⟨item, isItem, describes⟩ := depicts.complete _ _ listed (by simp [nonempty])
  have isDir : image.lookup (front ++ back) = some .dir := by
    cases item with
    | dir => exact isItem
    | file bytes exe => cases describes
    | link dest => cases describes
  by_cases last : back = []
  · rwa [last, List.append_nil] at isDir
  · exact depicts.above nonempty last isDir

/-- Every entry is located somewhere. -/
theorem exists_mem_locate {entries : List Entry} {entry : Entry} (opened : Option (List FileName))
    (member : entry ∈ entries) : ∃ location, (location, entry) ∈ locate opened entries := by
  induction entries generalizing opened with
  | nil => exact absurd member List.not_mem_nil
  | cons first rest ih =>
      rcases List.mem_cons.mp member with rfl | later
      · cases entry with
        | dir path => exact ⟨_, List.mem_cons_self⟩
        | link path dest => exact ⟨_, List.mem_cons_self⟩
        | file path exe size hashes => exact ⟨_, List.mem_cons_self⟩
      · cases first with
        | dir path =>
            obtain ⟨location, further⟩ := ih _ later
            exact ⟨location, List.mem_cons_of_mem _ further⟩
        | link path dest =>
            obtain ⟨location, further⟩ := ih _ later
            exact ⟨location, List.mem_cons_of_mem _ further⟩
        | file path exe size hashes =>
            obtain ⟨location, further⟩ := ih _ later
            exact ⟨location, List.mem_cons_of_mem _ further⟩

/-- A file is where its path leads to. -/
theorem file_of_mem_locate {entries : List Entry} {opened : Option (List FileName)}
    {location : List FileName} {path : Path} {exe : Bool} {size : Nat} {hashes : List (List UInt8)}
    (laid : Laid opened entries) (member : (location, .file path exe size hashes) ∈ locate opened entries) :
    .file path exe size hashes ∈ entries ∧ ∃ dir name, location = dir ++ [name] ∧
      RootedAt path location := by
  induction entries generalizing opened with
  | nil => exact absurd member List.not_mem_nil
  | cons first rest ih =>
      cases first with
      | dir other =>
          obtain ⟨names, rooted, laid⟩ := laid
          rw [locate, relativeNames_of_rootedAt rooted] at member
          rcases List.mem_cons.mp member with here | later
          · cases here
          · exact (ih laid later).imp_left (List.mem_cons_of_mem _)
      | link other dest =>
          rcases List.mem_cons.mp member with here | later
          · cases here
          · exact (ih laid.2 later).imp_left (List.mem_cons_of_mem _)
      | file other otherExe otherSize values =>
          obtain ⟨⟨dir, name, rfl, rooted⟩, laid⟩ := laid
          rw [locate, fileName_of_rootedAt rooted] at member
          rcases List.mem_cons.mp member with here | later
          · obtain ⟨rfl, same⟩ := Prod.mk.inj here
            obtain ⟨rfl, rfl, rfl, rfl⟩ := Entry.file.inj same
            exact ⟨List.mem_cons_self, dir, name, rfl, rooted⟩
          · exact (ih laid later).imp_left (List.mem_cons_of_mem _)

/-- Where a file is that an image has. -/
structure HasFile (checkFile : CheckFile) (image : Folder) (path : Path) (exe : Bool) (size : Nat)
    (hashes : List (List UInt8)) (dir : List FileName) (name : FileName) (content : List UInt8) :
    Prop where
  rooted : RootedAt path (dir ++ [name])
  isFile : image.lookup (dir ++ [name]) = some (.file content exe)
  length : content.length = size
  right : checkFile hashes content = true
  above : ∀ front, front ≠ [] → front <+: dir → image.lookup front = some .dir

/-- Every file of the index is one of the image. -/
theorem Depicts.hasFile {checkFile : CheckFile} {entries : List Entry} {image : Folder}
    (depicts : Depicts checkFile entries image) {path : Path} {exe : Bool} {size : Nat}
    {hashes : List (List UInt8)} (listed : .file path exe size hashes ∈ entries) :
    ∃ dir name content, HasFile checkFile image path exe size hashes dir name content := by
  obtain ⟨location, isThere⟩ := exists_mem_locate none listed
  obtain ⟨_, dir, name, rfl, rooted⟩ := file_of_mem_locate depicts.laid isThere
  obtain ⟨item, isItem, describes⟩ := depicts.complete _ _ isThere (by simp)
  cases item with
  | dir => cases describes
  | link dest => cases describes
  | file content executable =>
      obtain ⟨rfl, length, right⟩ := describes
      refine ⟨dir, name, content, rooted, isItem, length, right, fun front nonempty isPrefix => ?_⟩
      obtain ⟨back, rfl⟩ := isPrefix
      rw [List.append_assoc] at isItem
      exact depicts.above nonempty (by simp) isItem

/-- Every file of the image is in the index. -/
theorem Depicts.listed {checkFile : CheckFile} {entries : List Entry} {image : Folder}
    (depicts : Depicts checkFile entries image) {location : List FileName} {content : List UInt8}
    {exe : Bool} (isFile : image.lookup location = some (.file content exe)) :
    ∃ path hashes, .file path exe content.length hashes ∈ entries ∧ RootedAt path location ∧
      checkFile hashes content = true := by
  obtain ⟨_, entry, isThere, describes⟩ := depicts.sound location _ isFile
  cases entry with
  | dir path => cases describes
  | link path dest => cases describes
  | file path executable size hashes =>
      obtain ⟨rfl, rfl, right⟩ := describes
      obtain ⟨member, _, _, _, rooted⟩ := file_of_mem_locate depicts.laid isThere
      exact ⟨path, hashes, member, rooted, right⟩

/-- The directories on a path can be made where nothing else is in the way, and nothing else
changes. -/
theorem ensurePath_spec (folder : Folder) (location names : List FileName)
    (free : ∀ front, front ≠ [] → front <+: names →
      folder.lookup (location ++ front) = none ∨ folder.lookup (location ++ front) = some .dir) :
    ∃ after, ensurePath location names folder = .ok after ∧
      (∀ front, front ≠ [] → front <+: names → after.lookup (location ++ front) = some .dir) ∧
      ∀ other, (∀ front, front ≠ [] → front <+: names → other ≠ location ++ front) →
        after.lookup other = folder.lookup other := by
  induction names generalizing location folder with
  | nil =>
      refine ⟨folder, rfl, fun front nonempty isPrefix => ?_, fun _ _ => rfl⟩
      exact absurd (List.prefix_nil.mp isPrefix) nonempty
  | cons name rest ih =>
      -- below the first directory, once it is there
      have below {middle : Folder} (isDir : middle.lookup (location ++ [name]) = some .dir)
          (same : ∀ other, other ≠ location ++ [name] →
            middle.lookup other = folder.lookup other) :
          ∃ after, ensurePath (location ++ [name]) rest middle = .ok after ∧
            (∀ front, front ≠ [] → front <+: name :: rest →
              after.lookup (location ++ front) = some .dir) ∧
            ∀ other, (∀ front, front ≠ [] → front <+: name :: rest → other ≠ location ++ front) →
              after.lookup other = folder.lookup other := by
        obtain ⟨after, made, there, outside⟩ := ih middle (location ++ [name])
          fun front nonempty isPrefix => by
            rw [same _ (by simpa using nonempty), List.append_assoc]
            exact free (name :: front) (by simp) (List.cons_prefix_cons.mpr ⟨rfl, isPrefix⟩)
        refine ⟨after, made, fun front nonempty isPrefix => ?_, fun other apart => ?_⟩
        · cases front with
          | nil => exact absurd rfl nonempty
          | cons first front =>
              obtain ⟨rfl, later⟩ := List.cons_prefix_cons.mp isPrefix
              by_cases last : front = []
              · subst last
                rw [outside _ fun front nonempty _ => by simpa using nonempty]
                exact isDir
              · rw [← List.singleton_append, ← List.append_assoc]
                exact there front last later
        · rw [outside other fun front nonempty isPrefix => ?_, same other ?_]
          · exact apart [name] (by simp) (List.cons_prefix_cons.mpr ⟨rfl, List.nil_prefix⟩)
          · have differs := apart (name :: front) (by simp)
              (List.cons_prefix_cons.mpr ⟨rfl, isPrefix⟩)
            simpa using differs
      have first := free [name] (by simp) (List.cons_prefix_cons.mpr ⟨rfl, List.nil_prefix⟩)
      rw [ensurePath]
      rcases first with missing | isDir
      · rw [missing]
        exact below (by rw [Map.lookup_insert_eq, if_pos rfl]) fun other differs => by
          rw [Map.lookup_insert_eq, if_neg differs]
      · rw [isDir]
        exact below isDir fun _ _ => rfl

/-- The commit makes the item of an image of what is there: a file that is not executable may
become so when it has content. -/
def Item.Becomes : Item → Item → Prop
  | .dir, .dir => True
  | .file bytes exe, .file content executable =>
      bytes = content ∧ (exe = executable ∨ exe = false ∧ bytes ≠ [])
  | .link dest, .link target => dest = target
  | _, _ => False

/-- Only a directory becomes a directory. -/
theorem Item.becomes_dir {item : Item} : item.Becomes .dir ↔ item = .dir := by
  cases item <;> simp [Becomes]

/-- All content is there, and nothing that does not belong to the image. -/
structure Folder.Ready (folder image : Folder) : Prop where
  within : ∀ location item, folder.lookup location = some item →
    ∃ goal, image.lookup location = some goal ∧ item.Becomes goal
  filled : ∀ location bytes exe, image.lookup location = some (.file bytes exe) → bytes ≠ [] →
    ∃ executable, folder.lookup location = some (.file bytes executable)
  unlinked : ∀ location dest, image.lookup location = some (.link dest) →
    folder.lookup location = none

/-- The commit has come to these entries. -/
structure Folder.Pending (opened : Option (List FileName)) (rest : List Entry)
    (folder image : Folder) : Prop where
  within : ∀ location item, folder.lookup location = some item →
    ∃ goal, image.lookup location = some goal ∧ item.Becomes goal
  filled : ∀ location bytes exe, image.lookup location = some (.file bytes exe) → bytes ≠ [] →
    ∃ executable, folder.lookup location = some (.file bytes executable)
  unlinked : ∀ location path dest, (location, .link path dest) ∈ locate opened rest →
    folder.lookup location = none
  done : ∀ location item, image.lookup location = some item →
    (∀ entry, (location, entry) ∉ locate opened rest) → folder.lookup location = some item

section Commit

variable {checkFile : CheckFile} {entries rest : List Entry} {opened next : Option (List FileName)}
  {folder after image : Folder} {location : List FileName} {entry : Entry} {item : Item}

/-- An entry has its turn: its item is made, and others only become what they are to be. -/
theorem Folder.Pending.turn
    (pending : Folder.Pending opened (entry :: rest) folder image)
    (located : locate opened (entry :: rest) = (location, entry) :: locate next rest)
    (made : ∀ goal, image.lookup location = some goal → after.lookup location = some goal)
    (others : ∀ other, other ≠ location → after.lookup other = folder.lookup other ∨
      after.lookup other = some .dir ∧ image.lookup other = some .dir)
    (inside : ∀ item, after.lookup location = some item → image.lookup location = some item)
    (fresh : location ∉ (locate next rest).map Prod.fst)
    (apart : ∀ other path dest, (other, .link path dest) ∈ locate next rest →
      image.lookup other ≠ some .dir) :
    Folder.Pending next rest after image := by
  have same {goal : Item} : goal.Becomes goal := by
    cases goal <;> simp [Item.Becomes]
  refine ⟨fun other item there => ?_, fun other bytes exe isFile nonempty => ?_,
    fun other path dest member => ?_, fun other item isItem absent => ?_⟩
  · by_cases here : other = location
    · subst here
      exact ⟨item, inside item there, same⟩
    · rcases others other here with kept | ⟨isDir, goal⟩
      · exact pending.within other item (kept ▸ there)
      · obtain rfl := Option.some.inj (isDir.symm.trans there)
        exact ⟨.dir, goal, same⟩
  · by_cases here : other = location
    · subst here
      exact ⟨exe, made _ isFile⟩
    · rcases others other here with kept | ⟨_, goal⟩
      · rw [kept]
        exact pending.filled other bytes exe isFile nonempty
      · rw [goal] at isFile
        cases isFile
  · have different : other ≠ location := by
      rintro rfl
      exact fresh (List.mem_map_of_mem member)
    rcases others other different with kept | ⟨_, goal⟩
    · rw [kept]
      exact pending.unlinked other path dest (located ▸ List.mem_cons_of_mem _ member)
    · exact absurd goal (apart other path dest member)
  · by_cases here : other = location
    · subst here
      exact made item isItem
    · rcases others other here with kept | ⟨isDir, goal⟩
      · rw [kept]
        refine pending.done other item isItem fun entry' member => ?_
        rw [located] at member
        rcases List.mem_cons.mp member with first | later
        · exact here (congrArg Prod.fst first)
        · exact absent entry' later
      · rw [isDir, ← isItem, goal]

/-- What the turn of an entry needs: where the entry belongs is known, nothing else belongs
there, and the links that are left are not directories. -/
structure Turning (checkFile : CheckFile) (image : Folder) (opened next : Option (List FileName))
    (location : List FileName) (entry : Entry) (rest : List Entry) : Prop where
  located : locate opened (entry :: rest) = (location, entry) :: locate next rest
  fresh : location ∉ (locate next rest).map Prod.fst
  apart : ∀ other path dest, (other, .link path dest) ∈ locate next rest →
    image.lookup other ≠ some .dir
  rootFree : image.lookup [] = none
  described : location ≠ [] →
    ∃ item, image.lookup location = some item ∧ Describes checkFile entry item

/-- An entry that is no directory changes what is at its place only. -/
theorem Folder.Pending.put {goal : Item} (pending : Folder.Pending opened (entry :: rest) folder image)
    (turning : Turning checkFile image opened next location entry rest)
    (isGoal : image.lookup location = some goal) (put : after.lookup location = some goal)
    (others : ∀ other, other ≠ location → after.lookup other = folder.lookup other) :
    Folder.Pending next rest after image := by
  refine pending.turn turning.located (fun item isItem => ?_)
    (fun other different => Or.inl (others other different)) (fun item isItem => ?_) turning.fresh
    turning.apart
  · rw [put, ← isGoal, isItem]
  · rw [isGoal, ← put, isItem]

/-- The turn of a directory keeps what is pending. -/
theorem Folder.Pending.dir {path : Path} {names : List FileName}
    (pending : Folder.Pending opened (.dir path :: rest) folder image)
    (turning : Turning checkFile image opened (some names) names (.dir path) rest)
    (above : ∀ front, front ≠ [] → front <+: names → image.lookup front = some .dir) :
    ∃ after, ensurePath [] names folder = .ok after ∧
      Folder.Pending (some names) rest after image := by
  obtain ⟨after, made, there, outside⟩ := ensurePath_spec folder [] names
    fun front nonempty isPrefix => by
      cases found : folder.lookup front with
      | none => exact Or.inl found
      | some item =>
          obtain ⟨goal, isGoal, becomes⟩ := pending.within front item found
          rw [above front nonempty isPrefix] at isGoal
          obtain rfl := Option.some.inj isGoal
          exact Or.inr (by rw [List.nil_append, found, Item.becomes_dir.mp becomes])
  refine ⟨after, made, pending.turn turning.located (fun goal isGoal => ?_)
    (fun other different => ?_) (fun item isItem => ?_) turning.fresh turning.apart⟩
  · have nonempty : names ≠ [] := by
      rintro rfl
      rw [turning.rootFree] at isGoal
      cases isGoal
    rw [← isGoal, above names nonempty List.prefix_rfl]
    exact there names nonempty List.prefix_rfl
  · by_cases onPath : other ≠ [] ∧ other <+: names
    · exact Or.inr ⟨there other onPath.1 onPath.2, above other onPath.1 onPath.2⟩
    · refine Or.inl (outside other fun front nonempty isPrefix same => ?_)
      rw [List.nil_append] at same
      exact onPath (same ▸ ⟨nonempty, isPrefix⟩)
  · by_cases empty : names = []
    · subst empty
      rw [outside [] fun front nonempty _ => by simpa using nonempty.symm] at isItem
      obtain ⟨goal, isGoal, _⟩ := pending.within _ _ isItem
      rw [turning.rootFree] at isGoal
      cases isGoal
    · rw [← isItem, above names empty List.prefix_rfl]
      exact (there names empty List.prefix_rfl).symm

/-- The turn of a file keeps what is pending. -/
theorem Folder.Pending.file {path : Path} {exe : Bool} {size : Nat} {hashes : List (List UInt8)}
    (pending : Folder.Pending opened (.file path exe size hashes :: rest) folder image)
    (turning : Turning checkFile image opened opened location (.file path exe size hashes) rest)
    (below : location ≠ []) :
    ∃ after, commitFile checkFile location exe size hashes folder = .ok after ∧
      Folder.Pending opened rest after image := by
  obtain ⟨item, isItem, describes⟩ := turning.described below
  cases item with
  | dir => cases describes
  | link dest => cases describes
  | file bytes executable =>
      obtain ⟨rfl, rfl, right⟩ := describes
      -- an insertion of the file of the image, or a file that is there already
      have put : Folder.Pending opened rest
          (folder.insert location (.file bytes executable)) image := by
        refine pending.put turning isItem ?_ fun other different => ?_
        · rw [Map.lookup_insert_eq, if_pos rfl]
        · rw [Map.lookup_insert_eq, if_neg different]
      by_cases empty : bytes = []
      · subst empty
        cases found : folder.lookup location with
        | none => exact ⟨_, by simp only [commitFile, List.length_nil, found], put⟩
        | some item =>
            obtain ⟨goal, isGoal, becomes⟩ := pending.within location item found
            obtain rfl := Option.some.inj (isItem.symm.trans isGoal)
            cases item with
            | dir => cases becomes
            | link dest => cases becomes
            | file bytes exe =>
                obtain ⟨rfl, same | ⟨_, nonempty⟩⟩ := becomes
                · subst same
                  refine ⟨folder, ?_, pending.put turning isItem found fun _ _ => rfl⟩
                  simp only [commitFile, List.length_nil, found, if_true]
                · exact absurd rfl nonempty
      · obtain ⟨exe, found⟩ := pending.filled location bytes executable isItem empty
        have becomes : (exe || executable) = executable := by
          obtain ⟨goal, isGoal, becomes⟩ := pending.within location _ found
          obtain rfl := Option.some.inj (isItem.symm.trans isGoal)
          obtain ⟨_, rfl | ⟨rfl, _⟩⟩ := becomes
          · exact Bool.or_self exe
          · exact Bool.false_or executable
        obtain ⟨size, isSize⟩ := Nat.exists_eq_succ_of_ne_zero
          (fun none => empty (List.length_eq_zero_iff.mp none))
        refine ⟨_, ?_, put⟩
        simp only [commitFile, isSize, found, right, becomes, if_true]

/-- The turn of a link keeps what is pending. -/
theorem Folder.Pending.link {path dest : Path}
    (pending : Folder.Pending opened (.link path dest :: rest) folder image)
    (turning : Turning checkFile image opened opened location (.link path dest) rest)
    (below : location ≠ []) :
    ∃ after, commitLink location dest folder = .ok after ∧
      Folder.Pending opened rest after image := by
  obtain ⟨item, isItem, describes⟩ := turning.described below
  cases item with
  | dir => cases describes
  | file bytes exe => cases describes
  | link target =>
      obtain rfl : target = dest := describes
      have missing := pending.unlinked location path target
        (turning.located ▸ List.mem_cons_self)
      refine ⟨folder.insert location (.link target), by rw [commitLink, missing], ?_⟩
      refine pending.put turning isItem ?_ fun other different => ?_
      · rw [Map.lookup_insert_eq, if_pos rfl]
      · rw [Map.lookup_insert_eq, if_neg different]

/-- One turn of the loop. -/
theorem commitEntry_of_pending {all : List Entry} (depicts : Depicts checkFile all image)
    (among : ∀ located ∈ locate opened (entry :: rest), located ∈ locate none all)
    (distinct : ((locate opened (entry :: rest)).map Prod.fst).Nodup)
    (laid : Laid opened (entry :: rest))
    (pending : Folder.Pending opened (entry :: rest) folder image) :
    ∃ location next after, commitEntry checkFile opened folder entry = .ok (.ok (next, after)) ∧
      locate opened (entry :: rest) = (location, entry) :: locate next rest ∧ Laid next rest ∧
      Folder.Pending next rest after image := by
  have turning {next : Option (List FileName)} {location : List FileName}
      (located : locate opened (entry :: rest) = (location, entry) :: locate next rest) :
      Turning checkFile image opened next location entry rest := by
    refine ⟨located, ?_, fun other path dest member isDir => ?_, depicts.lookup_nil,
      depicts.complete location entry (among _ (located ▸ List.mem_cons_self))⟩
    · rw [located, List.map_cons, List.nodup_cons] at distinct
      exact distinct.1
    · obtain ⟨item, isItem, describes⟩ := depicts.complete other _
        (among _ (located ▸ List.mem_cons_of_mem _ member)) fun empty => by
          rw [empty, depicts.lookup_nil] at isDir
          cases isDir
      obtain rfl := Option.some.inj (isDir.symm.trans isItem)
      cases describes
  cases entry with
  | dir path =>
      obtain ⟨names, rooted, laid⟩ := laid
      have named := relativeNames_of_rootedAt rooted
      have located : locate opened (.dir path :: rest) =
          (names, .dir path) :: locate (some names) rest := by
        rw [locate, named]
        rfl
      obtain ⟨after, made, left⟩ := pending.dir (turning located)
        fun front nonempty isPrefix =>
          depicts.isDir (among _ (located ▸ List.mem_cons_self)) nonempty isPrefix
      refine ⟨names, some names, after, ?_, located, laid, left⟩
      rw [commitEntry, named]
      dsimp only
      rw [made]
      rfl
  | file path exe size hashes =>
      obtain ⟨⟨dir, name, rfl, rooted⟩, laid⟩ := laid
      have named := fileName_of_rootedAt rooted
      have located : locate (some dir) (.file path exe size hashes :: rest) =
          (dir ++ [name], .file path exe size hashes) :: locate (some dir) rest := by
        rw [locate, named]
        rfl
      obtain ⟨after, made, left⟩ := pending.file (turning located) (by simp)
      refine ⟨dir ++ [name], some dir, after, ?_, located, laid, left⟩
      rw [commitEntry, locationOf_eq named, Run.ok_bind, made]
      rfl
  | link path dest =>
      obtain ⟨⟨dir, name, rfl, rooted⟩, laid⟩ := laid
      have named := fileName_of_rootedAt rooted
      have located : locate (some dir) (.link path dest :: rest) =
          (dir ++ [name], .link path dest) :: locate (some dir) rest := by
        rw [locate, named]
        rfl
      obtain ⟨after, made, left⟩ := pending.link (turning located) (by simp)
      refine ⟨dir ++ [name], some dir, after, ?_, located, laid, left⟩
      rw [commitEntry, locationOf_eq named, Run.ok_bind, made]
      rfl

/-- Whatever is left to commit, the commit ends with the image. -/
theorem commitEntries_of_pending {all : List Entry} (depicts : Depicts checkFile all image)
    (among : ∀ located ∈ locate opened rest, located ∈ locate none all)
    (distinct : ((locate opened rest).map Prod.fst).Nodup) (laid : Laid opened rest)
    (pending : Folder.Pending opened rest folder image) :
    commitEntries checkFile rest opened folder = .ok (.ok image) := by
  induction rest generalizing opened folder with
  | nil =>
      have same : folder = image := by
        refine Finmap.ext_lookup fun location => ?_
        cases there : image.lookup location with
        | some item => exact pending.done location item there (by simp [locate])
        | none =>
            cases found : folder.lookup location with
            | none => rfl
            | some item =>
                obtain ⟨goal, isGoal, _⟩ := pending.within location item found
                rw [there] at isGoal
                cases isGoal
      rw [same]
      rfl
  | cons entry rest ih =>
      obtain ⟨location, next, after, ran, located, laid, left⟩ :=
        commitEntry_of_pending depicts among distinct laid pending
      rw [commitEntries, ran]
      refine ih (fun found member => among found (located ▸ List.mem_cons_of_mem _ member)) ?_
        laid left
      rw [located, List.map_cons, List.nodup_cons] at distinct
      exact distinct.2

/-- The commit of a directory where all content of an image is makes the image, and exactly
that. -/
theorem commitEntries_of_ready (depicts : Depicts checkFile entries image)
    (ready : folder.Ready image) :
    commitEntries checkFile entries none folder = .ok (.ok image) := by
  refine commitEntries_of_pending depicts (fun _ member => member) depicts.distinct depicts.laid
    ⟨ready.within, ready.filled, fun location path dest member => ?_,
      fun location item isItem absent => ?_⟩
  · by_cases below : location = []
    · subst below
      cases found : folder.lookup [] with
      | none => rfl
      | some item =>
          obtain ⟨goal, isGoal, _⟩ := ready.within _ _ found
          rw [depicts.lookup_nil] at isGoal
          cases isGoal
    · obtain ⟨item, isItem, describes⟩ := depicts.complete location _ member below
      cases item with
      | dir => cases describes
      | file bytes exe => cases describes
      | link target => exact ready.unlinked location target isItem
  · obtain ⟨_, entry, member, _⟩ := depicts.sound location item isItem
    exact absurd member (absent entry)

end Commit

end Disk

end Ciruela
