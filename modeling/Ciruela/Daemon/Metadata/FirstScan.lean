import Ciruela.Daemon.Metadata.AllStates
import Ciruela.Daemon.Metadata.IndexGc

/-!
# The scan for base directories

When the daemon starts, `first_scan` goes down from the configured keys, as many levels as are
configured, and reports the directories it comes to. The order of the keys is that of a hash
table, and the order of a listing is up to the system.

Other threads make directories while it runs. What a scan reports is described by the territory it
is sent to: each directory of it once, and all that were there before it began.
-/

namespace Ciruela

open Foundation

namespace Metadata

/-- The place of a directory below the signatures among the virtual paths. -/
def dirPlace (dir : List FileName) : List Component := .rootDir :: dir.map .normal

namespace FirstScan

/-- What the system answers to the calls of a scan. -/
structure View where
  signatures : Except Error Unit
  listDirs : List FileName → Except Error (List FileName)
  dirIfExists : List FileName → Except Error Bool

/-- What was reported, and how the scan has ended. -/
abbrev Reports := List VPath × Except Error Unit

/-- A loop that ends at the first error. What was reported before stays reported. -/
def inOrder {Item : Type} (turn : Item → Run Reports) : List Item → Run Reports
  | [] => return ([], .ok ())
  | item :: rest => do
      let (reported, result) ← turn item
      match result with
      | .error error => return (reported, .error error)
      | .ok () => do
          let (more, result) ← inOrder turn rest
          return (reported ++ more, result)

namespace View

variable (view : View)

/-- `if let Some(dir) = dir_if_exists(..)?`. -/
def enter (dir : List FileName) (rest : Run Reports) : Run Reports :=
  match view.dirIfExists dir with
  | .error error => return ([], .error error)
  | .ok false => return ([], .ok ())
  | .ok true => rest

/-- `scan_dir`. The names of a listing pass the assertion of `dir_if_exists`. -/
def scanDir (path : Path) (dir : List FileName) : Nat → Run Reports
  | level + 2 =>
      match view.listDirs dir with
      | .error error => return ([], .error error)
      | .ok names =>
          inOrder (fun item => view.enter (dir ++ [item])
            (scanDir (path.join (Path.ofText item.text)) (dir ++ [item]) (level + 1))) names
  | _ => do
      let vpath ← VPath.fromPath path
      return ([vpath], .ok ())

/-- The turn of a key. There is no directory without a name. -/
def scanKey (config : Config) (key : List Char) : Run Reports := do
  Run.assert (key ≠ ['.'] && key ≠ ['.', '.'] && !decide ('/' ∈ key))
    "name != \".\" && name != \"..\" && name.find(\"/\").is_none()"
  match FileName.ofText key, config.dirs.lookup key with
  | some name, some directory =>
      view.enter [name]
        (view.scanDir (VPath.rootPath.join (Path.ofText key)) [name] directory.numLevels)
  | _, _ => return ([], .ok ())

/-- `scan`, with the keys in this order. -/
def scan (config : Config) (keys : List (List Char)) : Run Reports :=
  match view.signatures with
  | .error error => return ([], .error error)
  | .ok () => inOrder (view.scanKey config) keys

/-- The system shows what was there before the scan, and what it opens is there after it. -/
structure Sees (before after : Tree Content) : Prop where
  lists : ∀ dir names, view.listDirs dir = .ok names →
    names.Nodup ∧ ∀ name, dir ++ [name] ∈ before.dirs → name ∈ names
  opens : ∀ dir found, view.dirIfExists dir = .ok found →
    (dir ∈ before.dirs → found = true) ∧ (found = true → dir ∈ after.dirs)

/-- No call fails. -/
structure Working : Prop where
  signatures : view.signatures = .ok ()
  listDirs : ∀ dir error, view.listDirs dir ≠ .error error
  dirIfExists : ∀ dir error, view.dirIfExists dir ≠ .error error

end View

end FirstScan

/-- Directories are told apart by their places. -/
theorem dirPlace_injective : Function.Injective dirPlace := by
  intro first second same
  exact List.map_injective_iff.mpr (fun _ _ => Component.normal.inj) (List.cons.inj same).2

/-- The name of a file passes the assertion of `dir_if_exists`. -/
theorem name_passes (name : FileName) (text : String) :
    Run.assert (decide (name.text ≠ ['.']) && decide (name.text ≠ ['.', '.']) &&
      !decide ('/' ∈ name.text)) text = .ok () :=
  Run.assert_eq_ok_iff.mpr (by simp [name.notDot, name.notDotDot, name.slashFree])

theorem dirPlace_append (dir : List FileName) (name : FileName) :
    dirPlace (dir ++ [name]) = dirPlace dir ++ [.normal name] := by
  simp [dirPlace]

namespace FirstScan

/-- The directories of a territory are reported once each, all that were there when nothing goes wrong,
and nothing else is. -/
structure Covers (before after : Tree Content) (view : View) (territory : List FileName → Prop)
    (reports : Reports) : Prop where
  ends : view.Working → reports.2 = .ok ()
  nodup : (reports.1.map VPath.place).Nodup
  sound : ∀ vpath ∈ reports.1, ∃ dir ∈ after.dirs, territory dir ∧ vpath.place = dirPlace dir
  complete : reports.2 = .ok () → ∀ dir ∈ before.dirs, territory dir →
    dirPlace dir ∈ reports.1.map VPath.place

section Covers

variable {before after : Tree Content} {view : View} {territory : List FileName → Prop}

/-- Nothing is reported, and there is nothing to report. -/
theorem Covers.nothing (empty : ∀ dir ∈ before.dirs, ¬ territory dir) :
    Covers before after view territory ([], .ok ()) :=
  ⟨fun _ => rfl, List.nodup_nil, nofun, fun _ dir present inside => absurd inside (empty dir present)⟩

/-- A call fails. -/
theorem Covers.failed {error : Error} (broken : ¬ view.Working) :
    Covers before after view territory ([], .error error) :=
  ⟨fun works => absurd works broken, List.nodup_nil, nofun, nofun⟩

/-- The territory of a scan may be told in other words. -/
theorem Covers.congr {other : List FileName → Prop} {reports : Reports}
    (covers : Covers before after view territory reports)
    (widen : ∀ dir, territory dir → other dir)
    (narrow : ∀ dir ∈ before.dirs, other dir → territory dir) :
    Covers before after view other reports := by
  refine ⟨covers.ends, covers.nodup, fun vpath member => ?_, fun ended dir present inside => ?_⟩
  · obtain ⟨dir, present, inside, located⟩ := covers.sound vpath member
    exact ⟨dir, present, widen dir inside, located⟩
  · exact covers.complete ended dir present (narrow dir present inside)

/-- Turns that cover their territories cover all of them, when no two have a directory in common. -/
theorem inOrder_covers {Item : Type} {turn : Item → Run Reports} {items : List Item}
    {territory : Item → List FileName → Prop} (nodup : items.Nodup)
    (apart : ∀ first ∈ items, ∀ second ∈ items, ∀ dir, territory first dir → territory second dir →
      first = second)
    (turns : ∀ item ∈ items, ∃ reports, turn item = .ok reports ∧
      Covers before after view (territory item) reports) :
    ∃ reports, inOrder turn items = .ok reports ∧
      Covers before after view (fun dir => ∃ item ∈ items, territory item dir) reports := by
  induction items with
  | nil => exact ⟨([], .ok ()), rfl, .nothing (by simp)⟩
  | cons item rest ih =>
      obtain ⟨fresh, nodup⟩ := List.nodup_cons.mp nodup
      obtain ⟨⟨reported, result⟩, took, covers⟩ := turns item List.mem_cons_self
      rw [inOrder, took, Run.ok_bind]
      have widen : ∀ dir, territory item dir → ∃ other ∈ item :: rest, territory other dir :=
        fun dir inside => ⟨item, List.mem_cons_self, inside⟩
      cases result with
      | error error =>
          refine ⟨_, rfl, covers.ends, covers.nodup, fun vpath member => ?_, nofun⟩
          obtain ⟨dir, present, inside, located⟩ := covers.sound vpath member
          exact ⟨dir, present, widen dir inside, located⟩
      | ok =>
          obtain ⟨⟨more, result⟩, later, others⟩ :=
            ih nodup
              (fun first member second member' => apart first (List.mem_cons_of_mem _ member) second
                (List.mem_cons_of_mem _ member'))
              fun other member => turns other (List.mem_cons_of_mem _ member)
          rw [later]
          refine ⟨_, rfl, others.ends, ?_, fun vpath member => ?_, fun ended dir present inside => ?_⟩
          · -- what was reported before is in another territory
            rw [List.map_append, List.nodup_append']
            refine ⟨covers.nodup, others.nodup, fun place first second => ?_⟩
            obtain ⟨vpath, member, rfl⟩ := List.mem_map.mp first
            obtain ⟨vpath', member', same⟩ := List.mem_map.mp second
            obtain ⟨dir, _, inside, located⟩ := covers.sound vpath member
            obtain ⟨dir', _, ⟨other, isOther, inside'⟩, located'⟩ := others.sound vpath' member'
            obtain rfl := dirPlace_injective (located'.symm.trans (same.trans located))
            obtain rfl := apart item List.mem_cons_self other (List.mem_cons_of_mem _ isOther) dir'
              inside inside'
            exact fresh isOther
          · rcases List.mem_append.mp member with first | second
            · obtain ⟨dir, present, inside, located⟩ := covers.sound vpath first
              exact ⟨dir, present, widen dir inside, located⟩
            · obtain ⟨dir, present, ⟨other, isOther, inside⟩, located⟩ := others.sound vpath second
              exact ⟨dir, present, ⟨other, List.mem_cons_of_mem _ isOther, inside⟩, located⟩
          · rw [List.map_append, List.mem_append]
            obtain ⟨other, isOther, inside⟩ := inside
            rcases List.mem_cons.mp isOther with rfl | isOther
            · exact Or.inl (covers.complete rfl dir present inside)
            · exact Or.inr (others.complete ended dir present ⟨other, isOther, inside⟩)

variable {config : Config}

/-- Entering a directory covers what is in it. -/
theorem enter_covers (sees : view.Sees before after) {dir : List FileName} {rest : Run Reports}
    (inside : ∀ other, territory other → dir <+: other)
    (goesOn : dir ∈ after.dirs → ∃ reports, rest = .ok reports ∧
      Covers before after view territory reports) :
    ∃ reports, view.enter dir rest = .ok reports ∧ Covers before after view territory reports := by
  unfold View.enter
  cases opens : view.dirIfExists dir with
  | error error => exact ⟨_, rfl, .failed fun works => works.dirIfExists dir error opens⟩
  | ok found =>
      obtain ⟨shows, isThere⟩ := sees.opens dir found opens
      cases found with
      | false =>
          refine ⟨_, rfl, .nothing fun other present below => ?_⟩
          exact Bool.false_ne_true (shows (before.mem_of_above (inside other below) present))
      | true => exact goesOn (isThere rfl)

/-- A scan covers the directory down to the level that it stops at. -/
theorem scanDir_covers (sees : view.Sees before after) {path : Path} {dir : List FileName}
    {level : Nat} (located : path.components = dirPlace dir) (nonempty : dir ≠ [])
    (present : dir ∈ after.dirs) (positive : 1 ≤ level) :
    ∃ reports, view.scanDir path dir level = .ok reports ∧
      Covers before after view (Below dir level) reports := by
  induction level generalizing path dir with
  | zero => omega
  | succ level ih =>
      cases level with
      | zero =>
          have valid : path.isAbsolute = true ∧ path.components ≠ [.rootDir] := by
            rw [Path.isAbsolute_iff_head?, located]
            exact ⟨rfl, by simpa [dirPlace] using nonempty⟩
          have leaf : view.scanDir path dir (0 + 1) = .ok ([⟨path, valid.1, valid.2⟩], .ok ()) := by
            rw [View.scanDir, VPath.fromPath, dif_pos valid]
            · rfl
            · nofun
          refine ⟨_, leaf, fun _ => rfl, List.nodup_singleton _, fun vpath member => ?_,
            fun _ other _ inside => ?_⟩
          · obtain rfl := List.mem_singleton.mp member
            exact ⟨dir, present, below_one_iff.mpr rfl, located⟩
          · obtain rfl := below_one_iff.mp inside
            exact List.mem_singleton.mpr located.symm
      | succ level =>
          rw [View.scanDir]
          cases lists : view.listDirs dir with
          | error error => exact ⟨_, rfl, .failed fun works => works.listDirs dir error lists⟩
          | ok names =>
              obtain ⟨distinct, shown⟩ := sees.lists dir names lists
              have apart : ∀ first ∈ names, ∀ second ∈ names, ∀ other,
                  Below (dir ++ [first]) (level + 1) other →
                  Below (dir ++ [second]) (level + 1) other → first = second :=
                fun first _ second _ other one two => name_eq_of_below one.1 two.1
              obtain ⟨reports, ran, covers⟩ := inOrder_covers distinct apart fun item member =>
                enter_covers sees (fun other below => below.1) fun isThere =>
                  ih (by rw [Path.components_join_fileName, located, dirPlace_append]) (by simp)
                    isThere (by omega)
              exact ⟨reports, ran, covers.congr (fun other ⟨_, _, below⟩ => below.up)
                fun other isThere below => below.down shown isThere⟩

/-- What is configured has the name of a file without its ending. -/
theorem exists_name_of_readDirs {Errors : Type} {parseConfig : FileName → Except Errors Directory}
    {files : List FileName} {dirs : Map (List Char) Directory}
    (reads : readDirs parseConfig files = .ok dirs) {key : List Char} (present : key ∈ dirs) :
    ∃ name : FileName, name.text = key := by
  unfold readDirs at reads
  generalize isShown : (files.filter fun fname => _) = shown at reads
  have listed : ∀ fname ∈ shown, startsWith fname.text ".".toList = false ∧
      endsWith fname.text ".yaml".toList = true := by
    rintro fname member
    rw [← isShown] at member
    simpa using (List.mem_filter.mp member).2
  clear isShown
  have none : ∀ key ∈ (∅ : Map (List Char) Directory), ∃ name : FileName, name.text = key :=
    fun key absent => absurd absent Finmap.notMem_empty
  generalize (∅ : Map (List Char) Directory) = start at reads none
  induction shown generalizing start with
  | nil =>
      obtain rfl := Except.ok.inj reads
      exact none key present
  | cons fname rest ih =>
      rw [List.foldlM_cons] at reads
      obtain ⟨visible, ends⟩ := listed fname List.mem_cons_self
      cases parsed : parseConfig fname with
      | error errors =>
          rw [parsed] at reads
          cases reads
      | ok config =>
          rw [parsed] at reads
          refine ih (fun other member => listed other (List.mem_cons_of_mem _ member))
            (start.insert (dropEnd fname.text 5) config) reads fun key member => ?_
          rcases (Finmap.mem_insert.mp member) with rfl | old
          · exact exists_name_of_visible (dropEnd_append_of_endsWith ends).symm visible rfl
          · exact none key old

/-- A base directory of a key. -/
def IsBaseOf (config : Config) (key : List Char) (dir : List FileName) : Prop :=
  ∃ name directory, name.text = key ∧ [name] <+: dir ∧ config.dirs.lookup key = some directory ∧
    dir.length = directory.numLevels

/-- The directories at the right depth below a key are its base directories. -/
theorem below_iff_isBaseOf {name : FileName} {directory : Directory} {dir : List FileName}
    (configured : config.dirs.lookup name.text = some directory) :
    Below [name] directory.numLevels dir ↔ IsBaseOf config name.text dir := by
  constructor
  · rintro ⟨above, depth⟩
    refine ⟨name, directory, rfl, above, configured, ?_⟩
    rw [List.length_singleton] at depth
    omega
  · rintro ⟨other, found, same, above, isFound, depth⟩
    obtain rfl := FileName.ext same
    obtain rfl := Option.some.inj (configured.symm.trans isFound)
    refine ⟨above, ?_⟩
    rw [List.length_singleton, depth, Nat.add_comm]

/-- A base directory belongs to one key. -/
theorem key_eq_of_isBaseOf {first second : List Char} {dir : List FileName}
    (one : IsBaseOf config first dir) (two : IsBaseOf config second dir) : first = second := by
  obtain ⟨name, _, rfl, above, _⟩ := one
  obtain ⟨other, _, rfl, above', _⟩ := two
  have same : name = other := name_eq_of_below (List.nil_append [name] ▸ above) above'
  rw [same]

/-- The base directories are those of the keys. -/
theorem isBase_iff {keys : List (List Char)} (complete : keys.toFinset = config.dirs.keys)
    {dir : List FileName} : config.IsBase dir ↔ ∃ key ∈ keys, IsBaseOf config key dir := by
  constructor
  · rintro ⟨name, directory, above, configured, depth⟩
    refine ⟨name.text, ?_, name, directory, rfl, above, configured, depth⟩
    rw [← List.mem_toFinset, complete, Finmap.mem_keys]
    exact Finmap.mem_of_lookup_eq_some configured
  · rintro ⟨_, _, name, directory, rfl, above, configured, depth⟩
    exact ⟨name, directory, above, configured, depth⟩

/-- The scan of a key covers its base directories. -/
theorem scanKey_covers (sees : view.Sees before after) (name : FileName) :
    ∃ reports, view.scanKey config name.text = .ok reports ∧
      Covers before after view (IsBaseOf config name.text) reports := by
  rw [View.scanKey, name_passes, Run.ok_bind, FileName.ofText_eq_some_iff.mpr rfl]
  cases configured : config.dirs.lookup name.text with
  | none =>
      refine ⟨_, rfl, .nothing fun dir _ inside => ?_⟩
      obtain ⟨_, _, _, _, isFound, _⟩ := inside
      exact nomatch configured.symm.trans isFound
  | some directory =>
      refine enter_covers sees (fun other inside => ?_) fun isThere => ?_
      · exact ((below_iff_isBaseOf configured).mpr inside).1
      · have root : (VPath.rootPath.join (Path.ofText name.text)).components = dirPlace [name] :=
          Path.components_join_fileName _ _
        obtain ⟨reports, ran, covers⟩ := scanDir_covers sees root (by simp) isThere
          directory.one_le_numLevels
        exact ⟨reports, ran, covers.congr (fun dir => (below_iff_isBaseOf configured).mp) fun dir _ =>
          (below_iff_isBaseOf configured).mpr⟩

/-- The scan covers the base directories. -/
theorem scan_covers (sees : view.Sees before after) {keys : List (List Char)} (nodup : keys.Nodup)
    (complete : keys.toFinset = config.dirs.keys)
    (named : ∀ key ∈ keys, ∃ name : FileName, name.text = key) :
    ∃ reports, view.scan config keys = .ok reports ∧
      Covers before after view config.IsBase reports := by
  unfold View.scan
  cases opened : view.signatures with
  | error error =>
      exact ⟨_, rfl, .failed fun works => nomatch opened.symm.trans works.signatures⟩
  | ok =>
      have turns : ∀ key ∈ keys, ∃ reports, view.scanKey config key = .ok reports ∧
          Covers before after view (IsBaseOf config key) reports := by
        intro key member
        obtain ⟨name, rfl⟩ := named key member
        exact scanKey_covers sees name
      have apart : ∀ first ∈ keys, ∀ second ∈ keys, ∀ dir, IsBaseOf config first dir →
          IsBaseOf config second dir → first = second :=
        fun first _ second _ dir one two => key_eq_of_isBaseOf one two
      obtain ⟨reports, ran, covers⟩ := inOrder_covers nodup apart turns
      exact ⟨reports, ran, covers.congr (fun dir => (isBase_iff complete).mpr) fun dir _ =>
        (isBase_iff complete).mp⟩

end Covers

end FirstScan

end Metadata

end Ciruela
