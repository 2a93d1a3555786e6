import Ciruela.Daemon.Metadata.BaseDirs

/-!
# What the collector opens

The calls that the collector has still to make divide the base directories among them: no two lead
to one directory, and a directory that is there and was not opened is what one of them leads to.
Each call hands what it leads to on to the calls it makes of itself, or opens it.
-/

namespace Ciruela

open Foundation

namespace Metadata

open FirstScan (IsBaseOf below_iff_isBaseOf key_eq_of_isBaseOf isBase_iff)

namespace Work

/-- The call leads to this base directory. -/
def LeadsTo (config : Config) (dir : List FileName) : Work → Prop
  | root key => IsBaseOf config key dir
  | enter upper level | scanDir upper level => Below upper level dir
  | read _ _ | listIndexes | enterIndexes _ | check _ _ | remove _ _ => False

/-- A call on the way down has a level to go. -/
def Deep : Work → Prop
  | enter _ level | scanDir _ level => 1 ≤ level
  | root _ | read _ _ | listIndexes | enterIndexes _ | check _ _ | remove _ _ => True

/-- The second half of a collection leads to no base directory. -/
theorem sweep_past {config : Config} {work : Work} (sweeps : work.scans = false) :
    work.Deep ∧ ∀ dir, ¬ work.LeadsTo config dir := by
  cases work with
  | root | enter | scanDir | read => cases sweeps
  | listIndexes | enterIndexes | check | remove => exact ⟨trivial, fun _ => not_false⟩

/-- The base directory that the call opens. -/
def opens (io : Io) (store : Meta) : Work → Option (List FileName)
  | scanDir dir level =>
      if ¬ 1 < level ∧ io.fails .signatures = false ∧ io.fails .openDir = false ∧
          dir ∈ store.signatures.dirs then some dir
      else none
  | root _ | enter _ _ | read _ _ | listIndexes | enterIndexes _ | check _ _ | remove _ _ => none

end Work

/-- The base directory that a step of the collector opens. -/
def opened (event : GcEvent) : Option (List FileName) :=
  match event.op, event.before.gc with
  | .collect io _, .running (work :: _) => work.opens io event.before.store
  | _, _ => none

open Classical in
/-- How many of the calls lead to a directory. -/
noncomputable def load (config : Config) (dir : List FileName) (works : List Work) : Nat :=
  works.countP fun work => work.LeadsTo config dir

section Load

variable {config : Config} {dir : List FileName} {work : Work} {works front back : List Work}

/-- The load of works in a row is the sum of their loads. -/
theorem load_append :
    load config dir (front ++ back) = load config dir front + load config dir back :=
  List.countP_append

theorem load_cons :
    load config dir (work :: works) = load config dir [work] + load config dir works := by
  rw [← load_append, List.singleton_append]

theorem load_single (leads : work.LeadsTo config dir) : load config dir [work] = 1 := by
  simp [load, leads]

theorem load_eq_zero (none : ∀ work ∈ works, ¬ work.LeadsTo config dir) :
    load config dir works = 0 := by
  simpa [load] using none

theorem load_single_eq_zero (none : ¬ work.LeadsTo config dir) : load config dir [work] = 0 :=
  load_eq_zero fun _ member => List.mem_singleton.mp member ▸ none

/-- One piece of work opens a directory once at most. -/
theorem load_single_le : load config dir [work] ≤ 1 := List.countP_le_length

theorem one_le_load (member : work ∈ works) (leads : work.LeadsTo config dir) :
    1 ≤ load config dir works :=
  List.countP_pos_iff.mpr ⟨work, member, by simpa using leads⟩

/-- Calls that are made for different items lead to different directories. -/
theorem load_map_le_one {Item : Type} {items : List Item} {call : Item → Work} (nodup : items.Nodup)
    (apart : ∀ first second, (call first).LeadsTo config dir → (call second).LeadsTo config dir →
      first = second) : load config dir (items.map call) ≤ 1 := by
  induction items with
  | nil => exact Nat.zero_le 1
  | cons item rest ih =>
      obtain ⟨fresh, nodup⟩ := List.nodup_cons.mp nodup
      rw [List.map_cons, load_cons]
      by_cases leads : (call item).LeadsTo config dir
      · have others : load config dir (rest.map call) = 0 := by
          refine load_eq_zero fun work member other => ?_
          obtain ⟨second, isSecond, rfl⟩ := List.mem_map.mp member
          exact fresh (apart item second leads other ▸ isSecond)
        rw [others]
        exact load_single_le
      · rw [load_single_eq_zero leads, Nat.zero_add]
        exact ih nodup

end Load

/-- A call leads to what it opens and what the calls lead to that it makes of itself. -/
structure Splits (config : Config) (store : Meta) (work : Work) (opens : Option (List FileName))
    (more : List Work) : Prop where
  deep : ∀ next ∈ more, next.Deep
  inside : ∀ next ∈ more, ∀ dir, next.LeadsTo config dir → work.LeadsTo config dir
  once : ∀ dir, opens.toList.count dir + load config dir more ≤ load config dir [work]
  all : ∀ dir ∈ store.signatures.dirs,
    load config dir [work] ≤ opens.toList.count dir + load config dir more

section Splits

variable {config : Config} {io : Io} {names : List FileName} {store after : Meta} {work : Work}
  {more : List Work}

/-- The call leads to nothing that is there. -/
theorem Splits.nothing (empty : ∀ dir ∈ store.signatures.dirs, ¬ work.LeadsTo config dir) :
    Splits config store work none [] := by
  refine ⟨nofun, nofun, fun _ => Nat.zero_le _, fun dir present => ?_⟩
  rw [load_single_eq_zero (empty dir present)]
  exact Nat.zero_le _

/-- The call goes on to another. -/
theorem Splits.single {next : Work} (deep : next.Deep)
    (same : ∀ dir, next.LeadsTo config dir ↔ work.LeadsTo config dir) :
    Splits config store work none [next] := by
  have equal (dir : List FileName) : load config dir [next] = load config dir [work] := by
    by_cases leads : work.LeadsTo config dir
    · rw [load_single leads, load_single ((same dir).mpr leads)]
    · rw [load_single_eq_zero leads, load_single_eq_zero fun other => leads ((same dir).mp other)]
  refine ⟨by simpa using deep, ?_, fun dir => ?_, fun dir _ => ?_⟩
  · simpa using fun dir => (same dir).mp
  · rw [equal]
    exact (Nat.zero_add _).le
  · rw [equal]
    exact (Nat.zero_add _).ge

/-- The call does not lead to a base directory any more. -/
theorem Splits.past (noLead : ∀ dir, ¬ work.LeadsTo config dir)
    (noNext : ∀ next ∈ more, next.Deep ∧ ∀ dir, ¬ next.LeadsTo config dir) :
    Splits config store work none more := by
  refine ⟨fun next member => (noNext next member).1, fun next member dir leads => ?_, fun dir => ?_,
    fun dir _ => ?_⟩
  · exact absurd leads ((noNext next member).2 dir)
  · rw [load_eq_zero fun next member => (noNext next member).2 dir]
    exact Nat.zero_le _
  · rw [load_single_eq_zero (noLead dir)]
    exact Nat.zero_le _

/-- A level up, what is further down is handed on to one call for each name of the listing. -/
theorem splits_upper {upper : List FileName} {level : Nat} (nodup : names.Nodup)
    (shown : names.toFinset = store.signatures.subdirs upper) :
    Splits config store (.scanDir upper (level + 2)) none
      (names.map fun name => .enter (upper ++ [name]) (level + 1)) := by
  have inside : ∀ next ∈ names.map fun name => Work.enter (upper ++ [name]) (level + 1),
      ∀ dir, next.LeadsTo config dir → Below upper (level + 2) dir := by
    intro next member dir leads
    obtain ⟨name, _, rfl⟩ := List.mem_map.mp member
    exact Below.up leads
  refine ⟨fun next member => ?_, inside, fun dir => ?_, fun dir present => ?_⟩
  · obtain ⟨name, _, rfl⟩ := List.mem_map.mp member
    exact Nat.succ_pos level
  · rw [Option.toList_none, List.count_nil, Nat.zero_add]
    by_cases leads : (Work.scanDir upper (level + 2)).LeadsTo config dir
    · rw [load_single leads]
      exact load_map_le_one nodup fun first second one two => name_eq_of_below one.1 two.1
    · rw [load_eq_zero fun next member other => leads (inside next member dir other)]
      exact Nat.zero_le _
  · rw [Option.toList_none, List.count_nil, Nat.zero_add]
    by_cases leads : (Work.scanDir upper (level + 2)).LeadsTo config dir
    · obtain ⟨name, member, below⟩ := Below.down (fun name => mem_of_shown shown) present leads
      exact load_single_le.trans (one_le_load (List.mem_map_of_mem member) below)
    · rw [load_single_eq_zero leads]
      exact Nat.zero_le _

/-- At the last level, the directory itself is opened. -/
theorem splits_leaf {dir : List FileName} {reads : List FileName} :
    Splits config store (.scanDir dir 1) (some dir) (reads.map (Work.read dir)) := by
  have noLead : ∀ next ∈ reads.map (Work.read dir), ∀ other, ¬ next.LeadsTo config other := by
    intro next member other
    obtain ⟨file, _, rfl⟩ := List.mem_map.mp member
    exact not_false
  have equal (other : List FileName) :
      (some dir).toList.count other + load config other (reads.map (Work.read dir)) =
        load config other [.scanDir dir 1] := by
    rw [load_eq_zero fun next member => noLead next member other, Nat.add_zero, Option.toList_some]
    have isDir : (Work.scanDir dir 1).LeadsTo config other ↔ other = dir := below_one_iff
    by_cases same : other = dir
    · rw [load_single (isDir.mpr same), same, List.count_singleton_self]
    · rw [load_single_eq_zero fun leads => same (isDir.mp leads)]
      exact List.count_eq_zero.mpr fun member => same (List.mem_singleton.mp member)
  refine ⟨fun next member => ?_, fun next member other leads => ?_, fun other => (equal other).le,
    fun other _ => (equal other).ge⟩
  · obtain ⟨file, _, rfl⟩ := List.mem_map.mp member
    trivial
  · exact absurd leads (noLead next member other)

/-- A call splits its work into what it leaves to do. -/
theorem Work.Calls.splits (deep : work.Deep)
    (calls : Work.Calls config io names store work more) :
    Splits config store work (work.opens io store) more := by
  cases calls with
  | @root name directory configured present =>
      exact .single directory.one_le_numLevels fun dir => below_iff_isBaseOf configured
  | noRoot missing =>
      refine .nothing fun dir present leads => ?_
      obtain ⟨name, directory, isKey, above, configured, _⟩ := leads
      exact missing name directory isKey configured
        (store.signatures.mem_of_above above present)
  | enter present => exact .single deep fun _ => Iff.rfl
  | noEnter missing =>
      exact .nothing fun dir present below =>
        missing (store.signatures.mem_of_above below.1 present)
  | @upper dir level further nodup shown =>
      obtain ⟨level, rfl⟩ := Nat.exists_eq_add_of_le' further
      rw [Work.opens, if_neg fun opens => opens.1 further]
      exact splits_upper nodup shown
  | @leaf dir level flat opens present lists =>
      obtain rfl : level = 1 := Nat.le_antisymm (not_lt.mp flat) deep
      rw [Work.opens, if_pos ⟨flat, opens.1, opens.2, present⟩]
      exact splits_leaf
  | @noLeaf dir level flat missing =>
      obtain rfl : level = 1 := Nat.le_antisymm (not_lt.mp flat) deep
      rw [Work.opens, if_neg fun opens => missing opens.2.2.2]
      exact .nothing fun other present below => missing (below_one_iff.mp below ▸ present)

/-- What the collector does when it makes a call. -/
theorem Work.splits (deep : work.Deep) (lists : work.Lists store names)
    (ran : work.run config io names store = .ok (.ok more, after)) :
    Splits config store work (work.opens io store) more := by
  have past (sweeps : work.scans = false) : Splits config store work none more := by
    refine .past (fun dir => (Work.sweep_past sweeps).2 dir) fun next member => ?_
    exact Work.sweep_past (((Work.leads lists ran).kind next member).trans sweeps)
  cases work with
  | root key => exact (calls_root ran).2.splits deep
  | enter upper level => exact (calls_enter ran).2.splits deep
  | scanDir upper level => exact (calls_scanDir lists ran).2.splits deep
  | read dir file =>
      obtain rfl : more = [] := by
        rw [Work.run] at ran
        split at ran
        · cases (Prod.mk.inj (Except.ok.inj ran)).1
        · exact (called_inj ran).1.symm
        · exact (called_inj ran).1.symm
      exact .nothing fun _ _ => not_false
  | listIndexes | enterIndexes group | check group file | remove group file => exact past rfl

/-- What is opened is there, and the call leads to it. -/
theorem Work.leadsTo_of_opens {dir : List FileName} (deep : work.Deep)
    (opens : work.opens io store = some dir) :
    work.LeadsTo config dir ∧ dir ∈ store.signatures.dirs := by
  cases work with
  | scanDir upper level =>
      obtain ⟨⟨flat, _, _, present⟩, same⟩ := Option.ite_none_right_eq_some.mp opens
      obtain rfl := Option.some.inj same
      obtain rfl : level = 1 := Nat.le_antisymm (not_lt.mp flat) deep
      exact ⟨below_one_iff.mpr rfl, present⟩
  | root | enter | read | listIndexes | enterIndexes | check | remove => cases opens

end Splits

/-- The calls of the collector that are still to be made. -/
def Gc.todo : Gc → List Work
  | .running todo => todo
  | .idle | .snapped _ => []

/-- Base directories were opened once, and the calls lead to others. -/
structure Shares (config : Config) (tree : Tree Content) (todo : List Work)
    (past : List (List FileName)) : Prop where
  deep : ∀ work ∈ todo, work.Deep
  inside : ∀ work ∈ todo, ∀ dir, work.LeadsTo config dir → config.IsBase dir
  base : ∀ dir ∈ past, dir ∈ tree.dirs ∧ config.IsBase dir
  once : ∀ dir, past.count dir + load config dir todo ≤ 1

/-- A base directory was opened, or some call leads to it. -/
def Awaited (config : Config) (first : Tree Content) (todo : List Work)
    (past : List (List FileName)) : Prop :=
  ∀ dir ∈ first.dirs, config.IsBase dir → 1 ≤ past.count dir + load config dir todo

section Shares

variable {config : Config} {io : Io} {names : List FileName} {first tree : Tree Content}
  {store after : Meta} {work : Work} {more rest todo : List Work} {past : List (List FileName)}

/-- The shares name no directory twice. -/
theorem Shares.nodup (shares : Shares config tree todo past) : past.Nodup :=
  List.nodup_iff_count_le_one.mpr fun dir => (Nat.le_add_right _ _).trans (shares.once dir)

/-- New directories do not change the shares. -/
theorem Shares.grow {larger : Tree Content} (shares : Shares config tree todo past)
    (keeps : ∀ dir ∈ tree.dirs, dir ∈ larger.dirs) : Shares config larger todo past :=
  ⟨shares.deep, shares.inside, fun dir member =>
    ⟨keeps dir (shares.base dir member).1, (shares.base dir member).2⟩, shares.once⟩

/-- The first call ends the collection. -/
theorem Shares.fail (shares : Shares config store.signatures (work :: rest) past) :
    Shares config store.signatures [] (past ++ (work.opens io store).toList) := by
  have deep := shares.deep work List.mem_cons_self
  refine ⟨nofun, nofun, fun dir member => ?_, fun dir => ?_⟩
  · rcases List.mem_append.mp member with old | new
    · exact shares.base dir old
    · obtain ⟨leads, present⟩ := Work.leadsTo_of_opens deep (Option.mem_toList.mp new)
      exact ⟨present, shares.inside work List.mem_cons_self dir leads⟩
  · have single : (work.opens io store).toList.count dir ≤ load config dir [work] := by
      cases opens : work.opens io store with
      | none => exact Nat.zero_le _
      | some other =>
          by_cases same : other = dir
          · subst same
            rw [load_single (Work.leadsTo_of_opens deep opens).1, Option.toList_some]
            exact List.count_le_length
          · rw [Option.toList_some, List.count_singleton, if_neg (by simpa using same)]
            exact Nat.zero_le _
    have once := shares.once dir
    rw [load_cons] at once
    rw [List.count_append, load, List.countP_nil]
    omega

/-- The first call is made. -/
theorem Shares.call (shares : Shares config store.signatures (work :: rest) past)
    (splits : Splits config store work (work.opens io store) more) :
    Shares config store.signatures (more ++ rest) (past ++ (work.opens io store).toList) := by
  refine ⟨fun next member => ?_, fun next member dir leads => ?_, shares.fail.base, fun dir => ?_⟩
  · rcases List.mem_append.mp member with new | old
    · exact splits.deep next new
    · exact shares.deep next (List.mem_cons_of_mem _ old)
  · rcases List.mem_append.mp member with new | old
    · exact shares.inside work List.mem_cons_self dir (splits.inside next new dir leads)
    · exact shares.inside next (List.mem_cons_of_mem _ old) dir leads
  · have once := shares.once dir
    have split := splits.once dir
    rw [load_cons] at once
    rw [List.count_append, load_append]
    omega

/-- A call keeps what is awaited. -/
theorem Awaited.call (awaited : Awaited config first (work :: rest) past)
    (keeps : ∀ dir ∈ first.dirs, dir ∈ store.signatures.dirs)
    (splits : Splits config store work (work.opens io store) more) :
    Awaited config first (more ++ rest) (past ++ (work.opens io store).toList) := by
  intro dir present base
  have waits := awaited dir present base
  have split := splits.all dir (keeps dir present)
  rw [load_cons] at waits
  rw [List.count_append, load_append]
  omega

/-- Listing the indexes opens no base directory. -/
theorem load_keys {keys : List (List Char)} {dir : List FileName} :
    load config dir (keys.map .root ++ [.listIndexes]) = load config dir (keys.map .root) := by
  have last : load config dir [Work.listIndexes] = 0 := load_single_eq_zero not_false
  rw [load_append, last, Nat.add_zero]

/-- The keys of the configuration share out the base directories. -/
theorem shares_keys {keys : List (List Char)} (nodup : keys.Nodup)
    (complete : keys.toFinset = config.dirs.keys) :
    Shares config tree (keys.map .root ++ [.listIndexes]) [] := by
  refine ⟨fun work member => ?_, fun work member dir leads => ?_, nofun, fun dir => ?_⟩
  · rcases List.mem_append.mp member with isRoot | isLast
    · obtain ⟨key, _, rfl⟩ := List.mem_map.mp isRoot
      trivial
    · obtain rfl := List.mem_singleton.mp isLast
      trivial
  · rcases List.mem_append.mp member with isRoot | isLast
    · obtain ⟨key, isKey, rfl⟩ := List.mem_map.mp isRoot
      exact (isBase_iff complete).mpr ⟨key, isKey, leads⟩
    · obtain rfl := List.mem_singleton.mp isLast
      exact leads.elim
  · rw [List.count_nil, Nat.zero_add, load_keys]
    exact load_map_le_one nodup fun _ _ => key_eq_of_isBaseOf

/-- Everything is awaited at first. -/
theorem awaited_keys {keys : List (List Char)} (complete : keys.toFinset = config.dirs.keys) :
    Awaited config first (keys.map .root ++ [.listIndexes]) [] := by
  intro dir _ base
  rw [List.count_nil, Nat.zero_add, load_keys]
  obtain ⟨key, isKey, leads⟩ := (isBase_iff complete).mp base
  exact one_le_load (List.mem_map_of_mem isKey) leads

end Shares

end Metadata

end Ciruela
