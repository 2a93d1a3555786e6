import Ciruela.Daemon.Metadata.OpenedDirs

/-!
# The two scans agree

A pass of the collector runs among the steps of the other threads, and these only add directories.
So what a pass has opened, and what its calls still lead to, are the base directories, each of them
once. A pass that comes to the indexes has opened all that were there when it began.
-/

namespace Ciruela

open Foundation

namespace Metadata

open FirstScan (Covers IsBaseOf Reports View below_iff_isBaseOf exists_name_of_readDirs isBase_iff
  scan_covers)

section Passing

variable {env : Env} {first : Tree Content} {history trace : List GcEvent} {event : GcEvent}
  {workers done : Workers}

/-- What a pass has done so far, on a disk that began as `first`. -/
structure Passes (env : Env) (first : Tree Content) (history : List GcEvent) (workers : Workers) :
    Prop where
  keeps : ∀ dir ∈ first.dirs, dir ∈ workers.store.signatures.dirs
  shares : Shares env.config workers.store.signatures workers.gc.todo (history.filterMap opened)
  awaited : ∀ todo, workers.gc = .running todo →
    Awaited env.config first todo (history.filterMap opened)

theorem opened_snoc :
    (history ++ [event]).filterMap opened = history.filterMap opened ++ (opened event).toList := by
  rw [List.filterMap_append]
  cases isOpened : opened event with
  | none => rw [List.filterMap_cons_none isOpened]; rfl
  | some dir => rw [List.filterMap_cons_some isOpened]; rfl

/-- A step of another thread. -/
theorem Passes.other (passes : Passes env first history event.before) (none : opened event = none)
    (keeps : KeepsDirs event.before.store event.after.store)
    (same : event.after.gc = event.before.gc) :
    Passes env first (history ++ [event]) event.after := by
  refine ⟨fun dir present => keeps dir (passes.keeps dir present), ?_, ?_⟩
  · rw [opened_snoc, none, Option.toList_none, List.append_nil, same]
    exact passes.shares.grow keeps
  · rw [opened_snoc, none, Option.toList_none, List.append_nil, same]
    exact passes.awaited

/-- The pass is at its end, or failed. -/
theorem Passes.stop (passes : Passes env first history event.before)
    (signatures : event.after.store.signatures = event.before.store.signatures)
    (stopped : event.after.gc = .idle ∨ ∃ images, event.after.gc = .snapped images)
    (shares : Shares env.config event.before.store.signatures []
      (history.filterMap opened ++ (opened event).toList)) :
    Passes env first (history ++ [event]) event.after := by
  refine ⟨fun dir present => signatures ▸ passes.keeps dir present, ?_, fun todo running => ?_⟩
  · have nothing : event.after.gc.todo = [] := by
      rcases stopped with idle | ⟨images, snapped⟩
      · rw [idle, Gc.todo]
      · rw [snapped, Gc.todo]
    rw [opened_snoc, nothing, signatures]
    exact shares
  · rcases stopped with idle | ⟨images, snapped⟩
    · cases idle.symm.trans running
    · cases snapped.symm.trans running

/-- Work on the metadata loses no directory. -/
theorem pending_dirs {pending : Pending} {io : Io} {partly : List UInt8} {store after : Meta}
    (ran : pending.run env io partly store = .ok after) : KeepsDirs store after := by
  cases pending with
  | append keys params =>
      obtain ⟨result, started, returned⟩ := Run.bind_eq_ok_iff.mp ran
      obtain rfl := Except.ok.inj returned
      exact (startAppendMarked_asks started).dirs
  | replace keys params =>
      obtain ⟨result, started, returned⟩ := Run.bind_eq_ok_iff.mp ran
      obtain rfl := Except.ok.inj returned
      exact (startReplaceMarked_asks started).dirs
  | storeIndex image data =>
      obtain ⟨result, written, returned⟩ := Run.bind_eq_ok_iff.mp ran
      obtain rfl := Except.ok.inj returned
      exact .of_eq (writeIndex_kept written).2.1

/-- Where the collector makes no call, nothing is opened. -/
theorem opened_eq_none (quiet : ∀ io names, event.op = .collect io names →
    event.before.gc = .running []) : opened event = none := by
  unfold opened
  split
  · rename_i io names work rest kind stage
    cases (quiet io names kind).symm.trans stage
  · rfl

/-- Every step but the beginning of another pass goes on with this one. -/
theorem Passes.step (passes : Passes env first history event.before)
    (valid : (gcMachine env).Takes event) (single : ∀ keys, event.op ≠ .publish keys) :
    Passes env first (history ++ [event]) event.after := by
  have moves := Workers.moves_of_exec (exec_of_gcTakes valid)
  have shares := passes.shares
  generalize kind : event.op = op at moves
  have silent (quiet : ∀ io names, op ≠ .collect io names) : opened event = none :=
    opened_eq_none fun io names isCollect => absurd (kind.symm.trans isCollect) (quiet io names)
  have opens {io : Io} {names : List FileName} {work : Work} {rest : List Work}
      (isCollect : event.op = .collect io names) (stage : event.before.gc = .running (work :: rest)) :
      opened event = work.opens io event.before.store := by
    rw [opened, isCollect, stage]
  cases moves with
  | mark marked same =>
      exact passes.other (silent (by simp)) (.of_eq (by rw [marked]; rfl)) same
  | act found ran same => exact passes.other (silent (by simp)) (pending_dirs ran) same
  | operate plain ran same => exact passes.other (silent (by simp)) (run_dirs ran).1 same
  | snapshot idle after =>
      refine passes.stop (by rw [after]) (Or.inr ⟨_, by rw [after]⟩) ?_
      rw [idle] at shares
      rw [silent (by simp), Option.toList_none, List.append_nil]
      exact shares
  | publish snapped complete after => exact absurd kind (single _)
  | finish stage after =>
      refine passes.stop (by rw [after]) (Or.inl (by rw [after])) ?_
      rw [stage] at shares
      rw [opened_eq_none fun _ _ _ => stage, Option.toList_none, List.append_nil]
      exact shares
  | @call io names work rest more store stage lists ran after =>
      rw [stage] at shares
      have splits := Work.splits (shares.deep work List.mem_cons_self) lists ran
      have signatures : event.after.store.signatures = event.before.store.signatures := by
        rw [after]
        exact Work.run_signatures ran
      refine ⟨fun dir present => signatures ▸ passes.keeps dir present, ?_, fun todo running => ?_⟩
      · rw [opened_snoc, opens kind stage, signatures, after]
        exact shares.call splits
      · rw [after] at running
        obtain rfl := Gc.running.inj running
        rw [opened_snoc, opens kind stage]
        exact (passes.awaited _ stage).call passes.keeps splits
  | @fail io names work rest stage ran idle =>
      rw [stage] at shares
      have signatures : event.after.store.signatures = event.before.store.signatures := by
        rcases ran with same | ⟨error, ran⟩
        · rw [same]
        · exact Work.run_signatures ran
      refine passes.stop signatures (Or.inl idle) ?_
      rw [opens kind stage]
      exact shares.fail

/-- The collector is about to make the first of its calls. -/
def Begins (env : Env) (first : Tree Content) (workers : Workers) : Prop :=
  workers.store.signatures = first ∧ ∃ keys : List (List Char), keys.Nodup ∧
    keys.toFinset = env.config.dirs.keys ∧ workers.gc = .running (keys.map .root ++ [.listIndexes])

/-- A pass of the collector, from the first of its calls on, among the steps of the other threads. -/
structure Pass (env : Env) (first : Tree Content) (trace : List GcEvent) (done : Workers) : Prop where
  began : ∃ workers, Begins env first workers ∧ (gcMachine env).Steps workers trace done
  single : ∀ event ∈ trace, ∀ keys, event.op ≠ .publish keys

/-- The steps of a pass make it up. -/
theorem Pass.passes (pass : Pass env first trace done) : Passes env first trace done := by
  obtain ⟨workers, ⟨rfl, keys, nodup, complete, stage⟩, steps⟩ := pass.began
  refine steps.preserves_history (Passes env workers.store.signatures)
    (fun event => ∀ keys, event.op ≠ .publish keys)
    (fun history event valid single passes => passes.step valid single) pass.single ?_
  refine ⟨fun _ present => present, ?_, fun todo running => ?_⟩
  · rw [stage]
    exact shares_keys nodup complete
  · obtain rfl := Gc.running.inj (stage.symm.trans running)
    exact awaited_keys complete

end Passing

/-- The state files of these directories can be read. -/
def Readable (tree : Tree Content) (territory : List FileName → Prop) : Prop :=
  ∀ dir, territory dir → ∀ file, ListedState file → (tree.files dir).lookup file ≠ some .broken

/-- The collector goes on alone, without a failure, until these calls are left. -/
def Drained (env : Env) (workers : Workers) (rest : List Work) : Prop :=
  ∃ trace done, (gcMachine env).Steps workers trace done ∧
    done.store.signatures = workers.store.signatures ∧ done.gc = .running rest ∧
    ∀ event ∈ trace, ∃ names, event.op = .collect Io.working names

/-- The collector gets past the call. -/
def Drains (env : Env) (tree : Tree Content) (work : Work) : Prop :=
  ∀ workers rest, workers.store.signatures = tree → workers.gc = .running (work :: rest) →
    Drained env workers rest

section Draining

variable {env : Env} {tree : Tree Content} {workers : Workers} {work : Work} {works rest : List Work}

/-- Work that is drained piece by piece is drained. -/
theorem drained_of_all (drains : ∀ work ∈ works, Drains env tree work)
    (located : workers.store.signatures = tree) (stage : workers.gc = .running (works ++ rest)) :
    Drained env workers rest := by
  induction works generalizing workers with
  | nil => exact ⟨[], workers, .refl, rfl, stage, fun _ none => absurd none List.not_mem_nil⟩
  | cons work works ih =>
      obtain ⟨front, middle, first, kept, reached, alone⟩ :=
        drains work List.mem_cons_self workers (works ++ rest) located stage
      obtain ⟨back, done, second, kept', ended, alone'⟩ :=
        ih (fun other member => drains other (List.mem_cons_of_mem _ member)) (kept.trans located)
          reached
      refine ⟨front ++ back, done, first.append second, kept'.trans kept, ended, ?_⟩
      intro event member
      exact (List.mem_append.mp member).elim (alone event) (alone' event)

/-- A call that succeeds and leads to calls that are got past. -/
theorem drains_of_call
    (called : ∀ store : Meta, store.signatures = tree → ∃ names more after, work.Lists store names ∧
      work.run env.config Io.working names store = .ok (.ok more, after) ∧
      ∀ next ∈ more, Drains env tree next) : Drains env tree work := by
  intro workers rest located stage
  obtain ⟨names, more, after, lists, ran, drains⟩ := called workers.store located
  have valid : (gcMachine env).Takes ⟨workers, .collect Io.working names, (),
      ⟨after, workers.marked, .running (more ++ rest)⟩⟩ := by
    simp only [Machine.Takes, gcMachine, Workers.exec, stage, if_pos lists, ran, Option.map_some]
  have kept : after.signatures = workers.store.signatures := Work.run_signatures ran
  have moved : Drained env ⟨after, workers.marked, .running (more ++ rest)⟩ rest :=
    drained_of_all drains (kept.trans located) rfl
  obtain ⟨trace, done, steps, kept', ended, alone⟩ := moved
  refine ⟨_, done, .cons valid steps, kept'.trans kept, ended, fun event member => ?_⟩
  rcases List.mem_cons.mp member with rfl | later
  · exact ⟨names, rfl⟩
  · exact alone event later

/-- A file that is not broken is drained by being read. -/
theorem drains_read {dir : List FileName} {file : FileName}
    (whole : (tree.files dir).lookup file ≠ some .broken) : Drains env tree (.read dir file) := by
  refine drains_of_call fun store located => ?_
  subst located
  cases found : (store.signatures.files dir).lookup file with
  | none => exact ⟨[], [], store, trivial, by simp [Work.run, readFile, found]; rfl, List.forall_mem_nil _⟩
  | some content =>
      cases content with
      | broken => exact absurd found whole
      | state state =>
          exact ⟨[], [], store.markUsed state.image, trivial,
            by simp [Work.run, readFile, found]; rfl, List.forall_mem_nil _⟩

/-- A directory is drained when what is in it is. -/
theorem drains_enter {dir : List FileName} {level : Nat}
    (inner : Drains env tree (.scanDir dir level)) : Drains env tree (.enter dir level) := by
  refine drains_of_call fun store located => ?_
  by_cases present : dir ∈ store.signatures.dirs
  · refine ⟨[], [.scanDir dir level], store, trivial, by simp [Work.run, present]; rfl, ?_⟩
    simpa using inner
  · exact ⟨[], [], store, trivial, by simp [Work.run, present]; rfl, List.forall_mem_nil _⟩

/-- A directory is drained down to the level that the scan stops at. -/
theorem drains_scanDir {dir : List FileName} {level : Nat} (deep : 1 ≤ level)
    (readable : Readable tree (Below dir level)) : Drains env tree (.scanDir dir level) := by
  induction level generalizing dir with
  | zero => omega
  | succ level ih =>
      refine drains_of_call fun store located => ?_
      subst located
      cases level with
      | zero =>
          obtain ⟨names, lists⟩ := (store.signatures.files dir).exists_lists
          by_cases present : dir ∈ store.signatures.dirs
          · refine ⟨_, _, store, lists, by simp [Work.run, present]; rfl, fun next member => ?_⟩
            obtain ⟨file, shown, rfl⟩ := List.mem_map.mp member
            obtain ⟨_, listed⟩ := List.mem_filter.mp shown
            obtain ⟨visible, ending⟩ := Bool.and_eq_true_iff.mp listed
            have isListed : ListedState file := ⟨by simpa using visible, ending⟩
            exact drains_read (readable dir (below_one_iff.mpr rfl) file isListed)
          · exact ⟨_, [], store, lists, by simp [Work.run, present]; rfl, List.forall_mem_nil _⟩
      | succ level =>
          refine ⟨(store.signatures.subdirs dir).toList, _, store,
            ⟨Finset.nodup_toList _, Finset.toList_toFinset _⟩, by simp [Work.run]; rfl, ?_⟩
          intro next member
          obtain ⟨name, _, rfl⟩ := List.mem_map.mp member
          exact drains_enter (ih (Nat.succ_pos level) fun other below => readable other below.up)

/-- A key is drained when its base directories are readable. -/
theorem drains_root {name : FileName}
    (readable : Readable tree (IsBaseOf env.config name.text)) :
    Drains env tree (.root name.text) := by
  refine drains_of_call fun store located => ?_
  subst located
  have named : FileName.ofText name.text = some name := FileName.ofText_eq_some_iff.mpr rfl
  cases configured : env.config.dirs.lookup name.text with
  | none =>
      refine ⟨[], [], store, trivial, ?_, List.forall_mem_nil _⟩
      rw [Work.run, name_passes, Run.ok_bind, named, configured]
      rfl
  | some directory =>
      by_cases present : [name] ∈ store.signatures.dirs
      · refine ⟨[], [.scanDir [name] directory.numLevels], store, trivial, ?_, ?_⟩
        · rw [Work.run, name_passes, Run.ok_bind, named, configured]
          exact if_pos present
        · have inner : Drains env store.signatures (.scanDir [name] directory.numLevels) :=
            drains_scanDir directory.one_le_numLevels fun dir below =>
              readable dir ((below_iff_isBaseOf configured).mp below)
          simpa using inner
      · refine ⟨[], [], store, trivial, ?_, List.forall_mem_nil _⟩
        rw [Work.run, name_passes, Run.ok_bind, named, configured]
        exact if_neg present

/-- When no call fails and the state files can be read, the collector comes to the indexes. -/
theorem Begins.drained (named : ∀ key ∈ env.config.dirs, ∃ name : FileName, name.text = key)
    (begins : Begins env tree workers) (readable : Readable tree env.config.IsBase) :
    Drained env workers [.listIndexes] := by
  obtain ⟨located, keys, _, complete, stage⟩ := begins
  refine drained_of_all (fun work member => ?_) located stage
  obtain ⟨key, isKey, rfl⟩ := List.mem_map.mp member
  have configured : key ∈ env.config.dirs := by
    rw [← Finmap.mem_keys, ← complete, List.mem_toFinset]
    exact isKey
  obtain ⟨name, rfl⟩ := named key configured
  exact drains_root fun dir base => readable dir ((isBase_iff complete).mpr ⟨_, isKey, base⟩)

end Draining

/-- Base directories are opened once each, and all that were there when the pass comes to the
indexes. -/
structure OpensOnce (config : Config) (first : Tree Content) (done : Workers)
    (dirs : List (List FileName)) : Prop where
  nodup : dirs.Nodup
  base : ∀ dir ∈ dirs, dir ∈ done.store.signatures.dirs ∧ config.IsBase dir
  all : done.gc = .running [.listIndexes] → ∀ dir ∈ first.dirs, config.IsBase dir → dir ∈ dirs

/-- No base directory was made since. -/
def SameBases (config : Config) (first later : Tree Content) : Prop :=
  ∀ dir ∈ later.dirs, config.IsBase dir → dir ∈ first.dirs

/-- The directory above the path is reported once. -/
def ReportsParent (reports : Reports) (vpath : VPath) : Prop :=
  ∃ parent, vpath.parent = .ok parent ∧ (reports.1.map VPath.place).count parent.place = 1

section Agreement

variable {env : Env} {first later : Tree Content} {view : View} {reports : Reports}
  {trace : List GcEvent} {done : Workers} {dirs : List (List FileName)}

/-- A pass opens every base directory once. -/
theorem Pass.opensOnce (pass : Pass env first trace done) :
    OpensOnce env.config first done (trace.filterMap opened) := by
  have passes := pass.passes
  refine ⟨passes.shares.nodup, passes.shares.base, fun reached dir present base => ?_⟩
  have awaited := passes.awaited _ reached dir present base
  have last : load env.config dir [Work.listIndexes] = 0 := load_single_eq_zero not_false
  rw [last, Nat.add_zero] at awaited
  exact List.count_pos_iff.mp awaited

/-- Where no base directory is made meanwhile, the collector opens what is reported. -/
theorem OpensOnce.perm (opens : OpensOnce env.config first done dirs)
    (covers : Covers first later view env.config.IsBase reports) (ended : reports.2 = .ok ())
    (reached : done.gc = .running [.listIndexes]) (scanned : SameBases env.config first later)
    (collected : SameBases env.config first done.store.signatures) :
    (dirs.map dirPlace).Perm (reports.1.map VPath.place) := by
  refine (List.perm_ext_iff_of_nodup (opens.nodup.map dirPlace_injective) covers.nodup).mpr ?_
  intro place
  constructor
  · intro member
    obtain ⟨dir, isOpened, rfl⟩ := List.mem_map.mp member
    obtain ⟨present, base⟩ := opens.base dir isOpened
    exact covers.complete ended dir (collected dir present base) base
  · intro member
    obtain ⟨vpath, isReported, rfl⟩ := List.mem_map.mp member
    obtain ⟨dir, present, base, located⟩ := covers.sound vpath isReported
    rw [located]
    exact List.mem_map_of_mem (opens.all reached dir (scanned dir present base) base)

/-- The directory above an image of a base directory that was there is reported. -/
theorem Hosted.reportsParent {store : Meta} {vpath : VPath} (hosted : Hosted env store vpath)
    (covers : Covers store.signatures later view env.config.IsBase reports)
    (ended : reports.2 = .ok ()) : ReportsParent reports vpath := by
  obtain ⟨spot, located, present, base⟩ := hosted
  obtain ⟨parent, above, place⟩ := VPath.parent_at located
  refine ⟨parent, above, List.count_eq_one_of_mem covers.nodup ?_⟩
  rw [place]
  exact covers.complete ended spot.dir present base

end Agreement

/-- After any run over any number of starts, `first_scan` reports the directory above every accepted
upload once, and the collector opens the directories that it reports. -/
theorem base_dirs_scanned_once {Errors : Type} {parseConfig : FileName → Except Errors Directory}
    {files : List FileName} {env : Env}
    (configured : readDirs parseConfig files = .ok env.config.dirs)
    {start finish : Meta} {lived : List LifeEvent} (steps : (lives env).Steps start lived finish)
    {view : View} {later : Tree Content} (sees : view.Sees finish.signatures later)
    {keys : List (List Char)} (nodup : keys.Nodup)
    (complete : keys.toFinset = env.config.dirs.keys) :
    ∃ reports, view.scan env.config keys = .ok reports ∧
      Covers finish.signatures later view env.config.IsBase reports ∧
      (reports.2 = .ok () → ∀ event ∈ lived, ∀ vpath, Accepts event vpath →
        ReportsParent reports vpath) ∧
      (∀ trace done, Pass env finish.signatures trace done →
        OpensOnce env.config finish.signatures done (trace.filterMap opened) ∧
          (reports.2 = .ok () → done.gc = .running [.listIndexes] →
            SameBases env.config finish.signatures later →
            SameBases env.config finish.signatures done.store.signatures →
            ((trace.filterMap opened).map dirPlace).Perm (reports.1.map VPath.place))) ∧
      (Readable finish.signatures env.config.IsBase → ∀ workers,
        Begins env finish.signatures workers → ∃ trace done,
          (gcMachine env).Steps workers trace done ∧ Pass env finish.signatures trace done ∧
            done.gc = .running [.listIndexes] ∧ done.store.signatures = finish.signatures) := by
  have named : ∀ key ∈ env.config.dirs, ∃ name : FileName, name.text = key :=
    fun key present => exists_name_of_readDirs configured present
  have listed : ∀ key ∈ keys, ∃ name : FileName, name.text = key := by
    intro key member
    refine named key ?_
    rw [← Finmap.mem_keys, ← complete, List.mem_toFinset]
    exact member
  obtain ⟨reports, scanned, covers⟩ := scan_covers sees nodup complete listed
  refine ⟨reports, scanned, covers, fun ended event member vpath accepts => ?_,
    fun trace done pass => ⟨pass.opensOnce, ?_⟩, fun readable workers begins => ?_⟩
  · exact (hosted_of_accepts steps event member vpath accepts).reportsParent covers ended
  · exact pass.opensOnce.perm covers
  · obtain ⟨trace, done, ran, kept, reached, alone⟩ := begins.drained named readable
    refine ⟨trace, done, ran, ⟨⟨workers, begins, ran⟩, fun event member keys publishes => ?_⟩,
      reached, kept.trans begins.1⟩
    obtain ⟨names, isCollect⟩ := alone event member
    cases isCollect.symm.trans publishes

namespace Sample

/-- The directory of the key `k`, with two levels. -/
def twoLevels : Directory :=
  { directory false with numLevels := 2, one_le_numLevels := by decide, numLevels_le := by decide }

/-- The configuration of the example, whose directories have two levels. -/
def deepEnv : Env :=
  { env false with config := ⟨[], (∅ : Map (List Char) Directory).insert "k".toList twoLevels⟩ }

/-- The file that configures the key `k`. -/
def configFile : FileName :=
  ⟨['k', '.', 'y', 'a', 'm', 'l'], by decide, by decide, by decide, by decide⟩

/-- The name of a second directory. -/
def other : FileName := ⟨['e'], by decide, by decide, by decide, by decide⟩

/-- The first image of a directory of the second level. -/
def inside (name : String)
    (valid : (VPath.deserialize ("/k/".toList ++ (name.toList ++ "/x".toList))).isSome) : VPath :=
  (VPath.deserialize ("/k/".toList ++ (name.toList ++ "/x".toList))).get valid

/-- An upload to a path. -/
def upload (vpath : VPath) : LifeOp :=
  .operate (.startAppend Io.working keys ⟨vpath, image 1, 5, [signature 1]⟩)

/-- Uploads to two directories, and another start. -/
def uploads : List LifeOp :=
  [upload (inside "a" (by decide)), upload (inside "e" (by decide)), .restart]

/-- The listings of what the uploads leave. -/
def listing (dir : List FileName) : List FileName :=
  if dir = [] then spot.dir else if dir = spot.dir then [other, name] else []

/-- What a start sees of the tree. -/
def viewOf (tree : Tree Content) : View :=
  ⟨.ok (), fun dir => .ok (listing dir), fun dir => .ok (decide (dir ∈ tree.dirs))⟩

end Sample

/-- Both directories of the second level are reported, and the collector opens them. -/
theorem base_dirs_scanned_once_two_levels :
    let store := ((lives Sample.deepEnv).play (Meta.new .empty .empty) Sample.uploads).2
    ∃ reports trace done,
      (Sample.viewOf store.signatures).scan Sample.deepEnv.config ["k".toList] = .ok reports ∧
      ReportsParent reports (Sample.inside "a" (by decide)) ∧
      ReportsParent reports (Sample.inside "e" (by decide)) ∧
      (gcMachine Sample.deepEnv).Steps
        ⟨store, ∅, .running [.root "k".toList, .listIndexes]⟩ trace done ∧
      done.gc = .running [.listIndexes] ∧
      ((trace.filterMap opened).map dirPlace).Perm (reports.1.map VPath.place) := by
  intro store
  let lived := ((lives Sample.deepEnv).play (Meta.new .empty .empty) Sample.uploads).1
  have steps : (lives Sample.deepEnv).Steps (Meta.new .empty .empty) lived store :=
    Machine.Steps.of_play _ _ _
  have configured : readDirs (fun _ => (.ok Sample.twoLevels : Except Unit Directory))
      [Sample.configFile] = .ok Sample.deepEnv.config.dirs := rfl
  have sees : (Sample.viewOf store.signatures).Sees store.signatures store.signatures := by
    have shown : ∀ dir ∈ store.signatures.dirs.keys, dir ≠ [] →
        dir.getLast? ∈ (Sample.listing dir.dropLast).map some := by decide
    refine ⟨fun dir names listed => ?_, fun dir found isFound => ?_⟩
    · obtain rfl := Except.ok.inj listed
      refine ⟨?_, fun name present => ?_⟩
      · unfold Sample.listing
        split
        · decide
        · split <;> decide
      · have member := shown _ (Finmap.mem_keys.mpr present) (by simp)
        simpa using member
    · obtain rfl := Except.ok.inj isFound
      exact ⟨decide_eq_true, of_decide_eq_true⟩
  have working : (Sample.viewOf store.signatures).Working := ⟨rfl, nofun, nofun⟩
  have readable : Readable store.signatures Sample.deepEnv.config.IsBase := by
    have whole : ∀ dir ∈ store.signatures.dirs.keys, ∀ file ∈ (store.signatures.files dir).keys,
        (store.signatures.files dir).lookup file ≠ some .broken := by decide
    intro dir _ file _ broken
    have isFile : file ∈ store.signatures.files dir := Finmap.mem_of_lookup_eq_some broken
    have isDir : dir ∈ store.signatures.dirs := by
      by_contra missing
      simp [Tree.files, Finmap.lookup_eq_none.mpr missing] at broken
    exact whole dir (Finmap.mem_keys.mpr isDir) file (Finmap.mem_keys.mpr isFile) broken
  obtain ⟨reports, scanned, covers, parents, passes, comes⟩ :=
    base_dirs_scanned_once configured steps sees (List.nodup_singleton "k".toList) (by decide)
  have ended := covers.ends working
  have begins : Begins Sample.deepEnv store.signatures
      ⟨store, ∅, .running [.root "k".toList, .listIndexes]⟩ :=
    ⟨rfl, ["k".toList], List.nodup_singleton _, by decide, rfl⟩
  obtain ⟨trace, done, ran, pass, reached, kept⟩ := comes readable _ begins
  have still : SameBases Sample.deepEnv.config store.signatures store.signatures :=
    fun dir present _ => present
  refine ⟨reports, trace, done, scanned, ?_, ?_, ran, reached,
    (passes trace done pass).2 ended reached still (kept.symm ▸ still)⟩
  · exact parents ended (lived.get ⟨0, by decide⟩) (List.get_mem _ _) _ ⟨_, .new, rfl, rfl, rfl⟩
  · exact parents ended (lived.get ⟨1, by decide⟩) (List.get_mem _ _) _ ⟨_, .new, rfl, rfl, rfl⟩


end Metadata

end Ciruela
