import Mathlib.Logic.Relation
import Ciruela.Daemon.Metadata.History

/-!
# Scanning a base directory

`scan::all_states` lists the state files of a directory and visits them one by
one: a stale `.new.state` file is removed, a broken file is set aside, anything
else is collected. The `writing` lock is held only while a name is looked up, so a
visit has several steps that operations of other threads can come between. `Pool`
is the machine of all these steps; `allStates` is the scan on its own.
-/

namespace Ciruela

open Foundation

namespace Metadata

/-- The ending of the state file of an upload that goes on. -/
def newStateEnding : List Char := ".new.state".toList

/-- The ending of every state file. -/
def stateEnding : List Char := ".state".toList

/-- What is left of the ending of such a file without that of a state file. -/
def newEnding : List Char := ".new".toList

/-- A `.new.state` file whose path is not being written. -/
def stale (vpath : VPath) (store : Meta) (name : FileName) : Run Bool :=
  if endsWith name.text newStateEnding then do
    let joined ← vpath.join (Path.ofText (dropEnd name.text newStateEnding.length))
    return !decide (joined.place ∈ store.writing)
  else return false

/-- What reading a state file says to a scan. -/
inductive Look where
  | stored (state : State)
  | broken
  | nothing

/-- Read a state file for a scan. A state without signatures is as good as none. -/
def look (io : Io) (files : Files Content) (name : FileName) : Look :=
  match readFile io files name with
  | .ok (some state) => if state.signatures.length < 1 then .broken else .stored state
  | .ok none => .nothing
  | .error (.decode _) => .broken
  | .error _ => .nothing

/-- The states found so far, by the name of the image. -/
abbrev Found := Map (List Char) State

/-- Add a state. What comes from a `.new.state` file wins. -/
def collect (found : Found) (name : FileName) (state : State) : Found :=
  let name := dropEnd name.text stateEnding.length
  if endsWith name newEnding then found.insert (dropEnd name newEnding.length) state
  else if name ∈ found then found
  else found.insert name state

/-- Put back the files of a directory. -/
def Meta.setFiles (store : Meta) (dir : List FileName) (files : Files Content) : Meta :=
  { store with signatures := store.signatures.setFiles dir files }

/-- Visit one name. -/
def visit (io : Io) (vpath : VPath) (dir : List FileName) (progress : Found × Meta)
    (name : FileName) : Run (Found × Meta) := do
  let (found, store) := progress
  let files := store.signatures.files dir
  if ← stale vpath store name then
    return (found, store.setFiles dir (removeFile io files name).2)
  match look io files name with
  | .stored state => return (collect found name state, store)
  | .broken => return (found, store.setFiles dir (renameBrokenFile io files name))
  | .nothing => return (found, store)

/-- `all_states`, where the system lists the files as `names`. -/
def allStates (io : Io) (vpath : VPath) (dir names : List FileName) (store : Meta) :
    Run (Except Error Found × Meta) :=
  if io.fails .listDir then return (.error .listDir, store)
  else do
    let (found, store) ← (listFiles names stateEnding).foldlM (visit io vpath dir) (∅, store)
    return (.ok found, store)

/-- Where a scan stands. -/
inductive Phase where
  | next
  | remove (name : FileName)
  | read (name : FileName)
  | setAside (name : FileName)
deriving DecidableEq

/-- A scan that is under way. -/
structure Scan where
  vpath : VPath
  dir : List FileName
  phase : Phase
  todo : List FileName
  found : Found

/-- The next step of a scan; `none` when it is done. -/
def Scan.step (scan : Scan) (store : Meta) : Run (Option (Scan × Meta)) :=
  let files := store.signatures.files scan.dir
  match scan.phase with
  | .next =>
      match scan.todo with
      | [] => return none
      | name :: rest => do
          let phase := if ← stale scan.vpath store name then Phase.remove name else .read name
          return some ({ scan with phase := phase, todo := rest }, store)
  | .remove name =>
      return some ({ scan with phase := .next },
        store.setFiles scan.dir (removeFile Io.working files name).2)
  | .read name =>
      match look Io.working files name with
      | .stored state =>
          return some ({ scan with phase := .next, found := collect scan.found name state }, store)
      | .broken => return some ({ scan with phase := .setAside name }, store)
      | .nothing => return some ({ scan with phase := .next }, store)
  | .setAside name =>
      return some ({ scan with phase := .next },
        store.setFiles scan.dir (renameBrokenFile Io.working files name))

/-- One step of a scan that runs on its own. -/
def Scan.Steps (before after : Scan × Meta) : Prop := before.1.step before.2 = .ok (some after)

/-- A visit is a few steps of the scan with nothing in between. -/
theorem visit_steps {vpath : VPath} {dir rest : List FileName} {name : FileName}
    {found found' : Found} {store store' : Meta}
    (visited : visit Io.working vpath dir (found, store) name = .ok (found', store')) :
    Relation.ReflTransGen Scan.Steps (⟨vpath, dir, .next, name :: rest, found⟩, store)
      (⟨vpath, dir, .next, rest, found'⟩, store') := by
  obtain ⟨isStale, checked, done⟩ := Run.bind_eq_ok_iff.mp visited
  have first : Scan.Steps (⟨vpath, dir, .next, name :: rest, found⟩, store)
      (⟨vpath, dir, if isStale then .remove name else .read name, rest, found⟩, store) := by
    simp only [Scan.Steps, Scan.step, checked, Run.ok_bind]
    rfl
  refine .head first ?_
  cases isStale with
  | true =>
      obtain ⟨rfl, rfl⟩ := Prod.mk.inj (Except.ok.inj done)
      exact .single rfl
  | false =>
      cases seen : look Io.working (store.signatures.files dir) name with
      | stored state =>
          simp only [seen] at done
          obtain ⟨rfl, rfl⟩ := Prod.mk.inj (Except.ok.inj done)
          refine .single ?_
          simp only [Scan.Steps, Scan.step, Bool.false_eq_true, if_false, seen]
          rfl
      | broken =>
          simp only [seen] at done
          obtain ⟨rfl, rfl⟩ := Prod.mk.inj (Except.ok.inj done)
          have second : Scan.Steps (⟨vpath, dir, .setAside name, rest, found⟩, store)
              (⟨vpath, dir, .next, rest, found⟩,
                store.setFiles dir
                  (renameBrokenFile Io.working (store.signatures.files dir) name)) := rfl
          refine .tail (.single ?_) second
          simp only [Scan.Steps, Scan.step, Bool.false_eq_true, if_false, seen]
          rfl
      | nothing =>
          simp only [seen] at done
          obtain ⟨rfl, rfl⟩ := Prod.mk.inj (Except.ok.inj done)
          refine .single ?_
          simp only [Scan.Steps, Scan.step, Bool.false_eq_true, if_false, seen]
          rfl

/-- `allStates` is the run of a scan that nothing comes between. -/
theorem allStates_steps {vpath : VPath} {dir names : List FileName} {found : Found}
    {store after : Meta}
    (scanned : allStates Io.working vpath dir names store = .ok (.ok found, after)) :
    Relation.ReflTransGen Scan.Steps
      (⟨vpath, dir, .next, listFiles names stateEnding, ∅⟩, store)
      (⟨vpath, dir, .next, [], found⟩, after) := by
  obtain ⟨result, folded, done⟩ := Run.bind_eq_ok_iff.mp scanned
  obtain ⟨collected, rfl⟩ := Prod.mk.inj (Except.ok.inj done)
  obtain rfl := Except.ok.inj collected
  clear scanned done collected
  generalize listFiles names stateEnding = files at folded ⊢
  generalize (∅ : Found) = start at folded ⊢
  induction files generalizing start store with
  | nil =>
      obtain rfl := Except.ok.inj folded
      exact .refl
  | cons name rest ih =>
      rw [List.foldlM_cons] at folded
      obtain ⟨next, visited, later⟩ := Run.bind_eq_ok_iff.mp folded
      exact (visit_steps visited).trans (ih next.1 later)

/-- The directory of the signatures in the database. -/
def signaturesName : FileName := ⟨"signatures".toList, by decide, by decide, by decide, by decide⟩

/-- `Dir::open_vpath` leads to this directory below the one of the signatures. Its
components are opened without a check. -/
def Opens (env : Env) (vpath : VPath) (dir : List FileName) : Prop :=
  walk (env.config.dbDir ++ [signaturesName]) vpath.place.tail =
    env.config.dbDir ++ [signaturesName] ++ dir

instance (env : Env) (vpath : VPath) (dir : List FileName) : Decidable (Opens env vpath dir) :=
  inferInstanceAs (Decidable (_ = _))

/-- The pool of the metadata subsystem with the scans its threads are at. -/
structure Pool where
  store : Meta
  scans : Map Nat Scan

/-- What a pool of threads does: operations, and scans that take one name after another. -/
inductive PoolOp where
  | operation (op : Op)
  | startScan (thread : Nat) (vpath : VPath) (dir names : List FileName)
  | stepScan (thread : Nat)

/-- One step of one thread. A scan starts with the names in any order the system
may list them. -/
def Pool.exec (env : Env) (pool : Pool) : PoolOp → Option (Option Answer × Pool)
  | .operation op => do
      let (answer, store) ← (run env pool.store op).toOption
      return (some answer, { pool with store := store })
  | .startScan thread vpath dir names =>
      if Opens env vpath dir ∧ dir ∈ pool.store.signatures.dirs ∧
          (pool.store.signatures.files dir).Lists names then
        some (none, { pool with
          scans := pool.scans.insert thread ⟨vpath, dir, .next, listFiles names stateEnding, ∅⟩ })
      else none
  | .stepScan thread => do
      let scan ← pool.scans.lookup thread
      let (scan, store) ← (← (scan.step pool.store).toOption)
      return (none, ⟨store, pool.scans.insert thread scan⟩)

/-- The metadata with its scans as a machine. -/
def poolMachine (env : Env) : Machine Pool PoolOp (Option Answer) := ⟨Pool.exec env⟩

/-- A step of the pool. -/
abbrev PoolEvent := Transition Pool PoolOp (Option Answer)

/-- Start a scan of the base directory where only `a.new.state` is. -/
def Sample.startScan : PoolOp :=
  .startScan 0 Sample.base Sample.spot.dir [newStateFile Sample.name]

section Names

/-- Joining a name adds it to the components. -/
theorem join_name (vpath : VPath) (name : FileName) :
    ∃ joined, vpath.join (Path.ofText name.text) = .ok joined ∧
      joined.place = vpath.place ++ [.normal name] := by
  have normal : (Path.ofText name.text).components.all Component.isNormal = true := by
    simp [Component.isNormal]
  refine ⟨_, dif_pos ⟨by simp, normal⟩, ?_⟩
  show (vpath.path.join (Path.ofText name.text)).components = _
  rw [VPath.place_join vpath normal, Path.components_ofText_fileName]

/-- The check of `x.new.state` is a look for `x` in `writing`. -/
theorem stale_newStateFile (vpath : VPath) (store : Meta) (name : FileName) :
    stale vpath store (newStateFile name) =
      .ok (!decide (vpath.place ++ [.normal name] ∈ store.writing)) := by
  obtain ⟨joined, join, place⟩ := join_name vpath name
  have ends : endsWith (newStateFile name).text newStateEnding = true := endsWith_append _ _
  have stem : dropEnd (newStateFile name).text newStateEnding.length = name.text :=
    dropEnd_append name.text newStateEnding
  simp only [stale, ends, if_true, stem, join, Run.ok_bind, place]
  rfl

/-- State files are scanned. -/
theorem endsWith_stateFile (name : FileName) : endsWith (stateFile name).text stateEnding = true :=
  endsWith_append _ _

/-- State files of uploads are scanned. -/
theorem endsWith_newStateFile (name : FileName) :
    endsWith (newStateFile name).text stateEnding = true := by
  have text : (newStateFile name).text = name.text ++ newEnding ++ stateEnding := by
    simp [newStateFile, newEnding, stateEnding]
  rw [text]
  exact endsWith_append _ _

/-- A backup is no state file. -/
theorem ne_backupFile {file : FileName} (ends : endsWith file.text stateEnding = true)
    (name : FileName) : file ≠ backupFile name := by
  intro equal
  obtain ⟨front, text⟩ := endsWith_iff.mp ends
  have last : (backupFile name).text.reverse.head? = some 'e' := by
    rw [← equal, ← text]
    simp [stateEnding]
  simp [backupFile] at last

end Names

/-- The scan is about to take `x.new.state` away. -/
def Scan.Threatens (scan : Scan) (spot : Spot) : Prop :=
  scan.dir = spot.dir ∧ (scan.phase = .remove (newStateFile spot.name) ∨
    scan.phase = .setAside (newStateFile spot.name))

instance (scan : Scan) (spot : Spot) : Decidable (scan.Threatens spot) :=
  inferInstanceAs (Decidable (_ ∧ _))

/-- Putting files into a directory changes the records there. -/
theorem record_setFiles (store : Meta) (dir : List FileName) (files : Files Content) (spot : Spot) :
    (store.setFiles dir files).record spot =
      if spot.dir = dir then recordOf spot.name (store.writing.lookup spot.place) files
      else store.record spot := by
  simp only [Meta.record, Meta.setFiles, Tree.files_setFiles]
  split <;> rfl

/-- What a step of a scan can do to the record of a path. -/
structure ScanEffect (spot : Spot) (scan : Scan) (store : Meta) (scan' : Scan) (store' : Meta) :
    Prop where
  vpath : scan'.vpath = scan.vpath
  dir : scan'.dir = scan.dir
  writing : (store'.record spot).writing = (store.record spot).writing
  state : (store'.record spot).state = (store.record spot).state ∨ (store'.record spot).state = none
  newState : (store'.record spot).newState = (store.record spot).newState ∨
    scan.Threatens spot ∧ (store'.record spot).newState = none
  threatens : scan'.Threatens spot →
    stale scan.vpath store (newStateFile spot.name) = .ok true ∨
      look Io.working (store.signatures.files spot.dir) (newStateFile spot.name) = .broken

/-- What one name of a scan does. -/
theorem Scan.step_effect {scan scan' : Scan} {store store' : Meta}
    (stepped : scan.step store = .ok (some (scan', store'))) (spot : Spot) :
    ScanEffect spot scan store scan' store' := by
  have setFiles (files : Files Content)
      (same : ∀ other, endsWith other.text stateEnding = true →
        files.lookup other = (store.signatures.files scan.dir).lookup other ∨
          (scan.phase = .remove other ∨ scan.phase = .setAside other) ∧ files.lookup other = none) :
      ScanEffect spot scan store { scan with phase := .next } (store.setFiles scan.dir files) := by
    have record := record_setFiles store scan.dir files spot
    by_cases here : spot.dir = scan.dir
    · rw [if_pos here] at record
      refine ⟨rfl, rfl, by rw [record]; rfl, ?_, ?_, ?_⟩
      · rw [record]
        rcases same _ (endsWith_stateFile spot.name) with kept | ⟨_, gone⟩
        · exact Or.inl (by simp [recordOf, Meta.record, kept, here])
        · exact Or.inr gone
      · rw [record]
        rcases same _ (endsWith_newStateFile spot.name) with kept | ⟨phase, gone⟩
        · exact Or.inl (by simp [recordOf, Meta.record, kept, here])
        · exact Or.inr ⟨⟨here.symm, phase⟩, gone⟩
      · rintro ⟨_, phase⟩
        simp at phase
    · rw [if_neg here] at record
      refine ⟨rfl, rfl, by rw [record], by simp [record], by simp [record], ?_⟩
      rintro ⟨_, phase⟩
      simp at phase
  have resting (scan'' : Scan) (vpath : scan''.vpath = scan.vpath) (dir : scan''.dir = scan.dir)
      (threatens : scan''.Threatens spot →
        stale scan.vpath store (newStateFile spot.name) = .ok true ∨
          look Io.working (store.signatures.files spot.dir) (newStateFile spot.name) = .broken) :
      ScanEffect spot scan store scan'' store :=
    ⟨vpath, dir, rfl, Or.inl rfl, Or.inl rfl, threatens⟩
  unfold Scan.step at stepped
  dsimp only at stepped
  split at stepped
  · split at stepped
    · simp [pure, Except.pure] at stepped
    · rename_i name rest todo
      obtain ⟨isStale, checked, done⟩ := Run.bind_eq_ok_iff.mp stepped
      obtain ⟨rfl, rfl⟩ := Prod.mk.inj (Option.some.inj (Except.ok.inj done))
      apply resting
      · rfl
      · rfl
      · rintro ⟨_, phase⟩
        cases isStale with
        | true =>
            have same : name = newStateFile spot.name := by simpa using phase
            exact Or.inl (same ▸ checked)
        | false => simp at phase
  · rename_i name phase
    obtain ⟨rfl, rfl⟩ := Prod.mk.inj (Option.some.inj (Except.ok.inj stepped))
    apply setFiles
    intro other _
    by_cases same : other = name
    · subst same
      exact Or.inr ⟨Or.inl phase, by simp [removeFile]⟩
    · exact Or.inl (lookup_removeFile same)
  · rename_i name phase
    split at stepped
    · obtain ⟨rfl, rfl⟩ := Prod.mk.inj (Option.some.inj (Except.ok.inj stepped))
      exact resting _ rfl rfl (by rintro ⟨_, phase⟩; simp at phase)
    · rename_i broken
      obtain ⟨rfl, rfl⟩ := Prod.mk.inj (Option.some.inj (Except.ok.inj stepped))
      refine resting _ rfl rfl ?_
      rintro ⟨here, threat⟩
      have same : name = newStateFile spot.name := by simpa using threat
      have dir : scan.dir = spot.dir := here
      rw [same, dir] at broken
      exact Or.inr broken
    · obtain ⟨rfl, rfl⟩ := Prod.mk.inj (Option.some.inj (Except.ok.inj stepped))
      exact resting _ rfl rfl (by rintro ⟨_, phase⟩; simp at phase)
  · rename_i name phase
    obtain ⟨rfl, rfl⟩ := Prod.mk.inj (Option.some.inj (Except.ok.inj stepped))
    apply setFiles
    intro other ends
    by_cases same : other = name
    · subst same
      exact Or.inr ⟨Or.inr phase, lookup_renameBrokenFile_self (ne_backupFile ends _)⟩
    · exact Or.inl (lookup_renameBrokenFile same (ne_backupFile ends _))

/-- The three kinds of steps. -/
theorem Pool.exec_cases {env : Env} {before after : Pool} {op : PoolOp} {answer : Option Answer}
    (valid : Pool.exec env before op = some (answer, after)) :
    (∃ operation result store, op = .operation operation ∧
      run env before.store operation = .ok (result, store) ∧ answer = some result ∧
      after = { before with store := store }) ∨
    (∃ thread vpath dir names, op = .startScan thread vpath dir names ∧ Opens env vpath dir ∧
      (before.store.signatures.files dir).Lists names ∧
      after = { before with
        scans := before.scans.insert thread ⟨vpath, dir, .next, listFiles names stateEnding, ∅⟩ }) ∨
    (∃ thread scan scan' store, op = .stepScan thread ∧ before.scans.lookup thread = some scan ∧
      scan.step before.store = .ok (some (scan', store)) ∧
      after = ⟨store, before.scans.insert thread scan'⟩) := by
  cases op with
  | operation operation =>
      left
      cases ran : run env before.store operation with
      | error panic => simp [Pool.exec, ran, Except.toOption] at valid
      | ok result =>
          simp only [Pool.exec, ran, Except.toOption, Option.bind_eq_bind, Option.bind_some] at valid
          obtain ⟨rfl, rfl⟩ := Prod.mk.inj (Option.some.inj valid)
          exact ⟨operation, result.1, result.2, rfl, ran, rfl, rfl⟩
  | startScan thread vpath dir names =>
      right
      left
      simp only [Pool.exec] at valid
      split at valid
      · rename_i admitted
        obtain ⟨_, rfl⟩ := Prod.mk.inj (Option.some.inj valid)
        exact ⟨thread, vpath, dir, names, rfl, admitted.1, admitted.2.2, rfl⟩
      · simp at valid
  | stepScan thread =>
      right
      right
      obtain ⟨scan, found, rest⟩ := Option.bind_eq_some_iff.mp valid
      cases stepped : scan.step before.store with
      | error panic => simp [stepped, Except.toOption] at rest
      | ok outcome =>
          simp only [stepped, Except.toOption, Option.bind_eq_bind, Option.bind_some] at rest
          obtain ⟨next, some_next, done⟩ := Option.bind_eq_some_iff.mp rest
          obtain ⟨_, rfl⟩ := Prod.mk.inj (Option.some.inj done)
          exact ⟨thread, scan, next.1, next.2, rfl, found, by rw [stepped, some_next], rfl⟩

section Interleaving

variable {env : Env} {spot : Spot}

/-- Whatever the record holds has a signature. -/
def Record.Signed (record : Record) : Prop := ∀ state, record.Has state → state.signatures ≠ []

/-- A change leaves no state without signatures. -/
theorem Change.signed {before after : Record} {op : Op} {answer : Answer}
    (change : Change env before op answer after) (signed : before.Signed) : after.Signed := by
  intro state has
  rcases change.has has with older | ⟨demand, _, admitted, covers, _⟩
  · exact signed state older
  · obtain ⟨_, _, _, _, entry, member, _⟩ := admitted.good
    exact List.ne_nil_of_mem (covers.2 entry member)

/-- What holds of a path while scans and operations interleave. -/
structure ScanSafe (spot : Spot) (pool : Pool) : Prop where
  consistent : (pool.store.record spot).Consistent
  signed : (pool.store.record spot).Signed
  paths : ∀ thread scan, pool.scans.lookup thread = some scan → scan.dir = spot.dir →
    scan.vpath.place = .rootDir :: spot.dir.map .normal
  vacant : ∀ thread scan, pool.scans.lookup thread = some scan → scan.Threatens spot →
    (pool.store.record spot).writing = none

/-- An upload of the path begins: a request is accepted as new or a resume
succeeds. -/
def Answer.begins : Answer → Bool
  | .upload (.ok (.accepted .new)) => true
  | .resumed (.ok _) => true
  | _ => false

/-- Some scan is about to take `x.new.state` away. -/
def Pool.Threatened (pool : Pool) (spot : Spot) : Prop :=
  ∃ thread scan, pool.scans.lookup thread = some scan ∧ scan.Threatens spot

instance (pool : Pool) (spot : Spot) : Decidable (pool.Threatened spot) :=
  decidable_of_iff (∃ thread ∈ pool.scans.keys, ∃ scan ∈ pool.scans.lookup thread, scan.Threatens spot)
    ⟨fun ⟨thread, _, scan, found, threat⟩ => ⟨thread, scan, found, threat⟩,
     fun ⟨thread, scan, found, threat⟩ =>
      ⟨thread, Finmap.mem_keys.mpr (Map.mem_iff_lookup_ne_none.mpr (by simp [found])), scan, found,
        threat⟩⟩

/-- The scan goes through `..`, or an upload of the path begins while a scan stands
between its check of `x.new.state` and taking the file away. -/
def Races (spot : Spot) (event : PoolEvent) : Prop :=
  match event.op with
  | .startScan _ vpath dir _ => dir = spot.dir ∧ .parentDir ∈ vpath.place
  | .operation _ => event.answer.any Answer.begins = true ∧ event.before.Threatened spot
  | .stepScan _ => False

instance (spot : Spot) (event : PoolEvent) : Decidable (Races spot event) := by
  unfold Races
  split <;> infer_instance

/-- A change that begins no upload leaves a vacant path vacant. -/
theorem Change.vacant {before after : Record} {op : Op} {answer : Answer}
    (change : Change env before op answer after) (working : ¬ op.io.Faulty)
    (free : before.writing = none) (quiet : answer.begins = false) : after.writing = none := by
  cases change with
  | kept => exact free
  | begun => simp [Answer.begins, accepted] at quiet
  | extended _ _ writing => simp [free] at writing
  | merged => exact free
  | unsaved _ _ faulty => exact absurd faulty working
  | resumed => simp [Answer.begins] at quiet
  | resumedNew => simp [Answer.begins] at quiet
  | aborted => rfl
  | committed => rfl
  | unfinished => rfl
  | removed => exact free

/-- A path without `..` opens the directory of its names. -/
theorem place_of_opens {vpath : VPath} {dir : List FileName} (opens : Opens env vpath dir)
    (plain : .parentDir ∉ vpath.place) : vpath.place = .rootDir :: dir.map .normal := by
  obtain ⟨first, rest, shape, inside⟩ := vpath.place_eq_cons
  have normal : (first :: rest).all Component.isNormal = true := by
    rw [List.all_eq_true]
    intro component member
    rcases inside component member with parent | ⟨file, rfl⟩
    · exact absurd (by rw [shape, ← parent]; exact List.mem_cons_of_mem _ member) plain
    · rfl
  obtain ⟨names, names_eq⟩ := VPath.exists_names normal
  rw [Opens, shape, List.tail_cons, names_eq, walk_names, List.append_cancel_left_eq] at opens
  rw [shape, names_eq, opens]

/-- A state that has signatures is not found broken. -/
theorem look_of_signed {files : Files Content} {name : FileName} {state : State}
    (content : files.lookup name = some (.state state)) (signed : state.signatures ≠ []) :
    look Io.working files name = .stored state := by
  have length : ¬ state.signatures.length < 1 := by
    have positive := List.length_pos_iff.mpr signed
    omega
  simp [look, readFile, content, length]

/-- An operation keeps the scans safe. -/
theorem ScanSafe.operation {before : Pool} {op : Op} {answer : Answer} {store : Meta}
    (ran : run env before.store op = .ok (answer, store)) (located : op.vpath.place = spot.place)
    (working : op.io = Io.working)
    (apart : ¬ (answer.begins = true ∧ before.Threatened spot))
    (safe : ScanSafe spot before) : ScanSafe spot { before with store := store } := by
  have change := (run_at located ran).2
  have noFault : ¬ op.io.Faulty := working ▸ Io.not_faulty_working
  refine ⟨change.consistent noFault safe.consistent, change.signed safe.signed, safe.paths, ?_⟩
  intro thread scan found threat
  refine change.vacant noFault (safe.vacant thread scan found threat) ?_
  by_contra begins
  exact apart ⟨by simpa using begins, thread, scan, found, threat⟩

/-- One name of a scan keeps the scans safe. -/
theorem ScanSafe.stepScan {before : Pool} {thread : Nat} {scan scan' : Scan} {store : Meta}
    (found : before.scans.lookup thread = some scan)
    (stepped : scan.step before.store = .ok (some (scan', store))) (safe : ScanSafe spot before) :
    ScanSafe spot ⟨store, before.scans.insert thread scan'⟩ := by
  have effect := Scan.step_effect stepped spot
  have known (other : Nat) (scan'' : Scan)
      (inserted : (before.scans.insert thread scan').lookup other = some scan'') :
      scan'' = scan' ∨ before.scans.lookup other = some scan'' := by
    rw [Map.lookup_insert_eq] at inserted
    split at inserted
    · exact Or.inl (Option.some.inj inserted).symm
    · exact Or.inr inserted
  refine ⟨?_, ?_, ?_, ?_⟩
  · intro writing entry
    rw [effect.writing] at entry
    rcases effect.newState with kept | ⟨threat, _⟩
    · rw [kept]
      exact safe.consistent writing entry
    · simp [safe.vacant thread scan found threat] at entry
  · intro state has
    refine safe.signed state ?_
    rcases has with entry | committed | written
    · exact Or.inl (effect.writing ▸ entry)
    · rcases effect.state with kept | gone
      · exact Or.inr (Or.inl (kept ▸ committed))
      · simp [gone] at committed
    · rcases effect.newState with kept | ⟨_, gone⟩
      · exact Or.inr (Or.inr (kept ▸ written))
      · simp [gone] at written
  · intro other scan'' inserted here
    rcases known other scan'' inserted with rfl | old
    · rw [effect.vpath]
      exact safe.paths thread scan found (effect.dir ▸ here)
    · exact safe.paths other scan'' old here
  · intro other scan'' inserted threat
    rw [effect.writing]
    rcases known other scan'' inserted with rfl | old
    · -- The scan has just looked at `x.new.state`: either `x` was not being written,
      -- or the file was broken, which the file of an upload is not.
      rcases effect.threatens threat with isStale | isBroken
      · have path := safe.paths thread scan found (effect.dir ▸ threat.1)
        rw [stale_newStateFile, path] at isStale
        have missing : spot.place ∉ before.store.writing := by
          simpa [Spot.place] using isStale
        exact Finmap.lookup_eq_none.mpr missing
      · by_contra occupied
        obtain ⟨writing, entry⟩ := Option.ne_none_iff_exists'.mp occupied
        have written := safe.consistent writing entry
        have signed := safe.signed writing.toState (Or.inl (by simp [entry]))
        have stored : look Io.working (before.store.signatures.files spot.dir)
            (newStateFile spot.name) = .stored writing.toState := look_of_signed written signed
        simp [stored] at isBroken
    · exact safe.vacant other scan'' old threat

/-- An operation of the run is one on the path, and its file operations succeed. -/
def PoolOp.CleanOn (spot : Spot) (op : PoolOp) : Prop :=
  ∀ operation, op = .operation operation →
    operation.vpath.place = spot.place ∧ operation.io = Io.working

/-- A step that races with nothing keeps the scans safe. -/
theorem ScanSafe.step {event : PoolEvent} (valid : (poolMachine env).Takes event)
    (clean : event.op.CleanOn spot)
    (apart : ¬ Races spot event) (safe : ScanSafe spot event.before) :
    ScanSafe spot event.after := by
  obtain ⟨before, op, answer, after⟩ := event
  have moved : Pool.exec env before op = some (answer, after) := valid
  obtain ⟨operation, result, store, rfl, ran, rfl, rfl⟩ |
    ⟨thread, vpath, dir, names, rfl, opens, _, rfl⟩ |
    ⟨thread, scan, scan', store, rfl, found, stepped, rfl⟩ := Pool.exec_cases moved
  · obtain ⟨located, working⟩ := clean operation rfl
    refine safe.operation ran located working ?_
    rintro ⟨begins, threat⟩
    exact apart ⟨begins, threat⟩
  · have started (other : Nat) (scan : Scan)
        (inserted : (before.scans.insert thread
          ⟨vpath, dir, .next, listFiles names stateEnding, ∅⟩).lookup other = some scan) :
        scan = ⟨vpath, dir, .next, listFiles names stateEnding, ∅⟩ ∨
          before.scans.lookup other = some scan := by
      rw [Map.lookup_insert_eq] at inserted
      split at inserted
      · exact Or.inl (Option.some.inj inserted).symm
      · exact Or.inr inserted
    refine ⟨safe.consistent, safe.signed, ?_, ?_⟩
    · intro other scan inserted here
      rcases started other scan inserted with rfl | old
      · have plain : .parentDir ∉ vpath.place := fun parent => apart ⟨here, parent⟩
        have dirEq : dir = spot.dir := here
        rw [← dirEq]
        exact place_of_opens opens plain
      · exact safe.paths other scan old here
    · intro other scan inserted threat
      rcases started other scan inserted with rfl | old
      · obtain ⟨_, phase⟩ := threat
        simp at phase
      · exact safe.vacant other scan old threat
  · exact safe.stepScan found stepped

/-- The file of the entry is there whenever the path is being written, and so a
commit finds it, in every run where no upload of the path begins between the check
and the removal of a scan and no scan goes through `..`. -/
theorem new_state_kept_by_scans {signatures : Tree Content} {indexes : Tree (List UInt8)}
    {trace : List PoolEvent} {finish : Pool}
    (steps : (poolMachine env).Steps ⟨Meta.new signatures indexes, ∅⟩ trace finish)
    (clean : ∀ event ∈ trace, event.op.CleanOn spot)
    (signed : ((Meta.new signatures indexes).record spot).Signed)
    (apart : ∀ event ∈ trace, ¬ Races spot event) :
    (finish.store.record spot).Consistent ∧
      ∀ event ∈ trace, (event.before.store.record spot).Consistent ∧
        ∀ op writing, event.op = .operation op → op.isDirCommitted = true →
          (event.before.store.record spot).writing = some writing →
          (event.after.store.record spot).state = some (.state writing.toState) := by
  obtain ⟨final, along⟩ := steps.preserves (ScanSafe spot)
    (fun event => event.op.CleanOn spot ∧ ¬ Races spot event)
    (fun event valid allowed safe => safe.step valid allowed.1 allowed.2)
    (fun event member => ⟨clean event member, apart event member⟩)
    ⟨consistent_new signatures indexes spot, signed, by simp, by simp⟩
  refine ⟨final.consistent, fun event member => ⟨(along event member).1.consistent, ?_⟩⟩
  intro op writing isOperation committed entry
  have consistent := (along event member).1.consistent writing entry
  obtain ⟨located, working⟩ := clean event member op isOperation
  have valid : Pool.exec env event.before event.op = some (event.answer, event.after) :=
    steps.takes_of_mem member
  obtain ⟨operation, result, store, same, ran, _, after⟩ |
    ⟨_, _, _, _, other, _⟩ | ⟨_, _, _, _, other, _⟩ := Pool.exec_cases valid
  · obtain rfl := PoolOp.operation.inj (isOperation.symm.trans same)
    rw [after]
    have noFault : ¬ op.io.Faulty := working ▸ Io.not_faulty_working
    rw [(run_at located ran).2.commits committed noFault entry consistent]
  · simp [isOperation] at other
  · simp [isOperation] at other

theorem cleanOn_operation {op : Op} (located : op.vpath.place = spot.place)
    (working : op.io = Io.working) : (PoolOp.operation op).CleanOn spot := by
  intro operation same
  obtain rfl := PoolOp.operation.inj same
  exact ⟨located, working⟩

theorem cleanOn_startScan (thread : Nat) (vpath : VPath) (dir names : List FileName) :
    (PoolOp.startScan thread vpath dir names).CleanOn spot := nofun

theorem cleanOn_stepScan (thread : Nat) : (PoolOp.stepScan thread).CleanOn spot := nofun

/-- A scan that sees an upload and reads its file. -/
theorem new_state_kept_by_reading_scan :
    let played := (poolMachine (Sample.env false)).play ⟨Meta.new Tree.empty Tree.empty, ∅⟩
      [.operation (Sample.append (Sample.image 1)), Sample.startScan, .stepScan 0, .stepScan 0]
    (played.2.store.record Sample.spot).writing ≠ none ∧
      (played.2.store.record Sample.spot).Consistent := by
  intro played
  have clean : ∀ op ∈ [.operation (Sample.append (Sample.image 1)), Sample.startScan, .stepScan 0,
      .stepScan 0], op.CleanOn Sample.spot := by
    have append : (PoolOp.operation (Sample.append (Sample.image 1))).CleanOn Sample.spot :=
      cleanOn_operation (by decide) rfl
    simp [append, cleanOn_startScan, cleanOn_stepScan, Sample.startScan]
  refine ⟨by decide, (new_state_kept_by_scans
    (Machine.Steps.of_play (poolMachine (Sample.env false)) ⟨Meta.new Tree.empty Tree.empty, ∅⟩ _)
    (fun event member => clean _ (Machine.Steps.op_mem_of_play member)) ?_ (by decide)).1⟩
  rintro state (entry | committed | written)
  · exact absurd entry (by simp [Meta.new, Meta.record, recordOf])
  · exact absurd committed (by simp [Meta.new, Meta.record, recordOf, Tree.files, Tree.empty])
  · exact absurd written (by simp [Meta.new, Meta.record, recordOf, Tree.files, Tree.empty])

/-- An upload is aborted and begins again while a scan is about to remove the file
of the aborted one. -/
theorem new_state_lost_to_scan :
    ∃ (trace : List PoolEvent) (finish : Pool),
      (poolMachine (Sample.env false)).Steps ⟨Meta.new Tree.empty Tree.empty, ∅⟩ trace finish ∧
        (∀ event ∈ trace, event.op.CleanOn Sample.spot) ∧
        ¬ (finish.store.record Sample.spot).Consistent := by
  let ops : List PoolOp := [.operation (Sample.append (Sample.image 1)), Sample.startScan,
    .operation Sample.abort, .stepScan 0, .operation (Sample.append (Sample.image 1)), .stepScan 0]
  let played := (poolMachine (Sample.env false)).play ⟨Meta.new Tree.empty Tree.empty, ∅⟩ ops
  have clean : ∀ op ∈ ops, op.CleanOn Sample.spot := by
    have append : (PoolOp.operation (Sample.append (Sample.image 1))).CleanOn Sample.spot :=
      cleanOn_operation (by decide) rfl
    have abort : (PoolOp.operation Sample.abort).CleanOn Sample.spot :=
      cleanOn_operation (by decide) rfl
    simp [ops, append, abort, cleanOn_startScan, cleanOn_stepScan, Sample.startScan]
  refine ⟨played.1, played.2, Machine.Steps.of_play _ _ ops,
    fun event member => clean _ (Machine.Steps.op_mem_of_play member), ?_⟩
  intro consistent
  have written := consistent ⟨Sample.image 1, [⟨5, Sample.signature 1⟩], false⟩ (by decide)
  have missing : (played.2.store.record Sample.spot).newState = none := by decide
  simp [missing] at written

end Interleaving

end Metadata

end Ciruela
