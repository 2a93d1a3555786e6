import Ciruela.Daemon.Metadata.History

/-!
# Requests that fail

A request that is turned down, or that fails on the way, should leave the record of its path
alone. It puts its entry into `writing` before it saves `x.new.state`, so the entry stays
where the save fails, and a second request finds an upload in progress that nobody runs.
-/

namespace Ciruela

open Foundation

namespace Metadata

/-- The request was not taken. -/
def Refusal : Except Error Upload → Prop
  | .error _ => True
  | .ok (.rejected _ _) => True
  | .ok (.accepted _) => False

/-- The same request with working calls. -/
def Op.again : Op → Op
  | startAppend _ keys params => .startAppend Io.working keys params
  | startReplace _ keys params => .startReplace Io.working keys params
  | op => op

/-- A request left `writing` and the state files of its path alone, and asking once more gets
what it would have got before. -/
structure Untouched (env : Env) (op : Op) (before after : Meta) : Prop where
  writing : after.writing = before.writing
  record : ∀ spot : Spot, op.vpath.place = spot.place → after.record spot = before.record spot
  again : (run env after op.again).map Prod.fst = (run env before op.again).map Prod.fst

/-- One of the calls that put `x.new.state` in place fails. -/
def Io.LosesNewState (io : Io) (name : FileName) : Prop :=
  io.fails (.writeFile (tmpFile (newStateFile name))) = true ∨
    io.fails (.encode (newStateFile name)) = true ∨
    io.fails (.rename (tmpFile (newStateFile name)) (newStateFile name)) = true

namespace Demand

/-- The part of the request under the lock. -/
def locked (demand : Demand) (io : Io) (name : FileName) (entry : Option Writing)
    (files : Files Content) : Locked Upload :=
  match demand.replaces with
  | none => appendLocked io name demand.image (sortSignatures demand.entries) entry files
  | some oldImage =>
      replaceLocked io name demand.image oldImage (sortSignatures demand.entries) entry files

/-- The entry the request would have in `writing`, where it comes to that: a new one if
nothing is in the way, or the one of the same image with the signatures added. -/
def entry (demand : Demand) (io : Io) (name : FileName) (entry : Option Writing)
    (files : Files Content) : Option Writing :=
  match entry with
  | some old =>
      if old.image = demand.image then some (old.extend (sortSignatures demand.entries)) else none
  | none =>
      match readFile io files (stateFile name), demand.replaces with
      | .error _, _ => none
      | .ok none, _ => some ⟨demand.image, sortSignatures demand.entries, false⟩
      | .ok (some _), none => none
      | .ok (some state), some oldImage =>
          if state.image = demand.image ∨ oldImage.isSome ∧ oldImage ≠ some state.image then none
          else some ⟨demand.image, sortSignatures demand.entries, true⟩

end Demand

/-- The request gets as far as a change of its entry, and then the entry cannot be saved. -/
def Spoils (env : Env) (op : Op) (store : Meta) : Prop :=
  ∃ (demand : Demand) (spot : Spot) (writing : Writing), op.demand = some demand ∧
    demand.Admitted env ∧ op.io.OpensParent ∧ demand.path.place = spot.place ∧
    demand.entry op.io spot.name (store.writing.lookup spot.place)
      (store.signatures.files spot.dir) = some writing ∧
    store.writing.lookup spot.place ≠ some writing ∧ op.io.LosesNewState spot.name

section Locked

variable {io : Io} {name : FileName} {files files' : Files Content} {demand : Demand}

/-- A state is stored, unless one of three calls fails. -/
theorem replaceFile_ok_or_fails (io : Io) (files : Files Content) (name : FileName) (state : State) :
    (replaceFile io files name state).1 = .ok () ∧
        ¬ (io.fails (.writeFile (tmpFile name)) = true ∨ io.fails (.encode name) = true ∨
          io.fails (.rename (tmpFile name) name) = true) ∨
      (∃ error, (replaceFile io files name state).1 = .error error) ∧
        (io.fails (.writeFile (tmpFile name)) = true ∨ io.fails (.encode name) = true ∨
          io.fails (.rename (tmpFile name) name) = true) := by
  unfold replaceFile replaceWith
  dsimp only
  split
  · rename_i fails
    exact Or.inr ⟨⟨_, rfl⟩, Or.inl fails⟩
  · rename_i opens
    split
    · rename_i fails
      exact Or.inr ⟨⟨_, rfl⟩, Or.inr (Or.inl fails)⟩
    · rename_i encodes
      split
      · rename_i fails
        exact Or.inr ⟨⟨_, rfl⟩, Or.inr (Or.inr fails)⟩
      · rename_i renames
        have renamed : ∃ after, Files.rename (files.insert (tmpFile name) (.state state))
            (tmpFile name) name = some after := ⟨_, by simp [Files.rename]; rfl⟩
        obtain ⟨after, renamed⟩ := renamed
        rw [renamed]
        exact Or.inl ⟨rfl, by simp [opens, encodes, renames]⟩

@[simp] theorem replaceFile_working (files : Files Content) (name : FileName) (state : State) :
    (replaceFile Io.working files name state).1 = .ok () := by
  obtain ⟨stored, _⟩ | ⟨_, fails⟩ := replaceFile_ok_or_fails Io.working files name state
  · exact stored
  · simp at fails

@[simp] theorem storeNewState_working (name : FileName) (writing : Writing) (accept : Accept)
    (files : Files Content) :
    (storeNewState Io.working name writing accept files).1 = .ok (.accepted accept) := by
  have stored := replaceFile_working files (newStateFile name) writing.toState
  unfold storeNewState
  split <;> simp_all

@[simp] theorem mergeState_working (name : FileName) (state : State)
    (signatures : List SignatureEntry) (files : Files Content) :
    (mergeState Io.working name state signatures files).1 = .ok (.accepted .alreadyDone) := by
  have stored := replaceFile_working files (stateFile name)
    { state with signatures := appendSignatures state.signatures signatures }
  unfold mergeState
  dsimp only
  split <;> simp_all

/-- With working calls the answer depends on the entry and on `x.state` alone. -/
theorem locked_working_congr (demand : Demand) (entry : Option Writing)
    (same : files'.lookup (stateFile name) = files.lookup (stateFile name)) :
    (demand.locked Io.working name entry files').1 =
      (demand.locked Io.working name entry files).1 := by
  have read : readFile Io.working files' (stateFile name) =
      readFile Io.working files (stateFile name) := by
    simp only [readFile, same]
  unfold Demand.locked
  cases demand.replaces with
  | none =>
      dsimp only
      unfold appendLocked
      cases entry with
      | none =>
          dsimp only
          rw [read]
          split
          · rfl
          · split <;> simp
          · simp
      | some old =>
          dsimp only
          split
          · simp [mergeWriting]
          · rfl
  | some oldImage =>
      dsimp only
      unfold replaceLocked
      cases entry with
      | none =>
          dsimp only
          rw [read]
          split
          · rfl
          · split
            · simp
            · split <;> simp
          · simp
      | some old =>
          dsimp only
          split
          · simp [mergeWriting]
          · split <;> rfl

/-- The request saves an entry, or it changes nothing where it is not taken. -/
theorem locked_cases (demand : Demand) (io : Io) (name : FileName) (entry : Option Writing)
    (files : Files Content) :
    (∃ writing accept, demand.entry io name entry files = some writing ∧
        demand.locked io name entry files = storeNewState io name writing accept files) ∨
      demand.entry io name entry files = none ∧
        (Refusal (demand.locked io name entry files).1 →
          recordOf name (demand.locked io name entry files).2.1
            (demand.locked io name entry files).2.2 = recordOf name entry files) := by
  have merges (state : State) :
      Refusal (mergeState io name state (sortSignatures demand.entries) files).1 →
        recordOf name (mergeState io name state (sortSignatures demand.entries) files).2.1
          (mergeState io name state (sortSignatures demand.entries) files).2.2 =
            recordOf name none files := by
    intro refused
    obtain ⟨merged, _⟩ | ⟨_, record⟩ :=
      mergeState_cases io name state (sortSignatures demand.entries) files
    · rw [merged] at refused
      exact refused.elim
    · exact record
  unfold Demand.locked Demand.entry
  cases entry with
  | some old =>
      dsimp only
      by_cases same : old.image = demand.image
      · left
        rw [if_pos same]
        refine ⟨_, .inProgress, rfl, ?_⟩
        cases demand.replaces with
        | none => exact if_pos same
        | some oldImage => exact if_pos same
      · right
        rw [if_neg same]
        refine ⟨rfl, fun _ => ?_⟩
        cases demand.replaces with
        | none => simp [appendLocked, same]
        | some oldImage =>
            simp only [replaceLocked, same, if_false]
            split <;> rfl
  | none =>
      cases demand.replaces with
      | none =>
          dsimp only
          unfold appendLocked
          dsimp only
          cases readFile io files (stateFile name) with
          | error error => exact Or.inr ⟨rfl, fun _ => rfl⟩
          | ok found =>
              cases found with
              | none => exact Or.inl ⟨_, .new, rfl, rfl⟩
              | some state =>
                  dsimp only
                  refine Or.inr ⟨rfl, ?_⟩
                  split
                  · exact merges state
                  · exact fun _ => rfl
      | some oldImage =>
          dsimp only
          unfold replaceLocked
          dsimp only
          cases readFile io files (stateFile name) with
          | error error => exact Or.inr ⟨rfl, fun _ => rfl⟩
          | ok found =>
              cases found with
              | none => exact Or.inl ⟨_, .new, rfl, rfl⟩
              | some state =>
                  dsimp only
                  by_cases same : state.image = demand.image
                  · rw [if_pos same, if_pos (Or.inl same)]
                    exact Or.inr ⟨rfl, merges state⟩
                  · rw [if_neg same]
                    by_cases mismatch : oldImage.isSome ∧ oldImage ≠ some state.image
                    · rw [if_pos mismatch, if_pos (Or.inr mismatch)]
                      exact Or.inr ⟨rfl, fun _ => rfl⟩
                    · rw [if_neg mismatch, if_neg (not_or.mpr ⟨same, mismatch⟩)]
                      exact Or.inl ⟨_, .new, rfl, rfl⟩

/-- An entry that is not saved is in `writing` all the same. -/
theorem storeNewState_refused {writing : Writing} {accept : Accept}
    (refused : Refusal (storeNewState io name writing accept files).1) :
    io.LosesNewState name ∧
      recordOf name (storeNewState io name writing accept files).2.1
        (storeNewState io name writing accept files).2.2 =
      { recordOf name none files with writing := some writing } := by
  obtain ⟨stored, _⟩ | ⟨⟨error, failed⟩, _, record⟩ := storeNewState_cases io name writing accept files
  · rw [stored] at refused
    exact refused.elim
  · refine ⟨?_, record⟩
    obtain ⟨stored, _⟩ | ⟨_, fails⟩ :=
      replaceFile_ok_or_fails io files (newStateFile name) writing.toState
    · unfold storeNewState at failed
      split at failed <;> simp_all
    · exact fails

/-- A state that is not written is an error. -/
theorem refusal_of_losesNewState {writing : Writing} {accept : Accept}
    (loses : io.LosesNewState name) : Refusal (storeNewState io name writing accept files).1 := by
  obtain ⟨_, works⟩ | ⟨⟨error, failed⟩, _⟩ :=
    replaceFile_ok_or_fails io files (newStateFile name) writing.toState
  · exact absurd loses works
  · unfold storeNewState
    split
    · trivial
    · simp_all

end Locked

section Requests

variable {env : Env} {op : Op} {store after : Meta} {demand : Demand}

/-- A demand that is admitted is so by the directory it is configured in. -/
theorem Demand.admitted_iff {directory : Directory}
    (configured : env.config.dirs.lookup demand.path.key = some directory) :
    demand.Admitted env ↔ demand.path.level = directory.numLevels ∧
      (demand.replaces ≠ none → directory.appendOnly = false) ∧
      checkKeys env demand.keys demand.sigData demand.signatures directory = .ok true := by
  constructor
  · rintro ⟨other, found, checks⟩
    obtain rfl := Option.some.inj (found.symm.trans configured)
    exact checks
  · exact fun checks => ⟨directory, configured, checks⟩

/-- An append is turned down at once, whatever is stored, or it goes on to the lock. -/
theorem startAppendMarked_cases (env : Env) (io : Io) (keys : KeyFiles) (params : AppendDir) :
    ¬ (Demand.ofAppend keys params).Admitted env ∧ (∃ answer, Refusal answer ∧ ∀ store,
        startAppendMarked env io keys params store = .ok (answer, store)) ∨
      (Demand.ofAppend keys params).Admitted env ∧ ∀ store,
        startAppendMarked env io keys params store =
          underLock io store params.path ((Demand.ofAppend keys params).locked io) := by
  cases configured : env.config.dirs.lookup params.path.key with
  | none =>
      refine Or.inl ⟨?_, .error (.pathNotFound params.path), trivial, fun store => ?_⟩
      · rintro ⟨directory, found, _⟩
        cases configured.symm.trans found
      · simp only [startAppendMarked, configured]
  | some directory =>
      rw [@Demand.admitted_iff env (.ofAppend keys params) directory configured]
      by_cases depth : params.path.level = directory.numLevels
      · cases passed : checkKeys env keys params.sigData params.signatures directory with
        | error error =>
            refine Or.inl ⟨fun checks => ?_, .error error, trivial, fun store => ?_⟩
            · cases passed.symm.trans checks.2.2
            · simp [startAppendMarked, configured, depth, passed]
        | ok good =>
            cases good with
            | false =>
                refine Or.inl ⟨fun checks => ?_, .ok (.rejected "signature_mismatch" none), trivial,
                  fun store => ?_⟩
                · cases passed.symm.trans checks.2.2
                · simp [startAppendMarked, configured, depth, passed]
            | true =>
                refine Or.inr ⟨⟨depth, fun replaces => absurd rfl replaces, passed⟩, fun store => ?_⟩
                simp only [startAppendMarked, configured, depth, passed, ne_eq, not_true_eq_false,
                  if_false]
                rfl
      · refine Or.inl ⟨fun checks => depth checks.1, .ok (.rejected "config_level_mismatch" none),
          trivial, fun store => ?_⟩
        simp [startAppendMarked, configured, depth]

/-- So is a replacement, which is also turned down in an append-only directory. -/
theorem startReplaceMarked_cases (env : Env) (io : Io) (keys : KeyFiles) (params : ReplaceDir) :
    ¬ (Demand.ofReplace keys params).Admitted env ∧ (∃ answer, Refusal answer ∧ ∀ store,
        startReplaceMarked env io keys params store = .ok (answer, store)) ∨
      (Demand.ofReplace keys params).Admitted env ∧ ∀ store,
        startReplaceMarked env io keys params store =
          underLock io store params.path ((Demand.ofReplace keys params).locked io) := by
  cases configured : env.config.dirs.lookup params.path.key with
  | none =>
      refine Or.inl ⟨?_, .error (.pathNotFound params.path), trivial, fun store => ?_⟩
      · rintro ⟨directory, found, _⟩
        cases configured.symm.trans found
      · simp only [startReplaceMarked, configured]
  | some directory =>
      rw [@Demand.admitted_iff env (.ofReplace keys params) directory configured]
      by_cases depth : params.path.level = directory.numLevels
      · cases fixed : directory.appendOnly with
        | true =>
            refine Or.inl ⟨fun checks => ?_, .ok (.rejected "dir_is_append_only" none), trivial,
              fun store => ?_⟩
            · cases checks.2.1 (Option.some_ne_none _)
            · simp [startReplaceMarked, configured, depth, fixed]
        | false =>
            cases passed : checkKeys env keys params.sigData params.signatures directory with
            | error error =>
                refine Or.inl ⟨fun checks => ?_, .error error, trivial, fun store => ?_⟩
                · cases passed.symm.trans checks.2.2
                · simp [startReplaceMarked, configured, depth, fixed, passed]
            | ok good =>
                cases good with
                | false =>
                    refine Or.inl ⟨fun checks => ?_, .ok (.rejected "signature_mismatch" none),
                      trivial, fun store => ?_⟩
                    · cases passed.symm.trans checks.2.2
                    · simp [startReplaceMarked, configured, depth, fixed, passed]
                | true =>
                    refine Or.inr ⟨⟨depth, fun _ => rfl, passed⟩, fun store => ?_⟩
                    simp only [startReplaceMarked, configured, depth, fixed, passed, ne_eq,
                      not_true_eq_false, if_false, Bool.false_eq_true]
                    rfl
      · refine Or.inl ⟨fun checks => depth checks.1, .ok (.rejected "config_level_mismatch" none),
          trivial, fun store => ?_⟩
        simp [startReplaceMarked, configured, depth]

/-- A request is turned down at once, whatever is stored, or it goes on to the lock. -/
theorem run_of_demand (env : Env) (asked : op.demand = some demand) :
    ¬ demand.Admitted env ∧ (∃ answer, Refusal answer ∧ ∀ store,
        run env store op = .ok (.upload answer, store.markUsed demand.image)) ∨
      demand.Admitted env ∧ ∀ store, run env store op =
        (underLock op.io (store.markUsed demand.image) demand.path (demand.locked op.io)).map
          fun result => (.upload result.1, result.2) := by
  cases op with
  | startAppend io keys params =>
      obtain rfl := Option.some.inj asked
      obtain ⟨unfit, answer, refusal, answers⟩ | ⟨admitted, goesOn⟩ :=
        startAppendMarked_cases env io keys params
      · refine Or.inl ⟨unfit, answer, refusal, fun store => ?_⟩
        simp only [run, startAppend, answers, Run.ok_bind]
        rfl
      · refine Or.inr ⟨admitted, fun store => ?_⟩
        simp only [run, startAppend, goesOn]
        rfl
  | startReplace io keys params =>
      obtain rfl := Option.some.inj asked
      obtain ⟨unfit, answer, refusal, answers⟩ | ⟨admitted, goesOn⟩ :=
        startReplaceMarked_cases env io keys params
      · refine Or.inl ⟨unfit, answer, refusal, fun store => ?_⟩
        simp only [run, startReplace, answers, Run.ok_bind]
        rfl
      · refine Or.inr ⟨admitted, fun store => ?_⟩
        simp only [run, startReplace, goesOn]
        rfl
  | resumeUpload => cases asked
  | dirAborted => cases asked
  | dirCommitted => cases asked
  | removeStateFile => cases asked

/-- A path of no spot gets no answer from under the lock, and none that depends on what is
stored. -/
theorem underLock_cases {Answer : Type} (io : Io) (vpath : VPath)
    (locked : FileName → Option Writing → Files Content → Locked Answer) :
    (∃ spot : Spot, vpath.place = spot.place) ∨
      ∃ answer : Run (Except Error Answer), ∀ store,
        (underLock io store vpath locked).map Prod.fst = answer ∧
        ∀ result, underLock io store vpath locked = .ok result →
          result.2.writing = store.writing := by
  -- Whatever stops the request before the lock does so with one answer.
  have stops (error : Error) (ends : ∀ store, ∃ after : Meta,
      underLock io store vpath locked = .ok (.error error, after) ∧ after.writing = store.writing) :
      ∃ answer : Run (Except Error Answer), ∀ store,
        (underLock io store vpath locked).map Prod.fst = answer ∧
        ∀ result, underLock io store vpath locked = .ok result →
          result.2.writing = store.writing := by
    refine ⟨.ok (.error error), fun store => ?_⟩
    obtain ⟨after, ended, same⟩ := ends store
    refine ⟨by rw [ended]; rfl, fun result ran => ?_⟩
    obtain rfl := Except.ok.inj (ended.symm.trans ran)
    exact same
  have panics (panic : Panic) (ends : ∀ store, underLock io store vpath locked = .error panic) :
      ∃ answer : Run (Except Error Answer), ∀ store,
        (underLock io store vpath locked).map Prod.fst = answer ∧
        ∀ result, underLock io store vpath locked = .ok result →
          result.2.writing = store.writing :=
    ⟨.error panic, fun store => ⟨by rw [ends]; rfl, fun result ran => by
      cases (ends store).symm.trans ran⟩⟩
  cases root : io.fails .signatures with
  | true =>
      refine Or.inr (stops .createDir fun store => ⟨store, ?_, rfl⟩)
      simp [underLock, Meta.ensureParent, root]
      rfl
  | false =>
      cases above : vpath.parentRel with
      | error panic =>
          refine Or.inr (panics panic fun store => ?_)
          simp [underLock, Meta.ensureParent, root, above]
      | ok path =>
          cases create : io.fails .ensureDir with
          | true =>
              refine Or.inr (stops .createDir fun store => ⟨store, ?_, rfl⟩)
              simp [underLock, Meta.ensureParent, root, above, create]
              rfl
          | false =>
              cases checked : checkComponents path with
              | error error =>
                  refine Or.inr (stops error fun store =>
                    ⟨{ store with signatures := store.signatures.ensureDir (leadingNames path) },
                      ?_, rfl⟩)
                  simp [underLock, Meta.ensureParent, root, above, create, checked]
                  rfl
              | ok dir =>
                  cases named : vpath.finalName with
                  | error panic =>
                      refine Or.inr (panics panic fun store => ?_)
                      simp [underLock, Meta.ensureParent, root, above, create, checked, named]
                  | ok name =>
                      obtain ⟨spot, located, _⟩ := VPath.exists_spot_of_parentRel above
                        (components_of_checkComponents checked) named
                      exact Or.inl ⟨spot, located⟩

/-- Where the directory opens, the part under the lock answers and leaves the record. -/
theorem underLock_opened {Answer : Type} {io : Io} {vpath : VPath} {spot : Spot}
    (locked : FileName → Option Writing → Files Content → Locked Answer) (store : Meta)
    (opens : io.OpensParent) (located : vpath.place = spot.place) :
    ∃ after, underLock io store vpath locked =
        .ok ((locked spot.name (store.writing.lookup spot.place)
          (store.signatures.files spot.dir)).1, after) ∧
      after.record spot = recordOf spot.name
        (locked spot.name (store.writing.lookup spot.place) (store.signatures.files spot.dir)).2.1
        (locked spot.name (store.writing.lookup spot.place)
          (store.signatures.files spot.dir)).2.2 := by
  obtain ⟨closed, _⟩ | ⟨_, opened⟩ := ensureParent_eq io store located
  · exact absurd opens closed
  · have ran : underLock io store vpath locked = .ok
        ((locked spot.name (store.writing.lookup spot.place) (store.signatures.files spot.dir)).1,
          ({ store with signatures := store.signatures.ensureDir spot.dir } : Meta).putBack
            spot.place spot.dir
            (locked spot.name (store.writing.lookup spot.place) (store.signatures.files spot.dir)).2.1
            (locked spot.name (store.writing.lookup spot.place)
              (store.signatures.files spot.dir)).2.2) := by
      have sameEntry : store.writing.lookup vpath.place = store.writing.lookup spot.place := by
        rw [located]
      simp only [underLock, opened, Run.ok_bind, VPath.finalName_at located, Tree.files_ensureDir,
        sameEntry]
      rw [located]
      rfl
    exact ⟨_, ran, record_putBack _ _⟩

/-- What a request that passes its check does to the record of its path: it runs the part
under the lock if the directory opens, and nothing if it does not. -/
theorem run_admitted {spot : Spot} {answer : Answer} (asked : op.demand = some demand)
    (admitted : demand.Admitted env) (located : op.vpath.place = spot.place)
    (ran : run env store op = .ok (answer, after)) :
    op.io.OpensParent ∧
        answer = .upload (demand.locked op.io spot.name (store.record spot).writing
          (store.signatures.files spot.dir)).1 ∧
        after.record spot = recordOf spot.name
          (demand.locked op.io spot.name (store.record spot).writing
            (store.signatures.files spot.dir)).2.1
          (demand.locked op.io spot.name (store.record spot).writing
            (store.signatures.files spot.dir)).2.2 ∨
      ¬ op.io.OpensParent ∧ after.record spot = store.record spot := by
  have atSpot : demand.path.place = spot.place := by
    rw [Op.demand_path asked]
    exact located
  obtain ⟨unfit, _⟩ | ⟨_, goesOn⟩ := run_of_demand env asked
  · exact absurd admitted unfit
  rw [goesOn] at ran
  by_cases opens : op.io.OpensParent
  · obtain ⟨opened, underlying, record⟩ := underLock_opened (demand.locked op.io)
      (store.markUsed demand.image) opens atSpot
    rw [underlying] at ran
    obtain ⟨rfl, rfl⟩ := Prod.mk.inj (Except.ok.inj ran)
    exact Or.inl ⟨opens, rfl, record⟩
  · obtain ⟨_, failed⟩ | ⟨opens', _⟩ :=
      ensureParent_eq op.io (store.markUsed demand.image) atSpot
    · rw [underLock, failed] at ran
      obtain ⟨_, rfl⟩ := Prod.mk.inj (Except.ok.inj ran)
      exact Or.inr ⟨opens, rfl⟩
    · exact absurd opens' opens

/-- A record that is the same has the same uploads. -/
theorem Frame.writing_eq {spot : Spot} {before : Meta} (frame : Frame spot before after)
    (same : after.record spot = before.record spot) : after.writing = before.writing := by
  refine Finmap.ext_lookup fun place => ?_
  by_cases here : place = spot.place
  · subst here
    exact congrArg Record.writing same
  · exact frame.writing place here

/-- The demand of an operation that is repeated. -/
theorem Op.demand_again (asked : op.demand = some demand) :
    op.again.demand = some demand ∧ op.again.io = Io.working := by
  cases op with
  | startAppend => exact ⟨asked, rfl⟩
  | startReplace => exact ⟨asked, rfl⟩
  | resumeUpload => cases asked
  | dirAborted => cases asked
  | dirCommitted => cases asked
  | removeStateFile => cases asked

/-- The second answer is decided by the record of the path. -/
theorem again_congr (asked : op.demand = some demand)
    (record : ∀ spot : Spot, op.vpath.place = spot.place → after.record spot = store.record spot) :
    (run env after op.again).map Prod.fst = (run env store op.again).map Prod.fst := by
  obtain ⟨asksAgain, works⟩ := Op.demand_again asked
  obtain ⟨_, answer, _, answers⟩ | ⟨_, goesOn⟩ := run_of_demand env asksAgain
  · rw [answers, answers]
    rfl
  · rw [works] at goesOn
    have answered (start : Meta) : (run env start op.again).map Prod.fst =
        ((underLock Io.working (start.markUsed demand.image) demand.path
          (demand.locked Io.working)).map Prod.fst).map Answer.upload := by
      rw [goesOn]
      cases underLock Io.working (start.markUsed demand.image) demand.path
        (demand.locked Io.working) <;> rfl
    rw [answered, answered]
    congr 1
    obtain ⟨spot, located⟩ | ⟨answer, fixed⟩ :=
      underLock_cases Io.working demand.path (demand.locked Io.working)
    · have opens : Io.working.OpensParent := ⟨rfl, rfl⟩
      obtain ⟨_, first, _⟩ := underLock_opened (demand.locked Io.working)
        (after.markUsed demand.image) opens located
      obtain ⟨_, second, _⟩ := underLock_opened (demand.locked Io.working)
        (store.markUsed demand.image) opens located
      rw [first, second]
      have same := record spot (by rw [← Op.demand_path asked, located])
      have entries : (after.markUsed demand.image).writing.lookup spot.place =
          (store.markUsed demand.image).writing.lookup spot.place :=
        congrArg Record.writing same
      rw [entries]
      exact congrArg Except.ok (locked_working_congr demand _ (congrArg Record.state same))
    · rw [(fixed _).1, (fixed _).1]

/-- A request that is not taken leaves the record of its path as it was, unless the entry it
has changed is lost on the way to the disk. -/
theorem record_of_refusal {spot : Spot} (asked : op.demand = some demand)
    (located : op.vpath.place = spot.place) {answer : Except Error Upload}
    (ran : run env store op = .ok (.upload answer, after)) (refused : Refusal answer)
    (sound : ¬ Spoils env op store) : after.record spot = store.record spot := by
  obtain ⟨_, other, _, answers⟩ | ⟨admitted, _⟩ := run_of_demand env asked
  · obtain ⟨_, rfl⟩ := Prod.mk.inj (Except.ok.inj ((answers store).symm.trans ran))
    rfl
  · obtain ⟨opens, same, record⟩ | ⟨_, record⟩ := run_admitted asked admitted located ran
    · obtain rfl := Answer.upload.inj same
      rw [record]
      obtain ⟨writing, accept, saved, stores⟩ | ⟨_, keeps⟩ := locked_cases demand op.io
        spot.name (store.record spot).writing (store.signatures.files spot.dir)
      · obtain ⟨loses, entry⟩ := storeNewState_refused (stores ▸ refused)
        by_cases same : (store.record spot).writing = some writing
        · rw [stores, entry, ← same]
          rfl
        · have atSpot : demand.path.place = spot.place := by
            rw [Op.demand_path asked]
            exact located
          exact absurd ⟨demand, spot, writing, asked, admitted, opens, atSpot, saved, same, loses⟩
            sound
      · exact keeps refused
    · exact record

/-- A request that is not taken leaves everything as it was, unless the entry it has changed is
lost on the way to the disk. -/
theorem untouched_of_refusal (asked : op.demand = some demand) {answer : Except Error Upload}
    (ran : run env store op = .ok (.upload answer, after)) (refused : Refusal answer)
    (sound : ¬ Spoils env op store) : Untouched env op store after := by
  suffices unchanged : after.writing = store.writing ∧ ∀ spot : Spot,
      op.vpath.place = spot.place → after.record spot = store.record spot from
    ⟨unchanged.1, unchanged.2, again_congr asked unchanged.2⟩
  refine ⟨?_, fun spot located => record_of_refusal asked located ran refused sound⟩
  by_cases placed : ∃ spot : Spot, op.vpath.place = spot.place
  · -- At a spot the frame covers the other uploads, and the record has this one.
    obtain ⟨spot, located⟩ := placed
    have record := record_of_refusal asked located ran refused sound
    exact (run_at located ran).1.writing_eq record
  · obtain ⟨_, other, _, answers⟩ | ⟨_, goesOn⟩ := run_of_demand env asked
    · obtain ⟨_, rfl⟩ := Prod.mk.inj (Except.ok.inj ((answers store).symm.trans ran))
      rfl
    · obtain located | ⟨_, fixed⟩ := underLock_cases op.io demand.path (demand.locked op.io)
      · rw [Op.demand_path asked] at located
        exact absurd located placed
      · rw [goesOn] at ran
        cases underlying : underLock op.io (store.markUsed demand.image) demand.path
          (demand.locked op.io) with
        | error panic =>
            rw [underlying] at ran
            cases ran
        | ok result =>
            rw [underlying] at ran
            obtain ⟨_, rfl⟩ := Prod.mk.inj (Except.ok.inj ran)
            exact (fixed (store.markUsed demand.image)).2 result underlying

/-- A request that fails or is rejected leaves no trace exactly where no changed entry is
lost. -/
theorem failed_request_untouched_iff (asked : op.demand = some demand) :
    (∀ answer after, run env store op = .ok (.upload answer, after) → Refusal answer →
        Untouched env op store after) ↔ ¬ Spoils env op store := by
  constructor
  · rintro untouched ⟨other, spot, writing, same, admitted, opens, located, saved, changed, loses⟩
    obtain rfl := Option.some.inj (same.symm.trans asked)
    obtain ⟨unfit, _⟩ | ⟨_, goesOn⟩ := run_of_demand env asked
    · exact unfit admitted
    · obtain ⟨after, ran, record⟩ := underLock_opened (other.locked op.io)
        (store.markUsed other.image) opens located
      obtain ⟨written, accept, alsoSaved, stores⟩ | ⟨nothing, _⟩ := locked_cases other op.io
        spot.name (store.writing.lookup spot.place) (store.signatures.files spot.dir)
      · obtain rfl := Option.some.inj (alsoSaved.symm.trans saved)
        have refused : Refusal (other.locked op.io spot.name (store.writing.lookup spot.place)
            (store.signatures.files spot.dir)).1 := by
          rw [stores]
          exact refusal_of_losesNewState loses
        have left := untouched _ after (by rw [goesOn, ran]; rfl) refused
        have kept := left.record spot (by rw [← Op.demand_path asked, located])
        have entry := (storeNewState_refused (stores ▸ refused)).2
        rw [record] at kept
        have spoiled : store.record spot =
            { recordOf spot.name none (store.signatures.files spot.dir) with
              writing := some written } :=
          kept.symm.trans ((congrArg (fun result => recordOf spot.name result.2.1 result.2.2)
            stores).trans entry)
        exact changed (congrArg Record.writing spoiled)
      · cases nothing.symm.trans saved
  · exact fun sound answer after ran refused => untouched_of_refusal asked ran refused sound

end Requests

namespace Sample

/-- Calls of which the one that opens the temporary file of `x.new.state` fails. -/
def fullDisk : Io := ⟨fun call => decide (call = .writeFile (tmpFile (newStateFile name)))⟩

/-- An append on a disk that is full. -/
def appendToFull : Op := .startAppend fullDisk keys ⟨path, image 1, 5, [signature 1]⟩

end Sample

/-- An append that is rejected because something else is there leaves no trace, even with a
disk that is full. -/
theorem failed_request_untouched_rejected :
    let store := ((machine (Sample.env false)).play (Meta.new .empty .empty)
      [Sample.append (Sample.image 2), Sample.commit]).2
    ∃ answer after, run (Sample.env false) store Sample.appendToFull = .ok (.upload answer, after) ∧
      answer = .ok (.rejected "already_exists" (some (Sample.image 2))) ∧
      Untouched (Sample.env false) Sample.appendToFull store after := by
  intro store
  refine ⟨_, _, rfl, rfl, (failed_request_untouched_iff rfl).mpr ?_ _ _ rfl trivial⟩
  rintro ⟨demand, spot, writing, asked, _, _, located, saved, _⟩
  obtain rfl := Option.some.inj asked
  obtain rfl : spot = Sample.spot := Spot.place_injective (located.symm.trans (by decide))
  have nothing : (Demand.ofAppend Sample.keys ⟨Sample.path, Sample.image 1, 5,
      [Sample.signature 1]⟩).entry Sample.fullDisk Sample.spot.name
      (store.writing.lookup Sample.spot.place) (store.signatures.files Sample.spot.dir) = none := by
    decide
  cases nothing.symm.trans saved

/-- A first append fails because the disk is full, and the same append is then told that the
upload is in progress. -/
theorem failed_append_in_progress :
    let store := Meta.new .empty .empty
    ∃ error after, run (Sample.env false) store Sample.appendToFull =
        .ok (.upload (.error error), after) ∧
      after.writing ≠ store.writing ∧
      (run (Sample.env false) after Sample.appendToFull.again).map Prod.fst =
        .ok (accepted .inProgress) ∧
      (run (Sample.env false) store Sample.appendToFull.again).map Prod.fst =
        .ok (accepted .new) := by
  intro store
  exact ⟨_, _, rfl, by decide, rfl, rfl⟩

end Metadata

end Ciruela
