import Ciruela.Daemon.Metadata.Meta

/-!
# The record of a path

What `writing` and the two state files say about one path is its record. `Change`
lists all that an operation on the path can do to the record, and `run_at` is the
proof that nothing else happens; the history theorems about uploads only
look at changes. Operations on other paths are covered by the frame: an operation
touches only the files in the footprint of its name.
-/

namespace Ciruela

open Foundation

namespace Metadata

/-- What an upload request asks for. `replaces` is the old image a replacement
names, and is absent for an append. -/
structure Demand where
  path : VPath
  image : ImageId
  timestamp : Nat
  signatures : List Signature
  replaces : Option (Option ImageId)
  keys : KeyFiles

namespace Demand

/-- What an append asks for. -/
def ofAppend (keys : KeyFiles) (params : AppendDir) : Demand :=
  ⟨params.path, params.image, params.timestamp, params.signatures, none, keys⟩

/-- What a replacement asks for. -/
def ofReplace (keys : KeyFiles) (params : ReplaceDir) : Demand :=
  ⟨params.path, params.image, params.timestamp, params.signatures, some params.oldImage, keys⟩

/-- The signatures of the demand, each with its time. -/
def entries (demand : Demand) : List SignatureEntry := entriesOf demand.timestamp demand.signatures

/-- What the signatures of the demand are made over. -/
def sigData (demand : Demand) : SigData :=
  ⟨demand.path.path.text, demand.image.bytes, demand.timestamp⟩

/-- The state an upload that starts anew records. -/
def state (demand : Demand) : State := ⟨demand.image, sortSignatures demand.entries⟩

/-- The demand reaches the lock: the path is configured with this depth, a
replacement is allowed there, and the keys that are there accept a signature. -/
def Admitted (env : Env) (demand : Demand) : Prop :=
  ∃ directory, env.config.dirs.lookup demand.path.key = some directory ∧
    demand.path.level = directory.numLevels ∧
    (demand.replaces ≠ none → directory.appendOnly = false) ∧
    checkKeys env demand.keys demand.sigData demand.signatures directory = .ok true

/-- A replacement that names no old image or this one. -/
def Replaces (demand : Demand) (image : ImageId) : Prop :=
  demand.replaces = some none ∨ demand.replaces = some (some image)

end Demand

/-- What an operation asks to have recorded. Only the requests of clients ask for something. -/
def Op.demand : Op → Option Demand
  | startAppend _ keys params => some (.ofAppend keys params)
  | startReplace _ keys params => some (.ofReplace keys params)
  | _ => none

/-- Some call fails. -/
def Io.Faulty (io : Io) : Prop := ∃ call, io.fails call = true

/-- Calls that work do not fail. -/
theorem Io.not_faulty_working : ¬ Io.working.Faulty := by
  rintro ⟨call, fails⟩
  simp at fails

/-- What is known about one path. -/
structure Record where
  writing : Option Writing
  state : Option Content
  newState : Option Content
deriving DecidableEq

/-- What is recorded of one name: the upload that goes on, and the contents of its two state files.
-/
def recordOf (name : FileName) (entry : Option Writing) (files : Files Content) : Record :=
  ⟨entry, files.lookup (stateFile name), files.lookup (newStateFile name)⟩

/-- What the metadata records at a place. -/
def Meta.record (store : Meta) (spot : Spot) : Record :=
  recordOf spot.name (store.writing.lookup spot.place) (store.signatures.files spot.dir)

/-- The entry after more signatures came in for its image. -/
def Writing.extend (old : Writing) (signatures : List SignatureEntry) : Writing :=
  { old with
    signatures :=
      if signatures ≠ old.signatures then appendSignatures old.signatures signatures
      else old.signatures }

/-- The signatures of an upload that is extended. -/
theorem Writing.mem_extend {old : Writing} {signatures : List SignatureEntry}
    {entry : SignatureEntry} :
    entry ∈ (old.extend signatures).signatures ↔ entry ∈ old.signatures ∨ entry ∈ signatures := by
  unfold extend
  by_cases same : signatures = old.signatures
  · simp [same]
  · simp [same]

/-- The files an operation on a name can touch. -/
def footprint (name : FileName) : List FileName :=
  [stateFile name, newStateFile name, tmpFile (stateFile name), tmpFile (newStateFile name)]

/-- All files outside the footprint of a name are as before. -/
def KeepsOthers (name : FileName) (before after : Files Content) : Prop :=
  ∀ file, file ∉ footprint name → after.lookup file = before.lookup file

/-- An answer that reports no progress. -/
def Answer.Idle : Answer → Prop
  | .upload (.ok (.accepted _)) => False
  | .resumed (.ok _) => False
  | .removed (.ok _) => False
  | _ => True

/-- An abort or a commit answers the same whatever it does. -/
def Op.finishes : Op → Bool
  | dirAborted _ _ => true
  | dirCommitted _ _ => true
  | _ => false

/-- What asks for something finishes nothing. -/
theorem Op.finishes_of_demand {op : Op} {demand : Demand} (asked : op.demand = some demand) :
    op.finishes = false := by
  cases op <;> first | rfl | simp [Op.demand] at asked

/-- All an operation can do to the record of its path. -/
inductive Change (env : Env) (before : Record) : Op → Answer → Record → Prop where
  | kept {op : Op} {answer : Answer} (idle : answer.Idle)
      (nothing : op.finishes = true → before.writing = none) : Change env before op answer before
  | begun {op : Op} {demand : Demand} {replacing : Bool} (asked : op.demand = some demand)
      (admitted : demand.Admitted env) (vacant : before.writing = none)
      (free : before.state = none ∨ ∃ state, before.state = some (.state state) ∧
        state.image ≠ demand.image ∧ demand.Replaces state.image) :
      Change env before op (accepted .new)
        { before with
          writing := some ⟨demand.image, sortSignatures demand.entries, replacing⟩
          newState := some (.state demand.state) }
  | extended {op : Op} {demand : Demand} {old : Writing} (asked : op.demand = some demand)
      (admitted : demand.Admitted env) (writing : before.writing = some old)
      (same : old.image = demand.image) :
      Change env before op (accepted .inProgress)
        { before with
          writing := some (old.extend (sortSignatures demand.entries))
          newState := some (.state (old.extend (sortSignatures demand.entries)).toState) }
  | merged {op : Op} {demand : Demand} {state : State} (asked : op.demand = some demand)
      (admitted : demand.Admitted env) (vacant : before.writing = none)
      (committed : before.state = some (.state state)) (same : state.image = demand.image) :
      Change env before op (accepted .alreadyDone)
        { before with
          state := some (.state { state with
            signatures := appendSignatures state.signatures (sortSignatures demand.entries) }) }
  /-- The entry is put in, and then its file cannot be written. -/
  | unsaved {op : Op} {demand : Demand} {error : Error} {writing : Writing}
      (asked : op.demand = some demand) (admitted : demand.Admitted env) (faulty : op.io.Faulty)
      (image : writing.image = demand.image)
      (signed : ∀ entry ∈ demand.entries, entry ∈ writing.signatures)
      (steady : ∀ old, before.writing = some old → old.image = demand.image)
      (within : ∀ entry ∈ writing.signatures, entry ∈ demand.entries ∨
        ∃ old, before.writing = some old ∧ entry ∈ old.signatures)
      (keeps : ∀ old, before.writing = some old → ∀ entry ∈ old.signatures,
        entry ∈ writing.signatures) :
      Change env before op (.upload (.error error)) { before with writing := some writing }
  | resumed {io : Io} {vpath : VPath} {state : State} (vacant : before.writing = none)
      (committed : before.state = some (.state state)) :
      Change env before (.resumeUpload io vpath) (.resumed (.ok state.image))
        ⟨some ⟨state.image, state.signatures, false⟩, none, some (.state state)⟩
  | resumedNew {io : Io} {vpath : VPath} {state : State} (vacant : before.writing = none)
      (missing : before.state = none) (written : before.newState = some (.state state)) :
      Change env before (.resumeUpload io vpath) (.resumed (.ok state.image))
        { before with writing := some ⟨state.image, state.signatures, false⟩ }
  | aborted {io : Io} {vpath : VPath} {old : Writing} (writing : before.writing = some old) :
      Change env before (.dirAborted io vpath) .finished
        { before with writing := none, newState := none }
  | committed {io : Io} {vpath : VPath} {old : Writing} {content : Content}
      (writing : before.writing = some old) (written : before.newState = some content) :
      Change env before (.dirCommitted io vpath) .finished ⟨none, some content, none⟩
  /-- The entry is taken out, and then its file stays where it is. -/
  | unfinished {op : Op} {old : Writing} (writing : before.writing = some old)
      (failed : op.io.Faulty ∨ before.newState = none) (finishes : op.finishes = true) :
      Change env before op .finished { before with writing := none }
  | removed {io : Io} {vpath : VPath} {time modified : Nat} (vacant : before.writing = none)
      (present : before.state ≠ none) :
      Change env before (.removeStateFile io vpath time modified) (.removed (.ok ()))
        { before with state := none }

section Locked

variable {env : Env} {name : FileName} {files : Files Content} {op : Op} {demand : Demand}

/-- Replacing a state file keeps other files. -/
theorem KeepsOthers.replaceFile {io : Io} {target : FileName} {state : State}
    (inside : target = stateFile name ∨ target = newStateFile name) :
    KeepsOthers name files (replaceFile io files target state).2 := by
  intro file outside
  simp only [footprint, List.mem_cons, List.not_mem_nil, or_false, not_or] at outside
  obtain ⟨notState, notNew, notTmpState, notTmpNew⟩ := outside
  rcases inside with rfl | rfl
  · exact lookup_replaceFile notState notTmpState
  · exact lookup_replaceFile notNew notTmpNew

/-- Writing `x.new.state` keeps `x.state`, and the file ends up with the entry
unless a call fails. -/
theorem storeNewState_cases (io : Io) (name : FileName) (writing : Writing) (accept : Accept)
    (files : Files Content) :
    (storeNewState io name writing accept files).1 = .ok (.accepted accept) ∧
        recordOf name (storeNewState io name writing accept files).2.1
          (storeNewState io name writing accept files).2.2 =
        ⟨some writing, files.lookup (stateFile name), some (.state writing.toState)⟩ ∨
      (∃ error, (storeNewState io name writing accept files).1 = .error error) ∧ io.Faulty ∧
        recordOf name (storeNewState io name writing accept files).2.1
          (storeNewState io name writing accept files).2.2 =
        ⟨some writing, files.lookup (stateFile name), files.lookup (newStateFile name)⟩ := by
  have kept : (replaceFile io files (newStateFile name) writing.toState).2.lookup (stateFile name) =
      files.lookup (stateFile name) :=
    lookup_replaceFile (stateFile_ne_newStateFile name)
      (tmpFile_newStateFile_ne_stateFile name).symm
  obtain ⟨stored, written⟩ | ⟨⟨error, failed⟩, faulty, unchanged⟩ :=
    replaceFile_cases io files (newStateFile name) writing.toState
  · left
    unfold storeNewState
    split
    · simp_all
    · simp_all [recordOf]
  · right
    unfold storeNewState
    split
    · simp_all [recordOf, Io.Faulty]
    · simp_all

/-- Storing a new state keeps other files. -/
theorem KeepsOthers.storeNewState {io : Io} {writing : Writing} {accept : Accept} :
    KeepsOthers name files (storeNewState io name writing accept files).2.2 := by
  have kept : KeepsOthers name files
      (Metadata.replaceFile io files (newStateFile name) writing.toState).2 :=
    KeepsOthers.replaceFile (Or.inr rfl)
  unfold Metadata.storeNewState
  split <;> simp_all

/-- A new upload begins, or its entry is left without a file. -/
theorem storeNewState_begun (asked : op.demand = some demand) (admitted : demand.Admitted env)
    (free : files.lookup (stateFile name) = none ∨ ∃ state,
      files.lookup (stateFile name) = some (.state state) ∧ state.image ≠ demand.image ∧
        demand.Replaces state.image) (replacing : Bool) :
    let result := storeNewState op.io name ⟨demand.image, sortSignatures demand.entries, replacing⟩
      .new files
    Change env (recordOf name none files) op (.upload result.1)
      (recordOf name result.2.1 result.2.2) := by
  dsimp only
  obtain ⟨stored, record⟩ | ⟨⟨error, failed⟩, faulty, record⟩ := storeNewState_cases op.io name
    ⟨demand.image, sortSignatures demand.entries, replacing⟩ .new files
  · rw [stored, record]
    exact Change.begun asked admitted rfl free
  · rw [failed, record]
    exact Change.unsaved asked admitted faulty rfl
      (fun entry member => mem_sortSignatures.mpr member) nofun
      (fun entry member => Or.inl (mem_sortSignatures.mp member)) nofun

/-- The signatures are added to the entry, and to its file unless a call fails. -/
theorem mergeWriting_extended (asked : op.demand = some demand) (admitted : demand.Admitted env)
    {old : Writing} (same : old.image = demand.image) :
    let result := mergeWriting op.io name old (sortSignatures demand.entries) files
    Change env (recordOf name (some old) files) op (.upload result.1)
      (recordOf name result.2.1 result.2.2) := by
  have merged : mergeWriting op.io name old (sortSignatures demand.entries) files =
      storeNewState op.io name (old.extend (sortSignatures demand.entries)) .inProgress files := rfl
  dsimp only
  rw [merged]
  obtain ⟨stored, record⟩ | ⟨⟨error, failed⟩, faulty, record⟩ := storeNewState_cases op.io name
    (old.extend (sortSignatures demand.entries)) .inProgress files
  · rw [stored, record]
    exact Change.extended asked admitted rfl same
  · rw [failed, record]
    refine Change.unsaved asked admitted faulty same (fun entry member => ?_) ?_
      (fun entry member => ?_) ?_
    · exact Writing.mem_extend.mpr (Or.inr (mem_sortSignatures.mpr member))
    · rintro _ ⟨⟩
      exact same
    · rcases Writing.mem_extend.mp member with known | added
      · exact Or.inr ⟨old, rfl, known⟩
      · exact Or.inl (mem_sortSignatures.mp added)
    · rintro _ ⟨⟩ entry member
      exact Writing.mem_extend.mpr (Or.inl member)

/-- Merging into `x.state` keeps `x.new.state`, and changes nothing when a call
fails. -/
theorem mergeState_cases (io : Io) (name : FileName) (state : State)
    (signatures : List SignatureEntry) (files : Files Content) :
    (mergeState io name state signatures files).1 = .ok (.accepted .alreadyDone) ∧
        recordOf name (mergeState io name state signatures files).2.1
          (mergeState io name state signatures files).2.2 =
        ⟨none, some (.state { state with signatures := appendSignatures state.signatures signatures }),
          files.lookup (newStateFile name)⟩ ∨
      (∃ error, (mergeState io name state signatures files).1 = .error error) ∧
        recordOf name (mergeState io name state signatures files).2.1
          (mergeState io name state signatures files).2.2 = recordOf name none files := by
  have kept : (replaceFile io files (stateFile name)
      { state with signatures := appendSignatures state.signatures signatures }).2.lookup
        (newStateFile name) = files.lookup (newStateFile name) :=
    lookup_replaceFile (stateFile_ne_newStateFile name).symm
      (tmpFile_stateFile_ne_newStateFile name).symm
  obtain ⟨stored, written⟩ | ⟨⟨error, failed⟩, _, unchanged⟩ :=
    replaceFile_cases io files (stateFile name)
      { state with signatures := appendSignatures state.signatures signatures }
  · left
    unfold mergeState
    dsimp only
    split
    · simp_all
    · simp_all [recordOf]
  · right
    unfold mergeState
    dsimp only
    split
    · simp_all [recordOf]
    · simp_all

/-- The signatures are added to the committed state. -/
theorem mergeState_merged (asked : op.demand = some demand) (admitted : demand.Admitted env)
    {state : State} (committed : files.lookup (stateFile name) = some (.state state))
    (same : state.image = demand.image) :
    let result := mergeState op.io name state (sortSignatures demand.entries) files
    Change env (recordOf name none files) op (.upload result.1)
      (recordOf name result.2.1 result.2.2) := by
  dsimp only
  obtain ⟨stored, record⟩ | ⟨⟨error, failed⟩, record⟩ :=
    mergeState_cases op.io name state (sortSignatures demand.entries) files
  · rw [stored, record]
    exact Change.merged asked admitted rfl committed same
  · rw [failed, record]
    exact Change.kept trivial fun finishes => by simp [Op.finishes_of_demand asked] at finishes

/-- Adding signatures to a state keeps other files. -/
theorem KeepsOthers.mergeState {io : Io} {state : State} {signatures : List SignatureEntry} :
    KeepsOthers name files (mergeState io name state signatures files).2.2 := by
  have kept (merged : State) :
      KeepsOthers name files (Metadata.replaceFile io files (stateFile name) merged).2 :=
    KeepsOthers.replaceFile (Or.inl rfl)
  have keptMerged := kept { state with signatures := appendSignatures state.signatures signatures }
  unfold Metadata.mergeState
  dsimp only
  split <;> simp_all

theorem KeepsOthers.refl (name : FileName) (files : Files Content) : KeepsOthers name files files :=
  fun _ _ => rfl

/-- What `start_append` does under the lock. -/
theorem appendLocked_change {io : Io} {keys : KeyFiles} {params : AppendDir}
    (admitted : (Demand.ofAppend keys params).Admitted env) (entry : Option Writing) :
    let result := appendLocked io name params.image (sortSignatures params.entries) entry files
    Change env (recordOf name entry files) (.startAppend io keys params) (.upload result.1)
        (recordOf name result.2.1 result.2.2) ∧
      KeepsOthers name files result.2.2 := by
  have asked : (Op.startAppend io keys params).demand = some (.ofAppend keys params) := rfl
  unfold appendLocked
  cases entry with
  | none =>
      dsimp only
      split
      · exact ⟨Change.kept trivial nofun, KeepsOthers.refl _ _⟩
      · rename_i state read
        have committed := readFile_eq_some read
        split
        · rename_i same
          exact ⟨mergeState_merged asked admitted committed same, KeepsOthers.mergeState⟩
        · exact ⟨Change.kept trivial nofun, KeepsOthers.refl _ _⟩
      · rename_i read
        have missing := readFile_eq_none read
        exact ⟨storeNewState_begun asked admitted (Or.inl missing) false, KeepsOthers.storeNewState⟩
  | some old =>
      dsimp only
      split
      · rename_i same
        exact ⟨mergeWriting_extended asked admitted same, KeepsOthers.storeNewState⟩
      · exact ⟨Change.kept trivial nofun, KeepsOthers.refl _ _⟩

/-- What `start_replace` does under the lock. -/
theorem replaceLocked_change {io : Io} {keys : KeyFiles} {params : ReplaceDir}
    (admitted : (Demand.ofReplace keys params).Admitted env) (entry : Option Writing) :
    let result := replaceLocked io name params.image params.oldImage (sortSignatures params.entries)
      entry files
    Change env (recordOf name entry files) (.startReplace io keys params) (.upload result.1)
        (recordOf name result.2.1 result.2.2) ∧
      KeepsOthers name files result.2.2 := by
  have asked : (Op.startReplace io keys params).demand = some (.ofReplace keys params) := rfl
  unfold replaceLocked
  cases entry with
  | none =>
      dsimp only
      split
      · exact ⟨Change.kept trivial nofun, KeepsOthers.refl _ _⟩
      · rename_i state read
        have committed := readFile_eq_some read
        split
        · rename_i same
          exact ⟨mergeState_merged asked admitted committed same, KeepsOthers.mergeState⟩
        · rename_i different
          split
          · exact ⟨Change.kept trivial nofun, KeepsOthers.refl _ _⟩
          · rename_i matching
            have replaces : (Demand.ofReplace keys params).Replaces state.image := by
              unfold Demand.Replaces
              cases old : params.oldImage with
              | none => exact Or.inl (congrArg some old)
              | some image =>
                  rw [old] at matching
                  have equal : some image = some state.image := by simpa using matching
                  exact Or.inr (congrArg some (old.trans equal))
            exact ⟨storeNewState_begun asked admitted
              (Or.inr ⟨state, committed, different, replaces⟩) true, KeepsOthers.storeNewState⟩
      · rename_i read
        have missing := readFile_eq_none read
        exact ⟨storeNewState_begun asked admitted (Or.inl missing) false, KeepsOthers.storeNewState⟩
  | some old =>
      dsimp only
      split
      · rename_i same
        exact ⟨mergeWriting_extended asked admitted same, KeepsOthers.storeNewState⟩
      · split
        · exact ⟨Change.kept trivial nofun, KeepsOthers.refl _ _⟩
        · exact ⟨Change.kept trivial nofun, KeepsOthers.refl _ _⟩

/-- A rejected replacement names the image that is in the way. -/
theorem replaceLocked_rejected {io : Io} {image : ImageId} {oldImage : Option ImageId}
    {signatures : List SignatureEntry} {entry : Option Writing} {reason : String} {other : ImageId}
    (rejected : (replaceLocked io name image oldImage signatures entry files).1 =
      .ok (.rejected reason (some other))) :
    (∃ writing, entry = some writing ∧ writing.image = other ∧ other ≠ image) ∨
      ∃ state, files.lookup (stateFile name) = some (.state state) ∧ state.image = other := by
  have stored {writing : Writing} {accept : Accept} {after : Files Content} :
      (storeNewState io name writing accept after).1 ≠ .ok (.rejected reason (some other)) := by
    obtain ⟨saved, _⟩ | ⟨⟨error, failed⟩, _⟩ := storeNewState_cases io name writing accept after
    · rw [saved]
      simp
    · rw [failed]
      simp
  unfold replaceLocked at rejected
  cases entry with
  | none =>
      dsimp only at rejected
      split at rejected
      · simp at rejected
      · rename_i state read
        split at rejected
        · obtain ⟨merged, _⟩ | ⟨⟨error, failed⟩, _⟩ := mergeState_cases io name state signatures files
          · simp [merged] at rejected
          · simp [failed] at rejected
        · split at rejected
          · refine Or.inr ⟨state, readFile_eq_some read, ?_⟩
            simp only [Except.ok.injEq, Upload.rejected.injEq, Option.some.injEq] at rejected
            exact rejected.2
          · exact absurd rejected stored
      · exact absurd rejected stored
  | some old =>
      dsimp only at rejected
      split at rejected
      · exact absurd rejected stored
      · rename_i different
        refine Or.inl ⟨old, rfl, ?_⟩
        have same : old.image = other := by
          split at rejected
          all_goals
            simp only [Except.ok.injEq, Upload.rejected.injEq, Option.some.injEq] at rejected
            exact rejected.2
        exact ⟨same, same ▸ different⟩

/-- What `resume_upload` does under the lock. -/
theorem resumeLocked_change {io : Io} {vpath : VPath} (entry : Option Writing) :
    let result := resumeLocked io vpath name entry files
    Change env (recordOf name entry files) (.resumeUpload io vpath) (.resumed result.1)
        (recordOf name result.2.1 result.2.2) ∧
      KeepsOthers name files result.2.2 := by
  unfold resumeLocked
  cases entry with
  | none =>
      dsimp only
      split
      · exact ⟨Change.kept trivial nofun, KeepsOthers.refl _ _⟩
      · rename_i state read
        have committed := readFile_eq_some read
        obtain ⟨content, found, renamed⟩ | ⟨_, failed⟩ :=
          renameFile_cases io files (stateFile name) (newStateFile name)
        · obtain rfl : content = .state state := Option.some.inj (found.symm.trans committed)
          rw [renamed]
          constructor
          · have record : recordOf name (some ⟨state.image, state.signatures, false⟩)
                ((files.erase (stateFile name)).insert (newStateFile name) (.state state)) =
                ⟨some ⟨state.image, state.signatures, false⟩, none, some (.state state)⟩ := by
              simp [recordOf, stateFile_ne_newStateFile]
            dsimp only
            rw [record]
            exact Change.resumed rfl committed
          · intro file outside
            simp only [footprint, List.mem_cons, not_or] at outside
            show ((files.erase (stateFile name)).insert (newStateFile name) _).lookup file = _
            rw [Map.lookup_insert_eq, if_neg outside.2.1, Map.lookup_erase_eq, if_neg outside.1]
        · rw [failed]
          exact ⟨Change.kept trivial nofun, KeepsOthers.refl _ _⟩
      · rename_i read
        have missing := readFile_eq_none read
        split
        · exact ⟨Change.kept trivial nofun, KeepsOthers.refl _ _⟩
        · rename_i state readNew
          exact ⟨Change.resumedNew rfl missing (readFile_eq_some readNew), KeepsOthers.refl _ _⟩
        · exact ⟨Change.kept trivial nofun, KeepsOthers.refl _ _⟩
  | some old => exact ⟨Change.kept trivial nofun, KeepsOthers.refl _ _⟩

end Locked

/-- Everything away from a spot is as before. -/
structure Frame (spot : Spot) (before after : Meta) : Prop where
  writing : ∀ place, place ≠ spot.place → after.writing.lookup place = before.writing.lookup place
  files : ∀ dir file, dir ≠ spot.dir ∨ file ∉ footprint spot.name →
    (after.signatures.files dir).lookup file = (before.signatures.files dir).lookup file
  dirs : ∀ dir ∈ before.signatures.dirs, dir ∈ after.signatures.dirs
  collecting : after.collecting = before.collecting
  indexes : after.indexes = before.indexes

/-- Nothing has changed. -/
theorem Frame.refl (spot : Spot) (store : Meta) : Frame spot store store :=
  ⟨fun _ _ => rfl, fun _ _ _ => rfl, fun _ present => present, rfl, rfl⟩

section Located

variable {env : Env} {io : Io} {store : Meta} {vpath : VPath} {spot : Spot}

private theorem checkComponents_names {path : Path} {names : List FileName}
    (components : path.components = names.map .normal) : checkComponents path = .ok names := by
  unfold checkComponents
  rw [components]
  clear components
  induction names with
  | nil => rfl
  | cons first rest ih =>
      rw [List.map_cons, List.mapM_cons, ih]
      rfl

private theorem leadingNames_names {path : Path} {names : List FileName}
    (components : path.components = names.map .normal) : leadingNames path = names := by
  unfold leadingNames
  rw [components]
  clear components
  induction names with
  | nil => rfl
  | cons first rest ih =>
      rw [List.map_cons, List.takeWhile_cons_of_pos rfl]
      exact congrArg (first :: ·) ih

/-- The calls that open the directory above a path work. -/
def Io.OpensParent (io : Io) : Prop := io.fails .signatures = false ∧ io.fails .ensureDir = false

/-- The parent of a path at a spot is there, or a call has failed. -/
theorem ensureParent_eq (io : Io) (store : Meta) (located : vpath.place = spot.place) :
    (¬ io.OpensParent ∧ store.ensureParent io vpath = .ok (.error .createDir, store)) ∨
      io.OpensParent ∧ store.ensureParent io vpath =
        .ok (.ok spot.dir, { store with signatures := store.signatures.ensureDir spot.dir }) := by
  obtain ⟨path, parentRel, components⟩ := VPath.parentRel_at located
  unfold Io.OpensParent
  cases root : io.fails .signatures with
  | true => exact Or.inl ⟨by simp, by simp [Meta.ensureParent, root]; rfl⟩
  | false =>
      cases create : io.fails .ensureDir with
      | true => exact Or.inl ⟨by simp, by simp [Meta.ensureParent, root, parentRel, create]⟩
      | false =>
          refine Or.inr ⟨⟨rfl, rfl⟩, ?_⟩
          simp [Meta.ensureParent, root, parentRel, create, checkComponents_names components,
            leadingNames_names components]

/-- The directory above a spot is opened, unless a call fails. -/
theorem ensureParent_at (io : Io) (store : Meta) (located : vpath.place = spot.place) :
    (io.Faulty ∧ store.ensureParent io vpath = .ok (.error .createDir, store)) ∨
      store.ensureParent io vpath =
        .ok (.ok spot.dir, { store with signatures := store.signatures.ensureDir spot.dir }) := by
  obtain ⟨closed, failed⟩ | ⟨_, opened⟩ := ensureParent_eq io store located
  · refine Or.inl ⟨?_, failed⟩
    rw [Io.OpensParent, not_and_or, Bool.not_eq_false, Bool.not_eq_false] at closed
    rcases closed with root | create
    · exact ⟨_, root⟩
    · exact ⟨_, create⟩
  · exact Or.inr opened

/-- Setting the files of the directory of a spot and its entry. -/
theorem record_putBack (entry : Option Writing) (files : Files Content) :
    (store.putBack spot.place spot.dir entry files).record spot = recordOf spot.name entry files := by
  unfold Meta.record Meta.putBack
  rw [Tree.files_setFiles_self]
  cases entry with
  | none => simp
  | some writing => simp

/-- Files of the spot may change. -/
theorem Frame.setFiles {files : Files Content}
    (others : KeepsOthers spot.name (store.signatures.files spot.dir) files) :
    Frame spot store { store with signatures := store.signatures.setFiles spot.dir files } where
  writing _ _ := rfl
  files dir file outside := by
    rw [Tree.files_setFiles]
    split
    · rename_i same
      subst same
      exact others file (outside.resolve_left (fun different => different rfl))
    · rfl
  dirs dir present := (Tree.mem_setFiles _ _ _ _).mpr (Or.inl present)
  collecting := rfl
  indexes := rfl

/-- An entry and files of the spot may change. -/
theorem Frame.putBack {entry : Option Writing} {files : Files Content}
    (others : KeepsOthers spot.name (store.signatures.files spot.dir) files) :
    Frame spot store (store.putBack spot.place spot.dir entry files) where
  writing place different := by
    cases entry with
    | none => simp [Meta.putBack, different]
    | some writing => simp [Meta.putBack, different]
  files := (Frame.setFiles others).files
  dirs dir present := (Tree.mem_setFiles _ _ _ _).mpr (Or.inl present)
  collecting := rfl
  indexes := rfl

/-- A directory may be made. -/
theorem Frame.ensureDir {after : Meta}
    (frame : Frame spot { store with signatures := store.signatures.ensureDir spot.dir } after) :
    Frame spot store after where
  writing := frame.writing
  files dir file outside := by simpa using frame.files dir file outside
  dirs dir present := frame.dirs dir ((Tree.mem_ensureDir _ _ _).mpr (Or.inl present))
  collecting := frame.collecting
  indexes := frame.indexes

/-- The part under the lock decides what happens at the spot, unless the directory
cannot be opened. -/
theorem underLock_at {Answer : Type} (located : vpath.place = spot.place)
    {locked : FileName → Option Writing → Files Content → Locked Answer}
    {result : Except Error Answer × Meta} (ran : underLock io store vpath locked = .ok result)
    (others : ∀ entry files, KeepsOthers spot.name files (locked spot.name entry files).2.2) :
    Frame spot store result.2 ∧
      ((io.Faulty ∧ result = (.error .createDir, store)) ∨
        result.1 = (locked spot.name (store.writing.lookup spot.place)
          (store.signatures.files spot.dir)).1 ∧
        result.2.record spot = recordOf spot.name
          (locked spot.name (store.writing.lookup spot.place) (store.signatures.files spot.dir)).2.1
          (locked spot.name (store.writing.lookup spot.place)
            (store.signatures.files spot.dir)).2.2) := by
  unfold underLock at ran
  obtain ⟨faulty, failed⟩ | opened := ensureParent_at io store located
  · rw [failed] at ran
    obtain rfl : _ = result := Except.ok.inj ran
    exact ⟨Frame.refl _ _, Or.inl ⟨faulty, rfl⟩⟩
  · rw [opened] at ran
    have sameEntry : store.writing.lookup vpath.place = store.writing.lookup spot.place := by
      rw [located]
    simp only [Run.ok_bind, VPath.finalName_at located, sameEntry, Tree.files_ensureDir] at ran
    rw [located] at ran
    obtain rfl : _ = result := Except.ok.inj ran
    refine ⟨Frame.ensureDir (Frame.putBack ?_), Or.inr ⟨rfl, record_putBack _ _⟩⟩
    simpa using others _ _

/-- The same for a change of files after the entry has been taken out. -/
theorem changeFiles_at (located : vpath.place = spot.place)
    {change : FileName → Files Content → Except Error Unit × Files Content}
    {result : Except Error Unit × Meta} (ran : changeFiles io vpath store change = .ok result)
    (others : KeepsOthers spot.name (store.signatures.files spot.dir)
      (change spot.name (store.signatures.files spot.dir)).2) :
    Frame spot store result.2 ∧ result.2.writing = store.writing ∧
      ((io.Faulty ∧ result.2 = store) ∨
        result.2.signatures.files spot.dir =
          (change spot.name (store.signatures.files spot.dir)).2) := by
  unfold changeFiles at ran
  rw [VPath.finalName_at located, Run.ok_bind] at ran
  obtain ⟨faulty, failed⟩ | opened := ensureParent_at io store located
  · rw [failed] at ran
    obtain rfl : _ = result := Except.ok.inj ran
    exact ⟨Frame.refl _ _, rfl, Or.inl ⟨faulty, rfl⟩⟩
  · rw [opened] at ran
    simp only [Run.ok_bind, Tree.files_ensureDir] at ran
    obtain rfl : _ = result := Except.ok.inj ran
    refine ⟨Frame.ensureDir (Frame.setFiles ?_), rfl, Or.inr (Tree.files_setFiles_self _ _ _)⟩
    simpa using others

/-- What `start_append` does at its spot once its image has been marked. -/
theorem startAppendMarked_at {keys : KeyFiles} {params : AppendDir}
    (located : params.path.place = spot.place) {result : Except Error Upload × Meta}
    (ran : startAppendMarked env io keys params store = .ok result) :
    Frame spot store result.2 ∧
      Change env (store.record spot) (.startAppend io keys params) (.upload result.1)
        (result.2.record spot) := by
  have unchanged {answer : Except Error Upload} (same : (answer, store) = result)
      (idle : (Answer.upload answer).Idle) :
      Frame spot store result.2 ∧
        Change env (store.record spot) (.startAppend io keys params) (.upload result.1)
          (result.2.record spot) := by
    subst same
    exact ⟨Frame.refl _ _, Change.kept idle nofun⟩
  unfold startAppendMarked at ran
  split at ran
  · exact unchanged (Except.ok.inj ran) trivial
  · rename_i directory configured
    split at ran
    · exact unchanged (Except.ok.inj ran) trivial
    · rename_i depth
      split at ran
      · exact unchanged (Except.ok.inj ran) trivial
      · exact unchanged (Except.ok.inj ran) trivial
      · rename_i passed
        have admitted : (Demand.ofAppend keys params).Admitted env :=
          ⟨directory, configured, not_not.mp depth, fun replaces => absurd rfl replaces, passed⟩
        obtain ⟨frame, ⟨_, rfl⟩ | ⟨answer, record⟩⟩ := underLock_at located ran
          fun entry files => (appendLocked_change admitted entry).2
        · exact ⟨frame, Change.kept trivial nofun⟩
        · refine ⟨frame, ?_⟩
          rw [answer, record]
          exact (appendLocked_change admitted _).1

/-- What a rejected `start_replace` says: the request was admitted, and another image
is being written at the spot or an image is committed there. -/
theorem startReplaceMarked_rejected {keys : KeyFiles} {params : ReplaceDir}
    (located : params.path.place = spot.place) {reason : String} {other : ImageId} {after : Meta}
    (ran : startReplaceMarked env io keys params store =
      .ok (.ok (.rejected reason (some other)), after)) :
    (Demand.ofReplace keys params).Admitted env ∧
      ((∃ writing, (store.record spot).writing = some writing ∧ writing.image = other ∧
          other ≠ params.image) ∨
        ∃ state, (store.record spot).state = some (.state state) ∧ state.image = other) := by
  unfold startReplaceMarked at ran
  split at ran
  · simp at ran
  · rename_i directory configured
    split at ran
    · simp at ran
    · rename_i depth
      split at ran
      · simp at ran
      · rename_i replaceable
        split at ran
        · simp at ran
        · simp at ran
        · rename_i passed
          have admitted : (Demand.ofReplace keys params).Admitted env :=
            ⟨directory, configured, not_not.mp depth, fun _ => by simpa using replaceable, passed⟩
          obtain ⟨_, ⟨_, failed⟩ | ⟨answer, _⟩⟩ := underLock_at located ran
            fun entry files => (replaceLocked_change admitted entry).2
          · simp at failed
          · exact ⟨admitted, replaceLocked_rejected answer.symm⟩

/-- What `start_replace` does at its spot once its image has been marked. -/
theorem startReplaceMarked_at {keys : KeyFiles} {params : ReplaceDir}
    (located : params.path.place = spot.place) {result : Except Error Upload × Meta}
    (ran : startReplaceMarked env io keys params store = .ok result) :
    Frame spot store result.2 ∧
      Change env (store.record spot) (.startReplace io keys params) (.upload result.1)
        (result.2.record spot) := by
  have unchanged {answer : Except Error Upload} (same : (answer, store) = result)
      (idle : (Answer.upload answer).Idle) :
      Frame spot store result.2 ∧
        Change env (store.record spot) (.startReplace io keys params) (.upload result.1)
          (result.2.record spot) := by
    subst same
    exact ⟨Frame.refl _ _, Change.kept idle nofun⟩
  unfold startReplaceMarked at ran
  split at ran
  · exact unchanged (Except.ok.inj ran) trivial
  · rename_i directory configured
    split at ran
    · exact unchanged (Except.ok.inj ran) trivial
    · rename_i depth
      split at ran
      · exact unchanged (Except.ok.inj ran) trivial
      · rename_i replaceable
        split at ran
        · exact unchanged (Except.ok.inj ran) trivial
        · exact unchanged (Except.ok.inj ran) trivial
        · rename_i passed
          have admitted : (Demand.ofReplace keys params).Admitted env :=
            ⟨directory, configured, not_not.mp depth, fun _ => by simpa using replaceable, passed⟩
          obtain ⟨frame, ⟨_, rfl⟩ | ⟨answer, record⟩⟩ := underLock_at located ran
            fun entry files => (replaceLocked_change admitted entry).2
          · exact ⟨frame, Change.kept trivial nofun⟩
          · refine ⟨frame, ?_⟩
            rw [answer, record]
            exact (replaceLocked_change admitted _).1

/-- What `resume_upload` does at a spot. -/
theorem resumeUpload_at (located : vpath.place = spot.place)
    {result : Except Error ImageId × Meta} (ran : resumeUpload env io vpath store = .ok result) :
    Frame spot store result.2 ∧
      Change env (store.record spot) (.resumeUpload io vpath) (.resumed result.1)
        (result.2.record spot) := by
  unfold resumeUpload at ran
  split at ran
  · obtain rfl := Except.ok.inj ran
    exact ⟨Frame.refl _ _, Change.kept trivial nofun⟩
  · split at ran
    · obtain rfl := Except.ok.inj ran
      exact ⟨Frame.refl _ _, Change.kept trivial nofun⟩
    · obtain ⟨frame, ⟨_, rfl⟩ | ⟨answer, record⟩⟩ := underLock_at located ran
        fun entry files => (resumeLocked_change entry : Change env _ _ _ _ ∧ _).2
      · exact ⟨frame, Change.kept trivial nofun⟩
      · refine ⟨frame, ?_⟩
        rw [answer, record]
        exact (resumeLocked_change _).1

/-- Taking the entry of a spot out of `writing`. -/
theorem Frame.eraseEntry (spot : Spot) (store : Meta) :
    Frame spot store { store with writing := store.writing.erase spot.place } where
  writing place different := by simp [different]
  files _ _ _ := rfl
  dirs _ present := present
  collecting := rfl
  indexes := rfl

/-- One frame after another. -/
theorem Frame.trans {first second third : Meta} (front : Frame spot first second)
    (back : Frame spot second third) : Frame spot first third where
  writing place different := (back.writing place different).trans (front.writing place different)
  files dir file outside := (back.files dir file outside).trans (front.files dir file outside)
  dirs dir present := back.dirs dir (front.dirs dir present)
  collecting := back.collecting.trans front.collecting
  indexes := back.indexes.trans front.indexes

/-- An upload is finished only when there is one: its entry is gone afterwards and
the files are changed, unless the directory cannot be opened. -/
theorem finish_at (located : vpath.place = spot.place)
    {change : FileName → Files Content → Except Error Unit × Files Content} {after : Meta}
    (ran : store.finish vpath (fun store => changeFiles io vpath store change) = .ok after)
    (others : KeepsOthers spot.name (store.signatures.files spot.dir)
      (change spot.name (store.signatures.files spot.dir)).2) :
    Frame spot store after ∧
      ((store.writing.lookup spot.place = none ∧ after = store) ∨
        ∃ old, store.writing.lookup spot.place = some old ∧
          ((io.Faulty ∧ after.record spot = { store.record spot with writing := none }) ∨
            after.record spot = recordOf spot.name none
              (change spot.name (store.signatures.files spot.dir)).2)) := by
  unfold Meta.finish at ran
  rw [located] at ran
  cases entry : store.writing.lookup spot.place with
  | none =>
      rw [entry] at ran
      obtain rfl := Except.ok.inj ran
      exact ⟨Frame.refl _ _, Or.inl ⟨rfl, rfl⟩⟩
  | some old =>
      rw [entry] at ran
      obtain ⟨result, changed, done⟩ := Run.bind_eq_ok_iff.mp ran
      obtain rfl := Except.ok.inj done
      obtain ⟨frame, writing, ⟨faulty, same⟩ | files⟩ := changeFiles_at located changed others
      · refine ⟨(Frame.eraseEntry spot store).trans frame, Or.inr ⟨old, rfl, Or.inl ⟨faulty, ?_⟩⟩⟩
        simp [same, Meta.record, recordOf]
      · refine ⟨(Frame.eraseEntry spot store).trans frame, Or.inr ⟨old, rfl, Or.inr ?_⟩⟩
        simp [Meta.record, writing, files]

/-- What `dir_aborted` does at a spot. -/
theorem dirAborted_at (located : vpath.place = spot.place) {after : Meta}
    (ran : store.dirAborted io vpath = .ok after) :
    Frame spot store after ∧
      Change env (store.record spot) (.dirAborted io vpath) .finished (after.record spot) := by
  have others (files : Files Content) :
      KeepsOthers spot.name files (removeFile io files (newStateFile spot.name)).2 := by
    intro file outside
    simp only [footprint, List.mem_cons, not_or] at outside
    exact lookup_removeFile outside.2.1
  obtain ⟨frame, ⟨vacant, rfl⟩ | ⟨old, entry, ⟨faulty, record⟩ | record⟩⟩ :=
    finish_at located ran (others _)
  · exact ⟨frame, Change.kept trivial fun _ => vacant⟩
  · refine ⟨frame, ?_⟩
    rw [record]
    exact Change.unfinished entry (Or.inl faulty) rfl
  · refine ⟨frame, ?_⟩
    rw [record]
    obtain removed | ⟨faulty, failed⟩ :=
      removeFile_cases io (store.signatures.files spot.dir) (newStateFile spot.name)
    · have gone : recordOf spot.name none (removeFile io (store.signatures.files spot.dir)
          (newStateFile spot.name)).2 = { store.record spot with writing := none, newState := none } := by
        simp [removed, recordOf, Meta.record, stateFile_ne_newStateFile]
      rw [gone]
      exact Change.aborted entry
    · rw [failed]
      exact Change.unfinished entry (Or.inl faulty) rfl

/-- What `dir_committed` does at a spot. -/
theorem dirCommitted_at (located : vpath.place = spot.place) {after : Meta}
    (ran : store.dirCommitted io vpath = .ok after) :
    Frame spot store after ∧
      Change env (store.record spot) (.dirCommitted io vpath) .finished (after.record spot) := by
  have others (files : Files Content) : KeepsOthers spot.name files
      (renameFile io files (newStateFile spot.name) (stateFile spot.name)).2 := by
    intro file outside
    simp only [footprint, List.mem_cons, not_or] at outside
    exact lookup_renameFile outside.2.1 outside.1
  obtain ⟨frame, ⟨vacant, rfl⟩ | ⟨old, entry, ⟨faulty, record⟩ | record⟩⟩ :=
    finish_at located ran (others _)
  · exact ⟨frame, Change.kept trivial fun _ => vacant⟩
  · refine ⟨frame, ?_⟩
    rw [record]
    exact Change.unfinished entry (Or.inl faulty) rfl
  · refine ⟨frame, ?_⟩
    rw [record]
    obtain ⟨content, written, renamed⟩ | ⟨failed, unchanged⟩ := renameFile_cases io
      (store.signatures.files spot.dir) (newStateFile spot.name) (stateFile spot.name)
    · have moved : recordOf spot.name none (renameFile io (store.signatures.files spot.dir)
          (newStateFile spot.name) (stateFile spot.name)).2 = ⟨none, some content, none⟩ := by
        simp [renamed, recordOf, (stateFile_ne_newStateFile spot.name).symm]
      rw [moved]
      exact Change.committed entry written
    · rw [unchanged]
      exact Change.unfinished entry failed rfl

/-- Opening the parent at a spot. -/
theorem openParent_at (io : Io) (store : Meta) (located : vpath.place = spot.place) :
    (∃ error, store.openParent io vpath = .ok (.error error)) ∨
      store.openParent io vpath = .ok (.ok spot.dir) := by
  obtain ⟨path, parentRel, components⟩ := VPath.parentRel_at located
  unfold Meta.openParent
  by_cases root : io.fails .signatures = true
  · exact Or.inl ⟨_, by simp [root]; rfl⟩
  · by_cases opens : io.fails .openDir = true
    · exact Or.inl ⟨_, by simp [root, parentRel, opens]; rfl⟩
    · by_cases present : spot.dir ∈ store.signatures.dirs
      · right
        simp [root, parentRel, opens, checkComponents_names components, present]
        rfl
      · refine Or.inl ⟨.openDir, ?_⟩
        simp [root, parentRel, opens, checkComponents_names components, present]
        rfl

/-- What removing the state file does at a spot. -/
theorem removeStateFile_at (located : vpath.place = spot.place) {time modified : Nat}
    {result : Except Error Unit × Meta}
    (ran : store.removeStateFile io vpath time modified = .ok result) :
    Frame spot store result.2 ∧
      Change env (store.record spot) (.removeStateFile io vpath time modified) (.removed result.1)
        (result.2.record spot) := by
  have unchanged {error : Error} (same : (.error error, store) = result) :
      Frame spot store result.2 ∧
        Change env (store.record spot) (.removeStateFile io vpath time modified)
          (.removed result.1) (result.2.record spot) := by
    subst same
    exact ⟨Frame.refl _ _, Change.kept trivial nofun⟩
  unfold Meta.removeStateFile at ran
  split at ran
  · exact unchanged (Except.ok.inj ran)
  · rename_i vacant
    rw [located, Map.mem_iff_lookup_ne_none, not_not] at vacant
    obtain ⟨error, failed⟩ | opened := openParent_at io store located
    · rw [failed] at ran
      exact unchanged (Except.ok.inj ran)
    · rw [opened] at ran
      simp only [Run.ok_bind, VPath.finalName_at located] at ran
      split at ran
      · exact unchanged (Except.ok.inj ran)
      · split at ran
        · rename_i present
          obtain ⟨fresher, _, checked⟩ := Run.bind_eq_ok_iff.mp ran
          split at checked
          · exact unchanged (Except.ok.inj checked)
          · obtain rfl := Except.ok.inj checked
            have others : KeepsOthers spot.name (store.signatures.files spot.dir)
                (removeFile io (store.signatures.files spot.dir) (stateFile spot.name)).2 := by
              intro file outside
              simp only [footprint, List.mem_cons, not_or] at outside
              exact lookup_removeFile outside.1
            refine ⟨Frame.setFiles others, ?_⟩
            obtain removed | ⟨_, failed⟩ :=
              removeFile_cases io (store.signatures.files spot.dir) (stateFile spot.name)
            · simp only [removed, Meta.record, Tree.files_setFiles_self]
              have gone : recordOf spot.name (store.writing.lookup spot.place)
                  ((store.signatures.files spot.dir).erase (stateFile spot.name)) =
                  { store.record spot with state := none } := by
                simp [recordOf, Meta.record, (stateFile_ne_newStateFile spot.name).symm]
              rw [gone]
              exact Change.removed vacant (Map.mem_iff_lookup_ne_none.mp present)
            · simp only [failed, Meta.record, Tree.files_setFiles_self]
              exact Change.kept trivial nofun
        · exact unchanged (Except.ok.inj ran)

/-- The frame of an operation does not look at marks. -/
theorem Frame.ofMarked {after : Meta} {marks : Option (Finset ImageId)}
    (frame : Frame spot { store with collecting := marks } after) :
    Frame spot { store with collecting := after.collecting } after :=
  ⟨frame.writing, frame.files, frame.dirs, rfl, frame.indexes⟩

/-- An operation on a spot changes the record of the spot as `Change` says and
nothing elsewhere, the marks of used images aside. -/
theorem run_at {op : Op} {answer : Answer} {after : Meta} (located : op.vpath.place = spot.place)
    (ran : run env store op = .ok (answer, after)) :
    Frame spot { store with collecting := after.collecting } after ∧
      Change env (store.record spot) op answer (after.record spot) := by
  cases op with
  | startAppend io keys params =>
      obtain ⟨result, started, done⟩ := Run.bind_eq_ok_iff.mp ran
      obtain ⟨rfl, rfl⟩ := Prod.mk.inj (Except.ok.inj done)
      obtain ⟨frame, change⟩ := startAppendMarked_at located started
      exact ⟨frame.ofMarked, change⟩
  | startReplace io keys params =>
      obtain ⟨result, started, done⟩ := Run.bind_eq_ok_iff.mp ran
      obtain ⟨rfl, rfl⟩ := Prod.mk.inj (Except.ok.inj done)
      obtain ⟨frame, change⟩ := startReplaceMarked_at located started
      exact ⟨frame.ofMarked, change⟩
  | resumeUpload io vpath =>
      obtain ⟨result, started, done⟩ := Run.bind_eq_ok_iff.mp ran
      obtain ⟨rfl, rfl⟩ := Prod.mk.inj (Except.ok.inj done)
      obtain ⟨frame, change⟩ := resumeUpload_at located started
      exact ⟨frame.ofMarked, change⟩
  | dirAborted io vpath =>
      obtain ⟨store, aborted, done⟩ := Run.bind_eq_ok_iff.mp ran
      obtain ⟨rfl, rfl⟩ := Prod.mk.inj (Except.ok.inj done)
      obtain ⟨frame, change⟩ := dirAborted_at located aborted
      exact ⟨frame.ofMarked, change⟩
  | dirCommitted io vpath =>
      obtain ⟨store, committed, done⟩ := Run.bind_eq_ok_iff.mp ran
      obtain ⟨rfl, rfl⟩ := Prod.mk.inj (Except.ok.inj done)
      obtain ⟨frame, change⟩ := dirCommitted_at located committed
      exact ⟨frame.ofMarked, change⟩
  | removeStateFile io vpath time modified =>
      obtain ⟨result, removed, done⟩ := Run.bind_eq_ok_iff.mp ran
      obtain ⟨rfl, rfl⟩ := Prod.mk.inj (Except.ok.inj done)
      obtain ⟨frame, change⟩ := removeStateFile_at located removed
      exact ⟨frame.ofMarked, change⟩

end Located

/-- A step is an operation with its answer. -/
theorem takes_iff {env : Env} {event : Event} :
    (machine env).Takes event ↔ run env event.before event.op = .ok (event.answer, event.after) := by
  unfold Machine.Takes machine
  dsimp only
  cases run env event.before event.op with
  | ok result => simp [Except.toOption]
  | error panic => simp [Except.toOption]

/-- A step at a spot is a change there. -/
theorem takes_change {env : Env} {event : Event} {spot : Spot} (valid : (machine env).Takes event)
    (located : event.op.vpath.place = spot.place) :
    Change env (event.before.record spot) event.op event.answer (event.after.record spot) :=
  (run_at located (takes_iff.mp valid)).2

/-- A request for a path that is only a key is turned down before anything happens. -/
theorem run_of_level_eq_zero {env : Env} {op : Op} {store after : Meta} {answer : Answer}
    (shallow : op.vpath.level = 0) (request : op.finishes = false)
    (ran : run env store op = .ok (answer, after)) :
    after.writing = store.writing ∧ after.signatures = store.signatures ∧ answer.Idle ∧
      ∀ reason other, answer ≠ .upload (.ok (.rejected reason (some other))) := by
  have differs (directory : Directory) : op.vpath.level ≠ directory.numLevels := by
    have depth := directory.one_le_numLevels
    omega
  cases op with
  | startAppend io keys params =>
      obtain ⟨result, started, done⟩ := Run.bind_eq_ok_iff.mp ran
      obtain ⟨rfl, rfl⟩ := Prod.mk.inj (Except.ok.inj done)
      unfold startAppend startAppendMarked at started
      split at started
      · obtain rfl := Except.ok.inj started
        exact ⟨rfl, rfl, trivial, by simp⟩
      · rename_i directory _
        rw [if_pos (show params.path.level ≠ directory.numLevels from differs directory)] at started
        obtain rfl := Except.ok.inj started
        exact ⟨rfl, rfl, trivial, by simp⟩
  | startReplace io keys params =>
      obtain ⟨result, started, done⟩ := Run.bind_eq_ok_iff.mp ran
      obtain ⟨rfl, rfl⟩ := Prod.mk.inj (Except.ok.inj done)
      unfold startReplace startReplaceMarked at started
      split at started
      · obtain rfl := Except.ok.inj started
        exact ⟨rfl, rfl, trivial, by simp⟩
      · rename_i directory _
        rw [if_pos (show params.path.level ≠ directory.numLevels from differs directory)] at started
        obtain rfl := Except.ok.inj started
        exact ⟨rfl, rfl, trivial, by simp⟩
  | resumeUpload io vpath =>
      obtain ⟨result, started, done⟩ := Run.bind_eq_ok_iff.mp ran
      obtain ⟨rfl, rfl⟩ := Prod.mk.inj (Except.ok.inj done)
      unfold resumeUpload at started
      split at started
      · obtain rfl := Except.ok.inj started
        exact ⟨rfl, rfl, trivial, by simp⟩
      · rename_i directory _
        rw [if_pos (show vpath.level ≠ directory.numLevels from differs directory)] at started
        obtain rfl := Except.ok.inj started
        exact ⟨rfl, rfl, trivial, by simp⟩
  | dirAborted => simp [Op.finishes] at request
  | dirCommitted => simp [Op.finishes] at request
  | removeStateFile io vpath time modified =>
      obtain ⟨result, removed, done⟩ := Run.bind_eq_ok_iff.mp ran
      obtain ⟨rfl, rfl⟩ := Prod.mk.inj (Except.ok.inj done)
      have noParent : vpath.parentRel = .error (.assertion "self.level() > 0") := by
        have level : vpath.level = 0 := shallow
        simp [VPath.parentRel, level, Run.assert]
      unfold Meta.removeStateFile at removed
      split at removed
      · obtain rfl := Except.ok.inj removed
        exact ⟨rfl, rfl, trivial, by simp⟩
      · cases root : io.fails .signatures with
        | true =>
            have closed : store.openParent io vpath = .ok (.error .createDir) := by
              simp [Meta.openParent, root]
              rfl
            rw [closed] at removed
            obtain rfl := Except.ok.inj removed
            exact ⟨rfl, rfl, trivial, by simp⟩
        | false => simp [Meta.openParent, root, noParent] at removed

end Metadata

end Ciruela
