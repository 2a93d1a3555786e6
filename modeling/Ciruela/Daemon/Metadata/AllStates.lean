import Ciruela.Daemon.Metadata.Scan

/-!
# What a scan returns

A name is turned into the names of its files by appending endings, and a scan goes
back by stripping them. Going back is exact for the names that do not start with a
dot and do not end with `.new`; for a directory that was filled by appends and
commits, a scan returns what was committed exactly when all names are such.
-/

namespace Ciruela

open Foundation

namespace Metadata

/-- The names whose files a scan takes for what they are. -/
def Plain (name : List Char) : Prop :=
  startsWith name ".".toList = false ∧ endsWith name newEnding = false

instance (name : List Char) : Decidable (Plain name) := inferInstanceAs (Decidable (_ ∧ _))

/-- The name a state file stands for. -/
def stem (file : FileName) : List Char := dropEnd file.text stateEnding.length

section Names

theorem stem_stateFile (name : FileName) : stem (stateFile name) = name.text :=
  dropEnd_append name.text stateEnding

/-- State files tell their images apart. -/
theorem stateFile_injective {name other : FileName} (same : stateFile name = stateFile other) :
    name = other := by
  ext1
  rw [← stem_stateFile name, same, stem_stateFile]

/-- State files of uploads tell their images apart. -/
theorem newStateFile_injective {name other : FileName} (same : newStateFile name = newStateFile other) :
    name = other := by
  ext1
  exact List.append_cancel_right (congrArg FileName.text same)

/-- `a.new.state` belongs to `a.new` and to `a`. -/
theorem endsWith_of_stateFile_eq {name other : FileName} (same : stateFile name = newStateFile other) :
    endsWith name.text newEnding = true := by
  have text : name.text ++ stateEnding = other.text ++ newEnding ++ stateEnding := by
    have texts := congrArg FileName.text same
    simpa [stateFile, newStateFile, stateEnding, newEnding] using texts
  rw [List.append_cancel_right text]
  exact endsWith_append _ _

/-- Temporary files are hidden. -/
theorem startsWith_tmpFile (name : FileName) : startsWith (tmpFile name).text ".".toList = true := by
  simp [tmpFile, startsWith]

theorem startsWith_append {front text : List Char} (ending : List Char) (nonempty : text ≠ [])
    (dot : front.length = 1) : startsWith (text ++ ending) front = startsWith text front := by
  obtain ⟨first, rfl⟩ := List.length_eq_one_iff.mp dot
  cases text with
  | nil => exact absurd rfl nonempty
  | cons head tail => rfl

/-- The files of a name are hidden when the name is. -/
theorem startsWith_stateFile (name : FileName) :
    startsWith (stateFile name).text ".".toList = startsWith name.text ".".toList :=
  startsWith_append _ name.nonempty rfl

/-- The state file of an upload is hidden when the name of its image is. -/
theorem startsWith_newStateFile (name : FileName) :
    startsWith (newStateFile name).text ".".toList = startsWith name.text ".".toList :=
  startsWith_append _ name.nonempty rfl

/-- Operations on one plain name do not touch the files of another. -/
theorem notMem_footprint {name other : FileName} (plain : Plain name.text)
    (otherPlain : Plain other.text) (different : other ≠ name) :
    stateFile other ∉ footprint name ∧ newStateFile other ∉ footprint name := by
  have shown {file : FileName} (visible : startsWith file.text ".".toList = false)
      (target : FileName) : file ≠ tmpFile target := by
    rintro rfl
    exact absurd ((startsWith_tmpFile target).symm.trans visible) (by decide)
  have state := (startsWith_stateFile other).trans otherPlain.1
  have newState := (startsWith_newStateFile other).trans otherPlain.1
  simp only [footprint, List.mem_cons, List.not_mem_nil, or_false, not_or]
  refine ⟨⟨?_, ?_, shown state _, shown state _⟩, ?_, ?_, shown newState _, shown newState _⟩
  · intro same
    exact different (stateFile_injective same)
  · intro same
    have ends := endsWith_of_stateFile_eq same
    simp [otherPlain.2] at ends
  · intro same
    have ends := endsWith_of_stateFile_eq same.symm
    simp [plain.2] at ends
  · intro same
    exact different (newStateFile_injective same)

end Names

/-- The answer that an image is there already. -/
def Answer.isAlreadyDone : Answer → Bool
  | .upload (.ok (.accepted .alreadyDone)) => true
  | _ => false

/-- Add signatures to the state of a name. -/
def amend (table : Found) (name : List Char) (signatures : List SignatureEntry) : Found :=
  match table.lookup name with
  | some state =>
      table.insert name { state with signatures := appendSignatures state.signatures signatures }
  | none => table

/-- What an operation adds to the states committed so far: a commit adds the entry
it finds in `writing`, and an append of a committed image adds its signatures. -/
def ledgerStep (table : Found) (event : Event) : Found :=
  match event.op, event.op.vpath.path.fileName with
  | .dirCommitted _ vpath, some name =>
      match event.before.writing.lookup vpath.place with
      | some writing => table.insert name.text writing.toState
      | none => table
  | .startAppend _ _ params, some name =>
      if event.answer.isAlreadyDone then amend table name.text (sortSignatures params.entries)
      else table
  | _, _ => table

/-- The committed states of a run, by name. -/
def ledger (trace : List Event) : Found := trace.foldl ledgerStep ∅

/-- What a step adds to the ledger. -/
theorem ledger_snoc (trace : List Event) (event : Event) :
    ledger (trace ++ [event]) = ledgerStep (ledger trace) event := by
  simp [ledger]

/-- The operation appends or commits an image right below a directory, and its
file operations succeed. -/
structure FillsDir (dir : List FileName) (op : Op) : Prop where
  working : op.io = Io.working
  kind : (∃ io keys params, op = .startAppend io keys params) ∨ ∃ io vpath, op = .dirCommitted io vpath
  below : ∃ name, op.vpath.place = .rootDir :: (dir ++ [name]).map .normal

section Visiting

variable {vpath : VPath} {dir : List FileName} {store : Meta}

/-- Nothing right below the directory is being written. -/
def IdleBelow (dir : List FileName) (store : Meta) : Prop :=
  ∀ name : FileName, store.writing.lookup (.rootDir :: (dir ++ [name]).map .normal) = none

/-- The name of a listed file without an ending is a name. -/
theorem exists_name_of_visible {text ending : List Char} {file : FileName}
    (whole : file.text = text ++ ending) (visible : startsWith file.text ".".toList = false)
    (dotted : ending.head? = some '.') : ∃ name : FileName, name.text = text := by
  have nonempty : text ≠ [] := by
    rintro rfl
    rw [whole, List.nil_append] at visible
    cases ending with
    | nil => simp at dotted
    | cons first rest =>
        obtain rfl : first = '.' := by simpa using dotted
        simp [startsWith] at visible
  have shown : startsWith text ".".toList = false := by
    rw [← startsWith_append ending nonempty rfl, ← whole]
    exact visible
  refine ⟨⟨text, nonempty, ?_, ?_, ?_⟩, rfl⟩
  · intro slash
    exact file.slashFree (whole ▸ List.mem_append_left _ slash)
  · rintro rfl
    simp [startsWith] at shown
  · rintro rfl
    simp [startsWith] at shown

/-- While nothing is being written every listed `.new.state` file is stale. -/
theorem stale_of_idle (base : vpath.place = .rootDir :: dir.map .normal) (idle : IdleBelow dir store)
    {file : FileName} (visible : startsWith file.text ".".toList = false) :
    stale vpath store file = .ok (endsWith file.text newStateEnding) := by
  by_cases ends : endsWith file.text newStateEnding = true
  · obtain ⟨name, text⟩ := exists_name_of_visible (dropEnd_append_of_endsWith ends).symm visible rfl
    have same : file = newStateFile name := by
      ext1
      rw [← dropEnd_append_of_endsWith ends, ← text]
      rfl
    have place : vpath.place ++ [.normal name] = .rootDir :: (dir ++ [name]).map .normal := by
      simp [base]
    have missing : vpath.place ++ [.normal name] ∉ store.writing := by
      rw [place]
      exact Finmap.lookup_eq_none.mp (idle name)
    rw [ends, same, stale_newStateFile]
    simp [missing]
  · simp [stale, ends]
    rfl

/-- One visit in an idle directory: the file is removed, collected under its stem,
set aside or left alone. -/
theorem visit_idle (base : vpath.place = .rootDir :: dir.map .normal) (idle : IdleBelow dir store)
    {file : FileName} (visible : startsWith file.text ".".toList = false) (found : Found) :
    ∃ found' store', visit Io.working vpath dir (found, store) file = .ok (found', store') ∧
      store'.writing = store.writing ∧
      (found' = found ∨ endsWith file.text newStateEnding = false ∧
        ∃ state, found' = collect found file state) := by
  have checked := stale_of_idle base idle visible
  cases ends : endsWith file.text newStateEnding with
  | true =>
      rw [ends] at checked
      exact ⟨found, store.setFiles dir (removeFile Io.working (store.signatures.files dir) file).2,
        by simp [visit, checked]; rfl, rfl, Or.inl rfl⟩
  | false =>
      rw [ends] at checked
      cases seen : look Io.working (store.signatures.files dir) file with
      | stored state =>
          exact ⟨collect found file state, store, by simp [visit, checked, seen]; rfl, rfl,
            Or.inr ⟨rfl, state, rfl⟩⟩
      | broken =>
          exact ⟨found, store.setFiles dir
            (renameBrokenFile Io.working (store.signatures.files dir) file),
            by simp [visit, checked, seen]; rfl, rfl, Or.inl rfl⟩
      | nothing => exact ⟨found, store, by simp [visit, checked, seen]; rfl, rfl, Or.inl rfl⟩

/-- A listed file that is no `.new.state` file is collected under a plain name. -/
theorem plain_of_collect {file : FileName} (visible : startsWith file.text ".".toList = false)
    (isState : endsWith file.text stateEnding = true)
    (notNew : endsWith file.text newStateEnding = false) :
    Plain (stem file) ∧ ∀ found state, collect found file state =
      if stem file ∈ found then found else found.insert (stem file) state := by
  have whole : stem file ++ stateEnding = file.text := dropEnd_append_of_endsWith isState
  have notEnds : endsWith (stem file) newEnding = false := by
    by_contra ends
    have inner := dropEnd_append_of_endsWith (Bool.eq_true_of_not_eq_false ends)
    have ending : newStateEnding = newEnding ++ stateEnding := rfl
    rw [← whole, ← inner, List.append_assoc, ← ending, endsWith_append] at notNew
    simp at notNew
  obtain ⟨name, text⟩ := exists_name_of_visible whole.symm visible rfl
  have shown : startsWith (stem file) ".".toList = false := by
    rw [← startsWith_append stateEnding (text ▸ name.nonempty) rfl, whole]
    exact visible
  refine ⟨⟨shown, notEnds⟩, fun found state => ?_⟩
  have unfolded : collect found file state =
      if endsWith (stem file) newEnding then
        found.insert (dropEnd (stem file) newEnding.length) state
      else if stem file ∈ found then found else found.insert (stem file) state := rfl
  rw [unfolded, notEnds, if_neg (by decide)]

/-- A scan of an idle directory finds plain names only. -/
theorem foldlM_visit_plain (base : vpath.place = .rootDir :: dir.map .normal) {files : List FileName}
    (listed : ∀ file ∈ files, startsWith file.text ".".toList = false ∧
      endsWith file.text stateEnding = true)
    (idle : IdleBelow dir store) {found found' : Found} {store' : Meta}
    (plain : ∀ name ∈ found, Plain name)
    (scanned : files.foldlM (visit Io.working vpath dir) (found, store) = .ok (found', store')) :
    ∀ name ∈ found', Plain name := by
  induction files generalizing found store with
  | nil =>
      obtain ⟨rfl, rfl⟩ := Prod.mk.inj (Except.ok.inj scanned)
      exact plain
  | cons file rest ih =>
      obtain ⟨visible, isState⟩ := listed file List.mem_cons_self
      obtain ⟨next, after, visited, writing, collected⟩ := visit_idle base idle visible found
      rw [List.foldlM_cons, visited, Run.ok_bind] at scanned
      refine ih (fun other member => listed other (List.mem_cons_of_mem _ member)) ?_ ?_ scanned
      · intro name
        rw [writing]
        exact idle name
      · rcases collected with rfl | ⟨notNew, state, rfl⟩
        · exact plain
        · obtain ⟨stemPlain, collects⟩ := plain_of_collect visible isState notNew
          rw [collects]
          intro name member
          split at member
          · exact plain name member
          · rcases Finmap.mem_insert.mp member with rfl | old
            · exact stemPlain
            · exact plain name old

/-- Visiting files that hold the states of a table collects these states and
changes nothing. -/
theorem foldlM_visit_table (base : vpath.place = .rootDir :: dir.map .normal)
    (idle : IdleBelow dir store) {table : Found} {files : List FileName}
    (listed : ∀ file ∈ files, ∃ name : FileName, file = stateFile name ∧ Plain name.text ∧
      ∃ state, table.lookup name.text = some state ∧ state.signatures ≠ [] ∧
        (store.signatures.files dir).lookup (stateFile name) = some (.state state))
    {found : Found}
    (agrees : ∀ key state, found.lookup key = some state → table.lookup key = some state) :
    ∃ found', files.foldlM (visit Io.working vpath dir) (found, store) = .ok (found', store) ∧
      (∀ key state, found'.lookup key = some state → table.lookup key = some state) ∧
      (∀ file ∈ files, stem file ∈ found') ∧ ∀ key ∈ found, key ∈ found' := by
  induction files generalizing found with
  | nil => exact ⟨found, rfl, agrees, by simp, fun _ member => member⟩
  | cons file rest ih =>
      obtain ⟨name, rfl, plain, state, recorded, signed, content⟩ := listed file List.mem_cons_self
      have visible : startsWith (stateFile name).text ".".toList = false :=
        (startsWith_stateFile name).trans plain.1
      have notNew : endsWith (stateFile name).text newStateEnding = false := by
        by_contra ends
        have text := dropEnd_append_of_endsWith (Bool.eq_true_of_not_eq_false ends)
        have inner : dropEnd (stateFile name).text newStateEnding.length ++ newEnding ++ stateEnding =
            name.text ++ stateEnding := by
          rw [List.append_assoc]
          exact text
        have nameEnds : endsWith name.text newEnding = true := by
          rw [← List.append_cancel_right inner]
          exact endsWith_append _ _
        simp [plain.2] at nameEnds
      have checked := stale_of_idle base idle visible
      rw [notNew] at checked
      have seen := look_of_signed content signed
      have visited : visit Io.working vpath dir (found, store) (stateFile name) =
          .ok (collect found (stateFile name) state, store) := by
        simp [visit, checked, seen]
        rfl
      obtain ⟨_, collects⟩ := plain_of_collect visible (endsWith_stateFile name) notNew
      rw [stem_stateFile] at collects
      have agreesNext : ∀ key value, (collect found (stateFile name) state).lookup key = some value →
          table.lookup key = some value := by
        intro key value found
        rw [collects] at found
        split at found
        · exact agrees key value found
        · rw [Map.lookup_insert_eq] at found
          split at found
          · rename_i same
            rw [same, recorded]
            exact found
          · exact agrees key value found
      have kept : ∀ key, key = name.text ∨ key ∈ found →
          key ∈ collect found (stateFile name) state := by
        intro key member
        rw [collects]
        split
        · rename_i known
          rcases member with rfl | old
          · exact known
          · exact old
        · exact Finmap.mem_insert.mpr member
      obtain ⟨last, scanned, agreesLast, stems, grows⟩ :=
        ih (fun other member => listed other (List.mem_cons_of_mem _ member)) agreesNext
      refine ⟨last, ?_, agreesLast, ?_, ?_⟩
      · rw [List.foldlM_cons, visited, Run.ok_bind, scanned]
      · intro other member
        rcases List.mem_cons.mp member with rfl | later
        · rw [stem_stateFile]
          exact grows _ (kept _ (Or.inl rfl))
        · exact stems other later
      · intro key member
        exact grows key (kept key (Or.inr member))

end Visiting

section Filling

variable {env : Env} {dir : List FileName} {deep : dir ≠ []}

/-- The record of a name says what the table says about it. -/
structure Tells (table : Found) (name : FileName) (record : Record) : Prop where
  state : record.state = (table.lookup name.text).map .state
  newState : record.newState = record.writing.map fun writing => .state writing.toState
  signed : record.Signed

/-- What the ledger tells of a record is consistent. -/
theorem Tells.consistent {table : Found} {name : FileName} {record : Record}
    (tells : Tells table name record) : record.Consistent := by
  intro writing entry
  rw [tells.newState, entry]
  rfl

theorem Answer.Idle.not_alreadyDone {answer : Answer} (idle : answer.Idle) :
    answer.isAlreadyDone = false := by
  cases done : answer.isAlreadyDone with
  | false => rfl
  | true =>
      unfold Answer.isAlreadyDone at done
      split at done
      · exact absurd idle not_false
      · simp at done

/-- An append changes the table as it changes the record. -/
theorem Tells.append {table : Found} {name : FileName} {before after : Record} {answer : Answer}
    {io : Io} {keys : KeyFiles} {params : AppendDir}
    (change : Change env before (.startAppend io keys params) answer after) (working : ¬ io.Faulty)
    (tells : Tells table name before) :
    Tells (if answer.isAlreadyDone then amend table name.text (sortSignatures params.entries)
      else table) name after := by
  have signed := change.signed tells.signed
  cases change with
  | kept idle =>
      rw [idle.not_alreadyDone]
      exact tells
  | begun => exact ⟨tells.state, rfl, signed⟩
  | extended => exact ⟨tells.state, rfl, signed⟩
  | @merged _ _ state asked _ _ committed =>
      obtain rfl := Option.some.inj asked
      have listed : table.lookup name.text = some state := by
        have recorded := tells.state.symm.trans committed
        cases found : table.lookup name.text with
        | none => simp [found] at recorded
        | some other => simpa [found] using recorded
      refine ⟨?_, tells.newState, signed⟩
      have done : (accepted .alreadyDone).isAlreadyDone = true := rfl
      rw [done, if_pos rfl, amend, listed, Finmap.lookup_insert]
      rfl
  | unsaved _ _ faulty => exact absurd faulty working
  | unfinished _ _ finishes => simp [Op.finishes] at finishes

/-- A commit puts the entry of `writing` into the table. -/
theorem Tells.commit {table : Found} {name : FileName} {before after : Record} {answer : Answer}
    {io : Io} {vpath : VPath} (change : Change env before (.dirCommitted io vpath) answer after)
    (working : ¬ io.Faulty) (tells : Tells table name before) :
    Tells (match before.writing with
      | some writing => table.insert name.text writing.toState
      | none => table) name after := by
  have signed := change.signed tells.signed
  cases entry : before.writing with
  | none =>
      have kept : after = before := by
        cases change with
        | kept => rfl
        | begun asked => simp [Op.demand] at asked
        | extended asked => simp [Op.demand] at asked
        | merged asked => simp [Op.demand] at asked
        | unsaved asked => simp [Op.demand] at asked
        | committed writing => simp [entry] at writing
        | unfinished writing => simp [entry] at writing
      rw [kept]
      exact tells
  | some writing =>
      have committed := change.commits rfl working entry (tells.consistent writing entry)
      rw [committed] at signed ⊢
      refine ⟨?_, rfl, signed⟩
      dsimp only
      rw [Finmap.lookup_insert]
      rfl

/-- A step writes only to its own name in the ledger. -/
theorem ledgerStep_lookup_ne {table : Found} {event : Event} {name : FileName} {key : List Char}
    (file : event.op.vpath.path.fileName = some name) (different : key ≠ name.text) :
    (ledgerStep table event).lookup key = table.lookup key := by
  unfold ledgerStep
  rw [file]
  split
  · rename_i found
    obtain rfl := Option.some.inj found
    split
    · exact Finmap.lookup_insert_of_ne _ different
    · rfl
  · rename_i found
    obtain rfl := Option.some.inj found
    split
    · unfold amend
      split
      · exact Finmap.lookup_insert_of_ne _ different
      · rfl
    · rfl
  · rfl

/-- The table and the directory tell the same, and there is nothing in the
directory but the files of plain names and hidden ones. -/
structure Filled (dir : List FileName) (deep : dir ≠ []) (table : Found) (store : Meta) : Prop where
  tells : ∀ name : FileName, Plain name.text → Tells table name (store.record ⟨dir, name, deep⟩)
  files : ∀ file ∈ store.signatures.files dir, startsWith file.text ".".toList = true ∨
    ∃ name : FileName, Plain name.text ∧ (file = stateFile name ∨ file = newStateFile name)
  names : ∀ key ∈ table, ∃ name : FileName, name.text = key ∧ Plain name.text

/-- The record of another plain name is as before. -/
theorem record_of_frame {before after : Meta} {name other : FileName}
    (frame : Frame ⟨dir, name, deep⟩ { before with collecting := after.collecting } after)
    (plain : Plain name.text) (otherPlain : Plain other.text) (different : other ≠ name) :
    after.record ⟨dir, other, deep⟩ = before.record ⟨dir, other, deep⟩ := by
  obtain ⟨state, newState⟩ := notMem_footprint plain otherPlain different
  have elsewhere : (⟨dir, other, deep⟩ : Spot).place ≠ (⟨dir, name, deep⟩ : Spot).place := by
    intro same
    exact different (Spot.mk.inj (Spot.place_injective same)).2
  have writing := frame.writing _ elsewhere
  have stateFiles := frame.files dir _ (Or.inr state)
  have newStateFiles := frame.files dir _ (Or.inr newState)
  unfold Meta.record recordOf
  rw [Record.mk.injEq]
  exact ⟨writing, stateFiles, newStateFiles⟩

/-- A step keeps the ledger and the files together. -/
theorem Filled.step {table : Found} {event : Event} (valid : (machine env).Takes event)
    (fills : FillsDir dir event.op)
    (plain : ∀ name, event.op.vpath.path.fileName = some name → Plain name.text)
    (filled : Filled dir deep table event.before) :
    Filled dir deep (ledgerStep table event) event.after := by
  obtain ⟨working, kind, name, place⟩ := fills
  have located : event.op.vpath.place = (⟨dir, name, deep⟩ : Spot).place := place
  have file : event.op.vpath.path.fileName = some name :=
    Path.fileName_eq_some_iff.mpr (VPath.place_getLast? located)
  have namePlain := plain name file
  have noFault : ¬ event.op.io.Faulty := working ▸ Io.not_faulty_working
  obtain ⟨frame, change⟩ := run_at located (takes_iff.mp valid)
  refine ⟨?_, ?_, ?_⟩
  · intro other otherPlain
    by_cases same : other = name
    · subst same
      have tells := filled.tells other otherPlain
      rcases kind with ⟨io, keys, params, isAppend⟩ | ⟨io, vpath, isCommit⟩
      · have stepped : ledgerStep table event = if event.answer.isAlreadyDone then
            amend table other.text (sortSignatures params.entries) else table := by
          unfold ledgerStep
          rw [file, isAppend]
        rw [isAppend] at change noFault
        rw [stepped]
        exact tells.append change noFault
      · have stepped : ledgerStep table event =
            match (event.before.record ⟨dir, other, deep⟩).writing with
            | some writing => table.insert other.text writing.toState
            | none => table := by
          rw [isCommit] at located
          have sameEntry : event.before.writing.lookup vpath.place =
              (event.before.record ⟨dir, other, deep⟩).writing := by
            unfold Meta.record recordOf
            rw [← located]
            rfl
          unfold ledgerStep
          rw [file, isCommit]
          simp only [sameEntry]
        rw [isCommit] at change noFault
        rw [stepped]
        exact tells.commit change noFault
    · have text : other.text ≠ name.text := fun equal => same (FileName.ext equal)
      obtain ⟨state, newState, signed⟩ := filled.tells other otherPlain
      rw [record_of_frame frame namePlain otherPlain same]
      exact ⟨by rw [ledgerStep_lookup_ne file text]; exact state, newState, signed⟩
  · intro other present
    by_cases touched : other ∈ footprint name
    · simp only [footprint, List.mem_cons, List.not_mem_nil, or_false] at touched
      rcases touched with rfl | rfl | rfl | rfl
      · exact Or.inr ⟨name, namePlain, Or.inl rfl⟩
      · exact Or.inr ⟨name, namePlain, Or.inr rfl⟩
      · exact Or.inl (startsWith_tmpFile _)
      · exact Or.inl (startsWith_tmpFile _)
    · have same := frame.files dir other (Or.inr touched)
      refine filled.files other (Map.mem_iff_lookup_ne_none.mpr ?_)
      rw [Map.mem_iff_lookup_ne_none, same] at present
      exact present
  · intro key member
    by_cases same : key = name.text
    · exact ⟨name, same.symm, namePlain⟩
    · rw [Map.mem_iff_lookup_ne_none, ledgerStep_lookup_ne file same,
        ← Map.mem_iff_lookup_ne_none] at member
      exact filled.names key member

/-- Along a run that fills an empty directory with plain names. -/
theorem filled_steps {signatures : Tree Content} {indexes : Tree (List UInt8)} {trace : List Event}
    {finish : Meta} (steps : (machine env).Steps (Meta.new signatures indexes) trace finish)
    (empty : signatures.files dir = ∅) (fills : ∀ event ∈ trace, FillsDir dir event.op)
    (plain : ∀ event ∈ trace, ∀ name, event.op.vpath.path.fileName = some name →
      Plain name.text) : Filled dir deep (ledger trace) finish := by
  refine steps.preserves_history (fun history store => Filled dir deep (ledger history) store)
    (fun event => FillsDir dir event.op ∧ ∀ name, event.op.vpath.path.fileName = some name →
      Plain name.text) ?_ (fun event member => ⟨fills event member, plain event member⟩) ?_
  · intro history event valid allowed filled
    rw [ledger_snoc]
    exact filled.step valid allowed.1 allowed.2
  · have record (name : FileName) :
        (Meta.new signatures indexes).record ⟨dir, name, deep⟩ = ⟨none, none, none⟩ := by
      simp [Meta.record, recordOf, Meta.new, empty]
    refine ⟨?_, ?_, ?_⟩
    · intro name _
      rw [record]
      refine ⟨rfl, rfl, ?_⟩
      rintro state (entry | committed | written)
      · simp at entry
      · simp at committed
      · simp at written
    · intro file present
      simp only [Meta.new, empty] at present
      exact absurd present Finmap.notMem_empty
    · intro key member
      exact absurd member Finmap.notMem_empty

end Filling

/-- A scan of the directory returns the committed states and touches no file. -/
def ScanExact (vpath : VPath) (dir : List FileName) (table : Found) (store : Meta) : Prop :=
  ∀ names, (store.signatures.files dir).Lists names →
    ∃ after, allStates Io.working vpath dir names store = .ok (.ok table, after) ∧
      after.signatures.files dir = store.signatures.files dir

section Exactness

variable {env : Env} {dir : List FileName} {vpath : VPath} {store : Meta} {table : Found}

/-- A scan in which no call fails visits the names that it lists. -/
theorem allStates_working (names : List FileName) :
    allStates Io.working vpath dir names store =
      ((listFiles names stateEnding).foldlM (visit Io.working vpath dir) (∅, store)).map
        fun result => (.ok result.1, result.2) := by
  simp only [allStates, Io.working_fails]
  cases (listFiles names stateEnding).foldlM (visit Io.working vpath dir) (∅, store) with
  | ok result => rfl
  | error panic => rfl

/-- What is listed is a state file that is not hidden. -/
theorem listed_of_mem {names : List FileName} {file : FileName}
    (member : file ∈ listFiles names stateEnding) : file ∈ names ∧
      startsWith file.text ".".toList = false ∧ endsWith file.text stateEnding = true := by
  obtain ⟨inNames, kept⟩ := List.mem_filter.mp member
  rw [Bool.and_eq_true, Bool.not_eq_true'] at kept
  exact ⟨inNames, kept.1, kept.2⟩

/-- What a scan of an idle directory returns has plain names only. -/
theorem ScanExact.plain (base : vpath.place = .rootDir :: dir.map .normal)
    (idle : IdleBelow dir store) (precise : ScanExact vpath dir table store) :
    ∀ name ∈ table, Plain name := by
  obtain ⟨names, lists⟩ := (store.signatures.files dir).exists_lists
  obtain ⟨after, scanned, _⟩ := precise names lists
  rw [allStates_working] at scanned
  cases folded : (listFiles names stateEnding).foldlM (visit Io.working vpath dir) (∅, store) with
  | error panic => simp [folded, Except.map] at scanned
  | ok result =>
      rw [folded] at scanned
      have same : result.1 = table :=
        Except.ok.inj (Prod.mk.inj (Except.ok.inj scanned)).1
      rw [← same]
      refine foldlM_visit_plain base (fun file member => (listed_of_mem member).2) idle ?_ folded
      intro name member
      exact absurd member Finmap.notMem_empty

/-- A scan of a filled and idle directory returns its table. -/
theorem Filled.scanExact {deep : dir ≠ []} (base : vpath.place = .rootDir :: dir.map .normal)
    (idle : IdleBelow dir store) (filled : Filled dir deep table store) :
    ScanExact vpath dir table store := by
  intro names lists
  have listed : ∀ file ∈ listFiles names stateEnding, ∃ name : FileName, file = stateFile name ∧
      Plain name.text ∧ ∃ state, table.lookup name.text = some state ∧ state.signatures ≠ [] ∧
        (store.signatures.files dir).lookup (stateFile name) = some (.state state) := by
    intro file member
    obtain ⟨inNames, visible, _⟩ := listed_of_mem member
    have present := (lists.2 file).mp inNames
    obtain hidden | ⟨name, plain, rfl | rfl⟩ := filled.files file present
    · exact absurd (hidden.symm.trans visible) (by decide)
    · have tells := filled.tells name plain
      have content : (store.signatures.files dir).lookup (stateFile name) =
          (table.lookup name.text).map .state := tells.state
      obtain ⟨state, recorded⟩ : ∃ state, table.lookup name.text = some state := by
        rw [← Option.ne_none_iff_exists']
        intro missing
        rw [missing] at content
        exact Map.mem_iff_lookup_ne_none.mp present content
      rw [recorded] at content
      exact ⟨name, rfl, plain, state, recorded, tells.signed state (Or.inr (Or.inl content)), content⟩
    · have tells := filled.tells name plain
      have content : (store.signatures.files dir).lookup (newStateFile name) = none := by
        have entry : (store.record ⟨dir, name, deep⟩).writing = none := idle name
        have newState := tells.newState
        rw [entry] at newState
        exact newState
      exact absurd content (Map.mem_iff_lookup_ne_none.mp present)
  obtain ⟨found, scanned, agrees, stems, _⟩ :=
    foldlM_visit_table base idle listed
      (by simp : ∀ key state, (∅ : Found).lookup key = some state → table.lookup key = some state)
  refine ⟨store, ?_, rfl⟩
  have same : found = table := by
    refine Finmap.ext_lookup fun key => ?_
    cases recorded : table.lookup key with
    | none =>
        by_contra present
        obtain ⟨state, value⟩ := Option.ne_none_iff_exists'.mp present
        simp [agrees key state value] at recorded
    | some state =>
        obtain ⟨name, rfl, plain⟩ :=
          filled.names key (Map.mem_iff_lookup_ne_none.mpr (by simp [recorded]))
        have content : (store.signatures.files dir).lookup (stateFile name) =
            (table.lookup name.text).map .state := (filled.tells name plain).state
        have inNames : stateFile name ∈ names := by
          rw [lists.2, Map.mem_iff_lookup_ne_none, content, recorded]
          simp
        have inList : stateFile name ∈ listFiles names stateEnding := by
          refine List.mem_filter.mpr ⟨inNames, ?_⟩
          rw [Bool.and_eq_true, Bool.not_eq_true']
          exact ⟨(startsWith_stateFile name).trans plain.1, endsWith_stateFile name⟩
        have member := stems _ inList
        rw [stem_stateFile, Map.mem_iff_lookup_ne_none] at member
        obtain ⟨value, foundValue⟩ := Option.ne_none_iff_exists'.mp member
        rw [foundValue, ← agrees _ value foundValue, recorded]
  rw [allStates_working, scanned, same]
  rfl

/-- After a run that committed images below a base directory and left nothing in
progress, a scan returns what was committed and touches no file exactly when no
committed name starts with a dot or ends with `.new`. -/
theorem scan_exact_iff {signatures : Tree Content} {indexes : Tree (List UInt8)}
    {trace : List Event} {finish : Meta} (base : vpath.place = .rootDir :: dir.map .normal)
    (steps : (machine env).Steps (Meta.new signatures indexes) trace finish)
    (empty : signatures.files dir = ∅) (fills : ∀ event ∈ trace, FillsDir dir event.op)
    (committed : ∀ event ∈ trace, ∀ name ∈ event.op.vpath.path.fileName,
      name.text ∈ ledger trace)
    (idle : IdleBelow dir finish) :
    ScanExact vpath dir (ledger trace) finish ↔ ∀ name ∈ ledger trace, Plain name := by
  have deep : dir ≠ [] := by
    rintro rfl
    exact vpath.notRoot base
  constructor
  · exact ScanExact.plain base idle
  · intro plain
    have filled : Filled dir deep (ledger trace) finish :=
      filled_steps steps empty fills fun event member name file =>
        plain _ (committed event member name file)
    exact filled.scanExact base idle

/-- Append and commit one name. -/
def Sample.filling (vpath : VPath) : List Op :=
  [.startAppend Io.working Sample.keys ⟨vpath, Sample.image 1, 5, [Sample.signature 1]⟩,
    .dirCommitted Io.working vpath]

/-- The operations of the example are about one directory. -/
theorem Sample.fillsDir {vpath : VPath} (name : FileName)
    (place : vpath.place = .rootDir :: (Sample.spot.dir ++ [name]).map .normal) :
    ∀ op ∈ Sample.filling vpath, FillsDir Sample.spot.dir op := by
  intro op member
  simp only [Sample.filling, List.mem_cons, List.not_mem_nil, or_false] at member
  rcases member with rfl | rfl
  · exact ⟨rfl, Or.inl ⟨_, _, _, rfl⟩, name, place⟩
  · exact ⟨rfl, Or.inr ⟨_, _, rfl⟩, name, place⟩

/-- The name `a` is found again. -/
theorem scan_exact_plain_name :
    let played := (machine (Sample.env false)).play (Meta.new Tree.empty Tree.empty)
      (Sample.filling Sample.path)
    ledger played.1 ≠ ∅ ∧ ScanExact Sample.base Sample.spot.dir (ledger played.1) played.2 := by
  intro played
  have idle : played.2.writing = ∅ := by decide
  have plain : ∀ name ∈ (ledger played.1).keys, Plain name := by decide
  refine ⟨by decide, (scan_exact_iff (by decide) (Machine.Steps.of_play _ _ _) rfl ?_ (by decide)
    ?_).mpr ?_⟩
  · intro event member
    exact Sample.fillsDir Sample.name (by decide) _ (Machine.Steps.op_mem_of_play member)
  · intro name
    rw [idle]
    rfl
  · intro name member
    exact plain name (Finmap.mem_keys.mpr member)

/-- The name `a.new` is not found again. -/
theorem scan_not_exact_new_name :
    ∃ (trace : List Event) (finish : Meta),
      (machine (Sample.env false)).Steps (Meta.new Tree.empty Tree.empty) trace finish ∧
        (∀ event ∈ trace, FillsDir Sample.spot.dir event.op) ∧
        (∀ event ∈ trace, ∀ name ∈ event.op.vpath.path.fileName, name.text ∈ ledger trace) ∧
        IdleBelow Sample.spot.dir finish ∧
        ¬ ScanExact Sample.base Sample.spot.dir (ledger trace) finish := by
  let vpath := Sample.vpath "a.new" (by decide)
  let played := (machine (Sample.env false)).play (Meta.new Tree.empty Tree.empty)
    (Sample.filling vpath)
  have idle : IdleBelow Sample.spot.dir played.2 := by
    have vacant : played.2.writing = ∅ := by decide
    intro name
    rw [vacant]
    rfl
  refine ⟨played.1, played.2, Machine.Steps.of_play _ _ _, ?_, by decide, idle, ?_⟩
  · intro event member
    exact Sample.fillsDir ⟨"a.new".toList, by decide, by decide, by decide, by decide⟩ (by decide) _
      (Machine.Steps.op_mem_of_play member)
  · intro precise
    have member : "a.new".toList ∈ ledger played.1 := by decide
    have plain := precise.plain (by decide) idle _ member
    exact absurd plain (by decide)

end Exactness

end Metadata

end Ciruela
