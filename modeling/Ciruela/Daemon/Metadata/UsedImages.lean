import Ciruela.Daemon.Metadata.IndexGc

/-!
# Which images a collection spares

Every operation records only images that were recorded before at the same place, and
the one it is about: `Brings` says so for each of them. From the snapshot of a
collection on, an image that is recorded is known as used, or its file has still to
be read; at the end nothing is left to be read, and an index that is checked and
removed belongs to no recorded image. This holds as long as no operation records an
image the collection does not know.
-/

namespace Ciruela

open Foundation

namespace Metadata

section Bringing

variable {images : ImageId → Prop} {io : Io}

/-- The files record only what they recorded before, and `images`. -/
def FilesBring (images : ImageId → Prop) (before after : Files Content) : Prop :=
  ∀ file image, Records (after.lookup file) image → Records (before.lookup file) image ∨ images image

theorem FilesBring.refl (files : Files Content) : FilesBring images files files :=
  fun _ _ records => Or.inl records

/-- A file with an image that is brought may be put in. -/
theorem FilesBring.insert {before after : Files Content} (brings : FilesBring images before after)
    {name : FileName} {content : Content} (brought : ∀ image, Records (some content) image → images image) :
    FilesBring images before (after.insert name content) := by
  intro file image records
  rw [Map.lookup_insert_eq] at records
  split at records
  · exact Or.inr (brought image records)
  · exact brings file image records

theorem FilesBring.erase {before after : Files Content} (brings : FilesBring images before after)
    {name : FileName} : FilesBring images before (after.erase name) := by
  intro file image records
  rw [Map.lookup_erase_eq] at records
  split at records
  · obtain ⟨_, missing, _⟩ := records
    simp at missing
  · exact brings file image records

theorem not_records_broken {image : ImageId} : ¬ Records (some .broken) image := by
  rintro ⟨state, broken, _⟩
  simp at broken

/-- A state records its own image. -/
theorem records_state {state : State} {image : ImageId} (records : Records (some (.state state)) image) :
    state.image = image := by
  obtain ⟨other, found, same⟩ := records
  obtain rfl := Content.state.inj (Option.some.inj found)
  exact same

/-- Replacing a file brings the image of the state. -/
theorem replaceFile_brings {files : Files Content} {name : FileName} {state : State}
    (brought : images state.image) : FilesBring images files (replaceFile io files name state).2 := by
  have stored : ∀ image, Records (some (.state state)) image → images image :=
    fun image records => records_state records ▸ brought
  unfold replaceFile replaceWith
  dsimp only
  split
  · exact .refl files
  · split
    · exact (FilesBring.refl files).insert fun _ records => absurd records not_records_broken
    · split
      · exact (FilesBring.refl files).insert stored
      · split
        · exact (FilesBring.refl files).insert stored
        · rename_i renamed rename
          obtain ⟨content, found, rfl⟩ := Files.rename_eq_some_iff.mp rename
          rw [Finmap.lookup_insert] at found
          obtain rfl := Option.some.inj found
          exact ((FilesBring.refl files).insert stored).erase.insert stored

/-- Removing a file brings nothing. -/
theorem removeFile_brings {files : Files Content} {name : FileName} :
    FilesBring images files (removeFile io files name).2 := by
  obtain removed | ⟨_, failed⟩ := removeFile_cases io files name
  · rw [removed]
    exact (FilesBring.refl files).erase
  · rw [failed]
    exact .refl files

/-- A rename brings what the file under the old name records. -/
theorem renameFile_brings {files : Files Content} {source target : FileName}
    (brought : ∀ image, Records (files.lookup source) image → images image) :
    FilesBring images files (renameFile io files source target).2 := by
  obtain ⟨content, found, renamed⟩ | ⟨_, failed⟩ := renameFile_cases io files source target
  · rw [renamed]
    exact (FilesBring.refl files).erase.insert fun image records => brought image (found ▸ records)
  · rw [failed]
    exact .refl files

/-- The part under the lock leaves the image of the entry, or one of `images`. -/
structure LockedBrings {Answer : Type} (images : ImageId → Prop) (entry : Option Writing)
    (files : Files Content) (result : Locked Answer) : Prop where
  entry : ∀ writing, result.2.1 = some writing →
    (∃ old, entry = some old ∧ old.image = writing.image) ∨ images writing.image
  files : FilesBring images files result.2.2

variable {Answer : Type} {name : FileName} {files : Files Content}

theorem LockedBrings.unchanged (answer : Except Error Answer) (entry : Option Writing) :
    LockedBrings images entry files (answer, entry, files) :=
  ⟨fun writing same => Or.inl ⟨writing, same, rfl⟩, .refl files⟩

/-- Storing a new state brings the image of the upload. -/
theorem storeNewState_brings {writing : Writing} {accept : Accept} {entry : Option Writing}
    (brought : images writing.image) :
    LockedBrings images entry files (storeNewState io name writing accept files) := by
  have stored : FilesBring images files
      (replaceFile io files (newStateFile name) writing.toState).2 := replaceFile_brings brought
  unfold storeNewState
  split
  · rename_i error after failed
    rw [failed] at stored
    exact ⟨fun _ same => Or.inr (Option.some.inj same ▸ brought), stored⟩
  · rename_i after done
    rw [done] at stored
    exact ⟨fun _ same => Or.inr (Option.some.inj same ▸ brought), stored⟩

/-- Adding signatures brings the image that is there. -/
theorem mergeState_brings {state : State} {signatures : List SignatureEntry}
    (brought : images state.image) :
    LockedBrings images none files (mergeState io name state signatures files) := by
  have stored : FilesBring images files (replaceFile io files (stateFile name)
      { state with signatures := appendSignatures state.signatures signatures }).2 :=
    replaceFile_brings brought
  unfold mergeState
  dsimp only
  split
  · rename_i error after failed
    rw [failed] at stored
    exact ⟨nofun, stored⟩
  · rename_i after done
    rw [done] at stored
    exact ⟨nofun, stored⟩

/-- An append brings its image. -/
theorem appendLocked_brings {image : ImageId} {signatures : List SignatureEntry}
    {entry : Option Writing} (brought : images image) :
    LockedBrings images entry files (appendLocked io name image signatures entry files) := by
  unfold appendLocked
  cases entry with
  | none =>
      dsimp only
      split
      · exact .unchanged _ _
      · split
        · rename_i same
          exact mergeState_brings (same ▸ brought)
        · exact .unchanged _ _
      · exact storeNewState_brings brought
  | some old =>
      dsimp only
      split
      · rename_i same
        exact storeNewState_brings (show images old.image from same ▸ brought)
      · exact .unchanged _ _

/-- A replacement brings its image. -/
theorem replaceLocked_brings {image : ImageId} {oldImage : Option ImageId}
    {signatures : List SignatureEntry} {entry : Option Writing} (brought : images image) :
    LockedBrings images entry files (replaceLocked io name image oldImage signatures entry files) := by
  unfold replaceLocked
  cases entry with
  | none =>
      dsimp only
      split
      · exact .unchanged _ _
      · split
        · rename_i same
          exact mergeState_brings (same ▸ brought)
        · split
          · exact .unchanged _ _
          · exact storeNewState_brings brought
      · exact storeNewState_brings brought
  | some old =>
      dsimp only
      split
      · rename_i same
        exact storeNewState_brings (show images old.image from same ▸ brought)
      · split
        · exact .unchanged _ _
        · exact .unchanged _ _

/-- What a resumed upload records: the image of `x.state`, or that of `x.new.state`. -/
theorem resumeLocked_brings {vpath : VPath} {entry : Option Writing}
    (brought : entry = none → ∀ image, Records (files.lookup (stateFile name)) image ∨
      Records (files.lookup (newStateFile name)) image → images image) :
    LockedBrings images entry files (resumeLocked io vpath name entry files) := by
  unfold resumeLocked
  cases entry with
  | none =>
      dsimp only
      split
      · exact .unchanged _ _
      · rename_i state read
        have records : Records (files.lookup (stateFile name)) state.image :=
          ⟨state, readFile_eq_some read, rfl⟩
        have moved : FilesBring images files
            (renameFile io files (stateFile name) (newStateFile name)).2 :=
          renameFile_brings fun image recorded => brought rfl image (Or.inl recorded)
        split
        · rename_i error after failed
          rw [failed] at moved
          exact ⟨nofun, moved⟩
        · rename_i after done
          rw [done] at moved
          refine ⟨fun writing same => Or.inr ?_, moved⟩
          rw [← Option.some.inj same]
          exact brought rfl _ (Or.inl records)
      · split
        · exact .unchanged _ _
        · rename_i state read
          refine ⟨fun writing same => Or.inr ?_, .refl files⟩
          rw [← Option.some.inj same]
          exact brought rfl _ (Or.inr ⟨state, readFile_eq_some read, rfl⟩)
        · exact .unchanged _ _
  | some old => exact .unchanged _ _

end Bringing

/-- The store records only what it recorded before at the same place, and `images`. -/
structure Brings (images : ImageId → Prop) (before after : Meta) : Prop where
  writing : ∀ place writing, after.writing.lookup place = some writing →
    (∃ old, before.writing.lookup place = some old ∧ old.image = writing.image) ∨
      images writing.image
  files : ∀ dir, FilesBring images (before.signatures.files dir) (after.signatures.files dir)
  collecting : after.collecting = before.collecting

section Operations

variable {images : ImageId → Prop} {env : Env} {io : Io} {vpath : VPath} {store after : Meta}

theorem Brings.refl (store : Meta) : Brings images store store :=
  ⟨fun _ writing found => Or.inl ⟨writing, found, rfl⟩, fun _ => .refl _, rfl⟩

/-- Opening the directory above a path changes no entry and no file. -/
theorem ensureParent_brings {result : Except Error (List FileName)}
    (ran : store.ensureParent io vpath = .ok (result, after)) :
    after.writing = store.writing ∧ (∀ dir, after.signatures.files dir = store.signatures.files dir) ∧
      after.collecting = store.collecting ∧
      ∀ dir, result = .ok dir → ∃ path, vpath.parentRel = .ok path ∧
        path.components = dir.map .normal := by
  unfold Meta.ensureParent at ran
  split at ran
  · obtain ⟨rfl, rfl⟩ := Prod.mk.inj (Except.ok.inj ran)
    exact ⟨rfl, fun _ => rfl, rfl, nofun⟩
  · obtain ⟨parentRel, above, rest⟩ := Run.bind_eq_ok_iff.mp ran
    split at rest
    · obtain ⟨rfl, rfl⟩ := Prod.mk.inj (Except.ok.inj rest)
      exact ⟨rfl, fun _ => rfl, rfl, nofun⟩
    · obtain ⟨rfl, rfl⟩ := Prod.mk.inj (Except.ok.inj rest)
      exact ⟨rfl, fun _ => Tree.files_ensureDir _ _ _, rfl, fun dir checked =>
        ⟨parentRel, above, components_of_checkComponents checked⟩⟩

theorem Brings.setFiles {dir : List FileName} {files : Files Content}
    (brings : FilesBring images (store.signatures.files dir) files) :
    Brings images store { store with signatures := store.signatures.setFiles dir files } := by
  refine ⟨fun _ writing found => Or.inl ⟨writing, found, rfl⟩, fun other => ?_, rfl⟩
  rw [Tree.files_setFiles]
  split
  · rename_i same
    rw [same]
    exact brings
  · exact .refl _

/-- Putting back what was locked brings what the lock has brought. -/
theorem putBack_brings {Answer : Type} {place : List Component} {dir : List FileName}
    {result : Locked Answer}
    (brings : LockedBrings images (store.writing.lookup place) (store.signatures.files dir) result) :
    Brings images store (store.putBack place dir result.2.1 result.2.2) := by
  refine ⟨fun other writing found => ?_, (Brings.setFiles brings.files).files, rfl⟩
  · by_cases same : other = place
    · subst same
      refine brings.entry writing ?_
      unfold Meta.putBack at found
      split at found
      · rename_i entry isEntry
        rw [Finmap.lookup_insert] at found
        exact isEntry.trans found
      · rw [Finmap.lookup_erase] at found
        cases found
    · refine Or.inl ⟨writing, ?_, rfl⟩
      unfold Meta.putBack at found
      split at found
      · rwa [Finmap.lookup_insert_of_ne _ same] at found
      · rwa [Finmap.lookup_erase_ne same] at found

/-- What happens after the directory above the path has been opened. -/
theorem Brings.afterEnsure {result : Except Error (List FileName)} {created : Meta}
    (ensured : store.ensureParent io vpath = .ok (result, created))
    (brings : Brings images created after) : Brings images store after := by
  obtain ⟨writing, files, collecting, _⟩ := ensureParent_brings ensured
  refine ⟨fun place entry found => ?_, fun dir => ?_, brings.collecting.trans collecting⟩
  · rw [← writing]
    exact brings.writing place entry found
  · rw [← files dir]
    exact brings.files dir

/-- The part under the lock decides what is recorded. -/
theorem underLock_brings {Answer : Type}
    {locked : FileName → Option Writing → Files Content → Locked Answer}
    {result : Except Error Answer × Meta} (ran : underLock io store vpath locked = .ok result)
    (inside : ∀ spot : Spot, vpath.place = spot.place →
      LockedBrings images (store.writing.lookup spot.place) (store.signatures.files spot.dir)
        (locked spot.name (store.writing.lookup spot.place) (store.signatures.files spot.dir))) :
    Brings images store result.2 := by
  obtain ⟨⟨opened, created⟩, ensured, rest⟩ := Run.bind_eq_ok_iff.mp ran
  obtain ⟨writing, files, _, located⟩ := ensureParent_brings ensured
  refine Brings.afterEnsure ensured ?_
  cases opened with
  | error error =>
      obtain rfl : _ = result := Except.ok.inj rest
      exact .refl created
  | ok dir =>
      obtain ⟨name, named, done⟩ := Run.bind_eq_ok_iff.mp rest
      obtain rfl : _ = result := Except.ok.inj done
      obtain ⟨path, above, components⟩ := located dir rfl
      obtain ⟨spot, place, rfl, rfl⟩ := VPath.exists_spot_of_parentRel above components named
      refine putBack_brings ?_
      rw [place, writing, files]
      exact inside spot place

/-- The same for a change of files alone. -/
theorem changeFiles_brings {change : FileName → Files Content → Except Error Unit × Files Content}
    {result : Except Error Unit × Meta} (ran : changeFiles io vpath store change = .ok result)
    (inside : ∀ spot : Spot, vpath.place = spot.place →
      FilesBring images (store.signatures.files spot.dir)
        (change spot.name (store.signatures.files spot.dir)).2) :
    Brings images store result.2 := by
  obtain ⟨name, named, rest⟩ := Run.bind_eq_ok_iff.mp ran
  obtain ⟨⟨opened, created⟩, ensured, done⟩ := Run.bind_eq_ok_iff.mp rest
  obtain ⟨_, files, _, located⟩ := ensureParent_brings ensured
  refine Brings.afterEnsure ensured ?_
  cases opened with
  | error error =>
      obtain rfl : _ = result := Except.ok.inj done
      exact .refl created
  | ok dir =>
      obtain rfl : _ = result := Except.ok.inj done
      obtain ⟨path, above, components⟩ := located dir rfl
      obtain ⟨spot, place, rfl, rfl⟩ := VPath.exists_spot_of_parentRel above components named
      refine Brings.setFiles ?_
      rw [files]
      exact inside spot place

/-- Finishing an upload brings what the change of its files does. -/
theorem finish_brings {change : FileName → Files Content → Except Error Unit × Files Content}
    (ran : store.finish vpath (fun store => changeFiles io vpath store change) = .ok after)
    (inside : ∀ spot : Spot, vpath.place = spot.place → spot.place ∈ store.writing →
      FilesBring images (store.signatures.files spot.dir)
        (change spot.name (store.signatures.files spot.dir)).2) :
    Brings images store after := by
  unfold Meta.finish at ran
  split at ran
  · rename_i old entry
    obtain ⟨result, changed, done⟩ := Run.bind_eq_ok_iff.mp ran
    obtain rfl := Except.ok.inj done
    have present : vpath.place ∈ store.writing :=
      Map.mem_iff_lookup_ne_none.mpr fun missing => by simp [missing] at entry
    have brings := changeFiles_brings changed fun spot located => inside spot located (located ▸ present)
    refine ⟨fun place writing found => ?_, brings.files, brings.collecting⟩
    rcases brings.writing place writing found with ⟨kept, stays, same⟩ | new
    · rw [Map.lookup_erase_eq] at stays
      split at stays
      · cases stays
      · exact Or.inl ⟨kept, stays, same⟩
    · exact Or.inr new
  · obtain rfl := Except.ok.inj ran
    exact .refl store

/-- An append brings the image that it demands. -/
theorem startAppendMarked_brings {keys : KeyFiles} {params : AppendDir}
    {result : Except Error Upload × Meta}
    (ran : startAppendMarked env io keys params store = .ok result)
    (brought : (Demand.ofAppend keys params).Admitted env → images params.image) :
    Brings images store result.2 := by
  unfold startAppendMarked at ran
  split at ran
  · obtain rfl := Except.ok.inj ran
    exact .refl store
  · rename_i directory configured
    split at ran
    · obtain rfl := Except.ok.inj ran
      exact .refl store
    · rename_i depth
      split at ran
      · obtain rfl := Except.ok.inj ran
        exact .refl store
      · obtain rfl := Except.ok.inj ran
        exact .refl store
      · rename_i passed
        have admitted : (Demand.ofAppend keys params).Admitted env :=
          ⟨directory, configured, not_not.mp depth, fun replaces => absurd rfl replaces, passed⟩
        exact underLock_brings ran fun _ _ => appendLocked_brings (brought admitted)

/-- A replacement brings the image that it demands. -/
theorem startReplaceMarked_brings {keys : KeyFiles} {params : ReplaceDir}
    {result : Except Error Upload × Meta}
    (ran : startReplaceMarked env io keys params store = .ok result)
    (brought : (Demand.ofReplace keys params).Admitted env → images params.image) :
    Brings images store result.2 := by
  unfold startReplaceMarked at ran
  split at ran
  · obtain rfl := Except.ok.inj ran
    exact .refl store
  · rename_i directory configured
    split at ran
    · obtain rfl := Except.ok.inj ran
      exact .refl store
    · rename_i depth
      split at ran
      · obtain rfl := Except.ok.inj ran
        exact .refl store
      · rename_i replaceable
        split at ran
        · obtain rfl := Except.ok.inj ran
          exact .refl store
        · obtain rfl := Except.ok.inj ran
          exact .refl store
        · rename_i passed
          have admitted : (Demand.ofReplace keys params).Admitted env :=
            ⟨directory, configured, not_not.mp depth, fun _ => by simpa using replaceable, passed⟩
          exact underLock_brings ran fun _ _ => replaceLocked_brings (brought admitted)

/-- Removing a state file brings nothing. -/
theorem removeStateFile_brings {time modified : Nat} {result : Except Error Unit × Meta}
    (ran : store.removeStateFile io vpath time modified = .ok result) :
    Brings images store result.2 := by
  have unchanged {error : Error} (same : (.error error, store) = result) :
      Brings images store result.2 := by
    subst same
    exact .refl store
  unfold Meta.removeStateFile at ran
  split at ran
  · exact unchanged (Except.ok.inj ran)
  · obtain ⟨opened, _, rest⟩ := Run.bind_eq_ok_iff.mp ran
    cases opened with
    | error error => exact unchanged (Except.ok.inj rest)
    | ok dir =>
        obtain ⟨name, _, rest⟩ := Run.bind_eq_ok_iff.mp rest
        dsimp only at rest
        split at rest
        · exact unchanged (Except.ok.inj rest)
        · split at rest
          · obtain ⟨fresher, _, rest⟩ := Run.bind_eq_ok_iff.mp rest
            split at rest
            · exact unchanged (Except.ok.inj rest)
            · obtain rfl := Except.ok.inj rest
              exact Brings.setFiles removeFile_brings
          · exact unchanged (Except.ok.inj rest)

/-- The images an operation that marks nothing can record anew: a resumed upload
takes up what a file of its path records, a commit moves what `x.new.state`
records. -/
def Op.Moves (store : Meta) : Op → ImageId → Prop
  | resumeUpload _ vpath, image =>
      ∃ spot : Spot, vpath.place = spot.place ∧ (store.record spot).writing = none ∧
        (Records (store.record spot).state image ∨ Records (store.record spot).newState image)
  | dirCommitted _ vpath, image =>
      ∃ spot : Spot, vpath.place = spot.place ∧ (store.record spot).writing ≠ none ∧
        Records (store.record spot).newState image
  | _, _ => False

/-- What demands nothing only moves images that are recorded. -/
theorem run_brings {op : Op} {answer : Answer} (plain : op.demand = none)
    (ran : Metadata.run env store op = .ok (answer, after)) : Brings (op.Moves store) store after := by
  cases op with
  | startAppend io keys params => simp [Op.demand] at plain
  | startReplace io keys params => simp [Op.demand] at plain
  | resumeUpload io vpath =>
      obtain ⟨result, resumed, done⟩ := Run.bind_eq_ok_iff.mp ran
      obtain ⟨rfl, rfl⟩ := Prod.mk.inj (Except.ok.inj done)
      unfold resumeUpload at resumed
      split at resumed
      · obtain rfl := Except.ok.inj resumed
        exact .refl store
      · split at resumed
        · obtain rfl := Except.ok.inj resumed
          exact .refl store
        · exact underLock_brings resumed fun spot located => resumeLocked_brings
            fun vacant image recorded => ⟨spot, located, vacant, recorded⟩
  | dirAborted io vpath =>
      obtain ⟨store, aborted, done⟩ := Run.bind_eq_ok_iff.mp ran
      obtain ⟨rfl, rfl⟩ := Prod.mk.inj (Except.ok.inj done)
      exact finish_brings aborted fun _ _ _ => removeFile_brings
  | dirCommitted io vpath =>
      obtain ⟨store, committed, done⟩ := Run.bind_eq_ok_iff.mp ran
      obtain ⟨rfl, rfl⟩ := Prod.mk.inj (Except.ok.inj done)
      exact finish_brings committed fun spot located present => renameFile_brings
        fun image recorded => ⟨spot, located, Map.mem_iff_lookup_ne_none.mp present, recorded⟩
  | removeStateFile io vpath time modified =>
      obtain ⟨result, removed, done⟩ := Run.bind_eq_ok_iff.mp ran
      obtain ⟨rfl, rfl⟩ := Prod.mk.inj (Except.ok.inj done)
      exact removeStateFile_brings removed

/-- Storing an index changes nothing else. -/
theorem writeIndex_kept {image : ImageId} {data partly : List UInt8}
    {result : Except Error Unit × Meta} (ran : store.writeIndex io image data partly = .ok result) :
    result.2.writing = store.writing ∧ result.2.signatures = store.signatures ∧
      result.2.collecting = store.collecting := by
  unfold Meta.writeIndex at ran
  split at ran
  · obtain rfl := Except.ok.inj ran
    exact ⟨rfl, rfl, rfl⟩
  · obtain ⟨group, _, rest⟩ := Run.bind_eq_ok_iff.mp ran
    split at rest
    · obtain rfl := Except.ok.inj rest
      exact ⟨rfl, rfl, rfl⟩
    · split at rest
      · obtain rfl := Except.ok.inj rest
        exact ⟨rfl, rfl, rfl⟩
      · obtain rfl := Except.ok.inj rest
        exact ⟨rfl, rfl, rfl⟩

/-- The image an operation records that has marked it. -/
def Pending.Brings (env : Env) (pending : Pending) (image : ImageId) : Prop :=
  ∃ demand, pending.demand = some demand ∧ demand.Admitted env ∧ demand.image = image

/-- Work brings the image that it was marked for. -/
theorem pending_brings {pending : Pending} {partly : List UInt8}
    (ran : pending.run env io partly store = .ok after) :
    Metadata.Brings (pending.Brings env) store after := by
  cases pending with
  | append keys params =>
      obtain ⟨result, started, done⟩ := Run.bind_eq_ok_iff.mp ran
      obtain rfl := Except.ok.inj done
      exact startAppendMarked_brings started fun admitted => ⟨_, rfl, admitted, rfl⟩
  | replace keys params =>
      obtain ⟨result, started, done⟩ := Run.bind_eq_ok_iff.mp ran
      obtain rfl := Except.ok.inj done
      exact startReplaceMarked_brings started fun admitted => ⟨_, rfl, admitted, rfl⟩
  | storeIndex image data =>
      obtain ⟨result, written, done⟩ := Run.bind_eq_ok_iff.mp ran
      obtain rfl := Except.ok.inj done
      obtain ⟨writing, signatures, collecting⟩ := writeIndex_kept written
      refine ⟨fun place entry found => ?_, fun dir => ?_, collecting⟩
      · rw [writing] at found
        exact Or.inl ⟨entry, found, rfl⟩
      · rw [signatures]
        exact .refl _

end Operations

namespace Work

/-- The first half of a collection, which marks images. -/
def scans : Work → Bool
  | root _ | enter _ _ | scanDir _ _ | read _ _ => true
  | listIndexes | enterIndexes _ | check _ _ | remove _ _ => false

/-- The call leads to the reading of this file. -/
def Reaches (config : Config) (dir : List FileName) (file : FileName) : Work → Prop
  | root key =>
      ∃ name directory, name.text = key ∧ [name] <+: dir ∧
        config.dirs.lookup key = some directory ∧ dir.length = directory.numLevels
  | enter upper level | scanDir upper level => upper <+: dir ∧ dir.length + 1 = upper.length + level
  | read upper name => upper = dir ∧ name = file
  | listIndexes | enterIndexes _ | check _ _ | remove _ _ => False

end Work

/-- A state file that a listing shows. -/
structure ListedState (file : FileName) : Prop where
  visible : startsWith file.text ".".toList = false
  ending : endsWith file.text stateEnding = true

/-- A listed state file is among the files that a scan visits. -/
theorem ListedState.mem_listFiles {file : FileName} (listed : ListedState file) {names : List FileName}
    (member : file ∈ names) : file ∈ listFiles names stateEnding :=
  List.mem_filter.mpr ⟨member, by rw [listed.visible, listed.ending]; rfl⟩

section Calls

variable {config : Config} {io : Io} {names : List FileName} {store after : Meta} {work : Work}
  {more : List Work}

theorem called_inj {calls : List Work} {called : Meta}
    (done : (pure (.ok calls, called) : Run (Except Error (List Work) × Meta)) = .ok (.ok more, after)) :
    calls = more ∧ called = after := by
  obtain ⟨same, rfl⟩ := Prod.mk.inj (Except.ok.inj done)
  exact ⟨Except.ok.inj same, rfl⟩

/-- All a call of the collector can do. -/
structure Leads (config : Config) (store : Meta) (work : Work) (more : List Work) (after : Meta) :
    Prop where
  writing : after.writing = store.writing
  signatures : after.signatures = store.signatures
  marks : ∀ marks, store.collecting = some marks →
    ∃ larger, after.collecting = some larger ∧ marks ⊆ larger
  kind : ∀ next ∈ more, next.scans = work.scans
  /-- A file the call leads to is read now or by what follows. -/
  reaches : ∀ marks dir file image, store.collecting = some marks → ListedState file →
    Records ((store.signatures.files dir).lookup file) image → work.Reaches config dir file →
    (∃ next ∈ more, next.Reaches config dir file) ∨
      ∃ larger, after.collecting = some larger ∧ image ∈ larger
  removals : ∀ group file, .remove group file ∈ more → work = .check group file ∧
    ∃ image, ImageId.ofHex (dropEnd file.text indexEnding.length) = some image ∧
      ∀ marks, store.collecting = some marks → image ∉ marks

/-- A record is in a directory. -/
theorem mem_dirs_of_records {dir : List FileName} {file : FileName} {image : ImageId}
    (records : Records ((store.signatures.files dir).lookup file) image) :
    dir ∈ store.signatures.dirs := by
  by_contra missing
  obtain ⟨state, found, _⟩ := records
  simp [Tree.files, Finmap.lookup_eq_none.mpr missing] at found

/-- A call that only leads to others. -/
theorem Leads.of_scan (kind : ∀ next ∈ more, next.scans = work.scans)
    (scans : work.scans = true)
    (reaches : ∀ dir file image, ListedState file →
      Records ((store.signatures.files dir).lookup file) image → work.Reaches config dir file →
      ∃ next ∈ more, next.Reaches config dir file) : Leads config store work more store := by
  refine ⟨rfl, rfl, fun marks found => ⟨marks, found, subset_rfl⟩, kind, ?_, ?_⟩
  · intro _ dir file image _ listed records reached
    exact Or.inl (reaches dir file image listed records reached)
  · intro group file member
    have same := kind _ member
    rw [scans] at same
    simp [Work.scans] at same

/-- A call of the second half, which changes no mark. -/
theorem Leads.of_sweep (writing : after.writing = store.writing)
    (signatures : after.signatures = store.signatures) (collecting : after.collecting = store.collecting)
    (kind : ∀ next ∈ more, next.scans = false) (sweeps : work.scans = false)
    (removals : ∀ group file, .remove group file ∈ more → work = .check group file ∧
      ∃ image, ImageId.ofHex (dropEnd file.text indexEnding.length) = some image ∧
        ∀ marks, store.collecting = some marks → image ∉ marks) :
    Leads config store work more after := by
  refine ⟨writing, signatures, fun marks found => ⟨marks, collecting.trans found, subset_rfl⟩,
    fun next member => (kind next member).trans sweeps.symm, ?_, removals⟩
  intro _ dir file image _ _ _ reached
  cases work <;> simp [Work.scans, Work.Reaches] at sweeps reached

/-- What a call leads to on the way to the base directories. -/
inductive Work.Calls (config : Config) (io : Io) (names : List FileName) (store : Meta) :
    Work → List Work → Prop where
  | root {name : FileName} {directory : Directory}
      (configured : config.dirs.lookup name.text = some directory)
      (present : [name] ∈ store.signatures.dirs) :
      Calls config io names store (.root name.text) [.scanDir [name] directory.numLevels]
  | noRoot {key : List Char} (missing : ∀ (name : FileName) (directory : Directory),
      name.text = key → config.dirs.lookup key = some directory → [name] ∉ store.signatures.dirs) :
      Calls config io names store (.root key) []
  | enter {dir : List FileName} {level : Nat} (present : dir ∈ store.signatures.dirs) :
      Calls config io names store (.enter dir level) [.scanDir dir level]
  | noEnter {dir : List FileName} {level : Nat} (missing : dir ∉ store.signatures.dirs) :
      Calls config io names store (.enter dir level) []
  | upper {dir : List FileName} {level : Nat} (deep : 1 < level) (nodup : names.Nodup)
      (shown : names.toFinset = store.signatures.subdirs dir) :
      Calls config io names store (.scanDir dir level)
        (names.map fun name => .enter (dir ++ [name]) (level - 1))
  | leaf {dir : List FileName} {level : Nat} (flat : ¬ 1 < level)
      (opens : io.fails .signatures = false ∧ io.fails .openDir = false)
      (present : dir ∈ store.signatures.dirs) (lists : (store.signatures.files dir).Lists names) :
      Calls config io names store (.scanDir dir level)
        ((listFiles names stateEnding).map (.read dir))
  | noLeaf {dir : List FileName} {level : Nat} (flat : ¬ 1 < level)
      (missing : dir ∉ store.signatures.dirs) :
      Calls config io names store (.scanDir dir level) []

/-- What the collector calls at a key. -/
theorem calls_root {key : List Char}
    (ran : (Work.root key).run config io names store = .ok (.ok more, after)) :
    after = store ∧ Work.Calls config io names store (.root key) more := by
  obtain ⟨_, asserted, rest⟩ := Run.bind_eq_ok_iff.mp ran
  split at rest
  · cases (Prod.mk.inj (Except.ok.inj rest)).1
  · split at rest
    · rename_i name directory named configured
      obtain rfl : name.text = key := FileName.ofText_eq_some_iff.mp named
      split at rest
      · rename_i present
        obtain ⟨rfl, rfl⟩ := called_inj rest
        exact ⟨rfl, .root configured present⟩
      · rename_i missing
        obtain ⟨rfl, rfl⟩ := called_inj rest
        refine ⟨rfl, .noRoot fun other found isKey _ => ?_⟩
        rw [FileName.ext isKey]
        exact missing
    · rename_i noName
      obtain ⟨rfl, rfl⟩ := called_inj rest
      refine ⟨rfl, .noRoot fun name directory isKey configured => ?_⟩
      exact absurd configured (noName name directory (FileName.ofText_eq_some_iff.mpr isKey))

/-- What the collector calls when it enters a directory. -/
theorem calls_enter {dir : List FileName} {level : Nat}
    (ran : (Work.enter dir level).run config io names store = .ok (.ok more, after)) :
    after = store ∧ Work.Calls config io names store (.enter dir level) more := by
  rw [Work.run] at ran
  split at ran
  · cases (Prod.mk.inj (Except.ok.inj ran)).1
  · split at ran
    · rename_i present
      obtain ⟨rfl, rfl⟩ := called_inj ran
      exact ⟨rfl, .enter present⟩
    · rename_i missing
      obtain ⟨rfl, rfl⟩ := called_inj ran
      exact ⟨rfl, .noEnter missing⟩

/-- What the collector calls when it scans a directory. -/
theorem calls_scanDir {dir : List FileName} {level : Nat}
    (lists : (Work.scanDir dir level).Lists store names)
    (ran : (Work.scanDir dir level).run config io names store = .ok (.ok more, after)) :
    after = store ∧ Work.Calls config io names store (.scanDir dir level) more := by
  rw [Work.run] at ran
  rw [Work.Lists] at lists
  split at ran
  · rename_i deep
    rw [if_pos deep] at lists
    split at ran
    · cases (Prod.mk.inj (Except.ok.inj ran)).1
    · obtain ⟨rfl, rfl⟩ := called_inj ran
      exact ⟨rfl, .upper deep lists.1 lists.2⟩
  · rename_i flat
    rw [if_neg flat] at lists
    split at ran
    · cases (Prod.mk.inj (Except.ok.inj ran)).1
    · rename_i works
      split at ran
      · cases (Prod.mk.inj (Except.ok.inj ran)).1
      · rename_i opens
        split at ran
        · rename_i present
          split at ran
          · cases (Prod.mk.inj (Except.ok.inj ran)).1
          · obtain ⟨rfl, rfl⟩ := called_inj ran
            exact ⟨rfl, .leaf flat ⟨by simpa using works, by simpa using opens⟩ present lists⟩
        · rename_i missing
          obtain ⟨rfl, rfl⟩ := called_inj ran
          exact ⟨rfl, .noLeaf flat missing⟩

/-- Nothing is further down than the last level. -/
theorem eq_of_reaches_leaf {upper dir : List FileName} {level : Nat} {file : FileName}
    (flat : ¬ 1 < level) (reached : (Work.scanDir upper level).Reaches config dir file) :
    upper = dir := by
  obtain ⟨above, depth⟩ := reached
  have shorter := above.length_le
  exact above.eq_of_length (by omega)

/-- A call leads to everything that it was called for. -/
theorem Work.Calls.leads (calls : Work.Calls config io names store work more) :
    Leads config store work more store := by
  cases calls with
  | @root name directory configured present =>
      refine .of_scan (by simp [Work.scans]) rfl fun dir file image _ _ reached => ?_
      obtain ⟨other, found, isKey, above, isDirectory, depth⟩ := reached
      obtain rfl : other = name := FileName.ext isKey
      obtain rfl := Option.some.inj (isDirectory.symm.trans configured)
      exact ⟨_, List.mem_singleton.mpr rfl, above, by simp [depth, Nat.add_comm]⟩
  | noRoot missing =>
      refine .of_scan (by simp) rfl fun dir file image _ records reached => ?_
      obtain ⟨name, directory, isKey, above, isDirectory, _⟩ := reached
      exact absurd (store.signatures.mem_of_above above (mem_dirs_of_records records))
        (missing name directory isKey isDirectory)
  | enter present =>
      exact .of_scan (by simp [Work.scans]) rfl fun _ _ _ _ _ reached =>
        ⟨_, List.mem_singleton.mpr rfl, reached⟩
  | noEnter missing =>
      refine .of_scan (by simp) rfl fun dir file image _ records reached => ?_
      exact absurd (store.signatures.mem_of_above reached.1 (mem_dirs_of_records records)) missing
  | @upper upper level deep nodup shown =>
      refine .of_scan (by simp [Work.scans]) rfl fun dir file image _ records reached => ?_
      obtain ⟨level, rfl⟩ := Nat.exists_eq_add_of_le' deep
      obtain ⟨name, member, below⟩ :=
        Below.down (fun name => mem_of_shown shown) (mem_dirs_of_records records) reached
      exact ⟨_, List.mem_map_of_mem member, below⟩
  | leaf flat opens present lists =>
      refine .of_scan (by simp [Work.scans]) rfl fun dir file image listed records reached => ?_
      obtain rfl := eq_of_reaches_leaf flat reached
      have member : file ∈ names := by
        rw [lists.2, Map.mem_iff_lookup_ne_none]
        obtain ⟨state, found, _⟩ := records
        simp [found]
      exact ⟨_, List.mem_map_of_mem (listed.mem_listFiles member), rfl, rfl⟩
  | noLeaf flat missing =>
      refine .of_scan (by simp) rfl fun dir file image _ records reached => ?_
      obtain rfl := eq_of_reaches_leaf flat reached
      exact absurd (mem_dirs_of_records records) missing

/-- Reading a state file leads to its image. -/
theorem leads_read {upper : List FileName} {name : FileName}
    (ran : (Work.read upper name).run config io names store = .ok (.ok more, after)) :
    Leads config store (.read upper name) more after := by
  rw [Work.run] at ran
  split at ran
  · cases (Prod.mk.inj (Except.ok.inj ran)).1
  · rename_i read
    obtain ⟨rfl, rfl⟩ := called_inj ran
    refine .of_scan (by simp) rfl fun dir file image _ records reached => ?_
    obtain ⟨rfl, rfl⟩ := reached
    obtain ⟨state, found, _⟩ := records
    rw [readFile_eq_none read] at found
    cases found
  · rename_i state read
    obtain ⟨rfl, rfl⟩ := called_inj ran
    refine ⟨rfl, rfl, fun marks found => ⟨insert state.image marks, ?_, Finset.subset_insert _ _⟩,
      by simp, ?_, by simp⟩
    · simp [Meta.markUsed, found]
    · intro marks dir file image collecting _ records reached
      obtain ⟨rfl, rfl⟩ := reached
      rw [readFile_eq_some read] at records
      refine Or.inr ⟨insert state.image marks, by simp [Meta.markUsed, collecting], ?_⟩
      rw [records_state records]
      exact Finset.mem_insert_self _ _

/-- Checking an index leads to its removal when it is not marked. -/
theorem leads_check {group name : FileName}
    (ran : (Work.check group name).run config io names store = .ok (.ok more, after)) :
    Leads config store (.check group name) more after := by
  rw [Work.run] at ran
  split at ran
  · obtain ⟨rfl, rfl⟩ := called_inj ran
    exact .of_sweep rfl rfl rfl (by simp) rfl (by simp)
  · cases (Prod.mk.inj (Except.ok.inj ran)).1
  · rename_i image marks parsed collecting
    split at ran
    · obtain ⟨rfl, rfl⟩ := called_inj ran
      exact .of_sweep rfl rfl rfl (by simp) rfl (by simp)
    · rename_i unmarked
      obtain ⟨rfl, rfl⟩ := called_inj ran
      refine .of_sweep rfl rfl rfl (by simp [Work.scans]) rfl fun other file member => ?_
      obtain ⟨rfl, rfl⟩ := Work.remove.inj (List.mem_singleton.mp member)
      refine ⟨rfl, image, parsed, fun found same => ?_⟩
      obtain rfl := Option.some.inj (same.symm.trans collecting)
      exact unmarked

/-- Every piece of work leads to what it was called for. -/
theorem Work.leads (lists : work.Lists store names)
    (ran : work.run config io names store = .ok (.ok more, after)) :
    Leads config store work more after := by
  cases work with
  | root key =>
      obtain ⟨rfl, calls⟩ := calls_root ran
      exact calls.leads
  | enter upper level =>
      obtain ⟨rfl, calls⟩ := calls_enter ran
      exact calls.leads
  | scanDir upper level =>
      obtain ⟨rfl, calls⟩ := calls_scanDir lists ran
      exact calls.leads
  | read upper name => exact leads_read ran
  | listIndexes =>
      rw [Work.run] at ran
      split at ran
      · cases (Prod.mk.inj (Except.ok.inj ran)).1
      · split at ran
        · cases (Prod.mk.inj (Except.ok.inj ran)).1
        · obtain ⟨rfl, rfl⟩ := called_inj ran
          exact .of_sweep rfl rfl rfl (by simp [Work.scans]) rfl (by simp)
  | enterIndexes group =>
      rw [Work.run] at ran
      split at ran
      · cases (Prod.mk.inj (Except.ok.inj ran)).1
      · split at ran
        · split at ran
          · cases (Prod.mk.inj (Except.ok.inj ran)).1
          · obtain ⟨rfl, rfl⟩ := called_inj ran
            exact .of_sweep rfl rfl rfl (by simp [Work.scans]) rfl (by simp)
        · obtain ⟨rfl, rfl⟩ := called_inj ran
          exact .of_sweep rfl rfl rfl (by simp) rfl (by simp)
  | check group name => exact leads_check ran
  | remove group name =>
      obtain ⟨rfl, rfl⟩ := called_inj ran
      exact .of_sweep rfl rfl rfl (by simp) rfl (by simp)

end Calls

/-- The collection under way knows the image as used and is not about to remove its
index. -/
def Workers.Knows (workers : Workers) (image : ImageId) : Prop :=
  match workers.gc with
  | .idle => True
  | .snapped images => image ∈ images
  | .running todo =>
      (∃ marks, workers.store.collecting = some marks ∧ image ∈ marks) ∧
        ∀ group, Work.remove group image.indexFile ∉ todo

/-- The images a step can record anew. -/
def GcOp.Brings (env : Env) (workers : Workers) : GcOp → ImageId → Prop
  | .act task _ _, image =>
      ∃ pending, workers.marked.lookup task = some pending ∧ pending.Brings env image
  | .operate op, image => op.Moves workers.store image
  | _, _ => False

/-- Whatever a step records is known to the collection under way, and a collection
starts when hidden files record only images that are being written. -/
structure Orderly (env : Env) (event : GcEvent) : Prop where
  known : ∀ image, event.op.Brings env event.before image → event.before.Knows image
  visible : event.op = .snapshot → ∀ dir file image, env.config.IsBase dir →
    startsWith file.text ".".toList = true → endsWith file.text stateEnding = true →
    Records ((event.before.store.signatures.files dir).lookup file) image →
    image ∈ event.before.store.writingImages

/-- Every image that is recorded is known, or awaits being read. -/
structure Covered (env : Env) (store : Meta) (known : ImageId → Prop)
    (awaits : List FileName → FileName → Prop) : Prop where
  writing : ∀ place writing, store.writing.lookup place = some writing → known writing.image
  files : ∀ dir file image, env.config.IsBase dir → endsWith file.text stateEnding = true →
    Records ((store.signatures.files dir).lookup file) image → known image ∨ awaits dir file

/-- A call that is still to be made leads to the file. -/
def Awaits (config : Config) (todo : List Work) (dir : List FileName) (file : FileName) : Prop :=
  startsWith file.text ".".toList = false ∧ ∃ work ∈ todo, work.Reaches config dir file

/-- The invariant of a collection that has published its images. -/
structure Running (env : Env) (store : Meta) (todo : List Work) : Prop where
  covered : ∃ marks, store.collecting = some marks ∧
    Covered env store (· ∈ marks) (Awaits env.config todo)
  ordered : todo.Pairwise fun first second => second.scans = true → first.scans = true
  removals : ∀ group image, Work.remove group image.indexFile ∈ todo → ¬ Recorded env store image

/-- What holds of the collector wherever it stands: the images it has seen cover all that is used.
-/
def GcInv (env : Env) (workers : Workers) : Prop :=
  match workers.gc with
  | .idle => True
  | .snapped images =>
      Covered env workers.store (· ∈ images) fun _ file => startsWith file.text ".".toList = false
  | .running todo => Running env workers.store todo

section Collecting

variable {env : Env} {store after : Meta} {known : ImageId → Prop}
  {awaits : List FileName → FileName → Prop}

/-- The images that are being written. -/
theorem mem_writingImages {image : ImageId} :
    image ∈ store.writingImages ↔
      ∃ place writing, store.writing.lookup place = some writing ∧ writing.image = image := by
  unfold Meta.writingImages
  rw [Finset.mem_biUnion]
  constructor
  · rintro ⟨place, _, member⟩
    rw [Option.mem_toFinset, Option.mem_def, Option.map_eq_some_iff] at member
    obtain ⟨writing, found, same⟩ := member
    exact ⟨place, writing, found, same⟩
  · rintro ⟨place, writing, found, rfl⟩
    refine ⟨place, Finmap.mem_keys.mpr ?_, by simp [found]⟩
    rw [Map.mem_iff_lookup_ne_none]
    simp [found]

/-- Where nothing awaits being read, an unknown image is not recorded. -/
theorem Covered.not_recorded (covered : Covered env store known awaits) {image : ImageId}
    (unknown : ¬ known image) (nothing : ∀ dir file, ¬ awaits dir file) :
    ¬ Recorded env store image := by
  have state (dir : List FileName) (file : FileName) (base : env.config.IsBase dir)
      (ending : endsWith file.text stateEnding = true) :
      ¬ Records ((store.signatures.files dir).lookup file) image := by
    intro records
    rcases covered.files dir file image base ending records with isKnown | waiting
    · exact unknown isKnown
    · exact nothing dir file waiting
  rintro (⟨place, writing, found, rfl⟩ | ⟨spot, base, committed | written⟩)
  · exact unknown (covered.writing place writing found)
  · exact state _ _ base (endsWith_stateFile spot.name) committed
  · exact state _ _ base (endsWith_newStateFile spot.name) written

/-- What is brought is covered as soon as it is known. -/
theorem Covered.brings {images : ImageId → Prop} (covered : Covered env store known awaits)
    (brings : Brings images store after) (isKnown : ∀ image, images image → known image) :
    Covered env after known awaits := by
  refine ⟨fun place writing found => ?_, fun dir file image base ending records => ?_⟩
  · rcases brings.writing place writing found with ⟨old, existing, same⟩ | new
    · rw [← same]
      exact covered.writing place old existing
    · exact isKnown _ new
  · rcases brings.files dir file image records with existing | new
    · exact covered.files dir file image base ending existing
    · exact Or.inl (isKnown image new)

/-- What is covered stays covered when more is known and less awaited. -/
theorem Covered.mono {known' : ImageId → Prop} {awaits' : List FileName → FileName → Prop}
    (covered : Covered env store known awaits) (writing : after.writing = store.writing)
    (signatures : after.signatures = store.signatures) (knows : ∀ image, known image → known' image)
    (waits : ∀ dir file image, env.config.IsBase dir → endsWith file.text stateEnding = true →
      Records ((store.signatures.files dir).lookup file) image → awaits dir file →
      known' image ∨ awaits' dir file) : Covered env after known' awaits' := by
  refine ⟨fun place entry found => ?_, fun dir file image base ending records => ?_⟩
  · rw [writing] at found
    exact knows _ (covered.writing place entry found)
  · rw [signatures] at records
    rcases covered.files dir file image base ending records with isKnown | waiting
    · exact Or.inl (knows image isKnown)
    · exact waits dir file image base ending records waiting

/-- An image that was not recorded and is not brought is not recorded. -/
theorem Brings.not_recorded {images : ImageId → Prop} (brings : Brings images store after)
    {image : ImageId} (unrecorded : ¬ Recorded env store image) (other : ¬ images image) :
    ¬ Recorded env after image := by
  have kept (dir : List FileName) (file : FileName)
      (records : Records ((after.signatures.files dir).lookup file) image) :
      Records ((store.signatures.files dir).lookup file) image :=
    (brings.files dir file image records).resolve_right other
  rintro (⟨place, writing, found, rfl⟩ | ⟨spot, base, committed | written⟩)
  · rcases brings.writing place writing found with ⟨old, existing, same⟩ | new
    · exact unrecorded (Or.inl ⟨place, old, existing, same⟩)
    · exact other new
  · exact unrecorded (Or.inr ⟨spot, base, Or.inl (kept _ _ committed)⟩)
  · exact unrecorded (Or.inr ⟨spot, base, Or.inr (kept _ _ written)⟩)

/-- What is recorded depends on the uploads and the state files only. -/
theorem recorded_congr {image : ImageId} (writing : after.writing = store.writing)
    (signatures : after.signatures = store.signatures) :
    Recorded env after image ↔ Recorded env store image := by
  simp only [Recorded, Meta.record, writing, signatures]

/-- An operation that records only what the collection knows keeps the invariant. -/
theorem GcInv.brings {workers next : Workers} {images : ImageId → Prop}
    (inv : GcInv env workers) (brings : Brings images workers.store next.store)
    (same : next.gc = workers.gc) (known : ∀ image, images image → workers.Knows image) :
    GcInv env next := by
  unfold GcInv at inv ⊢
  unfold Workers.Knows at known
  rw [same]
  cases stage : workers.gc with
  | idle => trivial
  | snapped taken =>
      simp only [stage] at inv known
      exact inv.brings brings known
  | running todo =>
      simp only [stage] at inv known
      obtain ⟨marks, collecting, covered⟩ := inv.covered
      refine ⟨⟨marks, brings.collecting.trans collecting, covered.brings brings ?_⟩, inv.ordered, ?_⟩
      · intro image new
        obtain ⟨⟨found, isMarks, member⟩, _⟩ := known image new
        obtain rfl := Option.some.inj (isMarks.symm.trans collecting)
        exact member
      · intro group image pending
        refine brings.not_recorded (inv.removals group image pending) fun new => ?_
        exact (known image new).2 group pending

/-- A mark changes nothing else. -/
theorem GcInv.mark {workers next : Workers} (inv : GcInv env workers) {image : ImageId}
    (marked : next.store = workers.store.markUsed image) (same : next.gc = workers.gc) :
    GcInv env next := by
  have writing : next.store.writing = workers.store.writing := by rw [marked]; rfl
  have signatures : next.store.signatures = workers.store.signatures := by rw [marked]; rfl
  unfold GcInv at inv ⊢
  rw [same]
  cases stage : workers.gc with
  | idle => trivial
  | snapped taken =>
      simp only [stage] at inv
      exact inv.mono writing signatures (fun _ isKnown => isKnown)
        fun _ _ _ _ _ _ visible => Or.inr visible
  | running todo =>
      simp only [stage] at inv
      obtain ⟨marks, collecting, covered⟩ := inv.covered
      refine ⟨⟨insert image marks, ?_, ?_⟩, inv.ordered, ?_⟩
      · rw [marked]
        simp [Meta.markUsed, collecting]
      · exact covered.mono writing signatures (fun _ member => Finset.mem_insert_of_mem member)
          fun _ _ _ _ _ _ waiting => Or.inr waiting
      · intro group other pending
        rw [recorded_congr writing signatures]
        exact inv.removals group other pending

theorem dropEnd_indexFile (image : ImageId) :
    dropEnd image.indexFile.text indexEnding.length = image.toHex :=
  dropEnd_append image.toHex indexEnding

/-- A call of the collector keeps the invariant. -/
theorem Running.call {work : Work} {rest more : List Work} (running : Running env store (work :: rest))
    (leads : Leads env.config store work more after) : Running env after (more ++ rest) := by
  obtain ⟨marks, collecting, covered⟩ := running.covered
  obtain ⟨larger, isLarger, included⟩ := leads.marks marks collecting
  obtain ⟨headed, ordered⟩ := List.pairwise_cons.mp running.ordered
  refine ⟨⟨larger, isLarger, ?_⟩, ?_, ?_⟩
  · refine covered.mono leads.writing leads.signatures (fun _ member => included member) ?_
    rintro dir file image base ending records ⟨visible, next, member, reached⟩
    rcases List.mem_cons.mp member with rfl | later
    · rcases leads.reaches marks dir file image collecting ⟨visible, ending⟩ records reached with
        ⟨following, isNext, reaches⟩ | ⟨other, isOther, marked⟩
      · exact Or.inr ⟨visible, following, List.mem_append_left _ isNext, reaches⟩
      · obtain rfl := Option.some.inj (isOther.symm.trans isLarger)
        exact Or.inl marked
    · exact Or.inr ⟨visible, next, List.mem_append_right _ later, reached⟩
  · refine List.pairwise_append.mpr ⟨?_, ordered, ?_⟩
    · refine List.pairwise_of_forall_mem_list fun first isFirst second isSecond scans => ?_
      rw [leads.kind first isFirst, ← leads.kind second isSecond]
      exact scans
    · intro first isFirst second isSecond scans
      rw [leads.kind first isFirst]
      exact headed second isSecond scans
  · intro group image pending
    rw [recorded_congr leads.writing leads.signatures]
    rcases List.mem_append.mp pending with new | old
    · obtain ⟨rfl, parsed, isParsed, unmarked⟩ := leads.removals group image.indexFile new
      rw [dropEnd_indexFile, ImageId.ofHex_toHex] at isParsed
      obtain rfl := Option.some.inj isParsed
      -- the head is a check, so no call that is left leads to a file
      refine covered.not_recorded (unmarked marks collecting) ?_
      rintro dir file ⟨_, next, member, reached⟩
      have isScan : next.scans = true := by
        cases next <;> first | rfl | exact absurd reached not_false
      rcases List.mem_cons.mp member with rfl | later
      · cases isScan
      · cases headed next later isScan
    · exact running.removals group image (List.mem_cons_of_mem _ old)

/-- The keys of the configuration lead to every base directory. -/
theorem reaches_of_isBase {dir : List FileName} {file : FileName} {keys : List (List Char)}
    (base : env.config.IsBase dir) (complete : keys.toFinset = env.config.dirs.keys) :
    ∃ work ∈ keys.map Work.root ++ [Work.listIndexes], work.Reaches env.config dir file := by
  obtain ⟨name, directory, above, configured, depth⟩ := base
  have member : name.text ∈ keys := by
    rw [← List.mem_toFinset, complete, Finmap.mem_keys, Map.mem_iff_lookup_ne_none]
    simp [configured]
  exact ⟨.root name.text, List.mem_append_left _ (List.mem_map_of_mem member), name, directory, rfl,
    above, configured, depth⟩

theorem exec_of_gcTakes {event : GcEvent} (valid : (gcMachine env).Takes event) :
    event.before.exec env event.op = some event.after := by
  obtain ⟨next, stepped, same⟩ := Option.map_eq_some_iff.mp valid
  rw [stepped, (Prod.mk.inj same).2]

/-- All a step of a thread can do. -/
inductive Workers.Moves (env : Env) (workers next : Workers) : GcOp → Prop where
  | mark {task : Nat} {pending : Pending}
      (marked : next.store = workers.store.markUsed pending.image)
      (same : next.gc = workers.gc) : Moves env workers next (.mark task pending)
  | act {task : Nat} {io : Io} {partly : List UInt8} {pending : Pending}
      (found : workers.marked.lookup task = some pending)
      (ran : pending.run env io partly workers.store = .ok next.store)
      (same : next.gc = workers.gc) : Moves env workers next (.act task io partly)
  | operate {op : Op} {answer : Answer} (plain : op.demand = none)
      (ran : Metadata.run env workers.store op = .ok (answer, next.store))
      (same : next.gc = workers.gc) : Moves env workers next (.operate op)
  | snapshot (idle : workers.gc = .idle)
      (after : next = { workers with gc := .snapped workers.store.writingImages }) :
      Moves env workers next .snapshot
  | publish {keys : List (List Char)} {images : Finset ImageId} (snapped : workers.gc = .snapped images)
      (complete : keys.Nodup ∧ keys.toFinset = env.config.dirs.keys)
      (after : next = { workers with
        store := { workers.store with collecting := some images }
        gc := .running (keys.map .root ++ [.listIndexes]) }) : Moves env workers next (.publish keys)
  | finish {io : Io} {names : List FileName} (stage : workers.gc = .running [])
      (after : next = { workers with gc := .idle }) : Moves env workers next (.collect io names)
  | call {io : Io} {names : List FileName} {work : Work} {rest more : List Work} {store : Meta}
      (stage : workers.gc = .running (work :: rest)) (lists : work.Lists workers.store names)
      (ran : work.run env.config io names workers.store = .ok (.ok more, store))
      (after : next = { workers with store := store, gc := .running (more ++ rest) }) :
      Moves env workers next (.collect io names)
  /-- The call fails or panics. -/
  | fail {io : Io} {names : List FileName} {work : Work} {rest : List Work}
      (stage : workers.gc = .running (work :: rest))
      (ran : next.store = workers.store ∨ ∃ error,
        work.run env.config io names workers.store = .ok (.error error, next.store))
      (idle : next.gc = .idle) : Moves env workers next (.collect io names)

/-- How an operation moves the collector and the workers. -/
theorem Workers.moves_of_exec {workers next : Workers} {op : GcOp}
    (stepped : workers.exec env op = some next) : workers.Moves env next op := by
  cases op with
  | mark task pending =>
      rw [Workers.exec] at stepped
      split at stepped
      · cases stepped
      · obtain rfl := Option.some.inj stepped
        exact .mark rfl rfl
  | act task io partly =>
      obtain ⟨pending, found, rest⟩ := Option.bind_eq_some_iff.mp stepped
      obtain ⟨store, ran, done⟩ := Option.bind_eq_some_iff.mp rest
      obtain rfl := Option.some.inj done
      exact .act found (Run.ok_of_toOption ran) rfl
  | operate op =>
      rw [Workers.exec] at stepped
      split at stepped
      · cases stepped
      · rename_i plain
        obtain ⟨⟨answer, store⟩, ran, done⟩ := Option.bind_eq_some_iff.mp stepped
        obtain rfl := Option.some.inj done
        exact .operate (by simpa using plain) (Run.ok_of_toOption ran) rfl
  | snapshot =>
      rw [Workers.exec] at stepped
      split at stepped
      · rename_i idle
        exact .snapshot idle (Option.some.inj stepped).symm
      · cases stepped
  | publish keys =>
      rw [Workers.exec] at stepped
      split at stepped
      · rename_i images snapped
        split at stepped
        · rename_i complete
          exact .publish snapped complete (Option.some.inj stepped).symm
        · cases stepped
      · cases stepped
  | collect io names =>
      rw [Workers.exec] at stepped
      split at stepped
      · rename_i stage
        exact .finish stage (Option.some.inj stepped).symm
      · rename_i work rest stage
        split at stepped
        · rename_i lists
          split at stepped
          · rename_i more store ran
            exact .call stage lists ran (Option.some.inj stepped).symm
          · rename_i error store ran
            obtain rfl := Option.some.inj stepped
            exact .fail stage (Or.inr ⟨error, ran⟩) rfl
          · obtain rfl := Option.some.inj stepped
            exact .fail stage (Or.inl rfl) rfl
        · cases stepped
      · cases stepped

/-- The snapshot covers what is being written, and leaves the files that a listing
shows. -/
theorem GcInv.snapshot {workers : Workers}
    (visible : ∀ dir file image, env.config.IsBase dir →
      startsWith file.text ".".toList = true → endsWith file.text stateEnding = true →
      Records ((workers.store.signatures.files dir).lookup file) image →
      image ∈ workers.store.writingImages) :
    GcInv env { workers with gc := .snapped workers.store.writingImages } := by
  refine ⟨fun place writing found => mem_writingImages.mpr ⟨place, writing, found, rfl⟩, ?_⟩
  intro dir file image base ending records
  cases isHidden : startsWith file.text ".".toList with
  | false => exact Or.inr rfl
  | true => exact Or.inl (visible dir file image base isHidden ending records)

/-- The images that are known when the collector starts cover what is used. -/
theorem GcInv.publish {workers : Workers} {images : Finset ImageId} {keys : List (List Char)}
    (inv : GcInv env workers) (stage : workers.gc = .snapped images)
    (complete : keys.toFinset = env.config.dirs.keys) :
    GcInv env { workers with
      store := { workers.store with collecting := some images }
      gc := .running (keys.map .root ++ [.listIndexes]) } := by
  simp only [GcInv, stage] at inv
  refine ⟨⟨images, rfl, inv.mono rfl rfl (fun _ isKnown => isKnown) ?_⟩, ?_, ?_⟩
  · intro dir file image base ending _ shown
    exact Or.inr ⟨shown, reaches_of_isBase base complete⟩
  · refine List.pairwise_append.mpr ⟨?_, List.pairwise_singleton _ _, ?_⟩
    · refine List.pairwise_of_forall_mem_list fun first isFirst second _ _ => ?_
      obtain ⟨key, _, rfl⟩ := List.mem_map.mp isFirst
      rfl
    · intro first _ second isSecond scans
      obtain rfl := List.mem_singleton.mp isSecond
      cases scans
  · intro group image pending
    simp at pending

/-- Every orderly step keeps the invariant. -/
theorem GcInv.step {event : GcEvent} (inv : GcInv env event.before) (orderly : Orderly env event)
    (valid : (gcMachine env).Takes event) : GcInv env event.after := by
  have known := orderly.known
  have visible := orderly.visible
  have moves := Workers.moves_of_exec (exec_of_gcTakes valid)
  generalize event.op = op at moves known visible
  cases moves with
  | mark marked same => exact inv.mark marked same
  | act found ran same =>
      exact inv.brings (pending_brings ran) same fun image new => known image ⟨_, found, new⟩
  | operate plain ran same => exact inv.brings (run_brings plain ran) same known
  | snapshot idle after =>
      rw [after]
      exact GcInv.snapshot (visible rfl)
  | publish snapped complete after =>
      rw [after]
      exact inv.publish snapped complete.2
  | finish stage after =>
      rw [after]
      trivial
  | call stage lists ran after =>
      simp only [GcInv, stage] at inv
      rw [after]
      exact inv.call (Work.leads lists ran)
  | fail stage ran idle => simp only [GcInv, idle]

end Collecting

/-- A call marks an image, or removes an index, or changes nothing. -/
theorem Work.run_store {config : Config} {io : Io} {names : List FileName} {store after : Meta}
    {work : Work} {result : Except Error (List Work)}
    (ran : work.run config io names store = .ok (result, after)) :
    after = store ∨ (∃ image, after = store.markUsed image) ∨ ∃ group file, work = .remove group file ∧
      after = { store with
        indexes := store.indexes.setFiles [group]
          (removeFile io (store.indexes.files [group]) file).2 } := by
  have unchanged {other : Except Error (List Work)}
      (done : (pure (other, store) : Run (Except Error (List Work) × Meta)) = .ok (result, after)) :
      after = store :=
    (Prod.mk.inj (Except.ok.inj done)).2.symm
  cases work with
  | remove group file =>
      obtain ⟨_, rfl⟩ := Prod.mk.inj (Except.ok.inj ran)
      exact Or.inr (Or.inr ⟨group, file, rfl, rfl⟩)
  | root key =>
      left
      obtain ⟨_, _, rest⟩ := Run.bind_eq_ok_iff.mp ran
      repeat' split at rest
      all_goals exact unchanged rest
  | read dir file =>
      rw [Work.run] at ran
      split at ran
      · exact Or.inl (unchanged ran)
      · exact Or.inl (unchanged ran)
      · obtain ⟨_, rfl⟩ := Prod.mk.inj (Except.ok.inj ran)
        exact Or.inr (Or.inl ⟨_, rfl⟩)
  | _ =>
      left
      rw [Work.run] at ran
      repeat' split at ran
      all_goals exact unchanged ran

/-- Only a removal changes the index files. -/
theorem Work.run_indexes {config : Config} {io : Io} {names : List FileName} {store after : Meta}
    {work : Work} {result : Except Error (List Work)}
    (ran : work.run config io names store = .ok (result, after)) :
    after.indexes = store.indexes ∨ ∃ group file, work = .remove group file ∧
      after.indexes = store.indexes.setFiles [group]
        (removeFile io (store.indexes.files [group]) file).2 := by
  obtain rfl | ⟨image, rfl⟩ | ⟨group, file, isRemove, rfl⟩ := Work.run_store ran
  · exact Or.inl rfl
  · exact Or.inl rfl
  · exact Or.inr ⟨group, file, isRemove, rfl⟩

/-- No call changes the signatures. -/
theorem Work.run_signatures {config : Config} {io : Io} {names : List FileName} {store after : Meta}
    {work : Work} {result : Except Error (List Work)}
    (ran : work.run config io names store = .ok (result, after)) :
    after.signatures = store.signatures := by
  obtain rfl | ⟨image, rfl⟩ | ⟨group, file, _, rfl⟩ := Work.run_store ran <;> rfl

/-- An index file that a step of the collector takes away was the next to be
removed. -/
theorem Collects.removes {env : Env} {event : GcEvent} {image : ImageId}
    (collects : Collects event image) (valid : (gcMachine env).Takes event) :
    ∃ group rest, event.before.gc = .running (.remove group image.indexFile :: rest) := by
  obtain ⟨⟨io, names, kind⟩, group, present, gone⟩ := collects
  have changed {store : Meta} {work : Work} {result : Except Error (List Work)}
      (ran : work.run env.config io names event.before.store = .ok (result, store))
      (missing : image.indexFile ∉ store.indexes.files [group]) :
      work = .remove group image.indexFile := by
    rcases Work.run_indexes ran with same | ⟨other, file, rfl, removed⟩
    · rw [same] at missing
      exact absurd present missing
    · rw [removed, Tree.files_setFiles] at missing
      split at missing
      · rename_i sameGroup
        obtain rfl := List.singleton_inj.mp sameGroup
        by_cases sameFile : image.indexFile = file
        · rw [sameFile]
        · rw [Map.mem_iff_lookup_ne_none, lookup_removeFile sameFile,
            ← Map.mem_iff_lookup_ne_none] at missing
          exact absurd present missing
      · exact absurd present missing
  have moves := Workers.moves_of_exec (exec_of_gcTakes valid)
  rw [kind] at moves
  cases moves with
  | finish stage after =>
      rw [after] at gone
      exact absurd present gone
  | @call _ _ work rest more store stage lists ran after =>
      rw [after] at gone
      exact ⟨group, rest, by rw [stage, changed ran gone]⟩
  | @fail _ _ work rest stage ran idle =>
      rcases ran with same | ⟨error, ran⟩
      · rw [same] at gone
        exact absurd present gone
      · exact ⟨group, rest, by rw [stage, changed ran gone]⟩

/-- In every orderly run, an index file that the collector removes belongs to an image
that is recorded nowhere at that moment. -/
theorem collected_unrecorded {env : Env} {signatures : Tree Content} {indexes : Tree (List UInt8)}
    {trace : List GcEvent} {finish : Workers}
    (steps : (gcMachine env).Steps (Workers.new signatures indexes) trace finish)
    (orderly : ∀ event ∈ trace, Orderly env event) {event : GcEvent} (member : event ∈ trace)
    {image : ImageId} (collects : Collects event image) :
    ¬ Recorded env event.before.store image := by
  have inv := (steps.preserves (GcInv env) (Orderly env)
    (fun _ valid allowed inv => inv.step allowed valid) orderly trivial).2 event member
  obtain ⟨group, rest, stage⟩ := collects.removes (steps.takes_of_mem member)
  have running : Running env event.before.store (.remove group image.indexFile :: rest) := by
    simpa only [GcInv, stage] using inv.1
  exact running.removals group image List.mem_cons_self

namespace Sample

/-- The directory of the index of the example. -/
def group : FileName := ⟨['0', '1'], by decide, by decide, by decide, by decide⟩

/-- Store the index of an image. -/
def storing : List GcOp := [.mark 0 (.storeIndex (image 1) [1, 2]), .act 0 Io.working []]

/-- The second half of a collection over the index of the image. -/
def sweeping : List GcOp :=
  [.collect Io.working [group], .collect Io.working [(image 1).indexFile], .collect Io.working [],
    .collect Io.working []]

/-- A collection while nothing is recorded. -/
def collecting : List GcOp :=
  storing ++ [.snapshot, .publish ["k".toList], .collect Io.working []] ++ sweeping

/-- Commit an image, resume it between the listing and the reading of its file, and
go on with the collection. -/
def resuming : List GcOp :=
  storing ++ [.mark 1 (.append keys ⟨path, image 1, 5, [signature 1]⟩), .act 1 Io.working [],
    .operate commit, .snapshot, .publish ["k".toList], .collect Io.working [],
    .collect Io.working [stateFile name], .operate resume, .collect Io.working []] ++ sweeping

end Sample

/-- The index of an image that nobody uses is removed. -/
theorem collected_unrecorded_unused :
    let run := (gcMachine (Sample.env false)).play (Workers.new .empty .empty) Sample.collecting
    ∃ event ∈ run.1, Collects event (Sample.image 1) ∧
      ¬ Recorded (Sample.env false) event.before.store (Sample.image 1) := by
  intro run
  have nothing : ∀ event ∈ run.1, event.before.store.signatures = .empty := by decide
  have plain : ∀ event ∈ run.1, ((event.before.marked.lookup 0).bind Pending.demand).isNone = true := by
    decide
  have ops : ∀ event ∈ run.1, event.op ∈ Sample.collecting :=
    fun event member => Machine.Steps.op_mem_of_play member
  have last : run.1.get ⟨8, by decide⟩ ∈ run.1 := List.get_mem _ _
  have collects : Collects (run.1.get ⟨8, by decide⟩) (Sample.image 1) :=
    ⟨⟨_, _, rfl⟩, Sample.group, by decide, by decide⟩
  refine ⟨_, last, collects, collected_unrecorded (Machine.Steps.of_play _ _ _) ?_ last collects⟩
  intro event member
  refine ⟨fun image brings => ?_, fun _ dir file image _ _ _ records => ?_⟩
  · have isOp := ops event member
    cases kind : event.op with
    | act task io partly =>
        rw [kind] at brings isOp
        obtain ⟨pending, found, demand, asked, _⟩ := brings
        obtain rfl : task = 0 := by
          simp only [Sample.collecting, Sample.storing, Sample.sweeping] at isOp
          simp at isOp
          exact isOp.1
        have free := plain event member
        rw [found, Option.bind_some, asked] at free
        cases free
    | operate op =>
        rw [kind] at isOp
        simp [Sample.collecting, Sample.storing, Sample.sweeping] at isOp
    | mark => rw [kind] at brings; exact brings.elim
    | snapshot => rw [kind] at brings; exact brings.elim
    | publish => rw [kind] at brings; exact brings.elim
    | collect => rw [kind] at brings; exact brings.elim
  · rw [nothing event member] at records
    obtain ⟨state, found, _⟩ := records
    cases found

/-- An upload is resumed while its directory is collected, and its index is removed. -/
theorem resumed_is_collected :
    let run := (gcMachine (Sample.env false)).play (Workers.new .empty .empty) Sample.resuming
    ∃ event ∈ run.1, Collects event (Sample.image 1) ∧
      Recorded (Sample.env false) event.before.store (Sample.image 1) := by
  intro run
  refine ⟨run.1.get ⟨14, by decide⟩, List.get_mem _ _, ?_, Or.inl ?_⟩
  · exact ⟨⟨_, _, rfl⟩, Sample.group, by decide, by decide⟩
  · exact ⟨Sample.spot.place, ⟨Sample.image 1, [⟨5, Sample.signature 1⟩], false⟩, by decide, rfl⟩

end Metadata

end Ciruela
