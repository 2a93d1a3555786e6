import Ciruela.Daemon.Metadata.FirstScan
import Ciruela.Daemon.Metadata.UsedImages

/-!
# Base directories

The directory above an upload is made before the upload is accepted, and no operation removes a
directory of the signatures. So what was accepted once is below a base directory from then on.
`first_scan` reports these directories, and the collector opens them to see which images are
used. They are two programs for one walk.
-/

namespace Ciruela

open Foundation

namespace Metadata

/-- No directory of the signatures is gone. -/
def KeepsDirs (before after : Meta) : Prop :=
  ∀ dir ∈ before.signatures.dirs, dir ∈ after.signatures.dirs

/-- The path is an image of a base directory that is there. -/
def Hosted (env : Env) (store : Meta) (vpath : VPath) : Prop :=
  ∃ spot : Spot, vpath.place = spot.place ∧ spot.dir ∈ store.signatures.dirs ∧
    env.config.IsBase spot.dir

section Kept

variable {env : Env} {io : Io} {vpath : VPath} {store after : Meta}

theorem KeepsDirs.refl (store : Meta) : KeepsDirs store store := fun _ present => present

theorem KeepsDirs.trans {middle : Meta} (first : KeepsDirs store middle)
    (second : KeepsDirs middle after) : KeepsDirs store after :=
  fun dir present => second dir (first dir present)

theorem KeepsDirs.of_eq (same : after.signatures = store.signatures) : KeepsDirs store after :=
  fun _ present => same ▸ present

theorem KeepsDirs.setFiles (dir : List FileName) (files : Files Content) :
    KeepsDirs store { store with signatures := store.signatures.setFiles dir files } :=
  fun _ present => (Tree.mem_setFiles _ _ _ _).mpr (Or.inl present)

/-- Making sure of the parent loses no directory. -/
theorem ensureParent_dirs {result : Except Error (List FileName)}
    (ran : store.ensureParent io vpath = .ok (result, after)) : KeepsDirs store after := by
  unfold Meta.ensureParent at ran
  split at ran
  · obtain ⟨-, rfl⟩ := Prod.mk.inj (Except.ok.inj ran)
    exact .refl store
  · obtain ⟨parentRel, _, rest⟩ := Run.bind_eq_ok_iff.mp ran
    split at rest
    · obtain ⟨-, rfl⟩ := Prod.mk.inj (Except.ok.inj rest)
      exact .refl store
    · obtain ⟨-, rfl⟩ := Prod.mk.inj (Except.ok.inj rest)
      exact fun dir present => (Tree.mem_ensureDir _ _ _).mpr (Or.inl present)

/-- What is done under the lock is done below a directory that is there. -/
theorem underLock_dirs {Answer : Type}
    {locked : FileName → Option Writing → Files Content → Locked Answer}
    {result : Except Error Answer × Meta} (ran : underLock io store vpath locked = .ok result) :
    KeepsDirs store result.2 ∧ ∀ answer, result.1 = .ok answer →
      ∃ spot : Spot, vpath.place = spot.place ∧ spot.dir ∈ result.2.signatures.dirs := by
  obtain ⟨⟨opened, created⟩, ensured, rest⟩ := Run.bind_eq_ok_iff.mp ran
  have keeps := ensureParent_dirs ensured
  obtain ⟨_, _, _, located⟩ := ensureParent_brings ensured
  cases opened with
  | error error =>
      obtain rfl : _ = result := Except.ok.inj rest
      exact ⟨keeps, nofun⟩
  | ok dir =>
      obtain ⟨name, named, done⟩ := Run.bind_eq_ok_iff.mp rest
      obtain rfl : _ = result := Except.ok.inj done
      obtain ⟨path, above, components⟩ := located dir rfl
      obtain ⟨spot, place, rfl, rfl⟩ := VPath.exists_spot_of_parentRel above components named
      refine ⟨keeps.trans (KeepsDirs.setFiles _ _), fun _ _ => ⟨spot, place, ?_⟩⟩
      exact (Tree.mem_setFiles _ _ _ _).mpr (Or.inr (List.prefix_refl _))

/-- Changing files loses no directory. -/
theorem changeFiles_dirs {change : FileName → Files Content → Except Error Unit × Files Content}
    {result : Except Error Unit × Meta} (ran : changeFiles io vpath store change = .ok result) :
    KeepsDirs store result.2 := by
  obtain ⟨name, _, rest⟩ := Run.bind_eq_ok_iff.mp ran
  obtain ⟨⟨opened, created⟩, ensured, done⟩ := Run.bind_eq_ok_iff.mp rest
  have keeps := ensureParent_dirs ensured
  cases opened with
  | error error =>
      obtain rfl : _ = result := Except.ok.inj done
      exact keeps
  | ok dir =>
      obtain rfl : _ = result := Except.ok.inj done
      exact keeps.trans (KeepsDirs.setFiles _ _)

/-- Finishing an upload loses no directory. -/
theorem finish_dirs {change : FileName → Files Content → Except Error Unit × Files Content}
    (ran : store.finish vpath (fun store => changeFiles io vpath store change) = .ok after) :
    KeepsDirs store after := by
  unfold Meta.finish at ran
  split at ran
  · obtain ⟨result, changed, done⟩ := Run.bind_eq_ok_iff.mp ran
    obtain rfl := Except.ok.inj done
    have keeps : KeepsDirs { store with writing := store.writing.erase vpath.place } result.2 :=
      changeFiles_dirs changed
    exact keeps
  · obtain rfl := Except.ok.inj ran
    exact .refl store

/-- Removing a state file loses no directory. -/
theorem removeStateFile_dirs {time modified : Nat} {result : Except Error Unit × Meta}
    (ran : store.removeStateFile io vpath time modified = .ok result) : KeepsDirs store result.2 := by
  have unchanged {error : Error} (same : (.error error, store) = result) :
      KeepsDirs store result.2 := by
    subst same
    exact .refl store
  unfold Meta.removeStateFile at ran
  split at ran
  · exact unchanged (Except.ok.inj ran)
  · obtain ⟨opened, _, rest⟩ := Run.bind_eq_ok_iff.mp ran
    cases opened with
    | error error => exact unchanged (Except.ok.inj rest)
    | ok dir =>
        obtain ⟨name, _, rest⟩ := Run.bind_eq_ok_iff.mp rest
        dsimp only at rest
        split at rest
        · exact unchanged (Except.ok.inj rest)
        · split at rest
          · obtain ⟨fresher, _, rest⟩ := Run.bind_eq_ok_iff.mp rest
            split at rest
            · exact unchanged (Except.ok.inj rest)
            · obtain rfl := Except.ok.inj rest
              exact KeepsDirs.setFiles _ _
          · exact unchanged (Except.ok.inj rest)

/-- An upload is refused before the lock, or its path is as deep as is configured and the rest is
done under the lock. -/
def Asks (env : Env) (io : Io) (store : Meta) (vpath : VPath)
    (result : Except Error Upload × Meta) : Prop :=
  result.2 = store ∧ (∀ accept, result.1 ≠ .ok (.accepted accept)) ∨
    ∃ directory locked, env.config.dirs.lookup vpath.key = some directory ∧
      vpath.level = directory.numLevels ∧ underLock io store vpath locked = .ok result

/-- An append asks for its path. -/
theorem startAppendMarked_asks {keys : KeyFiles} {params : AppendDir}
    {result : Except Error Upload × Meta}
    (ran : startAppendMarked env io keys params store = .ok result) :
    Asks env io store params.path result := by
  unfold startAppendMarked at ran
  split at ran
  · obtain rfl := Except.ok.inj ran
    exact Or.inl ⟨rfl, nofun⟩
  · rename_i directory configured
    split at ran
    · obtain rfl := Except.ok.inj ran
      exact Or.inl ⟨rfl, nofun⟩
    · rename_i depth
      split at ran
      · obtain rfl := Except.ok.inj ran
        exact Or.inl ⟨rfl, nofun⟩
      · obtain rfl := Except.ok.inj ran
        exact Or.inl ⟨rfl, nofun⟩
      · exact Or.inr ⟨directory, _, configured, not_not.mp depth, ran⟩

/-- A replacement asks for its path. -/
theorem startReplaceMarked_asks {keys : KeyFiles} {params : ReplaceDir}
    {result : Except Error Upload × Meta}
    (ran : startReplaceMarked env io keys params store = .ok result) :
    Asks env io store params.path result := by
  unfold startReplaceMarked at ran
  split at ran
  · obtain rfl := Except.ok.inj ran
    exact Or.inl ⟨rfl, nofun⟩
  · rename_i directory configured
    split at ran
    · obtain rfl := Except.ok.inj ran
      exact Or.inl ⟨rfl, nofun⟩
    · rename_i depth
      split at ran
      · obtain rfl := Except.ok.inj ran
        exact Or.inl ⟨rfl, nofun⟩
      · split at ran
        · obtain rfl := Except.ok.inj ran
          exact Or.inl ⟨rfl, nofun⟩
        · obtain rfl := Except.ok.inj ran
          exact Or.inl ⟨rfl, nofun⟩
        · exact Or.inr ⟨directory, _, configured, not_not.mp depth, ran⟩

/-- What asks for a path loses no directory. -/
theorem Asks.dirs {result : Except Error Upload × Meta} (asks : Asks env io store vpath result) :
    KeepsDirs store result.2 := by
  obtain ⟨same, _⟩ | ⟨_, _, _, _, ran⟩ := asks
  · exact .of_eq (congrArg Meta.signatures same)
  · exact (underLock_dirs ran).1

/-- An accepted upload is below a base directory that is there. -/
theorem Asks.hosted {accept : Accept}
    (asks : Asks env io store vpath (.ok (.accepted accept), after)) : Hosted env after vpath := by
  obtain ⟨_, refused⟩ | ⟨directory, _, configured, depth, ran⟩ := asks
  · exact absurd rfl (refused accept)
  · obtain ⟨spot, located, present⟩ := (underLock_dirs ran).2 _ rfl
    refine ⟨spot, located, present, spot.dir.head spot.deep, directory, ?_, ?_, ?_⟩
    · exact ⟨spot.dir.tail, List.cons_head_tail spot.deep⟩
    · rw [← VPath.key_at located, configured]
    · rw [← VPath.level_at located, depth]

/-- No operation loses a directory, and an accepted one has the directory of its path. -/
theorem run_dirs {op : Op} {answer : Answer} (ran : Metadata.run env store op = .ok (answer, after)) :
    KeepsDirs store after ∧ ∀ accept, answer = accepted accept → Hosted env after op.vpath := by
  cases op with
  | startAppend io keys params =>
      obtain ⟨result, appended, done⟩ := Run.bind_eq_ok_iff.mp ran
      obtain ⟨rfl, rfl⟩ := Prod.mk.inj (Except.ok.inj done)
      have asks := startAppendMarked_asks appended
      refine ⟨asks.dirs, fun accept same => ?_⟩
      obtain ⟨answer, after⟩ := result
      obtain rfl := Answer.upload.inj same
      exact asks.hosted
  | startReplace io keys params =>
      obtain ⟨result, replaced, done⟩ := Run.bind_eq_ok_iff.mp ran
      obtain ⟨rfl, rfl⟩ := Prod.mk.inj (Except.ok.inj done)
      have asks := startReplaceMarked_asks replaced
      refine ⟨asks.dirs, fun accept same => ?_⟩
      obtain ⟨answer, after⟩ := result
      obtain rfl := Answer.upload.inj same
      exact asks.hosted
  | resumeUpload io vpath =>
      obtain ⟨result, resumed, done⟩ := Run.bind_eq_ok_iff.mp ran
      obtain ⟨rfl, rfl⟩ := Prod.mk.inj (Except.ok.inj done)
      refine ⟨?_, nofun⟩
      unfold resumeUpload at resumed
      split at resumed
      · obtain rfl := Except.ok.inj resumed
        exact .refl store
      · split at resumed
        · obtain rfl := Except.ok.inj resumed
          exact .refl store
        · exact (underLock_dirs resumed).1
  | dirAborted io vpath =>
      obtain ⟨store, aborted, done⟩ := Run.bind_eq_ok_iff.mp ran
      obtain ⟨rfl, rfl⟩ := Prod.mk.inj (Except.ok.inj done)
      exact ⟨finish_dirs aborted, nofun⟩
  | dirCommitted io vpath =>
      obtain ⟨store, committed, done⟩ := Run.bind_eq_ok_iff.mp ran
      obtain ⟨rfl, rfl⟩ := Prod.mk.inj (Except.ok.inj done)
      exact ⟨finish_dirs committed, nofun⟩
  | removeStateFile io vpath time modified =>
      obtain ⟨result, removed, done⟩ := Run.bind_eq_ok_iff.mp ran
      obtain ⟨rfl, rfl⟩ := Prod.mk.inj (Except.ok.inj done)
      exact ⟨removeStateFile_dirs removed, nofun⟩

end Kept

/-- What the daemon does, and its start after it has ended in any way. -/
inductive LifeOp where
  | operate (op : Op)
  | restart

/-- The metadata over any number of starts. What is on the disk stays. -/
def lives (env : Env) : Machine Meta LifeOp (Option Answer) where
  exec store
    | .operate op =>
        (Metadata.run env store op).toOption.map fun (answer, after) => (some answer, after)
    | .restart => some (none, Meta.new store.signatures store.indexes)

/-- A step in the life of the metadata. -/
abbrev LifeEvent := Transition Meta LifeOp (Option Answer)

/-- The operation has accepted an upload to the path. -/
def Accepts (event : LifeEvent) (vpath : VPath) : Prop :=
  ∃ op accept, event.op = .operate op ∧ op.vpath = vpath ∧ event.answer = some (accepted accept)

section Lives

variable {env : Env} {event : LifeEvent}

/-- A path stays hosted as long as no directory is lost. -/
theorem Hosted.keeps {before after : Meta} {vpath : VPath} (hosted : Hosted env before vpath)
    (keeps : KeepsDirs before after) : Hosted env after vpath := by
  obtain ⟨spot, located, present, base⟩ := hosted
  exact ⟨spot, located, keeps _ present, base⟩

/-- No step in the life of the metadata loses a directory, and what it accepts is hosted. -/
theorem lives_step (valid : (lives env).Takes event) :
    KeepsDirs event.before event.after ∧
      ∀ vpath, Accepts event vpath → Hosted env event.after vpath := by
  obtain ⟨before, op, answer, after⟩ := event
  cases op with
  | operate op =>
      obtain ⟨⟨answer', after'⟩, ran, same⟩ := Option.map_eq_some_iff.mp valid
      obtain ⟨rfl, rfl⟩ := Prod.mk.inj same
      obtain ⟨keeps, hosts⟩ := run_dirs (Run.ok_of_toOption ran)
      refine ⟨keeps, fun vpath accepts => ?_⟩
      obtain ⟨op', accept, isOp, rfl, isAnswer⟩ := accepts
      obtain rfl := LifeOp.operate.inj isOp
      exact hosts accept (Option.some.inj isAnswer)
  | restart =>
      have moved : (none, Meta.new before.signatures before.indexes) = (answer, after) :=
        Option.some.inj valid
      obtain ⟨rfl, rfl⟩ := Prod.mk.inj moved
      refine ⟨.of_eq rfl, fun vpath accepts => ?_⟩
      obtain ⟨_, _, isOp, _⟩ := accepts
      cases isOp

/-- What was accepted is hosted from then on. -/
theorem hosted_of_accepts {start finish : Meta} {trace : List LifeEvent}
    (steps : (lives env).Steps start trace finish) :
    ∀ event ∈ trace, ∀ vpath, Accepts event vpath → Hosted env finish vpath := by
  refine steps.preserves_history
    (fun history store => ∀ event ∈ history, ∀ vpath, Accepts event vpath → Hosted env store vpath)
    (fun _ => True) (fun history taken valid _ hosted event member vpath accepts => ?_)
    (fun _ _ => trivial) (by simp)
  obtain ⟨keeps, hosts⟩ := lives_step valid
  rcases List.mem_append.mp member with old | last
  · exact (hosted event old vpath accepts).keeps keeps
  · obtain rfl := List.mem_singleton.mp last
    exact hosts vpath accepts

end Lives

end Metadata

end Ciruela
