import Ciruela.Daemon.Disk.Images
import Ciruela.Foundation.Machine

/-!
# Images next to each other

The directories an image passes through, `.tmp.x`, `.tmp.old.x` and `.tmp.old..tmp.x`, are
next to the images of the same parent and are named like them. A name from the wire can be
any name of a file, so one of these can be the directory of another image.

The machine takes the steps of the disk operations for the images of one parent, in any
order. `write_block` and the checks of `commit_image` work on the directory that
`start_image` has opened; here it is the one called `.tmp.x`.
-/

namespace Ciruela

open Foundation

namespace Disk

open Metadata (tmpFile)

variable {Folder : Type}

/-- A step of a disk operation. -/
inductive Step (Folder : Type) where
  /-- One of the actions of `start_image`, of `remove_image` or of the removal of what was
  in the place of an image. -/
  | act (action : Action)
  /-- `write_block`, or what `commit_image` does to the files. -/
  | write (folder : Folder)
  /-- The end of `commit_image`. -/
  | switch (found : Bool)

/-- The actions of the operations for an image. -/
def actions (name : FileName) : List Action :=
  startImage name ++ removeDirRecursive (tmpFile name) ++ removeImage name

/-- A step at a name of the directory. Blocks are written only where the image was started. -/
def Step.apply (empty : Folder) (name : FileName) (disk : Files Folder) :
    Step Folder → Option (Files Folder)
  | .act action => if action ∈ actions name then some (action.apply empty disk) else none
  | .write folder =>
      if tmpFile name ∈ disk then some (disk.insert (tmpFile name) folder) else none
  | .switch found => Disk.switch name found disk

/-- A step for the image at a path. -/
structure DiskOp (Folder : Type) where
  vpath : VPath
  step : Step Folder

/-- The disk operations for the images right below a directory. The paths are those that
can be received. -/
def siblings (empty : Folder) (parent : List FileName) : Machine (Files Folder) (DiskOp Folder) Unit where
  exec disk op :=
    if VPath.checkPath op.vpath.path = true ∧ op.vpath.names.dropLast = parent then do
      let name ← op.vpath.finalName.toOption
      let after ← op.step.apply empty name disk
      return ((), after)
    else none

/-- On no run does a step for the first image change the directory of the second or the one
it is downloaded to. -/
def Spares (empty : Folder) (first second : VPath) : Prop :=
  ∀ start trace finish, (siblings empty first.names.dropLast).Steps start trace finish →
    ∀ event ∈ trace, event.op.vpath.place = first.place →
      ∀ name, second.finalName = .ok name →
        event.after.lookup name = event.before.lookup name ∧
          event.after.lookup (tmpFile name) = event.before.lookup (tmpFile name)

/-- The second name is one of those that are made from the first, or makes one of them. -/
def Clash (first second : FileName) : Prop :=
  first = tmpFile second ∨ second = tmpFile first ∨
    second = oldFile first ∨ second.text = "old.".toList ++ first.text ∨
      second = oldFile (tmpFile first) ∨ second.text = "old..tmp.".toList ++ first.text

instance (first second : FileName) : Decidable (Clash first second) :=
  inferInstanceAs (Decidable (_ ∨ _))

/-- The names the operations for an image work on. -/
def touched (name : FileName) : List FileName :=
  [name, tmpFile name, oldFile name, oldFile (tmpFile name)]

section Names

variable {name other : FileName} {empty : Folder} {disk after : Files Folder}

/-- The actions at a name touch only what belongs to it. -/
theorem names_of_actions {action : Action} (member : action ∈ actions name) :
    ∀ touchedName ∈ action.names, touchedName ∈ touched name := by
  simp only [actions, startImage, removeImage, removeDirRecursive, List.cons_append,
    List.nil_append, List.mem_cons, List.not_mem_nil, or_false] at member
  rcases member with rfl | rfl | rfl | rfl | rfl | rfl | rfl | rfl | rfl | rfl
  all_goals simp [Action.names, touched]

/-- The switch at a name leaves other names alone. -/
theorem lookup_switch_of_ne {found : Bool} (switched : switch name found disk = some after)
    (notName : other ≠ name) (notTmp : other ≠ tmpFile name) :
    after.lookup other = disk.lookup other := by
  unfold switch at switched
  split at switched
  · obtain ⟨one, _, switched⟩ := Option.bind_eq_some_iff.mp switched
    obtain ⟨two, _, switched⟩ := Option.bind_eq_some_iff.mp switched
    obtain rfl := Option.some.inj switched
    rw [Map.lookup_insert_eq, if_neg notName, Map.lookup_insert_eq, if_neg notTmp]
  · obtain ⟨folder, _, rfl⟩ := Files.rename_eq_some_iff.mp switched
    rw [Map.lookup_insert_eq, if_neg notName, Map.lookup_erase_eq, if_neg notTmp]

/-- A step for an image changes nothing under other names. -/
theorem Step.lookup_apply {step : Step Folder} (applied : step.apply empty name disk = some after)
    (outside : other ∉ touched name) : after.lookup other = disk.lookup other := by
  cases step with
  | act action =>
      rw [Step.apply] at applied
      split at applied
      · rename_i member
        obtain rfl := Option.some.inj applied
        exact Action.lookup_apply fun here => outside (names_of_actions member other here)
      · cases applied
  | write folder =>
      have notTmp : other ≠ tmpFile name := fun same => outside (by simp [touched, same])
      rw [Step.apply] at applied
      split at applied
      · obtain rfl := Option.some.inj applied
        rw [Map.lookup_insert_eq, if_neg notTmp]
      · cases applied
  | switch found =>
      exact lookup_switch_of_ne applied (fun same => outside (by simp [touched, same]))
        fun same => outside (by simp [touched, same])

/-- Every name the operations work on is one that they move aside or clear. -/
theorem exists_action_of_touched (member : other ∈ touched name) (folder : Folder) :
    ∃ action ∈ actions name, (action.apply empty (Finmap.singleton other folder)).lookup other = none := by
  simp only [touched, List.mem_cons, List.not_mem_nil, or_false] at member
  rcases member with rfl | rfl | rfl | rfl
  · exact ⟨.moveAside other, by simp [actions, removeImage, removeDirRecursive],
      lookup_moveAside empty _ other⟩
  · exact ⟨.moveAside (tmpFile name), by simp [actions, startImage, removeDirRecursive],
      lookup_moveAside empty _ _⟩
  · refine ⟨.clear (oldFile name), by simp [actions, removeImage, removeDirRecursive], ?_⟩
    rw [Action.apply, Map.lookup_erase_eq, if_pos rfl]
  · refine ⟨.clear (oldFile (tmpFile name)), by simp [actions, startImage, removeDirRecursive], ?_⟩
    rw [Action.apply, Map.lookup_erase_eq, if_pos rfl]

theorem tmpFile_text (name : FileName) : (tmpFile name).text = ".tmp.".toList ++ name.text := rfl

theorem tmpFile_injective : Function.Injective tmpFile := by
  intro first second same
  have texts := congrArg FileName.text same
  rw [tmpFile_text, tmpFile_text] at texts
  exact FileName.ext (List.append_cancel_left texts)

/-- When the temporary name of an image is the old name of another. -/
theorem tmpFile_eq_oldFile_iff {first second : FileName} :
    tmpFile second = oldFile first ↔ second.text = "old.".toList ++ first.text := by
  have split : (oldFile first).text = ".tmp.".toList ++ ("old.".toList ++ first.text) := rfl
  rw [FileName.ext_iff, split, tmpFile_text, List.append_cancel_left_eq]

/-- Different names clash where the operations for the first work on one of the two
directories of the second. -/
theorem clash_iff {first second : FileName} (different : first ≠ second) :
    Clash first second ↔ second ∈ touched first ∨ tmpFile second ∈ touched first := by
  have notSame : tmpFile second ≠ tmpFile first := fun same => different (tmpFile_injective same).symm
  have further : tmpFile second = oldFile (tmpFile first) ↔
      second.text = "old..tmp.".toList ++ first.text := tmpFile_eq_oldFile_iff
  simp only [Clash, touched, List.mem_cons, List.not_mem_nil, or_false, Ne.symm different, notSame,
    false_or, tmpFile_eq_oldFile_iff, further]
  rw [eq_comm (a := first)]
  constructor
  · rintro (asTmp | tmp | old | oldText | oldTmp | oldTmpText)
    · exact Or.inr (Or.inl asTmp)
    · exact Or.inl (Or.inl tmp)
    · exact Or.inl (Or.inr (Or.inl old))
    · exact Or.inr (Or.inr (Or.inl oldText))
    · exact Or.inl (Or.inr (Or.inr oldTmp))
    · exact Or.inr (Or.inr (Or.inr oldTmpText))
  · rintro ((tmp | old | oldTmp) | asTmp | oldText | oldTmpText)
    · exact Or.inr (Or.inl tmp)
    · exact Or.inr (Or.inr (Or.inl old))
    · exact Or.inr (Or.inr (Or.inr (Or.inr (Or.inl oldTmp))))
    · exact Or.inl asTmp
    · exact Or.inr (Or.inr (Or.inr (Or.inl oldText)))
    · exact Or.inr (Or.inr (Or.inr (Or.inr (Or.inr oldTmpText))))

end Names

/-- A step of the machine is one for the name of its path. -/
theorem apply_of_takes {empty : Folder} {parent : List FileName}
    {event : Transition (Files Folder) (DiskOp Folder) Unit} {name : FileName}
    (takes : (siblings empty parent).Takes event) (named : event.op.vpath.finalName = .ok name) :
    event.op.step.apply empty name event.before = some event.after := by
  dsimp only [Machine.Takes, siblings] at takes
  split at takes
  · rw [named] at takes
    obtain ⟨_, isName, takes⟩ := Option.bind_eq_some_iff.mp takes
    obtain rfl := Option.some.inj isName
    obtain ⟨after, applied, same⟩ := Option.bind_eq_some_iff.mp takes
    rw [applied]
    exact congrArg some (congrArg Prod.snd (Option.some.inj same))
  · cases takes

/-- The operations for an image spare the image next to it exactly when their names do not
clash. -/
theorem siblings_spared_iff (empty : Folder) {first second : VPath}
    (firstAccepted : VPath.checkPath first.path = true) (firstDeep : 0 < first.level)
    (secondAccepted : VPath.checkPath second.path = true) (secondDeep : 0 < second.level)
    (beside : first.names.dropLast = second.names.dropLast) (different : first.place ≠ second.place) :
    Spares empty first second ↔
      ∀ one other, first.finalName = .ok one → second.finalName = .ok other → ¬ Clash one other := by
  obtain ⟨spot, atSpot⟩ := VPath.exists_spot firstAccepted firstDeep
  obtain ⟨next, atNext⟩ := VPath.exists_spot secondAccepted secondDeep
  have firstName : first.finalName = .ok spot.name := VPath.finalName_at atSpot
  have secondName : second.finalName = .ok next.name := VPath.finalName_at atNext
  have apart : spot.name ≠ next.name := by
    intro same
    rw [VPath.names_at atSpot, VPath.names_at atNext, List.dropLast_concat, List.dropLast_concat]
      at beside
    exact different (by rw [atSpot, atNext, Spot.place, Spot.place, beside, same])
  have unclashed : (∀ one other, first.finalName = .ok one → second.finalName = .ok other →
      ¬ Clash one other) ↔ ¬ Clash spot.name next.name := by
    simp [firstName, secondName]
  rw [unclashed, clash_iff apart]
  constructor
  · -- whatever the operations work on, there is a disk on which they remove it
    intro spares touches
    have removed : ∀ gone ∈ touched spot.name, ∃ start trace finish,
        (siblings empty first.names.dropLast).Steps start trace finish ∧ ∃ event ∈ trace,
          event.op.vpath.place = first.place ∧ event.before.lookup gone = some empty ∧
            event.after.lookup gone = none := by
      intro gone member
      obtain ⟨action, isAction, isGone⟩ := exists_action_of_touched member empty
      have takes : (siblings empty first.names.dropLast).Takes
          ⟨Finmap.singleton gone empty, ⟨first, .act action⟩, (),
            action.apply empty (Finmap.singleton gone empty)⟩ := by
        simp [Machine.Takes, siblings, firstAccepted, firstName, Except.toOption, Step.apply, isAction]
      exact ⟨_, [_], _, Machine.Steps.cons takes .refl, _, List.mem_singleton_self _, rfl,
        Finmap.lookup_singleton_eq, isGone⟩
    rcases touches with direct | temporary
    · obtain ⟨start, trace, finish, steps, event, member, isFirst, there, gone⟩ := removed _ direct
      have same := (spares start trace finish steps event member isFirst next.name secondName).1
      rw [there, gone] at same
      cases same
    · obtain ⟨start, trace, finish, steps, event, member, isFirst, there, gone⟩ := removed _ temporary
      have same := (spares start trace finish steps event member isFirst next.name secondName).2
      rw [there, gone] at same
      cases same
  · intro untouched start trace finish steps event member isFirst name isName
    obtain rfl : next.name = name := Except.ok.inj (secondName.symm.trans isName)
    have applied := apply_of_takes (steps.takes_of_mem member)
      (VPath.finalName_at (isFirst.trans atSpot))
    rw [not_or] at untouched
    exact ⟨Step.lookup_apply applied untouched.1, Step.lookup_apply applied untouched.2⟩

namespace Sample

/-- A path right below the directory of the key `k`. -/
def path (name : String) (valid : (VPath.deserialize ("/k/".toList ++ name.toList)).isSome) : VPath :=
  (VPath.deserialize ("/k/".toList ++ name.toList)).get valid

/-- The path of the first image. -/
def first : VPath := path "x" (by decide)

/-- The path of its sibling. -/
def second : VPath := path "y" (by decide)

/-- The image that is downloaded to `.tmp.old.x`. -/
def old : VPath := path "old.x" (by decide)

/-- The name of an image. -/
def name : FileName := ⟨['x'], by decide, by decide, by decide, by decide⟩

/-- The name that its old version is moved to, which an image can have as well. -/
def oldName : FileName := ⟨"old.x".toList, by decide, by decide, by decide, by decide⟩

/-- `old.x` is being downloaded, and `remove_image` for `x` begins. -/
def clearing : Transition (Files Unit) (DiskOp Unit) Unit :=
  ⟨Finmap.singleton (tmpFile oldName) (), ⟨first, .act (.clear (oldFile name))⟩, (), ∅⟩

end Sample

/-- Plain names do not clash. -/
theorem siblings_spared_plain : Spares () Sample.first Sample.second := by
  refine (siblings_spared_iff () (by decide) (by decide) (by decide) (by decide) (by decide)
    (by decide)).mpr ?_
  intro one other isOne isOther
  have named : ∀ one ∈ Sample.first.finalName.toOption, ∀ other ∈ Sample.second.finalName.toOption,
      ¬ Clash one other := by decide
  rw [isOne, isOther] at named
  exact named one rfl other rfl

/-- Removing `x` begins with removing what was downloaded for `old.x`. -/
theorem download_cleared :
    (VPath.checkPath Sample.first.path = true ∧ VPath.checkPath Sample.old.path = true ∧
      Sample.first.names.dropLast = Sample.old.names.dropLast ∧
      Sample.first.place ≠ Sample.old.place) ∧ ¬ Spares () Sample.first Sample.old := by
  refine ⟨by decide, fun spares => ?_⟩
  have takes : (siblings () Sample.first.names.dropLast).Takes Sample.clearing := by
    show (siblings () Sample.first.names.dropLast).exec _ _ = _
    decide
  have same := (spares _ _ _ (Machine.Steps.cons takes .refl) Sample.clearing
    (List.mem_singleton_self _) rfl Sample.oldName (by decide)).2
  have changed : Sample.clearing.after.lookup (tmpFile Sample.oldName) ≠
      Sample.clearing.before.lookup (tmpFile Sample.oldName) := by decide
  exact changed same

end Disk

end Ciruela
