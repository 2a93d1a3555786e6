import Ciruela.Daemon.Tracking.Reconciliation
import Ciruela.Foundation.Selection

/-!
# What a plan asks for

The first loop of a reconciliation leaves out remote images and joins every remote name to
the path; the second goes through all remote states again and knows of the first only the
paths that a cleanup would leave. A state is asked for when it is wanted and within reach
of the throttle. That tells when an image that was deleted here is asked for again, and
when an upload is planned outside of the directory.
-/

namespace Ciruela

open Foundation

namespace Reconciliation

open BaseDir (entries samePath)
open Metadata (Found)

/-- The path of a planned request. -/
def Action.path : Action → VPath
  | .append params => params.path
  | .replace params => params.path

/-- The image of a planned request. -/
def Action.image : Action → ImageId
  | .append params => params.image
  | .replace params => params.image

/-- The second loop comes to this wanted state before the throttle is reached. -/
def Setting.InReach (setting : Setting) (kept : List (Path × State)) (locals : Found)
    (ordered : List (List Char × State)) (remote : List Char × State) : Prop :=
  ∃ front back, ordered = front ++ remote :: back ∧ setting.wanted kept locals remote = true ∧
    setting.downloading + (front.filter (setting.wanted kept locals)).length < throttle

section Reach

variable {setting : Setting} {locals remote : Found} {kept : List (Path × State)}
  {ordered : List (List Char × State)} {planned : List Planned} {full : Bool} {name : List Char}
  {rstate : State}

/-- What is within reach is in the listing. -/
theorem Setting.InReach.mem {item : List Char × State}
    (reached : setting.InReach kept locals ordered item) : item ∈ ordered := by
  obtain ⟨front, back, rfl, _⟩ := reached
  simp

/-- A planned request is about the path of its name. -/
theorem Builds.path {item : Planned} {sig : SignatureEntry} (builds : Builds setting rstate sig item) :
    setting.vpath item.name = .ok item.action.path := by
  obtain ⟨_, vpath, joins, isAppend | ⟨oldImage, isReplace⟩⟩ := builds
  · rwa [isAppend]
  · rwa [isReplace]

/-- A planned request is about the image of the remote state. -/
theorem Builds.image {item : Planned} {sig : SignatureEntry}
    (builds : Builds setting rstate sig item) : item.action.image = rstate.image := by
  obtain ⟨_, vpath, joins, isAppend | ⟨oldImage, isReplace⟩⟩ := builds
  · rw [isAppend, Action.image]
  · rw [isReplace, Action.image]

/-- An upload is planned for the states in reach, and carries their path and image. -/
theorem exists_planned_iff
    (uploads : setting.upload kept ordered setting.downloading locals = .ok (planned, full))
    (nodup : (ordered.map Prod.fst).Nodup) {path : VPath} {image : ImageId} :
    (∃ item ∈ planned, item.action.path = path ∧ item.action.image = image) ↔
      ∃ name rstate, setting.InReach kept locals ordered (name, rstate) ∧
        setting.vpath name = .ok path ∧ rstate.image = image := by
  have names := (names_upload uploads nodup).1
  have inReach {item : List Char × State} :
      item ∈ (ordered.filter (setting.wanted kept locals)).take (throttle - setting.downloading) ↔
        setting.InReach kept locals ordered item := by
    rw [mem_take_filter_iff]
    simp only [Setting.InReach, Nat.lt_sub_iff_add_lt']
  constructor
  · rintro ⟨item, member, rfl, rfl⟩
    obtain ⟨rstate, sig, among, builds, _⟩ := mem_upload uploads nodup member
    have isName : item.name ∈ planned.map Planned.name := List.mem_map_of_mem member
    rw [names] at isName
    obtain ⟨⟨name, other⟩, reached, same⟩ := List.mem_map.mp isName
    obtain rfl : name = item.name := same
    have reached := inReach.mp reached
    -- there is one remote state for the name
    have sameState := List.inj_on_of_nodup_map nodup reached.mem among rfl
    obtain rfl := (Prod.mk.inj sameState).2
    exact ⟨item.name, other, reached, builds.path, builds.image.symm⟩
  · rintro ⟨name, rstate, reached, joins, rfl⟩
    have isName : name ∈ planned.map Planned.name := by
      rw [names]
      exact List.mem_map.mpr ⟨_, inReach.mpr reached, rfl⟩
    obtain ⟨item, member, rfl⟩ := List.mem_map.mp isName
    obtain ⟨other, sig, among, builds, _⟩ := mem_upload uploads nodup member
    have sameState := List.inj_on_of_nodup_map nodup among reached.mem rfl
    obtain rfl := (Prod.mk.inj sameState).2
    exact ⟨item, member, Except.ok.inj (builds.path.symm.trans joins), builds.image⟩

/-- An item is considered when its path can be made. -/
theorem returns_consider {images : List (Path × State)} {item : List Char × State} :
    (setting.consider locals images item).Returns ↔ (setting.vpath item.1).Returns := by
  unfold Setting.consider
  rw [Run.returns_bind]
  constructor
  · rintro ⟨vpath, joins, _⟩
    exact ⟨vpath, joins⟩
  · rintro ⟨vpath, joins⟩
    refine ⟨vpath, joins, ?_⟩
    split
    · exact Run.returns_pure _
    · split
      · exact Run.returns_pure _
      · split
        · split
          · exact Run.returns_pure _
          · split
            · exact Run.returns_pure _
            · exact Run.returns_pure _
        · exact Run.returns_pure _

/-- The first loop ends when every remote name can be joined. -/
theorem returns_possibleDirs : (setting.possibleDirs locals remote).Returns ↔
    ∀ item ∈ entries remote, (setting.vpath item.1).Returns := by
  have rounds (images : List (Path × State)) (item : List Char × State) :
      (setting.consider locals images item).Returns ↔ (setting.vpath item.1).Returns :=
    returns_consider
  exact Run.returns_foldlM_iff rounds

/-- The paths of a listing that is used can be made. -/
theorem joins_of_used (uses : setting.used locals remote = .ok kept) :
    ∀ item ∈ entries remote, (setting.vpath item.1).Returns := by
  obtain ⟨possible, considers, _⟩ := Run.bind_eq_ok_iff.mp uses
  exact returns_possibleDirs.mp ⟨possible, considers⟩

/-- The second loop joins no other names than the first. -/
theorem returns_upload_of_used (uses : setting.used locals remote = .ok kept)
    (orders : Orders remote ordered) :
    (setting.upload kept ordered setting.downloading locals).Returns :=
  returns_upload fun item member => joins_of_used uses item (orders.1.mem_iff.mp member)

/-- A plan uploads what is used. -/
theorem plan_of_used (uses : setting.used locals remote = .ok kept) :
    setting.plan locals remote ordered =
      setting.upload kept ordered setting.downloading locals := by
  unfold Setting.plan
  rw [uses, Run.ok_bind]

/-- A path is possible because of an image of ours, or of a remote one that was not deleted. -/
def Setting.Source (setting : Setting) (locals remote : Found) (path : Path) : Prop :=
  (∃ name state, locals.lookup name = some state ∧ path = setting.subPath name) ∨
    ∃ name state vpath, remote.lookup name = some state ∧ setting.vpath name = .ok vpath ∧
      setting.recentlyDeleted vpath state.image = false ∧ path = setting.subPath name

/-- The images after one is put in. -/
theorem mem_put {images : List (Path × State)} {path : Path} {state : State}
    {image : Path × State} (member : image ∈ put images path state) :
    image.1 = path ∨ ∃ old ∈ images, old.1 = image.1 := by
  unfold put at member
  split at member
  · obtain ⟨old, isOld, rfl⟩ := List.mem_map.mp member
    refine Or.inr ⟨old, isOld, ?_⟩
    split
    · rfl
    · rfl
  · rcases List.mem_append.mp member with old | isNew
    · exact Or.inr ⟨image, old, rfl⟩
    · rw [List.mem_singleton.mp isNew]
      exact Or.inl rfl

/-- Every image comes from a listing. -/
theorem source_foldl_put {items : List (List Char × State)} {images : List (Path × State)}
    (sound : ∀ image ∈ images, setting.Source locals remote image.1)
    (ours : ∀ item ∈ items, locals.lookup item.1 = some item.2) :
    ∀ image ∈ items.foldl (fun images entry => put images (setting.subPath entry.1) entry.2) images,
      setting.Source locals remote image.1 := by
  induction items generalizing images with
  | nil => exact sound
  | cons item rest ih =>
      rw [List.foldl_cons]
      apply ih
      · intro image member
        rcases mem_put member with isPath | ⟨old, isOld, same⟩
        · exact Or.inl ⟨item.1, item.2, ours item List.mem_cons_self, isPath⟩
        · exact same ▸ sound old isOld
      · exact fun other member => ours other (List.mem_cons_of_mem _ member)

/-- Considering an item adds images of the listing only. -/
theorem source_consider {images after : List (Path × State)} {item : List Char × State}
    (isRemote : remote.lookup item.1 = some item.2)
    (considers : setting.consider locals images item = .ok after)
    (sound : ∀ image ∈ images, setting.Source locals remote image.1) :
    ∀ image ∈ after, setting.Source locals remote image.1 := by
  obtain ⟨vpath, joins, rfl | ⟨present, rfl⟩⟩ := consider_cases considers
  · exact sound
  · intro image member
    rcases mem_put member with isPath | ⟨old, isOld, same⟩
    · exact Or.inr ⟨item.1, item.2, vpath, isRemote, joins, present, isPath⟩
    · exact same ▸ sound old isOld

/-- Every path that a cleanup would leave is possible for one of these reasons. -/
theorem source_of_used (arranges : ∀ images, (setting.arrange images).Perm images)
    (uses : setting.used locals remote = .ok kept) :
    ∀ image ∈ kept, setting.Source locals remote image.1 := by
  obtain ⟨possible, considers, uses⟩ := Run.bind_eq_ok_iff.mp uses
  have sound : ∀ image ∈ possible, setting.Source locals remote image.1 := by
    refine Run.inv_of_foldlM
      (fun images => ∀ image ∈ images, setting.Source locals remote image.1) considers ?_ ?_
    · exact source_foldl_put (by simp) fun item member => mem_entries.mp member
    · intro item member images after considered before
      exact source_consider (mem_entries.mp member) considered before
  intro image member
  apply sound image
  rw [← (arranges possible).mem_iff]
  split at uses
  · obtain ⟨sorted, sorts, done⟩ := Run.bind_eq_ok_iff.mp uses
    rw [← Except.ok.inj done] at member
    exact (Cleanup.sortOut_perm sorts).mem_iff.mp (List.mem_append_left _ member)
  · rwa [← Except.ok.inj uses] at member

/-- Where a deleted image is asked for again, the node has an image at this path, or the peer
has another one that was not deleted. -/
theorem Setting.InReach.source (arranges : ∀ images, (setting.arrange images).Perm images)
    (uses : setting.used locals remote = .ok kept)
    (reached : setting.InReach kept locals ordered (name, rstate)) :
    ∃ path, setting.Source locals remote path ∧ samePath (setting.subPath name) path = true := by
  obtain ⟨_, _, _, wanted, _⟩ := reached
  obtain ⟨stays, _⟩ := Bool.and_eq_true_iff.mp wanted
  obtain ⟨image, member, same⟩ := List.any_eq_true.mp stays
  exact ⟨image.1, source_of_used arranges uses image member, same⟩

end Reach

section Deleted

variable {setting : Setting} {locals remote : Found} {ordered : List (List Char × State)}

/-- No upload is planned for an image that was deleted here recently exactly when the
second loop comes to no wanted state that was. The first loop has left these states out,
but a path may be kept because of our state, or because of another remote name. -/
theorem spares_deleted_iff (orders : Orders remote ordered) :
    (∀ planned full, setting.plan locals remote ordered = .ok (planned, full) →
      ∀ item ∈ planned, setting.recentlyDeleted item.action.path item.action.image = false) ↔
    ∀ kept name rstate vpath, setting.used locals remote = .ok kept →
      setting.vpath name = .ok vpath → setting.recentlyDeleted vpath rstate.image = true →
        ¬ setting.InReach kept locals ordered (name, rstate) := by
  constructor
  · intro spares kept name rstate vpath uses joins deleted reached
    obtain ⟨⟨planned, full⟩, uploads⟩ := returns_upload_of_used uses orders
    obtain ⟨item, member, rfl, isImage⟩ :=
      (exists_planned_iff uploads orders.nodup).mpr ⟨name, rstate, reached, joins, rfl⟩
    have spared := spares planned full ((plan_of_used uses).trans uploads) item member
    rw [isImage, deleted] at spared
    cases spared
  · intro unreached planned full plans item member
    obtain ⟨kept, uses, uploads⟩ := Run.bind_eq_ok_iff.mp plans
    obtain ⟨name, rstate, reached, joins, isImage⟩ :=
      (exists_planned_iff uploads orders.nodup).mp ⟨item, member, rfl, rfl⟩
    rw [← isImage, Bool.eq_false_iff]
    intro deleted
    exact unreached kept name rstate _ uses joins deleted reached

namespace Sample

/-- A node that has deleted every image with this byte. -/
def deleting (byte : UInt8) : Setting :=
  { Sample.setting with recentlyDeleted := fun _ deleted => decide (deleted = Metadata.Sample.image byte) }

end Sample

/-- The peer still has the older image that was deleted here. -/
theorem spares_deleted_older :
    (Sample.deleting 1).recentlyDeleted Metadata.Sample.path (Metadata.Sample.image 1) = true ∧
      ∀ planned full, (Sample.deleting 1).plan (Sample.holding (Sample.state 2 [7]))
          (Sample.holding (Sample.state 1 [4])) (Sample.listed (Sample.state 1 [4])) =
          .ok (planned, full) →
        ∀ item ∈ planned,
          (Sample.deleting 1).recentlyDeleted item.action.path item.action.image = false := by
  refine ⟨rfl, (spares_deleted_iff (Sample.orders _)).mpr ?_⟩
  rintro kept name rstate vpath _ _ _ ⟨front, back, split, wanted, _⟩
  have member : (name, rstate) ∈ Sample.listed (Sample.state 1 [4]) := by
    rw [split]
    simp
  obtain ⟨rfl, rfl⟩ := Prod.mk.inj (List.mem_singleton.mp member)
  have unwanted : (Sample.deleting 1).wanted kept (Sample.holding (Sample.state 2 [7]))
      ("a".toList, Sample.state 1 [4]) = false := by
    rw [Setting.wanted, Bool.and_eq_false_iff]
    exact Or.inr rfl
  cases unwanted.symm.trans wanted

/-- The peer has a newer image that was deleted here, and ours keeps the path. -/
theorem asks_for_deleted :
    let image := Metadata.Sample.image 2
    ∃ params : ReplaceDir, (Sample.deleting 2).plan (Sample.holding (Sample.state 1 [4]))
        (Sample.holding (Sample.state 2 [7])) (Sample.listed (Sample.state 2 [7])) =
        .ok ([⟨"a".toList, .replace params⟩], true) ∧
      params.image = image ∧ (Sample.deleting 2).recentlyDeleted params.path image = true := by
  intro image
  refine ⟨⟨Metadata.Sample.path, image, some (Metadata.Sample.image 1), 7,
    [Metadata.Sample.signature 2]⟩, ?_, rfl, rfl⟩
  have ours : (entries (Sample.holding (Sample.state 1 [4]))).foldl (fun images entry =>
      put images ((Sample.deleting 2).subPath entry.1) entry.2) [] =
        [((Sample.deleting 2).subPath "a".toList, Sample.state 1 [4])] := by
    rw [Sample.entries_holding]
    rfl
  refine (plan_singleton rfl (fun _ => rfl) ours _ _).trans ?_
  rfl

end Deleted

section Inside

variable {setting : Setting} {locals remote : Found} {ordered : List (List Char × State)}

/-- The path is that of an entry of the directory itself. -/
def ChildOf (dir vpath : VPath) : Prop := ∃ file, vpath.place = dir.place ++ [.normal file]

/-- The assertions of `VPath::join` hold for the name. -/
def Joins (name : List Char) : Prop :=
  (Path.ofText name).components ≠ [] ∧ (Path.ofText name).components.all Component.isNormal = true

instance (name : List Char) : Decidable (Joins name) := instDecidableAnd

/-- `sort_out` does not have to subtract a length of time that does not fit. -/
def Setting.Sortable (setting : Setting) (locals remote : Found) : Prop :=
  setting.directory.autoClean = true → ∀ possible, setting.possibleDirs locals remote = .ok possible →
    possible.length ≤ setting.directory.keepMinDirectories ∨
      setting.directory.keepRecent.seconds < 2 ^ 63

/-- A path can be made of a name when the name joins. -/
theorem returns_vpath {name : List Char} : (setting.vpath name).Returns ↔ Joins name := by
  unfold Setting.vpath VPath.join
  split
  · rename_i valid
    exact ⟨fun _ => valid, fun _ => Run.returns_ok _⟩
  · rename_i invalid
    exact ⟨fun returns => absurd returns (Run.not_returns_error _), fun valid => absurd valid invalid⟩

/-- The place of a path that is made of a name. -/
theorem place_vpath {name : List Char} {vpath : VPath} (joins : setting.vpath name = .ok vpath) :
    vpath.place = setting.path.place ++ (Path.ofText name).components := by
  unfold Setting.vpath VPath.join at joins
  split at joins
  · rename_i valid
    rw [← Except.ok.inj joins]
    exact VPath.place_join _ valid.2
  · cases joins

/-- A joined path is an entry of the directory exactly when the name is one component. -/
theorem childOf_iff {name : List Char} {vpath : VPath} (joins : setting.vpath name = .ok vpath) :
    ChildOf setting.path vpath ↔ (Path.ofText name).components.length = 1 := by
  have valid : Joins name := returns_vpath.mp ⟨vpath, joins⟩
  unfold ChildOf
  rw [place_vpath joins]
  simp only [List.append_cancel_left_eq]
  constructor
  · rintro ⟨file, single⟩
    rw [single, List.length_singleton]
  · intro one
    obtain ⟨component, single⟩ := List.length_eq_one_iff.mp one
    have normal := valid.2
    rw [single, List.all_cons, List.all_nil, Bool.and_true] at normal
    cases component with
    | normal file => exact ⟨file, single⟩
    | _ => cases normal

/-- A listing can be used when its names join and its images can be sorted. -/
theorem returns_used (arranges : ∀ images, (setting.arrange images).Perm images) :
    (setting.used locals remote).Returns ↔
      (∀ item ∈ entries remote, Joins item.1) ∧ setting.Sortable locals remote := by
  have allJoin : (setting.possibleDirs locals remote).Returns ↔
      ∀ item ∈ entries remote, Joins item.1 := by
    simp only [returns_possibleDirs, returns_vpath]
  have sorting (possible : List (Path × State)) :
      (Cleanup.sortOut samePath setting.now setting.directory (setting.arrange possible)
        setting.keepList).Returns ↔ possible.length ≤ setting.directory.keepMinDirectories ∨
          setting.directory.keepRecent.seconds < 2 ^ 63 := by
    rw [Cleanup.returns_sortOut, (arranges possible).length_eq]
  rw [← allJoin]
  unfold Setting.used Setting.Sortable
  rw [Run.returns_bind]
  constructor
  · rintro ⟨possible, considers, sorts⟩
    refine ⟨⟨possible, considers⟩, fun cleans other same => ?_⟩
    obtain rfl := Except.ok.inj (considers.symm.trans same)
    rw [if_pos cleans, Run.returns_bind] at sorts
    obtain ⟨sorted, sorts, _⟩ := sorts
    exact (sorting possible).mp ⟨sorted, sorts⟩
  · rintro ⟨⟨possible, considers⟩, sortable⟩
    refine ⟨possible, considers, ?_⟩
    split
    · rename_i cleans
      obtain ⟨sorted, sorts⟩ := (sorting possible).mpr (sortable cleans possible considers)
      rw [sorts]
      exact Run.returns_pure _
    · exact Run.returns_pure _

/-- A plan is made, and of uploads into the directory itself only, exactly when all
remote names can be joined, the images can be sorted out, and every state that is asked
for has a name of one component. -/
theorem plan_inside_iff (orders : Orders remote ordered)
    (arranges : ∀ images, (setting.arrange images).Perm images) :
    (∃ planned full, setting.plan locals remote ordered = .ok (planned, full) ∧
      ∀ item ∈ planned, ChildOf setting.path item.action.path) ↔
    (∀ item ∈ entries remote, Joins item.1) ∧ setting.Sortable locals remote ∧
      ∀ kept name rstate, setting.used locals remote = .ok kept →
        setting.InReach kept locals ordered (name, rstate) →
          (Path.ofText name).components.length = 1 := by
  constructor
  · rintro ⟨planned, full, plans, inside⟩
    obtain ⟨kept, uses, uploads⟩ := Run.bind_eq_ok_iff.mp plans
    obtain ⟨allJoin, sortable⟩ := (returns_used arranges).mp ⟨kept, uses⟩
    refine ⟨allJoin, sortable, fun other name rstate same reached => ?_⟩
    obtain rfl := Except.ok.inj (uses.symm.trans same)
    obtain ⟨vpath, joins⟩ := joins_of_used uses _ (orders.1.mem_iff.mp reached.mem)
    obtain ⟨item, member, rfl, _⟩ :=
      (exists_planned_iff uploads orders.nodup).mpr ⟨name, rstate, reached, joins, rfl⟩
    exact (childOf_iff joins).mp (inside item member)
  · rintro ⟨allJoin, sortable, single⟩
    obtain ⟨kept, uses⟩ := (returns_used arranges).mpr ⟨allJoin, sortable⟩
    obtain ⟨⟨planned, full⟩, uploads⟩ := returns_upload_of_used uses orders
    refine ⟨planned, full, (plan_of_used uses).trans uploads, fun item member => ?_⟩
    obtain ⟨name, rstate, reached, joins, _⟩ :=
      (exists_planned_iff uploads orders.nodup).mp ⟨item, member, rfl, rfl⟩
    exact (childOf_iff joins).mpr (single kept name rstate uses reached)

/-- A peer offers one image under a file name. -/
theorem plan_inside_single :
    ∃ planned full, Sample.setting.plan ∅ (Sample.holding (Sample.state 1 [4]))
        (Sample.listed (Sample.state 1 [4])) = .ok (planned, full) ∧
      ∀ item ∈ planned, ChildOf Sample.setting.path item.action.path := by
  refine (plan_inside_iff (Sample.orders _) fun _ => List.Perm.refl _).mpr ⟨?_, nofun, ?_⟩
  · intro item member
    rw [Sample.entries_holding] at member
    obtain rfl := List.mem_singleton.mp member
    exact (by decide : Joins "a".toList)
  · intro kept name rstate _ reached
    obtain ⟨rfl, rfl⟩ := Prod.mk.inj (List.mem_singleton.mp reached.mem)
    decide

/-- A peer can name an image so that joining the name panics, and so that an upload is
planned below another image. -/
theorem plan_outside :
    Sample.setting.plan ∅ (Finmap.singleton "..".toList (Sample.state 1 [4]))
        [("..".toList, Sample.state 1 [4])] =
      .error (.assertion "path.components().all(|x| matches!(x, Normal(_)))") ∧
    ∃ params : AppendDir, Sample.setting.plan ∅ (Finmap.singleton "a/b".toList (Sample.state 1 [4]))
        [("a/b".toList, Sample.state 1 [4])] =
          .ok ([⟨"a/b".toList, .append params⟩], true) ∧
      ¬ ChildOf Sample.setting.path params.path := by
  have none : (entries (∅ : Found)).foldl (fun images entry =>
      put images (Sample.setting.subPath entry.1) entry.2) [] = [] := by simp [entries]
  constructor
  · refine (plan_singleton rfl (fun _ => rfl) none _ _).trans ?_
    rfl
  · refine ⟨?params, (plan_singleton rfl (fun _ => rfl) none _ _).trans ?plan, ?outside⟩
    case plan => rfl
    case outside =>
      rintro ⟨file, child⟩
      have short := congrArg List.length child
      rw [List.length_append, List.length_singleton] at short
      revert short
      decide

end Inside

end Reconciliation

end Ciruela
