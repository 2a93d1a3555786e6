import Ciruela.Daemon.Http
import Ciruela.Daemon.Tracking.Rpc

/-!
# Confinement

What the daemon opens for a request of a peer stays inside the directory the
request is about exactly when no `..` is handed in. A virtual path from the wire
has none; the path of a block hint and the path of an HTTP listing are not checked.
-/

namespace Ciruela

open Foundation

namespace Disk

section Openings

/-- Opening names goes down, one name at a time. -/
theorem openComponents_names (fs : FileSystem) (location names : List FileName) :
    (∀ call ∈ (openComponents fs location (names.map .normal)).1,
      call.component.isNormal = true ∧ ∃ front, front <+: names ∧ front ≠ [] ∧
        call.target = location ++ front) ∧
      ∀ reached, (openComponents fs location (names.map .normal)).2 = .ok reached →
        reached = location ++ names := by
  induction names generalizing location with
  | nil =>
      refine ⟨by simp [openComponents], ?_⟩
      intro reached found
      obtain rfl := Except.ok.inj found
      simp
  | cons name rest ih =>
      rw [List.map_cons, openComponents]
      dsimp only
      split
      · obtain ⟨calls, reaches⟩ := ih (location ++ [name])
        refine ⟨?_, ?_⟩
        · intro call member
          rcases List.mem_cons.mp member with rfl | later
          · exact ⟨rfl, [name], by simp, by simp, rfl⟩
          · obtain ⟨normal, front, isPrefix, _, target⟩ := calls call later
            refine ⟨normal, name :: front, ?_, by simp, ?_⟩
            · exact List.cons_prefix_cons.mpr ⟨rfl, isPrefix⟩
            · rw [target, List.append_assoc]
              rfl
        · intro reached found
          rw [reaches reached found, List.append_assoc]
          rfl
      · refine ⟨?_, ?_⟩
        · intro call member
          obtain rfl := List.mem_singleton.mp member
          exact ⟨rfl, [name], by simp, by simp, rfl⟩
        · intro reached found
          simp at found

/-- Where everything opens, every component is handed over. -/
theorem openComponents_permissive (location : List FileName) (components : List Component) :
    (openComponents .permissive location components).2 = .ok (walk location components) ∧
      ∀ component ∈ components, ∃ call ∈ (openComponents .permissive location components).1,
        call.component = component := by
  induction components generalizing location with
  | nil => exact ⟨rfl, by simp⟩
  | cons first rest ih =>
      obtain ⟨reached, calls⟩ := ih (first.enter location)
      rw [openComponents]
      simp only [FileSystem.permissive, if_true]
      refine ⟨reached, ?_⟩
      intro component member
      rcases List.mem_cons.mp member with rfl | later
      · exact ⟨⟨location, component⟩, List.mem_cons_self, rfl⟩
      · obtain ⟨call, inCalls, same⟩ := calls component later
        exact ⟨call, List.mem_cons_of_mem _ inCalls, same⟩

/-- What holds of the calls of both halves holds of all calls. -/
theorem andThen_forall {Value Next : Type} {Good : Opening → Prop} {first : Calls Value}
    {rest : Value → Run (Calls Next)} {result : Calls Next}
    (ran : first.andThen rest = .ok result) (before : ∀ call ∈ first.1, Good call)
    (after : ∀ value later, first.2 = .ok value → rest value = .ok later →
      ∀ call ∈ later.1, Good call) : ∀ call ∈ result.1, Good call := by
  unfold Calls.andThen at ran
  split at ran
  · obtain rfl := Except.ok.inj ran
    exact before
  · rename_i value found
    obtain ⟨later, went, done⟩ := Run.bind_eq_ok_iff.mp ran
    obtain rfl := Except.ok.inj done
    intro call member
    rcases List.mem_append.mp member with old | new
    · exact before call old
    · exact after value later found went call new

end Openings

section ReadBlock

variable {config : Config} {fs : FileSystem} {directory : Directory} {vpath : VPath} {spot : Spot}
  {path : Path} {offset : Nat} {writing : Bool}

/-- The directory of an image. -/
def imageDir (directory : Directory) (vpath : VPath) : List FileName :=
  directory.directory ++ vpath.names.tail

/-- The directory of an image that is being written. -/
def tmpDir (directory : Directory) (vpath : VPath) : List FileName :=
  directory.directory ++ vpath.names.tail.dropLast ++
    (vpath.names.getLast?.map Metadata.tmpFile).toList

/-- A name is opened, on the way to the image or below it, or below its temporary
twin. -/
def Confined (directory : Directory) (vpath : VPath) (call : Opening) : Prop :=
  call.component.isNormal = true ∧
    (call.target <+: imageDir directory vpath ∨ imageDir directory vpath <+: call.target ∨
      tmpDir directory vpath <+: call.target)

/-- The directory of an image at a spot. -/
theorem imageDir_at (located : vpath.place = spot.place) :
    imageDir directory vpath = directory.directory ++ spot.dir.tail ++ [spot.name] := by
  rw [imageDir, VPath.names_at located, List.tail_append_of_ne_nil spot.deep, List.append_assoc]

/-- The temporary directory of an image at a spot. -/
theorem tmpDir_at (located : vpath.place = spot.place) :
    tmpDir directory vpath =
      directory.directory ++ spot.dir.tail ++ [Metadata.tmpFile spot.name] := by
  rw [tmpDir, VPath.names_at located, List.tail_append_of_ne_nil spot.deep, List.dropLast_concat,
    List.getLast?_concat]
  rfl

/-- What a read opens is confined when the path of the block has no `..`. -/
theorem readBlock_confined (located : vpath.place = spot.place) (absolute : path.isAbsolute = true)
    {file : FileName} (named : path.fileName = some file) (plain : .parentDir ∉ path.components)
    (configured : config.dirs.lookup vpath.key = some directory)
    (opens : fs.opensBase directory.directory = true) {calls : Calls (List UInt8)}
    (ran : readBlock config fs vpath path offset writing = .ok calls) :
    ∀ call ∈ calls.1, Confined directory vpath call := by
  obtain ⟨_, upper, _, _, _, upperComponents, whole, inside⟩ := below_root absolute named
  have normal : upper.components.all Component.isNormal = true := by
    rw [List.all_eq_true]
    intro component member
    rcases inside component member with rfl | ⟨name, rfl⟩
    · refine absurd ?_ plain
      rw [whole]
      exact List.mem_cons_of_mem _ (List.mem_append_left _ member)
    · rfl
  obtain ⟨names, namesEq⟩ := VPath.exists_names normal
  rw [readBlock_at located absolute named configured opens, ← upperComponents, namesEq] at ran
  -- The first openings lead to the image or its twin, the others go down from there.
  have home : ∀ target, directory.directory ++ spot.dir.tail ++
      [if writing then Metadata.tmpFile spot.name else spot.name] <+: target →
      imageDir directory vpath <+: target ∨ tmpDir directory vpath <+: target := by
    intro target below
    rw [imageDir_at located, tmpDir_at located]
    cases writing with
    | true => exact Or.inr below
    | false => exact Or.inl below
  -- On the way to the image.
  obtain ⟨onWay, reachParent⟩ := openComponents_names fs directory.directory spot.dir.tail
  refine andThen_forall ran ?_ ?_
  · intro call member
    obtain ⟨isNormal, front, isFront, _, target⟩ := onWay call member
    refine ⟨isNormal, Or.inl ?_⟩
    rw [target, imageDir_at located, List.append_assoc]
    exact List.prefix_append_right_inj _ |>.mpr (isFront.trans (List.prefix_append _ _))
  intro location later reached went
  obtain rfl := reachParent location reached
  -- The image itself, or its twin.
  obtain ⟨onImage, reachImage⟩ := openComponents_names fs
    (directory.directory ++ spot.dir.tail)
    [if writing then Metadata.tmpFile spot.name else spot.name]
  refine andThen_forall went ?_ ?_
  · intro call member
    obtain ⟨isNormal, front, isFront, deep, target⟩ := onImage call member
    refine ⟨isNormal, Or.inr (home _ ?_)⟩
    obtain empty | ⟨rest, rfl, short⟩ := List.prefix_cons_iff.mp isFront
    · exact absurd empty deep
    · obtain rfl := List.prefix_nil.mp short
      rw [target]
  intro location later reached went
  obtain rfl := reachImage location reached
  -- Below it, and the file at last.
  obtain ⟨onBelow, reachBelow⟩ := openComponents_names fs
    (directory.directory ++ spot.dir.tail ++
      [if writing then Metadata.tmpFile spot.name else spot.name]) names
  refine andThen_forall went ?_ ?_
  · intro call member
    obtain ⟨isNormal, front, _, _, target⟩ := onBelow call member
    refine ⟨isNormal, Or.inr (home _ ?_)⟩
    rw [target]
    exact List.prefix_append _ _
  intro location later reached went call member
  obtain rfl := reachBelow location reached
  have only : call.component = .normal file ∧ call.location = directory.directory ++
      spot.dir.tail ++ [if writing then Metadata.tmpFile spot.name else spot.name] ++
        names := by
    split at went
    all_goals
      obtain rfl := Except.ok.inj went
      obtain rfl := List.mem_singleton.mp member
      exact ⟨rfl, rfl⟩
  refine ⟨by rw [only.1]; rfl, Or.inr (home _ ?_)⟩
  rw [Opening.target, only.1, only.2]
  exact (List.prefix_append _ _).trans (List.prefix_append _ _)

/-- Where everything opens, every component in front of the file is handed over. -/
theorem readBlock_hands (offset : Nat) (writing : Bool) (located : vpath.place = spot.place)
    (absolute : path.isAbsolute = true) {file : FileName} (named : path.fileName = some file)
    (configured : config.dirs.lookup vpath.key = some directory) :
    ∃ calls, readBlock config .permissive vpath path offset writing = .ok calls ∧
      ∀ component ∈ path.components.tail.dropLast, ∃ call ∈ calls.1, call.component = component := by
  rw [readBlock_at located absolute named configured rfl]
  obtain ⟨toParent, _⟩ :=
    openComponents_permissive directory.directory (spot.dir.tail.map .normal)
  obtain ⟨toImage, _⟩ :=
    openComponents_permissive (walk directory.directory (spot.dir.tail.map .normal))
      ([if writing then Metadata.tmpFile spot.name else spot.name].map .normal)
  obtain ⟨toFile, handed⟩ := openComponents_permissive
    (walk (walk directory.directory (spot.dir.tail.map .normal))
      ([if writing then Metadata.tmpFile spot.name else spot.name].map .normal))
    path.components.tail.dropLast
  refine ⟨_, andThen_of_ok toParent (andThen_of_ok toImage (andThen_of_ok toFile rfl)), ?_⟩
  intro component member
  obtain ⟨call, made, same⟩ := handed component member
  refine ⟨call, ?_, same⟩
  exact List.mem_append_right _ (List.mem_append_right _ (List.mem_append_left _ made))

/-- Whatever the disk holds, what a read of a block opens is confined. -/
def BlockConfined (config : Config) (vpath : VPath) (path : Path) (offset : Nat) : Prop :=
  ∀ fs writing calls directory, config.dirs.lookup vpath.key = some directory →
    readBlock config fs vpath path offset writing = .ok calls →
      ∀ call ∈ calls.1, Confined directory vpath call

/-- A block is read below the directory when neither path leads up. -/
theorem blockConfined_iff (accepted : VPath.checkPath vpath.path = true)
    (absolute : path.isAbsolute = true) {file : FileName} (named : path.fileName = some file) :
    BlockConfined config vpath path offset ↔
      .parentDir ∉ path.components ∨ vpath.key ∉ config.dirs ∨ vpath.level = 0 := by
  obtain ⟨_, upper, _, _, _, upperComponents, whole, _⟩ := below_root absolute named
  constructor
  · intro confined
    by_contra reached
    simp only [not_or, not_not] at reached
    obtain ⟨climbs, present, deep⟩ := reached
    obtain ⟨directory, configured⟩ := Finmap.mem_iff.mp present
    obtain ⟨spot, located⟩ := VPath.exists_spot accepted (Nat.pos_of_ne_zero deep)
    -- Where everything opens the `..` is handed over.
    obtain ⟨calls, ran, handed⟩ := readBlock_hands offset false located absolute named configured
    have inside : .parentDir ∈ path.components.tail.dropLast := by
      rw [← upperComponents]
      rw [whole] at climbs
      simpa using climbs
    obtain ⟨call, made, same⟩ := handed _ inside
    have isNormal := (confined _ _ calls directory configured ran call made).1
    simp [same, Component.isNormal] at isNormal
  · intro plain fs writing calls directory configured ran
    cases opens : fs.opensBase directory.directory with
    | false =>
        rw [readBlock_closed absolute configured opens] at ran
        obtain rfl := Except.ok.inj ran
        simp
    | true =>
        have deep := (returns_readBlock accepted absolute named offset writing).mp ⟨calls, ran⟩
          directory configured opens
        obtain ⟨spot, located⟩ := VPath.exists_spot accepted deep
        rcases plain with plain | missing | shallow
        · exact readBlock_confined located absolute named plain configured opens ran
        · exact absurd (Finmap.mem_of_lookup_eq_some configured) missing
        · omega

end ReadBlock

end Disk

namespace Http

open Disk (openComponents_names openComponents_permissive)

/-- A name is opened below a directory. -/
def Below (root : List FileName) (call : Disk.Opening) : Prop :=
  call.component.isNormal = true ∧ root <+: call.target

/-- Whatever the disk holds, a listing opens only what is below the signatures. -/
def ListingConfined (config : Config) (vpath : VPath) : Prop :=
  ∀ fs names, ∀ call ∈ listDir fs (config.dbDir ++ [Metadata.signaturesName]) names vpath,
    Below (config.dbDir ++ [Metadata.signaturesName]) call

/-- The status page opens a path component after component. -/
theorem openVpath_eq (fs : Disk.FileSystem) (root : List FileName) (vpath : VPath) :
    openVpath fs root vpath = Disk.openComponents fs root vpath.place.tail := by
  obtain ⟨first, rest, shape, _⟩ := vpath.place_eq_cons
  have suffix : vpath.suffix.components = rest := by
    rw [VPath.suffix_components, shape]
    rfl
  simp [openVpath, suffix, shape]

theorem mem_listDir {fs : Disk.FileSystem} {root : List FileName}
    (names : List FileName → List FileName) {vpath : VPath} {call : Disk.Opening}
    (made : call ∈ (openVpath fs root vpath).1) : call ∈ listDir fs root names vpath := by
  unfold listDir
  dsimp only
  split
  · exact made
  · exact List.mem_append_left _ made

/-- A listing stays below the directory when the path does not lead up. -/
theorem listingConfined_iff {config : Config} {vpath : VPath} :
    ListingConfined config vpath ↔ .parentDir ∉ vpath.place := by
  obtain ⟨first, rest, shape, inside⟩ := vpath.place_eq_cons
  constructor
  · intro confined climbs
    have below : .parentDir ∈ vpath.place.tail := by
      rw [shape] at climbs ⊢
      simpa using climbs
    obtain ⟨_, handed⟩ := openComponents_permissive (config.dbDir ++ [Metadata.signaturesName])
      vpath.place.tail
    obtain ⟨call, made, same⟩ := handed _ below
    rw [← openVpath_eq] at made
    have isNormal := (confined .permissive (fun _ => []) call (mem_listDir _ made)).1
    simp [same, Component.isNormal] at isNormal
  · intro plain fs names call member
    have normal : vpath.place.tail.all Component.isNormal = true := by
      rw [List.all_eq_true, shape]
      intro component below
      rcases inside component below with rfl | ⟨name, rfl⟩
      · refine absurd ?_ plain
        rw [shape]
        exact List.mem_cons_of_mem _ below
      · rfl
    obtain ⟨below, namesEq⟩ := VPath.exists_names normal
    obtain ⟨onWay, reach⟩ := openComponents_names fs (config.dbDir ++ [Metadata.signaturesName]) below
    have way : ∀ call ∈ (openVpath fs (config.dbDir ++ [Metadata.signaturesName]) vpath).1,
        Below (config.dbDir ++ [Metadata.signaturesName]) call := by
      rw [openVpath_eq, namesEq]
      intro call member
      obtain ⟨isNormal, front, _, _, target⟩ := onWay call member
      exact ⟨isNormal, target ▸ List.prefix_append _ _⟩
    unfold listDir at member
    dsimp only at member
    split at member
    · exact way call member
    · rename_i location reached
      rw [openVpath_eq, namesEq] at reached
      obtain rfl := reach location reached
      rcases List.mem_append.mp member with old | new
      · exact way call old
      · obtain ⟨name, _, rfl⟩ := List.mem_map.mp new
        refine ⟨rfl, ?_⟩
        exact (List.prefix_append _ _).trans (List.prefix_append _ _)

end Http

/-- What the daemon opens for a block or for a listing is confined exactly when the
path it was given does not climb; for a block the path is not looked at where the
key is not configured or the virtual path is only a key. -/
theorem openings_confined_iff (config : Config) :
    (∀ params vpath path offset, Tracking.blockHint params = .ok (vpath, path, offset) →
      VPath.checkPath vpath.path = true →
        (Disk.BlockConfined config vpath path offset ↔
          .parentDir ∉ path.components ∨ vpath.key ∉ config.dirs ∨ vpath.level = 0)) ∧
      ∀ text upgrade vpath, Http.Route.parse text upgrade = .listDir vpath →
        (Http.ListingConfined config vpath ↔ .parentDir ∉ vpath.place) := by
  refine ⟨?_, fun _ _ _ _ => Http.listingConfined_iff⟩
  intro params vpath path offset hinted accepted
  obtain ⟨_, file, named, absolute⟩ := Tracking.of_blockHint hinted
  exact Disk.blockConfined_iff accepted absolute named

/-- A hint for the block of `/b` in `/k/a`, and a listing of `/k`. -/
theorem openings_confined_plain :
    Disk.BlockConfined (Metadata.Sample.env true).config Metadata.Sample.path
        (Path.ofText "/b".toList) 0 ∧
      Http.ListingConfined (Metadata.Sample.env true).config Metadata.Sample.base :=
  ⟨((openings_confined_iff _).1
      ⟨some (Metadata.Sample.path, Path.ofText "/b".toList, 0)⟩ _ _ _ rfl (by decide)).mpr (by decide),
    ((openings_confined_iff _).2 "/list-dir/k".toList false _ (by decide)).mpr (by decide)⟩

/-- A hint that climbs from `/k/a`, and a listing of `..`. -/
theorem openings_not_confined :
    (Tracking.blockHint ⟨some (Metadata.Sample.path, Path.ofText "/../../etc/passwd".toList, 0)⟩ =
        .ok (Metadata.Sample.path, Path.ofText "/../../etc/passwd".toList, 0) ∧
      ¬ Disk.BlockConfined (Metadata.Sample.env true).config Metadata.Sample.path
        (Path.ofText "/../../etc/passwd".toList) 0) ∧
      ∃ vpath, Http.Route.parse "/list-dir/..".toList false = .listDir vpath ∧
        ¬ Http.ListingConfined (Metadata.Sample.env true).config vpath := by
  refine ⟨⟨by decide, ?_⟩, (VPath.tryFrom (Path.ofText "/..".toList)).get (by decide), by decide, ?_⟩
  · have named : (Path.ofText "/../../etc/passwd".toList).fileName =
        some ⟨"passwd".toList, by decide, by decide, by decide, by decide⟩ := by decide
    rw [Disk.blockConfined_iff (by decide) (by decide) named]
    decide
  · rw [Http.listingConfined_iff]
    decide

end Ciruela
