import Ciruela.Daemon.Metadata.Record

/-!
# Histories of one path

What holds along every run of operations on one path: the entry in `writing` and
`x.new.state` agree, an append-only path keeps its image, no accepted signature is
lost, and a replacement that names the old image replaces that image.
-/

namespace Ciruela

open Foundation

namespace Metadata

/-- The run works on one spot. -/
def OnSpot (spot : Spot) (trace : List Event) : Prop :=
  ∀ event ∈ trace, event.op.vpath.place = spot.place

/-- No file operation of the run fails. -/
def Succeeding (trace : List Event) : Prop := ∀ event ∈ trace, event.op.io = Io.working

/-- The content decodes to a state of this image. -/
def Records (content : Option Content) (image : ImageId) : Prop :=
  ∃ state, content = some (.state state) ∧ state.image = image

instance (content : Option Content) (image : ImageId) : Decidable (Records content image) :=
  match content with
  | some (.state state) =>
      decidable_of_iff (state.image = image) ⟨fun same => ⟨state, rfl, same⟩, fun ⟨_, found, same⟩ => by
        obtain rfl := Content.state.inj (Option.some.inj found)
        exact same⟩
  | some .broken => isFalse fun ⟨_, found, _⟩ => by simp at found
  | none => isFalse fun ⟨_, found, _⟩ => by simp at found

/-- `x.new.state` is what the entry says. -/
def Record.Consistent (record : Record) : Prop :=
  ∀ writing, record.writing = some writing → record.newState = some (.state writing.toState)

/-- No call of a succeeding run fails. -/
theorem Succeeding.not_faulty {trace : List Event} {event : Event} (succeeding : Succeeding trace)
    (member : event ∈ trace) : ¬ event.op.io.Faulty := by
  rw [succeeding event member]
  exact Io.not_faulty_working

theorem onSpot_play {env : Env} {spot : Spot} {start : Meta} {ops : List Op}
    (located : ∀ op ∈ ops, op.vpath.place = spot.place) :
    OnSpot spot ((machine env).play start ops).1 :=
  fun _ member => located _ (Machine.Steps.op_mem_of_play member)

theorem succeeding_play {env : Env} {start : Meta} {ops : List Op}
    (working : ∀ op ∈ ops, op.io = Io.working) : Succeeding ((machine env).play start ops).1 :=
  fun _ member => working _ (Machine.Steps.op_mem_of_play member)

section Consistency

variable {env : Env} {spot : Spot} {start finish : Meta} {trace : List Event}

/-- A change in which no call fails keeps the record consistent. -/
theorem Change.consistent {before after : Record} {op : Op} {answer : Answer}
    (change : Change env before op answer after) (working : ¬ op.io.Faulty)
    (consistent : before.Consistent) : after.Consistent := by
  intro writing entry
  cases change with
  | kept => exact consistent writing entry
  | begun =>
      obtain rfl := Option.some.inj entry
      rfl
  | extended =>
      obtain rfl := Option.some.inj entry
      rfl
  | merged _ _ vacant => exact absurd (vacant.symm.trans entry) (by simp)
  | unsaved _ _ faulty => exact absurd faulty working
  | resumed =>
      obtain rfl := Option.some.inj entry
      rfl
  | resumedNew _ _ written =>
      obtain rfl := Option.some.inj entry
      exact written
  | aborted => simp at entry
  | committed => simp at entry
  | unfinished => simp at entry
  | removed vacant => exact absurd (vacant.symm.trans entry) (by simp)

/-- The metadata starts consistent. -/
theorem consistent_new (signatures : Tree Content) (indexes : Tree (List UInt8)) (spot : Spot) :
    ((Meta.new signatures indexes).record spot).Consistent := by
  intro writing entry
  simp [Meta.record, recordOf, Meta.new] at entry

/-- Along a run without failures the entry and the file agree at every step. -/
theorem consistent_steps {signatures : Tree Content} {indexes : Tree (List UInt8)}
    (steps : (machine env).Steps (Meta.new signatures indexes) trace finish)
    (onSpot : OnSpot spot trace) (succeeding : Succeeding trace) :
    (finish.record spot).Consistent ∧
      ∀ event ∈ trace, (event.before.record spot).Consistent ∧ (event.after.record spot).Consistent := by
  refine steps.preserves (fun store => (store.record spot).Consistent)
    (fun event => event.op.vpath.place = spot.place ∧ ¬ event.op.io.Faulty) ?_ ?_
    (consistent_new signatures indexes spot)
  · intro event valid allowed consistent
    exact (takes_change valid allowed.1).consistent allowed.2 consistent
  · intro event member
    exact ⟨onSpot event member, succeeding.not_faulty member⟩

end Consistency

section AppendOnly

variable {env : Env} {spot : Spot} {directory : Directory}

/-- The spot is below an append-only directory. -/
def AppendOnly (env : Env) (spot : Spot) : Prop :=
  ∃ directory, env.config.dirs.lookup (spot.dir.head spot.deep).text = some directory ∧
    directory.appendOnly = true

/-- The operation of the cleanup. -/
def Op.isRemoveStateFile : Op → Bool
  | removeStateFile _ _ _ _ => true
  | _ => false

/-- The operation of a restart. -/
def Op.isResumeUpload : Op → Bool
  | resumeUpload _ _ => true
  | _ => false

/-- The operation of a download that is given up. -/
def Op.isDirAborted : Op → Bool
  | dirAborted _ _ => true
  | _ => false

/-- The operation of a download that is done. -/
def Op.isDirCommitted : Op → Bool
  | dirCommitted _ _ => true
  | _ => false

/-- No state file is removed, and no abort follows a resumed upload. -/
def Undisturbed (trace : List Event) : Prop :=
  (∀ event ∈ trace, event.op.isRemoveStateFile = false) ∧
    trace.Pairwise fun first second =>
      first.op.isResumeUpload = true → second.op.isDirAborted = false

instance (trace : List Event) : Decidable (Undisturbed trace) := inferInstanceAs (Decidable (_ ∧ _))

/-- A run that is undisturbed was so before its last step. -/
theorem Undisturbed.snoc {trace : List Event} {event : Event}
    (undisturbed : Undisturbed (trace ++ [event])) :
    Undisturbed trace ∧ event.op.isRemoveStateFile = false ∧
      ∀ earlier ∈ trace, earlier.op.isResumeUpload = true → event.op.isDirAborted = false := by
  obtain ⟨kept, calm⟩ := undisturbed
  obtain ⟨front, _, across⟩ := List.pairwise_append.mp calm
  exact ⟨⟨fun other member => kept other (List.mem_append_left _ member), front⟩,
    kept event (by simp), fun earlier member => across earlier member event (by simp)⟩

/-- A demand that is admitted at an append-only place replaces nothing. -/
theorem Demand.replaces_eq_none {demand : Demand} (appendOnly : AppendOnly env spot)
    (located : demand.path.place = spot.place) (admitted : demand.Admitted env) :
    demand.replaces = none := by
  obtain ⟨directory, configured, appends⟩ := appendOnly
  obtain ⟨other, found, _, replaceable, _⟩ := admitted
  rw [VPath.key_at located, configured] at found
  obtain rfl := Option.some.inj found
  by_contra replaces
  simp [appends] at replaceable
  exact replaces replaceable

/-- A demand is about the path of its operation. -/
theorem Op.demand_path {op : Op} {demand : Demand} (asked : op.demand = some demand) :
    demand.path = op.vpath := by
  cases op <;> simp [Op.demand] at asked <;> subst asked <;> rfl

/-- Nothing is written over a committed state of an append-only path. -/
theorem Change.appendOnly {before after : Record} {op : Op} {answer : Answer}
    (change : Change env before op answer after) (appendOnly : AppendOnly env spot)
    (located : op.vpath.place = spot.place) (working : ¬ op.io.Faulty)
    (separate : before.writing ≠ none → before.state = none) :
    after.writing ≠ none → after.state = none := by
  intro entry
  cases change with
  | kept => exact separate entry
  | begun asked admitted _ free =>
      rcases free with missing | ⟨state, _, _, replaces⟩
      · exact missing
      · have path := Op.demand_path asked
        have none := Demand.replaces_eq_none appendOnly (path ▸ located) admitted
        simp [Demand.Replaces, none] at replaces
  | extended _ _ writing => exact separate (by simp [writing])
  | merged _ _ vacant => exact absurd vacant entry
  | unsaved _ _ faulty => exact absurd faulty working
  | resumed => rfl
  | resumedNew _ missing => exact missing
  | aborted => simp at entry
  | committed => simp at entry
  | unfinished => simp at entry
  | removed => rfl

/-- Where the image of an append-only path is: in `x.state`, or, after a resume, in
`x.new.state` until it is committed again. -/
def Record.Holds (record : Record) (image : ImageId) (resumed : Prop) : Prop :=
  (record.writing = none ∧ Records record.state image) ∨
    (resumed ∧ record.state = none ∧
      ∃ writing, record.writing = some writing ∧ writing.image = image)

/-- A change at an append-only place keeps the image that is held. -/
theorem Change.holds {before after : Record} {op : Op} {answer : Answer} {image : ImageId}
    {resumed : Prop} (change : Change env before op answer after)
    (appendOnly : AppendOnly env spot) (located : op.vpath.place = spot.place)
    (working : ¬ op.io.Faulty) (consistent : before.Consistent)
    (kept : op.isRemoveStateFile = false) (finished : op.isDirAborted = true → ¬ resumed)
    (holds : before.Holds image resumed) :
    after.Holds image (resumed ∨ op.isResumeUpload = true) := by
  rcases holds with ⟨vacant, state, committed, rfl⟩ | ⟨wasResumed, missing, writing, entry, rfl⟩
  · -- The image is committed: only a resume takes it out of `x.state`.
    cases change with
    | kept => exact Or.inl ⟨vacant, state, committed, rfl⟩
    | begun asked admitted _ free =>
        have path := Op.demand_path asked
        have none := Demand.replaces_eq_none appendOnly (path ▸ located) admitted
        simp [committed, Demand.Replaces, none] at free
    | extended _ _ writing => simp [vacant] at writing
    | merged _ _ _ found =>
        obtain ⟨rfl⟩ := found.symm.trans committed
        exact Or.inl ⟨vacant, _, rfl, rfl⟩
    | unsaved _ _ faulty => exact absurd faulty working
    | resumed _ found =>
        obtain ⟨rfl⟩ := found.symm.trans committed
        exact Or.inr ⟨Or.inr rfl, rfl, _, rfl, rfl⟩
    | resumedNew _ missing => simp [committed] at missing
    | aborted writing => simp [vacant] at writing
    | committed writing => simp [vacant] at writing
    | unfinished writing => simp [vacant] at writing
    | removed => simp [Op.isRemoveStateFile] at kept
  · -- The image has been resumed: it leaves `writing` only by a commit.
    have written := consistent writing entry
    cases change with
    | kept => exact Or.inr ⟨Or.inl wasResumed, missing, writing, entry, rfl⟩
    | begun _ _ vacant => simp [vacant] at entry
    | extended _ _ found =>
        obtain ⟨rfl⟩ := found.symm.trans entry
        exact Or.inr ⟨Or.inl wasResumed, missing, _, rfl, rfl⟩
    | merged _ _ vacant => simp [vacant] at entry
    | unsaved _ _ faulty => exact absurd faulty working
    | resumed vacant => simp [vacant] at entry
    | resumedNew vacant => simp [vacant] at entry
    | aborted => exact absurd wasResumed (finished rfl)
    | committed _ found =>
        obtain ⟨rfl⟩ := found.symm.trans written
        exact Or.inl ⟨rfl, _, rfl, rfl⟩
    | unfinished _ failed =>
        rcases failed with faulty | absent
        · exact absurd faulty working
        · simp [written] at absent
    | removed vacant => simp [vacant] at entry

/-- Once `x.state` of an append-only path records an image, every later `x.state`
records it, as long as no state file is removed and no resumed upload is aborted. -/
theorem append_only_image_kept {signatures : Tree Content} {indexes : Tree (List UInt8)}
    {earlier later : List Event} {middle finish : Meta} {image : ImageId}
    (appendOnly : AppendOnly env spot)
    (before : (machine env).Steps (Meta.new signatures indexes) earlier middle)
    (after : (machine env).Steps middle later finish)
    (onSpot : OnSpot spot (earlier ++ later)) (succeeding : Succeeding (earlier ++ later))
    (recorded : Records (middle.record spot).state image) (undisturbed : Undisturbed later) :
    (finish.record spot).state = none ∨ Records (finish.record spot).state image := by
  have separate : (middle.record spot).writing ≠ none → (middle.record spot).state = none := by
    refine (before.preserves
      (fun store => (store.record spot).writing ≠ none → (store.record spot).state = none)
      (fun event => event.op.vpath.place = spot.place ∧ ¬ event.op.io.Faulty) ?_ ?_ ?_).1
    · intro event valid allowed separate
      exact (takes_change valid allowed.1).appendOnly appendOnly allowed.1 allowed.2 separate
    · intro event member
      have inside := List.mem_append_left later member
      exact ⟨onSpot event inside, succeeding.not_faulty inside⟩
    · simp [Meta.record, recordOf, Meta.new]
  have vacant : (middle.record spot).writing = none := by
    by_contra occupied
    obtain ⟨state, committed, _⟩ := recorded
    simp [separate occupied] at committed
  have holds := after.preserves_history
    (fun history store => Undisturbed history → (store.record spot).Consistent ∧
      (store.record spot).Holds image (∃ event ∈ history, event.op.isResumeUpload = true))
    (fun event => event.op.vpath.place = spot.place ∧ ¬ event.op.io.Faulty) ?_ ?_ ?_ undisturbed
  · rcases holds.2 with ⟨_, records⟩ | ⟨_, missing, _⟩
    · exact Or.inr records
    · exact Or.inl missing
  · intro history event valid allowed inductionHypothesis calm
    obtain ⟨earlierCalm, kept, finished⟩ := calm.snoc
    obtain ⟨consistent, holds⟩ := inductionHypothesis earlierCalm
    have change := takes_change valid allowed.1
    refine ⟨change.consistent allowed.2 consistent, ?_⟩
    have next := change.holds appendOnly allowed.1 allowed.2 consistent kept
      (fun aborted => by
        rintro ⟨other, member, resumed⟩
        simp [finished other member resumed] at aborted) holds
    simpa [or_and_right, exists_or, List.mem_append] using next
  · intro event member
    have inside := List.mem_append_right earlier member
    exact ⟨onSpot event inside, succeeding.not_faulty inside⟩
  · intro _
    exact ⟨fun writing entry => by simp [vacant] at entry, Or.inl ⟨vacant, recorded⟩⟩

/-- A committed image of an append-only path survives an append of another image
and a resume that is committed. -/
theorem append_only_image_kept_resumed :
    let middle := ((machine (Sample.env true)).play (Meta.new Tree.empty Tree.empty)
      [Sample.append (Sample.image 1), Sample.commit]).2
    let finish := ((machine (Sample.env true)).play middle
      [Sample.append (Sample.image 2), Sample.resume, Sample.commit]).2
    (finish.record Sample.spot).state ≠ none ∧
      ((finish.record Sample.spot).state = none ∨
        Records (finish.record Sample.spot).state (Sample.image 1)) := by
  intro middle finish
  refine ⟨by decide, append_only_image_kept ⟨Sample.directory true, by decide, rfl⟩
    (Machine.Steps.of_play _ _ [Sample.append (Sample.image 1), Sample.commit])
    (Machine.Steps.of_play _ _ [Sample.append (Sample.image 2), Sample.resume, Sample.commit])
    (List.forall_mem_append.mpr ⟨onSpot_play (by decide), onSpot_play (by decide)⟩)
    (List.forall_mem_append.mpr ⟨succeeding_play ?_, succeeding_play ?_⟩)
    ⟨⟨Sample.image 1, [⟨5, Sample.signature 1⟩]⟩, by decide, rfl⟩ (by decide)⟩
  · simp [Sample.append, Sample.commit, Op.io]
  · simp [Sample.append, Sample.resume, Sample.commit, Op.io]

end AppendOnly

section Signatures

variable {env : Env} {spot : Spot}

/-- The entry is in the signature list of this file, which records this image. -/
def Lists (content : Option Content) (image : ImageId) (entry : SignatureEntry) : Prop :=
  ∃ state, content = some (.state state) ∧ state.image = image ∧ entry ∈ state.signatures

instance (content : Option Content) (image : ImageId) (entry : SignatureEntry) :
    Decidable (Lists content image entry) :=
  match content with
  | some (.state state) =>
      decidable_of_iff (state.image = image ∧ entry ∈ state.signatures)
        ⟨fun listed => ⟨state, rfl, listed⟩, fun ⟨_, same, listed⟩ => by
          obtain rfl := Content.state.inj (Option.some.inj same)
          exact listed⟩
  | some .broken => isFalse fun ⟨_, same, _⟩ => by simp at same
  | none => isFalse fun ⟨_, same, _⟩ => by simp at same

/-- The file that records an image: `x.new.state` while the image is being written
and `x.state` otherwise. -/
def Record.fileOf (record : Record) (image : ImageId) : Option Content :=
  match record.writing with
  | some writing => if writing.image = image then record.newState else record.state
  | none => record.state

/-- The operation aborts the image, removes it or replaces it by another. -/
def Record.Ends (before : Record) (op : Op) (answer : Answer) (image : ImageId) : Prop :=
  match op, answer with
  | .dirAborted _ _, _ => ∃ writing, before.writing = some writing ∧ writing.image = image
  | .dirCommitted _ _, _ => ∃ writing, before.writing = some writing ∧ writing.image ≠ image
  | .removeStateFile _ _ _ _, .removed (.ok ()) => Records before.state image
  | _, _ => False

instance (before : Record) (op : Op) (answer : Answer) (image : ImageId) :
    Decidable (before.Ends op answer image) :=
  match op, answer with
  | .dirAborted _ _, _ =>
      inferInstanceAs (Decidable (∃ writing ∈ before.writing, writing.image = image))
  | .dirCommitted _ _, _ =>
      inferInstanceAs (Decidable (∃ writing ∈ before.writing, writing.image ≠ image))
  | .removeStateFile _ _ _ _, .removed (.ok ()) =>
      inferInstanceAs (Decidable (Records before.state image))
  | .removeStateFile _ _ _ _, .removed (.error _) => isFalse not_false
  | .removeStateFile _ _ _ _, .upload _ => isFalse not_false
  | .removeStateFile _ _ _ _, .resumed _ => isFalse not_false
  | .removeStateFile _ _ _ _, .finished => isFalse not_false
  | .startAppend _ _ _, _ => isFalse not_false
  | .startReplace _ _ _, _ => isFalse not_false
  | .resumeUpload _ _, _ => isFalse not_false

/-- A change keeps a signature that is listed. -/
theorem Change.lists {before after : Record} {op : Op} {answer : Answer} {image : ImageId}
    {entry : SignatureEntry} (change : Change env before op answer after)
    (working : ¬ op.io.Faulty) (consistent : before.Consistent)
    (goesOn : ¬ before.Ends op answer image) (listed : Lists (before.fileOf image) image entry) :
    Lists (after.fileOf image) image entry := by
  cases change with
  | kept => exact listed
  | begun _ _ vacant free =>
      simp only [Record.fileOf, vacant] at listed
      obtain ⟨state, committed, rfl, member⟩ := listed
      rcases free with missing | ⟨other, found, different, _⟩
      · simp [committed] at missing
      · obtain ⟨rfl⟩ := found.symm.trans committed
        exact ⟨state, by simp [Record.fileOf, Ne.symm different, committed], rfl, member⟩
  | @extended _ demand old _ _ writing same =>
      have written := consistent old writing
      by_cases mine : old.image = image
      · simp only [Record.fileOf, writing, mine, if_true, written] at listed
        obtain ⟨state, found, rfl, member⟩ := listed
        obtain ⟨rfl⟩ := found
        refine ⟨(old.extend (sortSignatures demand.entries)).toState, ?_, rfl, ?_⟩
        · simp [Record.fileOf, Writing.extend, Writing.toState]
        · exact Writing.mem_extend.mpr (Or.inl member)
      · have notMine : (old.extend (sortSignatures demand.entries)).image ≠ image := mine
        simp only [Record.fileOf, writing, mine, if_false] at listed
        simpa [Record.fileOf, notMine] using listed
  | merged _ _ vacant committed =>
      simp only [Record.fileOf, vacant, committed] at listed ⊢
      obtain ⟨state, found, rfl, member⟩ := listed
      obtain ⟨rfl⟩ := found
      exact ⟨_, rfl, rfl, mem_appendSignatures.mpr (Or.inl member)⟩
  | unsaved _ _ faulty => exact absurd faulty working
  | resumed vacant committed =>
      simp only [Record.fileOf, vacant, committed] at listed
      obtain ⟨state, found, rfl, member⟩ := listed
      obtain ⟨rfl⟩ := found
      exact ⟨_, by simp [Record.fileOf], rfl, member⟩
  | resumedNew vacant missing =>
      simp only [Record.fileOf, vacant, missing] at listed
      obtain ⟨state, found, _⟩ := listed
      simp at found
  | @aborted _ _ old writing =>
      by_cases mine : old.image = image
      · exact absurd ⟨_, writing, mine⟩ goesOn
      · simpa [Record.fileOf, writing, mine] using listed
  | @committed _ _ old _ writing written =>
      by_cases mine : old.image = image
      · simpa [Record.fileOf, writing, mine, written] using listed
      · exact absurd ⟨_, writing, mine⟩ goesOn
  | unfinished writing failed =>
      rcases failed with faulty | absent
      · exact absurd faulty working
      · simp [consistent _ writing] at absent
  | removed vacant =>
      simp only [Record.fileOf, vacant] at listed
      obtain ⟨state, found, same, _⟩ := listed
      exact absurd ⟨state, found, same⟩ goesOn

/-- Every entry of an accepted request is in the file of its image right after. -/
theorem Change.accepted_lists {before after : Record} {op : Op} {accept : Accept} {demand : Demand}
    (change : Change env before op (accepted accept) after) (asked : op.demand = some demand)
    {entry : SignatureEntry} (member : entry ∈ demand.entries) :
    Lists (after.fileOf demand.image) demand.image entry := by
  have sorted : entry ∈ sortSignatures demand.entries := mem_sortSignatures.mpr member
  cases change with
  | kept idle => exact absurd idle not_false
  | begun asked' =>
      obtain ⟨rfl⟩ := asked.symm.trans asked'
      exact ⟨demand.state, by simp [Record.fileOf], rfl, sorted⟩
  | @extended _ demand' old asked' _ _ same =>
      obtain ⟨rfl⟩ := asked.symm.trans asked'
      refine ⟨(old.extend (sortSignatures demand.entries)).toState, ?_, same, ?_⟩
      · simp [Record.fileOf, Writing.extend, same]
      · exact Writing.mem_extend.mpr (Or.inr sorted)
  | merged asked' _ vacant committed same =>
      obtain ⟨rfl⟩ := asked.symm.trans asked'
      simp only [Record.fileOf, vacant]
      exact ⟨_, rfl, same, mem_appendSignatures.mpr (Or.inr sorted)⟩

/-- A commit of a consistent record moves the entry into `x.state`. -/
theorem Change.commits {before after : Record} {op : Op} {answer : Answer} {writing : Writing}
    (change : Change env before op answer after) (commit : op.isDirCommitted = true)
    (working : ¬ op.io.Faulty) (entry : before.writing = some writing)
    (written : before.newState = some (.state writing.toState)) :
    after = ⟨none, some (.state writing.toState), none⟩ := by
  cases op with
  | dirCommitted io vpath =>
      cases change with
      | kept _ nothing => simp [nothing rfl] at entry
      | begun asked => simp [Op.demand] at asked
      | extended asked => simp [Op.demand] at asked
      | merged asked => simp [Op.demand] at asked
      | unsaved asked => simp [Op.demand] at asked
      | committed _ found =>
          obtain ⟨rfl⟩ := found.symm.trans written
          rfl
      | unfinished _ failed =>
          rcases failed with faulty | absent
          · exact absurd faulty working
          · simp [written] at absent
  | _ => simp [Op.isDirCommitted] at commit

/-- The signatures of an accepted request stay in the file of its image until the
image is aborted, removed or replaced, and a commit puts the entry of `writing`
into `x.state`. -/
theorem accepted_signatures_kept {signatures : Tree Content} {indexes : Tree (List UInt8)}
    {trace : List Event} {finish : Meta}
    (steps : (machine env).Steps (Meta.new signatures indexes) trace finish)
    (onSpot : OnSpot spot trace) (succeeding : Succeeding trace) :
    (∀ earlier request later accept demand entry, trace = earlier ++ request :: later →
      request.op.demand = some demand → request.answer = accepted accept →
      entry ∈ demand.entries →
      (∀ event ∈ later,
        ¬ (event.before.record spot).Ends event.op event.answer demand.image) →
      Lists ((finish.record spot).fileOf demand.image) demand.image entry) ∧
    ∀ event ∈ trace, event.op.isDirCommitted = true →
      ∀ writing, (event.before.record spot).writing = some writing →
        (event.after.record spot).state = some (.state writing.toState) ∧
          (event.after.record spot).writing = none := by
  have consistent := consistent_steps steps onSpot succeeding
  refine ⟨?_, ?_⟩
  · intro earlier request later accept demand entry whole asked answered member goesOn
    subst whole
    obtain ⟨_, valid, after⟩ := steps.cut
    have inTrace : request ∈ earlier ++ request :: later := by simp
    have change := takes_change valid (onSpot request inTrace)
    rw [answered] at change
    refine (after.preserves
      (fun store => (store.record spot).Consistent ∧
        Lists ((store.record spot).fileOf demand.image) demand.image entry)
      (fun event => event.op.vpath.place = spot.place ∧ ¬ event.op.io.Faulty ∧
        ¬ (event.before.record spot).Ends event.op event.answer demand.image) ?_ ?_ ?_).1.2
    · intro event valid allowed here
      have change := takes_change valid allowed.1
      exact ⟨change.consistent allowed.2.1 here.1,
        change.lists allowed.2.1 here.1 allowed.2.2 here.2⟩
    · intro event laterMember
      have inside : event ∈ earlier ++ request :: later := by simp [laterMember]
      exact ⟨onSpot event inside, succeeding.not_faulty inside, goesOn event laterMember⟩
    · exact ⟨(consistent.2 request inTrace).2, change.accepted_lists asked member⟩
  · intro event member committed writing entry
    have written := (consistent.2 event member).1 writing entry
    have change := takes_change (steps.takes_of_mem member) (onSpot event member)
    rw [change.commits committed (succeeding.not_faulty member) entry written]
    exact ⟨rfl, rfl⟩

/-- An append, a second append with another signature and the commit. -/
theorem accepted_signatures_kept_committed :
    let played := (machine (Sample.env false)).play (Meta.new Tree.empty Tree.empty)
      [Sample.append (Sample.image 1), Sample.appendAgain (Sample.image 1), Sample.commit]
    Lists ((played.2.record Sample.spot).fileOf (Sample.image 1)) (Sample.image 1)
      ⟨5, Sample.signature 1⟩ := by
  intro played
  have kept := accepted_signatures_kept
    (Machine.Steps.of_play (machine (Sample.env false)) (Meta.new Tree.empty Tree.empty)
      [Sample.append (Sample.image 1), Sample.appendAgain (Sample.image 1), Sample.commit])
    (onSpot_play (by decide) : OnSpot Sample.spot _)
    (succeeding_play (by simp [Sample.append, Sample.appendAgain, Sample.commit, Op.io]))
  refine kept.1 [] (played.1.head (by decide)) played.1.tail .new
    (.ofAppend Sample.keys ⟨Sample.path, Sample.image 1, 5, [Sample.signature 1]⟩) _ rfl rfl rfl
    (by decide) (by decide)

end Signatures

section Authorisation

variable {env : Env}

/-- The state is recorded in `writing` or in one of the two files. -/
def Record.Has (record : Record) (state : State) : Prop :=
  record.writing.map Writing.toState = some state ∨ record.state = some (.state state) ∨
    record.newState = some (.state state)

/-- A request put an entry into `writing` and was answered with an error. -/
def LeftOver (before : Record) (answer : Answer) (after : Record) : Prop :=
  before.writing = none ∧ (∃ error, answer = .upload (.error error)) ∧ after.writing ≠ none

/-- A state is recorded because it was recorded before, or because of a request that
passed its check: it was accepted, it added to what was recorded, or its entry was
left over. -/
theorem Change.has {before after : Record} {op : Op} {answer : Answer}
    (change : Change env before op answer after) {state : State} (has : after.Has state) :
    before.Has state ∨
      ∃ demand, op.demand = some demand ∧ demand.Admitted env ∧
        state.Covers demand.image demand.entries ∧
        ((∃ accept, answer = accepted accept) ∨
          (∃ older, before.Has older ∧ state.Covers older.image older.signatures) ∨
          LeftOver before answer after) := by
  cases change with
  | kept => exact Or.inl has
  | @begun _ demand _ asked admitted =>
      have fresh : demand.state.Covers demand.image demand.entries :=
        ⟨rfl, fun entry member => mem_sortSignatures.mpr member⟩
      rcases has with entry | committed | written
      · obtain rfl := Option.some.inj entry
        exact Or.inr ⟨demand, asked, admitted, fresh, Or.inl ⟨_, rfl⟩⟩
      · exact Or.inl (Or.inr (Or.inl committed))
      · obtain ⟨rfl⟩ := written
        exact Or.inr ⟨demand, asked, admitted, fresh, Or.inl ⟨_, rfl⟩⟩
  | @extended _ demand older asked admitted _ same =>
      have fresh : (older.extend (sortSignatures demand.entries)).toState.Covers demand.image
          demand.entries :=
        ⟨same, fun entry member => Writing.mem_extend.mpr (Or.inr (mem_sortSignatures.mpr member))⟩
      rcases has with entry | committed | written
      · obtain rfl := Option.some.inj entry
        exact Or.inr ⟨demand, asked, admitted, fresh, Or.inl ⟨_, rfl⟩⟩
      · exact Or.inl (Or.inr (Or.inl committed))
      · obtain ⟨rfl⟩ := written
        exact Or.inr ⟨demand, asked, admitted, fresh, Or.inl ⟨_, rfl⟩⟩
  | @merged _ demand older asked admitted _ _ same =>
      rcases has with entry | committed | written
      · exact Or.inl (Or.inl entry)
      · obtain ⟨rfl⟩ := committed
        refine Or.inr ⟨demand, asked, admitted, ⟨same, fun entry member => ?_⟩, Or.inl ⟨_, rfl⟩⟩
        exact mem_appendSignatures.mpr (Or.inr (mem_sortSignatures.mpr member))
      · exact Or.inl (Or.inr (Or.inr written))
  | @unsaved _ demand error writing asked admitted _ image signed steady _ keeps =>
      rcases has with entry | files
      · obtain rfl := Option.some.inj entry
        refine Or.inr ⟨demand, asked, admitted, ⟨image, signed⟩, Or.inr ?_⟩
        cases earlier : before.writing with
        | none => exact Or.inr ⟨earlier, ⟨error, rfl⟩, by simp⟩
        | some old =>
            have same : writing.image = old.image := image.trans (steady old earlier).symm
            exact Or.inl ⟨old.toState, Or.inl (by rw [earlier]; rfl), same, keeps old earlier⟩
      · exact Or.inl (Or.inr files)
  | resumed _ committed =>
      rcases has with entry | missing | written
      · obtain rfl := Option.some.inj entry
        exact Or.inl (Or.inr (Or.inl committed))
      · simp at missing
      · obtain ⟨rfl⟩ := written
        exact Or.inl (Or.inr (Or.inl committed))
  | resumedNew _ _ written =>
      rcases has with entry | files
      · obtain rfl := Option.some.inj entry
        exact Or.inl (Or.inr (Or.inr written))
      · exact Or.inl (Or.inr files)
  | aborted =>
      rcases has with entry | committed | written
      · simp at entry
      · exact Or.inl (Or.inr (Or.inl committed))
      · simp at written
  | committed _ written =>
      rcases has with entry | committed | gone
      · simp at entry
      · exact Or.inl (Or.inr (Or.inr (written.trans committed)))
      · simp at gone
  | unfinished =>
      rcases has with entry | files
      · simp at entry
      · exact Or.inl (Or.inr files)
  | removed =>
      rcases has with entry | gone | written
      · exact Or.inl (Or.inl entry)
      · simp at gone
      · exact Or.inl (Or.inr (Or.inr written))

/-- A request that passed its check has an entry that is good for the keys. -/
theorem Demand.Admitted.good {demand : Demand} (admitted : demand.Admitted env) :
    ∃ directory keys, env.config.dirs.lookup demand.path.key = some directory ∧
      readUploadKeys env demand.keys directory = .ok keys ∧
      ∃ entry ∈ demand.entries,
        verify env.ed25519 ⟨demand.path.path.text, demand.image.bytes, entry.timestamp⟩
          entry.signature keys = true := by
  obtain ⟨directory, configured, _, _, passed⟩ := admitted
  obtain ⟨keys, read, signature, member, good⟩ := checkKeys_eq_ok_true passed
  exact ⟨directory, keys, configured, read, ⟨demand.timestamp, signature⟩,
    List.mem_map_of_mem member, good⟩

end Authorisation

section Replacement

variable {env : Env} {spot : Spot}

/-- The image a replacement wants to replace. -/
def Op.oldImage : Op → Option ImageId
  | startReplace _ _ params => params.oldImage
  | _ => none

/-- A replacement that names an old image reaches the lock where nothing is
committed and nothing is being written. -/
def ReplacesNothing (env : Env) (spot : Spot) (event : Event) : Prop :=
  event.op.oldImage ≠ none ∧ (∃ demand, event.op.demand = some demand ∧ demand.Admitted env) ∧
    (event.before.record spot).writing = none ∧ (event.before.record spot).state = none

/-- What the upload that a replacement began is about to replace. -/
def Record.Pending (record : Record) (old : ImageId) : Prop :=
  record.writing ≠ none ∧ Records record.state old

/-- An upload that is neither finished nor aborted leaves `x.state` alone. -/
theorem Change.pending {before after : Record} {op : Op} {answer : Answer} {old : ImageId}
    (change : Change env before op answer after) (going : op.finishes = false)
    (pending : before.Pending old) : after.Pending old := by
  obtain ⟨occupied, records⟩ := pending
  cases change with
  | kept => exact ⟨occupied, records⟩
  | begun => exact ⟨by simp, records⟩
  | extended => exact ⟨by simp, records⟩
  | merged _ _ vacant => exact absurd vacant occupied
  | unsaved => exact ⟨by simp, records⟩
  | resumed vacant => exact absurd vacant occupied
  | resumedNew vacant => exact absurd vacant occupied
  | aborted => simp [Op.finishes] at going
  | committed => simp [Op.finishes] at going
  | unfinished _ _ finishes => simp [finishes] at going
  | removed vacant => exact absurd vacant occupied

/-- A replacement that names an old image begins only over that image, unless it
reaches the lock where there is nothing. -/
theorem Change.begun_over {before after : Record} {op : Op} {old : ImageId}
    (change : Change env before op (accepted .new) after) (names : op.oldImage = some old)
    (guarded : (∃ demand, op.demand = some demand ∧ demand.Admitted env) →
      before.writing = none → before.state ≠ none) :
    Records before.state old ∧ after.Pending old := by
  cases change with
  | kept idle => exact absurd idle not_false
  | @begun _ demand _ asked admitted vacant free =>
      rcases free with missing | ⟨state, committed, _, replaces⟩
      · exact absurd missing (guarded ⟨demand, asked, admitted⟩ vacant)
      · have replacing : demand.replaces = some (some old) := by
          cases op with
          | startReplace io keys params =>
              obtain rfl := Option.some.inj asked
              exact congrArg some names
          | _ => simp [Op.oldImage] at names
        have same : state.image = old := by
          rcases replaces with unnamed | named
          · simp [replacing] at unnamed
          · simpa [replacing, eq_comm] using named
        exact ⟨⟨state, committed, same⟩, by simp, state, committed, same⟩

/-- A replacement that names an old image and is accepted as new finds that image
in `x.state`, and `x.state` still records it when the upload is committed, in every
run where no such replacement reaches the lock over nothing. -/
theorem replace_over_old_image {signatures : Tree Content} {indexes : Tree (List UInt8)}
    {earlier later : List Event} {request : Event} {finish : Meta} {old : ImageId}
    (steps : (machine env).Steps (Meta.new signatures indexes) (earlier ++ request :: later) finish)
    (onSpot : OnSpot spot (earlier ++ request :: later))
    (guarded : ∀ event ∈ earlier ++ request :: later, ¬ ReplacesNothing env spot event)
    (names : request.op.oldImage = some old) (began : request.answer = accepted .new) :
    Records (request.before.record spot).state old ∧
      ∀ between commit rest, later = between ++ commit :: rest →
        (∀ event ∈ between, event.op.finishes = false) → commit.op.isDirCommitted = true →
        Records (commit.before.record spot).state old := by
  obtain ⟨_, valid, after⟩ := steps.cut
  have inTrace : request ∈ earlier ++ request :: later := by simp
  have change := takes_change valid (onSpot request inTrace)
  rw [began] at change
  obtain ⟨records, pending⟩ := change.begun_over names fun admitted vacant missing =>
    guarded request inTrace ⟨by simp [names], admitted, vacant, missing⟩
  refine ⟨records, ?_⟩
  intro between commit others whole going _
  subst whole
  obtain ⟨toCommit, _, _⟩ := after.cut
  refine (toCommit.preserves (fun store : Meta => (store.record spot).Pending old)
    (fun event : Event => event.op.vpath.place = spot.place ∧ event.op.finishes = false) ?_ ?_ pending).1.2
  · intro event valid allowed here
    exact (takes_change valid allowed.1).pending allowed.2 here
  · intro event member
    exact ⟨onSpot event (by simp [member]), going event member⟩

/-- The old image is still there when its replacement is committed. -/
theorem replace_over_old_image_committed :
    let played := (machine (Sample.env false)).play (Meta.new Tree.empty Tree.empty) Sample.replacing
    Records ((played.1.get ⟨4, by decide⟩).before.record Sample.spot).state (Sample.image 1) := by
  intro played
  have guarded : ∀ event ∈ played.1, ¬ (event.op.oldImage ≠ none ∧
      (event.before.record Sample.spot).writing = none ∧
      (event.before.record Sample.spot).state = none) := by decide
  have whole : played.1 = [played.1.get ⟨0, by decide⟩, played.1.get ⟨1, by decide⟩] ++
      played.1.get ⟨2, by decide⟩ :: [played.1.get ⟨3, by decide⟩, played.1.get ⟨4, by decide⟩] := rfl
  have steps := Machine.Steps.of_play (machine (Sample.env false)) (Meta.new Tree.empty Tree.empty)
    Sample.replacing
  have onSpot : OnSpot Sample.spot played.1 := onSpot_play (by decide)
  rw [whole] at guarded onSpot
  refine (replace_over_old_image (whole ▸ steps) onSpot
    (fun event member nothing => guarded event member ⟨nothing.1, nothing.2.2⟩) rfl rfl).2
    [played.1.get ⟨3, by decide⟩] (played.1.get ⟨4, by decide⟩) [] rfl (by decide) rfl

/-- From an empty store a replacement that names an old image is accepted. -/
theorem replace_accepted_over_nothing :
    ∃ (trace : List Event) (finish : Meta) (request : Event),
      (machine (Sample.env false)).Steps (Meta.new Tree.empty Tree.empty) trace finish ∧
        OnSpot Sample.spot trace ∧ Succeeding trace ∧ request ∈ trace ∧
        request.op.oldImage = some (Sample.image 1) ∧ request.answer = accepted .new ∧
        ¬ Records (request.before.record Sample.spot).state (Sample.image 1) := by
  let ops := [Sample.replace (Sample.image 2) (some (Sample.image 1))]
  let played := (machine (Sample.env false)).play (Meta.new Tree.empty Tree.empty) ops
  refine ⟨played.1, played.2, played.1.head (by decide), Machine.Steps.of_play _ _ _,
    onSpot_play (by decide), succeeding_play (by simp [ops, Sample.replace, Op.io]),
    List.head_mem _, rfl, rfl, by decide⟩

end Replacement

end Metadata

end Ciruela
