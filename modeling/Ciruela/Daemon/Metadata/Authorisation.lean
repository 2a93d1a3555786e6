import Ciruela.Daemon.Metadata.Rollback

/-!
# Who let an image in

Whatever is recorded of a path is backed by a signature of a request that was
accepted. There is one way around: a request that begins an upload puts its entry
into `writing` first and writes `x.new.state` after that, and when the file cannot
be written the request is answered with the error and the entry stays.
-/

namespace Ciruela

open Foundation

namespace Metadata

/-- The request begins an upload at the spot: it passes its check and gets to the
lock, nothing is being written there, and what is read of `x.state` does not stop it. -/
structure BeginsUpload (env : Env) (spot : Spot) (store : Meta) (op : Op) (demand : Demand) : Prop where
  asked : op.demand = some demand
  admitted : demand.Admitted env
  opens : op.io.OpensParent
  vacant : (store.record spot).writing = none
  free : ∃ read, readFile op.io (store.signatures.files spot.dir) (stateFile spot.name) = .ok read ∧
    ∀ state, read = some state → state.image ≠ demand.image ∧ demand.Replaces state.image

section LeftOver

variable {env : Env} {spot : Spot} {io : Io} {store after : Meta} {op : Op} {answer : Answer}
  {demand : Demand}

/-- Where nothing is being written, the request gets an entry of its own exactly where
what is read of `x.state` does not stop it. -/
theorem Demand.entry_none_iff {name : FileName} {files : Files Content} :
    (∃ writing, demand.entry io name none files = some writing) ↔
      ∃ read, readFile io files (stateFile name) = .ok read ∧
        ∀ state, read = some state → state.image ≠ demand.image ∧ demand.Replaces state.image := by
  unfold Demand.entry Demand.Replaces
  cases readFile io files (stateFile name) with
  | error => simp
  | ok found =>
      cases found with
      | none => simp
      | some state =>
          cases demand.replaces with
          | none => simp
          | some oldImage => cases oldImage <;> simp [eq_comm]

/-- Only a request that passes its check leaves an entry over. -/
theorem LeftOver.asked {before record : Record} (leftOver : LeftOver before answer record)
    (change : Change env before op answer record) :
    ∃ demand, op.demand = some demand ∧ demand.Admitted env := by
  obtain ⟨vacant, ⟨error, answered⟩, entry⟩ := leftOver
  cases change with
  | kept => exact absurd vacant entry
  | unsaved asked admitted => exact ⟨_, asked, admitted⟩
  | _ => cases answered

/-- A request leaves its entry over exactly when it begins an upload and cannot put
`x.new.state` in its place. -/
theorem run_leftOver_iff (located : op.vpath.place = spot.place)
    (ran : run env store op = .ok (answer, after)) :
    LeftOver (store.record spot) answer (after.record spot) ↔
      ∃ demand, BeginsUpload env spot store op demand ∧ op.io.LosesNewState spot.name := by
  constructor
  · intro leftOver
    obtain ⟨demand, asked, admitted⟩ := leftOver.asked (run_at located ran).2
    obtain ⟨vacant, ⟨error, rfl⟩, entry⟩ := leftOver
    obtain ⟨opens, answered, record⟩ | ⟨_, record⟩ := run_admitted asked admitted located ran
    · rw [vacant] at answered record
      have refused : Refusal (demand.locked op.io spot.name none
          (store.signatures.files spot.dir)).1 := by
        rw [← Answer.upload.inj answered]
        trivial
      obtain ⟨writing, accept, saved, stores⟩ | ⟨_, keeps⟩ := locked_cases demand op.io
        spot.name none (store.signatures.files spot.dir)
      · exact ⟨demand, ⟨asked, admitted, opens, vacant, Demand.entry_none_iff.mp ⟨_, saved⟩⟩,
          (storeNewState_refused (stores ▸ refused)).1⟩
      · rw [record, keeps refused] at entry
        exact absurd rfl entry
    · rw [record] at entry
      exact absurd vacant entry
  · rintro ⟨demand, begins, loses⟩
    obtain ⟨_, rfl, record⟩ | ⟨closed, _⟩ :=
      run_admitted begins.asked begins.admitted located ran
    · rw [begins.vacant] at record ⊢
      obtain ⟨writing, accept, _, stores⟩ | ⟨nothing, _⟩ := locked_cases demand op.io
        spot.name none (store.signatures.files spot.dir)
      · obtain ⟨stored, _⟩ | ⟨⟨error, failed⟩, _, entry⟩ :=
          storeNewState_cases op.io spot.name writing accept (store.signatures.files spot.dir)
        · have refused : Refusal (storeNewState op.io spot.name writing accept
              (store.signatures.files spot.dir)).1 := refusal_of_losesNewState loses
          rw [stored] at refused
          exact refused.elim
        · rw [stores] at record ⊢
          refine ⟨begins.vacant, ⟨error, congrArg Answer.upload failed⟩, ?_⟩
          rw [record, entry]
          simp
      · obtain ⟨writing, saved⟩ := Demand.entry_none_iff.mpr begins.free
        cases nothing.symm.trans saved
    · exact absurd begins.opens closed

end LeftOver

section Backed

variable {env : Env} {spot : Spot}

/-- The signatures of the state have an entry that was good for the upload keys
read when a request for the same path and image was accepted. -/
def Backed (env : Env) (spot : Spot) (trace : List Event) (state : State) : Prop :=
  ∃ entry ∈ state.signatures, ∃ event ∈ trace, ∃ accept demand directory keys,
    event.op.demand = some demand ∧ event.answer = accepted accept ∧
      demand.path.place = spot.place ∧ demand.image = state.image ∧
      env.config.dirs.lookup demand.path.key = some directory ∧
      readUploadKeys env demand.keys directory = .ok keys ∧
      verify env.ed25519 ⟨demand.path.path.text, state.image.bytes, entry.timestamp⟩
        entry.signature keys = true

/-- What is backed stays backed. -/
theorem Backed.append {trace : List Event} {state : State} (backed : Backed env spot trace state)
    (event : Event) : Backed env spot (trace ++ [event]) state := by
  obtain ⟨entry, member, accepted, inTrace, rest⟩ := backed
  exact ⟨entry, member, accepted, List.mem_append_left _ inTrace, rest⟩

/-- More signatures for the same image are backed as well. -/
theorem Backed.of_covers {trace : List Event} {older state : State}
    (backed : Backed env spot trace older) (covers : state.Covers older.image older.signatures) :
    Backed env spot trace state := by
  obtain ⟨entry, member, backing⟩ := backed
  rw [← covers.1] at backing
  exact ⟨entry, covers.2 entry member, backing⟩

/-- An accepted request backs every state with its image and signatures. -/
theorem Demand.Admitted.backed {trace : List Event} {event : Event} {demand : Demand}
    {accept : Accept} {state : State} (admitted : demand.Admitted env)
    (asked : event.op.demand = some demand) (located : event.op.vpath.place = spot.place)
    (answered : event.answer = accepted accept)
    (covers : state.Covers demand.image demand.entries) :
    Backed env spot (trace ++ [event]) state := by
  obtain ⟨directory, keys, configured, read, entry, member, good⟩ := admitted.good
  obtain ⟨image, signatures⟩ := covers
  have atSpot : demand.path.place = spot.place := by
    rw [Op.demand_path asked]
    exact located
  refine ⟨entry, signatures entry member, event, by simp, accept, demand, directory, keys, asked,
    answered, atSpot, image.symm, configured, read, ?_⟩
  rw [image]
  exact good

/-- From no state on, whatever `x.state`, `x.new.state` or `writing` records is
backed by a signature that was good when a request for the same path and image was
accepted, in every run where a request that begins an upload can write
`x.new.state`. -/
theorem records_backed {signatures : Tree Content} {indexes : Tree (List UInt8)}
    {trace : List Event} {finish : Meta}
    (steps : (machine env).Steps (Meta.new signatures indexes) trace finish)
    (onSpot : OnSpot spot trace)
    (noState : (signatures.files spot.dir).lookup (stateFile spot.name) = none)
    (noNewState : (signatures.files spot.dir).lookup (newStateFile spot.name) = none)
    (stores : ∀ event ∈ trace, ∀ demand, BeginsUpload env spot event.before event.op demand →
      ¬ event.op.io.LosesNewState spot.name) :
    ∀ state, (finish.record spot).Has state → Backed env spot trace state := by
  refine steps.preserves_history
    (fun history store => ∀ state, (store.record spot).Has state → Backed env spot history state)
    (fun event => event.op.vpath.place = spot.place ∧
      ∀ demand, BeginsUpload env spot event.before event.op demand →
        ¬ event.op.io.LosesNewState spot.name)
    ?_ (fun event member => ⟨onSpot event member, stores event member⟩) ?_
  · intro history event valid allowed backed state has
    obtain ⟨located, stored⟩ := allowed
    rcases (takes_change valid located).has has with
      before | ⟨demand, asked, admitted, covers, ⟨accept, answered⟩ | ⟨older, before, more⟩ | leftOver⟩
    · exact (backed state before).append event
    · exact admitted.backed asked located answered covers
    · exact ((backed older before).of_covers more).append event
    · obtain ⟨demand, begins, loses⟩ :=
        (run_leftOver_iff located (takes_iff.mp valid)).mp leftOver
      exact absurd loses (stored demand begins)
  · intro state has
    simp [Record.Has, Meta.record, recordOf, Meta.new, noState, noNewState] at has

/-- The committed state of an append is backed. -/
theorem records_backed_committed :
    let played := (machine (Sample.env false)).play (Meta.new Tree.empty Tree.empty)
      [Sample.append (Sample.image 1), Sample.commit]
    (played.2.record Sample.spot).Has ⟨Sample.image 1, [⟨5, Sample.signature 1⟩]⟩ ∧
      Backed (Sample.env false) Sample.spot played.1
        ⟨Sample.image 1, [⟨5, Sample.signature 1⟩]⟩ := by
  intro played
  have has : (played.2.record Sample.spot).Has ⟨Sample.image 1, [⟨5, Sample.signature 1⟩]⟩ :=
    Or.inr (Or.inl (by decide))
  have working : Succeeding played.1 :=
    succeeding_play (by simp [Sample.append, Sample.commit, Op.io])
  refine ⟨has, records_backed
    (Machine.Steps.of_play (machine (Sample.env false)) (Meta.new Tree.empty Tree.empty)
      [Sample.append (Sample.image 1), Sample.commit])
    (onSpot_play (by decide)) (by decide) (by decide) ?_ _ has⟩
  intro event member _ _
  rw [working event member]
  simp [Io.LosesNewState]

/-- An append whose `x.new.state` cannot be written is answered with the error, and
its image is recorded in `writing` with no request accepted. -/
theorem failed_append_recorded :
    let played := (machine (Sample.env false)).play (Meta.new Tree.empty Tree.empty)
      [Sample.appendToFull]
    OnSpot Sample.spot played.1 ∧
      (played.2.record Sample.spot).Has ⟨Sample.image 1, [⟨5, Sample.signature 1⟩]⟩ ∧
      (∀ event ∈ played.1, event.answer =
        .upload (.error (.writeMeta (newStateFile Sample.name)))) ∧
      ¬ Backed (Sample.env false) Sample.spot played.1
        ⟨Sample.image 1, [⟨5, Sample.signature 1⟩]⟩ := by
  intro played
  have answers : ∀ event ∈ played.1, event.answer =
      .upload (.error (.writeMeta (newStateFile Sample.name))) := by
    intro event member
    obtain rfl := List.mem_singleton.mp member
    rfl
  refine ⟨onSpot_play (by decide), Or.inl (by decide), answers, ?_⟩
  rintro ⟨_, _, event, member, accept, _, _, _, _, answered, _⟩
  rw [answers event member] at answered
  simp [accepted] at answered

end Backed

end Metadata

end Ciruela
