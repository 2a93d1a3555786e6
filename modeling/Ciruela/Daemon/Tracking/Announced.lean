import Ciruela.Daemon.Tracking.Watched

/-!
# Announced images

An upload of an image that is in its place is announced at once, and a download when it was
committed. Whatever a node is about to announce, or shows as complete, was recorded in the
state file of its path before.
-/

namespace Ciruela

open Foundation

namespace Tracking

open Metadata (Env Io Meta Records)

/-- How an image comes to be shown as complete at a path. -/
inductive Completes (node : Node) : NodeOp → VPath → ImageId → Prop where
  /-- `dir_committed`. -/
  | committed {task : Nat} {path : VPath} {image : ImageId}
      (ended : node.tasks.lookup task = some (.finished path image true)) :
      Completes node (.finished task) path image
  /-- `get_image_id` reads the image in `x.state`. -/
  | lookedUp {io : Io} {path : VPath} {image : ImageId} {store : Meta}
      (read : node.store.getImageId io path = .ok (.ok image, store)) :
      Completes node (.lookUp io path) path image
  /-- A replacement was refused because the image is there, or is being downloaded. -/
  | refused {task : Nat} {peers : Peers} {io : Io} {keys : Metadata.KeyFiles} {params : ReplaceDir}
      {reason : String} {image : ImageId} (answered : node.tasks.lookup task =
        some (.answered (.startReplace io keys params) (.upload (.ok (.rejected reason (some image)))))) :
      Completes node (.proceed task peers) params.path image

/-- The image and path a task is about to announce as being in place already. -/
def Task.announces : Task → Option (VPath × ImageId)
  | .answered op (.upload (.ok (.accepted .alreadyDone))) =>
      op.demand.map fun demand => (demand.path, demand.image)
  | _ => none

section Announcing

variable {env : Env} {start : Node} {history : List NodeEvent} {event : NodeEvent}

/-- What is announced as being in place is in `x.state`. -/
theorem records_of_announces {op : Metadata.Op} {answer : Metadata.Answer} {store after : Meta}
    {path : VPath} {image : ImageId} (accepted : VPath.checkPath op.vpath.path = true)
    (unfinished : op.finishes = false) (ran : Metadata.run env store op = .ok (answer, after))
    (announces : (Task.answered op answer).announces = some (path, image)) :
    ∃ spot : Spot, path.place = spot.place ∧ Records (after.record spot).state image := by
  unfold Task.announces at announces
  split at announces
  · rename_i isAnswer
    obtain ⟨rfl, rfl⟩ := Task.answered.inj isAnswer
    obtain ⟨demand, asked, same⟩ := Option.map_eq_some_iff.mp announces
    obtain ⟨rfl, rfl⟩ := Prod.mk.inj same
    by_cases deep : 0 < op.vpath.level
    · obtain ⟨spot, located⟩ := VPath.exists_spot accepted deep
      obtain ⟨_, change⟩ := Metadata.run_at located ran
      refine ⟨spot, by rw [Metadata.Op.demand_path asked, located], ?_⟩
      generalize isAfter : after.record spot = record at change
      generalize isBefore : store.record spot = before at change
      cases change with
      | kept idle => exact absurd idle not_false
      | merged isAsked _ _ _ isImage =>
          obtain rfl := Option.some.inj (isAsked.symm.trans asked)
          exact ⟨_, rfl, isImage⟩
    · obtain ⟨_, _, idle, _⟩ := Metadata.run_of_level_eq_zero (by omega) unfinished ran
      exact absurd idle not_false
  · cases announces

/-- Every announcement that waits is of an image that was recorded. -/
def Announced (start : Node) (trace : List NodeEvent) (node : Node) : Prop :=
  ∀ task path image, (node.tasks.lookup task).bind Task.announces = some (path, image) →
    Committed start trace path.place image

/-- Fewer announcements are backed. -/
theorem Announced.fewer (announced : Announced start history event.before)
    (fewer : ∀ task found, (event.after.tasks.lookup task).bind Task.announces = some found →
      (event.before.tasks.lookup task).bind Task.announces = some found) :
    Announced start (history ++ [event]) event.after := fun task path image waits =>
  (announced task path image (fewer task _ waits)).snoc event

/-- A step keeps that every announcement is backed. -/
theorem Announced.step (announced : Announced start history event.before) (orderly : Orderly env event)
    (valid : (nodeMachine env).Takes event) : Announced start (history ++ [event]) event.after := by
  obtain ⟨before, op, answer, after⟩ := event
  have stepped : before.exec env op = some after := exec_of_takes valid
  cases nodeStep_of_exec stepped with
  | @request task op answer store unfinished absent ran =>
      intro other path image waits
      rcases seen_insert waits with ⟨_, new⟩ | old
      · obtain ⟨spot, located, records⟩ := records_of_announces
          (orderly.checked op.vpath (by simp [NodeOp.paths])) unfinished ran new
        rw [located]
        exact Committed.now records
      · exact (announced other path image old).snoc _
  | proceed waiting ran =>
      refine announced.fewer fun other found waits => ?_
      rcases proceed_cases ran with rfl | ⟨image, path, rfl⟩ | ⟨path, image, replacing, rfl, _⟩ |
        ⟨path, image, rfl, _⟩
      · exact seen_erase waits
      · exact seen_erase waits
      · rcases seen_insert waits with ⟨_, nothing⟩ | old
        · cases nothing
        · exact seen_erase old
      · exact seen_erase waits
  | start waiting =>
      refine announced.fewer fun other found waits => ?_
      rcases seen_insert waits with ⟨_, nothing⟩ | old
      · cases nothing
      · exact old
  | finish running ran =>
      refine announced.fewer fun other found waits => ?_
      rcases seen_insert waits with ⟨_, nothing⟩ | old
      · cases nothing
      · exact old
  | finished waiting => exact announced.fewer fun other found waits => seen_erase waits
  | _ => exact announced.fewer fun other found waits => waits

variable {signatures : Tree Metadata.Content} {indexes : Tree (List UInt8)}
  {trace : List NodeEvent} {finish : Node}

/-- The invariant of the tables in every orderly run. -/
theorem inv_of_steps (steps : (nodeMachine env).Steps (Node.new signatures indexes) trace finish)
    (orderly : ∀ event ∈ trace, Orderly env event) (apart : Apart (spotsOf trace)) :
    Inv (spotsOf trace) (Node.new signatures indexes) trace finish :=
  steps.preserves_history (Inv (spotsOf trace) (Node.new signatures indexes))
    (fun event => Orderly env event ∧
      ∀ path ∈ event.op.paths, ∀ spot : Spot, path.place = spot.place → spot ∈ spotsOf trace)
    (fun _ _ valid allowed inv => inv.step apart allowed.1 allowed.2 valid)
    (fun event member => ⟨orderly event member, fun path isPath _ located =>
      ⟨event, member, path, isPath, located⟩⟩)
    (inv_new _ signatures indexes)

end Announcing

section Completing

variable {env : Env} {node next : Node} {op : NodeOp}

/-- What a task reports when its answer is taken up. -/
theorem Completes.of_reports {task : Nat} {peers : Peers} {answered : Metadata.Op}
    {answer : Metadata.Answer} {path : VPath} {image : ImageId}
    (waiting : node.tasks.lookup task = some (.answered answered answer))
    (reports : (Task.answered answered answer).reports = some (path, image)) :
    Completes node (.proceed task peers) path image := by
  unfold Task.reports at reports
  split at reports
  · rename_i same
    obtain ⟨rfl, rfl⟩ := Task.answered.inj same
    obtain ⟨rfl, rfl⟩ := Prod.mk.inj (Option.some.inj reports)
    exact .refused waiting
  · rename_i same
    cases same
  · cases reports

/-- A step shows nothing but what was shown before and what it completes. -/
theorem shown_of_step (stepped : NodeStep env node op next) {place : List Component}
    {image : ImageId} (shown : next.shown place = some image) :
    node.shown place = some image ∨ ∃ path, Completes node op path image ∧ path.place = place := by
  cases stepped with
  | @proceed task peers answered answer effects waiting ran =>
      rcases proceed_cases ran with rfl | ⟨other, path, rfl⟩ | ⟨path, other, replacing, rfl, _⟩ |
        ⟨path, other, rfl, reports⟩
      · exact .inl shown
      · exact .inl shown
      · exact .inl shown
      · rcases shown_insert shown with ⟨rfl, same⟩ | old
        · obtain rfl : other = image := Option.some.inj same
          exact .inr ⟨path, .of_reports waiting reports, rfl⟩
        · exact .inl old
  | @finished task path other commit waiting =>
      cases commit with
      | false => exact .inl shown
      | true =>
          rcases shown_insert shown with ⟨rfl, same⟩ | old
          · obtain rfl : other = image := Option.some.inj same
            exact .inr ⟨path, .committed waiting, rfl⟩
          · exact .inl old
  | check =>
      rcases shown_insert shown with ⟨_, nothing⟩ | old
      · cases nothing
      · exact .inl old
  | @lookUp io path result store ran =>
      rcases shown_insert shown with ⟨rfl, same⟩ | old
      · cases result with
        | error error => cases same
        | ok other =>
            obtain rfl : other = image := Option.some.inj same
            exact .inr ⟨path, .lookedUp ran, rfl⟩
      · exact .inl old
  | getComplete => exact .inl (shown_of_poll shown)
  | retain =>
      refine .inl (shown_of_retain (fun path status polled kept => ?_) shown)
      exact (Option.ite_none_right_eq_some.mp kept).2
  | _ => exact .inl shown

/-- What a step completes is shown after it. -/
theorem Completes.shown {path : VPath} {image : ImageId} (completes : Completes node op path image)
    (stepped : NodeStep env node op next) : next.shown path.place = some image := by
  have inserted {watched : Watched} {status : Status} (shows : status.shows = some image) :
      ((watched.insert path status).lookup path.place).bind Status.shows = some image := by
    rw [PathMap.lookup_insert, if_pos rfl]
    exact shows
  cases completes with
  | committed ended =>
      cases stepped with
      | finished waiting =>
          obtain ⟨rfl, rfl, rfl⟩ := Task.finished.inj (Option.some.inj (waiting.symm.trans ended))
          exact inserted rfl
  | lookedUp read =>
      cases stepped with
      | lookUp ran =>
          obtain ⟨rfl, _⟩ := Prod.mk.inj (Except.ok.inj (ran.symm.trans read))
          exact inserted rfl
  | refused answered =>
      cases stepped with
      | @proceed task peers op answer effects waiting ran =>
          obtain ⟨rfl, rfl⟩ := Task.answered.inj (Option.some.inj (waiting.symm.trans answered))
          obtain ⟨result, acknowledged, done⟩ := Run.bind_eq_ok_iff.mp ran
          obtain rfl := Except.ok.inj done
          rw [← Except.ok.inj (acknowledge_ok acknowledged)]
          exact inserted rfl

/-- A lookup that has ended well is shown. -/
theorem shown_of_mem_found {path : VPath} {image : ImageId} (member : (path, image) ∈ node.found) :
    node.shown path.place = some image := by
  obtain ⟨⟨other, status⟩, isEntry, found⟩ := List.mem_filterMap.mp member
  split at found
  · rename_i same
    obtain ⟨rfl, rfl⟩ := Prod.mk.inj same
    obtain ⟨rfl, rfl⟩ := Prod.mk.inj (Option.some.inj found)
    rw [Node.shown, PathMap.lookup_of_mem isEntry]
    rfl
  · cases found

/-- An image that is listed as complete is shown. -/
theorem shown_of_mem_complete {path : VPath} {image : ImageId}
    (member : (path, image) ∈ node.complete.entries) : node.shown path.place = some image := by
  obtain ⟨status, isEntry, complete⟩ := PathMap.mem_filterMap.mp member
  refine shown_of_poll ?_
  rw [PathMap.lookup_of_mem isEntry]
  split at complete
  · exact complete
  · cases complete

end Completing

end Tracking

end Ciruela
