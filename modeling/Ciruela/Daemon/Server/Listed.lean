import Ciruela.Daemon.Server.Happened
import Ciruela.Daemon.Tracking.Downloads

/-!
# The tables can always be listed

Gossip lists the downloads in progress with the cells of their tasks. Whatever a server has done,
there is such a list and gossip can go out: every entry of `in_progress` is that of a task that
has started, and the cells of such a task are there.
-/

namespace Ciruela

open Foundation

open Remote (SocketAddr)
open Peers (PathSet)
open Tracking (Node)

section Covering

variable {Hash : Type} {server before after : Server Hash}

/-- Every download in progress is that of a task whose cells are there. -/
def Covered (server : Server Hash) : Prop :=
  ∀ place image, server.node.inProgress.lookup place = some image →
    ∃ task path, server.node.download task = some (path, image) ∧ path.place = place ∧
      task ∈ server.cells

/-- What changes no download keeps them covered. -/
theorem Covered.keep (covered : Covered before)
    (inProgress : after.node.inProgress = before.node.inProgress)
    (downloads : ∀ task, after.node.download task = before.node.download task)
    (cells : ∀ task ∈ before.cells, task ∈ after.cells) : Covered after := by
  intro place image listed
  obtain ⟨task, path, download, isAt, there⟩ := covered place image (inProgress ▸ listed)
  exact ⟨task, path, (downloads task).trans download, isAt, cells task there⟩

/-- A download begins. -/
theorem Covered.start {task : Nat} {path : VPath} {image : ImageId} (covered : Covered before)
    (waiting : before.node.tasks.lookup task = some (.fetch path image))
    (inProgress : after.node.inProgress = before.node.inProgress.insert path.place image)
    (tasks : after.node.tasks = before.node.tasks.insert task (.downloading path image))
    (cells : after.cells = before.cells.insert task .new) : Covered after := by
  intro place other listed
  rw [inProgress, Map.lookup_insert_eq] at listed
  have download := Tracking.download_insert tasks
  split at listed
  · rename_i same
    obtain rfl := Option.some.inj listed
    refine ⟨task, path, by rw [download, if_pos rfl]; rfl, same.symm, ?_⟩
    rw [cells]
    exact Finmap.mem_insert.mpr (.inl rfl)
  · obtain ⟨old, oldPath, isOld, isAt, there⟩ := covered place other listed
    have different : old ≠ task := by
      rintro rfl
      rw [Node.download, waiting] at isOld
      cases isOld
    refine ⟨old, oldPath, by rw [download, if_neg different]; exact isOld, isAt, ?_⟩
    rw [cells]
    exact Finmap.mem_insert.mpr (.inr there)

/-- A download has ended, and its path is free. -/
theorem Covered.finished {task : Nat} {path : VPath} {image : ImageId} {commit : Bool}
    (covered : Covered before)
    (waiting : before.node.tasks.lookup task = some (.finished path image commit))
    (inProgress : after.node.inProgress = before.node.inProgress.erase path.place)
    (tasks : after.node.tasks = before.node.tasks.erase task)
    (cells : after.cells = before.cells) : Covered after := by
  intro place other listed
  rw [inProgress, Map.lookup_erase_eq] at listed
  split at listed
  · cases listed
  · rename_i elsewhere
    obtain ⟨old, oldPath, isOld, isAt, there⟩ := covered place other listed
    have different : old ≠ task := by
      rintro rfl
      rw [Node.download, waiting] at isOld
      obtain ⟨rfl, rfl⟩ := Prod.mk.inj (Option.some.inj isOld)
      exact elsewhere isAt.symm
    refine ⟨old, oldPath, ?_, isAt, cells ▸ there⟩
    rw [Node.download, tasks, Map.lookup_erase_eq, if_neg different]
    exact isOld

/-- An entry that `get_in_progress` lists for a path in progress. -/
theorem Covered.exists_entry (covered : Covered server) {place : List Component}
    (member : place ∈ server.node.inProgress.keys) : ∃ entry : VPath × Peers.Downloading,
      entry.1.place = place ∧ server.node.inProgress.lookup entry.1.place = some entry.2.image ∧
        ∃ task ∈ server.node.tasks.keys, server.progressOf task = some entry := by
  obtain ⟨image, listed⟩ := Finmap.mem_iff.mp (Finmap.mem_keys.mp member)
  obtain ⟨task, path, download, rfl, there⟩ := covered place image listed
  obtain ⟨cells, isCells⟩ := Finmap.mem_iff.mp there
  obtain ⟨waiting, isTask, _⟩ := Option.bind_eq_some_iff.mp download
  refine ⟨(path, ⟨image, cells.mask, server.connections.hasImageSource image, cells.stalled⟩),
    rfl, listed, task, Finmap.mem_keys.mpr (Finmap.mem_iff.mpr ⟨waiting, isTask⟩), ?_⟩
  simp [Server.progressOf, download, isCells]

variable [DecidableEq Hash] {env : Metadata.Env} {forObject : PathSet → Hash}
  {event : ServerEvent Hash}

/-- A step keeps the downloads covered. -/
theorem Covered.step (covered : Covered event.before)
    (takes : (serverMachine env forObject).Takes event) : Covered event.after := by
  obtain ⟨before, op, answer, after⟩ := event
  have stepped : ServerStep env forObject before op answer after := serverStep_of_takes takes
  cases stepped with
  | @track op reason found node moved polls =>
      have cells := cells_announceAll (({ before with
        node := node
        cells := before.cellsAfter op
        deleted := before.deletedAfter op }).queue (before.messagesOf op found))
        (News.ofNode env.config before.node reason op)
      cases plain : op.counts with
      | false =>
          obtain ⟨inProgress, downloads⟩ := Tracking.downloads_of_exec plain moved
          refine covered.keep (by rw [node_announceAll]; exact inProgress)
            (by rw [node_announceAll]; exact downloads) fun task there => ?_
          rw [cells]
          cases op with
          | start task => cases plain
          | _ => exact there
      | true =>
          have steps := Tracking.nodeStep_of_exec moved
          cases steps with
          | start waiting =>
              exact covered.start waiting (by rw [node_announceAll]; rfl)
                (by rw [node_announceAll]; rfl) cells
          | finished waiting =>
              exact covered.finished waiting (by rw [node_announceAll]; rfl)
                (by rw [node_announceAll]; rfl) cells
          | _ => cases plain
  | progress running there moved =>
      exact covered.keep rfl (fun _ => rfl) fun task old => Finmap.mem_insert.mpr (.inr old)
  | heard ran =>
      exact covered.keep (by rw [node_announceAll]) (fun _ => by rw [node_announceAll])
        fun task there => by rwa [cells_announceAll]
  | _ => exact covered.keep rfl (fun _ => rfl) fun _ there => there

end Covering

/-- In every run of a server, gossip can be sent to any address at any time. -/
theorem exists_sendGossip {Hash : Type} [DecidableEq Hash] {env : Metadata.Env}
    {forObject : PathSet → Hash} {setup : Setup Hash} {own : MachineId}
    {trace : List (ServerEvent Hash)} {finish : Server Hash}
    (steps : (serverMachine env forObject).Steps (setup.server own) trace finish)
    (addr : SocketAddr) (id : Option MachineId) (baseDirs : PathMap Hash) :
    ∃ inProgress found result,
      finish.exec env forObject (.sendGossip addr id inProgress baseDirs found) = some result := by
  have covered : Covered finish :=
    (steps.preserves Covered (fun _ => True) (fun _ takes _ covered => covered.step takes)
      (fun _ _ => trivial) fun place image listed => by
        simp [Setup.server, Server.start, Node.new] at listed).1
  obtain ⟨inProgress, entries, listed⟩ := PathMap.exists_of_places finish.node.inProgress.keys
    fun place member => covered.exists_entry member
  exact ⟨inProgress, finish.node.found, _,
    if_pos ⟨⟨fun entry member => (entries entry member).2, listed⟩, List.Perm.refl _⟩⟩

end Ciruela
