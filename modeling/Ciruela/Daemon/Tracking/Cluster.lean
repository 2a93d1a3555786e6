import Ciruela.Daemon.Tracking.Reconciliation
import Mathlib.Data.Fintype.Basic
import Mathlib.Logic.Relation

/-!
# Reconciliation in a cluster

The nodes of a cluster answer each other with listings of a base directory, and plan
and start uploads from the answers. An answer may be used late, by any node and more
than once. One name is followed. A node starts what it planned for the name while it
still has the state that the plan was made from.

`Rising` is the invariant of the name on a node: an upload that is under way is newer
than what it replaces. The timestamps that go around are those the cluster started
with, so a node can replace its image only as often as there are timestamps.
-/

namespace Ciruela

open Foundation

namespace Reconciliation

open Metadata (Env Io KeyFiles Meta Record Content Change Demand Found Writing)

/-- The state in a file that a listing does not pass over. -/
def readable : Option Content → Option State
  | some (.state state) => if state.signatures = [] then none else some state
  | _ => none

/-- What a listing shows for a name. While an upload is under way, the state of the
upload comes first. -/
def shown (record : Record) : Option State :=
  if record.writing.isSome then (readable record.newState).or (readable record.state)
  else readable record.state

/-- A name in a base directory. -/
structure Site where
  base : VPath
  spot : Spot
  path : VPath
  located : base.place = .rootDir :: spot.dir.map .normal
  joins : base.join (Path.ofText spot.name.text) = .ok path

/-- The request that a planned action makes of the metadata. -/
def Action.op (io : Io) (keys : KeyFiles) : Action → Metadata.Op
  | .append params => .startAppend io keys params
  | .replace params => .startReplace io keys params

/-- The metadata of every node, and the listings that are on their way. -/
structure Cluster (Node : Type) where
  stores : Node → Meta
  /-- The listings that nodes have sent. -/
  answers : List Found

/-- What the nodes of a cluster do. -/
inductive ClusterOp (Node : Type) where
  /-- A node answers with a listing. -/
  | answer (node : Node) (listing : Found)
  /-- A node makes a plan from its own listing and an answer, and starts what it has
  planned for the name. -/
  | reconcile (node : Node) (setting : Setting) (locals remote : Found)
      (ordered : List (List Char × State)) (io : Io) (keys : KeyFiles)
  /-- A download ends, with or without an image. -/
  | finish (node : Node) (complete : Bool) (io : Io)
  /-- A scan removes what an upload has left behind. -/
  | sweep (node : Node) (io : Io)

section Exec

variable {Node : Type} [DecidableEq Node]

/-- A node has other metadata. -/
def Cluster.put (cluster : Cluster Node) (node : Node) (store : Meta) : Cluster Node :=
  { cluster with stores := Function.update cluster.stores node store }

/-- What a node records of the name. -/
def Cluster.record (cluster : Cluster Node) (site : Site) (node : Node) : Record :=
  (cluster.stores node).record site.spot

/-- A node runs an operation of its metadata. -/
def Cluster.run (envs : Node → Env) (cluster : Cluster Node) (node : Node) (op : Metadata.Op) :
    Option (Option Metadata.Answer × Cluster Node) := do
  let (answer, store) ← (Metadata.run (envs node) (cluster.stores node) op).toOption
  return (some answer, cluster.put node store)

/-- One step of a node. -/
def Cluster.exec (envs : Node → Env) (site : Site) (cluster : Cluster Node) :
    ClusterOp Node → Option (Option Metadata.Answer × Cluster Node)
  | .answer node listing =>
      if listing.lookup site.spot.name.text = shown (cluster.record site node) then
        some (none, { cluster with answers := listing :: cluster.answers })
      else none
  | .reconcile node setting locals remote ordered io keys =>
      if setting.path.place = site.base.place ∧
          locals.lookup site.spot.name.text = shown (cluster.record site node) ∧
          remote ∈ cluster.answers ∧ Orders remote ordered then do
        let (planned, _) ← (setting.plan locals remote ordered).toOption
        match planned.find? fun item => decide (item.name = site.spot.name.text) with
        | some item => cluster.run envs node (item.action.op io keys)
        | none => some (none, cluster)
      else none
  | .finish node complete io =>
      cluster.run envs node
        (if complete then .dirCommitted io site.path else .dirAborted io site.path)
  | .sweep node io =>
      let store := cluster.stores node
      if site.spot.place ∈ store.writing then none
      else
        let files := store.signatures.files site.spot.dir
        some (none, cluster.put node (store.setFiles site.spot.dir
          (Metadata.removeFile io files (Metadata.newStateFile site.spot.name)).2))

/-- The cluster as a machine. -/
def clusterMachine (envs : Node → Env) (site : Site) :
    Machine (Cluster Node) (ClusterOp Node) (Option Metadata.Answer) :=
  ⟨Cluster.exec envs site⟩

/-- A step of the cluster. -/
abbrev ClusterEvent (Node : Type) :=
  Transition (Cluster Node) (ClusterOp Node) (Option Metadata.Answer)

end Exec

/-- The signatures in a file. -/
def listed : Option Content → List SignatureEntry
  | some (.state state) => state.signatures
  | _ => []

/-- Signatures with known timestamps that are all later than those in a file. -/
structure Over (times : Finset Nat) (below : Option Content) (signatures : List SignatureEntry) :
    Prop where
  nonempty : signatures ≠ []
  timed : ∀ entry ∈ signatures, entry.timestamp ∈ times
  later : ∀ old ∈ listed below, ∀ entry ∈ signatures, old.timestamp < entry.timestamp

/-- The name on a node: what is written or left behind by an upload is newer than the
state. -/
structure Rising (times : Finset Nat) (record : Record) : Prop where
  state : ∀ content, record.state = some content →
    ∃ state, content = .state state ∧ Over times none state.signatures
  newState : ∀ content, record.newState = some content →
    ∃ state, content = .state state ∧ Over times record.state state.signatures
  writing : ∀ entry, record.writing = some entry → Over times record.state entry.signatures

section Records

variable {times : Finset Nat} {before after : Record} {env : Env} {op : Metadata.Op}
  {answer : Metadata.Answer}

/-- What is newer than something is newer than nothing. -/
theorem Over.none {below : Option Content} {signatures : List SignatureEntry}
    (beyond : Over times below signatures) : Over times none signatures :=
  ⟨beyond.nonempty, beyond.timed, by simp [listed]⟩

/-- A request with one signature that is later than the state keeps the order. -/
theorem Rising.request {demand : Demand} {sig : SignatureEntry} (rising : Rising times before)
    (change : Change env before op answer after) (asked : op.demand = some demand)
    (signed : demand.entries = [sig]) (timed : sig.timestamp ∈ times)
    (later : ∀ old ∈ listed before.state, old.timestamp < sig.timestamp)
    (differs : before.writing = none → ∀ state, before.state = some (.state state) →
      state.image ≠ demand.image) :
    Rising times after ∧ after.state = before.state := by
  have single : ∀ entry ∈ demand.entries, entry = sig := by simp [signed]
  have beyond {signatures : List SignatureEntry} (nonempty : signatures ≠ [])
      (within : ∀ entry ∈ signatures, entry ∈ demand.entries ∨
        ∃ old, before.writing = some old ∧ entry ∈ old.signatures) :
      Over times before.state signatures := by
    refine ⟨nonempty, fun entry member => ?_, fun old isOld entry member => ?_⟩
    · rcases within entry member with added | ⟨writing, isWriting, known⟩
      · rw [single entry added]
        exact timed
      · exact (rising.writing writing isWriting).timed entry known
    · rcases within entry member with added | ⟨writing, isWriting, known⟩
      · rw [single entry added]
        exact later old isOld
      · exact (rising.writing writing isWriting).later old isOld entry known
  have sole : sig ∈ demand.entries := by simp [signed]
  cases change with
  | kept => exact ⟨rising, rfl⟩
  | begun asked' =>
      obtain rfl := Option.some.inj (asked.symm.trans asked')
      have fresh := beyond (List.ne_nil_of_mem (mem_sortSignatures.mpr sole))
        fun entry member => Or.inl (mem_sortSignatures.mp member)
      refine ⟨⟨rising.state, ?_, ?_⟩, rfl⟩
      · rintro _ ⟨⟩
        exact ⟨_, rfl, fresh⟩
      · rintro _ ⟨⟩
        exact fresh
  | @extended _ _ old asked' _ writing =>
      obtain rfl := Option.some.inj (asked.symm.trans asked')
      have extended : Over times before.state
          (old.extend (sortSignatures demand.entries)).signatures := by
        refine beyond ?_ fun entry member => ?_
        · exact List.ne_nil_of_mem
            (Writing.mem_extend.mpr (Or.inr (mem_sortSignatures.mpr sole)))
        · rcases Writing.mem_extend.mp member with known | added
          · exact Or.inr ⟨old, writing, known⟩
          · exact Or.inl (mem_sortSignatures.mp added)
      refine ⟨⟨rising.state, ?_, ?_⟩, rfl⟩
      · rintro _ ⟨⟩
        exact ⟨_, rfl, extended⟩
      · rintro _ ⟨⟩
        exact extended
  | merged asked' _ vacant committed same =>
      obtain rfl := Option.some.inj (asked.symm.trans asked')
      exact absurd same (differs vacant _ committed)
  | unsaved asked' _ _ _ signed' _ within =>
      obtain rfl := Option.some.inj (asked.symm.trans asked')
      refine ⟨⟨rising.state, rising.newState, ?_⟩, rfl⟩
      rintro _ ⟨⟩
      exact beyond (List.ne_nil_of_mem (signed' sig sole)) within
  | resumed => simp [Metadata.Op.demand] at asked
  | resumedNew => simp [Metadata.Op.demand] at asked
  | aborted => simp [Metadata.Op.demand] at asked
  | committed => simp [Metadata.Op.demand] at asked
  | unfinished _ _ finishes => simp [Metadata.Op.finishes_of_demand asked] at finishes
  | removed => simp [Metadata.Op.demand] at asked

/-- A download that ends leaves the state, or puts the new one in its place. -/
theorem Rising.finish (rising : Rising times before) (change : Change env before op answer after)
    (finishes : op.finishes = true) :
    Rising times after ∧ (after.state = before.state ∨
      ∃ state, after.state = some (.state state) ∧ Over times before.state state.signatures) := by
  cases change with
  | kept => exact ⟨rising, Or.inl rfl⟩
  | begun asked => simp [Metadata.Op.finishes_of_demand asked] at finishes
  | extended asked => simp [Metadata.Op.finishes_of_demand asked] at finishes
  | merged asked => simp [Metadata.Op.finishes_of_demand asked] at finishes
  | unsaved asked => simp [Metadata.Op.finishes_of_demand asked] at finishes
  | resumed => simp [Metadata.Op.finishes] at finishes
  | resumedNew => simp [Metadata.Op.finishes] at finishes
  | aborted => exact ⟨⟨rising.state, by simp, by simp⟩, Or.inl rfl⟩
  | committed _ written =>
      obtain ⟨state, rfl, beyond⟩ := rising.newState _ written
      refine ⟨⟨?_, by simp, by simp⟩, Or.inr ⟨state, rfl, beyond⟩⟩
      intro content isContent
      obtain rfl := Option.some.inj isContent
      exact ⟨state, rfl, beyond.none⟩
  | unfinished => exact ⟨⟨rising.state, rising.newState, by simp⟩, Or.inl rfl⟩
  | removed => simp [Metadata.Op.finishes] at finishes

/-- What can be read of a record is its state. -/
theorem content_of_readable {content : Option Content} {state : State}
    (isRead : readable content = some state) : content = some (.state state) := by
  unfold readable at isRead
  split at isRead
  · split at isRead
    · cases isRead
    · rw [Option.some.inj isRead]
  · cases isRead

/-- What is shown for a rising name is above its state, or is its state. -/
theorem Rising.shown_over (rising : Rising times before) {state : State}
    (isShown : shown before = some state) :
    Over times none state.signatures ∧
      (before.state = some (.state state) ∨ Over times before.state state.signatures) := by
  have committed (isRead : readable before.state = some state) :
      Over times none state.signatures ∧
        (before.state = some (.state state) ∨ Over times before.state state.signatures) := by
    obtain ⟨_, ⟨rfl⟩, beyond⟩ := rising.state _ (content_of_readable isRead)
    exact ⟨beyond, Or.inl (content_of_readable isRead)⟩
  unfold shown at isShown
  split at isShown
  · rcases Option.or_eq_some_iff.mp isShown with isNew | ⟨_, isOld⟩
    · obtain ⟨_, ⟨rfl⟩, beyond⟩ := rising.newState _ (content_of_readable isNew)
      exact ⟨beyond.none, Or.inr beyond⟩
    · exact committed isOld
  · exact committed isShown

/-- A name for which nothing is shown has no state. -/
theorem Rising.state_eq_none (rising : Rising times before) (hidden : shown before = none) :
    before.state = none := by
  have noState : readable before.state = none := by
    unfold shown at hidden
    split at hidden
    · exact (Option.or_eq_none_iff.mp hidden).2
    · exact hidden
  by_contra isSome
  obtain ⟨content, isContent⟩ := Option.ne_none_iff_exists'.mp isSome
  obtain ⟨state, rfl, beyond⟩ := rising.state content isContent
  simp [isContent, readable, beyond.nonempty] at noState

/-- What fits over the listed state is later than the state, and merges into none. -/
theorem Rising.fits (rising : Rising times before) {locals : Found} {name : List Char}
    {rstate : State} {sig : SignatureEntry} {action : Action}
    (lists : locals.lookup name = shown before) (fits : action.FitsOver locals name rstate sig) :
    (∀ old ∈ listed before.state, old.timestamp < sig.timestamp) ∧
      (before.writing = none → ∀ state, before.state = some (.state state) →
        state.image ≠ rstate.image) := by
  cases action with
  | append params =>
      have vacant := rising.state_eq_none (lists.symm.trans fits)
      simp [vacant, listed]
  | replace params =>
      obtain ⟨old, isOld, _, supersedes⟩ := fits
      have isShown : shown before = some old := lists.symm.trans isOld
      obtain ⟨signed, isState | above⟩ := rising.shown_over isShown
      · refine ⟨?_, fun _ state found => ?_⟩
        · simpa [isState, listed] using supersedes.older
        · obtain rfl := Content.state.inj (Option.some.inj (found.symm.trans isState))
          exact supersedes.image
      · refine ⟨fun entry member => ?_, fun vacant state found => ?_⟩
        · obtain ⟨newer, isNewer⟩ := List.exists_mem_of_ne_nil _ signed.nonempty
          exact (above.later entry member newer isNewer).trans (supersedes.older newer isNewer)
        · -- with no upload under way the state itself is shown
          have same : readable (some (.state state)) = some old := by
            simpa [shown, vacant, found] using isShown
          obtain rfl := Content.state.inj (Option.some.inj (content_of_readable same))
          exact supersedes.image

end Records

section Invariant

variable {Node : Type} [DecidableEq Node] {envs : Node → Env} {site : Site} {times : Finset Nat}

/-- Only the node whose store is put has another record. -/
theorem Cluster.record_put (cluster : Cluster Node) (node other : Node) (store : Meta) :
    (cluster.put node store).record site other =
      if other = node then store.record site.spot else cluster.record site other := by
  unfold Cluster.put Cluster.record
  by_cases same : other = node
  · subst same
    simp
  · simp [same]

/-- Joining the name to the base directory gives the path of the site. -/
theorem Site.place_of_joins {base vpath : VPath} (same : base.place = site.base.place)
    (joins : base.join (Path.ofText site.spot.name.text) = .ok vpath) :
    vpath.place = site.spot.place := by
  obtain ⟨joined, join, place⟩ := Metadata.join_name base site.spot.name
  obtain rfl := Except.ok.inj (join.symm.trans joins)
  rw [place, same, site.located]
  simp [Spot.place]

/-- The states that are kept and sent around. -/
structure Inv (times : Finset Nat) (site : Site) (cluster : Cluster Node) : Prop where
  rising : ∀ node, Rising times (cluster.record site node)
  answers : ∀ listing ∈ cluster.answers, ∀ state,
    listing.lookup site.spot.name.text = some state → ∀ entry ∈ state.signatures,
      entry.timestamp ∈ times

/-- A state stays, or a newer one takes its place. -/
def Progress (times : Finset Nat) (before after : Option Content) : Prop :=
  after = before ∨ ∃ state, after = some (.state state) ∧ Over times before state.signatures

/-- A step that changes the record of one node. -/
theorem Inv.put {cluster : Cluster Node} (inv : Inv times site cluster) {node : Node} {store : Meta}
    (rising : Rising times (store.record site.spot))
    (progress : Progress times (cluster.record site node).state (store.record site.spot).state) :
    Inv times site (cluster.put node store) ∧ ∀ other, Progress times
      (cluster.record site other).state ((cluster.put node store).record site other).state := by
  refine ⟨⟨fun other => ?_, inv.answers⟩, fun other => ?_⟩
  · rw [Cluster.record_put]
    split
    · exact rising
    · exact inv.rising other
  · rw [Cluster.record_put]
    split
    · rename_i same
      rw [same]
      exact progress
    · exact Or.inl rfl

theorem Cluster.run_eq_some {cluster after : Cluster Node} {node : Node} {op : Metadata.Op}
    {answer : Option Metadata.Answer} (ran : cluster.run envs node op = some (answer, after)) :
    ∃ given store, Metadata.run (envs node) (cluster.stores node) op = .ok (given, store) ∧
      after = cluster.put node store := by
  obtain ⟨⟨given, store⟩, moved, done⟩ := Option.bind_eq_some_iff.mp ran
  obtain ⟨_, rfl⟩ := Prod.mk.inj (Option.some.inj done)
  exact ⟨given, store, Run.ok_of_toOption moved, rfl⟩

/-- The request that is built from a remote state. -/
theorem Builds.demand {setting : Setting} {rstate : State} {sig : SignatureEntry} {item : Planned}
    (builds : Builds setting rstate sig item) (io : Io) (keys : KeyFiles) :
    ∃ demand, (item.action.op io keys).demand = some demand ∧ demand.entries = [sig] ∧
      demand.image = rstate.image ∧
      setting.vpath item.name = .ok (item.action.op io keys).vpath := by
  obtain ⟨vpath, joins, isAppend | ⟨oldImage, isReplace⟩⟩ := builds.action
  · rw [isAppend]
    exact ⟨_, rfl, rfl, rfl, joins⟩
  · rw [isReplace]
    exact ⟨_, rfl, rfl, rfl, joins⟩

/-- Removing a `x.new.state` keeps the rest of the record. -/
theorem record_sweep (store : Meta) (spot : Spot) (io : Io) :
    let after := store.setFiles spot.dir
      (Metadata.removeFile io (store.signatures.files spot.dir) (Metadata.newStateFile spot.name)).2
    (after.record spot).writing = (store.record spot).writing ∧
      (after.record spot).state = (store.record spot).state ∧
      ((after.record spot).newState = (store.record spot).newState ∨
        (after.record spot).newState = none) := by
  dsimp only
  rw [Metadata.record_setFiles, if_pos rfl]
  refine ⟨rfl, ?_, ?_⟩
  · exact Metadata.lookup_removeFile (Metadata.stateFile_ne_newStateFile spot.name)
  · obtain removed | ⟨_, failed⟩ := Metadata.removeFile_cases io
      (store.signatures.files spot.dir) (Metadata.newStateFile spot.name)
    · rw [removed]
      right
      simp [Metadata.recordOf]
    · rw [failed]
      exact Or.inl rfl

/-- A step keeps the invariant and makes progress. -/
theorem Inv.step {event : ClusterEvent Node} (inv : Inv times site event.before)
    (valid : (clusterMachine envs site).Takes event) :
    Inv times site event.after ∧ ∀ node, Progress times
      (event.before.record site node).state (event.after.record site node).state := by
  obtain ⟨before, op, answer, after⟩ := event
  have moved : before.exec envs site op = some (answer, after) := valid
  cases op with
  | answer node listing =>
      rw [Cluster.exec] at moved
      split at moved
      · rename_i lists
        obtain ⟨_, rfl⟩ := Prod.mk.inj (Option.some.inj moved)
        refine ⟨⟨inv.rising, fun other member state found => ?_⟩, fun _ => Or.inl rfl⟩
        rcases List.mem_cons.mp member with rfl | earlier
        · exact ((inv.rising node).shown_over (lists.symm.trans found)).1.timed
        · exact inv.answers other earlier state found
      · cases moved
  | reconcile node setting locals remote ordered io keys =>
      rw [Cluster.exec] at moved
      split at moved
      · rename_i guard
        obtain ⟨same, lists, isAnswer, orders⟩ := guard
        obtain ⟨⟨planned, full⟩, plans, moved⟩ := Option.bind_eq_some_iff.mp moved
        have plans := Run.ok_of_toOption plans
        dsimp only at moved
        split at moved
        · rename_i item found
          obtain ⟨given, store, ran, rfl⟩ := Cluster.run_eq_some moved
          obtain ⟨kept, _, uploads⟩ := Run.bind_eq_ok_iff.mp plans
          have named : item.name = site.spot.name.text := by
            simpa using List.find?_some found
          obtain ⟨rstate, sig, among, builds, fits⟩ :=
            mem_upload uploads orders.nodup (List.mem_of_find?_eq_some found)
          obtain ⟨demand, asked, signed, image, joins⟩ := builds.demand io keys
          have isRemote := orders.mem.mp among
          rw [named] at fits joins isRemote
          obtain ⟨later, differs⟩ := (inv.rising node).fits lists fits
          have timed : sig.timestamp ∈ times := by
            obtain ⟨rest, first⟩ := builds.first
            exact inv.answers remote isAnswer rstate isRemote sig (by simp [first])
          have change := (Metadata.run_at (site.place_of_joins same joins) ran).2
          obtain ⟨rising, kept⟩ := (inv.rising node).request change asked signed timed later
            (by rwa [image])
          exact inv.put rising (Or.inl kept)
        · obtain ⟨_, rfl⟩ := Prod.mk.inj (Option.some.inj moved)
          exact ⟨inv, fun _ => Or.inl rfl⟩
      · cases moved
  | finish node complete io =>
      obtain ⟨given, store, ran, rfl⟩ := Cluster.run_eq_some moved
      have change := (Metadata.run_at (by
        split
        · exact site.place_of_joins rfl site.joins
        · exact site.place_of_joins rfl site.joins) ran).2
      obtain ⟨rising, progress⟩ := (inv.rising node).finish change (by split <;> rfl)
      exact inv.put rising progress
  | sweep node io =>
      rw [Cluster.exec] at moved
      split at moved
      · cases moved
      · obtain ⟨_, rfl⟩ := Prod.mk.inj (Option.some.inj moved)
        obtain ⟨writing, state, newState⟩ := record_sweep (before.stores node) site.spot io
        have rising : Rising times (before.record site node) := inv.rising node
        refine inv.put ⟨?_, ?_, ?_⟩ (Or.inl state)
        · rw [state]
          exact rising.state
        · rw [state]
          intro content isContent
          rcases newState with same | gone
          · exact rising.newState content (same.symm.trans isContent)
          · rw [gone] at isContent
            cases isContent
        · rw [state, writing]
          exact rising.writing

end Invariant

section Acyclic

/-- A node that holds `old` plans to replace it, and `new` is what it is offered or what
it would store. -/
def WouldReplace (old new : State) : Prop :=
  ∃ (setting : Setting) (locals remote : Found) (ordered : List (List Char × State))
    (planned : List Planned) (full : Bool) (item : Planned) (params : ReplaceDir),
    setting.plan locals remote ordered = .ok (planned, full) ∧ Orders remote ordered ∧
      item ∈ planned ∧ item.action = .replace params ∧ locals.lookup item.name = some old ∧
      (remote.lookup item.name = some new ∨
        new = ⟨params.image, sortSignatures (entriesOf params.timestamp params.signatures)⟩)

/-- A state with signatures has a latest time. -/
theorem latest_isSome {state : State} (nonempty : state.signatures ≠ []) :
    ∃ time, latest state = some time := by
  refine Option.ne_none_iff_exists'.mp fun none => nonempty ?_
  exact List.map_eq_nil_iff.mp (List.max?_eq_none_iff.mp none)

/-- A state whose signatures are all older has an earlier latest time. -/
theorem latest_lt {old new : State} {entry : SignatureEntry} (member : entry ∈ new.signatures)
    (older : ∀ entry' ∈ old.signatures, entry'.timestamp < entry.timestamp) :
    (latest old).elim 0 (· + 1) < (latest new).elim 0 (· + 1) := by
  obtain ⟨newest, isNewest⟩ := latest_isSome (List.ne_nil_of_mem member)
  have upTo := le_latest isNewest member
  rw [isNewest]
  cases isLatest : latest old with
  | none => simp
  | some time =>
      obtain ⟨last, isLast, same⟩ := latest_mem isLatest
      have before := older last isLast
      simp only [Option.elim_some]
      omega

/-- What would replace a state has a later latest time. -/
theorem WouldReplace.latest_lt {old new : State} (replaces : WouldReplace old new) :
    (latest old).elim 0 (· + 1) < (latest new).elim 0 (· + 1) := by
  obtain ⟨setting, locals, remote, ordered, planned, full, item, params, plans, orders, member,
    isReplace, isOld, isNew⟩ := replaces
  obtain ⟨kept, _, uploads⟩ := Run.bind_eq_ok_iff.mp plans
  obtain ⟨rstate, sig, among, builds, fits⟩ := mem_upload uploads orders.nodup member
  rw [isReplace] at fits
  obtain ⟨old', isOld', _, supersedes⟩ := fits
  obtain rfl := Option.some.inj (isOld'.symm.trans isOld)
  rcases isNew with offered | rfl
  · obtain rfl := Option.some.inj ((orders.mem.mp among).symm.trans offered)
    obtain ⟨rest, first⟩ := supersedes.first
    exact Reconciliation.latest_lt (by simp [first]) supersedes.older
  · obtain ⟨vpath, _, isAppend | ⟨oldImage, isReplace'⟩⟩ := builds.action
    · rw [isAppend] at isReplace
      cases isReplace
    · obtain rfl := Action.replace.inj (isReplace.symm.trans isReplace')
      have isFirst : sig ∈ sortSignatures (entriesOf sig.timestamp [sig.signature]) :=
        mem_sortSignatures.mpr (by simp [entriesOf])
      exact Reconciliation.latest_lt isFirst supersedes.older

/-- No state would replace itself, through whatever others. -/
theorem wouldReplace_acyclic (state : State) : ¬ Relation.TransGen WouldReplace state state := by
  have rises {old new : State} (chain : Relation.TransGen WouldReplace old new) :
      (latest old).elim 0 (· + 1) < (latest new).elim 0 (· + 1) := by
    induction chain with
    | single last => exact last.latest_lt
    | tail _ last ih => exact ih.trans last.latest_lt
  intro cycle
  exact Nat.lt_irrefl _ (rises cycle)

end Acyclic

section Count

variable {Node : Type} [DecidableEq Node] {envs : Node → Env} {site : Site} {times : Finset Nat}

/-- The known timestamps that a state has caught up with. -/
def reached (times : Finset Nat) (content : Option Content) : Finset Nat :=
  times.filter fun time => ∃ entry ∈ listed content, time ≤ entry.timestamp

/-- The node gets another image for the name. -/
def replacesAt (site : Site) (node : Node) (event : ClusterEvent Node) : Bool :=
  match (event.before.record site node).state, (event.after.record site node).state with
  | some (.state old), some (.state new) => decide (old.image ≠ new.image)
  | _, _ => false

/-- Going beyond a state reaches all that it has reached. -/
theorem Over.reached_subset {before : Option Content} {state : State}
    (beyond : Over times before state.signatures) :
    reached times before ⊆ reached times (some (.state state)) := by
  intro time
  simp only [reached, Finset.mem_filter]
  rintro ⟨known, old, isOld, upTo⟩
  obtain ⟨entry, isEntry⟩ := List.exists_mem_of_ne_nil _ beyond.nonempty
  exact ⟨known, entry, isEntry, upTo.trans (beyond.later old isOld entry isEntry).le⟩

/-- Progress never reaches less. -/
theorem Progress.card_le {before after : Option Content} (progress : Progress times before after) :
    (reached times before).card ≤ (reached times after).card := by
  rcases progress with rfl | ⟨state, rfl, beyond⟩
  · exact Nat.le_refl _
  · exact Finset.card_le_card beyond.reached_subset

/-- A new state has a timestamp that the old one had not caught up with. -/
theorem Progress.card_lt {before after : Option Content} (progress : Progress times before after)
    (differs : after ≠ before) : (reached times before).card < (reached times after).card := by
  rcases progress with rfl | ⟨state, rfl, beyond⟩
  · exact absurd rfl differs
  · obtain ⟨entry, isEntry⟩ := List.exists_mem_of_ne_nil _ beyond.nonempty
    apply Finset.card_lt_card
    refine (Finset.ssubset_iff_of_subset beyond.reached_subset).mpr ⟨entry.timestamp, ?_, ?_⟩
    · exact Finset.mem_filter.mpr ⟨beyond.timed entry isEntry, entry, isEntry, Nat.le_refl _⟩
    · intro caught
      obtain ⟨_, old, isOld, upTo⟩ := Finset.mem_filter.mp caught
      have later := beyond.later old isOld entry isEntry
      omega

/-- Each replacement takes at least one timestamp. -/
theorem countP_replacesAt_le {start finish : Cluster Node} {trace : List (ClusterEvent Node)}
    (inv : Inv times site start) (steps : (clusterMachine envs site).Steps start trace finish)
    (node : Node) :
    Inv times site finish ∧
      trace.countP (replacesAt site node) ≤
        (reached times (finish.record site node).state).card := by
  refine steps.preserves_history (fun history cluster => Inv times site cluster ∧
      history.countP (replacesAt site node) ≤
        (reached times (cluster.record site node).state).card)
    (fun _ => True) ?_ (fun _ _ => trivial) ⟨inv, by simp⟩
  rintro history event valid - ⟨inv, bound⟩
  obtain ⟨next, progress⟩ := inv.step valid
  refine ⟨next, ?_⟩
  rw [List.countP_append, List.countP_singleton]
  split
  · rename_i replaces
    have differs : (event.after.record site node).state ≠ (event.before.record site node).state := by
      intro same
      simp only [replacesAt, same] at replaces
      split at replaces
      · simp_all
      · cases replaces
    have more := (progress node).card_lt differs
    omega
  · have same := (progress node).card_le
    omega

/-- A name without an upload under way. -/
def Settled (record : Record) : Prop :=
  record.writing = none ∧ record.newState = none ∧
    (record.state = none ∨ ∃ state, record.state = some (.state state) ∧ state.signatures ≠ [])

/-- The timestamps of the name on all nodes. -/
def timestamps [Fintype Node] (site : Site) (cluster : Cluster Node) : Finset Nat :=
  Finset.univ.biUnion fun node =>
    ((listed (cluster.record site node).state).map SignatureEntry.timestamp).toFinset

omit [DecidableEq Node] in
/-- A settled cluster without answers starts within the invariant. -/
theorem inv_settled [Fintype Node] {start : Cluster Node}
    (settled : ∀ node, Settled (start.record site node)) (silent : start.answers = []) :
    Inv (timestamps site start) site start := by
  refine ⟨fun node => ?_, by simp [silent]⟩
  obtain ⟨noWriting, noNew, vacant | ⟨state, isState, nonempty⟩⟩ := settled node
  · exact ⟨by simp [vacant], by simp [noNew], by simp [noWriting]⟩
  · refine ⟨fun content isContent => ?_, by simp [noNew], by simp [noWriting]⟩
    obtain rfl := Option.some.inj (isState.symm.trans isContent)
    refine ⟨state, rfl, nonempty, fun entry member => ?_, by simp [listed]⟩
    refine Finset.mem_biUnion.mpr ⟨node, Finset.mem_univ _, ?_⟩
    rw [isState, List.mem_toFinset]
    exact List.mem_map_of_mem member

/-- Whatever the order of answers and reconciliations, a replacement makes the latest
timestamp on its node later, states cannot replace each other in a circle, and a node
replaces its image at most as often as there are timestamps in the cluster. -/
theorem replacements_rise [Fintype Node] {start finish : Cluster Node}
    {trace : List (ClusterEvent Node)} (settled : ∀ node, Settled (start.record site node))
    (silent : start.answers = []) (steps : (clusterMachine envs site).Steps start trace finish) :
    (∀ event ∈ trace, ∀ node old new,
      (event.before.record site node).state = some (.state old) →
      (event.after.record site node).state = some (.state new) → old ≠ new →
      ∃ earlier later, latest old = some earlier ∧ latest new = some later ∧ earlier < later) ∧
    (∀ state, ¬ Relation.TransGen WouldReplace state state) ∧
    ∀ node, trace.countP (replacesAt site node) ≤ (timestamps site start).card := by
  have inv := inv_settled settled silent
  refine ⟨?_, wouldReplace_acyclic, fun node => ?_⟩
  · intro event member node old new isOld isNew differs
    obtain ⟨_, along⟩ := steps.preserves (Inv (timestamps site start) site) (fun _ => True)
      (fun _ valid _ inv => (inv.step valid).1) (fun _ _ => trivial) inv
    have here := (along event member).1
    obtain ⟨_, ⟨⟩, beyond⟩ := (here.rising node).state _ isOld
    obtain ⟨earlier, isEarlier⟩ := latest_isSome beyond.nonempty
    rcases (here.step (steps.takes_of_mem member)).2 node with same | ⟨state, isState, above⟩
    · rw [isOld, isNew] at same
      exact absurd (Content.state.inj (Option.some.inj same)).symm differs
    · obtain rfl := Content.state.inj (Option.some.inj (isState.symm.trans isNew))
      obtain ⟨later, isLater⟩ := latest_isSome above.nonempty
      refine ⟨earlier, later, isEarlier, isLater, ?_⟩
      obtain ⟨last, isLast, rfl⟩ := latest_mem isEarlier
      obtain ⟨newest, isNewest, rfl⟩ := latest_mem isLater
      exact above.later last (by simpa [isOld, listed] using isLast) newest isNewest
  · calc trace.countP (replacesAt site node)
        ≤ (reached (timestamps site start) (finish.record site node).state).card :=
          (countP_replacesAt_le inv steps node).2
      _ ≤ (timestamps site start).card := Finset.card_filter_le _ _

end Count

/-! Two nodes with different images, of which one is replaced. -/

namespace Sample

open Metadata.Sample (image signature)

/-- The name of the example. -/
def site : Site where
  base := Metadata.Sample.base
  spot := Metadata.Sample.spot
  path := Metadata.Sample.path
  located := by decide
  joins := by decide

/-- Both nodes have the same configuration. -/
def envs : Bool → Env := fun _ => Metadata.Sample.env false

/-- The image of one node. -/
def older : State := ⟨image 1, [⟨5, signature 1⟩]⟩

/-- The image of the other, which is newer. -/
def newer : State := ⟨image 2, [⟨6, signature 2⟩]⟩

/-- Two nodes, each with an image at the path. -/
def cluster : Cluster Bool where
  stores := fun node => ((Metadata.machine (envs node)).play (.new .empty .empty)
    (if node then [Metadata.Sample.append (image 1), Metadata.Sample.commit]
      else [Metadata.Sample.appendAgain (image 2), Metadata.Sample.commit])).2
  answers := []

/-- The node with the newer image has answered. -/
def answered : Cluster Bool := { cluster with answers := [holding newer] }

/-- The replacement that the plan asks for. -/
def params : ReplaceDir := ⟨Metadata.Sample.path, image 2, some (image 1), 6, [signature 2]⟩

/-- The node with the older image makes its plan. -/
def reconcile : ClusterOp Bool :=
  .reconcile true setting (holding older) (holding newer) (listed newer) Io.working
    Metadata.Sample.keys

/-- The cluster after an operation on the first node. -/
def next (cluster : Cluster Bool) (op : Metadata.Op) : Cluster Bool :=
  cluster.put true ((Metadata.machine (envs true)).play (cluster.stores true) [op]).2

/-- The replacement goes on. -/
def replacing : Cluster Bool :=
  next answered (.startReplace Io.working Metadata.Sample.keys params)

/-- The replacement is done. -/
def replaced : Cluster Bool := next replacing Metadata.Sample.commit

theorem run_next {cluster : Cluster Bool} {op : Metadata.Op}
    (returns : (Metadata.run (envs true) (cluster.stores true) op).toOption.isSome) :
    ∃ answer, cluster.run envs true op = some (answer, next cluster op) := by
  obtain ⟨result, isResult⟩ := Option.isSome_iff_exists.mp returns
  refine ⟨some result.1, ?_⟩
  simp [Cluster.run, next, Machine.play, Metadata.machine, isResult]

theorem exec_reconcile : ∃ answer, answered.exec envs site reconcile = some (answer, replacing) := by
  have plans : setting.plan (holding older) (holding newer) (listed newer) =
      .ok ([⟨"a".toList, .replace params⟩], true) := by
    rw [plan_holding]
    rfl
  have lists : (holding older).lookup site.spot.name.text = shown (answered.record site true) := by
    decide
  unfold reconcile
  rw [Cluster.exec, if_pos ⟨rfl, lists, List.mem_singleton.mpr rfl, orders newer⟩, plans]
  have returns : (Metadata.run (envs true) (answered.stores true)
      (.startReplace Io.working Metadata.Sample.keys params)).toOption.isSome := by decide
  exact run_next returns

end Sample

/-- The node with the older image replaces it once. -/
theorem replacements_rise_once :
    ∃ trace finish, (clusterMachine Sample.envs Sample.site).Steps Sample.cluster trace finish ∧
      trace.countP (replacesAt Sample.site true) = 1 ∧
      trace.countP (replacesAt Sample.site true) ≤
        (timestamps Sample.site Sample.cluster).card := by
  have settled : ∀ node, Settled (Sample.cluster.record Sample.site node) := by
    intro node
    cases node with
    | true => exact ⟨by decide, by decide, Or.inr ⟨Sample.older, by decide, by decide⟩⟩
    | false => exact ⟨by decide, by decide, Or.inr ⟨Sample.newer, by decide, by decide⟩⟩
  have answers : (clusterMachine Sample.envs Sample.site).Takes
      ⟨Sample.cluster, .answer false (Sample.holding Sample.newer), none, Sample.answered⟩ := by
    have lists : (Sample.holding Sample.newer).lookup Sample.site.spot.name.text =
        shown (Sample.cluster.record Sample.site false) := by decide
    unfold Machine.Takes clusterMachine
    dsimp only
    rw [Cluster.exec, if_pos lists]
    rfl
  obtain ⟨first, reconciles⟩ := Sample.exec_reconcile
  have reconciles : (clusterMachine Sample.envs Sample.site).Takes
      ⟨Sample.answered, Sample.reconcile, first, Sample.replacing⟩ := reconciles
  obtain ⟨second, commits⟩ : ∃ answer, Sample.replacing.run Sample.envs true Metadata.Sample.commit =
      some (answer, Sample.replaced) := Sample.run_next (by decide)
  have commits : (clusterMachine Sample.envs Sample.site).Takes
      ⟨Sample.replacing, .finish true true Io.working, second, Sample.replaced⟩ := commits
  have steps := ((Machine.Steps.refl.step answers).step reconciles).step commits
  refine ⟨_, _, steps, ?_, (replacements_rise settled rfl steps).2.2 true⟩
  have stays : (Sample.cluster.record Sample.site true).state = some (.state Sample.older) ∧
      (Sample.answered.record Sample.site true).state = some (.state Sample.older) ∧
      (Sample.replacing.record Sample.site true).state = some (.state Sample.older) := by decide
  have changes : (Sample.replaced.record Sample.site true).state = some (.state Sample.newer) := by
    decide
  have differs : Sample.older.image ≠ Sample.newer.image := by decide
  simp [replacesAt, stays, changes, differs]

end Reconciliation

end Ciruela
