import Ciruela.Cluster.Upload
import Ciruela.Foundation.Machine
import Mathlib.Data.Finset.Basic

/-!
# `ciruela upload`

An image is sent to every address of every host that is given, and the program waits until each
of the addresses has received it. The addresses that are needed are common to all hosts. The
waits end when somebody looks at them and none is needed any more, which happens at
notifications and when a connection is closed, but not when an upload is rejected.
-/

namespace Ciruela.Client.DoUpload

open Foundation Proto
open Remote (SocketAddr)

/-- `Progress`: what an upload still waits for, by address and by machine, and what it has heard.
-/
structure Progress where
  hostsDone : Map MachineId (List Char)
  ipsNeeded : Finset SocketAddr
  idsNeeded : Map MachineId (List Char)
  hostsErrored : Finset SocketAddr
  /-- Whether nothing has been sent yet. -/
  done : Bool
deriving DecidableEq

namespace Progress

/-- `Progress::new`. -/
def new : Progress := ⟨∅, ∅, ∅, ∅, true⟩

variable (progress : Progress)

/-- `Progress::add_ids`: machines that are done already are not waited for. -/
def addIds (hosts : Map MachineId (List Char)) : Progress :=
  { progress with idsNeeded := (hosts \ progress.hostsDone) ∪ progress.idsNeeded }

/-- `Progress::check_status`: `done` falls when no address is left to wait for. -/
def checkStatus : Progress :=
  if progress.ipsNeeded = ∅ then { progress with done := false } else progress

/-- The addresses of a target are waited for as soon as its name is resolved. -/
def need (addrs : List SocketAddr) : Progress :=
  { progress with ipsNeeded := progress.ipsNeeded ∪ addrs.toFinset }

/-- An address that has told how it went is no longer waited for. -/
def settle (addr : SocketAddr) : Progress :=
  { progress with ipsNeeded := progress.ipsNeeded.erase addr }

/-- `Tracker::notification`. -/
def notification (addr : SocketAddr) : Notification → Progress
  | .receivedImage img =>
      let heard :=
        { progress with hostsDone := progress.hostsDone.insert img.machineId img.hostname }
      (if img.forwarded then heard else heard.settle addr).checkStatus
  | .abortedImage img =>
      let heard := { progress with hostsErrored := insert addr progress.hostsErrored }
      (if img.forwarded then heard else heard.settle addr).checkStatus
  | .publishImage _ => progress

/-- `Tracker::closed`. -/
def closed (addr : SocketAddr) : Progress :=
  if progress.done then
    let left := progress.settle addr
    { left with hostsErrored := insert addr left.hostsErrored }.checkStatus
  else progress

/-- `is_ok`. -/
def isOk : Bool := decide (progress.hostsErrored = ∅)

end Progress

/-- `is_conflict_reason`. -/
def isConflictReason : Option (List Char) → Bool
  | some reason => Cluster.weakReasons.contains reason
  | none => false

/-- What is awaited of an address. -/
inductive Phase where
  | connecting
  | requested
  | waiting
  | finished (result : Bool)
deriving DecidableEq

/-- A future that has resolved: nothing more happens at its job. -/
def Phase.isFinished : Phase → Bool
  | finished _ => true
  | _ => false

/-- The upload to one address of a target. -/
structure Job where
  target : Nat
  addr : SocketAddr
  phase : Phase
  /-- Whether the tracker is still there. -/
  isOpen : Bool
deriving DecidableEq

/-- The upload as a whole: the shared progress, the targets whose names are resolved and their
jobs. -/
structure Uploading where
  progress : Progress
  resolved : Finset Nat
  jobs : List Job
deriving DecidableEq

/-- What happens. Replacing is answered in the same words as appending. -/
inductive Op where
  /-- The hosts of a target are picked, none if there was an error. -/
  | resolve (target : Nat) (addrs : List SocketAddr)
  | connect (job : Nat)
  | respond (job : Nat) (response : AppendDirAck)
  /-- There is no connection, or no response. -/
  | fail (job : Nat)
  | notify (job : Nat) (note : Notification)
  | close (job : Nat)
  /-- The future that waits is polled. -/
  | wake (job : Nat)

/-- The job at which an operation happens. -/
def Op.job : Op → Option Nat
  | resolve _ _ => none
  | connect job | respond job _ | fail job | notify job _ | close job | wake job => some job

/-- A step of an upload. -/
abbrev Event := Transition Uploading Op Unit

/-- What comes of a response. -/
def answered (failOnConflict : Bool) (response : AppendDirAck) : Phase :=
  if response.accepted then .waiting
  else .finished (!failOnConflict && isConflictReason response.rejectReason)

namespace Uploading

/-- Nothing is resolved at first. -/
def start : Uploading := ⟨.new, ∅, []⟩

variable (failOnConflict : Bool) (targets : Nat) (up : Uploading)

/-- A job moves on, and with it the progress that all jobs share. -/
def setJob (index : Nat) (job : Job) (progress : Progress) : Uploading :=
  { up with progress, jobs := up.jobs.set index job }

/-- One event at a job. -/
def execJob (index : Nat) (job : Job) : Op → Option Uploading
  | .resolve _ _ => none
  | .connect _ =>
      if job.phase = .connecting then
        some (up.setJob index { job with phase := .requested, isOpen := true } up.progress)
      else none
  | .respond _ response =>
      if job.phase = .requested then
        let added := up.progress.addIds response.hosts
        some (up.setJob index { job with phase := answered failOnConflict response }
          (if response.accepted then added else added.settle job.addr))
      else none
  | .fail _ =>
      if job.phase = .connecting ∨ job.phase = .requested then
        some (up.setJob index { job with phase := .finished false } (up.progress.settle job.addr))
      else none
  | .notify _ note =>
      if job.isOpen then
        some (up.setJob index job (up.progress.notification job.addr note))
      else none
  | .close _ =>
      if job.isOpen then
        some (up.setJob index { job with isOpen := false } (up.progress.closed job.addr))
      else none
  | .wake _ =>
      if job.phase = .waiting ∧ up.progress.done = false then
        some (up.setJob index { job with phase := .finished up.progress.isOk } up.progress)
      else none

/-- The uploads to the addresses of a target are begun. -/
def resolve (target : Nat) (addrs : List SocketAddr) : Uploading :=
  ⟨up.progress.need addrs, insert target up.resolved,
    up.jobs ++ addrs.map fun addr => ⟨target, addr, .connecting, false⟩⟩

/-- One step of the upload: a target is resolved, once, or one of its jobs moves on. -/
def exec : Op → Option (Unit × Uploading)
  | .resolve target addrs =>
      if target < targets ∧ target ∉ up.resolved then some ((), up.resolve target addrs) else none
  | op => do
      let index ← op.job
      let job ← up.jobs[index]?
      let after ← up.execJob failOnConflict index job op
      return ((), after)

/-- What `do_upload` gives when all is over: a target needs an address that went well. -/
def result : Option Bool :=
  if up.resolved = Finset.range targets ∧ up.jobs.all (fun job => job.phase.isFinished) = true then
    some ((List.range targets).all fun target => up.jobs.any fun job =>
      decide (job.target = target) && decide (job.phase = .finished true))
  else none

end Uploading

/-- `do_upload` as a machine: its runs are all orders in which targets and connections answer. -/
def machine (failOnConflict : Bool) (targets : Nat) : Machine Uploading Op Unit :=
  ⟨fun up op => up.exec failOnConflict targets op⟩

section Steps

variable {failOnConflict : Bool} {targets : Nat} {progress : Progress} {before after : Uploading}

/-- What an event at a job makes of the job and of the progress. -/
inductive Work (failOnConflict : Bool) (progress : Progress) (job : Job) :
    Op → Job → Progress → Prop where
  | connect {index : Nat} (connecting : job.phase = .connecting) :
      Work failOnConflict progress job (.connect index)
        { job with phase := .requested, isOpen := true } progress
  | accept {index : Nat} {response : AppendDirAck} (requested : job.phase = .requested)
      (accepted : response.accepted = true) :
      Work failOnConflict progress job (.respond index response) { job with phase := .waiting }
        (progress.addIds response.hosts)
  | reject {index : Nat} {response : AppendDirAck} (requested : job.phase = .requested)
      (rejected : response.accepted = false) :
      Work failOnConflict progress job (.respond index response)
        { job with phase := .finished (!failOnConflict && isConflictReason response.rejectReason) }
        ((progress.addIds response.hosts).settle job.addr)
  | fail {index : Nat} (early : job.phase = .connecting ∨ job.phase = .requested) :
      Work failOnConflict progress job (.fail index) { job with phase := .finished false }
        (progress.settle job.addr)
  | notify {index : Nat} {note : Notification} (isOpen : job.isOpen = true) :
      Work failOnConflict progress job (.notify index note) job
        (progress.notification job.addr note)
  | close {index : Nat} (isOpen : job.isOpen = true) :
      Work failOnConflict progress job (.close index) { job with isOpen := false }
        (progress.closed job.addr)
  | wake {index : Nat} (waiting : job.phase = .waiting) (sent : progress.done = false) :
      Work failOnConflict progress job (.wake index) { job with phase := .finished progress.isOk }
        progress

/-- What an event makes of the whole. -/
inductive Step (failOnConflict : Bool) (targets : Nat) (before : Uploading) :
    Op → Uploading → Prop where
  | resolve {target : Nat} {addrs : List SocketAddr} (isTarget : target < targets)
      (unresolved : target ∉ before.resolved) :
      Step failOnConflict targets before (.resolve target addrs) (before.resolve target addrs)
  | work {op : Op} {index : Nat} {job next : Job} {progress : Progress}
      (isIndex : op.job = some index) (isJob : before.jobs[index]? = some job)
      (works : Work failOnConflict before.progress job op next progress) :
      Step failOnConflict targets before op (before.setJob index next progress)

/-- A job works as `Work` says, and nothing else moves. -/
theorem work_of_execJob {index : Nat} {job : Job} {op : Op}
    (moved : before.execJob failOnConflict index job op = some after) :
    ∃ next progress, Work failOnConflict before.progress job op next progress ∧
      after = before.setJob index next progress := by
  cases op with
  | resolve target addrs => cases moved
  | connect index =>
      obtain ⟨connecting, same⟩ := Option.ite_none_right_eq_some.mp moved
      exact ⟨_, _, .connect connecting, (Option.some.inj same).symm⟩
  | respond index response =>
      obtain ⟨requested, same⟩ := Option.ite_none_right_eq_some.mp moved
      obtain rfl := Option.some.inj same
      unfold answered
      cases accepted : response.accepted with
      | true => exact ⟨_, _, .accept requested accepted, rfl⟩
      | false => exact ⟨_, _, .reject requested accepted, rfl⟩
  | fail index =>
      obtain ⟨early, same⟩ := Option.ite_none_right_eq_some.mp moved
      exact ⟨_, _, .fail early, (Option.some.inj same).symm⟩
  | notify index note =>
      obtain ⟨isOpen, same⟩ := Option.ite_none_right_eq_some.mp moved
      exact ⟨_, _, .notify isOpen, (Option.some.inj same).symm⟩
  | close index =>
      obtain ⟨isOpen, same⟩ := Option.ite_none_right_eq_some.mp moved
      exact ⟨_, _, .close isOpen, (Option.some.inj same).symm⟩
  | wake index =>
      obtain ⟨⟨waiting, sent⟩, same⟩ := Option.ite_none_right_eq_some.mp moved
      exact ⟨_, _, .wake waiting sent, (Option.some.inj same).symm⟩

/-- What a step of the upload does. -/
theorem step_of_takes {taken : Event} (takes : (machine failOnConflict targets).Takes taken) :
    Step failOnConflict targets taken.before taken.op taken.after := by
  obtain ⟨before, op, ⟨⟩, after⟩ := taken
  have moved : before.exec failOnConflict targets op = some ((), after) := takes
  have works (index : Nat) (isIndex : op.job = some index) (moved : (do
      let index ← op.job
      let job ← before.jobs[index]?
      let after ← before.execJob failOnConflict index job op
      return ((), after)) = some ((), after)) : Step failOnConflict targets before op after := by
    rw [isIndex, Option.bind_eq_bind, Option.bind_some] at moved
    obtain ⟨job, isJob, moved⟩ := Option.bind_eq_some_iff.mp moved
    obtain ⟨next, isNext, same⟩ := Option.bind_eq_some_iff.mp moved
    obtain ⟨-, rfl⟩ := Prod.mk.inj (Option.some.inj same)
    obtain ⟨done, progress, works, rfl⟩ := work_of_execJob isNext
    exact .work isIndex isJob works
  cases op with
  | resolve target addrs =>
      obtain ⟨⟨isTarget, unresolved⟩, same⟩ := Option.ite_none_right_eq_some.mp moved
      obtain ⟨-, rfl⟩ := Prod.mk.inj (Option.some.inj same)
      exact .resolve isTarget unresolved
  | connect index => exact works index rfl moved
  | respond index response => exact works index rfl moved
  | fail index => exact works index rfl moved
  | notify index note => exact works index rfl moved
  | close index => exact works index rfl moved
  | wake index => exact works index rfl moved

end Steps

section Waits

variable {failOnConflict : Bool} {targets : Nat} {addr : SocketAddr} {history : List Event}

/-- Whether the address is not needed after this. -/
def Op.settles (pending : Bool) : Op → Bool
  | notify _ (.receivedImage img) => !img.forwarded
  | notify _ (.abortedImage img) => !img.forwarded
  | respond _ response => !response.accepted
  | fail _ => true
  | close _ => pending
  | _ => false

/-- Whether the address is one with an error after this. -/
def Op.harms (pending : Bool) : Op → Bool
  | notify _ (.abortedImage _) => true
  | close _ => pending
  | _ => false

/-- Whether it is looked at what is needed. -/
def Op.looks : Op → Bool
  | notify _ (.receivedImage _) | notify _ (.abortedImage _) | close _ => true
  | _ => false

/-- A target has this address. -/
def Resolves (addr : SocketAddr) (taken : Event) : Prop :=
  ∃ target addrs, taken.op = .resolve target addrs ∧ addr ∈ addrs

/-- This happens at a job with this address. -/
def At (addr : SocketAddr) (taken : Event) : Prop :=
  ∃ index job, taken.op.job = some index ∧ taken.before.jobs[index]? = some job ∧ job.addr = addr

/-- The address is settled here: after this it is not waited for any more. -/
def Settles (addr : SocketAddr) (taken : Event) : Prop :=
  At addr taken ∧ taken.op.settles taken.before.progress.done = true

/-- The address is put among those with an error here. -/
def Harms (addr : SocketAddr) (taken : Event) : Prop :=
  At addr taken ∧ taken.op.harms taken.before.progress.done = true

/-- The address is waited for. -/
def Needed (addr : SocketAddr) (history : List Event) : Prop :=
  Since (Resolves addr) (Settles addr) history

/-- It was looked at when nothing was needed. -/
def WaitsOver (history : List Event) : Prop :=
  ∃ front event back, history = front ++ event :: back ∧ event.op.looks = true ∧
    ∀ addr, ¬ Needed addr (front ++ [event])

namespace Progress

variable (progress : Progress)

@[simp] theorem ipsNeeded_checkStatus : progress.checkStatus.ipsNeeded = progress.ipsNeeded := by
  unfold checkStatus
  split <;> rfl

@[simp] theorem hostsErrored_checkStatus :
    progress.checkStatus.hostsErrored = progress.hostsErrored := by
  unfold checkStatus
  split <;> rfl

/-- Looking whether the upload is done. -/
theorem done_checkStatus : progress.checkStatus.done = false ↔
    progress.done = false ∨ progress.ipsNeeded = ∅ := by
  unfold checkStatus
  split
  · simp_all
  · simp_all

end Progress

variable {progress next : Progress} {job later : Job} {op : Op}

theorem Work.addr_eq (works : Work failOnConflict progress job op later next) :
    later.addr = job.addr := by
  cases works <;> rfl

/-- Only the address of the job can leave those that are waited for. -/
theorem Work.mem_ipsNeeded (works : Work failOnConflict progress job op later next) :
    addr ∈ next.ipsNeeded ↔
      addr ∈ progress.ipsNeeded ∧ ¬ (job.addr = addr ∧ op.settles progress.done = true) := by
  cases works with
  | connect connecting => simp [Op.settles]
  | accept requested accepted => simp [Op.settles, accepted, Progress.addIds]
  | reject requested rejected =>
      simp [Op.settles, rejected, Progress.addIds, Progress.settle, and_comm, eq_comm]
  | fail early => simp [Op.settles, Progress.settle, and_comm, eq_comm]
  | @notify index note isOpen =>
      cases note with
      | publishImage data => simp [Op.settles, Progress.notification]
      | receivedImage img =>
          cases forwarded : img.forwarded <;>
            simp [Op.settles, Progress.notification, Progress.settle, forwarded, and_comm, eq_comm]
      | abortedImage img =>
          cases forwarded : img.forwarded <;>
            simp [Op.settles, Progress.notification, Progress.settle, forwarded, and_comm, eq_comm]
  | close isOpen =>
      cases pending : progress.done <;>
        simp [Op.settles, Progress.closed, Progress.settle, pending, and_comm, eq_comm]
  | wake waiting sent => simp [Op.settles]

/-- Only the address of the job can be put among those with an error. -/
theorem Work.mem_hostsErrored (works : Work failOnConflict progress job op later next) :
    addr ∈ next.hostsErrored ↔
      addr ∈ progress.hostsErrored ∨ (job.addr = addr ∧ op.harms progress.done = true) := by
  cases works with
  | connect connecting => simp [Op.harms]
  | accept requested accepted => simp [Op.harms, Progress.addIds]
  | reject requested rejected => simp [Op.harms, Progress.addIds, Progress.settle]
  | fail early => simp [Op.harms, Progress.settle]
  | @notify index note isOpen =>
      cases note with
      | publishImage data => simp [Op.harms, Progress.notification]
      | receivedImage img =>
          cases forwarded : img.forwarded <;>
            simp [Op.harms, Progress.notification, Progress.settle, forwarded]
      | abortedImage img =>
          cases forwarded : img.forwarded <;>
            simp [Op.harms, Progress.notification, Progress.settle, forwarded, or_comm, eq_comm]
  | close isOpen =>
      cases pending : progress.done <;>
        simp [Op.harms, Progress.closed, Progress.settle, pending, or_comm, eq_comm]
  | wake waiting sent => simp [Op.harms]

/-- The upload is done when it was, or when the job looks and nothing is waited for. -/
theorem Work.done_iff (works : Work failOnConflict progress job op later next) :
    next.done = false ↔
      progress.done = false ∨ (op.looks = true ∧ next.ipsNeeded = ∅) := by
  cases works with
  | connect connecting => simp [Op.looks]
  | accept requested accepted => simp [Op.looks, Progress.addIds]
  | reject requested rejected => simp [Op.looks, Progress.addIds, Progress.settle]
  | fail early => simp [Op.looks, Progress.settle]
  | @notify index note isOpen =>
      cases note with
      | publishImage data => simp [Op.looks, Progress.notification]
      | receivedImage img =>
          cases forwarded : img.forwarded <;>
            simp [Op.looks, Progress.notification, Progress.settle, forwarded,
              Progress.done_checkStatus]
      | abortedImage img =>
          cases forwarded : img.forwarded <;>
            simp [Op.looks, Progress.notification, Progress.settle, forwarded,
              Progress.done_checkStatus]
  | close isOpen =>
      cases pending : progress.done <;>
        simp [Op.looks, Progress.closed, Progress.settle, pending, Progress.done_checkStatus]
  | wake waiting sent => simp [Op.looks]

theorem at_iff {taken : Event} {index : Nat} (isIndex : taken.op.job = some index)
    (isJob : taken.before.jobs[index]? = some job) : At addr taken ↔ job.addr = addr := by
  constructor
  · rintro ⟨other, found, isOther, isFound, rfl⟩
    obtain rfl := Option.some.inj (isIndex.symm.trans isOther)
    rw [Option.some.inj (isJob.symm.trans isFound)]
  · intro same
    exact ⟨index, job, isIndex, isJob, same⟩

theorem not_resolves {taken : Event} {index : Nat} (isIndex : taken.op.job = some index) :
    ¬ Resolves addr taken := by
  rintro ⟨target, addrs, isResolve, _⟩
  rw [isResolve] at isIndex
  cases isIndex

theorem not_at {taken : Event} (isJob : taken.op.job = none) : ¬ At addr taken := by
  rintro ⟨index, job, isIndex, _⟩
  cases isJob.symm.trans isIndex

/-- What a step adds to `WaitsOver`. -/
theorem waitsOver_concat {taken : Event} : WaitsOver (history ++ [taken]) ↔
    WaitsOver history ∨ (taken.op.looks = true ∧ ∀ addr, ¬ Needed addr (history ++ [taken])) := by
  constructor
  · rintro ⟨front, event, back, split, looks, none⟩
    rcases List.eq_nil_or_concat back with rfl | ⟨back, last, rfl⟩
    · obtain ⟨rfl, same⟩ := List.append_inj' split rfl
      obtain rfl := List.singleton_inj.mp same
      exact .inr ⟨looks, none⟩
    · rw [List.concat_eq_append, ← List.cons_append, ← List.append_assoc] at split
      obtain ⟨rfl, -⟩ := List.append_inj' split rfl
      exact .inl ⟨front, event, back, rfl, looks, none⟩
  · rintro (⟨front, event, back, rfl, looks, none⟩ | ⟨looks, none⟩)
    · exact ⟨front, event, back ++ [taken], by simp, looks, none⟩
    · exact ⟨history, taken, [], rfl, looks, none⟩

/-- The progress is what the history tells. -/
structure Told (history : List Event) (up : Uploading) : Prop where
  needed : ∀ addr, addr ∈ up.progress.ipsNeeded ↔ Needed addr history
  errored : ∀ addr, addr ∈ up.progress.hostsErrored ↔ ∃ taken ∈ history, Harms addr taken
  sent : up.progress.done = false ↔ WaitsOver history

/-- Nothing is told at first. -/
theorem Told.start : Told [] .start where
  needed := fun addr => iff_of_false (Finset.notMem_empty addr) not_since_nil
  errored := fun addr => by simp [Uploading.start, Progress.new]
  sent := by simp [Uploading.start, Progress.new, WaitsOver]

theorem exists_mem_concat {taken : Event} : (∃ earlier ∈ history ++ [taken], Harms addr earlier) ↔
    (∃ earlier ∈ history, Harms addr earlier) ∨ Harms addr taken := by
  simp [or_and_right, exists_or]

/-- A step keeps what the progress tells of the history. -/
theorem Told.step {taken : Event} (takes : (machine failOnConflict targets).Takes taken)
    (told : Told history taken.before) : Told (history ++ [taken]) taken.after := by
  obtain ⟨before, op, answer, after⟩ := taken
  have stepped : Step failOnConflict targets before op after := step_of_takes takes
  cases stepped with
  | @resolve target addrs isTarget unresolved =>
      let taken : Event := ⟨before, .resolve target addrs, answer, before.resolve target addrs⟩
      have idle (addr : SocketAddr) : ¬ At addr taken := not_at rfl
      have resolves (addr : SocketAddr) : Resolves addr taken ↔ addr ∈ addrs := by
        constructor
        · rintro ⟨target, addrs, same, member⟩
          cases same
          exact member
        · exact fun member => ⟨target, addrs, rfl, member⟩
      have more (addr : SocketAddr) : addr ∈ (before.progress.need addrs).ipsNeeded ↔
          addr ∈ before.progress.ipsNeeded ∨ addr ∈ addrs := by
        simp [Progress.need]
      refine ⟨fun addr => ?_, fun addr => ?_, ?_⟩
      · rw [Needed, since_concat, ← Needed, ← told.needed addr, resolves,
          and_iff_left fun settles => idle addr settles.1, or_comm]
        exact more addr
      · rw [exists_mem_concat, ← told.errored addr, or_iff_left fun harms => idle addr harms.1]
        rfl
      · rw [waitsOver_concat, ← told.sent, or_iff_left fun looked => Bool.false_ne_true looked.1]
        rfl
  | @work op index job next progress isIndex isJob works =>
      have placed (addr : SocketAddr) :
          At addr ⟨before, op, answer, before.setJob index next progress⟩ ↔ job.addr = addr :=
        at_iff isIndex isJob
      have needed (addr : SocketAddr) : addr ∈ progress.ipsNeeded ↔
          Needed addr (history ++ [⟨before, op, answer, before.setJob index next progress⟩]) := by
        rw [works.mem_ipsNeeded, told.needed addr, Needed, Needed, since_concat, Settles, placed]
        exact (or_iff_right (not_resolves isIndex)).symm
      refine ⟨needed, fun addr => ?_, ?_⟩
      · rw [exists_mem_concat, ← told.errored addr, Harms, placed]
        exact works.mem_hostsErrored
      · rw [waitsOver_concat, ← told.sent, ← forall_congr' fun addr => not_congr (needed addr),
          ← Finset.eq_empty_iff_forall_notMem]
        exact works.done_iff

/-- The progress tells of the history in every run. -/
theorem told_of_steps {finish : Uploading}
    (steps : (machine failOnConflict targets).Steps .start history finish) : Told history finish :=
  steps.preserves_history Told (fun _ => True) (fun _ _ takes _ told => told.step takes)
    (fun _ _ => trivial) .start

/-- Whoever waits for the others can go on exactly when it has been looked at what is needed at a
time when nothing was. A rejection does not look. -/
theorem wake_iff {finish : Uploading}
    (steps : (machine failOnConflict targets).Steps .start history finish) (index : Nat) :
    ((machine failOnConflict targets).exec finish (.wake index)).isSome ↔
      (∃ job, finish.jobs[index]? = some job ∧ job.phase = .waiting) ∧ WaitsOver history := by
  rw [← (told_of_steps steps).sent]
  constructor
  · intro moved
    obtain ⟨⟨answer, after⟩, moves⟩ := Option.isSome_iff_exists.mp moved
    let taken : Event := ⟨finish, .wake index, answer, after⟩
    have takes : (machine failOnConflict targets).Takes taken := moves
    have stepped : Step failOnConflict targets finish (.wake index) after := step_of_takes takes
    cases stepped with
    | work isIndex isJob works =>
        obtain rfl := Option.some.inj isIndex
        cases works with
        | wake waiting sent => exact ⟨⟨_, isJob, waiting⟩, sent⟩
  · rintro ⟨⟨job, isJob, waiting⟩, sent⟩
    simp [machine, Uploading.exec, Op.job, isJob, Uploading.execJob, waiting, sent]

end Waits

section Verdicts

variable {failOnConflict : Bool} {targets : Nat} {index : Nat} {history : List Event}
  {up finish : Uploading} {phase : Phase} {taken : Event}

/-- The upload is accepted. -/
def Accepts (index : Nat) (taken : Event) : Prop :=
  ∃ response, taken.op = .respond index response ∧ response.accepted = true

/-- The answers after which a job fails: the request failed, or the server refused it. -/
def Op.refuses : Op → Bool
  | fail _ => true
  | respond _ response => !response.accepted
  | _ => false

/-- The upload is rejected or fails. -/
def Refuses (index : Nat) (taken : Event) : Prop :=
  taken.op.job = some index ∧ taken.op.refuses = true

/-- The upload is rejected, but that's okay. -/
def Conflicts (failOnConflict : Bool) (index : Nat) (taken : Event) : Prop :=
  ∃ response, taken.op = .respond index response ∧ response.accepted = false ∧
    isConflictReason response.rejectReason = true ∧ failOnConflict = false

/-- The upload is begun. -/
def Creates (index : Nat) (taken : Event) : Prop :=
  taken.before.jobs.length ≤ index ∧ index < taken.after.jobs.length

/-- A machine says itself that it has an image. -/
def Hears (taken : Event) : Prop :=
  ∃ job img, taken.op = .notify job (.receivedImage img) ∧ img.forwarded = false

/-- How an upload has come to its phase. -/
inductive Fate (failOnConflict : Bool) (history : List Event) (index : Nat) : Phase → Prop where
  | early {phase : Phase} (early : phase = .connecting ∨ phase = .requested)
      (never : ∀ taken ∈ history, ¬ Refuses index taken) :
      Fate failOnConflict history index phase
  | waiting (accepted : ∃ taken ∈ history, Accepts index taken)
      (never : ∀ taken ∈ history, ¬ Refuses index taken) :
      Fate failOnConflict history index .waiting
  | woken {front back : List Event} {taken : Event} (split : history = front ++ taken :: back)
      (sent : taken.before.progress.done = false)
      (accepted : ∃ taken ∈ history, Accepts index taken)
      (never : ∀ taken ∈ history, ¬ Refuses index taken) :
      Fate failOnConflict history index (.finished taken.before.progress.isOk)
  | conflict {result : Bool} (conflicts : ∃ taken ∈ history, Conflicts failOnConflict index taken) :
      Fate failOnConflict history index (.finished result)
  | failed : Fate failOnConflict history index (.finished false)

theorem never_concat (never : ∀ taken ∈ history, ¬ Refuses index taken)
    (another : ¬ Refuses index taken) :
    ∀ earlier ∈ history ++ [taken], ¬ Refuses index earlier := by
  intro earlier member
  rcases List.mem_append.mp member with old | new
  · exact never earlier old
  · rw [List.mem_singleton.mp new]
    exact another

/-- Later events leave a fate alone, unless they refuse. -/
theorem Fate.mono (fate : Fate failOnConflict history index phase)
    (another : ¬ Refuses index taken) :
    Fate failOnConflict (history ++ [taken]) index phase := by
  have kept {Told : Event → Prop} : (∃ earlier ∈ history, Told earlier) →
      ∃ earlier ∈ history ++ [taken], Told earlier :=
    fun ⟨earlier, member, told⟩ => ⟨earlier, List.mem_append_left _ member, told⟩
  cases fate with
  | early early never => exact .early early (never_concat never another)
  | waiting accepted never => exact .waiting (kept accepted) (never_concat never another)
  | @woken front back woke split sent accepted never =>
      have longer : history ++ [taken] = front ++ woke :: (back ++ [taken]) := by simp [split]
      exact .woken longer sent (kept accepted) (never_concat never another)
  | conflict conflicts => exact .conflict (kept conflicts)
  | failed => exact .failed

/-- What is known of the uploads. -/
structure Jobs (failOnConflict : Bool) (history : List Event) (up : Uploading) : Prop where
  known : ∀ taken ∈ history, ∀ index, taken.op.job = some index → index < up.jobs.length
  fates : ∀ index job, up.jobs[index]? = some job → Fate failOnConflict history index job.phase
  created : ∀ index job, up.jobs[index]? = some job →
    ∃ taken ∈ history, Resolves job.addr taken ∧ Creates index taken

variable {progress next : Progress} {job later : Job} {op : Op}

/-- The fate of an upload that something happens to. -/
theorem Fate.work (fate : Fate failOnConflict history index job.phase) (isOp : taken.op = op)
    (isIndex : op.job = some index) (isProgress : taken.before.progress = progress)
    (works : Work failOnConflict progress job op later next) :
    Fate failOnConflict (history ++ [taken]) index later.phase := by
  have here : taken ∈ history ++ [taken] := List.mem_append_right _ (List.mem_singleton_self _)
  have spared (kind : op.refuses = false) : ¬ Refuses index taken := by
    rintro ⟨-, refuses⟩
    rw [isOp, kind] at refuses
    cases refuses
  cases works with
  | connect connecting =>
      rw [connecting] at fate
      cases fate with
      | early _ never => exact .early (.inr rfl) (never_concat never (spared rfl))
  | @accept other response requested accepted =>
      obtain rfl := Option.some.inj isIndex
      have another : ¬ Refuses other taken := spared (by simp [Op.refuses, accepted])
      rw [requested] at fate
      cases fate with
      | early _ never =>
          exact .waiting ⟨taken, here, response, isOp, accepted⟩ (never_concat never another)
  | @reject other response requested rejected =>
      obtain rfl := Option.some.inj isIndex
      dsimp only
      cases isOkay : !failOnConflict && isConflictReason response.rejectReason with
      | false => exact .failed
      | true =>
          obtain ⟨lenient, isConflict⟩ := Bool.and_eq_true_iff.mp isOkay
          refine .conflict ⟨taken, here, response, isOp, rejected, isConflict, ?_⟩
          rwa [Bool.not_eq_true'] at lenient
  | fail early => exact .failed
  | notify isOpen => exact fate.mono (spared rfl)
  | close isOpen => exact fate.mono (spared rfl)
  | wake waiting sent =>
      rw [waiting] at fate
      cases fate with
      | waiting accepted never =>
          obtain ⟨earlier, member, accepts⟩ := accepted
          subst isProgress
          exact .woken rfl sent ⟨earlier, List.mem_append_left _ member, accepts⟩
            (never_concat never (spared rfl))
      | early isEarly _ =>
          rcases isEarly with isEarly | isEarly
          · cases isEarly
          · cases isEarly

/-- There are no jobs at first. -/
theorem Jobs.start : Jobs failOnConflict [] .start where
  known := by simp
  fates := by simp [Uploading.start]
  created := by simp [Uploading.start]

/-- A step keeps what the jobs tell of the history. -/
theorem Jobs.step (takes : (machine failOnConflict targets).Takes taken)
    (jobs : Jobs failOnConflict history taken.before) :
    Jobs failOnConflict (history ++ [taken]) taken.after := by
  obtain ⟨before, op, answer, after⟩ := taken
  have stepped : Step failOnConflict targets before op after := step_of_takes takes
  cases stepped with
  | @resolve target addrs isTarget unresolved =>
      let taken : Event := ⟨before, .resolve target addrs, answer, before.resolve target addrs⟩
      have here : taken ∈ history ++ [taken] := List.mem_append_right _ (List.mem_singleton_self _)
      have more : before.jobs.length ≤ (before.resolve target addrs).jobs.length := by
        simp [Uploading.resolve]
      have known : ∀ earlier ∈ history ++ [taken], ∀ index, earlier.op.job = some index →
          index < before.jobs.length := by
        intro earlier member index isIndex
        rcases List.mem_append.mp member with old | new
        · exact jobs.known earlier old index isIndex
        · rw [List.mem_singleton.mp new] at isIndex
          cases isIndex
      refine ⟨fun earlier member index isIndex =>
        (known earlier member index isIndex).trans_le more, fun index job isJob => ?_,
        fun index job isJob => ?_⟩
      · rcases Nat.lt_or_ge index before.jobs.length with old | new
        · rw [Uploading.resolve, List.getElem?_append_left old] at isJob
          refine (jobs.fates index job isJob).mono ?_
          rintro ⟨isIndex, _⟩
          cases isIndex
        · rw [Uploading.resolve, List.getElem?_append_right new, List.getElem?_map] at isJob
          obtain ⟨addr, _, rfl⟩ := Option.map_eq_some_iff.mp isJob
          refine .early (.inl rfl) fun earlier member refuses => ?_
          exact absurd (known earlier member index refuses.1) (Nat.not_lt.mpr new)
      · rcases Nat.lt_or_ge index before.jobs.length with old | new
        · rw [Uploading.resolve, List.getElem?_append_left old] at isJob
          obtain ⟨earlier, member, creates⟩ := jobs.created index job isJob
          exact ⟨earlier, List.mem_append_left _ member, creates⟩
        · have created : index < (before.resolve target addrs).jobs.length :=
            (List.getElem?_eq_some_iff.mp isJob).1
          rw [Uploading.resolve, List.getElem?_append_right new, List.getElem?_map] at isJob
          obtain ⟨addr, isAddr, rfl⟩ := Option.map_eq_some_iff.mp isJob
          exact ⟨taken, here, ⟨target, addrs, rfl, List.mem_of_getElem? isAddr⟩, new, created⟩
  | @work op here job next progress isIndex isJob works =>
      have same : (before.setJob here next progress).jobs.length = before.jobs.length := by
        simp [Uploading.setJob]
      have inside : here < before.jobs.length := (List.getElem?_eq_some_iff.mp isJob).1
      refine ⟨fun earlier member index isOther => ?_, fun index found isFound => ?_,
        fun index found isFound => ?_⟩
      · rw [same]
        rcases List.mem_append.mp member with old | new
        · exact jobs.known earlier old index isOther
        · rw [List.mem_singleton.mp new] at isOther
          obtain rfl := Option.some.inj (isIndex.symm.trans isOther)
          exact inside
      · rw [Uploading.setJob, List.getElem?_set] at isFound
        by_cases changed : here = index
        · subst changed
          rw [if_pos rfl, if_pos inside] at isFound
          rw [← Option.some.inj isFound]
          exact (jobs.fates here job isJob).work rfl isIndex rfl works
        · rw [if_neg changed] at isFound
          refine (jobs.fates index found isFound).mono ?_
          rintro ⟨isOther, _⟩
          exact changed (Option.some.inj (isIndex.symm.trans isOther))
      · have created :
            ∃ earlier ∈ history, Resolves found.addr earlier ∧ Creates index earlier := by
          rw [Uploading.setJob, List.getElem?_set] at isFound
          by_cases changed : here = index
          · subst changed
            rw [if_pos rfl, if_pos inside] at isFound
            rw [← Option.some.inj isFound, works.addr_eq]
            exact jobs.created here job isJob
          · rw [if_neg changed] at isFound
            exact jobs.created index found isFound
        obtain ⟨earlier, member, creates⟩ := created
        exact ⟨earlier, List.mem_append_left _ member, creates⟩

/-- The jobs tell of the history in every run. -/
theorem jobs_of_steps (steps : (machine failOnConflict targets).Steps .start history finish) :
    Jobs failOnConflict history finish :=
  steps.preserves_history (Jobs failOnConflict) (fun _ => True)
    (fun _ _ takes _ jobs => jobs.step takes) (fun _ _ => trivial) .start

/-- An address that went well has refused what is there already, or it has accepted the upload, and
the waits were over without an error anywhere. Then it was resolved too late, or somebody at this
address has said that the image is there, or has refused another upload. -/
def Well (failOnConflict : Bool) (history : List Event) (index : Nat) (addr : SocketAddr) : Prop :=
  (∃ taken ∈ history, Conflicts failOnConflict index taken) ∨
    (∃ taken ∈ history, Accepts index taken) ∧
      ∃ front back, history = front ++ back ∧ WaitsOver front ∧
        (∀ taken ∈ front, ∀ addr, ¬ Harms addr taken) ∧
        ((∃ taken ∈ back, Creates index taken) ∨
          ∃ taken ∈ front, At addr taken ∧ (Hears taken ∨ ∃ other ≠ index, Refuses other taken))

/-- What ends the need for an address without an error. -/
theorem hears_or_refuses {addr : SocketAddr} (settles : Settles addr taken)
    (harmless : ¬ Harms addr taken) : Hears taken ∨ ∃ other, Refuses other taken := by
  obtain ⟨isAt, settles⟩ := settles
  have unharmed : taken.op.harms taken.before.progress.done ≠ true :=
    fun harms => harmless ⟨isAt, harms⟩
  cases isOp : taken.op with
  | notify index note =>
      rw [isOp] at settles unharmed
      cases note with
      | receivedImage img => exact .inl ⟨index, img, isOp, by simpa [Op.settles] using settles⟩
      | abortedImage img => exact absurd rfl unharmed
      | publishImage data => cases settles
  | respond index response =>
      rw [isOp] at settles
      exact .inr ⟨index, by rw [isOp]; rfl, by rw [isOp]; exact settles⟩
  | fail index => exact .inr ⟨index, by rw [isOp]; rfl, by rw [isOp]; rfl⟩
  | close index =>
      rw [isOp] at settles unharmed
      exact absurd settles unharmed
  | resolve target addrs =>
      rw [isOp] at settles
      cases settles
  | connect index =>
      rw [isOp] at settles
      cases settles
  | wake index =>
      rw [isOp] at settles
      cases settles

/-- A job that has ended well is one of whose address everything went well. -/
theorem well_of_over (steps : (machine failOnConflict targets).Steps .start history finish)
    {index : Nat} {job : Job} (isJob : finish.jobs[index]? = some job)
    (well : job.phase = .finished true) : Well failOnConflict history index job.addr := by
  have jobs := jobs_of_steps steps
  have fate := jobs.fates index job isJob
  rw [well] at fate
  generalize isResult : true = result at fate
  cases fate with
  | early early _ =>
      rcases early with early | early
      · cases early
      · cases early
  | failed => cases isResult
  | conflict conflicts => exact .inl conflicts
  | @woken front back woke split sent accepted never =>
      refine .inr ⟨accepted, ?_⟩
      subst split
      have told := told_of_steps steps.cut.1
      obtain ⟨first, event, rest, rfl, looks, none⟩ := told.sent.mp sent
      have errorless : woke.before.progress.hostsErrored = ∅ := of_decide_eq_true isResult.symm
      have unharmed : ∀ taken ∈ first ++ [event], ∀ addr, ¬ Harms addr taken := by
        intro taken member addr harms
        have errored := (told.errored addr).mpr ⟨taken, by grind, harms⟩
        rw [errorless] at errored
        exact Finset.notMem_empty addr errored
      refine ⟨first ++ [event], rest ++ woke :: back, by simp, ⟨first, event, [], rfl, looks, none⟩,
        unharmed, ?_⟩
      obtain ⟨made, member, resolves, creates⟩ := jobs.created index job isJob
      have either : made ∈ first ++ [event] ∨ made ∈ rest ++ woke :: back := by grind
      rcases either with early | late
      · obtain ⟨before, after, split⟩ := List.append_of_mem early
        obtain ⟨settled, later, settles⟩ :=
          exists_ends_of_not_since resolves (split ▸ none job.addr)
        have inside : settled ∈ first ++ [event] := by
          rw [split]
          exact List.mem_append_right _ (List.mem_cons_of_mem _ later)
        refine .inr ⟨settled, inside, settles.1, ?_⟩
        rcases hears_or_refuses settles (unharmed settled inside _) with hears | ⟨other, refuses⟩
        · exact .inl hears
        · refine .inr ⟨other, ?_, refuses⟩
          rintro rfl
          exact never settled (by grind) refuses
      · exact .inl ⟨made, late, creates⟩

/-- An upload that succeeds has gone well at some address of each target. -/
theorem upload_succeeds (steps : (machine failOnConflict targets).Steps .start history finish)
    (succeeds : finish.result targets = some true) :
    ∀ target < targets, ∃ index job, finish.jobs[index]? = some job ∧ job.target = target ∧
      Well failOnConflict history index job.addr := by
  intro target isTarget
  obtain ⟨_, same⟩ := Option.ite_none_right_eq_some.mp succeeds
  have well := List.all_eq_true.mp (Option.some.inj same) target (List.mem_range.mpr isTarget)
  obtain ⟨job, member, goes⟩ := List.any_eq_true.mp well
  obtain ⟨isOf, well⟩ := Bool.and_eq_true_iff.mp goes
  obtain ⟨index, isJob⟩ := List.getElem?_of_mem member
  exact ⟨index, job, isJob, of_decide_eq_true isOf,
    well_of_over steps isJob (of_decide_eq_true well)⟩

end Verdicts

namespace Sample

/-- The first server of the examples. -/
def a : SocketAddr := ⟨[10, 0, 0, 1], 24783⟩

/-- The second server of the examples. -/
def b : SocketAddr := ⟨[10, 0, 0, 2], 24783⟩

/-- A server has received the image itself. -/
def received : Notification :=
  .receivedImage ⟨⟨[1]⟩, ⟨Path.ofText "/a/x".toList, by decide, by decide⟩, [7], "a".toList, false⟩

/-- A server has something else at the path. -/
def conflict : AppendDirAck := ⟨false, some "already_exists".toList, ∅⟩

/-- One of two machines has received the image when the other one rejects it. -/
def rejecting : List Op :=
  [.resolve 0 [a, b], .connect 0, .connect 1, .respond 0 ⟨true, none, ∅⟩, .notify 0 received,
    .respond 1 conflict]

/-- The rejection comes first. -/
def receiving : List Op :=
  [.resolve 0 [a, b], .connect 0, .connect 1, .respond 1 conflict, .respond 0 ⟨true, none, ∅⟩,
    .notify 0 received, .wake 0]

/-- An upload with one target, played from the start. -/
def played (ops : List Op) : List Event × Uploading := (machine false 1).play .start ops

end Sample

open Sample in
/-- Nothing is needed any more, and the program waits. -/
theorem wake_iff_rejecting :
    (played rejecting).2.progress.ipsNeeded = ∅ ∧ ¬ WaitsOver (played rejecting).1 ∧
      WaitsOver (played receiving.dropLast).1 := by
  have steps := Machine.Steps.of_play (machine false 1) .start rejecting
  have waits := (wake_iff steps 0).not
  have steps := Machine.Steps.of_play (machine false 1) .start receiving.dropLast
  have wakes := wake_iff steps 0
  refine ⟨by decide, fun ended => ?_, (wakes.mp (by decide)).2⟩
  exact waits.mp (by decide) ⟨⟨⟨0, a, .waiting, true⟩, by decide, rfl⟩, ended⟩

open Sample in

/-- The one target of the example is served well. -/
theorem upload_succeeds_receiving : ∃ index job,
    (played receiving).2.jobs[index]? = some job ∧ job.target = 0 ∧
      Well false (played receiving).1 index job.addr :=
  upload_succeeds (Machine.Steps.of_play (machine false 1) .start receiving) (by decide) 0
    (by decide)

end Ciruela.Client.DoUpload
