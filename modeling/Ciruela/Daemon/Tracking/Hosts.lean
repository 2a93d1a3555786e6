import Ciruela.Daemon.Peers.GossipSafety
import Ciruela.Daemon.Tracking.Plans

/-!
# The hosts of a reconciliation

While a reconciliation runs, every host that announces the same state of the directory is
put into a set of candidates. The reconciliation asks the host it was started with, and
takes another one out of the set when that host fails. When an upload is issued, the
addresses in the set are recorded as those the image can be had from. What a host is in
the set for is its announcements, so the record is compared with the history of a run.
-/

namespace Ciruela

open Foundation

namespace Reconciliation

open BaseDir (entries)
open Metadata (Found)
open Peers (Around PathSet)
open Remote (SocketAddr)

/-- A host that a directory can be asked of. -/
abbrev Host : Type := SocketAddr × MachineId

/-- What the task of a reconciliation waits for. -/
inductive Task where
  /-- The answer of a host to `GetBaseDir`, which was asked this many times again. -/
  | asking (host : Host) (tries : Nat)
  /-- The scan of the directory. The listing of the host has the hash. -/
  | scanning (host : Host) (dirs : Found)
  /-- The rest of the loop over the remote states. -/
  | issuing (host : Host) (rest : List Planned) (full : Bool)
  | ended

/-- What becomes of a request for a listing. -/
inductive Reply where
  | listing (dirs : Found)
  | unexpectedTermination
  | failed

/-- A node and its reconciliations. -/
structure Node (Hash : Type) where
  around : Around Hash
  tasks : Map (List Component × Hash) Task
  /-- The addresses an image can be had from, with the time they were recorded. -/
  recentlyReceived : Map (List Component) (Map SocketAddr Nat)

/-- What a node does with the directories that others announce. -/
inductive Op (Hash : Type) where
  /-- A packet of gossip announces the state of a directory: `reconcile_dir`. -/
  | announce (path : VPath) (hash : Hash) (addr : SocketAddr) (id : MachineId)
  /-- The next command is taken up: `start`. -/
  | begin
  /-- A request ends. `next` is what the iteration over the set hands out. -/
  | respond (pair : List Component × Hash) (reply : Reply) (next : Option Host)
  /-- The directory or the keep list cannot be read. -/
  | giveUp (pair : List Component × Hash)
  | plan (pair : List Component × Hash) (setting : Setting) (locals : Found)
      (ordered : List (List Char × State))
  /-- The next upload of a plan is issued. -/
  | issue (pair : List Component × Hash) (now : SocketAddr → Nat)
  | finish (pair : List Component × Hash)
  /-- Downloads begin and end, directories are scanned, old addresses are forgotten. -/
  | elsewhere (inProgress : PathSet) (baseDirs : Map (List Component) (Finset Hash))
      (watched : Finset (List Component)) (incoming : List (Nat × PathSet))
      (recentlyReceived : Map (List Component) (Map SocketAddr Nat))

namespace Node

variable {Hash : Type} [DecidableEq Hash] (node : Node Hash)

/-- Nothing has been announced. -/
def new : Node Hash := ⟨⟨.empty, ∅, ∅, ∅, [], []⟩, ∅, ∅⟩

/-- The candidates of a reconciliation. -/
def hosts (pair : List Component × Hash) : Finset Host :=
  (node.around.reconciling.lookup pair).getD ∅

/-- The addresses the image at the path can be had from. -/
def received (path : VPath) : Map SocketAddr Nat :=
  (node.recentlyReceived.lookup path.place).getD ∅

/-- A reconciliation has come further. -/
def setTask (pair : List Component × Hash) (task : Task) : Node Hash :=
  { node with tasks := node.tasks.insert pair task }

/-- Other hosts are left to be asked. -/
def setHosts (pair : List Component × Hash) (hosts : Finset Host) : Node Hash :=
  { node with around := { node.around with
      reconciling := node.around.reconciling.insert pair hosts } }

/-- Drop a host that is no good, and take another one out of the set. -/
def nextHost (pair : List Component × Hash) (host : Host) (next : Option Host) :
    Option (Node Hash) :=
  match node.around.reconciling.lookup pair, next with
  | none, none => some (node.setTask pair .ended)
  | none, some _ => none
  | some hosts, none =>
      if hosts.erase host = ∅ then some ((node.setHosts pair ∅).setTask pair .ended) else none
  | some hosts, some chosen =>
      if chosen ∈ hosts.erase host then
        some ((node.setHosts pair ((hosts.erase host).erase chosen)).setTask pair
          (.asking chosen 0))
      else none

/-- A request ends: the listing is taken if it has the hash, else another host is asked. -/
def respond (digest : Found → Hash) (pair : List Component × Hash) (reply : Reply)
    (next : Option Host) : Option (Node Hash) :=
  match node.tasks.lookup pair with
  | some (.asking host tries) =>
      match reply with
      | .listing dirs =>
          if digest dirs = pair.2 then some (node.setTask pair (.scanning host dirs))
          else node.nextHost pair host next
      | .unexpectedTermination =>
          if tries < 2 then some (node.setTask pair (.asking host (tries + 1)))
          else node.nextHost pair host next
      | .failed => node.nextHost pair host next
  | _ => none

/-- Record the addresses of the set for the path. -/
def record (pair : List Component × Hash) (path : VPath) (now : SocketAddr → Nat) : Node Hash :=
  match node.around.reconciling.lookup pair with
  | none => node
  | some items => { node with
      recentlyReceived := node.recentlyReceived.insert path.place
        (Map.ofKeys (items.image Prod.fst) now ∪ node.received path) }

/-- The end of a task. A full reconciliation makes the directory a superset of the hash. -/
def close (pair : List Component × Hash) (full : Bool) : Node Hash :=
  let baseDirs :=
    match full, node.around.baseDirs.lookup pair.1 with
    | true, some known => node.around.baseDirs.insert pair.1 (insert pair.2 known)
    | _, _ => node.around.baseDirs
  { node with
    around := { node.around with
      baseDirs := baseDirs, reconciling := node.around.reconciling.erase pair }
    tasks := node.tasks.erase pair }

/-- One step of a node. -/
def exec (config : Config) (digest : Found → Hash) :
    Op Hash → Option (Option Planned × Node Hash)
  | .announce path hash addr id => do
      let around ← (node.around.reconcileDir config path hash addr id).toOption
      return (none, { node with around := around })
  | .begin =>
      match node.around.commands with
      | [] => none
      | (path, hash, host) :: rest =>
          let left := { node with around := { node.around with commands := rest } }
          some (none, left.setTask (path.place, hash) (.asking host 0))
  | .respond pair reply next => do
      let after ← node.respond digest pair reply next
      return (none, after)
  | .giveUp pair =>
      match node.tasks.lookup pair with
      | some (.scanning _ _) => some (none, node.setTask pair .ended)
      | _ => none
  | .plan pair setting locals ordered =>
      match node.tasks.lookup pair with
      | some (.scanning host dirs) =>
          if setting.path.place = pair.1 ∧ Orders dirs ordered ∧
              node.around.downloadingInBasedir setting.path = .ok setting.downloading then do
            let (planned, full) ← (setting.plan locals dirs ordered).toOption
            return (none, node.setTask pair (.issuing host planned full))
          else none
      | _ => none
  | .issue pair now =>
      match node.tasks.lookup pair with
      | some (.issuing host (item :: rest) full) =>
          some (some item,
            (node.record pair item.action.path now).setTask pair (.issuing host rest full))
      | _ => none
  | .finish pair =>
      match node.tasks.lookup pair with
      | some (.issuing _ [] full) => some (none, node.close pair full)
      | some .ended => some (none, node.close pair false)
      | _ => none
  | .elsewhere inProgress baseDirs watched incoming recentlyReceived =>
      some (none, { node with
        around := { node.around with
          inProgress := inProgress, baseDirs := baseDirs, watched := watched,
          incoming := incoming }
        recentlyReceived := recentlyReceived })

end Node

/-- The reconciliations of a node as a machine. -/
def hostsMachine {Hash : Type} [DecidableEq Hash] (config : Config) (digest : Found → Hash) :
    Machine (Node Hash) (Op Hash) (Option Planned) :=
  ⟨fun node op => node.exec config digest op⟩

/-- A step of a reconciliation. -/
abbrev HostsEvent (Hash : Type) := Transition (Node Hash) (Op Hash) (Option Planned)

section Effects

variable {Hash : Type} [DecidableEq Hash] {config : Config} {digest : Found → Hash}
  {node after : Node Hash} {pair other : List Component × Hash} {host candidate : Host}

/-- The announcement of a state is not passed over. -/
structure Listens (config : Config) (around : Around Hash) (path : VPath) (hash : Hash) : Prop where
  configured : path.key ∈ config.dirs
  few : around.inProgress.paths.length ≤ Peers.reconcileMaxDownloading
  newer : ∀ known, around.baseDirs.lookup path.place = some known → hash ∉ known
  room : (path.place, hash) ∈ around.reconciling ∨
    ∀ count, around.downloadingInBasedir path = .ok count → count < Peers.reconcileBasedirThrottle

/-- A host that is heard becomes a candidate, and nothing else changes for the candidates. -/
theorem reconcileDir_cases {around next : Around Hash} {path : VPath} {hash : Hash}
    {addr : SocketAddr} {id : MachineId}
    (ran : around.reconcileDir config path hash addr id = .ok next) :
    (¬ Listens config around path hash ∧ next = around) ∨
      (Listens config around path hash ∧ next.reconciling = around.reconciling.insert
        (path.place, hash)
        (insert (addr, id) ((around.reconciling.lookup (path.place, hash)).getD ∅))) := by
  unfold Around.reconcileDir at ran
  split at ran
  · rename_i unknown
    exact Or.inl ⟨fun heard => unknown heard.configured, (Except.ok.inj ran).symm⟩
  rename_i known
  split at ran
  · rename_i many
    exact Or.inl ⟨fun heard => Nat.not_lt.mpr heard.few many, (Except.ok.inj ran).symm⟩
  rename_i few
  split at ran
  · rename_i newer
    have newer : ∀ known, around.baseDirs.lookup path.place = some known → hash ∉ known := by
      intro known isKnown
      simpa [isKnown] using newer
    dsimp only at ran
    split at ran
    · rename_i running
      obtain ⟨peers, expected, done⟩ := Run.bind_eq_ok_iff.mp ran
      have isPeers := Run.expect_eq_ok_iff.mp expected
      refine Or.inr ⟨⟨not_not.mp known, Nat.le_of_not_lt few, newer, Or.inl running⟩, ?_⟩
      rw [← Except.ok.inj done, isPeers, Option.getD_some]
    · rename_i fresh
      obtain ⟨count, counted, done⟩ := Run.bind_eq_ok_iff.mp ran
      split at done
      · rename_i reached
        refine Or.inl ⟨fun heard => ?_, (Except.ok.inj done).symm⟩
        rcases heard.room with running | room
        · exact fresh running
        · exact absurd (room count counted) (Nat.not_lt.mpr reached)
      · rename_i room
        have below : ∀ other, around.downloadingInBasedir path = .ok other →
            other < Peers.reconcileBasedirThrottle := by
          intro other same
          obtain rfl := Except.ok.inj (counted.symm.trans same)
          exact Nat.lt_of_not_le room
        refine Or.inr ⟨⟨not_not.mp known, Nat.le_of_not_lt few, newer, Or.inr below⟩, ?_⟩
        rw [← Except.ok.inj done, Finmap.lookup_eq_none.mpr fresh]
        rfl
  · rename_i superset
    refine Or.inl ⟨fun heard => superset ?_, (Except.ok.inj ran).symm⟩
    cases isKnown : around.baseDirs.lookup path.place with
    | none => rfl
    | some known => simp [heard.newer known isKnown]

/-- The hosts after those of one directory were set. -/
theorem hosts_setHosts (hosts : Finset Host) :
    (node.setHosts pair hosts).hosts other = if other = pair then hosts else node.hosts other := by
  rw [Node.hosts, Node.setHosts, Map.lookup_insert_eq]
  split
  · rfl
  · rfl

/-- Recording an image leaves the hosts alone. -/
theorem hosts_record (path : VPath) (now : SocketAddr → Nat) :
    (node.record pair path now).hosts other = node.hosts other := by
  unfold Node.record
  split
  · rfl
  · rfl

/-- A directory that is closed has no hosts. -/
theorem hosts_close (full : Bool) :
    (node.close pair full).hosts other = if other = pair then ∅ else node.hosts other := by
  show ((node.around.reconciling.erase pair).lookup other).getD ∅ = _
  rw [Map.lookup_erase_eq]
  split
  · rfl
  · rfl

/-- The host that was asked and the one that is asked next are no candidates any more. -/
theorem mem_hosts_nextHost {next : Option Host}
    (moved : node.nextHost pair host next = some after) :
    candidate ∈ after.hosts other ↔ candidate ∈ node.hosts other ∧
      ¬ (other = pair ∧ (candidate = host ∨ next = some candidate)) := by
  unfold Node.nextHost at moved
  split at moved
  · rename_i missing
    obtain rfl := Option.some.inj moved
    have none : ¬ candidate ∈ node.hosts pair := by simp [Node.hosts, missing]
    show candidate ∈ node.hosts other ↔ _
    by_cases same : other = pair
    · subst same
      simp [none]
    · simp [same]
  · cases moved
  · rename_i hosts present
    split at moved
    · rename_i last
      obtain rfl := Option.some.inj moved
      show candidate ∈ (node.setHosts pair ∅).hosts other ↔ _
      rw [hosts_setHosts]
      by_cases same : other = pair
      · subst same
        have only : candidate ∈ node.hosts other → candidate = host := by
          intro member
          rw [Node.hosts, present, Option.getD_some] at member
          by_contra differs
          exact Finset.notMem_empty candidate (last ▸ Finset.mem_erase.mpr ⟨differs, member⟩)
        simpa using only
      · simp [same]
    · cases moved
  · rename_i hosts chosen present
    split at moved
    · obtain rfl := Option.some.inj moved
      show candidate ∈ (node.setHosts pair ((hosts.erase host).erase chosen)).hosts other ↔ _
      rw [hosts_setHosts]
      by_cases same : other = pair
      · subst same
        have isHosts : node.hosts other = hosts := by rw [Node.hosts, present, Option.getD_some]
        rw [if_pos rfl, isHosts, Finset.mem_erase, Finset.mem_erase, Option.some.injEq,
          eq_comm (a := chosen)]
        tauto
      · simp [same]
    · cases moved

/-- After this answer the host that was asked is given up. -/
def Reply.GivesUp (digest : Found → Hash) (hash : Hash) (tries : Nat) : Reply → Prop
  | .listing dirs => digest dirs ≠ hash
  | .unexpectedTermination => 2 ≤ tries
  | .failed => True

/-- The candidate is dropped from the set, or asked next. -/
def Drops (digest : Found → Hash) (pair : List Component × Hash) (candidate : Host)
    (node : Node Hash) (op : Op Hash) : Prop :=
  (∃ reply next asked tries, op = .respond pair reply next ∧
    node.tasks.lookup pair = some (.asking asked tries) ∧
    reply.GivesUp digest pair.2 tries ∧ (candidate = asked ∨ next = some candidate)) ∨
  op = .finish pair

/-- The candidate is announced and heard. -/
def Announces (config : Config) (pair : List Component × Hash) (candidate : Host)
    (node : Node Hash) (op : Op Hash) : Prop :=
  ∃ path, op = .announce path pair.2 candidate.1 candidate.2 ∧ path.place = pair.1 ∧
    Listens config node.around path pair.2

/-- Which hosts are left after a request has ended. -/
theorem mem_hosts_respond {reply : Reply} {next : Option Host}
    (moved : node.respond digest pair reply next = some after) :
    candidate ∈ after.hosts other ↔ candidate ∈ node.hosts other ∧
      ¬ (other = pair ∧ ∃ asked tries, node.tasks.lookup pair = some (.asking asked tries) ∧
        reply.GivesUp digest pair.2 tries ∧ (candidate = asked ∨ next = some candidate)) := by
  unfold Node.respond at moved
  split at moved
  · rename_i asked tries isAsking
    simp only [isAsking, Option.some.injEq, Task.asking.injEq]
    have stays (keeps : ¬ reply.GivesUp digest pair.2 tries) :
        candidate ∈ node.hosts other ↔ candidate ∈ node.hosts other ∧
          ¬ (other = pair ∧ ∃ asked' tries', (asked = asked' ∧ tries = tries') ∧
            reply.GivesUp digest pair.2 tries' ∧ (candidate = asked' ∨ next = some candidate)) := by
      refine ⟨fun member => ⟨member, ?_⟩, And.left⟩
      rintro ⟨_, _, _, ⟨rfl, rfl⟩, gives, _⟩
      exact keeps gives
    have goesOn (gives : reply.GivesUp digest pair.2 tries)
        (moved : node.nextHost pair asked next = some after) :
        candidate ∈ after.hosts other ↔ candidate ∈ node.hosts other ∧
          ¬ (other = pair ∧ ∃ asked' tries', (asked = asked' ∧ tries = tries') ∧
            reply.GivesUp digest pair.2 tries' ∧ (candidate = asked' ∨ next = some candidate)) := by
      rw [mem_hosts_nextHost moved]
      refine and_congr_right fun _ => not_congr (and_congr_right fun _ => ?_)
      constructor
      · intro either
        exact ⟨asked, tries, ⟨rfl, rfl⟩, gives, either⟩
      · rintro ⟨_, _, ⟨rfl, rfl⟩, _, either⟩
        exact either
    cases reply with
    | listing dirs =>
        dsimp only at moved
        split at moved
        · rename_i matched
          obtain rfl := Option.some.inj moved
          exact stays (not_not.mpr matched)
        · rename_i mismatched
          exact goesOn mismatched moved
    | unexpectedTermination =>
        dsimp only at moved
        split at moved
        · rename_i again
          obtain rfl := Option.some.inj moved
          exact stays (Nat.not_le.mpr again)
        · rename_i enough
          exact goesOn (Nat.le_of_not_lt enough) moved
    | failed => exact goesOn trivial moved
  · cases moved

section Waiting

variable {op : Op Hash} {answer : Option Planned}

/-- An announcement that is heard puts its host into the set of its pair. -/
theorem mem_hosts_announce {path : VPath} {hash : Hash} {addr : SocketAddr} {id : MachineId}
    {around : Around Hash} (ran : node.around.reconcileDir config path hash addr id = .ok around) :
    candidate ∈ Node.hosts { node with around := around } pair ↔
      Announces config pair candidate node (.announce path hash addr id) ∨
        candidate ∈ node.hosts pair := by
  rcases reconcileDir_cases ran with ⟨deaf, rfl⟩ | ⟨heard, inserted⟩
  · have silent : ¬ Announces config pair candidate node (.announce path hash addr id) := by
      rintro ⟨_, isOp, _, heard⟩
      obtain ⟨rfl, rfl, -, -⟩ := Op.announce.inj isOp
      exact deaf heard
    rw [or_iff_right silent]
  · have isHosts : Node.hosts { node with around := around } pair =
        if pair = (path.place, hash) then insert (addr, id) (node.hosts pair)
        else node.hosts pair := by
      show (around.reconciling.lookup pair).getD ∅ = _
      rw [inserted, Map.lookup_insert_eq]
      split
      · rename_i same
        rw [same]
        rfl
      · rfl
    rw [isHosts]
    split
    · rename_i same
      rw [Finset.mem_insert]
      refine or_congr_left ⟨fun isNew => ⟨path, ?_, ?_, ?_⟩, ?_⟩
      · rw [same, isNew]
      · rw [same]
      · rw [same]
        exact heard
      · rintro ⟨_, isOp, _, _⟩
        obtain ⟨-, -, rfl, rfl⟩ := Op.announce.inj isOp
        rfl
    · rename_i differs
      rw [or_iff_right]
      rintro ⟨_, isOp, there, _⟩
      obtain ⟨rfl, rfl, -, -⟩ := Op.announce.inj isOp
      exact differs (Prod.ext there.symm rfl)

/-- Finishing drops the hosts of its own directory. -/
theorem drops_finish_iff {there : List Component × Hash} :
    Drops digest pair candidate node (.finish there) ↔ pair = there := by
  constructor
  · rintro (⟨_, _, _, _, isOp, _⟩ | isOp)
    · cases isOp
    · exact (Op.finish.inj isOp).symm
  · rintro rfl
    exact Or.inr rfl

/-- What one operation means for a candidate. -/
theorem mem_hosts_exec (moved : node.exec config digest op = some (answer, after)) :
    candidate ∈ after.hosts pair ↔ Announces config pair candidate node op ∨
      (candidate ∈ node.hosts pair ∧ ¬ Drops digest pair candidate node op) := by
  have unheard (other : ∀ path hash addr id, op ≠ .announce path hash addr id) :
      ¬ Announces config pair candidate node op := by
    rintro ⟨path, isOp, _⟩
    exact other _ _ _ _ isOp
  have undropped (notRespond : ∀ pair reply next, op ≠ .respond pair reply next)
      (notFinish : ∀ pair, op ≠ .finish pair) : ¬ Drops digest pair candidate node op := by
    rintro (⟨_, _, _, _, isOp, _⟩ | isOp)
    · exact notRespond _ _ _ isOp
    · exact notFinish _ isOp
  -- an operation that is about no candidates
  have quiet (same : after.hosts pair = node.hosts pair)
      (notAnnounce : ∀ path hash addr id, op ≠ .announce path hash addr id)
      (notRespond : ∀ pair reply next, op ≠ .respond pair reply next)
      (notFinish : ∀ pair, op ≠ .finish pair) :
      candidate ∈ after.hosts pair ↔ Announces config pair candidate node op ∨
        (candidate ∈ node.hosts pair ∧ ¬ Drops digest pair candidate node op) := by
    rw [same]
    constructor
    · intro member
      exact Or.inr ⟨member, undropped notRespond notFinish⟩
    · rintro (heard | ⟨member, _⟩)
      · exact absurd heard (unheard notAnnounce)
      · exact member
  cases op with
  | announce path hash addr id =>
      obtain ⟨around, ran, done⟩ := Option.bind_eq_some_iff.mp moved
      obtain ⟨-, rfl⟩ := Prod.mk.inj (Option.some.inj done)
      rw [mem_hosts_announce (Run.ok_of_toOption ran)]
      exact or_congr_right (iff_self_and.mpr fun _ => undropped nofun nofun)
  | begin =>
      simp only [Node.exec] at moved
      split at moved
      · cases moved
      · obtain ⟨-, rfl⟩ := Prod.mk.inj (Option.some.inj moved)
        exact quiet rfl nofun nofun nofun
  | respond there reply next =>
      obtain ⟨moved', responds, done⟩ := Option.bind_eq_some_iff.mp moved
      obtain ⟨-, rfl⟩ := Prod.mk.inj (Option.some.inj done)
      rw [mem_hosts_respond responds, or_iff_right (unheard nofun)]
      refine and_congr_right fun _ => not_congr ?_
      constructor
      · rintro ⟨rfl, asked, tries, isAsking, gives, either⟩
        exact Or.inl ⟨reply, next, asked, tries, rfl, isAsking, gives, either⟩
      · rintro (⟨_, _, asked, tries, isOp, isAsking, gives, either⟩ | isOp)
        · obtain ⟨rfl, rfl, rfl⟩ := Op.respond.inj isOp
          exact ⟨rfl, asked, tries, isAsking, gives, either⟩
        · cases isOp
  | giveUp there =>
      simp only [Node.exec] at moved
      split at moved
      · obtain ⟨-, rfl⟩ := Prod.mk.inj (Option.some.inj moved)
        exact quiet rfl nofun nofun nofun
      · cases moved
  | plan there setting locals ordered =>
      simp only [Node.exec] at moved
      split at moved
      · split at moved
        · obtain ⟨_, _, done⟩ := Option.bind_eq_some_iff.mp moved
          obtain ⟨-, rfl⟩ := Prod.mk.inj (Option.some.inj done)
          exact quiet rfl nofun nofun nofun
        · cases moved
      · cases moved
  | issue there now =>
      simp only [Node.exec] at moved
      split at moved
      · obtain ⟨-, rfl⟩ := Prod.mk.inj (Option.some.inj moved)
        exact quiet (hosts_record _ _) nofun nofun nofun
      · cases moved
  | finish there =>
      have closed (full : Bool) : candidate ∈ (node.close there full).hosts pair ↔
          Announces config pair candidate node (.finish there) ∨
            (candidate ∈ node.hosts pair ∧ ¬ Drops digest pair candidate node (.finish there)) := by
        rw [hosts_close, or_iff_right (unheard nofun), drops_finish_iff]
        by_cases same : pair = there
        · simp [same]
        · simp [same]
      simp only [Node.exec] at moved
      split at moved
      · obtain ⟨-, rfl⟩ := Prod.mk.inj (Option.some.inj moved)
        exact closed _
      · obtain ⟨-, rfl⟩ := Prod.mk.inj (Option.some.inj moved)
        exact closed _
      · cases moved
  | elsewhere inProgress baseDirs watched incoming recentlyReceived =>
      obtain ⟨-, rfl⟩ := Prod.mk.inj (Option.some.inj moved)
      exact quiet rfl nofun nofun nofun

variable {front back trace : List (HostsEvent Hash)} {finish : Node Hash} {event : HostsEvent Hash}

/-- The candidate was announced, and was neither dropped nor asked since. -/
def Waiting (config : Config) (digest : Found → Hash) (pair : List Component × Hash)
    (candidate : Host) : List (HostsEvent Hash) → Prop :=
  Since (fun event => Announces config pair candidate event.before event.op)
    (fun event => Drops digest pair candidate event.before event.op)

/-- The candidates are the hosts that are waiting. -/
theorem mem_hosts_iff (steps : (hostsMachine config digest).Steps .new trace finish) :
    candidate ∈ finish.hosts pair ↔ Waiting config digest pair candidate trace := by
  refine steps.preserves_history
    (fun history node => candidate ∈ node.hosts pair ↔ Waiting config digest pair candidate history)
    (fun _ => True) ?_ (fun _ _ => trivial) ?_
  · intro history taken valid _ before
    rw [mem_hosts_exec valid, before, Waiting, since_concat]
  · have none : candidate ∉ Node.hosts (.new : Node Hash) pair := Finset.notMem_empty candidate
    exact ⟨fun member => absurd member none, fun waiting => absurd waiting not_since_nil⟩

/-- Where an upload is issued, the addresses of all candidates are recorded. -/
theorem mem_received_record {addr : SocketAddr} {path : VPath} {now : SocketAddr → Nat} :
    addr ∈ (node.record pair path now).received path ↔
      addr ∈ node.received path ∨ ∃ id, (addr, id) ∈ node.hosts pair := by
  unfold Node.record
  split
  · rename_i missing
    simp [Node.hosts, missing]
  · rename_i items present
    rw [Node.received, Finmap.lookup_insert, Option.getD_some, Finmap.mem_union, Map.mem_ofKeys,
      Node.hosts, present, Option.getD_some, or_comm]
    simp

/-- When an upload is issued, the address of the host whose listing had the hash is recorded
exactly when it was before, or a host of this address was announced and neither dropped
nor asked since. The host that is asked first is such a host as long as it is asked. One
that is asked in place of another has been taken out of the set. -/
theorem records_matched_iff (steps : (hostsMachine config digest).Steps .new trace finish)
    (split : trace = front ++ event :: back) {now : SocketAddr → Nat} {item : Planned}
    {rest : List Planned} {full : Bool} (issues : event.op = .issue pair now)
    (isTask : event.before.tasks.lookup pair = some (.issuing host (item :: rest) full)) :
    host.1 ∈ event.after.received item.action.path ↔
      host.1 ∈ event.before.received item.action.path ∨
        ∃ id, Waiting config digest pair (host.1, id) front := by
  subst split
  obtain ⟨first, valid, _⟩ := steps.cut
  simp only [Machine.Takes, hostsMachine, issues, Node.exec, isTask] at valid
  have isAfter := (Prod.mk.inj (Option.some.inj valid)).2
  have recorded : event.after.received item.action.path =
      (event.before.record pair item.action.path now).received item.action.path := by
    rw [← isAfter]
    rfl
  rw [recorded, mem_received_record]
  simp only [mem_hosts_iff first]

end Waiting

end Effects

/-! Two hosts announce the directory `/k` with the image `a`, which the node does not
have. -/

namespace Sample

/-- The host that announces the directory first. -/
def first : Host := (⟨[127, 0, 0, 1], 24783⟩, [1])

/-- Another host that announces it. -/
def second : Host := (⟨[127, 0, 0, 2], 24783⟩, [2])

/-- The image that the directory has. -/
def offered : State := state 1 [4]

/-- The directory with its hash. -/
def pair : List Component × Nat := (setting.path.place, 0)

/-- The machine of the example, in which everything has one hash. -/
def machine : Machine (Node Nat) (Op Nat) (Option Planned) :=
  hostsMachine (Metadata.Sample.env false).config fun _ => 0

/-- A host announces the directory. -/
def announced (host : Host) : Op Nat := .announce setting.path 0 host.1 host.2

/-- The listing with the image. -/
def listing : Op Nat := .respond pair (.listing (holding offered)) none

/-- The append that the image is got by. -/
def item : Planned :=
  ⟨"a".toList, .append ⟨Metadata.Sample.path, Metadata.Sample.image 1, 4,
    [Metadata.Sample.signature 1]⟩⟩

/-- The node after these operations. -/
def reached (ops : List (Op Nat)) : Node Nat := (machine.play .new ops).2

/-- The plan is made of the answer of a host. -/
def planned (ops : List (Op Nat)) (host : Host) : Node Nat :=
  (reached ops).setTask pair (.issuing host [item] true)

/-- The plan is carried out. -/
def issued (ops : List (Op Nat)) (host : Host) : Node Nat :=
  ((planned ops host).record pair item.action.path fun _ => 0).setTask pair (.issuing host [] true)

/-- The operations, and then the plan. -/
def prelude (ops : List (Op Nat)) (host : Host) : List (HostsEvent Nat) :=
  (machine.play .new ops).1 ++
    [⟨reached ops, .plan pair setting ∅ (listed offered), none, planned ops host⟩]

/-- The step at which the append is issued. -/
def issuing (ops : List (Op Nat)) (host : Host) : HostsEvent Nat :=
  ⟨planned ops host, .issue pair fun _ => 0, some item, issued ops host⟩

/-- A run that plans the upload and issues it. -/
theorem steps (ops : List (Op Nat)) (host : Host)
    (isTask : (reached ops).tasks.lookup pair = some (.scanning host (holding offered)))
    (idle : (reached ops).around.inProgress = .empty) :
    machine.Steps .new (prelude ops host ++ [issuing ops host]) (issued ops host) := by
  have none : (entries (∅ : Found)).foldl (fun images entry =>
      put images (setting.subPath entry.1) entry.2) [] = [] := by simp [entries]
  have plans : setting.plan ∅ (holding offered) (listed offered) = .ok ([item], true) := by
    refine (plan_singleton rfl (fun _ => rfl) none _ _).trans ?_
    rfl
  have isPlanned : machine.Takes
      ⟨reached ops, .plan pair setting ∅ (listed offered), Option.none, planned ops host⟩ := by
    have quiet : (reached ops).around.downloadingInBasedir setting.path = .ok 0 := by
      unfold Around.downloadingInBasedir
      rw [idle]
      rfl
    simp only [Machine.Takes, machine, hostsMachine, Node.exec, isTask]
    rw [if_pos ⟨rfl, orders offered, quiet⟩, plans]
    rfl
  have isIssued : machine.Takes (issuing ops host) := by
    have isTask : (planned ops host).tasks.lookup pair = some (.issuing host [item] true) := by
      rw [planned, Node.setTask, Finmap.lookup_insert]
    simp only [Machine.Takes, machine, hostsMachine, issuing, Node.exec, isTask]
    rfl
  exact ((Machine.Steps.of_play _ _ _).step isPlanned).step isIssued

end Sample

/-- The host that is asked first has the state. -/
theorem records_matched_first :
    let ops := [Sample.announced Sample.first, .begin, Sample.listing]
    Sample.machine.Steps .new (Sample.prelude ops Sample.first ++ [Sample.issuing ops Sample.first])
        (Sample.issued ops Sample.first) ∧
      Sample.first.1 ∈ (Sample.issued ops Sample.first).received Sample.item.action.path := by
  intro ops
  have steps := Sample.steps ops Sample.first rfl rfl
  obtain ⟨before, _, _⟩ := steps.cut
  have candidate : Sample.first ∈ (Sample.planned ops Sample.first).hosts Sample.pair := by decide
  refine ⟨steps, (records_matched_iff steps rfl rfl rfl).mpr (Or.inr ⟨Sample.first.2, ?_⟩)⟩
  exact (mem_hosts_iff before).mp candidate

/-- The host that is asked first fails, and the other one has the state. -/
theorem forgets_matched :
    let ops := [Sample.announced Sample.first, .begin, Sample.announced Sample.second,
      .respond Sample.pair .failed (some Sample.second), Sample.listing]
    Sample.machine.Steps .new (Sample.prelude ops Sample.second ++ [Sample.issuing ops Sample.second])
        (Sample.issued ops Sample.second) ∧
      Sample.second.1 ∉ (Sample.issued ops Sample.second).received Sample.item.action.path := by
  intro ops
  refine ⟨Sample.steps _ _ rfl rfl, ?_⟩
  have none : (Sample.planned ops Sample.second).hosts Sample.pair = ∅ := by decide
  have unknown : Sample.second.1 ∉
      (Sample.planned ops Sample.second).received Sample.item.action.path := by decide
  intro member
  have recorded : Sample.second.1 ∈ ((Sample.planned ops Sample.second).record Sample.pair
      Sample.item.action.path fun _ => 0).received Sample.item.action.path := member
  rcases mem_received_record.mp recorded with known | ⟨id, waiting⟩
  · exact unknown known
  · rw [none] at waiting
    exact absurd waiting (Finset.notMem_empty _)

end Reconciliation

end Ciruela
