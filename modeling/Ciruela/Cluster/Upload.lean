import Mathlib.Algebra.Order.Floor.Semiring
import Mathlib.Data.Rat.Floor
import Mathlib.Tactic.Linarith
import Ciruela.Daemon.Remote.Connections
import Ciruela.Proto.Message

/-!
# When an upload is done

A client asks some servers of a cluster to take an image and is told later which servers
have it and which have given up. What it was told is kept in a book, and `check` decides
from the book whether the upload is over. Before the early timeout everybody that is
known of has to have the image; after it a number of servers is enough.
-/

namespace Ciruela.Cluster

open Foundation Proto
open Remote (SocketAddr)

/-- `Config`: how many connections an upload opens, and how long and for whom it waits. -/
structure Config where
  initialConnections : UInt32
  port : UInt16
  earlyHosts : UInt32
  earlyFraction : ℚ
  /-- In nanoseconds, like every time here. -/
  earlyTimeout : Nat
  maximumTimeout : Nat

/-- `Config::new`. -/
def Config.new : Config where
  initialConnections := 3
  port := 24783
  earlyHosts := 3
  earlyFraction := 3 / 4
  earlyTimeout := 10 * 10 ^ 9
  maximumTimeout := 30 * 60 * 10 ^ 9

/-- `Bookkeeping`: the addresses and the machines that an upload has heard of, by how it went
there. -/
structure Bookkeeping where
  acceptedIps : Finset SocketAddr
  discoveredServers : Map MachineId (List Char)
  doneIps : Finset SocketAddr
  doneServers : Map MachineId (List Char)
  abortedIps : Map SocketAddr (List Char)
  abortedIds : Map MachineId (List Char)
  abortedHostnames : Map (List Char) (List Char)
  rejectedNoConfig : Finset SocketAddr
  rejectedIps : Map SocketAddr (List Char)
deriving DecidableEq

/-- `Stats`: the books of one upload, with the path it goes to and the number of responses. -/
structure Stats where
  path : VPath
  weakErrors : Bool
  book : Bookkeeping
  responses : UInt64

/-- What a client is told about an upload. -/
inductive Report where
  | response (source : SocketAddr) (accepted : Bool) (reason : Option (List Char))
      (hosts : Map MachineId (List Char))
  | received (addr : SocketAddr) (info : ReceivedImage)
  | aborted (addr : SocketAddr) (info : AbortedImage)

/-- The reasons a weak upload is content with. -/
def weakReasons : List (List Char) :=
  ["already_exists".toList, "already_uploading_different_version".toList]

/-- The reason of a server that has no configuration for the path. -/
def noConfig : List Char := "no_config".toList

namespace Bookkeeping

/-- Empty books. -/
def empty : Bookkeeping := ⟨∅, ∅, ∅, ∅, ∅, ∅, ∅, ∅, ∅⟩

variable (book : Bookkeeping)

/-- One server has accepted the image, and nobody has rejected it. -/
def Lone : Prop := book.acceptedIps.card = 1 ∧ book.rejectedIps = ∅ ∧ book.rejectedNoConfig = ∅

instance : Decidable book.Lone := inferInstanceAs (Decidable (_ ∧ _))

/-- A server does not see itself in the list of hosts, so a lone one is added. A `u32`
wraps around. -/
def discoveredNum : UInt32 :=
  let explicit := book.discoveredServers.keys.card.toUInt32
  if book.Lone then explicit + 1 else explicit

/-- An address that has refused the upload, for whatever reason. -/
def isRejected (addr : SocketAddr) : Bool :=
  decide (addr ∈ book.rejectedIps) || decide (addr ∈ book.rejectedNoConfig)

/-- `union`: hosts that are known already get the name they have now. -/
def discover (hosts : Map MachineId (List Char)) : Bookkeeping :=
  { book with discoveredServers := hosts ∪ book.discoveredServers }

end Bookkeeping

namespace Stats

/-- `Stats::new`. -/
def new (path : VPath) (weak : Bool) : Stats := ⟨path, weak, .empty, 0⟩

variable (stats : Stats)

/-- `Stats::received_image`: a forwarded note is about another machine than the one at the address.
-/
def receivedImage (addr : SocketAddr) (info : ReceivedImage) : Stats :=
  let book := stats.book
  { stats with
    book :=
      { book with
        doneIps := if info.forwarded then book.doneIps else insert addr book.doneIps
        doneServers := book.doneServers.insert info.machineId info.hostname
        discoveredServers := book.discoveredServers.insert info.machineId info.hostname } }

/-- `Stats::aborted_image`: like `received_image`, with the reason. -/
def abortedImage (addr : SocketAddr) (info : AbortedImage) : Stats :=
  let book := stats.book
  { stats with
    book :=
      { book with
        abortedIps :=
          if info.forwarded then book.abortedIps else book.abortedIps.insert addr info.reason
        abortedIds := book.abortedIds.insert info.machineId info.reason
        abortedHostnames := book.abortedHostnames.insert info.hostname info.reason } }

/-- An answer is counted when it is the first of its kind from there. -/
def count (new : Bool) : UInt64 := if new then stats.responses + 1 else stats.responses

/-- Whether the image was accepted, or may be taken for accepted. -/
def addResponse (source : SocketAddr) (accepted : Bool) (reason : Option (List Char))
    (hosts : Map MachineId (List Char)) : Bool × Stats :=
  let book := stats.book
  if accepted = false ∧ reason ∈ weakReasons.map some ∧ stats.weakErrors = true then
    (true,
      { stats with
        book :=
          { book with
            acceptedIps := insert source book.acceptedIps
            doneIps := insert source book.doneIps }.discover hosts
        responses := stats.count (decide (source ∉ book.acceptedIps)) })
  else if accepted = false ∧ reason = some noConfig then
    (false,
      { stats with
        book :=
          { book with rejectedNoConfig := insert source book.rejectedNoConfig }.discover hosts
        responses := stats.count (decide (source ∉ book.rejectedNoConfig)) })
  else if accepted = false then
    (false,
      { stats with
        book :=
          { book with
            rejectedIps :=
              book.rejectedIps.insert source (reason.getD "unknown".toList) }.discover hosts
        responses := stats.count (decide (source ∉ book.rejectedIps)) })
  else
    (true,
      { stats with
        book := { book with acceptedIps := insert source book.acceptedIps }.discover hosts
        responses := stats.count (decide (source ∉ book.acceptedIps)) })

/-- `total_responses`, as it is compared with the limits of the configuration. -/
def totalResponses : UInt32 := stats.responses.toUInt32

/-- `Stats::is_rejected`. -/
def isRejected (addr : SocketAddr) : Bool := stats.book.isRejected addr

/-- What is reported of an upload is written into its books. -/
def record : Report → Stats
  | .response source accepted reason hosts => (stats.addResponse source accepted reason hosts).2
  | .received addr info => stats.receivedImage addr info
  | .aborted addr info => stats.abortedImage addr info

/-- What the reports leave, oldest first. -/
def recordAll (reports : List Report) : Stats := reports.foldl record stats

/-- What an upload has after the reports. -/
def after (path : VPath) (weak : Bool) (reports : List Report) : Stats :=
  (new path weak).recordAll reports

end Stats

/-- `ErrorKind`: why an upload fails. -/
inductive ErrorKind where
  | deadlineReached
  | rejected
deriving DecidableEq

/-- `UploadOk`: the books that a successful upload resolves with. -/
structure UploadOk where
  stats : Stats

/-- The name of a host. -/
abbrev Name := List Char

/-- What a name that is looked up has come to. -/
inductive Lookup where
  | notReady
  | found (ips : List (List UInt8))
  | failed
deriving DecidableEq

/-- Every address of a host, with the port of the configuration. -/
def withPort (ips : List (List UInt8)) (port : UInt16) : Finset SocketAddr :=
  (ips.map fun ip => ⟨ip, port.toNat⟩).toFinset

/-- The addresses of a cluster: all of them, or those of the names looked up so far. -/
inductive AddrCell where
  | ready (address : Finset SocketAddr)
  | fetching (futures : List Name) (current : Finset SocketAddr)

namespace AddrCell

/-- A cell for names of which none is resolved yet. -/
def new (initialAddress : List Name) : AddrCell := fetching initialAddress ∅

/-- `AddrCell::get`: the addresses that are known so far. -/
def get : AddrCell → Finset SocketAddr
  | ready address => address
  | fetching _ current => current

/-- `AddrCell::is_done`. -/
def isDone : AddrCell → Bool
  | ready _ => true
  | fetching _ _ => false

/-- The names are polled one after another; one without an answer is not ready. -/
def poll (port : UInt16) (answers : List Lookup) : AddrCell → AddrCell
  | ready address => ready address
  | fetching futures current =>
      let polled := futures.zipIdx.map fun entry => (entry.1, answers.getD entry.2 .notReady)
      let left := (polled.filter fun entry => entry.2 = .notReady).map Prod.fst
      let address := polled.foldl
        (fun current entry =>
          match entry.2 with
          | .found ips => current ∪ withPort ips port
          | _ => current) current
      if left = [] then ready address else fetching left address

end AddrCell

namespace Bookkeeping

variable (book : Bookkeeping)

/-- Nobody has accepted the image and nobody is left to be asked. -/
def AllRejected (initial : AddrCell) (noCandidates : Bool) : Prop :=
  (book.acceptedIps = ∅ ∧ initial.isDone = true ∧ noCandidates = true ∧
    (book.rejectedIps ≠ ∅ ∨ book.rejectedNoConfig ≠ ∅)) ∧
  ∀ addr ∈ initial.get,
    addr ∈ book.rejectedIps ∨ addr ∈ book.abortedIps ∨ addr ∈ book.rejectedNoConfig

instance (initial : AddrCell) (noCandidates : Bool) :
    Decidable (book.AllRejected initial noCandidates) :=
  inferInstanceAs (Decidable (_ ∧ _))

/-- How many servers are enough after the early timeout. -/
def hosts (config : Config) : Nat :=
  let fractHosts := ⌈(book.discoveredNum.toNat : ℚ) * config.earlyFraction⌉₊
  min book.discoveredNum.toNat (max config.earlyHosts.toNat fractHosts)

/-- Everybody that is known of has the image, and there is somebody. -/
def EveryoneDone : Prop :=
  (book.acceptedIps ⊆ book.doneIps ∧ book.discoveredServers.keys ⊆ book.doneServers.keys) ∧
  0 < book.doneServers.keys.card

instance : Decidable book.EveryoneDone := inferInstanceAs (Decidable (_ ∧ _))

/-- Enough servers have the image. -/
def EnoughDone (config : Config) : Prop :=
  0 < book.hosts config ∧ book.hosts config ≤ book.doneServers.keys.card

instance (config : Config) : Decidable (book.EnoughDone config) :=
  inferInstanceAs (Decidable (_ ∧ _))

end Bookkeeping

/-- The two phases do not look at the same aborts. -/
def check (stats : Stats) (config : Config) (initial : AddrCell)
    (earlyTimeoutTimedOut noCandidates : Bool) : Option (Except ErrorKind UploadOk) :=
  let book := stats.book
  if book.AllRejected initial noCandidates then some (.error .rejected)
  else if earlyTimeoutTimedOut = true then
    if book.EnoughDone config then
      if book.rejectedIps ≠ ∅ ∨ book.abortedIds ≠ ∅ then some (.error .rejected)
      else some (.ok ⟨stats⟩)
    else none
  else
    if book.EveryoneDone then
      if book.rejectedIps ≠ ∅ ∨ book.abortedIps ≠ ∅ then some (.error .rejected)
      else some (.ok ⟨stats⟩)
    else none

/-- A server has rejected the image for a reason that does not pass. -/
def Report.Intolerable (weak : Bool) : Report → Prop
  | response _ accepted reason _ =>
      accepted = false ∧ reason ≠ some noConfig ∧
        ¬ (weak = true ∧ reason ∈ weakReasons.map some)
  | _ => False

/-- A server has given up. -/
def Report.IsAbort : Report → Prop
  | aborted _ _ => True
  | _ => False

/-- A server has given up and has said so itself. -/
def Report.IsDirectAbort : Report → Prop
  | aborted _ info => info.forwarded = false
  | _ => False

section Reports

variable {stats : Stats} {reports : List Report}

@[simp] theorem Stats.weakErrors_record (stats : Stats) (report : Report) :
    (stats.record report).weakErrors = stats.weakErrors := by
  cases report with
  | response source accepted reason hosts =>
      simp only [Stats.record, Stats.addResponse]
      split_ifs <;> rfl
  | received addr info => rfl
  | aborted addr info => rfl

/-- What every report keeps unless it is of one kind says that no report was. -/
theorem Stats.recordAll_iff (Holds : Stats → Prop) {Spoils : Report → Prop} {weak : Bool}
    (kept : ∀ stats report, stats.weakErrors = weak →
      (Holds (stats.record report) ↔ Holds stats ∧ ¬ Spoils report))
    (isWeak : stats.weakErrors = weak) :
    Holds (stats.recordAll reports) ↔ Holds stats ∧ ∀ report ∈ reports, ¬ Spoils report := by
  induction reports generalizing stats with
  | nil => simp [recordAll]
  | cons report rest ih =>
      have isWeakNext : (stats.record report).weakErrors = weak := by
        rw [weakErrors_record, isWeak]
      rw [List.forall_mem_cons, ← and_assoc, ← kept stats report isWeak]
      exact ih isWeakNext

theorem Map.insert_ne_empty {Key Value : Type} [DecidableEq Key] (map : Map Key Value) (key : Key)
    (value : Value) : map.insert key value ≠ ∅ := by
  intro empty
  have member : key ∈ map.insert key value := Finmap.mem_insert.mpr (.inl rfl)
  rw [empty] at member
  exact Finmap.notMem_empty member

/-- What a report adds to the addresses that have refused. -/
theorem rejectedIps_record (stats : Stats) (report : Report) :
    (stats.record report).book.rejectedIps = ∅ ↔
      stats.book.rejectedIps = ∅ ∧ ¬ report.Intolerable stats.weakErrors := by
  cases report with
  | response source accepted reason hosts =>
      simp only [Stats.record, Stats.addResponse, Report.Intolerable, Bookkeeping.discover]
      split_ifs with weak config rejected
      · simp [weak]
      · simp [config]
      · have intolerable : reason ≠ some noConfig ∧
            ¬ (stats.weakErrors = true ∧ reason ∈ weakReasons.map some) :=
          ⟨fun same => config ⟨rejected, same⟩,
            fun passes => weak ⟨rejected, passes.2, passes.1⟩⟩
        exact iff_of_false (Map.insert_ne_empty _ _ _)
          (fun both => both.2 ⟨rejected, intolerable⟩)
      · simp [rejected]
  | received addr info => simp [Stats.record, Stats.receivedImage, Report.Intolerable]
  | aborted addr info => simp [Stats.record, Stats.abortedImage, Report.Intolerable]

/-- What a report adds to the machines that have given up. -/
theorem abortedIds_record (stats : Stats) (report : Report) :
    (stats.record report).book.abortedIds = ∅ ↔
      stats.book.abortedIds = ∅ ∧ ¬ report.IsAbort := by
  cases report with
  | response source accepted reason hosts =>
      simp only [Stats.record, Stats.addResponse, Report.IsAbort, Bookkeeping.discover]
      split_ifs <;> simp
  | received addr info => simp [Stats.record, Stats.receivedImage, Report.IsAbort]
  | aborted addr info =>
      simp [Stats.record, Stats.abortedImage, Report.IsAbort, Map.insert_ne_empty]

/-- What a report adds to the addresses that have given up. -/
theorem abortedIps_record (stats : Stats) (report : Report) :
    (stats.record report).book.abortedIps = ∅ ↔
      stats.book.abortedIps = ∅ ∧ ¬ report.IsDirectAbort := by
  cases report with
  | response source accepted reason hosts =>
      simp only [Stats.record, Stats.addResponse, Report.IsDirectAbort, Bookkeeping.discover]
      split_ifs <;> simp
  | received addr info => simp [Stats.record, Stats.receivedImage, Report.IsDirectAbort]
  | aborted addr info =>
      cases forwarded : info.forwarded with
      | true => simp [Stats.record, Stats.abortedImage, Report.IsDirectAbort, forwarded]
      | false =>
          simp [Stats.record, Stats.abortedImage, Report.IsDirectAbort, forwarded,
            Map.insert_ne_empty]

/-- A server that has the image is one that is known of. -/
theorem doneServers_record
    (known : stats.book.doneServers.keys ⊆ stats.book.discoveredServers.keys) (report : Report) :
    (stats.record report).book.doneServers.keys ⊆
      (stats.record report).book.discoveredServers.keys := by
  intro id member
  rw [Finmap.mem_keys] at member ⊢
  have before : id ∈ stats.book.doneServers → id ∈ stats.book.discoveredServers := by
    intro done
    exact Finmap.mem_keys.mp (known (Finmap.mem_keys.mpr done))
  cases report with
  | response source accepted reason hosts =>
      simp only [Stats.record, Stats.addResponse, Bookkeeping.discover] at member ⊢
      split_ifs at member ⊢ <;> exact Finmap.mem_union.mpr (.inr (before member))
  | received addr info =>
      simp only [Stats.record, Stats.receivedImage, Finmap.mem_insert] at member ⊢
      exact member.imp_right before
  | aborted addr info => exact before member

end Reports

section Histories

variable (path : VPath) (weak : Bool) (reports : List Report)

/-- Who is done was discovered. -/
theorem doneServers_after :
    (Stats.after path weak reports).book.doneServers.keys ⊆
      (Stats.after path weak reports).book.discoveredServers.keys := by
  have run : ∀ stats : Stats, stats.book.doneServers.keys ⊆ stats.book.discoveredServers.keys →
      (stats.recordAll reports).book.doneServers.keys ⊆
        (stats.recordAll reports).book.discoveredServers.keys := by
    induction reports with
    | nil => exact fun stats known => known
    | cons report rest ih => exact fun stats known => ih _ (doneServers_record known report)
  exact run _ (Finset.Subset.refl _)

/-- Nobody has refused when no report was intolerable. -/
theorem rejectedIps_after :
    (Stats.after path weak reports).book.rejectedIps = ∅ ↔
      ∀ report ∈ reports, ¬ report.Intolerable weak := by
  have kept : ∀ (stats : Stats) (report : Report), stats.weakErrors = weak →
      ((stats.record report).book.rejectedIps = ∅ ↔
        stats.book.rejectedIps = ∅ ∧ ¬ report.Intolerable weak) := by
    rintro stats report rfl
    exact rejectedIps_record stats report
  rw [Stats.after, Stats.recordAll_iff (fun stats => stats.book.rejectedIps = ∅) kept rfl]
  simp [Stats.new, Bookkeeping.empty]

/-- No machine has given up when no report says so. -/
theorem abortedIds_after :
    (Stats.after path weak reports).book.abortedIds = ∅ ↔
      ∀ report ∈ reports, ¬ report.IsAbort := by
  rw [Stats.after, Stats.recordAll_iff (fun stats => stats.book.abortedIds = ∅)
    (fun stats report _ => abortedIds_record stats report) rfl]
  simp [Stats.new, Bookkeeping.empty]

/-- No address has given up when no report of its own says so. -/
theorem abortedIps_after :
    (Stats.after path weak reports).book.abortedIps = ∅ ↔
      ∀ report ∈ reports, ¬ report.IsDirectAbort := by
  rw [Stats.after, Stats.recordAll_iff (fun stats => stats.book.abortedIps = ∅)
    (fun stats report _ => abortedIps_record stats report) rfl]
  simp [Stats.new, Bookkeeping.empty]

end Histories

section Decisions

variable {stats : Stats} {config : Config} {initial : AddrCell} {noCandidates : Bool}

/-- When the late check resolves. -/
theorem check_late_isSome :
    (check stats config initial true noCandidates).isSome ↔
      stats.book.AllRejected initial noCandidates ∨ stats.book.EnoughDone config := by
  simp only [check, if_true]
  split_ifs with rejected done spoiled
  · exact iff_of_true rfl (.inl rejected)
  · exact iff_of_true rfl (.inr done)
  · exact iff_of_true rfl (.inr done)
  · exact iff_of_false (by simp) (not_or.mpr ⟨rejected, done⟩)

/-- When the early check resolves. -/
theorem check_early_isSome :
    (check stats config initial false noCandidates).isSome ↔
      stats.book.AllRejected initial noCandidates ∨ stats.book.EveryoneDone := by
  simp only [check, Bool.false_eq_true, if_false]
  split_ifs with rejected done spoiled
  · exact iff_of_true rfl (.inl rejected)
  · exact iff_of_true rfl (.inr done)
  · exact iff_of_true rfl (.inr done)
  · exact iff_of_false (by simp) (not_or.mpr ⟨rejected, done⟩)

/-- When the late check succeeds. -/
theorem check_late_ok {result : UploadOk}
    (ok : check stats config initial true noCandidates = some (.ok result)) :
    stats.book.EnoughDone config ∧ stats.book.rejectedIps = ∅ ∧ stats.book.abortedIds = ∅ := by
  simp only [check, if_true] at ok
  split_ifs at ok with rejected done spoiled
  · simp at ok
  · simp at ok
  · exact ⟨done, by simpa [not_or] using spoiled⟩

/-- When the early check succeeds. -/
theorem check_early_ok :
    (∃ result, check stats config initial false noCandidates = some (.ok result)) ↔
      ¬ stats.book.AllRejected initial noCandidates ∧ stats.book.EveryoneDone ∧
        stats.book.rejectedIps = ∅ ∧ stats.book.abortedIps = ∅ := by
  simp only [check, Bool.false_eq_true, if_false]
  split_ifs with rejected done spoiled
  · simp [rejected]
  · refine iff_of_false (by simp) ?_
    rintro ⟨_, _, noReject, noAbort⟩
    simp [noReject, noAbort] at spoiled
  · exact iff_of_true ⟨_, rfl⟩ ⟨rejected, done, by simpa [not_or] using spoiled⟩
  · simp [done]

end Decisions

section Counting

variable {book : Bookkeeping} {config : Config}

/-- A number of servers is asked for at all. -/
theorem hosts_pos_iff :
    0 < book.hosts config ↔
      0 < book.discoveredNum.toNat ∧ (0 < config.earlyHosts.toNat ∨ 0 < config.earlyFraction) := by
  rw [Bookkeeping.hosts, lt_min_iff, lt_max_iff, Nat.ceil_pos]
  refine and_congr_right fun some => or_congr_right ?_
  exact mul_pos_iff_of_pos_left (by exact_mod_cast some)

/-- The number of machines is not counted too high, unless there is one alone. -/
theorem discoveredNum_of_not_lone (others : ¬ book.Lone) :
    book.discoveredNum.toNat ≤ book.discoveredServers.keys.card := by
  rw [Bookkeeping.discoveredNum, if_neg others]
  exact Nat.mod_le _ _

/-- The one that has answered is added, unless the number wraps around. -/
theorem discoveredNum_of_lone (lone : book.Lone) :
    book.discoveredNum.toNat = book.discoveredServers.keys.card + 1 ∨
      (book.discoveredNum.toNat ≤ book.discoveredServers.keys.card ∧
        2 ^ 32 ≤ book.discoveredServers.keys.card + 1) := by
  have number : book.discoveredNum.toNat =
      (book.discoveredServers.keys.card % 2 ^ 32 + 1) % 2 ^ 32 := by
    rw [Bookkeeping.discoveredNum, if_pos lone]
    simp
  omega

/-- Where everybody has the image, those are enough unless the one that has answered is
counted twice. -/
theorem hosts_le_iff (known : book.doneServers.keys ⊆ book.discoveredServers.keys)
    (everyone : book.EveryoneDone) (atMost : config.earlyFraction ≤ 1) :
    book.hosts config ≤ book.doneServers.keys.card ↔
      (book.Lone → config.earlyHosts.toNat ≤ book.doneServers.keys.card ∧
        (book.discoveredNum.toNat : ℚ) * config.earlyFraction ≤ book.doneServers.keys.card) := by
  have same : book.discoveredServers.keys = book.doneServers.keys :=
    Finset.Subset.antisymm everyone.1.2 known
  have enough : book.discoveredNum.toNat ≤ book.doneServers.keys.card →
      book.hosts config ≤ book.doneServers.keys.card :=
    fun few => (Nat.min_le_left _ _).trans few
  by_cases lone : book.Lone
  · rw [← Nat.ceil_le, ← max_le_iff]
    rcases discoveredNum_of_lone lone with more | ⟨wrapped, large⟩
    · rw [same] at more
      rw [Bookkeeping.hosts, min_le_iff]
      simp [lone, more]
    · rw [same] at wrapped large
      refine iff_of_true (enough wrapped) fun _ => max_le ?_ ?_
      · have := config.earlyHosts.toNat_lt
        omega
      · have part : (book.discoveredNum.toNat : ℚ) * config.earlyFraction ≤
            book.discoveredNum.toNat := mul_le_of_le_one_right (Nat.cast_nonneg _) atMost
        exact Nat.ceil_le.mpr (part.trans (by exact_mod_cast wrapped))
  · have few := discoveredNum_of_not_lone lone
    rw [same] at few
    exact iff_of_true (enough few) fun isLone => absurd isLone lone

end Counting

/-- A number of servers is asked for after the early timeout, and where one server alone has
answered it does not go beyond the servers that are done. -/
def Bookkeeping.AsksForDone (book : Bookkeeping) (config : Config) : Prop :=
  (0 < book.discoveredNum.toNat ∧ (0 < config.earlyHosts.toNat ∨ 0 < config.earlyFraction)) ∧
  (book.Lone → config.earlyHosts.toNat ≤ book.doneServers.keys.card ∧
    (book.discoveredNum.toNat : ℚ) * config.earlyFraction ≤ book.doneServers.keys.card)

/-- The early timeout takes nothing back: what is decided before it is decided after it. -/
def Persists (stats : Stats) (config : Config) (initial : AddrCell) (noCandidates : Bool) : Prop :=
  (check stats config initial false noCandidates).isSome →
    (check stats config initial true noCandidates).isSome

/-- After any reports the early timeout takes nothing back exactly when nobody is left to be
asked, or not everybody is done, or those who are done are enough. -/
theorem persists_iff (path : VPath) (weak : Bool) (reports : List Report) (config : Config)
    (initial : AddrCell) (noCandidates : Bool) (atMost : config.earlyFraction ≤ 1) :
    Persists (Stats.after path weak reports) config initial noCandidates ↔
      (Stats.after path weak reports).book.AllRejected initial noCandidates ∨
        ¬ (Stats.after path weak reports).book.EveryoneDone ∨
          (Stats.after path weak reports).book.AsksForDone config := by
  have known := doneServers_after path weak reports
  rw [Persists, check_early_isSome, check_late_isSome]
  generalize (Stats.after path weak reports).book = book at known
  by_cases rejected : book.AllRejected initial noCandidates
  · exact iff_of_true (fun _ => .inl rejected) (.inl rejected)
  by_cases everyone : book.EveryoneDone
  · have enough : book.EnoughDone config ↔ book.AsksForDone config :=
      and_congr hosts_pos_iff (hosts_le_iff known everyone atMost)
    rw [enough]
    constructor
    · intro persists
      exact (persists (.inr everyone)).imp_right .inr
    · rintro (wrong | wrong | asked) _
      · exact absurd wrong rejected
      · exact absurd everyone wrong
      · exact .inr asked
  · refine iff_of_true ?_ (.inr (.inl everyone))
    rintro (wrong | wrong)
    · exact absurd wrong rejected
    · exact absurd wrong everyone

namespace Sample

/-- The only server of the examples. -/
def server : SocketAddr := ⟨[10, 0, 0, 1], 24783⟩

/-- Server `id` has the image, or a neighbour says so. -/
def received (id : UInt8) (forwarded : Bool) : Report :=
  .received server ⟨⟨[]⟩, keyDir, [id], [], forwarded⟩

/-- The server takes the upload and tells of these machines. -/
def accepted (hosts : Map MachineId (List Char)) : Report := .response server true none hosts

/-- A cluster of one server, which takes the image. -/
def alone : List Report := [accepted ∅, received 1 false]

/-- The server and its neighbour take the image. -/
def both : List Report :=
  [accepted (Finmap.singleton [2] []), received 1 false, received 2 true]

/-- The neighbour gives up, and the server passes it on. -/
def givenUp : List Report :=
  [accepted ∅, .aborted server ⟨⟨[]⟩, keyDir, [2], [], true, "disk_full".toList⟩,
    received 1 false]

end Sample

/-- With the default configuration a server without neighbours is waited for twice. -/
theorem alone_not_persists :
    ¬ ∀ path weak reports config initial noCandidates, 0 ≤ config.earlyFraction →
      config.earlyFraction ≤ 1 →
        Persists (Stats.after path weak reports) config initial noCandidates := by
  intro persists
  have atMost : Config.new.earlyFraction ≤ 1 := by norm_num [Config.new]
  have late := persists keyDir false Sample.alone Config.new (.ready {Sample.server}) true
    (by norm_num [Config.new]) atMost
  have everyone : (Stats.after keyDir false Sample.alone).book.EveryoneDone := by decide
  have notRejected : ¬ (Stats.after keyDir false Sample.alone).book.AllRejected
      (.ready {Sample.server}) true := by decide
  rw [Persists, check_early_isSome, check_late_isSome] at late
  obtain ⟨_, enough⟩ := (late (.inr everyone)).resolve_left notRejected
  -- three servers are asked for, and there is one
  have few := (hosts_le_iff (doneServers_after _ _ _) everyone atMost).mp enough (by decide)
  exact absurd few.1 (by decide)

/-- Two servers are done, and two are enough. -/
theorem persists_of_two_hosts :
    Persists (Stats.after keyDir false Sample.both)
      { Config.new with earlyHosts := 2, earlyFraction := 1 / 2 } (.ready {Sample.server})
      true := by
  apply (persists_iff _ _ _ _ _ _ (by norm_num)).mpr
  refine .inr (.inr ⟨⟨by decide, .inl (by decide)⟩, fun _ => ⟨by decide, ?_⟩⟩)
  have three : (Stats.after keyDir false Sample.both).book.discoveredNum.toNat = 3 := by decide
  have two : (Stats.after keyDir false Sample.both).book.doneServers.keys.card = 2 := by decide
  rw [three, two]
  norm_num

/-- A success is one: some server has the image, nobody has rejected it for a reason that
does not pass, and nobody has given up. -/
def Sound (weak : Bool) (reports : List Report) (book : Bookkeeping) : Prop :=
  0 < book.doneServers.keys.card ∧ (∀ report ∈ reports, ¬ report.Intolerable weak) ∧
    ∀ report ∈ reports, ¬ report.IsAbort

/-- After any reports a success is sound exactly when the early timeout has passed, or it is
no success, or nobody has given up: before the timeout an abort that was forwarded is not
looked at. -/
theorem success_sound_iff (path : VPath) (weak : Bool) (reports : List Report) (config : Config)
    (initial : AddrCell) (earlyTimeoutTimedOut noCandidates : Bool) :
    ((∃ result, check (Stats.after path weak reports) config initial earlyTimeoutTimedOut
        noCandidates = some (.ok result)) →
      Sound weak reports (Stats.after path weak reports).book) ↔
    earlyTimeoutTimedOut = true ∨
      (Stats.after path weak reports).book.AllRejected initial noCandidates ∨
      ¬ (Stats.after path weak reports).book.EveryoneDone ∨
      (∃ report ∈ reports, report.Intolerable weak) ∨
      (∃ report ∈ reports, report.IsDirectAbort) ∨ ∀ report ∈ reports, ¬ report.IsAbort := by
  have rejections := rejectedIps_after path weak reports
  have aborts := abortedIds_after path weak reports
  have directAborts := abortedIps_after path weak reports
  cases earlyTimeoutTimedOut with
  | true =>
      refine iff_of_true ?_ (.inl rfl)
      rintro ⟨result, ok⟩
      obtain ⟨⟨asked, enough⟩, noReject, noAbort⟩ := check_late_ok ok
      exact ⟨asked.trans_le enough, rejections.mp noReject, aborts.mp noAbort⟩
  | false =>
      rw [check_early_ok, rejections, directAborts]
      constructor
      · intro sound
        by_contra hidden
        push Not at hidden
        obtain ⟨-, rejected, everyone, tolerable, direct, report, member, abort⟩ := hidden
        exact (sound ⟨rejected, everyone, tolerable, direct⟩).2.2 report member abort
      · rintro holds ⟨rejected, everyone, tolerable, direct⟩
        rcases holds with early | wrong | wrong | ⟨report, member, bad⟩ |
          ⟨report, member, bad⟩ | none
        · simp at early
        · exact absurd wrong rejected
        · exact absurd everyone wrong
        · exact absurd bad (tolerable report member)
        · exact absurd bad (direct report member)
        · exact ⟨everyone.2, tolerable, none⟩

/-- An abort that was forwarded leaves the upload a success. -/
theorem forwarded_abort_passes :
    ¬ ∀ path weak reports config initial earlyTimeoutTimedOut noCandidates result,
      check (Stats.after path weak reports) config initial earlyTimeoutTimedOut noCandidates =
          some (.ok result) →
        Sound weak reports (Stats.after path weak reports).book := by
  intro sound
  have success : ∃ result, check (Stats.after keyDir false Sample.givenUp) Config.new
      (.ready {Sample.server}) false true = some (.ok result) :=
    check_early_ok.mpr ⟨by decide, by decide, by decide, by decide⟩
  obtain ⟨result, ok⟩ := success
  obtain ⟨_, _, noAbort⟩ := sound _ _ _ _ _ _ _ _ ok
  exact noAbort _ (List.mem_cons_of_mem _ List.mem_cons_self) trivial

end Ciruela.Cluster
