import Ciruela.Cluster.Upload

/-!
# Weak uploads

A weak upload takes it for an acceptance when a server already has the image or another
version of it. Such an answer marks the address as done, and no server: what is known of
servers comes with the news that one of them has received the image.
-/

namespace Ciruela.Cluster

open Foundation Proto
open Remote (SocketAddr)

/-- A server has something at the path already, and names no other servers. -/
def Report.WeaklyAccepts : Report → Prop
  | response _ accepted reason hosts =>
      accepted = false ∧ reason ∈ weakReasons.map some ∧ hosts = ∅
  | _ => False

/-- A server has the image. -/
def Report.IsReceived : Report → Prop
  | received _ _ => True
  | _ => False

/-- Everybody who is in the book has the image. -/
structure Bookkeeping.Settled (book : Bookkeeping) : Prop where
  ips : book.acceptedIps ⊆ book.doneIps
  servers : book.discoveredServers.keys ⊆ book.doneServers.keys
  rejected : book.rejectedIps = ∅
  noConfig : book.rejectedNoConfig = ∅
  aborted : book.abortedIps = ∅

section Histories

variable {stats : Stats} {report : Report}

/-- Empty books are settled. -/
theorem Bookkeeping.Settled.empty : Bookkeeping.empty.Settled where
  ips := Finset.Subset.refl _
  servers := Finset.Subset.refl _
  rejected := rfl
  noConfig := rfl
  aborted := rfl

/-- A weak acceptance changes the addresses only. -/
theorem record_weaklyAccepts (isWeak : stats.weakErrors = true) {source : SocketAddr}
    {accepted : Bool} {reason : Option (List Char)} {hosts : Map MachineId (List Char)}
    (accepts : (Report.response source accepted reason hosts).WeaklyAccepts) :
    (stats.record (.response source accepted reason hosts)).book =
      { stats.book with
        acceptedIps := insert source stats.book.acceptedIps
        doneIps := insert source stats.book.doneIps } := by
  obtain ⟨refused, passes, rfl⟩ := accepts
  simp only [Stats.record, Stats.addResponse]
  rw [if_pos ⟨refused, passes, isWeak⟩]
  simp [Bookkeeping.discover]

/-- A weak acceptance and a note keep the books of a weak upload settled. -/
theorem Bookkeeping.Settled.record (settled : stats.book.Settled) (isWeak : stats.weakErrors = true)
    (good : report.WeaklyAccepts ∨ report.IsReceived) : (stats.record report).book.Settled := by
  cases report with
  | response source accepted reason hosts =>
      obtain accepts | received := good
      · rw [record_weaklyAccepts isWeak accepts]
        exact ⟨Finset.insert_subset_insert _ settled.ips, settled.servers, settled.rejected,
          settled.noConfig, settled.aborted⟩
      · exact received.elim
  | received addr info =>
      refine ⟨?_, ?_, settled.rejected, settled.noConfig, settled.aborted⟩
      · simp only [Stats.record, Stats.receivedImage]
        split
        · exact settled.ips
        · exact settled.ips.trans (Finset.subset_insert _ _)
      · intro id member
        have known : id ∈ stats.book.discoveredServers → id ∈ stats.book.doneServers := fun found =>
          Finmap.mem_keys.mp (settled.servers (Finmap.mem_keys.mpr found))
        simp only [Stats.record, Stats.receivedImage, Finmap.mem_keys, Finmap.mem_insert] at member ⊢
        exact member.imp_right known
  | aborted addr info => exact (good.elim id id).elim

/-- Many of them keep the books settled. -/
theorem Bookkeeping.Settled.recordAll {reports : List Report} (settled : stats.book.Settled)
    (isWeak : stats.weakErrors = true)
    (good : ∀ report ∈ reports, report.WeaklyAccepts ∨ report.IsReceived) :
    (stats.recordAll reports).book.Settled := by
  induction reports generalizing stats with
  | nil => exact settled
  | cons report rest ih =>
      obtain ⟨first, later⟩ := List.forall_mem_cons.mp good
      refine ih (settled.record isWeak first) ?_ later
      rw [Stats.weakErrors_record, isWeak]

/-- The servers that are done are those that were reported to have the image. -/
theorem doneServers_record_eq_empty (stats : Stats) (report : Report) :
    (stats.record report).book.doneServers = ∅ ↔
      stats.book.doneServers = ∅ ∧ ¬ report.IsReceived := by
  cases report with
  | response source accepted reason hosts =>
      simp only [Stats.record, Stats.addResponse, Report.IsReceived, Bookkeeping.discover]
      split_ifs <;> simp
  | received addr info =>
      simp [Stats.record, Stats.receivedImage, Report.IsReceived, Map.insert_ne_empty]
  | aborted addr info => simp [Stats.record, Stats.abortedImage, Report.IsReceived]

/-- A map without keys is empty. -/
theorem Map.keys_eq_empty_iff {Key Value : Type} [DecidableEq Key] (map : Map Key Value) :
    map.keys = ∅ ↔ map = ∅ := by
  constructor
  · intro noKeys
    apply Finmap.ext_lookup
    intro key
    have missing : key ∉ map := by
      rw [← Finmap.mem_keys, noKeys]
      exact Finset.notMem_empty key
    rw [Finmap.lookup_eq_none.mpr missing, Finmap.lookup_empty]
  · rintro rfl
    exact Finmap.keys_empty

/-- Somebody is done when somebody has said so. -/
theorem doneServers_after_pos (path : VPath) (weak : Bool) (reports : List Report) :
    0 < (Stats.after path weak reports).book.doneServers.keys.card ↔
      ∃ report ∈ reports, report.IsReceived := by
  have none : ((Stats.new path weak).recordAll reports).book.doneServers = ∅ ↔
      (Stats.new path weak).book.doneServers = ∅ ∧ ∀ report ∈ reports, ¬ report.IsReceived :=
    Stats.recordAll_iff (fun stats => stats.book.doneServers = ∅)
      (fun stats report _ => doneServers_record_eq_empty stats report) rfl
  have start : (Stats.new path weak).book.doneServers = ∅ := rfl
  rw [and_iff_right start] at none
  rw [Finset.card_pos, ← not_iff_not, Finset.not_nonempty_iff_eq_empty, Map.keys_eq_empty_iff,
    Stats.after, none]
  push Not
  rfl

end Histories

/-- A weak upload to servers that all have something at the path, and know of no others, is a
success exactly when one of them is reported to have received the image. -/
theorem weak_upload_succeeds_iff (path : VPath) (reports : List Report) (config : Config)
    (initial : AddrCell) (noCandidates : Bool)
    (good : ∀ report ∈ reports, report.WeaklyAccepts ∨ report.IsReceived) :
    (∃ result, check (Stats.after path true reports) config initial false noCandidates =
        some (.ok result)) ↔
      ∃ report ∈ reports, report.IsReceived := by
  have settled : (Stats.after path true reports).book.Settled :=
    Bookkeeping.Settled.empty.recordAll rfl good
  have notRejected : ¬ (Stats.after path true reports).book.AllRejected initial noCandidates := by
    rintro ⟨⟨_, _, _, some | some⟩, _⟩
    · exact some settled.rejected
    · exact some settled.noConfig
  rw [check_early_ok, ← doneServers_after_pos path true reports]
  constructor
  · rintro ⟨_, everyone, _⟩
    exact everyone.2
  · intro done
    exact ⟨notRejected, ⟨⟨settled.ips, settled.servers⟩, done⟩, settled.rejected, settled.aborted⟩

namespace Sample

/-- The server has the image already. -/
def alreadyExists : Report := .response server false (some "already_exists".toList) ∅

end Sample

/-- A weak upload to one server that has the image already does not come to an end. -/
theorem weak_upload_waits :
    ¬ ∀ path reports config initial noCandidates, reports ≠ [] →
      (∀ report ∈ reports, report.WeaklyAccepts) →
        ∃ result, check (Stats.after path true reports) config initial false noCandidates =
          some (.ok result) := by
  intro succeeds
  obtain ⟨result, ok⟩ := succeeds keyDir [Sample.alreadyExists] Config.new (.ready {Sample.server}) true
    (by simp) (by simp [Sample.alreadyExists, Report.WeaklyAccepts, weakReasons])
  obtain ⟨_, everyone, _⟩ := check_early_ok.mp ⟨result, ok⟩
  exact absurd everyone (by decide)

/-- It does when the server sends the news that it has received the image. -/
theorem weak_upload_succeeds_received :
    ∃ result, check (Stats.after keyDir true [Sample.alreadyExists, Sample.received 1 false]) Config.new
      (.ready {Sample.server}) false true = some (.ok result) := by
  refine (weak_upload_succeeds_iff _ _ _ _ _ ?_).mpr
    ⟨Sample.received 1 false, List.mem_cons_of_mem _ List.mem_cons_self, trivial⟩
  simp [Sample.alreadyExists, Sample.received, Report.WeaklyAccepts, Report.IsReceived, weakReasons]

end Ciruela.Cluster
