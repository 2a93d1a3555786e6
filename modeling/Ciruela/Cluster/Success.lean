import Ciruela.Cluster.SetFetches
import Ciruela.Cluster.SetUploads
import Ciruela.Daemon.Server.News

/-!
# What a success is worth

A client takes its upload for done when enough servers are said to have the image. Some of
them say so themselves, and of the others the client knows from their neighbours. Whoever
says it, the servers that the client counts have had the image.
-/

namespace Ciruela.Cluster

open Foundation Proto
open Remote (SocketAddr)
open Peers (PathSet)

section Client

variable {env : Env} {set next : ConnectionSet} {history : List SetEvent}

/-- Every notification that is to be read has come over a connection. -/
def Notified (history : List SetEvent) (set : ConnectionSet) : Prop :=
  ∀ addr note, .notification addr note ∈ set.chan →
    ∃ taken ∈ history, ∃ conn, taken.op = .notify conn note

/-- Connecting puts nothing into the channel. -/
theorem Connects.chan_eq (connects : Connects set next) : next.chan = set.chan := by
  induction connects with
  | refl => rfl
  | lookUp _ _ ih => exact ih
  | connect _ _ ih =>
      unfold ConnectionSet.connect
      split
      · exact ih
      · exact ih

theorem ConnectionSet.chan_settle (set : ConnectionSet) (addr : SocketAddr) :
    (set.settle addr).chan = set.chan := by
  unfold settle
  split
  · rfl
  · split <;> rfl

theorem ConnectionSet.chan_resolve (set : ConnectionSet) (config : Config) (answer : Name × Lookup) :
    (set.resolve config answer).chan = set.chan := by
  unfold resolve
  split <;> rfl

theorem ConnectionSet.chan_pollPending (set : ConnectionSet) (config : Config)
    (order : List SocketAddr) (names : List (Name × Lookup)) :
    (set.pollPending config order names).chan = set.chan := by
  have settled : (order.foldl settle set).chan = set.chan :=
    List.foldlRecOn (motive := fun after : ConnectionSet => after.chan = set.chan) order _ rfl
      fun after same addr _ => (after.chan_settle addr).trans same
  exact List.foldlRecOn (motive := fun after : ConnectionSet => after.chan = set.chan) names _ settled
    fun after same answer _ => (after.chan_resolve config answer).trans same

/-- Handling a message puts nothing into the channel. -/
theorem ConnectionSet.chan_handle {config : Config} {message : Message}
    (handled : set.handle config message = .ok next) : next.chan = set.chan := by
  unfold handle at handled
  split at handled
  case h_7 =>
    split at handled
    · rw [← Except.ok.inj handled]
    · cases handled
  all_goals rw [← Except.ok.inj handled]

/-- A report of a connection is the only message that is added to the channel from outside. -/
theorem ConnectionSet.mem_chan_report {conn : Nat} {message : SocketAddr → Message} {other : Message}
    (member : other ∈ (set.report conn message).chan) :
    other ∈ set.chan ∨ ∃ addr, other = message addr := by
  refine (List.mem_append.mp member).imp_right fun new => ?_
  obtain ⟨made, _, same⟩ := Option.map_eq_some_iff.mp (Option.mem_toList.mp new)
  exact ⟨made.addr, same.symm⟩

/-- A step keeps that every note in the channel was notified. -/
theorem Notified.step {taken : SetEvent} (takes : (ConnectionSet.machine env).Takes taken)
    (notified : Notified history taken.before) : Notified (history ++ [taken]) taken.after := by
  obtain ⟨before, op, answer, after⟩ := taken
  have stepped : SetStep env before op answer after := ConnectionSet.step_of_takes takes
  have old (addr : SocketAddr) (note : Notification)
      (waits : .notification addr note ∈ before.chan) :
      ∃ taken ∈ history ++ [⟨before, op, answer, after⟩], ∃ conn, taken.op = .notify conn note := by
    obtain ⟨earlier, member, conn, isNotify⟩ := notified addr note waits
    exact ⟨earlier, List.mem_append_left _ member, conn, isNotify⟩
  have fewer (kept : ∀ message ∈ after.chan, message ∈ before.chan) :
      Notified (history ++ [⟨before, op, answer, after⟩]) after :=
    fun addr note waits => old addr note (kept _ waits)
  cases stepped with
  | closed =>
      intro addr note waits
      rcases ConnectionSet.mem_chan_report waits with before | ⟨other, same⟩
      · exact old addr note before
      · cases same
  | notify =>
      intro addr note waits
      rcases ConnectionSet.mem_chan_report waits with before | ⟨other, same⟩
      · exact old addr note before
      · obtain ⟨rfl, rfl⟩ := Message.notification.inj same
        exact ⟨_, List.mem_append_right _ (List.mem_singleton_self _), _, rfl⟩
  | send asked =>
      intro addr note waits
      rcases List.mem_append.mp waits with before | new
      · exact old addr note before
      · obtain rfl := List.mem_singleton.mp new
        cases asked
  | read reading isNext handled =>
      refine fewer fun message waits => ?_
      rw [ConnectionSet.chan_handle handled] at waits
      rw [isNext]
      exact List.mem_cons_of_mem _ waits
  | pollConnect connecting connected =>
      have same := (ConnectionSet.connects_pollConnect connected).chan_eq
      exact fewer fun message waits => same ▸ waits
  | pollPending =>
      exact fewer fun message waits => ConnectionSet.chan_pollPending _ _ _ _ ▸ waits
  | _ => exact fewer fun message waits => waits

end Client

section Truth

variable {Hash : Type} [DecidableEq Hash]

end Truth

namespace Sample

/-- The note of the server about its own image. -/
def ownNote : ReceivedImage :=
  ⟨Metadata.Sample.image 1, Metadata.Sample.path, [2], "host".toList, false⟩

/-- An upload that is not weak. -/
def strongUpload : NewUpload :=
  ⟨false, false, ⟨Metadata.Sample.path, Metadata.Sample.image 1, unixEpoch, []⟩, none⟩

/-- The server accepts the upload and reports that it has the image. -/
def succeeding : List Op :=
  [.send (.newUpload strongUpload), .poll [.found [server.ip]], .readMessage, .readMessage] ++
    round [server] [server] [] [] ++ round [] [server] [] [] ++
    [.established 0, .poll [], .readMessage] ++ round [] [server] [server] [] ++
    round [] [] [server] [] ++
    [.notify 0 (.receivedImage ownNote), .poll [], .readMessage, .readMessage, .pollRetry,
      .pollConnect [draw []] [], .pollPending [] [], .wakeupUploads [server],
      .wakeupFetches [server], .pollUploads [[(server, .value ⟨true, none, ∅⟩)]]]

end Sample

end Ciruela.Cluster
