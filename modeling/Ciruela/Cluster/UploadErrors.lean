import Ciruela.Cluster.SetFetches
import Ciruela.Cluster.SetUploads
import Ciruela.Proto.Refusal

/-!
# Uploads that a server refuses with an error

The text of an error does not get to the upload: its channel is dropped, as when a connection
is lost, and a lost connection is no failure of the address. The upload lets go of the
connection, which is still there, and asks again over it.
-/

namespace Ciruela.Cluster

open Foundation Proto
open Remote (SocketAddr Failure)

section Failures

variable {Key : Type} [DecidableEq Key] {items : Map Key Failure} {key other : Key}
  {retry now later : Nat}

/-- Who may be tried may be tried later. -/
theorem canTry_mono (passes : now ≤ later) (allowed : canTry items retry now key = true) :
    canTry items retry later key = true := by
  unfold canTry at allowed ⊢
  split
  · rfl
  · rename_i failure found
    rw [found] at allowed
    have waited := of_decide_eq_true allowed
    exact decide_eq_true (lt_of_lt_of_le waited (Nat.sub_le_sub_right passes _))

/-- The failure of another key changes nothing for this one. -/
theorem canTry_addFailure_of_ne (differs : other ≠ key) :
    canTry (addFailure items key now) retry later other = canTry items retry later other := by
  unfold canTry addFailure
  dsimp only
  rw [Map.lookup_insert_eq, if_neg differs]

end Failures

/-- Every connection, there or on its way, was made to the address it is under, and that
address may be tried. -/
structure Tried (pending active : Map SocketAddr Nat) (made : List Made)
    (failures : Map SocketAddr Failure) (now : Nat) : Prop where
  onTheirWay : ∀ addr conn, pending.lookup addr = some conn →
    (made[conn]?).map Made.addr = some addr
  there : ∀ addr conn, active.lookup addr = some conn → (made[conn]?).map Made.addr = some addr
  apart : ∀ addr ∈ pending, addr ∉ active
  pendingAllowed : ∀ addr ∈ pending, canTry failures retryTime now addr = true
  activeAllowed : ∀ addr ∈ active, canTry failures retryTime now addr = true

namespace ConnectionSet

variable {set next : ConnectionSet} {addr : SocketAddr}

/-- `Tried` of the tables of a connection set. -/
def Tried (set : ConnectionSet) : Prop :=
  Cluster.Tried set.pending set.active set.made set.failures set.now

theorem Tried.setLink (tried : set.Tried) (conn : Nat) (link : Link) :
    (set.setLink conn link).Tried := by
  have same (number : Nat) :
      ((set.setLink conn link).made[number]?).map Made.addr =
        (set.made[number]?).map Made.addr := by
    rw [ConnectionSet.setLink, getElem?_relink]
    split
    · rw [Option.map_map]
      rfl
    · rfl
  exact {
    onTheirWay := fun addr number found => (same number).trans (tried.onTheirWay addr number found)
    there := fun addr number found => (same number).trans (tried.there addr number found)
    apart := tried.apart
    pendingAllowed := tried.pendingAllowed
    activeAllowed := tried.activeAllowed }

theorem Tried.tick (tried : set.Tried) (time : Nat) :
    Tried { set with now := set.now + time } where
  onTheirWay := tried.onTheirWay
  there := tried.there
  apart := tried.apart
  pendingAllowed addr waits := canTry_mono (Nat.le_add_right _ _) (tried.pendingAllowed addr waits)
  activeAllowed addr isThere := canTry_mono (Nat.le_add_right _ _) (tried.activeAllowed addr isThere)

/-- An address may be connected to when it may be tried. -/
theorem Tried.connect (tried : set.Tried) (free : addr ∉ set.active)
    (allowed : canTry set.failures retryTime set.now addr = true) : (set.connect addr).Tried := by
  unfold ConnectionSet.connect
  split
  · exact tried
  · exact {
      onTheirWay := by
        intro other conn found
        rw [Map.lookup_insert_eq] at found
        split at found
        · rename_i same
          obtain rfl := Option.some.inj found
          simp [same]
        · obtain ⟨entry, isMade, isAddr⟩ :=
            Option.map_eq_some_iff.mp (tried.onTheirWay other conn found)
          rw [getElem?_snoc isMade, Option.map_some, isAddr]
      there := by
        intro other conn found
        obtain ⟨entry, isMade, isAddr⟩ := Option.map_eq_some_iff.mp (tried.there other conn found)
        rw [getElem?_snoc isMade, Option.map_some, isAddr]
      apart := by
        intro other waits
        rcases Finmap.mem_insert.mp waits with rfl | before
        · exact free
        · exact tried.apart other before
      pendingAllowed := by
        intro other waits
        rcases Finmap.mem_insert.mp waits with rfl | before
        · exact allowed
        · exact tried.pendingAllowed other before
      activeAllowed := tried.activeAllowed }

/-- Dialing keeps that failures are respected. -/
theorem Tried.dials (tried : set.Tried) (dials : set.Dials next) : next.Tried := by
  obtain ⟨names, addrs, rfl, free⟩ := dials
  have all : ∀ addr ∈ addrs,
      addr ∉ set.active ∧ canTry set.failures retryTime set.now addr = true :=
    fun addr member => (free addr member).2
  -- what allows an address is the same after others are connected to
  suffices kept : ∀ middle : ConnectionSet, middle.active = set.active →
      middle.failures = set.failures → middle.now = set.now → middle.Tried →
        (addrs.foldl ConnectionSet.connect middle).Tried from kept _ rfl rfl rfl tried
  intro middle active failures now tried
  clear free
  induction addrs generalizing middle with
  | nil => exact tried
  | cons addr rest ih =>
      rw [List.forall_mem_cons] at all
      have fields : (middle.connect addr).active = middle.active ∧
          (middle.connect addr).failures = middle.failures ∧
            (middle.connect addr).now = middle.now := by
        unfold ConnectionSet.connect
        split
        · exact ⟨rfl, rfl, rfl⟩
        · exact ⟨rfl, rfl, rfl⟩
      refine ih all.2 _ (fields.1.trans active) (fields.2.1.trans failures)
        (fields.2.2.trans now) (tried.connect ?_ ?_)
      · rw [active]
        exact all.1.1
      · rw [failures, now]
        exact all.1.2

/-- A connection that fails is no longer on its way. -/
theorem Tried.settle (tried : set.Tried) (addr : SocketAddr) : (set.settle addr).Tried := by
  unfold ConnectionSet.settle
  split
  · exact tried
  · rename_i conn waits
    have waiting : ∀ other ∈ set.pending.erase addr, other ≠ addr ∧ other ∈ set.pending :=
      fun other still => Finmap.mem_erase.mp still
    have found : ∀ other number, (set.pending.erase addr).lookup other = some number →
        set.pending.lookup other = some number := by
      intro other number isThere
      rw [Map.lookup_erase_eq] at isThere
      split at isThere
      · cases isThere
      · exact isThere
    have taken : Tried { set with
        pending := set.pending.erase addr, active := set.active.insert addr conn } := {
      onTheirWay := fun other number isThere =>
        tried.onTheirWay other number (found other number isThere)
      there := by
        intro other number isThere
        rw [Map.lookup_insert_eq] at isThere
        split at isThere
        · rename_i same
          rw [same, ← Option.some.inj isThere]
          exact tried.onTheirWay addr conn waits
        · exact tried.there other number isThere
      apart := by
        intro other still isThere
        obtain ⟨differs, before⟩ := waiting other still
        rcases Finmap.mem_insert.mp isThere with same | earlier
        · exact differs same
        · exact tried.apart other before earlier
      pendingAllowed := fun other still => tried.pendingAllowed other (waiting other still).2
      activeAllowed := by
        intro other isThere
        rcases Finmap.mem_insert.mp isThere with rfl | before
        · exact tried.pendingAllowed other (Finmap.mem_of_lookup_eq_some waits)
        · exact tried.activeAllowed other before }
    split
    · exact taken
    · exact taken
    · have notThere : ∀ other ∈ set.active, other ≠ addr := by
        rintro other isThere rfl
        exact tried.apart other (Finmap.mem_of_lookup_eq_some waits) isThere
      exact {
        onTheirWay := fun other number isThere =>
          tried.onTheirWay other number (found other number isThere)
        there := tried.there
        apart := fun other still => tried.apart other (waiting other still).2
        pendingAllowed := fun other still =>
          (canTry_addFailure_of_ne (waiting other still).1).trans
            (tried.pendingAllowed other (waiting other still).2)
        activeAllowed := fun other isThere =>
          (canTry_addFailure_of_ne (notThere other isThere)).trans
            (tried.activeAllowed other isThere) }
    · exact tried
    · exact tried

/-- Looking at what is pending keeps it too. -/
theorem Tried.pollPending (tried : set.Tried) (config : Config) (order : List SocketAddr)
    (names : List (Name × Lookup)) : (set.pollPending config order names).Tried := by
  have settled : (order.foldl ConnectionSet.settle set).Tried :=
    List.foldlRecOn (motive := fun set : ConnectionSet => set.Tried) order _ tried
      fun set holds addr _ => holds.settle addr
  refine List.foldlRecOn (motive := fun set : ConnectionSet => set.Tried) names _ settled ?_
  intro middle holds answer _
  unfold ConnectionSet.resolve
  split <;> exact holds

/-- Handling a message keeps it too. -/
theorem Tried.handle {config : Config} {message : Message} (tried : set.Tried)
    (handled : set.handle config message = .ok next) : next.Tried := by
  cases message with
  | closed addr conn =>
      simp only [ConnectionSet.handle] at handled
      split at handled
      · obtain rfl := Except.ok.inj handled
        exact {
          onTheirWay := tried.onTheirWay
          there := by
            intro other number isThere
            rw [Map.lookup_erase_eq] at isThere
            split at isThere
            · cases isThere
            · exact tried.there other number isThere
          apart := fun other waits isThere =>
            tried.apart other waits (Finmap.mem_erase.mp isThere).2
          pendingAllowed := tried.pendingAllowed
          activeAllowed := fun other isThere =>
            tried.activeAllowed other (Finmap.mem_erase.mp isThere).2 }
      · cases handled
  | notification addr note =>
      cases note with
      | _ =>
          obtain rfl := Except.ok.inj handled
          exact tried
  | _ =>
      obtain rfl := Except.ok.inj handled
      exact tried

end ConnectionSet

/-- A poll of an upload adds no failure: the only error of a request is that its channel was
dropped. -/
theorem Upload.failures_poll (env : Env) (initial : AddrCell) (now : Nat)
    (failures : Map SocketAddr Failure) (up : Upload) (answers : List (SocketAddr × Channel Ack)) :
    (up.poll env initial now failures answers).1 = failures := by
  refine List.foldlRecOn (motive := fun state : Map SocketAddr Failure × Upload =>
    state.1 = failures) answers _ rfl ?_
  intro state same answer _
  obtain ⟨addr, channel⟩ := answer
  cases channel <;> exact same

/-- What polling the uploads does to the failures. -/
theorem ConnectionSet.failures_pollUploads {env : Env} {set : ConnectionSet}
    {answers : List (List (SocketAddr × Channel Ack))} {failures : Map SocketAddr Failure}
    {polled : List (Upload × Option (Except ErrorKind UploadOk))}
    (visited : set.pollUploads env answers = .ok (failures, polled)) : failures = set.failures := by
  refine Run.inv_of_visit (fun failures => failures = set.failures) visited rfl ?_
  intro item _ before after out stepped same
  have result : _ = after := congrArg Prod.fst (Except.ok.inj stepped)
  rw [← result, ← same]
  exact Upload.failures_poll _ _ _ _ _ _

/-- A step keeps that failures are respected. -/
theorem tried_step {env : Env} {set next : ConnectionSet} {op : Op}
    {answer : Run (List Resolution)} (step : SetStep env set op answer next)
    (tried : set.Tried) : next.Tried := by
  cases step with
  | established => exact tried.setLink _ _
  | refused => exact tried.setLink _ _
  | closed => exact tried.setLink _ _
  | tick => exact tried.tick _
  | @read _ rest _ _ _ handled =>
      have before : ConnectionSet.Tried { set with chan := rest } := tried
      exact before.handle handled
  | pollConnect _ connected =>
      have after := ConnectionSet.inv_of_pollConnect ConnectionSet.Tried
        (fun _ _ dials tried => tried.dials dials) connected tried
      exact after
  | pollPending => exact tried.pollPending _ _ _
  | pollUploads _ _ _ visited =>
      have same := ConnectionSet.failures_pollUploads visited
      subst same
      exact tried
  | _ => exact tried

/-- Nobody has failed at first. -/
theorem tried_spawn (names : List Name) : (ConnectionSet.spawn names).Tried where
  onTheirWay := by simp [ConnectionSet.spawn]
  there := by simp [ConnectionSet.spawn]
  apart _ waits := absurd waits Finmap.notMem_empty
  pendingAllowed _ waits := absurd waits Finmap.notMem_empty
  activeAllowed _ isThere := absurd isThere Finmap.notMem_empty

/-- A request of the upload is sent to the address only when the address may be tried. -/
def BacksOff (up : Upload) (addr : SocketAddr) (taken : SetEvent) : Prop :=
  ∀ entry ∈ taken.after.sent.drop taken.before.sent.length, entry.packet = .request up.request →
    (taken.before.made[entry.conn]?).map Made.addr = some addr →
      canTry taken.before.failures retryTime taken.before.now addr = true

/-- An upload backs off from who has failed. -/
theorem backsOff_of_tried {env : Env} {taken : SetEvent}
    (takes : (ConnectionSet.machine env).Takes taken) (tried : taken.before.Tried) (up : Upload)
    (addr : SocketAddr) : BacksOff up addr taken := by
  intro entry member isRequest isAddr
  obtain ⟨new, isAfter, carried⟩ := sends_step (ConnectionSet.step_of_takes takes)
  rw [isAfter, List.drop_left] at member
  rcases carried entry member with isFetch | ⟨other, isThere⟩
  · obtain ⟨conn, packet⟩ := entry
    obtain rfl : packet = .request up.request := isRequest
    exact absurd isFetch (up.not_fetches conn)
  · obtain rfl := Option.some.inj (isAddr.symm.trans (tried.there other entry.conn isThere))
    exact tried.activeAllowed addr (Finmap.mem_of_lookup_eq_some isThere)

/-- The part of a reply that an upload reads. -/
def Ack.ofReply : Proto.Reply → Option Ack
  | .appendDir reply => some ⟨reply.accepted, reply.rejectReason, reply.hosts⟩
  | .replaceDir reply => some ⟨reply.accepted, reply.rejectReason, reply.hosts⟩
  | _ => none

/-- What an upload finds on the channel of its request. -/
def Channel.ofFate : Option Fate → Channel Ack
  | none => .empty
  | some (.value reply) => (Ack.ofReply reply).elim .empty .value
  | some .canceled => .canceled

/-- Polling the uploads adds no failure. -/
theorem failures_of_pollUploads {env : Env} {set next : ConnectionSet}
    {answers : List (List (SocketAddr × Channel Ack))} {answer : Run (List Resolution)}
    (step : SetStep env set (.pollUploads answers) answer next) : next.failures = set.failures := by
  cases step with
  | panicked => rfl
  | pollUploads _ _ _ visited => exact ConnectionSet.failures_pollUploads visited

/-- The connection over which a request failed is let go of. -/
theorem Upload.notMem_poll_of_canceled (env : Env) (initial : AddrCell) (now : Nat)
    (failures : Map SocketAddr Failure) (up : Upload)
    {answers : List (SocketAddr × Channel Ack)} {addr : SocketAddr}
    (canceled : (addr, Channel.canceled) ∈ answers) :
    addr ∉ (up.poll env initial now failures answers).2.1.connections := by
  obtain ⟨front, back, rfl⟩ := List.append_of_mem canceled
  unfold Upload.poll
  dsimp only
  rw [List.foldl_append, List.foldl_cons]
  -- a future that is looked at later gives back no connection
  refine List.foldlRecOn (motive := fun state : Map SocketAddr Failure × Upload =>
    addr ∉ state.2.connections) back _ ?_ ?_
  · exact Finmap.notMem_erase_self
  · intro state notThere answer _ isThere
    refine notThere (Finmap.mem_keys.mp ?_)
    exact keys_pollFuture now state.1 answer (Finmap.mem_keys.mpr isThere)

/-- An error to a request of an upload is not told from a lost connection: the upload lets go of
the connection. The address is among the failures then, and is left alone until it may be tried,
exactly when it was among them before. -/
theorem refusal_recorded_iff (env : Env) (names : List Name) {front back : List SetEvent}
    {taken : SetEvent} {set : ConnectionSet}
    (steps : (ConnectionSet.machine env).Steps (.spawn names) (front ++ taken :: back) set)
    {answers : List (List (SocketAddr × Channel Ack))} (isPoll : taken.op = .pollUploads answers)
    {codec : Codec} {order : Listing MachineId (List Char)} {packets : List RequestStep}
    {conn : Proto.Connection} (exchange : (Connection.machine codec order).Steps .new packets conn)
    {chan : Nat} (refused : Refused packets chan) :
    ∀ polled ∈ taken.before.uploads.zip answers, ∀ addr,
      (addr, Channel.ofFate (conn.fate chan)) ∈ polled.2 →
        addr ∉ (polled.1.poll env taken.before.initialAddr taken.before.now taken.before.failures
          polled.2).2.1.connections ∧
        ((addr ∈ taken.after.failures ∧ ∀ later ∈ back, BacksOff polled.1 addr later) ↔
          addr ∈ taken.before.failures) := by
  intro polled _ addr answered
  obtain ⟨_, takes, _⟩ := steps.cut
  have same : taken.after.failures = taken.before.failures := by
    have step := ConnectionSet.step_of_takes takes
    rw [isPoll] at step
    exact failures_of_pollUploads step
  have backsOff : ∀ later ∈ back, BacksOff polled.1 addr later := by
    intro later member
    have inTrace : later ∈ front ++ taken :: back :=
      List.mem_append_right _ (List.mem_cons_of_mem _ member)
    obtain ⟨_, states⟩ := steps.preserves ConnectionSet.Tried (fun _ => True)
      (fun _ takes _ tried => tried_step (ConnectionSet.step_of_takes takes) tried)
      (fun _ _ => trivial) (tried_spawn names)
    exact backsOff_of_tried (steps.takes_of_mem inTrace) (states later inTrace).1 polled.1 addr
  constructor
  · rw [Connection.refused_canceled exchange refused] at answered
    exact Upload.notMem_poll_of_canceled _ _ _ _ _ answered
  · rw [same]
    exact ⟨And.left, fun before => ⟨before, backsOff⟩⟩

namespace Sample

/-- The upload is asked for over a connection, and the server answers with an error. -/
def erring : List RequestOp :=
  [.request (Upload.start Config.new 0 upload).request, .poll, .respond 1 (.error "no".toList)]

/-- A connection that has sent a request and hears an error. -/
def exchange : List RequestStep × Proto.Connection :=
  (Connection.machine Cbor.codec machineOrder).play .new erring

/-- The request of the example is refused. -/
theorem refused_erring : Refused exchange.1 0 :=
  ⟨exchange.1.take 2, exchange.1.get ⟨2, by decide⟩, [], 1, "no".toList, rfl, rfl, by decide⟩

/-- A round of a poll in which the request of the upload fails. -/
def failing : List Op :=
  [.poll [], .readMessage, .pollRetry, .pollConnect [draw []] [], .pollPending [] [],
    .wakeupUploads [server], .wakeupFetches [server], .pollUploads [[(server, .canceled)]],
    .pollFetches []]

/-- After the error the upload is polled once more. -/
def resending : List Op :=
  taking ++ failing ++ [.poll [], .readMessage] ++ round [] [] [server] []

/-- The first connection is refused, and the second one is taken. -/
def persisting : List Op :=
  connecting ++ [.refused 0, .poll [], .readMessage] ++ round [] [server] [] [] ++
    round [] [] [] [] ++ [.tick (2 * 10 ^ 9), .poll [], .readMessage] ++
    round [server] [server] [] [] ++ round [] [server] [] [] ++
    [.established 1, .poll [], .readMessage] ++ round [] [server] [server] [] ++
    round [] [] [server] [] ++ failing

/-- The poll in which the error is found. -/
def refused : SetEvent := (trace (env 3) resending).get ⟨42, by decide⟩

/-- The same where the first connection was refused. -/
def refusedAgain : SetEvent := (trace (env 3) persisting).get ⟨76, by decide⟩

end Sample

/-- The address had failed before. -/
theorem refusal_recorded_again :
    ∃ up front back, Sample.refusedAgain.before.uploads = [up] ∧
      Sample.trace (Sample.env 3) Sample.persisting = front ++ Sample.refusedAgain :: back ∧
      Sample.server ∈ Sample.refusedAgain.after.failures ∧
        ∀ later ∈ back, BacksOff up Sample.server later := by
  obtain ⟨up, alone⟩ := List.length_eq_one_iff.mp
    (show Sample.refusedAgain.before.uploads.length = 1 from by decide)
  have member : Sample.refusedAgain ∈ Sample.trace (Sample.env 3) Sample.persisting :=
    List.get_mem _ _
  obtain ⟨front, back, whole⟩ := List.append_of_mem member
  have steps := Sample.steps (Sample.env 3) Sample.persisting
  rw [whole] at steps
  have isPoll : Sample.refusedAgain.op = .pollUploads [[(Sample.server, .canceled)]] := rfl
  have recorded := refusal_recorded_iff _ _ steps isPoll
    (Machine.Steps.of_play (Connection.machine Cbor.codec machineOrder) .new Sample.erring)
    Sample.refused_erring (up, [(Sample.server, .canceled)]) (by rw [alone]; exact .head _)
    Sample.server (.head _)
  exact ⟨up, front, back, alone, whole, recorded.2.mpr (by decide)⟩

/-- The server is not among the failures, and is asked again at once. -/
theorem refusal_unrecorded :
    ¬ ∀ env names front back taken set,
      (ConnectionSet.machine env).Steps (.spawn names) (front ++ taken :: back) set →
      ∀ answers, taken.op = .pollUploads answers →
      ∀ codec order packets conn, (Connection.machine codec order).Steps .new packets conn →
      ∀ chan, Refused packets chan →
      ∀ polled ∈ taken.before.uploads.zip answers, ∀ addr,
        (addr, Channel.ofFate (conn.fate chan)) ∈ polled.2 →
          addr ∈ taken.after.failures ∧ ∀ later ∈ back, BacksOff polled.1 addr later := by
  intro recorded
  obtain ⟨up, alone⟩ := List.length_eq_one_iff.mp
    (show Sample.refused.before.uploads.length = 1 from by decide)
  have member : Sample.refused ∈ Sample.trace (Sample.env 3) Sample.resending := List.get_mem _ _
  obtain ⟨front, back, whole⟩ := List.append_of_mem member
  have steps := Sample.steps (Sample.env 3) Sample.resending
  rw [whole] at steps
  have isPoll : Sample.refused.op = .pollUploads [[(Sample.server, .canceled)]] := rfl
  have missing : Sample.server ∉ Sample.refused.after.failures := by decide
  exact missing (recorded _ _ _ _ _ _ steps _ isPoll _ _ _ _
    (.of_play (Connection.machine Cbor.codec machineOrder) .new Sample.erring) _
    Sample.refused_erring (up, [(Sample.server, .canceled)]) (by rw [alone]; exact .head _)
    Sample.server (.head _)).1

end Ciruela.Cluster
