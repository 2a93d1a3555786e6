import Ciruela.Cluster.FetchedFiles

/-!
# Requests of a fetch without an answer

A request that a fetch has sent is outstanding until its answer is looked at. A fetch looks at
the answer to the request it sent last, so that the others it asks at the same time stay
outstanding.
-/

namespace Ciruela.Cluster

open Foundation Proto
open Remote (SocketAddr Failure)

/-- What there is of the requests of a fetch after its answers are looked at. A request has got its
answer when another one or none is waited for. -/
def settleWaiting (waiting : List Nat) (before after : Option Nat) : List Nat :=
  if after = before then waiting
  else waiting.filter (fun number => some number ≠ before) ++ after.toList

/-- A fetch with its outstanding requests is woken. -/
def Fetch.wakeupWaiting (now : Nat) (locations : List Pointer) (active : List (SocketAddr × Nat))
    (sent : List Sent) (item : Fetch × List Nat) : Run (List Sent × (Fetch × List Nat)) := do
  let (after, fetch) ← item.1.wakeup now locations active sent
  return (after, (fetch, item.2 ++ List.range' sent.length (after.length - sent.length)))

/-- A fetch with its outstanding requests is polled. -/
def Fetch.pollWaiting (env : Env) (now : Nat) (state : List Sent × List Pointer)
    (item : (Fetch × List Nat) × FetchPoll) :
    Run ((List Sent × List Pointer) × (Option (Fetch × List Nat) × Option Resolution)) := do
  let (after, next, result) ← Fetch.poll env now state (item.1.1, item.2)
  return (after,
    (next.map fun fetch => (fetch, settleWaiting item.1.2 item.1.1.req.future fetch.req.future),
      result))

/-- What a step means for the fetches and their outstanding requests. One that panics changes
nothing. -/
def outstandingAfter (env : Env) (taken : SetEvent) (ledger : List (Fetch × List Nat)) :
    List (Fetch × List Nat) :=
  let set := taken.before
  match taken.op, taken.answer with
  | .readMessage, .ok _ =>
      ledger ++ (taken.after.fetches.drop ledger.length).map fun fetch => (fetch, [])
  | .wakeupFetches order, .ok _ =>
      match Run.visit (Fetch.wakeupWaiting set.now set.locations (set.links order)) set.sent
        ledger with
      | .ok (_, woken) => woken
      | .error _ => ledger
  | .pollFetches given, .ok _ =>
      match Run.visit (Fetch.pollWaiting env set.now) (set.sent, set.locations)
        (ledger.zip given) with
      | .ok (_, polled) => polled.filterMap Prod.fst
      | .error _ => ledger
  | _, _ => ledger

/-- The fetches after a run, each with its outstanding requests by their number. -/
def outstanding (env : Env) (trace : List SetEvent) : List (Fetch × List Nat) :=
  trace.foldl (fun ledger taken => outstandingAfter env taken ledger) []

/-- What a step does to the requests that are outstanding. -/
theorem outstanding_concat (env : Env) (trace : List SetEvent) (taken : SetEvent) :
    outstanding env (trace ++ [taken]) = outstandingAfter env taken (outstanding env trace) := by
  simp [outstanding]

/-- What a fetch waits for was sent over its connection. -/
def Fetch.Over (sent : List Sent) (fetch : Fetch) : Prop :=
  ∀ number, fetch.req.future = some number → ∃ link entry, fetch.connection = some link ∧
    sent[number]? = some entry ∧ entry.conn = link.2 ∧ entry.Fetches

section Over

variable {now : Nat} {fetch : Fetch} {sent later : List Sent} {locations : List Pointer}
  {state after : List Sent × List Pointer} {waiting : List Nat}

/-- A request that is over stays over. -/
theorem Fetch.Over.mono (isOver : fetch.Over sent) (longer : sent <+: later) : fetch.Over later := by
  intro number waits
  obtain ⟨link, entry, connected, isSent, facts⟩ := isOver number waits
  obtain ⟨new, rfl⟩ := longer
  refine ⟨link, entry, connected, ?_, facts⟩
  rw [List.getElem?_append_left (List.getElem?_eq_some_iff.mp isSent).1, isSent]

/-- Who waits for nothing has nothing outstanding. -/
theorem Fetch.over_idle (idle : fetch.req.future = none) (sent : List Sent) : fetch.Over sent := by
  intro number waits
  rw [idle] at waits
  cases waits

/-- A request that was just sent is the one that is waited for. -/
theorem Fetch.over_sent {link : SocketAddr × Nat} {request : Proto.Request}
    (isFetch : Sent.Fetches ⟨link.2, .request request⟩) (connected : fetch.connection = some link)
    (waits : fetch.req.future = some sent.length) :
    fetch.Over (sent ++ [⟨link.2, .request request⟩]) := by
  intro number isNumber
  obtain rfl := Option.some.inj (waits.symm.trans isNumber)
  exact ⟨link, _, connected, List.getElem?_concat_length, rfl, isFetch⟩

theorem Sends.grows {Kind : Sent → Prop} (sends : Sends Kind sent later) : sent <+: later := by
  obtain ⟨new, rfl, _⟩ := sends
  exact List.prefix_append sent new

/-- One round of a poll keeps what is over. -/
theorem Fetch.Over.round (isOver : fetch.Over state.1) {channel : Channel GetBlockResponse}
    {state' : List Sent × List Pointer} {fetch' : Fetch} {ends : Option (Option (List UInt8))}
    (isRound : Round now channel state fetch state' fetch' ends)
    (unfinished : ∀ buf, ends ≠ some (some buf)) : fetch'.Over state'.1 := by
  cases isRound with
  | waits => exact isOver
  | canceled => exact over_idle rfl _
  | tooLong => exact over_idle rfl _
  | complete => exact absurd rfl (unfinished _)
  | next _ _ _ connected asked =>
      obtain ⟨hash, _, isBlock⟩ := getBlock_eq_ok asked
      exact over_sent (.inr ⟨_, congrArg Outgoing.request isBlock⟩) connected rfl

/-- A poll keeps what is over. -/
theorem Fetch.Over.poll (isOver : fetch.Over state.1) {env : Env} {answers : FetchPoll}
    {next : Fetch} {result : Option Resolution}
    (polled : Fetch.poll env now state (fetch, answers) = .ok (after, some next, result)) :
    next.Over after.1 := by
  cases polls_of_poll polled with
  | waits _ goesOn =>
      rw [goesOn next rfl]
      exact isOver
  | fails _ goesOn =>
      rw [goesOn next rfl]
      exact over_idle rfl _
  | fetches _ looped goesOn =>
      rw [goesOn next rfl]
      obtain ⟨_, kept⟩ := (inv_of_pollFile (fun _ state fetch => fetch.Over state.1)
        (fun _ _ _ _ _ _ _ isOver isRound unfinished => isOver.round isRound unfinished) looped
        isOver).1 rfl
      exact kept

/-- A fetch with one connection to ask over asks once. -/
theorem Fetch.wakeup_once {active : List (SocketAddr × Nat)} {result : List Sent × Fetch}
    (once : (fetch.asked now locations active).length ≤ 1)
    (woken : fetch.wakeup now locations active sent = .ok result) :
    result = (sent, fetch) ∨ fetch.connection = none ∧ ∃ link request,
      Sent.Fetches ⟨link.2, .request request⟩ ∧ result = (sent ++ [⟨link.2, .request request⟩],
        { fetch with connection := some link, req := fetch.req.await sent.length }) := by
  unfold wakeup at woken
  unfold Fetch.asked at once
  split at woken
  · rename_i unconnected isAt
    rw [unconnected, isAt] at once
    dsimp only at once
    generalize List.filter _ active = links at once woken
    match links with
    | [] => exact .inl (Except.ok.inj woken).symm
    | [link] =>
        obtain ⟨next, first, rest⟩ := Run.bind_eq_ok_iff.mp woken
        obtain ⟨request, isFetch, isNext⟩ := ask_eq_ok first
        rw [← Except.ok.inj rest]
        exact .inr ⟨unconnected, link, request, isFetch, isNext⟩
    | _ :: _ :: _ => simp at once
  · exact .inl (Except.ok.inj woken).symm

end Over

/-- A fetch has no requests outstanding but the one it waits for. -/
def Fetch.Waits (sent : List Sent) (item : Fetch × List Nat) : Prop :=
  item.2 = item.1.req.future.toList ∧ item.1.Over sent

/-- The order in which the connections are gone through for the fetches. -/
def Op.wakesFetches : Op → Option (List SocketAddr)
  | wakeupFetches order => some order
  | _ => none

/-- No fetch has more than one connection to ask over. -/
def AsksOnce (set : ConnectionSet) (op : Op) : Prop :=
  ∀ order ∈ op.wakesFetches, ∀ fetch ∈ set.fetches,
    (fetch.asked set.now set.locations (set.links order)).length ≤ 1

instance (set : ConnectionSet) (op : Op) : Decidable (AsksOnce set op) :=
  inferInstanceAs (Decidable (∀ order ∈ op.wakesFetches, _))

section Step

variable {env : Env} {now : Nat} {sent later : List Sent} {locations : List Pointer}
  {item : Fetch × List Nat}

theorem Fetch.Waits.mono (waits : Waits sent item) (longer : sent <+: later) : Waits later item :=
  ⟨waits.1, waits.2.mono longer⟩

/-- Waking up a fetch once keeps at most one request outstanding. -/
theorem waits_wakeup (waits : Fetch.Waits sent item) {active : List (SocketAddr × Nat)}
    (once : (item.1.asked now locations active).length ≤ 1) {after : List Sent}
    {result : Fetch × List Nat}
    (woken : Fetch.wakeupWaiting now locations active sent item = .ok (after, result)) :
    Fetch.Waits after result := by
  obtain ⟨isWaiting, isOver⟩ := waits
  obtain ⟨⟨longer, fetch⟩, asked, returned⟩ := Run.bind_eq_ok_iff.mp woken
  cases Except.ok.inj returned
  rcases Fetch.wakeup_once once asked with same | ⟨unconnected, link, request, isFetch, same⟩
  · cases same
    exact ⟨by simpa using isWaiting, isOver⟩
  · cases same
    -- nothing is outstanding without a connection
    have idle : item.1.req.future = none := by
      cases isFuture : item.1.req.future with
      | none => rfl
      | some number =>
          obtain ⟨_, _, connected, _⟩ := isOver number isFuture
          rw [unconnected] at connected
          cases connected
    refine ⟨?_, Fetch.over_sent isFetch rfl (by simp)⟩
    rw [isWaiting, idle]
    simp

/-- The requests of a fetch after one of them is settled. -/
theorem settleWaiting_toList (before after : Option Nat) :
    settleWaiting before.toList before after = after.toList := by
  unfold settleWaiting
  split
  · rename_i same
    rw [same]
  · cases before <;> simp

/-- A poll keeps at most one request outstanding. -/
theorem waits_poll {state after : List Sent × List Pointer} (waits : Fetch.Waits state.1 item)
    {answers : FetchPoll} {next : Fetch × List Nat} {result : Option Resolution}
    (polled : Fetch.pollWaiting env now state (item, answers) = .ok (after, some next, result)) :
    Fetch.Waits after.1 next := by
  obtain ⟨isWaiting, isOver⟩ := waits
  obtain ⟨⟨longer, going, outcome⟩, stepped, returned⟩ := Run.bind_eq_ok_iff.mp polled
  cases going with
  | none => cases Except.ok.inj returned
  | some fetch =>
      cases Except.ok.inj returned
      refine ⟨?_, isOver.poll stepped⟩
      dsimp only
      rw [isWaiting, settleWaiting_toList]

end Step

/-- The ledger is kept of the fetches there are, and every one of them waits. -/
structure Kept (set : ConnectionSet) (ledger : List (Fetch × List Nat)) : Prop where
  fetches : ledger.map Prod.fst = set.fetches
  waits : ∀ item ∈ ledger, Fetch.Waits set.sent item

namespace Kept

variable {env : Env} {set next : ConnectionSet} {ledger : List (Fetch × List Nat)}

/-- What changes no fetch keeps the books. -/
theorem frame (kept : Kept set ledger) (fetches : next.fetches = set.fetches)
    (longer : set.sent <+: next.sent) : Kept next ledger where
  fetches := kept.fetches.trans fetches.symm
  waits item member := (kept.waits item member).mono longer

/-- New fetches have no requests. -/
theorem read (kept : Kept set ledger) {new : List Fetch}
    (fetches : next.fetches = set.fetches ++ new) (idle : ∀ fetch ∈ new, fetch.req.future = none)
    (sent : next.sent = set.sent) :
    Kept next (ledger ++ (next.fetches.drop ledger.length).map fun fetch => (fetch, [])) := by
  have length : ledger.length = set.fetches.length := by rw [← kept.fetches, List.length_map]
  rw [fetches, length, List.drop_left]
  constructor
  · rw [List.map_append, kept.fetches, fetches]
    simp [Function.comp_def]
  · intro item member
    rcases List.mem_append.mp member with old | added
    · rw [sent]
      exact kept.waits item old
    · obtain ⟨fetch, isNew, rfl⟩ := List.mem_map.mp added
      exact ⟨by rw [idle fetch isNew]; rfl, Fetch.over_idle (idle fetch isNew) _⟩

/-- Waking up the fetches keeps the books. -/
theorem wakeup (kept : Kept set ledger) {order : List SocketAddr} {sent : List Sent}
    {fetches : List Fetch} (once : AsksOnce set (.wakeupFetches order))
    (visited : Run.visit (fun sent (fetch : Fetch) =>
      fetch.wakeup set.now set.locations (set.links order) sent) set.sent set.fetches =
        .ok (sent, fetches)) :
    ∃ woken, Run.visit (Fetch.wakeupWaiting set.now set.locations (set.links order)) set.sent
        ledger = .ok (sent, woken) ∧
      woken.map Prod.fst = fetches ∧ ∀ item ∈ woken, Fetch.Waits sent item := by
  rw [← kept.fetches] at visited
  obtain ⟨woken, isWoken, same⟩ := Run.visit_lift Prod.fst Prod.fst
    (Fetch.wakeupWaiting set.now set.locations (set.links order))
    (fun state item after made stepped => ⟨_, by rw [Fetch.wakeupWaiting, stepped]; rfl, rfl⟩)
    visited
  have grows : ∀ before item after result,
      Fetch.wakeupWaiting set.now set.locations (set.links order) before item =
        .ok (after, result) → before <+: after := by
    intro before item after result stepped
    obtain ⟨⟨longer, fetch⟩, asked, returned⟩ := Run.bind_eq_ok_iff.mp stepped
    cases Except.ok.inj returned
    exact (Fetch.sends_wakeup asked).grows
  obtain ⟨_, all⟩ := Run.exists_step_of_mem_visit (fun before after => before <+: after)
    (fun _ => List.prefix_rfl) (fun first second => first.trans second) grows isWoken
  refine ⟨woken, isWoken, same, fun result member => ?_⟩
  obtain ⟨item, isItem, before, after, reached, stepped, ends⟩ := all result member
  have isFetch : item.1 ∈ set.fetches := by
    rw [← kept.fetches]
    exact List.mem_map_of_mem isItem
  exact (waits_wakeup ((kept.waits item isItem).mono reached) (once order rfl item.1 isFetch)
    stepped).mono ends

/-- Polling the fetches keeps the books. -/
theorem poll (kept : Kept set ledger) {given : List FetchPoll} {sent : List Sent}
    {locations : List Pointer} {polled : List (Option Fetch × Option Resolution)}
    (visited : Run.visit (Fetch.poll env set.now) (set.sent, set.locations)
      (set.fetches.zip given) = .ok ((sent, locations), polled)) :
    ∃ results, Run.visit (Fetch.pollWaiting env set.now) (set.sent, set.locations)
        (ledger.zip given) = .ok ((sent, locations), results) ∧
      (results.filterMap Prod.fst).map Prod.fst = polled.filterMap (fun item => item.1) ∧
        ∀ item ∈ results.filterMap Prod.fst, Fetch.Waits sent item := by
  have zipped : set.fetches.zip given =
      (ledger.zip given).map fun item => (item.1.1, item.2) := by
    rw [← kept.fetches, List.zip_map_left]
    rfl
  rw [zipped] at visited
  obtain ⟨results, isPolled, same⟩ := Run.visit_lift
    (fun item : (Fetch × List Nat) × FetchPoll => (item.1.1, item.2))
    (fun result : Option (Fetch × List Nat) × Option Resolution =>
      (result.1.map Prod.fst, result.2))
    (Fetch.pollWaiting env set.now)
    (fun state item after made stepped =>
      ⟨_, by rw [Fetch.pollWaiting, stepped]; rfl, by simp [Function.comp_def]⟩) visited
  have grows : ∀ before item after result,
      Fetch.pollWaiting env set.now before item = .ok (after, result) → before.1 <+: after.1 := by
    rintro before ⟨item, answers⟩ after result stepped
    obtain ⟨⟨longer, going, outcome⟩, isPoll, returned⟩ := Run.bind_eq_ok_iff.mp stepped
    cases Except.ok.inj returned
    exact (Fetch.sends_poll isPoll).grows
  obtain ⟨_, all⟩ := Run.exists_step_of_mem_visit
    (fun before after : List Sent × List Pointer => before.1 <+: after.1)
    (fun _ => List.prefix_rfl) (fun first second => first.trans second) grows isPolled
  refine ⟨results, isPolled, ?_, fun item member => ?_⟩
  · rw [← same, List.filterMap_map, List.map_filterMap]
    rfl
  · obtain ⟨⟨going, outcome⟩, isOut, isItem⟩ := List.mem_filterMap.mp member
    obtain rfl : going = some item := isItem
    obtain ⟨⟨old, answers⟩, isOld, before, after, reached, stepped, ends⟩ := all _ isOut
    exact (waits_poll ((kept.waits old (List.of_mem_zip isOld).1).mono reached) stepped).mono ends

end Kept

/-- A step keeps the books, when nothing is asked twice. -/
theorem kept_step {env : Env} {set next : ConnectionSet} {op : Op} {answer : Run (List Resolution)}
    {ledger : List (Fetch × List Nat)} (step : SetStep env set op answer next)
    (once : AsksOnce set op) (kept : Kept set ledger) :
    Kept next (outstandingAfter env ⟨set, op, answer, next⟩ ledger) := by
  have longer := (sends_step step).grows
  cases step with
  | readNothing => exact kept.read (List.append_nil _).symm (by simp) rfl
  | read _ isNext handled =>
      obtain ⟨_, sent, new, fetches, idle⟩ := ConnectionSet.frame_handle handled
      exact kept.read fetches idle sent
  | readPanicked => exact kept.frame rfl longer
  | @panicked op panic _ =>
      have same : outstandingAfter env ⟨set, op, .error panic, { set with phase := .panicked }⟩
          ledger = ledger := by
        cases op <;> rfl
      rw [same]
      exact kept.frame rfl longer
  | pollConnect _ connected => exact kept.frame (ConnectionSet.frame_pollConnect connected).1 longer
  | pollPending => exact kept.frame (set.frame_pollPending _ _ _).1 longer
  | wakeupFetches _ _ visited =>
      obtain ⟨woken, isWoken, same, waits⟩ := kept.wakeup once visited
      unfold outstandingAfter
      dsimp only
      rw [isWoken]
      exact ⟨same, waits⟩
  | pollFetches _ _ visited =>
      obtain ⟨results, isPolled, same, waits⟩ := kept.poll visited
      unfold outstandingAfter
      dsimp only
      rw [isPolled]
      exact ⟨same, waits⟩
  | _ => exact kept.frame rfl longer

/-- The books are kept in every run in which nothing is asked twice. -/
theorem kept_run {env : Env} {names : List Name} {trace : List SetEvent} {set : ConnectionSet}
    (steps : (ConnectionSet.machine env).Steps (.spawn names) trace set)
    (once : ∀ taken ∈ trace, AsksOnce taken.before taken.op) : Kept set (outstanding env trace) := by
  refine steps.preserves_history (fun trace set => Kept set (outstanding env trace))
    (fun taken => AsksOnce taken.before taken.op) ?_ once ⟨rfl, by simp [outstanding]⟩
  intro history taken takes once kept
  rw [outstanding_concat]
  exact kept_step (ConnectionSet.step_of_takes takes) once kept

/-- If no fetch ever has more than one connection to ask over when the fetches are woken, then
every fetch has one request outstanding at most. It is the one whose answer is looked at, and it
was sent over the connection of the fetch. -/
theorem one_outstanding (env : Env) (names : List Name) {trace : List SetEvent}
    {set : ConnectionSet} (steps : (ConnectionSet.machine env).Steps (.spawn names) trace set)
    (once : ∀ taken ∈ trace, AsksOnce taken.before taken.op) :
    (outstanding env trace).map Prod.fst = set.fetches ∧
      ∀ item ∈ outstanding env trace, item.2.length ≤ 1 ∧
        ∀ number ∈ item.2, item.1.req.future = some number ∧
          ∃ link entry, item.1.connection = some link ∧ set.sent[number]? = some entry ∧
            entry.conn = link.2 ∧ entry.Fetches := by
  have kept := kept_run steps once
  refine ⟨kept.fetches, fun item member => ?_⟩
  obtain ⟨isWaiting, isOver⟩ := kept.waits item member
  rw [isWaiting]
  refine ⟨by cases item.1.req.future <;> simp, fun number waits => ?_⟩
  have isFuture := Option.mem_toList.mp waits
  exact ⟨isFuture, isOver number isFuture⟩

/-- An index and a file are asked for over the same connection, and the first block of the file
has come in. -/
theorem one_outstanding_each :
    let ops := Sample.replying [.value ⟨[5, 6]⟩]
    let ledger := outstanding (Sample.env 3) (Sample.trace (Sample.env 3) ops)
    ledger.map Prod.snd = [[0], [2]] ∧
      ∀ item ∈ ledger, item.2.length ≤ 1 ∧ ∀ number ∈ item.2,
        item.1.req.future = some number ∧ ∃ link entry, item.1.connection = some link ∧
          (Sample.result (Sample.env 3) ops).sent[number]? = some entry ∧
            entry.conn = link.2 ∧ entry.Fetches := by
  intro ops ledger
  exact ⟨by decide, (one_outstanding _ _ (Sample.steps _ ops) (by decide)).2⟩

/-- There are two connections when an index is asked for. -/
theorem two_outstanding :
    ¬ ∀ env names (trace : List SetEvent) set,
      (ConnectionSet.machine env).Steps (.spawn names) trace set →
      ∀ item ∈ outstanding env trace, item.2.length ≤ 1 := by
  intro one
  have both : ∃ item ∈ outstanding (Sample.env 1) (Sample.trace (Sample.env 1) Sample.sharing),
      item.2.length = 2 := by
    decide
  obtain ⟨item, member, two⟩ := both
  have atMost := one _ _ _ _ (Sample.steps _ _) item member
  omega

end Ciruela.Cluster
