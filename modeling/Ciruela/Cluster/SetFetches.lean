import Ciruela.Cluster.SetLinks

/-!
# Fetches over the connections

A fetch that has no connection asks over every connection it can get, and each connection it
asks over takes the place of the one before. The data of a file comes in block by block: what
a server sends is copied to the place the next block is wanted at, however long it is, and
the block after it is asked for over the same connection.
-/

namespace Ciruela.Cluster

open Foundation Proto
open Remote (SocketAddr Failure)

namespace FRequest

/-- The request a fetch waits for. -/
def future : FRequest → Option Nat
  | index future => future
  | file _ _ _ _ future => future

/-- Another request is waited for. -/
def await (number : Nat) : FRequest → FRequest
  | index _ => index (some number)
  | file buf path position hashes _ => file buf path position hashes (some number)

@[simp] theorem future_await (req : FRequest) (number : Nat) :
    (req.await number).future = some number := by
  cases req <;> rfl

end FRequest

/-- Something was sent, all of it of one kind. -/
def Sends (Kind : Sent → Prop) (before after : List Sent) : Prop :=
  ∃ new, after = before ++ new ∧ ∀ entry ∈ new, Kind entry

namespace Sends

variable {Kind Other : Sent → Prop} {before middle after : List Sent}

theorem refl (before : List Sent) : Sends Kind before before := ⟨[], by simp, by simp⟩

theorem snoc (sends : Sends Kind before after) {entry : Sent} (kind : Kind entry) :
    Sends Kind before (after ++ [entry]) := by
  obtain ⟨new, rfl, all⟩ := sends
  refine ⟨new ++ [entry], by simp, fun other member => ?_⟩
  rcases List.mem_append.mp member with old | last
  · exact all other old
  · rwa [List.mem_singleton.mp last]

theorem trans (first : Sends Kind before middle) (second : Sends Kind middle after) :
    Sends Kind before after := by
  obtain ⟨new, rfl, all⟩ := first
  obtain ⟨later, rfl, others⟩ := second
  refine ⟨new ++ later, by simp, fun entry member => ?_⟩
  exact (List.mem_append.mp member).elim (all entry) (others entry)

theorem mono (sends : Sends Kind before after) (weaker : ∀ entry, Kind entry → Other entry) :
    Sends Other before after := by
  obtain ⟨new, rfl, all⟩ := sends
  exact ⟨new, rfl, fun entry member => weaker entry (all entry member)⟩

end Sends

/-- A request for an index or a block. -/
def Sent.Fetches (entry : Sent) : Prop :=
  (∃ params, entry.packet = .request (.getIndexAt params)) ∨
    ∃ params, entry.packet = .request (.getBlock params)

section Requests

variable {vpath : VPath} {path : Path} {hashes : Hashes} {position : Nat} {request : Proto.Request}

/-- A block that is asked for has a hash. -/
theorem getBlock_eq_ok (asked : getBlock vpath path hashes position = .ok request) :
    ∃ hash, hashAt hashes position = .ok hash ∧
      request = .getBlock ⟨hash, some (vpath, path, position.toUInt64)⟩ := by
  obtain ⟨hash, isHash, result⟩ := Run.bind_eq_ok_iff.mp asked
  exact ⟨hash, isHash, (Except.ok.inj result).symm⟩

/-- The hash of a block is there. -/
theorem hashAt_returns (positive : 0 < hashes.blockSize)
    (inside : position / hashes.blockSize < hashes.hashes.length) {panic : Panic}
    (panics : hashAt hashes position = .error panic) : panic = .expect "hash size is correct" := by
  unfold hashAt at panics
  rw [if_neg (Nat.ne_of_gt positive), List.getElem?_eq_getElem inside] at panics
  dsimp only [Run.expect, bind, Except.bind, pure, Except.pure] at panics
  split at panics
  · cases panics
  · exact (Except.error.inj panics).symm

end Requests

namespace Fetch

variable {now : Nat} {fetch after : Fetch} {sent : List Sent} {locations : List Pointer}
  {state : List Sent × List Pointer} {data : Option (List UInt8)}

/-- A fetch that got no data, or none that fits, lets go of its connection. -/
def dropped (fetch : Fetch) (buf : List UInt8) (path : Path) (position : Nat)
    (hashes : Hashes) : Fetch :=
  { fetch with connection := none, req := .file buf path position hashes none }

/-- The data of a block is copied into the file. -/
def filled (buf : List UInt8) (position : Nat) (data : List UInt8) : List UInt8 :=
  buf.take position ++ data ++ buf.drop (position + data.length)

/-- What the loop for a file does with the reply to a request, and with what it ends, if it
does. -/
inductive Round (now : Nat) : Channel GetBlockResponse → List Sent × List Pointer → Fetch →
    List Sent × List Pointer → Fetch → Option (Option (List UInt8)) → Prop where
  | waits {state : List Sent × List Pointer} {fetch : Fetch} :
      Round now .empty state fetch state fetch (some none)
  | canceled {sent : List Sent} {locations : List Pointer} {fetch : Fetch} {buf : List UInt8}
      {path : Path} {position : Nat} {hashes : Hashes} {future : Nat}
      (isFile : fetch.req = .file buf path position hashes (some future)) :
      Round now .canceled (sent, locations) fetch (sent, fetch.fail now locations)
        (fetch.dropped buf path position hashes) (some none)
  | tooLong {result : GetBlockResponse} {sent : List Sent} {locations : List Pointer}
      {fetch : Fetch} {buf : List UInt8} {path : Path} {position : Nat} {hashes : Hashes}
      {future : Nat} (isFile : fetch.req = .file buf path position hashes (some future))
      (exceeds : buf.length < position + result.data.length) :
      Round now (.value result) (sent, locations) fetch (sent, fetch.fail now locations)
        (fetch.dropped buf path position hashes) (some none)
  | complete {result : GetBlockResponse} {state : List Sent × List Pointer}
      {fetch : Fetch} {buf : List UInt8} {path : Path} {position : Nat} {hashes : Hashes}
      {future : Nat} (isFile : fetch.req = .file buf path position hashes (some future))
      (fits : position + result.data.length ≤ buf.length)
      (last : position + result.data.length = (filled buf position result.data).length) :
      Round now (.value result) state fetch state
        { fetch with
          req := .file (filled buf position result.data) path (position + result.data.length)
            hashes (some future) }
        (some (some (filled buf position result.data)))
  | next {result : GetBlockResponse} {sent : List Sent} {locations : List Pointer}
      {fetch : Fetch} {buf : List UInt8} {path : Path} {position : Nat} {hashes : Hashes}
      {future : Nat} {pointer : Pointer} {link : SocketAddr × Nat} {request : Proto.Request}
      (isFile : fetch.req = .file buf path position hashes (some future))
      (fits : position + result.data.length ≤ buf.length)
      (further : position + result.data.length ≠ (filled buf position result.data).length)
      (connected : fetch.connection = some link)
      (asked : getBlock pointer.vpath path hashes (position + result.data.length) = .ok request) :
      Round now (.value result) (sent, locations) fetch
        (sent ++ [⟨link.2, .request request⟩], locations)
        { fetch with
          req := .file (filled buf position result.data) path (position + result.data.length)
            hashes (some sent.length) }
        none

/-- Asking over a connection is sending one request, which is waited for from now on. -/
theorem ask_eq_ok {pointer : Pointer} {link : SocketAddr × Nat} {result : List Sent × Fetch}
    (asked : ask pointer (sent, fetch) link = .ok result) :
    ∃ request, Sent.Fetches ⟨link.2, .request request⟩ ∧
      result = (sent ++ [⟨link.2, .request request⟩],
        { fetch with connection := some link, req := fetch.req.await sent.length }) := by
  unfold ask at asked
  dsimp only at asked
  split at asked
  · rename_i isIndex
    refine ⟨.getIndexAt ⟨pointer.vpath⟩, .inl ⟨_, rfl⟩, ?_⟩
    rw [isIndex]
    exact (Except.ok.inj asked).symm
  · rename_i isFile
    obtain ⟨request, isRequest, result⟩ := Run.bind_eq_ok_iff.mp asked
    obtain ⟨hash, _, isBlock⟩ := getBlock_eq_ok isRequest
    refine ⟨request, .inr ⟨_, congrArg Outgoing.request isBlock⟩, ?_⟩
    rw [isFile]
    exact (Except.ok.inj result).symm

/-- The connections a fetch asks over. -/
def asked (fetch : Fetch) (now : Nat) (locations : List Pointer)
    (active : List (SocketAddr × Nat)) : List (SocketAddr × Nat) :=
  match fetch.connection, locations[fetch.location]? with
  | none, some pointer =>
      active.filter fun link => canTry pointer.failures slowRetryTime now link.1
  | _, _ => []

/-- What every request keeps, `wakeup_fetches` keeps. -/
theorem inv_of_wakeup (Inv : List Sent × Fetch → Prop) {active : List (SocketAddr × Nat)}
    {result : List Sent × Fetch} (woken : fetch.wakeup now locations active sent = .ok result)
    (initially : Inv (sent, fetch))
    (kept : ∀ link ∈ fetch.asked now locations active, ∀ state request,
      Sent.Fetches ⟨link.2, .request request⟩ → Inv state →
        Inv (state.1 ++ [⟨link.2, .request request⟩],
          { state.2 with connection := some link, req := state.2.req.await state.1.length })) :
    Inv result := by
  unfold wakeup at woken
  unfold Fetch.asked at kept
  split at woken
  · rename_i unconnected isAt
    rw [unconnected, isAt] at kept
    refine Run.inv_of_foldlM Inv woken initially ?_
    intro link member state next stepped holds
    obtain ⟨request, isFetch, rfl⟩ := ask_eq_ok stepped
    exact kept link member state request isFetch holds
  · rwa [← Except.ok.inj woken]

theorem sends_wakeup {active : List (SocketAddr × Nat)} {result : List Sent × Fetch}
    (woken : fetch.wakeup now locations active sent = .ok result) :
    Sends Sent.Fetches sent result.1 :=
  inv_of_wakeup (fun state => Sends Sent.Fetches sent state.1) woken (.refl sent)
    fun _ _ _ _ isFetch sends => sends.snoc isFetch

/-- A round of the loop for a file: nothing is looked at, or the reply that is waited for. -/
theorem pollFile_cons {channel : Channel GetBlockResponse}
    {rest : List (Channel GetBlockResponse)}
    {outcome : (List Sent × List Pointer) × Fetch × Option (List UInt8)}
    (polled : fetch.pollFile now (channel :: rest) state = .ok outcome) :
    outcome = (state, fetch, none) ∨ ∃ state' fetch' ends,
      Round now channel state fetch state' fetch' ends ∧
        match ends with
        | some data => outcome = (state', fetch', data)
        | none => fetch'.pollFile now rest state' = .ok outcome := by
  obtain ⟨sent, locations⟩ := state
  unfold pollFile at polled
  split at polled
  · rename_i isFile isAt
    cases channel with
    | empty => exact .inr ⟨_, _, _, .waits, (Except.ok.inj polled).symm⟩
    | canceled => exact .inr ⟨_, _, _, .canceled isFile, (Except.ok.inj polled).symm⟩
    | value result =>
        dsimp only [Channel.poll] at polled
        split at polled
        · rename_i exceeds
          exact .inr ⟨_, _, _, .tooLong isFile exceeds, (Except.ok.inj polled).symm⟩
        · rename_i fits
          split at polled
          · rename_i last
            exact .inr ⟨_, _, _, .complete isFile (not_lt.mp fits) last,
              (Except.ok.inj polled).symm⟩
          · rename_i further
            obtain ⟨link, connected, polled⟩ := Run.bind_eq_ok_iff.mp polled
            obtain ⟨request, asked, later⟩ := Run.bind_eq_ok_iff.mp polled
            exact .inr ⟨_, _, _, .next isFile (not_lt.mp fits) further
              (Run.expect_eq_ok_iff.mp connected) asked, later⟩
  · exact .inl (Except.ok.inj polled).symm

/-- Where the loop for a file panics, it goes on to a further block. -/
theorem pollFile_cons_error {channel : Channel GetBlockResponse}
    {rest : List (Channel GetBlockResponse)} {panic : Panic}
    (panics : fetch.pollFile now (channel :: rest) state = .error panic) :
    ∃ result buf path position hashes future, channel = .value result ∧
      fetch.req = .file buf path position hashes (some future) ∧
      position + result.data.length ≤ buf.length ∧
      position + result.data.length ≠ (filled buf position result.data).length ∧
      (fetch.connection = none ∨
        (∃ vpath, getBlock vpath path hashes (position + result.data.length) = .error panic) ∨
        ∃ state' fetch', Round now channel state fetch state' fetch' none ∧
          fetch'.pollFile now rest state' = .error panic) := by
  obtain ⟨sent, locations⟩ := state
  unfold pollFile at panics
  split at panics
  · rename_i buf path position hashes future pointer isFile isAt
    cases channel with
    | empty => cases panics
    | canceled => cases panics
    | value result =>
        dsimp only [Channel.poll] at panics
        split_ifs at panics with exceeds last
        refine ⟨result, buf, path, position, hashes, future, rfl, isFile, not_lt.mp exceeds, last,
          ?_⟩
        rcases Run.bind_eq_error_iff.mp panics with lost | ⟨link, connected, panics⟩
        · cases connected : fetch.connection with
          | none => exact .inl rfl
          | some link =>
              rw [connected] at lost
              cases lost
        · refine .inr ?_
          rcases Run.bind_eq_error_iff.mp panics with lost | ⟨request, isRequest, panics⟩
          · exact .inl ⟨pointer.vpath, lost⟩
          · exact .inr ⟨_, _, .next isFile (not_lt.mp exceeds) last
              (Run.expect_eq_ok_iff.mp connected) isRequest, panics⟩
  · cases panics

/-- What every round keeps of the state and the replies that it leaves to the next one, the loop
for a file keeps up to the round it ends with data in. -/
theorem inv_of_pollFile
    (Inv : List (Channel GetBlockResponse) → List Sent × List Pointer → Fetch → Prop)
    (kept : ∀ channel rest state fetch state' fetch' ends, Inv (channel :: rest) state fetch →
      Round now channel state fetch state' fetch' ends → (∀ buf, ends ≠ some (some buf)) →
        Inv (ends.elim rest fun _ => []) state' fetch')
    {blocks : List (Channel GetBlockResponse)} {after : List Sent × List Pointer} {next : Fetch}
    (polled : fetch.pollFile now blocks state = .ok (after, next, data))
    (initially : Inv blocks state fetch) :
    (data = none → ∃ rest, Inv rest after next) ∧
      ∀ buf, data = some buf → ∃ channel rest before fetch', Inv (channel :: rest) before fetch' ∧
        Round now channel before fetch' after next (some (some buf)) := by
  induction blocks generalizing state fetch with
  | nil =>
      cases Except.ok.inj polled
      exact ⟨fun _ => ⟨[], initially⟩, by simp⟩
  | cons channel rest ih =>
      rcases pollFile_cons polled with same | ⟨state', fetch', ends, round, result⟩
      · cases same
        exact ⟨fun _ => ⟨_, initially⟩, by simp⟩
      · match ends with
        | some (some buf) =>
            cases result
            refine ⟨by simp, fun other isData => ⟨_, _, _, _, initially, ?_⟩⟩
            rw [← Option.some.inj isData]
            exact round
        | some none =>
            cases result
            exact ⟨fun _ => ⟨_, kept _ _ _ _ _ _ _ initially round (by simp)⟩, by simp⟩
        | none => exact ih result (kept _ _ _ _ _ _ _ initially round (by simp))

theorem sends_round {channel : Channel GetBlockResponse} {fetch' : Fetch}
    {state' : List Sent × List Pointer} {ends : Option (Option (List UInt8))}
    (round : Round now channel state fetch state' fetch' ends) :
    Sends Sent.Fetches state.1 state'.1 := by
  cases round with
  | next _ _ _ _ asked =>
      obtain ⟨hash, _, isBlock⟩ := getBlock_eq_ok asked
      exact (Sends.refl _).snoc (.inr ⟨_, congrArg Outgoing.request isBlock⟩)
  | _ => exact .refl _

/-- What `poll_fetch` does. A fetch whose caller has gone ends too. -/
inductive Polls (env : Env) (now : Nat) (answers : FetchPoll) :
    List Sent × List Pointer → Fetch → List Sent × List Pointer → Option Fetch →
      Option Resolution → Prop where
  | waits {state : List Sent × List Pointer} {fetch : Fetch} {future : Option Nat}
      {next : Option Fetch} (isIndex : fetch.req = .index future)
      (goesOn : ∀ fetch' ∈ next, fetch' = fetch) : Polls env now answers state fetch state next none
  | found {state : List Sent × List Pointer} {fetch : Fetch} {number : Nat} {data : List UInt8}
      (isIndex : fetch.req = .index (some number)) :
      Polls env now answers state fetch state none (some (.index fetch data))
  | fails {sent : List Sent} {locations locations' : List Pointer} {fetch : Fetch} {number : Nat}
      {next : Option Fetch} (isIndex : fetch.req = .index (some number))
      (goesOn : ∀ fetch' ∈ next, fetch' = { fetch with connection := none, req := .index none }) :
      Polls env now answers (sent, locations) fetch (sent, locations') next none
  | fetched {state after : List Sent × List Pointer} {fetch fetch' : Fetch} {buf : List UInt8}
      {held : List UInt8} {path : Path} {position : Nat} {hashes : Hashes} {future : Option Nat}
      (isFile : fetch.req = .file held path position hashes future)
      (polled : fetch.pollFile now answers.blocks state = .ok (after, fetch', some buf)) :
      Polls env now answers state fetch after none (some (.file fetch' buf))
  | fetches {state after : List Sent × List Pointer} {fetch fetch' : Fetch} {held : List UInt8}
      {path : Path} {position : Nat} {hashes : Hashes} {future : Option Nat} {next : Option Fetch}
      (isFile : fetch.req = .file held path position hashes future)
      (polled : fetch.pollFile now answers.blocks state = .ok (after, fetch', none))
      (goesOn : ∀ other ∈ next, other = fetch') : Polls env now answers state fetch after next none

theorem polls_of_poll {env : Env} {answers : FetchPoll} {after : List Sent × List Pointer}
    {next : Option Fetch} {result : Option Resolution}
    (polled : Fetch.poll env now state (fetch, answers) = .ok (after, next, result)) :
    Polls env now answers state fetch after next result := by
  obtain ⟨sent, locations⟩ := state
  have going : ∀ fetch' : Fetch, ∀ other ∈ (if answers.canceled then none else some fetch'),
      other = fetch' := by
    intro fetch' other member
    split at member
    · cases member
    · exact (Option.some.inj member).symm
  unfold poll at polled
  dsimp only at polled
  split at polled
  · rename_i isIndex
    cases Except.ok.inj polled
    exact .waits isIndex (going _)
  · rename_i isIndex
    split at polled
    · cases Except.ok.inj polled
      exact .waits isIndex (going _)
    · split at polled
      · cases Except.ok.inj polled
        exact .found isIndex
      · cases Except.ok.inj polled
        exact .fails isIndex (going _)
    · cases Except.ok.inj polled
      exact .fails isIndex (going _)
  · rename_i isFile
    obtain ⟨⟨middle, fetch', data⟩, looped, polled⟩ := Run.bind_eq_ok_iff.mp polled
    cases data with
    | some buf =>
        cases Except.ok.inj polled
        exact .fetched isFile looped
    | none =>
        cases Except.ok.inj polled
        exact .fetches isFile looped (going _)

theorem sends_pollFile {blocks : List (Channel GetBlockResponse)}
    {after : List Sent × List Pointer} {next : Fetch}
    (polled : fetch.pollFile now blocks state = .ok (after, next, data)) :
    Sends Sent.Fetches state.1 after.1 := by
  have kept := inv_of_pollFile (fun _ between _ => Sends Sent.Fetches state.1 between.1)
    (fun _ _ _ _ _ _ _ sends round _ => sends.trans (sends_round round)) polled (.refl _)
  cases data with
  | none =>
      obtain ⟨_, sends⟩ := kept.1 rfl
      exact sends
  | some buf =>
      obtain ⟨_, _, _, _, sends, last⟩ := kept.2 buf rfl
      exact sends.trans (sends_round last)

theorem sends_poll {env : Env} {answers : FetchPoll} {after : List Sent × List Pointer}
    {next : Option Fetch} {result : Option Resolution}
    (polled : Fetch.poll env now state (fetch, answers) = .ok (after, next, result)) :
    Sends Sent.Fetches state.1 after.1 := by
  cases polls_of_poll polled with
  | waits => exact .refl _
  | found => exact .refl _
  | fails => exact .refl _
  | fetched _ looped => exact sends_pollFile looped
  | fetches _ looped => exact sends_pollFile looped

end Fetch

/-- Where the fetches come from that there are after a step. -/
inductive FetchComes (env : Env) (set : ConnectionSet) (op : Op) : Fetch → Prop where
  | kept {fetch : Fetch} (member : fetch ∈ set.fetches) : FetchComes env set op fetch
  | indexAsked {vpath : VPath} (isRead : set.reads op = some (.fetchIndex vpath)) :
      FetchComes env set op ⟨set.locations.length, none, .index none⟩
  | fileAsked {path : Path} {location size : Nat} {hashes : Hashes}
      (isRead : set.reads op = some (.fetchFile path location size hashes)) :
      FetchComes env set op
        ⟨location, none, .file (List.replicate size 0) path 0 hashes none⟩
  | woken {old fetch : Fetch} {order : List SocketAddr} {sent after : List Sent}
      (isWakeup : op = .wakeupFetches order) (member : old ∈ set.fetches)
      (woken : old.wakeup set.now set.locations (set.links order) sent = .ok (after, fetch)) :
      FetchComes env set op fetch
  | polled {old fetch : Fetch} {given : List FetchPoll} {answers : FetchPoll}
      {state after : List Sent × List Pointer} {result : Option Resolution}
      (isPoll : op = .pollFetches given) (member : (old, answers) ∈ set.fetches.zip given)
      (polled : Fetch.poll env set.now state (old, answers) = .ok (after, some fetch, result)) :
      FetchComes env set op fetch

section Steps

variable {env : Env} {set next : ConnectionSet} {op : Op} {answer : Run (List Resolution)}

/-- Dialling touches neither the fetches nor what is sent or read. -/
theorem ConnectionSet.Dials.frame (dials : set.Dials next) :
    next.fetches = set.fetches ∧ next.sent = set.sent ∧ next.chan = set.chan := by
  obtain ⟨names, addrs, rfl, _⟩ := dials
  refine List.foldlRecOn (motive := fun after : ConnectionSet => after.fetches = set.fetches ∧
    after.sent = set.sent ∧ after.chan = set.chan) addrs _ ⟨rfl, rfl, rfl⟩ ?_
  intro after same addr _
  unfold ConnectionSet.connect
  split
  · exact same
  · exact same

theorem ConnectionSet.frame_pollConnect {config : Config} {uploads fetches : List Draw}
    (connected : set.pollConnect config uploads fetches = some next) :
    next.fetches = set.fetches ∧ next.sent = set.sent ∧ next.chan = set.chan := by
  refine inv_of_pollConnect (fun after => after.fetches = set.fetches ∧ after.sent = set.sent ∧
    after.chan = set.chan) ?_ connected ⟨rfl, rfl, rfl⟩
  rintro before after dials ⟨fetches, sent, chan⟩
  obtain ⟨sameFetches, sameSent, sameChan⟩ := dials.frame
  exact ⟨sameFetches.trans fetches, sameSent.trans sent, sameChan.trans chan⟩

theorem ConnectionSet.frame_pollPending (set : ConnectionSet) (config : Config)
    (order : List SocketAddr) (names : List (Name × Lookup)) :
    (set.pollPending config order names).fetches = set.fetches ∧
      (set.pollPending config order names).sent = set.sent ∧
        (set.pollPending config order names).chan = set.chan := by
  have settled : (order.foldl ConnectionSet.settle set).fetches = set.fetches ∧
      (order.foldl ConnectionSet.settle set).sent = set.sent ∧
        (order.foldl ConnectionSet.settle set).chan = set.chan := by
    refine List.foldlRecOn (motive := fun after : ConnectionSet => after.fetches = set.fetches ∧
      after.sent = set.sent ∧ after.chan = set.chan) order _ ⟨rfl, rfl, rfl⟩ ?_
    intro after same addr _
    unfold ConnectionSet.settle
    split
    · exact same
    · split <;> exact same
  refine List.foldlRecOn (motive := fun after : ConnectionSet => after.fetches = set.fetches ∧
    after.sent = set.sent ∧ after.chan = set.chan) names _ settled ?_
  intro after same answer _
  unfold ConnectionSet.resolve
  split <;> exact same

/-- A message that is read starts a fetch at most, and sends nothing. -/
theorem ConnectionSet.frame_handle {config : Config} {message : Message}
    (handled : set.handle config message = .ok next) :
    next.chan = set.chan ∧ next.sent = set.sent ∧
      ∃ new, next.fetches = set.fetches ++ new ∧ ∀ fetch ∈ new, fetch.req.future = none := by
  have quiet : next.fetches = set.fetches →
      ∃ new, next.fetches = set.fetches ++ new ∧ ∀ fetch ∈ new, fetch.req.future = none :=
    fun same => ⟨[], by rw [same, List.append_nil], by simp⟩
  cases message with
  | fetchIndex vpath =>
      obtain rfl := Except.ok.inj handled
      exact ⟨rfl, rfl, _, rfl, by simp [FRequest.future]⟩
  | fetchFile path location size hashes =>
      obtain rfl := Except.ok.inj handled
      exact ⟨rfl, rfl, _, rfl, by simp [FRequest.future]⟩
  | notification addr note =>
      cases note with
      | _ =>
          obtain rfl := Except.ok.inj handled
          exact ⟨rfl, rfl, quiet rfl⟩
  | closed addr conn =>
      simp only [ConnectionSet.handle] at handled
      split at handled
      · obtain rfl := Except.ok.inj handled
        exact ⟨rfl, rfl, quiet rfl⟩
      · cases handled
  | newUpload new =>
      obtain rfl := Except.ok.inj handled
      exact ⟨rfl, rfl, quiet rfl⟩

theorem fetchComes_of_handle {message : Message} {rest : List Message}
    (isRead : set.reads .readMessage = some message)
    (handled : { set with chan := rest }.handle env.config message = .ok next) {fetch : Fetch}
    (member : fetch ∈ next.fetches) : FetchComes env set .readMessage fetch := by
  cases message with
  | fetchIndex vpath =>
      obtain rfl := Except.ok.inj handled
      rcases List.mem_append.mp member with old | new
      · exact .kept old
      · rw [List.mem_singleton.mp new]
        exact .indexAsked isRead
  | fetchFile path location size hashes =>
      obtain rfl := Except.ok.inj handled
      rcases List.mem_append.mp member with old | new
      · exact .kept old
      · rw [List.mem_singleton.mp new]
        exact .fileAsked isRead
  | notification addr note =>
      cases note with
      | _ =>
          obtain rfl := Except.ok.inj handled
          exact .kept member
  | closed addr conn =>
      simp only [ConnectionSet.handle] at handled
      split at handled
      · obtain rfl := Except.ok.inj handled
        exact .kept member
      · cases handled
  | newUpload new =>
      obtain rfl := Except.ok.inj handled
      exact .kept member

theorem fetchComes_of_step (step : SetStep env set op answer next) {fetch : Fetch}
    (member : fetch ∈ next.fetches) : FetchComes env set op fetch := by
  cases step with
  | read reading isNext handled =>
      have isRead := ConnectionSet.reads_eq_some.mpr ⟨rfl, reading, _, isNext⟩
      exact fetchComes_of_handle isRead handled member
  | pollConnect _ connected =>
      have same := (ConnectionSet.frame_pollConnect connected).1
      exact .kept (same ▸ member)
  | pollPending =>
      have same := fun order names => (set.frame_pollPending env.config order names).1
      exact .kept (same _ _ ▸ member)
  | wakeupFetches _ _ visited =>
      obtain ⟨old, isOld, sent, after, woken⟩ := Run.exists_of_mem_visit visited member
      exact .woken rfl isOld woken
  | pollFetches _ _ visited =>
      obtain ⟨⟨fetch', result⟩, isOut, isFetch⟩ := List.mem_filterMap.mp member
      obtain ⟨⟨old, answers⟩, isOld, state, after, polled⟩ :=
        Run.exists_of_mem_visit visited isOut
      obtain rfl : fetch' = some fetch := isFetch
      exact .polled rfl isOld polled
  | _ => exact .kept member

/-- A file that is read about was asked for by the application. -/
theorem fileAsked_of_chan (step : SetStep env set op answer next) {path : Path}
    {location size : Nat} {hashes : Hashes}
    (member : Message.fetchFile path location size hashes ∈ next.chan) :
    Message.fetchFile path location size hashes ∈ set.chan ∨
      op = .send (.fetchFile path location size hashes) ∧
        (Message.fetchFile path location size hashes).Asked set := by
  have reported : ∀ (before : ConnectionSet) conn report,
      (∀ addr, Message.fetchFile path location size hashes ≠ report addr) →
        Message.fetchFile path location size hashes ∈ (before.report conn report).chan →
          Message.fetchFile path location size hashes ∈ before.chan := by
    intro before conn report other member
    refine (List.mem_append.mp member).elim id fun new => ?_
    obtain ⟨made, _, same⟩ := Option.map_eq_some_iff.mp (Option.mem_toList.mp new)
    exact absurd same.symm (other _)
  cases step with
  | closed =>
      have earlier := reported _ _ _ (by simp) member
      exact .inl earlier
  | notify =>
      have earlier := reported _ _ _ (by simp) member
      exact .inl earlier
  | @send message asked =>
      rcases List.mem_append.mp member with old | new
      · exact .inl old
      · rw [List.mem_singleton.mp new]
        exact .inr ⟨rfl, asked⟩
  | read _ isNext handled =>
      rw [(ConnectionSet.frame_handle handled).1] at member
      rw [isNext]
      exact .inl (List.mem_cons_of_mem _ member)
  | pollConnect _ connected =>
      have same := (ConnectionSet.frame_pollConnect connected).2.2
      exact .inl (same ▸ member)
  | pollPending =>
      have same := fun order names => (set.frame_pollPending env.config order names).2.2
      exact .inl (same _ _ ▸ member)
  | _ => exact .inl member

end Steps

/-- The application has asked for a file. -/
def FileAsked (history : List SetEvent) (path : Path) (location size : Nat)
    (hashes : Hashes) : Prop :=
  ∃ taken ∈ history, taken.op = .send (.fetchFile path location size hashes) ∧
    (Message.fetchFile path location size hashes).Asked taken.before

theorem FileAsked.mono {history later : List SetEvent} {path : Path} {location size : Nat}
    {hashes : Hashes} (asked : FileAsked history path location size hashes)
    (more : ∀ taken ∈ history, taken ∈ later) : FileAsked later path location size hashes := by
  obtain ⟨earlier, member, facts⟩ := asked
  exact ⟨earlier, more earlier member, facts⟩

/-- Every file in the channel was asked for. -/
theorem fileAsked_run {env : Env} {names : List Name} {trace : List SetEvent}
    {set : ConnectionSet} (steps : (ConnectionSet.machine env).Steps (.spawn names) trace set)
    {path : Path} {location size : Nat} {hashes : Hashes}
    (queued : Message.fetchFile path location size hashes ∈ set.chan) :
    FileAsked trace path location size hashes := by
  revert queued
  refine steps.preserves_history (fun trace set =>
    Message.fetchFile path location size hashes ∈ set.chan →
      FileAsked trace path location size hashes) (fun _ => True) ?_ (by simp) ?_
  · intro history taken takes _ before queued
    rcases fileAsked_of_chan (ConnectionSet.step_of_takes takes) queued with old | ⟨isOp, asked⟩
    · exact (before old).mono fun _ => List.mem_append_left _
    · exact ⟨taken, by simp, isOp, asked⟩
  · simp [ConnectionSet.spawn]

/-- What holds of every fetch that is started, whatever of it has been asked for, and is kept
by what is done to a fetch, holds of every fetch in every state. -/
theorem fetches_run {env : Env} {names : List Name} (Inv : List SetEvent → Fetch → Prop)
    (Allowed : SetEvent → Prop)
    (index : ∀ history location, Inv history ⟨location, none, .index none⟩)
    (file : ∀ history path location size hashes, FileAsked history path location size hashes →
      (∀ taken ∈ history, Allowed taken) →
        Inv history ⟨location, none, .file (List.replicate size 0) path 0 hashes none⟩)
    (append : ∀ history taken fetch, Inv history fetch → Inv (history ++ [taken]) fetch)
    (woken : ∀ history fetch now locations active sent result, Inv history fetch →
      fetch.wakeup now locations active sent = .ok result → Inv history result.2)
    (polled : ∀ history taken given fetch answers state after next result,
      Allowed taken → taken.op = .pollFetches given →
        (fetch, answers) ∈ taken.before.fetches.zip given → Inv history fetch →
          Fetch.poll env taken.before.now state (fetch, answers) = .ok (after, some next, result) →
            Inv history next)
    {trace : List SetEvent} {set : ConnectionSet}
    (steps : (ConnectionSet.machine env).Steps (.spawn names) trace set)
    (allowed : ∀ taken ∈ trace, Allowed taken) : ∀ fetch ∈ set.fetches, Inv trace fetch := by
  induction steps with
  | refl => simp [ConnectionSet.spawn]
  | @step trace taken prior valid ih =>
      have before := ih fun other member => allowed other (List.mem_append_left _ member)
      intro fetch member
      apply append
      cases fetchComes_of_step (ConnectionSet.step_of_takes valid) member with
      | kept member => exact before fetch member
      | indexAsked => exact index _ _
      | fileAsked isRead =>
          obtain ⟨_, _, rest, isNext⟩ := ConnectionSet.reads_eq_some.mp isRead
          refine file _ _ _ _ _ (fileAsked_run prior ?_) fun other member =>
            allowed other (List.mem_append_left _ member)
          rw [isNext]
          exact List.mem_cons_self
      | woken _ member result => exact woken _ _ _ _ _ _ _ (before _ member) result
      | polled isPoll member result =>
          exact polled _ _ _ _ _ _ _ _ _ (allowed taken (by simp)) isPoll member
            (before _ (List.of_mem_zip member).1) result

section Sent

variable {env : Env} {set next : ConnectionSet}

/-- The packet belongs to a fetch, or its connection is there. -/
def ConnectionSet.Carries (set : ConnectionSet) (entry : Sent) : Prop :=
  entry.Fetches ∨ ∃ addr, set.active.lookup addr = some entry.conn

theorem Upload.not_fetches (up : Upload) (conn : Nat) : ¬ Sent.Fetches ⟨conn, .request up.request⟩ := by
  unfold Sent.Fetches Upload.request
  split <;> simp

theorem ConnectionSet.lookup_of_mem_links {order : List SocketAddr} {link : SocketAddr × Nat}
    (member : link ∈ set.links order) : set.active.lookup link.1 = some link.2 := by
  obtain ⟨addr, _, found⟩ := List.mem_filterMap.mp member
  obtain ⟨conn, isThere, rfl⟩ := Option.map_eq_some_iff.mp found
  exact isThere

theorem Upload.sends_wakeup (config : Config) (order : List SocketAddr) (sent : List Sent)
    (up : Upload) : Sends set.Carries sent (up.wakeup config (set.links order) sent).1 := by
  unfold Upload.wakeup
  split
  · refine List.foldlRecOn (motive := fun state : List Sent × Upload =>
      Sends set.Carries sent state.1) (set.links order) _ (.refl sent) ?_
    rintro ⟨before, up⟩ sends link member
    have carried : ∃ addr, set.active.lookup addr = some link.2 :=
      ⟨link.1, ConnectionSet.lookup_of_mem_links member⟩
    by_cases wants : up.Wants link.1
    · simp only [Upload.attach, wants, if_true]
      exact (sends.snoc (.inr carried)).snoc (.inr carried)
    · simp only [Upload.attach, wants, if_false]
      exact sends
  · exact .refl sent

theorem sends_step {op : Op} {answer : Run (List Resolution)}
    (step : SetStep env set op answer next) : Sends set.Carries set.sent next.sent := by
  have same : next.sent = set.sent → Sends set.Carries set.sent next.sent := by
    intro same
    rw [same]
    exact .refl set.sent
  cases step with
  | read _ _ handled => exact same (ConnectionSet.frame_handle handled).2.1
  | pollConnect _ connected => exact same (ConnectionSet.frame_pollConnect connected).2.1
  | pollPending => exact same (set.frame_pollPending _ _ _).2.1
  | wakeupUploads _ _ visited =>
      refine Run.inv_of_visit (fun sent => Sends set.Carries set.sent sent) visited (.refl _) ?_
      intro up _ before after out stepped sends
      have isAfter : _ = after := congrArg Prod.fst (Except.ok.inj stepped)
      rw [← isAfter]
      exact sends.trans (Upload.sends_wakeup _ _ _ _)
  | wakeupFetches _ _ visited =>
      refine Run.inv_of_visit (fun sent => Sends set.Carries set.sent sent) visited (.refl _) ?_
      intro fetch _ before after out woken sends
      exact sends.trans ((Fetch.sends_wakeup woken).mono fun _ isFetch => .inl isFetch)
  | pollFetches _ _ visited =>
      refine Run.inv_of_visit (fun state : List Sent × List Pointer =>
        Sends set.Carries set.sent state.1) visited (.refl _) ?_
      intro item _ before after out polled sends
      exact sends.trans ((Fetch.sends_poll polled).mono fun _ isFetch => .inl isFetch)
  | _ => exact .refl _

end Sent

end Ciruela.Cluster
