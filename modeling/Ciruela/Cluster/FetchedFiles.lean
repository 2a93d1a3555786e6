import Ciruela.Cluster.SetFetches
import Ciruela.Foundation.Cut

/-!
# Fetched files

A file is filled from its beginning. How much of it is there is counted by what the servers
send, and not by the blocks that were asked for, and what they send is not compared with the
hash that it was asked for by.
-/

namespace Ciruela.Cluster

open Foundation Proto
open Remote (SocketAddr Failure)

section Filled

variable {buf data : List UInt8} {position : Nat}

/-- Filling in data that fits keeps the length of the buffer. -/
theorem Fetch.length_filled (fits : position + data.length ≤ buf.length) :
    (Fetch.filled buf position data).length = buf.length := by
  rw [Fetch.filled, List.length_append, List.length_append, List.length_take, List.length_drop]
  omega

end Filled

/-- What holds of a fetch whatever the servers send. -/
structure Fetch.Held (history : List SetEvent) (fetch : Fetch) : Prop where
  /-- What is waited for was asked for over the connection. -/
  connected : fetch.req.future.isSome = true → fetch.connection.isSome = true
  file : ∀ buf path position hashes future, fetch.req = .file buf path position hashes future →
    FileAsked history path fetch.location buf.length hashes ∧
      (position = 0 ∨ position < buf.length)

namespace Fetch.Held

variable {history : List SetEvent} {fetch : Fetch}

/-- A fetch of an index holds nothing yet. -/
theorem index (history : List SetEvent) (location : Nat) (connection : Option (SocketAddr × Nat)) :
    Held history ⟨location, connection, .index none⟩ where
  connected waits := by cases waits
  file := by simp

/-- A fetch of a file that was asked for starts with a buffer of its size. -/
theorem start {path : Path} {location size : Nat} {hashes : Hashes}
    (asked : FileAsked history path location size hashes) :
    Held history ⟨location, none, .file (List.replicate size 0) path 0 hashes none⟩ where
  connected waits := by cases waits
  file := by
    rintro _ _ _ _ _ same
    cases same
    rw [List.length_replicate]
    exact ⟨asked, .inl rfl⟩

/-- A fetch holds what it held, whatever happens next. -/
theorem append (held : fetch.Held history) (taken : SetEvent) :
    fetch.Held (history ++ [taken]) where
  connected := held.connected
  file buf path position hashes future isFile := by
    obtain ⟨asked, inside⟩ := held.file buf path position hashes future isFile
    exact ⟨asked.mono fun _ => List.mem_append_left _, inside⟩

/-- Asking changes nothing of what is held. -/
theorem ask (held : fetch.Held history) (link : SocketAddr × Nat) (number : Nat) :
    Held history { fetch with connection := some link, req := fetch.req.await number } where
  connected _ := rfl
  file buf path position hashes future isFile := by
    cases isReq : fetch.req with
    | index _ =>
        rw [isReq] at isFile
        cases isFile
    | file _ _ _ _ before =>
        rw [isReq] at isFile
        cases isFile
        exact held.file buf path position hashes before isReq

/-- The loop goes on, or ends without the data. -/
theorem round (held : fetch.Held history) {now : Nat} {channel : Channel GetBlockResponse}
    {state state' : List Sent × List Pointer} {fetch' : Fetch}
    {ends : Option (Option (List UInt8))} (isRound : Round now channel state fetch state' fetch' ends)
    (unfinished : ∀ buf, ends ≠ some (some buf)) : fetch'.Held history := by
  have dropped : ∀ {buf path position hashes future},
      fetch.req = .file buf path position hashes (some future) →
        (fetch.dropped buf path position hashes).Held history := by
    intro buf path position hashes future isFile
    refine ⟨by simp [Fetch.dropped, FRequest.future], ?_⟩
    rintro _ _ _ _ _ same
    cases same
    exact held.file buf path position hashes _ isFile
  cases isRound with
  | waits => exact held
  | canceled isFile => exact dropped isFile
  | tooLong isFile _ => exact dropped isFile
  | complete => exact absurd rfl (unfinished _)
  | next isFile fits further isConnected _ =>
      refine ⟨fun _ => by simp [isConnected], ?_⟩
      rintro _ _ _ _ _ same
      cases same
      obtain ⟨asked, _⟩ := held.file _ _ _ _ _ isFile
      rw [length_filled fits] at further ⊢
      exact ⟨asked, .inr (lt_of_le_of_ne fits further)⟩

/-- A poll that goes on keeps what is held. -/
theorem polled (held : fetch.Held history) {env : Env} {now : Nat} {answers : FetchPoll}
    {state after : List Sent × List Pointer} {next : Fetch} {result : Option Resolution}
    (polled : Fetch.poll env now state (fetch, answers) = .ok (after, some next, result)) :
    next.Held history := by
  cases polls_of_poll polled with
  | waits _ goesOn =>
      rw [goesOn next rfl]
      exact held
  | fails _ goesOn =>
      rw [goesOn next rfl]
      exact .index history _ none
  | fetches _ looped goesOn =>
      rw [goesOn next rfl]
      obtain ⟨_, kept⟩ := (inv_of_pollFile (fun _ _ fetch => fetch.Held history)
        (fun _ _ _ _ _ _ _ held isRound unfinished => held.round isRound unfinished) looped
        held).1 rfl
      exact kept

end Fetch.Held

/-- Every fetch of a run holds what it was asked for. -/
theorem held_run {env : Env} {names : List Name} {trace : List SetEvent} {set : ConnectionSet}
    (steps : (ConnectionSet.machine env).Steps (.spawn names) trace set) :
    ∀ fetch ∈ set.fetches, fetch.Held trace := by
  refine fetches_run (fun history fetch => fetch.Held history) (fun _ => True) ?_ ?_ ?_ ?_ ?_ steps
    (fun _ _ => trivial)
  · exact fun history location => .index history location none
  · exact fun history path location size hashes asked _ => .start asked
  · exact fun history taken fetch held => held.append taken
  · intro history fetch now locations active sent result held woken
    exact Fetch.inv_of_wakeup (fun state => state.2.Held history) woken held
      fun link _ state _ _ held => held.ask link _
  · intro history taken given fetch answers state after next result _ _ _ held polled
    exact held.polled polled

/-- The size and the hashes of a file that is asked for. -/
def Op.asksFile : Op → Option (Nat × Hashes)
  | send (.fetchFile _ _ size hashes) => some (size, hashes)
  | _ => none

/-- The step asks for blocks, or looks at what has come in. -/
def Op.servesFetches : Op → Bool
  | wakeupFetches _ => true
  | pollFetches _ => true
  | _ => false

section Blocks

variable {history : List SetEvent} {fetch : Fetch} {panic : Panic}

/-- Every file that was asked for has blocks, and a hash for each. -/
def AllWhole (history : List SetEvent) : Prop :=
  ∀ taken ∈ history, ∀ file ∈ taken.op.asksFile,
    file.2.hashes.length = blockCount file.2.blockSize file.1 ∧ 0 < file.1

/-- There is a hash at every place inside of a file. -/
theorem FileAsked.inside (whole : AllWhole history) {path : Path} {location size : Nat}
    {hashes : Hashes} (asked : FileAsked history path location size hashes) {position : Nat}
    (inside : position = 0 ∨ position < size) :
    0 < hashes.blockSize ∧ position < size ∧
      position / hashes.blockSize < hashes.hashes.length := by
  obtain ⟨taken, member, isOp, isAsked⟩ := asked
  obtain ⟨count, some⟩ := whole taken member (size, hashes) (by rw [isOp]; rfl)
  have positive : 0 < hashes.blockSize := isAsked.2.2.1
  have isInside : position < size := inside.elim (fun same => same ▸ some) id
  refine ⟨positive, isInside, ?_⟩
  rw [count]
  refine (lt_blockCount_iff positive).mpr (lt_of_le_of_lt ?_ isInside)
  exact Nat.div_mul_le_self position hashes.blockSize

/-- When every file has all its hashes, asking for a block panics on a hash of the wrong size
only. -/
theorem getBlock_error (whole : AllWhole history) {path : Path} {location size : Nat}
    {hashes : Hashes} (asked : FileAsked history path location size hashes) {position : Nat}
    (inside : position = 0 ∨ position < size) {vpath : VPath} {file : Path}
    (panics : getBlock vpath file hashes position = .error panic) :
    panic = .expect "hash size is correct" := by
  obtain ⟨positive, _, isHash⟩ := asked.inside whole inside
  rcases Run.bind_eq_error_iff.mp panics with noHash | ⟨_, _, returned⟩
  · exact hashAt_returns positive isHash noHash
  · cases returned

/-- The panics of a poll of a file. -/
theorem Fetch.Held.pollFile_error (held : fetch.Held history) (whole : AllWhole history)
    {now : Nat} {blocks : List (Channel GetBlockResponse)} {state : List Sent × List Pointer}
    (panics : fetch.pollFile now blocks state = .error panic) :
    panic = .expect "hash size is correct" := by
  induction blocks generalizing state fetch with
  | nil => cases panics
  | cons channel rest ih =>
      obtain ⟨result, buf, path, position, hashes, future, rfl, isFile, fits, further, isLost⟩ :=
        Fetch.pollFile_cons_error panics
      obtain ⟨asked, _⟩ := held.file _ _ _ _ _ isFile
      rcases isLost with unconnected | ⟨vpath, noRequest⟩ | ⟨state', fetch', round, later⟩
      · have isSome := held.connected (by rw [isFile]; rfl)
        rw [unconnected] at isSome
        cases isSome
      · rw [Fetch.length_filled fits] at further
        exact getBlock_error whole asked (.inr (lt_of_le_of_ne fits further)) noRequest
      · exact ih (held.round round (by simp)) later

/-- The panics of a poll of a fetch. -/
theorem Fetch.Held.poll_error (held : fetch.Held history) (whole : AllWhole history) {env : Env}
    {now : Nat} {answers : FetchPoll} {state : List Sent × List Pointer}
    (panics : Fetch.poll env now state (fetch, answers) = .error panic) :
    panic = .expect "hash size is correct" := by
  unfold Fetch.poll at panics
  dsimp only at panics
  split at panics
  · cases panics
  · split at panics
    · cases panics
    · split at panics <;> cases panics
    · cases panics
  · rcases Run.bind_eq_error_iff.mp panics with looped | ⟨⟨_, _, data⟩, _, returned⟩
    · exact held.pollFile_error whole looped
    · cases data <;> cases returned

/-- The panics of waking up a fetch. -/
theorem Fetch.Held.wakeup_error (held : fetch.Held history) (whole : AllWhole history)
    {now : Nat} {locations : List Pointer} {active : List (SocketAddr × Nat)} {sent : List Sent}
    (panics : fetch.wakeup now locations active sent = .error panic) :
    panic = .expect "hash size is correct" := by
  unfold Fetch.wakeup at panics
  split at panics
  · obtain ⟨link, _, ⟨before, fetch'⟩, held, asked⟩ :=
      Run.exists_of_foldlM_eq_error (fun state : List Sent × Fetch => state.2.Held history) panics
        held (by
          rintro link _ ⟨before, fetch'⟩ next stepped held
          obtain ⟨request, _, rfl⟩ := Fetch.ask_eq_ok stepped
          exact held.ask link _)
    unfold Fetch.ask at asked
    dsimp only at asked
    split at asked
    · cases asked
    · rename_i isFile
      obtain ⟨isAsked, inside⟩ := held.file _ _ _ _ _ isFile
      rcases Run.bind_eq_error_iff.mp asked with noRequest | ⟨_, _, returned⟩
      · exact getBlock_error whole isAsked inside noRequest
      · cases returned
  · cases panics

end Blocks

section Panics

variable {env : Env} {set next : ConnectionSet} {panic : Panic}

/-- A step for the fetches panics where it does for one of them. -/
theorem panics_of_exec {op : Op} (serves : op.servesFetches = true)
    (moved : set.exec env op = some (.error panic, next)) :
    (∃ fetch ∈ set.fetches, ∃ links sent,
      fetch.wakeup set.now set.locations links sent = .error panic) ∨
    ∃ fetch ∈ set.fetches, ∃ answers state,
      Fetch.poll env set.now state (fetch, answers) = .error panic := by
  have failed {Value : Type} {run : Run Value}
      {after : Value → List Resolution × ConnectionSet}
      (stepped : set.guarded run after = some (.error panic, next)) : run = .error panic := by
    rcases ConnectionSet.guarded_eq_some stepped with ⟨_, _, returned, _⟩ | ⟨other, fails, same, _⟩
    · cases returned
    · rw [fails, Except.error.inj same]
  cases op with
  | wakeupFetches order =>
      obtain ⟨_, moved⟩ := Option.ite_none_right_eq_some.mp moved
      obtain ⟨fetch, member, sent, woken⟩ := Run.exists_of_visit_eq_error (failed moved)
      exact .inl ⟨fetch, member, _, sent, woken⟩
  | pollFetches answers =>
      obtain ⟨_, moved⟩ := Option.ite_none_right_eq_some.mp moved
      obtain ⟨⟨fetch, given⟩, member, state, polled⟩ :=
        Run.exists_of_visit_eq_error (failed moved)
      exact .inr ⟨fetch, (List.of_mem_zip member).1, given, state, polled⟩
  | _ => cases serves

end Panics

/-- If every file that is fetched has a hash for each block and is not empty, then nothing panics
for a fetch but a hash that is not one, and every fetch of a file is at a place inside of the
file, has a hash there, and has the connection it waits for. -/
theorem fetches_in_range (env : Env) (names : List Name) {trace : List SetEvent}
    {set : ConnectionSet} (steps : (ConnectionSet.machine env).Steps (.spawn names) trace set)
    (whole : ∀ taken ∈ trace, ∀ file ∈ taken.op.asksFile,
      file.2.hashes.length = blockCount file.2.blockSize file.1)
    (nonempty : ∀ taken ∈ trace, ∀ file ∈ taken.op.asksFile, 0 < file.1) :
    (∀ taken ∈ trace, taken.op.servesFetches = true → ∀ panic, taken.answer = .error panic →
      panic = .expect "hash size is correct") ∧
    ∀ fetch ∈ set.fetches, ∀ buf path position hashes future,
      fetch.req = .file buf path position hashes future →
        FileAsked trace path fetch.location buf.length hashes ∧ position ≤ buf.length ∧
          position / hashes.blockSize < hashes.hashes.length ∧
            (future.isSome = true → fetch.connection.isSome = true) := by
  have all : AllWhole trace := fun taken member file isFile =>
    ⟨whole taken member file isFile, nonempty taken member file isFile⟩
  constructor
  · intro taken member serves panic panicked
    obtain ⟨front, back, rfl⟩ := List.append_of_mem member
    obtain ⟨first, takes, _⟩ := steps.cut
    have held := held_run first
    have before : AllWhole front := fun taken member => all taken (List.mem_append_left _ member)
    unfold Machine.Takes at takes
    rw [panicked] at takes
    rcases panics_of_exec serves takes with
      ⟨fetch, isFetch, links, sent, woken⟩ | ⟨fetch, isFetch, answers, state, polled⟩
    · exact (held fetch isFetch).wakeup_error before woken
    · exact (held fetch isFetch).poll_error before polled
  · intro fetch member buf path position hashes future isFile
    have held := held_run steps fetch member
    obtain ⟨asked, inside⟩ := held.file _ _ _ _ _ isFile
    obtain ⟨_, below, isHash⟩ := asked.inside all inside
    refine ⟨asked, below.le, isHash, fun waits => held.connected ?_⟩
    rwa [isFile]

namespace Sample

/-- The file that is fetched. -/
def file : Path := Path.ofText "/a".toList

/-- A round of a poll without uploads. -/
def fetchRound (drawn : List (List SocketAddr)) (pending active : List SocketAddr)
    (answers : List FetchPoll) : List Op :=
  [.pollRetry, .pollConnect [] (drawn.map draw), .pollPending pending [], .wakeupUploads active,
    .wakeupFetches active, .pollUploads [], .pollFetches answers]

/-- Nothing comes in, and the caller waits. -/
def nothing : FetchPoll := ⟨.empty, [], false⟩

/-- A file with these hashes is asked for at a place an index was asked for at, and there is a
connection to fetch it over. -/
def asking (size : Nat) (hashes : Hashes) : List Op :=
  [.send (.fetchIndex keyDir), .poll [.found [server.ip]], .readMessage,
    .send (.fetchFile file 0 size hashes), .readMessage, .readMessage] ++
    fetchRound [[server], []] [server] [] [nothing, nothing] ++
    fetchRound [[], []] [server] [] [nothing, nothing] ++
    [.established 0, .poll [], .readMessage] ++
    fetchRound [[], []] [server] [server] [nothing, nothing]

/-- Data is told apart by its first byte. -/
def digest (data : List UInt8) : List UInt8 := List.replicate 32 (data.headD 0)

/-- The hashes of a block of two bytes, and of one that is shorter. -/
def hashes : Hashes := ⟨2, [List.replicate 32 5, List.replicate 32 7]⟩

/-- A file of two blocks is fetched, and these replies come in. -/
def replying (replies : List (Channel GetBlockResponse)) : List Op :=
  asking 3 hashes ++ fetchRound [[], []] [] [server] [nothing, ⟨.empty, replies, false⟩]

end Sample

/-- The first block of a file has come in. -/
theorem fetches_in_range_first :
    let ops := Sample.replying [.value ⟨[5, 6]⟩]
    let set := Sample.result (Sample.env 3) ops
    (set.fetches.map fun fetch => match fetch.req with
      | .index _ => 0
      | .file _ _ position _ _ => position) = [0, 2] ∧
    ∀ fetch ∈ set.fetches, ∀ buf path position hashes future,
      fetch.req = .file buf path position hashes future →
        FileAsked (Sample.trace (Sample.env 3) ops) path fetch.location buf.length hashes ∧
          position ≤ buf.length ∧ position / hashes.blockSize < hashes.hashes.length ∧
            (future.isSome = true → fetch.connection.isSome = true) := by
  intro ops set
  exact ⟨by decide, (fetches_in_range _ _ (Sample.steps _ ops) (by decide) (by decide)).2⟩

/-- An empty file has no hash to ask for it by. -/
theorem empty_file_panics :
    ¬ ∀ env names (trace : List SetEvent) set,
      (ConnectionSet.machine env).Steps (.spawn names) trace set →
      (∀ taken ∈ trace, ∀ file ∈ taken.op.asksFile,
        file.2.hashes.length = blockCount file.2.blockSize file.1) →
      ∀ taken ∈ trace, taken.op.servesFetches = true → ∀ panic, taken.answer = .error panic →
        panic = .expect "hash size is correct" := by
  intro inRange
  have panics : ∃ taken ∈ Sample.trace (Sample.env 3) (Sample.asking 0 ⟨2, []⟩),
      taken.op.servesFetches = true ∧
        Run.panic taken.answer = some (.expect "hashes no is correct") := by
    decide
  obtain ⟨taken, member, serves, panics⟩ := panics
  have allowed := inRange _ _ _ _ (Sample.steps _ _) (by decide) taken member serves _
    (Run.panic_eq_some_iff.mp panics)
  exact absurd allowed (by decide)

section Verified

variable {digest : List UInt8 → List UInt8} {hashes : Hashes} {buf data : List UInt8}
  {position : Nat}

/-- The blocks before a position have the hashes of the index. -/
structure Verified (digest : List UInt8 → List UInt8) (hashes : Hashes) (buf : List UInt8)
    (position : Nat) : Prop where
  inside : position ≤ buf.length
  aligned : hashes.blockSize ∣ position ∨ position = buf.length
  blocks : ∀ number, number * hashes.blockSize < position →
    hashes.hashes[number]? = some (digest (blockAt hashes.blockSize buf number))

/-- Nothing of the buffer has to be verified yet. -/
theorem Verified.start (digest : List UInt8 → List UInt8) (hashes : Hashes) (buf : List UInt8) :
    Verified digest hashes buf 0 where
  inside := Nat.zero_le _
  aligned := .inl (Nat.dvd_zero _)
  blocks _ before := absurd before (Nat.not_lt_zero _)

/-- The data is the block at this position of a file, as long as the block there and with the
hash of the index, or it is nothing at all. -/
def IsBlock (digest : List UInt8 → List UInt8) (hashes : Hashes) (size position : Nat)
    (data : List UInt8) : Prop :=
  data ≠ [] → data.length = min hashes.blockSize (size - position) ∧
    hashes.hashes[position / hashes.blockSize]? = some (digest data)

instance (digest : List UInt8 → List UInt8) (hashes : Hashes) (size position : Nat)
    (data : List UInt8) : Decidable (IsBlock digest hashes size position data) :=
  inferInstanceAs (Decidable (data ≠ [] → _))

/-- The block that belongs at a position is put there. -/
theorem Verified.filled (verified : Verified digest hashes buf position)
    (positive : 0 < hashes.blockSize) (fits : position + data.length ≤ buf.length)
    (isBlock : IsBlock digest hashes buf.length position data) :
    Verified digest hashes (Fetch.filled buf position data) (position + data.length) := by
  have inside := verified.inside
  by_cases empty : data = []
  · subst empty
    have same : Fetch.filled buf position [] = buf := by
      simp [Fetch.filled]
    rw [same]
    exact verified
  · obtain ⟨whole, isHash⟩ := isBlock empty
    have atEnd : position ≠ buf.length := by
      have some := List.length_pos_iff.mpr empty
      omega
    obtain ⟨count, rfl⟩ := verified.aligned.resolve_right atEnd
    have length : (buf.take (hashes.blockSize * count)).length = count * hashes.blockSize := by
      rw [List.length_take, Nat.min_eq_left inside, Nat.mul_comm]
    refine ⟨by rwa [Fetch.length_filled fits], ?_, ?_⟩
    · rw [Fetch.length_filled fits]
      rcases Nat.le_total hashes.blockSize (buf.length - hashes.blockSize * count) with long | short
      · rw [whole, Nat.min_eq_left long]
        exact .inl (Dvd.intro (count + 1) rfl)
      · exact .inr (by omega)
    · intro number before
      have upTo : number < count + 1 := by
        have bound : number * hashes.blockSize < (count + 1) * hashes.blockSize := by
          rw [Nat.succ_mul, Nat.mul_comm count]
          omega
        exact Nat.lt_of_mul_lt_mul_right bound
      rcases Nat.lt_succ_iff_lt_or_eq.mp upTo with earlier | rfl
      · -- a block that was there is left as it is
        have within : (number + 1) * hashes.blockSize ≤
            (buf.take (hashes.blockSize * count)).length := by
          rw [length]
          exact Nat.mul_le_mul_right _ earlier
        have old := verified.blocks number (by
          rw [Nat.mul_comm hashes.blockSize]
          exact (Nat.mul_lt_mul_right positive).mpr earlier)
        rw [Fetch.filled, List.append_assoc, blockAt_append_of_le within, old,
          ← blockAt_append_of_le within (buf.drop (hashes.blockSize * count)), List.take_append_drop]
      · rw [Nat.mul_div_cancel_left _ positive] at isHash
        rw [Fetch.filled, blockAt_append_append length, isHash]
        rw [List.length_drop]
        omega

end Verified

/-- Every reply that is copied into the file is the block that was asked for. One that is longer
than what is left of the file is refused, and nothing is looked at after it. -/
def Served (digest : List UInt8 → List UInt8) (hashes : Hashes) (size : Nat) :
    Nat → List (Channel GetBlockResponse) → Prop
  | position, .value result :: rest =>
      position + result.data.length ≤ size →
        IsBlock digest hashes size position result.data ∧
          Served digest hashes size (position + result.data.length) rest
  | _, _ => True

instance (digest : List UInt8 → List UInt8) (hashes : Hashes) (size : Nat) :
    (position : Nat) → (blocks : List (Channel GetBlockResponse)) →
      Decidable (Served digest hashes size position blocks)
  | position, .value result :: rest =>
      have := instDecidableServed digest hashes size (position + result.data.length) rest
      inferInstanceAs (Decidable (_ → _ ∧ _))
  | _, [] => .isTrue trivial
  | _, .empty :: _ => .isTrue trivial
  | _, .canceled :: _ => .isTrue trivial

/-- What is copied for a fetch are the blocks it has asked for. -/
def FRequest.Served (digest : List UInt8 → List UInt8) (blocks : List (Channel GetBlockResponse)) :
    FRequest → Prop
  | file buf _ position hashes (some _) => Cluster.Served digest hashes buf.length position blocks
  | _ => True

instance (digest : List UInt8 → List UInt8) (blocks : List (Channel GetBlockResponse)) :
    (req : FRequest) → Decidable (req.Served digest blocks)
  | .file buf _ position hashes (some _) =>
      inferInstanceAs (Decidable (Cluster.Served digest hashes buf.length position blocks))
  | .file _ _ _ _ none => .isTrue trivial
  | .index _ => .isTrue trivial

/-- What a step finds for the fetches. -/
def Op.fetchPolls : Op → List FetchPoll
  | pollFetches given => given
  | _ => []

/-- The replies that a step copies are the blocks that were asked for. -/
def ServesBlocks (digest : List UInt8 → List UInt8) (set : ConnectionSet) (op : Op) : Prop :=
  ∀ item ∈ set.fetches.zip op.fetchPolls, item.1.req.Served digest item.2.blocks

instance (digest : List UInt8 → List UInt8) (set : ConnectionSet) (op : Op) :
    Decidable (ServesBlocks digest set op) :=
  inferInstanceAs (Decidable (∀ item ∈ set.fetches.zip op.fetchPolls, _))

/-- The replies that a file is served with. -/
theorem FRequest.served_file {digest : List UInt8 → List UInt8} {req : FRequest}
    {blocks : List (Channel GetBlockResponse)} {buf : List UInt8} {path : Path} {position : Nat}
    {hashes : Hashes} {number : Nat} (isFile : req = .file buf path position hashes (some number)) :
    req.Served digest blocks ↔ Cluster.Served digest hashes buf.length position blocks := by
  rw [isFile, FRequest.Served]

/-- Without replies a file is served well. -/
theorem FRequest.served_nil (digest : List UInt8 → List UInt8) (req : FRequest) :
    req.Served digest [] := by
  unfold FRequest.Served
  split <;> trivial

/-- What there is of a file has the hashes of the index. -/
def Fetch.Checked (digest : List UInt8 → List UInt8) (fetch : Fetch) : Prop :=
  ∀ buf path position hashes future, fetch.req = .file buf path position hashes future →
    Verified digest hashes buf position

namespace Fetch.Checked

variable {digest : List UInt8 → List UInt8} {history : List SetEvent} {fetch fetch' : Fetch}
  {now : Nat} {channel : Channel GetBlockResponse} {rest : List (Channel GetBlockResponse)}
  {state state' : List Sent × List Pointer} {ends : Option (Option (List UInt8))}

/-- Asking changes nothing of what is verified. -/
theorem ask (checked : fetch.Checked digest) (link : SocketAddr × Nat) (number : Nat) :
    Checked digest { fetch with connection := some link, req := fetch.req.await number } := by
  intro buf path position hashes future isFile
  cases isReq : fetch.req with
  | index _ =>
      rw [isReq] at isFile
      cases isFile
  | file _ _ _ _ before =>
      rw [isReq] at isFile
      cases isFile
      exact checked buf path position hashes before isReq

/-- What is copied into the file has the hash it was asked for by. -/
theorem round (checked : fetch.Checked digest) (held : fetch.Held history)
    (served : fetch.req.Served digest (channel :: rest))
    (isRound : Round now channel state fetch state' fetch' ends) : fetch'.Checked digest := by
  have positive {buf path position hashes future}
      (isFile : fetch.req = .file buf path position hashes future) : 0 < hashes.blockSize := by
    obtain ⟨⟨_, _, _, isAsked⟩, _⟩ := held.file _ _ _ _ _ isFile
    exact isAsked.2.2.1
  cases isRound with
  | waits => exact checked
  | canceled isFile =>
      rintro _ _ _ _ _ same
      cases same
      exact checked _ _ _ _ _ isFile
  | tooLong isFile _ =>
      rintro _ _ _ _ _ same
      cases same
      exact checked _ _ _ _ _ isFile
  | complete isFile fits _ =>
      rintro _ _ _ _ _ same
      cases same
      obtain ⟨isBlock, _⟩ := (FRequest.served_file isFile).mp served fits
      exact (checked _ _ _ _ _ isFile).filled (positive isFile) fits isBlock
  | next isFile fits _ _ _ =>
      rintro _ _ _ _ _ same
      cases same
      obtain ⟨isBlock, _⟩ := (FRequest.served_file isFile).mp served fits
      exact (checked _ _ _ _ _ isFile).filled (positive isFile) fits isBlock

end Fetch.Checked

/-- Of the replies that are left only blocks are copied as well. -/
theorem FRequest.served_round {digest : List UInt8 → List UInt8} {fetch fetch' : Fetch} {now : Nat}
    {channel : Channel GetBlockResponse} {rest : List (Channel GetBlockResponse)}
    {state state' : List Sent × List Pointer}
    (served : fetch.req.Served digest (channel :: rest))
    (isRound : Fetch.Round now channel state fetch state' fetch' none) :
    fetch'.req.Served digest rest := by
  cases isRound with
  | next isFile fits _ _ _ =>
      obtain ⟨_, later⟩ := (FRequest.served_file isFile).mp served fits
      rw [FRequest.served_file rfl, Fetch.length_filled fits]
      exact later

section Fetched

variable {digest : List UInt8 → List UInt8} {history : List SetEvent} {fetch next : Fetch}
  {now : Nat} {state after : List Sent × List Pointer} {data : Option (List UInt8)}
  {blocks : List (Channel GetBlockResponse)}

/-- As long as the replies that are copied are the blocks that were asked for, what is kept and
what the fetch comes to is checked. -/
theorem checked_of_pollFile (held : fetch.Held history) (checked : fetch.Checked digest)
    (served : fetch.req.Served digest blocks)
    (polled : fetch.pollFile now blocks state = .ok (after, next, data)) :
    next.Checked digest ∧ ∀ buf, data = some buf →
      ∃ path hashes future, next.req = .file buf path buf.length hashes future ∧
        FileAsked history path next.location buf.length hashes := by
  have rule := Fetch.inv_of_pollFile (fun rest _ fetch => fetch.Held history ∧
    fetch.Checked digest ∧ fetch.req.Served digest rest) ?_ polled ⟨held, checked, served⟩
  · cases data with
    | none =>
        obtain ⟨_, _, checked, _⟩ := rule.1 rfl
        exact ⟨checked, by simp⟩
    | some buf =>
        obtain ⟨channel, rest, before, fetch', ⟨held, checked, served⟩, last⟩ := rule.2 buf rfl
        refine ⟨checked.round held served last, ?_⟩
        intro other same
        obtain rfl := Option.some.inj same
        cases last with
        | complete isFile fits last =>
            obtain ⟨asked, _⟩ := held.file _ _ _ _ _ isFile
            refine ⟨_, _, _, by rw [← last], ?_⟩
            rwa [Fetch.length_filled fits]
  · rintro channel rest state fetch state' fetch' ends ⟨held, checked, served⟩ isRound unfinished
    refine ⟨held.round isRound unfinished, checked.round held served isRound, ?_⟩
    cases ends with
    | none => exact FRequest.served_round served isRound
    | some _ => exact FRequest.served_nil digest _

/-- A poll with good replies keeps what is verified. -/
theorem checked_of_poll (held : fetch.Held history) (checked : fetch.Checked digest)
    {env : Env} {answers : FetchPoll} (served : fetch.req.Served digest answers.blocks)
    {result : Option Resolution}
    (polled : Fetch.poll env now state (fetch, answers) = .ok (after, some next, result)) :
    next.Checked digest := by
  cases Fetch.polls_of_poll polled with
  | waits _ goesOn =>
      rw [goesOn next rfl]
      exact checked
  | fails _ goesOn =>
      rw [goesOn next rfl]
      intro _ _ _ _ _ same
      cases same
  | fetches _ looped goesOn =>
      rw [goesOn next rfl]
      exact (checked_of_pollFile held checked served looped).1

/-- A file that a step comes to is one that a fetch has come to. -/
theorem fetched_of_step {env : Env} {set set' : ConnectionSet} {op : Op}
    {resolutions : List Resolution} (step : SetStep env set op (.ok resolutions) set')
    {buf : List UInt8} (member : Resolution.file fetch buf ∈ resolutions) :
    ∃ given old answers state after, op = .pollFetches given ∧
      (old, answers) ∈ set.fetches.zip given ∧
        old.pollFile set.now answers.blocks state = .ok (after, fetch, some buf) := by
  cases step with
  | pollUploads =>
      obtain ⟨item, _, isFile⟩ := List.mem_filterMap.mp member
      obtain ⟨_, _, isUpload⟩ := Option.map_eq_some_iff.mp isFile
      cases isUpload
  | pollFetches _ _ visited =>
      obtain ⟨⟨kept, result⟩, isOut, isFile⟩ := List.mem_filterMap.mp member
      obtain rfl : result = some (.file fetch buf) := isFile
      obtain ⟨⟨old, answers⟩, isOld, state, after, polled⟩ :=
        Run.exists_of_mem_visit visited isOut
      cases Fetch.polls_of_poll polled with
      | fetched _ looped => exact ⟨_, old, answers, _, _, rfl, isOld, looped⟩
  | _ => simp at member

/-- In a run with good replies every fetch is verified as far as it has come. -/
theorem checked_run {env : Env} {names : List Name} {trace : List SetEvent} {set : ConnectionSet}
    (steps : (ConnectionSet.machine env).Steps (.spawn names) trace set)
    (served : ∀ taken ∈ trace, ServesBlocks digest taken.before taken.op) :
    ∀ fetch ∈ set.fetches, fetch.Held trace ∧ fetch.Checked digest := by
  refine fetches_run (fun history fetch => fetch.Held history ∧ fetch.Checked digest)
    (fun taken => ServesBlocks digest taken.before taken.op) ?_ ?_ ?_ ?_ ?_ steps served
  · exact fun history location => ⟨.index history location none, fun _ _ _ _ _ same => by cases same⟩
  · intro history path location size hashes asked _
    refine ⟨.start asked, ?_⟩
    rintro _ _ _ _ _ same
    cases same
    exact .start digest hashes _
  · rintro history taken fetch ⟨held, checked⟩
    exact ⟨held.append taken, checked⟩
  · intro history fetch now locations active sent result before woken
    exact Fetch.inv_of_wakeup (fun state => state.2.Held history ∧ state.2.Checked digest) woken
      before fun link _ state _ _ ⟨held, checked⟩ => ⟨held.ask link _, checked.ask link _⟩
  · rintro history taken given fetch answers state after next result served isPoll member
      ⟨held, checked⟩ polled
    exact ⟨held.polled polled,
      checked_of_poll held checked (served _ (by rw [isPoll]; exact member)) polled⟩

end Fetched

/-- If every reply that is copied is the block that was asked for, then a file that a fetch
comes to has the size it was asked for with, and each of its blocks has the hash of the index. -/
theorem fetched_files_match (digest : List UInt8 → List UInt8) (env : Env) (names : List Name)
    {trace : List SetEvent} {set : ConnectionSet}
    (steps : (ConnectionSet.machine env).Steps (.spawn names) trace set)
    (served : ∀ taken ∈ trace, ServesBlocks digest taken.before taken.op) :
    ∀ taken ∈ trace, ∀ resolutions, taken.answer = .ok resolutions →
      ∀ fetch buf, Resolution.file fetch buf ∈ resolutions →
        ∃ path hashes future, fetch.req = .file buf path buf.length hashes future ∧
          FileAsked trace path fetch.location buf.length hashes ∧
            ∀ number, number * hashes.blockSize < buf.length →
              hashes.hashes[number]? = some (digest (blockAt hashes.blockSize buf number)) := by
  intro taken member resolutions isAnswer fetch buf isFile
  obtain ⟨front, back, rfl⟩ := List.append_of_mem member
  obtain ⟨first, takes, _⟩ := steps.cut
  have step := ConnectionSet.step_of_takes takes
  rw [isAnswer] at step
  obtain ⟨given, old, answers, state, after, isPoll, isOld, looped⟩ := fetched_of_step step isFile
  obtain ⟨held, checked⟩ := checked_run first
    (fun earlier isEarlier => served earlier (List.mem_append_left _ isEarlier)) old
    (List.of_mem_zip isOld).1
  obtain ⟨checked, isData⟩ :=
    checked_of_pollFile held checked (served taken member _ (by rw [isPoll]; exact isOld)) looped
  obtain ⟨path, hashes, future, isReq, asked⟩ := isData buf rfl
  refine ⟨path, hashes, future, isReq, asked.mono ?_, (checked _ _ _ _ _ isReq).blocks⟩
  exact fun _ => List.mem_append_left _

/-- The files that a step comes to. -/
def Sample.files (taken : SetEvent) : List (List UInt8) :=
  match taken.answer with
  | .ok resolutions => resolutions.filterMap fun
      | .file _ buf => some buf
      | _ => none
  | .error _ => []

/-- The files of the example are resolved with. -/
theorem Sample.resolved_of_files {taken : SetEvent} {buf : List UInt8}
    (member : buf ∈ Sample.files taken) :
    ∃ resolutions fetch, taken.answer = .ok resolutions ∧ Resolution.file fetch buf ∈ resolutions := by
  unfold Sample.files at member
  split at member
  · rename_i resolutions isAnswer
    obtain ⟨resolution, isOut, isFile⟩ := List.mem_filterMap.mp member
    cases resolution with
    | file fetch data =>
        obtain rfl := Option.some.inj isFile
        exact ⟨resolutions, fetch, isAnswer, isOut⟩
    | _ => cases isFile
  · cases member

/-- Both blocks of a file come in. -/
theorem fetched_files_match_two :
    let trace := Sample.trace (Sample.env 3) (Sample.replying [.value ⟨[5, 6]⟩, .value ⟨[7]⟩])
    trace.flatMap Sample.files = [[5, 6, 7]] ∧
    ∀ taken ∈ trace, ∀ resolutions, taken.answer = .ok resolutions →
      ∀ fetch buf, Resolution.file fetch buf ∈ resolutions →
        ∃ path hashes future, fetch.req = .file buf path buf.length hashes future ∧
          FileAsked trace path fetch.location buf.length hashes ∧
            ∀ number, number * hashes.blockSize < buf.length →
              hashes.hashes[number]? =
                some (Sample.digest (blockAt hashes.blockSize buf number)) := by
  intro trace
  exact ⟨by decide, fetched_files_match Sample.digest _ _ (Sample.steps _ _) (by decide)⟩

/-- A server sends something else in place of the first block, and the file is made of it. -/
theorem other_block_accepted :
    ¬ ∀ (digest : List UInt8 → List UInt8) env names (trace : List SetEvent) set,
      (ConnectionSet.machine env).Steps (.spawn names) trace set →
      ∀ taken ∈ trace, ∀ resolutions, taken.answer = .ok resolutions →
        ∀ fetch buf, Resolution.file fetch buf ∈ resolutions →
          ∃ path hashes future, fetch.req = .file buf path buf.length hashes future ∧
            FileAsked trace path fetch.location buf.length hashes ∧
              ∀ number, number * hashes.blockSize < buf.length →
                hashes.hashes[number]? = some (digest (blockAt hashes.blockSize buf number)) := by
  intro matching
  have accepted : ∃ taken ∈ Sample.trace (Sample.env 3)
      (Sample.replying [.value ⟨[9, 6]⟩, .value ⟨[7]⟩]), [9, 6, 7] ∈ Sample.files taken := by
    decide
  have indexed : ∀ taken ∈ Sample.trace (Sample.env 3)
      (Sample.replying [.value ⟨[9, 6]⟩, .value ⟨[7]⟩]), ∀ file ∈ taken.op.asksFile,
        file.2.blockSize = 2 ∧ file.2.hashes[0]? = some (List.replicate 32 5) := by
    decide
  obtain ⟨taken, member, isFile⟩ := accepted
  obtain ⟨resolutions, fetch, isAnswer, isOut⟩ := Sample.resolved_of_files isFile
  obtain ⟨path, hashes, _, _, ⟨asking, isAsking, isOp, _⟩, blocks⟩ :=
    matching Sample.digest _ _ _ _ (Sample.steps _ _) taken member _ isAnswer fetch _ isOut
  obtain ⟨two, first⟩ := indexed asking isAsking (_, hashes) (by rw [isOp]; rfl)
  have isHash := blocks 0 (by simp)
  rw [first, two] at isHash
  exact absurd isHash (by decide)

end Ciruela.Cluster
