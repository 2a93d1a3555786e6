import Ciruela.Cluster.Upload

/-!
# The connections of a client

A client keeps a set of connections to the servers of a cluster and runs its uploads and
fetches over them. The set is a future: each poll reads the messages that have come in,
makes connections, takes over those that are there, sends requests and looks at the
answers, in this order and again as long as something has changed.

Connections are numbered in the order they are made, and requests in the order they are
sent. What is left open to the program (the samples it draws, the order of a hash map, the
answers that are there when it looks) is part of an operation. Something can happen to a
connection at any moment, also between two steps of a poll. The set keeps a sender of its own
channel, so the channel never ends and a poll is never the last.
-/

namespace Ciruela.Cluster

open Foundation Proto
open Remote (SocketAddr Failure)

section Failures

variable {Key : Type} [DecidableEq Key] (items : Map Key Failure)

/-- `RETRY_TIME`. -/
def retryTime : Nat := 10 ^ 9

/-- `SLOW_RETRY_TIME`. -/
def slowRetryTime : Nat := 10 * 10 ^ 9

/-- `Failures::add_failure`; the counter does not overflow. -/
def addFailure (key : Key) (now : Nat) : Map Key Failure :=
  let before := ((items.lookup key).map Failure.subsequent).getD 0
  items.insert key ⟨min (before + 1) (2 ^ 32 - 1), now⟩

/-- `FailureTracker::can_try`: the wait grows with the number of failures in a row. -/
def canTry (retry now : Nat) (key : Key) : Bool :=
  match items.lookup key with
  | none => true
  | some failure => decide (retry * failure.subsequent < now - failure.last)

end Failures

/-- `proto::Error`. -/
inductive RequestError where
  | unexpectedTermination
  | indexNotFound
  | blockNotFound
  | indexParseError
  | cantReadBlock
deriving DecidableEq

/-- The channel a reply is waited for on. -/
inductive Channel (Reply : Type) where
  | empty
  | value (reply : Reply)
  | canceled

/-- What polling a future gives. -/
inductive Polled (Reply : Type) where
  | notReady
  | ready (reply : Reply)
  | error (error : RequestError)

/-- `RequestFuture::poll`. -/
def Channel.poll {Reply : Type} : Channel Reply → Polled Reply
  | empty => .notReady
  | value reply => .ready reply
  | canceled => .error .unexpectedTermination

/-- What is sent over a connection. -/
inductive Outgoing where
  | notification (notification : Notification)
  | request (request : Proto.Request)

/-- A request that was put on a connection. -/
structure Sent where
  conn : Nat
  packet : Outgoing

/-- `AppendDirAck` or `ReplaceDirAck`, which have the same fields. -/
structure Ack where
  accepted : Bool
  rejectReason : Option (List Char)
  hosts : Map MachineId (List Char)

/-- `SignedUpload`: what is uploaded to which path, with the signatures of the client's keys. -/
structure SignedUpload where
  path : VPath
  imageId : ImageId
  timestamp : SystemTime
  signatures : List Signature

/-- The book of a new upload is empty. -/
structure NewUpload where
  replace : Bool
  weak : Bool
  upload : SignedUpload
  oldImage : Option ImageId

/-- `Upload`: a request of the client with its statistics, and where it was and is being sent. -/
structure Upload where
  replace : Bool
  weak : Bool
  oldImage : Option ImageId
  upload : SignedUpload
  stats : Stats
  connections : Map SocketAddr Nat
  /-- The requests without an answer, by their number. -/
  futures : Map SocketAddr Nat
  early : Nat
  deadline : Nat
  candidateHosts : Finset Name

/-- `dir_signature::v1::Hashes`. -/
structure Hashes where
  blockSize : Nat
  hashes : List (List UInt8)

/-- `FRequest`: an index is fetched whole, a file block after block into a buffer. -/
inductive FRequest where
  | index (future : Option Nat)
  | file (buf : List UInt8) (path : Path) (position : Nat) (hashes : Hashes) (future : Option Nat)

/-- What a location points to. -/
structure Pointer where
  vpath : VPath
  candidateHosts : Finset Name
  failures : Map SocketAddr Failure

/-- A location is shared, and known by its number. -/
structure Fetch where
  location : Nat
  connection : Option (SocketAddr × Nat)
  req : FRequest

/-- `Message`: what the channel of the connection set carries. -/
inductive Message where
  | newUpload (up : NewUpload)
  | fetchIndex (vpath : VPath)
  | fetchFile (path : Path) (location size : Nat) (hashes : Hashes)
  | notification (addr : SocketAddr) (notification : Notification)
  /-- The number of the connection is not in the message. -/
  | closed (addr : SocketAddr) (conn : Nat)

/-- How far a connection has come. -/
inductive Link where
  | connecting
  | established
  | refused
  | closed
deriving DecidableEq

/-- A connection that was made, to which address and how far it has come. -/
structure Made where
  addr : SocketAddr
  link : Link
deriving DecidableEq

/-- Where a poll has got to. -/
inductive Phase where
  | idle
  | reading
  | retrying
  | connecting
  | pending
  | wakingUploads
  | wakingFetches
  | pollingUploads
  | pollingFetches
  | panicked
deriving DecidableEq

/-- `ConnectionSet`: the connections and requests of a client, and where its poll stands. -/
structure ConnectionSet where
  initialAddr : AddrCell
  chan : List Message
  failures : Map SocketAddr Failure
  pending : Map SocketAddr Nat
  active : Map SocketAddr Nat
  uploads : List Upload
  fetches : List Fetch
  pendingAddrs : Finset Name
  failedAddrs : Map Name Failure
  addrs : Map Name (Finset SocketAddr)
  retry : Nat
  phase : Phase
  /-- `repeat`: something has changed. -/
  again : Bool
  now : Nat
  locations : List Pointer
  made : List Made
  sent : List Sent

/-- What the connection set is given and does not change. -/
structure Env where
  config : Config
  /-- `Name::from_str`. -/
  parse : List Char → Option Name

/-- `ConnectionSet::spawn`. -/
def ConnectionSet.spawn (initialAddress : List Name) : ConnectionSet where
  initialAddr := .new initialAddress
  chan := []
  failures := ∅
  pending := ∅
  active := ∅
  uploads := []
  fetches := []
  pendingAddrs := ∅
  failedAddrs := ∅
  addrs := ∅
  retry := 10 ^ 9
  phase := .idle
  again := false
  now := 0
  locations := []
  made := []
  sent := []

/-- Names out of a list of hosts. -/
def hostNames (parse : List Char → Option Name) (hosts : Map MachineId (List Char)) : Finset Name :=
  (hosts.entries.filterMap fun entry => parse entry.2).toFinset

namespace Upload

variable (up : Upload)

/-- `start_upload`. -/
def start (config : Config) (now : Nat) (new : NewUpload) : Upload where
  replace := new.replace
  weak := new.weak
  oldImage := new.oldImage
  upload := new.upload
  stats := Stats.new new.upload.path new.weak
  connections := ∅
  futures := ∅
  early := now + config.earlyTimeout
  deadline := now + config.maximumTimeout
  candidateHosts := ∅

/-- A `ReceivedImage` is read. The path is compared twice, both times by its components. -/
def receivedImage (addr : SocketAddr) (img : ReceivedImage) : Upload :=
  if up.upload.path.place = img.path.place ∧
      (up.weak = true ∨ up.upload.path.place = img.path.place) then
    { up with stats := up.stats.receivedImage addr img }
  else up

/-- An `AbortedImage` is read. -/
def abortedImage (addr : SocketAddr) (img : AbortedImage) : Upload :=
  if up.upload.imageId = img.id ∧ (up.weak = true ∨ up.upload.path.place = img.path.place) then
    { up with stats := up.stats.abortedImage addr img }
  else up

/-- An upload forgets its connection to an address. -/
def disconnect (addr : SocketAddr) : Upload := { up with connections := up.connections.erase addr }

/-- The request for a server. -/
def request : Proto.Request :=
  if up.replace then
    .replaceDir ⟨up.upload.path, up.upload.imageId, up.oldImage, up.upload.timestamp,
      up.upload.signatures⟩
  else
    .appendDir ⟨up.upload.path, up.upload.imageId, up.upload.timestamp, up.upload.signatures⟩

/-- The connection is not used yet, and its server has not rejected the image. -/
def Wants (addr : SocketAddr) : Prop := addr ∉ up.connections ∧ up.stats.isRejected addr = false

instance (addr : SocketAddr) : Decidable (up.Wants addr) := inferInstanceAs (Decidable (_ ∧ _))

/-- Ask the server at the other end of a connection. -/
def attach (state : List Sent × Upload) (link : SocketAddr × Nat) : List Sent × Upload :=
  let (sent, up) := state
  if up.Wants link.1 then
    let sent := sent ++ [⟨link.2, .notification (.publishImage ⟨up.upload.imageId⟩)⟩]
    (sent ++ [⟨link.2, .request up.request⟩],
      { up with
        futures := up.futures.insert link.1 sent.length
        connections := up.connections.insert link.1 link.2 })
  else (sent, up)

/-- The body of `wakeup_uploads`. -/
def wakeup (config : Config) (active : List (SocketAddr × Nat)) (sent : List Sent) :
    List Sent × Upload :=
  if up.connections.keys.card < config.initialConnections.toNat then
    active.foldl attach (sent, up)
  else (sent, up)

/-- What `poll_upload` does with one future. -/
def pollFuture (env : Env) (now : Nat) (state : Map SocketAddr Failure × Upload)
    (answer : SocketAddr × Channel Ack) : Map SocketAddr Failure × Upload :=
  let (failures, up) := state
  let (addr, channel) := answer
  match channel.poll with
  | .notReady => (failures, up)
  | .ready resp =>
      let (accepted, stats) := up.stats.addResponse addr resp.accepted resp.rejectReason resp.hosts
      (failures,
        { up with
          candidateHosts := up.candidateHosts ∪ hostNames env.parse resp.hosts
          stats := stats
          connections := if accepted then up.connections else up.connections.erase addr
          futures := up.futures.erase addr })
  | .error error =>
      (if error ≠ .unexpectedTermination then addFailure failures addr now else failures,
        { up with
          connections := up.connections.erase addr
          futures := up.futures.erase addr })

/-- The part of `poll_upload` after the futures: the result, if there is one. -/
def finish (config : Config) (initial : AddrCell) (now : Nat) :
    Option (Except ErrorKind UploadOk) :=
  let early := decide (up.early ≤ now)
  let noCandidates := decide (up.candidateHosts = ∅)
  let checked := check up.stats config initial early noCandidates
  if up.futures = ∅ ∧ 0 < up.stats.totalResponses ∧ checked.isSome then checked
  else if up.deadline ≤ now then some (checked.getD (.error .deadlineReached))
  else none

/-- `poll_upload`. -/
def poll (env : Env) (initial : AddrCell) (now : Nat) (failures : Map SocketAddr Failure)
    (answers : List (SocketAddr × Channel Ack)) :
    Map SocketAddr Failure × Upload × Option (Except ErrorKind UploadOk) :=
  let (failures, up) := answers.foldl (pollFuture env now) (failures, up)
  (failures, up, up.finish env.config initial now)

end Upload

/-- `hash_at`. -/
def hashAt (hashes : Hashes) (position : Nat) : Run Proto.BlockHash := do
  if hashes.blockSize = 0 then .error (.overflow "attempt to divide by zero")
  let hash ← Run.expect hashes.hashes[position / hashes.blockSize]? "hashes no is correct"
  if fits : hash.length = 32 then return ⟨hash, fits⟩
  else .error (.expect "hash size is correct")

/-- A block is asked for with its place in the file. -/
def getBlock (vpath : VPath) (path : Path) (hashes : Hashes) (position : Nat) :
    Run Proto.Request := do
  let hash ← hashAt hashes position
  return .getBlock ⟨hash, some (vpath, path, position.toUInt64)⟩

/-- What an upload or a fetch comes to. -/
inductive Resolution where
  | upload (up : Upload) (result : Except ErrorKind UploadOk)
  | index (fetch : Fetch) (data : List UInt8)
  | file (fetch : Fetch) (buf : List UInt8)

/-- What the answers for one fetch are, and whether its caller has gone. -/
structure FetchPoll where
  index : Channel GetIndexAtResponse
  /-- Polled one after another; there is no answer after the last. -/
  blocks : List (Channel GetBlockResponse)
  canceled : Bool

namespace Fetch

variable (fetch : Fetch)

/-- Ask over a connection, whatever was asked over another before. -/
def ask (pointer : Pointer) (state : List Sent × Fetch) (link : SocketAddr × Nat) :
    Run (List Sent × Fetch) := do
  let (sent, fetch) := state
  match fetch.req with
  | .index _ =>
      return (sent ++ [⟨link.2, .request (.getIndexAt ⟨pointer.vpath⟩)⟩],
        { fetch with connection := some link, req := .index (some sent.length) })
  | .file buf path position hashes _ => do
      let request ← getBlock pointer.vpath path hashes position
      return (sent ++ [⟨link.2, .request request⟩],
        { fetch with
          connection := some link
          req := .file buf path position hashes (some sent.length) })

/-- The body of `wakeup_fetches`, which does not stop at the first connection. -/
def wakeup (now : Nat) (locations : List Pointer) (active : List (SocketAddr × Nat))
    (sent : List Sent) : Run (List Sent × Fetch) :=
  match fetch.connection, locations[fetch.location]? with
  | none, some pointer =>
      (active.filter fun link => canTry pointer.failures slowRetryTime now link.1).foldlM
        (ask pointer) (sent, fetch)
  | _, _ => .ok (sent, fetch)

/-- `connection.take()`: the server is not asked again for a while. -/
def fail (now : Nat) (locations : List Pointer) : List Pointer :=
  match fetch.connection with
  | none => locations
  | some link => locations.modify fetch.location fun pointer =>
      { pointer with failures := addFailure pointer.failures link.1 now }

/-- More hosts to fetch from. -/
def discover (names : Finset Name) (locations : List Pointer) : List Pointer :=
  locations.modify fetch.location fun pointer =>
    { pointer with candidateHosts := pointer.candidateHosts ∪ names }

/-- The loop of `poll_fetch` for a file: the data, once all of it is there. -/
def pollFile (now : Nat) : List (Channel GetBlockResponse) → List Sent × List Pointer → Fetch →
    Run ((List Sent × List Pointer) × Fetch × Option (List UInt8))
  | [], state, fetch => .ok (state, fetch, none)
  | channel :: rest, (sent, locations), fetch =>
      match fetch.req, locations[fetch.location]? with
      | .file buf path position hashes (some future), some pointer =>
          let failed := ((sent, fetch.fail now locations),
            { fetch with connection := none, req := .file buf path position hashes none }, none)
          match channel.poll with
          | .notReady => .ok ((sent, locations), fetch, none)
          | .error _ => .ok failed
          | .ready result =>
              let finish := position + result.data.length
              if buf.length < finish then .ok failed
              else
                let filled := buf.take position ++ result.data ++ buf.drop finish
                if finish = filled.length then
                  .ok ((sent, locations),
                    { fetch with req := .file filled path finish hashes (some future) },
                    some filled)
                else do
                  let link ← Run.expect fetch.connection
                    "called `Option::unwrap()` on a `None` value"
                  let request ← getBlock pointer.vpath path hashes finish
                  pollFile now rest (sent ++ [⟨link.2, .request request⟩], locations)
                    { fetch with req := .file filled path finish hashes (some sent.length) }
      | _, _ => .ok ((sent, locations), fetch, none)

/-- `poll_fetch`: the fetch if it goes on, and what it has come to. -/
def poll (env : Env) (now : Nat) (state : List Sent × List Pointer) (item : Fetch × FetchPoll) :
    Run ((List Sent × List Pointer) × Option Fetch × Option Resolution) := do
  let (sent, locations) := state
  let (fetch, answers) := item
  let going (fetch : Fetch) : Option Fetch := if answers.canceled then none else some fetch
  match fetch.req with
  | .index none => return (state, going fetch, none)
  | .index (some _) =>
      match answers.index.poll with
      | .notReady => return (state, going fetch, none)
      | .ready result =>
          match result.data with
          | some data => return (state, none, some (.index fetch data))
          | none =>
              let locations := fetch.discover (hostNames env.parse result.hosts)
                (fetch.fail now locations)
              return ((sent, locations),
                going { fetch with connection := none, req := .index none }, none)
      | .error _ =>
          return ((sent, fetch.fail now locations),
            going { fetch with connection := none, req := .index none }, none)
  | .file _ _ _ _ _ => do
      let (state, fetch, data) ← fetch.pollFile now answers.blocks state
      match data with
      | some buf => return (state, none, some (.file fetch buf))
      | none => return (state, going fetch, none)

end Fetch

/-- `sample_iter(..).unwrap_or_else(|v| v)`: so many of the pool, or all of it. -/
def Sampled {Item : Type} (picked : List Item) (pool : Multiset Item) (amount : Nat) : Prop :=
  (picked : Multiset Item) ≤ pool ∧ picked.length = min amount pool.card

instance {Item : Type} [DecidableEq Item] (picked : List Item) (pool : Multiset Item)
    (amount : Nat) : Decidable (Sampled picked pool amount) :=
  inferInstanceAs (Decidable (_ ∧ _))

/-- A hash map is gone through in this order. -/
def Enumerates {Key : Type} [DecidableEq Key] (order : List Key) (keys : Finset Key) : Prop :=
  order.Nodup ∧ order.toFinset = keys

instance {Key : Type} [DecidableEq Key] (order : List Key) (keys : Finset Key) :
    Decidable (Enumerates order keys) :=
  inferInstanceAs (Decidable (_ ∧ _))

/-- What is drawn where a new connection is looked for. -/
structure Draw where
  /-- `pick_one`. -/
  pick : Name → SocketAddr
  resolved : List SocketAddr
  toResolve : List Name
  initial : List SocketAddr

namespace ConnectionSet

variable (set : ConnectionSet)

/-- The address of a name, if it has been looked up and has one. -/
def pickOne (pick : Name → SocketAddr) (name : Name) : Option SocketAddr :=
  (set.addrs.lookup name).bind fun address => if address = ∅ then none else some (pick name)

/-- Addresses are picked out of those of the name. -/
def PicksOne (pick : Name → SocketAddr) (names : Finset Name) : Prop :=
  ∀ name ∈ names, ∀ address ∈ set.addrs.lookup name, address ≠ ∅ → pick name ∈ address

instance (pick : Name → SocketAddr) (names : Finset Name) : Decidable (set.PicksOne pick names) :=
  inferInstanceAs (Decidable (∀ name ∈ names, ∀ address ∈ set.addrs.lookup name, _))

/-- An address without a connection that may be tried. -/
def Free (addr : SocketAddr) : Prop :=
  addr ∉ set.pending ∧ addr ∉ set.active ∧ canTry set.failures retryTime set.now addr = true

instance (addr : SocketAddr) : Decidable (set.Free addr) := inferInstanceAs (Decidable (_ ∧ _))

/-- Names that may be looked up. -/
def resolvable (names : Finset Name) : Finset Name :=
  names.filter fun name => canTry set.failedAddrs retryTime set.now name = true ∧
    name ∉ set.addrs ∧ name ∉ set.pendingAddrs

/-- `Client::spawn`, unless there is such a connection on its way. -/
def connect (addr : SocketAddr) : ConnectionSet :=
  if addr ∈ set.pending then set
  else
    { set with
      pending := set.pending.insert addr set.made.length
      made := set.made ++ [⟨addr, .connecting⟩] }

/-- The connections an upload may get, there or on their way. -/
def valid (up : Upload) : Nat :=
  (set.pending.keys.filter fun addr => up.stats.isRejected addr = false).card +
    (set.active.keys.filter fun addr => up.stats.isRejected addr = false).card

/-- `new_conns_for_upload`. -/
def newConnsForUpload (config : Config) (up : Upload) (draw : Draw) : Option ConnectionSet :=
  let initial := config.initialConnections.toNat
  if initial ≤ up.connections.keys.card ∨ initial ≤ set.valid up then some set
  else
    let pool := (up.candidateHosts.val.filterMap (set.pickOne draw.pick)).filter fun addr =>
      up.stats.isRejected addr = false ∧ set.Free addr
    if set.PicksOne draw.pick up.candidateHosts ∧ Sampled draw.resolved pool initial then
      let slotsLeft := initial - draw.resolved.length
      if slotsLeft = 0 then some (draw.resolved.foldl connect set)
      else
        let fallback := set.initialAddr.get.filter fun addr =>
          addr ∉ up.connections ∧ up.stats.isRejected addr = false ∧ set.Free addr
        if Sampled draw.toResolve (set.resolvable up.candidateHosts).val slotsLeft ∧
            Sampled draw.initial fallback.val slotsLeft then
          some ((draw.resolved ++ draw.initial).foldl connect
            { set with pendingAddrs := set.pendingAddrs ∪ draw.toResolve.toFinset })
        else none
    else none

/-- `new_conn_for_fetch`. An address of a discovered host is drawn, but only those of the
initial addresses are connected to. -/
def newConnForFetch (fetch : Fetch) (draw : Draw) : Option ConnectionSet :=
  match fetch.connection, set.locations[fetch.location]? with
  | none, some location =>
      let pool := (location.candidateHosts.val.filterMap (set.pickOne draw.pick)).filter fun addr =>
        canTry location.failures slowRetryTime set.now addr = true ∧ set.Free addr
      if set.PicksOne draw.pick location.candidateHosts ∧ Sampled draw.resolved pool 1 then
        if draw.resolved ≠ [] then some set
        else
          let fallback := set.initialAddr.get.filter fun addr =>
            set.Free addr ∧ canTry location.failures slowRetryTime set.now addr = true
          if Sampled draw.toResolve (set.resolvable location.candidateHosts).val 1 ∧
              Sampled draw.initial fallback.val 1 then
            some (draw.initial.foldl connect
              { set with pendingAddrs := set.pendingAddrs ∪ draw.toResolve.toFinset })
          else none
      else none
  | _, _ => some set

/-- `poll_connect`, with a draw for each upload and each fetch. -/
def pollConnect (config : Config) (uploads fetches : List Draw) : Option ConnectionSet := do
  let set ← (set.uploads.zip uploads).foldlM
    (fun set item => set.newConnsForUpload config item.1 item.2) set
  (set.fetches.zip fetches).foldlM (fun set item => set.newConnForFetch item.1 item.2) set

/-- One entry of `pending` in `poll_pending`. A connection that is closed by now was
established once, and its future still has it. -/
def settle (addr : SocketAddr) : ConnectionSet :=
  match set.pending.lookup addr with
  | none => set
  | some conn =>
      match (set.made[conn]?).map Made.link with
      | some .established | some .closed =>
          { set with
            pending := set.pending.erase addr
            active := set.active.insert addr conn }
      | some .refused =>
          { set with
            pending := set.pending.erase addr
            failures := addFailure set.failures addr set.now }
      | some .connecting | none => set

/-- One entry of `pending_addrs` in `poll_pending`. -/
def resolve (config : Config) (answer : Name × Lookup) : ConnectionSet :=
  match answer.2 with
  | .notReady => set
  | .found ips =>
      { set with
        pendingAddrs := set.pendingAddrs.erase answer.1
        addrs := set.addrs.insert answer.1 (withPort ips config.port) }
  | .failed =>
      { set with
        pendingAddrs := set.pendingAddrs.erase answer.1
        failedAddrs := addFailure set.failedAddrs answer.1 set.now }

/-- `poll_pending`. -/
def pollPending (config : Config) (order : List SocketAddr) (names : List (Name × Lookup)) :
    ConnectionSet :=
  names.foldl (fun set answer => set.resolve config answer) (order.foldl settle set)

/-- The connections in the order they are gone through. -/
def links (order : List SocketAddr) : List (SocketAddr × Nat) :=
  order.filterMap fun addr => (set.active.lookup addr).map fun conn => (addr, conn)

/-- One message in `read_messages`. -/
def handle (config : Config) : Message → Run ConnectionSet
  | .newUpload up => .ok { set with uploads := set.uploads ++ [.start config set.now up] }
  | .fetchIndex vpath =>
      .ok { set with
        locations := set.locations ++ [⟨vpath, ∅, ∅⟩]
        fetches := set.fetches ++ [⟨set.locations.length, none, .index none⟩] }
  | .fetchFile path location size hashes =>
      .ok { set with
        fetches := set.fetches ++
          [⟨location, none, .file (List.replicate size 0) path 0 hashes none⟩] }
  | .notification addr (.receivedImage img) =>
      .ok { set with uploads := set.uploads.map fun up => up.receivedImage addr img }
  | .notification addr (.abortedImage img) =>
      .ok { set with uploads := set.uploads.map fun up => up.abortedImage addr img }
  | .notification _ (.publishImage _) => .ok set
  | .closed addr _ =>
      if addr ∈ set.active then
        .ok { set with
          uploads := set.uploads.map fun up => up.disconnect addr
          active := set.active.erase addr }
      else .error (.expect "duplicate close")

end ConnectionSet

/-- What happens to the connections, what the application asks for, and the steps of a
poll. -/
inductive Op where
  /-- The handshake is done, and the connection is handed over. -/
  | established (conn : Nat)
  | refused (conn : Nat)
  /-- The dispatcher of a connection is dropped. -/
  | closed (conn : Nat)
  | notify (conn : Nat) (notification : Notification)
  | send (message : Message)
  | tick (time : Nat)
  /-- A poll begins with the initial addresses. -/
  | poll (answers : List Lookup)
  | readMessage
  | pollRetry
  | pollConnect (uploads fetches : List Draw)
  | pollPending (order : List SocketAddr) (names : List (Name × Lookup))
  | wakeupUploads (order : List SocketAddr)
  | wakeupFetches (order : List SocketAddr)
  | pollUploads (answers : List (List (SocketAddr × Channel Ack)))
  | pollFetches (answers : List FetchPoll)

/-- What the application can ask for. A file comes with the number of hashes `fetch_file`
asserts. -/
def Message.Asked (set : ConnectionSet) : Message → Prop
  | newUpload _ => True
  | fetchIndex _ => True
  | fetchFile _ location size hashes =>
      location < set.locations.length ∧ size < 2 ^ 64 - 1 ∧ 0 < hashes.blockSize ∧
        (size + hashes.blockSize + (2 ^ 64 - 1)) % 2 ^ 64 / hashes.blockSize = hashes.hashes.length
  | notification _ _ => False
  | closed _ _ => False

instance (set : ConnectionSet) : (message : Message) → Decidable (message.Asked set)
  | .newUpload _ => inferInstanceAs (Decidable True)
  | .fetchIndex _ => inferInstanceAs (Decidable True)
  | .fetchFile _ _ _ _ => inferInstanceAs (Decidable (_ ∧ _))
  | .notification _ _ => inferInstanceAs (Decidable False)
  | .closed _ _ => inferInstanceAs (Decidable False)

namespace ConnectionSet

variable (set : ConnectionSet)

/-- The connection has come so far. -/
def IsAt (conn : Nat) (link : Link) : Prop := (set.made[conn]?).map Made.link = some link

instance (conn : Nat) (link : Link) : Decidable (set.IsAt conn link) :=
  inferInstanceAs (Decidable (_ = _))

/-- A connection has come further. -/
def setLink (conn : Nat) (link : Link) : ConnectionSet :=
  { set with made := set.made.modify conn fun made => { made with link := link } }

/-- A message of a connection. -/
def report (conn : Nat) (message : SocketAddr → Message) : ConnectionSet :=
  { set with chan := set.chan ++ ((set.made[conn]?).map fun made => message made.addr).toList }

/-- One poll of every upload, with the answers that are there. -/
def pollUploads (env : Env) (answers : List (List (SocketAddr × Channel Ack))) :
    Run (Map SocketAddr Failure × List (Upload × Option (Except ErrorKind UploadOk))) :=
  Run.visit
    (fun failures item => .ok (item.1.poll env set.initialAddr set.now failures item.2))
    set.failures (set.uploads.zip answers)

/-- A step that does not panic. -/
def quiet (next : ConnectionSet) : Option (Run (List Resolution) × ConnectionSet) :=
  some (.ok [], next)

/-- A panic ends the poll. -/
def guarded {Value : Type} (run : Run Value) (next : Value → List Resolution × ConnectionSet) :
    Option (Run (List Resolution) × ConnectionSet) :=
  match run with
  | .ok value => some (.ok (next value).1, (next value).2)
  | .error panic => some (.error panic, { set with phase := .panicked })

/-- One step: something happens at a connection, the client asks for something, or the poll goes
on. -/
def exec (env : Env) : Op → Option (Run (List Resolution) × ConnectionSet)
  | .established conn =>
      if set.IsAt conn .connecting then quiet (set.setLink conn .established) else none
  | .refused conn => if set.IsAt conn .connecting then quiet (set.setLink conn .refused) else none
  | .closed conn =>
      if set.IsAt conn .established then
        quiet ((set.setLink conn .closed).report conn fun addr => .closed addr conn)
      else none
  | .notify conn note =>
      if set.IsAt conn .established then
        quiet (set.report conn fun addr => .notification addr note)
      else none
  | .send message =>
      if message.Asked set then quiet { set with chan := set.chan ++ [message] } else none
  | .tick time => quiet { set with now := set.now + time }
  | .poll answers =>
      if set.phase = .idle then
        quiet { set with
          initialAddr := set.initialAddr.poll env.config.port answers
          phase := .reading }
      else none
  | .readMessage =>
      if set.phase = .reading then
        match set.chan with
        | [] => quiet { set with phase := .retrying }
        | message :: rest =>
            set.guarded ({ set with chan := rest }.handle env.config message) fun next => ([], next)
      else none
  | .pollRetry =>
      if set.phase = .retrying then
        if set.retry ≤ set.now ∧ set.uploads ≠ [] then
          quiet { set with retry := set.now + 10 ^ 9, again := true, phase := .connecting }
        else quiet { set with again := false, phase := .connecting }
      else none
  | .pollConnect uploads fetches =>
      if set.phase = .connecting ∧ uploads.length = set.uploads.length ∧
          fetches.length = set.fetches.length then do
        let next ← set.pollConnect env.config uploads fetches
        quiet { next with
          again := set.again || decide (set.pending.keys.card ≠ next.pending.keys.card)
          phase := .pending }
      else none
  | .pollPending order names =>
      if set.phase = .pending ∧ Enumerates order set.pending.keys ∧
          Enumerates (names.map Prod.fst) set.pendingAddrs then
        let next := set.pollPending env.config order names
        quiet { next with
          again := set.again || decide (set.pending.keys.card ≠ next.pending.keys.card) ||
            decide (set.pendingAddrs.card ≠ next.pendingAddrs.card)
          phase := .wakingUploads }
      else none
  | .wakeupUploads order =>
      if set.phase = .wakingUploads ∧ Enumerates order set.active.keys then
        set.guarded
          (Run.visit (fun sent up => .ok (up.wakeup env.config (set.links order) sent)) set.sent
            set.uploads)
          fun visited =>
            ([], { set with sent := visited.1, uploads := visited.2, phase := .wakingFetches })
      else none
  | .wakeupFetches order =>
      if set.phase = .wakingFetches ∧ Enumerates order set.active.keys then
        set.guarded
          (Run.visit (fun sent fetch => fetch.wakeup set.now set.locations (set.links order) sent)
            set.sent set.fetches)
          fun visited =>
            ([], { set with sent := visited.1, fetches := visited.2, phase := .pollingUploads })
      else none
  | .pollUploads answers =>
      if set.phase = .pollingUploads ∧ answers.length = set.uploads.length ∧
          ∀ item ∈ set.uploads.zip answers,
            Enumerates (item.2.map Prod.fst) item.1.futures.keys then
        set.guarded (set.pollUploads env answers) fun visited =>
          (visited.2.filterMap fun item => item.2.map (Resolution.upload item.1),
            { set with
              failures := visited.1
              uploads := visited.2.filterMap fun item => if item.2.isSome then none else some item.1
              again := set.again || visited.2.any fun item => item.2.isSome
              phase := .pollingFetches })
      else none
  | .pollFetches answers =>
      if set.phase = .pollingFetches ∧ answers.length = set.fetches.length then
        set.guarded
          (Run.visit (Fetch.poll env set.now) (set.sent, set.locations) (set.fetches.zip answers))
          fun visited =>
            let fetches := visited.2.filterMap fun item => item.1
            (visited.2.filterMap fun item => item.2,
              { set with
                sent := visited.1.1
                locations := visited.1.2
                fetches := fetches
                phase := if set.again || decide (set.fetches.length ≠ fetches.length) then .retrying
                  else .idle })
      else none

/-- The set as a machine. -/
def machine (env : Env) : Machine ConnectionSet Op (Run (List Resolution)) where
  exec set op := set.exec env op

end ConnectionSet

/-- A step of a connection set. -/
abbrev SetEvent := Transition ConnectionSet Op (Run (List Resolution))

/-- What a step of the set can do. -/
inductive SetStep (env : Env) (set : ConnectionSet) :
    Op → Run (List Resolution) → ConnectionSet → Prop where
  | established {conn : Nat} (isAt : set.IsAt conn .connecting) :
      SetStep env set (.established conn) (.ok []) (set.setLink conn .established)
  | refused {conn : Nat} (isAt : set.IsAt conn .connecting) :
      SetStep env set (.refused conn) (.ok []) (set.setLink conn .refused)
  | closed {conn : Nat} (isAt : set.IsAt conn .established) :
      SetStep env set (.closed conn) (.ok [])
        ((set.setLink conn .closed).report conn fun addr => .closed addr conn)
  | notify {conn : Nat} {note : Notification} (isAt : set.IsAt conn .established) :
      SetStep env set (.notify conn note) (.ok [])
        (set.report conn fun addr => .notification addr note)
  | send {message : Message} (asked : message.Asked set) :
      SetStep env set (.send message) (.ok []) { set with chan := set.chan ++ [message] }
  | tick {time : Nat} : SetStep env set (.tick time) (.ok []) { set with now := set.now + time }
  | poll {answers : List Lookup} (idle : set.phase = .idle) :
      SetStep env set (.poll answers) (.ok [])
        { set with initialAddr := set.initialAddr.poll env.config.port answers, phase := .reading }
  | readNothing (reading : set.phase = .reading) (nothing : set.chan = []) :
      SetStep env set .readMessage (.ok []) { set with phase := .retrying }
  | read {message : Message} {rest : List Message} {next : ConnectionSet}
      (reading : set.phase = .reading) (isNext : set.chan = message :: rest)
      (handled : { set with chan := rest }.handle env.config message = .ok next) :
      SetStep env set .readMessage (.ok []) next
  | readPanicked {message : Message} {rest : List Message} {panic : Panic}
      (reading : set.phase = .reading) (isNext : set.chan = message :: rest)
      (panics : { set with chan := rest }.handle env.config message = .error panic) :
      SetStep env set .readMessage (.error panic) { set with phase := .panicked }
  /-- A panic in a later part of the poll. -/
  | panicked {op : Op} {panic : Panic} (later : op ≠ .readMessage) :
      SetStep env set op (.error panic) { set with phase := .panicked }
  | pollRetry {retry : Nat} {again : Bool} (retrying : set.phase = .retrying) :
      SetStep env set .pollRetry (.ok [])
        { set with retry := retry, again := again, phase := .connecting }
  | pollConnect {uploads fetches : List Draw} {next : ConnectionSet} {again : Bool}
      (connecting : set.phase = .connecting)
      (connected : set.pollConnect env.config uploads fetches = some next) :
      SetStep env set (.pollConnect uploads fetches) (.ok [])
        { next with again := again, phase := .pending }
  | pollPending {order : List SocketAddr} {names : List (Name × Lookup)} {again : Bool}
      (pending : set.phase = .pending) (enumerates : Enumerates order set.pending.keys)
      (enumeratesNames : Enumerates (names.map Prod.fst) set.pendingAddrs) :
      SetStep env set (.pollPending order names) (.ok [])
        { set.pollPending env.config order names with again := again, phase := .wakingUploads }
  | wakeupUploads {order : List SocketAddr} {sent : List Sent} {uploads : List Upload}
      (waking : set.phase = .wakingUploads) (enumerates : Enumerates order set.active.keys)
      (visited : Run.visit (fun sent (up : Upload) =>
        .ok (up.wakeup env.config (set.links order) sent)) set.sent set.uploads =
          .ok (sent, uploads)) :
      SetStep env set (.wakeupUploads order) (.ok [])
        { set with sent := sent, uploads := uploads, phase := .wakingFetches }
  | wakeupFetches {order : List SocketAddr} {sent : List Sent} {fetches : List Fetch}
      (waking : set.phase = .wakingFetches) (enumerates : Enumerates order set.active.keys)
      (visited : Run.visit (fun sent (fetch : Fetch) =>
        fetch.wakeup set.now set.locations (set.links order) sent) set.sent set.fetches =
          .ok (sent, fetches)) :
      SetStep env set (.wakeupFetches order) (.ok [])
        { set with sent := sent, fetches := fetches, phase := .pollingUploads }
  | pollUploads {answers : List (List (SocketAddr × Channel Ack))}
      {failures : Map SocketAddr Failure}
      {polled : List (Upload × Option (Except ErrorKind UploadOk))} {again : Bool}
      (polling : set.phase = .pollingUploads) (same : answers.length = set.uploads.length)
      (enumerates : ∀ item ∈ set.uploads.zip answers,
        Enumerates (item.2.map Prod.fst) item.1.futures.keys)
      (visited : set.pollUploads env answers = .ok (failures, polled)) :
      SetStep env set (.pollUploads answers)
        (.ok (polled.filterMap fun item => item.2.map (Resolution.upload item.1)))
        { set with
          failures := failures
          uploads := polled.filterMap fun item => if item.2.isSome then none else some item.1
          again := again
          phase := .pollingFetches }
  | pollFetches {answers : List FetchPoll} {sent : List Sent} {locations : List Pointer}
      {polled : List (Option Fetch × Option Resolution)} {phase : Phase}
      (polling : set.phase = .pollingFetches) (same : answers.length = set.fetches.length)
      (visited : Run.visit (Fetch.poll env set.now) (set.sent, set.locations)
        (set.fetches.zip answers) = .ok ((sent, locations), polled)) :
      SetStep env set (.pollFetches answers) (.ok (polled.filterMap fun item => item.2))
        { set with
          sent := sent
          locations := locations
          fetches := polled.filterMap fun item => item.1
          phase := phase }

namespace ConnectionSet

variable {env : Env} {set next : ConnectionSet} {answer : Run (List Resolution)}

theorem guarded_eq_some {Value : Type} {run : Run Value}
    {after : Value → List Resolution × ConnectionSet}
    (stepped : set.guarded run after = some (answer, next)) :
    (∃ value, run = .ok value ∧ answer = .ok (after value).1 ∧ next = (after value).2) ∨
      ∃ panic, run = .error panic ∧ answer = .error panic ∧
        next = { set with phase := .panicked } := by
  cases run with
  | ok value =>
      obtain ⟨rfl, rfl⟩ := Prod.mk.inj (Option.some.inj stepped)
      exact .inl ⟨value, rfl, rfl, rfl⟩
  | error panic =>
      obtain ⟨rfl, rfl⟩ := Prod.mk.inj (Option.some.inj stepped)
      exact .inr ⟨panic, rfl, rfl, rfl⟩

theorem quiet_eq_some {after : ConnectionSet} (stepped : quiet after = some (answer, next)) :
    answer = .ok [] ∧ next = after := by
  obtain ⟨rfl, rfl⟩ := Prod.mk.inj (Option.some.inj stepped)
  exact ⟨rfl, rfl⟩

theorem step_of_exec {op : Op} (moved : set.exec env op = some (answer, next)) :
    SetStep env set op answer next := by
  cases op with
  | established conn =>
      obtain ⟨isAt, moved⟩ := Option.ite_none_right_eq_some.mp moved
      obtain ⟨rfl, rfl⟩ := quiet_eq_some moved
      exact .established isAt
  | refused conn =>
      obtain ⟨isAt, moved⟩ := Option.ite_none_right_eq_some.mp moved
      obtain ⟨rfl, rfl⟩ := quiet_eq_some moved
      exact .refused isAt
  | closed conn =>
      obtain ⟨isAt, moved⟩ := Option.ite_none_right_eq_some.mp moved
      obtain ⟨rfl, rfl⟩ := quiet_eq_some moved
      exact .closed isAt
  | notify conn note =>
      obtain ⟨isAt, moved⟩ := Option.ite_none_right_eq_some.mp moved
      obtain ⟨rfl, rfl⟩ := quiet_eq_some moved
      exact .notify isAt
  | send message =>
      obtain ⟨asked, moved⟩ := Option.ite_none_right_eq_some.mp moved
      obtain ⟨rfl, rfl⟩ := quiet_eq_some moved
      exact .send asked
  | tick time =>
      obtain ⟨rfl, rfl⟩ := quiet_eq_some moved
      exact .tick
  | poll answers =>
      obtain ⟨idle, moved⟩ := Option.ite_none_right_eq_some.mp moved
      obtain ⟨rfl, rfl⟩ := quiet_eq_some moved
      exact .poll idle
  | readMessage =>
      obtain ⟨reading, moved⟩ := Option.ite_none_right_eq_some.mp moved
      split at moved
      · rename_i nothing
        obtain ⟨rfl, rfl⟩ := quiet_eq_some moved
        exact .readNothing reading nothing
      · rename_i message rest isNext
        rcases guarded_eq_some moved with ⟨value, handled, rfl, rfl⟩ | ⟨panic, panics, rfl, rfl⟩
        · exact .read reading isNext handled
        · exact .readPanicked reading isNext panics
  | pollRetry =>
      obtain ⟨retrying, moved⟩ := Option.ite_none_right_eq_some.mp moved
      split at moved
      · obtain ⟨rfl, rfl⟩ := quiet_eq_some moved
        exact .pollRetry retrying
      · obtain ⟨rfl, rfl⟩ := quiet_eq_some moved
        exact .pollRetry retrying
  | pollConnect uploads fetches =>
      obtain ⟨⟨connecting, _⟩, moved⟩ := Option.ite_none_right_eq_some.mp moved
      obtain ⟨middle, connected, moved⟩ := Option.bind_eq_some_iff.mp moved
      obtain ⟨rfl, rfl⟩ := quiet_eq_some moved
      exact .pollConnect connecting connected
  | pollPending order names =>
      obtain ⟨⟨pending, enumerates, enumeratesNames⟩, moved⟩ :=
        Option.ite_none_right_eq_some.mp moved
      obtain ⟨rfl, rfl⟩ := quiet_eq_some moved
      exact .pollPending pending enumerates enumeratesNames
  | wakeupUploads order =>
      obtain ⟨⟨waking, enumerates⟩, moved⟩ := Option.ite_none_right_eq_some.mp moved
      rcases guarded_eq_some moved with ⟨value, visited, rfl, rfl⟩ | ⟨panic, _, rfl, rfl⟩
      · exact .wakeupUploads waking enumerates visited
      · exact .panicked (by simp)
  | wakeupFetches order =>
      obtain ⟨⟨waking, enumerates⟩, moved⟩ := Option.ite_none_right_eq_some.mp moved
      rcases guarded_eq_some moved with ⟨value, visited, rfl, rfl⟩ | ⟨panic, _, rfl, rfl⟩
      · exact .wakeupFetches waking enumerates visited
      · exact .panicked (by simp)
  | pollUploads answers =>
      obtain ⟨⟨polling, same, enumerates⟩, moved⟩ := Option.ite_none_right_eq_some.mp moved
      rcases guarded_eq_some moved with ⟨value, visited, rfl, rfl⟩ | ⟨panic, _, rfl, rfl⟩
      · exact .pollUploads polling same enumerates visited
      · exact .panicked (by simp)
  | pollFetches answers =>
      obtain ⟨⟨polling, same⟩, moved⟩ := Option.ite_none_right_eq_some.mp moved
      rcases guarded_eq_some moved with ⟨value, visited, rfl, rfl⟩ | ⟨panic, _, rfl, rfl⟩
      · exact .pollFetches polling same visited
      · exact .panicked (by simp)

theorem step_of_takes {taken : SetEvent} (takes : (machine env).Takes taken) :
    SetStep env taken.before taken.op taken.answer taken.after :=
  step_of_exec takes

end ConnectionSet

/-- The connection a message reports closed. -/
def Message.closing : Message → Option (SocketAddr × Nat)
  | closed addr conn => some (addr, conn)
  | _ => none

theorem Message.closing_eq_some {message : Message} {addr : SocketAddr} {conn : Nat} :
    message.closing = some (addr, conn) ↔ message = .closed addr conn := by
  cases message <;> simp [closing]

/-- The image a message reports received. -/
def Message.received : Message → Option (SocketAddr × ReceivedImage)
  | notification addr (.receivedImage img) => some (addr, img)
  | _ => none

/-- The message that a step of `read_messages` takes. -/
def ConnectionSet.reads (set : ConnectionSet) : Op → Option Message
  | .readMessage => if set.phase = .reading then set.chan.head? else none
  | _ => none

theorem ConnectionSet.reads_eq_some {set : ConnectionSet} {op : Op} {message : Message} :
    set.reads op = some message ↔
      op = .readMessage ∧ set.phase = .reading ∧ ∃ rest, set.chan = message :: rest := by
  cases op with
  | readMessage =>
      simp only [reads, Option.ite_none_right_eq_some, List.head?_eq_some_iff, true_and]
  | _ => simp [reads]

namespace Sample

/-- So many connections are asked for. -/
def env (num : UInt32) : Env := ⟨{ Config.new with initialConnections := num }, some⟩

/-- A second server. -/
def neighbour : SocketAddr := ⟨[10, 0, 0, 2], 24783⟩

/-- An upload that is not weak. -/
def upload : NewUpload := ⟨false, false, ⟨keyDir, ⟨[1]⟩, unixEpoch, []⟩, none⟩

/-- Only initial addresses are connected to. -/
def draw (initial : List SocketAddr) : Draw := ⟨fun _ => server, [], [], initial⟩

/-- A round of a poll with one upload, which gets no answers. -/
def round (drawn pending active : List SocketAddr) (fetches : List Draw) : List Op :=
  [.pollRetry, .pollConnect [draw drawn] fetches, .pollPending pending [], .wakeupUploads active,
    .wakeupFetches active, .pollUploads [active.map fun addr => (addr, .empty)],
    .pollFetches (fetches.map fun _ => ⟨.empty, [], false⟩)]

/-- An upload is asked for, and a connection to the server is on its way. -/
def connecting : List Op :=
  [.send (.newUpload upload), .poll [.found [server.ip]], .readMessage, .readMessage] ++
    round [server] [server] [] [] ++ round [] [server] [] []

/-- The set takes the connection, and the upload uses it. -/
def taking : List Op :=
  connecting ++ [.established 0, .poll [], .readMessage] ++ round [] [server] [server] [] ++
    round [] [] [server] []

/-- The connection is closed after that. -/
def closing : List Op := taking ++ [.closed 0, .poll [], .readMessage]

/-- The connection is closed before the set is polled again. -/
def flapping : List Op := connecting ++ [.established 0, .closed 0, .poll [], .readMessage]

/-- An index is asked for too, so that there are connections to both servers. -/
def sharing : List Op :=
  [.send (.newUpload upload), .send (.fetchIndex keyDir),
    .poll [.found [server.ip, neighbour.ip]], .readMessage, .readMessage, .readMessage] ++
    round [server] [server, neighbour] [] [draw [neighbour]] ++
    round [] [server, neighbour] [] [draw []] ++
    [.established 0, .established 1, .poll [], .readMessage] ++
    round [] [server, neighbour] [server, neighbour] [draw []]

/-- The server reports that it has an image at the path of the upload. -/
def reporting (id : UInt8) : List Op :=
  taking ++ [.notify 0 (.receivedImage ⟨⟨[id]⟩, keyDir, [1], [], false⟩), .poll [], .readMessage]

/-- The steps of a run of the example. -/
def trace (env : Env) (ops : List Op) : List SetEvent :=
  ((ConnectionSet.machine env).play (.spawn ["a".toList]) ops).1

/-- The state that a run of the example ends in. -/
def result (env : Env) (ops : List Op) : ConnectionSet :=
  ((ConnectionSet.machine env).play (.spawn ["a".toList]) ops).2

theorem steps (env : Env) (ops : List Op) :
    (ConnectionSet.machine env).Steps (.spawn ["a".toList]) (trace env ops) (result env ops) :=
  .of_play _ _ _

end Sample

end Ciruela.Cluster
