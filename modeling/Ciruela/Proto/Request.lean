import Ciruela.Foundation.Machine
import Ciruela.Proto.Message

/-!
# Requests and their answers

Requests of one connection go through a channel. Polling the packet stream takes the next
wrapper from the channel; a request gets its number then and is put into the registry. An
incoming response takes the request with its number out of the registry and completes the
one-shot channel the caller waits on, or drops it. Callers are known here by the number of
their one-shot channel.
-/

namespace Ciruela.Proto

open Foundation

/-- What the sending half of a one-shot channel has left behind. -/
inductive Fate where
  | value (reply : Reply)
  | canceled
deriving DecidableEq

/-- The receiving half of a one-shot channel. -/
inductive Receiver where
  | waiting
  | dropped
  /-- The future has returned what it got, after which it is not polled again. -/
  | resolved
deriving DecidableEq

/-- The two halves of a one-shot channel. -/
structure Oneshot where
  /-- Nothing as long as the sending half is there. -/
  fate : Option Fate
  receiver : Receiver
deriving DecidableEq

/-- `RequestWrap`. -/
structure RequestWrap where
  request : Request
  chan : Option Nat
deriving DecidableEq

/-- `Box<WrapTrait>`. -/
inductive Boxed where
  | request (wrap : RequestWrap)
  | other (wrap : Wrap)
deriving DecidableEq

/-- A connection: what is queued on it, and which requests wait for their answers. -/
structure Connection where
  /-- The channel to the packet stream. -/
  queue : List Boxed
  /-- The packet stream has been dropped. -/
  closed : Bool
  requests : Map UInt64 RequestWrap
  lastRequestId : UInt64
  oneshots : Map Nat Oneshot
  issued : Nat
deriving DecidableEq

/-- What happens to a connection. -/
inductive RequestOp where
  | request (request : Request)
  | notification (notification : Notification)
  | response (requestId : UInt64) (reply : Reply)
  | errorResponse (requestId : UInt64) (error : List Char)
  /-- `PacketStream::poll`. -/
  | poll
  /-- A response has arrived. -/
  | respond (requestId : UInt64) (response : Response)
  | pollFuture (future : Nat)
  | dropFuture (future : Nat)
  | dropStream
deriving DecidableEq

/-- What an operation gives. -/
inductive RequestAnswer where
  | done
  | future (future : Nat)
  /-- A request got its number. -/
  | serialized (chan : Option Nat) (requestId : UInt64) (packet : List UInt8)
  | packet (packet : List UInt8)
  | notReady
  | resolved (future : Nat) (fate : Fate)
deriving DecidableEq

namespace Connection

/-- A new connection. -/
def new : Connection := ⟨[], false, ∅, 0, ∅, 0⟩

variable (conn : Connection)

/-- What the sending half of a channel has left. -/
def fate (chan : Nat) : Option Fate := (conn.oneshots.lookup chan).bind Oneshot.fate

/-- The state of the receiving half of a channel. -/
def receiver (chan : Nat) : Option Receiver := (conn.oneshots.lookup chan).map Oneshot.receiver

/-- The sending half is used or dropped. What is sent to a future that is gone is lost. -/
def complete (chan : Nat) (fate : Fate) : Connection :=
  match conn.oneshots.lookup chan with
  | some ⟨none, .dropped⟩ =>
      { conn with oneshots := conn.oneshots.insert chan ⟨some .canceled, .dropped⟩ }
  | some ⟨none, receiver⟩ =>
      { conn with oneshots := conn.oneshots.insert chan ⟨some fate, receiver⟩ }
  | _ => conn

/-- A wrapper is dropped with the channel it may hold. -/
def dropWrap (wrap : RequestWrap) : Connection :=
  match wrap.chan with
  | some chan => conn.complete chan .canceled
  | none => conn

/-- Something that was queued is dropped. -/
def dropBoxed : Boxed → Connection
  | .request wrap => conn.dropWrap wrap
  | .other _ => conn

/-- `unbounded_send`: after the stream is gone the wrapper is dropped. -/
def send (boxed : Boxed) : Connection :=
  if conn.closed then conn.dropBoxed boxed else { conn with queue := conn.queue ++ [boxed] }

/-- `oneshot()`: a new channel. -/
def oneshot : Connection :=
  { conn with
    oneshots := conn.oneshots.insert conn.issued ⟨none, .waiting⟩
    issued := conn.issued + 1 }

/-- `RequestClient::request`. -/
def request (sent : Request) : Connection :=
  conn.oneshot.send (.request ⟨sent, some conn.issued⟩)

/-- The next number of a request, which must fit in 64 bits. -/
def increment (id : UInt64) : Run UInt64 :=
  if id.toNat + 1 < 2 ^ 64 then .ok (UInt64.ofNat (id.toNat + 1))
  else .error (.overflow "attempt to add with overflow")

/-- Go past numbers that are in use, of which there are no more than `bound`. -/
def skipUsed (requests : Map UInt64 RequestWrap) : Nat → UInt64 → Run UInt64
  | 0, id => .ok id
  | bound + 1, id =>
      if id ∈ requests then do
        let next ← increment id
        skipUsed requests bound next
      else .ok id

/-- The number of the next request. -/
def nextId : Run UInt64 := do
  let id ← increment conn.lastRequestId
  skipUsed conn.requests conn.requests.keys.card id

/-- `PacketStream::poll`. -/
def poll (codec : Codec) (order : Listing MachineId (List Char)) : Run (RequestAnswer × Connection) :=
  match conn.queue with
  | [] => .ok (.notReady, conn)
  | .request wrap :: rest => do
      let id ← conn.nextId
      let packet ← (Wrap.request wrap.request).serializeReq codec id
      return (.serialized wrap.chan id packet, { conn with
        queue := rest
        lastRequestId := id
        requests := conn.requests.insert id wrap })
  | .other wrap :: rest => do
      let packet ← wrap.serialize codec order
      return (.packet packet, { conn with queue := rest })

/-- `RequestDispatcher::respond`: a reply of another type than the request asks for, an error
and a reply that comes back too late drop the channel. -/
def respond (requestId : UInt64) (response : Response) : Run Connection :=
  match conn.requests.lookup requestId with
  | none => .ok conn
  | some wrap =>
      let conn := { conn with requests := conn.requests.erase requestId }
      match response with
      | .reply reply =>
          if wrap.request.type = reply.type then do
            let chan ← Run.expect wrap.chan "called `Option::unwrap()` on a `None` value"
            return conn.complete chan (.value reply)
          else return conn.dropWrap wrap
      | .error _ => do
          let chan ← Run.expect wrap.chan "called `Option::unwrap()` on a `None` value"
          return conn.complete chan .canceled

/-- `RequestFuture::poll`. -/
def pollFuture (future : Nat) : Option (RequestAnswer × Connection) :=
  match conn.oneshots.lookup future with
  | some ⟨none, .waiting⟩ => some (.notReady, conn)
  | some ⟨some fate, .waiting⟩ =>
      some (.resolved future fate, { conn with
        oneshots := conn.oneshots.insert future ⟨some fate, .resolved⟩ })
  | _ => none

/-- A future that is waited for is dropped. -/
def dropFuture (future : Nat) : Option Connection :=
  match conn.oneshots.lookup future with
  | some ⟨fate, .waiting⟩ =>
      some { conn with oneshots := conn.oneshots.insert future ⟨fate, .dropped⟩ }
  | _ => none

/-- The stream of packets is dropped, with all that is queued. -/
def dropStream : Connection :=
  conn.queue.foldl dropBoxed { conn with queue := [], closed := true }

/-- One step of a connection. -/
def exec (codec : Codec) (order : Listing MachineId (List Char)) :
    RequestOp → Option (RequestAnswer × Connection)
  | .request sent => some (.future conn.issued, conn.request sent)
  | .notification note => some (.done, conn.send (.other (.notification note)))
  | .response id reply => some (.done, conn.send (.other (.response id reply)))
  | .errorResponse id text => some (.done, conn.send (.other (.error id text)))
  | .poll => if conn.closed then none else (conn.poll codec order).toOption
  | .respond id response => (conn.respond id response).toOption.map fun next => (.done, next)
  | .pollFuture future => conn.pollFuture future
  | .dropFuture future => (conn.dropFuture future).map fun next => (.done, next)
  | .dropStream => if conn.closed then none else some (.done, conn.dropStream)

/-- A connection as a machine. A panic ends the run. -/
def machine (codec : Codec) (order : Listing MachineId (List Char)) :
    Machine Connection RequestOp RequestAnswer where
  exec conn op := conn.exec codec order op

end Connection

/-- A step of a connection. -/
abbrev RequestStep := Transition Connection RequestOp RequestAnswer

/-- Whether the operation is a request. -/
def RequestOp.isRequest : RequestOp → Bool
  | .request _ => true
  | _ => false

section History

/-- What a step does to the list of requests that were serialized and not answered. -/
def settle (waiting : List (Nat × UInt64)) (taken : RequestStep) : List (Nat × UInt64) :=
  match taken.op with
  | .respond id _ => waiting.filter fun entry => entry.2 ≠ id
  | _ =>
      match taken.answer with
      | .serialized (some chan) id _ => waiting ++ [(chan, id)]
      | _ => waiting

/-- The requests that were serialized and not answered, by channel and number. -/
def unanswered (trace : List RequestStep) : List (Nat × UInt64) := trace.foldl settle []

/-- A caller got this channel for this request. -/
def Requested (trace : List RequestStep) (chan : Nat) (sent : Request) : Prop :=
  ∃ taken ∈ trace, taken.op = .request sent ∧ taken.answer = .future chan

/-- The request of a channel was sent under a number. -/
def Serialized (trace : List RequestStep) (chan : Nat) (id : UInt64) : Prop :=
  ∃ taken ∈ trace, ∃ packet, taken.answer = .serialized (some chan) id packet

/-- A reply of the type the request asks for came in under the number of the request, after
it was sent under that number. -/
def Replied (trace : List RequestStep) (chan : Nat) (reply : Reply) : Prop :=
  ∃ front taken back id sent, trace = front ++ taken :: back ∧
    taken.op = .respond id (.reply reply) ∧ Serialized front chan id ∧
    Requested trace chan sent ∧ sent.type = reply.type

@[simp] theorem unanswered_append (trace : List RequestStep) (taken : RequestStep) :
    unanswered (trace ++ [taken]) = settle (unanswered trace) taken := by
  simp [unanswered]

/-- What was requested stays requested. -/
theorem Requested.append {trace : List RequestStep} {chan : Nat} {sent : Request}
    (requested : Requested trace chan sent) (taken : RequestStep) :
    Requested (trace ++ [taken]) chan sent := by
  obtain ⟨earlier, member, facts⟩ := requested
  exact ⟨earlier, List.mem_append_left _ member, facts⟩

/-- What was sent stays sent. -/
theorem Serialized.append {trace : List RequestStep} {chan : Nat} {id : UInt64}
    (serialized : Serialized trace chan id) (taken : RequestStep) :
    Serialized (trace ++ [taken]) chan id := by
  obtain ⟨earlier, member, packet, answer⟩ := serialized
  exact ⟨earlier, List.mem_append_left _ member, packet, answer⟩

/-- What was replied stays replied. -/
theorem Replied.append {trace : List RequestStep} {chan : Nat} {reply : Reply}
    (replied : Replied trace chan reply) (taken : RequestStep) :
    Replied (trace ++ [taken]) chan reply := by
  obtain ⟨front, response, back, id, sent, rfl, isResponse, serialized, requested, type⟩ := replied
  refine ⟨front, response, back ++ [taken], id, sent, ?_, isResponse, serialized,
    requested.append taken, type⟩
  simp

/-- Only answers and packets change what is unanswered. -/
theorem settle_of_ne_respond {waiting : List (Nat × UInt64)} {taken : RequestStep}
    (noResponse : ∀ id response, taken.op ≠ .respond id response)
    (noPacket : ∀ chan id packet, taken.answer ≠ .serialized (some chan) id packet) :
    settle waiting taken = waiting := by
  unfold settle
  split
  · rename_i id response isResponse
    exact absurd isResponse (noResponse id response)
  · split
    · rename_i chan id packet isPacket
      exact absurd isPacket (noPacket chan id packet)
    · rfl

/-- Only requests that were sent are waited for. -/
theorem serialized_of_unanswered {trace : List RequestStep} {chan : Nat} {id : UInt64}
    (waiting : (chan, id) ∈ unanswered trace) : Serialized trace chan id := by
  induction trace using List.reverseRecOn with
  | nil => simp [unanswered] at waiting
  | append_singleton trace taken ih =>
      rw [unanswered_append] at waiting
      unfold settle at waiting
      split at waiting
      · exact (ih (List.mem_of_mem_filter waiting)).append taken
      · split at waiting
        · rename_i found number packet isPacket
          rcases List.mem_append.mp waiting with earlier | now
          · exact (ih earlier).append taken
          · obtain ⟨rfl, rfl⟩ := Prod.mk.inj (List.mem_singleton.mp now)
            exact ⟨taken, by simp, packet, isPacket⟩
        · exact (ih waiting).append taken

end History

namespace Connection

/-- Nothing but the one-shot channels is changed. -/
structure Keeps (conn next : Connection) : Prop where
  queue : next.queue = conn.queue
  requests : next.requests = conn.requests
  lastRequestId : next.lastRequestId = conn.lastRequestId
  issued : next.issued = conn.issued

theorem Keeps.trans {conn middle next : Connection} (first : Keeps conn middle)
    (second : Keeps middle next) : Keeps conn next where
  queue := second.queue.trans first.queue
  requests := second.requests.trans first.requests
  lastRequestId := second.lastRequestId.trans first.lastRequestId
  issued := second.issued.trans first.issued

/-- Channels may be dropped; nothing that was received changes and no value is sent. -/
structure Quiet (conn next : Connection) : Prop where
  receiver : ∀ chan, next.receiver chan = conn.receiver chan
  kept : ∀ chan fate, conn.fate chan = some fate → next.fate chan = some fate
  noValue : ∀ chan reply, next.fate chan = some (.value reply) →
    conn.fate chan = some (.value reply)

theorem Quiet.of_oneshots {conn next : Connection} (same : next.oneshots = conn.oneshots) :
    Quiet conn next := by
  have fates (chan : Nat) : next.fate chan = conn.fate chan := by rw [fate, same, fate]
  refine ⟨?_, ?_, ?_⟩
  · intro chan
    rw [Connection.receiver, same, Connection.receiver]
  · intro chan fate
    rw [fates]
    exact id
  · intro chan reply
    rw [fates]
    exact id

/-- Nothing has moved. -/
theorem Quiet.refl (conn : Connection) : Quiet conn conn := .of_oneshots rfl

theorem Quiet.trans {conn middle next : Connection} (first : Quiet conn middle)
    (second : Quiet middle next) : Quiet conn next where
  receiver chan := (second.receiver chan).trans (first.receiver chan)
  kept chan fate found := second.kept chan fate (first.kept chan fate found)
  noValue chan reply found := first.noValue chan reply (second.noValue chan reply found)

/-- Completing a channel keeps all that is kept. -/
theorem keeps_complete (conn : Connection) (chan : Nat) (fate : Fate) :
    Keeps conn (conn.complete chan fate) := by
  unfold complete
  split <;> exact ⟨rfl, rfl, rfl, rfl⟩

/-- What completing a channel changes is the fate of that channel, and only where it had none. -/
theorem complete_cases (conn : Connection) (chan : Nat) (fate : Fate) :
    conn.complete chan fate = conn ∨
    ∃ receiver left, conn.oneshots.lookup chan = some ⟨none, receiver⟩ ∧
      (left = fate ∨ left = .canceled) ∧
      conn.complete chan fate =
        { conn with oneshots := conn.oneshots.insert chan ⟨some left, receiver⟩ } := by
  unfold complete
  split
  · rename_i found
    exact .inr ⟨.dropped, .canceled, found, .inr rfl, rfl⟩
  · rename_i receiver _ found
    exact .inr ⟨receiver, fate, found, .inl rfl, rfl⟩
  · exact .inl rfl

theorem fate_insert (conn : Connection) (chan other : Nat) (oneshot : Oneshot) :
    fate { conn with oneshots := conn.oneshots.insert chan oneshot } other =
      if other = chan then oneshot.fate else conn.fate other := by
  unfold fate
  rw [Map.lookup_insert_eq]
  split <;> rfl

theorem receiver_insert (conn : Connection) (chan other : Nat) (oneshot : Oneshot) :
    receiver { conn with oneshots := conn.oneshots.insert chan oneshot } other =
      if other = chan then some oneshot.receiver else conn.receiver other := by
  unfold receiver
  rw [Map.lookup_insert_eq]
  split <;> rfl

/-- Completing a channel does not move its receiver. -/
theorem receiver_complete (conn : Connection) (chan other : Nat) (fate : Fate) :
    (conn.complete chan fate).receiver other = conn.receiver other := by
  rcases conn.complete_cases chan fate with same | ⟨receiver, left, found, _, result⟩
  · rw [same]
  · rw [result, receiver_insert]
    split
    · rename_i isChan
      rw [isChan, Connection.receiver, found]
      rfl
    · rfl

/-- Completing a channel moves only a fate that is still open. -/
theorem fate_complete (conn : Connection) (chan other : Nat) (fate : Fate) :
    (conn.complete chan fate).fate other = conn.fate other ∨
      other = chan ∧ conn.fate chan = none ∧
        ((conn.complete chan fate).fate other = some fate ∨
          (conn.complete chan fate).fate other = some .canceled) := by
  rcases conn.complete_cases chan fate with same | ⟨receiver, left, found, isLeft, result⟩
  · rw [same]
    exact .inl rfl
  · rw [result, fate_insert]
    split
    · rename_i isChan
      refine .inr ⟨isChan, by rw [Connection.fate, found]; rfl, ?_⟩
      rcases isLeft with rfl | rfl
      · exact .inl rfl
      · exact .inr rfl
    · exact .inl rfl

/-- A channel that has a fate keeps it. -/
theorem kept_complete {conn : Connection} {chan other : Nat} {fate left : Fate}
    (found : conn.fate other = some left) : (conn.complete chan fate).fate other = some left := by
  rcases conn.fate_complete chan other fate with same | ⟨rfl, open', _⟩
  · rw [same, found]
  · rw [found] at open'
    simp at open'

/-- A canceled request gives its future no value. -/
theorem quiet_cancel (conn : Connection) (chan : Nat) : Quiet conn (conn.complete chan .canceled) where
  receiver other := receiver_complete conn chan other .canceled
  kept _ _ := kept_complete
  noValue other reply found := by
    rcases conn.fate_complete chan other .canceled with same | ⟨_, _, canceled⟩
    · rwa [same] at found
    · rw [found] at canceled
      simp at canceled

theorem keeps_dropWrap (conn : Connection) (wrap : RequestWrap) : Keeps conn (conn.dropWrap wrap) := by
  unfold dropWrap
  split
  · exact keeps_complete conn _ _
  · exact ⟨rfl, rfl, rfl, rfl⟩

theorem quiet_dropWrap (conn : Connection) (wrap : RequestWrap) : Quiet conn (conn.dropWrap wrap) := by
  unfold dropWrap
  split
  · exact quiet_cancel conn _
  · exact Quiet.refl conn

theorem keeps_dropBoxed (conn : Connection) (boxed : Boxed) : Keeps conn (conn.dropBoxed boxed) := by
  cases boxed with
  | request wrap => exact keeps_dropWrap conn wrap
  | other _ => exact ⟨rfl, rfl, rfl, rfl⟩

theorem quiet_dropBoxed (conn : Connection) (boxed : Boxed) : Quiet conn (conn.dropBoxed boxed) := by
  cases boxed with
  | request wrap => exact quiet_dropWrap conn wrap
  | other _ => exact Quiet.refl conn

/-- Dropping a queue keeps what is kept and gives nothing a value. -/
theorem dropAll (conn : Connection) (queue : List Boxed) :
    Keeps conn (queue.foldl dropBoxed conn) ∧ Quiet conn (queue.foldl dropBoxed conn) := by
  induction queue generalizing conn with
  | nil => exact ⟨⟨rfl, rfl, rfl, rfl⟩, Quiet.refl conn⟩
  | cons boxed rest ih =>
      obtain ⟨keeps, quiet⟩ := ih (conn.dropBoxed boxed)
      exact ⟨(keeps_dropBoxed conn boxed).trans keeps, (quiet_dropBoxed conn boxed).trans quiet⟩

end Connection

/-- What a request changes: a number is given out, and something is queued if the stream is open.
-/
theorem Connection.request_fields (conn : Connection) (sent : Request) :
    (conn.request sent).requests = conn.requests ∧
      (conn.request sent).lastRequestId = conn.lastRequestId ∧
      (conn.request sent).issued = conn.issued + 1 ∧
      ((conn.request sent).queue = conn.queue ∨
        (conn.request sent).queue = conn.queue ++ [.request ⟨sent, some conn.issued⟩]) := by
  unfold Connection.request Connection.send
  split
  · have keeps := Connection.keeps_dropBoxed conn.oneshot (.request ⟨sent, some conn.issued⟩)
    exact ⟨keeps.requests, keeps.lastRequestId, keeps.issued, .inl keeps.queue⟩
  · exact ⟨rfl, rfl, rfl, .inr rfl⟩

section Books

/-- The request that something in the queue is. -/
def Boxed.wrap? : Boxed → Option RequestWrap
  | .request wrap => some wrap
  | .other _ => none

/-- The requests in the channel to the packet stream. -/
def wraps (queue : List Boxed) : List RequestWrap := queue.filterMap Boxed.wrap?

theorem wraps_append (queue more : List Boxed) : wraps (queue ++ more) = wraps queue ++ wraps more :=
  List.filterMap_append

/-- The channels of the requests that wait to be sent or to be answered. -/
def held (trace : List RequestStep) (conn : Connection) : List Nat :=
  (wraps conn.queue).filterMap RequestWrap.chan ++ (unanswered trace).map Prod.fst

/-- The registry is what the history says: the requests that were serialized and not
answered, each with the channel of its caller under a number of its own. -/
structure Booked (trace : List RequestStep) (conn : Connection) : Prop where
  issued : conn.issued = (trace.filter fun taken => taken.op.isRequest).length
  counted : conn.lastRequestId.toNat + (wraps conn.queue).length ≤ conn.issued
  bounded : ∀ id wrap, conn.requests.lookup id = some wrap →
    id.toNat ≤ conn.lastRequestId.toNat
  queued : ∀ wrap ∈ wraps conn.queue, ∃ chan, wrap.chan = some chan ∧
    Requested trace chan wrap.request
  registered : ∀ id wrap, conn.requests.lookup id = some wrap → ∃ chan, wrap.chan = some chan ∧
    Requested trace chan wrap.request ∧ (chan, id) ∈ unanswered trace
  listed : ∀ chan id, (chan, id) ∈ unanswered trace → ∃ wrap,
    conn.requests.lookup id = some wrap ∧ wrap.chan = some chan
  ids : ((unanswered trace).map Prod.snd).Nodup
  chans : (held trace conn).Nodup
  below : ∀ chan ∈ held trace conn, chan < conn.issued

/-- Nothing is booked at first. -/
theorem booked_new : Booked [] .new where
  issued := rfl
  counted := by decide
  bounded := by simp [Connection.new]
  queued := by simp [Connection.new, wraps]
  registered := by simp [Connection.new]
  listed := by simp [unanswered]
  ids := by simp [unanswered]
  chans := by simp [held, wraps, unanswered, Connection.new]
  below := by simp [held, wraps, unanswered, Connection.new]

variable {trace : List RequestStep} {conn next : Connection} {taken : RequestStep}

/-- A step that is no request adds none to the count. -/
theorem filter_isRequest_append (noRequest : taken.op.isRequest = false) :
    (trace ++ [taken]).filter (fun taken => taken.op.isRequest) =
      trace.filter fun taken => taken.op.isRequest := by
  rw [List.filter_append]
  simp [noRequest]

/-- A step that takes requests out of the channel, if anything, and leaves the registry and
the list of those waiting. -/
theorem Booked.frame (booked : Booked trace conn) (noRequest : taken.op.isRequest = false)
    (same : settle (unanswered trace) taken = unanswered trace)
    (sublist : (wraps next.queue).Sublist (wraps conn.queue))
    (requests : next.requests = conn.requests)
    (last : next.lastRequestId = conn.lastRequestId) (issued : next.issued = conn.issued) :
    Booked (trace ++ [taken]) next := by
  have waiting : unanswered (trace ++ [taken]) = unanswered trace := by
    rw [unanswered_append, same]
  have fewer : (held (trace ++ [taken]) next).Sublist (held trace conn) := by
    unfold held
    rw [waiting]
    exact (sublist.filterMap _).append (List.Sublist.refl _)
  constructor
  case issued => rw [filter_isRequest_append noRequest, issued, booked.issued]
  case counted =>
    have := booked.counted
    have := sublist.length_le
    rw [last, issued]
    omega
  case bounded =>
    rw [requests, last]
    exact booked.bounded
  case queued =>
    intro wrap member
    obtain ⟨chan, isChan, requested⟩ := booked.queued wrap (sublist.subset member)
    exact ⟨chan, isChan, requested.append taken⟩
  case registered =>
    rw [requests, waiting]
    intro id wrap found
    obtain ⟨chan, isChan, requested, isWaiting⟩ := booked.registered id wrap found
    exact ⟨chan, isChan, requested.append taken, isWaiting⟩
  case listed =>
    rw [requests, waiting]
    exact booked.listed
  case ids =>
    rw [waiting]
    exact booked.ids
  case chans => exact booked.chans.sublist fewer
  case below =>
    rw [issued]
    exact fun chan member => booked.below chan (fewer.subset member)

/-- A step that changes one-shot channels only. -/
theorem Booked.keeps (booked : Booked trace conn) (keeps : conn.Keeps next)
    (noRequest : taken.op.isRequest = false)
    (same : settle (unanswered trace) taken = unanswered trace) :
    Booked (trace ++ [taken]) next :=
  booked.frame noRequest same (by rw [keeps.queue]) keeps.requests keeps.lastRequestId keeps.issued

/-- The books after a request. Its channel is a new one. -/
theorem Booked.request {sent : Request} (booked : Booked trace conn)
    (isOp : taken.op = .request sent) (isAnswer : taken.answer = .future conn.issued) :
    Booked (trace ++ [taken]) (conn.request sent) := by
  have waiting : unanswered (trace ++ [taken]) = unanswered trace := by
    rw [unanswered_append, settle_of_ne_respond (by simp [isOp]) (by simp [isAnswer])]
  have count : ((trace ++ [taken]).filter fun taken => taken.op.isRequest).length =
      conn.issued + 1 := by
    rw [List.filter_append, List.length_append, booked.issued]
    simp [isOp, RequestOp.isRequest]
  have requested : Requested (trace ++ [taken]) conn.issued sent :=
    ⟨taken, by simp, isOp, isAnswer⟩
  obtain ⟨requests, last, issued, queue⟩ := conn.request_fields sent
  have holds : held (trace ++ [taken]) (conn.request sent) = held trace conn ∨
      (held (trace ++ [taken]) (conn.request sent)).Perm (conn.issued :: held trace conn) := by
    unfold held
    rw [waiting]
    rcases queue with same | longer
    · rw [same]
      exact .inl rfl
    · rw [longer, wraps_append, List.filterMap_append, List.append_assoc]
      exact .inr List.perm_middle
  constructor
  case issued => rw [count, issued]
  case counted =>
    have := booked.counted
    rw [last, issued]
    rcases queue with same | longer
    · rw [same]
      omega
    · rw [longer, wraps_append]
      simp [wraps, Boxed.wrap?] at this ⊢
      omega
  case bounded =>
    rw [requests, last]
    exact booked.bounded
  case queued =>
    intro wrap member
    have cases : wrap ∈ wraps conn.queue ∨ wrap = ⟨sent, some conn.issued⟩ := by
      rcases queue with same | longer
      · rw [same] at member
        exact .inl member
      · rw [longer, wraps_append] at member
        simpa [wraps, Boxed.wrap?] using member
    rcases cases with earlier | rfl
    · obtain ⟨chan, isChan, requested⟩ := booked.queued wrap earlier
      exact ⟨chan, isChan, requested.append taken⟩
    · exact ⟨conn.issued, rfl, requested⟩
  case registered =>
    rw [requests, waiting]
    intro id wrap found
    obtain ⟨chan, isChan, requested, isWaiting⟩ := booked.registered id wrap found
    exact ⟨chan, isChan, requested.append taken, isWaiting⟩
  case listed =>
    rw [requests, waiting]
    exact booked.listed
  case ids =>
    rw [waiting]
    exact booked.ids
  case chans =>
    rcases holds with same | more
    · rw [same]
      exact booked.chans
    · rw [more.nodup_iff, List.nodup_cons]
      exact ⟨fun member => Nat.lt_irrefl _ (booked.below _ member), booked.chans⟩
  case below =>
    rw [issued]
    intro chan member
    have known : chan = conn.issued ∨ chan ∈ held trace conn := by
      rcases holds with same | more
      · rw [same] at member
        exact .inr member
      · exact List.mem_cons.mp (more.mem_iff.mp member)
    rcases known with rfl | earlier
    · exact Nat.lt_succ_self _
    · exact Nat.lt_succ_of_lt (booked.below chan earlier)

/-- The next number is one higher. -/
theorem increment_eq_ok {id next : UInt64} (moved : Connection.increment id = .ok next) :
    next.toNat = id.toNat + 1 := by
  unfold Connection.increment at moved
  split at moved
  · rename_i bounded
    rw [← Except.ok.inj moved, UInt64.toNat_ofNat_of_lt' bounded]
  · simp at moved

/-- The loop over numbers in use is never entered: the next number is a new one. -/
theorem Booked.nextId_eq (booked : Booked trace conn) :
    conn.nextId = Connection.increment conn.lastRequestId := by
  unfold Connection.nextId
  cases moved : Connection.increment conn.lastRequestId with
  | error panic => rfl
  | ok first =>
      have isFirst := increment_eq_ok moved
      have fresh : first ∉ conn.requests := by
        intro member
        obtain ⟨wrap, isWrap⟩ := Finmap.mem_iff.mp member
        have := booked.bounded first wrap isWrap
        omega
      rw [Run.ok_bind]
      cases conn.requests.keys.card with
      | zero => rfl
      | succ bound => rw [Connection.skipUsed, if_neg fresh]

/-- The books after a request was sent under the next number. -/
theorem Booked.serialized {wrap : RequestWrap} {rest : List Boxed} {id : UInt64}
    {packet : List UInt8} (booked : Booked trace conn) (queue : conn.queue = .request wrap :: rest)
    (isId : conn.nextId = .ok id) (isOp : taken.op = .poll)
    (isAnswer : taken.answer = .serialized wrap.chan id packet) :
    Booked (trace ++ [taken]) { conn with
      queue := rest, lastRequestId := id, requests := conn.requests.insert id wrap } := by
  rw [booked.nextId_eq] at isId
  have number := increment_eq_ok isId
  have inQueue : wraps conn.queue = wrap :: wraps rest := by
    rw [queue]
    rfl
  obtain ⟨chan, isChan, requested⟩ := booked.queued wrap (by rw [inQueue]; exact List.mem_cons_self)
  have waiting : unanswered (trace ++ [taken]) = unanswered trace ++ [(chan, id)] := by
    rw [unanswered_append, settle, isOp, isAnswer, isChan]
  have fresh : id ∉ (unanswered trace).map Prod.snd := by
    intro member
    obtain ⟨⟨other, used⟩, isWaiting, isUsed⟩ := List.mem_map.mp member
    obtain ⟨known, isKnown, _⟩ := booked.listed other used isWaiting
    have := booked.bounded used known isKnown
    rw [show used = id from isUsed] at this
    omega
  have moves : (held (trace ++ [taken]) { conn with
      queue := rest, lastRequestId := id, requests := conn.requests.insert id wrap }).Perm
      (held trace conn) := by
    unfold held
    rw [waiting, inQueue, List.filterMap_cons_some isChan, List.map_append, ← List.append_assoc]
    exact List.perm_append_comm
  constructor
  case issued =>
    rw [filter_isRequest_append (by simp [isOp, RequestOp.isRequest])]
    exact booked.issued
  case counted =>
    have count := booked.counted
    rw [inQueue, List.length_cons] at count
    show id.toNat + (wraps rest).length ≤ conn.issued
    omega
  case bounded =>
    intro other found isFound
    show other.toNat ≤ id.toNat
    rw [Map.lookup_insert_eq] at isFound
    split at isFound
    · rename_i isId
      rw [isId]
    · have := booked.bounded other found isFound
      omega
  case queued =>
    intro other member
    have earlier : other ∈ wraps conn.queue := by
      rw [inQueue]
      exact List.mem_cons_of_mem _ member
    obtain ⟨held, isHeld, requested⟩ := booked.queued other earlier
    exact ⟨held, isHeld, requested.append taken⟩
  case registered =>
    intro other found isFound
    rw [waiting]
    rw [Map.lookup_insert_eq] at isFound
    split at isFound
    · rename_i isId
      obtain rfl := Option.some.inj isFound
      exact ⟨chan, isChan, requested.append taken, by simp [isId]⟩
    · obtain ⟨held, isHeld, requested, isWaiting⟩ := booked.registered other found isFound
      exact ⟨held, isHeld, requested.append taken, List.mem_append_left _ isWaiting⟩
  case listed =>
    intro held other isWaiting
    rw [waiting] at isWaiting
    rw [Map.lookup_insert_eq]
    rcases List.mem_append.mp isWaiting with earlier | now
    · obtain ⟨found, isFound, isHeld⟩ := booked.listed held other earlier
      have different : other ≠ id := by
        rintro rfl
        exact fresh (List.mem_map_of_mem earlier)
      rw [if_neg different]
      exact ⟨found, isFound, isHeld⟩
    · obtain ⟨rfl, rfl⟩ := Prod.mk.inj (List.mem_singleton.mp now)
      rw [if_pos rfl]
      exact ⟨wrap, rfl, isChan⟩
  case ids =>
    rw [waiting, List.map_append]
    exact List.nodup_append_comm.mp (List.nodup_cons.mpr ⟨fresh, booked.ids⟩)
  case chans => exact moves.nodup_iff.mpr booked.chans
  case below =>
    intro other member
    exact booked.below other (moves.mem_iff.mp member)

/-- What an answer can do: nothing where the number is not in use, and else it takes the
request with the number out and completes the channel of that request. -/
theorem Connection.respond_cases {id : UInt64} {response : Response}
    (responded : conn.respond id response = .ok next) :
    conn.requests.lookup id = none ∧ next = conn ∨
    ∃ wrap, conn.requests.lookup id = some wrap ∧
      ((wrap.chan = none ∧ next = { conn with requests := conn.requests.erase id }) ∨
      ∃ chan fate, wrap.chan = some chan ∧
        next = { conn with requests := conn.requests.erase id }.complete chan fate ∧
        ∀ reply, fate = .value reply → response = .reply reply ∧ wrap.request.type = reply.type) := by
  unfold Connection.respond at responded
  split at responded
  · rename_i missing
    exact .inl ⟨missing, (Except.ok.inj responded).symm⟩
  · rename_i wrap found
    refine .inr ⟨wrap, found, ?_⟩
    cases response with
    | reply reply =>
        simp only at responded
        split at responded
        · rename_i sameType
          obtain ⟨chan, isChan, isNext⟩ := Run.bind_eq_ok_iff.mp responded
          refine .inr ⟨chan, .value reply, Run.expect_eq_ok_iff.mp isChan,
            (Except.ok.inj isNext).symm, ?_⟩
          rintro other isOther
          obtain rfl := Fate.value.inj isOther
          exact ⟨rfl, sameType⟩
        · have isNext := (Except.ok.inj responded).symm
          unfold Connection.dropWrap at isNext
          split at isNext
          · rename_i chan isChan
            exact .inr ⟨chan, .canceled, isChan, isNext, by simp⟩
          · rename_i noChan
            exact .inl ⟨noChan, isNext⟩
    | error text =>
        obtain ⟨chan, isChan, isNext⟩ := Run.bind_eq_ok_iff.mp responded
        exact .inr ⟨chan, .canceled, Run.expect_eq_ok_iff.mp isChan, (Except.ok.inj isNext).symm,
          by simp⟩

/-- An answer changes only what is kept of its own request. -/
theorem Connection.respond_fields {id : UInt64} {response : Response}
    (responded : conn.respond id response = .ok next) :
    next.queue = conn.queue ∧ next.lastRequestId = conn.lastRequestId ∧
      next.issued = conn.issued ∧
      ∀ other, next.requests.lookup other =
        if other = id then none else conn.requests.lookup other := by
  rcases Connection.respond_cases responded with
    ⟨missing, rfl⟩ | ⟨wrap, _, ⟨_, rfl⟩ | ⟨chan, fate, _, rfl, _⟩⟩
  · refine ⟨rfl, rfl, rfl, ?_⟩
    intro other
    split
    · rename_i isId
      rw [isId, missing]
    · rfl
  · exact ⟨rfl, rfl, rfl, fun other => Map.lookup_erase_eq _ _ _⟩
  · have keeps := Connection.keeps_complete
      { conn with requests := conn.requests.erase id } chan fate
    refine ⟨keeps.queue, keeps.lastRequestId, keeps.issued, ?_⟩
    intro other
    rw [keeps.requests]
    exact Map.lookup_erase_eq _ _ _

/-- The books after a response. -/
theorem Booked.respond {id : UInt64} {response : Response} (booked : Booked trace conn)
    (responded : conn.respond id response = .ok next) (isOp : taken.op = .respond id response) :
    Booked (trace ++ [taken]) next := by
  have waiting : unanswered (trace ++ [taken]) =
      (unanswered trace).filter fun entry => entry.2 ≠ id := by
    rw [unanswered_append, settle, isOp]
  have noRequest : taken.op.isRequest = false := by simp [isOp, RequestOp.isRequest]
  have remaining : ∀ chan other, (chan, other) ∈ unanswered (trace ++ [taken]) ↔
      (chan, other) ∈ unanswered trace ∧ other ≠ id := by
    simp [waiting]
  obtain ⟨queue, last, issued, requests⟩ := Connection.respond_fields responded
  have fewer : (held (trace ++ [taken]) next).Sublist (held trace conn) := by
    unfold held
    rw [waiting, queue]
    exact (List.Sublist.refl _).append (List.filter_sublist.map _)
  constructor
  case issued => rw [filter_isRequest_append noRequest, issued, booked.issued]
  case counted =>
    rw [queue, last, issued]
    exact booked.counted
  case bounded =>
    intro other wrap found
    rw [requests] at found
    rw [last]
    split at found
    · simp at found
    · exact booked.bounded other wrap found
  case queued =>
    rw [queue]
    intro wrap member
    obtain ⟨chan, isChan, requested⟩ := booked.queued wrap member
    exact ⟨chan, isChan, requested.append taken⟩
  case registered =>
    intro other wrap found
    rw [requests] at found
    split at found
    · simp at found
    · rename_i different
      obtain ⟨chan, isChan, requested, isWaiting⟩ := booked.registered other wrap found
      exact ⟨chan, isChan, requested.append taken, (remaining chan other).mpr ⟨isWaiting, different⟩⟩
  case listed =>
    intro chan other isWaiting
    obtain ⟨earlier, different⟩ := (remaining chan other).mp isWaiting
    obtain ⟨wrap, found, isChan⟩ := booked.listed chan other earlier
    exact ⟨wrap, by rw [requests, if_neg different, found], isChan⟩
  case ids =>
    rw [waiting]
    exact booked.ids.sublist (List.filter_sublist.map _)
  case chans => exact booked.chans.sublist fewer
  case below =>
    rw [issued]
    exact fun chan member => booked.below chan (fewer.subset member)

/-- The books after something else was put into the channel. -/
theorem Booked.send {wrap : Wrap} (booked : Booked trace conn)
    (noRequest : taken.op.isRequest = false)
    (same : settle (unanswered trace) taken = unanswered trace) :
    Booked (trace ++ [taken]) (conn.send (.other wrap)) := by
  unfold Connection.send
  split
  · exact booked.keeps (Connection.keeps_dropBoxed conn _) noRequest same
  · refine booked.frame noRequest same ?_ rfl rfl rfl
    show (wraps (conn.queue ++ [.other wrap])).Sublist (wraps conn.queue)
    rw [wraps_append]
    simp [wraps, Boxed.wrap?]

/-- Sending the next packet keeps the books. -/
theorem Booked.poll {codec : Codec} {order : Listing MachineId (List Char)}
    (booked : Booked trace conn) (isOp : taken.op = .poll)
    (polled : conn.poll codec order = .ok (taken.answer, next)) :
    Booked (trace ++ [taken]) next := by
  have noRequest : taken.op.isRequest = false := by simp [isOp, RequestOp.isRequest]
  unfold Connection.poll at polled
  split at polled
  · obtain ⟨isAnswer, rfl⟩ := Prod.mk.inj (Except.ok.inj polled)
    exact booked.keeps ⟨rfl, rfl, rfl, rfl⟩ noRequest
      (settle_of_ne_respond (by simp [isOp]) (by simp [← isAnswer]))
  · rename_i wrap rest queue
    obtain ⟨id, isId, polled⟩ := Run.bind_eq_ok_iff.mp polled
    obtain ⟨packet, _, polled⟩ := Run.bind_eq_ok_iff.mp polled
    obtain ⟨isAnswer, rfl⟩ := Prod.mk.inj (Except.ok.inj polled)
    exact booked.serialized queue isId isOp isAnswer.symm
  · rename_i wrap rest queue
    obtain ⟨packet, _, polled⟩ := Run.bind_eq_ok_iff.mp polled
    obtain ⟨isAnswer, rfl⟩ := Prod.mk.inj (Except.ok.inj polled)
    refine booked.frame noRequest
      (settle_of_ne_respond (by simp [isOp]) (by simp [← isAnswer])) ?_ rfl rfl rfl
    rw [queue]
    exact List.Sublist.refl _

/-- Dropping the stream keeps the books. -/
theorem Booked.dropStream (booked : Booked trace conn) (noRequest : taken.op.isRequest = false)
    (same : settle (unanswered trace) taken = unanswered trace) :
    Booked (trace ++ [taken]) conn.dropStream := by
  have keeps := (Connection.dropAll { conn with queue := [], closed := true } conn.queue).1
  refine booked.frame noRequest same ?_ keeps.requests keeps.lastRequestId keeps.issued
  rw [Connection.dropStream, keeps.queue]
  exact List.nil_sublist _

end Books

namespace Connection

variable {codec : Codec} {order : Listing MachineId (List Char)} {trace : List RequestStep}
  {taken : RequestStep}

theorem pollFuture_keeps {conn next : Connection} {future : Nat} {answer : RequestAnswer}
    (polled : conn.pollFuture future = some (answer, next)) :
    Keeps conn next ∧ ∀ chan id packet, answer ≠ .serialized chan id packet := by
  unfold pollFuture at polled
  split at polled
  · obtain ⟨rfl, rfl⟩ := Prod.mk.inj (Option.some.inj polled)
    exact ⟨⟨rfl, rfl, rfl, rfl⟩, by simp⟩
  · obtain ⟨rfl, rfl⟩ := Prod.mk.inj (Option.some.inj polled)
    exact ⟨⟨rfl, rfl, rfl, rfl⟩, by simp⟩
  · simp at polled

theorem dropFuture_keeps {conn next : Connection} {future : Nat}
    (dropped : conn.dropFuture future = some next) : Keeps conn next := by
  unfold dropFuture at dropped
  split at dropped
  · obtain rfl := Option.some.inj dropped
    exact ⟨rfl, rfl, rfl, rfl⟩
  · simp at dropped

/-- Every step keeps the books. -/
theorem booked_step (takes : (machine codec order).Takes taken)
    (booked : Booked trace taken.before) : Booked (trace ++ [taken]) taken.after := by
  obtain ⟨before, op, answer, after⟩ := taken
  have moved : before.exec codec order op = some (answer, after) := takes
  cases op with
  | request sent =>
      obtain ⟨rfl, rfl⟩ := Prod.mk.inj (Option.some.inj moved)
      exact booked.request rfl rfl
  | notification note =>
      obtain ⟨rfl, rfl⟩ := Prod.mk.inj (Option.some.inj moved)
      exact booked.send rfl rfl
  | response id reply =>
      obtain ⟨rfl, rfl⟩ := Prod.mk.inj (Option.some.inj moved)
      exact booked.send rfl rfl
  | errorResponse id text =>
      obtain ⟨rfl, rfl⟩ := Prod.mk.inj (Option.some.inj moved)
      exact booked.send rfl rfl
  | poll =>
      simp only [exec] at moved
      split at moved
      · simp at moved
      · exact booked.poll rfl (Run.ok_of_toOption moved)
  | respond id response =>
      obtain ⟨next, responded, result⟩ := Option.map_eq_some_iff.mp moved
      obtain ⟨rfl, rfl⟩ := Prod.mk.inj result
      exact booked.respond (Run.ok_of_toOption responded) rfl
  | pollFuture future =>
      obtain ⟨keeps, noPacket⟩ := pollFuture_keeps moved
      exact booked.keeps keeps rfl (settle_of_ne_respond (by simp) fun chan => noPacket (some chan))
  | dropFuture future =>
      obtain ⟨next, dropped, result⟩ := Option.map_eq_some_iff.mp moved
      obtain ⟨rfl, rfl⟩ := Prod.mk.inj result
      exact booked.keeps (dropFuture_keeps dropped) rfl rfl
  | dropStream =>
      simp only [exec] at moved
      split at moved
      · simp at moved
      · obtain ⟨rfl, rfl⟩ := Prod.mk.inj (Option.some.inj moved)
        exact booked.dropStream rfl rfl

end Connection

section Futures

/-- The step in which a future returns. -/
def resolves (future : Nat) (taken : RequestStep) : Bool :=
  match taken.answer with
  | .resolved other _ => other == future
  | _ => false

/-- A future has returned at most once, and a value only where a reply was due to it. -/
structure Settled (trace : List RequestStep) (conn : Connection) : Prop where
  values : ∀ chan reply, conn.fate chan = some (.value reply) → Replied trace chan reply
  resolved : ∀ taken ∈ trace, ∀ future fate, taken.answer = .resolved future fate →
    conn.receiver future = some .resolved ∧ conn.fate future = some fate
  once : ∀ future, (trace.filter (resolves future)).length ≤ 1
  fresh : ∀ chan, conn.issued ≤ chan → conn.receiver chan = none

/-- Nothing is settled at first. -/
theorem settled_new : Settled [] .new where
  values := by simp [Connection.fate, Connection.new]
  resolved := by simp
  once := by simp
  fresh := by simp [Connection.receiver, Connection.new]

variable {trace : List RequestStep} {conn next : Connection} {taken : RequestStep}

theorem filter_resolves_append (unresolved : ∀ future fate, taken.answer ≠ .resolved future fate)
    (future : Nat) :
    (trace ++ [taken]).filter (resolves future) = trace.filter (resolves future) := by
  have no : resolves future taken = false := by
    unfold resolves
    split
    · rename_i other fate isResolved
      exact absurd isResolved (unresolved other fate)
    · rfl
  rw [List.filter_append]
  simp [no]

/-- A step in which no future returns, and which keeps what was left and received for the
channels there are. -/
theorem Settled.frame (settled : Settled trace conn)
    (unresolved : ∀ future fate, taken.answer ≠ .resolved future fate)
    (values : ∀ chan reply, next.fate chan = some (.value reply) →
      conn.fate chan = some (.value reply) ∨ Replied (trace ++ [taken]) chan reply)
    (received : ∀ future fate, conn.receiver future = some .resolved →
      conn.fate future = some fate →
        next.receiver future = some .resolved ∧ next.fate future = some fate)
    (fresh : ∀ chan, next.issued ≤ chan → next.receiver chan = none) :
    Settled (trace ++ [taken]) next where
  values chan reply found := by
    rcases values chan reply found with before | now
    · exact (settled.values chan reply before).append taken
    · exact now
  resolved := by
    intro other member future fate isResolved
    rcases List.mem_append.mp member with earlier | last
    · obtain ⟨isReceived, left⟩ := settled.resolved other earlier future fate isResolved
      exact received future fate isReceived left
    · obtain rfl := List.mem_singleton.mp last
      exact absurd isResolved (unresolved future fate)
  once future := by
    rw [filter_resolves_append unresolved]
    exact settled.once future
  fresh := fresh

/-- What gives no value keeps what is settled. -/
theorem Settled.quiet (settled : Settled trace conn) (quiet : conn.Quiet next)
    (issued : next.issued = conn.issued)
    (unresolved : ∀ future fate, taken.answer ≠ .resolved future fate) :
    Settled (trace ++ [taken]) next := by
  refine settled.frame unresolved ?_ ?_ ?_
  · exact fun chan reply found => .inl (quiet.noValue chan reply found)
  · intro future fate received left
    exact ⟨by rw [quiet.receiver, received], quiet.kept future fate left⟩
  · intro chan new
    rw [quiet.receiver]
    exact settled.fresh chan (by rwa [← issued])

/-- A request settles nothing. -/
theorem Settled.request {sent : Request} (settled : Settled trace conn)
    (unresolved : ∀ future fate, taken.answer ≠ .resolved future fate) :
    Settled (trace ++ [taken]) (conn.request sent) := by
  have opened : Connection.Quiet conn.oneshot (conn.request sent) := by
    unfold Connection.request Connection.send
    split
    · exact Connection.quiet_dropBoxed _ _
    · exact .of_oneshots rfl
  have fates (chan : Nat) : conn.oneshot.fate chan = if chan = conn.issued then none else conn.fate chan :=
    Connection.fate_insert conn conn.issued chan ⟨none, .waiting⟩
  have receivers (chan : Nat) : conn.oneshot.receiver chan =
      if chan = conn.issued then some .waiting else conn.receiver chan :=
    Connection.receiver_insert conn conn.issued chan ⟨none, .waiting⟩
  refine settled.frame unresolved ?_ ?_ ?_
  · intro chan reply found
    have before := opened.noValue chan reply found
    rw [fates] at before
    split at before
    · simp at before
    · exact .inl before
  · intro future fate received left
    have old : future ≠ conn.issued := by
      rintro rfl
      rw [settled.fresh _ (Nat.le_refl _)] at received
      simp at received
    refine ⟨?_, opened.kept future fate ?_⟩
    · rw [opened.receiver, receivers, if_neg old, received]
    · rw [fates, if_neg old, left]
  · intro chan new
    rw [(conn.request_fields sent).2.2.1] at new
    rw [opened.receiver, receivers, if_neg (by omega)]
    exact settled.fresh chan (by omega)

/-- The futures after a response: a value is sent to the caller of the request only. -/
theorem Settled.respond {id : UInt64} {response : Response} (settled : Settled trace conn)
    (booked : Booked trace conn) (responded : conn.respond id response = .ok next)
    (isOp : taken.op = .respond id response)
    (unresolved : ∀ future fate, taken.answer ≠ .resolved future fate) :
    Settled (trace ++ [taken]) next := by
  have issued := (Connection.respond_fields responded).2.2.1
  rcases Connection.respond_cases responded with
    ⟨_, rfl⟩ | ⟨wrap, found, ⟨_, rfl⟩ | ⟨chan, left, isChan, isNext, due⟩⟩
  · exact settled.quiet (.refl _) rfl unresolved
  · exact settled.quiet (.of_oneshots rfl) rfl unresolved
  · have removed : Connection.Quiet conn { conn with requests := conn.requests.erase id } :=
      .of_oneshots rfl
    have receivers (other : Nat) : next.receiver other = conn.receiver other := by
      rw [isNext, Connection.receiver_complete]
      exact removed.receiver other
    refine settled.frame unresolved ?_ ?_ ?_
    · intro other reply isValue
      rw [isNext] at isValue
      rcases Connection.fate_complete _ chan other left with same | ⟨rfl, _, now⟩
      · rw [same] at isValue
        exact .inl (removed.noValue other reply isValue)
      · have isLeft : left = .value reply := by
          rw [isValue] at now
          simpa [eq_comm] using now
        obtain ⟨isReply, type⟩ := due reply isLeft
        obtain ⟨held, isHeld, requested, waiting⟩ := booked.registered id wrap found
        obtain rfl := Option.some.inj (isChan.symm.trans isHeld)
        refine .inr ⟨trace, taken, [], id, wrap.request, rfl, ?_,
          serialized_of_unanswered waiting, requested.append taken, type⟩
        rw [isOp, isReply]
    · intro future fate received isLeft
      refine ⟨by rw [receivers, received], ?_⟩
      rw [isNext]
      exact Connection.kept_complete (removed.kept future fate isLeft)
    · intro other new
      rw [receivers]
      exact settled.fresh other (by rwa [← issued])

/-- A future that is still polled has not returned. -/
theorem Settled.none_resolved {future : Nat} (settled : Settled trace conn)
    (waiting : conn.receiver future = some .waiting) : trace.filter (resolves future) = [] := by
  rw [List.filter_eq_nil_iff]
  intro earlier member isResolved
  unfold resolves at isResolved
  split at isResolved
  · rename_i other fate answer
    have received := (settled.resolved earlier member other fate answer).1
    rw [eq_of_beq isResolved, waiting] at received
    simp at received
  · simp at isResolved

/-- Who waits was issued. -/
theorem Settled.lt_issued {future : Nat} (settled : Settled trace conn)
    (waiting : conn.receiver future = some .waiting) : future < conn.issued := by
  by_contra new
  rw [settled.fresh future (Nat.le_of_not_lt new)] at waiting
  simp at waiting

/-- A future that is polled resolves once at most, with what was replied. -/
theorem Settled.pollFuture {future : Nat} (settled : Settled trace conn)
    (polled : conn.pollFuture future = some (taken.answer, next)) :
    Settled (trace ++ [taken]) next := by
  unfold Connection.pollFuture at polled
  split at polled
  · obtain ⟨isAnswer, rfl⟩ := Prod.mk.inj (Option.some.inj polled)
    exact settled.quiet (.refl _) rfl (by simp [← isAnswer])
  · rename_i fate found
    obtain ⟨isAnswer, rfl⟩ := Prod.mk.inj (Option.some.inj polled)
    have left : conn.fate future = some fate := by
      rw [Connection.fate, found]
      rfl
    have waiting : conn.receiver future = some .waiting := by
      rw [Connection.receiver, found]
      rfl
    have fates (chan : Nat) := Connection.fate_insert conn future chan ⟨some fate, .resolved⟩
    have receivers (chan : Nat) :=
      Connection.receiver_insert conn future chan ⟨some fate, .resolved⟩
    constructor
    case values =>
      intro chan reply isValue
      rw [fates] at isValue
      split at isValue
      · rename_i isFuture
        rw [isFuture]
        exact (settled.values future reply (left.trans isValue)).append taken
      · exact (settled.values chan reply isValue).append taken
    case resolved =>
      intro other member known end' isResolved
      rw [fates, receivers]
      rcases List.mem_append.mp member with earlier | last
      · obtain ⟨received, isLeft⟩ := settled.resolved other earlier known end' isResolved
        have different : known ≠ future := by
          rintro rfl
          rw [waiting] at received
          simp at received
        rw [if_neg different, if_neg different]
        exact ⟨received, isLeft⟩
      · obtain rfl := List.mem_singleton.mp last
        rw [← isAnswer] at isResolved
        obtain ⟨rfl, rfl⟩ := RequestAnswer.resolved.inj isResolved
        simp
    case once =>
      intro known
      rw [List.filter_append, List.length_append]
      by_cases same : known = future
      · rw [same, settled.none_resolved waiting, List.length_nil, Nat.zero_add]
        exact List.length_filter_le _ _
      · have no : resolves known taken = false := by
          simp [resolves, ← isAnswer, Ne.symm same]
        simpa [no] using settled.once known
    case fresh =>
      have old := settled.lt_issued waiting
      intro chan new
      have isNew : conn.issued ≤ chan := new
      rw [receivers, if_neg (by omega)]
      exact settled.fresh chan isNew
  · simp at polled

theorem Settled.dropFuture {future : Nat} (settled : Settled trace conn)
    (dropped : conn.dropFuture future = some next)
    (unresolved : ∀ future fate, taken.answer ≠ .resolved future fate) :
    Settled (trace ++ [taken]) next := by
  unfold Connection.dropFuture at dropped
  split at dropped
  · rename_i left found
    obtain rfl := Option.some.inj dropped
    have isLeft : conn.fate future = left := by
      rw [Connection.fate, found]
      rfl
    have waiting : conn.receiver future = some .waiting := by
      rw [Connection.receiver, found]
      rfl
    have fates (chan : Nat) := Connection.fate_insert conn future chan ⟨left, .dropped⟩
    have receivers (chan : Nat) := Connection.receiver_insert conn future chan ⟨left, .dropped⟩
    refine settled.frame unresolved ?_ ?_ ?_
    · intro chan reply isValue
      rw [fates] at isValue
      split at isValue
      · rename_i isFuture
        rw [isFuture]
        exact .inl (isLeft.trans isValue)
      · exact .inl isValue
    · intro other fate received isFate
      have different : other ≠ future := by
        rintro rfl
        rw [waiting] at received
        simp at received
      rw [fates, receivers, if_neg different, if_neg different]
      exact ⟨received, isFate⟩
    · have old := settled.lt_issued waiting
      intro chan new
      have isNew : conn.issued ≤ chan := new
      rw [receivers, if_neg (by omega)]
      exact settled.fresh chan isNew
  · simp at dropped

end Futures

namespace Connection

variable {codec : Codec} {order : Listing MachineId (List Char)} {trace : List RequestStep}
  {taken : RequestStep}

/-- Sending the next packet gives nothing a value. -/
theorem poll_quiet {conn next : Connection} {answer : RequestAnswer}
    (polled : conn.poll codec order = .ok (answer, next)) :
    Quiet conn next ∧ next.issued = conn.issued ∧
      ∀ future fate, answer ≠ .resolved future fate := by
  unfold poll at polled
  split at polled
  · obtain ⟨rfl, rfl⟩ := Prod.mk.inj (Except.ok.inj polled)
    exact ⟨.refl _, rfl, by simp⟩
  · obtain ⟨id, _, polled⟩ := Run.bind_eq_ok_iff.mp polled
    obtain ⟨packet, _, polled⟩ := Run.bind_eq_ok_iff.mp polled
    obtain ⟨rfl, rfl⟩ := Prod.mk.inj (Except.ok.inj polled)
    exact ⟨.of_oneshots rfl, rfl, by simp⟩
  · obtain ⟨packet, _, polled⟩ := Run.bind_eq_ok_iff.mp polled
    obtain ⟨rfl, rfl⟩ := Prod.mk.inj (Except.ok.inj polled)
    exact ⟨.of_oneshots rfl, rfl, by simp⟩

/-- Queueing gives nothing a value. -/
theorem send_quiet (conn : Connection) (boxed : Boxed) :
    Quiet conn (conn.send boxed) ∧ (conn.send boxed).issued = conn.issued := by
  unfold send
  split
  · exact ⟨quiet_dropBoxed conn boxed, (keeps_dropBoxed conn boxed).issued⟩
  · exact ⟨.of_oneshots rfl, rfl⟩

/-- Dropping the stream gives nothing a value. -/
theorem dropStream_quiet (conn : Connection) :
    Quiet conn conn.dropStream ∧ conn.dropStream.issued = conn.issued := by
  obtain ⟨keeps, quiet⟩ := dropAll { conn with queue := [], closed := true } conn.queue
  have emptied : Quiet conn { conn with queue := [], closed := true } := .of_oneshots rfl
  exact ⟨emptied.trans quiet, keeps.issued⟩

/-- Every step settles futures as it should. -/
theorem settled_step (takes : (machine codec order).Takes taken) (booked : Booked trace taken.before)
    (settled : Settled trace taken.before) : Settled (trace ++ [taken]) taken.after := by
  obtain ⟨before, op, answer, after⟩ := taken
  have moved : before.exec codec order op = some (answer, after) := takes
  cases op with
  | request sent =>
      obtain ⟨rfl, rfl⟩ := Prod.mk.inj (Option.some.inj moved)
      exact settled.request (by simp)
  | notification note =>
      obtain ⟨rfl, rfl⟩ := Prod.mk.inj (Option.some.inj moved)
      obtain ⟨quiet, issued⟩ := send_quiet before (.other (.notification note))
      exact settled.quiet quiet issued (by simp)
  | response id reply =>
      obtain ⟨rfl, rfl⟩ := Prod.mk.inj (Option.some.inj moved)
      obtain ⟨quiet, issued⟩ := send_quiet before (.other (.response id reply))
      exact settled.quiet quiet issued (by simp)
  | errorResponse id text =>
      obtain ⟨rfl, rfl⟩ := Prod.mk.inj (Option.some.inj moved)
      obtain ⟨quiet, issued⟩ := send_quiet before (.other (.error id text))
      exact settled.quiet quiet issued (by simp)
  | poll =>
      simp only [exec] at moved
      split at moved
      · simp at moved
      · obtain ⟨quiet, issued, unresolved⟩ := poll_quiet (Run.ok_of_toOption moved)
        exact settled.quiet quiet issued unresolved
  | respond id response =>
      obtain ⟨next, responded, result⟩ := Option.map_eq_some_iff.mp moved
      obtain ⟨rfl, rfl⟩ := Prod.mk.inj result
      exact settled.respond booked (Run.ok_of_toOption responded) rfl (by simp)
  | pollFuture future => exact settled.pollFuture moved
  | dropFuture future =>
      obtain ⟨next, dropped, result⟩ := Option.map_eq_some_iff.mp moved
      obtain ⟨rfl, rfl⟩ := Prod.mk.inj result
      exact settled.dropFuture dropped (by simp)
  | dropStream =>
      simp only [exec] at moved
      split at moved
      · simp at moved
      · obtain ⟨rfl, rfl⟩ := Prod.mk.inj (Option.some.inj moved)
        obtain ⟨quiet, issued⟩ := dropStream_quiet before
        exact settled.quiet quiet issued (by simp)

/-- Books and futures are in order after every run. -/
theorem run_inv {finish : Connection} (steps : (machine codec order).Steps .new trace finish) :
    Booked trace finish ∧ Settled trace finish := by
  refine Machine.Steps.preserves_history (fun trace conn => Booked trace conn ∧ Settled trace conn)
    (fun _ => True) ?_ steps (by simp) ⟨booked_new, settled_new⟩
  rintro history taken takes _ ⟨booked, settled⟩
  exact ⟨booked_step takes booked, settled_step takes booked settled⟩

/-- A future returns what the channel holds. -/
theorem fate_of_resolved {conn next : Connection} {op : RequestOp} {future : Nat} {fate : Fate}
    (moved : conn.exec codec order op = some (.resolved future fate, next)) :
    conn.fate future = some fate := by
  cases op with
  | pollFuture polled =>
      have moved : conn.pollFuture polled = some (.resolved future fate, next) := moved
      unfold pollFuture at moved
      split at moved
      · simp at moved
      · rename_i left found
        obtain ⟨isAnswer, _⟩ := Prod.mk.inj (Option.some.inj moved)
        obtain ⟨rfl, rfl⟩ := RequestAnswer.resolved.inj isAnswer
        rw [Connection.fate, found]
        rfl
      · simp at moved
  | poll =>
      simp only [exec] at moved
      split at moved
      · simp at moved
      · exact absurd rfl ((poll_quiet (Run.ok_of_toOption moved)).2.2 future fate)
  | request _ => simp [exec] at moved
  | notification _ => simp [exec] at moved
  | response _ _ => simp [exec] at moved
  | errorResponse _ _ => simp [exec] at moved
  | respond _ _ => simp [exec] at moved
  | dropFuture _ => simp [exec] at moved
  | dropStream => simp [exec] at moved

/-- A response changes the fate of no channel but the one that waits under its number. -/
theorem unanswered_of_fate_ne {conn next : Connection} {id : UInt64} {response : Response}
    {chan : Nat} (booked : Booked trace conn) (responded : conn.respond id response = .ok next)
    (changed : next.fate chan ≠ conn.fate chan) : (chan, id) ∈ unanswered trace := by
  rcases respond_cases responded with
    ⟨_, rfl⟩ | ⟨wrap, found, ⟨_, rfl⟩ | ⟨held, left, isHeld, rfl, _⟩⟩
  · exact absurd rfl changed
  · exact absurd rfl changed
  · rcases fate_complete { conn with requests := conn.requests.erase id } held chan left with
      same | ⟨rfl, _⟩
    · exact absurd same changed
    · obtain ⟨other, isOther, _, waiting⟩ := booked.registered id wrap found
      obtain rfl := Option.some.inj (isHeld.symm.trans isOther)
      exact waiting

/-- The registry has an entry for each request that waits, and no other. -/
theorem card_requests {conn : Connection} (booked : Booked trace conn) :
    conn.requests.keys.card = (unanswered trace).length := by
  have keys : conn.requests.keys = ((unanswered trace).map Prod.snd).toFinset := by
    ext id
    rw [Finmap.mem_keys, Finmap.mem_iff, List.mem_toFinset, List.mem_map]
    constructor
    · rintro ⟨wrap, found⟩
      obtain ⟨chan, _, _, waiting⟩ := booked.registered id wrap found
      exact ⟨(chan, id), waiting, rfl⟩
    · rintro ⟨⟨chan, other⟩, waiting, rfl⟩
      obtain ⟨wrap, found, _⟩ := booked.listed chan other waiting
      exact ⟨wrap, found⟩
  rw [keys, List.toFinset_card_of_nodup booked.ids, List.length_map]

/-- An answer never panics as long as the books are kept. -/
theorem returns_respond {conn : Connection} (booked : Booked trace conn) (id : UInt64)
    (response : Response) : (conn.respond id response).Returns := by
  unfold respond
  split
  · exact Run.returns_ok _
  · rename_i wrap found
    obtain ⟨chan, isChan, _⟩ := booked.registered id wrap found
    cases response with
    | reply reply =>
        simp only
        split
        · rw [isChan]
          exact Run.returns_ok _
        · exact Run.returns_ok _
    | error text =>
        simp only [isChan]
        exact Run.returns_ok _

/-- There is a number for the next request as long as they are not all used up. -/
theorem returns_nextId {conn : Connection} (booked : Booked trace conn)
    (few : (trace.filter fun taken => taken.op.isRequest).length < 2 ^ 64)
    {wrap : RequestWrap} {rest : List Boxed} (queue : conn.queue = .request wrap :: rest) :
    conn.nextId.Returns := by
  have counted := booked.counted
  have some : 1 ≤ (wraps conn.queue).length := by
    rw [queue]
    exact Nat.succ_le_succ (Nat.zero_le _)
  have bounded : conn.lastRequestId.toNat + 1 < 2 ^ 64 := by
    have := booked.issued
    omega
  rw [booked.nextId_eq, increment, if_pos bounded]
  exact Run.returns_ok _

/-- In every run of one connection with fewer than 2^64 requests, whatever responses arrive:
the requests that are sent and not answered have numbers of their own, and they are what the
registry holds. A future returns once at most, and a value only after a reply of its own type
under its own number. A response changes the fate of no other request. Nothing panics. -/
theorem requests_matched {finish : Connection}
    (steps : (machine codec order).Steps .new trace finish)
    (few : (trace.filter fun taken => taken.op.isRequest).length < 2 ^ 64) :
    ((unanswered trace).map Prod.fst).Nodup ∧ ((unanswered trace).map Prod.snd).Nodup ∧
    finish.requests.keys.card = (unanswered trace).length ∧
    (∀ future, (trace.filter (resolves future)).length ≤ 1) ∧
    (∀ front taken back future reply, trace = front ++ taken :: back →
      taken.answer = .resolved future (.value reply) → Replied front future reply) ∧
    (∀ front taken back id response chan, trace = front ++ taken :: back →
      taken.op = .respond id response → taken.after.fate chan ≠ taken.before.fate chan →
        (chan, id) ∈ unanswered front) ∧
    (∀ id response, (finish.respond id response).Returns) ∧
    ∀ wrap rest, finish.queue = .request wrap :: rest → finish.nextId.Returns := by
  obtain ⟨booked, settled⟩ := run_inv steps
  have cut : ∀ {front taken back}, trace = front ++ taken :: back →
      (Booked front taken.before ∧ Settled front taken.before) ∧
        (machine codec order).Takes taken := by
    rintro front taken back rfl
    obtain ⟨first, takes, _⟩ := steps.cut
    exact ⟨run_inv first, takes⟩
  refine ⟨(List.nodup_append.mp booked.chans).2.1, booked.ids, card_requests booked, settled.once,
    ?_, ?_, returns_respond booked, ?_⟩
  · intro front taken back future reply whole isResolved
    obtain ⟨⟨_, settled⟩, takes⟩ := cut whole
    unfold Machine.Takes at takes
    rw [isResolved] at takes
    exact settled.values future reply (fate_of_resolved takes)
  · intro front taken back id response chan whole isOp changed
    obtain ⟨⟨booked, _⟩, takes⟩ := cut whole
    unfold Machine.Takes at takes
    rw [isOp] at takes
    obtain ⟨next, responded, result⟩ := Option.map_eq_some_iff.mp takes
    obtain ⟨_, rfl⟩ := Prod.mk.inj result
    exact unanswered_of_fate_ne booked (Run.ok_of_toOption responded) changed
  · intro wrap rest queue
    exact returns_nextId booked few queue

/-- Two requests, the second of which gets the reply of the first one's type. -/
def crossedReplies : List RequestOp :=
  let dir : VPath := ⟨Path.ofText "/k/a".toList, by decide, by decide⟩
  [.request (.getIndexAt ⟨dir⟩), .request (.getBaseDir ⟨dir⟩), .poll, .poll,
    .respond 2 (.reply (.getIndexAt ⟨none, ∅⟩)), .pollFuture 0, .pollFuture 1,
    .respond 1 (.reply (.getIndexAt ⟨none, ∅⟩)), .pollFuture 0]

/-- Two requests whose answers cross. -/
theorem requests_matched_crossed :
    let run := (machine Cbor.codec machineOrder).play .new crossedReplies
    run.1.length = 9 ∧
      run.1.getLast?.map Transition.answer = some (.resolved 0 (.value (.getIndexAt ⟨none, ∅⟩))) ∧
      run.2.requests.keys.card = (unanswered run.1).length := by
  intro run
  refine ⟨rfl, rfl, ?_⟩
  exact (requests_matched (Machine.Steps.of_play _ _ crossedReplies) (by decide)).2.2.1

end Connection

end Ciruela.Proto
