import Ciruela.Proto.Payload

/-!
# Messages

A message is an array of its kind, the name of its type, the number of the request where
there is one, and the payload. Four wrappers write messages, each one kind of them; one
visitor reads them all.
-/

namespace Ciruela.Proto

open Foundation

/-- `Request`. -/
inductive Request where
  | appendDir (params : AppendDir)
  | replaceDir (params : ReplaceDir)
  | getIndex (params : GetIndex)
  | getIndexAt (params : GetIndexAt)
  | getBlock (params : GetBlock)
  | getBaseDir (params : GetBaseDir)
deriving DecidableEq

/-- The types with the `Response` trait. -/
inductive Reply where
  | appendDir (reply : AppendDirAck)
  | replaceDir (reply : ReplaceDirAck)
  | getIndex (reply : GetIndexResponse)
  | getIndexAt (reply : GetIndexAtResponse)
  | getBlock (reply : GetBlockResponse)
  | getBaseDir (reply : GetBaseDirResponse)
deriving DecidableEq

/-- `message::Response`: a reply or the text of an error. -/
inductive Response where
  | reply (reply : Reply)
  | error (text : List Char)
deriving DecidableEq

/-- `Notification`. -/
inductive Notification where
  | publishImage (data : PublishImage)
  | receivedImage (data : ReceivedImage)
  | abortedImage (data : AbortedImage)
deriving DecidableEq

/-- `Message`. -/
inductive Message where
  | request (id : UInt64) (request : Request)
  | response (id : UInt64) (response : Response)
  | notification (notification : Notification)
deriving DecidableEq

section Types

/-- The types a request and its reply can have. -/
inductive RequestType where
  | appendDir
  | replaceDir
  | getIndex
  | getIndexAt
  | getBlock
  | getBaseDir
deriving DecidableEq

/-- The types of notifications. -/
inductive NotificationType where
  | publishImage
  | receivedImage
  | abortedImage
deriving DecidableEq

/-- `type_name` of the requests and replies. -/
def RequestType.name : RequestType → List Char
  | .appendDir => "AppendDir".toList
  | .replaceDir => "ReplaceDir".toList
  | .getIndex => "GetIndex".toList
  | .getIndexAt => "GetIndexAt".toList
  | .getBlock => "GetBlock".toList
  | .getBaseDir => "GetBaseDir".toList

/-- The name that a notification goes by. -/
def NotificationType.name : NotificationType → List Char
  | .publishImage => "PublishImage".toList
  | .receivedImage => "ReceivedImage".toList
  | .abortedImage => "AbortedImage".toList

/-- `RequestTypeVisitor`. -/
def RequestType.visitStr (value : List Char) : Option RequestType :=
  if value = "AppendDir".toList then some .appendDir
  else if value = "ReplaceDir".toList then some .replaceDir
  else if value = "GetIndex".toList then some .getIndex
  else if value = "GetIndexAt".toList then some .getIndexAt
  else if value = "GetBlock".toList then some .getBlock
  else if value = "GetBaseDir".toList then some .getBaseDir
  else none

/-- `NotificationTypeVisitor`. -/
def NotificationType.visitStr (value : List Char) : Option NotificationType :=
  if value = "PublishImage".toList then some .publishImage
  else if value = "ReceivedImage".toList then some .receivedImage
  else if value = "AbortedImage".toList then some .abortedImage
  else none

/-- The name an error has among the types of responses. -/
def errorName : List Char := "Error".toList

@[simp] theorem RequestType.visitStr_name (type : RequestType) : visitStr type.name = some type := by
  cases type <;> decide

@[simp] theorem NotificationType.visitStr_name (type : NotificationType) :
    visitStr type.name = some type := by
  cases type <;> decide

/-- No request goes by the name of errors. -/
theorem RequestType.name_ne_errorName (type : RequestType) : type.name ≠ errorName := by
  cases type <;> decide

/-- A type of request is read by its name. -/
theorem RequestType.name_of_visitStr {value : List Char} {type : RequestType}
    (visited : visitStr value = some type) : type.name = value := by
  unfold visitStr at visited
  split_ifs at visited with append replace index indexAt block baseDir
  · obtain rfl := Option.some.inj visited
    exact append.symm
  · obtain rfl := Option.some.inj visited
    exact replace.symm
  · obtain rfl := Option.some.inj visited
    exact index.symm
  · obtain rfl := Option.some.inj visited
    exact indexAt.symm
  · obtain rfl := Option.some.inj visited
    exact block.symm
  · obtain rfl := Option.some.inj visited
    exact baseDir.symm

/-- A type of notification is read by its name. -/
theorem NotificationType.name_of_visitStr {value : List Char} {type : NotificationType}
    (visited : visitStr value = some type) : type.name = value := by
  unfold visitStr at visited
  split_ifs at visited with publish received aborted
  · obtain rfl := Option.some.inj visited
    exact publish.symm
  · obtain rfl := Option.some.inj visited
    exact received.symm
  · obtain rfl := Option.some.inj visited
    exact aborted.symm

/-- The type of a request. -/
def Request.type : Request → RequestType
  | .appendDir _ => .appendDir
  | .replaceDir _ => .replaceDir
  | .getIndex _ => .getIndex
  | .getIndexAt _ => .getIndexAt
  | .getBlock _ => .getBlock
  | .getBaseDir _ => .getBaseDir

/-- The type of a reply. -/
def Reply.type : Reply → RequestType
  | .appendDir _ => .appendDir
  | .replaceDir _ => .replaceDir
  | .getIndex _ => .getIndex
  | .getIndexAt _ => .getIndexAt
  | .getBlock _ => .getBlock
  | .getBaseDir _ => .getBaseDir

/-- The type of a notification. -/
def Notification.type : Notification → NotificationType
  | .publishImage _ => .publishImage
  | .receivedImage _ => .receivedImage
  | .abortedImage _ => .abortedImage

end Types

section Data

variable (order : Listing MachineId (List Char))

/-- The data of a request. -/
def Request.serialize : Request → Run Cbor
  | .appendDir params => Proto.appendDir.serialize params
  | .replaceDir params => Proto.replaceDir.serialize params
  | .getIndex params => Proto.getIndex.serialize params
  | .getIndexAt params => Proto.getIndexAt.serialize params
  | .getBlock params => Proto.getBlock.serialize params
  | .getBaseDir params => Proto.getBaseDir.serialize params

/-- The request of a type that some data is. -/
def Request.deserialize (data : Cbor) : RequestType → Option Request
  | .appendDir => (Proto.appendDir.deserialize data).map .appendDir
  | .replaceDir => (Proto.replaceDir.deserialize data).map .replaceDir
  | .getIndex => (Proto.getIndex.deserialize data).map .getIndex
  | .getIndexAt => (Proto.getIndexAt.deserialize data).map .getIndexAt
  | .getBlock => (Proto.getBlock.deserialize data).map .getBlock
  | .getBaseDir => (Proto.getBaseDir.deserialize data).map .getBaseDir

/-- The data of a reply. -/
def Reply.serialize : Reply → Run Cbor
  | .appendDir reply => (appendDirAck order).serialize reply
  | .replaceDir reply => (replaceDirAck order).serialize reply
  | .getIndex reply => getIndexResponse.serialize reply
  | .getIndexAt reply => (getIndexAtResponse order).serialize reply
  | .getBlock reply => getBlockResponse.serialize reply
  | .getBaseDir reply => getBaseDirResponse.serialize reply

/-- The reply of a type that some data is. -/
def Reply.deserialize (data : Cbor) : RequestType → Option Reply
  | .appendDir => ((appendDirAck order).deserialize data).map .appendDir
  | .replaceDir => ((replaceDirAck order).deserialize data).map .replaceDir
  | .getIndex => (getIndexResponse.deserialize data).map .getIndex
  | .getIndexAt => ((getIndexAtResponse order).deserialize data).map .getIndexAt
  | .getBlock => (getBlockResponse.deserialize data).map .getBlock
  | .getBaseDir => (getBaseDirResponse.deserialize data).map .getBaseDir

/-- The data of a notification. -/
def Notification.serialize : Notification → Run Cbor
  | .publishImage data => Proto.publishImage.serialize data
  | .receivedImage data => Proto.receivedImage.serialize data
  | .abortedImage data => Proto.abortedImage.serialize data

/-- The notification of a type that some data is. -/
def Notification.deserialize (data : Cbor) : NotificationType → Option Notification
  | .publishImage => (Proto.publishImage.deserialize data).map .publishImage
  | .receivedImage => (Proto.receivedImage.deserialize data).map .receivedImage
  | .abortedImage => (Proto.abortedImage.deserialize data).map .abortedImage

/-- What is read as a request is of the type it was read as, and is written and read back. -/
theorem Request.reads_back {data : Cbor} {type : RequestType} {request : Request}
    (read : deserialize data type = some request) :
    request.type = type ∧
      ∃ out, request.serialize = .ok out ∧ deserialize out type = some request := by
  cases type with
  | appendDir =>
      obtain ⟨params, rfl, again⟩ := Proto.appendDir.reads_back_as read
      exact ⟨rfl, again⟩
  | replaceDir =>
      obtain ⟨params, rfl, again⟩ := Proto.replaceDir.reads_back_as read
      exact ⟨rfl, again⟩
  | getIndex =>
      obtain ⟨params, rfl, again⟩ := Proto.getIndex.reads_back_as read
      exact ⟨rfl, again⟩
  | getIndexAt =>
      obtain ⟨params, rfl, again⟩ := Proto.getIndexAt.reads_back_as read
      exact ⟨rfl, again⟩
  | getBlock =>
      obtain ⟨params, rfl, again⟩ := Proto.getBlock.reads_back_as read
      exact ⟨rfl, again⟩
  | getBaseDir =>
      obtain ⟨params, rfl, again⟩ := Proto.getBaseDir.reads_back_as read
      exact ⟨rfl, again⟩

/-- What is read as a reply is of the type it was read as, and is written and read back. -/
theorem Reply.reads_back {data : Cbor} {type : RequestType} {reply : Reply}
    (read : deserialize order data type = some reply) :
    reply.type = type ∧
      ∃ out, reply.serialize order = .ok out ∧ deserialize order out type = some reply := by
  cases type with
  | appendDir =>
      obtain ⟨reply, rfl, again⟩ := (appendDirAck order).reads_back_as read
      exact ⟨rfl, again⟩
  | replaceDir =>
      obtain ⟨reply, rfl, again⟩ := (replaceDirAck order).reads_back_as read
      exact ⟨rfl, again⟩
  | getIndex =>
      obtain ⟨reply, rfl, again⟩ := getIndexResponse.reads_back_as read
      exact ⟨rfl, again⟩
  | getIndexAt =>
      obtain ⟨reply, rfl, again⟩ := (getIndexAtResponse order).reads_back_as read
      exact ⟨rfl, again⟩
  | getBlock =>
      obtain ⟨reply, rfl, again⟩ := getBlockResponse.reads_back_as read
      exact ⟨rfl, again⟩
  | getBaseDir =>
      obtain ⟨reply, rfl, again⟩ := getBaseDirResponse.reads_back_as read
      exact ⟨rfl, again⟩

/-- What is read as a notification is of the type it was read as, and is written and read back. -/
theorem Notification.reads_back {data : Cbor} {type : NotificationType}
    {notification : Notification} (read : deserialize data type = some notification) :
    notification.type = type ∧
      ∃ out, notification.serialize = .ok out ∧ deserialize out type = some notification := by
  cases type with
  | publishImage =>
      obtain ⟨data, rfl, again⟩ := Proto.publishImage.reads_back_as read
      exact ⟨rfl, again⟩
  | receivedImage =>
      obtain ⟨data, rfl, again⟩ := Proto.receivedImage.reads_back_as read
      exact ⟨rfl, again⟩
  | abortedImage =>
      obtain ⟨data, rfl, again⟩ := Proto.abortedImage.reads_back_as read
      exact ⟨rfl, again⟩

/-- Reading does not depend on the order the hosts are written in. -/
theorem Reply.deserialize_order (order other : Listing MachineId (List Char)) :
    Reply.deserialize order = Reply.deserialize other := by
  funext data type
  cases type <;> rfl

end Data

/-- Protocol identifiers. -/
def NOTIFICATION : UInt64 := 0

/-- `REQUEST`. -/
def REQUEST : UInt64 := 1

/-- `RESPONSE`. -/
def RESPONSE : UInt64 := 2

/-- The types with the `WrapTrait`. -/
inductive Wrap where
  | request (request : Request)
  | notification (data : Notification)
  | response (requestId : UInt64) (data : Reply)
  | error (requestId : UInt64) (error : List Char)
deriving DecidableEq

section Packets

variable (codec : Codec) (order : Listing MachineId (List Char))

/-- `serialize_req`: the bytes of a binary packet. -/
def Wrap.serializeReq (requestId : UInt64) : Wrap → Run (List UInt8)
  | .request sent => do
      let data ← sent.serialize
      return codec.encode
        (.array [.unsigned REQUEST, .text sent.type.name, .unsigned requestId, data])
  | _ => .error .unreachable

/-- `serialize`. -/
def Wrap.serialize : Wrap → Run (List UInt8)
  | .request _ => .error .unreachable
  | .notification note => do
      let data ← note.serialize
      return codec.encode (.array [.unsigned NOTIFICATION, .text note.type.name, data])
  | .response requestId reply => do
      let data ← reply.serialize order
      return codec.encode
        (.array [.unsigned RESPONSE, .text reply.type.name, .unsigned requestId, data])
  | .error requestId text =>
      .ok (codec.encode
        (.array [.unsigned RESPONSE, .text errorName, .unsigned requestId, .text text]))

/-- A message through the wrapper of its kind. -/
def Message.packet : Message → Run (List UInt8)
  | .request id sent => (Wrap.request sent).serializeReq codec id
  | .response id (.reply reply) => (Wrap.response id reply).serialize codec order
  | .response id (.error text) => (Wrap.error id text).serialize codec order
  | .notification note => (Wrap.notification note).serialize codec order

/-- What the visitor takes for a response of some type. -/
def Response.visit (typ : List Char) (data : Cbor) : Option Response :=
  if typ = errorName then (Serde.text.deserialize data).map .error
  else do
    let typ ← RequestType.visitStr typ
    let reply ← Reply.deserialize order data typ
    return .reply reply

/-- `MessageVisitor::visit_seq`. Anything after the payload is refused by the decoder. -/
def Message.deserialize : Cbor → Option Message
  | .array (.unsigned kind :: .text typ :: rest) =>
      if kind = NOTIFICATION then
        match rest with
        | [data] => do
            let typ ← NotificationType.visitStr typ
            let note ← Notification.deserialize data typ
            return .notification note
        | _ => none
      else if kind = REQUEST then
        match rest with
        | [.unsigned requestId, data] => do
            let typ ← RequestType.visitStr typ
            let params ← Request.deserialize data typ
            return .request requestId params
        | _ => none
      else if kind = RESPONSE then
        match rest with
        | [.unsigned requestId, data] => do
            let answer ← Response.visit order typ data
            return .response requestId answer
        | _ => none
      else none
  | _ => none

/-- `serde_cbor::from_slice`. -/
def Message.decode (packet : List UInt8) : Option Message :=
  (codec.decode packet).bind (Message.deserialize order)

end Packets

/-- The number that a message begins with. -/
def Message.kind : Message → UInt64
  | .request .. => REQUEST
  | .response .. => RESPONSE
  | .notification _ => NOTIFICATION

/-- The name of the type that a message has. -/
def Message.typeName : Message → List Char
  | .request _ sent => sent.type.name
  | .response _ (.reply reply) => reply.type.name
  | .response _ (.error _) => errorName
  | .notification note => note.type.name

/-- The number of the request a message is about. -/
def Message.requestId : Message → Option UInt64
  | .request id _ => some id
  | .response id _ => some id
  | .notification _ => none

/-- The array a message is written as. -/
def Message.serialize (order : Listing MachineId (List Char)) : Message → Run Cbor
  | .request id sent => do
      let data ← sent.serialize
      return .array [.unsigned REQUEST, .text sent.type.name, .unsigned id, data]
  | .response id (.reply reply) => do
      let data ← reply.serialize order
      return .array [.unsigned RESPONSE, .text reply.type.name, .unsigned id, data]
  | .response id (.error text) =>
      .ok (.array [.unsigned RESPONSE, .text errorName, .unsigned id, .text text])
  | .notification note => do
      let data ← note.serialize
      return .array [.unsigned NOTIFICATION, .text note.type.name, data]

section RoundTrip

variable {codec : Codec} {order : Listing MachineId (List Char)}

/-- Every wrapper writes the array of its message. -/
theorem Message.packet_eq_map (message : Message) :
    message.packet codec order = (message.serialize order).map codec.encode := by
  cases message with
  | request id sent =>
      rw [Message.packet, Wrap.serializeReq, Message.serialize]
      cases sent.serialize <;> rfl
  | response id answer =>
      cases answer with
      | reply reply =>
          rw [Message.packet, Wrap.serialize, Message.serialize]
          cases reply.serialize order <;> rfl
      | error text => rfl
  | notification note =>
      rw [Message.packet, Wrap.serialize, Message.serialize]
      cases note.serialize <;> rfl

/-- A packet is the encoding of its message. -/
theorem Message.packet_eq_ok_iff {message : Message} {packet : List UInt8} :
    message.packet codec order = .ok packet ↔
      ∃ cbor, message.serialize order = .ok cbor ∧ codec.encode cbor = packet := by
  rw [Message.packet_eq_map]
  cases message.serialize order with
  | ok cbor => simp [Except.map]
  | error panic => simp [Except.map]

/-- What a message is about stands in front of its payload. -/
theorem Message.serialize_shape {message : Message} {cbor : Cbor}
    (written : message.serialize order = .ok cbor) :
    ∃ data, cbor = .array
      (.unsigned message.kind :: .text message.typeName ::
        (message.requestId.toList.map Cbor.unsigned ++ [data])) := by
  cases message with
  | request id sent =>
      obtain ⟨data, _, isCbor⟩ := Run.bind_eq_ok_iff.mp written
      exact ⟨data, (Except.ok.inj isCbor).symm⟩
  | response id answer =>
      cases answer with
      | reply reply =>
          obtain ⟨data, _, isCbor⟩ := Run.bind_eq_ok_iff.mp written
          exact ⟨data, (Except.ok.inj isCbor).symm⟩
      | error text => exact ⟨.text text, (Except.ok.inj written).symm⟩
  | notification note =>
      obtain ⟨data, _, isCbor⟩ := Run.bind_eq_ok_iff.mp written
      exact ⟨data, (Except.ok.inj isCbor).symm⟩

/-- Which requests a message is about can be told from where its payload stands. -/
theorem requestId_of_items {first second : Option UInt64} {data data' : Cbor}
    (same : first.toList.map Cbor.unsigned ++ [data] = second.toList.map Cbor.unsigned ++ [data']) :
    first = second := by
  have ids := (List.append_inj' same rfl).1
  cases first <;> cases second <;> simp_all

/-- Where a message that was read came from. -/
theorem Message.deserialize_cases {cbor : Cbor} {message : Message}
    (read : Message.deserialize order cbor = some message) :
    (∃ data type note, Notification.deserialize data type = some note ∧
      message = .notification note) ∨
    (∃ id data type params, Request.deserialize data type = some params ∧
      message = .request id params) ∨
    ∃ id typ data answer, Response.visit order typ data = some answer ∧
      message = .response id answer := by
  unfold Message.deserialize at read
  split at read
  · split at read
    · split at read
      · simp only [Option.bind_eq_bind, Option.bind_eq_some_iff, Option.pure_def,
          Option.some.injEq] at read
        obtain ⟨type, _, note, isNote, rfl⟩ := read
        exact .inl ⟨_, type, note, isNote, rfl⟩
      · simp at read
    · split at read
      · split at read
        · simp only [Option.bind_eq_bind, Option.bind_eq_some_iff, Option.pure_def,
            Option.some.injEq] at read
          obtain ⟨type, _, params, isParams, rfl⟩ := read
          exact .inr (.inl ⟨_, _, type, params, isParams, rfl⟩)
        · simp at read
      · split at read
        · split at read
          · simp only [Option.bind_eq_bind, Option.bind_eq_some_iff, Option.pure_def,
              Option.some.injEq] at read
            obtain ⟨answer, isAnswer, rfl⟩ := read
            exact .inr (.inr ⟨_, _, _, answer, isAnswer, rfl⟩)
          · simp at read
        · simp at read
  · simp at read

/-- A notification that is read is the message of that notification. -/
theorem Message.deserialize_notification {data : Cbor} {type : NotificationType}
    {note : Notification} (read : Notification.deserialize data type = some note) :
    Message.deserialize order (.array [.unsigned NOTIFICATION, .text type.name, data]) =
      some (.notification note) := by
  simp [Message.deserialize, read]

/-- A request that is read is the message of that request. -/
theorem Message.deserialize_request {id : UInt64} {data : Cbor} {type : RequestType}
    {params : Request} (read : Request.deserialize data type = some params) :
    Message.deserialize order (.array [.unsigned REQUEST, .text type.name, .unsigned id, data]) =
      some (.request id params) := by
  simp [Message.deserialize, read, REQUEST, NOTIFICATION]

/-- An answer that is read is the message of that answer. -/
theorem Message.deserialize_response (id : UInt64) {data : Cbor} {typ : List Char}
    {answer : Response} (read : Response.visit order typ data = some answer) :
    Message.deserialize order (.array [.unsigned RESPONSE, .text typ, .unsigned id, data]) =
      some (.response id answer) := by
  simp [Message.deserialize, read, RESPONSE, REQUEST, NOTIFICATION]

theorem Response.visit_reply {data : Cbor} {type : RequestType} {reply : Reply}
    (read : Reply.deserialize order data type = some reply) :
    Response.visit order type.name data = some (.reply reply) := by
  rw [Response.visit, if_neg type.name_ne_errorName]
  simp [read]

/-- An answer is an error, or a reply that is read. -/
theorem Response.visit_cases {data : Cbor} {typ : List Char} {answer : Response}
    (read : Response.visit order typ data = some answer) :
    (∃ text, answer = .error text) ∨
      ∃ type reply, Reply.deserialize order data type = some reply ∧ answer = .reply reply := by
  unfold Response.visit at read
  split at read
  · obtain ⟨text, _, rfl⟩ := Option.map_eq_some_iff.mp read
    exact .inl ⟨text, rfl⟩
  · simp only [Option.bind_eq_bind, Option.bind_eq_some_iff, Option.pure_def,
      Option.some.injEq] at read
    obtain ⟨type, _, reply, isReply, rfl⟩ := read
    exact .inr ⟨type, reply, isReply, rfl⟩

/-- A message that was read is written as an array that is read as the same message. -/
theorem Message.reads_back {cbor : Cbor} {message : Message}
    (read : Message.deserialize order cbor = some message) :
    ∃ out, message.serialize order = .ok out ∧ Message.deserialize order out = some message := by
  rcases Message.deserialize_cases read with
    ⟨data, type, note, isNote, rfl⟩ | ⟨id, data, type, params, isParams, rfl⟩ |
      ⟨id, typ, data, answer, isAnswer, rfl⟩
  · obtain ⟨rfl, out, written, again⟩ := Notification.reads_back isNote
    refine ⟨_, ?_, Message.deserialize_notification again⟩
    rw [Message.serialize, written]
    rfl
  · obtain ⟨rfl, out, written, again⟩ := Request.reads_back isParams
    refine ⟨_, ?_, Message.deserialize_request again⟩
    rw [Message.serialize, written]
    rfl
  · rcases Response.visit_cases isAnswer with ⟨text, rfl⟩ | ⟨type, reply, isReply, rfl⟩
    · exact ⟨_, rfl, Message.deserialize_response id rfl⟩
    · obtain ⟨rfl, out, written, again⟩ := Reply.reads_back order isReply
      refine ⟨_, ?_, Message.deserialize_response id (Response.visit_reply again)⟩
      rw [Message.serialize, written]
      rfl

/-- The order in which maps are written does not matter to who reads them. -/
theorem Message.deserialize_order (order other : Listing MachineId (List Char)) :
    Message.deserialize order = Message.deserialize other := by
  have visits : Response.visit order = Response.visit other := by
    funext typ data
    rw [Response.visit, Response.visit, Reply.deserialize_order order other]
  funext cbor
  unfold Message.deserialize
  rw [visits]

/-- A message that can be read is written as a packet that is read as the same message, by
nodes with orders of their own. -/
theorem Message.packet_round_trip (order reader : Listing MachineId (List Char)) {cbor : Cbor}
    {message : Message} (read : Message.deserialize reader cbor = some message) :
    ∃ packet, message.packet codec order = .ok packet ∧
      Message.decode codec reader packet = some message := by
  rw [Message.deserialize_order reader order] at read
  obtain ⟨out, written, again⟩ := Message.reads_back read
  refine ⟨codec.encode out, Message.packet_eq_ok_iff.mpr ⟨out, written, rfl⟩, ?_⟩
  rw [Message.decode, codec.decode_encode, Option.bind_some,
    Message.deserialize_order reader order, again]

/-- Every message that can be read is written, in whatever order its hosts are, as a packet
that everyone reads as the same message. Packets of two messages are equal only if the
messages agree in kind, type and number. -/
theorem packets_faithful (codec : Codec) :
    (∀ order reader cbor message, Message.deserialize reader cbor = some message →
      ∃ packet, message.packet codec order = .ok packet ∧
        Message.decode codec reader packet = some message) ∧
    ∀ order order' first second packet,
      Message.packet codec order first = .ok packet →
      Message.packet codec order' second = .ok packet →
        first.kind = second.kind ∧ first.typeName = second.typeName ∧
          first.requestId = second.requestId := by
  constructor
  · intro order reader cbor message read
    exact Message.packet_round_trip order reader read
  · intro order order' first second packet isFirst isSecond
    obtain ⟨cbor, written, encoded⟩ := Message.packet_eq_ok_iff.mp isFirst
    obtain ⟨cbor', written', encoded'⟩ := Message.packet_eq_ok_iff.mp isSecond
    have same : cbor = cbor' := codec.encode_injective (encoded.trans encoded'.symm)
    obtain ⟨data, shape⟩ := Message.serialize_shape written
    obtain ⟨data', shape'⟩ := Message.serialize_shape written'
    have items := Cbor.array.inj (shape.symm.trans (same.trans shape'))
    obtain ⟨kind, items⟩ := List.cons.inj items
    obtain ⟨name, items⟩ := List.cons.inj items
    exact ⟨Cbor.unsigned.inj kind, Cbor.text.inj name, requestId_of_items items⟩

end RoundTrip

/-- Hosts in the order of their ids, which is one that an iterator may have. -/
def machineOrder : Listing MachineId (List Char) :=
  letI : LinearOrder (List UInt8) := LinearOrder.lift' (List.map UInt8.toNat)
    (List.map_injective_iff.mpr fun _ _ => UInt8.toNat_inj.mp)
  .sorted

/-- An upload that was accepted, with the one host that will get the image. -/
def acceptedReply : Message :=
  .response 7 (.reply (.appendDir
    ⟨true, none, (∅ : Map MachineId (List Char)).insert (List.replicate 16 1) ['h']⟩))

/-- A directory right below the root. -/
def keyDir : VPath := ⟨Path.ofText "/key".toList, by decide, by decide⟩

/-- An upload of nothing so many nanoseconds after the epoch. -/
def earlyUpload (nanos : Nat) (bounded : nanos < 1000000000) : Message :=
  .request 7 (.appendDir
    ⟨keyDir, ⟨[]⟩, ⟨0, nanos, unixEpoch.le_secs, unixEpoch.secs_lt, bounded⟩, []⟩)

/-- A reply that came without a reason. Times that differ by less than a millisecond are
written alike, so that two messages share a packet. -/
theorem packets_faithful_accepted :
    (∃ packet, acceptedReply.packet Cbor.codec machineOrder = .ok packet ∧
      Message.decode Cbor.codec machineOrder packet = some acceptedReply) ∧
    earlyUpload 0 (by decide) ≠ earlyUpload 1 (by decide) ∧
    (earlyUpload 0 (by decide)).requestId = (earlyUpload 1 (by decide)).requestId := by
  have read : Message.deserialize machineOrder
      (.array [.unsigned 2, .text "AppendDir".toList, .unsigned 7,
        .map [(.text "accepted".toList, .bool true),
          (.text "hosts".toList, .map [(.bytes (List.replicate 16 1), .text ['h'])])]]) =
      some acceptedReply := rfl
  have times : (earlyUpload 1 (by decide)).serialize machineOrder =
      (earlyUpload 0 (by decide)).serialize machineOrder := rfl
  have alike : (earlyUpload 1 (by decide)).packet Cbor.codec machineOrder =
      (earlyUpload 0 (by decide)).packet Cbor.codec machineOrder := by
    rw [Message.packet_eq_map, Message.packet_eq_map, times]
  have written : (earlyUpload 0 (by decide)).packet Cbor.codec machineOrder = .ok _ := rfl
  refine ⟨(packets_faithful Cbor.codec).1 machineOrder machineOrder _ acceptedReply read, ?_, ?_⟩
  · intro same
    have params := Request.appendDir.inj (Message.request.inj same).2
    exact absurd (congrArg (fun params => params.timestamp.nanos) params) (by decide)
  · exact ((packets_faithful Cbor.codec).2 machineOrder machineOrder _ _ _ written
      (alike.trans written)).2.2

end Ciruela.Proto
