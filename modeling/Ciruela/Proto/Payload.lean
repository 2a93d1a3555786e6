import Mathlib.Data.Char
import Ciruela.Foundation.Serde
import Ciruela.Proto.Commands
import Ciruela.TimeUtil

/-!
# The form of payloads on the wire

The structures that requests, responses and notifications carry, with all of their fields,
and how each of them is written and read. Times are system times here; in the files and on
the wire they are milliseconds.
-/

namespace Ciruela.Proto

open Foundation

/-- `proto::Hash`. -/
@[ext] structure Hash where
  bytes : List UInt8
  length_eq : bytes.length = 32

instance : DecidableEq Hash := fun first second =>
  decidable_of_iff (first.bytes = second.bytes) Hash.ext_iff.symm

/-- `blocks::BlockHash`. -/
@[ext] structure BlockHash where
  bytes : List UInt8
  length_eq : bytes.length = 32

instance : DecidableEq BlockHash := fun first second =>
  decidable_of_iff (first.bytes = second.bytes) BlockHash.ext_iff.symm

/-- A visitor that takes so many bytes, or so many bytes in hexadecimal digits. -/
def visitHex (count : Nat) : Cbor → Option { bytes : List UInt8 // bytes.length = count }
  | .bytes value => if fits : value.length = count then some ⟨value, fits⟩ else none
  | .text value =>
      if (Cbor.utf8 value).length = 2 * count then do
        let bytes ← ImageId.bytesOfHex value
        if fits : bytes.length = count then some ⟨bytes, fits⟩ else none
      else none
  | _ => none

/-- Bytes of the right number are read as they are. -/
theorem visitHex_bytes {count : Nat} {value : List UInt8} (fits : value.length = count) :
    visitHex count (.bytes value) = some ⟨value, fits⟩ := dif_pos fits

section Parts

/-- `Hash`, as its bytes or as a text. -/
def hash : Serde Hash where
  serialize hash := .ok (.bytes hash.bytes)
  deserialize cbor := (visitHex 32 cbor).map fun found => ⟨found.1, found.2⟩
  reads_back _ hash _ := ⟨.bytes hash.bytes, rfl, by rw [visitHex_bytes hash.length_eq]; rfl⟩

/-- `MachineId`, as its bytes or as a text. -/
def machineId : Serde MachineId where
  serialize id := .ok (.bytes id)
  deserialize cbor := (visitHex 16 cbor).map Subtype.val
  reads_back := by
    intro cbor id read
    obtain ⟨⟨bytes, fits⟩, _, rfl⟩ := Option.map_eq_some_iff.mp read
    exact ⟨.bytes bytes, rfl, by rw [visitHex_bytes fits]; rfl⟩

/-- `BlockHash`: no other length than its own is read. -/
def blockHash : Serde BlockHash where
  serialize hash := .ok (.bytes hash.bytes)
  deserialize
    | .bytes value => if fits : value.length = 32 then some ⟨value, fits⟩ else none
    | _ => none
  reads_back _ hash _ := ⟨.bytes hash.bytes, rfl, dif_pos hash.length_eq⟩

/-- `ImageId`. -/
def imageId : Serde ImageId where
  serialize image := .ok (.bytes image.bytes)
  deserialize
    | .bytes value => some ⟨value⟩
    | _ => none
  reads_back _ image _ := ⟨.bytes image.bytes, rfl, rfl⟩

/-- `PathBuf` is its text. -/
def pathBuf : Serde Path := Serde.text.via ⟨Path.text, Path.ofText, Path.ofText_text, Path.text_ofText⟩

/-- A virtual path is written as it is and checked when it is read. -/
def vpath : Serde VPath where
  serialize vpath := .ok (.text vpath.path.text)
  deserialize cbor := (Serde.text.deserialize cbor).bind VPath.deserialize
  reads_back := by
    intro cbor vpath read
    obtain ⟨text, _, accepted⟩ := Option.bind_eq_some_iff.mp read
    refine ⟨.text vpath.path.text, rfl, ?_⟩
    have same : vpath.path.text = text := by
      unfold VPath.deserialize at accepted
      split at accepted
      · rw [← Option.some.inj accepted, Path.text_ofText]
      · simp at accepted
    rw [same]
    exact accepted

/-- `timestamp::deserialize`. -/
def readTimestamp (cbor : Cbor) : Option SystemTime := do
  let ms ← Serde.u64.deserialize cbor
  (fromMs ms).toOption

/-- Milliseconds are read as their time. -/
theorem readTimestamp_unsigned {ms : UInt64} {time : SystemTime} (isTime : fromMs ms = .ok time) :
    readTimestamp (.unsigned ms) = some time := by
  have unsigned : Serde.u64.deserialize (.unsigned ms) = some ms := rfl
  have found : (fromMs ms).toOption = some time := by
    rw [isTime]
    rfl
  rw [readTimestamp, unsigned, Option.bind_eq_bind, Option.bind_some, found]

/-- `serialize::timestamp`. -/
def timestamp : Serde SystemTime where
  serialize time := do return .unsigned (← toMs time)
  deserialize := readTimestamp
  reads_back := by
    intro cbor time read
    obtain ⟨ms, _, isTime⟩ := Option.bind_eq_some_iff.mp read
    have isTime := Run.ok_of_toOption isTime
    refine ⟨.unsigned ms, ?_, readTimestamp_unsigned isTime⟩
    rw [toMs_of_fromMs isTime]
    rfl

/-- The name of the kind of key that signs. -/
def sshEd25519 : List Char := "ssh-ed25519".toList

/-- A signature is its kind and its bytes. -/
def signature : Serde Signature where
  serialize signature := .ok (.array [.text sshEd25519, .bytes signature.bytes])
  deserialize
    | .array [.text kind, .bytes value] =>
        if kind = sshEd25519 then
          if fits : value.length = 64 then some ⟨value, fits⟩ else none
        else none
    | _ => none
  reads_back _ signature _ :=
    ⟨.array [.text sshEd25519, .bytes signature.bytes], rfl, by simp [signature.length_eq]⟩

end Parts

/-- `database::signatures::SignatureEntry`. -/
structure SignatureEntry where
  timestamp : SystemTime
  signature : Signature
deriving DecidableEq

/-- `database::signatures::State`. -/
structure State where
  image : ImageId
  signatures : List SignatureEntry
deriving DecidableEq

/-- The elements of a signature entry. -/
def SignatureEntry.elements : SignatureEntry ≃ SystemTime × Signature where
  toFun entry := (entry.timestamp, entry.signature)
  invFun elements := ⟨elements.1, elements.2⟩

/-- `SignatureEntry`, as a tuple. -/
def signatureEntry : Serde SignatureEntry :=
  (Tuple.cons timestamp (.last signature)).serde.via SignatureEntry.elements

/-- The fields of a state. -/
def State.fields : State ≃ ImageId × List SignatureEntry where
  toFun state := (state.image, state.signatures)
  invFun fields := ⟨fields.1, fields.2⟩

/-- `State`. -/
def state : Serde State :=
  (((Record.required "image" imageId).and (.required "signatures" signatureEntry.list)).via
    State.fields).serde (by decide)

section Requests

/-- `AppendDir`, as it is sent. -/
structure AppendDir where
  path : VPath
  image : ImageId
  timestamp : SystemTime
  signatures : List Signature
deriving DecidableEq

/-- `ReplaceDir`, as it is sent. -/
structure ReplaceDir where
  path : VPath
  image : ImageId
  oldImage : Option ImageId
  timestamp : SystemTime
  signatures : List Signature
deriving DecidableEq

/-- `GetIndex`, as it is sent. -/
structure GetIndex where
  id : ImageId
  hint : Option VPath
deriving DecidableEq

/-- `GetBlock`, as it is sent. -/
structure GetBlock where
  hash : BlockHash
  hint : Option (VPath × Path × UInt64)
deriving DecidableEq

/-- The fields of an append. -/
def AppendDir.fields : AppendDir ≃ VPath × ImageId × SystemTime × List Signature where
  toFun params := (params.path, params.image, params.timestamp, params.signatures)
  invFun fields := ⟨fields.1, fields.2.1, fields.2.2.1, fields.2.2.2⟩

/-- An append, read and written. -/
def appendDir : Serde AppendDir :=
  (((Record.required "path" vpath).and <|
    (Record.required "image" imageId).and <|
    (Record.required "timestamp" timestamp).and <|
    Record.required "signatures" signature.list).via AppendDir.fields).serde (by decide)

/-- The fields of a replacement. -/
def ReplaceDir.fields :
    ReplaceDir ≃ VPath × ImageId × Option ImageId × SystemTime × List Signature where
  toFun params :=
    (params.path, params.image, params.oldImage, params.timestamp, params.signatures)
  invFun fields := ⟨fields.1, fields.2.1, fields.2.2.1, fields.2.2.2.1, fields.2.2.2.2⟩

/-- A replacement, read and written. -/
def replaceDir : Serde ReplaceDir :=
  (((Record.required "path" vpath).and <|
    (Record.required "image" imageId).and <|
    (Record.optional "old_image" imageId rfl).and <|
    (Record.required "timestamp" timestamp).and <|
    Record.required "signatures" signature.list).via ReplaceDir.fields).serde (by decide)

/-- The fields of `GetIndex`. -/
def GetIndex.fields : GetIndex ≃ ImageId × Option VPath where
  toFun params := (params.id, params.hint)
  invFun fields := ⟨fields.1, fields.2⟩

/-- `GetIndex`, read and written. -/
def getIndex : Serde GetIndex :=
  (((Record.required "id" imageId).and <|
    Record.optional "hint" vpath rfl).via GetIndex.fields).serde (by decide)

/-- `GetIndexAt`, read and written. -/
def getIndexAt : Serde GetIndexAt :=
  ((Record.required "path" vpath).via
    ⟨GetIndexAt.path, GetIndexAt.mk, fun _ => rfl, fun _ => rfl⟩).serde (by decide)

/-- The fields of `GetBlock`. -/
def GetBlock.fields : GetBlock ≃ BlockHash × Option (VPath × Path × UInt64) where
  toFun params := (params.hash, params.hint)
  invFun fields := ⟨fields.1, fields.2⟩

/-- `GetBlock`, read and written. -/
def getBlock : Serde GetBlock :=
  (((Record.required "hash" blockHash).and <|
    Record.optional "hint" (Tuple.cons vpath (.cons pathBuf (.last .u64))).serde rfl).via
      GetBlock.fields).serde (by decide)

/-- `GetBaseDir`, read and written. -/
def getBaseDir : Serde GetBaseDir :=
  ((Record.required "path" vpath).via
    ⟨GetBaseDir.path, GetBaseDir.mk, fun _ => rfl, fun _ => rfl⟩).serde (by decide)

end Requests

section Responses

/-- `AppendDirAck`. -/
structure AppendDirAck where
  accepted : Bool
  rejectReason : Option (List Char)
  hosts : Map MachineId (List Char)
deriving DecidableEq

/-- `ReplaceDirAck`. -/
structure ReplaceDirAck where
  accepted : Bool
  rejectReason : Option (List Char)
  hosts : Map MachineId (List Char)
deriving DecidableEq

/-- `GetIndexResponse`. -/
structure GetIndexResponse where
  data : List UInt8
deriving DecidableEq

/-- `GetIndexAtResponse`. -/
structure GetIndexAtResponse where
  data : Option (List UInt8)
  hosts : Map MachineId (List Char)
deriving DecidableEq

/-- `GetBlockResponse`. -/
structure GetBlockResponse where
  data : List UInt8
deriving DecidableEq

/-- `BTreeMap<String, State>`. -/
abbrev Dirs := Map (List Char) State

/-- `GetBaseDirResponse`. -/
structure GetBaseDirResponse where
  configHash : Hash
  keepListHash : Hash
  dirs : Dirs
deriving DecidableEq

/-- The states of a directory, by the names of its images. -/
def dirs : Serde Dirs := .map .sorted .text state

/-- The fields of `GetBaseDirResponse`. -/
def GetBaseDirResponse.fields : GetBaseDirResponse ≃ Hash × Hash × Dirs where
  toFun reply := (reply.configHash, reply.keepListHash, reply.dirs)
  invFun fields := ⟨fields.1, fields.2.1, fields.2.2⟩

/-- `GetBaseDirResponse`, read and written. -/
def getBaseDirResponse : Serde GetBaseDirResponse :=
  (((Record.required "config_hash" hash).and <|
    (Record.required "keep_list_hash" hash).and <|
    Record.required "dirs" dirs).via GetBaseDirResponse.fields).serde (by decide)

/-- `GetIndexResponse`, read and written. -/
def getIndexResponse : Serde GetIndexResponse :=
  ((Record.required "data" .byteBuf).via
    ⟨GetIndexResponse.data, GetIndexResponse.mk, fun _ => rfl, fun _ => rfl⟩).serde (by decide)

/-- `GetBlockResponse`, read and written. -/
def getBlockResponse : Serde GetBlockResponse :=
  ((Record.required "data" .byteBuf).via
    ⟨GetBlockResponse.data, GetBlockResponse.mk, fun _ => rfl, fun _ => rfl⟩).serde (by decide)

/-- `HashMap<MachineId, String>` in the order its iterator has. -/
def hosts (order : Listing MachineId (List Char)) : Record (Map MachineId (List Char)) :=
  .defaulted "hosts" (.map order machineId .text) ∅ ⟨.map [], rfl⟩

/-- The fields of both acknowledgements. -/
def ack (order : Listing MachineId (List Char)) :
    Record (Bool × Option (List Char) × Map MachineId (List Char)) :=
  (Record.required "accepted" .bool).and <|
    (Record.optional "reject_reason" .text rfl).and (hosts order)

/-- The fields of an acknowledgement have different names. -/
theorem nodup_ack (order : Listing MachineId (List Char)) : (ack order).names.Nodup := by
  show ["accepted".toList, "reject_reason".toList, "hosts".toList].Nodup
  decide

/-- The fields of `AppendDirAck`. -/
def AppendDirAck.fields :
    AppendDirAck ≃ Bool × Option (List Char) × Map MachineId (List Char) where
  toFun reply := (reply.accepted, reply.rejectReason, reply.hosts)
  invFun fields := ⟨fields.1, fields.2.1, fields.2.2⟩

/-- `AppendDirAck`, read and written. -/
def appendDirAck (order : Listing MachineId (List Char)) : Serde AppendDirAck :=
  ((ack order).via AppendDirAck.fields).serde (nodup_ack order)

/-- The fields of `ReplaceDirAck`. -/
def ReplaceDirAck.fields :
    ReplaceDirAck ≃ Bool × Option (List Char) × Map MachineId (List Char) where
  toFun reply := (reply.accepted, reply.rejectReason, reply.hosts)
  invFun fields := ⟨fields.1, fields.2.1, fields.2.2⟩

/-- `ReplaceDirAck`, read and written. -/
def replaceDirAck (order : Listing MachineId (List Char)) : Serde ReplaceDirAck :=
  ((ack order).via ReplaceDirAck.fields).serde (nodup_ack order)

/-- The fields of `GetIndexAtResponse`. -/
def GetIndexAtResponse.fields :
    GetIndexAtResponse ≃ Option (List UInt8) × Map MachineId (List Char) where
  toFun reply := (reply.data, reply.hosts)
  invFun fields := ⟨fields.1, fields.2⟩

/-- `GetIndexAtResponse`, read and written. -/
def getIndexAtResponse (order : Listing MachineId (List Char)) : Serde GetIndexAtResponse :=
  (((Record.optional "data" .byteBuf rfl).and (hosts order)).via
    GetIndexAtResponse.fields).serde (show ["data".toList, "hosts".toList].Nodup by decide)

end Responses

section Notifications

/-- `PublishImage`. -/
structure PublishImage where
  id : ImageId
deriving DecidableEq

/-- `ReceivedImage`: what a server tells of an image that is complete. -/
structure ReceivedImage where
  id : ImageId
  path : VPath
  machineId : MachineId
  hostname : List Char
  forwarded : Bool
deriving DecidableEq

/-- `AbortedImage`: what a server tells of a download that was given up. -/
structure AbortedImage where
  id : ImageId
  path : VPath
  machineId : MachineId
  hostname : List Char
  forwarded : Bool
  reason : List Char
deriving DecidableEq

/-- `PublishImage`, read and written. -/
def publishImage : Serde PublishImage :=
  ((Record.required "id" imageId).via
    ⟨PublishImage.id, PublishImage.mk, fun _ => rfl, fun _ => rfl⟩).serde (by decide)

/-- The fields of `ReceivedImage`. -/
def ReceivedImage.fields : ReceivedImage ≃ ImageId × VPath × MachineId × List Char × Bool where
  toFun note := (note.id, note.path, note.machineId, note.hostname, note.forwarded)
  invFun fields := ⟨fields.1, fields.2.1, fields.2.2.1, fields.2.2.2.1, fields.2.2.2.2⟩

/-- `ReceivedImage`, read and written. -/
def receivedImage : Serde ReceivedImage :=
  (((Record.required "id" imageId).and <|
    (Record.required "path" vpath).and <|
    (Record.required "machine_id" machineId).and <|
    (Record.required "hostname" .text).and <|
    Record.required "forwarded" .bool).via ReceivedImage.fields).serde (by decide)

/-- The fields of `AbortedImage`. -/
def AbortedImage.fields :
    AbortedImage ≃ ImageId × VPath × MachineId × List Char × Bool × List Char where
  toFun note :=
    (note.id, note.path, note.machineId, note.hostname, note.forwarded, note.reason)
  invFun fields :=
    ⟨fields.1, fields.2.1, fields.2.2.1, fields.2.2.2.1, fields.2.2.2.2.1, fields.2.2.2.2.2⟩

/-- `AbortedImage`, read and written. -/
def abortedImage : Serde AbortedImage :=
  (((Record.required "id" imageId).and <|
    (Record.required "path" vpath).and <|
    (Record.required "machine_id" machineId).and <|
    (Record.required "hostname" .text).and <|
    (Record.required "forwarded" .bool).and <|
    Record.required "reason" .text).via AbortedImage.fields).serde (by decide)

end Notifications

end Ciruela.Proto
