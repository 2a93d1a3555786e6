import Ciruela.Client.Uploads
import Ciruela.Cluster.Set
import Ciruela.Daemon.Metadata.Record

/-!
# Uploads that are signed

A client signs the path, the image and the time of an upload with its private keys, and sends
the signatures with the request. A server checks what it has read from the request against the
public keys that it has. The time is signed and sent in milliseconds.
-/

namespace Ciruela.Client

open Foundation Proto
open Cluster (SignedUpload NewUpload)
open Metadata (Demand Env KeyFiles checkKeys readUploadKeys)

/-- `ssh_keys::PrivateKey`. -/
inductive PrivateKey where
  | ed25519 (bytes : List UInt8)
  | other
deriving DecidableEq

/-- `ed25519::signature` of the data as it is serialized. -/
abbrev Signer := SigData → List UInt8 → Signature

/-- `sign`. A key of another kind ends the program. -/
def sign (signer : Signer) (src : SigData) (keys : List PrivateKey) : Option (List Signature) :=
  keys.mapM fun
    | .ed25519 bytes => some (signer src bytes)
    | .other => none

/-- `sign_upload`. -/
def signUpload (signer : Signer) (path : VPath) (image : ImageId) (timestamp : SystemTime)
    (keys : List PrivateKey) : Run (Option SignedUpload) := do
  let ms ← toMs timestamp
  return (sign signer ⟨path.path.text, image.bytes, ms.toNat⟩ keys).map fun signatures =>
    ⟨path, image, timestamp, signatures⟩

section Connection

variable (upload : SignedUpload)

/-- `Connection::append`. -/
def append : NewUpload := ⟨false, false, upload, none⟩

/-- `Connection::append_weak`. -/
def appendWeak : NewUpload := ⟨false, true, upload, none⟩

/-- `Connection::replace`. -/
def replace : NewUpload := ⟨true, false, upload, none⟩

/-- `Connection::replace_if_matches`. -/
def replaceIfMatches (oldImage : ImageId) : NewUpload := ⟨true, false, upload, some oldImage⟩

end Connection

/-- What the metadata makes of a request for an upload. -/
def demandOf (keys : KeyFiles) : Proto.Request → Option (Run Demand)
  | .appendDir params => some do
      return .ofAppend keys ⟨params.path, params.image, (← toMs params.timestamp).toNat,
        params.signatures⟩
  | .replaceDir params => some do
      return .ofReplace keys ⟨params.path, params.image, params.oldImage,
        (← toMs params.timestamp).toNat, params.signatures⟩
  | _ => none

section Wire

variable {codec : Codec} {order : Listing MachineId (List Char)}

/-- A time that is sent arrives without what is less than a millisecond of it. -/
theorem timestamp_arrives {time : SystemTime} {ms : UInt64} (isMs : toMs time = .ok ms) :
    ∃ arrived, toMs arrived = .ok ms ∧ Proto.timestamp.Readable arrived ∧
      Proto.timestamp.serialize arrived = Proto.timestamp.serialize time := by
  obtain ⟨arrived, isTime, _⟩ := fromMs_eq_ok ms
  have again := toMs_of_fromMs isTime
  refine ⟨arrived, again, ⟨.unsigned ms, readTimestamp_unsigned isTime⟩, ?_⟩
  show (do return Cbor.unsigned (← toMs arrived)) = (do return Cbor.unsigned (← toMs time))
  rw [again, isMs]

/-- Every image can be read. -/
theorem readable_image (image : ImageId) : Proto.imageId.Readable image :=
  ⟨.bytes image.bytes, rfl⟩

/-- All signatures can be read. -/
theorem readable_signatures (signatures : List Signature) :
    Proto.signature.list.Readable signatures := by
  refine Serde.readable_list fun signature _ => ?_
  refine ⟨.array [.text sshEd25519, .bytes signature.bytes], ?_⟩
  simp [Proto.signature, signature.length_eq]

/-- An append is read when its path and its time are. -/
theorem readable_appendDir {params : Proto.AppendDir}
    (path : VPath.checkPath params.path.path = true)
    (timestamp : Proto.timestamp.Readable params.timestamp) : Proto.appendDir.Readable params := by
  obtain ⟨pathForm, isPath⟩ := readable_vpath path
  obtain ⟨imageForm, isImage⟩ := readable_image params.image
  obtain ⟨timeForm, isTime⟩ := timestamp
  obtain ⟨signaturesForm, isSignatures⟩ := readable_signatures params.signatures
  exact Record.readable_serde (((Record.fills_required "path" isPath).append
    ((Record.fills_required "image" isImage).append
      ((Record.fills_required "timestamp" isTime).append
        (Record.fills_required "signatures" isSignatures)))).map AppendDir.fields.symm)

/-- A replacement is read when its path and its time are. -/
theorem readable_replaceDir {params : Proto.ReplaceDir}
    (path : VPath.checkPath params.path.path = true)
    (timestamp : Proto.timestamp.Readable params.timestamp) : Proto.replaceDir.Readable params := by
  obtain ⟨pathForm, isPath⟩ := readable_vpath path
  obtain ⟨imageForm, isImage⟩ := readable_image params.image
  obtain ⟨oldForm, isOld⟩ : (Proto.imageId.option rfl).Readable params.oldImage := by
    cases params.oldImage with
    | none => exact ⟨.null, rfl⟩
    | some image => exact ⟨.bytes image.bytes, rfl⟩
  obtain ⟨timeForm, isTime⟩ := timestamp
  obtain ⟨signaturesForm, isSignatures⟩ := readable_signatures params.signatures
  have old : Fills (Record.optional "old_image" Proto.imageId rfl).names
      (Record.optional "old_image" Proto.imageId rfl).read [oldForm] params.oldImage :=
    Record.fills_defaulted "old_image" ⟨.null, rfl⟩ isOld
  exact Record.readable_serde (((Record.fills_required "path" isPath).append
    ((Record.fills_required "image" isImage).append (old.append
      ((Record.fills_required "timestamp" isTime).append
        (Record.fills_required "signatures" isSignatures))))).map ReplaceDir.fields.symm)

/-- A request that is written like one that can be read is read as that one. -/
theorem decode_request {reader : Listing MachineId (List Char)} {request arrived : Proto.Request}
    {id : UInt64} {packet : List UInt8}
    (same : arrived.serialize = request.serialize) (type : arrived.type = request.type)
    (readable : ∃ data, Proto.Request.deserialize data arrived.type = some arrived)
    (sent : Message.packet codec order (.request id request) = .ok packet) :
    Message.decode codec reader packet = some (.request id arrived) := by
  obtain ⟨data, read⟩ := readable
  obtain ⟨_, out, written, again⟩ := Proto.Request.reads_back read
  obtain ⟨cbor, isCbor, rfl⟩ := Message.packet_eq_ok_iff.mp sent
  obtain ⟨other, isOther, isArray⟩ := Run.bind_eq_ok_iff.mp isCbor
  obtain rfl := Except.ok.inj (isOther.symm.trans (same.symm.trans written))
  obtain rfl := Except.ok.inj isArray
  rw [Message.decode, codec.decode_encode, Option.bind_some, ← type,
    Message.deserialize_request again]

/-- Writing the fields of an upload depends on its time as far as it is sent. -/
theorem serialize_appendDir {path : VPath} {image : ImageId} {time arrived : SystemTime}
    {signatures : List Signature}
    (same : Proto.timestamp.serialize arrived = Proto.timestamp.serialize time) :
    Proto.appendDir.serialize ⟨path, image, arrived, signatures⟩ =
      Proto.appendDir.serialize ⟨path, image, time, signatures⟩ := by
  simp only [Proto.appendDir, Record.serde, Record.via, Record.and, Record.required,
    AppendDir.fields, Equiv.coe_fn_mk, same]

/-- Only the milliseconds of the time are in what is sent. -/
theorem serialize_replaceDir {path : VPath} {image : ImageId} {old : Option ImageId}
    {time arrived : SystemTime} {signatures : List Signature}
    (same : Proto.timestamp.serialize arrived = Proto.timestamp.serialize time) :
    Proto.replaceDir.serialize ⟨path, image, old, arrived, signatures⟩ =
      Proto.replaceDir.serialize ⟨path, image, old, time, signatures⟩ := by
  simp only [Proto.replaceDir, Record.serde, Record.via, Record.and, Record.required,
    ReplaceDir.fields, Equiv.coe_fn_mk, same]

/-- What a server makes of an upload that was sent: its time is that of the signatures. -/
theorem demand_arrives (reader : Listing MachineId (List Char)) {config : Cluster.Config}
    {now : Nat} {new : NewUpload} {ms : UInt64}
    (accepted : VPath.checkPath new.upload.path.path = true)
    (isMs : toMs new.upload.timestamp = .ok ms) {id : UInt64} {packet : List UInt8}
    (sent : Message.packet codec order
      (.request id (Cluster.Upload.start config now new).request) = .ok packet) :
    ∃ arrived, Message.decode codec reader packet = some (.request id arrived) ∧
      ∀ keys, demandOf keys arrived = some (.ok ⟨new.upload.path, new.upload.imageId, ms.toNat,
        new.upload.signatures, if new.replace then some new.oldImage else none, keys⟩) := by
  obtain ⟨time, again, readable, same⟩ := timestamp_arrives isMs
  cases replacing : new.replace with
  | true =>
      have asked : (Cluster.Upload.start config now new).request = .replaceDir
          ⟨new.upload.path, new.upload.imageId, new.oldImage, new.upload.timestamp,
            new.upload.signatures⟩ := by
        simp only [Cluster.Upload.request, Cluster.Upload.start, replacing, if_true]
      rw [asked] at sent
      have isReadable : Proto.replaceDir.Readable ⟨new.upload.path, new.upload.imageId,
          new.oldImage, time, new.upload.signatures⟩ := readable_replaceDir accepted readable
      obtain ⟨data, read⟩ := isReadable
      have sameForm : (Proto.Request.replaceDir ⟨new.upload.path, new.upload.imageId, new.oldImage,
          time, new.upload.signatures⟩).serialize = (Proto.Request.replaceDir ⟨new.upload.path,
            new.upload.imageId, new.oldImage, new.upload.timestamp,
            new.upload.signatures⟩).serialize := serialize_replaceDir same
      refine ⟨_, decode_request sameForm rfl ⟨data, ?_⟩ sent, ?_⟩
      · exact congrArg (Option.map Proto.Request.replaceDir) read
      · intro keys
        rw [demandOf, again]
        rfl
  | false =>
      have asked : (Cluster.Upload.start config now new).request = .appendDir
          ⟨new.upload.path, new.upload.imageId, new.upload.timestamp,
            new.upload.signatures⟩ := by
        simp only [Cluster.Upload.request, Cluster.Upload.start, replacing, Bool.false_eq_true,
          if_false]
      rw [asked] at sent
      have isReadable : Proto.appendDir.Readable ⟨new.upload.path, new.upload.imageId, time,
          new.upload.signatures⟩ := readable_appendDir accepted readable
      obtain ⟨data, read⟩ := isReadable
      have sameForm : (Proto.Request.appendDir ⟨new.upload.path, new.upload.imageId, time,
          new.upload.signatures⟩).serialize = (Proto.Request.appendDir ⟨new.upload.path,
            new.upload.imageId, new.upload.timestamp, new.upload.signatures⟩).serialize :=
        serialize_appendDir same
      refine ⟨_, decode_request sameForm rfl ⟨data, ?_⟩ sent, ?_⟩
      · exact congrArg (Option.map Proto.Request.appendDir) read
      · intro keys
        rw [demandOf, again]
        rfl

end Wire

/-- A signature is good for the public half of the key that it was made with. -/
def Matches (env : Env) (signer : Signer) (half : List UInt8 → List UInt8) : Prop :=
  ∀ data key, env.ed25519 data (half key) (signer data key).bytes = true

section Checked

variable {env : Env} {signer : Signer} {half : List UInt8 → List UInt8}

/-- The signatures are those of the keys that can sign. -/
theorem mem_sign {src : SigData} {keys : List PrivateKey} {signatures : List Signature}
    (signed : sign signer src keys = some signatures) {signature : Signature} :
    signature ∈ signatures ↔ ∃ bytes, .ed25519 bytes ∈ keys ∧ signer src bytes = signature := by
  induction keys generalizing signatures with
  | nil =>
      obtain rfl := Option.some.inj signed
      simp
  | cons key rest ih =>
      rw [sign, List.mapM_cons] at signed
      cases key with
      | other => cases signed
      | ed25519 bytes =>
          obtain ⟨first, isFirst, signed⟩ := Option.bind_eq_some_iff.mp signed
          obtain rfl := Option.some.inj isFirst
          obtain ⟨others, isOthers, isAll⟩ := Option.bind_eq_some_iff.mp signed
          obtain rfl := Option.some.inj isAll
          rw [List.mem_cons, ih isOthers]
          constructor
          · rintro (rfl | ⟨other, member, isSigned⟩)
            · exact ⟨bytes, List.mem_cons_self, rfl⟩
            · exact ⟨other, List.mem_cons_of_mem _ member, isSigned⟩
          · rintro ⟨other, member, isSigned⟩
            rcases List.mem_cons.mp member with same | later
            · obtain rfl := PrivateKey.ed25519.inj same
              exact Or.inl isSigned.symm
            · exact Or.inr ⟨other, later, isSigned⟩

/-- A good signature is one of an ed25519 key. -/
theorem verify_iff {data : SigData} {signature : Signature} {keys : List PublicKey} :
    verify env.ed25519 data signature keys = true ↔
      ∃ key, .ed25519 key ∈ keys ∧ env.ed25519 data key signature.bytes = true := by
  rw [verify, List.any_eq_true]
  constructor
  · rintro ⟨key, member, good⟩
    cases key with
    | ed25519 key => exact ⟨key, member, good⟩
    | other => cases good
  · rintro ⟨key, member, good⟩
    exact ⟨.ed25519 key, member, good⟩

/-- The signatures of a client are checked on the data that it has signed. -/
theorem checkKeys_sign {src : SigData} {privateKeys : List PrivateKey}
    {signatures : List Signature} (signed : sign signer src privateKeys = some signatures)
    {keys : KeyFiles} {directory : Directory} {allowed : List PublicKey}
    (reads : readUploadKeys env keys directory = .ok allowed) :
    ∃ passed, checkKeys env keys src signatures directory = .ok passed ∧
      (passed = true ↔ ∃ key other, .ed25519 key ∈ privateKeys ∧ .ed25519 other ∈ allowed ∧
        env.ed25519 src other (signer src key).bytes = true) := by
  refine ⟨signatures.any fun signature => verify env.ed25519 src signature allowed, ?_, ?_⟩
  · unfold checkKeys
    rw [reads]
  · rw [List.any_eq_true]
    constructor
    · rintro ⟨signature, member, good⟩
      obtain ⟨key, isKey, rfl⟩ := (mem_sign signed).mp member
      obtain ⟨other, isAllowed, good⟩ := verify_iff.mp good
      exact ⟨key, other, isKey, isAllowed, good⟩
    · rintro ⟨key, other, isKey, isAllowed, good⟩
      exact ⟨signer src key, (mem_sign signed).mpr ⟨key, isKey, rfl⟩,
        verify_iff.mpr ⟨other, isAllowed, good⟩⟩

/-- What a client has signed and sent is read by a server as the demand that was meant. It passes
the check exactly when an upload key of the server is good for a signature of the client, as the
public half of a key of the client is. -/
theorem signed_upload_checked (isPair : Matches env signer half) {codec : Codec}
    {order reader : Listing MachineId (List Char)} {config : Cluster.Config} {now : Nat}
    {new : NewUpload} {privateKeys : List PrivateKey}
    (signed : signUpload signer new.upload.path new.upload.imageId new.upload.timestamp
      privateKeys = .ok (some new.upload))
    (accepted : VPath.checkPath new.upload.path.path = true) {id : UInt64} {packet : List UInt8}
    (sent : Message.packet codec order
      (.request id (Cluster.Upload.start config now new).request) = .ok packet)
    {keys : KeyFiles} {directory : Directory} {allowed : List PublicKey}
    (reads : readUploadKeys env keys directory = .ok allowed) :
    ∃ arrived demand passed, Message.decode codec reader packet = some (.request id arrived) ∧
      demandOf keys arrived = some (.ok demand) ∧ demand.path = new.upload.path ∧
      demand.image = new.upload.imageId ∧
      demand.replaces = (if new.replace then some new.oldImage else none) ∧
      checkKeys env keys demand.sigData demand.signatures directory = .ok passed ∧
      (passed = true ↔ ∃ key other, .ed25519 key ∈ privateKeys ∧ .ed25519 other ∈ allowed ∧
        env.ed25519 demand.sigData other (signer demand.sigData key).bytes = true) ∧
      ((∃ key, .ed25519 key ∈ privateKeys ∧ .ed25519 (half key) ∈ allowed) → passed = true) := by
  obtain ⟨ms, isMs, signed⟩ := Run.bind_eq_ok_iff.mp signed
  obtain ⟨signatures, isSigned, isUpload⟩ := Option.map_eq_some_iff.mp (Except.ok.inj signed)
  have own : new.upload.signatures = signatures := (congrArg SignedUpload.signatures isUpload).symm
  rw [← own] at isSigned
  obtain ⟨arrived, decoded, demanded⟩ := demand_arrives reader accepted isMs sent
  obtain ⟨passed, isPassed, exactly⟩ := checkKeys_sign isSigned reads
  refine ⟨arrived, _, passed, decoded, demanded keys, rfl, rfl, rfl, isPassed, exactly, ?_⟩
  rintro ⟨key, isKey, isAllowed⟩
  exact exactly.mpr ⟨key, half key, isKey, isAllowed, isPair _ key⟩

end Checked

namespace Sample

/-- A scheme in which a signature repeats the first byte of its key. -/
def repeating : Signer := fun _ key => ⟨List.replicate 64 (key.headD 0), by simp⟩

/-- A server that has one upload key. -/
def keyEnv : Env where
  config := (Metadata.Sample.env false).config
  ed25519 := fun _ key signature => decide (signature = List.replicate 64 (key.headD 0))
  parsePublicKey := fun _ => some (.ed25519 [7])

/-- An upload in the last tick of the first millisecond. -/
def signedUpload : SignedUpload :=
  ⟨Metadata.Sample.path, ⟨[1]⟩,
    ⟨0, 999999, unixEpoch.le_secs, unixEpoch.secs_lt, by decide⟩, [repeating ⟨[], [], 0⟩ [7]]⟩

end Sample

open Sample in
/-- The upload replaces an image and its key is the one that the server has. -/
theorem signed_upload_checked_replaced : ∃ packet arrived demand passed,
    Message.decode Cbor.codec machineOrder packet = some (.request 7 arrived) ∧
      demandOf Metadata.Sample.keys arrived = some (.ok demand) ∧
      demand.path = Metadata.Sample.path ∧ demand.image = ⟨[1]⟩ ∧
      demand.replaces = some (some ⟨[2]⟩) ∧
      checkKeys keyEnv Metadata.Sample.keys demand.sigData demand.signatures
        (Metadata.Sample.directory false) = .ok passed ∧ passed = true := by
  obtain ⟨packet, sent⟩ : ∃ packet, Message.packet Cbor.codec machineOrder (.request 7
      (Cluster.Upload.start Cluster.Config.new 0 (replaceIfMatches signedUpload ⟨[2]⟩)).request) =
        .ok packet := ⟨_, rfl⟩
  have pairs : Matches keyEnv repeating id := fun _ _ => by simp [keyEnv, repeating]
  obtain ⟨arrived, demand, passed, decoded, demanded, isPath, isImage, replaces, isPassed, _,
    passes⟩ := @signed_upload_checked keyEnv repeating id pairs Cbor.codec machineOrder machineOrder
      Cluster.Config.new 0 (replaceIfMatches signedUpload ⟨[2]⟩) [.ed25519 [7]] rfl (by decide) 7
      packet sent Metadata.Sample.keys (Metadata.Sample.directory false) [.ed25519 [7]] rfl
  exact ⟨packet, arrived, demand, passed, decoded, demanded, isPath, isImage, replaces, isPassed,
    passes ⟨[7], by simp, by simp⟩⟩

end Ciruela.Client
