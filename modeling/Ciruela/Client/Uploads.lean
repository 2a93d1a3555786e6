import Ciruela.Proto.Message

/-!
# What a client sends

The client takes a destination from its command line with `VPath::try_from` and puts it
into its requests. The server checks the path again when it reads a request; a request
whose path it refuses is a frame it cannot decode.
-/

namespace Ciruela.Client

open Foundation Proto

/-- A source and a destination as `source:/dir/dest`. -/
def split (cli : List Char) : Option (Path × VPath) :=
  match cli.splitOn ':' with
  | source :: dest :: _ => do
      let dest ← VPath.tryFrom (Path.ofText dest)
      return (Path.ofText source, dest)
  | _ => none

/-- Why an argument of the command line is refused. -/
inductive SplitError where
  /-- "Destination directory is invalid, must be `source:/dir/dest`" -/
  | destination (cli : List Char)
  /-- "error parsing image_id" -/
  | imageId
deriving DecidableEq

/-- The same with the id of the image to be replaced, if there is one. -/
def splitReplace (cli : List Char) : Except SplitError (Path × VPath × Option ImageId) :=
  match cli.splitOn ':' with
  | source :: dest :: rest =>
      match VPath.tryFrom (Path.ofText dest), rest with
      | none, _ => .error (.destination cli)
      | some dest, [] => .ok (Path.ofText source, dest, none)
      | some dest, image :: _ =>
          match ImageId.ofHex image with
          | none => .error .imageId
          | some image => .ok (Path.ofText source, dest, some image)
  | _ => .error (.destination cli)

/-- The path a client has put into a request. -/
def destination : Proto.Request → Option VPath
  | .appendDir params => some params.path
  | .replaceDir params => some params.path
  | .getIndexAt params => some params.path
  | _ => none

/-- Both validators say the same of a text, and whatever request a client makes of it is
decoded. -/
def Understood (codec : Codec) (text : List Char) : Prop :=
  ((VPath.tryFrom (Path.ofText text)).isSome ↔ (VPath.deserialize text).isSome) ∧
  ∀ dest, VPath.tryFrom (Path.ofText text) = some dest →
    ∀ request, destination request = some dest → ∀ order id packet,
      Message.packet codec order (.request id request) = .ok packet →
        (Message.decode codec order packet).isSome

section Validators

variable {text : List Char}

/-- The paths that `try_from` takes. -/
theorem tryFrom_isSome_iff {path : Path} :
    (VPath.tryFrom path).isSome ↔ path.isAbsolute = true ∧ path.components ≠ [.rootDir] := by
  unfold VPath.tryFrom
  split
  · rename_i valid
    exact iff_of_true rfl valid
  · rename_i invalid
    exact iff_of_false (by simp) invalid

theorem path_of_tryFrom {path : Path} {vpath : VPath} (tried : VPath.tryFrom path = some vpath) :
    vpath.path = path := by
  unfold VPath.tryFrom at tried
  split at tried
  · rw [← Option.some.inj tried]
  · simp at tried

/-- The paths that are received. -/
theorem deserialize_isSome_iff :
    (VPath.deserialize text).isSome ↔ VPath.checkPath (Path.ofText text) = true := by
  unfold VPath.deserialize
  split
  · rename_i accepted
    exact iff_of_true rfl accepted
  · rename_i refused
    exact iff_of_false (by simp) refused

/-- The server asks for one thing more: no component leads up. -/
theorem checkPath_iff {path : Path} :
    VPath.checkPath path = true ↔
      (path.isAbsolute = true ∧ path.components ≠ [.rootDir]) ∧ .parentDir ∉ path.components := by
  constructor
  · intro accepted
    refine ⟨VPath.valid_of_checkPath accepted, ?_⟩
    unfold VPath.checkPath at accepted
    split at accepted
    · rename_i rest shape
      rw [Bool.and_eq_true] at accepted
      rw [shape, List.mem_cons, not_or]
      refine ⟨by simp, ?_⟩
      intro member
      have normal := List.all_eq_true.mp accepted.1 _ member
      simp [Component.isNormal] at normal
    · simp at accepted
  · rintro ⟨⟨absolute, notRoot⟩, noParent⟩
    obtain ⟨below, shape, inside⟩ := Path.components_of_isAbsolute absolute
    rw [shape] at notRoot noParent
    have normal : below.all Component.isNormal = true := by
      rw [List.all_eq_true]
      intro component member
      rcases inside component member with rfl | ⟨file, rfl⟩
      · exact absurd (List.mem_cons_of_mem _ member) noParent
      · rfl
    have some : 1 ≤ below.length := by
      cases below with
      | nil => exact absurd rfl notRoot
      | cons first rest => simp
    simp [VPath.checkPath, shape, normal, some]

/-- What the two validators disagree about. -/
theorem validators_agree_iff :
    ((VPath.tryFrom (Path.ofText text)).isSome ↔ (VPath.deserialize text).isSome) ↔
      ¬ ((Path.ofText text).isAbsolute = true ∧ .parentDir ∈ (Path.ofText text).components) := by
  rw [tryFrom_isSome_iff, deserialize_isSome_iff, checkPath_iff]
  constructor
  · rintro same ⟨absolute, parent⟩
    have notRoot : (Path.ofText text).components ≠ [.rootDir] := by
      intro root
      rw [root] at parent
      simp at parent
    exact (same.mp ⟨absolute, notRoot⟩).2 parent
  · intro allowed
    constructor
    · intro valid
      exact ⟨valid, fun parent => allowed ⟨valid.1, parent⟩⟩
    · exact And.left

end Validators

section Requests

variable {codec : Codec} {order : Listing MachineId (List Char)}

theorem accepts_image (image : ImageId) : Proto.imageId.Accepts image :=
  Serde.Readable.accepts ⟨.bytes image.bytes, rfl⟩

/-- Whatever time a client has taken, the milliseconds of it are a time. -/
theorem accepts_timestamp (time : SystemTime) : Proto.timestamp.Accepts time := by
  intro out written
  obtain ⟨ms, _, isOut⟩ := Run.bind_eq_ok_iff.mp written
  obtain rfl := Except.ok.inj isOut
  obtain ⟨read, isRead, _⟩ := fromMs_eq_ok ms
  show (readTimestamp (.unsigned ms)).isSome = true
  rw [readTimestamp_unsigned isRead]
  rfl

theorem accepts_signatures (signatures : List Signature) :
    Proto.signature.list.Accepts signatures := by
  apply Serde.Readable.accepts
  apply Serde.readable_list
  intro signature _
  refine ⟨.array [.text sshEd25519, .bytes signature.bytes], ?_⟩
  simp [Proto.signature, signature.length_eq]

/-- A path without a component that leads up can be read. -/
theorem readable_vpath {dest : VPath} (accepted : VPath.checkPath dest.path = true) :
    Proto.vpath.Readable dest := by
  refine ⟨.text dest.path.text, ?_⟩
  show VPath.deserialize dest.path.text = some dest
  obtain ⟨path, absolute, notRoot⟩ := dest
  simp [VPath.deserialize, accepted]

theorem accepts_oldImage (image : Option ImageId) :
    (Proto.imageId.option rfl).Accepts image := by
  apply Serde.Readable.accepts
  cases image with
  | none => exact ⟨.null, rfl⟩
  | some image => exact ⟨.bytes image.bytes, rfl⟩

/-- An append is received when its path is. -/
theorem accepts_appendDir (params : Proto.AppendDir)
    (readable : Proto.vpath.Readable params.path) : Proto.appendDir.Accepts params := by
  apply Record.Accepts.serde
  apply Record.Accepts.via
  exact (Record.accepts_required readable.accepts).and
    ((Record.accepts_required (accepts_image _)).and
      ((Record.accepts_required (accepts_timestamp _)).and
        (Record.accepts_required (accepts_signatures _))))

/-- A replacement is received when its path is. -/
theorem accepts_replaceDir (params : Proto.ReplaceDir)
    (readable : Proto.vpath.Readable params.path) : Proto.replaceDir.Accepts params := by
  apply Record.Accepts.serde
  apply Record.Accepts.via
  exact (Record.accepts_required readable.accepts).and
    ((Record.accepts_required (accepts_image _)).and
      ((Record.accepts_defaulted (accepts_oldImage _)).and
        ((Record.accepts_required (accepts_timestamp _)).and
          (Record.accepts_required (accepts_signatures _)))))

/-- `GetIndexAt` is received when its path is. -/
theorem accepts_getIndexAt (params : GetIndexAt) (readable : Proto.vpath.Readable params.path) :
    Proto.getIndexAt.Accepts params := by
  apply Record.Accepts.serde
  apply Record.Accepts.via
  exact Record.accepts_required readable.accepts

/-- The data of a request with a path that can be read is read. -/
theorem deserialize_isSome_of_readable {request : Proto.Request} {dest : VPath}
    (isDest : destination request = some dest) (readable : Proto.vpath.Readable dest)
    {data : Cbor} (written : request.serialize = .ok data) :
    (Request.deserialize data request.type).isSome := by
  cases request with
  | appendDir params =>
      obtain rfl := Option.some.inj isDest
      exact Option.isSome_map.trans (accepts_appendDir params readable data written)
  | replaceDir params =>
      obtain rfl := Option.some.inj isDest
      exact Option.isSome_map.trans (accepts_replaceDir params readable data written)
  | getIndexAt params =>
      obtain rfl := Option.some.inj isDest
      exact Option.isSome_map.trans (accepts_getIndexAt params readable data written)
  | getIndex _ => simp [destination] at isDest
  | getBlock _ => simp [destination] at isDest
  | getBaseDir _ => simp [destination] at isDest

/-- A request is decoded when its path is received. -/
theorem decode_isSome_of_readable {request : Proto.Request} {dest : VPath}
    (isDest : destination request = some dest) (readable : Proto.vpath.Readable dest)
    {id : UInt64} {packet : List UInt8}
    (isPacket : Message.packet codec order (.request id request) = .ok packet) :
    (Message.decode codec order packet).isSome := by
  obtain ⟨cbor, written, rfl⟩ := Message.packet_eq_ok_iff.mp isPacket
  obtain ⟨data, isData, isCbor⟩ := Run.bind_eq_ok_iff.mp written
  obtain rfl := Except.ok.inj isCbor
  obtain ⟨params, read⟩ :=
    Option.isSome_iff_exists.mp (deserialize_isSome_of_readable isDest readable isData)
  rw [Message.decode, codec.decode_encode, Option.bind_some, Message.deserialize_request read]
  rfl

end Requests

/-- A text is understood alike by client and server unless it is an absolute path with a
component that leads up: the client takes it and the server drops every request with it. -/
theorem understood_iff (codec : Codec) (text : List Char) :
    Understood codec text ↔
      ¬ ((Path.ofText text).isAbsolute = true ∧ .parentDir ∈ (Path.ofText text).components) := by
  rw [← validators_agree_iff]
  constructor
  · exact And.left
  · intro agree
    refine ⟨agree, ?_⟩
    intro dest tried request isDest order id packet isPacket
    have accepted : (VPath.deserialize text).isSome := agree.mp (by rw [tried]; rfl)
    have isPath : dest.path = Path.ofText text := path_of_tryFrom tried
    refine decode_isSome_of_readable isDest (readable_vpath ?_) isPacket
    rw [isPath]
    exact deserialize_isSome_iff.mp accepted

/-- A destination on the command line that the client takes and the server does not. -/
theorem parent_component_dropped :
    ∃ dest packet, split "image:/a/../b".toList = some (Path.ofText "image".toList, dest) ∧
      VPath.tryFrom (Path.ofText "/a/../b".toList) = some dest ∧
      VPath.deserialize "/a/../b".toList = none ∧
      Message.packet Cbor.codec machineOrder (.request 1 (.getIndexAt ⟨dest⟩)) = .ok packet ∧
      Message.decode Cbor.codec machineOrder packet = none := by
  refine ⟨⟨Path.ofText "/a/../b".toList, by decide, by decide⟩, _, by decide, by decide, by decide,
    rfl, ?_⟩
  rw [Message.decode, Cbor.codec.decode_encode]
  rfl

end Ciruela.Client
