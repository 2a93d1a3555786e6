import Ciruela.Proto.Message

/-!
# The hash of a base directory

A node that has scanned a base directory tells its peers the hash of the states it has
read. A peer that is behind asks for the states and takes a reply only if its hash is the
one it was told. Both hash the CBOR of the map; the digest is a parameter.
-/

namespace Ciruela.DirHash

open Foundation Proto

/-- `BaseDirState`, with the hashes that it is advertised with. -/
structure BaseDirState where
  path : VPath
  configHash : Hash
  keepListHash : Hash
  dirs : Dirs
deriving DecidableEq

/-- `BaseDir`, as far as its hash is concerned. -/
structure BaseDir where
  path : VPath
  hash : Hash
  numSubdirs : Nat
  reconTable : Finset Hash
deriving DecidableEq

section Hashing

variable (codec : Codec) (digest : List UInt8 → Hash)

/-- The bytes of a map of states. -/
def encodeDirs (dirs : Dirs) : Run (List UInt8) := do
  return codec.encode (← Proto.dirs.serialize dirs)

/-- The directories of a reply. -/
def decodeDirs (bytes : List UInt8) : Option (Dirs) :=
  (codec.decode bytes).bind Proto.dirs.deserialize

/-- `Hash::for_object`. -/
def forObject (dirs : Dirs) : Run Hash := do
  return digest (← encodeDirs codec dirs)

/-- `read_cbor` of a state file. -/
def readState (content : List UInt8) : Option Proto.State :=
  (codec.decode content).bind Proto.state.deserialize

/-- Every state of the map was read from a file. -/
def FromFiles (dirs : Dirs) : Prop :=
  ∀ name state, dirs.lookup name = some state → ∃ content, readState codec content = some state

/-- `BaseDir::commit_scan`: the base directory that is kept and the hash that the peers are
told, if they are told one. -/
def commitScan (known : Option BaseDir) (data : BaseDirState) : Run (Option Hash × BaseDir) := do
  let hash ← forObject codec digest data.dirs
  let size := data.dirs.keys.card
  match known with
  | none => return (some hash, ⟨data.path, hash, size, ∅⟩)
  | some dir =>
      if dir.hash = hash then return (none, dir)
      else return (some hash, ⟨dir.path, hash, size, insert dir.hash dir.reconTable⟩)

/-- `Tracking::get_base_dir` of what was scanned. -/
def getBaseDir (data : BaseDirState) : GetBaseDirResponse :=
  ⟨data.configHash, data.keepListHash, data.dirs⟩

/-- What `reconciliation::start` makes of a reply: nothing if the hash is another one. -/
def checkReply (path : VPath) (hash : Hash) (reply : GetBaseDirResponse) :
    Run (Option BaseDirState) := do
  let state : BaseDirState := ⟨path, reply.configHash, reply.keepListHash, reply.dirs⟩
  let dirHash ← forObject codec digest state.dirs
  return if dirHash = hash then some state else none

end Hashing

variable {codec : Codec} {dirs : Dirs}

/-- Directories that come from files can be read. -/
theorem readable_dirs (fromFiles : FromFiles codec dirs) : Proto.dirs.Readable dirs := by
  apply Serde.readable_map
  intro name state found
  obtain ⟨content, isState⟩ := fromFiles name state found
  obtain ⟨cbor, _, read⟩ := Option.bind_eq_some_iff.mp isState
  exact ⟨⟨.text name, rfl⟩, ⟨cbor, read⟩⟩

/-- States from files have bytes, and the bytes are those of no other map. -/
theorem encodeDirs_round_trip (fromFiles : FromFiles codec dirs) :
    ∃ bytes, encodeDirs codec dirs = .ok bytes ∧ decodeDirs codec bytes = some dirs := by
  obtain ⟨cbor, written, read⟩ := (readable_dirs fromFiles).round_trip
  refine ⟨codec.encode cbor, ?_, ?_⟩
  · rw [encodeDirs, written]
    rfl
  · rw [decodeDirs, codec.decode_encode, Option.bind_some, read]

/-- A reply about such directories can be read. -/
theorem readable_reply (configHash keepListHash : Hash) (fromFiles : FromFiles codec dirs) :
    getBaseDirResponse.Readable ⟨configHash, keepListHash, dirs⟩ := by
  obtain ⟨cbor, read⟩ := readable_dirs fromFiles
  have readHash (hash : Hash) : Proto.hash.deserialize (.bytes hash.bytes) = some hash := by
    show (visitHex 32 (.bytes hash.bytes)).map _ = some hash
    rw [visitHex_bytes hash.length_eq]
    rfl
  have fields := (Record.fills_required "config_hash" (readHash configHash)).append
    ((Record.fills_required "keep_list_hash" (readHash keepListHash)).append
      (Record.fills_required "dirs" read))
  exact Record.readable_serde (fields.map GetBaseDirResponse.fields.symm)

/-- The reply of a node is read as it was sent. -/
theorem reply_round_trip {data : BaseDirState} (fromFiles : FromFiles codec data.dirs)
    (order reader : Listing MachineId (List Char)) (id : UInt64) :
    ∃ packet,
      Message.packet codec order (.response id (.reply (.getBaseDir (getBaseDir data)))) =
        .ok packet ∧
      Message.decode codec reader packet =
        some (.response id (.reply (.getBaseDir (getBaseDir data)))) := by
  obtain ⟨cbor, written, read⟩ :=
    (readable_reply data.configHash data.keepListHash fromFiles).round_trip
  have again : Reply.deserialize reader cbor .getBaseDir = some (.getBaseDir (getBaseDir data)) := by
    show (getBaseDirResponse.deserialize cbor).map _ = _
    rw [read]
    rfl
  exact Message.packet_round_trip order reader
    (Message.deserialize_response id (Response.visit_reply again))

/-- The hash of directories is that of their bytes. -/
theorem forObject_eq_ok {bytes : List UInt8} (encoded : encodeDirs codec dirs = .ok bytes)
    (digest : List UInt8 → Hash) : forObject codec digest dirs = .ok (digest bytes) := by
  rw [forObject, encoded]
  rfl

/-- Committing a scan of states from files keeps their hash, and tells no other. -/
theorem commitScan_hash {data : BaseDirState} {bytes : List UInt8}
    (encoded : encodeDirs codec data.dirs = .ok bytes) (digest : List UInt8 → Hash)
    (known : Option BaseDir) :
    ∃ told dir, commitScan codec digest known data = .ok (told, dir) ∧
      dir.hash = digest bytes ∧ ∀ hash, told = some hash → hash = dir.hash := by
  rw [commitScan, forObject_eq_ok encoded, Run.ok_bind]
  cases known with
  | none =>
      refine ⟨_, _, rfl, rfl, ?_⟩
      rintro hash told
      exact (Option.some.inj told).symm
  | some dir =>
      by_cases same : dir.hash = digest bytes
      · simp only [if_pos same]
        exact ⟨none, dir, rfl, same, by simp⟩
      · simp only [if_neg same]
        refine ⟨_, _, rfl, rfl, ?_⟩
        rintro hash told
        exact (Option.some.inj told).symm

/-- No time is lost on the way, the bytes that are hashed are those of the states and of no others,
and the hash that a peer computes from a reply with states from files is the one it was told. -/
theorem advertised_hash_recomputed (codec : Codec) (digest : List UInt8 → Hash) :
    (∀ ms, ∃ time, fromMs ms = .ok time ∧ toMs time = .ok ms) ∧
    ∀ data : BaseDirState, FromFiles codec data.dirs →
      (∃ bytes, encodeDirs codec data.dirs = .ok bytes ∧
        decodeDirs codec bytes = some data.dirs ∧
        ∀ received, decodeDirs codec bytes = some received →
          encodeDirs codec received = .ok bytes) ∧
      ∀ order reader id known, ∃ packet reply told dir,
        Message.packet codec order (.response id (.reply (.getBaseDir (getBaseDir data)))) =
          .ok packet ∧
        Message.decode codec reader packet = some (.response id (.reply (.getBaseDir reply))) ∧
        Message.packet codec reader (.response id (.reply (.getBaseDir reply))) = .ok packet ∧
        commitScan codec digest known data = .ok (told, dir) ∧
        (∀ hash, told = some hash → hash = dir.hash) ∧
        checkReply codec digest data.path dir.hash reply = .ok (some data) := by
  constructor
  · intro ms
    obtain ⟨time, isTime, _⟩ := fromMs_eq_ok ms
    exact ⟨time, isTime, toMs_of_fromMs isTime⟩
  · intro data fromFiles
    obtain ⟨bytes, encoded, decoded⟩ := encodeDirs_round_trip fromFiles
    have again : ∀ received, decodeDirs codec bytes = some received →
        encodeDirs codec received = .ok bytes := by
      intro received isReceived
      obtain rfl := Option.some.inj (decoded.symm.trans isReceived)
      exact encoded
    refine ⟨⟨bytes, encoded, decoded, again⟩, ?_⟩
    intro order reader id known
    obtain ⟨packet, isPacket, read⟩ := reply_round_trip fromFiles order reader id
    obtain ⟨told, dir, committed, isHash, isTold⟩ := commitScan_hash encoded digest known
    refine ⟨packet, getBaseDir data, told, dir, isPacket, read, isPacket, committed, isTold, ?_⟩
    have computed : forObject codec digest (getBaseDir data).dirs = .ok (digest bytes) :=
      forObject_eq_ok encoded digest
    rw [checkReply, computed, isHash]
    simp only [Run.ok_bind, if_true]
    rfl

section Sample

/-- An image signed five milliseconds after the epoch. -/
def signedState : Proto.State :=
  ⟨⟨[1]⟩, [⟨⟨0, 5000000, unixEpoch.le_secs, unixEpoch.secs_lt, by decide⟩,
    ⟨List.replicate 64 0, List.length_replicate⟩⟩]⟩

/-- A state file with one signature. -/
def signedFile : Cbor :=
  .map [(.text "image".toList, .bytes [1]),
    (.text "signatures".toList,
      .array [.array [.unsigned 5, .array [.text sshEd25519, .bytes (List.replicate 64 0)]]])]

/-- The state of a directory with one image. -/
def scanned : BaseDirState :=
  ⟨keyDir, ⟨List.replicate 32 0, List.length_replicate⟩,
    ⟨List.replicate 32 1, List.length_replicate⟩, (∅ : Dirs).insert ['a'] signedState⟩

/-- The directory of the example comes from files. -/
theorem fromFiles_scanned (codec : Codec) : FromFiles codec scanned.dirs := by
  intro name state found
  have isState : signedState = state := by
    rw [scanned, Map.lookup_insert_eq] at found
    split at found
    · exact Option.some.inj found
    · simp at found
  refine ⟨codec.encode signedFile, ?_⟩
  have read : Proto.state.deserialize signedFile = some signedState := rfl
  rw [readState, codec.decode_encode, Option.bind_some, read, isState]

theorem advertised_hash_recomputed_scanned : ∀ digest, FromFiles Cbor.codec scanned.dirs ∧
    ∃ reply told dir, commitScan Cbor.codec digest none scanned = .ok (told, dir) ∧
      checkReply Cbor.codec digest scanned.path dir.hash reply = .ok (some scanned) := by
  intro digest
  refine ⟨fromFiles_scanned Cbor.codec, ?_⟩
  obtain ⟨_, reply, told, dir, _, _, _, committed, _, checked⟩ :=
    ((advertised_hash_recomputed Cbor.codec digest).2 scanned (fromFiles_scanned Cbor.codec)).2
      machineOrder machineOrder 1 none
  exact ⟨reply, told, dir, committed, checked⟩

end Sample

end Ciruela.DirHash
