import Ciruela.Daemon.Config
import Ciruela.Daemon.Metadata.Dir
import Ciruela.Proto.Commands

/-!
# Upload keys

The keys an upload is checked against are read from the configuration directory
each time: `master.key` and one file for each configured key name. A file that
cannot be opened or parsed contributes the keys read before the failure.
-/

namespace Ciruela

open Foundation

namespace Metadata

/-- The result of opening something. -/
inductive Opened (Value : Type) where
  | found (value : Value)
  | missing
  | failed

/-- The lines of a file; `none` where reading stops with an error. -/
abbrev Lines := List (Option (List Char))

/-- What the configuration directory holds when the keys are read. -/
structure KeyFiles where
  opens : Bool
  master : Opened Lines
  keys : Opened (List Char → Opened Lines)

/-- What does not change while the daemon runs, and the parts of it that live in
other packages: the ed25519 check and the parser of public keys. -/
structure Env where
  config : Config
  ed25519 : Ed25519
  parsePublicKey : List Char → Option PublicKey

/-- The keys of the lines of a file, up to a line that cannot be read. -/
def readKeyLines (env : Env) : Lines → List PublicKey → List PublicKey
  | [], keys => keys
  | none :: _, keys => keys
  | some line :: rest, keys =>
      let line := trim line
      if line = [] ∨ startsWith line "#".toList then readKeyLines env rest keys
      else match env.parsePublicKey line with
        | some key => readKeyLines env rest (keys ++ [key])
        | none => keys

/-- `read_keys`: a file that is missing or unreadable has no keys. -/
def readKeys (env : Env) (file : Opened Lines) (keys : List PublicKey) : List PublicKey :=
  match file with
  | .found lines => readKeyLines env lines keys
  | .missing | .failed => keys

/-- `read_upload_keys`: the master keys and those of the files that the directory names. -/
def readUploadKeys (env : Env) (files : KeyFiles) (directory : Directory) :
    Except Error (List PublicKey) :=
  if files.opens then
    let keys := readKeys env files.master []
    match files.keys with
    | .found file =>
        .ok (directory.uploadKeys.foldl (fun keys name => readKeys env (file name) keys) keys)
    | .missing => .ok keys
    | .failed => .error .readKey
  else .error .readKey

/-- At least one of the signatures is good for one of the upload keys. -/
def checkKeys (env : Env) (files : KeyFiles) (data : SigData) (signatures : List Signature)
    (directory : Directory) : Except Error Bool :=
  match readUploadKeys env files directory with
  | .error error => .error error
  | .ok keys => .ok (signatures.any fun signature => verify env.ed25519 data signature keys)

/-- A passed check names the keys that were read and the signature that is good
for them. -/
theorem checkKeys_eq_ok_true {env : Env} {files : KeyFiles} {data : SigData}
    {signatures : List Signature} {directory : Directory}
    (passed : checkKeys env files data signatures directory = .ok true) :
    ∃ keys, readUploadKeys env files directory = .ok keys ∧
      ∃ signature ∈ signatures, verify env.ed25519 data signature keys = true := by
  unfold checkKeys at passed
  split at passed
  · simp at passed
  · rename_i keys read
    exact ⟨keys, read, List.any_eq_true.mp (Except.ok.inj passed)⟩

end Metadata

end Ciruela
