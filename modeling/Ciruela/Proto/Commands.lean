import Ciruela.Database.Signatures
import Ciruela.VirtualPath

/-!
# Requests and the data they sign

Each request type of the websocket protocol with the fields its handler reads.
The text of the path, not its components, is what a signature covers.
-/

namespace Ciruela

open Foundation

/-- What a signature of an upload covers. -/
structure SigData where
  path : List Char
  image : List UInt8
  timestamp : Nat
deriving DecidableEq

/-- `PublicKey`: only keys of one kind can verify anything. -/
inductive PublicKey where
  | ed25519 (bytes : List UInt8)
  | other
deriving DecidableEq

/-- The ed25519 check of signed data against the bytes of a key and of a
signature. -/
abbrev Ed25519 := SigData → List UInt8 → List UInt8 → Bool

/-- A signature is good when one of the keys is an ed25519 key that verifies it. -/
def verify (ed25519 : Ed25519) (data : SigData) (signature : Signature) (keys : List PublicKey) :
    Bool :=
  keys.any fun
    | .ed25519 bytes => ed25519 data bytes signature.bytes
    | .other => false

/-- `AppendDir`. -/
structure AppendDir where
  path : VPath
  image : ImageId
  timestamp : Nat
  signatures : List Signature
deriving DecidableEq

/-- `ReplaceDir`. -/
structure ReplaceDir where
  path : VPath
  image : ImageId
  oldImage : Option ImageId
  timestamp : Nat
  signatures : List Signature
deriving DecidableEq

/-- What the signatures of an append are made over. -/
def AppendDir.sigData (params : AppendDir) : SigData :=
  ⟨params.path.path.text, params.image.bytes, params.timestamp⟩

/-- What the signatures of a replacement are made over. -/
def ReplaceDir.sigData (params : ReplaceDir) : SigData :=
  ⟨params.path.path.text, params.image.bytes, params.timestamp⟩

/-- The entries a request adds: each of its signatures at its timestamp. -/
def entriesOf (timestamp : Nat) (signatures : List Signature) : List SignatureEntry :=
  signatures.map fun signature => ⟨timestamp, signature⟩

/-- The signatures of an append, each with its time. -/
def AppendDir.entries (params : AppendDir) : List SignatureEntry :=
  entriesOf params.timestamp params.signatures

/-- The signatures of a replacement, each with its time. -/
def ReplaceDir.entries (params : ReplaceDir) : List SignatureEntry :=
  entriesOf params.timestamp params.signatures

/-- `GetIndex`. -/
structure GetIndex where
  id : ImageId
deriving DecidableEq

/-- `GetIndexAt`. -/
structure GetIndexAt where
  path : VPath
deriving DecidableEq

/-- `GetBlock`, as far as it is looked at: the hash is not. -/
structure GetBlock where
  hint : Option (VPath × Path × Nat)
deriving DecidableEq

/-- `GetBaseDir`. -/
structure GetBaseDir where
  path : VPath
deriving DecidableEq

/-- `Request`. -/
inductive Request where
  | appendDir (params : AppendDir)
  | replaceDir (params : ReplaceDir)
  | getIndex (params : GetIndex)
  | getIndexAt (params : GetIndexAt)
  | getBlock (params : GetBlock)
  | getBaseDir (params : GetBaseDir)
deriving DecidableEq

end Ciruela
