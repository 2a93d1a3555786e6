import Mathlib.Data.List.Basic

/-!
# Hashes of blocks

Only hashes of 32 bytes are supported.
-/

namespace Ciruela

/-- Hash of a block. -/
structure BlockHash where
  bytes : List UInt8
  length : bytes.length = 32
deriving DecidableEq

/-- `BlockHash::from_bytes`: only a hash of 32 bytes is one. -/
def BlockHash.fromBytes (bytes : List UInt8) : Option BlockHash :=
  if supported : bytes.length = 32 then some ⟨bytes, supported⟩ else none

/-- Hashes with the same bytes are the same. -/
@[ext] theorem BlockHash.ext {first second : BlockHash} (bytes : first.bytes = second.bytes) :
    first = second := by
  cases first
  cases second
  cases bytes
  rfl

/-- `from_bytes` gives the hash that has these bytes. -/
theorem BlockHash.fromBytes_eq_some_iff {bytes : List UInt8} {hash : BlockHash} :
    fromBytes bytes = some hash ↔ hash.bytes = bytes := by
  unfold fromBytes
  constructor
  · intro read
    split at read
    · rw [← Option.some.inj read]
    · cases read
  · rintro rfl
    rw [dif_pos hash.length]

/-- 32 bytes always make a hash. -/
theorem BlockHash.exists_fromBytes {bytes : List UInt8} (supported : bytes.length = 32) :
    ∃ hash, fromBytes bytes = some hash ∧ hash.bytes = bytes :=
  ⟨⟨bytes, supported⟩, fromBytes_eq_some_iff.mpr rfl, rfl⟩

end Ciruela
