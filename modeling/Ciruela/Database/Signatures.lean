import Mathlib.Data.List.Sort
import Mathlib.Data.Prod.Lex
import Mathlib.Data.List.Lex
import Ciruela.Id

/-!
# Stored states and their signatures

A state file records the image put at a path and every signature it was uploaded
with. Signature entries are ordered by timestamp and then by the bytes of the
signature. Timestamps are milliseconds since the epoch, which is the precision
they have on the wire and in the files.
-/

namespace Ciruela

/-- An ed25519 signature. -/
structure Signature where
  bytes : List UInt8
  length_eq : bytes.length = 64
deriving DecidableEq

/-- `SignatureEntry`: a signature with the time that it is good for. -/
structure SignatureEntry where
  timestamp : Nat
  signature : Signature
deriving DecidableEq

/-- `State`: what a state file records, an image with the signatures that have asked for it. -/
structure State where
  image : ImageId
  signatures : List SignatureEntry
deriving DecidableEq

/-- The state has this image and at least these signatures. -/
def State.Covers (state : State) (image : ImageId) (signatures : List SignatureEntry) : Prop :=
  state.image = image ∧ ∀ entry ∈ signatures, entry ∈ state.signatures

namespace SignatureEntry

/-- The fields in the order the derived comparison looks at them. -/
def rank (entry : SignatureEntry) : Nat ×ₗ List Nat :=
  toLex (entry.timestamp, entry.signature.bytes.map UInt8.toNat)

/-- Entries with the same rank are the same. -/
theorem rank_injective : Function.Injective rank := by
  intro first second equal
  obtain ⟨time, ⟨bytes, length⟩⟩ := first
  obtain ⟨time', ⟨bytes', length'⟩⟩ := second
  obtain ⟨rfl, same⟩ := Prod.mk.inj (toLex.injective equal)
  have bytesEq : bytes = bytes' :=
    List.map_injective_iff.mpr (fun _ _ => UInt8.toNat_inj.mp) same
  subst bytesEq
  rfl

/-- Entries are ordered by their rank, as the source derives it. -/
instance : LinearOrder SignatureEntry := LinearOrder.lift' rank rank_injective

end SignatureEntry

/-- The signatures in order of time. -/
def sortSignatures (signatures : List SignatureEntry) : List SignatureEntry :=
  signatures.insertionSort (· ≤ ·)

/-- Add the entries that are not there yet and sort. -/
def appendSignatures (old new : List SignatureEntry) : List SignatureEntry :=
  sortSignatures (new.foldl (fun kept entry => if entry ∈ kept then kept else kept ++ [entry]) old)

@[simp] theorem mem_sortSignatures {entry : SignatureEntry} {signatures : List SignatureEntry} :
    entry ∈ sortSignatures signatures ↔ entry ∈ signatures :=
  (List.perm_insertionSort _ _).mem_iff

private theorem mem_foldl_keep {entry : SignatureEntry} (old new : List SignatureEntry) :
    entry ∈ new.foldl (fun kept entry => if entry ∈ kept then kept else kept ++ [entry]) old ↔
      entry ∈ old ∨ entry ∈ new := by
  induction new generalizing old with
  | nil => simp
  | cons first rest ih =>
      rw [List.foldl_cons, ih]
      by_cases known : first ∈ old
      · rw [if_pos known, List.mem_cons]
        constructor
        · rintro (inOld | inRest)
          · exact Or.inl inOld
          · exact Or.inr (Or.inr inRest)
        · rintro (inOld | rfl | inRest)
          · exact Or.inl inOld
          · exact Or.inl known
          · exact Or.inr inRest
      · rw [if_neg known, List.mem_append, List.mem_singleton, List.mem_cons, or_assoc]

/-- Merging keeps every entry of both lists and adds no other. -/
@[simp] theorem mem_appendSignatures {entry : SignatureEntry} {old new : List SignatureEntry} :
    entry ∈ appendSignatures old new ↔ entry ∈ old ∨ entry ∈ new := by
  rw [appendSignatures, mem_sortSignatures, mem_foldl_keep]

/-- `sort_signatures` sorts. -/
theorem sortedLE_sortSignatures (signatures : List SignatureEntry) :
    (sortSignatures signatures).SortedLE :=
  List.sortedLE_insertionSort

/-- What is appended to is sorted. -/
theorem sortedLE_appendSignatures (old new : List SignatureEntry) :
    (appendSignatures old new).SortedLE :=
  sortedLE_sortSignatures _

@[simp] theorem nodup_sortSignatures {signatures : List SignatureEntry} :
    (sortSignatures signatures).Nodup ↔ signatures.Nodup :=
  (List.perm_insertionSort _ _).nodup_iff

private theorem nodup_foldl_keep (old new : List SignatureEntry) :
    (new.foldl (fun kept entry => if entry ∈ kept then kept else kept ++ [entry]) old).Nodup ↔
      old.Nodup := by
  induction new generalizing old with
  | nil => rfl
  | cons first rest ih =>
      rw [List.foldl_cons, ih]
      split
      · rfl
      · rename_i unknown
        rw [List.nodup_append]
        constructor
        · exact fun both => both.1
        · intro nodup
          refine ⟨nodup, List.nodup_singleton first, fun entry member other isFirst => ?_⟩
          rw [List.mem_singleton.mp isFirst]
          exact fun same => unknown (same ▸ member)

/-- Merging adds no entry twice, and does not take out an entry that is there twice. -/
@[simp] theorem nodup_appendSignatures {old new : List SignatureEntry} :
    (appendSignatures old new).Nodup ↔ old.Nodup := by
  rw [appendSignatures, nodup_sortSignatures, nodup_foldl_keep]

/-- Sorted lists without duplicates are determined by their entries. -/
theorem eq_of_sortedLE_of_nodup {first second : List SignatureEntry} (sorted : first.SortedLE)
    (otherSorted : second.SortedLE) (nodup : first.Nodup) (otherNodup : second.Nodup)
    (same : ∀ entry, entry ∈ first ↔ entry ∈ second) : first = second :=
  List.Perm.eq_of_sortedLE sorted otherSorted ((List.perm_ext_iff_of_nodup nodup otherNodup).mpr same)

end Ciruela
