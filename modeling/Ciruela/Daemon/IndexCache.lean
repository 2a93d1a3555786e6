import Mathlib.Algebra.Ring.Nat
import Ciruela.Foundation.Cut
import Ciruela.Foundation.Panic
import Ciruela.Foundation.Path
import Ciruela.Id

/-!
# Indexes

What is kept of an index that was read. The parser of indexes lives in another package;
here it is a function from the bytes of an index to the header and the entries, with
`none` for an entry that does not parse.
-/

namespace Ciruela

open Foundation

/-- `HashType`: the hashes that an index can be made with. -/
inductive HashType where
  | sha512x256
  | blake2bx256
deriving DecidableEq

/-- An entry of an index. -/
inductive Entry where
  | dir (path : Path)
  | link (path dest : Path)
  | file (path : Path) (exe : Bool) (size : Nat) (hashes : List (List UInt8))
deriving DecidableEq

/-- `Header`: the first line of an index. -/
structure Header where
  hashType : HashType
  blockSize : Nat
deriving DecidableEq

/-- The parser of the package: the header, and each entry that can be read. -/
abbrev Parser := List UInt8 → Option (Header × List (Option Entry))

/-- `IndexData`: an index as the server keeps it, under the id that was asked for. -/
structure IndexData where
  id : ImageId
  hashType : HashType
  blockSize : Nat
  entries : List Entry
  bytesTotal : Nat
  blocksTotal : Nat
deriving DecidableEq

/-- The header that an index was read with. -/
def IndexData.header (index : IndexData) : Header := ⟨index.hashType, index.blockSize⟩

/-- The hashes of a file, with the header of its index. -/
structure Hashes where
  header : Header
  values : List (List UInt8)
deriving DecidableEq

/-- The bytes of an entry. Only files have some. -/
def Entry.bytes : Entry → Nat
  | file _ _ size _ => size
  | _ => 0

/-- The number of blocks of an entry, in 64 bits. -/
def Entry.blocks (blockSize : Nat) : Entry → Run Nat
  | file _ _ size _ =>
      if blockSize = 0 then .error (.overflow "attempt to divide by zero")
      else .ok ((size + blockSize + (2 ^ 64 - 1)) % 2 ^ 64 / blockSize)
  | _ => .ok 0

/-- The id is taken from the caller, and nothing is compared with it. -/
def IndexData.parse (parser : Parser) (id : ImageId) (bytes : List UInt8) : Run (Option IndexData) :=
  match parser bytes with
  | none => return none
  | some (header, items) =>
      match items.mapM fun item => item with
      | none => return none
      | some entries => do
          let blocks ← entries.mapM (Entry.blocks header.blockSize)
          return some ⟨id, header.hashType, header.blockSize, entries,
            (entries.map Entry.bytes).sum % 2 ^ 64, blocks.sum % 2 ^ 64⟩

/-- A file has a hash for each of its blocks, and all are of the size that is supported. -/
def Entry.Whole (blockSize : Nat) : Entry → Prop
  | file _ _ size hashes =>
      size < 2 ^ 64 ∧ hashes.length = blockCount blockSize size ∧ ∀ hash ∈ hashes, hash.length = 32
  | _ => True

/-- The parser counts the hashes of a file and knows their size. -/
def Parser.Checks (parser : Parser) : Prop :=
  ∀ bytes header items, parser bytes = some (header, items) →
    ∀ entry, some entry ∈ items → entry.Whole header.blockSize

/-- A parsed index carries the id it was asked for by. -/
theorem IndexData.id_of_parse {parser : Parser} {id : ImageId} {bytes : List UInt8}
    {data : IndexData} (parsed : parse parser id bytes = .ok (some data)) : data.id = id := by
  unfold parse at parsed
  split at parsed
  · cases parsed
  · split at parsed
    · cases parsed
    · obtain ⟨blocks, _, done⟩ := Run.bind_eq_ok_iff.mp parsed
      rw [← Option.some.inj (Except.ok.inj done)]

/-- Every entry was read. -/
theorem mem_of_mapM {items : List (Option Entry)} {entries : List Entry} {entry : Entry}
    (read : items.mapM (fun item => item) = some entries) (member : entry ∈ entries) :
    some entry ∈ items := by
  induction items generalizing entries with
  | nil =>
      obtain rfl := Option.some.inj read
      exact absurd member List.not_mem_nil
  | cons item rest ih =>
      rw [List.mapM_cons] at read
      obtain ⟨first, isFirst, read⟩ := Option.bind_eq_some_iff.mp read
      obtain ⟨others, areOthers, done⟩ := Option.bind_eq_some_iff.mp read
      obtain rfl := Option.some.inj done
      rcases List.mem_cons.mp member with rfl | later
      · rw [isFirst]
        exact List.mem_cons_self
      · exact List.mem_cons_of_mem _ (ih areOthers later)

/-- What the parser checks holds in every index that was read. -/
theorem IndexData.whole_of_parse {parser : Parser} (checks : parser.Checks) {id : ImageId}
    {bytes : List UInt8} {data : IndexData} (parsed : parse parser id bytes = .ok (some data)) :
    ∀ entry ∈ data.entries, entry.Whole data.blockSize := by
  unfold parse at parsed
  split at parsed
  · cases parsed
  · rename_i header items isParsed
    split at parsed
    · cases parsed
    · rename_i entries read
      obtain ⟨blocks, _, done⟩ := Run.bind_eq_ok_iff.mp parsed
      rw [← Option.some.inj (Except.ok.inj done)]
      exact fun entry member => checks bytes header items isParsed entry (mem_of_mapM read member)

end Ciruela
