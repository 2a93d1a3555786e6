import Mathlib.Data.List.Flatten
import Mathlib.Tactic.Ring

/-!
# CBOR

The part of the CBOR data model that structures are put into: unsigned integers, byte
strings, texts, arrays, maps, booleans and null. A `Codec` writes such a value as bytes and
reads it back. `Cbor.codec` is the one with definite lengths and shortest heads.
-/

namespace Ciruela.Foundation

/-- The data items that the program writes and reads. -/
inductive Cbor where
  | unsigned (value : UInt64)
  | bytes (value : List UInt8)
  | text (value : List Char)
  | array (items : List Cbor)
  | map (entries : List (Cbor × Cbor))
  | bool (value : Bool)
  | null

/-- A way to write values as bytes that can be undone. -/
structure Codec where
  encode : Cbor → List UInt8
  decode : List UInt8 → Option Cbor
  decode_encode : ∀ value, decode (encode value) = some value

/-- Different items are written differently. -/
theorem Codec.encode_injective (codec : Codec) : Function.Injective codec.encode := by
  intro first second equal
  have same := congrArg codec.decode equal
  rw [codec.decode_encode, codec.decode_encode] at same
  exact Option.some.inj same

namespace Cbor

section Numbers

/-- The last `width` digits of a number to the base 256, the highest first. -/
def bigEndian : Nat → Nat → List UInt8
  | 0, _ => []
  | width + 1, value => bigEndian width (value / 256) ++ [UInt8.ofNat value]

/-- The number that some bytes stand for, the highest first. -/
def ofBigEndian (digits : List UInt8) : Nat :=
  digits.foldl (fun value digit => value * 256 + digit.toNat) 0

@[simp] theorem length_bigEndian (width value : Nat) : (bigEndian width value).length = width := by
  induction width generalizing value with
  | zero => rfl
  | succ width ih => simp [bigEndian, ih]

/-- A number is read back from its bytes, as far as they hold it. -/
theorem ofBigEndian_bigEndian (width value : Nat) :
    ofBigEndian (bigEndian width value) = value % 256 ^ width := by
  induction width generalizing value with
  | zero => simp [bigEndian, ofBigEndian, Nat.mod_one]
  | succ width ih =>
      have front := ih (value / 256)
      have last : (UInt8.ofNat value).toNat = value % 256 := UInt8.toNat_ofNat'
      unfold ofBigEndian at front ⊢
      rw [bigEndian, List.foldl_append, front, List.foldl_cons, List.foldl_nil, last,
        Nat.pow_succ, Nat.mul_comm (256 ^ width) 256, Nat.mod_mul]
      omega

end Numbers

/-- The first byte of a value has its kind and, up to 23, its number; longer numbers follow.
A length that no machine has is written as so many ones. -/
def head (kind number : Nat) : List UInt8 :=
  if number < 24 then [UInt8.ofNat (kind * 32 + number)]
  else if number < 256 ^ 1 then UInt8.ofNat (kind * 32 + 24) :: bigEndian 1 number
  else if number < 256 ^ 2 then UInt8.ofNat (kind * 32 + 25) :: bigEndian 2 number
  else if number < 256 ^ 4 then UInt8.ofNat (kind * 32 + 26) :: bigEndian 4 number
  else if number < 256 ^ 8 then UInt8.ofNat (kind * 32 + 27) :: bigEndian 8 number
  else UInt8.ofNat (kind * 32 + 28) :: (List.replicate number 1 ++ [0])

/-- Count ones up to a zero. -/
def readOnes : List UInt8 → Option (Nat × List UInt8)
  | [] => none
  | digit :: rest =>
      if digit = 0 then some (0, rest)
      else if digit = 1 then (readOnes rest).map fun counted => (counted.1 + 1, counted.2)
      else none

/-- A number of this many bytes, with what follows it. -/
def readNumber (width : Nat) (input : List UInt8) : Option (Nat × List UInt8) :=
  if width ≤ input.length then some (ofBigEndian (input.take width), input.drop width) else none

/-- The kind and the number of a value with what follows them. -/
def readHead : List UInt8 → Option (Nat × Nat × List UInt8)
  | [] => none
  | first :: rest =>
      let kind := first.toNat / 32
      let number :=
        match first.toNat % 32 with
        | 24 => readNumber 1 rest
        | 25 => readNumber 2 rest
        | 26 => readNumber 4 rest
        | 27 => readNumber 8 rest
        | 28 => readOnes rest
        | info => if info < 24 then some (info, rest) else none
      number.map fun read => (kind, read)

/-- What was written as ones with a zero after them is read back as their number. -/
theorem readOnes_replicate (count : Nat) (rest : List UInt8) :
    readOnes (List.replicate count 1 ++ [0] ++ rest) = some (count, rest) := by
  induction count with
  | zero => rfl
  | succ count ih =>
      rw [List.replicate_succ, List.cons_append, List.cons_append, readOnes, ih]
      rfl

/-- A number that fits its width is read back, and what follows it is left. -/
theorem readNumber_bigEndian {width number : Nat} (fits : number < 256 ^ width)
    (rest : List UInt8) : readNumber width (bigEndian width number ++ rest) = some (number, rest) := by
  have long : width ≤ (bigEndian width number ++ rest).length := by simp
  have front : (bigEndian width number ++ rest).take width = bigEndian width number :=
    List.take_left' (length_bigEndian width number)
  have back : (bigEndian width number ++ rest).drop width = rest :=
    List.drop_left' (length_bigEndian width number)
  rw [readNumber, if_pos long, front, back, ofBigEndian_bigEndian, Nat.mod_eq_of_lt fits]

/-- The kind and the additional information of a first byte can be told from it. -/
theorem first_toNat {kind info : Nat} (isKind : kind < 8) (isInfo : info < 32) :
    (UInt8.ofNat (kind * 32 + info)).toNat / 32 = kind ∧
      (UInt8.ofNat (kind * 32 + info)).toNat % 32 = info := by
  rw [UInt8.toNat_ofNat']
  omega

/-- A head is read back, whatever follows it. -/
theorem readHead_head {kind : Nat} (isKind : kind < 8) (number : Nat) (rest : List UInt8) :
    readHead (head kind number ++ rest) = some (kind, number, rest) := by
  unfold head
  split
  · rename_i small
    obtain ⟨isKind, isInfo⟩ := first_toNat isKind (show number < 32 by omega)
    simp only [List.cons_append, List.nil_append, readHead, isKind, isInfo]
    split <;> first | omega | simp [small]
  · split
    · rename_i fits
      obtain ⟨isKind, isInfo⟩ := first_toNat isKind (show 24 < 32 by decide)
      simp only [List.cons_append, readHead, isKind, isInfo, readNumber_bigEndian fits,
        Option.map_some]
    · split
      · rename_i fits
        obtain ⟨isKind, isInfo⟩ := first_toNat isKind (show 25 < 32 by decide)
        simp only [List.cons_append, readHead, isKind, isInfo, readNumber_bigEndian fits,
          Option.map_some]
      · split
        · rename_i fits
          obtain ⟨isKind, isInfo⟩ := first_toNat isKind (show 26 < 32 by decide)
          simp only [List.cons_append, readHead, isKind, isInfo, readNumber_bigEndian fits,
            Option.map_some]
        · split
          · rename_i fits
            obtain ⟨isKind, isInfo⟩ := first_toNat isKind (show 27 < 32 by decide)
            simp only [List.cons_append, readHead, isKind, isInfo, readNumber_bigEndian fits,
              Option.map_some]
          · obtain ⟨isKind, isInfo⟩ := first_toNat isKind (show 28 < 32 by decide)
            simp only [List.cons_append, readHead, isKind, isInfo, readOnes_replicate,
              Option.map_some]

/-- Read `count` items one after another. -/
def readMany {Item : Type} (readOne : List UInt8 → Option (Item × List UInt8)) :
    Nat → List UInt8 → Option (List Item × List UInt8)
  | 0, input => some ([], input)
  | count + 1, input => do
      let (item, rest) ← readOne input
      let (items, rest) ← readMany readOne count rest
      return (item :: items, rest)

/-- Two items, one after another. -/
def readPair {Item : Type} (readOne : List UInt8 → Option (Item × List UInt8))
    (input : List UInt8) : Option ((Item × Item) × List UInt8) := do
  let (first, rest) ← readOne input
  let (second, rest) ← readOne rest
  return ((first, second), rest)

/-- Items that can be read where they stand can be read in a row. -/
theorem readMany_flatMap {Item : Type} {readOne : List UInt8 → Option (Item × List UInt8)}
    {writeOne : Item → List UInt8} {items : List Item}
    (each : ∀ item ∈ items, ∀ rest, readOne (writeOne item ++ rest) = some (item, rest))
    (rest : List UInt8) :
    readMany readOne items.length (items.flatMap writeOne ++ rest) = some (items, rest) := by
  induction items with
  | nil => rfl
  | cons item items ih =>
      have first := each item List.mem_cons_self (items.flatMap writeOne ++ rest)
      have later := ih fun other member => each other (List.mem_cons_of_mem _ member)
      rw [List.flatMap_cons, List.append_assoc, List.length_cons, readMany, first]
      simp [later]

/-- A pair is read back when its members are. -/
theorem readPair_append {Item : Type} {readOne : List UInt8 → Option (Item × List UInt8)}
    {writeOne : Item → List UInt8} {pair : Item × Item}
    (first : ∀ rest, readOne (writeOne pair.1 ++ rest) = some (pair.1, rest))
    (second : ∀ rest, readOne (writeOne pair.2 ++ rest) = some (pair.2, rest))
    (rest : List UInt8) :
    readPair readOne (writeOne pair.1 ++ writeOne pair.2 ++ rest) = some (pair, rest) := by
  rw [List.append_assoc, readPair, first]
  simp [second]

/-- The bytes of a text. -/
def utf8 (text : List Char) : List UInt8 := text.flatMap String.utf8EncodeChar

/-- The text of some bytes, where they are well formed. -/
def ofUtf8 (bytes : List UInt8) : Option (List Char) :=
  bytes.toByteArray.utf8Decode?.map Array.toList

/-- A text is read back from its bytes. -/
theorem ofUtf8_utf8 (text : List Char) : ofUtf8 (utf8 text) = some text := by
  have encoded : (utf8 text).toByteArray = text.utf8Encode := rfl
  rw [ofUtf8, encoded, List.utf8Decode?_utf8Encode, Option.map_some]

mutual

/-- The bytes of an item. -/
def write : Cbor → List UInt8
  | .unsigned value => head 0 value.toNat
  | .bytes value => head 2 value.length ++ value
  | .text value => head 3 (utf8 value).length ++ utf8 value
  | .array items => head 4 items.length ++ writeItems items
  | .map entries => head 5 entries.length ++ writeEntries entries
  | .bool value => head 7 (if value then 21 else 20)
  | .null => head 7 22

/-- The bytes of some items, one after another. -/
def writeItems : List Cbor → List UInt8
  | [] => []
  | item :: items => write item ++ writeItems items

/-- The bytes of some entries, one after another. -/
def writeEntries : List (Cbor × Cbor) → List UInt8
  | [] => []
  | entry :: entries => writeEntry entry ++ writeEntries entries

/-- The bytes of an entry. -/
def writeEntry : Cbor × Cbor → List UInt8
  | (key, value) => write key ++ write value

end

/-- Read a value that is nested less deep than `depth`. -/
def read : Nat → List UInt8 → Option (Cbor × List UInt8)
  | 0, _ => none
  | depth + 1, input => do
      let (kind, number, rest) ← readHead input
      match kind with
      | 0 => if number < 2 ^ 64 then some (.unsigned (UInt64.ofNat number), rest) else none
      | 2 =>
          if number ≤ rest.length then some (.bytes (rest.take number), rest.drop number) else none
      | 3 =>
          if number ≤ rest.length then
            (ofUtf8 (rest.take number)).map fun value => (.text value, rest.drop number)
          else none
      | 4 => (readMany (read depth) number rest).map fun read => (.array read.1, read.2)
      | 5 => (readMany (readPair (read depth)) number rest).map fun read => (.map read.1, read.2)
      | 7 =>
          match number with
          | 20 => some (.bool false, rest)
          | 21 => some (.bool true, rest)
          | 22 => some (.null, rest)
          | _ => none
      | _ => none

/-- Items are written one after another, without anything between them. -/
theorem writeItems_eq (items : List Cbor) : writeItems items = items.flatMap write := by
  induction items with
  | nil => rw [writeItems, List.flatMap_nil]
  | cons item items ih => rw [writeItems, ih, List.flatMap_cons]

/-- Entries are written one after another. -/
theorem writeEntries_eq (entries : List (Cbor × Cbor)) :
    writeEntries entries = entries.flatMap writeEntry := by
  induction entries with
  | nil => rw [writeEntries, List.flatMap_nil]
  | cons entry entries ih => rw [writeEntries, ih, List.flatMap_cons]

theorem head_ne_nil (kind number : Nat) : head kind number ≠ [] := by
  unfold head
  repeat' split
  all_goals simp

/-- The bytes of an item are part of what is written. -/
theorem length_le_flatMap {Item : Type} {writeOne : Item → List UInt8} {items : List Item}
    {item : Item} (member : item ∈ items) :
    (writeOne item).length ≤ (items.flatMap writeOne).length := by
  have part : (writeOne item).Sublist (items.map writeOne).flatten :=
    List.sublist_flatten_of_mem (List.mem_map_of_mem member)
  exact part.length_le

theorem head_pos (kind number : Nat) : 0 < (head kind number).length :=
  List.length_pos_iff.mpr (head_ne_nil kind number)

/-- As many levels as there are bytes are enough. -/
theorem read_write (value : Cbor) {depth : Nat} (deep : (write value).length ≤ depth)
    (rest : List UInt8) : read depth (write value ++ rest) = some (value, rest) := by
  induction depth generalizing value rest with
  | zero =>
      have short : write value = [] := List.length_eq_zero_iff.mp (Nat.le_zero.mp deep)
      cases value <;> simp [write, head_ne_nil] at short
  | succ depth ih =>
      cases value with
      | unsigned value =>
          have bounded : value.toNat < 2 ^ 64 := value.toNat_lt
          simp only [write, read, readHead_head (show 0 < 8 by decide), Option.bind_eq_bind,
            Option.bind_some, if_pos bounded, UInt64.ofNat_toNat]
      | bytes value => simp [write, read, readHead_head]
      | text value => simp [write, read, readHead_head, ofUtf8_utf8]
      | array items =>
          rw [write, writeItems_eq, List.length_append] at deep
          have each : ∀ item ∈ items, ∀ rest, read depth (write item ++ rest) = some (item, rest) := by
            intro item member rest
            have inner : (write item).length ≤ (items.flatMap write).length :=
              length_le_flatMap member
            have outer := head_pos 4 items.length
            exact ih item (by omega) rest
          simp [write, read, readHead_head, writeItems_eq, readMany_flatMap each]
      | map entries =>
          rw [write, writeEntries_eq, List.length_append] at deep
          have each : ∀ entry ∈ entries, ∀ rest,
              readPair (read depth) (writeEntry entry ++ rest) = some (entry, rest) := by
            intro entry member rest
            have inner : (writeEntry entry).length ≤ (entries.flatMap writeEntry).length :=
              length_le_flatMap member
            have outer := head_pos 5 entries.length
            rw [writeEntry, List.length_append] at inner
            rw [writeEntry]
            exact readPair_append (ih entry.1 (by omega)) (ih entry.2 (by omega)) rest
          simp [write, read, readHead_head, writeEntries_eq, readMany_flatMap each]
      | bool value => cases value <;> simp [write, read, readHead_head]
      | null => simp [write, read, readHead_head]

/-- One value and nothing after it. -/
def decodeWhole (input : List UInt8) : Option Cbor :=
  match read input.length input with
  | some (value, []) => some value
  | _ => none

/-- Items as they are written and read whole. -/
def codec : Codec where
  encode := write
  decode := decodeWhole
  decode_encode := by
    intro value
    have all := read_write value (Nat.le_refl _) []
    rw [List.append_nil] at all
    rw [decodeWhole, all]

end Cbor

end Ciruela.Foundation
