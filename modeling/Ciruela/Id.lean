import Ciruela.Foundation.Panic
import Ciruela.Foundation.Path

/-!
# Identifiers of images and machines

An image id is a byte string of any length, printed in lower-case hexadecimal.
The source keeps 32-byte ids and all others in two variants; every constructor
picks the variant by the length alone, so the bytes decide equality.
-/

namespace Ciruela

open Foundation

/-- `ImageId`: the hash that an index ends with. -/
structure ImageId where
  bytes : List UInt8
deriving DecidableEq

/-- `MachineId`. -/
abbrev MachineId := List UInt8

namespace ImageId

/-- A digit of a hexadecimal number, in lower case. -/
def hexDigit (value : Nat) : Char :=
  if value < 10 then Char.ofNat (value + 48) else Char.ofNat (value + 87)

/-- `Display`: two hexadecimal digits for each byte. -/
def toHex (image : ImageId) : List Char :=
  image.bytes.flatMap fun byte => [hexDigit (byte.toNat / 16), hexDigit (byte.toNat % 16)]

/-- What a digit stands for, in either case. -/
def hexValue (digit : Char) : Option Nat :=
  if '0' ≤ digit ∧ digit ≤ '9' then some (digit.toNat - 48)
  else if 'a' ≤ digit ∧ digit ≤ 'f' then some (digit.toNat - 87)
  else if 'A' ≤ digit ∧ digit ≤ 'F' then some (digit.toNat - 55)
  else none

/-- Two digits for each byte. -/
def bytesOfHex : List Char → Option (List UInt8)
  | [] => some []
  | [_] => none
  | high :: low :: rest => do
      let upper ← hexValue high
      let lower ← hexValue low
      let bytes ← bytesOfHex rest
      return UInt8.ofNat (upper * 16 + lower) :: bytes

/-- `FromStr`: both cases of digits are read. -/
def ofHex (text : List Char) : Option ImageId := (bytesOfHex text).map ImageId.mk

@[simp] theorem length_toHex (image : ImageId) : image.toHex.length = 2 * image.bytes.length := by
  obtain ⟨bytes⟩ := image
  induction bytes with
  | nil => rfl
  | cons byte rest ih =>
      simp only [toHex, List.flatMap_cons, List.length_append, List.length_cons] at ih ⊢
      simp only [ih, List.length_nil]
      omega

/-- No digit is mistaken for a slash or a dot. -/
theorem hexDigit_ne {value : Nat} (bounded : value < 16) :
    hexDigit value ≠ '/' ∧ hexDigit value ≠ '.' := by
  have all : ∀ digit < 16, hexDigit digit ≠ '/' ∧ hexDigit digit ≠ '.' := by decide
  exact all value bounded

/-- A character that is no digit is not in a printed id. -/
theorem notMem_toHex {char : Char} (noDigit : ∀ value < 16, hexDigit value ≠ char)
    (image : ImageId) : char ∉ image.toHex := by
  intro member
  obtain ⟨byte, _, digit⟩ := List.mem_flatMap.mp member
  have bounded : byte.toNat < 256 := byte.toNat_lt
  simp only [List.mem_cons, List.not_mem_nil, or_false] at digit
  rcases digit with high | low
  · exact noDigit _ (by omega) high.symm
  · exact noDigit _ (by omega) low.symm

/-- The text of an image has no slash in it. -/
theorem slash_notMem_toHex (image : ImageId) : '/' ∉ image.toHex :=
  notMem_toHex (fun _ bounded => (hexDigit_ne bounded).1) image

/-- The text of an image has no dot in it. -/
theorem dot_notMem_toHex (image : ImageId) : '.' ∉ image.toHex :=
  notMem_toHex (fun _ bounded => (hexDigit_ne bounded).2) image

/-- The two digits an id starts with are neither `.` nor `..`. -/
theorem take_two_toHex {image : ImageId} (nonempty : image.bytes ≠ []) :
    image.toHex.take 2 ≠ ['.'] ∧ image.toHex.take 2 ≠ ['.', '.'] ∧ '/' ∉ image.toHex.take 2 := by
  obtain ⟨bytes⟩ := image
  cases bytes with
  | nil => exact absurd rfl nonempty
  | cons byte rest =>
      have bounded : byte.toNat < 256 := byte.toNat_lt
      have high := hexDigit_ne (show byte.toNat / 16 < 16 by omega)
      have low := hexDigit_ne (show byte.toNat % 16 < 16 by omega)
      simp [toHex, high.1.symm, low.1.symm, high.2]

/-- A digit is read back. -/
theorem hexValue_hexDigit {value : Nat} (bounded : value < 16) :
    hexValue (hexDigit value) = some value := by
  have all : ∀ digit < 16, hexValue (hexDigit digit) = some digit := by decide
  exact all value bounded

/-- What is printed is read back. -/
@[simp] theorem ofHex_toHex (image : ImageId) : ofHex image.toHex = some image := by
  obtain ⟨bytes⟩ := image
  have read : bytesOfHex (toHex ⟨bytes⟩) = some bytes := by
    induction bytes with
    | nil => rfl
    | cons byte rest ih =>
        have bounded : byte.toNat < 256 := byte.toNat_lt
        have high := hexValue_hexDigit (show byte.toNat / 16 < 16 by omega)
        have low := hexValue_hexDigit (show byte.toNat % 16 < 16 by omega)
        have whole : UInt8.ofNat (byte.toNat / 16 * 16 + byte.toNat % 16) = byte := by
          rw [Nat.div_add_mod']
          exact UInt8.ofNat_toNat
        simp only [toHex, List.flatMap_cons, List.cons_append, List.nil_append] at ih ⊢
        simp only [bytesOfHex, high, low, ih, Option.bind_eq_bind, Option.bind_some, whole]
        rfl
  simp [ofHex, read]

/-- The name of the index file of an image. -/
def indexFile (image : ImageId) : FileName :=
  FileName.ofLong (image.toHex ++ ".ds1".toList) (by simp) (by
    rw [List.mem_append, not_or]
    exact ⟨image.slash_notMem_toHex, by decide⟩)

end ImageId

end Ciruela
