import Mathlib.Data.List.DropRight
import Mathlib.Data.List.Infix

/-!
# Text helpers of the standard library

Texts are lists of characters. `isWhitespace` is the Unicode `White_Space`
property, which is what trimming looks at.
-/

namespace Ciruela.Foundation

/-- `char::is_whitespace`. -/
def isWhitespace (char : Char) : Bool :=
  let code := char.toNat
  (9 ≤ code && code ≤ 13) || code == 0x20 || code == 0x85 || code == 0xA0 || code == 0x1680 ||
    (0x2000 ≤ code && code ≤ 0x200A) || code == 0x2028 || code == 0x2029 || code == 0x202F ||
    code == 0x205F || code == 0x3000

/-- `str::trim`. -/
def trim (text : List Char) : List Char := (text.dropWhile isWhitespace).rdropWhile isWhitespace

/-- `str::starts_with`. -/
def startsWith (text front : List Char) : Bool := front.isPrefixOf text

/-- `str::ends_with`. -/
def endsWith (text ending : List Char) : Bool := ending.isSuffixOf text

/-- The text without its last `count` characters. -/
def dropEnd (text : List Char) (count : Nat) : List Char := text.take (text.length - count)

/-- `endsWith` tells the endings of a text. -/
theorem endsWith_iff {text ending : List Char} : endsWith text ending = true ↔ ending <:+ text :=
  List.isSuffixOf_iff_suffix

@[simp] theorem endsWith_append (text ending : List Char) : endsWith (text ++ ending) ending = true :=
  endsWith_iff.mpr (List.suffix_append text ending)

@[simp] theorem dropEnd_append (text ending : List Char) :
    dropEnd (text ++ ending) ending.length = text := by
  simp [dropEnd]

/-- Text with a given ending is what is left without it followed by the ending. -/
theorem dropEnd_append_of_endsWith {text ending : List Char} (ends : endsWith text ending = true) :
    dropEnd text ending.length ++ ending = text := by
  obtain ⟨front, rfl⟩ := endsWith_iff.mp ends
  rw [dropEnd_append]

end Ciruela.Foundation
