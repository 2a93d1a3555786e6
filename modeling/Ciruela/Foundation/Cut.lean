import Mathlib.Data.List.Basic

/-!
# Data cut into blocks

Data is cut into blocks of one size, of which the last may be shorter. A block is known by its
number.
-/

namespace Ciruela.Foundation

section Cut

variable {Item : Type}

/-- The block with this number: `data[number * size .. min(len, (number + 1) * size)]`. -/
def blockAt (size : Nat) (data : List Item) (number : Nat) : List Item :=
  (data.drop (number * size)).take size

/-- How many blocks there are. -/
def blockCount (size length : Nat) : Nat := (length + size - 1) / size

variable {size number length : Nat}

/-- Only the last block may be shorter than the others, and there is nothing after it. -/
theorem length_blockAt (size : Nat) (data : List Item) (number : Nat) :
    (blockAt size data number).length = min size (data.length - number * size) := by
  rw [blockAt, List.length_take, List.length_drop]

/-- The blocks that are there are those that begin inside of the data. -/
theorem lt_blockCount_iff (positive : 0 < size) :
    number < blockCount size length ↔ number * size < length := by
  unfold blockCount
  rw [Nat.lt_div_iff_mul_lt positive]
  omega

/-- Data of at most one block. -/
theorem blockCount_le_one_iff (positive : 0 < size) :
    blockCount size length ≤ 1 ↔ length ≤ size := by
  have second : 1 < blockCount size length ↔ 1 * size < length := lt_blockCount_iff positive
  omega

/-- All the data is in the first block. -/
theorem blockAt_zero {data : List Item} (short : data.length ≤ size) : blockAt size data 0 = data := by
  rw [blockAt, Nat.zero_mul, List.drop_zero, List.take_of_length_le short]

/-- A block that lies in the first part of the data is a block of that part. -/
theorem blockAt_append_of_le {front : List Item} (inside : (number + 1) * size ≤ front.length)
    (back : List Item) : blockAt size (front ++ back) number = blockAt size front number := by
  rw [Nat.succ_mul] at inside
  rw [blockAt, blockAt, List.drop_append_of_le_length (by omega), List.take_append_of_le_length]
  rw [List.length_drop]
  omega

/-- A block that is put where it belongs is found there, and is the last one if it is short. -/
theorem blockAt_append_append {front block back : List Item} (starts : front.length = number * size)
    (whole : block.length = min size (block.length + back.length)) :
    blockAt size (front ++ block ++ back) number = block := by
  rw [blockAt, List.append_assoc, ← starts, List.drop_left]
  rcases Nat.le_total size (block.length + back.length) with long | short
  · rw [Nat.min_eq_left long] at whole
    rw [← whole, List.take_left]
  · rw [Nat.min_eq_right short] at whole
    rw [List.eq_nil_of_length_eq_zero (by omega : back.length = 0), List.append_nil,
      List.take_of_length_le (by omega)]

end Cut

end Ciruela.Foundation
