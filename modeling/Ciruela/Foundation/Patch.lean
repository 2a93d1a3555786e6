import Mathlib.Data.Nat.Basic
import Ciruela.Foundation.Cut

/-!
# Data written in pieces

Data is written at an offset over what is there, and a gap is filled. Data that was written block
by block, in any order, is the data that the blocks are of once all of them are written.
-/

namespace Ciruela.Foundation

section Patch

variable {Item : Type}

/-- Write at an offset. To write nothing changes nothing. -/
def writeAt (filler : Item) (data : List Item) (offset : Nat) (piece : List Item) : List Item :=
  if piece = [] then data
  else (data ++ List.replicate (offset - data.length) filler).take offset ++ piece ++
    data.drop (offset + piece.length)

variable {filler : Item} {data content piece : List Item} {offset size number : Nat}

/-- Writing makes the data long enough for what is written. -/
theorem length_writeAt (nonempty : piece ≠ []) :
    (writeAt filler data offset piece).length = max data.length (offset + piece.length) := by
  rw [writeAt, if_neg nonempty]
  simp only [List.length_append, List.length_take, List.length_replicate, List.length_drop]
  omega

/-- What is written is there. -/
theorem getElem?_writeAt_inside {i : Nat} (starts : offset ≤ i) (ends : i < offset + piece.length) :
    (writeAt filler data offset piece)[i]? = piece[i - offset]? := by
  have nonempty : piece ≠ [] := by
    rintro rfl
    simp at ends
    omega
  have front : ((data ++ List.replicate (offset - data.length) filler).take offset).length =
      offset := by
    rw [List.length_take, List.length_append, List.length_replicate]
    omega
  rw [writeAt, if_neg nonempty, List.append_assoc, List.getElem?_append_right (by omega), front,
    List.getElem?_append_left (by omega)]

/-- What was there stays around it. -/
theorem getElem?_writeAt_outside {i : Nat} (there : i < data.length)
    (outside : i < offset ∨ offset + piece.length ≤ i) :
    (writeAt filler data offset piece)[i]? = data[i]? := by
  rw [writeAt]
  split
  · rfl
  · have front : ((data ++ List.replicate (offset - data.length) filler).take offset).length =
        offset := by
      rw [List.length_take, List.length_append, List.length_replicate]
      omega
    rcases outside with before | after
    · rw [List.append_assoc, List.getElem?_append_left (by omega), List.getElem?_take_of_lt before,
        List.getElem?_append_left there]
    · rw [List.getElem?_append_right (by rw [List.length_append]; omega), List.getElem?_drop,
        List.length_append, front]
      congr 1
      omega

/-- Data is known by its blocks. -/
theorem eq_of_blocks (positive : 0 < size)
    (count : blockCount size data.length = blockCount size content.length)
    (same : ∀ number < blockCount size content.length,
      blockAt size data number = blockAt size content number) : data = content := by
  have inBlock (items : List Item) (i : Nat) : (blockAt size items (i / size))[i % size]? = items[i]? := by
    rw [blockAt, List.getElem?_take_of_lt (Nat.mod_lt i positive), List.getElem?_drop,
      Nat.div_add_mod']
  have within {items : List Item} {i : Nat} (inside : i < items.length) :
      i / size < blockCount size items.length := by
    rw [lt_blockCount_iff positive]
    exact Nat.lt_of_le_of_lt (Nat.div_mul_le_self i size) inside
  refine List.ext_getElem? fun i => ?_
  by_cases there : i < data.length ∨ i < content.length
  · have isBlock : i / size < blockCount size content.length :=
      there.elim (fun inside => count ▸ within inside) within
    rw [← inBlock data i, ← inBlock content i, same _ isBlock]
  · rw [List.getElem?_eq_none (by omega), List.getElem?_eq_none (by omega)]

/-- Some blocks of the content are there, and nothing is past its end. -/
structure Patched (size : Nat) (content data : List Item) (done : Nat → Prop) : Prop where
  short : data.length ≤ content.length
  there : ∀ i < content.length, done (i / size) → data[i]? = content[i]?

/-- Nothing written is a patched nothing. -/
theorem patched_nil (size : Nat) (content : List Item) :
    Patched size content [] fun _ => False :=
  ⟨Nat.zero_le _, fun _ _ nothing => nothing.elim⟩

/-- Which blocks are there may be told in another way. -/
theorem Patched.congr {done done' : Nat → Prop} (patched : Patched size content data done)
    (same : ∀ number, number < blockCount size content.length → (done' number → done number))
    (positive : 0 < size) : Patched size content data done' := by
  refine ⟨patched.short, fun i inside isDone => patched.there i inside (same _ ?_ isDone)⟩
  rw [lt_blockCount_iff positive]
  exact Nat.lt_of_le_of_lt (Nat.div_mul_le_self i size) inside

/-- A part of the content that is written where it belongs is there, and so is what was there. -/
theorem writeAt_slice (filler : Item) (short : data.length ≤ content.length) (offset length : Nat) :
    let piece := (content.drop offset).take length
    (writeAt filler data offset piece).length ≤ content.length ∧
      ∀ i < content.length, data[i]? = content[i]? ∨ offset ≤ i ∧ i < offset + piece.length →
        (writeAt filler data offset piece)[i]? = content[i]? := by
  intro piece
  have fits : piece.length = min length (content.length - offset) := by
    rw [List.length_take, List.length_drop]
  constructor
  · by_cases nonempty : piece = []
    · rw [nonempty, writeAt, if_pos rfl]
      exact short
    · rw [length_writeAt nonempty, fits]
      have positive := List.length_pos_iff.mpr nonempty
      omega
  · intro i inside known
    by_cases within : offset ≤ i ∧ i < offset + piece.length
    · rw [getElem?_writeAt_inside within.1 within.2, List.getElem?_take_of_lt (by omega),
        List.getElem?_drop]
      congr 1
      omega
    · have same := known.resolve_right within
      have there : i < data.length := by
        have isSome : data[i]? ≠ none := by
          rw [same]
          simpa using inside
        simpa using isSome
      rw [getElem?_writeAt_outside there (by omega), same]

/-- A block that is only partly written takes nothing away. -/
theorem Patched.writePart {done : Nat → Prop} (patched : Patched size content data done)
    (number count : Nat) :
    Patched size content
      (writeAt filler data (number * size) ((blockAt size content number).take count)) done := by
  rw [blockAt, List.take_take]
  obtain ⟨short, there⟩ := writeAt_slice filler patched.short (number * size)
    (min count size)
  exact ⟨short, fun i inside isDone => there i inside (Or.inl (patched.there i inside isDone))⟩

/-- One block more is written, whichever it is. -/
theorem Patched.write {done : Nat → Prop} (patched : Patched size content data done)
    (positive : 0 < size) (number : Nat) :
    Patched size content (writeAt filler data (number * size) (blockAt size content number))
      fun other => other = number ∨ done other := by
  obtain ⟨short, there⟩ := writeAt_slice filler patched.short (number * size) size
  refine ⟨short, fun i inside isDone => there i inside ?_⟩
  rcases isDone with rfl | old
  · right
    have starts : i / size * size ≤ i := Nat.div_mul_le_self i size
    have ends : i < i / size * size + size := by
      have rest := Nat.mod_lt i positive
      have whole := Nat.div_add_mod' i size
      omega
    rw [List.length_take, List.length_drop]
    omega
  · exact Or.inl (patched.there i inside old)

/-- When every block is there, the data is the content. -/
theorem Patched.eq {done : Nat → Prop} (patched : Patched size content data done)
    (positive : 0 < size) (all : ∀ number < blockCount size content.length, done number) :
    data = content := by
  have there : ∀ i < content.length, data[i]? = content[i]? := by
    intro i inside
    refine patched.there i inside (all _ ?_)
    rw [lt_blockCount_iff positive]
    exact Nat.lt_of_le_of_lt (Nat.div_mul_le_self i size) inside
  refine List.ext_getElem? fun i => ?_
  by_cases inside : i < content.length
  · exact there i inside
  · have short := patched.short
    rw [List.getElem?_eq_none (by omega : data.length ≤ i),
      List.getElem?_eq_none (by omega : content.length ≤ i)]

end Patch

end Ciruela.Foundation
