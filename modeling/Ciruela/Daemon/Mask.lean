import Mathlib.Data.BitVec

/-!
# Masks of slices

A node tells its peers which parts of an image it has: one bit for each of the fifteen
slices and the highest bit for the index.
-/

namespace Ciruela

/-- `Mask`: a bit for each slice of an image, and one for the index. -/
structure Mask where
  bits : BitVec 16
deriving DecidableEq

namespace Mask

/-- `Mask::full`: nothing is missing. -/
def full : Mask := ⟨BitVec.allOnes 16⟩

/-- `Mask::slice_unfetched`. -/
def sliceUnfetched (mask : Mask) (idx : Nat) : Mask := ⟨mask.bits &&& ~~~(1#16 <<< idx)⟩

/-- `AtomicMask::set_fetched`. -/
def setFetched (mask : Mask) (idx : Nat) : Mask := ⟨mask.bits ||| (1#16 <<< idx)⟩

/-- The bit of a slice is set. -/
def has (mask : Mask) (idx : Nat) : Bool := mask.bits.getLsbD idx

/-- One bit that is shifted. -/
theorem getLsbD_one_shiftLeft {idx : Nat} (inside : idx < 16) (i : Nat) :
    (1#16 <<< idx).getLsbD i = decide (i = idx) := by
  rw [BitVec.getLsbD_shiftLeft, BitVec.getLsbD_one]
  by_cases same : i = idx
  · simp [same, inside]
  · by_cases below : i < idx
    · simp [below, same]
    · have positive : i - idx ≠ 0 := by omega
      simp [below, same, positive]

/-- The full mask has every bit. -/
theorem has_full (i : Nat) : full.has i = decide (i < 16) := by
  rw [has, full, BitVec.getLsbD_allOnes]

/-- Setting a slice adds its bit. -/
theorem has_setFetched (mask : Mask) {idx : Nat} (inside : idx < 16) (i : Nat) :
    (mask.setFetched idx).has i = (mask.has i || decide (i = idx)) := by
  simp [has, setFetched, getLsbD_one_shiftLeft inside]

/-- Taking a slice away removes its bit. -/
theorem has_sliceUnfetched (mask : Mask) {idx : Nat} (inside : idx < 16) (i : Nat) :
    (mask.sliceUnfetched idx).has i = (mask.has i && decide (i ≠ idx)) := by
  unfold has sliceUnfetched
  rw [BitVec.getLsbD_and, BitVec.getLsbD_not, getLsbD_one_shiftLeft inside]
  by_cases within : i < 16
  · simp [within]
  · simp [BitVec.getLsbD_of_ge _ _ (Nat.le_of_not_lt within)]

end Mask

end Ciruela
