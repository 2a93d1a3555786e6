import Mathlib.Data.Finset.Sort
import Mathlib.GroupTheory.Perm.Cycle.Basic

/-!
# Going round a finite set

The values of a finite set in their order, with the first after the last, form one cycle.
Everybody who knows all values but their own finds their successor as the first that comes
after them, or else as the first of all.
-/

namespace Ciruela.Foundation

variable {Value : Type} [DecidableEq Value] {before : Value → Value → Prop} [DecidableRel before]
  [IsTrans Value before] [Std.Antisymm before] [Std.Total before]

/-- The least value after this one, or the least of all where there is none. -/
def IsNext (before : Value → Value → Prop) (set : Finset Value) (value next : Value) : Prop :=
  next ∈ set ∧
    ((¬ before next value ∧ ∀ other ∈ set, ¬ before other value → before next other) ∨
      ((∀ other ∈ set, before other value) ∧ ∀ other ∈ set, before next other))

/-- Every value of the set goes to the next one. -/
def cycleOf (before : Value → Value → Prop) [DecidableRel before] [IsTrans Value before]
    [Std.Antisymm before] [Std.Total before] (set : Finset Value) : Equiv.Perm Value :=
  (set.sort before).formPerm

/-- The elements of a set make up one cycle. -/
theorem isCycleOn_cycleOf (set : Finset Value) : (cycleOf before set).IsCycleOn set := by
  have cycle := (Finset.sort_nodup set before).isCycleOn_formPerm
  simpa [cycleOf] using cycle

/-- The first value of a sorted list that comes after this one, or else the first of all. -/
def nextInList (before : Value → Value → Prop) [DecidableRel before] (sorted : List Value)
    (value : Value) : Nat :=
  (sorted.findIdx? fun other => !decide (before other value)).getD 0

variable (before) in
/-- A set around one of its values: what comes before it and what comes after it. -/
theorem exists_sort_around {set : Finset Value} {value : Value} (member : value ∈ set) :
    ∃ front back, set.sort before = front ++ value :: back ∧
      (set.erase value).sort before = front ++ back ∧
      (∀ other ∈ front, before other value) ∧
      ∀ other ∈ back, before value other ∧ ¬ before other value := by
  obtain ⟨front, back, whole⟩ := List.append_of_mem ((Finset.mem_sort before).mpr member)
  have sorted : (front ++ value :: back).Pairwise before := by
    rw [← whole]
    exact Finset.pairwise_sort set before
  have nodup : (front ++ value :: back).Nodup := by
    rw [← whole]
    exact Finset.sort_nodup set before
  have among (other : Value) : other ∈ set ↔ other ∈ front ++ value :: back := by
    rw [← whole, Finset.mem_sort]
  have sub : (front ++ back).Sublist (front ++ value :: back) :=
    (List.sublist_cons_self value back).append_left front
  have fresh : value ∉ front ++ back := by
    have moved : (front ++ value :: back).Perm (value :: (front ++ back)) := List.perm_middle
    exact (List.nodup_cons.mp (moved.nodup_iff.mp nodup)).1
  obtain ⟨_, ofBack, ofFront⟩ := List.pairwise_append.mp sorted
  refine ⟨front, back, whole, ?_, ?_, ?_⟩
  · refine List.Perm.eq_of_pairwise' (Finset.pairwise_sort _ _) (sorted.sublist sub) ?_
    refine (List.perm_ext_iff_of_nodup (Finset.sort_nodup _ _) (nodup.sublist sub)).mpr ?_
    intro other
    rw [Finset.mem_sort, Finset.mem_erase, among]
    simp only [List.mem_append, List.mem_cons]
    constructor
    · rintro ⟨different, isFront | rfl | isBack⟩
      · exact Or.inl isFront
      · exact absurd rfl different
      · exact Or.inr isBack
    · intro either
      refine ⟨?_, either.imp_right Or.inr⟩
      rintro rfl
      exact fresh (List.mem_append.mpr either)
  · exact fun other isFront => ofFront other isFront value List.mem_cons_self
  · intro other isBack
    have after := (List.pairwise_cons.mp ofBack).1 other isBack
    refine ⟨after, fun earlier => fresh ?_⟩
    rw [antisymm after earlier]
    exact List.mem_append_right _ isBack

/-- The next value is the first one of what comes after and then what comes before. -/
theorem cycleOf_eq_head {set : Finset Value} {value next : Value} {front back rest : List Value}
    (whole : set.sort before = front ++ value :: back) (shape : back ++ front = next :: rest) :
    cycleOf before set value = next := by
  have nodup : (front ++ value :: back).Nodup := by
    rw [← whole]
    exact Finset.sort_nodup set before
  have distinct : (value :: (back ++ front)).Nodup := by
    have moved : (front ++ value :: back).Perm (value :: (back ++ front)) := by
      rw [← List.cons_append]
      exact List.perm_append_comm
    exact moved.nodup_iff.mp nodup
  rw [cycleOf, whole, ← List.formPerm_rotate _ nodup front.length, List.rotate_append_length_eq,
    List.cons_append]
  rw [shape] at distinct ⊢
  exact List.formPerm_apply_head value next rest distinct

/-- Who knows the other values finds the next one among them. -/
theorem getElem?_nextInList {set : Finset Value} {value : Value} (member : value ∈ set)
    (many : 2 ≤ set.card) :
    ((set.erase value).sort before)[nextInList before ((set.erase value).sort before) value]? =
      some (cycleOf before set value) := by
  obtain ⟨front, back, whole, others, early, late⟩ := exists_sort_around before member
  have notFront : front.findIdx? (fun other => !decide (before other value)) = none := by
    rw [List.findIdx?_eq_none_iff]
    intro other isFront
    simp [early other isFront]
  rw [others, nextInList, List.findIdx?_append, notFront]
  cases back with
  | nil =>
      cases front with
      | nil =>
          rw [← Finset.length_sort before, whole] at many
          simp at many
      | cons next rest =>
          rw [cycleOf_eq_head whole (List.nil_append _)]
          simp
  | cons next rest =>
      have isLate : decide (before next value) = false :=
        decide_eq_false (late next List.mem_cons_self).2
      rw [cycleOf_eq_head whole (List.cons_append)]
      simp [List.findIdx?_cons, isLate]

/-- Going round is going to the next one. -/
theorem isNext_cycleOf {set : Finset Value} {value : Value} (member : value ∈ set)
    (many : 2 ≤ set.card) : IsNext before set value (cycleOf before set value) := by
  obtain ⟨front, back, whole, _, early, late⟩ := exists_sort_around before member
  have sorted : (front ++ value :: back).Pairwise before := by
    rw [← whole]
    exact Finset.pairwise_sort set before
  have among (other : Value) : other ∈ set ↔ other ∈ front ∨ other = value ∨ other ∈ back := by
    rw [← Finset.mem_sort before, whole, List.mem_append, List.mem_cons]
  obtain ⟨ofFront, ofBack, _⟩ := List.pairwise_append.mp sorted
  cases back with
  | nil =>
      cases front with
      | nil =>
          rw [← Finset.length_sort before, whole] at many
          simp at many
      | cons next rest =>
          rw [cycleOf_eq_head whole (List.nil_append _)]
          refine ⟨(among next).mpr (Or.inl List.mem_cons_self), Or.inr ⟨?_, ?_⟩⟩
          · intro other isOther
            obtain isFront | rfl | nothing := (among other).mp isOther
            · exact early other isFront
            · exact refl_of before other
            · cases nothing
          · intro other isOther
            obtain isFront | rfl | nothing := (among other).mp isOther
            · rcases List.mem_cons.mp isFront with rfl | later
              · exact refl_of before other
              · exact (List.pairwise_cons.mp ofFront).1 other later
            · exact early next List.mem_cons_self
            · cases nothing
  | cons next rest =>
      rw [cycleOf_eq_head whole (List.cons_append)]
      refine ⟨(among next).mpr (Or.inr (Or.inr List.mem_cons_self)), Or.inl ⟨?_, ?_⟩⟩
      · exact (late next List.mem_cons_self).2
      · intro other isOther isLate
        obtain isFront | rfl | isBack := (among other).mp isOther
        · exact absurd (early other isFront) isLate
        · exact absurd (refl_of before other) isLate
        · rcases List.mem_cons.mp isBack with rfl | later
          · exact refl_of before other
          · have after := (List.pairwise_cons.mp ofBack).2
            exact (List.pairwise_cons.mp after).1 other later

end Ciruela.Foundation
