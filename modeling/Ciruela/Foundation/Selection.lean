import Mathlib.Data.List.Sort

/-!
# Selecting from a sorted list

The first elements of a sorted list come before the others, and an element that is among
the first of a list is among the first of every part of the list that has it. A stable sort
keeps the parts of a list.
-/

namespace Ciruela.Foundation

variable {Value : Type} {before : Value → Value → Prop} {part whole : List Value} {value : Value}
  {count : Nat}

/-- In a sorted list what is taken comes before what is dropped. -/
theorem before_of_mem_take_of_mem_drop (sorted : whole.Pairwise before) {first last : Value}
    (isFirst : first ∈ whole.take count) (isLast : last ∈ whole.drop count) : before first last := by
  rw [← List.take_append_drop count whole, List.pairwise_append] at sorted
  exact sorted.2.2 first isFirst last isLast

/-- What is among the first of the whole is among the first of a part. -/
theorem mem_take_of_sublist (sub : part.Sublist whole) (nodup : whole.Nodup) (among : value ∈ part)
    (isFirst : value ∈ whole.take count) : value ∈ part.take count := by
  induction sub generalizing count with
  | slnil => simp at among
  | cons head sub ih =>
      obtain ⟨fresh, nodup⟩ := List.nodup_cons.mp nodup
      cases count with
      | zero => simp at isFirst
      | succ count =>
          rcases List.mem_cons.mp isFirst with rfl | later
          · exact absurd (sub.subset among) fresh
          · exact (List.take_sublist_take_left (Nat.le_succ count)).subset (ih nodup among later)
  | cons_cons head sub ih =>
      obtain ⟨fresh, nodup⟩ := List.nodup_cons.mp nodup
      cases count with
      | zero => simp at isFirst
      | succ count =>
          rw [List.take_succ_cons] at isFirst ⊢
          rcases List.mem_cons.mp isFirst with rfl | later
          · exact List.mem_cons_self
          · rcases List.mem_cons.mp among with rfl | further
            · exact absurd (List.mem_of_mem_take later) fresh
            · exact List.mem_cons_of_mem _ (ih nodup further later)

/-- The last elements of a list are the first ones from the other end. -/
theorem mem_drop_length_sub : value ∈ whole.drop (whole.length - count) ↔
    value ∈ whole.reverse.take count := by
  rw [List.take_reverse, List.mem_reverse]

/-- What is among the last of the whole is among the last of a part. -/
theorem mem_drop_of_sublist (sub : part.Sublist whole) (nodup : whole.Nodup) (among : value ∈ part)
    (isLast : value ∈ whole.drop (whole.length - count)) :
    value ∈ part.drop (part.length - count) := by
  rw [mem_drop_length_sub] at isLast ⊢
  exact mem_take_of_sublist sub.reverse (List.nodup_reverse.mpr nodup) (List.mem_reverse.mpr among)
    isLast

/-- What is among the first that a test lets through: it passes, and fewer pass before it. -/
theorem mem_take_filter_iff {passes : Value → Bool} : value ∈ (whole.filter passes).take count ↔
    ∃ front back, whole = front ++ value :: back ∧ passes value = true ∧
      (front.filter passes).length < count := by
  constructor
  · intro isFirst
    induction whole generalizing count with
    | nil => simp at isFirst
    | cons head rest ih =>
        by_cases passing : passes head = true
        · rw [List.filter_cons_of_pos passing] at isFirst
          cases count with
          | zero => simp at isFirst
          | succ count =>
              rcases List.mem_cons.mp isFirst with rfl | later
              · exact ⟨[], rest, rfl, passing, Nat.succ_pos _⟩
              · obtain ⟨front, back, rfl, passed, few⟩ := ih later
                refine ⟨head :: front, back, rfl, passed, ?_⟩
                rw [List.filter_cons_of_pos passing]
                exact Nat.succ_lt_succ few
        · rw [List.filter_cons_of_neg passing] at isFirst
          obtain ⟨front, back, rfl, passed, few⟩ := ih isFirst
          refine ⟨head :: front, back, rfl, passed, ?_⟩
          rwa [List.filter_cons_of_neg passing]
  · rintro ⟨front, back, rfl, passed, few⟩
    rw [List.filter_append, List.filter_cons_of_pos passed, List.take_append]
    apply List.mem_append_right
    obtain ⟨more, positive⟩ := Nat.exists_eq_succ_of_ne_zero (Nat.sub_ne_zero_of_lt few)
    rw [positive]
    exact List.mem_cons_self

/-- Sorting a part of a list gives a part of the sorted list, equal elements included. -/
theorem insertionSort_sublist [DecidableRel before] [Std.Total before] [IsTrans Value before]
    (sub : part.Sublist whole) : (part.insertionSort before).Sublist (whole.insertionSort before) := by
  induction sub with
  | slnil => exact List.Sublist.slnil
  | cons head _ ih =>
      rw [List.insertionSort_cons]
      exact ih.trans (List.sublist_orderedInsert _ _)
  | cons_cons head _ ih =>
      rw [List.insertionSort_cons, List.insertionSort_cons]
      exact ih.orderedInsert_sublist _ (List.pairwise_insertionSort _ _)

end Ciruela.Foundation
