import Ciruela.Foundation.Tree

/-!
# Maps to sets

A map whose values are sets is a relation between keys and values. A pair is added to the
set of its key, which is made when there is none. A pair is taken out of the set, and a
key goes with its last value. Both are described by what they do to the relation, and a
table in which no key is left with an empty set is known by its relation alone.
-/

namespace Ciruela.Foundation

/-- A table of sets. -/
abbrev Multimap (Key Value : Type) := Map Key (Finset Value)

namespace Multimap

variable {Key Value : Type} [DecidableEq Key] {table : Multimap Key Value}

/-- The pair is in the table. -/
def Relates (table : Multimap Key Value) (key : Key) (value : Value) : Prop :=
  ∃ values, table.lookup key = some values ∧ value ∈ values

/-- No key is left with nothing. -/
def Tight (table : Multimap Key Value) : Prop :=
  ∀ key values, table.lookup key = some values → values.Nonempty

/-- An empty table has no key without values. -/
theorem tight_empty : Tight (∅ : Multimap Key Value) := by
  intro key values found
  simp at found

theorem not_relates_empty (key : Key) (value : Value) : ¬ Relates ∅ key value := by
  rintro ⟨values, found, _⟩
  simp at found

/-- A value is related to a key when it is in what is listed under the key. -/
theorem relates_iff_mem_getD {key : Key} {value : Value} :
    table.Relates key value ↔ value ∈ (table.lookup key).getD ∅ := by
  cases found : table.lookup key with
  | none => simp [Relates, found]
  | some values => simp [Relates, found]

/-- A tight table is known by its relation: what a key has is the set of its values. -/
theorem Tight.lookup_eq_some_iff (tight : table.Tight) {key : Key} {values : Finset Value} :
    table.lookup key = some values ↔
      values.Nonempty ∧ ∀ value, value ∈ values ↔ table.Relates key value := by
  constructor
  · intro found
    refine ⟨tight key values found, fun value => ?_⟩
    rw [relates_iff_mem_getD, found, Option.getD_some]
  · rintro ⟨⟨value, member⟩, exact⟩
    obtain ⟨there, found, _⟩ := (exact value).mp member
    rw [found]
    congr 1
    ext other
    rw [exact other, relates_iff_mem_getD, found, Option.getD_some]

/-- A key that a tight table does not have is one without values. -/
theorem Tight.lookup_eq_none_iff (tight : table.Tight) {key : Key} :
    table.lookup key = none ↔ ∀ value, ¬ table.Relates key value := by
  constructor
  · rintro missing value ⟨values, found, _⟩
    rw [missing] at found
    cases found
  · intro nothing
    cases found : table.lookup key with
    | none => rfl
    | some values =>
        obtain ⟨value, member⟩ := tight key values found
        exact absurd ⟨values, found, member⟩ (nothing value)

variable [DecidableEq Value]

/-- A value is added under a key. -/
def add (table : Multimap Key Value) (key : Key) (value : Value) : Multimap Key Value :=
  table.insert key (insert value ((table.lookup key).getD ∅))

/-- A value is removed under a key. A key without values goes away. -/
def remove (table : Multimap Key Value) (key : Key) (value : Value) : Multimap Key Value :=
  match table.lookup key with
  | none => table
  | some values =>
      if values.erase value = ∅ then table.erase key else table.insert key (values.erase value)

/-- Only the key of the value that is added has other values. -/
theorem lookup_add (table : Multimap Key Value) (key other : Key) (value : Value) :
    (table.add key value).lookup other =
      if other = key then some (insert value ((table.lookup key).getD ∅)) else table.lookup other :=
  Map.lookup_insert_eq table key other _

/-- What is related after a value is added. -/
theorem relates_add {key other : Key} {value extra : Value} :
    (table.add key value).Relates other extra ↔
      table.Relates other extra ∨ other = key ∧ extra = value := by
  rw [relates_iff_mem_getD, relates_iff_mem_getD, lookup_add]
  by_cases same : other = key
  · subst same
    simp [or_comm]
  · simp [same]

/-- Adding leaves no key without values. -/
theorem Tight.add (tight : table.Tight) (key : Key) (value : Value) : (table.add key value).Tight := by
  intro other values found
  rw [lookup_add] at found
  split at found
  · obtain rfl := Option.some.inj found
    exact Finset.insert_nonempty _ _
  · exact tight other values found

/-- Only the key of the value that is removed has other values, and it goes away with the last one.
-/
theorem lookup_remove (table : Multimap Key Value) (key other : Key) (value : Value) :
    (table.remove key value).lookup other =
      if other = key then
        (table.lookup key).bind fun values =>
          if values.erase value = ∅ then none else some (values.erase value)
      else table.lookup other := by
  unfold remove
  cases found : table.lookup key with
  | none =>
      by_cases same : other = key
      · subst same
        simp [found]
      · simp [same]
  | some values =>
      by_cases last : values.erase value = ∅
      · simp only [last, if_true, Map.lookup_erase_eq, Option.bind_some]
      · simp only [last, if_false, Map.lookup_insert_eq, Option.bind_some]

/-- What is related after a value is removed. -/
theorem relates_remove {key other : Key} {value extra : Value} :
    (table.remove key value).Relates other extra ↔
      table.Relates other extra ∧ ¬ (other = key ∧ extra = value) := by
  rw [relates_iff_mem_getD, relates_iff_mem_getD, lookup_remove]
  by_cases same : other = key
  · subst same
    cases found : table.lookup other with
    | none => simp
    | some values =>
        by_cases last : values.erase value = ∅
        · have only : ∀ extra ∈ values, extra = value := by
            intro extra member
            by_contra different
            exact Finset.notMem_empty extra (last ▸ Finset.mem_erase.mpr ⟨different, member⟩)
          simpa [last] using only extra
        · simp [last, and_comm]
  · simp [same]

/-- Removing leaves no key without values. -/
theorem Tight.remove (tight : table.Tight) (key : Key) (value : Value) :
    (table.remove key value).Tight := by
  intro other values found
  rw [lookup_remove] at found
  split at found
  · obtain ⟨before, _, kept⟩ := Option.bind_eq_some_iff.mp found
    split at kept
    · cases kept
    · rename_i left
      obtain rfl := Option.some.inj kept
      exact Finset.nonempty_iff_ne_empty.mpr left
  · exact tight other values found

/-- Take a value away from many keys. -/
theorem relates_foldl_remove {keys : List Key} {value : Value} {other : Key} {extra : Value} :
    (keys.foldl (fun table key => table.remove key value) table).Relates other extra ↔
      table.Relates other extra ∧ ¬ (other ∈ keys ∧ extra = value) := by
  induction keys generalizing table with
  | nil => simp
  | cons key rest ih =>
      rw [List.foldl_cons, ih, relates_remove, List.mem_cons]
      tauto

/-- Removing a value under many keys leaves no key without values. -/
theorem Tight.foldl_remove (tight : table.Tight) (keys : List Key) (value : Value) :
    Tight (keys.foldl (fun table key => table.remove key value) table) := by
  induction keys generalizing table with
  | nil => exact tight
  | cons key rest ih => exact ih (tight.remove key value)

end Multimap

end Ciruela.Foundation
