import Mathlib.Data.Finset.Insert
import Mathlib.Data.List.Nodup
import Ciruela.Foundation.Tree
import Ciruela.VirtualPath

/-!
# Tables of virtual paths

A path is found in a table by its components. The table keeps the text that the path had when
its entry was made, and this text is what goes out when the table is listed.
-/

namespace Ciruela

open Foundation

/-- A `BTreeMap` or a `HashMap` of virtual paths, with the texts they were received as. -/
structure PathMap (Value : Type) where
  entries : List (VPath × Value)
  apart : (entries.map fun entry => entry.1.place).Nodup

namespace PathMap

variable {Value New : Type}

/-- A table without entries. -/
def empty : PathMap Value := ⟨[], by simp⟩

/-- `get`. -/
def lookup (map : PathMap Value) (place : List Component) : Option Value :=
  (map.entries.find? fun entry => decide (entry.1.place = place)).map Prod.snd

/-- `entry(path).or_insert(default)` with what is done to the value. -/
def adjust (map : PathMap Value) (path : VPath) (default : Value) (change : Value → Value) :
    PathMap Value :=
  if known : path.place ∈ map.entries.map fun entry => entry.1.place then
    ⟨map.entries.map fun entry =>
        if entry.1.place = path.place then (entry.1, change entry.2) else entry, by
      rw [List.map_map]
      have same : (fun entry : VPath × Value => entry.1.place) ∘
          (fun entry => if entry.1.place = path.place then (entry.1, change entry.2) else entry) =
          fun entry => entry.1.place := by
        funext entry
        simp only [Function.comp]
        split <;> rfl
      rw [same]
      exact map.apart⟩
  else ⟨(path, change default) :: map.entries, List.nodup_cons.mpr ⟨known, map.apart⟩⟩

/-- `insert`: the text of a path that is there stays. -/
def insert (map : PathMap Value) (path : VPath) (value : Value) : PathMap Value :=
  map.adjust path value fun _ => value

/-- `retain`, with what is done to the values. -/
def filterMap (map : PathMap Value) (change : VPath → Value → Option New) : PathMap New :=
  ⟨map.entries.filterMap fun entry => (change entry.1 entry.2).map (entry.1, ·), by
    refine List.Nodup.sublist ?_ map.apart
    induction map.entries with
    | nil => exact List.Sublist.slnil
    | cons entry rest ih =>
        rw [List.filterMap_cons]
        cases change entry.1 entry.2 with
        | none => exact ih.cons _
        | some new => exact ih.cons_cons _⟩

/-- The table without the texts of the paths. -/
def table (map : PathMap Value) : Map (List Component) Value :=
  map.entries.foldl (fun table entry => table.insert entry.1.place entry.2) ∅

section Lookup

variable {map : PathMap Value} {path other : VPath} {place : List Component} {value : Value}

@[simp] theorem lookup_empty (place : List Component) :
    (empty : PathMap Value).lookup place = none := rfl

/-- An entry is found under the place of its path. -/
theorem lookup_eq_some_iff :
    map.lookup place = some value ↔ ∃ path, (path, value) ∈ map.entries ∧ path.place = place := by
  obtain ⟨entries, apart⟩ := map
  unfold lookup
  dsimp only
  induction entries with
  | nil => simp
  | cons entry rest ih =>
      rw [List.map_cons, List.nodup_cons] at apart
      by_cases here : entry.1.place = place
      · rw [List.find?_cons_of_pos (by simpa using here), Option.map_some, Option.some_inj]
        constructor
        · rintro rfl
          exact ⟨entry.1, List.mem_cons_self, here⟩
        · rintro ⟨path, member, isAt⟩
          rcases List.mem_cons.mp member with same | later
          · rw [← same]
          · exact absurd (List.mem_map.mpr ⟨(path, value), later, isAt.trans here.symm⟩) apart.1
      · rw [List.find?_cons_of_neg (by simpa using here), ih apart.2]
        refine exists_congr fun path => and_congr_left fun isAt => ?_
        rw [List.mem_cons, or_iff_right]
        rintro rfl
        exact here isAt

/-- An entry is found under its place. -/
theorem lookup_of_mem (member : (path, value) ∈ map.entries) :
    map.lookup path.place = some value :=
  lookup_eq_some_iff.mpr ⟨path, member, rfl⟩

/-- What is found after a value is put under a path. -/
theorem lookup_insert (map : PathMap Value) (path : VPath) (value : Value)
    (place : List Component) :
    (map.insert path value).lookup place =
      if place = path.place then some value else map.lookup place := by
  unfold insert adjust lookup
  split
  · rename_i known
    dsimp only
    rw [List.find?_map, Option.map_map]
    have same : ((fun entry : VPath × Value => decide (entry.1.place = place)) ∘ fun entry =>
        if entry.1.place = path.place then (entry.1, value) else entry) =
        fun entry => decide (entry.1.place = place) := by
      funext entry
      simp only [Function.comp]
      split <;> rfl
    rw [same]
    split
    · rename_i isPath
      obtain ⟨entry, member, isAt⟩ := List.mem_map.mp known
      cases found : map.entries.find? fun entry => decide (entry.1.place = place) with
      | none =>
          have absent := List.find?_eq_none.mp found entry member
          simp [isAt, isPath] at absent
      | some first =>
          have isFirst : first.1.place = place := by simpa using List.find?_some found
          simp [isFirst, isPath]
    · rename_i isOther
      refine Option.map_congr fun entry found => ?_
      have isEntry : entry.1.place = place := by simpa using List.find?_some found
      rw [Function.comp, if_neg fun isPath => isOther (isEntry.symm.trans isPath)]
  · dsimp only
    by_cases isPath : place = path.place
    · rw [List.find?_cons_of_pos (by simp [isPath]), if_pos isPath]
      rfl
    · rw [List.find?_cons_of_neg (by simpa using Ne.symm isPath), if_neg isPath]

/-- The entries that a change keeps. -/
theorem mem_filterMap {change : VPath → Value → Option New} {new : New} :
    (path, new) ∈ (map.filterMap change).entries ↔
      ∃ value, (path, value) ∈ map.entries ∧ change path value = some new := by
  unfold filterMap
  rw [List.mem_filterMap]
  constructor
  · rintro ⟨⟨other, value⟩, member, changed⟩
    obtain ⟨result, changes, same⟩ := Option.map_eq_some_iff.mp changed
    obtain ⟨rfl, rfl⟩ := Prod.mk.inj same
    exact ⟨value, member, changes⟩
  · rintro ⟨value, member, changes⟩
    exact ⟨(path, value), member, by rw [changes]; rfl⟩

/-- What is left of a table comes from the entry that was there. -/
theorem exists_of_lookup_filterMap {change : VPath → Value → Option New} {new : New}
    (found : (map.filterMap change).lookup place = some new) :
    ∃ path value, path.place = place ∧ map.lookup place = some value ∧
      change path value = some new := by
  obtain ⟨path, member, rfl⟩ := lookup_eq_some_iff.mp found
  obtain ⟨value, isEntry, changes⟩ := mem_filterMap.mp member
  exact ⟨path, value, rfl, lookup_of_mem isEntry, changes⟩

end Lookup

/-- Where there is an entry for each of some places, there is a table of them. -/
theorem exists_of_places {P : VPath × Value → Prop} (places : Finset (List Component))
    (some : ∀ place ∈ places, ∃ entry, entry.1.place = place ∧ P entry) :
    ∃ map : PathMap Value, (∀ entry ∈ map.entries, entry.1.place ∈ places ∧ P entry) ∧
      ∀ place ∈ places, (map.lookup place).isSome = true := by
  induction places using Finset.induction_on with
  | empty => exact ⟨.empty, nofun, nofun⟩
  | insert place rest fresh ih =>
      obtain ⟨map, entries, listed⟩ := ih fun other member => some other (Finset.mem_insert_of_mem member)
      obtain ⟨entry, rfl, holds⟩ := some place (Finset.mem_insert_self _ _)
      have apart : entry.1.place ∉ map.entries.map fun entry => entry.1.place := by
        intro member
        obtain ⟨other, isOther, same⟩ := List.mem_map.mp member
        exact fresh (same ▸ (entries other isOther).1)
      refine ⟨⟨entry :: map.entries, List.nodup_cons.mpr ⟨apart, map.apart⟩⟩, ?_, ?_⟩
      · intro other member
        rcases List.mem_cons.mp member with rfl | old
        · exact ⟨Finset.mem_insert_self _ _, holds⟩
        · exact ⟨Finset.mem_insert_of_mem (entries other old).1, (entries other old).2⟩
      · intro other member
        refine Option.isSome_iff_exists.mpr ?_
        rcases Finset.mem_insert.mp member with rfl | old
        · exact ⟨entry.2, lookup_of_mem List.mem_cons_self⟩
        · obtain ⟨value, found⟩ := Option.isSome_iff_exists.mp (listed other old)
          obtain ⟨path, isEntry, isAt⟩ := lookup_eq_some_iff.mp found
          exact ⟨value, lookup_eq_some_iff.mpr ⟨path, List.mem_cons_of_mem _ isEntry, isAt⟩⟩

end PathMap

end Ciruela
