import Ciruela.Foundation.Nested

/-!
# Leaves written over each other

What the leaves of a tree are is a function of their places. A leaf that is written takes the
place of whatever was there or below, and the other leaves stay: `overlay` is such a write. After
any number of writes, a leaf is there as long as nothing was written later at its place or above
it. `Nested.prune` changes leaves and drops what is empty, which no leaf is affected by.
-/

namespace Ciruela.Foundation

universe u v w

variable {Key : Type u} {Leaf : Type v}

section Overlay

variable [DecidableEq Key]

/-- A leaf is written at a place. -/
def overlay (write : List Key × Option Leaf) (content : List Key → Option Leaf)
    (place : List Key) : Option Leaf :=
  if place = write.1 then write.2 else if write.1 <+: place then none else content place

/-- One write after another. -/
def overlays (writes : List (List Key × Option Leaf)) (content : List Key → Option Leaf) :
    List Key → Option Leaf :=
  writes.foldl (fun content write => overlay write content) content

variable {writes earlier later : List (List Key × Option Leaf)}
  {content : List Key → Option Leaf} {write : List Key × Option Leaf} {place : List Key}

theorem overlays_concat : overlays (writes ++ [write]) content =
    overlay write (overlays writes content) := by
  rw [overlays, List.foldl_append]
  rfl

/-- What was written is there. -/
theorem overlay_self : overlay write content write.1 = write.2 := if_pos rfl

/-- A write leaves alone what is not at its place or below. -/
theorem overlay_elsewhere (elsewhere : ¬ write.1 <+: place) :
    overlay write content place = content place := by
  have other : place ≠ write.1 := by
    rintro rfl
    exact elsewhere (List.prefix_refl _)
  rw [overlay, if_neg other, if_neg elsewhere]

/-- Writes leave alone what none of them is at or above. -/
theorem overlays_elsewhere (elsewhere : ∀ write ∈ writes, ¬ write.1 <+: place) :
    overlays writes content place = content place := by
  induction writes generalizing content with
  | nil => rfl
  | cons first rest ih =>
      refine (ih fun write member => elsewhere write (List.mem_cons_of_mem _ member)).trans ?_
      exact overlay_elsewhere (elsewhere first List.mem_cons_self)

/-- What was written last at a place or above it is there. -/
theorem overlays_kept (kept : ∀ other ∈ later, ¬ other.1 <+: write.1) :
    overlays (earlier ++ write :: later) content write.1 = write.2 := by
  have split : overlays (earlier ++ write :: later) content =
      overlays later (overlay write (overlays earlier content)) := by
    rw [overlays, List.foldl_append]
    rfl
  rw [split, overlays_elsewhere kept, overlay_self]

end Overlay

/-- The leaves of an entry are of one kind. -/
def Slot.Leaves (Good : Leaf → Prop) : Slot Key Leaf → Prop
  | leaf value => Good value
  | node inside => inside.Leaves Good

namespace Nested

variable {Good : Leaf → Prop} {map inside : Nested Key Leaf} {key : Key} {slot : Slot Key Leaf}

theorem leaves_cons_iff :
    (cons key slot map).Leaves Good ↔ slot.Leaves Good ∧ map.Leaves Good := by
  cases slot <;> rfl

section Order

variable [LinearOrder Key]

/-- What is found in a tree of good leaves has good leaves. -/
theorem Leaves.of_find (good : map.Leaves Good) (found : map.find key = some slot) :
    slot.Leaves Good := by
  induction map using cons_induction with
  | nil => cases found
  | cons first inside rest _ ih =>
      obtain ⟨here, tail⟩ := leaves_cons_iff.mp good
      rw [find_cons] at found
      split at found
      · rwa [← Option.some.inj found]
      · exact ih tail found

/-- Putting good leaves into a tree of good leaves keeps them good. -/
theorem Leaves.put (good : map.Leaves Good) (inside : slot.Leaves Good) (key : Key) :
    (map.put key slot).Leaves Good := by
  induction map using cons_induction with
  | nil => exact leaves_cons_iff.mpr ⟨inside, trivial⟩
  | cons first inner rest _ ih =>
      obtain ⟨here, tail⟩ := leaves_cons_iff.mp good
      rw [put_cons]
      split
      · exact leaves_cons_iff.mpr ⟨inside, good⟩
      · split
        · exact leaves_cons_iff.mpr ⟨inside, tail⟩
        · exact leaves_cons_iff.mpr ⟨here, ih tail⟩

end Order

end Nested

section Leaves

variable [LinearOrder Key]

/-- The leaf at a place in an entry. -/
def Slot.leafAt (slot : Slot Key Leaf) (place : List Key) : Option Leaf :=
  match slot.lookup place with
  | some (leaf value) => some value
  | _ => none

/-- The leaf at a place. -/
def Nested.leafAt (map : Nested Key Leaf) (place : List Key) : Option Leaf :=
  (Slot.node map).leafAt place

theorem Slot.leafAt_cons (inside : Nested Key Leaf) (key : Key) (place : List Key) :
    (Slot.node inside).leafAt (key :: place) =
      (inside.find key).bind fun slot => slot.leafAt place := by
  unfold leafAt
  rw [lookup]
  cases inside.find key <;> rfl

theorem Nested.leafAt_cons (map : Nested Key Leaf) (key : Key) (place : List Key) :
    map.leafAt (key :: place) = (map.find key).bind fun slot => slot.leafAt place :=
  Slot.leafAt_cons map key place

/-- A leaf of a tree of good leaves is good. -/
theorem Nested.Leaves.of_leafAt {Good : Leaf → Prop} {map : Nested Key Leaf} {place : List Key}
    {value : Leaf} (good : map.Leaves Good) (found : map.leafAt place = some value) :
    Good value := by
  induction place generalizing map with
  | nil => cases found
  | cons key place ih =>
      rw [Nested.leafAt_cons] at found
      obtain ⟨slot, isSlot, found⟩ := Option.bind_eq_some_iff.mp found
      have inner := good.of_find isSlot
      cases slot with
      | leaf other =>
          cases place with
          | nil =>
              obtain rfl := Option.some.inj found
              exact inner
          | cons first rest => cases found
      | node inside => exact ih inner found

end Leaves

section Prune

variable [LinearOrder Key] [DecidableEq Leaf]

/-- Every leaf is changed, and the maps in it that are empty are dropped. -/
def Nested.prune (change : Leaf → Leaf) : Nested Key Leaf → Nested Key Leaf
  | nil => nil
  | leaf key value rest => leaf key (change value) (rest.prune change)
  | node key inside rest =>
      if inside = nil then rest.prune change
      else node key (inside.prune change) (rest.prune change)

/-- What becomes of an entry. -/
def Slot.prune (change : Leaf → Leaf) : Slot Key Leaf → Option (Slot Key Leaf)
  | leaf value => some (leaf (change value))
  | node inside => if inside = .nil then none else some (node (inside.prune change))

namespace Nested

variable {change : Leaf → Leaf} {map : Nested Key Leaf} {key : Key} {slot : Slot Key Leaf}

theorem prune_cons : (cons key slot map).prune change =
    match slot.prune change with
    | some slot => cons key slot (map.prune change)
    | none => map.prune change := by
  cases slot with
  | leaf value => rfl
  | node inside =>
      rw [cons, prune, Slot.prune]
      split <;> rfl

/-- Pruning adds no keys. -/
theorem mem_keys_of_prune {other : Key} (member : other ∈ (map.prune change).keys) :
    other ∈ map.keys := by
  induction map using cons_induction with
  | nil => exact member
  | cons first slot rest _ ih =>
      rw [prune_cons] at member
      rw [keys_cons]
      split at member
      · rw [keys_cons] at member
        rcases List.mem_cons.mp member with rfl | later
        · exact List.mem_cons_self
        · exact List.mem_cons_of_mem first (ih later)
      · exact List.mem_cons_of_mem first (ih member)

/-- Pruning keeps the order. -/
theorem Sorted.prune (sorted : map.Sorted) : (map.prune change).Sorted := by
  induction map using cons_induction with
  | nil => exact trivial
  | cons first slot rest ihInside ih =>
      obtain ⟨below, sortedSlot, tail⟩ := sorted_cons_iff.mp sorted
      rw [prune_cons]
      split
      · rename_i after isAfter
        refine sorted_cons_iff.mpr ⟨fun other member => below other (mem_keys_of_prune member),
          ?_, ih tail⟩
        cases slot with
        | leaf value =>
            obtain rfl := Option.some.inj isAfter
            trivial
        | node inside =>
            rw [Slot.prune] at isAfter
            split at isAfter
            · cases isAfter
            · obtain rfl := Option.some.inj isAfter
              exact ihInside inside rfl sortedSlot
      · exact ih tail

/-- A pruned tree has the leaves that they were changed to. -/
theorem leaves_prune {Good : Leaf → Prop} (good : ∀ value, Good (change value)) :
    (map.prune change).Leaves Good := by
  induction map using cons_induction with
  | nil => trivial
  | cons first slot rest ihInside ih =>
      rw [prune_cons]
      split
      · rename_i after isAfter
        refine leaves_cons_iff.mpr ⟨?_, ih⟩
        cases slot with
        | leaf value =>
            obtain rfl := Option.some.inj isAfter
            exact good value
        | node inside =>
            rw [Slot.prune] at isAfter
            split at isAfter
            · cases isAfter
            · obtain rfl := Option.some.inj isAfter
              exact ihInside inside rfl
      · exact ih

/-- What is found in a pruned tree is what was found before, pruned. -/
theorem Sorted.find_prune (sorted : map.Sorted) (key : Key) :
    (map.prune change).find key = (map.find key).bind (Slot.prune change) := by
  induction map using cons_induction with
  | nil => rfl
  | cons first slot rest _ ih =>
      obtain ⟨below, _, tail⟩ := sorted_cons_iff.mp sorted
      rw [prune_cons, find_cons]
      by_cases same : key = first
      · subst same
        have missing : (rest.prune change).find key = none := find_eq_none_iff.mpr fun member =>
          lt_irrefl key (below key (mem_keys_of_prune member))
        rw [if_pos rfl, Option.bind_some]
        split
        · rename_i isAfter
          rw [find_cons, if_pos rfl, isAfter]
        · rename_i isAfter
          rw [missing, isAfter]
      · rw [if_neg same, ← ih tail]
        split
        · rw [find_cons, if_neg same]
        · rfl

/-- Every leaf stays at its place, and there are no others. -/
theorem Sorted.leafAt_prune (sorted : map.Sorted) (place : List Key) :
    (map.prune change).leafAt place = (map.leafAt place).map change := by
  induction place generalizing map with
  | nil => rfl
  | cons key place ih =>
      rw [leafAt_cons, leafAt_cons, sorted.find_prune]
      cases found : map.find key with
      | none => rfl
      | some slot =>
          cases slot with
          | leaf value => cases place <;> rfl
          | node inside =>
              have inner := ih (sorted.of_find found)
              rw [Option.bind_some, Option.bind_some, Slot.prune]
              by_cases empty : inside = .nil
              · rw [if_pos empty, empty]
                cases place <;> rfl
              · rw [if_neg empty]
                exact inner

end Nested

end Prune

end Ciruela.Foundation
