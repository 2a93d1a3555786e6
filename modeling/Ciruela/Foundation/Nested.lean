import Mathlib.Data.List.Basic
import Mathlib.Order.Lattice

/-!
# Ordered maps in ordered maps

A map by keys, in their order, whose values are leaves or maps of the same kind. One level is a
list of entries; a `Slot` is what there is under a key, and `Nested.cons` an entry of either kind,
so that a proof goes by `Nested.cons_induction` and treats both alike. `Nested.put` is the
insertion of an ordered map. It keeps the order (`Sorted.put`), and a sorted map is determined by
what is found in it (`Sorted.ext`). A place in the tree is a list of keys, and `Slot.lookup` goes
there.
-/

namespace Ciruela.Foundation

universe u v

/-- A tree of keys, whose leaves have values. The keys of one level make up a list. -/
inductive Nested (Key : Type u) (Leaf : Type v) where
  | nil
  | leaf (key : Key) (value : Leaf) (rest : Nested Key Leaf)
  | node (key : Key) (inside rest : Nested Key Leaf)
deriving DecidableEq

/-- What there is under a key. -/
inductive Slot (Key : Type u) (Leaf : Type v) where
  | leaf (value : Leaf)
  | node (inside : Nested Key Leaf)
deriving DecidableEq

variable {Key : Type u} {Leaf : Type v}

namespace Nested

/-- An entry before all others. -/
def cons (key : Key) : Slot Key Leaf → Nested Key Leaf → Nested Key Leaf
  | .leaf value, rest => leaf key value rest
  | .node inside, rest => node key inside rest

/-- Induction over the first level of a tree and into the trees below it. -/
@[elab_as_elim] theorem cons_induction {motive : Nested Key Leaf → Prop} (nil : motive nil)
    (cons : ∀ key slot rest, (∀ inside, slot = .node inside → motive inside) → motive rest →
      motive (cons key slot rest)) (map : Nested Key Leaf) : motive map := by
  induction map with
  | nil => exact nil
  | leaf key value rest ih => exact cons key (.leaf value) rest (by simp) ih
  | node key inside rest ihInside ih =>
      refine cons key (.node inside) rest (fun other same => ?_) ih
      rwa [← Slot.node.inj same]

/-- The keys of one level. -/
def keys : Nested Key Leaf → List Key
  | nil => []
  | leaf key _ rest => key :: rest.keys
  | node key _ rest => key :: rest.keys

@[simp] theorem keys_nil : (nil : Nested Key Leaf).keys = [] := rfl

@[simp] theorem keys_cons (key : Key) (slot : Slot Key Leaf) (rest : Nested Key Leaf) :
    (cons key slot rest).keys = key :: rest.keys := by
  cases slot <;> rfl

/-- One level as a list. -/
def entries : Nested Key Leaf → List (Key × Slot Key Leaf)
  | nil => []
  | leaf key value rest => (key, .leaf value) :: rest.entries
  | node key inside rest => (key, .node inside) :: rest.entries

@[simp] theorem entries_nil : (nil : Nested Key Leaf).entries = [] := rfl

@[simp] theorem entries_cons (key : Key) (slot : Slot Key Leaf) (rest : Nested Key Leaf) :
    (cons key slot rest).entries = (key, slot) :: rest.entries := by
  cases slot <;> rfl

section Find

variable [LinearOrder Key]

/-- What is under a key of the first level. -/
def find (key : Key) : Nested Key Leaf → Option (Slot Key Leaf)
  | nil => none
  | leaf other value rest => if key = other then some (.leaf value) else rest.find key
  | node other inside rest => if key = other then some (.node inside) else rest.find key

@[simp] theorem find_nil (key : Key) : (nil : Nested Key Leaf).find key = none := rfl

theorem find_cons (key other : Key) (slot : Slot Key Leaf) (rest : Nested Key Leaf) :
    (cons other slot rest).find key = if key = other then some slot else rest.find key := by
  cases slot <;> rfl

/-- A key that is not found is not among the keys. -/
theorem find_eq_none_iff {key : Key} {map : Nested Key Leaf} :
    map.find key = none ↔ key ∉ map.keys := by
  induction map using cons_induction with
  | nil => simp
  | cons other slot rest _ ih =>
      by_cases same : key = other
      · simp [find_cons, same]
      · simp [find_cons, same, ih]

theorem mem_keys_of_find {key : Key} {map : Nested Key Leaf} {slot : Slot Key Leaf}
    (found : map.find key = some slot) : key ∈ map.keys := by
  by_contra missing
  rw [find_eq_none_iff.mpr missing] at found
  cases found

end Find

section Order

variable [LinearOrder Key]

/-- `BTreeMap::insert`. -/
def put (key : Key) (slot : Slot Key Leaf) : Nested Key Leaf → Nested Key Leaf
  | nil => cons key slot nil
  | leaf other value rest =>
      if key < other then cons key slot (leaf other value rest)
      else if key = other then cons key slot rest
      else leaf other value (rest.put key slot)
  | node other inside rest =>
      if key < other then cons key slot (node other inside rest)
      else if key = other then cons key slot rest
      else node other inside (rest.put key slot)

theorem put_cons (key other : Key) (slot first : Slot Key Leaf) (rest : Nested Key Leaf) :
    (cons other first rest).put key slot =
      if key < other then cons key slot (cons other first rest)
      else if key = other then cons key slot rest
      else cons other first (rest.put key slot) := by
  cases first <;> rfl

/-- The keys are in order on every level. -/
def Sorted : Nested Key Leaf → Prop
  | nil => True
  | leaf key _ rest => (∀ other ∈ rest.keys, key < other) ∧ rest.Sorted
  | node key inside rest => (∀ other ∈ rest.keys, key < other) ∧ inside.Sorted ∧ rest.Sorted

instance instDecidableSorted : (map : Nested Key Leaf) → Decidable map.Sorted
  | nil => .isTrue trivial
  | leaf _ _ rest =>
      have := instDecidableSorted rest
      inferInstanceAs (Decidable (_ ∧ _))
  | node _ inside rest =>
      have := instDecidableSorted inside
      have := instDecidableSorted rest
      inferInstanceAs (Decidable (_ ∧ _ ∧ _))

end Order

end Nested

/-- All leaves are of one kind. -/
def Nested.Leaves (Good : Leaf → Prop) : Nested Key Leaf → Prop
  | nil => True
  | leaf _ value rest => Good value ∧ rest.Leaves Good
  | node _ inside rest => inside.Leaves Good ∧ rest.Leaves Good

instance Nested.instDecidableLeaves (Good : Leaf → Prop) [DecidablePred Good] :
    (map : Nested Key Leaf) → Decidable (map.Leaves Good)
  | nil => .isTrue trivial
  | leaf _ _ rest =>
      have := instDecidableLeaves Good rest
      inferInstanceAs (Decidable (_ ∧ _))
  | node _ inside rest =>
      have := instDecidableLeaves Good inside
      have := instDecidableLeaves Good rest
      inferInstanceAs (Decidable (_ ∧ _))

/-- The entry is a leaf. -/
def Slot.isLeaf : Slot Key Leaf → Bool
  | leaf _ => true
  | node _ => false

/-- A map under a key is sorted as well. -/
def Slot.Sorted [LinearOrder Key] : Slot Key Leaf → Prop
  | leaf _ => True
  | node inside => inside.Sorted

namespace Nested

variable [LinearOrder Key] {map left right : Nested Key Leaf} {key other : Key}
  {slot : Slot Key Leaf}

/-- A tree is in order when its first key comes before the others, and the rest and what is below
the first key are in order. -/
theorem sorted_cons_iff : (cons key slot map).Sorted ↔
    (∀ other ∈ map.keys, key < other) ∧ slot.Sorted ∧ map.Sorted := by
  cases slot <;> simp [cons, Sorted, Slot.Sorted]

/-- What is found after something is put under a key. -/
theorem find_put (key other : Key) (slot : Slot Key Leaf) (map : Nested Key Leaf) :
    (map.put key slot).find other = if other = key then some slot else map.find other := by
  induction map using cons_induction with
  | nil => rw [put, find_cons]
  | cons first inside rest _ ih =>
      rw [put_cons]
      split
      · rw [find_cons]
      · split
        · rename_i same
          rw [find_cons, find_cons, same]
          split <;> rfl
        · rename_i differs
          rw [find_cons, find_cons, ih]
          split
          · rename_i isFirst
            rw [if_neg fun same : other = key => differs (same.symm.trans isFirst)]
          · rfl

/-- The keys after something is put under a key. -/
theorem mem_keys_put : other ∈ (map.put key slot).keys ↔ other = key ∨ other ∈ map.keys := by
  have found := find_put key other slot map
  rw [← not_iff_not, ← find_eq_none_iff, found]
  by_cases same : other = key
  · simp [same]
  · simp [same, find_eq_none_iff]

/-- Putting something under a key keeps the order. -/
theorem Sorted.put (sorted : map.Sorted) (inside : slot.Sorted) (key : Key) :
    (map.put key slot).Sorted := by
  induction map using cons_induction with
  | nil => exact sorted_cons_iff.mpr ⟨by simp, inside, trivial⟩
  | cons first inner rest _ ih =>
      obtain ⟨below, sortedInner, tail⟩ := sorted_cons_iff.mp sorted
      rw [put_cons]
      split
      · rename_i before
        refine sorted_cons_iff.mpr ⟨fun other member => ?_, inside, sorted⟩
        rw [keys_cons] at member
        rcases List.mem_cons.mp member with rfl | later
        · exact before
        · exact before.trans (below other later)
      · rename_i notBefore
        split
        · rename_i same
          exact sorted_cons_iff.mpr ⟨fun other member => same ▸ below other member, inside, tail⟩
        · rename_i differs
          refine sorted_cons_iff.mpr ⟨fun other member => ?_, sortedInner, ih tail⟩
          rcases mem_keys_put.mp member with rfl | later
          · exact lt_of_le_of_ne (not_lt.mp notBefore) (Ne.symm differs)
          · exact below other later

/-- What is found in a tree in order is itself in order. -/
theorem Sorted.of_find (sorted : map.Sorted) (found : map.find key = some slot) : slot.Sorted := by
  induction map using cons_induction with
  | nil => cases found
  | cons first inside rest _ ih =>
      obtain ⟨_, sortedInside, tail⟩ := sorted_cons_iff.mp sorted
      rw [find_cons] at found
      split at found
      · rwa [← Option.some.inj found]
      · exact ih tail found

/-- The first key of a map is where another map with the same keys begins. -/
theorem Sorted.not_lt_head {first : Key} {inside : Slot Key Leaf}
    (sorted : (cons first inside map).Sorted) (member : other ∈ (cons first inside map).keys) :
    ¬ other < first := by
  rw [keys_cons] at member
  rcases List.mem_cons.mp member with rfl | later
  · exact lt_irrefl other
  · exact ((sorted_cons_iff.mp sorted).1 other later).not_gt

/-- Trees in order with the same finds are the same. -/
theorem Sorted.ext (sortedLeft : left.Sorted) (sortedRight : right.Sorted)
    (same : ∀ key, left.find key = right.find key) : left = right := by
  induction left using cons_induction generalizing right with
  | nil =>
      cases right using cons_induction with
      | nil => rfl
      | cons key slot rest _ _ =>
          have missing := same key
          rw [find_nil, find_cons, if_pos rfl] at missing
          cases missing
  | cons key slot rest _ ih =>
      cases right using cons_induction with
      | nil =>
          have missing := same key
          rw [find_nil, find_cons, if_pos rfl] at missing
          cases missing
      | cons other inside tail _ _ =>
          have keys : ∀ {left right : Nested Key Leaf} {key : Key}, left.find key = right.find key →
              key ∈ left.keys → key ∈ right.keys := by
            intro left right key same member
            by_contra missing
            exact find_eq_none_iff.mp (same.trans (find_eq_none_iff.mpr missing)) member
          -- neither begins before the other
          have first : key = other := by
            refine le_antisymm (not_lt.mp ?_) (not_lt.mp ?_)
            · exact Sorted.not_lt_head sortedLeft (keys (same other).symm (by simp))
            · exact Sorted.not_lt_head sortedRight (keys (same key) (by simp))
          subst first
          have here := same key
          rw [find_cons, find_cons, if_pos rfl, if_pos rfl] at here
          obtain rfl := Option.some.inj here
          obtain ⟨belowLeft, _, tailLeft⟩ := sorted_cons_iff.mp sortedLeft
          obtain ⟨belowRight, _, tailRight⟩ := sorted_cons_iff.mp sortedRight
          rw [ih tailLeft tailRight]
          intro later
          have there := same later
          rw [find_cons, find_cons] at there
          split at there
          · rename_i isKey
            rw [isKey, find_eq_none_iff.mpr fun member => lt_irrefl key (belowLeft key member),
              find_eq_none_iff.mpr fun member => lt_irrefl key (belowRight key member)]
          · exact there

/-- An insertion takes one place in the list, the same whatever is put there. -/
theorem Sorted.entries_put (sorted : map.Sorted) (key : Key) :
    ∃ before after, map.entries = before ++ (map.find key).toList.map (Prod.mk key) ++ after ∧
      ∀ slot, (map.put key slot).entries = before ++ (key, slot) :: after := by
  induction map using cons_induction with
  | nil => exact ⟨[], [], rfl, fun slot => by rw [Nested.put, entries_cons]; rfl⟩
  | cons first inside rest _ ih =>
      obtain ⟨below, _, tail⟩ := sorted_cons_iff.mp sorted
      by_cases isBefore : key < first
      · have missing : rest.find key = none :=
          find_eq_none_iff.mpr fun member => lt_asymm isBefore (below key member)
        refine ⟨[], (cons first inside rest).entries, ?_, fun slot => ?_⟩
        · rw [find_cons, if_neg (ne_of_lt isBefore), missing]
          rfl
        · rw [put_cons, if_pos isBefore, entries_cons]
          rfl
      · by_cases same : key = first
        · refine ⟨[], rest.entries, ?_, fun slot => ?_⟩
          · rw [find_cons, if_pos same, entries_cons, same]
            rfl
          · rw [put_cons, if_neg isBefore, if_pos same, entries_cons]
            rfl
        · obtain ⟨before, after, entries, inserted⟩ := ih tail
          refine ⟨(first, inside) :: before, after, ?_, fun slot => ?_⟩
          · rw [find_cons, if_neg same, entries_cons, entries]
            rfl
          · rw [put_cons, if_neg isBefore, if_neg same, entries_cons, inserted]
            rfl

/-- What is there already is put there again. -/
theorem Sorted.put_of_find (sorted : map.Sorted) (found : map.find key = some slot) :
    map.put key slot = map := by
  refine Sorted.ext (sorted.put (sorted.of_find found) key) sorted fun other => ?_
  rw [find_put]
  split
  · rename_i same
    rw [same, found]
  · rfl

theorem put_ne_nil (key : Key) (slot : Slot Key Leaf) (map : Nested Key Leaf) :
    map.put key slot ≠ nil := by
  intro empty
  have found := find_put key key slot map
  rw [empty, find_nil, if_pos rfl] at found
  cases found

end Nested

section Places

variable [LinearOrder Key] {map inside content : Nested Key Leaf} {key other : Key}
  {path : List Key} {slot : Slot Key Leaf}

/-- What there is at a place. -/
def Slot.lookup : List Key → Slot Key Leaf → Option (Slot Key Leaf)
  | [], slot => some slot
  | _ :: _, .leaf _ => none
  | key :: path, .node inside => (inside.find key).bind fun slot => slot.lookup path

namespace Nested

/-- What there is at a place below a map. -/
def lookup (path : List Key) (map : Nested Key Leaf) : Option (Slot Key Leaf) :=
  (Slot.node map).lookup path

@[simp] theorem lookup_nil (map : Nested Key Leaf) : map.lookup [] = some (.node map) := rfl

theorem lookup_cons (key : Key) (path : List Key) (map : Nested Key Leaf) :
    map.lookup (key :: path) = (map.find key).bind fun slot => slot.lookup path := rfl

/-- What is found along a path is found along its parts, one after the other. -/
theorem lookup_append (front back : List Key) (map : Nested Key Leaf) :
    map.lookup (front ++ back) = (map.lookup front).bind fun slot => slot.lookup back := by
  suffices step : ∀ slot : Slot Key Leaf,
      slot.lookup (front ++ back) = (slot.lookup front).bind fun slot => slot.lookup back from
    step (.node map)
  induction front with
  | nil => exact fun _ => rfl
  | cons key front ih =>
      intro slot
      cases slot with
      | leaf value => rfl
      | node inside =>
          rw [List.cons_append, Slot.lookup, Slot.lookup, Option.bind_assoc]
          exact congrArg _ (funext ih)

/-- There is nothing below a leaf. -/
theorem lookup_append_of_leaf {value : Leaf} {front back : List Key}
    (isLeaf : map.lookup front = some (.leaf value)) (deeper : back ≠ []) :
    map.lookup (front ++ back) = none := by
  rw [lookup_append, isLeaf]
  cases back with
  | nil => exact absurd rfl deeper
  | cons key back => rfl

/-- A place with something below it is a map. -/
theorem exists_node_of_lookup_append {front back : List Key}
    (found : map.lookup (front ++ back) = some slot) (deeper : back ≠ []) :
    ∃ inside, map.lookup front = some (.node inside) := by
  rw [lookup_append] at found
  obtain ⟨upper, isUpper, found⟩ := Option.bind_eq_some_iff.mp found
  cases upper with
  | node inside => exact ⟨inside, isUpper⟩
  | leaf value =>
      cases back with
      | nil => exact absurd rfl deeper
      | cons key back => cases found

/-- The map under a key, or an empty one. -/
def child (key : Key) (map : Nested Key Leaf) : Nested Key Leaf :=
  match map.find key with
  | some (.node inside) => inside
  | _ => nil

/-- Put a map at a place. What is missing on the way is made. -/
def graft : List Key → Nested Key Leaf → Nested Key Leaf → Nested Key Leaf
  | [], inside, _ => inside
  | key :: path, inside, map => map.put key (.node (graft path inside (map.child key)))

/-- The second of two things put under one key stays. -/
theorem put_put (key : Key) (first second : Slot Key Leaf) (map : Nested Key Leaf) :
    (map.put key first).put key second = map.put key second := by
  have again : ∀ (slot : Slot Key Leaf) (rest : Nested Key Leaf),
      (cons key slot rest).put key second = cons key second rest := by
    intro slot rest
    rw [put_cons, if_neg (lt_irrefl key), if_pos rfl]
  induction map using cons_induction with
  | nil => exact again first nil
  | cons other slot rest _ ih =>
      rw [put_cons, put_cons]
      split
      · exact again first _
      · split
        · exact again first _
        · rename_i notBefore differs
          rw [put_cons, if_neg notBefore, if_neg differs, ih]

theorem child_put (key : Key) (inside map : Nested Key Leaf) :
    (map.put key (.node inside)).child key = inside := by
  rw [child, find_put, if_pos rfl]

theorem child_of_find (found : map.find key = some (.node inside)) : map.child key = inside := by
  rw [child, found]

/-- What is grafted at a path is found there. -/
theorem lookup_graft (path : List Key) (inside map : Nested Key Leaf) :
    (graft path inside map).lookup path = some (.node inside) := by
  induction path generalizing map with
  | nil => rfl
  | cons key path ih =>
      rw [graft, lookup_cons, find_put, if_pos rfl]
      exact ih (map.child key)

/-- What was put at a place first does not matter. -/
theorem graft_graft (path : List Key) (first second map : Nested Key Leaf) :
    graft path second (graft path first map) = graft path second map := by
  induction path generalizing map with
  | nil => rfl
  | cons key path ih => rw [graft, graft, graft, child_put, put_put, ih]

/-- The map under a key of the map at a place. -/
theorem graft_append (isAt : map.lookup path = some (.node content)) (key : Key)
    (inside : Nested Key Leaf) :
    graft (path ++ [key]) inside map = graft path (content.put key (.node inside)) map := by
  induction path generalizing map with
  | nil =>
      obtain rfl := Slot.node.inj (Option.some.inj isAt)
      rfl
  | cons first path ih =>
      rw [lookup_cons] at isAt
      obtain ⟨slot, found, isAt⟩ := Option.bind_eq_some_iff.mp isAt
      cases slot with
      | leaf value =>
          cases path <;> cases isAt
      | node inner =>
          rw [List.cons_append, graft, graft, child_of_find found, ih isAt]

/-- A map is put where it is already. -/
theorem Sorted.graft_self (sorted : map.Sorted) (isAt : map.lookup path = some (.node content)) :
    graft path content map = map := by
  induction path generalizing map with
  | nil => exact (Slot.node.inj (Option.some.inj isAt)).symm
  | cons first path ih =>
      rw [lookup_cons] at isAt
      obtain ⟨slot, found, isAt⟩ := Option.bind_eq_some_iff.mp isAt
      cases slot with
      | leaf value =>
          cases path <;> cases isAt
      | node inner =>
          rw [graft, child_of_find found, ih (sorted.of_find found) isAt]
          exact sorted.put_of_find found

/-- A branch of a tree in order is in order. -/
theorem Sorted.child (sorted : map.Sorted) (key : Key) : (map.child key).Sorted := by
  unfold Nested.child
  split
  · rename_i found
    exact sorted.of_find found
  · trivial

/-- Grafting keeps the order. -/
theorem Sorted.graft (sorted : map.Sorted) (sortedInside : inside.Sorted) (path : List Key) :
    (Nested.graft path inside map).Sorted := by
  induction path generalizing map with
  | nil => exact sortedInside
  | cons key path ih =>
      have inner : (Slot.node (Nested.graft path inside (map.child key))).Sorted :=
        ih (sorted.child key)
      exact sorted.put inner key

/-- The entries of one map that are of some kind are put into another. -/
def putSome (keep : Slot Key Leaf → Bool) : Nested Key Leaf → Nested Key Leaf → Nested Key Leaf
  | content, nil => content
  | content, leaf key value rest =>
      putSome keep (if keep (.leaf value) then content.put key (.leaf value) else content) rest
  | content, node key inside rest =>
      putSome keep (if keep (.node inside) then content.put key (.node inside) else content) rest

theorem putSome_cons (keep : Slot Key Leaf → Bool) (content : Nested Key Leaf) (key : Key)
    (slot : Slot Key Leaf) (rest : Nested Key Leaf) :
    putSome keep content (cons key slot rest) =
      putSome keep (if keep slot then content.put key slot else content) rest := by
  cases slot <;> rfl

/-- What is found after the slots that are kept were put over a tree. -/
theorem Sorted.find_putSome (sorted : map.Sorted) (keep : Slot Key Leaf → Bool)
    (content : Nested Key Leaf) (key : Key) :
    (putSome keep content map).find key =
      match (map.find key).filter keep with
      | some slot => some slot
      | none => content.find key := by
  induction map using cons_induction generalizing content with
  | nil => rfl
  | cons first slot rest _ ih =>
      obtain ⟨below, _, tail⟩ := sorted_cons_iff.mp sorted
      rw [putSome_cons, ih tail, find_cons]
      by_cases same : key = first
      · have missing : rest.find key = none :=
          find_eq_none_iff.mpr fun member => lt_irrefl first (below first (same ▸ member))
        rw [if_pos same, missing]
        cases isKept : keep slot with
        | true => simp [Option.filter, isKept, find_put, same]
        | false => simp [Option.filter, isKept]
      · have other : (if keep slot = true then content.put first slot else content).find key =
            content.find key := by
          split
          · rw [find_put, if_neg same]
          · rfl
        rw [if_neg same, other]

/-- Putting the slots that are kept over a tree keeps the order. -/
theorem Sorted.putSome (sorted : map.Sorted) (keep : Slot Key Leaf → Bool)
    (sortedContent : content.Sorted) : (Nested.putSome keep content map).Sorted := by
  induction map using cons_induction generalizing content with
  | nil => exact sortedContent
  | cons first slot rest _ ih =>
      obtain ⟨_, inside, tail⟩ := sorted_cons_iff.mp sorted
      rw [putSome_cons]
      apply ih tail
      split
      · exact sortedContent.put inside first
      · exact sortedContent

/-- A map is made of its entries of one kind and then those of the other. -/
theorem Sorted.putSome_putSome (sorted : map.Sorted) (keep : Slot Key Leaf → Bool) :
    Nested.putSome (fun slot => !keep slot) (Nested.putSome keep nil map) map = map := by
  refine Sorted.ext (sorted.putSome _ (sorted.putSome _ trivial)) sorted fun key => ?_
  rw [sorted.find_putSome, sorted.find_putSome]
  cases found : map.find key with
  | none => rfl
  | some slot => cases isKept : keep slot <;> simp [Option.filter, isKept]

end Nested

end Places

end Ciruela.Foundation
