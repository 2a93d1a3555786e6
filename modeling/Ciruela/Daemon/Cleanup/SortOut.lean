import Ciruela.Daemon.Config
import Ciruela.Database.Signatures

/-!
# Sorting out old images

Which images of a directory are still used and which ones a cleanup may remove.
Timestamps are milliseconds and the clock counts nanoseconds, both since the epoch.
The difference of the clock and a length of time is a time too, and it may lie
before the epoch.
-/

namespace Ciruela

open Foundation

namespace Cleanup

/-- The images in use and the others. -/
structure Sorted (Item : Type) where
  used : List (Item × State)
  unused : List (Item × State)
deriving DecidableEq

/-- The least timestamp of the signatures, whatever the name says. -/
def biggestTimestamp (state : State) : Nat :=
  (state.signatures.map SignatureEntry.timestamp).min?.getD 0

/-- The clock less a length of time, in nanoseconds. This is `SystemTime::sub` of Rust 1.29.2,
which `vagga.yaml` pins: the length has to fit into 64 bits with a sign. Later versions of the
standard library subtract longer lengths too, as long as the result fits. -/
def before (now : Nat) (length : Duration) : Run Int :=
  if length.seconds < 2 ^ 63 then
    .ok ((now : Int) - (length.seconds * 1000000000 + length.nanoseconds : Nat))
  else .error (.expect "overflow when subtracting duration from time")

variable {Item : Type}

/-- The unused images are taken from the newest on. -/
def newestFirst (items : List (Item × State)) : List (Item × State) :=
  items.insertionSort fun first second => biggestTimestamp second.2 ≤ biggestTimestamp first.2

/-- The used images are given up from the oldest on. -/
def oldestFirst (items : List (Item × State)) : List (Item × State) :=
  items.insertionSort fun first second => biggestTimestamp first.2 ≤ biggestTimestamp second.2

/-- Keep the `count` newest images and move the others to the candidates. -/
def capUsed (count : Nat) (sorted : Sorted Item) : Sorted Item :=
  if count < sorted.used.length then
    let newest := newestFirst sorted.used
    ⟨newest.take count, sorted.unused ++ newest.drop count⟩
  else sorted

/-- Fill up the used images to `count`. -/
def fillUsed (count : Nat) (sorted : Sorted Item) : Sorted Item :=
  if sorted.used.length < count then
    let oldest := oldestFirst sorted.unused
    let rest := oldest.length - min oldest.length (count - sorted.used.length)
    ⟨sorted.used ++ oldest.drop rest, oldest.take rest⟩
  else sorted

/-- `sort_out`, where `same` is the equality of items. -/
def sortOut (same : Item → Item → Bool) (now : Nat) (directory : Directory)
    (items : List (Item × State)) (keepList : List Item) : Run (Sorted Item) := do
  if items.length ≤ directory.keepMinDirectories then return ⟨items, []⟩
  let minTime ← before now directory.keepRecent
  let recent (item : Item × State) : Bool := minTime ≤ (biggestTimestamp item.2 * 1000000 : Nat)
  let capped := capUsed directory.keepMaxDirectories
    ⟨items.filter recent, items.filter fun item => !recent item⟩
  let listed (item : Item × State) : Bool := keepList.any fun kept => same kept item.1
  return fillUsed directory.keepMinDirectories
    ⟨capped.used ++ capped.unused.filter listed, capped.unused.filter fun item => !listed item⟩

section Sorting

/-- The subtraction panics from 2^63 seconds on. -/
theorem returns_before {now : Nat} {length : Duration} :
    (before now length).Returns ↔ length.seconds < 2 ^ 63 := by
  unfold before
  split <;> simp_all

/-- The images of both lists. -/
def Sorted.all (sorted : Sorted Item) : List (Item × State) := sorted.used ++ sorted.unused

/-- A cap only moves images. -/
theorem capUsed_perm (count : Nat) (sorted : Sorted Item) :
    (capUsed count sorted).all.Perm sorted.all := by
  unfold capUsed
  split
  · have moved : (newestFirst sorted.used).Perm sorted.used := List.perm_insertionSort _ _
    generalize newestFirst sorted.used = newest at moved ⊢
    have swapped : (newest.take count ++ (sorted.unused ++ newest.drop count)).Perm
        (newest.take count ++ (newest.drop count ++ sorted.unused)) :=
      List.Perm.append_left _ List.perm_append_comm
    rw [← List.append_assoc _ _ sorted.unused, List.take_append_drop] at swapped
    exact swapped.trans (moved.append_right _)
  · exact List.Perm.refl _

/-- Filling up only moves images. -/
theorem fillUsed_perm (count : Nat) (sorted : Sorted Item) :
    (fillUsed count sorted).all.Perm sorted.all := by
  unfold fillUsed
  split
  · have moved : (oldestFirst sorted.unused).Perm sorted.unused := List.perm_insertionSort _ _
    generalize oldestFirst sorted.unused = oldest at moved ⊢
    dsimp only
    generalize oldest.length - min oldest.length (count - sorted.used.length) = rest
    have swapped : (oldest.drop rest ++ oldest.take rest).Perm
        (oldest.take rest ++ oldest.drop rest) := List.perm_append_comm
    rw [List.take_append_drop] at swapped
    rw [Sorted.all, List.append_assoc]
    exact List.Perm.append_left _ (swapped.trans moved)
  · exact List.Perm.refl _

/-- Sorting out ends unless it has to subtract a length of time that does not fit. -/
theorem returns_sortOut (same : Item → Item → Bool) (now : Nat) (directory : Directory)
    (items : List (Item × State)) (keepList : List Item) :
    (sortOut same now directory items keepList).Returns ↔
      items.length ≤ directory.keepMinDirectories ∨ directory.keepRecent.seconds < 2 ^ 63 := by
  unfold sortOut
  split
  · rename_i few
    exact ⟨fun _ => Or.inl few, fun _ => Run.returns_pure _⟩
  · rename_i many
    simp only [Run.returns_bind, Run.returns_pure, and_true]
    rw [← Run.Returns, returns_before]
    simp [many]

/-- Nothing is lost and nothing is added. -/
theorem sortOut_perm {same : Item → Item → Bool} {now : Nat} {directory : Directory}
    {items : List (Item × State)} {keepList : List Item} {sorted : Sorted Item}
    (ran : sortOut same now directory items keepList = .ok sorted) : sorted.all.Perm items := by
  unfold sortOut at ran
  split at ran
  · obtain rfl := Except.ok.inj ran
    simp [Sorted.all]
  · obtain ⟨minTime, _, done⟩ := Run.bind_eq_ok_iff.mp ran
    obtain rfl := Except.ok.inj done
    refine (fillUsed_perm _ _).trans ?_
    rw [Sorted.all, List.append_assoc]
    refine (List.Perm.append_left _ (List.filter_append_perm _ _)).trans ?_
    exact (capUsed_perm _ _).trans (List.filter_append_perm _ _)

end Sorting

end Cleanup

end Ciruela
