import Mathlib.Order.Hom.Basic
import Ciruela.Daemon.Cleanup.Keeps

/-!
# Sorting out fewer images

What is kept among some images is kept among a part of them: no pass makes more room for
the others when images go away. The two lists of images are sorted out side by side, and
each pass keeps how they compare.

Equal images in one list are told apart by their positions.
-/

namespace Ciruela

open Foundation

namespace Cleanup

variable {Item : Type}

/-- Sorting out fewer images against sorting out all of them, after some passes. -/
structure Shrinks (fewer sorted : Sorted Item) : Prop where
  used : ∀ item ∈ sorted.used, item ∈ fewer.all → item ∈ fewer.used
  length_le : fewer.used.length ≤ sorted.used.length
  unused : fewer.unused.Sublist sorted.unused

section Passes

variable {part whole : List (Item × State)} {fewer sorted : Sorted Item} {count : Nat}

/-- Splitting by age uses of fewer images no more than of all. -/
theorem Shrinks.splitRecent (sub : part.Sublist whole) (minTime : Int) :
    Shrinks (splitRecent minTime part) (splitRecent minTime whole) where
  used item member among := by
    rcases List.mem_append.mp among with recent | old
    · exact recent
    · have notRecent := (List.mem_filter.mp old).2
      rw [(List.mem_filter.mp member).2] at notRecent
      cases notRecent
  length_le := (sub.filter _).length_le
  unused := sub.filter _

/-- A cap lets no more of fewer images through. -/
theorem Shrinks.capUsed (shrinks : Shrinks fewer sorted) (sub : fewer.used.Sublist sorted.used)
    (nodup : sorted.used.Nodup) (count : Nat) :
    Shrinks (capUsed count fewer) (capUsed count sorted) where
  used item member among := by
    have isFirst := (capUsed_used_perm count sorted).subset member
    have isUsed := (newestFirst_perm _).subset (List.mem_of_mem_take isFirst)
    have isFewer := shrinks.used item isUsed ((capUsed_perm count fewer).subset among)
    refine (capUsed_used_perm count fewer).mem_iff.mpr ?_
    refine mem_take_of_sublist (insertionSort_sublist sub) ?_ ?_ isFirst
    · exact (newestFirst_perm _).nodup_iff.mpr nodup
    · exact (newestFirst_perm _).mem_iff.mpr isFewer
  length_le := by
    rw [length_capUsed_used, length_capUsed_used]
    have le := shrinks.length_le
    omega
  unused := by
    rw [capUsed_unused, capUsed_unused]
    exact shrinks.unused.append ((insertionSort_sublist sub).drop count)

/-- The keep list only moves images. -/
theorem addListed_perm (same : Item → Item → Bool) (keepList : List Item) (sorted : Sorted Item) :
    (addListed same keepList sorted).all.Perm sorted.all := by
  rw [addListed, Sorted.all, List.append_assoc]
  exact List.Perm.append_left _ (List.filter_append_perm _ _)

/-- The keep list adds no more of fewer images. -/
theorem Shrinks.addListed (shrinks : Shrinks fewer sorted) (same : Item → Item → Bool)
    (keepList : List Item) :
    Shrinks (addListed same keepList fewer) (addListed same keepList sorted) where
  used item member among := by
    have isFewer := (addListed_perm same keepList fewer).subset among
    rcases List.mem_append.mp member with early | listed
    · exact List.mem_append_left _ (shrinks.used item early isFewer)
    · rcases List.mem_append.mp isFewer with isUsed | isUnused
      · exact List.mem_append_left _ isUsed
      · refine List.mem_append_right _ (List.mem_filter.mpr ⟨isUnused, ?_⟩)
        exact (List.mem_filter.mp listed).2
  length_le := by
    have early := shrinks.length_le
    have listed := (shrinks.unused.filter (isListed same keepList)).length_le
    simp only [Cleanup.addListed, List.length_append]
    omega
  unused := shrinks.unused.filter _

/-- What is used after filling up among many is used after filling up among fewer. -/
theorem Shrinks.fillUsed (shrinks : Shrinks fewer sorted) (nodup : sorted.unused.Nodup)
    {item : Item × State} (member : item ∈ (fillUsed count sorted).used)
    (among : item ∈ fewer.all) : item ∈ (fillUsed count fewer).used := by
  rw [fillUsed_used] at member ⊢
  rcases List.mem_append.mp member with early | filled
  · exact List.mem_append_left _ (shrinks.used item early among)
  · rcases List.mem_append.mp among with isUsed | isUnused
    · exact List.mem_append_left _ isUsed
    · refine List.mem_append_right _ ?_
      rw [unfilled, ← (oldestFirst_perm sorted.unused).length_eq] at filled
      have last := mem_drop_of_sublist (insertionSort_sublist shrinks.unused)
        ((oldestFirst_perm _).nodup_iff.mpr nodup) ((oldestFirst_perm _).mem_iff.mpr isUnused) filled
      have le := shrinks.length_le
      refine (List.drop_sublist_drop_left _ ?_).subset last
      have length := (oldestFirst_perm fewer.unused).length_eq
      rw [oldestFirst] at length
      rw [length, unfilled]
      omega

end Passes

section Together

variable {same : Item → Item → Bool} {now : Nat} {directory : Directory}
  {part whole : List (Item × State)} {keepList : List Item} {sorted : Sorted Item}

/-- All passes, for a part of the images and all of them. -/
theorem mem_passes_used (sub : part.Sublist whole) (nodup : whole.Nodup) {minTime : Int}
    {item : Item × State} (among : item ∈ part)
    (kept : item ∈ (passes same minTime directory whole keepList).used) :
    item ∈ (passes same minTime directory part keepList).used := by
  have recent (items : List (Item × State)) : (splitRecent minTime items).all.Perm items :=
    List.filter_append_perm _ _
  have nodupAll := (recent whole).nodup_iff.mpr nodup
  have split := Shrinks.splitRecent sub minTime
  have capped := split.capUsed (sub.filter _) (List.nodup_append.mp nodupAll).1
    directory.keepMaxDirectories
  refine (capped.addListed same keepList).fillUsed ?_ kept ?_
  · have later := (addListed_perm same keepList _).trans
      ((capUsed_perm directory.keepMaxDirectories _).trans (recent whole))
    exact (List.nodup_append.mp (later.nodup_iff.mpr nodup)).2.1
  · have later := (addListed_perm same keepList _).trans
      ((capUsed_perm directory.keepMaxDirectories _).trans (recent part))
    exact later.mem_iff.mpr among

/-- An image that is kept among different images is kept among every part of them. -/
theorem mem_used_of_sublist (sub : part.Sublist whole) (nodup : whole.Nodup)
    (ran : sortOut same now directory whole keepList = .ok sorted) {item : Item × State}
    (among : item ∈ part) (kept : item ∈ sorted.used) :
    ∃ fewer, sortOut same now directory part keepList = .ok fewer ∧ item ∈ fewer.used := by
  have length := sub.length_le
  by_cases few : part.length ≤ directory.keepMinDirectories
  · exact ⟨⟨part, []⟩, by rw [sortOut_eq, if_pos few], among⟩
  · obtain ⟨fewWhole, _⟩ | ⟨_, minTime, isBefore, rfl⟩ := sortOut_cases ran
    · omega
    · refine ⟨passes same minTime directory part keepList, ?_, mem_passes_used sub nodup among kept⟩
      rw [sortOut_eq, if_neg few, isBefore]
      rfl

end Together

section Renaming

variable {Other : Type}

/-- An image under another name, with its state. -/
def renameItem (rename : Item → Other) (item : Item × State) : Other × State :=
  (rename item.1, item.2)

/-- The sorted images under other names. -/
def Sorted.rename (rename : Item → Other) (sorted : Sorted Item) : Sorted Other :=
  ⟨sorted.used.map (renameItem rename), sorted.unused.map (renameItem rename)⟩

variable (rename : Item → Other) (sorted : Sorted Item) (items : List (Item × State))

theorem newestFirst_map :
    newestFirst (items.map (renameItem rename)) = (newestFirst items).map (renameItem rename) := by
  unfold newestFirst
  exact (List.map_insertionSort _ _ (renameItem rename) items fun _ _ _ _ => Iff.rfl).symm

theorem oldestFirst_map :
    oldestFirst (items.map (renameItem rename)) = (oldestFirst items).map (renameItem rename) := by
  unfold oldestFirst
  exact (List.map_insertionSort _ _ (renameItem rename) items fun _ _ _ _ => Iff.rfl).symm

/-- Splitting by age does not look at names. -/
theorem splitRecent_map (minTime : Int) :
    splitRecent minTime (items.map (renameItem rename)) =
      (splitRecent minTime items).rename rename := by
  simp only [splitRecent, Sorted.rename, List.filter_map]
  rfl

/-- A cap does not look at names. -/
theorem capUsed_rename (count : Nat) :
    capUsed count (sorted.rename rename) = (capUsed count sorted).rename rename := by
  unfold capUsed
  simp only [Sorted.rename, List.length_map, newestFirst_map]
  split
  · simp [List.map_take, List.map_drop]
  · rfl

/-- Filling up does not look at names. -/
theorem fillUsed_rename (count : Nat) :
    fillUsed count (sorted.rename rename) = (fillUsed count sorted).rename rename := by
  unfold fillUsed
  simp only [Sorted.rename, List.length_map, oldestFirst_map]
  split
  · simp [List.map_take, List.map_drop]
  · rfl

variable {rename} {same : Item → Item → Bool} {same' : Other → Other → Bool}
  {keepList : List Item} {keepList' : List Other}

/-- The keep list under other names, when it lists the same. -/
theorem addListed_rename
    (agree : ∀ item, isListed same' keepList' (renameItem rename item) = isListed same keepList item) :
    addListed same' keepList' (sorted.rename rename) =
      (addListed same keepList sorted).rename rename := by
  have listed : isListed same' keepList' ∘ renameItem rename = isListed same keepList := funext agree
  have unlisted : (fun item => !isListed same' keepList' item) ∘ renameItem rename =
      fun item => !isListed same keepList item := by
    funext item
    rw [Function.comp, agree]
  simp only [addListed, Sorted.rename, List.filter_map, listed, unlisted, List.map_append]

/-- Sorting out looks at the names of images only to find them on the keep list. -/
theorem sortOut_rename (now : Nat) (directory : Directory)
    (agree : ∀ item, isListed same' keepList' (renameItem rename item) = isListed same keepList item) :
    sortOut same' now directory (items.map (renameItem rename)) keepList' =
      (sortOut same now directory items keepList).map (Sorted.rename rename) := by
  rw [sortOut_eq, sortOut_eq, List.length_map]
  split
  · rfl
  · cases before now directory.keepRecent with
    | error panic => rfl
    | ok minTime =>
        refine congrArg Except.ok ?_
        show passes same' minTime directory _ keepList' =
          (passes same minTime directory items keepList).rename rename
        unfold passes
        rw [splitRecent_map, capUsed_rename, addListed_rename _ agree, fillUsed_rename]

end Renaming

section Positions

variable {same : Item → Item → Bool} {now : Nat} {directory : Directory}
  {part whole : List (Item × State)} {keepList : List Item}

/-- The images with their positions. -/
def numbered (items : List (Item × State)) : List ((Nat × Item) × State) :=
  items.zipIdx.map fun entry => ((entry.2, entry.1.1), entry.1.2)

/-- `sort_out`, where an image carries its position along. -/
def sortOutNumbered (same : Item → Item → Bool) (now : Nat) (directory : Directory)
    (items : List (Item × State)) (keepList : List Item) : Run (Sorted (Nat × Item)) :=
  sortOut (fun first second => same first.2 second.2) now directory (numbered items)
    (keepList.map fun kept => (0, kept))

/-- The image at a position is kept. -/
def KeepsAt (same : Item → Item → Bool) (now : Nat) (directory : Directory)
    (items : List (Item × State)) (keepList : List Item) (position : Nat) : Prop :=
  ∃ sorted, sortOutNumbered same now directory items keepList = .ok sorted ∧
    ∃ item ∈ sorted.used, item.1.1 = position

/-- A numbered item stands at its number. -/
theorem mem_numbered {items : List (Item × State)} {item : (Nat × Item) × State} :
    item ∈ numbered items ↔ items[item.1.1]? = some (item.1.2, item.2) := by
  unfold numbered
  rw [List.mem_map]
  constructor
  · rintro ⟨entry, member, rfl⟩
    exact List.mem_zipIdx_iff_getElem?.mp member
  · intro isAt
    exact ⟨((item.1.2, item.2), item.1.1), List.mem_zipIdx_iff_getElem?.mpr isAt, rfl⟩

/-- The numbers rise. -/
theorem numbered_pairwise (items : List (Item × State)) :
    (numbered items).Pairwise fun first second => first.1.1 < second.1.1 := by
  have positions : (numbered items).map (fun item => item.1.1) = List.range' 0 items.length := by
    rw [numbered, List.map_map]
    exact List.zipIdx_map_snd 0 items
  rw [← List.pairwise_map, positions]
  exact List.pairwise_lt_range'

/-- The keep list does not look at the numbers. -/
theorem isListed_numbered (position : Nat) (item : Item × State) :
    isListed (fun first second : Nat × Item => same first.2 second.2)
        (keepList.map fun kept => (0, kept)) ((position, item.1), item.2) =
      isListed same keepList item := by
  rw [isListed, isListed, List.any_map]
  rfl

/-- The positions do not change what is kept. -/
theorem sortOutNumbered_forget (same : Item → Item → Bool) (now : Nat) (directory : Directory)
    (items : List (Item × State)) (keepList : List Item) :
    (sortOutNumbered same now directory items keepList).map (Sorted.rename Prod.snd) =
      sortOut same now directory items keepList := by
  have forgets : (numbered items).map (renameItem Prod.snd) = items := by
    rw [numbered, List.map_map]
    exact List.zipIdx_map_fst 0 items
  have agree : ∀ item, isListed same keepList (renameItem Prod.snd item) =
      isListed (fun first second : Nat × Item => same first.2 second.2)
        (keepList.map fun kept => (0, kept)) item :=
    fun item => (isListed_numbered item.1.1 (item.1.2, item.2)).symm
  rw [sortOutNumbered, ← sortOut_rename _ _ _ agree, forgets]

/-- An image that is kept among some images is kept among a part of them in the same order. -/
theorem keepsAt_of_sublist (place : ℕ ↪o ℕ)
    (places : ∀ position < part.length, part[position]? = whole[place position]?) {position : Nat}
    (inside : position < part.length)
    (keeps : KeepsAt same now directory whole keepList (place position)) :
    KeepsAt same now directory part keepList position := by
  obtain ⟨sorted, ran, kept, isKept, isAt⟩ := keeps
  let rename (item : Nat × Item) : Nat × Item := (place item.1, item.2)
  let placed := (numbered part).map (renameItem rename)
  have ordered : placed.Pairwise fun first second => first.1.1 < second.1.1 := by
    rw [List.pairwise_map]
    exact (numbered_pairwise part).imp fun earlier => place.lt_iff_lt.mpr earlier
  have subset : placed ⊆ numbered whole := by
    intro item member
    obtain ⟨source, isSource, rfl⟩ := List.mem_map.mp member
    have isThere := mem_numbered.mp isSource
    obtain ⟨within, _⟩ := List.getElem?_eq_some_iff.mp isThere
    exact mem_numbered.mpr ((places _ within).symm.trans isThere)
  have sub : placed.Sublist (numbered whole) := by
    refine List.sublist_of_subperm_of_pairwise (List.subperm_of_subset ?_ subset) ordered
      (numbered_pairwise whole)
    exact ordered.imp fun earlier same => by simp [same] at earlier
  have nodup : (numbered whole).Nodup :=
    (numbered_pairwise whole).imp fun earlier same => by simp [same] at earlier
  have isWhole := mem_numbered.mp ((sortOut_perm ran).subset (List.mem_append_left _ isKept))
  rw [isAt] at isWhole
  have isPlaced : kept ∈ placed := by
    refine List.mem_map.mpr ⟨((position, kept.1.2), kept.2), ?_, ?_⟩
    · exact mem_numbered.mpr ((places position inside).trans isWhole)
    · show ((place position, kept.1.2), kept.2) = kept
      rw [← isAt]
  obtain ⟨fewer, ranFewer, isFewer⟩ := mem_used_of_sublist sub nodup ran isPlaced isKept
  let sameName (first second : Nat × Item) : Bool := same first.2 second.2
  have agree : ∀ item, isListed sameName (keepList.map fun kept => (0, kept))
      (renameItem rename item) =
        isListed sameName (keepList.map fun kept => (0, kept)) item := fun item => rfl
  rw [sortOut_rename _ _ _ agree] at ranFewer
  cases ranPart : sortOutNumbered same now directory part keepList with
  | error panic =>
      rw [sortOutNumbered] at ranPart
      rw [ranPart] at ranFewer
      cases ranFewer
  | ok sortedPart =>
      refine ⟨sortedPart, ranPart, ?_⟩
      rw [sortOutNumbered] at ranPart
      rw [ranPart] at ranFewer
      obtain rfl := Except.ok.inj ranFewer
      obtain ⟨item, isItem, isRenamed⟩ := List.mem_map.mp isFewer
      refine ⟨item, isItem, place.injective ?_⟩
      rw [← isAt, ← isRenamed]
      rfl

end Positions

/-- An image that is kept to reach the minimum is kept without the newest one as well. -/
theorem keepsAt_of_sublist_newest :
    let sort (items : List (Nat × State)) := KeepsAt (fun first second => first == second) 10000000
      (Sample.directory ⟨0, 6000000⟩) items []
    let rest := [Sample.item 2 [3], Sample.item 3 [1], Sample.item 4 [2]]
    sort (Sample.item 1 [9] :: rest) 1 ∧ sort rest 0 := by
  intro sort rest
  let next : ℕ ↪o ℕ := OrderEmbedding.ofStrictMono Nat.succ fun _ _ => Nat.succ_lt_succ
  have keeps : sort (Sample.item 1 [9] :: rest) (next 0) :=
    ⟨⟨[((0, 1), (Sample.item 1 [9]).2), ((1, 2), (Sample.item 2 [3]).2)],
      [((2, 3), (Sample.item 3 [1]).2), ((3, 4), (Sample.item 4 [2]).2)]⟩, by decide, _,
      List.mem_cons_of_mem _ List.mem_cons_self, rfl⟩
  exact ⟨keeps, keepsAt_of_sublist next (fun _ _ => rfl) (by decide) keeps⟩

end Cleanup

end Ciruela
