import Ciruela.Daemon.Cleanup.SortOut
import Ciruela.Daemon.Metadata.Meta
import Ciruela.Foundation.Selection

/-!
# What sorting out keeps

Sorting out makes four passes: it splits off the recent images, caps their number, adds
the images of the keep list and fills up to the minimum. What each pass leaves is stated
first, then what they leave together.
-/

namespace Ciruela

open Foundation

namespace Cleanup

variable {Item : Type}

/-- An image that is younger than the threshold is kept whatever its place in the order is. -/
def isRecent (minTime : Int) (item : Item × State) : Bool :=
  minTime ≤ (biggestTimestamp item.2 * 1000000 : Nat)

/-- An image that the keep list names. -/
def isListed (same : Item → Item → Bool) (keepList : List Item) (item : Item × State) : Bool :=
  keepList.any fun kept => same kept item.1

/-- The first pass of `sort_out`: recent images are used, the others are not yet. -/
def splitRecent (minTime : Int) (items : List (Item × State)) : Sorted Item :=
  ⟨items.filter (isRecent minTime), items.filter fun item => !isRecent minTime item⟩

/-- The last pass of `sort_out`: what the keep list names is used. -/
def addListed (same : Item → Item → Bool) (keepList : List Item) (sorted : Sorted Item) :
    Sorted Item :=
  ⟨sorted.used ++ sorted.unused.filter (isListed same keepList),
    sorted.unused.filter fun item => !isListed same keepList item⟩

/-- The passes that are made when there are more images than the minimum. -/
def passes (same : Item → Item → Bool) (minTime : Int) (directory : Directory)
    (items : List (Item × State)) (keepList : List Item) : Sorted Item :=
  fillUsed directory.keepMinDirectories
    (addListed same keepList (capUsed directory.keepMaxDirectories (splitRecent minTime items)))

section Passes

variable {count : Nat} {sorted : Sorted Item}

instance : Std.Total fun first second : Item × State =>
    biggestTimestamp second.2 ≤ biggestTimestamp first.2 :=
  ⟨fun _ _ => Nat.le_total _ _⟩

instance : IsTrans (Item × State) fun first second =>
    biggestTimestamp second.2 ≤ biggestTimestamp first.2 :=
  ⟨fun _ _ _ above below => Nat.le_trans below above⟩

instance : Std.Total fun first second : Item × State =>
    biggestTimestamp first.2 ≤ biggestTimestamp second.2 :=
  ⟨fun _ _ => Nat.le_total _ _⟩

instance : IsTrans (Item × State) fun first second =>
    biggestTimestamp first.2 ≤ biggestTimestamp second.2 :=
  ⟨fun _ _ _ => Nat.le_trans⟩

theorem newestFirst_perm (items : List (Item × State)) : (newestFirst items).Perm items :=
  List.perm_insertionSort _ _

theorem oldestFirst_perm (items : List (Item × State)) : (oldestFirst items).Perm items :=
  List.perm_insertionSort _ _

/-- Newer images come first. -/
theorem newestFirst_pairwise (items : List (Item × State)) :
    (newestFirst items).Pairwise fun first second =>
      biggestTimestamp second.2 ≤ biggestTimestamp first.2 :=
  List.pairwise_insertionSort _ _

/-- Older images come first. -/
theorem oldestFirst_pairwise (items : List (Item × State)) :
    (oldestFirst items).Pairwise fun first second =>
      biggestTimestamp first.2 ≤ biggestTimestamp second.2 :=
  List.pairwise_insertionSort _ _

/-- A cap lets the newest through. -/
theorem capUsed_used_perm (count : Nat) (sorted : Sorted Item) :
    (capUsed count sorted).used.Perm ((newestFirst sorted.used).take count) := by
  unfold capUsed
  split
  · exact List.Perm.refl _
  · rename_i few
    rw [List.take_of_length_le (by rw [(newestFirst_perm _).length_eq]; omega)]
    exact (newestFirst_perm _).symm

/-- What a cap does not let through is unused. -/
theorem capUsed_unused (count : Nat) (sorted : Sorted Item) :
    (capUsed count sorted).unused = sorted.unused ++ (newestFirst sorted.used).drop count := by
  unfold capUsed
  split
  · rfl
  · rename_i few
    rw [List.drop_of_length_le (by rw [(newestFirst_perm _).length_eq]; omega), List.append_nil]

/-- How many a cap lets through. -/
theorem length_capUsed_used (count : Nat) (sorted : Sorted Item) :
    (capUsed count sorted).used.length = min count sorted.used.length := by
  rw [(capUsed_used_perm count sorted).length_eq, List.length_take, (newestFirst_perm _).length_eq]

/-- How many of the unused images stay unused. -/
def unfilled (count : Nat) (sorted : Sorted Item) : Nat :=
  sorted.unused.length - (count - sorted.used.length)

/-- Filling up takes the newest of the unused. -/
theorem fillUsed_used (count : Nat) (sorted : Sorted Item) :
    (fillUsed count sorted).used =
      sorted.used ++ (oldestFirst sorted.unused).drop (unfilled count sorted) := by
  have length := (oldestFirst_perm sorted.unused).length_eq
  unfold fillUsed unfilled
  split
  · dsimp only
    rw [length]
    congr 2
    omega
  · rw [List.drop_of_length_le (by omega), List.append_nil]

/-- Filling up leaves the oldest unused. -/
theorem fillUsed_unused_perm (count : Nat) (sorted : Sorted Item) :
    (fillUsed count sorted).unused.Perm
      ((oldestFirst sorted.unused).take (unfilled count sorted)) := by
  have length := (oldestFirst_perm sorted.unused).length_eq
  unfold fillUsed unfilled
  split
  · dsimp only
    rw [length]
    have sameCount : sorted.unused.length - min sorted.unused.length (count - sorted.used.length) =
        sorted.unused.length - (count - sorted.used.length) := by omega
    rw [sameCount]
  · rw [List.take_of_length_le (by omega)]
    exact (oldestFirst_perm _).symm

/-- How many are used after filling up. -/
theorem length_fillUsed_used (count : Nat) (sorted : Sorted Item) :
    (fillUsed count sorted).used.length =
      sorted.used.length + min sorted.unused.length (count - sorted.used.length) := by
  rw [fillUsed_used, List.length_append, List.length_drop, (oldestFirst_perm _).length_eq, unfilled]
  omega

/-- What is left out by the cap is not newer than what it keeps. -/
theorem capUsed_newest {kept left : Item × State} (isKept : kept ∈ (capUsed count sorted).used)
    (isLeft : left ∈ (newestFirst sorted.used).drop count) :
    biggestTimestamp left.2 ≤ biggestTimestamp kept.2 :=
  before_of_mem_take_of_mem_drop (newestFirst_pairwise _)
    ((capUsed_used_perm _ _).subset isKept) isLeft

/-- What fills up the used images is not older than what stays unused. -/
theorem fillUsed_newest {filled left : Item × State}
    (isFilled : filled ∈ (oldestFirst sorted.unused).drop (unfilled count sorted))
    (isLeft : left ∈ (fillUsed count sorted).unused) :
    biggestTimestamp left.2 ≤ biggestTimestamp filled.2 :=
  before_of_mem_take_of_mem_drop (oldestFirst_pairwise _)
    ((fillUsed_unused_perm _ _).subset isLeft) isFilled

/-- What is unused after filling up was unused before. -/
theorem mem_of_mem_fillUsed_unused {item : Item × State}
    (member : item ∈ (fillUsed count sorted).unused) : item ∈ sorted.unused :=
  (oldestFirst_perm _).subset (List.mem_of_mem_take ((fillUsed_unused_perm _ _).subset member))

end Passes

section Together

variable {same : Item → Item → Bool} {now : Nat} {directory : Directory}
  {items : List (Item × State)} {keepList : List Item} {sorted : Sorted Item} {minTime : Int}

/-- Few images are all used; otherwise all passes are made. -/
theorem sortOut_eq (same : Item → Item → Bool) (now : Nat) (directory : Directory)
    (items : List (Item × State)) (keepList : List Item) :
    sortOut same now directory items keepList =
      if items.length ≤ directory.keepMinDirectories then .ok ⟨items, []⟩
      else (before now directory.keepRecent).map fun minTime =>
        passes same minTime directory items keepList := by
  unfold sortOut
  split
  · rfl
  · cases before now directory.keepRecent <;> rfl

/-- Few images are all used. Of many, the passes decide. -/
theorem sortOut_cases (ran : sortOut same now directory items keepList = .ok sorted) :
    (items.length ≤ directory.keepMinDirectories ∧ sorted = ⟨items, []⟩) ∨
      (directory.keepMinDirectories < items.length ∧
        ∃ minTime, before now directory.keepRecent = .ok minTime ∧
          sorted = passes same minTime directory items keepList) := by
  rw [sortOut_eq] at ran
  split at ran
  · rename_i few
    exact Or.inl ⟨few, (Except.ok.inj ran).symm⟩
  · rename_i many
    cases isBefore : before now directory.keepRecent with
    | error panic =>
        rw [isBefore] at ran
        cases ran
    | ok minTime =>
        rw [isBefore] at ran
        exact Or.inr ⟨Nat.lt_of_not_le many, minTime, rfl, (Except.ok.inj ran).symm⟩

/-- The threshold of age. -/
theorem before_eq_ok {length : Duration} (isBefore : before now length = .ok minTime) :
    minTime = (now : Int) - (length.seconds * 1000000000 + length.nanoseconds : Nat) := by
  unfold before at isBefore
  split at isBefore
  · exact (Except.ok.inj isBefore).symm
  · cases isBefore

/-- What is promised of the images that are kept. The last field is about the images that
are at least as recent as `now` less `keep-recent`. -/
structure SortsOut (same : Item → Item → Bool) (now : Nat) (directory : Directory)
    (items : List (Item × State)) (keepList : List Item) (sorted : Sorted Item) : Prop where
  perm : (sorted.used ++ sorted.unused).Perm items
  listed : ∀ item ∈ sorted.unused, isListed same keepList item = false
  minimum : min items.length directory.keepMinDirectories ≤ sorted.used.length
  maximum : directory.keepMinDirectories < items.length →
    (sorted.used.filter fun item => !isListed same keepList item).length ≤
      max directory.keepMaxDirectories directory.keepMinDirectories
  newest : ∀ kept ∈ sorted.used, isListed same keepList kept = false →
    ∀ item ∈ sorted.unused, biggestTimestamp item.2 ≤ biggestTimestamp kept.2
  recent : ∀ item ∈ sorted.unused,
    (now : Int) - (directory.keepRecent.seconds * 1000000000 +
        directory.keepRecent.nanoseconds : Nat) ≤ (biggestTimestamp item.2 * 1000000 : Nat) →
    directory.keepMaxDirectories ≤
      (sorted.used.filter fun kept => biggestTimestamp item.2 ≤ biggestTimestamp kept.2).length

/-- Few images are kept all. -/
theorem SortsOut.of_few (few : items.length ≤ directory.keepMinDirectories) :
    SortsOut same now directory items keepList ⟨items, []⟩ where
  perm := by rw [List.append_nil]
  listed item member := absurd member List.not_mem_nil
  minimum := Nat.min_le_left _ _
  maximum many := absurd few (Nat.not_le_of_lt many)
  newest _ _ _ item member := absurd member List.not_mem_nil
  recent item member := absurd member List.not_mem_nil

/-- What a cap lets through of the recent is recent. -/
theorem mem_capUsed_splitRecent {item : Item × State} {count : Nat}
    (member : item ∈ (capUsed count (splitRecent minTime items)).used) :
    isRecent minTime item = true := by
  have among : item ∈ newestFirst (splitRecent minTime items).used :=
    List.mem_of_mem_take ((capUsed_used_perm _ _).subset member)
  exact (List.mem_filter.mp ((newestFirst_perm _).subset among)).2

/-- An image that is capped or not recent is not newer than what the cap keeps. -/
theorem newest_capUsed_splitRecent {kept left : Item × State} {count : Nat}
    (isKept : kept ∈ (capUsed count (splitRecent minTime items)).used)
    (isLeft : left ∈ (capUsed count (splitRecent minTime items)).unused) :
    biggestTimestamp left.2 ≤ biggestTimestamp kept.2 := by
  rw [capUsed_unused] at isLeft
  rcases List.mem_append.mp isLeft with old | capped
  · have keptRecent := mem_capUsed_splitRecent isKept
    have leftOld := (List.mem_filter.mp old).2
    simp only [isRecent, Bool.not_eq_true', decide_eq_true_eq, decide_eq_false_iff_not] at *
    omega
  · exact capUsed_newest isKept capped

/-- The passes put every image into one of the two lists. -/
theorem passes_perm (same : Item → Item → Bool) (minTime : Int) (directory : Directory)
    (items : List (Item × State)) (keepList : List Item) :
    (passes same minTime directory items keepList).all.Perm items := by
  refine (fillUsed_perm _ _).trans ?_
  rw [addListed, Sorted.all, List.append_assoc]
  refine (List.Perm.append_left _ (List.filter_append_perm _ _)).trans ?_
  exact (capUsed_perm _ _).trans (List.filter_append_perm _ _)

/-- Only what the cap keeps and what fills up to the minimum is not on the keep list. -/
theorem length_passes_unlisted (same : Item → Item → Bool) (minTime : Int) (directory : Directory)
    (items : List (Item × State)) (keepList : List Item) :
    ((passes same minTime directory items keepList).used.filter
      fun item => !isListed same keepList item).length ≤
        max directory.keepMaxDirectories directory.keepMinDirectories := by
  unfold passes
  generalize isCapped : capUsed directory.keepMaxDirectories (splitRecent minTime items) = capped
  have atMost : capped.used.length ≤ directory.keepMaxDirectories := by
    rw [← isCapped, length_capUsed_used]
    exact Nat.min_le_left _ _
  by_cases enough : directory.keepMinDirectories ≤ (addListed same keepList capped).used.length
  · -- nothing is filled up
    have nothing : fillUsed directory.keepMinDirectories (addListed same keepList capped) =
        addListed same keepList capped := if_neg (Nat.not_lt_of_le enough)
    have unlisted : (capped.unused.filter (isListed same keepList)).filter
        (fun item => !isListed same keepList item) = [] := by
      rw [List.filter_filter, List.filter_eq_nil_iff]
      simp
    rw [nothing, addListed, List.filter_append, unlisted, List.append_nil]
    have filtered := List.length_filter_le (fun item => !isListed same keepList item) capped.used
    omega
  · have filtered := List.length_filter_le (fun item => !isListed same keepList item)
      (fillUsed directory.keepMinDirectories (addListed same keepList capped)).used
    rw [length_fillUsed_used] at filtered
    omega

/-- An image that is used without being listed is not older than an unused one. -/
theorem newest_passes {kept left : Item × State}
    (isKept : kept ∈ (passes same minTime directory items keepList).used)
    (unlisted : isListed same keepList kept = false)
    (isLeft : left ∈ (passes same minTime directory items keepList).unused) :
    biggestTimestamp left.2 ≤ biggestTimestamp kept.2 := by
  have leftBefore := (List.mem_filter.mp (mem_of_mem_fillUsed_unused isLeft)).1
  rw [passes, fillUsed_used] at isKept
  rcases List.mem_append.mp isKept with early | filled
  · rcases List.mem_append.mp early with capped | listed
    · exact newest_capUsed_splitRecent capped leftBefore
    · rw [(List.mem_filter.mp listed).2] at unlisted
      cases unlisted
  · exact fillUsed_newest filled isLeft

/-- A recent image is unused only when the cap is filled with images as recent. -/
theorem recent_passes {left : Item × State}
    (isLeft : left ∈ (passes same minTime directory items keepList).unused)
    (recent : isRecent minTime left = true) :
    directory.keepMaxDirectories ≤ ((passes same minTime directory items keepList).used.filter
      fun kept => biggestTimestamp left.2 ≤ biggestTimestamp kept.2).length := by
  have leftBefore := (List.mem_filter.mp (mem_of_mem_fillUsed_unused isLeft)).1
  have capped : left ∈ (newestFirst (splitRecent minTime items).used).drop
      directory.keepMaxDirectories := by
    rw [capUsed_unused] at leftBefore
    rcases List.mem_append.mp leftBefore with old | capped
    · have notRecent := (List.mem_filter.mp old).2
      simp [recent] at notRecent
    · exact capped
  have full : directory.keepMaxDirectories < (splitRecent minTime items).used.length := by
    rw [← (newestFirst_perm (splitRecent minTime items).used).length_eq]
    by_contra few
    rw [List.drop_of_length_le (by omega)] at capped
    cases capped
  calc directory.keepMaxDirectories
      = (capUsed directory.keepMaxDirectories (splitRecent minTime items)).used.length := by
        rw [length_capUsed_used]
        omega
    _ = ((capUsed directory.keepMaxDirectories (splitRecent minTime items)).used.filter
          fun kept => biggestTimestamp left.2 ≤ biggestTimestamp kept.2).length := by
        rw [List.filter_eq_self.mpr]
        intro kept isKept
        exact decide_eq_true (capUsed_newest isKept capped)
    _ ≤ _ := by
        rw [passes, fillUsed_used]
        refine (List.Sublist.filter _ ?_).length_le
        exact (List.sublist_append_left _ _).trans (List.sublist_append_left _ _)

/-- The passes do what is expected of `sort_out`. -/
theorem SortsOut.of_passes (isBefore : before now directory.keepRecent = .ok minTime) :
    SortsOut same now directory items keepList
      (passes same minTime directory items keepList) where
  perm := passes_perm same minTime directory items keepList
  listed item member := by
    have unlisted := (List.mem_filter.mp (mem_of_mem_fillUsed_unused member)).2
    simpa using unlisted
  minimum := by
    have all := (passes_perm same minTime directory items keepList).length_eq
    have filled := (fillUsed_perm directory.keepMinDirectories (addListed same keepList
      (capUsed directory.keepMaxDirectories (splitRecent minTime items)))).length_eq
    rw [passes] at all ⊢
    rw [all, Sorted.all, List.length_append] at filled
    rw [length_fillUsed_used]
    omega
  maximum _ := length_passes_unlisted same minTime directory items keepList
  newest _ isKept unlisted _ isLeft := newest_passes isKept unlisted isLeft
  recent item member late := by
    rw [← before_eq_ok isBefore] at late
    exact recent_passes member (decide_eq_true late)

/-- Whenever sorting out comes to an end, it keeps what is promised. -/
theorem sortsOut_of_ok (ran : sortOut same now directory items keepList = .ok sorted) :
    SortsOut same now directory items keepList sorted := by
  obtain ⟨few, rfl⟩ | ⟨_, minTime, isBefore, rfl⟩ := sortOut_cases ran
  · exact SortsOut.of_few few
  · exact SortsOut.of_passes isBefore

/-- Sorting out keeps what is promised exactly when it does not have to take `keep-recent`
off the clock or can do it. -/
theorem sortsOut_iff (same : Item → Item → Bool) (now : Nat) (directory : Directory)
    (items : List (Item × State)) (keepList : List Item) :
    (∃ sorted, sortOut same now directory items keepList = .ok sorted ∧
        SortsOut same now directory items keepList sorted) ↔
      items.length ≤ directory.keepMinDirectories ∨ directory.keepRecent.seconds < 2 ^ 63 := by
  rw [← returns_sortOut same now directory items keepList]
  constructor
  · rintro ⟨sorted, ran, _⟩
    exact ⟨sorted, ran⟩
  · rintro ⟨sorted, ran⟩
    exact ⟨sorted, ran, sortsOut_of_ok ran⟩

end Together

namespace Sample

/-- Two images at least, two at most, and those of the last `recent`. -/
def directory (recent : Duration) : Directory :=
  { Metadata.Sample.directory true with
    autoClean := true
    keepMinDirectories := 2
    keepMaxDirectories := 2
    keepRecent := recent
    one_le_keepMin := Nat.le_succ 1
    one_le_keepMax := Nat.le_succ 1 }

/-- An image that was signed at the given times. -/
def item (name : Nat) (times : List Nat) : Nat × State :=
  (name, ⟨⟨[]⟩, times.map fun time => ⟨time, Metadata.Sample.signature 0⟩⟩)

end Sample

/-- The newest two of the recent images, and the one of the keep list. -/
example : sortOut (fun first second => first == second) 10000000 (Sample.directory ⟨0, 6000000⟩)
      [Sample.item 1 [4], Sample.item 2 [7], Sample.item 3 [2], Sample.item 4 [9, 5], Sample.item 5 [8]]
      [3] =
    .ok ⟨[Sample.item 5 [8], Sample.item 2 [7], Sample.item 3 [2]],
      [Sample.item 4 [9, 5], Sample.item 1 [4]]⟩ := by
  decide

/-- Three images and a `keep-recent` of 2^63 seconds: nothing is kept. -/
theorem sortOut_overflows :
    ¬ ∃ sorted,
      sortOut (fun first second => first == second) 0 (Sample.directory ⟨2 ^ 63, 0⟩)
          [Sample.item 1 [], Sample.item 2 [], Sample.item 3 []] [] = .ok sorted ∧
        SortsOut (fun first second => first == second) 0 (Sample.directory ⟨2 ^ 63, 0⟩)
          [Sample.item 1 [], Sample.item 2 [], Sample.item 3 []] [] sorted := by
  rintro ⟨sorted, ran, _⟩
  have returns := (returns_sortOut _ _ _ _ _).mp ⟨sorted, ran⟩
  revert returns
  decide

end Cleanup

end Ciruela
