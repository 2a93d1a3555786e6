import Ciruela.Daemon.Peers.Gossip

/-!
# Whether an image is stalled everywhere

A node that cannot get on with a download asks its tables what the other nodes of the
directory do with the image. It gives up only when none of them can be of help. The answer
is made from five counters, one of which is only logged.
-/

namespace Ciruela

open Foundation

namespace Peers

/-- The order in which a hash set hands out its items. -/
structure Order (Item : Type) where
  list : Finset Item → List Item
  nodup : ∀ set, (list set).Nodup
  mem : ∀ set item, item ∈ list set ↔ item ∈ set

/-- A list of a set is as long as the set is large. -/
theorem Order.length {Item : Type} (order : Order Item) (set : Finset Item) :
    (order.list set).length = set.card := by
  have multiset : (order.list set : Multiset Item) = set.val :=
    (Multiset.Nodup.ext (Multiset.coe_nodup.mpr (order.nodup set)) set.nodup).mpr (order.mem set)
  rw [← Multiset.coe_card, multiset]
  rfl

instance : Inhabited (Order MachineId) :=
  ⟨⟨sortIds, fun set => Finset.sort_nodup set IdLe, fun _ _ => Finset.mem_sort IdLe⟩⟩

/-- The counters of `check_stalled`. -/
structure Counters where
  stalled : Nat
  deleted : Nat
  sources : Nat
  possiblyOkay : Nat
  wrongImage : Nat

/-- Nobody has been counted. -/
def Counters.zero : Counters := ⟨0, 0, 0, 0, 0⟩

variable {Hash : Type} (byHost : Map MachineId HostData)

/-- Count one of the peers that are configured for the directory. -/
def countPeer (place : List Component) (image : ImageId) (counters : Counters)
    (id : MachineId) : Counters :=
  match byHost.lookup id with
  | some peer =>
      match peer.downloading.lookup place with
      | some dir =>
          if dir.image = image then
            let counters :=
              if dir.stalled then { counters with stalled := counters.stalled + 1 }
              else { counters with possiblyOkay := counters.possiblyOkay + 1 }
            if dir.source then { counters with sources := counters.sources + 1 } else counters
          else { counters with wrongImage := counters.wrongImage + 1 }
      | none =>
          if (place, image) ∈ peer.deleted then { counters with deleted := counters.deleted + 1 }
          else { counters with possiblyOkay := counters.possiblyOkay + 1 }
  | none => { counters with possiblyOkay := counters.possiblyOkay + 1 }

/-- `Peers::check_stalled`. -/
def checkStalled (order : Order MachineId) (configs : ConfigMap Hash) (path : VPath)
    (image : ImageId) : Run Bool := do
  let base ← path.keyVpath
  let neededPeers := (configs.byDir base).getD ∅
  let counters := (order.list neededPeers).foldl (countPeer byHost path.place image) .zero
  return decide (neededPeers.card ≤ counters.stalled + counters.deleted ∧
    counters.possiblyOkay = 0 ∧ counters.sources = 0)

/-- The peer downloads this image to the path without getting on, and has no source. -/
def StallsAt (place : List Component) (image : ImageId) (id : MachineId) : Prop :=
  ∃ peer dir, byHost.lookup id = some peer ∧ peer.downloading.lookup place = some dir ∧
    dir.image = image ∧ dir.stalled = true ∧ dir.source = false

/-- The peer downloads nothing to the path and lists the image as deleted there. -/
def DeletedAt (place : List Component) (image : ImageId) (id : MachineId) : Prop :=
  ∃ peer, byHost.lookup id = some peer ∧ peer.downloading.lookup place = none ∧
    (place, image) ∈ peer.deleted

/-- The peer may be of help or be busy: nothing is known of it, or it downloads another image,
gets on with this one or has a source. -/
def Hinders (place : List Component) (image : ImageId) (id : MachineId) : Prop :=
  byHost.lookup id = none ∨
    ∃ peer dir, byHost.lookup id = some peer ∧ peer.downloading.lookup place = some dir ∧
      (dir.image ≠ image ∨ dir.stalled = false ∨ dir.source = true)

variable {byHost}

/-- Who hinders has not given up. -/
theorem Hinders.not_given_up {place : List Component} {image : ImageId} {id : MachineId}
    (hinders : Hinders byHost place image id) :
    ¬ (StallsAt byHost place image id ∨ DeletedAt byHost place image id) := by
  rintro (⟨peer, dir, isPeer, isDir, isImage, stalled, noSource⟩ | ⟨peer, isPeer, nothing, _⟩)
  · obtain unknown | ⟨_, _, isPeer', isDir', reason⟩ := hinders
    · rw [unknown] at isPeer
      cases isPeer
    · obtain rfl := Option.some.inj (isPeer'.symm.trans isPeer)
      obtain rfl := Option.some.inj (isDir'.symm.trans isDir)
      rw [stalled, noSource] at reason
      simp [isImage] at reason
  · obtain unknown | ⟨_, _, isPeer', isDir', _⟩ := hinders
    · rw [unknown] at isPeer
      cases isPeer
    · obtain rfl := Option.some.inj (isPeer'.symm.trans isPeer)
      rw [nothing] at isDir'
      cases isDir'

section Counting

variable {place : List Component} {image : ImageId} {counters : Counters} {id : MachineId}

/-- Every peer is in one of the four classes. -/
def Counters.total (counters : Counters) : Nat :=
  counters.stalled + counters.deleted + counters.possiblyOkay + counters.wrongImage

/-- Nobody was counted who may be of help or is busy. -/
def Counters.Hopeless (counters : Counters) : Prop :=
  counters.possiblyOkay = 0 ∧ counters.sources = 0 ∧ counters.wrongImage = 0

/-- Every peer is counted once. -/
theorem total_countPeer (place : List Component) (image : ImageId) (counters : Counters)
    (id : MachineId) : (countPeer byHost place image counters id).total = counters.total + 1 := by
  unfold countPeer Counters.total
  split
  · split
    · split
      · split <;> split <;> dsimp only <;> omega
      · dsimp only
        omega
    · split <;> dsimp only <;> omega
  · dsimp only
    omega

/-- Counting a peer keeps it hopeless when the peer has given up. -/
theorem hopeless_countPeer :
    (countPeer byHost place image counters id).Hopeless ↔
      counters.Hopeless ∧ (StallsAt byHost place image id ∨ DeletedAt byHost place image id) := by
  cases isPeer : byHost.lookup id with
  | none => simp [countPeer, Counters.Hopeless, StallsAt, DeletedAt, isPeer]
  | some peer =>
      cases isDir : peer.downloading.lookup place with
      | none =>
          by_cases deleted : (place, image) ∈ peer.deleted
          · simp [countPeer, Counters.Hopeless, StallsAt, DeletedAt, isPeer, isDir, deleted]
          · simp [countPeer, Counters.Hopeless, StallsAt, DeletedAt, isPeer, isDir, deleted]
      | some dir =>
          by_cases isImage : dir.image = image
          · cases stalled : dir.stalled <;> cases source : dir.source <;>
              simp [countPeer, Counters.Hopeless, StallsAt, DeletedAt, isPeer, isDir, isImage,
                stalled, source]
          · simp [countPeer, Counters.Hopeless, StallsAt, DeletedAt, isPeer, isDir, isImage]

variable (byHost place image) in
/-- All peers together. -/
theorem foldl_countPeer (counters : Counters) (ids : List MachineId) :
    (ids.foldl (countPeer byHost place image) counters).total = counters.total + ids.length ∧
      ((ids.foldl (countPeer byHost place image) counters).Hopeless ↔
        counters.Hopeless ∧
          ∀ id ∈ ids, StallsAt byHost place image id ∨ DeletedAt byHost place image id) := by
  induction ids generalizing counters with
  | nil => simp
  | cons id rest ih =>
      obtain ⟨total, hopeless⟩ := ih (countPeer byHost place image counters id)
      rw [List.foldl_cons, total, hopeless, total_countPeer, hopeless_countPeer, List.length_cons,
        List.forall_mem_cons, and_assoc]
      exact ⟨by omega, Iff.rfl⟩

end Counting

/-- An image is stalled everywhere exactly when each peer of the directory downloads it without
getting on and without a source, or downloads nothing there and has deleted it; a peer that may
be of help or is busy keeps the download alive. -/
theorem checkStalled_iff (byHost : Map MachineId HostData) (order : Order MachineId)
    (configs : ConfigMap Hash) (path : VPath) (image : ImageId) :
    ∃ base result, path.keyVpath = .ok base ∧
      checkStalled byHost order configs path image = .ok result ∧
      (result = true ↔ ∀ id ∈ (configs.byDir base).getD ∅,
        StallsAt byHost path.place image id ∨ DeletedAt byHost path.place image id) ∧
      ∀ id ∈ (configs.byDir base).getD ∅, Hinders byHost path.place image id → result = false := by
  obtain ⟨base, isBase⟩ := path.returns_keyVpath
  have exact (needed : Finset MachineId) :
      (needed.card ≤
          ((order.list needed).foldl (countPeer byHost path.place image) .zero).stalled +
            ((order.list needed).foldl (countPeer byHost path.place image) .zero).deleted ∧
        ((order.list needed).foldl (countPeer byHost path.place image) .zero).possiblyOkay = 0 ∧
        ((order.list needed).foldl (countPeer byHost path.place image) .zero).sources = 0) ↔
        ∀ id ∈ needed, StallsAt byHost path.place image id ∨ DeletedAt byHost path.place image id := by
    obtain ⟨total, hopeless⟩ := foldl_countPeer byHost path.place image .zero
      (order.list needed)
    simp only [order.mem] at hopeless
    rw [order.length] at total
    generalize (order.list needed).foldl (countPeer byHost path.place image) .zero = counters at *
    have start : Counters.zero.Hopeless := ⟨rfl, rfl, rfl⟩
    rw [and_iff_right start] at hopeless
    rw [← hopeless]
    -- the classes make up all peers, so none is left for another image
    have nothing : Counters.zero.total = 0 := rfl
    rw [nothing] at total
    unfold Counters.total at total
    unfold Counters.Hopeless
    constructor
    · rintro ⟨enough, okay, sources⟩
      exact ⟨okay, sources, by omega⟩
    · rintro ⟨okay, sources, wrong⟩
      exact ⟨by omega, okay, sources⟩
  refine ⟨base, _, isBase, by rw [checkStalled, isBase]; rfl, ?_, ?_⟩
  · rw [decide_eq_true_iff]
    exact exact _
  · intro id needed hinders
    rw [decide_eq_false_iff_not, exact]
    exact fun all => hinders.not_given_up (all id needed)

end Peers

end Ciruela
