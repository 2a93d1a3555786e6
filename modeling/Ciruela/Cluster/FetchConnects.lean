import Ciruela.Cluster.SetLinks

/-!
# Connections for a fetch

A fetch without a connection looks for an address of a host that was named for its image. When
there is one it is drawn, but only the addresses that are fallen back to are connected to.
-/

namespace Ciruela.Cluster

open Foundation Proto
open Remote (SocketAddr)

namespace ConnectionSet

variable {set next : ConnectionSet} {fetch : Fetch} {pointer : Pointer} {draw : Draw}

/-- There is no connection to the address, and it may be tried for this location. -/
def Allows (set : ConnectionSet) (pointer : Pointer) (addr : SocketAddr) : Prop :=
  canTry pointer.failures slowRetryTime set.now addr = true ∧ set.Free addr

instance (set : ConnectionSet) (pointer : Pointer) (addr : SocketAddr) :
    Decidable (set.Allows pointer addr) := inferInstanceAs (Decidable (_ ∧ _))

/-- A host that was named for the location has been resolved to this address. -/
def Named (set : ConnectionSet) (pointer : Pointer) (addr : SocketAddr) : Prop :=
  ∃ name ∈ pointer.candidateHosts, ∃ address ∈ set.addrs.lookup name, addr ∈ address

/-- The addresses that are being connected to after another one was added. -/
theorem mem_pending_connect {addr other : SocketAddr} :
    other ∈ (set.connect addr).pending ↔ other ∈ set.pending ∨ other = addr := by
  unfold connect
  split
  · rename_i present
    constructor
    · exact Or.inl
    · rintro (before | rfl)
      · exact before
      · exact present
  · rw [Finmap.mem_insert, or_comm]

/-- The addresses that are being connected to after others were added. -/
theorem mem_pending_foldl {addrs : List SocketAddr} {other : SocketAddr} :
    other ∈ (addrs.foldl connect set).pending ↔ other ∈ set.pending ∨ other ∈ addrs := by
  induction addrs generalizing set with
  | nil => simp
  | cons addr rest ih => rw [List.foldl_cons, ih, mem_pending_connect, List.mem_cons, or_assoc]

/-- What is drawn for a fetch without a connection, and what comes of it. -/
theorem newConnForFetch_cases (unconnected : fetch.connection = none)
    (isAt : set.locations[fetch.location]? = some pointer)
    (connected : set.newConnForFetch fetch draw = some next) :
    (next = set ∧ ∃ name ∈ pointer.candidateHosts, ∃ addr ∈ set.pickOne draw.pick name,
        set.Allows pointer addr) ∨
      ((∀ name ∈ pointer.candidateHosts, ∀ addr ∈ set.pickOne draw.pick name,
          ¬ set.Allows pointer addr) ∧
        (∀ addr ∈ draw.initial, set.Allows pointer addr) ∧
          next = draw.initial.foldl connect
            { set with pendingAddrs := set.pendingAddrs ∪ draw.toResolve.toFinset }) := by
  unfold newConnForFetch at connected
  rw [unconnected, isAt] at connected
  dsimp only at connected
  split_ifs at connected with sampled found others
  · obtain rfl := Option.some.inj connected
    obtain ⟨addr, member⟩ := List.exists_mem_of_ne_nil _ found
    obtain ⟨isPicked, allows⟩ := Multiset.mem_filter.mp (mem_of_sampled sampled.2 member)
    obtain ⟨name, isName, picks⟩ := (Multiset.mem_filterMap _ _).mp isPicked
    exact .inl ⟨rfl, name, isName, addr, picks, allows⟩
  · obtain rfl := Option.some.inj connected
    refine .inr ⟨fun name isName addr picks allows => ?_, fun addr member => ?_, rfl⟩
    · -- nothing was drawn, so there was nothing to draw
      have drawn := sampled.2.2
      rw [not_not.mp found, List.length_nil, eq_comm, Nat.min_eq_zero_iff] at drawn
      have empty := Multiset.card_eq_zero.mp (drawn.resolve_left Nat.one_ne_zero)
      refine Multiset.eq_zero_iff_forall_notMem.mp empty addr (Multiset.mem_filter.mpr ⟨?_, allows⟩)
      exact (Multiset.mem_filterMap _ _).mpr ⟨name, isName, picks⟩
    · have fallback := (Finset.mem_filter.mp (mem_of_sampled others.2 member)).2
      exact ⟨fallback.2, fallback.1⟩

/-- A fetch connects to an address of a named host that may be tried exactly when no such address
is picked, and the initial address that is drawn instead happens to be one. -/
theorem fetch_connects_iff (unconnected : fetch.connection = none)
    (isAt : set.locations[fetch.location]? = some pointer)
    (connected : set.newConnForFetch fetch draw = some next) :
    (∃ addr, (set.Named pointer addr ∧ set.Allows pointer addr) ∧ addr ∈ next.pending) ↔
      (∀ name ∈ pointer.candidateHosts, ∀ addr ∈ set.pickOne draw.pick name,
        ¬ set.Allows pointer addr) ∧
        ∃ addr ∈ draw.initial, set.Named pointer addr := by
  rcases newConnForFetch_cases unconnected isAt connected with
    ⟨rfl, name, isName, picked, picks, allowed⟩ | ⟨nonePicked, allows, rfl⟩
  · constructor
    · rintro ⟨addr, ⟨_, allows⟩, waits⟩
      exact absurd waits allows.2.1
    · rintro ⟨nonePicked, _⟩
      exact absurd allowed (nonePicked name isName picked picks)
  · constructor
    · rintro ⟨addr, ⟨named, allowed⟩, waits⟩
      rcases mem_pending_foldl.mp waits with before | drawn
      · exact absurd before allowed.2.1
      · exact ⟨nonePicked, addr, drawn, named⟩
    · rintro ⟨_, addr, drawn, named⟩
      exact ⟨addr, ⟨named, allows addr drawn⟩, mem_pending_foldl.mpr (.inr drawn)⟩

end ConnectionSet

namespace Sample

/-- The server is one of the initial addresses, and a host that was named for the location has
these addresses. -/
def naming (addresses : Finset SocketAddr) (failures : Map SocketAddr Remote.Failure) :
    ConnectionSet :=
  { ConnectionSet.spawn ["a".toList] with
    initialAddr := (AddrCell.new ["a".toList]).poll 24783 [.found [server.ip]]
    addrs := Finmap.singleton "b".toList addresses
    locations := [⟨keyDir, {"b".toList}, failures⟩] }

end Sample

/-- The address of a named host that is picked has failed, and the initial address that is drawn
is another address of the host. -/
theorem fetch_connects_fallback :
    let addresses := {Sample.server, Sample.neighbour}
    let failures := Finmap.singleton Sample.neighbour ⟨1, 0⟩
    let set := Sample.naming addresses failures
    ∃ next, set.newConnForFetch ⟨0, none, .index none⟩
        ⟨fun _ => Sample.neighbour, [], [], [Sample.server]⟩ = some next ∧
      ∃ addr, (set.Named ⟨keyDir, {"b".toList}, failures⟩ addr ∧
        set.Allows ⟨keyDir, {"b".toList}, failures⟩ addr) ∧ addr ∈ next.pending := by
  intro addresses failures set
  obtain ⟨next, connected⟩ : ∃ next, set.newConnForFetch ⟨0, none, .index none⟩
      ⟨fun _ => Sample.neighbour, [], [], [Sample.server]⟩ = some next := ⟨_, rfl⟩
  refine ⟨next, connected,
    (ConnectionSet.fetch_connects_iff rfl rfl connected).mpr ⟨?_, Sample.server, ?_, ?_⟩⟩
  · intro name isName addr picks allows
    rw [Finset.mem_singleton.mp isName] at picks
    obtain rfl := Option.some.inj picks
    revert allows
    decide +kernel
  · exact List.mem_cons_self
  · refine ⟨"b".toList, Finset.mem_singleton_self _, addresses, Finmap.lookup_singleton_eq, ?_⟩
    exact Finset.mem_insert_self _ _

/-- The address of a named host is picked, and not connected to. -/
theorem fetch_stays_unconnected :
    let set := Sample.naming {Sample.server} ∅
    set.newConnForFetch ⟨0, none, .index none⟩ ⟨fun _ => Sample.server, [Sample.server], [], []⟩ =
        some set ∧
      Sample.server ∉ set.pending ∧
        set.Named ⟨keyDir, {"b".toList}, ∅⟩ Sample.server ∧
          set.Allows ⟨keyDir, {"b".toList}, ∅⟩ Sample.server := by
  refine ⟨rfl, Finmap.notMem_empty, ⟨"b".toList, ?_, {Sample.server}, ?_, ?_⟩, ?_⟩
  · exact Finset.mem_singleton_self _
  · exact Finmap.lookup_singleton_eq
  · exact Finset.mem_singleton_self _
  · decide +kernel

end Ciruela.Cluster
