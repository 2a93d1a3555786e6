import Ciruela.Cluster.Set

/-!
# Connections that are closed

A connection that is closed is reported once, and the set takes it out when it reads the
report. It has to be there by then: a connection that is established and closed between two
polls is reported before the set takes it.
-/

namespace Ciruela.Cluster

open Foundation Proto
open Remote (SocketAddr)

/-- How the connections, their numbers and the reports about them hang together. The reports
about some connections have been read. -/
structure Linked (Gone : Nat → Prop) (chan : List Message) (pending active : Map SocketAddr Nat)
    (made : List Made) : Prop where
  onTheirWay : ∀ addr conn, pending.lookup addr = some conn →
    ∃ link, made[conn]? = some ⟨addr, link⟩ ∧ link ≠ .closed
  there : ∀ addr conn, active.lookup addr = some conn → ∃ link, made[conn]? = some ⟨addr, link⟩
  apart : ∀ addr, addr ∈ pending → addr ∉ active
  /-- What is reported closed is closed, and not taken out yet. -/
  closing : ∀ addr conn, .closed addr conn ∈ chan →
    active.lookup addr = some conn ∧ made[conn]? = some ⟨addr, .closed⟩
  once : (chan.filterMap Message.closing).Nodup
  gone : ∀ conn, Gone conn →
    (∃ addr, made[conn]? = some ⟨addr, .closed⟩) ∧ ∀ addr, active.lookup addr ≠ some conn

/-- The invariant of the whole set. -/
def ConnectionSet.Linked (set : ConnectionSet) (Gone : Nat → Prop) : Prop :=
  Cluster.Linked Gone set.chan set.pending set.active set.made

/-- New connections are looked for and made, and none where there is one. -/
inductive Connects (start : ConnectionSet) : ConnectionSet → Prop where
  | refl : Connects start start
  | lookUp {set : ConnectionSet} (names : Finset Name) (prior : Connects start set) :
      Connects start { set with pendingAddrs := names }
  | connect {set : ConnectionSet} {addr : SocketAddr} (free : addr ∉ set.active)
      (prior : Connects start set) : Connects start (set.connect addr)

namespace Connects

variable {start middle finish set : ConnectionSet}

/-- One after the other, connections are only added. -/
theorem trans (first : Connects start middle) (second : Connects middle finish) :
    Connects start finish := by
  induction second with
  | refl => exact first
  | lookUp names _ ih => exact .lookUp names ih
  | connect free _ ih => exact .connect free ih

/-- Connecting to many addresses only adds connections. -/
theorem foldl {addrs : List SocketAddr} (free : ∀ addr ∈ addrs, addr ∉ set.active)
    (prior : Connects start set) : Connects start (addrs.foldl ConnectionSet.connect set) := by
  induction addrs generalizing set with
  | nil => exact prior
  | cons addr rest ih =>
      apply ih
      · intro other member
        have same : (set.connect addr).active = set.active := by
          unfold ConnectionSet.connect
          split <;> rfl
        rw [same]
        exact free other (List.mem_cons_of_mem _ member)
      · exact .connect (free addr List.mem_cons_self) prior

end Connects

/-- Who is picked is of the pool. -/
theorem mem_of_sampled {Item : Type} {picked : List Item} {pool : Multiset Item} {amount : Nat}
    (sampled : Sampled picked pool amount) {item : Item} (member : item ∈ picked) : item ∈ pool :=
  Multiset.mem_of_le sampled.1 (Multiset.mem_coe.mpr member)

namespace ConnectionSet

variable {set next : ConnectionSet}

/-- Names may be looked up, and addresses that are free are connected to. -/
def Dials (set next : ConnectionSet) : Prop :=
  ∃ (names : Finset Name) (addrs : List SocketAddr),
    next = addrs.foldl connect { set with pendingAddrs := names } ∧ ∀ addr ∈ addrs, set.Free addr

theorem Dials.refl (set : ConnectionSet) : set.Dials set := ⟨set.pendingAddrs, [], rfl, by simp⟩

theorem Dials.connects (dials : set.Dials next) : Connects set next := by
  obtain ⟨names, addrs, rfl, free⟩ := dials
  exact .foldl (fun addr member => (free addr member).2.1) (.lookUp names .refl)

/-- An upload only dials. -/
theorem dials_newConnsForUpload {config : Config} {up : Upload} {draw : Draw}
    (connected : set.newConnsForUpload config up draw = some next) : set.Dials next := by
  simp only [newConnsForUpload] at connected
  split_ifs at connected with held sampled full others
  · obtain rfl := Option.some.inj connected
    exact .refl set
  · obtain rfl := Option.some.inj connected
    refine ⟨set.pendingAddrs, _, rfl, fun addr member => ?_⟩
    exact (Multiset.mem_filter.mp (mem_of_sampled sampled.2 member)).2.2
  · obtain rfl := Option.some.inj connected
    refine ⟨_, _, rfl, fun addr member => ?_⟩
    rcases List.mem_append.mp member with resolved | initial
    · exact (Multiset.mem_filter.mp (mem_of_sampled sampled.2 resolved)).2.2
    · exact (Finset.mem_filter.mp (mem_of_sampled others.2 initial)).2.2.2

/-- A fetch only dials. -/
theorem dials_newConnForFetch {fetch : Fetch} {draw : Draw}
    (connected : set.newConnForFetch fetch draw = some next) : set.Dials next := by
  unfold newConnForFetch at connected
  split at connected
  · simp only at connected
    split_ifs at connected with sampled found others
    · obtain rfl := Option.some.inj connected
      exact .refl set
    · obtain rfl := Option.some.inj connected
      refine ⟨_, _, rfl, fun addr member => ?_⟩
      exact (Finset.mem_filter.mp (mem_of_sampled others.2 member)).2.1
  · obtain rfl := Option.some.inj connected
    exact .refl set

/-- What every round keeps that dials, a loop over uploads or fetches keeps. -/
theorem inv_of_foldlM {Item : Type} (Inv : ConnectionSet → Prop)
    {step : ConnectionSet → Item → Option ConnectionSet}
    (kept : ∀ set item next, step set item = some next → Inv set → Inv next) {items : List Item}
    (connected : items.foldlM step set = some next) (initially : Inv set) : Inv next := by
  induction items generalizing set with
  | nil => rwa [← Option.some.inj connected]
  | cons item rest ih =>
      rw [List.foldlM_cons] at connected
      obtain ⟨middle, first, later⟩ := Option.bind_eq_some_iff.mp connected
      exact ih later (kept set item middle first initially)

/-- What every dial keeps is kept by connecting. -/
theorem inv_of_pollConnect (Inv : ConnectionSet → Prop)
    (kept : ∀ set next : ConnectionSet, set.Dials next → Inv set → Inv next) {config : Config}
    {uploads fetches : List Draw} (connected : set.pollConnect config uploads fetches = some next)
    (initially : Inv set) : Inv next := by
  obtain ⟨middle, first, second⟩ := Option.bind_eq_some_iff.mp connected
  refine inv_of_foldlM Inv (fun set item next connected => ?_) second
    (inv_of_foldlM Inv (fun set item next connected => ?_) first initially)
  · exact kept set next (dials_newConnForFetch connected)
  · exact kept set next (dials_newConnsForUpload connected)

/-- Connecting only adds connections. -/
theorem connects_pollConnect {config : Config} {uploads fetches : List Draw}
    (connected : set.pollConnect config uploads fetches = some next) : Connects set next :=
  inv_of_pollConnect (Connects set) (fun _ _ dials prior => prior.trans dials.connects) connected
    .refl

end ConnectionSet

section Linked

variable {Gone : Nat → Prop} {chan : List Message} {pending active : Map SocketAddr Nat}
  {made : List Made} {addr : SocketAddr} {conn : Nat}

theorem getElem?_relink (made : List Made) (conn other : Nat) (link : Link) :
    (made.modify conn fun entry => { entry with link := link })[other]? =
      if conn = other then (made[other]?).map fun entry => ⟨entry.addr, link⟩
      else made[other]? := by
  rw [List.getElem?_modify]
  split
  · rfl
  · exact id_map _

/-- A connection that is closed stays closed. -/
theorem closed_relink {link : Link} {number : Nat}
    (isClosed : made[number]? = some ⟨addr, .closed⟩) (kept : conn = number → link = .closed) :
    (made.modify conn fun entry => { entry with link := link })[number]? =
      some ⟨addr, .closed⟩ := by
  rw [getElem?_relink, isClosed]
  split
  · rename_i same
    rw [kept same]
    rfl
  · rfl

theorem getElem?_snoc {entry : Made} (isMade : made[conn]? = some entry) (new : Made) :
    (made ++ [new])[conn]? = some entry := by
  rw [List.getElem?_append_left (List.getElem?_eq_some_iff.mp isMade).1, isMade]

/-- A connection that is not established yet gets on or fails. -/
theorem Linked.relink (linked : Linked Gone chan pending active made) {link : Link}
    (isAt : (made[conn]?).map Made.link = some .connecting) (notClosed : link ≠ .closed) :
    Linked Gone chan pending active
      (made.modify conn fun entry => { entry with link := link }) where
  onTheirWay other number found := by
    obtain ⟨old, isOld, before⟩ := linked.onTheirWay other number found
    rw [getElem?_relink, isOld]
    split
    · exact ⟨link, rfl, notClosed⟩
    · exact ⟨old, rfl, before⟩
  there other number found := by
    obtain ⟨old, isOld⟩ := linked.there other number found
    rw [getElem?_relink, isOld]
    split
    · exact ⟨link, rfl⟩
    · exact ⟨old, rfl⟩
  apart := linked.apart
  closing other number reported := by
    obtain ⟨found, isClosed⟩ := linked.closing other number reported
    refine ⟨found, closed_relink isClosed ?_⟩
    rintro rfl
    rw [isClosed] at isAt
    cases isAt
  once := linked.once
  gone number isGone := by
    obtain ⟨⟨other, isClosed⟩, notThere⟩ := linked.gone number isGone
    refine ⟨⟨other, closed_relink isClosed ?_⟩, notThere⟩
    rintro rfl
    rw [isClosed] at isAt
    cases isAt

/-- A connection that is there is closed, and says so. -/
theorem Linked.close (linked : Linked Gone chan pending active made)
    (isAt : made[conn]? = some ⟨addr, .established⟩) (found : active.lookup addr = some conn) :
    Linked Gone (chan ++ [.closed addr conn]) pending active
      (made.modify conn fun entry => { entry with link := .closed }) where
  onTheirWay other number waits := by
    obtain ⟨old, isOld, notClosed⟩ := linked.onTheirWay other number waits
    rw [getElem?_relink, if_neg, isOld]
    · exact ⟨old, rfl, notClosed⟩
    · rintro rfl
      rw [isAt] at isOld
      cases isOld
      have both := linked.apart addr (Finmap.mem_of_lookup_eq_some waits)
      exact both (Finmap.mem_of_lookup_eq_some found)
  there other number isThere := by
    obtain ⟨old, isOld⟩ := linked.there other number isThere
    rw [getElem?_relink, isOld]
    split
    · exact ⟨.closed, rfl⟩
    · exact ⟨old, rfl⟩
  apart := linked.apart
  closing other number reported := by
    rcases List.mem_append.mp reported with earlier | now
    · obtain ⟨isThere, isClosed⟩ := linked.closing other number earlier
      exact ⟨isThere, closed_relink isClosed fun _ => rfl⟩
    · cases List.mem_singleton.mp now
      refine ⟨found, ?_⟩
      rw [getElem?_relink, if_pos rfl, isAt]
      rfl
  once := by
    rw [List.filterMap_append]
    refine List.Nodup.append linked.once (List.nodup_singleton (addr, conn)) ?_
    intro pair earlier now
    obtain rfl := List.mem_singleton.mp now
    obtain ⟨message, member, isClosing⟩ := List.mem_filterMap.mp earlier
    cases message with
    | closed other number =>
        cases isClosing
        obtain ⟨_, isClosed⟩ := linked.closing _ _ member
        rw [isAt] at isClosed
        cases isClosed
    | _ => cases isClosing
  gone number isGone := by
    obtain ⟨⟨other, isClosed⟩, notThere⟩ := linked.gone number isGone
    exact ⟨⟨other, closed_relink isClosed fun _ => rfl⟩, notThere⟩

/-- Other messages come in. -/
theorem Linked.append (linked : Linked Gone chan pending active made) {message : Message}
    (other : message.closing = none) : Linked Gone (chan ++ [message]) pending active made where
  onTheirWay := linked.onTheirWay
  there := linked.there
  apart := linked.apart
  closing addr conn reported := by
    rcases List.mem_append.mp reported with earlier | now
    · exact linked.closing addr conn earlier
    · rw [← List.mem_singleton.mp now] at other
      cases other
  once := by
    rw [List.filterMap_append]
    simpa [other] using linked.once
  gone := linked.gone

/-- A message that is taken off leaves the others linked. -/
theorem Linked.tail {message : Message}
    (linked : Linked Gone (message :: chan) pending active made) :
    Linked Gone chan pending active made where
  onTheirWay := linked.onTheirWay
  there := linked.there
  apart := linked.apart
  closing addr conn reported := linked.closing addr conn (List.mem_cons_of_mem _ reported)
  once := by
    have once := linked.once
    rw [List.filterMap_cons] at once
    split at once
    · exact once
    · exact once.of_cons
  gone := linked.gone

/-- A report is read: the connection it is about is the one that is taken out. -/
theorem Linked.read (linked : Linked Gone (.closed addr conn :: chan) pending active made) :
    Linked (fun number => Gone number ∨ number = conn) chan pending (active.erase addr) made where
  onTheirWay := linked.onTheirWay
  there other number found := by
    rw [Map.lookup_erase_eq] at found
    split at found
    · cases found
    · exact linked.there other number found
  apart other waits isThere := by
    have before := linked.apart other waits
    exact before (Finmap.mem_erase.mp isThere).2
  closing other number reported := by
    obtain ⟨found, isClosed⟩ := linked.closing other number (List.mem_cons_of_mem _ reported)
    refine ⟨?_, isClosed⟩
    rw [Map.lookup_erase_eq, if_neg, found]
    rintro rfl
    -- two reports about one connection
    obtain ⟨same, _⟩ := linked.closing other conn List.mem_cons_self
    obtain rfl := Option.some.inj (same.symm.trans found)
    have twice := (List.nodup_cons.mp linked.once).1
    exact twice (List.mem_filterMap.mpr ⟨_, reported, rfl⟩)
  once := linked.tail.once
  gone number isGone := by
    have erased : ∀ other, (active.erase addr).lookup other = some number →
        active.lookup other = some number ∧ other ≠ addr := by
      intro other found
      rw [Map.lookup_erase_eq] at found
      split at found
      · cases found
      · rename_i different
        exact ⟨found, different⟩
    rcases isGone with earlier | rfl
    · obtain ⟨isClosed, notThere⟩ := linked.gone number earlier
      exact ⟨isClosed, fun other found => notThere other (erased other found).1⟩
    · obtain ⟨_, isClosed⟩ := linked.closing addr number List.mem_cons_self
      refine ⟨⟨addr, isClosed⟩, fun other found => ?_⟩
      obtain ⟨before, different⟩ := erased other found
      obtain ⟨link, isMade⟩ := linked.there other number before
      rw [isClosed] at isMade
      cases isMade
      exact different rfl

/-- A connection is made. -/
theorem Linked.connect (linked : Linked Gone chan pending active made) (free : addr ∉ active) :
    Linked Gone chan (pending.insert addr made.length) active (made ++ [⟨addr, .connecting⟩]) where
  onTheirWay other number found := by
    rw [Map.lookup_insert_eq] at found
    split at found
    · rename_i same
      subst same
      obtain rfl := Option.some.inj found
      exact ⟨.connecting, by simp, by simp⟩
    · obtain ⟨link, isMade, notClosed⟩ := linked.onTheirWay other number found
      exact ⟨link, getElem?_snoc isMade _, notClosed⟩
  there other number found := by
    obtain ⟨link, isMade⟩ := linked.there other number found
    exact ⟨link, getElem?_snoc isMade _⟩
  apart other waits := by
    rcases Finmap.mem_insert.mp waits with rfl | before
    · exact free
    · exact linked.apart other before
  closing other number reported := by
    obtain ⟨found, isClosed⟩ := linked.closing other number reported
    exact ⟨found, getElem?_snoc isClosed _⟩
  once := linked.once
  gone number isGone := by
    obtain ⟨⟨other, isClosed⟩, notThere⟩ := linked.gone number isGone
    exact ⟨⟨other, getElem?_snoc isClosed _⟩, notThere⟩

/-- A connection that was waited for is there, or is not. -/
theorem Linked.forget (linked : Linked Gone chan pending active made) :
    Linked Gone chan (pending.erase addr) active made where
  onTheirWay other number found := by
    rw [Map.lookup_erase_eq] at found
    split at found
    · cases found
    · exact linked.onTheirWay other number found
  there := linked.there
  apart other waits := linked.apart other (Finmap.mem_erase.mp waits).2
  closing := linked.closing
  once := linked.once
  gone := linked.gone

/-- A connection that is waited for becomes active. -/
theorem Linked.take (linked : Linked Gone chan pending active made)
    (waits : pending.lookup addr = some conn) :
    Linked Gone chan (pending.erase addr) (active.insert addr conn) made where
  onTheirWay := linked.forget.onTheirWay
  there other number found := by
    rw [Map.lookup_insert_eq] at found
    split at found
    · rename_i same
      subst same
      obtain rfl := Option.some.inj found
      obtain ⟨link, isMade, _⟩ := linked.onTheirWay other conn waits
      exact ⟨link, isMade⟩
    · exact linked.there other number found
  apart other still isThere := by
    obtain ⟨different, before⟩ := Finmap.mem_erase.mp still
    rcases Finmap.mem_insert.mp isThere with same | earlier
    · exact different same
    · exact linked.apart other before earlier
  closing other number reported := by
    obtain ⟨found, isClosed⟩ := linked.closing other number reported
    refine ⟨?_, isClosed⟩
    rw [Map.lookup_insert_eq, if_neg, found]
    rintro rfl
    have both := linked.apart other (Finmap.mem_of_lookup_eq_some waits)
    exact both (Finmap.mem_of_lookup_eq_some found)
  once := linked.once
  gone number isGone := by
    obtain ⟨⟨there, isClosed⟩, notThere⟩ := linked.gone number isGone
    refine ⟨⟨there, isClosed⟩, fun other found => ?_⟩
    rw [Map.lookup_insert_eq] at found
    split at found
    · obtain rfl := Option.some.inj found
      obtain ⟨link, isMade, notClosed⟩ := linked.onTheirWay addr conn waits
      rw [isClosed] at isMade
      cases isMade
      exact notClosed rfl
    · exact notThere other found

end Linked

/-- Fewer connections that are gone are enough. -/
theorem Linked.mono {Gone Fewer : Nat → Prop} {chan : List Message}
    {pending active : Map SocketAddr Nat} {made : List Made}
    (linked : Linked Gone chan pending active made) (fewer : ∀ conn, Fewer conn → Gone conn) :
    Linked Fewer chan pending active made :=
  { linked with gone := fun conn isGone => linked.gone conn (fewer conn isGone) }

namespace ConnectionSet

variable {Gone : Nat → Prop} {env : Env} {set next : ConnectionSet}

/-- Connecting keeps the links. -/
theorem Linked.connects (linked : set.Linked Gone) (connects : Connects set next) :
    next.Linked Gone := by
  induction connects with
  | refl => exact linked
  | lookUp names _ ih => exact ih
  | connect free _ ih =>
      unfold connect
      split
      · exact ih
      · exact Cluster.Linked.connect ih free

/-- Settling an address keeps the links. -/
theorem Linked.settle (linked : set.Linked Gone) (addr : SocketAddr) :
    (set.settle addr).Linked Gone := by
  unfold ConnectionSet.settle
  split
  · exact linked
  · rename_i conn waits
    split
    · exact Cluster.Linked.take linked waits
    · exact Cluster.Linked.take linked waits
    · exact Cluster.Linked.forget linked
    · exact linked
    · exact linked

theorem Linked.resolve (linked : set.Linked Gone) (config : Config) (answer : Name × Lookup) :
    (set.resolve config answer).Linked Gone := by
  unfold ConnectionSet.resolve
  split <;> exact linked

/-- Looking at what is pending keeps the links. -/
theorem Linked.pollPending (linked : set.Linked Gone) (config : Config) (order : List SocketAddr)
    (names : List (Name × Lookup)) : (set.pollPending config order names).Linked Gone := by
  have settled : (order.foldl ConnectionSet.settle set).Linked Gone :=
    List.foldlRecOn (motive := fun set : ConnectionSet => set.Linked Gone) order _ linked
      fun set holds addr _ => holds.settle addr
  exact List.foldlRecOn (motive := fun set : ConnectionSet => set.Linked Gone) names _ settled
    fun set holds answer _ => holds.resolve config answer

/-- The first message is read. -/
theorem Linked.handle {message : Message}
    (linked : Cluster.Linked Gone (message :: set.chan) set.pending set.active set.made)
    {config : Config} (handled : set.handle config message = .ok next) :
    next.Linked fun conn => Gone conn ∨ ∃ addr, message.closing = some (addr, conn) := by
  cases message with
  | closed addr conn =>
      simp only [ConnectionSet.handle] at handled
      split at handled
      · obtain rfl := Except.ok.inj handled
        refine Cluster.Linked.mono (Cluster.Linked.read linked) ?_
        rintro number (earlier | ⟨other, same⟩)
        · exact .inl earlier
        · exact .inr (Prod.mk.inj (Option.some.inj same)).2.symm
      · cases handled
  | notification addr note =>
      have rest : set.Linked fun conn =>
          Gone conn ∨ ∃ addr, Message.closing (.notification addr note) = some (addr, conn) :=
        linked.tail.mono (by simp [Message.closing])
      cases note with
      | _ =>
          obtain rfl := Except.ok.inj handled
          exact rest
  | _ =>
      obtain rfl := Except.ok.inj handled
      exact linked.tail.mono (by simp [Message.closing])

/-- The connection a report is about is there to be taken out. -/
theorem Linked.handle_ne_error {message : Message} {rest : List Message}
    (linked : Cluster.Linked Gone (message :: rest) set.pending set.active set.made)
    (config : Config) (panic : Panic) :
    { set with chan := rest }.handle config message ≠ .error panic := by
  intro panics
  cases message with
  | closed addr conn =>
      obtain ⟨found, _⟩ := linked.closing addr conn List.mem_cons_self
      have isThere : addr ∈ set.active := Finmap.mem_of_lookup_eq_some found
      simp only [ConnectionSet.handle, isThere, if_true] at panics
      cases panics
  | notification addr note => cases note <;> cases panics
  | _ => cases panics

/-- A connection reports to the channel under its address. -/
theorem report_eq {conn : Nat} {entry : Made} (isMade : set.made[conn]? = some entry)
    (message : SocketAddr → Message) :
    set.report conn message = { set with chan := set.chan ++ [message entry.addr] } := by
  simp [report, isMade]

theorem exists_of_isAt {conn : Nat} {link : Link} (isAt : set.IsAt conn link) :
    ∃ addr, set.made[conn]? = some ⟨addr, link⟩ := by
  obtain ⟨⟨addr, _⟩, isMade, rfl⟩ := Option.map_eq_some_iff.mp isAt
  exact ⟨addr, isMade⟩

end ConnectionSet

/-- The connection a step closes. -/
def Op.closes : Op → Option Nat
  | closed conn => some conn
  | _ => none

/-- A connection is closed only after the set has it. -/
def ClosesTaken (set : ConnectionSet) (op : Op) : Prop :=
  ∀ conn ∈ op.closes, ∃ addr ∈ set.active.keys, set.active.lookup addr = some conn

instance (set : ConnectionSet) (op : Op) : Decidable (ClosesTaken set op) :=
  inferInstanceAs (Decidable (∀ conn ∈ op.closes, _))

/-- What one step keeps. -/
theorem linked_step {env : Env} {Gone : Nat → Prop} {set next : ConnectionSet} {op : Op}
    {answer : Run (List Resolution)} (step : SetStep env set op answer next)
    (timely : ClosesTaken set op) (linked : set.Linked Gone) :
    next.Linked fun conn => Gone conn ∨ ∃ addr, set.reads op = some (.closed addr conn) := by
  -- only a report that is read adds to what is gone
  have quiet : ∀ after : ConnectionSet, op ≠ .readMessage → after.Linked Gone →
      after.Linked fun conn => Gone conn ∨ ∃ addr, set.reads op = some (.closed addr conn) := by
    intro after other holds
    refine Cluster.Linked.mono holds ?_
    rintro conn (earlier | ⟨addr, isRead⟩)
    · exact earlier
    · exact absurd (ConnectionSet.reads_eq_some.mp isRead).1 other
  cases step with
  | established isAt => exact quiet _ (by simp) (Cluster.Linked.relink linked isAt (by simp))
  | refused isAt => exact quiet _ (by simp) (Cluster.Linked.relink linked isAt (by simp))
  | @closed conn isAt =>
      obtain ⟨addr, isMade⟩ := ConnectionSet.exists_of_isAt isAt
      obtain ⟨other, _, found⟩ := timely conn rfl
      obtain ⟨link, same⟩ := linked.there other conn found
      rw [isMade] at same
      cases same
      have relinked : (set.setLink conn .closed).made[conn]? = some ⟨addr, .closed⟩ := by
        rw [ConnectionSet.setLink, getElem?_relink, if_pos rfl, isMade]
        rfl
      rw [ConnectionSet.report_eq relinked]
      exact quiet _ (by simp) (Cluster.Linked.close linked isMade found)
  | notify isAt =>
      obtain ⟨addr, isMade⟩ := ConnectionSet.exists_of_isAt isAt
      rw [ConnectionSet.report_eq isMade]
      exact quiet _ (by simp) (Cluster.Linked.append linked rfl)
  | @send message asked =>
      have other : message.closing = none := by
        cases message with
        | closed addr conn => exact asked.elim
        | _ => rfl
      exact quiet _ (by simp) (Cluster.Linked.append linked other)
  | tick => exact quiet _ (by simp) linked
  | poll => exact quiet _ (by simp) linked
  | readNothing reading nothing =>
      refine Cluster.Linked.mono linked ?_
      rintro conn (earlier | ⟨addr, isRead⟩)
      · exact earlier
      · obtain ⟨_, _, rest, isNext⟩ := ConnectionSet.reads_eq_some.mp isRead
        rw [nothing] at isNext
        cases isNext
  | @read message rest next reading isNext handled =>
      unfold ConnectionSet.Linked at linked
      rw [isNext] at linked
      refine Cluster.Linked.mono (ConnectionSet.Linked.handle linked handled) ?_
      rintro conn (earlier | ⟨addr, isRead⟩)
      · exact .inl earlier
      · obtain ⟨_, _, others, isReport⟩ := ConnectionSet.reads_eq_some.mp isRead
        rw [isNext] at isReport
        cases isReport
        exact .inr ⟨addr, rfl⟩
  | readPanicked reading isNext panics =>
      unfold ConnectionSet.Linked at linked
      rw [isNext] at linked
      exact absurd panics (ConnectionSet.Linked.handle_ne_error linked env.config _)
  | panicked later => exact quiet _ later linked
  | pollRetry => exact quiet _ (by simp) linked
  | pollConnect _ connected =>
      have connects := ConnectionSet.connects_pollConnect connected
      have after := ConnectionSet.Linked.connects linked connects
      exact quiet _ (by simp) after
  | pollPending =>
      exact quiet _ (by simp) (ConnectionSet.Linked.pollPending linked _ _ _)
  | wakeupUploads => exact quiet _ (by simp) linked
  | wakeupFetches => exact quiet _ (by simp) linked
  | pollUploads => exact quiet _ (by simp) linked
  | pollFetches => exact quiet _ (by simp) linked

/-- Nothing is linked at first. -/
theorem linked_spawn (names : List Name) (Gone : Nat → Prop) (nothing : ∀ conn, ¬ Gone conn) :
    (ConnectionSet.spawn names).Linked Gone where
  onTheirWay _ _ found := by simp [ConnectionSet.spawn] at found
  there _ _ found := by simp [ConnectionSet.spawn] at found
  apart _ waits := absurd waits Finmap.notMem_empty
  closing _ _ reported := by simp [ConnectionSet.spawn] at reported
  once := List.nodup_nil
  gone conn isGone := absurd isGone (nothing conn)

/-- What every run in which connections are closed only after the set has them keeps. -/
theorem linked_run {env : Env} {names : List Name} {trace : List SetEvent} {set : ConnectionSet}
    (steps : (ConnectionSet.machine env).Steps (.spawn names) trace set)
    (timely : ∀ taken ∈ trace, ClosesTaken taken.before taken.op) :
    set.Linked fun conn =>
      ∃ taken ∈ trace, ∃ addr, taken.before.reads taken.op = some (.closed addr conn) := by
  refine steps.preserves_history
    (fun trace set => set.Linked fun conn =>
      ∃ taken ∈ trace, ∃ addr, taken.before.reads taken.op = some (.closed addr conn))
    (fun taken => ClosesTaken taken.before taken.op) ?_ timely (linked_spawn names _ (by simp))
  intro history taken takes timely linked
  refine Cluster.Linked.mono
    (linked_step (ConnectionSet.step_of_takes takes) timely linked) ?_
  rintro conn ⟨earlier, member, addr, handles⟩
  rcases List.mem_append.mp member with old | new
  · exact .inl ⟨earlier, old, addr, handles⟩
  · obtain rfl := List.mem_singleton.mp new
    exact .inr ⟨addr, handles⟩

/-- A report that is read is about a connection that is there. -/
theorem handled_of_linked {env : Env} {Gone : Nat → Prop} {set next : ConnectionSet} {op : Op}
    {answer : Run (List Resolution)} (step : SetStep env set op answer next)
    (linked : set.Linked Gone) {addr : SocketAddr} {conn : Nat}
    (handles : set.reads op = some (.closed addr conn)) : addr ∈ set.active ∧ answer = .ok [] := by
  obtain ⟨rfl, reading, others, isReport⟩ := ConnectionSet.reads_eq_some.mp handles
  unfold ConnectionSet.Linked at linked
  rw [isReport] at linked
  refine ⟨Finmap.mem_of_lookup_eq_some (linked.closing addr conn List.mem_cons_self).1, ?_⟩
  cases step with
  | readNothing => rfl
  | read => rfl
  | readPanicked _ isNext panics =>
      rw [isReport] at isNext
      cases isNext
      exact absurd panics (ConnectionSet.Linked.handle_ne_error linked env.config _)
  | panicked later => exact absurd rfl later

/-- If connections are closed only after the set has taken them, then every report that a
connection is closed is read while the connection is there, and the connection is never
there again. -/
theorem closes_handled (env : Env) (names : List Name) {trace : List SetEvent}
    {set : ConnectionSet} (steps : (ConnectionSet.machine env).Steps (.spawn names) trace set)
    (timely : ∀ taken ∈ trace, ClosesTaken taken.before taken.op) :
    ∀ taken ∈ trace, ∀ addr conn, taken.before.reads taken.op = some (.closed addr conn) →
      (addr ∈ taken.before.active ∧ taken.answer = .ok []) ∧
        ∀ other, set.active.lookup other ≠ some conn := by
  intro taken member addr conn handles
  constructor
  · obtain ⟨_, states⟩ := steps.preserves (fun set => set.Linked fun _ => False)
      (fun taken => ClosesTaken taken.before taken.op)
      (fun taken (takes : (ConnectionSet.machine env).Takes taken) timely linked =>
        Cluster.Linked.mono (linked_step (ConnectionSet.step_of_takes takes) timely linked)
          (by simp))
      timely (linked_spawn names _ (by simp))
    exact handled_of_linked (ConnectionSet.step_of_takes (steps.takes_of_mem member))
      (states taken member).1 handles
  · exact ((linked_run steps timely).gone conn ⟨taken, member, addr, handles⟩).2

/-- A connection that the set has taken is closed, and the report about it is read. -/
theorem closes_handled_of_taken :
    ((Sample.trace (Sample.env 3) Sample.closing).filterMap fun taken =>
      (taken.before.reads taken.op).bind Message.closing) = [(Sample.server, 0)] ∧
    ∀ taken ∈ Sample.trace (Sample.env 3) Sample.closing, ∀ addr conn,
      taken.before.reads taken.op = some (.closed addr conn) →
        (addr ∈ taken.before.active ∧ taken.answer = .ok []) ∧
          ∀ other, (Sample.result (Sample.env 3) Sample.closing).active.lookup other ≠ some conn :=
  ⟨by decide, closes_handled _ _ (Sample.steps _ _) (by decide)⟩

/-- A connection that was never taken is reported closed, and the poll panics. -/
theorem duplicate_close :
    ¬ ∀ env names (trace : List SetEvent) set,
      (ConnectionSet.machine env).Steps (.spawn names) trace set →
      ∀ taken ∈ trace, ∀ addr conn, taken.before.reads taken.op = some (.closed addr conn) →
        (addr ∈ taken.before.active ∧ taken.answer = .ok []) ∧
          ∀ other, set.active.lookup other ≠ some conn := by
  intro handled
  have flaps : ∃ taken ∈ Sample.trace (Sample.env 3) Sample.flapping,
      (taken.before.reads taken.op).bind Message.closing = some (Sample.server, 0) ∧
        Sample.server ∉ taken.before.active := by
    decide
  obtain ⟨taken, member, isClosing, missing⟩ := flaps
  obtain ⟨message, isRead, isClosing⟩ := Option.bind_eq_some_iff.mp isClosing
  obtain rfl := Message.closing_eq_some.mp isClosing
  exact missing (handled _ _ _ _ (Sample.steps _ _) taken member _ _ isRead).1.1

end Ciruela.Cluster
