import Mathlib.Data.List.Perm.Basic
import Ciruela.Daemon.Tracking.FetchIndex

/-!
# The producers of indexes

An index that is asked for is produced by a read of its file, and by a fetcher where that
fails. While one is at work the registry has an entry in progress for its image, and the
gauge `FETCHING` counts these entries. `Effect` says what every step does to the three;
the invariants follow from it.
-/

namespace Ciruela

open Foundation

namespace FetchIndex

namespace Indexes

variable (indexes : Indexes)

/-- The images an index is being produced for: the reads and then the fetchers. -/
def producers : List ImageId :=
  indexes.readers.map Reader.id ++ indexes.fetchers.map FetchBase.id

/-- The registry has an entry in progress for the image. -/
def InProgressAt (id : ImageId) : Prop := ∃ inp, indexes.registry.lookup id = some (.inProgress inp)

instance (id : ImageId) : Decidable (indexes.InProgressAt id) :=
  match found : indexes.registry.lookup id with
  | some (.inProgress inp) => isTrue ⟨inp, found⟩
  | some (.done handle) => isFalse fun ⟨_, other⟩ => by rw [found] at other; cases other
  | none => isFalse fun ⟨_, other⟩ => by rw [found] at other; cases other

/-- The images with an entry in progress. -/
def inProgress : Finset ImageId := indexes.registry.keys.filter fun id => indexes.InProgressAt id

end Indexes

/-- What a step does to the producers, to the entries in progress and to the gauge. -/
inductive Effect (event : Event) : Prop where
  | same (producers : event.after.producers.Perm event.before.producers)
      (entries : ∀ id, event.after.InProgressAt id ↔ event.before.InProgressAt id)
      (gauge : event.after.fetching = event.before.fetching) (calm : event.answer ≠ .unreachable)
  /-- A producer begins. -/
  | began (id : ImageId) (fresh : ¬ event.before.InProgressAt id)
      (producers : event.after.producers.Perm (id :: event.before.producers))
      (entries : ∀ other, event.after.InProgressAt other ↔
        other = id ∨ event.before.InProgressAt other)
      (gauge : event.after.fetching = event.before.fetching + 1) (calm : event.answer ≠ .unreachable)
  /-- A fetcher ends, with an index or at its deadline. -/
  | ended (id : ImageId) (producers : event.before.producers.Perm (id :: event.after.producers))
      (entries : ∀ other, event.after.InProgressAt other ↔
        other ≠ id ∧ event.before.InProgressAt other)
      (gauge : event.after.fetching = event.before.fetching - 1) (calm : event.answer ≠ .unreachable)
  /-- A read ends with an index. -/
  | found (position : Nat) (reader : Reader) (index : IndexData × List UInt8)
      (isRead : event.op = .finishRead position)
      (isReader : event.before.readers[position]? = some reader)
      (result : reader.result = some (.ok index))
      (producers : event.before.producers.Perm (reader.id :: event.after.producers))
      (entries : ∀ id, event.after.InProgressAt id ↔ event.before.InProgressAt id)
      (gauge : event.after.fetching = event.before.fetching) (calm : event.answer ≠ .unreachable)
  /-- The entry of a handle that went away is removed. -/
  | dropped (handle : Nat) (inner : Inner) (isDrop : event.op = .drop handle)
      (isInner : event.before.inners[handle]? = some inner)
      (producers : event.after.producers = event.before.producers)
      (entries : ∀ other, event.after.InProgressAt other ↔
        other ≠ inner.data.id ∧ event.before.InProgressAt other)
      (gauge : event.after.fetching = event.before.fetching) (calm : event.answer ≠ .unreachable)
  /-- A fetcher finds no entry in progress. -/
  | lost (base : FetchBase) (isBase : base ∈ event.before.fetchers)
      (none : ¬ event.before.InProgressAt base.id)

section Effects

variable {parser : Parser} {indexes after : Indexes}

/-- The entries in progress after one entry is put in. -/
theorem inProgressAt_insert {id : ImageId} {inp : InProgress}
    (changed : after.registry = indexes.registry.insert id (.inProgress inp)) (other : ImageId) :
    after.InProgressAt other ↔ other = id ∨ indexes.InProgressAt other := by
  unfold Indexes.InProgressAt
  rw [changed, Map.lookup_insert_eq]
  by_cases same : other = id
  · simp [same]
  · simp [same]

/-- What is in progress after an index is there. -/
theorem inProgressAt_insert_done {id : ImageId} {handle : Nat}
    (changed : after.registry = indexes.registry.insert id (.done handle)) (other : ImageId) :
    after.InProgressAt other ↔ other ≠ id ∧ indexes.InProgressAt other := by
  unfold Indexes.InProgressAt
  rw [changed, Map.lookup_insert_eq]
  by_cases same : other = id
  · simp [same]
  · simp [same]

/-- What is in progress after an entry is forgotten. -/
theorem inProgressAt_erase {id : ImageId} (changed : after.registry = indexes.registry.erase id)
    (other : ImageId) :
    after.InProgressAt other ↔ other ≠ id ∧ indexes.InProgressAt other := by
  unfold Indexes.InProgressAt
  rw [changed, Map.lookup_erase_eq]
  by_cases same : other = id
  · simp [same]
  · simp [same]

/-- Taking one item out of a list. -/
theorem perm_map_eraseIdx {Item Value : Type} (value : Item → Value) {items : List Item}
    {position : Nat} {item : Item} (found : items[position]? = some item) :
    (items.map value).Perm (value item :: (items.eraseIdx position).map value) := by
  obtain ⟨inside, isItem⟩ := List.getElem?_eq_some_iff.mp found
  have taken := (List.getElem_cons_eraseIdx_perm inside).symm.map value
  rwa [isItem, List.map_cons] at taken

/-- Changing an item where `value` does not look. -/
theorem map_set_of_eq {Item Value : Type} (value : Item → Value) {items : List Item}
    {position : Nat} {item : Item} (found : items[position]? = some item) (changed : Item)
    (same : value changed = value item) : (items.set position changed).map value = items.map value := by
  apply List.ext_getElem?
  intro index
  rw [List.getElem?_map, List.getElem?_map, List.getElem?_set]
  split
  · rename_i here
    subst here
    split
    · simp [found, same]
    · simp_all
  · rfl

/-- A fetcher ends: one producer less, and its entry is not in progress any more. -/
theorem Effect.fetched {op : Op} {position : Nat} {base : FetchBase}
    (isBase : indexes.fetchers[position]? = some base)
    (readers : after.readers = indexes.readers)
    (fetchers : after.fetchers = indexes.fetchers.eraseIdx position)
    (entries : ∀ other, after.InProgressAt other ↔ other ≠ base.id ∧ indexes.InProgressAt other)
    (gauge : after.fetching = indexes.fetching - 1) : Effect ⟨indexes, op, .nothing, after⟩ := by
  refine .ended base.id ?_ entries gauge (by simp)
  show (indexes.producers).Perm (base.id :: after.producers)
  rw [Indexes.producers, Indexes.producers, readers, fetchers]
  have taken := perm_map_eraseIdx FetchBase.id isBase
  exact (taken.append_left _).trans List.perm_middle

/-- What a step does to the producers. -/
theorem effect_of_takes {event : Event} (takes : (machine parser).Takes event) : Effect event := by
  obtain ⟨before, op, answer, after⟩ := event
  have turn : Turn parser before op answer after := turn_of_takes takes
  -- an entry that was in progress stays so
  have again {id : ImageId} {inp old : InProgress} {next : Indexes}
      (changed : next.registry = before.registry.insert id (.inProgress inp))
      (isInProgress : before.registry.lookup id = some (.inProgress old)) (other : ImageId) :
      next.InProgressAt other ↔ before.InProgressAt other := by
    rw [inProgressAt_insert changed, or_iff_right_iff_imp]
    rintro rfl
    exact ⟨old, isInProgress⟩
  cases turn with
  | got => exact .same .rfl (fun _ => Iff.rfl) rfl (by simp)
  | spawned fresh =>
      rename_i vpath id
      refine .began id ?_ ?_ (fun other => inProgressAt_insert rfl other) rfl (by simp)
      · rintro ⟨inp, found⟩
        exact fresh inp found
      · show (List.map Reader.id (before.readers ++ [_]) ++ _).Perm (id :: before.producers)
        rw [Indexes.producers, List.map_append, List.append_assoc]
        exact List.perm_middle
  | joined isInProgress => exact .same .rfl (again rfl isInProgress) rfl (by simp)
  | read isReader =>
      rename_i reader result store ran
      refine .same (.of_eq ?_) (fun _ => Iff.rfl) rfl (by simp)
      simp only [Indexes.producers]
      rw [map_set_of_eq Reader.id isReader { reader with result := some result } rfl]
  | found isReader isResult =>
      have taken := (perm_map_eraseIdx Reader.id isReader).append_right
        (before.fetchers.map FetchBase.id)
      exact .found _ _ _ rfl isReader isResult taken (fun _ => Iff.rfl) rfl (by simp)
  | missed isReader =>
      have taken := (perm_map_eraseIdx Reader.id isReader).append_right
        (before.fetchers.map FetchBase.id)
      refine .same ?_ (fun _ => Iff.rfl) rfl (by simp)
      -- the producer has become a fetcher
      show (_ ++ List.map FetchBase.id (before.fetchers ++ [_])).Perm before.producers
      rw [List.map_append, ← List.append_assoc]
      exact (List.perm_append_singleton _ _).trans taken.symm
  | fetched isBase =>
      exact .fetched isBase rfl rfl (fun other => inProgressAt_insert_done rfl other) rfl
  | expired isBase => exact .fetched isBase rfl rfl (fun other => inProgressAt_erase rfl other) rfl
  | waited isBase isInProgress =>
      rename_i base old inp state
      refine .same (.of_eq ?_) (again rfl isInProgress) rfl (by simp)
      simp only [Indexes.producers]
      rw [map_set_of_eq FetchBase.id isBase { base with state := state } rfl]
  | lost isBase none =>
      refine .lost _ (List.mem_of_getElem? isBase) ?_
      rintro ⟨inp, found⟩
      exact none inp found
  | stored => exact .same .rfl (fun _ => Iff.rfl) rfl (by simp)
  | resolved => exact .same .rfl (fun _ => Iff.rfl) rfl (by simp)
  | released => exact .same .rfl (fun _ => Iff.rfl) rfl (by simp)
  | dropped isInner =>
      exact .dropped _ _ rfl isInner rfl (fun other => inProgressAt_erase rfl other) rfl (by simp)
  | removed => exact .same .rfl (fun _ => Iff.rfl) rfl (by simp)

end Effects

section OneProducer

/-- Nothing is being produced for the image of a handle when its handler gets the lock. -/
def DropsUnneeded (event : Event) : Prop :=
  ∀ handle inner, event.op = .drop handle → event.before.inners[handle]? = some inner →
    inner.data.id ∉ event.before.producers

/-- No image has two producers, and each of them has an entry in progress. -/
structure Accounted (indexes : Indexes) : Prop where
  nodup : indexes.producers.Nodup
  entries : ∀ id ∈ indexes.producers, indexes.InProgressAt id

variable {parser : Parser} {event : Event}

/-- Every index in progress has its producer at first. -/
theorem Accounted.new (store : Metadata.Meta) : Accounted (Indexes.new store) :=
  ⟨List.nodup_nil, fun _ member => absurd member List.not_mem_nil⟩

/-- A step that drops nothing needed keeps a producer for each index, and does not panic. -/
theorem Accounted.step (accounted : Accounted event.before) (unneeded : DropsUnneeded event)
    (takes : (machine parser).Takes event) :
    Accounted event.after ∧ event.answer ≠ .unreachable := by
  cases effect_of_takes takes with
  | same producers entries _ calm =>
      refine ⟨⟨producers.nodup_iff.mpr accounted.nodup, fun id member => ?_⟩, calm⟩
      exact (entries id).mpr (accounted.entries id (producers.mem_iff.mp member))
  | began id fresh producers entries _ calm =>
      refine ⟨⟨producers.nodup_iff.mpr (List.nodup_cons.mpr ⟨?_, accounted.nodup⟩), ?_⟩, calm⟩
      · exact fun member => fresh (accounted.entries id member)
      · intro other member
        rw [entries other]
        rcases List.mem_cons.mp (producers.mem_iff.mp member) with same | old
        · exact Or.inl same
        · exact Or.inr (accounted.entries other old)
  | ended id producers entries _ calm =>
      obtain ⟨notOther, nodup⟩ := List.nodup_cons.mp (producers.nodup_iff.mp accounted.nodup)
      refine ⟨⟨nodup, fun other member => (entries other).mpr ⟨?_, ?_⟩⟩, calm⟩
      · exact fun same => notOther (same ▸ member)
      · exact accounted.entries other (producers.mem_iff.mpr (List.mem_cons_of_mem _ member))
  | found position reader index isRead isReader result producers entries _ calm =>
      have nodup := (List.nodup_cons.mp (producers.nodup_iff.mp accounted.nodup)).2
      refine ⟨⟨nodup, fun id member => (entries id).mpr ?_⟩, calm⟩
      exact accounted.entries id (producers.mem_iff.mpr (List.mem_cons_of_mem _ member))
  | dropped handle inner isDrop isInner producers entries _ calm =>
      refine ⟨⟨producers ▸ accounted.nodup, fun id member => (entries id).mpr ⟨?_, ?_⟩⟩, calm⟩
      · rintro rfl
        exact unneeded handle inner isDrop isInner (producers ▸ member)
      · exact accounted.entries id (producers ▸ member)
  | lost base isBase none =>
      have member : base.id ∈ event.before.producers :=
        List.mem_append_right _ (List.mem_map_of_mem isBase)
      exact absurd (accounted.entries base.id member) none

/-- Where no handler of a handle gets the lock while a producer of its image is at work,
every fetcher finds its entry, and no image has two producers. -/
theorem one_producer (store : Metadata.Meta) {trace : List Event} {finish : Indexes}
    (steps : (machine parser).Steps (Indexes.new store) trace finish)
    (unneeded : ∀ event ∈ trace, DropsUnneeded event) :
    finish.producers.Nodup ∧
      ∀ event ∈ trace, event.answer ≠ .unreachable ∧ event.before.producers.Nodup := by
  have kept := steps.preserves Accounted DropsUnneeded
    (fun _ takes allowed accounted => (accounted.step allowed takes).1) unneeded (.new store)
  refine ⟨kept.1.nodup, fun event member => ?_⟩
  have accounted := (kept.2 event member).1
  exact ⟨(accounted.step (unneeded event member) (steps.takes_of_mem member)).2, accounted.nodup⟩

end OneProducer

section Entries

/-- No index comes from a file, and no handler of a handle removes an entry in progress. -/
structure Uncached (event : Event) : Prop where
  reads : ∀ position reader, event.op = .finishRead position →
    event.before.readers[position]? = some reader → ∀ index, reader.result ≠ some (.ok index)
  drops : ∀ handle inner, event.op = .drop handle → event.before.inners[handle]? = some inner →
    ¬ event.before.InProgressAt inner.data.id

/-- The entries in progress are those of the producers, and the gauge counts them. -/
structure Exact (indexes : Indexes) : Prop where
  nodup : indexes.producers.Nodup
  entries : ∀ id, indexes.InProgressAt id ↔ id ∈ indexes.producers
  gauge : indexes.fetching = indexes.producers.length

variable {parser : Parser} {event : Event} {indexes after : Indexes}

/-- The registry is exact at first. -/
theorem Exact.new (store : Metadata.Meta) : Exact (Indexes.new store) where
  nodup := List.nodup_nil
  entries id := by simp [Indexes.InProgressAt, Indexes.producers, Indexes.new]
  gauge := rfl

/-- An exact registry has its producers. -/
theorem Exact.accounted (exact : Exact indexes) : Accounted indexes :=
  ⟨exact.nodup, fun id => (exact.entries id).mpr⟩

/-- A handler that removes no entry in progress is not needed by a producer. -/
theorem Uncached.dropsUnneeded (uncached : Uncached event) (exact : Exact event.before) :
    DropsUnneeded event := by
  intro handle inner isDrop isInner member
  exact uncached.drops handle inner isDrop isInner ((exact.entries _).mpr member)

/-- A step without a cached index keeps the registry exact. -/
theorem Exact.step (exact : Exact event.before) (uncached : Uncached event)
    (takes : (machine parser).Takes event) : Exact event.after := by
  have nodup := (exact.accounted.step (uncached.dropsUnneeded exact) takes).1.nodup
  cases effect_of_takes takes with
  | same producers entries gauge =>
      refine ⟨nodup, fun id => ?_, ?_⟩
      · rw [entries, exact.entries, producers.mem_iff]
      · rw [gauge, exact.gauge, producers.length_eq]
  | began id fresh producers entries gauge =>
      refine ⟨nodup, fun other => ?_, ?_⟩
      · rw [entries, exact.entries, producers.mem_iff, List.mem_cons]
      · rw [gauge, exact.gauge, producers.length_eq, List.length_cons]
        omega
  | ended id producers entries gauge =>
      have others := (List.nodup_cons.mp (producers.nodup_iff.mp exact.nodup)).1
      refine ⟨nodup, fun other => ?_, ?_⟩
      · rw [entries, exact.entries, producers.mem_iff, List.mem_cons]
        constructor
        · rintro ⟨different, same | member⟩
          · exact absurd same different
          · exact member
        · exact fun member => ⟨fun same => others (same ▸ member), Or.inr member⟩
      · rw [gauge, exact.gauge, producers.length_eq, List.length_cons]
        omega
  | found position reader index isRead isReader result =>
      exact absurd result (uncached.reads position reader isRead isReader index)
  | dropped handle inner isDrop isInner producers entries gauge =>
      refine ⟨nodup, fun id => ?_, ?_⟩
      · rw [entries, exact.entries, producers, and_iff_right_iff_imp]
        rintro member rfl
        exact uncached.dropsUnneeded exact handle inner isDrop isInner member
      · rw [gauge, exact.gauge, producers]
  | lost base isBase none =>
      refine absurd ((exact.entries base.id).mpr ?_) none
      exact List.mem_append_right _ (List.mem_map_of_mem isBase)

/-- The number of entries in progress. -/
theorem Exact.card_inProgress (exact : Exact indexes) :
    (indexes.inProgress.card : Int) = indexes.fetching := by
  have same : indexes.inProgress = indexes.producers.toFinset := by
    ext id
    rw [Indexes.inProgress, Finset.mem_filter, List.mem_toFinset, ← exact.entries id,
      and_iff_right_iff_imp, Finmap.mem_keys]
    rintro ⟨inp, found⟩
    exact Finmap.mem_of_lookup_eq_some found
  rw [same, List.toFinset_card_of_nodup exact.nodup, exact.gauge]

/-- The handle of an entry is one of its image, and it is in use or its handler is still to
come. -/
def Held (indexes : Indexes) : Prop :=
  ∀ id handle, indexes.registry.lookup id = some (.done handle) →
    HasId indexes.inners handle id ∧ (handle ∈ indexes.live ∨ handle ∈ indexes.dropping)

namespace Held

/-- No entry is added, and no handle is forgotten. -/
theorem mono (held : Held indexes)
    (entries : ∀ id handle, after.registry.lookup id = some (.done handle) →
      indexes.registry.lookup id = some (.done handle))
    (inners : indexes.inners <+: after.inners)
    (handles : ∀ handle, handle ∈ indexes.live ∨ handle ∈ indexes.dropping →
      handle ∈ after.live ∨ handle ∈ after.dropping) : Held after := by
  intro id handle found
  obtain ⟨hasId, known⟩ := held id handle (entries id handle found)
  obtain ⟨more, same⟩ := inners
  rw [← same]
  exact ⟨hasId.append more, handles handle known⟩

theorem lookup_of_insert {id : ImageId} {inp : InProgress}
    (changed : after.registry = indexes.registry.insert id (.inProgress inp)) (other : ImageId)
    (handle : Nat) (found : after.registry.lookup other = some (.done handle)) :
    indexes.registry.lookup other = some (.done handle) := by
  rw [changed, Map.lookup_insert_eq] at found
  split at found
  · cases found
  · exact found

theorem lookup_of_erase {id : ImageId} (changed : after.registry = indexes.registry.erase id)
    (other : ImageId) (handle : Nat)
    (found : after.registry.lookup other = some (.done handle)) :
    indexes.registry.lookup other = some (.done handle) ∧ other ≠ id := by
  rw [changed, Map.lookup_erase_eq] at found
  split at found
  · cases found
  · rename_i different
    exact ⟨found, different⟩

/-- Sending adds a handle that is in use. -/
theorem send (held : Held indexes) (channel : Nat) (inner : Inner) :
    Held (indexes.send channel inner) := by
  refine held.mono (fun _ _ => id) (List.prefix_append _ _) fun handle known => ?_
  exact known.imp_left (Finset.mem_insert_of_mem ·)

/-- A step keeps the indexes that are held. -/
theorem step (held : Held event.before) (takes : (machine parser).Takes event) :
    Held event.after := by
  obtain ⟨before, op, answer, after⟩ := event
  have turn : Turn parser before op answer after := turn_of_takes takes
  cases turn with
  | got => exact held
  | spawned => exact held.mono (lookup_of_insert rfl) List.prefix_rfl fun _ => id
  | joined => exact held.mono (lookup_of_insert rfl) List.prefix_rfl fun _ => id
  | read => exact held
  | found =>
      rename_i reader index _ _
      exact held.send reader.sender ⟨index.1, index.2⟩
  | missed => exact held
  | fetched isBase isReply parsed =>
      rename_i base data bytes
      have sent := held.send base.sender ⟨data, bytes⟩
      intro id handle found
      rw [Map.lookup_insert_eq] at found
      split at found
      · rename_i isBase
        obtain rfl := IndexRef.done.inj (Option.some.inj found)
        have last := HasId.last before.inners ⟨data, bytes⟩
        rw [IndexData.id_of_parse parsed, ← isBase] at last
        exact ⟨last, Or.inl (Finset.mem_insert_self _ _)⟩
      · exact sent id handle found
  | expired =>
      exact held.mono (fun id handle found => (lookup_of_erase rfl id handle found).1)
        List.prefix_rfl fun _ => id
  | waited => exact held.mono (lookup_of_insert rfl) List.prefix_rfl fun _ => id
  | lost => exact held
  | stored => exact held
  | resolved => exact held
  | released =>
      rename_i handle
      refine held.mono (fun _ _ => id) List.prefix_rfl fun other known => ?_
      rw [Finset.mem_erase, Finset.mem_insert]
      by_cases same : other = handle
      · exact Or.inr (Or.inl same)
      · exact known.imp (⟨same, ·⟩) Or.inr
  | dropped isInner =>
      intro id other found
      obtain ⟨old, different⟩ := lookup_of_erase rfl id other found
      obtain ⟨hasId, known⟩ := held id other old
      refine ⟨hasId, known.imp_right fun dropping => Finset.mem_erase.mpr ⟨?_, dropping⟩⟩
      -- the handle that goes away is the one of another image
      rintro rfl
      obtain ⟨there, isThere, same⟩ := hasId
      obtain rfl := Option.some.inj (isInner.symm.trans isThere)
      exact different same.symm
  | removed => exact held

end Held

/-- What the registry says about producers and users: an entry is in progress exactly while
its index is being produced, the gauge counts these entries, and without a producer and a
handle there is no entry. -/
structure Registered (indexes : Indexes) : Prop where
  entries : ∀ id, indexes.InProgressAt id ↔ id ∈ indexes.producers
  gauge : indexes.fetching = indexes.inProgress.card
  gone : ∀ id, id ∉ indexes.producers →
    (∀ handle, handle ∈ indexes.live ∨ handle ∈ indexes.dropping →
      ¬ HasId indexes.inners handle id) → indexes.registry.lookup id = none

/-- An exact registry whose indexes are held has them registered. -/
theorem Registered.of_exact (exact : Exact indexes) (held : Held indexes) : Registered indexes where
  entries := exact.entries
  gauge := exact.card_inProgress.symm
  gone := by
    intro id unproduced unused
    cases found : indexes.registry.lookup id with
    | none => rfl
    | some entry =>
        cases entry with
        | inProgress inp => exact absurd ((exact.entries id).mp ⟨inp, found⟩) unproduced
        | done handle =>
            obtain ⟨hasId, known⟩ := held id handle found
            exact absurd hasId (unused handle known)

/-- Where every index is fetched, and no handler removes an entry in progress, the registry
is right in every state. -/
theorem registry_exact (store : Metadata.Meta) {trace : List Event} {finish : Indexes}
    (steps : (machine parser).Steps (Indexes.new store) trace finish)
    (uncached : ∀ event ∈ trace, Uncached event) :
    Registered finish ∧ ∀ event ∈ trace, Registered event.before := by
  have kept := steps.preserves (fun indexes => Exact indexes ∧ Held indexes) Uncached
    (fun _ takes allowed inv => ⟨inv.1.step allowed takes, inv.2.step takes⟩) uncached
    ⟨.new store, by simp [Held, Indexes.new]⟩
  refine ⟨.of_exact kept.1.1 kept.1.2, fun event member => ?_⟩
  obtain ⟨exact, held⟩ := (kept.2 event member).1
  exact .of_exact exact held

end Entries

namespace Sample

open Metadata (Io)

/-- An index is fetched, and its last handle goes away. -/
def used : List Op :=
  [.get Metadata.Sample.path image, .read 0 Io.working, .finishRead 0,
    .pollFetcher 0 [.connect true, .reply (.data index)] false, .resolve 0, .release 0]

/-- The index is asked for again before the handler of the old handle gets the lock. -/
def late : List Op := used ++ [.get Metadata.Sample.path image, .drop 0]

/-- A run of the registry of the examples. -/
def run (ops : List Op) : List Event × Indexes := (machine parser).play (Indexes.new store) ops

end Sample

/-- The operation of the `Drop` handler. -/
def Op.drops : Op → Bool
  | drop _ => true
  | _ => false

/-- The answer that stands for a panic. -/
def Answer.isUnreachable : Answer → Bool
  | unreachable => true
  | _ => false

/-- Nobody asks before the handler gets the lock. -/
theorem one_producer_dropped :
    let run := Sample.run (Sample.used ++ [.drop 0, .get Metadata.Sample.path Sample.image])
    run.1.length = 8 ∧ run.2.producers.Nodup ∧
      ∀ event ∈ run.1, event.answer ≠ .unreachable ∧ event.before.producers.Nodup := by
  intro run
  have facts : run.1.length = 8 ∧
      ∀ event ∈ run.1, event.op.drops = true → event.before.producers = [] := by
    decide +kernel
  obtain ⟨all, alone⟩ := facts
  refine ⟨all, one_producer Sample.store (Machine.Steps.of_play _ _ _) ?_⟩
  intro event member handle inner isDrop _
  rw [alone event member (by rw [isDrop]; rfl)]
  exact List.not_mem_nil

/-- The handler of the old handle removes the entry of the new read. The fetcher that takes
over does not find it, and whoever asks next starts a second read. -/
theorem entry_removed_under_producer :
    (∃ event ∈ (Sample.run (Sample.late ++
        [.read 0 Metadata.Io.working, .finishRead 0, .pollFetcher 0 [.connect false, .wake false] false])).1,
      event.answer = .unreachable) ∧
    ¬ (Sample.run (Sample.late ++ [.get Metadata.Sample.path Sample.image])).2.producers.Nodup := by
  refine ⟨?_, by decide +kernel⟩
  have panics : ∃ event ∈ (Sample.run (Sample.late ++ [.read 0 Metadata.Io.working, .finishRead 0,
      .pollFetcher 0 [.connect false, .wake false] false])).1, event.answer.isUnreachable = true := by
    decide +kernel
  obtain ⟨event, member, isUnreachable⟩ := panics
  refine ⟨event, member, ?_⟩
  cases answer : event.answer with
  | unreachable => rfl
  | _ => simp [answer, Answer.isUnreachable] at isUnreachable

/-- The read has ended with an index. -/
def Reader.succeeded (reader : Reader) : Bool :=
  match reader.result with
  | some (.ok _) => true
  | _ => false

/-- The index is fetched and let go. -/
theorem registry_exact_fetched :
    let run := Sample.run (Sample.used ++ [.drop 0])
    run.1.length = 7 ∧ Registered run.2 ∧ ∀ event ∈ run.1, Registered event.before := by
  intro run
  have facts : run.1.length = 7 ∧
      (∀ event ∈ run.1, ∀ reader ∈ event.before.readers, reader.succeeded = false) ∧
      ∀ event ∈ run.1, event.op.drops = true →
        ∀ inner ∈ event.before.inners, ¬ event.before.InProgressAt inner.data.id := by
    decide +kernel
  obtain ⟨all, reads, drops⟩ := facts
  refine ⟨all, registry_exact Sample.store (Machine.Steps.of_play _ _ _) ?_⟩
  intro event member
  refine ⟨fun position reader _ isReader index isOk => ?_, fun handle inner isDrop isInner => ?_⟩
  · have failed := reads event member reader (List.mem_of_getElem? isReader)
    simp [Reader.succeeded, isOk] at failed
  · exact drops event member (by rw [isDrop]; rfl) inner (List.mem_of_getElem? isInner)

/-- An index that is read from its file leaves the entry in progress and the gauge as they
are, and the entry keeps the index. -/
theorem entry_left_in_progress :
    let run := Sample.run (Sample.used ++ [.store 0 Metadata.Io.working [], .drop 0,
      .get Metadata.Sample.path Sample.image, .read 0 Metadata.Io.working, .finishRead 0])
    run.1.length = 11 ∧ run.2.producers = [] ∧ run.2.fetching = 1 ∧
      (run.2.exec Sample.parser (.release 1)).isNone = true ∧ ¬ Registered run.2 := by
  intro run
  have facts : run.1.length = 11 ∧ run.2.producers = [] ∧ run.2.fetching = 1 ∧
      (run.2.exec Sample.parser (.release 1)).isNone = true ∧ run.2.InProgressAt Sample.image := by
    decide +kernel
  obtain ⟨all, none, gauge, keeps, left⟩ := facts
  refine ⟨all, none, gauge, keeps, fun registered => ?_⟩
  have produced := (registered.entries Sample.image).mp left
  rw [none] at produced
  exact absurd produced List.not_mem_nil

end FetchIndex

end Ciruela
