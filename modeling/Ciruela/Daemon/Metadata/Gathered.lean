import Ciruela.Daemon.Metadata.History

/-!
# Signatures that arrive in any order

The signatures of an image come with any number of requests, before and after its
commit. What is stored is sorted and has the entries of all requests, whatever their
order and grouping; that no entry is stored twice is decided by the first request,
whose signatures are sorted and not compared with each other.
-/

namespace Ciruela

open Foundation

namespace Metadata

/-- An accepted append of the image, or a commit whose calls work. -/
def Gathers (image : ImageId) (event : Event) : Prop :=
  (∃ io keys params accept, event.op = .startAppend io keys params ∧ params.image = image ∧
    event.answer = accepted accept) ∨
  ∃ io vpath, event.op = .dirCommitted io vpath ∧ ¬ io.Faulty

/-- The demands of a run, oldest first. -/
def demands (trace : List Event) : List Demand := trace.filterMap fun event => event.op.demand

/-- All entries the requests of a run carry. -/
def gathered (trace : List Event) : List SignatureEntry := (demands trace).flatMap Demand.entries

/-- What a step adds to the demands. -/
theorem demands_snoc (trace : List Event) (event : Event) :
    demands (trace ++ [event]) = demands trace ++ event.op.demand.toList := by
  unfold demands
  rw [List.filterMap_append]
  cases asked : event.op.demand with
  | none => simp [asked]
  | some demand => simp [asked]

/-- What a step adds to the signatures that are gathered. -/
theorem mem_gathered_snoc {trace : List Event} {event : Event} {demand : Demand}
    (asked : event.op.demand = some demand) {entry : SignatureEntry} :
    entry ∈ gathered (trace ++ [event]) ↔ entry ∈ gathered trace ∨ entry ∈ demand.entries := by
  simp [gathered, demands_snoc, asked]

theorem nodup_entries {demand : Demand} : demand.entries.Nodup ↔ demand.signatures.Nodup :=
  List.nodup_map_iff fun _ _ same => (SignatureEntry.mk.inj same).2

/-- The list is what the run has gathered. -/
structure Gathered (trace : List Event) (first : Demand) (signatures : List SignatureEntry) : Prop where
  sorted : signatures.SortedLE
  entries : ∀ entry, entry ∈ signatures ↔ entry ∈ gathered trace
  nodup : signatures.Nodup ↔ first.signatures.Nodup

/-- The record stores the state in the file its image belongs in. -/
def Record.Stores (record : Record) (state : State) : Prop :=
  (∃ writing, record.writing = some writing ∧ writing.toState = state ∧
    record.newState = some (.state state)) ∨
  record.writing = none ∧ record.state = some (.state state)

/-- What is stored is what has been gathered; before the first request it is
nothing. -/
def Record.Keeps (record : Record) (image : ImageId) (trace : List Event) : Prop :=
  match (demands trace).head? with
  | none => record.writing = none ∧ record.state = none
  | some first => ∃ signatures, Gathered trace first signatures ∧ record.Stores ⟨image, signatures⟩

section Gathering

variable {env : Env} {spot : Spot} {image : ImageId}

/-- The first request. -/
theorem gathered_first {trace : List Event} {event : Event} {demand : Demand}
    (nothing : demands trace = []) (asked : event.op.demand = some demand) :
    Gathered (trace ++ [event]) demand (sortSignatures demand.entries) := by
  refine ⟨sortedLE_sortSignatures _, fun entry => ?_, ?_⟩
  · rw [mem_sortSignatures, mem_gathered_snoc asked]
    simp [gathered, nothing]
  · rw [nodup_sortSignatures, nodup_entries]

/-- Another demand adds its signatures. -/
theorem Gathered.append {trace : List Event} {event : Event} {first demand : Demand}
    {signatures : List SignatureEntry} (kept : Gathered trace first signatures)
    (asked : event.op.demand = some demand) :
    Gathered (trace ++ [event]) first
      (appendSignatures signatures (sortSignatures demand.entries)) := by
  refine ⟨sortedLE_appendSignatures _ _, fun entry => ?_, ?_⟩
  · rw [mem_appendSignatures, mem_sortSignatures, mem_gathered_snoc asked, kept.entries]
  · rw [nodup_appendSignatures, kept.nodup]

/-- The entry of `writing` is left alone when the same list comes again. -/
theorem Gathered.extend {trace : List Event} {event : Event} {first demand : Demand} {old : Writing}
    (kept : Gathered trace first old.signatures) (asked : event.op.demand = some demand) :
    Gathered (trace ++ [event]) first (old.extend (sortSignatures demand.entries)).signatures := by
  unfold Writing.extend
  split
  · exact kept.append asked
  · rename_i same
    rw [not_not] at same
    refine ⟨kept.sorted, fun entry => ?_, kept.nodup⟩
    have known : entry ∈ sortSignatures demand.entries ↔ entry ∈ old.signatures := by rw [same]
    rw [mem_gathered_snoc asked, ← kept.entries, ← known, mem_sortSignatures, or_self]

/-- What asks for nothing keeps the signatures. -/
theorem Gathered.commit {trace : List Event} {event : Event} {first : Demand}
    {signatures : List SignatureEntry} (kept : Gathered trace first signatures)
    (plain : event.op.demand = none) : Gathered (trace ++ [event]) first signatures := by
  have same : gathered (trace ++ [event]) = gathered trace := by
    simp [gathered, demands_snoc, plain]
  exact ⟨kept.sorted, fun entry => by rw [same, kept.entries], kept.nodup⟩

/-- The first demand stays the first. -/
theorem head?_demands_append {trace : List Event} {event : Event} {demand : Demand}
    (asked : event.op.demand = some demand) :
    (demands (trace ++ [event])).head? = some ((demands trace).head?.getD demand) := by
  rw [demands_snoc, asked]
  cases demands trace <;> rfl

/-- What an accepted request does to the record. -/
theorem Change.of_accepted {before after : Record} {op : Op} {accept : Accept} {demand : Demand}
    (asked : op.demand = some demand) (change : Change env before op (accepted accept) after) :
    (before.writing = none ∧ (before.state = none ∨ ∃ state, before.state = some (.state state) ∧
        state.image ≠ demand.image) ∧
      ∃ replacing, after = { before with
        writing := some ⟨demand.image, sortSignatures demand.entries, replacing⟩
        newState := some (.state demand.state) }) ∨
    (∃ old, before.writing = some old ∧ old.image = demand.image ∧
      after = { before with
        writing := some (old.extend (sortSignatures demand.entries))
        newState := some (.state (old.extend (sortSignatures demand.entries)).toState) }) ∨
    before.writing = none ∧ ∃ state, before.state = some (.state state) ∧ state.image = demand.image ∧
      after = { before with
        state := some (.state { state with
          signatures := appendSignatures state.signatures (sortSignatures demand.entries) }) } := by
  cases change with
  | kept idle => exact absurd idle not_false
  | begun asked' _ vacant free =>
      obtain rfl := Option.some.inj (asked.symm.trans asked')
      refine Or.inl ⟨vacant, free.imp_right ?_, _, rfl⟩
      rintro ⟨state, committed, different, _⟩
      exact ⟨state, committed, different⟩
  | extended asked' _ entry same =>
      obtain rfl := Option.some.inj (asked.symm.trans asked')
      exact Or.inr (Or.inl ⟨_, entry, same, rfl⟩)
  | merged asked' _ vacant committed same =>
      obtain rfl := Option.some.inj (asked.symm.trans asked')
      exact Or.inr (Or.inr ⟨vacant, _, committed, same, rfl⟩)

/-- An accepted append adds its entries to what is stored. -/
theorem Record.Keeps.append {before after : Record} {trace : List Event} {event : Event}
    {demand : Demand} {accept : Accept} (kept : before.Keeps image trace)
    (asked : event.op.demand = some demand) (sameImage : demand.image = image)
    (change : Change env before event.op (accepted accept) after) :
    after.Keeps image (trace ++ [event]) := by
  subst sameImage
  unfold Record.Keeps at kept ⊢
  rw [head?_demands_append asked]
  cases earlier : (demands trace).head? with
  | none =>
      rw [earlier] at kept
      obtain ⟨vacant, missing⟩ := kept
      have first := gathered_first (List.head?_eq_none_iff.mp earlier) asked
      obtain ⟨_, _, replacing, rfl⟩ | ⟨old, entry, _⟩ | ⟨_, state, committed, _⟩ :=
        change.of_accepted asked
      · exact ⟨_, first, Or.inl ⟨_, rfl, rfl, rfl⟩⟩
      · simp [vacant] at entry
      · simp [missing] at committed
  | some first =>
      rw [earlier] at kept
      obtain ⟨signatures, gathers, ⟨writing, entry, same, _⟩ | ⟨vacant, committed⟩⟩ := kept
      · obtain ⟨vacant, _⟩ | ⟨old, found, _, rfl⟩ | ⟨vacant, _⟩ := change.of_accepted asked
        · simp [vacant] at entry
        · obtain rfl := Option.some.inj (found.symm.trans entry)
          obtain ⟨sameImage, rfl⟩ := State.mk.inj same
          refine ⟨_, gathers.extend asked, Or.inl ⟨_, rfl, ?_, ?_⟩⟩
          · simp [Writing.toState, Writing.extend, sameImage]
          · simp [Writing.toState, Writing.extend, sameImage]
        · simp [vacant] at entry
      · obtain ⟨_, free, _⟩ | ⟨old, entry, _⟩ | ⟨_, state, found, _, rfl⟩ := change.of_accepted asked
        · rcases free with missing | ⟨state, found, different⟩
          · simp [committed] at missing
          · obtain rfl := Content.state.inj (Option.some.inj (found.symm.trans committed))
            exact absurd rfl different
        · simp [vacant] at entry
        · obtain rfl := Content.state.inj (Option.some.inj (found.symm.trans committed))
          exact ⟨_, gathers.append asked, Or.inr ⟨vacant, rfl⟩⟩

/-- A commit moves what is stored to `x.state`. -/
theorem Record.Keeps.commit {before after : Record} {trace : List Event} {event : Event} {io : Io}
    {vpath : VPath} {answer : Answer} (kept : before.Keeps image trace)
    (committing : event.op = .dirCommitted io vpath) (working : ¬ io.Faulty)
    (change : Change env before (.dirCommitted io vpath) answer after) :
    after.Keeps image (trace ++ [event]) := by
  have plain : event.op.demand = none := by rw [committing]; rfl
  have sameDemands : demands (trace ++ [event]) = demands trace := by simp [demands_snoc, plain]
  unfold Record.Keeps at kept ⊢
  rw [sameDemands]
  cases earlier : (demands trace).head? with
  | none =>
      rw [earlier] at kept
      obtain ⟨vacant, missing⟩ := kept
      cases change with
      | kept => exact ⟨vacant, missing⟩
      | begun asked => simp [Op.demand] at asked
      | extended asked => simp [Op.demand] at asked
      | merged asked => simp [Op.demand] at asked
      | unsaved asked => simp [Op.demand] at asked
      | committed entry => simp [vacant] at entry
      | unfinished entry => simp [vacant] at entry
  | some first =>
      rw [earlier] at kept
      obtain ⟨signatures, gathers, stores⟩ := kept
      refine ⟨signatures, gathers.commit plain, ?_⟩
      rcases stores with ⟨writing, entry, same, written⟩ | ⟨vacant, committed⟩
      · have after_eq := change.commits rfl working entry (same ▸ written)
        rw [after_eq, same]
        exact Or.inr ⟨rfl, rfl⟩
      · cases change with
        | kept => exact Or.inr ⟨vacant, committed⟩
        | begun asked => simp [Op.demand] at asked
        | extended asked => simp [Op.demand] at asked
        | merged asked => simp [Op.demand] at asked
        | unsaved asked => simp [Op.demand] at asked
        | committed entry => simp [vacant] at entry
        | unfinished entry => simp [vacant] at entry

/-- Along every such run the record keeps what has been gathered. -/
theorem keeps_gathered {start finish : Meta} {trace : List Event}
    (steps : (machine env).Steps start trace finish) (onSpot : OnSpot spot trace)
    (gathers : ∀ event ∈ trace, Gathers image event)
    (vacant : (start.record spot).writing = none) (missing : (start.record spot).state = none) :
    (finish.record spot).Keeps image trace := by
  refine steps.preserves_history (fun history store => (store.record spot).Keeps image history)
    (fun event => event.op.vpath.place = spot.place ∧ Gathers image event) ?_
    (fun event member => ⟨onSpot event member, gathers event member⟩) ⟨vacant, missing⟩
  rintro history event valid ⟨located, allowed⟩ kept
  have change := takes_change valid located
  rcases allowed with ⟨io, keys, params, accept, isAppend, same, answered⟩ | ⟨io, vpath, isCommit, working⟩
  · rw [answered] at change
    have asked : event.op.demand = some (.ofAppend keys params) := by rw [isAppend]; rfl
    exact kept.append asked same change
  · rw [isCommit] at change
    exact kept.commit isCommit working change

end Gathering

/-- Both records store one list for the image, sorted and without duplicates. -/
def SameList (image : ImageId) (first second : Record) : Prop :=
  ∃ signatures : List SignatureEntry, signatures.SortedLE ∧ signatures.Nodup ∧
    first.Stores ⟨image, signatures⟩ ∧ second.Stores ⟨image, signatures⟩

/-- `Hash::for_object` of two base directories that have the stored states under one
name, and agree otherwise, is the same. -/
def SameHash (first second : Record) : Prop :=
  ∀ (Hash : Type) (forObject : Map (List Char) State → Hash) (dirs : Map (List Char) State)
    (name : List Char) (state other : State), first.Stores state → second.Stores other →
    forObject (dirs.insert name state) = forObject (dirs.insert name other)

/-- A record stores one state. -/
theorem Record.Stores.unique {record : Record} {state other : State} (stores : record.Stores state)
    (storesOther : record.Stores other) : state = other := by
  rcases stores with ⟨writing, entry, same, _⟩ | ⟨vacant, committed⟩
  · rcases storesOther with ⟨writing', entry', same', _⟩ | ⟨vacant, _⟩
    · obtain rfl := Option.some.inj (entry.symm.trans entry')
      exact same.symm.trans same'
    · simp [vacant] at entry
  · rcases storesOther with ⟨writing, entry, _⟩ | ⟨_, committed'⟩
    · simp [vacant] at entry
    · exact Content.state.inj (Option.some.inj (committed.symm.trans committed'))

/-- A stored list without duplicates began with a request without duplicates. -/
theorem Record.Keeps.nodup_first {record : Record} {image : ImageId} {trace : List Event}
    (kept : record.Keeps image trace) {signatures : List SignatureEntry}
    (stores : record.Stores ⟨image, signatures⟩) (nodup : signatures.Nodup) :
    ∃ first ∈ (demands trace).head?, first.signatures.Nodup := by
  unfold Record.Keeps at kept
  cases isFirst : (demands trace).head? with
  | none =>
      rw [isFirst] at kept
      obtain ⟨vacant, missing⟩ := kept
      rcases stores with ⟨writing, entry, _⟩ | ⟨_, committed⟩
      · simp [vacant] at entry
      · simp [missing] at committed
  | some first =>
      rw [isFirst] at kept
      obtain ⟨other, gathered, storesOther⟩ := kept
      obtain ⟨_, rfl⟩ := State.mk.inj (stores.unique storesOther)
      exact ⟨first, rfl, gathered.nodup.mp nodup⟩

/-- Two nodes that gather the same entries for an image store the same sorted list
without duplicates exactly when neither has got a signature twice in its first
request. -/
theorem gathered_same_iff {env env' : Env} {spot : Spot} {image : ImageId}
    {start start' finish finish' : Meta} {trace trace' : List Event}
    (steps : (machine env).Steps start trace finish)
    (steps' : (machine env').Steps start' trace' finish')
    (onSpot : OnSpot spot trace) (onSpot' : OnSpot spot trace')
    (gathers : ∀ event ∈ trace, Gathers image event)
    (gathers' : ∀ event ∈ trace', Gathers image event)
    (fresh : (start.record spot).writing = none ∧ (start.record spot).state = none)
    (fresh' : (start'.record spot).writing = none ∧ (start'.record spot).state = none)
    (same : ∀ entry, entry ∈ gathered trace ↔ entry ∈ gathered trace') :
    (SameList image (finish.record spot) (finish'.record spot) ∧
        SameHash (finish.record spot) (finish'.record spot)) ↔
      (∃ first ∈ (demands trace).head?, first.signatures.Nodup) ∧
        ∃ first ∈ (demands trace').head?, first.signatures.Nodup := by
  have kept := keeps_gathered steps onSpot gathers fresh.1 fresh.2
  have kept' := keeps_gathered steps' onSpot' gathers' fresh'.1 fresh'.2
  constructor
  · rintro ⟨⟨signatures, _, nodup, stores, stores'⟩, _⟩
    exact ⟨kept.nodup_first stores nodup, kept'.nodup_first stores' nodup⟩
  · rintro ⟨⟨first, isFirst, nodup⟩, first', isFirst', nodup'⟩
    simp only [Record.Keeps, Option.mem_def.mp isFirst] at kept
    simp only [Record.Keeps, Option.mem_def.mp isFirst'] at kept'
    obtain ⟨signatures, gathered, stores⟩ := kept
    obtain ⟨signatures', gathered', stores'⟩ := kept'
    have equal : signatures = signatures' :=
      eq_of_sortedLE_of_nodup gathered.sorted gathered'.sorted (gathered.nodup.mpr nodup)
        (gathered'.nodup.mpr nodup') fun entry => by
          rw [gathered.entries, gathered'.entries, same]
    subst equal
    refine ⟨⟨signatures, gathered.sorted, gathered.nodup.mpr nodup, stores, stores'⟩, ?_⟩
    intro Hash forObject dirs name state other isState isOther
    rw [isState.unique stores, isOther.unique stores']

namespace Sample

/-- Append the image with these signatures. -/
def appendSigned (time : Nat) (signatures : List Signature) : Op :=
  .startAppend Io.working keys ⟨path, image 1, time, signatures⟩

/-- Two requests in one order, and in the other with a commit in between. -/
def oneOrder : List Op := [appendSigned 5 [signature 1, signature 2], appendSigned 6 [signature 1]]

/-- The same appends as before, in another order. -/
def otherOrder : List Op :=
  [appendSigned 6 [signature 1], commit, appendSigned 5 [signature 2, signature 2],
    appendSigned 5 [signature 1]]

end Sample

/-- The step is an accepted append of the image or a commit. -/
def Sample.accepts (event : Event) : Bool :=
  match event.op, event.answer with
  | .startAppend _ _ params, .upload (.ok (.accepted _)) => decide (params.image = image 1)
  | .dirCommitted _ _, _ => true
  | _, _ => false

/-- The run of the example gathers signatures. -/
theorem Sample.gathers_play {start : Meta} {ops : List Op}
    (accepting : ∀ event ∈ ((machine (env false)).play start ops).1, accepts event = true)
    (working : ∀ op ∈ ops, op.io = Io.working) :
    ∀ event ∈ ((machine (env false)).play start ops).1, Gathers (image 1) event := by
  intro event member
  have works := working event.op (Machine.Steps.op_mem_of_play member)
  have accepted := accepting event member
  unfold accepts at accepted
  split at accepted
  · rename_i io keys params accept isAppend answered
    exact Or.inl ⟨io, keys, params, accept, isAppend, of_decide_eq_true accepted, answered⟩
  · rename_i _ io vpath isCommit
    rw [isCommit] at works
    obtain rfl : io = Io.working := works
    exact Or.inr ⟨_, vpath, isCommit, Io.not_faulty_working⟩
  · cases accepted

/-- Two orders of the same signatures, one of them repeated later, store one list. -/
theorem gathered_same_reordered :
    let run := (machine (Sample.env false)).play (Meta.new .empty .empty) Sample.oneOrder
    let run' := (machine (Sample.env false)).play (Meta.new .empty .empty) Sample.otherOrder
    SameList (Sample.image 1) (run.2.record Sample.spot) (run'.2.record Sample.spot) ∧
      SameHash (run.2.record Sample.spot) (run'.2.record Sample.spot) := by
  intro run run'
  have entries : ∀ entry, entry ∈ gathered run.1 ↔ entry ∈ gathered run'.1 := by
    have left : ∀ entry ∈ gathered run.1, entry ∈ gathered run'.1 := by decide
    have right : ∀ entry ∈ gathered run'.1, entry ∈ gathered run.1 := by decide
    exact fun entry => ⟨left entry, right entry⟩
  refine (gathered_same_iff (Machine.Steps.of_play _ _ _) (Machine.Steps.of_play _ _ _)
    (onSpot_play (by decide)) (onSpot_play (by decide))
    (Sample.gathers_play (by decide) ?_) (Sample.gathers_play (by decide) ?_)
    (by decide) (by decide) entries).mpr ⟨⟨_, rfl, by decide⟩, ⟨_, rfl, by decide⟩⟩
  · simp [Sample.oneOrder, Sample.appendSigned, Op.io]
  · simp [Sample.otherOrder, Sample.appendSigned, Sample.commit, Op.io]

/-- A first request that repeats a signature stores it twice, and the same request
without the repetition stores it once. -/
theorem gathered_twice :
    let run := (machine (Sample.env false)).play (Meta.new .empty .empty)
      [Sample.appendSigned 5 [Sample.signature 1, Sample.signature 1]]
    let run' := (machine (Sample.env false)).play (Meta.new .empty .empty)
      [Sample.appendSigned 5 [Sample.signature 1]]
    (∀ event ∈ run.1 ++ run'.1, Gathers (Sample.image 1) event) ∧
      (∀ entry, entry ∈ gathered run.1 ↔ entry ∈ gathered run'.1) ∧
      ¬ SameList (Sample.image 1) (run.2.record Sample.spot) (run'.2.record Sample.spot) := by
  intro run run'
  have gathers : ∀ event ∈ run.1 ++ run'.1, Gathers (Sample.image 1) event := by
    refine List.forall_mem_append.mpr ⟨Sample.gathers_play (by decide) ?_,
      Sample.gathers_play (by decide) ?_⟩
    · simp [Sample.appendSigned, Op.io]
    · simp [Sample.appendSigned, Op.io]
  refine ⟨gathers, ?_, ?_⟩
  · have left : ∀ entry ∈ gathered run.1, entry ∈ gathered run'.1 := by decide
    have right : ∀ entry ∈ gathered run'.1, entry ∈ gathered run.1 := by decide
    exact fun entry => ⟨left entry, right entry⟩
  · rintro ⟨signatures, _, nodup, stores, _⟩
    have kept : (run.2.record Sample.spot).Keeps (Sample.image 1) run.1 :=
      keeps_gathered (Machine.Steps.of_play _ _ _) (onSpot_play (by decide))
        (fun event member => gathers event (List.mem_append_left _ member)) (by decide) (by decide)
    obtain ⟨first, isFirst, firstNodup⟩ := kept.nodup_first stores nodup
    have repeated : ∀ demand ∈ (demands run.1).head?, ¬ demand.signatures.Nodup := by
      rintro demand ⟨⟩
      decide
    exact repeated first isFirst firstNodup

end Metadata

end Ciruela
