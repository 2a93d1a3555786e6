import Ciruela.Foundation.Multimap
import Ciruela.Id
import Ciruela.VirtualPath

/-!
# Who serves which directory

Every node tells its peers the keys it is configured for. `ConfigMap` keeps what each
machine has said last, and for each path the machines that serve it: two maps that are
brought up to date by the difference of two sets.

`Hash::for_object` is a function from sets to hashes of any type.
-/

namespace Ciruela

open Foundation

namespace Peers

/-- A `BTreeSet` of virtual paths, with the texts they were received as. No two of them
are at one place. -/
structure PathSet where
  paths : List VPath
  apart : (paths.map VPath.place).Nodup

namespace PathSet

/-- `BTreeSet::contains`. -/
def Contains (set : PathSet) (place : List Component) : Prop := ∃ path ∈ set.paths, path.place = place

instance (set : PathSet) (place : List Component) : Decidable (set.Contains place) :=
  inferInstanceAs (Decidable (∃ path ∈ set.paths, path.place = place))

end PathSet

/-- `HostInfo`: the directories that a machine has, and the hash that they go by. -/
structure HostInfo (Hash : Type) where
  hash : Hash
  configs : PathSet

/-- `ConfigMap`: the directories of each machine, and the machines of each directory. -/
structure ConfigMap (Hash : Type) where
  forward : Map MachineId (HostInfo Hash)
  backward : Multimap (List Component) MachineId

/-- Add a machine to all of its paths. -/
def enlist (machine : MachineId) (paths : List VPath)
    (backward : Multimap (List Component) MachineId) : Multimap (List Component) MachineId :=
  paths.foldl (fun backward path => backward.add path.place machine) backward

/-- Take a machine off the paths that it has not any more. -/
def strike (machine : MachineId) (configs : PathSet) :
    List VPath → Multimap (List Component) MachineId → Run (Multimap (List Component) MachineId)
  | [], backward => return backward
  | path :: rest, backward =>
      if configs.Contains path.place then strike machine configs rest backward
      else
        match backward.lookup path.place with
        | none => .error .unreachable
        | some _ => strike machine configs rest (backward.remove path.place machine)

namespace ConfigMap

variable {Hash : Type} [DecidableEq Hash]

/-- `ConfigMap::new`. -/
def new : ConfigMap Hash := ⟨∅, ∅⟩

/-- `ConfigMap::set`: a machine is listed under the directories that it has now, and no others. -/
def set (forObject : PathSet → Hash) (map : ConfigMap Hash) (machine : MachineId)
    (configs : PathSet) : Run (ConfigMap Hash) :=
  let hash := forObject configs
  match map.forward.lookup machine with
  | none => return {
      forward := map.forward.insert machine ⟨hash, configs⟩
      backward := enlist machine configs.paths map.backward }
  | some info =>
      if info.hash = hash then return map
      else do
        let backward ← strike machine configs info.configs.paths map.backward
        return {
          forward := map.forward.insert machine ⟨hash, configs⟩
          backward := enlist machine configs.paths backward }

/-- `ConfigMap::get`. -/
def get (map : ConfigMap Hash) (host : MachineId) : Option (HostInfo Hash) := map.forward.lookup host

/-- `ConfigMap::by_dir`. -/
def byDir (map : ConfigMap Hash) (dir : VPath) : Option (Finset MachineId) :=
  map.backward.lookup dir.place

/-- A sequence of calls of `set`, oldest first. -/
def setAll (forObject : PathSet → Hash) (calls : List (MachineId × PathSet)) : Run (ConfigMap Hash) :=
  calls.foldlM (fun map call => map.set forObject call.1 call.2) new

end ConfigMap

/-- What a machine has said last. -/
def latest (calls : List (MachineId × PathSet)) (machine : MachineId) : Option PathSet :=
  (calls.reverse.find? fun call => decide (call.1 = machine)).map Prod.snd

/-- The machine has said last that it serves the place. -/
def ServesLast (calls : List (MachineId × PathSet)) (machine : MachineId) (place : List Component) :
    Prop :=
  ∃ configs, latest calls machine = some configs ∧ configs.Contains place

/-- The latest directories of a machine after one call more. -/
theorem latest_append (calls : List (MachineId × PathSet)) (call : MachineId × PathSet)
    (machine : MachineId) :
    latest (calls ++ [call]) machine =
      if machine = call.1 then some call.2 else latest calls machine := by
  unfold latest
  rw [List.reverse_append, List.reverse_singleton, List.singleton_append]
  by_cases same : machine = call.1
  · simp [same]
  · simp [same, Ne.symm same]

section Backward

variable {machine : MachineId} {backward after : Multimap (List Component) MachineId}
  {paths : List VPath} {place : List Component} {other : MachineId}

/-- The directories that list a machine after it is enlisted. -/
theorem relates_enlist :
    (enlist machine paths backward).Relates place other ↔
      backward.Relates place other ∨ other = machine ∧ ∃ path ∈ paths, path.place = place := by
  induction paths generalizing backward with
  | nil => simp [enlist]
  | cons path rest ih =>
      have unfolded : enlist machine (path :: rest) backward =
          enlist machine rest (backward.add path.place machine) := rfl
      rw [unfolded, ih, Multimap.relates_add]
      constructor
      · rintro ((old | ⟨rfl, rfl⟩) | ⟨rfl, there, member, rfl⟩)
        · exact Or.inl old
        · exact Or.inr ⟨rfl, path, List.mem_cons_self, rfl⟩
        · exact Or.inr ⟨rfl, there, List.mem_cons_of_mem _ member, rfl⟩
      · rintro (old | ⟨rfl, there, member, rfl⟩)
        · exact Or.inl (Or.inl old)
        · rcases List.mem_cons.mp member with rfl | later
          · exact Or.inl (Or.inr ⟨rfl, rfl⟩)
          · exact Or.inr ⟨rfl, there, later, rfl⟩

/-- Enlisting leaves no directory without machines. -/
theorem tight_enlist (tight : backward.Tight) : (enlist machine paths backward).Tight := by
  induction paths generalizing backward with
  | nil => exact tight
  | cons path rest ih => exact ih (tight.add path.place machine)

/-- A machine that is listed at all of its old paths can be taken off those it has not any
more, and nothing else changes. -/
theorem strike_eq_ok (configs : PathSet) (tight : backward.Tight)
    (apart : (paths.map VPath.place).Nodup)
    (listed : ∀ path ∈ paths, backward.Relates path.place machine) :
    ∃ after, strike machine configs paths backward = .ok after ∧ after.Tight ∧
      ∀ place other, after.Relates place other ↔
        backward.Relates place other ∧
          ¬ (other = machine ∧ ¬ configs.Contains place ∧ ∃ path ∈ paths, path.place = place) := by
  induction paths generalizing backward with
  | nil => exact ⟨backward, rfl, tight, by simp⟩
  | cons path rest ih =>
      rw [List.map_cons, List.nodup_cons] at apart
      obtain ⟨fresh, apart⟩ := apart
      have elsewhere : ∀ there ∈ rest, there.place ≠ path.place :=
        fun there member same => fresh (same ▸ List.mem_map_of_mem member)
      unfold strike
      by_cases kept : configs.Contains path.place
      · rw [if_pos kept]
        obtain ⟨after, struck, tight, exact⟩ :=
          ih tight apart fun there member => listed there (List.mem_cons_of_mem _ member)
        refine ⟨after, struck, tight, fun place other => ?_⟩
        rw [exact place other]
        -- the path that is kept is no reason to take anything off
        have same : (¬ configs.Contains place ∧ ∃ there ∈ rest, there.place = place) ↔
            ¬ configs.Contains place ∧ ∃ there ∈ path :: rest, there.place = place := by
          constructor
          · rintro ⟨gone, there, member, isAt⟩
            exact ⟨gone, there, List.mem_cons_of_mem _ member, isAt⟩
          · rintro ⟨gone, there, member, isAt⟩
            rcases List.mem_cons.mp member with rfl | later
            · exact absurd (isAt ▸ kept) gone
            · exact ⟨gone, there, later, isAt⟩
        rw [same]
      · rw [if_neg kept]
        obtain ⟨values, found, _⟩ := listed path List.mem_cons_self
        rw [found]
        have still : ∀ there ∈ rest,
            (backward.remove path.place machine).Relates there.place machine := by
          intro there member
          rw [Multimap.relates_remove]
          exact ⟨listed there (List.mem_cons_of_mem _ member),
            fun removed => elsewhere there member removed.1⟩
        obtain ⟨after, struck, tight, exact⟩ := ih (tight.remove path.place machine) apart still
        refine ⟨after, struck, tight, fun place other => ?_⟩
        rw [exact place other, Multimap.relates_remove]
        constructor
        · rintro ⟨⟨old, notHere⟩, notLater⟩
          refine ⟨old, ?_⟩
          rintro ⟨isMachine, gone, there, member, isAt⟩
          rcases List.mem_cons.mp member with rfl | later
          · exact notHere ⟨isAt.symm, isMachine⟩
          · exact notLater ⟨isMachine, gone, there, later, isAt⟩
        · rintro ⟨old, notAny⟩
          refine ⟨⟨old, ?_⟩, ?_⟩
          · rintro ⟨rfl, isMachine⟩
            exact notAny ⟨isMachine, kept, path, List.mem_cons_self, rfl⟩
          · rintro ⟨isMachine, gone, there, member, isAt⟩
            exact notAny ⟨isMachine, gone, there, List.mem_cons_of_mem _ member, isAt⟩

end Backward

section Maps

variable {Hash : Type} {forObject : PathSet → Hash} {map : ConfigMap Hash}

/-- The two maps say the same, and the hashes are those of the sets. -/
structure Consistent (forObject : PathSet → Hash) (map : ConfigMap Hash) : Prop where
  hashes : ∀ machine info, map.get machine = some info → info.hash = forObject info.configs
  tight : map.backward.Tight
  backward : ∀ place machine, map.backward.Relates place machine ↔
    ∃ info, map.get machine = some info ∧ info.configs.Contains place

/-- Empty tables are consistent. -/
theorem Consistent.new : Consistent forObject (ConfigMap.new : ConfigMap Hash) where
  hashes _ _ found := by simp [ConfigMap.get, ConfigMap.new] at found
  tight := Multimap.tight_empty
  backward place machine := by
    simp [ConfigMap.get, ConfigMap.new, Multimap.not_relates_empty]

/-- A set that is new for its machine is put into both maps. -/
theorem Consistent.store (consistent : Consistent forObject map) {machine : MachineId}
    {configs : PathSet} {cleared : Multimap (List Component) MachineId} (tight : cleared.Tight)
    (others : ∀ place other, other ≠ machine →
      (cleared.Relates place other ↔ map.backward.Relates place other))
    (own : ∀ place, cleared.Relates place machine → configs.Contains place) :
    Consistent forObject
      { forward := map.forward.insert machine ⟨forObject configs, configs⟩
        backward := enlist machine configs.paths cleared } where
  hashes other info found := by
    rw [ConfigMap.get, Map.lookup_insert_eq] at found
    split at found
    · obtain rfl := Option.some.inj found
      rfl
    · exact consistent.hashes other info found
  tight := tight_enlist tight
  backward place other := by
    rw [relates_enlist, ConfigMap.get, Map.lookup_insert_eq]
    by_cases same : other = machine
    · subst same
      simp only [if_true, Option.some.injEq, exists_eq_left', true_and]
      exact ⟨fun listed => listed.elim (own place) id, Or.inr⟩
    · rw [if_neg same, others place other same, consistent.backward place other]
      simp [same, ConfigMap.get]

variable [DecidableEq Hash]

/-- What a machine says is stored, unless it has the hash of what is there. The branch that
is held to be out of reach is out of reach. -/
theorem Consistent.set (consistent : Consistent forObject map) (machine : MachineId)
    (configs : PathSet) :
    ∃ after, map.set forObject machine configs = .ok after ∧ Consistent forObject after ∧
      ((∃ info, map.get machine = some info ∧ info.hash = forObject configs ∧ after = map) ∨
        after.forward = map.forward.insert machine ⟨forObject configs, configs⟩) := by
  unfold ConfigMap.set
  cases found : map.forward.lookup machine with
  | none =>
      have absent : ∀ place, ¬ map.backward.Relates place machine := by
        intro place listed
        obtain ⟨info, isInfo, _⟩ := (consistent.backward place machine).mp listed
        rw [ConfigMap.get, found] at isInfo
        cases isInfo
      exact ⟨_, rfl, consistent.store consistent.tight (fun _ _ _ => Iff.rfl)
        (fun place listed => absurd listed (absent place)), Or.inr rfl⟩
  | some info =>
      by_cases same : info.hash = forObject configs
      · simp only [same, if_true]
        exact ⟨map, rfl, consistent, Or.inl ⟨info, found, same, rfl⟩⟩
      · have listed : ∀ path ∈ info.configs.paths, map.backward.Relates path.place machine :=
          fun path member => (consistent.backward path.place machine).mpr
            ⟨info, found, path, member, rfl⟩
        obtain ⟨cleared, struck, tight, exact⟩ :=
          strike_eq_ok configs consistent.tight info.configs.apart listed
        simp only [same, if_false, struck, Run.ok_bind]
        refine ⟨_, rfl, consistent.store tight ?_ ?_, Or.inr rfl⟩
        · intro place other different
          rw [exact place other]
          simp [different]
        · intro place still
          obtain ⟨old, notStruck⟩ := (exact place machine).mp still
          obtain ⟨before, isBefore, has⟩ := (consistent.backward place machine).mp old
          rw [ConfigMap.get, found] at isBefore
          obtain rfl := Option.some.inj isBefore
          by_contra gone
          exact notStruck ⟨rfl, gone, has⟩

/-- After any calls, both maps are those of what the machines have said last. -/
theorem exists_setAll {calls : List (MachineId × PathSet)}
    (noCollisions : ∀ first ∈ calls, ∀ second ∈ calls,
      forObject first.2 = forObject second.2 → first.2 = second.2) :
    ∃ map, ConfigMap.setAll forObject calls = .ok map ∧ Consistent forObject map ∧
      ∀ machine, (map.get machine).map HostInfo.configs = latest calls machine := by
  induction calls using List.reverseRecOn with
  | nil => exact ⟨ConfigMap.new, rfl, Consistent.new, by simp [latest, ConfigMap.get, ConfigMap.new]⟩
  | append_singleton calls call ih =>
      obtain ⟨map, played, consistent, last⟩ := ih fun first isFirst second isSecond =>
        noCollisions first (List.mem_append_left _ isFirst) second (List.mem_append_left _ isSecond)
      obtain ⟨after, stored, consistentAfter, how⟩ := consistent.set call.1 call.2
      refine ⟨after, ?_, consistentAfter, fun machine => ?_⟩
      · unfold ConfigMap.setAll at played ⊢
        rw [List.foldlM_append, played]
        simpa using stored
      · rw [latest_append]
        obtain ⟨info, isInfo, sameHash, rfl⟩ | stored := how
        · -- the machine repeats itself: equal hashes are those of equal sets
          by_cases same : machine = call.1
          · have isLatest : latest calls call.1 = some info.configs := by
              rw [← last call.1, isInfo]
              rfl
            obtain ⟨there, isThere, isConfigs⟩ := Option.map_eq_some_iff.mp isLatest
            have member : there ∈ calls := List.mem_reverse.mp (List.mem_of_find?_eq_some isThere)
            have equal : there.2 = call.2 := by
              refine noCollisions there (List.mem_append_left _ member) call (by simp) ?_
              rw [isConfigs, ← sameHash, consistent.hashes call.1 info isInfo]
            rw [if_pos same, same, isInfo, ← equal, isConfigs]
            rfl
          · rw [if_neg same, last machine]
        · rw [ConfigMap.get, stored, Map.lookup_insert_eq]
          by_cases same : machine = call.1
          · simp [same]
          · rw [if_neg same, if_neg same]
            exact last machine

end Maps

/-- For every path the map has exactly the machines that have said last that they serve it,
and no entry where there is none; the stored hashes are those of the stored sets. -/
theorem config_map_exact {Hash : Type} [DecidableEq Hash] (forObject : PathSet → Hash)
    (calls : List (MachineId × PathSet))
    (noCollisions : ∀ first ∈ calls, ∀ second ∈ calls,
      forObject first.2 = forObject second.2 → first.2 = second.2) :
    ∃ map, ConfigMap.setAll forObject calls = .ok map ∧
      (∀ dir machines, map.byDir dir = some machines ↔
        machines.Nonempty ∧ ∀ machine, machine ∈ machines ↔ ServesLast calls machine dir.place) ∧
      (∀ dir, map.byDir dir = none ↔ ∀ machine, ¬ ServesLast calls machine dir.place) ∧
      (∀ machine, (map.get machine).map HostInfo.configs = latest calls machine) ∧
      ∀ machine info, map.get machine = some info → info.hash = forObject info.configs := by
  obtain ⟨map, played, consistent, last⟩ := exists_setAll noCollisions
  have serves : ∀ place machine,
      map.backward.Relates place machine ↔ ServesLast calls machine place := by
    intro place machine
    rw [consistent.backward, ServesLast, ← last machine]
    constructor
    · rintro ⟨info, isInfo, has⟩
      exact ⟨info.configs, by rw [isInfo]; rfl, has⟩
    · rintro ⟨configs, isConfigs, has⟩
      obtain ⟨info, isInfo, rfl⟩ := Option.map_eq_some_iff.mp isConfigs
      exact ⟨info, isInfo, has⟩
  refine ⟨map, played, ?_, ?_, last, consistent.hashes⟩
  · intro dir machines
    rw [ConfigMap.byDir, consistent.tight.lookup_eq_some_iff]
    simp only [serves]
  · intro dir
    rw [ConfigMap.byDir, consistent.tight.lookup_eq_none_iff]
    simp only [serves]

namespace Sample

/-- The directory of the example. -/
def key : VPath := (VPath.deserialize "/d".toList).get (by decide)

/-- A configuration with one directory. -/
def only : PathSet := ⟨[key], by decide⟩

/-- A configuration without directories. -/
def nothing : PathSet := ⟨[], by decide⟩

/-- Two machines serve `/d`, and then one of them and the other do not any more. -/
def emptied : List (MachineId × PathSet) := [([1], only), ([2], only), ([1], nothing), ([2], nothing)]

end Sample

/-- The entry of `/d` goes with its last machine. -/
theorem config_map_exact_emptied :
    (∀ first ∈ Sample.emptied, ∀ second ∈ Sample.emptied,
        first.2.paths = second.2.paths → first.2 = second.2) ∧
      ∃ map, ConfigMap.setAll PathSet.paths Sample.emptied = .ok map ∧
        map.byDir Sample.key = none := by
  have noCollisions : ∀ first ∈ Sample.emptied, ∀ second ∈ Sample.emptied,
      first.2.paths = second.2.paths → first.2 = second.2 := by
    rintro ⟨_, paths, _⟩ _ ⟨_, others, _⟩ _ rfl
    rfl
  obtain ⟨map, played, _, absent, _⟩ := config_map_exact PathSet.paths Sample.emptied noCollisions
  refine ⟨noCollisions, map, played, (absent Sample.key).mpr ?_⟩
  rintro machine ⟨configs, isLatest, path, member, _⟩
  have last : ∀ machine, latest Sample.emptied machine = some Sample.nothing ∨
      latest Sample.emptied machine = none := by
    intro machine
    simp only [latest, Sample.emptied, List.reverse_cons, List.reverse_nil, List.nil_append,
      List.cons_append, List.find?_cons, List.find?_nil]
    by_cases isTwo : [2] = machine
    · simp [isTwo]
    · by_cases isOne : [1] = machine
      · simp [isTwo, isOne]
      · simp [isTwo, isOne]
  rcases last machine with nothing | never
  · rw [isLatest] at nothing
    rw [Option.some.inj nothing] at member
    simp [Sample.nothing] at member
  · rw [isLatest] at never
    cases never

end Peers

end Ciruela
