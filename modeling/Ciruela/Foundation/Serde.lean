import Mathlib.Data.Finset.Sort
import Ciruela.Foundation.Cbor
import Ciruela.Foundation.Panic
import Ciruela.Foundation.Tree

/-!
# Serialization of structures

`Serde` is the two directions between a type and CBOR with the law that joins them:
whatever was read can be written, and what is written then is read as the same value. The
constructions of this module keep the law, so a structure that is put together from them
has it without a proof of its own.

Writing may panic and reading may refuse; a value that is never read, such as a time
before the epoch, may have no form at all.
-/

namespace Ciruela.Foundation

/-- How a value is written and read. What is read can be written, and then is read again. -/
structure Serde (Value : Type) where
  serialize : Value → Run Cbor
  deserialize : Cbor → Option Value
  reads_back : ∀ cbor value, deserialize cbor = some value →
    ∃ out, serialize value = .ok out ∧ deserialize out = some value

namespace Serde

variable {Value Other : Type}

/-- Some input is read as the value. -/
def Readable (serde : Serde Value) (value : Value) : Prop :=
  ∃ cbor, serde.deserialize cbor = some value

/-- What can be read is written, and read back. -/
theorem Readable.round_trip {serde : Serde Value} {value : Value} (readable : serde.Readable value) :
    ∃ out, serde.serialize value = .ok out ∧ serde.deserialize out = some value := by
  obtain ⟨cbor, read⟩ := readable
  exact serde.reads_back cbor value read

/-- A value that was read as one of several kinds. -/
theorem reads_back_as {Whole : Type} (serde : Serde Value) {wrap : Value → Whole}
    {data : Cbor} {whole : Whole} (read : (serde.deserialize data).map wrap = some whole) :
    ∃ value, whole = wrap value ∧
      ∃ out, serde.serialize value = .ok out ∧ (serde.deserialize out).map wrap = some whole := by
  obtain ⟨value, isValue, rfl⟩ := Option.map_eq_some_iff.mp read
  obtain ⟨out, written, again⟩ := serde.reads_back data value isValue
  exact ⟨value, rfl, out, written, by rw [again, Option.map_some]⟩

/-- The form of the value, if it has one, is read as something. -/
def Accepts (serde : Serde Value) (value : Value) : Prop :=
  ∀ out, serde.serialize value = .ok out → (serde.deserialize out).isSome

/-- A readable value is accepted. -/
theorem Readable.accepts {serde : Serde Value} {value : Value} (readable : serde.Readable value) :
    serde.Accepts value := by
  obtain ⟨out, written, again⟩ := readable.round_trip
  intro other isOther
  obtain rfl := Except.ok.inj (written.symm.trans isOther)
  rw [again]
  rfl

section Basic

/-- Numbers of 64 bits. -/
def u64 : Serde UInt64 where
  serialize value := .ok (.unsigned value)
  deserialize
    | .unsigned value => some value
    | _ => none
  reads_back _ value _ := ⟨.unsigned value, rfl, rfl⟩

/-- Truth values. -/
def bool : Serde Bool where
  serialize value := .ok (.bool value)
  deserialize
    | .bool value => some value
    | _ => none
  reads_back _ value _ := ⟨.bool value, rfl, rfl⟩

/-- `String`, which is also read from the bytes of a text. -/
def text : Serde (List Char) where
  serialize value := .ok (.text value)
  deserialize
    | .text value => some value
    | .bytes value => Cbor.ofUtf8 value
    | _ => none
  reads_back _ value _ := ⟨.text value, rfl, rfl⟩

/-- A number that fits in a byte. -/
def byte : Cbor → Option UInt8
  | .unsigned value => if value.toNat < 256 then some (UInt8.ofNat value.toNat) else none
  | _ => none

/-- `ByteBuf`, which is also read from a text and from an array of bytes. -/
def byteBuf : Serde (List UInt8) where
  serialize value := .ok (.bytes value)
  deserialize
    | .bytes value => some value
    | .text value => some (Cbor.utf8 value)
    | .array items => items.mapM byte
    | _ => none
  reads_back _ value _ := ⟨.bytes value, rfl, rfl⟩

end Basic

/-- The same form for a type that stands for another. -/
def via (serde : Serde Value) (equiv : Other ≃ Value) : Serde Other where
  serialize value := serde.serialize (equiv value)
  deserialize cbor := (serde.deserialize cbor).map equiv.symm
  reads_back := by
    intro cbor value read
    obtain ⟨found, isFound, rfl⟩ := Option.map_eq_some_iff.mp read
    obtain ⟨out, written, again⟩ := serde.reads_back cbor found isFound
    refine ⟨out, ?_, ?_⟩
    · rw [Equiv.apply_symm_apply, written]
    · rw [again, Option.map_some]

/-- `Option`: nothing is null. What is there must not be read from null. -/
def option (serde : Serde Value) (solid : serde.deserialize .null = none) :
    Serde (Option Value) where
  serialize
    | none => .ok .null
    | some value => serde.serialize value
  deserialize
    | .null => some none
    | cbor => (serde.deserialize cbor).map some
  reads_back := by
    intro cbor value read
    cases value with
    | none => exact ⟨.null, rfl, rfl⟩
    | some value =>
        have inner : serde.Readable value := by
          refine ⟨cbor, ?_⟩
          cases cbor with
          | null => simp at read
          | _ => simpa using read
        obtain ⟨out, written, again⟩ := inner.round_trip
        refine ⟨out, written, ?_⟩
        cases out with
        | null => rw [solid] at again; simp at again
        | _ => simpa using again

section Sequences

theorem read_of_mapM {Item : Type} {read : Item → Option Value} {items : List Item}
    {values : List Value} (all : items.mapM read = some values) :
    ∀ value ∈ values, ∃ item, read item = some value := by
  induction items generalizing values with
  | nil => simp_all
  | cons item items ih =>
      simp only [List.mapM_cons, Option.bind_eq_bind, Option.bind_eq_some_iff, Option.pure_def,
        Option.some.injEq] at all
      obtain ⟨first, isFirst, rest, isRest, rfl⟩ := all
      rw [List.forall_mem_cons]
      exact ⟨⟨item, isFirst⟩, ih isRest⟩

/-- Values that can be written and read one by one can be written and read in a row. -/
theorem mapM_round_trip {Item : Type} {write : Value → Run Item} {read : Item → Option Value}
    {values : List Value}
    (each : ∀ value ∈ values, ∃ out, write value = .ok out ∧ read out = some value) :
    ∃ out, values.mapM write = .ok out ∧ out.mapM read = some values := by
  induction values with
  | nil => exact ⟨[], rfl, rfl⟩
  | cons value values ih =>
      rw [List.forall_mem_cons] at each
      obtain ⟨⟨first, written, isRead⟩, each⟩ := each
      obtain ⟨rest, restWritten, restRead⟩ := ih each
      refine ⟨first :: rest, ?_, ?_⟩
      · rw [List.mapM_cons, written, restWritten]
        rfl
      · rw [List.mapM_cons, isRead, restRead]
        rfl

/-- `Vec`. -/
def list (serde : Serde Value) : Serde (List Value) where
  serialize values := do return .array (← values.mapM serde.serialize)
  deserialize
    | .array items => items.mapM serde.deserialize
    | _ => none
  reads_back := by
    intro cbor values read
    cases cbor with
    | array items =>
        have each : ∀ value ∈ values, serde.Readable value := read_of_mapM read
        obtain ⟨out, written, again⟩ :=
          mapM_round_trip fun value member => (each value member).round_trip
        refine ⟨.array out, ?_, again⟩
        rw [written]
        rfl
    | _ => simp at read

/-- A list is readable when its members are. -/
theorem readable_list {serde : Serde Value} {values : List Value}
    (each : ∀ value ∈ values, serde.Readable value) : serde.list.Readable values := by
  obtain ⟨out, _, read⟩ := mapM_round_trip fun value member => (each value member).round_trip
  exact ⟨.array out, read⟩

end Sequences

end Serde

section Entries

variable {Key Value : Type}

/-- An entry of a map is written. -/
def writeEntry (key : Serde Key) (value : Serde Value) (entry : Key × Value) : Run (Cbor × Cbor) := do
  let first ← key.serialize entry.1
  let second ← value.serialize entry.2
  return (first, second)

/-- An entry of a map is read. -/
def readEntry (key : Serde Key) (value : Serde Value) (entry : Cbor × Cbor) :
    Option (Key × Value) := do
  let first ← key.deserialize entry.1
  let second ← value.deserialize entry.2
  return (first, second)

/-- An entry that was read is written, and read back. -/
theorem writeEntry_of_readEntry {key : Serde Key} {value : Serde Value} {item : Cbor × Cbor}
    {entry : Key × Value} (read : readEntry key value item = some entry) :
    ∃ out, writeEntry key value entry = .ok out ∧ readEntry key value out = some entry := by
  simp only [readEntry, Option.bind_eq_bind, Option.bind_eq_some_iff, Option.pure_def,
    Option.some.injEq] at read
  obtain ⟨first, isFirst, second, isSecond, rfl⟩ := read
  obtain ⟨outFirst, writtenFirst, againFirst⟩ := key.reads_back _ _ isFirst
  obtain ⟨outSecond, writtenSecond, againSecond⟩ := value.reads_back _ _ isSecond
  refine ⟨(outFirst, outSecond), ?_, ?_⟩
  · simp only [writeEntry, writtenFirst, writtenSecond, Run.ok_bind]
    rfl
  · simp [readEntry, againFirst, againSecond]

end Entries

/-- The entries of a map in some order, each key once. -/
structure Listing (Key Value : Type) [DecidableEq Key] where
  list : Map Key Value → List (Key × Value)
  nodup : ∀ map, ((list map).map Prod.fst).Nodup
  mem_list : ∀ map key value, (key, value) ∈ list map ↔ map.lookup key = some value

section Maps

variable {Key Value : Type} [DecidableEq Key]

/-- The entry of a key. -/
def entryAt (map : Map Key Value) (key : Key) : Option (Key × Value) :=
  (map.lookup key).map fun value => (key, value)

theorem entryAt_eq_some_iff {map : Map Key Value} {key : Key} {entry : Key × Value} :
    entryAt map key = some entry ↔ entry.1 = key ∧ map.lookup key = some entry.2 := by
  rw [entryAt, Option.map_eq_some_iff]
  constructor
  · rintro ⟨value, found, rfl⟩
    exact ⟨rfl, found⟩
  · rintro ⟨rfl, found⟩
    exact ⟨entry.2, found, rfl⟩

/-- `BTreeMap`: the entries in the order of their keys. -/
def Listing.sorted [LinearOrder Key] : Listing Key Value where
  list map := (map.keys.sort (· ≤ ·)).filterMap (entryAt map)
  nodup := by
    intro map
    have name : ∀ {key other}, other ∈ (entryAt map key).map Prod.fst → other = key := by
      intro key other member
      obtain ⟨entry, found, rfl⟩ := Option.map_eq_some_iff.mp member
      exact (entryAt_eq_some_iff.mp found).1
    rw [List.map_filterMap]
    refine (Finset.sort_nodup map.keys (· ≤ ·)).filterMap ?_
    intro key key' other member member'
    exact (name member).symm.trans (name member')
  mem_list := by
    intro map key value
    rw [List.mem_filterMap]
    constructor
    · rintro ⟨other, _, found⟩
      obtain ⟨rfl, isValue⟩ := entryAt_eq_some_iff.mp found
      exact isValue
    · intro found
      have member : key ∈ map.keys.sort (· ≤ ·) := by
        rw [Finset.mem_sort, Finmap.mem_keys, Map.mem_iff_lookup_ne_none, found]
        simp
      exact ⟨key, member, entryAt_eq_some_iff.mpr ⟨rfl, found⟩⟩

/-- Entries put into a map one after another. -/
def collect (entries : List (Key × Value)) : Map Key Value :=
  entries.foldl (fun map entry => map.insert entry.1 entry.2) ∅

/-- What the entries leave under a key comes from them or was there. -/
theorem mem_or_of_lookup_foldl {entries : List (Key × Value)} {map : Map Key Value} {key : Key}
    {value : Value}
    (found : (entries.foldl (fun map entry => map.insert entry.1 entry.2) map).lookup key =
      some value) : (key, value) ∈ entries ∨ map.lookup key = some value := by
  induction entries generalizing map with
  | nil => exact .inr found
  | cons entry entries ih =>
      rcases ih found with later | before
      · exact .inl (List.mem_cons_of_mem _ later)
      · rw [Map.lookup_insert_eq] at before
        split at before
        · rename_i same
          obtain rfl := Option.some.inj before
          subst same
          exact .inl List.mem_cons_self
        · exact .inr before

/-- Entries leave other keys alone. -/
theorem lookup_foldl_of_notMem {entries : List (Key × Value)} {map : Map Key Value} {key : Key}
    (fresh : key ∉ entries.map Prod.fst) :
    (entries.foldl (fun map entry => map.insert entry.1 entry.2) map).lookup key =
      map.lookup key := by
  induction entries generalizing map with
  | nil => rfl
  | cons entry entries ih =>
      rw [List.map_cons, List.mem_cons, not_or] at fresh
      rw [List.foldl_cons, ih fresh.2, Map.lookup_insert_eq, if_neg fresh.1]

/-- Each of the entries with different keys is found. -/
theorem lookup_foldl_of_mem {entries : List (Key × Value)} {map : Map Key Value} {key : Key}
    {value : Value} (nodup : (entries.map Prod.fst).Nodup) (member : (key, value) ∈ entries) :
    (entries.foldl (fun map entry => map.insert entry.1 entry.2) map).lookup key = some value := by
  induction entries generalizing map with
  | nil => simp at member
  | cons entry entries ih =>
      obtain ⟨fresh, nodup⟩ := List.nodup_cons.mp nodup
      rcases List.mem_cons.mp member with rfl | later
      · rw [List.foldl_cons, lookup_foldl_of_notMem fresh, Finmap.lookup_insert]
      · exact ih nodup later

/-- What a collected map holds is one of the entries. -/
theorem mem_of_lookup_collect {entries : List (Key × Value)} {key : Key} {value : Value}
    (found : (collect entries).lookup key = some value) : (key, value) ∈ entries := by
  rcases mem_or_of_lookup_foldl found with member | impossible
  · exact member
  · simp at impossible

/-- What was listed can be collected again. -/
theorem collect_list (listing : Listing Key Value) (map : Map Key Value) :
    collect (listing.list map) = map := by
  apply Finmap.ext_lookup
  intro key
  ext value
  constructor
  · intro found
    exact (listing.mem_list map key value).mp (mem_of_lookup_collect found)
  · intro found
    exact lookup_foldl_of_mem (listing.nodup map) ((listing.mem_list map key value).mpr found)

/-- A map with its entries in the order of the listing; of entries with the same key the
last one is kept. -/
def Serde.map (listing : Listing Key Value) (key : Serde Key) (value : Serde Value) :
    Serde (Map Key Value) where
  serialize map := do return .map (← (listing.list map).mapM (writeEntry key value))
  deserialize
    | .map entries => (entries.mapM (readEntry key value)).map collect
    | _ => none
  reads_back := by
    intro cbor map read
    cases cbor with
    | map entries =>
        obtain ⟨listed, isListed, rfl⟩ := Option.map_eq_some_iff.mp read
        have each : ∀ entry ∈ listing.list (collect listed), ∃ out,
            writeEntry key value entry = .ok out ∧ readEntry key value out = some entry := by
          intro entry member
          have isEntry := mem_of_lookup_collect ((listing.mem_list _ _ _).mp member)
          obtain ⟨item, isRead⟩ := Serde.read_of_mapM isListed entry isEntry
          exact writeEntry_of_readEntry isRead
        obtain ⟨out, written, again⟩ := Serde.mapM_round_trip each
        refine ⟨.map out, ?_, ?_⟩
        · rw [written]
          rfl
        · show (out.mapM (readEntry key value)).map collect = some (collect listed)
          rw [again, Option.map_some, collect_list]
    | _ => simp at read

/-- A map is readable when each of its keys and values is. -/
theorem Serde.readable_map {listing : Listing Key Value} {key : Serde Key} {value : Serde Value}
    {map : Map Key Value}
    (each : ∀ name content, map.lookup name = some content →
      key.Readable name ∧ value.Readable content) :
    (Serde.map listing key value).Readable map := by
  have entries : ∀ entry ∈ listing.list map, ∃ out,
      writeEntry key value entry = .ok out ∧ readEntry key value out = some entry := by
    rintro ⟨name, content⟩ member
    obtain ⟨⟨outName, isName⟩, ⟨outContent, isContent⟩⟩ :=
      each name content ((listing.mem_list map name content).mp member)
    have read : readEntry key value (outName, outContent) = some (name, content) := by
      simp [readEntry, isName, isContent]
    exact writeEntry_of_readEntry read
  obtain ⟨out, _, again⟩ := Serde.mapM_round_trip entries
  refine ⟨.map out, ?_⟩
  show (out.mapM (readEntry key value)).map collect = some map
  rw [again, Option.map_some, collect_list]

end Maps

/-- The elements of a tuple, one after another. -/
structure Tuple (Value : Type) where
  write : Value → Run (List Cbor)
  read : List Cbor → Option Value
  reads_back : ∀ items value, read items = some value →
    ∃ out, write value = .ok out ∧ read out = some value

namespace Tuple

variable {Value Rest : Type}

/-- The last element of a tuple. -/
def last (serde : Serde Value) : Tuple Value where
  write value := do return [← serde.serialize value]
  read
    | [item] => serde.deserialize item
    | _ => none
  reads_back := by
    intro items value read
    split at read
    · rename_i item
      obtain ⟨out, written, again⟩ := serde.reads_back item value read
      refine ⟨[out], ?_, again⟩
      rw [written]
      rfl
    · simp at read

/-- A tuple with one element more. -/
def cons (serde : Serde Value) (rest : Tuple Rest) : Tuple (Value × Rest) where
  write value := do
    let first ← serde.serialize value.1
    let others ← rest.write value.2
    return first :: others
  read
    | first :: others => do
        let first ← serde.deserialize first
        let others ← rest.read others
        return (first, others)
    | [] => none
  reads_back := by
    intro items value read
    cases items with
    | nil => simp at read
    | cons item items =>
        simp only [Option.bind_eq_bind, Option.bind_eq_some_iff, Option.pure_def,
          Option.some.injEq] at read
        obtain ⟨first, isFirst, others, isOthers, rfl⟩ := read
        obtain ⟨out, written, again⟩ := serde.reads_back item first isFirst
        obtain ⟨outs, restWritten, restAgain⟩ := rest.reads_back items others isOthers
        refine ⟨out :: outs, ?_, ?_⟩
        · rw [written, Run.ok_bind, restWritten]
          rfl
        · simp only [again, restAgain, Option.bind_eq_bind, Option.bind_some]
          rfl

/-- A tuple is an array of as many items as it has elements. -/
def serde (tuple : Tuple Value) : Serde Value where
  serialize value := do return .array (← tuple.write value)
  deserialize
    | .array items => tuple.read items
    | _ => none
  reads_back := by
    intro cbor value read
    cases cbor with
    | array items =>
        obtain ⟨out, written, again⟩ := tuple.reads_back items value read
        refine ⟨.array out, ?_, again⟩
        rw [written]
        rfl
    | _ => simp at read

end Tuple

/-- The items under these names are read as the value, whatever else there is. -/
def Fills {Value : Type} (names : List (List Char))
    (read : (List Char → Option Cbor) → Option Value) (items : List Cbor) (value : Value) : Prop :=
  items.length = names.length ∧
    ∀ find, names.map find = items.map some → read find = some value

namespace Fills

variable {Value Rest Other : Type} {names names' : List (List Char)} {items items' : List Cbor}
  {read : (List Char → Option Cbor) → Option Value}
  {read' : (List Char → Option Cbor) → Option Rest} {value : Value} {value' : Rest}

/-- A record with one field is filled by what the field is read from. -/
theorem single {name : List Char} {cbor : Cbor}
    (reads : ∀ find, find name = some cbor → read find = some value) :
    Fills [name] read [cbor] value := by
  refine ⟨rfl, ?_⟩
  intro find found
  exact reads find (by simpa using found)

/-- Two records side by side are filled by what fills each. -/
theorem append (fills : Fills names read items value) (fills' : Fills names' read' items' value') :
    Fills (names ++ names')
      (fun find => do
        let left ← read find
        let right ← read' find
        return (left, right))
      (items ++ items') (value, value') := by
  refine ⟨?_, ?_⟩
  · rw [List.length_append, List.length_append, fills.1, fills'.1]
  · intro find found
    rw [List.map_append, List.map_append] at found
    obtain ⟨front, back⟩ := List.append_inj found (by simp [fills.1])
    simp only [fills.2 find front, fills'.2 find back, Option.bind_eq_bind, Option.bind_some]
    rfl

/-- A record is filled under any change of its value. -/
theorem map (fills : Fills names read items value) (change : Value → Other) :
    Fills names (fun find => (read find).map change) items (change value) := by
  refine ⟨fills.1, ?_⟩
  intro find found
  show (read find).map change = some (change value)
  rw [fills.2 find found, Option.map_some]

end Fills

/-- The fields of a structure, each looked up by its name. -/
structure Record (Value : Type) where
  names : List (List Char)
  write : Value → Run (List Cbor)
  read : (List Char → Option Cbor) → Option Value
  reads_back : ∀ find value, read find = some value →
    ∃ items, write value = .ok items ∧ Fills names read items value

namespace Record

variable {Value Rest Other : Type}

/-- A field that has to be there. -/
def required (name : String) (serde : Serde Value) : Record Value where
  names := [name.toList]
  write value := do return [← serde.serialize value]
  read find := (find name.toList).bind serde.deserialize
  reads_back := by
    intro find value read
    obtain ⟨cbor, _, isValue⟩ := Option.bind_eq_some_iff.mp read
    obtain ⟨out, written, again⟩ := serde.reads_back cbor value isValue
    refine ⟨[out], ?_, Fills.single ?_⟩
    · rw [written]
      rfl
    · intro find found
      rw [found, Option.bind_some, again]

/-- `#[serde(default)]`: a field that is not there has the default, which must have a form of
its own. -/
def defaulted (name : String) (serde : Serde Value) (default : Value)
    (readable : serde.Readable default) : Record Value where
  names := [name.toList]
  write value := do return [← serde.serialize value]
  read find :=
    match find name.toList with
    | some cbor => serde.deserialize cbor
    | none => some default
  reads_back := by
    intro find value read
    have isReadable : serde.Readable value := by
      split at read
      · exact ⟨_, read⟩
      · rwa [← Option.some.inj read]
    obtain ⟨out, written, again⟩ := isReadable.round_trip
    refine ⟨[out], ?_, Fills.single ?_⟩
    · rw [written]
      rfl
    · intro find found
      rw [found]
      exact again

/-- A field of an `Option`: nothing when it is not there. -/
def optional (name : String) (serde : Serde Value) (solid : serde.deserialize .null = none) :
    Record (Option Value) :=
  defaulted name (serde.option solid) none ⟨.null, rfl⟩

/-- The fields of one record and then those of another. -/
def and (first : Record Value) (rest : Record Rest) : Record (Value × Rest) where
  names := first.names ++ rest.names
  write value := do
    let left ← first.write value.1
    let right ← rest.write value.2
    return left ++ right
  read find := do
    let left ← first.read find
    let right ← rest.read find
    return (left, right)
  reads_back := by
    intro find value read
    simp only [Option.bind_eq_bind, Option.bind_eq_some_iff, Option.pure_def,
      Option.some.injEq] at read
    obtain ⟨left, isLeft, right, isRight, rfl⟩ := read
    obtain ⟨items, written, fills⟩ := first.reads_back find left isLeft
    obtain ⟨items', written', fills'⟩ := rest.reads_back find right isRight
    refine ⟨items ++ items', ?_, fills.append fills'⟩
    rw [written, Run.ok_bind, written']
    rfl

/-- The same fields for a type that stands for another. -/
def via (record : Record Value) (equiv : Other ≃ Value) : Record Other where
  names := record.names
  write value := record.write (equiv value)
  read find := (record.read find).map equiv.symm
  reads_back := by
    intro find value read
    obtain ⟨found, isFound, rfl⟩ := Option.map_eq_some_iff.mp read
    obtain ⟨items, written, fills⟩ := record.reads_back find found isFound
    refine ⟨items, ?_, fills.map equiv.symm⟩
    rw [Equiv.apply_symm_apply, written]

/-- What can be read of a value's form fills the field. -/
theorem fills_required (name : String) {serde : Serde Value} {cbor : Cbor} {value : Value}
    (read : serde.deserialize cbor = some value) :
    Fills (required name serde).names (required name serde).read [cbor] value := by
  apply Fills.single
  intro find found
  show (find name.toList).bind serde.deserialize = some value
  rw [found, Option.bind_some, read]

/-- A field that may be absent is filled as well. -/
theorem fills_defaulted (name : String) {serde : Serde Value} {default : Value}
    (readable : serde.Readable default) {cbor : Cbor} {value : Value}
    (read : serde.deserialize cbor = some value) :
    Fills (defaulted name serde default readable).names (defaulted name serde default readable).read
      [cbor] value := by
  apply Fills.single
  intro find found
  unfold defaulted
  dsimp only
  rw [found]
  exact read

/-- The fields of the value, if they have forms, are read as something. -/
def Accepts (record : Record Value) (value : Value) : Prop :=
  ∀ items, record.write value = .ok items → ∃ other, Fills record.names record.read items other

/-- A field that has to be there accepts what its value accepts. -/
theorem accepts_required {name : String} {serde : Serde Value} {value : Value}
    (accepts : serde.Accepts value) : (required name serde).Accepts value := by
  intro items written
  obtain ⟨out, isOut, isItems⟩ := Run.bind_eq_ok_iff.mp written
  obtain rfl := Except.ok.inj isItems
  obtain ⟨other, read⟩ := Option.isSome_iff_exists.mp (accepts out isOut)
  exact ⟨other, fills_required name read⟩

/-- A field with a default accepts what its value accepts. -/
theorem accepts_defaulted {name : String} {serde : Serde Value} {default value : Value}
    {usual : serde.Readable default} (accepts : serde.Accepts value) :
    (defaulted name serde default usual).Accepts value := by
  intro items written
  obtain ⟨out, isOut, isItems⟩ := Run.bind_eq_ok_iff.mp written
  obtain rfl := Except.ok.inj isItems
  obtain ⟨other, read⟩ := Option.isSome_iff_exists.mp (accepts out isOut)
  refine ⟨other, Fills.single ?_⟩
  intro find found
  show (match find name.toList with
    | some cbor => serde.deserialize cbor
    | none => some default) = some other
  rw [found]
  exact read

/-- Two records side by side accept what each accepts. -/
theorem Accepts.and {first : Record Value} {rest : Record Rest} {value : Value} {value' : Rest}
    (accepts : first.Accepts value) (accepts' : rest.Accepts value') :
    (first.and rest).Accepts (value, value') := by
  intro items written
  obtain ⟨left, isLeft, written⟩ := Run.bind_eq_ok_iff.mp written
  obtain ⟨right, isRight, isItems⟩ := Run.bind_eq_ok_iff.mp written
  obtain rfl := Except.ok.inj isItems
  obtain ⟨other, fills⟩ := accepts left isLeft
  obtain ⟨other', fills'⟩ := accepts' right isRight
  exact ⟨(other, other'), fills.append fills'⟩

/-- A record accepts under another shape what it accepts. -/
theorem Accepts.via {record : Record Value} {equiv : Other ≃ Value} {value : Other}
    (accepts : record.Accepts (equiv value)) : (record.via equiv).Accepts value := by
  intro items written
  obtain ⟨other, fills⟩ := accepts items written
  exact ⟨equiv.symm other, fills.map equiv.symm⟩

/-- The entries of a map by the names that are their keys. -/
def fieldsOf (entries : List (Cbor × Cbor)) : Option (List (List Char × Cbor)) :=
  entries.mapM fun entry =>
    match entry.1 with
    | .text name => some (name, entry.2)
    | _ => none

/-- Each of the names is the key of one field at most. -/
def distinct (names : List (List Char)) (fields : List (List Char × Cbor)) : Bool :=
  names.all fun name => decide ((fields.map Prod.fst).count name ≤ 1)

theorem fieldsOf_zip (names : List (List Char)) (items : List Cbor) :
    fieldsOf ((names.zip items).map fun field => (.text field.1, field.2)) =
      some (names.zip items) := by
  unfold fieldsOf
  induction names.zip items with
  | nil => rfl
  | cons field fields ih =>
      rw [List.map_cons, List.mapM_cons, ih]
      rfl

/-- Fields with different names are distinct. -/
theorem distinct_of_nodup {names : List (List Char)} {fields : List (List Char × Cbor)}
    (nodup : (fields.map Prod.fst).Nodup) : distinct names fields = true := by
  unfold distinct
  rw [List.all_eq_true]
  intro name _
  exact decide_eq_true (List.nodup_iff_count_le_one.mp nodup name)

/-- Distinct names find the items they were put beside. -/
theorem map_lookup_zip {names : List (List Char)} {items : List Cbor} (nodup : names.Nodup)
    (length : items.length = names.length) :
    names.map (fun name => (names.zip items).lookup name) = items.map some := by
  induction names generalizing items with
  | nil =>
      have empty : items = [] := List.length_eq_zero_iff.mp length
      simp [empty]
  | cons name names ih =>
      cases items with
      | nil => simp at length
      | cons item items =>
          obtain ⟨fresh, nodup⟩ := List.nodup_cons.mp nodup
          have rest := ih nodup (by simpa using length)
          have skips : names.map (fun other => ((name, item) :: names.zip items).lookup other) =
              names.map (fun other => (names.zip items).lookup other) := by
            apply List.map_congr_left
            intro other member
            have different : (other == name) = false := by
              rw [beq_eq_false_iff_ne]
              rintro rfl
              exact fresh member
            rw [List.lookup_cons, different]
          rw [List.zip_cons_cons, List.map_cons, skips, rest, List.lookup_cons_self, List.map_cons]

/-- What a map has for the fields of a structure. A field given twice is refused, one that
is not known is passed over. -/
def readMap (record : Record Value) (entries : List (Cbor × Cbor)) : Option Value := do
  let fields ← fieldsOf entries
  if distinct record.names fields then record.read fun name => fields.lookup name else none

/-- The fields written beside their names. -/
def entries (record : Record Value) (items : List Cbor) : List (Cbor × Cbor) :=
  (record.names.zip items).map fun field => (.text field.1, field.2)

/-- A record reads back the entries that it was written to. -/
theorem readMap_entries {record : Record Value} {items : List Cbor} {value : Value}
    (fills : Fills record.names record.read items value) (nodup : record.names.Nodup) :
    record.readMap (record.entries items) = some value := by
  have names : (record.names.zip items).map Prod.fst = record.names :=
    List.map_fst_zip (by rw [fills.1])
  have once : distinct record.names (record.names.zip items) = true :=
    distinct_of_nodup (by rwa [names])
  simp only [readMap, entries, fieldsOf_zip, Option.bind_eq_bind, Option.bind_some, once, if_true]
  exact fills.2 _ (map_lookup_zip nodup fills.1)

/-- A derived structure is a map from the names of its fields. -/
def serde (record : Record Value) (nodup : record.names.Nodup) : Serde Value where
  serialize value := do return .map (record.entries (← record.write value))
  deserialize
    | .map entries => record.readMap entries
    | _ => none
  reads_back := by
    intro cbor value read
    cases cbor with
    | map entries =>
        obtain ⟨fields, _, isRead⟩ := Option.bind_eq_some_iff.mp read
        split at isRead
        · obtain ⟨items, written, fills⟩ := record.reads_back _ value isRead
          refine ⟨.map (record.entries items), ?_, readMap_entries fills nodup⟩
          rw [written]
          rfl
        · simp at isRead
    | _ => simp at read

/-- A structure is readable when its fields are. -/
theorem readable_serde {record : Record Value} {nodup : record.names.Nodup} {items : List Cbor}
    {value : Value} (fills : Fills record.names record.read items value) :
    (record.serde nodup).Readable value :=
  ⟨.map (record.entries items), readMap_entries fills nodup⟩

/-- A record accepts as a whole what its fields accept. -/
theorem Accepts.serde {record : Record Value} {nodup : record.names.Nodup} {value : Value}
    (accepts : record.Accepts value) : (record.serde nodup).Accepts value := by
  intro out written
  obtain ⟨items, isItems, isOut⟩ := Run.bind_eq_ok_iff.mp written
  obtain rfl := Except.ok.inj isOut
  obtain ⟨other, fills⟩ := accepts items isItems
  have read : record.readMap (record.entries items) = some other := readMap_entries fills nodup
  show (record.readMap (record.entries items)).isSome = true
  rw [read]
  rfl

end Record

end Ciruela.Foundation
