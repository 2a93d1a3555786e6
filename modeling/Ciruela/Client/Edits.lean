import Ciruela.Client.PutFile
import Ciruela.Daemon.Metadata.History

/-!
# Edits of one directory

Clients that put files into one directory do not know of each other. Each uploads an index with
one file more than the index that it had fetched, and the server takes it up only over the image of
that index. So the indexes that are committed are made one from another, and what the directory
contains is what it contained first, with the files that were committed written over it in their
order: no edit is lost in another.
-/

namespace Ciruela.Client

open Foundation
open Cluster (content)
open Metadata (Env Event Meta Op Record Records Change Demand Content accepted machine OnSpot
  Succeeding)

/-- The edit was made of one of these indexes, and gives one of them, which can be read. -/
def EditOf (tools : Tools) (indexes : Set (List UInt8)) (made : Edit) : Prop :=
  ∃ raw, Made tools raw made ∧ made.index.Reads tools.parser tools.emitter ∧
    raw.data ∈ indexes ∧ made.newIndex tools ∈ indexes

/-- The operation is asked for with the upload of an edit. -/
def Asks (op : Op) (made : Edit) : Prop :=
  ∃ demand, op.demand = some demand ∧ demand.image = made.image ∧
    demand.replaces = some (some made.oldImage)

/-- All that is uploaded are edits, each the one that is known for its operation. What was uploaded
is committed or aborted. -/
def OnlyEdits (tools : Tools) (indexes : Set (List UInt8)) (edited : Op → Edit) (op : Op) : Prop :=
  op.finishes = true ∨ EditOf tools indexes (edited op) ∧ Asks op (edited op)

/-- The upload of an edit was taken up. -/
def Begun (edited : Op → Edit) (history : List Event) (made : Edit) : Prop :=
  ∃ event ∈ history, event.answer = accepted .new ∧ edited event.op = made

/-- The image that an event commits. -/
def committedImage (spot : Spot) (event : Event) : Option ImageId :=
  if event.op.isDirCommitted then (event.before.record spot).writing.map Metadata.Writing.image
  else none

/-- The recorded image is that of an index with these edits over the first. -/
def Contains (tools : Tools) (indexes : Set (List UInt8)) (first : List UInt8)
    (recorded : Option Content) (done : List Edit) : Prop :=
  ∃ data ∈ indexes, ∃ image, tools.getHash data = some image ∧ Records recorded image ∧
    content tools.parser data = overlays (done.map (Edit.write tools)) (content tools.parser first)

/-- What is recorded contains these edits, and what is being uploaded is one more. -/
structure Settled (tools : Tools) (indexes : Set (List UInt8)) (edited : Op → Edit)
    (first : List UInt8) (history : List Event) (record : Record) (done : List Edit) : Prop where
  consistent : record.Consistent
  contains : Contains tools indexes first record.state done
  uploading : ∀ writing, record.writing = some writing → ∃ made, EditOf tools indexes made ∧
    Begun edited history made ∧ made.image = writing.image ∧ Records record.state made.oldImage
  begun : ∀ made ∈ done, EditOf tools indexes made ∧ Begun edited history made

section Step

variable {tools : Tools} {indexes : Set (List UInt8)} {edited : Op → Edit} {first : List UInt8}
  {env : Env} {spot : Spot} {history : List Event} {event : Event} {done : List Edit}

/-- What was begun in a history was begun in a longer one. -/
theorem Begun.append {made : Edit} (begun : Begun edited history made)
    (event : Event) : Begun edited (history ++ [event]) made := by
  obtain ⟨first, member, answered, isEdit⟩ := begun
  exact ⟨first, List.mem_append_left _ member, answered, isEdit⟩

/-- A state file records one image. -/
theorem records_unique {recorded : Option Content} {image other : ImageId}
    (records : Records recorded image) (again : Records recorded other) : image = other := by
  obtain ⟨state, isState, rfl⟩ := records
  obtain ⟨state', isState', rfl⟩ := again
  cases isState.symm.trans isState'
  rfl

/-- Two records with the same images have the same contents. -/
theorem Contains.of_records {recorded after : Option Content}
    (contains : Contains tools indexes first recorded done)
    (same : ∀ image, Records recorded image → Records after image) :
    Contains tools indexes first after done := by
  obtain ⟨data, member, image, hashed, records, isContent⟩ := contains
  exact ⟨data, member, image, hashed, same image records, isContent⟩

/-- The image of a commit is the one that was being written. -/
theorem committedImage_eq_some_iff {image : ImageId} : committedImage spot event = some image ↔
    event.op.isDirCommitted = true ∧
      ∃ writing, (event.before.record spot).writing = some writing ∧ writing.image = image := by
  unfold committedImage
  split
  · rename_i commit
    rw [Option.map_eq_some_iff]
    exact ⟨fun found => ⟨commit, found⟩, fun found => found.2⟩
  · rename_i other
    constructor
    · intro none
      cases none
    · exact fun found => absurd found.1 other

/-- An upload that is begun is asked for with an edit. -/
theorem OnlyEdits.asks {op : Op} {demand : Demand} (edits : OnlyEdits tools indexes edited op)
    (asked : op.demand = some demand) : EditOf tools indexes (edited op) ∧
      demand.image = (edited op).image ∧ demand.replaces = some (some (edited op).oldImage) := by
  rcases edits with finishes | ⟨isEdit, other, isOther, image, replaces⟩
  · rw [Op.finishes_of_demand asked] at finishes
    cases finishes
  · obtain rfl := Option.some.inj (asked.symm.trans isOther)
    exact ⟨isEdit, image, replaces⟩

/-- A step that commits nothing keeps what is recorded. -/
theorem Settled.kept
    (settled : Settled tools indexes edited first history (event.before.record spot) done)
    (change : Change env (event.before.record spot) event.op event.answer (event.after.record spot))
    (working : ¬ event.op.io.Faulty) (edits : OnlyEdits tools indexes edited event.op)
    (still : committedImage spot event = none) :
    Settled tools indexes edited first (history ++ [event]) (event.after.record spot) done := by
  have goesOn : event.op.isDirCommitted = true → (event.before.record spot).writing = none := by
    intro commit
    cases entry : (event.before.record spot).writing with
    | none => rfl
    | some writing =>
        rw [committedImage_eq_some_iff.mpr ⟨commit, writing, entry, rfl⟩] at still
        cases still
  have consistent := change.consistent working settled.consistent
  have earlier : ∀ made ∈ done,
      EditOf tools indexes made ∧ Begun edited (history ++ [event]) made := by
    intro made member
    obtain ⟨isEdit, begun⟩ := settled.begun made member
    exact ⟨isEdit, begun.append event⟩
  have before : ∀ writing, (event.before.record spot).writing = some writing →
      ∃ made, EditOf tools indexes made ∧ Begun edited (history ++ [event]) made ∧
        made.image = writing.image ∧ Records (event.before.record spot).state made.oldImage := by
    intro writing entry
    obtain ⟨made, isEdit, begun, image, records⟩ := settled.uploading writing entry
    exact ⟨made, isEdit, begun.append event, image, records⟩
  have contains := settled.contains
  have last : event ∈ history ++ [event] := by simp
  clear still settled
  obtain ⟨store, op, answer, next⟩ := event
  dsimp only at *
  generalize store.record spot = record at *
  generalize next.record spot = record' at *
  cases change with
  | kept => exact ⟨consistent, contains, before, earlier⟩
  | begun asked admitted vacant free =>
      refine ⟨consistent, contains, ?_, earlier⟩
      intro writing entry
      obtain rfl := Option.some.inj entry
      obtain ⟨isEdit, image, replaces⟩ := edits.asks asked
      refine ⟨_, isEdit, ⟨_, last, rfl, rfl⟩, image.symm, ?_⟩
      -- a replacement is begun over the image that it names
      obtain ⟨data, _, recorded, _, ⟨state, isState, isImage⟩, _⟩ := contains
      rcases free with missing | ⟨found, isFound, _, overFound⟩
      · rw [missing] at isState
        cases isState
      · refine ⟨found, isFound, ?_⟩
        rcases overFound with anything | named
        · rw [anything] at replaces
          cases replaces
        · rw [named] at replaces
          exact Option.some.inj (Option.some.inj replaces)
  | extended asked admitted writing same =>
      refine ⟨consistent, contains, ?_, earlier⟩
      intro entry isEntry
      obtain rfl := Option.some.inj isEntry
      obtain ⟨made, isEdit, begun, image, records⟩ := before _ writing
      exact ⟨made, isEdit, begun, image, records⟩
  | @merged _ _ state asked admitted vacant committed same =>
      refine ⟨consistent, contains.of_records ?_, ?_, earlier⟩
      · rintro image ⟨found, isFound, rfl⟩
        cases committed.symm.trans isFound
        exact ⟨_, rfl, rfl⟩
      · intro writing entry
        cases vacant.symm.trans entry
  | unsaved _ _ faulty => exact absurd faulty working
  | resumed =>
      rcases edits with finishes | ⟨_, demand, asked, _⟩
      · cases finishes
      · cases asked
  | resumedNew =>
      rcases edits with finishes | ⟨_, demand, asked, _⟩
      · cases finishes
      · cases asked
  | aborted => exact ⟨consistent, contains, fun _ entry => absurd entry (by simp), earlier⟩
  | committed writing => cases (goesOn rfl).symm.trans writing
  | unfinished => exact ⟨consistent, contains, fun _ entry => absurd entry (by simp), earlier⟩
  | removed =>
      rcases edits with finishes | ⟨_, demand, asked, _⟩
      · cases finishes
      · cases asked

/-- A commit writes one more edit over what there was. -/
theorem Settled.committed
    (settled : Settled tools indexes edited first history (event.before.record spot) done)
    (apart : Set.InjOn tools.getHash indexes)
    (change : Change env (event.before.record spot) event.op event.answer (event.after.record spot))
    (working : ¬ event.op.io.Faulty) {image : ImageId}
    (commits : committedImage spot event = some image) :
    ∃ made, made.image = image ∧ Settled tools indexes edited first (history ++ [event])
      (event.after.record spot) (done ++ [made]) := by
  obtain ⟨commit, writing, entry, rfl⟩ := committedImage_eq_some_iff.mp commits
  have after := change.commits commit working entry (settled.consistent writing entry)
  obtain ⟨made, isEdit, begun, isImage, isOld⟩ := settled.uploading writing entry
  refine ⟨made, isImage, ?_⟩
  rw [after]
  refine ⟨fun _ entry => absurd entry (by simp), ?_, fun _ entry => absurd entry (by simp), ?_⟩
  · obtain ⟨data, member, image, hashed, records, isContent⟩ := settled.contains
    obtain ⟨raw, isMade, reads, fetched, written⟩ := isEdit
    obtain ⟨oldImage, index, _, _, _, _, parsed, inserted⟩ := isMade.exists_insert
    obtain ⟨fetchedFrom, isNew, _, contains⟩ := insert_written parsed inserted reads
    -- the index that was fetched is the one that is recorded
    have same : raw.data = data := by
      refine apart fetched member ?_
      rw [fetchedFrom, hashed, records_unique isOld records]
    refine ⟨made.newIndex tools, written, made.image, isNew, ⟨_, rfl, isImage.symm⟩, ?_⟩
    rw [contains, same, isContent, List.map_append, List.map_singleton, overlays_concat]
  · intro other member
    rcases List.mem_append.mp member with old | new
    · obtain ⟨isOther, earlier⟩ := settled.begun other old
      exact ⟨isOther, earlier.append event⟩
    · obtain rfl := List.mem_singleton.mp new
      exact ⟨isEdit, begun.append event⟩

/-- The edits that are committed are written over the first index, in the order of their commits. -/
theorem edits_kept {start finish : Meta} {trace : List Event} {image : ImageId}
    (steps : (machine env).Steps start trace finish) (onSpot : OnSpot spot trace)
    (succeeding : Succeeding trace) (vacant : (start.record spot).writing = none)
    (recorded : Records (start.record spot).state image)
    (isFirst : tools.getHash first = some image) (member : first ∈ indexes)
    (apart : Set.InjOn tools.getHash indexes)
    (edits : ∀ event ∈ trace, OnlyEdits tools indexes edited event.op) :
    ∃ done, done.map Edit.image = trace.filterMap (committedImage spot) ∧
      (∀ made ∈ done, EditOf tools indexes made ∧ Begun edited trace made) ∧
      ∃ data ∈ indexes, ∃ image, tools.getHash data = some image ∧
        Records (finish.record spot).state image ∧
        content tools.parser data =
          overlays (done.map (Edit.write tools)) (content tools.parser first) ∧
        ∀ earlier made later, done = earlier ++ made :: later →
          (∀ other ∈ later, ¬ Cluster.namesOf other.file <+: Cluster.namesOf made.file) →
            ∃ size hashes,
              tools.hashFile made.index.hashType made.index.blockSize made.data =
                some (size, hashes) ∧
              content tools.parser data (Cluster.namesOf made.file) =
                some (.remoteFile false size ⟨made.index.blockSize, hashes.hashes⟩) := by
  have settled := steps.preserves_history
    (fun history store => ∃ done, done.map Edit.image = history.filterMap (committedImage spot) ∧
      Settled tools indexes edited first history (store.record spot) done)
    (fun event => event.op.vpath.place = spot.place ∧ ¬ event.op.io.Faulty ∧
      OnlyEdits tools indexes edited event.op) ?_ ?_ ?_
  · obtain ⟨done, images, settled⟩ := settled
    obtain ⟨data, isIndex, image, hashed, records, isContent⟩ := settled.contains
    refine ⟨done, images, settled.begun, data, isIndex, image, hashed, records, isContent, ?_⟩
    rintro earlier made later rfl kept
    obtain ⟨⟨raw, isMade, _⟩, _⟩ := settled.begun made (by simp)
    obtain ⟨_, _, _, _, _, _, _, inserted⟩ := isMade.exists_insert
    obtain ⟨size, hashes, hashed, isItem⟩ := exists_item inserted
    refine ⟨size, hashes, hashed, ?_⟩
    rw [isContent, List.map_append, List.map_cons, Edit.write, isItem]
    refine overlays_kept fun write member => ?_
    obtain ⟨other, isOther, rfl⟩ := List.mem_map.mp member
    exact kept other isOther
  · rintro history event valid ⟨located, working, allowed⟩ ⟨done, images, settled⟩
    have change := Metadata.takes_change valid located
    cases commits : committedImage spot event with
    | none =>
        refine ⟨done, ?_, settled.kept change working allowed commits⟩
        rw [images, List.filterMap_append]
        simp [commits]
    | some image =>
        obtain ⟨made, isImage, settled⟩ := settled.committed apart change working commits
        refine ⟨done ++ [made], ?_, settled⟩
        rw [List.map_append, images, List.filterMap_append]
        simp [commits, isImage]
  · intro event member
    exact ⟨onSpot event member, succeeding.not_faulty member, edits event member⟩
  · refine ⟨[], rfl, fun writing entry => ?_, ?_, fun writing entry => ?_, by simp⟩
    · cases vacant.symm.trans entry
    · exact ⟨first, member, image, isFirst, recorded, rfl⟩
    · cases vacant.symm.trans entry

end Step

namespace Sample

open Cluster (MutableIndex RawIndex rootPath)
open Cluster.Sample (small emitter)

/-- The hashes of the blocks of some data. -/
def hashed (blockSize : Nat) (data : List UInt8) : Cluster.Hashes :=
  ⟨blockSize, Ciruela.hashFile BlockReader.Sample.digest blockSize data⟩

/-- The id of an index are its bytes here. -/
def bare : Tools where
  parser := fun _ => none
  emitter := emitter
  getHash := fun data => some ⟨data⟩
  digest := fun _ => BlockReader.Sample.digest
  hashFile := fun _ blockSize data => some (data.length, hashed blockSize data)

/-- The file that the first edit puts. -/
def motd : Path := .ofText "/motd".toList

/-- The file that the second edit puts, in a directory that has to be made. -/
def issue : Path := .ofText "/var/issue".toList

/-- The index with one file more. -/
def adding (path : Path) (index : MutableIndex) : MutableIndex :=
  (index.insertFile bare.hashFile path [7] false).1

/-- The index as it is read again. -/
def again (index : MutableIndex) : MutableIndex :=
  { index with
    root := index.root.prune (Cluster.Item.asParsed index.blockSize)
    sorted := index.sorted.prune }

/-- The index that the first edit uploads. -/
def withMotd : MutableIndex := adding motd small

/-- The index that the second edit uploads: it has not seen the first. -/
def withIssue : MutableIndex := adding issue small

/-- The index with both files: the second edit again, made of what the first has left. -/
def withBoth : MutableIndex := adding issue (again withMotd)

/-- Tools whose parser reads back every index of the example. -/
def toolbox : Tools :=
  { bare with parser := Cluster.Sample.parser [small, withMotd, withIssue, withBoth] }

/-- Three edits, of which the second is made of the same index as the first. -/
def early : Edit := ⟨⟨[3]⟩, ⟨[4]⟩, withMotd, motd, [7]⟩

/-- An edit of the same index as the first: it comes too late. -/
def late : Edit := ⟨⟨[3]⟩, ⟨[5]⟩, withIssue, issue, [7]⟩

/-- The same edit again, of the index that is recorded by then. -/
def retried : Edit := ⟨⟨[4]⟩, ⟨[6]⟩, withBoth, issue, [7]⟩

/-- The edits are made of the indexes that the clients have fetched. -/
theorem editOf {made : Edit} (member : made ∈ [early, late, retried]) :
    EditOf toolbox Set.univ made := by
  have puts : ∀ data path made,
      (∃ after, put toolbox ⟨⟨∅⟩, ⟨∅⟩⟩ ⟨data, 0⟩ path [7] = .ok (.ok (made, after))) →
        made.index.Reads toolbox.parser toolbox.emitter → EditOf toolbox Set.univ made := by
    rintro data path made ⟨after, isPut⟩ reads
    exact ⟨⟨data, 0⟩, .put isPut, reads, Set.mem_univ _, Set.mem_univ _⟩
  simp only [List.mem_cons, List.not_mem_nil, or_false] at member
  rcases member with rfl | rfl | rfl
  · exact puts [3] motd early ⟨_, rfl⟩ rfl
  · exact puts [3] issue late ⟨_, rfl⟩ rfl
  · exact puts [4] issue retried ⟨_, rfl⟩ rfl

/-- A request with the upload of an edit. -/
def upload (made : Edit) : Op := Metadata.Sample.replace made.image (some made.oldImage)

/-- The edits are known by their images. -/
def editedBy (op : Op) : Edit :=
  match op.demand.map Demand.image with
  | some ⟨[4]⟩ => early
  | some ⟨[5]⟩ => late
  | _ => retried

/-- The edits of the example are told by their uploads. -/
theorem editedBy_upload {made : Edit} (member : made ∈ [early, late, retried]) :
    editedBy (upload made) = made := by
  simp only [List.mem_cons, List.not_mem_nil, or_false] at member
  rcases member with rfl | rfl | rfl <;> rfl

/-- Every upload of the example is one of the edits. -/
theorem editedBy_mem (op : Op) : editedBy op ∈ [early, late, retried] := by
  unfold editedBy
  split <;> simp

/-- The first index is there. -/
def start : Meta :=
  ((machine (Metadata.Sample.env false)).play (Meta.new Tree.empty Tree.empty)
    [Metadata.Sample.append ⟨[3]⟩, Metadata.Sample.commit]).2

/-- The second edit is refused, and its file is put again. -/
def ops : List Op :=
  [upload early, upload late, Metadata.Sample.commit, upload late, upload retried,
    Metadata.Sample.commit]

/-- The edits as the metadata takes them. -/
def played : List Event × Meta := (machine (Metadata.Sample.env false)).play start ops

end Sample

open Sample in
/-- Both files are there. -/
theorem edits_kept_retried :
    ∃ data, Records (played.2.record Metadata.Sample.spot).state ⟨[6]⟩ ∧
      toolbox.getHash data = some ⟨[6]⟩ ∧
      content toolbox.parser data (Cluster.namesOf motd) =
        some (.remoteFile false 1 (hashed early.index.blockSize [7])) ∧
      content toolbox.parser data (Cluster.namesOf issue) =
        some (.remoteFile false 1 (hashed retried.index.blockSize [7])) := by
  have apart : Set.InjOn toolbox.getHash Set.univ := by
    intro data _ other _ same
    exact congrArg ImageId.bytes (Option.some.inj same)
  have asks : ∀ made ∈ [early, late, retried],
      OnlyEdits toolbox Set.univ editedBy (upload made) := by
    intro made member
    refine .inr ?_
    rw [editedBy_upload member]
    exact ⟨editOf member, _, rfl, rfl, rfl⟩
  have edits : ∀ op ∈ ops, OnlyEdits toolbox Set.univ editedBy op := by
    intro op member
    simp only [ops, List.mem_cons, List.not_mem_nil, or_false] at member
    rcases member with rfl | rfl | rfl | rfl | rfl | rfl
    · exact asks _ (by simp)
    · exact asks _ (by simp)
    · exact .inl rfl
    · exact asks _ (by simp)
    · exact asks _ (by simp)
    · exact .inl rfl
  have onSpot : OnSpot Metadata.Sample.spot played.1 := Metadata.onSpot_play (by decide)
  have succeeding : Succeeding played.1 := Metadata.succeeding_play (by
    simp [ops, upload, Metadata.Sample.replace, Metadata.Sample.commit, Op.io])
  obtain ⟨done, images, begun, data, _, image, isHash, records, _, kept⟩ :=
    edits_kept (Machine.Steps.of_play (machine (Metadata.Sample.env false)) start ops) onSpot
      succeeding (by decide) (by decide) rfl (Set.mem_univ [3]) apart
      fun event member => edits event.op (Machine.Steps.op_mem_of_play member)
  have committed : done.map Edit.image = [⟨[4]⟩, ⟨[6]⟩] := images.trans (by decide)
  have known : ∀ made ∈ done, made ∈ [early, late, retried] := by
    intro made member
    obtain ⟨_, event, _, _, rfl⟩ := begun made member
    exact editedBy_mem event.op
  obtain ⟨one, rest, rfl, isOne, isRest⟩ := List.map_eq_cons_iff.mp committed
  obtain ⟨two, none, rfl, isTwo, isNone⟩ := List.map_eq_cons_iff.mp isRest
  obtain rfl := List.map_eq_nil_iff.mp isNone
  have isEarly : one = early := by
    have member := known one (by simp)
    simp only [List.mem_cons, List.not_mem_nil, or_false] at member
    rcases member with rfl | rfl | rfl
    · rfl
    · cases isOne
    · cases isOne
  have isRetried : two = retried := by
    have member := known two (by simp)
    simp only [List.mem_cons, List.not_mem_nil, or_false] at member
    rcases member with rfl | rfl | rfl
    · cases isTwo
    · cases isTwo
    · rfl
  subst isEarly isRetried
  have last : Records (played.2.record Metadata.Sample.spot).state ⟨[6]⟩ := by decide
  obtain rfl := records_unique records last
  obtain ⟨_, _, ofMotd, isMotd⟩ := kept [] early [retried] rfl (by decide)
  obtain ⟨_, _, ofIssue, isIssue⟩ := kept [early] retried [] rfl (by simp)
  cases ofMotd
  cases ofIssue
  exact ⟨data, last, isHash, isMotd, isIssue⟩

end Ciruela.Client
