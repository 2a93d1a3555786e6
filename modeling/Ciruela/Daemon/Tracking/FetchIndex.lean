import Ciruela.Daemon.Metadata.IndexFiles
import Ciruela.Foundation.Machine

/-!
# The registry of indexes

`Indexes::get` hands out the index of an image: one that is in use, one from a file, or
one that is fetched from a peer. A read or a fetch that is under way is shared by all
who ask. The registry keeps a weak reference to an index that was fetched; the last
handle that goes away removes the entry, some time later.

Handles and channels are numbered in the order they are made. `Inner` keeps the bytes
that the index was parsed from.
-/

namespace Ciruela

open Foundation

namespace FetchIndex

open Metadata (Error Io Meta)

/-- `Inner`: an index with the bytes that it was read from. -/
structure Inner where
  data : IndexData
  bytes : List UInt8
deriving DecidableEq

/-- `InProgress`: for which paths an index is fetched, and who is told when it is there. -/
structure InProgress where
  paths : List VPath
  wakeup : Bool
  /-- The channel everyone waits at. -/
  future : Nat

/-- `IndexRef`: an index that is there, or that is being fetched. -/
inductive IndexRef where
  | done (handle : Nat)
  | inProgress (inp : InProgress)

/-- A channel for the index of an image, with the handle that was sent. -/
structure Channel where
  id : ImageId
  handle : Option Nat
deriving DecidableEq

/-- A read of an index file, which has or has not ended. -/
structure Reader where
  id : ImageId
  sender : Nat
  result : Option (Except Error (IndexData × List UInt8))

/-- `State` of a fetcher. -/
inductive State where
  | start
  | fetching
  | waiting
deriving DecidableEq

/-- `FetchBase`: the future that fetches an index. -/
structure FetchBase where
  id : ImageId
  sender : Nat
  state : State
deriving DecidableEq

/-- `Indexes`: the registry, with the reads and fetches that are under way. -/
structure Indexes where
  registry : Map ImageId IndexRef
  inners : List Inner
  /-- The handles that somebody holds. -/
  live : Finset Nat
  /-- The handles that nobody holds any more, before their entry is removed. -/
  dropping : Finset Nat
  channels : List Channel
  readers : List Reader
  fetchers : List FetchBase
  /-- The indexes that are on their way to a file. -/
  stores : List (ImageId × List UInt8)
  /-- The gauge `FETCHING`. -/
  fetching : Int
  store : Meta

/-- `Indexes::new`. -/
def Indexes.new (store : Meta) : Indexes := ⟨∅, [], ∅, ∅, [], [], [], [], 0, store⟩

/-- What a request for an index says when it is polled. -/
inductive Reply where
  | pending
  | failed
  | data (bytes : List UInt8)
deriving DecidableEq

/-- What the surroundings decide in one turn of `poll_state`. -/
inductive Choice where
  | connect (found : Bool)
  | reply (reply : Reply)
  | wake (ready : Bool)
deriving DecidableEq

/-- What a poll of a fetcher gives. -/
inductive Polled where
  | ready (data : IndexData) (bytes : List UInt8)
  | notReady (state : State)

/-- `poll_state`; `none` where the choices do not fit the states. -/
def pollState (parser : Parser) (id : ImageId) :
    State → InProgress → List Choice → Run (Option (Polled × InProgress))
  | .start, inp, .connect found :: rest => do
      Run.assert (inp.paths ≠ []) "at least one path should be there"
      if found then pollState parser id .fetching { inp with wakeup := false } rest
      else pollState parser id .waiting { inp with wakeup := true } rest
  | .fetching, inp, .reply .pending :: _ => return some (.notReady .fetching, inp)
  | .fetching, inp, .reply .failed :: rest => pollState parser id .start inp rest
  | .fetching, inp, .reply (.data bytes) :: rest => do
      match ← IndexData.parse parser id bytes with
      | some data => return some (.ready data bytes, inp)
      | none => pollState parser id .start inp rest
  | .waiting, inp, .wake true :: rest => pollState parser id .start inp rest
  | .waiting, inp, .wake false :: _ => return some (.notReady .waiting, inp)
  | _, _, _ => return none

/-- What happens to the registry. -/
inductive Op where
  | get (vpath : VPath) (id : ImageId)
  /-- A read ends in the pool. -/
  | read (position : Nat) (io : Io)
  /-- The reactor looks at a read that has ended. -/
  | finishRead (position : Nat)
  | pollFetcher (position : Nat) (choices : List Choice) (deadline : Bool)
  /-- An index is written to its file in the pool. -/
  | store (position : Nat) (io : Io) (partly : List UInt8)
  /-- Somebody who has waited gets the index. -/
  | resolve (channel : Nat)
  /-- The last reference to an index goes away. -/
  | release (handle : Nat)
  /-- The handler of that gets the lock. -/
  | drop (handle : Nat)
  /-- A collector removes an index file. -/
  | removeIndex (io : Io) (group : FileName) (id : ImageId)

/-- What an operation gives back. -/
inductive Answer where
  | index (id : ImageId) (inner : Inner)
  | future (channel : Nat)
  | stored (id : ImageId) (bytes : List UInt8) (result : Except Error Unit)
  | unreachable
  | nothing

namespace Indexes

variable (indexes : Indexes)

/-- `spawn_try_read`: the index is looked for on the disk first. -/
def spawnTryRead (vpath : VPath) (id : ImageId) : Answer × Indexes :=
  let channel := indexes.channels.length
  (.future channel,
    { indexes with
      registry := indexes.registry.insert id (.inProgress ⟨[vpath], false, channel⟩)
      channels := indexes.channels ++ [⟨id, none⟩]
      readers := indexes.readers ++ [⟨id, channel, none⟩]
      fetching := indexes.fetching + 1 })

/-- `get`: an index that is there is given out, one that is being fetched is waited for. -/
def get (vpath : VPath) (id : ImageId) : Option (Answer × Indexes) :=
  match indexes.registry.lookup id with
  | some (.done handle) =>
      if handle ∈ indexes.live then do
        let inner ← indexes.inners[handle]?
        return (.index id inner, indexes)
      else some (indexes.spawnTryRead vpath id)
  | some (.inProgress inp) =>
      let paths :=
        if inp.paths.any fun path => decide (path.place = vpath.place) then inp.paths
        else inp.paths ++ [vpath]
      some (.future inp.future,
        { indexes with
          registry := indexes.registry.insert id (.inProgress { inp with paths := paths }) })
  | none => some (indexes.spawnTryRead vpath id)

/-- Make a handle and send it. -/
def send (channel : Nat) (inner : Inner) : Indexes :=
  let handle := indexes.inners.length
  { indexes with
    inners := indexes.inners ++ [inner]
    live := insert handle indexes.live
    channels := indexes.channels.modify channel fun channel => { channel with handle := some handle } }

/-- `FetchBase::poll`. -/
def pollFetcher (parser : Parser) (position : Nat) (base : FetchBase) (choices : List Choice)
    (deadline : Bool) : Option (Answer × Indexes) :=
  match indexes.registry.lookup base.id with
  | some (.inProgress inp) => do
      let (polled, inp) ← (← (pollState parser base.id base.state inp choices).toOption)
      match polled with
      | .ready data bytes =>
          let handle := indexes.inners.length
          let sent := indexes.send base.sender ⟨data, bytes⟩
          return (.nothing,
            { sent with
              registry := indexes.registry.insert base.id (.done handle)
              fetchers := indexes.fetchers.eraseIdx position
              stores := indexes.stores ++ [(base.id, bytes)]
              fetching := indexes.fetching - 1 })
      | .notReady state =>
          if deadline then
            return (.nothing,
              { indexes with
                registry := indexes.registry.erase base.id
                fetchers := indexes.fetchers.eraseIdx position
                fetching := indexes.fetching - 1 })
          else
            return (.nothing,
              { indexes with
                registry := indexes.registry.insert base.id (.inProgress inp)
                fetchers := indexes.fetchers.set position { base with state := state } })
  | _ => some (.unreachable, { indexes with fetchers := indexes.fetchers.eraseIdx position })

/-- The handles that are kept by the registry itself: the shared future of an entry in
progress has its result as long as the entry is there. -/
def kept : Finset Nat :=
  indexes.registry.keys.biUnion fun id =>
    match indexes.registry.lookup id with
    | some (.inProgress inp) => (indexes.channels[inp.future]?.bind Channel.handle).toFinset
    | _ => ∅

/-- One step of the registry. -/
def exec (parser : Parser) : Op → Option (Answer × Indexes)
  | .get vpath id => indexes.get vpath id
  | .read position io => do
      let reader ← indexes.readers[position]?
      if reader.result.isSome then none
      let (result, store) ← (indexes.store.readIndex parser io reader.id).toOption
      return (.nothing,
        { indexes with
          readers := indexes.readers.set position { reader with result := some result }
          store := store })
  | .finishRead position => do
      let reader ← indexes.readers[position]?
      let result ← reader.result
      let rest := { indexes with readers := indexes.readers.eraseIdx position }
      match result with
      | .ok (data, bytes) => return (.nothing, rest.send reader.sender ⟨data, bytes⟩)
      | .error _ =>
          return (.nothing,
            { rest with fetchers := rest.fetchers ++ [⟨reader.id, reader.sender, .start⟩] })
  | .pollFetcher position choices deadline => do
      let base ← indexes.fetchers[position]?
      indexes.pollFetcher parser position base choices deadline
  | .store position io partly => do
      let (id, bytes) ← indexes.stores[position]?
      let (result, store) ← ((indexes.store.markUsed id).writeIndex io id bytes partly).toOption
      return (.stored id bytes result,
        { indexes with stores := indexes.stores.eraseIdx position, store := store })
  | .resolve channel => do
      let channel ← indexes.channels[channel]?
      let handle ← channel.handle
      if handle ∈ indexes.live then do
        let inner ← indexes.inners[handle]?
        return (.index channel.id inner, indexes)
      else none
  | .release handle =>
      if handle ∈ indexes.live ∧ handle ∉ indexes.kept then
        some (.nothing, { indexes with
          live := indexes.live.erase handle
          dropping := insert handle indexes.dropping })
      else none
  | .drop handle =>
      if handle ∈ indexes.dropping then do
        let inner ← indexes.inners[handle]?
        return (.nothing, { indexes with
          dropping := indexes.dropping.erase handle
          registry := indexes.registry.erase inner.data.id })
      else none
  | .removeIndex io group id =>
      let files := (Metadata.removeFile io (indexes.store.indexes.files [group]) id.indexFile).2
      some (.nothing, { indexes with
        store := { indexes.store with
          indexes := indexes.store.indexes.setFiles [group] files } })

end Indexes

/-- The registry as a machine. -/
def machine (parser : Parser) : Machine Indexes Op Answer := ⟨fun indexes op => indexes.exec parser op⟩

/-- A step of the registry. -/
abbrev Event := Transition Indexes Op Answer

section Turns

variable {parser : Parser}

/-- A reply that ends the poll is one of the choices, and it parses. -/
theorem pollState_ready {id : ImageId} {state : State} {inp after : InProgress}
    {choices : List Choice} {data : IndexData} {bytes : List UInt8}
    (polled : pollState parser id state inp choices = .ok (some (.ready data bytes, after))) :
    .reply (.data bytes) ∈ choices ∧ IndexData.parse parser id bytes = .ok (some data) := by
  induction choices generalizing state inp with
  | nil => cases state <;> cases polled
  | cons choice rest ih =>
      have later {next : State} {inp : InProgress}
          (polled : pollState parser id next inp rest = .ok (some (.ready data bytes, after))) :
          .reply (.data bytes) ∈ choice :: rest ∧
            IndexData.parse parser id bytes = .ok (some data) :=
        ⟨List.mem_cons_of_mem _ (ih polled).1, (ih polled).2⟩
      cases state with
      | start =>
          cases choice with
          | connect found =>
              rw [pollState] at polled
              obtain ⟨_, _, polled⟩ := Run.bind_eq_ok_iff.mp polled
              split at polled
              · exact later polled
              · exact later polled
          | reply reply => cases polled
          | wake ready => cases polled
      | fetching =>
          cases choice with
          | connect found => cases polled
          | wake ready => cases polled
          | reply reply =>
              cases reply with
              | pending => cases polled
              | failed => exact later polled
              | data received =>
                  rw [pollState] at polled
                  obtain ⟨parsed, isParsed, polled⟩ := Run.bind_eq_ok_iff.mp polled
                  split at polled
                  · obtain ⟨ready, _⟩ := Prod.mk.inj (Option.some.inj (Except.ok.inj polled))
                    obtain ⟨rfl, rfl⟩ := Polled.ready.inj ready
                    exact ⟨List.mem_cons_self, isParsed⟩
                  · exact later polled
      | waiting =>
          cases choice with
          | connect found => cases polled
          | reply reply => cases polled
          | wake ready =>
              cases ready with
              | true => exact later polled
              | false => cases polled

/-- What the steps do. -/
inductive Turn (parser : Parser) (indexes : Indexes) : Op → Answer → Indexes → Prop where
  /-- The index is there. -/
  | got {vpath : VPath} {id : ImageId} {handle : Nat} {inner : Inner}
      (isDone : indexes.registry.lookup id = some (.done handle))
      (isInner : indexes.inners[handle]? = some inner) :
      Turn parser indexes (.get vpath id) (.index id inner) indexes
  | spawned {vpath : VPath} {id : ImageId}
      (fresh : ∀ inp, indexes.registry.lookup id ≠ some (.inProgress inp)) :
      Turn parser indexes (.get vpath id) (.future indexes.channels.length)
        (indexes.spawnTryRead vpath id).2
  /-- Somebody else has asked before. -/
  | joined {vpath : VPath} {id : ImageId} {inp : InProgress} {paths : List VPath}
      (isInProgress : indexes.registry.lookup id = some (.inProgress inp)) :
      Turn parser indexes (.get vpath id) (.future inp.future) { indexes with
        registry := indexes.registry.insert id (.inProgress { inp with paths := paths }) }
  | read {position : Nat} {io : Io} {reader : Reader}
      {result : Except Error (IndexData × List UInt8)} {store : Meta}
      (isReader : indexes.readers[position]? = some reader)
      (ran : indexes.store.readIndex parser io reader.id = .ok (result, store)) :
      Turn parser indexes (.read position io) .nothing { indexes with
        readers := indexes.readers.set position { reader with result := some result }
        store := store }
  /-- A read has ended with an index. -/
  | found {position : Nat} {reader : Reader} {index : IndexData × List UInt8}
      (isReader : indexes.readers[position]? = some reader)
      (isResult : reader.result = some (.ok index)) :
      Turn parser indexes (.finishRead position) .nothing
        ({ indexes with readers := indexes.readers.eraseIdx position }.send reader.sender
          ⟨index.1, index.2⟩)
  /-- A read has failed, and a fetcher takes over. -/
  | missed {position : Nat} {reader : Reader}
      (isReader : indexes.readers[position]? = some reader) :
      Turn parser indexes (.finishRead position) .nothing { indexes with
        readers := indexes.readers.eraseIdx position
        fetchers := indexes.fetchers ++ [⟨reader.id, reader.sender, .start⟩] }
  | fetched {position : Nat} {choices : List Choice} {deadline : Bool} {base : FetchBase}
      {data : IndexData} {bytes : List UInt8} (isBase : indexes.fetchers[position]? = some base)
      (isReply : .reply (.data bytes) ∈ choices)
      (parsed : IndexData.parse parser base.id bytes = .ok (some data)) :
      Turn parser indexes (.pollFetcher position choices deadline) .nothing
        { indexes.send base.sender ⟨data, bytes⟩ with
          registry := indexes.registry.insert base.id (.done indexes.inners.length)
          fetchers := indexes.fetchers.eraseIdx position
          stores := indexes.stores ++ [(base.id, bytes)]
          fetching := indexes.fetching - 1 }
  | expired {position : Nat} {choices : List Choice} {base : FetchBase}
      (isBase : indexes.fetchers[position]? = some base) :
      Turn parser indexes (.pollFetcher position choices true) .nothing { indexes with
        registry := indexes.registry.erase base.id
        fetchers := indexes.fetchers.eraseIdx position
        fetching := indexes.fetching - 1 }
  | waited {position : Nat} {choices : List Choice} {base : FetchBase} {old inp : InProgress}
      {state : State} (isBase : indexes.fetchers[position]? = some base)
      (isInProgress : indexes.registry.lookup base.id = some (.inProgress old)) :
      Turn parser indexes (.pollFetcher position choices false) .nothing { indexes with
        registry := indexes.registry.insert base.id (.inProgress inp)
        fetchers := indexes.fetchers.set position { base with state := state } }
  /-- A fetcher finds no entry in progress. -/
  | lost {position : Nat} {choices : List Choice} {deadline : Bool} {base : FetchBase}
      (isBase : indexes.fetchers[position]? = some base)
      (none : ∀ inp, indexes.registry.lookup base.id ≠ some (.inProgress inp)) :
      Turn parser indexes (.pollFetcher position choices deadline) .unreachable { indexes with
        fetchers := indexes.fetchers.eraseIdx position }
  | stored {position : Nat} {io : Io} {partly : List UInt8} {id : ImageId} {bytes : List UInt8}
      {result : Except Error Unit} {store : Meta}
      (isItem : indexes.stores[position]? = some (id, bytes))
      (written : (indexes.store.markUsed id).writeIndex io id bytes partly = .ok (result, store)) :
      Turn parser indexes (.store position io partly) (.stored id bytes result) { indexes with
        stores := indexes.stores.eraseIdx position, store := store }
  | resolved {position : Nat} {channel : Channel} {handle : Nat} {inner : Inner}
      (isChannel : indexes.channels[position]? = some channel)
      (isSent : channel.handle = some handle) (isInner : indexes.inners[handle]? = some inner) :
      Turn parser indexes (.resolve position) (.index channel.id inner) indexes
  | released {handle : Nat} :
      Turn parser indexes (.release handle) .nothing { indexes with
        live := indexes.live.erase handle, dropping := insert handle indexes.dropping }
  | dropped {handle : Nat} {inner : Inner} (isInner : indexes.inners[handle]? = some inner) :
      Turn parser indexes (.drop handle) .nothing { indexes with
        dropping := indexes.dropping.erase handle
        registry := indexes.registry.erase inner.data.id }
  | removed {io : Io} {group : FileName} {id : ImageId} :
      Turn parser indexes (.removeIndex io group id) .nothing { indexes with
        store := { indexes.store with
          indexes := indexes.store.indexes.setFiles [group]
            (Metadata.removeFile io (indexes.store.indexes.files [group]) id.indexFile).2 } }

variable {indexes after : Indexes} {answer : Answer}

/-- How `get` turns. -/
theorem turn_of_get {vpath : VPath} {id : ImageId}
    (got : indexes.get vpath id = some (answer, after)) :
    Turn parser indexes (.get vpath id) answer after := by
  unfold Indexes.get at got
  split at got
  · rename_i handle isDone
    split at got
    · obtain ⟨inner, isInner, done⟩ := Option.bind_eq_some_iff.mp got
      obtain ⟨rfl, rfl⟩ := Prod.mk.inj (Option.some.inj done)
      exact .got isDone isInner
    · obtain ⟨rfl, rfl⟩ := Prod.mk.inj (Option.some.inj got)
      exact .spawned (by simp [isDone])
  · rename_i inp isInProgress
    obtain ⟨rfl, rfl⟩ := Prod.mk.inj (Option.some.inj got)
    exact .joined isInProgress
  · rename_i isNone
    obtain ⟨rfl, rfl⟩ := Prod.mk.inj (Option.some.inj got)
    exact .spawned (by simp [isNone])

/-- How a poll turns. -/
theorem turn_of_poll {position : Nat} {base : FetchBase} {choices : List Choice} {deadline : Bool}
    (isBase : indexes.fetchers[position]? = some base)
    (polled : indexes.pollFetcher parser position base choices deadline = some (answer, after)) :
    Turn parser indexes (.pollFetcher position choices deadline) answer after := by
  unfold Indexes.pollFetcher at polled
  split at polled
  · rename_i inp isInProgress
    obtain ⟨outcome, isOutcome, polled⟩ := Option.bind_eq_some_iff.mp polled
    obtain ⟨⟨state, next⟩, isNext, polled⟩ := Option.bind_eq_some_iff.mp polled
    subst isNext
    cases state with
    | ready data bytes =>
        obtain ⟨isReply, parsed⟩ := pollState_ready (Run.ok_of_toOption isOutcome)
        obtain ⟨rfl, rfl⟩ := Prod.mk.inj (Option.some.inj polled)
        exact .fetched isBase isReply parsed
    | notReady state =>
        cases deadline with
        | true =>
            obtain ⟨rfl, rfl⟩ := Prod.mk.inj (Option.some.inj polled)
            exact .expired isBase
        | false =>
            obtain ⟨rfl, rfl⟩ := Prod.mk.inj (Option.some.inj polled)
            exact .waited isBase isInProgress
  · rename_i none
    obtain ⟨rfl, rfl⟩ := Prod.mk.inj (Option.some.inj polled)
    exact .lost isBase none

/-- How a step turns. -/
theorem turn_of_takes {event : Event} (takes : (machine parser).Takes event) :
    Turn parser event.before event.op event.answer event.after := by
  obtain ⟨before, op, answer, after⟩ := event
  have done : before.exec parser op = some (answer, after) := takes
  show Turn parser before op answer after
  cases op with
  | get vpath id => exact turn_of_get done
  | read position io =>
      obtain ⟨reader, isReader, done⟩ := Option.bind_eq_some_iff.mp done
      split at done
      · cases done
      · obtain ⟨⟨result, store⟩, ran, done⟩ := Option.bind_eq_some_iff.mp done
        obtain ⟨rfl, rfl⟩ := Prod.mk.inj (Option.some.inj done)
        exact .read isReader (Run.ok_of_toOption ran)
  | finishRead position =>
      obtain ⟨reader, isReader, done⟩ := Option.bind_eq_some_iff.mp done
      obtain ⟨result, isResult, done⟩ := Option.bind_eq_some_iff.mp done
      cases result with
      | ok index =>
          obtain ⟨rfl, rfl⟩ := Prod.mk.inj (Option.some.inj done)
          exact .found isReader isResult
      | error error =>
          obtain ⟨rfl, rfl⟩ := Prod.mk.inj (Option.some.inj done)
          exact .missed isReader
  | pollFetcher position choices deadline =>
      obtain ⟨base, isBase, polled⟩ := Option.bind_eq_some_iff.mp done
      exact turn_of_poll isBase polled
  | store position io partly =>
      obtain ⟨⟨id, bytes⟩, isItem, done⟩ := Option.bind_eq_some_iff.mp done
      obtain ⟨⟨result, store⟩, written, done⟩ := Option.bind_eq_some_iff.mp done
      obtain ⟨rfl, rfl⟩ := Prod.mk.inj (Option.some.inj done)
      exact .stored isItem (Run.ok_of_toOption written)
  | resolve position =>
      obtain ⟨channel, isChannel, done⟩ := Option.bind_eq_some_iff.mp done
      obtain ⟨handle, isSent, done⟩ := Option.bind_eq_some_iff.mp done
      split at done
      · obtain ⟨inner, isInner, done⟩ := Option.bind_eq_some_iff.mp done
        obtain ⟨rfl, rfl⟩ := Prod.mk.inj (Option.some.inj done)
        exact .resolved isChannel isSent isInner
      · cases done
  | release handle =>
      rw [Indexes.exec] at done
      split at done
      · obtain ⟨rfl, rfl⟩ := Prod.mk.inj (Option.some.inj done)
        exact .released
      · cases done
  | drop handle =>
      rw [Indexes.exec] at done
      split at done
      · obtain ⟨inner, isInner, done⟩ := Option.bind_eq_some_iff.mp done
        obtain ⟨rfl, rfl⟩ := Prod.mk.inj (Option.some.inj done)
        exact .dropped isInner
      · cases done
  | removeIndex io group id =>
      obtain ⟨rfl, rfl⟩ := Prod.mk.inj (Option.some.inj done)
      exact .removed

end Turns

section Verified

/-- Reads the hash in the footer of an index. -/
abbrev GetHash := List UInt8 → Option (List UInt8)

variable (parser : Parser) (getHash : GetHash)

/-- The bytes are an index, and the hash in its footer is the id. -/
def IsIndexOf (id : ImageId) (bytes : List UInt8) : Prop :=
  (∃ data, IndexData.parse parser id bytes = .ok (some data)) ∧ getHash bytes = some id.bytes

/-- Bytes that parse as the index with this id have its hash. -/
def HashesRight (id : ImageId) (bytes : List UInt8) : Prop :=
  ∀ data, IndexData.parse parser id bytes = .ok (some data) → getHash bytes = some id.bytes

/-- The index is what its bytes parse to, and they have the hash of the id. -/
def Inner.IsVerified (inner : Inner) : Prop :=
  IndexData.parse parser inner.data.id inner.bytes = .ok (some inner.data) ∧
    getHash inner.bytes = some inner.data.id.bytes

/-- An answer shows or writes a verified index of the id it is for, or none. -/
def Answer.IsVerified : Answer → Prop
  | .index id inner => inner.data.id = id ∧ inner.IsVerified parser getHash
  | .stored id bytes _ => IsIndexOf parser getHash id bytes
  | _ => True

/-- The handle is one of the index with this id. -/
def HasId (inners : List Inner) (handle : Nat) (id : ImageId) : Prop :=
  ∃ inner, inners[handle]? = some inner ∧ inner.data.id = id

/-- The channel is one for the index with this id. -/
def IsFor (channels : List Channel) (channel : Nat) (id : ImageId) : Prop :=
  ∃ there, channels[channel]? = some there ∧ there.id = id

/-- Every index that can be reached from the registry has the id that it goes by. -/
structure Verified (indexes : Indexes) : Prop where
  inners : ∀ inner ∈ indexes.inners, inner.IsVerified parser getHash
  done : ∀ id handle, indexes.registry.lookup id = some (.done handle) →
    HasId indexes.inners handle id
  sent : ∀ channel ∈ indexes.channels, ∀ handle, channel.handle = some handle →
    HasId indexes.inners handle channel.id
  readers : ∀ reader ∈ indexes.readers, IsFor indexes.channels reader.sender reader.id ∧
    ∀ data bytes, reader.result = some (.ok (data, bytes)) → data.id = reader.id ∧
      (Inner.mk data bytes).IsVerified parser getHash
  fetchers : ∀ base ∈ indexes.fetchers, IsFor indexes.channels base.sender base.id
  stores : ∀ item ∈ indexes.stores, IsIndexOf parser getHash item.1 item.2
  files : ∀ id bytes, indexes.store.HasIndex id bytes → HashesRight parser getHash id bytes

/-- The replies of a step that parse have the hash of the id they were asked for by. -/
def RepliesRight (event : Event) : Prop :=
  ∀ position choices deadline, event.op = .pollFetcher position choices deadline →
    ∀ base, event.before.fetchers[position]? = some base →
      ∀ bytes, .reply (.data bytes) ∈ choices → HashesRight parser getHash base.id bytes

variable {parser getHash}

/-- Indexes that are there stay there. -/
theorem HasId.append {inners : List Inner} {handle : Nat} {id : ImageId}
    (has : HasId inners handle id) (more : List Inner) : HasId (inners ++ more) handle id := by
  obtain ⟨inner, found, same⟩ := has
  obtain ⟨inside, _⟩ := List.getElem?_eq_some_iff.mp found
  exact ⟨inner, by rw [List.getElem?_append_left inside, found], same⟩

theorem HasId.last (inners : List Inner) (inner : Inner) :
    HasId (inners ++ [inner]) inners.length inner.data.id :=
  ⟨inner, by simp, rfl⟩

/-- Channels stay those of their images. -/
theorem IsFor.append {channels : List Channel} {channel : Nat} {id : ImageId}
    (isFor : IsFor channels channel id) (more : List Channel) :
    IsFor (channels ++ more) channel id := by
  obtain ⟨there, found, same⟩ := isFor
  obtain ⟨inside, _⟩ := List.getElem?_eq_some_iff.mp found
  exact ⟨there, by rw [List.getElem?_append_left inside, found], same⟩

/-- Sending leaves every channel for its id. -/
theorem IsFor.modify {channels : List Channel} {channel : Nat} {id : ImageId}
    (isFor : IsFor channels channel id) (other handle : Nat) :
    IsFor (channels.modify other fun channel => { channel with handle := some handle }) channel id := by
  obtain ⟨there, found, same⟩ := isFor
  unfold IsFor
  rw [List.getElem?_modify, found]
  by_cases here : other = channel
  · exact ⟨{ there with handle := some handle }, by simp [here], same⟩
  · exact ⟨there, by simp [here], same⟩

/-- Sending a verified index through a channel for its id. -/
theorem Verified.send {indexes : Indexes} (verified : Verified parser getHash indexes)
    {channel : Nat} {inner : Inner} (good : inner.IsVerified parser getHash)
    (isFor : IsFor indexes.channels channel inner.data.id) :
    Verified parser getHash (indexes.send channel inner) := by
  refine ⟨?_, ?_, ?_, ?_, ?_, verified.stores, verified.files⟩
  · intro other member
    rcases List.mem_append.mp member with old | new
    · exact verified.inners other old
    · rw [List.mem_singleton.mp new]
      exact good
  · exact fun id handle isDone => (verified.done id handle isDone).append _
  · intro there member handle isSent
    obtain ⟨place, found⟩ := List.mem_iff_getElem?.mp member
    simp only [Indexes.send, List.getElem?_modify] at found
    obtain ⟨old, isOld, changed⟩ := Option.map_eq_some_iff.mp found
    by_cases here : channel = place
    · -- the channel that is sent through
      subst here
      obtain ⟨mine, isMine, same⟩ := isFor
      obtain rfl := Option.some.inj (isMine.symm.trans isOld)
      simp only [if_true] at changed
      subst changed
      obtain rfl := Option.some.inj isSent
      have last := HasId.last indexes.inners inner
      rwa [← same] at last
    · rw [if_neg here] at changed
      obtain rfl : old = there := changed
      exact (verified.sent old (List.mem_of_getElem? isOld) handle isSent).append _
  · intro reader member
    obtain ⟨isFor, read⟩ := verified.readers reader member
    exact ⟨isFor.modify _ _, read⟩
  · exact fun base member => (verified.fetchers base member).modify _ _

/-- Bytes that parse and are right make a verified index of the id. -/
theorem isVerified_of_parse {id : ImageId} {data : IndexData} {bytes : List UInt8}
    (right : HashesRight parser getHash id bytes)
    (parsed : IndexData.parse parser id bytes = .ok (some data)) :
    data.id = id ∧ (Inner.mk data bytes).IsVerified parser getHash := by
  have same := IndexData.id_of_parse parsed
  refine ⟨same, ?_⟩
  unfold Inner.IsVerified
  rw [same]
  exact ⟨parsed, right data parsed⟩

namespace Verified

variable {indexes : Indexes}

/-- The registry is verified at first when the files are. -/
theorem new {store : Meta}
    (files : ∀ id bytes, store.HasIndex id bytes → HashesRight parser getHash id bytes) :
    Verified parser getHash (Indexes.new store) where
  inners := by simp [Indexes.new]
  done := by simp [Indexes.new]
  sent := by simp [Indexes.new]
  readers := by simp [Indexes.new]
  fetchers := by simp [Indexes.new]
  stores := by simp [Indexes.new]
  files := files

/-- An entry that is in progress brings no index. -/
theorem insertInProgress (verified : Verified parser getHash indexes) (id : ImageId)
    (inp : InProgress) :
    Verified parser getHash
      { indexes with registry := indexes.registry.insert id (.inProgress inp) } where
  inners := verified.inners
  done := by
    intro other handle found
    rw [Map.lookup_insert_eq] at found
    split at found
    · cases found
    · exact verified.done other handle found
  sent := verified.sent
  readers := verified.readers
  fetchers := verified.fetchers
  stores := verified.stores
  files := verified.files

/-- Forgetting an entry keeps the rest verified. -/
theorem eraseEntry (verified : Verified parser getHash indexes) (id : ImageId) :
    Verified parser getHash { indexes with registry := indexes.registry.erase id } where
  inners := verified.inners
  done := by
    intro other handle found
    rw [Map.lookup_erase_eq] at found
    split at found
    · cases found
    · exact verified.done other handle found
  sent := verified.sent
  readers := verified.readers
  fetchers := verified.fetchers
  stores := verified.stores
  files := verified.files

/-- A new channel with a read for it. -/
theorem spawnTryRead (verified : Verified parser getHash indexes) (vpath : VPath) (id : ImageId) :
    Verified parser getHash (indexes.spawnTryRead vpath id).2 := by
  have inserted := verified.insertInProgress id ⟨[vpath], false, indexes.channels.length⟩
  refine ⟨inserted.inners, inserted.done, ?_, ?_, ?_, inserted.stores, inserted.files⟩
  · intro channel member handle isSent
    rcases List.mem_append.mp member with old | new
    · exact verified.sent channel old handle isSent
    · rw [List.mem_singleton.mp new] at isSent
      cases isSent
  · intro reader member
    rcases List.mem_append.mp member with old | new
    · obtain ⟨isFor, read⟩ := verified.readers reader old
      exact ⟨isFor.append _, read⟩
    · rw [List.mem_singleton.mp new]
      exact ⟨⟨⟨id, none⟩, by simp [Indexes.spawnTryRead], rfl⟩, nofun⟩
  · exact fun base member => (verified.fetchers base member).append _

/-- A handle of an id shows a verified index with it. -/
theorem shown (verified : Verified parser getHash indexes) {handle : Nat} {id : ImageId}
    {inner : Inner} (has : HasId indexes.inners handle id)
    (found : indexes.inners[handle]? = some inner) :
    inner.data.id = id ∧ inner.IsVerified parser getHash := by
  obtain ⟨there, isThere, same⟩ := has
  obtain rfl := Option.some.inj (isThere.symm.trans found)
  exact ⟨same, verified.inners there (List.mem_of_getElem? found)⟩

/-- A fetcher goes away, or only its state changes. -/
theorem withFetchers (verified : Verified parser getHash indexes) {fetchers : List FetchBase}
    (kept : ∀ base ∈ fetchers, ∃ old ∈ indexes.fetchers, old.id = base.id ∧ old.sender = base.sender)
    (fetching : Int) :
    Verified parser getHash { indexes with fetchers := fetchers, fetching := fetching } where
  inners := verified.inners
  done := verified.done
  sent := verified.sent
  readers := verified.readers
  fetchers := by
    intro base member
    obtain ⟨old, isOld, sameId, sameSender⟩ := kept base member
    have isFor := verified.fetchers old isOld
    rwa [sameId, sameSender] at isFor
  stores := verified.stores
  files := verified.files

/-- The reply of a fetcher is sent and put into the registry. -/
theorem fetched (verified : Verified parser getHash indexes) {position : Nat} {base : FetchBase}
    {data : IndexData} {bytes : List UInt8} (isBase : indexes.fetchers[position]? = some base)
    (right : HashesRight parser getHash base.id bytes)
    (parsed : IndexData.parse parser base.id bytes = .ok (some data)) :
    Verified parser getHash { indexes.send base.sender ⟨data, bytes⟩ with
      registry := indexes.registry.insert base.id (.done indexes.inners.length)
      fetchers := indexes.fetchers.eraseIdx position
      stores := indexes.stores ++ [(base.id, bytes)]
      fetching := indexes.fetching - 1 } := by
  obtain ⟨same, good⟩ := isVerified_of_parse right parsed
  have isFor := verified.fetchers base (List.mem_of_getElem? isBase)
  rw [← same] at isFor
  have sent := verified.send good isFor
  refine ⟨sent.inners, ?_, sent.sent, sent.readers, ?_, ?_, sent.files⟩
  · intro other handle found
    rw [Map.lookup_insert_eq] at found
    split at found
    · rename_i isOther
      obtain rfl := IndexRef.done.inj (Option.some.inj found)
      have last := HasId.last indexes.inners ⟨data, bytes⟩
      rwa [same, ← isOther] at last
    · exact sent.done other handle found
  · exact fun other kept => sent.fetchers other (List.mem_of_mem_eraseIdx kept)
  · intro item isItem
    rcases List.mem_append.mp isItem with old | new
    · exact verified.stores item old
    · rw [List.mem_singleton.mp new]
      exact ⟨⟨data, parsed⟩, right data parsed⟩

/-- A fetch that ends keeps the rest verified. -/
theorem eraseFetcher (verified : Verified parser getHash indexes) (position : Nat)
    (fetching : Int) :
    Verified parser getHash { indexes with
      fetchers := indexes.fetchers.eraseIdx position, fetching := fetching } :=
  verified.withFetchers (fun other kept => ⟨other, List.mem_of_mem_eraseIdx kept, rfl, rfl⟩) fetching

/-- A fetch that waits keeps the rest verified. -/
theorem waited (verified : Verified parser getHash indexes) {position : Nat} {base : FetchBase}
    (isBase : indexes.fetchers[position]? = some base) (state : State) :
    Verified parser getHash { indexes with
      fetchers := indexes.fetchers.set position { base with state := state } } := by
  refine verified.withFetchers ?_ indexes.fetching
  intro other isOther
  rcases List.mem_or_eq_of_mem_set isOther with old | rfl
  · exact ⟨other, old, rfl, rfl⟩
  · exact ⟨base, List.mem_of_getElem? isBase, rfl, rfl⟩

/-- A read in the pool gives what a file parses to. -/
theorem read (verified : Verified parser getHash indexes) {position : Nat} {io : Io}
    {reader : Reader} {result : Except Error (IndexData × List UInt8)} {store : Meta}
    (isReader : indexes.readers[position]? = some reader)
    (ran : indexes.store.readIndex parser io reader.id = .ok (result, store)) :
    Verified parser getHash { indexes with
      readers := indexes.readers.set position { reader with result := some result }
      store := store } := by
  obtain ⟨right, keeps⟩ := Metadata.readIndex_eq_ok ran
  refine ⟨verified.inners, verified.done, verified.sent, ?_, verified.fetchers, verified.stores,
    fun id bytes has => verified.files id bytes (keeps id bytes has)⟩
  intro other member
  rcases List.mem_or_eq_of_mem_set member with old | rfl
  · exact verified.readers other old
  · refine ⟨(verified.readers reader (List.mem_of_getElem? isReader)).1, ?_⟩
    intro data bytes isOk
    obtain ⟨parsed, has⟩ := right data bytes (Option.some.inj isOk)
    exact isVerified_of_parse (verified.files reader.id bytes has) parsed

/-- A read that has ended goes away. -/
theorem eraseReader (verified : Verified parser getHash indexes) (position : Nat) :
    Verified parser getHash
      { indexes with readers := indexes.readers.eraseIdx position } where
  inners := verified.inners
  done := verified.done
  sent := verified.sent
  readers reader member := verified.readers reader (List.mem_of_mem_eraseIdx member)
  fetchers := verified.fetchers
  stores := verified.stores
  files := verified.files

/-- What was read of a verified file is verified. -/
theorem found (verified : Verified parser getHash indexes) {position : Nat} {reader : Reader}
    {index : IndexData × List UInt8} (isReader : indexes.readers[position]? = some reader)
    (isResult : reader.result = some (.ok index)) :
    Verified parser getHash ({ indexes with
      readers := indexes.readers.eraseIdx position }.send reader.sender ⟨index.1, index.2⟩) := by
  obtain ⟨isFor, right⟩ := verified.readers reader (List.mem_of_getElem? isReader)
  obtain ⟨same, good⟩ := right index.1 index.2 isResult
  rw [← same] at isFor
  exact (verified.eraseReader position).send good isFor

/-- A read that finds nothing keeps the rest verified. -/
theorem missed (verified : Verified parser getHash indexes) {position : Nat} {reader : Reader}
    (isReader : indexes.readers[position]? = some reader) :
    Verified parser getHash { indexes with
      readers := indexes.readers.eraseIdx position
      fetchers := indexes.fetchers ++ [⟨reader.id, reader.sender, .start⟩] } := by
  have rest := verified.eraseReader position
  refine ⟨rest.inners, rest.done, rest.sent, rest.readers, ?_, rest.stores, rest.files⟩
  intro base member
  rcases List.mem_append.mp member with old | new
  · exact verified.fetchers base old
  · rw [List.mem_singleton.mp new]
    exact (verified.readers reader (List.mem_of_getElem? isReader)).1

/-- An index that is stored was verified. -/
theorem stored (verified : Verified parser getHash indexes) {position : Nat} {io : Io}
    {partly : List UInt8} {id : ImageId} {bytes : List UInt8} {result : Except Error Unit}
    {store : Meta} (isItem : indexes.stores[position]? = some (id, bytes))
    (written : (indexes.store.markUsed id).writeIndex io id bytes partly = .ok (result, store)) :
    Verified parser getHash { indexes with
        stores := indexes.stores.eraseIdx position, store := store } ∧
      IsIndexOf parser getHash id bytes := by
  have good : IsIndexOf parser getHash id bytes :=
    verified.stores (id, bytes) (List.mem_of_getElem? isItem)
  refine ⟨⟨verified.inners, verified.done, verified.sent, verified.readers, verified.fetchers,
    fun item member => verified.stores item (List.mem_of_mem_eraseIdx member), ?_⟩, good⟩
  intro other content has
  rcases has.of_writeIndex written with old | ⟨rfl, rfl⟩
  · exact verified.files other content old
  · exact fun _ _ => good.2

/-- Removing an index keeps the rest verified. -/
theorem removeIndex (verified : Verified parser getHash indexes) (io : Io) (group : FileName)
    (id : ImageId) :
    Verified parser getHash { indexes with
      store := { indexes.store with
        indexes := indexes.store.indexes.setFiles [group]
          (Metadata.removeFile io (indexes.store.indexes.files [group]) id.indexFile).2 } } := by
  refine ⟨verified.inners, verified.done, verified.sent, verified.readers, verified.fetchers,
    verified.stores, ?_⟩
  intro other bytes has
  rcases has.of_setFiles with old | found
  · exact verified.files other bytes old
  · refine verified.files other bytes ⟨group, ?_⟩
    by_cases same : other.indexFile = id.indexFile
    · rw [same] at found ⊢
      obtain removed | ⟨_, failed⟩ := Metadata.removeFile_cases io
        (indexes.store.indexes.files [group]) id.indexFile
      · rw [removed, Map.lookup_erase_eq, if_pos rfl] at found
        cases found
      · rwa [failed] at found
    · rwa [Metadata.lookup_removeFile same] at found

/-- With replies that are right every step keeps the invariant and answers with verified
indexes only. -/
theorem step {event : Event} (verified : Verified parser getHash event.before)
    (takes : (machine parser).Takes event) (replies : RepliesRight parser getHash event) :
    Verified parser getHash event.after ∧ event.answer.IsVerified parser getHash := by
  obtain ⟨before, op, answer, after⟩ := event
  have turn : Turn parser before op answer after := turn_of_takes takes
  cases turn with
  | got isDone isInner => exact ⟨verified, verified.shown (verified.done _ _ isDone) isInner⟩
  | spawned => exact ⟨verified.spawnTryRead _ _, trivial⟩
  | joined => exact ⟨verified.insertInProgress _ _, trivial⟩
  | read isReader ran => exact ⟨verified.read isReader ran, trivial⟩
  | found isReader isResult => exact ⟨verified.found isReader isResult, trivial⟩
  | missed isReader => exact ⟨verified.missed isReader, trivial⟩
  | fetched isBase isReply parsed =>
      have right := replies _ _ _ rfl _ isBase _ isReply
      exact ⟨verified.fetched isBase right parsed, trivial⟩
  | expired => exact ⟨(verified.eraseFetcher _ _).eraseEntry _, trivial⟩
  | waited isBase => exact ⟨(verified.waited isBase _).insertInProgress _ _, trivial⟩
  | lost => exact ⟨verified.eraseFetcher _ _, trivial⟩
  | stored isItem written => exact verified.stored isItem written
  | resolved isChannel isSent isInner =>
      have has := verified.sent _ (List.mem_of_getElem? isChannel) _ isSent
      exact ⟨verified, verified.shown has isInner⟩
  | released =>
      exact ⟨⟨verified.inners, verified.done, verified.sent, verified.readers, verified.fetchers,
        verified.stores, verified.files⟩, trivial⟩
  | dropped =>
      have erased := verified.eraseEntry
      exact ⟨⟨verified.inners, (erased _).done, verified.sent, verified.readers, verified.fetchers,
        verified.stores, verified.files⟩, trivial⟩
  | removed => exact ⟨verified.removeIndex _ _ _, trivial⟩

end Verified

/-- Nothing checks the hash of an index. So it is right wherever it was right before: in the
files that were there at the start and in every reply of a peer that parses. -/
theorem indexes_verified (parser : Parser) (getHash : GetHash) (store : Meta)
    (files : ∀ id bytes, store.HasIndex id bytes → HashesRight parser getHash id bytes)
    {trace : List Event} {finish : Indexes}
    (steps : (machine parser).Steps (Indexes.new store) trace finish)
    (replies : ∀ event ∈ trace, RepliesRight parser getHash event) :
    ∀ event ∈ trace, event.answer.IsVerified parser getHash := by
  intro event member
  have kept := steps.preserves (Verified parser getHash) (RepliesRight parser getHash)
    (fun _ takes right verified => (verified.step takes right).1) replies (Verified.new files)
  exact ((kept.2 event member).1.step (steps.takes_of_mem member) (replies event member)).2

end Verified

/-- The index an answer shows: its bytes, with the id it was asked for by. -/
def Answer.shown : Answer → Option (ImageId × List UInt8)
  | .index id inner => some (id, inner.bytes)
  | _ => none

/-- The index an answer has written. -/
def Answer.written : Answer → Option (ImageId × List UInt8)
  | .stored id bytes (.ok _) => some (id, bytes)
  | _ => none

namespace Sample

/-- The bytes of a text. -/
def bytesOf (text : String) : List UInt8 := text.toList.map fun char => UInt8.ofNat char.toNat

/-- The index of an empty directory. -/
def head : String := "DIRSIGNATURE.v1 sha512/256 block_size=32768\n/\n"

/-- The hash of that index. -/
def footer : String := "f5817c30604865c8de4acf9a0548ede4ef29db19b956891d2c465d150285b214"

/-- The index of an empty directory. -/
def index : List UInt8 := bytesOf (head ++ footer ++ "\n")

/-- Knows this one index. -/
def parser : Parser := fun bytes =>
  if bytes.take 46 = bytesOf head then
    some (⟨.sha512x256, 32768⟩, [some (.dir (Path.ofText "/".toList))])
  else none

/-- `get_hash` of the package, for texts like the one above. -/
def getHash : GetHash := fun bytes =>
  (ImageId.ofHex (((bytes.drop 46).take 64).map fun byte => Char.ofNat byte.toNat)).map ImageId.bytes

/-- The id of the index. -/
def image : ImageId := ((ImageId.ofHex footer.toList).getD ⟨[]⟩)

/-- The id of another index. -/
def other : ImageId := ⟨List.replicate 32 1⟩

/-- A store without indexes. -/
def store : Meta := Meta.new .empty .empty

/-- There is no file, and a peer replies. The index is handed out and stored. -/
def fetch (id : ImageId) : List Op :=
  [.get Metadata.Sample.path id, .read 0 Io.working, .finishRead 0,
    .pollFetcher 0 [.connect true, .reply (.data index)] false, .resolve 0, .store 0 Io.working []]

end Sample

/-- The reply is the index with this id. -/
theorem indexes_verified_fetched :
    let run := (machine Sample.parser).play (Indexes.new Sample.store) (Sample.fetch Sample.image)
    (Sample.image, Sample.index) ∈ run.1.filterMap (fun event => event.answer.shown) ∧
      ∀ event ∈ run.1, event.answer.IsVerified Sample.parser Sample.getHash := by
  intro run
  have facts : ((Sample.image, Sample.index) ∈ run.1.filterMap fun event => event.answer.shown) ∧
      ∀ event ∈ run.1, ∀ base ∈ event.before.fetchers, base.id = Sample.image := by
    decide +kernel
  obtain ⟨isShown, asked⟩ := facts
  refine ⟨isShown, indexes_verified Sample.parser Sample.getHash Sample.store ?_
    (Machine.Steps.of_play _ _ _) ?_⟩
  · rintro id bytes ⟨group, found⟩
    simp [Sample.store, Meta.new, Tree.files, Tree.empty] at found
  · intro event member position choices deadline isPoll base isBase bytes isReply
    have same := asked event member base (List.mem_of_getElem? isBase)
    have taken := Machine.Steps.op_mem_of_play member
    rw [isPoll] at taken
    simp only [Sample.fetch, List.mem_cons, reduceCtorEq, Op.pollFetcher.injEq, List.not_mem_nil,
      false_or, or_false] at taken
    obtain ⟨_, rfl, _⟩ := taken
    simp only [List.mem_cons, reduceCtorEq, Choice.reply.injEq, Reply.data.injEq, List.not_mem_nil,
      false_or, or_false] at isReply
    rw [same, isReply]
    exact fun _ _ => by decide +kernel

/-- The reply is the index of another image. It parses, and so it is handed out and
stored as the index that was asked for. -/
theorem other_index_taken :
    let run := (machine Sample.parser).play (Indexes.new Sample.store) (Sample.fetch Sample.other)
    (Sample.other, Sample.index) ∈ run.1.filterMap (fun event => event.answer.shown) ∧
      (Sample.other, Sample.index) ∈ run.1.filterMap (fun event => event.answer.written) ∧
      Sample.getHash Sample.index ≠ some Sample.other.bytes := by
  intro run
  decide +kernel

end FetchIndex

end Ciruela
