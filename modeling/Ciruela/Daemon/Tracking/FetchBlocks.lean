import Ciruela.Daemon.Tracking.Progress
import Ciruela.Foundation.Machine

/-!
# Fetching the blocks of an image

A download keeps a queue of futures, each of which fetches one block or writes it to the
temporary directory. `FetchBlocks::poll` polls all of them, drops the slices that have
nothing left to fetch, and starts requests for queued blocks. A poll is cut here into
steps, so that writes, which run in a pool of threads, can end between any two of them.
What a connection replies and whether there is one are part of a step.

`Inv` is the invariant: no block is lost or doubled on its way, and a slice counts its
requests.
-/

namespace Ciruela

open Foundation

namespace FetchBlocks

open Progress (Block Slice placed Plans)

/-- `CONCURRENCY`. -/
def concurrency : Nat := 10

/-- How a write in the pool stands. -/
inductive Write where
  | running
  | done
  | failed
deriving DecidableEq

/-- `FetchBlock`. A write keeps the block and the slice it is for. -/
inductive FetchBlock where
  | fetching (block : Block) (slice : Nat)
  | writing (block : Block) (slice : Nat) (data : List UInt8) (write : Write)
deriving DecidableEq

/-- A write that has been reported to `FetchBlocks`. -/
structure Written where
  block : Block
  slice : Nat
  data : List UInt8
deriving DecidableEq

/-- Where `poll` stands. -/
inductive Phase where
  | idle
  /-- In the loop over the futures, with this many to go. -/
  | polling (left : Nat)
  /-- In `retain`, at a slice. -/
  | retaining (position : Nat)
  | checking
  /-- In the loop over the slices, with this many requests started. -/
  | spawning (position new : Nat)
  /-- There is nothing to wait for but a connection. -/
  | stalled
  | ready
  | failed
  | exited
  | panicked
deriving DecidableEq

/-- `FetchBlocks`: the blocks that are worked on, the slices that are not, and what was written. -/
structure Fetcher where
  futures : List FetchBlock
  slices : List Slice
  mask : Mask
  written : List Written
  retryTimeout : Bool
  phase : Phase
deriving DecidableEq

/-- `FetchBlocks::new`. -/
def Fetcher.new (slices : List Slice) (mask : Mask) : Fetcher := ⟨[], slices, mask, [], false, .idle⟩

/-- What a request says when it is polled. -/
inductive Reply where
  | pending
  /-- The reply, and how the write stands when it is polled right after its start. -/
  | data (bytes : List UInt8) (write : Write)
  | failed
deriving DecidableEq

/-- What a poll does, one thing after another. -/
inductive Op where
  /-- The reactor calls `poll`. -/
  | enter (elapsed : Bool)
  | pollFuture (reply : Reply)
  | retain
  | check (deadline : Bool)
  | spawn (connected : Bool)
  | stall (clusterStalled elapsed : Bool)
  /-- A write ends in the pool. -/
  | endWrite (position : Nat) (write : Write)
deriving DecidableEq

/-- A slice has one request less. There is no slice below zero. -/
def release (slice : Slice) : Option Slice :=
  if slice.inProgress = 0 then none else some { slice with inProgress := slice.inProgress - 1 }

/-- Take a request from every slice with this index. -/
def releaseAll (index : Nat) (slices : List Slice) : Option (List Slice) :=
  slices.mapM fun slice => if slice.index = index then release slice else some slice

/-- Take a request from the first slice with this index, and put its block back. -/
def requeue (block : Block) (index : Nat) : List Slice → Option (List Slice)
  | [] => some []
  | slice :: rest =>
      if slice.index = index then do
        let slice ← release slice
        return { slice with blocks := slice.blocks ++ [block] } :: rest
      else do
        let rest ← requeue block index rest
        return slice :: rest

namespace Fetcher

/-- Poll a write that was taken from the queue. The process ends when it has failed. -/
def pollWrite (fetcher : Fetcher) (block : Block) (slice : Nat) (data : List UInt8) :
    Write → Fetcher
  | .running =>
      { fetcher with futures := fetcher.futures ++ [.writing block slice data .running] }
  | .done => { fetcher with written := fetcher.written ++ [⟨block, slice, data⟩] }
  | .failed =>
      { fetcher with
        futures := fetcher.futures ++ [.writing block slice data .failed]
        phase := .exited }

/-- A request has failed, or its reply has a wrong checksum. -/
def putBack (fetcher : Fetcher) (block : Block) (slice : Nat) : Fetcher :=
  match requeue block slice fetcher.slices with
  | some slices => { fetcher with slices := slices }
  | none => { fetcher with phase := .panicked }

/-- Poll a future that was taken from the queue. -/
def pollTaken (hashBytes : List UInt8 → BlockHash) (fetcher : Fetcher) (reply : Reply) :
    FetchBlock → Fetcher
  | .fetching block slice =>
      match reply with
      | .pending => { fetcher with futures := fetcher.futures ++ [.fetching block slice] }
      | .data bytes write =>
          if hashBytes bytes = block.hash then
            match releaseAll slice fetcher.slices with
            | some slices => { fetcher with slices := slices }.pollWrite block slice bytes write
            | none => { fetcher with phase := .panicked }
          else fetcher.putBack block slice
      | .failed => fetcher.putBack block slice
  | .writing block slice data write => fetcher.pollWrite block slice data write

/-- The rest of a round, when no request was started. -/
def endRound (fetcher : Fetcher) : Fetcher :=
  if fetcher.futures = [] then { fetcher with phase := .stalled } else { fetcher with phase := .idle }

/-- One thing that a poll does. -/
def exec (hashBytes : List UInt8 → BlockHash) (fetcher : Fetcher) : Op → Option Fetcher
  | .enter elapsed =>
      match fetcher.phase with
      | .idle =>
          if fetcher.retryTimeout ∧ ¬ elapsed then some fetcher
          else some { fetcher with
            retryTimeout := false, phase := .polling fetcher.futures.length }
      | _ => none
  | .pollFuture reply =>
      match fetcher.phase with
      | .polling 0 => some { fetcher with phase := .retaining 0 }
      | .polling (left + 1) =>
          match fetcher.futures with
          | future :: rest =>
              some ({ fetcher with futures := rest, phase := .polling left }.pollTaken hashBytes
                reply future)
          | [] => some { fetcher with phase := .panicked }
      | _ => none
  | .retain =>
      match fetcher.phase with
      | .retaining position =>
          match fetcher.slices[position]? with
          | some slice =>
              if 0 < slice.inProgress ∨ 0 < slice.blocks.length then
                some { fetcher with phase := .retaining (position + 1) }
              else some { fetcher with
                slices := fetcher.slices.eraseIdx position
                mask := fetcher.mask.setFetched slice.index }
          | none => some { fetcher with phase := .checking }
      | _ => none
  | .check deadline =>
      match fetcher.phase with
      | .checking =>
          if fetcher.futures.length = 0 ∧ fetcher.slices.length = 0 then
            some { fetcher with phase := .ready }
          else if deadline then some { fetcher with phase := .failed }
          else if concurrency ≤ fetcher.futures.length then some { fetcher with phase := .idle }
          else some { fetcher with phase := .spawning 0 0 }
      | _ => none
  | .spawn connected =>
      match fetcher.phase with
      | .spawning position new =>
          match fetcher.slices[position]? with
          | some slice =>
              match slice.blocks with
              | [] => some { fetcher with phase := .spawning (position + 1) new }
              | block :: rest =>
                  if connected then
                    let futures := fetcher.futures ++ [.fetching block slice.index]
                    some { fetcher with
                      futures := futures
                      slices := fetcher.slices.set position
                        ⟨slice.index, slice.inProgress + 1, rest⟩
                      phase := if concurrency < futures.length then .polling futures.length
                        else .spawning position (new + 1) }
                  else some { fetcher with
                    slices := fetcher.slices.set position { slice with blocks := rest ++ [block] }
                    phase := .spawning (position + 1) new }
          | none =>
              if 0 < new then some { fetcher with phase := .polling fetcher.futures.length }
              else some fetcher.endRound
      | _ => none
  | .stall clusterStalled elapsed =>
      match fetcher.phase with
      | .stalled =>
          if clusterStalled then some { fetcher with phase := .failed }
          else if elapsed then some { fetcher with phase := .polling fetcher.futures.length }
          else some { fetcher with retryTimeout := true, phase := .idle }
      | _ => none
  | .endWrite position write =>
      match fetcher.futures[position]? with
      | some (.writing block slice data .running) =>
          some { fetcher with futures := fetcher.futures.set position (.writing block slice data write) }
      | _ => none

end Fetcher

/-- `FetchBlocks` as a machine. -/
def machine (hashBytes : List UInt8 → BlockHash) : Machine Fetcher Op Unit :=
  ⟨fun fetcher op => (fetcher.exec hashBytes op).map ((), ·)⟩

/-- A step of a poll. -/
abbrev Event := Transition Fetcher Op Unit

/-- The block that a future fetches, with its slice. -/
def FetchBlock.fetches : FetchBlock → Option (Nat × Block)
  | .fetching block slice => some (slice, block)
  | .writing _ _ _ _ => none

/-- The block that a future writes, with its slice. -/
def FetchBlock.writes : FetchBlock → Option (Nat × Block)
  | .fetching _ _ => none
  | .writing block slice _ _ => some (slice, block)

/-- The blocks that are being fetched, each with its slice. -/
def fetching (futures : List FetchBlock) : Multiset (Nat × Block) :=
  (futures.filterMap FetchBlock.fetches : List (Nat × Block))

/-- The blocks that are being written. -/
def writing (futures : List FetchBlock) : Multiset (Nat × Block) :=
  (futures.filterMap FetchBlock.writes : List (Nat × Block))

/-- The blocks whose write was reported. -/
def reported (written : List Written) : Multiset (Nat × Block) :=
  (written.map fun write => (write.slice, write.block) : List (Nat × Block))

/-- The requests of a slice. -/
def requests (index : Nat) (futures : List FetchBlock) : Nat :=
  (fetching futures).countP fun place => place.1 = index

/-- The blocks that are not queued. -/
def flight (futures : List FetchBlock) (written : List Written) : Multiset (Nat × Block) :=
  fetching futures + writing futures + reported written

/-- Only data that matches the hash of a block is written for it. -/
structure Matched (hashBytes : List UInt8 → BlockHash) (futures : List FetchBlock)
    (written : List Written) : Prop where
  writing : ∀ block slice data write, .writing block slice data write ∈ futures →
    hashBytes data = block.hash
  written : ∀ write ∈ written, hashBytes write.data = write.block.hash

/-- Every planned block is in one place, and a slice counts its requests. -/
structure Accounts (hashBytes : List UInt8 → BlockHash) (planned : Multiset (Nat × Block))
    (futures : List FetchBlock) (slices : List Slice) (written : List Written) : Prop where
  total : placed slices + flight futures written = planned
  counted : ∀ slice ∈ slices, slice.inProgress = requests slice.index futures
  present : ∀ index, 0 < requests index futures → index ∈ slices.map Slice.index
  nodup : (slices.map Slice.index).Nodup
  matched : Matched hashBytes futures written

/-- What a step can do to the blocks, the slices and the mask. -/
inductive Effect (hashBytes : List UInt8 → BlockHash) (before after : Fetcher) : Prop where
  | still (futures : after.futures = before.futures) (slices : after.slices = before.slices)
      (mask : after.mask = before.mask) (written : after.written = before.written)
  /-- A future is not ready, or its write has failed. -/
  | turned {future : FetchBlock} {rest : List FetchBlock} (taken : before.futures = future :: rest)
      (futures : after.futures = rest ++ [future]) (slices : after.slices = before.slices)
      (mask : after.mask = before.mask) (written : after.written = before.written)
  /-- A write is reported. -/
  | reports {block : Block} {slice : Nat} {data : List UInt8} {rest : List FetchBlock}
      (taken : before.futures = .writing block slice data .done :: rest)
      (futures : after.futures = rest) (slices : after.slices = before.slices)
      (mask : after.mask = before.mask)
      (written : after.written = before.written ++ [⟨block, slice, data⟩])
  /-- A reply matches, and its write begins. -/
  | accepts {block : Block} {slice : Nat} {data : List UInt8} {rest : List FetchBlock}
      (taken : before.futures = .fetching block slice :: rest)
      (good : hashBytes data = block.hash)
      (slices : releaseAll slice before.slices = some after.slices)
      (mask : after.mask = before.mask)
      (begins : (∃ write, after.futures = rest ++ [.writing block slice data write] ∧
          after.written = before.written) ∨
        after.futures = rest ∧ after.written = before.written ++ [⟨block, slice, data⟩])
  /-- A block goes back to its slice. -/
  | requeues {block : Block} {slice : Nat} {rest : List FetchBlock}
      (taken : before.futures = .fetching block slice :: rest) (futures : after.futures = rest)
      (slices : requeue block slice before.slices = some after.slices)
      (mask : after.mask = before.mask) (written : after.written = before.written)
  /-- A slice is dropped. -/
  | drops {position : Nat} {slice : Slice} (phase : before.phase = .retaining position)
      (found : before.slices[position]? = some slice) (idle : slice.inProgress = 0)
      (empty : slice.blocks = []) (futures : after.futures = before.futures)
      (slices : after.slices = before.slices.eraseIdx position)
      (mask : after.mask = before.mask.setFetched slice.index)
      (written : after.written = before.written)
  /-- A request is started. -/
  | spawns {position : Nat} {slice : Slice} {block : Block} {rest : List Block}
      (found : before.slices[position]? = some slice) (first : slice.blocks = block :: rest)
      (futures : after.futures = before.futures ++ [.fetching block slice.index])
      (slices : after.slices =
        before.slices.set position ⟨slice.index, slice.inProgress + 1, rest⟩)
      (mask : after.mask = before.mask) (written : after.written = before.written)
  /-- There is no connection for a block. -/
  | postpones {position : Nat} {slice : Slice} {block : Block} {rest : List Block}
      (found : before.slices[position]? = some slice) (first : slice.blocks = block :: rest)
      (futures : after.futures = before.futures)
      (slices : after.slices = before.slices.set position { slice with blocks := rest ++ [block] })
      (mask : after.mask = before.mask) (written : after.written = before.written)
  /-- A write ends in the pool. -/
  | ends {position : Nat} {block : Block} {slice : Nat} {data : List UInt8} {write : Write}
      (found : before.futures[position]? = some (.writing block slice data .running))
      (futures : after.futures = before.futures.set position (.writing block slice data write))
      (slices : after.slices = before.slices) (mask : after.mask = before.mask)
      (written : after.written = before.written)

/-- A step would find the queue of futures empty or count a slice below zero. -/
def Panics (fetcher : Fetcher) : Prop :=
  (∃ left, fetcher.phase = .polling (left + 1) ∧ fetcher.futures = []) ∨
    ∃ block slice rest, fetcher.futures = .fetching block slice :: rest ∧
      (releaseAll slice fetcher.slices = none ∨ requeue block slice fetcher.slices = none)

/-- The phase agrees with the queues. -/
structure Fetcher.InPhase (fetcher : Fetcher) : Prop where
  polling : ∀ left, fetcher.phase = .polling left → left ≤ fetcher.futures.length
  ready : fetcher.phase = .ready → fetcher.futures = [] ∧ fetcher.slices = []

/-- A step has one of the effects, and leads from phase to phase. -/
structure Goes (hashBytes : List UInt8 → BlockHash) (before after : Fetcher) : Prop where
  effect : Effect hashBytes before after
  sound : before.phase ≠ .panicked → after.phase ≠ .panicked
  inPhase : before.InPhase → after.InPhase

section Effects

variable (hashBytes : List UInt8 → BlockHash)

/-- Polling a future takes at most that one from the queue. -/
theorem pollTaken_effect {fetcher : Fetcher} {future : FetchBlock} {rest : List FetchBlock}
    (phase : Phase) (reply : Reply) (taken : fetcher.futures = future :: rest) :
    let after := { fetcher with futures := rest, phase := phase }.pollTaken hashBytes reply future
    (Effect hashBytes fetcher after ∧ rest.length ≤ after.futures.length ∧
      (after.phase = phase ∨ after.phase = .exited)) ∨ Panics fetcher := by
  dsimp only
  have grows (future : FetchBlock) : rest.length ≤ (rest ++ [future]).length := by simp
  cases future with
  | writing block slice data write =>
      left
      cases write with
      | running => exact ⟨.turned taken rfl rfl rfl rfl, grows _, Or.inl rfl⟩
      | done => exact ⟨.reports taken rfl rfl rfl rfl, le_rfl, Or.inl rfl⟩
      | failed => exact ⟨.turned taken rfl rfl rfl rfl, grows _, Or.inr rfl⟩
  | fetching block slice =>
      have putBack (after : Fetcher)
          (isBack : { fetcher with futures := rest, phase := phase }.putBack block slice = after) :
          (Effect hashBytes fetcher after ∧ rest.length ≤ after.futures.length ∧
            (after.phase = phase ∨ after.phase = .exited)) ∨ Panics fetcher := by
        unfold Fetcher.putBack at isBack
        split at isBack
        · rename_i slices requeued
          subst isBack
          exact Or.inl ⟨.requeues taken rfl requeued rfl rfl, le_rfl, Or.inl rfl⟩
        · rename_i underflow
          exact Or.inr (Or.inr ⟨block, slice, rest, taken, Or.inr underflow⟩)
      cases reply with
      | pending => exact Or.inl ⟨.turned taken rfl rfl rfl rfl, grows _, Or.inl rfl⟩
      | failed => exact putBack _ rfl
      | data bytes write =>
          simp only [Fetcher.pollTaken]
          split
          · rename_i good
            split
            · rename_i slices released
              left
              cases write with
              | running =>
                  exact ⟨.accepts taken good released rfl (Or.inl ⟨_, rfl, rfl⟩), grows _,
                    Or.inl rfl⟩
              | done =>
                  exact ⟨.accepts taken good released rfl (Or.inr ⟨rfl, rfl⟩), le_rfl, Or.inl rfl⟩
              | failed =>
                  exact ⟨.accepts taken good released rfl (Or.inl ⟨_, rfl, rfl⟩), grows _,
                    Or.inr rfl⟩
            · rename_i underflow
              exact Or.inr (Or.inr ⟨block, slice, rest, taken, Or.inl underflow⟩)
          · exact putBack _ rfl

variable {hashBytes}

/-- A step that does not get to the end of the queues. -/
theorem Fetcher.InPhase.of_phase {fetcher : Fetcher} {phase : Phase} (isPhase : fetcher.phase = phase)
    (polling : ∀ left, phase = .polling left → left ≤ fetcher.futures.length)
    (ready : phase ≠ .ready) : fetcher.InPhase :=
  ⟨fun left isPolling => polling left (isPhase.symm.trans isPolling),
    fun isReady => absurd (isPhase.symm.trans isReady) ready⟩

/-- Every step goes on, or panics. -/
theorem exec_effect {fetcher after : Fetcher} {op : Op}
    (moved : fetcher.exec hashBytes op = some after) :
    Goes hashBytes fetcher after ∨ Panics fetcher := by
  have still {retry : Bool} {phase : Phase}
      (same : some { fetcher with retryTimeout := retry, phase := phase } = some after)
      (sound : phase ≠ .panicked)
      (polling : ∀ left, phase = .polling left → left ≤ fetcher.futures.length)
      (ready : phase ≠ .ready) : Goes hashBytes fetcher after ∨ Panics fetcher := by
    obtain rfl := Option.some.inj same
    exact Or.inl ⟨.still rfl rfl rfl rfl, fun _ => sound, fun _ => .of_phase rfl polling ready⟩
  cases op with
  | enter elapsed =>
      simp only [Fetcher.exec] at moved
      split at moved
      · split at moved
        · obtain rfl := Option.some.inj moved
          exact Or.inl ⟨.still rfl rfl rfl rfl, id, id⟩
        · exact still moved nofun (by simp) nofun
      · cases moved
  | pollFuture reply =>
      simp only [Fetcher.exec] at moved
      split at moved
      · exact still moved nofun nofun nofun
      · rename_i left phase
        split at moved
        · rename_i future rest taken
          obtain rfl := Option.some.inj moved
          refine (pollTaken_effect hashBytes (.polling left) reply taken).imp_left ?_
          rintro ⟨effect, length, same | exits⟩
          · refine ⟨effect, fun _ => by simp [same], fun inPhase => .of_phase same ?_ nofun⟩
            rintro left' ⟨⟩
            have room := inPhase.polling _ phase
            rw [taken, List.length_cons] at room
            omega
          · exact ⟨effect, fun _ => by simp [exits], fun _ => .of_phase exits nofun nofun⟩
        · rename_i empty
          exact Or.inr (Or.inl ⟨left, phase, empty⟩)
      · cases moved
  | retain =>
      simp only [Fetcher.exec] at moved
      split at moved
      · rename_i position phase
        split at moved
        · rename_i slice found
          split at moved
          · exact still moved nofun nofun nofun
          · rename_i done
            obtain rfl := Option.some.inj moved
            refine Or.inl ⟨.drops phase found ?_ ?_ rfl rfl rfl rfl, id, fun _ => ?_⟩
            · omega
            · exact List.length_eq_zero_iff.mp (by omega)
            · exact .of_phase phase nofun nofun
        · exact still moved nofun nofun nofun
      · cases moved
  | check deadline =>
      simp only [Fetcher.exec] at moved
      split at moved
      · split at moved
        · rename_i empty
          obtain rfl := Option.some.inj moved
          refine Or.inl ⟨.still rfl rfl rfl rfl, fun _ => nofun, fun _ => ⟨nofun, fun _ => ?_⟩⟩
          exact ⟨List.length_eq_zero_iff.mp empty.1, List.length_eq_zero_iff.mp empty.2⟩
        · split at moved
          · exact still moved nofun nofun nofun
          · split at moved
            · exact still moved nofun nofun nofun
            · exact still moved nofun nofun nofun
      · cases moved
  | spawn connected =>
      simp only [Fetcher.exec] at moved
      split at moved
      · split at moved
        · rename_i slice found
          split at moved
          · exact still moved nofun nofun nofun
          · rename_i block rest first
            split at moved
            · obtain rfl := Option.some.inj moved
              refine Or.inl ⟨.spawns found first rfl rfl rfl rfl, fun _ => ?_, fun _ => ?_⟩
              · dsimp only
                split
                · nofun
                · nofun
              · refine .of_phase rfl ?_ ?_
                · split
                  · rintro left ⟨⟩
                    exact Nat.le_refl _
                  · nofun
                · split
                  · nofun
                  · nofun
            · obtain rfl := Option.some.inj moved
              exact Or.inl ⟨.postpones found first rfl rfl rfl rfl, fun _ => nofun,
                fun _ => .of_phase rfl nofun nofun⟩
        · split at moved
          · exact still moved nofun (by simp) nofun
          · unfold Fetcher.endRound at moved
            split at moved
            · exact still moved nofun nofun nofun
            · exact still moved nofun nofun nofun
      · cases moved
  | stall clusterStalled elapsed =>
      simp only [Fetcher.exec] at moved
      split at moved
      · split at moved
        · exact still moved nofun nofun nofun
        · split at moved
          · exact still moved nofun (by simp) nofun
          · exact still moved nofun nofun nofun
      · cases moved
  | endWrite position write =>
      simp only [Fetcher.exec] at moved
      split at moved
      · rename_i block slice data found
        obtain rfl := Option.some.inj moved
        refine Or.inl ⟨.ends found rfl rfl rfl rfl, id, fun inPhase => ⟨?_, fun isReady => ?_⟩⟩
        · simpa using inPhase.polling
        · simp [(inPhase.ready isReady).1] at found
      · cases moved

end Effects

section Futures

variable {block : Block} {slice : Nat} {data : List UInt8} {write : Write}
  {front back : List FetchBlock}

@[simp] theorem fetching_append : fetching (front ++ back) = fetching front + fetching back := by
  simp [fetching]

@[simp] theorem writing_append : writing (front ++ back) = writing front + writing back := by
  simp [writing]

@[simp] theorem fetching_cons_fetching :
    fetching (.fetching block slice :: back) = {(slice, block)} + fetching back := rfl

@[simp] theorem fetching_cons_writing :
    fetching (.writing block slice data write :: back) = fetching back := rfl

@[simp] theorem writing_cons_fetching : writing (.fetching block slice :: back) = writing back := rfl

@[simp] theorem writing_cons_writing :
    writing (.writing block slice data write :: back) = {(slice, block)} + writing back := rfl

@[simp] theorem fetching_nil : fetching [] = 0 := rfl

@[simp] theorem writing_nil : writing [] = 0 := rfl

@[simp] theorem reported_append (first second : List Written) :
    reported (first ++ second) = reported first + reported second := by
  simp [reported]

@[simp] theorem reported_singleton (write : Written) :
    reported [write] = {(write.slice, write.block)} := rfl

theorem fetching_perm (perm : front.Perm back) : fetching front = fetching back :=
  Multiset.coe_eq_coe.mpr (perm.filterMap _)

theorem writing_perm (perm : front.Perm back) : writing front = writing back :=
  Multiset.coe_eq_coe.mpr (perm.filterMap _)

theorem requests_perm (perm : front.Perm back) (index : Nat) :
    requests index front = requests index back := by
  rw [requests, requests, fetching_perm perm]

@[simp] theorem requests_append (index : Nat) :
    requests index (front ++ back) = requests index front + requests index back := by
  simp [requests]

@[simp] theorem requests_cons_writing (index : Nat) :
    requests index (.writing block slice data write :: back) = requests index back := rfl

@[simp] theorem requests_cons_fetching (index : Nat) :
    requests index (.fetching block slice :: back) =
      (if slice = index then 1 else 0) + requests index back := by
  rw [requests, fetching_cons_fetching, Multiset.countP_add, requests, ← Multiset.cons_zero,
    Multiset.countP_cons]
  simp

@[simp] theorem requests_nil (index : Nat) : requests index [] = 0 := rfl

theorem flight_perm (perm : front.Perm back) (written : List Written) :
    flight front written = flight back written := by
  rw [flight, flight, fetching_perm perm, writing_perm perm]

end Futures

section Slices

/-- The requests of a slice with the index of a future, once the future is taken. -/
theorem releaseAll_middle {front back : List Slice} {slice : Slice}
    (nodup : ((front ++ slice :: back).map Slice.index).Nodup) (positive : slice.inProgress ≠ 0) :
    releaseAll slice.index (front ++ slice :: back) =
      some (front ++ { slice with inProgress := slice.inProgress - 1 } :: back) := by
  rw [List.map_append, List.map_cons, List.nodup_middle, List.nodup_cons, ← List.map_append]
    at nodup
  have untouched {others : List Slice} (within : ∀ other ∈ others, other ∈ front ++ back) :
      releaseAll slice.index others = some others := by
    unfold releaseAll
    induction others with
    | nil => rfl
    | cons other rest ih =>
        have differs : other.index ≠ slice.index := by
          intro same
          exact nodup.1 (same ▸ List.mem_map_of_mem (within other List.mem_cons_self))
        rw [List.mapM_cons, if_neg differs,
          ih fun later member => within later (List.mem_cons_of_mem _ member)]
        rfl
  have before := untouched fun other member => List.mem_append_left back member
  have after := untouched fun other member => List.mem_append_right front member
  unfold releaseAll at before after ⊢
  rw [List.mapM_append, before, List.mapM_cons, if_pos rfl, after, release, if_neg positive]
  rfl

/-- A block that is put back goes to its own slice. -/
theorem requeue_middle {block : Block} {front back : List Slice} {slice : Slice}
    (absent : ∀ other ∈ front, other.index ≠ slice.index) (positive : slice.inProgress ≠ 0) :
    requeue block slice.index (front ++ slice :: back) =
      some (front ++ ⟨slice.index, slice.inProgress - 1, slice.blocks ++ [block]⟩ :: back) := by
  induction front with
  | nil =>
      rw [List.nil_append, requeue, if_pos rfl, release, if_neg positive]
      rfl
  | cons other rest ih =>
      rw [List.cons_append, requeue, if_neg (absent other List.mem_cons_self),
        ih fun later member => absent later (List.mem_cons_of_mem _ member)]
      rfl

end Slices

section Accounts

variable {hashBytes : List UInt8 → BlockHash} {planned : Multiset (Nat × Block)}
  {futures futures' : List FetchBlock} {slices : List Slice} {written written' : List Written}

/-- Fewer futures are matched. -/
theorem Matched.mono (matched : Matched hashBytes futures written)
    (among : ∀ future ∈ futures', future ∈ futures) : Matched hashBytes futures' written :=
  ⟨fun block slice data write member => matched.writing block slice data write (among _ member),
    matched.written⟩

/-- A future is added, and what it writes is right. -/
theorem Matched.snoc {future : FetchBlock} (matched : Matched hashBytes futures written)
    (good : ∀ block slice data write, future = .writing block slice data write →
      hashBytes data = block.hash) : Matched hashBytes (futures ++ [future]) written := by
  refine ⟨fun block slice data write member => ?_, matched.written⟩
  rcases List.mem_append.mp member with old | new
  · exact matched.writing block slice data write old
  · exact good block slice data write (List.mem_singleton.mp new).symm

/-- A write that is reported is matched by its hash. -/
theorem Matched.report {block : Block} {slice : Nat} {data : List UInt8}
    (matched : Matched hashBytes futures written) (good : hashBytes data = block.hash) :
    Matched hashBytes futures (written ++ [⟨block, slice, data⟩]) := by
  refine ⟨matched.writing, fun write member => ?_⟩
  rcases List.mem_append.mp member with old | new
  · exact matched.written write old
  · rw [List.mem_singleton.mp new]
    exact good

/-- The futures and what is written change, and the requests stay. -/
theorem Accounts.reflow (accounts : Accounts hashBytes planned futures slices written)
    (same : flight futures' written' = flight futures written)
    (requested : ∀ index, requests index futures' = requests index futures)
    (matched : Matched hashBytes futures' written') :
    Accounts hashBytes planned futures' slices written' := by
  refine ⟨by rw [same, accounts.total], ?_, ?_, accounts.nodup, matched⟩
  · intro slice member
    rw [requested]
    exact accounts.counted slice member
  · intro index positive
    rw [requested] at positive
    exact accounts.present index positive

/-- One slice changes together with the futures. -/
theorem Accounts.amend {front back : List Slice} {slice slice' : Slice}
    (accounts : Accounts hashBytes planned futures (front ++ slice :: back) written)
    (sameIndex : slice'.index = slice.index)
    (moved : placed [slice'] + flight futures' written' = placed [slice] + flight futures written)
    (counted : slice'.inProgress = requests slice.index futures')
    (others : ∀ index, index ≠ slice.index → requests index futures' = requests index futures)
    (matched : Matched hashBytes futures' written') :
    Accounts hashBytes planned futures' (front ++ slice' :: back) written' := by
  have indices : (front ++ slice' :: back).map Slice.index =
      (front ++ slice :: back).map Slice.index := by simp [sameIndex]
  have distinct := accounts.nodup
  rw [List.map_append, List.map_cons, List.nodup_middle, List.nodup_cons, ← List.map_append]
    at distinct
  refine ⟨?_, ?_, ?_, indices ▸ accounts.nodup, matched⟩
  · have before := accounts.total
    have one (other : Slice) : placed (front ++ other :: back) =
        placed front + placed back + placed [other] := by
      rw [Progress.placed_append, Progress.placed_cons, Progress.placed_cons]
      simp only [placed, List.map_nil, List.sum_nil, add_zero]
      abel
    rw [one, add_assoc] at before
    rw [one, add_assoc, moved, before]
  · intro other member
    have split : other = slice' ∨ other ∈ front ++ back := by
      simp only [List.mem_append, List.mem_cons] at member ⊢
      tauto
    rcases split with rfl | elsewhere
    · rw [counted, sameIndex]
    · have differs : other.index ≠ slice.index := by
        intro same
        exact distinct.1 (same ▸ List.mem_map_of_mem elsewhere)
      rw [others _ differs]
      apply accounts.counted
      simp only [List.mem_append, List.mem_cons] at elsewhere ⊢
      tauto
  · intro index positive
    rw [indices]
    by_cases here : index = slice.index
    · simp [here]
    · rw [others index here] at positive
      exact accounts.present index positive

/-- A slice without blocks and requests goes. -/
theorem Accounts.drop {front back : List Slice} {slice : Slice}
    (accounts : Accounts hashBytes planned futures (front ++ slice :: back) written)
    (idle : slice.inProgress = 0) (empty : slice.blocks = []) :
    Accounts hashBytes planned futures (front ++ back) written := by
  have distinct := accounts.nodup
  rw [List.map_append, List.map_cons, List.nodup_middle, List.nodup_cons, ← List.map_append]
    at distinct
  refine ⟨?_, ?_, ?_, distinct.2, accounts.matched⟩
  · have before := accounts.total
    rw [Progress.placed_append, Progress.placed_cons, empty] at before
    rw [Progress.placed_append, ← before]
    simp
  · intro other member
    apply accounts.counted
    simp only [List.mem_append, List.mem_cons] at member ⊢
    tauto
  · intro index positive
    have known := accounts.present index positive
    have here := accounts.counted slice (by simp)
    have differs : index ≠ slice.index := by
      rintro rfl
      omega
    simp only [List.map_append, List.map_cons, List.mem_append, List.mem_cons] at known ⊢
    tauto

/-- The slice of a future that is taken to be polled. -/
theorem Accounts.slice_of_fetching {block : Block} {index : Nat} {rest : List FetchBlock}
    (accounts : Accounts hashBytes planned (.fetching block index :: rest) slices written) :
    ∃ front slice back, slices = front ++ slice :: back ∧ slice.index = index ∧
      slice.inProgress = requests index rest + 1 ∧ ∀ other ∈ front, other.index ≠ slice.index := by
  have positive : 0 < requests index (.fetching block index :: rest) := by
    rw [requests_cons_fetching, if_pos rfl]
    omega
  have known := accounts.present index positive
  obtain ⟨slice, member, rfl⟩ := List.mem_map.mp known
  obtain ⟨front, back, rfl⟩ := List.append_of_mem member
  refine ⟨front, slice, back, rfl, rfl, ?_, ?_⟩
  · rw [accounts.counted slice member, requests_cons_fetching, if_pos rfl, Nat.add_comm]
  · intro other isFront same
    have distinct := accounts.nodup
    rw [List.map_append, List.map_cons, List.nodup_middle, List.nodup_cons] at distinct
    exact distinct.1 (List.mem_append_left _ (List.mem_map.mpr ⟨other, isFront, same⟩))

/-- A block that is accepted is written next. -/
theorem Accounts.accepts {block : Block} {index : Nat} {rest : List FetchBlock}
    {slices' : List Slice}
    (accounts : Accounts hashBytes planned (.fetching block index :: rest) slices written)
    (released : releaseAll index slices = some slices')
    (moved : flight futures' written' = flight rest written + {(index, block)})
    (requested : ∀ other, requests other futures' = requests other rest)
    (matched : Matched hashBytes futures' written') :
    Accounts hashBytes planned futures' slices' written' := by
  obtain ⟨front, slice, back, rfl, rfl, counted, _⟩ := accounts.slice_of_fetching
  rw [releaseAll_middle accounts.nodup (by omega)] at released
  rw [← Option.some.inj released]
  refine accounts.amend rfl ?_ ?_ ?_ matched
  · rw [moved]
    simp only [placed, flight, fetching_cons_fetching, writing_cons_fetching, List.map_cons,
      List.map_nil]
    abel
  · dsimp only
    rw [counted, requested, Nat.add_sub_cancel]
  · intro other differs
    rw [requested, requests_cons_fetching, if_neg (Ne.symm differs), Nat.zero_add]

/-- A block that failed is put back. -/
theorem Accounts.requeues {block : Block} {index : Nat} {rest : List FetchBlock}
    {slices' : List Slice}
    (accounts : Accounts hashBytes planned (.fetching block index :: rest) slices written)
    (requeued : requeue block index slices = some slices') :
    Accounts hashBytes planned rest slices' written := by
  obtain ⟨front, slice, back, rfl, rfl, counted, absent⟩ := accounts.slice_of_fetching
  rw [requeue_middle absent (by omega)] at requeued
  rw [← Option.some.inj requeued]
  refine accounts.amend rfl ?_ ?_ ?_ ?_
  · simp only [placed, flight, fetching_cons_fetching, writing_cons_fetching, List.map_cons,
      List.map_nil, List.map_append, List.sum_cons, List.sum_nil, ← Multiset.coe_add,
      Multiset.coe_singleton]
    abel
  · dsimp only
    rw [counted, Nat.add_sub_cancel]
  · intro other differs
    rw [requests_cons_fetching, if_neg (Ne.symm differs), Nat.zero_add]
  · exact ⟨fun block slice data write member =>
      accounts.matched.writing block slice data write (List.mem_cons_of_mem _ member),
      accounts.matched.written⟩

/-- What is accounted for cannot panic by counting down. -/
theorem Accounts.releases {block : Block} {index : Nat} {rest : List FetchBlock}
    (accounts : Accounts hashBytes planned (.fetching block index :: rest) slices written) :
    releaseAll index slices ≠ none ∧ requeue block index slices ≠ none := by
  obtain ⟨front, slice, back, rfl, rfl, counted, absent⟩ := accounts.slice_of_fetching
  rw [releaseAll_middle accounts.nodup (by omega), requeue_middle absent (by omega)]
  exact ⟨nofun, nofun⟩

/-- The parts of a fetcher that are accounted for. -/
def Fetcher.Accounted (hashBytes : List UInt8 → BlockHash) (planned : Multiset (Nat × Block))
    (fetcher : Fetcher) : Prop :=
  Accounts hashBytes planned fetcher.futures fetcher.slices fetcher.written

theorem exists_middle {Item : Type} {items : List Item} {position : Nat} {item : Item}
    (found : items[position]? = some item) :
    ∃ front back, items = front ++ item :: back ∧ items.eraseIdx position = front ++ back ∧
      ∀ other, items.set position other = front ++ other :: back := by
  obtain ⟨inside, rfl⟩ := List.getElem?_eq_some_iff.mp found
  refine ⟨items.take position, items.drop (position + 1), ?_, ?_, fun other => ?_⟩
  · simp
  · exact List.eraseIdx_eq_take_drop_succ items position
  · rw [List.set_eq_take_append_cons_drop, if_pos inside]

/-- No effect loses a block or doubles one. -/
theorem Effect.accounted {before after : Fetcher} (effect : Effect hashBytes before after)
    (accounted : before.Accounted hashBytes planned) : after.Accounted hashBytes planned := by
  unfold Fetcher.Accounted at accounted ⊢
  have matched := accounted.matched
  cases effect with
  | still futures slices _ written =>
      rw [futures, slices, written]
      exact accounted
  | @turned future rest taken futures slices _ written =>
      rw [taken] at accounted matched
      have perm : (rest ++ [future]).Perm (future :: rest) := List.perm_append_singleton future rest
      rw [futures, slices, written]
      exact accounted.reflow (flight_perm perm _) (requests_perm perm)
        (matched.mono fun _ member => perm.mem_iff.mp member)
  | @reports block slice data rest taken futures slices _ written =>
      rw [taken] at accounted matched
      rw [futures, slices, written]
      have good := matched.writing block slice data .done List.mem_cons_self
      refine accounted.reflow ?_ (fun _ => rfl)
        ((matched.mono fun _ member => List.mem_cons_of_mem _ member).report good)
      simp only [flight, fetching_cons_writing, writing_cons_writing, reported_append,
        reported_singleton]
      abel
  | @accepts block slice data rest taken good slices _ begins =>
      rw [taken] at accounted matched
      have later := matched.mono fun _ member => List.mem_cons_of_mem _ member
      obtain ⟨write, futures, written⟩ | ⟨futures, written⟩ := begins
      · rw [futures, written]
        refine accounted.accepts slices ?_ (fun _ => by simp) (later.snoc ?_)
        · simp only [flight, fetching_append, writing_append, fetching_cons_writing, fetching_nil,
            writing_cons_writing, writing_nil]
          abel
        · rintro block' slice' data' write' same
          obtain ⟨rfl, rfl, rfl, rfl⟩ := FetchBlock.writing.inj same
          exact good
      · rw [futures, written]
        refine accounted.accepts slices ?_ (fun _ => rfl) (later.report good)
        simp only [flight, reported_append, reported_singleton]
        abel
  | requeues taken futures slices _ written =>
      rw [taken] at accounted
      rw [futures, written]
      exact accounted.requeues slices
  | drops _ found idle empty futures slices _ written =>
      obtain ⟨front, back, whole, erased, _⟩ := exists_middle found
      rw [whole] at accounted
      rw [futures, slices, erased, written]
      exact accounted.drop idle empty
  | @spawns position slice block rest found first futures slices _ written =>
      obtain ⟨front, back, whole, _, set⟩ := exists_middle found
      rw [whole] at accounted
      rw [futures, slices, set, written]
      have counted := accounted.counted slice (by simp)
      refine accounted.amend rfl ?_ ?_ ?_ (matched.snoc ?_)
      · simp only [placed, flight, first, List.map_cons, List.map_nil, List.sum_cons, List.sum_nil,
          fetching_append, fetching_cons_fetching, fetching_nil, writing_append,
          writing_cons_fetching, writing_nil, ← Multiset.cons_coe, ← Multiset.singleton_add]
        abel
      · simp only [requests_append, requests_cons_fetching, requests_nil, if_true]
        omega
      · intro index differs
        simp [Ne.symm differs]
      · intro _ _ _ _ same
        cases same
  | @postpones position slice block rest found first futures slices _ written =>
      obtain ⟨front, back, whole, _, set⟩ := exists_middle found
      rw [whole] at accounted
      rw [futures, slices, set, written]
      refine accounted.amend rfl ?_ ?_ (fun _ _ => rfl) matched
      · simp only [placed, first, List.map_cons, List.map_nil, List.map_append, List.sum_cons,
          List.sum_nil, ← Multiset.cons_coe, ← Multiset.coe_add, ← Multiset.singleton_add,
          Multiset.coe_nil]
        abel
      · exact accounted.counted slice (by simp)
  | @ends position block slice data write found futures slices _ written =>
      obtain ⟨front, back, whole, _, set⟩ := exists_middle found
      rw [whole] at accounted matched
      rw [futures, set, slices, written]
      refine accounted.reflow ?_ (fun _ => ?_) ⟨?_, matched.written⟩
      · simp only [flight, fetching_append, writing_append, fetching_cons_writing,
          writing_cons_writing]
      · simp only [requests_append, requests_cons_writing]
      · intro block' slice' data' write' member
        rcases List.mem_append.mp member with before | after
        · exact matched.writing block' slice' data' write' (List.mem_append_left _ before)
        · rcases List.mem_cons.mp after with same | later
          · obtain ⟨rfl, rfl, rfl, rfl⟩ := FetchBlock.writing.inj same
            exact matched.writing block' slice' data' .running (by simp)
          · exact matched.writing block' slice' data' write' (by simp [later])

end Accounts

section Runs

variable {hashBytes : List UInt8 → BlockHash} {planned : Multiset (Nat × Block)}

/-- The invariant of a download. -/
structure Inv (hashBytes : List UInt8 → BlockHash) (planned : Multiset (Nat × Block))
    (fetcher : Fetcher) : Prop where
  accounted : fetcher.Accounted hashBytes planned
  inPhase : fetcher.InPhase
  sound : fetcher.phase ≠ .panicked

/-- A poll never panics as long as the books are kept. -/
theorem Inv.not_panics {fetcher : Fetcher} (inv : Inv hashBytes planned fetcher) :
    ¬ Panics fetcher := by
  rintro (⟨left, phase, empty⟩ | ⟨block, slice, rest, taken, underflow⟩)
  · have room := inv.inPhase.polling _ phase
    simp [empty] at room
  · have accounts := inv.accounted
    unfold Fetcher.Accounted at accounts
    rw [taken] at accounts
    rcases underflow with none | none
    · exact accounts.releases.1 none
    · exact accounts.releases.2 none

theorem exec_of_takes {event : Event} (valid : (machine hashBytes).Takes event) :
    event.before.exec hashBytes event.op = some event.after := by
  obtain ⟨after, moved, same⟩ := Option.map_eq_some_iff.mp valid
  rw [moved, (Prod.mk.inj same).2]

theorem Inv.effect {event : Event} (inv : Inv hashBytes planned event.before)
    (valid : (machine hashBytes).Takes event) : Effect hashBytes event.before event.after :=
  ((exec_effect (exec_of_takes valid)).resolve_right inv.not_panics).effect

/-- A step keeps the books. -/
theorem Inv.step {event : Event} (inv : Inv hashBytes planned event.before)
    (valid : (machine hashBytes).Takes event) : Inv hashBytes planned event.after := by
  have goes := (exec_effect (exec_of_takes valid)).resolve_right inv.not_panics
  exact ⟨goes.effect.accounted inv.accounted, goes.inPhase inv.inPhase, goes.sound inv.sound⟩

/-- A download starts with its plan in the books. -/
theorem inv_new {blocks : List Block} {slices : List Slice} {mask : Mask}
    (plans : Plans blocks slices mask) : Inv hashBytes (placed slices) (Fetcher.new slices mask) := by
  refine ⟨⟨?_, plans.fresh, ?_, plans.nodup, ⟨nofun, nofun⟩⟩, ⟨nofun, nofun⟩, nofun⟩
  · simp [Fetcher.new, flight, reported]
  · simp [Fetcher.new]

/-- The books are kept in every run. -/
theorem inv_of_steps {blocks : List Block} {slices : List Slice} {mask : Mask} {trace : List Event}
    {finish : Fetcher} (plans : Plans blocks slices mask)
    (steps : (machine hashBytes).Steps (Fetcher.new slices mask) trace finish) :
    Inv hashBytes (placed slices) finish :=
  (steps.preserves (Inv hashBytes (placed slices)) (fun _ => True)
    (fun _ valid _ inv => inv.step valid) (fun _ _ => trivial) (inv_new plans)).1

/-- In every run every planned block is in one place: queued, being fetched, being
written or written. A slice counts its requests and stays while it has any, and the
download is ready only when each block has been written once, with data that matches. -/
theorem blocks_accounted {index : IndexData} {hardlinks : List Path} {blocks : List Block}
    {slices shuffled : List Slice} {mask : Mask} {trace : List Event} {finish : Fetcher}
    (read : Progress.indexBlocks index hardlinks = .ok blocks)
    (fills : Progress.fillBlocks index hardlinks = .ok (slices, mask))
    (shuffles : shuffled.Perm slices)
    (steps : (machine hashBytes).Steps (Fetcher.new shuffled mask) trace finish) :
    (placed slices).map Prod.snd = blocks ∧
      placed finish.slices + fetching finish.futures + writing finish.futures +
        reported finish.written = placed slices ∧
      (∀ slice ∈ finish.slices, slice.inProgress = requests slice.index finish.futures) ∧
      finish.phase ≠ .panicked ∧
      (∀ block index, .fetching block index ∈ finish.futures →
        index ∈ finish.slices.map Slice.index) ∧
      (finish.phase = .ready → reported finish.written = placed slices ∧
        ∀ write ∈ finish.written, hashBytes write.data = write.block.hash) := by
  obtain ⟨_, read', plans⟩ := Progress.fillBlocks_plans fills shuffles
  obtain rfl := Except.ok.inj (read'.symm.trans read)
  have same := Progress.placed_perm shuffles
  obtain ⟨accounts, inPhase, sound⟩ := inv_of_steps plans steps
  have total : placed finish.slices + fetching finish.futures + writing finish.futures +
      reported finish.written = placed slices := by
    rw [← same, ← accounts.total, flight]
    abel
  refine ⟨same ▸ plans.total, total, accounts.counted, sound, ?_, fun isReady => ?_⟩
  · intro block index member
    apply accounts.present
    have among : (index, block) ∈ fetching finish.futures :=
      Multiset.mem_coe.mpr (List.mem_filterMap.mpr ⟨_, member, rfl⟩)
    exact Multiset.countP_pos.mpr ⟨_, among, rfl⟩
  · obtain ⟨noFutures, noSlices⟩ := inPhase.ready isReady
    refine ⟨?_, accounts.matched.written⟩
    rw [← total, noFutures, noSlices]
    simp [placed]

end Runs

/-! An image of one file with one block. -/

namespace Sample

/-- The content of the file. -/
def abc : List UInt8 := [97, 98, 99]

/-- The hash of `abc`, and no other. -/
def hashBytes (data : List UInt8) : BlockHash :=
  if data = abc then
    ⟨[189, 221, 129, 60, 99, 66, 57, 114, 49, 113, 239, 63, 238, 152, 87, 155, 148, 150, 78, 59, 177,
      203, 62, 66, 114, 98, 200, 192, 104, 213, 35, 25], rfl⟩
  else ⟨List.replicate 32 0, rfl⟩

/-- The index of an image with one file. -/
def index : IndexData where
  id := ⟨[1]⟩
  hashType := .blake2bx256
  blockSize := 32768
  entries := [.dir (Path.ofText "/".toList),
    .file (Path.ofText "/a".toList) false 3 [(hashBytes abc).bytes]]
  bytesTotal := 3
  blocksTotal := 1

/-- The slice with the one block. -/
def slices : List Slice := [⟨0, 0, [⟨hashBytes abc, Path.ofText "/a".toList, 0⟩]⟩]

/-- The mask that misses this slice. -/
def mask : Mask := Mask.full.sliceUnfetched 0

/-- The block is requested, and the reply is good. -/
def replied : List Op :=
  [.enter false, .pollFuture .pending, .retain, .retain, .check false, .spawn true, .spawn true,
    .spawn true, .pollFuture (.data abc .running)]

/-- The write ends before the next look at the slices. -/
def whole : List Op :=
  replied ++ [.endWrite 0 .done, .pollFuture .pending, .retain, .retain, .check false, .spawn true,
    .enter false, .pollFuture .pending, .pollFuture .pending, .retain, .check false]

theorem fills : Progress.fillBlocks index [] = .ok (slices, mask) := by decide

end Sample

/-- The block is fetched and written. -/
theorem blocks_accounted_ready :
    let run := (machine Sample.hashBytes).play (Fetcher.new Sample.slices Sample.mask) Sample.whole
    run.2.phase = .ready ∧ reported run.2.written = placed Sample.slices := by
  intro run
  have isReady : run.2.phase = .ready := by decide
  obtain ⟨blocks, reads, _⟩ := Progress.fillBlocks_plans Sample.fills (List.Perm.refl _)
  have accounted := blocks_accounted reads Sample.fills (List.Perm.refl _)
    (Machine.Steps.of_play (machine Sample.hashBytes) _ Sample.whole)
  exact ⟨isReady, (accounted.2.2.2.2.2 isReady).1⟩

section Shown

variable {hashBytes : List UInt8 → BlockHash} {planned : Multiset (Nat × Block)}

/-- The block whose write has ended. -/
def FetchBlock.finishes : FetchBlock → Option (Nat × Block)
  | .writing block slice _ .done => some (slice, block)
  | _ => none

/-- The blocks whose write has ended. -/
def finishing (futures : List FetchBlock) : Multiset (Nat × Block) :=
  (futures.filterMap FetchBlock.finishes : List (Nat × Block))

/-- The blocks that are in the temporary directory. -/
def finished (fetcher : Fetcher) : Multiset (Nat × Block) :=
  reported fetcher.written + finishing fetcher.futures

/-- When the step drops a slice, the writes of its blocks have ended. -/
def DropsWritten (event : Event) : Prop :=
  ∀ position slice, event.before.phase = .retaining position →
    event.before.slices[position]? = some slice → slice.inProgress = 0 → slice.blocks = [] →
    ∀ block data write, .writing block slice.index data write ∈ event.before.futures →
      write = .done

/-- A slice whose bit is set is gone, and its writes have ended. -/
structure Shown (fetcher : Fetcher) : Prop where
  few : ∀ slice ∈ fetcher.slices, slice.index < Progress.maxSlices
  gone : ∀ i, fetcher.mask.has i = true → i ∉ fetcher.slices.map Slice.index
  ended : ∀ i, fetcher.mask.has i = true → ∀ block data write,
    .writing block i data write ∈ fetcher.futures → write = .done

/-- Releasing keeps the slices. -/
theorem indices_releaseAll {index : Nat} {slices slices' : List Slice}
    (released : releaseAll index slices = some slices') :
    slices'.map Slice.index = slices.map Slice.index := by
  unfold releaseAll at released
  induction slices generalizing slices' with
  | nil =>
      obtain rfl := Option.some.inj released
      rfl
  | cons slice rest ih =>
      rw [List.mapM_cons] at released
      obtain ⟨first, isFirst, released⟩ := Option.bind_eq_some_iff.mp released
      obtain ⟨others, isRest, done⟩ := Option.bind_eq_some_iff.mp released
      obtain rfl := Option.some.inj done
      have same : first.index = slice.index := by
        unfold release at isFirst
        split at isFirst
        · split at isFirst
          · cases isFirst
          · rw [← Option.some.inj isFirst]
        · rw [Option.some.inj isFirst]
      rw [List.map_cons, List.map_cons, same, ih isRest]

/-- Putting back keeps the slices. -/
theorem indices_requeue {block : Block} {index : Nat} {slices slices' : List Slice}
    (requeued : requeue block index slices = some slices') :
    slices'.map Slice.index = slices.map Slice.index := by
  induction slices generalizing slices' with
  | nil =>
      obtain rfl := Option.some.inj requeued
      rfl
  | cons slice rest ih =>
      rw [requeue] at requeued
      split at requeued
      · obtain ⟨first, isFirst, done⟩ := Option.bind_eq_some_iff.mp requeued
        obtain rfl := Option.some.inj done
        unfold release at isFirst
        split at isFirst
        · cases isFirst
        · rw [← Option.some.inj isFirst]
          rfl
      · obtain ⟨others, isRest, done⟩ := Option.bind_eq_some_iff.mp requeued
        obtain rfl := Option.some.inj done
        rw [List.map_cons, List.map_cons, ih isRest]

/-- A step that leaves the mask and the indices keeps the bits true. -/
theorem Shown.keep {before after : Fetcher} (shown : Shown before)
    (mask : after.mask = before.mask)
    (indices : after.slices.map Slice.index = before.slices.map Slice.index)
    (ended : ∀ i, before.mask.has i = true → ∀ block data write,
      .writing block i data write ∈ after.futures → write = .done) : Shown after := by
  refine ⟨fun slice member => ?_, ?_, ?_⟩
  · have known : slice.index ∈ before.slices.map Slice.index :=
      indices ▸ List.mem_map_of_mem member
    obtain ⟨old, isOld, same⟩ := List.mem_map.mp known
    rw [← same]
    exact shown.few old isOld
  · rw [mask, indices]
    exact shown.gone
  · rw [mask]
    exact ended

/-- So does one that also leaves no other futures. -/
theorem Shown.fewer {before after : Fetcher} (shown : Shown before)
    (mask : after.mask = before.mask)
    (indices : after.slices.map Slice.index = before.slices.map Slice.index)
    (among : ∀ future ∈ after.futures, future ∈ before.futures) : Shown after :=
  shown.keep mask indices fun i isSet block data write member =>
    shown.ended i isSet block data write (among _ member)

/-- What is shown stays true when nothing that was written is dropped. -/
theorem Effect.shown {event : Event} (effect : Effect hashBytes event.before event.after)
    (accounted : event.before.Accounted hashBytes planned) (written : DropsWritten event)
    (shown : Shown event.before) : Shown event.after := by
  unfold Fetcher.Accounted at accounted
  cases effect with
  | still futures slices mask _ =>
      exact shown.fewer mask (by rw [slices]) fun _ member => futures ▸ member
  | @turned future rest taken futures slices mask _ =>
      refine shown.fewer mask (by rw [slices]) fun other member => ?_
      rw [futures] at member
      rw [taken]
      exact (List.perm_append_singleton future rest).mem_iff.mp member
  | reports taken futures slices mask _ =>
      refine shown.fewer mask (by rw [slices]) fun _ member => ?_
      rw [taken]
      exact List.mem_cons_of_mem _ (futures ▸ member)
  | @accepts block slice data rest taken _ slices mask begins =>
      refine shown.keep mask (indices_releaseAll slices) fun i isSet block' data' write' member => ?_
      have old (among : .writing block' i data' write' ∈ rest) : write' = .done := by
        refine shown.ended i isSet block' data' write' ?_
        rw [taken]
        exact List.mem_cons_of_mem _ among
      obtain ⟨write, futures, _⟩ | ⟨futures, _⟩ := begins
      · rw [futures] at member
        rcases List.mem_append.mp member with known | new
        · exact old known
        · -- the slice of a request is still there, so its bit is not set
          obtain ⟨_, rfl, _⟩ := FetchBlock.writing.inj (List.mem_singleton.mp new)
          rw [taken] at accounted
          obtain ⟨front, there, back, whole, same, _⟩ := accounted.slice_of_fetching
          exact absurd (by rw [whole]; simp [same]) (shown.gone i isSet)
      · rw [futures] at member
        exact old member
  | requeues taken futures slices mask _ =>
      refine shown.fewer mask (indices_requeue slices) fun _ member => ?_
      rw [taken]
      exact List.mem_cons_of_mem _ (futures ▸ member)
  | @drops position slice phase found idle empty futures slices mask _ =>
      obtain ⟨front, back, whole, erased, _⟩ := exists_middle found
      have inside : slice.index < 16 :=
        Nat.lt_of_lt_of_le (shown.few slice (by rw [whole]; simp)) (by decide)
      have distinct := accounted.nodup
      rw [whole, List.map_append, List.map_cons, List.nodup_middle, List.nodup_cons,
        ← List.map_append] at distinct
      refine ⟨?_, fun i isSet => ?_, fun i isSet block data write member => ?_⟩
      · rw [slices, erased]
        intro other member
        apply shown.few
        rw [whole]
        simp only [List.mem_append, List.mem_cons] at member ⊢
        tauto
      · rw [mask, Mask.has_setFetched _ inside, Bool.or_eq_true, decide_eq_true_iff] at isSet
        rw [slices, erased]
        rcases isSet with old | rfl
        · have absent := shown.gone i old
          rw [whole] at absent
          simp only [List.map_append, List.map_cons, List.mem_append, List.mem_cons] at absent ⊢
          tauto
        · exact distinct.1
      · rw [mask, Mask.has_setFetched _ inside, Bool.or_eq_true, decide_eq_true_iff] at isSet
        rw [futures] at member
        rcases isSet with old | rfl
        · exact shown.ended i old block data write member
        · exact written position slice phase found idle empty block data write member
  | @spawns position slice block rest found first futures slices mask _ =>
      obtain ⟨front, back, whole, _, set⟩ := exists_middle found
      refine shown.keep mask ?_ fun i isSet block' data write member => ?_
      · rw [slices, set, whole]
        simp
      · rw [futures] at member
        rcases List.mem_append.mp member with old | new
        · exact shown.ended i isSet block' data write old
        · cases List.mem_singleton.mp new
  | postpones found first futures slices mask _ =>
      obtain ⟨front, back, whole, _, set⟩ := exists_middle found
      refine shown.fewer mask ?_ fun _ member => futures ▸ member
      rw [slices, set, whole]
      simp
  | @ends position block slice data write found futures slices mask _ =>
      obtain ⟨front, back, whole, _, set⟩ := exists_middle found
      refine shown.keep mask (by rw [slices]) fun i isSet block' data' write' member => ?_
      rw [futures, set] at member
      rcases List.mem_append.mp member with before | after
      · exact shown.ended i isSet block' data' write' (by rw [whole]; simp [before])
      · rcases List.mem_cons.mp after with same | later
        · -- a write that is running is not one of a slice whose bit is set
          obtain ⟨_, rfl, _⟩ := FetchBlock.writing.inj same
          cases shown.ended i isSet block data .running (by rw [whole]; simp)
        · exact shown.ended i isSet block' data' write' (by rw [whole]; simp [later])

/-- What the mask of a plan shows is true. -/
theorem shown_new {blocks : List Block} {slices : List Slice} {mask : Mask}
    (plans : Plans blocks slices mask) : Shown (Fetcher.new slices mask) := by
  refine ⟨plans.few, fun i isSet member => ?_, fun _ _ _ _ _ member => (nomatch member)⟩
  obtain ⟨slice, isSlice, rfl⟩ := List.mem_map.mp member
  have isClear := plans.unfetched slice isSlice
  exact absurd isSet (by simp [Fetcher.new, isClear])

/-- The writes of a slice that have all ended. -/
theorem filter_writing {i : Nat} {futures : List FetchBlock}
    (ended : ∀ block data write, .writing block i data write ∈ futures → write = .done) :
    (writing futures).filter (fun place => place.1 = i) =
      (finishing futures).filter fun place => place.1 = i := by
  induction futures with
  | nil => rfl
  | cons future rest ih =>
      have later := ih fun block data write member =>
        ended block data write (List.mem_cons_of_mem _ member)
      cases future with
      | fetching block slice => exact later
      | writing block slice data write =>
          have done : finishing (.writing block slice data .done :: rest) =
              {(slice, block)} + finishing rest := rfl
          rw [writing_cons_writing, Multiset.filter_add, later]
          by_cases here : slice = i
          · subst here
            obtain rfl := ended block data write List.mem_cons_self
            rw [done, Multiset.filter_add]
          · have other : ({(slice, block)} : Multiset (Nat × Block)).filter
                (fun place => place.1 = i) = 0 := by simp [Multiset.filter_singleton, here]
            rw [other, zero_add]
            cases write with
            | running => rfl
            | failed => rfl
            | done => rw [done, Multiset.filter_add, other, zero_add]

/-- Every block that was planned for a slice with a set bit is in the temporary
directory. -/
theorem Shown.finished_eq {fetcher : Fetcher} (shown : Shown fetcher)
    (accounted : fetcher.Accounted hashBytes planned) {i : Nat}
    (isSet : fetcher.mask.has i = true) :
    (finished fetcher).filter (fun place => place.1 = i) =
      planned.filter fun place => place.1 = i := by
  have noneQueued : (placed fetcher.slices).filter (fun place => place.1 = i) = 0 := by
    refine Multiset.filter_eq_nil.mpr ?_
    rintro ⟨index, block⟩ member rfl
    obtain ⟨slice, isSlice, same, _⟩ := Progress.mem_placed.mp member
    exact shown.gone index isSet (List.mem_map.mpr ⟨slice, isSlice, same⟩)
  have noneFetched : (fetching fetcher.futures).filter (fun place => place.1 = i) = 0 := by
    refine Multiset.filter_eq_nil.mpr fun place member same => ?_
    have positive : 0 < requests i fetcher.futures := Multiset.countP_pos.mpr ⟨place, member, same⟩
    exact shown.gone i isSet (accounted.present i positive)
  rw [← accounted.total, flight, finished]
  simp only [Multiset.filter_add]
  rw [noneQueued, noneFetched, filter_writing (shown.ended i isSet)]
  abel

/-- In a run that drops a slice only when its writes have ended, a set bit stands for a
slice whose blocks are all in the temporary directory. -/
theorem shown_slices_written {index : IndexData} {hardlinks : List Path} {slices shuffled : List Slice}
    {mask : Mask} {trace : List Event} {finish : Fetcher}
    (fills : Progress.fillBlocks index hardlinks = .ok (slices, mask))
    (shuffles : shuffled.Perm slices)
    (steps : (machine hashBytes).Steps (Fetcher.new shuffled mask) trace finish)
    (drops : ∀ event ∈ trace, DropsWritten event) {i : Nat}
    (isSet : finish.mask.has i = true) :
    (finished finish).filter (fun place => place.1 = i) =
      (placed slices).filter fun place => place.1 = i := by
  obtain ⟨_, _, plans⟩ := Progress.fillBlocks_plans fills shuffles
  rw [← Progress.placed_perm shuffles]
  obtain ⟨⟨inv, shown⟩, _⟩ := steps.preserves
    (fun fetcher => Inv hashBytes (placed shuffled) fetcher ∧ Shown fetcher) DropsWritten
    (fun event valid written here => ⟨here.1.step valid,
      (here.1.effect valid).shown here.1.accounted written here.2⟩)
    drops ⟨inv_new plans, shown_new plans⟩
  exact shown.finished_eq inv.accounted isSet

end Shown

/-- The step is not at a slice, or all writes have ended. -/
def Sample.dropsWritten (event : Event) : Bool :=
  match event.before.phase with
  | .retaining _ => event.before.futures.all fun
      | .fetching _ _ => true
      | .writing _ _ _ write => decide (write = .done)
  | _ => true

theorem Sample.dropsWritten_of {event : Event} (checked : dropsWritten event = true) :
    DropsWritten event := by
  intro position slice phase _ _ _ block data write member
  simp only [dropsWritten, phase, List.all_eq_true] at checked
  exact of_decide_eq_true (checked _ member)

/-- The write ends first, and the bit tells the truth. -/
theorem shown_slices_written_in_time :
    let run := (machine Sample.hashBytes).play (Fetcher.new Sample.slices Sample.mask) Sample.whole
    run.2.mask.has 0 = true ∧
      (finished run.2).filter (fun place => place.1 = 0) =
        (placed Sample.slices).filter fun place => place.1 = 0 := by
  intro run
  have isSet : run.2.mask.has 0 = true := by decide
  have checked : ∀ event ∈ run.1, Sample.dropsWritten event = true := by decide
  exact ⟨isSet, shown_slices_written Sample.fills (List.Perm.refl _)
    (Machine.Steps.of_play _ _ _)
    (fun event member => Sample.dropsWritten_of (checked event member)) isSet⟩

/-- The slice is dropped as soon as the reply is there, and its bit is set while the
write is still running. -/
theorem shown_before_written :
    let run := (machine Sample.hashBytes).play (Fetcher.new Sample.slices Sample.mask)
      (Sample.replied ++ [.pollFuture .pending, .retain])
    Progress.fillBlocks Sample.index [] = .ok (Sample.slices, Sample.mask) ∧
      run.1.length = 11 ∧ run.2.mask.has 0 = true ∧
      (finished run.2).filter (fun place => place.1 = 0) ≠
        (placed Sample.slices).filter fun place => place.1 = 0 := by
  refine ⟨Sample.fills, ?_, ?_, ?_⟩
  · decide
  · decide
  · decide

end FetchBlocks

end Ciruela
