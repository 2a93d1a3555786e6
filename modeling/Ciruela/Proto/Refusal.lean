import Ciruela.Proto.Request

/-!
# Requests that are refused

A server can answer a request with an error. The text of the error goes no further than the
registry: the one-shot channel of the request is dropped, as it is when a connection is lost.
-/

namespace Ciruela.Proto

open Foundation

/-- An error came in under the number of a request that waited for an answer. -/
def Refused (trace : List RequestStep) (chan : Nat) : Prop :=
  ∃ front taken back id text, trace = front ++ taken :: back ∧
    taken.op = .respond id (.error text) ∧ (chan, id) ∈ unanswered front

namespace Connection

/-- Nothing was sent over the channel yet, and its sending half is still there. -/
def Open (conn : Connection) (chan : Nat) : Prop :=
  ∃ receiver, conn.oneshots.lookup chan = some ⟨none, receiver⟩

variable {conn next : Connection} {trace : List RequestStep} {taken : RequestStep}
  {codec : Codec} {order : Listing MachineId (List Char)}

/-- Completing one channel leaves the others open. -/
theorem open_complete {chan other : Nat} {fate : Fate} (isOpen : conn.Open other)
    (differs : other ≠ chan) : (conn.complete chan fate).Open other := by
  rcases conn.complete_cases chan fate with same | ⟨receiver, left, _, _, result⟩
  · rwa [same]
  · rw [result]
    obtain ⟨waits, found⟩ := isOpen
    refine ⟨waits, ?_⟩
    show (conn.oneshots.insert chan _).lookup other = _
    rw [Map.lookup_insert_eq, if_neg differs, found]

/-- Other requests than the one whose channel it is are dropped. -/
theorem open_dropAll {queue : List Boxed} {other : Nat} (isOpen : conn.Open other)
    (apart : ∀ wrap ∈ wraps queue, wrap.chan ≠ some other) :
    (queue.foldl dropBoxed conn).Open other := by
  induction queue generalizing conn with
  | nil => exact isOpen
  | cons boxed rest ih =>
      rw [List.foldl_cons]
      cases boxed with
      | other _ => exact ih isOpen apart
      | request wrap =>
          have queued : wraps (.request wrap :: rest) = wrap :: wraps rest := rfl
          rw [queued, List.forall_mem_cons] at apart
          refine ih ?_ apart.2
          rw [dropBoxed, dropWrap]
          split
          · rename_i chan isChan
            refine open_complete isOpen ?_
            rintro rfl
            exact apart.1 isChan
          · exact isOpen

/-- A channel is held by what is queued, or by a request without an answer. -/
theorem mem_held {chan : Nat} : chan ∈ held trace conn ↔
    (∃ wrap ∈ wraps conn.queue, wrap.chan = some chan) ∨ ∃ id, (chan, id) ∈ unanswered trace := by
  simp [held]

/-- What waits for an answer is not in the channel to the packet stream as well. -/
theorem apart_of_booked (booked : Booked trace conn) {chan : Nat} {id : UInt64}
    (waits : (chan, id) ∈ unanswered trace) : ∀ wrap ∈ wraps conn.queue, wrap.chan ≠ some chan := by
  intro wrap queued isChan
  have both := (List.nodup_append.mp booked.chans).2.2
  exact both chan (List.mem_filterMap.mpr ⟨wrap, queued, isChan⟩) chan
    (List.mem_map.mpr ⟨_, waits, rfl⟩) rfl

/-- A channel waits for one answer. -/
theorem id_unique (booked : Booked trace conn) {chan : Nat} {id other : UInt64}
    (first : (chan, id) ∈ unanswered trace) (second : (chan, other) ∈ unanswered trace) :
    id = other := by
  have nodup := (List.nodup_append.mp booked.chans).2.1
  have same := List.inj_on_of_nodup_map nodup first second rfl
  exact (Prod.mk.inj same).2

/-- The channels of all requests that wait are open. -/
def AllOpen (trace : List RequestStep) (conn : Connection) : Prop :=
  ∀ chan ∈ held trace conn, conn.Open chan

/-- Channels stay open when fewer of them are held. -/
theorem AllOpen.fewer (opened : AllOpen trace conn) (same : next.oneshots = conn.oneshots)
    (fewer : ∀ chan ∈ held (trace ++ [taken]) next, chan ∈ held trace conn) :
    AllOpen (trace ++ [taken]) next := by
  intro chan member
  obtain ⟨receiver, found⟩ := opened chan (fewer chan member)
  exact ⟨receiver, by rw [same, found]⟩

/-- A request gets a new channel. Where it cannot be sent, the channel is dropped at once. -/
theorem AllOpen.request {sent : Request} (opened : AllOpen trace conn)
    (booked : Booked trace conn) (waiting : unanswered (trace ++ [taken]) = unanswered trace) :
    AllOpen (trace ++ [taken]) (conn.request sent) := by
  have renewed {chan : Nat} (member : chan ∈ held trace conn) :
      conn.oneshot.Open chan ∧ chan ≠ conn.issued := by
    have differs : chan ≠ conn.issued := Nat.ne_of_lt (booked.below chan member)
    obtain ⟨receiver, found⟩ := opened chan member
    refine ⟨⟨receiver, ?_⟩, differs⟩
    show (conn.oneshots.insert conn.issued _).lookup chan = _
    rw [Map.lookup_insert_eq, if_neg differs, found]
  intro chan member
  rw [mem_held, waiting] at member
  unfold Connection.request send at member ⊢
  split at member
  · rename_i closed
    rw [if_pos closed]
    have before : chan ∈ held trace conn := by
      have queue := (keeps_dropBoxed conn.oneshot (.request ⟨sent, some conn.issued⟩)).queue
      rw [queue] at member
      exact mem_held.mpr member
    obtain ⟨isOpen, differs⟩ := renewed before
    exact open_complete isOpen differs
  · rename_i notClosed
    rw [if_neg notClosed]
    by_cases isNew : chan = conn.issued
    · refine ⟨.waiting, ?_⟩
      show (conn.oneshots.insert conn.issued _).lookup chan = _
      rw [Map.lookup_insert_eq, if_pos isNew]
    · have before : chan ∈ held trace conn := by
        rw [mem_held]
        rcases member with ⟨wrap, queued, isChan⟩ | waits
        · rw [wraps_append] at queued
          rcases List.mem_append.mp queued with old | last
          · exact .inl ⟨wrap, old, isChan⟩
          · rw [List.mem_singleton.mp last] at isChan
            exact absurd (Option.some.inj isChan).symm isNew
        · exact .inr waits
      exact (renewed before).1

/-- An answer completes the channel of the request that it is for, which waits no longer. -/
theorem AllOpen.respond {id : UInt64} {response : Response} (opened : AllOpen trace conn)
    (booked : Booked trace conn) (responded : conn.respond id response = .ok next)
    (isOp : taken.op = .respond id response) : AllOpen (trace ++ [taken]) next := by
  have waiting : unanswered (trace ++ [taken]) =
      (unanswered trace).filter fun entry => entry.2 ≠ id := by
    rw [unanswered_append, settle, isOp]
  have left {chan : Nat} (member : chan ∈ held (trace ++ [taken]) next) :
      chan ∈ held trace conn ∧ (chan, id) ∉ unanswered trace := by
    rw [mem_held, waiting, (respond_fields responded).1] at member
    rcases member with ⟨wrap, queued, isChan⟩ | ⟨other, waits⟩
    · refine ⟨mem_held.mpr (.inl ⟨wrap, queued, isChan⟩), fun answered => ?_⟩
      exact apart_of_booked booked answered wrap queued isChan
    · obtain ⟨before, differs⟩ := List.mem_filter.mp waits
      refine ⟨mem_held.mpr (.inr ⟨other, before⟩), fun answered => ?_⟩
      exact of_decide_eq_true differs (id_unique booked before answered)
  intro chan member
  obtain ⟨before, notThis⟩ := left member
  rcases respond_cases responded with
    ⟨_, rfl⟩ | ⟨wrap, found, ⟨_, rfl⟩ | ⟨held, fate, isHeld, rfl, _⟩⟩
  · exact opened chan before
  · exact opened chan before
  · obtain ⟨other, isOther, _, waits⟩ := booked.registered id wrap found
    obtain rfl := Option.some.inj (isHeld.symm.trans isOther)
    refine open_complete (opened chan before) ?_
    rintro rfl
    exact notThis waits

/-- Sending anything but a request keeps the channels open. -/
theorem AllOpen.send {wrap : Wrap} (opened : AllOpen trace conn)
    (same : unanswered (trace ++ [taken]) = unanswered trace) :
    AllOpen (trace ++ [taken]) (conn.send (.other wrap)) := by
  have fields : (conn.send (.other wrap)).oneshots = conn.oneshots ∧
      wraps (conn.send (.other wrap)).queue = wraps conn.queue := by
    unfold Connection.send
    split
    · exact ⟨rfl, rfl⟩
    · refine ⟨rfl, ?_⟩
      show wraps (conn.queue ++ [.other wrap]) = _
      rw [wraps_append]
      exact List.append_nil _
  refine opened.fewer fields.1 fun chan member => ?_
  rwa [mem_held, fields.2, same, ← mem_held] at member

/-- A request that is sent waits for its answer instead. -/
theorem AllOpen.poll (opened : AllOpen trace conn) (isOp : taken.op = .poll)
    (polled : conn.poll codec order = .ok (taken.answer, next)) :
    AllOpen (trace ++ [taken]) next := by
  have settled : unanswered (trace ++ [taken]) = settle (unanswered trace) taken :=
    unanswered_append trace taken
  unfold Connection.poll at polled
  split at polled
  · obtain ⟨isAnswer, rfl⟩ := Prod.mk.inj (Except.ok.inj polled)
    refine opened.fewer rfl fun chan member => ?_
    rwa [mem_held, settled, settle_of_ne_respond (by simp [isOp]) (by simp [← isAnswer]),
      ← mem_held] at member
  · rename_i wrap rest queue
    obtain ⟨id, _, polled⟩ := Run.bind_eq_ok_iff.mp polled
    obtain ⟨packet, _, polled⟩ := Run.bind_eq_ok_iff.mp polled
    obtain ⟨isAnswer, rfl⟩ := Prod.mk.inj (Except.ok.inj polled)
    have queued : wraps conn.queue = wrap :: wraps rest := by
      rw [queue]
      rfl
    refine opened.fewer rfl fun chan member => ?_
    rw [mem_held, settled, settle, isOp, ← isAnswer] at member
    rw [mem_held, queued]
    rcases member with ⟨other, later, isChan⟩ | ⟨other, waits⟩
    · exact .inl ⟨other, List.mem_cons_of_mem _ later, isChan⟩
    · dsimp only at waits
      split at waits
      · rename_i sent number _ same
        obtain ⟨isSent, _, _⟩ := RequestAnswer.serialized.inj same
        rcases List.mem_append.mp waits with before | now
        · exact .inr ⟨other, before⟩
        · obtain ⟨rfl, _⟩ := Prod.mk.inj (List.mem_singleton.mp now)
          exact .inl ⟨wrap, List.mem_cons_self, isSent⟩
      · exact .inr ⟨other, waits⟩
  · rename_i wrap rest queue
    obtain ⟨packet, _, polled⟩ := Run.bind_eq_ok_iff.mp polled
    obtain ⟨isAnswer, rfl⟩ := Prod.mk.inj (Except.ok.inj polled)
    have queued : wraps conn.queue = wraps rest := by
      rw [queue]
      rfl
    refine opened.fewer rfl fun chan member => ?_
    rw [mem_held, settled, settle_of_ne_respond (by simp [isOp]) (by simp [← isAnswer])] at member
    rwa [mem_held, queued]

/-- The channels that are held are open after the stream is dropped. -/
theorem AllOpen.dropStream (opened : AllOpen trace conn) (booked : Booked trace conn)
    (same : unanswered (trace ++ [taken]) = unanswered trace) :
    AllOpen (trace ++ [taken]) conn.dropStream := by
  have emptied : conn.dropStream.queue = [] :=
    (dropAll { conn with queue := [], closed := true } conn.queue).1.queue
  intro chan member
  rw [mem_held, emptied, same] at member
  rcases member with ⟨wrap, queued, _⟩ | ⟨id, waits⟩
  · exact absurd queued List.not_mem_nil
  · have isOpen : Open { conn with queue := [], closed := true } chan :=
      opened chan (mem_held.mpr (.inr ⟨id, waits⟩))
    exact open_dropAll isOpen (apart_of_booked booked waits)

/-- Polling and dropping a future does nothing to a channel that is open but for its receiver. -/
theorem AllOpen.receive (opened : AllOpen trace conn) {future : Nat} {oneshot : Oneshot}
    (kept : oneshot.fate = conn.fate future)
    (same : unanswered (trace ++ [taken]) = unanswered trace) :
    AllOpen (trace ++ [taken]) { conn with oneshots := conn.oneshots.insert future oneshot } := by
  intro chan member
  rw [mem_held, same] at member
  obtain ⟨receiver, found⟩ := opened chan (mem_held.mpr member)
  unfold Open
  simp only [Map.lookup_insert_eq]
  split
  · rename_i isFuture
    refine ⟨oneshot.receiver, ?_⟩
    rw [isFuture] at found
    have noFate : oneshot.fate = none := by
      rw [kept, fate, found]
      rfl
    rw [← noFate]
  · exact ⟨receiver, found⟩

/-- Every step keeps the channels open that wait. -/
theorem open_step (takes : (machine codec order).Takes taken) (booked : Booked trace taken.before)
    (opened : AllOpen trace taken.before) : AllOpen (trace ++ [taken]) taken.after := by
  obtain ⟨before, op, answer, after⟩ := taken
  have moved : before.exec codec order op = some (answer, after) := takes
  have settled := unanswered_append trace ⟨before, op, answer, after⟩
  cases op with
  | request sent =>
      obtain ⟨rfl, rfl⟩ := Prod.mk.inj (Option.some.inj moved)
      exact opened.request booked settled
  | notification note =>
      obtain ⟨rfl, rfl⟩ := Prod.mk.inj (Option.some.inj moved)
      exact opened.send settled
  | response id reply =>
      obtain ⟨rfl, rfl⟩ := Prod.mk.inj (Option.some.inj moved)
      exact opened.send settled
  | errorResponse id text =>
      obtain ⟨rfl, rfl⟩ := Prod.mk.inj (Option.some.inj moved)
      exact opened.send settled
  | poll =>
      simp only [exec] at moved
      split at moved
      · cases moved
      · exact opened.poll rfl (Run.ok_of_toOption moved)
  | respond id response =>
      obtain ⟨next, responded, result⟩ := Option.map_eq_some_iff.mp moved
      obtain ⟨rfl, rfl⟩ := Prod.mk.inj result
      exact opened.respond booked (Run.ok_of_toOption responded) rfl
  | pollFuture future =>
      have waiting : unanswered (trace ++ [⟨before, .pollFuture future, answer, after⟩]) =
          unanswered trace := by
        rw [settled]
        exact settle_of_ne_respond (by simp) fun chan => (pollFuture_keeps moved).2 (some chan)
      have moved : before.pollFuture future = some (answer, after) := moved
      unfold pollFuture at moved
      split at moved
      · obtain ⟨rfl, rfl⟩ := Prod.mk.inj (Option.some.inj moved)
        refine opened.fewer rfl fun chan member => ?_
        rwa [mem_held, waiting, ← mem_held] at member
      · rename_i found
        obtain ⟨rfl, rfl⟩ := Prod.mk.inj (Option.some.inj moved)
        refine opened.receive ?_ waiting
        rw [fate, found]
        rfl
      · cases moved
  | dropFuture future =>
      obtain ⟨next, dropped, result⟩ := Option.map_eq_some_iff.mp moved
      obtain ⟨rfl, rfl⟩ := Prod.mk.inj result
      unfold dropFuture at dropped
      split at dropped
      · rename_i found
        obtain rfl := Option.some.inj dropped
        refine opened.receive ?_ settled
        rw [fate, found]
        rfl
      · cases dropped
  | dropStream =>
      simp only [exec] at moved
      split at moved
      · cases moved
      · obtain ⟨rfl, rfl⟩ := Prod.mk.inj (Option.some.inj moved)
        exact opened.dropStream booked settled

theorem fate_receive {future chan : Nat} {oneshot : Oneshot} (kept : oneshot.fate = conn.fate future) :
    fate { conn with oneshots := conn.oneshots.insert future oneshot } chan = conn.fate chan := by
  rw [fate_insert]
  split
  · rename_i isFuture
    rw [isFuture, kept]
  · rfl

/-- What was left in a channel stays there. -/
theorem fate_step (takes : (machine codec order).Takes taken)
    (settled : Settled trace taken.before) {chan : Nat} {left : Fate}
    (found : taken.before.fate chan = some left) : taken.after.fate chan = some left := by
  obtain ⟨before, op, answer, after⟩ := taken
  have moved : before.exec codec order op = some (answer, after) := takes
  cases op with
  | request sent =>
      obtain ⟨rfl, rfl⟩ := Prod.mk.inj (Option.some.inj moved)
      refine (send_quiet before.oneshot _).1.kept chan left ?_
      have differs : chan ≠ before.issued := by
        rintro rfl
        have fresh := settled.fresh before.issued le_rfl
        unfold Connection.receiver at fresh
        unfold Connection.fate at found
        rw [Option.map_eq_none_iff.mp fresh] at found
        cases found
      rw [Connection.oneshot]
      show fate { before with oneshots := before.oneshots.insert before.issued _ } chan = _
      rw [fate_insert, if_neg differs, found]
  | notification note =>
      obtain ⟨rfl, rfl⟩ := Prod.mk.inj (Option.some.inj moved)
      exact (send_quiet before _).1.kept chan left found
  | response id reply =>
      obtain ⟨rfl, rfl⟩ := Prod.mk.inj (Option.some.inj moved)
      exact (send_quiet before _).1.kept chan left found
  | errorResponse id text =>
      obtain ⟨rfl, rfl⟩ := Prod.mk.inj (Option.some.inj moved)
      exact (send_quiet before _).1.kept chan left found
  | poll =>
      simp only [exec] at moved
      split at moved
      · cases moved
      · exact (poll_quiet (Run.ok_of_toOption moved)).1.kept chan left found
  | respond id response =>
      obtain ⟨next, responded, result⟩ := Option.map_eq_some_iff.mp moved
      obtain ⟨rfl, rfl⟩ := Prod.mk.inj result
      rcases respond_cases (Run.ok_of_toOption responded) with
        ⟨_, rfl⟩ | ⟨wrap, _, ⟨_, rfl⟩ | ⟨held, fate, _, rfl, _⟩⟩
      · exact found
      · exact found
      · exact kept_complete found
  | pollFuture future =>
      have moved : before.pollFuture future = some (answer, after) := moved
      unfold pollFuture at moved
      split at moved
      · obtain ⟨rfl, rfl⟩ := Prod.mk.inj (Option.some.inj moved)
        exact found
      · rename_i isHeld
        obtain ⟨rfl, rfl⟩ := Prod.mk.inj (Option.some.inj moved)
        rw [fate_receive, found]
        rw [fate, isHeld]
        rfl
      · cases moved
  | dropFuture future =>
      obtain ⟨next, dropped, result⟩ := Option.map_eq_some_iff.mp moved
      obtain ⟨rfl, rfl⟩ := Prod.mk.inj result
      unfold dropFuture at dropped
      split at dropped
      · rename_i isHeld
        obtain rfl := Option.some.inj dropped
        rw [fate_receive, found]
        rw [fate, isHeld]
        rfl
      · cases dropped
  | dropStream =>
      simp only [exec] at moved
      split at moved
      · cases moved
      · obtain ⟨rfl, rfl⟩ := Prod.mk.inj (Option.some.inj moved)
        exact (dropStream_quiet before).1.kept chan left found

/-- What a step adds to the requests that were refused. -/
theorem refused_concat {chan : Nat} : Refused (trace ++ [taken]) chan ↔ Refused trace chan ∨
    ∃ id text, taken.op = .respond id (.error text) ∧ (chan, id) ∈ unanswered trace := by
  constructor
  · rintro ⟨front, response, back, id, text, split, isError, waits⟩
    rcases List.eq_nil_or_concat back with rfl | ⟨back, last, rfl⟩
    · obtain ⟨rfl, same⟩ := List.append_inj' split rfl
      obtain rfl := List.singleton_inj.mp same
      exact .inr ⟨id, text, isError, waits⟩
    · rw [List.concat_eq_append, ← List.cons_append, ← List.append_assoc] at split
      obtain ⟨same, _⟩ := List.append_inj' split rfl
      exact .inl ⟨front, response, back, id, text, same, isError, waits⟩
  · rintro (⟨front, response, back, id, text, rfl, facts⟩ | ⟨id, text, isError, waits⟩)
    · exact ⟨front, response, back ++ [taken], id, text, by simp, facts⟩
    · exact ⟨trace, taken, [], id, text, rfl, isError, waits⟩

/-- An error drops the channel of the request. -/
theorem canceled_of_error {chan : Nat} {id : UInt64} {text : List Char}
    (opened : AllOpen trace conn) (booked : Booked trace conn)
    (waits : (chan, id) ∈ unanswered trace)
    (responded : conn.respond id (.error text) = .ok next) : next.fate chan = some .canceled := by
  obtain ⟨wrap, found, isChan⟩ := booked.listed chan id waits
  obtain ⟨receiver, isOpen⟩ := opened chan (mem_held.mpr (.inr ⟨id, waits⟩))
  unfold respond at responded
  rw [found] at responded
  dsimp only at responded
  rw [isChan] at responded
  rw [← Except.ok.inj responded]
  have dropped : complete { conn with requests := conn.requests.erase id } chan .canceled =
      { conn with
        requests := conn.requests.erase id
        oneshots := conn.oneshots.insert chan ⟨some .canceled, receiver⟩ } := by
    unfold complete
    dsimp only
    rw [isOpen]
    cases receiver <;> rfl
  rw [dropped]
  unfold fate
  dsimp only
  rw [Map.lookup_insert_eq, if_pos rfl]
  rfl

/-- A caller whose request was answered with an error finds its channel dropped. -/
theorem refused_canceled (steps : (machine codec order).Steps .new trace conn) {chan : Nat}
    (refused : Refused trace chan) : conn.fate chan = some .canceled := by
  suffices all : (Booked trace conn ∧ Settled trace conn) ∧ AllOpen trace conn ∧
      ∀ chan, Refused trace chan → conn.fate chan = some .canceled from all.2.2 chan refused
  refine steps.preserves_history (fun trace conn => (Booked trace conn ∧ Settled trace conn) ∧
    AllOpen trace conn ∧ ∀ chan, Refused trace chan → conn.fate chan = some .canceled)
    (fun _ => True) ?_ (by simp) ⟨⟨booked_new, settled_new⟩, ?_, ?_⟩
  · rintro history taken takes _ ⟨⟨booked, settled⟩, opened, canceled⟩
    refine ⟨⟨booked_step takes booked, settled_step takes booked settled⟩,
      open_step takes booked opened, fun chan refused => ?_⟩
    rcases refused_concat.mp refused with earlier | ⟨id, text, isError, waits⟩
    · exact fate_step takes settled (canceled chan earlier)
    · unfold Machine.Takes at takes
      rw [isError] at takes
      obtain ⟨next, responded, result⟩ := Option.map_eq_some_iff.mp takes
      obtain ⟨_, rfl⟩ := Prod.mk.inj result
      exact canceled_of_error opened booked waits (Run.ok_of_toOption responded)
  · intro chan member
    simp [held, wraps, unanswered, Connection.new] at member
  · rintro chan ⟨front, taken, back, _, _, split, _⟩
    simp at split

end Connection

end Ciruela.Proto
