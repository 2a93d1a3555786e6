import Mathlib.Data.List.Basic
import Ciruela.Foundation.Machine

/-!
# Machines that send each other messages

Every party of a network is a machine of its own, and one of them moves at a time. The
network keeps nothing but the history: a message that was sent once can be taken in by
any party at any later time, again and again, or never. So messages may be lost, doubled,
delayed and handed to the wrong party.

`Machine.Steps.view` sees a run of a part in a run of the whole, and `Network.Steps.alone`
does so for one party. `Network.Steps.causal` is the induction rule for what messages say:
a party may rely on everything it was told while it is shown that it says nothing wrong.
-/

namespace Ciruela.Foundation

universe u v w x y z

section View

variable {State : Type u} {Op : Type v} {Answer : Type w}
variable {Part : Type x} {PartOp : Type y} {PartAnswer : Type z}

/-- The part moves as the transition of the whole says, or stays where it is. -/
def Machine.Shows (part : Machine Part PartOp PartAnswer) (look : State → Part)
    (taken : Transition State Op Answer) : Option (Transition Part PartOp PartAnswer) → Prop
  | none => look taken.after = look taken.before
  | some inner => part.Takes inner ∧ inner.before = look taken.before ∧
      inner.after = look taken.after

/-- A run of the whole is a run of each of its parts. -/
theorem Machine.Steps.view {machine : Machine State Op Answer}
    {part : Machine Part PartOp PartAnswer} {start finish : State}
    {trace : List (Transition State Op Answer)} (look : State → Part)
    (follow : Transition State Op Answer → Option (Transition Part PartOp PartAnswer))
    (shows : ∀ taken, machine.Takes taken → part.Shows look taken (follow taken))
    (steps : machine.Steps start trace finish) :
    part.Steps (look start) (trace.filterMap follow) (look finish) := by
  induction steps with
  | refl => exact .refl
  | @step trace taken prior valid ih =>
      have shown := shows taken valid
      rw [List.filterMap_append, List.filterMap_cons, List.filterMap_nil]
      cases followed : follow taken with
      | none =>
          rw [followed] at shown
          rw [List.append_nil, show look taken.after = look taken.before from shown]
          exact ih
      | some inner =>
          rw [followed] at shown
          obtain ⟨moves, before, after⟩ := shown
          rw [← before] at ih
          rw [← after]
          exact ih.step moves

end View

/-- The parties, the messages an operation takes in, and those that an answer sends. -/
structure Network (Id : Type u) (State : Type v) (Op : Type w) (Answer : Type x)
    (Message : Type y) where
  party : Id → Machine State Op Answer
  takes : Op → Message → Prop
  sends : Answer → Message → Prop

namespace Network

variable {Id : Type u} {State : Type v} {Op : Type w} {Answer : Type x} {Message : Type y}

/-- A move of one party. -/
abbrev Event (Id : Type u) (State : Type v) (Op : Type w) (Answer : Type x) :=
  Id × Transition State Op Answer

variable (network : Network Id State Op Answer Message)

/-- The message was sent in the history. -/
def Sent (history : List (Event Id State Op Answer)) (message : Message) : Prop :=
  ∃ event ∈ history, network.sends event.2.answer message

/-- What was sent stays sent. -/
theorem Sent.append {network : Network Id State Op Answer Message}
    {history : List (Event Id State Op Answer)} {message : Message}
    (sent : network.Sent history message) (later : List (Event Id State Op Answer)) :
    network.Sent (history ++ later) message := by
  obtain ⟨sender, member, sends⟩ := sent
  exact ⟨sender, List.mem_append_left _ member, sends⟩

variable [DecidableEq Id]

/-- A finite run of all parties, oldest move first. What a party takes in was sent before. -/
inductive Steps (start : Id → State) : List (Event Id State Op Answer) → (Id → State) → Prop where
  | refl : Steps start [] start
  | step {trace : List (Event Id State Op Answer)} {states : Id → State}
      {event : Event Id State Op Answer} (prior : Steps start trace states)
      (here : event.2.before = states event.1) (valid : (network.party event.1).Takes event.2)
      (heard : ∀ message, network.takes event.2.op message → network.Sent trace message) :
      Steps start (trace ++ [event]) (Function.update states event.1 event.2.after)

/-- The moves of one party. -/
def alone (id : Id) (trace : List (Event Id State Op Answer)) :
    List (Transition State Op Answer) :=
  trace.filterMap fun event => if event.1 = id then some event.2 else none

variable {network : Network Id State Op Answer Message} {start finish : Id → State}
  {trace : List (Event Id State Op Answer)} {event : Event Id State Op Answer} {id : Id}

/-- The steps that a machine takes alone are its own in the run. -/
theorem mem_alone {taken : Transition State Op Answer} :
    taken ∈ alone id trace ↔ (id, taken) ∈ trace := by
  unfold alone
  rw [List.mem_filterMap]
  constructor
  · rintro ⟨⟨other, inner⟩, member, found⟩
    split at found
    · rename_i same
      obtain rfl := Option.some.inj found
      obtain rfl : other = id := same
      exact member
    · cases found
  · intro member
    exact ⟨(id, taken), member, if_pos rfl⟩

theorem alone_snoc_self : alone event.1 (trace ++ [event]) = alone event.1 trace ++ [event.2] := by
  simp [alone]

/-- A step of another machine leaves the steps of this one as they were. -/
theorem alone_snoc_of_ne (other : event.1 ≠ id) : alone id (trace ++ [event]) = alone id trace := by
  simp [alone, other]

namespace Steps

/-- Each party runs for itself. -/
theorem alone (steps : network.Steps start trace finish) (id : Id) :
    (network.party id).Steps (start id) (Network.alone id trace) (finish id) := by
  induction steps with
  | refl => exact .refl
  | @step trace states event prior here valid heard ih =>
      by_cases own : event.1 = id
      · subst own
        rw [alone_snoc_self, Function.update_self]
        rw [← here] at ih
        exact ih.step valid
      · rw [alone_snoc_of_ne own, Function.update_of_ne (Ne.symm own)]
        exact ih

/-- One party goes on with what has been sent so far. -/
theorem go {states : Id → State} {moves : List (Transition State Op Answer)} {last : State}
    (prior : network.Steps start trace states)
    (steps : (network.party id).Steps (states id) moves last)
    (heard : ∀ taken ∈ moves, ∀ message, network.takes taken.op message →
      network.Sent trace message) :
    network.Steps start (trace ++ moves.map fun taken => (id, taken))
      (Function.update states id last) := by
  induction steps with
  | refl => simpa using prior
  | @step moves taken earlier valid ih =>
      have before := ih fun other member => heard other (List.mem_append_left _ member)
      have here : (id, taken).2.before = Function.update states id taken.before id := by
        rw [Function.update_self]
      have told : ∀ message, network.takes taken.op message →
          network.Sent (trace ++ moves.map fun taken => (id, taken)) message :=
        fun message takes =>
          (heard taken (List.mem_append_right _ (List.mem_singleton.mpr rfl)) message takes).append _
      have next := before.step here valid told
      rw [List.map_append, ← List.append_assoc]
      rwa [Function.update_idem] at next

/-- All that was taken in was sent. -/
theorem sent_of_takes (steps : network.Steps start trace finish) (member : event ∈ trace)
    {message : Message} (takes : network.takes event.2.op message) :
    network.Sent trace message := by
  induction steps with
  | refl => cases member
  | step prior here valid heard ih =>
      rcases List.mem_append.mp member with old | new
      · exact (ih old).append _
      · obtain rfl := List.mem_singleton.mp new
        exact (heard message takes).append _

/-- Messages are right when a party that was told nothing wrong sends nothing wrong. -/
theorem causal (Good : List (Event Id State Op Answer) → Message → Prop)
    (grows : ∀ history event message, Good history message → Good (history ++ [event]) message)
    (sound : ∀ history event states, network.Steps start (history ++ [event]) states →
      (∀ taken ∈ Network.alone event.1 (history ++ [event]), ∀ message,
        network.takes taken.op message → Good (history ++ [event]) message) →
      ∀ message, network.sends event.2.answer message → Good (history ++ [event]) message)
    (steps : network.Steps start trace finish) :
    ∀ message, network.Sent trace message → Good trace message := by
  induction steps with
  | refl =>
      rintro message ⟨sender, member, _⟩
      cases member
  | @step trace states event prior here valid heard ih =>
      rintro message ⟨sender, member, sends⟩
      rcases List.mem_append.mp member with old | new
      · exact grows trace event message (ih message ⟨sender, old, sends⟩)
      · obtain rfl := List.mem_singleton.mp new
        refine sound trace sender _ (prior.step here valid heard) ?_ message sends
        intro taken isTaken told takes
        rcases List.mem_append.mp (mem_alone.mp isTaken) with earlier | last
        · exact grows trace sender told (ih told (prior.sent_of_takes earlier takes))
        · have same : taken = sender.2 := congrArg Prod.snd (List.mem_singleton.mp last)
          exact grows trace sender told (ih told (heard told (same ▸ takes)))

/-- What every message says is known by a party all along its run. -/
theorem told {Good : List (Event Id State Op Answer) → Message → Prop}
    (good : ∀ message, network.Sent trace message → Good trace message)
    (steps : network.Steps start trace finish) {taken : Transition State Op Answer}
    (member : taken ∈ Network.alone id trace) {message : Message}
    (takes : network.takes taken.op message) : Good trace message :=
  good message (steps.sent_of_takes (mem_alone.mp member) takes)

end Steps

end Network

end Ciruela.Foundation
