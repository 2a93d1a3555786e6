import Mathlib.Data.List.Induction

/-!
# Machines and their finite runs

A machine answers each operation and moves to a next state, or does not admit
the operation in that state. Choices the modelled program leaves open (the order
of a listing, the moment a thread runs) are part of the operation, so that
`Machine.exec` stays a function and a concrete run can be evaluated.

`Machine.Steps` keeps every transition of a run with the states around it;
`Steps.preserves` and `Steps.preserves_history` are the two induction rules the
invariants of a machine are proved with. `Since` tells of a history that something
has begun in it and not ended.
-/

namespace Ciruela.Foundation

universe u v w

/-- A partial function from a state and an operation to an answer and the next state. -/
structure Machine (State : Type u) (Op : Type v) (Answer : Type w) where
  exec : State → Op → Option (Answer × State)

/-- One operation with its answer and the states around it. -/
structure Transition (State : Type u) (Op : Type v) (Answer : Type w) where
  before : State
  op : Op
  answer : Answer
  after : State
deriving DecidableEq

namespace Machine

variable {State : Type u} {Op : Type v} {Answer : Type w} {machine : Machine State Op Answer}

/-- The machine really moves along this transition. -/
def Takes (machine : Machine State Op Answer) (taken : Transition State Op Answer) : Prop :=
  machine.exec taken.before taken.op = some (taken.answer, taken.after)

/-- A finite run from `start`, oldest transition first. -/
inductive Steps (machine : Machine State Op Answer) (start : State) :
    List (Transition State Op Answer) → State → Prop where
  | refl : Steps machine start [] start
  | step {trace : List (Transition State Op Answer)} {taken : Transition State Op Answer}
      (prior : Steps machine start trace taken.before) (valid : machine.Takes taken) :
      Steps machine start (trace ++ [taken]) taken.after

/-- Run a list of operations up to the first one the machine does not admit. -/
def play (machine : Machine State Op Answer) (start : State) :
    List Op → List (Transition State Op Answer) × State
  | [] => ([], start)
  | op :: rest =>
      match machine.exec start op with
      | none => ([], start)
      | some (answer, next) =>
          let later := machine.play next rest
          (⟨start, op, answer, next⟩ :: later.1, later.2)

namespace Steps

variable {start finish : State} {trace : List (Transition State Op Answer)}

/-- A first transition followed by a run is a run. -/
theorem cons {taken : Transition State Op Answer} (valid : machine.Takes taken)
    (steps : machine.Steps taken.after trace finish) :
    machine.Steps taken.before (taken :: trace) finish := by
  induction steps with
  | refl => simpa using Steps.step .refl valid
  | step _ next ih => exact step ih next

/-- Go on after a run. -/
theorem append {front back : List (Transition State Op Answer)} {middle : State}
    (first : machine.Steps start front middle) (second : machine.Steps middle back finish) :
    machine.Steps start (front ++ back) finish := by
  induction second with
  | refl => simpa using first
  | step _ valid ih =>
      rw [← List.append_assoc]
      exact step ih valid

/-- What is played is a run. -/
theorem of_play (machine : Machine State Op Answer) (start : State) (ops : List Op) :
    machine.Steps start (machine.play start ops).1 (machine.play start ops).2 := by
  induction ops generalizing start with
  | nil => exact .refl
  | cons op rest ih =>
      unfold play
      split
      · exact .refl
      · rename_i answer next moved
        have valid : machine.Takes ⟨start, op, answer, next⟩ := moved
        exact cons valid (ih next)

/-- A played run takes only the operations it was given. -/
theorem op_mem_of_play {ops : List Op} {taken : Transition State Op Answer}
    (member : taken ∈ (machine.play start ops).1) : taken.op ∈ ops := by
  induction ops generalizing start with
  | nil => simp [play] at member
  | cons op rest ih =>
      unfold play at member
      split at member
      · simp at member
      · rcases List.mem_cons.mp member with rfl | later
        · exact List.mem_cons_self
        · exact List.mem_cons_of_mem op (ih later)

/-- An invariant kept by every allowed transition holds at every state of a run of
allowed transitions. -/
theorem preserves (Inv : State → Prop) (Allowed : Transition State Op Answer → Prop)
    (preserved : ∀ taken, machine.Takes taken → Allowed taken → Inv taken.before → Inv taken.after)
    (steps : machine.Steps start trace finish) (allowed : ∀ taken ∈ trace, Allowed taken)
    (initially : Inv start) :
    Inv finish ∧ ∀ taken ∈ trace, Inv taken.before ∧ Inv taken.after := by
  induction steps with
  | refl => exact ⟨initially, by simp⟩
  | @step trace taken prior valid ih =>
      obtain ⟨here, earlier⟩ := ih fun other member => allowed other (List.mem_append_left _ member)
      have next : Inv taken.after := preserved taken valid (allowed taken (by simp)) here
      refine ⟨next, fun other member => ?_⟩
      rcases List.mem_append.mp member with old | new
      · exact earlier other old
      · obtain rfl := List.mem_singleton.mp new
        exact ⟨here, next⟩

/-- The same rule for an invariant that speaks about the transitions taken so
far. -/
theorem preserves_history (Inv : List (Transition State Op Answer) → State → Prop)
    (Allowed : Transition State Op Answer → Prop)
    (preserved : ∀ history taken, machine.Takes taken → Allowed taken →
      Inv history taken.before → Inv (history ++ [taken]) taken.after)
    (steps : machine.Steps start trace finish) (allowed : ∀ taken ∈ trace, Allowed taken)
    (initially : Inv [] start) : Inv trace finish := by
  induction steps with
  | refl => exact initially
  | @step trace taken prior valid ih =>
      exact preserved trace taken valid (allowed taken (by simp))
        (ih fun other member => allowed other (List.mem_append_left _ member))

/-- Cut a run at any point of its trace. -/
theorem split {front back : List (Transition State Op Answer)}
    (steps : machine.Steps start (front ++ back) finish) :
    ∃ middle, machine.Steps start front middle ∧ machine.Steps middle back finish := by
  induction back using List.reverseRecOn generalizing finish with
  | nil => exact ⟨finish, by simpa using steps, .refl⟩
  | append_singleton back taken ih =>
      rw [← List.append_assoc] at steps
      generalize whole : front ++ back ++ [taken] = trace at steps
      cases steps with
      | refl => simp at whole
      | step prior valid =>
          obtain ⟨rfl, same⟩ := List.append_inj' whole rfl
          obtain rfl := List.singleton_inj.mp same
          obtain ⟨middle, first, second⟩ := ih prior
          exact ⟨middle, first, second.step valid⟩

/-- A run without transitions stays where it is. -/
theorem eq_of_nil (steps : machine.Steps start [] finish) : finish = start := by
  generalize empty : ([] : List (Transition State Op Answer)) = trace at steps
  cases steps with
  | refl => rfl
  | step _ _ => simp at empty

/-- A run that begins with a transition takes it and goes on from its result. -/
theorem of_cons {taken : Transition State Op Answer}
    (steps : machine.Steps start (taken :: trace) finish) :
    taken.before = start ∧ machine.Takes taken ∧ machine.Steps taken.after trace finish := by
  generalize whole : taken :: trace = all at steps
  induction steps generalizing trace with
  | refl => simp at whole
  | @step earlier last prior valid ih =>
      cases earlier with
      | nil =>
          obtain ⟨rfl, rfl⟩ := List.cons.inj whole
          exact ⟨prior.eq_of_nil, valid, .refl⟩
      | cons first others =>
          obtain ⟨rfl, rfl⟩ := List.cons.inj whole
          obtain ⟨starts, takes, rest⟩ := ih rfl
          exact ⟨starts, takes, rest.step valid⟩

/-- Cut a run at one of its transitions. -/
theorem cut {front back : List (Transition State Op Answer)} {taken : Transition State Op Answer}
    (steps : machine.Steps start (front ++ taken :: back) finish) :
    machine.Steps start front taken.before ∧ machine.Takes taken ∧
      machine.Steps taken.after back finish := by
  obtain ⟨middle, first, second⟩ := steps.split
  obtain ⟨rfl, takes, rest⟩ := second.of_cons
  exact ⟨first, takes, rest⟩

/-- Every transition of a run is one of the machine's. -/
theorem takes_of_mem {taken : Transition State Op Answer}
    (steps : machine.Steps start trace finish) (member : taken ∈ trace) : machine.Takes taken := by
  induction steps with
  | refl => simp at member
  | step _ valid ih =>
      rcases List.mem_append.mp member with old | new
      · exact ih old
      · obtain rfl := List.mem_singleton.mp new
        exact valid

end Steps

end Machine

section Since

variable {Event : Type u} {Begins Ends : Event → Prop} {history : List Event} {event : Event}

/-- Something has begun in a history, and has not ended since. -/
def Since (Begins Ends : Event → Prop) (history : List Event) : Prop :=
  ∃ front event back, history = front ++ event :: back ∧ Begins event ∧ ∀ later ∈ back, ¬ Ends later

/-- Nothing has begun before the first step. -/
theorem not_since_nil : ¬ Since Begins Ends [] := by
  rintro ⟨front, event, back, split, _⟩
  simp at split

/-- What one more event means for it. -/
theorem since_concat : Since Begins Ends (history ++ [event]) ↔
    Begins event ∨ (Since Begins Ends history ∧ ¬ Ends event) := by
  constructor
  · rintro ⟨front, first, back, split, begun, lasts⟩
    rcases List.eq_nil_or_concat back with rfl | ⟨back, last, rfl⟩
    · obtain ⟨-, same⟩ := List.append_inj' split rfl
      rw [List.singleton_inj.mp same]
      exact Or.inl begun
    · rw [List.concat_eq_append, ← List.cons_append, ← List.append_assoc] at split
      obtain ⟨same, isLast⟩ := List.append_inj' split rfl
      obtain rfl := List.singleton_inj.mp isLast
      rw [List.concat_eq_append] at lasts
      refine Or.inr ⟨⟨front, first, back, same, begun, fun later member => ?_⟩, ?_⟩
      · exact lasts later (List.mem_append_left _ member)
      · exact lasts event (List.mem_append_right _ (List.mem_singleton.mpr rfl))
  · rintro (begun | ⟨⟨front, first, back, rfl, begun, lasts⟩, stays⟩)
    · refine ⟨history, event, [], rfl, begun, fun later member => ?_⟩
      exact absurd member List.not_mem_nil
    · refine ⟨front, first, back ++ [event], by simp, begun, fun later member => ?_⟩
      rcases List.mem_append.mp member with old | isLast
      · exact lasts later old
      · rw [List.mem_singleton.mp isLast]
        exact stays

/-- What has begun and does not last has ended. -/
theorem exists_ends_of_not_since {front back : List Event} (begun : Begins event)
    (ended : ¬ Since Begins Ends (front ++ event :: back)) : ∃ later ∈ back, Ends later := by
  by_contra lasts
  exact ended ⟨front, event, back, rfl, begun, fun later member ends => lasts ⟨later, member, ends⟩⟩

end Since

end Ciruela.Foundation
