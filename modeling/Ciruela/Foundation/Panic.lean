import Mathlib.Data.List.Basic

/-!
# Code that can panic

A failing assertion, a failing `expect`, a slice out of range, an arithmetic
overflow and code that is held to be out of reach all end the closure they happen in.
`Run` is a computation that ends in a value or in one of them.
-/

namespace Ciruela.Foundation

/-- What a panic says. -/
inductive Panic where
  | assertion (condition : String)
  | expect (message : String)
  | slice (message : String)
  | overflow (message : String)
  /-- `unreachable!`. -/
  | unreachable
deriving DecidableEq, Repr

/-- A computation that may panic. -/
abbrev Run (Value : Type) := Except Panic Value

namespace Run

variable {Value Next : Type}

/-- `assert!`. -/
def assert (condition : Bool) (text : String) : Run Unit :=
  if condition then .ok () else .error (.assertion text)

/-- `Option::expect`. -/
def expect (value : Option Value) (message : String) : Run Value :=
  match value with
  | some found => .ok found
  | none => .error (.expect message)

/-- The first `count` characters of a text, which must be there. -/
def slicePrefix (text : List Char) (count : Nat) : Run (List Char) :=
  if count ≤ text.length then .ok (text.take count)
  else .error (.slice "byte index is out of bounds")

/-- The computation reaches a value. -/
def Returns (run : Run Value) : Prop := ∃ value, run = .ok value

instance (run : Run Value) : Decidable run.Returns :=
  match run with
  | .ok value => isTrue ⟨value, rfl⟩
  | .error panic => isFalse fun ⟨_, impossible⟩ => by cases impossible

@[simp] theorem returns_ok (value : Value) : Returns (.ok value) := ⟨value, rfl⟩

@[simp] theorem returns_pure (value : Value) : Returns (pure value) := ⟨value, rfl⟩

@[simp] theorem not_returns_error (panic : Panic) : ¬ Returns (.error panic : Run Value) :=
  fun ⟨_, impossible⟩ => by cases impossible

/-- The panic a computation ends in. -/
def panic : Run Value → Option Panic
  | .ok _ => none
  | .error panic => some panic

theorem panic_eq_some_iff {run : Run Value} {panic : Panic} :
    run.panic = some panic ↔ run = .error panic := by
  cases run <;> simp [Run.panic]

theorem ok_of_toOption {run : Run Value} {value : Value} (returned : run.toOption = some value) :
    run = .ok value := by
  cases run with
  | ok found => exact congrArg Except.ok (Option.some.inj returned)
  | error panic => simp [Except.toOption] at returned

/-- Two computations in a row return when both do. -/
theorem bind_eq_ok_iff {run : Run Value} {rest : Value → Run Next} {result : Next} :
    run >>= rest = .ok result ↔ ∃ value, run = .ok value ∧ rest value = .ok result := by
  cases run with
  | ok value => simp [bind, Except.bind]
  | error panic => simp [bind, Except.bind]

/-- Two computations in a row panic when the first does, or the second does on what the first
gives. -/
theorem bind_eq_error_iff {run : Run Value} {rest : Value → Run Next} {panic : Panic} :
    run >>= rest = .error panic ↔
      run = .error panic ∨ ∃ value, run = .ok value ∧ rest value = .error panic := by
  cases run with
  | ok value => simp [bind, Except.bind]
  | error panic => simp [bind, Except.bind]

/-- A sequence reaches a value when its first part does and the rest does from
there. -/
theorem returns_bind {run : Run Value} {rest : Value → Run Next} :
    Returns (run >>= rest) ↔ ∃ value, run = .ok value ∧ Returns (rest value) := by
  cases run with
  | ok value => simp [bind, Except.bind]
  | error panic => simp [bind, Except.bind]

/-- A sequence reaches a good value when its first part reaches one that is good to go on from. -/
theorem exists_bind {run : Run Value} {rest : Value → Run Next} {Good : Value → Prop}
    {Best : Next → Prop} (first : ∃ value, run = .ok value ∧ Good value)
    (second : ∀ value, Good value → ∃ result, rest value = .ok result ∧ Best result) :
    ∃ result, run >>= rest = .ok result ∧ Best result := by
  obtain ⟨value, rfl, good⟩ := first
  exact second value good

@[simp] theorem ok_bind (value : Value) (rest : Value → Run Next) :
    (Except.ok value : Run Value) >>= rest = rest value := rfl

@[simp] theorem error_bind (panic : Panic) (rest : Value → Run Next) :
    (Except.error panic : Run Value) >>= rest = .error panic := rfl

/-- An assertion returns when its condition holds. -/
theorem assert_eq_ok_iff {condition : Bool} {text : String} {result : Unit} :
    assert condition text = .ok result ↔ condition = true := by
  unfold assert
  split <;> simp_all

/-- `expect` returns what is there. -/
theorem expect_eq_ok_iff {value : Option Value} {message : String} {result : Value} :
    expect value message = .ok result ↔ value = some result := by
  cases value <;> simp [expect]

/-- A loop reaches a value when each of its rounds does and keeps what the next one needs. -/
theorem exists_foldlM {Item : Type} (Inv : Value → Prop) {step : Value → Item → Run Value}
    {items : List Item} {start : Value} (initially : Inv start)
    (steps : ∀ item ∈ items, ∀ value, Inv value → ∃ next, step value item = .ok next ∧ Inv next) :
    ∃ result, items.foldlM step start = .ok result ∧ Inv result := by
  induction items generalizing start with
  | nil => exact ⟨start, rfl, initially⟩
  | cons item rest ih =>
      obtain ⟨next, stepped, holds⟩ := steps item List.mem_cons_self start initially
      rw [List.foldlM_cons, stepped, ok_bind]
      exact ih holds fun other member => steps other (List.mem_cons_of_mem _ member)

/-- What every round of a loop keeps holds at its end. -/
theorem inv_of_foldlM {Item : Type} (Inv : Value → Prop) {step : Value → Item → Run Value}
    {items : List Item} {start result : Value} (ran : items.foldlM step start = .ok result)
    (initially : Inv start)
    (steps : ∀ item ∈ items, ∀ value next, step value item = .ok next → Inv value → Inv next) :
    Inv result := by
  induction items generalizing start with
  | nil => rwa [← Except.ok.inj ran]
  | cons item rest ih =>
      rw [List.foldlM_cons] at ran
      obtain ⟨next, first, later⟩ := bind_eq_ok_iff.mp ran
      refine ih later (steps item List.mem_cons_self start next first initially) ?_
      exact fun other member => steps other (List.mem_cons_of_mem _ member)

/-- Where a loop panics, a round does that begins with what the rounds before it kept. -/
theorem exists_of_foldlM_eq_error {Item : Type} (Inv : Value → Prop)
    {step : Value → Item → Run Value} {items : List Item} {start : Value} {panic : Panic}
    (panics : items.foldlM step start = .error panic) (initially : Inv start)
    (steps : ∀ item ∈ items, ∀ value next, step value item = .ok next → Inv value → Inv next) :
    ∃ item ∈ items, ∃ value, Inv value ∧ step value item = .error panic := by
  induction items generalizing start with
  | nil => cases panics
  | cons item rest ih =>
      rw [List.foldlM_cons] at panics
      rcases bind_eq_error_iff.mp panics with first | ⟨next, first, later⟩
      · exact ⟨item, List.mem_cons_self, start, initially, first⟩
      · obtain ⟨found, isItem, facts⟩ := ih later
          (steps item List.mem_cons_self start next first initially)
          fun other member => steps other (List.mem_cons_of_mem _ member)
        exact ⟨found, List.mem_cons_of_mem _ isItem, facts⟩

/-- Where a round ends well for some items and no others, whatever came before, so does the
loop. -/
theorem returns_foldlM_iff {Item : Type} {step : Value → Item → Run Value} {Good : Item → Prop}
    (steps : ∀ value item, (step value item).Returns ↔ Good item) {items : List Item}
    {start : Value} : (items.foldlM step start).Returns ↔ ∀ item ∈ items, Good item := by
  induction items generalizing start with
  | nil => simp
  | cons item rest ih =>
      rw [List.foldlM_cons, returns_bind, List.forall_mem_cons, ← steps start item]
      constructor
      · rintro ⟨next, stepped, later⟩
        exact ⟨⟨next, stepped⟩, ih.mp later⟩
      · rintro ⟨⟨next, stepped⟩, later⟩
        exact ⟨next, stepped, ih.mpr later⟩

/-- Where something is made of every item, a loop makes the list of it, seen in whatever way. -/
theorem exists_mapM {Item Out View : Type} {step : Item → Run Out} (view : Out → View)
    (want : Item → View) {items : List Item}
    (steps : ∀ item ∈ items, ∃ out, step item = .ok out ∧ view out = want item) :
    ∃ outs, items.mapM step = .ok outs ∧ outs.map view = items.map want := by
  induction items with
  | nil => exact ⟨[], rfl, rfl⟩
  | cons item rest ih =>
      obtain ⟨out, made, isWanted⟩ := steps item List.mem_cons_self
      obtain ⟨outs, others, areWanted⟩ :=
        ih fun other member => steps other (List.mem_cons_of_mem _ member)
      refine ⟨out :: outs, ?_, by rw [List.map_cons, List.map_cons, isWanted, areWanted]⟩
      rw [List.mapM_cons, made, others]
      rfl

/-- A loop with a state that also makes something of each item. -/
def visit {State Item Out : Type} (step : State → Item → Run (State × Out)) :
    State → List Item → Run (State × List Out)
  | state, [] => .ok (state, [])
  | state, item :: rest => do
      let (next, out) ← step state item
      let (last, outs) ← visit step next rest
      return (last, out :: outs)

/-- A walk over a list that returns has taken its first step and walked over the rest. -/
theorem visit_cons_eq_ok {State Item Out : Type} {step : State → Item → Run (State × Out)}
    {state last : State} {item : Item} {rest : List Item} {outs : List Out}
    (ran : visit step state (item :: rest) = .ok (last, outs)) :
    ∃ next out later, step state item = .ok (next, out) ∧
      visit step next rest = .ok (last, later) ∧ outs = out :: later := by
  obtain ⟨⟨next, out⟩, first, following⟩ := bind_eq_ok_iff.mp ran
  obtain ⟨⟨last', later⟩, visited, result⟩ := bind_eq_ok_iff.mp following
  obtain ⟨rfl, rfl⟩ := Prod.mk.inj (Except.ok.inj result)
  exact ⟨next, out, later, first, visited, rfl⟩

/-- What every round of such a loop keeps of its state holds at its end. -/
theorem inv_of_visit {State Item Out : Type} (Inv : State → Prop)
    {step : State → Item → Run (State × Out)} {state last : State} {items : List Item}
    {outs : List Out} (ran : visit step state items = .ok (last, outs)) (initially : Inv state)
    (steps : ∀ item ∈ items, ∀ before after out, step before item = .ok (after, out) →
      Inv before → Inv after) : Inv last := by
  induction items generalizing state outs with
  | nil =>
      obtain ⟨rfl, rfl⟩ := Prod.mk.inj (Except.ok.inj ran)
      exact initially
  | cons item rest ih =>
      obtain ⟨next, made, later, first, visited, rfl⟩ := visit_cons_eq_ok ran
      refine ih visited (steps item List.mem_cons_self state next made first initially) ?_
      exact fun other member => steps other (List.mem_cons_of_mem _ member)

/-- Everything a loop makes is made of one of its items, in a state that the loop has got to. -/
theorem exists_step_of_mem_visit {State Item Out : Type} (Reaches : State → State → Prop)
    (refl : ∀ state, Reaches state state)
    (trans : ∀ {first second third}, Reaches first second → Reaches second third →
      Reaches first third)
    {step : State → Item → Run (State × Out)}
    (steps : ∀ before item after out, step before item = .ok (after, out) → Reaches before after)
    {state last : State} {items : List Item} {outs : List Out}
    (ran : visit step state items = .ok (last, outs)) :
    Reaches state last ∧ ∀ out ∈ outs, ∃ item ∈ items, ∃ before after,
      Reaches state before ∧ step before item = .ok (after, out) ∧ Reaches after last := by
  induction items generalizing state outs with
  | nil =>
      obtain ⟨rfl, rfl⟩ := Prod.mk.inj (Except.ok.inj ran)
      exact ⟨refl state, by simp⟩
  | cons item rest ih =>
      obtain ⟨next, made, later, first, visited, rfl⟩ := visit_cons_eq_ok ran
      obtain ⟨reaches, all⟩ := ih visited
      have goes := steps state item next made first
      refine ⟨trans goes reaches, fun out member => ?_⟩
      rcases List.mem_cons.mp member with rfl | further
      · exact ⟨item, List.mem_cons_self, state, next, refl state, first, reaches⟩
      · obtain ⟨found, isItem, before, after, reached, stepped, ends⟩ := all out further
        exact ⟨found, List.mem_cons_of_mem _ isItem, before, after, trans goes reached, stepped,
          ends⟩

/-- A loop over items with something beside them does to the items what the loop over them
does. -/
theorem visit_lift {State Item Out Wider Result : Type} (item : Wider → Item) (out : Result → Out)
    {step : State → Item → Run (State × Out)} (lifted : State → Wider → Run (State × Result))
    (lifts : ∀ state wider after made, step state (item wider) = .ok (after, made) →
      ∃ result, lifted state wider = .ok (after, result) ∧ out result = made)
    {state last : State} {items : List Wider} {outs : List Out}
    (ran : visit step state (items.map item) = .ok (last, outs)) :
    ∃ results, visit lifted state items = .ok (last, results) ∧ results.map out = outs := by
  induction items generalizing state outs with
  | nil =>
      obtain ⟨rfl, rfl⟩ := Prod.mk.inj (Except.ok.inj ran)
      exact ⟨[], rfl, rfl⟩
  | cons wider rest ih =>
      obtain ⟨next, made, later, first, visited, rfl⟩ := visit_cons_eq_ok ran
      obtain ⟨result, isLifted, same⟩ := lifts _ _ _ _ first
      obtain ⟨results, others, areLater⟩ := ih visited
      refine ⟨result :: results, ?_, by rw [List.map_cons, same, areLater]⟩
      rw [visit, isLifted, ok_bind]
      dsimp only
      rw [others]
      rfl

/-- Where a loop panics, one of its rounds does. -/
theorem exists_of_visit_eq_error {State Item Out : Type} {step : State → Item → Run (State × Out)}
    {state : State} {items : List Item} {panic : Panic}
    (panics : visit step state items = .error panic) :
    ∃ item ∈ items, ∃ before, step before item = .error panic := by
  induction items generalizing state with
  | nil => cases panics
  | cons item rest ih =>
      rcases bind_eq_error_iff.mp panics with first | ⟨⟨next, out⟩, _, following⟩
      · exact ⟨item, List.mem_cons_self, state, first⟩
      · rcases bind_eq_error_iff.mp following with later | ⟨_, _, returned⟩
        · obtain ⟨found, isItem, facts⟩ := ih later
          exact ⟨found, List.mem_cons_of_mem _ isItem, facts⟩
        · cases returned

/-- Everything a loop makes is made of one of its items. -/
theorem exists_of_mem_visit {State Item Out : Type} {step : State → Item → Run (State × Out)}
    {state last : State} {items : List Item} {outs : List Out}
    (ran : visit step state items = .ok (last, outs)) {out : Out} (member : out ∈ outs) :
    ∃ item ∈ items, ∃ before after, step before item = .ok (after, out) := by
  induction items generalizing state outs with
  | nil =>
      obtain ⟨rfl, rfl⟩ := Prod.mk.inj (Except.ok.inj ran)
      simp at member
  | cons item rest ih =>
      obtain ⟨next, made, later, first, visited, rfl⟩ := visit_cons_eq_ok ran
      rcases List.mem_cons.mp member with rfl | further
      · exact ⟨item, List.mem_cons_self, state, next, first⟩
      · obtain ⟨found, isItem, facts⟩ := ih visited further
        exact ⟨found, List.mem_cons_of_mem _ isItem, facts⟩

end Run

end Ciruela.Foundation
