/-
This file is a library of postconditions for computations that may stop early. A
computation in `Except Stop` either returns a value or stops; `Holds` states a
postcondition for each of the two ends, with the usual rules: consequence, sequencing, and
a rule for loops with an invariant and a measure. A loop carries a bound on its turns; the
loop rule shows that the bound is never what ends it. The turns a loop takes are listed by
the states they begin in, which may be put in an order or counted.

The library names nothing of the program it is used for.
-/

import Mathlib.Tactic

namespace Outcome

variable {Stop Value Next State : Type}

@[simp] theorem ok_bind (value : Value) (next : Value → Except Stop Next) :
    (Except.ok value >>= next) = next value := rfl

@[simp] theorem error_bind (stop : Stop) (next : Value → Except Stop Next) :
    (Except.error stop >>= next) = .error stop := rfl

theorem pure_eq (value : Value) : (pure value : Except Stop Value) = .ok value := rfl

@[simp] theorem throw_bind (stop : Stop) (next : Value → Except Stop Next) :
    ((throw stop : Except Stop Value) >>= next) = .error stop := rfl

/-- A sequence that returns comes from two computations that return. -/
theorem bind_eq_ok {first : Except Stop Value} {second : Value → Except Stop Next} {result : Next} :
    (first >>= second) = .ok result ↔ ∃ value, first = .ok value ∧ second value = .ok result := by
  cases first with
  | ok value => simp
  | error stop => simp

/-! ### Postconditions of a computation that may stop -/

/-- `Holds returns stops run`: a run that returns a value returns one with `returns`, and a
run that stops early stops with `stops`. -/
def Holds (returns : Value → Prop) (stops : Stop → Prop) : Except Stop Value → Prop
  | .ok value => returns value
  | .error stop => stops stop

variable {returns returns' : Value → Prop} {stops stops' : Stop → Prop}

@[simp] theorem holds_ok (value : Value) :
    Holds returns stops (.ok value) ↔ returns value := Iff.rfl

@[simp] theorem holds_error (stop : Stop) :
    Holds returns stops (.error stop) ↔ stops stop := Iff.rfl

@[simp] theorem holds_pure (value : Value) :
    Holds returns stops (pure value) ↔ returns value := Iff.rfl

@[simp] theorem holds_throw (stop : Stop) :
    Holds returns stops (throw stop) ↔ stops stop := Iff.rfl

/-- Sequencing: the second computation has to meet the postcondition from every value the
first may return, and the first may stop only as the whole may. -/
@[simp] theorem holds_bind {after : Next → Prop} (first : Except Stop Value)
    (second : Value → Except Stop Next) :
    Holds after stops (first >>= second) ↔
      Holds (fun value => Holds after stops (second value)) stops first := by
  cases first <;> rfl

/-- The rule of consequence. -/
theorem Holds.mono {run : Except Stop Value} (holds : Holds returns stops run)
    (weaker : ∀ value, returns value → returns' value)
    (weakerStop : ∀ stop, stops stop → stops' stop) : Holds returns' stops' run := by
  cases run with
  | ok value => exact weaker value holds
  | error stop => exact weakerStop stop holds

/-- A computation that returns meets its postcondition at the value it returns. -/
theorem Holds.of_ok {run : Except Stop Value} {value : Value}
    (holds : Holds returns stops run) (returned : run = .ok value) : returns value := by
  rw [returned] at holds
  exact holds

theorem Holds.of_error {run : Except Stop Value} {stop : Stop}
    (holds : Holds returns stops run) (stopped : run = .error stop) : stops stop := by
  rw [stopped] at holds
  exact holds

/-- A computation that never stops early returns a value. -/
theorem Holds.exists_ok {run : Except Stop Value} (holds : Holds returns (fun _ => False) run) :
    ∃ value, run = .ok value ∧ returns value := by
  cases run with
  | ok value => exact ⟨value, rfl, holds⟩
  | error stop => exact absurd holds id

/-! ### Bounded loops -/

/-- What one turn of a loop does next: go round again, or leave with a value. -/
inductive Turn (State Value : Type) where
  | again (state : State)
  | leave (value : Value)

/-- `for (;;) body`, for at most `fuel` turns: a loop that has not left after them stops with
`stuck`. -/
def repeatLoop (stuck : Stop) (body : State → Except Stop (Turn State Value)) :
    Nat → State → Except Stop Value
  | 0, _ => throw stuck
  | fuel + 1, state => do
    match ← body state with
    | .again next => repeatLoop stuck body fuel next
    | .leave value => pure value

/-- One turn of `while (condition) body`. -/
def whileTurn (condition : State → Bool) (body : State → Except Stop State) (state : State) :
    Except Stop (Turn State State) :=
  if condition state then do
    let next ← body state
    pure (.again next)
  else pure (.leave state)

/-- `while (condition) body`, for at most `fuel` turns. -/
def whileLoop (stuck : Stop) (condition : State → Bool) (body : State → Except Stop State) :
    Nat → State → Except Stop State :=
  repeatLoop stuck (whileTurn condition body)

/-- The states in which `while (condition) body` enters its body, in order. -/
def whileHeads (condition : State → Bool) (body : State → Except Stop State) :
    Nat → State → List State
  | 0, _ => []
  | fuel + 1, state =>
    if condition state then
      state :: match body state with
        | .ok next => whileHeads condition body fuel next
        | .error _ => []
    else []

variable {stuck : Stop} {condition : State → Bool} {body : State → Except Stop State}

theorem whileLoop_next (fuel : Nat) {state : State} (running : condition state = true) :
    whileLoop stuck condition body (fuel + 1) state =
      body state >>= whileLoop stuck condition body fuel := by
  simp only [whileLoop, repeatLoop, whileTurn, running, if_true]
  cases body state <;> rfl

theorem repeatLoop_again {turn : State → Except Stop (Turn State Value)} (fuel : Nat)
    {state next : State} (turned : turn state = .ok (.again next)) :
    repeatLoop stuck turn (fuel + 1) state = repeatLoop stuck turn fuel next := by
  rw [repeatLoop, turned]
  rfl

theorem repeatLoop_leave {turn : State → Except Stop (Turn State Value)} (fuel : Nat)
    {state : State} {value : Value} (turned : turn state = .ok (.leave value)) :
    repeatLoop stuck turn (fuel + 1) state = .ok value := by
  rw [repeatLoop, turned]
  rfl

/-- The loop rule. An invariant with a variant, which the body keeps while the variant
decreases, leads to the postcondition when the loop leaves; within a bound above the variant
the loop stops early only where the body does. -/
theorem repeatLoop_holds {turn : State → Except Stop (Turn State Value)}
    (invariant : Nat → State → Prop)
    (step : ∀ variant state, invariant variant state →
      Holds (fun next => match next with
        | .again next => ∃ smaller < variant, invariant smaller next
        | .leave value => returns value) stops (turn state)) :
    ∀ (fuel variant : Nat) (state : State), invariant variant state → variant < fuel →
      Holds returns stops (repeatLoop stuck turn fuel state) := by
  intro fuel
  induction fuel with
  | zero => intro variant state _ bound; exact absurd bound (Nat.not_lt_zero _)
  | succ fuel inductionHypothesis =>
    intro variant state holds bound
    rw [repeatLoop, holds_bind]
    refine (step variant state holds).mono (fun next kept => ?_) (fun _ stopped => stopped)
    cases next with
    | again next =>
      obtain ⟨smaller, decreased, kept⟩ := kept
      exact inductionHypothesis smaller next kept (by omega)
    | leave value => exact kept

/-- What every turn of a loop that returns keeps, holds of what the loop returns. -/
theorem repeatLoop_keeps {turn : State → Except Stop (Turn State Value)}
    (property : State → Prop) (leaves : Value → Prop)
    (step : ∀ state next, property state → turn state = .ok next →
      match next with
      | .again next => property next
      | .leave value => leaves value) :
    ∀ (fuel : Nat) (state : State) (value : Value), property state →
      repeatLoop stuck turn fuel state = .ok value → leaves value := by
  intro fuel
  induction fuel with
  | zero => intro state value _ ran; cases ran
  | succ fuel inductionHypothesis =>
    intro state value holds ran
    obtain ⟨next, turned, rest⟩ := bind_eq_ok.mp ran
    have kept := step state next holds turned
    cases next with
    | again next => exact inductionHypothesis next value kept rest
    | leave result =>
      cases rest
      exact kept

/-- A run with a larger bound: where a run is not cut off with `stuck`, the longer run ends in
the same way. -/
def Extends (stuck : Stop) (run longer : Except Stop Value) : Prop :=
  run = .error stuck ∨ longer = run

theorem Extends.refl (run : Except Stop Value) : Extends stuck run run := .inr rfl

theorem Extends.of_ok {run longer : Except Stop Value} {value : Value}
    (extended : Extends stuck run longer) (returned : run = .ok value) : longer = .ok value := by
  rcases extended with cut | same
  · cases cut.symm.trans returned
  · exact same.trans returned

theorem Extends.bind {first longer : Except Stop Value} {second second' : Value → Except Stop Next}
    (extended : Extends stuck first longer)
    (rest : ∀ value, Extends stuck (second value) (second' value)) :
    Extends stuck (first >>= second) (longer >>= second') := by
  rcases extended with cut | same
  · exact .inl (by rw [cut, error_bind])
  · subst same
    cases longer with
    | ok value => exact rest value
    | error stop => exact .inr rfl

theorem repeatLoop_extends (turn : State → Except Stop (Turn State Value)) :
    ∀ {fuel more : Nat} (state : State), fuel ≤ more →
      Extends stuck (repeatLoop stuck turn fuel state) (repeatLoop stuck turn more state) := by
  intro fuel
  induction fuel with
  | zero => exact fun _ _ => .inl rfl
  | succ fuel inductionHypothesis =>
    intro more state larger
    obtain ⟨more, rfl⟩ : ∃ rest, more = rest + 1 := ⟨more - 1, by omega⟩
    rw [repeatLoop, repeatLoop]
    refine (Extends.refl (turn state)).bind fun next => ?_
    cases next with
    | again next => exact inductionHypothesis next (Nat.le_of_succ_le_succ larger)
    | leave value => exact .refl _

/-- The loop rule for `while`: the postcondition has to follow from the invariant where the
condition is false. -/
theorem whileLoop_holds {leaves : State → Prop} (invariant : State → Prop)
    (measure : State → Nat)
    (done : ∀ state, invariant state → condition state = false → leaves state)
    (step : ∀ state, invariant state → condition state = true →
      Holds (fun next => invariant next ∧ measure next < measure state) stops (body state))
    (fuel : Nat) (state : State) (holds : invariant state) (bound : measure state < fuel) :
    Holds leaves stops (whileLoop stuck condition body fuel state) := by
  refine repeatLoop_holds (fun variant state => invariant state ∧ measure state = variant)
    ?_ fuel (measure state) state ⟨holds, rfl⟩ bound
  rintro variant state ⟨holds, rfl⟩
  unfold whileTurn
  split
  · rename_i running
    rw [holds_bind]
    exact (step state holds running).mono
      (fun next kept => ⟨measure next, kept.2, kept.1, rfl⟩) (fun _ stopped => stopped)
  · rename_i ended
    exact done state holds (by simpa using ended)

/-! ### The turns of a loop -/

/-- The states in which the turns of `for (;;) body` begin, in order. -/
def repeatHeads (turn : State → Except Stop (Turn State Value)) : Nat → State → List State
  | 0, _ => []
  | fuel + 1, state =>
    state :: match turn state with
      | .ok (.again next) => repeatHeads turn fuel next
      | _ => []

section

variable {turn : State → Except Stop (Turn State Value)}

theorem repeatHeads_again (fuel : Nat) {state next : State}
    (turned : turn state = .ok (.again next)) :
    repeatHeads turn (fuel + 1) state = state :: repeatHeads turn fuel next := by
  rw [repeatHeads, turned]

/-- A loop that leaves takes the same turns within a larger bound. -/
theorem repeatHeads_of_ok {fuel more : Nat} {state : State} {value : Value}
    (ran : repeatLoop stuck turn fuel state = .ok value) (larger : fuel ≤ more) :
    repeatHeads turn more state = repeatHeads turn fuel state := by
  induction fuel generalizing more state with
  | zero => cases ran
  | succ fuel inductionHypothesis =>
    obtain ⟨more, rfl⟩ : ∃ rest, more = rest + 1 := ⟨more - 1, by omega⟩
    obtain ⟨result, turned, rest⟩ := bind_eq_ok.mp ran
    cases result with
    | again next =>
      rw [repeatHeads_again _ turned, repeatHeads_again _ turned,
        inductionHypothesis rest (Nat.le_of_succ_le_succ larger)]
    | leave value => rw [repeatHeads, repeatHeads, turned]

/-- A turn of a loop is its last one, or another one follows. -/
theorem repeatHeads_cases (fuel : Nat) (state : State) :
    repeatHeads turn (fuel + 1) state = [state] ∨ ∃ next, turn state = .ok (.again next) ∧
      repeatHeads turn (fuel + 1) state = state :: repeatHeads turn fuel next := by
  cases turned : turn state with
  | error stop =>
    left
    rw [repeatHeads, turned]
  | ok result =>
    cases result with
    | again next => exact .inr ⟨next, rfl, repeatHeads_again fuel turned⟩
    | leave value =>
      left
      rw [repeatHeads, turned]

/-- What every turn keeps holds in every state in which a turn begins. -/
theorem repeatHeads_keeps {property : State → Prop}
    (step : ∀ state next, property state → turn state = .ok (.again next) → property next)
    (fuel : Nat) {state : State} (holds : property state) :
    ∀ head ∈ repeatHeads turn fuel state, property head := by
  induction fuel generalizing state with
  | zero => exact fun head member => nomatch member
  | succ fuel inductionHypothesis =>
    intro head member
    rcases @repeatHeads_cases _ _ _ turn fuel state with last | ⟨next, turned, heads⟩
    · rw [last, List.mem_singleton] at member
      exact member ▸ holds
    · rw [heads, List.mem_cons] at member
      rcases member with rfl | member
      · exact holds
      · exact inductionHypothesis (step state next holds turned) head member

/-- Where every turn goes forward in an order, the states in which the turns begin are in this
order. -/
theorem repeatHeads_pairwise {property : State → Prop} {before : State → State → Prop}
    (trans : ∀ first second third, before first second → before second third → before first third)
    (step : ∀ state next, property state → turn state = .ok (.again next) →
      property next ∧ before state next)
    (fuel : Nat) {state : State} (holds : property state) :
    (repeatHeads turn fuel state).Pairwise before := by
  induction fuel generalizing state with
  | zero => exact .nil
  | succ fuel inductionHypothesis =>
    rcases @repeatHeads_cases _ _ _ turn fuel state with last | ⟨next, turned, heads⟩
    · rw [last]
      exact List.pairwise_singleton _ _
    · obtain ⟨kept, forward⟩ := step state next holds turned
      rw [heads, List.pairwise_cons]
      refine ⟨fun head member => ?_, inductionHypothesis kept⟩
      -- All that comes behind the next state has come forward from there.
      refine @repeatHeads_keeps _ _ _ turn (fun head => property head ∧ before state head)
        (fun other next' both turned => ?_) fuel next ⟨kept, forward⟩ head member |>.2
      obtain ⟨kept, forward'⟩ := step other next' both.1 turned
      exact ⟨kept, trans _ _ _ both.2 forward'⟩

/-- A loop has no more turns of a kind than there is room for them, where every one of them takes
some of the room. -/
theorem countP_repeatHeads_le {property : State → Prop} (kind : State → Bool) (room : State → Nat)
    (some_room : ∀ state, property state → kind state = true → 0 < room state)
    (step : ∀ state next, property state → turn state = .ok (.again next) →
      property next ∧ room next + (if kind state then 1 else 0) ≤ room state)
    (fuel : Nat) {state : State} (holds : property state) :
    (repeatHeads turn fuel state).countP kind ≤ room state := by
  induction fuel generalizing state with
  | zero => exact Nat.zero_le _
  | succ fuel inductionHypothesis =>
    rcases @repeatHeads_cases _ _ _ turn fuel state with last | ⟨next, turned, heads⟩
    · rw [last, List.countP_singleton]
      split
      · exact some_room state holds ‹_›
      · exact Nat.zero_le _
    · obtain ⟨kept, less⟩ := step state next holds turned
      rw [heads, List.countP_cons]
      exact (Nat.add_le_add_right (inductionHypothesis kept) _).trans less

end

end Outcome
