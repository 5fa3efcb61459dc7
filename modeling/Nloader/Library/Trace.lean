/-
This file is a library of computations that leave a trace. A computation causes events, one
after the other, and returns a value or stops early; the events it has caused until then
stay. `All` states that every event of a computation has a property, with one rule for each
way to build a computation.

The library names nothing of the program it is used for.
-/

import Mathlib.Tactic

namespace Trace

/-- The events of a computation, and the value it returns or the way it stops. -/
structure Traced (Event Stop Value : Type) where
  events : List Event
  result : Except Stop Value

variable {Event Stop Value Next : Type}

/-- The computation with events in front of it. -/
def Traced.behind (events : List Event) (run : Traced Event Stop Value) :
    Traced Event Stop Value :=
  { events := events ++ run.events, result := run.result }

instance : Monad (Traced Event Stop) where
  pure value := { events := [], result := .ok value }
  bind first next :=
    match first.result with
    | .ok value => (next value).behind first.events
    | .error stop => { events := first.events, result := .error stop }

/-- One event. -/
def emit (event : Event) : Traced Event Stop Unit :=
  { events := [event], result := .ok () }

/-- The early end of a computation. -/
def stop (reason : Stop) : Traced Event Stop Value :=
  { events := [], result := .error reason }

/-! ### Equations -/

theorem bind_of_ok {first : Traced Event Stop Value} {value : Value}
    (returned : first.result = .ok value) (next : Value → Traced Event Stop Next) :
    (first >>= next) = (next value).behind first.events := by
  change (match first.result with
    | .ok value => (next value).behind first.events
    | .error stop => { events := first.events, result := .error stop }) = _
  rw [returned]

theorem bind_of_error {first : Traced Event Stop Value} {reason : Stop}
    (stopped : first.result = .error reason) (next : Value → Traced Event Stop Next) :
    (first >>= next) = { events := first.events, result := .error reason } := by
  change (match first.result with
    | .ok value => (next value).behind first.events
    | .error stop => { events := first.events, result := .error stop }) = _
  rw [stopped]

theorem pure_bind (value : Value) (next : Value → Traced Event Stop Next) :
    ((pure value : Traced Event Stop Value) >>= next) = next value :=
  bind_of_ok rfl next

theorem stop_bind (reason : Stop) (next : Value → Traced Event Stop Next) :
    ((stop reason : Traced Event Stop Value) >>= next) = stop reason :=
  bind_of_error rfl next

theorem emit_bind (event : Event) (next : Unit → Traced Event Stop Next) :
    (emit event >>= next) = (next ()).behind [event] :=
  bind_of_ok rfl next

theorem behind_behind (first second : List Event) (run : Traced Event Stop Value) :
    (run.behind second).behind first = run.behind (first ++ second) := by
  unfold Traced.behind
  rw [List.append_assoc]

theorem bind_assoc {Last : Type} (first : Traced Event Stop Value)
    (second : Value → Traced Event Stop Next) (third : Next → Traced Event Stop Last) :
    (first >>= second) >>= third = first >>= fun value => second value >>= third := by
  cases returned : first.result with
  | ok value =>
    rw [bind_of_ok returned, bind_of_ok returned]
    cases next : (second value).result with
    | ok between =>
      have behind : ((second value).behind first.events).result = .ok between := next
      rw [bind_of_ok next, bind_of_ok behind, behind_behind]
      rfl
    | error reason =>
      have behind : ((second value).behind first.events).result = .error reason := next
      rw [bind_of_error next, bind_of_error behind]
      rfl
  | error reason =>
    rw [bind_of_error returned, bind_of_error returned]
    exact bind_of_error rfl third

/-! ### Properties of every event -/

/-- Every event of the computation has the property. -/
def All (property : Event → Prop) (run : Traced Event Stop Value) : Prop :=
  ∀ event ∈ run.events, property event

variable {property : Event → Prop}

@[simp] theorem all_pure (value : Value) :
    All property (pure value : Traced Event Stop Value) :=
  fun _ member => by cases member

@[simp] theorem all_stop (reason : Stop) :
    All property (stop reason : Traced Event Stop Value) :=
  fun _ member => by cases member

@[simp] theorem all_emit (event : Event) :
    All property (emit event : Traced Event Stop Unit) ↔ property event :=
  List.forall_mem_singleton

@[simp] theorem all_behind (events : List Event) (run : Traced Event Stop Value) :
    All property (run.behind events) ↔ (∀ event ∈ events, property event) ∧ All property run :=
  List.forall_mem_append

/-- Sequencing: the events of the first computation, and those of the second from the value
that the first returns. -/
theorem all_bind (first : Traced Event Stop Value) (next : Value → Traced Event Stop Next) :
    All property (first >>= next) ↔
      All property first ∧ ∀ value, first.result = .ok value → All property (next value) := by
  cases returned : first.result with
  | ok value =>
    rw [bind_of_ok returned, all_behind]
    refine and_congr_right fun _ => ⟨?_, fun every => every value rfl⟩
    rintro every other same
    cases same
    exact every
  | error reason =>
    rw [bind_of_error returned]
    exact (and_iff_left nofun).symm

/-- What follows cannot undo that every event has the property. -/
theorem All.bind {first : Traced Event Stop Value} {next : Value → Traced Event Stop Next}
    (every : All property first) (others : ∀ value, All property (next value)) :
    All property (first >>= next) :=
  (all_bind first next).mpr ⟨every, fun value _ => others value⟩

/-- The value of a sequence of computations comes from a value of the first. -/
theorem bind_result_ok {first : Traced Event Stop Value}
    {next : Value → Traced Event Stop Next} {value : Next}
    (returned : (first >>= next).result = .ok value) :
    ∃ between, first.result = .ok between ∧ (next between).result = .ok value := by
  cases middle : first.result with
  | ok between =>
    rw [bind_of_ok middle] at returned
    exact ⟨between, rfl, returned⟩
  | error reason =>
    rw [bind_of_error middle] at returned
    cases returned

end Trace
