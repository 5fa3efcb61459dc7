/-
This file is a library of the runs of a system of steps. A run starts in a state and keeps
the labels of its steps, the latest first. What holds at the start and is preserved by every
step holds in every state a run reaches; the steps may be restricted by a condition on the
state before them and their label.

The library names nothing of the program it is used for.
-/

import Mathlib.Tactic

namespace Runs

variable {State Label : Type}

/-- The runs from a state, with the labels of their steps. -/
inductive Run (step : State → Label → State → Prop) (start : State) :
    List Label → State → Prop
  | nil : Run step start [] start
  | cons {labels : List Label} {before after : State} {label : Label}
      (run : Run step start labels before) (next : step before label after) :
      Run step start (label :: labels) after

/-- The steps that meet a condition. -/
def Restrict (step : State → Label → State → Prop) (allowed : State → Label → Prop) :
    State → Label → State → Prop :=
  fun before label after => allowed before label ∧ step before label after

variable {step : State → Label → State → Prop} {start : State}

/-- What holds at the start and is preserved by every step holds of every run. -/
theorem Run.invariant (property : List Label → State → Prop) (base : property [] start)
    (preserved : ∀ labels before label after, property labels before →
      step before label after → property (label :: labels) after)
    {labels : List Label} {state : State} (run : Run step start labels state) :
    property labels state := by
  induction run with
  | nil => exact base
  | cons _ next inductionHypothesis => exact preserved _ _ _ _ inductionHypothesis next

/-- What holds at the start and is preserved by every step holds in every state reached. -/
theorem Run.preserves {property : State → Prop} (base : property start)
    (preserved : ∀ before label after, property before → step before label after →
      property after)
    {labels : List Label} {state : State} (run : Run step start labels state) :
    property state := by
  induction run with
  | nil => exact base
  | cons _ next inductionHypothesis => exact preserved _ _ _ inductionHypothesis next

/-- Two runs one after the other. -/
theorem Run.append {first second : List Label} {middle state : State}
    (run : Run step start first middle) (more : Run step middle second state) :
    Run step start (second ++ first) state := by
  induction more with
  | nil => exact run
  | cons _ next inductionHypothesis => exact inductionHypothesis.cons next

/-- A run of restricted steps is a run. -/
theorem Run.unrestrict {allowed : State → Label → Prop} {labels : List Label} {state : State}
    (run : Run (Restrict step allowed) start labels state) : Run step start labels state := by
  induction run with
  | nil => exact .nil
  | cons _ next inductionHypothesis => exact .cons inductionHypothesis next.2

/-- The rule of simulation. Where every step from a state that is related to one reached by the
other system reads as a step of that, every run reads as a run of it. -/
theorem Run.simulates {State' Label' : Type} {step' : State' → Label' → State' → Prop}
    {start' : State'} (related : State → State' → Prop) (reads : Label → Label' → Prop)
    (base : related start start')
    (simulated : ∀ labels' before before' label after, Run step' start' labels' before' →
      related before before' → step before label after →
        ∃ label' after', reads label label' ∧ step' before' label' after' ∧ related after after')
    {labels : List Label} {state : State} (run : Run step start labels state) :
    ∃ labels' state', Run step' start' labels' state' ∧ List.Forall₂ reads labels labels' ∧
      related state state' := by
  induction run with
  | nil => exact ⟨[], start', .nil, .nil, base⟩
  | cons _ next inductionHypothesis =>
    obtain ⟨labels', before', run', readings, relation⟩ := inductionHypothesis
    obtain ⟨label', after', reading, next', relation'⟩ :=
      simulated _ _ _ _ _ run' relation next
    exact ⟨label' :: labels', after', run'.cons next', readings.cons reading, relation'⟩

end Runs
