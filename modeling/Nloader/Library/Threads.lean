/-
This file is a library of threads that share a state. Each thread has a place of its own, which
says what it has still to do; a step is one atomic step of one thread, which may read and change
the shared state and its own place. The runs of such a system are all the orders in which the
steps of its threads can be taken.

The library names nothing of the program it is used for.
-/

import Nloader.Library.Runs

namespace Runs

/-! ### Threads and their steps -/

/-- Threads and the state they share. -/
structure Threads (Thread Shared Place : Type) where
  shared : Shared
  place : Thread → Place

/-- What a step shows: the thread that takes it, which of its possible steps it takes, and what
happens. -/
structure Label (Thread Move Event : Type) where
  thread : Thread
  move : Move
  event : Event

variable {Thread Shared Place Move Event : Type} [DecidableEq Thread]
variable {act : Shared → Place → Move → Option (Event × Shared × Place)}

/-- A step of one of the threads, which all act by one function of the shared state and their
place. -/
def perform (act : Shared → Place → Move → Option (Event × Shared × Place))
    (before : Threads Thread Shared Place) (thread : Thread) (move : Move) :
    Option (Label Thread Move Event × Threads Thread Shared Place) :=
  match act before.shared (before.place thread) move with
  | none => none
  | some (event, shared, place) =>
    some (⟨thread, move, event⟩, ⟨shared, Function.update before.place thread place⟩)

/-- The steps of all threads. -/
def Interleave (act : Shared → Place → Move → Option (Event × Shared × Place))
    (before : Threads Thread Shared Place) (label : Label Thread Move Event)
    (after : Threads Thread Shared Place) : Prop :=
  perform act before label.thread label.move = some (label, after)

/-- A step changes the shared state and the place of its thread as its thread acts. -/
theorem perform_eq_some {before after : Threads Thread Shared Place} {thread : Thread}
    {move : Move} {label : Label Thread Move Event}
    (next : perform act before thread move = some (label, after)) :
    ∃ place, act before.shared (before.place thread) move =
        some (label.event, after.shared, place) ∧
      label = ⟨thread, move, label.event⟩ ∧
        after = ⟨after.shared, Function.update before.place thread place⟩ := by
  rw [perform] at next
  split at next
  · exact nomatch next
  · next event shared place acts =>
    obtain ⟨rfl, rfl⟩ := Prod.mk.inj (Option.some.inj next)
    exact ⟨place, acts, rfl, rfl⟩

/-- A run goes on with a step of a thread. -/
theorem Run.andThen {allowed : Threads Thread Shared Place → Label Thread Move Event → Prop}
    {start before after : Threads Thread Shared Place} {labels : List (Label Thread Move Event)}
    (run : Run (Restrict (Interleave act) allowed) start labels before) (thread : Thread)
    (move : Move) {label : Label Thread Move Event}
    (next : perform act before thread move = some (label, after))
    (holds : allowed before label) :
    Run (Restrict (Interleave act) allowed) start (label :: labels) after := by
  obtain ⟨_, _, label_eq, _⟩ := perform_eq_some next
  refine run.cons ⟨holds, ?_⟩
  rw [label_eq] at next ⊢
  exact next

/-! ### Schedules -/

/-- The steps of a schedule, the latest first, as far as they can be taken. -/
def performAll (act : Shared → Place → Move → Option (Event × Shared × Place))
    (start : Threads Thread Shared Place) :
    List (Thread × Move) → Option (List (Label Thread Move Event) × Threads Thread Shared Place)
  | [] => some ([], start)
  | (thread, move) :: earlier =>
    match performAll act start earlier with
    | none => none
    | some (labels, before) =>
      match perform act before thread move with
      | none => none
      | some (label, after) => some (label :: labels, after)

/-- A schedule whose steps can all be taken, and are all allowed, is a run. -/
theorem run_performAll_restrict
    {allowed : Threads Thread Shared Place → Label Thread Move Event → Prop}
    {start state : Threads Thread Shared Place} {schedule : List (Thread × Move)}
    {labels : List (Label Thread Move Event)}
    (performs : performAll act start schedule = some (labels, state))
    (each : ∀ step ∈ schedule, ∀ before event, allowed before ⟨step.1, step.2, event⟩) :
    Run (Restrict (Interleave act) allowed) start labels state := by
  induction schedule generalizing labels state with
  | nil =>
    obtain ⟨rfl, rfl⟩ := Prod.mk.inj (Option.some.inj performs)
    exact .nil
  | cons step earlier inductionHypothesis =>
    obtain ⟨thread, move⟩ := step
    rw [performAll] at performs
    split at performs
    · exact nomatch performs
    · next before found =>
      split at performs
      · exact nomatch performs
      · next label after next =>
        obtain ⟨rfl, rfl⟩ := Prod.mk.inj (Option.some.inj performs)
        obtain ⟨_, _, label_eq, _⟩ := perform_eq_some next
        refine (inductionHypothesis found fun step mem =>
          each step (List.mem_cons_of_mem _ mem)).andThen thread move next ?_
        rw [label_eq]
        exact each _ List.mem_cons_self _ _

/-- A schedule whose steps can all be taken is a run. -/
theorem run_performAll {start state : Threads Thread Shared Place}
    {schedule : List (Thread × Move)} {labels : List (Label Thread Move Event)}
    (performs : performAll act start schedule = some (labels, state)) :
    Run (Interleave act) start labels state :=
  (run_performAll_restrict performs fun _ _ _ _ => trivial : Run (Restrict (Interleave act)
    fun _ _ => True) start labels state).unrestrict

/-! ### One thread alone -/

/-- Steps of one thread lead from one state to another. -/
def Alone (act : Shared → Place → Move → Option (Event × Shared × Place)) (thread : Thread)
    (before after : Threads Thread Shared Place) : Prop :=
  ∃ labels : List (Label Thread Move Event), Run (Interleave act) before labels after ∧
    ∀ label ∈ labels, label.thread = thread

theorem Alone.trans {thread : Thread} {before middle after : Threads Thread Shared Place}
    (first : Alone act thread before middle) (second : Alone act thread middle after) :
    Alone act thread before after := by
  obtain ⟨firstLabels, firstRun, firstOwn⟩ := first
  obtain ⟨secondLabels, secondRun, secondOwn⟩ := second
  refine ⟨_, firstRun.append secondRun, fun label mem => ?_⟩
  rcases List.mem_append.mp mem with mem | mem
  · exact secondOwn label mem
  · exact firstOwn label mem

/-- One step of the thread. -/
theorem alone_of_act {shared after : Shared} {here next : Place} {move : Move} {event : Event}
    (step : act shared here move = some (event, after, next)) (thread : Thread)
    (place : Thread → Place) :
    Alone act thread ⟨shared, Function.update place thread here⟩
      ⟨after, Function.update place thread next⟩ := by
  refine ⟨[⟨thread, move, event⟩], Run.nil.cons ?_, fun label mem => ?_⟩
  · simp only [Interleave, perform, Function.update_self, step, Function.update_idem]
  · rw [List.mem_singleton.mp mem]

/-! ### Events of a run -/

/-- The events of a run, the latest first. -/
def events (labels : List (Label Thread Move Event)) : List Event := labels.map Label.event

omit [DecidableEq Thread] in
@[simp] theorem events_cons (label : Label Thread Move Event)
    (labels : List (Label Thread Move Event)) :
    events (label :: labels) = label.event :: events labels := rfl

/-! ### Places of all threads -/

/-- What holds of the other threads, and of the place a thread comes to, holds of all of them
after its step. -/
theorem forall_place (property : Thread → Place → Prop) {before : Thread → Place}
    {mover : Thread} {place : Place}
    (others : ∀ thread, thread ≠ mover → property thread (before thread))
    (moved : property mover place) (thread : Thread) :
    property thread (Function.update before mover place thread) := by
  by_cases same : thread = mover
  · rw [same, Function.update_self]
    exact moved
  · rw [Function.update_of_ne same]
    exact others thread same

/-- No two threads hold one token, if no two did and the one that has moved holds none of those
of the others. -/
theorem unique_holder {Token : Type} {holds : Place → Option Token} {before : Thread → Place}
    (unique : ∀ first second token, holds (before first) = some token →
      holds (before second) = some token → first = second)
    {mover : Thread} {place : Place}
    (fresh : ∀ token, holds place = some token → ∀ thread, thread ≠ mover →
      holds (before thread) ≠ some token)
    (first second : Thread) (token : Token)
    (firstHolds : holds (Function.update before mover place first) = some token)
    (secondHolds : holds (Function.update before mover place second) = some token) :
    first = second := by
  by_cases firstMoved : first = mover <;> by_cases secondMoved : second = mover
  · rw [firstMoved, secondMoved]
  · rw [firstMoved, Function.update_self] at firstHolds
    rw [Function.update_of_ne secondMoved] at secondHolds
    exact absurd secondHolds (fresh token firstHolds second secondMoved)
  · rw [secondMoved, Function.update_self] at secondHolds
    rw [Function.update_of_ne firstMoved] at firstHolds
    exact absurd firstHolds (fresh token secondHolds first firstMoved)
  · rw [Function.update_of_ne firstMoved] at firstHolds
    rw [Function.update_of_ne secondMoved] at secondHolds
    exact unique first second token firstHolds secondHolds

end Runs
