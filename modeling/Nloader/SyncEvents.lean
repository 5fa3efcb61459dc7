/-
This file follows the signals of events through all orders of the critical sections of sets,
resets and waits, and says what a wait of the guest has done to events when it returns.

The balance of an event needs no more than what one critical section does to it. What a wait has
done is told by the place of its thread: it has waited for the objects before the one it is at
and has touched nothing else, but for the events that `nl_kbd_pump` sets in a `WaitAnyObject`
wait.
-/

import Nloader.Sync

namespace Nloader.Sync

open Nloader.Events Runs
open Nloader.Keyboard (Pointer Shared)

/-! ### The balance of an event -/

/-- 1 for an event that is signalled. -/
def lit (event : Event) : Nat := if event.signaled ≠ 0 then 1 else 0

/-- A reset that finds the event of the handle signalled. -/
def Effect.clears (handle : Pointer) : Effect → Bool
  | .reset other found => other == handle && found != 0
  | _ => false

/-- The signals a synchronization event has been given are those that waits and resets have taken
from it and the one it may still have. -/
def Balanced (handle : Pointer) (initial now : Event) (effects : List Effect) : Prop :=
  lit initial + effects.count (.set handle 0) =
    effects.count (.waited handle) + effects.countP (Effect.clears handle) + lit now

theorem lit_of_signaled {event : Event} (signaled : event.signaled ≠ 0) : lit event = 1 :=
  if_pos signaled

theorem lit_of_not_signaled {event : Event} (zero : event.signaled = 0) : lit event = 0 :=
  if_neg (not_not_intro zero)

theorem lit_ntSetEvent (event : Event) : lit (ntSetEvent event).1 = 1 := rfl

theorem lit_ntResetEvent (event : Event) : lit (ntResetEvent event).1 = 0 := rfl

/-- An event is in balance before anything has happened. -/
theorem balanced_nil (handle : Pointer) (initial : Event) : Balanced handle initial initial [] := by
  rw [Balanced, List.count_nil, List.count_nil, List.countP_nil, Nat.add_zero, Nat.zero_add]

theorem lit_consume {event : Event} (synchronization : event.type = .synchronizationEvent) :
    lit (consume event) = 0 := by
  rw [consume, if_pos synchronization]
  rfl

/-- A step that does not touch an event keeps its balance. -/
theorem Balanced.untouched {handle : Pointer} {initial now : Event} {effects : List Effect}
    (balanced : Balanced handle initial now effects) {effect : Effect}
    (untouched : ¬ effect.touches handle) : Balanced handle initial now (effect :: effects) := by
  have set : effect ≠ .set handle 0 := by
    rintro rfl
    exact untouched rfl
  have waited : effect ≠ .waited handle := by
    rintro rfl
    exact untouched rfl
  have clears : ¬ effect.clears handle = true := by
    cases effect with
    | silent | called | set | waited | returned => exact Bool.false_ne_true
    | reset other found =>
      intro clears
      exact untouched (eq_of_beq (Bool.and_eq_true_iff.mp clears).1)
  rw [Balanced, List.count_cons_of_ne set, List.count_cons_of_ne waited,
    List.countP_cons_of_neg clears]
  exact balanced

/-- A set gives the event a signal, unless it has one. -/
theorem Balanced.set {handle : Pointer} {initial now : Event} {effects : List Effect}
    (balanced : Balanced handle initial now effects) :
    Balanced handle initial (ntSetEvent now).1 (.set handle now.signaled :: effects) := by
  have waited : Effect.set handle now.signaled ≠ .waited handle := fun same => nomatch same
  have clears : ¬ (Effect.set handle now.signaled).clears handle = true := Bool.false_ne_true
  rw [Balanced] at balanced ⊢
  rw [List.count_cons_of_ne waited, List.countP_cons_of_neg clears, lit_ntSetEvent]
  by_cases zero : now.signaled = 0
  · rw [lit_of_not_signaled zero] at balanced
    rw [zero, List.count_cons_self, ← add_assoc, balanced]
  · have other : Effect.set handle now.signaled ≠ .set handle 0 := fun same =>
      zero (Effect.set.inj same).2
    rw [lit_of_signaled zero] at balanced
    rw [List.count_cons_of_ne other]
    exact balanced

/-- A reset takes the signal the event has. -/
theorem Balanced.reset {handle : Pointer} {initial now : Event} {effects : List Effect}
    (balanced : Balanced handle initial now effects) :
    Balanced handle initial (ntResetEvent now).1 (.reset handle now.signaled :: effects) := by
  have set : Effect.reset handle now.signaled ≠ .set handle 0 := fun same => nomatch same
  have waited : Effect.reset handle now.signaled ≠ .waited handle := fun same => nomatch same
  rw [Balanced] at balanced ⊢
  rw [List.count_cons_of_ne set, List.count_cons_of_ne waited, lit_ntResetEvent]
  by_cases zero : now.signaled = 0
  · have clears : ¬ (Effect.reset handle now.signaled).clears handle = true := by
      simp [Effect.clears, zero]
    rw [lit_of_not_signaled zero] at balanced
    rw [List.countP_cons_of_neg clears]
    exact balanced
  · have clears : (Effect.reset handle now.signaled).clears handle = true := by
      simp [Effect.clears, zero]
    rw [lit_of_signaled zero] at balanced
    rw [List.countP_cons_of_pos clears, ← add_assoc, balanced]

/-- A successful wait takes the signal of a synchronization event. -/
theorem Balanced.waited {handle : Pointer} {initial now : Event} {effects : List Effect}
    (balanced : Balanced handle initial now effects)
    (synchronization : now.type = .synchronizationEvent) (signaled : now.signaled ≠ 0) :
    Balanced handle initial (consume now) (.waited handle :: effects) := by
  have set : Effect.waited handle ≠ .set handle 0 := fun same => nomatch same
  have clears : ¬ (Effect.waited handle).clears handle = true := Bool.false_ne_true
  rw [Balanced, lit_of_signaled signaled] at balanced
  rw [Balanced]
  rw [List.count_cons_of_ne set, List.count_cons_self, List.countP_cons_of_neg clears,
    lit_consume synchronization]
  omega

/-- One step keeps a synchronization event in balance. -/
theorem Balanced.step {handle : Pointer} {initial now : Event} {effects : List Effect}
    (balanced : Balanced handle initial now effects)
    (synchronization : now.type = .synchronizationEvent)
    {before after : Pointer → Option Event} {effect : Effect} (found : before handle = some now)
    (step : EventStep before effect after) :
    ∃ next, after handle = some next ∧ next.type = .synchronizationEvent ∧
      Balanced handle initial next (effect :: effects) := by
  have elsewhere : ∀ {other : Pointer} {event : Option Event}, ¬ effect.touches handle →
      other ≠ handle → ∃ next, Function.update before other event handle = some next ∧
        next.type = .synchronizationEvent ∧ Balanced handle initial next (effect :: effects) := by
    intro other event untouched different
    refine ⟨now, ?_, synchronization, balanced.untouched untouched⟩
    rw [Function.update_of_ne (Ne.symm different)]
    exact found
  cases step with
  | none untouched => exact ⟨now, found, synchronization, balanced.untouched (untouched handle)⟩
  | @set other event at_other =>
    by_cases same : other = handle
    · subst same
      obtain rfl := Option.some.inj (found.symm.trans at_other)
      exact ⟨_, Function.update_self .., synchronization, balanced.set⟩
    · exact elsewhere same same
  | @reset other event at_other =>
    by_cases same : other = handle
    · subst same
      obtain rfl := Option.some.inj (found.symm.trans at_other)
      exact ⟨_, Function.update_self .., synchronization, balanced.reset⟩
    · exact elsewhere same same
  | @waited other event at_other signaled =>
    by_cases same : other = handle
    · subst same
      obtain rfl := Option.some.inj (found.symm.trans at_other)
      refine ⟨_, Function.update_self .., ?_, balanced.waited synchronization signaled⟩
      rw [consume, if_pos synchronization]
      exact synchronization
    · exact elsewhere same same
  | @waitedOther other at_other =>
    refine ⟨now, found, synchronization, balanced.untouched fun same => ?_⟩
    obtain rfl : other = handle := same
    exact nomatch found.symm.trans at_other

/-- A step leaves the events alone that it does not touch. -/
theorem EventStep.untouched {before after : Pointer → Option Event} {effect : Effect}
    (step : EventStep before effect after) {handle : Pointer}
    (untouched : ¬ effect.touches handle) : after handle = before handle := by
  cases step with
  | none | waitedOther => rfl
  | set | reset | waited => exact Function.update_of_ne (Ne.symm untouched) ..

/-- An event that is signalled stays so in a step that does not reset it or wait for it. -/
theorem EventStep.signaled {before after : Pointer → Option Event} {effect : Effect}
    (step : EventStep before effect after) {handle : Pointer} {event : Event}
    (found : before handle = some event) (signaled : event.signaled ≠ 0)
    (waited : effect ≠ .waited handle) (reset : ∀ found, effect ≠ .reset handle found) :
    ∃ now, after handle = some now ∧ now.signaled ≠ 0 := by
  by_cases touches : effect.touches handle
  · cases effect with
    | silent | called | returned => exact touches.elim
    | waited other => exact absurd (congrArg Effect.waited touches) waited
    | reset other found => exact absurd (congrArg (Effect.reset · found) touches) (reset found)
    | set other found =>
      obtain rfl : other = handle := touches
      cases step with
      | none untouched => exact absurd rfl (untouched other)
      | set => exact ⟨_, Function.update_self .., Nat.one_ne_zero⟩
  · exact ⟨event, (step.untouched touches).trans found, signaled⟩

/-- A wait does not change a notification event. -/
theorem EventStep.notification {before after : Pointer → Option Event} {effect : Effect}
    (step : EventStep before effect after) {handle : Pointer} (waited : effect = .waited handle)
    {event : Event} (found : before handle = some event)
    (notification : event.type = .notificationEvent) : after handle = some event := by
  cases step with
  | none | waitedOther => exact found
  | set | reset => exact nomatch waited
  | @waited other event' at_other =>
    obtain rfl := Effect.waited.inj waited
    obtain rfl := Option.some.inj (found.symm.trans at_other)
    have other : event.type ≠ .synchronizationEvent := by
      rw [notification]
      exact fun same => nomatch same
    rw [Function.update_self, consume, if_neg other]

/-! ### What a call has done -/

section

variable {Thread : Type} [DecidableEq Thread]

/-- The call a thread is in, or was in last, and what the thread has done since, the latest
first. -/
def inCall (thread : Thread) : List (Label Thread Move Effect) → Option (Call × List Effect)
  | [] => none
  | label :: earlier =>
    if label.thread = thread then
      match label.event with
      | .called call => some (call, [])
      | effect => (inCall thread earlier).map fun since => (since.1, effect :: since.2)
    else inCall thread earlier

theorem inCall_other {thread : Thread} {label : Label Thread Move Effect}
    (other : label.thread ≠ thread) (earlier : List (Label Thread Move Effect)) :
    inCall thread (label :: earlier) = inCall thread earlier := by
  rw [inCall, if_neg other]

theorem inCall_called {label : Label Thread Move Effect} {call : Call}
    (called : label.event = .called call) (earlier : List (Label Thread Move Effect)) :
    inCall label.thread (label :: earlier) = some (call, []) := by
  rw [inCall, if_pos rfl, called]

theorem inCall_own {label : Label Thread Move Effect}
    (other : ∀ call, label.event ≠ .called call) {earlier : List (Label Thread Move Effect)}
    {call : Call} {effects : List Effect}
    (since : inCall label.thread earlier = some (call, effects)) :
    inCall label.thread (label :: earlier) = some (call, label.event :: effects) := by
  rw [inCall, if_pos rfl, since]
  cases event : label.event with
  | called call => exact absurd event (other call)
  | silent | set | reset | waited | returned => rfl

end

/-- The call has waited for these objects in this order and has touched nothing else. -/
def Waits (effects : List Effect) (handles : List Pointer) : Prop :=
  effects.filter (fun effect => effect ≠ .silent) = (handles.map Effect.waited).reverse

/-- The call has touched nothing but the events that `nl_kbd_pump` has set in it. -/
def Polls (effects : List Effect) : Prop := ∀ effect ∈ effects, effect.signals

/-- What a call has done to events when it returns. -/
def Lawful : Call → Result → List Effect → Prop
  | .ntWaitForSingleObject handle _, result, effects =>
    ∃ status, result = .status status ∧
      Waits effects (if status = statusSuccess then [handle] else [])
  | .ntWaitForMultipleObjects objects .waitAllObject _, result, effects =>
    ∃ status position, result = .status status ∧ Waits effects (objects.take position) ∧
      if status = statusSuccess then objects.length ≤ position
      else objects = [] ∨ position < objects.length
  | .ntWaitForMultipleObjects objects .waitAnyObject _, .wait0 position, effects =>
    ∃ handle polls, objects[position]? = some handle ∧ effects = .waited handle :: polls ∧
      Polls polls
  | .ntWaitForMultipleObjects _ .waitAnyObject _, .status _, effects => Polls effects

/-- The call of a `WaitAnyObject` wait. -/
def AnyWait.call (wait : AnyWait) : Call :=
  .ntWaitForMultipleObjects wait.objects .waitAnyObject wait.timeout

/-- What a call has done when it waits for one object in `NtWaitForSingleObject`. -/
def Caller.lawful (call : Call) (effects : List Effect) (handle : Pointer)
    (timeout : Option Int64) : Caller → Prop
  | .guest => call = .ntWaitForSingleObject handle timeout ∧ Waits effects []
  | .all rest =>
    ∃ objects position, call = .ntWaitForMultipleObjects objects .waitAllObject timeout ∧
      Waits effects (objects.take position) ∧ objects.drop position = handle :: rest
  | .any wait position rest =>
    call = wait.call ∧ Polls effects ∧ wait.objects.drop position = handle :: rest

/-- What a call has done at a place. -/
def Place.lawful (call : Call) (effects : List Effect) : Place → Prop
  | .io _ => True
  | .entering handle timeout caller | .sleeping handle timeout caller
  | .joining handle timeout caller => caller.lawful call effects handle timeout
  | .pumping _ wait => call = wait.call ∧ Polls effects
  | .scanning wait position rest =>
    call = wait.call ∧ Polls effects ∧ wait.objects.drop position = rest
  | .returning result => Lawful call result effects

theorem Waits.silent {effects : List Effect} {handles : List Pointer}
    (waits : Waits effects handles) : Waits (.silent :: effects) handles := waits

theorem Waits.waited {effects : List Effect} {handles : List Pointer}
    (waits : Waits effects handles) (handle : Pointer) :
    Waits (.waited handle :: effects) (handles ++ [handle]) := by
  rw [Waits, List.filter_cons_of_pos (by simp), waits, List.map_append, List.reverse_append]
  rfl

theorem Polls.cons {effects : List Effect} (polls : Polls effects) {effect : Effect}
    (signals : effect.signals) : Polls (effect :: effects) := by
  intro other mem
  rcases List.mem_cons.mp mem with rfl | mem
  · exact signals
  · exact polls other mem

/-- The object at a position, the objects up to it and those after it. -/
theorem drop_eq_cons {objects rest : List Pointer} {position : Nat} {handle : Pointer}
    (dropped : objects.drop position = handle :: rest) :
    objects[position]? = some handle ∧ position < objects.length ∧
      objects.take (position + 1) = objects.take position ++ [handle] ∧
        objects.drop (position + 1) = rest := by
  have at_position : objects[position]? = some handle := by
    rw [← List.head?_drop, dropped, List.head?_cons]
  refine ⟨at_position, (List.getElem?_eq_some_iff.mp at_position).1, ?_, ?_⟩
  · rw [List.take_add_one, at_position, Option.toList_some]
  · rw [← List.tail_drop, dropped, List.tail_cons]

/-- A call goes on rightly after one of its objects is satisfied. -/
theorem Caller.lawful_succeeds {call : Call} {effects : List Effect} {handle : Pointer}
    {timeout : Option Int64} {caller : Caller}
    (lawful : caller.lawful call effects handle timeout) :
    (caller.resume timeout statusSuccess).lawful call (.waited handle :: effects) := by
  cases caller with
  | guest =>
    obtain ⟨rfl, waits⟩ := lawful
    exact ⟨statusSuccess, rfl, waits.waited handle⟩
  | all rest =>
    obtain ⟨objects, position, rfl, waits, dropped⟩ := lawful
    obtain ⟨_, _, taken, dropped⟩ := drop_eq_cons dropped
    have waits := waits.waited handle
    rw [← taken] at waits
    cases rest with
    | nil =>
      refine ⟨statusSuccess, position + 1, rfl, waits, ?_⟩
      exact List.drop_eq_nil_iff.mp dropped
    | cons next rest => exact ⟨objects, position + 1, rfl, waits, dropped⟩
  | any wait position rest =>
    obtain ⟨rfl, polls, dropped⟩ := lawful
    exact ⟨handle, effects, (drop_eq_cons dropped).1, rfl, polls⟩

/-- A call goes on rightly after the wait for one of its objects has failed. -/
theorem Caller.lawful_fails {call : Call} {effects : List Effect} {handle : Pointer}
    {timeout : Option Int64} {caller : Caller}
    (lawful : caller.lawful call effects handle timeout) {status : Status}
    (failure : status ≠ statusSuccess) :
    (caller.resume timeout status).lawful call (.silent :: effects) := by
  cases caller with
  | guest =>
    obtain ⟨rfl, waits⟩ := lawful
    refine ⟨status, rfl, ?_⟩
    rw [if_neg failure]
    exact waits.silent
  | all rest =>
    obtain ⟨objects, position, rfl, waits, dropped⟩ := lawful
    rw [Caller.resume_all rest failure]
    refine ⟨status, position, rfl, waits.silent, ?_⟩
    rw [if_neg failure]
    exact .inr (drop_eq_cons dropped).2.1
  | any wait position rest =>
    obtain ⟨rfl, polls, dropped⟩ := lawful
    rw [Caller.resume, if_neg failure]
    exact ⟨rfl, polls.cons trivial, (drop_eq_cons dropped).2.2.2⟩

/-- A call goes on rightly while it waits for one of its objects. -/
theorem Caller.lawful_stays {call : Call} {effects : List Effect} {handle : Pointer}
    {timeout : Option Int64} {caller : Caller}
    (lawful : caller.lawful call effects handle timeout) :
    caller.lawful call (.silent :: effects) handle timeout := by
  cases caller with
  | guest => exact ⟨lawful.1, lawful.2.silent⟩
  | all rest =>
    obtain ⟨objects, position, call_eq, waits, dropped⟩ := lawful
    exact ⟨objects, position, call_eq, waits.silent, dropped⟩
  | any wait position rest =>
    exact ⟨lawful.1, lawful.2.1.cons trivial, lawful.2.2⟩

theorem Place.lawful_iff {call : Call} {effects : List Effect} {place : Place} {handle : Pointer}
    {timeout : Option Int64} {caller : Caller}
    (waits : place.waitsFor = some (handle, timeout, caller)) :
    place.lawful call effects ↔ caller.lawful call effects handle timeout := by
  cases place with
  | io | pumping | scanning | returning => exact nomatch waits
  | entering | sleeping | joining =>
    obtain ⟨rfl, same⟩ := Prod.mk.inj (Option.some.inj waits)
    obtain ⟨rfl, rfl⟩ := Prod.mk.inj same
    exact Iff.rfl

/-- A wait begins rightly. -/
theorem Call.lawful_start (call : Call) : call.start.lawful call [] := by
  cases call with
  | ntWaitForSingleObject handle timeout => exact ⟨rfl, rfl⟩
  | ntWaitForMultipleObjects objects waitType timeout =>
    cases objects with
    | nil =>
      cases waitType with
      | waitAllObject => exact ⟨statusInvalidParameter, 0, rfl, rfl, .inl rfl⟩
      | waitAnyObject => exact fun _ mem => absurd mem List.not_mem_nil
    | cons handle rest =>
      cases waitType with
      | waitAllObject => exact ⟨handle :: rest, 0, rfl, rfl, rfl⟩
      | waitAnyObject => exact ⟨rfl, fun _ mem => absurd mem List.not_mem_nil⟩

/-- A call goes on rightly through each of its steps. -/
theorem Passes.lawful {call : Call} {effects : List Effect} {place next : Place}
    {effect : Effect} (passes : Passes place effect next) (lawful : place.lawful call effects)
    (other : ∀ call, effect ≠ .called call) : next.lawful call (effect :: effects) := by
  cases passes with
  | io | leaves => trivial
  | called call => exact absurd rfl (other call)
  | succeeds waits => exact Caller.lawful_succeeds ((Place.lawful_iff waits).mp lawful)
  | fails waits failure => exact Caller.lawful_fails ((Place.lawful_iff waits).mp lawful) failure
  | stays waits same =>
    obtain ⟨⟨handle, timeout, caller⟩, waits⟩ := Option.isSome_iff_exists.mp waits
    have stayed := Caller.lawful_stays ((Place.lawful_iff waits).mp lawful)
    exact (Place.lawful_iff (same.trans waits)).mpr stayed
  | pumps signals => exact ⟨lawful.1, lawful.2.cons signals⟩
  | pumped signals => exact ⟨lawful.1, lawful.2.cons signals, List.drop_zero⟩
  | @finds wait position handle rest =>
    obtain ⟨rfl, polls, dropped⟩ := lawful
    exact ⟨handle, effects, (drop_eq_cons dropped).1, rfl, polls⟩
  | @skips wait position handle rest =>
    obtain ⟨rfl, polls, dropped⟩ := lawful
    exact ⟨rfl, polls.cons trivial, (drop_eq_cons dropped).2.2.2⟩
  | @asks wait position handle rest =>
    exact ⟨lawful.1, lawful.2.1.cons trivial, lawful.2.2⟩
  | expires =>
    obtain ⟨rfl, polls, _⟩ := lawful
    exact polls.cons trivial
  | again => exact ⟨lawful.1, lawful.2.1.cons trivial⟩

/-! ### All orders of the steps -/

/-- A thread that is in a wait of the guest has done in it what its place tells. -/
def PlaceLawful {Thread : Type} [DecidableEq Thread] (labels : List (Label Thread Move Effect))
    (thread : Thread) (place : Place) : Prop :=
  (∃ inner, place = .io inner) ∨
    ∃ call effects, inCall thread labels = some (call, effects) ∧ place.lawful call effects

/-- A thread in no wait stays in none or begins one. -/
theorem Passes.of_io {inner : Keyboard.Place} {next : Place} {effect : Effect}
    (passes : Passes (.io inner) effect next) :
    (∃ inner, next = .io inner) ∨ ∃ call, effect = .called call ∧ next = call.start := by
  cases passes with
  | io => exact .inl ⟨_, rfl⟩
  | called call => exact .inr ⟨call, rfl, rfl⟩
  | succeeds waits | fails waits => exact nomatch waits
  | stays waits => exact nomatch waits

/-- Only a thread in no wait begins one. -/
theorem Passes.of_called {place next : Place} {call : Call}
    (passes : Passes place (.called call) next) : ∃ inner, place = .io inner := by
  cases passes with
  | io other => exact ⟨_, rfl⟩
  | called => exact ⟨_, rfl⟩
  | pumps signals | pumped signals => exact signals.elim

section

variable {Thread : Type} [DecidableEq Thread] {beyond : UInt8} {object : Pointer → Object}

/-- Every step leaves each thread with what its place tells. -/
theorem placeLawful_step {labels : List (Label Thread Move Effect)}
    {before after : Threads Thread Shared Place} {label : Label Thread Move Effect}
    (lawful : ∀ thread, PlaceLawful labels thread (before.place thread))
    (next : Interleave (act beyond object) before label after) (thread : Thread) :
    PlaceLawful (label :: labels) thread (after.place thread) := by
  obtain ⟨place, step, _, after_eq⟩ := perform_eq_some next
  rw [after_eq]
  refine forall_place (PlaceLawful (label :: labels)) (fun thread other => ?_) ?_ thread
  · rw [PlaceLawful, inCall_other other.symm]
    exact lawful thread
  · obtain ⟨_, passes⟩ := eventStep_of_act step
    rcases lawful label.thread with ⟨inner, at_thread⟩ | ⟨call, effects, since, lawful⟩
    · rw [at_thread] at passes
      rcases passes.of_io with inside | ⟨call, called, rfl⟩
      · exact .inl inside
      · exact .inr ⟨call, [], inCall_called called labels, call.lawful_start⟩
    · by_cases other : ∀ call, label.event ≠ .called call
      · exact .inr ⟨call, _, inCall_own other since, passes.lawful lawful other⟩
      · obtain ⟨call, called⟩ := not_forall_not.mp other
        rw [called] at passes
        obtain ⟨inner, at_thread⟩ := passes.of_called
        rw [at_thread] at passes
        rcases passes.of_io with inside | ⟨call, again, rfl⟩
        · exact .inl inside
        · exact .inr ⟨call, [], inCall_called (called.trans again) labels, call.lawful_start⟩

/-- In every run each thread has done what its place tells. -/
theorem placeLawful_run {start system : Threads Thread Shared Place}
    {labels : List (Label Thread Move Effect)}
    (idle : ∀ thread, ∃ inner, start.place thread = .io inner)
    (run : Run (Interleave (act beyond object)) start labels system) (thread : Thread) :
    PlaceLawful labels thread (system.place thread) := by
  have lawful : ∀ thread, PlaceLawful labels thread (system.place thread) := by
    refine run.invariant (fun labels system => ∀ thread,
      PlaceLawful labels thread (system.place thread)) (fun thread => .inl (idle thread)) ?_
    intro _ _ _ _ lawful next
    exact placeLawful_step lawful next
  exact lawful thread

/-- A wait that returns has done what it returns. -/
theorem lawful_of_returned {start before after : Threads Thread Shared Place}
    {labels : List (Label Thread Move Effect)} {label : Label Thread Move Effect}
    (idle : ∀ thread, ∃ inner, start.place thread = .io inner)
    (run : Run (Interleave (act beyond object)) start labels before)
    (next : Interleave (act beyond object) before label after) {result : Result}
    (returned : label.event = .returned result) :
    ∃ call effects, inCall label.thread labels = some (call, effects) ∧
      Lawful call result effects := by
  obtain ⟨place, step, _, _⟩ := perform_eq_some next
  obtain ⟨_, passes⟩ := eventStep_of_act step
  have here := placeLawful_run idle run label.thread
  rw [returned] at passes
  generalize before.place label.thread = at_thread at passes here
  cases passes with
  | io _ unfinished => exact absurd rfl (unfinished result)
  | pumps signals | pumped signals => exact signals.elim
  | leaves =>
    rcases here with ⟨inner, same⟩ | ⟨call, effects, since, lawful⟩
    · exact nomatch same
    · exact ⟨call, effects, since, lawful⟩

/-- In every run a synchronization event is in balance. -/
theorem balanced_run {start system : Threads Thread Shared Place}
    {labels : List (Label Thread Move Effect)}
    (run : Run (Interleave (act beyond object)) start labels system) {handle : Pointer}
    {initial : Event} (found : start.shared.guest.event handle = some initial)
    (synchronization : initial.type = .synchronizationEvent) :
    ∃ now, system.shared.guest.event handle = some now ∧ now.type = .synchronizationEvent ∧
      Balanced handle initial now (events labels) := by
  refine run.invariant (fun labels system => ∃ now, system.shared.guest.event handle = some now ∧
    now.type = .synchronizationEvent ∧ Balanced handle initial now (events labels))
    ⟨initial, found, synchronization, balanced_nil handle initial⟩ ?_
  intro _ _ _ _ inBalance next
  obtain ⟨now, at_handle, type, balanced⟩ := inBalance
  obtain ⟨_, step, _, _⟩ := perform_eq_some next
  exact balanced.step type at_handle (eventStep_of_act step).1

/-! ### The laws of events and waits -/

/-- What a step does to events and what the wait that returns in it has done. The sets in a
`WaitAnyObject` wait are those of `nl_kbd_pump`. -/
structure KeepsSignals (labels : List (Label Thread Move Effect))
    (before : Threads Thread Shared Place) (label : Label Thread Move Effect)
    (after : Threads Thread Shared Place) : Prop where
  untouched : ∀ handle, ¬ label.event.touches handle →
    after.shared.guest.event handle = before.shared.guest.event handle
  notification : ∀ handle event, before.shared.guest.event handle = some event →
    event.type = .notificationEvent → label.event = .waited handle →
      after.shared.guest.event handle = some event
  timedOut : label.event = .returned (.status statusTimeout) →
    ∃ call effects, inCall label.thread labels = some (call, effects) ∧
      (∀ handle timeout, call = .ntWaitForSingleObject handle timeout →
        ∀ effect ∈ effects, ∀ other, ¬ effect.touches other) ∧
        ∀ objects timeout, call = .ntWaitForMultipleObjects objects .waitAnyObject timeout →
          ∀ effect ∈ effects, ∀ other, effect.touches other → ∃ found, effect = .set other found
  satisfied : ∀ position, label.event = .returned (.wait0 position) →
    ∃ objects timeout effects handle, inCall label.thread labels =
        some (.ntWaitForMultipleObjects objects .waitAnyObject timeout, effects) ∧
      objects[position]? = some handle ∧ ∀ effect ∈ effects, ∀ other, effect.touches other →
        other = handle ∨ ∃ found, effect = .set other found

omit [DecidableEq Thread] in
theorem Effect.eq_set_of_signals {effect : Effect} (signals : effect.signals) {handle : Pointer}
    (touches : effect.touches handle) : ∃ found, effect = .set handle found := by
  cases effect with
  | silent => exact touches.elim
  | called | reset | waited | returned => exact signals.elim
  | set other found => exact ⟨found, by rw [show other = handle from touches]⟩

/-- A call has touched only objects it has waited for. -/
theorem Waits.mem_of_touches {effects : List Effect} {handles : List Pointer}
    (waits : Waits effects handles) {effect : Effect} (mem : effect ∈ effects)
    {handle : Pointer} (touches : effect.touches handle) : handle ∈ handles := by
  have kept : effect ∈ effects.filter fun effect => effect ≠ .silent := by
    refine List.mem_filter.mpr ⟨mem, ?_⟩
    cases effect with
    | silent => exact touches.elim
    | called | set | reset | waited | returned => simp
  rw [waits, List.mem_reverse] at kept
  obtain ⟨other, among, rfl⟩ := List.mem_map.mp kept
  obtain rfl : other = handle := touches
  exact among

/-- What a thread has done in a part of a run. -/
def ownEffects (thread : Thread) (labels : List (Label Thread Move Effect)) : List Effect :=
  events (labels.filter fun label => label.thread = thread)

/-- The effects of a thread since it began its call. -/
theorem inCall_append {called : Label Thread Move Effect} {call : Call}
    (begins : called.event = .called call) {recent : List (Label Thread Move Effect)}
    (same : ∀ label ∈ recent, label.thread = called.thread → ∀ call, label.event ≠ .called call)
    (older : List (Label Thread Move Effect)) :
    inCall called.thread (recent ++ called :: older) =
      some (call, ownEffects called.thread recent) := by
  induction recent with
  | nil => exact inCall_called begins older
  | cons label recent inductionHypothesis =>
    have since := inductionHypothesis fun other mem => same other (List.mem_cons_of_mem _ mem)
    rw [List.cons_append, ownEffects]
    by_cases own : label.thread = called.thread
    · rw [← own] at since ⊢
      rw [inCall_own (same label List.mem_cons_self own) since,
        List.filter_cons_of_pos (by simp)]
      rfl
    · rw [inCall_other own, since, List.filter_cons_of_neg (by simpa using own)]
      rfl

/-- An event that is signalled stays so while no one resets it or waits for it. -/
theorem signaled_run {before system : Threads Thread Shared Place}
    {labels : List (Label Thread Move Effect)}
    (run : Run (Interleave (act beyond object)) before labels system) {handle : Pointer}
    (kept : ∀ label ∈ labels, label.event ≠ .waited handle ∧
      ∀ found, label.event ≠ .reset handle found)
    {event : Event} (found : before.shared.guest.event handle = some event)
    (signaled : event.signaled ≠ 0) :
    ∃ now, system.shared.guest.event handle = some now ∧ now.signaled ≠ 0 := by
  induction run with
  | nil => exact ⟨event, found, signaled⟩
  | @cons labels middle after label _ next inductionHypothesis =>
    obtain ⟨now, at_handle, signaled⟩ :=
      inductionHypothesis fun other mem => kept other (List.mem_cons_of_mem _ mem)
    obtain ⟨waited, reset⟩ := kept label List.mem_cons_self
    obtain ⟨_, acts, _, _⟩ := perform_eq_some next
    exact (eventStep_of_act acts).1.signaled at_handle signaled waited reset

/-- A `WaitAllObject` wait that does not return `STATUS_SUCCESS` has stopped at one position: it
has waited for the objects before it, in their order, and has touched nothing else. Every other
event that was signalled when the wait began, and that no other thread has reset or waited for,
is still signalled when it returns. -/
theorem wait_all_stops {start middle system after : Threads Thread Shared Place}
    {older recent : List (Label Thread Move Effect)} {called label : Label Thread Move Effect}
    {objects : List Pointer} {timeout : Option Int64} {status : Status}
    (idle : ∀ thread, ∃ inner, start.place thread = .io inner)
    (earlier : Run (Interleave (act beyond object)) start (called :: older) middle)
    (begins : called.event = .called (.ntWaitForMultipleObjects objects .waitAllObject timeout))
    (run : Run (Interleave (act beyond object)) middle recent system)
    (same : ∀ label ∈ recent, label.thread = called.thread → ∀ call, label.event ≠ .called call)
    (next : Interleave (act beyond object) system label after)
    (own : label.thread = called.thread) (returned : label.event = .returned (.status status))
    (failure : status ≠ statusSuccess) :
    ∃ position, (objects = [] ∨ position < objects.length) ∧
      Waits (ownEffects called.thread recent) (objects.take position) ∧
        ∀ handle event, handle ∉ objects.take position →
          middle.shared.guest.event handle = some event → event.signaled ≠ 0 →
            (∀ other ∈ recent, other.thread ≠ called.thread →
              other.event ≠ .waited handle ∧ ∀ found, other.event ≠ .reset handle found) →
              ∃ now, after.shared.guest.event handle = some now ∧ now.signaled ≠ 0 := by
  obtain ⟨call, effects, since, lawful⟩ :=
    lawful_of_returned idle (earlier.append run) next returned
  rw [own, inCall_append begins same older] at since
  obtain ⟨rfl, rfl⟩ := Prod.mk.inj (Option.some.inj since)
  obtain ⟨status', position, result_eq, waits, stopped⟩ := lawful
  obtain rfl := Result.status.inj result_eq
  rw [if_neg failure] at stopped
  refine ⟨position, stopped, waits, fun handle event apart found signaled others => ?_⟩
  have kept : ∀ other ∈ recent, other.event ≠ .waited handle ∧
      ∀ found, other.event ≠ .reset handle found := by
    intro other mem
    by_cases mine : other.thread = called.thread
    · have effect : other.event ∈ ownEffects called.thread recent :=
        List.mem_map_of_mem (List.mem_filter.mpr ⟨mem, by simpa using mine⟩)
      refine ⟨fun waited => apart (waits.mem_of_touches effect ?_),
        fun found reset => apart (waits.mem_of_touches effect ?_)⟩
      · rw [waited]
        exact rfl
      · rw [reset]
        exact rfl
    · exact others other mem mine
  obtain ⟨now, at_handle, signaled⟩ := signaled_run run kept found signaled
  obtain ⟨_, acts, _, _⟩ := perform_eq_some next
  rw [returned] at acts
  exact (eventStep_of_act acts).1.signaled at_handle signaled (fun waited => nomatch waited)
    fun _ reset => nomatch reset

end

/-! ### Runs -/

/-- No handle is of a file or a thread. -/
def noObject (_ : Pointer) : Object := .null

/-- One thread sets an event and another finds it in a pass. -/
def setAndFound : List (Nat × Move) :=
  [(1, .leave), (1, .check), (1, .io .nlKbdPump),
    (1, .wait (.ntWaitForMultipleObjects [40] .waitAnyObject none)), (0, .ntSetEvent 40)]

/-- A keyboard read is parked with the event 41; then a wait for the event 40 finds it signalled,
after its `nl_kbd_pump` has read a byte. -/
def pumpedAndFound : List (Nat × Move) :=
  [(0, .leave), (0, .check), (0, .io .leave), (0, .io .write), (0, .io .write), (0, .io .write),
    (0, .io .write), (0, .io .write), (0, .io .write), (0, .io .take),
    (0, .io (.read (some 0x71))), (0, .io (.poll true)), (0, .io .nlKbdPump),
    (0, .wait (.ntWaitForMultipleObjects [40] .waitAnyObject none)), (0, .ntSetEvent 40),
    (0, .io .leave), (0, .io .write), (0, .io .write), (0, .io .park), (0, .io (.poll false)),
    (0, .io (.ntReadFile (.number 1)))]

/-- A wait for two events of which only the second is signalled stops at the first. -/
theorem wait_all_stops_example :
    ∃ position, position < [40, 41].length ∧
      Waits [.silent, .silent] ([40, 41].take position) := by
  obtain ⟨position, stopped, waits, _⟩ := @wait_all_stops Bool instDecidableEqBool 0 noObject
    (begin Bool .zeros) _ _ _
    [⟨true, .ntSetEvent 41, .set 41 0⟩]
    [⟨false, .wake .timedOut, .silent⟩, ⟨false, .enter, .silent⟩]
    ⟨false, .wait (.ntWaitForMultipleObjects [40, 41] .waitAllObject (some (-1))),
      .called (.ntWaitForMultipleObjects [40, 41] .waitAllObject (some (-1)))⟩
    ⟨false, .leave, .returned (.status statusTimeout)⟩ [40, 41] (some (-1)) statusTimeout
    (fun _ => ⟨.outside, rfl⟩) (.cons (.cons .nil rfl) rfl) rfl (.cons (.cons .nil rfl) rfl)
    (by simp) rfl rfl rfl (by decide)
  exact ⟨position, stopped.resolve_left (List.cons_ne_nil _ _), waits⟩

/-- A wait for two events takes the signal of the first and times out on the second. -/
theorem not_wait_all_restores :
    ∃ (middle after : Threads Nat Shared Place) (older recent : List (Label Nat Move Effect)),
      Run (Interleave (act 0 noObject)) (begin Nat .zeros) older middle ∧
        Run (Interleave (act 0 noObject)) middle recent after ∧
          older.map Label.event = [.called (.ntWaitForMultipleObjects [40, 41] .waitAllObject
            (some (-1))), .set 40 0] ∧
          recent.map Label.event = [.returned (.status statusTimeout), .silent, .silent,
            .waited 40] ∧
            (∀ label ∈ recent, label.thread = 0) ∧
              middle.shared.guest.event 40 = some (ntCreateEvent .synchronizationEvent 1) ∧
                after.shared.guest.event 40 = some (ntCreateEvent .synchronizationEvent 0) := by
  refine ⟨_, _, [⟨0, .wait (.ntWaitForMultipleObjects [40, 41] .waitAllObject (some (-1))),
      .called (.ntWaitForMultipleObjects [40, 41] .waitAllObject (some (-1)))⟩,
    ⟨1, .ntSetEvent 40, .set 40 0⟩],
    [⟨0, .leave, .returned (.status statusTimeout)⟩, ⟨0, .wake .timedOut, .silent⟩,
      ⟨0, .enter, .silent⟩, ⟨0, .enter, .waited 40⟩],
    .cons (.cons .nil rfl) rfl, .cons (.cons (.cons (.cons .nil rfl) rfl) rfl) rfl, rfl, rfl,
    by simp, rfl, rfl⟩

end Nloader.Sync
