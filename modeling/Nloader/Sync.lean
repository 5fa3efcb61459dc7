/-
This file models the waits of `src/libs/ntdll/sync.c`: `interval_to_timespec`,
`NtWaitForSingleObject` and `NtWaitForMultipleObjects`, together with `NtSetEvent` and
`NtResetEvent`, for any number of threads. Each critical section under the `state_mutex` of an
event is one step. The keyboard calls run beside them step by step, and a `WaitAnyObject` wait
runs `nl_kbd_pump` before each of its passes.

Time is not followed here: a wait with a timeout may time out at any moment, and a wait may wake
at any moment, signalled or not.
-/

import Nloader.KeyboardThreads

namespace Nloader.Sync

open Nloader.Events Runs
open Nloader.Keyboard (Pointer Shared ReadCall)

/-! ### Timeouts -/

/-- `struct timeval`. -/
structure Timeval where
  tvSec : Int64
  tvUsec : Int64

/-- `struct timespec`. -/
structure Timespec where
  tvSec : Int64
  tvNsec : Int64
  deriving DecidableEq

/-- `TICKS_1601_TO_1970`. -/
def ticks1601To1970 : Int64 := 116444736000000000

/-- The `ns_offset` of `interval_to_timespec`, in arithmetic that wraps around. -/
def nsOffset (quadPart : Int64) (now : Timeval) : Int64 :=
  if quadPart < 0 then -quadPart * 100
  else
    let unix100ns := quadPart - ticks1601To1970
    let now100ns := now.tvSec * 10000000 + now.tvUsec * 10
    let offset := (unix100ns - now100ns) * 100
    if offset < 0 then 0 else offset

/-- The carry at the end of `interval_to_timespec`. -/
def carry (tvSec tvNsec : Int64) : Timespec :=
  if 1000000000 ≤ tvNsec then { tvSec := tvSec + 1, tvNsec := tvNsec - 1000000000 }
  else { tvSec := tvSec, tvNsec := tvNsec }

/-- `interval_to_timespec`; `none` is the result 0, which leaves the deadline as it is. -/
def intervalToTimespec (delayInterval : Option Int64) (now : Timeval) : Option Timespec :=
  match delayInterval with
  | none => none
  | some quadPart =>
    if quadPart = 0 then none
    else
      some (carry (now.tvSec + nsOffset quadPart now / 1000000000)
        (now.tvUsec * 1000 + nsOffset quadPart now % 1000000000))

/-- Whether a timeout gives a deadline. -/
def hasTimeout (timeout : Option Int64) : Bool := timeout.isSome && timeout != some 0

theorem isSome_intervalToTimespec (timeout : Option Int64) (now : Timeval) :
    (intervalToTimespec timeout now).isSome = hasTimeout timeout := by
  cases timeout with
  | none => rfl
  | some quadPart =>
    rw [intervalToTimespec, hasTimeout]
    by_cases zero : quadPart = 0
    · rw [if_pos zero, zero]
      rfl
    · have other : (some quadPart != some 0) = true := by simpa using zero
      rw [if_neg zero, other]
      rfl

/-! ### Objects -/

/-- `STATUS_NOT_IMPLEMENTED`. -/
def statusNotImplemented : Status := 0xC0000002

/-- `STATUS_ACCESS_VIOLATION`. -/
def statusAccessViolation : Status := 0xC0000005

/-- What a handle that is not of an event is of, or `NULL`. -/
inductive Object where
  | null
  | file
  | thread
  | other
  deriving DecidableEq

/-- `OBJECT_WAIT_TYPE`. -/
inductive WaitType where
  | waitAllObject
  | waitAnyObject
  deriving DecidableEq

/-- What a wait does to an event in one critical section: it succeeds, and with it consumes the
signal of a synchronization event, or it finds the event not signalled. -/
def check (event : Event) : Option Event :=
  if event.signaled ≠ 0 then some (consume event) else none

/-! ### Places and steps -/

/-- The arguments of a `WaitAnyObject` wait. -/
structure AnyWait where
  objects : List Pointer
  timeout : Option Int64
  deriving DecidableEq

/-- Where `NtWaitForSingleObject` returns to: to the guest, to a `WaitAllObject` wait with the
objects that come after, or to a `WaitAnyObject` wait in the middle of a pass. -/
inductive Caller where
  | guest
  | all (rest : List Pointer)
  | any (wait : AnyWait) (position : Nat) (rest : List Pointer)

/-- What a wait returns: a status, or that the object at a position is satisfied, which is
`STATUS_WAIT_0` and the position. -/
inductive Result where
  | status (status : Status)
  | wait0 (position : Nat)
  deriving DecidableEq

/-- The `NTSTATUS` of a result. -/
def Result.toStatus : Result → Status
  | .status value => value
  | .wait0 position => statusWait0 + UInt32.ofNat position

/-- A wait of the guest. -/
inductive Call where
  | ntWaitForSingleObject (handle : Pointer) (timeout : Option Int64)
  | ntWaitForMultipleObjects (objects : List Pointer) (waitType : WaitType)
      (timeout : Option Int64)
  deriving DecidableEq

/-- Where a thread is. -/
inductive Place where
  /-- In no wait: in a keyboard call, or in none. -/
  | io (inner : Keyboard.Place)
  /-- At the beginning of `NtWaitForSingleObject`. -/
  | entering (handle : Pointer) (timeout : Option Int64) (caller : Caller)
  /-- In `pthread_cond_wait` or `pthread_cond_timedwait`. -/
  | sleeping (handle : Pointer) (timeout : Option Int64) (caller : Caller)
  /-- In `pthread_join`. -/
  | joining (handle : Pointer) (timeout : Option Int64) (caller : Caller)
  /-- In the `nl_kbd_pump` of a `WaitAnyObject` wait. -/
  | pumping (inner : Keyboard.Place) (wait : AnyWait)
  /-- In a pass over the objects, with those that are left. -/
  | scanning (wait : AnyWait) (position : Nat) (rest : List Pointer)
  /-- Before the return of a wait of the guest. -/
  | returning (result : Result)

/-- How a wait for a condition variable ends: with 0, with `ETIMEDOUT` or with another error. -/
inductive Wake where
  | signaled
  | timedOut
  | failed

/-- Which step a thread takes, with what the system answers. -/
inductive Move where
  | ntSetEvent (handle : Pointer)
  | ntResetEvent (handle : Pointer)
  | wait (call : Call)
  | io (move : Keyboard.Move)
  | enter
  | wake (wake : Wake)
  | join
  | check
  | decide (expired : Bool)
  | leave

/-- What happens in a step. A set and a reset say what they found. -/
inductive Effect where
  | silent
  | called (call : Call)
  | set (handle : Pointer) (found : Nat)
  | reset (handle : Pointer) (found : Nat)
  | waited (handle : Pointer)
  | returned (result : Result)
  deriving DecidableEq

/-- Where a thread goes on after `NtWaitForSingleObject` has returned. -/
def Caller.resume (timeout : Option Int64) (caller : Caller) (status : Status) : Place :=
  match caller with
  | .guest => .returning (.status status)
  | .all rest =>
    if status ≠ statusSuccess then .returning (.status status)
    else
      match rest with
      | [] => .returning (.status statusSuccess)
      | handle :: rest => .entering handle timeout (.all rest)
  | .any wait position rest =>
    if status = statusSuccess then .returning (.wait0 position)
    else .scanning wait (position + 1) rest

/-- A `WaitAllObject` wait stops at the first object that fails. -/
theorem Caller.resume_all {timeout : Option Int64} (rest : List Pointer) {status : Status}
    (failure : status ≠ statusSuccess) :
    (Caller.all rest).resume timeout status = .returning (.status status) := by
  simp only [Caller.resume, if_pos failure]

/-- Where a wait of the guest begins. -/
def Call.start : Call → Place
  | .ntWaitForSingleObject handle timeout => .entering handle timeout .guest
  | .ntWaitForMultipleObjects objects waitType timeout =>
    match objects with
    | [] => .returning (.status statusInvalidParameter)
    | handle :: rest =>
      match waitType with
      | .waitAllObject => .entering handle timeout (.all rest)
      | .waitAnyObject => .pumping .outside { objects := objects, timeout := timeout }

/-- The state with another event at a handle. -/
def putEvent (shared : Shared) (handle : Pointer) (event : Event) : Shared :=
  { shared with
    guest :=
      { shared.guest with event := Function.update shared.guest.event handle (some event) } }

/-- What a step of the keyboard calls does to an event. -/
def ofKeyboard (shared : Shared) : Keyboard.Effect → Effect
  | .wrote _ (.setEvent handle) =>
    match shared.guest.event handle with
    | some event => .set handle event.signaled
    | none => .silent
  | _ => .silent

/-- The critical section of `NtWaitForSingleObject` at the head of its loop. -/
def testEvent (shared : Shared) (event : Event) (handle : Pointer) (timeout : Option Int64)
    (caller : Caller) : Effect × Shared × Place :=
  match check event with
  | some consumed =>
    (.waited handle, putEvent shared handle consumed, caller.resume timeout statusSuccess)
  | none => (.silent, shared, .sleeping handle timeout caller)

/-- One step of a thread. `object` says what the handles are of that are not of events; what a
handle is of does not change while a thread waits for it. -/
def act (beyond : UInt8) (object : Pointer → Object) (shared : Shared) :
    Place → Move → Option (Effect × Shared × Place)
  | .io .outside, .ntSetEvent handle =>
    match shared.guest.event handle with
    | some event =>
      some (.set handle (ntSetEvent event).2, putEvent shared handle (ntSetEvent event).1,
        .io .outside)
    | none => some (.silent, shared, .io .outside)
  | .io .outside, .ntResetEvent handle =>
    match shared.guest.event handle with
    | some event =>
      some (.reset handle (ntResetEvent event).2, putEvent shared handle (ntResetEvent event).1,
        .io .outside)
    | none => some (.silent, shared, .io .outside)
  | .io .outside, .wait call => some (.called call, shared, call.start)
  | .io .outside, .io .nlKbdPump => none
  | .io inner, .io move =>
    match Keyboard.act beyond shared inner move with
    | some (effect, after, next) => some (ofKeyboard shared effect, after, .io next)
    | none => none
  | .entering handle timeout caller, .enter =>
    match shared.guest.event handle with
    | some event => some (testEvent shared event handle timeout caller)
    | none =>
      match object handle with
      | .null => some (.silent, shared, caller.resume timeout statusAccessViolation)
      | .file => some (.waited handle, shared, caller.resume timeout statusSuccess)
      | .thread => some (.silent, shared, .joining handle timeout caller)
      | .other => some (.silent, shared, caller.resume timeout statusNotImplemented)
  | .sleeping handle timeout caller, .wake wake =>
    match wake with
    | .signaled =>
      match shared.guest.event handle with
      | some event => some (testEvent shared event handle timeout caller)
      | none => none
    | .timedOut =>
      if hasTimeout timeout then
        some (.silent, shared, caller.resume timeout statusTimeout)
      else none
    | .failed => some (.silent, shared, caller.resume timeout statusUnsuccessful)
  | .joining handle timeout caller, .join =>
    match shared.guest.event handle with
    | none => some (.waited handle, shared, caller.resume timeout statusSuccess)
    | some _ => none
  | .pumping .outside _, .io (.ntReadFile _) => none
  | .pumping .outside _, .io (.ntCancelIoFile _) => none
  | .pumping inner wait, .io move =>
    match Keyboard.act beyond shared inner move with
    | some (effect, after, next) =>
      some (ofKeyboard shared effect, after,
        match next with
        | .outside => .scanning wait 0 wait.objects
        | next => .pumping next wait)
    | none => none
  | .scanning wait position (handle :: rest), .check =>
    match shared.guest.event handle with
    | some event =>
      match Sync.check event with
      | some consumed =>
        some (.waited handle, putEvent shared handle consumed, .returning (.wait0 position))
      | none => some (.silent, shared, .scanning wait (position + 1) rest)
    | none =>
      match object handle with
      | .null => some (.silent, shared, .scanning wait (position + 1) rest)
      | _ => some (.silent, shared, .entering handle (some (-1)) (.any wait position rest))
  | .scanning wait _ [], .decide expired =>
    if hasTimeout wait.timeout then
      some (.silent, shared,
        if expired then .returning (.status statusTimeout) else .pumping .outside wait)
    else if wait.timeout = some 0 then
      some (.silent, shared, .returning (.status statusTimeout))
    else some (.silent, shared, .pumping .outside wait)
  | .returning result, .leave => some (.returned result, shared, .io .outside)
  | _, _ => none

/-- No thread is in a call. -/
def begin (Thread : Type) (guest : Keyboard.Guest) : Threads Thread Shared Place where
  shared := (Keyboard.begin Thread guest).shared
  place _ := .io .outside

/-! ### What a step does to the events -/

/-- A step that may change the event of a handle. -/
def Effect.touches (handle : Pointer) : Effect → Prop
  | .set other _ | .reset other _ | .waited other => other = handle
  | .silent | .called _ | .returned _ => False

/-- What the steps do to the events of the handles. -/
inductive EventStep (before : Pointer → Option Event) :
    Effect → (Pointer → Option Event) → Prop
  | none {effect : Effect} (untouched : ∀ handle, ¬ effect.touches handle) :
      EventStep before effect before
  | set {handle : Pointer} {event : Event} (found : before handle = some event) :
      EventStep before (.set handle event.signaled)
        (Function.update before handle (some (ntSetEvent event).1))
  | reset {handle : Pointer} {event : Event} (found : before handle = some event) :
      EventStep before (.reset handle event.signaled)
        (Function.update before handle (some (ntResetEvent event).1))
  | waited {handle : Pointer} {event : Event} (found : before handle = some event)
      (signaled : event.signaled ≠ 0) :
      EventStep before (.waited handle) (Function.update before handle (some (consume event)))
  | waitedOther {handle : Pointer} (found : before handle = Option.none) :
      EventStep before (.waited handle) before

theorem check_eq_some {event consumed : Event} (checked : check event = some consumed) :
    event.signaled ≠ 0 ∧ consumed = consume event := by
  rw [check] at checked
  split at checked
  · next signaled => exact ⟨signaled, (Option.some.inj checked).symm⟩
  · exact nomatch checked

theorem eventStep_ofKeyboard {beyond : UInt8} {shared after : Shared}
    {place next : Keyboard.Place} {move : Keyboard.Move} {effect : Keyboard.Effect}
    (step : Keyboard.act beyond shared place move = some (effect, after, next)) :
    EventStep shared.guest.event (ofKeyboard shared effect) after.guest.event := by
  rcases Keyboard.event_of_act step with ⟨purpose, handle, rfl, guest⟩ | ⟨other, event⟩
  · rw [guest]
    cases found : shared.guest.event handle with
    | none =>
      have same : Function.update shared.guest.event handle
          ((shared.guest.event handle).map fun event => (ntSetEvent event).1) =
          shared.guest.event := by
        rw [found, Option.map_none, ← found, Function.update_eq_self]
      rw [ofKeyboard, found, Keyboard.Write.apply, same]
      exact .none fun _ touches => touches
    | some event =>
      rw [ofKeyboard, found, Keyboard.Write.apply, found]
      exact .set found
  · rw [event]
    refine .none fun handle touches => ?_
    rw [ofKeyboard.eq_def] at touches
    split at touches
    · next purpose handle => exact other purpose handle rfl
    · exact touches

theorem eventStep_testEvent {shared : Shared} {event : Event} {handle : Pointer}
    (found : shared.guest.event handle = some event) (timeout : Option Int64)
    (caller : Caller) :
    EventStep shared.guest.event (testEvent shared event handle timeout caller).1
      (testEvent shared event handle timeout caller).2.1.guest.event := by
  rw [testEvent]
  split
  · next consumed checked =>
    obtain ⟨signaled, rfl⟩ := check_eq_some checked
    exact .waited found signaled
  · exact .none fun _ touches => touches

theorem act_inj {effect effect' : Effect} {shared shared' : Shared} {place place' : Place}
    (same : some (effect, shared, place) = some (effect', shared', place')) :
    effect = effect' ∧ shared = shared' ∧ place = place' := by
  simpa only [Option.some.injEq, Prod.mk.injEq] using same

/-! ### Where a step leads -/

/-- The object a thread waits for in `NtWaitForSingleObject`. -/
def Place.waitsFor : Place → Option (Pointer × Option Int64 × Caller)
  | .entering handle timeout caller | .sleeping handle timeout caller
  | .joining handle timeout caller => some (handle, timeout, caller)
  | _ => none

/-- All that the keyboard calls do to events: an `NtSetEvent`, or nothing. -/
def Effect.signals : Effect → Prop
  | .silent | .set _ _ => True
  | _ => False

/-- The ways from place to place, with what happens on them. -/
inductive Passes : Place → Effect → Place → Prop
  | io {inner next : Keyboard.Place} {effect : Effect} (other : ∀ call, effect ≠ .called call)
      (unfinished : ∀ result, effect ≠ .returned result) :
      Passes (.io inner) effect (.io next)
  | called (call : Call) : Passes (.io .outside) (.called call) call.start
  | succeeds {place : Place} {handle : Pointer} {timeout : Option Int64} {caller : Caller}
      (waits : place.waitsFor = some (handle, timeout, caller)) :
      Passes place (.waited handle) (caller.resume timeout statusSuccess)
  | fails {place : Place} {handle : Pointer} {timeout : Option Int64} {caller : Caller}
      (waits : place.waitsFor = some (handle, timeout, caller)) {status : Status}
      (failure : status ≠ statusSuccess) : Passes place .silent (caller.resume timeout status)
  | stays {place next : Place} (waits : place.waitsFor.isSome)
      (same : next.waitsFor = place.waitsFor) : Passes place .silent next
  | pumps {inner next : Keyboard.Place} {wait : AnyWait} {effect : Effect}
      (signals : effect.signals) : Passes (.pumping inner wait) effect (.pumping next wait)
  | pumped {inner : Keyboard.Place} {wait : AnyWait} {effect : Effect}
      (signals : effect.signals) :
      Passes (.pumping inner wait) effect (.scanning wait 0 wait.objects)
  | finds {wait : AnyWait} {position : Nat} {handle : Pointer} {rest : List Pointer} :
      Passes (.scanning wait position (handle :: rest)) (.waited handle)
        (.returning (.wait0 position))
  | skips {wait : AnyWait} {position : Nat} {handle : Pointer} {rest : List Pointer} :
      Passes (.scanning wait position (handle :: rest)) .silent
        (.scanning wait (position + 1) rest)
  | asks {wait : AnyWait} {position : Nat} {handle : Pointer} {rest : List Pointer} :
      Passes (.scanning wait position (handle :: rest)) .silent
        (.entering handle (some (-1)) (.any wait position rest))
  | expires {wait : AnyWait} {position : Nat} :
      Passes (.scanning wait position []) .silent (.returning (.status statusTimeout))
  | again {wait : AnyWait} {position : Nat} :
      Passes (.scanning wait position []) .silent (.pumping .outside wait)
  | leaves {result : Result} : Passes (.returning result) (.returned result) (.io .outside)

theorem signals_ofKeyboard (shared : Shared) (effect : Keyboard.Effect) :
    (ofKeyboard shared effect).signals := by
  rw [ofKeyboard.eq_def]
  split
  · split <;> trivial
  · trivial

theorem passes_testEvent {shared : Shared} {place : Place} {event : Event} {handle : Pointer}
    {timeout : Option Int64} {caller : Caller}
    (waits : place.waitsFor = some (handle, timeout, caller)) :
    Passes place (testEvent shared event handle timeout caller).1
      (testEvent shared event handle timeout caller).2.2 := by
  rw [testEvent]
  split
  · exact .succeeds waits
  · exact .stays (by rw [waits]; rfl) (by rw [waits]; rfl)

/-- Every step of a thread is one of the steps of the events, and goes one of the ways. -/
theorem eventStep_of_act {beyond : UInt8} {object : Pointer → Object} {shared after : Shared}
    {place next : Place} {move : Move} {effect : Effect}
    (step : act beyond object shared place move = some (effect, after, next)) :
    EventStep shared.guest.event effect after.guest.event ∧ Passes place effect next := by
  have silent : EventStep shared.guest.event .silent shared.guest.event :=
    .none fun _ touches => touches
  rw [act.eq_def] at step
  split at step
  case h_1 handle =>
    split at step
    · next event found =>
      obtain ⟨rfl, rfl, rfl⟩ := act_inj step
      exact ⟨.set found, .io (fun _ same => nomatch same) (fun _ same => nomatch same)⟩
    · obtain ⟨rfl, rfl, rfl⟩ := act_inj step
      exact ⟨silent, .io (fun _ same => nomatch same) (fun _ same => nomatch same)⟩
  case h_2 handle =>
    split at step
    · next event found =>
      obtain ⟨rfl, rfl, rfl⟩ := act_inj step
      exact ⟨.reset found, .io (fun _ same => nomatch same) (fun _ same => nomatch same)⟩
    · obtain ⟨rfl, rfl, rfl⟩ := act_inj step
      exact ⟨silent, .io (fun _ same => nomatch same) (fun _ same => nomatch same)⟩
  case h_3 call =>
    obtain ⟨rfl, rfl, rfl⟩ := act_inj step
    exact ⟨.none fun _ touches => touches, .called call⟩
  case h_4 => exact nomatch step
  case h_5 inner move _ =>
    split at step
    · next effect after next inside =>
      obtain ⟨rfl, rfl, rfl⟩ := act_inj step
      have signals := signals_ofKeyboard shared effect
      refine ⟨eventStep_ofKeyboard inside, .io (fun call same => ?_) fun result same => ?_⟩
      · rw [same] at signals
        exact signals
      · rw [same] at signals
        exact signals
    · exact nomatch step
  case h_6 handle timeout caller =>
    split at step
    · next event found =>
      obtain ⟨rfl, rfl, rfl⟩ := act_inj step
      exact ⟨eventStep_testEvent found timeout caller, passes_testEvent rfl⟩
    · next found =>
      split at step
      · obtain ⟨rfl, rfl, rfl⟩ := act_inj step
        exact ⟨silent, .fails rfl (by decide)⟩
      · obtain ⟨rfl, rfl, rfl⟩ := act_inj step
        exact ⟨.waitedOther found, .succeeds rfl⟩
      · obtain ⟨rfl, rfl, rfl⟩ := act_inj step
        exact ⟨silent, .stays rfl rfl⟩
      · obtain ⟨rfl, rfl, rfl⟩ := act_inj step
        exact ⟨silent, .fails rfl (by decide)⟩
  case h_7 handle timeout caller wake =>
    split at step
    · split at step
      · next event found =>
        obtain ⟨rfl, rfl, rfl⟩ := act_inj step
        exact ⟨eventStep_testEvent found timeout caller, passes_testEvent rfl⟩
      · exact nomatch step
    · split at step
      · obtain ⟨rfl, rfl, rfl⟩ := act_inj step
        exact ⟨silent, .fails rfl (by decide)⟩
      · exact nomatch step
    · obtain ⟨rfl, rfl, rfl⟩ := act_inj step
      exact ⟨silent, .fails rfl (by decide)⟩
  case h_8 handle timeout caller =>
    split at step
    · next found =>
      obtain ⟨rfl, rfl, rfl⟩ := act_inj step
      exact ⟨.waitedOther found, .succeeds rfl⟩
    · exact nomatch step
  case h_9 => exact nomatch step
  case h_10 => exact nomatch step
  case h_11 inner wait move _ _ =>
    split at step
    · next effect after next inside =>
      obtain ⟨rfl, rfl, rfl⟩ := act_inj step
      refine ⟨eventStep_ofKeyboard inside, ?_⟩
      cases next with
      | outside => exact .pumped (signals_ofKeyboard shared effect)
      | polling | reading | parking | taking | writing =>
        exact .pumps (signals_ofKeyboard shared effect)
    · exact nomatch step
  case h_12 wait position handle rest =>
    split at step
    · next event found =>
      split at step
      · next consumed checked =>
        obtain ⟨rfl, rfl, rfl⟩ := act_inj step
        obtain ⟨signaled, rfl⟩ := check_eq_some checked
        exact ⟨.waited found signaled, .finds⟩
      · obtain ⟨rfl, rfl, rfl⟩ := act_inj step
        exact ⟨silent, .skips⟩
    · split at step
      · obtain ⟨rfl, rfl, rfl⟩ := act_inj step
        exact ⟨silent, .skips⟩
      · obtain ⟨rfl, rfl, rfl⟩ := act_inj step
        exact ⟨silent, .asks⟩
  case h_13 wait position expired =>
    split at step
    · obtain ⟨rfl, rfl, rfl⟩ := act_inj step
      cases expired with
      | true => exact ⟨silent, .expires⟩
      | false => exact ⟨silent, .again⟩
    · split at step
      · obtain ⟨rfl, rfl, rfl⟩ := act_inj step
        exact ⟨silent, .expires⟩
      · obtain ⟨rfl, rfl, rfl⟩ := act_inj step
        exact ⟨silent, .again⟩
  case h_14 result =>
    obtain ⟨rfl, rfl, rfl⟩ := act_inj step
    exact ⟨.none fun _ touches => touches, .leaves⟩
  case h_15 => exact nomatch step

end Nloader.Sync
