/-
This file takes the waits for one event, while no one sets it, as the loops they are:
`NtWaitForSingleObject`, and `NtWaitForMultipleObjects` for one object with `WaitAnyObject` and
with `WaitAllObject`. A round of the first is a wake-up of the condition variable, a round of the
second a pass over the objects. What a loop comes to is what the steps of a thread come to that is
in that wait.
-/

import Nloader.Sync
import Nloader.Library.Rounds

namespace Nloader.Sync

open Nloader.Events Rounds Runs
open Nloader.Keyboard (Pointer Shared)

/-! ### The three loops -/

/-- An event and a timeout, with what the system answers: the time of day, how each wait of
`pthread_cond_timedwait` for a deadline ends, and the clock after each pass. -/
structure Situation where
  event : Event
  timeout : Option Int64
  now : Timeval
  timedWait : Timespec → Nat → Wake
  clock : Nat → Timespec

/-- `deadline` of the situation, when it has one. -/
def Situation.deadline (situation : Situation) : Option Timespec :=
  intervalToTimespec situation.timeout situation.now

/-- How the wait of a round ends. Without a signal `pthread_cond_wait` only wakes without
reason. -/
def Situation.wake (situation : Situation) (round : Nat) : Wake :=
  match situation.deadline with
  | some deadline => situation.timedWait deadline round
  | none => .signaled

/-- A round of the loop of `NtWaitForSingleObject`: the status and the event it leaves. -/
def singleRound (situation : Situation) (round : Nat) : Option (Status × Event) :=
  match check situation.event with
  | some consumed => some (statusSuccess, consumed)
  | none =>
    match situation.wake round with
    | .signaled => none
    | .timedOut => some (statusTimeout, situation.event)
    | .failed => some (statusUnsuccessful, situation.event)

/-- The same round inside of a `WaitAllObject` wait for the one object. -/
def allRound (situation : Situation) (round : Nat) : Option (Status × Event) :=
  (singleRound situation round).map fun result =>
    if result.1 ≠ statusSuccess then (result.1, result.2) else (statusSuccess, result.2)

/-- The comparison of the clock with the deadline. -/
def past (now deadline : Timespec) : Bool :=
  decide (deadline.tvSec < now.tvSec) ||
    (now.tvSec == deadline.tvSec && decide (deadline.tvNsec ≤ now.tvNsec))

/-- The answer of the clock after a pass. -/
def Situation.expired (situation : Situation) (round : Nat) : Bool :=
  match situation.deadline with
  | some deadline => past (situation.clock round) deadline
  | none => false

/-- A pass of a `WaitAnyObject` wait over the one object, in which `nl_kbd_pump` does not set the
event. -/
def anyRound (situation : Situation) (round : Nat) : Option (Status × Event) :=
  match check situation.event with
  | some consumed => some ((Result.wait0 0).toStatus, consumed)
  | none =>
    match situation.deadline with
    | some deadline =>
      if past (situation.clock round) deadline then some (statusTimeout, situation.event)
      else none
    | none =>
      if situation.timeout = some 0 then some (statusTimeout, situation.event) else none

/-! ### Rounds -/

/-- A wait for one object is a wait for all of it. -/
theorem allRound_eq (situation : Situation) : allRound situation = singleRound situation := by
  funext round
  rw [allRound]
  cases singleRound situation round with
  | none => rfl
  | some result =>
    rw [Option.map_some]
    by_cases failure : result.1 ≠ statusSuccess
    · rw [if_pos failure]
    · rw [if_neg failure, ← not_not.mp failure]

theorem check_of_signaled {event : Event} (signaled : event.signaled ≠ 0) :
    check event = some (consume event) := by
  rw [check, if_pos signaled]

theorem check_of_not_signaled {event : Event} (zero : event.signaled = 0) : check event = none := by
  rw [check, if_neg (not_not_intro zero)]

/-- A signalled event ends both loops in their first round. -/
theorem ends_of_signaled {situation : Situation}
    (signaled : situation.event.signaled ≠ 0) :
    Ends (singleRound situation) (statusSuccess, consume situation.event) ∧
      Ends (anyRound situation) (statusSuccess, consume situation.event) := by
  constructor
  · exact ends_of_first (by rw [singleRound, check_of_signaled signaled])
  · refine ends_of_first ?_
    rw [anyRound, check_of_signaled signaled]
    rfl

/-! ### The loops are those of a thread -/

section

variable {Thread : Type} [DecidableEq Thread] (beyond : UInt8) (object : Pointer → Object)
  {shared : Shared} {handle : Pointer} {situation : Situation} (thread : Thread)
  (place : Thread → Place)

theorem putEvent_self {event : Event} (found : shared.guest.event handle = some event) :
    putEvent shared handle event = shared := by
  rw [putEvent, ← found, Function.update_eq_self]

/-- At its beginning a wait for a signalled event succeeds. -/
theorem act_enter_signaled (found : shared.guest.event handle = some situation.event)
    (signaled : situation.event.signaled ≠ 0) (timeout : Option Int64) (caller : Caller) :
    act beyond object shared (.entering handle timeout caller) .enter =
      some (.waited handle, putEvent shared handle (consume situation.event),
        caller.resume timeout statusSuccess) := by
  simp only [act, found, testEvent, check_of_signaled signaled]

/-- For an event that is not signalled it goes to sleep. -/
theorem act_enter (found : shared.guest.event handle = some situation.event)
    (zero : situation.event.signaled = 0) (timeout : Option Int64) (caller : Caller) :
    act beyond object shared (.entering handle timeout caller) .enter =
      some (.silent, shared, .sleeping handle timeout caller) := by
  simp only [act, found, testEvent, check_of_not_signaled zero]

/-- A wake-up ends the wait, or leads back to sleep, as the round of the loop says. -/
theorem act_wake (found : shared.guest.event handle = some situation.event)
    (zero : situation.event.signaled = 0) (caller : Caller) (round : Nat) :
    act beyond object shared (.sleeping handle situation.timeout caller)
        (.wake (situation.wake round)) =
      some (.silent, shared,
        match singleRound situation round with
        | some result => caller.resume situation.timeout result.1
        | none => .sleeping handle situation.timeout caller) := by
  have timeout : situation.deadline.isSome = hasTimeout situation.timeout :=
    isSome_intervalToTimespec _ _
  rw [singleRound, check_of_not_signaled zero]
  cases wake : situation.wake round with
  | signaled => simp only [act, found, testEvent, check_of_not_signaled zero]
  | timedOut =>
    have given : hasTimeout situation.timeout = true := by
      rw [← timeout]
      cases deadline : situation.deadline with
      | none =>
        rw [Situation.wake, deadline] at wake
        cases wake
      | some deadline => rfl
    simp only [act, if_pos given]
  | failed => simp only [act]

/-- The rounds that do not end the loop leave the thread asleep. -/
theorem alone_asleep (found : shared.guest.event handle = some situation.event)
    (zero : situation.event.signaled = 0) (caller : Caller) (rounds : Nat)
    (earlier : ∀ round < rounds, singleRound situation round = none) :
    Alone (act beyond object) thread
      ⟨shared, Function.update place thread (.entering handle situation.timeout caller)⟩
      ⟨shared, Function.update place thread (.sleeping handle situation.timeout caller)⟩ := by
  induction rounds with
  | zero => exact alone_of_act (act_enter beyond object found zero _ _) thread place
  | succ round inductionHypothesis =>
    have slept := inductionHypothesis fun round less => earlier round (Nat.lt_succ_of_lt less)
    have wakes := act_wake beyond object found zero caller round
    rw [earlier round (Nat.lt_succ_self round)] at wakes
    exact slept.trans (alone_of_act wakes thread place)

/-- A round that ends with an event that is not signalled leaves it. -/
theorem event_of_singleRound (zero : situation.event.signaled = 0) {round : Nat}
    {result : Status × Event} (ends : singleRound situation round = some result) :
    result.2 = situation.event := by
  rw [singleRound, check_of_not_signaled zero] at ends
  simp only at ends
  split at ends
  · exact nomatch ends
  · rw [← Option.some.inj ends]
  · rw [← Option.some.inj ends]

/-- The steps of `NtWaitForSingleObject`, when no other thread takes one in between, come to the
result of its loop. -/
theorem alone_ntWaitForSingleObject (found : shared.guest.event handle = some situation.event)
    (caller : Caller) {result : Status × Event} (ends : Ends (singleRound situation) result) :
    Alone (act beyond object) thread
      ⟨shared, Function.update place thread (.entering handle situation.timeout caller)⟩
      ⟨putEvent shared handle result.2,
        Function.update place thread (caller.resume situation.timeout result.1)⟩ := by
  by_cases signaled : situation.event.signaled ≠ 0
  · rw [ends.unique (ends_of_signaled signaled).1]
    exact alone_of_act (act_enter_signaled beyond object found signaled _ _) thread place
  · have zero := not_not.mp signaled
    obtain ⟨last, comes, earlier⟩ := ends
    have wakes := act_wake beyond object found zero caller last
    rw [comes] at wakes
    rw [event_of_singleRound zero comes, putEvent_self found]
    exact (alone_asleep beyond object thread place found zero caller last earlier).trans
      (alone_of_act wakes thread place)

/-- Without a byte on stdin `nl_kbd_pump` only leads to the pass. -/
theorem alone_pump (shared : Shared) (wait : AnyWait) :
    Alone (act beyond object) thread
      ⟨shared, Function.update place thread (.pumping .outside wait)⟩
      ⟨shared, Function.update place thread (.scanning wait 0 wait.objects)⟩ := by
  by_cases active : shared.kbd.active = true
  · have enters : act beyond object shared (.pumping .outside wait) (.io .nlKbdPump) =
        some (.silent, shared, .pumping (.polling (.pump shared.kbd.fd)) wait) := by
      simp only [act, Keyboard.act, if_pos active, ofKeyboard]
    have polls : act beyond object shared (.pumping (.polling (.pump shared.kbd.fd)) wait)
        (.io (.poll false)) = some (.silent, shared, .scanning wait 0 wait.objects) := rfl
    exact (alone_of_act enters thread place).trans (alone_of_act polls thread place)
  · have returns : act beyond object shared (.pumping .outside wait) (.io .nlKbdPump) =
        some (.silent, shared, .scanning wait 0 wait.objects) := by
      simp only [act, Keyboard.act, if_neg active, ofKeyboard]
    exact alone_of_act returns thread place

/-- The end of a pass ends the wait, or leads to the next pass, as the round of the loop says. -/
theorem act_decide (zero : situation.event.signaled = 0) (shared : Shared)
    (objects : List Pointer) (position round : Nat) :
    act beyond object shared (.scanning ⟨objects, situation.timeout⟩ position [])
        (.decide (situation.expired round)) =
      some (.silent, shared,
        match anyRound situation round with
        | some _ => .returning (.status statusTimeout)
        | none => .pumping .outside ⟨objects, situation.timeout⟩) := by
  have timeout : situation.deadline.isSome = hasTimeout situation.timeout :=
    isSome_intervalToTimespec _ _
  rw [anyRound, check_of_not_signaled zero, Situation.expired]
  cases deadline : situation.deadline with
  | some time =>
    have given : hasTimeout situation.timeout = true := by rw [← timeout, deadline]; rfl
    simp only [act, if_pos given]
    by_cases passed : past (situation.clock round) time = true
    · simp only [if_pos passed]
    · simp only [if_neg passed]
  | none =>
    have missing : ¬ hasTimeout situation.timeout = true := by
      rw [← timeout, deadline]
      exact Bool.false_ne_true
    simp only [act, if_neg missing]
    by_cases poll : situation.timeout = some 0
    · simp only [if_pos poll]
    · simp only [if_neg poll]

/-- A pass finds an event that is not signalled, after any number of passes that have. -/
theorem alone_passes (found : shared.guest.event handle = some situation.event)
    (zero : situation.event.signaled = 0) (rounds : Nat)
    (earlier : ∀ round < rounds, anyRound situation round = none) :
    Alone (act beyond object) thread
      ⟨shared, Function.update place thread (.pumping .outside ⟨[handle], situation.timeout⟩)⟩
      ⟨shared, Function.update place thread (.scanning ⟨[handle], situation.timeout⟩ 1 [])⟩ := by
  have skips : act beyond object shared (.scanning ⟨[handle], situation.timeout⟩ 0 [handle])
      .check = some (.silent, shared, .scanning ⟨[handle], situation.timeout⟩ 1 []) := by
    simp only [act, found, check_of_not_signaled zero]
  have pass := (alone_pump beyond object thread place shared ⟨[handle], situation.timeout⟩).trans
    (alone_of_act skips thread place)
  induction rounds with
  | zero => exact pass
  | succ round inductionHypothesis =>
    have passed := inductionHypothesis fun round less => earlier round (Nat.lt_succ_of_lt less)
    have decides := act_decide beyond object zero shared [handle] 1 round
    rw [earlier round (Nat.lt_succ_self round)] at decides
    exact (passed.trans (alone_of_act decides thread place)).trans pass

/-- The steps of a `WaitAnyObject` wait for the one event come to the result of its loop. -/
theorem alone_waitAny (found : shared.guest.event handle = some situation.event)
    {result : Status × Event} (ends : Ends (anyRound situation) result) :
    ∃ final : Result, final.toStatus = result.1 ∧ Alone (act beyond object) thread
      ⟨shared, Function.update place thread (.pumping .outside ⟨[handle], situation.timeout⟩)⟩
      ⟨putEvent shared handle result.2, Function.update place thread (.returning final)⟩ := by
  by_cases signaled : situation.event.signaled ≠ 0
  · have finds : act beyond object shared (.scanning ⟨[handle], situation.timeout⟩ 0 [handle])
        .check = some (.waited handle, putEvent shared handle (consume situation.event),
          .returning (.wait0 0)) := by
      simp only [act, found, check_of_signaled signaled]
    rw [ends.unique (ends_of_signaled signaled).2]
    exact ⟨.wait0 0, rfl,
      (alone_pump beyond object thread place shared ⟨[handle], situation.timeout⟩).trans
        (alone_of_act finds thread place)⟩
  · have zero := not_not.mp signaled
    obtain ⟨last, comes, earlier⟩ := ends
    have decides := act_decide beyond object zero shared [handle] 1 last
    have result_eq : result = (statusTimeout, situation.event) := by
      rw [anyRound, check_of_not_signaled zero] at comes
      simp only at comes
      split at comes
      · split at comes
        · exact (Option.some.inj comes).symm
        · exact nomatch comes
      · split at comes
        · exact (Option.some.inj comes).symm
        · exact nomatch comes
    rw [comes] at decides
    rw [result_eq, putEvent_self found]
    exact ⟨.status statusTimeout, rfl,
      (alone_passes beyond object thread place found zero last earlier).trans
        (alone_of_act decides thread place)⟩

end

end Nloader.Sync
