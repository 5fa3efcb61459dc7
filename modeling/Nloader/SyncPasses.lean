/-
This file follows one pass of a `WaitAnyObject` wait over its objects. Events are tested where
they stand; every other handle goes to `NtWaitForSingleObject` with a timeout that is meant as a
poll, and which its branch for threads does not look at: `pthread_join` waits for the thread.
Other threads go on while the pass is made, so that the state it finds at an object need not be
the one it found at the object before.
-/

import Nloader.SyncLoops

namespace Nloader.Sync

open Nloader.Events
open Nloader.Keyboard (Pointer Shared)

/-! ### The steps of a pass -/

/-- The steps that a thread takes at one object: they end at the next object, before the return
of the wait, or in a `pthread_join` of a thread that is still running. -/
def inspect (beyond : UInt8) (object : Pointer → Object) (shared : Shared)
    (running : Pointer → Bool) (place : Place) : Option Place :=
  match act beyond object shared place .check with
  | some (_, shared, .entering handle timeout caller) =>
    match act beyond object shared (.entering handle timeout caller) .enter with
    | some (_, shared, .joining handle timeout caller) =>
      if running handle then some (.joining handle timeout caller)
      else
        (act beyond object shared (.joining handle timeout caller) .join).map fun step =>
          step.2.2
    | step => step.map fun step => step.2.2
  | step => step.map fun step => step.2.2

/-- A pass over the objects, where each finds its own state of the events and of the threads. -/
def pass (beyond : UInt8) (object : Pointer → Object) (shared : Nat → Shared)
    (running : Nat → Pointer → Bool) (wait : AnyWait) : Nat → List Pointer → Option Place
  | position, [] => some (.scanning wait position [])
  | position, handle :: rest =>
    match inspect beyond object (shared position) (running position)
        (.scanning wait position (handle :: rest)) with
    | some (.scanning _ _ _) => pass beyond object shared running wait (position + 1) rest
    | stopped => stopped

/-! ### One object -/

/-- An object is ready: a signalled event, a file, or a thread that is not running any more. -/
def Ready (object : Pointer → Object) (shared : Shared) (running : Pointer → Bool)
    (handle : Pointer) : Prop :=
  match shared.guest.event handle with
  | some event => event.signaled ≠ 0
  | none => object handle = .file ∨ object handle = .thread ∧ running handle = false

/-- An object is a thread that is still running. -/
def Running (object : Pointer → Object) (shared : Shared) (running : Pointer → Bool)
    (handle : Pointer) : Prop :=
  shared.guest.event handle = none ∧ object handle = .thread ∧ running handle = true

section

variable {beyond : UInt8} {object : Pointer → Object} {shared : Shared}
  {running : Pointer → Bool} {wait : AnyWait} {position : Nat} {handle : Pointer}
  {rest : List Pointer}

theorem Ready.not_running (ready : Ready object shared running handle) :
    ¬ Running object shared running handle := by
  rintro ⟨other, thread, runs⟩
  rw [Ready, other] at ready
  rcases ready with file | ⟨_, ended⟩
  · rw [file] at thread
    cases thread
  · rw [runs] at ended
    cases ended

/-- The wait returns the position of an object that is ready. -/
theorem inspect_ready (ready : Ready object shared running handle) :
    inspect beyond object shared running (.scanning wait position (handle :: rest)) =
      some (.returning (.wait0 position)) := by
  unfold Ready at ready
  cases found : shared.guest.event handle with
  | some event =>
    rw [found] at ready
    simp only [inspect, act, found, check_of_signaled ready, Option.map_some]
  | none =>
    rw [found] at ready
    rcases ready with file | ⟨thread, ended⟩
    · simp only [inspect, act, found, file]
      rfl
    · simp only [inspect, act, found, thread, ended, Bool.false_eq_true, if_false,
        Option.map_some]
      rfl

/-- The wait stays at a thread that is running. -/
theorem inspect_running (runs : Running object shared running handle) :
    inspect beyond object shared running (.scanning wait position (handle :: rest)) =
      some (.joining handle (some (-1)) (.any wait position rest)) := by
  obtain ⟨other, thread, runs⟩ := runs
  simp only [inspect, act, other, thread, runs, if_true]

/-- The wait goes on behind every other object. -/
theorem inspect_passed (idle : ¬ Ready object shared running handle)
    (ended : ¬ Running object shared running handle) :
    inspect beyond object shared running (.scanning wait position (handle :: rest)) =
      some (.scanning wait (position + 1) rest) := by
  unfold Ready at idle
  cases found : shared.guest.event handle with
  | some event =>
    rw [found] at idle
    simp only [inspect, act, found, check_of_not_signaled (not_not.mp idle), Option.map_some]
  | none =>
    rw [found] at idle
    cases kind : object handle with
    | null => simp only [inspect, act, found, kind, Option.map_some]
    | file => exact absurd (.inl kind) idle
    | thread =>
      cases runs : running handle with
      | true => exact absurd ⟨found, kind, runs⟩ ended
      | false => exact absurd (.inr ⟨kind, runs⟩) idle
    | other =>
      simp only [inspect, act, found, kind]
      rfl

end

/-! ### All objects -/

/-- What is found at the objects of a pass up to an index: none of them is ready, and none is a
running thread. -/
def PassesTo (object : Pointer → Object) (shared : Nat → Shared)
    (running : Nat → Pointer → Bool) (position : Nat) (objects : List Pointer) (stop : Nat) :
    Prop :=
  ∀ index < stop, ∀ handle, objects[index]? = some handle →
    ¬ Ready object (shared (position + index)) (running (position + index)) handle ∧
      ¬ Running object (shared (position + index)) (running (position + index)) handle

/-- The three ends of a pass. -/
inductive PassEnds (object : Pointer → Object) (shared : Nat → Shared)
    (running : Nat → Pointer → Bool) (wait : AnyWait) (position : Nat) (objects : List Pointer) :
    Option Place → Prop
  | ready (index : Nat) (handle : Pointer) (stands : objects[index]? = some handle)
      (ready : Ready object (shared (position + index)) (running (position + index)) handle)
      (passed : PassesTo object shared running position objects index) :
      PassEnds object shared running wait position objects
        (some (.returning (.wait0 (position + index))))
  | joining (index : Nat) (handle : Pointer) (caller : Caller)
      (stands : objects[index]? = some handle)
      (runs : Running object (shared (position + index)) (running (position + index)) handle)
      (passed : PassesTo object shared running position objects index) :
      PassEnds object shared running wait position objects
        (some (.joining handle (some (-1)) caller))
  | passed (passed : PassesTo object shared running position objects objects.length) :
      PassEnds object shared running wait position objects
        (some (.scanning wait (position + objects.length) []))

section

variable {beyond : UInt8} {object : Pointer → Object} {shared : Nat → Shared}
  {running : Nat → Pointer → Bool} {wait : AnyWait}

theorem passesTo_zero (position : Nat) (objects : List Pointer) :
    PassesTo object shared running position objects 0 :=
  fun _ less => absurd less (Nat.not_lt_zero _)

/-- One object more is passed. -/
theorem PassesTo.cons {position stop : Nat} {handle : Pointer} {rest : List Pointer}
    (idle : ¬ Ready object (shared position) (running position) handle)
    (ended : ¬ Running object (shared position) (running position) handle)
    (passed : PassesTo object shared running (position + 1) rest stop) :
    PassesTo object shared running position (handle :: rest) (stop + 1) := by
  intro index less other stands
  cases index with
  | zero =>
    cases stands
    exact ⟨idle, ended⟩
  | succ index =>
    rw [List.getElem?_cons_succ] at stands
    have found := passed index (Nat.lt_of_succ_lt_succ less) other stands
    rwa [Nat.add_assoc, Nat.add_comm 1] at found

theorem pass_ends (objects : List Pointer) :
    ∀ position, PassEnds object shared running wait position objects
      (pass beyond object shared running wait position objects) := by
  induction objects with
  | nil => exact fun position => .passed (passesTo_zero position [])
  | cons handle rest inductionHypothesis =>
    intro position
    rw [pass]
    by_cases ready : Ready object (shared position) (running position) handle
    · rw [inspect_ready ready]
      exact .ready 0 handle rfl ready (passesTo_zero _ _)
    · by_cases runs : Running object (shared position) (running position) handle
      · rw [inspect_running runs]
        exact .joining 0 handle _ rfl runs (passesTo_zero _ _)
      · rw [inspect_passed ready runs]
        have later := inductionHypothesis (position + 1)
        dsimp only
        generalize pass beyond object shared running wait (position + 1) rest = place at later ⊢
        cases later with
        | ready index other stands found passed =>
          rw [Nat.add_assoc, Nat.add_comm 1] at found ⊢
          exact .ready (index + 1) other stands found (passed.cons ready runs)
        | joining index other caller stands found passed =>
          rw [Nat.add_assoc, Nat.add_comm 1] at found
          exact .joining (index + 1) other caller stands found (passed.cons ready runs)
        | passed passed =>
          rw [Nat.add_assoc, Nat.add_comm 1]
          exact .passed (passed.cons ready runs)

end

/-! ### The law -/

/-- The pass makes no wait for a running thread; and where an event of the objects is signalled
during the whole of it, the wait returns the position of an object that was ready. -/
structure PassSound (beyond : UInt8) (object : Pointer → Object) (shared : Nat → Shared)
    (running : Nat → Pointer → Bool) (wait : AnyWait) : Prop where
  bounded : ∀ handle timeout caller,
    pass beyond object shared running wait 0 wait.objects ≠ some (.joining handle timeout caller)
  returns : (∃ handle ∈ wait.objects, ∀ moment < wait.objects.length, ∃ event,
      (shared moment).guest.event handle = some event ∧ event.signaled ≠ 0) →
    ∃ index handle, wait.objects[index]? = some handle ∧
      pass beyond object shared running wait 0 wait.objects =
        some (.returning (.wait0 index)) ∧
      Ready object (shared index) (running index) handle

/-- A pass is sound exactly where an object that is ready stands before every thread that is
still running. -/
theorem pass_sound_iff (beyond : UInt8) (object : Pointer → Object) (shared : Nat → Shared)
    (running : Nat → Pointer → Bool) (wait : AnyWait) :
    PassSound beyond object shared running wait ↔
      ∀ index handle, wait.objects[index]? = some handle →
        Running object (shared index) (running index) handle →
          ∃ earlier < index, ∃ other, wait.objects[earlier]? = some other ∧
            Ready object (shared earlier) (running earlier) other := by
  have ends := @pass_ends beyond object shared running wait wait.objects 0
  generalize result : pass beyond object shared running wait 0 wait.objects = place at ends
  cases ends with
  | ready index handle stands ready passed =>
    rw [Nat.zero_add] at ready result
    refine ⟨fun _ later other found runs => ?_, fun _ => ⟨?_, fun _ => ?_⟩⟩
    · refine ⟨index, ?_, handle, stands, ready⟩
      by_contra notAfter
      rcases Nat.lt_or_eq_of_le (Nat.le_of_not_lt notAfter) with before | same
      · have notRunning := (passed later before other found).2
        rw [Nat.zero_add] at notRunning
        exact notRunning runs
      · subst same
        rw [stands] at found
        cases found
        exact ready.not_running runs
    · rw [result]
      exact nofun
    · exact ⟨index, handle, stands, result, ready⟩
  | joining index handle caller stands runs passed =>
    rw [Nat.zero_add] at runs
    refine iff_of_false (fun sound => sound.bounded _ _ _ result) fun first => ?_
    obtain ⟨earlier, before, other, found, ready⟩ := first index handle stands runs
    have idle := (passed earlier before other found).1
    rw [Nat.zero_add] at idle
    exact idle ready
  | passed passed =>
    have within : ∀ {index : Nat} {handle : Pointer}, wait.objects[index]? = some handle →
        ¬ Ready object (shared index) (running index) handle ∧
          ¬ Running object (shared index) (running index) handle := by
      intro index handle stands
      obtain ⟨less, _⟩ := List.getElem?_eq_some_iff.mp stands
      have found := passed index less handle stands
      rwa [Nat.zero_add] at found
    refine ⟨fun _ index handle stands runs => absurd runs (within stands).2, fun _ => ⟨?_, ?_⟩⟩
    · rw [result]
      exact nofun
    · rintro ⟨handle, member, signaled⟩
      obtain ⟨index, stands⟩ := List.mem_iff_getElem?.mp member
      obtain ⟨less, _⟩ := List.getElem?_eq_some_iff.mp stands
      obtain ⟨event, found, nonzero⟩ := signaled index less
      refine absurd ?_ (within stands).1
      rw [Ready, found]
      exact nonzero

/-- Handle 1 is of a thread. -/
def threadAt1 (handle : Pointer) : Object := if handle = 1 then .thread else .null

/-- The event of handle 40 is signalled. -/
def signaledAt40 : Shared :=
  putEvent (begin Unit .zeros).shared 40 (ntCreateEvent .notificationEvent 1)

/-- A running thread before an event that is signalled all the time: the pass waits for the
thread. -/
theorem not_pass_sound :
    (∀ running : Nat → Pointer → Bool, (∀ moment, running moment 1 = true) →
      pass 0 threadAt1 (fun _ => signaledAt40) running ⟨[1, 40], none⟩ 0 [1, 40] =
        some (.joining 1 (some (-1)) (.any ⟨[1, 40], none⟩ 0 [40]))) ∧
      ¬ PassSound 0 threadAt1 (fun _ => signaledAt40) (fun _ _ => true) ⟨[1, 40], none⟩ := by
  refine ⟨fun running runs => ?_, fun sound => sound.bounded _ _ _ rfl⟩
  rw [pass, inspect_running ⟨rfl, rfl, runs 0⟩]

end Nloader.Sync
