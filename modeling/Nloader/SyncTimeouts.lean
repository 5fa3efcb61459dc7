/-
This file compares the three ways to wait for one event while no one sets it:
`NtWaitForSingleObject`, and `NtWaitForMultipleObjects` for one object with `WaitAnyObject` and
with `WaitAllObject`. They agree but for two kinds of timeouts. Zero is no timeout for
`NtWaitForSingleObject`, which goes on for ever, while the `WaitAnyObject` wait takes it as a poll.
And a relative timeout that overflows can come to a deadline with negative nanoseconds, which the
condition variable refuses and the comparison with the clock does not.
-/

import Nloader.SyncLoops

namespace Nloader.Sync

open Nloader.Events Rounds

/-! ### The system's answers -/

/-- A deadline that `pthread_cond_timedwait` accepts. -/
def Valid (deadline : Timespec) : Prop :=
  0 ≤ deadline.tvNsec.toInt ∧ deadline.tvNsec.toInt < 1000000000

instance (deadline : Timespec) : Decidable (Valid deadline) := inferInstanceAs (Decidable (_ ∧ _))

/-- What is documented of the system: the time of day has less than a million microseconds; a
wait for the condition variable fails exactly for a deadline that is not valid, and for a valid
one comes to an end; the clock passes every deadline. -/
structure Documented (situation : Situation) : Prop where
  tvUsec : 0 ≤ situation.now.tvUsec.toInt ∧ situation.now.tvUsec.toInt < 1000000
  failed : ∀ deadline round, situation.timedWait deadline round = .failed ↔ ¬ Valid deadline
  timedOut : ∀ deadline, situation.deadline = some deadline → Valid deadline →
    ∃ round, situation.timedWait deadline round = .timedOut
  past : ∀ deadline, situation.deadline = some deadline →
    ∃ round, past (situation.clock round) deadline = true

/-! ### The law -/

/-- All three wait for ever, or all return the same status and leave the same event; with a zero
timeout none waits for ever. -/
structure Agree (situation : Situation) : Prop where
  same : (Forever (singleRound situation) ∧ Forever (anyRound situation) ∧
      Forever (allRound situation)) ∨
    ∃ result, Ends (singleRound situation) result ∧ Ends (anyRound situation) result ∧
      Ends (allRound situation) result
  zero : situation.timeout = some 0 → ¬ Forever (singleRound situation) ∧
    ¬ Forever (anyRound situation) ∧ ¬ Forever (allRound situation)

/-- The nanoseconds that a relative timeout adds to those of the time of day: the remainder of
its value, which wraps around at 64 bits. -/
def relativeNanoseconds (quadPart : Int64) : Int :=
  (Int.bmod (-quadPart.toInt * 100) (2 ^ 64)).tmod 1000000000

/-- A timeout that is not zero, and whose nanoseconds do not get negative. -/
def Plain (situation : Situation) : Prop :=
  ∀ quadPart, situation.timeout = some quadPart → quadPart ≠ 0 ∧
    (quadPart < 0 → 0 ≤ situation.now.tvUsec.toInt * 1000 + relativeNanoseconds quadPart)

/-! ### The nanoseconds of a deadline -/

theorem toInt_billion : (1000000000 : Int64).toInt = 1000000000 := by decide

/-- A number of at most 64 bits is not changed by wrapping around. -/
theorem bmod_of_small {value : Int} (low : -2000000000 ≤ value) (high : value < 2000000000) :
    value.bmod (2 ^ 64) = value := by
  apply Int.bmod_eq_of_le_mul_two
  · push_cast
    omega
  · push_cast
    omega

theorem valid_carry (tvSec : Int64) {tvNsec : Int64} (low : -1000000000 ≤ tvNsec.toInt)
    (high : tvNsec.toInt < 2000000000) : Valid (carry tvSec tvNsec) ↔ 0 ≤ tvNsec.toInt := by
  rw [carry]
  by_cases large : 1000000000 ≤ tvNsec
  · have less : (tvNsec - 1000000000).toInt = tvNsec.toInt - 1000000000 := by
      rw [Int64.toInt_sub, toInt_billion, bmod_of_small (by omega) (by omega)]
    rw [if_pos large]
    rw [Int64.le_iff_toInt_le, toInt_billion] at large
    show 0 ≤ (tvNsec - 1000000000).toInt ∧ (tvNsec - 1000000000).toInt < 1000000000 ↔ _
    rw [less]
    omega
  · rw [if_neg large]
    rw [Int64.le_iff_toInt_le, toInt_billion] at large
    show 0 ≤ tvNsec.toInt ∧ tvNsec.toInt < 1000000000 ↔ _
    omega

theorem toInt_tvNsec {now : Timeval} (tvUsec : 0 ≤ now.tvUsec.toInt ∧ now.tvUsec.toInt < 1000000)
    (offset : Int64) :
    (now.tvUsec * 1000 + offset % 1000000000).toInt =
      now.tvUsec.toInt * 1000 + offset.toInt.tmod 1000000000 := by
  have thousand : (1000 : Int64).toInt = 1000 := by decide
  have low := Int.lt_tmod_of_pos offset.toInt (show (0 : Int) < 1000000000 by decide)
  have high := Int.tmod_lt_of_pos offset.toInt (show (0 : Int) < 1000000000 by decide)
  rw [Int64.toInt_add, Int64.toInt_mul, Int64.toInt_mod, toInt_billion, thousand,
    @bmod_of_small (now.tvUsec.toInt * 1000) (by omega) (by omega),
    bmod_of_small (by omega) (by omega)]

theorem toInt_nsOffset {quadPart : Int64} (negative : quadPart < 0) (now : Timeval) :
    (nsOffset quadPart now).toInt = Int.bmod (-quadPart.toInt * 100) (2 ^ 64) := by
  have hundred : (100 : Int64).toInt = 100 := by decide
  rw [nsOffset, if_pos negative, Int64.toInt_mul, Int64.toInt_neg, hundred, Int.bmod_mul_bmod]

theorem nsOffset_nonneg {quadPart : Int64} (positive : ¬ quadPart < 0) (now : Timeval) :
    0 ≤ (nsOffset quadPart now).toInt := by
  rw [nsOffset, if_neg positive]
  simp only
  split
  · decide
  · next nonneg =>
    rw [Int64.lt_iff_toInt_lt] at nonneg
    exact not_lt.mp nonneg

/-- A deadline is valid when its timeout does not make the nanoseconds negative. -/
theorem valid_deadline {quadPart : Int64} {now : Timeval}
    (tvUsec : 0 ≤ now.tvUsec.toInt ∧ now.tvUsec.toInt < 1000000) {deadline : Timespec}
    (found : intervalToTimespec (some quadPart) now = some deadline) :
    Valid deadline ↔
      (quadPart < 0 → 0 ≤ now.tvUsec.toInt * 1000 + relativeNanoseconds quadPart) := by
  rw [intervalToTimespec] at found
  split at found
  · cases found
  · obtain rfl := Option.some.inj found
    have nanoseconds := toInt_tvNsec tvUsec (nsOffset quadPart now)
    have low := Int.lt_tmod_of_pos (nsOffset quadPart now).toInt
      (show (0 : Int) < 1000000000 by decide)
    have high := Int.tmod_lt_of_pos (nsOffset quadPart now).toInt
      (show (0 : Int) < 1000000000 by decide)
    rw [valid_carry _ (by omega) (by omega), nanoseconds]
    by_cases negative : quadPart < 0
    · rw [toInt_nsOffset negative, relativeNanoseconds]
      exact ⟨fun nonneg _ => nonneg, fun nonneg => nonneg negative⟩
    · have rest := Int.tmod_nonneg 1000000000 (nsOffset_nonneg negative now)
      exact ⟨fun _ less => absurd less negative, fun _ => by omega⟩

/-! ### How the loops end -/

section

variable {situation : Situation}

/-- Without a deadline a wait for one object does not end. -/
theorem single_forever (zero : situation.event.signaled = 0)
    (never : situation.deadline = none) : Forever (singleRound situation) := by
  intro round
  rw [singleRound, check_of_not_signaled zero, Situation.wake, never]

theorem any_forever (zero : situation.event.signaled = 0) (never : situation.timeout = none) :
    Forever (anyRound situation) := by
  intro round
  have deadline : situation.deadline = none := by rw [Situation.deadline, never]; rfl
  rw [anyRound, check_of_not_signaled zero, deadline, never]
  rfl

/-- A zero timeout is a poll for a `WaitAnyObject` wait. -/
theorem any_polls (zero : situation.event.signaled = 0) (poll : situation.timeout = some 0) :
    Ends (anyRound situation) (statusTimeout, situation.event) := by
  have deadline : situation.deadline = none := by rw [Situation.deadline, poll]; rfl
  refine ends_of_first ?_
  rw [anyRound, check_of_not_signaled zero, deadline]
  exact if_pos poll

/-- A `WaitAnyObject` wait times out when the clock has passed its deadline. -/
theorem any_timesOut (documented : Documented situation) (zero : situation.event.signaled = 0)
    {deadline : Timespec} (found : situation.deadline = some deadline) :
    Ends (anyRound situation) (statusTimeout, situation.event) := by
  have round_eq : ∀ round, anyRound situation round =
      if past (situation.clock round) deadline then some (statusTimeout, situation.event)
      else none := by
    intro round
    rw [anyRound, check_of_not_signaled zero, found]
  obtain ⟨round, passed⟩ := documented.past deadline found
  refine ends_of_exists ⟨round, ?_⟩ fun round other ends => ?_
  · rw [round_eq, if_pos passed]
  · rw [round_eq] at ends
    split at ends
    · exact (Option.some.inj ends).symm
    · cases ends

/-- A wait for one object times out at a valid deadline. -/
theorem single_timesOut (documented : Documented situation) (zero : situation.event.signaled = 0)
    {deadline : Timespec} (found : situation.deadline = some deadline) (valid : Valid deadline) :
    Ends (singleRound situation) (statusTimeout, situation.event) := by
  obtain ⟨round, wakes⟩ := documented.timedOut deadline found valid
  refine ends_of_exists ⟨round, ?_⟩ fun round other ends => ?_
  · rw [singleRound, check_of_not_signaled zero, Situation.wake, found]
    simp only [wakes]
  · rw [singleRound, check_of_not_signaled zero, Situation.wake, found] at ends
    simp only at ends
    split at ends
    · cases ends
    · exact (Option.some.inj ends).symm
    · next failed => exact absurd valid ((documented.failed deadline round).mp failed)

/-- A wait for one object fails with a deadline that is not valid. -/
theorem single_fails (documented : Documented situation) (zero : situation.event.signaled = 0)
    {deadline : Timespec} (found : situation.deadline = some deadline)
    (invalid : ¬ Valid deadline) :
    Ends (singleRound situation) (statusUnsuccessful, situation.event) := by
  refine ends_of_first ?_
  rw [singleRound, check_of_not_signaled zero, Situation.wake, found]
  simp only [(documented.failed deadline 0).mpr invalid]

/-! ### The three waits -/

/-- The three waits agree when the two loops do. -/
theorem agree_of_same
    (same : Forever (singleRound situation) ∧ Forever (anyRound situation) ∧
        situation.timeout ≠ some 0 ∨
      ∃ result, Ends (singleRound situation) result ∧ Ends (anyRound situation) result) :
    Agree situation := by
  have all := allRound_eq situation
  rcases same with ⟨single, any, other⟩ | ⟨result, single, any⟩
  · refine ⟨.inl ⟨single, any, ?_⟩, fun poll => absurd poll other⟩
    rw [all]
    exact single
  · refine ⟨.inr ⟨result, single, any, ?_⟩, fun _ => ⟨single.not_forever, any.not_forever, ?_⟩⟩
    · rw [all]
      exact single
    · rw [all]
      exact single.not_forever

/-- A timeout that is not zero and not `NULL` gives a deadline. -/
theorem exists_deadline {quadPart : Int64} (timeout : situation.timeout = some quadPart)
    (other : quadPart ≠ 0) : ∃ deadline, situation.deadline = some deadline := by
  rw [Situation.deadline, timeout, intervalToTimespec, if_neg other]
  exact ⟨_, rfl⟩

/-- The three waits agree exactly when the event is signalled, or the timeout is neither zero nor
one whose nanoseconds get negative. -/
theorem waits_agree_iff (situation : Situation) (documented : Documented situation) :
    Agree situation ↔ situation.event.signaled ≠ 0 ∨ Plain situation := by
  by_cases signaled : situation.event.signaled ≠ 0
  · obtain ⟨single, any⟩ := ends_of_signaled signaled
    exact ⟨fun _ => .inl signaled, fun _ => agree_of_same (.inr ⟨_, single, any⟩)⟩
  have zero := not_not.mp signaled
  rw [or_iff_right signaled, Plain]
  cases timeout : situation.timeout with
  | none =>
    have single : Forever (singleRound situation) :=
      single_forever zero (by rw [Situation.deadline, timeout]; rfl)
    refine ⟨fun _ _ same => (nomatch same), fun _ => agree_of_same (.inl ⟨single, ?_, ?_⟩)⟩
    · exact any_forever zero timeout
    · rw [timeout]
      exact Option.some_ne_none _ |>.symm
  | some quadPart =>
    by_cases poll : quadPart = 0
    · have single : Forever (singleRound situation) :=
        single_forever zero (by rw [Situation.deadline, timeout, poll]; rfl)
      refine ⟨fun agree => ?_, fun plain => absurd poll (plain quadPart rfl).1⟩
      exact absurd single (agree.zero (by rw [timeout, poll])).1
    · obtain ⟨deadline, found⟩ := exists_deadline timeout poll
      have any := any_timesOut documented zero found
      have valid_iff := valid_deadline documented.tvUsec
        (show intervalToTimespec (some quadPart) situation.now = some deadline by
          rw [← timeout]
          exact found)
      constructor
      · intro agree other same
        obtain rfl := Option.some.inj same
        refine ⟨poll, valid_iff.mp ?_⟩
        by_contra invalid
        have single := single_fails documented zero found invalid
        rcases agree.same with ⟨forever, _, _⟩ | ⟨result, singleEnds, anyEnds, _⟩
        · exact single.not_forever forever
        · have status : statusUnsuccessful = statusTimeout :=
            congrArg Prod.fst ((single.unique singleEnds).trans (anyEnds.unique any))
          exact absurd status (by decide)
      · intro plain
        have valid := valid_iff.mpr (plain quadPart rfl).2
        exact agree_of_same (.inr ⟨_, single_timesOut documented zero found valid, any⟩)

end

/-! ### Two timeouts -/

/-- An event that is not signalled, at the beginning of time: a wait for a valid deadline times
out at once, and a pass takes a second. -/
def atEpoch (timeout : Option Int64) : Situation where
  event := ntCreateEvent .synchronizationEvent 0
  timeout := timeout
  now := { tvSec := 0, tvUsec := 0 }
  timedWait deadline _ := if Valid deadline then .timedOut else .failed
  clock round := { tvSec := Int64.ofNat (round + 1), tvNsec := 0 }

theorem documented_atEpoch {timeout : Option Int64}
    (passes : ∀ deadline, (atEpoch timeout).deadline = some deadline →
      ∃ round, past ((atEpoch timeout).clock round) deadline = true) :
    Documented (atEpoch timeout) where
  tvUsec := show 0 ≤ (0 : Int64).toInt ∧ (0 : Int64).toInt < 1000000 by decide
  failed deadline round := by
    show (if Valid deadline then Wake.timedOut else Wake.failed) = .failed ↔ ¬ Valid deadline
    by_cases valid : Valid deadline
    · rw [if_pos valid]
      exact ⟨fun same => (nomatch same), fun invalid => absurd valid invalid⟩
    · rw [if_neg valid]
      exact ⟨fun _ => valid, fun _ => rfl⟩
  timedOut deadline _ valid := ⟨0, if_pos valid⟩
  past := passes

/-- For a timeout of two seconds the three waits agree. -/
theorem waits_agree_iff_example : Agree (atEpoch (some (-20000000))) := by
  have documented : Documented (atEpoch (some (-20000000))) := by
    refine documented_atEpoch fun deadline found => ⟨1, ?_⟩
    obtain rfl : { tvSec := 2, tvNsec := 0 } = deadline := Option.some.inj found
    decide
  refine (waits_agree_iff _ documented).mpr (.inr fun quadPart same => ?_)
  obtain rfl := Option.some.inj same
  decide

/-- For a zero timeout they do not: two wait for ever and the third returns. -/
theorem not_waits_agree :
    Documented (atEpoch (some 0)) ∧ Forever (singleRound (atEpoch (some 0))) ∧
      Forever (allRound (atEpoch (some 0))) ∧
        Ends (anyRound (atEpoch (some 0))) (statusTimeout, (atEpoch (some 0)).event) ∧
          ¬ Agree (atEpoch (some 0)) := by
  have single : Forever (singleRound (atEpoch (some 0))) := single_forever rfl rfl
  refine ⟨documented_atEpoch fun _ found => (nomatch found), single, ?_, any_polls rfl rfl,
    fun agree => (agree.zero rfl).1 single⟩
  rw [allRound_eq]
  exact single

end Nloader.Sync
