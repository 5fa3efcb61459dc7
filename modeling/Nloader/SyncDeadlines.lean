/-
This file is about the deadline that `interval_to_timespec` computes. All of its arithmetic is
signed and of 64 bits: the negation of a relative interval, the factor of 100 from ticks to
nanoseconds, and the sum with the time of day. The values of these operations are taken as
integers here, next to the wrapped ones of the model; where each of them fits, the deadline is
the moment that the interval says, and each fits exactly for the intervals of some 292 years
around the time of day.
-/

import Nloader.SyncTimeouts

namespace Nloader.Sync

/-! ### The operations on integers -/

/-- The value is one of `LONGLONG`. -/
def InRange (value : Int) : Prop := -2 ^ 63 ≤ value ∧ value < 2 ^ 63

/-- `ns_offset` on integers. -/
def exactOffset (quadPart tvSec tvUsec : Int) : Int :=
  if quadPart < 0 then -quadPart * 100
  else max 0 ((quadPart - 116444736000000000 - (tvSec * 10000000 + tvUsec * 10)) * 100)

/-- The values of the operations that lead to `ns_offset`. -/
def offsetSteps (quadPart tvSec tvUsec : Int) : List Int :=
  if quadPart < 0 then [-quadPart, -quadPart * 100]
  else
    let unix100ns := quadPart - 116444736000000000
    let now100ns := tvSec * 10000000 + tvUsec * 10
    [unix100ns, tvSec * 10000000, tvUsec * 10, now100ns, unix100ns - now100ns,
      (unix100ns - now100ns) * 100]

/-- The values of the operations that lead from there to `timeout->tv_sec` and
`timeout->tv_nsec`. -/
def deadlineSteps (offset tvSec tvUsec : Int) : List Int :=
  let seconds := tvSec + offset.tdiv 1000000000
  let nanoseconds := tvUsec * 1000 + offset.tmod 1000000000
  [seconds, tvUsec * 1000, nanoseconds] ++
    if 1000000000 ≤ nanoseconds then [seconds + 1, nanoseconds - 1000000000] else []

/-- No operation of `interval_to_timespec` overflows. -/
def NoOverflow (quadPart : Int64) (now : Timeval) : Prop :=
  (∀ value ∈ offsetSteps quadPart.toInt now.tvSec.toInt now.tvUsec.toInt, InRange value) ∧
    ∀ value ∈ deadlineSteps (exactOffset quadPart.toInt now.tvSec.toInt now.tvUsec.toInt)
      now.tvSec.toInt now.tvUsec.toInt, InRange value

/-! ### Moments -/

/-- The nanoseconds of the time of day. -/
def Timeval.nanoseconds (now : Timeval) : Int :=
  now.tvSec.toInt * 1000000000 + now.tvUsec.toInt * 1000

/-- The nanoseconds of a deadline. -/
def Timespec.nanoseconds (deadline : Timespec) : Int :=
  deadline.tvSec.toInt * 1000000000 + deadline.tvNsec.toInt

/-- The moment that an interval says: one relative to the time of day, or one since 1601, which
may have passed. -/
def moment (quadPart : Int64) (now : Timeval) : Int :=
  if quadPart.toInt < 0 then now.nanoseconds + -quadPart.toInt * 100
  else max now.nanoseconds ((quadPart.toInt - 116444736000000000) * 100)

/-- What `gettimeofday` gives. -/
structure TimeOfDay (now : Timeval) : Prop where
  tvSec : 0 ≤ now.tvSec.toInt
  tvUsec : 0 ≤ now.tvUsec.toInt ∧ now.tvUsec.toInt < 1000000

/-- The deadline of an interval is normalised and the moment that the interval says, and no
operation overflows. -/
def Exact (quadPart : Int64) (now : Timeval) : Prop :=
  NoOverflow quadPart now ∧ ∃ deadline, intervalToTimespec (some quadPart) now = some deadline ∧
    Valid deadline ∧ deadline.nanoseconds = moment quadPart now

/-- The interval ends within the nanoseconds of 64 bits before or behind the time of day, and
within its seconds. -/
def Near (quadPart : Int64) (now : Timeval) : Prop :=
  if quadPart.toInt < 0 then
    -92233720368547758 ≤ quadPart.toInt ∧ moment quadPart now / 1000000000 < 2 ^ 63
  else
    -92233720368547758 ≤
        quadPart.toInt - 116444736000000000 -
          (now.tvSec.toInt * 10000000 + now.tvUsec.toInt * 10) ∧
      quadPart.toInt - 116444736000000000 -
          (now.tvSec.toInt * 10000000 + now.tvUsec.toInt * 10) ≤ 92233720368547758

/-! ### Operations that fit -/

theorem bmod_of_inRange {value : Int} (fits : InRange value) : value.bmod (2 ^ 64) = value := by
  unfold InRange at fits
  apply Int.bmod_eq_of_le_mul_two
  · push_cast
    omega
  · push_cast
    omega

variable {quadPart : Int64} {now : Timeval}

theorem exactOffset_nonneg (quadPart tvSec tvUsec : Int) :
    0 ≤ exactOffset quadPart tvSec tvUsec := by
  unfold exactOffset
  split
  · omega
  · exact le_max_left _ _

/-- Without an overflow on the way, `ns_offset` is exact. -/
theorem toInt_nsOffset_eq
    (fits : ∀ value ∈ offsetSteps quadPart.toInt now.tvSec.toInt now.tvUsec.toInt,
      InRange value) :
    (nsOffset quadPart now).toInt =
      exactOffset quadPart.toInt now.tvSec.toInt now.tvUsec.toInt := by
  have negative_iff : quadPart < 0 ↔ quadPart.toInt < 0 := Int64.lt_iff_toInt_lt
  unfold offsetSteps at fits
  unfold exactOffset
  by_cases negative : quadPart.toInt < 0
  · rw [if_pos negative] at fits ⊢
    rw [toInt_nsOffset (negative_iff.mpr negative)]
    exact bmod_of_inRange (fits _ (by simp))
  · rw [if_neg negative] at fits ⊢
    simp only [List.forall_mem_cons] at fits
    obtain ⟨unix, seconds, micros, sum, difference, product, _⟩ := fits
    have hundred : (100 : Int64).toInt = 100 := by decide
    have ten : (10 : Int64).toInt = 10 := by decide
    have million : (10000000 : Int64).toInt = 10000000 := by decide
    have ticks : ticks1601To1970.toInt = 116444736000000000 := by decide
    have unwrapped : ((quadPart - ticks1601To1970 -
        (now.tvSec * 10000000 + now.tvUsec * 10)) * 100).toInt =
        (quadPart.toInt - 116444736000000000 -
          (now.tvSec.toInt * 10000000 + now.tvUsec.toInt * 10)) * 100 := by
      rw [Int64.toInt_mul, Int64.toInt_sub, Int64.toInt_sub, Int64.toInt_add, Int64.toInt_mul,
        Int64.toInt_mul, hundred, ten, million, ticks, bmod_of_inRange unix,
        bmod_of_inRange seconds, bmod_of_inRange micros, bmod_of_inRange sum,
        bmod_of_inRange difference, bmod_of_inRange product]
    unfold nsOffset
    rw [if_neg (mt negative_iff.mp negative)]
    dsimp only
    split
    · next past =>
      rw [Int64.lt_iff_toInt_lt, unwrapped] at past
      exact (max_eq_left (le_of_lt past)).symm
    · next future =>
      rw [Int64.lt_iff_toInt_lt, unwrapped] at future
      rw [unwrapped]
      exact (max_eq_right (not_lt.mp future)).symm

/-- The carry keeps the moment. -/
theorem carry_nanoseconds {tvSec tvNsec : Int64} (low : -1000000000 ≤ tvNsec.toInt)
    (high : tvNsec.toInt < 2000000000)
    (fits : 1000000000 ≤ tvNsec.toInt → InRange (tvSec.toInt + 1)) :
    (carry tvSec tvNsec).nanoseconds = tvSec.toInt * 1000000000 + tvNsec.toInt := by
  unfold carry
  split
  · next large =>
    rw [Int64.le_iff_toInt_le, toInt_billion] at large
    have one : (1 : Int64).toInt = 1 := by decide
    rw [Timespec.nanoseconds]
    dsimp only
    rw [Int64.toInt_add, Int64.toInt_sub, toInt_billion, one, bmod_of_inRange (fits large),
      bmod_of_small (by omega) (by omega)]
    ring
  · rfl

/-- Without an overflow the deadline is exact. -/
theorem exact_of_noOverflow (time : TimeOfDay now) (nonzero : quadPart ≠ 0)
    (fits : NoOverflow quadPart now) : Exact quadPart now := by
  have offset := toInt_nsOffset_eq fits.1
  have nonneg := exactOffset_nonneg quadPart.toInt now.tvSec.toInt now.tvUsec.toInt
  have later := fits.2
  unfold deadlineSteps at later
  generalize whole : exactOffset quadPart.toInt now.tvSec.toInt now.tvUsec.toInt = exact
    at offset nonneg later
  obtain ⟨secondsFit, _, _, carryFits⟩ : InRange (now.tvSec.toInt + exact.tdiv 1000000000) ∧
      InRange (now.tvUsec.toInt * 1000) ∧
      InRange (now.tvUsec.toInt * 1000 + exact.tmod 1000000000) ∧
      (1000000000 ≤ now.tvUsec.toInt * 1000 + exact.tmod 1000000000 →
        InRange (now.tvSec.toInt + exact.tdiv 1000000000 + 1)) := by
    refine ⟨later _ (by simp), later _ (by simp), later _ (by simp), fun large => ?_⟩
    exact later _ (by simp [large])
  have nanoseconds := toInt_tvNsec time.tvUsec (nsOffset quadPart now)
  have seconds : (now.tvSec + nsOffset quadPart now / 1000000000).toInt =
      now.tvSec.toInt + exact.tdiv 1000000000 := by
    have quotient : InRange (exact.tdiv 1000000000) := by
      have small := Int.tdiv_le_self 1000000000 nonneg
      have bound := (nsOffset quadPart now).toInt_lt
      rw [offset] at bound
      have low := Int.tdiv_nonneg nonneg (show (0 : Int) ≤ 1000000000 by decide)
      unfold InRange
      omega
    rw [Int64.toInt_add, Int64.toInt_div, toInt_billion, offset, bmod_of_inRange quotient,
      bmod_of_inRange secondsFit]
  rw [offset] at nanoseconds
  have low := Int.tmod_nonneg 1000000000 nonneg
  have high := Int.tmod_lt_of_pos exact (show (0 : Int) < 1000000000 by decide)
  have usec := time.tvUsec
  refine ⟨fits, _, by rw [intervalToTimespec, if_neg nonzero], ?_, ?_⟩
  · rw [valid_carry _ (by omega) (by omega), nanoseconds]
    omega
  · rw [carry_nanoseconds (by omega) (by omega) (by rwa [nanoseconds, seconds]), nanoseconds,
      seconds]
    have parts := Int.mul_tdiv_add_tmod exact 1000000000
    have sum : (now.tvSec.toInt + exact.tdiv 1000000000) * 1000000000 +
        (now.tvUsec.toInt * 1000 + exact.tmod 1000000000) = now.nanoseconds + exact := by
      unfold Timeval.nanoseconds
      omega
    rw [sum, ← whole, exactOffset, moment, Timeval.nanoseconds]
    split
    · rfl
    · omega

/-! ### Intervals that are near -/

/-- The operations fit exactly for the intervals that are near. -/
theorem noOverflow_iff (time : TimeOfDay now) : NoOverflow quadPart now ↔ Near quadPart now := by
  obtain ⟨seconds, low, high⟩ := time
  have below := now.tvSec.toInt_lt
  have quadBelow := quadPart.toInt_lt
  have quadAbove := quadPart.le_toInt
  have nonneg := exactOffset_nonneg quadPart.toInt now.tvSec.toInt now.tvUsec.toInt
  unfold NoOverflow Near deadlineSteps moment Timeval.nanoseconds
  dsimp only
  rw [Int.tdiv_eq_ediv_of_nonneg nonneg, Int.tmod_eq_emod_of_nonneg nonneg]
  unfold offsetSteps exactOffset
  by_cases negative : quadPart.toInt < 0
  · simp only [if_pos negative]
    split <;> simp only [List.forall_mem_append, List.forall_mem_cons, List.not_mem_nil,
      false_implies, implies_true, and_true, InRange]
    · omega
    · omega
  · simp only [if_neg negative]
    split <;> simp only [List.forall_mem_append, List.forall_mem_cons, List.not_mem_nil,
      false_implies, implies_true, and_true, InRange]
    · omega
    · omega

/-- The deadline of an interval is exact, without an overflow, exactly where the interval is
near. -/
theorem exact_iff (quadPart : Int64) (now : Timeval) (nonzero : quadPart ≠ 0)
    (time : TimeOfDay now) : Exact quadPart now ↔ Near quadPart now := by
  rw [← noOverflow_iff time]
  exact ⟨fun exact => exact.1, exact_of_noOverflow time nonzero⟩

/-- 1.7 billion seconds after the beginning of 1970. -/
def exampleTime : Timeval where
  tvSec := 1700000000
  tvUsec := 250000

theorem exampleTime_timeOfDay : TimeOfDay exampleTime where
  tvSec := by decide
  tvUsec := by decide

/-- A relative interval of 1.75 seconds. -/
theorem exact_iff_exampleTime : Exact (-17500000) exampleTime ↔ Near (-17500000) exampleTime :=
  exact_iff (-17500000) exampleTime (by decide) exampleTime_timeOfDay

/-- The least interval, of some 29 thousand years, comes to the time of day. -/
theorem not_exact :
    intervalToTimespec (some Int64.minValue) exampleTime =
        some { tvSec := 1700000000, tvNsec := 250000000 } ∧
      moment Int64.minValue exampleTime = 1700000000250000000 + 922337203685477580800 ∧
      ¬ Exact Int64.minValue exampleTime := by
  refine ⟨by decide, by decide, fun exact => ?_⟩
  have near := (noOverflow_iff exampleTime_timeOfDay).mp exact.1
  rw [Near, if_pos (by decide)] at near
  exact absurd near.1 (by decide)

end Nloader.Sync
