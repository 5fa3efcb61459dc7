/-
This file is a library of loops that end in one of their rounds or go on for ever. A loop is
given by what each of its rounds comes to: a value, with which the loop ends, or nothing.

The library names nothing of the program it is used for.
-/

import Mathlib.Tactic

namespace Rounds

variable {Value : Type} {round : Nat → Option Value} {value : Value}

/-- The loop ends with a value in the first round that comes to one. -/
def Ends (round : Nat → Option Value) (value : Value) : Prop :=
  ∃ last, round last = some value ∧ ∀ earlier < last, round earlier = none

/-- No round comes to a value. -/
def Forever (round : Nat → Option Value) : Prop := ∀ index, round index = none

/-- A loop that ends in its first round. -/
theorem ends_of_first (first : round 0 = some value) : Ends round value :=
  ⟨0, first, fun _ less => absurd less (Nat.not_lt_zero _)⟩

/-- A loop ends with a value when some round comes to one and no round comes to another. -/
theorem ends_of_exists (some_round : ∃ index, round index = some value)
    (only : ∀ index other, round index = some other → other = value) : Ends round value := by
  classical
  obtain ⟨index, ends⟩ := some_round
  have comes : ∃ index, (round index).isSome := ⟨index, by rw [ends]; rfl⟩
  obtain ⟨other, found⟩ := Option.isSome_iff_exists.mp (Nat.find_spec comes)
  refine ⟨Nat.find comes, ?_, fun earlier less => ?_⟩
  · rw [found, only _ _ found]
  · exact Option.not_isSome_iff_eq_none.mp (Nat.find_min comes less)

/-- A loop ends with one value at most. -/
theorem Ends.unique {other : Value} (first : Ends round value) (second : Ends round other) :
    value = other := by
  obtain ⟨firstLast, firstValue, firstNone⟩ := first
  obtain ⟨secondLast, secondValue, secondNone⟩ := second
  rcases Nat.lt_trichotomy firstLast secondLast with less | rfl | less
  · exact nomatch firstValue.symm.trans (secondNone _ less)
  · exact Option.some.inj (firstValue.symm.trans secondValue)
  · exact nomatch secondValue.symm.trans (firstNone _ less)

/-- A loop that ends does not go on for ever. -/
theorem Ends.not_forever (ends : Ends round value) : ¬ Forever round := by
  obtain ⟨last, comes, _⟩ := ends
  exact fun forever => nomatch comes.symm.trans (forever last)

end Rounds
