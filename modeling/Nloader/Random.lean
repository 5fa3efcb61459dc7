/-
This file models `src/libs/ntdll/random.c`. The numbers that `RtlRandom` and `RtlRandomEx` give
are shuffled by a table that both share: a number that is drawn takes the place of one that was
drawn earlier, which is given in its stead. So what a run of calls gives, with what is in the
table then, is what was in the table with what was drawn, every number as often.

The product and the sum of a draw wrap at 32 bits before the remainder is taken. As the factor is
odd they are a permutation of the seeds, so that every number but two is drawn from two seeds.
-/

import Mathlib.Data.List.Perm.Basic
import Mathlib.Data.Set.Card
import Mathlib.Tactic

namespace Nloader.Random

/-! ### The functions -/

/-- `MAXLONG`, the divisor in all three functions. -/
def maxLong : UInt32 := 0x7fffffff

/-- The literals of `SavedValue`. -/
def savedEntries : List UInt32 := [
   0x4c8bc0aa, 0x4c022957, 0x2232827a, 0x2f1e7626, 0x7f8bdafb, 0x5c37d02a, 0x0ab48f72,
   0x2f0c4ffa, 0x290e1954, 0x6b635f23, 0x5d3885c0, 0x74b49ff8, 0x5155fa54, 0x6214ad3f,
   0x111e9c29, 0x242a3a09, 0x75932ae1, 0x40ac432e, 0x54f7ba7a, 0x585ccbd5, 0x6df5c727,
   0x0374dad1, 0x7112b3f1, 0x735fc311, 0x404331a9, 0x74d97781, 0x64495118, 0x323e04be,
   0x5974b425, 0x4862e393, 0x62389c1d, 0x28a68b82, 0x0f95da37, 0x7a50bbc6, 0x09b0091c,
   0x22cdb7b4, 0x4faaed26, 0x66417ccd, 0x189e4bfa, 0x1ce4e8dd, 0x5274c742, 0x3bdcf4dc,
   0x2d94e907, 0x32eac016, 0x26d33ca3, 0x60415a8a, 0x31f57880, 0x68c8aa52, 0x23eb16da,
   0x6204f4a1, 0x373927c1, 0x0d24eb7c, 0x06dd7379, 0x2b3be507, 0x0f9c55b1, 0x2c7925eb,
   0x36d67c9a, 0x42f831d9, 0x5e3961cb, 0x65d637a8, 0x24bb3820, 0x4d08e33d, 0x2188754f,
   0x147e409e, 0x6a9620a0, 0x62e26657, 0x7bd8ce81, 0x11da0abb, 0x5f9e7b50, 0x23e444b6,
   0x25920c78, 0x5fc894f0, 0x5e338cbb, 0x404237fd, 0x1d60f80f, 0x320a1743, 0x76013d2b,
   0x070294ee, 0x695e243b, 0x56b177fd, 0x752492e1, 0x6decd52f, 0x125f5219, 0x139d2e78,
   0x1898d11e, 0x2f7ee785, 0x4db405d8, 0x1a028a35, 0x63f6f323, 0x1f6d0078, 0x307cfd67,
   0x3f32a78a, 0x6980796c, 0x462b3d83, 0x34b639f2, 0x53fce379, 0x74ba50f4, 0x1abc2c4b,
   0x5eeaeb8d, 0x335a7a0d, 0x3973dd20, 0x0462d66b, 0x159813ff, 0x1e4643fd, 0x06bc5c62,
   0x3115e3fc, 0x09101613, 0x47af2515, 0x4f11ec54, 0x78b99911, 0x3db8dd44, 0x1ec10b9b,
   0x5b5506ca, 0x773ce092, 0x567be81a, 0x5475b975, 0x7a2cde1a, 0x494536f5, 0x34737bb4,
   0x76d9750b, 0x2a1f6232, 0x2e49644d, 0x7dddcbe7, 0x500cebdb, 0x619dab9e, 0x48c626fe,
   0x1cda3193, 0x52dabe9d]

/-- `SavedValue`: 128 numbers below `MAXLONG`. -/
structure SavedValue where
  values : List UInt32
  size : values.length = 128
  small : ∀ value ∈ values, value < maxLong

theorem savedEntries_small (value : UInt32) (member : value ∈ savedEntries) : value < maxLong := by
  have all : (savedEntries.all fun value => decide (value < maxLong)) = true := by decide +kernel
  exact of_decide_eq_true (List.all_eq_true.mp all value member)

/-- `SavedValue` as it is at the start. -/
def SavedValue.start : SavedValue := ⟨savedEntries, rfl, savedEntries_small⟩

/-- `(seed * 0x7fffffed + 0x7fffffc3) % 0x7fffffff`. -/
def draw (seed : UInt32) : UInt32 := (seed * 0x7fffffed + 0x7fffffc3) % maxLong

theorem draw_lt (seed : UInt32) : draw seed < maxLong :=
  UInt32.lt_iff_toNat_lt.mpr ((UInt32.toNat_mod _ _).trans_lt (Nat.mod_lt _ (by decide)))

/-- `*Seed & 0x7f`. -/
def position (seed : UInt32) : Nat := (seed &&& 0x7f).toNat

theorem position_lt (seed : UInt32) : position seed < 128 := by
  unfold position
  rw [UInt32.toNat_and]
  exact Nat.and_lt_two_pow _ (n := 7) (by decide)

/-- What a call leaves: the number that it returns, and the seed that it stores. -/
structure Reply where
  result : UInt32
  seed : UInt32

/-- `SavedValue` with a number put at a position. -/
def SavedValue.put (saved : SavedValue) (pos : Nat) (rand : UInt32) (small : rand < maxLong) :
    SavedValue where
  values := saved.values.set pos rand
  size := (List.length_set ..).trans saved.size
  small value member := (List.mem_or_eq_of_mem_set member).elim (saved.small value) (· ▸ small)

/-- `RtlRandom`. -/
def rtlRandom (saved : SavedValue) (seed : UInt32) : Reply × SavedValue :=
  let rand := draw seed
  let seed := draw rand
  let pos := position seed
  ({ result := saved.values.getD pos 0, seed }, saved.put pos rand (draw_lt _))

/-- `RtlRandomEx`, which has the same body. -/
def rtlRandomEx (saved : SavedValue) (seed : UInt32) : Reply × SavedValue :=
  rtlRandom saved seed

/-- `RtlUniform`. -/
def rtlUniform (seed : UInt32) : Reply := { result := draw seed, seed := draw seed }

/-! ### Runs -/

/-- A call of one of the functions, with the seed that is passed. -/
inductive Call where
  | random (seed : UInt32)
  | randomEx (seed : UInt32)
  | uniform (seed : UInt32)

/-- What a call returns and stores, and what it leaves in the table. -/
def Call.run (saved : SavedValue) : Call → Reply × SavedValue
  | .random seed => rtlRandom saved seed
  | .randomEx seed => rtlRandomEx saved seed
  | .uniform seed => (rtlUniform seed, saved)

/-- The seeds of the calls that go through the table. -/
def Call.shuffled : Call → List UInt32
  | .random seed | .randomEx seed => [seed]
  | .uniform _ => []

/-- Calls after each other: what each one gave, and what is in the table at the end. -/
def run (saved : SavedValue) : List Call → List (Call × Reply) × SavedValue
  | [] => ([], saved)
  | call :: rest =>
    let (reply, saved) := call.run saved
    let (replies, saved) := run saved rest
    ((call, reply) :: replies, saved)

/-- The numbers that the calls through the table returned. -/
def returned (replies : List (Call × Reply)) : List UInt32 :=
  replies.flatMap fun answered => answered.1.shuffled.map fun _ => answered.2.result

/-- The numbers that the calls through the table drew. -/
def drawn (calls : List Call) : List UInt32 := (calls.flatMap Call.shuffled).map draw

/-- A call through the table gives a number of the table for the one that it draws. -/
theorem rtlRandom_shuffles (saved : SavedValue) (seed : UInt32) :
    ((rtlRandom saved seed).1.result :: (rtlRandom saved seed).2.values).Perm
      (draw seed :: saved.values) := by
  have inside : position (draw (draw seed)) < saved.values.length :=
    (position_lt _).trans_eq saved.size.symm
  have given : (rtlRandom saved seed).1.result = saved.values[position (draw (draw seed))] :=
    List.getD_eq_getElem?_getD.trans (congrArg (Option.getD · 0) (List.getElem?_eq_getElem inside))
  rw [given]
  refine ((List.set_perm_cons_eraseIdx inside (draw seed)).cons _).trans ?_
  exact (List.Perm.swap _ _ _).trans ((List.getElem_cons_eraseIdx_perm inside).cons _)

theorem rtlRandom_lt (saved : SavedValue) (seed : UInt32) :
    (rtlRandom saved seed).1.result < maxLong ∧ (rtlRandom saved seed).1.seed < maxLong := by
  refine ⟨?_, draw_lt _⟩
  have member : (rtlRandom saved seed).1.result ∈ draw seed :: saved.values :=
    (rtlRandom_shuffles saved seed).mem_iff.mp List.mem_cons_self
  rcases List.mem_cons.mp member with same | member
  · rw [same]
    exact draw_lt seed
  · exact saved.small _ member

theorem reply_lt (saved : SavedValue) (call : Call) :
    (call.run saved).1.result < maxLong ∧ (call.run saved).1.seed < maxLong := by
  cases call with
  | random seed => exact rtlRandom_lt saved seed
  | randomEx seed => exact rtlRandom_lt saved seed
  | uniform seed =>
    unfold Call.run rtlUniform
    exact ⟨draw_lt seed, draw_lt seed⟩

theorem call_shuffles (saved : SavedValue) (call : Call) :
    (call.shuffled.map (fun _ => (call.run saved).1.result) ++ (call.run saved).2.values).Perm
      (call.shuffled.map draw ++ saved.values) := by
  cases call with
  | random seed => exact rtlRandom_shuffles saved seed
  | randomEx seed =>
    unfold Call.run rtlRandomEx
    exact rtlRandom_shuffles saved seed
  | uniform seed =>
    simp only [Call.run, Call.shuffled, List.map_nil, List.nil_append]
    exact .refl _

/-- In a run of calls every number that is given and every seed that is stored is below `MAXLONG`,
and the calls through the table return, with what they leave in it, the numbers that were in it
and those that they drew, each of them as often. -/
theorem run_shuffles (saved : SavedValue) (calls : List Call) :
    (∀ answered ∈ (run saved calls).1,
      answered.2.result < maxLong ∧ answered.2.seed < maxLong) ∧
    (returned (run saved calls).1 ++ (run saved calls).2.values).Perm
      (drawn calls ++ saved.values) := by
  induction calls generalizing saved with
  | nil => exact ⟨fun _ none => absurd none List.not_mem_nil, .refl _⟩
  | cons call rest inductionHypothesis =>
    obtain ⟨small, shuffled⟩ := inductionHypothesis (call.run saved).2
    refine ⟨fun answered member => ?_, ?_⟩
    · rcases List.mem_cons.mp member with rfl | member
      · exact reply_lt saved call
      · exact small answered member
    · have first := call_shuffles saved call
      change (call.shuffled.map (fun _ => (call.run saved).1.result) ++
        returned (run (call.run saved).2 rest).1 ++ (run (call.run saved).2 rest).2.values).Perm _
      have split : drawn (call :: rest) = call.shuffled.map draw ++ drawn rest := by
        unfold drawn
        rw [List.flatMap_cons, List.map_append]
      rw [split, List.append_assoc, List.append_assoc]
      refine (shuffled.append_left _).trans ?_
      refine (List.perm_append_comm_assoc _ _ _).trans ?_
      refine (first.append_left _).trans ?_
      exact List.perm_append_comm_assoc _ _ _

/-! ### How often a number is drawn -/

/-- The seed that a sum comes from. -/
def seedOf (sum : UInt32) : UInt32 := (sum - 0x7fffffc3) * 1469330917

theorem seedOf_eq_iff (sum seed : UInt32) :
    seedOf sum = seed ↔ seed * 0x7fffffed + 0x7fffffc3 = sum := by
  have unit : (1469330917 : UInt32) * 0x7fffffed = 1 := by decide
  have unit' : (0x7fffffed : UInt32) * 1469330917 = 1 := by decide
  unfold seedOf
  constructor
  · rintro rfl
    rw [UInt32.mul_assoc, unit, UInt32.mul_one, UInt32.sub_add_cancel]
  · rintro rfl
    rw [UInt32.add_sub_cancel, UInt32.mul_assoc, unit', UInt32.mul_one]

/-- The sums of which a number is the remainder. -/
theorem mod_eq_iff (sum value : UInt32) (small : value < maxLong) :
    sum % maxLong = value ↔ sum = value ∨ sum = value + maxLong ∨
      value < 2 ∧ sum = value + 2 * maxLong := by
  have bound := sum.toNat_lt
  have small' : value.toNat < 2147483647 := UInt32.lt_iff_toNat_lt.mp small
  have one : (value + maxLong).toNat = value.toNat + 2147483647 :=
    (UInt32.toNat_add _ _).trans (Nat.mod_eq_of_lt (show value.toNat + 2147483647 < _ by omega))
  have two : (value + 2 * maxLong).toNat = (value.toNat + 4294967294) % 4294967296 :=
    UInt32.toNat_add _ _
  have few : value < 2 ↔ value.toNat < 2 := UInt32.lt_iff_toNat_lt
  have whole : (sum % maxLong).toNat = sum.toNat % 2147483647 := UInt32.toNat_mod _ _
  rw [← UInt32.toNat_inj, ← UInt32.toNat_inj, ← UInt32.toNat_inj, ← UInt32.toNat_inj, few, whole,
    one, two]
  omega

theorem add_maxLong_ne (value : UInt32) (small : value < maxLong) :
    value ≠ value + maxLong ∧
      (value < 2 → value ≠ value + 2 * maxLong ∧ value + maxLong ≠ value + 2 * maxLong) := by
  have small' : value.toNat < 2147483647 := UInt32.lt_iff_toNat_lt.mp small
  have one : (value + maxLong).toNat = value.toNat + 2147483647 :=
    (UInt32.toNat_add _ _).trans (Nat.mod_eq_of_lt (show value.toNat + 2147483647 < _ by omega))
  have two : (value + 2 * maxLong).toNat = (value.toNat + 4294967294) % 4294967296 :=
    UInt32.toNat_add _ _
  have few : value < 2 ↔ value.toNat < 2 := UInt32.lt_iff_toNat_lt
  rw [few, Ne, Ne, Ne, ← UInt32.toNat_inj, ← UInt32.toNat_inj, ← UInt32.toNat_inj, one, two]
  omega

theorem ncard_sums (value : UInt32) (small : value < maxLong) :
    {sum : UInt32 | sum % maxLong = value}.ncard = if value < 2 then 3 else 2 := by
  obtain ⟨one, two⟩ := add_maxLong_ne value small
  by_cases few : value < 2
  · have sums : {sum : UInt32 | sum % maxLong = value} =
        {value, value + maxLong, value + 2 * maxLong} := by
      ext sum
      refine (mod_eq_iff sum value small).trans ?_
      simp only [few, true_and]
      rfl
    rw [if_pos few, sums]
    exact Set.ncard_eq_three.mpr ⟨_, _, _, one, (two few).1, (two few).2, rfl⟩
  · have sums : {sum : UInt32 | sum % maxLong = value} = {value, value + maxLong} := by
      ext sum
      refine (mod_eq_iff sum value small).trans ?_
      simp only [few, false_and, or_false]
      rfl
    rw [if_neg few, sums]
    exact Set.ncard_pair one

theorem rtlUniform_eq_iff (seed value : UInt32) :
    (rtlUniform seed).result = value ↔ (seed * 0x7fffffed + 0x7fffffc3) % maxLong = value := by
  unfold rtlUniform draw
  exact Iff.rfl

/-- Over all seeds, `RtlUniform` gives every number below `MAXLONG` for two seeds, but 0 and 1 for
three. -/
theorem ncard_rtlUniform (value : UInt32) (small : value < maxLong) :
    {seed | (rtlUniform seed).result = value}.ncard = if value < 2 then 3 else 2 := by
  have injective : Function.Injective seedOf := by
    intro sum other same
    rw [← (seedOf_eq_iff sum _).mp rfl, ← (seedOf_eq_iff other _).mp rfl, same]
  have sums : {seed | (rtlUniform seed).result = value} =
      seedOf '' {sum | sum % maxLong = value} := by
    ext seed
    refine (rtlUniform_eq_iff seed value).trans ⟨fun given => ?_, ?_⟩
    · exact ⟨seed * 0x7fffffed + 0x7fffffc3, given, (seedOf_eq_iff _ _).mpr rfl⟩
    · rintro ⟨sum, remainder, back⟩
      rw [(seedOf_eq_iff sum seed).mp back]
      exact remainder
  rw [sums, Set.ncard_image_of_injective _ injective, ncard_sums value small]

/-- For example 0, which is drawn from three seeds. -/
theorem ncard_rtlUniform_zero : {seed | (rtlUniform seed).result = 0}.ncard = 3 :=
  ncard_rtlUniform 0 (by decide)

end Nloader.Random
