/-
This file is a library of what the C standard says about `strtoul` and `strtoll`, for a `long` of 64
bits and the C locale. The subject of a string is an integer behind blanks and a sign, in a base
that is given, or found from its prefix. A value that a type cannot tell becomes the last one that
it can.

The library names nothing of the program it is used for.
-/

import Mathlib.Algebra.Order.Ring.Int
import Mathlib.Data.List.TakeWhile

namespace CStrto

/-! ### Characters -/

/-- `isspace`. -/
def isSpace (c : UInt8) : Bool := c = 0x20 ∨ 0x09 ≤ c ∧ c ≤ 0x0d

/-- What a digit or a letter stands for. -/
def digit (c : UInt8) : Option Nat :=
  if 0x30 ≤ c ∧ c ≤ 0x39 then some (c.toNat - 0x30)
  else if 0x61 ≤ c ∧ c ≤ 0x7a then some (c.toNat - 0x61 + 10)
  else if 0x41 ≤ c ∧ c ≤ 0x5a then some (c.toNat - 0x41 + 10)
  else none

/-- A character is a digit of a base. -/
def isDigitOf (base : Nat) (c : UInt8) : Bool := (digit c).any (· < base)

/-- The number that digits stand for. -/
def numberOf (base : Nat) (digits : List UInt8) : Nat :=
  digits.foldl (fun value c => base * value + (digit c).getD 0) 0

/-! ### The subject -/

/-- What is found at the beginning of a string: its sign, its magnitude, and the characters up to
its end, none if there is nothing to be found. -/
structure Subject where
  negative : Bool
  magnitude : Nat
  length : Nat

/-- A string begins with `0x` and a digit. -/
def beginsHex : List UInt8 → Bool
  | zero :: x :: c :: _ => zero = 0x30 ∧ (x = 0x78 ∨ x = 0x58) ∧ isDigitOf 16 c
  | _ => false

/-- The base of the digits and the characters in front of them. -/
def prefixed (base : Nat) (string : List UInt8) : Nat × Nat :=
  if (base = 0 ∨ base = 16) ∧ beginsHex string then (16, 2)
  else if base = 0 then (if string.head? = some 0x30 then 8 else 10, 0)
  else (base, 0)

/-- The subject of a string without blanks and sign in front of it. -/
def unsigned (base : Nat) (string : List UInt8) : Subject :=
  let (radix, start) := prefixed base string
  let digits := (string.drop start).takeWhile (isDigitOf radix)
  if digits = [] then ⟨false, 0, 0⟩
  else ⟨false, numberOf radix digits, start + digits.length⟩

/-- What is in front of a subject belongs to it, if there is one. -/
def Subject.behind (subject : Subject) (negative : Bool) (front : Nat) : Subject :=
  if subject.length = 0 then ⟨false, 0, 0⟩
  else ⟨negative, subject.magnitude, front + subject.length⟩

/-- The subject of a string. -/
def subject (base : Nat) (string : List UInt8) : Subject :=
  let blanks := (string.takeWhile isSpace).length
  match string.dropWhile isSpace with
  | 0x2b :: rest => (unsigned base rest).behind false (blanks + 1)
  | 0x2d :: rest => (unsigned base rest).behind true (blanks + 1)
  | rest => (unsigned base rest).behind false blanks

/-! ### The functions -/

/-- The bases that have a meaning. -/
def IsBase (base : Int) : Prop := base = 0 ∨ 2 ≤ base ∧ base ≤ 36

instance (base : Int) : Decidable (IsBase base) := inferInstanceAs (Decidable (_ ∨ _))

/-- `strtoul`: the value, and how many characters are in front of the end. -/
def strtoul (string : List UInt8) (base : Int) : Option (UInt64 × Nat) :=
  let found := subject base.toNat string
  let value : UInt64 := .ofNat found.magnitude
  if IsBase base then
    some (if 2 ^ 64 ≤ found.magnitude then -1 else if found.negative then -value else value,
      found.length)
  else none

/-- A value, or the last one that 64 bits can tell. -/
def clamp (value : Int) : Int64 :=
  if value < -2 ^ 63 then .minValue else if 2 ^ 63 ≤ value then .maxValue else .ofInt value

/-- `strtoll`: the value, and how many characters are in front of the end. -/
def strtoll (string : List UInt8) (base : Int) : Option (Int64 × Nat) :=
  let found := subject base.toNat string
  let value : Int := if found.negative then -found.magnitude else found.magnitude
  if IsBase base then some (clamp value, found.length) else none

/-! ### Decimal digits -/

theorem decimal_head {c : UInt8} (decimal : isDigitOf 10 c = true) :
    isSpace c = false ∧ c ≠ 0x2b ∧ c ≠ 0x2d := by
  have all : ∀ bits : BitVec 8, isDigitOf 10 ⟨bits⟩ = true →
      isSpace ⟨bits⟩ = false ∧ (⟨bits⟩ : UInt8) ≠ 0x2b ∧ (⟨bits⟩ : UInt8) ≠ 0x2d := by decide
  exact all c.toBitVec decimal

theorem unsigned_decimal {digits : List UInt8} (decimal : ∀ c ∈ digits, isDigitOf 10 c = true) :
    unsigned 10 digits = ⟨false, numberOf 10 digits, digits.length⟩ := by
  have all : digits.takeWhile (isDigitOf 10) = digits := List.takeWhile_eq_self_iff.mpr decimal
  have ten : prefixed 10 digits = (10, 0) := rfl
  rw [unsigned, ten]
  change (if digits.takeWhile (isDigitOf 10) = [] then _ else _) = _
  rw [all]
  by_cases empty : digits = []
  · rw [if_pos empty, empty]
    rfl
  · rw [if_neg empty, List.drop_zero, all, Nat.zero_add]

/-- The subject of decimal digits is their number. -/
theorem subject_decimal {digits : List UInt8} (decimal : ∀ c ∈ digits, isDigitOf 10 c = true) :
    subject 10 digits = ⟨false, numberOf 10 digits, digits.length⟩ := by
  cases digits with
  | nil => rfl
  | cons c digits =>
    obtain ⟨blank, plus, minus⟩ := decimal_head (decimal c List.mem_cons_self)
    have begins : ¬ isSpace c = true := Bool.eq_false_iff.mp blank
    rw [subject, List.takeWhile_cons_of_neg begins, List.dropWhile_cons_of_neg begins]
    split
    · rename_i same
      exact absurd (List.cons.inj same).1 plus
    · rename_i same
      exact absurd (List.cons.inj same).1 minus
    · rw [unsigned_decimal decimal, Subject.behind, List.length_nil, Nat.zero_add]
      exact if_neg (Nat.succ_ne_zero _)

theorem strtoul_decimal {digits : List UInt8} (decimal : ∀ c ∈ digits, isDigitOf 10 c = true) :
    strtoul digits 10 =
      some (if 2 ^ 64 ≤ numberOf 10 digits then -1 else .ofNat (numberOf 10 digits),
        digits.length) := by
  rw [strtoul, if_pos (by decide), show (10 : Int).toNat = 10 from rfl, subject_decimal decimal]
  rfl

theorem strtoll_decimal {digits : List UInt8} (decimal : ∀ c ∈ digits, isDigitOf 10 c = true) :
    strtoll digits 10 = some (clamp (numberOf 10 digits), digits.length) := by
  rw [strtoll, if_pos (by decide), show (10 : Int).toNat = 10 from rfl, subject_decimal decimal]
  rfl

end CStrto
