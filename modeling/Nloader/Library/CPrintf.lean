/-
This file is a library of what the C standard says about `snprintf` for a format that is one
conversion of an integer, with a decimal width and perhaps the length modifier `ll`: the text of the
conversion, and what is stored of it in a buffer. The flag `0` is a width that begins with a zero.

The library names nothing of the program it is used for.
-/

import Mathlib.Algebra.Order.Ring.Int
import Mathlib.Data.List.Basic
import Mathlib.Data.List.TakeWhile

namespace CPrintf

/-! ### Conversions -/

/-- What a conversion makes of an integer. -/
inductive Letter where
  | d
  | u
  | x
  | X
  deriving DecidableEq

/-- The character of a conversion. -/
def Letter.code : Letter → UInt8
  | .d => 0x64
  | .u => 0x75
  | .x => 0x78
  | .X => 0x58

def isDigit (c : UInt8) : Bool := 0x30 ≤ c ∧ c ≤ 0x39

/-- A conversion, with the digits of its width. -/
@[ext]
structure Conversion where
  digits : List UInt8
  decimal : ∀ digit ∈ digits, isDigit digit = true
  long : Bool
  letter : Letter

/-- The letters behind the width. -/
def letters (long : Bool) (letter : Letter) : List UInt8 :=
  if long then [0x6c, 0x6c, letter.code] else [letter.code]

/-- A conversion as a format. -/
def Conversion.format (conversion : Conversion) : List UInt8 :=
  0x25 :: (conversion.digits ++ letters conversion.long conversion.letter)

/-- The number that decimal digits stand for. -/
def number (digits : List UInt8) : Nat :=
  digits.foldl (fun value digit => 10 * value + (digit.toNat - 0x30)) 0

/-- The width. -/
def Conversion.width (conversion : Conversion) : Nat := number conversion.digits

/-- The number of bits of the integer. -/
def Conversion.bits (conversion : Conversion) : Nat := if conversion.long then 64 else 32

/-! ### The text -/

/-- The digits of a number. -/
def digitsOf (base : Nat) (upper : Bool) (value : Nat) : List UInt8 :=
  (Nat.toDigits base value).map fun digit =>
    .ofNat (if upper then digit.toUpper else digit).toNat

/-- The sign of an integer. -/
def Conversion.sign (conversion : Conversion) (value : Int) : List UInt8 :=
  if conversion.letter = .d ∧ value < 0 then [0x2d] else []

/-- The digits of an integer. The conversions other than `d` take it as unsigned. -/
def Conversion.magnitude (conversion : Conversion) (value : Int) : List UInt8 :=
  match conversion.letter with
  | .d => digitsOf 10 false value.natAbs
  | .u => digitsOf 10 false (value % 2 ^ conversion.bits).toNat
  | .x => digitsOf 16 false (value % 2 ^ conversion.bits).toNat
  | .X => digitsOf 16 true (value % 2 ^ conversion.bits).toNat

/-- Blanks before a text that is shorter than the width. -/
def blanks (width : Nat) (text : List UInt8) : List UInt8 :=
  List.replicate (width - text.length) 0x20 ++ text

/-- The text of an integer: filled up to the width with blanks, or behind the sign with zeros. -/
def Conversion.text (conversion : Conversion) (value : Int) : List UInt8 :=
  let sign := conversion.sign value
  let magnitude := conversion.magnitude value
  if conversion.digits.head? = some 0x30 then
    sign ++ (List.replicate (conversion.width - (sign.length + magnitude.length)) 0x30 ++
      magnitude)
  else blanks conversion.width (sign ++ magnitude)

/-! ### The function -/

/-- What `snprintf` returns, and what it stores before the zero. -/
abbrev Snprintf : Type := Nat → List UInt8 → Int → Int × List UInt8

/-- The integers of a conversion. -/
def Conversion.InRange (conversion : Conversion) (value : Int) : Prop :=
  -2 ^ (conversion.bits - 1) ≤ value ∧ value < 2 ^ (conversion.bits - 1)

/-- `snprintf` returns the length of the text, and stores as much of it as there is room for before
the zero. -/
def FollowsStandard (snprintf : Snprintf) : Prop :=
  ∀ (size : Nat) (conversion : Conversion) (value : Int), 0 < size → conversion.width < 2 ^ 31 →
    conversion.InRange value →
      snprintf size conversion.format value =
        (((conversion.text value).length : Int), (conversion.text value).take (size - 1))

/-! ### How long a text is -/

/-- A text is as long as the width, or longer if the sign and the digits are. -/
theorem Conversion.length_text (conversion : Conversion) (value : Int) :
    (conversion.text value).length =
      max conversion.width
        ((conversion.sign value).length + (conversion.magnitude value).length) := by
  rw [Conversion.text]
  split
  · rw [List.length_append, List.length_append, List.length_replicate]
    omega
  · rw [blanks, List.length_append, List.length_append, List.length_replicate]
    omega

theorem length_digitsOf {base value : Nat} (upper : Bool) (large : 10 ≤ base)
    (small : value < 2 ^ 64) : (digitsOf base upper value).length ≤ 20 := by
  rw [digitsOf, List.length_map, Nat.length_toDigits_le_iff (by omega) (by decide)]
  calc
    value < 10 ^ 20 := small.trans (by decide)
    _ ≤ base ^ 20 := Nat.pow_le_pow_left large 20

/-- An integer has a sign and twenty digits at most. -/
theorem Conversion.length_magnitude {conversion : Conversion} {value : Int}
    (range : conversion.InRange value) :
    (conversion.sign value).length + (conversion.magnitude value).length ≤ 21 := by
  have sign : (conversion.sign value).length ≤ 1 := by
    rw [Conversion.sign]
    split <;> decide
  have wide : conversion.bits = 64 ∨ conversion.bits = 32 := by
    rw [Conversion.bits]
    cases conversion.long
    · exact .inr rfl
    · exact .inl rfl
  have magnitude : (conversion.magnitude value).length ≤ 20 := by
    obtain ⟨least, most⟩ := range
    rw [Conversion.magnitude]
    rcases wide with bits | bits <;> rw [bits] at least most ⊢ <;> split <;>
      exact length_digitsOf _ (by decide) (by omega)
  exact Nat.add_le_add sign magnitude

/-- It is the width that makes a text long. -/
theorem Conversion.length_text_le_iff {conversion : Conversion} {value : Int} {limit : Nat}
    (enough : 21 ≤ limit) (range : conversion.InRange value) :
    (conversion.text value).length ≤ limit ↔ conversion.width ≤ limit := by
  rw [Conversion.length_text, Nat.max_le]
  exact and_iff_left ((Conversion.length_magnitude range).trans enough)

/-! ### The number that a text stands for -/

/-- Digits behind a number. -/
theorem foldl_digits (digits : List UInt8) (start : Nat) :
    digits.foldl (fun value digit => 10 * value + (digit.toNat - 0x30)) start =
      10 ^ digits.length * start + number digits := by
  induction digits generalizing start with
  | nil => exact (Nat.one_mul start).symm
  | cons digit digits inductionHypothesis =>
    rw [number, List.foldl_cons, List.foldl_cons, inductionHypothesis, inductionHypothesis,
      List.length_cons, Nat.pow_succ, Nat.mul_zero, Nat.zero_add, Nat.mul_add, ← Nat.mul_assoc,
      Nat.add_assoc]

/-- The number of digits behind others. -/
theorem number_append (first second : List UInt8) :
    number (first ++ second) = 10 ^ second.length * number first + number second := by
  rw [number, List.foldl_append]
  exact foldl_digits second (number first)

/-- A decimal digit as a character of ASCII. -/
theorem toNat_code {digit : Char} (decimal : digit.isDigit = true) :
    (UInt8.ofNat digit.toNat).toNat = digit.toNat ∧ 0x30 ≤ digit.toNat ∧ digit.toNat ≤ 0x39 := by
  obtain ⟨least, most⟩ := Char.isDigit_iff_toNat.mp decimal
  have small : digit.toNat < 256 := Nat.lt_of_le_of_lt most (by decide)
  exact ⟨UInt8.toNat_ofNat_of_lt' small, least, most⟩

theorem isDigit_digitsOf (value : Nat) :
    ∀ digit ∈ digitsOf 10 false value, isDigit digit = true := by
  intro digit member
  obtain ⟨char, within, rfl⟩ := List.mem_map.mp member
  obtain ⟨same, least, most⟩ :=
    toNat_code (Nat.isDigit_of_mem_toDigits (by decide) (by decide) within)
  have inside : 0x30 ≤ (UInt8.ofNat char.toNat).toNat ∧
      (UInt8.ofNat char.toNat).toNat ≤ 0x39 := by
    rw [same]
    exact ⟨least, most⟩
  exact decide_eq_true (And.intro (UInt8.le_iff_toNat_le.mpr inside.1)
    (UInt8.le_iff_toNat_le.mpr inside.2))

/-- The number of the decimal digits of a value is that value. -/
theorem number_digitsOf (value : Nat) : number (digitsOf 10 false value) = value := by
  have digits : digitsOf 10 false value =
      (Nat.toDigits 10 value).map fun digit => .ofNat digit.toNat := rfl
  rw [number, digits, List.foldl_map]
  calc
    _ = Nat.ofDigitChars 10 (Nat.toDigits 10 value) 0 := by
      rw [Nat.ofDigitChars_eq_foldl]
      refine List.foldl_ext _ _ _ fun sofar digit member => ?_
      rw [(toNat_code (Nat.isDigit_of_mem_toDigits (by decide) (by decide) member)).1]
      rfl
    _ = value := Nat.ofDigitChars_ten_toDigits
/-! ### A function that follows the standard -/

/-- The letter of a character. -/
def Letter.ofCode (code : UInt8) : Letter :=
  if code = 0x64 then .d else if code = 0x75 then .u else if code = 0x78 then .x else .X

/-- The conversion that a format is. -/
def parse (format : List UInt8) : Conversion where
  digits := format.tail.takeWhile isDigit
  decimal _ member := List.mem_takeWhile_imp member
  long := (format.tail.dropWhile isDigit).head? = some 0x6c
  letter := .ofCode ((format.tail.dropWhile isDigit).getLastD 0)

theorem parse_format (conversion : Conversion) : parse conversion.format = conversion := by
  obtain ⟨digits, decimal, long, letter⟩ := conversion
  have taken : (digits ++ letters long letter).takeWhile isDigit = digits := by
    rw [List.takeWhile_append_of_pos decimal]
    cases long <;> cases letter <;> exact List.append_nil digits
  have dropped : (digits ++ letters long letter).dropWhile isDigit = letters long letter := by
    rw [List.dropWhile_append_of_pos decimal]
    cases long <;> cases letter <;> rfl
  refine Conversion.ext taken ?_ ?_
  · change decide (((digits ++ letters long letter).dropWhile isDigit).head? = some 0x6c) = long
    rw [dropped]
    cases long <;> cases letter <;> rfl
  · change Letter.ofCode (((digits ++ letters long letter).dropWhile isDigit).getLastD 0) = letter
    rw [dropped]
    cases long <;> cases letter <;> rfl

/-- `snprintf`, for the formats of conversions. -/
def standard : Snprintf := fun size format value =>
  let text := (parse format).text value
  (text.length, text.take (size - 1))

theorem standard_followsStandard : FollowsStandard standard := by
  intro size conversion value _ _ _
  rw [standard, parse_format]

end CPrintf
