/-
This file models the functions of `src/libs/ntdll/crt.c` that read numbers from wide strings:
`rpl__wtoi64`, which reads the string itself, and `rpl_wcstoul` and `rpl__wcstoui64`, which give its
conversion to `strtoul` and `strtoll`.

The first one reads back what `rpl_swprintf` writes for `%I64d`. It takes a character for a digit if
its low byte is one, so a number may go on behind its end. The other two are cut off where the types
of the functions that they use do not fit theirs.
-/

import Nloader.ConvertedStrings
import Nloader.FormatOutput
import Nloader.Library.CStrto

namespace Nloader.WideNumbers

open CommandLine ConvertedStrings CountedStrings CPrintf CStrto Terminated WideStrings

/-! ### Reading the string itself -/

/-- `widetoa`, as an `int`. -/
def widetoint (c : UInt16) : Int32 := (widetoa c).toUInt32.toInt32

/-- `rpl_isspace`. -/
def rplIsspace (c : Int32) : Bool :=
  c ≠ 0 ∧ c.toUInt32 ≤ 255 ∧ c ∈ ([0x20, 0x0c, 0x0a, 0x0d, 0x09] : List Int32)

/-- The first loop of `rpl__wtoi64`. -/
def skipBlanks : List UInt16 → Option (List UInt16)
  | [] => none
  | c :: str => if rplIsspace (widetoint c) then skipBlanks str else some (c :: str)

/-- The sign: whether it is negative, and what is behind it. -/
def readSign : List UInt16 → Option (Bool × List UInt16)
  | [] => none
  | c :: str =>
    some (if c = 0x2b then (false, str) else if c = 0x2d then (true, str) else (false, c :: str))

/-- A character that is taken for a digit. -/
def isLowDigit (c : UInt16) : Bool := 0x30 ≤ widetoint c ∧ widetoint c ≤ 0x39

/-- The second loop of `rpl__wtoi64`. -/
def digitsLoop : List UInt16 → UInt64 → Option UInt64
  | [], _ => none
  | c :: str, value =>
    if isLowDigit c then digitsLoop str (value * 10 + (widetoint c).toInt64.toUInt64 - 0x30)
    else some value

/-- `rpl__wtoi64`. -/
def rplWtoi64 (str : List UInt16) : Option Int64 := do
  let str ← skipBlanks str
  let (neg, str) ← readSign str
  let value ← digitsLoop str 0
  some (if neg then 0 - value else value).toInt64

/-! ### Blanks, signs and digits -/

/-- A blank of `rpl_isspace`. -/
def IsBlank (c : UInt16) : Prop := c ∈ ([0x20, 0x0c, 0x0a, 0x0d, 0x09] : List UInt16)

instance (c : UInt16) : Decidable (IsBlank c) := inferInstanceAs (Decidable (_ ∈ _))

/-- A sign in front of a number, or none. -/
inductive Sign where
  | none
  | plus
  | minus

/-- The characters of a sign. -/
def Sign.characters : Sign → List UInt16
  | .none => []
  | .plus => [0x2b]
  | .minus => [0x2d]

/-- A number with a sign. -/
def Sign.apply (sign : Sign) (value : Nat) : Int :=
  match sign with
  | .none | .plus => value
  | .minus => -value

theorem isLowDigit_eq (c : UInt16) : isLowDigit c = isDigit (widetoa c) := by
  have all : ∀ byte : UInt8, decide (0x30 ≤ byte.toUInt32.toInt32 ∧
      byte.toUInt32.toInt32 ≤ 0x39) = isDigit byte := forall_byte (by decide)
  exact all (widetoa c)

theorem toUInt64_widetoint (c : UInt16) :
    (widetoint c).toInt64.toUInt64 = (widetoa c).toUInt64 := by
  have all : ∀ byte : UInt8, byte.toUInt32.toInt32.toInt64.toUInt64 = byte.toUInt64 :=
    forall_byte (by decide)
  exact all (widetoa c)

/-- A digit is no blank and no sign. -/
theorem not_blank_of_isLowDigit {c : UInt16} (low : isLowDigit c = true) :
    rplIsspace (widetoint c) = false ∧ c ≠ 0x2b ∧ c ≠ 0x2d := by
  have all : ∀ byte : UInt8, isDigit byte = true →
      rplIsspace byte.toUInt32.toInt32 = false := forall_byte (by decide)
  refine ⟨all (widetoa c) (isLowDigit_eq c ▸ low), ?_, ?_⟩
  · rintro rfl
    exact absurd low (by decide)
  · rintro rfl
    exact absurd low (by decide)

theorem isBlank_space {c : UInt16} (blank : IsBlank c) : rplIsspace (widetoint c) = true := by
  simp only [IsBlank, List.mem_cons, List.not_mem_nil, or_false] at blank
  rcases blank with rfl | rfl | rfl | rfl | rfl <;> decide

theorem skipBlanks_append {blanks : List UInt16} (blank : ∀ c ∈ blanks, IsBlank c) {c : UInt16}
    (other : rplIsspace (widetoint c) = false) (rest : List UInt16) :
    skipBlanks (blanks ++ c :: rest) = some (c :: rest) := by
  induction blanks with
  | nil =>
    rw [List.nil_append, skipBlanks, if_neg (Bool.eq_false_iff.mp other)]
  | cons c' blanks inductionHypothesis =>
    rw [List.cons_append, skipBlanks, if_pos (isBlank_space (blank c' List.mem_cons_self))]
    exact inductionHypothesis fun c member => blank c (List.mem_cons_of_mem _ member)

/-- One digit more. -/
theorem step_ofNat {c : UInt16} (low : isLowDigit c = true) (value : Nat) :
    UInt64.ofNat value * 10 + (widetoint c).toInt64.toUInt64 - 0x30 =
      .ofNat (10 * value + ((widetoa c).toNat - 0x30)) := by
  have least : 0x30 ≤ (widetoa c).toNat := by
    rw [isLowDigit_eq] at low
    exact UInt8.le_iff_toNat_le.mp (of_decide_eq_true low).1
  have digit : (widetoa c).toUInt64 = .ofNat ((widetoa c).toNat - 0x30) + 0x30 := by
    rw [← UInt64.ofNat_uInt8ToNat, ← Nat.sub_add_cancel least, UInt64.ofNat_add,
      Nat.add_sub_cancel]
    rfl
  rw [toUInt64_widetoint, digit, ← UInt64.add_assoc, UInt64.add_sub_cancel, UInt64.ofNat_add,
    UInt64.ofNat_mul, UInt64.mul_comm]
  rfl

/-- The loop reads digits up to a character that is none. -/
theorem digitsLoop_eq {front : List UInt16} (digits : ∀ c ∈ front, isLowDigit c = true)
    {c : UInt16} (other : isLowDigit c = false) (behind : List UInt16) (start : Nat) :
    digitsLoop (front ++ c :: behind) (.ofNat start) =
      some (.ofNat (10 ^ front.length * start + number (front.map widetoa))) := by
  rw [← List.length_map widetoa, ← foldl_digits]
  induction front generalizing start with
  | nil =>
    rw [List.nil_append, digitsLoop, if_neg (Bool.eq_false_iff.mp other)]
    rfl
  | cons d front inductionHypothesis =>
    have low := digits d List.mem_cons_self
    rw [List.cons_append, digitsLoop, if_pos low, step_ofNat low,
      inductionHypothesis fun c member => digits c (List.mem_cons_of_mem _ member)]
    rfl

/-! ### Whole numbers -/

/-- What `rpl__wtoi64` makes of what it has read. -/
def signed (sign : Sign) (value : Nat) : Int64 := .ofInt (sign.apply value)

theorem toInt64_ofNat (value : Nat) : (UInt64.ofNat value).toInt64 = .ofInt value :=
  Int64.ofInt_eq_ofNat.symm

theorem toInt64_sub_ofNat (value : Nat) : (0 - UInt64.ofNat value).toInt64 = .ofInt (-value) := by
  rw [UInt64.zero_sub, UInt64.toInt64_neg, toInt64_ofNat, Int64.ofInt_neg]

/-- The result of the three parts of `rpl__wtoi64`. -/
theorem rplWtoi64_of {str behind digits : List UInt16} {neg : Bool} {value : UInt64}
    (skips : skipBlanks str = some behind) (signs : readSign behind = some (neg, digits))
    (reads : digitsLoop digits 0 = some value) :
    rplWtoi64 str = some (if neg then 0 - value else value).toInt64 := by
  simp only [rplWtoi64, skips, signs, reads, Option.bind_eq_bind, Option.bind_some]

/-- A number with a sign is read behind blanks, up to a character that is not taken for a digit.
Without a sign and a digit it is the end of the string. -/
theorem rplWtoi64_eq {blanks : List UInt16} (blank : ∀ c ∈ blanks, IsBlank c) (sign : Sign)
    {front : List UInt16} (digits : ∀ c ∈ front, isLowDigit c = true) {c : UInt16}
    (other : isLowDigit c = false) (starts : front ≠ [] ∨ c = 0) (behind : List UInt16) :
    rplWtoi64 (blanks ++ (sign.characters ++ (front ++ c :: behind))) =
      some (signed sign (number (front.map widetoa))) := by
  have reads : digitsLoop (front ++ c :: behind) 0 =
      some (.ofNat (number (front.map widetoa))) := by
    have loop := digitsLoop_eq digits other behind 0
    rwa [Nat.mul_zero, Nat.zero_add] at loop
  cases sign with
  | none =>
    obtain ⟨head, tail, whole, text, plus, minus⟩ : ∃ head tail,
        front ++ c :: behind = head :: tail ∧ rplIsspace (widetoint head) = false ∧
          head ≠ 0x2b ∧ head ≠ 0x2d := by
      cases front with
      | nil =>
        obtain rfl := starts.resolve_left (not_not_intro rfl)
        exact ⟨0, behind, rfl, by decide⟩
      | cons d front =>
        exact ⟨d, _, rfl, not_blank_of_isLowDigit (digits d List.mem_cons_self)⟩
    have skips := skipBlanks_append blank text tail
    have signs : readSign (head :: tail) = some (false, head :: tail) := by
      rw [readSign, if_neg plus, if_neg minus]
    rw [whole] at reads ⊢
    exact (rplWtoi64_of skips signs reads).trans (congrArg some (toInt64_ofNat _))
  | plus =>
    have text : rplIsspace (widetoint 0x2b) = false := by decide
    have skips := skipBlanks_append blank text (front ++ c :: behind)
    exact (rplWtoi64_of skips rfl reads).trans (congrArg some (toInt64_ofNat _))
  | minus =>
    have text : rplIsspace (widetoint 0x2d) = false := by decide
    have skips := skipBlanks_append blank text (front ++ c :: behind)
    exact (rplWtoi64_of skips rfl reads).trans (congrArg some (toInt64_sub_ofNat _))

/-! ### What is written and read back -/

/-- The run of characters at the beginning of a text that are taken for digits. -/
def run (rest : Text UInt16) : List UInt16 := rest.characters.takeWhile isLowDigit

/-- Behind a run there is a character that is not taken for a digit. -/
theorem exists_behind_run (rest : Text UInt16) (behind : List UInt16) :
    ∃ c more, rest.memory ++ behind = run rest ++ c :: more ∧ isLowDigit c = false := by
  have split := @List.takeWhile_append_dropWhile _ isLowDigit rest.characters
  rw [Text.memory, List.append_assoc]
  cases left : rest.characters.dropWhile isLowDigit with
  | nil =>
    rw [left, List.append_nil] at split
    refine ⟨0, behind, ?_, by decide⟩
    rw [run, split]
    rfl
  | cons c more =>
    refine ⟨c, more ++ 0 :: behind, ?_, ?_⟩
    · conv_lhs => rw [← split, left]
      rw [List.append_assoc]
      rfl
    · have head := List.head?_dropWhile_not isLowDigit rest.characters
      rwa [left] at head

/-- `L"%I64d"`. -/
def formatI64d : List UInt16 := [0x25, 0x49, 0x36, 0x34, 0x64, 0]

/-- The characters of an integer. -/
def written (value : Int64) : List UInt16 :=
  (if value.toInt < 0 then Sign.minus else Sign.none).characters ++
    (digitsOf 10 false value.toInt.natAbs).map Parameters.widen

/-- No width. -/
def noWidth : Format.Width where
  digits := []
  decimal := fun _ member => absurd member List.not_mem_nil
  short := by decide
  small := by decide

/-- `%I64d` with its argument. -/
def directive (value : Int64) : Format.Directive :=
  .int64 noWidth .d (by decide) value.toUInt64

theorem text_noWidth (value : Int) :
    (noWidth.conversion true .d).text value =
      (noWidth.conversion true .d).sign value ++ digitsOf 10 false value.natAbs := by
  change blanks 0 _ = _
  rw [blanks, Nat.zero_sub]
  rfl

theorem text_piece (value : Int64) :
    (directive value).piece.text =
      ((noWidth.conversion true .d).text value.toInt).map Parameters.widen := by
  change ((noWidth.conversion true .d).text value.toUInt64.toInt64.toInt).map Parameters.widen = _
  rw [Int64.toInt64_toUInt64]

/-- The text of an integer without a width is its sign and its digits. -/
theorem map_text (value : Int64) :
    ((noWidth.conversion true .d).text value.toInt).map Parameters.widen = written value := by
  rw [text_noWidth, List.map_append, written]
  refine congrArg (· ++ _) ?_
  by_cases negative : value.toInt < 0
  · rw [Conversion.sign, if_pos ⟨rfl, negative⟩, if_pos negative]
    rfl
  · rw [Conversion.sign, if_neg fun both => negative both.2, if_neg negative]
    rfl

/-- `rpl_swprintf` writes an integer. -/
theorem swprintf_i64d {snprintf : Snprintf} (follows : FollowsStandard snprintf) (value : Int64) :
    ∃ returned, Format.rplSwprintf snprintf formatI64d [.word value.toUInt64] =
      .ok { returned := returned, stream := written value ++ [0] } := by
  have range : (noWidth.conversion true .d).InRange value.toInt := Format.inRange_int64 rfl value
  have short : (directive value).piece.text.length ≤ 63 := by
    rw [text_piece, List.length_map, Conversion.length_text_le_iff (by decide) range]
    exact Nat.zero_le _
  have room : Format.total ([directive value].map Format.Directive.piece) <
      (-1 : UInt64).toNat := by
    change (directive value).piece.text.length + 0 < 2 ^ 64 - 1
    omega
  have stored : (directive value).piece.stored = written value := by
    rw [← map_text, ← text_piece]
    exact List.take_of_length_le short
  have prints := Format.format_directives follows room []
  simp only [List.map_singleton, List.flatMap_singleton, stored] at prints
  exact ⟨_, prints⟩

/-- The number that decimal digits stand for. -/
def decimalValue (string : List UInt16) : Nat :=
  string.foldl (fun value c => 10 * value + (c.toNat - 0x30)) 0

/-- A call of `rpl__wtoi64`: for an integer that `rpl_swprintf` has written between blanks and a
text that does not begin with a digit, or for a string of digits behind blanks and a sign. -/
inductive Call where
  | written (value : Int64) (blanks : List UInt16) (blank : ∀ c ∈ blanks, IsBlank c)
      (rest : Text UInt16) (other : ∀ c ∈ rest.characters.head?, ¬ (0x30 ≤ c ∧ c ≤ 0x39))
      (behind : List UInt16)
  | digits (blanks : List UInt16) (blank : ∀ c ∈ blanks, IsBlank c) (sign : Sign)
      (string : List UInt16) (decimal : ∀ c ∈ string, 0x30 ≤ c ∧ c ≤ 0x39)
      (behind : List UInt16)

/-- A call reads back the integer that was written, or the number of the digits modulo `2 ^ 64`,
with its sign. -/
def Call.Reads (snprintf : Snprintf) : Call → Prop
  | .written value blanks _ rest _ behind =>
    ∃ returned text, Format.rplSwprintf snprintf formatI64d [.word value.toUInt64] =
        .ok { returned := returned, stream := text ++ [0] } ∧
      rplWtoi64 (blanks ++ (text ++ (rest.memory ++ behind))) = some value
  | .digits blanks _ sign string _ behind =>
    rplWtoi64 (blanks ++ (sign.characters ++ (string ++ 0 :: behind))) =
      some (.ofInt (sign.apply (decimalValue string)))

/-- Behind an integer that was written nothing is taken for a digit, or the number that is read with
it is the same modulo `2 ^ 64`. -/
def Call.Ends : Call → Prop
  | .written value _ _ rest _ _ =>
    (10 ^ (run rest).length * value.toInt.natAbs + number ((run rest).map widetoa)) % 2 ^ 64 =
      value.toInt.natAbs
  | .digits _ _ _ _ _ _ => True

theorem toNat_widetoa {c : UInt16} (small : c ≤ 0xff) : (widetoa c).toNat = c.toNat := by
  have less : c.toNat ≤ 255 := UInt16.le_iff_toNat_le.mp small
  have low : c.toNat &&& 0xff = c.toNat % 2 ^ 8 := Nat.and_two_pow_sub_one_eq_mod c.toNat 8
  rw [widetoa, UInt16.toNat_toUInt8, UInt16.toNat_and]
  change (c.toNat &&& 0xff) % 2 ^ 8 = c.toNat
  omega

theorem isLowDigit_of_decimal {c : UInt16} (decimal : 0x30 ≤ c ∧ c ≤ 0x39) :
    isLowDigit c = true := by
  have same := toNat_widetoa (UInt16.le_trans decimal.2 (by decide : (0x39 : UInt16) ≤ 0xff))
  have inside : 0x30 ≤ (widetoa c).toNat ∧ (widetoa c).toNat ≤ 0x39 := by
    rw [same]
    exact ⟨UInt16.le_iff_toNat_le.mp decimal.1, UInt16.le_iff_toNat_le.mp decimal.2⟩
  rw [isLowDigit_eq]
  exact decide_eq_true (And.intro (UInt8.le_iff_toNat_le.mpr inside.1)
    (UInt8.le_iff_toNat_le.mpr inside.2))

/-- The number that digits stand for is that of their low bytes. -/
theorem number_map_widetoa {string : List UInt16} (decimal : ∀ c ∈ string, 0x30 ≤ c ∧ c ≤ 0x39) :
    number (string.map widetoa) = decimalValue string := by
  rw [number, decimalValue, List.foldl_map]
  refine List.foldl_ext _ _ _ fun value c member => ?_
  rw [toNat_widetoa (UInt16.le_trans (decimal c member).2 (by decide : (0x39 : UInt16) ≤ 0xff))]

/-- An integer is the one of its sign and magnitude, modulo `2 ^ 64`. -/
theorem signed_eq_iff (value : Int64) (magnitude : Nat) :
    signed (if value.toInt < 0 then .minus else .none) magnitude = value ↔
      magnitude % 2 ^ 64 = value.toInt.natAbs := by
  have least := value.le_toInt
  have less := value.toInt_lt
  rw [signed, Int64.ofInt_eq_iff_bmod_eq_toInt]
  by_cases negative : value.toInt < 0
  · rw [if_pos negative, Sign.apply, Int.bmod_def]
    split <;> omega
  · rw [if_neg negative, Sign.apply, Int.bmod_def]
    split <;> omega

/-- What is read of an integer that was written: its digits, and the run behind them. -/
theorem rplWtoi64_written (value : Int64) {blanks : List UInt16} (blank : ∀ c ∈ blanks, IsBlank c)
    (rest : Text UInt16) (behind : List UInt16) :
    rplWtoi64 (blanks ++ (written value ++ (rest.memory ++ behind))) =
      some (signed (if value.toInt < 0 then .minus else .none)
        (10 ^ (run rest).length * value.toInt.natAbs + number ((run rest).map widetoa))) := by
  obtain ⟨c, more, split, ended⟩ := exists_behind_run rest behind
  let front := (digitsOf 10 false value.toInt.natAbs).map Parameters.widen ++ run rest
  have nonempty : front ≠ [] := List.append_ne_nil_of_left_ne_nil
    (List.map_eq_nil_iff.not.mpr (List.map_eq_nil_iff.not.mpr Nat.toDigits_ne_nil)) _
  have low : ∀ c ∈ front, isLowDigit c = true := by
    intro c member
    rcases List.mem_append.mp member with first | second
    · obtain ⟨digit, within, rfl⟩ := List.mem_map.mp first
      rw [isLowDigit_eq, widetoa_widen]
      exact isDigit_digitsOf _ digit within
    · exact List.mem_takeWhile_imp second
  have digits : front.map widetoa =
      digitsOf 10 false value.toInt.natAbs ++ (run rest).map widetoa := by
    rw [List.map_append, List.map_map]
    exact congrArg (· ++ _)
      ((List.map_congr_left fun digit _ => widetoa_widen digit).trans (List.map_id _))
  have reads := rplWtoi64_eq blank (if value.toInt < 0 then .minus else .none) low ended
    (.inl nonempty) more
  rw [digits, number_append, number_digitsOf, List.length_map] at reads
  rw [split, written, List.append_assoc, ← List.append_assoc _ (run rest)]
  exact reads

/-- An integer that was written is read back exactly where it ends. -/
theorem reads_written_iff {snprintf : Snprintf} (follows : FollowsStandard snprintf)
    (value : Int64) {blanks : List UInt16} (blank : ∀ c ∈ blanks, IsBlank c) {rest : Text UInt16}
    (other : ∀ c ∈ rest.characters.head?, ¬ (0x30 ≤ c ∧ c ≤ 0x39)) (behind : List UInt16) :
    Call.Reads snprintf (.written value blanks blank rest other behind) ↔
      (10 ^ (run rest).length * value.toInt.natAbs + number ((run rest).map widetoa)) % 2 ^ 64 =
        value.toInt.natAbs := by
  obtain ⟨returned, writes⟩ := swprintf_i64d follows value
  have reads := rplWtoi64_written value blank rest behind
  rw [← signed_eq_iff]
  constructor
  · rintro ⟨returned', text, writes', same⟩
    obtain ⟨_, streams⟩ := Format.Formatted.mk.inj (Except.ok.inj (writes.symm.trans writes'))
    rw [← List.append_cancel_right streams, reads] at same
    exact Option.some.inj same
  · exact fun same => ⟨returned, _, writes, by rw [reads, same]⟩

/-- `rpl__wtoi64` reads a number as it should exactly where it ends. -/
theorem wtoi64_iff {snprintf : Snprintf} (follows : FollowsStandard snprintf) (call : Call) :
    call.Reads snprintf ↔ call.Ends := by
  cases call with
  | written value blanks blank rest other behind =>
    exact reads_written_iff follows value blank other behind
  | digits blanks blank sign string decimal behind =>
    have low : ∀ c ∈ string, isLowDigit c = true := fun c member =>
      isLowDigit_of_decimal (decimal c member)
    refine iff_of_true ?_ trivial
    rw [Call.Reads, rplWtoi64_eq blank sign low (by decide) (.inr rfl) behind,
      number_map_widetoa decimal]
    rfl

/-- The least integer is read back behind a blank. -/
theorem wtoi64_iff_minValue :
    Call.Reads standard (.written Int64.minValue [0x20] (List.forall_mem_singleton.mpr (by decide))
      ⟨[0x2c], by decide⟩ (by rintro c ⟨⟩; decide) []) :=
  (wtoi64_iff standard_followsStandard _).mpr (by unfold Call.Ends; decide)

/-- The low byte of `L'\x0130'` is a digit. -/
theorem not_wtoi64 :
    ¬ ∀ snprintf, FollowsStandard snprintf → ∀ call : Call, call.Reads snprintf := by
  intro all
  have reads := all standard standard_followsStandard
    (.written 1 [] (List.forall_mem_nil _) ⟨[0x130], by decide⟩ (by rintro c ⟨⟩; decide) [])
  exact absurd ((reads_written_iff standard_followsStandard 1 _ _ []).mp reads) (by decide)

/-! ### Converting the string -/

/-- What `*endptr` is set to, as an index from `nptr` on. -/
def storeEnd (endptr : Bool) (length : Nat) : Option Nat := if endptr then some length else none

/-- `rpl_wcstoul`, where `endptr` is given or not. It comes to none where the base has no
meaning. -/
def rplWcstoul (nptr : Option (List UInt16)) (endptr : Bool) (base : Int32) :
    Except Stop (Option (UInt32 × Option Nat)) := do
  let nptrA ← wstr2strex nptr declared
  let string ← cString nptrA
  .ok ((strtoul string base.toInt).map fun (value, length) =>
    (value.toUInt32, storeEnd endptr length))

/-- `rpl__wcstoui64`, where `endptr` is given or not. It comes to none where the base has no
meaning. -/
def rplWcstoui64 (nptr : Option (List UInt16)) (endptr : Bool) (base : Int32) :
    Except Stop (Option (UInt64 × Option Nat)) := do
  let nptrA ← wstr2strex nptr declared
  let string ← cString nptrA
  .ok ((strtoll string base.toInt).map fun (value, length) =>
    (value.toUInt64, storeEnd endptr length))

/-- A string of decimal digits. -/
structure DigitString where
  digits : List UInt16
  decimal : ∀ c ∈ digits, 0x30 ≤ c ∧ c ≤ 0x39
  short : digits.length ≤ 1000

/-- The number that a string of digits stands for. -/
def DigitString.value (string : DigitString) : Nat := decimalValue string.digits

/-- What can be read at a string of digits. -/
def DigitString.memory (string : DigitString) (behind : List UInt16) : List UInt16 :=
  string.digits ++ 0 :: behind

/-- `rpl__wcstoui64` returns the number if it has 64 bits, and the end of the digits. -/
def Converts64 (string : DigitString) (behind : List UInt16) : Prop :=
  ∃ returned,
    rplWcstoui64 (some (string.memory behind)) true 10 =
      .ok (some (returned, some string.digits.length)) ∧
    (string.value < 2 ^ 64 → returned.toNat = string.value)

/-- `rpl_wcstoul` returns the number if it has 32 bits and otherwise the last one that does, and the
end of the digits. -/
def Converts32 (string : DigitString) (behind : List UInt16) : Prop :=
  ∃ returned,
    rplWcstoul (some (string.memory behind)) true 10 =
      .ok (some (returned, some string.digits.length)) ∧
    (string.value < 2 ^ 32 → returned.toNat = string.value) ∧
    (2 ^ 32 ≤ string.value → returned.toNat = 2 ^ 32 - 1)

/-- A string of digits as a short text. -/
def DigitString.text (string : DigitString) : ShortText where
  characters := string.digits
  nonzero member := absurd (string.decimal 0 member).1 (by decide)
  short := Nat.lt_of_le_of_lt string.short (by decide)

theorem isDigitOf_ten (byte : UInt8) : isDigitOf 10 byte = isDigit byte := by
  have all : ∀ byte : UInt8, isDigitOf 10 byte = isDigit byte := forall_byte (by decide)
  exact all byte

theorem DigitString.isDigitOf_map (string : DigitString) :
    ∀ c ∈ string.digits.map widetoa, isDigitOf 10 c = true := by
  intro c member
  obtain ⟨wide, within, rfl⟩ := List.mem_map.mp member
  rw [isDigitOf_ten, ← isLowDigit_eq]
  exact isLowDigit_of_decimal (string.decimal wide within)

/-- The digits of a string are the C string of its conversion. -/
theorem DigitString.narrow_eq (string : DigitString) :
    narrow string.digits = string.digits.map widetoa := by
  refine List.takeWhile_eq_self_iff.mpr fun c member => decide_eq_true ?_
  rintro rfl
  exact absurd (string.isDigitOf_map 0 member) (by decide)

theorem DigitString.numberOf_map (string : DigitString) :
    numberOf 10 (string.digits.map widetoa) = string.value := by
  rw [DigitString.value, ← number_map_widetoa string.decimal]
  refine List.foldl_ext _ _ _ fun value c member => ?_
  have decimal := string.isDigitOf_map c member
  rw [isDigitOf_ten] at decimal
  rw [digit, if_pos (of_decide_eq_true decimal)]
  rfl

/-- What is found at a string of digits once it is converted. -/
theorem DigitString.converts (string : DigitString) (behind : List UInt16) :
    ∃ array, wstr2strex (some (string.memory behind)) declared = .ok array ∧
      cString array = .ok (string.digits.map widetoa) := by
  obtain ⟨array, converts, _, found⟩ := wstr2strex_short string.text behind length_declared
  have memory : string.text.memory ++ behind = string.memory behind :=
    List.append_assoc string.digits [0] behind
  rw [memory] at converts
  exact ⟨array, converts, found.trans (congrArg Except.ok string.narrow_eq)⟩

theorem rplWcstoul_digits (string : DigitString) (behind : List UInt16) :
    rplWcstoul (some (string.memory behind)) true 10 =
      .ok (some (if 2 ^ 64 ≤ string.value then -1 else .ofNat string.value,
        some string.digits.length)) := by
  obtain ⟨array, converts, found⟩ := string.converts behind
  have reads := strtoul_decimal string.isDigitOf_map
  rw [string.numberOf_map, List.length_map] at reads
  rw [rplWcstoul, converts]
  change (cString array >>= _) = _
  rw [found]
  change Except.ok ((strtoul (string.digits.map widetoa) 10).map _) = _
  rw [reads]
  by_cases large : 2 ^ 64 ≤ string.value
  · rw [if_pos large, if_pos large]
    rfl
  · rw [if_neg large, if_neg large]
    change Except.ok (some ((UInt64.ofNat string.value).toUInt32, _)) = _
    rw [UInt64.toUInt32_ofNat']
    rfl

theorem rplWcstoui64_digits (string : DigitString) (behind : List UInt16) :
    rplWcstoui64 (some (string.memory behind)) true 10 =
      .ok (some ((clamp string.value).toUInt64, some string.digits.length)) := by
  obtain ⟨array, converts, found⟩ := string.converts behind
  have reads := strtoll_decimal string.isDigitOf_map
  rw [string.numberOf_map, List.length_map] at reads
  rw [rplWcstoui64, converts]
  change (cString array >>= _) = _
  rw [found]
  change Except.ok ((strtoll (string.digits.map widetoa) 10).map _) = _
  rw [reads]
  rfl

/-- A number of 64 bits is kept by the conversion to a signed one and back if it has 63. -/
theorem toNat_clamp_iff (value : Nat) :
    (value < 2 ^ 64 → (clamp value).toUInt64.toNat = value) ↔
      value < 2 ^ 63 ∨ 2 ^ 64 ≤ value := by
  have least : ¬ (value : Int) < -2 ^ 63 := by omega
  rw [clamp, if_neg least]
  by_cases small : value < 2 ^ 63
  · have kept : (Int64.ofInt value).toUInt64.toNat = value := by
      rw [Int64.ofInt_eq_ofNat, Int64.toUInt64_ofNat']
      exact UInt64.toNat_ofNat_of_lt' (show value < 2 ^ 64 by omega)
    rw [if_neg (by omega)]
    exact iff_of_true (fun _ => kept) (.inl small)
  · have last : Int64.maxValue.toUInt64.toNat = 2 ^ 63 - 1 := by decide
    rw [if_pos (by omega), last]
    omega

theorem converts64_iff (string : DigitString) (behind : List UInt16) :
    Converts64 string behind ↔ string.value < 2 ^ 63 ∨ 2 ^ 64 ≤ string.value := by
  rw [← toNat_clamp_iff]
  have runs := rplWcstoui64_digits string behind
  constructor
  · rintro ⟨returned, returns, right⟩
    obtain ⟨rfl, _⟩ := Prod.mk.inj (Option.some.inj (Except.ok.inj (runs.symm.trans returns)))
    exact right
  · exact fun right => ⟨_, runs, right⟩

/-- What is left of a number in 32 bits. -/
theorem toNat_narrowed (value : Nat) :
    (if 2 ^ 64 ≤ value then -1 else UInt32.ofNat value).toNat =
      if 2 ^ 64 ≤ value then 2 ^ 32 - 1 else value % 2 ^ 32 := by
  split <;> rfl

theorem converts32_iff (string : DigitString) (behind : List UInt16) :
    Converts32 string behind ↔
      string.value < 2 ^ 32 ∨ 2 ^ 64 ≤ string.value ∨ string.value % 2 ^ 32 = 2 ^ 32 - 1 := by
  have runs := rplWcstoul_digits string behind
  have right : (string.value < 2 ^ 32 →
        (if 2 ^ 64 ≤ string.value then -1 else UInt32.ofNat string.value).toNat = string.value) ∧
      (2 ^ 32 ≤ string.value →
        (if 2 ^ 64 ≤ string.value then -1 else UInt32.ofNat string.value).toNat = 2 ^ 32 - 1) ↔
      string.value < 2 ^ 32 ∨ 2 ^ 64 ≤ string.value ∨ string.value % 2 ^ 32 = 2 ^ 32 - 1 := by
    rw [toNat_narrowed]
    split <;> omega
  rw [← right]
  constructor
  · rintro ⟨returned, returns, meets⟩
    obtain ⟨rfl, _⟩ := Prod.mk.inj (Option.some.inj (Except.ok.inj (runs.symm.trans returns)))
    exact meets
  · exact fun meets => ⟨_, runs, meets⟩

/-- `rpl__wcstoui64` converts the numbers of 63 bits, and `rpl_wcstoul` those of 32 bits, those that
`strtoul` cuts off, and those that happen to end in as many ones. -/
theorem wcsto_iff (string : DigitString) (behind : List UInt16) :
    (Converts64 string behind ↔ string.value < 2 ^ 63 ∨ 2 ^ 64 ≤ string.value) ∧
      (Converts32 string behind ↔
        string.value < 2 ^ 32 ∨ 2 ^ 64 ≤ string.value ∨ string.value % 2 ^ 32 = 2 ^ 32 - 1) :=
  ⟨converts64_iff string behind, converts32_iff string behind⟩

/-- `L"9223372036854775808"` is not converted to that number by `rpl__wcstoui64`, and
`L"4294967296"` not to `0xffffffff` by `rpl_wcstoul`. -/
theorem not_wcsto :
    (¬ ∀ string behind, Converts64 string behind) ∧
      ¬ ∀ string behind, Converts32 string behind := by
  let digits64 : DigitString := ⟨[0x39, 0x32, 0x32, 0x33, 0x33, 0x37, 0x32, 0x30, 0x33, 0x36, 0x38,
    0x35, 0x34, 0x37, 0x37, 0x35, 0x38, 0x30, 0x38],
    List.forall_iff_forall_mem.mp (by decide), by decide⟩
  let digits32 : DigitString :=
    ⟨[0x34, 0x32, 0x39, 0x34, 0x39, 0x36, 0x37, 0x32, 0x39, 0x36],
      List.forall_iff_forall_mem.mp (by decide), by decide⟩
  exact ⟨fun all => absurd ((converts64_iff digits64 []).mp (all digits64 [])) (by decide),
    fun all => absurd ((converts32_iff digits32 []).mp (all digits32 [])) (by decide)⟩

end Nloader.WideNumbers
