/-
This file compares `RtlEqualUnicodeString` with `RtlPrefixUnicodeString`, both of
`src/libs/ntdll/rtl.c`. The prefix is looked for among the counted `WCHAR`s. For the equality both
texts are converted to bytes, in arrays of 1024, and compared as C strings.

A conversion takes the low bytes of the counted `WCHAR`s and of one more behind them, so that where
none of them is zero a text goes on with that one, and with what the array was initialized with.
-/

import Nloader.CountedStrings
import Mathlib.Data.List.Forall2

namespace Nloader.CountedStrings

open CommandLine Conversions Parameters Terminated WideStrings

/-! ### The functions -/

/-- `DECLAREVARCONV`. -/
def declared : List UInt8 := Open.bytes "(nil)" ++ List.replicate 1019 0

/-- `US2STR`. -/
def us2str (var : CountedString UInt16) : Except Stop (List UInt8) := do
  let converted ← orOverread (rtlUnicodeToOemN convbuf false var.buffer var.length.toUInt32)
  put declared converted.stored

/-- `!strcmp` and `!strcasecmp`, with what is made of the characters before they are compared. -/
def sameLoop (fold : UInt8 → UInt8) : List UInt8 → List UInt8 → Except Stop Bool
  | c1 :: s1, c2 :: s2 =>
    if fold c1 = fold c2 then if c1 = 0 then .ok true else sameLoop fold s1 s2 else .ok false
  | _, _ => .error .overread

/-- What is made of the characters before they are compared. -/
def fold (caseInSensitive : Bool) : UInt8 → UInt8 :=
  if caseInSensitive then Open.tolower else id

/-- The loop of `RtlPrefixUnicodeString`. -/
def prefixLoop (caseInSensitive : Bool) : Nat → List UInt16 → List UInt16 → Except Stop Bool
  | 0, _, _ => .ok true
  | len + 1, c1 :: s1, c2 :: s2 =>
    if wcmp c1 c2 caseInSensitive then prefixLoop caseInSensitive len s1 s2 else .ok false
  | _ + 1, _, _ => .error .overread

/-- `RtlPrefixUnicodeString`. -/
def rtlPrefixUnicodeString (string1 string2 : CountedString UInt16) (caseInSensitive : Bool) :
    Except Stop Bool :=
  if string1.length ≤ string2.length then
    prefixLoop caseInSensitive (string1.length.toNat / sizeofWchar) string1.memory string2.memory
  else .ok false

/-- `RtlEqualUnicodeString`. -/
def rtlEqualUnicodeString (string1 string2 : CountedString UInt16) (caseInSensitive : Bool) :
    Except Stop Bool := do
  let string1A ← us2str string1
  let string2A ← us2str string2
  sameLoop (fold caseInSensitive) string1A string2A

/-- A `UNICODE_STRING` of which the counted `WCHAR`s can be read. -/
structure Source extends CountedString UInt16 where
  counted : length.toNat / sizeofWchar ≤ toCountedString.memory.length

/-- The number of the counted `WCHAR`s. -/
def Source.count (source : Source) : Nat := source.length.toNat / sizeofWchar

/-- The counted `WCHAR`s. -/
def Source.characters (source : Source) : List UInt16 := source.memory.take source.count

theorem Source.length_characters (source : Source) : source.characters.length = source.count :=
  (List.length_take).trans (Nat.min_eq_left source.counted)

/-! ### The conversion -/

/-- The conversion stays inside of its array, and can read the `WCHAR` behind the counted ones. -/
def Source.Convertible (source : Source) : Prop :=
  source.buffer = none ∨ source.count = 0 ∨
    source.count < 1024 ∧ source.count < source.memory.length

/-- What the conversion stores. -/
def Source.stored (source : Source) : List UInt8 :=
  if source.buffer = none then []
  else if source.count = 0 then [0]
  else (source.memory.take (source.count + 1)).map widetoa

/-- What is in the array behind the conversion. -/
def Source.converted (source : Source) : List UInt8 :=
  source.stored ++ declared.drop source.stored.length

theorem length_declared : declared.length = 1024 := by
  rw [declared, List.length_append, List.length_replicate]
  rfl

/-- `RtlUnicodeToOemN` to an array of `_CONVBUF` bytes, with something in it. -/
def convert (dest : List UInt8) (text : Option (List UInt16)) (size : UInt32) :
    Except Stop (List UInt8) := do
  let converted ← orOverread (rtlUnicodeToOemN convbuf false text size)
  put dest converted.stored

theorem us2str_eq_convert (var : CountedString UInt16) :
    us2str var = convert declared var.buffer var.length.toUInt32 := rfl

/-- Nothing is converted from `NULL`. -/
theorem convert_none (dest : List UInt8) (size : UInt32) : convert dest none size = .ok dest :=
  (show put dest [] = .ok dest from put_of_le (Nat.zero_le _))

/-- Of no characters the zero is stored. -/
theorem convert_of_zero (dest : List UInt8) (memory : List UInt16) {size : UInt32}
    (zero : size.toNat / sizeofWchar = 0) : convert dest (some memory) size = put dest [0] := by
  have limit : min (size.toNat / sizeofWchar) convbuf.toNat = 0 := by
    rw [zero, Nat.zero_min]
  rw [convert, rtlUnicodeToOemN_of_zero limit]
  rfl

/-- The characters and the one behind them are converted, but no more than the array has room for
and one. -/
theorem convert_of_pos (dest : List UInt8) {memory : List UInt16} {size : UInt32} {count : Nat}
    (counted : size.toNat / sizeofWchar = count) (positive : count ≠ 0) :
    convert dest (some memory) size =
      if min count 1024 + 1 ≤ memory.length then
        put dest ((memory.take (min count 1024 + 1)).map widetoa)
      else .error .overread := by
  have limit : min (size.toNat / sizeofWchar) convbuf.toNat = min count 1024 := by
    rw [counted]
    rfl
  rw [convert, rtlUnicodeToOemN_of_pos limit (by omega) (by omega), copy_eq]
  split <;> rfl

/-- The number of the characters that are converted. -/
theorem Source.toNat_length (source : Source) :
    source.length.toUInt32.toNat / sizeofWchar = source.count := by
  rw [UInt16.toNat_toUInt32]
  rfl

/-- The conversion of the counted `WCHAR`s and the one behind them. -/
theorem Source.us2str_of_pos {source : Source} (buffered : source.buffer ≠ none)
    (positive : source.count ≠ 0) :
    us2str source.toCountedString =
      if min source.count 1024 + 1 ≤ source.memory.length then
        put declared ((source.memory.take (min source.count 1024 + 1)).map widetoa)
      else .error .overread := by
  obtain ⟨memory, buffer⟩ := Option.ne_none_iff_exists'.mp buffered
  have same : source.memory = memory := by
    rw [CountedString.memory, buffer]
    rfl
  rw [us2str_eq_convert, buffer, convert_of_pos declared source.toNat_length positive, same]

theorem Source.us2str_eq {source : Source} (convertible : source.Convertible) :
    us2str source.toCountedString = .ok source.converted := by
  rw [Source.converted, Source.stored]
  by_cases unbuffered : source.buffer = none
  · rw [us2str_eq_convert, unbuffered, convert_none, if_pos rfl]
    rfl
  rw [if_neg unbuffered]
  by_cases zero : source.count = 0
  · obtain ⟨memory, buffer⟩ := Option.ne_none_iff_exists'.mp unbuffered
    rw [us2str_eq_convert, buffer, convert_of_zero _ _ (source.toNat_length.trans zero),
      put_of_le (by rw [length_declared]; decide), if_pos zero]
  · obtain ⟨small, behind⟩ := (convertible.resolve_left unbuffered).resolve_left zero
    rw [us2str_of_pos unbuffered zero, Nat.min_eq_left small.le,
      if_pos (Nat.succ_le_of_lt behind), if_neg zero]
    refine put_of_le ?_
    rw [List.length_map, List.length_take, Nat.min_eq_left behind, length_declared]
    exact small

/-- Where it reads all that it converts of a longer text, a conversion stores one byte behind its
array. -/
theorem Source.us2str_overrun {source : Source} (buffered : source.buffer ≠ none)
    (large : 1024 ≤ source.count) (readable : 1025 ≤ source.memory.length) :
    us2str source.toCountedString = .error .overrun := by
  rw [us2str_of_pos buffered (by omega), Nat.min_eq_right large, if_pos readable]
  refine if_neg ?_
  rw [List.length_map, List.length_take, Nat.min_eq_left readable, length_declared]
  decide

/-- Elsewhere the conversion reads or stores what it cannot. -/
theorem Source.us2str_of_not {source : Source} (other : ¬ source.Convertible) :
    ∃ stop, us2str source.toCountedString = .error stop := by
  obtain ⟨buffered, positive, beyond⟩ :
      source.buffer ≠ none ∧ source.count ≠ 0 ∧
        (source.count < 1024 → source.memory.length ≤ source.count) := by
    rw [Source.Convertible, not_or, not_or, not_and] at other
    exact ⟨other.1, other.2.1, fun small => not_lt.mp (other.2.2 small)⟩
  by_cases readable : min source.count 1024 + 1 ≤ source.memory.length
  · exact ⟨.overrun, us2str_overrun buffered (by omega) (by omega)⟩
  · exact ⟨.overread, by rw [us2str_of_pos buffered positive, if_neg readable]⟩

/-! ### C strings in the arrays -/

section

variable {fold : UInt8 → UInt8}

/-- The comparison ends with a zero in what the two arrays have in common. -/
theorem sameLoop_common {first second : List UInt8} (same : first.map fold = second.map fold)
    (rest1 rest2 : List UInt8) :
    sameLoop fold (first ++ rest1) (second ++ rest2) =
      if 0 ∈ first then .ok true else sameLoop fold rest1 rest2 := by
  induction first generalizing second with
  | nil =>
    obtain rfl := List.map_eq_nil_iff.mp same.symm
    rfl
  | cons c1 first inductionHypothesis =>
    obtain ⟨c2, second, rfl⟩ := List.exists_cons_of_ne_nil fun none : second = [] =>
      absurd (none ▸ same) (List.cons_ne_nil _ _)
    obtain ⟨head, tail⟩ := List.cons.inj same
    rw [List.cons_append, List.cons_append, sameLoop, if_pos head, inductionHypothesis tail]
    by_cases zero : c1 = 0
    · rw [if_pos zero, if_pos (List.mem_cons.mpr (.inl zero.symm))]
    · rw [if_neg zero]
      simp only [List.mem_cons, Ne.symm zero, false_or]

/-- The comparison of an array with itself ends with a zero in it. -/
theorem sameLoop_self (array : List UInt8) :
    sameLoop fold array array = if 0 ∈ array then .ok true else .error .overread := by
  have compares : sameLoop fold (array ++ []) (array ++ []) =
      if 0 ∈ array then .ok true else sameLoop fold [] [] := sameLoop_common rfl [] []
  rwa [List.append_nil] at compares

/-- Two arrays differ before there is a zero in them. -/
def Differ (fold : UInt8 → UInt8) (array1 array2 : List UInt8) : Prop :=
  ∃ common1 c1 rest1 common2 c2 rest2, array1 = common1 ++ c1 :: rest1 ∧
    array2 = common2 ++ c2 :: rest2 ∧ common1.map fold = common2.map fold ∧ 0 ∉ common1 ∧
    fold c1 ≠ fold c2

theorem sameLoop_eq_false_iff {array1 array2 : List UInt8} :
    sameLoop fold array1 array2 = .ok false ↔ Differ fold array1 array2 := by
  constructor
  · intro compares
    induction array1 generalizing array2 with
    | nil => exact nomatch compares
    | cons c1 array1 inductionHypothesis =>
      cases array2 with
      | nil => exact nomatch compares
      | cons c2 array2 =>
        rw [sameLoop] at compares
        split at compares
        · rename_i same
          split at compares
          · exact nomatch compares
          · rename_i nonzero
            obtain ⟨common1, d1, rest1, common2, d2, rest2, rfl, rfl, alike, zero, differ⟩ :=
              inductionHypothesis compares
            refine ⟨c1 :: common1, d1, rest1, c2 :: common2, d2, rest2, rfl, rfl, ?_, ?_, differ⟩
            · rw [List.map_cons, List.map_cons, same, alike]
            · exact fun within => (List.mem_cons.mp within).elim (Ne.symm nonzero) zero
        · rename_i differ
          exact ⟨[], c1, array1, [], c2, array2, rfl, rfl, rfl, List.not_mem_nil, differ⟩
  · rintro ⟨common1, c1, rest1, common2, c2, rest2, rfl, rfl, alike, zero, differ⟩
    rw [sameLoop_common alike, if_neg zero, sameLoop, if_neg differ]

end

/-! ### The prefix -/

/-- Two strings have the same length and match in all their counted `WCHAR`s. -/
def Matches (source1 source2 : Source) (caseInSensitive : Bool) : Prop :=
  source1.length = source2.length ∧
    List.Forall₂ (fun c1 c2 => wcmp c1 c2 caseInSensitive = true) source1.characters
      source2.characters

theorem prefixLoop_iff {caseInSensitive : Bool} {len : Nat} {s1 s2 : List UInt16}
    (counted1 : len ≤ s1.length) (counted2 : len ≤ s2.length) :
    prefixLoop caseInSensitive len s1 s2 = .ok true ↔
      List.Forall₂ (fun c1 c2 => wcmp c1 c2 caseInSensitive = true) (s1.take len)
        (s2.take len) := by
  induction len generalizing s1 s2 with
  | zero => exact iff_of_true rfl .nil
  | succ len inductionHypothesis =>
    obtain ⟨c1, s1, rfl⟩ := List.exists_cons_of_length_pos ((Nat.succ_pos len).trans_le counted1)
    obtain ⟨c2, s2, rfl⟩ := List.exists_cons_of_length_pos ((Nat.succ_pos len).trans_le counted2)
    rw [prefixLoop, List.take_succ_cons, List.take_succ_cons, List.forall₂_cons]
    by_cases same : wcmp c1 c2 caseInSensitive = true
    · rw [if_pos same, and_iff_right same]
      exact inductionHypothesis (Nat.le_of_succ_le_succ counted1)
        (Nat.le_of_succ_le_succ counted2)
    · rw [if_neg same]
      exact iff_of_false (fun wrong => nomatch wrong) fun both => same both.1

/-- Strings match if they have the same length and one is a prefix of the other. -/
theorem matches_iff (source1 source2 : Source) (caseInSensitive : Bool) :
    source1.length = source2.length ∧
        rtlPrefixUnicodeString source1.toCountedString source2.toCountedString caseInSensitive =
          .ok true ↔
      Matches source1 source2 caseInSensitive := by
  refine and_congr_right fun same => ?_
  have counted2 := source2.counted
  rw [← same] at counted2
  rw [rtlPrefixUnicodeString, if_pos (UInt16.le_of_eq same),
    prefixLoop_iff source1.counted counted2, Source.characters, Source.characters, Source.count,
    Source.count, same]

/-- What matches has low bytes that match. -/
theorem fold_of_wcmp {caseInSensitive : Bool} {c1 c2 : UInt16}
    (same : wcmp c1 c2 caseInSensitive = true) :
    fold caseInSensitive (widetoa c1) = fold caseInSensitive (widetoa c2) := by
  cases caseInSensitive with
  | false => exact congrArg widetoa (beq_iff_eq.mp same)
  | true => exact beq_iff_eq.mp same

theorem Matches.folded {source1 source2 : Source} {caseInSensitive : Bool}
    (matching : Matches source1 source2 caseInSensitive) :
    (source1.characters.map widetoa).map (fold caseInSensitive) =
      (source2.characters.map widetoa).map (fold caseInSensitive) := by
  rw [List.map_map, List.map_map, ← List.forall₂_eq_eq_eq, List.forall₂_map_left_iff,
    List.forall₂_map_right_iff]
  exact matching.2.imp fun _ _ same => fold_of_wcmp same

/-! ### The equality -/

/-- The low byte of the `WCHAR` behind the counted ones. -/
def Source.behind (source : Source) : UInt8 := widetoa (source.memory.getD source.count 0)

/-- Strings that match are found to be the same: neither of them or both have a buffer, and where
they count something, the low byte of a counted `WCHAR` is zero, or those behind them match and the
array has an end. -/
def Settled (source1 source2 : Source) (caseInSensitive : Bool) : Prop :=
  (source1.buffer = none ↔ source2.buffer = none) ∧
    (source1.count = 0 ∨ 0 ∈ source1.characters.map widetoa ∨
      fold caseInSensitive source1.behind = fold caseInSensitive source2.behind ∧
        (source1.behind = 0 ∨ source1.count < 1023))

theorem zero_mem_drop_declared {count : Nat} (less : count < 1024) :
    0 ∈ declared.drop count := by
  have last : declared[1023]? = some 0 := by
    rw [declared, List.getElem?_append_right (by decide), List.getElem?_replicate]
    rfl
  have found : (declared.drop count)[1023 - count]? = some 0 := by
    rw [List.getElem?_drop, Nat.add_sub_cancel' (Nat.le_of_lt_succ less)]
    exact last
  exact List.mem_of_getElem? found

/-- A string without a buffer counts nothing. -/
theorem Source.count_of_none {source : Source} (none : source.buffer = none) :
    source.count = 0 := by
  have counted := source.counted
  rw [CountedString.memory, none] at counted
  exact Nat.le_zero.mp counted

/-- Where something is counted the array begins with the low bytes of it and of the `WCHAR` behind
it. -/
theorem Source.converted_eq {source : Source} (positive : source.count ≠ 0)
    (convertible : source.Convertible) :
    source.converted =
      source.characters.map widetoa ++ source.behind :: declared.drop (source.count + 1) := by
  have buffered : source.buffer ≠ none := fun none => positive (count_of_none none)
  obtain ⟨_, behind⟩ := (convertible.resolve_left buffered).resolve_left positive
  have stored : source.stored = source.characters.map widetoa ++ [source.behind] := by
    rw [stored, if_neg buffered, if_neg positive, List.take_succ_eq_append_getElem behind,
      List.map_append, Source.behind, List.getD_eq_getElem?_getD,
      List.getElem?_eq_getElem behind, Option.getD_some]
    rfl
  rw [converted, stored, List.length_append, List.length_map, length_characters,
    List.length_singleton, List.append_assoc, List.singleton_append]

theorem Source.converted_of_none {source : Source} (none : source.buffer = none) :
    source.converted = declared := by
  rw [converted, stored, if_pos none]
  rfl

theorem Source.converted_of_zero {source : Source} (buffered : source.buffer ≠ none)
    (zero : source.count = 0) : source.converted = 0 :: declared.drop 1 := by
  rw [converted, stored, if_neg buffered, if_pos zero]
  rfl

theorem sameLoop_declared_zero (caseInSensitive : Bool) (rest : List UInt8) :
    sameLoop (fold caseInSensitive) declared (0 :: rest) = .ok false := by
  cases caseInSensitive <;> rfl

theorem sameLoop_zero_declared (caseInSensitive : Bool) (rest : List UInt8) :
    sameLoop (fold caseInSensitive) (0 :: rest) declared = .ok false := by
  cases caseInSensitive <;> rfl

/-- Strings that match are found to be equal where this is settled. -/
theorem sameLoop_converted_iff {source1 source2 : Source} {caseInSensitive : Bool}
    (convertible1 : source1.Convertible) (convertible2 : source2.Convertible)
    (matching : Matches source1 source2 caseInSensitive) :
    sameLoop (fold caseInSensitive) source1.converted source2.converted = .ok true ↔
      Settled source1 source2 caseInSensitive := by
  have count : source1.count = source2.count := by
    rw [Source.count, Source.count, matching.1]
  by_cases zero : source1.count = 0
  · rw [Settled, and_iff_left (.inl zero)]
    by_cases none1 : source1.buffer = none
    · by_cases none2 : source2.buffer = none
      · have ended : 0 ∈ declared := zero_mem_drop_declared (Nat.zero_lt_succ _)
        rw [Source.converted_of_none none1, Source.converted_of_none none2, sameLoop_self,
          if_pos ended]
        exact iff_of_true rfl (iff_of_true none1 none2)
      · rw [Source.converted_of_none none1, Source.converted_of_zero none2 (count ▸ zero),
          sameLoop_declared_zero]
        exact iff_of_false (fun wrong => nomatch wrong) fun same => none2 (same.mp none1)
    · by_cases none2 : source2.buffer = none
      · rw [Source.converted_of_zero none1 zero, Source.converted_of_none none2,
          sameLoop_zero_declared]
        exact iff_of_false (fun wrong => nomatch wrong) fun same => none1 (same.mpr none2)
      · rw [Source.converted_of_zero none1 zero, Source.converted_of_zero none2 (count ▸ zero),
          sameLoop_self, if_pos List.mem_cons_self]
        exact iff_of_true rfl (iff_of_false none1 none2)
  · have buffered1 : source1.buffer ≠ none := fun none => zero (Source.count_of_none none)
    have buffered2 : source2.buffer ≠ none := fun none =>
      zero (count.trans (Source.count_of_none none))
    rw [Source.converted_eq zero convertible1,
      Source.converted_eq (count ▸ zero) convertible2, sameLoop_common matching.folded, Settled,
      and_iff_right (iff_of_false buffered1 buffered2), or_iff_right zero, ← count]
    by_cases ended : 0 ∈ source1.characters.map widetoa
    · rw [if_pos ended]
      exact iff_of_true rfl (.inl ended)
    · rw [if_neg ended, or_iff_right ended, sameLoop]
      by_cases same : fold caseInSensitive source1.behind = fold caseInSensitive source2.behind
      · rw [if_pos same, and_iff_right same]
        by_cases last : source1.behind = 0
        · rw [if_pos last]
          exact iff_of_true rfl (.inl last)
        · rw [if_neg last, sameLoop_self, or_iff_right last]
          by_cases room : source1.count < 1023
          · rw [if_pos (zero_mem_drop_declared (Nat.succ_lt_succ room))]
            exact iff_of_true rfl room
          · have full : declared.drop (source1.count + 1) = [] :=
              List.drop_of_length_le (length_declared.trans_le (Nat.succ_le_succ (not_lt.mp room)))
            rw [full, if_neg List.not_mem_nil]
            exact iff_of_false (fun wrong => nomatch wrong) room
      · rw [if_neg same]
        exact iff_of_false (fun wrong => nomatch wrong) fun both => same both.1

/-- Two strings are found to be equal if and only if they have the same length and one of them is
found to be a prefix of the other. -/
def Agree (source1 source2 : Source) (caseInSensitive : Bool) : Prop :=
  rtlEqualUnicodeString source1.toCountedString source2.toCountedString caseInSensitive =
    .ok (decide (source1.length = source2.length ∧
      rtlPrefixUnicodeString source1.toCountedString source2.toCountedString caseInSensitive =
        .ok true))

theorem rtlEqualUnicodeString_eq {source1 source2 : Source} (convertible1 : source1.Convertible)
    (convertible2 : source2.Convertible) (caseInSensitive : Bool) :
    rtlEqualUnicodeString source1.toCountedString source2.toCountedString caseInSensitive =
      sameLoop (fold caseInSensitive) source1.converted source2.converted := by
  rw [rtlEqualUnicodeString, Source.us2str_eq convertible1, Source.us2str_eq convertible2]
  rfl

/-- What is compared has been converted. -/
theorem convertible_of_equal {source1 source2 : Source} {caseInSensitive : Bool} {result : Bool}
    (equal : rtlEqualUnicodeString source1.toCountedString source2.toCountedString
      caseInSensitive = .ok result) : source1.Convertible ∧ source2.Convertible := by
  rw [rtlEqualUnicodeString] at equal
  by_contra other
  rcases not_and_or.mp other with other1 | other2
  · obtain ⟨stop, stops⟩ := Source.us2str_of_not other1
    rw [stops] at equal
    exact nomatch equal
  · obtain ⟨stop, stops⟩ := Source.us2str_of_not other2
    rw [stops] at equal
    cases converts : us2str source1.toCountedString with
    | error stop1 =>
      rw [converts] at equal
      exact nomatch equal
    | ok array =>
      rw [converts] at equal
      exact nomatch equal

/-- Equality and prefix agree exactly where both texts are converted, and those that match have the
same ends, and those that do not match differ in their low bytes before there is a zero in them. -/
theorem agree_iff (source1 source2 : Source) (caseInSensitive : Bool) :
    Agree source1 source2 caseInSensitive ↔
      source1.Convertible ∧ source2.Convertible ∧
        (Matches source1 source2 caseInSensitive → Settled source1 source2 caseInSensitive) ∧
        (¬ Matches source1 source2 caseInSensitive →
          Differ (fold caseInSensitive) source1.converted source2.converted) := by
  by_cases convertible : source1.Convertible ∧ source2.Convertible
  · obtain ⟨convertible1, convertible2⟩ := convertible
    rw [Agree, and_iff_right convertible1, and_iff_right convertible2,
      rtlEqualUnicodeString_eq convertible1 convertible2]
    by_cases matching : Matches source1 source2 caseInSensitive
    · rw [decide_eq_true ((matches_iff _ _ _).mpr matching),
        sameLoop_converted_iff convertible1 convertible2 matching]
      exact ⟨fun settled => ⟨fun _ => settled, fun other => absurd matching other⟩,
        fun both => both.1 matching⟩
    · rw [decide_eq_false fun same => matching ((matches_iff _ _ _).mp same),
        sameLoop_eq_false_iff]
      exact ⟨fun differ => ⟨fun same => absurd same matching, fun _ => differ⟩,
        fun both => both.2 matching⟩
  · exact iff_of_false (fun agree => convertible (convertible_of_equal agree))
      fun all => convertible ⟨all.1, all.2.1⟩

/-- `L"A"`, with what is behind it. -/
def exampleSource (behind : UInt16) : Source where
  length := 2
  maximumLength := 4
  buffer := some [0x41, behind]
  counted := Nat.le_succ 1

/-- `L"A"` is not equal to itself, if `L"B"` is behind the one and a zero behind the other. -/
theorem not_agree : ¬ ∀ source1 source2 caseInSensitive, Agree source1 source2 caseInSensitive := by
  intro all
  have agree := all (exampleSource 0) (exampleSource 0x42) false
  have matching : Matches (exampleSource 0) (exampleSource 0x42) false :=
    ⟨rfl, .cons rfl .nil⟩
  obtain ⟨convertible1, convertible2⟩ := convertible_of_equal agree
  rw [Agree, rtlEqualUnicodeString_eq convertible1 convertible2,
    decide_eq_true ((matches_iff _ _ _).mpr matching),
    sameLoop_converted_iff convertible1 convertible2 matching] at agree
  rcases agree.2 with zero | ended | same
  · exact absurd zero (by decide)
  · exact absurd ended (by decide)
  · exact absurd same.1 (by decide)

end Nloader.CountedStrings
