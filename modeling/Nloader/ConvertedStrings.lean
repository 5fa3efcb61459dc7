/-
This file models how the code of `src/libs/ntdll` uses functions for C strings on wide ones:
`WSTR2STREX` converts a string to the bytes of an array, up to its zero, and what is in the array is
taken as a C string. A character is its low byte there, so that the C string may end before the wide
one does.

`rpl_wcsstr` looks for one converted string in another. Where it finds one, it returns the haystack
and the distance from one array to the other: not the place that was found.
-/

import Nloader.CountedEqual

namespace Nloader.ConvertedStrings

open CommandLine Conversions CountedStrings Parameters Terminated WideStrings

/-! ### Arrays -/

/-- `WSTR2STREX`, to an array with something in it. The string may be `NULL`. -/
def wstr2strex (src : Option (List UInt16)) (dest : List UInt8) : Except Stop (List UInt8) := do
  let length ← orOverread (rplWcslen src)
  let converted ← orOverread (rtlUnicodeToOemN convbuf false src (.ofNat (length * sizeofWchar)))
  put dest converted.stored

/-- The C string at the beginning of an array. -/
def cString : List UInt8 → Except Stop (List UInt8)
  | [] => .error .overread
  | c :: array => if c = 0 then .ok [] else (cString array).map (c :: ·)

/-- The low bytes of characters, up to a zero. -/
def narrow (characters : List UInt16) : List UInt8 :=
  (characters.map widetoa).takeWhile (· ≠ 0)

/-- A text that an array has room for. -/
structure ShortText extends Text UInt16 where
  short : toText.characters.length < 1024

theorem cString_append (front rest : List UInt8) :
    cString (front ++ 0 :: rest) = .ok (front.takeWhile (· ≠ 0)) := by
  induction front with
  | nil => rfl
  | cons c front inductionHypothesis =>
    rw [List.cons_append, cString]
    by_cases zero : c = 0
    · rw [if_pos zero, List.takeWhile_cons_of_neg (by simpa using zero)]
    · rw [if_neg zero, inductionHypothesis, List.takeWhile_cons_of_pos (by simpa using zero)]
      rfl

theorem wstr2strex_text (text : Text UInt16) (behind : List UInt16) (dest : List UInt8) :
    wstr2strex (some (text.memory ++ behind)) dest =
      convert dest (some (text.memory ++ behind))
        (.ofNat (text.characters.length * sizeofWchar)) := by
  rw [wstr2strex, rplWcslen, length_text]
  rfl

/-- A short text is converted with its zero. -/
theorem convert_short (text : ShortText) (behind : List UInt16) (dest : List UInt8) :
    convert dest (some (text.memory ++ behind))
        (.ofNat (text.characters.length * sizeofWchar)) =
      put dest (text.characters.map widetoa ++ [0]) := by
  have short := text.short
  have counted : (UInt32.ofNat (text.characters.length * sizeofWchar)).toNat / sizeofWchar =
      text.characters.length := by
    rw [UInt32.toNat_ofNat_of_lt' (show text.characters.length * sizeofWchar < 2 ^ 32 from
      (show text.characters.length * 2 < 2 ^ 32 by omega))]
    exact Nat.mul_div_cancel _ (by decide)
  by_cases empty : text.characters.length = 0
  · rw [convert_of_zero dest _ (counted.trans empty), List.length_eq_zero_iff.mp empty]
    rfl
  · have whole : (text.memory ++ behind).take (text.characters.length + 1) = text.memory :=
      List.take_left' (by rw [Text.memory, List.length_append, List.length_singleton])
    have readable : text.characters.length + 1 ≤ (text.memory ++ behind).length := by
      rw [Text.memory, List.length_append, List.length_append, List.length_singleton]
      omega
    rw [convert_of_pos dest counted empty, Nat.min_eq_left short.le, if_pos readable, whole,
      Text.memory, List.map_append]
    rfl

/-- The array that a short text is converted to, and its C string. -/
theorem wstr2strex_short (text : ShortText) (behind : List UInt16) {dest : List UInt8}
    (size : dest.length = 1024) :
    ∃ array, wstr2strex (some (text.memory ++ behind)) dest = .ok array ∧
      array.length = 1024 ∧ cString array = .ok (narrow text.characters) := by
  have fits : (text.characters.map widetoa ++ [0]).length ≤ dest.length := by
    rw [List.length_append, List.length_map, List.length_singleton, size]
    exact text.short
  have puts := put_of_le fits
  refine ⟨_, ?_, (length_put puts).trans size, ?_⟩
  · rw [wstr2strex_text, convert_short, puts]
  · rw [List.append_assoc, List.singleton_append, cString_append]
    rfl

/-! ### Looking for a string -/

/-- `strstr`: where the second string is found first in the first one. -/
def strstr : List UInt8 → List UInt8 → Option Nat
  | [], needle => if needle = [] then some 0 else none
  | c :: rest, needle =>
    if needle.isPrefixOf (c :: rest) then some 0 else (strstr rest needle).map (· + 1)

theorem strstr_isSome_iff {haystack needle : List UInt8} :
    (strstr haystack needle).isSome = true ↔ needle <:+: haystack := by
  induction haystack with
  | nil =>
    rw [strstr, List.infix_nil]
    by_cases empty : needle = [] <;> simp [empty]
  | cons c rest inductionHypothesis =>
    rw [strstr, List.infix_cons_iff, ← inductionHypothesis]
    by_cases starts : needle.isPrefixOf (c :: rest) = true
    · rw [if_pos starts]
      exact iff_of_true rfl (.inl (List.isPrefixOf_iff_prefix.mp starts))
    · rw [if_neg starts, Option.isSome_map, or_iff_right]
      exact fun isPrefix => starts (List.isPrefixOf_iff_prefix.mpr isPrefix)

/-- Where the two arrays of `rpl_wcsstr` lie in its frame. They do not overlap. -/
structure Frame where
  haystackA : Nat
  needleA : Nat
  apart : haystackA + 1024 ≤ needleA ∨ needleA + 1024 ≤ haystackA

/-- `needleA - haystackA`. -/
def Frame.distance (frame : Frame) : Int := (frame.needleA : Int) - frame.haystackA

/-- `rpl_wcsstr`. What is returned is an index from `haystack` on, or `NULL`. -/
def rplWcsstr (frame : Frame) (haystack needle : Option (List UInt16)) :
    Except Stop (Option Int) := do
  let length ← orOverread (rplWcslen needle)
  if length = 0 then .ok (some 0)
  else do
    let haystackA ← wstr2strex haystack declared
    let needleA ← wstr2strex needle declared
    match strstr (← cString haystackA) (← cString needleA) with
    | none => .ok none
    | some _ => .ok (some frame.distance)

/-- What `rpl_wcsstr` should return: the first place at which a text occurs in another, or `NULL` if
there is none. -/
def Finds (haystack needle : List UInt16) : Option Int → Prop
  | none => ∀ index, ¬ needle <+: haystack.drop index
  | some place => ∃ index : Nat, place = index ∧ needle <+: haystack.drop index ∧
    ∀ earlier < index, ¬ needle <+: haystack.drop earlier

theorem exists_prefix_drop_iff {haystack needle : List UInt16} :
    (∃ index, needle <+: haystack.drop index) ↔ needle <:+: haystack := by
  rw [List.infix_iff_prefix_suffix]
  constructor
  · rintro ⟨index, starts⟩
    exact ⟨_, starts, List.drop_suffix _ _⟩
  · rintro ⟨rest, starts, front, rfl⟩
    exact ⟨front.length, by rwa [List.drop_left]⟩

/-- The distance of the arrays is no index of a short text. -/
theorem not_finds_distance (frame : Frame) (haystack : ShortText) {needle : List UInt16}
    (nonempty : needle ≠ []) : ¬ Finds haystack.characters needle (some frame.distance) := by
  rintro ⟨index, place, starts, _⟩
  have inside : index < haystack.characters.length := by
    by_contra beyond
    rw [List.drop_of_length_le (Nat.le_of_not_lt beyond)] at starts
    exact nonempty (List.prefix_nil.mp starts)
  have short := haystack.short
  rw [Frame.distance] at place
  rcases frame.apart with before | after <;> omega

/-- What `rpl_wcsstr` returns for short texts. -/
theorem rplWcsstr_short (frame : Frame) (haystack needle : ShortText)
    (behind1 behind2 : List UInt16) :
    rplWcsstr frame (some (haystack.memory ++ behind1)) (some (needle.memory ++ behind2)) =
      .ok (if needle.characters = [] then some 0
        else if narrow needle.characters <:+: narrow haystack.characters then some frame.distance
        else none) := by
  have length : orOverread (rplWcslen (some (needle.memory ++ behind2))) =
      .ok needle.characters.length := by
    rw [rplWcslen, length_text]
    rfl
  obtain ⟨haystackA, converts1, _, string1⟩ := wstr2strex_short haystack behind1 length_declared
  obtain ⟨needleA, converts2, _, string2⟩ := wstr2strex_short needle behind2 length_declared
  rw [rplWcsstr, length]
  change (if needle.characters.length = 0 then _ else _) = _
  by_cases empty : needle.characters = []
  · rw [if_pos empty, if_pos (List.length_eq_zero_iff.mpr empty)]
  · rw [if_neg empty, if_neg (List.length_eq_zero_iff.not.mpr empty), converts1, converts2]
    change ((cString haystackA) >>= fun first => cString needleA >>= fun second => _) = _
    rw [string1, string2]
    change (match strstr (narrow haystack.characters) (narrow needle.characters) with
      | none => Except.ok none
      | some _ => Except.ok (some frame.distance)) = _
    simp only [← strstr_isSome_iff]
    cases strstr (narrow haystack.characters) (narrow needle.characters) <;> rfl

/-- `rpl_wcsstr` finds a text exactly where that is empty, or is not there and is not found either
among the low bytes. -/
theorem wcsstr_iff (frame : Frame) (haystack needle : ShortText) (behind1 behind2 : List UInt16) :
    (∃ result,
      rplWcsstr frame (some (haystack.memory ++ behind1)) (some (needle.memory ++ behind2)) =
        .ok result ∧ Finds haystack.characters needle.characters result) ↔
      needle.characters = [] ∨ ¬ needle.characters <:+: haystack.characters ∧
        ¬ narrow needle.characters <:+: narrow haystack.characters := by
  have runs := rplWcsstr_short frame haystack needle behind1 behind2
  by_cases empty : needle.characters = []
  · rw [if_pos empty] at runs
    refine iff_of_true ⟨some 0, runs, 0, rfl, ?_, fun _ less => absurd less (Nat.not_lt_zero _)⟩
      (.inl empty)
    rw [empty]
    exact List.nil_prefix
  rw [if_neg empty] at runs
  rw [or_iff_right empty]
  by_cases found : narrow needle.characters <:+: narrow haystack.characters
  · rw [if_pos found] at runs
    refine iff_of_false ?_ fun both => both.2 found
    rintro ⟨result, returns, finds⟩
    rw [← Except.ok.inj (runs.symm.trans returns)] at finds
    exact not_finds_distance frame haystack empty finds
  · rw [if_neg found] at runs
    rw [and_iff_left found, ← exists_prefix_drop_iff, not_exists]
    constructor
    · rintro ⟨result, returns, finds⟩
      rwa [← Except.ok.inj (runs.symm.trans returns)] at finds
    · exact fun nowhere => ⟨none, runs, nowhere⟩

/-- `L"a"` is not found in `L"a"`. -/
theorem not_wcsstr :
    ¬ ∀ (frame : Frame) (haystack needle : ShortText) (behind1 behind2 : List UInt16),
      ∃ result,
        rplWcsstr frame (some (haystack.memory ++ behind1)) (some (needle.memory ++ behind2)) =
          .ok result ∧ Finds haystack.characters needle.characters result := by
  intro all
  let text : ShortText := ⟨⟨[0x61], by decide⟩, by decide⟩
  let frame : Frame := ⟨0, 1024, by decide⟩
  obtain ⟨result, returns, finds⟩ := all frame text text [] []
  rw [rplWcsstr_short, if_neg (by decide), if_pos (by decide)] at returns
  rw [← Except.ok.inj returns] at finds
  exact not_finds_distance frame text (by decide) finds

end Nloader.ConvertedStrings
