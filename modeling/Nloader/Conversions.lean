/-
This file models `RtlUnicodeToOemN` and `RtlMultiByteToUnicodeN` of `src/libs/ntdll/rtl.c`, which
convert texts of a given length. The destination is the list of what is stored at its beginning.

The loop of the second one ends before `end`, the one of the first behind it: it converts one
character more than it should, and that is the number it reports. Both store a zero where there is
nothing to convert, also where there is no room for it.
-/

import Nloader.CommandLine
import Nloader.Events
import Nloader.Library.Terminated

namespace Nloader.Conversions

open CommandLine Parameters Terminated

/-! ### The functions -/

/-- `STATUS_ACCESS_VIOLATION`. -/
def statusAccessViolation : UInt32 := 0xC0000005

/-- What a call leaves: its status, what it has stored to the destination, and what it has stored
to the pointer for the number of bytes. -/
structure Converted (Character : Type) where
  status : UInt32
  stored : List Character
  reported : Option UInt32
  deriving DecidableEq

/-- `if (BytesInString) *BytesInString = bytes`. -/
def report (bytesInString : Bool) (bytes : Nat) : Option UInt32 :=
  if bytesInString then some (.ofNat bytes) else none

/-- `RtlUnicodeToOemN`, where `BytesInOemString` is given or not. It does not come to an end where
it reads more than there is, and where the loop does not end before `i` overflows. -/
def rtlUnicodeToOemN (maxBytesInOemString : UInt32) (bytesInOemString : Bool)
    (unicodeString : Option (List UInt16)) (bytesInUnicodeString : UInt32) :
    Option (Converted UInt8) :=
  let stop := min (bytesInUnicodeString.toNat / sizeofWchar) maxBytesInOemString.toNat
  match unicodeString with
  | none => some { status := statusAccessViolation, stored := [], reported := none }
  | some unicodeString =>
    if stop = 0 then some { status := Events.statusSuccess, stored := [0], reported := none }
    else if stop = 2 ^ 31 - 1 then none
    else do
      let stored ← copy widetoa (stop + 1) unicodeString
      some {
        status := Events.statusSuccess
        stored := stored
        reported := report bytesInOemString (stop + 1) }

/-- `RtlMultiByteToUnicodeN`, where `BytesInUnicodeString` is given or not. -/
def rtlMultiByteToUnicodeN (maxBytesInUnicodeString : UInt32) (bytesInUnicodeString : Bool)
    (multiByteString : List UInt8) (bytesInMultiByteString : UInt32) :
    Option (Converted UInt16) :=
  let stop := min (maxBytesInUnicodeString.toNat / sizeofWchar) bytesInMultiByteString.toNat
  if stop = 0 then some { status := Events.statusSuccess, stored := [0], reported := none }
  else do
    let stored ← copy widen stop multiByteString
    some {
      status := Events.statusSuccess
      stored := stored
      reported := report bytesInUnicodeString (stop * sizeofWchar) }

/-! ### What they do -/

section

variable {maxBytes bytes : UInt32} {given : Bool}

/-- What `RtlUnicodeToOemN` stores is one character more than the lesser of the two limits. -/
theorem rtlUnicodeToOemN_of_pos {memory : List UInt16} {stop : Nat}
    (limit : min (bytes.toNat / sizeofWchar) maxBytes.toNat = stop) (positive : 0 < stop)
    (small : stop < 2 ^ 31 - 1) :
    rtlUnicodeToOemN maxBytes given (some memory) bytes =
      (copy widetoa (stop + 1) memory).map fun stored =>
        { status := Events.statusSuccess
          stored := stored
          reported := report given (stop + 1) } := by
  rw [rtlUnicodeToOemN, limit]
  rw [if_neg positive.ne', if_neg small.ne]
  cases copy widetoa (stop + 1) memory <;> rfl

theorem rtlUnicodeToOemN_of_zero {memory : List UInt16}
    (limit : min (bytes.toNat / sizeofWchar) maxBytes.toNat = 0) :
    rtlUnicodeToOemN maxBytes given (some memory) bytes =
      some { status := Events.statusSuccess, stored := [0], reported := none } := by
  rw [rtlUnicodeToOemN, limit]
  rfl

/-- What is stored is what `CommandLine.rtlUnicodeToOemN` gives. -/
theorem stored_rtlUnicodeToOemN {memory : List UInt16} {converted : Converted UInt8}
    (converts : rtlUnicodeToOemN maxBytes given (some memory) bytes = some converted) :
    converted.stored =
      CommandLine.rtlUnicodeToOemN maxBytes.toNat (memory.getD · 0) bytes.toNat := by
  rw [CommandLine.rtlUnicodeToOemN]
  rw [rtlUnicodeToOemN] at converts
  generalize min (bytes.toNat / sizeofWchar) maxBytes.toNat = stop at converts ⊢
  split at converts
  · rename_i zero
    rw [if_pos zero, ← Option.some.inj converts]
  rename_i positive
  split at converts
  · exact nomatch converts
  obtain ⟨stored, copies, result⟩ := Option.bind_eq_some_iff.mp converts
  rw [copy_eq] at copies
  split at copies
  · rename_i enough
    rw [if_neg positive, ← Option.some.inj result, ← Option.some.inj copies]
    refine List.ext_getElem (by simp [enough]) fun index _ less => ?_
    have within : index < memory.length := by
      rw [List.length_map, List.length_range] at less
      exact less.trans_le enough
    simp [List.getD_eq_getElem?_getD, List.getElem?_eq_getElem within]
  · exact nomatch copies

end

/-! ### What they should do -/

/-- `RtlUnicodeToOemN` converts as many `WCHAR`s as there are and as there is room for, and reports
their number, whatever can be read behind them. -/
def Narrows (maxBytesInOemString : UInt32) (bytesInOemString : Bool)
    (bytesInUnicodeString : UInt32)
    (source : Vector UInt16 (bytesInUnicodeString.toNat / sizeofWchar))
    (behind : List UInt16) : Prop :=
  let count := min (bytesInUnicodeString.toNat / sizeofWchar) maxBytesInOemString.toNat
  rtlUnicodeToOemN maxBytesInOemString bytesInOemString (some (source.toList ++ behind))
      bytesInUnicodeString =
    some {
      status := Events.statusSuccess
      stored := (source.toList.take count).map widetoa
      reported := report bytesInOemString count }

/-- `RtlMultiByteToUnicodeN` converts as many bytes as there are and as there is room for, and
reports the bytes that these are in the destination, whatever can be read behind them. -/
def Widens (maxBytesInUnicodeString : UInt32) (bytesInUnicodeString : Bool)
    (bytesInMultiByteString : UInt32) (source : Vector UInt8 bytesInMultiByteString.toNat)
    (behind : List UInt8) : Prop :=
  let count := min (maxBytesInUnicodeString.toNat / sizeofWchar) bytesInMultiByteString.toNat
  rtlMultiByteToUnicodeN maxBytesInUnicodeString bytesInUnicodeString
      (source.toList ++ behind) bytesInMultiByteString =
    some {
      status := Events.statusSuccess
      stored := (source.toList.take count).map widen
      reported := report bytesInUnicodeString (count * sizeofWchar) }

/-- `RtlUnicodeToOemN` never stores as many characters as it should. -/
theorem not_narrows (maxBytes : UInt32) (given : Bool) (bytes : UInt32)
    (source : Vector UInt16 (bytes.toNat / sizeofWchar)) (behind : List UInt16) :
    ¬ Narrows maxBytes given bytes source behind := by
  intro narrows
  unfold Narrows at narrows
  dsimp only at narrows
  generalize limit : min (bytes.toNat / sizeofWchar) maxBytes.toNat = stop at narrows
  have enough : stop ≤ source.toList.length := by
    rw [Vector.length_toList, ← limit]
    exact Nat.min_le_left _ _
  rcases Nat.eq_zero_or_pos stop with rfl | positive
  · rw [rtlUnicodeToOemN_of_zero limit] at narrows
    cases congrArg (Option.map Converted.stored) narrows
  · have half : bytes.toNat / sizeofWchar ≤ 2 ^ 31 - 1 := by
      have less := bytes.toNat_lt
      rw [sizeofWchar]
      omega
    rcases ((limit ▸ Nat.min_le_left _ _ : stop ≤ _).trans half).eq_or_lt with large | small
    · rw [rtlUnicodeToOemN, limit] at narrows
      rw [if_neg positive.ne', if_pos large] at narrows
      cases narrows
    · rw [rtlUnicodeToOemN_of_pos limit positive small, copy_eq] at narrows
      split at narrows
      · rename_i more
        have lengths := congrArg (Option.map (List.length ∘ Converted.stored)) narrows
        simp only [Option.map_some, Function.comp_apply, List.length_map, List.length_take,
          Nat.min_eq_left more, Nat.min_eq_left enough, Option.some.injEq] at lengths
        omega
      · cases narrows

/-- `RtlMultiByteToUnicodeN` does what it should where there is something to convert and room for
one `WCHAR`. -/
theorem widens_iff (maxBytes : UInt32) (given : Bool) (bytes : UInt32)
    (source : Vector UInt8 bytes.toNat) (behind : List UInt8) :
    Widens maxBytes given bytes source behind ↔ 2 ≤ maxBytes ∧ 1 ≤ bytes := by
  have positive : 2 ≤ maxBytes ∧ 1 ≤ bytes ↔
      min (maxBytes.toNat / sizeofWchar) bytes.toNat ≠ 0 := by
    rw [UInt32.le_iff_toNat_le, UInt32.le_iff_toNat_le, sizeofWchar]
    change 2 ≤ maxBytes.toNat ∧ 1 ≤ bytes.toNat ↔ _
    omega
  rw [positive, Widens, rtlMultiByteToUnicodeN]
  generalize limit : min (maxBytes.toNat / sizeofWchar) bytes.toNat = stop
  have enough : stop ≤ source.toList.length := by
    rw [Vector.length_toList, ← limit]
    exact Nat.min_le_right _ _
  by_cases zero : stop = 0
  · rw [if_pos zero, zero]
    refine iff_of_false (fun same => ?_) (not_not_intro rfl)
    cases congrArg (Option.map Converted.stored) same
  · have longer : stop ≤ (source.toList ++ behind).length :=
      enough.trans (List.length_append ▸ Nat.le_add_right _ _)
    rw [if_neg zero, copy_of_le widen longer, List.take_append_of_le_length enough]
    exact iff_of_true rfl zero

/-- A call of one of the two functions: the room for the result, whether its length is asked for,
the bytes to be converted, and what can be read behind them. -/
inductive Call where
  | unicodeToOem (maxBytes : UInt32) (given : Bool) (bytes : UInt32)
      (source : Vector UInt16 (bytes.toNat / sizeofWchar)) (behind : List UInt16)
  | multiByteToUnicode (maxBytes : UInt32) (given : Bool) (bytes : UInt32)
      (source : Vector UInt8 bytes.toNat) (behind : List UInt8)

/-- A call does what it should. -/
def Call.Converts : Call → Prop
  | .unicodeToOem maxBytes given bytes source behind =>
    Narrows maxBytes given bytes source behind
  | .multiByteToUnicode maxBytes given bytes source behind =>
    Widens maxBytes given bytes source behind

/-- A call of `RtlMultiByteToUnicodeN` with something to convert and room for one `WCHAR`. -/
def Call.Convertible : Call → Prop
  | .unicodeToOem _ _ _ _ _ => False
  | .multiByteToUnicode maxBytes _ bytes _ _ => 2 ≤ maxBytes ∧ 1 ≤ bytes

end Nloader.Conversions
