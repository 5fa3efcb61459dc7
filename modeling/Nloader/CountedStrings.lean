/-
This file models the functions of `src/libs/ntdll/rtl.c` that make counted strings. A pointer is
the list of what can be read and written from there on, so that a buffer is as long as its block;
the blocks of the heap have the sizes that were asked for, and whatever was in them.

From bytes to `WCHAR`s and back a text stays as it is as long as its size fits into the fields. The
two lengths of `RtlInitUnicodeString` and `RtlInitAnsiString` are taken from the length of the text
whatever that is, so that they are reduced; `RtlInitAnsiStringEx` looks at it first.
-/

import Nloader.WideStrings
import Nloader.Heap

namespace Nloader.CountedStrings

open CommandLine Events Parameters Terminated

/-! ### Strings -/

/-- How a call comes to nothing: it reads what cannot be read, stores outside of a block, or an
assertion fails. -/
inductive Stop where
  | overread
  | overrun
  | abort
  deriving DecidableEq

/-- `UNICODE_STRING` and `ANSI_STRING`; a `Buffer` of `NULL` is none. -/
structure CountedString (Character : Type) where
  length : UInt16
  maximumLength : UInt16
  buffer : Option (List Character)
  deriving DecidableEq

/-- What can be read and written from `Buffer` on. -/
def CountedString.memory {Character : Type} (string : CountedString Character) : List Character :=
  string.buffer.getD []

/-- `sizeof(CHAR)`. -/
def sizeofChar : Nat := 1

/-- What is in the blocks that the heap has for a number of characters. -/
abbrev Blocks (Character : Type) : Type := (count : Nat) → Vector Character count

section

variable {Character Source Target : Type}

/-- `RtlAllocateHeap`, for a number of characters. -/
def rtlAllocateHeap (sizeofCharacter : Nat) (blocks : Blocks Character) (count : Nat) :
    Except Stop (List Character) :=
  if count * sizeofCharacter < Heap.maxHeapAlloc then .ok (blocks count).toList else .error .abort

/-- `DestinationString->Buffer`, which is allocated or the one of the caller. -/
def destinationBuffer (sizeofCharacter : Nat) (blocks : Blocks Character) (count : Nat)
    (destination : CountedString Character) (allocateDestinationString : Bool) :
    Except Stop (List Character) :=
  if allocateDestinationString then rtlAllocateHeap sizeofCharacter blocks count
  else .ok destination.memory

/-- What is read, or the end of what can be read. -/
def orOverread {Value : Type} (value : Option Value) : Except Stop Value :=
  value.elim (.error .overread) .ok

/-- Stores at the beginning of a block. -/
def put (block text : List Character) : Except Stop (List Character) :=
  if text.length ≤ block.length then .ok (text ++ block.drop text.length) else .error .overrun

theorem put_of_le {block text : List Character} (short : text.length ≤ block.length) :
    put block text = .ok (text ++ block.drop text.length) :=
  if_pos short

theorem length_put {block text next : List Character} (puts : put block text = .ok next) :
    next.length = block.length := by
  rw [put] at puts
  split at puts
  · rename_i short
    rw [← Except.ok.inj puts, List.length_append, List.length_drop]
    omega
  · exact nomatch puts

/-- A store at an index of a block. -/
def write (block : List Character) (index : Nat) (c : Character) : Except Stop (List Character) :=
  if index < block.length then .ok (block.set index c) else .error .overrun

/-- The loop that converts and stores the counted characters, and the zero behind it. -/
def fill [OfNat Target 0] (convert : Source → Target) (len : Nat) (source : List Source)
    (block : List Target) : Except Stop (List Target) := do
  let text ← orOverread (copy convert len source)
  put block (text ++ [0])

/-- A text and its zero are stored where there is room for them. -/
theorem fill_eq [OfNat Target 0] (convert : Source → Target) {len : Nat} {source : List Source}
    (counted : len ≤ source.length) (block : List Target) :
    fill convert len source block =
      if len < block.length then
        .ok ((source.take len).map convert ++ 0 :: block.drop (len + 1))
      else .error .overrun := by
  have length : ((source.take len).map convert ++ [0]).length = len + 1 := by
    rw [List.length_append, List.length_map, List.length_take, Nat.min_eq_left counted,
      List.length_singleton]
  rw [fill, copy_of_le convert counted]
  change put block ((source.take len).map convert ++ [0]) = _
  rw [put, length, List.append_assoc, List.singleton_append]
  rfl

/-- A block is as long as it was asked for, or as that of the caller. -/
theorem exists_destinationBuffer {sizeofCharacter count : Nat} (blocks : Blocks Character)
    (small : count * sizeofCharacter < Heap.maxHeapAlloc) (destination : CountedString Character)
    (allocate : Bool) :
    ∃ block : List Character,
      block.length = (if allocate then count else destination.memory.length) ∧
      destinationBuffer sizeofCharacter blocks count destination allocate = .ok block := by
  cases allocate with
  | true => exact ⟨(blocks count).toList, Vector.length_toList, if_pos small⟩
  | false => exact ⟨destination.memory, rfl, rfl⟩

end

/-! ### From one kind of string to the other -/

/-- `RtlUnicodeStringToAnsiString`. -/
def rtlUnicodeStringToAnsiString (blocks : Blocks UInt8) (destination : CountedString UInt8)
    (source : CountedString UInt16) (allocateDestinationString : Bool) :
    Except Stop (Status × CountedString UInt8) := do
  let len := source.length / 2
  let alloc := source.maximumLength / 2
  let buffer ←
    destinationBuffer sizeofChar blocks alloc.toNat destination allocateDestinationString
  let buffer ← fill widetoa len.toNat source.memory buffer
  .ok (statusSuccess, { length := len, maximumLength := alloc, buffer := some buffer })

/-- `RtlAnsiStringToUnicodeString`. -/
def rtlAnsiStringToUnicodeString (blocks : Blocks UInt16) (destination : CountedString UInt16)
    (source : CountedString UInt8) (allocateDestinationString : Bool) :
    Except Stop (Status × CountedString UInt16) := do
  let len := source.length
  let alloc := source.maximumLength * 2
  let buffer ←
    destinationBuffer sizeofWchar blocks (alloc.toNat / sizeofWchar) destination
      allocateDestinationString
  let buffer ← fill widen len.toNat source.memory buffer
  .ok (statusSuccess, { length := len * 2, maximumLength := alloc, buffer := some buffer })

section

variable (allocate : Bool)

/-- The number of characters that `RtlUnicodeStringToAnsiString` has room for. -/
def ansiCapacity (destination : CountedString UInt8) (source : CountedString UInt16)
    (allocate : Bool) : Nat :=
  if allocate then source.maximumLength.toNat / sizeofWchar else destination.memory.length

/-- The number of characters that `RtlAnsiStringToUnicodeString` has room for. -/
def unicodeCapacity (destination : CountedString UInt16) (source : CountedString UInt8)
    (allocate : Bool) : Nat :=
  if allocate then (source.maximumLength.toNat * sizeofWchar % 2 ^ 16) / sizeofWchar
  else destination.memory.length

/-- `RtlUnicodeStringToAnsiString` succeeds where there is room for the text and its zero, and
otherwise stores the zero, or more, behind the room. -/
theorem rtlUnicodeStringToAnsiString_eq (blocks : Blocks UInt8)
    (destination : CountedString UInt8) {source : CountedString UInt16}
    (counted : source.length.toNat / sizeofWchar ≤ source.memory.length) :
    ∃ block : List UInt8, block.length = ansiCapacity destination source allocate ∧
      rtlUnicodeStringToAnsiString blocks destination source allocate =
        if source.length.toNat / sizeofWchar < ansiCapacity destination source allocate then
          .ok (statusSuccess, {
            length := source.length / 2
            maximumLength := source.maximumLength / 2
            buffer := some ((source.memory.take (source.length.toNat / sizeofWchar)).map widetoa ++
              0 :: block.drop (source.length.toNat / sizeofWchar + 1)) })
        else .error .overrun := by
  have len : (source.length / 2).toNat = source.length.toNat / sizeofWchar := UInt16.toNat_div _ _
  have alloc : (source.maximumLength / 2).toNat = source.maximumLength.toNat / sizeofWchar :=
    UInt16.toNat_div _ _
  have small : source.maximumLength.toNat / sizeofWchar * sizeofChar < Heap.maxHeapAlloc := by
    have less := source.maximumLength.toNat_lt
    rw [sizeofWchar, sizeofChar, Heap.maxHeapAlloc]
    omega
  obtain ⟨block, length, chosen⟩ := exists_destinationBuffer blocks small destination allocate
  refine ⟨block, length, ?_⟩
  rw [rtlUnicodeStringToAnsiString, len, alloc, chosen]
  change (fill widetoa _ source.memory block >>= _) = _
  rw [fill_eq widetoa counted,
    show block.length = ansiCapacity destination source allocate from length]
  split <;> rfl

/-- `RtlAnsiStringToUnicodeString` succeeds where there is room for the text and its zero, and
otherwise stores the zero, or more, behind the room. -/
theorem rtlAnsiStringToUnicodeString_eq (blocks : Blocks UInt16)
    (destination : CountedString UInt16) {source : CountedString UInt8}
    (counted : source.length.toNat ≤ source.memory.length) :
    ∃ block : List UInt16, block.length = unicodeCapacity destination source allocate ∧
      rtlAnsiStringToUnicodeString blocks destination source allocate =
        if source.length.toNat < unicodeCapacity destination source allocate then
          .ok (statusSuccess, {
            length := source.length * 2
            maximumLength := source.maximumLength * 2
            buffer := some ((source.memory.take source.length.toNat).map widen ++
              0 :: block.drop (source.length.toNat + 1)) })
        else .error .overrun := by
  have alloc : (source.maximumLength * 2).toNat =
      source.maximumLength.toNat * sizeofWchar % 2 ^ 16 := UInt16.toNat_mul _ _
  have small : source.maximumLength.toNat * sizeofWchar % 2 ^ 16 / sizeofWchar * sizeofWchar <
      Heap.maxHeapAlloc := by
    rw [Heap.maxHeapAlloc, sizeofWchar]
    omega
  obtain ⟨block, length, chosen⟩ := exists_destinationBuffer blocks small destination allocate
  refine ⟨block, length, ?_⟩
  rw [rtlAnsiStringToUnicodeString, alloc, chosen]
  change (fill widen _ source.memory block >>= _) = _
  rw [fill_eq widen counted,
    show block.length = unicodeCapacity destination source allocate from length]
  split <;> rfl

end

/-! ### There and back -/

/-- A string ends in a zero behind its counted characters. -/
def Terminates {Character : Type} [OfNat Character 0] (sizeofCharacter : Nat)
    (string : CountedString Character) : Prop :=
  string.memory[string.length.toNat / sizeofCharacter]? = some 0

/-- What the two conversions should make of a string of bytes: the same lengths and bytes, in blocks
that both texts and their zeros lie in. -/
structure Returns (source ansi : CountedString UInt8) (unicode : CountedString UInt16) : Prop where
  length : ansi.length = source.length
  maximumLength : ansi.maximumLength = source.maximumLength
  bytes : ansi.memory.take ansi.length.toNat = source.memory.take source.length.toNat
  unicodeTerminates : Terminates sizeofWchar unicode
  ansiTerminates : Terminates sizeofChar ansi

/-- Behind as many characters as there are in front the zero is found. -/
theorem getElem?_zero {Character : Type} [OfNat Character 0] {front : List Character} {len : Nat}
    (length : front.length = len) (behind : List Character) :
    (front ++ 0 :: behind)[len]? = some 0 := by
  rw [List.getElem?_append_right length.le, length, Nat.sub_self]
  rfl

theorem toNat_double {value : UInt16} (small : value.toNat ≤ 32767) :
    (value * 2).toNat = value.toNat * 2 := by
  rw [UInt16.toNat_mul]
  exact Nat.mod_eq_of_lt (show value.toNat * 2 < 2 ^ 16 by omega)

theorem half_double {value : UInt16} (small : value.toNat ≤ 32767) : value * 2 / 2 = value := by
  rw [← UInt16.toNat_inj, UInt16.toNat_div, toNat_double small]
  exact Nat.mul_div_cancel _ (by decide)

/-- A string whose size can be doubled is converted to `WCHAR`s. -/
theorem rtlAnsiStringToUnicodeString_double (blocks : Blocks UInt16)
    (destination : CountedString UInt16) {source : CountedString UInt8}
    (counted : source.length.toNat ≤ source.memory.length)
    (less : source.length.toNat < source.maximumLength.toNat)
    (small : source.maximumLength.toNat ≤ 32767) :
    ∃ behind, rtlAnsiStringToUnicodeString blocks destination source true =
      .ok (statusSuccess, {
        length := source.length * 2
        maximumLength := source.maximumLength * 2
        buffer := some ((source.memory.take source.length.toNat).map widen ++ 0 :: behind) }) := by
  have capacity : unicodeCapacity destination source true = source.maximumLength.toNat := by
    rw [unicodeCapacity, if_pos rfl, sizeofWchar, Nat.mod_eq_of_lt (by omega)]
    exact Nat.mul_div_cancel _ (by decide)
  obtain ⟨block, _, runs⟩ := rtlAnsiStringToUnicodeString_eq true blocks destination counted
  rw [capacity, if_pos less] at runs
  exact ⟨_, runs⟩

/-- A string of `WCHAR`s that ends in a zero is converted to bytes. -/
theorem rtlUnicodeStringToAnsiString_half (blocks : Blocks UInt8)
    (destination : CountedString UInt8) {length maximumLength : UInt16} {text : List UInt16}
    (same : length.toNat / sizeofWchar = text.length)
    (less : text.length < maximumLength.toNat / sizeofWchar) (behind : List UInt16) :
    ∃ rest, rtlUnicodeStringToAnsiString blocks destination
        { length := length, maximumLength := maximumLength, buffer := text ++ 0 :: behind } true =
      .ok (statusSuccess, {
        length := length / 2
        maximumLength := maximumLength / 2
        buffer := some (text.map widetoa ++ 0 :: rest) }) := by
  let source : CountedString UInt16 :=
    { length := length, maximumLength := maximumLength, buffer := text ++ 0 :: behind }
  have readable : source.length.toNat / sizeofWchar ≤ source.memory.length := by
    change length.toNat / sizeofWchar ≤ (text ++ 0 :: behind).length
    rw [same, List.length_append]
    exact Nat.le_add_right _ _
  have counted : source.memory.take (length.toNat / sizeofWchar) = text := by
    rw [same]
    exact List.take_left
  have capacity : ansiCapacity destination source true = maximumLength.toNat / sizeofWchar :=
    if_pos rfl
  obtain ⟨block, _, runs⟩ := rtlUnicodeStringToAnsiString_eq true blocks destination readable
  rw [capacity, if_pos (show length.toNat / sizeofWchar < _ from same ▸ less), counted] at runs
  exact ⟨_, runs⟩

/-- From bytes to `WCHAR`s and back a string stays the same. -/
theorem ansi_unicode_ansi (wideBlocks : Blocks UInt16) (narrowBlocks : Blocks UInt8)
    (first : CountedString UInt16) (second source : CountedString UInt8)
    (counted : source.length.toNat ≤ source.memory.length)
    (less : source.length < source.maximumLength) (small : source.maximumLength ≤ 32767) :
    ∃ unicode ansi,
      rtlAnsiStringToUnicodeString wideBlocks first source true = .ok (statusSuccess, unicode) ∧
      rtlUnicodeStringToAnsiString narrowBlocks second unicode true = .ok (statusSuccess, ansi) ∧
      Returns source ansi unicode := by
  rw [UInt16.lt_iff_toNat_lt] at less
  rw [UInt16.le_iff_toNat_le] at small
  change source.maximumLength.toNat ≤ 32767 at small
  have short : source.length.toNat ≤ 32767 := less.le.trans small
  have taken : (source.memory.take source.length.toNat).length = source.length.toNat :=
    (List.length_take).trans (Nat.min_eq_left counted)
  have copied : ((source.memory.take source.length.toNat).map widen).length =
      source.length.toNat := (List.length_map _).trans taken
  have bytes : ((source.memory.take source.length.toNat).map widen).map widetoa =
      source.memory.take source.length.toNat := by
    rw [List.map_map]
    exact (List.map_congr_left fun char _ => widetoa_widen char).trans (List.map_id _)
  have len : (source.length * 2).toNat / sizeofWchar = source.length.toNat := by
    rw [toNat_double short]
    exact Nat.mul_div_cancel _ (by decide)
  have alloc : (source.maximumLength * 2).toNat / sizeofWchar = source.maximumLength.toNat := by
    rw [toNat_double small]
    exact Nat.mul_div_cancel _ (by decide)
  obtain ⟨behind, widens⟩ :=
    rtlAnsiStringToUnicodeString_double wideBlocks first counted less small
  obtain ⟨rest, narrows⟩ := rtlUnicodeStringToAnsiString_half narrowBlocks second
    (len.trans copied.symm) (show _ < (source.maximumLength * 2).toNat / sizeofWchar by
      rw [alloc, copied]
      exact less) behind
  rw [bytes, half_double short, half_double small] at narrows
  refine ⟨_, _, widens, narrows, rfl, rfl, ?_, ?_, ?_⟩
  · exact List.take_left' taken
  · rw [Terminates, len]
    exact getElem?_zero copied behind
  · rw [Terminates, sizeofChar, Nat.div_one]
    exact getElem?_zero taken rest

/-- `"A\xff"`. -/
def exampleString : CountedString UInt8 where
  length := 2
  maximumLength := 3
  buffer := some [0x41, 0xff, 0]

/-- A block of zeros for every size. -/
def zeroBlocks (Character : Type) [OfNat Character 0] : Blocks Character :=
  fun count => .replicate count 0

theorem ansi_unicode_ansi_exampleString :
    ∃ unicode ansi,
      rtlAnsiStringToUnicodeString (zeroBlocks UInt16) ⟨0, 0, none⟩ exampleString true =
        .ok (statusSuccess, unicode) ∧
      rtlUnicodeStringToAnsiString (zeroBlocks UInt8) ⟨0, 0, none⟩ unicode true =
        .ok (statusSuccess, ansi) ∧
      Returns exampleString ansi unicode :=
  ansi_unicode_ansi (zeroBlocks UInt16) (zeroBlocks UInt8) ⟨0, 0, none⟩ ⟨0, 0, none⟩ exampleString
    (by decide) (by decide) (by decide)

/-! ### Strings of texts -/

/-- `STATUS_NAME_TOO_LONG`. -/
def statusNameTooLong : Status := 0xC0000106

/-- The string of `NULL`. -/
def nullString {Character : Type} : CountedString Character where
  length := 0
  maximumLength := 0
  buffer := none

/-- `RtlInitUnicodeString`. -/
def rtlInitUnicodeString (sourceString : Option (List UInt16)) :
    Except Stop (CountedString UInt16) :=
  match sourceString with
  | none => .ok nullString
  | some source => do
    let len ← orOverread (WideStrings.rplWcslen source)
    let length : UInt16 := .ofNat (len * sizeofWchar)
    .ok { length := length, maximumLength := length + 2, buffer := source }

/-- `RtlInitAnsiString`. -/
def rtlInitAnsiString (sourceString : Option (List UInt8)) : Except Stop (CountedString UInt8) :=
  match sourceString with
  | none => .ok nullString
  | some source => do
    let len ← orOverread (Terminated.length source)
    let length : UInt16 := .ofNat len
    .ok { length := length, maximumLength := length + 1, buffer := source }

/-- `RtlInitAnsiStringEx`. Where it fails it does not touch the string. -/
def rtlInitAnsiStringEx (destinationString : CountedString UInt8)
    (sourceString : Option (List UInt8)) : Except Stop (Status × CountedString UInt8) :=
  match sourceString with
  | none => .ok (statusSuccess, nullString)
  | some source => do
    let len ← orOverread (Terminated.length source)
    if 0xffff < len + 1 then .ok (statusNameTooLong, destinationString)
    else
      .ok (statusSuccess, {
        length := .ofNat len
        maximumLength := .ofNat (len + 1)
        buffer := source })

/-- A counted string stands for a beginning of a text: it has room behind its whole characters, and
these are all of the text where its size and that of its zero fit into the fields; the length is
never one that has been reduced. -/
structure Denotes {Character : Type} [OfNat Character 0] (sizeofCharacter : Nat)
    (string : CountedString Character) (text : Text Character) : Prop where
  less : string.length < string.maximumLength
  whole : sizeofCharacter ∣ string.length.toNat
  isPrefix : string.memory.take (string.length.toNat / sizeofCharacter) <+: text.characters
  full : (text.characters.length + 1) * sizeofCharacter < 2 ^ 16 →
    string.length.toNat = text.characters.length * sizeofCharacter
  notReduced : 2 ^ 16 ≤ text.characters.length * sizeofCharacter →
    string.length.toNat ≠ text.characters.length * sizeofCharacter % 2 ^ 16

/-- A length and the one of the zero behind it are as they should be where they fit. -/
theorem denotes_iff {Character : Type} [OfNat Character 0] (sizeofCharacter : Nat)
    (positive : 0 < sizeofCharacter) (divides : sizeofCharacter ∣ 2 ^ 16) (text : Text Character)
    (behind : List Character) :
    Denotes sizeofCharacter
        { length := .ofNat (text.characters.length * sizeofCharacter)
          maximumLength := .ofNat (text.characters.length * sizeofCharacter) +
            .ofNat sizeofCharacter
          buffer := some (text.memory ++ behind) } text ↔
      (text.characters.length + 1) * sizeofCharacter < 2 ^ 16 := by
  have length : (UInt16.ofNat (text.characters.length * sizeofCharacter)).toNat =
      text.characters.length * sizeofCharacter % 2 ^ 16 := UInt16.toNat_ofNat'
  have maximumLength : (UInt16.ofNat (text.characters.length * sizeofCharacter) +
      UInt16.ofNat sizeofCharacter).toNat =
      (text.characters.length + 1) * sizeofCharacter % 2 ^ 16 := by
    rw [UInt16.toNat_add, length, UInt16.toNat_ofNat', ← Nat.add_mod, Nat.succ_mul]
  constructor
  · intro denotes
    by_contra large
    rcases Nat.lt_or_ge (text.characters.length * sizeofCharacter) (2 ^ 16) with small | reduced
    · -- All of the text fits, but not its zero, whose end is stored as 0.
      obtain ⟨count, counted⟩ := divides
      have next : text.characters.length + 1 ≤ count := by
        rw [counted, Nat.mul_comm sizeofCharacter] at small
        exact Nat.lt_of_mul_lt_mul_right small
      have reached : (text.characters.length + 1) * sizeofCharacter = 2 ^ 16 := by
        refine le_antisymm ?_ (not_lt.mp large)
        rw [counted, Nat.mul_comm sizeofCharacter]
        exact Nat.mul_le_mul_right _ next
      have less := UInt16.lt_iff_toNat_lt.mp denotes.less
      rw [maximumLength, reached, Nat.mod_self] at less
      exact absurd less (Nat.not_lt_zero _)
    · exact denotes.notReduced reduced length
  · intro fits
    have small : text.characters.length * sizeofCharacter < 2 ^ 16 :=
      (Nat.mul_le_mul_right _ (Nat.le_succ _)).trans_lt fits
    rw [Nat.mod_eq_of_lt small] at length
    rw [Nat.mod_eq_of_lt fits] at maximumLength
    refine ⟨?_, ?_, ?_, fun _ => length, fun reduced => absurd reduced (not_le.mpr small)⟩
    · rw [UInt16.lt_iff_toNat_lt, length, maximumLength, Nat.succ_mul]
      exact Nat.lt_add_of_pos_right positive
    · rw [length]
      exact Nat.dvd_mul_left _ _
    · rw [length, Nat.mul_div_cancel _ positive, CountedString.memory, Option.getD_some,
        Text.memory, List.append_assoc, List.take_left]

section

variable (wide : Text UInt16) (wideBehind : List UInt16) (narrow : Text UInt8)
  (narrowBehind : List UInt8)

theorem rtlInitUnicodeString_text :
    rtlInitUnicodeString (some (wide.memory ++ wideBehind)) = .ok {
      length := .ofNat (wide.characters.length * sizeofWchar)
      maximumLength := .ofNat (wide.characters.length * sizeofWchar) + .ofNat sizeofWchar
      buffer := some (wide.memory ++ wideBehind) } := by
  rw [rtlInitUnicodeString, WideStrings.rplWcslen, length_text]
  rfl

theorem rtlInitAnsiString_text :
    rtlInitAnsiString (some (narrow.memory ++ narrowBehind)) = .ok {
      length := .ofNat (narrow.characters.length * sizeofChar)
      maximumLength := .ofNat (narrow.characters.length * sizeofChar) + .ofNat sizeofChar
      buffer := some (narrow.memory ++ narrowBehind) } := by
  rw [rtlInitAnsiString, length_text, sizeofChar, Nat.mul_one]
  rfl

theorem rtlInitAnsiStringEx_text (destination : CountedString UInt8) :
    rtlInitAnsiStringEx destination (some (narrow.memory ++ narrowBehind)) =
      if 0xffff < narrow.characters.length + 1 then .ok (statusNameTooLong, destination)
      else .ok (statusSuccess, {
        length := .ofNat narrow.characters.length
        maximumLength := .ofNat (narrow.characters.length + 1)
        buffer := some (narrow.memory ++ narrowBehind) }) := by
  rw [rtlInitAnsiStringEx, length_text]
  rfl

/-- Whatever succeeds in its check fits into the fields. -/
theorem denotes_rtlInitAnsiStringEx {destination string : CountedString UInt8}
    (inits : rtlInitAnsiStringEx destination (some (narrow.memory ++ narrowBehind)) =
      .ok (statusSuccess, string)) : Denotes sizeofChar string narrow := by
  rw [rtlInitAnsiStringEx_text] at inits
  split at inits
  · have fails : statusNameTooLong ≠ statusSuccess := by decide
    exact absurd (Prod.mk.inj (Except.ok.inj inits)).1 fails
  · rename_i short
    have small : (narrow.characters.length + 1) * sizeofChar < 2 ^ 16 := by
      rw [sizeofChar]
      omega
    have fits :=
      (denotes_iff sizeofChar (by decide) (by decide) narrow narrowBehind).mpr small
    rw [Nat.mul_comm, sizeofChar, Nat.one_mul, ← UInt16.ofNat_add] at fits
    obtain ⟨-, rfl⟩ := Prod.mk.inj (Except.ok.inj inits)
    exact fits

end

/-- A call for a text, with what can be read behind it, and for `RtlInitAnsiStringEx` with what the
string was before. -/
inductive Init where
  | unicode (text : Text UInt16) (behind : List UInt16)
  | ansi (text : Text UInt8) (behind : List UInt8)
  | ansiEx (text : Text UInt8) (behind : List UInt8) (destination : CountedString UInt8)

/-- The string that a call makes stands for its text, if the call succeeds. -/
def Init.Exact : Init → Prop
  | .unicode text behind =>
    ∃ string, rtlInitUnicodeString (some (text.memory ++ behind)) = .ok string ∧
      Denotes sizeofWchar string text
  | .ansi text behind =>
    ∃ string, rtlInitAnsiString (some (text.memory ++ behind)) = .ok string ∧
      Denotes sizeofChar string text
  | .ansiEx text behind destination => ∀ string,
    rtlInitAnsiStringEx destination (some (text.memory ++ behind)) = .ok (statusSuccess, string) →
      Denotes sizeofChar string text

/-- The length of the text is one that the string can have. -/
def Init.Short : Init → Prop
  | .unicode text _ => text.characters.length ≤ 32766
  | .ansi text _ => text.characters.length ≤ 65534
  | .ansiEx _ _ _ => True

/-- `RtlInitUnicodeString` stands for texts of at most 32766 characters, `RtlInitAnsiString` for
those of at most 65534, and `RtlInitAnsiStringEx` wherever it succeeds. -/
theorem init_iff (init : Init) : init.Exact ↔ init.Short := by
  have only {Value : Type} (value : Value) (property : Value → Prop) :
      (∃ string, (.ok value : Except Stop Value) = .ok string ∧ property string) ↔
        property value :=
    ⟨fun ⟨_, same, holds⟩ => Except.ok.inj same ▸ holds, fun holds => ⟨value, rfl, holds⟩⟩
  cases init with
  | unicode text behind =>
    rw [Init.Exact, Init.Short, rtlInitUnicodeString_text, only,
      denotes_iff _ (by decide) (by decide), sizeofWchar]
    omega
  | ansi text behind =>
    rw [Init.Exact, Init.Short, rtlInitAnsiString_text, only,
      denotes_iff _ (by decide) (by decide), sizeofChar]
    omega
  | ansiEx text behind destination =>
    exact iff_true_intro fun string inits => denotes_rtlInitAnsiStringEx text behind inits

/-- A text of as many characters. -/
def exampleText (count : Nat) : Text UInt16 where
  characters := List.replicate count 0x61
  nonzero within := absurd (List.eq_of_mem_replicate within) (by decide)

/-- The length of a text of 32768 characters is stored as 0. -/
theorem not_init : ¬ ∀ init : Init, init.Exact := by
  intro all
  obtain ⟨string, inits, denotes⟩ := all (.unicode (exampleText 32768) [])
  have count : (exampleText 32768).characters.length = 32768 := List.length_replicate
  rw [rtlInitUnicodeString_text, count] at inits
  obtain rfl := Except.ok.inj inits
  refine denotes.notReduced ?_ ?_
  · rw [count, sizeofWchar]
    decide
  · rw [count]
    rfl

end Nloader.CountedStrings
