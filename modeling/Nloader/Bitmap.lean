/-
This file models the bitmaps of `src/libs/ntdll/bitmap.c`, with `RtlFillMemoryUlong` of
`src/libs/ntdll/rtl.c`. A `ULONG` is a 32-bit word whose arithmetic wraps; a bitmap is its size and
the words from `Buffer` on, those behind the last bit included, and a pointer into the buffer is the
index of a word. A search that could go round for ever is cut off after a number of turns.
-/

import Nloader.Library.BitRuns
import Nloader.Library.Outcome

namespace Nloader.Bitmap

open Outcome

/-- `MAXULONG`. -/
def maxUlong : UInt32 := 0xffffffff

/-- `RTL_BITMAP`, with the words that `Buffer` points to. -/
structure RtlBitmap where
  sizeOfBitMap : UInt32
  buffer : Nat → UInt32

/-- A bit of a word, the least significant one first. -/
def wordBit (word : UInt32) (position : Nat) : Bool := word.toBitVec.getLsbD position

/-- A bit of a sequence of words. -/
def bitAt (words : Nat → UInt32) (index : Nat) : Bool := wordBit (words (index / 32)) (index % 32)

/-- A bit of a bitmap. -/
def RtlBitmap.bit (bitMapHeader : RtlBitmap) : Nat → Bool := bitAt bitMapHeader.buffer

/-! ### The length of a run -/

/-- `BitScanForward`: the lowest set bit of a mask, if there is one. -/
def bitScanForward (mask : UInt32) : Option UInt32 :=
  if mask = 0 then none else some (.ofBitVec mask.toBitVec.ctz)

/-- `while (Value == 0 && Buffer < MaxBuffer)`, with the number of words that are left: `Buffer` and
`Value`. -/
def skipUlongs (read : Nat → UInt32) : Nat → Nat → UInt32 → Nat × UInt32
  | 0, buffer, value => (buffer, value)
  | left + 1, buffer, value =>
    if value = 0 then skipUlongs read left (buffer + 1) (read buffer) else (buffer, value)

/-- The function that `RtlpGetLengthOfRunClear` and `RtlpGetLengthOfRunSet` both are, with what a
word is read as. -/
def rtlpGetLengthOfRun (flip : UInt32 → UInt32) (bitMapHeader : RtlBitmap)
    (startingIndex maxLength : UInt32) : UInt32 :=
  let read := fun buffer => flip (bitMapHeader.buffer buffer)
  let buffer := (startingIndex / 32).toNat
  let bitPos := startingIndex &&& 31
  let room := bitMapHeader.sizeOfBitMap - startingIndex
  let maxLength := if maxLength < room then maxLength else room
  let maxBuffer := buffer + ((bitPos + maxLength + 31) / 32).toNat
  let value := (read buffer >>> bitPos) <<< bitPos
  let (buffer, value) := skipUlongs read (maxBuffer - (buffer + 1)) (buffer + 1) value
  if value = 0 then maxLength
  else
    let bitPos := (bitScanForward value).getD bitPos
    let length := .ofNat (buffer * 32) - startingIndex
    let length := length + (bitPos - 32)
    if room < length then room else length

/-- `RtlpGetLengthOfRunClear`. -/
def rtlpGetLengthOfRunClear : RtlBitmap → UInt32 → UInt32 → UInt32 :=
  rtlpGetLengthOfRun fun word => word

/-- `RtlpGetLengthOfRunSet`. -/
def rtlpGetLengthOfRunSet : RtlBitmap → UInt32 → UInt32 → UInt32 :=
  rtlpGetLengthOfRun fun word => ~~~ word

/-- `RtlAreBitsClear`. -/
def rtlAreBitsClear (bitMapHeader : RtlBitmap) (startingIndex length : UInt32) : Bool :=
  length ≤ rtlpGetLengthOfRunClear bitMapHeader startingIndex length

/-- `RtlAreBitsSet`. -/
def rtlAreBitsSet (bitMapHeader : RtlBitmap) (startingIndex length : UInt32) : Bool :=
  length ≤ rtlpGetLengthOfRunSet bitMapHeader startingIndex length

/-! ### Setting and clearing bits -/

/-- `while (Count > 0)`. -/
def fillLoop (fill : UInt32) : Nat → Nat → (Nat → UInt32) → Nat → UInt32
  | 0, _, memory => memory
  | count + 1, dest, memory => fillLoop fill count (dest + 1) (Function.update memory dest fill)

/-- `RtlFillMemoryUlong`. -/
def rtlFillMemoryUlong (memory : Nat → UInt32) (destination : Nat) (length fill : UInt32) :
    Nat → UInt32 :=
  fillLoop fill (length / 4).toNat destination memory

/-- What `RtlClearBits` and `RtlSetBits` store: a word with the bits of a mask overwritten, a word
with the bits outside of a mask overwritten, and a full word. -/
structure Overwrite where
  inside : UInt32 → UInt32 → UInt32
  outside : UInt32 → UInt32 → UInt32
  fill : UInt32

/-- The end of `RtlClearBits` and `RtlSetBits`: the full words, and what is left. -/
def overwriteAligned (overwrite : Overwrite) (memory : Nat → UInt32) (buffer : Nat)
    (number : UInt32) : Nat → UInt32 :=
  let memory := rtlFillMemoryUlong memory buffer (number >>> 3) overwrite.fill
  let buffer := buffer + (number >>> 5).toNat
  let number := number &&& 31
  let mask := maxUlong <<< number
  Function.update memory buffer (overwrite.outside (memory buffer) mask)

/-- The function that `RtlClearBits` and `RtlSetBits` both are. -/
def overwriteBits (overwrite : Overwrite) (bitMapHeader : RtlBitmap)
    (startingIndex number : UInt32) : RtlBitmap :=
  let memory := bitMapHeader.buffer
  let buffer := (startingIndex >>> 5).toNat
  let bits := startingIndex &&& 31
  if bits ≠ 0 then
    let mask := maxUlong <<< bits
    let bits := 32 - bits
    if number < bits then
      let bits := bits - number
      let mask := (mask <<< bits) >>> bits
      { bitMapHeader with
        buffer := Function.update memory buffer (overwrite.inside (memory buffer) mask) }
    else
      let memory := Function.update memory buffer (overwrite.inside (memory buffer) mask)
      { bitMapHeader with
        buffer := overwriteAligned overwrite memory (buffer + 1) (number - bits) }
  else { bitMapHeader with buffer := overwriteAligned overwrite memory buffer number }

/-- The stores of `RtlClearBits`: `*Buffer &= ~Mask`, `*Buffer &= Mask` and 0. -/
def clearing : Overwrite where
  inside := fun word mask => word &&& ~~~ mask
  outside := fun word mask => word &&& mask
  fill := 0

/-- The stores of `RtlSetBits`: `*Buffer |= Mask`, `*Buffer |= ~Mask` and `MAXULONG`. -/
def setting : Overwrite where
  inside := fun word mask => word ||| mask
  outside := fun word mask => word ||| ~~~ mask
  fill := maxUlong

/-- `RtlClearBits`. -/
def rtlClearBits : RtlBitmap → UInt32 → UInt32 → RtlBitmap := overwriteBits clearing

/-- `RtlSetBits`. -/
def rtlSetBits : RtlBitmap → UInt32 → UInt32 → RtlBitmap := overwriteBits setting

/-! ### Searches -/

/-- The search goes round more often than it is let. -/
inductive Stop where
  | outOfTurns
  deriving DecidableEq

/-- A turn of `while (CurrentBit + NumberToFind < Margin)`: the next `CurrentBit`, what the function
returns from within the loop, or nothing where the loop ends. -/
def findTurn (bitMapHeader : RtlBitmap) (numberToFind margin currentBit : UInt32) :
    Except Stop (Turn UInt32 (Option UInt32)) :=
  if currentBit + numberToFind < margin then
    let currentBit := currentBit + rtlpGetLengthOfRunSet bitMapHeader currentBit maxUlong
    let currentLength := rtlpGetLengthOfRunClear bitMapHeader currentBit numberToFind
    if numberToFind ≤ currentLength then pure (.leave (some currentBit))
    else pure (.again (currentBit + currentLength))
  else pure (.leave none)

/-- One pass of `RtlFindClearBits`, from `retry` on. -/
def findPass (turns : Nat) (bitMapHeader : RtlBitmap) (numberToFind margin hintIndex : UInt32) :
    Except Stop (Option UInt32) :=
  repeatLoop .outOfTurns (findTurn bitMapHeader numberToFind margin) turns hintIndex

/-- `RtlFindClearBits`. The second pass starts at 0, so that it is the last. -/
def rtlFindClearBits (turns : Nat) (bitMapHeader : RtlBitmap) (numberToFind hintIndex : UInt32) :
    Except Stop UInt32 :=
  if bitMapHeader.sizeOfBitMap < numberToFind then pure maxUlong
  else if numberToFind = 0 then pure hintIndex
  else do
    match ← findPass turns bitMapHeader numberToFind bitMapHeader.sizeOfBitMap hintIndex with
    | some currentBit => pure currentBit
    | none =>
      if hintIndex ≠ 0 then
        let margin :=
          if hintIndex + numberToFind < bitMapHeader.sizeOfBitMap then hintIndex + numberToFind
          else bitMapHeader.sizeOfBitMap
        return (← findPass turns bitMapHeader numberToFind margin 0).getD maxUlong
      else pure maxUlong

/-- `RtlFindClearBitsAndSet`. -/
def rtlFindClearBitsAndSet (turns : Nat) (bitMapHeader : RtlBitmap)
    (numberToFind hintIndex : UInt32) : Except Stop (UInt32 × RtlBitmap) := do
  let position ← rtlFindClearBits turns bitMapHeader numberToFind hintIndex
  if position ≠ maxUlong then pure (position, rtlSetBits bitMapHeader position numberToFind)
  else pure (position, bitMapHeader)

/-- `RtlFindNextForwardRunClear`: what it returns, and `*StartingRunIndex`. -/
def rtlFindNextForwardRunClear (bitMapHeader : RtlBitmap) (fromIndex : UInt32) :
    UInt32 × UInt32 :=
  let length := rtlpGetLengthOfRunSet bitMapHeader fromIndex maxUlong
  let startingRunIndex := fromIndex + length
  (rtlpGetLengthOfRunClear bitMapHeader (fromIndex + length) maxUlong, startingRunIndex)

/-! ### Counts -/

/-- `BitCountTable`. -/
def bitCountTable : List UInt8 := [
    0, 1, 1, 2, 1, 2, 2, 3, 1, 2, 2, 3, 2, 3, 3, 4,
    1, 2, 2, 3, 2, 3, 3, 4, 2, 3, 3, 4, 3, 4, 4, 5,
    1, 2, 2, 3, 2, 3, 3, 4, 2, 3, 3, 4, 3, 4, 4, 5,
    2, 3, 3, 4, 3, 4, 4, 5, 3, 4, 4, 5, 4, 5, 5, 6,
    1, 2, 2, 3, 2, 3, 3, 4, 2, 3, 3, 4, 3, 4, 4, 5,
    2, 3, 3, 4, 3, 4, 4, 5, 3, 4, 4, 5, 4, 5, 5, 6,
    2, 3, 3, 4, 3, 4, 4, 5, 3, 4, 4, 5, 4, 5, 5, 6,
    3, 4, 4, 5, 4, 5, 5, 6, 4, 5, 5, 6, 5, 6, 6, 7,
    1, 2, 2, 3, 2, 3, 3, 4, 2, 3, 3, 4, 3, 4, 4, 5,
    2, 3, 3, 4, 3, 4, 4, 5, 3, 4, 4, 5, 4, 5, 5, 6,
    2, 3, 3, 4, 3, 4, 4, 5, 3, 4, 4, 5, 4, 5, 5, 6,
    3, 4, 4, 5, 4, 5, 5, 6, 4, 5, 5, 6, 5, 6, 6, 7,
    2, 3, 3, 4, 3, 4, 4, 5, 3, 4, 4, 5, 4, 5, 5, 6,
    3, 4, 4, 5, 4, 5, 5, 6, 4, 5, 5, 6, 5, 6, 6, 7,
    3, 4, 4, 5, 4, 5, 5, 6, 4, 5, 5, 6, 5, 6, 6, 7,
    4, 5, 5, 6, 5, 6, 6, 7, 5, 6, 6, 7, 6, 7, 7, 8]

/-- A byte of the buffer. -/
def RtlBitmap.byte (bitMapHeader : RtlBitmap) (index : Nat) : UInt8 :=
  (bitMapHeader.buffer (index / 4) >>> (.ofNat (8 * (index % 4)))).toUInt8

/-- `do BitCount += BitCountTable[*Byte++]; while (Byte <= MaxByte);`, with the number of turns that
follow the first. -/
def countLoop (bitMapHeader : RtlBitmap) : Nat → Nat → UInt32 → UInt32
  | 0, byte, bitCount =>
    bitCount + (bitCountTable.getD (bitMapHeader.byte byte).toNat 0).toUInt32
  | left + 1, byte, bitCount =>
    countLoop bitMapHeader left (byte + 1)
      (bitCount + (bitCountTable.getD (bitMapHeader.byte byte).toNat 0).toUInt32)

/-- `RtlNumberOfSetBits`. -/
def rtlNumberOfSetBits (bitMapHeader : RtlBitmap) : UInt32 :=
  let maxByte := (bitMapHeader.sizeOfBitMap + 7) / 8
  countLoop bitMapHeader maxByte.toNat 0 0

/-- `RtlNumberOfClearBits`. -/
def rtlNumberOfClearBits (bitMapHeader : RtlBitmap) : UInt32 :=
  bitMapHeader.sizeOfBitMap - rtlNumberOfSetBits bitMapHeader

/-! ### The longest runs -/

/-- `RTL_BITMAP_RUN`. -/
structure RtlBitmapRun where
  startingIndex : UInt32
  numberOfBits : UInt32
  deriving DecidableEq

/-- The variables of `RtlFindClearRuns`, and the array. -/
structure RunSearch where
  run : UInt32
  fromIndex : UInt32
  smallestRun : UInt32
  runArray : Nat → RtlBitmapRun

/-- `for (Run = 0; Run < SizeOfRunArray; Run++)`, with the number of turns that are left. -/
def findRuns (bitMapHeader : RtlBitmap) : Nat → RunSearch → RunSearch
  | 0, search => search
  | left + 1, search =>
    let (numberOfBits, startingIndex) :=
      rtlFindNextForwardRunClear bitMapHeader search.fromIndex
    if numberOfBits = 0 then search
    else
      let runArray :=
        Function.update search.runArray search.run.toNat { startingIndex, numberOfBits }
      findRuns bitMapHeader left
        { run := search.run + 1
          fromIndex := startingIndex + numberOfBits
          smallestRun :=
            if numberOfBits < (runArray search.smallestRun.toNat).numberOfBits then search.run
            else search.smallestRun
          runArray }

/-- The loop over all runs that follows a replacement, with the number of turns that are left: it
compares the bits of the run that has just been stored. -/
def smallestLoop (numberOfBits : UInt32) (runArray : Nat → RtlBitmapRun) :
    Nat → UInt32 → UInt32 → UInt32
  | 0, _, smallestRun => smallestRun
  | left + 1, run, smallestRun =>
    smallestLoop numberOfBits runArray left (run + 1)
      (if numberOfBits < (runArray smallestRun.toNat).numberOfBits then run else smallestRun)

/-- The update of the smallest run. -/
def replaceRun (sizeOfRunArray startingIndex numberOfBits : UInt32) (search : RunSearch) :
    RunSearch :=
  if (search.runArray search.smallestRun.toNat).numberOfBits < numberOfBits then
    let runArray :=
      Function.update search.runArray search.smallestRun.toNat { startingIndex, numberOfBits }
    { search with
      run := sizeOfRunArray
      smallestRun :=
        smallestLoop numberOfBits runArray sizeOfRunArray.toNat 0 search.smallestRun
      runArray }
  else search

/-- A turn of `while (1)`. -/
def longestTurn (bitMapHeader : RtlBitmap) (sizeOfRunArray : UInt32) (search : RunSearch) :
    Except Stop (Turn RunSearch RunSearch) :=
  let (numberOfBits, startingIndex) := rtlFindNextForwardRunClear bitMapHeader search.fromIndex
  if numberOfBits = 0 then pure (.leave search)
  else
    let search := replaceRun sizeOfRunArray startingIndex numberOfBits search
    pure (.again { search with fromIndex := search.fromIndex + numberOfBits })

/-- `RtlFindClearRuns`: what it returns, and the array. -/
def rtlFindClearRuns (turns : Nat) (bitMapHeader : RtlBitmap) (runArray : Nat → RtlBitmapRun)
    (sizeOfRunArray : UInt32) (locateLongestRuns : Bool) :
    Except Stop (UInt32 × (Nat → RtlBitmapRun)) := do
  let search := findRuns bitMapHeader sizeOfRunArray.toNat
    { run := 0, fromIndex := 0, smallestRun := 0, runArray }
  if search.run < sizeOfRunArray ∨ locateLongestRuns = false then
    pure (search.run, search.runArray)
  else
    let search ← repeatLoop .outOfTurns (longestTurn bitMapHeader sizeOfRunArray) turns search
    pure (search.run, search.runArray)

/-- The variables of `RtlFindLongestRunClear`, and `*StartingIndex` where it has been written. -/
structure LongestSearch where
  fromIndex : UInt32
  maxNumberOfBits : UInt32
  startingIndex : Option UInt32

/-- A turn of `while (1)`. -/
def longestRunTurn (bitMapHeader : RtlBitmap) (search : LongestSearch) :
    Except Stop (Turn LongestSearch LongestSearch) :=
  let (numberOfBits, index) := rtlFindNextForwardRunClear bitMapHeader search.fromIndex
  if numberOfBits = 0 then pure (.leave search)
  else
    let search :=
      if search.maxNumberOfBits < numberOfBits then
        { search with maxNumberOfBits := numberOfBits, startingIndex := some index }
      else search
    pure (.again { search with fromIndex := search.fromIndex + numberOfBits })

/-- `RtlFindLongestRunClear`: what it returns, and `*StartingIndex` where it is written. -/
def rtlFindLongestRunClear (turns : Nat) (bitMapHeader : RtlBitmap) :
    Except Stop (UInt32 × Option UInt32) := do
  let search ← repeatLoop .outOfTurns (longestRunTurn bitMapHeader) turns
    { fromIndex := 0, maxNumberOfBits := 0, startingIndex := none }
  pure (search.maxNumberOfBits, search.startingIndex)

end Nloader.Bitmap
