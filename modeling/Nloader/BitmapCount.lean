/-
This file compares `RtlNumberOfSetBits` and `RtlNumberOfClearBits` of `src/libs/ntdll/bitmap.c` with
the numbers of set and of clear bits. The count is taken byte by byte; it does not leave out the
bits of the last byte that lie behind the end, and reads one byte more than it needs, or, where the
number of bytes wraps, only the first.
-/

import Nloader.BitmapRanges

namespace Nloader.Bitmap

/-! ### Bits of bytes -/

theorem byte_testBit (bitMapHeader : RtlBitmap) (index : Nat) {position : Nat}
    (within : position < 8) :
    (bitMapHeader.byte index).toNat.testBit position =
      bitMapHeader.bit (8 * index + position) := by
  have shift : (UInt32.ofNat (8 * (index % 4))).toNat = 8 * (index % 4) := by
    rw [UInt32.toNat_ofNat', Nat.mod_eq_of_lt (by omega)]
  have place : 8 * index + position = 32 * (index / 4) + (8 * (index % 4) + position) := by omega
  have shifted := wordBit_shiftRight (bitMapHeader.buffer (index / 4))
    (show (UInt32.ofNat (8 * (index % 4))).toNat < 32 by omega) position
  rw [shift] at shifted
  rw [place, bit_word _ _ (by omega), ← shifted, RtlBitmap.byte, UInt32.toNat_toUInt8,
    Nat.testBit_mod_two_pow, decide_eq_true within, Bool.true_and]
  rfl

/-- The number of set bits among some, from a bit on. -/
def setBits (bitMapHeader : RtlBitmap) (start count : Nat) : Nat :=
  (List.range' start count).countP bitMapHeader.bit

theorem setBits_append (bitMapHeader : RtlBitmap) (start first second : Nat) :
    setBits bitMapHeader start (first + second) =
      setBits bitMapHeader start first + setBits bitMapHeader (start + first) second := by
  rw [setBits, ← List.range'_append_1, List.countP_append]
  rfl

theorem setBits_le (bitMapHeader : RtlBitmap) (start count : Nat) :
    setBits bitMapHeader start count ≤ count :=
  List.countP_le_length.trans_eq List.length_range'

theorem setBits_eq_zero_iff (bitMapHeader : RtlBitmap) (start count : Nat) :
    setBits bitMapHeader start count = 0 ↔
      BitRuns.Filled bitMapHeader.bit false start count := by
  rw [setBits, List.countP_eq_zero]
  constructor
  · exact fun clear index above below =>
      Bool.eq_false_iff.mpr (clear index (List.mem_range'_1.mpr ⟨above, below⟩))
  · intro clear index member
    rw [List.mem_range'_1] at member
    exact Bool.eq_false_iff.mp (clear index member.1 member.2)

/-- An entry of the table is the number of set bits of its index. -/
theorem bitCountTable_eq : ∀ byte < 256,
    (bitCountTable.getD byte 0).toNat = (List.range 8).countP byte.testBit := by
  decide +kernel

/-- The count of a byte. -/
theorem bitCountTable_byte (bitMapHeader : RtlBitmap) (index : Nat) :
    (bitCountTable.getD (bitMapHeader.byte index).toNat 0).toNat =
      setBits bitMapHeader (8 * index) 8 := by
  rw [bitCountTable_eq _ (bitMapHeader.byte index).toNat_lt, setBits, List.range_eq_range']
  have moved : List.range' (8 * index) 8 = (List.range' 0 8).map (8 * index + ·) := by
    rw [List.map_add_range', Nat.add_zero]
  rw [moved, List.countP_map]
  refine List.countP_congr fun position member => ?_
  rw [List.mem_range'_1] at member
  rw [byte_testBit bitMapHeader index (by omega)]
  rfl

/-- The loop counts the bits of its bytes. -/
theorem countLoop_eq (bitMapHeader : RtlBitmap) (left byte : Nat) (bitCount : UInt32) :
    (countLoop bitMapHeader left byte bitCount).toNat =
      (bitCount.toNat + setBits bitMapHeader (8 * byte) (8 * (left + 1))) % 2 ^ 32 := by
  induction left generalizing byte bitCount with
  | zero =>
    rw [countLoop, UInt32.toNat_add, UInt8.toNat_toUInt32, bitCountTable_byte]
  | succ left inductionHypothesis =>
    rw [countLoop, inductionHypothesis, UInt32.toNat_add, UInt8.toNat_toUInt32,
      bitCountTable_byte, Nat.mod_add_mod, Nat.add_assoc, Nat.mul_add 8 (left + 1) 1,
      Nat.add_comm (8 * (left + 1)), setBits_append]
    rfl

/-! ### The counts -/

/-- The number of bits in the bytes that are read. -/
def bitsRead (bitMapHeader : RtlBitmap) : Nat :=
  8 * (((bitMapHeader.sizeOfBitMap + 7) / 8).toNat + 1)

theorem rtlNumberOfSetBits_eq (bitMapHeader : RtlBitmap) :
    (rtlNumberOfSetBits bitMapHeader).toNat =
      setBits bitMapHeader 0 (bitsRead bitMapHeader) % 2 ^ 32 := by
  rw [rtlNumberOfSetBits, countLoop_eq, UInt32.toNat_zero, Nat.zero_add]
  rfl

/-- At most two bytes are read that the bitmap does not reach; fewer than it has are read only where
the number of bytes wraps. -/
theorem bitsRead_le (bitMapHeader : RtlBitmap) :
    bitsRead bitMapHeader ≤ bitMapHeader.sizeOfBitMap.toNat + 15 := by
  rw [bitsRead, UInt32.toNat_div, UInt32.toNat_add]
  change 8 * ((_ + 7) % 2 ^ 32 / 8 + 1) ≤ _
  omega

/-- Every bit that is read but not in the bitmap, or in the bitmap but not read, is clear. -/
structure CountedBits (bitMapHeader : RtlBitmap) : Prop where
  behind : ∀ index, bitMapHeader.sizeOfBitMap.toNat ≤ index → index < bitsRead bitMapHeader →
    bitMapHeader.bit index = false
  unread : ∀ index, bitsRead bitMapHeader ≤ index → index < bitMapHeader.sizeOfBitMap.toNat →
    bitMapHeader.bit index = false

/-- The count is that of the set bits exactly where the bits that it should not tell apart are
clear. -/
theorem rtlNumberOfSetBits_iff (bitMapHeader : RtlBitmap) :
    (rtlNumberOfSetBits bitMapHeader).toNat =
        setBits bitMapHeader 0 bitMapHeader.sizeOfBitMap.toNat ↔ CountedBits bitMapHeader := by
  have most := setBits_le bitMapHeader 0 bitMapHeader.sizeOfBitMap.toNat
  have bound := bitMapHeader.sizeOfBitMap.toNat_lt
  have near := bitsRead_le bitMapHeader
  rw [rtlNumberOfSetBits_eq]
  rcases Nat.le_total bitMapHeader.sizeOfBitMap.toNat (bitsRead bitMapHeader) with more | fewer
  · obtain ⟨extra, sum⟩ := Nat.exists_eq_add_of_le more
    have few := setBits_le bitMapHeader bitMapHeader.sizeOfBitMap.toNat extra
    have zero := setBits_eq_zero_iff bitMapHeader bitMapHeader.sizeOfBitMap.toNat extra
    have counted : CountedBits bitMapHeader ↔
        BitRuns.Filled bitMapHeader.bit false bitMapHeader.sizeOfBitMap.toNat extra := by
      constructor
      · exact fun clear index above below => clear.behind index above (by omega)
      · exact fun clear => ⟨fun index above below => clear index above (by omega),
          fun index above below => absurd below (by omega)⟩
    rw [counted, ← zero, sum, setBits_append, Nat.zero_add]
    omega
  · obtain ⟨rest, sum⟩ := Nat.exists_eq_add_of_le fewer
    have zero := setBits_eq_zero_iff bitMapHeader (bitsRead bitMapHeader) rest
    have counted : CountedBits bitMapHeader ↔
        BitRuns.Filled bitMapHeader.bit false (bitsRead bitMapHeader) rest := by
      constructor
      · exact fun clear index above below => clear.unread index above (by omega)
      · exact fun clear => ⟨fun index above below => absurd below (by omega),
          fun index above below => clear index above (by omega)⟩
    have few := setBits_le bitMapHeader 0 (bitsRead bitMapHeader)
    rw [counted, ← zero, sum, setBits_append, Nat.zero_add]
    omega

/-- `RtlNumberOfSetBits` and `RtlNumberOfClearBits` count the set and the clear bits of a bitmap,
and add up to its size, if and only if the bits are clear that they read behind the end, or do not
read. -/
theorem counts_iff (bitMapHeader : RtlBitmap) :
    ((rtlNumberOfSetBits bitMapHeader).toNat =
        (List.range bitMapHeader.sizeOfBitMap.toNat).countP (fun index => bitMapHeader.bit index) ∧
      (rtlNumberOfClearBits bitMapHeader).toNat =
        (List.range bitMapHeader.sizeOfBitMap.toNat).countP
          (fun index => !bitMapHeader.bit index) ∧
      (rtlNumberOfSetBits bitMapHeader).toNat + (rtlNumberOfClearBits bitMapHeader).toNat =
        bitMapHeader.sizeOfBitMap.toNat) ↔
    CountedBits bitMapHeader := by
  have whole : setBits bitMapHeader 0 bitMapHeader.sizeOfBitMap.toNat =
      (List.range bitMapHeader.sizeOfBitMap.toNat).countP
        (fun index => bitMapHeader.bit index) := by
    rw [List.range_eq_range']
    rfl
  rw [← rtlNumberOfSetBits_iff, ← whole]
  refine ⟨And.left, fun set => ⟨set, ?_⟩⟩
  have both := @List.length_eq_countP_add_countP _ bitMapHeader.bit
    (List.range bitMapHeader.sizeOfBitMap.toNat)
  simp only [List.length_range, Bool.not_eq_true, Bool.decide_eq_false] at both
  have most := setBits_le bitMapHeader 0 bitMapHeader.sizeOfBitMap.toNat
  have clear : (rtlNumberOfClearBits bitMapHeader).toNat =
      bitMapHeader.sizeOfBitMap.toNat - (rtlNumberOfSetBits bitMapHeader).toNat :=
    UInt32.toNat_sub_of_le _ _ (UInt32.le_iff_toNat_le.mpr (set ▸ most))
  have set' : setBits bitMapHeader 0 bitMapHeader.sizeOfBitMap.toNat =
      (List.range bitMapHeader.sizeOfBitMap.toNat).countP bitMapHeader.bit := whole
  rw [clear, set]
  omega

/-- Eight clear bits, and a set bit behind them. -/
def markedBitmap : RtlBitmap where
  sizeOfBitMap := 8
  buffer := fun _ => 0x100

theorem not_counts :
    (rtlNumberOfSetBits markedBitmap).toNat = 1 ∧
      (List.range 8).countP (fun index => markedBitmap.bit index) = 0 := by
  decide +kernel

end Nloader.Bitmap
