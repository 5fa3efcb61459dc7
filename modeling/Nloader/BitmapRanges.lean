/-
This file gives the functions of `src/libs/ntdll/bitmap.c` that work on a range of bits their
meaning bit by bit. The length of a run is that of the bits, where it is asked for in full, and
reaches at least as far as it is asked for otherwise; it is read word by word, up to the last word
that the run could reach. `RtlSetBits` and `RtlClearBits` overwrite the bits of their range and no
other, whatever words its ends lie in.
-/

import Nloader.Bitmap

namespace Nloader.Bitmap

open BitRuns

/-! ### Bits of a word -/

section Words

variable {word mask shift : UInt32} {position : Nat}

@[simp] theorem wordBit_zero (position : Nat) : wordBit 0 position = false := by
  simp [wordBit]

theorem wordBit_and (word mask : UInt32) (position : Nat) :
    wordBit (word &&& mask) position = (wordBit word position && wordBit mask position) := by
  simp [wordBit]

theorem wordBit_or (word mask : UInt32) (position : Nat) :
    wordBit (word ||| mask) position = (wordBit word position || wordBit mask position) := by
  simp [wordBit]

theorem wordBit_not (word : UInt32) (within : position < 32) :
    wordBit (~~~ word) position = !wordBit word position := by
  simp [wordBit, within]

theorem wordBit_maxUlong (within : position < 32) : wordBit maxUlong position = true := by
  have full : maxUlong.toBitVec = BitVec.allOnes 32 := by decide
  rw [wordBit, full, BitVec.getLsbD_allOnes]
  exact decide_eq_true within

theorem wordBit_shiftLeft (word : UInt32) (small : shift.toNat < 32) (within : position < 32) :
    wordBit (word <<< shift) position =
      (decide (shift.toNat ≤ position) && wordBit word (position - shift.toNat)) := by
  change (word <<< shift).toNat.testBit position = (_ && word.toNat.testBit _)
  rw [UInt32.toNat_shiftLeft, Nat.mod_eq_of_lt small, Nat.testBit_mod_two_pow,
    Nat.testBit_shiftLeft, decide_eq_true within, Bool.true_and]

theorem wordBit_shiftRight (word : UInt32) (small : shift.toNat < 32) (position : Nat) :
    wordBit (word >>> shift) position = wordBit word (shift.toNat + position) := by
  change (word >>> shift).toNat.testBit position = word.toNat.testBit _
  rw [UInt32.toNat_shiftRight, Nat.mod_eq_of_lt small, Nat.testBit_shiftRight]

/-- The bits from a position on. -/
theorem wordBit_highMask (small : shift.toNat < 32) (within : position < 32) :
    wordBit (maxUlong <<< shift) position = decide (shift.toNat ≤ position) := by
  rw [wordBit_shiftLeft _ small within, wordBit_maxUlong (by omega), Bool.and_true]

/-- The bits from a position on, without the highest ones. -/
theorem wordBit_middleMask {cut : UInt32} (small : shift.toNat < 32) (smallCut : cut.toNat < 32)
    (within : position < 32) :
    wordBit (((maxUlong <<< shift) <<< cut) >>> cut) position =
      decide (shift.toNat ≤ position ∧ position + cut.toNat < 32) := by
  rw [wordBit_shiftRight _ smallCut]
  by_cases inside : cut.toNat + position < 32
  · rw [wordBit_shiftLeft _ smallCut inside, decide_eq_true (Nat.le_add_right _ _), Bool.true_and,
      Nat.add_sub_cancel_left, wordBit_highMask small within]
    exact decide_eq_decide.mpr (by omega)
  · rw [wordBit, BitVec.getLsbD_of_ge _ _ (by omega), decide_eq_false (by omega)]

theorem eq_zero_iff_wordBit : word = 0 ↔ ∀ position < 32, wordBit word position = false := by
  constructor
  · rintro rfl position _
    exact wordBit_zero position
  · intro clear
    apply UInt32.toBitVec_inj.mp
    refine BitVec.eq_of_getLsbD_eq fun position within => ?_
    simpa [wordBit] using clear position within

/-- The lowest set bit of a mask. -/
theorem bitScanForward_eq (some' : mask ≠ 0) :
    ∃ index, bitScanForward mask = some index ∧ index.toNat < 32 ∧
      wordBit mask index.toNat = true ∧
      ∀ position < index.toNat, wordBit mask position = false := by
  have nonzero : mask.toBitVec ≠ 0 := fun zero => some' (UInt32.toBitVec_inj.mp zero)
  refine ⟨.ofBitVec mask.toBitVec.ctz, if_neg some', ?_, ?_, fun position lower => ?_⟩
  · have bound := BitVec.ctz_lt_iff_ne_zero.mpr nonzero
    exact BitVec.lt_def.mp bound
  · exact BitVec.getLsbD_true_ctz_of_ne_zero nonzero
  · exact BitVec.getLsbD_false_of_lt_ctz lower

end Words

/-- The bit of a word that an index leads to. -/
theorem toNat_and_31 (index : UInt32) : (index &&& 31).toNat = index.toNat % 32 := by
  rw [UInt32.toNat_and]
  exact Nat.and_two_pow_sub_one_eq_mod index.toNat 5

theorem bit_word (bitMapHeader : RtlBitmap) (word : Nat) {position : Nat}
    (within : position < 32) :
    bitMapHeader.bit (32 * word + position) = wordBit (bitMapHeader.buffer word) position := by
  rw [RtlBitmap.bit, bitAt, Nat.mul_add_div (by decide), Nat.mul_add_mod, Nat.div_eq_of_lt within,
    Nat.mod_eq_of_lt within, Nat.add_zero]

/-! ### The length of a run -/

section Lengths

variable {flip : UInt32 → UInt32} {bitMapHeader : RtlBitmap} {value : Bool}

/-- What a word is read as marks the bits that do not have the value. -/
def Marks (flip : UInt32 → UInt32) (value : Bool) : Prop :=
  ∀ word position, position < 32 → (wordBit (flip word) position = true ↔
    wordBit word position ≠ value)

theorem marks_clear : Marks (fun word => word) false := fun word position _ => by simp

theorem marks_set : Marks (fun word => ~~~ word) true := fun word position within => by
  simp [wordBit_not word within]

/-- A scan that starts at a bit has come to a word: the bits before the word have the value, and the
word is read without the bits before the start. -/
structure Scanned (bits : Nat → Bool) (value : Bool) (start word : Nat) (read : UInt32) :
    Prop where
  before : ∀ index, start ≤ index → index < 32 * word → bits index = value
  marks : ∀ position < 32, wordBit read position = true ↔
    start ≤ 32 * word + position ∧ bits (32 * word + position) ≠ value

/-- The first word of a scan. -/
theorem scanned_first (marks : Marks flip value) {start word : Nat} {bitPos : UInt32}
    (small : bitPos.toNat < 32) (starts : start = 32 * word + bitPos.toNat) :
    Scanned bitMapHeader.bit value start word
      ((flip (bitMapHeader.buffer word) >>> bitPos) <<< bitPos) := by
  refine ⟨fun index above below => by omega, fun position within => ?_⟩
  rw [wordBit_shiftLeft _ small within, wordBit_shiftRight _ small, bit_word _ _ within,
    Bool.and_eq_true, decide_eq_true_iff]
  by_cases above : bitPos.toNat ≤ position
  · rw [Nat.add_sub_cancel' above, marks _ _ within]
    exact and_congr_left fun _ => by omega
  · exact iff_of_false (fun both => above both.1) fun both => by omega

/-- Up to the end of the word that has been read, a bit without a mark has the value. -/
theorem Scanned.eq_of_unmarked {bits : Nat → Bool} {start word index : Nat} {read : UInt32}
    (scanned : Scanned bits value start word read) (above : start ≤ index)
    (within : index < 32 * (word + 1))
    (unmarked : 32 * word ≤ index → wordBit read (index - 32 * word) = false) :
    bits index = value := by
  by_cases earlier : index < 32 * word
  · exact scanned.before index above earlier
  · have clear := (scanned.marks (index - 32 * word) (by omega)).not.mp
      (by rw [unmarked (by omega)]; exact Bool.false_ne_true)
    rw [Nat.add_sub_cancel' (by omega)] at clear
    by_contra differs
    exact clear ⟨above, differs⟩

/-- A word without a mark is passed. -/
theorem Scanned.next (marks : Marks flip value) {start word : Nat}
    (scanned : Scanned bitMapHeader.bit value start word 0) (starts : start < 32 * (word + 1)) :
    Scanned bitMapHeader.bit value start (word + 1)
      (flip (bitMapHeader.buffer (word + 1))) := by
  refine ⟨fun index above below => scanned.eq_of_unmarked above below fun _ => by simp,
    fun position within => ?_⟩
  · rw [bit_word _ _ within, marks _ _ within]
    exact (and_iff_right (by omega)).symm

/-- The loop stops at a word with a mark, or at the last word. -/
theorem skipUlongs_scanned (marks : Marks flip value) {start : Nat} :
    ∀ (left word : Nat) (read : UInt32), start < 32 * (word + 1) →
      Scanned bitMapHeader.bit value start word read →
      ∃ last read', skipUlongs (fun buffer => flip (bitMapHeader.buffer buffer)) left (word + 1)
          read = (last + 1, read') ∧
        word ≤ last ∧ last ≤ word + left ∧ Scanned bitMapHeader.bit value start last read' ∧
        (read' = 0 → last = word + left) := by
  intro left
  induction left with
  | zero =>
    intro word read starts scanned
    exact ⟨word, read, rfl, le_refl _, le_refl _, scanned, fun _ => rfl⟩
  | succ left inductionHypothesis =>
    intro word read starts scanned
    rw [skipUlongs]
    split
    · rename_i zero
      rw [zero] at scanned
      obtain ⟨last, read', ran, lower, upper, scanned', ends⟩ :=
        inductionHypothesis (word + 1) _ (by omega) (scanned.next marks starts)
      exact ⟨last, read', ran, by omega, by omega, scanned', fun zero' => by
        rw [ends zero']; omega⟩
    · rename_i marked
      exact ⟨word, read, rfl, le_refl _, by omega, scanned, fun zero => absurd zero marked⟩

/-- The bit that a scan ends at, if it meets no mark: it reads at least one word, and the words of
the run, whose number wraps. -/
def scanEnd (start most : Nat) : Nat :=
  32 * max (start / 32 + 1) (start / 32 + (start % 32 + most + 31) % 2 ^ 32 / 32)

theorem toNat_ite_lt (first second : UInt32) :
    (if first < second then first else second).toNat = min first.toNat second.toNat := by
  split
  · rename_i less
    rw [UInt32.lt_iff_toNat_lt] at less
    omega
  · rename_i notLess
    rw [UInt32.lt_iff_toNat_lt] at notLess
    omega

/-- The length up to the mark of a word, from the end of the word. -/
theorem toNat_lengthTo {startingIndex index : UInt32} {last : Nat} (inWord : index.toNat < 32)
    (above : startingIndex.toNat ≤ 32 * last + index.toNat)
    (fits : 32 * last + index.toNat - startingIndex.toNat < 2 ^ 32) :
    (UInt32.ofNat ((last + 1) * 32) - startingIndex + (index - 32)).toNat =
      32 * last + index.toNat - startingIndex.toNat := by
  rw [UInt32.toNat_add, UInt32.toNat_sub, UInt32.toNat_sub, UInt32.toNat_ofNat']
  change (_ + (2 ^ 32 - 32 + index.toNat) % 2 ^ 32) % 2 ^ 32 = _
  have bound := startingIndex.toNat_lt
  omega

/-- A scan meets no mark, and gives as many bits as it was asked for and there are; or it stops at
the first mark. -/
theorem lengthOfRun_cases (marks : Marks flip value) (startingIndex maxLength : UInt32)
    (within : startingIndex.toNat ≤ bitMapHeader.sizeOfBitMap.toNat) :
    ∃ start room most, start = startingIndex.toNat ∧
      room = bitMapHeader.sizeOfBitMap.toNat - start ∧ most = min maxLength.toNat room ∧
      ((Filled bitMapHeader.bit value start (scanEnd start most - start) ∧
        (rtlpGetLengthOfRun flip bitMapHeader startingIndex maxLength).toNat = most) ∨
      ∃ stop, start ≤ stop ∧ stop < scanEnd start most ∧
        Filled bitMapHeader.bit value start (stop - start) ∧ bitMapHeader.bit stop ≠ value ∧
        (rtlpGetLengthOfRun flip bitMapHeader startingIndex maxLength).toNat =
          min (stop - start) room) := by
  have low := toNat_and_31 startingIndex
  have word : (startingIndex / 32).toNat = startingIndex.toNat / 32 := UInt32.toNat_div _ _
  have roomIs : (bitMapHeader.sizeOfBitMap - startingIndex).toNat =
      bitMapHeader.sizeOfBitMap.toNat - startingIndex.toNat :=
    UInt32.toNat_sub_of_le _ _ within
  have small : (startingIndex &&& 31).toNat < 32 := by omega
  have starts : startingIndex.toNat =
      32 * (startingIndex.toNat / 32) + (startingIndex &&& 31).toNat := by omega
  have scanned := @scanned_first _ bitMapHeader _ marks _ _ _ small starts
  unfold rtlpGetLengthOfRun
  dsimp only
  generalize startingIndex &&& 31 = bitPos at *
  generalize roomEq : bitMapHeader.sizeOfBitMap - startingIndex = room at *
  generalize mostEq : (if maxLength < room then maxLength else room) = most
  have mostIs : most.toNat = min maxLength.toNat room.toNat := by
    rw [← mostEq, toNat_ite_lt]
  have wordsIs : ((bitPos + most + 31) / 32).toNat =
      (startingIndex.toNat % 32 + most.toNat + 31) % 2 ^ 32 / 32 := by
    rw [UInt32.toNat_div, UInt32.toNat_add, UInt32.toNat_add, low]
    change ((_ + _) % 2 ^ 32 + 31) % 2 ^ 32 / 32 = _
    omega
  refine ⟨_, _, most.toNat, rfl, rfl, by rw [mostIs, roomIs], ?_⟩
  have endIs : scanEnd startingIndex.toNat most.toNat =
      32 * (startingIndex.toNat / 32 + 1 +
        (startingIndex.toNat / 32 + ((bitPos + most + 31) / 32).toNat -
          (startingIndex.toNat / 32 + 1))) := by
    rw [scanEnd, wordsIs]
    omega
  obtain ⟨last, read, ran, lower, upper, scanned, ends⟩ :=
    skipUlongs_scanned marks (startingIndex.toNat / 32 + ((bitPos + most + 31) / 32).toNat -
      (startingIndex.toNat / 32 + 1)) _ _ (by omega) scanned
  rw [word, ran]
  dsimp only
  by_cases unmarked : read = 0
  · refine .inl ⟨fun index above below => ?_, by rw [if_pos unmarked]⟩
    have isLast := ends unmarked
    rw [unmarked] at scanned
    exact scanned.eq_of_unmarked above (by omega) fun _ => by simp
  · obtain ⟨index, found, inWord, marked, lowest⟩ := bitScanForward_eq unmarked
    obtain ⟨above, differs⟩ := (scanned.marks index.toNat inWord).mp marked
    have inEnd : 32 * last + index.toNat < scanEnd startingIndex.toNat most.toNat := by
      rw [endIs]
      omega
    refine .inr ⟨32 * last + index.toNat, above, inEnd, fun position above' below => ?_,
      differs, ?_⟩
    · exact scanned.eq_of_unmarked above' (by omega) fun _ => lowest _ (by omega)
    · have short : scanEnd startingIndex.toNat most.toNat - startingIndex.toNat ≤ 2 ^ 32 := by
        unfold scanEnd
        omega
      rw [if_neg unmarked, found, Option.getD_some, ← roomIs,
        ← toNat_lengthTo inWord above (by omega), toNat_ite_lt]
      exact Nat.min_comm _ _

/-- The length that is returned is not more than there is room. -/
theorem lengthOfRun_le (marks : Marks flip value) {startingIndex : UInt32}
    (within : startingIndex.toNat ≤ bitMapHeader.sizeOfBitMap.toNat) (maxLength : UInt32) :
    (rtlpGetLengthOfRun flip bitMapHeader startingIndex maxLength).toNat ≤
      bitMapHeader.sizeOfBitMap.toNat - startingIndex.toNat := by
  obtain ⟨_, _, most, rfl, rfl, mostIs, ⟨_, length⟩ | ⟨_, _, _, _, _, length⟩⟩ :=
    lengthOfRun_cases marks startingIndex maxLength within
  · omega
  · omega

/-- The number of bits that a scan is for does not wrap. -/
def Fits (bitMapHeader : RtlBitmap) (startingIndex : UInt32) : Prop :=
  startingIndex.toNat ≤ bitMapHeader.sizeOfBitMap.toNat ∧
    startingIndex.toNat % 32 + (bitMapHeader.sizeOfBitMap.toNat - startingIndex.toNat) + 31 < 2 ^ 32

/-- The length that is returned is that of the run, or at least the length that is asked for. -/
theorem lengthOfRun_bounds (marks : Marks flip value) {startingIndex : UInt32}
    (fits : Fits bitMapHeader startingIndex) (maxLength : UInt32) :
    min maxLength.toNat (runLength bitMapHeader.bit value startingIndex.toNat
        (bitMapHeader.sizeOfBitMap.toNat - startingIndex.toNat)) ≤
      (rtlpGetLengthOfRun flip bitMapHeader startingIndex maxLength).toNat ∧
    (rtlpGetLengthOfRun flip bitMapHeader startingIndex maxLength).toNat ≤
      runLength bitMapHeader.bit value startingIndex.toNat
        (bitMapHeader.sizeOfBitMap.toNat - startingIndex.toNat) := by
  obtain ⟨within, fits⟩ := fits
  obtain ⟨_, _, most, rfl, rfl, mostIs, cases'⟩ :=
    lengthOfRun_cases marks startingIndex maxLength within
  have whole := runLength_le bitMapHeader.bit value startingIndex.toNat
    (bitMapHeader.sizeOfBitMap.toNat - startingIndex.toNat)
  rcases cases' with ⟨filled, length⟩ | ⟨stop, above, _, filled, differs, length⟩
  · have reached : most ≤ scanEnd startingIndex.toNat most - startingIndex.toNat := by
      unfold scanEnd
      omega
    have run : most ≤ runLength bitMapHeader.bit value startingIndex.toNat
        (bitMapHeader.sizeOfBitMap.toNat - startingIndex.toNat) :=
      le_runLength_iff.mpr ⟨by omega, filled.mono reached⟩
    omega
  · have run : min (stop - startingIndex.toNat)
        (bitMapHeader.sizeOfBitMap.toNat - startingIndex.toNat) ≤
        runLength bitMapHeader.bit value startingIndex.toNat
          (bitMapHeader.sizeOfBitMap.toNat - startingIndex.toNat) :=
      le_runLength_iff.mpr ⟨Nat.min_le_right _ _, filled.mono (Nat.min_le_left _ _)⟩
    have notLonger : runLength bitMapHeader.bit value startingIndex.toNat
        (bitMapHeader.sizeOfBitMap.toNat - startingIndex.toNat) ≤ stop - startingIndex.toNat := by
      by_contra longer
      have inside : stop < startingIndex.toNat +
          runLength bitMapHeader.bit value startingIndex.toNat
            (bitMapHeader.sizeOfBitMap.toNat - startingIndex.toNat) := by omega
      exact differs (runLength_filled _ _ _ _ stop above inside)
    omega

/-- A length that is asked for in full is that of the run. -/
theorem lengthOfRun_eq (marks : Marks flip value) {startingIndex : UInt32}
    (fits : Fits bitMapHeader startingIndex) :
    (rtlpGetLengthOfRun flip bitMapHeader startingIndex maxUlong).toNat =
      runLength bitMapHeader.bit value startingIndex.toNat
        (bitMapHeader.sizeOfBitMap.toNat - startingIndex.toNat) := by
  obtain ⟨lower, upper⟩ := lengthOfRun_bounds marks fits maxUlong
  have whole := runLength_le bitMapHeader.bit value startingIndex.toNat
    (bitMapHeader.sizeOfBitMap.toNat - startingIndex.toNat)
  have bound := bitMapHeader.sizeOfBitMap.toNat_lt
  have full : maxUlong.toNat = 2 ^ 32 - 1 := rfl
  omega

/-- The test of a range of bits. -/
theorem le_lengthOfRun_iff (marks : Marks flip value) {startingIndex : UInt32}
    (fits : Fits bitMapHeader startingIndex) (length : UInt32) :
    length ≤ rtlpGetLengthOfRun flip bitMapHeader startingIndex length ↔
      startingIndex.toNat + length.toNat ≤ bitMapHeader.sizeOfBitMap.toNat ∧
        Filled bitMapHeader.bit value startingIndex.toNat length.toNat := by
  obtain ⟨lower, upper⟩ := lengthOfRun_bounds marks fits length
  have within := fits.1
  have room : startingIndex.toNat + length.toNat ≤ bitMapHeader.sizeOfBitMap.toNat ↔
      length.toNat ≤ bitMapHeader.sizeOfBitMap.toNat - startingIndex.toNat := by omega
  rw [UInt32.le_iff_toNat_le, room, ← le_runLength_iff]
  omega

end Lengths

/-! ### Setting and clearing bits -/

/-- The stores overwrite bits with a value. -/
structure Overwrites (overwrite : Overwrite) (value : Bool) : Prop where
  inside : ∀ word mask position, position < 32 → wordBit (overwrite.inside word mask) position =
    if wordBit mask position then value else wordBit word position
  outside : ∀ word mask position, position < 32 → wordBit (overwrite.outside word mask) position =
    if wordBit mask position then wordBit word position else value
  fill : ∀ position < 32, wordBit overwrite.fill position = value

theorem overwrites_clearing : Overwrites clearing false where
  inside := fun word mask position within => by
    rw [clearing, wordBit_and, wordBit_not mask within]
    cases wordBit mask position <;> simp
  outside := fun word mask position within => by
    rw [clearing, wordBit_and]
    cases wordBit mask position <;> simp
  fill := fun position _ => wordBit_zero position

theorem overwrites_setting : Overwrites setting true where
  inside := fun word mask position within => by
    rw [setting, wordBit_or]
    cases wordBit mask position <;> simp
  outside := fun word mask position within => by
    rw [setting, wordBit_or, wordBit_not mask within]
    cases wordBit mask position <;> simp
  fill := fun position within => wordBit_maxUlong within

/-- The words that are filled. -/
theorem fillLoop_eq (fill : UInt32) (count dest : Nat) (memory : Nat → UInt32) (word : Nat) :
    fillLoop fill count dest memory word =
      if dest ≤ word ∧ word < dest + count then fill else memory word := by
  induction count generalizing dest memory with
  | zero => rw [fillLoop, if_neg (by omega)]
  | succ count inductionHypothesis =>
    rw [fillLoop, inductionHypothesis]
    by_cases here : word = dest
    · rw [here, if_neg (by omega), Function.update_self, if_pos (by omega)]
    · rw [Function.update_of_ne here]
      exact if_congr (by omega) rfl rfl

section Overwriting

variable {overwrite : Overwrite} {value : Bool}

/-- From a word on, as many bits as are asked for are overwritten. -/
theorem bitAt_overwriteAligned (overwrites : Overwrites overwrite value)
    (memory : Nat → UInt32) (buffer : Nat) (number : UInt32) (index : Nat) :
    bitAt (overwriteAligned overwrite memory buffer number) index =
      if 32 * buffer ≤ index ∧ index < 32 * buffer + number.toNat then value
      else bitAt memory index := by
  have inWord : index % 32 < 32 := Nat.mod_lt _ (by decide)
  have words : (number >>> 5).toNat = number.toNat / 32 := by
    rw [UInt32.toNat_shiftRight, Nat.shiftRight_eq_div_pow]
    rfl
  have filledWords : ((number >>> 3) / 4).toNat = number.toNat / 32 := by
    rw [UInt32.toNat_div, UInt32.toNat_shiftRight, Nat.shiftRight_eq_div_pow]
    exact Nat.div_div_eq_div_mul number.toNat 8 4
  have low := toNat_and_31 number
  unfold overwriteAligned bitAt rtlFillMemoryUlong
  dsimp only
  rw [words, filledWords]
  by_cases last : index / 32 = buffer + number.toNat / 32
  · have kept : ¬ (buffer ≤ buffer + number.toNat / 32 ∧
        buffer + number.toNat / 32 < buffer + number.toNat / 32) := by omega
    rw [last, Function.update_self, overwrites.outside _ _ _ inWord, fillLoop_eq, if_neg kept,
      wordBit_highMask (by omega) inWord, low]
    by_cases behind : number.toNat % 32 ≤ index % 32
    · rw [decide_eq_true behind, if_pos rfl, if_neg (by omega)]
    · rw [decide_eq_false behind, if_neg Bool.false_ne_true, if_pos (by omega)]
  · rw [Function.update_of_ne last, fillLoop_eq]
    by_cases filled : buffer ≤ index / 32 ∧ index / 32 < buffer + number.toNat / 32
    · rw [if_pos filled, if_pos (by omega), overwrites.fill _ inWord]
    · rw [if_neg filled, if_neg (by omega)]

/-- As many bits as are asked for are overwritten. -/
theorem bit_overwriteBits (overwrites : Overwrites overwrite value) (bitMapHeader : RtlBitmap)
    (startingIndex number : UInt32) (index : Nat) :
    (overwriteBits overwrite bitMapHeader startingIndex number).bit index =
      if startingIndex.toNat ≤ index ∧ index < startingIndex.toNat + number.toNat then value
      else bitMapHeader.bit index := by
  have inWord : index % 32 < 32 := Nat.mod_lt _ (by decide)
  have word : (startingIndex >>> 5).toNat = startingIndex.toNat / 32 := by
    rw [UInt32.toNat_shiftRight, Nat.shiftRight_eq_div_pow]
    rfl
  have low := toNat_and_31 startingIndex
  unfold overwriteBits
  dsimp only
  rw [word]
  generalize startingIndex &&& 31 = bits at *
  have small : bits.toNat < 32 := by omega
  have rest : (32 - bits).toNat = 32 - bits.toNat :=
    UInt32.toNat_sub_of_le _ _ (UInt32.le_iff_toNat_le.mpr (by change _ ≤ 32; omega))
  split
  · rename_i unaligned
    have some' : bits.toNat ≠ 0 := fun zero => unaligned (UInt32.toNat_inj.mp zero)
    split
    · rename_i fewer
      have left : (32 - bits - number).toNat = 32 - bits.toNat - number.toNat := by
        rw [UInt32.toNat_sub_of_le _ _ (UInt32.le_of_lt fewer), rest]
      rw [UInt32.lt_iff_toNat_lt, rest] at fewer
      unfold RtlBitmap.bit bitAt
      dsimp only
      by_cases here : index / 32 = startingIndex.toNat / 32
      · rw [← here, Function.update_self, overwrites.inside _ _ _ inWord,
          wordBit_middleMask small (by omega) inWord, left]
        exact if_congr (by rw [decide_eq_true_iff]; omega) rfl rfl
      · rw [Function.update_of_ne here, if_neg (by omega)]
    · rename_i notFewer
      rw [UInt32.lt_iff_toNat_lt, rest] at notFewer
      have left : (number - (32 - bits)).toNat = number.toNat - (32 - bits.toNat) := by
        rw [UInt32.toNat_sub_of_le _ _ (UInt32.le_iff_toNat_le.mpr (by omega)), rest]
      rw [RtlBitmap.bit, bitAt_overwriteAligned overwrites, left]
      by_cases here : index / 32 = startingIndex.toNat / 32
      · rw [if_neg (by omega), bitAt, ← here, Function.update_self,
          overwrites.inside _ _ _ inWord, wordBit_highMask small inWord]
        exact if_congr (by rw [decide_eq_true_iff]; omega) rfl rfl
      · rw [bitAt, Function.update_of_ne here]
        exact if_congr (by omega) rfl rfl
  · rename_i aligned
    have zero : bits.toNat = 0 := by
      rw [ne_eq, not_not] at aligned
      rw [aligned]
      rfl
    rw [RtlBitmap.bit, bitAt_overwriteAligned overwrites]
    exact if_congr (by omega) rfl rfl

theorem sizeOfBitMap_overwriteBits (overwrite : Overwrite) (bitMapHeader : RtlBitmap)
    (startingIndex number : UInt32) :
    (overwriteBits overwrite bitMapHeader startingIndex number).sizeOfBitMap =
      bitMapHeader.sizeOfBitMap := by
  unfold overwriteBits
  dsimp only
  split_ifs <;> rfl

end Overwriting

/-! ### Ranges of bits -/

/-- A scan from a bit of a bitmap with fewer than `2 ^ 31` bits does not wrap. -/
theorem fits_of_small {bitMapHeader : RtlBitmap} {startingIndex : UInt32}
    (small : bitMapHeader.sizeOfBitMap.toNat < 2 ^ 31)
    (within : startingIndex.toNat ≤ bitMapHeader.sizeOfBitMap.toNat) :
    Fits bitMapHeader startingIndex :=
  ⟨within, by omega⟩

/-- `RtlSetBits` and `RtlClearBits` change the bits of their range, and `RtlAreBitsClear` and
`RtlAreBitsSet` test those of theirs. -/
theorem ranges_bitwise (bitMapHeader : RtlBitmap)
    (small : bitMapHeader.sizeOfBitMap.toNat < 2 ^ 31) :
    (∀ startingIndex number : UInt32,
      startingIndex.toNat + number.toNat ≤ bitMapHeader.sizeOfBitMap.toNat → ∀ index,
        (rtlSetBits bitMapHeader startingIndex number).bit index =
            (if startingIndex.toNat ≤ index ∧ index < startingIndex.toNat + number.toNat then true
            else bitMapHeader.bit index) ∧
          (rtlClearBits bitMapHeader startingIndex number).bit index =
            if startingIndex.toNat ≤ index ∧ index < startingIndex.toNat + number.toNat then false
            else bitMapHeader.bit index) ∧
    ∀ startingIndex length : UInt32,
      startingIndex.toNat < bitMapHeader.sizeOfBitMap.toNat →
        (rtlAreBitsClear bitMapHeader startingIndex length = true ↔
          startingIndex.toNat + length.toNat ≤ bitMapHeader.sizeOfBitMap.toNat ∧
            Filled bitMapHeader.bit false startingIndex.toNat length.toNat) ∧
        (rtlAreBitsSet bitMapHeader startingIndex length = true ↔
          startingIndex.toNat + length.toNat ≤ bitMapHeader.sizeOfBitMap.toNat ∧
            Filled bitMapHeader.bit true startingIndex.toNat length.toNat) := by
  refine ⟨fun startingIndex number _ index =>
    ⟨bit_overwriteBits overwrites_setting bitMapHeader startingIndex number index,
      bit_overwriteBits overwrites_clearing bitMapHeader startingIndex number index⟩,
    fun startingIndex length within => ?_⟩
  have fits := fits_of_small small (Nat.le_of_lt within)
  rw [rtlAreBitsClear, rtlAreBitsSet, decide_eq_true_iff, decide_eq_true_iff]
  exact ⟨le_lengthOfRun_iff marks_clear fits length, le_lengthOfRun_iff marks_set fits length⟩

/-- A bitmap with 40 bits, of which bit 33 is set, and a bit that follows them. -/
def exampleBitmap : RtlBitmap where
  sizeOfBitMap := 40
  buffer := fun word => if word = 1 then 0x102 else 0

theorem ranges_bitwise_example :
    (∀ startingIndex number : UInt32, startingIndex.toNat + number.toNat ≤ 40 → ∀ index,
        (rtlSetBits exampleBitmap startingIndex number).bit index =
            (if startingIndex.toNat ≤ index ∧ index < startingIndex.toNat + number.toNat then true
            else exampleBitmap.bit index) ∧
          (rtlClearBits exampleBitmap startingIndex number).bit index =
            if startingIndex.toNat ≤ index ∧ index < startingIndex.toNat + number.toNat then false
            else exampleBitmap.bit index) ∧
    ∀ startingIndex length : UInt32, startingIndex.toNat < 40 →
        (rtlAreBitsClear exampleBitmap startingIndex length = true ↔
          startingIndex.toNat + length.toNat ≤ 40 ∧
            Filled exampleBitmap.bit false startingIndex.toNat length.toNat) ∧
        (rtlAreBitsSet exampleBitmap startingIndex length = true ↔
          startingIndex.toNat + length.toNat ≤ 40 ∧
            Filled exampleBitmap.bit true startingIndex.toNat length.toNat) :=
  ranges_bitwise exampleBitmap (by decide)

end Nloader.Bitmap
