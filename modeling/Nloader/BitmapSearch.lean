/-
This file is about `RtlFindClearBits` and the allocator made of it, `RtlFindClearBitsAndSet`. A pass
goes from run to run of clear bits and stops at the first that is long enough; it ends where too few
bits are left before its margin. What it finds is there, so that the allocator never hands out a bit
twice. What is there is found, but for one thing: the loop asks for more bits than it needs before
the end, so that a bitmap that is clear from one end to the other is not found by a search for all
of its bits.
-/

import Nloader.BitmapRanges
import Nloader.Library.Runs
import Mathlib.Order.CompletePartialOrder

namespace Nloader.Bitmap

open BitRuns Outcome Runs

section Passes

variable {bitMapHeader : RtlBitmap} {numberToFind margin : UInt32}

/-- The next clear run, in the words of the functions. -/
theorem nextClear_eq (small : bitMapHeader.sizeOfBitMap.toNat < 2 ^ 31) {currentBit : UInt32}
    (within : currentBit.toNat ≤ bitMapHeader.sizeOfBitMap.toNat) :
    (currentBit + rtlpGetLengthOfRunSet bitMapHeader currentBit maxUlong).toNat =
      (nextRun bitMapHeader.bit false bitMapHeader.sizeOfBitMap.toNat currentBit.toNat).start := by
  have length := lengthOfRun_eq marks_set (fits_of_small small within)
  have bound := nextRun_le bitMapHeader.bit false within
  change currentBit.toNat + runLength bitMapHeader.bit true currentBit.toNat _ ≤ _ at bound
  rw [UInt32.toNat_add, rtlpGetLengthOfRunSet, length, Nat.mod_eq_of_lt (by omega)]
  rfl

/-- A turn of the search: the next run of clear bits is long enough, or the search goes on behind
it. -/
theorem findTurn_eq (small : bitMapHeader.sizeOfBitMap.toNat < 2 ^ 31)
    (below : margin.toNat ≤ bitMapHeader.sizeOfBitMap.toNat) {currentBit : UInt32}
    (noWrap : currentBit.toNat + numberToFind.toNat < 2 ^ 32) :
    (currentBit.toNat + numberToFind.toNat < margin.toNat → ∃ next : UInt32,
      let run := nextRun bitMapHeader.bit false bitMapHeader.sizeOfBitMap.toNat currentBit.toNat
      (numberToFind.toNat ≤ run.length ∧ next.toNat = run.start ∧
        findTurn bitMapHeader numberToFind margin currentBit = .ok (.leave (some next))) ∨
      (run.length < numberToFind.toNat ∧ next.toNat = run.start + run.length ∧
        findTurn bitMapHeader numberToFind margin currentBit = .ok (.again next))) ∧
    (margin.toNat ≤ currentBit.toNat + numberToFind.toNat →
      findTurn bitMapHeader numberToFind margin currentBit = .ok (.leave none)) := by
  have condition : currentBit + numberToFind < margin ↔
      currentBit.toNat + numberToFind.toNat < margin.toNat := by
    rw [UInt32.lt_iff_toNat_lt, UInt32.toNat_add, Nat.mod_eq_of_lt noWrap]
  constructor
  · intro inside
    have within : currentBit.toNat ≤ bitMapHeader.sizeOfBitMap.toNat := by omega
    have start := nextClear_eq small within
    have startLe := nextRun_le bitMapHeader.bit false within
    have endLe := nextRun_end_le bitMapHeader.bit false within
    unfold findTurn
    rw [if_pos (condition.mpr inside)]
    dsimp only
    generalize currentBit + rtlpGetLengthOfRunSet bitMapHeader currentBit maxUlong = clear at *
    have fits := fits_of_small small (show clear.toNat ≤ _ by rw [start]; exact startLe)
    obtain ⟨lower, upper⟩ := lengthOfRun_bounds marks_clear fits numberToFind
    rw [start] at lower upper
    change min _ (nextRun _ _ _ _).length ≤ (rtlpGetLengthOfRunClear _ _ _).toNat at lower
    change (rtlpGetLengthOfRunClear _ _ _).toNat ≤ (nextRun _ _ _ _).length at upper
    generalize rtlpGetLengthOfRunClear bitMapHeader clear numberToFind = length at *
    by_cases enough : numberToFind ≤ length
    · have enough' := UInt32.le_iff_toNat_le.mp enough
      exact ⟨clear, .inl ⟨by omega, start, if_pos enough⟩⟩
    · have short := mt UInt32.le_iff_toNat_le.mpr enough
      refine ⟨clear + length, .inr ⟨by omega, ?_, if_neg enough⟩⟩
      rw [UInt32.toNat_add, start, Nat.mod_eq_of_lt (by omega)]
      omega
  · intro outside
    unfold findTurn
    rw [if_neg (by rw [condition]; omega)]
    rfl

/-- As many clear bits as are searched for, below the size. -/
def FreeAt (bitMapHeader : RtlBitmap) (number position : Nat) : Prop :=
  position + number ≤ bitMapHeader.sizeOfBitMap.toNat ∧
    Filled bitMapHeader.bit false position number

/-- What a pass is to do: it finds clear bits at its hint or behind it; or there are none before its
margin, and at the margin only those that start at the hint. -/
def PassSpec (bitMapHeader : RtlBitmap) (number margin hint : Nat) : Option UInt32 → Prop
  | some position => FreeAt bitMapHeader number position.toNat
  | none => ∀ position, hint ≤ position → FreeAt bitMapHeader number position →
      margin ≤ position + number ∧ (position + number = margin → position = hint)

/-- What holds whenever the loop comes round: the bits searched for do not start between the hint
and the current bit, which is at the hint or behind a run. -/
structure PassHolds (bitMapHeader : RtlBitmap) (number hint : Nat) (currentBit : UInt32) :
    Prop where
  noWrap : currentBit.toNat + number < 2 ^ 32
  passed : ∀ position, hint ≤ position → FreeAt bitMapHeader number position →
    currentBit.toNat ≤ position
  here : currentBit.toNat = hint ∨ currentBit.toNat = bitMapHeader.sizeOfBitMap.toNat ∨
    bitMapHeader.bit currentBit.toNat ≠ false

/-- A run that is too short is passed. -/
theorem PassHolds.next {number hint : Nat} {currentBit next : UInt32}
    (small : bitMapHeader.sizeOfBitMap.toNat < 2 ^ 31)
    (within : currentBit.toNat + number ≤ bitMapHeader.sizeOfBitMap.toNat)
    (holds : PassHolds bitMapHeader number hint currentBit)
    (short : (nextRun bitMapHeader.bit false bitMapHeader.sizeOfBitMap.toNat
      currentBit.toNat).length < number)
    (moved : next.toNat =
      (nextRun bitMapHeader.bit false bitMapHeader.sizeOfBitMap.toNat currentBit.toNat).start +
        (nextRun bitMapHeader.bit false bitMapHeader.sizeOfBitMap.toNat currentBit.toNat).length) :
    PassHolds bitMapHeader number hint next := by
  have endLe := nextRun_end_le bitMapHeader.bit false
    (show currentBit.toNat ≤ bitMapHeader.sizeOfBitMap.toNat by omega)
  have stop := nextRun_stop bitMapHeader.bit false
    (show currentBit.toNat ≤ bitMapHeader.sizeOfBitMap.toNat by omega)
  have passes := @nextRun_passes bitMapHeader.bit false currentBit.toNat
    bitMapHeader.sizeOfBitMap.toNat
  generalize nextRun bitMapHeader.bit false bitMapHeader.sizeOfBitMap.toNat
    currentBit.toNat = run at *
  rw [← moved] at stop endLe
  refine ⟨by omega, fun position above free => ?_, .inr stop⟩
  obtain ⟨inside, filled⟩ := free
  have behind := holds.passed position above ⟨inside, filled⟩
  by_contra before
  by_cases inRun : run.start ≤ position
  · -- The bits would go on behind the run.
    rcases stop with atEnd | differs
    · omega
    · exact differs (filled next.toNat (by omega) (by omega))
  · exact passes behind (by omega) (filled position (le_refl _) (by omega))

/-- A pass does what it is to do, in fewer turns than there are bits. -/
theorem findPass_holds (small : bitMapHeader.sizeOfBitMap.toNat < 2 ^ 31)
    (positive : 1 ≤ numberToFind.toNat)
    (below : margin.toNat ≤ bitMapHeader.sizeOfBitMap.toNat) {hintIndex : UInt32}
    (noWrap : hintIndex.toNat + numberToFind.toNat < 2 ^ 32) {turns : Nat}
    (enough : bitMapHeader.sizeOfBitMap.toNat < turns) :
    Holds (PassSpec bitMapHeader numberToFind.toNat margin.toNat hintIndex.toNat)
      (fun _ => False) (findPass turns bitMapHeader numberToFind margin hintIndex) := by
  refine repeatLoop_holds (fun variant currentBit =>
      PassHolds bitMapHeader numberToFind.toNat hintIndex.toNat currentBit ∧
        bitMapHeader.sizeOfBitMap.toNat - currentBit.toNat = variant)
    ?_ turns _ hintIndex ⟨⟨noWrap, fun _ above _ => above, .inl rfl⟩, rfl⟩ (by omega)
  rintro variant currentBit ⟨holds, rfl⟩
  obtain ⟨inside, outside⟩ := @findTurn_eq bitMapHeader numberToFind margin small below currentBit
    holds.noWrap
  by_cases condition : currentBit.toNat + numberToFind.toNat < margin.toNat
  · have within : currentBit.toNat ≤ bitMapHeader.sizeOfBitMap.toNat := by omega
    have endLe := nextRun_end_le bitMapHeader.bit false within
    obtain ⟨next, ⟨long, start, ran⟩ | ⟨short, moved, ran⟩⟩ := inside condition
    · rw [ran, holds_ok]
      change FreeAt bitMapHeader numberToFind.toNat next.toNat
      rw [start]
      exact ⟨by omega, (nextRun_filled _ _ _ _).mono long⟩
    · rw [ran, holds_ok]
      refine ⟨_, ?_, holds.next small (by omega) short moved, rfl⟩
      -- A run without a bit is at the end.
      have lower := le_nextRun bitMapHeader.bit false bitMapHeader.sizeOfBitMap.toNat
        currentBit.toNat
      have found := nextRun_length_pos_iff bitMapHeader.bit false within
      rw [moved]
      omega
  · rw [outside (by omega), holds_ok]
    intro position above free
    have behind := holds.passed position above free
    obtain ⟨fits, filled⟩ := free
    refine ⟨by omega, fun atMargin => ?_⟩
    rcases holds.here with atHint | atEnd | set
    · omega
    · omega
    · exact absurd (filled currentBit.toNat (by omega) (by omega)) set

/-- A search for clear bits: they are found, or there are none, unless all bits of the bitmap are
searched for. -/
def FindSpec (bitMapHeader : RtlBitmap) (number : Nat) (position : UInt32) : Prop :=
  (position ≠ maxUlong ∧ FreeAt bitMapHeader number position.toNat) ∨
    (position = maxUlong ∧ ∀ other, FreeAt bitMapHeader number other →
      number = bitMapHeader.sizeOfBitMap.toNat)

theorem FreeAt.ne_maxUlong (small : bitMapHeader.sizeOfBitMap.toNat < 2 ^ 31) {number : Nat}
    {position : UInt32} (free : FreeAt bitMapHeader number position.toNat) :
    position ≠ maxUlong := by
  rintro rfl
  have full : maxUlong.toNat = 2 ^ 32 - 1 := rfl
  have inside := free.1
  omega

/-- The two passes of `RtlFindClearBits` together. -/
theorem rtlFindClearBits_holds (small : bitMapHeader.sizeOfBitMap.toNat < 2 ^ 31)
    (positive : 1 ≤ numberToFind.toNat) {hintIndex : UInt32} (hint : hintIndex.toNat < 2 ^ 31)
    {turns : Nat} (enough : bitMapHeader.sizeOfBitMap.toNat < turns) :
    Holds (FindSpec bitMapHeader numberToFind.toNat) (fun _ => False)
      (rtlFindClearBits turns bitMapHeader numberToFind hintIndex) := by
  unfold rtlFindClearBits
  split
  · rename_i tooMany
    rw [UInt32.lt_iff_toNat_lt] at tooMany
    exact .inr ⟨rfl, fun other free => absurd free.1 (by omega)⟩
  · rename_i notTooMany
    rw [UInt32.lt_iff_toNat_lt] at notTooMany
    rw [if_neg fun zero => by rw [zero] at positive; exact absurd positive (by decide), holds_bind]
    refine (findPass_holds small positive (le_refl _) (by omega) enough).mono
      (fun first spec => ?_) (fun _ stopped => stopped)
    cases first with
    | some position => exact .inl ⟨FreeAt.ne_maxUlong small spec, spec⟩
    | none =>
      dsimp only
      split
      · rename_i hinted
        have later : hintIndex.toNat ≠ 0 := fun zero => hinted (UInt32.toNat_inj.mp zero)
        generalize marginEq : (if hintIndex + numberToFind < bitMapHeader.sizeOfBitMap then
          hintIndex + numberToFind else bitMapHeader.sizeOfBitMap) = margin
        have marginIs : margin.toNat =
            min (hintIndex.toNat + numberToFind.toNat) bitMapHeader.sizeOfBitMap.toNat := by
          have sum : (hintIndex + numberToFind).toNat = hintIndex.toNat + numberToFind.toNat := by
            rw [UInt32.toNat_add, Nat.mod_eq_of_lt (by omega)]
          rw [← marginEq]
          split
          · rename_i less
            rw [UInt32.lt_iff_toNat_lt, sum] at less
            omega
          · rename_i notLess
            rw [UInt32.lt_iff_toNat_lt, sum] at notLess
            omega
        rw [holds_bind]
        refine (findPass_holds small positive (by omega)
          (show (0 : UInt32).toNat + numberToFind.toNat < 2 ^ 32 by
            rw [UInt32.toNat_zero]; omega) enough).mono
          (fun second spec' => ?_) (fun _ stopped => stopped)
        cases second with
        | some position => exact .inl ⟨FreeAt.ne_maxUlong small spec', spec'⟩
        | none =>
          refine .inr ⟨rfl, fun other free => ?_⟩
          obtain ⟨atMargin, isZero⟩ := spec' other (Nat.zero_le _) free
          rw [UInt32.toNat_zero] at isZero
          have inside := free.1
          -- Bits behind the hint have been found by the first pass, unless they start there.
          by_cases behind : hintIndex.toNat ≤ other
          · obtain ⟨atEnd, isHint⟩ := spec other behind free
            omega
          · have zero : other = 0 := isZero (by omega)
            omega
      · rename_i notHinted
        rw [ne_eq, not_not] at notHinted
        refine .inr ⟨rfl, fun other free => ?_⟩
        rw [notHinted] at spec
        obtain ⟨atEnd, isHint⟩ := spec other (Nat.zero_le _) free
        have inside := free.1
        have zero : other = 0 := isHint (by omega)
        omega

/-- A pass whose margin leaves no room ends at once. -/
theorem findPass_none (small : bitMapHeader.sizeOfBitMap.toNat < 2 ^ 31)
    (below : margin.toNat ≤ bitMapHeader.sizeOfBitMap.toNat) {hintIndex : UInt32}
    (noWrap : hintIndex.toNat + numberToFind.toNat < 2 ^ 32)
    (noRoom : margin.toNat ≤ hintIndex.toNat + numberToFind.toNat) {turns : Nat}
    (some' : 0 < turns) :
    findPass turns bitMapHeader numberToFind margin hintIndex = .ok none := by
  obtain ⟨turns, rfl⟩ := Nat.exists_eq_succ_of_ne_zero (Nat.ne_of_gt some')
  rw [findPass, repeatLoop, (findTurn_eq small below noWrap).2 noRoom, ok_bind]
  rfl

/-- A search for all bits of a bitmap finds nothing. -/
theorem rtlFindClearBits_all (small : bitMapHeader.sizeOfBitMap.toNat < 2 ^ 31)
    (positive : 1 ≤ numberToFind.toNat)
    (all : numberToFind.toNat = bitMapHeader.sizeOfBitMap.toNat) {hintIndex : UInt32}
    (hint : hintIndex.toNat < 2 ^ 31) {turns : Nat} (some' : 0 < turns) :
    rtlFindClearBits turns bitMapHeader numberToFind hintIndex = .ok maxUlong := by
  have zero : (0 : UInt32).toNat = 0 := rfl
  unfold rtlFindClearBits
  rw [if_neg (by rw [UInt32.lt_iff_toNat_lt]; omega),
    if_neg fun none => by rw [none] at positive; exact absurd positive (by decide),
    findPass_none small (le_refl _) (by omega) (by omega) some', ok_bind]
  dsimp only
  split
  · rw [findPass_none small _ (by omega) _ some']
    · rfl
    · split
      · rename_i less
        exact Nat.le_of_lt (UInt32.lt_iff_toNat_lt.mp less)
      · exact le_refl _
    · split
      · rename_i less
        have below := UInt32.lt_iff_toNat_lt.mp less
        omega
      · omega
  · rfl

end Passes

/-! ### Completeness -/

/-- `RtlFindClearBits` returns `MAXULONG` only where there are no such bits, if and only if it is
not asked for all bits of a bitmap that is clear. -/
theorem rtlFindClearBits_complete_iff (bitMapHeader : RtlBitmap)
    (small : bitMapHeader.sizeOfBitMap.toNat < 2 ^ 31) (numberToFind hintIndex : UInt32)
    (positive : 1 ≤ numberToFind.toNat)
    (most : numberToFind.toNat ≤ bitMapHeader.sizeOfBitMap.toNat)
    (hint : hintIndex.toNat < 2 ^ 31) (turns : Nat)
    (enough : bitMapHeader.sizeOfBitMap.toNat < turns) :
    ∃ position, rtlFindClearBits turns bitMapHeader numberToFind hintIndex = .ok position ∧
      ((position = maxUlong → ¬ ∃ start,
          start + numberToFind.toNat ≤ bitMapHeader.sizeOfBitMap.toNat ∧
            Filled bitMapHeader.bit false start numberToFind.toNat) ↔
        numberToFind.toNat < bitMapHeader.sizeOfBitMap.toNat ∨
          ∃ index < bitMapHeader.sizeOfBitMap.toNat, bitMapHeader.bit index = true) := by
  obtain ⟨position, ran, spec⟩ := (rtlFindClearBits_holds small positive hint enough).exists_ok
  refine ⟨position, ran, ?_, ?_⟩
  · intro complete
    by_contra neither
    rw [not_or, not_lt, not_exists] at neither
    obtain ⟨all, clear⟩ := neither
    have same : numberToFind.toNat = bitMapHeader.sizeOfBitMap.toNat := by omega
    have nothing := rtlFindClearBits_all small positive same hint (Nat.zero_lt_of_lt enough)
    rw [ran] at nothing
    refine complete (Except.ok.inj nothing) ⟨0, by omega, fun index _ below => ?_⟩
    exact Bool.eq_false_iff.mpr fun set => clear index ⟨by omega, set⟩
  · rintro condition none ⟨start, free⟩
    rcases spec with ⟨some', _⟩ | ⟨_, only⟩
    · exact some' none
    · have all := only start free
      rcases condition with fewer | ⟨index, inside, set⟩
      · omega
      · have first := free.1
        rw [free.2 index (by omega) (by omega)] at set
        exact absurd set Bool.false_ne_true

/-- A bitmap of eight clear bits. -/
def clearBitmap : RtlBitmap where
  sizeOfBitMap := 8
  buffer := fun _ => 0

theorem rtlFindClearBits_complete_example :
    ∃ position, rtlFindClearBits 9 clearBitmap 7 3 = .ok position ∧
      ((position = maxUlong → ¬ ∃ start, start + 7 ≤ 8 ∧ Filled clearBitmap.bit false start 7) ↔
        7 < 8 ∨ ∃ index < 8, clearBitmap.bit index = true) :=
  rtlFindClearBits_complete_iff clearBitmap (by decide) 7 3 (by decide) (by decide) (by decide) 9
    (by decide)

/-- All eight bits are searched for. -/
theorem not_rtlFindClearBits_complete :
    rtlFindClearBits 9 clearBitmap 8 0 = .ok maxUlong ∧
      ∃ start, start + 8 ≤ 8 ∧ Filled clearBitmap.bit false start 8 :=
  ⟨rfl, 0, by decide, fun _ _ _ => wordBit_zero _⟩

/-! ### Soundness of the allocator -/

/-- A call of `RtlFindClearBitsAndSet` for some bits. -/
structure Call where
  numberToFind : UInt32
  hintIndex : UInt32
  positive : 1 ≤ numberToFind.toNat
  hint : hintIndex.toNat < 2 ^ 31

/-- A call returns a position, and leaves a bitmap. -/
def Allocates (turns : Nat) (before : RtlBitmap) (label : Call × UInt32) (after : RtlBitmap) :
    Prop :=
  rtlFindClearBitsAndSet turns before label.1.numberToFind label.1.hintIndex =
    .ok (label.2, after)

/-- What a call is to do: it changes nothing; or the bits at its position were clear, are set, and
are the only ones that change. -/
def AllocSpec (before : RtlBitmap) (label : Call × UInt32) (after : RtlBitmap) : Prop :=
  (label.2 = maxUlong ∧ after = before) ∨
    (label.2 ≠ maxUlong ∧
      label.2.toNat + label.1.numberToFind.toNat ≤ before.sizeOfBitMap.toNat ∧
      Filled before.bit false label.2.toNat label.1.numberToFind.toNat ∧
      after.sizeOfBitMap = before.sizeOfBitMap ∧
      ∀ index, after.bit index =
        if label.2.toNat ≤ index ∧ index < label.2.toNat + label.1.numberToFind.toNat then true
        else before.bit index)

/-- The bits that a call hands out. -/
def handedOut (label : Call × UInt32) : Set Nat :=
  if label.2 = maxUlong then ∅
  else Set.Ico label.2.toNat (label.2.toNat + label.1.numberToFind.toNat)

/-- Every call comes to its end, and does what it is to do. -/
theorem allocates_holds {turns : Nat} {before : RtlBitmap}
    (small : before.sizeOfBitMap.toNat < 2 ^ 31) (enough : before.sizeOfBitMap.toNat < turns)
    (call : Call) :
    ∃ position after, Allocates turns before (call, position) after ∧
      AllocSpec before (call, position) after := by
  obtain ⟨position, ran, spec⟩ :=
    (rtlFindClearBits_holds small call.positive call.hint enough).exists_ok
  unfold Allocates rtlFindClearBitsAndSet
  simp only [ran, ok_bind]
  rcases spec with ⟨some', inside, clear⟩ | ⟨none, _⟩
  · refine ⟨position, rtlSetBits before position call.numberToFind, if_pos some',
      .inr ⟨some', inside, clear, sizeOfBitMap_overwriteBits _ _ _ _, fun index => ?_⟩⟩
    exact bit_overwriteBits overwrites_setting before position call.numberToFind index
  · exact ⟨position, before, if_neg (not_not_intro none), .inl ⟨none, rfl⟩⟩

/-- A call does what it is to do. -/
theorem Allocates.spec {turns : Nat} {before after : RtlBitmap} {label : Call × UInt32}
    (small : before.sizeOfBitMap.toNat < 2 ^ 31) (enough : before.sizeOfBitMap.toNat < turns)
    (allocates : Allocates turns before label after) : AllocSpec before label after := by
  obtain ⟨position, after', ran, spec⟩ := allocates_holds small enough label.1
  unfold Allocates at allocates ran
  rw [allocates] at ran
  obtain ⟨rfl, rfl⟩ := Prod.mk.inj (Except.ok.inj ran)
  exact spec

/-- What holds after some calls: what has been handed out is set, and no bit was handed out
twice. -/
structure Handed (start : RtlBitmap) (labels : List (Call × UInt32)) (state : RtlBitmap) :
    Prop where
  size : state.sizeOfBitMap = start.sizeOfBitMap
  set : ∀ label ∈ labels, ∀ index ∈ handedOut label, state.bit index = true
  apart : labels.Pairwise fun later earlier => Disjoint (handedOut later) (handedOut earlier)

/-- A call hands out bits that have not been handed out. -/
theorem Handed.next {start before after : RtlBitmap} {labels : List (Call × UInt32)}
    {label : Call × UInt32} (handed : Handed start labels before)
    (spec : AllocSpec before label after) : Handed start (label :: labels) after := by
  rcases spec with ⟨none, rfl⟩ | ⟨some', _, clear, size, bits⟩
  · have nothing : handedOut label = ∅ := if_pos none
    refine ⟨handed.size, fun other member index inside => ?_,
      List.pairwise_cons.mpr ⟨fun other _ => ?_, handed.apart⟩⟩
    · rcases List.mem_cons.mp member with rfl | earlier
      · rw [nothing] at inside
        exact absurd inside (Set.notMem_empty index)
      · exact handed.set other earlier index inside
    · rw [nothing]
      exact Set.empty_disjoint _
  · have range : handedOut label =
        Set.Ico label.2.toNat (label.2.toNat + label.1.numberToFind.toNat) := if_neg some'
    refine ⟨size.trans handed.size, fun other member index inside => ?_,
      List.pairwise_cons.mpr ⟨fun other member => ?_, handed.apart⟩⟩
    · rw [bits]
      split
      · rfl
      · rename_i outside
        rcases List.mem_cons.mp member with rfl | earlier
        · rw [range] at inside
          exact absurd inside outside
        · exact handed.set other earlier index inside
    · rw [Set.disjoint_left, range]
      intro index inside twice
      have set := handed.set other member index twice
      rw [clear index inside.1 inside.2] at set
      exact absurd set Bool.false_ne_true

/-- From every bitmap that a run of calls leaves, every call comes to its end and does what it is to
do; the bits that the calls of a run hand out are pairwise disjoint. -/
theorem allocation_sound (bitMapHeader : RtlBitmap)
    (small : bitMapHeader.sizeOfBitMap.toNat < 2 ^ 31) (turns : Nat)
    (enough : bitMapHeader.sizeOfBitMap.toNat < turns) (labels : List (Call × UInt32))
    (state : RtlBitmap) (run : Run (Allocates turns) bitMapHeader labels state) :
    (∀ call, ∃ position after, Allocates turns state (call, position) after ∧
      AllocSpec state (call, position) after) ∧
    labels.Pairwise fun later earlier => Disjoint (handedOut later) (handedOut earlier) := by
  have handed : Handed bitMapHeader labels state := by
    refine run.invariant (Handed bitMapHeader) ⟨rfl, nofun, .nil⟩ ?_
    intro labels before label after handed allocates
    refine handed.next (allocates.spec ?_ ?_)
    · rw [handed.size]
      exact small
    · rw [handed.size]
      exact enough
  refine ⟨fun call => allocates_holds ?_ ?_ call, handed.apart⟩
  · rw [handed.size]
    exact small
  · rw [handed.size]
    exact enough

/-- A call for three bits, from bit 4 on. -/
def exampleCall : Call where
  numberToFind := 3
  hintIndex := 4
  positive := by decide
  hint := by decide

theorem allocates_exampleCall :
    Allocates 9 clearBitmap (exampleCall, 4) (rtlSetBits clearBitmap 4 3) := by
  have found : rtlFindClearBits 9 clearBitmap 3 4 = .ok 4 := by decide +kernel
  unfold Allocates rtlFindClearBitsAndSet exampleCall
  simp only [found, ok_bind]
  rfl

theorem allocation_sound_example :
    (∀ call, ∃ position after, Allocates 9 (rtlSetBits clearBitmap 4 3) (call, position) after ∧
      AllocSpec (rtlSetBits clearBitmap 4 3) (call, position) after) ∧
    [(exampleCall, (4 : UInt32))].Pairwise fun later earlier =>
      Disjoint (handedOut later) (handedOut earlier) :=
  allocation_sound clearBitmap (by decide) 9 (by decide) _ _ (.cons .nil allocates_exampleCall)

end Nloader.Bitmap
