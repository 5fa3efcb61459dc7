/-
This file is about the searches of `src/libs/ntdll/bitmap.c` for the longest runs of clear bits.
Both go from run to run. `RtlFindLongestRunClear` finds the longest run, though it meets some runs
more than once. `RtlFindClearRuns` keeps the first runs, and replaces the shortest of them by the
longest of those that follow; it does not look for the new shortest run then, so that at most one of
the first runs is ever replaced.

In a bitmap with more than `2 ^ 32 - 32` bits the number of words of a scan wraps: a run that leaves
the first word is taken to go on to the end.
-/

import Nloader.BitmapRanges

namespace Nloader.Bitmap

open BitRuns Outcome

/-! ### What a scan sees -/

section Scans

variable {bitMapHeader : RtlBitmap}

/-- The bits of a bitmap as the scans see them. -/
def RtlBitmap.seen (bitMapHeader : RtlBitmap) (index : Nat) : Bool :=
  if bitMapHeader.sizeOfBitMap.toNat ≤ 2 ^ 32 - 32 then bitMapHeader.bit index
  else bitMapHeader.bit (min index 31)

/-- A place at which a scan sees these bits. -/
def Place (bitMapHeader : RtlBitmap) (index : Nat) : Prop :=
  index ≤ bitMapHeader.sizeOfBitMap.toNat ∧
    (bitMapHeader.sizeOfBitMap.toNat ≤ 2 ^ 32 - 32 ∨ index < 32 ∨
      index = bitMapHeader.sizeOfBitMap.toNat)

theorem seen_eq (few : bitMapHeader.sizeOfBitMap.toNat ≤ 2 ^ 32 - 32) :
    bitMapHeader.seen = bitMapHeader.bit :=
  funext fun _ => if_pos few

theorem seen_low {index : Nat} (low : index < 32) :
    bitMapHeader.seen index = bitMapHeader.bit index := by
  rw [RtlBitmap.seen, Nat.min_eq_left (by omega), ite_self]

theorem seen_high (many : 2 ^ 32 - 32 < bitMapHeader.sizeOfBitMap.toNat) {index : Nat}
    (high : 31 ≤ index) : bitMapHeader.seen index = bitMapHeader.bit 31 := by
  rw [RtlBitmap.seen, if_neg (by omega), Nat.min_eq_right high]

/-- The length of a run, as the scans see it. -/
theorem lengthOfRun_seen {flip : UInt32 → UInt32} {value : Bool} (marks : Marks flip value)
    {startingIndex : UInt32} (place : Place bitMapHeader startingIndex.toNat) :
    (rtlpGetLengthOfRun flip bitMapHeader startingIndex maxUlong).toNat =
      runLength bitMapHeader.seen value startingIndex.toNat
        (bitMapHeader.sizeOfBitMap.toNat - startingIndex.toNat) := by
  obtain ⟨within, place⟩ := place
  have bound := bitMapHeader.sizeOfBitMap.toNat_lt
  by_cases few : bitMapHeader.sizeOfBitMap.toNat ≤ 2 ^ 32 - 32
  · rw [seen_eq few]
    exact lengthOfRun_eq marks ⟨within, by omega⟩
  · rcases place with few' | low | atEnd
    · exact absurd few' few
    · obtain ⟨_, _, most, rfl, rfl, mostIs, cases'⟩ :=
        lengthOfRun_cases marks startingIndex maxUlong within
      have full : maxUlong.toNat = 2 ^ 32 - 1 := rfl
      have firstWord : scanEnd startingIndex.toNat most = 32 := by
        unfold scanEnd
        omega
      rw [firstWord] at cases'
      rcases cases' with ⟨filled, length⟩ | ⟨stop, above, inWord, filled, differs, length⟩
      · rw [length]
        refine (runLength_eq (fun index lower upper => ?_) (by omega) (.inl (by omega))).symm
        by_cases inside : index < 32
        · rw [seen_low inside]
          exact filled index lower (by omega)
        · rw [seen_high (by omega) (by omega)]
          exact filled 31 (by omega) (by omega)
      · have same : startingIndex.toNat + (stop - startingIndex.toNat) = stop := by omega
        rw [length, Nat.min_eq_left (by omega)]
        refine (runLength_eq (fun index lower upper => ?_) (by omega) (.inr ?_)).symm
        · rw [seen_low (by omega)]
          exact filled index lower upper
        · rw [same, seen_low inWord]
          exact differs
    · rw [lengthOfRun_eq marks ⟨within, by omega⟩, atEnd, Nat.sub_self]
      rfl

/-- A run that starts at a place ends at one. -/
theorem Place.next {value : Bool} {index : Nat} (place : Place bitMapHeader index) :
    Place bitMapHeader (index +
      runLength bitMapHeader.seen value index (bitMapHeader.sizeOfBitMap.toNat - index)) := by
  obtain ⟨within, place⟩ := place
  have most := runLength_le bitMapHeader.seen value index
    (bitMapHeader.sizeOfBitMap.toNat - index)
  refine ⟨by omega, ?_⟩
  rcases place with few | low | atEnd
  · exact .inl few
  · by_contra outside
    rw [not_or, not_or] at outside
    obtain ⟨many, high, inside⟩ := outside
    have differs := runLength_stop bitMapHeader.seen value index
      (bitMapHeader.sizeOfBitMap.toNat - index) (by omega)
    have before := runLength_filled bitMapHeader.seen value index
      (bitMapHeader.sizeOfBitMap.toNat - index)
      (index + runLength bitMapHeader.seen value index
        (bitMapHeader.sizeOfBitMap.toNat - index) - 1) (by omega) (by omega)
    rw [seen_high (by omega) (by omega)] at before differs
    exact differs before
  · exact .inr (.inr (by omega))

/-- The next run of clear bits, as the scans see it. -/
theorem rtlFindNextForwardRunClear_seen {fromIndex : UInt32}
    (place : Place bitMapHeader fromIndex.toNat) :
    let run := nextRun bitMapHeader.seen false bitMapHeader.sizeOfBitMap.toNat fromIndex.toNat
    (rtlFindNextForwardRunClear bitMapHeader fromIndex).1.toNat = run.length ∧
      (rtlFindNextForwardRunClear bitMapHeader fromIndex).2.toNat = run.start := by
  have bound := bitMapHeader.sizeOfBitMap.toNat_lt
  have skipped := lengthOfRun_seen marks_set place
  have most := runLength_le bitMapHeader.seen true fromIndex.toNat
    (bitMapHeader.sizeOfBitMap.toNat - fromIndex.toNat)
  have within := place.1
  have start : (fromIndex + rtlpGetLengthOfRunSet bitMapHeader fromIndex maxUlong).toNat =
      fromIndex.toNat + runLength bitMapHeader.seen true fromIndex.toNat
        (bitMapHeader.sizeOfBitMap.toNat - fromIndex.toNat) := by
    rw [UInt32.toNat_add, rtlpGetLengthOfRunSet, skipped, Nat.mod_eq_of_lt (by omega)]
  have place' : Place bitMapHeader
      (fromIndex + rtlpGetLengthOfRunSet bitMapHeader fromIndex maxUlong).toNat := by
    rw [start]
    exact place.next
  have length := lengthOfRun_seen marks_clear place'
  rw [start] at length
  exact ⟨length, start⟩

/-- Wherever a search goes on, it stays within the bitmap. -/
theorem rtlFindNextForwardRunClear_le {fromIndex : UInt32}
    (within : fromIndex.toNat ≤ bitMapHeader.sizeOfBitMap.toNat) :
    fromIndex.toNat ≤ (rtlFindNextForwardRunClear bitMapHeader fromIndex).2.toNat ∧
      (rtlFindNextForwardRunClear bitMapHeader fromIndex).2.toNat +
        (rtlFindNextForwardRunClear bitMapHeader fromIndex).1.toNat ≤
          bitMapHeader.sizeOfBitMap.toNat := by
  have bound := bitMapHeader.sizeOfBitMap.toNat_lt
  have skipped := lengthOfRun_le marks_set within maxUlong
  have start : (fromIndex + rtlpGetLengthOfRunSet bitMapHeader fromIndex maxUlong).toNat =
      fromIndex.toNat + (rtlpGetLengthOfRunSet bitMapHeader fromIndex maxUlong).toNat := by
    rw [UInt32.toNat_add, Nat.mod_eq_of_lt]
    unfold rtlpGetLengthOfRunSet
    omega
  change (rtlpGetLengthOfRunSet bitMapHeader fromIndex maxUlong).toNat ≤ _ at skipped
  have length := lengthOfRun_le marks_clear
    (show (fromIndex + rtlpGetLengthOfRunSet bitMapHeader fromIndex maxUlong).toNat ≤
      bitMapHeader.sizeOfBitMap.toNat by rw [start]; omega) maxUlong
  change (rtlFindNextForwardRunClear bitMapHeader fromIndex).1.toNat ≤ _ at length
  change _ ≤ (fromIndex + _).toNat ∧ (fromIndex + _).toNat + _ ≤ _
  rw [start] at length ⊢
  omega

end Scans

/-! ### From run to run -/

section Searches

variable {bitMapHeader : RtlBitmap}

/-- The runs that the scans see, from a bit on. -/
def seenFrom (bitMapHeader : RtlBitmap) (first : Nat) : List BitRun :=
  runsFrom bitMapHeader.seen false bitMapHeader.sizeOfBitMap.toNat first

/-- A bit inside of no run. -/
def Outside (bitMapHeader : RtlBitmap) (first : Nat) : Prop :=
  first = 0 ∨ first = bitMapHeader.sizeOfBitMap.toNat ∨ bitMapHeader.seen first ≠ false

theorem mem_seenFrom {first : Nat} {run : BitRun} :
    run ∈ seenFrom bitMapHeader first ↔ first ≤ run.start ∧
      run ∈ runs bitMapHeader.seen false bitMapHeader.sizeOfBitMap.toNat := by
  rw [seenFrom, mem_runsFrom, mem_runs, and_assoc, and_assoc]

/-- A search for the longest run that has come to a bit: the runs that it has passed are no longer
than the longest. Where it does not see the bits, no longer run can follow. -/
structure Searched (bitMapHeader : RtlBitmap) (first fromIndex longest : Nat) : Prop where
  above : first ≤ fromIndex
  within : fromIndex ≤ bitMapHeader.sizeOfBitMap.toNat
  place : Place bitMapHeader fromIndex ∨
    bitMapHeader.sizeOfBitMap.toNat - fromIndex ≤ longest
  covered : ∀ run ∈ seenFrom bitMapHeader first, run.start < fromIndex → run.length ≤ longest

/-- A run that starts where too little is left is not longer. -/
theorem Searched.covered_rest {first fromIndex longest : Nat}
    (searched : Searched bitMapHeader first fromIndex longest)
    (little : bitMapHeader.sizeOfBitMap.toNat - fromIndex ≤ longest) (run : BitRun)
    (member : run ∈ seenFrom bitMapHeader first) : run.length ≤ longest := by
  obtain ⟨start, length⟩ := run
  by_cases passed : start < fromIndex
  · exact searched.covered _ member passed
  · have inside := (mem_runs_iff.mp (mem_seenFrom.mp member).2).2.1
    dsimp only
    omega

/-- A search that meets no more bits has seen the longest run. -/
theorem Searched.done {first longest : Nat} {fromIndex : UInt32}
    (searched : Searched bitMapHeader first fromIndex.toNat longest)
    (none : (rtlFindNextForwardRunClear bitMapHeader fromIndex).1 = 0) (run : BitRun)
    (member : run ∈ seenFrom bitMapHeader first) : run.length ≤ longest := by
  rcases searched.place with place | little
  · obtain ⟨length, _⟩ := rtlFindNextForwardRunClear_seen place
    rw [none] at length
    have atEnd := (nextRun_length_pos_iff bitMapHeader.seen false place.1).not.mp
      (by rw [← length]; exact lt_irrefl _)
    obtain ⟨start, runLength'⟩ := run
    refine searched.covered _ member ?_
    by_contra ahead
    obtain ⟨positive, inside, filled, _⟩ := mem_runs_iff.mp (mem_seenFrom.mp member).2
    have below : start < (nextRun bitMapHeader.seen false bitMapHeader.sizeOfBitMap.toNat
        fromIndex.toNat).start := by omega
    exact nextRun_passes (not_lt.mp ahead) below (filled start (le_refl _) (by omega))
  · exact searched.covered_rest little run member

/-- What lies behind a run that the scans see is a place again, or the run has been taken to go on
to the end. -/
theorem Place.advance {index : Nat} (place : Place bitMapHeader index)
    (some' : 0 < (nextRun bitMapHeader.seen false bitMapHeader.sizeOfBitMap.toNat index).length) :
    Place bitMapHeader (index +
        (nextRun bitMapHeader.seen false bitMapHeader.sizeOfBitMap.toNat index).length) ∨
      bitMapHeader.sizeOfBitMap.toNat - (index +
          (nextRun bitMapHeader.seen false bitMapHeader.sizeOfBitMap.toNat index).length) ≤
        (nextRun bitMapHeader.seen false bitMapHeader.sizeOfBitMap.toNat index).length := by
  have startPlace : Place bitMapHeader
      (nextRun bitMapHeader.seen false bitMapHeader.sizeOfBitMap.toNat index).start := place.next
  have endPlace : Place bitMapHeader
      ((nextRun bitMapHeader.seen false bitMapHeader.sizeOfBitMap.toNat index).start +
        (nextRun bitMapHeader.seen false bitMapHeader.sizeOfBitMap.toNat index).length) :=
    startPlace.next
  have below := (nextRun_length_pos_iff bitMapHeader.seen false place.1).mp some'
  have lower := le_nextRun bitMapHeader.seen false bitMapHeader.sizeOfBitMap.toNat index
  generalize nextRun bitMapHeader.seen false bitMapHeader.sizeOfBitMap.toNat index = run at *
  obtain ⟨_, startPlace⟩ := startPlace
  obtain ⟨within, endPlace⟩ := endPlace
  unfold Place
  omega

theorem toNat_pos {number : UInt32} (some' : number ≠ 0) : 0 < number.toNat :=
  Nat.pos_of_ne_zero fun zero => some' (UInt32.toNat_inj.mp zero)

/-- A run that a search meets: the search goes on, and where the run is longer than all before, it
is the first of its length. -/
theorem Searched.next {first longest : Nat} {fromIndex next : UInt32}
    (outside : Outside bitMapHeader first)
    (searched : Searched bitMapHeader first fromIndex.toNat longest)
    (some' : (rtlFindNextForwardRunClear bitMapHeader fromIndex).1 ≠ 0)
    (moved : next.toNat = fromIndex.toNat +
      (rtlFindNextForwardRunClear bitMapHeader fromIndex).1.toNat) :
    Searched bitMapHeader first next.toNat
        (max longest (rtlFindNextForwardRunClear bitMapHeader fromIndex).1.toNat) ∧
      (longest < (rtlFindNextForwardRunClear bitMapHeader fromIndex).1.toNat →
        ⟨(rtlFindNextForwardRunClear bitMapHeader fromIndex).2.toNat,
          (rtlFindNextForwardRunClear bitMapHeader fromIndex).1.toNat⟩ ∈
            seenFrom bitMapHeader first ∧
        ∀ run ∈ seenFrom bitMapHeader first,
          run.start < (rtlFindNextForwardRunClear bitMapHeader fromIndex).2.toNat →
            run.length ≤ longest) := by
  obtain ⟨lower, upper⟩ := rtlFindNextForwardRunClear_le searched.within
  have positive := toNat_pos some'
  have above := searched.above
  rcases searched.place with place | little
  · obtain ⟨length, start⟩ := rtlFindNextForwardRunClear_seen place
    have advanced := place.advance (length ▸ positive)
    rw [length] at moved positive
    rw [length, start] at upper ⊢
    rw [start] at lower
    rw [← moved] at advanced
    refine ⟨⟨by omega, by omega, advanced.imp_right fun less => less.trans (le_max_right _ _),
      fun run member passed => ?_⟩, fun longer => ⟨?_, fun run member before => ?_⟩⟩
    · by_cases earlier : run.start < fromIndex.toNat
      · exact (searched.covered run member earlier).trans (le_max_left _ _)
      · have same := eq_nextRun (mem_seenFrom.mp member).2 (not_lt.mp earlier) (by omega)
        exact (congrArg BitRun.length same).le.trans (le_max_right _ _)
    · rcases nextRun_cases searched.within positive with
        member | ⟨run, member, before, inside, less⟩
      · exact mem_seenFrom.mpr ⟨above.trans lower, member⟩
      · -- The search has begun inside a run that it has passed.
        have behind : first ≤ run.start := by
          by_contra ahead
          obtain ⟨_, size, filled, _⟩ := mem_runs_iff.mp member
          rcases outside with atZero | atEnd | differs
          · omega
          · omega
          · exact differs (filled first (by omega) (by omega))
        have covered := searched.covered run (mem_seenFrom.mpr ⟨behind, member⟩) before
        omega
    · refine searched.covered run member ?_
      by_contra later
      have starts := nextRun_start_le (mem_seenFrom.mp member).2 (not_lt.mp later)
      omega
  · refine ⟨⟨by omega, by omega, .inr (le_max_of_le_left (by omega)), fun run member _ => ?_⟩,
      fun longer => absurd longer (by omega)⟩
    exact (searched.covered_rest little run member).trans (le_max_left _ _)

/-- A search that moves on by the bits it has met does not wrap, and comes closer to the end. -/
theorem moved_past {fromIndex number size : UInt32} (some' : number ≠ 0)
    (within : fromIndex.toNat + number.toNat ≤ size.toNat) :
    (fromIndex + number).toNat = fromIndex.toNat + number.toNat ∧
      size.toNat - (fromIndex + number).toNat < size.toNat - fromIndex.toNat := by
  have bound := size.toNat_lt
  have positive := toNat_pos some'
  have moved : (fromIndex + number).toNat = fromIndex.toNat + number.toNat := by
    rw [UInt32.toNat_add, Nat.mod_eq_of_lt (by omega)]
  exact ⟨moved, by omega⟩

/-! ### The longest run -/

/-- The first of the longest runs of a list: its length, and where it starts. -/
def LongestOf (all : List BitRun) (length : Nat) (start : Option Nat) : Prop :=
  (all = [] ∧ length = 0 ∧ start = none) ∨
    ∃ first, start = some first ∧ ⟨first, length⟩ ∈ all ∧
      ∀ run ∈ all, run.length ≤ length ∧ (run.start < first → run.length < length)

/-- What holds whenever the loop of `RtlFindLongestRunClear` comes round: the run that is kept is
the first of its length. -/
structure LongestHolds (bitMapHeader : RtlBitmap) (search : LongestSearch) : Prop where
  searched : Searched bitMapHeader 0 search.fromIndex.toNat search.maxNumberOfBits.toNat
  kept : (search.maxNumberOfBits = 0 ∧ search.startingIndex = none) ∨
    ∃ first, search.startingIndex = some first ∧
      ⟨first.toNat, search.maxNumberOfBits.toNat⟩ ∈ seenFrom bitMapHeader 0 ∧
      ∀ run ∈ seenFrom bitMapHeader 0, run.start < first.toNat →
        run.length < search.maxNumberOfBits.toNat

/-- A turn meets no more bits, or keeps the longer of two runs. -/
theorem LongestHolds.turn {search : LongestSearch} (holds : LongestHolds bitMapHeader search) :
    Holds (fun next => match next with
      | .again next => ∃ smaller < bitMapHeader.sizeOfBitMap.toNat - search.fromIndex.toNat,
          LongestHolds bitMapHeader next ∧
            bitMapHeader.sizeOfBitMap.toNat - next.fromIndex.toNat = smaller
      | .leave last => LongestOf (seenFrom bitMapHeader 0) last.maxNumberOfBits.toNat
          (last.startingIndex.map UInt32.toNat)) (fun _ => False)
      (longestRunTurn bitMapHeader search) := by
  obtain ⟨searched, kept⟩ := holds
  have bound := bitMapHeader.sizeOfBitMap.toNat_lt
  obtain ⟨lower, upper⟩ := rtlFindNextForwardRunClear_le searched.within
  have done := searched.done
  have next := @Searched.next bitMapHeader 0 _ search.fromIndex
    (search.fromIndex + (rtlFindNextForwardRunClear bitMapHeader search.fromIndex).1) (.inl rfl)
    searched
  unfold longestRunTurn
  generalize rtlFindNextForwardRunClear bitMapHeader search.fromIndex = found at *
  obtain ⟨numberOfBits, index⟩ := found
  dsimp only at lower upper done next ⊢
  split
  · rename_i none
    have all := done none
    rcases kept with ⟨zero, noStart⟩ | ⟨first, some', member, before⟩
    · refine .inl ⟨List.eq_nil_iff_forall_not_mem.mpr fun run member => ?_,
        by rw [zero]; rfl, by rw [noStart]; rfl⟩
      have short := all run member
      have positive := (mem_runs_iff.mp (mem_seenFrom.mp member).2).1
      rw [zero, UInt32.toNat_zero] at short
      omega
    · exact .inr ⟨first.toNat, by rw [some']; rfl, member,
        fun run inRuns => ⟨all run inRuns, before run inRuns⟩⟩
  · rename_i some'
    obtain ⟨moved, progress⟩ :=
      @moved_past search.fromIndex _ bitMapHeader.sizeOfBitMap some' (by omega)
    obtain ⟨searched', longer⟩ := next some' moved
    by_cases less : search.maxNumberOfBits < numberOfBits
    · rw [if_pos less]
      rw [UInt32.lt_iff_toNat_lt] at less
      obtain ⟨member, before⟩ := longer less
      rw [max_eq_right (Nat.le_of_lt less)] at searched'
      exact ⟨_, progress, ⟨searched', .inr ⟨index, rfl, member, fun run inRuns earlier =>
        lt_of_le_of_lt (before run inRuns earlier) less⟩⟩, rfl⟩
    · rw [if_neg less]
      rw [UInt32.lt_iff_toNat_lt, not_lt] at less
      rw [max_eq_left less] at searched'
      exact ⟨_, progress, ⟨searched', kept⟩, rfl⟩

/-- `RtlFindLongestRunClear` finds the first of the longest runs that the scans see. -/
theorem rtlFindLongestRunClear_holds (bitMapHeader : RtlBitmap) {turns : Nat}
    (enough : bitMapHeader.sizeOfBitMap.toNat < turns) :
    Holds (fun found => LongestOf (seenFrom bitMapHeader 0) found.1.toNat
        (found.2.map UInt32.toNat)) (fun _ => False)
      (rtlFindLongestRunClear turns bitMapHeader) := by
  unfold rtlFindLongestRunClear
  rw [holds_bind]
  refine repeatLoop_holds (fun variant search => LongestHolds bitMapHeader search ∧
      bitMapHeader.sizeOfBitMap.toNat - search.fromIndex.toNat = variant)
    ?_ turns _ _ ⟨⟨⟨le_refl _, Nat.zero_le _, .inl ⟨Nat.zero_le _, .inr (.inl (by decide))⟩,
      fun run _ before => absurd before (Nat.not_lt_zero _)⟩, .inl ⟨rfl, rfl⟩⟩, rfl⟩ (by omega)
  rintro variant search ⟨holds, rfl⟩
  exact holds.turn.mono (fun next kept => by cases next <;> exact kept) (fun _ stopped => stopped)

/-! ### The first runs -/

/-- A run of the array. -/
def RtlBitmapRun.bitRun (run : RtlBitmapRun) : BitRun :=
  ⟨run.startingIndex.toNat, run.numberOfBits.toNat⟩

/-- The first runs of an array. -/
def reported (runArray : Nat → RtlBitmapRun) (count : Nat) : List BitRun :=
  (List.range count).map fun index => (runArray index).bitRun

theorem reported_succ (runArray : Nat → RtlBitmapRun) (count : Nat) (run : RtlBitmapRun) :
    reported (Function.update runArray count run) (count + 1) =
      reported runArray count ++ [run.bitRun] := by
  have last : Function.update runArray count run count = run := Function.update_self _ _ _
  rw [reported, List.range_succ, List.map_append, List.map_singleton, last]
  congr 1
  refine List.map_congr_left fun index member => ?_
  rw [Function.update_of_ne (Nat.ne_of_lt (List.mem_range.mp member))]

/-- The first shortest of some runs. -/
def FirstShortest (runArray : Nat → RtlBitmapRun) (count shortest : Nat) : Prop :=
  shortest < count ∧
    (∀ index < count,
      (runArray shortest).numberOfBits.toNat ≤ (runArray index).numberOfBits.toNat) ∧
    ∀ index < shortest,
      (runArray shortest).numberOfBits.toNat < (runArray index).numberOfBits.toNat

/-- What holds whenever the first loop of `RtlFindClearRuns` comes round: the array holds the first
runs, and the rest of them follow. -/
structure FoundRuns (bitMapHeader : RtlBitmap) (search : RunSearch) : Prop where
  place : Place bitMapHeader search.fromIndex.toNat
  outside : Outside bitMapHeader search.fromIndex.toNat
  runs : seenFrom bitMapHeader 0 =
    reported search.runArray search.run.toNat ++ seenFrom bitMapHeader search.fromIndex.toNat
  smallest : (search.run = 0 ∧ search.smallestRun = 0) ∨
    FirstShortest search.runArray search.run.toNat search.smallestRun.toNat

/-- A search that begins inside of no run meets the next of the runs. -/
theorem seenFrom_next {fromIndex : UInt32} (place : Place bitMapHeader fromIndex.toNat)
    (outside : Outside bitMapHeader fromIndex.toNat) {numberOfBits startingIndex : UInt32}
    (found : rtlFindNextForwardRunClear bitMapHeader fromIndex = (numberOfBits, startingIndex)) :
    (numberOfBits = 0 → seenFrom bitMapHeader fromIndex.toNat = []) ∧
      (numberOfBits ≠ 0 → seenFrom bitMapHeader fromIndex.toNat =
          ⟨startingIndex.toNat, numberOfBits.toNat⟩ ::
            seenFrom bitMapHeader (startingIndex + numberOfBits).toNat ∧
        Place bitMapHeader (startingIndex + numberOfBits).toNat ∧
        Outside bitMapHeader (startingIndex + numberOfBits).toNat) := by
  obtain ⟨length, start⟩ := rtlFindNextForwardRunClear_seen place
  have list := @runsFrom_next bitMapHeader.seen false _ _ place.1
    (outside.imp_right fun other => other.imp_right .inr)
  have endLe := nextRun_end_le bitMapHeader.seen false place.1
  have stop := nextRun_stop bitMapHeader.seen false place.1
  have startPlace : Place bitMapHeader (nextRun bitMapHeader.seen false
    bitMapHeader.sizeOfBitMap.toNat fromIndex.toNat).start := place.next
  have endPlace : Place bitMapHeader ((nextRun bitMapHeader.seen false
      bitMapHeader.sizeOfBitMap.toNat fromIndex.toNat).start + (nextRun bitMapHeader.seen false
      bitMapHeader.sizeOfBitMap.toNat fromIndex.toNat).length) := startPlace.next
  rw [found] at length start
  dsimp only at length start
  have bound := bitMapHeader.sizeOfBitMap.toNat_lt
  have sum : (startingIndex + numberOfBits).toNat = startingIndex.toNat + numberOfBits.toNat := by
    rw [UInt32.toNat_add, Nat.mod_eq_of_lt]
    rw [length, start]
    omega
  rw [← length, ← start] at stop endPlace
  rw [sum]
  constructor
  · rintro rfl
    rw [seenFrom, list, if_pos (by rw [← length]; rfl)]
  · intro some'
    have positive : numberOfBits.toNat ≠ 0 := fun zero => some' (UInt32.toNat_inj.mp zero)
    refine ⟨?_, endPlace, .inr stop⟩
    rw [seenFrom, list, if_neg (by rw [← length]; exact positive), ← length, ← start, seenFrom]
    congr 1
    rw [length, start]

/-- The next run is stored behind the others. -/
theorem FoundRuns.next {search : RunSearch} (found : FoundRuns bitMapHeader search)
    (few : search.run.toNat + 1 < 2 ^ 32) {numberOfBits startingIndex : UInt32}
    (met : rtlFindNextForwardRunClear bitMapHeader search.fromIndex =
      (numberOfBits, startingIndex))
    (some' : numberOfBits ≠ 0) {runArray : Nat → RtlBitmapRun}
    (stored : Function.update search.runArray search.run.toNat { startingIndex, numberOfBits } =
      runArray) :
    FoundRuns bitMapHeader
      { run := search.run + 1
        fromIndex := startingIndex + numberOfBits
        smallestRun :=
          if numberOfBits < (runArray search.smallestRun.toNat).numberOfBits then search.run
          else search.smallestRun
        runArray } := by
  obtain ⟨runs, place, outside⟩ := (seenFrom_next found.place found.outside met).2 some'
  have count : (search.run + 1).toNat = search.run.toNat + 1 := by
    rw [UInt32.toNat_add]
    exact Nat.mod_eq_of_lt few
  have here : runArray search.run.toNat = { startingIndex, numberOfBits } := by
    rw [← stored, Function.update_self]
  have elsewhere : ∀ index, index ≠ search.run.toNat →
      runArray index = search.runArray index := by
    intro index other
    rw [← stored, Function.update_of_ne other]
  refine ⟨place, outside, ?_, .inr ?_⟩
  · rw [found.runs, runs, count, ← stored, reported_succ, List.append_assoc]
    rfl
  · dsimp only
    rw [count]
    rcases found.smallest with ⟨zero, first⟩ | ⟨inside, least, earlier⟩
    · rw [zero] at here ⊢
      have notLess : ¬ numberOfBits < (runArray (0 : UInt32).toNat).numberOfBits := by
        rw [here]
        exact UInt32.lt_irrefl _
      rw [first, if_neg notLess]
      refine ⟨Nat.zero_lt_one, fun index below => ?_, fun index below => ?_⟩
      · rw [Nat.lt_one_iff.mp below]
        exact le_refl _
      · exact absurd below (Nat.not_lt_zero _)
    · rw [elsewhere _ (Nat.ne_of_lt inside)]
      split
      · rename_i less
        rw [UInt32.lt_iff_toNat_lt] at less
        unfold FirstShortest
        rw [here]
        refine ⟨Nat.lt_succ_self _, fun index below => ?_, fun index below => ?_⟩
        · by_cases last : index = search.run.toNat
          · rw [last, here]
          · rw [elsewhere index last]
            exact (Nat.le_of_lt less).trans (least index (by omega))
        · rw [elsewhere index (Nat.ne_of_lt below)]
          exact less.trans_le (least index below)
      · rename_i notLess
        rw [UInt32.lt_iff_toNat_lt, not_lt] at notLess
        unfold FirstShortest
        rw [elsewhere _ (Nat.ne_of_lt inside)]
        refine ⟨Nat.lt_succ_of_lt inside, fun index below => ?_, fun index below => ?_⟩
        · by_cases last : index = search.run.toNat
          · rw [last, here]
            exact notLess
          · rw [elsewhere index last]
            exact least index (by omega)
        · rw [elsewhere index (by omega)]
          exact earlier index below

/-- The first loop of `RtlFindClearRuns` stores the first runs, until there are enough of them or no
more. -/
theorem findRuns_holds :
    ∀ (left : Nat) (search : RunSearch), FoundRuns bitMapHeader search →
      search.run.toNat + left < 2 ^ 32 →
      FoundRuns bitMapHeader (findRuns bitMapHeader left search) ∧
        ((findRuns bitMapHeader left search).run.toNat = search.run.toNat + left ∨
          ((findRuns bitMapHeader left search).run.toNat < search.run.toNat + left ∧
            seenFrom bitMapHeader (findRuns bitMapHeader left search).fromIndex.toNat = [])) := by
  intro left
  induction left with
  | zero => exact fun search found _ => ⟨found, .inl rfl⟩
  | succ left inductionHypothesis =>
    intro search found few
    rw [findRuns]
    cases met : rtlFindNextForwardRunClear bitMapHeader search.fromIndex with
    | mk numberOfBits startingIndex =>
      dsimp only
      split
      · rename_i none
        exact ⟨found, .inr ⟨by omega, (seenFrom_next found.place found.outside met).1 none⟩⟩
      · rename_i some'
        have count : (search.run + 1).toNat = search.run.toNat + 1 := by
          rw [UInt32.toNat_add]
          exact Nat.mod_eq_of_lt (show search.run.toNat + 1 < 2 ^ 32 by omega)
        obtain ⟨found', ends⟩ := inductionHypothesis _
          (found.next (by omega) met some' rfl) (by dsimp only; omega)
        refine ⟨found', ?_⟩
        dsimp only at ends
        rw [count] at ends
        rcases ends with full | ⟨fewer, none⟩
        · exact .inl (by omega)
        · exact .inr ⟨by omega, none⟩

/-! ### The replacement -/

/-- The loop that is to find the new shortest run changes nothing. -/
theorem smallestLoop_eq {numberOfBits smallestRun : UInt32} {runArray : Nat → RtlBitmapRun}
    (notLess : ¬ numberOfBits < (runArray smallestRun.toNat).numberOfBits) (left : Nat)
    (run : UInt32) :
    smallestLoop numberOfBits runArray left run smallestRun = smallestRun := by
  induction left generalizing run with
  | zero => rfl
  | succ left inductionHypothesis => rw [smallestLoop, if_neg notLess, inductionHypothesis]

/-- What holds whenever the second loop of `RtlFindClearRuns` comes round: the shortest of the first
runs is there, or one that follows and is longer. -/
structure Replaced (bitMapHeader : RtlBitmap) (before : RunSearch) (search : RunSearch) :
    Prop where
  run : search.run = before.run
  smallestRun : search.smallestRun = before.smallestRun
  others : ∀ index, index ≠ before.smallestRun.toNat →
    search.runArray index = before.runArray index
  searched : Searched bitMapHeader before.fromIndex.toNat search.fromIndex.toNat
    (search.runArray before.smallestRun.toNat).bitRun.length
  best : search.runArray before.smallestRun.toNat = before.runArray before.smallestRun.toNat ∨
    (search.runArray before.smallestRun.toNat).bitRun ∈
      seenFrom bitMapHeader before.fromIndex.toNat
  longer : (before.runArray before.smallestRun.toNat).bitRun.length ≤
    (search.runArray before.smallestRun.toNat).bitRun.length

/-- A turn meets no more bits, or keeps the longer of two runs. -/
theorem Replaced.turn {before search : RunSearch}
    (outside : Outside bitMapHeader before.fromIndex.toNat)
    (replaced : Replaced bitMapHeader before search) :
    Holds (fun next => match next with
      | .again next => ∃ smaller < bitMapHeader.sizeOfBitMap.toNat - search.fromIndex.toNat,
          Replaced bitMapHeader before next ∧
            bitMapHeader.sizeOfBitMap.toNat - next.fromIndex.toNat = smaller
      | .leave last => Replaced bitMapHeader before last ∧
          ∀ run ∈ seenFrom bitMapHeader before.fromIndex.toNat,
            run.length ≤ (last.runArray before.smallestRun.toNat).bitRun.length) (fun _ => False)
      (longestTurn bitMapHeader before.run search) := by
  have bound := bitMapHeader.sizeOfBitMap.toNat_lt
  obtain ⟨lower, upper⟩ := rtlFindNextForwardRunClear_le replaced.searched.within
  have done := replaced.searched.done
  have next := @Searched.next bitMapHeader _ _ search.fromIndex
    (search.fromIndex + (rtlFindNextForwardRunClear bitMapHeader search.fromIndex).1) outside
    replaced.searched
  unfold longestTurn
  generalize rtlFindNextForwardRunClear bitMapHeader search.fromIndex = found at *
  obtain ⟨numberOfBits, startingIndex⟩ := found
  dsimp only at lower upper done next ⊢
  split
  · rename_i none
    exact ⟨replaced, done none⟩
  · rename_i some'
    obtain ⟨moved, progress⟩ :=
      @moved_past search.fromIndex _ bitMapHeader.sizeOfBitMap some' (by omega)
    obtain ⟨searched', longer⟩ := next some' moved
    unfold replaceRun
    rw [replaced.smallestRun]
    by_cases less :
        (search.runArray before.smallestRun.toNat).numberOfBits < numberOfBits
    · have stored : Function.update search.runArray before.smallestRun.toNat
          { startingIndex, numberOfBits } before.smallestRun.toNat =
            { startingIndex, numberOfBits } := Function.update_self _ _ _
      have same := @smallestLoop_eq numberOfBits before.smallestRun
        (Function.update search.runArray before.smallestRun.toNat
          { startingIndex, numberOfBits }) (by rw [stored]; exact UInt32.lt_irrefl _)
      rw [if_pos less]
      rw [UInt32.lt_iff_toNat_lt] at less
      change (search.runArray before.smallestRun.toNat).bitRun.length < numberOfBits.toNat at less
      obtain ⟨member, _⟩ := longer less
      rw [max_eq_right (Nat.le_of_lt less)] at searched'
      refine ⟨_, progress, ⟨rfl, same _ _, fun index other => ?_, ?_, .inr ?_, ?_⟩, rfl⟩
      · exact (Function.update_of_ne other _ _).trans (replaced.others index other)
      · dsimp only
        rw [stored]
        exact searched'
      · dsimp only
        rw [stored]
        exact member
      · dsimp only
        rw [stored]
        exact replaced.longer.trans (Nat.le_of_lt less)
    · rw [if_neg less]
      rw [UInt32.lt_iff_toNat_lt, not_lt] at less
      change numberOfBits.toNat ≤ (search.runArray before.smallestRun.toNat).bitRun.length at less
      rw [max_eq_left less] at searched'
      exact ⟨_, progress, ⟨replaced.run, replaced.smallestRun, replaced.others, searched',
        replaced.best, replaced.longer⟩, rfl⟩

end Searches

end Nloader.Bitmap
