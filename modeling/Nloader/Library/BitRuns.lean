/-
This file is a library of runs of equal bits in a string of bits: the length of the run that starts
at a position, within some room, the maximal runs below a size in order, and how a search that
goes from run to run meets them.

The library names nothing of the program it is used for.
-/

import Mathlib.Tactic

namespace BitRuns

/-! ### Equal bits -/

/-- Some bits from a position on have a value. -/
def Filled (bits : Nat → Bool) (value : Bool) (start count : Nat) : Prop :=
  ∀ index, start ≤ index → index < start + count → bits index = value

/-- The length of the run of a value that starts at a position, within some room. -/
def runLength (bits : Nat → Bool) (value : Bool) (start : Nat) : Nat → Nat
  | 0 => 0
  | room + 1 => if bits start = value then runLength bits value (start + 1) room + 1 else 0

variable {bits : Nat → Bool} {value : Bool} {start count room size : Nat}

@[simp] theorem filled_zero : Filled bits value start 0 := fun index above below => by omega

theorem Filled.mono {fewer : Nat} (filled : Filled bits value start count)
    (less : fewer ≤ count) : Filled bits value start fewer :=
  fun index above below => filled index above (by omega)

theorem filled_succ :
    Filled bits value start (count + 1) ↔
      bits start = value ∧ Filled bits value (start + 1) count := by
  constructor
  · exact fun filled => ⟨filled start (le_refl _) (by omega),
      fun index above below => filled index (by omega) (by omega)⟩
  · rintro ⟨first, rest⟩ index above below
    rcases Nat.eq_or_lt_of_le above with rfl | later
    · exact first
    · exact rest index later (by omega)

/-- The run that starts at a position has as many bits as can be found there. -/
theorem le_runLength_iff :
    count ≤ runLength bits value start room ↔ count ≤ room ∧ Filled bits value start count := by
  induction room generalizing start count with
  | zero =>
    rw [runLength]
    constructor
    · rintro none
      obtain rfl : count = 0 := by omega
      exact ⟨le_refl _, filled_zero⟩
    · exact And.left
  | succ room inductionHypothesis =>
    rw [runLength]
    cases count with
    | zero => simp
    | succ count =>
      rw [filled_succ]
      split
      · rename_i same
        rw [Nat.add_le_add_iff_right, inductionHypothesis, Nat.add_le_add_iff_right]
        simp [same]
      · rename_i differs
        simp [differs]

theorem runLength_le (bits : Nat → Bool) (value : Bool) (start room : Nat) :
    runLength bits value start room ≤ room :=
  (le_runLength_iff.mp (le_refl _)).1

theorem runLength_filled (bits : Nat → Bool) (value : Bool) (start room : Nat) :
    Filled bits value start (runLength bits value start room) :=
  (le_runLength_iff.mp (le_refl _)).2

/-- A run that ends within the room ends at another bit. -/
theorem runLength_stop (bits : Nat → Bool) (value : Bool) (start room : Nat)
    (within : runLength bits value start room < room) :
    bits (start + runLength bits value start room) ≠ value := by
  intro same
  have longer : runLength bits value start room + 1 ≤ runLength bits value start room := by
    refine le_runLength_iff.mpr ⟨within, fun index above below => ?_⟩
    rcases Nat.lt_or_ge index (start + runLength bits value start room) with inside | atEnd
    · exact runLength_filled bits value start room index above inside
    · rw [show index = start + runLength bits value start room by omega]
      exact same
  omega

/-- A run is known by its bits and the bit it ends at. -/
theorem runLength_eq (filled : Filled bits value start count) (within : count ≤ room)
    (stop : count = room ∨ bits (start + count) ≠ value) :
    runLength bits value start room = count := by
  refine Nat.le_antisymm ?_ (le_runLength_iff.mpr ⟨within, filled⟩)
  by_contra longer
  rcases stop with full | differs
  · exact longer (full ▸ runLength_le bits value start count)
  · exact differs (runLength_filled bits value start room (start + count) (by omega) (by omega))

theorem runLength_pos_iff :
    0 < runLength bits value start room ↔ 0 < room ∧ bits start = value := by
  change 1 ≤ _ ↔ _
  rw [le_runLength_iff, filled_succ]
  simp [Nat.one_le_iff_ne_zero, Nat.pos_iff_ne_zero]

/-- Only the bits within the room matter. -/
theorem runLength_congr {bits' : Nat → Bool}
    (same : ∀ index, start ≤ index → index < start + room → bits index = bits' index) :
    runLength bits value start room = runLength bits' value start room := by
  induction room generalizing start with
  | zero => rfl
  | succ room inductionHypothesis =>
    rw [runLength, runLength, same start (le_refl _) (by omega),
      inductionHypothesis fun index above below => same index (by omega) (by omega)]

/-! ### Maximal runs -/

/-- A run: where it starts, and how many bits it has. -/
structure BitRun where
  start : Nat
  length : Nat
  deriving DecidableEq

/-- A run of a value starts at a position. -/
def isStart (bits : Nat → Bool) (value : Bool) (index : Nat) : Bool :=
  bits index = value ∧ (index = 0 ∨ bits (index - 1) ≠ value)

/-- The maximal run below a size that starts at a position. -/
def runAt (bits : Nat → Bool) (value : Bool) (size start : Nat) : BitRun :=
  ⟨start, runLength bits value start (size - start)⟩

/-- The maximal runs of a value below a size that start at a position or behind it, in order. -/
def runsFrom (bits : Nat → Bool) (value : Bool) (size start : Nat) : List BitRun :=
  ((List.range' start (size - start)).filter (isStart bits value)).map (runAt bits value size)

/-- The maximal runs of a value below a size, in order. -/
def runs (bits : Nat → Bool) (value : Bool) (size : Nat) : List BitRun :=
  runsFrom bits value size 0

theorem isStart_iff {index : Nat} :
    isStart bits value index = true ↔
      bits index = value ∧ (index = 0 ∨ bits (index - 1) ≠ value) := decide_eq_true_iff

theorem mem_runsFrom {first : Nat} {run : BitRun} :
    run ∈ runsFrom bits value size first ↔
      (first ≤ run.start ∧ run.start < size ∧ isStart bits value run.start = true) ∧
        run = runAt bits value size run.start := by
  unfold runsFrom
  rw [List.mem_map]
  constructor
  · rintro ⟨start, member, rfl⟩
    rw [List.mem_filter, List.mem_range'_1] at member
    refine ⟨⟨member.1.1, ?_, member.2⟩, rfl⟩
    change start < size
    omega
  · rintro ⟨⟨above, below, starts⟩, same⟩
    refine ⟨run.start, List.mem_filter.mpr ⟨List.mem_range'_1.mpr ⟨above, ?_⟩, starts⟩, same.symm⟩
    omega

theorem mem_runs {run : BitRun} :
    run ∈ runs bits value size ↔
      (run.start < size ∧ isStart bits value run.start = true) ∧
        run = runAt bits value size run.start := by
  unfold runs
  rw [mem_runsFrom]
  simp

/-- A run of the list is a stretch of equal bits below the size, between other bits. -/
theorem mem_runs_iff {length : Nat} :
    ⟨start, length⟩ ∈ runs bits value size ↔
      0 < length ∧ start + length ≤ size ∧ Filled bits value start length ∧
        (start = 0 ∨ bits (start - 1) ≠ value) ∧
        (start + length = size ∨ bits (start + length) ≠ value) := by
  rw [mem_runs, isStart_iff, runAt, BitRun.mk.injEq]
  dsimp only
  constructor
  · rintro ⟨⟨below, same, left⟩, _, rfl⟩
    have most := runLength_le bits value start (size - start)
    refine ⟨runLength_pos_iff.mpr ⟨Nat.sub_pos_of_lt below, same⟩, by omega,
      runLength_filled bits value start _, left, ?_⟩
    rcases Nat.eq_or_lt_of_le most with full | less
    · exact .inl (by omega)
    · exact .inr (runLength_stop bits value start _ less)
  · rintro ⟨positive, within, filled, left, right⟩
    refine ⟨⟨by omega, filled start (le_refl _) (by omega), left⟩, rfl, ?_⟩
    exact (runLength_eq filled (by omega) (right.imp_left fun atEnd => by omega)).symm

theorem runsFrom_nil (nothing : size ≤ start) : runsFrom bits value size start = [] := by
  rw [runsFrom, Nat.sub_eq_zero_of_le nothing]
  rfl

/-- Where no run starts, the list goes on. -/
theorem runsFrom_skip (within : start + count ≤ size)
    (none : ∀ index, start ≤ index → index < start + count → isStart bits value index = false) :
    runsFrom bits value size start = runsFrom bits value size (start + count) := by
  have split : size - start = count + (size - (start + count)) := by omega
  have nothing : (List.range' start count).filter (isStart bits value) = [] := by
    rw [List.filter_eq_nil_iff]
    intro index member
    rw [List.mem_range'_1] at member
    rw [none index member.1 member.2]
    exact Bool.false_ne_true
  rw [runsFrom, split, ← List.range'_append_1, List.filter_append, nothing, List.nil_append,
    runsFrom]

/-- Where a run starts, it is the first of the list. -/
theorem runsFrom_cons (below : start < size) (starts : isStart bits value start = true) :
    runsFrom bits value size start =
      runAt bits value size start ::
        runsFrom bits value size (start + runLength bits value start (size - start)) := by
  have positive := runLength_pos_iff.mpr ⟨Nat.sub_pos_of_lt below, (isStart_iff.mp starts).1⟩
  have most := runLength_le bits value start (size - start)
  have rest : runsFrom bits value size (start + 1) =
      runsFrom bits value size (start + runLength bits value start (size - start)) := by
    have moved : start + runLength bits value start (size - start) =
        start + 1 + (runLength bits value start (size - start) - 1) := by omega
    rw [moved]
    refine runsFrom_skip (by omega) fun index above below => ?_
    have inside : bits (index - 1) = value :=
      runLength_filled bits value start (size - start) (index - 1) (by omega) (by omega)
    rw [← Bool.not_eq_true, isStart_iff]
    rintro ⟨_, atZero | differs⟩
    · omega
    · exact differs inside
  have split : size - start = (size - (start + 1)) + 1 := by omega
  rw [← rest, runsFrom, split, List.range'_succ, List.filter_cons_of_pos starts, List.map_cons,
    ← runsFrom]

/-- Every bit of the value below the size is in a run. -/
theorem exists_mem_runs {index : Nat} (below : index < size) (same : bits index = value) :
    ∃ run ∈ runs bits value size, run.start ≤ index ∧ index < run.start + run.length := by
  induction index with
  | zero =>
    refine ⟨runAt bits value size 0, mem_runs.mpr ⟨⟨below, ?_⟩, rfl⟩, le_refl _, ?_⟩
    · exact isStart_iff.mpr ⟨same, .inl rfl⟩
    · exact Nat.lt_add_of_pos_right (runLength_pos_iff.mpr ⟨Nat.sub_pos_of_lt below, same⟩)
  | succ index inductionHypothesis =>
    by_cases before : bits index = value
    · obtain ⟨⟨start, length⟩, member, lower, upper⟩ :=
        inductionHypothesis (Nat.lt_of_succ_lt below) before
      refine ⟨⟨start, length⟩, member, Nat.le_succ_of_le lower, ?_⟩
      obtain ⟨_, _, _, _, stop⟩ := mem_runs_iff.mp member
      dsimp only at lower upper ⊢
      by_contra outside
      have atEnd : start + length = index + 1 := by omega
      rw [atEnd] at stop
      rcases stop with full | differs
      · omega
      · exact differs same
    · refine ⟨runAt bits value size (index + 1), mem_runs.mpr ⟨⟨below, ?_⟩, rfl⟩, le_refl _, ?_⟩
      · exact isStart_iff.mpr ⟨same, .inr before⟩
      · exact Nat.lt_add_of_pos_right (runLength_pos_iff.mpr ⟨Nat.sub_pos_of_lt below, same⟩)

/-- Two runs of the list that share a bit are one. -/
theorem eq_of_mem_runs {index : Nat} {run other : BitRun} (member : run ∈ runs bits value size)
    (member' : other ∈ runs bits value size) (inside : run.start ≤ index)
    (upper : index < run.start + run.length) (inside' : other.start ≤ index)
    (upper' : index < other.start + other.length) : run = other := by
  have notBefore : ∀ {first second : BitRun}, first ∈ runs bits value size →
      second ∈ runs bits value size → second.start ≤ index → index < first.start + first.length →
        second.start ≤ first.start := by
    rintro ⟨start, length⟩ ⟨start', length'⟩ member member' inside' upper
    dsimp only at inside' upper ⊢
    by_contra before
    obtain ⟨_, _, filled, _⟩ := mem_runs_iff.mp member
    obtain ⟨_, _, _, left, _⟩ := mem_runs_iff.mp member'
    rcases left with atZero | differs
    · omega
    · exact differs (filled (start' - 1) (by omega) (by omega))
  have same := Nat.le_antisymm (notBefore member' member inside upper')
    (notBefore member member' inside' upper)
  rw [(mem_runs.mp member).2, (mem_runs.mp member').2, same]

theorem runsFrom_nodup (bits : Nat → Bool) (value : Bool) (size start : Nat) :
    (runsFrom bits value size start).Nodup := by
  have positions : (List.range' start (size - start)).Nodup := List.nodup_range'
  refine List.Nodup.map (fun first second same => ?_) (positions.filter _)
  exact congrArg BitRun.start same

/-- The runs from a position on are a part of the runs. -/
theorem mem_runs_of_mem_runsFrom {run : BitRun} (member : run ∈ runsFrom bits value size start) :
    run ∈ runs bits value size := by
  rw [mem_runsFrom] at member
  exact mem_runs.mpr ⟨member.1.2, member.2⟩

/-- Only the bits below the size matter. -/
theorem runs_congr {bits' : Nat → Bool} (same : ∀ index < size, bits index = bits' index) :
    runs bits value size = runs bits' value size := by
  have starts : ∀ index ∈ List.range' 0 (size - 0),
      isStart bits value index = isStart bits' value index := by
    intro index member
    rw [List.mem_range'_1] at member
    rw [isStart, isStart, same index (by omega), same (index - 1) (by omega)]
  unfold runs runsFrom
  rw [List.filter_congr starts]
  refine List.map_congr_left fun index member => ?_
  have below := List.mem_range'_1.mp (List.mem_filter.mp member).1
  rw [runAt, runAt, runLength_congr fun other _ inside => same other (by omega)]

/-! ### The next run -/

/-- The run that a search from a position meets first; it has no bits where there is none. -/
def nextRun (bits : Nat → Bool) (value : Bool) (size start : Nat) : BitRun :=
  runAt bits value size (start + runLength bits (!value) start (size - start))

theorem le_nextRun (bits : Nat → Bool) (value : Bool) (size start : Nat) :
    start ≤ (nextRun bits value size start).start := Nat.le_add_right _ _

/-- The search passes no bit of the value. -/
theorem nextRun_passes {index : Nat} (above : start ≤ index)
    (below : index < (nextRun bits value size start).start) : bits index ≠ value := by
  rw [runLength_filled bits (!value) start _ index above below]
  exact Bool.not_ne_self value

theorem nextRun_filled (bits : Nat → Bool) (value : Bool) (size start : Nat) :
    Filled bits value (nextRun bits value size start).start
      (nextRun bits value size start).length :=
  runLength_filled bits value _ _

theorem nextRun_le (bits : Nat → Bool) (value : Bool) (within : start ≤ size) :
    (nextRun bits value size start).start ≤ size := by
  have most := runLength_le bits (!value) start (size - start)
  change start + _ ≤ size
  omega

theorem nextRun_end_le (bits : Nat → Bool) (value : Bool) (within : start ≤ size) :
    (nextRun bits value size start).start + (nextRun bits value size start).length ≤ size := by
  have bound := nextRun_le bits value within
  have most : (nextRun bits value size start).length ≤
      size - (nextRun bits value size start).start := runLength_le bits value _ _
  omega

/-- A run that the search meets ends at the size, or at another bit. -/
theorem nextRun_stop (bits : Nat → Bool) (value : Bool) (within : start ≤ size) :
    (nextRun bits value size start).start + (nextRun bits value size start).length = size ∨
      bits ((nextRun bits value size start).start + (nextRun bits value size start).length) ≠
        value := by
  have bound := nextRun_le bits value within
  have most : (nextRun bits value size start).length ≤
      size - (nextRun bits value size start).start := runLength_le bits value _ _
  rcases Nat.eq_or_lt_of_le most with full | less
  · exact .inl (by omega)
  · exact .inr (runLength_stop bits value _ _ less)

/-- A search that meets no bit has come to the end. -/
theorem nextRun_length_pos_iff (bits : Nat → Bool) (value : Bool) (within : start ≤ size) :
    0 < (nextRun bits value size start).length ↔
      (nextRun bits value size start).start < size := by
  change 0 < runLength bits value _ _ ↔ _
  rw [runLength_pos_iff]
  refine ⟨fun found => Nat.lt_of_sub_pos found.1, fun below => ⟨Nat.sub_pos_of_lt below, ?_⟩⟩
  by_contra differs
  change start + runLength bits (!value) start (size - start) < size at below
  exact runLength_stop bits (!value) start (size - start) (by omega) (Bool.eq_not.mpr differs)

/-- A search that does not begin inside a run meets the runs of the list in order. -/
theorem runsFrom_next (within : start ≤ size)
    (outside : start = 0 ∨ start = size ∨ bits (start - 1) ≠ value ∨ bits start ≠ value) :
    runsFrom bits value size start =
      if (nextRun bits value size start).length = 0 then []
      else nextRun bits value size start ::
        runsFrom bits value size
          ((nextRun bits value size start).start + (nextRun bits value size start).length) := by
  have bound := nextRun_le bits value within
  have lower := le_nextRun bits value size start
  have passed : runsFrom bits value size start =
      runsFrom bits value size (nextRun bits value size start).start := by
    have moved : (nextRun bits value size start).start =
        start + ((nextRun bits value size start).start - start) := by omega
    have within' : start + ((nextRun bits value size start).start - start) ≤ size := by omega
    rw [moved]
    refine runsFrom_skip within' fun index above below => ?_
    rw [← Bool.not_eq_true, isStart_iff]
    rw [← moved] at below
    exact fun starts => nextRun_passes above below starts.1
  rw [passed]
  split
  · rename_i none
    have atEnd : ¬ (nextRun bits value size start).start < size := by
      rw [← nextRun_length_pos_iff bits value within]
      omega
    exact runsFrom_nil (by omega)
  · rename_i some
    have positive := Nat.pos_of_ne_zero some
    have below := (nextRun_length_pos_iff bits value within).mp positive
    have first : bits (nextRun bits value size start).start = value :=
      nextRun_filled bits value size start _ (le_refl _) (Nat.lt_add_of_pos_right positive)
    refine runsFrom_cons below (isStart_iff.mpr ⟨first, ?_⟩)
    by_cases moved : start < (nextRun bits value size start).start
    · exact .inr (nextRun_passes (Nat.le_sub_one_of_lt moved) (Nat.sub_one_lt_of_lt moved))
    · have same : (nextRun bits value size start).start = start := by omega
      rw [same] at below first ⊢
      rcases outside with atZero | atEnd | differs | differs
      · exact .inl atZero
      · omega
      · exact .inr differs
      · exact absurd first differs

/-- What a search meets is a run of the list, or the rest of one that it begins inside. -/
theorem nextRun_cases (within : start ≤ size)
    (some' : 0 < (nextRun bits value size start).length) :
    nextRun bits value size start ∈ runs bits value size ∨
      ∃ run ∈ runs bits value size, run.start < start ∧ start < run.start + run.length ∧
        (nextRun bits value size start).length < run.length := by
  have below := (nextRun_length_pos_iff bits value within).mp some'
  have endLe := nextRun_end_le bits value within
  have filled := nextRun_filled bits value size start
  have passes := @nextRun_passes bits value start size
  have lower := le_nextRun bits value size start
  have stop := nextRun_stop bits value within
  generalize nextRun bits value size start = next at *
  have first : bits next.start = value := filled _ (le_refl _) (by omega)
  by_cases starts : next.start = 0 ∨ bits (next.start - 1) ≠ value
  · exact .inl (mem_runs_iff.mpr ⟨some', endLe, filled, starts, stop⟩)
  · rw [not_or, ne_eq, not_not] at starts
    have here : next.start = start := by
      by_contra moved
      exact passes (show start ≤ next.start - 1 by omega) (by omega) starts.2
    obtain ⟨⟨first', length⟩, member, lower', upper⟩ :=
      exists_mem_runs (show next.start - 1 < size by omega) starts.2
    obtain ⟨_, _, filled', _, stop'⟩ := mem_runs_iff.mp member
    dsimp only at lower' upper
    -- Both end at the same bit.
    have inside : start < first' + length := by
      by_contra outside
      have atEnd : first' + length = start := by omega
      rw [atEnd, ← here] at stop'
      rcases stop' with full | differs
      · omega
      · exact differs first
    have ends : next.start + next.length ≤ first' + length := by
      by_contra longer
      rcases stop' with full | differs
      · omega
      · exact differs (filled _ (by omega) (by omega))
    exact .inr ⟨⟨first', length⟩, member, by dsimp only; omega, inside, by dsimp only; omega⟩

/-- The first run of the list that a search can meet is the one that it meets. -/
theorem nextRun_start_le {run : BitRun} (member : run ∈ runs bits value size)
    (above : start ≤ run.start) : (nextRun bits value size start).start ≤ run.start := by
  by_contra before
  exact nextRun_passes above (not_le.mp before) (isStart_iff.mp (mem_runs.mp member).1.2).1

/-- No other run of the list starts before the end of the run that a search meets. -/
theorem eq_nextRun {run : BitRun} (member : run ∈ runs bits value size)
    (above : start ≤ run.start)
    (below : run.start <
      (nextRun bits value size start).start + (nextRun bits value size start).length) :
    run = nextRun bits value size start := by
  have lower := nextRun_start_le member above
  obtain ⟨⟨_, starts⟩, whole⟩ := mem_runs.mp member
  by_cases same : run.start = (nextRun bits value size start).start
  · rw [whole, same]
    rfl
  · rcases (isStart_iff.mp starts).2 with zero | differs
    · omega
    · exact absurd (nextRun_filled bits value size start _ (by omega) (by omega)) differs

end BitRuns
