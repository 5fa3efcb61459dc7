/-
This file is about which runs `RtlFindClearRuns` of `src/libs/ntdll/bitmap.c` selects when it is to
locate the longest. The first runs are stored, and the longest of those that follow takes the place
of the shortest of them. Where a second of those that follow is longer than another of the first
runs, it is left out though it is longer than a run that is reported.

Both functions go by what the scans see. That is the bitmap itself, save in a bitmap of more than
`2 ^ 32 - 32` bits, of which the scans see the first word only.
-/

import Nloader.BitmapRuns

namespace Nloader.Bitmap

open BitRuns Outcome

/-! ### Selections -/

section Selections

variable {all seen entries : List BitRun} {size : Nat}

/-- Some runs are the longest: as many as there is room for, each of them once, and none that is
left out is longer than one of them. -/
structure LongestRuns (all : List BitRun) (size : Nat) (entries : List BitRun) : Prop where
  count : entries.length = min size all.length
  distinct : entries.Nodup
  maximal : ∀ run ∈ entries, run ∈ all
  leftOut : ∀ left ∈ all, left ∉ entries → ∀ run ∈ entries, left.length ≤ run.length

/-- The first runs but the first shortest of them. -/
def keptRuns (size : Nat) (seen : List BitRun) : List BitRun :=
  (seen.take size).eraseIdx ((seen.take size).findIdx fun run =>
    (seen.take size).all fun other => run.length ≤ other.length)

/-- What is selected of the runs that are seen: all of them where there are fewer than there is room
for; otherwise the first of them, with the longest of the rest in the place of the first shortest
if it is longer. -/
inductive Selected (size : Nat) (seen : List BitRun) : List BitRun → Prop
  | few : seen.length < size → Selected size seen seen
  | full {front back rest : List BitRun} {shortest best : BitRun} :
      seen = front ++ shortest :: back ++ rest →
      (front ++ shortest :: back).length = size →
      (∀ run ∈ front, shortest.length < run.length) →
      (∀ run ∈ back, shortest.length ≤ run.length) →
      best = shortest ∨ best ∈ rest →
      shortest.length ≤ best.length →
      (∀ run ∈ rest, run.length ≤ best.length) →
      Selected size seen (front ++ best :: back)

/-- The condition under which a selection from the runs that are seen is right for all runs: what is
seen is there, there are enough of them, of any two behind the first runs one is no longer than any
that is kept, and what is not seen is no longer than any that is kept, and no longer than another
that is seen. -/
structure Selectable (all seen : List BitRun) (size : Nat) : Prop where
  real : ∀ run ∈ seen, run ∈ all
  enough : size ≤ seen.length ∨ seen.length = all.length
  pairs : ∀ first ∈ seen.drop size, ∀ second ∈ seen.drop size, first ≠ second →
    ∀ run ∈ keptRuns size seen, first.length ≤ run.length ∨ second.length ≤ run.length
  unseen : ∀ left ∈ all, left ∉ seen →
    (∀ run ∈ keptRuns size seen, left.length ≤ run.length) ∧
      ∃ run ∈ seen, run ∉ keptRuns size seen ∧ left.length ≤ run.length

/-- The first shortest of some runs is found. -/
theorem findIdx_shortest {front back : List BitRun} {shortest : BitRun}
    (longer : ∀ run ∈ front, shortest.length < run.length)
    (least : ∀ run ∈ back, shortest.length ≤ run.length) :
    (front ++ shortest :: back).findIdx (fun run =>
      (front ++ shortest :: back).all fun other => run.length ≤ other.length) = front.length := by
  have isLeast : (front ++ shortest :: back).all
      (fun other => shortest.length ≤ other.length) = true := by
    rw [List.all_eq_true]
    intro other member
    rw [decide_eq_true_iff]
    rcases List.mem_append.mp member with inFront | inBack
    · exact Nat.le_of_lt (longer other inFront)
    · rcases List.mem_cons.mp inBack with rfl | inBack
      · exact le_refl _
      · exact least other inBack
  have notLeast : front.findIdx (fun run =>
      (front ++ shortest :: back).all fun other => run.length ≤ other.length) = front.length := by
    rw [List.findIdx_eq_length]
    intro run member
    rw [List.all_eq_false]
    refine ⟨shortest, List.mem_append_right _ List.mem_cons_self, ?_⟩
    rw [decide_eq_true_iff, not_le]
    exact longer run member
  rw [List.findIdx_append, notLeast, if_neg (lt_irrefl _), List.findIdx_cons, isLeast]
  exact Nat.zero_add _

/-- Where there are enough runs, the rest of the first ones is kept. -/
theorem keptRuns_eq {front back rest : List BitRun} {shortest : BitRun}
    (split : seen = front ++ shortest :: back ++ rest)
    (count : (front ++ shortest :: back).length = size)
    (longer : ∀ run ∈ front, shortest.length < run.length)
    (least : ∀ run ∈ back, shortest.length ≤ run.length) :
    keptRuns size seen = front ++ back ∧ seen.drop size = rest := by
  have taken : seen.take size = front ++ shortest :: back := by
    rw [split, ← count, List.take_left']
    rfl
  refine ⟨?_, by rw [split, ← count, List.drop_left' rfl]⟩
  rw [keptRuns, taken, findIdx_shortest longer least]
  simp [List.eraseIdx_append_of_length_le]

/-- All of the runs that are seen, where there are fewer than there is room for, are right if and
only if they are as many as there are. -/
theorem longestRuns_few_iff (distinct : seen.Nodup) (real : ∀ run ∈ seen, run ∈ all)
    (short : seen.length < size) : LongestRuns all size seen ↔ Selectable all seen size := by
  have fewer : seen.length ≤ all.length := (distinct.subperm real).length_le
  have nothing : seen.drop size = [] := List.drop_eq_nil_of_le (Nat.le_of_lt short)
  have everything : seen.length = all.length → ∀ run ∈ all, run ∈ seen := fun same run member =>
    ((distinct.subperm real).perm_of_length_le (Nat.le_of_eq same.symm)).mem_iff.mpr member
  constructor
  · intro longest
    have same : seen.length = all.length := by
      have count := longest.count
      omega
    refine ⟨real, .inr same, ?_, fun left member unseen => ?_⟩
    · rw [nothing]
      exact fun first member => absurd member List.not_mem_nil
    · exact absurd (everything same left member) unseen
  · intro selectable
    have same : seen.length = all.length :=
      selectable.enough.resolve_left (Nat.not_le.mpr short)
    refine ⟨by omega, distinct, real, fun left member unseen => ?_⟩
    exact absurd (everything same left member) unseen

/-- The runs that are seen, as those that are kept, the shortest of the first ones and the rest,
and the best of the last two. -/
structure Divided (seen kept rest : List BitRun) (shortest best : BitRun) : Prop where
  members : ∀ run, run ∈ seen ↔ run ∈ kept ∨ run = shortest ∨ run ∈ rest
  behind : ∀ run ∈ rest, run ∉ kept
  least : ∀ run ∈ kept, shortest.length ≤ run.length
  choice : best = shortest ∨ best ∈ rest
  fresh : best ∉ kept
  longer : shortest.length ≤ best.length
  most : ∀ run ∈ rest, run.length ≤ best.length

theorem mem_replaced {front back : List BitRun} {best run : BitRun} :
    run ∈ front ++ best :: back ↔ run ∈ front ++ back ∨ run = best := by
  simp only [List.mem_append, List.mem_cons]
  tauto

theorem divided_of_split {front back rest : List BitRun} {shortest best : BitRun}
    (distinct : seen.Nodup) (split : seen = front ++ shortest :: back ++ rest)
    (longer : ∀ run ∈ front, shortest.length < run.length)
    (least : ∀ run ∈ back, shortest.length ≤ run.length)
    (choice : best = shortest ∨ best ∈ rest) (less : shortest.length ≤ best.length)
    (most : ∀ run ∈ rest, run.length ≤ best.length) :
    (front ++ back).Nodup ∧ Divided seen (front ++ back) rest shortest best := by
  have members : ∀ run, run ∈ seen ↔ run ∈ front ++ back ∨ run = shortest ∨ run ∈ rest := by
    intro run
    rw [split, List.mem_append, mem_replaced, or_assoc]
  rw [split, List.nodup_append, List.nodup_middle, List.nodup_cons] at distinct
  obtain ⟨⟨shortestNew, nodup⟩, _, apart⟩ := distinct
  have behind : ∀ run ∈ rest, run ∉ front ++ back := fun run member again =>
    apart run (mem_replaced.mpr (.inl again)) run member rfl
  refine ⟨nodup, members, behind, fun run member => ?_, choice, ?_, less, most⟩
  · rcases List.mem_append.mp member with inFront | inBack
    · exact Nat.le_of_lt (longer run inFront)
    · exact least run inBack
  · rcases choice with rfl | follows
    · exact shortestNew
    · exact behind best follows

namespace Divided

variable {kept rest : List BitRun} {shortest best : BitRun}

theorem best_mem (divided : Divided seen kept rest shortest best) : best ∈ seen :=
  (divided.members best).mpr (.inr divided.choice)

/-- Nothing but what is kept is longer than the best. -/
theorem length_le_best (divided : Divided seen kept rest shortest best) {other : BitRun}
    (inSeen : other ∈ seen) (notKept : other ∉ kept) : other.length ≤ best.length := by
  rcases (divided.members other).mp inSeen with inKept | rfl | follows
  · exact absurd inKept notKept
  · exact divided.longer
  · exact divided.most other follows

/-- What is left out, seen or not, is no longer than what is selected: the pairs of the rest, and
the runs that are not seen. -/
theorem leftOut_iff (divided : Divided seen kept rest shortest best)
    (real : ∀ run ∈ seen, run ∈ all) :
    (∀ left ∈ all, ¬ (left ∈ kept ∨ left = best) → ∀ run, run ∈ kept ∨ run = best →
        left.length ≤ run.length) ↔
      (∀ first ∈ rest, ∀ second ∈ rest, first ≠ second → ∀ run ∈ kept,
        first.length ≤ run.length ∨ second.length ≤ run.length) ∧
      ∀ left ∈ all, left ∉ seen → (∀ run ∈ kept, left.length ≤ run.length) ∧
        ∃ run ∈ seen, run ∉ kept ∧ left.length ≤ run.length := by
  constructor
  · intro leftOut
    refine ⟨fun first member second member' differ run inKept => ?_, fun left member unseen => ?_⟩
    · have out : ∀ other ∈ rest, other ≠ best → other.length ≤ run.length := by
        intro other follows notBest
        have inSeen := (divided.members other).mpr (.inr (.inr follows))
        refine leftOut other (real other inSeen) (fun again => ?_) run (.inl inKept)
        exact again.elim (divided.behind other follows) notBest
      by_cases isBest : first = best
      · exact .inr (out second member' fun same => differ (isBest.trans same.symm))
      · exact .inl (out first member isBest)
    · have out : ¬ (left ∈ kept ∨ left = best) := by
        rintro (inKept | rfl)
        · exact unseen ((divided.members left).mpr (.inl inKept))
        · exact unseen divided.best_mem
      exact ⟨fun run inKept => leftOut left member out run (.inl inKept),
        best, divided.best_mem, divided.fresh, leftOut left member out best (.inr rfl)⟩
  · rintro ⟨pairs, unseen⟩ left member out run selected
    rw [not_or] at out
    by_cases inSeen : left ∈ seen
    · rcases selected with inKept | rfl
      · rcases (divided.members left).mp inSeen with inKept' | rfl | follows
        · exact absurd inKept' out.1
        · exact divided.least run inKept
        · rcases divided.choice with rfl | bestFollows
          · exact (divided.most left follows).trans (divided.least run inKept)
          · rcases pairs left follows best bestFollows out.2 run inKept with short | short
            · exact short
            · exact (divided.most left follows).trans short
      · exact divided.length_le_best inSeen out.1
    · obtain ⟨short, other, inSeen', notKept, less⟩ := unseen left member inSeen
      rcases selected with inKept | rfl
      · exact short run inKept
      · exact less.trans (divided.length_le_best inSeen' notKept)

end Divided

/-- A selection from runs that are all there is right if and only if there are enough of them and
nothing longer is left out. -/
theorem Selected.longestRuns_iff (selected : Selected size seen entries) (distinct : seen.Nodup)
    (real : ∀ run ∈ seen, run ∈ all) :
    LongestRuns all size entries ↔ Selectable all seen size := by
  have fewer : seen.length ≤ all.length := (distinct.subperm real).length_le
  cases selected with
  | few short => exact longestRuns_few_iff distinct real short
  | @full front back rest shortest best split count longer least choice less most =>
    obtain ⟨kept, dropped⟩ := keptRuns_eq split count longer least
    obtain ⟨nodup, divided⟩ := divided_of_split distinct split longer least choice less most
    have enough : size ≤ seen.length := by
      rw [split, List.length_append, count]
      exact Nat.le_add_right _ _
    have leftOut := divided.leftOut_iff real
    constructor
    · intro longest
      obtain ⟨pairs, unseen⟩ := leftOut.mp fun left member out run inside =>
        longest.leftOut left member (fun again => out (mem_replaced.mp again)) run
          (mem_replaced.mpr inside)
      rw [← kept] at pairs unseen
      rw [← dropped] at pairs
      exact ⟨real, .inl enough, pairs, unseen⟩
    · intro selectable
      have pairs := selectable.pairs
      have unseen := selectable.unseen
      rw [kept] at pairs unseen
      rw [dropped] at pairs
      refine ⟨?_, ?_, fun run member => ?_, fun left member out run member' => ?_⟩
      · simp only [List.length_append, List.length_cons] at count ⊢
        omega
      · exact List.nodup_middle.mpr (List.nodup_cons.mpr ⟨divided.fresh, nodup⟩)
      · rcases mem_replaced.mp member with inKept | rfl
        · exact real run ((divided.members run).mpr (.inl inKept))
        · exact real run divided.best_mem
      · exact leftOut.mpr ⟨pairs, unseen⟩ left member (fun again => out (mem_replaced.mpr again))
          run (mem_replaced.mp member')

end Selections

/-! ### What the functions report -/

section Reports

variable {bitMapHeader : RtlBitmap}

/-- An array is what stands before an entry, the entry, and what stands behind it. -/
theorem reported_split (runArray : Nat → RtlBitmapRun) {index count : Nat}
    (inside : index < count) :
    reported runArray count = reported runArray index ++ (runArray index).bitRun ::
      (List.range' (index + 1) (count - (index + 1))).map
        fun behind => (runArray behind).bitRun := by
  have split : List.range count =
      List.range index ++ index :: List.range' (index + 1) (count - (index + 1)) := by
    have whole := @List.range'_append_1 0 index (count - (index + 1) + 1)
    rw [Nat.zero_add, show index + (count - (index + 1) + 1) = count by omega] at whole
    rw [List.range_eq_range', List.range_eq_range', ← List.range'_succ, whole]
  rw [reported, split, List.map_append, List.map_cons, reported]

/-- When no run is left, the array holds a selection. -/
theorem Replaced.selected {before last : RunSearch} (found : FoundRuns bitMapHeader before)
    (shortest : FirstShortest before.runArray before.run.toNat before.smallestRun.toNat)
    (replaced : Replaced bitMapHeader before last)
    (most : ∀ run ∈ seenFrom bitMapHeader before.fromIndex.toNat,
      run.length ≤ (last.runArray before.smallestRun.toNat).bitRun.length) :
    Selected before.run.toNat (seenFrom bitMapHeader 0)
      (reported last.runArray before.run.toNat) := by
  obtain ⟨inside, least, earlier⟩ := shortest
  have sameFront : reported last.runArray before.smallestRun.toNat =
      reported before.runArray before.smallestRun.toNat := by
    refine List.map_congr_left fun index member => ?_
    rw [replaced.others index (Nat.ne_of_lt (List.mem_range.mp member))]
  have sameBack : ∀ index ∈ List.range' (before.smallestRun.toNat + 1)
      (before.run.toNat - (before.smallestRun.toNat + 1)),
      (last.runArray index).bitRun = (before.runArray index).bitRun := by
    intro index member
    rw [replaced.others index (Nat.ne_of_gt (List.mem_range'_1.mp member).1)]
  rw [reported_split last.runArray inside, sameFront, List.map_congr_left sameBack]
  have all := found.runs
  rw [reported_split before.runArray inside] at all
  refine .full all ?_ (fun run member => ?_) (fun run member => ?_)
    (replaced.best.imp_left (congrArg RtlBitmapRun.bitRun)) replaced.longer most
  · rw [← reported_split before.runArray inside, reported, List.length_map, List.length_range]
  · obtain ⟨index, below, rfl⟩ := List.mem_map.mp member
    exact earlier index (List.mem_range.mp below)
  · obtain ⟨index, behind, rfl⟩ := List.mem_map.mp member
    have range := List.mem_range'_1.mp behind
    exact least index (by omega)

/-- `RtlFindClearRuns` selects from the runs that the scans see. -/
theorem rtlFindClearRuns_holds (bitMapHeader : RtlBitmap) (runArray : Nat → RtlBitmapRun)
    {sizeOfRunArray : UInt32} (positive : 1 ≤ sizeOfRunArray.toNat) {turns : Nat}
    (enough : bitMapHeader.sizeOfBitMap.toNat < turns) :
    Holds (fun found => Selected sizeOfRunArray.toNat (seenFrom bitMapHeader 0)
        (reported found.2 found.1.toNat)) (fun _ => False)
      (rtlFindClearRuns turns bitMapHeader runArray sizeOfRunArray true) := by
  have start : FoundRuns bitMapHeader { run := 0, fromIndex := 0, smallestRun := 0, runArray } :=
    ⟨⟨Nat.zero_le _, .inr (.inl (Nat.zero_lt_succ _))⟩, .inl rfl, rfl, .inl ⟨rfl, rfl⟩⟩
  have bound := sizeOfRunArray.toNat_lt
  obtain ⟨found, ends⟩ := findRuns_holds sizeOfRunArray.toNat _ start
    (show 0 + sizeOfRunArray.toNat < 2 ^ 32 by omega)
  rw [show ({ run := 0, fromIndex := 0, smallestRun := 0, runArray } : RunSearch).run.toNat = 0
    from rfl, Nat.zero_add] at ends
  unfold rtlFindClearRuns
  dsimp only
  generalize findRuns bitMapHeader sizeOfRunArray.toNat _ = before at *
  rcases ends with full | ⟨fewer, none⟩
  · rw [if_neg (by rw [UInt32.lt_iff_toNat_lt, full]; simp), holds_bind]
    have shortest : FirstShortest before.runArray before.run.toNat
        before.smallestRun.toNat := by
      refine found.smallest.resolve_left fun empty => ?_
      rw [empty.1] at full
      rw [← full] at positive
      exact absurd positive (by decide)
    obtain rfl : before.run = sizeOfRunArray := UInt32.toNat_inj.mp full
    refine repeatLoop_holds (fun variant search => Replaced bitMapHeader before search ∧
        bitMapHeader.sizeOfBitMap.toNat - search.fromIndex.toNat = variant)
      ?_ turns _ _ ⟨⟨rfl, rfl, fun _ _ => rfl, ⟨le_refl _, found.place.1, .inl found.place,
        fun run member behind => ?_⟩, .inl rfl, le_refl _⟩, rfl⟩ (by omega)
    · rintro variant search ⟨replaced, rfl⟩
      refine (replaced.turn found.outside).mono (fun next kept => ?_) (fun _ stopped => stopped)
      cases next with
      | again next => exact kept
      | leave last =>
        change Selected _ _ (reported last.runArray last.run.toNat)
        rw [kept.1.run]
        exact kept.1.selected found shortest kept.2
    · exact absurd (mem_seenFrom.mp member).1 (not_le.mpr behind)
  · rw [if_pos (.inl (UInt32.lt_iff_toNat_lt.mpr fewer))]
    have all := found.runs
    rw [none, List.append_nil] at all
    change Selected _ _ (reported before.runArray before.run.toNat)
    rw [← all]
    refine .few ?_
    rw [all, reported, List.length_map, List.length_range]
    exact fewer

/-! ### All runs -/

/-- The maximal runs of clear bits of a bitmap. -/
def RtlBitmap.clearRuns (bitMapHeader : RtlBitmap) : List BitRun :=
  runs bitMapHeader.bit false bitMapHeader.sizeOfBitMap.toNat

/-- Save in a large bitmap, the scans see all runs. -/
theorem seenFrom_eq (few : bitMapHeader.sizeOfBitMap.toNat ≤ 2 ^ 32 - 32) :
    seenFrom bitMapHeader 0 = bitMapHeader.clearRuns := by
  rw [seenFrom, seen_eq few]
  rfl

/-- There it all depends on the runs behind the first ones. -/
theorem selectable_iff_of_few (few : bitMapHeader.sizeOfBitMap.toNat ≤ 2 ^ 32 - 32) {size : Nat} :
    Selectable bitMapHeader.clearRuns (seenFrom bitMapHeader 0) size ↔
      ∀ first ∈ bitMapHeader.clearRuns.drop size, ∀ second ∈ bitMapHeader.clearRuns.drop size,
        first ≠ second → ∀ run ∈ keptRuns size bitMapHeader.clearRuns,
          first.length ≤ run.length ∨ second.length ≤ run.length := by
  rw [seenFrom_eq few]
  exact ⟨Selectable.pairs, fun pairs => ⟨fun _ member => member, .inr rfl, pairs,
    fun _ member unseen => absurd member unseen⟩⟩

/-- Where bit 31 of a large bitmap is set, the scans see the runs before it. -/
theorem seen_of_set (many : 2 ^ 32 - 32 < bitMapHeader.sizeOfBitMap.toNat)
    (set : bitMapHeader.bit 31 = true) :
    (∀ run ∈ seenFrom bitMapHeader 0, run.start + run.length ≤ 31 ∧
        run ∈ bitMapHeader.clearRuns) ∧
      ∀ run ∈ bitMapHeader.clearRuns, run.start < 31 → run ∈ seenFrom bitMapHeader 0 := by
  have above : ∀ index, 31 ≤ index → bitMapHeader.seen index = true := fun index high => by
    rw [seen_high many high, set]
  have below : ∀ {index}, index ≤ 31 → bitMapHeader.seen index = bitMapHeader.bit index :=
    fun low => seen_low (by omega)
  have short : ∀ {bits : Nat → Bool} {start length : Nat}, bits 31 = true → start < 31 →
      Filled bits false start length → start + length ≤ 31 := by
    intro bits start length set' before filled
    by_contra longer
    rw [filled 31 (by omega) (by omega)] at set'
    exact Bool.false_ne_true set'
  have same : ∀ {start length : Nat}, start + length ≤ 31 →
      (⟨start, length⟩ ∈ seenFrom bitMapHeader 0 ↔
        ⟨start, length⟩ ∈ bitMapHeader.clearRuns) := by
    intro start length within
    rw [mem_seenFrom, mem_runs_iff, RtlBitmap.clearRuns, mem_runs_iff, below within,
      below (show start - 1 ≤ 31 by omega)]
    have filled : Filled bitMapHeader.seen false start length ↔
        Filled bitMapHeader.bit false start length :=
      forall_congr' fun index => forall_congr' fun _ => forall_congr' fun upper => by
        rw [below (by omega)]
    rw [filled]
    simp
  refine ⟨?_, ?_⟩
  · rintro ⟨start, length⟩ member
    obtain ⟨positive, _, filled, _⟩ := mem_runs_iff.mp (mem_seenFrom.mp member).2
    have before : start < 31 := by
      by_contra behind
      have clear := filled start (le_refl _) (by omega)
      rw [above start (by omega)] at clear
      exact Bool.false_ne_true clear.symm
    have within := short (above 31 (le_refl _)) before filled
    exact ⟨within, (same within).mp member⟩
  · rintro ⟨start, length⟩ member before
    obtain ⟨_, _, filled, _⟩ := mem_runs_iff.mp member
    exact (same (short set before filled)).mpr member

/-- What the scans see are runs, and those that they do not see follow; or they see a run that is
not there and longer than the others. -/
theorem seenFrom_cases (bitMapHeader : RtlBitmap) :
    ((∀ run ∈ seenFrom bitMapHeader 0, run ∈ bitMapHeader.clearRuns) ∧
        ∀ run ∈ bitMapHeader.clearRuns, run ∉ seenFrom bitMapHeader 0 →
          ∀ other ∈ seenFrom bitMapHeader 0, other.start ≤ run.start) ∨
      ∃ run ∈ seenFrom bitMapHeader 0, run ∉ bitMapHeader.clearRuns ∧
        ∀ other ∈ seenFrom bitMapHeader 0, other ≠ run → other.length < run.length := by
  have same : seenFrom bitMapHeader 0 = bitMapHeader.clearRuns →
      ((∀ run ∈ seenFrom bitMapHeader 0, run ∈ bitMapHeader.clearRuns) ∧
        ∀ run ∈ bitMapHeader.clearRuns, run ∉ seenFrom bitMapHeader 0 →
          ∀ other ∈ seenFrom bitMapHeader 0, other.start ≤ run.start) := fun eq =>
    ⟨fun run member => eq ▸ member, fun run member unseen => absurd (eq.symm ▸ member) unseen⟩
  by_cases few : bitMapHeader.sizeOfBitMap.toNat ≤ 2 ^ 32 - 32
  · exact .inl (same (seenFrom_eq few))
  rw [not_le] at few
  have bound := bitMapHeader.sizeOfBitMap.toNat_lt
  by_cases set : bitMapHeader.bit 31 = true
  · obtain ⟨seen, unseen⟩ := seen_of_set few set
    refine .inl ⟨fun run member => (seen run member).2, fun run member notSeen other member' => ?_⟩
    have before := (seen other member').1
    by_contra later
    exact notSeen (unseen run member (by omega))
  rw [Bool.not_eq_true] at set
  have above : ∀ index, 31 ≤ index → bitMapHeader.seen index = false := fun index high => by
    rw [seen_high few high, set]
  by_cases clear : ∀ index < bitMapHeader.sizeOfBitMap.toNat, 31 ≤ index →
      bitMapHeader.bit index = false
  · refine .inl (same (runs_congr fun index inside => ?_))
    by_cases low : index < 31
    · exact seen_low (by omega)
    · rw [above index (by omega), clear index inside (by omega)]
  · rw [not_forall] at clear
    obtain ⟨index, clear⟩ := clear
    rw [Classical.not_imp, Classical.not_imp] at clear
    obtain ⟨inside, high, notClear⟩ := clear
    obtain ⟨⟨start, length⟩, member, lower, upper⟩ :=
      exists_mem_runs (show 31 < bitMapHeader.sizeOfBitMap.toNat by omega) (above 31 (le_refl _))
    dsimp only at lower upper
    have toEnd : ∀ {start length : Nat},
        ⟨start, length⟩ ∈ runs bitMapHeader.seen false bitMapHeader.sizeOfBitMap.toNat →
          31 < start + length → start + length = bitMapHeader.sizeOfBitMap.toNat := by
      intro start length member behind
      obtain ⟨_, _, _, _, stop⟩ := mem_runs_iff.mp member
      exact stop.resolve_right (not_not_intro (above _ (by omega)))
    have ends := toEnd member upper
    refine .inr ⟨⟨start, length⟩, mem_seenFrom.mpr ⟨Nat.zero_le _, member⟩, fun real => ?_, ?_⟩
    · obtain ⟨_, _, filled, _⟩ := mem_runs_iff.mp real
      exact notClear (filled index (by omega) (by omega))
    · rintro ⟨start', length'⟩ member' differs
      rw [mem_seenFrom] at member'
      dsimp only
      by_contra longer
      have ends' := toEnd member'.2 (by omega)
      -- Both have the last bit.
      have last : bitMapHeader.sizeOfBitMap.toNat - 1 < bitMapHeader.sizeOfBitMap.toNat := by omega
      refine differs (eq_of_mem_runs member'.2 member
        (show start' ≤ bitMapHeader.sizeOfBitMap.toNat - 1 by omega) ?_
        (show start ≤ bitMapHeader.sizeOfBitMap.toNat - 1 by omega) ?_)
      · rw [ends']
        exact last
      · rw [ends]
        exact last

/-! ### What is right -/

variable {size length : Nat} {start : Option Nat}

/-- Where the selection is right, so is the longest run. -/
theorem Selectable.longestOf (positive : 1 ≤ size)
    (selectable : Selectable bitMapHeader.clearRuns (seenFrom bitMapHeader 0) size)
    (longest : LongestOf (seenFrom bitMapHeader 0) length start) :
    LongestOf bitMapHeader.clearRuns length start := by
  rcases longest with ⟨nothing, zero, none⟩ | ⟨first, some', member, most⟩
  · refine .inl ⟨?_, zero, none⟩
    have enough := selectable.enough
    rw [nothing, List.length_nil] at enough
    exact List.length_eq_zero_iff.mp (enough.resolve_left (by omega)).symm
  · refine .inr ⟨first, some', selectable.real _ member, fun run inRuns => ?_⟩
    by_cases seen : run ∈ seenFrom bitMapHeader 0
    · exact most run seen
    · obtain ⟨_, other, otherSeen, _, less⟩ := selectable.unseen run inRuns seen
      refine ⟨less.trans (most other otherSeen).1, fun before => ?_⟩
      rcases seenFrom_cases bitMapHeader with ⟨_, behind⟩ | ⟨ghost, ghostSeen, absent, _⟩
      · exact absurd before (not_lt.mpr (behind run inRuns seen _ member))
      · exact absurd (selectable.real ghost ghostSeen) absent

/-- Where the longest run is right, the scans see no run that is not there. -/
theorem real_of_longestOf (longest : LongestOf (seenFrom bitMapHeader 0) length start)
    (longest' : LongestOf bitMapHeader.clearRuns length start) :
    ∀ run ∈ seenFrom bitMapHeader 0, run ∈ bitMapHeader.clearRuns := by
  rcases seenFrom_cases bitMapHeader with ⟨real, _⟩ | ⟨ghost, ghostSeen, absent, longer⟩
  · exact real
  · exfalso
    rcases longest with ⟨nothing, _⟩ | ⟨first, rfl, member, most⟩
    · rw [nothing] at ghostSeen
      exact List.not_mem_nil ghostSeen
    · have isGhost : (⟨first, length⟩ : BitRun) = ghost := by
        by_contra other
        exact absurd (most ghost ghostSeen).1 (not_le.mpr (longer _ member other))
      rcases longest' with ⟨_, _, none⟩ | ⟨first', same, member', _⟩
      · exact Option.some_ne_none _ none
      · rw [← Option.some.inj same, isGhost] at member'
        exact absent member'

/-- `RtlFindClearRuns` reports the longest runs and `RtlFindLongestRunClear` finds the longest, if
and only if the runs that the scans see can be selected from that way. -/
theorem rtlFindClearRuns_longest_iff (bitMapHeader : RtlBitmap) (runArray : Nat → RtlBitmapRun)
    (sizeOfRunArray : UInt32) (positive : 1 ≤ sizeOfRunArray.toNat) (turns : Nat)
    (enough : bitMapHeader.sizeOfBitMap.toNat < turns) :
    ∃ count found length start,
      rtlFindClearRuns turns bitMapHeader runArray sizeOfRunArray true = .ok (count, found) ∧
      rtlFindLongestRunClear turns bitMapHeader = .ok (length, start) ∧
      ((LongestRuns bitMapHeader.clearRuns sizeOfRunArray.toNat (reported found count.toNat) ∧
          LongestOf bitMapHeader.clearRuns length.toNat (start.map UInt32.toNat)) ↔
        Selectable bitMapHeader.clearRuns (seenFrom bitMapHeader 0) sizeOfRunArray.toNat) := by
  obtain ⟨⟨count, found⟩, ran, selected⟩ :=
    (rtlFindClearRuns_holds bitMapHeader runArray positive enough).exists_ok
  obtain ⟨⟨length, start⟩, ran', longest⟩ :=
    (rtlFindLongestRunClear_holds bitMapHeader enough).exists_ok
  have distinct := runsFrom_nodup bitMapHeader.seen false bitMapHeader.sizeOfBitMap.toNat 0
  refine ⟨count, found, length, start, ran, ran', ?_, fun selectable => ⟨?_, ?_⟩⟩
  · rintro ⟨longestRuns, longest'⟩
    exact (selected.longestRuns_iff distinct (real_of_longestOf longest longest')).mp longestRuns
  · exact (selected.longestRuns_iff distinct selectable.real).mpr selectable
  · exact selectable.longestOf positive longest

/-- Four runs of clear bits, each longer than the one before. -/
def fourRuns : RtlBitmap where
  sizeOfBitMap := 13
  buffer := fun _ => 0x112

theorem rtlFindClearRuns_longest_example :
    ∃ count found length start,
      rtlFindClearRuns 14 fourRuns (fun _ => ⟨0, 0⟩) 2 true = .ok (count, found) ∧
      rtlFindLongestRunClear 14 fourRuns = .ok (length, start) ∧
      ((LongestRuns fourRuns.clearRuns 2 (reported found count.toNat) ∧
          LongestOf fourRuns.clearRuns length.toNat (start.map UInt32.toNat)) ↔
        Selectable fourRuns.clearRuns (seenFrom fourRuns 0) 2) :=
  rtlFindClearRuns_longest_iff fourRuns (fun _ => ⟨0, 0⟩) 2 (by decide) 14 (by decide)

/-- The run of three bits is left out, and one of two bits is reported. -/
theorem not_rtlFindClearRuns_longest :
    (⟨5, 3⟩ : BitRun) ∈ fourRuns.clearRuns ∧
      (rtlFindClearRuns 14 fourRuns (fun _ => ⟨0, 0⟩) 2 true).map
          (fun found => reported found.2 found.1.toNat) = .ok [⟨9, 4⟩, ⟨2, 2⟩] ∧
      ¬ LongestRuns fourRuns.clearRuns 2 [⟨9, 4⟩, ⟨2, 2⟩] := by
  have member : (⟨5, 3⟩ : BitRun) ∈ fourRuns.clearRuns := by decide +kernel
  refine ⟨member, by decide +kernel, fun longest => ?_⟩
  exact absurd (longest.leftOut _ member (by decide) ⟨2, 2⟩ (by decide)) (by decide)

end Reports

end Nloader.Bitmap
