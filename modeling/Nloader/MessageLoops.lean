/-
This file is about the loops of `RtlFindMessage`. The loop over the directories sets its index back
and takes another directory and another bound within a turn, so that the entries left say nothing
about how long it goes on; the level goes up whenever it does so, and there are three of them. The
loops over the blocks and over the entries of a block count. A resource section with whatever it has
in it, a directory that is its own entry too, is searched to the end, and what the loops come to is
what the search through the tree comes to.
-/

import Nloader.Messages
import Nloader.Library.Outcome

namespace Nloader.Messages

open Nloader.Events X64 Outcome

/-! ### The loops -/

/-- A loop goes round more often than it is let. -/
inductive Stop where
  | outOfTurns
  deriving DecidableEq

/-- The variables of the loop over the directories. -/
structure Walk where
  rd : Word
  i : UInt32
  len : UInt32
  level : UInt32
  deriving DecidableEq

/-- `while ((i < len) && (level < 4))`, behind the last statement and behind `continue`. -/
def Walk.condition (walk : Walk) : Turn Walk (Option Word) :=
  if walk.i < walk.len ∧ walk.level < 4 then .again walk else .leave none

/-- A turn of the loop over the directories; it leaves with `rde`. -/
def walkTurn (memory : Memory) (root : Word) (type lang : UInt32) (walk : Walk) :
    Except Stop (Turn Walk (Option Word)) :=
  let cur := directoryEntry walk.rd walk.i.toNat
  let walk := { walk with i := walk.i + 1 }
  if !nameIsString memory cur && dataIsDirectory memory cur then
    if walk.level = 1 ∧ id memory cur = type.toNat ∨ walk.level = 2 ∧ id memory cur = 1 then
      let rd := plus root (offsetToDirectory memory cur)
      pure (Walk.condition
        { rd, i := 0, len := .ofNat (numberOfEntries memory rd), level := walk.level + 1 })
    else pure walk.condition
  else if walk.level = 3 ∧ (lang = 0 ∨ id memory cur = lang.toNat) then
    pure (.leave (some (plus root (offsetToData memory cur))))
  else pure walk.condition

/-- The variables before the loop over the directories. -/
def firstWalk (memory : Memory) (root : Word) : Walk :=
  { rd := root, i := 0, len := .ofNat (numberOfEntries memory root), level := 1 }

/-- The entries that the loop over the directories examines. -/
def examined (memory : Memory) (root : Word) (type lang : UInt32) (turns : Nat) : List Walk :=
  repeatHeads (walkTurn memory root type lang) turns (firstWalk memory root)

/-- The loop over the directories. -/
def walkLoop (turns : Nat) (memory : Memory) (root : Word) (type lang : UInt32) :
    Except Stop (Option Word) :=
  repeatLoop .outOfTurns (walkTurn memory root type lang) turns (firstWalk memory root)

/-- A turn of the loop over the blocks of a table, with its index and its block. -/
def blockTurn (memory : Memory) (msgId : UInt32) (data : Word) (scan : UInt32 × Word) :
    Except Stop (Turn (UInt32 × Word) (Option Word)) :=
  let (i, block) := scan
  if i.toNat < dword memory data then
    if dword memory block ≤ msgId.toNat ∧ msgId.toNat ≤ dword memory (plus block 4) then
      pure (.leave (some block))
    else pure (.again (i + 1, plus block 12))
  else pure (.leave none)

/-- The loop over the blocks of a table. -/
def blockLoop (turns : Nat) (memory : Memory) (msgId : UInt32) (data : Word) :
    Except Stop (Option Word) :=
  repeatLoop .outOfTurns (blockTurn memory msgId data) turns (0, plus data 4)

/-- A turn of the loop over the entries of a block, with its index and its entry. -/
def entryTurn (memory : Memory) (scan : UInt32 × Word) : Except Stop (Turn (UInt32 × Word) Word) :=
  let (i, entry) := scan
  if 0 < i then pure (.again (i - 1, plus entry (word memory entry))) else pure (.leave entry)

/-- The loop over the entries of a block. -/
def entryLoop (turns : Nat) (memory : Memory) (msgId : UInt32) (data block : Word) :
    Except Stop Word :=
  repeatLoop .outOfTurns (entryTurn memory) turns
    (msgId - .ofNat (dword memory block), plus data (dword memory (plus block 8)))

/-- `RtlFindMessage` with its loops. -/
def findMessage (turns : Nat) (memory : Memory) (hmod : Word) (type lang msgId : UInt32) :
    Except Stop Found := do
  if dword memory (plus (resourceDirectory memory hmod) 4) = 0 then return notFound
  let some rde ← walkLoop turns memory (resourceRoot memory hmod) type lang | return notFound
  let data := plus hmod (dword memory rde)
  let some block ← blockLoop turns memory msgId data | return notFound
  let entry ← entryLoop turns memory msgId data block
  return ⟨statusSuccess, some entry⟩

/-! ### The loop over the directories -/

/-- What holds whenever the loop over the directories comes round. -/
structure Walk.Holds (walk : Walk) : Prop where
  level : 1 ≤ walk.level.toNat ∧ walk.level.toNat ≤ 3
  len : walk.len.toNat ≤ 131070
  i : walk.i.toNat < max 1 walk.len.toNat

/-- The next entry of the directory, or the first one of a directory one level down. -/
def Walk.Follows (walk next : Walk) : Prop :=
  next.level = walk.level ∧ next.rd = walk.rd ∧ next.len = walk.len ∧
      next.i.toNat = walk.i.toNat + 1 ∨
    next.level.toNat = walk.level.toNat + 1 ∧ next.i = 0

/-- An entry of an earlier level, or an earlier entry of the same directory. -/
def Walk.Before (first second : Walk) : Prop :=
  first.level < second.level ∨
    first.level = second.level ∧ first.rd = second.rd ∧ first.i < second.i

/-- As many entries as there may be behind this one, those of the levels below too. -/
def Walk.left (walk : Walk) : Nat :=
  (3 - walk.level.toNat) * 131070 + (max 1 walk.len.toNat - 1 - walk.i.toNat)

/-- As many entries as there may be on a level from this one on. -/
def Walk.room (level : UInt32) (walk : Walk) : Nat :=
  if level < walk.level then 0
  else if walk.level = level then max 1 walk.len.toNat - walk.i.toNat
  else 131070

theorem Walk.Follows.before {walk next : Walk} (follows : walk.Follows next) :
    walk.Before next := by
  rcases follows with ⟨level, rd, _, i⟩ | ⟨level, _⟩
  · refine .inr ⟨level.symm, rd.symm, ?_⟩
    rw [UInt32.lt_iff_toNat_lt]
    omega
  · left
    rw [UInt32.lt_iff_toNat_lt]
    omega

theorem Walk.Before.trans {first second third : Walk} (before : first.Before second)
    (before' : second.Before third) : first.Before third := by
  rcases before with level | ⟨level, rd, i⟩
  · rcases before' with level' | ⟨level', _⟩
    · exact .inl (UInt32.lt_trans level level')
    · exact .inl (level' ▸ level)
  · rcases before' with level' | ⟨level', rd', i'⟩
    · exact .inl (level ▸ level')
    · exact .inr ⟨level.trans level', rd.trans rd', UInt32.lt_trans i i'⟩

theorem Walk.Follows.left_lt {walk next : Walk} (holds : walk.Holds) (next_holds : next.Holds)
    (follows : walk.Follows next) : next.left < walk.left := by
  obtain ⟨⟨_, low⟩, _, i⟩ := holds
  obtain ⟨⟨_, low'⟩, len', i'⟩ := next_holds
  unfold Walk.left
  rcases follows with ⟨level, _, len, here⟩ | ⟨level, first⟩
  · rw [level, len]
    rw [len] at i'
    omega
  · rw [level]
    omega

theorem Walk.Holds.room_pos {walk : Walk} (holds : walk.Holds) : 0 < walk.room walk.level := by
  unfold Walk.room
  rw [if_neg (UInt32.lt_irrefl _), if_pos rfl]
  exact Nat.sub_pos_of_lt holds.i

theorem Walk.Holds.room_le {walk : Walk} (holds : walk.Holds) (level : UInt32) :
    walk.room level ≤ 131070 := by
  obtain ⟨_, len, _⟩ := holds
  unfold Walk.room
  split_ifs <;> omega

/-- The room on a level is for the entries examined there. -/
theorem Walk.Follows.room_le {walk next : Walk} (holds : walk.Holds) (next_holds : next.Holds)
    (follows : walk.Follows next) (level : UInt32) :
    next.room level + (if walk.level = level then 1 else 0) ≤ walk.room level := by
  rcases follows with ⟨same, _, len, here⟩ | ⟨deeper, first⟩
  · -- On the same level one entry less is left.
    have i := next_holds.i
    unfold Walk.room
    rw [same, len]
    rw [len] at i
    simp only [UInt32.lt_iff_toNat_lt, ← UInt32.toNat_inj]
    split_ifs <;> omega
  · by_cases below : level.toNat ≤ walk.level.toNat
    · -- The entries of the level that is left are not come back to.
      have passed : next.room level = 0 :=
        if_pos (UInt32.lt_iff_toNat_lt.mpr (by omega))
      rw [passed]
      by_cases here : walk.level = level
      · have some_room := holds.room_pos
        rw [here] at some_room
        rw [if_pos here]
        omega
      · rw [if_neg here]
        exact Nat.zero_le _
    · have apart : walk.level ≠ level := fun here => below (here ▸ le_refl _)
      have full : walk.room level = 131070 := by
        unfold Walk.room
        rw [if_neg (by rw [UInt32.lt_iff_toNat_lt]; omega), if_neg apart]
      rw [if_neg apart, full]
      exact next_holds.room_le level

theorem numberOfEntries_le (memory : Memory) (rd : Word) : numberOfEntries memory rd ≤ 131070 := by
  have named := number_lt memory (plus rd 12) 2
  have ids := number_lt memory (plus rd 14) 2
  unfold numberOfEntries word
  omega

theorem toNat_numberOfEntries (memory : Memory) (rd : Word) :
    (UInt32.ofNat (numberOfEntries memory rd)).toNat = numberOfEntries memory rd :=
  UInt32.toNat_ofNat_of_lt' ((numberOfEntries_le memory rd).trans_lt (by decide))

theorem toNat_next {i : UInt32} (small : i.toNat + 1 < 2 ^ 32) :
    (i + 1).toNat = i.toNat + 1 := by
  rw [UInt32.toNat_add]
  exact Nat.mod_eq_of_lt small

theorem firstWalk_holds (memory : Memory) (root : Word) : (firstWalk memory root).Holds := by
  refine ⟨⟨le_refl 1, Nat.le_succ_of_le (Nat.le_succ 1)⟩, ?_, ?_⟩
  · rw [firstWalk, toNat_numberOfEntries]
    exact numberOfEntries_le memory root
  · exact (Nat.one_pos).trans_le (le_max_left _ _)

section

variable (memory : Memory) (root : Word) (type lang : UInt32)

/-- The search from the variables of the loop. -/
def Walk.search (walk : Walk) : Option Word :=
  Messages.search memory root type lang walk.rd walk.i.toNat walk.len.toNat walk.level.toNat

/-- The loop leaves with what is searched for, or goes on where the search does. -/
def Answers (walk : Walk) : Turn Walk (Option Word) → Prop
  | .again next =>
    next.search memory root type lang = walk.search memory root type lang ∧ next.Holds ∧
      walk.Follows next
  | .leave rde => rde = walk.search memory root type lang

variable {memory root type lang}

/-- The end of a turn, from which the search goes on in the same way. -/
theorem condition_answers {walk next : Walk} (follows : walk.Follows next)
    (level : 1 ≤ next.level.toNat ∧ next.level.toNat ≤ 3) (len : next.len.toNat ≤ 131070)
    (searches : walk.search memory root type lang =
      if next.i.toNat < next.len.toNat then next.search memory root type lang else none) :
    Answers memory root type lang walk next.condition := by
  unfold Walk.condition
  by_cases more : next.i < next.len
  · have more' := UInt32.lt_iff_toNat_lt.mp more
    have low : next.level < 4 := UInt32.lt_iff_toNat_lt.mpr (level.2.trans_lt (by decide))
    rw [if_pos more'] at searches
    rw [if_pos ⟨more, low⟩]
    exact ⟨searches.symm, ⟨level, len, more'.trans_le (le_max_right _ _)⟩, follows⟩
  · rw [if_neg (mt UInt32.lt_iff_toNat_lt.mpr more)] at searches
    rw [if_neg fun both => more both.1]
    exact searches.symm

/-- A turn that enters a directory. -/
theorem enters_answers {walk : Walk}
    (directory : (!nameIsString memory (directoryEntry walk.rd walk.i.toNat) &&
      dataIsDirectory memory (directoryEntry walk.rd walk.i.toNat)) = true)
    (enters : Enters memory type (directoryEntry walk.rd walk.i.toNat) walk.level.toNat) :
    let rd := plus root (offsetToDirectory memory (directoryEntry walk.rd walk.i.toNat))
    Answers memory root type lang walk (Walk.condition
      { rd, i := 0, len := .ofNat (numberOfEntries memory rd), level := walk.level + 1 }) := by
  rw [Bool.and_eq_true, Bool.not_eq_true'] at directory
  have low : 1 ≤ walk.level.toNat ∧ walk.level.toNat ≤ 2 := by
    rcases enters with ⟨level, _⟩ | ⟨level, _⟩ <;> omega
  have deeper : (walk.level + 1).toNat = walk.level.toNat + 1 := toNat_next (by omega)
  intro rd
  refine condition_answers (.inr ⟨deeper, rfl⟩) ?_ ?_ ?_
  · rw [deeper]
    omega
  · rw [toNat_numberOfEntries]
    exact numberOfEntries_le memory rd
  · rw [Walk.search, search_enters directory.1 directory.2 enters, Walk.search,
      toNat_numberOfEntries, deeper]
    rfl

/-- A turn that leaves an entry behind. -/
theorem skips_answers {walk : Walk} (holds : walk.Holds)
    (other : (!nameIsString memory (directoryEntry walk.rd walk.i.toNat) &&
      dataIsDirectory memory (directoryEntry walk.rd walk.i.toNat)) = true →
        ¬ Enters memory type (directoryEntry walk.rd walk.i.toNat) walk.level.toNat)
    (untaken : ¬ (!nameIsString memory (directoryEntry walk.rd walk.i.toNat) &&
      dataIsDirectory memory (directoryEntry walk.rd walk.i.toNat)) = true →
        walk.level.toNat = 3 →
          ¬ (lang = 0 ∨ id memory (directoryEntry walk.rd walk.i.toNat) = lang.toNat)) :
    Answers memory root type lang walk (Walk.condition { walk with i := walk.i + 1 }) := by
  obtain ⟨level, len, i⟩ := holds
  have moved : (walk.i + 1).toNat = walk.i.toNat + 1 := toNat_next (by omega)
  refine condition_answers (.inl ⟨rfl, rfl, rfl, moved⟩) level len ?_
  rw [Walk.search, search_skips (level.2.trans_lt (by decide)) other untaken, Walk.search, moved]

/-- A turn of the loop over the directories does what the search does. -/
theorem walkTurn_answers {walk : Walk} (holds : walk.Holds) :
    Holds (Answers memory root type lang walk) (fun _ => False)
      (walkTurn memory root type lang walk) := by
  have same : ∀ value : UInt32, walk.level = value ↔ walk.level.toNat = value.toNat :=
    fun _ => UInt32.toNat_inj.symm
  unfold walkTurn
  simp only [same]
  split
  · rename_i directory
    split
    · rename_i enters
      exact enters_answers directory enters
    · rename_i other
      exact skips_answers holds (fun _ => other) fun leaf => absurd directory leaf
  · rename_i leaf
    split
    · rename_i taken
      obtain ⟨level, taken⟩ := taken
      rw [holds_pure, Answers, Walk.search, level]
      exact (search_takes leaf taken).symm
    · rename_i untaken
      exact skips_answers holds (fun directory => absurd directory leaf)
        fun _ level taken => untaken ⟨level, taken⟩

/-- A turn that is followed by another one. -/
theorem walkTurn_again {walk next : Walk} (holds : walk.Holds)
    (turned : walkTurn memory root type lang walk = .ok (.again next)) :
    next.Holds ∧ walk.Follows next :=
  ((walkTurn_answers holds).of_ok turned).2

/-- The loop comes to what the search comes to, after as many turns as there may be entries on the
three levels. -/
theorem walkLoop_eq (memory : Memory) (root : Word) (type lang : UInt32) (more : Nat) :
    walkLoop (3 * 131070 + more) memory root type lang =
      .ok (Messages.search memory root type lang root 0 (numberOfEntries memory root) 1) := by
  have start := firstWalk_holds memory root
  have first : (firstWalk memory root).search memory root type lang =
      Messages.search memory root type lang root 0 (numberOfEntries memory root) 1 := by
    rw [Walk.search, firstWalk, toNat_numberOfEntries]
    rfl
  have loop := @repeatLoop_holds _ _ _ (· = (firstWalk memory root).search memory root type lang)
    (fun _ => False) .outOfTurns (walkTurn memory root type lang)
    (fun variant walk => walk.Holds ∧ walk.left = variant ∧
      walk.search memory root type lang = (firstWalk memory root).search memory root type lang)
    ?_ (3 * 131070 + more) _ _ ⟨start, rfl, rfl⟩ ?_
  · obtain ⟨rde, returned, same⟩ := loop.exists_ok
    rw [walkLoop, returned, same, first]
  · rintro variant walk ⟨holds, rfl, same⟩
    refine (walkTurn_answers holds).mono (fun next answers => ?_) fun _ stopped => stopped
    cases next with
    | again next =>
      obtain ⟨searches, kept, follows⟩ := answers
      exact ⟨next.left, follows.left_lt holds kept, kept, rfl, searches.trans same⟩
    | leave rde => exact answers.trans same
  · have len := start.len
    unfold Walk.left
    change (3 - 1) * 131070 + (max 1 _ - 1 - 0) < _
    omega

/-- The entries that are examined are on three levels, come one behind the other in the directories
of these, and are as many on each of them as a directory may have. -/
theorem examined_bounds (memory : Memory) (root : Word) (type lang : UInt32) (turns : Nat) :
    (∀ walk ∈ examined memory root type lang turns,
      1 ≤ walk.level.toNat ∧ walk.level.toNat ≤ 3) ∧
    (examined memory root type lang turns).Pairwise Walk.Before ∧
    ∀ level, (examined memory root type lang turns).countP (·.level = level) ≤ 131070 := by
  have start := firstWalk_holds memory root
  refine ⟨fun walk member => ?_, ?_, fun level => ?_⟩
  · exact (repeatHeads_keeps (fun _ _ holds turned => (walkTurn_again holds turned).1) turns start
      walk member).level
  · refine repeatHeads_pairwise (fun _ _ _ before before' => before.trans before')
      (fun walk next holds turned => ?_) turns start
    obtain ⟨kept, follows⟩ := walkTurn_again holds turned
    exact ⟨kept, follows.before⟩
  · refine (countP_repeatHeads_le (fun walk : Walk => walk.level = level) (Walk.room level)
      (fun walk holds here => ?_) (fun walk next holds turned => ?_) turns start).trans
        (start.room_le level)
    · exact of_decide_eq_true here ▸ holds.room_pos
    · obtain ⟨kept, follows⟩ := walkTurn_again holds turned
      have room := follows.room_le holds kept level
      simp only [decide_eq_true_eq]
      exact ⟨kept, room⟩

end

/-! ### The loops over the blocks and the entries -/

theorem dword_lt (memory : Memory) (address : Word) : dword memory address < 2 ^ 32 :=
  number_lt memory address 4

/-- The loop over the blocks comes to the first block that has the message. -/
theorem blockLoop_eq (memory : Memory) (msgId : UInt32) (data : Word) (more : Nat) :
    blockLoop (2 ^ 32 + more) memory msgId data =
      .ok (findBlock memory msgId (dword memory data) (plus data 4)) := by
  have blocks := dword_lt memory data
  have loop := @repeatLoop_holds _ _ _
    (· = findBlock memory msgId (dword memory data) (plus data 4)) (fun _ => False) .outOfTurns
    (blockTurn memory msgId data)
    (fun remaining scan => scan.1.toNat + remaining = dword memory data ∧
      findBlock memory msgId remaining scan.2 =
        findBlock memory msgId (dword memory data) (plus data 4))
    ?_ (2 ^ 32 + more) (dword memory data) (0, plus data 4) ⟨Nat.zero_add _, rfl⟩ (by omega)
  · obtain ⟨found, returned, same⟩ := loop.exists_ok
    rw [blockLoop, returned, same]
  · rintro remaining ⟨i, block⟩ ⟨left, same⟩
    change i.toNat + remaining = _ at left
    unfold blockTurn
    cases remaining with
    | zero =>
      simp only [if_neg (show ¬ i.toNat < dword memory data by omega)]
      exact same
    | succ remaining =>
      simp only [if_pos (show i.toNat < dword memory data by omega)]
      rw [findBlock] at same
      split
      · rename_i inside
        rw [if_pos inside] at same
        exact same
      · rename_i outside
        rw [if_neg outside] at same
        have moved : (i + 1).toNat = i.toNat + 1 := toNat_next (by omega)
        refine ⟨remaining, Nat.lt_succ_self _, ?_, same⟩
        change (i + 1).toNat + remaining = _
        omega

/-- A block that is found has the message. -/
theorem findBlock_inside {memory : Memory} {msgId : UInt32} {remaining : Nat} {first block : Word}
    (found : findBlock memory msgId remaining first = some block) :
    dword memory block ≤ msgId.toNat ∧ msgId.toNat ≤ dword memory (plus block 4) := by
  induction remaining generalizing first with
  | zero => cases found
  | succ remaining inductionHypothesis =>
    rw [findBlock] at found
    split at found
    · rename_i inside
      exact Option.some.inj found ▸ inside
    · exact inductionHypothesis found

/-- The loop over the entries goes as many entries further as it counts. -/
theorem entryLoop_eq (memory : Memory) (msgId : UInt32) (data block : Word) (more : Nat) :
    entryLoop (2 ^ 32 + more) memory msgId data block =
      .ok (entryAfter memory (msgId - .ofNat (dword memory block)).toNat
        (plus data (dword memory (plus block 8)))) := by
  unfold entryLoop
  generalize msgId - .ofNat (dword memory block) = count
  generalize plus data (dword memory (plus block 8)) = first
  have loop := @repeatLoop_holds _ _ _ (· = entryAfter memory count.toNat first) (fun _ => False)
    .outOfTurns (entryTurn memory)
    (fun remaining scan => scan.1.toNat = remaining ∧
      entryAfter memory remaining scan.2 = entryAfter memory count.toNat first)
    ?_ (2 ^ 32 + more) count.toNat (count, first) ⟨rfl, rfl⟩
    (count.toNat_lt.trans_le (Nat.le_add_right _ _))
  · obtain ⟨entry, returned, same⟩ := loop.exists_ok
    rw [returned, same]
  · rintro remaining ⟨i, entry⟩ ⟨left, same⟩
    change i.toNat = remaining at left
    unfold entryTurn
    cases remaining with
    | zero =>
      simp only [if_neg (show ¬ 0 < i by rw [UInt32.lt_iff_toNat_lt, left]; exact lt_irrefl 0)]
      exact same
    | succ remaining =>
      have more_left : 0 < i := by
        rw [UInt32.lt_iff_toNat_lt, left]
        exact Nat.succ_pos remaining
      simp only [if_pos more_left]
      refine ⟨remaining, Nat.lt_succ_self _, ?_, same⟩
      change (i - 1).toNat = remaining
      have one : (1 : UInt32) ≤ i := by
        rw [UInt32.le_iff_toNat_le, left]
        exact Nat.le_add_left _ _
      rw [UInt32.toNat_sub_of_le _ _ one, left]
      rfl

/-- The number of a message in its block. -/
theorem toNat_sub_lowId {memory : Memory} {block : Word} {msgId : UInt32}
    (above : dword memory block ≤ msgId.toNat) :
    (msgId - .ofNat (dword memory block)).toNat = msgId.toNat - dword memory block := by
  have lowId : (UInt32.ofNat (dword memory block)).toNat = dword memory block :=
    UInt32.toNat_ofNat_of_lt' (dword_lt memory block)
  rw [UInt32.toNat_sub_of_le _ _ (by rwa [UInt32.le_iff_toNat_le, lowId]), lowId]

/-! ### The function -/

/-- Whatever the image has in it, the loop over the directories ends on the third level at the
latest, with no more entries examined on a level than a directory may have; the loops over the
blocks and over the entries end, too, and the function returns. -/
theorem findMessage_returns (memory : Memory) (hmod : Word) (type lang msgId : UInt32) :
    (∀ turns,
      (∀ walk ∈ examined memory (resourceRoot memory hmod) type lang turns,
        1 ≤ walk.level.toNat ∧ walk.level.toNat ≤ 3) ∧
      (examined memory (resourceRoot memory hmod) type lang turns).Pairwise Walk.Before ∧
      ∀ level,
        (examined memory (resourceRoot memory hmod) type lang turns).countP (·.level = level) ≤
          131070) ∧
    (∀ more, walkLoop (3 * 131070 + more) memory (resourceRoot memory hmod) type lang =
      .ok (search memory (resourceRoot memory hmod) type lang (resourceRoot memory hmod) 0
        (numberOfEntries memory (resourceRoot memory hmod)) 1)) ∧
    (∀ data more, blockLoop (2 ^ 32 + more) memory msgId data =
      .ok (findBlock memory msgId (dword memory data) (plus data 4))) ∧
    (∀ data block more, entryLoop (2 ^ 32 + more) memory msgId data block =
      .ok (entryAfter memory (msgId - .ofNat (dword memory block)).toNat
        (plus data (dword memory (plus block 8))))) ∧
    ∀ more, findMessage (2 ^ 32 + more) memory hmod type lang msgId =
      .ok (rtlFindMessage memory hmod type lang msgId) := by
  refine ⟨examined_bounds memory _ type lang, walkLoop_eq memory _ type lang,
    blockLoop_eq memory msgId, entryLoop_eq memory msgId, fun more => ?_⟩
  have walks := walkLoop_eq memory (resourceRoot memory hmod) type lang
    (2 ^ 32 - 3 * 131070 + more)
  rw [show 3 * 131070 + (2 ^ 32 - 3 * 131070 + more) = 2 ^ 32 + more by omega] at walks
  unfold findMessage rtlFindMessage
  split
  · rfl
  · rw [walks, ok_bind]
    dsimp only
    cases searched : search memory (resourceRoot memory hmod) type lang (resourceRoot memory hmod) 0
        (numberOfEntries memory (resourceRoot memory hmod)) 1 with
    | none => rfl
    | some rde =>
      dsimp only
      rw [blockLoop_eq, ok_bind]
      cases found : findBlock memory msgId (dword memory (plus hmod (dword memory rde)))
          (plus (plus hmod (dword memory rde)) 4) with
      | none => rfl
      | some block =>
        dsimp only
        rw [entryLoop_eq, ok_bind, toNat_sub_lowId (findBlock_inside found).1]
        rfl

end Nloader.Messages
