/-
This file is a library of readers that take the front of a text, and of copies that put what a
reader takes into a buffer as far as there is room. A copy that runs out of room leaves the rest of
the text where it is, and the copies behind it take nothing. The stores of a copy may be checked
against the end of a buffer; with a limit before the end they do not fail.

The library names nothing of the program it is used for.
-/

import Mathlib.Data.List.Basic
import Mathlib.Data.List.TakeDrop
import Mathlib.Data.List.TakeWhile

namespace Buffered

variable {Character : Type}

/-! ### Readers -/

/-- What is taken from the front of a text, and what is behind it. -/
abbrev Reader (Character : Type) : Type := List Character → List Character × List Character

/-- A reader leaves what it does not take. -/
def Splits (read : Reader Character) : Prop := ∀ text, (read text).1 ++ (read text).2 = text

/-- Nothing is taken. -/
def nothing : Reader Character := fun text => ([], text)

/-- The characters in front that have a property. -/
def run (holds : Character → Bool) : Reader Character :=
  fun text => (text.takeWhile holds, text.dropWhile holds)

/-- One reader behind the other. -/
def andThen (first second : Reader Character) : Reader Character := fun text =>
  ((first text).1 ++ (second (first text).2).1, (second (first text).2).2)

/-- A reader behind a character, and another where the text does not begin with it. -/
def branch [DecidableEq Character] (mark : Character) (inner outer : Reader Character) :
    Reader Character
  | [] => outer []
  | c :: text => if c = mark then (c :: (inner text).1, (inner text).2) else outer (c :: text)

theorem splits_nothing : Splits (nothing : Reader Character) := fun _ => rfl

theorem splits_run (holds : Character → Bool) : Splits (run holds) :=
  fun _ => List.takeWhile_append_dropWhile

theorem Splits.andThen {first second : Reader Character} (splits_first : Splits first)
    (splits_second : Splits second) : Splits (andThen first second) := by
  intro text
  rw [Buffered.andThen, List.append_assoc, splits_second, splits_first]

theorem Splits.branch [DecidableEq Character] (mark : Character) {inner outer : Reader Character}
    (splits_inner : Splits inner) (splits_outer : Splits outer) :
    Splits (branch mark inner outer) := by
  intro text
  cases text with
  | nil => exact splits_outer []
  | cons c text =>
    rw [Buffered.branch]
    split
    · exact congrArg (c :: ·) (splits_inner text)
    · exact splits_outer (c :: text)

/-- All characters that a reader takes have a property. -/
def Takes (property : Character → Prop) (read : Reader Character) : Prop :=
  ∀ text, ∀ c ∈ (read text).1, property c

theorem takes_nothing (property : Character → Prop) : Takes property nothing :=
  fun _ _ member => absurd member List.not_mem_nil

theorem takes_run {property : Character → Prop} {holds : Character → Bool}
    (implies : ∀ c, holds c = true → property c) : Takes property (run holds) :=
  fun _ c member => implies c (List.mem_takeWhile_imp member)

theorem Takes.andThen {property : Character → Prop} {first second : Reader Character}
    (takes_first : Takes property first) (takes_second : Takes property second) :
    Takes property (andThen first second) := by
  intro text c member
  rcases List.mem_append.mp member with member | member
  · exact takes_first text c member
  · exact takes_second _ c member

theorem Takes.branch [DecidableEq Character] {property : Character → Prop} {mark : Character}
    {inner outer : Reader Character} (marked : property mark) (takes_inner : Takes property inner)
    (takes_outer : Takes property outer) : Takes property (branch mark inner outer) := by
  intro text c member
  cases text with
  | nil => exact takes_outer [] c member
  | cons d text =>
    rw [Buffered.branch] at member
    split at member
    · rename_i same
      rcases List.mem_cons.mp member with rfl | member
      · exact same ▸ marked
      · exact takes_inner text c member
    · exact takes_outer _ c member

/-! ### Copies -/

/-- What is in the buffer behind a copy, and the text from there on. -/
abbrev Copy (Character : Type) : Type :=
  List Character → List Character → List Character × List Character

/-- A copy puts what a reader takes into a buffer that is filled up to a limit. -/
def Copies (limit : Nat) (copy : Copy Character) (read : Reader Character) : Prop :=
  ∀ buffer text, buffer.length ≤ limit →
    copy buffer text =
      (buffer ++ (read text).1.take (limit - buffer.length),
        (read text).1.drop (limit - buffer.length) ++ (read text).2)

/-- Nothing is copied. -/
def copyNothing : Copy Character := fun buffer text => (buffer, text)

/-- The loop that copies characters as long as they have a property and there is room. -/
def copyRun (limit : Nat) (holds : Character → Bool) : Copy Character
  | buffer, [] => (buffer, [])
  | buffer, c :: text =>
    if holds c ∧ buffer.length < limit then copyRun limit holds (buffer ++ [c]) text
    else (buffer, c :: text)

/-- A copy behind a character that is copied, and another where the text does not begin with it or
there is no room. -/
def copyBranch [DecidableEq Character] (limit : Nat) (mark : Character)
    (inner outer : Copy Character) : Copy Character
  | buffer, [] => outer buffer []
  | buffer, c :: text =>
    if c = mark ∧ buffer.length < limit then inner (buffer ++ [c]) text
    else outer buffer (c :: text)

section

variable {limit : Nat} {copy : Copy Character} {read : Reader Character}

/-- A text for which there is room is copied as a whole. -/
theorem Copies.of_le (copies : Copies limit copy read) {buffer text : List Character}
    (room : buffer.length + (read text).1.length ≤ limit) :
    copy buffer text = (buffer ++ (read text).1, (read text).2) := by
  rw [copies buffer text (by omega), List.take_of_length_le (by omega),
    List.drop_of_length_le (by omega), List.nil_append]

/-- Nothing is copied into a full buffer. -/
theorem Copies.of_full (copies : Copies limit copy read) (splits : Splits read)
    {buffer : List Character} (full : buffer.length = limit) (text : List Character) :
    copy buffer text = (buffer, text) := by
  rw [copies buffer text full.le, full, Nat.sub_self, List.take_zero, List.drop_zero,
    List.append_nil, splits]

/-- A copy does not go back in the text. -/
theorem Copies.length_le (copies : Copies limit copy read) (splits : Splits read)
    {buffer : List Character} (room : buffer.length ≤ limit) (text : List Character) :
    (copy buffer text).2.length ≤ text.length := by
  have whole := congrArg List.length (splits text)
  rw [List.length_append] at whole
  rw [copies buffer text room, List.length_append, List.length_drop]
  omega

theorem copies_nothing (limit : Nat) : Copies limit (copyNothing : Copy Character) nothing := by
  intro buffer text _
  rw [nothing, List.take_nil, List.drop_nil, List.append_nil, List.nil_append, copyNothing]

/-- A character for which there is room comes before what is copied behind it. -/
theorem take_behind {buffer : List Character} (c : Character) (taken rest : List Character)
    (less : buffer.length < limit) :
    (buffer ++ [c] ++ taken.take (limit - (buffer ++ [c]).length),
        taken.drop (limit - (buffer ++ [c]).length) ++ rest) =
      (buffer ++ (c :: taken).take (limit - buffer.length),
        (c :: taken).drop (limit - buffer.length) ++ rest) := by
  obtain ⟨left, here⟩ : ∃ left, limit - buffer.length = left + 1 :=
    ⟨limit - buffer.length - 1, by omega⟩
  have longer : limit - (buffer ++ [c]).length = left := by
    rw [List.length_append, List.length_singleton]
    omega
  rw [longer, here, List.take_succ_cons, List.drop_succ_cons, List.append_assoc,
    List.singleton_append]

theorem length_concat_le {buffer : List Character} (less : buffer.length < limit)
    (c : Character) : (buffer ++ [c]).length ≤ limit := by
  rw [List.length_append, List.length_singleton]
  exact less

theorem copies_run (limit : Nat) (holds : Character → Bool) :
    Copies limit (copyRun limit holds) (run holds) := by
  intro buffer text room
  induction text generalizing buffer with
  | nil => rw [copyRun, run, List.takeWhile_nil, List.take_nil, List.drop_nil, List.append_nil]; rfl
  | cons c text inductionHypothesis =>
    rw [copyRun]
    by_cases going : holds c = true
    · have taken : run holds (c :: text) = (c :: (run holds text).1, (run holds text).2) := by
        rw [run, List.takeWhile_cons_of_pos going, List.dropWhile_cons_of_pos going, run]
      rw [taken]
      by_cases less : buffer.length < limit
      · rw [if_pos ⟨going, less⟩, inductionHypothesis (buffer ++ [c]) (length_concat_le less c)]
        exact take_behind c _ _ less
      · rw [if_neg fun both => less both.2, Nat.sub_eq_zero_of_le (Nat.le_of_not_lt less),
          List.take_zero, List.drop_zero, List.append_nil, List.cons_append, splits_run]
    · rw [if_neg fun both => going both.1, run, List.takeWhile_cons_of_neg going,
        List.dropWhile_cons_of_neg going, List.take_nil, List.drop_nil, List.append_nil]
      rfl

/-- Copies one behind the other copy what their readers take one behind the other. -/
theorem Copies.andThen {first second : Copy Character} {read_first read_second : Reader Character}
    (copies_first : Copies limit first read_first) (copies_second : Copies limit second read_second)
    (splits : Splits read_second) :
    Copies limit (fun buffer text => second (first buffer text).1 (first buffer text).2)
      (andThen read_first read_second) := by
  intro buffer text room
  dsimp only [Buffered.andThen]
  by_cases fits : buffer.length + (read_first text).1.length ≤ limit
  · have longer : (buffer ++ (read_first text).1).length ≤ limit := by
      rw [List.length_append]
      exact fits
    have left : limit - (buffer ++ (read_first text).1).length =
        limit - buffer.length - (read_first text).1.length := by
      rw [List.length_append]
      omega
    rw [copies_first.of_le fits]
    dsimp only
    rw [copies_second _ _ longer, left, List.take_append, List.drop_append,
      List.take_of_length_le (show (read_first text).1.length ≤ _ by omega),
      List.drop_of_length_le (show (read_first text).1.length ≤ _ by omega),
      List.nil_append, List.append_assoc]
  · have short : limit - buffer.length ≤ (read_first text).1.length := by omega
    have full : (buffer ++ (read_first text).1.take (limit - buffer.length)).length = limit := by
      rw [List.length_append, List.length_take]
      omega
    rw [copies_first buffer text room]
    dsimp only
    rw [copies_second.of_full splits full, List.take_append_of_le_length short,
      List.drop_append_of_le_length short, List.append_assoc, splits]

theorem Copies.branch [DecidableEq Character] (mark : Character) {inner outer : Copy Character}
    {read_inner read_outer : Reader Character} (copies_inner : Copies limit inner read_inner)
    (copies_outer : Copies limit outer read_outer) (splits_inner : Splits read_inner)
    (splits_outer : Splits read_outer) :
    Copies limit (copyBranch limit mark inner outer) (branch mark read_inner read_outer) := by
  intro buffer text room
  cases text with
  | nil => exact copies_outer buffer [] room
  | cons c text =>
    rw [copyBranch, Buffered.branch]
    by_cases marked : c = mark
    · rw [if_pos marked]
      by_cases less : buffer.length < limit
      · rw [if_pos ⟨marked, less⟩, copies_inner _ _ (length_concat_le less c)]
        exact take_behind c _ _ less
      · have full : buffer.length = limit := by omega
        rw [if_neg fun both => less both.2, copies_outer.of_full splits_outer full, full,
          Nat.sub_self, List.take_zero, List.drop_zero, List.append_nil, List.cons_append,
          splits_inner]
    · rw [if_neg marked, if_neg fun both => marked both.1]
      exact copies_outer buffer (c :: text) room

end

/-! ### Stores -/

/-- A store behind what is in a buffer of some size; behind its end it fails with the index. -/
def store (size : Nat) (buffer : List Character) (c : Character) : Except Nat (List Character) :=
  if buffer.length < size then .ok (buffer ++ [c]) else .error buffer.length

/-- A store that ends the text in a buffer. -/
def storeEnd (size : Nat) (buffer : List Character) : Except Nat (List Character) :=
  if buffer.length < size then .ok buffer else .error buffer.length

/-- A copy whose stores may fail. -/
abbrev Storing (Character : Type) : Type :=
  List Character → List Character → Except Nat (List Character × List Character)

/-- Nothing is stored. -/
def storeNothing : Storing Character := fun buffer text => .ok (buffer, text)

/-- The stores of the loop that copies characters. -/
def storeRun (size limit : Nat) (holds : Character → Bool) : Storing Character
  | buffer, [] => .ok (buffer, [])
  | buffer, c :: text =>
    if holds c ∧ buffer.length < limit then do
      let buffer ← store size buffer c
      storeRun size limit holds buffer text
    else .ok (buffer, c :: text)

/-- The stores of a copy behind a character that is copied. -/
def storeBranch [DecidableEq Character] (size limit : Nat) (mark : Character)
    (inner outer : Storing Character) : Storing Character
  | buffer, [] => outer buffer []
  | buffer, c :: text =>
    if c = mark ∧ buffer.length < limit then do
      let buffer ← store size buffer c
      inner buffer text
    else outer buffer (c :: text)

/-- The stores of a copy are in the buffer, and it is not filled beyond the limit. -/
def Stores (limit : Nat) (stores : Storing Character) (copy : Copy Character) : Prop :=
  ∀ buffer text, buffer.length ≤ limit →
    stores buffer text = .ok (copy buffer text) ∧ (copy buffer text).1.length ≤ limit

section

variable {size limit : Nat}

theorem store_eq {buffer : List Character} (room : buffer.length < size) (c : Character) :
    store size buffer c = .ok (buffer ++ [c]) :=
  if_pos room

theorem storeEnd_eq {buffer : List Character} (room : buffer.length < size) :
    storeEnd size buffer = .ok buffer :=
  if_pos room

theorem stores_nothing (limit : Nat) :
    Stores limit (storeNothing : Storing Character) copyNothing :=
  fun _ _ room => ⟨rfl, room⟩

theorem stores_run (within : limit ≤ size) (holds : Character → Bool) :
    Stores limit (storeRun size limit holds) (copyRun limit holds) := by
  intro buffer text room
  induction text generalizing buffer with
  | nil => exact ⟨rfl, room⟩
  | cons c text inductionHypothesis =>
    rw [storeRun, copyRun]
    split
    · rename_i going
      rw [store_eq (going.2.trans_le within)]
      exact inductionHypothesis (buffer ++ [c]) (length_concat_le going.2 c)
    · exact ⟨rfl, room⟩

theorem Stores.branch [DecidableEq Character] (within : limit ≤ size) (mark : Character)
    {inner outer : Storing Character} {copy_inner copy_outer : Copy Character}
    (stores_inner : Stores limit inner copy_inner) (stores_outer : Stores limit outer copy_outer) :
    Stores limit (storeBranch size limit mark inner outer)
      (copyBranch limit mark copy_inner copy_outer) := by
  intro buffer text room
  cases text with
  | nil => exact stores_outer buffer [] room
  | cons c text =>
    rw [storeBranch, copyBranch]
    split
    · rename_i marked
      rw [store_eq (marked.2.trans_le within)]
      exact stores_inner (buffer ++ [c]) text (length_concat_le marked.2 c)
    · exact stores_outer buffer (c :: text) room

/-- Stores one behind the other. -/
theorem Stores.andThen {first second : Storing Character} {copy_first copy_second : Copy Character}
    (stores_first : Stores limit first copy_first)
    (stores_second : Stores limit second copy_second) :
    Stores limit (fun buffer text => do
        let (buffer, text) ← first buffer text
        second buffer text)
      (fun buffer text => copy_second (copy_first buffer text).1 (copy_first buffer text).2) := by
  intro buffer text room
  obtain ⟨stored, filled⟩ := stores_first buffer text room
  dsimp only
  rw [stored]
  exact stores_second _ _ filled

end

end Buffered
