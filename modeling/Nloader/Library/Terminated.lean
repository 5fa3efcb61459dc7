/-
This file is a library of texts that end in a zero and of what loops over them do. The memory that
a pointer points to is the list of what can be read from there on; a read behind its end is none.
A text is in such a memory if the memory begins with the characters and the zero.

The library names nothing of the program it is used for.
-/

import Mathlib.Data.List.Basic
import Mathlib.Data.List.TakeDrop
import Mathlib.Data.List.TakeWhile

namespace Terminated

/-! ### Texts -/

section

variable {Character : Type} [OfNat Character 0]

/-- The characters before the zero. -/
@[ext]
structure Text (Character : Type) [OfNat Character 0] where
  characters : List Character
  nonzero : 0 ∉ characters

/-- What can be read of a text: its characters and the zero. -/
def Text.memory (text : Text Character) : List Character := text.characters ++ [0]

/-- The first characters of a text, as a text. -/
def Text.truncate (text : Text Character) (count : Nat) : Text Character where
  characters := text.characters.take count
  nonzero within := text.nonzero (List.mem_of_mem_take within)

theorem Text.truncate_of_le {text : Text Character} {count : Nat}
    (short : text.characters.length ≤ count) : text.truncate count = text :=
  Text.ext (List.take_of_length_le short)

variable [DecidableEq Character]

/-- Without a zero nothing is behind the first one. -/
theorem takeWhile_nonzero {characters : List Character} (nonzero : 0 ∉ characters) :
    characters.takeWhile (· ≠ 0) = characters :=
  List.takeWhile_eq_self_iff.mpr fun _ member => decide_eq_true fun zero => nonzero (zero ▸ member)

/-! ### The length -/

/-- The number of characters before the first zero. -/
def length : List Character → Option Nat
  | [] => none
  | c :: rest => if c = 0 then some 0 else (length rest).map (· + 1)

theorem length_append {characters : List Character} (nonzero : 0 ∉ characters)
    (behind : List Character) :
    length (characters ++ behind) = (length behind).map (· + characters.length) := by
  induction characters with
  | nil => simp
  | cons c characters inductionHypothesis =>
    obtain ⟨other, others⟩ := not_or.mp (List.mem_cons.not.mp nonzero)
    rw [List.cons_append, length, if_neg (Ne.symm other), inductionHypothesis others,
      Option.map_map]
    rfl

/-- The length of a text, whatever is behind its zero. -/
theorem length_text (text : Text Character) (behind : List Character) :
    length (text.memory ++ behind) = some text.characters.length := by
  rw [Text.memory, List.append_assoc, length_append text.nonzero, List.singleton_append, length,
    if_pos rfl, Option.map_some, Nat.zero_add]

/-- Where less can be read than a text and its zero, its length is not found. -/
theorem length_take_memory {text : Text Character} {count : Nat}
    (short : count ≤ text.characters.length) : length (text.memory.take count) = none := by
  have nonzero : 0 ∉ text.characters.take count :=
    fun within => text.nonzero (List.mem_of_mem_take within)
  have taken : text.memory.take count = text.characters.take count :=
    List.take_append_of_le_length short
  have found := length_append nonzero []
  rwa [List.append_nil, ← taken] at found

end

/-! ### Copying with zeros behind -/

section

variable {Character : Type} [OfNat Character 0] [DecidableEq Character]

/-- What is copied of a memory up to its zero, filled up with zeros to some number of characters. -/
def padded : Nat → List Character → Option (List Character)
  | 0, _ => some []
  | _ + 1, [] => none
  | count + 1, c :: rest =>
    if c = 0 then some (List.replicate (count + 1) 0) else (padded count rest).map (c :: ·)

/-- The front of a text is copied, and zeros where it is shorter. -/
theorem padded_text (text : Text Character) (behind : List Character) (count : Nat) :
    padded count (text.memory ++ behind) = some (text.characters.take count ++
      List.replicate (count - text.characters.length) 0) := by
  obtain ⟨characters, nonzero⟩ := text
  change padded count (characters ++ [0] ++ behind) = some (characters.take count ++ _)
  induction characters generalizing count with
  | nil =>
    cases count with
    | zero => rfl
    | succ count => exact if_pos rfl
  | cons c characters inductionHypothesis =>
    cases count with
    | zero => simp [padded]
    | succ count =>
      obtain ⟨other, others⟩ := not_or.mp (List.mem_cons.not.mp nonzero)
      rw [List.cons_append, List.cons_append, padded, if_neg (Ne.symm other),
        inductionHypothesis count others]
      simp

end

/-! ### Copying and storing -/

section

variable {Source Target : Type}

/-- A loop that converts and copies some elements. -/
def copy (convert : Source → Target) : Nat → List Source → Option (List Target)
  | 0, _ => some []
  | _ + 1, [] => none
  | count + 1, c :: rest => (copy convert count rest).map (convert c :: ·)

theorem copy_eq (convert : Source → Target) (count : Nat) (memory : List Source) :
    copy convert count memory =
      if count ≤ memory.length then some ((memory.take count).map convert) else none := by
  induction count generalizing memory with
  | zero => rw [if_pos (Nat.zero_le _)]; rfl
  | succ count inductionHypothesis =>
    cases memory with
    | nil => rfl
    | cons c rest =>
      rw [copy, inductionHypothesis, List.length_cons]
      by_cases less : count ≤ rest.length
      · rw [if_pos less, if_pos (Nat.succ_le_succ less)]
        rfl
      · rw [if_neg less, if_neg fun more => less (Nat.le_of_succ_le_succ more)]
        rfl

theorem copy_of_le (convert : Source → Target) {count : Nat} {memory : List Source}
    (less : count ≤ memory.length) :
    copy convert count memory = some ((memory.take count).map convert) :=
  (copy_eq convert count memory).trans (if_pos less)

end

end Terminated
