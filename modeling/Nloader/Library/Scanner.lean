/-
This file is a library for scanners that read a text one character at a time. A character gives
tokens and leads to the next mode, or it ends the scan. A scan that is not ended within its text
has read beyond it.

The library names nothing of the program it is used for.
-/

import Mathlib.Data.List.Basic

/-- A scanner: what a character gives in a mode, and the mode it leads to, if the scan goes on. -/
structure Scanner (Mode Character Token : Type) where
  read : Mode → Character → List Token × Option Mode

namespace Scanner

variable {Mode Character Token : Type} (scanner : Scanner Mode Character Token)

/-- The tokens that a text gives, and the mode behind it, if the scan is not over. -/
def scan : Mode → List Character → List Token × Option Mode
  | mode, [] => ([], some mode)
  | mode, c :: text =>
    match (scanner.read mode c).2 with
    | none => ((scanner.read mode c).1, none)
    | some next => ((scanner.read mode c).1 ++ (scan next text).1, (scan next text).2)

/-- The mode behind a text in which the scan does not come to its end. -/
def after (mode : Mode) (text : List Character) : Option Mode := (scanner.scan mode text).2

/-- The tokens of a text in which the scan comes to its end. -/
def tokens (mode : Mode) (text : List Character) : Option (List Token) :=
  match scanner.after mode text with
  | none => some (scanner.scan mode text).1
  | some _ => none

variable {scanner}

/-! ### A character -/

section

variable {mode next : Mode} {c : Character} {text : List Character} {found : List Token}

theorem scan_end (reads : scanner.read mode c = (found, none)) :
    scanner.scan mode (c :: text) = (found, none) := by
  rw [scan, reads]

theorem scan_next (reads : scanner.read mode c = (found, some next)) :
    scanner.scan mode (c :: text) =
      (found ++ (scanner.scan next text).1, (scanner.scan next text).2) := by
  rw [scan, reads]

/-- A character that gives nothing only changes the mode. -/
theorem scan_silent (reads : scanner.read mode c = ([], some next)) :
    scanner.scan mode (c :: text) = scanner.scan next text :=
  scan_next reads

theorem tokens_end (reads : scanner.read mode c = (found, none)) :
    scanner.tokens mode (c :: text) = some found := by
  rw [tokens, after, scan_end reads]

theorem tokens_next (reads : scanner.read mode c = (found, some next)) :
    scanner.tokens mode (c :: text) = (scanner.tokens next text).map (found ++ ·) := by
  rw [tokens, tokens, after, after, scan_next reads]
  cases (scanner.scan next text).2 <;> rfl

theorem tokens_silent (reads : scanner.read mode c = ([], some next)) :
    scanner.tokens mode (c :: text) = scanner.tokens next text := by
  rw [tokens, tokens, after, after, scan_silent reads]

/-- The tokens of a text in which the scan comes to its end are those that the text gives. -/
theorem scan_of_tokens (scans : scanner.tokens mode text = some found) :
    (scanner.scan mode text).1 = found := by
  rw [tokens] at scans
  cases ends : scanner.after mode text with
  | none =>
    rw [ends] at scans
    exact Option.some.inj scans
  | some last =>
    rw [ends] at scans
    exact nomatch scans

theorem tokens_cons (mode : Mode) (c : Character) (text : List Character) :
    scanner.tokens mode (c :: text) =
      match (scanner.read mode c).2 with
      | none => some (scanner.read mode c).1
      | some next => (scanner.tokens next text).map ((scanner.read mode c).1 ++ ·) := by
  cases ends : (scanner.read mode c).2 with
  | none => exact tokens_end (Prod.ext rfl ends)
  | some next => exact tokens_next (Prod.ext rfl ends)

end

/-! ### Texts one behind the other -/

/-- A scan that is over does not look at what follows; another goes on with it. -/
theorem scan_append (mode : Mode) (text rest : List Character) :
    scanner.scan mode (text ++ rest) =
      match scanner.after mode text with
      | none => scanner.scan mode text
      | some last =>
        ((scanner.scan mode text).1 ++ (scanner.scan last rest).1, (scanner.scan last rest).2) := by
  induction text generalizing mode with
  | nil => rfl
  | cons c text inductionHypothesis =>
    rw [List.cons_append, after]
    cases ends : (scanner.read mode c).2 with
    | none => rw [scan_end (Prod.ext rfl ends), scan_end (Prod.ext rfl ends)]
    | some next =>
      rw [scan_next (Prod.ext rfl ends), scan_next (Prod.ext rfl ends), inductionHypothesis, after]
      cases ends_rest : (scanner.scan next text).2 with
      | none => exact Prod.ext rfl ends_rest
      | some last => exact Prod.ext (List.append_assoc ..).symm rfl

theorem after_append (mode : Mode) (text rest : List Character) :
    scanner.after mode (text ++ rest) =
      (scanner.after mode text).bind fun last => scanner.after last rest := by
  rw [after, scan_append]
  cases ends : scanner.after mode text with
  | none => exact ends
  | some last => rfl

theorem tokens_append {mode : Mode} {text : List Character} {found : List Token}
    (scans : scanner.tokens mode text = some found) (rest : List Character) :
    scanner.tokens mode (text ++ rest) = some found := by
  rw [tokens] at scans
  rw [tokens, after_append, scan_append]
  cases ends : scanner.after mode text with
  | none =>
    rw [ends] at scans
    exact scans
  | some last =>
    rw [ends] at scans
    exact nomatch scans

/-- The scan is over within a text just when it is in no mode behind it. -/
theorem tokens_isSome (mode : Mode) (text : List Character) :
    (scanner.tokens mode text).isSome ↔ scanner.after mode text = none := by
  rw [tokens]
  cases scanner.after mode text with
  | none => exact iff_of_true rfl rfl
  | some last => exact iff_of_false Bool.false_ne_true (Option.some_ne_none last)

/-! ### What holds of all tokens -/

/-- What reading keeps of the modes, and grants for the tokens of a character, holds of all tokens
of a text. -/
theorem scan_all {Good : Mode → Prop} {Fine : Token → Prop}
    (reads : ∀ mode c, Good mode → (∀ token ∈ (scanner.read mode c).1, Fine token) ∧
      ∀ next, (scanner.read mode c).2 = some next → Good next)
    {mode : Mode} (good : Good mode) (text : List Character) :
    ∀ token ∈ (scanner.scan mode text).1, Fine token := by
  induction text generalizing mode with
  | nil => exact fun token member => absurd member List.not_mem_nil
  | cons c text inductionHypothesis =>
    obtain ⟨fine, good_next⟩ := reads mode c good
    cases ends : (scanner.read mode c).2 with
    | none =>
      rw [scan_end (Prod.ext rfl ends)]
      exact fine
    | some next =>
      rw [scan_next (Prod.ext rfl ends)]
      intro token member
      rcases List.mem_append.mp member with member | member
      · exact fine token member
      · exact inductionHypothesis (good_next next ends) token member

/-- What reading keeps of the modes, and grants for the tokens of a character that leads on, holds
of all tokens of a text in which the scan does not end. -/
theorem scan_going {Good : Mode → Prop} {Fine : Token → Prop}
    (reads : ∀ mode c next, Good mode → (scanner.read mode c).2 = some next →
      Good next ∧ ∀ token ∈ (scanner.read mode c).1, Fine token)
    {mode last : Mode} (good : Good mode) {text : List Character}
    (going : scanner.after mode text = some last) :
    ∀ token ∈ (scanner.scan mode text).1, Fine token := by
  induction text generalizing mode with
  | nil => exact fun token member => absurd member List.not_mem_nil
  | cons c text inductionHypothesis =>
    rw [after] at going
    cases ends : (scanner.read mode c).2 with
    | none =>
      rw [scan_end (Prod.ext rfl ends)] at going
      exact nomatch going
    | some next =>
      rw [scan_next (Prod.ext rfl ends)] at going ⊢
      obtain ⟨good_next, fine⟩ := reads mode c next good ends
      intro token member
      rcases List.mem_append.mp member with member | member
      · exact fine token member
      · exact inductionHypothesis good_next going token member

theorem length_scan {bound : Nat} (reads : ∀ mode c, (scanner.read mode c).1.length ≤ bound)
    (mode : Mode) (text : List Character) :
    (scanner.scan mode text).1.length ≤ bound * text.length := by
  induction text generalizing mode with
  | nil => exact Nat.zero_le _
  | cons c text inductionHypothesis =>
    have first := reads mode c
    rw [List.length_cons, Nat.mul_succ]
    cases ends : (scanner.read mode c).2 with
    | none =>
      rw [scan_end (Prod.ext rfl ends)]
      exact Nat.le_trans first (Nat.le_add_left _ _)
    | some next =>
      rw [scan_next (Prod.ext rfl ends), List.length_append, Nat.add_comm]
      exact Nat.add_le_add (inductionHypothesis next) first

/-! ### The last character -/

theorem after_singleton (mode : Mode) (c : Character) :
    scanner.after mode [c] = (scanner.read mode c).2 := by
  rw [after]
  cases ends : (scanner.read mode c).2 with
  | none => rw [scan_end (Prod.ext rfl ends)]
  | some next => rw [scan_next (Prod.ext rfl ends)]; rfl

/-- The scan is over with the last character of a text unless that character leads on. -/
theorem tokens_concat_isSome (mode : Mode) (text : List Character) (c : Character) :
    (scanner.tokens mode (text ++ [c])).isSome ↔
      ∀ last, scanner.after mode text = some last → (scanner.read last c).2 = none := by
  rw [tokens_isSome, after_append, Option.bind_eq_none_iff]
  simp only [after_singleton]

end Scanner
