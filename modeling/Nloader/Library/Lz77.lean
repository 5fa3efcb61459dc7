/-
This file is a library of LZ77 token sequences. A token is a literal symbol or a reference
that repeats `length` symbols from `displacement` places back, one symbol at a time, so
that a reference may read the symbols it is itself producing. Tokens are expanded onto
what has been written so far, within a capacity; a reference that reaches a place where
nothing has been written reads whatever `outside` holds there, if anything.

The results relate expansions at different capacities, over different prefixes and with
different surroundings, and say exactly when an expansion reads outside what it wrote.

The library names nothing of the program it is used for.
-/

import Nloader.Library.Outcome

namespace Lz77

variable {Symbol : Type}

/-! ### Tokens and their expansion -/

/-- A literal symbol, or `length` symbols repeated from `displacement` places back. -/
inductive Token (Symbol : Type) where
  | literal (symbol : Symbol)
  | reference (displacement length : Nat)
  deriving DecidableEq

/-- The number of symbols a token expands to. -/
def Token.length : Token Symbol → Nat
  | .literal _ => 1
  | .reference _ length => length

/-- The number of symbols a token sequence expands to. -/
def totalLength (tokens : List (Token Symbol)) : Nat := (tokens.map Token.length).sum

/-- The two ways an expansion ends early: the capacity is used up, or a reference reads a
place that holds nothing. -/
inductive Overrun where
  | full
  | unreadable
  deriving DecidableEq

/-- The symbol `displacement` places back from the end of what has been written. -/
def lookBack (outside : Int → Option Symbol) (written : List Symbol) (displacement : Nat) :
    Option Symbol :=
  if 0 < displacement ∧ displacement ≤ written.length then
    written[written.length - displacement]?
  else outside (written.length - displacement)

/-- Repeat `length` symbols from `displacement` places back, one at a time. -/
def copy (outside : Int → Option Symbol) (displacement : Nat) :
    Nat → List Symbol → Except Overrun (List Symbol)
  | 0, written => pure written
  | length + 1, written =>
    match lookBack outside written displacement with
    | some symbol => copy outside displacement length (written ++ [symbol])
    | none => throw .unreadable

/-- Write the symbols of one token. -/
def put (outside : Int → Option Symbol) : Token Symbol → List Symbol →
    Except Overrun (List Symbol)
  | .literal symbol, written => pure (written ++ [symbol])
  | .reference displacement length, written => copy outside displacement length written

/-- Expand a token sequence onto what has been written, within a capacity. -/
def expand (outside : Int → Option Symbol) (capacity : Nat) :
    List (Token Symbol) → List Symbol → Except Overrun (List Symbol)
  | [], written => pure written
  | token :: tokens, written =>
    if capacity < written.length + token.length then throw .full
    else put outside token written >>= expand outside capacity tokens

/-- Nothing can be read but what has been written. -/
def nowhere : Int → Option Symbol := fun _ => none

@[simp] theorem totalLength_nil : totalLength ([] : List (Token Symbol)) = 0 := rfl

@[simp] theorem totalLength_cons (token : Token Symbol) (tokens : List (Token Symbol)) :
    totalLength (token :: tokens) = token.length + totalLength tokens := rfl

@[simp] theorem totalLength_append (first second : List (Token Symbol)) :
    totalLength (first ++ second) = totalLength first + totalLength second := by
  simp only [totalLength, List.map_append, List.sum_append]

/-! ### Looking back -/

theorem lookBack_within (outside : Int → Option Symbol) {written : List Symbol}
    {displacement : Nat} (positive : 0 < displacement)
    (within : displacement ≤ written.length) :
    lookBack outside written displacement = written[written.length - displacement]? := by
  rw [lookBack, if_pos ⟨positive, within⟩]

theorem lookBack_isSome (outside : Int → Option Symbol) {written : List Symbol}
    {displacement : Nat} (positive : 0 < displacement)
    (within : displacement ≤ written.length) :
    ∃ symbol, lookBack outside written displacement = some symbol := by
  rw [lookBack_within outside positive within]
  exact ⟨written[written.length - displacement], List.getElem?_eq_getElem (by omega)⟩

/-- With nothing readable outside, exactly the displacements into the written part can be
read. -/
theorem lookBack_nowhere {written : List Symbol} {displacement : Nat} {symbol : Symbol}
    (read : lookBack nowhere written displacement = some symbol) :
    0 < displacement ∧ displacement ≤ written.length := by
  by_contra beyond
  rw [lookBack, if_neg beyond] at read
  exact absurd read (by simp [nowhere])

/-- What is read within the written part does not depend on the surroundings, nor on what
was written before it. -/
theorem lookBack_append (outside : Int → Option Symbol) {written : List Symbol}
    {displacement : Nat} {symbol : Symbol} (before : List Symbol)
    (read : lookBack nowhere written displacement = some symbol) :
    lookBack outside (before ++ written) displacement = some symbol := by
  obtain ⟨positive, within⟩ := lookBack_nowhere read
  rw [lookBack_within nowhere positive within] at read
  have longer : displacement ≤ (before ++ written).length := by
    rw [List.length_append]
    omega
  rw [lookBack_within outside positive longer, List.length_append,
    List.getElem?_append_right (by omega),
    show before.length + written.length - displacement - before.length =
      written.length - displacement by omega]
  exact read

/-! ### Lengths -/

theorem copy_length {outside : Int → Option Symbol} {displacement : Nat} :
    ∀ {length : Nat} {written final : List Symbol},
      copy outside displacement length written = .ok final →
        final.length = written.length + length := by
  intro length
  induction length with
  | zero =>
    intro written final copied
    cases copied
    rfl
  | succ length inductionHypothesis =>
    intro written final copied
    rw [copy] at copied
    split at copied
    · have rest := inductionHypothesis copied
      rw [List.length_append, List.length_singleton] at rest
      omega
    · cases copied

/-- A copy is stopped only by a read. -/
theorem copy_error {outside : Int → Option Symbol} {displacement : Nat} {overrun : Overrun} :
    ∀ {length : Nat} {written : List Symbol},
      copy outside displacement length written = .error overrun → overrun = .unreadable := by
  intro length
  induction length with
  | zero => intro written stopped; cases stopped
  | succ length inductionHypothesis =>
    intro written stopped
    rw [copy] at stopped
    split at stopped
    · exact inductionHypothesis stopped
    · cases stopped
      rfl

theorem put_length {outside : Int → Option Symbol} {token : Token Symbol}
    {written final : List Symbol} (done : put outside token written = .ok final) :
    final.length = written.length + token.length := by
  cases token with
  | literal symbol =>
    cases done
    rw [List.length_append, List.length_singleton]
    rfl
  | reference displacement length => exact copy_length done

/-- An expansion step that succeeds: the token fits, and the rest expands onto its result. -/
theorem expand_cons_ok {outside : Int → Option Symbol} {capacity : Nat} {token : Token Symbol}
    {tokens : List (Token Symbol)} {written final : List Symbol}
    (done : expand outside capacity (token :: tokens) written = .ok final) :
    written.length + token.length ≤ capacity ∧
      ∃ middle, put outside token written = .ok middle ∧
        expand outside capacity tokens middle = .ok final := by
  rw [expand] at done
  split at done
  · cases done
  · rename_i fits
    cases written' : put outside token written with
    | error overrun => rw [written'] at done; cases done
    | ok middle =>
      rw [written'] at done
      exact ⟨by omega, middle, rfl, done⟩

theorem expand_cons_of {outside : Int → Option Symbol} {capacity : Nat} {token : Token Symbol}
    {tokens : List (Token Symbol)} {written middle : List Symbol}
    (fits : written.length + token.length ≤ capacity)
    (done : put outside token written = .ok middle) :
    expand outside capacity (token :: tokens) written =
      expand outside capacity tokens middle := by
  rw [expand, if_neg (by omega), done]
  rfl

theorem expand_length {outside : Int → Option Symbol} {capacity : Nat} :
    ∀ {tokens : List (Token Symbol)} {written final : List Symbol},
      expand outside capacity tokens written = .ok final →
        final.length = written.length + totalLength tokens := by
  intro tokens
  induction tokens with
  | nil =>
    intro written final done
    cases done
    rfl
  | cons token tokens inductionHypothesis =>
    intro written final done
    obtain ⟨_, middle, first, rest⟩ := expand_cons_ok done
    rw [inductionHypothesis rest, put_length first, totalLength_cons]
    omega

theorem expand_le_capacity {outside : Int → Option Symbol} {capacity : Nat} :
    ∀ {tokens : List (Token Symbol)} {written final : List Symbol},
      written.length ≤ capacity → expand outside capacity tokens written = .ok final →
        final.length ≤ capacity := by
  intro tokens
  induction tokens with
  | nil =>
    intro written final enough done
    cases done
    exact enough
  | cons token tokens inductionHypothesis =>
    intro written final _ done
    obtain ⟨fits, middle, first, rest⟩ := expand_cons_ok done
    exact inductionHypothesis (by rw [put_length first]; exact fits) rest

theorem expand_append {outside : Int → Option Symbol} {capacity : Nat} :
    ∀ {first second : List (Token Symbol)} {written : List Symbol},
      expand outside capacity (first ++ second) written =
        expand outside capacity first written >>= expand outside capacity second := by
  intro first second
  induction first with
  | nil => intro written; rfl
  | cons token first inductionHypothesis =>
    intro written
    rw [List.cons_append, expand, expand]
    split
    · rfl
    · cases put outside token written with
      | error overrun => rfl
      | ok middle => exact inductionHypothesis

/-- A run of literals is written as it is, where it fits. -/
theorem expand_literals {outside : Int → Option Symbol} {capacity : Nat} :
    ∀ {symbols written : List Symbol}, written.length + symbols.length ≤ capacity →
      expand outside capacity (symbols.map .literal) written = .ok (written ++ symbols) := by
  intro symbols
  induction symbols with
  | nil => intro written _; rw [List.append_nil]; rfl
  | cons symbol symbols inductionHypothesis =>
    intro written room
    rw [List.length_cons] at room
    have first : put outside (.literal symbol) written = .ok (written ++ [symbol]) := rfl
    rw [List.map_cons, expand_cons_of (by simp only [Token.length]; omega) first,
      inductionHypothesis (by rw [List.length_append, List.length_singleton]; omega),
      List.append_assoc]
    rfl

theorem expand_literals_full {outside : Int → Option Symbol} {capacity : Nat} :
    ∀ {symbols written : List Symbol}, written.length ≤ capacity →
      capacity < written.length + symbols.length →
        expand outside capacity (symbols.map .literal) written = .error .full := by
  intro symbols
  induction symbols with
  | nil => intro written enough short; rw [List.length_nil] at short; omega
  | cons symbol symbols inductionHypothesis =>
    intro written enough short
    rw [List.length_cons] at short
    by_cases fits : written.length + 1 ≤ capacity
    · have first : put outside (.literal symbol) written = .ok (written ++ [symbol]) := rfl
      rw [List.map_cons, expand_cons_of fits first]
      refine inductionHypothesis ?_ ?_ <;>
        rw [List.length_append, List.length_singleton] <;> omega
    · rw [List.map_cons, expand, if_pos (by simp only [Token.length]; omega)]
      rfl

/-! ### Expansions over a prefix, in other surroundings and at other capacities -/

theorem copy_append (outside : Int → Option Symbol) (before : List Symbol) {displacement : Nat} :
    ∀ {length : Nat} {written final : List Symbol},
      copy nowhere displacement length written = .ok final →
        copy outside displacement length (before ++ written) = .ok (before ++ final) := by
  intro length
  induction length with
  | zero =>
    intro written final copied
    cases copied
    rfl
  | succ length inductionHypothesis =>
    intro written final copied
    rw [copy] at copied ⊢
    cases read : lookBack nowhere written displacement with
    | none => rw [read] at copied; cases copied
    | some symbol =>
      rw [read] at copied
      rw [lookBack_append outside before read]
      have rest := inductionHypothesis copied
      rw [← List.append_assoc] at rest
      exact rest

theorem put_append (outside : Int → Option Symbol) (before : List Symbol)
    {token : Token Symbol} {written final : List Symbol}
    (done : put nowhere token written = .ok final) :
    put outside token (before ++ written) = .ok (before ++ final) := by
  cases token with
  | literal symbol =>
    cases done
    rw [put, List.append_assoc]
    rfl
  | reference displacement length => exact copy_append outside before done

/-- A token sequence that expands without reading outside expands to the same symbols after
any prefix, in any surroundings and at any capacity that holds the prefix and the result. -/
theorem expand_onto (outside : Int → Option Symbol) (before : List Symbol)
    {capacity : Nat} (capacity' : Nat) :
    ∀ {tokens : List (Token Symbol)} {written final : List Symbol},
      expand nowhere capacity tokens written = .ok final →
      before.length + final.length ≤ capacity' →
        expand outside capacity' tokens (before ++ written) = .ok (before ++ final) := by
  intro tokens
  induction tokens with
  | nil =>
    intro written final done _
    cases done
    rfl
  | cons token tokens inductionHypothesis =>
    intro written final done room
    obtain ⟨_, middle, first, rest⟩ := expand_cons_ok done
    have total := expand_length rest
    have part := put_length first
    have fits : (before ++ written).length + token.length ≤ capacity' := by
      rw [List.length_append]
      omega
    rw [expand_cons_of fits (put_append outside before first)]
    exact inductionHypothesis rest room

/-- At a capacity that does not hold the result, the same expansion runs full. -/
theorem expand_onto_full (outside : Int → Option Symbol) (before : List Symbol)
    {capacity : Nat} (capacity' : Nat) :
    ∀ {tokens : List (Token Symbol)} {written final : List Symbol},
      expand nowhere capacity tokens written = .ok final →
      before.length + written.length ≤ capacity' →
      capacity' < before.length + final.length →
        expand outside capacity' tokens (before ++ written) = .error .full := by
  intro tokens
  induction tokens with
  | nil =>
    intro written final done enough short
    cases done
    omega
  | cons token tokens inductionHypothesis =>
    intro written final done enough short
    obtain ⟨_, middle, first, rest⟩ := expand_cons_ok done
    by_cases fits : (before ++ written).length + token.length ≤ capacity'
    · have part := put_length first
      rw [List.length_append] at fits
      rw [expand_cons_of (by rw [List.length_append]; omega) (put_append outside before first)]
      exact inductionHypothesis rest (by omega) short
    · rw [expand, if_pos (by omega)]
      rfl

/-- An expansion that reads nothing outside ends the same way in any surroundings. -/
theorem expand_anywhere {outside : Int → Option Symbol} {capacity : Nat} :
    ∀ {tokens : List (Token Symbol)} {written : List Symbol},
      expand nowhere capacity tokens written ≠ .error .unreadable →
        expand outside capacity tokens written = expand nowhere capacity tokens written := by
  intro tokens
  induction tokens with
  | nil => intro written _; rfl
  | cons token tokens inductionHypothesis =>
    intro written kept
    rw [expand] at kept
    rw [expand, expand]
    by_cases full : capacity < written.length + token.length
    · rw [if_pos full, if_pos full]
    · rw [if_neg full] at kept ⊢
      rw [if_neg full]
      cases done : put nowhere token written with
      | ok middle =>
        have same := put_append outside [] done
        rw [List.nil_append, List.nil_append] at same
        rw [done] at kept
        rw [same]
        exact inductionHypothesis kept
      | error overrun =>
        rw [done] at kept
        cases token with
        | literal symbol => cases done
        | reference displacement length =>
          rw [copy_error done] at kept
          exact absurd rfl kept

/-! ### When an expansion reads outside -/

theorem copy_within (outside : Int → Option Symbol) {displacement : Nat}
    (positive : 0 < displacement) :
    ∀ (length : Nat) (written : List Symbol), displacement ≤ written.length →
      ∃ final, copy outside displacement length written = .ok final := by
  intro length
  induction length with
  | zero => intro written _; exact ⟨written, rfl⟩
  | succ length inductionHypothesis =>
    intro written within
    obtain ⟨symbol, read⟩ := lookBack_isSome outside positive within
    rw [copy, read]
    exact inductionHypothesis (written ++ [symbol]) (by rw [List.length_append]; omega)

theorem copy_beyond {displacement length : Nat} {written : List Symbol}
    (nonempty : 0 < length) (beyond : ¬ (0 < displacement ∧ displacement ≤ written.length)) :
    copy nowhere displacement length written = .error .unreadable := by
  obtain ⟨rest, rfl⟩ := Nat.exists_eq_succ_of_ne_zero (Nat.ne_of_gt nonempty)
  have unread : lookBack nowhere written displacement = none := by
    rw [lookBack, if_neg beyond]
    rfl
  rw [Nat.succ_eq_add_one, copy, unread]
  rfl

/-- An expansion that is stopped by a read has read a place that holds nothing. -/
theorem copy_unreadable {outside : Int → Option Symbol} {displacement : Nat} :
    ∀ {length : Nat} {written : List Symbol},
      copy outside displacement length written = .error .unreadable →
        ∃ place, outside place = none := by
  intro length
  induction length with
  | zero => intro written stopped; cases stopped
  | succ length inductionHypothesis =>
    intro written stopped
    rw [copy] at stopped
    split at stopped
    · exact inductionHypothesis stopped
    · rename_i missing
      by_cases within : 0 < displacement ∧ displacement ≤ written.length
      · obtain ⟨symbol, found⟩ := lookBack_isSome outside within.1 within.2
        rw [missing] at found
        cases found
      · rw [lookBack, if_neg within] at missing
        exact ⟨_, missing⟩

theorem expand_unreadable {outside : Int → Option Symbol} {capacity : Nat} :
    ∀ {tokens : List (Token Symbol)} {written : List Symbol},
      expand outside capacity tokens written = .error .unreadable →
        ∃ place, outside place = none := by
  intro tokens
  induction tokens with
  | nil => intro written stopped; cases stopped
  | cons token tokens inductionHypothesis =>
    intro written stopped
    rw [expand] at stopped
    split at stopped
    · cases stopped
    · cases done : put outside token written with
      | ok middle =>
        rw [done] at stopped
        exact inductionHypothesis stopped
      | error overrun =>
        rw [done] at stopped
        cases stopped
        cases token with
        | literal symbol => cases done
        | reference displacement length => exact copy_unreadable done

/-- A token sequence reads only what it wrote when every reference, at the position it is
expanded from, reaches back by at least one place and not past the beginning. -/
def Within : Nat → List (Token Symbol) → Prop
  | _, [] => True
  | position, .literal _ :: tokens => Within (position + 1) tokens
  | position, .reference displacement length :: tokens =>
    (0 < displacement ∧ displacement ≤ position) ∧ Within (position + length) tokens

theorem put_within (outside : Int → Option Symbol) {token : Token Symbol}
    {tokens : List (Token Symbol)} {written : List Symbol}
    (within : Within written.length (token :: tokens)) :
    ∃ middle, put outside token written = .ok middle ∧ Within middle.length tokens := by
  cases token with
  | literal symbol =>
    refine ⟨written ++ [symbol], rfl, ?_⟩
    rw [List.length_append, List.length_singleton]
    exact within
  | reference displacement length =>
    obtain ⟨⟨positive, reach⟩, rest⟩ := within
    obtain ⟨final, copied⟩ := copy_within outside positive length written reach
    refine ⟨final, copied, ?_⟩
    rw [copy_length copied]
    exact rest

/-- Some reference that still fits the capacity reaches further back than what precedes it,
for tokens expanded from `position` on. -/
def Overreaches (capacity position : Nat) (tokens : List (Token Symbol)) : Prop :=
  ∃ before displacement length after,
    tokens = before ++ .reference displacement length :: after ∧
    position + totalLength before + length ≤ capacity ∧
    position + totalLength before < displacement

theorem not_overreaches_nil (capacity position : Nat) :
    ¬ Overreaches capacity position ([] : List (Token Symbol)) := by
  rintro ⟨before, displacement, length, after, split, _⟩
  exact absurd split (by simp)

/-- The first token overreaches, or the rest does from the place the first one ends. -/
theorem overreaches_cons (capacity position : Nat) (token : Token Symbol)
    (tokens : List (Token Symbol)) :
    Overreaches capacity position (token :: tokens) ↔
      (∃ displacement length, token = .reference displacement length ∧
        position + length ≤ capacity ∧ position < displacement) ∨
      Overreaches capacity (position + token.length) tokens := by
  constructor
  · rintro ⟨before, displacement, length, after, split, fits, beyond⟩
    cases before with
    | nil =>
      obtain ⟨rfl, rfl⟩ := List.cons.inj split
      exact Or.inl ⟨displacement, length, rfl, fits, beyond⟩
    | cons first before =>
      obtain ⟨rfl, rfl⟩ := List.cons.inj split
      rw [totalLength_cons] at fits beyond
      exact Or.inr ⟨before, displacement, length, after, rfl, by omega, by omega⟩
  · rintro (⟨displacement, length, rfl, fits, beyond⟩ |
      ⟨before, displacement, length, after, rfl, fits, beyond⟩)
    · exact ⟨[], displacement, length, tokens, rfl, fits, beyond⟩
    · refine ⟨token :: before, displacement, length, after, rfl, ?_, ?_⟩ <;>
        rw [totalLength_cons] <;> omega

theorem not_overreaches_of_full {capacity position : Nat} {tokens : List (Token Symbol)}
    (full : capacity < position)  : ¬ Overreaches capacity position tokens := by
  rintro ⟨before, displacement, length, after, _, fits, _⟩
  omega

/-- Repeat `length` symbols from `displacement` places back, symbol by symbol. -/
def repeatBack [Inhabited Symbol] (displacement : Nat) : Nat → List Symbol → List Symbol
  | 0, written => written
  | length + 1, written =>
    repeatBack displacement length
      (written ++ [(written[written.length - displacement]?).getD default])

/-- The symbol-by-symbol expansion of a token sequence that reads only what it wrote. -/
def expansion [Inhabited Symbol] : List (Token Symbol) → List Symbol → List Symbol
  | [], written => written
  | .literal symbol :: tokens, written => expansion tokens (written ++ [symbol])
  | .reference displacement length :: tokens, written =>
    expansion tokens (repeatBack displacement length written)

theorem copy_eq_repeatBack [Inhabited Symbol] {outside : Int → Option Symbol}
    {displacement : Nat} (positive : 0 < displacement) :
    ∀ (length : Nat) (written : List Symbol), displacement ≤ written.length →
      copy outside displacement length written =
        .ok (repeatBack displacement length written) := by
  intro length
  induction length with
  | zero => intro written _; rfl
  | succ length inductionHypothesis =>
    intro written within
    obtain ⟨symbol, read⟩ := lookBack_isSome outside positive within
    have same : (written[written.length - displacement]?).getD default = symbol := by
      rw [← lookBack_within outside positive within, read]
      rfl
    rw [copy, read, repeatBack, same]
    exact inductionHypothesis (written ++ [symbol]) (by rw [List.length_append]; omega)

/-- Tokens that read only what they wrote expand to their symbol-by-symbol expansion, at any
capacity that holds it. -/
theorem expand_eq_expansion [Inhabited Symbol] {outside : Int → Option Symbol}
    {capacity : Nat} :
    ∀ {tokens : List (Token Symbol)} {written : List Symbol},
      Within written.length tokens → written.length + totalLength tokens ≤ capacity →
        expand outside capacity tokens written = .ok (expansion tokens written) := by
  intro tokens
  induction tokens with
  | nil => intro written _ _; rfl
  | cons token tokens inductionHypothesis =>
    intro written within room
    rw [totalLength_cons] at room
    obtain ⟨middle, done, rest⟩ := put_within outside within
    have grown := put_length done
    rw [expand_cons_of (by omega) done, inductionHypothesis rest (by omega)]
    cases token with
    | literal symbol =>
      cases done
      rfl
    | reference displacement length =>
      rw [put, copy_eq_repeatBack within.1.1 length written within.1.2] at done
      cases done
      rfl

/-- With nothing readable outside, an expansion is stopped by a read exactly when some
reference overreaches. -/
theorem expand_unreadable_iff {capacity : Nat} :
    ∀ {tokens : List (Token Symbol)} {written : List Symbol},
      (∀ displacement length, Token.reference displacement length ∈ tokens →
        0 < displacement ∧ 0 < length) →
      (expand nowhere capacity tokens written = .error .unreadable ↔
        Overreaches capacity written.length tokens) := by
  intro tokens
  induction tokens with
  | nil =>
    intro written _
    exact iff_of_false (by simp [expand, pure, Except.pure]) (not_overreaches_nil _ _)
  | cons token tokens inductionHypothesis =>
    intro written positive
    have restPositive : ∀ displacement length, Token.reference displacement length ∈ tokens →
        0 < displacement ∧ 0 < length :=
      fun displacement length member => positive _ _ (List.mem_cons_of_mem _ member)
    rw [overreaches_cons]
    by_cases fits : written.length + token.length ≤ capacity
    · cases token with
      | literal symbol =>
        rw [expand_cons_of fits rfl, inductionHypothesis restPositive, List.length_append]
        simp [Token.length]
      | reference displacement length =>
        obtain ⟨displaced, nonempty⟩ := positive displacement length List.mem_cons_self
        by_cases reach : displacement ≤ written.length
        · obtain ⟨middle, done⟩ :=
            copy_within nowhere displaced length written reach
          rw [expand_cons_of fits done, inductionHypothesis restPositive, copy_length done]
          refine (or_iff_right ?_).symm
          rintro ⟨other, _, same, _, beyond⟩
          cases same
          omega
        · refine iff_of_true ?_ (Or.inl ⟨displacement, length, rfl, fits, by omega⟩)
          rw [expand, if_neg (by omega), put, copy_beyond nonempty (by omega)]
          rfl
    · refine iff_of_false (by rw [expand, if_pos (by omega)]; exact nofun) ?_
      rintro (⟨displacement, length, rfl, room, _⟩ | rest)
      · exact fits room
      · exact not_overreaches_of_full (by omega) rest

end Lz77
