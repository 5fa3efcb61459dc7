/-
This file models `RtlFormatMessage` of `src/libs/ntdll/rtl.c`, without the conversion for the log.
The message is the list of its `WCHAR`s from `msg` on, the buffer the list of what it holds, and an
access outside of one of them, like the calls of `abort`, is no run.

A message is the encoding of a list of segments. For an array of arguments the function stores the
concatenation of their expansions, whatever the buffer has held, and it stops at the end marker
although it looks at it one character later.
-/

import Nloader.Events

namespace Nloader.FormatMessage

open Nloader.Events

/-! ### The function -/

/-- `isdigit`. -/
def isdigit (c : UInt16) : Bool := 0x30 ≤ c ∧ c ≤ 0x39

/-- `wtoi`, of a digit. -/
def wtoi (c : UInt16) : Nat := (c &&& 0xff).toNat - 0x30

/-- `Buffer[index] = c`. -/
def store (buffer : List UInt16) (index : Nat) (c : UInt16) : Option (List UInt16) :=
  if index < buffer.length then some (buffer.set index c) else none

/-- `rpl_wcscpy(&Buffer[index], arg)`, where the characters of `arg` are those before its NUL. -/
def wcscpy (buffer : List UInt16) (index : Nat) : List UInt16 → Option (List UInt16)
  | [] => store buffer index 0
  | c :: rest => do wcscpy (← store buffer index c) (index + 1) rest

/-- The locals of the function, with the arguments that are left. -/
structure State where
  buffer : List UInt16
  count : Nat
  eos : Bool
  arguments : List (List UInt16)

/-- `Buffer[count++] = c`. -/
def State.put (state : State) (c : UInt16) : Option State := do
  some { state with buffer := ← store state.buffer state.count c, count := state.count + 1 }

/-- `get_arg`: the argument, and those that are left. -/
def getArg (no : Nat) (arguments : List (List UInt16)) (argumentIsArray : Bool) :
    Option (List UInt16 × List (List UInt16)) :=
  if argumentIsArray then arguments[no]?.map fun arg => (arg, arguments)
  else arguments[max no 1 - 1]?.map fun arg => (arg, arguments.drop (max no 1))

/-- The number after a `%` that begins with a digit, and the message behind it. -/
def argnum (c : UInt16) : List UInt16 → Option (Nat × List UInt16)
  | [] => none
  | next :: msg =>
    if isdigit next then some (wtoi c * 10 + wtoi next, msg) else some (wtoi c, next :: msg)

/-- The message behind the next `!`, or at its end. -/
def skipTo : List UInt16 → Option (List UInt16)
  | [] => none
  | c :: msg => if c = 0 then some (c :: msg) else if c = 0x21 then some msg else skipTo msg

/-- The message behind a block `!printf-spec!`, if there is one. -/
def skipSpec : List UInt16 → Option (List UInt16)
  | [] => none
  | c :: msg => if c = 0x21 then skipTo msg else some (c :: msg)

/-- The character that an escape stands for. -/
def escaped (c : UInt16) : Option UInt16 :=
  if c = 0x72 then some 0x0d
  else if c = 0x6e then some 0x0a
  else if c = 0x74 then some 0x09
  else if c = 0x62 then some 0x20
  else if c = 0x25 then some 0x25
  else none

/-- What an iteration comes to: the end of the loop, or the message that is left. -/
inductive Iteration where
  | stop
  | next (msg : List UInt16) (state : State)

/-- The `switch` over the character behind a `%`. -/
def command (argumentIsArray : Bool) (c : UInt16) (msg : List UInt16) (state : State) :
    Option Iteration :=
  if c = 0x30 then some (.next msg { state with eos := true })
  else
    match escaped c with
    | some character => do some (.next msg (← state.put character))
    | none =>
      if 0x31 ≤ c ∧ c ≤ 0x39 then do
        let (number, msg) ← argnum c msg
        let (arg, arguments) ← getArg (number - 1) state.arguments argumentIsArray
        let buffer ← wcscpy state.buffer state.count arg
        let msg ← skipSpec msg
        some (.next msg
          { buffer := buffer
            count := state.count + arg.length
            eos := state.eos
            arguments := arguments })
      else some (.next msg state)

/-- An iteration of the loop. -/
def iteration (argumentIsArray : Bool) (state : State) : List UInt16 → Option Iteration
  | [] => none
  | c :: msg =>
    if c = 0 ∨ state.eos = true then some .stop
    else if c ≠ 0x25 then do some (.next msg (← state.put c))
    else
      match msg with
      | [] => none
      | c :: msg => command argumentIsArray c msg state

theorem length_skipTo {msg rest : List UInt16} (skips : skipTo msg = some rest) :
    rest.length ≤ msg.length := by
  induction msg with
  | nil => exact nomatch skips
  | cons c msg inductionHypothesis =>
    rw [skipTo] at skips
    split at skips
    · rw [← Option.some.inj skips]
    · split at skips
      · rw [← Option.some.inj skips]
        exact Nat.le_succ _
      · exact (inductionHypothesis skips).trans (Nat.le_succ _)

theorem length_skipSpec {msg rest : List UInt16} (skips : skipSpec msg = some rest) :
    rest.length ≤ msg.length := by
  cases msg with
  | nil => exact nomatch skips
  | cons c msg =>
    rw [skipSpec] at skips
    split at skips
    · exact (length_skipTo skips).trans (Nat.le_succ _)
    · rw [← Option.some.inj skips]

theorem length_argnum {c : UInt16} {msg rest : List UInt16} {number : Nat}
    (reads : argnum c msg = some (number, rest)) : rest.length ≤ msg.length := by
  cases msg with
  | nil => exact nomatch reads
  | cons next msg =>
    rw [argnum] at reads
    split at reads
    · rw [← (Prod.mk.inj (Option.some.inj reads)).2]
      exact Nat.le_succ _
    · rw [← (Prod.mk.inj (Option.some.inj reads)).2]

theorem length_command {argumentIsArray : Bool} {c : UInt16} {msg rest : List UInt16}
    {state next : State} (runs : command argumentIsArray c msg state = some (.next rest next)) :
    rest.length ≤ msg.length := by
  rw [command] at runs
  split at runs
  · rw [← (Iteration.next.inj (Option.some.inj runs)).1]
  · split at runs
    · obtain ⟨put, _, same⟩ := Option.bind_eq_some_iff.mp runs
      rw [← (Iteration.next.inj (Option.some.inj same)).1]
    · split at runs
      · obtain ⟨⟨number, behind⟩, reads, runs⟩ := Option.bind_eq_some_iff.mp runs
        obtain ⟨⟨arg, arguments⟩, _, runs⟩ := Option.bind_eq_some_iff.mp runs
        obtain ⟨buffer, _, runs⟩ := Option.bind_eq_some_iff.mp runs
        obtain ⟨left, skips, same⟩ := Option.bind_eq_some_iff.mp runs
        rw [← (Iteration.next.inj (Option.some.inj same)).1]
        exact (length_skipSpec skips).trans (length_argnum reads)
      · rw [← (Iteration.next.inj (Option.some.inj runs)).1]

/-- An iteration that goes on leaves a shorter message. -/
theorem length_iteration {argumentIsArray : Bool} {msg rest : List UInt16} {state next : State}
    (runs : iteration argumentIsArray state msg = some (.next rest next)) :
    rest.length < msg.length := by
  cases msg with
  | nil => exact nomatch runs
  | cons c msg =>
    rw [iteration.eq_def] at runs
    dsimp only at runs
    split at runs
    · exact nomatch Option.some.inj runs
    · split at runs
      · obtain ⟨put, _, same⟩ := Option.bind_eq_some_iff.mp runs
        rw [← (Iteration.next.inj (Option.some.inj same)).1]
        exact Nat.lt_succ_self _
      · cases msg with
        | nil => exact nomatch runs
        | cons c msg =>
          have shorter := length_command runs
          rw [List.length_cons, List.length_cons]
          omega

/-- The loop. -/
def loop (argumentIsArray : Bool) (msg : List UInt16) (state : State) : Option State :=
  match _runs : iteration argumentIsArray state msg with
  | none => none
  | some .stop => some state
  | some (.next rest next) => loop argumentIsArray rest next
termination_by msg.length
decreasing_by exact length_iteration _runs

/-- What the function leaves. -/
structure Formatted where
  status : Status
  buffer : List UInt16
  returnLength : UInt32
  deriving DecidableEq

/-- `RtlFormatMessage`, with all the `WCHAR`s that can be read from `Message` on. -/
def rtlFormatMessage (message : List UInt16) (ignoreInserts ansi argumentIsArray : Bool)
    (arguments : List (List UInt16)) (buffer : List UInt16) (_bufferSize : UInt32) :
    Option Formatted :=
  if ansi ∨ ignoreInserts then none
  else do
    let state ← loop argumentIsArray message
      { buffer := buffer, count := 0, eos := false, arguments := arguments }
    let buffer ← store state.buffer state.count 0
    some { status := statusSuccess, buffer := buffer, returnLength := .ofNat state.count }

/-! ### Segments -/

/-- A literal text. -/
structure Text where
  characters : List UInt16
  plain : ∀ c ∈ characters, c ≠ 0x25 ∧ c ≠ 0

/-- What stands between the marks of a block `!spec!`. -/
structure Spec where
  characters : List UInt16
  plain : ∀ c ∈ characters, c ≠ 0x21 ∧ c ≠ 0

/-- The number of a positional. -/
structure Number where
  value : Nat
  positive : 1 ≤ value
  small : value ≤ 99

/-- The escapes `%r`, `%n`, `%t`, `%b` and `%%`. -/
inductive Escape where
  | r
  | n
  | t
  | b
  | percent

/-- A segment of a message. -/
inductive Segment where
  | text (literal : Text)
  | escape (kind : Escape)
  | positional (number : Number) (spec : Option Spec)

/-- The digit of a number. -/
def digit (value : Nat) : UInt16 := .ofNat (0x30 + value)

/-- The letter of an escape. -/
def Escape.letter : Escape → UInt16
  | .r => 0x72
  | .n => 0x6e
  | .t => 0x74
  | .b => 0x62
  | .percent => 0x25

/-- The character that an escape means. -/
def Escape.character : Escape → UInt16
  | .r => 0x0d
  | .n => 0x0a
  | .t => 0x09
  | .b => 0x20
  | .percent => 0x25

/-- The digits of the number of a positional. -/
def Number.digits (number : Number) : List UInt16 :=
  if number.value < 10 then [digit number.value]
  else [digit (number.value / 10), digit (number.value % 10)]

/-- The block behind the number of a positional. -/
def block : Option Spec → List UInt16
  | none => []
  | some spec => 0x21 :: spec.characters ++ [0x21]

/-- How a segment is written. -/
def Segment.encode : Segment → List UInt16
  | .text literal => literal.characters
  | .escape kind => [0x25, kind.letter]
  | .positional number spec => 0x25 :: number.digits ++ block spec

/-- What a segment expands to. -/
def Segment.expand (arguments : List (List UInt16)) : Segment → List UInt16
  | .text literal => literal.characters
  | .escape kind => [kind.character]
  | .positional number _ => arguments.getD (number.value - 1) []

/-- There is an argument for a segment. -/
def Segment.Argued (arguments : List (List UInt16)) : Segment → Prop
  | .positional number _ => number.value ≤ arguments.length
  | _ => True

/-- What follows a segment is not taken for a part of it. -/
def Segment.Ends (follow : List UInt16) : Segment → Prop
  | .positional number none =>
    follow.head? ≠ some 0x21 ∧ (number.value < 10 → ∀ c, follow.head? = some c → ¬ isdigit c)
  | _ => True

/-- How segments are written one behind the other. -/
def encodeAll (segments : List Segment) : List UInt16 := segments.flatMap Segment.encode

/-- What segments expand to. -/
def expandAll (arguments : List (List UInt16)) (segments : List Segment) : List UInt16 :=
  segments.flatMap (Segment.expand arguments)

/-- Every segment ends where the next one begins. -/
def Separated (ending : List UInt16) : List Segment → Prop
  | [] => True
  | segment :: segments =>
    segment.Ends (encodeAll segments ++ ending) ∧ Separated ending segments

/-- The end of a message: `%0` and any text, if they are there, and the NUL. -/
def ending : Option (List UInt16) → List UInt16
  | none => [0]
  | some rest => 0x25 :: 0x30 :: rest ++ [0]

/-- A message. -/
def message (segments : List Segment) (marker : Option (List UInt16)) : List UInt16 :=
  encodeAll segments ++ ending marker

/-! ### What has been written -/

/-- The buffer holds what has been written, one stale character, and the rest of what it has held
before. -/
def Written (old done buffer : List UInt16) : Prop :=
  ∃ stale, buffer = done ++ stale :: old.drop (done.length + 1)

theorem written_nil {old : List UInt16} (room : 0 < old.length) : Written old [] old := by
  cases old with
  | nil => exact absurd room (Nat.lt_irrefl 0)
  | cons stale old => exact ⟨stale, rfl⟩

/-- A character is stored behind what has been written. -/
theorem store_written {old done buffer : List UInt16} (written : Written old done buffer)
    (c : UInt16) :
    store buffer done.length c = some (done ++ c :: old.drop (done.length + 1)) := by
  obtain ⟨stale, rfl⟩ := written
  rw [store, if_pos (by rw [List.length_append, List.length_cons]; omega),
    List.set_append_right _ _ le_rfl, Nat.sub_self, List.set_cons_zero]

/-- What is behind a character that has been written is stale. -/
theorem written_append (old done : List UInt16) (c : UInt16)
    (room : done.length + 1 < old.length) :
    Written old (done ++ [c]) (done ++ c :: old.drop (done.length + 1)) := by
  refine ⟨old[done.length + 1], ?_⟩
  rw [List.drop_eq_getElem_cons room, List.append_assoc, List.singleton_append,
    List.length_append, List.length_singleton]

/-- A string is copied behind what has been written. -/
theorem wcscpy_written {old : List UInt16} (arg : List UInt16) {done buffer : List UInt16}
    (written : Written old done buffer) (room : done.length + arg.length < old.length) :
    ∃ next, wcscpy buffer done.length arg = some next ∧ Written old (done ++ arg) next := by
  induction arg generalizing done buffer with
  | nil =>
    rw [wcscpy, store_written written, List.append_nil]
    exact ⟨_, rfl, 0, rfl⟩
  | cons c arg inductionHypothesis =>
    rw [List.length_cons] at room
    have stored := written_append old done c (by omega)
    have longer : (done ++ [c]).length = done.length + 1 := List.length_append
    obtain ⟨next, copied, copy⟩ := inductionHypothesis stored (by rw [longer]; omega)
    refine ⟨next, ?_, ?_⟩
    · rw [longer] at copied
      rw [wcscpy, store_written written, Option.bind_eq_bind, Option.bind_some, copied]
    · rwa [List.append_assoc, List.singleton_append] at copy

/-- The loop has written something and has not come to the end marker. -/
structure Reached (old done : List UInt16) (arguments : List (List UInt16)) (state : State) :
    Prop where
  written : Written old done state.buffer
  count : state.count = done.length
  eos : state.eos = false
  arguments : state.arguments = arguments

/-! ### The loop -/

theorem loop_next {argumentIsArray : Bool} {msg rest : List UInt16} {state next : State}
    (runs : iteration argumentIsArray state msg = some (.next rest next)) :
    loop argumentIsArray msg state = loop argumentIsArray rest next := by
  rw [loop]
  split
  · rename_i same
    exact nomatch same.symm.trans runs
  · rename_i same
    exact nomatch same.symm.trans runs
  · rename_i same
    obtain ⟨rfl, rfl⟩ := Iteration.next.inj (Option.some.inj (same.symm.trans runs))
    rfl

theorem loop_stop {argumentIsArray : Bool} {msg : List UInt16} {state : State}
    (runs : iteration argumentIsArray state msg = some .stop) :
    loop argumentIsArray msg state = some state := by
  rw [loop]
  split
  · rename_i same
    exact nomatch same.symm.trans runs
  · rfl
  · rename_i same
    exact nomatch same.symm.trans runs

section

variable {old done : List UInt16} {arguments : List (List UInt16)} {state : State}

/-- A character is put behind what has been written. -/
theorem put_reached (reached : Reached old done arguments state) (c : UInt16)
    (room : done.length + 1 < old.length) :
    ∃ next, state.put c = some next ∧ Reached old (done ++ [c]) arguments next := by
  have stored := store_written reached.written c
  refine ⟨{ state with buffer := _, count := state.count + 1 }, ?_,
    written_append old done c room, ?_, reached.eos, reached.arguments⟩
  · rw [State.put, reached.count, stored]
    rfl
  · rw [reached.count, List.length_append, List.length_singleton]

/-- An ordinary character is copied. -/
theorem loop_plain (reached : Reached old done arguments state) {c : UInt16} (msg : List UInt16)
    (plain : c ≠ 0x25 ∧ c ≠ 0) (room : done.length + 1 < old.length) :
    ∃ next, Reached old (done ++ [c]) arguments next ∧
      loop true (c :: msg) state = loop true msg next := by
  obtain ⟨next, puts, reached_next⟩ := put_reached reached c room
  refine ⟨next, reached_next, loop_next ?_⟩
  rw [iteration.eq_def]
  dsimp only
  rw [if_neg (not_or.mpr ⟨plain.2, Bool.eq_false_iff.mp reached.eos⟩), if_pos plain.1, puts]
  rfl

/-- A command is carried out. -/
theorem iteration_command (reached : Reached old done arguments state) (c : UInt16)
    (msg : List UInt16) :
    iteration true state (0x25 :: c :: msg) = command true c msg state := by
  rw [iteration.eq_def]
  dsimp only
  rw [if_neg (not_or.mpr ⟨by decide, Bool.eq_false_iff.mp reached.eos⟩),
    if_neg (not_not.mpr rfl)]

/-- A literal text is copied. -/
theorem loop_text (characters : List UInt16) (plain : ∀ c ∈ characters, c ≠ 0x25 ∧ c ≠ 0)
    (reached : Reached old done arguments state) (rest : List UInt16)
    (room : done.length + characters.length < old.length) :
    ∃ next, Reached old (done ++ characters) arguments next ∧
      loop true (characters ++ rest) state = loop true rest next := by
  induction characters generalizing done state with
  | nil => exact ⟨state, by rwa [List.append_nil], rfl⟩
  | cons c characters inductionHypothesis =>
    rw [List.length_cons] at room
    obtain ⟨middle, first, steps⟩ := loop_plain reached (characters ++ rest)
      (plain c List.mem_cons_self) (by omega)
    obtain ⟨next, others, runs⟩ := inductionHypothesis
      (fun other member => plain other (List.mem_cons_of_mem c member)) first
      (by rw [List.length_append, List.length_singleton]; omega)
    rw [List.append_assoc, List.singleton_append] at others
    exact ⟨next, others, steps.trans runs⟩

/-- An escape gives its character. -/
theorem loop_escape (kind : Escape) (reached : Reached old done arguments state)
    (rest : List UInt16) (room : done.length + 1 < old.length) :
    ∃ next, Reached old (done ++ [kind.character]) arguments next ∧
      loop true (0x25 :: kind.letter :: rest) state = loop true rest next := by
  obtain ⟨next, puts, reached_next⟩ := put_reached reached kind.character room
  refine ⟨next, reached_next, loop_next ?_⟩
  have escape : escaped kind.letter = some kind.character := by cases kind <;> rfl
  have other : kind.letter ≠ 0x30 := by cases kind <;> decide
  rw [iteration_command reached, command, if_neg other, escape]
  simp only [puts]
  rfl

/-- The block behind a positional is skipped to its second mark. -/
theorem skipTo_spec (spec : Spec) (rest : List UInt16) :
    skipTo (spec.characters ++ 0x21 :: rest) = some rest := by
  obtain ⟨characters, plain⟩ := spec
  induction characters with
  | nil => rfl
  | cons c characters inductionHypothesis =>
    obtain ⟨other, character⟩ := plain c List.mem_cons_self
    rw [List.cons_append, skipTo, if_neg character, if_neg other]
    exact inductionHypothesis fun next member => plain next (List.mem_cons_of_mem c member)

/-- What is skipped behind a positional is its block. -/
theorem skipSpec_block (spec : Option Spec) {rest : List UInt16} (some_rest : rest ≠ [])
    (ends : spec = none → rest.head? ≠ some 0x21) : skipSpec (block spec ++ rest) = some rest := by
  cases spec with
  | none =>
    cases rest with
    | nil => exact absurd rfl some_rest
    | cons c rest =>
      have other : c ≠ 0x21 := fun same => ends rfl (congrArg some same)
      rw [block, List.nil_append, skipSpec, if_neg other]
  | some spec =>
    rw [block, List.append_assoc, List.cons_append, skipSpec, if_pos rfl]
    exact skipTo_spec spec rest

theorem wtoi_digit : ∀ value < 10, wtoi (digit value) = value := by decide

theorem isdigit_digit : ∀ value < 10, isdigit (digit value) = true := by decide

theorem escaped_digit : ∀ value < 10, escaped (digit value) = none := by decide

theorem digit_bounds : ∀ value < 10, 1 ≤ value →
    digit value ≠ 0x30 ∧ 0x31 ≤ digit value ∧ digit value ≤ 0x39 := by decide

/-- The first digit of a positional, and the others. -/
def Number.first (number : Number) : Nat :=
  if number.value < 10 then number.value else number.value / 10

theorem first_bounds (number : Number) : number.first < 10 ∧ 1 ≤ number.first := by
  have positive := number.positive
  have small := number.small
  rw [Number.first]
  split <;> omega

/-- The number of a positional is read, and what is behind its digits is left. -/
theorem argnum_digits (number : Number) {rest : List UInt16} (some_rest : rest ≠ [])
    (ends : number.value < 10 → ∀ c, rest.head? = some c → ¬ isdigit c) :
    ∃ others, number.digits = digit number.first :: others ∧
      argnum (digit number.first) (others ++ rest) = some (number.value, rest) := by
  have small := number.small
  rw [Number.digits, Number.first]
  by_cases one : number.value < 10
  · rw [if_pos one, if_pos one]
    refine ⟨[], rfl, ?_⟩
    cases rest with
    | nil => exact absurd rfl some_rest
    | cons c rest =>
      rw [List.nil_append, argnum, if_neg (ends one c rfl), wtoi_digit _ one]
  · rw [if_neg one, if_neg one]
    refine ⟨[digit (number.value % 10)], rfl, ?_⟩
    rw [List.singleton_append, argnum, if_pos (isdigit_digit _ (Nat.mod_lt _ (by decide))),
      wtoi_digit _ (by omega), wtoi_digit _ (Nat.mod_lt _ (by decide)), Nat.div_add_mod']

/-- What follows the digits of a positional does not belong to them. -/
theorem digits_end {number : Number} {spec : Option Spec} {rest : List UInt16}
    (ends : (Segment.positional number spec).Ends rest) (one : number.value < 10) :
    ∀ c, (block spec ++ rest).head? = some c → ¬ isdigit c := by
  cases spec with
  | none => exact ends.2 one
  | some spec =>
    intro c same
    rw [← Option.some.inj same]
    decide

/-- A positional gives its argument. -/
theorem loop_positional {number : Number} {spec : Option Spec}
    (reached : Reached old done arguments state) {rest : List UInt16} (some_rest : rest ≠ [])
    (ends : (Segment.positional number spec).Ends rest) (argued : number.value ≤ arguments.length)
    (room : done.length + (arguments.getD (number.value - 1) []).length < old.length) :
    ∃ next, Reached old (done ++ arguments.getD (number.value - 1) []) arguments next ∧
      loop true ((Segment.positional number spec).encode ++ rest) state = loop true rest next := by
  have behind : block spec ++ rest ≠ [] := List.append_ne_nil_of_right_ne_nil _ some_rest
  obtain ⟨others, digits, reads⟩ := argnum_digits number behind (digits_end ends)
  obtain ⟨small, positive⟩ := first_bounds number
  obtain ⟨marker, low, high⟩ := digit_bounds _ small positive
  obtain ⟨buffer, copied, copy⟩ := wcscpy_written _ reached.written room
  have argument : arguments[number.value - 1]? = some (arguments.getD (number.value - 1) []) := by
    have less : number.value - 1 < arguments.length := by
      have positive := number.positive
      omega
    rw [List.getElem?_eq_getElem less, List.getD_eq_getElem?_getD,
      List.getElem?_eq_getElem less, Option.getD_some]
  have skipped : skipSpec (block spec ++ rest) = some rest := by
    refine skipSpec_block spec some_rest fun plain => ?_
    subst plain
    exact ends.1
  refine ⟨{ state with
      buffer := buffer
      count := state.count + (arguments.getD (number.value - 1) []).length },
    ⟨copy, ?_, reached.eos, reached.arguments⟩, loop_next ?_⟩
  · rw [reached.count, List.length_append]
  · rw [Segment.encode, digits, List.cons_append, List.cons_append, List.append_assoc,
      List.cons_append, iteration_command reached, command, if_neg marker,
      escaped_digit _ small]
    simp only [low, high, and_self, if_true, reads, getArg, reached.arguments, argument,
      reached.count, copied, skipped, Option.map_some, Option.bind_eq_bind, Option.bind_some]

theorem ending_ne_nil (marker : Option (List UInt16)) : ending marker ≠ [] := by
  cases marker with
  | none => exact List.cons_ne_nil _ _
  | some rest => exact List.cons_ne_nil _ _

/-- A segment gives its expansion. -/
theorem loop_segment {segment : Segment} (reached : Reached old done arguments state)
    {rest : List UInt16} (some_rest : rest ≠ []) (ends : segment.Ends rest)
    (argued : segment.Argued arguments)
    (room : done.length + (segment.expand arguments).length < old.length) :
    ∃ next, Reached old (done ++ segment.expand arguments) arguments next ∧
      loop true (segment.encode ++ rest) state = loop true rest next := by
  cases segment with
  | text literal => exact loop_text literal.characters literal.plain reached rest room
  | escape kind => exact loop_escape kind reached rest room
  | positional number spec => exact loop_positional reached some_rest ends argued room

/-- Segments give the concatenation of their expansions. -/
theorem loop_segments {segments : List Segment} (reached : Reached old done arguments state)
    {rest : List UInt16} (some_rest : rest ≠ []) (separated : Separated rest segments)
    (argued : ∀ segment ∈ segments, segment.Argued arguments)
    (room : done.length + (expandAll arguments segments).length < old.length) :
    ∃ next, Reached old (done ++ expandAll arguments segments) arguments next ∧
      loop true (encodeAll segments ++ rest) state = loop true rest next := by
  induction segments generalizing done state with
  | nil => exact ⟨state, by rwa [expandAll, List.flatMap_nil, List.append_nil], rfl⟩
  | cons segment segments inductionHypothesis =>
    rw [expandAll, List.flatMap_cons, List.length_append] at room
    rw [encodeAll, List.flatMap_cons, List.append_assoc]
    obtain ⟨ends, separated⟩ := separated
    obtain ⟨middle, first, begins⟩ := loop_segment reached
      (List.append_ne_nil_of_right_ne_nil _ some_rest) ends
      (argued segment List.mem_cons_self) (by omega)
    obtain ⟨next, others, goes_on⟩ := inductionHypothesis first separated
      (fun other member => argued other (List.mem_cons_of_mem segment member))
      (by rw [List.length_append, expandAll]; omega)
    rw [List.append_assoc] at others
    exact ⟨next, others, begins.trans goes_on⟩

theorem iteration_stop {c : UInt16} (stops : c = 0 ∨ state.eos = true) (msg : List UInt16) :
    iteration true state (c :: msg) = some .stop := by
  rw [iteration.eq_def]
  exact if_pos stops

/-- At its end the loop stops with what has been written. -/
theorem loop_ending (reached : Reached old done arguments state) (marker : Option (List UInt16)) :
    ∃ next, loop true (ending marker) state = some next ∧ Written old done next.buffer ∧
      next.count = done.length := by
  cases marker with
  | none =>
    exact ⟨state, loop_stop (iteration_stop (.inl rfl) []), reached.written, reached.count⟩
  | some rest =>
    refine ⟨{ state with eos := true }, ?_, reached.written, reached.count⟩
    have marks : iteration true state (0x25 :: 0x30 :: (rest ++ [0])) =
        some (.next (rest ++ [0]) { state with eos := true }) := by
      rw [iteration_command reached, command, if_pos rfl]
    rw [ending, List.cons_append, List.cons_append, loop_next marks]
    cases rest with
    | nil => exact loop_stop (iteration_stop (.inl rfl) [])
    | cons c rest => exact loop_stop (iteration_stop (.inr rfl) (rest ++ [0]))

end

/-- `%1!s! of %12%n%0` and more, with twelve arguments and a stale buffer. -/
def exampleSegments : List Segment :=
  [.positional ⟨1, by decide, by decide⟩ (some ⟨[0x73], by simp⟩),
    .text ⟨[0x20, 0x6f, 0x66, 0x20], by simp⟩,
    .positional ⟨12, by decide, by decide⟩ none,
    .escape .n]

def exampleArguments : List (List UInt16) :=
  [0x35, 0x30] :: List.replicate 10 [] ++ [[0x39]]

end Nloader.FormatMessage
