/-
This file reads a message of `RtlFormatMessage` as the tokens that a scanner finds in it. A run of
the function performs the tokens one after the other, and a message in which the scan comes to no
end is not formatted.

A positional takes an argument by an index. An array is indexed anew at every positional; a
`va_list` is a cursor, and a positional takes the argument as far behind the one before as the
number says that `get_arg` is given.
-/

import Nloader.FormatMessage
import Nloader.Library.Scanner

namespace Nloader.FormatMessage

open Nloader.Events

/-! ### The scanner -/

/-- What is put into the buffer: a character, or the argument of a positional. -/
inductive Token where
  | character (c : UInt16)
  | argument (number : Nat)

/-- Where the scan is: in ordinary text, behind a `%`, behind the first digit of a positional,
behind its number, within its block, or behind the end marker. -/
inductive Mode where
  | plain
  | percent
  | number (first : UInt16)
  | behind
  | block
  | ended
  deriving DecidableEq

def readPlain (c : UInt16) : List Token × Option Mode :=
  if c = 0 then ([], none)
  else if c = 0x25 then ([], some .percent)
  else ([.character c], some .plain)

def readPercent (c : UInt16) : List Token × Option Mode :=
  if c = 0x30 then ([], some .ended)
  else
    match escaped c with
    | some character => ([.character character], some .plain)
    | none => if 0x31 ≤ c ∧ c ≤ 0x39 then ([], some (.number c)) else ([], some .plain)

def readBehind (c : UInt16) : List Token × Option Mode :=
  if c = 0x21 then ([], some .block) else readPlain c

def readNumber (first c : UInt16) : List Token × Option Mode :=
  if isdigit c then ([.argument (wtoi first * 10 + wtoi c)], some .behind)
  else (.argument (wtoi first) :: (readBehind c).1, (readBehind c).2)

def readBlock (c : UInt16) : List Token × Option Mode :=
  if c = 0 then ([], none) else if c = 0x21 then ([], some .plain) else ([], some .block)

/-- The scanner of messages. -/
def scanner : Scanner Mode UInt16 Token where
  read
    | .plain => readPlain
    | .percent => readPercent
    | .number first => readNumber first
    | .behind => readBehind
    | .block => readBlock
    | .ended => fun _ => ([], none)

/-- The tokens of a message, from a mode on. -/
abbrev tokens : Mode → List UInt16 → Option (List Token) := scanner.tokens

/-- The scan of a message comes to its end. -/
def Complete (message : List UInt16) : Prop := (tokens .plain message).isSome

instance (message : List UInt16) : Decidable (Complete message) :=
  inferInstanceAs (Decidable (_ = true))

/-- The numbers of the positionals among some tokens. -/
def numbers : List Token → List Nat
  | [] => []
  | .character _ :: found => numbers found
  | .argument number :: found => number :: numbers found

/-- The positionals of a message. -/
def positionals (message : List UInt16) : List Nat := numbers ((tokens .plain message).getD [])

theorem tokens_block (msg : List UInt16) :
    tokens .block msg = (skipTo msg).bind (tokens .plain) := by
  induction msg with
  | nil => rfl
  | cons c msg inductionHypothesis =>
    rw [skipTo]
    by_cases final : c = 0
    · have reads : scanner.read .block c = ([], none) := if_pos final
      have ends : scanner.read .plain c = ([], none) := if_pos final
      rw [if_pos final, tokens, Scanner.tokens_end reads, Option.bind_some,
        Scanner.tokens_end ends]
    · rw [if_neg final]
      by_cases mark : c = 0x21
      · have reads : scanner.read .block c = ([], some .plain) :=
          (if_neg final).trans (if_pos mark)
        rw [if_pos mark, tokens, Scanner.tokens_silent reads, Option.bind_some]
      · have reads : scanner.read .block c = ([], some .block) :=
          (if_neg final).trans (if_neg mark)
        rw [if_neg mark, tokens, Scanner.tokens_silent reads]
        exact inductionHypothesis

theorem tokens_behind (msg : List UInt16) :
    tokens .behind msg = (skipSpec msg).bind (tokens .plain) := by
  cases msg with
  | nil => rfl
  | cons c msg =>
    rw [skipSpec]
    by_cases mark : c = 0x21
    · have reads : scanner.read .behind c = ([], some .block) := if_pos mark
      rw [if_pos mark, tokens, Scanner.tokens_silent reads]
      exact tokens_block msg
    · have reads : scanner.read .behind c = scanner.read .plain c := if_neg mark
      rw [if_neg mark, Option.bind_some, tokens, Scanner.tokens_cons, Scanner.tokens_cons, reads]

theorem tokens_number (first : UInt16) (msg : List UInt16) :
    tokens (.number first) msg =
      (argnum first msg).bind fun read =>
        (skipSpec read.2).bind fun rest =>
          (tokens .plain rest).map (.argument read.1 :: ·) := by
  have skipped (number : Nat) (msg : List UInt16) :
      ((skipSpec msg).bind fun rest => (tokens .plain rest).map (.argument number :: ·)) =
        (tokens .behind msg).map (.argument number :: ·) := by
    rw [tokens_behind, Option.map_bind]
    rfl
  cases msg with
  | nil => rfl
  | cons c msg =>
    rw [argnum]
    by_cases second : isdigit c
    · have reads : scanner.read (.number first) c =
          ([.argument (wtoi first * 10 + wtoi c)], some .behind) := if_pos second
      rw [if_pos second, tokens, Scanner.tokens_next reads, Option.bind_some, skipped]
      rfl
    · have reads : scanner.read (.number first) c =
          (.argument (wtoi first) :: (scanner.read .behind c).1, (scanner.read .behind c).2) :=
        if_neg second
      rw [if_neg second, Option.bind_some, skipped, tokens, Scanner.tokens_cons,
        Scanner.tokens_cons, reads]
      dsimp only
      cases (scanner.read .behind c).2 with
      | none => rfl
      | some next => rw [Option.map_map]; rfl

/-! ### Tokens are performed -/

/-- A token is put into the buffer. -/
def perform (argumentIsArray : Bool) (state : State) : Token → Option State
  | .character c => state.put c
  | .argument number => do
    let (arg, arguments) ← getArg (number - 1) state.arguments argumentIsArray
    let buffer ← wcscpy state.buffer state.count arg
    some
      { buffer := buffer
        count := state.count + arg.length
        eos := state.eos
        arguments := arguments }

/-- A state with the end marker forgotten. -/
def State.settled (state : State) : State := { state with eos := false }

theorem settled_of_eos {state : State} (going : state.eos = false) : state.settled = state := by
  rw [State.settled, ← going]

theorem loop_none {argumentIsArray : Bool} {msg : List UInt16} {state : State}
    (runs : iteration argumentIsArray state msg = none) :
    loop argumentIsArray msg state = none := by
  rw [loop]
  split
  · rfl
  · rename_i same
    exact nomatch same.symm.trans runs
  · rename_i same
    exact nomatch same.symm.trans runs

/-- An iteration that performs a token, if it can, and goes on with the rest of the message. -/
theorem loop_perform {argumentIsArray : Bool} {msg rest : List UInt16} {state : State}
    {token : Token}
    (runs : iteration argumentIsArray state msg =
      (perform argumentIsArray state token).map (.next rest)) :
    loop argumentIsArray msg state =
      (perform argumentIsArray state token).bind (loop argumentIsArray rest) := by
  cases performed : perform argumentIsArray state token with
  | none =>
    rw [performed] at runs
    rw [loop_none runs, Option.bind_none]
  | some next =>
    rw [performed] at runs
    rw [loop_next runs, Option.bind_some]

theorem perform_eos {argumentIsArray : Bool} {state next : State} {token : Token}
    (performed : perform argumentIsArray state token = some next) : next.eos = state.eos := by
  cases token with
  | character c =>
    obtain ⟨buffer, _, same⟩ := Option.bind_eq_some_iff.mp performed
    rw [← Option.some.inj same]
  | argument number =>
    obtain ⟨_, _, performed⟩ := Option.bind_eq_some_iff.mp performed
    obtain ⟨_, _, same⟩ := Option.bind_eq_some_iff.mp performed
    rw [← Option.some.inj same]

/-- A command that is a positional is skipped with its block and performed. -/
theorem command_argument (argumentIsArray : Bool) {c : UInt16} (msg : List UInt16) (state : State)
    (low : 0x31 ≤ c) (high : c ≤ 0x39) (other : c ≠ 0x30) (letter : escaped c = none) :
    command argumentIsArray c msg state =
      (argnum c msg).bind fun read =>
        (skipSpec read.2).bind fun rest =>
          (perform argumentIsArray state (.argument read.1)).map (.next rest) := by
  rw [command, if_neg other, letter]
  dsimp only
  rw [if_pos ⟨low, high⟩]
  cases argnum c msg with
  | none => rfl
  | some read =>
    dsimp only [perform, Option.bind_eq_bind, Option.bind_some]
    cases getArg (read.1 - 1) state.arguments argumentIsArray with
    | none => cases skipSpec read.2 <;> rfl
    | some found =>
      dsimp only [Option.bind_eq_bind, Option.bind_some]
      cases wcscpy state.buffer state.count found.1 with
      | none => cases skipSpec read.2 <;> rfl
      | some buffer => cases skipSpec read.2 <;> rfl

/-- The loop performs the tokens of a message one after the other. -/
def Performs (argumentIsArray : Bool) (msg : List UInt16) (state : State) : Prop :=
  (loop argumentIsArray msg state).map State.settled =
    (tokens .plain msg).bind fun found => found.foldlM (perform argumentIsArray) state

section

variable {argumentIsArray : Bool} {msg rest : List UInt16} {state : State}

/-- An iteration with a token. -/
theorem performs_token {token : Token}
    (runs : iteration argumentIsArray state msg =
      (perform argumentIsArray state token).map (.next rest))
    (scans : tokens .plain msg = (tokens .plain rest).map (token :: ·))
    (others : ∀ next, next.eos = state.eos → Performs argumentIsArray rest next) :
    Performs argumentIsArray msg state := by
  rw [Performs, loop_perform runs, scans, Option.map_bind, Option.bind_map]
  simp only [Function.comp_def, List.foldlM_cons, Option.bind_eq_bind]
  rw [Option.bind_comm]
  exact Option.bind_congr fun next performed => others next (perform_eos performed)

/-- An iteration without a token. -/
theorem performs_silent (runs : iteration argumentIsArray state msg = some (.next rest state))
    (scans : tokens .plain msg = tokens .plain rest)
    (others : Performs argumentIsArray rest state) :
    Performs argumentIsArray msg state := by
  rw [Performs, loop_next runs, scans]
  exact others

/-- An iteration that reads beyond the message. -/
theorem performs_none (runs : iteration argumentIsArray state msg = none)
    (scans : tokens .plain msg = none) : Performs argumentIsArray msg state := by
  rw [Performs, loop_none runs, scans]
  rfl

/-- A positional is skipped with its block and performed. -/
theorem performs_argument {c : UInt16} (low : 0x31 ≤ c) (high : c ≤ 0x39) (other : c ≠ 0x30)
    (letter : escaped c = none)
    (runs : iteration argumentIsArray state (0x25 :: c :: msg) =
      command argumentIsArray c msg state)
    (scans : tokens .plain (0x25 :: c :: msg) = tokens .percent (c :: msg))
    (others : ∀ rest, rest.length ≤ msg.length → ∀ next, next.eos = state.eos →
      Performs argumentIsArray rest next) :
    Performs argumentIsArray (0x25 :: c :: msg) state := by
  have first : scanner.read .percent c = ([], some (.number c)) := by
    refine (if_neg other).trans ?_
    rw [letter]
    exact if_pos ⟨low, high⟩
  rw [command_argument argumentIsArray msg state low high other letter] at runs
  have numbered : tokens .plain (0x25 :: c :: msg) = _ :=
    (scans.trans (Scanner.tokens_silent first)).trans (tokens_number c msg)
  cases reads : argnum c msg with
  | none =>
    rw [reads, Option.bind_none] at runs numbered
    exact performs_none runs numbered
  | some read =>
    rw [reads, Option.bind_some] at runs numbered
    cases skips : skipSpec read.2 with
    | none =>
      rw [skips, Option.bind_none] at runs numbered
      exact performs_none runs numbered
    | some rest =>
      rw [skips, Option.bind_some] at runs numbered
      exact performs_token runs numbered
        (others rest ((length_skipSpec skips).trans (length_argnum reads)))

/-- The end marker ends the message at the next character, whatever it is. -/
theorem performs_marker (going : state.eos = false)
    (runs : iteration argumentIsArray state (0x25 :: 0x30 :: msg) =
      some (.next msg { state with eos := true }))
    (scans : tokens .plain (0x25 :: 0x30 :: msg) = tokens .percent (0x30 :: msg)) :
    Performs argumentIsArray (0x25 :: 0x30 :: msg) state := by
  have marks : scanner.read .percent 0x30 = ([], some .ended) := rfl
  rw [Performs, loop_next runs, scans, tokens, Scanner.tokens_silent marks]
  cases msg with
  | nil =>
    rw [loop_none rfl]
    rfl
  | cons c msg =>
    have ends : scanner.read .ended c = ([], none) := rfl
    rw [loop_stop (by rw [iteration.eq_def]; exact if_pos (.inr rfl)), Scanner.tokens_end ends,
      Option.map_some, Option.bind_some, State.settled, ← going]
    rfl

/-- The commands. -/
theorem performs_command {c : UInt16} (going : state.eos = false)
    (others : ∀ rest, rest.length ≤ msg.length → ∀ next, next.eos = state.eos →
      Performs argumentIsArray rest next) :
    Performs argumentIsArray (0x25 :: c :: msg) state := by
  have percent : scanner.read .plain 0x25 = ([], some .percent) := rfl
  have scans : tokens .plain (0x25 :: c :: msg) = tokens .percent (c :: msg) :=
    Scanner.tokens_silent percent
  have runs : iteration argumentIsArray state (0x25 :: c :: msg) =
      command argumentIsArray c msg state := by
    rw [iteration.eq_def]
    dsimp only
    rw [if_neg (not_or.mpr ⟨by decide, Bool.eq_false_iff.mp going⟩), if_neg (not_not.mpr rfl)]
  by_cases marker : c = 0x30
  · subst marker
    exact performs_marker going (runs.trans (if_pos rfl)) scans
  · cases letter : escaped c with
    | some character =>
      have reads : scanner.read .percent c = ([.character character], some .plain) := by
        refine (if_neg marker).trans ?_
        rw [letter]
      refine performs_token (runs.trans ?_)
        (scans.trans (Scanner.tokens_next reads)) (others msg le_rfl)
      rw [command, if_neg marker, letter]
      exact Option.map_eq_bind.symm
    | none =>
      by_cases digits : 0x31 ≤ c ∧ c ≤ 0x39
      · exact performs_argument digits.1 digits.2 marker letter runs scans others
      · have reads : scanner.read .percent c = ([], some .plain) := by
          refine (if_neg marker).trans ?_
          rw [letter]
          exact if_neg digits
        refine performs_silent (runs.trans ?_) (scans.trans (Scanner.tokens_silent reads))
          (others msg le_rfl state rfl)
        rw [command, if_neg marker, letter]
        exact if_neg digits

end

theorem performs (argumentIsArray : Bool) (msg : List UInt16) (state : State)
    (going : state.eos = false) : Performs argumentIsArray msg state := by
  induction length : msg.length using Nat.strong_induction_on generalizing msg state with
  | h _ inductionHypothesis =>
  subst length
  cases msg with
  | nil =>
    rw [Performs, loop_none rfl]
    rfl
  | cons c msg =>
    by_cases final : c = 0
    · have reads : scanner.read .plain c = ([], none) := if_pos final
      rw [Performs, loop_stop (by rw [iteration.eq_def]; exact if_pos (.inl final)), tokens,
        Scanner.tokens_end reads, Option.map_some, settled_of_eos going]
      rfl
    · have stays : ¬ (c = 0 ∨ state.eos = true) :=
        not_or.mpr ⟨final, Bool.eq_false_iff.mp going⟩
      by_cases mark : c = 0x25
      · subst mark
        cases msg with
        | nil =>
          have runs : iteration argumentIsArray state [0x25] = none := by
            rw [iteration.eq_def]
            dsimp only
            rw [if_neg stays, if_neg (not_not.mpr rfl)]
          rw [Performs, loop_none runs]
          rfl
        | cons c msg =>
          refine performs_command going fun rest shorter next same => ?_
          exact inductionHypothesis rest.length (by rw [List.length_cons, List.length_cons]; omega)
            rest next (same.trans going) rfl
      · have reads : scanner.read .plain c = ([.character c], some .plain) :=
          (if_neg final).trans (if_neg mark)
        refine performs_token ?_ (Scanner.tokens_next reads)
          fun next same => inductionHypothesis msg.length (Nat.lt_succ_self _) msg next
            (same.trans going) rfl
        rw [iteration.eq_def]
        dsimp only
        rw [if_neg stays, if_pos mark, perform]
        exact Option.map_eq_bind.symm

/-! ### The arguments that are taken -/

/-- The arguments that a cursor has left. -/
def remaining (argumentIsArray : Bool) (cursor : Nat) (arguments : List (List UInt16)) :
    List (List UInt16) :=
  if argumentIsArray then arguments else arguments.drop cursor

/-- The index of the argument that a positional takes. -/
def chosen (argumentIsArray : Bool) (cursor number : Nat) : Nat :=
  if argumentIsArray then number - 1 else cursor + max (number - 1) 1 - 1

/-- The cursor behind a positional. -/
def advance (argumentIsArray : Bool) (cursor number : Nat) : Nat :=
  if argumentIsArray then cursor else cursor + max (number - 1) 1

/-- The indices of the arguments that positionals take one after the other. -/
def selected (argumentIsArray : Bool) : Nat → List Nat → List Nat
  | _, [] => []
  | cursor, number :: others =>
    chosen argumentIsArray cursor number ::
      selected argumentIsArray (advance argumentIsArray cursor number) others

/-- Tokens with arguments of given indices at their positionals. -/
def expandAt (arguments : List (List UInt16)) : List Token → List Nat → List UInt16
  | [], _ => []
  | .character c :: found, indices => c :: expandAt arguments found indices
  | .argument _ :: _, [] => []
  | .argument _ :: found, index :: indices =>
    arguments.getD index [] ++ expandAt arguments found indices

/-- What a message gives if its positionals take the arguments that they do. -/
def taken (argumentIsArray : Bool) (arguments : List (List UInt16)) (found : List Token) :
    List UInt16 :=
  expandAt arguments found (selected argumentIsArray 0 (numbers found))

theorem getArg_remaining {argumentIsArray : Bool} {cursor number : Nat}
    {arguments : List (List UInt16)}
    (inside : chosen argumentIsArray cursor number < arguments.length) :
    getArg (number - 1) (remaining argumentIsArray cursor arguments) argumentIsArray =
      some (arguments.getD (chosen argumentIsArray cursor number) [],
        remaining argumentIsArray (advance argumentIsArray cursor number) arguments) := by
  rw [List.getD_eq_getElem?_getD, List.getElem?_eq_getElem inside, Option.getD_some]
  cases argumentIsArray with
  | true =>
    change number - 1 < arguments.length at inside
    exact congrArg (Option.map _) (List.getElem?_eq_getElem inside)
  | false =>
    have same : cursor + (max (number - 1) 1 - 1) = cursor + max (number - 1) 1 - 1 := by omega
    change cursor + max (number - 1) 1 - 1 < arguments.length at inside
    have argument : (arguments.drop cursor)[max (number - 1) 1 - 1]? =
        some (arguments[cursor + max (number - 1) 1 - 1]) := by
      rw [List.getElem?_drop, same, List.getElem?_eq_getElem inside]
    have others : (arguments.drop cursor).drop (max (number - 1) 1) =
        arguments.drop (cursor + max (number - 1) 1) := List.drop_drop
    refine (congrArg (Option.map _) argument).trans ?_
    rw [Option.map_some]
    exact congrArg some (congrArg (Prod.mk _) others)

/-- Tokens are performed to what is taken for them. -/
theorem perform_tokens {argumentIsArray : Bool} {old : List UInt16}
    {arguments : List (List UInt16)} {found : List Token} {cursor : Nat} {state : State}
    {done : List UInt16}
    (reached : Reached old done (remaining argumentIsArray cursor arguments) state)
    (inside : ∀ index ∈ selected argumentIsArray cursor (numbers found), index < arguments.length)
    (room : done.length +
      (expandAt arguments found (selected argumentIsArray cursor (numbers found))).length <
        old.length) :
    ∃ next, found.foldlM (perform argumentIsArray) state = some next ∧
      Written old (done ++ expandAt arguments found
        (selected argumentIsArray cursor (numbers found))) next.buffer ∧
      next.count = (done ++ expandAt arguments found
        (selected argumentIsArray cursor (numbers found))).length := by
  induction found generalizing cursor state done with
  | nil =>
    refine ⟨state, rfl, ?_⟩
    rw [expandAt, List.append_nil]
    exact ⟨reached.written, reached.count⟩
  | cons token found inductionHypothesis =>
    cases token with
    | character c =>
      rw [numbers] at inside
      rw [numbers, expandAt, List.length_cons] at room
      obtain ⟨next, puts, reached_next⟩ := put_reached reached c (by omega)
      obtain ⟨last, runs, written, count⟩ := inductionHypothesis reached_next inside
        (by rw [List.length_append, List.length_singleton]; omega)
      rw [List.append_assoc, List.singleton_append] at written count
      refine ⟨last, ?_, written, count⟩
      rw [List.foldlM_cons, perform, puts]
      exact runs
    | argument number =>
      rw [numbers, selected] at inside
      rw [numbers, selected, expandAt, List.length_append] at room
      have takes := getArg_remaining (inside _ List.mem_cons_self)
      obtain ⟨buffer, copied, copy⟩ := wcscpy_written _ reached.written
        ((Nat.add_le_add_left (Nat.le_add_right _ _) _).trans_lt room)
      have reached_next : Reached old
          (done ++ arguments.getD (chosen argumentIsArray cursor number) [])
          (remaining argumentIsArray (advance argumentIsArray cursor number) arguments)
          { buffer := buffer
            count := state.count +
              (arguments.getD (chosen argumentIsArray cursor number) []).length
            eos := state.eos
            arguments :=
              remaining argumentIsArray (advance argumentIsArray cursor number) arguments } :=
        ⟨copy, by rw [reached.count, List.length_append], reached.eos, rfl⟩
      obtain ⟨last, runs, written, count⟩ := inductionHypothesis reached_next
        (fun index member => inside index (List.mem_cons_of_mem _ member))
        (by rw [List.length_append]; omega)
      rw [List.append_assoc] at written count
      refine ⟨last, ?_, written, count⟩
      rw [List.foldlM_cons, perform, reached.arguments, takes]
      dsimp only [Option.bind_eq_bind, Option.bind_some]
      rw [reached.count, copied]
      rw [reached.count] at runs
      exact runs

/-- What the function leaves of a message that has come to its end. -/
def leaves (buffer text : List UInt16) : Formatted :=
  { status := statusSuccess
    buffer := text ++ 0 :: buffer.drop (text.length + 1)
    returnLength := .ofNat text.length }

/-- What the function does behind the loop. -/
def finish (state : State) : Option Formatted :=
  (store state.buffer state.count 0).map fun buffer =>
    { status := statusSuccess, buffer := buffer, returnLength := .ofNat state.count }

/-- The state before the loop. -/
def start (arguments : List (List UInt16)) (buffer : List UInt16) : State :=
  { buffer := buffer, count := 0, eos := false, arguments := arguments }

/-- The function performs the tokens of its message, and finishes. -/
theorem rtlFormatMessage_eq (message : List UInt16) (argumentIsArray : Bool)
    (arguments : List (List UInt16)) (buffer : List UInt16) (bufferSize : UInt32) :
    rtlFormatMessage message false false argumentIsArray arguments buffer bufferSize =
      (tokens .plain message).bind fun found =>
        (found.foldlM (perform argumentIsArray) (start arguments buffer)).bind finish := by
  have finishes (state : State) : finish state.settled = finish state := rfl
  have loops : rtlFormatMessage message false false argumentIsArray arguments buffer bufferSize =
      (loop argumentIsArray message (start arguments buffer)).bind finish := by
    rw [rtlFormatMessage, if_neg (by decide)]
    refine Option.bind_congr fun state _ => ?_
    exact Option.map_eq_bind.symm
  have performed := performs argumentIsArray message (start arguments buffer) rfl
  rw [loops, ← Option.bind_assoc, ← performed, Option.bind_map]
  rfl

/-- A complete message is formatted to what is taken for its tokens. -/
theorem rtlFormatMessage_tokens {message : List UInt16} {found : List Token}
    (scans : tokens .plain message = some found) {argumentIsArray : Bool}
    {arguments : List (List UInt16)} {buffer : List UInt16} (bufferSize : UInt32)
    (inside : ∀ index ∈ selected argumentIsArray 0 (numbers found), index < arguments.length)
    (room : (taken argumentIsArray arguments found).length < buffer.length) :
    rtlFormatMessage message false false argumentIsArray arguments buffer bufferSize =
      some (leaves buffer (taken argumentIsArray arguments found)) := by
  have begins : Reached buffer [] (remaining argumentIsArray 0 arguments)
      (start arguments buffer) := by
    refine ⟨written_nil (Nat.zero_lt_of_lt room), rfl, rfl, ?_⟩
    cases argumentIsArray <;> rfl
  obtain ⟨last, runs, written, count⟩ := perform_tokens begins inside
    (by rwa [List.length_nil, Nat.zero_add])
  rw [List.nil_append] at written count
  rw [rtlFormatMessage_eq, scans, Option.bind_some, runs, Option.bind_some, finish, count,
    store_written written]
  rfl

/-- A message that is not complete is not formatted. -/
theorem rtlFormatMessage_none {message : List UInt16} (incomplete : ¬ Complete message)
    (argumentIsArray : Bool) (arguments : List (List UInt16)) (buffer : List UInt16)
    (bufferSize : UInt32) :
    rtlFormatMessage message false false argumentIsArray arguments buffer bufferSize = none := by
  rw [rtlFormatMessage_eq, Option.not_isSome_iff_eq_none.mp incomplete, Option.bind_none]

/-! ### What is read -/

/-- Whatever follows the NUL, a run that comes to an end does so as well if nothing behind the NUL
can be read. -/
def StaysInside (text : List UInt16) : Prop :=
  ∀ (beyond : List UInt16) (argumentIsArray : Bool) (arguments : List (List UInt16))
    (buffer : List UInt16) (bufferSize : UInt32) (formatted : Formatted),
    rtlFormatMessage (text ++ 0 :: beyond) false false argumentIsArray arguments buffer
        bufferSize = some formatted →
      rtlFormatMessage (text ++ [0]) false false argumentIsArray arguments buffer bufferSize =
        some formatted

/-- The NUL ends the scan unless it is directly behind a `%`. -/
theorem read_nul (mode : Mode) : (scanner.read mode 0).2 = none ↔ mode ≠ .percent := by
  cases mode <;> simp [scanner, readPlain, readPercent, readNumber, readBehind, readBlock,
    escaped, isdigit]

theorem complete_nul (text : List UInt16) :
    Complete (text ++ [0]) ↔ scanner.after .plain text ≠ some .percent := by
  rw [Complete, tokens, Scanner.tokens_concat_isSome]
  simp only [read_nul]
  constructor
  · exact fun ends dangling => ends _ dangling rfl
  · rintro other last ends rfl
    exact other ends

/-- Some arguments and a buffer that a complete message has room in. -/
theorem exists_formatted {message : List UInt16} (complete : Complete message) :
    ∃ (arguments : List (List UInt16)) (buffer : List UInt16) (formatted : Formatted),
      rtlFormatMessage message false false true arguments buffer 0 = some formatted := by
  obtain ⟨found, scans⟩ := Option.isSome_iff_exists.mp complete
  let arguments : List (List UInt16) :=
    List.replicate ((selected true 0 (numbers found)).sum + 1) []
  refine ⟨arguments, List.replicate ((taken true arguments found).length + 1) 0, _,
    rtlFormatMessage_tokens scans 0 (fun index member => ?_) ?_⟩
  · have small := List.le_sum_of_mem member
    rw [List.length_replicate]
    omega
  · rw [List.length_replicate]
    exact Nat.lt_succ_self _

/-- A message is read beyond its NUL just when that is directly behind a `%`. -/
theorem staysInside_iff_after (text : List UInt16) :
    StaysInside text ↔ scanner.after .plain text ≠ some .percent := by
  refine ⟨fun inside dangling => ?_, fun other => ?_⟩
  · have goes_on : Complete (text ++ 0 :: [0]) := by
      have reads : scanner.read .percent 0 = ([], some .plain) := rfl
      have again : scanner.after .plain (text ++ [0]) = some .plain := by
        rw [Scanner.after_append, dangling, Option.bind_some, Scanner.after_singleton, reads]
      rw [List.append_cons, complete_nul, again]
      exact fun same => nomatch Option.some.inj same
    obtain ⟨arguments, buffer, formatted, runs⟩ := exists_formatted goes_on
    have shorter := inside [0] true arguments buffer 0 formatted runs
    rw [rtlFormatMessage_none fun complete => (complete_nul text).mp complete dangling] at shorter
    exact nomatch shorter
  · intro beyond argumentIsArray arguments buffer bufferSize formatted runs
    obtain ⟨found, scans⟩ := Option.isSome_iff_exists.mp ((complete_nul text).mpr other)
    have longer : tokens .plain (text ++ 0 :: beyond) = some found := by
      rw [List.append_cons]
      exact Scanner.tokens_append scans beyond
    rw [rtlFormatMessage_eq, longer] at runs
    rw [rtlFormatMessage_eq, scans]
    exact runs

end Nloader.FormatMessage
