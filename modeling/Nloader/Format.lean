/-
This file models `__format` of `src/libs/ntdll/format.c` and the functions that call it for a
buffer. The format is the list of its `WCHAR`s from `fmt` on. The stream is the list of what has
been stored, as every store is at the index behind the one before. An argument is the word in its
slot or the string that the pointer in it points to.

`snprintf` is a parameter: for the size of its buffer, a format and an integer it gives the return
value and the characters in the buffer before the NUL.
-/

import Nloader.Parameters

namespace Nloader.Format

open Nloader.Parameters

/-! ### What is emitted -/

/-- `snprintf(number, size, fmt, i)`. -/
abbrev Snprintf : Type := Nat → List UInt8 → Int → Int × List UInt8

/-- What one of the functions that emit returns, and what it has stored. -/
structure Emitted where
  chars : Int
  text : List UInt16

/-- `L"(nil)"`. -/
def nil : List UInt16 := [0x28, 0x6e, 0x69, 0x6c, 0x29]

/-- `"(null)"`. -/
def null : List UInt8 := [0x28, 0x6e, 0x75, 0x6c, 0x6c, 0x29]

/-- `__emit_wchar`. -/
def emitWchar (c : UInt16) : Emitted where
  chars := 1
  text := [c]

/-- `__emit_wstring`. -/
def emitWstring (str : Option (List UInt16)) : Emitted where
  chars := (str.getD nil).length
  text := str.getD nil

/-- `__emit_string`. -/
def emitString (str : Option (List UInt8)) : Emitted where
  chars := (str.getD null).length
  text := (str.getD null).map widen

/-- `__emit_int32`. -/
def emitInt32 (snprintf : Snprintf) (i : Int) (fmt : List UInt8) : Emitted where
  chars := (snprintf 32 fmt i).1
  text := (emitString (some (snprintf 32 fmt i).2)).text

/-- `__emit_int64`. -/
def emitInt64 (snprintf : Snprintf) (i : Int) (fmt : List UInt8) : Emitted where
  chars := (snprintf 64 fmt i).1
  text := (emitString (some (snprintf 64 fmt i).2)).text

/-! ### Conversions -/

/-- How a call comes to nothing: it reads beyond the format, stores behind `nfmt`, calls `abort`, or
takes an argument that is not there or is another kind of value. -/
inductive Stop where
  | overread
  | overrun
  | abort
  | badArgument
  deriving DecidableEq

inductive Argument where
  | word (value : UInt64)
  | wideString (string : Option (List UInt16))
  | narrowString (string : Option (List UInt8))

/-- The locals of `__format` that a conversion leaves, with what the stream holds. -/
structure State where
  stream : List UInt16
  count : UInt64
  argv : List Argument

/-- `count -= ` what is returned for what is emitted. -/
def State.emit (state : State) (emitted : Emitted) (argv : List Argument) : State where
  stream := state.stream ++ emitted.text
  count := state.count - .ofInt emitted.chars
  argv := argv

def nextWord : List Argument → Except Stop (UInt64 × List Argument)
  | .word value :: argv => .ok (value, argv)
  | _ => .error .badArgument

def nextWideString : List Argument → Except Stop (Option (List UInt16) × List Argument)
  | .wideString string :: argv => .ok (string, argv)
  | _ => .error .badArgument

def nextNarrowString : List Argument → Except Stop (Option (List UInt8) × List Argument)
  | .narrowString string :: argv => .ok (string, argv)
  | _ => .error .badArgument

/-- `sizeof(nfmt)`. -/
def sizeofNfmt : Nat := 32

/-- `nfmt[cf++] = c`. -/
def push (nfmt : List UInt8) (c : UInt8) : Except Stop (List UInt8) :=
  if nfmt.length < sizeofNfmt then .ok (nfmt ++ [c]) else .error .overrun

/-- `nfmt[cf] = 0`. -/
def terminate (nfmt : List UInt8) : Except Stop (List UInt8) :=
  if nfmt.length < sizeofNfmt then .ok nfmt else .error .overrun

/-- `%c`. -/
def convertWchar (state : State) : Except Stop State := do
  let (value, argv) ← nextWord state.argv
  .ok (state.emit (emitWchar value.toUInt16) argv)

/-- `%s` and `%ws`. -/
def convertWstring (state : State) : Except Stop State := do
  let (string, argv) ← nextWideString state.argv
  .ok (state.emit (emitWstring string) argv)

/-- `%hs`. -/
def convertString (state : State) : Except Stop State := do
  let (string, argv) ← nextNarrowString state.argv
  .ok (state.emit (emitString string) argv)

/-- `%d`, `%u`, `%x` and `%X`. -/
def convertInt32 (snprintf : Snprintf) (nfmt : List UInt8) (c : UInt8) (state : State) :
    Except Stop State := do
  let nfmt ← push nfmt c
  let nfmt ← terminate nfmt
  let (value, argv) ← nextWord state.argv
  .ok (state.emit (emitInt32 snprintf value.toUInt32.toInt32.toInt nfmt) argv)

/-- `%I64d`, `%I64u`, `%I64x` and `%I64`. -/
def convertInt64 (snprintf : Snprintf) (nfmt : List UInt8) (c : UInt8) (state : State) :
    Except Stop State := do
  let nfmt ← push nfmt 0x6c
  let nfmt ← push nfmt 0x6c
  let nfmt ← push nfmt c
  let nfmt ← terminate nfmt
  let (value, argv) ← nextWord state.argv
  .ok (state.emit (emitInt64 snprintf value.toInt64.toInt nfmt) argv)

/-! ### The function -/

/-- The format behind a conversion, and what the conversion has left. -/
abbrev Converted : Type := Except Stop (List UInt16 × State)

/-- Behind `%w` and `%h`: the conversion if the next character is an `s`. -/
def prefixed (convert : State → Except Stop State) (state : State) : List UInt16 → Converted
  | [] => .error .overread
  | c :: fmt => if c = 0x73 then do .ok (fmt, ← convert state) else .ok (fmt, state)

/-- Behind `%I64`: the type if the next character is one, and otherwise `u`. -/
def typed (snprintf : Snprintf) (nfmt : List UInt8) (state : State) : List UInt16 → Converted
  | [] => .error .overread
  | c :: fmt =>
    if c = 0x64 ∨ c = 0x75 ∨ c = 0x78 then do
      .ok (fmt, ← convertInt64 snprintf nfmt c.toUInt8 state)
    else do .ok (c :: fmt, ← convertInt64 snprintf nfmt 0x75 state)

/-- Behind `%I6`. -/
def sizedFour (snprintf : Snprintf) (nfmt : List UInt8) (state : State) : List UInt16 → Converted
  | [] => .error .overread
  | c :: fmt => if c ≠ 0x34 then .ok (fmt, state) else typed snprintf nfmt state fmt

/-- Behind `%I`. -/
def sizedSix (snprintf : Snprintf) (nfmt : List UInt8) (state : State) : List UInt16 → Converted
  | [] => .error .overread
  | c :: fmt => if c ≠ 0x36 then .ok (fmt, state) else sizedFour snprintf nfmt state fmt

/-- The code behind the label `switch_next`, with the characters in `nfmt`. -/
def switchNext (snprintf : Snprintf) (state : State) : List UInt8 → List UInt16 → Converted
  | _, [] => .error .overread
  | nfmt, c :: fmt =>
    if c = 0x63 then do .ok (fmt, ← convertWchar state)
    else if c = 0x73 then do .ok (fmt, ← convertWstring state)
    else if c = 0x77 ∨ c = 0x57 then prefixed convertWstring state fmt
    else if c = 0x68 ∨ c = 0x48 then prefixed convertString state fmt
    else if c = 0x49 ∨ c = 0x69 then sizedSix snprintf nfmt state fmt
    else if c = 0x64 ∨ c = 0x75 ∨ c = 0x78 ∨ c = 0x58 then do
      .ok (fmt, ← convertInt32 snprintf nfmt c.toUInt8 state)
    else if 0x30 ≤ c ∧ c ≤ 0x39 then
      if sizeofNfmt - 6 ≤ nfmt.length then .error .abort
      else do
        let nfmt ← push nfmt c.toUInt8
        switchNext snprintf state nfmt fmt
    else .error .abort

section

variable {snprintf : Snprintf} {nfmt : List UInt8} {state next : State} {fmt rest : List UInt16}

/-- A conversion that succeeds leaves the format where it is. -/
theorem rest_of_converted {converted : Except Stop State}
    (runs : (do .ok (fmt, ← converted) : Converted) = .ok (rest, next)) : rest = fmt := by
  cases converted with
  | error stop => exact nomatch runs
  | ok state => exact (Prod.mk.inj (Except.ok.inj runs)).1.symm

theorem length_prefixed {convert : State → Except Stop State}
    (runs : prefixed convert state fmt = .ok (rest, next)) : rest.length ≤ fmt.length := by
  cases fmt with
  | nil => exact nomatch runs
  | cons c fmt =>
    rw [prefixed] at runs
    split at runs
    · rw [rest_of_converted runs]
      exact Nat.le_succ _
    · rw [← (Prod.mk.inj (Except.ok.inj runs)).1]
      exact Nat.le_succ _

theorem length_typed (runs : typed snprintf nfmt state fmt = .ok (rest, next)) :
    rest.length ≤ fmt.length := by
  cases fmt with
  | nil => exact nomatch runs
  | cons c fmt =>
    rw [typed] at runs
    split at runs
    · rw [rest_of_converted runs]
      exact Nat.le_succ _
    · rw [rest_of_converted runs]

theorem length_sizedFour (runs : sizedFour snprintf nfmt state fmt = .ok (rest, next)) :
    rest.length ≤ fmt.length := by
  cases fmt with
  | nil => exact nomatch runs
  | cons c fmt =>
    rw [sizedFour] at runs
    split at runs
    · rw [← (Prod.mk.inj (Except.ok.inj runs)).1]
      exact Nat.le_succ _
    · exact (length_typed runs).trans (Nat.le_succ _)

theorem length_sizedSix (runs : sizedSix snprintf nfmt state fmt = .ok (rest, next)) :
    rest.length ≤ fmt.length := by
  cases fmt with
  | nil => exact nomatch runs
  | cons c fmt =>
    rw [sizedSix] at runs
    split at runs
    · rw [← (Prod.mk.inj (Except.ok.inj runs)).1]
      exact Nat.le_succ _
    · exact (length_sizedFour runs).trans (Nat.le_succ _)

/-- A conversion does not go back in the format. -/
theorem length_switchNext (runs : switchNext snprintf state nfmt fmt = .ok (rest, next)) :
    rest.length ≤ fmt.length := by
  induction fmt generalizing nfmt with
  | nil => exact nomatch runs
  | cons c fmt inductionHypothesis =>
    refine le_trans ?_ (Nat.le_succ fmt.length)
    rw [switchNext] at runs
    split at runs
    · rw [rest_of_converted runs]
    split at runs
    · rw [rest_of_converted runs]
    split at runs
    · exact length_prefixed runs
    split at runs
    · exact length_prefixed runs
    split at runs
    · exact length_sizedSix runs
    split at runs
    · rw [rest_of_converted runs]
    split at runs
    · split at runs
      · exact nomatch runs
      · cases pushed : push nfmt c.toUInt8 with
        | error stop =>
          rw [pushed] at runs
          exact nomatch runs
        | ok longer =>
          rw [pushed] at runs
          exact inductionHypothesis runs
    · exact nomatch runs

end

/-- The code behind the label `format_next`. -/
def formatNext (snprintf : Snprintf) (fmt : List UInt16) (state : State) : Except Stop State :=
  if state.count = 0 then .ok state
  else
    match fmt with
    | [] => .error .overread
    | c :: fmt =>
      if c = 0 then .ok state
      else if c ≠ 0x25 then formatNext snprintf fmt (state.emit (emitWchar c) state.argv)
      else
        match _runs : switchNext snprintf state [0x25] fmt with
        | .error stop => .error stop
        | .ok (rest, next) => formatNext snprintf rest next
termination_by fmt.length
decreasing_by
  · exact Nat.lt_succ_self _
  · exact Nat.lt_succ_of_le (length_switchNext _runs)

/-- What a call leaves: the number it returns and what it has stored. -/
structure Formatted where
  returned : Int32
  stream : List UInt16
  deriving DecidableEq

/-- `__format`, for a stream at its beginning. -/
def format (snprintf : Snprintf) (fmt : List UInt16) (count : UInt64) (argv : List Argument) :
    Except Stop Formatted := do
  let state ← formatNext snprintf fmt { stream := [], count := count, argv := argv }
  .ok { returned := (count - state.count).toUInt32.toInt32, stream := state.stream ++ [0] }

/-- `rpl_swprintf`. -/
def rplSwprintf (snprintf : Snprintf) (fmt : List UInt16) (argv : List Argument) :
    Except Stop Formatted :=
  format snprintf fmt (-1) argv

/-- `rpl__vsnwprintf`. -/
def rplVsnwprintf (snprintf : Snprintf) (count : UInt64) (fmt : List UInt16)
    (argv : List Argument) : Except Stop Formatted :=
  format snprintf fmt count argv

/-- `rpl_swprintf_s`. -/
def rplSwprintfS (snprintf : Snprintf) (sizeOfBuffer : UInt64) (fmt : List UInt16)
    (argv : List Argument) : Except Stop Formatted :=
  format snprintf fmt sizeOfBuffer argv

end Nloader.Format
