/-
This file models `__dbg_print` of `src/libs/ntdll/format.c`. The format is the list of its
characters before the NUL, from `fmt` on. An argument is the word in its slot; the strings that it
can point to, and what `snprintf` puts into `buf`, are parameters. Beside what it prints, a call
keeps the conversions that it has carried out, with the slots that they have taken.
-/

import Nloader.Library.Buffered

namespace Nloader.DbgPrint

open Buffered

/-! ### Arguments -/

/-- What a conversion takes from the slot of its argument. -/
inductive Kind where
  | int
  | int64
  | char
  | wchar
  | string
  | wideString
  | pointer
  | double
  | count
  | countedString
  deriving DecidableEq

/-- The arguments of a call, the strings at their addresses, and what is in `buf` behind
`snprintf(buf, sizeof(buf), spec, argument)`. -/
structure Surroundings where
  argv : Nat → UInt64
  string : UInt64 → List UInt8
  wideString : UInt64 → List UInt16
  snprintf : List UInt8 → Kind → UInt64 → List UInt8

/-! ### Flags, width and precision -/

/-- `sizeof(spec)`. -/
def sizeofSpec : Nat := 64

/-- The flags, width and precision are copied into `spec` up to here. -/
def limit : Nat := sizeofSpec - 8

/-- `strchr("-+ #0", c)`. -/
def isFlag (c : UInt8) : Bool := c ∈ [0x2d, 0x2b, 0x20, 0x23, 0x30]

def isDigit (c : UInt8) : Bool := 0x30 ≤ c ∧ c ≤ 0x39

/-- A `*` or a number. -/
def copyNumber : Copy UInt8 := copyBranch limit 0x2a copyNothing (copyRun limit isDigit)

def copyPrecision : Copy UInt8 := copyBranch limit 0x2e copyNumber copyNothing

/-- What is copied into `spec` behind the `%`. -/
def copyLeading (spec fmt : List UInt8) : List UInt8 × List UInt8 :=
  let (spec, fmt) := copyRun limit isFlag spec fmt
  let (spec, fmt) := copyNumber spec fmt
  copyPrecision spec fmt

/-! ### The length modifier -/

/-- What is known behind the length modifier. -/
structure Modified where
  spec : List UInt8
  fmt : List UInt8
  wideArg : Bool
  long64 : Bool

/-- `*fmt`. -/
def peek (fmt : List UInt8) : UInt8 := fmt.headD 0

/-- The code of the length modifier. -/
def lengthModifier (spec fmt : List UInt8) : Modified :=
  if peek fmt = 0x6c then
    if peek fmt.tail = 0x6c then
      { spec := spec ++ [0x6c, 0x6c], fmt := fmt.tail.tail, wideArg := false, long64 := true }
    else { spec := spec, fmt := fmt.tail, wideArg := true, long64 := false }
  else if peek fmt = 0x68 then
    if peek fmt.tail = 0x68 then
      { spec := spec ++ [0x68, 0x68], fmt := fmt.tail.tail, wideArg := false, long64 := false }
    else { spec := spec ++ [0x68], fmt := fmt.tail, wideArg := false, long64 := false }
  else if peek fmt = 0x49 then
    if peek fmt.tail = 0x36 ∧ peek fmt.tail.tail = 0x34 then
      { spec := spec ++ [0x6c, 0x6c], fmt := fmt.tail.tail.tail, wideArg := false, long64 := true }
    else if peek fmt.tail = 0x33 ∧ peek fmt.tail.tail = 0x32 then
      { spec := spec, fmt := fmt.tail.tail.tail, wideArg := false, long64 := false }
    else { spec := spec ++ [0x6c, 0x6c], fmt := fmt.tail, wideArg := false, long64 := true }
  else if peek fmt = 0x77 then { spec := spec, fmt := fmt.tail, wideArg := true, long64 := false }
  else { spec := spec, fmt := fmt, wideArg := false, long64 := false }

/-- What is read behind a `%` up to the character of the conversion. -/
def spell (fmt : List UInt8) : Modified :=
  lengthModifier (copyLeading [0x25] fmt).1 (copyLeading [0x25] fmt).2

/-! ### The conversion -/

/-- What a conversion prints and counts, and what it has taken its argument for. -/
structure Carried where
  out : List UInt8
  counted : Nat
  taken : Option Kind

/-- `"(null)"`. -/
def null : List UInt8 := [0x28, 0x6e, 0x75, 0x6c, 0x6c, 0x29]

/-- `c < 0x80 ? (char) c : '?'`. -/
def narrowed (c : UInt16) : UInt8 := if c < 0x80 then c.toUInt8 else 0x3f

/-- `__dbg_emit_wstr`. -/
def dbgEmitWstr (surroundings : Surroundings) (s : UInt64) : List UInt8 :=
  if s = 0 then null else (surroundings.wideString s).map narrowed

/-- `fputs(s ? s : "(null)", out)`. -/
def putString (surroundings : Surroundings) (s : UInt64) : List UInt8 :=
  if s = 0 then null else surroundings.string s

/-- A conversion that leaves its argument to `snprintf`. -/
def forward (surroundings : Surroundings) (spec : List UInt8) (conv : UInt8) (kind : Kind)
    (argument : UInt64) : Carried where
  out := surroundings.snprintf (spec ++ [conv]) kind argument
  counted := 0
  taken := some kind

/-- The switch over the character of the conversion, with the word in the next slot. -/
def convert (surroundings : Surroundings) (modified : Modified) (conv : UInt8)
    (argument : UInt64) : Carried :=
  if conv = 0x25 then { out := [0x25], counted := 1, taken := none }
  else if conv = 0x73 then
    if modified.wideArg then
      { out := dbgEmitWstr surroundings argument, counted := 0, taken := some .wideString }
    else { out := putString surroundings argument, counted := 0, taken := some .string }
  else if conv = 0x53 then
    { out := dbgEmitWstr surroundings argument, counted := 0, taken := some .wideString }
  else if conv = 0x63 then
    if modified.wideArg then
      { out := [narrowed argument.toUInt16], counted := 0, taken := some .wchar }
    else { out := [argument.toUInt8], counted := 0, taken := some .char }
  else if conv = 0x43 then
    { out := [narrowed argument.toUInt16], counted := 0, taken := some .wchar }
  else if conv ∈ ([0x64, 0x69, 0x75, 0x6f, 0x78, 0x58] : List UInt8) then
    if modified.long64 then forward surroundings modified.spec conv .int64 argument
    else forward surroundings modified.spec conv .int argument
  else if conv = 0x70 then forward surroundings modified.spec conv .pointer argument
  else if conv ∈ ([0x66, 0x65, 0x45, 0x67, 0x47, 0x61, 0x41] : List UInt8) then
    forward surroundings modified.spec conv .double argument
  else { out := [0x25, conv], counted := 0, taken := none }

/-! ### The function -/

/-- A conversion that is carried out: its text in the format, and the slots that are taken for
it. -/
structure Conversion where
  text : List UInt8
  taken : List (Kind × Nat)
  deriving DecidableEq

/-- What a call has printed, the slot of its next argument and the conversions carried out. -/
structure State where
  out : List UInt8
  total : Nat
  slot : Nat
  conversions : List Conversion

/-- A character that is printed. -/
def State.put (state : State) (c : UInt8) : State :=
  { state with out := state.out ++ [c], total := state.total + 1 }

/-- A conversion, with its text in the format. -/
def State.carry (state : State) (carried : Carried) (text : List UInt8) : State where
  out := state.out ++ carried.out
  total := state.total + carried.counted
  slot := state.slot + carried.taken.toList.length
  conversions :=
    state.conversions ++ [{ text := text, taken := carried.taken.toList.zipIdx state.slot }]

theorem length_lengthModifier (spec fmt : List UInt8) :
    (lengthModifier spec fmt).fmt.length ≤ fmt.length := by
  rw [lengthModifier]
  split_ifs <;> simp only [List.length_tail] <;> omega

/-! ### What is copied -/

/-- The flags, the width and the precision of a conversion. -/
def readNumber : Reader UInt8 := branch 0x2a nothing (run isDigit)

def readPrecision : Reader UInt8 := branch 0x2e readNumber nothing

def readLeading : Reader UInt8 := andThen (run isFlag) (andThen readNumber readPrecision)

theorem splits_readNumber : Splits readNumber :=
  splits_nothing.branch 0x2a (splits_run isDigit)

theorem splits_readPrecision : Splits readPrecision :=
  splits_readNumber.branch 0x2e splits_nothing

theorem splits_readLeading : Splits readLeading :=
  (splits_run isFlag).andThen (splits_readNumber.andThen splits_readPrecision)

theorem copies_copyNumber : Copies limit copyNumber readNumber :=
  (copies_nothing limit).branch 0x2a (copies_run limit isDigit) splits_nothing (splits_run isDigit)

theorem copies_copyPrecision : Copies limit copyPrecision readPrecision :=
  copies_copyNumber.branch 0x2e (copies_nothing limit) splits_readNumber splits_nothing

/-- As much of the flags, the width and the precision is copied as there is room for. -/
theorem copies_copyLeading : Copies limit copyLeading readLeading :=
  (copies_run limit isFlag).andThen (copies_copyNumber.andThen copies_copyPrecision
    splits_readPrecision) (splits_readNumber.andThen splits_readPrecision)

theorem length_spell (fmt : List UInt8) : (spell fmt).fmt.length ≤ fmt.length :=
  (length_lengthModifier _ _).trans
    (copies_copyLeading.length_le splits_readLeading (by decide) fmt)

/-! ### The loop -/

/-- `__dbg_print`, from a place in the format on. -/
def dbgPrint (surroundings : Surroundings) (fmt : List UInt8) (state : State) : State :=
  match fmt with
  | [] => state
  | c :: fmt =>
    if c ≠ 0x25 then dbgPrint surroundings fmt (state.put c)
    else
      match _spelled : (spell fmt).fmt with
      | [] => state
      | conv :: rest =>
        dbgPrint surroundings rest
          (state.carry (convert surroundings (spell fmt) conv (surroundings.argv state.slot))
            (c :: fmt.take (fmt.length - rest.length)))
termination_by fmt.length
decreasing_by
  · exact Nat.lt_succ_self _
  · have := length_spell fmt
    rw [_spelled, List.length_cons] at this
    exact Nat.lt_succ_of_le (Nat.le_of_succ_le this)

end Nloader.DbgPrint
