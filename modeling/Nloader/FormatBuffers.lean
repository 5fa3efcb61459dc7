/-
This file is about the buffers in which `__format` and `__dbg_print` put a format together for
`snprintf`. The first takes digits only while there is room for `ll`, a type and the NUL behind
them; the second leaves eight characters free for what is not checked any more, which is two
characters for the length, one for the conversion, and the NUL. No format makes one of them store
behind its buffer.
-/

import Nloader.DbgPrint
import Nloader.Format
import Nloader.Library.Outcome

/-! ### `nfmt` -/

namespace Nloader.Format

open Outcome

/-- A computation that does not store behind `nfmt`. -/
abbrev Stays {Value : Type} (run : Except Stop Value) : Prop :=
  Holds (fun _ => True) (· ≠ .overrun) run

theorem Stays.bind {Value Next : Type} {first : Except Stop Value}
    {second : Value → Except Stop Next} (stays : Stays first)
    (rest : ∀ value, Stays (second value)) : Stays (first >>= second) :=
  (holds_bind first second).mpr (stays.mono (fun value _ => rest value) fun _ stopped => stopped)

theorem stays_nextWord (argv : List Argument) : Stays (nextWord argv) := by
  unfold nextWord
  split <;> simp

theorem stays_nextWideString (argv : List Argument) : Stays (nextWideString argv) := by
  unfold nextWideString
  split <;> simp

theorem stays_nextNarrowString (argv : List Argument) : Stays (nextNarrowString argv) := by
  unfold nextNarrowString
  split <;> simp

theorem push_eq {nfmt : List UInt8} (room : nfmt.length < 32) (c : UInt8) :
    push nfmt c = .ok (nfmt ++ [c]) :=
  if_pos room

theorem terminate_eq {nfmt : List UInt8} (room : nfmt.length < 32) : terminate nfmt = .ok nfmt :=
  if_pos room

theorem stays_convertWchar (state : State) : Stays (convertWchar state) :=
  (stays_nextWord state.argv).bind fun _ => trivial

theorem stays_convertWstring (state : State) : Stays (convertWstring state) :=
  (stays_nextWideString state.argv).bind fun _ => trivial

theorem stays_convertString (state : State) : Stays (convertString state) :=
  (stays_nextNarrowString state.argv).bind fun _ => trivial

section

variable (snprintf : Snprintf) {nfmt : List UInt8} (c : UInt8) (state : State)

theorem stays_convertInt32 (room : nfmt.length ≤ 26) :
    Stays (convertInt32 snprintf nfmt c state) := by
  unfold convertInt32
  rw [push_eq (by omega), ok_bind, terminate_eq (by rw [List.length_append]; simp; omega), ok_bind]
  exact (stays_nextWord state.argv).bind fun _ => trivial

/-- Behind the digits there is room for `ll`, the type and the NUL. -/
theorem stays_convertInt64 (room : nfmt.length ≤ 26) :
    Stays (convertInt64 snprintf nfmt c state) := by
  have first : (nfmt ++ [0x6c]).length = nfmt.length + 1 := List.length_append
  have second : (nfmt ++ [0x6c] ++ [0x6c]).length = nfmt.length + 1 + 1 := by
    rw [List.length_append, first, List.length_singleton]
  have third : (nfmt ++ [0x6c] ++ [0x6c] ++ [c]).length = nfmt.length + 1 + 1 + 1 := by
    rw [List.length_append, second, List.length_singleton]
  unfold convertInt64
  rw [push_eq (by omega), ok_bind, push_eq (by omega), ok_bind, push_eq (by omega), ok_bind,
    terminate_eq (by omega), ok_bind]
  exact (stays_nextWord state.argv).bind fun _ => trivial

end

section

variable (snprintf : Snprintf) {nfmt : List UInt8} (state : State) (fmt : List UInt16)

theorem stays_prefixed {convert : State → Except Stop State}
    (stays : ∀ state, Stays (convert state)) : Stays (prefixed convert state fmt) := by
  cases fmt with
  | nil => simp [prefixed]
  | cons c fmt =>
    rw [prefixed]
    split
    · exact (stays state).bind fun _ => trivial
    · trivial

theorem stays_typed (room : nfmt.length ≤ 26) : Stays (typed snprintf nfmt state fmt) := by
  cases fmt with
  | nil => simp [typed]
  | cons c fmt =>
    rw [typed]
    split
    · exact (stays_convertInt64 snprintf _ state room).bind fun _ => trivial
    · exact (stays_convertInt64 snprintf _ state room).bind fun _ => trivial

theorem stays_sizedSix (room : nfmt.length ≤ 26) : Stays (sizedSix snprintf nfmt state fmt) := by
  cases fmt with
  | nil => simp [sizedSix]
  | cons c fmt =>
    rw [sizedSix]
    split
    · trivial
    · cases fmt with
      | nil => simp [sizedFour]
      | cons c fmt =>
        rw [sizedFour]
        split
        · trivial
        · exact stays_typed snprintf state fmt room

/-- A conversion stays in `nfmt`, however many digits there are. -/
theorem stays_switchNext (room : nfmt.length ≤ 26) :
    Stays (switchNext snprintf state nfmt fmt) := by
  induction fmt generalizing nfmt with
  | nil => simp [switchNext]
  | cons c fmt inductionHypothesis =>
    rw [switchNext]
    split
    · exact (stays_convertWchar state).bind fun _ => trivial
    split
    · exact (stays_convertWstring state).bind fun _ => trivial
    split
    · exact stays_prefixed state fmt stays_convertWstring
    split
    · exact stays_prefixed state fmt stays_convertString
    split
    · exact stays_sizedSix snprintf state fmt room
    split
    · exact (stays_convertInt32 snprintf _ state room).bind fun _ => trivial
    split
    · split
      · simp
      · rename_i less
        change ¬ 26 ≤ nfmt.length at less
        rw [push_eq (by omega), ok_bind]
        refine inductionHypothesis ?_
        rw [List.length_append, List.length_singleton]
        omega
    · simp

/-- The loop stays in `nfmt`. -/
theorem stays_formatNext : Stays (formatNext snprintf fmt state) := by
  fun_induction formatNext snprintf fmt state with
  | case1 fmt state done => trivial
  | case2 state counts => simp
  | case3 state counts fmt => trivial
  | case4 state counts c fmt _ literal inductionHypothesis => exact inductionHypothesis
  | case5 state counts c fmt _ _ stop stopped =>
    have stays := stays_switchNext snprintf state fmt (show [0x25].length ≤ 26 by decide)
    rw [stopped] at stays
    exact stays
  | case6 state counts c fmt _ _ rest next converted inductionHypothesis =>
    exact inductionHypothesis

end

/-- No format makes the function store behind `nfmt`. -/
theorem format_stays (snprintf : Snprintf) (fmt : List UInt16) (count : UInt64)
    (argv : List Argument) : Stays (format snprintf fmt count argv) :=
  (stays_formatNext snprintf _ fmt).bind fun _ => trivial

end Nloader.Format

/-! ### `spec` -/

namespace Nloader.DbgPrint

open Buffered Outcome

/-! ### The function with its stores -/

/-- The stores of `copyNumber`. -/
def storeNumber : Storing UInt8 :=
  storeBranch sizeofSpec limit 0x2a storeNothing (storeRun sizeofSpec limit isDigit)

/-- The stores of `copyPrecision`. -/
def storePrecision : Storing UInt8 :=
  storeBranch sizeofSpec limit 0x2e storeNumber storeNothing

/-- The stores of `copyLeading`. -/
def storeLeading (spec fmt : List UInt8) : Except Nat (List UInt8 × List UInt8) := do
  let (spec, fmt) ← storeRun sizeofSpec limit isFlag spec fmt
  let (spec, fmt) ← storeNumber spec fmt
  storePrecision spec fmt

/-- `spec[n++] = c`. -/
def put (spec : List UInt8) (c : UInt8) : Except Nat (List UInt8) := store sizeofSpec spec c

/-- `spec[n++] = c`, two times. -/
def putTwice (spec : List UInt8) (c : UInt8) : Except Nat (List UInt8) := do
  put (← put spec c) c

/-- `lengthModifier` with its stores. -/
def storeModifier (spec fmt : List UInt8) : Except Nat Modified := do
  if peek fmt = 0x6c then
    if peek fmt.tail = 0x6c then
      let spec ← putTwice spec 0x6c
      return { spec := spec, fmt := fmt.tail.tail, wideArg := false, long64 := true }
    else return { spec := spec, fmt := fmt.tail, wideArg := true, long64 := false }
  else if peek fmt = 0x68 then
    if peek fmt.tail = 0x68 then
      let spec ← putTwice spec 0x68
      return { spec := spec, fmt := fmt.tail.tail, wideArg := false, long64 := false }
    else
      let spec ← put spec 0x68
      return { spec := spec, fmt := fmt.tail, wideArg := false, long64 := false }
  else if peek fmt = 0x49 then
    if peek fmt.tail = 0x36 ∧ peek fmt.tail.tail = 0x34 then
      let spec ← putTwice spec 0x6c
      return { spec := spec, fmt := fmt.tail.tail.tail, wideArg := false, long64 := true }
    else if peek fmt.tail = 0x33 ∧ peek fmt.tail.tail = 0x32 then
      return { spec := spec, fmt := fmt.tail.tail.tail, wideArg := false, long64 := false }
    else
      let spec ← putTwice spec 0x6c
      return { spec := spec, fmt := fmt.tail, wideArg := false, long64 := true }
  else if peek fmt = 0x77 then
    return { spec := spec, fmt := fmt.tail, wideArg := true, long64 := false }
  else return { spec := spec, fmt := fmt, wideArg := false, long64 := false }

/-- `spell` with its stores, that of the `%` too. -/
def storeSpelled (fmt : List UInt8) : Except Nat Modified := do
  let spec ← put [] 0x25
  let (spec, fmt) ← storeLeading spec fmt
  storeModifier spec fmt

/-- `forward` with its stores, `spec[n++] = conv` and `spec[n] = 0`. -/
def storeForward (surroundings : Surroundings) (spec : List UInt8) (conv : UInt8) (kind : Kind)
    (argument : UInt64) : Except Nat Carried := do
  let spec ← storeEnd sizeofSpec (← put spec conv)
  return { out := surroundings.snprintf spec kind argument, counted := 0, taken := some kind }

/-- `convert` with its stores. -/
def storeConverted (surroundings : Surroundings) (modified : Modified) (conv : UInt8)
    (argument : UInt64) : Except Nat Carried :=
  if conv = 0x25 then .ok { out := [0x25], counted := 1, taken := none }
  else if conv = 0x73 then
    if modified.wideArg then
      .ok { out := dbgEmitWstr surroundings argument, counted := 0, taken := some .wideString }
    else .ok { out := putString surroundings argument, counted := 0, taken := some .string }
  else if conv = 0x53 then
    .ok { out := dbgEmitWstr surroundings argument, counted := 0, taken := some .wideString }
  else if conv = 0x63 then
    if modified.wideArg then
      .ok { out := [narrowed argument.toUInt16], counted := 0, taken := some .wchar }
    else .ok { out := [argument.toUInt8], counted := 0, taken := some .char }
  else if conv = 0x43 then
    .ok { out := [narrowed argument.toUInt16], counted := 0, taken := some .wchar }
  else if conv ∈ ([0x64, 0x69, 0x75, 0x6f, 0x78, 0x58] : List UInt8) then
    if modified.long64 then storeForward surroundings modified.spec conv .int64 argument
    else storeForward surroundings modified.spec conv .int argument
  else if conv = 0x70 then storeForward surroundings modified.spec conv .pointer argument
  else if conv ∈ ([0x66, 0x65, 0x45, 0x67, 0x47, 0x61, 0x41] : List UInt8) then
    storeForward surroundings modified.spec conv .double argument
  else .ok { out := [0x25, conv], counted := 0, taken := none }

/-! ### The stores are in the buffer -/

theorem stores_number : Stores limit storeNumber copyNumber :=
  (stores_nothing limit).branch (by decide) 0x2a (stores_run (by decide) isDigit)

theorem stores_precision : Stores limit storePrecision copyPrecision :=
  stores_number.branch (by decide) 0x2e (stores_nothing limit)

/-- The flags, the width and the precision leave eight characters free. -/
theorem stores_leading : Stores limit storeLeading copyLeading :=
  (stores_run (by decide) isFlag).andThen (stores_number.andThen stores_precision)

theorem put_eq {spec : List UInt8} (room : spec.length < 64) (c : UInt8) :
    put spec c = .ok (spec ++ [c]) :=
  store_eq room c

theorem putTwice_eq {spec : List UInt8} (room : spec.length < 63) (c : UInt8) :
    putTwice spec c = .ok (spec ++ [c, c]) := by
  have longer : (spec ++ [c]).length = spec.length + 1 := List.length_append
  rw [putTwice, put_eq (by omega), ok_bind, put_eq (by omega), List.append_assoc,
    List.singleton_append]

/-- The length modifier takes two of them at most. -/
theorem storeModifier_eq {spec : List UInt8} (room : spec.length ≤ 56) (fmt : List UInt8) :
    storeModifier spec fmt = .ok (lengthModifier spec fmt) ∧
      (lengthModifier spec fmt).spec.length ≤ 58 := by
  have once (c : UInt8) : put spec c = .ok (spec ++ [c]) := put_eq (by omega) c
  have twice (c : UInt8) : putTwice spec c = .ok (spec ++ [c, c]) := putTwice_eq (by omega) c
  unfold storeModifier lengthModifier
  simp only [once, twice, ok_bind]
  constructor
  · split_ifs <;> rfl
  · split_ifs <;> simp <;> omega

/-- What is read up to the character of the conversion is stored within the buffer. -/
theorem storeSpelled_eq (fmt : List UInt8) :
    storeSpelled fmt = .ok (spell fmt) ∧ (spell fmt).spec.length ≤ 58 := by
  obtain ⟨stored, filled⟩ := stores_leading [0x25] fmt (by decide)
  rw [storeSpelled, put_eq (by decide), ok_bind]
  change (storeLeading [0x25] fmt >>= _) = _ ∧ _
  rw [stored]
  exact storeModifier_eq filled _

theorem storeForward_eq (surroundings : Surroundings) {spec : List UInt8}
    (room : spec.length ≤ 58) (conv : UInt8) (kind : Kind) (argument : UInt64) :
    storeForward surroundings spec conv kind argument =
      .ok (forward surroundings spec conv kind argument) := by
  have longer : (spec ++ [conv]).length = spec.length + 1 := List.length_append
  rw [storeForward, put_eq (by omega), ok_bind, storeEnd_eq (longer ▸ by change _ < 64; omega)]
  rfl

/-- The conversion and the NUL are stored within the buffer. -/
theorem storeConverted_eq (surroundings : Surroundings) {modified : Modified}
    (room : modified.spec.length ≤ 58) (conv : UInt8) (argument : UInt64) :
    storeConverted surroundings modified conv argument =
      .ok (convert surroundings modified conv argument) := by
  simp only [storeConverted, convert, storeForward_eq surroundings room, apply_ite Except.ok]

/-! ### The loop -/

/-- `dbgPrint` with its stores. -/
def storePrint (surroundings : Surroundings) (fmt : List UInt8) (state : State) :
    Except Nat State :=
  match fmt with
  | [] => .ok state
  | c :: fmt =>
    if c ≠ 0x25 then storePrint surroundings fmt (state.put c)
    else
      match _spelled : storeSpelled fmt with
      | .error index => .error index
      | .ok modified =>
        match _read : modified.fmt with
        | [] => .ok state
        | conv :: rest =>
          match storeConverted surroundings modified conv (surroundings.argv state.slot) with
          | .error index => .error index
          | .ok carried =>
            storePrint surroundings rest
              (state.carry carried (c :: fmt.take (fmt.length - rest.length)))
termination_by fmt.length
decreasing_by
  · exact Nat.lt_succ_self _
  · have := length_spell fmt
    rw [← Except.ok.inj (_spelled.symm.trans (storeSpelled_eq fmt).1), _read,
      List.length_cons] at this
    exact Nat.lt_succ_of_le (Nat.le_of_succ_le this)

/-- The function with its stores does what the function does. -/
theorem storePrint_eq (surroundings : Surroundings) (fmt : List UInt8) (state : State) :
    storePrint surroundings fmt state = .ok (dbgPrint surroundings fmt state) := by
  fun_induction dbgPrint surroundings fmt state with
  | case1 state => rw [storePrint]
  | case2 state c fmt literal inductionHypothesis =>
    rw [storePrint, if_pos literal]
    exact inductionHypothesis
  | case3 state c fmt percent ends =>
    rw [storePrint, if_neg percent]
    split
    · rename_i index failed
      exact nomatch failed.symm.trans (storeSpelled_eq fmt).1
    · rename_i modified spelled
      obtain rfl := Except.ok.inj (spelled.symm.trans (storeSpelled_eq fmt).1)
      split
      · rfl
      · rename_i conv rest reads
        exact nomatch ends.symm.trans reads
  | case4 state c fmt percent conv rest reads inductionHypothesis =>
    rw [storePrint, if_neg percent]
    split
    · rename_i index failed
      exact nomatch failed.symm.trans (storeSpelled_eq fmt).1
    · rename_i modified spelled
      obtain rfl := Except.ok.inj (spelled.symm.trans (storeSpelled_eq fmt).1)
      split
      · rename_i ends
        exact nomatch ends.symm.trans reads
      · rename_i conv' rest' reads'
        obtain ⟨rfl, rfl⟩ := List.cons.inj (reads.symm.trans reads')
        rw [storeConverted_eq surroundings (storeSpelled_eq fmt).2]
        exact inductionHypothesis

end Nloader.DbgPrint

/-! ### Both -/

namespace Nloader.FormatBuffers

open Format DbgPrint

/-- No format makes `__format` store behind `nfmt` or `__dbg_print` behind `spec`. -/
theorem no_overrun :
    (∀ (snprintf : Snprintf) (fmt : List UInt16) (count : UInt64) (argv : List Argument),
      format snprintf fmt count argv ≠ .error .overrun) ∧
    ∀ (surroundings : Surroundings) (fmt : List UInt8) (state : DbgPrint.State),
      storePrint surroundings fmt state = .ok (dbgPrint surroundings fmt state) :=
  ⟨fun snprintf fmt count argv overrun =>
    (format_stays snprintf fmt count argv).of_error overrun rfl, storePrint_eq⟩

end Nloader.FormatBuffers
