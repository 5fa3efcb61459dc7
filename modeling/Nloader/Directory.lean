/-
This file models `NtQueryDirectoryObject` of `src/libs/ntdll/io.c`, called any number of times, on
any handles of directories, and says in which runs each handle is answered as if it was the only
one.

Whether the one entry has been returned is kept in a static variable, not with the handle, and
`RestartScan` is not looked at. So the calls return the entry and its end in turn, whichever handles
they are made on.
-/

import Nloader.CountedStrings
import Nloader.Handles
import Nloader.Library.Runs

namespace Nloader.Directory

open CountedStrings Events Handles Runs Terminated
open Parameters (chars sizeofWchar widen)

/-! ### Constants -/

/-- `STATUS_NOT_IMPLEMENTED`. -/
def statusNotImplemented : Status := 0xC0000002

/-- `STATUS_NO_MORE_ENTRIES`. -/
def statusNoMoreEntries : Status := 0x8000001A

/-- `dirinfo_name`. -/
def dirinfoName : Text UInt16 where
  characters := (chars "Volume\x7bX\x7d").map widen
  nonzero := by decide

/-- `dirinfo_type`. -/
def dirinfoType : Text UInt16 where
  characters := (chars "SymbolicLink").map widen
  nonzero := by decide

/-- `sizeof(OBJECT_DIRECTORY_INFORMATION)`. -/
def sizeofObjectDirectoryInformation : Nat := 32

/-! ### The function -/

/-- `OBJECT_DIRECTORY_INFORMATION`, with the texts that are copied behind it. -/
structure Entry where
  name : CountedString UInt16
  typeName : CountedString UInt16
  deriving DecidableEq

/-- What a call leaves: its status, and what it has stored to `Buffer` and to `ReturnLength`. -/
structure Answer where
  status : Status
  entry : Option Entry
  returnLength : Option UInt32
  deriving DecidableEq

/-- A call that stores nothing. -/
def Answer.ofStatus (status : Status) : Answer :=
  { status := status, entry := none, returnLength := none }

/-- The entry as it is stored to `Buffer`, whatever `Length` is. -/
def objectDirectoryInformation : Except Stop Entry := do
  let name ← rtlInitUnicodeString (some dirinfoName.memory)
  let typeName ← rtlInitUnicodeString (some dirinfoType.memory)
  .ok { name := name, typeName := typeName }

/-- The length that is stored to `ReturnLength`. -/
def entryLength : Nat :=
  sizeofObjectDirectoryInformation * 2 + (dirinfoName.memory.length * sizeofWchar +
    dirinfoType.memory.length * sizeofWchar)

/-- `NtQueryDirectoryObject`, with what is in `count` before and after. Whether `Buffer` and
`ReturnLength` are given is all it asks of them; it does not look at `RestartScan` and `Context`. -/
def ntQueryDirectoryObject (count : Int32) (directoryHandle : Option Header)
    (buffer returnSingleEntry returnLength : Bool) : Except Stop (Int32 × Answer) :=
  match checkHandle directoryHandle handleDir with
  | some status => .ok (count, .ofStatus status)
  | none =>
    if buffer = false then .ok (count, .ofStatus statusAccessViolation)
    else if returnSingleEntry = false then .ok (count, .ofStatus statusNotImplemented)
    else if count ≠ 0 then .ok (0, .ofStatus statusNoMoreEntries)
    else do
      let entry ← objectDirectoryInformation
      .ok (count + 1, {
        status := statusSuccess
        entry := some entry
        returnLength := if returnLength then some (.ofNat entryLength) else none })

/-! ### Runs -/

variable {Handle : Type}

/-- A call for a single entry, on a handle of a directory. -/
structure Call (Handle : Type) where
  directoryHandle : Handle
  restartScan : Bool
  returnLength : Bool

/-- A call and its answer, with what is in `count` before and after. -/
def Step (before : Int32) (label : Call Handle × Answer) (after : Int32) : Prop :=
  ntQueryDirectoryObject before (some (.ofType handleDir)) true true label.1.returnLength =
    .ok (after, label.2)

/-- The entry: its name and that of its type. -/
def theEntry : Entry where
  name := { length := 18, maximumLength := 20, buffer := some dirinfoName.memory }
  typeName := { length := 24, maximumLength := 26, buffer := some dirinfoType.memory }

/-- The answer with the entry. -/
def answerWithEntry (returnLength : Bool) : Answer where
  status := statusSuccess
  entry := some theEntry
  returnLength := if returnLength then some 110 else none

/-- A step is one of two: it returns the entry, or that there are no more. -/
theorem step_iff {before after : Int32} {label : Call Handle × Answer} :
    Step before label after ↔
      (before = 0 ∧ after = 1 ∧ label.2 = answerWithEntry label.1.returnLength) ∨
        (before ≠ 0 ∧ after = 0 ∧ label.2 = .ofStatus statusNoMoreEntries) := by
  obtain ⟨call, answer⟩ := label
  rw [Step, ntQueryDirectoryObject]
  change (if before ≠ 0 then Except.ok (0, Answer.ofStatus statusNoMoreEntries)
    else .ok (before + 1, answerWithEntry call.returnLength)) = _ ↔ _
  by_cases zero : before = 0
  · rw [if_neg (not_not.mpr zero), Except.ok.injEq, Prod.mk.injEq, zero]
    constructor
    · rintro ⟨rfl, rfl⟩
      exact .inl ⟨rfl, rfl, rfl⟩
    · rintro (⟨_, rfl, same⟩ | ⟨other, _⟩)
      · exact ⟨rfl, same.symm⟩
      · exact absurd rfl other
  · rw [if_pos zero, Except.ok.injEq, Prod.mk.injEq]
    constructor
    · rintro ⟨rfl, rfl⟩
      exact .inr ⟨zero, rfl, rfl⟩
    · rintro (⟨same, _⟩ | ⟨_, rfl, same⟩)
      · exact absurd same zero
      · exact ⟨rfl, same.symm⟩

/-- What is in `count` is the number of the calls, modulo 2. -/
theorem count_eq {labels : List (Call Handle × Answer)} {count : Int32}
    (run : Run Step 0 labels count) : count = if labels.length % 2 = 0 then 0 else 1 := by
  refine run.invariant (fun labels count => count = if labels.length % 2 = 0 then 0 else 1) rfl ?_
  rintro labels before label after rfl next
  rw [List.length_cons]
  rcases step_iff.mp next with ⟨zero, rfl, _⟩ | ⟨other, rfl, _⟩
  · split at zero
    · rw [if_neg (by omega)]
    · exact absurd zero (by decide)
  · split at other
    · exact absurd rfl other
    · rw [if_pos (by omega)]

/-- So the calls are answered in turn. -/
theorem answer_eq {earlier : List (Call Handle × Answer)} {label : Call Handle × Answer}
    {before after : Int32} (run : Run Step 0 earlier before) (next : Step before label after) :
    label.2 =
      if earlier.length % 2 = 0 then answerWithEntry label.1.returnLength
      else .ofStatus statusNoMoreEntries := by
  have counted := count_eq run
  rcases step_iff.mp next with ⟨rfl, _, answered⟩ | ⟨other, _, answered⟩
  · split at counted
    · rename_i even
      rw [if_pos even, answered]
    · exact absurd counted (by decide)
  · split at counted
    · exact absurd counted other
    · rename_i odd
      rw [if_neg odd, answered]

/-! ### What a handle is owed -/

/-- What a call is owed: the entry, that there are no more, or either. -/
inductive Owed where
  | entry
  | noMore
  | either
  deriving DecidableEq

/-- What a call on a handle is owed behind the earlier calls on the handle, the latest first. The
first one is owed the entry, and each that restarts the scan; one after a call that is owed the
entry is owed that there are no more. -/
def owed : List (Call Handle) → Call Handle → Owed
  | [], _ => .entry
  | last :: earlier, call =>
    if call.restartScan then .entry
    else if owed earlier last = .entry then .noMore
    else .either

variable [DecidableEq Handle]

/-- What the last of some calls is owed by those on its handle. -/
def owedAmong (earlier : List (Call Handle × Answer)) (call : Call Handle) : Owed :=
  owed ((earlier.map Prod.fst).filter (·.directoryHandle = call.directoryHandle)) call

/-- A call is answered with what it is owed. -/
def Honest (earlier : List (Call Handle × Answer)) (label : Call Handle × Answer) : Prop :=
  match owedAmong earlier label.1 with
  | .entry => label.2.status = statusSuccess ∧ label.2.entry = some theEntry
  | .noMore => label.2.status = statusNoMoreEntries
  | .either => True

/-- The calls before one are even in number, where it is owed the entry, and odd, where it is owed
that there are no more. -/
def InTurn (earlier : List (Call Handle × Answer)) (call : Call Handle) : Prop :=
  match owedAmong earlier call with
  | .entry => earlier.length % 2 = 0
  | .noMore => earlier.length % 2 = 1
  | .either => True

/-- Each call of a run is answered with what it is owed. -/
def EachHonest : List (Call Handle × Answer) → Prop
  | [] => True
  | label :: earlier => Honest earlier label ∧ EachHonest earlier

/-- Each call of a run is in turn. -/
def EachInTurn : List (Call Handle × Answer) → Prop
  | [] => True
  | label :: earlier => InTurn earlier label.1 ∧ EachInTurn earlier

/-- A call is answered with what it is owed exactly where it is in turn. -/
theorem honest_iff_inTurn {earlier : List (Call Handle × Answer)}
    {label : Call Handle × Answer} {before after : Int32} (run : Run Step 0 earlier before)
    (next : Step before label after) :
    Honest earlier label ↔ InTurn earlier label.1 := by
  have answered := answer_eq run next
  rw [Honest, InTurn]
  split at answered
  · rename_i even
    rw [answered]
    cases owedAmong earlier label.1 with
    | entry => exact iff_of_true ⟨rfl, rfl⟩ even
    | noMore =>
      exact iff_of_false (show ¬ statusSuccess = statusNoMoreEntries by decide)
        (by dsimp only; omega)
    | either => exact Iff.rfl
  · rename_i odd
    rw [answered]
    cases owedAmong earlier label.1 with
    | entry => exact iff_of_false (fun honest => absurd honest.1 (by decide)) odd
    | noMore => exact iff_of_true rfl (by dsimp only; omega)
    | either => exact Iff.rfl

/-- In a run all handles are answered as they should be exactly where each call is in turn. -/
theorem eachHonest_iff {labels : List (Call Handle × Answer)} {count : Int32}
    (run : Run Step 0 labels count) : EachHonest labels ↔ EachInTurn labels := by
  induction run with
  | nil => exact Iff.rfl
  | cons run next inductionHypothesis =>
    exact and_congr (honest_iff_inTurn run next) inductionHypothesis

/-- A call on a handle, without `RestartScan`. -/
def nextOn (directoryHandle : Nat) : Call Nat where
  directoryHandle := directoryHandle
  restartScan := false
  returnLength := false

/-- Two calls one after the other, from the start, the latest first. -/
def twoCalls (first second : Nat) : List (Call Nat × Answer) :=
  [(nextOn second, .ofStatus statusNoMoreEntries), (nextOn first, answerWithEntry false)]

theorem run_twoCalls (first second : Nat) : Run Step 0 (twoCalls first second) 0 :=
  .cons (.cons .nil (step_iff.mpr (.inl ⟨rfl, rfl, rfl⟩)))
    (step_iff.mpr (.inr ⟨by decide, rfl, rfl⟩))

/-- The two calls of one scan. -/
theorem eachHonest_twoCalls : EachHonest (twoCalls 0 0) :=
  (eachHonest_iff (run_twoCalls 0 0)).mpr ⟨rfl, rfl, trivial⟩

/-- Behind the first call on one handle, the first one on another does not return the entry. -/
theorem not_eachHonest :
    ¬ ∀ (labels : List (Call Nat × Answer)) (count : Int32), Run Step 0 labels count →
      EachHonest labels := by
  intro always
  have honest : Honest [(nextOn 0, answerWithEntry false)]
      (nextOn 1, .ofStatus statusNoMoreEntries) :=
    (always _ 0 (run_twoCalls 0 1)).1
  exact absurd honest.1 (by decide)

end Nloader.Directory
