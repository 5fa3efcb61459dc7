/-
This file models `RegistryLookup` and `RtlQueryRegistryValues` of `src/libs/ntdll/registry.c`, and
says how the loop over a query table comes to its end.

The loop over the table ends at the first entry with `RTL_QUERY_REGISTRY_DIRECT` whose value is
found, whether there was room for the value or not. So of two such entries the second one is not
looked at. The array with the name of an entry is not cleared either: for an entry without a name
the value of the name before it is found.
-/

import Nloader.ConvertedStrings
import Nloader.Handles
import Nloader.Library.Outcome
import Nloader.Open

namespace Nloader.Registry

open CommandLine ConvertedStrings CountedStrings Events Open Outcome Terminated
open Handles (statusAccessViolation)
open Parameters (chars sizeofWchar widen)

/-! ### Constants -/

/-- `STATUS_BUFFER_TOO_SMALL`. -/
def statusBufferTooSmall : Status := 0xC0000023

/-- `STATUS_OBJECT_NAME_NOT_FOUND`. -/
def statusObjectNameNotFound : Status := 0xC0000034

/-- `RTL_QUERY_REGISTRY_DIRECT`. -/
def rtlQueryRegistryDirect : UInt32 := 0x00000020

/-- `REG_PREFIX`. -/
def regPrefix : List UInt8 := bytes "\\Registry\\Machine\\"

/-! ### The values -/

/-- `RegKey`, with the `WCHAR`s of its data. -/
structure RegKey where
  path : List UInt8
  data : List UInt16
  deriving DecidableEq

/-- `len`. -/
def RegKey.len (value : RegKey) : UInt32 := .ofNat (value.data.length * sizeofWchar)

/-- A value of type `REG_SZ`. -/
def regSz (path text : String) : RegKey :=
  { path := bytes path, data := (chars text).map widen ++ [0] }

/-- A value of type `REG_MULTI_SZ`, written with two zeros at its end. -/
def regMultiSz (path text : String) : RegKey :=
  { path := bytes path, data := (chars text).map widen ++ [0, 0, 0] }

/-- `RegKeys`, before the one without a path. -/
def regKeys : List RegKey :=
  [regSz "Software\\Microsoft\\Windows NT\\CurrentVersion\\SystemRoot" "c:\\windows",
    regSz "Hardware\\Description\\System\\Identifier" "AT/AT COMPATIBLE",
    regSz "System\\Setup\\SystemPartition" "\\Device\\HarddiskVolume1",
    regSz "System\\ControlSet000\\Control\\SystemStartOptions" "FASTDETECT",
    regSz "System\\CurrentControlSet\\Control\\SystemStartOptions" "FASTDETECT",
    regMultiSz "Session Manager\\BootExecute" "autocheck autochk *",
    regMultiSz "System\\ControlSet000\\Control\\Session Manager\\BootExecute" "autocheck autochk *",
    regMultiSz "System\\CurrentControlSet\\Control\\Session Manager\\BootExecute"
      "autocheck autochk *",
    regMultiSz "System\\ControlSet000\\Control\\Session Manager\\Memory Management\\PagingFiles"
      "c:\\pagefile.sys"]

/-- `RegistryLookup`. -/
def registryLookup (path : List UInt8) : Option RegKey :=
  let path := if startsIgnoringCase path regPrefix then path.drop regPrefix.length else path
  regKeys.find? fun value => sameIgnoringCase path value.path

/-! ### The queries -/

/-- `RTL_QUERY_REGISTRY_TABLE`: whether it has a routine, its flags, its name, and the
`MaximumLength` of the string that it is to be filled into. -/
structure Entry where
  queryRoutine : Bool
  flags : UInt32
  name : Option (Text UInt16)
  maximumLength : UInt16

/-- The condition of the loop. -/
def Entry.present (entry : Entry) : Bool := entry.queryRoutine || entry.name.isSome

/-- `QueryTable->Flags & RTL_QUERY_REGISTRY_DIRECT`. -/
def Entry.direct (entry : Entry) : Bool := entry.flags &&& rtlQueryRegistryDirect != 0

/-- The value has room in the string of the entry. -/
def Entry.fits (entry : Entry) (value : RegKey) : Bool :=
  !decide (entry.maximumLength.toUInt32 < value.len)

/-- A string of the table that has been filled: the index of its entry, what was stored to its
buffer, and its `Length`. -/
structure Fill where
  index : Nat
  data : List UInt16
  length : UInt16
  deriving DecidableEq

/-- What a call leaves: its status, and the strings it has filled. -/
structure Answer where
  status : Status
  fills : List Fill
  deriving DecidableEq

/-- `snprintf(path, sizeof(path), "%s\\%s", PathA, key)`. -/
def snprintfPath (pathA key : List UInt8) : Except Stop (List UInt8) := do
  let first ← cString pathA
  let second ← cString key
  .ok ((first ++ 0x5c :: second).take 511)

/-- An entry is filled with a value. -/
def fillOf (index : Nat) (value : RegKey) : Fill :=
  { index := index, data := value.data, length := value.len.toUInt16 }

/-- What is left when the value of a direct entry is found. -/
def answerWith (index : Nat) (entry : Entry) (value : RegKey) : Answer :=
  if entry.fits value then { status := statusSuccess, fills := [fillOf index value] }
  else { status := statusBufferTooSmall, fills := [] }

/-- The loop of `RtlQueryRegistryValues` over the entries that can be read from `QueryTable` on,
with what is in `key`. -/
def queryEntries (pathA : List UInt8) : List UInt8 → Nat → List Entry → Except Stop Answer
  | _, _, [] => .error .overread
  | key, index, entry :: rest =>
    if entry.present then do
      let key ← wstr2strex (entry.name.map Text.memory) key
      let path ← snprintfPath pathA key
      match registryLookup path with
      | none => queryEntries pathA key (index + 1) rest
      | some value =>
        if entry.direct then .ok (answerWith index entry value)
        else queryEntries pathA key (index + 1) rest
    else .ok { status := statusObjectNameNotFound, fills := [] }

/-- `RtlQueryRegistryValues`. -/
def rtlQueryRegistryValues (path : Option (Text UInt16)) (queryTable : Option (List Entry)) :
    Except Stop Answer :=
  match path, queryTable with
  | some path, some queryTable => do
    let pathA ← wstr2strex (some path.memory) declared
    queryEntries pathA declared 0 queryTable
  | _, _ => .ok { status := statusAccessViolation, fills := [] }

/-! ### What the loop finds -/

/-- What is in `key` when the names of some entries have been converted, one after the other. -/
def keyAfter (key : List UInt8) (entries : List Entry) : Except Stop (List UInt8) :=
  entries.foldlM (fun key entry => wstr2strex (entry.name.map Text.memory) key) key

/-- The value that is found for an entry behind some others. -/
def foundFor (pathA key : List UInt8) (before : List Entry) (entry : Entry) :
    Except Stop (Option RegKey) := do
  let key ← keyAfter key (before ++ [entry])
  let path ← snprintfPath pathA key
  .ok (registryLookup path)

/-- The loop goes on behind some entries: their names are converted, and for none of those with
`RTL_QUERY_REGISTRY_DIRECT` a value is found. -/
def Passes (pathA key : List UInt8) (entries : List Entry) : Prop :=
  ∀ before entry after, entries = before ++ entry :: after →
    ∃ value, foundFor pathA key before entry = .ok value ∧ (entry.direct = true → value = none)

theorem foundFor_cons {pathA key next : List UInt8} {first : Entry}
    (converts : wstr2strex (first.name.map Text.memory) key = .ok next) (before : List Entry)
    (entry : Entry) :
    foundFor pathA key (first :: before) entry = foundFor pathA next before entry := by
  rw [foundFor, keyAfter, List.cons_append, List.foldlM_cons, converts]
  rfl

theorem foundFor_stops {pathA key : List UInt8} {first : Entry} {stop : Stop}
    (stops : wstr2strex (first.name.map Text.memory) key = .error stop) :
    foundFor pathA key [] first = .error stop := by
  rw [foundFor, keyAfter, List.nil_append, List.foldlM_cons, stops]
  rfl

theorem foundFor_nil {pathA key next : List UInt8} {first : Entry}
    (converts : wstr2strex (first.name.map Text.memory) key = .ok next) :
    foundFor pathA key [] first = (snprintfPath pathA next).map registryLookup := by
  rw [foundFor, keyAfter, List.nil_append, List.foldlM_cons, converts]
  change (snprintfPath pathA next >>= fun path => .ok (registryLookup path)) = _
  cases snprintfPath pathA next <;> rfl

theorem passes_nil (pathA key : List UInt8) : Passes pathA key [] :=
  fun _ _ _ split => absurd split.symm (List.append_ne_nil_of_right_ne_nil _ (List.cons_ne_nil _ _))

theorem passes_cons {pathA key next : List UInt8} {first : Entry} {rest : List Entry}
    (converts : wstr2strex (first.name.map Text.memory) key = .ok next) :
    Passes pathA key (first :: rest) ↔
      (∃ value, foundFor pathA key [] first = .ok value ∧ (first.direct = true → value = none)) ∧
        Passes pathA next rest := by
  constructor
  · intro passes
    refine ⟨passes [] first rest rfl, fun before entry after split => ?_⟩
    rw [← foundFor_cons converts]
    exact passes (first :: before) entry after (by rw [split, List.cons_append])
  · rintro ⟨passed, passes⟩ before entry after split
    cases before with
    | nil =>
      obtain ⟨rfl, rfl⟩ := List.cons.inj split
      exact passed
    | cons head before =>
      obtain ⟨rfl, tail⟩ := List.cons.inj split
      rw [foundFor_cons converts]
      exact passes before entry after tail

/-- The loop ends at an entry of the table: it goes on behind those before it, and for this one,
which has `RTL_QUERY_REGISTRY_DIRECT`, a value is found. -/
structure Ends (pathA key : List UInt8) (entries before : List Entry) (entry : Entry)
    (value : RegKey) : Prop where
  split : ∃ after, entries = before ++ entry :: after
  passes : Passes pathA key before
  found : foundFor pathA key before entry = .ok (some value)
  direct : entry.direct = true

section

variable {pathA key next : List UInt8} {first : Entry} {rest : List Entry}

/-- However the loop goes, the name of the first entry is converted and looked up. -/
theorem exists_found_of_ends {before : List Entry} {entry : Entry} {value : RegKey}
    (ends : Ends pathA key (first :: rest) before entry value) :
    ∃ found, foundFor pathA key [] first = .ok found := by
  obtain ⟨after, split⟩ := ends.split
  cases before with
  | nil =>
    obtain ⟨rfl, _⟩ := List.cons.inj split
    exact ⟨_, ends.found⟩
  | cons head before =>
    obtain ⟨rfl, _⟩ := List.cons.inj split
    obtain ⟨found, finds, _⟩ := ends.passes [] _ before rfl
    exact ⟨found, finds⟩

/-- Behind a direct entry whose value is found the loop does not go on. -/
theorem not_passes {value : RegKey} (finds : foundFor pathA key [] first = .ok (some value))
    (direct : first.direct = true) : ¬ Passes pathA key (first :: rest) := by
  intro passes
  obtain ⟨found, same, none⟩ := passes [] first rest rfl
  rw [finds, none direct] at same
  exact nomatch same

/-- At such an entry the loop ends. -/
theorem ends_first_iff {value : RegKey} (finds : foundFor pathA key [] first = .ok (some value))
    (direct : first.direct = true) {before : List Entry} {entry : Entry} {value' : RegKey} :
    Ends pathA key (first :: rest) before entry value' ↔
      before = [] ∧ entry = first ∧ value' = value := by
  constructor
  · intro ends
    obtain ⟨after, split⟩ := ends.split
    cases before with
    | nil =>
      obtain ⟨rfl, _⟩ := List.cons.inj split
      have same := ends.found.symm.trans finds
      rw [Except.ok.injEq, Option.some.injEq] at same
      exact ⟨rfl, rfl, same⟩
    | cons head before =>
      obtain ⟨rfl, _⟩ := List.cons.inj split
      exact absurd ends.passes (not_passes finds direct)
  · rintro ⟨rfl, rfl, rfl⟩
    exact {
      split := ⟨rest, rfl⟩
      passes := passes_nil pathA key
      found := finds
      direct := direct }

/-- Where the loop goes on behind the first entry, it ends as it does for the rest. -/
theorem ends_cons_iff (converts : wstr2strex (first.name.map Text.memory) key = .ok next)
    (passed : ∃ value, foundFor pathA key [] first = .ok value ∧
      (first.direct = true → value = none))
    {before : List Entry} {entry : Entry} {value : RegKey} :
    Ends pathA key (first :: rest) before entry value ↔
      ∃ before', before = first :: before' ∧ Ends pathA next rest before' entry value := by
  constructor
  · intro ends
    obtain ⟨after, split⟩ := ends.split
    cases before with
    | nil =>
      obtain ⟨rfl, _⟩ := List.cons.inj split
      obtain ⟨found, finds, none⟩ := passed
      rw [ends.found, Except.ok.injEq] at finds
      exact nomatch finds.trans (none ends.direct)
    | cons head before =>
      obtain ⟨rfl, tail⟩ := List.cons.inj split
      exact ⟨before, rfl, {
        split := ⟨after, tail⟩
        passes := ((passes_cons converts).mp ends.passes).2
        found := by rw [← foundFor_cons converts, ends.found]
        direct := ends.direct }⟩
  · rintro ⟨before, rfl, ends⟩
    obtain ⟨after, split⟩ := ends.split
    exact {
      split := ⟨after, by rw [split, List.cons_append]⟩
      passes := (passes_cons converts).mpr ⟨passed, ends.passes⟩
      found := by rw [foundFor_cons converts, ends.found]
      direct := ends.direct }

end

/-- A turn stops, it ends the loop, or the loop goes on with what is in `key` then. -/
theorem queryEntries_cases (pathA key : List UInt8) (index : Nat) {first : Entry}
    (present : first.present = true) (rest : List Entry) :
    (∃ stop, foundFor pathA key [] first = .error stop ∧
        queryEntries pathA key index (first :: rest) = .error stop) ∨
      (∃ value, foundFor pathA key [] first = .ok (some value) ∧ first.direct = true ∧
        queryEntries pathA key index (first :: rest) = .ok (answerWith index first value)) ∨
      ∃ next, wstr2strex (first.name.map Text.memory) key = .ok next ∧
        (∃ value, foundFor pathA key [] first = .ok value ∧
          (first.direct = true → value = none)) ∧
        queryEntries pathA key index (first :: rest) =
          queryEntries pathA next (index + 1) rest := by
  rw [queryEntries, if_pos present]
  cases converts : wstr2strex (first.name.map Text.memory) key with
  | error stop => exact .inl ⟨stop, foundFor_stops converts, rfl⟩
  | ok next =>
    rw [foundFor_nil converts, ok_bind]
    cases snprintfPath pathA next with
    | error stop => exact .inl ⟨stop, rfl, rfl⟩
    | ok path =>
      rw [ok_bind]
      cases looked : registryLookup path with
      | none =>
        exact .inr (.inr ⟨next, rfl, ⟨none, congrArg Except.ok looked, fun _ => rfl⟩, rfl⟩)
      | some value =>
        cases direct : first.direct with
        | true => exact .inr (.inl ⟨value, congrArg Except.ok looked, rfl, if_pos rfl⟩)
        | false =>
          exact .inr (.inr ⟨next, rfl, ⟨some value, congrArg Except.ok looked, nofun⟩,
            if_neg Bool.false_ne_true⟩)

/-- The loop goes on behind all entries of a table, and nothing is found, or it ends at one of
them. -/
theorem queryEntries_eq_ok_iff {pathA key : List UInt8} {index : Nat} {entries : List Entry}
    (present : ∀ entry ∈ entries, entry.present = true) {last : Entry}
    (absent : last.present = false) (behind : List Entry) (answer : Answer) :
    queryEntries pathA key index (entries ++ last :: behind) = .ok answer ↔
      (Passes pathA key entries ∧ answer = { status := statusObjectNameNotFound, fills := [] }) ∨
        ∃ before entry value, Ends pathA key entries before entry value ∧
          answer = answerWith (index + before.length) entry value := by
  induction entries generalizing key index with
  | nil =>
    have notFound : queryEntries pathA key index ([] ++ last :: behind) =
        .ok { status := statusObjectNameNotFound, fills := [] } := by
      rw [List.nil_append, queryEntries, if_neg (by rw [absent]; decide)]
    rw [notFound, Except.ok.injEq]
    constructor
    · rintro rfl
      exact .inl ⟨passes_nil pathA key, rfl⟩
    · rintro (⟨_, rfl⟩ | ⟨before, entry, value, ends, _⟩)
      · rfl
      · obtain ⟨after, split⟩ := ends.split
        exact absurd split.symm (by simp)
  | cons first rest inductionHypothesis =>
    have rests : ∀ entry ∈ rest, entry.present = true :=
      fun entry within => present entry (List.mem_cons_of_mem _ within)
    rcases queryEntries_cases pathA key index (present first List.mem_cons_self)
        (rest ++ last :: behind) with
      ⟨stop, finds, result⟩ | ⟨value, finds, direct, result⟩ | ⟨next, converts, passed, result⟩
    · rw [List.cons_append, result]
      refine iff_of_false nofun ?_
      rintro (⟨passes, _⟩ | ⟨before, entry, value, ends, _⟩)
      · obtain ⟨value, found, _⟩ := passes [] first rest rfl
        exact nomatch finds.symm.trans found
      · obtain ⟨value, found⟩ := exists_found_of_ends ends
        exact nomatch finds.symm.trans found
    · rw [List.cons_append, result, Except.ok.injEq, or_iff_right fun both =>
        not_passes finds direct both.1]
      constructor
      · rintro rfl
        exact ⟨[], first, value, (ends_first_iff finds direct).mpr ⟨rfl, rfl, rfl⟩, rfl⟩
      · rintro ⟨before, entry, value', ends, rfl⟩
        obtain ⟨rfl, rfl, rfl⟩ := (ends_first_iff finds direct).mp ends
        rfl
    · rw [List.cons_append, result, inductionHypothesis rests, passes_cons converts]
      refine or_congr (and_congr_left' ⟨fun passes => ⟨passed, passes⟩, And.right⟩) ?_
      constructor
      · rintro ⟨before, entry, value, ends, rfl⟩
        refine ⟨first :: before, entry, value,
          (ends_cons_iff converts passed).mpr ⟨before, rfl, ends⟩, ?_⟩
        rw [List.length_cons, Nat.add_assoc, Nat.add_comm 1]
      · rintro ⟨before, entry, value, ends, rfl⟩
        obtain ⟨before, rfl, later⟩ := (ends_cons_iff converts passed).mp ends
        refine ⟨before, entry, value, later, ?_⟩
        rw [List.length_cons, Nat.add_assoc, Nat.add_comm 1]

end Nloader.Registry
