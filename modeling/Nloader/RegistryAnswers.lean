/-
This file says which query tables `RtlQueryRegistryValues` answers as it should: it fills each entry
with `RTL_QUERY_REGISTRY_DIRECT` whose value is among the values and fits, it stores nothing behind
the end of a buffer, and it only succeeds where it has filled all such entries.

Where all names are short, those are the tables with nothing to fill, and the ones with a single
entry to fill.
-/

import Nloader.Registry

namespace Nloader.Registry

open CommandLine ConvertedStrings CountedStrings Events Open Outcome Terminated
open Parameters (chars sizeofWchar widen)

/-! ### What a table asks for -/

/-- A query table: its entries, and one with neither a routine nor a name. -/
structure Table where
  entries : List Entry
  present : ∀ entry ∈ entries, entry.present = true
  last : Entry
  absent : last.present = false
  behind : List Entry

/-- What can be read from the first entry of a table on. -/
def Table.memory (table : Table) : List Entry := table.entries ++ table.last :: table.behind

/-- The value of an entry: the one under its own name in the path. -/
def Entry.own (entry : Entry) (path : Text UInt16) : Option RegKey :=
  entry.name.bind fun name =>
    registryLookup (narrow path.characters ++ 0x5c :: narrow name.characters)

/-- What a call should leave: each direct entry is filled whose value is in the table of values and
fits, nothing is stored behind the end of a buffer, and all direct entries are filled where the call
succeeds. -/
structure Answer.Right (answer : Answer) (path : Text UInt16) (entries : List Entry) : Prop where
  filled : ∀ index entry value, entries[index]? = some entry → entry.direct = true →
    entry.own path = some value → value.len.toNat ≤ entry.maximumLength.toNat →
      fillOf index value ∈ answer.fills
  within : ∀ fill ∈ answer.fills, ∃ entry, entries[fill.index]? = some entry ∧
    fill.data.length * sizeofWchar ≤ entry.maximumLength.toNat
  success : answer.status = statusSuccess →
    ∀ index entry, entries[index]? = some entry → entry.direct = true →
      ∃ value, entry.own path = some value ∧ fillOf index value ∈ answer.fills

/-- No direct entry has a value that fits. -/
def NoneFits (path : Text UInt16) (entries : List Entry) : Prop :=
  ∀ entry ∈ entries, entry.direct = true →
    ∀ value, entry.own path = some value → ¬ value.len.toNat ≤ entry.maximumLength.toNat

theorem fits_iff (entry : Entry) (value : RegKey) :
    entry.fits value = true ↔ value.len.toNat ≤ entry.maximumLength.toNat := by
  rw [Entry.fits, Bool.not_eq_true', decide_eq_false_iff_not, UInt32.not_lt, UInt32.le_iff_toNat_le,
    UInt16.toNat_toUInt32]

theorem mem_regKeys {path : List UInt8} {value : RegKey}
    (found : registryLookup path = some value) : value ∈ regKeys := by
  rw [registryLookup] at found
  exact List.mem_of_find?_eq_some found

/-- The data of a value is as long as `len` says. -/
theorem toNat_len {value : RegKey} (known : value ∈ regKeys) :
    value.len.toNat = value.data.length * sizeofWchar := by
  have all : regKeys.all (fun value =>
      value.len.toNat == value.data.length * sizeofWchar) = true := by
    decide +kernel
  exact beq_iff_eq.mp (List.all_eq_true.mp all value known)

theorem fillOf_eq_iff (index : Nat) (first second : RegKey) :
    fillOf index first = fillOf index second ↔ first.data = second.data := by
  constructor
  · exact fun same => congrArg Fill.data same
  · intro same
    rw [fillOf, fillOf, RegKey.len, RegKey.len, same]

/-- A failure with which nothing is filled is right exactly where nothing fits. -/
theorem right_nil_iff {status : Status} (failure : status ≠ statusSuccess) {path : Text UInt16}
    {entries : List Entry} :
    Answer.Right { status := status, fills := [] } path entries ↔ NoneFits path entries := by
  constructor
  · intro right entry within direct value own fits
    obtain ⟨index, found⟩ := List.mem_iff_getElem?.mp within
    exact nomatch right.filled index entry value found direct own fits
  · intro none
    exact {
      filled := fun index entry value found direct own fits =>
        absurd fits (none entry (List.mem_of_getElem? found) direct value own)
      within := nofun
      success := fun same => absurd same failure }

/-- A success with which one entry is filled is right exactly where it is filled with its own value,
and is the only direct one. -/
theorem right_singleton_iff {path : Text UInt16} {entries : List Entry} {place : Nat}
    {entry : Entry} {value : RegKey} (here : entries[place]? = some entry)
    (direct : entry.direct = true) (known : value ∈ regKeys)
    (fits : value.len.toNat ≤ entry.maximumLength.toNat) :
    Answer.Right { status := statusSuccess, fills := [fillOf place value] } path entries ↔
      (entry.own path).map RegKey.data = some value.data ∧
        ∀ index other, entries[index]? = some other → other.direct = true → index = place := by
  constructor
  · intro right
    have filled := right.success rfl
    constructor
    · obtain ⟨own, isOwn, stored⟩ := filled place entry here direct
      rw [isOwn, Option.map_some, Option.some.injEq]
      exact (fillOf_eq_iff _ _ _).mp (List.mem_singleton.mp stored)
    · intro index other found otherDirect
      obtain ⟨own, _, stored⟩ := filled index other found otherDirect
      exact congrArg Fill.index (List.mem_singleton.mp stored)
  · rintro ⟨isOwn, only⟩
    obtain ⟨own, found, same⟩ := Option.map_eq_some_iff.mp isOwn
    -- A direct entry of the table is the one that has been filled.
    have isEntry : ∀ index other, entries[index]? = some other → other.direct = true →
        index = place ∧ other = entry := by
      intro index other at_ otherDirect
      have equal := only index other at_ otherDirect
      rw [equal, here, Option.some.injEq] at at_
      exact ⟨equal, at_.symm⟩
    exact {
      filled := fun index other value' at_ otherDirect otherOwn _ => by
        obtain ⟨rfl, rfl⟩ := isEntry index other at_ otherDirect
        rw [found, Option.some.injEq] at otherOwn
        rw [List.mem_singleton, fillOf_eq_iff, ← otherOwn, same]
      within := fun fill stored => by
        rw [List.mem_singleton.mp stored]
        exact ⟨entry, here, (toNat_len known).symm.trans_le fits⟩
      success := fun _ index other at_ otherDirect => by
        obtain ⟨rfl, rfl⟩ := isEntry index other at_ otherDirect
        exact ⟨own, found, by rw [List.mem_singleton, fillOf_eq_iff, same]⟩ }

/-- A call leaves what it should. -/
def Answers (path : Text UInt16) (table : Table) : Prop :=
  ∃ answer, rtlQueryRegistryValues (some path) (some table.memory) = .ok answer ∧
    answer.Right path table.entries

theorem known_of_found {pathA key : List UInt8} {before : List Entry} {entry : Entry}
    {value : RegKey} (found : foundFor pathA key before entry = .ok (some value)) :
    value ∈ regKeys := by
  obtain ⟨last, _, found⟩ := bind_eq_ok.mp found
  obtain ⟨path, _, found⟩ := bind_eq_ok.mp found
  exact mem_regKeys (Except.ok.inj found)

theorem Ends.here {pathA key : List UInt8} {entries before : List Entry} {entry : Entry}
    {value : RegKey} (ends : Ends pathA key entries before entry value) :
    entries[before.length]? = some entry := by
  obtain ⟨after, split⟩ := ends.split
  rw [split, List.getElem?_append_right le_rfl, Nat.sub_self, List.getElem?_cons_zero]

/-- What is left when the loop ends at an entry is right exactly where its value fits, is its own,
and no other entry is direct, or where it does not fit, and no direct entry has one that does. -/
theorem right_answerWith_iff {pathA key : List UInt8} {path : Text UInt16}
    {entries before : List Entry} {entry : Entry} {value : RegKey}
    (ends : Ends pathA key entries before entry value) :
    (answerWith before.length entry value).Right path entries ↔
      if value.len.toNat ≤ entry.maximumLength.toNat then
        (entry.own path).map RegKey.data = some value.data ∧
          ∀ index other, entries[index]? = some other → other.direct = true →
            index = before.length
      else NoneFits path entries := by
  rw [answerWith]
  by_cases fits : value.len.toNat ≤ entry.maximumLength.toNat
  · rw [if_pos ((fits_iff entry value).mpr fits), if_pos fits]
    exact right_singleton_iff ends.here ends.direct (known_of_found ends.found) fits
  · rw [if_neg (mt (fits_iff entry value).mp fits), if_neg fits]
    exact right_nil_iff (by decide)

/-- The conversions up to the end of the loop stay in their arrays, and either the loop goes through
the table, or it ends at a direct entry. In the first case, and where the value of that entry does
not fit, no direct entry has one that fits; otherwise the value is its own, and no other entry is
direct. -/
def Answerable (path : Text UInt16) (table : Table) : Prop :=
  ∃ pathA, wstr2strex (some path.memory) declared = .ok pathA ∧
    ((Passes pathA declared table.entries ∧ NoneFits path table.entries) ∨
      ∃ before entry value, Ends pathA declared table.entries before entry value ∧
        if value.len.toNat ≤ entry.maximumLength.toNat then
          (entry.own path).map RegKey.data = some value.data ∧
            ∀ index other, table.entries[index]? = some other → other.direct = true →
              index = before.length
        else NoneFits path table.entries)

/-- Exactly these tables are answered as they should be. -/
theorem answers_iff (path : Text UInt16) (table : Table) :
    Answers path table ↔ Answerable path table := by
  constructor
  · rintro ⟨answer, result, right⟩
    obtain ⟨pathA, converts, result⟩ := bind_eq_ok.mp result
    refine ⟨pathA, converts, ?_⟩
    rcases (queryEntries_eq_ok_iff table.present table.absent table.behind answer).mp result with
      ⟨passes, rfl⟩ | ⟨before, entry, value, ends, rfl⟩
    · exact .inl ⟨passes, (right_nil_iff (by decide)).mp right⟩
    · rw [Nat.zero_add, right_answerWith_iff ends] at right
      exact .inr ⟨before, entry, value, ends, right⟩
  · rintro ⟨pathA, converts, ⟨passes, none⟩ | ⟨before, entry, value, ends, condition⟩⟩
    · refine ⟨_, bind_eq_ok.mpr ⟨pathA, converts, ?_⟩,
        (right_nil_iff (show statusObjectNameNotFound ≠ statusSuccess by decide)).mpr none⟩
      exact (queryEntries_eq_ok_iff table.present table.absent table.behind _).mpr
        (.inl ⟨passes, rfl⟩)
    · refine ⟨_, bind_eq_ok.mpr ⟨pathA, converts, ?_⟩, (right_answerWith_iff ends).mpr condition⟩
      refine (queryEntries_eq_ok_iff table.present table.absent table.behind _).mpr
        (.inr ⟨before, entry, value, ends, ?_⟩)
      rw [Nat.zero_add]

/-- `L"System\\Setup"`. -/
def setupPath : Text UInt16 where
  characters := (chars "System\\Setup").map widen
  nonzero := by decide

/-- An entry that asks for `SystemPartition`, with room for its value. -/
def partitionEntry : Entry where
  queryRoutine := false
  flags := rtlQueryRegistryDirect
  name := some { characters := (chars "SystemPartition").map widen, nonzero := by decide }
  maximumLength := 64

/-- A table that asks for it twice. -/
def twoPartitions : Table where
  entries := [partitionEntry, partitionEntry]
  present := by decide
  last := { queryRoutine := false, flags := 0, name := none, maximumLength := 0 }
  absent := rfl
  behind := []

/-- Of two direct entries only the first one is filled. -/
theorem not_answers : ¬ ∀ (path : Text UInt16) (table : Table), Answers path table := by
  intro always
  obtain ⟨answer, result, right⟩ := always setupPath twoPartitions
  have first : (rtlQueryRegistryValues (some setupPath) (some twoPartitions.memory)).toOption =
      some { status := statusSuccess
             fills := [fillOf 0 (regSz "System\\Setup\\SystemPartition"
               "\\Device\\HarddiskVolume1")] } := by
    decide +kernel
  have own : partitionEntry.own setupPath =
      some (regSz "System\\Setup\\SystemPartition" "\\Device\\HarddiskVolume1") := by
    decide +kernel
  rw [result, Except.toOption, Option.some.injEq] at first
  have filled := right.filled 1 partitionEntry _ rfl (by decide) own (by decide +kernel)
  rw [first] at filled
  exact absurd (congrArg Fill.index (List.mem_singleton.mp filled)) (by decide)

/-! ### Short names -/

theorem sameIgnoringCase_length {first second : List UInt8}
    (same : sameIgnoringCase first second = true) : first.length = second.length := by
  have lengths := congrArg List.length ((sameIgnoringCase_iff first second).mp same)
  rwa [List.length_map, List.length_map] at lengths

/-- A value has a short path. -/
theorem length_of_lookup {path : List UInt8} {value : RegKey}
    (found : registryLookup path = some value) : path.length < 511 := by
  have all : regKeys.all (fun value => decide (value.path.length < 100)) = true := by
    decide +kernel
  have short := of_decide_eq_true (List.all_eq_true.mp all value (mem_regKeys found))
  have regPrefixLength : regPrefix.length = 18 := by decide
  rw [registryLookup] at found
  have matched := List.find?_some found
  have same := sameIgnoringCase_length matched
  split at same
  · rw [List.length_drop] at same
    omega
  · omega

/-- What `snprintf` cuts off makes no difference. -/
theorem registryLookup_take (path : List UInt8) :
    registryLookup (path.take 511) = registryLookup path := by
  by_cases short : path.length ≤ 511
  · rw [List.take_of_length_le short]
  · have none : registryLookup path = none := by
      refine Option.eq_none_iff_forall_ne_some.mpr fun value found => ?_
      have := length_of_lookup found
      omega
    rw [none]
    refine Option.eq_none_iff_forall_ne_some.mpr fun value found => ?_
    have := length_of_lookup found
    rw [List.length_take] at this
    omega

/-- An entry without a name, or with a short one. -/
def Entry.Short (entry : Entry) : Prop := ∀ name ∈ entry.name, name.characters.length < 1024

theorem exists_key {entry : Entry} (short : entry.Short) {key : List UInt8}
    (size : key.length = 1024) :
    ∃ next, wstr2strex (entry.name.map Text.memory) key = .ok next ∧ next.length = 1024 ∧
      ∀ name ∈ entry.name, cString next = .ok (narrow name.characters) := by
  cases named : entry.name with
  | none =>
    exact ⟨key, rfl, size, nofun⟩
  | some name =>
    obtain ⟨next, converts, length, text⟩ :=
      wstr2strex_short { toText := name, short := short name named } [] size
    rw [List.append_nil] at converts
    refine ⟨next, converts, length, fun name' same => ?_⟩
    rw [← Option.some.inj same]
    exact text

/-- For an entry with a name its own value is found, where all names up to it are short. -/
theorem foundFor_short {path : Text UInt16} {pathA key : List UInt8} (size : key.length = 1024)
    (converted : cString pathA = .ok (narrow path.characters)) {before : List Entry}
    (shorts : ∀ entry ∈ before, entry.Short) {entry : Entry} (short : entry.Short)
    (named : entry.name.isSome) :
    foundFor pathA key before entry = .ok (entry.own path) := by
  induction before generalizing key with
  | nil =>
    obtain ⟨next, converts, _, text⟩ := exists_key short size
    obtain ⟨name, isName⟩ := Option.isSome_iff_exists.mp named
    rw [foundFor_nil converts, snprintfPath, converted, ok_bind, text name isName, ok_bind,
      Entry.own, isName]
    exact congrArg Except.ok (registryLookup_take _)
  | cons first before inductionHypothesis =>
    obtain ⟨next, converts, length, _⟩ := exists_key (shorts first List.mem_cons_self) size
    rw [foundFor_cons converts]
    exact inductionHypothesis length fun other within =>
      shorts other (List.mem_cons_of_mem _ within)

/-- Where all names are short, the loop comes to an end. -/
theorem passes_or_ends {path : Text UInt16} {pathA key : List UInt8} (size : key.length = 1024)
    (converted : cString pathA = .ok (narrow path.characters)) {entries : List Entry}
    (usual : ∀ entry ∈ entries, entry.Short ∧ entry.name.isSome) :
    Passes pathA key entries ∨
      ∃ before entry value, Ends pathA key entries before entry value := by
  induction entries generalizing key with
  | nil => exact .inl (passes_nil pathA key)
  | cons first rest inductionHypothesis =>
    obtain ⟨short, named⟩ := usual first List.mem_cons_self
    obtain ⟨next, converts, length, _⟩ := exists_key short size
    have found := foundFor_short size converted
      (show ∀ entry ∈ ([] : List Entry), entry.Short from nofun) short named
    by_cases passed : first.direct = true → first.own path = none
    · rcases inductionHypothesis length
          (fun entry within => usual entry (List.mem_cons_of_mem _ within)) with
        passes | ⟨before, entry, value, ends⟩
      · exact .inl ((passes_cons converts).mpr ⟨⟨_, found, passed⟩, passes⟩)
      · exact .inr ⟨first :: before, entry, value,
          (ends_cons_iff converts ⟨_, found, passed⟩).mpr ⟨before, rfl, ends⟩⟩
    · obtain ⟨direct, some⟩ := Classical.not_imp.mp passed
      obtain ⟨value, own⟩ := Option.ne_none_iff_exists'.mp some
      exact .inr ⟨[], first, value, {
        split := ⟨rest, rfl⟩
        passes := passes_nil pathA key
        found := found.trans (congrArg Except.ok own)
        direct := direct }⟩

/-- A table with short names for all entries is answered as it should be exactly where no direct
entry has a value that fits, or there is one direct entry only. -/
theorem answerable_iff_of_short {path : Text UInt16} (short : path.characters.length < 1024)
    {table : Table} (usual : ∀ entry ∈ table.entries, entry.Short ∧ entry.name.isSome) :
    Answerable path table ↔
      NoneFits path table.entries ∨
        ∃ (place : Nat) (entry : Entry) (value : RegKey),
          table.entries[place]? = some entry ∧ entry.direct = true ∧
          entry.own path = some value ∧ value.len.toNat ≤ entry.maximumLength.toNat ∧
          ∀ (index : Nat) (other : Entry), table.entries[index]? = some other →
            other.direct = true → index = place := by
  have size := length_declared
  obtain ⟨pathA, converts, _, converted⟩ :=
    wstr2strex_short { toText := path, short := short } [] size
  rw [List.append_nil] at converts
  have found : ∀ before entry after, table.entries = before ++ entry :: after →
      foundFor pathA declared before entry = .ok (entry.own path) := by
    intro before entry after split
    have within := usual entry (by rw [split]; exact List.mem_append_right _ List.mem_cons_self)
    exact foundFor_short size converted
      (fun other earlier => (usual other (by rw [split]; exact List.mem_append_left _ earlier)).1)
      within.1 within.2
  have ownOf : ∀ {before entry value}, Ends pathA declared table.entries before entry value →
      entry.own path = some value := by
    intro before entry value ends
    obtain ⟨after, split⟩ := ends.split
    exact Except.ok.inj ((found before entry after split).symm.trans ends.found)
  constructor
  · rintro ⟨pathA', converts', condition⟩
    obtain rfl := Except.ok.inj (converts.symm.trans converts')
    rcases condition with ⟨_, none⟩ | ⟨before, entry, value, ends, condition⟩
    · exact .inl none
    · split at condition
      · rename_i fits
        exact .inr ⟨before.length, entry, value, ends.here, ends.direct, ownOf ends, fits,
          condition.2⟩
      · exact .inl condition
  · intro condition
    refine ⟨pathA, converts, ?_⟩
    rcases passes_or_ends size converted usual with passes | ⟨before, entry, value, ends⟩
    · rcases condition with none | ⟨place, entry, value, here, direct, own, _⟩
      · exact .inl ⟨passes, none⟩
      · obtain ⟨before, after, split⟩ := List.append_of_mem (List.mem_of_getElem? here)
        obtain ⟨value', finds, none⟩ := passes before entry after split
        rw [found before entry after split, none direct, own] at finds
        exact nomatch finds
    · refine .inr ⟨before, entry, value, ends, ?_⟩
      rcases condition with none | ⟨place, entry', value', here, direct, own, fits, only⟩
      · have room := none entry (List.mem_of_getElem? ends.here) ends.direct value (ownOf ends)
        rw [if_neg room]
        exact none
      · have same := only before.length entry ends.here ends.direct
        rw [← same, ends.here, Option.some.injEq] at here
        rw [← here, ownOf ends, Option.some.injEq] at own
        rw [if_pos (by rw [own, here]; exact fits), ownOf ends, same]
        exact ⟨rfl, only⟩

end Nloader.Registry
