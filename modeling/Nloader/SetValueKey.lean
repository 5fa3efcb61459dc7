/-
This file models `NtSetValueKey` of `src/libs/ntdll/registry.c`, with its two arrays for converted
texts and what lies behind the first one, and says when it stores to nothing else.

The pass for `REG_MULTI_SZ` goes through the array with the name of the value where it should go
through the one with the data. So it changes the name, and for more than 1024 characters it leaves
the array.
-/

import Nloader.Registry

namespace Nloader.Registry

open CommandLine CountedStrings Events Handles Outcome Terminated WideStrings
open Parameters (sizeofWchar)

/-! ### The function -/

/-- `REG_MULTI_SZ`. -/
def regMultiSzType : UInt32 := 7

/-- The two arrays. -/
structure Arrays where
  valueNameA : List UInt8
  dataA : List UInt8
  deriving DecidableEq

/-- The pass for `REG_MULTI_SZ`, from an index on, with what can be read behind the array. -/
def multiSzLoop (behind : List UInt8) : Nat → Nat → List UInt8 → Except Stop (List UInt8)
  | 0, _, valueNameA => .ok valueNameA
  | count + 1, i, valueNameA => do
    let c ← orOverread ((valueNameA ++ behind)[i]?)
    if c = 0 then do
      let valueNameA ← write valueNameA i 0x7c
      multiSzLoop behind count (i + 1) valueNameA
    else multiSzLoop behind count (i + 1) valueNameA

/-- `NtSetValueKey`. The arrays are only there when the handle and the name are. -/
def ntSetValueKey (behind : List UInt8) (keyHandle : Option Header)
    (valueName : Option (CountedString UInt16)) (type : UInt32) (data : Option (List UInt16))
    (dataSize : UInt32) : Except Stop (Status × Option Arrays) :=
  match checkHandle keyHandle handleReg, valueName with
  | some status, _ => .ok (status, none)
  | none, none => .ok (statusAccessViolation, none)
  | none, some valueName => do
    let valueNameA ← us2str valueName
    let dataA ← convert declared data dataSize
    let valueNameA ←
      if type = regMultiSzType then
        multiSzLoop behind (dataSize.toNat / sizeofWchar) 0 valueNameA
      else .ok valueNameA
    .ok (statusSuccess, some { valueNameA := valueNameA, dataA := dataA })

/-! ### The conversions -/

/-- What is converted leaves the array: it is too long, and the character too many can be read. -/
def Overruns (text : Option (List UInt16)) (size : UInt32) : Prop :=
  ∃ memory, text = some memory ∧ 1024 ≤ size.toNat / sizeofWchar ∧ 1024 < memory.length

/-- A conversion leaves its array only where the text is too long. -/
theorem convert_overruns_iff (text : Option (List UInt16)) (size : UInt32) :
    convert declared text size = .error .overrun ↔ Overruns text size := by
  cases text with
  | none =>
    rw [convert_none]
    refine iff_of_false (by simp) ?_
    rintro ⟨memory, same, _⟩
    cases same
  | some memory =>
    have given : Overruns (some memory) size ↔
        1024 ≤ size.toNat / sizeofWchar ∧ 1024 < memory.length := by
      constructor
      · rintro ⟨_, same, long⟩
        rwa [← Option.some.inj same] at long
      · exact fun long => ⟨memory, rfl, long⟩
    rw [given]
    by_cases zero : size.toNat / sizeofWchar = 0
    · rw [convert_of_zero _ _ zero, put_of_le (by rw [length_declared]; decide), zero]
      exact iff_of_false (by simp) (by omega)
    · rw [convert_of_pos declared rfl zero]
      split
      · rename_i readable
        rw [put, List.length_map, List.length_take, Nat.min_eq_left readable, length_declared]
        split
        · exact iff_of_false (by simp) (by omega)
        · exact iff_of_true rfl (by omega)
      · exact iff_of_false (by simp) (by omega)

/-! ### The pass -/

/-- What the pass has gone through it does not change any more. -/
theorem getElem?_of_multiSzLoop {behind before after : List UInt8} {count i : Nat}
    (returns : multiSzLoop behind count i before = .ok after) {place : Nat} (less : place < i) :
    after[place]? = before[place]? := by
  induction count generalizing i before with
  | zero => rw [Except.ok.inj returns]
  | succ count inductionHypothesis =>
    rw [multiSzLoop] at returns
    obtain ⟨c, _, returns⟩ := bind_eq_ok.mp returns
    split at returns
    · obtain ⟨next, stored, returns⟩ := bind_eq_ok.mp returns
      rw [inductionHypothesis returns (less.trans (Nat.lt_succ_self i))]
      rw [write] at stored
      split at stored
      · rw [← Except.ok.inj stored, List.getElem?_set_ne less.ne']
      · exact nomatch stored
    · exact inductionHypothesis returns (less.trans (Nat.lt_succ_self i))

/-- The pass leaves the array as it was exactly where it finds no zero. -/
theorem multiSzLoop_unchanged_iff {behind array : List UInt8} {count i : Nat} :
    multiSzLoop behind count i array = .ok array ↔
      ∀ place, i ≤ place → place < i + count →
        ∃ c, (array ++ behind)[place]? = some c ∧ c ≠ 0 := by
  induction count generalizing i with
  | zero => exact iff_of_true rfl fun place from_ below => absurd below (by omega)
  | succ count inductionHypothesis =>
    rw [multiSzLoop]
    constructor
    · intro returns
      obtain ⟨c, read, returns⟩ := bind_eq_ok.mp returns
      have found : (array ++ behind)[i]? = some c := by
        cases at_ : (array ++ behind)[i]? with
        | none => rw [at_] at read; exact nomatch read
        | some c' => rw [at_] at read; rw [Except.ok.inj read]
      split at returns
      · -- The character stored there is not taken back.
        rename_i zero
        obtain ⟨next, stored, returns⟩ := bind_eq_ok.mp returns
        rw [write] at stored
        split at stored
        · rename_i within
          have kept := getElem?_of_multiSzLoop returns (Nat.lt_succ_self i)
          have here : (array ++ behind)[i]? = array[i]? := List.getElem?_append_left within
          rw [← Except.ok.inj stored, List.getElem?_set_self within, ← here, found, zero] at kept
          exact absurd kept (by decide)
        · exact nomatch stored
      · rename_i nonzero
        intro place from_ below
        rcases Nat.eq_or_lt_of_le from_ with rfl | later
        · exact ⟨c, found, nonzero⟩
        · exact inductionHypothesis.mp returns place later (by omega)
    · intro clean
      obtain ⟨c, found, nonzero⟩ := clean i le_rfl (by omega)
      rw [found]
      change (if c = 0 then _ else _) = _
      rw [if_neg nonzero]
      exact inductionHypothesis.mpr fun place from_ below => clean place (by omega) (by omega)

/-! ### Calls -/

/-- The arguments of a call for a key, and what is on the stack behind the array with the name. -/
structure SetCall where
  valueName : CountedString UInt16
  type : UInt32
  data : Option (List UInt16)
  dataSize : UInt32
  behind : List UInt8

/-- `NtSetValueKey`, called with a handle of a key. -/
def SetCall.run (call : SetCall) : Except Stop (Status × Option Arrays) :=
  ntSetValueKey call.behind (some (.ofType handleReg)) (some call.valueName) call.type call.data
    call.dataSize

/-- `DataSize / sizeof(WCHAR)`. -/
def SetCall.count (call : SetCall) : Nat := call.dataSize.toNat / sizeofWchar

/-- The array with its zeros below an index replaced. -/
def marked (count : Nat) (array : List UInt8) : List UInt8 :=
  (array.take count).map (fun c => if c = 0 then 0x7c else c) ++ array.drop count

/-- A call stores to nothing but its arrays. Where both texts are converted, the name is as it was
converted in the end, and so are the data, but for the zeros that are replaced for `REG_MULTI_SZ`;
nothing is converted from `NULL`. -/
def SetCall.Contained (call : SetCall) : Prop :=
  call.run ≠ .error .overrun ∧
    ∀ valueNameA dataA, us2str call.valueName = .ok valueNameA →
      convert declared call.data call.dataSize = .ok dataA →
      call.run = .ok (statusSuccess, some {
        valueNameA := valueNameA
        dataA :=
          if call.type = regMultiSzType then
            marked (if call.data = none then 0 else call.count) dataA
          else dataA })

theorem marked_eq_iff (count : Nat) (array : List UInt8) :
    marked count array = array ↔ ∀ c ∈ array.take count, c ≠ 0 := by
  have whole : marked count array = array ↔
      (array.take count).map (fun c => if c = 0 then 0x7c else c) = (array.take count).map id := by
    rw [marked, List.map_id]
    exact (Eq.congr_right (List.take_append_drop count array).symm).trans (List.append_left_inj _)
  rw [whole, List.map_inj_left]
  refine forall₂_congr fun c _ => ?_
  by_cases zero : c = 0
  · rw [if_pos zero, zero]
    decide
  · rw [if_neg zero]
    exact iff_of_true rfl zero

theorem run_eq (call : SetCall) :
    call.run = (do
      let valueNameA ← us2str call.valueName
      let dataA ← convert declared call.data call.dataSize
      let valueNameA ←
        if call.type = regMultiSzType then
          multiSzLoop call.behind (call.dataSize.toNat / sizeofWchar) 0 valueNameA
        else .ok valueNameA
      .ok (statusSuccess, some { valueNameA := valueNameA, dataA := dataA })) := by
  unfold SetCall.run ntSetValueKey
  rw [checkHandle_ofType]

/-- What a call does behind its conversions. -/
theorem run_of_converted {call : SetCall} {valueNameA dataA : List UInt8}
    (name : us2str call.valueName = .ok valueNameA)
    (data : convert declared call.data call.dataSize = .ok dataA) :
    call.run = (if call.type = regMultiSzType then multiSzLoop call.behind call.count 0 valueNameA
      else .ok valueNameA).map fun valueNameA' =>
        (statusSuccess, some { valueNameA := valueNameA', dataA := dataA }) := by
  rw [run_eq, name, ok_bind, data, ok_bind, SetCall.count]
  by_cases multi : call.type = regMultiSzType
  · rw [if_pos multi, if_pos multi]
    cases multiSzLoop call.behind (call.dataSize.toNat / sizeofWchar) 0 valueNameA <;> rfl
  · rw [if_neg multi, if_neg multi]
    rfl

/-- Where both texts are converted, a call leaves what it should exactly where it has no zero to
replace. -/
theorem run_eq_iff {call : SetCall} {valueNameA dataA : List UInt8}
    (name : us2str call.valueName = .ok valueNameA)
    (data : convert declared call.data call.dataSize = .ok dataA) (count : Nat) :
    call.run = .ok (statusSuccess, some {
        valueNameA := valueNameA
        dataA := if call.type = regMultiSzType then marked count dataA else dataA }) ↔
      (call.type = regMultiSzType →
        (∀ place < call.count, ∃ c, (valueNameA ++ call.behind)[place]? = some c ∧ c ≠ 0) ∧
          ∀ c ∈ dataA.take count, c ≠ 0) := by
  rw [run_of_converted name data]
  by_cases multi : call.type = regMultiSzType
  · rw [if_pos multi, if_pos multi, imp_iff_right multi, ← marked_eq_iff]
    have clean : multiSzLoop call.behind call.count 0 valueNameA = .ok valueNameA ↔
        ∀ place < call.count, ∃ c, (valueNameA ++ call.behind)[place]? = some c ∧ c ≠ 0 := by
      rw [multiSzLoop_unchanged_iff, Nat.zero_add]
      exact forall_congr' fun place => ⟨fun all => all (Nat.zero_le place), fun all _ => all⟩
    rw [← clean]
    cases multiSzLoop call.behind call.count 0 valueNameA with
    | error stop => exact iff_of_false nofun fun both => nomatch both.1
    | ok after =>
      rw [Except.map, Except.ok.injEq, Except.ok.injEq, Prod.mk.injEq, Option.some.injEq,
        Arrays.mk.injEq, eq_self, true_and, @eq_comm _ dataA]
  · rw [if_neg multi, if_neg multi]
    exact iff_of_true rfl fun same => absurd same multi

/-- A call is contained exactly where neither conversion leaves its array, and the pass for
`REG_MULTI_SZ` finds no zero, neither in the name, where it looks for them, nor in the data, where
it should. -/
theorem setsKey_iff (call : SetCall) :
    call.Contained ↔
      ¬ Overruns call.valueName.buffer call.valueName.length.toUInt32 ∧
        ∀ valueNameA, us2str call.valueName = .ok valueNameA →
          ¬ Overruns call.data call.dataSize ∧
            ∀ dataA, convert declared call.data call.dataSize = .ok dataA →
              call.type = regMultiSzType →
                (∀ place < call.count,
                  ∃ c, (valueNameA ++ call.behind)[place]? = some c ∧ c ≠ 0) ∧
                ∀ c ∈ dataA.take (if call.data = none then 0 else call.count), c ≠ 0 := by
  rw [SetCall.Contained, ← convert_overruns_iff, ← convert_overruns_iff, ← us2str_eq_convert]
  cases name : us2str call.valueName with
  | error stop =>
    have stops : call.run = .error stop := by
      rw [run_eq, name]
      rfl
    rw [stops, Ne, Except.error.injEq, Except.error.injEq]
    exact ⟨fun contained => ⟨contained.1, nofun⟩, fun inside => ⟨inside.1, nofun⟩⟩
  | ok valueNameA =>
    cases data : convert declared call.data call.dataSize with
    | error stop =>
      have stops : call.run = .error stop := by
        rw [run_eq, name, ok_bind, data]
        rfl
      rw [stops, Ne, Except.error.injEq, Except.error.injEq]
      exact ⟨fun contained => ⟨nofun, fun _ _ => ⟨contained.1, nofun⟩⟩,
        fun inside => ⟨(inside.2 valueNameA rfl).1, nofun⟩⟩
    | ok dataA =>
      constructor
      · rintro ⟨_, leaves⟩
        refine ⟨nofun, fun valueNameA' name' => ⟨nofun, fun dataA' data' => ?_⟩⟩
        rw [Except.ok.injEq] at name' data'
        rw [← name', ← data']
        exact (run_eq_iff name data _).mp (leaves valueNameA dataA rfl rfl)
      · rintro ⟨_, inside⟩
        have leaves := (run_eq_iff name data _).mpr
          ((inside valueNameA rfl).2 dataA rfl)
        refine ⟨fun stops => (nomatch leaves.symm.trans stops),
          fun valueNameA' dataA' name' data' => ?_⟩
        rw [Except.ok.injEq] at name' data'
        rw [← name', ← data']
        exact leaves

/-- A call that sets the value `L"A"` to one text, `L"x"`. -/
def setA : SetCall where
  valueName := { length := 2, maximumLength := 4, buffer := some [0x41, 0] }
  type := regMultiSzType
  data := some [0x78, 0, 0, 0]
  dataSize := 6
  behind := []

/-- The pass changes the name `A` to `A|il)`. -/
theorem not_setsKey : ¬ ∀ call : SetCall, call.Contained := by
  intro always
  have runs : setA.run.toOption.map (fun left => left.2.map Arrays.valueNameA) =
      some (some ([0x41, 0x7c, 0x69, 0x6c, 0x29] ++ List.replicate 1019 0)) := by
    decide +kernel
  have name : (us2str setA.valueName).toOption =
      some ([0x41, 0, 0x69, 0x6c, 0x29] ++ List.replicate 1019 0) := by
    decide +kernel
  have data : (convert declared setA.data setA.dataSize).toOption.isSome := by
    decide +kernel
  cases named : us2str setA.valueName with
  | error stop => rw [named] at name; exact nomatch name
  | ok valueNameA =>
    cases converted : convert declared setA.data setA.dataSize with
    | error stop => rw [converted] at data; exact nomatch data
    | ok dataA =>
      rw [(always setA).2 valueNameA dataA named converted] at runs
      rw [named] at name
      have changed := runs.symm.trans (congrArg (Option.map some) name)
      exact absurd (Option.some.inj (Option.some.inj changed)) (by decide)

end Nloader.Registry
