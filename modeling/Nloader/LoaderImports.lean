/-
This file is about what the import walk reads. The walk is contained in the image where it
reads inside the image only, and returns NULL wherever it comes to a descriptor, a slot of a
thunk array or a name that is not wholly inside. The loader checks eight bytes of a
descriptor of twenty, loads a thunk before it checks the slot, and checks no name; the walk
is contained exactly where the import data makes up for that.
-/

import Nloader.LoaderReads

namespace Nloader.Loader

open Trace

/-! ### Parts of the import data -/

section Walk

variable (system : System) (memory : Memory) (image imageSize : Nat)

/-- A range of memory lies inside the image. -/
def Inside (address size : Nat) : Prop :=
  image ≤ address ∧ address + size ≤ image + imageSize

instance (address size : Nat) : Decidable (Inside image imageSize address size) :=
  inferInstanceAs (Decidable (image ≤ address ∧ address + size ≤ image + imageSize))

/-- A string ends inside the image. -/
def Terminated (address : Nat) : Prop :=
  image ≤ address ∧ ∃ length, memory (address + length) = 0 ∧
    address + length < image + imageSize

/-- A part of the import data lies wholly inside the image. -/
def PartInside : Part → Prop
  | .descriptor address => Inside image imageSize address 20
  | .slot address => Inside image imageSize address 8
  | .name address => Terminated memory image imageSize address

/-- A read of memory lies inside the image. -/
def ReadInside : Event → Prop
  | .read address size => Inside image imageSize address size
  | _ => True

/-- A part the walk comes to lies wholly inside the image. -/
def VisitInside : Event → Prop
  | .visit part => PartInside memory image imageSize part
  | _ => True

/-- A walk is contained in the image: it reads inside, and where it comes to a part that is
not wholly inside it returns NULL. -/
def WalkContained {Value : Type} (walk : Setup Value) : Prop :=
  (∀ event ∈ walk.events, ReadInside image imageSize event) ∧
    ((¬ ∀ event ∈ walk.events, VisitInside memory image imageSize event) →
      ∃ message, walk.result = .error (.null message))

/-! ### What the walk needs of the import data -/

/-- The 32-bit field at an address. -/
def dwordAt (address : Nat) : UInt32 :=
  field32 (loadBytes memory address 4) 0

/-- The thunk at an address. -/
def thunkAt (address : Nat) : UInt64 :=
  field64 (loadBytes memory address 8) 0

/-- The thunk imports by an ordinal. -/
def IsOrdinal (thunk : UInt64) : Prop :=
  thunk &&& peOrdinalFlag ≠ 0

instance (thunk : UInt64) : Decidable (IsOrdinal thunk) :=
  inferInstanceAs (Decidable (thunk &&& peOrdinalFlag ≠ 0))

/-- The name of an import ends inside the image, where it is imported by name. -/
def NameFits (thunk : UInt64) : Prop :=
  ¬ IsOrdinal thunk → Terminated memory image imageSize (image + 2 + thunk.toUInt32.toNat)

/-- The heap grants the blocks of an import. -/
def Granted (nfuncs : Nat) (thunk : UInt64) : Prop :=
  (IsOrdinal thunk → system.allocate .impname nfuncs = true) ∧
    system.allocate .fname nfuncs = true ∧ system.allocate .importNames nfuncs = true ∧
    system.allocate .importAddrs nfuncs = true ∧ system.allocate .thunks nfuncs = true

/-- The walk goes on behind a pair of slots. -/
structure GoesOn (names addrs nfuncs : Nat) : Prop where
  thunk : thunkAt memory names ≠ 0
  namesInside : Inside image imageSize names 8
  addrsInside : Inside image imageSize addrs 8
  granted : Granted system nfuncs (thunkAt memory names)

/-- Every slot of an array of names that the walk comes to lies inside the image, and so does
every name it comes to. -/
def FunctionsFit (names addrs nfuncs : Nat) : Prop :=
  ∀ index, (∀ earlier < index, GoesOn system memory image imageSize (names + 8 * earlier)
      (addrs + 8 * earlier) (nfuncs + earlier)) →
    Inside image imageSize (names + 8 * index) 8 ∧
      (thunkAt memory (names + 8 * index) ≠ 0 → Inside image imageSize (addrs + 8 * index) 8 →
        NameFits memory image imageSize (thunkAt memory (names + 8 * index)))

/-- The walk comes to the null thunk of an array behind a number of imports. -/
def FunctionsEnd (names addrs nfuncs count : Nat) : Prop :=
  (∀ index < count, GoesOn system memory image imageSize (names + 8 * index)
      (addrs + 8 * index) (nfuncs + index)) ∧
    thunkAt memory (names + 8 * count) = 0

/-- The descriptors from one on: wherever the first eight bytes of a descriptor lie inside
the image, the first sixteen do, and the others too unless a null `OrigThunk` ends the walk
before them; its name ends inside; its array fits, and where the walk comes to the end of
that the same holds of the next descriptor. -/
def LibrariesFit : Nat → UInt32 → Nat → Prop
  | 0, _, _ => True
  | count + 1, virtualAddress, nfuncs =>
    let descriptor := image + virtualAddress.toNat
    let dllname := image + (dwordAt memory (descriptor + 12)).toNat
    let names := image + (dwordAt memory descriptor).toNat
    let addrs := image + (dwordAt memory (descriptor + 16)).toNat
    Inside image imageSize descriptor 8 →
      Inside image imageSize descriptor 16 ∧
      (Inside image imageSize descriptor 20 ∨
        (dwordAt memory (descriptor + 12) ≠ 0 ∧ dwordAt memory descriptor = 0)) ∧
      (dwordAt memory (descriptor + 12) ≠ 0 → dwordAt memory descriptor ≠ 0 →
        Terminated memory image imageSize dllname ∧
        FunctionsFit system memory image imageSize names addrs nfuncs ∧
        ∀ number, FunctionsEnd system memory image imageSize names addrs nfuncs number →
          LibrariesFit count (virtualAddress + sizeofImageImport) (nfuncs + number))

end Walk

variable {system : System} {memory : Memory} {image imageSize : Nat}

theorem cliIsContained_iff (address : Nat) {size : Nat} (positive : 0 < size) :
    cliIsContained image imageSize address size = true ↔ Inside image imageSize address size := by
  unfold cliIsContained Inside
  rw [decide_eq_true_eq]
  omega

/-- The first slots of two arrays, and the others. -/
theorem functionsFit_iff (names addrs nfuncs : Nat) :
    FunctionsFit system memory image imageSize names addrs nfuncs ↔
      (Inside image imageSize names 8 ∧
        (thunkAt memory names ≠ 0 → Inside image imageSize addrs 8 →
          NameFits memory image imageSize (thunkAt memory names))) ∧
      (GoesOn system memory image imageSize names addrs nfuncs →
        FunctionsFit system memory image imageSize (names + 8) (addrs + 8) (nfuncs + 1)) := by
  have shift : ∀ base index : Nat, base + 8 * (index + 1) = base + 8 + 8 * index := by
    intro base index
    omega
  constructor
  · intro fit
    refine ⟨fit 0 nofun, fun goesOn index before => ?_⟩
    have next := fit (index + 1) ?_
    · rw [shift, shift] at next
      exact next
    · rintro (_ | earlier) less
      · exact goesOn
      · rw [shift, shift, Nat.add_comm earlier 1, ← Nat.add_assoc]
        exact before earlier (Nat.lt_of_succ_lt_succ less)
  · rintro ⟨first, others⟩ (_ | index) before
    · exact first
    · rw [shift, shift]
      refine others (before 0 (Nat.succ_pos index)) index fun earlier less => ?_
      have goesOn := before (earlier + 1) (Nat.succ_lt_succ less)
      rw [shift, shift, Nat.add_comm earlier 1, ← Nat.add_assoc] at goesOn
      exact goesOn

theorem functionsEnd_succ (names addrs nfuncs count : Nat) :
    FunctionsEnd system memory image imageSize names addrs nfuncs (count + 1) ↔
      GoesOn system memory image imageSize names addrs nfuncs ∧
        FunctionsEnd system memory image imageSize (names + 8) (addrs + 8) (nfuncs + 1) count := by
  have shift : ∀ base index : Nat, base + 8 * (index + 1) = base + 8 + 8 * index := by
    intro base index
    omega
  unfold FunctionsEnd
  rw [shift, ← and_assoc]
  refine and_congr_left fun _ => ⟨fun every => ⟨every 0 (Nat.succ_pos count), ?_⟩, ?_⟩
  · intro index less
    have goesOn := every (index + 1) (Nat.succ_lt_succ less)
    rw [shift, shift, Nat.add_comm index 1, ← Nat.add_assoc] at goesOn
    exact goesOn
  · rintro ⟨first, others⟩ (_ | index) less
    · exact first
    · rw [shift, shift, Nat.add_comm index 1, ← Nat.add_assoc]
      exact others index (Nat.lt_of_succ_lt_succ less)

theorem functionsEnd_zero (names addrs nfuncs : Nat) :
    FunctionsEnd system memory image imageSize names addrs nfuncs 0 ↔ thunkAt memory names = 0 :=
  and_iff_right nofun

section Slots

variable {names addrs nfuncs : Nat}

/-- An array whose first thunk is null ends there. -/
theorem functionsEnd_of_null (null : thunkAt memory names = 0) (number : Nat) :
    FunctionsEnd system memory image imageSize names addrs nfuncs number ↔ number = 0 := by
  constructor
  · intro ended
    cases number with
    | zero => rfl
    | succ fewer => exact absurd null ((functionsEnd_succ _ _ _ _).mp ended).1.thunk
  · rintro rfl
    exact (functionsEnd_zero _ _ _).mpr null

/-- An array that the walk stops in has no end that it comes to. -/
theorem not_functionsEnd (thunk : thunkAt memory names ≠ 0)
    (stays : ¬ GoesOn system memory image imageSize names addrs nfuncs) (number : Nat) :
    ¬ FunctionsEnd system memory image imageSize names addrs nfuncs number := by
  intro ended
  cases number with
  | zero => exact thunk ((functionsEnd_zero _ _ _).mp ended)
  | succ fewer => exact stays ((functionsEnd_succ _ _ _ _).mp ended).1

/-- Where the walk goes on, the array ends one import later. -/
theorem functionsEnd_of_goesOn
    (goesOn : GoesOn system memory image imageSize names addrs nfuncs) (number : Nat) :
    FunctionsEnd system memory image imageSize names addrs nfuncs number ↔
      ∃ fewer, number = fewer + 1 ∧
        FunctionsEnd system memory image imageSize (names + 8) (addrs + 8) (nfuncs + 1) fewer := by
  constructor
  · intro ended
    cases number with
    | zero => exact absurd ((functionsEnd_zero _ _ _).mp ended) goesOn.thunk
    | succ fewer => exact ⟨fewer, rfl, ((functionsEnd_succ _ _ _ _).mp ended).2⟩
  · rintro ⟨fewer, rfl, ended⟩
    exact (functionsEnd_succ _ _ _ _).mpr ⟨goesOn, ended⟩

/-- Where the walk stops, only the first slots count. -/
theorem functionsFit_of_stays
    (stays : ¬ GoesOn system memory image imageSize names addrs nfuncs) :
    FunctionsFit system memory image imageSize names addrs nfuncs ↔
      Inside image imageSize names 8 ∧
        (thunkAt memory names ≠ 0 → Inside image imageSize addrs 8 →
          NameFits memory image imageSize (thunkAt memory names)) :=
  (functionsFit_iff names addrs nfuncs).trans (and_iff_left fun goesOn => absurd goesOn stays)

/-- Where the walk goes on behind a name that fits, the others count. -/
theorem functionsFit_of_goesOn
    (goesOn : GoesOn system memory image imageSize names addrs nfuncs)
    (nameFits : NameFits memory image imageSize (thunkAt memory names)) :
    FunctionsFit system memory image imageSize names addrs nfuncs ↔
      FunctionsFit system memory image imageSize (names + 8) (addrs + 8) (nfuncs + 1) := by
  rw [functionsFit_iff names addrs nfuncs, and_iff_right ⟨goesOn.namesInside, fun _ _ => nameFits⟩,
    imp_iff_right goesOn]

end Slots

/-! ### Containment of a sequence -/

variable {Value Next : Type}

/-- A read outside the image is not undone by what follows. -/
theorem not_walkContained {first : Setup Value} {next : Value → Setup Next}
    (outside : ¬ All (ReadInside image imageSize) first) :
    ¬ WalkContained memory image imageSize (first >>= next) :=
  fun contained => outside ((all_bind first next).mp contained.1).1

/-- Behind parts that lie inside the image, the containment is that of what follows. -/
theorem walkContained_bind {first : Setup Value} {value : Value}
    (returned : first.result = .ok value) (reads : All (ReadInside image imageSize) first)
    (visits : All (VisitInside memory image imageSize) first) (next : Value → Setup Next) :
    WalkContained memory image imageSize (first >>= next) ↔
      WalkContained memory image imageSize (next value) := by
  rw [bind_of_ok returned]
  refine and_congr ?_ (imp_congr (not_congr ?_) Iff.rfl)
  · exact (all_behind _ _).trans (and_iff_right reads)
  · exact (all_behind _ _).trans (and_iff_right visits)

/-- A walk that returns NULL is contained where it reads inside the image. -/
theorem walkContained_null {first : Setup Value} {message : String}
    (stopped : first.result = .error (.null message))
    (reads : All (ReadInside image imageSize) first) (next : Value → Setup Next) :
    WalkContained memory image imageSize (first >>= next) := by
  rw [bind_of_error stopped]
  exact ⟨reads, fun _ => ⟨message, rfl⟩⟩

/-- Behind events that stay inside the image, the containment is that of what follows. -/
theorem walkContained_behind {events : List Event}
    (reads : ∀ event ∈ events, ReadInside image imageSize event)
    (visits : ∀ event ∈ events, VisitInside memory image imageSize event)
    (walk : Setup Value) :
    WalkContained memory image imageSize (walk.behind events) ↔
      WalkContained memory image imageSize walk :=
  and_congr ((all_behind _ _).trans (and_iff_right reads))
    (imp_congr (not_congr ((all_behind _ _).trans (and_iff_right visits))) Iff.rfl)

theorem walkContained_stop (message : String) :
    WalkContained memory image imageSize (stop (.null message) : Setup Value) :=
  ⟨nofun, fun _ => ⟨message, rfl⟩⟩

theorem walkContained_pure (value : Value) :
    WalkContained memory image imageSize (pure value : Setup Value) :=
  ⟨nofun, fun outside => (outside nofun).elim⟩

/-- Behind a part that is not wholly inside the image, the walk has to return NULL. -/
theorem walkContained_outside {part : Part} (outside : ¬ PartInside memory image imageSize part)
    (walk : Setup Value) :
    WalkContained memory image imageSize (walk.behind [.visit part]) ↔
      All (ReadInside image imageSize) walk ∧ ∃ message, walk.result = .error (.null message) := by
  refine and_congr ?_ ?_
  · exact (all_behind _ _).trans (and_iff_right fun _ member => by
      rw [List.mem_singleton.mp member]
      trivial)
  · refine forall_prop_of_true fun inside => ?_
    exact outside (inside _ List.mem_cons_self)

/-! ### Strings and names -/

theorem terminated_iff {address : Nat} (start : image ≤ address) :
    Terminated memory image imageSize address ↔ Inside image imageSize address 1 ∧
      (memory address ≠ 0 → Terminated memory image imageSize (address + 1)) := by
  constructor
  · rintro ⟨_, length, null, within⟩
    refine ⟨⟨start, by omega⟩, fun byte => ⟨Nat.le_succ_of_le start, ?_⟩⟩
    cases length with
    | zero => exact absurd null byte
    | succ length =>
      rw [Nat.add_comm length 1, ← Nat.add_assoc] at null within
      exact ⟨length, null, within⟩
  · rintro ⟨⟨_, inside⟩, rest⟩
    by_cases byte : memory address = 0
    · exact ⟨start, 0, byte, inside⟩
    · obtain ⟨_, length, null, within⟩ := rest byte
      refine ⟨start, length + 1, ?_, ?_⟩
      · rw [Nat.add_comm length 1, ← Nat.add_assoc]
        exact null
      · omega

theorem forall_read {property : Event → Prop} {address size : Nat} {walk : Setup Value} :
    All property (walk.behind [.read address size]) ↔
      property (.read address size) ∧ All property walk := by
  rw [all_behind, List.forall_mem_singleton]

/-- A string is read inside the image exactly where it ends there, and then it is returned. -/
theorem loadString_holds (left : Nat) :
    ∀ address, image ≤ address → 0 < left → image + imageSize < address + left →
      (All (ReadInside image imageSize) (loadString memory left address) ↔
        Terminated memory image imageSize address) ∧
      (Terminated memory image imageSize address →
        ∃ bytes, (loadString memory left address).result = .ok bytes) := by
  induction left with
  | zero => exact fun address _ positive => absurd positive (lt_irrefl 0)
  | succ left inductionHypothesis =>
    intro address start _ enough
    rw [loadString, emit_bind, forall_read, terminated_iff start]
    by_cases byte : memory address = 0
    · rw [if_pos byte]
      refine ⟨and_congr_right fun _ => iff_of_true (all_pure _) fun some => absurd byte some, ?_⟩
      exact fun _ => ⟨[], rfl⟩
    · rw [if_neg byte]
      by_cases within : Inside image imageSize address 1
      · have more : 0 < left := by
          unfold Inside at within
          omega
        obtain ⟨reads, returns⟩ := inductionHypothesis (address + 1) (Nat.le_succ_of_le start)
          more (by omega)
        refine ⟨and_congr_right fun _ => ?_, fun terminated => ?_⟩
        · rw [all_bind, reads]
          refine (and_iff_left fun _ _ => all_pure _).trans ?_
          exact ⟨fun terminated _ => terminated, fun terminated => terminated byte⟩
        · obtain ⟨bytes, returned⟩ := returns (terminated.2 byte)
          refine ⟨memory address :: bytes, ?_⟩
          rw [bind_of_ok returned]
          rfl
      · exact ⟨iff_of_false (fun reads => within reads.1) (fun terminated => within terminated.1),
          fun terminated => absurd terminated.1 within⟩

theorem visits_loadString (left : Nat) :
    ∀ address, All (VisitInside memory image imageSize) (loadString memory left address) := by
  induction left with
  | zero => exact fun address => all_stop _
  | succ left inductionHypothesis =>
    intro address
    rw [loadString]
    refine All.bind ((all_emit _).mpr trivial) fun _ => ?_
    split_ifs
    · exact all_pure _
    · exact All.bind (inductionHypothesis _) fun _ => all_pure _

theorem importName_ordinal {turns nfuncs : Nat} {thunk : UInt64} (ordinal : IsOrdinal thunk) :
    importName system turns memory image nfuncs thunk =
      if !system.allocate .impname nfuncs then stop (.null "malloc impname")
      else pure (ordinalName (thunk &&& ~~~peOrdinalFlag).toUInt32) :=
  (if_pos ordinal).trans (returnNullIf_bind _ _ _)

theorem importName_named {turns nfuncs : Nat} {thunk : UInt64} (named : ¬ IsOrdinal thunk) :
    importName system turns memory image nfuncs thunk =
      (loadString memory turns (image + 2 + thunk.toUInt32.toNat)).behind
        [.visit (.name (image + 2 + thunk.toUInt32.toNat))] :=
  (if_neg named).trans (emit_bind _ _)

/-- The text of an import is read inside the image exactly where its name ends there. -/
theorem importName_holds {turns : Nat} (enough : imageSize < turns) (nfuncs : Nat)
    (thunk : UInt64) :
    (All (ReadInside image imageSize) (importName system turns memory image nfuncs thunk) ↔
      NameFits memory image imageSize thunk) ∧
    (NameFits memory image imageSize thunk →
      All (VisitInside memory image imageSize)
        (importName system turns memory image nfuncs thunk) ∧
      ((∃ name, (importName system turns memory image nfuncs thunk).result = .ok name ∧
          (IsOrdinal thunk → system.allocate .impname nfuncs = true)) ∨
        (IsOrdinal thunk ∧ system.allocate .impname nfuncs = false ∧
          (importName system turns memory image nfuncs thunk).result =
            .error (.null "malloc impname")))) := by
  by_cases ordinal : IsOrdinal thunk
  · rw [importName_ordinal ordinal]
    have fits : NameFits memory image imageSize thunk := fun named => absurd ordinal named
    cases granted : system.allocate .impname nfuncs with
    | true =>
      refine ⟨iff_of_true (all_pure _) fits, fun _ => ⟨all_pure _, .inl ⟨_, rfl, ?_⟩⟩⟩
      exact fun _ => rfl
    | false =>
      exact ⟨iff_of_true (all_stop _) fits, fun _ => ⟨all_stop _, .inr ⟨ordinal, rfl, rfl⟩⟩⟩
  · rw [importName_named ordinal]
    obtain ⟨reads, returns⟩ := @loadString_holds memory image imageSize turns
      (image + 2 + thunk.toUInt32.toNat) (by omega) (by omega) (by omega)
    have fits : NameFits memory image imageSize thunk ↔
        Terminated memory image imageSize (image + 2 + thunk.toUInt32.toNat) :=
      ⟨fun named => named ordinal, fun terminated _ => terminated⟩
    rw [fits]
    refine ⟨?_, fun terminated => ⟨?_, .inl ?_⟩⟩
    · rw [all_behind, reads]
      exact and_iff_right fun _ member => by
        rw [List.mem_singleton.mp member]
        trivial
    · rw [all_behind, List.forall_mem_singleton]
      exact ⟨terminated, visits_loadString _ _⟩
    · obtain ⟨bytes, returned⟩ := returns terminated
      exact ⟨bytes, returned, fun some => absurd some ordinal⟩

/-- The blocks of an import, behind its text. -/
theorem grants_holds (nfuncs : Nat) (value : Value) {run : Setup Value}
    (same : run = (do
      returnNullIf (!system.allocate .fname nfuncs) "malloc fname"
      returnNullIf (!system.allocate .importNames nfuncs) "realloc import_names"
      returnNullIf (!system.allocate .importAddrs nfuncs) "realloc import_addrs"
      returnNullIf (!system.allocate .thunks nfuncs) "realloc thunks"
      pure value)) :
    run.events = [] ∧
      ((system.allocate .fname nfuncs = true ∧ system.allocate .importNames nfuncs = true ∧
        system.allocate .importAddrs nfuncs = true ∧ system.allocate .thunks nfuncs = true ∧
        run.result = .ok value) ∨
      ((∀ thunk, ¬ Granted system nfuncs thunk) ∧
        ∃ message, run.result = .error (.null message))) := by
  subst same
  simp only [returnNullIf_bind]
  cases fname : system.allocate .fname nfuncs with
  | false => exact ⟨rfl, .inr ⟨fun _ granted => by simp [Granted, fname] at granted, _, rfl⟩⟩
  | true =>
    cases importNames : system.allocate .importNames nfuncs with
    | false =>
      exact ⟨rfl, .inr ⟨fun _ granted => by simp [Granted, importNames] at granted, _, rfl⟩⟩
    | true =>
      cases importAddrs : system.allocate .importAddrs nfuncs with
      | false =>
        exact ⟨rfl, .inr ⟨fun _ granted => by simp [Granted, importAddrs] at granted, _, rfl⟩⟩
      | true =>
        cases thunks : system.allocate .thunks nfuncs with
        | false =>
          exact ⟨rfl, .inr ⟨fun _ granted => by simp [Granted, thunks] at granted, _, rfl⟩⟩
        | true => exact ⟨rfl, .inl ⟨rfl, rfl, rfl, rfl, rfl⟩⟩

/-- One import is read inside the image exactly where its name ends there; it is added where
the heap grants its blocks. -/
theorem addImport_holds {turns : Nat} (enough : imageSize < turns) (dllname : List UInt8)
    (thunk : UInt64) (addrs : Nat) (imports : List Import) :
    (All (ReadInside image imageSize)
        (addImport system turns memory image dllname thunk addrs imports) ↔
      NameFits memory image imageSize thunk) ∧
    (NameFits memory image imageSize thunk →
      All (VisitInside memory image imageSize)
        (addImport system turns memory image dllname thunk addrs imports) ∧
      ((Granted system imports.length thunk ∧ ∃ entry,
          (addImport system turns memory image dllname thunk addrs imports).result =
            .ok (imports ++ [entry])) ∨
        (¬ Granted system imports.length thunk ∧ ∃ message,
          (addImport system turns memory image dllname thunk addrs imports).result =
            .error (.null message)))) := by
  obtain ⟨reads, returns⟩ := @importName_holds system memory image imageSize turns enough
    imports.length thunk
  have tail := fun impname => @grants_holds system _ imports.length
    (imports ++ [{ name := dllname ++ 0x21 :: impname
                   addr := nlResolve system.nlExports (dllBase dllname) impname
                   thunk := addrs }]) _ rfl
  have quiet : ∀ {property : Event → Prop} {run : Setup (List Import)}, run.events = [] →
      All property run := fun none event member => by
    rw [none] at member
    cases member
  unfold addImport
  refine ⟨?_, fun fits => ?_⟩
  · rw [all_bind, reads]
    exact and_iff_left fun impname _ => quiet (tail impname).1
  · obtain ⟨visits, ⟨name, returned, granted⟩ | ⟨ordinal, refused, stopped⟩⟩ := returns fits
    · refine ⟨(all_bind _ _).mpr ⟨visits, fun impname _ => quiet (tail impname).1⟩, ?_⟩
      rw [bind_of_ok returned]
      rcases (tail name).2 with ⟨fname, importNames, importAddrs, thunks, added⟩ | ⟨no, null⟩
      · exact .inl ⟨⟨granted, fname, importNames, importAddrs, thunks⟩, _, added⟩
      · exact .inr ⟨no thunk, null⟩
    · rw [bind_of_error stopped]
      refine ⟨visits, .inr ⟨fun every => ?_, _, rfl⟩⟩
      rw [every.1 ordinal] at refused
      cases refused

/-! ### The functions of a library -/

theorem importFunctions_succ {turns : Nat} (dllname : List UInt8) (left names addrs : Nat)
    (imports : List Import) :
    importFunctions system turns memory image imageSize dllname (left + 1) names addrs imports =
      (if thunkAt memory names = 0 then pure imports
      else
        (if Inside image imageSize names 8 ∧ Inside image imageSize addrs 8 then
          addImport system turns memory image dllname (thunkAt memory names) addrs imports >>=
            importFunctions system turns memory image imageSize dllname left (names + 8)
              (addrs + 8)
        else stop (.null "Thunk out of image")).behind [.visit (.slot addrs)]).behind
          [.visit (.slot names), .read names 8] := by
  have check : (!cliIsContained image imageSize names 8 ||
      !cliIsContained image imageSize addrs 8) =
        !decide (Inside image imageSize names 8 ∧ Inside image imageSize addrs 8) := by
    rw [Bool.eq_iff_iff, Bool.not_eq_true', decide_eq_false_iff_not, not_and_or,
      ← cliIsContained_iff names (Nat.succ_pos 7), ← cliIsContained_iff addrs (Nat.succ_pos 7)]
    simp
  rw [importFunctions, emit_bind, loadThunk, bind_assoc, emit_bind, pure_bind, behind_behind,
    check]
  refine congrArg (Traced.behind _) (ite_congr rfl (fun _ => rfl) fun _ => ?_)
  rw [emit_bind, returnNullIf_bind]
  refine congrArg (Traced.behind _) ?_
  by_cases both : Inside image imageSize names 8 ∧ Inside image imageSize addrs 8
  · rw [if_pos both, decide_eq_true both]
    rfl
  · rw [if_neg both, decide_eq_false both]
    rfl

theorem forall_slotRead {names : Nat} :
    (∀ event ∈ [Event.visit (.slot names), .read names 8], ReadInside image imageSize event) ↔
      Inside image imageSize names 8 := by
  simp [ReadInside]

theorem forall_slotVisit {names : Nat} :
    (∀ event ∈ [Event.visit (.slot names), .read names 8],
        VisitInside memory image imageSize event) ↔ Inside image imageSize names 8 := by
  simp [VisitInside, PartInside]

/-- What a walk over an array of thunks comes to: the end of the array, behind a number of
imports, or NULL. -/
inductive FunctionsReturn (system : System) (memory : Memory)
    (image imageSize names addrs nfuncs : Nat) (run : Setup (List Import)) : Prop
  | ended (count : Nat) (imports : List Import)
      (only : ∀ number, FunctionsEnd system memory image imageSize names addrs nfuncs number ↔
        number = count)
      (visits : All (VisitInside memory image imageSize) run) (returned : run.result = .ok imports)
      (length : imports.length = nfuncs + count)
  | null
      (endless : ∀ number,
        ¬ FunctionsEnd system memory image imageSize names addrs nfuncs number)
      (message : String) (stopped : run.result = .error (.null message))

/-- Behind a pair of slots and an import that has been added. -/
theorem FunctionsReturn.behind {names addrs nfuncs : Nat} {run : Setup (List Import)}
    (goesOn : GoesOn system memory image imageSize names addrs nfuncs) {front : List Event}
    (visits : ∀ event ∈ front, VisitInside memory image imageSize event)
    (returns : FunctionsReturn system memory image imageSize (names + 8) (addrs + 8) (nfuncs + 1)
      run) :
    FunctionsReturn system memory image imageSize names addrs nfuncs (run.behind front) := by
  cases returns with
  | ended count imports only rest returned length =>
    refine .ended (count + 1) imports (fun number => ?_) ((all_behind _ _).mpr ⟨visits, rest⟩)
      returned (by rw [length, Nat.add_assoc, Nat.add_comm 1 count])
    rw [functionsEnd_of_goesOn goesOn]
    constructor
    · rintro ⟨fewer, rfl, ended⟩
      rw [(only fewer).mp ended]
    · rintro rfl
      exact ⟨count, rfl, (only count).mpr rfl⟩
  | null endless message stopped =>
    refine .null (fun number ended => ?_) message stopped
    obtain ⟨fewer, _, ended⟩ := (functionsEnd_of_goesOn goesOn number).mp ended
    exact endless fewer ended

/-- The functions of a library are read inside the image exactly where they fit; then the
walk comes to the end of their array or returns NULL. -/
theorem importFunctions_holds {turns : Nat} (enough : imageSize < turns)
    (dllname : List UInt8) (left : Nat) :
    ∀ names addrs imports, image ≤ names → image ≤ addrs → 0 < left →
      image + imageSize < names + 8 * left →
      (All (ReadInside image imageSize) (importFunctions system turns memory image imageSize
          dllname left names addrs imports) ↔
        FunctionsFit system memory image imageSize names addrs imports.length) ∧
      (FunctionsFit system memory image imageSize names addrs imports.length →
        FunctionsReturn system memory image imageSize names addrs imports.length
          (importFunctions system turns memory image imageSize dllname left names addrs
            imports)) := by
  induction left with
  | zero => exact fun names addrs imports _ _ positive => absurd positive (lt_irrefl 0)
  | succ left inductionHypothesis =>
    intro names addrs imports namesStart addrsStart _ more
    have fitIff := @functionsFit_iff system memory image imageSize names addrs imports.length
    rw [importFunctions_succ, all_behind, forall_slotRead]
    by_cases namesInside : Inside image imageSize names 8
    swap
    · have noFit : ¬ FunctionsFit system memory image imageSize names addrs imports.length :=
        fun fit => namesInside (fitIff.mp fit).1.1
      exact ⟨iff_of_false (fun reads => namesInside reads.1) noFit, fun fit => absurd fit noFit⟩
    by_cases null : thunkAt memory names = 0
    · have fit : FunctionsFit system memory image imageSize names addrs imports.length :=
        (functionsFit_of_stays fun goesOn => goesOn.thunk null).mpr
          ⟨namesInside, fun thunk => absurd null thunk⟩
      rw [if_pos null]
      refine ⟨iff_of_true ⟨namesInside, all_pure _⟩ fit, fun _ => ?_⟩
      exact .ended 0 imports (functionsEnd_of_null null)
        ((all_behind _ _).mpr ⟨forall_slotVisit.mpr namesInside, all_pure _⟩) rfl rfl
    rw [if_neg null]
    by_cases addrsInside : Inside image imageSize addrs 8
    swap
    · have stays : ¬ GoesOn system memory image imageSize names addrs imports.length :=
        fun goesOn => addrsInside goesOn.addrsInside
      have fit : FunctionsFit system memory image imageSize names addrs imports.length :=
        (functionsFit_of_stays stays).mpr
          ⟨namesInside, fun _ inside => absurd inside addrsInside⟩
      rw [if_neg fun both => addrsInside both.2]
      refine ⟨iff_of_true ⟨namesInside, ?_⟩ fit,
        fun _ => .null (not_functionsEnd null stays) _ rfl⟩
      exact (all_behind _ _).mpr ⟨by simp [ReadInside], all_stop _⟩
    rw [if_pos ⟨namesInside, addrsInside⟩]
    obtain ⟨reads, returns⟩ := @addImport_holds system memory image imageSize turns enough dllname
      (thunkAt memory names) addrs imports
    have slotReads : ∀ event ∈ [Event.visit (.slot addrs)],
        ReadInside image imageSize event := by simp [ReadInside]
    have slotVisits : ∀ event ∈ [Event.visit (.slot addrs)],
        VisitInside memory image imageSize event := by
      rw [List.forall_mem_singleton]
      exact addrsInside
    by_cases nameFits : NameFits memory image imageSize (thunkAt memory names)
    swap
    · have noFit : ¬ FunctionsFit system memory image imageSize names addrs imports.length :=
        fun fit => nameFits ((fitIff.mp fit).1.2 null addrsInside)
      refine ⟨iff_of_false (fun every => nameFits ?_) noFit, fun fit => absurd fit noFit⟩
      exact reads.mp ((all_bind _ _).mp ((all_behind _ _).mp every.2).2).1
    have inside := reads.mpr nameFits
    obtain ⟨visits, ⟨granted, entry, added⟩ | ⟨refused, message, stopped⟩⟩ := returns nameFits
    · have goesOn : GoesOn system memory image imageSize names addrs imports.length :=
        ⟨null, namesInside, addrsInside, granted⟩
      obtain ⟨endReads, endReturns⟩ := inductionHypothesis (names + 8) (addrs + 8)
        (imports ++ [entry]) (Nat.le_add_right_of_le namesStart)
        (Nat.le_add_right_of_le addrsStart) (by unfold Inside at namesInside; omega) (by omega)
      have length : (imports ++ [entry]).length = imports.length + 1 := by
        rw [List.length_append, List.length_singleton]
      rw [length] at endReads endReturns
      rw [bind_of_ok added, functionsFit_of_goesOn goesOn nameFits, behind_behind, behind_behind]
      refine ⟨?_, fun fit => (endReturns fit).behind goesOn ?_⟩
      · rw [and_iff_right namesInside, all_behind, List.forall_mem_append,
          and_iff_right ⟨slotReads, inside⟩]
        exact endReads
      · rw [List.forall_mem_append, List.forall_mem_append]
        exact ⟨forall_slotVisit.mpr namesInside, slotVisits, visits⟩
    · have stays : ¬ GoesOn system memory image imageSize names addrs imports.length :=
        fun goesOn => refused goesOn.granted
      have fit : FunctionsFit system memory image imageSize names addrs imports.length :=
        (functionsFit_of_stays stays).mpr ⟨namesInside, fun _ _ => nameFits⟩
      rw [bind_of_error stopped]
      exact ⟨iff_of_true ⟨namesInside, (all_behind _ _).mpr ⟨slotReads, inside⟩⟩ fit,
        fun _ => .null (not_functionsEnd null stays) message rfl⟩

/-! ### The libraries -/

/-- One turn of the loop over the libraries, by what lies at the descriptor. -/
theorem importLibraries_succ {turns : Nat} (left : Nat) {directory : PeImageDataDir}
    (large : ¬ directory.size < sizeofImageImport) {descriptor : Nat}
    (place : image + directory.virtualAddress.toNat = descriptor) (imports : List Import) :
    importLibraries system turns memory image imageSize (left + 1) directory imports =
      Traced.behind [.visit (.descriptor descriptor)]
        (if Inside image imageSize descriptor 8 then
          Traced.behind [.read (descriptor + 12) 4]
            (if dwordAt memory (descriptor + 12) = 0 then pure imports
            else Traced.behind [.read descriptor 4]
              (if dwordAt memory descriptor = 0 then
                stop (.null "borland-like import table is not supported")
              else Traced.behind [.read (descriptor + 16) 4,
                  .visit (.name (image + (dwordAt memory (descriptor + 12)).toNat))]
                (loadString memory turns (image + (dwordAt memory (descriptor + 12)).toNat) >>=
                  fun dllname => importFunctions system turns memory image imageSize dllname
                    turns (image + (dwordAt memory descriptor).toNat)
                    (image + (dwordAt memory (descriptor + 16)).toNat) imports >>=
                  importLibraries system turns memory image imageSize left
                    { virtualAddress := directory.virtualAddress + sizeofImageImport
                      size := directory.size - sizeofImageImport })))
        else stop (.null "import descriptor out of image")) := by
  subst place
  rw [importLibraries, if_neg large]
  dsimp only
  rw [emit_bind, returnNullIf_bind]
  refine congrArg (Traced.behind _) ?_
  by_cases inside : Inside image imageSize (image + directory.virtualAddress.toNat) 8
  swap
  · rw [if_neg inside, if_pos]
    rw [← cliIsContained_iff _ (Nat.succ_pos 7), Bool.not_eq_true] at inside
    rw [inside]
    rfl
  rw [if_pos inside, if_neg]
  swap
  · rw [(cliIsContained_iff _ (Nat.succ_pos 7)).mpr inside]
    exact Bool.false_ne_true
  rw [load32, Trace.bind_assoc, emit_bind, pure_bind]
  refine congrArg (Traced.behind _) (ite_congr rfl (fun _ => rfl) fun _ => ?_)
  rw [load32, Trace.bind_assoc, emit_bind, pure_bind, returnNullIf_bind]
  refine congrArg (Traced.behind _) ?_
  by_cases null : dwordAt memory (image + directory.virtualAddress.toNat) = 0
  · exact (if_pos (decide_eq_true null)).trans (if_pos null).symm
  · refine (if_neg fun same => null (of_decide_eq_true same)).trans (Eq.trans ?_ (if_neg null).symm)
    rw [load32, Trace.bind_assoc, emit_bind, pure_bind, emit_bind, behind_behind]
    rfl

/-- A descriptor that lies inside the image with eight bytes and not with all twenty. -/
theorem cutDescriptor_holds {descriptor : Nat} (inside : Inside image imageSize descriptor 8)
    (cut : ¬ Inside image imageSize descriptor 20) (last : List Import)
    (next : Setup (List Import)) (events : List Event) :
    WalkContained memory image imageSize
        (Traced.behind [.visit (.descriptor descriptor)]
          (Traced.behind [.read (descriptor + 12) 4]
            (if dwordAt memory (descriptor + 12) = 0 then pure last
            else Traced.behind [.read descriptor 4]
              (if dwordAt memory descriptor = 0 then
                stop (.null "borland-like import table is not supported")
              else Traced.behind (.read (descriptor + 16) 4 :: events) next)))) ↔
      Inside image imageSize descriptor 16 ∧
        dwordAt memory (descriptor + 12) ≠ 0 ∧ dwordAt memory descriptor = 0 := by
  have outside : ¬ PartInside memory image imageSize (.descriptor descriptor) := cut
  rw [walkContained_outside outside, forall_read]
  unfold Inside ReadInside at *
  by_cases name : dwordAt memory (descriptor + 12) = 0
  · rw [if_pos name]
    refine iff_of_false ?_ fun fits => fits.2.1 name
    rintro ⟨_, message, stopped⟩
    cases stopped
  rw [if_neg name]
  by_cases thunk : dwordAt memory descriptor = 0
  · rw [if_pos thunk]
    constructor
    · exact fun contained => ⟨⟨inside.1, contained.1.1.2⟩, name, thunk⟩
    · rintro ⟨whole, _, _⟩
      refine ⟨⟨⟨Nat.le_add_right_of_le inside.1, whole.2⟩, ?_⟩, _, rfl⟩
      exact forall_read.mpr ⟨⟨inside.1, by omega⟩, all_stop _⟩
  · rw [if_neg thunk]
    refine iff_of_false (fun contained => ?_) fun fits => thunk fits.2.2
    have far := ((all_behind _ _).mp ((all_behind _ _).mp contained.1.2).2).1 _ List.mem_cons_self
    exact cut ⟨inside.1, far.2⟩

/-- The import walk is contained in the image exactly where the libraries fit. -/
theorem importLibraries_holds {turns : Nat} (enough : imageSize < turns) (left : Nat) :
    ∀ directory imports, directory.size.toNat < 20 * left →
      (WalkContained memory image imageSize
          (importLibraries system turns memory image imageSize left directory imports) ↔
        LibrariesFit system memory image imageSize (directory.size.toNat / 20)
          directory.virtualAddress imports.length) := by
  induction left with
  | zero => exact fun directory imports small => absurd small (Nat.not_lt_zero _)
  | succ left inductionHypothesis =>
    intro directory imports more
    by_cases small : directory.size < sizeofImageImport
    · have few : directory.size.toNat < 20 := UInt32.lt_iff_toNat_lt.mp small
      rw [importLibraries, if_pos small, Nat.div_eq_of_lt few]
      exact iff_of_true (walkContained_pure _) trivial
    have large : 20 ≤ directory.size.toNat :=
      UInt32.le_iff_toNat_le.mp (UInt32.not_lt.mp small)
    have rest : (directory.size - sizeofImageImport).toNat = directory.size.toNat - 20 :=
      UInt32.toNat_sub_of_le _ _ (UInt32.not_lt.mp small)
    have count : directory.size.toNat / 20 = (directory.size.toNat - 20) / 20 + 1 := by omega
    rw [importLibraries_succ left small rfl, count, LibrariesFit]
    generalize image + directory.virtualAddress.toNat = descriptor at *
    by_cases inside : Inside image imageSize descriptor 8
    swap
    · rw [if_neg inside]
      refine iff_of_true ⟨?_, fun _ => ⟨_, rfl⟩⟩ fun within => absurd within inside
      exact (all_behind _ _).mpr ⟨by simp [ReadInside], all_stop _⟩
    rw [if_pos inside, imp_iff_right inside]
    by_cases whole : Inside image imageSize descriptor 20
    swap
    · rw [cutDescriptor_holds inside whole]
      constructor
      · exact fun fits => ⟨fits.1, .inr fits.2, fun _ thunk => absurd fits.2.2 thunk⟩
      · exact fun fits => ⟨fits.1, fits.2.1.resolve_left whole⟩
    have front : Inside image imageSize descriptor 16 := by
      unfold Inside at whole ⊢
      omega
    have nameInside : Inside image imageSize (descriptor + 12) 4 := by
      unfold Inside at whole ⊢
      omega
    have thunkInside : Inside image imageSize descriptor 4 := by
      unfold Inside at whole ⊢
      omega
    have lastInside : Inside image imageSize (descriptor + 16) 4 := by
      unfold Inside at whole ⊢
      omega
    have start : image ≤ descriptor := whole.1
    rw [walkContained_behind (by simp [ReadInside])
        (by simpa [VisitInside, PartInside] using whole),
      walkContained_behind (by simpa [ReadInside] using nameInside) (by simp [VisitInside]),
      and_iff_right front, and_iff_right (Or.inl whole)]
    by_cases name : dwordAt memory (descriptor + 12) = 0
    · rw [if_pos name]
      exact iff_of_true (walkContained_pure _) fun some => absurd name some
    rw [if_neg name, imp_iff_right name,
      walkContained_behind (by simpa [ReadInside] using thunkInside) (by simp [VisitInside])]
    by_cases thunk : dwordAt memory descriptor = 0
    · rw [if_pos thunk]
      exact iff_of_true (walkContained_stop _) fun some => absurd thunk some
    rw [if_neg thunk, imp_iff_right thunk]
    obtain ⟨stringReads, stringReturns⟩ := @loadString_holds memory image imageSize turns
      (image + (dwordAt memory (descriptor + 12)).toNat) (Nat.le_add_right _ _) (by omega)
      (by omega)
    by_cases terminated : Terminated memory image imageSize
        (image + (dwordAt memory (descriptor + 12)).toNat)
    swap
    · refine iff_of_false (fun contained => terminated ?_) fun fits => terminated fits.1
      exact stringReads.mp ((all_bind _ _).mp ((all_behind _ _).mp contained.1).2).1
    obtain ⟨dllname, returned⟩ := stringReturns terminated
    rw [walkContained_behind (by simpa [ReadInside] using lastInside)
        (by simpa [VisitInside, PartInside] using terminated), and_iff_right terminated,
      walkContained_bind returned (stringReads.mpr terminated) (visits_loadString _ _)]
    obtain ⟨reads, returns⟩ := @importFunctions_holds system memory image imageSize turns enough
      dllname turns (image + (dwordAt memory descriptor).toNat)
      (image + (dwordAt memory (descriptor + 16)).toNat) imports (Nat.le_add_right _ _)
      (Nat.le_add_right _ _) (by omega) (by omega)
    by_cases fit : FunctionsFit system memory image imageSize
        (image + (dwordAt memory descriptor).toNat)
        (image + (dwordAt memory (descriptor + 16)).toNat) imports.length
    swap
    · refine iff_of_false ?_ fun fits => fit fits.1
      exact not_walkContained fun every => fit (reads.mp every)
    rw [and_iff_right fit]
    cases returns fit with
    | ended number imports' only visits added grown =>
      rw [walkContained_bind added (reads.mpr fit) visits,
        inductionHypothesis _ _ (by rw [rest]; omega), rest, grown]
      constructor
      · intro fits number' ended
        rw [(only number').mp ended]
        exact fits
      · exact fun fits => fits number ((only number).mpr rfl)
    | null endless message stopped =>
      refine iff_of_true (walkContained_null stopped (reads.mpr fit) _) ?_
      exact fun number ended => absurd ended (endless number)

/-! ### The import walk -/

/-- The import walk reads only inside the image, and returns NULL where it comes to a part of
the import data that is not wholly inside, if and only if the import data fits. -/
theorem import_walk_contained_iff (system : System) (turns : Nat) (memory : Memory)
    (image imageSize : Nat) (directory : PeImageDataDir) (imports : List Import)
    (enough : imageSize < turns) (more : directory.size.toNat < 20 * turns) :
    ((∀ event ∈ (importLibraries system turns memory image imageSize turns directory
          imports).events, ReadInside image imageSize event) ∧
      ((¬ ∀ event ∈ (importLibraries system turns memory image imageSize turns directory
          imports).events, VisitInside memory image imageSize event) →
        ∃ message, (importLibraries system turns memory image imageSize turns directory
          imports).result = .error (.null message))) ↔
      LibrariesFit system memory image imageSize (directory.size.toNat / 20)
        directory.virtualAddress imports.length :=
  importLibraries_holds enough turns directory imports more

/-- An image of zeros with a descriptor eight bytes before its end. -/
theorem import_walk_contained_example :
    ((∀ event ∈ (importLibraries exampleSystem 4097 (fun _ => 0) 0x10000 4096 4097
          { virtualAddress := 0xff8, size := 20 } []).events,
        ReadInside 0x10000 4096 event) ∧
      ((¬ ∀ event ∈ (importLibraries exampleSystem 4097 (fun _ => 0) 0x10000 4096 4097
          { virtualAddress := 0xff8, size := 20 } []).events,
          VisitInside (fun _ => 0) 0x10000 4096 event) →
        ∃ message, (importLibraries exampleSystem 4097 (fun _ => 0) 0x10000 4096 4097
          { virtualAddress := 0xff8, size := 20 } []).result = .error (.null message))) ↔
      LibrariesFit exampleSystem (fun _ => 0) 0x10000 4096 1 0xff8 0 :=
  import_walk_contained_iff exampleSystem 4097 (fun _ => 0) 0x10000 4096
    { virtualAddress := 0xff8, size := 20 } [] (by decide) (by decide)

/-- The walk loads `DllName` of that descriptor, behind the end of the image, and returns
without NULL. -/
theorem not_import_walk_contained :
    Event.read 0x11004 4 ∈ (importLibraries exampleSystem 4097 (fun _ => 0) 0x10000 4096 4097
        { virtualAddress := 0xff8, size := 20 } []).events ∧
      ¬ ReadInside 0x10000 4096 (.read 0x11004 4) ∧
      (importLibraries exampleSystem 4097 (fun _ => 0) 0x10000 4096 4097
        { virtualAddress := 0xff8, size := 20 } []).result = .ok [] := by
  refine ⟨@List.mem_of_getElem? _ _ 1 _ rfl, ?_, rfl⟩
  unfold ReadInside Inside
  decide

end Nloader.Loader
