/-
This file is about what the import phase binds. The imports of an image are enumerated as the
file has them, library by library and thunk by thunk. A walk that returns has followed this
enumeration, and the patching behind it leaves for every import a stub of its index and the
address of the stub in its slot, provided that the slots do not overlap and the stubs are few
enough for 32-bit sizes. The name of a library is cut after 63 bytes before its suffix is
dropped.
-/

import Nloader.LoaderImports
import Mathlib.Data.List.TakeWhile

namespace Nloader.Loader

open Trace

/-! ### Bytes in memory -/

theorem toBytes_length (size value : Nat) : (toBytes size value).length = size := by
  induction size generalizing value with
  | zero => rfl
  | succ size inductionHypothesis =>
    rw [toBytes, List.length_cons, inductionHypothesis]

/-- The number stored is the one that is read back, as far as its bytes go. -/
theorem littleEndian_toBytes (size value : Nat) :
    littleEndian (toBytes size value) = value % 256 ^ size := by
  induction size generalizing value with
  | zero => rw [Nat.pow_zero, Nat.mod_one, toBytes, littleEndian]
  | succ size inductionHypothesis =>
    rw [toBytes, littleEndian, inductionHypothesis, Nat.pow_succ', Nat.mod_mul]
    rfl

theorem loadBytes_length (memory : Memory) (address size : Nat) :
    (loadBytes memory address size).length = size := by
  rw [loadBytes, List.length_map, List.length_range]

theorem getElem_loadBytes {memory : Memory} {address size index : Nat}
    (less : index < (loadBytes memory address size).length) :
    (loadBytes memory address size)[index] = memory (address + index) := by
  simp [loadBytes]

/-- Bytes stored are the bytes loaded. -/
theorem loadBytes_storeBytes (memory : Memory) (address : Nat) (bytes : List UInt8) :
    loadBytes (storeBytes memory address bytes) address bytes.length = bytes := by
  refine List.ext_getElem (loadBytes_length _ _ _) fun index _ less => ?_
  have within : address ≤ address + index ∧ address + index < address + bytes.length :=
    ⟨Nat.le_add_right _ _, Nat.add_lt_add_left less _⟩
  rw [getElem_loadBytes, storeBytes, if_pos within, Nat.add_sub_cancel_left,
    List.getD_eq_getElem?_getD, List.getElem?_eq_getElem less, Option.getD_some]

/-- Bytes stored elsewhere leave a range as it is. -/
theorem loadBytes_storeBytes_apart {memory : Memory} {address size place : Nat}
    {bytes : List UInt8} (apart : address + size ≤ place ∨ place + bytes.length ≤ address) :
    loadBytes (storeBytes memory place bytes) address size = loadBytes memory address size := by
  refine List.map_congr_left fun index member => ?_
  have less := List.mem_range.mp member
  exact if_neg (by omega)

theorem thunkAt_storeBytes (memory : Memory) (address value : Nat) :
    thunkAt (storeBytes memory address (toBytes 8 value)) address = .ofNat value := by
  have loaded := loadBytes_storeBytes memory address (toBytes 8 value)
  rw [toBytes_length] at loaded
  have whole : (toBytes 8 value).take 8 = toBytes 8 value :=
    List.take_of_length_le (le_of_eq (toBytes_length 8 value))
  rw [thunkAt, loaded, field64, List.drop_zero, whole, littleEndian_toBytes]
  exact UInt64.ofNat_mod_size

/-! ### The imports of an image -/

/-- The string at an address, up to its null byte. -/
def StringAt (memory : Memory) : Nat → List UInt8 → Prop
  | address, [] => memory address = 0
  | address, byte :: bytes =>
    byte ≠ 0 ∧ memory address = byte ∧ StringAt memory (address + 1) bytes

instance decidableStringAt (memory : Memory) :
    (address : Nat) → (bytes : List UInt8) → Decidable (StringAt memory address bytes)
  | address, [] => inferInstanceAs (Decidable (memory address = 0))
  | address, byte :: bytes =>
    have := decidableStringAt memory (address + 1) bytes
    inferInstanceAs (Decidable (byte ≠ 0 ∧ memory address = byte ∧
      StringAt memory (address + 1) bytes))

/-- The text of an import: `ord_NNN` for an ordinal, else the name the thunk points to. -/
def Named (memory : Memory) (image : Nat) (thunk : UInt64) (name : List UInt8) : Prop :=
  (IsOrdinal thunk ∧ name = ordinalName (thunk &&& ~~~peOrdinalFlag).toUInt32) ∨
    (¬ IsOrdinal thunk ∧ StringAt memory (image + 2 + thunk.toUInt32.toNat) name)

/-- An import of the file: the name of its library, its own text, and its slot. -/
structure Imported where
  dllname : List UInt8
  name : List UInt8
  slot : Nat

/-- The functions of a library in the order of their thunks, up to the first null thunk. -/
inductive Functions (memory : Memory) (image : Nat) (dllname : List UInt8) :
    Nat → Nat → List Imported → Prop
  | last {names addrs : Nat} (null : thunkAt memory names = 0) :
      Functions memory image dllname names addrs []
  | function {names addrs : Nat} {name : List UInt8} {functions : List Imported}
      (some : thunkAt memory names ≠ 0) (named : Named memory image (thunkAt memory names) name)
      (others : Functions memory image dllname (names + 8) (addrs + 8) functions) :
      Functions memory image dllname names addrs
        ({ dllname := dllname, name := name, slot := addrs } :: functions)

/-- The imports in the order of the descriptors, up to the first one without `DllName` or to
the end of the directory. -/
inductive Libraries (memory : Memory) (image : Nat) :
    Nat → UInt32 → List Imported → Prop
  | exhausted {virtualAddress : UInt32} : Libraries memory image 0 virtualAddress []
  | last {count : Nat} {virtualAddress : UInt32}
      (null : dwordAt memory (image + virtualAddress.toNat + 12) = 0) :
      Libraries memory image (count + 1) virtualAddress []
  | library {count : Nat} {virtualAddress : UInt32} {dllname : List UInt8}
      {functions imports : List Imported}
      (some : dwordAt memory (image + virtualAddress.toNat + 12) ≠ 0)
      (named : StringAt memory
        (image + (dwordAt memory (image + virtualAddress.toNat + 12)).toNat) dllname)
      (thunks : Functions memory image dllname
        (image + (dwordAt memory (image + virtualAddress.toNat)).toNat)
        (image + (dwordAt memory (image + virtualAddress.toNat + 16)).toNat) functions)
      (others : Libraries memory image count (virtualAddress + sizeofImageImport) imports) :
      Libraries memory image (count + 1) virtualAddress (functions ++ imports)

variable {memory : Memory} {image imageSize : Nat}

theorem StringAt.unique {address : Nat} {first second : List UInt8}
    (one : StringAt memory address first) (other : StringAt memory address second) :
    first = second := by
  induction first generalizing address second with
  | nil =>
    cases second with
    | nil => rfl
    | cons byte bytes => exact absurd (other.2.1.symm.trans one) other.1
  | cons byte bytes inductionHypothesis =>
    cases second with
    | nil => exact absurd (one.2.1.symm.trans other) one.1
    | cons byte' bytes' =>
      rw [one.2.1.symm.trans other.2.1, inductionHypothesis one.2.2 other.2.2]

theorem Named.unique {thunk : UInt64} {first second : List UInt8}
    (one : Named memory image thunk first) (other : Named memory image thunk second) :
    first = second := by
  rcases one with ⟨ordinal, rfl⟩ | ⟨named, one⟩
  · rcases other with ⟨_, rfl⟩ | ⟨named, _⟩
    · rfl
    · exact absurd ordinal named
  · rcases other with ⟨ordinal, _⟩ | ⟨_, other⟩
    · exact absurd ordinal named
    · exact one.unique other

theorem Functions.unique {dllname : List UInt8} {names addrs : Nat}
    {first second : List Imported} (one : Functions memory image dllname names addrs first)
    (other : Functions memory image dllname names addrs second) : first = second := by
  induction one generalizing second with
  | last null =>
    cases other with
    | last => rfl
    | function some => exact absurd null some
  | function some named _ inductionHypothesis =>
    cases other with
    | last null => exact absurd null some
    | function _ named' others => rw [named.unique named', inductionHypothesis others]

/-- An image has one enumeration of its imports at most. -/
theorem Libraries.unique {count : Nat} {virtualAddress : UInt32}
    {first second : List Imported} (one : Libraries memory image count virtualAddress first)
    (other : Libraries memory image count virtualAddress second) : first = second := by
  induction one generalizing second with
  | exhausted =>
    cases other with
    | exhausted => rfl
  | last null =>
    cases other with
    | last => rfl
    | library some => exact absurd null some
  | library some named thunks _ inductionHypothesis =>
    cases other with
    | last null => exact absurd null some
    | library _ named' thunks' others =>
      cases named.unique named'
      rw [thunks.unique thunks', inductionHypothesis others]

/-! ### What a walk returns -/

variable {system : System} {turns : Nat}

/-- What the tables hold for an import. -/
def bound (system : System) (entry : Imported) : Import where
  name := entry.dllname ++ 0x21 :: entry.name
  addr := nlResolve system.nlExports (dllBase entry.dllname) entry.name
  thunk := entry.slot

theorem returnNullIf_result {bad : Bool} {message : String} {value : Unit}
    (returned : (returnNullIf bad message).result = .ok value) : bad = false := by
  cases bad with
  | true => cases returned
  | false => rfl

theorem stringAt_loadString {address : Nat} {bytes : List UInt8}
    (returned : (loadString memory turns address).result = .ok bytes) :
    StringAt memory address bytes := by
  induction turns generalizing address bytes with
  | zero => cases returned
  | succ turns inductionHypothesis =>
    rw [loadString, emit_bind] at returned
    by_cases null : memory address = 0
    · rw [if_pos null] at returned
      cases returned
      exact null
    · rw [if_neg null] at returned
      obtain ⟨rest, read, same⟩ := bind_result_ok returned
      cases same
      exact ⟨null, rfl, inductionHypothesis read⟩

theorem named_importName {nfuncs : Nat} {thunk : UInt64} {name : List UInt8}
    (returned : (importName system turns memory image nfuncs thunk).result = .ok name) :
    Named memory image thunk name := by
  by_cases ordinal : IsOrdinal thunk
  · rw [importName_ordinal ordinal] at returned
    cases granted : system.allocate .impname nfuncs with
    | true =>
      rw [granted] at returned
      cases returned
      exact .inl ⟨ordinal, rfl⟩
    | false =>
      rw [granted] at returned
      cases returned
  · rw [importName_named ordinal] at returned
    exact .inr ⟨ordinal, stringAt_loadString returned⟩

/-- An import that is added is the one of the thunk. -/
theorem addImport_result {dllname : List UInt8} {thunk : UInt64} {addrs : Nat}
    {imports imports' : List Import}
    (returned : (addImport system turns memory image dllname thunk addrs imports).result =
      .ok imports') :
    ∃ name, Named memory image thunk name ∧
      imports' = imports ++ [bound system { dllname := dllname, name := name, slot := addrs }] := by
  unfold addImport at returned
  obtain ⟨name, named, returned⟩ := bind_result_ok returned
  obtain ⟨_, _, returned⟩ := bind_result_ok returned
  obtain ⟨_, _, returned⟩ := bind_result_ok returned
  obtain ⟨_, _, returned⟩ := bind_result_ok returned
  obtain ⟨_, _, returned⟩ := bind_result_ok returned
  cases returned
  exact ⟨name, named_importName named, rfl⟩

/-- The functions that are added are those of the library. -/
theorem importFunctions_result {dllname : List UInt8} {left names addrs : Nat}
    {imports imports' : List Import}
    (returned : (importFunctions system turns memory image imageSize dllname left names addrs
      imports).result = .ok imports') :
    ∃ functions, Functions memory image dllname names addrs functions ∧
      imports' = imports ++ functions.map (bound system) := by
  induction left generalizing names addrs imports with
  | zero => cases returned
  | succ left inductionHypothesis =>
    rw [importFunctions_succ] at returned
    by_cases null : thunkAt memory names = 0
    · rw [if_pos null] at returned
      cases returned
      exact ⟨[], .last null, (List.append_nil _).symm⟩
    · rw [if_neg null] at returned
      by_cases inside : Inside image imageSize names 8 ∧ Inside image imageSize addrs 8
      · rw [if_pos inside] at returned
        obtain ⟨between, added, returned⟩ := bind_result_ok returned
        obtain ⟨name, named, rfl⟩ := addImport_result added
        obtain ⟨functions, enumerated, rfl⟩ := inductionHypothesis returned
        exact ⟨_, .function null named enumerated, List.append_assoc _ _ _⟩
      · rw [if_neg inside] at returned
        cases returned

/-- The libraries that are walked are those of the image. -/
theorem importLibraries_result {left : Nat} {directory : PeImageDataDir}
    {imports imports' : List Import}
    (returned : (importLibraries system turns memory image imageSize left directory
      imports).result = .ok imports') :
    ∃ entries, Libraries memory image (directory.size.toNat / 20) directory.virtualAddress
        entries ∧
      imports' = imports ++ entries.map (bound system) := by
  induction left generalizing directory imports with
  | zero => cases returned
  | succ left inductionHypothesis =>
    by_cases small : directory.size < sizeofImageImport
    · have few : directory.size.toNat < 20 := UInt32.lt_iff_toNat_lt.mp small
      rw [importLibraries, if_pos small] at returned
      cases returned
      rw [Nat.div_eq_of_lt few]
      exact ⟨[], .exhausted, (List.append_nil _).symm⟩
    have large : sizeofImageImport.toNat ≤ directory.size.toNat :=
      UInt32.le_iff_toNat_le.mp (UInt32.not_lt.mp small)
    have count : directory.size.toNat / 20 =
        (directory.size - sizeofImageImport).toNat / 20 + 1 := by
      rw [UInt32.toNat_sub_of_le _ _ (UInt32.not_lt.mp small)]
      exact Nat.div_eq_sub_div (Nat.succ_pos 19) large
    rw [importLibraries_succ left small rfl] at returned
    by_cases inside : Inside image imageSize (image + directory.virtualAddress.toNat) 8
    swap
    · rw [if_neg inside] at returned
      cases returned
    rw [if_pos inside] at returned
    rw [count]
    by_cases null : dwordAt memory (image + directory.virtualAddress.toNat + 12) = 0
    · rw [if_pos null] at returned
      cases returned
      exact ⟨[], .last null, (List.append_nil _).symm⟩
    rw [if_neg null] at returned
    by_cases borland : dwordAt memory (image + directory.virtualAddress.toNat) = 0
    · rw [if_pos borland] at returned
      cases returned
    rw [if_neg borland] at returned
    obtain ⟨dllname, named, returned⟩ := bind_result_ok returned
    obtain ⟨between, walked, returned⟩ := bind_result_ok returned
    obtain ⟨functions, thunks, rfl⟩ := importFunctions_result walked
    obtain ⟨entries, enumerated, rfl⟩ := inductionHypothesis returned
    refine ⟨functions ++ entries,
      .library null (stringAt_loadString named) thunks enumerated, ?_⟩
    rw [List.map_append, List.append_assoc]

/-! ### Patching -/

/-- No two slots of eight bytes overlap. -/
def SlotsApart (slots : List Nat) : Prop :=
  slots.Pairwise fun one other => one + 8 ≤ other ∨ other + 8 ≤ one

/-- A 32-bit product of an index that does not wrap. -/
theorem stubOffset_eq {index : Nat} (small : index * 18 < 2 ^ 32) :
    (UInt32.ofNat index * sizeofStub).toNat = index * 18 := by
  have less : index < 2 ^ 32 := by omega
  rw [UInt32.toNat_mul, UInt32.toNat_ofNat_of_lt' less]
  exact Nat.mod_eq_of_lt small

/-- One turn of the loop over the imports. -/
theorem patchThunks_cons {stubs index : Nat} {entry : Import} {entries : List Import}
    {memory' : Memory}
    (returned : (patchThunks system image imageSize stubs index (entry :: entries)
      memory).result = .ok memory') :
    Inside image imageSize entry.thunk 8 ∧
      (patchThunks system image imageSize stubs (index + 1) entries
        (storeBytes (storeBytes memory (stubs + (UInt32.ofNat index * sizeofStub).toNat)
            (emitStub system index)) entry.thunk
          (toBytes 8 (stubs + (UInt32.ofNat index * sizeofStub).toNat)))).result =
        .ok memory' := by
  unfold patchThunks at returned
  obtain ⟨_, checked, returned⟩ := bind_result_ok returned
  refine ⟨(cliIsContained_iff _ (Nat.succ_pos 7)).mp ?_, returned⟩
  exact Eq.mp (Bool.not_eq_false' _) (returnNullIf_result checked)

theorem inside_of_patchThunks {stubs index : Nat} {entries : List Import}
    {memory memory' : Memory}
    (returned : (patchThunks system image imageSize stubs index entries memory).result =
      .ok memory') : ∀ entry ∈ entries, Inside image imageSize entry.thunk 8 := by
  induction entries generalizing index memory with
  | nil => nofun
  | cons entry entries inductionHypothesis =>
    obtain ⟨inside, rest⟩ := patchThunks_cons returned
    exact List.forall_mem_cons.mpr ⟨inside, inductionHypothesis rest⟩

/-- Behind the stubs and the slots that are patched later, a range is as it was. -/
theorem patchThunks_apart {stubs index : Nat} {entries : List Import} {memory memory' : Memory}
    {address size : Nat}
    (returned : (patchThunks system image imageSize stubs index entries memory).result =
      .ok memory')
    (few : (index + entries.length) * 18 < 2 ^ 32)
    (stubsApart : address + size ≤ stubs + index * 18 ∨
      stubs + (index + entries.length) * 18 ≤ address)
    (slotsApart : ∀ entry ∈ entries, address + size ≤ entry.thunk ∨ entry.thunk + 8 ≤ address) :
    loadBytes memory' address size = loadBytes memory address size := by
  induction entries generalizing index memory with
  | nil =>
    cases returned
    rfl
  | cons entry entries inductionHypothesis =>
    obtain ⟨_, returned⟩ := patchThunks_cons returned
    rw [List.length_cons] at few stubsApart
    have offset : (UInt32.ofNat index * sizeofStub).toNat = index * 18 :=
      stubOffset_eq (by omega)
    rw [offset] at returned
    have slot := slotsApart entry List.mem_cons_self
    have others := inductionHypothesis returned (by omega) (by omega)
      fun entry member => slotsApart entry (List.mem_cons_of_mem _ member)
    rw [others, loadBytes_storeBytes_apart slot, loadBytes_storeBytes_apart]
    have length : (emitStub system index).length = 18 := rfl
    omega

/-- Each import has its stub and its slot. -/
theorem patchThunks_result {stubs index : Nat} {entries : List Import} {memory memory' : Memory}
    (returned : (patchThunks system image imageSize stubs index entries memory).result =
      .ok memory')
    (few : (index + entries.length) * 18 < 2 ^ 32)
    (outside : image + imageSize ≤ stubs ∨
      stubs + (index + entries.length) * 18 ≤ image)
    (apart : SlotsApart (entries.map Import.thunk)) {number : Nat} {entry : Import}
    (member : entries[number]? = some entry) :
    thunkAt memory' entry.thunk = .ofNat (stubs + (index + number) * 18) ∧
      loadBytes memory' (stubs + (index + number) * 18) 18 = emitStub system (index + number) := by
  induction entries generalizing index number memory with
  | nil => cases member
  | cons first entries inductionHypothesis =>
    obtain ⟨inside, rest⟩ := patchThunks_cons returned
    rw [List.length_cons] at few outside
    rw [List.map_cons, SlotsApart, List.pairwise_cons] at apart
    cases number with
    | succ number =>
      rw [List.getElem?_cons_succ] at member
      have others := inductionHypothesis rest (by omega) (by omega) apart.2 member
      rw [Nat.add_assoc, Nat.add_comm 1 number] at others
      exact others
    | zero =>
      obtain rfl : first = entry := Option.some.inj member
      have offset : (UInt32.ofNat index * sizeofStub).toNat = index * 18 :=
        stubOffset_eq (by omega)
      have length : (emitStub system index).length = 18 := rfl
      have otherInside := inside_of_patchThunks rest
      have otherApart : ∀ other ∈ entries,
          first.thunk + 8 ≤ other.thunk ∨ other.thunk + 8 ≤ first.thunk :=
        fun other among => apart.1 _ (List.mem_map_of_mem among)
      unfold Inside at inside otherInside
      rw [offset] at rest
      constructor
      · have kept : loadBytes memory' first.thunk 8 = _ :=
          patchThunks_apart rest (by omega) (by omega) otherApart
        rw [thunkAt, kept]
        exact thunkAt_storeBytes _ _ _
      · have kept : loadBytes memory' (stubs + index * 18) 18 = _ :=
          patchThunks_apart rest (by omega) (by omega) fun other among => by
            have := otherInside other among
            omega
        rw [Nat.add_zero, kept, loadBytes_storeBytes_apart]
        · exact loadBytes_storeBytes _ _ (emitStub system index)
        · rw [toBytes_length]
          omega

/-- The stubs of a walk that is patched. -/
theorem patchImports_result {imports : List Import} {memory' : Memory}
    (returned : (patchImports system image imageSize imports memory).result = .ok memory')
    (some : imports ≠ []) :
    ∃ stubs, system.mmap .stubs 0
        (pesAlign (UInt32.ofNat imports.length * sizeofStub) system.getpagesize).toNat =
          .some stubs ∧
      ∃ memory'', (patchThunks system image imageSize stubs 0 imports memory'').result =
        .ok memory' := by
  unfold patchImports at returned
  rw [if_neg some] at returned
  obtain ⟨stubs, mapped, returned⟩ := bind_result_ok returned
  obtain ⟨memory'', patched, returned⟩ := bind_result_ok returned
  obtain ⟨_, _, returned⟩ := bind_result_ok returned
  cases returned
  refine ⟨stubs, ?_, _, patched⟩
  unfold mmapOrNull at mapped
  generalize system.mmap .stubs 0 _ = place at mapped ⊢
  cases place with
  | none => cases mapped
  | some place =>
    cases mapped
    rfl

/-- A size rounded up to pages is not less, where it does not wrap. -/
theorem le_pesAlign {size page : UInt32} (small : size.toNat + page.toNat ≤ 2 ^ 32) :
    size.toNat ≤ (pesAlign size page).toNat := by
  unfold pesAlign
  by_cases null : page = 0
  · rw [if_neg (not_not_intro null)]
  rw [if_pos null]
  have whole := Nat.div_add_mod' size.toNat page.toNat
  by_cases rest : size % page = 0
  · have zero : size.toNat % page.toNat = 0 := by
      rw [← UInt32.toNat_mod, rest]
      rfl
    rw [if_neg (not_not_intro rest), UInt32.add_zero, UInt32.toNat_mul, UInt32.toNat_div,
      Nat.mod_eq_of_lt]
    · omega
    · have := size.toNat_lt
      omega
  · have some : size.toNat % page.toNat ≠ 0 := by
      rw [← UInt32.toNat_mod]
      exact fun zero => rest (UInt32.toNat.inj zero)
    have product : (size.toNat / page.toNat + 1) * page.toNat =
        size.toNat / page.toNat * page.toNat + page.toNat := Nat.succ_mul _ _
    have positive : 0 < page.toNat :=
      Nat.pos_of_ne_zero fun zero => null (UInt32.toNat.inj zero)
    have fewer : size.toNat / page.toNat + 1 ≤ (size.toNat / page.toNat + 1) * page.toNat :=
      Nat.le_mul_of_pos_right _ positive
    have pages : (size / page + 1).toNat = size.toNat / page.toNat + 1 := by
      rw [toNat_end, UInt32.toNat_div]
      · rfl
      · rw [UInt32.toNat_div, UInt32.toNat_one]
        omega
    have less := Nat.mod_lt size.toNat positive
    rw [if_pos rest, UInt32.toNat_mul, pages, Nat.mod_eq_of_lt]
    · omega
    · omega

/-! ### The import phase -/

/-- A name without its last dot and what follows it. -/
def Stem (name stem : List UInt8) : Prop :=
  (0x2e ∉ name ∧ stem = name) ∨ ∃ suffix, name = stem ++ 0x2e :: suffix ∧ 0x2e ∉ suffix

/-- What the import phase leaves for an import: its slot, its name, its address and its
stub. -/
structure Binds (system : System) (memory : Memory) (stubs index : Nat) (entry : Imported)
    (result : Import) : Prop where
  slot : thunkAt memory entry.slot = .ofNat (stubs + index * sizeofStub.toNat)
  name : result.name = entry.dllname ++ 0x21 :: entry.name
  addr : ∀ stem, Stem (entry.dllname.take 63) stem → result.addr =
    (system.nlExports.find? fun e => e.dll = stem ∧ e.name = entry.name).map NlExport.func
  stub : loadBytes memory (stubs + index * sizeofStub.toNat) 18 = emitStub system index

/-- `dllbase` is the name of the library, cut, without its suffix. -/
theorem dllBase_eq {dllname stem : List UInt8} (without : Stem (dllname.take 63) stem) :
    dllBase dllname = stem := by
  unfold dllBase
  dsimp only
  rcases without with ⟨none, rfl⟩ | ⟨suffix, same, none⟩
  · have dropped : (dllname.take 63).reverse.dropWhile (· ≠ 0x2e) = [] := by
      rw [List.dropWhile_eq_nil_iff]
      exact fun byte member => decide_eq_true fun dot => none (dot ▸ List.mem_reverse.mp member)
    rw [dropped]
  · have dropped : (dllname.take 63).reverse.dropWhile (· ≠ 0x2e) = 0x2e :: stem.reverse := by
      rw [same, List.reverse_append, List.reverse_cons, List.append_assoc,
        List.dropWhile_append_of_pos]
      · rfl
      · exact fun byte member => decide_eq_true fun dot => none (dot ▸ List.mem_reverse.mp member)
    rw [dropped]
    exact List.reverse_reverse stem

/-- Where the import phase succeeds, the imports of the image have been bound one by one in
the order of their enumeration. -/
theorem import_binding (system : System) (turns : Nat) (memory memory' : Memory)
    (image imageSize : Nat) (directory : PeImageDataDir) (entries : List Imported)
    (imports : List Import)
    (granted : ∀ size stubs, system.mmap .stubs 0 size = some stubs →
      image + imageSize ≤ stubs ∨ stubs + size ≤ image)
    (enumerated : Libraries memory image (directory.size.toNat / 20) directory.virtualAddress
      entries)
    (apart : SlotsApart (entries.map Imported.slot))
    (few : entries.length * sizeofStub.toNat + system.getpagesize.toNat ≤ 2 ^ 32)
    (walked : (importLibraries system turns memory image imageSize turns directory []).result =
      .ok imports)
    (patched : (patchImports system image imageSize imports memory).result = .ok memory') :
    imports.length = entries.length ∧ ∃ stubs, ∀ index entry, entries[index]? = some entry →
      ∃ result, imports[index]? = some result ∧
        Binds system memory' stubs index entry result := by
  obtain ⟨entries', enumerated', same⟩ := importLibraries_result walked
  cases enumerated.unique enumerated'
  rw [List.nil_append] at same
  subst same
  refine ⟨List.length_map _, ?_⟩
  by_cases none : entries = []
  · refine ⟨0, fun index entry member => ?_⟩
    rw [none] at member
    cases member
  obtain ⟨stubs, mapped, memory'', patched⟩ :=
    patchImports_result patched (List.map_eq_nil_iff.not.mpr none)
  have eighteen : sizeofStub.toNat = 18 := rfl
  rw [List.length_map] at mapped
  rw [eighteen] at few
  have total : (UInt32.ofNat entries.length * sizeofStub).toNat = entries.length * 18 :=
    stubOffset_eq (by omega)
  have rounded : entries.length * 18 ≤
      (pesAlign (UInt32.ofNat entries.length * sizeofStub) system.getpagesize).toNat := by
    rw [← total]
    exact le_pesAlign (by rw [total]; exact few)
  have outside := granted _ _ mapped
  refine ⟨stubs, fun index entry member => ?_⟩
  have found : (entries.map (bound system))[index]? = some (bound system entry) := by
    rw [List.getElem?_map, member]
    rfl
  have slots : SlotsApart ((entries.map (bound system)).map Import.thunk) := by
    rw [List.map_map]
    exact apart
  obtain ⟨slot, stub⟩ := patchThunks_result patched (by rw [List.length_map]; omega)
    (by rw [List.length_map]; omega) slots found
  rw [Nat.zero_add] at slot stub
  refine ⟨_, found, slot, rfl, fun stem without => ?_, stub⟩
  rw [← dllBase_eq without]
  rfl

/-- An image at `0x10000` with one library, which has an ordinal and the name `f` in an array
that is both the names and the slots. -/
def exampleImports (dllname : List UInt8) : Memory :=
  storeBytes (fun _ => 0) 0x10000 (toBytes 12 40 ++ toBytes 4 68 ++ toBytes 24 40 ++
    toBytes 8 0x8000000000000007 ++ toBytes 16 64 ++ [0, 0, 0x66, 0] ++ dllname)

/-- A system that exports `f` from a library. -/
def exampleExports (dll : List UInt8) : System :=
  { exampleSystem with nlExports := [{ dll := dll, name := [0x66], func := 0x500000 }] }

/-- The imports of `a.b`. -/
def exampleEntries : List Imported :=
  [{ dllname := [0x61, 0x2e, 0x62], name := [0x6f, 0x72, 0x64, 0x5f, 0x30, 0x30, 0x37],
     slot := 0x10028 },
   { dllname := [0x61, 0x2e, 0x62], name := [0x66], slot := 0x10030 }]

theorem libraries_example :
    Libraries (exampleImports [0x61, 0x2e, 0x62]) 0x10000 2 0 exampleEntries := by
  have thunks : Functions (exampleImports [0x61, 0x2e, 0x62]) 0x10000 [0x61, 0x2e, 0x62]
      0x10028 0x10028 exampleEntries :=
    .function (by decide) (.inl ⟨by decide, by decide⟩)
      (.function (by decide) (.inr ⟨by decide, by decide⟩) (.last (by decide)))
  have libraries : Libraries (exampleImports [0x61, 0x2e, 0x62]) 0x10000 2 0
      (exampleEntries ++ []) :=
    .library (by decide) (by decide) thunks (.last (by decide))
  exact libraries

set_option maxRecDepth 20000 in
/-- The two imports of `a.b`, bound. -/
theorem import_binding_example :
    ∃ memory', (patchImports (exampleExports [0x61]) 0x10000 4096
        (exampleEntries.map (bound (exampleExports [0x61])))
        (exampleImports [0x61, 0x2e, 0x62])).result = .ok memory' ∧
      (exampleEntries.map (bound (exampleExports [0x61]))).length = exampleEntries.length ∧
      ∃ stubs, ∀ index entry, exampleEntries[index]? = some entry →
        ∃ result, (exampleEntries.map (bound (exampleExports [0x61])))[index]? = some result ∧
          Binds (exampleExports [0x61]) memory' stubs index entry result := by
  have walked : ∃ imports, (importLibraries (exampleExports [0x61]) 100
      (exampleImports [0x61, 0x2e, 0x62]) 0x10000 4096 100
      { virtualAddress := 0, size := 40 } []).result = .ok imports ∧
        imports = exampleEntries.map (bound (exampleExports [0x61])) :=
    ⟨_, rfl, by decide +kernel⟩
  obtain ⟨_, walked, rfl⟩ := walked
  have granted : ∀ size stubs, (exampleExports [0x61]).mmap .stubs 0 size = some stubs →
      0x10000 + 4096 ≤ stubs ∨ stubs + size ≤ 0x10000 := by
    intro size stubs mapped
    cases mapped
    exact .inl (by decide)
  have apart : SlotsApart (exampleEntries.map Imported.slot) := by
    unfold SlotsApart
    decide
  have patched : ∃ memory', (patchImports (exampleExports [0x61]) 0x10000 4096
      (exampleEntries.map (bound (exampleExports [0x61])))
      (exampleImports [0x61, 0x2e, 0x62])).result = .ok memory' := ⟨_, rfl⟩
  obtain ⟨memory', patched⟩ := patched
  exact ⟨memory', patched, import_binding _ _ _ _ _ _ _ _ _ granted libraries_example apart
    (by decide) walked patched⟩

/-- An image at `0x10000` with two libraries, which import an ordinal each into slots four
bytes apart. -/
def overlappingImports : Memory :=
  storeBytes (fun _ => 0) 0x10000 (toBytes 12 60 ++ toBytes 4 76 ++ toBytes 4 60 ++
    toBytes 12 60 ++ toBytes 4 76 ++ toBytes 24 64 ++ toBytes 16 0x8000000000000007 ++ [0x61])

set_option maxRecDepth 20000 in
/-- The address of an import is not the one that is exported for it, where the name of its
library has more than 63 bytes; and a slot does not hold the address of its stub, where
another slot overlaps it. -/
theorem not_import_binding :
    (∃ imports, (importLibraries (exampleExports (List.replicate 64 0x61)) 100
          (exampleImports (List.replicate 64 0x61)) 0x10000 4096 100
          { virtualAddress := 0, size := 40 } []).result = .ok imports ∧
        imports[1]?.map Import.addr = some none ∧
        Stem (List.replicate 64 0x61) (List.replicate 64 0x61) ∧
        (nlResolve (exampleExports (List.replicate 64 0x61)).nlExports
          (List.replicate 64 0x61) [0x66]) = some 0x500000) ∧
      ∃ imports memory', (importLibraries exampleSystem 100 overlappingImports 0x10000 4096 100
          { virtualAddress := 0, size := 60 } []).result = .ok imports ∧
        imports.map Import.thunk = [0x1003c, 0x10040] ∧
        (patchImports exampleSystem 0x10000 4096 imports overlappingImports).result =
          .ok memory' ∧
        thunkAt memory' 0x1003c ≠ 0x7f0000000000 ∧
        exampleSystem.mmap .stubs 0 4096 = some 0x7f0000000000 := by
  refine ⟨⟨_, rfl, rfl, .inl ⟨by decide, rfl⟩, by decide⟩, _, _, rfl, rfl, rfl, ?_, rfl⟩
  decide

end Nloader.Loader
