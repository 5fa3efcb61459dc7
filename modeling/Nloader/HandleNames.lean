/-
This file models the name and the description that `__CreateHandle` of `src/libs/ntdll/ntdll.h` and
`bcd_alloc_handle` of `src/libs/bcd/bcd.c` put into a handle, and the path that `NtQueryValueKey` of
`src/libs/ntdll/registry.c` makes with the name of a key. The two arrays are the last of the block
that a handle points to, and it ends with the name.

A name is copied up to the end of its array by the one, and up to the byte before the end by the
other. So a name with as many bytes as the array has no zero behind it in the handles of the one,
and the path is read beyond the handle.
-/

import Nloader.Registry

namespace Nloader.HandleNames

open CommandLine ConvertedStrings CountedStrings Handles Open Outcome Registry Terminated

/-! ### The arrays -/

/-- `sizeof((_handle)->name)` and `sizeof((_handle)->desc)`. -/
def sizeofField : Nat := 512

/-- An array of a handle. -/
structure Field where
  bytes : List UInt8
  size : bytes.length = sizeofField

/-- The array in a block of zeros. -/
def Field.zero : Field where
  bytes := List.replicate sizeofField 0
  size := List.length_replicate

/-- Stores at the beginning of an array. -/
def Field.put (field : Field) (text : List UInt8) : Except Stop Field :=
  if short : text.length ≤ sizeofField then
    .ok { bytes := text ++ field.bytes.drop text.length
          size := by rw [List.length_append, List.length_drop, field.size]; omega }
  else .error .overrun

/-- `strncpy`. -/
def Field.strncpy (field : Field) (src : List UInt8) (count : Nat) : Except Stop Field := do
  let text ← orOverread (padded count src)
  field.put text

/-- `snprintf`, with the text of its format. -/
def Field.snprintf (field : Field) (size : Nat) (text : List UInt8) : Except Stop Field :=
  field.put (text.take (size - 1) ++ [0])

/-! ### The handles -/

/-- What is stored to the block of a new handle. -/
structure Handle extends Header where
  desc : Field
  name : Field

/-- `"%c:%s (by %s)"`. -/
def descText (type : UInt8) (name func : List UInt8) : List UInt8 :=
  type :: 0x3a :: (name ++ (bytes " (by " ++ (func ++ bytes ")")))

/-- A block of zeros with the cookie and a type. -/
def zeroed (type : UInt8) : Handle where
  toHeader := .ofType type
  desc := .zero
  name := .zero

/-- A new handle, with the number of bytes that are copied of its name at most. -/
def makeHandle (count : Nat) (type : UInt8) (name : List UInt8) (func : Text UInt8) :
    Except Stop Handle := do
  let handle := zeroed type
  let stored ← handle.name.strncpy name count
  let printed ← cString name
  let described ← handle.desc.snprintf sizeofField (descText type printed func.characters)
  .ok { handle with desc := described, name := stored }

/-- `__CreateHandle` in a function. -/
def createHandle : UInt8 → List UInt8 → Text UInt8 → Except Stop Handle := makeHandle sizeofField

/-- `"bcd"`. -/
def bcd : Text UInt8 where
  characters := bytes "bcd"
  nonzero := by decide

/-- `bcd_alloc_handle`, when there is a block. -/
def bcdAllocHandle (type : UInt8) (name : List UInt8) : Except Stop Handle :=
  makeHandle (sizeofField - 1) type name bcd

/-! ### The keys -/

/-- The name of `NtOpenKey`. -/
def openKey : Text UInt8 where
  characters := bytes "NtOpenKey"
  nonzero := by decide

/-- `NtOpenKey`, for the name in its attributes. -/
def ntOpenKey (objectName : CountedString UInt16) : Except Stop Handle := do
  let objectAttributesA ← us2str objectName
  createHandle handleReg objectAttributesA openKey

/-- The path that `NtQueryValueKey` makes. -/
def keyPath (keyHandle : Handle) (valueNameA : List UInt8) : Except Stop (List UInt8) :=
  snprintfPath keyHandle.name.bytes valueNameA

/-- What `NtQueryValueKey` looks up. -/
def queriedValue (keyHandle : Handle) (valueName : CountedString UInt16) :
    Except Stop (Option RegKey) := do
  let valueNameA ← us2str valueName
  let path ← keyPath keyHandle valueNameA
  .ok (registryLookup path)

/-! ### What the arrays should hold -/

/-- The array holds the front of a text, with a zero behind it. -/
def Field.HoldsFront (field : Field) (text : List UInt8) : Prop :=
  ∃ held, cString field.bytes = .ok held ∧ held <+: text

/-- The arrays of a handle hold the fronts of their texts, and no path that is made with its name is
read beyond it. -/
structure Handle.Proper (handle : Handle) (name desc : List UInt8) : Prop where
  name : handle.name.HoldsFront name
  desc : handle.desc.HoldsFront desc
  paths : ∀ valueNameA : Text UInt8, ∃ path, keyPath handle valueNameA.memory = .ok path

/-- Both make a proper handle for a name. -/
def Made (type : UInt8) (name func : Text UInt8) (behind : List UInt8) : Prop :=
  (∃ handle, createHandle type (name.memory ++ behind) func = .ok handle ∧
    handle.Proper name.characters (descText type name.characters func.characters)) ∧
  ∃ handle, bcdAllocHandle type (name.memory ++ behind) = .ok handle ∧
    handle.Proper name.characters (descText type name.characters bcd.characters)

/-! ### C strings -/

theorem cString_text (text : Text UInt8) (behind : List UInt8) :
    cString (text.memory ++ behind) = .ok text.characters := by
  rw [Text.memory, List.append_assoc, List.singleton_append, cString_append,
    takeWhile_nonzero text.nonzero]

/-- An array without a zero has no C string. -/
theorem cString_of_nonzero {array : List UInt8} (nonzero : 0 ∉ array) :
    cString array = .error .overread := by
  induction array with
  | nil => rfl
  | cons c array inductionHypothesis =>
    obtain ⟨other, others⟩ := not_or.mp (List.mem_cons.not.mp nonzero)
    rw [cString, if_neg (Ne.symm other), inductionHypothesis others]
    rfl

/-! ### The arrays of a new handle -/

/-- A text is stored where there is room for it. -/
theorem Field.put_of_le (field : Field) {text : List UInt8} (short : text.length ≤ sizeofField) :
    ∃ next, field.put text = .ok next ∧ next.bytes = text ++ field.bytes.drop text.length :=
  ⟨_, dif_pos short, rfl⟩

/-- What is printed into an array is the front of a text. -/
theorem snprintf_holdsFront (field : Field) (text : List UInt8) :
    ∃ next, field.snprintf sizeofField text = .ok next ∧ next.HoldsFront text := by
  have short : (text.take (sizeofField - 1) ++ [0]).length ≤ sizeofField := by
    rw [List.length_append, List.length_take, List.length_singleton]
    exact Nat.succ_le_of_lt ((Nat.min_le_left _ _).trans_lt (by decide))
  obtain ⟨next, stores, content⟩ := field.put_of_le short
  refine ⟨next, stores, (text.take (sizeofField - 1)).takeWhile (· ≠ 0), ?_, ?_⟩
  · rw [content, List.append_assoc, List.singleton_append, cString_append]
  · exact (List.takeWhile_prefix _).trans (List.take_prefix _ _)

/-- What a name leaves in an array of zeros. -/
theorem strncpy_text (name : Text UInt8) (behind : List UInt8) {count : Nat}
    (within : count ≤ sizeofField) :
    ∃ next, Field.zero.strncpy (name.memory ++ behind) count = .ok next ∧
      next.bytes = (name.truncate count).characters ++
        List.replicate (sizeofField - min count name.characters.length) 0 := by
  have length : (name.characters.take count ++
      List.replicate (count - name.characters.length) 0).length = count := by
    rw [List.length_append, List.length_take, List.length_replicate]
    omega
  obtain ⟨next, stores, content⟩ := Field.zero.put_of_le (length.trans_le within)
  refine ⟨next, ?_, ?_⟩
  · rw [Field.strncpy, padded_text]
    exact stores
  · rw [content, length]
    change name.characters.take count ++ _ ++ (List.replicate sizeofField 0).drop count = _
    rw [List.drop_replicate, List.append_assoc, List.replicate_append_replicate, Text.truncate]
    congr 2
    omega

/-- An array with the front of a name holds it where there is room for a zero. -/
theorem holdsFront_iff {field : Field} {name : Text UInt8} {count : Nat}
    (content : field.bytes = (name.truncate count).characters ++
      List.replicate (sizeofField - min count name.characters.length) 0) :
    field.HoldsFront name.characters ↔ min count name.characters.length < sizeofField := by
  constructor
  · rintro ⟨held, reads, _⟩
    by_contra full
    rw [content, Nat.sub_eq_zero_of_le (not_lt.mp full), List.replicate_zero, List.append_nil,
      cString_of_nonzero (name.truncate count).nonzero] at reads
    exact nomatch reads
  · intro room
    obtain ⟨rest, more⟩ : ∃ rest, sizeofField - min count name.characters.length = rest + 1 :=
      ⟨sizeofField - min count name.characters.length - 1, by omega⟩
    refine ⟨(name.truncate count).characters, ?_, List.take_prefix _ _⟩
    rw [content, more, List.replicate_succ, cString_append,
      takeWhile_nonzero (name.truncate count).nonzero]

/-! ### The handles that are made -/

/-- The handle that is made for a name. -/
theorem makeHandle_text {count : Nat} (within : count ≤ sizeofField) (type : UInt8)
    (name func : Text UInt8) (behind : List UInt8) :
    ∃ handle, makeHandle count type (name.memory ++ behind) func = .ok handle ∧
      handle.desc.HoldsFront (descText type name.characters func.characters) ∧
      handle.name.bytes = (name.truncate count).characters ++
        List.replicate (sizeofField - min count name.characters.length) 0 := by
  obtain ⟨stored, copies, content⟩ := strncpy_text name behind within
  obtain ⟨described, prints, front⟩ := snprintf_holdsFront .zero
    (descText type name.characters func.characters)
  refine ⟨{ zeroed type with desc := described, name := stored }, ?_, front, content⟩
  rw [makeHandle]
  dsimp only [zeroed]
  rw [copies, ok_bind, cString_text, ok_bind, prints, ok_bind]

/-- A path is made with what an array holds. -/
theorem keyPath_of_holdsFront {handle : Handle} {text : List UInt8}
    (holds : handle.name.HoldsFront text) (valueNameA : Text UInt8) :
    ∃ path, keyPath handle valueNameA.memory = .ok path := by
  obtain ⟨held, reads, _⟩ := holds
  have value := cString_text valueNameA []
  rw [List.append_nil] at value
  rw [keyPath, snprintfPath, reads, ok_bind, value, ok_bind]
  exact ⟨_, rfl⟩

/-- The handle is proper where there is room for a zero behind what is copied of the name. -/
theorem makeHandle_proper_iff {count : Nat} (within : count ≤ sizeofField) (type : UInt8)
    (name func : Text UInt8) (behind : List UInt8) :
    (∃ handle, makeHandle count type (name.memory ++ behind) func = .ok handle ∧
      handle.Proper name.characters (descText type name.characters func.characters)) ↔
      min count name.characters.length < sizeofField := by
  obtain ⟨handle, made, front, content⟩ := makeHandle_text within type name func behind
  rw [← holdsFront_iff content]
  constructor
  · rintro ⟨other, same, proper⟩
    obtain rfl := Except.ok.inj (made.symm.trans same)
    exact proper.name
  · intro holds
    exact ⟨handle, made, holds, front, keyPath_of_holdsFront holds⟩

/-- `bcd_alloc_handle` makes a proper handle for every name. -/
theorem bcdAllocHandle_proper (type : UInt8) (name : Text UInt8) (behind : List UInt8) :
    ∃ handle, bcdAllocHandle type (name.memory ++ behind) = .ok handle ∧
      handle.Proper name.characters (descText type name.characters bcd.characters) :=
  (makeHandle_proper_iff (Nat.sub_le _ _) type name bcd behind).mpr
    ((Nat.min_le_left _ _).trans_lt (by decide))

/-- Both make a proper handle exactly for the names that leave room for a zero in the array. -/
theorem made_iff (type : UInt8) (name func : Text UInt8) (behind : List UInt8) :
    Made type name func behind ↔ name.characters.length < sizeofField := by
  rw [Made, and_iff_left (bcdAllocHandle_proper type name behind), createHandle,
    makeHandle_proper_iff le_rfl]
  exact min_lt_iff.trans (or_iff_right (lt_irrefl _))

/-- A name with as many bytes as the array. -/
def longName : Text UInt8 where
  characters := List.replicate sizeofField 0x61
  nonzero within := absurd (List.eq_of_mem_replicate within) (by decide)

/-- The same name as `NtOpenKey` gets it. -/
def longObjectName : CountedString UInt16 where
  length := 1024
  maximumLength := 1026
  buffer := some (List.replicate sizeofField 0x61 ++ [0])

/-- The name of a value. -/
def shortValueName : CountedString UInt16 where
  length := 2
  maximumLength := 4
  buffer := some [0x62, 0]

/-- The long name has no zero behind it, and a value of the key is looked up beyond the handle. -/
theorem not_made_longName :
    ¬ Made handleReg longName openKey [] ∧
      (ntOpenKey longObjectName >>= fun keyHandle => queriedValue keyHandle shortValueName) =
        .error .overread := by
  constructor
  · intro made
    have room := (makeHandle_proper_iff le_rfl handleReg longName openKey []).mp made.1
    rw [longName, List.length_replicate, min_self] at room
    exact lt_irrefl _ room
  · decide +kernel

end Nloader.HandleNames
