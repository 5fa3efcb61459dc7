/-
This file is about `src/setdirty.py`, which sets the dirty flag of an NTFS image in the `$Volume`
records of `$MFT` and `$MFTMirr`, one after the other. An image is the list of its bytes. The script
writes the first record before it has looked at the second: a run that fails at the second leaves
the image with one flag set.
-/

import Nloader.Library.ByteBlock
import Nloader.Library.Outcome

namespace Nloader.SetDirty

open ByteBlock Outcome

/-! ### The script -/

/-- How a run ends early: with an exception, or with the message of `sys.exit`. -/
inductive Stop where
  | structError
  | indexError
  | valueError
  | message (text : String)
  deriving DecidableEq

/-- `struct.unpack_from`, for an unsigned number of some bytes. -/
def unpackFrom (buffer : List UInt8) (offset width : Nat) : Except Stop Nat :=
  match load buffer offset width with
  | none => throw .structError
  | some value => pure value

/-- A byte at an index. -/
def byteAt (buffer : List UInt8) (index : Nat) : Except Stop Nat :=
  match load buffer index 1 with
  | none => throw .indexError
  | some value => pure value

/-- Bytes with some overwritten, none of them behind the end: the assignment to a slice, and
`f.write`. -/
def overwrite (bytes : List UInt8) (offset : Nat) (new : List UInt8) : List UInt8 :=
  bytes.take offset ++ (new ++ bytes.drop (offset + new.length))

/-- `f.seek`, which takes an offset of 64 bits. -/
def seek (offset : Nat) : Except Stop Nat :=
  if offset < 2 ^ 63 then pure offset else throw .valueError

/-- `rec_size`. -/
def recSize : Nat := 1024

/-- What is read of the boot sector: `mft_lcn * cs` and `mftmirr_lcn * cs`. -/
def boot (image : List UInt8) : Except Stop (Nat × Nat) := do
  let boot := image.take 512
  let bps ← unpackFrom boot 0x0B 2
  let spc ← byteAt boot 0x0D
  let mftLcn ← unpackFrom boot 0x30 8
  let mftmirrLcn ← unpackFrom boot 0x38 8
  let cs := bps * spc
  pure (mftLcn * cs, mftmirrLcn * cs)

/-- `while attr_off < rec_size - 4`: `flags_off` and `cur`, where the loop comes to them. -/
def findFlags (record : List UInt8) (attrOff : Nat) : Except Stop (Option (Nat × Nat)) :=
  if attrOff < recSize - 4 then do
    let atype ← unpackFrom record attrOff 4
    if atype = 0xFFFFFFFF then pure none
    else
      let alen ← unpackFrom record (attrOff + 4) 4
      if alen = 0 then pure none
      else
        let nonres ← byteAt record (attrOff + 8)
        if atype = 0x70 ∧ nonres = 0 then
          let valueOff ← unpackFrom record (attrOff + 0x14) 2
          let flagsOff := attrOff + valueOff + 0x0A
          let cur ← unpackFrom record flagsOff 2
          pure (some (flagsOff, cur))
        else findFlags record (attrOff + alen)
  else pure none
termination_by recSize - 4 - attrOff

/-- `rec_off`: where entry 3 is. -/
def recOff (startOff : Nat) : Nat := startOff + 3 * recSize

/-- `f.read(rec_size)` at a place. -/
def readRecord (image : List UInt8) (recOff : Nat) : List UInt8 :=
  (image.drop recOff).take recSize

/-- The scan of `patch`. -/
def scan (image : List UInt8) (startOff : Nat) : Except Stop (Option (Nat × Nat)) := do
  let recOff ← seek (recOff startOff)
  let record := readRecord image recOff
  let attrOff ← unpackFrom record 0x14 2
  findFlags record attrOff

/-- `patch`: what it writes, where it returns `True`. -/
def patch (image : List UInt8) (startOff : Nat) : Except Stop (Option (List UInt8)) := do
  match ← scan image startOff with
  | none => pure none
  | some (flagsOff, cur) =>
    let record :=
      overwrite (readRecord image (recOff startOff)) flagsOff (encode 2 (cur ||| 0x0001))
    pure (some (overwrite image (recOff startOff) record))

/-- A run of the script, with the image that it leaves. -/
def setdirty (image : List UInt8) : Except Stop Unit × List UInt8 :=
  match boot image with
  | .error stop => (.error stop, image)
  | .ok (mft, mftmirr) =>
    match patch image mft with
    | .error stop => (.error stop, image)
    | .ok none => (.error (.message "could not find $VOLUME_INFORMATION in $MFT"), image)
    | .ok (some image) =>
      match patch image mftmirr with
      | .error stop => (.error stop, image)
      | .ok none => (.error (.message "could not find $VOLUME_INFORMATION in $MFTMirr"), image)
      | .ok (some image) => (.ok (), image)

/-! ### Flags -/

/-- An image with bit 0 of a byte set. -/
def setFlag (image : List UInt8) (place : Nat) : List UInt8 :=
  image.modify place fun byte => byte ||| 1

/-- Bit 0 of a byte is set. -/
def FlagSet (image : List UInt8) (place : Nat) : Prop :=
  image.getD place 0 ||| 1 = image.getD place 0

/-- Where the flags word of `$VOLUME_INFORMATION` is, if the scan of the record comes to it. -/
def flagsPlace (image : List UInt8) (startOff : Nat) : Option Nat :=
  match scan image startOff with
  | .ok (some (flagsOff, _)) => some (recOff startOff + flagsOff)
  | _ => none

variable {image buffer record : List UInt8} {startOff place : Nat}

theorem unpackFrom_eq_ok {offset width value : Nat} :
    unpackFrom buffer offset width = .ok value ↔ load buffer offset width = some value := by
  unfold unpackFrom
  cases load buffer offset width with
  | none => simp
  | some loaded => simp [pure_eq]

theorem getElem?_overwrite {bytes new : List UInt8} {offset : Nat}
    (within : offset + new.length ≤ bytes.length) (index : Nat) :
    (overwrite bytes offset new)[index]? =
      if offset ≤ index ∧ index < offset + new.length then new[index - offset]?
      else bytes[index]? := by
  have front : (bytes.take offset).length = offset := by
    rw [List.length_take]
    omega
  by_cases before : index < offset
  · rw [if_neg (by omega), overwrite, List.getElem?_append_left (by omega), List.getElem?_take,
      if_pos before]
  · rw [overwrite, List.getElem?_append_right (by omega), front]
    by_cases inside : index < offset + new.length
    · rw [if_pos ⟨not_lt.mp before, inside⟩, List.getElem?_append_left (by omega)]
    · have behind : offset + new.length + (index - offset - new.length) = index := by omega
      rw [if_neg (by omega), List.getElem?_append_right (by omega), List.getElem?_drop, behind]

theorem length_overwrite {bytes new : List UInt8} {offset : Nat}
    (within : offset + new.length ≤ bytes.length) :
    (overwrite bytes offset new).length = bytes.length := by
  rw [overwrite, List.length_append, List.length_append, List.length_take, List.length_drop]
  omega

/-- The flags word is within the record, and `cur` is its value. -/
theorem findFlags_cur {attrOff flagsOff cur : Nat}
    (found : findFlags record attrOff = .ok (some (flagsOff, cur))) :
    load record flagsOff 2 = some cur := by
  fun_induction findFlags record attrOff with
  | case1 attrOff inside inductionHypothesis =>
    obtain ⟨atype, _, found⟩ := bind_eq_ok.mp found
    split at found
    · exact nomatch Except.ok.inj found
    obtain ⟨alen, _, found⟩ := bind_eq_ok.mp found
    split at found
    · exact nomatch Except.ok.inj found
    rename_i goesOn
    obtain ⟨nonres, _, found⟩ := bind_eq_ok.mp found
    split at found
    · obtain ⟨valueOff, _, found⟩ := bind_eq_ok.mp found
      obtain ⟨cur', loaded, found⟩ := bind_eq_ok.mp found
      obtain ⟨rfl, rfl⟩ := Prod.mk.inj (Option.some.inj (Except.ok.inj found))
      exact unpackFrom_eq_ok.mp loaded
    · exact inductionHypothesis alen goesOn found
  | case2 => exact nomatch Except.ok.inj found

theorem encode_flag (low high : UInt8) :
    encode 2 (decode [low, high] ||| 1) = [low ||| 1, high] := by
  have small := low.toNat_lt
  have word : decode [low, high] = low.toNat + 256 * high.toNat := rfl
  have first : (decode [low, high] ||| 1) % 2 ^ 8 = low.toNat ||| 1 := by
    rw [word, Nat.or_mod_two_pow]
    congr 1
    omega
  have second : (decode [low, high] ||| 1) / 2 ^ 8 = high.toNat := by
    rw [word, Nat.or_div_two_pow]
    norm_num
    omega
  rw [encode, encode, encode]
  congr 1
  · refine UInt8.toNat_inj.mp ?_
    rw [UInt8.toNat_ofNat', first, UInt8.toNat_or]
    rfl
  · congr 1
    change UInt8.ofNat ((decode [low, high] ||| 1) / 2 ^ 8) = high
    rw [second, UInt8.ofNat_toNat]

/-- A flag is set by writing the record back. -/
theorem overwrite_record {recOff flagsOff cur : Nat}
    (loaded : load (readRecord image recOff) flagsOff 2 = some cur) :
    overwrite image recOff
        (overwrite (readRecord image recOff) flagsOff (encode 2 (cur ||| 0x0001))) =
      setFlag image (recOff + flagsOff) ∧
    recOff + flagsOff < image.length ∧ flagsOff < recSize := by
  unfold load at loaded
  split at loaded
  · rename_i within
    have size : (readRecord image recOff).length = min recSize (image.length - recOff) := by
      rw [readRecord, List.length_take, List.length_drop]
    have two : (((readRecord image recOff).drop flagsOff).take 2).length = 2 := by
      rw [List.length_take, List.length_drop]
      omega
    obtain ⟨low, high, bytes⟩ := List.length_eq_two.mp two
    have inRecord : ∀ index < recSize,
        (readRecord image recOff)[index]? = image[recOff + index]? := by
      intro index below
      rw [readRecord, List.getElem?_take, if_pos below, List.getElem?_drop]
    have here : ∀ index < 2, [low, high][index]? = image[recOff + (flagsOff + index)]? := by
      intro index below
      rw [← bytes, List.getElem?_take, if_pos below, List.getElem?_drop, inRecord _ (by omega)]
    rw [bytes] at loaded
    rw [← Option.some.inj loaded, encode_flag]
    have flagWithin : flagsOff + [low ||| 1, high].length ≤ (readRecord image recOff).length :=
      within
    refine ⟨List.ext_getElem? fun index => ?_, by omega, by omega⟩
    rw [getElem?_overwrite (by rw [length_overwrite flagWithin]; omega),
      length_overwrite flagWithin, setFlag]
    by_cases inside : recOff ≤ index ∧ index < recOff + (readRecord image recOff).length
    · obtain ⟨offset, rfl⟩ := Nat.exists_eq_add_of_le inside.1
      rw [if_pos inside, Nat.add_sub_cancel_left, getElem?_overwrite flagWithin,
        inRecord offset (by omega)]
      by_cases first : offset = flagsOff
      · subst first
        have old := here 0 (by decide)
        rw [Nat.add_zero] at old
        rw [if_pos ⟨le_refl _, Nat.lt_add_of_pos_right (Nat.zero_lt_succ _)⟩, Nat.sub_self,
          List.getElem?_modify_eq, ← old]
        rfl
      · rw [List.getElem?_modify_ne _ _ (by omega)]
        split
        · rename_i second
          change flagsOff ≤ offset ∧ offset < flagsOff + 2 at second
          obtain rfl : offset = flagsOff + 1 := by omega
          rw [← here 1 (by decide), Nat.add_sub_cancel_left]
          rfl
        · rfl
    · rw [if_neg inside, List.getElem?_modify_ne _ _ (by omega)]
  · exact nomatch loaded

theorem scan_eq (image : List UInt8) (small : recOff startOff < 2 ^ 63) :
    scan image startOff =
      unpackFrom (readRecord image (recOff startOff)) 0x14 2 >>=
        findFlags (readRecord image (recOff startOff)) := by
  rw [scan, seek, if_pos small]
  rfl

theorem scan_far (image : List UInt8) (far : ¬ recOff startOff < 2 ^ 63) :
    scan image startOff = .error .valueError := by
  rw [scan, seek, if_neg far]
  rfl

/-- Where the scan comes to the flags word, `patch` sets the flag. -/
theorem patch_of_some (found : flagsPlace image startOff = some place) :
    patch image startOff = .ok (some (setFlag image place)) ∧ place < image.length ∧
      recOff startOff ≤ place ∧ place < recOff startOff + recSize := by
  unfold flagsPlace at found
  split at found
  · rename_i flagsOff cur scanned
    obtain rfl := Option.some.inj found
    have loaded : load (readRecord image (recOff startOff)) flagsOff 2 = some cur := by
      by_cases small : recOff startOff < 2 ^ 63
      · rw [scan_eq image small] at scanned
        obtain ⟨attrOff, _, rest⟩ := bind_eq_ok.mp scanned
        exact findFlags_cur rest
      · rw [scan_far image small] at scanned
        exact nomatch scanned
    obtain ⟨written, inside, inRecord⟩ := overwrite_record loaded
    refine ⟨?_, inside, Nat.le_add_right _ _, by omega⟩
    rw [patch, scanned, ok_bind]
    dsimp only
    rw [written]
    rfl
  · exact nomatch found

/-- Where it does not, `patch` writes nothing, and does not return `True`. -/
theorem patch_of_none (none' : flagsPlace image startOff = none) :
    patch image startOff = .ok none ∨ ∃ stop, patch image startOff = .error stop := by
  unfold flagsPlace at none'
  unfold patch
  cases scanned : scan image startOff with
  | error stop => exact .inr ⟨stop, rfl⟩
  | ok found =>
    cases found with
    | none => exact .inl rfl
    | some found =>
      rw [scanned] at none'
      exact nomatch none'

/-! ### What a run leaves -/

/-- A run leaves the image as it is, or succeeds and sets both flags and nothing else. -/
def AllOrNothing (image : List UInt8) : Prop :=
  match setdirty image with
  | (.error _, after) => after = image
  | (.ok _, after) => ∃ mft mftmirr first second, boot image = .ok (mft, mftmirr) ∧
      flagsPlace image mft = some first ∧ flagsPlace image mftmirr = some second ∧
        after = setFlag (setFlag image first) second

/-- The condition under which it does: where the flag of the first record is found and clear, the
flag of the second is found, and it is found in the same place when the first one has been set,
unless there is nothing to set in either place. -/
def SecondFound (image : List UInt8) (mft mftmirr : Nat) : Prop :=
  ∀ first, flagsPlace image mft = some first → FlagSet image first ∨
    ∃ second again, flagsPlace image mftmirr = some second ∧
      flagsPlace (setFlag image first) mftmirr = some again ∧
      (second = again ∨
        FlagSet (setFlag image first) second ∧ FlagSet (setFlag image first) again)

theorem getD_setFlag (inside : place < image.length) (other : Nat) :
    (setFlag image place).getD other 0 =
      if place = other then image.getD other 0 ||| 1 else image.getD other 0 := by
  rw [setFlag, List.getD_eq_getElem?_getD, List.getD_eq_getElem?_getD]
  by_cases same : place = other
  · subst same
    rw [if_pos rfl, List.getElem?_modify_eq, List.getElem?_eq_getElem inside]
    rfl
  · rw [if_neg same, List.getElem?_modify_ne _ _ same]

/-- Setting a flag changes nothing if and only if it is set. -/
theorem setFlag_eq_self_iff (inside : place < image.length) :
    setFlag image place = image ↔ FlagSet image place := by
  constructor
  · intro same
    have here := getD_setFlag inside place
    rw [same, if_pos rfl] at here
    exact here.symm
  · intro set
    have here : image.getD place 0 = image[place] := by
      rw [List.getD_eq_getElem?_getD, List.getElem?_eq_getElem inside]
      rfl
    unfold FlagSet at set
    rw [here] at set
    refine List.ext_getElem? fun index => ?_
    rw [setFlag]
    by_cases same : place = index
    · subst same
      rw [List.getElem?_modify_eq, List.getElem?_eq_getElem inside]
      exact congrArg some set
    · rw [List.getElem?_modify_ne _ _ same]

/-- Two flags are set in one way if they are one, or set. -/
theorem setFlag_eq_setFlag_iff {other : Nat} (inside : place < image.length)
    (inside' : other < image.length) :
    setFlag image place = setFlag image other ↔
      place = other ∨ FlagSet image place ∧ FlagSet image other := by
  constructor
  · intro same
    by_cases one : place = other
    · exact .inl one
    · have here := congrArg (fun bytes => bytes.getD place 0) same
      have there := congrArg (fun bytes => bytes.getD other 0) same
      rw [getD_setFlag inside, getD_setFlag inside', if_pos rfl, if_neg (Ne.symm one)] at here
      rw [getD_setFlag inside, getD_setFlag inside', if_neg one, if_pos rfl] at there
      exact .inr ⟨here, there.symm⟩
  · rintro (rfl | ⟨set, set'⟩)
    · rfl
    · rw [(setFlag_eq_self_iff inside).mpr set, (setFlag_eq_self_iff inside').mpr set']

/-- What is left of the condition when the first flag has been set. -/
theorem secondFound_iff {mft mftmirr first : Nat} (found : flagsPlace image mft = some first) :
    SecondFound image mft mftmirr ↔ FlagSet image first ∨
      ∃ second again, flagsPlace image mftmirr = some second ∧
        flagsPlace (setFlag image first) mftmirr = some again ∧
        setFlag (setFlag image first) second = setFlag (setFlag image first) again := by
  have same : SecondFound image mft mftmirr ↔ FlagSet image first ∨
      ∃ second again, flagsPlace image mftmirr = some second ∧
        flagsPlace (setFlag image first) mftmirr = some again ∧
        (second = again ∨
          FlagSet (setFlag image first) second ∧ FlagSet (setFlag image first) again) :=
    ⟨fun all => all first found, fun one place found' => by
      rw [← Option.some.inj (found.symm.trans found')]
      exact one⟩
  rw [same]
  refine or_congr Iff.rfl (exists_congr fun second => exists_congr fun again =>
    and_congr_right fun atFirst => and_congr_right fun atLast => ?_)
  have length : (setFlag image first).length = image.length := List.length_modify _ _ _
  rw [setFlag_eq_setFlag_iff (length ▸ (patch_of_some atFirst).2.1) (patch_of_some atLast).2.1]

/-- A run of the script leaves the image as it is, or succeeds and sets both flags and nothing else,
if and only if the second flag is found where the first one is to be set. -/
theorem allOrNothing_iff (image : List UInt8) :
    AllOrNothing image ↔
      ∀ mft mftmirr, boot image = .ok (mft, mftmirr) → SecondFound image mft mftmirr := by
  unfold AllOrNothing setdirty
  cases read : boot image with
  | error stop => simp
  | ok offsets =>
    obtain ⟨mft, mftmirr⟩ := offsets
    have only : (∀ mft' mftmirr', (Except.ok (mft, mftmirr) : Except Stop (Nat × Nat)) =
        .ok (mft', mftmirr') → SecondFound image mft' mftmirr') ↔
          SecondFound image mft mftmirr :=
      ⟨fun all => all _ _ rfl, fun one _ _ same => by cases same; exact one⟩
    rw [only]
    dsimp only
    cases first : flagsPlace image mft with
    | none =>
      have holds : SecondFound image mft mftmirr := fun place found => by
        rw [first] at found
        exact nomatch found
      rcases patch_of_none first with notFound | ⟨stop, failed⟩
      · simp [notFound, holds]
      · simp [failed, holds]
    | some place =>
      obtain ⟨written, inside, _⟩ := patch_of_some first
      rw [written, secondFound_iff first]
      dsimp only
      cases again : flagsPlace (setFlag image place) mftmirr with
      | none =>
        have unchanged : setFlag image place = image ↔ FlagSet image place ∨
            ∃ second again, flagsPlace image mftmirr = some second ∧
              (none : Option Nat) = some again ∧
              setFlag (setFlag image place) second = setFlag (setFlag image place) again := by
          rw [setFlag_eq_self_iff inside]
          simp
        rcases patch_of_none again with notFound | ⟨stop, failed⟩
        · rw [notFound]
          exact unchanged
        · rw [failed]
          exact unchanged
      | some last =>
        rw [(patch_of_some again).1]
        dsimp only
        constructor
        · rintro ⟨mft', mftmirr', first', second, same, found, found', left⟩
          cases same
          obtain rfl := Option.some.inj (first.symm.trans found)
          exact .inr ⟨second, last, found', rfl, left.symm⟩
        · rintro (set | ⟨second, last', found', same, left⟩)
          · have unchanged := (setFlag_eq_self_iff inside).mpr set
            rw [unchanged] at again
            exact ⟨mft, mftmirr, place, last, rfl, first, again, rfl⟩
          · cases same
            exact ⟨mft, mftmirr, place, second, rfl, first, found', left.symm⟩

/-- A flag outside of a record does not matter to its scan. -/
theorem flagsPlace_setFlag {startOff : Nat}
    (apart : place < recOff startOff ∨ recOff startOff + recSize ≤ place) :
    flagsPlace (setFlag image place) startOff = flagsPlace image startOff := by
  have same : readRecord (setFlag image place) (recOff startOff) =
      readRecord image (recOff startOff) := by
    refine List.ext_getElem? fun index => ?_
    rw [readRecord, readRecord, List.getElem?_take, List.getElem?_take]
    split
    · rw [List.getElem?_drop, List.getElem?_drop, setFlag,
        List.getElem?_modify_ne _ _ (by omega)]
    · rfl
  unfold flagsPlace
  by_cases small : recOff startOff < 2 ^ 63
  · rw [scan_eq _ small, scan_eq _ small, same]
  · rw [scan_far _ small, scan_far _ small]

/-- For two records that lie apart, the condition is that the second flag is found, if the first one
is found and clear. -/
theorem secondFound_iff_of_apart {mft mftmirr : Nat}
    (apart : mft + recSize ≤ mftmirr ∨ mftmirr + recSize ≤ mft) :
    SecondFound image mft mftmirr ↔
      ∀ first, flagsPlace image mft = some first →
        FlagSet image first ∨ (flagsPlace image mftmirr).isSome := by
  refine forall_congr' fun first => forall_congr' fun found => or_congr Iff.rfl ?_
  obtain ⟨_, _, above, below⟩ := patch_of_some found
  rw [flagsPlace_setFlag (show first < recOff mftmirr ∨ recOff mftmirr + recSize ≤ first by
    unfold recOff at *; omega), Option.isSome_iff_exists]
  constructor
  · rintro ⟨second, _, found', _⟩
    exact ⟨second, found'⟩
  · rintro ⟨second, found'⟩
    exact ⟨second, second, found', found', .inl rfl⟩

/-- An image whose `$MFT` is at its start, and whose `$MFTMirr` would be behind its end. -/
def halfImage : List UInt8 :=
  List.replicate 11 0 ++ [1, 0, 1] ++ List.replicate 43 0 ++ [8] ++ List.replicate 3034 0 ++ [24] ++
    List.replicate 3 0 ++ [0x70, 0, 0, 0, 0x20, 0, 0, 0] ++ List.replicate 12 0 ++ [0x18] ++
      List.replicate 16 0

/-- The run fails at the second record, when the first flag has been set. -/
theorem not_allOrNothing :
    (setdirty halfImage).1 = .error .structError ∧ ¬ AllOrNothing halfImage := by
  have walk : findFlags (readRecord halfImage 3072) 24 = .ok (some (58, 0)) := by
    rw [findFlags]
    decide +kernel
  have attrOff : unpackFrom (readRecord halfImage 3072) 0x14 2 = .ok 24 := by decide +kernel
  have start : recOff 0 = 3072 := rfl
  have scanned : scan halfImage 0 = .ok (some (58, 0)) := by
    rw [scan_eq _ (by rw [start]; decide), start, attrOff, ok_bind, walk]
  have first : flagsPlace halfImage 0 = some 3130 := by
    unfold flagsPlace
    rw [scanned]
    exact congrArg (fun offset => some (offset + 58)) start
  have read : boot halfImage = .ok (0, 2048) := by decide +kernel
  have written := (patch_of_some first).1
  have start' : recOff 2048 = 5120 := rfl
  have nothing : readRecord (setFlag halfImage 3130) 5120 = [] := by decide +kernel
  have fails : patch (setFlag halfImage 3130) 2048 = .error .structError := by
    rw [patch, scan_eq _ (by rw [start']; decide), start', nothing]
    rfl
  have run : setdirty halfImage = (.error .structError, setFlag halfImage 3130) := by
    rw [setdirty, read]
    dsimp only
    rw [written]
    dsimp only
    rw [fails]
  refine ⟨by rw [run], ?_⟩
  unfold AllOrNothing
  rw [run]
  dsimp only
  rw [setFlag_eq_self_iff (patch_of_some first).2.1]
  unfold FlagSet
  decide +kernel

end Nloader.SetDirty
