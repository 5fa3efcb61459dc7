/-
This file models the functions of `src/libs/ntdll/crt.c` that store to wide strings in place:
`rpl_wcscpy_s` and `rpl_wcscat_s`, which are told how much room there is, and `rpl__wcsupr` and
`rpl__wcslwr`. A destination is the list of what can be read and written there, so that an access
behind it comes to nothing.

The first two stay in their room, and say whether the text was stored whole. The other two make a
byte of each character, so that a character above `0xff` is another one afterwards, or the end of
the string.
-/

import Nloader.CountedStrings
import Mathlib.Data.List.TakeWhile

namespace Nloader.WideStrings

open CommandLine CountedStrings Terminated

/-! ### Copying -/

/-- `EINVAL`. -/
def einval : Int32 := 22

/-- `ERANGE`. -/
def erange : Int32 := 34

/-- The loops of `rpl_wcscpy_s` and `rpl_wcscat_s` that copy a string to an index of a block:
whether its zero is stored, and the block. -/
def copyLoop : List UInt16 → UInt64 → List UInt16 → Nat → Except Stop (Bool × List UInt16)
  | [], remaining, block, _ => if remaining = 0 then .ok (false, block) else .error .overread
  | ch :: src, remaining, block, index =>
    if remaining = 0 then .ok (false, block)
    else do
      let block ← write block index ch
      if ch = 0 then .ok (true, block) else copyLoop src (remaining - 1) block (index + 1)

/-- `*dest = L'\0'` before a failure is returned. -/
def refuse (block : List UInt16) (errno : Int32) : Except Stop (Int32 × Option (List UInt16)) := do
  let block ← write block 0 0
  .ok (errno, some block)

/-- The copying loop, and what is returned behind it. -/
def copyOrRefuse (src : List UInt16) (remaining : UInt64) (block : List UInt16) (index : Nat) :
    Except Stop (Int32 × Option (List UInt16)) := do
  let (copied, block) ← copyLoop src remaining block index
  if copied then .ok (0, some block) else refuse block erange

/-- `rpl_wcscpy_s`. -/
def rplWcscpyS (dest : Option (List UInt16)) (destSize : UInt64) (src : Option (List UInt16)) :
    Except Stop (Int32 × Option (List UInt16)) :=
  match dest with
  | none => .ok (einval, none)
  | some block =>
    if destSize = 0 then .ok (einval, some block)
    else
      match src with
      | none => refuse block einval
      | some src => copyOrRefuse src destSize block 0

/-- The loop of `rpl_wcscat_s` that looks for the end of the string in `dest`: its index and what
remains from there on, if there is one. -/
def endLoop : List UInt16 → Nat → UInt64 → Except Stop (Option (Nat × UInt64))
  | [], _, _ => .error .overread
  | c :: out, index, remaining =>
    if c = 0 then .ok (some (index, remaining))
    else if remaining - 1 = 0 then .ok none
    else endLoop out (index + 1) (remaining - 1)

/-- `rpl_wcscat_s`. -/
def rplWcscatS (dest : Option (List UInt16)) (destSize : UInt64) (src : Option (List UInt16)) :
    Except Stop (Int32 × Option (List UInt16)) :=
  match dest with
  | none => .ok (einval, none)
  | some block =>
    if destSize = 0 then .ok (einval, some block)
    else
      match src with
      | none => refuse block einval
      | some src => do
        match ← endLoop block 0 destSize with
        | none => refuse block einval
        | some (index, remaining) => copyOrRefuse src remaining block index

/-! ### Changing the case -/

/-- `toupper`. -/
def toupper (byte : UInt8) : UInt8 := if 0x61 ≤ byte ∧ byte ≤ 0x7a then byte - 0x20 else byte

/-- `widetou`. -/
def widetou (c : UInt16) : UInt8 := toupper (widetoa c)

/-- The loop of `rpl__wcsupr` and `rpl__wcslwr`, which stores in place what it makes of a
character. -/
def caseLoop (convert : UInt16 → UInt8) : List UInt16 → Option (List UInt16)
  | [] => none
  | c :: s => if c = 0 then some (c :: s) else (caseLoop convert s).map ((convert c).toUInt16 :: ·)

/-- `rpl__wcsupr`. -/
def rplWcsupr (str : List UInt16) : Option (List UInt16) := caseLoop widetou str

/-- `rpl__wcslwr`. -/
def rplWcslwr (str : List UInt16) : Option (List UInt16) := caseLoop widetol str

/-! ### The room for a copy -/

theorem write_append (start : List UInt16) (c' : UInt16) (room : List UInt16) (c : UInt16) :
    write (start ++ c' :: room) start.length c = .ok (start ++ c :: room) := by
  have inside : start.length < (start ++ c' :: room).length := by
    rw [List.length_append, List.length_cons]
    omega
  rw [write, if_pos inside, List.set_append_right _ _ le_rfl, Nat.sub_self, List.set_cons_zero]

theorem copyLoop_zero (src block : List UInt16) (index : Nat) :
    copyLoop src 0 block index = .ok (false, block) := by
  cases src <;> rfl

/-- A text and its zero are copied as far as there is room, which is what remains. -/
theorem copyLoop_eq {characters : List UInt16} (nonzero : 0 ∉ characters)
    (behind start : List UInt16) {remaining : UInt64} {room : List UInt16}
    (size : room.length = remaining.toNat) :
    copyLoop (characters ++ 0 :: behind) remaining (start ++ room) start.length =
      .ok (decide (characters.length < remaining.toNat),
        start ++ ((characters ++ [0]).take remaining.toNat ++
          room.drop (characters.length + 1))) := by
  induction characters generalizing start remaining room with
  | nil =>
    rcases eq_or_ne remaining 0 with rfl | going
    · obtain rfl := List.length_eq_zero_iff.mp size
      rw [copyLoop_zero]
      rfl
    · rw [toNat_pred going] at size ⊢
      obtain ⟨c', room, rfl⟩ := List.exists_cons_of_length_pos (by omega : 0 < room.length)
      rw [List.nil_append, copyLoop, if_neg going, write_append]
      change (if (0 : UInt16) = 0 then Except.ok (true, start ++ 0 :: room)
        else copyLoop behind (remaining - 1) (start ++ 0 :: room) (start.length + 1)) = _
      rw [if_pos rfl, List.length_nil, decide_eq_true (Nat.succ_pos _), List.nil_append,
        List.take_succ_cons, List.take_nil]
      rfl
  | cons c characters inductionHypothesis =>
    obtain ⟨other, others⟩ := not_or.mp (List.mem_cons.not.mp nonzero)
    rcases eq_or_ne remaining 0 with rfl | going
    · obtain rfl := List.length_eq_zero_iff.mp size
      rw [copyLoop_zero]
      rfl
    · rw [toNat_pred going] at size ⊢
      obtain ⟨c', room, rfl⟩ := List.exists_cons_of_length_pos (by omega : 0 < room.length)
      have copies := inductionHypothesis others (start ++ [c]) (Nat.succ.inj size)
      rw [List.length_append, List.length_singleton, List.append_assoc,
        List.singleton_append] at copies
      rw [List.cons_append, copyLoop, if_neg going, write_append]
      change (if c = 0 then _ else copyLoop _ (remaining - 1) (start ++ c :: room) _) = _
      rw [if_neg (Ne.symm other), copies]
      simp only [List.length_cons, Nat.succ_lt_succ_iff, List.cons_append, List.take_succ_cons,
        List.append_assoc, List.nil_append, List.drop_succ_cons]

/-! ### The end of a string -/

theorem endLoop_found {front : List UInt16} (nonzero : 0 ∉ front) (rest : List UInt16)
    (index : Nat) {remaining : UInt64} (more : front.length < remaining.toNat) :
    ∃ left : UInt64, left.toNat = remaining.toNat - front.length ∧
      endLoop (front ++ 0 :: rest) index remaining =
        .ok (some (index + front.length, left)) := by
  induction front generalizing index remaining with
  | nil => exact ⟨remaining, rfl, rfl⟩
  | cons c front inductionHypothesis =>
    obtain ⟨other, others⟩ := not_or.mp (List.mem_cons.not.mp nonzero)
    have going : remaining ≠ 0 := by
      rintro rfl
      exact absurd more (Nat.not_lt_zero _)
    rw [toNat_pred going, List.length_cons] at more ⊢
    have last : remaining - 1 ≠ 0 := by
      intro zero
      rw [zero] at more
      exact absurd more (by simp)
    obtain ⟨left, leaves, ends⟩ := inductionHypothesis others (index + 1)
      (Nat.lt_of_succ_lt_succ more)
    refine ⟨left, by omega, ?_⟩
    rw [List.cons_append, endLoop, if_neg (Ne.symm other), if_neg last, ends, Nat.add_right_comm]
    rfl

theorem endLoop_full {block : List UInt16} (nonzero : 0 ∉ block) (index : Nat)
    {remaining : UInt64} (going : remaining ≠ 0) (size : block.length = remaining.toNat) :
    endLoop block index remaining = .ok none := by
  induction block generalizing index remaining with
  | nil =>
    rw [toNat_pred going] at size
    exact nomatch size
  | cons c block inductionHypothesis =>
    obtain ⟨other, others⟩ := not_or.mp (List.mem_cons.not.mp nonzero)
    rw [toNat_pred going] at size
    rw [endLoop, if_neg (Ne.symm other)]
    by_cases last : remaining - 1 = 0
    · exact if_pos last
    · rw [if_neg last]
      exact inductionHypothesis others (index + 1) last (Nat.succ.inj size)

/-! ### The functions -/

/-- A destination of at least one `WCHAR`, whatever is in it. -/
structure WideArray where
  size : UInt64
  positive : size ≠ 0
  contents : Vector UInt16 size.toNat

/-- What can be read and written at a destination. -/
def WideArray.memory (dest : WideArray) : List UInt16 := dest.contents.toList

/-- The string in a destination, up to its zero or to the end. -/
def WideArray.string (dest : WideArray) : List UInt16 := dest.memory.takeWhile (· ≠ 0)

/-- What a call should leave of a destination that a text is to be put in: the text and its zero
where they fit, and otherwise a zero at the front and a failure. -/
structure Puts (dest : WideArray) (text : List UInt16) (errno : Int32) (block : List UInt16) :
    Prop where
  fits : errno = 0 ↔ text.length < dest.size.toNat
  length : block.length = dest.size.toNat
  stored : errno = 0 → text ++ [0] <+: block
  emptied : errno ≠ 0 → block.head? = some 0

theorem refuse_eq {block : List UInt16} (nonempty : 0 < block.length) (errno : Int32) :
    ∃ rest, block.length = rest.length + 1 ∧
      refuse block errno = .ok (errno, some (0 :: rest)) := by
  obtain ⟨c, rest, rfl⟩ := List.exists_cons_of_length_pos nonempty
  exact ⟨rest, rfl, rfl⟩

/-- A refusal is right where the text does not fit. -/
theorem puts_of_refuse (dest : WideArray) (text block : List UInt16) {errno : Int32}
    (nonzero : errno ≠ 0) (long : dest.size.toNat ≤ text.length)
    (length : block.length = dest.size.toNat) :
    ∃ block', refuse block errno = .ok (errno, some block') ∧ Puts dest text errno block' := by
  have nonempty : 0 < block.length := by
    rw [length, toNat_pred dest.positive]
    exact Nat.succ_pos _
  obtain ⟨rest, lengths, refuses⟩ := refuse_eq nonempty errno
  exact ⟨0 :: rest, refuses, {
    fits := iff_of_false nonzero (Nat.not_lt.mpr long)
    length := lengths.symm.trans length
    stored := fun zero => absurd zero nonzero
    emptied := fun _ => rfl }⟩

/-- A text that is copied behind a string is put there with it. -/
theorem puts_of_copy (dest : WideArray) (src : Text UInt16) (behind start room : List UInt16)
    {remaining : UInt64} (size : room.length = remaining.toNat)
    (whole : start.length + remaining.toNat = dest.size.toNat) :
    ∃ errno block,
      copyOrRefuse (src.memory ++ behind) remaining (start ++ room) start.length =
        .ok (errno, some block) ∧
      Puts dest (start ++ src.characters) errno block ∧ (errno ≠ 0 → errno = erange) := by
  have parts : src.memory ++ behind = src.characters ++ 0 :: behind :=
    List.append_assoc src.characters [0] behind
  rw [copyOrRefuse, parts, copyLoop_eq src.nonzero behind start size]
  by_cases short : src.characters.length < remaining.toNat
  · have taken : (src.characters ++ [0]).take remaining.toNat = src.characters ++ [0] :=
      List.take_of_length_le (by rw [List.length_append, List.length_singleton]; exact short)
    rw [decide_eq_true short, taken]
    refine ⟨0, _, rfl, ?_, fun wrong => absurd rfl wrong⟩
    exact {
      fits := iff_of_true rfl (by rw [List.length_append]; omega)
      length := by
        rw [List.length_append, List.length_append, List.length_append, List.length_drop,
          List.length_singleton]
        omega
      stored := fun _ => by
        rw [← List.append_assoc, ← List.append_assoc]
        exact List.prefix_append _ _
      emptied := fun wrong => absurd rfl wrong }
  · have full : room.drop (src.characters.length + 1) = [] :=
      List.drop_of_length_le (by omega)
    rw [decide_eq_false short, full]
    have wide : dest.size.toNat ≤ (start ++ src.characters).length := by
      rw [List.length_append]
      omega
    have length : (start ++ ((src.characters ++ [0]).take remaining.toNat ++ [])).length =
        dest.size.toNat := by
      rw [List.append_nil, List.length_append, List.length_take, List.length_append,
        List.length_singleton]
      omega
    obtain ⟨block, refuses, puts⟩ :=
      puts_of_refuse dest _ _ (show erange ≠ 0 by decide) wide length
    exact ⟨erange, block, refuses, puts, fun _ => rfl⟩

/-- What is in front of the first zero. -/
theorem takeWhile_front {front : List UInt16} (nonzero : 0 ∉ front) (rest : List UInt16) :
    (front ++ 0 :: rest).takeWhile (· ≠ 0) = front := by
  have others : ∀ c ∈ front, decide (c ≠ 0) = true := fun c member =>
    decide_eq_true fun zero => nonzero (zero ▸ member)
  rw [List.takeWhile_append_of_pos others, List.takeWhile_cons_of_neg (by decide),
    List.append_nil]

/-- Without a zero all of a destination is its string. -/
theorem string_full {dest : WideArray} (nonzero : 0 ∉ dest.memory) :
    dest.string = dest.memory :=
  takeWhile_nonzero nonzero

/-- `rpl_wcscpy_s` and `rpl_wcscat_s` put a text in a destination, behind the string in it, if there
is room, and otherwise report a failure, which says whether there was a string. -/
theorem puts_copied (dest : WideArray) (src : Text UInt16) (behind : List UInt16) :
    (∃ errno block,
      rplWcscpyS (some dest.memory) dest.size (some (src.memory ++ behind)) =
        .ok (errno, some block) ∧
      Puts dest src.characters errno block) ∧
    ∃ errno block,
      rplWcscatS (some dest.memory) dest.size (some (src.memory ++ behind)) =
        .ok (errno, some block) ∧
      Puts dest (dest.string ++ src.characters) errno block ∧
      (errno ≠ 0 → errno = einval ∨ errno = erange) ∧ (errno = einval ↔ 0 ∉ dest.memory) := by
  have length : dest.memory.length = dest.size.toNat := Vector.length_toList
  constructor
  · obtain ⟨errno, block, copies, puts, _⟩ :=
      puts_of_copy dest src behind [] dest.memory length (Nat.zero_add _)
    refine ⟨errno, block, ?_, puts⟩
    rw [rplWcscpyS, if_neg dest.positive]
    exact copies
  · rw [rplWcscatS, if_neg dest.positive]
    by_cases ended : 0 ∈ dest.memory
    · obtain ⟨front, rest, split, nonzero⟩ := List.eq_append_cons_of_mem ended
      have string : dest.string = front := by
        rw [WideArray.string, split, takeWhile_front nonzero]
      rw [split, List.length_append, List.length_cons] at length
      obtain ⟨left, leaves, ends⟩ := endLoop_found nonzero rest 0
        (show front.length < dest.size.toNat by omega)
      obtain ⟨errno, block, copies, puts, refused⟩ :=
        puts_of_copy dest src behind front (0 :: rest)
          (show _ = left.toNat by rw [List.length_cons, leaves]; omega) (by omega)
      rw [split, ends, string, Nat.zero_add]
      refine ⟨errno, block, copies, puts, fun wrong => .inr (refused wrong), ?_⟩
      refine iff_of_false (fun invalid => ?_) (not_not_intro (split ▸ ended))
      have nonzero : errno ≠ 0 := by
        rw [invalid]
        decide
      exact absurd (invalid.symm.trans (refused nonzero)) (by decide)
    · have long : dest.size.toNat ≤ (dest.string ++ src.characters).length := by
        rw [string_full ended, List.length_append]
        omega
      obtain ⟨block, refuses, puts⟩ :=
        puts_of_refuse dest _ _ (show einval ≠ 0 by decide) long length
      rw [endLoop_full ended 0 dest.positive length]
      exact ⟨einval, block, refuses, puts, fun _ => .inl rfl, iff_of_true rfl ended⟩

/-! ### Characters of one byte -/

/-- A letter of ASCII. -/
def IsLetter (c : UInt16) : Prop := 0x41 ≤ c ∧ c ≤ 0x5a ∨ 0x61 ≤ c ∧ c ≤ 0x7a

/-- What a change of case should leave of a text, whatever is behind it: a text of the same length
with the same characters in place of all that are not letters, which is not changed any more. -/
structure ChangesCase (change : List UInt16 → Option (List UInt16)) (str changed : Text UInt16)
    (behind : List UInt16) : Prop where
  changes : change (str.memory ++ behind) = some (changed.memory ++ behind)
  length : changed.characters.length = str.characters.length
  others : ∀ (index : Nat) (c : UInt16), str.characters[index]? = some c → ¬ IsLetter c →
    changed.characters[index]? = some c
  idempotent : change (changed.memory ++ behind) = some (changed.memory ++ behind)

theorem caseLoop_eq (convert : UInt16 → UInt8) {characters : List UInt16}
    (nonzero : 0 ∉ characters) (behind : List UInt16) :
    caseLoop convert (characters ++ 0 :: behind) =
      some (characters.map (fun c => (convert c).toUInt16) ++ 0 :: behind) := by
  induction characters with
  | nil => rfl
  | cons c characters inductionHypothesis =>
    obtain ⟨other, others⟩ := not_or.mp (List.mem_cons.not.mp nonzero)
    rw [List.cons_append, caseLoop, if_neg (Ne.symm other), inductionHypothesis others]
    rfl

/-- What `toupper` and `tolower` do to the characters of one byte. -/
structure MapsBytes (convert : UInt16 → UInt8) : Prop where
  others : ∀ byte : UInt8, ¬ IsLetter byte.toUInt16 → convert byte.toUInt16 = byte
  nonzero : ∀ byte : UInt8, byte ≠ 0 → convert byte.toUInt16 ≠ 0
  idempotent : ∀ byte : UInt8, convert (convert byte.toUInt16).toUInt16 = convert byte.toUInt16

instance (c : UInt16) : Decidable (IsLetter c) := inferInstanceAs (Decidable (_ ∨ _))

theorem mapsBytes_widetou : MapsBytes widetou where
  others := forall_byte (by decide)
  nonzero := forall_byte (by decide)
  idempotent := forall_byte (by decide)

theorem mapsBytes_widetol : MapsBytes widetol where
  others := forall_byte (by decide)
  nonzero := forall_byte (by decide)
  idempotent := forall_byte (by decide)

/-- A character of one byte is the one of its low byte. -/
theorem exists_byte {c : UInt16} (small : c ≤ 0xff) : ∃ byte : UInt8, byte.toUInt16 = c := by
  refine ⟨c.toUInt8, UInt16.toNat_inj.mp ?_⟩
  have less : c.toNat ≤ 255 := UInt16.le_iff_toNat_le.mp small
  rw [UInt8.toNat_toUInt16, UInt16.toNat_toUInt8]
  omega

theorem toUInt16_le (byte : UInt8) : byte.toUInt16 ≤ 0xff := by
  rw [UInt16.le_iff_toNat_le, UInt8.toNat_toUInt16]
  exact Nat.le_of_lt_succ byte.toNat_lt

theorem toUInt16_eq_zero : ∀ {byte : UInt8}, byte.toUInt16 = 0 ↔ byte = 0 :=
  @(forall_byte (by decide))

/-- A character above `0xff` is no letter. -/
theorem not_isLetter {c : UInt16} (large : ¬ c ≤ 0xff) : ¬ IsLetter c := by
  rintro (⟨_, most⟩ | ⟨_, most⟩)
  · exact large (UInt16.le_trans most (by decide))
  · exact large (UInt16.le_trans most (by decide))

/-- The case of a text is changed as it should be exactly where all of its characters are of one
byte. -/
theorem caseLoop_iff {convert : UInt16 → UInt8} (maps : MapsBytes convert) (str : Text UInt16)
    (behind : List UInt16) :
    (∃ changed, ChangesCase (caseLoop convert) str changed behind) ↔
      ∀ c ∈ str.characters, c ≤ 0xff := by
  have parts (text : Text UInt16) : text.memory ++ behind = text.characters ++ 0 :: behind :=
    List.append_assoc text.characters [0] behind
  have runs := caseLoop_eq convert str.nonzero behind
  constructor
  · rintro ⟨changed, changes, length, others, _⟩ c member
    by_contra large
    obtain ⟨index, less, found⟩ := List.mem_iff_getElem.mp member
    have kept := others index c (List.getElem?_eq_some_iff.mpr ⟨less, found⟩) (not_isLetter large)
    rw [parts, parts, runs] at changes
    have same := (List.append_inj (Option.some.inj changes)
      ((List.length_map _).trans length.symm)).1
    rw [← same, List.getElem?_map, List.getElem?_eq_getElem less, found] at kept
    exact large (Option.some.inj kept ▸ toUInt16_le (convert c))
  · intro small
    have nonzero : 0 ∉ str.characters.map fun c => (convert c).toUInt16 := by
      intro within
      obtain ⟨c, member, zero⟩ := List.mem_map.mp within
      obtain ⟨byte, rfl⟩ := exists_byte (small c member)
      have other : byte ≠ 0 := by
        rintro rfl
        exact str.nonzero member
      exact maps.nonzero byte other (toUInt16_eq_zero.mp zero)
    refine ⟨⟨_, nonzero⟩, ?_, List.length_map _, ?_, ?_⟩
    · rw [parts, parts]
      exact runs
    · intro index c found other
      obtain ⟨byte, rfl⟩ := exists_byte (small c (List.mem_of_getElem? found))
      rw [List.getElem?_map, found, Option.map_some, maps.others byte other]
    · rw [parts, caseLoop_eq convert nonzero, List.map_map]
      refine congrArg (fun characters => some (characters ++ 0 :: behind))
        (List.map_congr_left fun c member => ?_)
      obtain ⟨byte, rfl⟩ := exists_byte (small c member)
      exact congrArg UInt8.toUInt16 (maps.idempotent byte)

/-- Both functions change the case of a text as they should exactly where all of its characters are
of one byte. -/
theorem changesCase_iff (str : Text UInt16) (behind : List UInt16) :
    ((∃ changed, ChangesCase rplWcsupr str changed behind) ↔ ∀ c ∈ str.characters, c ≤ 0xff) ∧
      ((∃ changed, ChangesCase rplWcslwr str changed behind) ↔
        ∀ c ∈ str.characters, c ≤ 0xff) :=
  ⟨caseLoop_iff mapsBytes_widetou str behind, caseLoop_iff mapsBytes_widetol str behind⟩

/-- `L"\x0100"` is the empty text afterwards. -/
theorem not_changesCase :
    (¬ ∀ str behind, ∃ changed, ChangesCase rplWcsupr str changed behind) ∧
      (¬ ∀ str behind, ∃ changed, ChangesCase rplWcslwr str changed behind) ∧
      rplWcsupr [0x100, 0] = some [0, 0] := by
  let wide : Text UInt16 := ⟨[0x100], by decide⟩
  have large : ¬ ∀ c ∈ wide.characters, c ≤ 0xff := fun small =>
    absurd (small 0x100 List.mem_cons_self) (by decide)
  exact ⟨fun all => large ((caseLoop_iff mapsBytes_widetou wide []).mp (all wide [])),
    fun all => large ((caseLoop_iff mapsBytes_widetol wide []).mp (all wide [])), by decide⟩

end Nloader.WideStrings
