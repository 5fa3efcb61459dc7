/-
This file compares the conversions of `__dbg_print` with those that the printf convention of
Microsoft finds in a format: flags, a width, a precision, a size and a type, where a `*` stands for
an argument, and the size and the type say what the argument of the conversion is.

`__dbg_print` copies a `*` without taking an argument for it, has room for 55 characters in front of
the size, does not know all sizes and types, and looks at `h` only for numbers.
-/

import Nloader.DbgPrint
import Nloader.Library.Terminated

namespace Nloader.DbgPrint

open Buffered Terminated

/-! ### Sizes -/

/-- The sizes of the convention. -/
inductive Size where
  | none
  | h
  | hh
  | l
  | ll
  | I
  | I32
  | I64
  | w
  | L
  | j
  | z
  | t
  deriving DecidableEq

/-- The characters of a size. -/
def Size.text : Size → List UInt8
  | .none => []
  | .h => [0x68]
  | .hh => [0x68, 0x68]
  | .l => [0x6c]
  | .ll => [0x6c, 0x6c]
  | .I => [0x49]
  | .I32 => [0x49, 0x33, 0x32]
  | .I64 => [0x49, 0x36, 0x34]
  | .w => [0x77]
  | .L => [0x4c]
  | .j => [0x6a]
  | .z => [0x7a]
  | .t => [0x74]

/-- The size in front of a text, and what is behind it. -/
def readSize (fmt : List UInt8) : Size × List UInt8 :=
  if peek fmt = 0x6c then
    if peek fmt.tail = 0x6c then (.ll, fmt.tail.tail) else (.l, fmt.tail)
  else if peek fmt = 0x68 then
    if peek fmt.tail = 0x68 then (.hh, fmt.tail.tail) else (.h, fmt.tail)
  else if peek fmt = 0x49 then
    if peek fmt.tail = 0x36 ∧ peek fmt.tail.tail = 0x34 then (.I64, fmt.tail.tail.tail)
    else if peek fmt.tail = 0x33 ∧ peek fmt.tail.tail = 0x32 then (.I32, fmt.tail.tail.tail)
    else (.I, fmt.tail)
  else if peek fmt = 0x77 then (.w, fmt.tail)
  else if peek fmt = 0x4c then (.L, fmt.tail)
  else if peek fmt = 0x6a then (.j, fmt.tail)
  else if peek fmt = 0x7a then (.z, fmt.tail)
  else if peek fmt = 0x74 then (.t, fmt.tail)
  else (.none, fmt)

theorem cons_of_peek {fmt : List UInt8} {c : UInt8} (first : peek fmt = c) (nonzero : c ≠ 0) :
    fmt = c :: fmt.tail := by
  cases fmt with
  | nil => exact absurd first.symm nonzero
  | cons d fmt => exact congrArg (· :: fmt) first

/-- The sizes that are known. -/
def Size.Known (size : Size) : Prop := size ∉ [.L, .j, .z, .t]

instance (size : Size) : Decidable size.Known := inferInstanceAs (Decidable (_ ∉ _))

/-- What is known behind a size. -/
def Size.modified (spec fmt : List UInt8) : Size → Modified
  | .h => { spec := spec ++ [0x68], fmt := fmt, wideArg := false, long64 := false }
  | .hh => { spec := spec ++ [0x68, 0x68], fmt := fmt, wideArg := false, long64 := false }
  | .l | .w => { spec := spec, fmt := fmt, wideArg := true, long64 := false }
  | .ll | .I | .I64 =>
    { spec := spec ++ [0x6c, 0x6c], fmt := fmt, wideArg := false, long64 := true }
  | _ => { spec := spec, fmt := fmt, wideArg := false, long64 := false }

/-- A size and what is behind it are the text, and the code reads the size just when it is known. -/
theorem readSize_spec (spec fmt : List UInt8) :
    (readSize fmt).1.text ++ (readSize fmt).2 = fmt ∧
      lengthModifier spec fmt =
        if (readSize fmt).1.Known then (readSize fmt).1.modified spec (readSize fmt).2
        else { spec := spec, fmt := fmt, wideArg := false, long64 := false } := by
  have one {fmt : List UInt8} {c : UInt8} (first : peek fmt = c) (nonzero : c ≠ 0) :
      [c] ++ fmt.tail = fmt := (cons_of_peek first nonzero).symm
  have two {fmt : List UInt8} {c d : UInt8} (first : peek fmt = c) (nonzero : c ≠ 0)
      (second : peek fmt.tail = d) (nonzero' : d ≠ 0) : [c, d] ++ fmt.tail.tail = fmt := by
    change [c] ++ ([d] ++ fmt.tail.tail) = fmt
    rw [one second nonzero', one first nonzero]
  have three {fmt : List UInt8} {c d e : UInt8} (first : peek fmt = c) (nonzero : c ≠ 0)
      (others : peek fmt.tail = d ∧ peek fmt.tail.tail = e) (nonzero' : d ≠ 0 ∧ e ≠ 0) :
      [c, d, e] ++ fmt.tail.tail.tail = fmt := by
    change [c] ++ ([d, e] ++ fmt.tail.tail.tail) = fmt
    rw [two others.1 nonzero'.1 others.2 nonzero'.2, one first nonzero]
  rw [readSize, lengthModifier]
  by_cases l : peek fmt = 0x6c
  · rw [if_pos l, if_pos l]
    by_cases ll : peek fmt.tail = 0x6c
    · rw [if_pos ll, if_pos ll]
      exact ⟨two l (by decide) ll (by decide), rfl⟩
    · rw [if_neg ll, if_neg ll]
      exact ⟨one l (by decide), rfl⟩
  rw [if_neg l, if_neg l]
  by_cases h : peek fmt = 0x68
  · rw [if_pos h, if_pos h]
    by_cases hh : peek fmt.tail = 0x68
    · rw [if_pos hh, if_pos hh]
      exact ⟨two h (by decide) hh (by decide), rfl⟩
    · rw [if_neg hh, if_neg hh]
      exact ⟨one h (by decide), rfl⟩
  rw [if_neg h, if_neg h]
  by_cases sized : peek fmt = 0x49
  · rw [if_pos sized, if_pos sized]
    by_cases long : peek fmt.tail = 0x36 ∧ peek fmt.tail.tail = 0x34
    · rw [if_pos long, if_pos long]
      exact ⟨three sized (by decide) long (by decide), rfl⟩
    rw [if_neg long, if_neg long]
    by_cases short : peek fmt.tail = 0x33 ∧ peek fmt.tail.tail = 0x32
    · rw [if_pos short, if_pos short]
      exact ⟨three sized (by decide) short (by decide), rfl⟩
    · rw [if_neg short, if_neg short]
      exact ⟨one sized (by decide), rfl⟩
  rw [if_neg sized, if_neg sized]
  by_cases w : peek fmt = 0x77
  · rw [if_pos w, if_pos w]
    exact ⟨one w (by decide), rfl⟩
  rw [if_neg w, if_neg w]
  by_cases long_double : peek fmt = 0x4c
  · rw [if_pos long_double]
    exact ⟨one long_double (by decide), rfl⟩
  rw [if_neg long_double]
  by_cases j : peek fmt = 0x6a
  · rw [if_pos j]
    exact ⟨one j (by decide), rfl⟩
  rw [if_neg j]
  by_cases z : peek fmt = 0x7a
  · rw [if_pos z]
    exact ⟨one z (by decide), rfl⟩
  rw [if_neg z]
  by_cases t : peek fmt = 0x74
  · rw [if_pos t]
    exact ⟨one t (by decide), rfl⟩
  · rw [if_neg t]
    exact ⟨rfl, rfl⟩

theorem readSize_append (fmt : List UInt8) : (readSize fmt).1.text ++ (readSize fmt).2 = fmt :=
  (readSize_spec [] fmt).1

/-- A size that is known is read as the convention has it. -/
theorem lengthModifier_of_known (spec : List UInt8) {fmt : List UInt8}
    (known : (readSize fmt).1.Known) :
    lengthModifier spec fmt = (readSize fmt).1.modified spec (readSize fmt).2 :=
  (readSize_spec spec fmt).2.trans (if_pos known)

/-- A size that is not known is one character, which is left where it is. -/
theorem lengthModifier_of_unknown (spec : List UInt8) {fmt : List UInt8}
    (unknown : ¬ (readSize fmt).1.Known) :
    lengthModifier spec fmt = { spec := spec, fmt := fmt, wideArg := false, long64 := false } ∧
      ∃ c, fmt = c :: (readSize fmt).2 := by
  have one {size : Size} (unknown : ¬ size.Known) : ∃ c, size.text = [c] := by
    cases size with
    | L | j | z | t => exact ⟨_, rfl⟩
    | _ => exact absurd (by decide) unknown
  obtain ⟨c, same⟩ := one unknown
  have whole := readSize_append fmt
  rw [same] at whole
  exact ⟨(readSize_spec spec fmt).2.trans (if_neg unknown), c, whole.symm⟩

/-! ### Types and directives -/

/-- The sizes of 64 bits, where pointers have them. -/
def Size.Long (size : Size) : Prop := size ∈ [.ll, .I, .I64, .j, .z, .t]

instance (size : Size) : Decidable size.Long := inferInstanceAs (Decidable (_ ∈ _))

/-- The argument of a type, if there is such a type and it has one. -/
def kindOf (size : Size) (type : UInt8) : Option Kind :=
  if type = 0x25 then none
  else if type = 0x73 then
    if size = .l ∨ size = .w then some .wideString else some .string
  else if type = 0x53 then
    if size = .h then some .string else some .wideString
  else if type = 0x63 then
    if size = .l ∨ size = .w then some .wchar else some .char
  else if type = 0x43 then
    if size = .h then some .char else some .wchar
  else if type ∈ ([0x64, 0x69, 0x75, 0x6f, 0x78, 0x58] : List UInt8) then
    if size.Long then some .int64 else some .int
  else if type = 0x70 then some .pointer
  else if type ∈ ([0x66, 0x65, 0x45, 0x67, 0x47, 0x61, 0x41] : List UInt8) then some .double
  else if type = 0x46 then some .double
  else if type = 0x6e then some .count
  else if type = 0x5a then some .countedString
  else none

/-- A directive of a format: the flags, width and precision, the size, and the type unless the
format ends before it. -/
structure Directive where
  leading : List UInt8
  size : Size
  type : Option UInt8

/-- The arguments of a directive: an `int` for each `*`, and that of its type. -/
def kinds (leading : List UInt8) (size : Size) (type : UInt8) : List Kind :=
  List.replicate (leading.count 0x2a) .int ++ (kindOf size type).toList

/-- The text of a directive with its type. -/
def spelled (leading : List UInt8) (size : Size) (type : UInt8) : List UInt8 :=
  0x25 :: (leading ++ size.text ++ [type])

theorem spelled_append {fmt rest : List UInt8} {type : UInt8}
    (reads : (readSize (readLeading fmt).2).2 = type :: rest) :
    spelled (readLeading fmt).1 (readSize (readLeading fmt).2).1 type ++ rest = 0x25 :: fmt := by
  have behind := readSize_append (readLeading fmt).2
  rw [reads] at behind
  rw [spelled, List.cons_append, List.append_assoc, List.append_assoc, List.singleton_append,
    behind, splits_readLeading]

theorem length_lt_of_reads {fmt rest : List UInt8} {type : UInt8}
    (reads : (readSize (readLeading fmt).2).2 = type :: rest) : rest.length < fmt.length := by
  have lengths := congrArg List.length (spelled_append reads)
  rw [List.length_append, spelled, List.length_cons, List.length_append, List.length_singleton,
    List.length_cons] at lengths
  omega

/-- The directives of a format. -/
def directives (fmt : List UInt8) : List Directive :=
  match fmt with
  | [] => []
  | c :: fmt =>
    if c ≠ 0x25 then directives fmt
    else
      match _reads : (readSize (readLeading fmt).2).2 with
      | [] => [{ leading := (readLeading fmt).1, size := (readSize (readLeading fmt).2).1,
                 type := none }]
      | type :: rest =>
        { leading := (readLeading fmt).1, size := (readSize (readLeading fmt).2).1,
          type := some type } :: directives rest
termination_by fmt.length
decreasing_by
  · exact Nat.lt_succ_self _
  · exact (length_lt_of_reads _reads).trans (Nat.lt_succ_self _)

/-- The conversions that directives stand for, with the slots of their arguments. -/
def conventional (slot : Nat) : List Directive → List Conversion
  | [] => []
  | ⟨leading, size, some type⟩ :: others =>
    { text := spelled leading size type, taken := (kinds leading size type).zipIdx slot } ::
      conventional (slot + (kinds leading size type).length) others
  | ⟨_, _, none⟩ :: others => conventional slot others

/-- A call carries out the conversions of its format, each with its arguments. -/
def Aligned (surroundings : Surroundings) (format : Text UInt8) : Prop :=
  (dbgPrint surroundings format.characters { out := [], total := 0, slot := 0, conversions := [] }
    ).conversions = conventional 0 (directives format.characters)

/-! ### What is known of the types -/

/-- The types that have an argument which is not taken. -/
def Untaken (type : UInt8) : Prop := type ∈ [0x46, 0x6e, 0x5a]

instance (type : UInt8) : Decidable (Untaken type) := inferInstanceAs (Decidable (_ ∈ _))

theorem untaken_iff (type : UInt8) :
    Untaken type ↔ type = 0x46 ∨ type = 0x6e ∨ type = 0x5a := by
  simp [Untaken]

/-- The types that `h` makes narrow. -/
def Narrow (size : Size) (type : UInt8) : Prop := size = .h ∧ type ∈ [0x53, 0x43]

instance (size : Size) (type : UInt8) : Decidable (Narrow size type) :=
  inferInstanceAs (Decidable (_ ∧ _))

theorem long64_modified (spec fmt : List UInt8) {size : Size} (known : size.Known) :
    (size.modified spec fmt).long64 = true ↔ size.Long := by
  cases size with
  | ll | I | I64 => exact iff_of_true rfl (by decide)
  | L | j | z | t => exact absurd known (by decide)
  | _ => exact iff_of_false (fun same => nomatch same) (by decide)

/-- The argument of the convention is taken unless there is something about the type that is not
known. -/
theorem taken_eq_iff (surroundings : Surroundings) (spec fmt : List UInt8) {size : Size}
    (known : size.Known) (type : UInt8) (argument : UInt64) :
    (convert surroundings (size.modified spec fmt) type argument).taken = kindOf size type ↔
      ¬ Untaken type ∧ ¬ Narrow size type := by
  rw [convert, kindOf]
  by_cases percent : type = 0x25
  · subst percent
    exact iff_of_true rfl ⟨by decide, fun narrow => absurd narrow.2 (by decide)⟩
  rw [if_neg percent, if_neg percent]
  by_cases string : type = 0x73
  · subst string
    refine iff_of_true ?_ ⟨by decide, fun narrow => absurd narrow.2 (by decide)⟩
    cases size <;> rfl
  rw [if_neg string, if_neg string]
  by_cases wideString : type = 0x53
  · subst wideString
    cases size with
    | h => exact iff_of_false (fun same => nomatch same) (by decide)
    | _ => exact iff_of_true rfl (by decide)
  rw [if_neg wideString, if_neg wideString]
  by_cases character : type = 0x63
  · subst character
    refine iff_of_true ?_ ⟨by decide, fun narrow => absurd narrow.2 (by decide)⟩
    cases size <;> rfl
  rw [if_neg character, if_neg character]
  by_cases wideCharacter : type = 0x43
  · subst wideCharacter
    cases size with
    | h => exact iff_of_false (fun same => nomatch same) (by decide)
    | _ => exact iff_of_true rfl (by decide)
  rw [if_neg wideCharacter, if_neg wideCharacter]
  have wide : ¬ Narrow size type := fun narrow =>
    (List.mem_pair.mp narrow.2).elim wideString wideCharacter
  rw [and_iff_left wide]
  by_cases integer : type ∈ ([0x64, 0x69, 0x75, 0x6f, 0x78, 0x58] : List UInt8)
  · have apart : ∀ c ∈ ([0x64, 0x69, 0x75, 0x6f, 0x78, 0x58] : List UInt8), ¬ Untaken c := by
      simp [Untaken]
    rw [if_pos integer, if_pos integer]
    refine iff_of_true ?_ (apart type integer)
    by_cases long : size.Long
    · rw [if_pos ((long64_modified spec fmt known).mpr long), if_pos long, forward]
    · rw [if_neg (mt (long64_modified spec fmt known).mp long), if_neg long, forward]
  rw [if_neg integer, if_neg integer]
  by_cases pointer : type = 0x70
  · subst pointer
    exact iff_of_true rfl (by decide)
  rw [if_neg pointer, if_neg pointer]
  by_cases double : type ∈ ([0x66, 0x65, 0x45, 0x67, 0x47, 0x61, 0x41] : List UInt8)
  · have apart : ∀ c ∈ ([0x66, 0x65, 0x45, 0x67, 0x47, 0x61, 0x41] : List UInt8),
        ¬ Untaken c := by simp [Untaken]
    rw [if_pos double, if_pos double]
    exact iff_of_true rfl (apart type double)
  rw [if_neg double, if_neg double]
  by_cases untaken : Untaken type
  · refine iff_of_false (fun same => ?_) (not_not_intro untaken)
    obtain rfl | rfl | rfl := (untaken_iff type).mp untaken
    · exact nomatch same
    · exact nomatch same
    · exact nomatch same
  · have others : type ≠ 0x46 ∧ type ≠ 0x6e ∧ type ≠ 0x5a := by
      rwa [untaken_iff, not_or, not_or] at untaken
    rw [if_neg others.1, if_neg others.2.1, if_neg others.2.2]
    exact iff_of_true rfl untaken

/-- A type about which there is something that is not known has an argument. -/
theorem kindOf_isSome {size : Size} {type : UInt8} (odd : Untaken type ∨ Narrow size type) :
    (kindOf size type).isSome = true := by
  rcases odd with untaken | ⟨rfl, wide⟩
  · obtain rfl | rfl | rfl := (untaken_iff type).mp untaken
    · rfl
    · rfl
    · rfl
  · rcases List.mem_pair.mp wide with rfl | rfl
    · rfl
    · rfl

theorem toList_inj {Value : Type} {first second : Option Value} :
    first.toList = second.toList ↔ first = second := by
  cases first <;> cases second <;> simp

/-- The arguments of the convention are taken just when none of them is for a `*`, and there is
nothing about the type that is not known. -/
theorem kinds_eq_iff (surroundings : Surroundings) (spec fmt leading : List UInt8) {size : Size}
    (known : size.Known) (type : UInt8) (argument : UInt64) :
    (convert surroundings (size.modified spec fmt) type argument).taken.toList =
        kinds leading size type ↔
      0x2a ∉ leading ∧ ¬ Untaken type ∧ ¬ Narrow size type := by
  have same := taken_eq_iff surroundings spec fmt known type argument
  generalize (convert surroundings (size.modified spec fmt) type argument).taken = taken at same
  by_cases starred : 0x2a ∈ leading
  · refine iff_of_false (fun equal => ?_) fun good => good.1 starred
    have stars : 0 < leading.count 0x2a := List.count_pos_iff.mpr starred
    have lengths := congrArg List.length equal
    rw [kinds, List.length_append, List.length_replicate] at lengths
    have no_more : taken.toList.length ≤ (kindOf size type).toList.length := by
      by_cases odd : Untaken type ∨ Narrow size type
      · obtain ⟨kind, some_kind⟩ := Option.isSome_iff_exists.mp (kindOf_isSome odd)
        rw [some_kind]
        cases taken with
        | none => exact Nat.zero_le 1
        | some other => exact le_rfl
      · rw [same.mpr (not_or.mp odd)]
    omega
  · rw [kinds, List.count_eq_zero.mpr starred, List.replicate_zero, List.nil_append,
      toList_inj, same, and_iff_right starred]

/-! ### What is read behind a `%` -/

/-- The characters in front of a size. -/
def Leading (c : UInt8) : Prop := c ∉ [0x6c, 0x68, 0x49, 0x77]

theorem leading_of_isFlag (c : UInt8) (flag : isFlag c = true) : Leading c := by
  have apart : ∀ c ∈ ([0x2d, 0x2b, 0x20, 0x23, 0x30] : List UInt8), Leading c := by
    simp [Leading]
  exact apart c (of_decide_eq_true flag)

theorem leading_of_isDigit (c : UInt8) (digit : isDigit c = true) : Leading c := by
  have most : c.toNat ≤ 0x39 := UInt8.le_iff_toNat_le.mp (of_decide_eq_true digit).2
  have larger : ∀ d ∈ ([0x6c, 0x68, 0x49, 0x77] : List UInt8), 0x39 < d.toNat := by simp
  exact fun member => absurd (larger c member) (Nat.not_lt.mpr most)

theorem takes_readLeading : Takes Leading readLeading := by
  have number : Takes Leading readNumber :=
    (takes_nothing Leading).branch (by unfold Leading; decide) (takes_run leading_of_isDigit)
  have precision : Takes Leading readPrecision :=
    number.branch (by unfold Leading; decide) (takes_nothing Leading)
  exact (takes_run leading_of_isFlag).andThen (number.andThen precision)

theorem lengthModifier_of_leading (spec fmt : List UInt8) {c : UInt8} (leading : Leading c) :
    lengthModifier spec (c :: fmt) =
      { spec := spec, fmt := c :: fmt, wideArg := false, long64 := false } := by
  have others : c ≠ 0x6c ∧ c ≠ 0x68 ∧ c ≠ 0x49 ∧ c ≠ 0x77 := by
    simpa [Leading] using leading
  have first : peek (c :: fmt) = c := rfl
  rw [lengthModifier, first, if_neg others.1, if_neg others.2.1, if_neg others.2.2.1,
    if_neg others.2.2.2]

/-- There is room for the flags, the width and the precision, and the size is known. -/
def Spellable (leading : List UInt8) (size : Size) : Prop := leading.length ≤ 55 ∧ size.Known

section

variable {fmt : List UInt8}

/-- What is known is read as the convention has it. -/
theorem spell_of_spellable
    (spellable : Spellable (readLeading fmt).1 (readSize (readLeading fmt).2).1) :
    spell fmt = (readSize (readLeading fmt).2).1.modified (0x25 :: (readLeading fmt).1)
      (readSize (readLeading fmt).2).2 := by
  have room : [(0x25 : UInt8)].length + (readLeading fmt).1.length ≤ limit := by
    rw [List.length_singleton, Nat.add_comm]
    exact Nat.succ_le_succ spellable.1
  rw [spell, copies_copyLeading.of_le room]
  exact lengthModifier_of_known _ spellable.2

/-- Otherwise a character is taken for the type that comes before the type. -/
theorem spell_of_not_spellable
    (other : ¬ Spellable (readLeading fmt).1 (readSize (readLeading fmt).2).1) :
    ∃ conv rest, (spell fmt).fmt = conv :: rest ∧
      (readSize (readLeading fmt).2).2.length ≤ rest.length := by
  by_cases room : (readLeading fmt).1.length ≤ 55
  · have fits : [(0x25 : UInt8)].length + (readLeading fmt).1.length ≤ limit := by
      rw [List.length_singleton, Nat.add_comm]
      exact Nat.succ_le_succ room
    obtain ⟨same, c, begins⟩ := lengthModifier_of_unknown (0x25 :: (readLeading fmt).1)
      fun known => other ⟨room, known⟩
    refine ⟨c, _, ?_, le_rfl⟩
    rw [spell, copies_copyLeading.of_le fits]
    exact (congrArg Modified.fmt same).trans begins
  · have behind := congrArg List.length (readSize_append (readLeading fmt).2)
    have copied := copies_copyLeading [0x25] fmt (by decide)
    have left : limit - [(0x25 : UInt8)].length = 55 := rfl
    rw [left] at copied
    cases cut : (readLeading fmt).1.drop 55 with
    | nil => exact absurd (List.drop_eq_nil_iff.mp cut) room
    | cons c rest =>
      have member : c ∈ (readLeading fmt).1 :=
        List.mem_of_mem_drop (cut ▸ List.mem_cons_self : c ∈ (readLeading fmt).1.drop 55)
      rw [cut] at copied
      refine ⟨c, rest ++ (readLeading fmt).2, ?_, ?_⟩
      · rw [spell, copied]
        exact congrArg Modified.fmt
          (lengthModifier_of_leading _ _ (takes_readLeading fmt c member))
      · rw [List.length_append] at behind ⊢
        omega

end

/-! ### The loop, one conversion at a time -/

section

variable {surroundings : Surroundings} {state : State} {c conv type : UInt8}
  {fmt rest : List UInt8}

theorem dbgPrint_nil : dbgPrint surroundings [] state = state := by
  rw [dbgPrint]

theorem dbgPrint_literal (literal : c ≠ 0x25) :
    dbgPrint surroundings (c :: fmt) state = dbgPrint surroundings fmt (state.put c) := by
  rw [dbgPrint, if_pos literal]

theorem dbgPrint_end (ends : (spell fmt).fmt = []) :
    dbgPrint surroundings (0x25 :: fmt) state = state := by
  rw [dbgPrint, if_neg (not_not_intro rfl)]
  split
  · rfl
  · rename_i conv rest spelled
    rw [ends] at spelled
    cases spelled

theorem dbgPrint_convert (reads : (spell fmt).fmt = conv :: rest) :
    dbgPrint surroundings (0x25 :: fmt) state =
      dbgPrint surroundings rest
        (state.carry (convert surroundings (spell fmt) conv (surroundings.argv state.slot))
          (0x25 :: fmt.take (fmt.length - rest.length))) := by
  rw [dbgPrint, if_neg (not_not_intro rfl)]
  split
  · rename_i spelled
    rw [reads] at spelled
    cases spelled
  · rename_i other behind spelled
    obtain ⟨rfl, rfl⟩ := List.cons.inj (reads.symm.trans spelled)
    rfl

theorem directives_nil : directives [] = [] := by
  rw [directives]

theorem directives_literal (literal : c ≠ 0x25) : directives (c :: fmt) = directives fmt := by
  rw [directives, if_pos literal]

theorem directives_end (ends : (readSize (readLeading fmt).2).2 = []) :
    directives (0x25 :: fmt) =
      [{ leading := (readLeading fmt).1, size := (readSize (readLeading fmt).2).1,
         type := none }] := by
  rw [directives, if_neg (not_not_intro rfl)]
  split
  · rfl
  · rename_i type rest spelled
    rw [ends] at spelled
    exact nomatch spelled

theorem directives_type (reads : (readSize (readLeading fmt).2).2 = type :: rest) :
    directives (0x25 :: fmt) =
      { leading := (readLeading fmt).1, size := (readSize (readLeading fmt).2).1,
        type := some type } :: directives rest := by
  rw [directives, if_neg (not_not_intro rfl)]
  split
  · rename_i spelled
    rw [reads] at spelled
    exact nomatch spelled
  · rename_i other behind spelled
    obtain ⟨rfl, rfl⟩ := List.cons.inj (reads.symm.trans spelled)
    rfl

/-- The conversions that have been carried out stay. -/
theorem conversions_extend (surroundings : Surroundings) (fmt : List UInt8) (state : State) :
    ∃ more, (dbgPrint surroundings fmt state).conversions = state.conversions ++ more := by
  induction length : fmt.length using Nat.strong_induction_on generalizing fmt state with
  | h _ inductionHypothesis =>
  subst length
  cases fmt with
  | nil => exact ⟨[], by rw [dbgPrint_nil, List.append_nil]⟩
  | cons c fmt =>
    by_cases literal : c ≠ 0x25
    · rw [dbgPrint_literal literal]
      exact inductionHypothesis fmt.length (Nat.lt_succ_self _) fmt (state.put c) rfl
    · obtain rfl := not_not.mp literal
      cases reads : (spell fmt).fmt with
      | nil => exact ⟨[], by rw [dbgPrint_end reads, List.append_nil]⟩
      | cons conv rest =>
        have shorter := length_spell fmt
        rw [reads, List.length_cons] at shorter
        obtain ⟨more, same⟩ := inductionHypothesis rest.length (Nat.lt_succ_of_lt shorter) rest
          (state.carry (convert surroundings (spell fmt) conv (surroundings.argv state.slot))
            (0x25 :: fmt.take (fmt.length - rest.length))) rfl
        rw [dbgPrint_convert reads, same, State.carry, List.append_assoc]
        exact ⟨_, rfl⟩

/-- The first conversion that is carried out. -/
theorem conversions_convert (surroundings : Surroundings) (state : State)
    (reads : (spell fmt).fmt = conv :: rest) :
    ∃ more, (dbgPrint surroundings (0x25 :: fmt) state).conversions =
      state.conversions ++
        { text := 0x25 :: fmt.take (fmt.length - rest.length)
          taken := (convert surroundings (spell fmt) conv
            (surroundings.argv state.slot)).taken.toList.zipIdx state.slot } :: more := by
  obtain ⟨more, same⟩ := conversions_extend surroundings rest
    (state.carry (convert surroundings (spell fmt) conv (surroundings.argv state.slot))
      (0x25 :: fmt.take (fmt.length - rest.length)))
  refine ⟨more, ?_⟩
  rw [dbgPrint_convert reads, same, State.carry, List.append_assoc]
  rfl

/-- The text of a directive is what is read of it. -/
theorem take_spelled (reads : (readSize (readLeading fmt).2).2 = type :: rest) :
    0x25 :: fmt.take (fmt.length - rest.length) =
      spelled (readLeading fmt).1 (readSize (readLeading fmt).2).1 type := by
  have front {front behind whole : List UInt8} (same : front ++ behind = whole) :
      whole.take (whole.length - behind.length) = front := by
    rw [← same, List.length_append, Nat.add_sub_cancel, List.take_left]
  have whole := spelled_append reads
  rw [spelled, List.cons_append] at whole
  rw [spelled, front (List.cons.inj whole).2]

end

/-! ### Alignment -/

/-- A directive whose conversion is carried out with its arguments. -/
structure Directive.Followed (directive : Directive) : Prop where
  spellable : Spellable directive.leading directive.size
  arguments : ∀ type, directive.type = some type →
    0x2a ∉ directive.leading ∧ ¬ Untaken type ∧ ¬ Narrow directive.size type

theorem fmt_modified (spec fmt : List UInt8) (size : Size) :
    (size.modified spec fmt).fmt = fmt := by
  cases size <;> rfl

section

variable {surroundings : Surroundings} {state : State} {type : UInt8} {fmt rest : List UInt8}

/-- A directive that is spelled as the convention has it and gets its arguments is carried out. -/
theorem dbgPrint_taken
    (spells : (spell fmt).fmt = type :: rest)
    (reads : (readSize (readLeading fmt).2).2 = type :: rest)
    (taken : (convert surroundings (spell fmt) type
        (surroundings.argv state.slot)).taken.toList =
      kinds (readLeading fmt).1 (readSize (readLeading fmt).2).1 type) :
    ∃ next : State,
      dbgPrint surroundings (0x25 :: fmt) state = dbgPrint surroundings rest next ∧
      next.conversions ++ conventional next.slot (directives rest) =
        state.conversions ++ conventional state.slot (directives (0x25 :: fmt)) := by
  refine ⟨_, dbgPrint_convert spells, ?_⟩
  rw [directives_type reads, conventional, State.carry, taken, take_spelled reads,
    List.append_assoc, List.singleton_append]

/-- A directive that is spelled as the convention has it and gets other arguments is another
conversion. -/
theorem conversions_ne_of_taken (spells : (spell fmt).fmt = type :: rest)
    (reads : (readSize (readLeading fmt).2).2 = type :: rest)
    (other : (convert surroundings (spell fmt) type
        (surroundings.argv state.slot)).taken.toList ≠
      kinds (readLeading fmt).1 (readSize (readLeading fmt).2).1 type) :
    (dbgPrint surroundings (0x25 :: fmt) state).conversions ≠
      state.conversions ++ conventional state.slot (directives (0x25 :: fmt)) := by
  intro same
  obtain ⟨more, carried⟩ := conversions_convert surroundings state spells
  rw [directives_type reads, conventional] at same
  have first := (List.cons.inj (List.append_cancel_left (carried.symm.trans same))).1
  have equal := congrArg (List.map Prod.fst) (Conversion.mk.inj first).2
  rw [List.zipIdx_map_fst, List.zipIdx_map_fst] at equal
  exact other equal

/-- A directive that is cut, or the size of which is not known, is another conversion. -/
theorem conversions_ne_of_not_spellable
    (other : ¬ Spellable (readLeading fmt).1 (readSize (readLeading fmt).2).1) :
    (dbgPrint surroundings (0x25 :: fmt) state).conversions ≠
      state.conversions ++ conventional state.slot (directives (0x25 :: fmt)) := by
  intro same
  obtain ⟨conv, behind, converts, longer⟩ := spell_of_not_spellable other
  obtain ⟨more, carried⟩ := conversions_convert surroundings state converts
  have shorter := length_spell fmt
  rw [converts, List.length_cons] at shorter
  have conversions := List.append_cancel_left (carried.symm.trans same)
  cases reads : (readSize (readLeading fmt).2).2 with
  | nil =>
    rw [directives_end reads, conventional, conventional] at conversions
    exact nomatch conversions
  | cons type rest =>
    rw [directives_type reads, conventional, ← take_spelled reads] at conversions
    have texts := (Conversion.mk.inj (List.cons.inj conversions).1).1
    have lengths := congrArg List.length texts
    rw [List.length_cons, List.length_cons, List.length_take, List.length_take] at lengths
    rw [reads, List.length_cons] at longer
    omega

/-- The first directive behind a `%` is followed if all are. -/
theorem spellable_of_followed
    (followed : ∀ directive ∈ directives (0x25 :: fmt), directive.Followed) :
    Spellable (readLeading fmt).1 (readSize (readLeading fmt).2).1 := by
  cases reads : (readSize (readLeading fmt).2).2 with
  | nil =>
    rw [directives_end reads] at followed
    exact (List.forall_mem_singleton.mp followed).spellable
  | cons type rest =>
    rw [directives_type reads] at followed
    exact (List.forall_mem_cons.mp followed).1.spellable

end

/-- The conversions from a place in the format on are those of its directives just when all of these
are followed. -/
theorem carried_iff (surroundings : Surroundings) (fmt : List UInt8) (state : State) :
    (dbgPrint surroundings fmt state).conversions =
        state.conversions ++ conventional state.slot (directives fmt) ↔
      ∀ directive ∈ directives fmt, directive.Followed := by
  induction length : fmt.length using Nat.strong_induction_on generalizing fmt state with
  | h _ inductionHypothesis =>
  subst length
  cases fmt with
  | nil =>
    rw [dbgPrint_nil, directives_nil, conventional, List.append_nil]
    exact iff_of_true rfl fun directive member => absurd member List.not_mem_nil
  | cons c fmt =>
  by_cases literal : c ≠ 0x25
  · rw [dbgPrint_literal literal, directives_literal literal]
    exact inductionHypothesis fmt.length (Nat.lt_succ_self _) fmt (state.put c) rfl
  obtain rfl := not_not.mp literal
  by_cases spellable : Spellable (readLeading fmt).1 (readSize (readLeading fmt).2).1
  · have spells := spell_of_spellable spellable
    have behind := congrArg Modified.fmt spells
    rw [fmt_modified] at behind
    cases reads : (readSize (readLeading fmt).2).2 with
    | nil =>
      rw [reads] at behind
      rw [dbgPrint_end behind, directives_end reads, conventional, conventional, List.append_nil]
      refine iff_of_true rfl (List.forall_mem_singleton.mpr ⟨spellable, fun _ same => ?_⟩)
      exact nomatch same
    | cons type rest =>
      rw [reads] at behind spells
      have shorter : rest.length < fmt.length := length_lt_of_reads reads
      have arguments := kinds_eq_iff surroundings (0x25 :: (readLeading fmt).1) (type :: rest)
        (readLeading fmt).1 spellable.2 type (surroundings.argv state.slot)
      rw [← spells] at arguments
      by_cases taken : (convert surroundings (spell fmt) type
          (surroundings.argv state.slot)).taken.toList =
        kinds (readLeading fmt).1 (readSize (readLeading fmt).2).1 type
      · have followed : Directive.Followed ⟨(readLeading fmt).1,
            (readSize (readLeading fmt).2).1, some type⟩ :=
          ⟨spellable, fun _ same => Option.some.inj same ▸ arguments.mp taken⟩
        obtain ⟨next, runs, same⟩ := dbgPrint_taken behind reads taken
        rw [runs, ← same, directives_type reads, List.forall_mem_cons, and_iff_right followed]
        exact inductionHypothesis rest.length (Nat.lt_succ_of_lt shorter) rest next rfl
      · refine iff_of_false (conversions_ne_of_taken behind reads taken) fun all => ?_
        rw [directives_type reads, List.forall_mem_cons] at all
        exact taken (arguments.mpr (all.1.arguments type rfl))
  · exact iff_of_false (conversions_ne_of_not_spellable spellable) fun all =>
      spellable (spellable_of_followed all)

/-- A call carries out the conversions of its format, each with its arguments, just when each
directive has no `*`, 55 characters of flags, width and precision at most, a size that is known, a
type that is, and no `h` before `S` and `C`. -/
theorem aligned_iff (surroundings : Surroundings) (format : Text UInt8) :
    Aligned surroundings format ↔
      ∀ directive ∈ directives format.characters, directive.Followed := by
  rw [Aligned, ← carried_iff surroundings format.characters
    { out := [], total := 0, slot := 0, conversions := [] }, List.nil_append]

/-- `%*d`. -/
def starred : Text UInt8 where
  characters := [0x25, 0x2a, 0x64]
  nonzero := by decide

/-- The `*` of `%*d` is not given an argument. -/
theorem not_aligned : ¬ ∀ surroundings format, Aligned surroundings format := by
  intro all
  have followed := (carried_iff _ starred.characters _).mp
    (all ⟨fun _ => 0, fun _ => [], fun _ => [], fun _ _ _ => []⟩ starred)
  have reads : (readSize (readLeading [0x2a, 0x64]).2).2 = [0x64] := rfl
  have first : directives starred.characters =
      [⟨[0x2a], .none, some 0x64⟩] := by
    rw [starred, directives_type reads, directives_nil]
    rfl
  rw [first, List.forall_mem_singleton] at followed
  exact (followed.arguments 0x64 rfl).1 (by decide)

end Nloader.DbgPrint
