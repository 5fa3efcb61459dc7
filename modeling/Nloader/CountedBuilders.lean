/-
This file models the functions of `src/libs/ntdll/rtl.c` that build strings in blocks, and says when
they stay inside of them. None of them looks at how much room there is, and none reports that there
was too little.

`RtlDosPathNameToNtPathName_U` stores a zero at an index that is a number of bytes. This is inside
of its block for a path of one character only.
-/

import Nloader.CountedEqual
import Nloader.Library.Outcome

namespace Nloader.CountedStrings

open CommandLine Conversions Events Parameters Terminated WideStrings

/-! ### The functions -/

/-- `RtlCreateUnicodeStringFromAsciiz`. -/
def rtlCreateUnicodeStringFromAsciiz (blocks : Blocks UInt16)
    (destination : CountedString UInt16) (sourceString : Option (List UInt8)) :
    Except Stop (Bool × CountedString UInt16) := do
  let ansi ← rtlInitAnsiString sourceString
  let (status, string) ← rtlAnsiStringToUnicodeString blocks destination ansi true
  .ok (status == statusSuccess, string)

/-- `RtlDosPathNameToNtPathName_U`, with `size_t` arithmetic for the index. -/
def rtlDosPathNameToNtPathNameU (blocks : Blocks UInt16) (dosPath : List UInt16) :
    Except Stop (Bool × CountedString UInt16) := do
  let len ← orOverread (rplWcslen dosPath)
  let dplenInb := len * sizeofWchar
  let buffer ← rtlAllocateHeap sizeofWchar blocks (len + 1)
  let text ← orOverread (copy id (len + 1) dosPath)
  let buffer ← put buffer text
  let buffer ← write buffer 1 0x3f
  let buffer ← write buffer ((2 ^ 64 + dplenInb - 1) % 2 ^ 64) 0
  .ok (true, {
    length := .ofNat dplenInb
    maximumLength := .ofNat (dplenInb + sizeofWchar)
    buffer := some buffer })

/-- The bytes of some `WCHAR`s in memory. -/
def bytesOf (text : List UInt16) : List UInt8 :=
  text.flatMap fun c : UInt16 => [c.toUInt8, (c >>> 8).toUInt8]

/-- `systemroot`. -/
def systemroot : List UInt16 := (chars "c:\\windows").map widen ++ [0]

/-- `"%SystemRoot%"`. -/
def systemRootVariable : List UInt8 := chars "%SystemRoot%" ++ [0]

/-- What `RtlExpandEnvironmentStrings_U` stores: a text and its length. -/
def storeExpanded (destination : CountedString UInt8) (destinationBufferLength : Bool)
    (text : List UInt8) (length : UInt16) :
    Except Stop (Status × Option (CountedString UInt8) × Option UInt32) := do
  let buffer ← put destination.memory text
  .ok (statusSuccess, some { destination with length := length, buffer := some buffer },
    if destinationBufferLength then some length.toUInt32 else none)

/-- `RtlExpandEnvironmentStrings_U`. The buffer of the destination is the list of its bytes, and
`DestinationBufferLength` is given or not. -/
def rtlExpandEnvironmentStringsU (sourceString : Option (CountedString UInt16))
    (destinationString : Option (CountedString UInt8)) (destinationBufferLength : Bool) :
    Except Stop (Status × Option (CountedString UInt8) × Option UInt32) :=
  match sourceString, destinationString with
  | some source, some destination => do
    let sourceStringA ← us2str source
    if ← sameLoop Open.tolower sourceStringA systemRootVariable then
      storeExpanded destination destinationBufferLength (bytesOf systemroot)
        (.ofNat ((bytesOf systemroot).length - sizeofWchar))
    else do
      let text ← orOverread (copy id source.length.toNat (bytesOf source.memory))
      storeExpanded destination destinationBufferLength text source.length
  | _, _ => .ok (statusAccessViolation, destinationString, none)

/-! ### Staying inside -/

/-- A string of the caller, with a buffer of its maximum length. -/
structure Destination (Character : Type) (sizeofCharacter : Nat) extends
    CountedString Character where
  owned : toCountedString.memory.length = maximumLength.toNat / sizeofCharacter

/-- An `ANSI_STRING` of which the counted bytes can be read. -/
structure AnsiSource extends CountedString UInt8 where
  counted : length.toNat ≤ toCountedString.memory.length

/-- A call stores nothing outside of its blocks, and where its result does not fit it reports
that. -/
def Contained {Result : Type} (succeeds : Result → Prop) (fits : Prop)
    (run : Except Stop Result) : Prop :=
  run ≠ .error .overrun ∧ (¬ fits → ∃ result, run = .ok result ∧ ¬ succeeds result)

section

variable {Result : Type} {succeeds : Result → Prop} {fits : Prop}

/-- A call that succeeds where the result fits is contained there only, if it stores it elsewhere
too. -/
theorem contained_iff_fits [Decidable fits] {run : Except Stop Result} {result : Result}
    (runs : run = if fits then .ok result else .error .overrun) :
    Contained succeeds fits run ↔ fits := by
  by_cases room : fits
  · rw [if_pos room] at runs
    refine iff_of_true ⟨?_, fun other => absurd room other⟩ room
    rw [runs]
    exact fun wrong => nomatch wrong
  · rw [if_neg room] at runs
    exact iff_of_false (fun contained => contained.1 runs) room

/-- A call that always succeeds is contained only where the result fits. -/
theorem fits_of_contained {run : Except Stop Result}
    (succeed : ∀ result, run = .ok result → succeeds result)
    (contained : Contained succeeds fits run) : fits := by
  by_contra other
  obtain ⟨result, runs, fails⟩ := contained.2 other
  exact fails (succeed result runs)

end

/-- The bytes that `RtlUnicodeStringToAnsiString` has room for. -/
def ansiRoom (destination : CountedString UInt8) (source : CountedString UInt16)
    (allocate : Bool) : Nat :=
  if allocate then source.maximumLength.toNat / sizeofWchar else destination.maximumLength.toNat

theorem ansi_contained_iff (blocks : Blocks UInt8) (destination : Destination UInt8 sizeofChar)
    (source : Source) (allocate : Bool) :
    Contained (fun result => result.1 = statusSuccess)
        (source.count + 1 ≤ ansiRoom destination.toCountedString source.toCountedString allocate)
        (rtlUnicodeStringToAnsiString blocks destination.toCountedString source.toCountedString
          allocate) ↔
      source.count + 1 ≤ ansiRoom destination.toCountedString source.toCountedString allocate := by
  obtain ⟨block, _, runs⟩ := rtlUnicodeStringToAnsiString_eq allocate blocks
    destination.toCountedString source.counted
  have room : ansiCapacity destination.toCountedString source.toCountedString allocate =
      ansiRoom destination.toCountedString source.toCountedString allocate := by
    cases allocate with
    | true => rfl
    | false => exact destination.owned.trans (Nat.div_one _)
  rw [room] at runs
  exact contained_iff_fits runs

/-- The bytes that `RtlAnsiStringToUnicodeString` has room for. -/
def unicodeRoom (destination : CountedString UInt16) (source : CountedString UInt8)
    (allocate : Bool) : Nat :=
  if allocate then source.maximumLength.toNat * sizeofWchar % 2 ^ 16
  else destination.maximumLength.toNat

theorem unicode_contained_iff (blocks : Blocks UInt16)
    (destination : Destination UInt16 sizeofWchar) (source : AnsiSource) (allocate : Bool) :
    Contained (fun result => result.1 = statusSuccess)
        ((source.length.toNat + 1) * sizeofWchar ≤
          unicodeRoom destination.toCountedString source.toCountedString allocate)
        (rtlAnsiStringToUnicodeString blocks destination.toCountedString source.toCountedString
          allocate) ↔
      (source.length.toNat + 1) * sizeofWchar ≤
        unicodeRoom destination.toCountedString source.toCountedString allocate := by
  obtain ⟨block, _, runs⟩ := rtlAnsiStringToUnicodeString_eq allocate blocks
    destination.toCountedString source.counted
  have room : source.length.toNat <
        unicodeCapacity destination.toCountedString source.toCountedString allocate ↔
      (source.length.toNat + 1) * sizeofWchar ≤
        unicodeRoom destination.toCountedString source.toCountedString allocate := by
    rw [← Nat.le_div_iff_mul_le (by decide : 0 < sizeofWchar), unicodeCapacity, unicodeRoom,
      destination.owned]
    cases allocate <;> exact Iff.rfl
  simp only [room] at runs
  exact contained_iff_fits runs

/-- Where `RtlAnsiStringToUnicodeString` returns, it returns success. -/
theorem succeeds_of_ok {blocks : Blocks UInt16} {destination : CountedString UInt16}
    {source : CountedString UInt8} {allocate : Bool} {result : Status × CountedString UInt16}
    (runs : rtlAnsiStringToUnicodeString blocks destination source allocate = .ok result) :
    result.1 = statusSuccess := by
  obtain ⟨block, _, fills⟩ := Outcome.bind_eq_ok.mp runs
  obtain ⟨buffer, _, returns⟩ := Outcome.bind_eq_ok.mp fills
  rw [← Except.ok.inj returns]

/-- A text whose size fits into the fields is stored in a block that is long enough. -/
theorem create_of_small (blocks : Blocks UInt16) (destination : CountedString UInt16)
    {text : Text UInt8} (behind : List UInt8) (small : text.characters.length ≤ 32766) :
    ∃ string, rtlCreateUnicodeStringFromAsciiz blocks destination (some (text.memory ++ behind)) =
      .ok (true, string) := by
  rw [rtlCreateUnicodeStringFromAsciiz, rtlInitAnsiString_text, Outcome.ok_bind, sizeofChar,
    Nat.mul_one]
  have length : (UInt16.ofNat text.characters.length).toNat = text.characters.length :=
    UInt16.toNat_ofNat_of_lt (show text.characters.length < 2 ^ 16 by omega)
  have maximumLength : (UInt16.ofNat text.characters.length + UInt16.ofNat 1).toNat =
      text.characters.length + 1 := by
    rw [UInt16.toNat_add, length]
    exact Nat.mod_eq_of_lt (show text.characters.length + 1 < 2 ^ 16 by omega)
  generalize made : ({
    length := .ofNat text.characters.length
    maximumLength := .ofNat text.characters.length + .ofNat 1
    buffer := some (text.memory ++ behind) } : CountedString UInt8) = ansi
  have counted : ansi.length.toNat ≤ ansi.memory.length := by
    rw [← made, length, CountedString.memory, Option.getD_some, Text.memory, List.length_append,
      List.length_append, Nat.add_assoc]
    exact Nat.le_add_right _ _
  have capacity : unicodeCapacity destination ansi true = text.characters.length + 1 := by
    rw [unicodeCapacity, if_pos rfl, ← made, maximumLength, sizeofWchar,
      Nat.mod_eq_of_lt (by omega)]
    exact Nat.mul_div_cancel _ (by decide)
  have room : ansi.length.toNat < unicodeCapacity destination ansi true := by
    rw [capacity, ← made, length]
    exact Nat.lt_succ_self _
  obtain ⟨block, _, runs⟩ := rtlAnsiStringToUnicodeString_eq true blocks destination counted
  rw [runs, if_pos room]
  exact ⟨_, rfl⟩

theorem create_contained_iff (blocks : Blocks UInt16) (destination : CountedString UInt16)
    (text : Text UInt8) (behind : List UInt8) :
    Contained (fun result => result.1 = true) ((text.characters.length + 1) * sizeofWchar < 2 ^ 16)
        (rtlCreateUnicodeStringFromAsciiz blocks destination (some (text.memory ++ behind))) ↔
      text.characters.length ≤ 32766 := by
  constructor
  · intro contained
    have fits := fits_of_contained (fun result runs => ?_) contained
    · rw [sizeofWchar] at fits
      omega
    · obtain ⟨ansi, _, converts⟩ := Outcome.bind_eq_ok.mp runs
      obtain ⟨made, stores, returns⟩ := Outcome.bind_eq_ok.mp converts
      rw [← Except.ok.inj returns]
      exact beq_iff_eq.mpr (succeeds_of_ok stores)
  · intro small
    obtain ⟨string, runs⟩ := create_of_small blocks destination behind small
    rw [runs]
    refine ⟨by simp, fun other => absurd ?_ other⟩
    rw [sizeofWchar]
    omega

/-- The path and its zero are stored in the block; what is behind it depends on the path. -/
theorem dos_eq (blocks : Blocks UInt16) (path : Text UInt16) (behind : List UInt16)
    (small : (path.characters.length + 1) * sizeofWchar < Heap.maxHeapAlloc) :
    (∃ string, rtlDosPathNameToNtPathNameU blocks (path.memory ++ behind) = .ok (true, string)) ∧
        path.characters.length = 1 ∨
      rtlDosPathNameToNtPathNameU blocks (path.memory ++ behind) = .error .overrun ∧
        path.characters.length ≠ 1 := by
  have enough : path.characters.length + 1 ≤ (path.memory ++ behind).length := by
    rw [Text.memory, List.length_append, List.length_append]
    exact Nat.le_add_right _ _
  have copied : copy id (path.characters.length + 1) (path.memory ++ behind) =
      some path.memory := by
    rw [copy_of_le id enough, List.map_id]
    refine congrArg some (List.take_left' ?_)
    rw [Text.memory, List.length_append]
    rfl
  have stored : ∃ buffer, put (blocks (path.characters.length + 1)).toList path.memory =
      .ok buffer := by
    refine ⟨_, put_of_le ?_⟩
    rw [Vector.length_toList, Text.memory, List.length_append]
    exact le_rfl
  obtain ⟨buffer, puts⟩ := stored
  have length : buffer.length = path.characters.length + 1 :=
    (length_put puts).trans Vector.length_toList
  have runs : rtlDosPathNameToNtPathNameU blocks (path.memory ++ behind) = (do
      let buffer ← write buffer 1 0x3f
      let buffer ←
        write buffer ((2 ^ 64 + path.characters.length * sizeofWchar - 1) % 2 ^ 64) 0
      .ok (true, {
        length := .ofNat (path.characters.length * sizeofWchar)
        maximumLength := .ofNat (path.characters.length * sizeofWchar + sizeofWchar)
        buffer := some buffer })) := by
    have allocated : rtlAllocateHeap sizeofWchar blocks (path.characters.length + 1) =
        .ok (blocks (path.characters.length + 1)).toList := if_pos small
    rw [rtlDosPathNameToNtPathNameU, rplWcslen, length_text]
    simp only [orOverread, Option.elim_some, Outcome.ok_bind]
    rw [allocated, copied, Outcome.ok_bind, Option.elim_some, Outcome.ok_bind, puts]
    rfl
  rw [runs, write, length]
  rw [sizeofWchar, Heap.maxHeapAlloc] at small
  rcases Nat.eq_zero_or_pos path.characters.length with empty | positive
  · rw [empty]
    exact .inr ⟨rfl, by decide⟩
  · have index : (2 ^ 64 + path.characters.length * sizeofWchar - 1) % 2 ^ 64 =
        path.characters.length * 2 - 1 := by
      rw [sizeofWchar]
      omega
    rw [if_pos (Nat.succ_lt_succ positive), Outcome.ok_bind, index, write, List.length_set, length]
    by_cases one : path.characters.length = 1
    · rw [if_pos (by omega)]
      exact .inl ⟨⟨_, rfl⟩, one⟩
    · rw [if_neg (by omega)]
      exact .inr ⟨rfl, one⟩

theorem dos_contained_iff (blocks : Blocks UInt16) (path : Text UInt16) (behind : List UInt16) :
    Contained (fun result => result.1 = true) ((path.characters.length + 1) * sizeofWchar < 2 ^ 16)
        (rtlDosPathNameToNtPathNameU blocks (path.memory ++ behind)) ↔
      path.characters.length = 1 := by
  by_cases small : (path.characters.length + 1) * sizeofWchar < Heap.maxHeapAlloc
  · rcases dos_eq blocks path behind small with ⟨⟨string, runs⟩, one⟩ | ⟨runs, other⟩
    · rw [runs, one]
      exact iff_of_true ⟨by simp, fun large => absurd (by decide) large⟩ rfl
    · exact iff_of_false (fun contained => contained.1 runs) other
  · have runs : rtlDosPathNameToNtPathNameU blocks (path.memory ++ behind) = .error .abort := by
      have fails : rtlAllocateHeap sizeofWchar blocks (path.characters.length + 1) =
          .error .abort := if_neg small
      rw [rtlDosPathNameToNtPathNameU, rplWcslen, length_text]
      simp only [orOverread, Option.elim_some, Outcome.ok_bind]
      rw [fails]
      rfl
    rw [sizeofWchar, Heap.maxHeapAlloc] at small
    refine iff_of_false (fun contained => ?_) (by omega)
    have fits := fits_of_contained (fun result returns => ?_) contained
    · rw [sizeofWchar] at fits
      omega
    · rw [runs] at returns
      cases returns

/-- The text of a string is `%SystemRoot%`, as its conversion has it. -/
def Source.IsSystemRoot (source : Source) : Prop :=
  sameLoop Open.tolower source.converted systemRootVariable = .ok true

instance (source : Source) : Decidable source.IsSystemRoot :=
  inferInstanceAs (Decidable (_ = _))

/-- The bytes that `RtlExpandEnvironmentStrings_U` stores. -/
def Source.expandedSize (source : Source) : Nat :=
  if source.IsSystemRoot then (bytesOf systemroot).length else source.length.toNat

/-- A comparison with a text comes to an end no later than the text does. -/
theorem exists_sameLoop {fold : UInt8 → UInt8} (zero : ∀ c, fold c = fold 0 → c = 0)
    {array text : List UInt8} (ended : 0 ∈ text) (long : text.length ≤ array.length) :
    ∃ result, sameLoop fold array text = .ok result := by
  induction text generalizing array with
  | nil => exact absurd ended List.not_mem_nil
  | cons c2 text inductionHypothesis =>
    obtain ⟨c1, array, rfl⟩ := List.exists_cons_of_length_pos ((Nat.succ_pos _).trans_le long)
    rw [sameLoop]
    by_cases same : fold c1 = fold c2
    · rw [if_pos same]
      by_cases last : c1 = 0
      · exact ⟨true, if_pos last⟩
      · rw [if_neg last]
        have other : c2 ≠ 0 := fun end2 => last (zero c1 (end2 ▸ same))
        exact inductionHypothesis ((List.mem_cons.mp ended).resolve_left other.symm)
          (Nat.le_of_succ_le_succ long)
    · exact ⟨false, if_neg same⟩

theorem tolower_eq_zero : ∀ c : UInt8, Open.tolower c = Open.tolower 0 → c = 0 :=
  forall_byte (by decide)

theorem Source.length_converted {source : Source} (convertible : source.Convertible) :
    source.converted.length = 1024 := by
  obtain ⟨converted, converts⟩ := Outcome.bind_eq_ok.mp (Source.us2str_eq convertible)
  exact (length_put converts.2).trans length_declared

/-- What `RtlExpandEnvironmentStrings_U` does behind its conversion. -/
theorem expand_eq {source : Source} (convertible : source.Convertible)
    (destination : CountedString UInt8) (given : Bool) :
    rtlExpandEnvironmentStringsU (some source.toCountedString) (some destination) given =
      if source.IsSystemRoot then
        storeExpanded destination given (bytesOf systemroot)
          (.ofNat ((bytesOf systemroot).length - sizeofWchar))
      else
        (orOverread (copy id source.length.toNat (bytesOf source.memory))).bind fun text =>
          storeExpanded destination given text source.length := by
  obtain ⟨result, compares⟩ : ∃ result,
      sameLoop Open.tolower source.converted systemRootVariable = .ok result := by
    refine exists_sameLoop tolower_eq_zero (by decide) ?_
    rw [Source.length_converted convertible]
    decide
  rw [rtlExpandEnvironmentStringsU, Source.us2str_eq convertible]
  simp only [Outcome.ok_bind, Source.IsSystemRoot, compares]
  cases result <;> rfl

theorem storeExpanded_contained_iff (destination : CountedString UInt8) (given : Bool)
    (text : List UInt8) (length : UInt16) :
    Contained (fun result => result.1 = statusSuccess) (text.length ≤ destination.memory.length)
        (storeExpanded destination given text length) ↔
      text.length ≤ destination.memory.length := by
  have runs : storeExpanded destination given text length =
      if text.length ≤ destination.memory.length then
        .ok (statusSuccess, some { destination with
          length := length
          buffer := some (text ++ destination.memory.drop text.length) },
          if given then some length.toUInt32 else none)
      else .error .overrun := by
    rw [storeExpanded, put]
    split <;> rfl
  exact contained_iff_fits runs

/-- `RtlExpandEnvironmentStrings_U` is contained where the array of its conversion and the buffer of
the caller are long enough. -/
theorem expand_contained_iff {source : Source}
    (followed : source.buffer ≠ none → source.count < source.memory.length)
    (destination : Destination UInt8 sizeofChar) (given : Bool) :
    Contained (fun result => result.1 = statusSuccess)
        (source.expandedSize ≤ destination.maximumLength.toNat)
        (rtlExpandEnvironmentStringsU (some source.toCountedString)
          (some destination.toCountedString) given) ↔
      (source.buffer = none ∨ source.count < 1024) ∧
        source.expandedSize ≤ destination.maximumLength.toNat := by
  have owned : destination.memory.length = destination.maximumLength.toNat :=
    destination.owned.trans (Nat.div_one _)
  by_cases short : source.buffer = none ∨ source.count < 1024
  · rw [and_iff_right short]
    have convertible : source.Convertible := by
      by_cases none : source.buffer = none
      · exact .inl none
      · exact .inr (.inr ⟨short.resolve_left none, followed none⟩)
    rw [expand_eq convertible, Source.expandedSize, ← owned]
    by_cases named : source.IsSystemRoot
    · rw [if_pos named, if_pos named]
      exact storeExpanded_contained_iff _ _ _ _
    · rw [if_neg named, if_neg named]
      by_cases readable : source.length.toNat ≤ (bytesOf source.memory).length
      · have length : (((bytesOf source.memory).take source.length.toNat).map id).length =
            source.length.toNat := by
          rw [List.length_map, List.length_take, Nat.min_eq_left readable]
        have contained := storeExpanded_contained_iff destination.toCountedString given
          (((bytesOf source.memory).take source.length.toNat).map id) source.length
        rw [length] at contained
        rw [copy_of_le id readable]
        exact contained
      · -- A string without a buffer that counts one byte is read where there is nothing.
        rw [copy_eq, if_neg readable]
        refine ⟨fits_of_contained ?_, fun fits => ⟨?_, fun other => absurd fits other⟩⟩
        · exact fun result runs => nomatch runs
        · exact fun wrong => nomatch wrong
  · obtain ⟨buffered, large⟩ := not_or.mp short
    have overruns := Source.us2str_overrun buffered (not_lt.mp large)
      ((Nat.succ_le_succ (not_lt.mp large)).trans (followed buffered))
    refine iff_of_false (fun contained => contained.1 ?_) fun both => short both.1
    rw [rtlExpandEnvironmentStringsU, overruns]
    rfl

/-! ### All of them -/

/-- A call of one of the builders, with what the blocks of the heap hold. What is behind the counted
characters of a string to be expanded can be read. -/
inductive Call where
  | ansi (blocks : Blocks UInt8) (destination : Destination UInt8 sizeofChar) (source : Source)
      (allocate : Bool)
  | unicode (blocks : Blocks UInt16) (destination : Destination UInt16 sizeofWchar)
      (source : AnsiSource) (allocate : Bool)
  | create (blocks : Blocks UInt16) (destination : CountedString UInt16) (text : Text UInt8)
      (behind : List UInt8)
  | expand (source : Source) (followed : source.buffer ≠ none → source.count < source.memory.length)
      (destination : Destination UInt8 sizeofChar) (given : Bool)
  | dos (blocks : Blocks UInt16) (path : Text UInt16) (behind : List UInt16)

/-- A call stores nothing outside of the destination, and fails where the result does not fit. -/
def Call.Contained : Call → Prop
  | .ansi blocks destination source allocate =>
    CountedStrings.Contained (fun result => result.1 = statusSuccess)
      (source.count + 1 ≤ ansiRoom destination.toCountedString source.toCountedString allocate)
      (rtlUnicodeStringToAnsiString blocks destination.toCountedString source.toCountedString
        allocate)
  | .unicode blocks destination source allocate =>
    CountedStrings.Contained (fun result => result.1 = statusSuccess)
      ((source.length.toNat + 1) * sizeofWchar ≤
        unicodeRoom destination.toCountedString source.toCountedString allocate)
      (rtlAnsiStringToUnicodeString blocks destination.toCountedString source.toCountedString
        allocate)
  | .create blocks destination text behind =>
    CountedStrings.Contained (fun result => result.1 = true)
      ((text.characters.length + 1) * sizeofWchar < 2 ^ 16)
      (rtlCreateUnicodeStringFromAsciiz blocks destination (some (text.memory ++ behind)))
  | .expand source _ destination given =>
    CountedStrings.Contained (fun result => result.1 = statusSuccess)
      (source.expandedSize ≤ destination.maximumLength.toNat)
      (rtlExpandEnvironmentStringsU (some source.toCountedString)
        (some destination.toCountedString) given)
  | .dos blocks path behind =>
    CountedStrings.Contained (fun result => result.1 = true)
      ((path.characters.length + 1) * sizeofWchar < 2 ^ 16)
      (rtlDosPathNameToNtPathNameU blocks (path.memory ++ behind))

/-- There is room for what a call stores. -/
def Call.Room : Call → Prop
  | .ansi _ destination source allocate =>
    source.count + 1 ≤ ansiRoom destination.toCountedString source.toCountedString allocate
  | .unicode _ destination source allocate =>
    (source.length.toNat + 1) * sizeofWchar ≤
      unicodeRoom destination.toCountedString source.toCountedString allocate
  | .create _ _ text _ => text.characters.length ≤ 32766
  | .expand source _ destination _ =>
    (source.buffer = none ∨ source.count < 1024) ∧
      source.expandedSize ≤ destination.maximumLength.toNat
  | .dos _ path _ => path.characters.length = 1

/-- The builders are contained exactly where there is room for what they store. -/
theorem builders_contained_iff (call : Call) : call.Contained ↔ call.Room := by
  cases call with
  | ansi blocks destination source allocate =>
    exact ansi_contained_iff blocks destination source allocate
  | unicode blocks destination source allocate =>
    exact unicode_contained_iff blocks destination source allocate
  | create blocks destination text behind =>
    exact create_contained_iff blocks destination text behind
  | expand source followed destination given =>
    exact expand_contained_iff followed destination given
  | dos blocks path behind => exact dos_contained_iff blocks path behind

/-- `L"ab"` as a path: the zero is stored behind the block of three `WCHAR`s. -/
theorem not_builders_contained : ¬ ∀ call : Call, call.Contained := fun all =>
  (all (.dos (zeroBlocks UInt16) ⟨[0x61, 0x62], by decide⟩ [])).1 rfl

end Nloader.CountedStrings
