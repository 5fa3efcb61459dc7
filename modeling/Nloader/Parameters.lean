/-
This file models how `main` of `src/nloader.c` and of `src/autochk.c` prepare the process
parameters of the guest: the path of the executable and the command line, in the page behind
`RTL_USER_PROCESS_PARAMETERS`. The page is read and written in `WCHAR`s of two bytes, and a write
outside of it or of the `commandline` array is no run.

The command line is put one `WCHAR` behind the beginning of the path, whatever the length of the
path. So the guest reads the command line as it should, but of the path only the first character
is left; and the two lengths are the number of characters of the path and the size of the array.
-/

import Mathlib.Tactic

namespace Nloader.Parameters

/-! ### The page -/

/-- `sizeof(WCHAR)`. -/
def sizeofWchar : Nat := 2

/-- Where `setup_nloader` maps the parameters. -/
def params : Nat := 0x20000

/-- `sizeof(RTL_USER_PROCESS_PARAMETERS)`. -/
def sizeofParams : Nat := 1008

/-- `params + 1`. -/
def behind : Nat := params + sizeofParams

/-- The end of the page. -/
def pageEnd : Nat := params + 4096

/-- The `WCHAR`s of the page behind the parameters. -/
abbrev Page := Nat → UInt16

/-- The number of the `WCHAR` at an address. -/
def slot (address : Nat) : Nat := (address - behind) / sizeofWchar

/-- The texts that the guest reads at an address. -/
def read (page : Page) (address count : Nat) : List UInt16 :=
  (List.range count).map fun index => page (slot address + index)

/-- The page after a text has been stored at an address, if it fits. -/
def store (page : Page) (address : Nat) (text : List UInt16) : Option Page :=
  if address + text.length * sizeofWchar ≤ pageEnd then
    some fun index =>
      if slot address ≤ index ∧ index < slot address + text.length then
        text.getD (index - slot address) 0
      else page index
  else none

/-- `UNICODE_STRING`. -/
structure UnicodeString where
  length : UInt16
  maximumLength : UInt16
  buffer : Nat

/-! ### The command line -/

/-- A `char` as a `WCHAR`. -/
def widen (char : UInt8) : UInt16 := char.toInt8.toInt16.toUInt16

/-- The characters of a literal. -/
def chars (text : String) : List UInt8 := text.toList.map fun char => UInt8.ofNat char.toNat

/-- `VOLUME_PREFIX`. -/
def volumePrefix : List UInt16 := (chars "Volume\x7b").map widen

/-- The number of `WCHAR`s of `commandline`. -/
def commandlineSize : Nat := 1024

/-- `commandline` and `c`. -/
structure Line where
  commandline : List UInt16
  c : Nat

/-- `L"autochk.exe *"`. -/
def defaultCommandline : List UInt16 := (chars "autochk.exe *").map widen

/-- `commandline` as it is initialized. -/
def initialCommandline : List UInt16 :=
  defaultCommandline ++ List.replicate (commandlineSize - defaultCommandline.length) 0

/-- `commandline[c++] = char`. -/
def put (line : Line) (char : UInt16) : Option Line :=
  if line.c < commandlineSize then
    some { commandline := line.commandline.set line.c char, c := line.c + 1 }
  else none

/-- The characters of an argument. The array is counted in bytes here. -/
def putArgument (line : Line) : List UInt8 → Option Line
  | [] => some line
  | char :: rest =>
    if line.c < commandlineSize * sizeofWchar - 1 then do
      putArgument (← put line (widen char)) rest
    else some line

/-- An argument with the blank before it; a device is put between braces. -/
def argument (line : Line) (arg : List UInt8) : Option Line := do
  let line ← put line (widen 0x20)
  if arg.take 4 = chars "/dev" then do
    let line ← volumePrefix.foldlM put line
    put (← putArgument line arg) (widen 0x7d)
  else putArgument line arg

/-- The command line of the executable at `ImagePathName.Buffer` and its arguments, without the
terminating NUL. -/
def commandLine (path : List UInt16) (arguments : List (List UInt8)) : Option Line :=
  if path.length ≤ commandlineSize then
    arguments.foldlM argument
      { commandline := path ++ initialCommandline.drop path.length, c := path.length }
  else none

/-- The `commandline` array that is copied, and the text that has been put into it, for the
executable at `ImagePathName.Buffer` and its arguments, if there are any. -/
def commandlineOf (path : List UInt16) :
    Option (List (List UInt8)) → Option (List UInt16 × List UInt16)
  | none => some (initialCommandline, defaultCommandline)
  | some arguments => do
    let line ← commandLine path arguments
    let ended ← put line 0
    some (ended.commandline, line.commandline.take line.c)

/-! ### The parameters -/

/-- What `main` leaves to the guest, with the text of the command line that it has put into the
array. -/
structure Prepared where
  page : Page
  imagePathName : UnicodeString
  commandLine : UnicodeString
  text : List UInt16

/-- The parameters for an executable and its arguments, if there are any. -/
def prepare (executable : List UInt8) (arguments : Option (List (List UInt8))) :
    Option Prepared := do
  let page ← store (fun _ => 0) behind (executable.map widen)
  let imagePathName : UnicodeString :=
    { length := executable.length.toUInt16
      maximumLength := executable.length.toUInt16 + 1
      buffer := behind }
  let (commandline, text) ←
    commandlineOf (read page behind imagePathName.length.toNat) arguments
  let page ← store page (behind + sizeofWchar) commandline
  some
    { page := page
      imagePathName := imagePathName
      commandLine :=
        { length := (commandlineSize * sizeofWchar - sizeofWchar).toUInt16
          maximumLength := (commandlineSize * sizeofWchar).toUInt16
          buffer := behind + sizeofWchar }
      text := text }

/-- `open` for reading. An empty path fails with `ENOENT`; for every other one it is up to the
host. -/
def opens (host : List UInt8 → Bool) (path : List UInt8) : Bool := !path.isEmpty && host path

/-- `executable` of `nloader`. -/
def executable : List (List UInt8) → List UInt8
  | _ :: path :: _ => path
  | _ => chars "autochk.exe"

/-- `main` of `nloader`, up to the entry point of the guest. -/
def nloader (host : List UInt8 → Bool) (argv : List (List UInt8)) : Option Prepared :=
  if opens host (executable argv) then
    prepare (executable argv) (if argv.length > 1 then some (argv.drop 2) else none)
  else none

/-- `main` of `autochk`, up to the entry point of the guest; without arguments it only explains
itself. -/
def autochk (argv : List (List UInt8)) : Option Prepared :=
  if argv.length > 1 then prepare (chars "autochk.exe") (some (argv.drop 1)) else none

/-! ### What the guest reads -/

/-- The address is in the text of a path of the given length. -/
def InPath (prepared : Prepared) (length address : Nat) : Prop :=
  prepared.imagePathName.buffer ≤ address ∧
    address < prepared.imagePathName.buffer + length * sizeofWchar

/-- The address is in the copy of the `commandline` array. -/
def InCommandLine (prepared : Prepared) (address : Nat) : Prop :=
  prepared.commandLine.buffer ≤ address ∧
    address < prepared.commandLine.buffer + commandlineSize * sizeofWchar

/-- The guest has its parameters: it reads the path and the command line, the two regions do not
overlap and the lengths are those of the texts. -/
structure Given (executable : List UInt8) (prepared : Prepared) : Prop where
  path : read prepared.page prepared.imagePathName.buffer executable.length = executable.map widen
  line : read prepared.page prepared.commandLine.buffer prepared.text.length = prepared.text
  apart : ∀ address, InPath prepared executable.length address → ¬ InCommandLine prepared address
  pathLength : prepared.imagePathName.length.toNat = executable.length * sizeofWchar
  lineLength : prepared.commandLine.length.toNat = prepared.text.length * sizeofWchar

/-! ### The array keeps its size -/

theorem length_put {line next : Line} {char : UInt16} (puts : put line char = some next) :
    next.commandline.length = line.commandline.length := by
  rw [put] at puts
  split at puts
  · rw [← Option.some.inj puts, List.length_set]
  · exact nomatch puts

theorem length_putArgument {line next : Line} {arg : List UInt8}
    (puts : putArgument line arg = some next) :
    next.commandline.length = line.commandline.length := by
  induction arg generalizing line with
  | nil => rw [← Option.some.inj puts]
  | cons char rest inductionHypothesis =>
    rw [putArgument] at puts
    split at puts
    · obtain ⟨middle, first, others⟩ := Option.bind_eq_some_iff.mp puts
      rw [inductionHypothesis others, length_put first]
    · rw [← Option.some.inj puts]

/-- Whatever keeps the size of the array in one step keeps it in all. -/
theorem length_foldlM {α : Type} {step : Line → α → Option Line}
    (keeps : ∀ {line next : Line} {item : α}, step line item = some next →
      next.commandline.length = line.commandline.length)
    {items : List α} {line next : Line} (steps : items.foldlM step line = some next) :
    next.commandline.length = line.commandline.length := by
  induction items generalizing line with
  | nil => rw [← Option.some.inj steps]
  | cons item items inductionHypothesis =>
    rw [List.foldlM_cons] at steps
    obtain ⟨middle, first, others⟩ := Option.bind_eq_some_iff.mp steps
    rw [inductionHypothesis others, keeps first]

theorem length_argument {line next : Line} {arg : List UInt8}
    (puts : argument line arg = some next) :
    next.commandline.length = line.commandline.length := by
  obtain ⟨blank, first, others⟩ := Option.bind_eq_some_iff.mp puts
  split at others
  · obtain ⟨named, prefixed, others⟩ := Option.bind_eq_some_iff.mp others
    obtain ⟨closed, device, brace⟩ := Option.bind_eq_some_iff.mp others
    rw [length_put brace, length_putArgument device, length_foldlM length_put prefixed,
      length_put first]
  · rw [length_putArgument others, length_put first]

theorem length_initialCommandline : initialCommandline.length = commandlineSize := by
  rw [initialCommandline, List.length_append, List.length_replicate]
  rfl

theorem length_commandLine {path : List UInt16} {arguments : List (List UInt8)} {line : Line}
    (puts : commandLine path arguments = some line) :
    line.commandline.length = commandlineSize := by
  rw [commandLine] at puts
  split at puts
  · rename_i fits
    rw [length_foldlM length_argument puts, List.length_append, List.length_drop,
      length_initialCommandline]
    exact Nat.add_sub_of_le fits
  · exact nomatch puts

/-! ### What is prepared -/

theorem commandlineOf_fits {path : List UInt16} {arguments : Option (List (List UInt8))}
    {commandline text : List UInt16}
    (puts : commandlineOf path arguments = some (commandline, text)) :
    commandline.length = commandlineSize ∧ text <+: commandline := by
  cases arguments with
  | none =>
    obtain ⟨rfl, rfl⟩ := Prod.mk.inj (Option.some.inj puts)
    exact ⟨length_initialCommandline, List.prefix_append _ _⟩
  | some arguments =>
    obtain ⟨line, argues, rest⟩ := Option.bind_eq_some_iff.mp puts
    obtain ⟨ended, ends, same⟩ := Option.bind_eq_some_iff.mp rest
    obtain ⟨rfl, rfl⟩ := Prod.mk.inj (Option.some.inj same)
    refine ⟨(length_put ends).trans (length_commandLine argues), ?_⟩
    rw [put] at ends
    split at ends
    · rw [← Option.some.inj ends, ← List.take_set_of_le (a := 0) le_rfl]
      exact List.take_prefix _ _
    · exact nomatch ends

/-- What `main` has prepared, from the array that it has copied behind the first `WCHAR` of the
path. -/
structure PreparedFrom (executable : List UInt8) (commandline : List UInt16)
    (prepared : Prepared) : Prop where
  fits : behind + executable.length * sizeofWchar ≤ pageEnd
  size : commandline.length = commandlineSize
  text : prepared.text <+: commandline
  imagePathName : prepared.imagePathName =
    ⟨executable.length.toUInt16, executable.length.toUInt16 + 1, behind⟩
  commandLine : prepared.commandLine = ⟨2046, 2048, behind + sizeofWchar⟩
  first : prepared.page 0 = (executable.map widen).getD 0 0
  rest : ∀ index, index < commandlineSize →
    prepared.page (index + 1) = commandline.getD index 0

theorem slot_behind : slot behind = 0 := rfl

theorem slot_second : slot (behind + sizeofWchar) = 1 := rfl

theorem store_eq {page next : Page} {address : Nat} {text : List UInt16}
    (stores : store page address text = some next) :
    address + text.length * sizeofWchar ≤ pageEnd ∧ ∀ index, next index =
      if slot address ≤ index ∧ index < slot address + text.length then
        text.getD (index - slot address) 0
      else page index := by
  rw [store] at stores
  split at stores
  · rename_i fits
    rw [← Option.some.inj stores]
    exact ⟨fits, fun index => rfl⟩
  · exact nomatch stores

theorem prepared_from {executable : List UInt8} {arguments : Option (List (List UInt8))}
    {prepared : Prepared} (prepares : prepare executable arguments = some prepared) :
    ∃ commandline, PreparedFrom executable commandline prepared := by
  obtain ⟨first, stores, others⟩ := Option.bind_eq_some_iff.mp prepares
  obtain ⟨⟨commandline, text⟩, line, others⟩ := Option.bind_eq_some_iff.mp others
  obtain ⟨second, copies, others⟩ := Option.bind_eq_some_iff.mp others
  obtain rfl := Option.some.inj others
  obtain ⟨fits, path⟩ := store_eq stores
  obtain ⟨size, begins⟩ := commandlineOf_fits line
  obtain ⟨-, copied⟩ := store_eq copies
  rw [List.length_map] at fits
  refine ⟨commandline, fits, size, begins, rfl, rfl, ?_, fun index less => ?_⟩
  · show second 0 = _
    rw [copied, if_neg (fun within => absurd within.1 (by decide)), path, slot_behind]
    by_cases empty : (executable.map widen).length = 0
    · rw [if_neg (by omega), List.length_eq_zero_iff.mp empty]
      rfl
    · rw [if_pos (by omega)]
  · show second (index + 1) = _
    rw [copied, slot_second, if_pos (by omega), Nat.add_sub_cancel]

/-! ### What the guest reads -/

/-- The two regions overlap exactly for a path of at least two characters. -/
theorem overlap_iff {executable : List UInt8} {arguments : Option (List (List UInt8))}
    {prepared : Prepared} (prepares : prepare executable arguments = some prepared) :
    (∃ address, InPath prepared executable.length address ∧ InCommandLine prepared address) ↔
      2 ≤ executable.length := by
  obtain ⟨commandline, shape⟩ := prepared_from prepares
  simp only [InPath, InCommandLine, shape.imagePathName, shape.commandLine, sizeofWchar,
    commandlineSize]
  constructor
  · rintro ⟨address, inPath, inCommandLine⟩
    omega
  · intro long
    exact ⟨behind + 2, by omega, by omega⟩

/-- The guest reads the command line. -/
theorem read_commandLine {executable : List UInt8} {arguments : Option (List (List UInt8))}
    {prepared : Prepared} (prepares : prepare executable arguments = some prepared) :
    read prepared.page prepared.commandLine.buffer prepared.text.length = prepared.text := by
  obtain ⟨commandline, shape⟩ := prepared_from prepares
  have short : prepared.text.length ≤ commandlineSize := shape.size ▸ shape.text.length_le
  rw [read, shape.commandLine, slot_second]
  refine List.ext_getElem? fun index => ?_
  rw [List.getElem?_map]
  by_cases less : index < prepared.text.length
  · have same := List.prefix_iff_getElem?.mp shape.text index less
    rw [List.getElem?_range less, Option.map_some, Nat.add_comm 1 index,
      shape.rest index (less.trans_le short), List.getD_eq_getElem?_getD, same,
      List.getElem?_eq_getElem less]
    rfl
  · rw [List.getElem?_eq_none (not_lt.mp less), List.getElem?_eq_none (by simpa using less)]
    rfl

/-- Where the guest should find the path, it finds the first character of it and then the command
line. -/
theorem read_path {executable : List UInt8} {arguments : Option (List (List UInt8))}
    {prepared : Prepared} (prepares : prepare executable arguments = some prepared)
    (count : Nat) :
    read prepared.page prepared.imagePathName.buffer (count + 1) =
      (executable.map widen).getD 0 0 ::
        read prepared.page prepared.commandLine.buffer count := by
  obtain ⟨commandline, shape⟩ := prepared_from prepares
  rw [read, read, shape.imagePathName, shape.commandLine, List.range_succ_eq_map,
    List.map_cons, List.map_map, slot_behind, slot_second, shape.first]
  refine congrArg _ (List.map_congr_left fun index _ => ?_)
  rw [Function.comp_apply, Nat.zero_add, Nat.add_comm 1 index]

/-- The length of the path that is told to the guest is the number of its characters. -/
theorem length_imagePathName {executable : List UInt8} {arguments : Option (List (List UInt8))}
    {prepared : Prepared} (prepares : prepare executable arguments = some prepared) :
    prepared.imagePathName.length.toNat = executable.length := by
  obtain ⟨commandline, shape⟩ := prepared_from prepares
  have fits : 132080 + executable.length * 2 ≤ 135168 := shape.fits
  have less : executable.length < 2 ^ 16 := by omega
  rw [shape.imagePathName, Nat.toUInt16_eq, UInt16.toNat_ofNat']
  exact Nat.mod_eq_of_lt less

/-- No path but the empty one is given to the guest. -/
theorem not_given {executable : List UInt8} {arguments : Option (List (List UInt8))}
    {prepared : Prepared} (prepares : prepare executable arguments = some prepared)
    (some_path : executable ≠ []) : ¬ Given executable prepared := by
  intro given
  have length := given.pathLength
  have positive := List.length_pos_iff.mpr some_path
  rw [length_imagePathName prepares, sizeofWchar] at length
  omega

/-- Whatever the host opens and the arguments are, neither program gives the guest its path and its
command line. -/
theorem never_given (host : List UInt8 → Bool) (argv : List (List UInt8)) (prepared : Prepared) :
    (nloader host argv = some prepared → ¬ Given (executable argv) prepared) ∧
      (autochk argv = some prepared → ¬ Given (chars "autochk.exe") prepared) := by
  constructor
  · intro prepares
    rw [nloader] at prepares
    split at prepares
    · rename_i opened
      refine not_given prepares fun empty => ?_
      rw [empty] at opened
      exact absurd opened Bool.false_ne_true
    · exact nomatch prepares
  · intro prepares
    rw [autochk] at prepares
    split at prepares
    · exact not_given prepares (by decide)
    · exact nomatch prepares

/-- The parameters of a path of five characters and one argument. -/
def exampleArgv : List (List UInt8) := [chars "nloader", chars "a.exe", chars "/dev/sda1"]

theorem never_given_example :
    ∃ prepared, nloader (fun _ => true) exampleArgv = some prepared ∧
      ¬ Given (chars "a.exe") prepared := by
  have prepares : (nloader (fun _ => true) exampleArgv).isSome := by decide +kernel
  obtain ⟨prepared, same⟩ := Option.isSome_iff_exists.mp prepares
  exact ⟨prepared, same, (never_given _ _ prepared).1 same⟩

/-- The claim fails for a path of five characters. -/
theorem not_always_given :
    ¬ ∀ prepared, nloader (fun _ => true) [chars "nloader", chars "a.exe"] = some prepared →
      Given (chars "a.exe") prepared := by
  intro given
  have prepares : (nloader (fun _ => true) [chars "nloader", chars "a.exe"]).isSome := by
    decide +kernel
  obtain ⟨prepared, same⟩ := Option.isSome_iff_exists.mp prepares
  have told := length_imagePathName same
  have length := (given prepared same).pathLength
  rw [told] at length
  exact absurd length (by decide)

end Nloader.Parameters
