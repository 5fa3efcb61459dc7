/-
This file is about the command line that `main` of `src/nloader.c` and of `src/autochk.c` put
together, and about the way of a device name through it: the argument `/dev/...` is put between
the braces of `Volume{...}`, the guest passes the name back, and `unix_open` takes it out of
the braces again.

The command line is written to an array of 1024 elements. Of the statements that write to it
only the one for the characters of an argument has a guard, and that one counts the array in
bytes; so the array is enough exactly for the command lines that are shorter than it. The
device names are found by four characters instead of five, and the bare prefix of a volume has
no last brace to take away.
-/

import Nloader.Parameters
import Nloader.Open

namespace Nloader.CommandLine

open Parameters

/-! ### Putting characters one by one -/

/-- The array has its size, and `c` has not left it. -/
structure LineHolds (line : Line) : Prop where
  size : line.commandline.length = commandlineSize
  inside : line.c ≤ commandlineSize

/-- What has been put into the array. -/
def text (line : Line) : List UInt16 := line.commandline.take line.c

/-- The line after some characters have been put behind it. -/
structure Extended (line : Line) (chars : List UInt16) (next : Line) : Prop where
  holds : LineHolds next
  c : next.c = line.c + chars.length
  text : text next = CommandLine.text line ++ chars

variable {line : Line}

theorem put_extended (holds : LineHolds line) (char : UInt16) (room : line.c < commandlineSize) :
    ∃ next, put line char = some next ∧ Extended line [char] next := by
  have within : line.c < line.commandline.length := by
    rw [holds.size]
    exact room
  refine ⟨_, if_pos room, ⟨by rw [List.length_set, holds.size], room⟩, rfl, ?_⟩
  change (line.commandline.set line.c char).take (line.c + 1) =
    line.commandline.take line.c ++ [char]
  rw [List.take_add_one, List.take_set_of_le le_rfl, List.getElem?_set_self within]
  rfl

theorem inside_of_put {char : UInt16} {next : Line} (puts : put line char = some next) :
    next.c ≤ commandlineSize := by
  rw [put] at puts
  split at puts
  · next room =>
    rw [← Option.some.inj puts]
    exact room
  · cases puts

/-- The characters of a text are put into the array where there is room for all of them. -/
theorem foldlM_put (chars : List UInt16) (holds : LineHolds line) :
    (line.c + chars.length ≤ commandlineSize ∧
      ∃ next, chars.foldlM put line = some next ∧ Extended line chars next) ∨
    (commandlineSize < line.c + chars.length ∧ chars.foldlM put line = none) := by
  induction chars generalizing line with
  | nil =>
    refine .inl ⟨holds.inside, line, rfl, holds, rfl, (List.append_nil _).symm⟩
  | cons char rest inductionHypothesis =>
    rw [List.foldlM_cons, List.length_cons]
    by_cases room : line.c < commandlineSize
    · obtain ⟨middle, puts, first⟩ := put_extended holds char room
      have moved : middle.c = line.c + 1 := first.c
      rw [puts, Option.bind_eq_bind, Option.bind_some]
      rcases inductionHypothesis first.holds with ⟨fits, next, ran, more⟩ | ⟨beyond, ran⟩
      · refine .inl ⟨by omega, next, ran, more.holds, ?_, ?_⟩
        · rw [more.c, moved, List.length_cons]
          omega
        · rw [more.text, first.text, List.append_assoc, List.singleton_append]
      · exact .inr ⟨by omega, ran⟩
    · have refused : put line char = none := if_neg room
      rw [refused]
      exact .inr ⟨by omega, rfl⟩

theorem inside_of_foldlM {chars : List UInt16} {next : Line} (inside : line.c ≤ commandlineSize)
    (puts : chars.foldlM put line = some next) : next.c ≤ commandlineSize := by
  induction chars generalizing line with
  | nil =>
    rw [← Option.some.inj puts]
    exact inside
  | cons char rest inductionHypothesis =>
    rw [List.foldlM_cons] at puts
    obtain ⟨middle, first, others⟩ := Option.bind_eq_some_iff.mp puts
    exact inductionHypothesis (inside_of_put first) others

/-! ### Putting arguments -/

/-- The argument begins with the four characters that `strncmp` compares. -/
abbrev BeginsDev (arg : List UInt8) : Prop := arg.take 4 = chars "/dev"

/-- The characters that are put for an argument. -/
def encode (arg : List UInt8) : List UInt16 :=
  widen 0x20 ::
    if BeginsDev arg then volumePrefix ++ (arg.map widen ++ [widen 0x7d]) else arg.map widen

/-- The guard never ends an argument while `c` has not left the array. -/
theorem putArgument_eq (arg : List UInt8) (inside : line.c ≤ commandlineSize) :
    putArgument line arg = (arg.map widen).foldlM put line := by
  induction arg generalizing line with
  | nil => rfl
  | cons char rest inductionHypothesis =>
    have guarded : line.c < commandlineSize * sizeofWchar - 1 :=
      lt_of_le_of_lt inside (by decide)
    rw [putArgument, if_pos guarded, List.map_cons, List.foldlM_cons]
    exact Option.bind_congr fun next puts => inductionHypothesis (inside_of_put puts)

theorem argument_eq (arg : List UInt8) : argument line arg = (encode arg).foldlM put line := by
  rw [argument, encode, List.foldlM_cons]
  refine Option.bind_congr fun blank puts => ?_
  have inside := inside_of_put puts
  split
  · rw [List.foldlM_append]
    refine Option.bind_congr fun named prefixed => ?_
    rw [putArgument_eq arg (inside_of_foldlM inside prefixed), List.foldlM_append]
    refine Option.bind_congr fun device _ => ?_
    rw [List.foldlM_cons]
    exact (bind_pure _).symm
  · exact putArgument_eq arg inside

/-- `commandline` with the path of the executable at its beginning. -/
def pathLine (path : List UInt16) : Line where
  commandline := path ++ initialCommandline.drop path.length
  c := path.length

theorem pathLine_holds {path : List UInt16} (short : path.length ≤ commandlineSize) :
    LineHolds (pathLine path) := by
  refine ⟨?_, short⟩
  change (path ++ initialCommandline.drop path.length).length = _
  rw [List.length_append, List.length_drop, length_initialCommandline]
  exact Nat.add_sub_of_le short

theorem text_pathLine (path : List UInt16) : text (pathLine path) = path :=
  List.take_left' rfl

theorem commandLine_eq (path : List UInt16) (arguments : List (List UInt8)) :
    commandLine path arguments =
      if path.length ≤ commandlineSize then
        (arguments.flatMap encode).foldlM put (pathLine path)
      else none := by
  have all : ∀ line,
      arguments.foldlM argument line = (arguments.flatMap encode).foldlM put line := by
    induction arguments with
    | nil => exact fun line => rfl
    | cons arg arguments inductionHypothesis =>
      intro line
      rw [List.foldlM_cons, List.flatMap_cons, List.foldlM_append, argument_eq]
      exact Option.bind_congr fun next _ => inductionHypothesis next
  rw [commandLine, all]
  rfl

/-- The command line of an executable and its arguments. -/
def wholeText (path : List UInt16) (arguments : List (List UInt8)) : List UInt16 :=
  path ++ arguments.flatMap encode

/-- The array is filled without a write outside of it exactly where the command line is shorter
than the array, and then it is the command line that is put into it. -/
theorem commandlineOf_eq (path : List UInt16) (arguments : List (List UInt8)) :
    ((wholeText path arguments).length < commandlineSize ∧
      ∃ commandline, commandlineOf path (some arguments) =
        some (commandline, wholeText path arguments)) ∨
    (commandlineSize ≤ (wholeText path arguments).length ∧
      commandlineOf path (some arguments) = none) := by
  have unfolded : commandlineOf path (some arguments) = commandLine path arguments >>= fun line =>
      put line 0 >>= fun ended => some (ended.commandline, line.commandline.take line.c) := rfl
  rw [unfolded, commandLine_eq, wholeText, List.length_append]
  by_cases short : path.length ≤ commandlineSize
  · rw [if_pos short]
    have start : (pathLine path).c = path.length := rfl
    rcases foldlM_put (arguments.flatMap encode) (pathLine_holds short) with
      ⟨fits, line, ran, extended⟩ | ⟨beyond, ran⟩
    · have moved := extended.c
      rw [ran]
      by_cases room : line.c < commandlineSize
      · refine .inl ⟨by omega, ?_⟩
        obtain ⟨ended, ends, _⟩ := put_extended extended.holds 0 room
        refine ⟨ended.commandline, ?_⟩
        have whole : line.commandline.take line.c = path ++ arguments.flatMap encode := by
          rw [← text_pathLine path]
          exact extended.text
        rw [Option.bind_eq_bind, Option.bind_some, ends, whole]
        rfl
      · have refused : put line 0 = none := if_neg room
        refine .inr ⟨by omega, ?_⟩
        rw [Option.bind_eq_bind, Option.bind_some, refused]
        rfl
    · rw [ran]
      exact .inr ⟨by omega, rfl⟩
  · rw [if_neg short]
    exact .inr ⟨by omega, rfl⟩

theorem length_encode (arg : List UInt8) :
    (encode arg).length = 1 + arg.length + if BeginsDev arg then 8 else 0 := by
  have seven : volumePrefix.length = 7 := rfl
  rw [encode]
  split
  · rw [List.length_cons, List.length_append, List.length_append, List.length_map, seven,
      List.length_singleton]
    omega
  · rw [List.length_cons, List.length_map]
    omega

/-! ### The indices of the stores -/

/-- The indices at which `main` has stored to `commandline`, and `c`. -/
structure Stores where
  indices : List Nat
  c : Nat

/-- `commandline[c++] = ...`. -/
def Stores.put (stores : Stores) : Stores where
  indices := stores.indices ++ [stores.c]
  c := stores.c + 1

/-- The characters of an argument. -/
def Stores.putArgument (stores : Stores) : List UInt8 → Stores
  | [] => stores
  | _ :: rest =>
    if stores.c < commandlineSize * sizeofWchar - 1 then stores.put.putArgument rest else stores

/-- `memcpy(&commandline[c], VOLUME_PREFIX, len)`, with the step of `c` behind it. -/
def Stores.putPrefix (stores : Stores) : Stores where
  indices := stores.indices ++ List.range' stores.c volumePrefix.length
  c := stores.c + volumePrefix.length

/-- The body of the loop over the arguments. -/
def Stores.argument (stores : Stores) (arg : List UInt8) : Stores :=
  if BeginsDev arg then (stores.put.putPrefix.putArgument arg).put
  else stores.put.putArgument arg

/-- The stores for a path of the given length, for the arguments and for the NUL. -/
def commandLineStores (path : Nat) (arguments : List (List UInt8)) : Stores :=
  (arguments.foldl Stores.argument { indices := List.range path, c := path }).put

/-- The number of `WCHAR`s that an argument takes, with its blank and its braces. -/
def argumentSize (arg : List UInt8) : Nat := 1 + arg.length + if BeginsDev arg then 8 else 0

/-- The stores go from one index to the next, from the first one on. -/
def Consecutive (stores : Stores) : Prop := stores.indices = List.range stores.c

theorem Consecutive.put {stores : Stores} (consecutive : Consecutive stores) :
    Consecutive stores.put := by
  rw [Consecutive, Stores.put, consecutive, List.range_succ]

theorem Consecutive.putPrefix {stores : Stores} (consecutive : Consecutive stores) :
    Consecutive stores.putPrefix := by
  unfold Consecutive Stores.putPrefix
  rw [consecutive, List.range_eq_range', List.range_eq_range', ← List.range'_append_1,
    Nat.zero_add]

theorem Consecutive.putArgument {stores : Stores} (consecutive : Consecutive stores)
    (arg : List UInt8) : Consecutive (stores.putArgument arg) := by
  induction arg generalizing stores with
  | nil => exact consecutive
  | cons char rest inductionHypothesis =>
    rw [Stores.putArgument]
    split
    · exact inductionHypothesis consecutive.put
    · exact consecutive

theorem Consecutive.argument {stores : Stores} (consecutive : Consecutive stores)
    (arg : List UInt8) : Consecutive (stores.argument arg) := by
  rw [Stores.argument]
  split
  · exact (consecutive.put.putPrefix.putArgument arg).put
  · exact consecutive.put.putArgument arg

/-- How far some stores have gone from `c`: the whole of a size, or, where the guard has cut off
characters, less but far beyond the array. -/
def Goes (c size next : Nat) : Prop :=
  next = c + size ∨ commandlineSize < next ∧ commandlineSize < c + size

theorem goes_putArgument (stores : Stores) (arg : List UInt8) :
    Goes stores.c arg.length (stores.putArgument arg).c := by
  induction arg generalizing stores with
  | nil => exact .inl rfl
  | cons char rest inductionHypothesis =>
    have moved : stores.put.c = stores.c + 1 := rfl
    rw [Stores.putArgument, List.length_cons]
    split
    · have goes := inductionHypothesis stores.put
      rw [Goes, moved] at goes
      rw [Goes]
      omega
    · next guarded =>
      rw [commandlineSize, sizeofWchar] at guarded
      rw [Goes, commandlineSize]
      omega

theorem goes_argument (stores : Stores) (arg : List UInt8) :
    Goes stores.c (argumentSize arg) (stores.argument arg).c := by
  have moved : stores.put.c = stores.c + 1 := rfl
  have named : stores.put.putPrefix.c = stores.c + 1 + 7 := rfl
  rw [Stores.argument, argumentSize]
  split
  · have closed : ∀ stores : Stores, stores.put.c = stores.c + 1 := fun _ => rfl
    have goes := goes_putArgument stores.put.putPrefix arg
    rw [Goes, named] at goes
    rw [Goes, closed]
    omega
  · have goes := goes_putArgument stores.put arg
    rw [Goes, moved] at goes
    rw [Goes]
    omega

/-- All stores go to the array exactly where the path and the arguments leave room for the NUL. -/
theorem commandLineStores_inside_iff (path : Nat) (arguments : List (List UInt8)) :
    (∀ index ∈ (commandLineStores path arguments).indices, index < commandlineSize) ↔
      path + (arguments.map argumentSize).sum < commandlineSize := by
  have all : ∀ stores : Stores, Consecutive stores →
      Consecutive (arguments.foldl Stores.argument stores) ∧
        Goes stores.c (arguments.map argumentSize).sum
          (arguments.foldl Stores.argument stores).c := by
    induction arguments with
    | nil => exact fun stores consecutive => ⟨consecutive, .inl rfl⟩
    | cons arg arguments inductionHypothesis =>
      intro stores consecutive
      obtain ⟨more, goes⟩ := inductionHypothesis (stores.argument arg) (consecutive.argument arg)
      refine ⟨more, ?_⟩
      have first := goes_argument stores arg
      rw [List.foldl_cons, List.map_cons, List.sum_cons]
      rw [Goes] at first goes ⊢
      omega
  obtain ⟨consecutive, goes⟩ := all { indices := List.range path, c := path } rfl
  have ended : (commandLineStores path arguments).indices =
      List.range (commandLineStores path arguments).c := consecutive.put
  have last : (commandLineStores path arguments).c =
      (arguments.foldl Stores.argument { indices := List.range path, c := path }).c + 1 := rfl
  rw [ended, last]
  simp only [List.mem_range]
  change Goes path _ _ at goes
  rw [Goes] at goes
  constructor
  · intro inside
    have bound := inside _ (Nat.lt_succ_self _)
    omega
  · intro short index below
    omega

/-- The model of the array goes through where every store goes to the array. -/
theorem commandlineOf_isSome_iff (path : List UInt16) (arguments : List (List UInt8)) :
    (commandlineOf path (some arguments)).isSome ↔
      ∀ index ∈ (commandLineStores path.length arguments).indices, index < commandlineSize := by
  have total : (wholeText path arguments).length =
      path.length + (arguments.map argumentSize).sum := by
    rw [wholeText, List.length_append, List.length_flatMap]
    simp only [length_encode]
    rfl
  rw [commandLineStores_inside_iff, ← total]
  rcases commandlineOf_eq path arguments with ⟨short, commandline, puts⟩ | ⟨long, puts⟩
  · rw [puts]
    exact iff_of_true rfl short
  · rw [puts]
    exact iff_of_false Bool.false_ne_true (Nat.not_lt_of_le long)

/-! ### The stores of the two programs -/

/-- `ImagePathName.Length`, which counts the characters of the path in 16 bits. -/
def imagePathLength (executable : List UInt8) : Nat := executable.length.toUInt16.toNat

/-- The indices at which `main` of `nloader` stores to `commandline` behind its initialization. -/
def nloaderStores (argv : List (List UInt8)) : List Nat :=
  if argv.length > 1 then
    (commandLineStores (imagePathLength (executable argv)) (argv.drop 2)).indices
  else []

/-- The same of `autochk`, which leaves through `usage` without arguments. -/
def autochkStores (argv : List (List UInt8)) : List Nat :=
  if argv.length > 1 then
    (commandLineStores (imagePathLength (chars "autochk.exe")) (argv.drop 1)).indices
  else []

/-- Both programs store to the array and nowhere else exactly where there are no arguments, or
the path, the arguments with a blank before each of them, and the braces of those that are taken
for devices are shorter than the array. -/
theorem stores_inside_iff (argv : List (List UInt8)) :
    ((∀ index ∈ nloaderStores argv, index < 1024) ↔
      (argv.length > 1 → (executable argv).length % 2 ^ 16 +
        ((argv.drop 2).map argumentSize).sum < 1024)) ∧
    ((∀ index ∈ autochkStores argv, index < 1024) ↔
      (argv.length > 1 → 11 + ((argv.drop 1).map argumentSize).sum < 1024)) := by
  have length : imagePathLength (executable argv) = (executable argv).length % 2 ^ 16 := by
    rw [imagePathLength, Nat.toUInt16_eq, UInt16.toNat_ofNat']
  have eleven : imagePathLength (chars "autochk.exe") = 11 := by decide
  rw [nloaderStores, autochkStores]
  by_cases given : argv.length > 1
  · rw [if_pos given, if_pos given, ← length, ← eleven]
    simp only [given, true_implies]
    exact ⟨commandLineStores_inside_iff _ _, commandLineStores_inside_iff _ _⟩
  · rw [if_neg given, if_neg given]
    exact ⟨iff_of_true nofun fun some => absurd some given,
      iff_of_true nofun fun some => absurd some given⟩

/-- An argument of 1012 characters behind the name of `autochk`: the NUL is stored behind the
array. For `nloader` it is an argument of 1018 characters behind a path of five. -/
theorem not_stores_inside :
    (¬ ∀ index ∈ nloaderStores [[], chars "a.exe", List.replicate 1018 0x61], index < 1024) ∧
      ¬ ∀ index ∈ autochkStores [[], List.replicate 1012 0x61], index < 1024 := by
  have size : ∀ count, 4 ≤ count →
      argumentSize (List.replicate count (0x61 : UInt8)) = 1 + count := by
    intro count large
    have other : ¬ BeginsDev (List.replicate count (0x61 : UInt8)) := by
      rw [BeginsDev, List.take_replicate, Nat.min_eq_left large]
      decide
    rw [argumentSize, if_neg other, List.length_replicate, Nat.add_zero]
  constructor
  · intro inside
    have short := (commandLineStores_inside_iff 5 [List.replicate 1018 0x61]).mp inside
    rw [List.map_singleton, List.sum_singleton, size _ (by decide)] at short
    exact absurd short (by decide)
  · intro inside
    have short := (commandLineStores_inside_iff 11 [List.replicate 1012 0x61]).mp inside
    rw [List.map_singleton, List.sum_singleton, size _ (by decide)] at short
    exact absurd short (by decide)

/-! ### What a command line should be -/

/-- The argument begins with `/dev/`. -/
abbrev IsDevice (arg : List UInt8) : Prop := arg.take 5 = chars "/dev/"

/-- An argument with a blank before it, and with a device between braces. -/
def braced (arg : List UInt8) : List UInt8 :=
  0x20 :: if IsDevice arg then Open.volumePrefix ++ (arg ++ [0x7d]) else arg

/-- The bytes of the command line of an executable and its arguments. -/
def expected (executable : List UInt8) (arguments : List (List UInt8)) : List UInt8 :=
  executable ++ arguments.flatMap braced

theorem IsDevice.beginsDev {arg : List UInt8} (device : IsDevice arg) : BeginsDev arg := by
  have four : (arg.take 5).take 4 = (chars "/dev/").take 4 := congrArg _ device
  rwa [List.take_take] at four

theorem map_volumePrefix : Open.volumePrefix.map widen = volumePrefix := rfl

/-- The characters put for an argument are those of the braced one, or eight more. -/
theorem encode_eq_braced_iff (arg : List UInt8) :
    (encode arg).length ≥ ((braced arg).map widen).length ∧
      (encode arg = (braced arg).map widen ↔ (BeginsDev arg → IsDevice arg)) := by
  have same : (BeginsDev arg → IsDevice arg) → encode arg = (braced arg).map widen := by
    intro good
    rw [encode, braced, List.map_cons]
    by_cases device : IsDevice arg
    · rw [if_pos device.beginsDev, if_pos device, List.map_append, List.map_append,
        map_volumePrefix]
      rfl
    · rw [if_neg (mt good device), if_neg device]
  by_cases good : BeginsDev arg → IsDevice arg
  · exact ⟨ge_of_eq (congrArg List.length (same good)), iff_of_true (same good) good⟩
  · obtain ⟨begins, other⟩ := Classical.not_imp.mp good
    have longer : (encode arg).length = ((braced arg).map widen).length + 8 := by
      rw [length_encode, if_pos begins, braced, if_neg other, List.length_map, List.length_cons]
      omega
    refine ⟨by omega, iff_of_false (fun equal => ?_) good⟩
    have lengths := congrArg List.length equal
    omega

/-- The arguments are put as they should be exactly where each of them is. -/
theorem flatMap_encode_iff (arguments : List (List UInt8)) :
    (arguments.flatMap encode).length ≥ ((arguments.flatMap braced).map widen).length ∧
      (arguments.flatMap encode = (arguments.flatMap braced).map widen ↔
        ∀ arg ∈ arguments, BeginsDev arg → IsDevice arg) := by
  induction arguments with
  | nil => exact ⟨le_rfl, iff_of_true rfl nofun⟩
  | cons arg arguments inductionHypothesis =>
    obtain ⟨long, each⟩ := encode_eq_braced_iff arg
    obtain ⟨longs, others⟩ := inductionHypothesis
    rw [List.flatMap_cons, List.flatMap_cons, List.map_append, List.forall_mem_cons, ← each,
      ← others, List.length_append, List.length_append]
    refine ⟨Nat.add_le_add long longs, fun equal => ?_, ?_⟩
    · have lengths := congrArg List.length equal
      rw [List.length_append, List.length_append] at lengths
      exact List.append_inj equal (by omega)
    · rintro ⟨first, rest⟩
      rw [first, rest]

/-! ### The low bytes -/

/-- `widetoa`. -/
def widetoa (wide : UInt16) : UInt8 := (wide &&& 0xff).toUInt8

/-- What holds of all bits holds of all bytes. -/
theorem forall_byte {property : UInt8 → Prop} (all : ∀ bits : BitVec 8, property ⟨bits⟩)
    (byte : UInt8) : property byte :=
  all byte.toBitVec

/-- A byte is the low byte of its `WCHAR`. -/
theorem widetoa_widen : ∀ char : UInt8, widetoa (widen char) = char :=
  forall_byte (by decide)

/-- The bytes that `RtlUnicodeToOemN` stores to `OemString`, for the `WCHAR`s at `UnicodeString`. -/
def rtlUnicodeToOemN (maxBytesInOemString : Nat) (unicodeString : Nat → UInt16)
    (bytesInUnicodeString : Nat) : List UInt8 :=
  let stop := min (bytesInUnicodeString / sizeofWchar) maxBytesInOemString
  if stop = 0 then [0]
  else (List.range (stop + 1)).map fun index => widetoa (unicodeString index)

/-- A text that was widened is narrowed to its bytes, where there is room for it. -/
theorem rtlUnicodeToOemN_widen {bytes : List UInt8} {unicodeString : Nat → UInt16}
    {maxBytesInOemString : Nat} (room : bytes.length ≤ maxBytesInOemString)
    (held : (List.range bytes.length).map unicodeString = bytes.map widen) :
    (rtlUnicodeToOemN maxBytesInOemString unicodeString
      (bytes.length * sizeofWchar)).take bytes.length = bytes := by
  have stop : min (bytes.length * sizeofWchar / sizeofWchar) maxBytesInOemString =
      bytes.length := by
    rw [Nat.mul_div_cancel _ (by decide), Nat.min_eq_left room]
  unfold rtlUnicodeToOemN
  dsimp only
  rw [stop]
  split
  · next empty =>
    rw [empty, List.take_zero, List.length_eq_zero_iff.mp empty]
  · have narrowed : ∀ index, widetoa (unicodeString index) = (widetoa ∘ unicodeString) index :=
      fun _ => rfl
    simp only [narrowed]
    rw [← List.map_take, List.take_range, Nat.min_eq_left (Nat.le_succ _), ← List.map_map, held,
      List.map_map]
    refine (List.map_congr_left fun char _ => ?_).trans (List.map_id _)
    exact widetoa_widen char

/-! ### The command line of a run -/

/-- The path is read as it was stored. -/
theorem read_stored {page : Page} {text : List UInt16}
    (stores : store (fun _ => 0) behind text = some page) :
    read page behind text.length = text := by
  obtain ⟨_, path⟩ := store_eq stores
  refine List.ext_getElem? fun index => ?_
  rw [Parameters.read, List.getElem?_map, slot_behind]
  by_cases less : index < text.length
  · rw [List.getElem?_range less, Option.map_some, path, slot_behind, if_pos (by omega),
      List.getD_eq_getElem?_getD, List.getElem?_eq_getElem (by omega), Option.getD_some,
      List.getElem?_eq_getElem less]
    simp only [Nat.zero_add, Nat.sub_zero]
  · rw [List.getElem?_eq_none (by simpa using less), List.getElem?_eq_none (not_lt.mp less)]
    rfl

/-- What a run puts into the array. -/
theorem text_of_prepare {path : List UInt8} {arguments : List (List UInt8)} {prepared : Prepared}
    (prepares : prepare path (some arguments) = some prepared) :
    prepared.text = wholeText (path.map widen) arguments := by
  obtain ⟨page, stores, others⟩ := Option.bind_eq_some_iff.mp prepares
  obtain ⟨⟨commandline, text⟩, line, others⟩ := Option.bind_eq_some_iff.mp others
  obtain ⟨copied, copies, others⟩ := Option.bind_eq_some_iff.mp others
  obtain rfl := Option.some.inj others
  have fits := (store_eq stores).1
  have small : path.length < 2 ^ 16 := by
    rw [List.length_map] at fits
    change 132080 + path.length * 2 ≤ 135168 at fits
    omega
  have length : path.length.toUInt16.toNat = (path.map widen).length := by
    rw [List.length_map, Nat.toUInt16_eq, UInt16.toNat_ofNat', Nat.mod_eq_of_lt small]
  dsimp only at line
  rw [length, read_stored stores] at line
  rcases commandlineOf_eq (path.map widen) arguments with ⟨_, other, puts⟩ | ⟨_, refused⟩
  · rw [puts] at line
    cases line
    rfl
  · rw [refused] at line
    cases line

/-- Without arguments the array stays as it is initialized. -/
theorem text_of_prepare_none {path : List UInt8} {prepared : Prepared}
    (prepares : prepare path none = some prepared) : prepared.text = defaultCommandline := by
  obtain ⟨page, stores, others⟩ := Option.bind_eq_some_iff.mp prepares
  obtain ⟨⟨commandline, text⟩, line, others⟩ := Option.bind_eq_some_iff.mp others
  obtain ⟨copied, copies, others⟩ := Option.bind_eq_some_iff.mp others
  obtain rfl := Option.some.inj others
  exact (congrArg Prod.snd (Option.some.inj line)).symm

/-- The command line of a run is the one of its executable and its arguments, and its low bytes
are the bytes of these. -/
structure Built (path : List UInt8) (arguments : List (List UInt8)) (prepared : Prepared) :
    Prop where
  text : prepared.text = (expected path arguments).map widen
  recovered : ∀ maxBytesInOemString, prepared.text.length ≤ maxBytesInOemString →
    (rtlUnicodeToOemN maxBytesInOemString
      (fun index => prepared.page (slot prepared.commandLine.buffer + index))
      (prepared.text.length * sizeofWchar)).take prepared.text.length =
        expected path arguments

/-- A command line that is the right text has the right bytes. -/
theorem built_of_text {path executable : List UInt8} {arguments : List (List UInt8)}
    {given : Option (List (List UInt8))} {prepared : Prepared}
    (prepares : prepare executable given = some prepared)
    (text : prepared.text = (expected path arguments).map widen) :
    Built path arguments prepared := by
  refine ⟨text, fun maxBytesInOemString room => ?_⟩
  have length : prepared.text.length = (expected path arguments).length := by
    rw [text, List.length_map]
  have held := read_commandLine prepares
  rw [length] at room held ⊢
  exact rtlUnicodeToOemN_widen room (held.trans text)

/-- The command line of a run with arguments is built as it should be exactly where each of its
arguments that begins with `/dev` begins with `/dev/`. -/
theorem built_iff {path : List UInt8} {arguments : List (List UInt8)} {prepared : Prepared}
    (prepares : prepare path (some arguments) = some prepared) :
    Built path arguments prepared ↔ ∀ arg ∈ arguments, BeginsDev arg → IsDevice arg := by
  rw [← (flatMap_encode_iff arguments).2]
  have whole := text_of_prepare prepares
  constructor
  · intro built
    have text := built.text
    rw [whole, wholeText, expected, List.map_append] at text
    exact List.append_cancel_left text
  · intro same
    refine built_of_text prepares ?_
    rw [whole, wholeText, same, expected, List.map_append]

/-! ### The device behind the prefix -/

/-- The values of `len` and of `len - 1` on the way of `unix_open` to a device. -/
def extractionLengths (path : List UInt8) : List Int :=
  [path.length - 1, path.length - 1 - 6, path.length - 1 - 6 - 1]

/-- No length is negative, and a device between braces is what is taken out of them. -/
structure Extracted (path : List UInt8) : Prop where
  nonneg : ∀ length ∈ extractionLengths path, 0 ≤ length
  device : ∀ device, path.drop Open.volumePrefix.length = device ++ [0x7d] →
    Open.devpath path = device

/-- The length of a path that begins with the prefix. -/
theorem length_of_starts {path : List UInt8}
    (starts : Open.startsIgnoringCase path Open.volumePrefix = true) : 7 ≤ path.length := by
  have lengths := ((Open.startsIgnoringCase_iff _ _).mp starts).length_le
  rw [List.length_map, List.length_map] at lengths
  exact lengths

/-- A length is negative where C leaves open what the device is. -/
theorem openVolume_undefined_iff (mtab : Option (List UInt8)) {path : List UInt8}
    (last : path.getLast? ≠ some 0x5c) (flags : UInt32) :
    Open.openVolume mtab path flags = .undefined ↔
      ∃ length ∈ extractionLengths path, length < 0 := by
  rw [Open.openVolume, if_neg last, extractionLengths]
  simp only [List.exists_mem_cons_iff, List.not_mem_nil, false_and, exists_false, or_false]
  split
  · exact iff_of_true rfl (by omega)
  · refine iff_of_false ?_ (by omega)
    split <;> simp

/-- The way out of the braces goes through but for the bare prefix. -/
theorem extracted_iff {path : List UInt8}
    (starts : Open.startsIgnoringCase path Open.volumePrefix = true) :
    Extracted path ↔ path.length ≠ 7 := by
  have long := length_of_starts starts
  constructor
  · intro extracted bare
    have copied := extracted.nonneg (path.length - 1 - 6 - 1) (by simp [extractionLengths])
    omega
  · intro more
    refine ⟨fun length member => ?_, fun device closed => ?_⟩
    · simp only [extractionLengths, List.mem_cons, List.not_mem_nil, or_false] at member
      omega
    · have lengths := congrArg List.length closed
      rw [List.length_drop, List.length_append, List.length_singleton] at lengths
      change path.length - 7 = device.length + 1 at lengths
      have rest : path.drop 7 = device ++ [0x7d] := closed
      rw [Open.devpath, rest, List.take_left' (by omega)]

/-! ### The way of a device name -/

theorem executable_of_none {argv : List (List UInt8)} (given : ¬ argv.length > 1) :
    executable argv = chars "autochk.exe" := by
  rcases argv with _ | ⟨first, _ | ⟨second, rest⟩⟩
  · rfl
  · rfl
  · exact absurd (Nat.le_add_left 2 rest.length) given

/-- Both programs build the command line as they should exactly where there are arguments and
each of them that begins with `/dev` begins with `/dev/`; and `unix_open` takes the device out
of every path with the prefix but the bare one. -/
theorem device_names_iff (host : List UInt8 → Bool) (argv : List (List UInt8))
    (prepared : Prepared) (path : List UInt8) :
    (nloader host argv = some prepared →
      (Built (executable argv) (argv.drop 2) prepared ↔
        argv.length > 1 ∧ ∀ arg ∈ argv.drop 2, BeginsDev arg → IsDevice arg)) ∧
    (autochk argv = some prepared →
      (Built (chars "autochk.exe") (argv.drop 1) prepared ↔
        ∀ arg ∈ argv.drop 1, BeginsDev arg → IsDevice arg)) ∧
    (Open.startsIgnoringCase path Open.volumePrefix = true → path.getLast? ≠ some 0x5c →
      (Extracted path ↔ path.length ≠ 7)) := by
  refine ⟨fun prepares => ?_, fun prepares => ?_, fun starts _ => extracted_iff starts⟩
  · rw [nloader] at prepares
    split at prepares
    · by_cases given : argv.length > 1
      · rw [if_pos given] at prepares
        rw [built_iff prepares]
        exact (and_iff_right given).symm
      · rw [if_neg given] at prepares
        refine iff_of_false (fun built => ?_) fun built => given built.1
        have text := built.text
        rw [text_of_prepare_none prepares, expected] at text
        have lengths := congrArg List.length text
        rw [executable_of_none given, List.drop_eq_nil_of_le (by omega)] at lengths
        exact absurd lengths (by decide)
    · cases prepares
  · rw [autochk] at prepares
    split at prepares
    · exact built_iff prepares
    · cases prepares

/-- A device, and a bare prefix. -/
theorem device_names_iff_exampleArgv :
    ∃ prepared, nloader (fun _ => true) exampleArgv = some prepared ∧
      (Built (chars "a.exe") [chars "/dev/sda1"] prepared ↔ exampleArgv.length > 1 ∧
        ∀ arg ∈ [chars "/dev/sda1"], BeginsDev arg → IsDevice arg) ∧
      (Extracted (Open.bytes "volume\x7b") ↔ (Open.bytes "volume\x7b").length ≠ 7) := by
  have prepares : (nloader (fun _ => true) exampleArgv).isSome := by decide +kernel
  obtain ⟨prepared, same⟩ := Option.isSome_iff_exists.mp prepares
  have law := device_names_iff (fun _ => true) exampleArgv prepared (Open.bytes "volume\x7b")
  exact ⟨prepared, same, law.1 same, law.2.2 (by decide) (by decide)⟩

/-- The argument `/devices` is put between braces; and for the bare prefix `len - 1` is -1. -/
theorem not_device_names :
    (∃ prepared, nloader (fun _ => true) [[], chars "a.exe", chars "/devices"] = some prepared ∧
      ¬ Built (chars "a.exe") [chars "/devices"] prepared) ∧
    ¬ Extracted (Open.bytes "Volume\x7b") := by
  constructor
  · have prepares : (nloader (fun _ => true) [[], chars "a.exe", chars "/devices"]).isSome := by
      decide +kernel
    obtain ⟨prepared, same⟩ := Option.isSome_iff_exists.mp prepares
    refine ⟨prepared, same, fun built => ?_⟩
    have good := (built_iff same).mp built _ (List.mem_singleton_self _) (by decide)
    exact absurd good (by decide)
  · exact fun extracted => absurd ((extracted_iff (by decide)).mp extracted) (by decide)

end Nloader.CommandLine
