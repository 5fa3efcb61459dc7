/-
This file models how `src/libs/ntdll/io.c` opens files of the host, as it is built for Linux:
`ntflags_unix`, `is_mounted` and `unix_open`. A path is the list of its bytes before the
terminating NUL, compared as in the C locale; `/etc/mtab` is the list of its bytes.

A file is opened for writing only where the path names no file of its own: the null device, the
test image, or the device in `Volume{...}`, and that one only if no line of `/etc/mtab` begins
with it. The check reads the lines in pieces of 511 bytes, so that it compares more beginnings
than there are lines, but none less.
-/

import Mathlib.Tactic

namespace Nloader.Open

/-! ### Strings -/

/-- The bytes of a text. -/
def bytes (text : String) : List UInt8 := text.toList.map fun char => UInt8.ofNat char.toNat

/-- `tolower`. -/
def tolower (byte : UInt8) : UInt8 := if 0x41 ≤ byte ∧ byte ≤ 0x5a then byte + 0x20 else byte

/-- `!strcasecmp`. -/
def sameIgnoringCase (first second : List UInt8) : Bool := first.map tolower == second.map tolower

/-- `!strncasecmp`, with the length of the second string. -/
def startsIgnoringCase (path text : List UInt8) : Bool :=
  sameIgnoringCase (path.take text.length) text

/-- `strcasestr`. -/
def containsIgnoringCase (path text : List UInt8) : Bool :=
  path.tails.any fun rest => startsIgnoringCase rest text

/-! ### Flags -/

/-- `O_RDONLY`. -/
def oRdonly : UInt32 := 0

/-- `O_RDWR`. -/
def oRdwr : UInt32 := 0x2

/-- `O_CREAT`. -/
def oCreat : UInt32 := 0x40

/-- `O_APPEND`. -/
def oAppend : UInt32 := 0x400

/-- `CHECK_FLAG`, on `DesiredAccess` and `flags`. -/
def checkFlag (nt unix : UInt32) (state : UInt32 × UInt32) : UInt32 × UInt32 :=
  if state.1 &&& nt ≠ 0 then (state.1 &&& ~~~nt, state.2 ||| unix) else state

/-- The flags of `ntflags_unix`, in the order in which they are checked. -/
def accessFlags : List (UInt32 × UInt32) :=
  [(0x00100000, 0), (0x00000080, 0), (0x00000008, 0), (0x00000010, 0), (0x00000080, oRdonly),
    (0x00000001, oRdonly), (0x00000004, oAppend), (0x00020000, oCreat), (0x80000000, oRdonly),
    (0x00000100, oRdwr), (0x00000002, oRdwr), (0x40000000, oRdwr)]

/-- `ntflags_unix`. -/
def ntflagsUnix (desiredAccess : UInt32) : UInt32 :=
  (accessFlags.foldl (fun state flag => checkFlag flag.1 flag.2 state) (desiredAccess, 0)).2

/-! ### Mounted devices -/

/-- `mtab_mounted`. -/
inductive MtabMounted where
  | mounted
  | notMounted
  | error
  deriving DecidableEq

/-- `fgets`: what it reads, up to the end of the line and at most one byte less than the buffer
holds, and what is left. -/
def fgets (size : Nat) (content : List UInt8) : List UInt8 × List UInt8 :=
  content.splitAt (min (size - 1) ((content.takeWhile (· ≠ 0x0a)).length + 1))

/-- The size of `line`. -/
def sizeofLine : Nat := 512

/-- The line up to the first blank. -/
def firstField (line : List UInt8) : List UInt8 :=
  line.takeWhile fun byte => byte ≠ 0 ∧ byte ≠ 0x20 ∧ byte ≠ 0x09

theorem fgets_length_lt {content : List UInt8} (nonempty : content ≠ []) :
    (fgets sizeofLine content).2.length < content.length := by
  have positive : 0 < content.length := List.length_pos_of_ne_nil nonempty
  rw [fgets, List.splitAt_eq, List.length_drop, sizeofLine]
  omega

/-- The loop of `is_mounted`, with `lines` and the result. -/
def mountedLoop (device content : List UInt8) (lines : Nat) : Nat × MtabMounted :=
  if nonempty : content = [] then (lines, .notMounted)
  else
    if firstField (fgets sizeofLine content).1 = device then (lines + 1, .mounted)
    else mountedLoop device (fgets sizeofLine content).2 (lines + 1)
termination_by content.length
decreasing_by exact fgets_length_lt nonempty

/-- `is_mounted`; `mtab` is the content of `/etc/mtab`, if it can be opened. -/
def isMounted (mtab : Option (List UInt8)) (device : List UInt8) : MtabMounted :=
  match mtab with
  | none => .error
  | some content =>
    if (mountedLoop device content 0).1 ≠ 0 then (mountedLoop device content 0).2 else .error

/-! ### Opening -/

/-- What `unix_open` comes to: -1 without opening anything, a descriptor of the process, or what
`open` returns for a file. For the bare prefix of a volume C leaves it open. -/
inductive Opening where
  | refused
  | stdin
  | stdout
  | file (path : List UInt8) (flags : UInt32)
  | undefined
  deriving DecidableEq

/-- `Volume{`. -/
def volumePrefix : List UInt8 := bytes "Volume\x7b"

/-- `disk.img`. -/
def diskImg : List UInt8 := bytes "disk.img"

/-- `/dev/null`. -/
def devNull : List UInt8 := bytes "/dev/null"

/-- `BOOTEX.LOG`. -/
def bootexLog : List UInt8 := bytes "BOOTEX.LOG"

/-- The device of a path `Volume{...}`: without the prefix and the last character. -/
def devpath (path : List UInt8) : List UInt8 := (path.drop 7).take (path.length - 8)

/-- The part of `unix_open` for a path that begins with `Volume{`. -/
def openVolume (mtab : Option (List UInt8)) (path : List UInt8) (flags : UInt32) : Opening :=
  if path.getLast? = some 0x5c then .refused
  else if path.length < 8 then .undefined
  else
    match isMounted mtab (devpath path) with
    | .error => .refused
    | .mounted => .refused
    | .notMounted => .file (devpath path) flags

/-- `unix_open`. -/
def unixOpen (mtab : Option (List UInt8)) (path : List UInt8) (flags : UInt32) : Opening :=
  if containsIgnoringCase path bootexLog then .file devNull flags
  else if startsIgnoringCase path volumePrefix then openVolume mtab path flags
  else if sameIgnoringCase path (bytes "\\??\\Volume\x7bX\x7d\\") then .file diskImg flags
  else if sameIgnoringCase path diskImg then .file diskImg flags
  else if startsIgnoringCase path (bytes "\\Device\\KeyboardClass") then
    if path.getD 22 0 = 0 ∧ (path.getD 21 0 = 0x30 ∨ path.getD 21 0 = 0x31) then .stdin
    else .refused
  else if startsIgnoringCase path (bytes "\\Device\\Mailslot") then .stdout
  else if flags = oRdonly then .file path flags
  else .refused

/-! ### Comparisons -/

theorem sameIgnoringCase_iff (first second : List UInt8) :
    sameIgnoringCase first second = true ↔ first.map tolower = second.map tolower := by
  rw [sameIgnoringCase, beq_iff_eq]

/-- A string that begins with a text begins with it whatever comes behind. -/
theorem startsIgnoringCase_append (text rest : List UInt8) :
    startsIgnoringCase (text ++ rest) text = true := by
  rw [startsIgnoringCase, List.take_left, sameIgnoringCase_iff]

theorem startsIgnoringCase_iff (path text : List UInt8) :
    startsIgnoringCase path text = true ↔ text.map tolower <+: path.map tolower := by
  rw [startsIgnoringCase, sameIgnoringCase_iff, List.map_take, eq_comm, List.prefix_iff_eq_take,
    List.length_map]

/-- A text occurs in a string where it does in the string in lower case. -/
theorem containsIgnoringCase_iff (path text : List UInt8) :
    containsIgnoringCase path text = true ↔ text.map tolower <:+: path.map tolower := by
  rw [containsIgnoringCase, List.any_eq_true]
  constructor
  · rintro ⟨rest, tail, starts⟩
    rw [List.mem_tails] at tail
    exact ((startsIgnoringCase_iff rest text).mp starts).isInfix.trans (tail.map tolower).isInfix
  · intro occurs
    obtain ⟨rest, starts, tail⟩ := List.infix_iff_prefix_suffix.mp occurs
    obtain ⟨front, whole⟩ := tail
    refine ⟨path.drop front.length, (List.mem_tails _ _).mpr (List.drop_suffix _ _), ?_⟩
    rw [startsIgnoringCase_iff, List.map_drop, ← whole, List.drop_left]
    exact starts

/-- A text occurs on one side of a byte that is not in it. -/
theorem infix_of_not_mem {text front rest : List UInt8} {byte : UInt8}
    (occurs : text <:+: front ++ byte :: rest) (other : byte ∉ text) :
    text <:+: front ∨ text <:+: rest := by
  obtain ⟨before, behind, whole⟩ := occurs
  rcases List.append_eq_append_iff.mp whole with ⟨middle, front_eq, _⟩ | ⟨middle, text_eq, cons_eq⟩
  · exact .inl ⟨before, middle, front_eq.symm⟩
  · cases middle with
    | nil =>
      rw [List.append_nil] at text_eq
      exact .inl ⟨before, [], by rw [List.append_nil, text_eq]⟩
    | cons first middle =>
      obtain ⟨rfl, rest_eq⟩ := List.cons.inj cons_eq
      rcases List.append_eq_append_iff.mp text_eq with
        ⟨inner, _, text_eq⟩ | ⟨inner, _, cons_eq⟩
      · exact absurd (by rw [text_eq]; simp) other
      · cases inner with
        | nil => exact absurd (by rw [← List.nil_append text, ← cons_eq]; simp) other
        | cons _ inner =>
          obtain ⟨_, middle_eq⟩ := List.cons.inj cons_eq
          exact .inr ⟨inner, behind, by rw [rest_eq, middle_eq]; rfl⟩

/-! ### Lines -/

/-- The device is the first field of a line of `/etc/mtab`. -/
def Listed (content device : List UInt8) : Prop :=
  ∃ line ∈ content.splitOn 0x0a, ∃ blank, (blank = 0x20 ∨ blank = 0x09) ∧
    device ++ [blank] <+: line

/-- The first line and what comes behind it. -/
theorem splitOn_cases (content : List UInt8) :
    (content.takeWhile (· ≠ 0x0a) = content ∧ content.splitOn 0x0a = [content]) ∨
      ∃ rest, content = content.takeWhile (· ≠ 0x0a) ++ 0x0a :: rest ∧
        content.splitOn 0x0a = content.takeWhile (· ≠ 0x0a) :: rest.splitOn 0x0a := by
  induction content with
  | nil => exact .inl ⟨rfl, rfl⟩
  | cons byte content inductionHypothesis =>
    rw [List.splitOn_cons_eq_if_modifyHead]
    by_cases newline : byte = 0x0a
    · rw [newline, if_pos (beq_self_eq_true _), List.takeWhile_cons_of_neg (by simp)]
      exact .inr ⟨content, rfl, rfl⟩
    · rw [if_neg (by simpa using newline), List.takeWhile_cons_of_pos (by simpa using newline)]
      rcases inductionHypothesis with ⟨whole, lines⟩ | ⟨rest, whole, lines⟩
      · rw [whole, lines]
        exact .inl ⟨rfl, rfl⟩
      · refine .inr ⟨rest, ?_, ?_⟩
        · rw [List.cons_append, ← whole]
        · rw [lines]
          rfl

/-- The first field of a line that begins with a text and a blank is the text. -/
theorem firstField_eq {device line : List UInt8} {blank : UInt8}
    (blanks : blank = 0x20 ∨ blank = 0x09)
    (field : ∀ byte ∈ device, byte ≠ 0 ∧ byte ≠ 0x20 ∧ byte ≠ 0x09)
    (starts : device ++ [blank] <+: line) : firstField line = device := by
  obtain ⟨rest, rfl⟩ := starts
  have stops : ¬ (blank ≠ 0 ∧ blank ≠ 0x20 ∧ blank ≠ 0x09) := by
    rcases blanks with rfl | rfl <;> decide
  rw [firstField, List.append_assoc, List.takeWhile_append_of_pos (by simpa using field),
    List.singleton_append, List.takeWhile_cons_of_neg (by simpa using stops), List.append_nil]

/-- A device that is listed is found, however the lines are cut into pieces. -/
theorem mountedLoop_mounted {device : List UInt8} (short : device.length < 511)
    (field : ∀ byte ∈ device, byte ≠ 0 ∧ byte ≠ 0x20 ∧ byte ≠ 0x09) {content : List UInt8}
    (listed : Listed content device) (lines : Nat) :
    (mountedLoop device content lines).2 = .mounted := by
  induction content, lines using mountedLoop.induct device with
  | case1 lines =>
    obtain ⟨line, mem, blank, _, starts⟩ := listed
    rw [List.splitOn_nil, List.mem_singleton] at mem
    rw [mem, List.prefix_nil] at starts
    exact absurd starts (by simp)
  | case2 content lines nonempty found =>
    rw [mountedLoop, dif_neg nonempty, if_pos found]
  | case3 content lines nonempty other inductionHypothesis =>
    rw [mountedLoop, dif_neg nonempty, if_neg other]
    refine inductionHypothesis ?_
    obtain ⟨line, mem, blank, blanks, starts⟩ := listed
    refine ⟨line, ?_, blank, blanks, starts⟩
    have piece : ∀ first, device ++ [blank] <+: first → first <+: content →
        first.length ≤ (content.takeWhile (· ≠ 0x0a)).length → False := by
      intro first begins front within
      refine other (firstField_eq blanks field ?_)
      rw [fgets, List.splitAt_eq, List.prefix_take_iff]
      refine ⟨begins.trans front, ?_⟩
      have fits := begins.length_le
      rw [List.length_append, List.length_singleton] at fits ⊢
      rw [sizeofLine]
      omega
    rcases splitOn_cases content with ⟨whole, one⟩ | ⟨rest, whole, more⟩
    · rw [one, List.mem_singleton] at mem
      rw [mem] at starts
      exact (piece content starts (List.prefix_refl _) (by rw [whole])).elim
    · rw [more, List.mem_cons] at mem
      rcases mem with rfl | mem
      · exact (piece _ starts (List.takeWhile_prefix _) le_rfl).elim
      · rw [fgets, List.splitAt_eq, sizeofLine]
        generalize content.takeWhile (· ≠ 0x0a) = first at whole ⊢
        rw [whole]
        by_cases fits : first.length < 511
        · have cut : min (512 - 1) (first.length + 1) = first.length + 1 := by omega
          rw [cut, ← List.singleton_append, ← List.append_assoc, List.drop_left' (by simp)]
          exact mem
        · have cut : min (512 - 1) (first.length + 1) = 511 := by omega
          rw [cut, List.drop_append_of_le_length (by omega), List.splitOn_append_cons_self]
          exact List.mem_append_right _ mem
/-- A device that is listed is not taken to be unmounted, nor is any when there is no line. -/
theorem isMounted_ne {mtab : Option (List UInt8)} {device : List UInt8}
    (short : device.length < 511)
    (field : ∀ byte ∈ device, byte ≠ 0 ∧ byte ≠ 0x20 ∧ byte ≠ 0x09)
    (guarded : ∀ content, mtab = some content → content = [] ∨ Listed content device) :
    isMounted mtab device ≠ .notMounted := by
  cases mtab with
  | none => exact fun same => nomatch same
  | some content =>
    rw [isMounted]
    rcases guarded content rfl with rfl | listed
    · rw [mountedLoop, dif_pos rfl]
      exact fun same => nomatch same
    · rw [mountedLoop_mounted short field listed]
      split <;> exact fun same => nomatch same

/-! ### The policy -/

/-- The device in `Volume{...}`. -/
theorem devpath_append (device : List UInt8) :
    devpath (volumePrefix ++ device ++ [0x7d]) = device := by
  have length : device.length = (volumePrefix ++ (device ++ [0x7d])).length - 8 := by
    rw [List.length_append, List.length_append, show volumePrefix.length = 7 from rfl,
      List.length_singleton]
    omega
  rw [devpath, List.append_assoc, List.drop_left' (show volumePrefix.length = 7 from rfl),
    List.take_left' length]

/-- A path that contains the name of the log contains it between the braces. -/
theorem containsIgnoringCase_volume {device : List UInt8}
    (absent : containsIgnoringCase device bootexLog = false) :
    containsIgnoringCase (volumePrefix ++ device ++ [0x7d]) bootexLog = false := by
  rw [← Bool.not_eq_true, containsIgnoringCase_iff] at absent ⊢
  intro occurs
  have parts : (volumePrefix ++ device ++ [0x7d]).map tolower =
      (bytes "volume") ++ 0x7b :: (device.map tolower ++ 0x7d :: []) := by
    rw [List.map_append, List.map_append, List.append_assoc]
    rfl
  rw [parts] at occurs
  rcases infix_of_not_mem occurs (by decide) with before | behind
  · exact absurd before.length_le (by decide)
  · rcases infix_of_not_mem behind (by decide) with between | behind
    · exact absent between
    · exact absurd behind.length_le (by decide)

/-- What is opened for a path `Volume{...}`. -/
theorem file_of_openVolume {mtab : Option (List UInt8)} {path file : List UInt8}
    {wanted flags : UInt32} (opens : openVolume mtab path wanted = .file file flags) :
    path.getLast? ≠ some 0x5c ∧ file = (path.drop 7).dropLast := by
  rw [openVolume] at opens
  split at opens
  · exact nomatch opens
  · next last =>
    split at opens
    · exact nomatch opens
    · split at opens
      · exact nomatch opens
      · exact nomatch opens
      · refine ⟨last, ?_⟩
        rw [← (Opening.file.inj opens).1, devpath, List.dropLast_eq_take, List.length_drop,
          Nat.sub_sub]

/-- The only files that `unix_open` opens for more than reading are the null device, the test
image, and the device in a path `Volume{...}`, which it refuses where the device is listed in
`/etc/mtab`, or where that file cannot be read or is empty. -/
theorem write_policy (mtab : Option (List UInt8)) (desiredAccess : UInt32) :
    (∀ path file flags,
      unixOpen mtab path (ntflagsUnix desiredAccess) = .file file flags → flags ≠ oRdonly →
        file = devNull ∨ file = diskImg ∨ startsIgnoringCase path volumePrefix ∧
          path.getLast? ≠ some 0x5c ∧ file = (path.drop 7).dropLast) ∧
      ∀ device : List UInt8, device.length < 511 →
        (∀ byte ∈ device, byte ≠ 0 ∧ byte ≠ 0x20 ∧ byte ≠ 0x09) →
          containsIgnoringCase device bootexLog = false →
            (∀ content, mtab = some content → content = [] ∨ Listed content device) →
              unixOpen mtab (volumePrefix ++ device ++ [0x7d]) (ntflagsUnix desiredAccess) =
                .refused := by
  refine ⟨fun path file flags opens writes => ?_, fun device short field absent guarded => ?_⟩
  · generalize ntflagsUnix desiredAccess = wanted at opens
    rw [unixOpen] at opens
    split at opens
    · exact .inl (Opening.file.inj opens).1.symm
    split at opens
    · next starts =>
      obtain ⟨last, file_eq⟩ := file_of_openVolume opens
      exact .inr (.inr ⟨starts, last, file_eq⟩)
    split at opens
    · exact .inr (.inl (Opening.file.inj opens).1.symm)
    split at opens
    · exact .inr (.inl (Opening.file.inj opens).1.symm)
    split at opens
    · split at opens <;> exact nomatch opens
    split at opens
    · exact nomatch opens
    split at opens
    · next reads => exact absurd ((Opening.file.inj opens).2.symm.trans reads) writes
    · exact nomatch opens
  · have starts : startsIgnoringCase (volumePrefix ++ device ++ [0x7d]) volumePrefix = true := by
      rw [List.append_assoc]
      exact startsIgnoringCase_append _ _
    have last : (volumePrefix ++ device ++ [0x7d]).getLast? ≠ some 0x5c := by
      rw [List.getLast?_concat]
      decide
    have long : ¬ (volumePrefix ++ device ++ [0x7d]).length < 8 := by
      rw [List.length_append, List.length_append, show volumePrefix.length = 7 from rfl,
        List.length_singleton]
      omega
    rw [unixOpen, containsIgnoringCase_volume absent, if_neg Bool.false_ne_true, if_pos starts,
      openVolume, if_neg last, if_neg long, devpath_append]
    have refused := isMounted_ne short field guarded
    cases mounted : isMounted mtab device with
    | error | mounted => rfl
    | notMounted => exact absurd mounted refused

/-- With one device mounted: that one is refused, and what a path opens is the other. -/
theorem write_policy_example :
    (∀ file flags, unixOpen (some (bytes "/dev/sda1 / ext4\n"))
        (bytes "Volume\x7b/dev/sdb1\x7d") (ntflagsUnix 0x40000000) = .file file flags →
      flags ≠ oRdonly → file = devNull ∨ file = diskImg ∨ file = bytes "/dev/sdb1") ∧
      unixOpen (some (bytes "/dev/sda1 / ext4\n")) (bytes "Volume\x7b/dev/sda1\x7d")
        (ntflagsUnix 0x40000000) = .refused := by
  obtain ⟨opened, refused⟩ := write_policy (some (bytes "/dev/sda1 / ext4\n")) 0x40000000
  refine ⟨fun file flags opens writes => ?_, ?_⟩
  · rcases opened _ file flags opens writes with null | image | ⟨_, _, device⟩
    · exact .inl null
    · exact .inr (.inl image)
    · exact .inr (.inr (device.trans (by decide)))
  · have plain : (bytes "/dev/sda1").all fun byte => byte ≠ 0 ∧ byte ≠ 0x20 ∧ byte ≠ 0x09 := by
      decide
    refine refused (bytes "/dev/sda1") (by decide)
      (fun byte member => of_decide_eq_true (List.all_eq_true.mp plain byte member)) (by decide)
      fun content same => ?_
    obtain rfl := Option.some.inj same
    exact .inr ⟨bytes "/dev/sda1 / ext4", by decide, 0x20, by decide, by decide⟩

end Nloader.Open
