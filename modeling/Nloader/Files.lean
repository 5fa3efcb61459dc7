/-
This file models `NtReadFile` and `NtWriteFile` of `src/libs/ntdll/io.c` on a regular file that is
open: its bytes and the position of the descriptor. `lseek` fails for a negative target and leaves
the position; `read` and `write` transfer as many bytes as the system lets them, or fail.

Both calls compare an explicit offset with the size that was recorded when the file was opened,
from above only, and do not look at the result of `lseek`. So a write that begins inside of the
file may end behind it, and a negative offset is not refused but taken for the current position.
-/

import Nloader.Events

namespace Nloader.Files

open Nloader.Events

/-! ### A file and its descriptor -/

/-- A regular file and the position of its descriptor. -/
structure File where
  bytes : List UInt8
  position : Nat
  deriving DecidableEq

/-- What a handle keeps of an open file: `st.st_size`, and whether it was opened with
`O_APPEND`. -/
structure Handle where
  stSize : Nat
  append : Bool

/-- The most that Linux transfers in one call. -/
def maxRwCount : Nat := 0x7ffff000

/-- `lseek` with `SEEK_SET`. -/
def lseek (file : File) (offset : Int64) : File :=
  if 0 ≤ offset then { file with position := offset.toInt.toNat } else file

/-- `read`, of at most `limit` bytes. -/
def read (file : File) (count limit : Nat) : List UInt8 × File :=
  let data := (file.bytes.drop file.position).take (min count (min maxRwCount limit))
  (data, { file with position := file.position + data.length })

/-- The bytes of a file after a write at a position; a gap before it is filled with zeros. -/
def writeAt (bytes : List UInt8) (start : Nat) (data : List UInt8) : List UInt8 :=
  (List.range (max bytes.length (start + data.length))).map fun index =>
    if start ≤ index ∧ index < start + data.length then data.getD (index - start) 0
    else bytes.getD index 0

/-- Where a write begins. -/
def writeStart (handle : Handle) (file : File) : Nat :=
  if handle.append then file.bytes.length else file.position

/-- The bytes that `write` transfers, of at most `limit`. -/
def transferred (data : List UInt8) (limit : Nat) : List UInt8 :=
  data.take (min maxRwCount limit)

/-- `write`, of at most `limit` bytes. -/
def write (handle : Handle) (file : File) (data : List UInt8) (limit : Nat) : Nat × File :=
  let data := transferred data limit
  if data = [] then (0, file)
  else
    (data.length,
      { bytes := writeAt file.bytes (writeStart handle file) data
        position := writeStart handle file + data.length })

/-! ### The calls -/

/-- `FILE_USE_FILE_POINTER_POSITION`. -/
def fileUseFilePointerPosition : Int64 := -2

/-- The check of `ByteOffset` and `lseek`: the file with the position at which the call goes on, or
nothing where the offset is refused. -/
def seek (handle : Handle) (file : File) (byteOffset : Option Int64) : Option File :=
  match byteOffset with
  | none => some file
  | some quadPart =>
    if quadPart = fileUseFilePointerPosition then some file
    else if (handle.stSize : Int) < quadPart.toInt then none
    else some (lseek file quadPart)

/-- A call on a handle. `Buffer` is given by its first `Length` bytes, and `limit` is what the
system lets the call transfer, or that `read` or `write` fails. -/
inductive Call where
  | ntReadFile (buffer : List UInt8) (byteOffset : Option Int64) (limit : Option Nat)
  | ntWriteFile (buffer : List UInt8) (byteOffset : Option Int64) (limit : Option Nat)

/-- What a call leaves: its status, what it has stored to `Information`, the file and the
buffer. -/
structure Outcome where
  status : Status
  information : Option Nat
  file : File
  buffer : List UInt8
  deriving DecidableEq

/-- `NtReadFile` on a regular file. -/
def ntReadFile (handle : Handle) (file : File) (buffer : List UInt8) (byteOffset : Option Int64)
    (limit : Option Nat) : Outcome :=
  match seek handle file byteOffset with
  | none => ⟨statusInvalidParameter, none, file, buffer⟩
  | some file =>
    match limit with
    | none => ⟨statusUnsuccessful, none, file, buffer⟩
    | some limit =>
      let (data, file) := read file buffer.length limit
      ⟨statusSuccess, some data.length, file, data ++ buffer.drop data.length⟩

/-- `NtWriteFile` on a regular file. -/
def ntWriteFile (handle : Handle) (file : File) (buffer : List UInt8) (byteOffset : Option Int64)
    (limit : Option Nat) : Outcome :=
  match seek handle file byteOffset with
  | none => ⟨statusInvalidParameter, none, file, buffer⟩
  | some file =>
    match limit with
    | none => ⟨statusUnsuccessful, none, file, buffer⟩
    | some limit =>
      let (count, file) := write handle file buffer limit
      ⟨statusSuccess, some count, file, buffer⟩

/-- A call on the handle. -/
def perform (handle : Handle) (file : File) : Call → Outcome
  | .ntReadFile buffer byteOffset limit => ntReadFile handle file buffer byteOffset limit
  | .ntWriteFile buffer byteOffset limit => ntWriteFile handle file buffer byteOffset limit

/-- A file that has just been opened. -/
def opened (bytes : List UInt8) : File := { bytes := bytes, position := 0 }

/-! ### What the calls do to the file -/

theorem getElem?_writeAt (bytes : List UInt8) (start : Nat) (data : List UInt8) (index : Nat) :
    (writeAt bytes start data)[index]? =
      if index < max bytes.length (start + data.length) then
        some (if start ≤ index ∧ index < start + data.length then data.getD (index - start) 0
          else bytes.getD index 0)
      else none := by
  rw [writeAt, List.getElem?_map]
  by_cases less : index < max bytes.length (start + data.length)
  · rw [List.getElem?_range less, if_pos less]
    rfl
  · rw [List.getElem?_eq_none (by simpa using less), if_neg less]
    rfl

theorem length_writeAt (bytes : List UInt8) (start : Nat) (data : List UInt8) :
    (writeAt bytes start data).length = max bytes.length (start + data.length) := by
  rw [writeAt, List.length_map, List.length_range]

theorem bytes_lseek (file : File) (offset : Int64) : (lseek file offset).bytes = file.bytes := by
  rw [lseek]
  split <;> rfl

theorem bytes_seek {handle : Handle} {file sought : File} {byteOffset : Option Int64}
    (seeks : seek handle file byteOffset = some sought) : sought.bytes = file.bytes := by
  rw [seek.eq_def] at seeks
  split at seeks
  · rw [Option.some.inj seeks]
  · split at seeks
    · rw [Option.some.inj seeks]
    · split at seeks
      · exact nomatch seeks
      · rw [← Option.some.inj seeks, bytes_lseek]

/-- A read changes no byte of the file. -/
theorem bytes_ntReadFile (handle : Handle) (file : File) (buffer : List UInt8)
    (byteOffset : Option Int64) (limit : Option Nat) :
    (ntReadFile handle file buffer byteOffset limit).file.bytes = file.bytes := by
  rw [ntReadFile]
  cases seeks : seek handle file byteOffset with
  | none => rfl
  | some sought =>
    have same := bytes_seek seeks
    cases limit with
    | none => exact same
    | some limit => exact same

/-- A write puts what it transfers where it begins. -/
theorem bytes_write (handle : Handle) (file : File) {data : List UInt8} {limit : Nat}
    (some_bytes : transferred data limit ≠ []) :
    (write handle file data limit).2.bytes =
      writeAt file.bytes (writeStart handle file) (transferred data limit) := by
  rw [write, if_neg some_bytes]

theorem write_nothing (handle : Handle) (file : File) {data : List UInt8} {limit : Nat}
    (nothing : transferred data limit = []) : write handle file data limit = (0, file) := by
  rw [write, if_pos nothing]

/-- A write tells how much it has transferred. -/
theorem count_write (handle : Handle) (file : File) (data : List UInt8) (limit : Nat) :
    (write handle file data limit).1 = (transferred data limit).length := by
  by_cases nothing : transferred data limit = []
  · rw [write_nothing handle file nothing, nothing]
    rfl
  · rw [write, if_neg nothing]

/-! ### The length of the file -/

/-- The calls of a list, the latest first. -/
def performAll (handle : Handle) (file : File) : List Call → File
  | [] => file
  | call :: earlier => (perform handle (performAll handle file earlier) call).file

/-- A write that is not refused ends inside of the size that was recorded, or transfers
nothing. -/
def Within (handle : Handle) (file : File) : Call → Prop
  | .ntReadFile .. => True
  | .ntWriteFile buffer byteOffset limit =>
    ∀ sought most, seek handle file byteOffset = some sought → limit = some most →
      transferred buffer most = [] ∨
        writeStart handle sought + (transferred buffer most).length ≤ handle.stSize

/-- A call keeps the length of a file exactly when it stays within it. -/
theorem length_perform_iff {handle : Handle} {file : File} (call : Call)
    (length : file.bytes.length = handle.stSize) :
    (perform handle file call).file.bytes.length = handle.stSize ↔ Within handle file call := by
  cases call with
  | ntReadFile buffer byteOffset limit =>
    rw [perform, bytes_ntReadFile]
    exact ⟨fun _ => trivial, fun _ => length⟩
  | ntWriteFile buffer byteOffset limit =>
    rw [perform, ntWriteFile, Within]
    cases seeks : seek handle file byteOffset with
    | none => exact ⟨fun _ _ _ same => (nomatch same), fun _ => length⟩
    | some sought =>
      have sought_length : sought.bytes.length = handle.stSize := by rw [bytes_seek seeks, length]
      cases limit with
      | none => exact ⟨fun _ _ _ _ same => (nomatch same), fun _ => sought_length⟩
      | some most =>
        by_cases nothing : transferred buffer most = []
        · simp only [write_nothing handle sought nothing, sought_length, true_iff]
          intro _ other _ same
          rw [← Option.some.inj same]
          exact .inl nothing
        · simp only [bytes_write handle sought nothing, length_writeAt, sought_length]
          constructor
          · intro same other more sought_eq most_eq
            obtain rfl := Option.some.inj sought_eq
            obtain rfl := Option.some.inj most_eq
            exact .inr ((le_max_right _ _).trans same.le)
          · intro within
            exact max_eq_left ((within sought most rfl rfl).resolve_left nothing)

/-- A file keeps the length it was opened with in every state of a run exactly when every call of
the run stays within it. -/
theorem never_enlarged_iff (bytes : List UInt8) (append : Bool) (calls : List Call) :
    (∀ earlier, earlier <:+ calls →
      (performAll ⟨bytes.length, append⟩ (opened bytes) earlier).bytes.length = bytes.length) ↔
      ∀ call earlier, call :: earlier <:+ calls → Within ⟨bytes.length, append⟩
        (performAll ⟨bytes.length, append⟩ (opened bytes) earlier) call := by
  constructor
  · intro lengths call earlier suffix
    have before := lengths earlier ((List.suffix_cons call earlier).trans suffix)
    exact (length_perform_iff call before).mp (lengths (call :: earlier) suffix)
  · intro within earlier suffix
    induction earlier with
    | nil => rfl
    | cons call earlier inductionHypothesis =>
      have before := inductionHypothesis ((List.suffix_cons call earlier).trans suffix)
      exact (length_perform_iff call before).mpr (within call earlier suffix)

/-- A write at the end of a file enlarges it. -/
theorem not_never_enlarged :
    ¬ ∀ earlier, earlier <:+ [Call.ntWriteFile [7, 8] (some 4) (some 512)] →
      (performAll ⟨4, false⟩ (opened [1, 2, 3, 4]) earlier).bytes.length = 4 := by
  intro lengths
  exact absurd (lengths _ (List.suffix_refl _)) (by decide)

/-! ### Explicit offsets -/

/-- The buffer of a call. -/
def Call.buffer : Call → List UInt8
  | .ntReadFile buffer _ _ | .ntWriteFile buffer _ _ => buffer

/-- The offset of a call. -/
def Call.byteOffset : Call → Option Int64
  | .ntReadFile _ byteOffset _ | .ntWriteFile _ byteOffset _ => byteOffset

/-- What a call has transferred from an offset on: a read has put bytes of the file into the
buffer, a write bytes of the buffer into the file, and neither has touched another byte. -/
def Transfers (file : File) (offset count : Nat) (outcome : Outcome) : Call → Prop
  | .ntReadFile buffer _ _ =>
    count ≤ buffer.length ∧ offset + count ≤ file.bytes.length ∧
      outcome.file.bytes = file.bytes ∧
        outcome.buffer = (file.bytes.drop offset).take count ++ buffer.drop count
  | .ntWriteFile buffer _ _ =>
    count ≤ buffer.length ∧ outcome.buffer = buffer ∧
      ∀ index, outcome.file.bytes[index]? =
        if offset ≤ index ∧ index < offset + count then buffer[index - offset]?
        else file.bytes[index]?

/-- A call honours its offset: one outside of the file is refused, and a call that succeeds has
transferred the bytes from the offset on. -/
structure Honours (handle : Handle) (file : File) (offset : Int64) (call : Call) : Prop where
  refused : offset < 0 ∨ (handle.stSize : Int) < offset.toInt →
    (perform handle file call).status = statusInvalidParameter ∧
      (perform handle file call).file = file ∧
        (perform handle file call).buffer = call.buffer
  exact : (perform handle file call).status = statusSuccess →
    ∃ count, (perform handle file call).information = some count ∧
      Transfers file offset.toInt.toNat count (perform handle file call) call

/-- A write on a descriptor with `O_APPEND` that transfers something begins at the end. -/
def BeginsAt (handle : Handle) (file : File) (offset : Int64) : Call → Prop
  | .ntReadFile .. => True
  | .ntWriteFile buffer _ limit =>
    handle.append = true → offset.toInt ≤ handle.stSize → ∀ most, limit = some most →
      transferred buffer most = [] ∨ offset.toInt = file.bytes.length

/-- No call makes a file shorter than it was when it was opened. -/
theorem length_le_perform (handle : Handle) (file : File) (call : Call) :
    file.bytes.length ≤ (perform handle file call).file.bytes.length := by
  cases call with
  | ntReadFile buffer byteOffset limit => rw [perform, bytes_ntReadFile]
  | ntWriteFile buffer byteOffset limit =>
    rw [perform, ntWriteFile]
    cases seeks : seek handle file byteOffset with
    | none => exact le_rfl
    | some sought =>
      have same := bytes_seek seeks
      cases limit with
      | none => exact (congrArg List.length same).ge
      | some most =>
        by_cases nothing : transferred buffer most = []
        · simp only [write_nothing handle sought nothing, same, le_refl]
        · simp only [bytes_write handle sought nothing, length_writeAt, same, le_max_left]

theorem stSize_le_performAll (bytes : List UInt8) (append : Bool) (calls : List Call) :
    bytes.length ≤
      (performAll ⟨bytes.length, append⟩ (opened bytes) calls).bytes.length := by
  induction calls with
  | nil => exact le_rfl
  | cons call calls inductionHypothesis =>
    exact inductionHypothesis.trans (length_le_perform _ _ call)

theorem nonnegative_iff (offset : Int64) : 0 ≤ offset ↔ 0 ≤ offset.toInt :=
  Int64.le_iff_toInt_le

/-- An explicit offset is refused behind the recorded size. -/
theorem seek_refused {handle : Handle} (file : File) {offset : Int64}
    (other : offset ≠ fileUseFilePointerPosition) (behind : (handle.stSize : Int) < offset.toInt) :
    seek handle file (some offset) = none := by
  simp only [seek, if_neg other, if_pos behind]

theorem seek_accepted {handle : Handle} (file : File) {offset : Int64}
    (other : offset ≠ fileUseFilePointerPosition) (inside : offset.toInt ≤ handle.stSize) :
    seek handle file (some offset) = some (lseek file offset) := by
  simp only [seek, if_neg other, if_neg (not_lt.mpr inside)]

theorem perform_of_refused {handle : Handle} {file : File} {call : Call} {offset : Int64}
    (explicit : call.byteOffset = some offset) (refused : seek handle file (some offset) = none) :
    perform handle file call = ⟨statusInvalidParameter, none, file, call.buffer⟩ := by
  cases call with
  | ntReadFile buffer byteOffset limit =>
    obtain rfl : byteOffset = some offset := explicit
    simp only [perform, ntReadFile, refused, Call.buffer]
  | ntWriteFile buffer byteOffset limit =>
    obtain rfl : byteOffset = some offset := explicit
    simp only [perform, ntWriteFile, refused, Call.buffer]

/-- A call at an offset that passes the check is not answered with
`STATUS_INVALID_PARAMETER`. -/
theorem status_of_accepted {handle : Handle} {file sought : File} {call : Call} {offset : Int64}
    (explicit : call.byteOffset = some offset)
    (accepted : seek handle file (some offset) = some sought) :
    (perform handle file call).status ≠ statusInvalidParameter := by
  have unsuccessful : statusUnsuccessful ≠ statusInvalidParameter := by decide
  have success : statusSuccess ≠ statusInvalidParameter := by decide
  cases call with
  | ntReadFile buffer byteOffset limit =>
    obtain rfl : byteOffset = some offset := explicit
    simp only [perform, ntReadFile, accepted]
    cases limit with
    | none => exact unsuccessful
    | some most => exact success
  | ntWriteFile buffer byteOffset limit =>
    obtain rfl : byteOffset = some offset := explicit
    simp only [perform, ntWriteFile, accepted]
    cases limit with
    | none => exact unsuccessful
    | some most => exact success

/-- A read at an offset of the file gives its bytes from there on. -/
theorem transfers_ntReadFile {handle : Handle} {file : File} {offset : Int64}
    (other : offset ≠ fileUseFilePointerPosition) (nonnegative : 0 ≤ offset)
    (inside : offset.toInt ≤ handle.stSize) (longer : handle.stSize ≤ file.bytes.length)
    (buffer : List UInt8) (most : Nat) :
    let outcome := ntReadFile handle file buffer (some offset) (some most)
    ∃ count, outcome.information = some count ∧
      Transfers file offset.toInt.toNat count outcome
        (.ntReadFile buffer (some offset) (some most)) := by
  intro outcome
  have sought : lseek file offset = { file with position := offset.toInt.toNat } :=
    if_pos nonnegative
  have outcome_eq : outcome =
      let read := read { file with position := offset.toInt.toNat } buffer.length most
      ⟨statusSuccess, some read.1.length, read.2, read.1 ++ buffer.drop read.1.length⟩ := by
    simp only [outcome, ntReadFile, seek_accepted file other inside, sought]
  rw [outcome_eq]
  refine ⟨_, rfl, ?_, ?_, rfl, ?_⟩
  · simp only [read, List.length_take, List.length_drop]
    omega
  · simp only [read, List.length_take, List.length_drop]
    omega
  · simp only [read, List.length_take, ← List.take_eq_take_min]

/-- A write inside of the recorded size that transfers something changes the bytes from its
beginning on, and no other. -/
theorem getElem?_write {file : File} {data : List UInt8} {start index : Nat}
    (inside : start ≤ file.bytes.length) :
    (writeAt file.bytes start data)[index]? =
      if start ≤ index ∧ index < start + data.length then data[index - start]?
      else file.bytes[index]? := by
  rw [getElem?_writeAt]
  by_cases within : start ≤ index ∧ index < start + data.length
  · have less : index - start < data.length := by omega
    rw [if_pos (by omega), if_pos within, if_pos within, List.getD_eq_getElem?_getD,
      List.getElem?_eq_getElem less]
    rfl
  · rw [if_neg within, if_neg within]
    by_cases old : index < file.bytes.length
    · rw [if_pos (lt_max_of_lt_left old), List.getD_eq_getElem?_getD, List.getElem?_eq_getElem old]
      rfl
    · rw [if_neg (by omega), List.getElem?_eq_none (not_lt.mp old)]

/-- A write at an offset of the file puts the bytes there, if that is where it begins. -/
theorem transfers_ntWriteFile {handle : Handle} {file : File} {offset : Int64}
    (other : offset ≠ fileUseFilePointerPosition) (nonnegative : 0 ≤ offset)
    (inside : offset.toInt ≤ handle.stSize) (longer : handle.stSize ≤ file.bytes.length)
    {buffer : List UInt8} {most : Nat}
    (begins : BeginsAt handle file offset (.ntWriteFile buffer (some offset) (some most))) :
    let outcome := ntWriteFile handle file buffer (some offset) (some most)
    ∃ count, outcome.information = some count ∧
      Transfers file offset.toInt.toNat count outcome
        (.ntWriteFile buffer (some offset) (some most)) := by
  intro outcome
  have sought : lseek file offset = { file with position := offset.toInt.toNat } :=
    if_pos nonnegative
  have outcome_eq : outcome =
      let write := write handle { file with position := offset.toInt.toNat } buffer most
      ⟨statusSuccess, some write.1, write.2, buffer⟩ := by
    simp only [outcome, ntWriteFile, seek_accepted file other inside, sought]
  rw [outcome_eq]
  refine ⟨_, rfl, ?_, rfl, fun index => ?_⟩
  · rw [count_write, transferred, List.length_take]
    exact min_le_right _ _
  · rw [count_write]
    by_cases nothing : transferred buffer most = []
    · rw [write_nothing _ _ nothing, nothing, if_neg (by simp)]
    · have start : writeStart handle { file with position := offset.toInt.toNat } =
          offset.toInt.toNat := by
        rw [writeStart]
        split
        · rename_i append
          have at_end := (begins append inside most rfl).resolve_left nothing
          rw [at_end]
          rfl
        · rfl
      have no_gap : offset.toInt.toNat ≤ file.bytes.length := by omega
      rw [bytes_write _ _ nothing, start, getElem?_write no_gap]
      by_cases within : offset.toInt.toNat ≤ index ∧
          index < offset.toInt.toNat + (transferred buffer most).length
      · rw [if_pos within, if_pos within, transferred, List.getElem?_take_of_lt]
        rw [transferred, List.length_take] at within
        omega
      · rw [if_neg within, if_neg within]

/-- A write that begins at the end of the file has not begun before it. -/
theorem at_end_of_transfers {handle : Handle} {file : File} {offset : Int64}
    (other : offset ≠ fileUseFilePointerPosition) (append : handle.append = true)
    (inside : offset.toInt ≤ handle.stSize) (longer : handle.stSize ≤ file.bytes.length)
    (nonnegative : 0 ≤ offset) {buffer : List UInt8} {most count : Nat}
    (some_bytes : transferred buffer most ≠ [])
    (information :
      (ntWriteFile handle file buffer (some offset) (some most)).information = some count)
    (transfers : Transfers file offset.toInt.toNat count
      (ntWriteFile handle file buffer (some offset) (some most))
      (.ntWriteFile buffer (some offset) (some most))) :
    offset.toInt = file.bytes.length := by
  have sought_bytes := bytes_lseek file offset
  have outcome_eq : ntWriteFile handle file buffer (some offset) (some most) =
      let write := write handle (lseek file offset) buffer most
      ⟨statusSuccess, some write.1, write.2, buffer⟩ := by
    simp only [ntWriteFile, seek_accepted file other inside]
  rw [outcome_eq] at information transfers
  have count_eq : (transferred buffer most).length = count := by
    rw [← count_write handle (lseek file offset)]
    exact Option.some.inj information
  have positive : 0 < count := by
    rw [← count_eq]
    exact List.length_pos_iff.mpr some_bytes
  have start : writeStart handle (lseek file offset) = file.bytes.length := by
    rw [writeStart, if_pos append, sought_bytes]
  by_contra different
  have nonnegative := (nonnegative_iff offset).mp nonnegative
  have before : offset.toInt.toNat + count ≤ file.bytes.length + count - 1 := by omega
  obtain ⟨_, _, bytes⟩ := transfers
  have last := bytes (file.bytes.length + count - 1)
  rw [if_neg (fun within => absurd within.2 (not_lt.mpr before)),
    List.getElem?_eq_none (l := file.bytes) (by omega), List.getElem?_eq_none_iff] at last
  simp only [bytes_write _ _ some_bytes, length_writeAt, start, count_eq] at last
  omega

/-- In every state that calls reach, an explicit offset is honoured exactly when it is not negative
and a write on a descriptor with `O_APPEND` begins at it. -/
theorem offset_honoured_iff (bytes : List UInt8) (append : Bool) (calls : List Call)
    {call : Call} {offset : Int64} (explicit : call.byteOffset = some offset)
    (other : offset ≠ fileUseFilePointerPosition) :
    let handle := ⟨bytes.length, append⟩
    let file := performAll handle (opened bytes) calls
    Honours handle file offset call ↔ 0 ≤ offset ∧ BeginsAt handle file offset call := by
  intro handle file
  have longer : handle.stSize ≤ file.bytes.length := stSize_le_performAll bytes append calls
  constructor
  · intro honours
    have nonnegative : 0 ≤ offset := by
      by_contra below
      have negative : offset < 0 := Int64.not_le.mp below
      have inside : offset.toInt ≤ handle.stSize :=
        (not_le.mp (mt (nonnegative_iff offset).mpr below)).le.trans (Int.natCast_nonneg _)
      exact status_of_accepted explicit (seek_accepted file other inside)
        (honours.refused (.inl negative)).1
    refine ⟨nonnegative, ?_⟩
    cases call with
    | ntReadFile buffer byteOffset limit => trivial
    | ntWriteFile buffer byteOffset limit =>
      obtain rfl : byteOffset = some offset := explicit
      intro appends inside most limit_eq
      subst limit_eq
      by_cases nothing : transferred buffer most = []
      · exact .inl nothing
      · have success : (perform handle file
            (.ntWriteFile buffer (some offset) (some most))).status = statusSuccess := by
          simp only [perform, ntWriteFile, seek_accepted file other inside]
        obtain ⟨count, information, transfers⟩ := honours.exact success
        exact .inr (at_end_of_transfers other appends inside longer nonnegative nothing information
          transfers)
  · rintro ⟨nonnegative, begins⟩
    refine ⟨?_, ?_⟩
    · rintro (negative | behind)
      · exact absurd nonnegative (Int64.not_le.mpr negative)
      · rw [perform_of_refused explicit (seek_refused file other behind)]
        exact ⟨rfl, rfl, rfl⟩
    · intro success
      have inside : offset.toInt ≤ handle.stSize := by
        by_contra behind
        rw [perform_of_refused explicit (seek_refused file other (not_le.mp behind))] at success
        exact absurd success (by decide : statusInvalidParameter ≠ statusSuccess)
      cases call with
      | ntReadFile buffer byteOffset limit =>
        obtain rfl : byteOffset = some offset := explicit
        cases limit with
        | none =>
          simp only [perform, ntReadFile, seek_accepted file other inside] at success
          exact absurd success (by decide : statusUnsuccessful ≠ statusSuccess)
        | some most => exact transfers_ntReadFile other nonnegative inside longer buffer most
      | ntWriteFile buffer byteOffset limit =>
        obtain rfl : byteOffset = some offset := explicit
        cases limit with
        | none =>
          simp only [perform, ntWriteFile, seek_accepted file other inside] at success
          exact absurd success (by decide : statusUnsuccessful ≠ statusSuccess)
        | some most => exact transfers_ntWriteFile other nonnegative inside longer begins

/-- A write inside of a file after a read honours its offset. -/
theorem offset_honoured_within :
    let file := performAll ⟨4, false⟩ (opened [1, 2, 3, 4]) [.ntReadFile [0, 0, 0] none (some 512)]
    Honours ⟨4, false⟩ file 1 (.ntWriteFile [7, 8] (some 1) (some 512)) :=
  (offset_honoured_iff [1, 2, 3, 4] false _ rfl (by decide)).mpr
    ⟨by decide, fun append => nomatch append⟩

/-- A read at a negative offset is not refused, but goes on at the position of the descriptor. -/
theorem not_offset_honoured :
    ¬ ∀ call offset, call.byteOffset = some offset → offset ≠ fileUseFilePointerPosition →
      Honours ⟨4, false⟩ (opened [1, 2, 3, 4]) offset call := by
  intro honoured
  have refused := (honoured (.ntReadFile [0, 0] (some (-1)) (some 512)) (-1) rfl
    (by decide)).refused (.inl (by decide))
  exact absurd refused.1 (by decide)

end Nloader.Files
