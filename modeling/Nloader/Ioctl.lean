/-
This file models `NtDeviceIoControlFile` of `src/libs/ntdll/ioctl.c`, and `StorageQueryProperty`, by
what they store to the output buffer and to the `IO_STATUS_BLOCK`. A call that is nested in another
one stores to a part of its output buffer or to a local structure, from which fields are read back.

Every code checks the length before it stores. But the two codes for the drive layout check for one
entry besides the one in the header, and clear three; and two codes succeed without a word about
`Information`, which is then what it was before.
-/

import Nloader.Events

namespace Nloader.Ioctl

open Nloader.Events

/-! ### Stores -/

/-- `STATUS_NOT_IMPLEMENTED`. -/
def statusNotImplemented : Status := 0xC0000002

/-- `STATUS_BUFFER_TOO_SMALL`. -/
def statusBufferTooSmall : Status := 0xC0000023

/-- Bytes that are stored to a buffer. -/
structure Store where
  offset : Nat
  bytes : List UInt8

/-- The bytes of a number of a size. -/
def number (size value : Nat) : List UInt8 :=
  (List.range size).map fun index => .ofNat (value / 256 ^ index)

/-- A field that is stored. -/
def field (offset size value : Nat) : Store := ⟨offset, number size value⟩

/-- `memset` with zero. -/
def clear (offset size : Nat) : Store := ⟨offset, List.replicate size 0⟩

/-- The stores to a part of a buffer. -/
def shift (offset : Nat) (stores : List Store) : List Store :=
  stores.map fun store => { store with offset := offset + store.offset }

/-- A byte of a structure to which has been stored. -/
def byteAt (stores : List Store) (index : Nat) : UInt8 :=
  stores.foldl (fun byte store =>
    if store.offset ≤ index then store.bytes.getD (index - store.offset) byte else byte) 0

/-- A field that is read back from a structure to which has been stored. -/
def fieldAt (stores : List Store) (offset size : Nat) : Nat :=
  (List.range size).foldr (fun index value =>
    (byteAt stores (offset + index)).toNat + 256 * value) 0

/-- `IO_STATUS_BLOCK`. -/
structure IoStatusBlock where
  status : Status
  information : Nat

/-- What a call leaves: the status that it returns and `Information`, and the stores to the output
buffer. -/
structure Outcome where
  iosb : IoStatusBlock
  stores : List Store

/-- A call that succeeds. -/
def succeeds (information : Nat) (stores : List Store) : Outcome :=
  ⟨⟨statusSuccess, information⟩, stores⟩

/-- A call that fails without a store. -/
def fails (status : Status) (information : Nat) : Outcome := ⟨⟨status, information⟩, []⟩

/-- `CTL_CHECK_SIZE`, before the rest of a call. -/
def ctlCheckSize (length size information : Nat) (rest : Outcome) : Outcome :=
  if length < size then fails statusBufferTooSmall information else rest

/-! ### Structures -/

/-- `sizeof(STORAGE_DEVICE_NUMBER)`. -/
def sizeofStorageDeviceNumber : Nat := 12

/-- `sizeof(STORAGE_HOTPLUG_INFO)`. -/
def sizeofStorageHotplugInfo : Nat := 8

/-- `sizeof(STORAGE_ADAPTER_DESCRIPTOR)`. -/
def sizeofStorageAdapterDescriptor : Nat := 32

/-- `sizeof(STORAGE_ACCESS_ALIGNMENT_DESCRIPTOR)`. -/
def sizeofStorageAccessAlignmentDescriptor : Nat := 28

/-- `sizeof(KEYBOARD_INDICATOR_PARAMETERS)`. -/
def sizeofKeyboardIndicatorParameters : Nat := 4

/-- `sizeof(PARTITION_INFORMATION)`. -/
def sizeofPartitionInformation : Nat := 32

/-- `sizeof(PARTITION_INFORMATION_EX)`. -/
def sizeofPartitionInformationEx : Nat := 144

/-- `sizeof(DRIVE_LAYOUT_INFORMATION)`, with one entry. -/
def sizeofDriveLayoutInformation : Nat := 40

/-- `sizeof(DRIVE_LAYOUT_INFORMATION_EX)`, with one entry. -/
def sizeofDriveLayoutInformationEx : Nat := 192

/-- `sizeof(GET_LENGTH_INFORMATION)`. -/
def sizeofGetLengthInformation : Nat := 8

/-- `sizeof(DISK_GEOMETRY)`. -/
def sizeofDiskGeometry : Nat := 24

/-- `sizeof(MOUNTDEV_NAME)`. -/
def sizeofMountdevName : Nat := 4

/-- `systempartition`, with its NUL. -/
def systempartition : List UInt8 :=
  ("\\Device\\Harddisk1\x00".toList.map fun char => [UInt8.ofNat char.toNat, 0]).flatten

/-! ### The codes -/

/-- `IOCTL_STORAGE_GET_DEVICE_NUMBER`. -/
def storageGetDeviceNumber (length information : Nat) : Outcome :=
  ctlCheckSize length sizeofStorageDeviceNumber information <|
    succeeds sizeofStorageDeviceNumber [field 0 4 7, field 4 4 1, field 8 4 1]

/-- `IOCTL_STORAGE_GET_HOTPLUG_INFO`. -/
def storageGetHotplugInfo (length information : Nat) : Outcome :=
  ctlCheckSize length sizeofStorageHotplugInfo information <|
    succeeds sizeofStorageHotplugInfo
      [field 0 4 sizeofStorageHotplugInfo, field 4 1 1, field 5 1 0, field 6 1 1, field 7 1 0]

/-- `PropertyId` and `QueryType` of the `STORAGE_PROPERTY_QUERY` in the input buffer. -/
structure StoragePropertyQuery where
  propertyId : UInt32
  queryType : UInt32

/-- `StorageQueryProperty`. -/
def storageQueryProperty (spq : StoragePropertyQuery) (length information : Nat) : Outcome :=
  if spq.queryType ≠ 0 then fails statusNotImplemented information
  else if spq.propertyId = 1 then
    ctlCheckSize length sizeofStorageAdapterDescriptor information <|
      succeeds sizeofStorageAdapterDescriptor
        [field 4 4 sizeofStorageAdapterDescriptor, field 0 4 sizeofStorageAdapterDescriptor,
          field 8 4 0x10000, field 12 4 0x11, field 16 4 0, field 20 1 0, field 21 1 0,
          field 22 1 0, field 23 1 0, field 24 1 7, field 26 2 1, field 28 2 0]
  else if spq.propertyId = 6 then
    ctlCheckSize length sizeofStorageAccessAlignmentDescriptor information <|
      fails statusNotImplemented information
  else fails statusNotImplemented information

/-- `IOCTL_KEYBOARD_QUERY_INDICATORS`. -/
def keyboardQueryIndicators (length information : Nat) : Outcome :=
  ctlCheckSize length sizeofKeyboardIndicatorParameters information <|
    succeeds sizeofKeyboardIndicatorParameters [field 0 2 0, field 2 2 0]

/-- `Cylinders` of a file of a size. -/
def cylinders (stSize : Nat) : Nat := 1 + stSize / (255 * 63 * 512)

/-- `IOCTL_DISK_GET_DRIVE_GEOMETRY`. -/
def diskGetDriveGeometry (stSize length information : Nat) : Outcome :=
  ctlCheckSize length sizeofDiskGeometry information <|
    let stores := [field 8 4 11, field 12 4 255, field 16 4 63, field 20 4 512,
      field 0 8 (cylinders stSize)]
    if cylinders stSize < 2 then ⟨⟨statusInvalidParameter, information⟩, stores⟩
    else succeeds sizeofDiskGeometry stores

/-- `IOCTL_DISK_GET_PARTITION_INFO_EX`. -/
def diskGetPartitionInfoEx (stSize length information : Nat) : Outcome :=
  ctlCheckSize length sizeofPartitionInformationEx information <|
    let geo := (diskGetDriveGeometry stSize sizeofDiskGeometry information).stores
    let stores := [field 0 4 0, field 24 4 1, field 28 1 0, field 32 1 0, field 33 1 1,
      field 34 1 0, field 36 4 63]
    succeeds sizeofPartitionInformationEx <| stores ++
      [field 8 8 (fieldAt geo 20 4 * fieldAt stores 36 4), field 16 8 stSize]

/-- `IOCTL_DISK_GET_PARTITION_INFO`. -/
def diskGetPartitionInfo (stSize length information : Nat) : Outcome :=
  ctlCheckSize length sizeofPartitionInformation information <|
    let piex := (diskGetPartitionInfoEx stSize sizeofPartitionInformationEx information).stores
    succeeds sizeofPartitionInformation
      [field 0 8 (fieldAt piex 8 8), field 8 8 (fieldAt piex 16 8), field 16 4 (fieldAt piex 36 4),
        field 20 4 (fieldAt piex 24 4), field 24 1 (fieldAt piex 32 1),
        field 25 1 (fieldAt piex 33 1), field 26 1 (fieldAt piex 34 1),
        field 27 1 (fieldAt piex 28 1)]

/-- `IOCTL_DISK_GET_DRIVE_LAYOUT`. -/
def diskGetDriveLayout (stSize length information : Nat) : Outcome :=
  ctlCheckSize length (sizeofDriveLayoutInformation + sizeofPartitionInformation) information <|
    let entry := (diskGetPartitionInfo stSize sizeofPartitionInformation information).stores
    succeeds (sizeofDriveLayoutInformation + sizeofPartitionInformation) <|
      [clear 0 sizeofDriveLayoutInformation, field 0 4 4, field 4 4 0] ++ shift 8 entry ++
        [clear (8 + sizeofPartitionInformation) (sizeofPartitionInformation * 3)]

/-- `IOCTL_DISK_GET_DRIVE_LAYOUT_EX`. -/
def diskGetDriveLayoutEx (stSize length information : Nat) : Outcome :=
  ctlCheckSize length (sizeofDriveLayoutInformationEx + sizeofPartitionInformationEx)
      information <|
    let entry := (diskGetPartitionInfoEx stSize sizeofPartitionInformationEx information).stores
    succeeds (sizeofDriveLayoutInformationEx + sizeofPartitionInformationEx) <|
      [clear 0 sizeofDriveLayoutInformationEx, field 0 4 0, field 4 4 4, field 8 4 0] ++
        shift 48 entry ++
        [clear (48 + sizeofPartitionInformationEx) (sizeofPartitionInformationEx * 3)]

/-- `IOCTL_DISK_GET_LENGTH_INFO`. -/
def diskGetLengthInfo (stSize length information : Nat) : Outcome :=
  ctlCheckSize length sizeofGetLengthInformation information <|
    succeeds sizeofGetLengthInformation [field 0 8 stSize]

/-- `IOCTL_MOUNTDEV_QUERY_DEVICE_NAME`. -/
def mountdevQueryDeviceName (length information : Nat) : Outcome :=
  let datalen := sizeofMountdevName + systempartition.length
  ctlCheckSize length datalen information <|
    succeeds datalen [⟨2, systempartition⟩, field 0 2 systempartition.length]

/-- The codes that are handled. -/
inductive Code where
  | storageGetDeviceNumber
  | storageGetHotplugInfo
  | storageQueryProperty
  | keyboardSetIndicators
  | keyboardQueryIndicators
  | diskIsWritable
  | diskVerify
  | diskGetPartitionInfo
  | diskSetPartitionInfo
  | diskGetPartitionInfoEx
  | diskGetDriveLayout
  | diskGetDriveLayoutEx
  | diskGetLengthInfo
  | diskGetDriveGeometry
  | mountdevQueryDeviceName
  | diskGetMediaTypes
  deriving DecidableEq

/-- The value of a code. -/
def Code.value : Code → UInt32
  | .storageGetDeviceNumber => 0x002d1080
  | .storageGetHotplugInfo => 0x002d0c14
  | .storageQueryProperty => 0x002d1400
  | .keyboardSetIndicators => 0x000b0008
  | .keyboardQueryIndicators => 0x000b0040
  | .diskIsWritable => 0x00070024
  | .diskVerify => 0x00070014
  | .diskGetPartitionInfo => 0x00074004
  | .diskSetPartitionInfo => 0x0007c008
  | .diskGetPartitionInfoEx => 0x00070048
  | .diskGetDriveLayout => 0x0007400c
  | .diskGetDriveLayoutEx => 0x00070050
  | .diskGetLengthInfo => 0x0007405c
  | .diskGetDriveGeometry => 0x00070000
  | .mountdevQueryDeviceName => 0x004d0008
  | .diskGetMediaTypes => 0x00070c00

/-- All of them. -/
def Code.all : List Code :=
  [.storageGetDeviceNumber, .storageGetHotplugInfo, .storageQueryProperty, .keyboardSetIndicators,
    .keyboardQueryIndicators, .diskIsWritable, .diskVerify, .diskGetPartitionInfo,
    .diskSetPartitionInfo, .diskGetPartitionInfoEx, .diskGetDriveLayout, .diskGetDriveLayoutEx,
    .diskGetLengthInfo, .diskGetDriveGeometry, .mountdevQueryDeviceName, .diskGetMediaTypes]

/-- The case of a code in the `switch`. -/
def handle (code : Code) (spq : StoragePropertyQuery) (stSize length information : Nat) : Outcome :=
  match code with
  | .storageGetDeviceNumber => storageGetDeviceNumber length information
  | .storageGetHotplugInfo => storageGetHotplugInfo length information
  | .storageQueryProperty => storageQueryProperty spq length information
  | .keyboardSetIndicators | .diskIsWritable => succeeds information []
  | .keyboardQueryIndicators => keyboardQueryIndicators length information
  | .diskVerify | .diskSetPartitionInfo => succeeds 0 []
  | .diskGetPartitionInfo => diskGetPartitionInfo stSize length information
  | .diskGetPartitionInfoEx => diskGetPartitionInfoEx stSize length information
  | .diskGetDriveLayout => diskGetDriveLayout stSize length information
  | .diskGetDriveLayoutEx => diskGetDriveLayoutEx stSize length information
  | .diskGetLengthInfo => diskGetLengthInfo stSize length information
  | .diskGetDriveGeometry => diskGetDriveGeometry stSize length information
  | .mountdevQueryDeviceName => mountdevQueryDeviceName length information
  | .diskGetMediaTypes => fails statusNotImplemented information

/-- `NtDeviceIoControlFile` on a file of a size; a code that is not handled ends in `abort`. -/
def ntDeviceIoControlFile (ioControlCode : UInt32) (spq : StoragePropertyQuery) (stSize : Nat)
    (outputBufferLength : UInt32) (iosb : IoStatusBlock) : Option Outcome :=
  (Code.all.find? fun code => code.value == ioControlCode).map fun code =>
    handle code spq stSize outputBufferLength.toNat iosb.information

/-! ### Containment -/

/-- A store writes to an index of the buffer. -/
def Store.Writes (store : Store) (index : Nat) : Prop :=
  store.offset ≤ index ∧ index < store.offset + store.bytes.length

/-- The call stores below the length only, and what it reports on success is not more. -/
structure Contained (length : Nat) (outcome : Outcome) : Prop where
  stores : ∀ store ∈ outcome.stores, ∀ index, store.Writes index → index < length
  information : outcome.iosb.status = statusSuccess → outcome.iosb.information ≤ length

/-- The lengths, and for some codes `Information` before the call, for which a code stays within its
buffer. -/
def Fits (length information : Nat) : Code → Prop
  | .diskGetDriveLayout => length < 72 ∨ 136 ≤ length
  | .diskGetDriveLayoutEx => length < 336 ∨ 624 ≤ length
  | .keyboardSetIndicators | .diskIsWritable => information ≤ length
  | _ => True

/-- Behind the last index that a store writes to. -/
def Store.limit (store : Store) : Nat :=
  match store.bytes with
  | [] => 0
  | _ :: rest => store.offset + rest.length + 1

/-- Behind the last index that some stores write to. -/
def limit (stores : List Store) : Nat := stores.foldr (fun store most => max store.limit most) 0

theorem limit_cons (store : Store) (stores : List Store) :
    limit (store :: stores) = max store.limit (limit stores) :=
  rfl

theorem limit_append (first second : List Store) :
    limit (first ++ second) = max (limit first) (limit second) := by
  induction first with
  | nil => exact (Nat.zero_max _).symm
  | cons store first inductionHypothesis =>
    rw [List.cons_append, limit_cons, limit_cons, inductionHypothesis, max_assoc]

/-- A range that is cleared ends behind its last byte. -/
theorem limit_clear (offset size : Nat) : limit [clear offset (size + 1)] = offset + size + 1 := by
  rw [limit_cons, Store.limit, clear, List.replicate_succ]
  simp only [List.length_replicate]
  exact Nat.max_zero _

theorem writes_below_iff (store : Store) (length : Nat) :
    (∀ index, store.Writes index → index < length) ↔ store.limit ≤ length := by
  obtain ⟨offset, bytes⟩ := store
  cases bytes with
  | nil =>
    exact ⟨fun _ => Nat.zero_le _, fun _ _ writes => absurd writes.2 (not_lt.mpr writes.1)⟩
  | cons byte rest =>
    constructor
    · intro below
      exact below (offset + rest.length) ⟨Nat.le_add_right _ _, Nat.lt_succ_self _⟩
    · intro within index writes
      exact writes.2.trans_le within

/-- Stores stay below a length exactly when the last index does. -/
theorem stores_below_iff (stores : List Store) (length : Nat) :
    (∀ store ∈ stores, ∀ index, store.Writes index → index < length) ↔
      limit stores ≤ length := by
  induction stores with
  | nil => exact ⟨fun _ => Nat.zero_le _, fun _ store member => nomatch member⟩
  | cons store stores inductionHypothesis =>
    rw [List.forall_mem_cons, writes_below_iff, inductionHypothesis, limit_cons, max_le_iff]

theorem contained_fails {status : Status} (failure : status ≠ statusSuccess)
    (length information : Nat) : Contained length (fails status information) where
  stores _ member := nomatch member
  information success := absurd success failure

theorem contained_succeeds_iff (length information : Nat) (stores : List Store) :
    Contained length (succeeds information stores) ↔
      limit stores ≤ length ∧ information ≤ length := by
  constructor
  · intro contained
    exact ⟨(stores_below_iff stores length).mp contained.stores, contained.information rfl⟩
  · rintro ⟨stores_below, information_below⟩
    exact ⟨(stores_below_iff stores length).mpr stores_below, fun _ => information_below⟩

/-- A call that checks its length is contained where the length is too small, and else where the
rest is. -/
theorem contained_check_iff (length size information : Nat) (rest : Outcome) :
    Contained length (ctlCheckSize length size information rest) ↔
      (size ≤ length → Contained length rest) := by
  rw [ctlCheckSize]
  by_cases small : length < size
  · rw [if_pos small]
    exact ⟨fun _ large => absurd small (not_lt.mpr large),
      fun _ => contained_fails (by decide) length information⟩
  · rw [if_neg small]
    exact ⟨fun contained _ => contained, fun contained => contained (not_lt.mp small)⟩

/-- A call that checks for as much as it stores and reports is contained. -/
theorem contained_checked {size : Nat} {stores : List Store} (within : limit stores ≤ size)
    (length information : Nat) :
    Contained length (ctlCheckSize length size information (succeeds size stores)) := by
  rw [contained_check_iff]
  intro large
  exact (contained_succeeds_iff length size stores).mpr ⟨within.trans large, large⟩

theorem contained_storageQueryProperty (spq : StoragePropertyQuery) (length information : Nat) :
    Contained length (storageQueryProperty spq length information) := by
  have unimplemented : Contained length (fails statusNotImplemented information) :=
    contained_fails (by decide) length information
  rw [storageQueryProperty]
  split
  · exact unimplemented
  · split
    · exact contained_checked (by decide) length information
    · split
      · exact (contained_check_iff _ _ _ _).mpr fun _ => unimplemented
      · exact unimplemented

theorem contained_diskGetDriveGeometry (stSize length information : Nat) :
    Contained length (diskGetDriveGeometry stSize length information) := by
  rw [diskGetDriveGeometry, contained_check_iff]
  intro large
  by_cases small : cylinders stSize < 2
  · simp only [if_pos small]
    exact ⟨(stores_below_iff _ length).mpr large, fun success => nomatch success⟩
  · simp only [if_neg small]
    exact (contained_succeeds_iff _ _ _).mpr ⟨large, large⟩

/-- For the drive layout three entries are cleared where the length is checked for one. -/
theorem contained_diskGetDriveLayout_iff (stSize length information : Nat) :
    Contained length (diskGetDriveLayout stSize length information) ↔
      length < 72 ∨ 136 ≤ length := by
  have entry : limit (shift 8 (diskGetPartitionInfo stSize 32 information).stores) = 36 := rfl
  have limit_eq : limit ([clear 0 40, field 0 4 4, field 4 4 0] ++
      shift 8 (diskGetPartitionInfo stSize 32 information).stores ++ [clear 40 96]) = 136 := by
    rw [limit_append, limit_append, entry, limit_clear]
    decide
  rw [diskGetDriveLayout, contained_check_iff]
  simp only [contained_succeeds_iff, sizeofDriveLayoutInformation, sizeofPartitionInformation,
    limit_eq]
  omega

theorem contained_diskGetDriveLayoutEx_iff (stSize length information : Nat) :
    Contained length (diskGetDriveLayoutEx stSize length information) ↔
      length < 336 ∨ 624 ≤ length := by
  have entry : limit (shift 48 (diskGetPartitionInfoEx stSize 144 information).stores) = 88 := rfl
  have header : limit [clear 0 192, field 0 4 0, field 4 4 4, field 8 4 0] = 192 :=
    (limit_append [clear 0 192] [field 0 4 0, field 4 4 4, field 8 4 0]).trans
      (congrArg (max · 12) (limit_clear 0 191))
  have limit_eq : limit ([clear 0 192, field 0 4 0, field 4 4 4, field 8 4 0] ++
      shift 48 (diskGetPartitionInfoEx stSize 144 information).stores ++ [clear 192 432]) =
        624 := by
    rw [limit_append, limit_append, entry, header, limit_clear]
    decide
  rw [diskGetDriveLayoutEx, contained_check_iff]
  simp only [contained_succeeds_iff, sizeofDriveLayoutInformationEx, sizeofPartitionInformationEx,
    limit_eq]
  omega

/-- A code is handled by its case. -/
theorem ntDeviceIoControlFile_value (code : Code) (spq : StoragePropertyQuery) (stSize : Nat)
    (outputBufferLength : UInt32) (iosb : IoStatusBlock) :
    ntDeviceIoControlFile code.value spq stSize outputBufferLength iosb =
      some (handle code spq stSize outputBufferLength.toNat iosb.information) := by
  cases code <;> rfl

/-- A call stays within its output buffer exactly when its code fits it. -/
theorem contained_iff (code : Code) (spq : StoragePropertyQuery) (stSize : Nat)
    (outputBufferLength : UInt32) (iosb : IoStatusBlock) :
    ∃ outcome, ntDeviceIoControlFile code.value spq stSize outputBufferLength iosb =
        some outcome ∧
      (Contained outputBufferLength.toNat outcome ↔
        Fits outputBufferLength.toNat iosb.information code) := by
  refine ⟨_, ntDeviceIoControlFile_value code spq stSize outputBufferLength iosb, ?_⟩
  generalize outputBufferLength.toNat = length
  generalize iosb.information = information
  cases code with
  | storageGetDeviceNumber => exact iff_of_true (contained_checked (by decide) _ _) trivial
  | storageGetHotplugInfo => exact iff_of_true (contained_checked (by decide) _ _) trivial
  | storageQueryProperty => exact iff_of_true (contained_storageQueryProperty _ _ _) trivial
  | keyboardSetIndicators =>
    exact (contained_succeeds_iff _ _ _).trans (and_iff_right (Nat.zero_le _))
  | keyboardQueryIndicators => exact iff_of_true (contained_checked (by decide) _ _) trivial
  | diskIsWritable => exact (contained_succeeds_iff _ _ _).trans (and_iff_right (Nat.zero_le _))
  | diskVerify =>
    exact iff_of_true ((contained_succeeds_iff _ _ _).mpr ⟨Nat.zero_le _, Nat.zero_le _⟩) trivial
  | diskGetPartitionInfo =>
    exact iff_of_true (contained_checked (Nat.le_of_ble_eq_true rfl) _ _) trivial
  | diskSetPartitionInfo =>
    exact iff_of_true ((contained_succeeds_iff _ _ _).mpr ⟨Nat.zero_le _, Nat.zero_le _⟩) trivial
  | diskGetPartitionInfoEx =>
    exact iff_of_true (contained_checked (Nat.le_of_ble_eq_true rfl) _ _) trivial
  | diskGetDriveLayout => exact contained_diskGetDriveLayout_iff _ _ _
  | diskGetDriveLayoutEx => exact contained_diskGetDriveLayoutEx_iff _ _ _
  | diskGetLengthInfo =>
    exact iff_of_true (contained_checked (Nat.le_of_ble_eq_true rfl) _ _) trivial
  | diskGetDriveGeometry => exact iff_of_true (contained_diskGetDriveGeometry _ _ _) trivial
  | mountdevQueryDeviceName => exact iff_of_true (contained_checked (by decide) _ _) trivial
  | diskGetMediaTypes => exact iff_of_true (contained_fails (by decide) _ _) trivial

/-- The drive layout does not stay within a buffer of 72 bytes, which passes the check. -/
theorem not_contained :
    ¬ ∀ outcome,
      ntDeviceIoControlFile Code.diskGetDriveLayout.value ⟨0, 0⟩ 8225280 72 ⟨0, 0⟩ =
        some outcome → Contained 72 outcome := by
  intro contained
  have inside := contained _ (ntDeviceIoControlFile_value .diskGetDriveLayout _ _ _ _)
  exact absurd ((contained_diskGetDriveLayout_iff 8225280 72 0).mp inside) (by decide)

end Nloader.Ioctl
