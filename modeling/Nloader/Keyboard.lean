/-
This file models the keyboard half of `src/libs/ntdll/io.c` with the table of
`src/libs/ntdll/scancodes.c`: the one parking slot `g_stdin_kbd` of reads from stdin, what
`NtReadFile`, `nl_kbd_pump` and `NtCancelIoFile` do to it under its mutex, and the writes to
guest memory that they do outside of the mutex.

The pieces are put together twice: here into whole calls, one after the other, and in
`KeyboardThreads` into the steps of threads that run at the same time.
-/

import Nloader.Events

namespace Nloader.Keyboard

open Nloader.Events

/-! ### Guest memory -/

/-- `STATUS_PENDING`. -/
def statusPending : Status := 0x00000103

/-- `STATUS_CANCELLED`. -/
def statusCancelled : Status := 0xC0000120

/-- An address of guest memory; a handle is one too. -/
abbrev Pointer : Type := Nat

/-- `KEYBOARD_INPUT_DATA`, the fields that are filled in. -/
structure KeyboardInputData where
  unitId : UInt16
  makeCode : UInt16
  flags : UInt16

/-- `sizeof(KEYBOARD_INPUT_DATA)`: three fields of two bytes, two bytes in reserve and a field
of four. -/
def sizeofKeyboardInputData : UInt32 := 12

/-- `KEY_BREAK`. -/
def keyBreak : UInt16 := 1

/-- `IO_STATUS_BLOCK`. -/
structure IoStatusBlock where
  status : Status
  information : Nat
  deriving DecidableEq

/-- What the keyboard reads write to: the buffers, the status blocks, and the events of the
handles that are handles of events. -/
structure Guest where
  buffer : Pointer → KeyboardInputData
  block : Pointer → IoStatusBlock
  event : Pointer → Option Event

/-- One unprotected write; `NtSetEvent` does its own under the mutex of the event. -/
inductive Write where
  | unitId (buffer : Pointer) (value : UInt16)
  | makeCode (buffer : Pointer) (value : UInt16)
  | flags (buffer : Pointer) (value : UInt16)
  | information (iosb : Pointer) (value : Nat)
  | status (iosb : Pointer) (value : Status)
  | setEvent (event : Pointer)
  deriving DecidableEq

/-- A write as it is done. `NtSetEvent` refuses a handle that is not of an event. -/
def Write.apply (guest : Guest) : Write → Guest
  | .unitId buffer value =>
    { guest with
      buffer := Function.update guest.buffer buffer
        { guest.buffer buffer with unitId := value } }
  | .makeCode buffer value =>
    { guest with
      buffer := Function.update guest.buffer buffer
        { guest.buffer buffer with makeCode := value } }
  | .flags buffer value =>
    { guest with
      buffer := Function.update guest.buffer buffer { guest.buffer buffer with flags := value } }
  | .information iosb value =>
    { guest with
      block := Function.update guest.block iosb { guest.block iosb with information := value } }
  | .status iosb value =>
    { guest with
      block := Function.update guest.block iosb { guest.block iosb with status := value } }
  | .setEvent event =>
    { guest with
      event := Function.update guest.event event
        ((guest.event event).map fun found => (ntSetEvent found).1) }

/-- A completion event counts as signalled when there is none to signal. -/
def Guest.signaled (guest : Guest) (event : Option Pointer) : Bool :=
  event.all fun handle => (guest.event handle).all fun found => found.signaled != 0

/-- Writes done one after the other. -/
def Guest.writeAll (guest : Guest) (writes : List Write) : Guest := writes.foldl Write.apply guest

/-! ### Scan codes -/

/-- The bytes of `AsciiToScan`. There are 255: the last one is for 0xfe. -/
def asciiToScanTable : List UInt8 :=
  [0x00, 0x00, 0x00, 0x00, 0x00, 0x00, 0x00, 0x00, 0x0e, 0x00, 0x1c, 0x00, 0x00, 0x1c, 0x00, 0x00,
   0x00, 0x00, 0x00, 0x00, 0x00, 0x00, 0x00, 0x00, 0x00, 0x00, 0x00, 0x00, 0x00, 0x00, 0x00, 0x00,
   0x39, 0x02, 0x28, 0x04, 0x05, 0x06, 0x08, 0x29, 0x0a, 0x0b, 0x37, 0x4e, 0x33, 0x4a, 0x34, 0x35,
   0x0b, 0x02, 0x03, 0x04, 0x05, 0x06, 0x07, 0x08, 0x09, 0x0a, 0x27, 0x27, 0x33, 0x0d, 0x34, 0x35,
   0x03, 0x1e, 0x30, 0x2e, 0x20, 0x12, 0x21, 0x22, 0x23, 0x17, 0x24, 0x25, 0x26, 0x32, 0x31, 0x18,
   0x19, 0x10, 0x13, 0x1f, 0x14, 0x16, 0x2f, 0x11, 0x2d, 0x15, 0x2c, 0x1a, 0x2b, 0x1b, 0x07, 0x0c,
   0x00, 0x1e, 0x30, 0x2e, 0x20, 0x12, 0x21, 0x22, 0x23, 0x17, 0x24, 0x25, 0x26, 0x32, 0x31, 0x18,
   0x19, 0x10, 0x13, 0x1f, 0x14, 0x16, 0x2f, 0x11, 0x2d, 0x15, 0x2c, 0x1a, 0x2b, 0x1b, 0x29, 0x0e,
   0x00, 0x00, 0x00, 0x00, 0x00, 0x00, 0x00, 0x00, 0x00, 0x00, 0x00, 0x00, 0x00, 0x00, 0x00, 0x00,
   0x00, 0x00, 0x00, 0x00, 0x00, 0x00, 0x00, 0x00, 0x00, 0x00, 0x00, 0x00, 0x00, 0x00, 0x00, 0x00,
   0x00, 0x00, 0x00, 0x00, 0x00, 0x00, 0x00, 0x00, 0x00, 0x00, 0x00, 0x00, 0x00, 0x00, 0x00, 0x00,
   0x00, 0x00, 0x00, 0x00, 0x00, 0x00, 0x00, 0x00, 0x00, 0x00, 0x00, 0x00, 0x00, 0x00, 0x00, 0x00,
   0x00, 0x00, 0x00, 0x00, 0x00, 0x00, 0x00, 0x00, 0x00, 0x00, 0x00, 0x00, 0x00, 0x00, 0x00, 0x00,
   0x00, 0x00, 0x00, 0x00, 0x00, 0x00, 0x00, 0x00, 0x00, 0x00, 0x00, 0x00, 0x00, 0x00, 0x00, 0x00,
   0x00, 0x00, 0x00, 0x00, 0x00, 0x00, 0x00, 0x00, 0x00, 0x00, 0x00, 0x00, 0x00, 0x00, 0x00, 0x00,
   0x00, 0x00, 0x00, 0x00, 0x00, 0x00, 0x00, 0x00, 0x00, 0x00, 0x00, 0x00, 0x00, 0x00, 0x00]

/-- `AsciiToScan[ch]`; `beyond` is the byte that lies behind the table, which 0xff reads. -/
def asciiToScan (beyond ch : UInt8) : UInt8 := asciiToScanTable.getD ch.toNat beyond

/-! ### The parking slot -/

/-- `fileno(stdin)`. -/
def filenoStdin : Int := 0

/-- `g_stdin_kbd` without its mutex. -/
structure StdinKbd where
  active : Bool
  unitId : Int
  buffer : Pointer
  iosb : Pointer
  event : Option Pointer
  fd : Int

/-- The arguments of an `NtReadFile` on a handle whose `fh` is `fileno(stdin)`, with the
characters of `strhandle(FileHandle)` up to their NUL. -/
structure ReadCall where
  fileHandle : Pointer
  name : List Int8
  event : Option Pointer
  ioStatusBlock : Pointer
  buffer : Pointer
  length : UInt32

/-- `(strlen(name) >= 24) ? name[23] - '0' : 0`. -/
def ReadCall.unitId (call : ReadCall) : Int :=
  match call.name[23]? with
  | some character => character.toInt - 48
  | none => 0

/-- `g_stdin_kbd` as the program starts. -/
def StdinKbd.initial : StdinKbd where
  active := false
  unitId := 0
  buffer := 0
  iosb := 0
  event := none
  fd := 0

/-- The slot after the critical section of `NtReadFile`. -/
def park (call : ReadCall) : StdinKbd where
  active := true
  unitId := call.unitId
  buffer := call.buffer
  iosb := call.ioStatusBlock
  event := call.event
  fd := filenoStdin

/-- The slot after a critical section that takes the request. -/
def StdinKbd.taken (kbd : StdinKbd) : StdinKbd := { kbd with active := false }

/-! ### The writes -/

/-- `deliver_kbd_event`. -/
def deliverKbdEvent (beyond : UInt8) (unitId : Int) (ch : UInt8) (buffer iosb : Pointer)
    (event : Option Pointer) : List Write :=
  [.unitId buffer (UInt16.ofInt unitId),
    .makeCode buffer (asciiToScan beyond ch).toUInt16,
    .flags buffer keyBreak,
    .information iosb sizeofKeyboardInputData.toNat,
    .status iosb statusSuccess] ++ (event.map Write.setEvent).toList

/-- The delivery of a byte to the request in the slot. -/
def StdinKbd.deliver (beyond : UInt8) (kbd : StdinKbd) (ch : UInt8) : List Write :=
  deliverKbdEvent beyond kbd.unitId ch kbd.buffer kbd.iosb kbd.event

/-- The delivery of a byte to a read that completes inline. -/
def ReadCall.deliver (beyond : UInt8) (call : ReadCall) (ch : UInt8) : List Write :=
  deliverKbdEvent beyond call.unitId ch call.buffer call.ioStatusBlock call.event

/-- The writes of `NtReadFile` once it has parked its request. -/
def pendingWrites (iosb : Pointer) : List Write :=
  [.status iosb statusPending, .information iosb 0]

/-- The writes of `NtCancelIoFile` after its critical section, which saw this slot; the last
one is to the block it was called with. -/
def cancelWrites (kbd : StdinKbd) (ioStatusBlock : Pointer) : List Write :=
  (if kbd.active then
    [.information kbd.iosb 0, .status kbd.iosb statusCancelled] ++
      (kbd.event.map Write.setEvent).toList
  else []) ++ [.status ioStatusBlock statusCancelled]

/-! ### What the writes leave -/

theorem Guest.writeAll_append (guest : Guest) (first second : List Write) :
    guest.writeAll (first ++ second) = (guest.writeAll first).writeAll second :=
  List.foldl_append

theorem Guest.writeAll_singleton (guest : Guest) (write : Write) :
    guest.writeAll [write] = write.apply guest := rfl

/-- The status of a block after a write of a status. -/
theorem Write.status_status (guest : Guest) (target iosb : Pointer) (value : Status) :
    (((Write.status target value).apply guest).block iosb).status =
      if iosb = target then value else (guest.block iosb).status := by
  simp only [Write.apply, Function.update_apply]
  split <;> rfl

/-- A block that is not pending stays so under every write but one. -/
theorem Write.status_apply {guest : Guest} {write : Write} {iosb : Pointer}
    (other : write ≠ .status iosb statusPending)
    (settled : (guest.block iosb).status ≠ statusPending) :
    ((write.apply guest).block iosb).status ≠ statusPending := by
  cases write with
  | unitId | makeCode | flags | setEvent => exact settled
  | information target value =>
    by_cases same : iosb = target
    · subst same
      simpa only [Write.apply, Function.update_self] using settled
    · simpa only [Write.apply, Function.update_of_ne same] using settled
  | status target value =>
    rw [status_status]
    split
    · next same =>
      intro pending
      exact other (by rw [pending, same])
    · exact settled

/-- No write takes the signal of an event away. -/
theorem Write.signaled_apply {guest : Guest} (write : Write) {event : Option Pointer}
    (signaled : guest.signaled event = true) : (write.apply guest).signaled event = true := by
  cases write with
  | unitId | makeCode | flags | information | status => exact signaled
  | setEvent target =>
    cases event with
    | none => rfl
    | some handle =>
      simp only [Guest.signaled, Option.all_some, Write.apply] at signaled ⊢
      by_cases same : handle = target
      · subst same
        rw [Function.update_self]
        cases guest.event handle with
        | none => rfl
        | some found => rfl
      · rw [Function.update_of_ne same]
        exact signaled

/-- `NtSetEvent` signals the event. -/
theorem signaled_setEvent (guest : Guest) (event : Option Pointer) :
    (guest.writeAll (event.map Write.setEvent).toList).signaled event = true := by
  cases event with
  | none => rfl
  | some handle =>
    simp only [Guest.signaled, Guest.writeAll, Option.map_some, Option.toList_some,
      List.foldl_cons, List.foldl_nil, Write.apply, Function.update_self, Option.all_some]
    cases guest.event handle with
    | none => rfl
    | some found => rfl

/-- `NtSetEvent` does not write to a status block. -/
theorem block_setEvent (guest : Guest) (event : Option Pointer) :
    (guest.writeAll (event.map Write.setEvent).toList).block = guest.block := by
  cases event with
  | none => rfl
  | some handle => rfl

/-- After a delivery the block holds the success of a whole record. -/
theorem block_deliverKbdEvent (beyond : UInt8) (unitId : Int) (ch : UInt8)
    (buffer iosb : Pointer) (event : Option Pointer) (guest : Guest) :
    (guest.writeAll (deliverKbdEvent beyond unitId ch buffer iosb event)).block iosb =
      { status := statusSuccess, information := sizeofKeyboardInputData.toNat } := by
  rw [deliverKbdEvent, Guest.writeAll_append, block_setEvent]
  simp only [Guest.writeAll, List.foldl_cons, List.foldl_nil, Write.apply, Function.update_self]

/-- After a delivery the event of the request is signalled. -/
theorem signaled_deliverKbdEvent (beyond : UInt8) (unitId : Int) (ch : UInt8)
    (buffer iosb : Pointer) (event : Option Pointer) (guest : Guest) :
    (guest.writeAll (deliverKbdEvent beyond unitId ch buffer iosb event)).signaled event =
      true := by
  rw [deliverKbdEvent, Guest.writeAll_append]
  exact signaled_setEvent _ event

/-- After a cancel the block of the request that was in the slot is cancelled. -/
theorem block_cancelWrites {kbd : StdinKbd} (active : kbd.active = true)
    (ioStatusBlock : Pointer) (guest : Guest) :
    ((guest.writeAll (cancelWrites kbd ioStatusBlock)).block kbd.iosb).status =
      statusCancelled := by
  rw [cancelWrites, if_pos active, Guest.writeAll_append, Guest.writeAll_append]
  rw [Guest.writeAll_singleton, Write.status_status]
  split
  · rfl
  · rw [block_setEvent]
    simp only [Guest.writeAll, List.foldl_cons, List.foldl_nil, Write.status_status, if_true]

/-- After a cancel the event of the request that was in the slot is signalled. -/
theorem signaled_cancelWrites {kbd : StdinKbd} (active : kbd.active = true)
    (ioStatusBlock : Pointer) (guest : Guest) :
    (guest.writeAll (cancelWrites kbd ioStatusBlock)).signaled kbd.event = true := by
  rw [cancelWrites, if_pos active, Guest.writeAll_append, Guest.writeAll_append,
    Guest.writeAll_singleton]
  exact Write.signaled_apply _ (signaled_setEvent _ kbd.event)

/-- Writes that make no block pending. -/
def NeverPending (writes : List Write) : Prop :=
  ∀ write ∈ writes, ∀ iosb, write ≠ .status iosb statusPending

theorem neverPending_deliverKbdEvent (beyond : UInt8) (unitId : Int) (ch : UInt8)
    (buffer iosb : Pointer) (event : Option Pointer) :
    NeverPending (deliverKbdEvent beyond unitId ch buffer iosb event) := by
  cases event <;> simp [NeverPending, deliverKbdEvent, statusSuccess, statusPending]

theorem neverPending_cancelWrites (kbd : StdinKbd) (ioStatusBlock : Pointer) :
    NeverPending (cancelWrites kbd ioStatusBlock) := by
  obtain ⟨active, unitId, buffer, iosb, event, fd⟩ := kbd
  cases active <;> cases event <;>
    simp [NeverPending, cancelWrites, statusCancelled, statusPending]

/-! ### Whole calls -/

/-- The slot and the memory of the guest. -/
structure State where
  kbd : StdinKbd
  guest : Guest

/-- `nl_kbd_pump` where no other thread runs. `input` is the byte that `poll` and `read` give,
if they give one. -/
def nlKbdPump (beyond : UInt8) (input : Option UInt8) (state : State) : State :=
  if state.kbd.active then
    match input with
    | none => state
    | some ch =>
      { kbd := state.kbd.taken, guest := state.guest.writeAll (state.kbd.deliver beyond ch) }
  else state

theorem nlKbdPump_none (beyond : UInt8) (state : State) : nlKbdPump beyond none state = state := by
  simp only [nlKbdPump, ite_self]

theorem nlKbdPump_free (beyond : UInt8) (input : Option UInt8) {state : State}
    (free : ¬ state.kbd.active = true) : nlKbdPump beyond input state = state := by
  simp only [nlKbdPump, if_neg free]

theorem nlKbdPump_delivers (beyond ch : UInt8) {state : State} (active : state.kbd.active = true) :
    nlKbdPump beyond (some ch) state =
      { kbd := state.kbd.taken, guest := state.guest.writeAll (state.kbd.deliver beyond ch) } := by
  simp only [nlKbdPump, if_pos active]

/-- `NtReadFile` on stdin where no other thread runs. -/
def ntReadFile (beyond : UInt8) (call : ReadCall) (input : Option UInt8) (state : State) :
    State × Status :=
  if call.length ≠ sizeofKeyboardInputData then
    ({ state with
        guest := state.guest.writeAll [.status call.ioStatusBlock statusInvalidParameter] },
      statusInvalidParameter)
  else
    match input with
    | some ch =>
      ({ state with guest := state.guest.writeAll (call.deliver beyond ch) }, statusSuccess)
    | none =>
      ({ kbd := park call, guest := state.guest.writeAll (pendingWrites call.ioStatusBlock) },
        statusPending)

theorem ntReadFile_refuses (beyond : UInt8) {call : ReadCall}
    (length : call.length ≠ sizeofKeyboardInputData) (input : Option UInt8) (state : State) :
    ntReadFile beyond call input state =
      ({ state with
          guest := state.guest.writeAll [.status call.ioStatusBlock statusInvalidParameter] },
        statusInvalidParameter) := if_pos length

theorem ntReadFile_delivers (beyond : UInt8) {call : ReadCall}
    (length : call.length = sizeofKeyboardInputData) (ch : UInt8) (state : State) :
    ntReadFile beyond call (some ch) state =
      ({ state with guest := state.guest.writeAll (call.deliver beyond ch) }, statusSuccess) :=
  if_neg (not_not_intro length)

theorem ntReadFile_parks (beyond : UInt8) {call : ReadCall}
    (length : call.length = sizeofKeyboardInputData) (state : State) :
    ntReadFile beyond call none state =
      ({ kbd := park call, guest := state.guest.writeAll (pendingWrites call.ioStatusBlock) },
        statusPending) := if_neg (not_not_intro length)

/-- `NtCancelIoFile` on stdin where no other thread runs. -/
def ntCancelIoFile (ioStatusBlock : Pointer) (state : State) : State × Status :=
  ({ kbd := state.kbd.taken,
      guest := state.guest.writeAll (cancelWrites state.kbd ioStatusBlock) },
    statusSuccess)

/-! ### A guest with reads -/

/-- Memory of zeros, with three events that are not signalled at 40, 41 and 42. -/
def Guest.zeros : Guest where
  buffer _ := { unitId := 0, makeCode := 0, flags := 0 }
  block _ := { status := 0, information := 0 }
  event handle :=
    if handle = 40 ∨ handle = 41 ∨ handle = 42 then
      some (ntCreateEvent .synchronizationEvent 0)
    else none

/-- A read on a keyboard, with a handle, a block, a buffer and an event of its own. -/
def ReadCall.number (index : Nat) : ReadCall where
  fileHandle := 10 + index
  name := []
  event := some (40 + index)
  ioStatusBlock := 20 + index
  buffer := 30 + index
  length := sizeofKeyboardInputData

end Nloader.Keyboard
