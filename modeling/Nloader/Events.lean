/-
This file models the event objects of `src/libs/ntdll/sync.c`: what each critical section
under `state_mutex` does to an event.
-/

import Mathlib.Tactic

namespace Nloader.Events

/-- `EVENT_TYPE`. -/
inductive EventType where
  | notificationEvent
  | synchronizationEvent
  deriving DecidableEq

/-- The event of a handle: its type, and `signaled`, which is true where it is not zero. -/
structure Event where
  type : EventType
  signaled : Nat
  deriving DecidableEq

/-- `NTSTATUS`. -/
abbrev Status : Type := UInt32

/-- `STATUS_SUCCESS`. -/
def statusSuccess : Status := 0x00000000

/-- `STATUS_WAIT_0`. -/
def statusWait0 : Status := 0x00000000

/-- `STATUS_TIMEOUT`. -/
def statusTimeout : Status := 0x00000102

/-- `STATUS_UNSUCCESSFUL`. -/
def statusUnsuccessful : Status := 0xC0000001

/-- `STATUS_INVALID_PARAMETER`. -/
def statusInvalidParameter : Status := 0xC000000D

/-- `NtCreateEvent`, as it fills in the event; `InitialState` is a byte. -/
def ntCreateEvent (eventType : EventType) (initialState : UInt8) : Event where
  type := eventType
  signaled := initialState.toNat

/-- `NtSetEvent`: the event, and what it stores to `PreviousState`. -/
def ntSetEvent (event : Event) : Event × Nat :=
  ({ event with signaled := 1 }, event.signaled)

/-- `NtResetEvent`, which is also `NtClearEvent`: the event, and what it stores to
`PreviousState`. -/
def ntResetEvent (event : Event) : Event × Nat :=
  ({ event with signaled := 0 }, event.signaled)

/-- What a wait that has succeeded does to the event. -/
def consume (event : Event) : Event :=
  if event.type = .synchronizationEvent then { event with signaled := 0 } else event

end Nloader.Events
