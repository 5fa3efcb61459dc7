/-
This file models what the functions of `src/libs/ntdll` look at in a handle, which is a pointer to a
block with a cookie and a type at its front, and their check of it.
-/

import Nloader.Events

namespace Nloader.Handles

open Nloader.Events

/-- `STATUS_ACCESS_VIOLATION`. -/
def statusAccessViolation : Status := 0xC0000005

/-- `HANDLE_COOKIE`. -/
def handleCookie : UInt32 := 0xfafadada

/-- `HANDLE_DIR`. -/
def handleDir : UInt8 := 0x44

/-- `HANDLE_REG`. -/
def handleReg : UInt8 := 0x52

/-- The front of the block that a handle points to. -/
structure Header where
  cookie : UInt32
  type : UInt8

/-- A handle of a type, as `__CreateHandle` makes it. -/
def Header.ofType (type : UInt8) : Header := { cookie := handleCookie, type := type }

/-- `CHECK_HANDLE`: the status that it returns, if it does. -/
def checkHandle (handle : Option Header) (type : UInt8) : Option Status :=
  match handle with
  | none => some statusAccessViolation
  | some handle =>
    if handle.cookie ≠ handleCookie ∨ handle.type ≠ type then some statusInvalidParameter else none

theorem checkHandle_ofType (type : UInt8) : checkHandle (some (.ofType type)) type = none :=
  if_neg fun wrong => wrong.elim (fun cookie => cookie rfl) fun other => other rfl

end Nloader.Handles
