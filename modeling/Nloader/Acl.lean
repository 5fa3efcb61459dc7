/-
This file models the functions of `src/libs/ntdll/sd.c` that build an ACL and report its size. The
memory is the list of the bytes that can be accessed, an ACL is the offset of its header in it, and
an access outside of the memory is no run. A SID is an object of its own.
-/

import Nloader.Events
import Nloader.Library.ByteBlock

namespace Nloader.Acl

open Nloader.Events ByteBlock

/-! ### Status codes and constants -/

/-- `STATUS_INVALID_INFO_CLASS`. -/
def statusInvalidInfoClass : Status := 0xC0000003

/-- `STATUS_BUFFER_TOO_SMALL`. -/
def statusBufferTooSmall : Status := 0xC0000023

/-- `STATUS_UNKNOWN_REVISION`. -/
def statusUnknownRevision : Status := 0xC0000058

/-- `STATUS_INVALID_ACL`. -/
def statusInvalidAcl : Status := 0xC0000077

/-- `STATUS_INVALID_SID`. -/
def statusInvalidSid : Status := 0xC0000078

/-- `STATUS_ALLOTTED_SPACE_EXCEEDED`. -/
def statusAllottedSpaceExceeded : Status := 0xC0000099

/-- `MIN_ACL_REVISION`. -/
def minAclRevision : Nat := 2

/-- `MAX_ACL_REVISION`. -/
def maxAclRevision : Nat := 4

/-- `ACL_REVISION3`. -/
def aclRevision3 : Nat := 3

/-- `SID_MAX_SUB_AUTHORITIES`. -/
def sidMaxSubAuthorities : UInt8 := 15

/-- `SID_REVISION`. -/
def sidRevision : UInt8 := 1

/-- `sizeof(ACL)`. -/
def sizeofAcl : Nat := 8

/-- `sizeof(ACE)`. -/
def sizeofAce : Nat := 8

/-- `ACCESS_ALLOWED_ACE_TYPE`. -/
def accessAllowedAceType : UInt32 := 0x00

/-- `SYSTEM_AUDIT_ACE_TYPE`. -/
def systemAuditAceType : UInt32 := 0x02

/-- `ACCESS_ALLOWED_COMPOUND_ACE_TYPE`. -/
def accessAllowedCompoundAceType : Nat := 0x04

/-- `SYSTEM_AUDIT_OBJECT_ACE_TYPE`. -/
def systemAuditObjectAceType : UInt32 := 0x07

/-- `SYSTEM_AUDIT_CALLBACK_OBJECT_ACE_TYPE`. -/
def systemAuditCallbackObjectAceType : UInt32 := 0x0f

/-- `SYSTEM_MANDATORY_LABEL_ACE_TYPE`. -/
def systemMandatoryLabelAceType : UInt32 := 0x11

/-- `VALID_INHERIT_FLAGS`. -/
def validInheritFlags : UInt32 := 0x1f

/-- `SUCCESSFUL_ACCESS_ACE_FLAG`. -/
def successfulAccessAceFlag : UInt32 := 0x40

/-- `FAILED_ACCESS_ACE_FLAG`. -/
def failedAccessAceFlag : UInt32 := 0x80

/-- `SECURITY_MANDATORY_LABEL_AUTHORITY`. -/
def securityMandatoryLabelAuthority : List UInt8 := [0, 0, 0, 0, 0, 16]

/-! ### SIDs -/

/-- A SID, with the bytes of as many subauthorities as it counts. -/
structure Sid where
  revision : UInt8
  subAuthorityCount : UInt8
  identifierAuthority : List UInt8
  subAuthority : List UInt8
  authority : identifierAuthority.length = 6
  subAuthorities : subAuthority.length = 4 * subAuthorityCount.toNat

/-- A SID as bytes. -/
def Sid.bytes (sid : Sid) : List UInt8 :=
  sid.revision :: sid.subAuthorityCount :: (sid.identifierAuthority ++ sid.subAuthority)

/-- `RtlValidSid`. -/
def rtlValidSid : Option Sid → Bool
  | none => false
  | some sid =>
    sid.revision &&& 0xf = sidRevision ∧ sid.subAuthorityCount ≤ sidMaxSubAuthorities

/-- `RtlLengthSid`. -/
def rtlLengthSid (sid : Sid) : Nat := 8 + 4 * sid.subAuthorityCount.toNat

theorem length_sid (sid : Sid) : sid.bytes.length = rtlLengthSid sid := by
  rw [Sid.bytes, List.length_cons, List.length_cons, List.length_append, sid.authority,
    sid.subAuthorities, rtlLengthSid]
  omega

/-- `RtlCopySid`. -/
def rtlCopySid (memory : List UInt8) (bufferLength dest : Nat) (src : Sid) :
    Option (Status × List UInt8) :=
  if bufferLength < rtlLengthSid src then some (statusBufferTooSmall, memory)
  else do some (statusSuccess, ← store memory dest src.bytes)

/-- `memcmp`, as the difference of the first bytes that differ. -/
def memcmp : List UInt8 → List UInt8 → Int
  | a :: first, b :: second => if a = b then memcmp first second else a.toNat - b.toNat
  | _, _ => 0

/-! ### The free ACE -/

/-- The loop of `RtlFirstFreeAce`, with the number of ACEs that are left: the address behind them,
if they are all there. -/
def walk (memory : List UInt8) (acl aclEnd : Nat) : Nat → Nat → Option (Option Nat)
  | 0, current => some (some current)
  | left + 1, current =>
    if aclEnd ≤ current then some none
    else do
      let aceType ← load memory current 1
      let aclRevision ← load memory acl 1
      if aceType = accessAllowedCompoundAceType ∧ aclRevision < aclRevision3 then some none
      else do
        let aceSize ← load memory (current + 2) 2
        walk memory acl aclEnd left (current + aceSize)

/-- `RtlFirstFreeAce`: what it returns, and `*Ace`. -/
def rtlFirstFreeAce (memory : List UInt8) (acl : Nat) : Option (Bool × Option Nat) := do
  let aceCount ← load memory (acl + 4) 2
  if aceCount = 0 then some (true, some (acl + sizeofAcl))
  else do
    let aclSize ← load memory (acl + 2) 2
    match ← walk memory acl (acl + aclSize) aceCount (acl + sizeofAcl) with
    | none => some (false, none)
    | some current => some (true, if current < acl + aclSize then some current else none)

/-! ### Adding an ACE -/

/-- A `GUID`. -/
structure Guid where
  bytes : List UInt8
  size : bytes.length = 16

/-- `AceObjectFlags`. -/
def aceObjectFlags (objectTypeGuid inheritedObjectTypeGuid : Option Guid) : Nat :=
  (if objectTypeGuid.isSome then 1 else 0) + if inheritedObjectTypeGuid.isSome then 2 else 0

/-- `AceSize`. -/
def aceSize (objectTypeGuid inheritedObjectTypeGuid : Option Guid) (sid : Sid) : Nat :=
  rtlLengthSid sid + sizeofAce + (if objectTypeGuid.isSome then 16 else 0) +
    (if inheritedObjectTypeGuid.isSome then 16 else 0) +
    if aceObjectFlags objectTypeGuid inheritedObjectTypeGuid ≠ 0 then 4 else 0

/-- `InvalidFlags`. -/
def invalidFlags (flags type : UInt32) : UInt32 :=
  if type = systemAuditAceType ∨ type = systemAuditObjectAceType ∨
      type = systemAuditCallbackObjectAceType then
    flags &&& ~~~ (validInheritFlags ||| successfulAccessAceFlag ||| failedAccessAceFlag)
  else flags &&& ~~~ validInheritFlags

/-- A `GUID` is copied, if there is one. -/
def copyGuid (memory : List UInt8) (sidStart : Nat) : Option Guid → Option (List UInt8 × Nat)
  | none => some (memory, sidStart)
  | some guid => do some (← store memory sidStart guid.bytes, sidStart + 16)

/-- The ACE flags are written, if there are some. -/
def writeObjectFlags (memory : List UInt8) (sidStart flags : Nat) : Option (List UInt8 × Nat) :=
  if flags ≠ 0 then do some (← store memory sidStart (encode 4 flags), sidStart + 4)
  else some (memory, sidStart)

/-- What `RtlpAddKnownAce` stores when it has found room. -/
def writeAce (memory : List UInt8) (acl ace revision : Nat) (flags accessMask : UInt32)
    (objectTypeGuid inheritedObjectTypeGuid : Option Guid) (sid : Sid) (type : UInt32) :
    Option (List UInt8) := do
  let memory ← store memory (ace + 1) (encode 1 flags.toNat)
  let memory ← store memory ace (encode 1 type.toNat)
  let memory ← store memory (ace + 2)
    (encode 2 (aceSize objectTypeGuid inheritedObjectTypeGuid sid))
  let memory ← store memory (ace + 4) (encode 4 accessMask.toNat)
  let (memory, sidStart) ← writeObjectFlags memory (ace + sizeofAce)
    (aceObjectFlags objectTypeGuid inheritedObjectTypeGuid)
  let (memory, sidStart) ← copyGuid memory sidStart objectTypeGuid
  let (memory, sidStart) ← copyGuid memory sidStart inheritedObjectTypeGuid
  let (_, memory) ← rtlCopySid memory (rtlLengthSid sid) sidStart sid
  let aceCount ← load memory (acl + 4) 2
  let memory ← store memory (acl + 4) (encode 2 (aceCount + 1))
  store memory acl (encode 1 revision)

/-- `RtlpAddKnownAce`. -/
def rtlpAddKnownAce (memory : List UInt8) (acl : Nat) (revision flags accessMask : UInt32)
    (objectTypeGuid inheritedObjectTypeGuid : Option Guid) (sid : Option Sid) (type : UInt32) :
    Option (Status × List UInt8) :=
  if rtlValidSid sid = false then some (statusInvalidSid, memory)
  else do
    let sid ← sid
    if type = systemMandatoryLabelAceType ∧
        memcmp sid.identifierAuthority securityMandatoryLabelAuthority ≠
          securityMandatoryLabelAuthority.length then
      some (statusInvalidParameter, memory)
    else do
      let aclRevision ← load memory acl 1
      if maxAclRevision < aclRevision ∨ maxAclRevision < revision.toNat then
        some (statusUnknownRevision, memory)
      else if invalidFlags flags type ≠ 0 then some (statusInvalidParameter, memory)
      else do
        let (valid, ace) ← rtlFirstFreeAce memory acl
        if valid = false then some (statusInvalidAcl, memory)
        else
          match ace with
          | none => some (statusAllottedSpaceExceeded, memory)
          | some ace => do
            let aclSize ← load memory (acl + 2) 2
            if acl + aclSize < ace + aceSize objectTypeGuid inheritedObjectTypeGuid sid then
              some (statusAllottedSpaceExceeded, memory)
            else do
              let revision := if revision.toNat < aclRevision then aclRevision else revision.toNat
              some (statusSuccess, ← writeAce memory acl ace revision flags accessMask
                objectTypeGuid inheritedObjectTypeGuid sid type)

/-- `RtlAddAccessAllowedAce`. -/
def rtlAddAccessAllowedAce (memory : List UInt8) (acl : Nat) (revision accessMask : UInt32)
    (sid : Option Sid) : Option (Status × List UInt8) :=
  rtlpAddKnownAce memory acl revision 0 accessMask none none sid accessAllowedAceType

/-! ### Creating an ACL and its size -/

/-- `ROUND_UP(n, 4)`. -/
def roundUp (n : UInt32) : UInt32 := (n + 4 - 1) &&& ~~~ 3

theorem roundUp_toNat {n : UInt32} (small : n.toNat + 4 < 2 ^ 32) :
    (roundUp n).toNat = (n.toNat + 3) / 4 * 4 := by
  have sum : (n + 4 - 1).toNat = n.toNat + 3 := by
    rw [UInt32.toNat_sub_of_le]
    · rw [UInt32.toNat_add]
      change (n.toNat + 4) % 2 ^ 32 - 1 = _
      omega
    · rw [UInt32.le_iff_toNat_le, UInt32.toNat_add]
      change 1 ≤ (n.toNat + 4) % 2 ^ 32
      omega
  rw [roundUp, UInt32.toNat_and, sum]
  exact and_highMask (show n.toNat + 3 < 2 ^ 32 by omega) (show 2 ≤ 32 by decide)

/-- `RtlCreateAcl`. -/
def rtlCreateAcl (memory : List UInt8) (acl : Nat) (aclSize aclRevision : UInt32) :
    Option (Status × List UInt8) :=
  if aclSize.toNat < sizeofAcl then some (statusBufferTooSmall, memory)
  else if aclRevision.toNat < minAclRevision ∨ maxAclRevision < aclRevision.toNat ∨
      0xffff < aclSize then
    some (statusInvalidParameter, memory)
  else do
    let memory ← store memory (acl + 2) (encode 2 (roundUp aclSize).toNat)
    let memory ← store memory acl (encode 1 aclRevision.toNat)
    let memory ← store memory (acl + 4) (encode 2 0)
    let memory ← store memory (acl + 1) (encode 1 0)
    some (statusSuccess, ← store memory (acl + 6) (encode 2 0))

/-- What `RtlQueryInformationAcl` writes to its buffer. -/
inductive Information where
  | revision (aclRevision : UInt32)
  | size (aceCount aclBytesInUse aclBytesFree : UInt32)
  deriving DecidableEq

/-- `RtlQueryInformationAcl`. -/
def rtlQueryInformationAcl (memory : List UInt8) (acl : Nat) (informationLength : UInt32)
    (informationClass : Nat) : Option (Status × Option Information) := do
  let aclRevision ← load memory acl 1
  if aclRevision < minAclRevision ∨ maxAclRevision < aclRevision then
    some (statusInvalidParameter, none)
  else if informationClass = 1 then
    if informationLength < 4 then some (statusBufferTooSmall, none)
    else some (statusSuccess, some (.revision (.ofNat aclRevision)))
  else if informationClass = 2 then
    if informationLength < 12 then some (statusBufferTooSmall, none)
    else do
      let (valid, ace) ← rtlFirstFreeAce memory acl
      if valid = false then some (statusInvalidParameter, none)
      else do
        let aceCount ← load memory (acl + 4) 2
        let aclSize ← load memory (acl + 2) 2
        match ace with
        | some ace =>
          some (statusSuccess, some (.size (.ofNat aceCount) (.ofNat (ace - acl))
            (.ofNat aclSize - .ofNat (ace - acl))))
        | none =>
          some (statusSuccess, some (.size (.ofNat aceCount) (.ofNat aclSize) 0))
  else some (statusInvalidInfoClass, none)

end Nloader.Acl
