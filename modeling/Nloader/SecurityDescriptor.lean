/-
This file is about `RtlValidRelativeSecurityDescriptor` of `src/libs/ntdll/sd.c`, for a
self-relative security descriptor as the list of its bytes. A read outside of the bytes is no run.
The offsets are checked before what they lead to is read, save in an ACL: its ACEs are walked before
`AclSize` is compared with what is left of the descriptor, and an ACE that begins before the end of
its ACL is read as a whole header.
-/

import Nloader.Acl

namespace Nloader.SecurityDescriptor

open ByteBlock Acl

/-! ### The checks -/

/-- `SECURITY_DESCRIPTOR_REVISION1`. -/
def securityDescriptorRevision1 : Nat := 1

/-- `SE_DACL_PRESENT`. -/
def seDaclPresent : Nat := 0x0004

/-- `SE_SACL_PRESENT`. -/
def seSaclPresent : Nat := 0x0010

/-- `SE_SELF_RELATIVE`. -/
def seSelfRelative : Nat := 0x8000

/-- `OWNER_SECURITY_INFORMATION`. -/
def ownerSecurityInformation : Nat := 0x01

/-- `GROUP_SECURITY_INFORMATION`. -/
def groupSecurityInformation : Nat := 0x02

/-- `sizeof(SECURITY_DESCRIPTOR_RELATIVE)`. -/
def sizeofSecurityDescriptorRelative : Nat := 20

/-- `sizeof(SID)`. -/
def sizeofSid : Nat := 12

/-- `ALIGN_DOWN(Offset, ULONG)`. -/
def alignDown (offset : Nat) : Nat := offset &&& (2 ^ 64 - 2 ^ 2)

/-- `RtlpValidateSDOffsetAndSize`: what it returns, and `*MaxLength`. -/
def rtlpValidateSDOffsetAndSize (offset length minLength : Nat) : Bool × Nat :=
  if offset < sizeofSecurityDescriptorRelative then (false, 0)
  else if length ≤ offset then (false, 0)
  else if length - offset < minLength then (false, 0)
  else if alignDown offset ≠ offset then (false, 0)
  else (true, length - offset)

/-- `RtlValidSid`, for a SID in the memory. -/
def validSid (memory : List UInt8) (sid : Nat) : Option Bool := do
  let revision ← load memory sid 1
  if revision &&& 0xf ≠ sidRevision.toNat then some false
  else do
    let subAuthorityCount ← load memory (sid + 1) 1
    some (decide (subAuthorityCount ≤ sidMaxSubAuthorities.toNat))

/-- `RtlLengthSid`, for a SID in the memory. -/
def lengthSid (memory : List UInt8) (sid : Nat) : Option Nat := do
  some (8 + 4 * (← load memory (sid + 1) 1))

/-- `RtlValidAcl`. -/
def rtlValidAcl (memory : List UInt8) (acl : Nat) : Option Bool := do
  let aclSize ← load memory (acl + 2) 2
  let size := (roundUp (.ofNat aclSize)).toNat % 2 ^ 16
  let aclRevision ← load memory acl 1
  if aclRevision < minAclRevision ∨ maxAclRevision < aclRevision then some false
  else if size ≠ aclSize then some false
  else do some (← rtlFirstFreeAce memory acl).1

/-- The check of a SID that the descriptor has, or has to have. -/
def sidPart (memory : List UInt8) (securityDescriptorLength offset : Nat) (required : Bool) :
    Option Bool :=
  if offset ≠ 0 then
    let (valid, length) := rtlpValidateSDOffsetAndSize offset securityDescriptorLength sizeofSid
    if valid = false then some false
    else do
      if (← validSid memory offset) = false then some false
      else some (decide (¬ length < (← lengthSid memory offset)))
  else some (!required)

/-- The check of an ACL that the descriptor has. -/
def aclPart (memory : List UInt8) (securityDescriptorLength : Nat) (present : Bool)
    (field : Nat) : Option Bool :=
  if present then do
    let offset ← load memory field 4
    let (valid, length) := rtlpValidateSDOffsetAndSize offset securityDescriptorLength sizeofAcl
    if valid = false then some false
    else do
      if (← rtlValidAcl memory offset) = false then some false
      else some (decide (¬ length < (← load memory (offset + 2) 2)))
  else some true

/-- `RtlValidRelativeSecurityDescriptor`. -/
def rtlValidRelativeSecurityDescriptor (memory : List UInt8)
    (securityDescriptorLength requiredInformation : UInt32) : Option Bool :=
  let length := securityDescriptorLength.toNat
  let required := requiredInformation.toNat
  if length < sizeofSecurityDescriptorRelative then some false
  else do
    if (← load memory 0 1) ≠ securityDescriptorRevision1 then some false
    else
      let control ← load memory 2 2
      if control &&& seSelfRelative = 0 then some false
      else
        let owner ← load memory 4 4
        if (← sidPart memory length owner (required &&& ownerSecurityInformation ≠ 0)) = false
        then some false
        else
          let group ← load memory 8 4
          if (← sidPart memory length group (required &&& groupSecurityInformation ≠ 0)) = false
          then some false
          else
            if (← aclPart memory length (control &&& seDaclPresent ≠ 0) 16) = false
            then some false
            else aclPart memory length (control &&& seSaclPresent ≠ 0) 12

/-! ### What is read -/

variable {memory : List UInt8} {acl aclEnd : Nat}

/-- The walk over the ACEs ends at an ACE of an ACL that is too old for it. -/
def Refused (memory : List UInt8) (acl place : Nat) : Prop :=
  load memory place 1 = some accessAllowedCompoundAceType ∧
    ∃ aclRevision, load memory acl 1 = some aclRevision ∧ aclRevision < aclRevision3

/-- The places to which the walk over some ACEs comes. -/
inductive WalksTo (memory : List UInt8) (acl aclEnd : Nat) : Nat → Nat → Nat → Prop
  | here (left current : Nat) : WalksTo memory acl aclEnd (left + 1) current current
  | next {left current aceSize place : Nat} : current < aclEnd → ¬ Refused memory acl current →
      load memory (current + 2) 2 = some aceSize →
      WalksTo memory acl aclEnd left (current + aceSize) place →
      WalksTo memory acl aclEnd (left + 1) current place

/-- What is read of the header of an ACE is within the memory. -/
def HeaderWithin (memory : List UInt8) (acl place : Nat) : Prop :=
  place < memory.length ∧ (Refused memory acl place ∨ place + 4 ≤ memory.length)

/-- A walk reads within the memory if and only if the headers to which it comes are within. -/
theorem walk_isSome_iff (header : acl < memory.length) (left current : Nat) :
    (walk memory acl aclEnd left current).isSome ↔
      ∀ place, WalksTo memory acl aclEnd left current place → place < aclEnd →
        HeaderWithin memory acl place := by
  obtain ⟨aclRevision, revision⟩ := exists_load (show acl + 1 ≤ memory.length from header)
  induction left generalizing current with
  | zero =>
    refine ⟨fun _ place walks => ?_, fun _ => rfl⟩
    cases walks
  | succ left inductionHypothesis =>
    rw [walk]
    by_cases ended : aclEnd ≤ current
    · rw [if_pos ended]
      refine ⟨fun _ place walks before => ?_, fun _ => rfl⟩
      cases walks with
      | here => exact absurd before (not_lt.mpr ended)
      | next inside => exact absurd inside (not_lt.mpr ended)
    rw [if_neg ended]
    have inside := not_le.mp ended
    cases type : load memory current 1 with
    | none =>
      refine ⟨fun some' => absurd some' Bool.false_ne_true, fun within => ?_⟩
      obtain ⟨aceType, loaded⟩ := exists_load
        (show current + 1 ≤ memory.length from (within current (.here _ _) inside).1)
      exact nomatch type.symm.trans loaded
    | some aceType =>
      have first : current < memory.length := (bounds_of_load type).1
      rw [revision]
      dsimp only [Option.bind_eq_bind, Option.bind_some]
      have refused : aceType = accessAllowedCompoundAceType ∧ aclRevision < aclRevision3 ↔
          Refused memory acl current := by
        unfold Refused
        rw [type, revision]
        simp
      by_cases old : aceType = accessAllowedCompoundAceType ∧ aclRevision < aclRevision3
      · rw [if_pos old]
        rw [refused] at old
        refine ⟨fun _ place walks _ => ?_, fun _ => rfl⟩
        cases walks with
        | here => exact ⟨first, .inl old⟩
        | next _ goesOn => exact absurd old goesOn
      rw [if_neg old]
      rw [refused] at old
      cases size : load memory (current + 2) 2 with
      | none =>
        refine ⟨fun some' => absurd some' Bool.false_ne_true, fun within => ?_⟩
        obtain ⟨aceSize, loaded⟩ := exists_load
          (show current + 2 + 2 ≤ memory.length from
            (within current (.here _ _) inside).2.resolve_left old)
        exact nomatch size.symm.trans loaded
      | some aceSize =>
        rw [Option.bind_some, inductionHypothesis]
        refine ⟨fun within place walks before => ?_, fun within place walks before =>
          within place (.next inside old size walks) before⟩
        cases walks with
        | here =>
          have whole : current + 2 + 2 ≤ memory.length := (bounds_of_load size).1
          exact ⟨first, .inr whole⟩
        | next _ _ size' walks' =>
          rw [size] at size'
          exact within place (Option.some.inj size' ▸ walks') before

/-- All headers to which the walk over the ACEs of an ACL comes are within. -/
def AcesWithin (memory : List UInt8) (acl : Nat) : Prop :=
  ∀ aceCount aclSize, load memory (acl + 4) 2 = some aceCount →
    load memory (acl + 2) 2 = some aclSize → ∀ place,
      WalksTo memory acl (acl + aclSize) aceCount (acl + sizeofAcl) place →
        place < acl + aclSize → HeaderWithin memory acl place

/-- `RtlFirstFreeAce` reads within the memory if and only if the headers are within. -/
theorem rtlFirstFreeAce_isSome_iff (header : acl + sizeofAcl ≤ memory.length) :
    (rtlFirstFreeAce memory acl).isSome ↔ AcesWithin memory acl := by
  unfold sizeofAcl at header
  obtain ⟨aceCount, count⟩ := exists_load (show acl + 4 + 2 ≤ memory.length by omega)
  obtain ⟨aclSize, size⟩ := exists_load (show acl + 2 + 2 ≤ memory.length by omega)
  have within : AcesWithin memory acl ↔ ∀ place,
      WalksTo memory acl (acl + aclSize) aceCount (acl + sizeofAcl) place →
        place < acl + aclSize → HeaderWithin memory acl place := by
    unfold AcesWithin
    rw [count, size]
    simp
  rw [within, ← walk_isSome_iff (show acl < memory.length by omega), rtlFirstFreeAce, count, size]
  dsimp only [Option.bind_eq_bind, Option.bind_some]
  split
  · rename_i none
    rw [none, walk]
    simp
  · cases walk memory acl (acl + aclSize) aceCount (acl + sizeofAcl) with
    | none => rfl
    | some free => cases free <;> rfl

/-- An ACL passes the checks before its ACEs are walked. -/
def AclKnown (memory : List UInt8) (acl : Nat) : Prop :=
  ∃ aclRevision aclSize, load memory acl 1 = some aclRevision ∧
    load memory (acl + 2) 2 = some aclSize ∧ minAclRevision ≤ aclRevision ∧
      aclRevision ≤ maxAclRevision ∧ 4 ∣ aclSize

/-- The size of an ACL is a multiple of four. -/
theorem roundUp_eq_iff {size : Nat} (small : size < 256 ^ 2) :
    (roundUp (.ofNat size)).toNat % 2 ^ 16 = size ↔ 4 ∣ size := by
  have same : (UInt32.ofNat size).toNat = size := by
    rw [UInt32.toNat_ofNat', Nat.mod_eq_of_lt (by omega)]
  rw [roundUp_toNat (by omega), same]
  omega

/-- `RtlValidAcl` reads within the memory if and only if it does not come to the ACEs, or their
headers are within. -/
theorem rtlValidAcl_isSome_iff (header : acl + sizeofAcl ≤ memory.length) :
    (rtlValidAcl memory acl).isSome ↔ (AclKnown memory acl → AcesWithin memory acl) := by
  have free := rtlFirstFreeAce_isSome_iff header
  unfold sizeofAcl at header
  obtain ⟨aclRevision, revision⟩ := exists_load (show acl + 1 ≤ memory.length by omega)
  obtain ⟨aclSize, size⟩ := exists_load (show acl + 2 + 2 ≤ memory.length by omega)
  have known : AclKnown memory acl ↔ minAclRevision ≤ aclRevision ∧
      aclRevision ≤ maxAclRevision ∧ 4 ∣ aclSize := by
    unfold AclKnown
    rw [revision, size]
    simp
  rw [known, ← free, rtlValidAcl, revision, size]
  dsimp only [Option.bind_eq_bind, Option.bind_some]
  split
  · rename_i unknown
    refine ⟨fun _ all => absurd unknown (not_or.mpr ⟨by omega, by omega⟩), fun _ => rfl⟩
  rename_i range
  split
  · rename_i odd
    rw [ne_eq, roundUp_eq_iff (bounds_of_load size).2] at odd
    exact ⟨fun _ all => absurd all.2.2 odd, fun _ => rfl⟩
  · rename_i even
    rw [ne_eq, not_not, roundUp_eq_iff (bounds_of_load size).2] at even
    have all : minAclRevision ≤ aclRevision ∧ aclRevision ≤ maxAclRevision ∧ 4 ∣ aclSize :=
      ⟨by omega, by omega, even⟩
    cases rtlFirstFreeAce memory acl with
    | none => exact ⟨fun some' => absurd some' Bool.false_ne_true, fun within => within all⟩
    | some free => exact ⟨fun _ _ => rfl, fun _ => rfl⟩

/-- An offset is aligned, and what it leads to is behind the header and within. -/
def Placed (offset length minLength : Nat) : Prop :=
  sizeofSecurityDescriptorRelative ≤ offset ∧ offset < length ∧ offset + minLength ≤ length ∧
    4 ∣ offset

instance (offset length minLength : Nat) : Decidable (Placed offset length minLength) :=
  inferInstanceAs (Decidable (_ ∧ _))

theorem rtlpValidateSDOffsetAndSize_eq {offset length minLength : Nat} (small : offset < 2 ^ 32) :
    rtlpValidateSDOffsetAndSize offset length minLength =
      if Placed offset length minLength then (true, length - offset) else (false, 0) := by
  have aligned : alignDown offset ≠ offset ↔ ¬ 4 ∣ offset := by
    rw [alignDown, and_highMask (show offset < 2 ^ 64 by omega) (by decide)]
    omega
  unfold rtlpValidateSDOffsetAndSize
  by_cases placed : Placed offset length minLength
  · have range := placed
    obtain ⟨behind, inside, room, multiple⟩ := range
    rw [if_neg (not_lt.mpr behind), if_neg (not_le.mpr inside), if_neg (by omega),
      if_neg (aligned.not.mpr (not_not_intro multiple)), if_pos placed]
  · rw [if_neg placed]
    unfold Placed at placed
    split
    · rfl
    split
    · rfl
    split
    · rfl
    split
    · rfl
    · rename_i multiple
      rw [aligned, not_not] at multiple
      exact absurd ⟨by omega, by omega, by omega, multiple⟩ placed

/-! ### The parts -/

section Parts

variable {field offset : Nat} {present required : Bool}

/-- A SID lies within the memory. -/
def SidWithin (memory : List UInt8) (sid : Nat) : Prop :=
  ∃ length, lengthSid memory sid = some length ∧ sid + length ≤ memory.length

/-- An ACL lies within the memory. -/
def AclWithin (memory : List UInt8) (acl : Nat) : Prop :=
  ∃ aclSize, load memory (acl + 2) 2 = some aclSize ∧ acl + aclSize ≤ memory.length

/-- The check of a SID reads within the memory, and passes none that does not lie within. -/
theorem sidPart_spec (small : offset < 2 ^ 32) :
    ∃ valid, sidPart memory memory.length offset required = some valid ∧
      (valid = true → offset ≠ 0 → SidWithin memory offset) := by
  unfold sidPart
  by_cases absent : offset = 0
  · rw [if_neg (not_not_intro absent)]
    exact ⟨_, rfl, fun _ present => absurd absent present⟩
  rw [if_pos absent, rtlpValidateSDOffsetAndSize_eq small]
  by_cases placed : Placed offset memory.length sizeofSid
  · rw [if_pos placed]
    have room : offset + 12 ≤ memory.length := placed.2.2.1
    obtain ⟨revision, revised⟩ := exists_load (show offset + 1 ≤ memory.length by omega)
    obtain ⟨count, counted⟩ := exists_load (show offset + 1 + 1 ≤ memory.length by omega)
    have length : lengthSid memory offset = some (8 + 4 * count) := by
      rw [lengthSid, counted]
      rfl
    have valid : ∃ valid, validSid memory offset = some valid := by
      rw [validSid, revised, counted]
      dsimp only [Option.bind_eq_bind, Option.bind_some]
      split
      · exact ⟨_, rfl⟩
      · exact ⟨_, rfl⟩
    obtain ⟨valid, checked⟩ := valid
    rw [checked, length]
    cases valid with
    | false => exact ⟨false, rfl, fun impossible => absurd impossible Bool.false_ne_true⟩
    | true =>
      refine ⟨_, rfl, fun fits _ => ⟨_, length, ?_⟩⟩
      rw [decide_eq_true_iff] at fits
      omega
  · rw [if_neg placed]
    exact ⟨false, rfl, fun impossible => absurd impossible Bool.false_ne_true⟩

/-- The check of an ACL comes to its ACEs. -/
def Reached (memory : List UInt8) (offset : Nat) : Prop :=
  Placed offset memory.length sizeofAcl ∧ AclKnown memory offset

/-- The check of an ACL reads within the memory if and only if it does not come to the ACEs, or
their headers are within; it passes no ACL that does not lie within. -/
theorem aclPart_spec (loaded : load memory field 4 = some offset) :
    ((aclPart memory memory.length present field).isSome ↔
        (present = true → Reached memory offset → AcesWithin memory offset)) ∧
      (aclPart memory memory.length present field = some true → present = true →
        AclWithin memory offset) := by
  unfold aclPart
  have small : offset < 2 ^ 32 := (bounds_of_load loaded).2
  cases present with
  | false => simp
  | true =>
    rw [loaded, if_pos rfl]
    dsimp only [Option.bind_eq_bind, Option.bind_some]
    rw [rtlpValidateSDOffsetAndSize_eq small]
    by_cases placed : Placed offset memory.length sizeofAcl
    · rw [if_pos placed]
      have room : offset + 8 ≤ memory.length := placed.2.2.1
      have reads := rtlValidAcl_isSome_iff room
      obtain ⟨aclSize, size⟩ := exists_load (show offset + 2 + 2 ≤ memory.length by omega)
      have reached : Reached memory offset ↔ AclKnown memory offset := and_iff_right placed
      rw [size, reached]
      cases walked : rtlValidAcl memory offset with
      | none =>
        rw [walked] at reads
        exact ⟨⟨fun some' => absurd some' Bool.false_ne_true, fun within => reads.mpr (within rfl)⟩,
          nofun⟩
      | some valid =>
        rw [walked] at reads
        cases valid with
        | false => exact ⟨⟨fun _ _ => reads.mp rfl, fun _ => rfl⟩, nofun⟩
        | true =>
          refine ⟨⟨fun _ _ => reads.mp rfl, fun _ => rfl⟩, fun fits _ => ⟨aclSize, size, ?_⟩⟩
          have enough := decide_eq_true_iff.mp (Option.some.inj fits)
          omega
    · rw [if_neg placed]
      exact ⟨⟨fun _ _ reached => absurd reached.1 placed, fun _ => rfl⟩, nofun⟩

end Parts

/-! ### The descriptor -/

/-- What a descriptor refers to lies within its bytes. -/
structure PartsWithin (memory : List UInt8) : Prop where
  owner : ∀ owner, load memory 4 4 = some owner → owner ≠ 0 → SidWithin memory owner
  group : ∀ group, load memory 8 4 = some group → group ≠ 0 → SidWithin memory group
  dacl : ∀ control dacl, load memory 2 2 = some control → control &&& seDaclPresent ≠ 0 →
    load memory 16 4 = some dacl → AclWithin memory dacl
  sacl : ∀ control sacl, load memory 2 2 = some control → control &&& seSaclPresent ≠ 0 →
    load memory 12 4 = some sacl → AclWithin memory sacl

/-- The checks before those of the ACLs are passed. -/
def SidsPassed (memory : List UInt8) (requiredInformation : UInt32) : Prop :=
  sizeofSecurityDescriptorRelative ≤ memory.length ∧
    load memory 0 1 = some securityDescriptorRevision1 ∧
    (∃ control, load memory 2 2 = some control ∧ control &&& seSelfRelative ≠ 0) ∧
    (∃ owner, load memory 4 4 = some owner ∧ sidPart memory memory.length owner
      (requiredInformation.toNat &&& ownerSecurityInformation ≠ 0) = some true) ∧
    ∃ group, load memory 8 4 = some group ∧ sidPart memory memory.length group
      (requiredInformation.toNat &&& groupSecurityInformation ≠ 0) = some true

/-- The headers of the ACEs to which the checks come are within: those of the DACL, and, if that
passes, those of the SACL. -/
def HeadersWithin (memory : List UInt8) (requiredInformation : UInt32) : Prop :=
  SidsPassed memory requiredInformation → ∀ control dacl sacl, load memory 2 2 = some control →
    load memory 16 4 = some dacl → load memory 12 4 = some sacl →
      (control &&& seDaclPresent ≠ 0 → Reached memory dacl → AcesWithin memory dacl) ∧
      (aclPart memory memory.length (control &&& seDaclPresent ≠ 0) 16 = some true →
        control &&& seSaclPresent ≠ 0 → Reached memory sacl → AcesWithin memory sacl)

/-- The condition, where the checks come to the ACLs: both are checked within. -/
theorem headersWithin_iff {requiredInformation : UInt32} {control dacl sacl : Nat}
    (passed : SidsPassed memory requiredInformation) (controlled : load memory 2 2 = some control)
    (guarded : load memory 16 4 = some dacl) (audited : load memory 12 4 = some sacl) :
    HeadersWithin memory requiredInformation ↔
      (aclPart memory memory.length (control &&& seDaclPresent ≠ 0) 16).isSome ∧
        (aclPart memory memory.length (control &&& seDaclPresent ≠ 0) 16 = some true →
          (aclPart memory memory.length (control &&& seSaclPresent ≠ 0) 12).isSome) := by
  rw [(aclPart_spec guarded).1, (aclPart_spec audited).1, decide_eq_true_iff, decide_eq_true_iff]
  constructor
  · exact fun within => within passed control dacl sacl controlled guarded audited
  · intro within _ control' dacl' sacl' controlled' guarded' audited'
    rw [Option.some.inj (controlled'.symm.trans controlled),
      Option.some.inj (guarded'.symm.trans guarded), Option.some.inj (audited'.symm.trans audited)]
    exact within

/-- Where all checks are passed, everything lies within. -/
theorem partsWithin {control owner group dacl sacl : Nat}
    (controlled : load memory 2 2 = some control) (owned : load memory 4 4 = some owner)
    (grouped : load memory 8 4 = some group) (guarded : load memory 16 4 = some dacl)
    (audited : load memory 12 4 = some sacl) (ownerWithin : owner ≠ 0 → SidWithin memory owner)
    (groupWithin : group ≠ 0 → SidWithin memory group)
    (daclValid : aclPart memory memory.length (control &&& seDaclPresent ≠ 0) 16 = some true)
    (saclValid : aclPart memory memory.length (control &&& seSaclPresent ≠ 0) 12 = some true) :
    PartsWithin memory where
  owner owner' again := by
    rw [Option.some.inj (again.symm.trans owned)]
    exact ownerWithin
  group group' again := by
    rw [Option.some.inj (again.symm.trans grouped)]
    exact groupWithin
  dacl control' dacl' again present again' := by
    rw [Option.some.inj (again.symm.trans controlled)] at present
    rw [Option.some.inj (again'.symm.trans guarded)]
    exact (aclPart_spec guarded).2 daclValid (decide_eq_true present)
  sacl control' sacl' again present again' := by
    rw [Option.some.inj (again.symm.trans controlled)] at present
    rw [Option.some.inj (again'.symm.trans audited)]
    exact (aclPart_spec audited).2 saclValid (decide_eq_true present)

/-- A descriptor is checked within its bytes, and is valid only if what it refers to lies within, if
and only if the headers of the ACEs to which the checks come are within. -/
theorem rtlValidRelativeSecurityDescriptor_iff (memory : List UInt8)
    (securityDescriptorLength requiredInformation : UInt32)
    (whole : memory.length = securityDescriptorLength.toNat) :
    (∃ valid, rtlValidRelativeSecurityDescriptor memory securityDescriptorLength
        requiredInformation = some valid ∧ (valid = true → PartsWithin memory)) ↔
      HeadersWithin memory requiredInformation := by
  unfold rtlValidRelativeSecurityDescriptor
  dsimp only
  rw [← whole]
  -- A check that fails reads no more, and the condition asks for no more.
  have refuses : ∀ {run : Option Bool}, run = some false →
      ¬ SidsPassed memory requiredInformation →
      ((∃ valid, run = some valid ∧ (valid = true → PartsWithin memory)) ↔
        HeadersWithin memory requiredInformation) := by
    intro run refused unpassed
    refine ⟨fun _ passed => absurd passed unpassed, fun _ => ⟨false, refused, fun impossible => ?_⟩⟩
    exact absurd impossible Bool.false_ne_true
  by_cases short : memory.length < sizeofSecurityDescriptorRelative
  · exact refuses (if_pos short) fun passed => absurd short (not_lt.mpr passed.1)
  rw [if_neg short]
  unfold sizeofSecurityDescriptorRelative at short
  obtain ⟨revision, revised⟩ := exists_load (show 0 + 1 ≤ memory.length by omega)
  obtain ⟨control, controlled⟩ := exists_load (show 2 + 2 ≤ memory.length by omega)
  obtain ⟨owner, owned⟩ := exists_load (show 4 + 4 ≤ memory.length by omega)
  obtain ⟨group, grouped⟩ := exists_load (show 8 + 4 ≤ memory.length by omega)
  obtain ⟨sacl, audited⟩ := exists_load (show 12 + 4 ≤ memory.length by omega)
  obtain ⟨dacl, guarded⟩ := exists_load (show 16 + 4 ≤ memory.length by omega)
  obtain ⟨ownerValid, ownerChecked, ownerWithin⟩ := @sidPart_spec memory owner
    (requiredInformation.toNat &&& ownerSecurityInformation ≠ 0) (bounds_of_load owned).2
  obtain ⟨groupValid, groupChecked, groupWithin⟩ := @sidPart_spec memory group
    (requiredInformation.toNat &&& groupSecurityInformation ≠ 0) (bounds_of_load grouped).2
  rw [revised, controlled, owned, grouped]
  dsimp only [Option.bind_eq_bind, Option.bind_some]
  rw [ownerChecked, groupChecked]
  dsimp only [Option.bind_some]
  by_cases known : revision = securityDescriptorRevision1
  swap
  · refine refuses (if_pos known) fun passed => known ?_
    exact Option.some.inj (revised.symm.trans passed.2.1)
  rw [if_neg (not_not_intro known)]
  by_cases absolute : control &&& seSelfRelative = 0
  · refine refuses (if_pos absolute) ?_
    rintro ⟨_, _, ⟨control', again, relative⟩, _⟩
    rw [Option.some.inj (again.symm.trans controlled)] at relative
    exact relative absolute
  rw [if_neg absolute]
  cases ownerValid with
  | false =>
    refine refuses rfl ?_
    rintro ⟨_, _, _, ⟨owner', again, passed⟩, _⟩
    rw [Option.some.inj (again.symm.trans owned), ownerChecked] at passed
    exact Bool.false_ne_true (Option.some.inj passed)
  | true =>
  cases groupValid with
  | false =>
    refine refuses rfl ?_
    rintro ⟨_, _, _, _, group', again, passed⟩
    rw [Option.some.inj (again.symm.trans grouped), groupChecked] at passed
    exact Bool.false_ne_true (Option.some.inj passed)
  | true =>
  have passed : SidsPassed memory requiredInformation :=
    ⟨not_lt.mp short, known ▸ revised, ⟨control, controlled, absolute⟩,
      ⟨owner, owned, ownerChecked⟩, group, grouped, groupChecked⟩
  rw [headersWithin_iff passed controlled guarded audited]
  have parts := partsWithin controlled owned grouped guarded audited (ownerWithin rfl)
    (groupWithin rfl)
  rw [if_neg Bool.noConfusion, if_neg Bool.noConfusion]
  cases checked : aclPart memory memory.length (control &&& seDaclPresent ≠ 0) 16 with
  | none => simp
  | some daclValid =>
    rw [Option.bind_some]
    cases daclValid with
    | false => simp
    | true =>
      rw [if_neg Bool.noConfusion]
      cases checked' : aclPart memory memory.length (control &&& seSaclPresent ≠ 0) 12 with
      | none => simp
      | some saclValid =>
        refine ⟨fun _ => ⟨rfl, fun _ => rfl⟩, fun _ => ⟨saclValid, rfl, fun valid => ?_⟩⟩
        exact parts checked (by rw [checked', valid])

/-- A descriptor of 28 bytes, whose DACL has an ACE behind them. -/
def cutDescriptor : List UInt8 :=
  [1, 0, 0x04, 0x80, 0, 0, 0, 0, 0, 0, 0, 0, 0, 0, 0, 0, 20, 0, 0, 0, 2, 0, 12, 0, 1, 0, 0, 0]

theorem rtlValidRelativeSecurityDescriptor_iff_cutDescriptor :
    (∃ valid, rtlValidRelativeSecurityDescriptor cutDescriptor 28 0 = some valid ∧
        (valid = true → PartsWithin cutDescriptor)) ↔
      HeadersWithin cutDescriptor 0 :=
  rtlValidRelativeSecurityDescriptor_iff cutDescriptor 28 0 (by decide)

/-- The header of the ACE is read. -/
theorem not_rtlValidRelativeSecurityDescriptor :
    rtlValidRelativeSecurityDescriptor cutDescriptor 28 0 = none := by
  decide +kernel

end Nloader.SecurityDescriptor
