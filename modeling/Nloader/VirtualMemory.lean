/-
This file models `NtAllocateVirtualMemory` of `src/libs/ntdll/mm.c`, with `mmap` as a parameter, and
says what it leaves to the caller.

The base is rounded down to a page and the size up, each for itself. So a region that begins in the
middle of a page can end outside of what is mapped. And the address that `mmap` returns is compared
with 0, not with `MAP_FAILED`, so that a call that maps nothing succeeds all the same.
-/

import Nloader.Events
import Nloader.Library.ByteBlock

namespace Nloader.VirtualMemory

open Nloader.Events ByteBlock

/-! ### Constants -/

/-- `STATUS_INSUFFICIENT_RESOURCES`. -/
def statusInsufficientResources : Status := 0xC000009A

/-- `PAGE_READONLY`. -/
def pageReadonly : UInt32 := 0x02

/-- `PAGE_READWRITE`. -/
def pageReadwrite : UInt32 := 0x04

/-- `PAGE_EXECUTE`. -/
def pageExecute : UInt32 := 0x10

/-- `PROT_READ`. -/
def protRead : UInt32 := 0x1

/-- `PROT_WRITE`. -/
def protWrite : UInt32 := 0x2

/-- `PROT_EXEC`. -/
def protExec : UInt32 := 0x4

/-- `MAP_PRIVATE`. -/
def mapPrivate : UInt32 := 0x02

/-- `MAP_FIXED`. -/
def mapFixed : UInt32 := 0x10

/-- `MAP_ANON`. -/
def mapAnon : UInt32 := 0x20

/-- `MAP_FAILED`, which is `(void *) -1`. -/
def mapFailed : UInt64 := 0xffffffffffffffff

/-! ### Pages -/

/-- The size of a page, a power of two that is an `int`. -/
structure Pages where
  bits : Nat
  small : bits ≤ 30

/-- `PAGE_SIZE`. -/
def Pages.pageSize (pages : Pages) : Int32 := .ofNat (2 ^ pages.bits)

/-- `PAGE_ALIGN`. The mask is an `int` whose sign is extended. -/
def Pages.pageAlign (pages : Pages) (va : UInt64) : UInt64 :=
  va &&& (~~~ (pages.pageSize - 1)).toInt64.toUInt64

/-- `ROUND_TO_PAGES`. -/
def Pages.roundToPages (pages : Pages) (size : UInt64) : UInt64 :=
  (size + pages.pageSize.toInt64.toUInt64 - 1) &&& (~~~ (pages.pageSize - 1)).toInt64.toUInt64

/-! ### The function -/

/-- The arguments of `mmap`, but for the file. -/
structure MapCall where
  address : UInt64
  size : UInt64
  prot : UInt32
  flags : UInt32

/-- What `NtAllocateVirtualMemory` leaves: its status, what is behind its two pointers, and the
call of `mmap` that it has made. -/
structure Returned where
  status : Status
  baseAddress : UInt64
  regionSize : UInt64
  mapped : Option MapCall

/-- The `switch` over `Protect`; `none` is `abort`. -/
def protOf (protect : UInt32) : Option UInt32 :=
  if protect = pageReadonly then some protRead
  else if protect = pageReadwrite then some (protRead ||| protWrite)
  else if protect = pageExecute then some protExec
  else none

/-- The call of `mmap`. -/
def mapCall (pages : Pages) (baseAddress regionSize : UInt64) (prot : UInt32) : MapCall :=
  let flags := mapPrivate ||| mapAnon
  let address := if baseAddress ≠ 0 then pages.pageAlign baseAddress else 0
  { address := address
    size := pages.roundToPages regionSize
    prot := prot
    flags := if address ≠ 0 then flags ||| mapFixed else flags }

/-- `NtAllocateVirtualMemory`; `none` is `abort`. -/
def ntAllocateVirtualMemory (pages : Pages) (mmap : MapCall → UInt64)
    (baseAddress regionSize : UInt64) (protect : UInt32) : Option Returned :=
  if regionSize = 0 then
    some
      { status := statusInvalidParameter
        baseAddress := baseAddress
        regionSize := regionSize
        mapped := none }
  else
    (protOf protect).map fun prot =>
      let call := mapCall pages baseAddress regionSize prot
      let address := mmap call
      if address ≠ 0 then
        { status := statusSuccess
          baseAddress := address
          regionSize := call.size
          mapped := some call }
      else
        { status := statusInsufficientResources
          baseAddress := baseAddress
          regionSize := call.size
          mapped := some call }

/-! ### Rounding -/

theorem toNat_pageSize (pages : Pages) :
    pages.pageSize.toInt64.toUInt64.toNat = 2 ^ pages.bits := by
  have all : ∀ bits : Fin 31,
      (Int32.ofNat (2 ^ bits.val)).toInt64.toUInt64.toNat = 2 ^ bits.val := by
    decide
  exact all ⟨pages.bits, Nat.lt_succ_of_le pages.small⟩

theorem toNat_mask (pages : Pages) :
    (~~~ (pages.pageSize - 1)).toInt64.toUInt64.toNat = 2 ^ 64 - 2 ^ pages.bits := by
  have all : ∀ bits : Fin 31,
      (~~~ (Int32.ofNat (2 ^ bits.val) - 1)).toInt64.toUInt64.toNat = 2 ^ 64 - 2 ^ bits.val := by
    decide
  exact all ⟨pages.bits, Nat.lt_succ_of_le pages.small⟩

theorem toNat_pageAlign (pages : Pages) (va : UInt64) :
    (pages.pageAlign va).toNat = va.toNat / 2 ^ pages.bits * 2 ^ pages.bits := by
  rw [Pages.pageAlign, UInt64.toNat_and, toNat_mask]
  exact and_highMask va.toNat_lt (pages.small.trans (by decide))

theorem toNat_roundToPages (pages : Pages) (size : UInt64) :
    (pages.roundToPages size).toNat =
      (size.toNat + 2 ^ pages.bits - 1) % 2 ^ 64 / 2 ^ pages.bits * 2 ^ pages.bits := by
  have positive := Nat.two_pow_pos pages.bits
  have page : 2 ^ pages.bits < 2 ^ 64 :=
    Nat.pow_lt_pow_right (by decide) (lt_of_le_of_lt pages.small (by decide))
  have sum : (size + pages.pageSize.toInt64.toUInt64 - 1).toNat =
      (size.toNat + 2 ^ pages.bits - 1) % 2 ^ 64 := by
    rw [UInt64.toNat_sub, UInt64.toNat_add, toNat_pageSize]
    change (2 ^ 64 - 1 + (size.toNat + 2 ^ pages.bits) % 2 ^ 64) % 2 ^ 64 = _
    omega
  rw [Pages.roundToPages, UInt64.toNat_and, toNat_mask, sum]
  exact and_highMask (Nat.mod_lt _ (by decide)) (pages.small.trans (by decide))

/-- A size is rounded up, or to 0 when the last page would end outside of the address space. -/
theorem roundToPages_cases (pages : Pages) (size : UInt64) :
    (pages.roundToPages size).toNat =
        (size.toNat + 2 ^ pages.bits - 1) / 2 ^ pages.bits * 2 ^ pages.bits ∨
      pages.roundToPages size = 0 := by
  have bound := size.toNat_lt
  have page : 2 ^ pages.bits < 2 ^ 64 :=
    Nat.pow_lt_pow_right (by decide) (lt_of_le_of_lt pages.small (by decide))
  have rounded := toNat_roundToPages pages size
  by_cases within : size.toNat + 2 ^ pages.bits - 1 < 2 ^ 64
  · rw [Nat.mod_eq_of_lt within] at rounded
    exact .inl rounded
  · have wrapped : (size.toNat + 2 ^ pages.bits - 1) % 2 ^ 64 < 2 ^ pages.bits := by omega
    rw [Nat.div_eq_of_lt wrapped, Nat.zero_mul] at rounded
    exact .inr (UInt64.toNat_inj.mp rounded)

/-! ### What the function leaves -/

variable {pages : Pages}

/-- What the documentation of `mmap` says of the addresses it returns: they are at the beginning of
a page, a fixed one is the one that was asked for, one that the system has chosen is not 0; and
nothing cannot be mapped. -/
structure Mmap (pages : Pages) where
  map : MapCall → UInt64
  boundary : ∀ call, map call ≠ mapFailed → 2 ^ pages.bits ∣ (map call).toNat
  fixed : ∀ call, map call ≠ mapFailed → call.flags &&& mapFixed ≠ 0 → map call = call.address
  chosen : ∀ call, map call ≠ mapFailed → call.flags &&& mapFixed = 0 → map call ≠ 0
  nothing : ∀ call, call.size = 0 → map call = mapFailed

/-- A region that is asked for: a base, or 0 for any, and a size, which is not 0. -/
structure Request where
  base : UInt64
  size : UInt64
  positive : size ≠ 0
  within : base.toNat + size.toNat < 2 ^ 64

/-- A success, for which `mmap` has succeeded: the region is what it has mapped, its bounds are
those of pages, and what was asked for is in it. -/
structure Returned.Allocated (returned : Returned) (mmap : Mmap pages)
    (request : Request) : Prop where
  status : returned.status = statusSuccess
  mapped : ∃ call, returned.mapped = some call ∧ mmap.map call ≠ mapFailed ∧
    returned.baseAddress = mmap.map call ∧ returned.regionSize = call.size
  baseAligned : 2 ^ pages.bits ∣ returned.baseAddress.toNat
  sizeAligned : 2 ^ pages.bits ∣ returned.regionSize.toNat
  contains : request.base ≠ 0 → returned.baseAddress.toNat ≤ request.base.toNat ∧
    request.base.toNat + request.size.toNat ≤
      returned.baseAddress.toNat + returned.regionSize.toNat

/-- An error, with which the base and the size are as they were. -/
structure Returned.Refused (returned : Returned) (request : Request) : Prop where
  status : 0xC0000000 ≤ returned.status
  base : returned.baseAddress = request.base
  size : returned.regionSize = request.size

/-- A call that returns, with a region or with an error. -/
def Allocates (mmap : Mmap pages) (request : Request) (protect : UInt32) : Prop :=
  ∃ returned,
    ntAllocateVirtualMemory pages mmap.map request.base request.size protect = some returned ∧
      (returned.Allocated mmap request ∨ returned.Refused request)

/-- The fixed address is asked for exactly when it is not 0. -/
theorem mapCall_fixed (pages : Pages) (base size : UInt64) (prot : UInt32) :
    (mapCall pages base size prot).flags &&& mapFixed ≠ 0 ↔
      (mapCall pages base size prot).address ≠ 0 := by
  have chosen : (mapCall pages base size prot).flags =
      if (mapCall pages base size prot).address ≠ 0 then mapPrivate ||| mapAnon ||| mapFixed
      else mapPrivate ||| mapAnon := rfl
  rw [chosen]
  split
  · rename_i other
    exact iff_of_true (by decide) other
  · rename_i zero
    exact iff_of_false (by decide) zero

theorem mapCall_address (pages : Pages) (base size : UInt64) (prot : UInt32) :
    (mapCall pages base size prot).address.toNat =
      base.toNat / 2 ^ pages.bits * 2 ^ pages.bits := by
  dsimp only [mapCall]
  split
  · exact toNat_pageAlign pages base
  · rename_i zero
    rw [not_not.mp zero]
    simp

theorem map_ne_zero (mmap : Mmap pages) (base size : UInt64) (prot : UInt32)
    (maps : mmap.map (mapCall pages base size prot) ≠ mapFailed) :
    mmap.map (mapCall pages base size prot) ≠ 0 := by
  by_cases address : (mapCall pages base size prot).address = 0
  · exact mmap.chosen _ maps (not_not.mp (mt (mapCall_fixed pages base size prot).mp
      (not_not.mpr address)))
  · rw [mmap.fixed _ maps ((mapCall_fixed pages base size prot).mpr address)]
    exact address

/-- A call with a known protection succeeds, whether `mmap` does or not. -/
theorem ntAllocateVirtualMemory_eq (mmap : Mmap pages) (request : Request) {protect prot : UInt32}
    (known : protOf protect = some prot) :
    ntAllocateVirtualMemory pages mmap.map request.base request.size protect =
      some
        { status := statusSuccess
          baseAddress := mmap.map (mapCall pages request.base request.size prot)
          regionSize := pages.roundToPages request.size
          mapped := some (mapCall pages request.base request.size prot) } := by
  have other : mmap.map (mapCall pages request.base request.size prot) ≠ 0 := by
    by_cases maps : mmap.map (mapCall pages request.base request.size prot) = mapFailed
    · rw [maps]
      decide
    · exact map_ne_zero mmap _ _ _ maps
  rw [ntAllocateVirtualMemory, if_neg request.positive, known, Option.map_some]
  dsimp only
  rw [if_pos other]
  rfl

/-- What is mapped for a request contains it exactly when the base is not within the first page,
and the size covers the part of the page before the base too. -/
theorem contains_iff (mmap : Mmap pages) (request : Request) {prot : UInt32}
    (maps : mmap.map (mapCall pages request.base request.size prot) ≠ mapFailed) :
    (mmap.map (mapCall pages request.base request.size prot)).toNat ≤ request.base.toNat ∧
        request.base.toNat + request.size.toNat ≤
          (mmap.map (mapCall pages request.base request.size prot)).toNat +
            (pages.roundToPages request.size).toNat ↔
      2 ^ pages.bits ≤ request.base.toNat ∧
        request.base.toNat % 2 ^ pages.bits + request.size.toNat ≤
          (request.size.toNat + 2 ^ pages.bits - 1) / 2 ^ pages.bits * 2 ^ pages.bits := by
  have split := Nat.div_add_mod' request.base.toNat (2 ^ pages.bits)
  have address := mapCall_address pages request.base request.size prot
  have sized : (pages.roundToPages request.size).toNat =
      (request.size.toNat + 2 ^ pages.bits - 1) / 2 ^ pages.bits * 2 ^ pages.bits :=
    (roundToPages_cases pages request.size).resolve_right fun zero =>
      maps (mmap.nothing _ zero)
  rw [sized]
  by_cases first : request.base.toNat < 2 ^ pages.bits
  · rw [Nat.div_eq_of_lt first, Nat.zero_mul] at address
    -- The system chooses an address: the beginning of a page, but not of the first one.
    have chosen : 2 ^ pages.bits ≤
        (mmap.map (mapCall pages request.base request.size prot)).toNat := by
      refine Nat.le_of_dvd (Nat.pos_of_ne_zero fun zero => ?_) (mmap.boundary _ maps)
      exact map_ne_zero mmap _ _ _ maps (UInt64.toNat_inj.mp zero)
    exact iff_of_false (fun inside => absurd inside.1 (by omega))
      fun later => absurd later.1 (by omega)
  · have fixed : mmap.map (mapCall pages request.base request.size prot) =
        (mapCall pages request.base request.size prot).address := by
      refine mmap.fixed _ maps ((mapCall_fixed _ _ _ _).mpr fun zero => ?_)
      rw [zero] at address
      have quotient := Nat.div_pos (not_lt.mp first) (Nat.two_pow_pos pages.bits)
      exact absurd address.symm (Nat.mul_pos quotient (Nat.two_pow_pos pages.bits)).ne'
    rw [fixed, address]
    omega

/-- What `NtAllocateVirtualMemory` leaves is as it should be exactly for a known protection, when
`mmap` succeeds, and a base that is given is not within the first page and leaves room for the size
behind it in what the size is rounded up to. -/
theorem allocates_iff (mmap : Mmap pages) (request : Request) (protect : UInt32) :
    Allocates mmap request protect ↔
      ∃ prot, protOf protect = some prot ∧
        mmap.map (mapCall pages request.base request.size prot) ≠ mapFailed ∧
        (request.base ≠ 0 →
          2 ^ pages.bits ≤ request.base.toNat ∧
            request.base.toNat % 2 ^ pages.bits + request.size.toNat ≤
              (request.size.toNat + 2 ^ pages.bits - 1) / 2 ^ pages.bits * 2 ^ pages.bits) := by
  constructor
  · rintro ⟨returned, returns, left⟩
    cases known : protOf protect with
    | none =>
      rw [ntAllocateVirtualMemory, if_neg request.positive, known] at returns
      exact nomatch returns
    | some prot =>
      rw [ntAllocateVirtualMemory_eq mmap request known, Option.some.injEq] at returns
      subst returns
      rcases left with allocated | refused
      · obtain ⟨call, same, maps, _⟩ := allocated.mapped
        obtain rfl := Option.some.inj same
        exact ⟨prot, rfl, maps, fun based =>
          (contains_iff mmap request maps).mp (allocated.contains based)⟩
      · exact absurd refused.status (show ¬ 0xC0000000 ≤ statusSuccess by decide)
  · rintro ⟨prot, known, maps, room⟩
    refine ⟨_, ntAllocateVirtualMemory_eq mmap request known, .inl ?_⟩
    exact {
      status := rfl
      mapped := ⟨_, rfl, maps, rfl, rfl⟩
      baseAligned := mmap.boundary _ maps
      sizeAligned := by
        dsimp only
        rw [toNat_roundToPages]
        exact Nat.dvd_mul_left _ _
      contains := fun based => (contains_iff mmap request maps).mpr (room based) }

/-- A system whose pages have 4096 bytes, and that has no memory left. -/
def exhausted : Mmap { bits := 12, small := by decide } where
  map := fun _ => mapFailed
  boundary := fun _ maps => absurd rfl maps
  fixed := fun _ maps => absurd rfl maps
  chosen := fun _ maps => absurd rfl maps
  nothing := fun _ _ => rfl

/-- A system with the same pages that maps what it can, from `0x10000` on where it may choose. -/
def generous : Mmap { bits := 12, small := by decide } where
  map call :=
    if call.size = 0 ∨ ¬ 2 ^ 12 ∣ call.address.toNat then mapFailed
    else if call.flags &&& mapFixed ≠ 0 then call.address
    else 0x10000
  boundary call maps := by
    by_cases failed : call.size = 0 ∨ ¬ 2 ^ 12 ∣ call.address.toNat
    · exact absurd (if_pos failed) maps
    · rw [if_neg failed]
      split
      · exact not_not.mp (not_or.mp failed).2
      · decide
  fixed call maps fixed := by
    by_cases failed : call.size = 0 ∨ ¬ 2 ^ 12 ∣ call.address.toNat
    · exact absurd (if_pos failed) maps
    · rw [if_neg failed, if_pos fixed]
  chosen call maps free := by
    by_cases failed : call.size = 0 ∨ ¬ 2 ^ 12 ∣ call.address.toNat
    · exact absurd (if_pos failed) maps
    · rw [if_neg failed, if_neg (not_not.mpr free)]
      decide
  nothing call zero := if_pos (.inl zero)

/-- A call for which `mmap` fails succeeds, with `MAP_FAILED` for the base; and of a page that is
asked for from its middle on only the first half is mapped. -/
theorem not_allocates :
    (¬ ∀ (pages : Pages) (mmap : Mmap pages) (request : Request) (protect : UInt32),
      Allocates mmap request protect) ∧
    ¬ Allocates generous
      { base := 0x10800, size := 4096, positive := by decide, within := by decide }
      pageReadwrite := by
  constructor
  · intro always
    obtain ⟨returned, returns, left⟩ := always _ exhausted
      { base := 0, size := 4096, positive := by decide, within := by decide } pageReadwrite
    rw [ntAllocateVirtualMemory_eq exhausted _ (show protOf pageReadwrite = some _ from rfl),
      Option.some.injEq] at returns
    subst returns
    rcases left with allocated | refused
    · obtain ⟨call, _, maps, _⟩ := allocated.mapped
      exact maps rfl
    · exact absurd refused.status (show ¬ 0xC0000000 ≤ statusSuccess by decide)
  · rintro ⟨returned, returns, left⟩
    rw [ntAllocateVirtualMemory_eq generous _ (show protOf pageReadwrite = some _ from rfl),
      Option.some.injEq] at returns
    subst returns
    rcases left with allocated | refused
    · exact absurd (allocated.contains (by decide)).2 (by decide)
    · exact absurd refused.status (show ¬ 0xC0000000 ≤ statusSuccess by decide)

end Nloader.VirtualMemory
