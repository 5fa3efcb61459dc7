/-
This file is a library of a memory of bytes with natural numbers as addresses: words of 32 bits,
the least significant byte first, ranges that are filled with a byte, and what such stores leave
of other ranges.

The library names nothing of the program it is used for.
-/

import Mathlib.Data.Set.Function
import Mathlib.Order.Interval.Set.Disjoint
import Mathlib.Tactic
import Mathlib.Order.CompletePartialOrder

namespace ByteMemory

/-- A memory of bytes. -/
abbrev Memory : Type := Nat → UInt8

/-- The 32-bit word at an address. -/
def load32 (memory : Memory) (address : Nat) : Nat :=
  (memory address).toNat + 256 * ((memory (address + 1)).toNat +
    256 * ((memory (address + 2)).toNat + 256 * (memory (address + 3)).toNat))

/-- The memory with the 32 low bits of a number stored. -/
def store32 (memory : Memory) (address value : Nat) : Memory := fun place =>
  if address ≤ place ∧ place < address + 4 then .ofNat (value / 256 ^ (place - address))
  else memory place

/-- The memory with a range filled with a byte. -/
def fill (memory : Memory) (address count : Nat) (byte : UInt8) : Memory := fun place =>
  if address ≤ place ∧ place < address + count then byte else memory place

variable {memory other : Memory} {address value count place : Nat} {byte : UInt8}

/-- A word is what its bytes are. -/
theorem load32_congr (same : Set.EqOn memory other (Set.Ico address (address + 4))) :
    load32 memory address = load32 other address := by
  have byte (index : Nat) (less : index < 4) :
      memory (address + index) = other (address + index) :=
    same ⟨Nat.le_add_right _ _, Nat.add_lt_add_left less _⟩
  rw [load32, load32, byte 1 (by decide), byte 2 (by decide), byte 3 (by decide)]
  rw [show memory address = other address from byte 0 (by decide)]

/-- A word that is stored is read back. -/
theorem load32_store32 (memory : Memory) (address : Nat) (small : value < 2 ^ 32) :
    load32 (store32 memory address value) address = value := by
  have byte (index : Nat) (less : index < 4) :
      (store32 memory address value (address + index)).toNat = value / 256 ^ index % 256 := by
    rw [store32, if_pos ⟨Nat.le_add_right _ _, Nat.add_lt_add_left less _⟩,
      Nat.add_sub_cancel_left, UInt8.toNat_ofNat']
  have first := byte 0 (by decide)
  rw [Nat.add_zero, pow_zero, Nat.div_one] at first
  rw [load32, first, byte 1 (by decide), byte 2 (by decide), byte 3 (by decide)]
  omega

/-- Outside of a word that is stored the memory is the same. -/
theorem store32_eqOn {range : Set Nat}
    (apart : Disjoint range (Set.Ico address (address + 4))) :
    Set.EqOn (store32 memory address value) memory range := by
  intro place inside
  exact if_neg fun within => Set.disjoint_left.mp apart inside within

/-- Outside of a range that is filled the memory is the same. -/
theorem fill_eqOn {range : Set Nat}
    (apart : Disjoint range (Set.Ico address (address + count))) :
    Set.EqOn (fill memory address count byte) memory range := by
  intro place inside
  exact if_neg fun within => Set.disjoint_left.mp apart inside within

theorem fill_inside (inside : place ∈ Set.Ico address (address + count)) :
    fill memory address count byte place = byte :=
  if_pos inside

end ByteMemory
