/-
This file is a library of memory as a list of bytes that can be accessed: numbers as bytes, the
least significant one first, numbers rounded to a boundary, loads and stores at an offset, and what
they come to where the memory is cut into blocks at that offset. An access that is not within the
memory is none.

The library names nothing of the program it is used for.
-/

import Mathlib.Algebra.Order.Ring.Nat
import Mathlib.Data.List.Basic

namespace ByteBlock

/-! ### Numbers as bytes -/

/-- The low bytes of a number. -/
def encode : Nat → Nat → List UInt8
  | 0, _ => []
  | width + 1, value => .ofNat value :: encode width (value / 256)

/-- The number that bytes stand for. -/
def decode : List UInt8 → Nat
  | [] => 0
  | byte :: bytes => byte.toNat + 256 * decode bytes

@[simp]
theorem length_encode (width value : Nat) : (encode width value).length = width := by
  induction width generalizing value with
  | zero => rfl
  | succ width inductionHypothesis =>
    rw [encode, List.length_cons, inductionHypothesis]

theorem decode_encode {width value : Nat} (small : value < 256 ^ width) :
    decode (encode width value) = value := by
  induction width generalizing value with
  | zero =>
    rw [pow_zero, Nat.lt_one_iff] at small
    exact small.symm
  | succ width inductionHypothesis =>
    have less : value / 256 < 256 ^ width := by
      rw [Nat.div_lt_iff_lt_mul (by decide), ← pow_succ]
      exact small
    rw [encode, decode, inductionHypothesis less, UInt8.toNat_ofNat']
    exact Nat.mod_add_div value (2 ^ 8)

theorem decode_lt (bytes : List UInt8) : decode bytes < 256 ^ bytes.length := by
  induction bytes with
  | nil => exact Nat.one_pos
  | cons byte bytes inductionHypothesis =>
    have small := byte.toNat_lt
    rw [decode, List.length_cons, pow_succ]
    omega

/-! ### Boundaries -/

/-- A mask of the high bits rounds down to a boundary. -/
theorem and_highMask {number width bits : Nat} (small : number < 2 ^ width)
    (within : bits ≤ width) :
    number &&& (2 ^ width - 2 ^ bits) = number / 2 ^ bits * 2 ^ bits := by
  have mask : 2 ^ width - 2 ^ bits = (2 ^ (width - bits) - 1) <<< bits := by
    rw [Nat.shiftLeft_eq, Nat.sub_mul, ← Nat.pow_add, Nat.sub_add_cancel within, Nat.one_mul]
  have below : number >>> bits < 2 ^ (width - bits) := by
    rw [Nat.shiftRight_eq_div_pow, Nat.div_lt_iff_lt_mul (Nat.two_pow_pos bits), ← Nat.pow_add,
      Nat.sub_add_cancel within]
    exact small
  rw [mask, ← Nat.shiftRight_eq_div_pow, ← Nat.shiftLeft_eq]
  refine Nat.eq_of_testBit_eq fun bit => ?_
  rw [Nat.testBit_and, Nat.testBit_shiftLeft, Nat.testBit_shiftLeft]
  by_cases low : bits ≤ bit
  · have kept := congrArg (fun value => value.testBit (bit - bits))
      (Nat.mod_eq_of_lt below)
    rw [← Nat.and_two_pow_sub_one_eq_mod] at kept
    simp only [Nat.testBit_and, Nat.testBit_shiftRight, Nat.add_sub_cancel' low] at kept ⊢
    rw [decide_eq_true low, Bool.true_and, Bool.true_and, kept]
  · rw [decide_eq_false low, Bool.false_and, Bool.false_and, Bool.and_false]

/-! ### Loads and stores -/

/-- The number in some bytes of a memory. -/
def load (memory : List UInt8) (offset width : Nat) : Option Nat :=
  if offset + width ≤ memory.length then some (decode ((memory.drop offset).take width)) else none

/-- A memory with some bytes stored. -/
def store (memory : List UInt8) (offset : Nat) (bytes : List UInt8) : Option (List UInt8) :=
  if offset + bytes.length ≤ memory.length then
    some (memory.take offset ++ (bytes ++ memory.drop (offset + bytes.length)))
  else none

theorem exists_load {memory : List UInt8} {offset width : Nat}
    (within : offset + width ≤ memory.length) : ∃ value, load memory offset width = some value :=
  ⟨_, if_pos within⟩

/-- A load is within the memory, and its number is as wide. -/
theorem bounds_of_load {memory : List UInt8} {offset width value : Nat}
    (loaded : load memory offset width = some value) :
    offset + width ≤ memory.length ∧ value < 256 ^ width := by
  rw [load] at loaded
  split at loaded
  · rename_i within
    refine ⟨within, ?_⟩
    have bound := decode_lt ((memory.drop offset).take width)
    have size : ((memory.drop offset).take width).length = width := by
      rw [List.length_take, List.length_drop]
      omega
    rwa [size, Option.some.inj loaded] at bound
  · exact nomatch loaded

/-- A store is within the memory, and does not change its length. -/
theorem length_store {memory next bytes : List UInt8} {offset : Nat}
    (stored : store memory offset bytes = some next) :
    offset + bytes.length ≤ memory.length ∧ next.length = memory.length := by
  rw [store] at stored
  split at stored
  · rename_i within
    refine ⟨within, ?_⟩
    rw [← Option.some.inj stored, List.length_append, List.length_append, List.length_take,
      List.length_drop]
    omega
  · exact nomatch stored

/-- A block is loaded. -/
theorem load_block (front block back : List UInt8) :
    load (front ++ (block ++ back)) front.length block.length = some (decode block) := by
  rw [load, if_pos (by rw [List.length_append, List.length_append]; omega), List.drop_left,
    List.take_left]

/-- A number is loaded from the block that it has been stored in. -/
theorem load_encode (front back : List UInt8) {width value : Nat} (small : value < 256 ^ width) :
    load (front ++ (encode width value ++ back)) front.length width = some value := by
  have loaded := load_block front (encode width value) back
  rwa [length_encode, decode_encode small] at loaded

/-- A block is stored in the place of another. -/
theorem store_block (front : List UInt8) {old bytes : List UInt8} (back : List UInt8)
    (same : bytes.length = old.length) :
    store (front ++ (old ++ back)) front.length bytes = some (front ++ (bytes ++ back)) := by
  rw [store, if_pos (by rw [List.length_append, List.length_append]; omega), List.take_left,
    ← List.drop_drop, List.drop_left, same, List.drop_left]

/-- A block is stored behind some bytes. -/
theorem store_behind (front skipped : List UInt8) {old bytes : List UInt8} (back : List UInt8)
    (same : bytes.length = old.length) :
    store (front ++ (skipped ++ (old ++ back))) (front.length + skipped.length) bytes =
      some (front ++ (skipped ++ (bytes ++ back))) := by
  have stored := store_block (front ++ skipped) back same
  rwa [List.append_assoc, List.append_assoc, List.length_append] at stored

/-- A number is loaded from behind some bytes. -/
theorem load_behind (front skipped back : List UInt8) {width value : Nat}
    (small : value < 256 ^ width) :
    load (front ++ (skipped ++ (encode width value ++ back))) (front.length + skipped.length)
        width = some value := by
  have loaded := load_encode (front ++ skipped) back small
  rwa [List.append_assoc, List.length_append] at loaded

/-! ### Parts of a memory -/

/-- A number is loaded from behind some bytes where it is loaded from the whole. -/
theorem load_drop {memory : List UInt8} {start : Nat} (within : start ≤ memory.length)
    (offset width : Nat) :
    load (memory.drop start) offset width = load memory (start + offset) width := by
  rw [load, load, List.length_drop, List.drop_drop]
  refine if_congr ?_ rfl rfl
  omega

/-- A number is loaded from some bytes, whatever follows them. -/
theorem load_append {front : List UInt8} (back : List UInt8) {offset width : Nat}
    (within : offset + width ≤ front.length) :
    load (front ++ back) offset width = load front offset width := by
  have less : offset ≤ front.length := by omega
  have enough : width ≤ (front.drop offset).length := by
    rw [List.length_drop]
    omega
  rw [load, load, if_pos within, if_pos (by rw [List.length_append]; omega),
    List.drop_append_of_le_length less, List.take_append_of_le_length enough]

section Frames

variable {memory next bytes : List UInt8} {offset : Nat}

theorem store_eq_some (stored : store memory offset bytes = some next) :
    next = memory.take offset ++ (bytes ++ memory.drop (offset + bytes.length)) := by
  rw [store] at stored
  split at stored
  · exact (Option.some.inj stored).symm
  · exact nomatch stored

theorem take_store (stored : store memory offset bytes = some next) {place : Nat}
    (before : place ≤ offset) : next.take place = memory.take place := by
  have within := (length_store stored).1
  rw [store_eq_some stored, List.take_append_of_le_length (by rw [List.length_take]; omega),
    List.take_take, Nat.min_eq_left before]

theorem drop_store (stored : store memory offset bytes = some next) {place : Nat}
    (behind : offset + bytes.length ≤ place) : next.drop place = memory.drop place := by
  have within := (length_store stored).1
  have front : (memory.take offset ++ bytes).length = offset + bytes.length := by
    rw [List.length_append, List.length_take]
    omega
  obtain ⟨more, rfl⟩ := Nat.exists_eq_add_of_le behind
  rw [store_eq_some stored, ← List.append_assoc, ← List.drop_drop, ← front, List.drop_left,
    List.drop_drop]

/-- A store changes nothing before it. -/
theorem load_before_store (stored : store memory offset bytes = some next) {place width : Nat}
    (before : place + width ≤ offset) : load next place width = load memory place width := by
  have within := (length_store stored).1
  have same := take_store stored before
  have front : next = memory.take (place + width) ++ next.drop (place + width) := by
    rw [← same, List.take_append_drop]
  have size : place + width ≤ (memory.take (place + width)).length := by
    rw [List.length_take]
    omega
  have first := load_append (next.drop (place + width)) size
  rw [← front] at first
  have second := load_append (memory.drop (place + width)) size
  rw [List.take_append_drop] at second
  rw [first, second]

/-- A store changes nothing behind it. -/
theorem load_behind_store (stored : store memory offset bytes = some next) {place width : Nat}
    (behind : offset + bytes.length ≤ place) : load next place width = load memory place width := by
  obtain ⟨within, length⟩ := length_store stored
  obtain ⟨more, rfl⟩ := Nat.exists_eq_add_of_le behind
  rw [← load_drop (by omega), ← load_drop within, drop_store stored (le_refl _)]

theorem exists_store (within : offset + bytes.length ≤ memory.length) :
    ∃ next, store memory offset bytes = some next := ⟨_, if_pos within⟩

/-- What has been stored is loaded. -/
theorem load_store (stored : store memory offset bytes = some next) :
    load next offset bytes.length = some (decode bytes) := by
  have within := (length_store stored).1
  have front : (memory.take offset).length = offset := by
    rw [List.length_take]
    omega
  have loaded := load_block (memory.take offset) bytes (memory.drop (offset + bytes.length))
  rw [← store_eq_some stored, front] at loaded
  exact loaded

end Frames

end ByteBlock
