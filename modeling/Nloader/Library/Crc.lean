/-
This file is a library of cyclic redundancy checks of any width, the most significant bit first.
The remainder is fed with one bit at a time; feeding is linear, so that a chunk of bits can be fed
at once: the remainder moves up by the width of the chunk, and what leaves it at the top, together
with the chunk, stands for a remainder that a table can hold. Where the polynomial is odd, no two
messages that differ in a window no wider than the remainder have the same check.

The library names nothing of the program it is used for.
-/

import Mathlib.Tactic

namespace Crc

variable {width : Nat}

/-- One bit of a message: it leaves with the top bit of the remainder, which the polynomial
divides where they differ. -/
def feed (polynomial remainder : BitVec width) (bit : Bool) : BitVec width :=
  (remainder <<< 1) ^^^ if remainder.msb ^^ bit then polynomial else 0

/-- A message, one bit after the other. -/
def serial (polynomial remainder : BitVec width) (bits : List Bool) : BitVec width :=
  bits.foldl (feed polynomial) remainder

/-- The first bits of a number, from the most significant one on. -/
def topBits {size : Nat} (count : Nat) (number : BitVec size) : List Bool :=
  (List.range count).map number.getMsbD

/-- The bits of a byte string, those of a byte from the most significant one on. -/
def bitsOf (bytes : List UInt8) : List Bool :=
  bytes.flatMap fun byte => topBits 8 byte.toBitVec

/-- The first bits of a number, from the least significant one on. -/
def bottomBits {size : Nat} (count : Nat) (number : BitVec size) : List Bool :=
  (List.range count).map number.getLsbD

/-- The bits of a byte string, those of a byte from the least significant one on. -/
def bottomBitsOf (bytes : List UInt8) : List Bool :=
  bytes.flatMap fun byte => bottomBits 8 byte.toBitVec

/-- Byte strings are equal when their codes are, one code of the same length for each byte. -/
theorem flatMap_injective {encode : UInt8 → List Bool} (lengths : ∀ byte, (encode byte).length = 8)
    (injective : Function.Injective encode) :
    Function.Injective fun bytes : List UInt8 => bytes.flatMap encode := by
  intro first second same
  induction first generalizing second with
  | nil =>
    cases second with
    | nil => rfl
    | cons byte rest =>
      have size := congrArg List.length same
      simp [lengths] at size
      omega
  | cons byte rest inductionHypothesis =>
    cases second with
    | nil =>
      have size := congrArg List.length same
      simp [lengths] at size
    | cons byte' rest' =>
      change encode byte ++ rest.flatMap encode = encode byte' ++ rest'.flatMap encode at same
      obtain ⟨head, tail⟩ :=
        List.append_inj same ((lengths byte).trans (lengths byte').symm)
      rw [injective head, inductionHypothesis tail]

theorem bitsOf_injective : Function.Injective bitsOf := by
  refine flatMap_injective (fun _ => by simp [topBits]) fun byte byte' same => ?_
  refine UInt8.toBitVec_inj.mp (BitVec.eq_of_getMsbD_eq fun index within => ?_)
  exact List.map_inj_left.mp same index (List.mem_range.mpr within)

theorem bottomBitsOf_injective : Function.Injective bottomBitsOf := by
  refine flatMap_injective (fun _ => by simp [bottomBits]) fun byte byte' same => ?_
  refine UInt8.toBitVec_inj.mp (BitVec.eq_of_getLsbD_eq fun index within => ?_)
  exact List.map_inj_left.mp same index (List.mem_range.mpr within)

theorem serial_append (polynomial remainder : BitVec width) (first second : List Bool) :
    serial polynomial remainder (first ++ second) =
      serial polynomial (serial polynomial remainder first) second :=
  List.foldl_append

/-- Feeding is linear. -/
theorem feed_xor (polynomial first second : BitVec width) (bit bit' : Bool) :
    feed polynomial (first ^^^ second) (bit ^^ bit') =
      feed polynomial first bit ^^^ feed polynomial second bit' := by
  unfold feed
  rw [BitVec.shiftLeft_xor_distrib, BitVec.msb_xor]
  have parts : (if first.msb ^^ second.msb ^^ (bit ^^ bit') then polynomial else 0) =
      (if first.msb ^^ bit then polynomial else 0) ^^^
        if second.msb ^^ bit' then polynomial else 0 := by
    cases first.msb <;> cases second.msb <;> cases bit <;> cases bit' <;> simp
  rw [parts]
  ext index
  simp only [BitVec.getElem_xor]
  generalize (first <<< 1)[index] = a
  generalize (second <<< 1)[index] = b
  cases a <;> cases b <;> simp

/-- The top bit of a remainder leaves it unchanged otherwise. -/
theorem feed_msb (polynomial remainder : BitVec width) :
    feed polynomial remainder remainder.msb = remainder <<< 1 := by
  simp [feed]

/-- A chunk of bits is fed at once. -/
theorem serial_chunk (polynomial remainder : BitVec width) (bit : Nat → Bool) (count : Nat) :
    serial polynomial remainder ((List.range count).map bit) =
      serial polynomial 0 ((List.range count).map fun index =>
        remainder.getMsbD index ^^ bit index) ^^^ (remainder <<< count) := by
  induction count with
  | zero => simp [serial]
  | succ count inductionHypothesis =>
    have leaving : bit count =
        ((remainder.getMsbD count ^^ bit count) ^^ (remainder <<< count).msb) := by
      rw [BitVec.msb, BitVec.getMsbD_shiftLeft, Nat.zero_add]
      cases remainder.getMsbD count <;> cases bit count <;> rfl
    rw [List.range_succ, List.map_append, List.map_append, serial_append, serial_append,
      inductionHypothesis]
    change feed polynomial _ (bit count) = feed polynomial _ _ ^^^ _
    rw [leaving, feed_xor, feed_msb, BitVec.shiftLeft_add]

/-! ### Errors that are found -/

/-- The bottom bit of what a bit is fed to tells whether the polynomial was subtracted. -/
theorem getLsbD_feed_zero {polynomial : BitVec width} (odd : polynomial.getLsbD 0 = true)
    (remainder : BitVec width) (bit : Bool) :
    (feed polynomial remainder bit).getLsbD 0 = (remainder.msb ^^ bit) := by
  rw [feed, BitVec.getLsbD_xor, BitVec.getLsbD_shiftLeft]
  cases remainder.msb ^^ bit
  · simp
  · simp [odd]

/-- Where it was not, the remainder has moved up. -/
theorem feed_eq_shiftLeft {polynomial remainder : BitVec width} {bit : Bool}
    (same : (remainder.msb ^^ bit) = false) : feed polynomial remainder bit = remainder <<< 1 := by
  rw [feed, same]
  simp

/-- A remainder that comes to nothing has its bits at the top only. -/
theorem getLsbD_of_serial_eq_zero {polynomial : BitVec width}
    (odd : polynomial.getLsbD 0 = true) {remainder : BitVec width} {bits : List Bool}
    (short : bits.length ≤ width) (vanishes : serial polynomial remainder bits = 0)
    (index : Nat) (low : index < width - bits.length) : remainder.getLsbD index = false := by
  induction bits generalizing remainder index with
  | nil =>
    change remainder = 0 at vanishes
    rw [vanishes]
    exact BitVec.getLsbD_zero
  | cons bit rest inductionHypothesis =>
    rw [List.length_cons] at short low
    have after := inductionHypothesis (Nat.le_of_succ_le short) vanishes
    have same : (remainder.msb ^^ bit) = false :=
      (getLsbD_feed_zero odd remainder bit).symm.trans (after 0 (by omega))
    have moved := after (index + 1) (by omega)
    rw [feed_eq_shiftLeft same, BitVec.getLsbD_shiftLeft] at moved
    simpa [show index + 1 < width by omega] using moved

/-- Few bits that come to nothing are nothing. -/
theorem eq_false_of_serial_eq_zero {polynomial : BitVec width}
    (odd : polynomial.getLsbD 0 = true) {bits : List Bool} (short : bits.length ≤ width)
    (vanishes : serial polynomial 0 bits = 0) : ∀ bit ∈ bits, bit = false := by
  induction bits with
  | nil => exact fun _ none => absurd none List.not_mem_nil
  | cons bit rest inductionHypothesis =>
    rw [List.length_cons] at short
    have start : feed polynomial 0 bit = if bit then polynomial else 0 := by
      cases bit <;> simp [feed]
    change serial polynomial (feed polynomial 0 bit) rest = 0 at vanishes
    rw [start] at vanishes
    cases bit with
    | false =>
      have others := inductionHypothesis (Nat.le_of_succ_le short) vanishes
      exact List.forall_mem_cons.mpr ⟨rfl, others⟩
    | true =>
      have even := getLsbD_of_serial_eq_zero odd (Nat.le_of_succ_le short) vanishes 0 (by omega)
      exact absurd (odd.symm.trans even) (by decide)

/-- The check of a difference is the difference of the checks. -/
theorem serial_xor (polynomial remainder remainder' : BitVec width) {bits bits' : List Bool}
    (lengths : bits.length = bits'.length) :
    serial polynomial (remainder ^^^ remainder') (List.zipWith xor bits bits') =
      serial polynomial remainder bits ^^^ serial polynomial remainder' bits' := by
  induction bits generalizing remainder remainder' bits' with
  | nil =>
    obtain rfl := List.length_eq_zero_iff.mp lengths.symm
    rfl
  | cons bit rest inductionHypothesis =>
    obtain ⟨bit', rest', rfl⟩ := List.exists_cons_of_length_eq_add_one lengths.symm
    rw [List.zipWith_cons_cons]
    change serial polynomial (feed polynomial _ _) _ =
      serial polynomial (feed polynomial _ _) _ ^^^ serial polynomial (feed polynomial _ _) _
    rw [feed_xor]
    exact inductionHypothesis _ _ (Nat.succ.inj lengths)

/-- Only nothing comes to nothing when nothing is fed. -/
theorem eq_zero_of_feed {polynomial remainder : BitVec width}
    (odd : polynomial.getLsbD 0 = true) (vanishes : feed polynomial remainder false = 0) :
    remainder = 0 := by
  have top : (remainder.msb ^^ false) = false := by
    rw [← getLsbD_feed_zero odd, vanishes]
    exact BitVec.getLsbD_zero
  have moved : remainder <<< 1 = 0 := (feed_eq_shiftLeft top).symm.trans vanishes
  rw [Bool.xor_false, BitVec.msb_eq_getLsbD_last] at top
  refine BitVec.eq_of_getLsbD_eq fun index within => ?_
  by_cases last : index = width - 1
  · rw [last, top]
    exact BitVec.getLsbD_zero.symm
  · have bit : (remainder <<< 1).getLsbD (index + 1) = false := by
      rw [moved]
      exact BitVec.getLsbD_zero
    rw [BitVec.getLsbD_shiftLeft, decide_eq_true (show index + 1 < width by omega)] at bit
    exact bit.trans BitVec.getLsbD_zero.symm

/-- Feeding the same bits to different remainders leaves different ones. -/
theorem serial_injective {polynomial : BitVec width} (odd : polynomial.getLsbD 0 = true)
    (bits : List Bool) : Function.Injective fun remainder => serial polynomial remainder bits := by
  induction bits with
  | nil => exact fun _ _ same => same
  | cons bit rest inductionHypothesis =>
    intro remainder remainder' same
    have fed : feed polynomial remainder bit = feed polynomial remainder' bit :=
      inductionHypothesis same
    have difference : feed polynomial (remainder ^^^ remainder') false = 0 := by
      rw [← Bool.xor_self bit, feed_xor, fed, BitVec.xor_self]
      rfl
    exact BitVec.xor_eq_zero_iff.mp (eq_zero_of_feed odd difference)

/-- Two messages that differ in one window of the given width at most. -/
structure Burst (window : Nat) (first second : List Bool) where
  before : List Bool
  within : List Bool
  within' : List Bool
  after : List Bool
  first_eq : first = before ++ within ++ after
  second_eq : second = before ++ within' ++ after
  lengths : within.length = within'.length
  short : within.length ≤ window

theorem eq_of_zipWith_xor {bits bits' : List Bool} (lengths : bits.length = bits'.length)
    (none : ∀ bit ∈ List.zipWith xor bits bits', bit = false) : bits = bits' := by
  refine List.ext_getElem lengths fun index within within' => ?_
  have same := none _ (List.getElem_mem (n := index) (by rw [List.length_zipWith]; omega))
  rw [List.getElem_zipWith] at same
  exact bne_eq_false_iff_eq.mp same

/-- A window no wider than the remainder cannot differ where the checks agree. -/
theorem Burst.eq_of_serial_eq {polynomial : BitVec width} (odd : polynomial.getLsbD 0 = true)
    {first second : List Bool} (burst : Burst width first second) {remainder : BitVec width}
    (same : serial polynomial remainder first = serial polynomial remainder second) :
    first = second := by
  obtain ⟨before, within, within', after, rfl, rfl, lengths, short⟩ := burst
  rw [serial_append, serial_append, serial_append, serial_append] at same
  have windows := serial_injective odd after same
  have difference : serial polynomial 0 (List.zipWith xor within within') = 0 := by
    have sum := serial_xor polynomial (serial polynomial remainder before)
      (serial polynomial remainder before) lengths
    rw [BitVec.xor_self, windows, BitVec.xor_self] at sum
    exact sum
  have none := eq_false_of_serial_eq_zero odd
    (by rw [List.length_zipWith]; exact (min_le_left _ _).trans short) difference
  rw [eq_of_zipWith_xor lengths none]

end Crc
