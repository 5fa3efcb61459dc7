/-
This file says what an LZNT1 stream is: a sequence of LZ77 tokens, read off the bytes by
`scan`, followed by the status the stream ends with. It then proves that the decoder of
`lznt1.c` computes the expansion of those tokens: in every state of its three loops, what
is left of the run is determined by the tokens still to be scanned and the bytes already
stored. That single fact carries the counters of the source (pointer plus remaining size
never changes, no counter goes below zero, 16 bits hold the position in the chunk), and the
other files about the decoder argue about tokens only.
-/

import Mathlib.Data.Nat.Bitwise
import Mathlib.Data.Nat.Size
import Nloader.Lznt1

namespace Nloader.Lznt1

open Outcome

/-! ### The token stream of a byte string -/

/-- The width of the displacement field of a back-reference at a position of a chunk: the
least width from 4 on that tells all earlier positions apart. -/
def displacementBits (position : Nat) : Nat := max 4 (Nat.size (position - 1))

/-- The width of the length field: what is left of 16 bits. -/
def lengthBits (position : Nat) : Nat := 16 - displacementBits position

/-- Where a scan stands: at a chunk header, or inside a chunk at a flag byte or at an item
with `left` flags of `mask` to go. `size` counts the bytes left in the chunk and `position`
the bytes it has produced. -/
inductive Mode where
  | header
  | flags (size position : Nat)
  | item (left mask size position : Nat)

/-- What follows an item or a flag byte. -/
def Mode.after (left mask size position : Nat) : Mode :=
  if size = 0 then .header
  else if left = 0 then .flags size position
  else .item left mask size position

/-- Put tokens in front of a scan. -/
def emit (tokens : List (Lz77.Token UInt8))
    (rest : List (Lz77.Token UInt8) × NtStatus) : List (Lz77.Token UInt8) × NtStatus :=
  (tokens ++ rest.1, rest.2)

/-- The tokens of a byte string, and the status it ends with. -/
def scan : Mode → List UInt8 → List (Lz77.Token UInt8) × NtStatus
  | .header, [] => ([], .success)
  | .header, [_] => ([], .invalidParameter)
  | .header, low :: high :: bytes =>
    if high.toNat * 256 + low.toNat < 0x8000 then
      if bytes.length < 4096 then ([], .badCompressionBuffer)
      else emit ((bytes.take 4096).map .literal) (scan .header (bytes.drop 4096))
    else scan (.flags ((high.toNat * 256 + low.toNat) % 4096 + 1) 0) bytes
  | .flags _ _, [] => ([], .badCompressionBuffer)
  | .flags size position, mask :: bytes =>
    scan (.after 8 mask.toNat (size - 1) position) bytes
  | .item left mask size position, bytes =>
    if mask % 2 = 1 then
      match bytes with
      | low :: high :: bytes =>
        if size < 2 ∨ position = 0 then ([], .badCompressionBuffer)
        else
          let token := high.toNat * 256 + low.toNat
          let displacement := token / 2 ^ lengthBits position + 1
          let length := token % 2 ^ lengthBits position + 3
          emit [.reference displacement length]
            (scan (.after (left - 1) (mask / 2) (size - 2) (position + length)) bytes)
      | _ => ([], .badCompressionBuffer)
    else
      match bytes with
      | byte :: bytes =>
        emit [.literal byte]
          (scan (.after (left - 1) (mask / 2) (size - 1) (position + 1)) bytes)
      | [] => ([], .badCompressionBuffer)
  termination_by _ bytes => bytes.length

@[simp] theorem scan_header_nil : scan .header [] = ([], .success) := by rw [scan]

@[simp] theorem scan_header_single (byte : UInt8) :
    scan .header [byte] = ([], .invalidParameter) := by rw [scan]

theorem scan_header_cons (low high : UInt8) (bytes : List UInt8) :
    scan .header (low :: high :: bytes) =
      if high.toNat * 256 + low.toNat < 0x8000 then
        if bytes.length < 4096 then ([], .badCompressionBuffer)
        else emit ((bytes.take 4096).map .literal) (scan .header (bytes.drop 4096))
      else scan (.flags ((high.toNat * 256 + low.toNat) % 4096 + 1) 0) bytes := by rw [scan]

@[simp] theorem scan_flags_nil (size position : Nat) :
    scan (.flags size position) [] = ([], .badCompressionBuffer) := by rw [scan]

@[simp] theorem scan_flags_cons (size position : Nat) (mask : UInt8) (bytes : List UInt8) :
    scan (.flags size position) (mask :: bytes) =
      scan (.after 8 mask.toNat (size - 1) position) bytes := by rw [scan]

theorem scan_item_clear {mask : Nat} (clear : mask % 2 = 0) (left size position : Nat) :
    scan (.item left mask size position) [] = ([], .badCompressionBuffer) ∧
    ∀ byte bytes, scan (.item left mask size position) (byte :: bytes) =
      emit [.literal byte]
        (scan (.after (left - 1) (mask / 2) (size - 1) (position + 1)) bytes) := by
  have even : ¬ mask % 2 = 1 := by omega
  constructor
  · rw [scan.eq_def]
    simp only [even, if_false]
  · intro byte bytes
    rw [scan.eq_def]
    simp only [even, if_false]

theorem scan_item_short {mask : Nat} (set : mask % 2 = 1) (left size position : Nat)
    {bytes : List UInt8} (short : bytes.length < 2) :
    scan (.item left mask size position) bytes = ([], .badCompressionBuffer) := by
  rw [scan.eq_def]
  match bytes with
  | [] | [_] => simp only [set, if_true]
  | _ :: _ :: bytes => exact absurd short (by simp)

theorem scan_item_refused {mask : Nat} (set : mask % 2 = 1) (left : Nat) {size position : Nat}
    (refused : size < 2 ∨ position = 0) (low high : UInt8) (bytes : List UInt8) :
    scan (.item left mask size position) (low :: high :: bytes) =
      ([], .badCompressionBuffer) := by
  rw [scan.eq_def]
  simp only [set, refused, if_true]

theorem scan_item_set {mask : Nat} (set : mask % 2 = 1) (left : Nat) {size position : Nat}
    (wide : 2 ≤ size) (inside : position ≠ 0) (low high : UInt8) (bytes : List UInt8) :
    scan (.item left mask size position) (low :: high :: bytes) =
      emit [.reference ((high.toNat * 256 + low.toNat) / 2 ^ lengthBits position + 1)
          ((high.toNat * 256 + low.toNat) % 2 ^ lengthBits position + 3)]
        (scan (.after (left - 1) (mask / 2) (size - 2)
          (position + ((high.toNat * 256 + low.toNat) % 2 ^ lengthBits position + 3)))
          bytes) := by
  have accepted : ¬ (size < 2 ∨ position = 0) := by omega
  rw [scan.eq_def]
  simp only [set, accepted, if_true, if_false]

/-- The tokens of a stream. -/
def tokens (bytes : List UInt8) : List (Lz77.Token UInt8) := (scan .header bytes).1

/-- What an expansion amounts to when the token stream ends with a status. -/
def ended (status : NtStatus) :
    Except Lz77.Overrun (List UInt8) → Except Stop (List UInt8)
  | .ok final => if status = .success then .ok final else .error (.returned status)
  | .error .full => .error (.returned .badCompressionBuffer)
  | .error .unreadable => .error (.fault .readOutside)

/-- What a token sequence and its final status amount to, from the bytes already stored. -/
def conclude (buffers : Buffers) (scanned : List (Lz77.Token UInt8) × NtStatus)
    (stored : List UInt8) : Except Stop (List UInt8) :=
  ended scanned.2 (Lz77.expand buffers.outside buffers.capacity scanned.1 stored)

/-- What is left of a run in a state of the decoder. -/
def remaining (buffers : Buffers) (mode : Mode) (decoder : Decoder) :
    Except Stop (List UInt8) :=
  conclude buffers (scan mode (buffers.compressedBuffer.drop decoder.c)) decoder.stored

/-! ### The widths of a back-reference -/

theorem displacementBits_eq {position back : Nat} (narrow : back ≤ 12)
    (upper : position - 1 < 2 ^ (16 - back))
    (lower : back = 12 ∨ 2 ^ (15 - back) ≤ position - 1) :
    displacementBits position = 16 - back := by
  have above : Nat.size (position - 1) ≤ 16 - back := Nat.size_le.mpr upper
  rcases lower with rfl | lower
  · exact max_eq_left above
  · have below : 15 - back < Nat.size (position - 1) := Nat.lt_size.mpr lower
    unfold displacementBits
    omega

/-- The loop over `j` leaves the mask and the width of the length field. -/
theorem splitToken_holds {position : Nat} (positive : 0 < position)
    (bound : position < 2 ^ 16) :
    Holds (fun split => split.len = 2 ^ lengthBits position - 1 ∧
      split.back = lengthBits position) (fun _ => False) (splitToken position) := by
  unfold splitToken
  refine whileLoop_holds
    (fun split : Split => split.back ≤ 12 ∧
      split.j = (position - 1) / 2 ^ (12 - split.back) ∧
      split.len = 2 ^ split.back - 1 ∧
      (split.back = 12 ∨ 2 ^ (15 - split.back) ≤ position - 1))
    (fun split : Split => split.j) ?_ ?_ position { j := position - 1, len := 0xfff, back := 12 }
    ⟨le_rfl, by simp, by norm_num, Or.inl rfl⟩ (by show position - 1 < position; omega)
  · rintro split ⟨narrow, shifted, masked, lower⟩ done
    have small : split.j < 16 := by simpa using done
    have upper : position - 1 < 2 ^ (16 - split.back) := by
      rw [shifted, Nat.div_lt_iff_lt_mul (by positivity)] at small
      refine lt_of_lt_of_eq small ?_
      rw [show (16 : Nat) = 2 ^ 4 by norm_num, ← pow_add]
      congr 1
      omega
    have bits := displacementBits_eq narrow upper lower
    have width : split.back = lengthBits position := by
      rw [lengthBits, bits]
      omega
    exact ⟨by rw [masked, width], width⟩
  · rintro ⟨j, len, back⟩ ⟨narrow, shifted, masked, lower⟩ running
    have large : 16 ≤ j := by simpa using running
    change back ≤ 12 at narrow
    change j = (position - 1) / 2 ^ (12 - back) at shifted
    change len = 2 ^ back - 1 at masked
    have reached : 2 ^ (16 - back) ≤ position - 1 := by
      rw [shifted, Nat.le_div_iff_mul_le (by positivity), show (16 : Nat) = 2 ^ 4 by norm_num,
        ← pow_add] at large
      rwa [show 16 - back = 4 + (12 - back) by omega]
    have nonzero : 1 ≤ back := by
      by_contra none
      rw [show back = 0 by omega] at reached
      omega
    rw [Lznt1.lower, if_pos nonzero]
    refine ⟨⟨?_, ?_, ?_, Or.inr ?_⟩, ?_⟩
    · show back - 1 ≤ 12
      omega
    · show j >>> 1 = (position - 1) / 2 ^ (12 - (back - 1))
      rw [show 12 - (back - 1) = (12 - back) + 1 by omega, Nat.shiftRight_succ, Nat.shiftRight_zero,
        shifted, Nat.div_div_eq_div_mul, pow_succ]
    · show len >>> 1 = 2 ^ (back - 1) - 1
      have double : 2 ^ back = 2 * 2 ^ (back - 1) := by
        rw [← pow_succ', show back - 1 + 1 = back by omega]
      rw [Nat.shiftRight_succ, Nat.shiftRight_zero, masked, double]
      omega
    · show 2 ^ (15 - (back - 1)) ≤ position - 1
      rwa [show 15 - (back - 1) = 16 - back by omega]
    · show j >>> 1 < j
      rw [Nat.shiftRight_succ, Nat.shiftRight_zero]
      omega

/-! ### Reading and writing -/

theorem load_of_drop {buffers : Buffers} {index : Nat} {byte : UInt8} {bytes : List UInt8}
    (ahead : buffers.compressedBuffer.drop index = byte :: bytes) :
    load buffers index = .ok byte ∧ buffers.compressedBuffer.drop (index + 1) = bytes := by
  constructor
  · have found : buffers.compressedBuffer[index]? = some byte := by
      rw [← Nat.add_zero index, ← List.getElem?_drop, ahead]
      rfl
    rw [load, found]
    rfl
  · rw [← List.tail_drop, ahead]
    rfl

theorem loadWord_of_drop {buffers : Buffers} {index : Nat} {low high : UInt8}
    {bytes : List UInt8}
    (ahead : buffers.compressedBuffer.drop index = low :: high :: bytes) :
    loadWord buffers index = .ok (high.toNat * 256 + low.toNat) ∧
      buffers.compressedBuffer.drop (index + 2) = bytes := by
  obtain ⟨first, behind⟩ := load_of_drop ahead
  obtain ⟨second, rest⟩ := load_of_drop behind
  refine ⟨?_, rest⟩
  rw [loadWord, second, first]
  show Except.ok (high.toNat <<< 8 + low.toNat) = _
  rw [Nat.shiftLeft_eq]

/-- The byte loop of a back-reference is the copy of the token, within the capacity. -/
theorem copyBack_eq {buffers : Buffers} {back : Nat} :
    ∀ {len : Nat} {decoder : Decoder}, decoder.stored.length + len ≤ buffers.capacity →
      copyBack buffers back len decoder =
        match Lz77.copy buffers.outside back len decoder.stored with
        | .ok final => .ok { decoder with stored := final }
        | .error _ => .error (.fault .readOutside) := by
  intro len
  induction len with
  | zero => intro decoder _; rfl
  | succ len inductionHypothesis =>
    intro decoder room
    rw [copyBack, Lz77.copy, loadBack]
    cases Lz77.lookBack buffers.outside decoder.stored back with
    | none => rfl
    | some byte =>
      have fits : decoder.stored.length < buffers.capacity := by omega
      have longer : (decoder.stored ++ [byte]).length + len ≤ buffers.capacity := by
        rw [List.length_append, List.length_singleton]
        omega
      show (store buffers byte decoder >>= fun decoder => copyBack buffers back len decoder) = _
      rw [store, if_pos fits]
      exact @inductionHypothesis { decoder with stored := decoder.stored ++ [byte] } longer

/-! ### What an item contributes -/

theorem conclude_literal (buffers : Buffers) (byte : UInt8)
    (rest : List (Lz77.Token UInt8) × NtStatus) (stored : List UInt8) :
    conclude buffers (emit [.literal byte] rest) stored =
      if buffers.capacity < stored.length + 1 then .error (.returned .badCompressionBuffer)
      else conclude buffers rest (stored ++ [byte]) := by
  unfold conclude emit
  rw [List.singleton_append, Lz77.expand]
  by_cases full : buffers.capacity < stored.length + 1
  · rw [if_pos full, Lz77.Token.length, if_pos full]
    rfl
  · rw [if_neg full, Lz77.Token.length, if_neg full]
    rfl

theorem conclude_reference (buffers : Buffers) (displacement length : Nat)
    (rest : List (Lz77.Token UInt8) × NtStatus) (stored : List UInt8) :
    conclude buffers (emit [.reference displacement length] rest) stored =
      if buffers.capacity < stored.length + length then
        .error (.returned .badCompressionBuffer)
      else
        match Lz77.copy buffers.outside displacement length stored with
        | .ok final => conclude buffers rest final
        | .error _ => .error (.fault .readOutside) := by
  unfold conclude emit
  rw [List.singleton_append, Lz77.expand]
  by_cases full : buffers.capacity < stored.length + length
  · rw [if_pos full, Lz77.Token.length, if_pos full]
    rfl
  · rw [if_neg full, Lz77.Token.length, if_neg full, Lz77.put]
    cases copied : Lz77.copy buffers.outside displacement length stored with
    | ok final => rfl
    | error overrun =>
      rw [Lz77.copy_error copied]
      rfl

/-- A scan that ends without a token ends the run with its status. -/
theorem conclude_nil (buffers : Buffers) {status : NtStatus} (failed : status ≠ .success)
    (stored : List UInt8) :
    conclude buffers ([], status) stored = .error (.returned status) := by
  unfold conclude
  exact if_neg failed

/-! ### The invariant of the loops -/

/-- The counters of a decoder: each pointer and its remaining size add up to the buffer. -/
structure Sound (buffers : Buffers) (decoder : Decoder) : Prop where
  input : decoder.c + decoder.compressedBufferSize = buffers.compressedBuffer.length
  output : decoder.stored.length + decoder.uncompressedBufferSize = buffers.capacity

/-- The invariant inside a chunk that ends at the offset `ending`, in a run whose result is
`value`. The bound on the position says that a chunk of at most 4096 bytes cannot expand so
far that a back-reference needs more than 16 bits. -/
structure Running (buffers : Buffers) (value : Except Stop (List UInt8)) (ending : Nat)
    (mode : Mode) (chunk : Chunk) : Prop where
  sound : Sound buffers chunk.toDecoder
  narrow : chunk.blocksz ≤ 4096
  room : chunk.blockpos + 5 * chunk.blocksz ≤ 26626
  ending : chunk.c + chunk.blocksz = ending
  remaining : remaining buffers mode chunk.toDecoder = value

theorem Sound.ahead {buffers : Buffers} {decoder : Decoder} (sound : Sound buffers decoder) :
    (buffers.compressedBuffer.drop decoder.c).length = decoder.compressedBufferSize := by
  rw [List.length_drop, ← sound.input]
  omega

/-- A back-reference keeps the bound on the position. -/
theorem reference_room {position size length : Nat} (positive : 0 < position)
    (long : length < 2 ^ lengthBits position + 3) (wide : 2 ≤ size) (narrow : size ≤ 4096)
    (room : position + 5 * size ≤ 26626) :
    position + length + 5 * (size - 2) ≤ 26626 := by
  have widest : lengthBits position ≤ 12 := by
    unfold lengthBits displacementBits
    omega
  have large : ∀ bits, 2 ^ bits ≤ position - 1 → lengthBits position ≤ 15 - bits := by
    intro bits reached
    have wider : bits < Nat.size (position - 1) := Nat.lt_size.mpr reached
    unfold lengthBits displacementBits
    omega
  have power : ∀ bits, lengthBits position ≤ bits → length < 2 ^ bits + 3 := fun bits most =>
    lt_of_lt_of_le long (Nat.add_le_add_right (Nat.pow_le_pow_right (by norm_num) most) 3)
  by_cases far : 4096 ≤ position - 1
  · have short := power 3 (large 12 far)
    omega
  · by_cases middle : 16 ≤ position - 1
    · have short := power 11 (large 4 middle)
      omega
    · have short := power 12 widest
      omega

/-! ### The two branches of a flag -/

theorem lower_of_le {counter amount : Nat} (enough : amount ≤ counter) :
    lower counter amount = .ok (counter - amount) := if_pos enough

theorem literal_full {buffers : Buffers} {group : Group}
    (full : group.compressedBufferSize = 0 ∨ group.uncompressedBufferSize = 0) :
    literal buffers group = .error (.returned .badCompressionBuffer) := by
  rcases full with full | full
  · simp [literal, full]
  · simp [literal, full]

theorem literal_next {buffers : Buffers} {group : Group} {byte : UInt8}
    (available : 1 ≤ group.compressedBufferSize) (nonempty : 1 ≤ group.blocksz)
    (room : 1 ≤ group.uncompressedBufferSize) (read : load buffers group.c = .ok byte)
    (fits : group.stored.length < buffers.capacity) :
    literal buffers group = .ok { group with
      c := group.c + 1
      compressedBufferSize := group.compressedBufferSize - 1
      stored := group.stored ++ [byte]
      uncompressedBufferSize := group.uncompressedBufferSize - 1
      blocksz := group.blocksz - 1
      blockpos := (group.blockpos + 1) % 2 ^ 16 } := by
  simp [literal, Nat.ne_of_gt available, Nat.ne_of_gt nonempty, Nat.ne_of_gt room, read, store,
    fits, lower_of_le available, lower_of_le nonempty, lower_of_le room]

theorem backReference_short {buffers : Buffers} {group : Group}
    (short : group.compressedBufferSize < 2 ∨ group.blocksz < 2) :
    backReference buffers group = .error (.returned .badCompressionBuffer) := by
  rcases short with short | short <;> simp [backReference, short]

theorem backReference_first {buffers : Buffers} {group : Group} {runlen : Nat}
    (available : 2 ≤ group.compressedBufferSize) (wide : 2 ≤ group.blocksz)
    (read : loadWord buffers group.c = .ok runlen) (first : group.blockpos = 0) :
    backReference buffers group = .error (.returned .badCompressionBuffer) := by
  simp [backReference, not_lt.mpr available, not_lt.mpr wide, read, lower_of_le available,
    lower_of_le wide, first]

theorem backReference_split {buffers : Buffers} {group : Group} {runlen : Nat} {split : Split}
    (available : 2 ≤ group.compressedBufferSize) (wide : 2 ≤ group.blocksz)
    (read : loadWord buffers group.c = .ok runlen) (inside : group.blockpos ≠ 0)
    (fields : splitToken group.blockpos = .ok split) :
    backReference buffers group =
      if group.uncompressedBufferSize < (runlen &&& split.len) + 3 then
        .error (.returned .badCompressionBuffer)
      else
        copyBack buffers (((runlen >>> split.back) + 1) % 2 ^ 16) ((runlen &&& split.len) + 3)
          { c := group.c + 2
            compressedBufferSize := group.compressedBufferSize - 2
            stored := group.stored
            uncompressedBufferSize :=
              group.uncompressedBufferSize - ((runlen &&& split.len) + 3) } >>= fun decoder =>
        pure { group with
          toDecoder := decoder
          blocksz := group.blocksz - 2
          blockpos := (group.blockpos + ((runlen &&& split.len) + 3)) % 2 ^ 16 } := by
  by_cases full : group.uncompressedBufferSize < (runlen &&& split.len) + 3
  · simp [backReference, not_lt.mpr available, not_lt.mpr wide, read, lower_of_le available,
      lower_of_le wide, inside, fields, full]
  · simp [backReference, not_lt.mpr available, not_lt.mpr wide, read, lower_of_le available,
      lower_of_le wide, inside, fields, full, lower_of_le (not_lt.mp full)]

/-- In a chunk that keeps the bound on its position, the length field has a bit at least. -/
theorem lengthBits_pos (position : Nat) (room : position ≤ 26626) : 1 ≤ lengthBits position := by
  have narrow : Nat.size (position - 1) ≤ 15 := Nat.size_le.mpr (by omega)
  unfold lengthBits displacementBits
  omega

/-- The two fields of a token, as the loop over the position parts them. -/
theorem splitToken_fields {position word : Nat} (inside : position ≠ 0) (room : position ≤ 26626)
    (small : word < 2 ^ 16) {split : Split} (splitting : splitToken position = .ok split) :
    (word &&& split.len) + 3 = word % 2 ^ lengthBits position + 3 ∧
      (word >>> split.back + 1) % 2 ^ 16 = word / 2 ^ lengthBits position + 1 := by
  obtain ⟨masked, width⟩ :=
    (splitToken_holds (Nat.pos_of_ne_zero inside) (by omega)).of_ok splitting
  have positive := lengthBits_pos position room
  constructor
  · rw [masked, Nat.and_two_pow_sub_one_eq_mod]
  · have half : word / 2 ^ lengthBits position ≤ word / 2 ^ 1 :=
      Nat.div_le_div_left (Nat.pow_le_pow_right (by norm_num) positive) (by norm_num)
    rw [width, Nat.shiftRight_eq_div_pow]
    exact Nat.mod_eq_of_lt (by omega)

/-! ### One item -/

theorem literal_holds {buffers : Buffers} {value : Except Stop (List UInt8)}
    {ending left : Nat} {group : Group} (clear : group.mask % 2 = 0)
    (nonempty : group.blocksz ≠ 0)
    (running : Running buffers value ending
      (.item left group.mask group.blocksz group.blockpos) group.toChunk) :
    Holds (fun next => next.i = group.i ∧ next.mask = group.mask ∧
        next.blocksz < group.blocksz ∧
        Running buffers value ending
          (.after (left - 1) (group.mask / 2) next.blocksz next.blockpos) next.toChunk)
      (fun stop => value = .error stop) (literal buffers group) := by
  obtain ⟨sound, narrow, room, endsAt, same⟩ := running
  have ahead := sound.ahead
  have input := sound.input
  have output := sound.output
  unfold remaining at same
  cases bytes : buffers.compressedBuffer.drop group.c with
  | nil =>
    rw [bytes] at ahead same
    rw [(scan_item_clear clear _ _ _).1] at same
    rw [literal_full (Or.inl ahead.symm), holds_error, ← same]
    exact conclude_nil _ (by decide) _
  | cons byte bytes =>
    obtain ⟨read, rest⟩ := load_of_drop bytes
    rw [bytes] at ahead same
    rw [List.length_cons] at ahead
    rw [(scan_item_clear clear _ _ _).2, conclude_literal] at same
    by_cases full : buffers.capacity < group.stored.length + 1
    · rw [if_pos full] at same
      rw [literal_full (Or.inr (by omega)), holds_error, same]
    · rw [if_neg full] at same
      rw [literal_next (by omega) (by omega) (by omega) read (by omega), holds_ok]
      have small : (group.blockpos + 1) % 2 ^ 16 = group.blockpos + 1 :=
        Nat.mod_eq_of_lt (by omega)
      refine ⟨rfl, rfl, by show group.blocksz - 1 < group.blocksz; omega, ?_⟩
      rw [small]
      refine ⟨⟨?_, ?_⟩, ?_, ?_, ?_, ?_⟩
      · show group.c + 1 + (group.compressedBufferSize - 1) = _
        omega
      · show (group.stored ++ [byte]).length + (group.uncompressedBufferSize - 1) = _
        rw [List.length_append, List.length_singleton]
        omega
      · show group.blocksz - 1 ≤ 4096
        omega
      · show group.blockpos + 1 + 5 * (group.blocksz - 1) ≤ 26626
        omega
      · show group.c + 1 + (group.blocksz - 1) = ending
        omega
      · unfold remaining
        rw [rest]
        exact same

theorem backReference_holds {buffers : Buffers} {value : Except Stop (List UInt8)}
    {ending left : Nat} {group : Group} (set : group.mask % 2 = 1)
    (running : Running buffers value ending
      (.item left group.mask group.blocksz group.blockpos) group.toChunk) :
    Holds (fun next => next.i = group.i ∧ next.mask = group.mask ∧
        next.blocksz < group.blocksz ∧
        Running buffers value ending
          (.after (left - 1) (group.mask / 2) next.blocksz next.blockpos) next.toChunk)
      (fun stop => value = .error stop) (backReference buffers group) := by
  obtain ⟨sound, narrow, room, endsAt, same⟩ := running
  have ahead := sound.ahead
  have input := sound.input
  have output := sound.output
  unfold remaining at same
  match bytes : buffers.compressedBuffer.drop group.c with
  | [] | [_] =>
    rw [bytes] at ahead same
    have short : group.compressedBufferSize < 2 := by
      rw [← ahead]
      simp
    rw [scan_item_short set _ _ _ (by simp)] at same
    rw [backReference_short (Or.inl short), holds_error, ← same]
    exact conclude_nil _ (by decide) _
  | low :: high :: bytes' =>
    obtain ⟨read, rest⟩ := loadWord_of_drop bytes
    rw [bytes] at ahead same
    rw [List.length_cons, List.length_cons] at ahead
    by_cases narrowest : group.blocksz < 2
    · rw [scan_item_refused set _ (Or.inl narrowest)] at same
      rw [backReference_short (Or.inr narrowest), holds_error, ← same]
      exact conclude_nil _ (by decide) _
    · by_cases first : group.blockpos = 0
      · rw [scan_item_refused set _ (Or.inr first)] at same
        rw [backReference_first (by omega) (by omega) read first, holds_error, ← same]
        exact conclude_nil _ (by decide) _
      · rw [scan_item_set set _ (by omega) first, conclude_reference] at same
        cases splitting : splitToken group.blockpos with
        | error stop =>
          have ends := splitToken_holds (Nat.pos_of_ne_zero first) (by omega)
          exact (ends.of_error splitting).elim
        | ok split =>
          have wordSmall : high.toNat * 256 + low.toNat < 2 ^ 16 := by
            have highSmall := high.toNat_lt
            have lowSmall := low.toNat_lt
            omega
          generalize high.toNat * 256 + low.toNat = word at *
          obtain ⟨length, displacement⟩ :=
            splitToken_fields first (by omega) wordSmall splitting
          rw [backReference_split (by omega) (by omega) read first splitting, length,
            displacement]
          generalize long : word % 2 ^ lengthBits group.blockpos + 3 = len at *
          by_cases full : group.uncompressedBufferSize < len
          · rw [if_pos (by omega)] at same
            rw [if_pos full, holds_error, same]
          · rw [if_neg (by omega)] at same
            rw [if_neg full, copyBack_eq (by show group.stored.length + len ≤ _; omega)]
            cases copied : Lz77.copy buffers.outside
                (word / 2 ^ lengthBits group.blockpos + 1) len group.stored with
            | error overrun =>
              rw [copied] at same
              exact same.symm
            | ok final =>
              rw [copied] at same
              have grown := Lz77.copy_length copied
              have kept : group.blockpos + len + 5 * (group.blocksz - 2) ≤ 26626 :=
                reference_room (Nat.pos_of_ne_zero first) (by omega)
                (by omega) narrow room
              have small : (group.blockpos + len) % 2 ^ 16 = group.blockpos + len :=
                Nat.mod_eq_of_lt (by omega)
              refine ⟨rfl, rfl, by show group.blocksz - 2 < group.blocksz; omega, ?_⟩
              rw [small]
              refine ⟨⟨?_, ?_⟩, ?_, kept, ?_, ?_⟩
              · show group.c + 2 + (group.compressedBufferSize - 2) = _
                omega
              · show final.length + (group.uncompressedBufferSize - len) = _
                omega
              · show group.blocksz - 2 ≤ 4096
                omega
              · show group.c + 2 + (group.blocksz - 2) = ending
                omega
              · unfold remaining
                rw [rest]
                exact same

/-! ### The loops -/

theorem after_zero (mask size position : Nat) :
    Mode.after 0 mask size position =
      if size = 0 then .header else .flags size position := by
  unfold Mode.after
  simp

theorem after_item {left size : Nat} (mask position : Nat) (more : 0 < left)
    (nonempty : size ≠ 0) :
    Mode.after left mask size position = .item left mask size position := by
  unfold Mode.after
  rw [if_neg nonempty, if_neg (Nat.ne_of_gt more)]

/-- A chunk of no bytes is followed by a header, whatever flags are left. -/
theorem after_empty (left mask position : Nat) : Mode.after left mask 0 position = .header := by
  unfold Mode.after
  exact if_pos rfl

/-- One turn of the loop over flags reads one item of the scan. -/
theorem flaggedToken_holds {buffers : Buffers} {value : Except Stop (List UInt8)}
    {ending : Nat} {group : Group} (more : group.i < 8) (nonempty : group.blocksz ≠ 0)
    (running : Running buffers value ending
      (.after (8 - group.i) group.mask group.blocksz group.blockpos) group.toChunk) :
    Holds (fun next => next.i = group.i + 1 ∧ next.blocksz < group.blocksz ∧
        Running buffers value ending
          (.after (8 - next.i) next.mask next.blocksz next.blockpos) next.toChunk)
      (fun stop => value = .error stop) (flaggedToken buffers group) := by
  rw [after_item _ _ (by omega) nonempty] at running
  have advance : ∀ next : Group, next.i = group.i ∧ next.mask = group.mask ∧
      next.blocksz < group.blocksz ∧
      Running buffers value ending
        (.after (8 - group.i - 1) (group.mask / 2) next.blocksz next.blockpos) next.toChunk →
      Holds (fun next => next.i = group.i + 1 ∧ next.blocksz < group.blocksz ∧
          Running buffers value ending
            (.after (8 - next.i) next.mask next.blocksz next.blockpos) next.toChunk)
        (fun stop => value = .error stop)
        (pure { next with mask := next.mask >>> 1, i := next.i + 1 }) := by
    rintro next ⟨index, mask, shorter, kept⟩
    have kept_shifted : Running buffers value ending
        (.after (8 - (next.i + 1)) (next.mask >>> 1) next.blocksz next.blockpos) next.toChunk := by
      rw [index, mask, Nat.shiftRight_succ, Nat.shiftRight_zero, ← Nat.sub_sub]
      exact kept
    have counted : next.i + 1 = group.i + 1 := by rw [index]
    exact And.intro counted (And.intro shorter kept_shifted)
  unfold flaggedToken
  rw [Nat.and_one_is_mod]
  by_cases set : group.mask % 2 = 1
  · rw [if_pos (by omega), holds_bind]
    exact (backReference_holds set running).mono advance fun _ stopped => stopped
  · rw [if_neg (by omega), holds_bind]
    exact (literal_holds (by omega) nonempty running).mono advance fun _ stopped => stopped

/-- The loop over the flags of one byte ends at the next flag byte or chunk header. -/
theorem runGroup_holds {buffers : Buffers} {value : Except Stop (List UInt8)}
    {ending : Nat} {group : Group} (first : group.i = 0)
    (running : Running buffers value ending
      (.after 8 group.mask group.blocksz group.blockpos) group.toChunk) :
    Holds (fun final => final.blocksz ≤ group.blocksz ∧
        Running buffers value ending
          (.after 0 0 final.blocksz final.blockpos) final.toChunk)
      (fun stop => value = .error stop) (runGroup buffers group) := by
  refine whileLoop_holds
    (fun next : Group => next.i ≤ 8 ∧ next.blocksz ≤ group.blocksz ∧
      Running buffers value ending
        (.after (8 - next.i) next.mask next.blocksz next.blockpos) next.toChunk)
    (fun next : Group => 8 - next.i) ?_ ?_ 9 group
    ⟨by omega, le_rfl, by rw [first]; exact running⟩ (by omega)
  · rintro final ⟨_, shorter, kept⟩ done
    refine ⟨shorter, ?_⟩
    by_cases empty : final.blocksz = 0
    · rw [empty, after_empty] at kept ⊢
      exact kept
    · have last : final.i = 8 := by
        simp only [empty, ne_eq, not_false_eq_true, decide_true, Bool.and_true,
          decide_eq_false_iff_not] at done
        omega
      rw [last, after_zero] at kept
      rw [after_zero]
      exact kept
  · rintro state ⟨within, shorter, kept⟩ going
    simp only [Bool.and_eq_true, decide_eq_true_eq] at going
    refine (flaggedToken_holds going.1 going.2 kept).mono (fun next step => ?_)
      (fun _ stopped => stopped)
    obtain ⟨index, smaller, running'⟩ := step
    exact ⟨⟨by omega, by omega, running'⟩, by omega⟩

/-- A flag byte and its items. -/
theorem runMask_holds {buffers : Buffers} {value : Except Stop (List UInt8)}
    {ending : Nat} {chunk : Chunk} (nonempty : chunk.blocksz ≠ 0)
    (running : Running buffers value ending (.after 0 0 chunk.blocksz chunk.blockpos) chunk) :
    Holds (fun next => next.blocksz < chunk.blocksz ∧
        Running buffers value ending (.after 0 0 next.blocksz next.blockpos) next)
      (fun stop => value = .error stop) (runMask buffers chunk) := by
  obtain ⟨sound, narrow, room, endsAt, same⟩ := running
  have ahead := sound.ahead
  have input := sound.input
  rw [after_zero, if_neg nonempty] at same
  unfold remaining at same
  cases bytes : buffers.compressedBuffer.drop chunk.c with
  | nil =>
    rw [bytes] at ahead same
    have stopped : runMask buffers chunk = .error (.returned .badCompressionBuffer) := by
      have none : chunk.compressedBufferSize = 0 := ahead.symm
      simp [runMask, none]
    rw [stopped, holds_error, ← same, scan_flags_nil]
    exact conclude_nil _ (by decide) _
  | cons mask bytes =>
    obtain ⟨read, rest⟩ := load_of_drop bytes
    rw [bytes, scan_flags_cons] at same
    rw [bytes, List.length_cons] at ahead
    have unfolded : runMask buffers chunk =
        runGroup buffers
          { toChunk := { chunk with
              c := chunk.c + 1
              compressedBufferSize := chunk.compressedBufferSize - 1
              blocksz := chunk.blocksz - 1 }
            i := 0, mask := mask.toNat } >>= fun group => pure group.toChunk := by
      have available : chunk.compressedBufferSize ≠ 0 := by omega
      simp [runMask, available, read, lower_of_le (Nat.one_le_iff_ne_zero.mpr available),
        lower_of_le (Nat.one_le_iff_ne_zero.mpr nonempty)]
    rw [unfolded, holds_bind]
    refine (@runGroup_holds _ value ending _ rfl ?_).mono
      (fun group kept => ?_) (fun _ stopped => stopped)
    · refine ⟨⟨?_, sound.output⟩, ?_, ?_, ?_, ?_⟩
      · show chunk.c + 1 + (chunk.compressedBufferSize - 1) = _
        omega
      · show chunk.blocksz - 1 ≤ 4096
        omega
      · show chunk.blockpos + 5 * (chunk.blocksz - 1) ≤ 26626
        omega
      · show chunk.c + 1 + (chunk.blocksz - 1) = ending
        omega
      · unfold remaining
        rw [rest]
        exact same
    · obtain ⟨shorter, kept⟩ := kept
      refine ⟨?_, kept⟩
      show group.blocksz < chunk.blocksz
      have smaller : group.blocksz ≤ chunk.blocksz - 1 := shorter
      omega

/-- A compressed chunk: the loop ends at the next chunk header, at the offset the header
announced. -/
theorem runBlock_holds {buffers : Buffers} {value : Except Stop (List UInt8)}
    {ending : Nat} {chunk : Chunk}
    (running : Running buffers value ending (.after 0 0 chunk.blocksz chunk.blockpos) chunk) :
    Holds (fun final => final.c = ending ∧ Sound buffers final.toDecoder ∧
        remaining buffers .header final.toDecoder = value)
      (fun stop => value = .error stop) (runBlock buffers chunk) := by
  refine whileLoop_holds
    (fun next : Chunk => Running buffers value ending
      (.after 0 0 next.blocksz next.blockpos) next)
    (fun next : Chunk => next.blocksz) ?_ ?_ (chunk.blocksz + 1) chunk running (by omega)
  · intro final kept done
    have empty : final.blocksz = 0 := by simpa using done
    have last := kept.ending
    have same := kept.remaining
    rw [empty, after_empty] at same
    exact ⟨by omega, kept.sound, same⟩
  · intro state kept going
    have nonempty : state.blocksz ≠ 0 := by simpa using going
    exact (runMask_holds nonempty kept).mono (fun next step => ⟨step.2, step.1⟩)
      fun _ stopped => stopped

/-! ### Chunks and streams -/

theorem header_raw_iff {word : Nat} (small : word < 2 ^ 16) :
    word &&& 0x8000 = 0 ↔ word < 0x8000 := by
  rw [show (0x8000 : Nat) = 2 ^ 15 by norm_num, Nat.and_comm, Nat.two_pow_and,
    Nat.testBit_eq_decide_div_mod_eq]
  by_cases high : word / 2 ^ 15 % 2 = 1
  · simp only [high, decide_true, Bool.toNat_true]
    omega
  · simp only [high, decide_false, Bool.toNat_false]
    omega

theorem header_size (word : Nat) : (word &&& 0xfff) + 1 = word % 4096 + 1 := by
  rw [show (0xfff : Nat) = 2 ^ 12 - 1 by norm_num, Nat.and_two_pow_sub_one_eq_mod]

/-- The two bytes of a header as a word. -/
def headerWord (low high : UInt8) : Nat := high.toNat * 256 + low.toNat

theorem headerWord_lt (low high : UInt8) : headerWord low high < 2 ^ 16 := by
  have highSmall := high.toNat_lt
  have lowSmall := low.toNat_lt
  unfold headerWord
  omega

/-- The bytes the decoder moves over behind a header. -/
def extent (word : Nat) : Nat := if word < 0x8000 then 4096 else word % 4096 + 1

/-- An uncompressed chunk that fits is copied as it is. -/
theorem rawChunk_next {buffers : Buffers} {decoder : Decoder}
    (sound : Sound buffers decoder) (available : 4096 ≤ decoder.compressedBufferSize)
    (room : 4096 ≤ decoder.uncompressedBufferSize) :
    rawChunk buffers decoder = .ok
      { c := decoder.c + 4096
        compressedBufferSize := decoder.compressedBufferSize - 4096
        stored := decoder.stored ++ (buffers.compressedBuffer.drop decoder.c).take 4096
        uncompressedBufferSize := decoder.uncompressedBufferSize - 4096 } := by
  have input := sound.input
  have output := sound.output
  have inside : ¬ buffers.compressedBuffer.length < decoder.c + 4096 := by omega
  have fits : ¬ buffers.capacity < decoder.stored.length + 4096 := by omega
  simp [rawChunk, not_lt.mpr available, not_lt.mpr room, memcpy, inside, fits,
    lower_of_le available, lower_of_le room]

theorem rawChunk_full {buffers : Buffers} {decoder : Decoder}
    (full : decoder.compressedBufferSize < 4096 ∨ decoder.uncompressedBufferSize < 4096) :
    rawChunk buffers decoder = .error (.returned .badCompressionBuffer) := by
  rcases full with full | full
  · simp [rawChunk, full]
  · simp [rawChunk, full]

/-- The expansion of an uncompressed chunk. -/
theorem conclude_raw (buffers : Buffers) (bytes : List UInt8)
    (rest : List (Lz77.Token UInt8) × NtStatus) {stored : List UInt8}
    (enough : stored.length ≤ buffers.capacity) :
    conclude buffers (emit (bytes.map .literal) rest) stored =
      if buffers.capacity < stored.length + bytes.length then
        .error (.returned .badCompressionBuffer)
      else conclude buffers rest (stored ++ bytes) := by
  unfold conclude emit
  rw [Lz77.expand_append]
  by_cases full : buffers.capacity < stored.length + bytes.length
  · rw [if_pos full, Lz77.expand_literals_full enough full]
    rfl
  · rw [if_neg full, Lz77.expand_literals (by omega)]
    rfl

/-- An uncompressed chunk, behind its header. -/
theorem rawChunk_holds {buffers : Buffers} {decoder : Decoder} (sound : Sound buffers decoder)
    {value : Except Stop (List UInt8)}
    (same : conclude buffers
      (if (buffers.compressedBuffer.drop decoder.c).length < 4096 then
        ([], .badCompressionBuffer)
      else emit (((buffers.compressedBuffer.drop decoder.c).take 4096).map .literal)
        (scan .header ((buffers.compressedBuffer.drop decoder.c).drop 4096)))
      decoder.stored = value) :
    Holds (fun next => next.c = decoder.c + 4096 ∧ Sound buffers next ∧
        remaining buffers .header next = value)
      (fun stop => value = .error stop) (rawChunk buffers decoder) := by
  have ahead := sound.ahead
  have input := sound.input
  have output := sound.output
  by_cases short : decoder.compressedBufferSize < 4096
  · rw [if_pos (by omega)] at same
    rw [rawChunk_full (Or.inl short), holds_error, ← same]
    exact conclude_nil _ (by decide) _
  · have taken : ((buffers.compressedBuffer.drop decoder.c).take 4096).length = 4096 := by
      rw [List.length_take]
      omega
    rw [if_neg (by omega), conclude_raw _ _ _ (by omega), taken] at same
    by_cases full : decoder.uncompressedBufferSize < 4096
    · rw [if_pos (by omega)] at same
      rw [rawChunk_full (Or.inr full), holds_error, same]
    · rw [if_neg (by omega)] at same
      rw [rawChunk_next sound (by omega) (by omega), holds_ok]
      refine ⟨rfl, ⟨?_, ?_⟩, ?_⟩
      · show decoder.c + 4096 + (decoder.compressedBufferSize - 4096) = _
        omega
      · show (decoder.stored ++ (buffers.compressedBuffer.drop decoder.c).take 4096).length +
          (decoder.uncompressedBufferSize - 4096) = _
        rw [List.length_append, taken]
        omega
      · unfold remaining
        rw [List.drop_drop] at same
        exact same

/-- The state behind a chunk header. -/
def behindHeader (decoder : Decoder) : Decoder :=
  { decoder with
    c := decoder.c + 2, compressedBufferSize := decoder.compressedBufferSize - 2 }

theorem behindHeader_sound {buffers : Buffers} {decoder : Decoder}
    (sound : Sound buffers decoder) (available : 2 ≤ decoder.compressedBufferSize) :
    Sound buffers (behindHeader decoder) := by
  have input := sound.input
  exact ⟨by show decoder.c + 2 + (decoder.compressedBufferSize - 2) = _; omega, sound.output⟩

theorem runChunk_raw {buffers : Buffers} {decoder : Decoder} {low high : UInt8}
    (available : 2 ≤ decoder.compressedBufferSize)
    (read : loadWord buffers decoder.c = .ok (headerWord low high))
    (raw : headerWord low high < 0x8000) :
    runChunk buffers decoder = rawChunk buffers (behindHeader decoder) := by
  simp [runChunk, not_lt.mpr available, read, lower_of_le available,
    (header_raw_iff (headerWord_lt low high)).mpr raw, behindHeader]

theorem runChunk_compressed {buffers : Buffers} {decoder : Decoder} {low high : UInt8}
    (available : 2 ≤ decoder.compressedBufferSize)
    (read : loadWord buffers decoder.c = .ok (headerWord low high))
    (compressed : ¬ headerWord low high < 0x8000) :
    runChunk buffers decoder =
      runBlock buffers
        { toDecoder := behindHeader decoder
          blocksz := headerWord low high % 4096 + 1, blockpos := 0 } >>=
        fun chunk => pure chunk.toDecoder := by
  simp [runChunk, not_lt.mpr available, read, lower_of_le available,
    (header_raw_iff (headerWord_lt low high)).not.mpr compressed, header_size, behindHeader]

/-- One turn of the outer loop: a chunk, over the bytes its header stands for. -/
theorem runChunk_holds {buffers : Buffers} {decoder : Decoder} (sound : Sound buffers decoder)
    (nonempty : decoder.compressedBufferSize ≠ 0) :
    Holds (fun next =>
        (∃ low high bytes, buffers.compressedBuffer.drop decoder.c = low :: high :: bytes ∧
          next.c = decoder.c + 2 + extent (headerWord low high)) ∧
        Sound buffers next ∧
        remaining buffers .header next = remaining buffers .header decoder)
      (fun stop => remaining buffers .header decoder = .error stop)
      (runChunk buffers decoder) := by
  generalize same : remaining buffers .header decoder = value
  have ahead := sound.ahead
  unfold remaining at same
  match bytes : buffers.compressedBuffer.drop decoder.c with
  | [] =>
    rw [bytes] at ahead
    exact absurd ahead.symm nonempty
  | [_] =>
    rw [bytes] at ahead same
    have short : decoder.compressedBufferSize = 1 := ahead.symm
    have stopped : runChunk buffers decoder = .error (.returned .invalidParameter) := by
      simp [runChunk, short]
    rw [stopped, holds_error, ← same, scan_header_single]
    exact conclude_nil _ (by decide) _
  | low :: high :: bytes' =>
    obtain ⟨read, rest⟩ := loadWord_of_drop bytes
    rw [bytes, scan_header_cons] at same
    rw [bytes, List.length_cons, List.length_cons] at ahead
    have available : 2 ≤ decoder.compressedBufferSize := by omega
    have behind := behindHeader_sound sound available
    change loadWord buffers decoder.c = .ok (headerWord low high) at read
    change conclude buffers (if headerWord low high < 0x8000 then _ else
      scan (.flags (headerWord low high % 4096 + 1) 0) bytes') decoder.stored = value at same
    by_cases raw : headerWord low high < 0x8000
    · rw [if_pos raw, ← rest] at same
      rw [runChunk_raw available read raw]
      refine (rawChunk_holds behind same).mono (fun next done => ?_) (fun _ stopped => stopped)
      obtain ⟨moved, kept, left⟩ := done
      refine ⟨⟨low, high, bytes', rfl, ?_⟩, kept, left⟩
      rw [moved, extent, if_pos raw]
      rfl
    · have bound : headerWord low high % 4096 < 4096 := Nat.mod_lt _ (by norm_num)
      rw [if_neg raw, ← rest] at same
      rw [runChunk_compressed available read raw, holds_bind]
      refine (@runBlock_holds _ value (decoder.c + 2 + (headerWord low high % 4096 + 1))
        _ ?_).mono
        (fun chunk done => ?_) (fun _ stopped => stopped)
      · refine ⟨behind, ?_, ?_, rfl, ?_⟩
        · show headerWord low high % 4096 + 1 ≤ 4096
          omega
        · show 0 + 5 * (headerWord low high % 4096 + 1) ≤ 26626
          omega
        · rw [after_zero, if_neg (Nat.succ_ne_zero _)]
          exact same
      · obtain ⟨moved, kept, left⟩ := done
        refine ⟨⟨low, high, bytes', rfl, ?_⟩, kept, left⟩
        show chunk.c = _
        rw [moved, extent, if_neg raw]

/-- The decoder computes the expansion of its tokens: it ends with what the token stream
amounts to, having read the whole input. -/
theorem runStream_holds {buffers : Buffers} {decoder : Decoder}
    (sound : Sound buffers decoder) :
    Holds (fun final => final.compressedBufferSize = 0 ∧ Sound buffers final ∧
        remaining buffers .header decoder = .ok final.stored)
      (fun stop => remaining buffers .header decoder = .error stop)
      (runStream buffers decoder) := by
  refine whileLoop_holds
    (fun next : Decoder => Sound buffers next ∧
      remaining buffers .header next = remaining buffers .header decoder)
    (fun next : Decoder => next.compressedBufferSize) ?_ ?_
    (decoder.compressedBufferSize + 1) decoder ⟨sound, rfl⟩ (by omega)
  · rintro final ⟨kept, same⟩ done
    have empty : final.compressedBufferSize = 0 := by simpa [hasInput] using done
    refine ⟨empty, kept, ?_⟩
    have nothing : buffers.compressedBuffer.drop final.c = [] :=
      List.eq_nil_of_length_eq_zero (by rw [kept.ahead, empty])
    rw [← same]
    unfold remaining
    rw [nothing, scan_header_nil]
    rfl
  · rintro state ⟨kept, same⟩ going
    have nonempty : state.compressedBufferSize ≠ 0 := by simpa [hasInput] using going
    refine (runChunk_holds kept nonempty).mono (fun next step => ?_) (fun stop stopped => ?_)
    · obtain ⟨⟨low, high, bytes, _, moved⟩, sound', left⟩ := step
      have before := kept.input
      have after := sound'.input
      have positive : 0 < extent (headerWord low high) := by
        unfold extent
        split <;> omega
      exact ⟨⟨sound', left.trans same⟩, by omega⟩
    · rw [← same]
      exact stopped

end Nloader.Lznt1
