/-
This file models `src/libs/ntdll/crc32.c` and compares it with the check it stands for, as was done
for the one of 64 bits. Here the least significant bit of a byte comes first and the remainder is
held the other way around, so that it moves down where that of the check moves up.
-/

import Nloader.Library.Crc

namespace Nloader.Crc32

open Crc

/-! ### The functions -/

/-- The literals of `CRC_table`. -/
def crcEntries : List UInt32 := [
   0x00000000, 0x77073096, 0xee0e612c, 0x990951ba, 0x076dc419, 0x706af48f, 0xe963a535,
   0x9e6495a3, 0x0edb8832, 0x79dcb8a4, 0xe0d5e91e, 0x97d2d988, 0x09b64c2b, 0x7eb17cbd,
   0xe7b82d07, 0x90bf1d91, 0x1db71064, 0x6ab020f2, 0xf3b97148, 0x84be41de, 0x1adad47d,
   0x6ddde4eb, 0xf4d4b551, 0x83d385c7, 0x136c9856, 0x646ba8c0, 0xfd62f97a, 0x8a65c9ec,
   0x14015c4f, 0x63066cd9, 0xfa0f3d63, 0x8d080df5, 0x3b6e20c8, 0x4c69105e, 0xd56041e4,
   0xa2677172, 0x3c03e4d1, 0x4b04d447, 0xd20d85fd, 0xa50ab56b, 0x35b5a8fa, 0x42b2986c,
   0xdbbbc9d6, 0xacbcf940, 0x32d86ce3, 0x45df5c75, 0xdcd60dcf, 0xabd13d59, 0x26d930ac,
   0x51de003a, 0xc8d75180, 0xbfd06116, 0x21b4f4b5, 0x56b3c423, 0xcfba9599, 0xb8bda50f,
   0x2802b89e, 0x5f058808, 0xc60cd9b2, 0xb10be924, 0x2f6f7c87, 0x58684c11, 0xc1611dab,
   0xb6662d3d, 0x76dc4190, 0x01db7106, 0x98d220bc, 0xefd5102a, 0x71b18589, 0x06b6b51f,
   0x9fbfe4a5, 0xe8b8d433, 0x7807c9a2, 0x0f00f934, 0x9609a88e, 0xe10e9818, 0x7f6a0dbb,
   0x086d3d2d, 0x91646c97, 0xe6635c01, 0x6b6b51f4, 0x1c6c6162, 0x856530d8, 0xf262004e,
   0x6c0695ed, 0x1b01a57b, 0x8208f4c1, 0xf50fc457, 0x65b0d9c6, 0x12b7e950, 0x8bbeb8ea,
   0xfcb9887c, 0x62dd1ddf, 0x15da2d49, 0x8cd37cf3, 0xfbd44c65, 0x4db26158, 0x3ab551ce,
   0xa3bc0074, 0xd4bb30e2, 0x4adfa541, 0x3dd895d7, 0xa4d1c46d, 0xd3d6f4fb, 0x4369e96a,
   0x346ed9fc, 0xad678846, 0xda60b8d0, 0x44042d73, 0x33031de5, 0xaa0a4c5f, 0xdd0d7cc9,
   0x5005713c, 0x270241aa, 0xbe0b1010, 0xc90c2086, 0x5768b525, 0x206f85b3, 0xb966d409,
   0xce61e49f, 0x5edef90e, 0x29d9c998, 0xb0d09822, 0xc7d7a8b4, 0x59b33d17, 0x2eb40d81,
   0xb7bd5c3b, 0xc0ba6cad, 0xedb88320, 0x9abfb3b6, 0x03b6e20c, 0x74b1d29a, 0xead54739,
   0x9dd277af, 0x04db2615, 0x73dc1683, 0xe3630b12, 0x94643b84, 0x0d6d6a3e, 0x7a6a5aa8,
   0xe40ecf0b, 0x9309ff9d, 0x0a00ae27, 0x7d079eb1, 0xf00f9344, 0x8708a3d2, 0x1e01f268,
   0x6906c2fe, 0xf762575d, 0x806567cb, 0x196c3671, 0x6e6b06e7, 0xfed41b76, 0x89d32be0,
   0x10da7a5a, 0x67dd4acc, 0xf9b9df6f, 0x8ebeeff9, 0x17b7be43, 0x60b08ed5, 0xd6d6a3e8,
   0xa1d1937e, 0x38d8c2c4, 0x4fdff252, 0xd1bb67f1, 0xa6bc5767, 0x3fb506dd, 0x48b2364b,
   0xd80d2bda, 0xaf0a1b4c, 0x36034af6, 0x41047a60, 0xdf60efc3, 0xa867df55, 0x316e8eef,
   0x4669be79, 0xcb61b38c, 0xbc66831a, 0x256fd2a0, 0x5268e236, 0xcc0c7795, 0xbb0b4703,
   0x220216b9, 0x5505262f, 0xc5ba3bbe, 0xb2bd0b28, 0x2bb45a92, 0x5cb36a04, 0xc2d7ffa7,
   0xb5d0cf31, 0x2cd99e8b, 0x5bdeae1d, 0x9b64c2b0, 0xec63f226, 0x756aa39c, 0x026d930a,
   0x9c0906a9, 0xeb0e363f, 0x72076785, 0x05005713, 0x95bf4a82, 0xe2b87a14, 0x7bb12bae,
   0x0cb61b38, 0x92d28e9b, 0xe5d5be0d, 0x7cdcefb7, 0x0bdbdf21, 0x86d3d2d4, 0xf1d4e242,
   0x68ddb3f8, 0x1fda836e, 0x81be16cd, 0xf6b9265b, 0x6fb077e1, 0x18b74777, 0x88085ae6,
   0xff0f6a70, 0x66063bca, 0x11010b5c, 0x8f659eff, 0xf862ae69, 0x616bffd3, 0x166ccf45,
   0xa00ae278, 0xd70dd2ee, 0x4e048354, 0x3903b3c2, 0xa7672661, 0xd06016f7, 0x4969474d,
   0x3e6e77db, 0xaed16a4a, 0xd9d65adc, 0x40df0b66, 0x37d83bf0, 0xa9bcae53, 0xdebb9ec5,
   0x47b2cf7f, 0x30b5ffe9, 0xbdbdf21c, 0xcabac28a, 0x53b39330, 0x24b4a3a6, 0xbad03605,
   0xcdd70693, 0x54de5729, 0x23d967bf, 0xb3667a2e, 0xc4614ab8, 0x5d681b02, 0x2a6f2b94,
   0xb40bbe37, 0xc30c8ea1, 0x5a05df1b, 0x2d02ef8d]

/-- `CRC_table[idx]`. -/
def crcTable (idx : UInt32) : UInt32 := crcEntries.getD idx.toNat 0

/-- `(crc ^ *pData) & 0xff`. -/
def index (crc : UInt32) (byte : UInt8) : UInt32 := (crc ^^^ byte.toUInt32) &&& 0xff

/-- `while (iLen > 0)`, with `iLen` turns to go. -/
def crcLoop : List UInt8 → Nat → UInt32 → Option UInt32
  | _, 0, crc => some crc
  | [], _ + 1, _ => none
  | byte :: pData, iLen + 1, crc =>
    crcLoop pData iLen (crcTable (index crc byte) ^^^ (crc >>> 8))

/-- `RtlComputeCrc32`, where the bytes from `pData` on can be read. -/
def rtlComputeCrc32 (initial : UInt32) (pData : List UInt8) (iLen : Int32) : Option UInt32 :=
  (crcLoop pData iLen.toNatClampNeg (~~~ initial)).map (~~~ ·)

/-- `RtlCrc32`. -/
def rtlCrc32 (pData : List UInt8) (iLen : Int32) (initial : UInt32) : Option UInt32 :=
  rtlComputeCrc32 initial pData iLen

/-! ### The check, bit by bit -/

/-- The polynomial, the most significant bit first: the comment of the source gives it the other
way around, as 0xedb88320. -/
def polynomial : BitVec 32 := 0x04c11db7

/-- The check of a byte string: both ends of the remainder are complemented, and read backwards. -/
def bitSerial (initial : UInt32) (bytes : List UInt8) : UInt32 :=
  ~~~ .ofBitVec
    (serial polynomial (~~~ initial).toBitVec.reverse (bottomBitsOf bytes)).reverse

/-- Every entry of the table is the remainder of the bits of its index. -/
theorem crcEntries_eq : ∀ idx < 256,
    (crcEntries.getD idx 0).toBitVec =
      (serial polynomial 0 (bottomBits 8 (BitVec.ofNat 8 idx))).reverse := by
  decide +kernel

theorem index_lt (crc : UInt32) (byte : UInt8) : (index crc byte).toNat < 256 := by
  have masked : (index crc byte).toNat ≤ 0xff := by
    rw [index, UInt32.toNat_and]
    exact Nat.and_le_right
  omega

/-- The bits of the index: what leaves the remainder, and the byte. -/
theorem bottomBits_index (crc : UInt32) (byte : UInt8) :
    bottomBits 8 (BitVec.ofNat 8 (index crc byte).toNat) =
      (List.range 8).map fun position =>
        crc.toBitVec.reverse.getMsbD position ^^ byte.toBitVec.getLsbD position := by
  refine List.map_congr_left fun position member => ?_
  have within : position < 8 := List.mem_range.mp member
  have low : (0xff : Nat).testBit position = true := by
    interval_cases position <;> rfl
  rw [BitVec.getMsbD_reverse, BitVec.getLsbD_ofNat, decide_eq_true within, index,
    UInt32.toNat_and, Nat.testBit_and, UInt32.toNat_xor, Nat.testBit_xor]
  change (true && ((crc.toNat.testBit position ^^ _) && (0xff : Nat).testBit position)) = _
  rw [low, Bool.true_and, Bool.and_true, UInt8.toNat_toUInt32]
  rfl

theorem reverse_xor (first second : BitVec 32) :
    (first ^^^ second).reverse = first.reverse ^^^ second.reverse := by
  refine BitVec.eq_of_getLsbD_eq fun index _ => ?_
  rw [BitVec.getLsbD_xor, BitVec.getLsbD_reverse, BitVec.getLsbD_reverse, BitVec.getLsbD_reverse,
    BitVec.getMsbD_xor]

/-- What moves down moves up when it is read backwards. -/
theorem reverse_shift (crc : UInt32) :
    (crc >>> 8).toBitVec.reverse = crc.toBitVec.reverse <<< 8 := by
  refine BitVec.eq_of_getMsbD_eq fun index within => ?_
  rw [BitVec.getMsbD_reverse, BitVec.getMsbD_shiftLeft, BitVec.getMsbD_reverse,
    UInt32.toBitVec_shiftRight, Nat.add_comm]
  exact BitVec.getLsbD_ushiftRight _ _ _

/-- A turn of the loop feeds the eight bits of a byte. -/
theorem crcTurn_eq (crc : UInt32) (byte : UInt8) :
    (crcTable (index crc byte) ^^^ (crc >>> 8)).toBitVec.reverse =
      serial polynomial crc.toBitVec.reverse (bottomBits 8 byte.toBitVec) := by
  rw [bottomBits, serial_chunk, ← bottomBits_index, UInt32.toBitVec_xor, reverse_xor,
    reverse_shift, crcTable, crcEntries_eq _ (index_lt crc byte), BitVec.reverse_reverse_eq]

/-- The loop feeds the bytes. -/
theorem crcLoop_eq (bytes : List UInt8) (crc : UInt32) :
    crcLoop bytes bytes.length crc =
      some (.ofBitVec (serial polynomial crc.toBitVec.reverse (bottomBitsOf bytes)).reverse) := by
  induction bytes generalizing crc with
  | nil =>
    change some crc = some (.ofBitVec crc.toBitVec.reverse.reverse)
    rw [BitVec.reverse_reverse_eq]
  | cons byte bytes inductionHypothesis =>
    rw [List.length_cons, crcLoop, inductionHypothesis, crcTurn_eq, ← serial_append]
    rfl

/-- A byte string that an `INT` can count is read to its end, and gives the check. -/
theorem rtlComputeCrc32_eq {bytes : List UInt8} (short : bytes.length < 2 ^ 31)
    (initial : UInt32) :
    rtlComputeCrc32 initial bytes (.ofNat bytes.length) = some (bitSerial initial bytes) := by
  rw [rtlComputeCrc32, Int32.toNatClampNeg_ofNat_of_lt short, crcLoop_eq]
  rfl

/-- The check of two byte strings is that of the second, from that of the first. -/
theorem bitSerial_append (first second : List UInt8) (initial : UInt32) :
    bitSerial initial (first ++ second) = bitSerial (bitSerial initial first) second := by
  unfold bitSerial
  rw [bottomBitsOf, List.flatMap_append, serial_append, UInt32.not_not]
  change _ = ~~~ UInt32.ofBitVec (serial polynomial (BitVec.reverse (BitVec.reverse _)) _).reverse
  rw [BitVec.reverse_reverse_eq]
  rfl

/-- `RtlComputeCrc32` of a byte string is the check bit by bit, that of a concatenation can be taken
in two calls, and two byte strings that differ in a window of 32 bits at most have different
checks. -/
theorem rtlComputeCrc32_isBitSerial (initial : UInt32) (bytes : List UInt8)
    (short : bytes.length < 2 ^ 31) :
    rtlComputeCrc32 initial bytes (.ofNat bytes.length) = some (bitSerial initial bytes) ∧
      (∀ first second, bytes = first ++ second →
        rtlComputeCrc32 initial bytes (.ofNat bytes.length) =
          rtlComputeCrc32 initial first (.ofNat first.length) >>= fun crc =>
            rtlCrc32 second (.ofNat second.length) crc) ∧
      ∀ other, other.length < 2 ^ 31 →
        Nonempty (Burst 32 (bottomBitsOf bytes) (bottomBitsOf other)) →
        rtlComputeCrc32 initial bytes (.ofNat bytes.length) =
          rtlComputeCrc32 initial other (.ofNat other.length) → bytes = other := by
  refine ⟨rtlComputeCrc32_eq short initial, ?_, ?_⟩
  · rintro first second rfl
    rw [List.length_append] at short
    have shortFirst : first.length < 2 ^ 31 := by omega
    have shortSecond : second.length < 2 ^ 31 := by omega
    rw [rtlComputeCrc32_eq (by rwa [List.length_append]), rtlComputeCrc32_eq shortFirst]
    change _ = rtlComputeCrc32 (bitSerial initial first) second _
    rw [rtlComputeCrc32_eq shortSecond, bitSerial_append]
  · rintro other shortOther ⟨burst⟩ same
    rw [rtlComputeCrc32_eq short, rtlComputeCrc32_eq shortOther] at same
    have checks := UInt32.not_inj.mp (Option.some.inj same)
    have remainders := congrArg BitVec.reverse (congrArg UInt32.toBitVec checks)
    change BitVec.reverse (BitVec.reverse _) = BitVec.reverse (BitVec.reverse _) at remainders
    rw [BitVec.reverse_reverse_eq, BitVec.reverse_reverse_eq] at remainders
    exact bottomBitsOf_injective (burst.eq_of_serial_eq (by decide) remainders)

/-- The check of a text of nine digits. -/
theorem rtlComputeCrc32_isBitSerial_digits :
    rtlComputeCrc32 0 [49, 50, 51, 52, 53, 54, 55, 56, 57] 9 = some 0xcbf43926 := by
  have checked := (rtlComputeCrc32_isBitSerial 0 [49, 50, 51, 52, 53, 54, 55, 56, 57] (by decide)).1
  exact checked.trans (by decide +kernel)

end Nloader.Crc32
