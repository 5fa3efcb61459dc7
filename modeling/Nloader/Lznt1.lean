/-
This file models `libs/ntdll/lznt1.c`: the LZNT1 decoder and the retry loop of the
standalone tool.

The decoder works on two buffers with raw pointers and remaining-byte counters. The model
keeps the counters of the source and makes every step that C leaves unchecked visible: a
read of the compressed buffer, a store through `d`, and a subtraction from an unsigned
counter each stop with a fault where C would leave its buffer or wrap. The read `d[-back]`
finds the bytes this call has stored; anywhere else it finds whatever the memory around
the output buffer holds, which is a parameter, or faults where nothing is mapped.
-/

import Nloader.Library.Lz77

namespace Nloader.Lznt1

open Outcome

/-! ### State of the decoder -/

/-- The statuses of the decoder. -/
inductive NtStatus where
  | success
  | accessViolation
  | invalidParameter
  | badCompressionBuffer
  deriving DecidableEq

/-- Steps that C does not check. -/
inductive Fault where
  | readPastInput
  | storePastOutput
  | readOutside
  | counterBelowZero
  | outOfTurns
  deriving DecidableEq

/-- An early end of the decoder: a `return`, or a fault. -/
inductive Stop where
  | returned (status : NtStatus)
  | fault (fault : Fault)
  deriving DecidableEq

/-- What a call reads without changing it: the compressed bytes, the size of the output
buffer at the call, and the memory around the bytes stored so far, addressed from the start
of the output buffer. -/
structure Buffers where
  compressedBuffer : List UInt8
  capacity : Nat
  outside : Int → Option UInt8

/-- The variables of the outer loop. `c` is an offset into the compressed buffer, and `d`
points behind the bytes `stored`. -/
structure Decoder where
  c : Nat
  compressedBufferSize : Nat
  stored : List UInt8
  uncompressedBufferSize : Nat
  deriving DecidableEq

/-- The variables of one compressed chunk. -/
structure Chunk extends Decoder where
  blocksz : Nat
  blockpos : Nat

/-- The variables of one flag byte. -/
structure Group extends Chunk where
  i : Nat
  mask : Nat

/-! ### Memory and counters -/

/-- `CompressedBuffer[index]`. -/
def load (buffers : Buffers) (index : Nat) : Except Stop UInt8 :=
  match buffers.compressedBuffer[index]? with
  | some byte => pure byte
  | none => throw (.fault .readPastInput)

/-- `((uint16_t) c[1] << 8) + *c`. -/
def loadWord (buffers : Buffers) (index : Nat) : Except Stop Nat := do
  let high ← load buffers (index + 1)
  let low ← load buffers index
  pure ((high.toNat <<< 8) + low.toNat)

/-- `counter -= amount` for an unsigned counter. -/
def lower (counter amount : Nat) : Except Stop Nat :=
  if amount ≤ counter then pure (counter - amount) else throw (.fault .counterBelowZero)

/-- `*d++ = byte`. -/
def store (buffers : Buffers) (byte : UInt8) (decoder : Decoder) : Except Stop Decoder :=
  if decoder.stored.length < buffers.capacity then
    pure { decoder with stored := decoder.stored ++ [byte] }
  else throw (.fault .storePastOutput)

/-- `d[-back]`. -/
def loadBack (buffers : Buffers) (decoder : Decoder) (back : Nat) : Except Stop UInt8 :=
  match Lz77.lookBack buffers.outside decoder.stored back with
  | some byte => pure byte
  | none => throw (.fault .readOutside)

/-- `memcpy(d, c, size); d += size;`. -/
def memcpy (buffers : Buffers) (size : Nat) (decoder : Decoder) : Except Stop Decoder :=
  if buffers.compressedBuffer.length < decoder.c + size then throw (.fault .readPastInput)
  else if buffers.capacity < decoder.stored.length + size then throw (.fault .storePastOutput)
  else
    pure { decoder with
      stored := decoder.stored ++ (buffers.compressedBuffer.drop decoder.c).take size }

/-! ### One token -/

/-- The variables of the loop that splits a token. -/
structure Split where
  j : Nat
  len : Nat
  back : Nat

/-- `for (j = blockpos - 1; j >= 0x10; j >>= 1) { len >>= 1; back--; }`, which leaves the
mask of the length field in `len` and its width in `back`. -/
def splitToken (blockpos : Nat) : Except Stop Split :=
  whileLoop (.fault .outOfTurns) (fun split => decide (0x10 ≤ split.j))
    (fun split => do
      let back ← lower split.back 1
      pure { j := split.j >>> 1, len := split.len >>> 1, back })
    blockpos { j := blockpos - 1, len := 0xfff, back := 12 }

/-- `while (len--) { *d = d[-back]; d++; }`. -/
def copyBack (buffers : Buffers) (back : Nat) : Nat → Decoder → Except Stop Decoder
  | 0, decoder => pure decoder
  | len + 1, decoder => do
    let byte ← loadBack buffers decoder back
    let decoder ← store buffers byte decoder
    copyBack buffers back len decoder

/-- The branch of a set flag: a two-byte back-reference. -/
def backReference (buffers : Buffers) (group : Group) : Except Stop Group := do
  if group.compressedBufferSize < 2 || group.blocksz < 2 then
    throw (.returned .badCompressionBuffer)
  let runlen ← loadWord buffers group.c
  let compressedBufferSize ← lower group.compressedBufferSize 2
  let blocksz ← lower group.blocksz 2
  if group.blockpos == 0 then throw (.returned .badCompressionBuffer)
  let split ← splitToken group.blockpos
  let len := (runlen &&& split.len) + 3
  let back := ((runlen >>> split.back) + 1) % 2 ^ 16
  if group.uncompressedBufferSize < len then throw (.returned .badCompressionBuffer)
  let uncompressedBufferSize ← lower group.uncompressedBufferSize len
  let decoder ← copyBack buffers back len
    { c := group.c + 2, compressedBufferSize, stored := group.stored, uncompressedBufferSize }
  pure { group with
    toDecoder := decoder, blocksz, blockpos := (group.blockpos + len) % 2 ^ 16 }

/-- The branch of a clear flag: a literal byte. -/
def literal (buffers : Buffers) (group : Group) : Except Stop Group := do
  if group.compressedBufferSize == 0 || group.blocksz == 0 then
    throw (.returned .badCompressionBuffer)
  if group.uncompressedBufferSize == 0 then throw (.returned .badCompressionBuffer)
  let byte ← load buffers group.c
  let decoder ← store buffers byte group.toDecoder
  let uncompressedBufferSize ← lower group.uncompressedBufferSize 1
  let compressedBufferSize ← lower group.compressedBufferSize 1
  let blocksz ← lower group.blocksz 1
  pure { group with
    toDecoder := { decoder with
      c := group.c + 1, compressedBufferSize, uncompressedBufferSize }
    blocksz, blockpos := (group.blockpos + 1) % 2 ^ 16 }

/-- The body of the loop over the flags of one byte. -/
def flaggedToken (buffers : Buffers) (group : Group) : Except Stop Group := do
  let next ← if group.mask &&& 1 ≠ 0 then backReference buffers group else literal buffers group
  pure { next with mask := next.mask >>> 1, i := next.i + 1 }

/-! ### The three loops -/

/-- `for (i = 0; i < 8 && blocksz; i++)`. -/
def runGroup (buffers : Buffers) (group : Group) : Except Stop Group :=
  whileLoop (.fault .outOfTurns) (fun group => decide (group.i < 8) && decide (group.blocksz ≠ 0))
    (flaggedToken buffers) 9 group

/-- The body of the loop over one compressed chunk: a flag byte and its tokens. -/
def runMask (buffers : Buffers) (chunk : Chunk) : Except Stop Chunk := do
  if chunk.compressedBufferSize == 0 then throw (.returned .badCompressionBuffer)
  let mask ← load buffers chunk.c
  let compressedBufferSize ← lower chunk.compressedBufferSize 1
  let blocksz ← lower chunk.blocksz 1
  let group ← runGroup buffers
    { toChunk := { chunk with
        toDecoder := { chunk.toDecoder with c := chunk.c + 1, compressedBufferSize }, blocksz }
      i := 0, mask := mask.toNat }
  pure group.toChunk

/-- `while (blocksz)`. -/
def runBlock (buffers : Buffers) (chunk : Chunk) : Except Stop Chunk :=
  whileLoop (.fault .outOfTurns) (fun chunk => decide (chunk.blocksz ≠ 0)) (runMask buffers)
    (chunk.blocksz + 1) chunk

/-- An uncompressed chunk, behind its header. -/
def rawChunk (buffers : Buffers) (decoder : Decoder) : Except Stop Decoder := do
  let blocksz := 4096
  if decoder.uncompressedBufferSize < blocksz then throw (.returned .badCompressionBuffer)
  if decoder.compressedBufferSize < blocksz then throw (.returned .badCompressionBuffer)
  let decoder ← memcpy buffers blocksz decoder
  let uncompressedBufferSize ← lower decoder.uncompressedBufferSize blocksz
  let compressedBufferSize ← lower decoder.compressedBufferSize blocksz
  pure { decoder with
    c := decoder.c + blocksz, uncompressedBufferSize, compressedBufferSize }

/-- The body of the outer loop: one chunk, from its header on. -/
def runChunk (buffers : Buffers) (decoder : Decoder) : Except Stop Decoder := do
  if decoder.compressedBufferSize < 2 then throw (.returned .invalidParameter)
  let blocksz ← loadWord buffers decoder.c
  let compressedBufferSize ← lower decoder.compressedBufferSize 2
  let decoder := { decoder with c := decoder.c + 2, compressedBufferSize }
  if blocksz &&& 0x8000 = 0 then rawChunk buffers decoder
  else
    let chunk ← runBlock buffers
      { toDecoder := decoder, blocksz := (blocksz &&& 0xfff) + 1, blockpos := 0 }
    pure chunk.toDecoder

/-- The condition of `while (CompressedBufferSize)`. -/
def hasInput (decoder : Decoder) : Bool := decide (decoder.compressedBufferSize ≠ 0)

/-- `while (CompressedBufferSize)`. -/
def runStream (buffers : Buffers) (decoder : Decoder) : Except Stop Decoder :=
  whileLoop (.fault .outOfTurns) hasInput (runChunk buffers) (decoder.compressedBufferSize + 1)
    decoder

/-! ### The calls -/

/-- What a call leaves: the value of `*FinalUncompressedSize`, unset where the call returned
before writing it, and on success the final state of the decoder. -/
inductive Result where
  | success (finalUncompressedSize : Nat) (decoder : Decoder)
  | failure (status : NtStatus) (finalUncompressedSize : Option Nat)
  | fault (fault : Fault)
  deriving DecidableEq

/-- The status a call returns. -/
def Result.status : Result → Option NtStatus
  | .success _ _ => some .success
  | .failure status _ => some status
  | .fault _ => none

/-- The state at the first test of the outer loop. -/
def start (buffers : Buffers) : Decoder where
  c := 0
  compressedBufferSize := buffers.compressedBuffer.length
  stored := []
  uncompressedBufferSize := buffers.capacity

/-- `RtlDecompressBufferLZNT1`. A pointer that may be NULL is an option: the output buffer
is given by the memory around it, the compressed buffer by its `CompressedBufferSize` bytes,
and of `FinalUncompressedSize` only whether it is NULL is read. -/
def rtlDecompressBufferLZNT1 (uncompressedBuffer : Option (Int → Option UInt8))
    (uncompressedBufferSize : Nat) (compressedBuffer : Option (List UInt8))
    (finalUncompressedSize : Option Unit) : Result :=
  match uncompressedBuffer, compressedBuffer, finalUncompressedSize with
  | some outside, some bytes, some _ =>
    if bytes.length = 0 then .failure .accessViolation none
    else
      let buffers := { compressedBuffer := bytes, capacity := uncompressedBufferSize, outside }
      match runStream buffers (start buffers) with
      | .ok decoder =>
        .success (uncompressedBufferSize - decoder.uncompressedBufferSize) decoder
      | .error (.returned status) => .failure status (some uncompressedBufferSize)
      | .error (.fault fault) => .fault fault
  | _, _, _ => .failure .accessViolation none

/-- `COMPRESSION_FORMAT_LZNT1`. -/
def compressionFormatLZNT1 : Nat := 2

/-- `RtlDecompressBuffer`. -/
def rtlDecompressBuffer (compressionFormat : Nat)
    (uncompressedBuffer : Option (Int → Option UInt8)) (uncompressedBufferSize : Nat)
    (compressedBuffer : Option (List UInt8)) (finalUncompressedSize : Option Unit) : Result :=
  if compressionFormat ≠ compressionFormatLZNT1 then .failure .invalidParameter none
  else
    rtlDecompressBufferLZNT1 uncompressedBuffer uncompressedBufferSize compressedBuffer
      finalUncompressedSize

/-- The decoder on buffers that are there. -/
def decompress (outside : Int → Option UInt8) (capacity : Nat) (bytes : List UInt8) : Result :=
  rtlDecompressBufferLZNT1 (some outside) capacity (some bytes) (some ())

/-- The retry loop of `main`: as long as the decoder reports
`STATUS_BAD_COMPRESSION_BUFFER`, double the 32-bit `outsize` and reallocate. `allocate` is
the allocator: the memory around a buffer of the given size, or NULL. The loop has not
ended where this is `none`. -/
def retry (allocate : Nat → Option (Int → Option UInt8)) (inbuff : List UInt8) :
    Nat → Nat → Option Result
  | 0, _ => none
  | turns + 1, outsize =>
    let res := rtlDecompressBuffer compressionFormatLZNT1 (allocate outsize) outsize
      (some inbuff) (some ())
    if res.status = some .badCompressionBuffer then
      retry allocate inbuff turns ((outsize * 2) % 2 ^ 32)
    else some res

/-- `main`, from the file it has read to the end of its retry loop. -/
def main (allocate : Nat → Option (Int → Option UInt8)) (inbuff : List UInt8) (turns : Nat) :
    Option Result :=
  retry allocate inbuff turns ((inbuff.length * 2) % 2 ^ 32)

end Nloader.Lznt1
