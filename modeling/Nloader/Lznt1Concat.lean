/-
This file relates calls of the LZNT1 decoder on a stream, on a stream put in front of
another one, and at different capacities. A stream that decodes without reading in front of
its own output is a token sequence that ends well, and such sequences are put one behind
the other; running out of room always reports `STATUS_BAD_COMPRESSION_BUFFER`. The retry
loop of `main` doubles a 32-bit size, so that it arrives at the output of a stream exactly
when one of the sizes it goes through, reduced modulo `2 ^ 32`, holds that output.
-/

import Nloader.Lznt1RoundTrip

namespace Nloader.Lznt1

/-! ### Streams one behind the other -/

/-- A byte string that the decoder turns into `output` at some capacity, reading nothing in
front of its own output. -/
def DecodesTo (bytes output : List UInt8) : Prop :=
  ∃ capacity final decoder,
    decompress Lz77.nowhere capacity bytes = .success final decoder ∧ decoder.stored = output

/-- Such a byte string is not empty, and its scan ends well with tokens for the output. -/
theorem DecodesTo.expands {bytes output : List UInt8} (decodes : DecodesTo bytes output) :
    bytes ≠ [] ∧ (scan .header bytes).2 = .success ∧
      ∃ capacity, Lz77.expand Lz77.nowhere capacity (scan .header bytes).1 [] = .ok output := by
  obtain ⟨capacity, final, decoder, success, rfl⟩ := decodes
  have nonempty : bytes ≠ [] := by
    rintro rfl
    cases success
  rw [decompress_eq _ _ nonempty] at success
  change resultOf capacity bytes (ended (scan .header bytes).2
    (Lz77.expand Lz77.nowhere capacity (scan .header bytes).1 [])) = _ at success
  cases expanded : Lz77.expand Lz77.nowhere capacity (scan .header bytes).1 [] with
  | error overrun =>
    rw [expanded] at success
    cases overrun <;> cases success
  | ok stored =>
    rw [expanded, ended] at success
    split at success
    · rename_i ending
      cases success
      exact ⟨nonempty, ending, capacity, expanded⟩
    · cases success

theorem DecodesTo.of_expands {bytes output : List UInt8} {capacity : Nat}
    (nonempty : bytes ≠ []) (ending : (scan .header bytes).2 = .success)
    (expanded : Lz77.expand Lz77.nowhere capacity (scan .header bytes).1 [] = .ok output) :
    DecodesTo bytes output := by
  have success : decompress Lz77.nowhere capacity bytes =
      resultOf capacity bytes (.ok output) := by
    rw [decompress_eq _ _ nonempty]
    change resultOf capacity bytes (ended (scan .header bytes).2
      (Lz77.expand Lz77.nowhere capacity (scan .header bytes).1 [])) = _
    rw [expanded, ending]
    rfl
  exact ⟨capacity, _, _, success, rfl⟩

/-- A scan that ends well goes on behind its bytes at a chunk header. -/
theorem scan_append (mode : Mode) (first second : List UInt8) :
    (scan mode first).2 = .success →
      scan mode (first ++ second) = emit (scan mode first).1 (scan .header second) := by
  fun_induction scan mode first with
  | case1 => exact fun _ => rfl
  | case4 low high bytes raw enough inductionHypothesis =>
    intro ending
    rw [List.cons_append, List.cons_append, scan_header_cons, if_pos raw,
      if_neg (by rw [List.length_append]; omega), List.take_append_of_le_length (by omega),
      List.drop_append_of_le_length (by omega), inductionHypothesis ending, emit_emit]
    rfl
  | case5 low high bytes compressed inductionHypothesis =>
    intro ending
    rw [List.cons_append, List.cons_append, scan_header_cons, if_neg compressed,
      inductionHypothesis ending]
  | case7 size position mask bytes inductionHypothesis =>
    intro ending
    rw [List.cons_append, scan_flags_cons, inductionHypothesis ending]
  | case9 left mask size position set low high bytes accepted word displacement length
      inductionHypothesis =>
    intro ending
    rw [List.cons_append, List.cons_append,
      scan_item_set set left (by omega) (by omega) low high, inductionHypothesis ending,
      emit_emit]
    rfl
  | case11 left mask size position clear byte bytes inductionHypothesis =>
    intro ending
    rw [List.cons_append, (scan_item_clear (by omega) left size position).2,
      inductionHypothesis ending, emit_emit]
    rfl
  | _ => exact fun ending => by cases ending

/-- Streams that decode are put one behind the other. -/
theorem DecodesTo.append {first second output following : List UInt8}
    (decodes : DecodesTo first output) (decodes' : DecodesTo second following) :
    DecodesTo (first ++ second) (output ++ following) := by
  obtain ⟨nonempty, ending, capacity, expanded⟩ := decodes.expands
  obtain ⟨_, ending', capacity', expanded'⟩ := decodes'.expands
  have scanned := scan_append .header first second ending
  have head := Lz77.expand_onto Lz77.nowhere [] (output.length + following.length) expanded
    (by simp)
  have tail := Lz77.expand_onto Lz77.nowhere output (output.length + following.length) expanded'
    le_rfl
  rw [List.append_nil] at tail
  have whole : Lz77.expand Lz77.nowhere (output.length + following.length)
      (scan .header (first ++ second)).1 [] = .ok (output ++ following) := by
    rw [scanned, emit, Lz77.expand_append]
    exact (congrArg (· >>= _) head).trans tail
  exact .of_expands (fun empty => nonempty (List.append_eq_nil_iff.mp empty).1)
    (by rw [scanned]; exact ending') whole

/-- A stream decodes the same at every capacity that holds its output, whatever lies around
the output buffer. -/
theorem DecodesTo.decompress_success {bytes output : List UInt8}
    (decodes : DecodesTo bytes output) (outside : Int → Option UInt8) {capacity : Nat}
    (room : output.length ≤ capacity) :
    ∃ decoder, decompress outside capacity bytes = .success output.length decoder ∧
      decoder.stored = output := by
  obtain ⟨nonempty, ending, capacity', expanded⟩ := decodes.expands
  have again := Lz77.expand_onto outside [] capacity expanded
    (by simpa using room)
  rw [List.nil_append, List.nil_append] at again
  have success : decompress outside capacity bytes = resultOf capacity bytes (.ok output) := by
    rw [decompress_eq _ _ nonempty]
    change resultOf capacity bytes (ended (scan .header bytes).2
      (Lz77.expand outside capacity (scan .header bytes).1 [])) = _
    rw [again, ending]
    rfl
  exact ⟨_, success, rfl⟩

/-- At every smaller capacity a stream runs out of room. -/
theorem DecodesTo.decompress_full {bytes output : List UInt8}
    (decodes : DecodesTo bytes output) (outside : Int → Option UInt8) {capacity : Nat}
    (short : capacity < output.length) :
    decompress outside capacity bytes = .failure .badCompressionBuffer (some capacity) := by
  obtain ⟨nonempty, ending, capacity', expanded⟩ := decodes.expands
  have again := Lz77.expand_onto_full outside [] capacity expanded
    (by simp) (by simpa using short)
  rw [List.nil_append] at again
  rw [decompress_eq _ _ nonempty]
  change resultOf capacity bytes (ended (scan .header bytes).2
    (Lz77.expand outside capacity (scan .header bytes).1 [])) = _
  rw [again]
  rfl

/-! ### The retry loop -/

/-- The size of the output buffer of `main` after some doublings. -/
def outsizeAfter (fsize doublings : Nat) : Nat := fsize * 2 ^ (doublings + 1) % 2 ^ 32

/-- An allocator that grants every size but possibly zero. -/
def Grants (allocate : Nat → Option (Int → Option UInt8)) : Prop :=
  ∀ size, size ≠ 0 → ∃ outside, allocate size = some outside

/-- The retry loop ends with the output of the stream, as long as memory is granted. -/
def RetryEnds (inbuff output : List UInt8) : Prop :=
  ∀ allocate, Grants allocate → ∃ turns decoder,
    main allocate inbuff turns = some (.success output.length decoder) ∧ decoder.stored = output

/-- Some size of the output buffer holds the output. -/
def SizeReached (fsize size : Nat) : Prop :=
  ∃ doublings, 0 < outsizeAfter fsize doublings ∧ size ≤ outsizeAfter fsize doublings

theorem rtlDecompressBuffer_lznt1 (outside : Int → Option UInt8) (capacity : Nat)
    (bytes : List UInt8) :
    rtlDecompressBuffer compressionFormatLZNT1 (some outside) capacity (some bytes) (some ()) =
      decompress outside capacity bytes := rfl

/-- One turn of the loop with a buffer that is too small. -/
theorem retry_full {allocate : Nat → Option (Int → Option UInt8)} {inbuff output : List UInt8}
    (decodes : DecodesTo inbuff output) {outside : Int → Option UInt8} {outsize : Nat}
    (granted : allocate outsize = some outside) (short : outsize < output.length) (turns : Nat) :
    retry allocate inbuff (turns + 1) outsize =
      retry allocate inbuff turns (outsize * 2 % 2 ^ 32) := by
  rw [retry, granted, rtlDecompressBuffer_lznt1, decodes.decompress_full outside short]
  rfl

theorem double_mod (outsize doublings : Nat) :
    outsize * 2 % 2 ^ 32 * 2 ^ doublings % 2 ^ 32 = outsize * 2 ^ (doublings + 1) % 2 ^ 32 := by
  rw [Nat.mod_mul_mod, Nat.mul_assoc, pow_succ' 2 doublings]

/-- The loop arrives at a size that holds the output. -/
theorem retry_reaches {allocate : Nat → Option (Int → Option UInt8)}
    {inbuff output : List UInt8} (grants : Grants allocate)
    (decodes : DecodesTo inbuff output) :
    ∀ (doublings outsize : Nat), outsize < 2 ^ 32 →
      0 < outsize * 2 ^ doublings % 2 ^ 32 →
      output.length ≤ outsize * 2 ^ doublings % 2 ^ 32 →
        ∃ turns decoder,
          retry allocate inbuff turns outsize = some (.success output.length decoder) ∧
            decoder.stored = output := by
  intro doublings
  induction doublings with
  | zero =>
    intro outsize bound positive room
    rw [pow_zero, Nat.mul_one, Nat.mod_eq_of_lt bound] at positive room
    obtain ⟨outside, granted⟩ := grants outsize (by omega)
    obtain ⟨decoder, success, stored⟩ := decodes.decompress_success outside room
    refine ⟨1, decoder, ?_, stored⟩
    rw [retry, granted, rtlDecompressBuffer_lznt1, success]
    rfl
  | succ doublings inductionHypothesis =>
    intro outsize bound positive room
    have nonzero : outsize ≠ 0 := by
      rintro rfl
      rw [Nat.zero_mul] at positive
      exact absurd positive (Nat.lt_irrefl 0)
    obtain ⟨outside, granted⟩ := grants outsize nonzero
    by_cases enough : output.length ≤ outsize
    · obtain ⟨decoder, success, stored⟩ := decodes.decompress_success outside enough
      refine ⟨1, decoder, ?_, stored⟩
      rw [retry, granted, rtlDecompressBuffer_lznt1, success]
      rfl
    · rw [← double_mod] at positive room
      obtain ⟨turns, decoder, success, stored⟩ := inductionHypothesis (outsize * 2 % 2 ^ 32)
        (Nat.mod_lt _ (by norm_num)) positive room
      exact ⟨turns + 1, decoder, by rw [retry_full decodes granted (by omega), success], stored⟩

/-- A loop that never has a size for the output never ends with success, when nothing is
granted for the size zero. -/
theorem retry_ne_success {inbuff output : List UInt8} (decodes : DecodesTo inbuff output)
    {final : Nat} {decoder : Decoder} :
    ∀ (turns outsize : Nat), outsize < 2 ^ 32 →
      (∀ doublings, 0 < outsize * 2 ^ doublings % 2 ^ 32 →
        outsize * 2 ^ doublings % 2 ^ 32 < output.length) →
        retry (fun size => if size = 0 then none else some Lz77.nowhere) inbuff turns outsize ≠
          some (.success final decoder) := by
  intro turns
  induction turns with
  | zero => intro outsize _ _; exact nofun
  | succ turns inductionHypothesis =>
    intro outsize bound short
    by_cases zero : outsize = 0
    · rw [retry, if_pos zero]
      exact nofun
    · have first := short 0
      rw [pow_zero, Nat.mul_one, Nat.mod_eq_of_lt bound] at first
      rw [retry_full decodes (if_neg zero) (first (by omega))]
      refine inductionHypothesis _ (Nat.mod_lt _ (by norm_num)) (fun doublings => ?_)
      rw [double_mod]
      exact short (doublings + 1)

/-- A loop that never has a size for the output, zero included, does not end when memory is
granted for the size zero as well. -/
theorem retry_eq_none {allocate : Nat → Option (Int → Option UInt8)}
    {inbuff output : List UInt8} (grants : ∀ size, ∃ outside, allocate size = some outside)
    (decodes : DecodesTo inbuff output) :
    ∀ (turns outsize : Nat), outsize < 2 ^ 32 →
      (∀ doublings, outsize * 2 ^ doublings % 2 ^ 32 < output.length) →
        retry allocate inbuff turns outsize = none := by
  intro turns
  induction turns with
  | zero => intro outsize _ _; rfl
  | succ turns inductionHypothesis =>
    intro outsize bound short
    obtain ⟨outside, granted⟩ := grants outsize
    have first := short 0
    rw [pow_zero, Nat.mul_one, Nat.mod_eq_of_lt bound] at first
    rw [retry_full decodes granted first]
    refine inductionHypothesis _ (Nat.mod_lt _ (by norm_num)) (fun doublings => ?_)
    rw [double_mod]
    exact short (doublings + 1)

/-- The retry loop ends with the output exactly when one of its sizes holds it. -/
theorem retryEnds_iff {inbuff output : List UInt8} (decodes : DecodesTo inbuff output) :
    RetryEnds inbuff output ↔ SizeReached inbuff.length output.length := by
  constructor
  · intro ends
    by_contra unreached
    obtain ⟨turns, decoder, success, _⟩ := ends
      (fun size => if size = 0 then none else some Lz77.nowhere)
      (fun size nonzero => ⟨_, if_neg nonzero⟩)
    refine retry_ne_success decodes turns _ (Nat.mod_lt _ (by norm_num)) ?_ success
    intro doublings positive
    rw [double_mod] at positive ⊢
    by_contra enough
    exact unreached ⟨doublings, positive, Nat.le_of_not_lt enough⟩
  · rintro ⟨doublings, positive, room⟩ allocate grants
    unfold outsizeAfter at positive room
    rw [← double_mod] at positive room
    exact retry_reaches grants decodes doublings _ (Nat.mod_lt _ (by norm_num)) positive room

/-! ### Concatenation -/

/-- The law of concatenation: two streams one behind the other decode to their outputs one
behind the other at every capacity that holds both, report
`STATUS_BAD_COMPRESSION_BUFFER` at every smaller one, and the retry loop ends on them. -/
def Concatenates (first second output following : List UInt8) : Prop :=
  (∀ outside capacity, output.length + following.length ≤ capacity →
    ∃ decoder, decompress outside capacity (first ++ second) =
        .success (output.length + following.length) decoder ∧
      decoder.stored = output ++ following) ∧
  (∀ outside capacity, capacity < output.length + following.length →
    (decompress outside capacity (first ++ second)).status = some .badCompressionBuffer) ∧
  RetryEnds (first ++ second) (output ++ following)

/-- Streams are concatenated exactly when a 32-bit doubling of twice the input size holds
the output, for the retry loop is the one part that may fail; it ends on a single stream
under the same condition. -/
theorem concatenates_iff {first second output following : List UInt8}
    (decodes : DecodesTo first output) (decodes' : DecodesTo second following) :
    (Concatenates first second output following ↔
      SizeReached (first.length + second.length) (output.length + following.length)) ∧
    (RetryEnds first output ↔ SizeReached first.length output.length) := by
  have whole := decodes.append decodes'
  have ends := retryEnds_iff whole
  rw [List.length_append, List.length_append] at ends
  refine ⟨⟨fun law => ends.mp law.2.2, fun reached => ⟨?_, ?_, ends.mpr reached⟩⟩,
    retryEnds_iff decodes⟩
  · intro outside capacity room
    rw [← List.length_append] at room ⊢
    exact whole.decompress_success outside room
  · intro outside capacity short
    rw [← List.length_append] at short
    rw [whole.decompress_full outside short]
    rfl

/-! ### Encoded streams -/

/-- Every encoded stream decodes to its expansion. -/
theorem decodesTo_encodeStream {chunks : List StreamChunk} (nonempty : chunks ≠ []) :
    DecodesTo (encodeStream chunks) (expandStream chunks) := by
  have expanded := expand_stream Lz77.nowhere (expandStream chunks).length chunks []
    (by simp)
  rw [List.nil_append] at expanded
  have scanned := scan_encodeStream chunks
  exact .of_expands (encodeStream_ne_nil nonempty) (by rw [scanned])
    (by rw [scanned]; exact expanded)

/-- A short stream behind itself: twelve bytes, at first 24 bytes of room, ten bytes out. -/
theorem concatenates_exampleChunk :
    Concatenates (encodeStream [.compressed exampleChunk]) (encodeStream [.compressed exampleChunk])
      (expandStream [.compressed exampleChunk]) (expandStream [.compressed exampleChunk]) := by
  have decodes : DecodesTo (encodeStream [.compressed exampleChunk])
      (expandStream [.compressed exampleChunk]) := decodesTo_encodeStream (List.cons_ne_nil _ _)
  have input : (encodeStream [.compressed exampleChunk]).length = 6 := by
    simp [encodeStream, StreamChunk.encode, exampleChunk, groupBytes, itemBytes, tokenBytes,
      wordBytes]
  have output : (expandStream [.compressed exampleChunk]).length = 5 := by decide
  refine (concatenates_iff decodes decodes).1.mpr ?_
  rw [input, output]
  exact ⟨0, by decide, by decide⟩

/-- A chunk of eight bytes for 4095. -/
def denseChunk : CompressedChunk where
  tokens := [.literal 0x41, .reference 1 3, .reference 1 4091]
  nonempty := List.cons_ne_nil _ _
  encodable := ⟨trivial, ⟨⟨by decide, by decide, by decide⟩, by decide, by decide⟩,
    ⟨⟨by decide, by decide, by decide⟩, by decide, by decide⟩, trivial⟩
  expands := by decide
  fits := by simp [groupBytes, itemBytes, tokenBytes, wordBytes]

/-- Many such chunks. -/
def denseChunks (count : Nat) : List StreamChunk := List.replicate count (.compressed denseChunk)

theorem encodeStream_denseChunks (count : Nat) :
    (encodeStream (denseChunks count)).length = 8 * count := by
  have size : (StreamChunk.encode (.compressed denseChunk)).length = 8 := by
    simp [StreamChunk.encode, denseChunk, groupBytes, itemBytes, tokenBytes, wordBytes]
  unfold encodeStream denseChunks
  rw [List.length_flatMap, List.map_replicate, List.sum_replicate, size, smul_eq_mul,
    Nat.mul_comm]

theorem expandStream_denseChunks (count : Nat) :
    (expandStream (denseChunks count)).length = 4095 * count := by
  have size : (StreamChunk.expansion (.compressed denseChunk)).length = 4095 := by
    obtain ⟨capacity, expanded⟩ := expand_chunk (.compressed denseChunk)
    rw [Lz77.expand_length expanded]
    rfl
  unfold expandStream denseChunks
  rw [List.length_flatMap, List.map_replicate, List.sum_replicate, size, smul_eq_mul,
    Nat.mul_comm]

/-- The doublings of `2 ^ 23` go through the powers of two up to `2 ^ 31` and then stay zero. -/
theorem outsizeAfter_le (doublings : Nat) : outsizeAfter (2 ^ 23) doublings ≤ 2 ^ 31 := by
  unfold outsizeAfter
  rw [← pow_add]
  by_cases small : 23 + (doublings + 1) ≤ 31
  · exact le_trans (Nat.mod_le _ _) (Nat.pow_le_pow_right (by norm_num) small)
  · rw [Nat.mod_eq_zero_of_dvd (Nat.pow_dvd_pow 2 (by omega))]
    exact Nat.zero_le _

/-- Two streams of four megabytes whose outputs of two gigabytes less half a megabyte are
together above `2 ^ 31`: both decode, but `outsize` wraps to zero before it holds the output
of the two one behind the other, and on an allocator that grants the size zero the retry
loop goes round for ever. -/
theorem not_concatenates :
    DecodesTo (encodeStream (denseChunks (2 ^ 19))) (expandStream (denseChunks (2 ^ 19))) ∧
    ¬ Concatenates (encodeStream (denseChunks (2 ^ 19))) (encodeStream (denseChunks (2 ^ 19)))
      (expandStream (denseChunks (2 ^ 19))) (expandStream (denseChunks (2 ^ 19))) ∧
    ∀ turns, main (fun _ => some Lz77.nowhere)
      (encodeStream (denseChunks (2 ^ 19)) ++ encodeStream (denseChunks (2 ^ 19))) turns =
        none := by
  have decodes : DecodesTo (encodeStream (denseChunks (2 ^ 19)))
      (expandStream (denseChunks (2 ^ 19))) := by
    refine decodesTo_encodeStream (fun empty => ?_)
    have count := congrArg List.length empty
    rw [denseChunks, List.length_replicate] at count
    exact absurd count (by norm_num)
  have whole := decodes.append decodes
  have input : (encodeStream (denseChunks (2 ^ 19)) ++
      encodeStream (denseChunks (2 ^ 19))).length = 2 ^ 23 := by
    rw [List.length_append, encodeStream_denseChunks]
    norm_num
  have output : (expandStream (denseChunks (2 ^ 19)) ++
      expandStream (denseChunks (2 ^ 19))).length = 4095 * 2 ^ 20 := by
    rw [List.length_append, expandStream_denseChunks]
    norm_num
  refine ⟨decodes, ?_, ?_⟩
  · intro law
    have reached := (retryEnds_iff whole).mp law.2.2
    rw [input, output] at reached
    obtain ⟨doublings, _, room⟩ := reached
    have limit := outsizeAfter_le doublings
    omega
  · intro turns
    refine retry_eq_none (fun _ => ⟨_, rfl⟩) whole turns _ (Nat.mod_lt _ (by norm_num)) ?_
    intro doublings
    rw [double_mod, input, output]
    have limit := outsizeAfter_le doublings
    unfold outsizeAfter at limit
    omega

end Nloader.Lznt1
