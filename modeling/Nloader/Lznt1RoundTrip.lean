/-
This file proves that the decoder undoes the encoding of LZNT1. The encoder is stated from
the format: tokens in groups of eight behind a flag byte, a back-reference as a 16-bit word
whose two fields share their bits according to the position in the chunk, a compressed
chunk behind the header `0xB000 | (size - 1)`, an uncompressed chunk of 4096 bytes behind
any header with bit 15 clear. Scanning an encoded stream gives the tokens back, and the
decoder expands them.
-/

import Nloader.Lznt1Safety

namespace Nloader.Lznt1

/-! ### The encoder -/

/-- A token that the format can express at a position of a chunk. -/
def Encodable (position : Nat) : Lz77.Token UInt8 → Prop
  | .literal _ => True
  | .reference displacement length =>
    (1 ≤ displacement ∧ displacement ≤ position ∧
      displacement - 1 < 2 ^ displacementBits position) ∧
    3 ≤ length ∧ length - 3 < 2 ^ lengthBits position

/-- A token sequence that the format can express from a position of a chunk on. -/
def EncodableFrom : Nat → List (Lz77.Token UInt8) → Prop
  | _, [] => True
  | position, token :: tokens =>
    Encodable position token ∧ EncodableFrom (position + token.length) tokens

/-- A 16-bit word, low byte first. -/
def wordBytes (word : Nat) : List UInt8 := [UInt8.ofNat word, UInt8.ofNat (word / 256)]

/-- The word of a back-reference: the displacement in the upper bits, the length below. -/
def referenceWord (position displacement length : Nat) : Nat :=
  (displacement - 1) * 2 ^ lengthBits position + (length - 3)

/-- The bytes of one token. -/
def tokenBytes (position : Nat) : Lz77.Token UInt8 → List UInt8
  | .literal byte => [byte]
  | .reference displacement length =>
    wordBytes (referenceWord position displacement length)

/-- The bytes of the tokens of one group. -/
def itemBytes : Nat → List (Lz77.Token UInt8) → List UInt8
  | _, [] => []
  | position, token :: tokens =>
    tokenBytes position token ++ itemBytes (position + token.length) tokens

/-- The flags of the tokens of one group, the first token in the lowest bit. -/
def flagByte : List (Lz77.Token UInt8) → Nat
  | [] => 0
  | .literal _ :: tokens => 2 * flagByte tokens
  | .reference _ _ :: tokens => 2 * flagByte tokens + 1

/-- The bytes of a token sequence, in groups of eight behind their flags. -/
def groupBytes (position : Nat) (tokens : List (Lz77.Token UInt8)) : List UInt8 :=
  match tokens with
  | [] => []
  | token :: rest =>
    UInt8.ofNat (flagByte ((token :: rest).take 8)) ::
      (itemBytes position ((token :: rest).take 8) ++
        groupBytes (position + Lz77.totalLength ((token :: rest).take 8))
          ((token :: rest).drop 8))
  termination_by tokens.length

/-- A chunk of tokens that the format can express. -/
structure CompressedChunk where
  tokens : List (Lz77.Token UInt8)
  nonempty : tokens ≠ []
  encodable : EncodableFrom 0 tokens
  expands : Lz77.totalLength tokens ≤ 4096
  fits : (groupBytes 0 tokens).length ≤ 4096

/-- An uncompressed chunk, behind any header with bit 15 clear. -/
structure RawChunk where
  header : Nat
  raw : header < 0x8000
  bytes : List UInt8
  full : bytes.length = 4096

/-- A chunk of a stream. -/
inductive StreamChunk where
  | raw (chunk : RawChunk)
  | compressed (chunk : CompressedChunk)

/-- The encoding of a chunk. -/
def StreamChunk.encode : StreamChunk → List UInt8
  | .raw chunk => wordBytes chunk.header ++ chunk.bytes
  | .compressed chunk =>
    wordBytes (0xb000 ||| ((groupBytes 0 chunk.tokens).length - 1)) ++
      groupBytes 0 chunk.tokens

/-- The tokens of a chunk. -/
def StreamChunk.tokens : StreamChunk → List (Lz77.Token UInt8)
  | .raw chunk => chunk.bytes.map .literal
  | .compressed chunk => chunk.tokens

/-- The bytes a chunk expands to. -/
def StreamChunk.expansion : StreamChunk → List UInt8
  | .raw chunk => chunk.bytes
  | .compressed chunk => Lz77.expansion chunk.tokens []

/-- The encoding of a stream. -/
def encodeStream (chunks : List StreamChunk) : List UInt8 := chunks.flatMap StreamChunk.encode

/-- The bytes a stream expands to. -/
def expandStream (chunks : List StreamChunk) : List UInt8 :=
  chunks.flatMap StreamChunk.expansion

/-! ### Scanning a group -/

theorem emit_nil (rest : List (Lz77.Token UInt8) × NtStatus) : emit [] rest = rest := rfl

theorem emit_emit (first second : List (Lz77.Token UInt8))
    (rest : List (Lz77.Token UInt8) × NtStatus) :
    emit first (emit second rest) = emit (first ++ second) rest := by
  unfold emit
  rw [List.append_assoc]

theorem wordBytes_word {word : Nat} (small : word < 2 ^ 16) :
    headerWord (UInt8.ofNat word) (UInt8.ofNat (word / 256)) = word := by
  unfold headerWord
  rw [UInt8.toNat_ofNat', UInt8.toNat_ofNat']
  omega

theorem displacementBits_le {position : Nat} (near : position ≤ 4096) :
    displacementBits position ≤ 12 := by
  have narrow : Nat.size (position - 1) ≤ 12 := Nat.size_le.mpr (by omega)
  unfold displacementBits
  omega

/-- The fields of a back-reference fill 16 bits and are read back. -/
theorem referenceWord_fields {position displacement length : Nat} (near : position ≤ 4096)
    (encodable : Encodable position (.reference displacement length)) :
    referenceWord position displacement length < 2 ^ 16 ∧
      referenceWord position displacement length / 2 ^ lengthBits position + 1 = displacement ∧
      referenceWord position displacement length % 2 ^ lengthBits position + 3 = length := by
  obtain ⟨⟨positive, _, back⟩, long, short⟩ := encodable
  have narrow := displacementBits_le near
  have sixteen : 2 ^ 16 = 2 ^ displacementBits position * 2 ^ lengthBits position := by
    rw [← pow_add]
    congr 1
    unfold lengthBits
    omega
  have field : 0 < 2 ^ lengthBits position := by positivity
  unfold referenceWord
  refine ⟨?_, ?_, ?_⟩
  · rw [sixteen]
    calc (displacement - 1) * 2 ^ lengthBits position + (length - 3)
        < (displacement - 1) * 2 ^ lengthBits position + 2 ^ lengthBits position := by omega
      _ = (displacement - 1 + 1) * 2 ^ lengthBits position := by ring
      _ ≤ 2 ^ displacementBits position * 2 ^ lengthBits position :=
        Nat.mul_le_mul_right _ (by omega)
  · rw [Nat.add_comm ((displacement - 1) * 2 ^ lengthBits position),
      Nat.add_mul_div_right _ _ field, Nat.div_eq_of_lt short]
    omega
  · rw [Nat.add_comm ((displacement - 1) * 2 ^ lengthBits position), Nat.add_mul_mod_self_right,
      Nat.mod_eq_of_lt short]
    omega

/-- The items of one group are scanned back to its tokens. -/
theorem scan_items (more : Nat) (rest : List UInt8) :
    ∀ {tokens : List (Lz77.Token UInt8)} {left position : Nat},
      EncodableFrom position tokens → position + Lz77.totalLength tokens ≤ 4096 →
      tokens.length ≤ left →
        scan (.after left (flagByte tokens) ((itemBytes position tokens).length + more) position)
            (itemBytes position tokens ++ rest) =
          emit tokens
            (scan (.after (left - tokens.length) 0 more (position + Lz77.totalLength tokens))
              rest) := by
  intro tokens
  induction tokens with
  | nil =>
    intro left position _ _ _
    simp only [itemBytes, flagByte, List.length_nil, Nat.zero_add, List.nil_append,
      Nat.sub_zero, Lz77.totalLength_nil, Nat.add_zero, emit_nil]
  | cons token tokens inductionHypothesis =>
    intro left position encodable near enough
    obtain ⟨first, others⟩ := encodable
    rw [Lz77.totalLength_cons] at near ⊢
    rw [List.length_cons] at enough ⊢
    have following := @inductionHypothesis (left - 1) _ others (by omega) (by omega)
    rw [show left - 1 - tokens.length = left - (tokens.length + 1) by omega,
      Nat.add_assoc position token.length] at following
    cases token with
    | literal byte =>
      have size : (itemBytes position (.literal byte :: tokens)).length + more =
          (itemBytes (position + 1) tokens).length + more + 1 := by
        simp only [itemBytes, tokenBytes, Lz77.Token.length, List.length_append,
          List.length_singleton]
        omega
      have bytes : itemBytes position (.literal byte :: tokens) ++ rest =
          byte :: (itemBytes (position + 1) tokens ++ rest) := rfl
      have half : 2 * flagByte tokens / 2 = flagByte tokens := by omega
      rw [size, bytes, flagByte, after_item _ _ (by omega) (Nat.succ_ne_zero _),
        (scan_item_clear (by omega) _ _ _).2, half]
      exact (congrArg (emit [.literal byte]) following).trans (emit_emit _ _ _)
    | reference displacement length =>
      obtain ⟨small, back, long⟩ := referenceWord_fields (by omega) first
      have size : (itemBytes position (.reference displacement length :: tokens)).length + more =
          (itemBytes (position + length) tokens).length + more + 2 := by
        simp only [itemBytes, tokenBytes, wordBytes, Lz77.Token.length, List.length_append,
          List.length_cons, List.length_nil]
        omega
      have bytes : itemBytes position (.reference displacement length :: tokens) ++ rest =
          UInt8.ofNat (referenceWord position displacement length) ::
            UInt8.ofNat (referenceWord position displacement length / 256) ::
              (itemBytes (position + length) tokens ++ rest) := rfl
      have half : (2 * flagByte tokens + 1) / 2 = flagByte tokens := by omega
      have inside : position ≠ 0 := by
        have positive := first.1.1
        have within := first.1.2.1
        omega
      have word := wordBytes_word small
      unfold headerWord at word
      rw [size, bytes, flagByte, after_item _ _ (by omega) (Nat.succ_ne_zero _),
        scan_item_set (by omega) _ (by omega) inside, word, back, long, half]
      exact (congrArg (emit [.reference displacement length]) following).trans (emit_emit _ _ _)

theorem flagByte_lt : ∀ tokens : List (Lz77.Token UInt8),
    flagByte tokens < 2 ^ tokens.length
  | [] => Nat.one_pos
  | .literal _ :: tokens => by
    have rest := flagByte_lt tokens
    rw [flagByte, List.length_cons, pow_succ]
    omega
  | .reference _ _ :: tokens => by
    have rest := flagByte_lt tokens
    rw [flagByte, List.length_cons, pow_succ]
    omega

theorem encodableFrom_append : ∀ {first second : List (Lz77.Token UInt8)} {position : Nat},
    EncodableFrom position (first ++ second) ↔
      EncodableFrom position first ∧
        EncodableFrom (position + Lz77.totalLength first) second := by
  intro first second
  induction first with
  | nil =>
    intro position
    rw [List.nil_append, Lz77.totalLength_nil, Nat.add_zero]
    exact (and_iff_right trivial).symm
  | cons token first inductionHypothesis =>
    intro position
    rw [List.cons_append, EncodableFrom, EncodableFrom, inductionHypothesis,
      Lz77.totalLength_cons, Nat.add_assoc, and_assoc]

/-! ### Scanning a chunk -/

/-- The groups of a chunk are scanned back to its tokens, and the scan arrives at the next
chunk header. -/
theorem scan_groups {rest : List UInt8} :
    ∀ (count : Nat) {tokens : List (Lz77.Token UInt8)} {position : Nat},
      tokens.length ≤ count → tokens ≠ [] → EncodableFrom position tokens →
      position + Lz77.totalLength tokens ≤ 4096 →
        scan (.flags (groupBytes position tokens).length position)
            (groupBytes position tokens ++ rest) =
          emit tokens (scan .header rest) := by
  intro count
  induction count with
  | zero =>
    intro tokens position short nonempty
    exact absurd (List.eq_nil_of_length_eq_zero (Nat.le_zero.mp short)) nonempty
  | succ count inductionHypothesis =>
    intro tokens position short nonempty encodable near
    obtain ⟨token, others, rfl⟩ := List.exists_cons_of_ne_nil nonempty
    generalize group : (token :: others).take 8 = first
    generalize later : (token :: others).drop 8 = second
    have parts : token :: others = first ++ second := by
      rw [← group, ← later, List.take_append_drop]
    have eight : first.length ≤ 8 := by
      rw [← group, List.length_take]
      omega
    have bytes : groupBytes position (token :: others) =
        UInt8.ofNat (flagByte first) ::
          (itemBytes position first ++
            groupBytes (position + Lz77.totalLength first) second) := by
      rw [groupBytes, group, later]
    rw [parts] at encodable near short
    rw [Lz77.totalLength_append] at near
    obtain ⟨encodableFirst, encodableSecond⟩ := encodableFrom_append.mp encodable
    have flags : (UInt8.ofNat (flagByte first)).toNat = flagByte first := by
      rw [UInt8.toNat_ofNat']
      refine Nat.mod_eq_of_lt (lt_of_lt_of_le (flagByte_lt first) ?_)
      exact Nat.pow_le_pow_right (by norm_num) eight
    have items := scan_items (groupBytes (position + Lz77.totalLength first) second).length
      (groupBytes (position + Lz77.totalLength first) second ++ rest) encodableFirst (by omega)
      eight
    rw [bytes, List.length_cons, List.cons_append, scan_flags_cons, flags, Nat.add_sub_cancel,
      List.length_append, List.append_assoc, items]
    rw [parts, ← emit_emit]
    refine congrArg (emit first) ?_
    cases second with
    | nil =>
      rw [groupBytes, List.length_nil, after_empty]
      rfl
    | cons next remaining =>
      have whole : first.length = 8 := by
        have total := congrArg List.length later
        rw [List.length_drop] at total
        rw [← group, List.length_take]
        simp only [List.length_cons] at total ⊢
        omega
      have some : (groupBytes (position + Lz77.totalLength first) (next :: remaining)).length ≠
          0 := by
        rw [groupBytes]
        exact Nat.succ_ne_zero _
      rw [whole, Nat.sub_self, after_zero, if_neg some]
      rw [List.length_append] at short
      exact inductionHypothesis (by omega) (List.cons_ne_nil _ _) encodableSecond (by omega)

/-- An encoded chunk is scanned back to its tokens. -/
theorem scan_encode (chunk : StreamChunk) (rest : List UInt8) :
    scan .header (chunk.encode ++ rest) = emit chunk.tokens (scan .header rest) := by
  cases chunk with
  | raw chunk =>
    have small : chunk.header < 2 ^ 16 := lt_trans chunk.raw (by norm_num)
    have word := wordBytes_word small
    unfold headerWord at word
    have bytes : StreamChunk.encode (.raw chunk) ++ rest =
        UInt8.ofNat chunk.header :: UInt8.ofNat (chunk.header / 256) ::
          (chunk.bytes ++ rest) := rfl
    have enough : ¬ (chunk.bytes ++ rest).length < 4096 := by
      rw [List.length_append, chunk.full]
      omega
    rw [bytes, scan_header_cons, word, if_pos chunk.raw, if_neg enough,
      List.take_left' chunk.full, List.drop_left' chunk.full]
    rfl
  | compressed chunk =>
    have size := chunk.fits
    have header : 0xb000 ||| ((groupBytes 0 chunk.tokens).length - 1) =
        0xb000 + ((groupBytes 0 chunk.tokens).length - 1) := by
      have low : (groupBytes 0 chunk.tokens).length - 1 < 2 ^ 12 := by omega
      exact (Nat.two_pow_add_eq_or_of_lt low 11).symm
    have nonempty : 0 < (groupBytes 0 chunk.tokens).length := by
      obtain ⟨token, others, split⟩ := List.exists_cons_of_ne_nil chunk.nonempty
      rw [split, groupBytes]
      exact Nat.succ_pos _
    have word := wordBytes_word
      (show 0xb000 + ((groupBytes 0 chunk.tokens).length - 1) < 2 ^ 16 by omega)
    unfold headerWord at word
    have bytes : StreamChunk.encode (.compressed chunk) ++ rest =
        UInt8.ofNat (0xb000 + ((groupBytes 0 chunk.tokens).length - 1)) ::
          UInt8.ofNat ((0xb000 + ((groupBytes 0 chunk.tokens).length - 1)) / 256) ::
            (groupBytes 0 chunk.tokens ++ rest) := by
      rw [← header]
      rfl
    rw [bytes, scan_header_cons, word, if_neg (by omega),
      show (0xb000 + ((groupBytes 0 chunk.tokens).length - 1)) % 4096 + 1 =
        (groupBytes 0 chunk.tokens).length by omega]
    exact scan_groups _ le_rfl chunk.nonempty chunk.encodable (by have := chunk.expands; omega)

/-! ### Streams -/

/-- An encoded stream is scanned back to the tokens of its chunks. -/
theorem scan_encodeStream (chunks : List StreamChunk) :
    scan .header (encodeStream chunks) = (chunks.flatMap StreamChunk.tokens, .success) := by
  induction chunks with
  | nil => exact scan_header_nil
  | cons chunk chunks inductionHypothesis =>
    unfold encodeStream at inductionHypothesis ⊢
    rw [List.flatMap_cons, scan_encode, inductionHypothesis]
    rfl

theorem within_of_encodableFrom : ∀ {tokens : List (Lz77.Token UInt8)} {position : Nat},
    EncodableFrom position tokens → Lz77.Within position tokens := by
  intro tokens
  induction tokens with
  | nil => intro position _; exact trivial
  | cons token tokens inductionHypothesis =>
    intro position encodable
    obtain ⟨first, others⟩ := encodable
    cases token with
    | literal byte => exact inductionHypothesis others
    | reference displacement length =>
      exact ⟨⟨first.1.1, first.1.2.1⟩, inductionHypothesis others⟩

/-- The tokens of a chunk expand to its bytes without reading outside them. -/
theorem expand_chunk (chunk : StreamChunk) :
    ∃ capacity, Lz77.expand Lz77.nowhere capacity chunk.tokens [] = .ok chunk.expansion := by
  cases chunk with
  | raw chunk =>
    exact ⟨chunk.bytes.length, Lz77.expand_literals (by simp)⟩
  | compressed chunk =>
    exact ⟨Lz77.totalLength chunk.tokens,
      Lz77.expand_eq_expansion (within_of_encodableFrom chunk.encodable)
        (le_of_eq (Nat.zero_add _))⟩

theorem expand_stream (outside : Int → Option UInt8) (capacity : Nat) :
    ∀ (chunks : List StreamChunk) (stored : List UInt8),
      stored.length + (expandStream chunks).length ≤ capacity →
        Lz77.expand outside capacity (chunks.flatMap StreamChunk.tokens) stored =
          .ok (stored ++ expandStream chunks) := by
  intro chunks
  induction chunks with
  | nil =>
    intro stored _
    rw [expandStream, List.flatMap_nil, List.flatMap_nil, List.append_nil]
    rfl
  | cons chunk chunks inductionHypothesis =>
    intro stored room
    obtain ⟨own, first⟩ := expand_chunk chunk
    have total : expandStream (chunk :: chunks) = chunk.expansion ++ expandStream chunks := rfl
    rw [total, List.length_append] at room
    have placed := Lz77.expand_onto outside stored capacity first (by omega)
    rw [List.append_nil] at placed
    rw [List.flatMap_cons, Lz77.expand_append, placed, Outcome.ok_bind,
      inductionHypothesis (stored ++ chunk.expansion) (by rw [List.length_append]; omega),
      total, List.append_assoc]

theorem conclude_encodeStream (outside : Int → Option UInt8) {capacity : Nat}
    {chunks : List StreamChunk} (room : (expandStream chunks).length ≤ capacity) :
    conclude (callBuffers outside capacity (encodeStream chunks))
      (scan .header (encodeStream chunks)) [] = .ok (expandStream chunks) := by
  have expanded := expand_stream outside capacity chunks [] (by simpa using room)
  rw [List.nil_append] at expanded
  rw [scan_encodeStream]
  change ended .success (Lz77.expand outside capacity _ []) = _
  rw [expanded]
  rfl

theorem encodeStream_ne_nil {chunks : List StreamChunk} (nonempty : chunks ≠ []) :
    encodeStream chunks ≠ [] := by
  obtain ⟨chunk, others, rfl⟩ := List.exists_cons_of_ne_nil nonempty
  unfold encodeStream
  rw [List.flatMap_cons]
  cases chunk <;> exact nofun

/-- Decoding undoes encoding: on the encoding of any non-empty list of chunks, at any
capacity that holds its expansion, the decoder succeeds, stores exactly the byte-by-byte
expansion of the tokens and reports its length. -/
theorem decompress_encodeStream (outside : Int → Option UInt8) {capacity : Nat}
    {chunks : List StreamChunk} (nonempty : chunks ≠ [])
    (room : (expandStream chunks).length ≤ capacity) :
    ∃ decoder, decompress outside capacity (encodeStream chunks) =
        .success (expandStream chunks).length decoder ∧
      decoder.stored = expandStream chunks := by
  rw [decompress_eq _ _ (encodeStream_ne_nil nonempty), conclude_encodeStream outside room]
  exact ⟨_, rfl, rfl⟩

/-- A chunk of a literal and an overlapping back-reference. -/
def exampleChunk : CompressedChunk where
  tokens := [.literal 0x41, .reference 1 4]
  nonempty := List.cons_ne_nil _ _
  encodable := ⟨trivial, ⟨⟨by decide, by decide, by decide⟩, by decide, by decide⟩, trivial⟩
  expands := by decide
  fits := by simp [groupBytes, itemBytes, tokenBytes, wordBytes]

/-- Five bytes from one literal and a back-reference that repeats it. -/
theorem decompress_exampleChunk :
    ∃ decoder, decompress Lz77.nowhere 5 (encodeStream [.compressed exampleChunk]) =
        .success 5 decoder ∧ decoder.stored = [0x41, 0x41, 0x41, 0x41, 0x41] :=
  @decompress_encodeStream Lz77.nowhere 5 [.compressed exampleChunk] (List.cons_ne_nil _ _)
    (by decide)

/-- An empty list of chunks is an empty input, which the decoder refuses. -/
theorem decompress_encodeStream_nil :
    ¬ ∃ decoder, decompress Lz77.nowhere 0 (encodeStream []) =
        .success (expandStream []).length decoder ∧
      decoder.stored = expandStream [] := by
  rintro ⟨decoder, refused, _⟩
  cases refused

end Nloader.Lznt1
