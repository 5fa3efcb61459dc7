/-
This file states what a whole call of the LZNT1 decoder amounts to, and draws the two
safety results from it. The unchecked steps of the source never go wrong: the decoder ends,
stays inside both buffers and lets no counter go below zero, whatever the bytes and the
capacity. The one exception is the read `d[-back]`: nothing in the source compares the
displacement with what has been stored, and the call keeps to its own output exactly when
the tokens of the stream do.
-/

import Nloader.Lznt1Tokens

namespace Nloader.Lznt1

open Outcome

/-! ### A whole call -/

/-- The buffers of a call. -/
def callBuffers (outside : Int → Option UInt8) (capacity : Nat) (bytes : List UInt8) :
    Buffers where
  compressedBuffer := bytes
  capacity
  outside

/-- The result a token stream stands for. -/
def resultOf (capacity : Nat) (bytes : List UInt8) : Except Stop (List UInt8) → Result
  | .ok stored =>
    .success stored.length
      { c := bytes.length
        compressedBufferSize := 0
        stored
        uncompressedBufferSize := capacity - stored.length }
  | .error (.returned status) => .failure status (some capacity)
  | .error (.fault fault) => .fault fault

theorem start_sound (buffers : Buffers) : Sound buffers (start buffers) :=
  ⟨Nat.zero_add _, Nat.zero_add _⟩

/-- A call computes the expansion of its token stream. -/
theorem decompress_eq (outside : Int → Option UInt8) (capacity : Nat) {bytes : List UInt8}
    (nonempty : bytes ≠ []) :
    decompress outside capacity bytes =
      resultOf capacity bytes
        (conclude (callBuffers outside capacity bytes) (scan .header bytes) []) := by
  have length : bytes.length ≠ 0 := fun empty => nonempty (List.eq_nil_of_length_eq_zero empty)
  have run := runStream_holds (start_sound (callBuffers outside capacity bytes))
  unfold decompress rtlDecompressBufferLZNT1
  simp only [length, if_false]
  change Holds _ (fun stop => conclude (callBuffers outside capacity bytes)
    (scan .header bytes) [] = .error stop) _ at run
  rw [← callBuffers]
  cases ran : runStream (callBuffers outside capacity bytes)
      (start (callBuffers outside capacity bytes)) with
  | error stop =>
    rw [run.of_error ran]
    cases stop <;> rfl
  | ok decoder =>
    obtain ⟨empty, sound, same⟩ := run.of_ok ran
    change conclude (callBuffers outside capacity bytes) (scan .header bytes) [] = _ at same
    have input := sound.input
    have output := sound.output
    change _ = bytes.length at input
    change _ = capacity at output
    rw [same]
    obtain ⟨c, compressedBufferSize, stored, uncompressedBufferSize⟩ := decoder
    simp only at empty input output
    simp only [resultOf, Result.success.injEq, Decoder.mk.injEq]
    exact ⟨by omega, by omega, empty, trivial, by omega⟩

/-- A stream that is stopped by a status is not stopped by success. -/
theorem conclude_ne_success (buffers : Buffers)
    (scanned : List (Lz77.Token UInt8) × NtStatus) (stored : List UInt8) :
    conclude buffers scanned stored ≠ .error (.returned .success) := by
  obtain ⟨tokens, status⟩ := scanned
  intro stopped
  unfold conclude at stopped
  cases expanded : Lz77.expand buffers.outside buffers.capacity tokens stored with
  | ok final =>
    rw [expanded, ended] at stopped
    split at stopped
    · cases stopped
    · rename_i failed
      cases stopped
      exact failed rfl
  | error overrun =>
    rw [expanded] at stopped
    cases overrun <;> cases stopped

/-- A call that succeeds runs its outer loop to the end. -/
theorem runStream_of_success {outside : Int → Option UInt8} {capacity : Nat}
    {bytes : List UInt8}
    (success : (decompress outside capacity bytes).status = some .success) :
    ∃ final, runStream (callBuffers outside capacity bytes)
      (start (callBuffers outside capacity bytes)) = .ok final := by
  have nonempty : bytes ≠ [] := by
    rintro rfl
    exact absurd success (by simp [decompress, rtlDecompressBufferLZNT1, Result.status])
  rw [decompress_eq _ _ nonempty] at success
  have run := runStream_holds (start_sound (callBuffers outside capacity bytes))
  cases ran : runStream (callBuffers outside capacity bytes)
      (start (callBuffers outside capacity bytes)) with
  | ok final => exact ⟨final, rfl⟩
  | error stop =>
    have stopped := run.of_error ran
    change conclude (callBuffers outside capacity bytes) (scan .header bytes) [] = _ at stopped
    rw [stopped] at success
    cases stop with
    | returned status =>
      change some status = some NtStatus.success at success
      rw [Option.some.inj success] at stopped
      exact absurd stopped (conclude_ne_success _ _ _)
    | fault fault => cases success

theorem decompress_nil (outside : Int → Option UInt8) (capacity : Nat) :
    decompress outside capacity [] = .failure .accessViolation none := rfl

/-! ### The decoder stays inside its buffers -/

/-- A token stream is stopped only by a status or by a read of a place that holds nothing. -/
theorem conclude_fault {buffers : Buffers} {scanned : List (Lz77.Token UInt8) × NtStatus}
    {stored : List UInt8} {fault : Fault}
    (stopped : conclude buffers scanned stored = .error (.fault fault)) :
    fault = .readOutside ∧ ∃ place, buffers.outside place = none := by
  unfold conclude at stopped
  cases expanded : Lz77.expand buffers.outside buffers.capacity scanned.1 stored with
  | ok final =>
    rw [expanded, ended] at stopped
    split at stopped <;> cases stopped
  | error overrun =>
    rw [expanded] at stopped
    cases overrun with
    | full => cases stopped
    | unreadable =>
      cases stopped
      exact ⟨rfl, Lz77.expand_unreadable expanded⟩

/-- Every call ends. It reads the compressed buffer below `CompressedBufferSize` and stores
below `UncompressedBufferSize` only, and no counter goes below zero: the one fault left is a
read of `d[-back]` at an address that is not mapped. On success the whole input is consumed
and `*FinalUncompressedSize` is the number of bytes stored. -/
theorem decompress_safe (outside : Int → Option UInt8) (capacity : Nat) (bytes : List UInt8) :
    (∀ fault, decompress outside capacity bytes = .fault fault →
      fault = .readOutside ∧ ∃ place, outside place = none) ∧
    ∀ finalUncompressedSize decoder,
      decompress outside capacity bytes = .success finalUncompressedSize decoder →
        decoder.c = bytes.length ∧ decoder.compressedBufferSize = 0 ∧
          decoder.stored.length ≤ capacity ∧
          finalUncompressedSize = decoder.stored.length := by
  by_cases nonempty : bytes = []
  · subst nonempty
    rw [decompress_nil]
    exact ⟨nofun, nofun⟩
  · rw [decompress_eq outside capacity nonempty]
    cases concluded : conclude (callBuffers outside capacity bytes) (scan .header bytes) [] with
    | error stop =>
      cases stop with
      | returned status => exact ⟨nofun, nofun⟩
      | fault fault =>
        refine ⟨?_, nofun⟩
        rintro other same
        cases same
        exact conclude_fault concluded
    | ok stored =>
      refine ⟨nofun, ?_⟩
      rintro final decoder same
      cases same
      refine ⟨rfl, rfl, ?_, rfl⟩
      unfold conclude at concluded
      cases expanded : Lz77.expand outside capacity (scan .header bytes).1 [] with
      | error overrun =>
        change ended _ (Lz77.expand outside capacity (scan .header bytes).1 []) = _ at concluded
        rw [expanded] at concluded
        cases overrun <;> cases concluded
      | ok final =>
        change ended _ (Lz77.expand outside capacity (scan .header bytes).1 []) = _ at concluded
        rw [expanded, ended] at concluded
        split at concluded
        · cases concluded
          exact Lz77.expand_le_capacity (Nat.zero_le _) expanded
        · cases concluded

/-! ### The reads of a back-reference -/

/-- Every back-reference of a stream reaches back by at least one byte and copies at least
one. -/
theorem scan_positive (mode : Mode) (bytes : List UInt8) :
    ∀ displacement length,
      Lz77.Token.reference displacement length ∈ (scan mode bytes).1 →
        0 < displacement ∧ 0 < length := by
  fun_induction scan mode bytes with
  | case4 low high bytes raw enough inductionHypothesis =>
    intro displacement length member
    rcases List.mem_append.mp member with literals | rest
    · obtain ⟨byte, _, same⟩ := List.mem_map.mp literals
      cases same
    · exact inductionHypothesis displacement length rest
  | case9 left mask size position set low high bytes accepted word back len
      inductionHypothesis =>
    intro displacement length member
    rcases List.mem_append.mp member with token | rest
    · cases List.mem_singleton.mp token
      exact ⟨Nat.succ_pos _, Nat.succ_pos _⟩
    · exact inductionHypothesis displacement length rest
  | case11 left mask size position clear byte bytes inductionHypothesis =>
    intro displacement length member
    rcases List.mem_append.mp member with token | rest
    · cases List.mem_singleton.mp token
    · exact inductionHypothesis displacement length rest
  | case5 low high bytes compressed inductionHypothesis => exact inductionHypothesis
  | case7 size position mask bytes inductionHypothesis => exact inductionHypothesis
  | _ => intro displacement length member; cases member

/-- The law for back-references: a call copies from bytes it has stored itself, so that it
runs the same with nothing readable around them, and a token of the stream that reaches
further back than what precedes it makes the call return `STATUS_BAD_COMPRESSION_BUFFER`. -/
def CopiesOwnOutput (capacity : Nat) (bytes : List UInt8) : Prop :=
  decompress Lz77.nowhere capacity bytes ≠ .fault .readOutside ∧
  ∀ before displacement length after,
    tokens bytes = before ++ .reference displacement length :: after →
    Lz77.totalLength before < displacement →
      ∀ outside, (decompress outside capacity bytes).status = some .badCompressionBuffer

/-- A stream whose fitting tokens do not overreach runs out of room before a token that
does. -/
theorem expand_full_of_overreach {capacity : Nat} {bytes : List UInt8}
    (kept : ¬ Lz77.Overreaches capacity 0 (tokens bytes)) {before after displacement length}
    (split : tokens bytes = before ++ .reference displacement length :: after)
    (beyond : Lz77.totalLength before < displacement) (outside : Int → Option UInt8) :
    Lz77.expand outside capacity (tokens bytes) [] = .error .full := by
  have readable : Lz77.expand Lz77.nowhere capacity (tokens bytes) [] ≠ .error .unreadable :=
    fun stopped => kept ((Lz77.expand_unreadable_iff (scan_positive .header bytes)).mp stopped)
  rw [Lz77.expand_anywhere readable]
  cases expanded : Lz77.expand Lz77.nowhere capacity (tokens bytes) [] with
  | error overrun =>
    cases overrun with
    | full => rfl
    | unreadable => exact absurd expanded readable
  | ok final =>
    have total := Lz77.expand_length expanded
    have room := Lz77.expand_le_capacity (Nat.zero_le capacity) expanded
    rw [split, Lz77.totalLength_append, Lz77.totalLength_cons] at total
    change _ = 0 + (_ + (length + _)) at total
    refine absurd ⟨before, displacement, length, after, split, ?_, ?_⟩ kept <;> omega

/-- The decoder keeps to its own output exactly when no back-reference that still fits the
capacity reaches further back than the total length of the tokens before it. -/
theorem copiesOwnOutput_iff (capacity : Nat) (bytes : List UInt8) :
    CopiesOwnOutput capacity bytes ↔
      ∀ before displacement length after,
        tokens bytes = before ++ .reference displacement length :: after →
        Lz77.totalLength before + length ≤ capacity →
          displacement ≤ Lz77.totalLength before := by
  have overreach : (∀ before displacement length after,
      tokens bytes = before ++ .reference displacement length :: after →
      Lz77.totalLength before + length ≤ capacity →
        displacement ≤ Lz77.totalLength before) ↔
      ¬ Lz77.Overreaches capacity 0 (tokens bytes) := by
    constructor
    · rintro within ⟨before, displacement, length, after, split, fits, beyond⟩
      have reach := within before displacement length after split (by omega)
      omega
    · intro kept before displacement length after split fits
      by_contra beyond
      exact kept ⟨before, displacement, length, after, split, by omega, by omega⟩
  rw [overreach]
  by_cases nonempty : bytes = []
  · subst nonempty
    have empty : tokens [] = [] := by rw [tokens, scan_header_nil]
    rw [empty]
    refine iff_of_true ⟨by rw [decompress_nil]; exact nofun, ?_⟩ (Lz77.not_overreaches_nil _ _)
    intro before displacement length after split
    rw [empty] at split
    exact absurd split (by simp)
  · constructor
    · rintro ⟨own, _⟩ beyond
      apply own
      have unreadable : Lz77.expand Lz77.nowhere capacity (tokens bytes) [] =
          .error .unreadable :=
        (Lz77.expand_unreadable_iff (scan_positive .header bytes)).mpr beyond
      rw [decompress_eq _ _ nonempty]
      change resultOf capacity bytes (ended _ (Lz77.expand Lz77.nowhere capacity (tokens bytes)
        [])) = _
      rw [unreadable]
      rfl
    · intro kept
      constructor
      · rw [decompress_eq _ _ nonempty]
        intro stopped
        apply kept
        refine (@Lz77.expand_unreadable_iff _ _ _ [] (scan_positive .header bytes)).mp ?_
        change resultOf capacity bytes (ended (scan .header bytes).2
          (Lz77.expand Lz77.nowhere capacity (scan .header bytes).1 [])) = _ at stopped
        cases expanded : Lz77.expand Lz77.nowhere capacity (scan .header bytes).1 [] with
        | ok final =>
          rw [expanded, ended] at stopped
          split at stopped <;> cases stopped
        | error overrun =>
          rw [expanded] at stopped
          cases overrun with
          | full => cases stopped
          | unreadable => rfl
      · intro before displacement length after split beyond outside
        rw [decompress_eq _ _ nonempty]
        change (resultOf capacity bytes (ended _
          (Lz77.expand outside capacity (tokens bytes) []))).status = _
        rw [expand_full_of_overreach kept split beyond outside]
        rfl

/-- One literal, then a reference two bytes back: the decoder reads the byte in front of its
output buffer. -/
theorem not_copiesOwnOutput : ¬ CopiesOwnOutput 16 [0x03, 0xb0, 0x02, 0x41, 0x00, 0x10] := by
  rintro ⟨own, _⟩
  exact own (by decide)

end Nloader.Lznt1
