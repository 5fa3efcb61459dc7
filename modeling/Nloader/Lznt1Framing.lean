/-
This file is about the framing of LZNT1 chunks. A header announces `(h & 0xfff) + 1` data
bytes. The decoder follows it for a compressed chunk; an uncompressed chunk it takes to be
4096 bytes whatever its header says. So it walks a stream as the headers announce exactly
when every uncompressed chunk announces 4096 bytes.
-/

import Nloader.Lznt1Safety

namespace Nloader.Lznt1

open Outcome

/-! ### The law -/

/-- The data bytes a header announces. -/
def announced (word : Nat) : Nat := (word &&& 0xfff) + 1

/-- The states in which a call reads a chunk header. -/
def chunkStates (outside : Int → Option UInt8) (capacity : Nat) (bytes : List UInt8) :
    List Decoder :=
  whileHeads hasInput (runChunk (callBuffers outside capacity bytes)) (bytes.length + 1)
    (start (callBuffers outside capacity bytes))

/-- From one offset to the next over a header and the bytes it announces. -/
def Advances (bytes : List UInt8) (offset next : Nat) : Prop :=
  ∃ low high data, bytes.drop offset = low :: high :: data ∧
    next = offset + 2 + announced (headerWord low high)

/-- A state takes an uncompressed chunk of `size` bytes behind its header. -/
def TakesRaw (buffers : Buffers) (decoder : Decoder) (size : Nat) : Prop :=
  runChunk buffers decoder = .ok
    { c := decoder.c + 2 + size
      compressedBufferSize := decoder.compressedBufferSize - 2 - size
      stored := decoder.stored ++ (buffers.compressedBuffer.drop (decoder.c + 2)).take size
      uncompressedBufferSize := decoder.uncompressedBufferSize - size }

/-- The framing law: a call that succeeds moves from each header to the next, and from the
last one to the end of the input, over the bytes the header announces; and an uncompressed
chunk whose announced bytes are present and fit is accepted and copies exactly these. -/
structure FramedAsAnnounced (outside : Int → Option UInt8) (capacity : Nat)
    (bytes : List UInt8) : Prop where
  moves : (decompress outside capacity bytes).status = some .success →
    List.IsChain (Advances bytes)
      ((chunkStates outside capacity bytes).map Decoder.c ++ [bytes.length])
  accepts : ∀ decoder ∈ chunkStates outside capacity bytes, ∀ low high data,
    bytes.drop decoder.c = low :: high :: data → headerWord low high < 0x8000 →
    announced (headerWord low high) ≤ data.length →
    announced (headerWord low high) ≤ decoder.uncompressedBufferSize →
      TakesRaw (callBuffers outside capacity bytes) decoder (announced (headerWord low high))

/-- The header words of a stream, as the headers themselves announce their places. -/
def headers : List UInt8 → List Nat
  | low :: high :: data =>
    headerWord low high :: headers (data.drop (announced (headerWord low high)))
  | _ => []
  termination_by bytes => bytes.length

theorem announced_eq (word : Nat) : announced word = word % 4096 + 1 := header_size word

/-- The decoder moves over the announced bytes unless an uncompressed chunk announces fewer
than 4096. -/
theorem extent_eq_announced_iff (word : Nat) :
    extent word = announced word ↔ (word < 0x8000 → announced word = 4096) := by
  unfold extent
  split
  · rename_i raw
    exact ⟨fun same _ => same.symm, fun full => (full raw).symm⟩
  · rename_i compressed
    exact iff_of_true (announced_eq word).symm fun raw => absurd raw compressed

/-! ### The walk over the headers -/

variable {outside : Int → Option UInt8} {capacity : Nat} {bytes : List UInt8}

/-- The offsets of a walk from a state on, to the end of the input. -/
def offsets (buffers : Buffers) (fuel : Nat) (decoder : Decoder) : List Nat :=
  (whileHeads hasInput (runChunk buffers) fuel decoder).map Decoder.c ++
    [buffers.compressedBuffer.length]

theorem offsets_head {buffers : Buffers} {decoder : Decoder} (sound : Sound buffers decoder)
    (fuel : Nat) : (offsets buffers (fuel + 1) decoder).head? = some decoder.c := by
  have input := sound.input
  unfold offsets
  rw [whileHeads]
  by_cases going : hasInput decoder = true
  · rw [if_pos going]
    rfl
  · have empty : decoder.compressedBufferSize = 0 := by simpa [hasInput] using going
    rw [if_neg going, List.map_nil, List.nil_append, List.head?_cons, ← input, empty,
      Nat.add_zero]

/-- Along a walk that reaches the end, every move is the announced one exactly when every
uncompressed header on the way announces 4096 bytes. -/
theorem isChain_offsets_iff {buffers : Buffers} {stuck : Stop} :
    ∀ (fuel : Nat) (decoder final : Decoder), Sound buffers decoder →
      decoder.compressedBufferSize < fuel →
      whileLoop stuck hasInput (runChunk buffers) fuel decoder = .ok final →
        (List.IsChain (Advances buffers.compressedBuffer) (offsets buffers fuel decoder) ↔
          ∀ word ∈ headers (buffers.compressedBuffer.drop decoder.c),
            word < 0x8000 → announced word = 4096) := by
  intro fuel
  induction fuel with
  | zero => intro decoder final _ bound; exact absurd bound (Nat.not_lt_zero _)
  | succ fuel inductionHypothesis =>
    intro decoder final sound bound ran
    by_cases going : hasInput decoder = true
    · have nonempty : decoder.compressedBufferSize ≠ 0 := by simpa [hasInput] using going
      rw [whileLoop_next fuel going] at ran
      have step := runChunk_holds sound nonempty
      cases moved : runChunk buffers decoder with
      | error stop => rw [moved] at ran; cases ran
      | ok next =>
        rw [moved, ok_bind] at ran
        obtain ⟨⟨low, high, data, ahead, place⟩, sound', _⟩ := step.of_ok moved
        have positive : 0 < extent (headerWord low high) := by
          unfold extent
          split <;> omega
        have before := sound.input
        have after := sound'.input
        obtain ⟨rest, rfl⟩ : ∃ rest, fuel = rest + 1 := ⟨fuel - 1, by omega⟩
        have shape : offsets buffers (rest + 1 + 1) decoder =
            decoder.c :: offsets buffers (rest + 1) next := by
          unfold offsets
          rw [whileHeads, if_pos going, moved]
          rfl
        have link : List.IsChain (Advances buffers.compressedBuffer)
            (decoder.c :: offsets buffers (rest + 1) next) ↔
              Advances buffers.compressedBuffer decoder.c next.c ∧
                List.IsChain (Advances buffers.compressedBuffer)
                  (offsets buffers (rest + 1) next) := by
          obtain ⟨tail, split⟩ : ∃ tail, offsets buffers (rest + 1) next = next.c :: tail :=
            List.head?_eq_some_iff.mp (offsets_head sound' rest)
          rw [split, List.isChain_cons_cons]
        have advance : Advances buffers.compressedBuffer decoder.c next.c ↔
            extent (headerWord low high) = announced (headerWord low high) := by
          constructor
          · rintro ⟨low', high', data', ahead', place'⟩
            rw [ahead] at ahead'
            obtain ⟨rfl, tail⟩ := List.cons.inj ahead'
            obtain ⟨rfl, _⟩ := List.cons.inj tail
            omega
          · intro same
            exact ⟨low, high, data, ahead, by omega⟩
        have following : buffers.compressedBuffer.drop (decoder.c + 2) = data :=
          (loadWord_of_drop ahead).2
        rw [shape, link, advance, extent_eq_announced_iff, ahead, headers, List.forall_mem_cons]
        refine and_congr_right fun full => ?_
        have same := (extent_eq_announced_iff _).mpr full
        rw [inductionHypothesis next final sound' (by omega) ran, ← following, List.drop_drop,
          ← same, place]
    · have empty : decoder.compressedBufferSize = 0 := by simpa [hasInput] using going
      have nothing : buffers.compressedBuffer.drop decoder.c = [] :=
        List.eq_nil_of_length_eq_zero (by rw [sound.ahead, empty])
      have alone : offsets buffers (fuel + 1) decoder = [buffers.compressedBuffer.length] := by
        unfold offsets
        rw [whileHeads, if_neg going]
        rfl
      rw [alone, nothing]
      refine iff_of_true (List.isChain_singleton _) ?_
      rw [headers]
      · exact fun word member => absurd member List.not_mem_nil
      · simp

/-- Every state in which a header is read keeps the counters. -/
theorem whileHeads_sound {buffers : Buffers} :
    ∀ (fuel : Nat) (decoder : Decoder), Sound buffers decoder →
      ∀ head ∈ whileHeads hasInput (runChunk buffers) fuel decoder, Sound buffers head := by
  intro fuel
  induction fuel with
  | zero => intro decoder _ head member; exact absurd member List.not_mem_nil
  | succ fuel inductionHypothesis =>
    intro decoder sound head member
    rw [whileHeads] at member
    by_cases going : hasInput decoder = true
    · have nonempty : decoder.compressedBufferSize ≠ 0 := by simpa [hasInput] using going
      have step := runChunk_holds sound nonempty
      rw [if_pos going] at member
      cases moved : runChunk buffers decoder with
      | error stop =>
        rw [moved, List.mem_singleton] at member
        rw [member]
        exact sound
      | ok next =>
        rw [moved] at member
        rcases List.mem_cons.mp member with rfl | later
        · exact sound
        · exact inductionHypothesis next (step.of_ok moved).2.1 head later
    · rw [if_neg going] at member
      exact absurd member List.not_mem_nil

/-- An uncompressed chunk whose announced bytes are there and fit is taken as announced
exactly when it announces 4096 bytes. -/
theorem takesRaw_iff {buffers : Buffers} {decoder : Decoder} (sound : Sound buffers decoder)
    {low high : UInt8} {data : List UInt8}
    (ahead : buffers.compressedBuffer.drop decoder.c = low :: high :: data)
    (raw : headerWord low high < 0x8000)
    (present : announced (headerWord low high) ≤ data.length)
    (fits : announced (headerWord low high) ≤ decoder.uncompressedBufferSize) :
    TakesRaw buffers decoder (announced (headerWord low high)) ↔
      announced (headerWord low high) = 4096 := by
  have counted := sound.ahead
  rw [ahead, List.length_cons, List.length_cons] at counted
  have available : 2 ≤ decoder.compressedBufferSize := by omega
  have behind := behindHeader_sound sound available
  unfold TakesRaw
  rw [runChunk_raw available (loadWord_of_drop ahead).1 raw]
  constructor
  · intro taken
    by_cases full : (behindHeader decoder).compressedBufferSize < 4096 ∨
        (behindHeader decoder).uncompressedBufferSize < 4096
    · rw [rawChunk_full full] at taken
      cases taken
    · rw [not_or, not_lt, not_lt] at full
      rw [rawChunk_next behind full.1 full.2] at taken
      have place : decoder.c + 2 + 4096 = decoder.c + 2 + announced (headerWord low high) :=
        congrArg Decoder.c (Except.ok.inj taken)
      omega
  · intro full
    rw [full] at present fits ⊢
    rw [rawChunk_next behind (by show 4096 ≤ decoder.compressedBufferSize - 2; omega) fits]
    rfl

/-- The decoder keeps the framing law exactly when every uncompressed chunk announces 4096
bytes: on a call that succeeds, every one on the walk over the headers; on any call, every
one it comes to whose announced bytes are there and fit. -/
theorem framedAsAnnounced_iff (outside : Int → Option UInt8) (capacity : Nat)
    (bytes : List UInt8) :
    FramedAsAnnounced outside capacity bytes ↔
      ((decompress outside capacity bytes).status = some .success →
        ∀ word ∈ headers bytes, word < 0x8000 → announced word = 4096) ∧
      ∀ decoder ∈ chunkStates outside capacity bytes, ∀ low high data,
        bytes.drop decoder.c = low :: high :: data → headerWord low high < 0x8000 →
        announced (headerWord low high) ≤ data.length →
        announced (headerWord low high) ≤ decoder.uncompressedBufferSize →
          announced (headerWord low high) = 4096 := by
  have sound := start_sound (callBuffers outside capacity bytes)
  have moves : (decompress outside capacity bytes).status = some .success →
      (List.IsChain (Advances bytes)
        ((chunkStates outside capacity bytes).map Decoder.c ++ [bytes.length]) ↔
      ∀ word ∈ headers bytes, word < 0x8000 → announced word = 4096) := by
    intro success
    obtain ⟨final, ran⟩ := runStream_of_success success
    exact isChain_offsets_iff _ _ final sound (Nat.lt_succ_self _) ran
  have accepts : ∀ decoder ∈ chunkStates outside capacity bytes,
      Sound (callBuffers outside capacity bytes) decoder := whileHeads_sound _ _ sound
  constructor
  · rintro ⟨chain, taken⟩
    refine ⟨fun success => (moves success).mp (chain success), ?_⟩
    intro decoder member low high data ahead raw present fits
    exact (takesRaw_iff (accepts decoder member) ahead raw present fits).mp
      (taken decoder member low high data ahead raw present fits)
  · rintro ⟨full, fullRaw⟩
    refine ⟨fun success => (moves success).mpr (full success), ?_⟩
    intro decoder member low high data ahead raw present fits
    exact (takesRaw_iff (accepts decoder member) ahead raw present fits).mpr
      (fullRaw decoder member low high data ahead raw present fits)

/-- A last chunk of one uncompressed byte, which is there and fits, is refused. -/
theorem not_framedAsAnnounced : ¬ FramedAsAnnounced Lz77.nowhere 1 [0x00, 0x30, 0x41] := by
  rintro ⟨_, accepts⟩
  have taken := accepts (start (callBuffers Lz77.nowhere 1 [0x00, 0x30, 0x41])) (by decide)
    0x00 0x30 [0x41] rfl (by decide) (by decide) (by decide)
  exact absurd taken (by unfold TakesRaw; decide)

end Nloader.Lznt1
