/-
This file says what the tokens of a format come to, for a `snprintf` that follows the C standard. A
piece is a text that is taken off the count as a whole, and stored as far as there is room for it
where it is made: a number is made in a buffer of 32 or 64 characters.
-/

import Nloader.FormatScan
import Nloader.Library.CPrintf

namespace Nloader.Format

open CPrintf Parameters

/-! ### Pieces -/

/-- A text, and how much of it there is room for. -/
structure Piece where
  text : List UInt16
  room : Nat

/-- What is stored of a piece. -/
def Piece.stored (piece : Piece) : List UInt16 := piece.text.take piece.room

/-- A text that is stored whole. -/
def Piece.whole (text : List UInt16) : Piece where
  text := text
  room := text.length

/-- The piece of a number, which `snprintf` makes in a buffer. -/
def numberPiece (size : Nat) (format : List UInt8) (value : Int) : Piece where
  text := ((parse format).text value).map widen
  room := size - 1

/-- The piece that a token makes of its argument, and the arguments behind it. -/
def piece : Token → List Argument → Option (Piece × List Argument)
  | .literal c, argv => some (.whole [c], argv)
  | .wchar, .word value :: argv => some (.whole [value.toUInt16], argv)
  | .wstring, .wideString string :: argv => some (.whole (string.getD nil), argv)
  | .string, .narrowString string :: argv => some (.whole ((string.getD null).map widen), argv)
  | .int32 nfmt c, .word value :: argv =>
    some (numberPiece 32 (nfmt ++ [c]) value.toUInt32.toInt32.toInt, argv)
  | .int64 nfmt c, .word value :: argv =>
    some (numberPiece 64 (nfmt ++ [0x6c] ++ [0x6c] ++ [c]) value.toInt64.toInt, argv)
  | _, _ => none

/-- The pieces that tokens make of their arguments, if these match them. -/
def pieces : List Token → List Argument → Option (List Piece)
  | [], _ => some []
  | token :: found, argv => do
    let (first, argv) ← piece token argv
    let others ← pieces found argv
    some (first :: others)

theorem pieces_cons {token : Token} {found : List Token} {argv : List Argument}
    {made : List Piece} (makes : pieces (token :: found) argv = some made) :
    ∃ first rest others, piece token argv = some (first, rest) ∧
      pieces found rest = some others ∧ made = first :: others := by
  obtain ⟨⟨first, rest⟩, starts, continues⟩ := Option.bind_eq_some_iff.mp makes
  obtain ⟨others, ends, same⟩ := Option.bind_eq_some_iff.mp continues
  exact ⟨first, rest, others, starts, ends, (Option.some.inj same).symm⟩

/-! ### Numbers -/

/-- A token whose conversion, if it is one of a number, is one of the standard. -/
def Token.Standard : Token → Prop
  | .int32 nfmt c => ∃ conversion : Conversion,
    conversion.format = nfmt ++ [c] ∧ conversion.long = false ∧ conversion.width < 2 ^ 31
  | .int64 nfmt c => ∃ conversion : Conversion,
    conversion.format = nfmt ++ [0x6c] ++ [0x6c] ++ [c] ∧ conversion.long = true ∧
      conversion.width < 2 ^ 31
  | _ => True

theorem inRange_int32 {conversion : Conversion} (short : conversion.long = false) (value : Int32) :
    conversion.InRange value.toInt := by
  have bits : conversion.bits = 32 := by rw [Conversion.bits, short]; rfl
  rw [Conversion.InRange, bits]
  exact ⟨value.le_toInt, value.toInt_lt⟩

theorem inRange_int64 {conversion : Conversion} (long : conversion.long = true) (value : Int64) :
    conversion.InRange value.toInt := by
  have bits : conversion.bits = 64 := by rw [Conversion.bits, long]; rfl
  rw [Conversion.InRange, bits]
  exact ⟨value.le_toInt, value.toInt_lt⟩

/-- What is emitted for a number is its piece. -/
theorem snprintf_eq {snprintf : Snprintf} (follows : FollowsStandard snprintf) {size : Nat}
    (positive : 0 < size) {conversion : Conversion} {format : List UInt8} {value : Int}
    (same : conversion.format = format) (small : conversion.width < 2 ^ 31)
    (range : conversion.InRange value) :
    (snprintf size format value).1 = ((numberPiece size format value).text.length : Int) ∧
      (snprintf size format value).2.map widen = (numberPiece size format value).stored := by
  rw [← same, follows size conversion value positive small range, numberPiece, parse_format]
  refine ⟨?_, ?_⟩
  · rw [List.length_map]
  · rw [Piece.stored, List.map_take]

/-- What a piece leaves: it is taken off the count, and stored as far as there was room. -/
def State.append (state : State) (piece : Piece) (argv : List Argument) : State where
  stream := state.stream ++ piece.stored
  count := state.count - .ofNat piece.text.length
  argv := argv

theorem stored_whole (text : List UInt16) : (Piece.whole text).stored = text :=
  List.take_length

theorem ofInt_natCast (n : Nat) : UInt64.ofInt n = .ofNat n := by
  refine UInt64.toNat_inj.mp ?_
  rw [UInt64.ofInt, UInt64.toNat_ofNat', UInt64.toNat_ofNat']
  omega

/-- A text that is emitted and counted whole. -/
theorem emit_whole (state : State) (text : List UInt16) (argv : List Argument) :
    state.emit { chars := text.length, text := text } argv = state.append (.whole text) argv := by
  rw [State.emit, State.append, stored_whole, Piece.whole, ofInt_natCast]

/-- A number that is emitted. -/
theorem emit_number {snprintf : Snprintf} (follows : FollowsStandard snprintf) {size : Nat}
    (positive : 0 < size) {conversion : Conversion} {format : List UInt8} {value : Int}
    (same : conversion.format = format) (small : conversion.width < 2 ^ 31)
    (range : conversion.InRange value) (state : State) (argv : List Argument) :
    state.emit ⟨(snprintf size format value).1, (snprintf size format value).2.map widen⟩ argv =
      state.append (numberPiece size format value) argv := by
  obtain ⟨returned, text⟩ := snprintf_eq follows positive same small range
  rw [State.emit, State.append, returned, text, ofInt_natCast]

/-- A token is performed as its piece. -/
theorem perform_piece {snprintf : Snprintf} (follows : FollowsStandard snprintf) {token : Token}
    (fits : token.Fits) (standard : token.Standard) {state : State} {made : Piece}
    {argv : List Argument} (makes : piece token state.argv = some (made, argv)) :
    perform snprintf state token = .ok (state.append made argv) := by
  obtain ⟨stream, count, arguments⟩ := state
  match token, arguments with
  | .literal c, _ =>
    obtain ⟨rfl, rfl⟩ := Prod.mk.inj (Option.some.inj makes)
    exact congrArg Except.ok (emit_whole _ [c] _)
  | .wchar, .word value :: _ =>
    obtain ⟨rfl, rfl⟩ := Prod.mk.inj (Option.some.inj makes)
    exact congrArg Except.ok (emit_whole _ [value.toUInt16] _)
  | .wstring, .wideString string :: _ =>
    obtain ⟨rfl, rfl⟩ := Prod.mk.inj (Option.some.inj makes)
    exact congrArg Except.ok (emit_whole _ (string.getD nil) _)
  | .string, .narrowString string :: _ =>
    obtain ⟨rfl, rfl⟩ := Prod.mk.inj (Option.some.inj makes)
    refine congrArg Except.ok ?_
    rw [← emit_whole, List.length_map]
    rfl
  | .int32 nfmt c, .word value :: _ =>
    obtain ⟨rfl, rfl⟩ := Prod.mk.inj (Option.some.inj makes)
    obtain ⟨conversion, same, short, small⟩ := standard
    exact (convertInt32_ok fits c rfl).trans (congrArg Except.ok
      (emit_number follows (by decide) same small (inRange_int32 short _) _ _))
  | .int64 nfmt c, .word value :: _ =>
    obtain ⟨rfl, rfl⟩ := Prod.mk.inj (Option.some.inj makes)
    obtain ⟨conversion, same, long, small⟩ := standard
    exact (convertInt64_ok fits c rfl).trans (congrArg Except.ok
      (emit_number follows (by decide) same small (inRange_int64 long _) _ _))

/-! ### Output -/

/-- What is stored of pieces, and the count that is left: nothing is done any more when the count
is zero. -/
def output : List Piece → UInt64 → List UInt16 × UInt64
  | [], count => ([], count)
  | piece :: others, count =>
    if count = 0 then ([], count)
    else
      let rest := output others (count - .ofNat piece.text.length)
      (piece.stored ++ rest.1, rest.2)

theorem output_zero (made : List Piece) : output made 0 = ([], 0) := by
  cases made with
  | nil => rfl
  | cons piece others => exact if_pos rfl

theorem output_cons {count : UInt64} (going : count ≠ 0) (piece : Piece) (others : List Piece) :
    output (piece :: others) count =
      (piece.stored ++ (output others (count - .ofNat piece.text.length)).1,
        (output others (count - .ofNat piece.text.length)).2) :=
  if_neg going

/-- The tokens of a scan that has come to its end are carried out as their pieces. -/
theorem carryOut_pieces {snprintf : Snprintf} (follows : FollowsStandard snprintf)
    {found : List Token} (fits : ∀ token ∈ found, token.Fits)
    (standard : ∀ token ∈ found, token.Standard) {state : State} {made : List Piece}
    (makes : pieces found state.argv = some made) :
    ∃ argv, carryOut snprintf none found state =
      .ok { stream := state.stream ++ (output made state.count).1
            count := (output made state.count).2
            argv := argv } := by
  induction found generalizing state made with
  | nil =>
    obtain rfl := Option.some.inj makes
    refine ⟨state.argv, ?_⟩
    rw [carryOut, if_pos (.inr rfl), output, List.append_nil]
  | cons token found inductionHypothesis =>
    by_cases finished : state.count = 0
    · refine ⟨state.argv, ?_⟩
      rw [carryOut_zero finished, finished, output_zero, List.append_nil, ← finished]
    obtain ⟨first, rest, others, starts, continues, rfl⟩ := pieces_cons makes
    have performed := perform_piece follows (fits token List.mem_cons_self)
      (standard token List.mem_cons_self) starts
    have appended : pieces found (state.append first rest).argv = some others := continues
    obtain ⟨argv, carries⟩ := inductionHypothesis
      (fun other member => fits other (List.mem_cons_of_mem _ member))
      (fun other member => standard other (List.mem_cons_of_mem _ member)) appended
    refine ⟨argv, ?_⟩
    rw [carryOut_cons finished, performed, output_cons finished, ← List.append_assoc]
    exact carries

/-- What a call leaves of its pieces. -/
def formatted (made : List Piece) (count : UInt64) : Formatted where
  returned := (count - (output made count).2).toUInt32.toInt32
  stream := (output made count).1 ++ [0]

theorem format_pieces {snprintf : Snprintf} (follows : FollowsStandard snprintf)
    {fmt : List UInt16} {found : List Token} (scans : scanner.tokens .plain fmt = some found)
    (fits : ∀ token ∈ found, token.Fits) (standard : ∀ token ∈ found, token.Standard)
    {argv : List Argument} {made : List Piece} (makes : pieces found argv = some made)
    (count : UInt64) : format snprintf fmt count argv = .ok (formatted made count) := by
  have ends : (scanner.scan .plain fmt).2 = none :=
    (Scanner.tokens_isSome _ _).mp (by rw [scans]; rfl)
  have start : pieces found ({ stream := [], count := count, argv := argv } : State).argv =
    some made := makes
  obtain ⟨rest, carries⟩ := carryOut_pieces follows fits standard start
  rw [format, formatNext_eq, carryOn, ends, Scanner.scan_of_tokens scans, carries]
  rfl

/-! ### Enough room -/

/-- What is taken off the count for pieces. -/
def total (made : List Piece) : Nat := (made.map fun piece => piece.text.length).sum

theorem total_cons (piece : Piece) (others : List Piece) :
    total (piece :: others) = piece.text.length + total others := rfl

theorem sub_sub_eq (count first second : UInt64) :
    count - first - second = count - (first + second) := by
  rw [UInt64.sub_eq_iff_eq_add, UInt64.sub_eq_iff_eq_add, UInt64.add_assoc,
    UInt64.add_comm second, UInt64.sub_add_cancel]

/-- Pieces that do not use up the count are all stored. -/
theorem output_of_lt {made : List Piece} {count : UInt64} (room : total made < count.toNat) :
    output made count = (made.flatMap Piece.stored, count - .ofNat (total made)) := by
  induction made generalizing count with
  | nil => exact Prod.ext rfl (UInt64.sub_zero count).symm
  | cons piece others inductionHypothesis =>
    rw [total_cons] at room ⊢
    have size := count.toNat_lt
    have going : count ≠ 0 := by
      rintro rfl
      exact absurd room (Nat.not_lt_zero _)
    have length : (UInt64.ofNat piece.text.length).toNat = piece.text.length :=
      UInt64.toNat_ofNat_of_lt' (show _ < 2 ^ 64 by omega)
    have left : (count - .ofNat piece.text.length).toNat = count.toNat - piece.text.length := by
      rw [UInt64.toNat_sub_of_le _ _ (UInt64.le_iff_toNat_le.mpr (by omega)), length]
    rw [output_cons going, inductionHypothesis (by omega), List.flatMap_cons, UInt64.ofNat_add,
      sub_sub_eq]

end Nloader.Format
