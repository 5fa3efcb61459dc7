/-
This file compares what `__format` stores with what the C standard asks for, for the conversions
that it has, when the count is larger than the result.

A number is made in a buffer, so a width of 32, or of 64 for `I64`, cuts its text, while all of it
is taken off the count. The other conversions do not look at their width.
-/

import Nloader.FormatPieces

namespace Nloader.Format

open CPrintf Parameters

/-! ### Directives -/

/-- A decimal width. -/
structure Width where
  digits : List UInt8
  decimal : ∀ digit ∈ digits, isDigit digit = true
  short : digits.length ≤ 25
  small : number digits < 2 ^ 31

/-- What a format asks for, with the argument that is given for it: a character, `%c`, `%s`, `%ws`,
`%hs`, one of `%d`, `%u`, `%x` and `%X`, or one of `%I64d`, `%I64u` and `%I64x`. -/
inductive Directive where
  | literal (c : UInt16) (ordinary : c ≠ 0 ∧ c ≠ 0x25)
  | character (width : Width) (value : UInt64)
  | string (width : Width) (text : List UInt16)
  | wideString (width : Width) (text : List UInt16)
  | narrowString (width : Width) (text : List UInt8)
  | int32 (width : Width) (letter : Letter) (value : UInt64)
  | int64 (width : Width) (letter : Letter) (lower : letter ≠ .X) (value : UInt64)

/-- A conversion as it is written in a format. -/
def Width.written (width : Width) (behind : List UInt16) : List UInt16 :=
  0x25 :: (width.digits.map UInt8.toUInt16 ++ behind)

/-- A directive as it is written in a format. -/
def Directive.written : Directive → List UInt16
  | .literal c _ => [c]
  | .character width _ => width.written [0x63]
  | .string width _ => width.written [0x73]
  | .wideString width _ => width.written [0x77, 0x73]
  | .narrowString width _ => width.written [0x68, 0x73]
  | .int32 width letter _ => width.written [letter.code.toUInt16]
  | .int64 width letter _ _ => width.written [0x49, 0x36, 0x34, letter.code.toUInt16]

/-- The argument of a directive. -/
def Directive.arguments : Directive → List Argument
  | .literal _ _ => []
  | .character _ value | .int32 _ _ value | .int64 _ _ _ value => [.word value]
  | .string _ text | .wideString _ text => [.wideString (some text)]
  | .narrowString _ text => [.narrowString (some text)]

/-- The conversion of an integer. -/
def Width.conversion (width : Width) (long : Bool) (letter : Letter) : Conversion where
  digits := width.digits
  decimal := width.decimal
  long := long
  letter := letter

/-- A text that is filled up with blanks. -/
def Width.fill (width : Width) (text : List UInt16) : List UInt16 :=
  List.replicate (number width.digits - text.length) 0x20 ++ text

/-- What a directive stands for, if `btowc` gives the wide characters of the characters that are
given for `%hs`. -/
def Directive.meaning (btowc : UInt8 → UInt16) : Directive → List UInt16
  | .literal c _ => [c]
  | .character width value => width.fill [value.toUInt16]
  | .string width text | .wideString width text => width.fill text
  | .narrowString width text => width.fill (text.map btowc)
  | .int32 width letter value =>
    ((width.conversion false letter).text value.toUInt32.toInt32.toInt).map widen
  | .int64 width letter _ value =>
    ((width.conversion true letter).text value.toInt64.toInt).map widen

/-- What a format of directives stands for. -/
def meaning (btowc : UInt8 → UInt16) (directives : List Directive) : List UInt16 :=
  directives.flatMap (Directive.meaning btowc)

/-- A call with a format of directives and their arguments stores what the format stands for and a
zero, and returns the number of characters before the zero. -/
def Prints (snprintf : Snprintf) (btowc : UInt8 → UInt16) (directives : List Directive)
    (count : UInt64) (more : List Argument) : Prop :=
  ∃ returned : Int32,
    format snprintf (directives.flatMap Directive.written ++ [0]) count
        (directives.flatMap Directive.arguments ++ more) =
      .ok { returned := returned, stream := meaning btowc directives ++ [0] } ∧
    returned.toInt = (meaning btowc directives).length

/-! ### Their tokens -/

/-- A conversion of an integer up to its width. -/
def Width.nfmt (width : Width) : List UInt8 := 0x25 :: width.digits

/-- The token of a directive. -/
def Directive.token : Directive → Token
  | .literal c _ => .literal c
  | .character _ _ => .wchar
  | .string _ _ | .wideString _ _ => .wstring
  | .narrowString _ _ => .string
  | .int32 width letter _ => .int32 width.nfmt letter.code
  | .int64 width letter _ _ => .int64 width.nfmt letter.code

theorem readConversion_digit (nfmt : List UInt8) (room : nfmt.length < sizeofNfmt - 6)
    {digit : UInt8} (decimal : isDigit digit = true) :
    readConversion nfmt digit.toUInt16 = ([], some (.conversion (nfmt ++ [digit]))) := by
  have least : 0x30 ≤ digit.toNat :=
    UInt8.le_iff_toNat_le.mp (of_decide_eq_true decimal).1
  have most : digit.toNat ≤ 0x39 := UInt8.le_iff_toNat_le.mp (of_decide_eq_true decimal).2
  have other (c : UInt16) (outside : c.toNat < 0x30 ∨ 0x39 < c.toNat) : digit.toUInt16 ≠ c := by
    rintro rfl
    rw [UInt8.toNat_toUInt16] at outside
    omega
  have inside : (0x30 : UInt16) ≤ digit.toUInt16 ∧ digit.toUInt16 ≤ 0x39 := by
    rw [UInt16.le_iff_toNat_le, UInt16.le_iff_toNat_le, UInt8.toNat_toUInt16]
    exact ⟨least, most⟩
  rw [readConversion, if_neg (other 0x63 (.inr (by decide))),
    if_neg (other 0x73 (.inr (by decide))),
    if_neg (not_or.mpr ⟨other 0x77 (.inr (by decide)), other 0x57 (.inr (by decide))⟩),
    if_neg (not_or.mpr ⟨other 0x68 (.inr (by decide)), other 0x48 (.inr (by decide))⟩),
    if_neg (not_or.mpr ⟨other 0x49 (.inr (by decide)), other 0x69 (.inr (by decide))⟩),
    if_neg (not_or.mpr ⟨other 0x64 (.inr (by decide)), not_or.mpr ⟨other 0x75 (.inr (by decide)),
      not_or.mpr ⟨other 0x78 (.inr (by decide)), other 0x58 (.inr (by decide))⟩⟩⟩),
    if_pos inside, if_neg (Nat.not_le.mpr room), UInt8.toUInt8_toUInt16]

theorem tokens_digits {digits : List UInt8} (decimal : ∀ digit ∈ digits, isDigit digit = true)
    {nfmt : List UInt8} (room : nfmt.length + digits.length ≤ sizeofNfmt - 6)
    (behind : List UInt16) :
    scanner.tokens (.conversion nfmt) (digits.map UInt8.toUInt16 ++ behind) =
      scanner.tokens (.conversion (nfmt ++ digits)) behind := by
  induction digits generalizing nfmt with
  | nil => rw [List.map_nil, List.nil_append, List.append_nil]
  | cons digit digits inductionHypothesis =>
    rw [List.length_cons] at room
    have reads := readConversion_digit nfmt (by omega) (decimal digit List.mem_cons_self)
    rw [List.map_cons, List.cons_append, Scanner.tokens_silent reads,
      inductionHypothesis (fun other member => decimal other (List.mem_cons_of_mem _ member)),
      List.append_assoc, List.singleton_append]
    rw [List.length_append, List.length_singleton]
    omega

theorem tokens_written (width : Width) (letters rest : List UInt16) :
    scanner.tokens .plain (width.written letters ++ rest) =
      scanner.tokens (.conversion width.nfmt) (letters ++ rest) := by
  have reads : scanner.read .plain 0x25 = ([], some (.conversion [0x25])) := rfl
  have room : [(0x25 : UInt8)].length + width.digits.length ≤ sizeofNfmt - 6 := by
    rw [List.length_singleton, Nat.add_comm]
    exact Nat.succ_le_succ width.short
  rw [Width.written, List.cons_append, Scanner.tokens_silent reads, List.append_assoc,
    tokens_digits width.decimal room]
  rfl

/-- A character that completes a token. -/
theorem tokens_token {mode : Mode} {c : UInt16} {token : Token}
    (reads : scanner.read mode c = ([token], some .plain)) (rest : List UInt16) :
    scanner.tokens mode (c :: rest) = (scanner.tokens .plain rest).map (token :: ·) :=
  Scanner.tokens_next reads

/-- A directive is read as its token. -/
theorem tokens_directive (directive : Directive) (rest : List UInt16) :
    scanner.tokens .plain (directive.written ++ rest) =
      (scanner.tokens .plain rest).map (directive.token :: ·) := by
  cases directive with
  | literal c ordinary =>
    have reads : scanner.read .plain c = ([.literal c], some .plain) :=
      (if_neg ordinary.1).trans (if_pos ordinary.2)
    exact tokens_token reads rest
  | character width value =>
    exact (tokens_written width _ rest).trans (tokens_token rfl rest)
  | string width text =>
    exact (tokens_written width _ rest).trans (tokens_token rfl rest)
  | wideString width text =>
    exact (tokens_written width _ rest).trans
      ((Scanner.tokens_silent rfl).trans (tokens_token rfl rest))
  | narrowString width text =>
    exact (tokens_written width _ rest).trans
      ((Scanner.tokens_silent rfl).trans (tokens_token rfl rest))
  | int32 width letter value =>
    have reads : scanner.read (.conversion width.nfmt) letter.code.toUInt16 =
        ([.int32 width.nfmt letter.code], some .plain) := by
      cases letter <;> rfl
    exact (tokens_written width _ rest).trans (tokens_token reads rest)
  | int64 width letter lower value =>
    have reads : scanner.read (.type width.nfmt) letter.code.toUInt16 =
        ([.int64 width.nfmt letter.code], some .plain) := by
      cases letter with
      | d | u | x => rfl
      | X => exact absurd rfl lower
    calc
      _ = scanner.tokens (.conversion width.nfmt)
          ([0x49, 0x36, 0x34, letter.code.toUInt16] ++ rest) := tokens_written width _ rest
      _ = scanner.tokens (.six width.nfmt) ([0x36, 0x34, letter.code.toUInt16] ++ rest) :=
        Scanner.tokens_silent rfl
      _ = scanner.tokens (.four width.nfmt) ([0x34, letter.code.toUInt16] ++ rest) :=
        Scanner.tokens_silent rfl
      _ = scanner.tokens (.type width.nfmt) ([letter.code.toUInt16] ++ rest) :=
        Scanner.tokens_silent rfl
      _ = _ := tokens_token reads rest

/-- A format of directives is read as their tokens. -/
theorem tokens_directives (directives : List Directive) :
    scanner.tokens .plain (directives.flatMap Directive.written ++ [0]) =
      some (directives.map Directive.token) := by
  induction directives with
  | nil => rfl
  | cons directive directives inductionHypothesis =>
    rw [List.flatMap_cons, List.append_assoc, tokens_directive, inductionHypothesis]
    rfl

theorem fits_directive (directive : Directive) : directive.token.Fits := by
  cases directive with
  | int32 width letter value => exact Nat.succ_le_succ width.short
  | int64 width letter lower value => exact Nat.succ_le_succ width.short
  | _ => trivial

theorem format_conversion (width : Width) (letter : Letter) :
    (width.conversion false letter).format = width.nfmt ++ [letter.code] := rfl

theorem format_conversion_long (width : Width) (letter : Letter) :
    (width.conversion true letter).format = width.nfmt ++ [0x6c] ++ [0x6c] ++ [letter.code] := by
  rw [List.append_assoc, List.append_assoc]
  rfl

theorem standard_directive (directive : Directive) : directive.token.Standard := by
  cases directive with
  | int32 width letter value =>
    exact ⟨width.conversion false letter, format_conversion width letter, rfl, width.small⟩
  | int64 width letter lower value =>
    exact ⟨width.conversion true letter, format_conversion_long width letter, rfl, width.small⟩
  | _ => trivial

/-! ### Their pieces -/

/-- The piece of a directive. -/
def Directive.piece : Directive → Piece
  | .literal c _ => .whole [c]
  | .character _ value => .whole [value.toUInt16]
  | .string _ text | .wideString _ text => .whole text
  | .narrowString _ text => .whole (text.map widen)
  | .int32 width letter value =>
    { text := ((width.conversion false letter).text value.toUInt32.toInt32.toInt).map widen
      room := 31 }
  | .int64 width letter _ value =>
    { text := ((width.conversion true letter).text value.toInt64.toInt).map widen
      room := 63 }

theorem piece_directive (directive : Directive) (more : List Argument) :
    piece directive.token (directive.arguments ++ more) = some (directive.piece, more) := by
  cases directive with
  | int32 width letter value =>
    refine congrArg (fun made => some (made, more)) ?_
    rw [← format_conversion, numberPiece, parse_format]
    rfl
  | int64 width letter lower value =>
    refine congrArg (fun made => some (made, more)) ?_
    rw [← format_conversion_long, numberPiece, parse_format]
    rfl
  | _ => rfl

theorem pieces_directives (directives : List Directive) (more : List Argument) :
    pieces (directives.map Directive.token)
      (directives.flatMap Directive.arguments ++ more) =
        some (directives.map Directive.piece) := by
  induction directives with
  | nil => rfl
  | cons directive directives inductionHypothesis =>
    rw [List.map_cons, List.map_cons, List.flatMap_cons, List.append_assoc, pieces,
      piece_directive]
    change (pieces _ _).bind _ = _
    rw [inductionHypothesis]
    rfl

/-! ### What is stored -/

/-- What is stored for a directive is what it stands for: the width of an integer is at most 31, or
63 for `I64`, another width is no larger than the text, and the characters for `%hs` are extended
with their sign. -/
def Directive.Exact (btowc : UInt8 → UInt16) : Directive → Prop
  | .literal _ _ => True
  | .character width _ => number width.digits ≤ 1
  | .string width text | .wideString width text => number width.digits ≤ text.length
  | .narrowString width text =>
    number width.digits ≤ text.length ∧ ∀ c ∈ text, btowc c = widen c
  | .int32 width _ _ => number width.digits ≤ 31
  | .int64 width _ _ _ => number width.digits ≤ 63

theorem Width.length_fill (width : Width) (text : List UInt16) :
    (width.fill text).length = max (number width.digits) text.length := by
  rw [Width.fill, List.length_append, List.length_replicate]
  omega

theorem Width.fill_of_le {width : Width} {text : List UInt16}
    (short : number width.digits ≤ text.length) : width.fill text = text := by
  rw [Width.fill, Nat.sub_eq_zero_of_le short]
  rfl

/-- A text that is not filled up is the text that it should be just when it is long enough. -/
theorem Width.eq_fill_iff (width : Width) (first second : List UInt16)
    (lengths : first.length = second.length) :
    first = width.fill second ↔ number width.digits ≤ first.length ∧ first = second := by
  constructor
  · intro same
    have length := congrArg List.length same
    rw [width.length_fill] at length
    have short : number width.digits ≤ second.length := by omega
    rw [Width.fill_of_le short] at same
    exact ⟨lengths ▸ short, same⟩
  · rintro ⟨short, rfl⟩
    exact (Width.fill_of_le short).symm

theorem stored_number_iff {conversion : Conversion} {value : Int} {room : Nat}
    (enough : 21 ≤ room) (range : conversion.InRange value) :
    ({ text := (conversion.text value).map widen, room := room } : Piece).stored =
      (conversion.text value).map widen ↔ conversion.width ≤ room := by
  rw [Piece.stored, List.take_eq_self_iff, List.length_map,
    Conversion.length_text_le_iff enough range]

/-- What is stored for a directive is what it stands for just when it is exact. -/
theorem stored_eq_meaning_iff (btowc : UInt8 → UInt16) (directive : Directive) :
    directive.piece.stored = directive.meaning btowc ↔ directive.Exact btowc := by
  cases directive with
  | literal c ordinary => exact iff_of_true rfl trivial
  | character width value =>
    exact (width.eq_fill_iff _ _ rfl).trans (and_iff_left rfl)
  | string width text | wideString width text =>
    change (Piece.whole text).stored = width.fill text ↔ number width.digits ≤ text.length
    rw [stored_whole]
    exact (width.eq_fill_iff _ _ rfl).trans (and_iff_left rfl)
  | narrowString width text =>
    change (Piece.whole (text.map widen)).stored = width.fill (text.map btowc) ↔ _
    have lengths : (text.map widen).length = (text.map btowc).length := by
      rw [List.length_map, List.length_map]
    rw [stored_whole, width.eq_fill_iff _ _ lengths, List.length_map, List.map_inj_left]
    exact and_congr_right fun _ => forall₂_congr fun _ _ => eq_comm
  | int32 width letter value =>
    exact stored_number_iff (by decide) (inRange_int32 rfl _)
  | int64 width letter lower value =>
    exact stored_number_iff (by decide) (inRange_int64 rfl _)

/-- No more is counted for a directive than it stands for. -/
theorem length_piece_le (btowc : UInt8 → UInt16) (directive : Directive) :
    directive.piece.text.length ≤ (directive.meaning btowc).length := by
  cases directive with
  | literal c ordinary => exact le_rfl
  | character width value =>
    exact (le_max_right _ _).trans_eq (width.length_fill [value.toUInt16]).symm
  | string width text | wideString width text =>
    exact (le_max_right _ _).trans_eq (width.length_fill text).symm
  | narrowString width text =>
    change (text.map widen).length ≤ (width.fill (text.map btowc)).length
    rw [width.length_fill, List.length_map, List.length_map]
    exact le_max_right _ _
  | int32 width letter value | int64 width letter lower value => exact le_rfl

/-! ### Whole formats -/

/-- Texts that are no longer than others come to the same, one behind the other, just when each of
them is the same. -/
theorem flatMap_eq_iff {α β : Type} {first second : α → List β} (all : List α)
    (shorter : ∀ one ∈ all, (first one).length ≤ (second one).length) :
    all.flatMap first = all.flatMap second ↔ ∀ one ∈ all, first one = second one := by
  refine ⟨fun same => ?_, List.flatMap_congr⟩
  induction all with
  | nil => exact fun one member => absurd member List.not_mem_nil
  | cons one others inductionHypothesis =>
    have shorter_others : ∀ other ∈ others, (first other).length ≤ (second other).length :=
      fun other member => shorter other (List.mem_cons_of_mem _ member)
    have lengths := congrArg List.length same
    rw [List.flatMap_cons, List.flatMap_cons, List.length_append, List.length_append] at lengths
    have first_shorter := shorter one List.mem_cons_self
    have rest_shorter : (others.flatMap first).length ≤ (others.flatMap second).length := by
      rw [List.length_flatMap, List.length_flatMap]
      exact List.sum_le_sum shorter_others
    obtain ⟨head, tail⟩ := List.append_inj same (by omega)
    exact List.forall_mem_cons.mpr ⟨head, inductionHypothesis shorter_others tail⟩

theorem total_le (btowc : UInt8 → UInt16) (directives : List Directive) :
    total (directives.map Directive.piece) ≤ (meaning btowc directives).length := by
  rw [total, List.map_map, meaning, List.length_flatMap]
  exact List.sum_le_sum fun directive _ => length_piece_le btowc directive

theorem length_stored_le (piece : Piece) : piece.stored.length ≤ piece.text.length :=
  List.length_take_le' _ _

theorem length_stored_total (made : List Piece) :
    (made.flatMap Piece.stored).length ≤ total made := by
  rw [List.length_flatMap]
  exact List.sum_le_sum fun piece _ => length_stored_le piece

/-- All pieces are stored as they should be just when all directives are exact. -/
theorem stored_eq_iff (btowc : UInt8 → UInt16) (directives : List Directive) :
    (directives.map Directive.piece).flatMap Piece.stored = meaning btowc directives ↔
      ∀ directive ∈ directives, directive.Exact btowc := by
  rw [List.flatMap_map, meaning, flatMap_eq_iff directives fun directive _ =>
    (length_stored_le _).trans (length_piece_le btowc directive)]
  exact forall₂_congr fun directive _ => stored_eq_meaning_iff btowc directive

/-- The returned number is that of the characters that are counted just when an `int` can tell
it. -/
theorem toInt_returned (number : Nat) :
    (UInt64.ofNat number).toUInt32.toInt32.toInt = number ↔ number < 2 ^ 31 := by
  rw [UInt64.toUInt32_ofNat', UInt32.toInt32_ofNat']
  refine ⟨fun same => ?_, Int32.toInt_ofNat_of_lt⟩
  have most := (Int32.ofNat number).toInt_lt
  rw [same] at most
  exact_mod_cast most

/-- Pieces that do not use up the count are stored and counted. -/
theorem formatted_of_lt {made : List Piece} {count : UInt64} (room : total made < count.toNat) :
    formatted made count =
      { returned := (UInt64.ofNat (total made)).toUInt32.toInt32
        stream := made.flatMap Piece.stored ++ [0] } := by
  have difference : count - (count - UInt64.ofNat (total made)) = .ofNat (total made) := by
    rw [UInt64.sub_eq_iff_eq_add, UInt64.add_comm, UInt64.sub_add_cancel]
  rw [formatted, output_of_lt room, difference]

/-- A format of directives is carried out as their pieces. -/
theorem format_directives {snprintf : Snprintf} (follows : FollowsStandard snprintf)
    {directives : List Directive} {count : UInt64}
    (room : total (directives.map Directive.piece) < count.toNat) (more : List Argument) :
    format snprintf (directives.flatMap Directive.written ++ [0]) count
        (directives.flatMap Directive.arguments ++ more) =
      .ok {
        returned := (UInt64.ofNat (total (directives.map Directive.piece))).toUInt32.toInt32
        stream := (directives.map Directive.piece).flatMap Piece.stored ++ [0] } := by
  have fits : ∀ token ∈ directives.map Directive.token, token.Fits :=
    List.forall_mem_map.mpr fun directive _ => fits_directive directive
  have standard : ∀ token ∈ directives.map Directive.token, token.Standard :=
    List.forall_mem_map.mpr fun directive _ => standard_directive directive
  rw [format_pieces follows (tokens_directives directives) fits standard
    (pieces_directives directives more) count, formatted_of_lt room]

/-- With a count that is larger than the result, a format of directives is printed just when the
width of each integer is at most 31, or 63 for `I64`, each other width is no larger than its text,
the characters for `%hs` are extended with their sign, and an `int` can tell the length of the
result. -/
theorem prints_iff {snprintf : Snprintf} (follows : FollowsStandard snprintf)
    (btowc : UInt8 → UInt16) (directives : List Directive) {count : UInt64}
    (room : (meaning btowc directives).length < count.toNat) (more : List Argument) :
    Prints snprintf btowc directives count more ↔
      (∀ directive ∈ directives, directive.Exact btowc) ∧
        (meaning btowc directives).length < 2 ^ 31 := by
  have most := total_le btowc directives
  have least := length_stored_total (directives.map Directive.piece)
  have counted (same : (directives.map Directive.piece).flatMap Piece.stored =
      meaning btowc directives) :
      total (directives.map Directive.piece) = (meaning btowc directives).length :=
    le_antisymm most (same ▸ least)
  rw [Prints, format_directives follows (most.trans_lt room), ← stored_eq_iff]
  constructor
  · rintro ⟨_, same, length⟩
    obtain ⟨rfl, streams⟩ := Formatted.mk.inj (Except.ok.inj same)
    have stored := List.append_cancel_right streams
    rw [counted stored, toInt_returned] at length
    exact ⟨stored, length⟩
  · rintro ⟨stored, small⟩
    refine ⟨_, by rw [stored], ?_⟩
    rw [counted stored]
    exact (toInt_returned _).mpr small

/-- `%40d`. -/
def wideInteger : Directive :=
  .int32
    { digits := [0x34, 0x30], decimal := by simp [isDigit], short := by decide,
      small := by decide }
    .d 1

theorem prints_iff_wideInteger :
    Prints standard widen [wideInteger] 100 [] ↔
      (∀ directive ∈ [wideInteger], directive.Exact widen) ∧
        (meaning widen [wideInteger]).length < 2 ^ 31 :=
  prints_iff standard_followsStandard widen [wideInteger] (by decide) []

/-- An integer with the width 40 is counted as 40 characters, but 31 are stored. -/
theorem not_prints :
    ¬ ∀ (snprintf : Snprintf) (btowc : UInt8 → UInt16) (directives : List Directive)
        (count : UInt64) (more : List Argument), FollowsStandard snprintf →
      (meaning btowc directives).length < count.toNat →
        Prints snprintf btowc directives count more := by
  intro all
  have prints := all standard widen [wideInteger] 100 [] standard_followsStandard (by decide)
  obtain ⟨returned, runs, -⟩ := prints
  rw [format_directives standard_followsStandard (by decide)] at runs
  have stored : ([wideInteger].map Directive.piece).flatMap Piece.stored ++ [0] =
      meaning widen [wideInteger] ++ [0] :=
    congrArg Formatted.stream (Except.ok.inj runs)
  exact absurd stored (by decide)

end Nloader.Format
