/-
This file is about the room in the buffer of a call of `__format`. The count is compared with zero
before each character of the format, and the length of what a conversion has emitted is taken off
it, so it wraps when it is smaller. A text that ends where the count does leaves no room for the
zero behind it, unless a number before it was counted with more characters than were stored.
-/

import Nloader.FormatOutput
import Nloader.Library.Outcome

namespace Nloader.Format

open CPrintf Outcome Parameters

/-! ### The tokens of formats -/

/-- The characters in `nfmt` are a `%` and digits, with room for the letters behind them. -/
def IsNfmt (nfmt : List UInt8) : Prop :=
  ∃ digits, nfmt = 0x25 :: digits ∧ (∀ digit ∈ digits, isDigit digit = true) ∧ digits.length ≤ 25

/-- What a mode has of a conversion is in order. -/
def Mode.Sound : Mode → Prop
  | .conversion nfmt | .six nfmt | .four nfmt | .type nfmt => IsNfmt nfmt
  | _ => True

/-- What a token has of a conversion is in order. -/
def Token.Sound : Token → Prop
  | .int32 nfmt c | .int64 nfmt c => IsNfmt nfmt ∧ ∃ letter : Letter, c = letter.code
  | _ => True

/-- What is read is in order. -/
def ReadsSound (read : List Token × Option Mode) : Prop :=
  (∀ token ∈ read.1, token.Sound) ∧ ∀ next, read.2 = some next → next.Sound

theorem readsSound_mode {next : Mode} (sound : next.Sound) : ReadsSound ([], some next) :=
  ⟨fun _ member => absurd member List.not_mem_nil, by rintro _ ⟨⟩; exact sound⟩

theorem readsSound_token {token : Token} (sound : token.Sound) :
    ReadsSound ([token], some .plain) :=
  ⟨fun _ member => List.mem_singleton.mp member ▸ sound, by rintro _ ⟨⟩; exact trivial⟩

theorem readsSound_end {found : List Token} (sound : ∀ token ∈ found, token.Sound) :
    ReadsSound (found, none) :=
  ⟨sound, fun _ same => nomatch same⟩

theorem readsSound_plain (c : UInt16) : ReadsSound (readPlain c) := by
  rw [readPlain]
  split
  · exact readsSound_end fun _ member => absurd member List.not_mem_nil
  split
  · exact readsSound_token trivial
  · exact readsSound_mode ⟨[], rfl, fun _ member => absurd member List.not_mem_nil, by decide⟩

theorem isNfmt_push {nfmt : List UInt8} (sound : IsNfmt nfmt) {c : UInt16}
    (decimal : 0x30 ≤ c ∧ c ≤ 0x39) (short : ¬ sizeofNfmt - 6 ≤ nfmt.length) :
    IsNfmt (nfmt ++ [c.toUInt8]) := by
  obtain ⟨digits, rfl, decimals, _⟩ := sound
  have least : 0x30 ≤ c.toNat := UInt16.le_iff_toNat_le.mp decimal.1
  have most : c.toNat ≤ 0x39 := UInt16.le_iff_toNat_le.mp decimal.2
  have same : c.toUInt8.toNat = c.toNat := by
    rw [UInt16.toNat_toUInt8]
    omega
  refine ⟨digits ++ [c.toUInt8], rfl, fun digit member => ?_, ?_⟩
  · rcases List.mem_append.mp member with member | member
    · exact decimals digit member
    · rw [List.mem_singleton.mp member, isDigit, decide_eq_true_iff, UInt8.le_iff_toNat_le,
        UInt8.le_iff_toNat_le, same]
      exact ⟨least, most⟩
  · rw [List.length_append, List.length_singleton]
    exact Nat.le_of_lt_succ (Nat.lt_of_not_le short)

theorem readsSound_conversion {nfmt : List UInt8} (sound : IsNfmt nfmt) (c : UInt16) :
    ReadsSound (readConversion nfmt c) := by
  rw [readConversion]
  split
  · exact readsSound_token trivial
  split
  · exact readsSound_token trivial
  split
  · exact readsSound_mode trivial
  split
  · exact readsSound_mode trivial
  split
  · exact readsSound_mode sound
  split
  · rename_i type
    refine readsSound_token ⟨sound, ?_⟩
    rcases type with rfl | rfl | rfl | rfl
    · exact ⟨.d, rfl⟩
    · exact ⟨.u, rfl⟩
    · exact ⟨.x, rfl⟩
    · exact ⟨.X, rfl⟩
  split
  · split
    · exact readsSound_end fun _ member => List.mem_singleton.mp member ▸ trivial
    · exact readsSound_mode (isNfmt_push sound (by assumption) (by assumption))
  · exact readsSound_end fun _ member => List.mem_singleton.mp member ▸ trivial

theorem readsSound_read (mode : Mode) (c : UInt16) (sound : mode.Sound) :
    ReadsSound (scanner.read mode c) := by
  cases mode with
  | plain => exact readsSound_plain c
  | conversion nfmt => exact readsSound_conversion sound c
  | wide | narrow =>
    change ReadsSound (readPrefixed _ c)
    rw [readPrefixed]
    split
    · exact readsSound_token trivial
    · exact readsSound_mode trivial
  | six nfmt =>
    change ReadsSound (readSix nfmt c)
    rw [readSix]
    split
    · exact readsSound_mode trivial
    · exact readsSound_mode sound
  | four nfmt =>
    change ReadsSound (readFour nfmt c)
    rw [readFour]
    split
    · exact readsSound_mode trivial
    · exact readsSound_mode sound
  | type nfmt =>
    change ReadsSound (readType nfmt c)
    rw [readType]
    split
    · rename_i type
      refine readsSound_token ⟨sound, ?_⟩
      rcases type with rfl | rfl | rfl
      · exact ⟨.d, rfl⟩
      · exact ⟨.u, rfl⟩
      · exact ⟨.x, rfl⟩
    · obtain ⟨sound_plain, sound_next⟩ := readsSound_plain c
      exact ⟨List.forall_mem_cons.mpr ⟨⟨sound, .u, rfl⟩, sound_plain⟩, sound_next⟩

/-- The tokens of a format are in order. -/
theorem sound_tokens {fmt : List UInt16} {found : List Token}
    (scans : scanner.tokens .plain fmt = some found) : ∀ token ∈ found, token.Sound := by
  rw [← Scanner.scan_of_tokens scans]
  exact Scanner.scan_all readsSound_read (show Mode.plain.Sound from trivial) fmt

/-- The width of a token. -/
def Token.width : Token → Nat
  | .int32 nfmt _ | .int64 nfmt _ => number nfmt.tail
  | _ => 0

theorem Token.Sound.fits {token : Token} (sound : token.Sound) (supported : token ≠ .unsupported) :
    token.Fits := by
  cases token with
  | int32 nfmt c | int64 nfmt c =>
    obtain ⟨⟨digits, rfl, _, short⟩, _⟩ := sound
    exact Nat.succ_le_succ short
  | unsupported => exact supported rfl
  | _ => trivial

theorem Token.Sound.standard {token : Token} (sound : token.Sound) (small : token.width < 2 ^ 31) :
    token.Standard := by
  cases token with
  | int32 nfmt c =>
    obtain ⟨⟨digits, rfl, decimal, short⟩, letter, rfl⟩ := sound
    exact ⟨⟨digits, decimal, false, letter⟩, rfl, rfl, small⟩
  | int64 nfmt c =>
    obtain ⟨⟨digits, rfl, decimal, short⟩, letter, rfl⟩ := sound
    refine ⟨⟨digits, decimal, true, letter⟩, ?_, rfl, small⟩
    rw [List.append_assoc, List.append_assoc]
    rfl
  | _ => trivial

/-! ### Turns -/

/-- A turn of the loop behind the label `format_next`: what is left of the format, and what the
turns before have left. -/
inductive Turn (snprintf : Snprintf) : List UInt16 × State → List UInt16 × State → Prop
  | literal {c : UInt16} {fmt : List UInt16} {state : State} (going : state.count ≠ 0)
      (ordinary : c ≠ 0 ∧ c ≠ 0x25) :
      Turn snprintf (c :: fmt, state) (fmt, state.emit (emitWchar c) state.argv)
  | conversion {fmt rest : List UInt16} {state next : State} (going : state.count ≠ 0)
      (runs : switchNext snprintf state [0x25] fmt = .ok (rest, next)) :
      Turn snprintf (0x25 :: fmt, state) (rest, next)

/-- Between two places of a format one token has been performed, or nothing has been done. -/
def Performed (snprintf : Snprintf) (state next : State) (before behind : Option (List Token)) :
    Prop :=
  (before = behind ∧ next = state) ∨
    ∃ token, before = behind.map (token :: ·) ∧ perform snprintf state token = .ok next

section

variable {snprintf : Snprintf} {nfmt : List UInt8} {state next : State} {fmt rest : List UInt16}

/-- A character that completes a token which is performed. -/
theorem performed_token {mode : Mode} {c : UInt16} {token : Token}
    (reads : scanner.read mode c = ([token], some .plain))
    (runs : (do .ok (fmt, ← perform snprintf state token) : Converted) = .ok (rest, next)) :
    Performed snprintf state next (scanner.tokens mode (c :: fmt))
      (scanner.tokens .plain rest) := by
  obtain ⟨after, performs, same⟩ := bind_eq_ok.mp runs
  obtain ⟨rfl, rfl⟩ := Prod.mk.inj (Except.ok.inj same)
  exact .inr ⟨token, tokens_token reads fmt, performs⟩

theorem performed_prefixed {mode : Mode} {token : Token}
    (reads : scanner.read mode = readPrefixed token)
    (runs : prefixed (perform snprintf · token) state fmt = .ok (rest, next)) :
    Performed snprintf state next (scanner.tokens mode fmt) (scanner.tokens .plain rest) := by
  cases fmt with
  | nil => exact nomatch runs
  | cons c fmt =>
    rw [prefixed] at runs
    by_cases letter : c = 0x73
    · rw [if_pos letter] at runs
      exact performed_token ((congrFun reads c).trans (if_pos letter)) runs
    · rw [if_neg letter] at runs
      obtain ⟨rfl, rfl⟩ := Prod.mk.inj (Except.ok.inj runs)
      exact .inl ⟨Scanner.tokens_silent ((congrFun reads c).trans (if_neg letter)), rfl⟩

theorem performed_typed (runs : typed snprintf nfmt state fmt = .ok (rest, next)) :
    Performed snprintf state next (scanner.tokens (.type nfmt) fmt)
      (scanner.tokens .plain rest) := by
  cases fmt with
  | nil => exact nomatch runs
  | cons c fmt =>
    rw [typed] at runs
    by_cases type : c = 0x64 ∨ c = 0x75 ∨ c = 0x78
    · have reads : scanner.read (.type nfmt) c = ([.int64 nfmt c.toUInt8], some .plain) :=
        if_pos type
      rw [if_pos type] at runs
      exact performed_token reads runs
    · have reads : scanner.read (.type nfmt) c =
          (.int64 nfmt 0x75 :: (scanner.read .plain c).1, (scanner.read .plain c).2) :=
        if_neg type
      rw [if_neg type] at runs
      obtain ⟨after, performs, same⟩ := bind_eq_ok.mp runs
      obtain ⟨rfl, rfl⟩ := Prod.mk.inj (Except.ok.inj same)
      refine .inr ⟨.int64 nfmt 0x75, ?_, performs⟩
      rw [Scanner.tokens_cons, Scanner.tokens_cons, reads]
      dsimp only
      cases (scanner.read .plain c).2 with
      | none => rfl
      | some mode =>
        dsimp only
        rw [Option.map_map]
        rfl

theorem performed_sizedFour (runs : sizedFour snprintf nfmt state fmt = .ok (rest, next)) :
    Performed snprintf state next (scanner.tokens (.four nfmt) fmt)
      (scanner.tokens .plain rest) := by
  cases fmt with
  | nil => exact nomatch runs
  | cons c fmt =>
    rw [sizedFour] at runs
    by_cases other : c ≠ 0x34
    · rw [if_pos other] at runs
      obtain ⟨rfl, rfl⟩ := Prod.mk.inj (Except.ok.inj runs)
      exact .inl ⟨Scanner.tokens_silent (if_pos other), rfl⟩
    · have reads : scanner.read (.four nfmt) c = ([], some (.type nfmt)) := if_neg other
      rw [if_neg other] at runs
      rw [Scanner.tokens_silent reads]
      exact performed_typed runs

theorem performed_sizedSix (runs : sizedSix snprintf nfmt state fmt = .ok (rest, next)) :
    Performed snprintf state next (scanner.tokens (.six nfmt) fmt)
      (scanner.tokens .plain rest) := by
  cases fmt with
  | nil => exact nomatch runs
  | cons c fmt =>
    rw [sizedSix] at runs
    by_cases other : c ≠ 0x36
    · rw [if_pos other] at runs
      obtain ⟨rfl, rfl⟩ := Prod.mk.inj (Except.ok.inj runs)
      exact .inl ⟨Scanner.tokens_silent (if_pos other), rfl⟩
    · have reads : scanner.read (.six nfmt) c = ([], some (.four nfmt)) := if_neg other
      rw [if_neg other] at runs
      rw [Scanner.tokens_silent reads]
      exact performed_sizedFour runs

/-- The code behind `switch_next` performs one token or nothing. -/
theorem performed_switchNext (runs : switchNext snprintf state nfmt fmt = .ok (rest, next)) :
    Performed snprintf state next (scanner.tokens (.conversion nfmt) fmt)
      (scanner.tokens .plain rest) := by
  induction fmt generalizing nfmt with
  | nil => cases runs
  | cons c fmt inductionHypothesis =>
    have reads : scanner.read (.conversion nfmt) c = readConversion nfmt c := rfl
    rw [readConversion] at reads
    rw [switchNext] at runs
    by_cases character : c = 0x63
    · rw [if_pos character] at reads runs
      exact performed_token reads runs
    rw [if_neg character] at reads runs
    by_cases wide : c = 0x73
    · rw [if_pos wide] at reads runs
      exact performed_token reads runs
    rw [if_neg wide] at reads runs
    by_cases wide_prefix : c = 0x77 ∨ c = 0x57
    · have same : scanner.read .wide = readPrefixed .wstring := rfl
      rw [if_pos wide_prefix] at reads runs
      rw [Scanner.tokens_silent reads]
      exact performed_prefixed same runs
    rw [if_neg wide_prefix] at reads runs
    by_cases narrow_prefix : c = 0x68 ∨ c = 0x48
    · have same : scanner.read .narrow = readPrefixed .string := rfl
      rw [if_pos narrow_prefix] at reads runs
      rw [Scanner.tokens_silent reads]
      exact performed_prefixed same runs
    rw [if_neg narrow_prefix] at reads runs
    by_cases size : c = 0x49 ∨ c = 0x69
    · rw [if_pos size] at reads runs
      rw [Scanner.tokens_silent reads]
      exact performed_sizedSix runs
    rw [if_neg size] at reads runs
    by_cases type : c = 0x64 ∨ c = 0x75 ∨ c = 0x78 ∨ c = 0x58
    · rw [if_pos type] at reads runs
      exact performed_token reads runs
    rw [if_neg type] at reads runs
    by_cases width : 0x30 ≤ c ∧ c ≤ 0x39
    · rw [if_pos width] at reads runs
      by_cases long : sizeofNfmt - 6 ≤ nfmt.length
      · rw [if_pos long] at runs
        cases runs
      · rw [if_neg long] at reads runs
        have pushed : push nfmt c.toUInt8 = .ok (nfmt ++ [c.toUInt8]) :=
          push_ok (lt_of_not_ge fun full => long ((Nat.sub_le _ _).trans full)) c.toUInt8
        rw [pushed] at runs
        rw [Scanner.tokens_silent reads]
        exact inductionHypothesis runs
    · rw [if_neg width] at runs
      cases runs

/-- A turn performs one token or nothing. -/
theorem performed_turn (turn : Turn snprintf (fmt, state) (rest, next)) :
    Performed snprintf state next (scanner.tokens .plain fmt) (scanner.tokens .plain rest) := by
  cases turn with
  | literal going ordinary =>
    have reads : scanner.read .plain _ = ([.literal _], some .plain) :=
      (if_neg ordinary.1).trans (if_pos ordinary.2)
    exact .inr ⟨_, tokens_token reads _, rfl⟩
  | conversion going runs =>
    have reads : scanner.read .plain 0x25 = ([], some (.conversion [0x25])) := rfl
    rw [Scanner.tokens_silent reads]
    exact performed_switchNext runs

end

/-! ### Turns and pieces -/

/-- What is left of a format, with the arguments that are left, comes to some pieces. -/
def Standing (made : List Piece) (place : List UInt16 × State) : Prop :=
  ∃ found, scanner.tokens .plain place.1 = some found ∧
    (∀ token ∈ found, token.Fits ∧ token.Standard) ∧ pieces found place.2.argv = some made

/-- The count does not wrap when the lengths of pieces are taken off it. -/
def Lowering : List Piece → UInt64 → Prop
  | [], _ => True
  | piece :: others, count =>
    count ≠ 0 → count - .ofNat piece.text.length ≤ count ∧
      Lowering others (count - .ofNat piece.text.length)

section

variable {snprintf : Snprintf} {made : List Piece} {place next : List UInt16 × State}

theorem Standing.turn (follows : FollowsStandard snprintf) (standing : Standing made place)
    (turn : Turn snprintf place next) :
    (Standing made next ∧ next.2 = place.2) ∨
      ∃ piece others argv, made = piece :: others ∧ next.2 = place.2.append piece argv ∧
        Standing others next := by
  obtain ⟨found, scans, good, makes⟩ := standing
  rcases performed_turn turn with ⟨same, kept⟩ | ⟨token, same, performs⟩
  · rw [same] at scans
    rw [← kept] at makes
    exact .inl ⟨⟨found, scans, good, makes⟩, kept⟩
  · rw [same, Option.map_eq_some_iff] at scans
    obtain ⟨others, scans_others, rfl⟩ := scans
    obtain ⟨fits, standard⟩ := good token List.mem_cons_self
    obtain ⟨first, argv, rest, starts, continues, rfl⟩ := pieces_cons makes
    rw [perform_piece follows fits standard starts, Except.ok.injEq] at performs
    refine .inr ⟨first, rest, argv, rfl, performs.symm, others, scans_others, ?_, ?_⟩
    · exact fun other member => good other (List.mem_cons_of_mem _ member)
    · rw [← performs]
      exact continues

/-- A turn lowers the count where the pieces do, and leaves others that do. -/
theorem Lowering.turn (follows : FollowsStandard snprintf) (standing : Standing made place)
    (lowering : Lowering made place.2.count) (turn : Turn snprintf place next) :
    next.2.count ≤ place.2.count ∧
      ∃ others, Standing others next ∧ Lowering others next.2.count := by
  have going : place.2.count ≠ 0 := by
    cases turn with
    | literal going ordinary => exact going
    | conversion going runs => exact going
  rcases standing.turn follows turn with ⟨kept, same⟩ | ⟨piece, others, argv, rfl, same, left⟩
  · rw [same]
    exact ⟨UInt64.le_refl _, made, kept, lowering⟩
  · obtain ⟨lower, lowers⟩ := lowering going
    rw [same]
    exact ⟨lower, others, left, lowers⟩

/-- Pieces that lower the count lower it in every turn. -/
theorem Lowering.turns (follows : FollowsStandard snprintf) (standing : Standing made place)
    (lowering : Lowering made place.2.count)
    (turns : Relation.ReflTransGen (Turn snprintf) place next) :
    ∃ others, Standing others next ∧ Lowering others next.2.count := by
  induction turns with
  | refl => exact ⟨made, standing, lowering⟩
  | tail _ turn inductionHypothesis =>
    obtain ⟨others, stands, lowers⟩ := inductionHypothesis
    exact (lowers.turn follows stands turn).2

/-- As long as there are pieces left and the count is not used up, the loop goes on. -/
theorem Standing.exists_turn (follows : FollowsStandard snprintf) {piece : Piece}
    {others : List Piece} (standing : Standing (piece :: others) place)
    (going : place.2.count ≠ 0) :
    ∃ next, Turn snprintf place next ∧ next.1.length < place.1.length := by
  obtain ⟨fmt, state⟩ := place
  obtain ⟨found, scans, good, makes⟩ := standing
  obtain ⟨argv, carries⟩ := carryOut_pieces follows (fun token member => (good token member).1)
    (fun token member => (good token member).2) makes
  have ends : (scanner.scan .plain fmt).2 = none :=
    (Scanner.tokens_isSome _ _).mp (by rw [scans]; rfl)
  have runs : formatNext snprintf fmt state = carryOn snprintf .plain fmt state :=
    formatNext_eq fmt state
  rw [carryOn, ends, Scanner.scan_of_tokens scans, carries, formatNext.eq_def,
    if_neg going] at runs
  cases fmt with
  | nil => cases runs
  | cons c fmt =>
    have nonzero : c ≠ 0 := by
      rintro rfl
      rw [Scanner.tokens_end (show scanner.read .plain 0 = ([], none) from rfl)] at scans
      obtain rfl := Option.some.inj scans
      cases makes
    dsimp only at runs
    rw [if_neg nonzero] at runs
    by_cases ordinary : c ≠ 0x25
    · exact ⟨_, .literal going ⟨nonzero, ordinary⟩, Nat.lt_succ_self _⟩
    · obtain rfl := not_not.mp ordinary
      rw [if_neg ordinary] at runs
      split at runs
      · cases runs
      · rename_i rest next converts
        exact ⟨_, .conversion going converts, Nat.lt_succ_of_le (length_switchNext converts)⟩

/-- Pieces lower the count if every turn does. -/
theorem lowering_of_turns (follows : FollowsStandard snprintf) (standing : Standing made place)
    (lowers : ∀ before after, Relation.ReflTransGen (Turn snprintf) place before →
      Turn snprintf before after → after.2.count ≤ before.2.count) :
    Lowering made place.2.count := by
  induction length : place.1.length using Nat.strong_induction_on generalizing made place with
  | h _ inductionHypothesis =>
  subst length
  cases made with
  | nil => trivial
  | cons piece others =>
    intro going
    obtain ⟨next, turn, shorter⟩ := standing.exists_turn follows going
    have lower := lowers place next .refl turn
    have later (left : List Piece) (stands : Standing left next) :
        Lowering left next.2.count :=
      inductionHypothesis next.1.length shorter stands
        (fun before after turns => lowers before after (.head turn turns)) rfl
    rcases standing.turn follows turn with ⟨stands, same⟩ | ⟨_, left, argv, ⟨⟩, same, stands⟩
    · have kept := later _ stands
      rw [same] at kept
      exact kept going
    · have kept := later _ stands
      rw [same] at kept lower
      exact ⟨lower, kept⟩

end

/-! ### Lengths -/

/-- A piece is shorter than the counts that there are, or stored whole. -/
def Piece.Sized (piece : Piece) : Prop :=
  piece.text.length < 2 ^ 64 ∨ piece.text.length ≤ piece.room

theorem sized_number {size : Nat} {conversion : Conversion} {format : List UInt8} {value : Int}
    (same : conversion.format = format) (small : conversion.width < 2 ^ 31)
    (range : conversion.InRange value) : (numberPiece size format value).Sized := by
  have short := Conversion.length_magnitude range
  refine .inl ?_
  rw [← same, numberPiece, parse_format, List.length_map, Conversion.length_text]
  omega

theorem sized_piece {token : Token} (standard : token.Standard) {argv rest : List Argument}
    {made : Piece} (makes : piece token argv = some (made, rest)) : made.Sized := by
  match token, argv with
  | .literal c, _ =>
    obtain ⟨rfl, rfl⟩ := Prod.mk.inj (Option.some.inj makes)
    exact .inr le_rfl
  | .wchar, .word value :: _ =>
    obtain ⟨rfl, rfl⟩ := Prod.mk.inj (Option.some.inj makes)
    exact .inr le_rfl
  | .wstring, .wideString string :: _ =>
    obtain ⟨rfl, rfl⟩ := Prod.mk.inj (Option.some.inj makes)
    exact .inr le_rfl
  | .string, .narrowString string :: _ =>
    obtain ⟨rfl, rfl⟩ := Prod.mk.inj (Option.some.inj makes)
    exact .inr le_rfl
  | .int32 nfmt c, .word value :: _ =>
    obtain ⟨rfl, rfl⟩ := Prod.mk.inj (Option.some.inj makes)
    obtain ⟨conversion, same, short, small⟩ := standard
    exact sized_number same small (inRange_int32 short _)
  | .int64 nfmt c, .word value :: _ =>
    obtain ⟨rfl, rfl⟩ := Prod.mk.inj (Option.some.inj makes)
    obtain ⟨conversion, same, long, small⟩ := standard
    exact sized_number same small (inRange_int64 long _)

theorem sized_pieces {found : List Token} (standard : ∀ token ∈ found, token.Standard)
    {argv : List Argument} {made : List Piece} (makes : pieces found argv = some made) :
    ∀ piece ∈ made, piece.Sized := by
  induction found generalizing argv made with
  | nil =>
    obtain rfl := Option.some.inj makes
    exact fun piece member => absurd member List.not_mem_nil
  | cons token found inductionHypothesis =>
    obtain ⟨first, rest, others, starts, continues, rfl⟩ := pieces_cons makes
    refine List.forall_mem_cons.mpr ⟨sized_piece (standard token List.mem_cons_self) starts, ?_⟩
    exact inductionHypothesis (fun other member => standard other (List.mem_cons_of_mem _ member))
      continues

/-- More characters of a piece are counted than stored. -/
def Piece.Cut (piece : Piece) : Prop := piece.room < piece.text.length

theorem length_stored (piece : Piece) :
    piece.stored.length = min piece.room piece.text.length :=
  List.length_take

/-- The pieces end before the count does; or the pieces in front use it up, and there is room left
because the one or the other of them is counted with more characters than are stored. -/
def Ends (made : List Piece) (count slack limit : Nat) : Prop :=
  ∃ front back, made = front ++ back ∧ (front.flatMap Piece.stored).length < limit ∧
    (back = [] ∧ total front < count ∨
      total front = count ∧ (0 < slack ∨ ∃ piece ∈ front, piece.Cut))

theorem ends_zero (made : List Piece) (slack limit : Nat) :
    Ends made 0 slack limit ↔ 0 < slack ∧ 0 < limit := by
  constructor
  · rintro ⟨front, back, rfl, short, ⟨-, less⟩ | ⟨none, left⟩⟩
    · exact absurd less (Nat.not_lt_zero _)
    · refine ⟨left.resolve_right ?_, Nat.zero_lt_of_lt short⟩
      rintro ⟨piece, member, cut⟩
      have least : piece.text.length ≤ total front :=
        List.le_sum_of_mem (List.mem_map_of_mem member)
      rw [none] at least
      exact absurd (cut.trans_le least) (Nat.not_lt_zero _)
  · rintro ⟨left, positive⟩
    exact ⟨[], made, rfl, positive, .inr ⟨rfl, .inl left⟩⟩

theorem ends_nil (count slack limit : Nat) :
    Ends [] count slack limit ↔ 0 < count + slack ∧ 0 < limit := by
  constructor
  · rintro ⟨front, back, same, short, ends⟩
    obtain ⟨rfl, rfl⟩ := List.append_eq_nil_iff.mp same.symm
    refine ⟨?_, short⟩
    rcases ends with ⟨-, less⟩ | ⟨-, left | ⟨piece, member, -⟩⟩
    · exact less.trans_le (Nat.le_add_right _ _)
    · exact left.trans_le (Nat.le_add_left _ _)
    · exact absurd member List.not_mem_nil
  · rintro ⟨room, positive⟩
    refine ⟨[], [], rfl, positive, ?_⟩
    rcases Nat.eq_zero_or_pos count with rfl | less
    · exact .inr ⟨rfl, .inl ((Nat.zero_add slack).symm ▸ room)⟩
    · exact .inl ⟨rfl, less⟩

/-- The first piece is taken off the count; what is not stored of it is room that is left. -/
theorem ends_cons {count : Nat} (going : count ≠ 0) (piece : Piece) (others : List Piece)
    (slack limit : Nat) :
    Ends (piece :: others) count slack limit ↔
      piece.text.length ≤ count ∧
        Ends others (count - piece.text.length)
          (slack + (piece.text.length - piece.stored.length))
          (limit - piece.stored.length) := by
  have cut : 0 < piece.text.length - piece.stored.length ↔ piece.Cut := by
    rw [length_stored, Piece.Cut]
    omega
  constructor
  · rintro ⟨front, back, same, short, ends⟩
    cases front with
    | nil =>
      rcases ends with ⟨rfl, -⟩ | ⟨none, -⟩
      · exact nomatch same
      · exact absurd none.symm going
    | cons first front =>
      obtain ⟨rfl, rfl⟩ := List.cons.inj same
      rw [List.flatMap_cons, List.length_append] at short
      rw [total_cons] at ends
      refine ⟨by omega, front, back, rfl, by omega, ?_⟩
      rcases ends with ⟨last, less⟩ | ⟨used, left⟩
      · exact .inl ⟨last, by omega⟩
      · refine .inr ⟨by omega, ?_⟩
        rcases left with left | ⟨other, member, other_cut⟩
        · exact .inl (by omega)
        · rcases List.mem_cons.mp member with rfl | member
          · have := cut.mpr other_cut
            exact .inl (by omega)
          · exact .inr ⟨other, member, other_cut⟩
  · rintro ⟨room, front, back, rfl, short, ends⟩
    refine ⟨piece :: front, back, rfl, ?_, ?_⟩
    · rw [List.flatMap_cons, List.length_append]
      omega
    · rw [total_cons]
      rcases ends with ⟨last, less⟩ | ⟨used, left⟩
      · exact .inl ⟨last, by omega⟩
      · refine .inr ⟨by omega, ?_⟩
        rcases left with left | ⟨other, member, other_cut⟩
        · by_cases before : 0 < slack
          · exact .inl before
          · exact .inr ⟨piece, List.mem_cons_self, cut.mp (by omega)⟩
        · exact .inr ⟨other, List.mem_cons_of_mem _ member, other_cut⟩

/-- A length that is taken off a count wraps it just when it is larger. -/
theorem sub_ofNat_le_iff (count : UInt64) (length : Nat) :
    count - .ofNat length ≤ count ↔ length % 2 ^ 64 ≤ count.toNat := by
  have size := count.toNat_lt
  rw [UInt64.le_iff_toNat_le, UInt64.toNat_sub, UInt64.toNat_ofNat']
  omega

/-- What is stored of pieces that do not wrap the count stays within the count and the room that is
left by the pieces before, and within a limit, just when they end so. -/
theorem ends_iff {made : List Piece} (sized : ∀ piece ∈ made, piece.Sized) (count : UInt64)
    (slack : Nat) (bound : count.toNat + slack < 2 ^ 64) (limit : Nat) :
    Lowering made count ∧ (output made count).1.length < count.toNat + slack ∧
        (output made count).1.length < limit ↔
      Ends made count.toNat slack limit := by
  induction made generalizing count slack limit with
  | nil => exact (and_iff_right trivial).trans (ends_nil _ _ _).symm
  | cons piece others inductionHypothesis =>
    by_cases finished : count = 0
    · subst finished
      have lowers : Lowering (piece :: others) 0 := fun going => absurd rfl going
      rw [output_zero, and_iff_right lowers, UInt64.toNat_zero, Nat.zero_add]
      exact (ends_zero _ _ _).symm
    have positive : count.toNat ≠ 0 := fun zero => finished (UInt64.toNat_inj.mp zero)
    have size := count.toNat_lt
    have stored := length_stored piece
    rw [ends_cons positive, output_cons finished, List.length_append, Lowering,
      forall_prop_of_true finished, sub_ofNat_le_iff]
    by_cases room : piece.text.length ≤ count.toNat
    · have left : (count - .ofNat piece.text.length).toNat = count.toNat - piece.text.length := by
        rw [UInt64.toNat_sub, UInt64.toNat_ofNat']
        omega
      have rest := inductionHypothesis (fun other member => sized other (.tail _ member))
        (count - .ofNat piece.text.length)
        (slack + (piece.text.length - piece.stored.length)) (by omega)
        (limit - piece.stored.length)
      have lower : piece.text.length % 2 ^ 64 ≤ count.toNat := by omega
      rw [left] at rest
      rw [and_iff_right room, and_iff_right lower, ← rest]
      refine and_congr_right fun _ => and_congr ?_ ?_
      · omega
      · omega
    · refine iff_of_false ?_ fun ends => room ends.1
      rintro ⟨⟨lower, -⟩, short, -⟩
      rcases sized piece List.mem_cons_self with small | whole
      · omega
      · omega

/-! ### Calls -/

/-- The index of a store, which is an `int`. -/
def index (position : Nat) : Int := (Int32.ofNat position).toInt

/-- All stores of a call are inside a buffer. -/
def Inside (count : UInt64) (left : Formatted) : Prop :=
  ∀ position < left.stream.length, 0 ≤ index position ∧ index position < count.toNat

/-- `swprintf_s` and `_vsnwprintf` store inside the buffer, with the zero, and no turn of `__format`
wraps the count. -/
structure Contained (snprintf : Snprintf) (fmt : List UInt16) (count : UInt64)
    (argv : List Argument) : Prop where
  swprintfS : ∃ left, rplSwprintfS snprintf count fmt argv = .ok left ∧ Inside count left
  vsnwprintf : ∃ left, rplVsnwprintf snprintf count fmt argv = .ok left ∧ Inside count left
  lowers : ∀ before after,
    Relation.ReflTransGen (Turn snprintf) (fmt, { stream := [], count := count, argv := argv })
      before →
    Turn snprintf before after → after.2.count ≤ before.2.count

theorem inside_iff (count : UInt64) (left : Formatted) :
    Inside count left ↔ left.stream.length ≤ count.toNat ∧ left.stream.length ≤ 2 ^ 31 := by
  have same {position : Nat} (small : position < 2 ^ 31) : index position = position :=
    Int32.toInt_ofNat_of_lt small
  constructor
  · intro inside
    have small : left.stream.length ≤ 2 ^ 31 := by
      by_contra large
      exact absurd (inside (2 ^ 31) (Nat.lt_of_not_le large)).1 (by decide)
    refine ⟨?_, small⟩
    by_contra large
    have last := (inside (left.stream.length - 1) (by omega)).2
    rw [same (by omega)] at last
    omega
  · rintro ⟨room, small⟩ position less
    rw [same (by omega)]
    omega

/-- The pieces are shorter than the count together, or those in front use it up and one of them is a
number that is cut; and an `int` can tell how much is stored. -/
def Kept (made : List Piece) (count : Nat) : Prop :=
  ∃ front back, made = front ++ back ∧ (front.flatMap Piece.stored).length < 2 ^ 31 ∧
    (back = [] ∧ total front < count ∨ total front = count ∧ ∃ piece ∈ front, piece.Cut)

theorem ends_iff_kept (made : List Piece) (count : Nat) :
    Ends made count 0 (2 ^ 31) ↔ Kept made count := by
  simp only [Ends, Kept, Nat.lt_irrefl, false_or]

/-- The calls for a format that is supported stay in their buffer, without wrapping the count, just
when its pieces are shorter than the buffer, or some of them in front are as long as the buffer and
one of these is cut. -/
theorem calls_contained_iff {snprintf : Snprintf} (follows : FollowsStandard snprintf)
    {fmt : List UInt16} {found : List Token} (scans : scanner.tokens .plain fmt = some found)
    (supported : .unsupported ∉ found) (widths : ∀ token ∈ found, token.width < 2 ^ 31)
    {argv : List Argument} {made : List Piece} (makes : pieces found argv = some made)
    (count : UInt64) :
    Contained snprintf fmt count argv ↔ Kept made count.toNat := by
  have sound := sound_tokens scans
  have fits : ∀ token ∈ found, token.Fits := fun token member =>
    (sound token member).fits (ne_of_mem_of_not_mem member supported)
  have standard : ∀ token ∈ found, token.Standard := fun token member =>
    (sound token member).standard (widths token member)
  have runs := format_pieces follows scans fits standard makes count
  have standing : Standing made (fmt, { stream := [], count := count, argv := argv }) :=
    ⟨found, scans, fun token member => ⟨fits token member, standard token member⟩, makes⟩
  have inside : Inside count (formatted made count) ↔
      (output made count).1.length < count.toNat ∧ (output made count).1.length < 2 ^ 31 := by
    rw [inside_iff, formatted, List.length_append, List.length_singleton]
    rfl
  rw [← ends_iff_kept, ← ends_iff (sized_pieces standard makes) count 0 count.toNat_lt,
    Nat.add_zero, ← inside]
  constructor
  · intro contained
    obtain ⟨left, same, stays⟩ := contained.swprintfS
    obtain rfl := Except.ok.inj (runs.symm.trans same)
    exact ⟨lowering_of_turns follows standing contained.lowers, stays⟩
  · rintro ⟨lowering, stays⟩
    refine ⟨⟨_, runs, stays⟩, ⟨_, runs, stays⟩, fun before after turns turn => ?_⟩
    obtain ⟨others, stands, lowers⟩ := lowering.turns follows standing turns
    exact (lowers.turn follows stands turn).1

/-- `a` is one character. -/
theorem scans_character : scanner.tokens .plain [0x61, 0] = some [.literal 0x61] := rfl

theorem calls_contained_iff_character :
    Contained standard [0x61, 0] 2 [] ↔ Kept [.whole [0x61]] 2 :=
  calls_contained_iff standard_followsStandard scans_character (by simp) (by simp [Token.width])
    rfl 2

/-- One character and its zero are stored in a buffer of one. -/
theorem not_calls_contained :
    ¬ ∀ (snprintf : Snprintf) (fmt : List UInt16) (found : List Token) (argv : List Argument)
        (made : List Piece) (count : UInt64), FollowsStandard snprintf →
      scanner.tokens .plain fmt = some found → .unsupported ∉ found →
      (∀ token ∈ found, token.width < 2 ^ 31) → pieces found argv = some made → 1 ≤ count →
        Contained snprintf fmt count argv := by
  intro all
  have contained := all standard [0x61, 0] [.literal 0x61] [] [.whole [0x61]] 1
    standard_followsStandard scans_character (by simp) (by simp [Token.width]) rfl (by decide)
  obtain ⟨left, same, stays⟩ := contained.swprintfS
  have makes : pieces [.literal 0x61] [] = some [.whole [0x61]] := rfl
  have runs := format_pieces standard_followsStandard scans_character (by simp [Token.Fits])
    (by simp [Token.Standard]) makes 1
  obtain rfl := Except.ok.inj (runs.symm.trans same)
  exact absurd (stays 1 (by decide)).2 (by decide)

end Nloader.Format
