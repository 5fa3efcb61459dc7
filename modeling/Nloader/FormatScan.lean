/-
This file reads the formats of `__format` as the tokens that a scanner finds in them. While there is
something left to be counted a call performs the tokens one after the other; where it comes to the
end of a text in which the scan does not end, it reads beyond it.

A conversion takes the character behind `%w`, `%h`, `%I` and `%I6` whatever it is, and goes on
behind it. So a format, like a message of `RtlFormatMessage`, can hide its terminating NUL.
-/

import Nloader.Format
import Nloader.FormatTokens

namespace Nloader.Format

/-! ### The scanner -/

/-- What is done one after the other: a character is stored, or a conversion carried out. -/
inductive Token where
  | literal (c : UInt16)
  | wchar
  | wstring
  | string
  | int32 (nfmt : List UInt8) (c : UInt8)
  | int64 (nfmt : List UInt8) (c : UInt8)
  | unsupported

/-- Where the scan is: in ordinary text, in a conversion, or behind the characters `w`, `h`, `I`,
`I6` and `I64` of one. -/
inductive Mode where
  | plain
  | conversion (nfmt : List UInt8)
  | wide
  | narrow
  | six (nfmt : List UInt8)
  | four (nfmt : List UInt8)
  | type (nfmt : List UInt8)

def readPlain (c : UInt16) : List Token × Option Mode :=
  if c = 0 then ([], none)
  else if c ≠ 0x25 then ([.literal c], some .plain)
  else ([], some (.conversion [0x25]))

def readConversion (nfmt : List UInt8) (c : UInt16) : List Token × Option Mode :=
  if c = 0x63 then ([.wchar], some .plain)
  else if c = 0x73 then ([.wstring], some .plain)
  else if c = 0x77 ∨ c = 0x57 then ([], some .wide)
  else if c = 0x68 ∨ c = 0x48 then ([], some .narrow)
  else if c = 0x49 ∨ c = 0x69 then ([], some (.six nfmt))
  else if c = 0x64 ∨ c = 0x75 ∨ c = 0x78 ∨ c = 0x58 then
    ([.int32 nfmt c.toUInt8], some .plain)
  else if 0x30 ≤ c ∧ c ≤ 0x39 then
    if sizeofNfmt - 6 ≤ nfmt.length then ([.unsupported], none)
    else ([], some (.conversion (nfmt ++ [c.toUInt8])))
  else ([.unsupported], none)

def readPrefixed (token : Token) (c : UInt16) : List Token × Option Mode :=
  if c = 0x73 then ([token], some .plain) else ([], some .plain)

def readSix (nfmt : List UInt8) (c : UInt16) : List Token × Option Mode :=
  if c ≠ 0x36 then ([], some .plain) else ([], some (.four nfmt))

def readFour (nfmt : List UInt8) (c : UInt16) : List Token × Option Mode :=
  if c ≠ 0x34 then ([], some .plain) else ([], some (.type nfmt))

def readType (nfmt : List UInt8) (c : UInt16) : List Token × Option Mode :=
  if c = 0x64 ∨ c = 0x75 ∨ c = 0x78 then ([.int64 nfmt c.toUInt8], some .plain)
  else (.int64 nfmt 0x75 :: (readPlain c).1, (readPlain c).2)

/-- The scanner of formats. -/
def scanner : Scanner Mode UInt16 Token where
  read
    | .plain => readPlain
    | .conversion nfmt => readConversion nfmt
    | .wide => readPrefixed .wstring
    | .narrow => readPrefixed .string
    | .six nfmt => readSix nfmt
    | .four nfmt => readFour nfmt
    | .type nfmt => readType nfmt

/-! ### Tokens are performed -/

/-- A token is carried out. -/
def perform (snprintf : Snprintf) (state : State) : Token → Except Stop State
  | .literal c => .ok (state.emit (emitWchar c) state.argv)
  | .wchar => convertWchar state
  | .wstring => convertWstring state
  | .string => convertString state
  | .int32 nfmt c => convertInt32 snprintf nfmt c state
  | .int64 nfmt c => convertInt64 snprintf nfmt c state
  | .unsupported => .error .abort

/-- The tokens and the end of a scan are carried out: as long as something is left to be counted the
tokens are performed, and a text without an end is read beyond. -/
def carryOut (snprintf : Snprintf) (behind : Option Mode) : List Token → State → Except Stop State
  | [], state => if state.count = 0 ∨ behind.isNone then .ok state else .error .overread
  | token :: found, state =>
    if state.count = 0 then .ok state
    else (perform snprintf state token).bind (carryOut snprintf behind found)

section

variable {snprintf : Snprintf} {state : State}

theorem carryOut_zero (finished : state.count = 0) (behind : Option Mode) (found : List Token) :
    carryOut snprintf behind found state = .ok state := by
  cases found with
  | nil => exact if_pos (.inl finished)
  | cons token found => exact if_pos finished

theorem carryOut_cons (going : state.count ≠ 0) (behind : Option Mode) (token : Token)
    (found : List Token) :
    carryOut snprintf behind (token :: found) state =
      (perform snprintf state token).bind (carryOut snprintf behind found) :=
  if_neg going

/-- The rest of a format is scanned and carried out. -/
def carryOn (snprintf : Snprintf) (mode : Mode) (fmt : List UInt16) (state : State) :
    Except Stop State :=
  carryOut snprintf (scanner.scan mode fmt).2 (scanner.scan mode fmt).1 state

theorem carryOn_nil (going : state.count ≠ 0) (mode : Mode) :
    carryOn snprintf mode [] state = .error .overread :=
  if_neg (not_or.mpr ⟨going, Bool.false_ne_true⟩)

section

variable {mode next : Mode} {c : UInt16} {fmt : List UInt16} {token : Token}

theorem carryOn_silent (reads : scanner.read mode c = ([], some next)) :
    carryOn snprintf mode (c :: fmt) state = carryOn snprintf next fmt state := by
  rw [carryOn, Scanner.scan_silent reads, carryOn]

theorem carryOn_token (going : state.count ≠ 0)
    (reads : scanner.read mode c = ([token], some next)) :
    carryOn snprintf mode (c :: fmt) state =
      (perform snprintf state token).bind (carryOn snprintf next fmt) := by
  rw [carryOn, Scanner.scan_next reads, List.singleton_append, carryOut_cons going]
  rfl

theorem carryOn_unsupported (going : state.count ≠ 0)
    (reads : scanner.read mode c = ([.unsupported], none)) :
    carryOn snprintf mode (c :: fmt) state = .error .abort := by
  rw [carryOn, Scanner.scan_end reads, carryOut_cons going]
  rfl

/-- A token that a character gives before it is read itself. -/
theorem carryOn_peek (going : state.count ≠ 0)
    (reads : scanner.read mode c =
      (token :: (scanner.read next c).1, (scanner.read next c).2)) :
    carryOn snprintf mode (c :: fmt) state =
      (perform snprintf state token).bind (carryOn snprintf next (c :: fmt)) := by
  have scans : scanner.scan mode (c :: fmt) =
      (token :: (scanner.scan next (c :: fmt)).1, (scanner.scan next (c :: fmt)).2) := by
    rw [Scanner.scan, Scanner.scan, reads]
    dsimp only
    cases (scanner.read next c).2 <;> rfl
  rw [carryOn, scans, carryOut_cons going]
  rfl

end

/-! ### The function carries out its format -/

/-- What comes behind a conversion. -/
def follow (snprintf : Snprintf) (converted : Converted) : Except Stop State :=
  converted.bind fun behind => formatNext snprintf behind.1 behind.2

/-- The function carries out all formats up to a length. -/
def CarriesOut (snprintf : Snprintf) (length : Nat) : Prop :=
  ∀ fmt : List UInt16, fmt.length ≤ length → ∀ state : State,
    formatNext snprintf fmt state = carryOn snprintf .plain fmt state

section

variable {nfmt : List UInt8} {fmt : List UInt16}

theorem follow_converted (others : CarriesOut snprintf fmt.length) (token : Token) :
    follow snprintf (do .ok (fmt, ← perform snprintf state token)) =
      (perform snprintf state token).bind (carryOn snprintf .plain fmt) := by
  cases perform snprintf state token with
  | error stop => rfl
  | ok next => exact others fmt le_rfl next

theorem follow_prefixed (going : state.count ≠ 0) (others : CarriesOut snprintf fmt.length)
    {mode : Mode} {token : Token} (reads : scanner.read mode = readPrefixed token) :
    follow snprintf (prefixed (perform snprintf · token) state fmt) =
      carryOn snprintf mode fmt state := by
  cases fmt with
  | nil => exact (carryOn_nil going mode).symm
  | cons c fmt =>
    have shorter : CarriesOut snprintf fmt.length :=
      fun rest less => others rest (less.trans (Nat.le_succ _))
    rw [prefixed]
    by_cases letter : c = 0x73
    · rw [if_pos letter, follow_converted shorter token]
      exact (carryOn_token going ((congrFun reads c).trans (if_pos letter))).symm
    · rw [if_neg letter, carryOn_silent ((congrFun reads c).trans (if_neg letter))]
      exact shorter fmt le_rfl state

theorem follow_typed (going : state.count ≠ 0) (others : CarriesOut snprintf fmt.length) :
    follow snprintf (typed snprintf nfmt state fmt) = carryOn snprintf (.type nfmt) fmt state := by
  cases fmt with
  | nil => exact (carryOn_nil going (.type nfmt)).symm
  | cons c fmt =>
    rw [typed]
    by_cases type : c = 0x64 ∨ c = 0x75 ∨ c = 0x78
    · have shorter : CarriesOut snprintf fmt.length :=
        fun rest less => others rest (less.trans (Nat.le_succ _))
      have reads : scanner.read (.type nfmt) c = ([.int64 nfmt c.toUInt8], some .plain) :=
        if_pos type
      rw [if_pos type, carryOn_token going reads]
      exact follow_converted shorter (.int64 nfmt c.toUInt8)
    · have reads : scanner.read (.type nfmt) c =
          (.int64 nfmt 0x75 :: (scanner.read .plain c).1, (scanner.read .plain c).2) :=
        if_neg type
      rw [if_neg type, carryOn_peek going reads]
      exact follow_converted others (.int64 nfmt 0x75)

theorem follow_sizedFour (going : state.count ≠ 0) (others : CarriesOut snprintf fmt.length) :
    follow snprintf (sizedFour snprintf nfmt state fmt) =
      carryOn snprintf (.four nfmt) fmt state := by
  cases fmt with
  | nil => exact (carryOn_nil going (.four nfmt)).symm
  | cons c fmt =>
    have shorter : CarriesOut snprintf fmt.length :=
      fun rest less => others rest (less.trans (Nat.le_succ _))
    rw [sizedFour]
    by_cases other : c ≠ 0x34
    · have reads : scanner.read (.four nfmt) c = ([], some .plain) := if_pos other
      rw [if_pos other, carryOn_silent reads]
      exact shorter fmt le_rfl state
    · have reads : scanner.read (.four nfmt) c = ([], some (.type nfmt)) := if_neg other
      rw [if_neg other, carryOn_silent reads]
      exact follow_typed going shorter

theorem follow_sizedSix (going : state.count ≠ 0) (others : CarriesOut snprintf fmt.length) :
    follow snprintf (sizedSix snprintf nfmt state fmt) =
      carryOn snprintf (.six nfmt) fmt state := by
  cases fmt with
  | nil => exact (carryOn_nil going (.six nfmt)).symm
  | cons c fmt =>
    have shorter : CarriesOut snprintf fmt.length :=
      fun rest less => others rest (less.trans (Nat.le_succ _))
    rw [sizedSix]
    by_cases other : c ≠ 0x36
    · have reads : scanner.read (.six nfmt) c = ([], some .plain) := if_pos other
      rw [if_pos other, carryOn_silent reads]
      exact shorter fmt le_rfl state
    · have reads : scanner.read (.six nfmt) c = ([], some (.four nfmt)) := if_neg other
      rw [if_neg other, carryOn_silent reads]
      exact follow_sizedFour going shorter

theorem follow_switchNext (going : state.count ≠ 0) (others : CarriesOut snprintf fmt.length) :
    follow snprintf (switchNext snprintf state nfmt fmt) =
      carryOn snprintf (.conversion nfmt) fmt state := by
  induction fmt generalizing nfmt with
  | nil => exact (carryOn_nil going (.conversion nfmt)).symm
  | cons c fmt inductionHypothesis =>
    have shorter : CarriesOut snprintf fmt.length :=
      fun rest less => others rest (less.trans (Nat.le_succ _))
    have reads : scanner.read (.conversion nfmt) c = readConversion nfmt c := rfl
    rw [readConversion] at reads
    rw [switchNext]
    by_cases character : c = 0x63
    · rw [if_pos character] at reads ⊢
      rw [carryOn_token going reads]
      exact follow_converted shorter .wchar
    rw [if_neg character] at reads ⊢
    by_cases wide : c = 0x73
    · rw [if_pos wide] at reads ⊢
      rw [carryOn_token going reads]
      exact follow_converted shorter .wstring
    rw [if_neg wide] at reads ⊢
    by_cases wide_prefix : c = 0x77 ∨ c = 0x57
    · have same : scanner.read .wide = readPrefixed .wstring := rfl
      rw [if_pos wide_prefix] at reads ⊢
      rw [carryOn_silent reads]
      exact follow_prefixed going shorter same
    rw [if_neg wide_prefix] at reads ⊢
    by_cases narrow_prefix : c = 0x68 ∨ c = 0x48
    · have same : scanner.read .narrow = readPrefixed .string := rfl
      rw [if_pos narrow_prefix] at reads ⊢
      rw [carryOn_silent reads]
      exact follow_prefixed going shorter same
    rw [if_neg narrow_prefix] at reads ⊢
    by_cases size : c = 0x49 ∨ c = 0x69
    · rw [if_pos size] at reads ⊢
      rw [carryOn_silent reads]
      exact follow_sizedSix going shorter
    rw [if_neg size] at reads ⊢
    by_cases type : c = 0x64 ∨ c = 0x75 ∨ c = 0x78 ∨ c = 0x58
    · rw [if_pos type] at reads ⊢
      rw [carryOn_token going reads]
      exact follow_converted shorter (.int32 nfmt c.toUInt8)
    rw [if_neg type] at reads ⊢
    by_cases width : 0x30 ≤ c ∧ c ≤ 0x39
    · rw [if_pos width] at reads ⊢
      by_cases long : sizeofNfmt - 6 ≤ nfmt.length
      · rw [if_pos long] at reads ⊢
        rw [carryOn_unsupported going reads]
        rfl
      · rw [if_neg long] at reads ⊢
        have pushed : push nfmt c.toUInt8 = .ok (nfmt ++ [c.toUInt8]) :=
          if_pos (lt_of_not_ge fun full => long ((Nat.sub_le _ _).trans full))
        rw [carryOn_silent reads, pushed]
        exact inductionHypothesis shorter
    · rw [if_neg width] at reads ⊢
      rw [carryOn_unsupported going reads]
      rfl

end

/-- The function carries out the scan of its format. -/
theorem formatNext_eq (fmt : List UInt16) (state : State) :
    formatNext snprintf fmt state = carryOn snprintf .plain fmt state := by
  induction length : fmt.length using Nat.strong_induction_on generalizing fmt state with
  | h _ inductionHypothesis =>
  subst length
  rw [formatNext.eq_def]
  by_cases finished : state.count = 0
  · rw [if_pos finished]
    exact (carryOut_zero finished _ _).symm
  rw [if_neg finished]
  cases fmt with
  | nil => exact (carryOn_nil finished .plain).symm
  | cons c fmt =>
    have others : CarriesOut snprintf fmt.length := fun rest shorter next =>
      inductionHypothesis rest.length (Nat.lt_succ_of_le shorter) rest next rfl
    have reads : scanner.read .plain c = readPlain c := rfl
    rw [readPlain] at reads
    dsimp only
    by_cases final : c = 0
    · rw [if_pos final] at reads ⊢
      rw [carryOn, Scanner.scan_end reads]
      exact (if_pos (.inr rfl)).symm
    rw [if_neg final] at reads ⊢
    by_cases literal : c ≠ 0x25
    · rw [if_pos literal] at reads ⊢
      rw [carryOn_token finished reads]
      exact others fmt le_rfl _
    · rw [if_neg literal] at reads ⊢
      rw [carryOn_silent reads, ← follow_switchNext finished others]
      split
      · rename_i stop runs
        rw [runs]
        rfl
      · rename_i rest next runs
        rw [runs]
        rfl

end

/-! ### The terminating NUL -/

/-- The characters before the NUL of a string that fits into memory. -/
structure WideString where
  characters : List UInt16
  nonzero : 0 ∉ characters
  addressable : 2 * (characters.length + 1) ≤ 2 ^ 64

/-- What can be read of a string. -/
def WideString.memory (string : WideString) : List UInt16 := string.characters ++ [0]

/-- The functions read nothing behind the NUL of a format, whatever the arguments are and however
much is to be counted. -/
structure FormatsInside (snprintf : Snprintf) (string : WideString) : Prop where
  swprintf : ∀ argv, rplSwprintf snprintf string.memory argv ≠ .error .overread
  vsnwprintf : ∀ count argv, rplVsnwprintf snprintf count string.memory argv ≠ .error .overread
  swprintfS : ∀ sizeOfBuffer argv,
    rplSwprintfS snprintf sizeOfBuffer string.memory argv ≠ .error .overread

/-- The next character is taken whatever it is. -/
def Mode.Dangling : Mode → Prop
  | .wide | .narrow | .six _ | .four _ => True
  | _ => False

/-- The format ends directly behind `%w`, `%h`, `%I` or `%I6`. -/
def EndsDangling (string : WideString) : Prop :=
  ∃ mode, scanner.after .plain string.characters = some mode ∧ mode.Dangling

theorem read_nul (mode : Mode) :
    (scanner.read mode 0).2 = none ∧ ¬ mode.Dangling ∨
      scanner.read mode 0 = ([], some .plain) ∧ mode.Dangling := by
  cases mode with
  | plain => exact .inl ⟨rfl, id⟩
  | conversion nfmt => exact .inl ⟨rfl, id⟩
  | wide => exact .inr ⟨rfl, trivial⟩
  | narrow => exact .inr ⟨rfl, trivial⟩
  | six nfmt => exact .inr ⟨rfl, trivial⟩
  | four nfmt => exact .inr ⟨rfl, trivial⟩
  | type nfmt => exact .inl ⟨rfl, id⟩

/-- A computation that reads nothing of the format. -/
def Blind {α : Type} (computation : Except Stop α) : Prop := computation ≠ .error .overread

theorem blind_ok {α : Type} (value : α) : Blind (.ok value) := fun same => nomatch same

theorem blind_bind {α β : Type} {first : Except Stop α} {second : α → Except Stop β}
    (blind_first : Blind first) (blind_second : ∀ value, Blind (second value)) :
    Blind (first >>= second) := by
  cases first with
  | error stop => exact fun same => blind_first (congrArg _ (Except.error.inj same))
  | ok value => exact blind_second value

theorem blind_nextWord (argv : List Argument) : Blind (nextWord argv) := by
  match argv with
  | [] | .wideString _ :: _ | .narrowString _ :: _ => exact fun same => nomatch same
  | .word value :: argv => exact blind_ok (value, argv)

theorem blind_nextWideString (argv : List Argument) : Blind (nextWideString argv) := by
  match argv with
  | [] | .word _ :: _ | .narrowString _ :: _ => exact fun same => nomatch same
  | .wideString string :: argv => exact blind_ok (string, argv)

theorem blind_nextNarrowString (argv : List Argument) : Blind (nextNarrowString argv) := by
  match argv with
  | [] | .word _ :: _ | .wideString _ :: _ => exact fun same => nomatch same
  | .narrowString string :: argv => exact blind_ok (string, argv)

theorem blind_push (nfmt : List UInt8) (c : UInt8) : Blind (push nfmt c) := by
  rw [push]
  split
  · exact blind_ok _
  · exact fun same => nomatch same

theorem blind_terminate (nfmt : List UInt8) : Blind (terminate nfmt) := by
  rw [terminate]
  split
  · exact blind_ok _
  · exact fun same => nomatch same

theorem blind_perform (snprintf : Snprintf) (state : State) (token : Token) :
    Blind (perform snprintf state token) := by
  cases token with
  | literal c => exact blind_ok _
  | wchar => exact blind_bind (blind_nextWord _) fun _ => blind_ok _
  | wstring => exact blind_bind (blind_nextWideString _) fun _ => blind_ok _
  | string => exact blind_bind (blind_nextNarrowString _) fun _ => blind_ok _
  | int32 nfmt c =>
    exact blind_bind (blind_push nfmt c) fun _ => blind_bind (blind_terminate _) fun _ =>
      blind_bind (blind_nextWord _) fun _ => blind_ok _
  | int64 nfmt c =>
    exact blind_bind (blind_push nfmt _) fun _ => blind_bind (blind_push _ _) fun _ =>
      blind_bind (blind_push _ c) fun _ => blind_bind (blind_terminate _) fun _ =>
        blind_bind (blind_nextWord _) fun _ => blind_ok _
  | unsupported => exact fun same => nomatch same

/-- A scan that has come to its end has nothing behind it to be read. -/
theorem blind_carryOut (snprintf : Snprintf) (found : List Token) (state : State) :
    Blind (carryOut snprintf none found state) := by
  induction found generalizing state with
  | nil =>
    rw [carryOut, if_pos (.inr rfl)]
    exact blind_ok state
  | cons token found inductionHypothesis =>
    rw [carryOut]
    split
    · exact blind_ok state
    · exact blind_bind (blind_perform snprintf state token) inductionHypothesis

/-! ### A count that is not used up -/

/-- What a token takes off the count, for an argument that is zero or the empty string. -/
def cost (snprintf : Snprintf) : Token → UInt64
  | .literal _ | .wchar => 1
  | .wstring | .string | .unsupported => 0
  | .int32 nfmt c => .ofInt (snprintf 32 (nfmt ++ [c]) 0).1
  | .int64 nfmt c => .ofInt (snprintf 64 (nfmt ++ [0x6c] ++ [0x6c] ++ [c]) 0).1

/-- Arguments for some tokens that are zero or the empty string. -/
def blanks : List Token → List Argument
  | [] => []
  | .literal _ :: found | .unsupported :: found => blanks found
  | .wchar :: found | .int32 _ _ :: found | .int64 _ _ :: found => .word 0 :: blanks found
  | .wstring :: found => .wideString (some []) :: blanks found
  | .string :: found => .narrowString (some []) :: blanks found

/-- The counts that are used up by some tokens. -/
def usedUp (snprintf : Snprintf) : List Token → List UInt64
  | [] => [0]
  | token :: found => 0 :: (usedUp snprintf found).map (· + cost snprintf token)

/-- A token that can be performed: its characters have room in `nfmt`. -/
def Token.Fits : Token → Prop
  | .int32 nfmt _ | .int64 nfmt _ => nfmt.length ≤ sizeofNfmt - 6
  | .unsupported => False
  | _ => True

theorem push_ok {nfmt : List UInt8} (room : nfmt.length < sizeofNfmt) (c : UInt8) :
    push nfmt c = .ok (nfmt ++ [c]) :=
  if_pos room

theorem terminate_ok {nfmt : List UInt8} (room : nfmt.length < sizeofNfmt) :
    terminate nfmt = .ok nfmt :=
  if_pos room

section

variable {snprintf : Snprintf} {nfmt : List UInt8} {state : State} {value : UInt64}
  {argv : List Argument}

theorem convertInt32_ok (room : nfmt.length ≤ sizeofNfmt - 6) (c : UInt8)
    (word : state.argv = .word value :: argv) :
    convertInt32 snprintf nfmt c state =
      .ok (state.emit (emitInt32 snprintf value.toUInt32.toInt32.toInt (nfmt ++ [c])) argv) := by
  have small : nfmt.length ≤ 26 := room
  have pushed : push nfmt c = .ok (nfmt ++ [c]) :=
    push_ok (show nfmt.length < 32 by omega) c
  have terminated : terminate (nfmt ++ [c]) = .ok (nfmt ++ [c]) :=
    terminate_ok (show (nfmt ++ [c]).length < 32 by
      rw [List.length_append, List.length_singleton]
      omega)
  simp only [convertInt32, pushed, terminated, word, nextWord, bind, Except.bind]

theorem convertInt64_ok (room : nfmt.length ≤ sizeofNfmt - 6) (c : UInt8)
    (word : state.argv = .word value :: argv) :
    convertInt64 snprintf nfmt c state =
      .ok (state.emit (emitInt64 snprintf value.toInt64.toInt
        (nfmt ++ [0x6c] ++ [0x6c] ++ [c])) argv) := by
  have small : nfmt.length ≤ 26 := room
  have longer (characters : List UInt8) (c : UInt8) :
      (characters ++ [c]).length = characters.length + 1 := List.length_append
  have first : push nfmt 0x6c = .ok (nfmt ++ [0x6c]) :=
    push_ok (show nfmt.length < 32 by omega) 0x6c
  have second : push (nfmt ++ [0x6c]) 0x6c = .ok (nfmt ++ [0x6c] ++ [0x6c]) :=
    push_ok (show (nfmt ++ [0x6c]).length < 32 by rw [longer]; omega) 0x6c
  have third : push (nfmt ++ [0x6c] ++ [0x6c]) c = .ok (nfmt ++ [0x6c] ++ [0x6c] ++ [c]) :=
    push_ok (show (nfmt ++ [0x6c] ++ [0x6c]).length < 32 by rw [longer, longer]; omega) c
  have terminated : terminate (nfmt ++ [0x6c] ++ [0x6c] ++ [c]) =
      .ok (nfmt ++ [0x6c] ++ [0x6c] ++ [c]) :=
    terminate_ok (show (nfmt ++ [0x6c] ++ [0x6c] ++ [c]).length < 32 by
      rw [longer, longer, longer]
      omega)
  simp only [convertInt64, first, second, third, terminated, word, nextWord, bind, Except.bind]

end

/-- A token is performed at its cost. -/
theorem perform_blank {snprintf : Snprintf} {token : Token} (fits : token.Fits)
    (found : List Token) {state : State} (argv : state.argv = blanks (token :: found)) :
    ∃ next, perform snprintf state token = .ok next ∧ next.argv = blanks found ∧
      next.count = state.count - cost snprintf token := by
  cases token with
  | literal c => exact ⟨_, rfl, argv, rfl⟩
  | wchar => exact ⟨_, by rw [perform, convertWchar, argv]; rfl, rfl, rfl⟩
  | wstring => exact ⟨_, by rw [perform, convertWstring, argv]; rfl, rfl, rfl⟩
  | string => exact ⟨_, by rw [perform, convertString, argv]; rfl, rfl, rfl⟩
  | int32 nfmt c => exact ⟨_, convertInt32_ok fits c argv, rfl, rfl⟩
  | int64 nfmt c => exact ⟨_, convertInt64_ok fits c argv, rfl, rfl⟩
  | unsupported => exact fits.elim

/-- A text without an end is read beyond if the count is not used up before. -/
theorem carryOut_overread {snprintf : Snprintf} {found : List Token} {mode : Mode}
    (fits : ∀ token ∈ found, token.Fits) {state : State} (argv : state.argv = blanks found)
    (left : state.count ∉ usedUp snprintf found) :
    carryOut snprintf (some mode) found state = .error .overread := by
  induction found generalizing state with
  | nil =>
    have going : state.count ≠ 0 := fun finished => left (List.mem_singleton.mpr finished)
    exact if_neg (not_or.mpr ⟨going, Bool.false_ne_true⟩)
  | cons token found inductionHypothesis =>
    rw [usedUp, List.mem_cons, not_or] at left
    obtain ⟨next, performed, others, count⟩ :=
      perform_blank (fits token List.mem_cons_self) found argv
    rw [carryOut_cons left.1, performed]
    refine inductionHypothesis (fun other member => fits other (List.mem_cons_of_mem _ member))
      others fun used => left.2 ?_
    rw [count] at used
    exact List.mem_map.mpr ⟨_, used, UInt64.sub_add_cancel _ _⟩

theorem length_usedUp (snprintf : Snprintf) (found : List Token) :
    (usedUp snprintf found).length = found.length + 1 := by
  induction found with
  | nil => rfl
  | cons token found inductionHypothesis =>
    rw [usedUp, List.length_cons, List.length_map, inductionHypothesis, List.length_cons]

/-- A list that is shorter than the number of all counts lacks one. -/
theorem exists_count (counts : List UInt64) (short : counts.length < 2 ^ 64) :
    ∃ count, count ∉ counts := by
  have less : (counts.map UInt64.toNat).toFinset.card < (Finset.range (2 ^ 64)).card := by
    rw [Finset.card_range]
    exact (List.toFinset_card_le _).trans_lt (by rwa [List.length_map])
  obtain ⟨number, small, missing⟩ := Finset.exists_mem_notMem_of_card_lt_card less
  refine ⟨.ofNat number, fun member => missing ?_⟩
  rw [List.mem_toFinset]
  refine List.mem_map.mpr ⟨_, member, ?_⟩
  exact UInt64.toNat_ofNat_of_lt' (Finset.mem_range.mp small)

/-! ### What the scanner gives -/

/-- The characters of a conversion have room in `nfmt`. -/
def Mode.Fits : Mode → Prop
  | .conversion nfmt | .six nfmt | .four nfmt | .type nfmt => nfmt.length ≤ sizeofNfmt - 6
  | _ => True

/-- What is read fits, if the scan goes on. -/
def ReadsFit (read : List Token × Option Mode) : Prop :=
  ∀ next, read.2 = some next → next.Fits ∧ ∀ token ∈ read.1, token.Fits

theorem readsFit_mode {next : Mode} (fits : next.Fits) : ReadsFit ([], some next) := by
  rintro _ ⟨⟩
  exact ⟨fits, fun token member => absurd member List.not_mem_nil⟩

theorem readsFit_token {token : Token} (fits : token.Fits) :
    ReadsFit ([token], some .plain) := by
  rintro _ ⟨⟩
  refine ⟨trivial, fun other member => ?_⟩
  rw [List.mem_singleton.mp member]
  exact fits

theorem readsFit_plain (c : UInt16) : ReadsFit (readPlain c) := by
  rw [readPlain]
  split
  · exact fun _ same => nomatch same
  split
  · exact readsFit_token trivial
  · exact readsFit_mode (by decide : [(0x25 : UInt8)].length ≤ sizeofNfmt - 6)

theorem readsFit_conversion {nfmt : List UInt8} (fits : nfmt.length ≤ sizeofNfmt - 6)
    (c : UInt16) : ReadsFit (readConversion nfmt c) := by
  rw [readConversion]
  split
  · exact readsFit_token trivial
  split
  · exact readsFit_token trivial
  split
  · exact readsFit_mode trivial
  split
  · exact readsFit_mode trivial
  split
  · exact readsFit_mode fits
  split
  · exact readsFit_token fits
  split
  · split
    · exact fun _ same => nomatch same
    · rename_i short
      refine readsFit_mode (show (nfmt ++ [c.toUInt8]).length ≤ sizeofNfmt - 6 from ?_)
      rw [List.length_append, List.length_singleton]
      exact Nat.lt_of_not_le short
  · exact fun _ same => nomatch same

theorem readsFit_read {mode : Mode} (fits : mode.Fits) (c : UInt16) :
    ReadsFit (scanner.read mode c) := by
  cases mode with
  | plain => exact readsFit_plain c
  | conversion nfmt => exact readsFit_conversion fits c
  | wide | narrow =>
    change ReadsFit (readPrefixed _ c)
    rw [readPrefixed]
    split
    · exact readsFit_token trivial
    · exact readsFit_mode trivial
  | six nfmt =>
    change ReadsFit (readSix nfmt c)
    rw [readSix]
    split
    · exact readsFit_mode trivial
    · exact readsFit_mode fits
  | four nfmt =>
    change ReadsFit (readFour nfmt c)
    rw [readFour]
    split
    · exact readsFit_mode trivial
    · exact readsFit_mode fits
  | type nfmt =>
    change ReadsFit (readType nfmt c)
    rw [readType]
    split
    · exact readsFit_token fits
    · intro next same
      obtain ⟨fits_next, others⟩ := readsFit_plain c next same
      refine ⟨fits_next, fun token member => ?_⟩
      rcases List.mem_cons.mp member with rfl | member
      · exact fits
      · exact others token member

theorem length_readPlain (c : UInt16) : (readPlain c).1.length ≤ 1 := by
  rw [readPlain]
  split
  · exact Nat.zero_le 1
  · split
    · exact le_rfl
    · exact Nat.zero_le 1

theorem length_readConversion (nfmt : List UInt8) (c : UInt16) :
    (readConversion nfmt c).1.length ≤ 1 := by
  rw [readConversion]
  split
  · exact le_rfl
  split
  · exact le_rfl
  split
  · exact Nat.zero_le 1
  split
  · exact Nat.zero_le 1
  split
  · exact Nat.zero_le 1
  split
  · exact le_rfl
  split
  · split
    · exact le_rfl
    · exact Nat.zero_le 1
  · exact le_rfl

/-- A character gives two tokens at most. -/
theorem length_read (mode : Mode) (c : UInt16) : (scanner.read mode c).1.length ≤ 2 := by
  cases mode with
  | plain => exact (length_readPlain c).trans (Nat.le_succ 1)
  | conversion nfmt => exact (length_readConversion nfmt c).trans (Nat.le_succ 1)
  | wide | narrow =>
    change (readPrefixed _ c).1.length ≤ 2
    rw [readPrefixed]
    split
    · exact Nat.le_succ 1
    · exact Nat.zero_le 2
  | six nfmt =>
    change (readSix nfmt c).1.length ≤ 2
    rw [readSix]
    split <;> exact Nat.zero_le 2
  | four nfmt =>
    change (readFour nfmt c).1.length ≤ 2
    rw [readFour]
    split <;> exact Nat.zero_le 2
  | type nfmt =>
    change (readType nfmt c).1.length ≤ 2
    rw [readType]
    split
    · exact Nat.le_succ 1
    · exact Nat.succ_le_succ (length_readPlain c)

/-! ### Formats and messages -/

theorem format_overread {snprintf : Snprintf} {fmt : List UInt16} {count : UInt64}
    {argv : List Argument} :
    format snprintf fmt count argv = .error .overread ↔
      carryOn snprintf .plain fmt { stream := [], count := count, argv := argv } =
        .error .overread := by
  rw [format, formatNext_eq]
  cases carryOn snprintf .plain fmt { stream := [], count := count, argv := argv } with
  | error stop =>
    exact ⟨fun same => congrArg Except.error (Except.error.inj same),
      fun same => congrArg Except.error (Except.error.inj same)⟩
  | ok state => exact iff_of_false (fun same => nomatch same) fun same => nomatch same

/-- A format that does not end in the middle of a prefix is not read beyond. -/
theorem format_ne_overread {string : WideString} (ends : ¬ EndsDangling string)
    (snprintf : Snprintf) (count : UInt64) (argv : List Argument) :
    format snprintf string.memory count argv ≠ .error .overread := by
  have finished : (scanner.scan .plain string.memory).2 = none := by
    change scanner.after .plain (string.characters ++ [0]) = none
    rw [Scanner.after_append, Option.bind_eq_none_iff]
    intro mode going
    rw [Scanner.after_singleton]
    rcases read_nul mode with ⟨nothing, _⟩ | ⟨_, dangling⟩
    · exact nothing
    · exact absurd ⟨mode, going, dangling⟩ ends
  rw [Ne, format_overread, carryOn, finished]
  exact blind_carryOut snprintf _ _

/-- A format that ends in the middle of a prefix is read beyond for some count and arguments. -/
theorem exists_overread {string : WideString} (ends : EndsDangling string) (snprintf : Snprintf) :
    ∃ count argv, format snprintf string.memory count argv = .error .overread := by
  obtain ⟨mode, going, dangling⟩ := ends
  have reads : scanner.read mode 0 = ([], some .plain) :=
    (read_nul mode).elim (fun none => absurd dangling none.2) And.left
  have scans : scanner.scan .plain string.memory =
      ((scanner.scan .plain string.characters).1, some .plain) := by
    rw [WideString.memory, Scanner.scan_append, going]
    dsimp only
    rw [Scanner.scan_next reads]
    exact Prod.ext (List.append_nil _) rfl
  have fits := Scanner.scan_going
    (fun mode c next fits leads => readsFit_read fits c next leads)
    (show Mode.plain.Fits from trivial) going
  have size := string.addressable
  have tokens := Scanner.length_scan length_read .plain string.characters
  obtain ⟨count, left⟩ := exists_count
    (usedUp snprintf (scanner.scan .plain string.characters).1)
    (by rw [length_usedUp]; omega)
  refine ⟨count, blanks (scanner.scan .plain string.characters).1, ?_⟩
  rw [format_overread, carryOn, scans]
  exact carryOut_overread fits rfl left

theorem formatsInside_iff (snprintf : Snprintf) (string : WideString) :
    FormatsInside snprintf string ↔ ¬ EndsDangling string := by
  refine ⟨fun inside ends => ?_, fun ends => ?_⟩
  · obtain ⟨count, argv, overread⟩ := exists_overread ends snprintf
    exact inside.vsnwprintf count argv overread
  · exact
      { swprintf := format_ne_overread ends snprintf (-1)
        vsnwprintf := format_ne_overread ends snprintf
        swprintfS := format_ne_overread ends snprintf }

/-- The message ends directly behind a lone `%`. -/
def EndsInPercent (string : WideString) : Prop :=
  FormatMessage.scanner.after .plain string.characters = some .percent

/-- `%w`, as a format. -/
def danglingFormat : WideString where
  characters := [0x25, 0x77]
  nonzero := by decide
  addressable := by decide

/-- `%`, as a message. -/
def danglingMessage : WideString where
  characters := [0x25]
  nonzero := by decide
  addressable := by decide

end Nloader.Format
