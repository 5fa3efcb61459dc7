/-
This file compares the two ways to pass the arguments of `RtlFormatMessage`. As `get_arg` is given
the number of a positional less one, and takes at least one argument of a `va_list`, the first
positional of a message is right only if it is `%1`. The second is then right unless it is `%1`
again, and the third never is.
-/

import Nloader.FormatTokens

namespace Nloader.FormatMessage

/-! ### The two ways to pass arguments -/

/-- Tokens with the argument of its number at every positional. -/
def expand (arguments : List (List UInt16)) : List Token → List UInt16
  | [] => []
  | .character c :: found => c :: expand arguments found
  | .argument number :: found => arguments.getD (number - 1) [] ++ expand arguments found

/-- A message with every positional replaced by its argument. -/
def replaced (arguments : List (List UInt16)) (message : List UInt16) : List UInt16 :=
  expand arguments ((tokens .plain message).getD [])

/-- For strings that the positionals of a message are within, and a buffer with room, the array and
the `va_list` of the strings give the same output: the message with its positionals replaced. -/
def SameSelection (message : List UInt16) : Prop :=
  ∀ (arguments : List (List UInt16)) (buffer : List UInt16) (bufferSize : UInt32),
    (∀ argument ∈ arguments, 0 ∉ argument) →
    (∀ number ∈ positionals message, number ≤ arguments.length) →
    (replaced arguments message).length < buffer.length →
      rtlFormatMessage message false false true arguments buffer bufferSize =
          some (leaves buffer (replaced arguments message)) ∧
        rtlFormatMessage message false false false arguments buffer bufferSize =
          some (leaves buffer (replaced arguments message))

theorem selected_array (cursor : Nat) (found : List Nat) :
    selected true cursor found = found.map (· - 1) := by
  induction found with
  | nil => rfl
  | cons number found inductionHypothesis =>
    rw [selected, List.map_cons]
    exact congrArg (List.cons _) inductionHypothesis

theorem expandAt_array (arguments : List (List UInt16)) (found : List Token) :
    expandAt arguments found ((numbers found).map (· - 1)) = expand arguments found := by
  induction found with
  | nil => rfl
  | cons token found inductionHypothesis =>
    cases token with
    | character c => exact congrArg (List.cons c) inductionHypothesis
    | argument number => exact congrArg (_ ++ ·) inductionHypothesis

theorem taken_array (arguments : List (List UInt16)) (found : List Token) :
    taken true arguments found = expand arguments found := by
  rw [taken, selected_array, expandAt_array]

/-! ### Positionals are positive -/

/-- The number of a positional that is being read is positive. -/
def Mode.Counts : Mode → Prop
  | .number first => 1 ≤ wtoi first
  | _ => True

/-- The number of a positional is positive. -/
def Token.Counts : Token → Prop
  | .character _ => True
  | .argument number => 1 ≤ number

/-- Everything that has been read counts from one. -/
def Positive (read : List Token × Option Mode) : Prop :=
  (∀ token ∈ read.1, token.Counts) ∧ ∀ next, read.2 = some next → next.Counts

theorem positive_silent {next : Option Mode} (counts : ∀ mode, next = some mode → mode.Counts) :
    Positive ([], next) :=
  ⟨fun _ member => absurd member List.not_mem_nil, counts⟩

theorem positive_token {token : Token} {next : Mode} (counts : token.Counts)
    (counts_next : next.Counts) : Positive ([token], some next) :=
  ⟨fun _ member => List.mem_singleton.mp member ▸ counts,
    fun _ same => Option.some.inj same ▸ counts_next⟩

theorem positive_plain (c : UInt16) : Positive (readPlain c) := by
  rw [readPlain]
  split
  · exact positive_silent fun _ same => by cases same
  split
  · exact positive_silent fun _ same => Option.some.inj same ▸ trivial
  · exact positive_token trivial trivial

theorem wtoi_pos {c : UInt16} (low : 0x31 ≤ c) (high : c ≤ 0x39) : 1 ≤ wtoi c := by
  have low : 0x31 ≤ c.toNat := low
  have high : c.toNat ≤ 0x39 := high
  have same : (c &&& 0xff).toNat = c.toNat % 2 ^ 8 := by
    rw [UInt16.toNat_and]
    exact Nat.and_two_pow_sub_one_eq_mod c.toNat 8
  rw [wtoi, same]
  omega

theorem positive_percent (c : UInt16) : Positive (readPercent c) := by
  rw [readPercent]
  split
  · exact positive_silent fun _ same => Option.some.inj same ▸ trivial
  split
  · exact positive_token trivial trivial
  split
  · rename_i digit
    exact positive_silent fun _ same => Option.some.inj same ▸ wtoi_pos digit.1 digit.2
  · exact positive_silent fun _ same => Option.some.inj same ▸ trivial

theorem positive_behind (c : UInt16) : Positive (readBehind c) := by
  rw [readBehind]
  split
  · exact positive_silent fun _ same => Option.some.inj same ▸ trivial
  · exact positive_plain c

theorem positive_number {first : UInt16} (counts : 1 ≤ wtoi first) (c : UInt16) :
    Positive (readNumber first c) := by
  rw [readNumber]
  split
  · refine positive_token (show 1 ≤ wtoi first * 10 + wtoi c from ?_) trivial
    omega
  · obtain ⟨others, next⟩ := positive_behind c
    refine ⟨fun token member => ?_, next⟩
    rcases List.mem_cons.mp member with rfl | member
    · exact counts
    · exact others token member

theorem positive_read (mode : Mode) (c : UInt16) (counts : mode.Counts) :
    Positive (scanner.read mode c) := by
  cases mode with
  | plain => exact positive_plain c
  | percent => exact positive_percent c
  | number first => exact positive_number counts c
  | behind => exact positive_behind c
  | block =>
    change Positive (readBlock c)
    rw [readBlock]
    split
    · exact positive_silent fun _ same => by cases same
    · split <;> exact positive_silent fun _ same => Option.some.inj same ▸ trivial
  | ended => exact positive_silent fun _ same => by cases same

theorem mem_of_numbers {found : List Token} {number : Nat} (member : number ∈ numbers found) :
    .argument number ∈ found := by
  induction found with
  | nil => exact absurd member List.not_mem_nil
  | cons token found inductionHypothesis =>
    cases token with
    | character c => exact List.mem_cons_of_mem _ (inductionHypothesis member)
    | argument first =>
      rcases List.mem_cons.mp member with rfl | member
      · exact List.mem_cons_self
      · exact List.mem_cons_of_mem _ (inductionHypothesis member)

/-- The positionals of a message are positive. -/
theorem numbers_pos {message : List UInt16} {found : List Token}
    (scans : tokens .plain message = some found) : ∀ number ∈ numbers found, 1 ≤ number := by
  intro number member
  have counts := Scanner.scan_all positive_read (show Mode.plain.Counts from trivial) message
  rw [Scanner.scan_of_tokens scans] at counts
  exact counts _ (mem_of_numbers member)

/-! ### The positionals that are right -/

/-- The positionals for which a `va_list` gives the right arguments. -/
def Fortunate (found : List Nat) : Prop :=
  found = [] ∨ found = [1] ∨ ∃ number, 2 ≤ number ∧ found = [1, number]

theorem selected_eq_iff {found : List Nat} (positive : ∀ number ∈ found, 1 ≤ number) :
    selected false 0 found = selected true 0 found ↔ Fortunate found := by
  rw [selected_array]
  match found with
  | [] => exact ⟨fun _ => .inl rfl, fun _ => rfl⟩
  | [first] =>
    have one := positive first List.mem_cons_self
    have same : selected false 0 [first] = [0 + max (first - 1) 1 - 1] := rfl
    rw [same, Fortunate]
    simp only [List.map_cons, List.map_nil, List.cons.injEq, and_true, reduceCtorEq, false_or,
      and_false, exists_false, or_false]
    omega
  | [first, second] =>
    have one := positive first List.mem_cons_self
    have two := positive second (List.mem_cons_of_mem _ List.mem_cons_self)
    have same : selected false 0 [first, second] =
      [0 + max (first - 1) 1 - 1, 0 + max (first - 1) 1 + max (second - 1) 1 - 1] := rfl
    rw [same, Fortunate]
    simp only [List.map_cons, List.map_nil, List.cons.injEq, and_true, reduceCtorEq, false_or,
      and_false]
    constructor
    · rintro ⟨a, b⟩
      exact ⟨second, by omega, by omega, rfl⟩
    · rintro ⟨number, large, rfl, rfl⟩
      omega
  | first :: second :: third :: others =>
    have one := positive first List.mem_cons_self
    have two := positive second (List.mem_cons_of_mem _ List.mem_cons_self)
    have three := positive third (by simp)
    have same : selected false 0 (first :: second :: third :: others) =
      (0 + max (first - 1) 1 - 1) :: (0 + max (first - 1) 1 + max (second - 1) 1 - 1) ::
        (0 + max (first - 1) 1 + max (second - 1) 1 + max (third - 1) 1 - 1) ::
        selected false (0 + max (first - 1) 1 + max (second - 1) 1 + max (third - 1) 1) others :=
      rfl
    rw [same, Fortunate]
    simp only [List.map_cons, List.cons.injEq, reduceCtorEq, false_or, and_false, exists_false,
      iff_false]
    rintro ⟨a, b, c, _⟩
    omega

/-! ### Strings that tell the choices apart -/

/-- Strings that are all the same but for one. -/
def marked (size index : Nat) : List (List UInt16) :=
  (List.replicate size [0x61]).set index [0x62]

theorem marked_getD {size index other : Nat} (inside : other < size) :
    (marked size index).getD other [] = if index = other then [0x62] else [0x61] := by
  rw [marked, List.getD_eq_getElem?_getD, List.getElem?_set, List.length_replicate]
  by_cases same : index = other
  · rw [if_pos same, if_pos same, if_pos (same ▸ inside), Option.getD_some]
  · rw [if_neg same, if_neg same, List.getElem?_replicate, if_pos inside, Option.getD_some]

theorem length_marked_getD {size index other : Nat} (inside : other < size) :
    ((marked size index).getD other []).length = 1 := by
  rw [marked_getD inside]
  split <;> rfl

theorem length_expandAt {size index : Nat} {found : List Token} {indices : List Nat}
    (length : indices.length = (numbers found).length) (inside : ∀ other ∈ indices, other < size) :
    (expandAt (marked size index) found indices).length = found.length := by
  induction found generalizing indices with
  | nil => rfl
  | cons token found inductionHypothesis =>
    cases token with
    | character c => exact congrArg (· + 1) (inductionHypothesis length inside)
    | argument number =>
      cases indices with
      | nil => exact nomatch length
      | cons other indices =>
        rw [expandAt, List.length_append, length_marked_getD (inside _ List.mem_cons_self),
          inductionHypothesis (Nat.succ.inj length)
            fun other member => inside other (List.mem_cons_of_mem _ member),
          List.length_cons, Nat.add_comm]

theorem marks_of_ite {first second : Prop} [Decidable first] [Decidable second]
    (same : (if first then [(0x62 : UInt16)] else [0x61]) = if second then [0x62] else [0x61]) :
    first ↔ second := by
  by_cases left : first
  · rw [if_pos left] at same
    refine iff_of_true left ?_
    by_contra right
    rw [if_neg right] at same
    exact absurd same (by decide)
  · rw [if_neg left] at same
    refine iff_of_false left fun right => ?_
    rw [if_pos right] at same
    exact absurd same (by decide)

/-- The same text has the marked string at the same places. -/
theorem marks_of_expandAt {size index : Nat} {found : List Token} {left right : List Nat}
    (length_left : left.length = (numbers found).length)
    (length_right : right.length = (numbers found).length)
    (inside_left : ∀ other ∈ left, other < size) (inside_right : ∀ other ∈ right, other < size)
    (same : expandAt (marked size index) found left = expandAt (marked size index) found right) :
    left.map (index = ·) = right.map (index = ·) := by
  induction found generalizing left right with
  | nil =>
    rw [List.length_eq_zero_iff.mp length_left, List.length_eq_zero_iff.mp length_right]
  | cons token found inductionHypothesis =>
    cases token with
    | character c =>
      exact inductionHypothesis length_left length_right inside_left inside_right
        (List.cons.inj same).2
    | argument number =>
      match left, right with
      | [], _ => exact nomatch length_left
      | _, [] => exact nomatch length_right
      | first :: left, second :: right =>
        have first_inside := inside_left first List.mem_cons_self
        have second_inside := inside_right second List.mem_cons_self
        obtain ⟨heads, tails⟩ := List.append_inj same
          ((length_marked_getD first_inside).trans (length_marked_getD second_inside).symm)
        have mark : (index = first) = (index = second) := by
          rw [marked_getD first_inside, marked_getD second_inside] at heads
          exact propext (marks_of_ite heads)
        rw [List.map_cons, List.map_cons, mark]
        exact congrArg _ (inductionHypothesis (Nat.succ.inj length_left)
          (Nat.succ.inj length_right)
          (fun other member => inside_left other (List.mem_cons_of_mem _ member))
          (fun other member => inside_right other (List.mem_cons_of_mem _ member)) tails)

theorem length_selected (argumentIsArray : Bool) (cursor : Nat) (found : List Nat) :
    (selected argumentIsArray cursor found).length = found.length := by
  induction found generalizing cursor with
  | nil => rfl
  | cons number found inductionHypothesis => exact congrArg (· + 1) (inductionHypothesis _)

theorem eq_of_marks {left right : List Nat} (length : left.length = right.length)
    (marks : ∀ index : Nat, left.map (index = ·) = right.map (index = ·)) : left = right := by
  refine List.ext_getElem length fun place inside others => ?_
  have same := congrArg (·[place]?) (marks left[place])
  simp only [List.getElem?_map, List.getElem?_eq_getElem inside,
    List.getElem?_eq_getElem others, Option.map_some, Option.some.injEq] at same
  exact of_eq_true same.symm

/-- The same output for all strings comes from the same choices. -/
theorem selected_of_sameSelection {message : List UInt16} {found : List Token}
    (scans : tokens .plain message = some found) (same : SameSelection message) :
    selected false 0 (numbers found) = selected true 0 (numbers found) := by
  have length (argumentIsArray : Bool) :
      (selected argumentIsArray 0 (numbers found)).length = (numbers found).length :=
    length_selected argumentIsArray 0 (numbers found)
  have positional : positionals message = numbers found := by rw [positionals, scans]; rfl
  have replace (arguments : List (List UInt16)) :
      replaced arguments message = taken true arguments found := by
    rw [replaced, scans, taken_array]
    rfl
  refine eq_of_marks ((length false).trans (length true).symm) fun index => ?_
  -- Strings enough for both choices, and for the numbers themselves.
  generalize sizes : (selected false 0 (numbers found)).sum + (numbers found).sum + 1 = size
  have list_inside : ∀ other ∈ selected false 0 (numbers found), other < size := by
    intro other member
    have small := List.le_sum_of_mem member
    omega
  have number_inside : ∀ number ∈ numbers found, number < size := by
    intro number member
    have small := List.le_sum_of_mem member
    omega
  have array_inside : ∀ other ∈ selected true 0 (numbers found), other < size := by
    rw [selected_array]
    intro other member
    obtain ⟨number, listed, rfl⟩ := List.mem_map.mp member
    exact (Nat.sub_le _ _).trans_lt (number_inside number listed)
  have texts : (taken true (marked size index) found).length = found.length :=
    length_expandAt (length true) array_inside
  have list_texts : (taken false (marked size index) found).length = found.length :=
    length_expandAt (length false) list_inside
  have strings : (marked size index).length = size := by
    rw [marked, List.length_set, List.length_replicate]
  have room : found.length < (List.replicate (found.length + 1) (0 : UInt16)).length := by
    rw [List.length_replicate]
    exact Nat.lt_succ_self _
  have outputs := (same (marked size index) (List.replicate (found.length + 1) 0) 0
    (by
      intro argument member zero
      rcases List.mem_or_eq_of_mem_set member with member | rfl
      · rw [List.eq_of_mem_replicate member] at zero
        exact absurd zero (by decide)
      · exact absurd zero (by decide))
    (by
      rw [positional, strings]
      exact fun number member => (number_inside number member).le)
    (by rwa [replace, texts])).2
  rw [rtlFormatMessage_tokens scans 0 (by rwa [strings]) (by rwa [list_texts]), replace] at outputs
  have buffers := congrArg Formatted.buffer (Option.some.inj outputs)
  exact marks_of_expandAt (length false) (length true) list_inside array_inside
    (List.append_inj buffers (list_texts.trans texts.symm)).1

end Nloader.FormatMessage
