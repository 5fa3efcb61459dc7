/-
This file models the functions of `src/libs/ntdll/crt.c` that compare wide strings, with the macros
of `src/libs/ntdll/ntdll.h` that they use. A string is what can be read from its pointer on, and a
call that reads more is none. Before it compares them a function converts both strings for the log;
what these conversions read is modelled too, what they store is not.

`rpl_wcscmp` is the lexicographic order. `rpl_wcsncmp` is not: at the first difference it has gone
one character further before it looks which one is less, and a string that ends is equal to all
that it is a beginning of.
-/

import Nloader.Conversions
import Mathlib.Data.List.Lex

namespace Nloader.WideStrings

open Conversions CommandLine Terminated

/-! ### The functions -/

/-- `rpl_wcslen`. -/
def rplWcslen : Option (List UInt16) → Option Nat
  | none => some 0
  | some str => Terminated.length str

/-- `_CONVBUF`. -/
def convbuf : UInt32 := 1024

/-- `WSTR2STR`. -/
def wstr2str (var : List UInt16) : Option (Converted UInt8) := do
  let length ← rplWcslen (some var)
  rtlUnicodeToOemN convbuf false (some var) (.ofNat (length * Parameters.sizeofWchar))

/-- The loop of `rpl_wcscmp` and the comparison behind it. -/
def wcscmpLoop : List UInt16 → List UInt16 → Option Int
  | c1 :: s1, c2 :: s2 =>
    if c1 = c2 then if c1 = 0 then some 0 else wcscmpLoop s1 s2
    else some (if c1 < c2 then -1 else 1)
  | _, _ => none

/-- `rpl_wcscmp`. -/
def rplWcscmp (s1 s2 : List UInt16) : Option Int := do
  let _ ← wstr2str s1
  let _ ← wstr2str s2
  wcscmpLoop s1 s2

/-- What `rpl_wcsncmp` compares behind its loop. -/
def compareHeads : List UInt16 → List UInt16 → Option Int
  | c1 :: _, c2 :: _ => some (if c1 < c2 then -1 else 1)
  | _, _ => none

/-- The loop of `rpl_wcsncmp` and the comparison behind it. -/
def wcsncmpLoop : List UInt16 → List UInt16 → UInt64 → Option Int
  | c1 :: s1, c2 :: s2, n =>
    if n = 0 ∨ c1 = 0 then some 0
    else if c1 = c2 then wcsncmpLoop s1 s2 (n - 1)
    else compareHeads s1 s2
  | c1 :: _, [], n => if n = 0 ∨ c1 = 0 then some 0 else none
  | [], _, n => if n = 0 then some 0 else none

/-- `rpl_wcsncmp`. -/
def rplWcsncmp (s1 s2 : List UInt16) (n : UInt64) : Option Int := do
  let _ ← wstr2str s1
  let _ ← wstr2str s2
  wcsncmpLoop s1 s2 n

/-- `widetol`. -/
def widetol (c : UInt16) : UInt8 := Open.tolower (widetoa c)

/-- `wcmp`. -/
def wcmp (a b : UInt16) (ci : Bool) : Bool := if ci then widetol a == widetol b else a == b

/-- The loop of `rpl__wcsicmp` and the comparison behind it. -/
def wcsicmpLoop : List UInt16 → List UInt16 → Option Int
  | c1 :: s1, c2 :: s2 =>
    if wcmp c1 c2 true then if c1 = 0 then some 0 else wcsicmpLoop s1 s2
    else some (if widetol c1 < widetol c2 then -1 else 1)
  | _, _ => none

/-- `rpl__wcsicmp`. -/
def rplWcsicmp (s1 s2 : List UInt16) : Option Int := do
  let _ ← wstr2str s1
  let _ ← wstr2str s2
  wcsicmpLoop s1 s2

/-- The loop of `rpl__wcsnicmp` and the comparison behind it. -/
def wcsnicmpLoop : List UInt16 → List UInt16 → UInt64 → Option Int
  | c1 :: s1, c2 :: s2, n =>
    if wcmp c1 c2 true then
      if n - 1 = 0 ∨ c1 = 0 then some 0 else wcsnicmpLoop s1 s2 (n - 1)
    else some (if widetol c1 < widetol c2 then -1 else 1)
  | _, _, _ => none

/-- `rpl__wcsnicmp`. -/
def rplWcsnicmp (s1 s2 : List UInt16) (n : UInt64) : Option Int := do
  let _ ← wstr2str s1
  let _ ← wstr2str s2
  wcsnicmpLoop s1 s2 n

/-! ### The conversions for the log -/

/-- What can be read of a text is enough for its conversion. -/
theorem wstr2str_text (text : Text UInt16) (behind : List UInt16) :
    ∃ converted, wstr2str (text.memory ++ behind) = some converted := by
  have long : text.characters.length + 1 ≤ (text.memory ++ behind).length := by
    rw [Text.memory, List.length_append, List.length_append]
    exact Nat.le_add_right _ _
  rw [wstr2str, rplWcslen, length_text, Option.bind_eq_bind, Option.bind_some]
  generalize limit : min ((UInt32.ofNat (text.characters.length * Parameters.sizeofWchar)).toNat /
    Parameters.sizeofWchar) convbuf.toNat = stop
  have less : stop ≤ text.characters.length := by
    refine (limit ▸ Nat.min_le_left _ _ : stop ≤ _).trans ?_
    rw [UInt32.toNat_ofNat', Parameters.sizeofWchar]
    omega
  have small : stop ≤ 1024 := limit ▸ Nat.min_le_right _ _
  rcases Nat.eq_zero_or_pos stop with zero | positive
  · exact ⟨_, rtlUnicodeToOemN_of_zero (limit.trans zero)⟩
  · rw [rtlUnicodeToOemN_of_pos limit positive (by omega),
      copy_of_le widetoa ((Nat.succ_le_succ less).trans long)]
    exact ⟨_, rfl⟩

/-- Without its zero a text is not converted. -/
theorem wstr2str_take {text : Text UInt16} {count : Nat}
    (short : count ≤ text.characters.length) : wstr2str (text.memory.take count) = none := by
  rw [wstr2str, rplWcslen, length_take_memory short]
  rfl

/-- The conversions for the log do not change what is compared. -/
theorem logged_text {Result : Type} (s1 s2 : Text UInt16) (behind1 behind2 : List UInt16)
    (compared : Option Result) :
    (do
      let _ ← wstr2str (s1.memory ++ behind1)
      let _ ← wstr2str (s2.memory ++ behind2)
      compared) = compared := by
  obtain ⟨converted1, converts1⟩ := wstr2str_text s1 behind1
  obtain ⟨converted2, converts2⟩ := wstr2str_text s2 behind2
  rw [converts1, converts2]
  rfl

theorem logged_memory {Result : Type} (s1 s2 : Text UInt16) (compared : Option Result) :
    (do
      let _ ← wstr2str s1.memory
      let _ ← wstr2str s2.memory
      compared) = compared := by
  have logged := logged_text s1 s2 [] [] compared
  rwa [List.append_nil, List.append_nil] at logged

/-! ### The order of wide strings -/

/-- The sign of a result says how two texts are ordered. -/
structure Signs (result : Int) (first second : List UInt16) : Prop where
  less : result < 0 ↔ first < second
  equal : result = 0 ↔ first = second
  greater : 0 < result ↔ second < first

theorem signs_nil : Signs 0 [] [] :=
  ⟨by decide, by decide, by decide⟩

theorem signs_cons {result : Int} {first second : List UInt16} (c : UInt16) :
    Signs result (c :: first) (c :: second) ↔ Signs result first second := by
  have irreflexive : ¬ c < c := UInt16.lt_irrefl c
  have below {one other : List UInt16} : c :: one < c :: other ↔ one < other := by
    rw [List.cons_lt_cons_iff]
    simp [irreflexive]
  constructor
  · rintro ⟨less, equal, greater⟩
    exact ⟨less.trans below, equal.trans (List.cons_inj_right c), greater.trans below⟩
  · rintro ⟨less, equal, greater⟩
    exact ⟨less.trans below.symm, equal.trans (List.cons_inj_right c).symm,
      greater.trans below.symm⟩

theorem signs_iff_neg {result : Int} {first second : List UInt16} (below : first < second) :
    Signs result first second ↔ result < 0 := by
  refine ⟨fun signs => signs.less.mpr below, fun negative => ?_⟩
  have distinct : first ≠ second := fun same => List.lt_irrefl second (same ▸ below)
  exact ⟨iff_of_true negative below, iff_of_false negative.ne distinct,
    iff_of_false negative.not_gt (List.lt_asymm below)⟩

theorem signs_iff_pos {result : Int} {first second : List UInt16} (above : second < first) :
    Signs result first second ↔ 0 < result := by
  refine ⟨fun signs => signs.greater.mpr above, fun positive => ?_⟩
  have distinct : first ≠ second := fun same => List.lt_irrefl second (same ▸ above)
  exact ⟨iff_of_false positive.not_gt (List.lt_asymm above), iff_of_false positive.ne' distinct,
    iff_of_true positive above⟩

/-- Texts are ordered as the first characters in which they differ. -/
theorem cons_lt_cons_of_ne {c1 c2 : UInt16} (differ : c1 ≠ c2) (first second : List UInt16) :
    c1 :: first < c2 :: second ∧ c1 < c2 ∨ c2 :: second < c1 :: first ∧ ¬ c1 < c2 := by
  by_cases less : c1 < c2
  · exact .inl ⟨List.cons_lt_cons_iff.mpr (.inl less), less⟩
  · have greater := UInt16.lt_of_le_of_ne (UInt16.not_lt.mp less) differ.symm
    exact .inr ⟨List.cons_lt_cons_iff.mpr (.inl greater), less⟩

/-- The sign of a comparison of the first characters that differ. -/
theorem signs_of_ne {c1 c2 : UInt16} (differ : c1 ≠ c2) {less : Prop} [Decidable less]
    (first second : List UInt16) :
    Signs (if less then -1 else 1) (c1 :: first) (c2 :: second) ↔ (less ↔ c1 < c2) := by
  rcases cons_lt_cons_of_ne differ first second with ⟨below, smaller⟩ | ⟨above, greater⟩
  · rw [signs_iff_neg below]
    by_cases holds : less <;> simp [holds, smaller]
  · rw [signs_iff_pos above]
    by_cases holds : less <;> simp [holds, greater]

/-- `rpl_wcscmp` compares in the lexicographic order. -/
theorem wcscmpLoop_signs {first second : List UInt16} (nonzero1 : 0 ∉ first) (nonzero2 : 0 ∉ second)
    (behind1 behind2 : List UInt16) :
    ∃ result, wcscmpLoop (first ++ 0 :: behind1) (second ++ 0 :: behind2) = some result ∧
      Signs result first second := by
  induction first generalizing second with
  | nil =>
    cases second with
    | nil => exact ⟨0, rfl, signs_nil⟩
    | cons c second =>
      have other : 0 ≠ c := (not_or.mp (List.mem_cons.not.mp nonzero2)).1
      refine ⟨-1, ?_, (signs_iff_neg (List.nil_lt_cons c second)).mpr (by decide)⟩
      rw [List.nil_append, List.cons_append, wcscmpLoop, if_neg other,
        if_pos (UInt16.pos_iff_ne_zero.mpr other.symm)]
  | cons c1 first inductionHypothesis =>
    obtain ⟨other1, others1⟩ := not_or.mp (List.mem_cons.not.mp nonzero1)
    cases second with
    | nil =>
      refine ⟨1, ?_, (signs_iff_pos (List.nil_lt_cons c1 first)).mpr (by decide)⟩
      rw [List.cons_append, List.nil_append, wcscmpLoop, if_neg (Ne.symm other1),
        if_neg UInt16.not_lt_zero]
    | cons c2 second =>
      obtain ⟨other2, others2⟩ := not_or.mp (List.mem_cons.not.mp nonzero2)
      rw [List.cons_append, List.cons_append, wcscmpLoop]
      by_cases same : c1 = c2
      · obtain ⟨result, compares, signs⟩ := inductionHypothesis others1 others2
        subst same
        rw [if_pos rfl, if_neg (Ne.symm other1)]
        exact ⟨result, compares, (signs_cons c1).mpr signs⟩
      · rw [if_neg same]
        exact ⟨_, rfl, (signs_of_ne same first second).mpr Iff.rfl⟩

/-! ### The comparison of the first characters -/

/-- Where two memories differ within the first characters, before a zero in both of them, the first
one has not come to its end, and the characters behind the two that differ are in the same order. -/
def Fortunate (memory1 memory2 : List UInt16) (count : Nat) : Prop :=
  ∀ common c1 rest1 c2 rest2, memory1 = common ++ c1 :: rest1 → memory2 = common ++ c2 :: rest2 →
    0 ∉ common → c1 ≠ c2 → common.length < count →
      c1 ≠ 0 ∧ ∃ next1 ∈ rest1.head?, ∃ next2 ∈ rest2.head?, (next1 < next2 ↔ c1 < c2)

theorem fortunate_zero (memory1 memory2 : List UInt16) : Fortunate memory1 memory2 0 :=
  fun _ _ _ _ _ _ _ _ _ less => absurd less (Nat.not_lt_zero _)

/-- Two texts that end at the same place do not differ. -/
theorem fortunate_end (rest1 rest2 : List UInt16) (count : Nat) :
    Fortunate (0 :: rest1) (0 :: rest2) count := by
  intro common c1 rest1 c2 rest2 memory1 memory2 nonzero differ _
  cases common with
  | nil => exact absurd ((List.cons.inj memory1).1.symm.trans (List.cons.inj memory2).1) differ
  | cons c common =>
    exact absurd (List.mem_cons.mpr (.inl (List.cons.inj memory1).1)) nonzero

theorem fortunate_cons {c : UInt16} (nonzero : c ≠ 0) (memory1 memory2 : List UInt16)
    (count : Nat) :
    Fortunate (c :: memory1) (c :: memory2) (count + 1) ↔ Fortunate memory1 memory2 count := by
  constructor
  · intro fortunate common c1 rest1 c2 rest2 split1 split2 others differ less
    refine fortunate (c :: common) c1 rest1 c2 rest2 (congrArg _ split1) (congrArg _ split2) ?_
      differ (Nat.succ_lt_succ less)
    exact fun within => (List.mem_cons.mp within).elim nonzero.symm others
  · intro fortunate common c1 rest1 c2 rest2 split1 split2 others differ less
    cases common with
    | nil => exact absurd ((List.cons.inj split1).1.symm.trans (List.cons.inj split2).1) differ
    | cons c' common =>
      exact fortunate common c1 rest1 c2 rest2 (List.cons.inj split1).2 (List.cons.inj split2).2
        (fun within => others (List.mem_cons_of_mem _ within)) differ (Nat.lt_of_succ_lt_succ less)

/-- Where the first characters differ, what is behind them counts. -/
theorem fortunate_ne {c1 c2 : UInt16} (differ : c1 ≠ c2) (rest1 rest2 : List UInt16)
    (count : Nat) :
    Fortunate (c1 :: rest1) (c2 :: rest2) (count + 1) ↔
      c1 ≠ 0 ∧ ∃ next1 ∈ rest1.head?, ∃ next2 ∈ rest2.head?, (next1 < next2 ↔ c1 < c2) := by
  constructor
  · intro fortunate
    exact fortunate [] c1 rest1 c2 rest2 rfl rfl List.not_mem_nil differ (Nat.succ_pos count)
  · intro ordered common c1' rest1' c2' rest2' split1 split2 _ _ _
    cases common with
    | nil =>
      obtain ⟨rfl, rfl⟩ := List.cons.inj split1
      obtain ⟨rfl, rfl⟩ := List.cons.inj split2
      exact ordered
    | cons c common =>
      exact absurd ((List.cons.inj split1).1.trans (List.cons.inj split2).1.symm) differ

/-- What the comparison behind the loop gives, where the characters before differ. -/
theorem compareHeads_signs {c1 c2 : UInt16} {rest1 rest2 first second : List UInt16}
    (signs : ∀ next1 next2 : UInt16,
      Signs (if next1 < next2 then -1 else 1) first second ↔ (next1 < next2 ↔ c1 < c2)) :
    (∃ result, compareHeads rest1 rest2 = some result ∧ Signs result first second) ↔
      ∃ next1 ∈ rest1.head?, ∃ next2 ∈ rest2.head?, (next1 < next2 ↔ c1 < c2) := by
  cases rest1 with
  | nil =>
    exact iff_of_false (fun ⟨_, compares, _⟩ => nomatch compares) fun ⟨_, taken, _⟩ => nomatch taken
  | cons next1 rest1 =>
    cases rest2 with
    | nil =>
      exact iff_of_false (fun ⟨_, compares, _⟩ => nomatch compares)
        fun ⟨_, _, _, taken, _⟩ => nomatch taken
    | cons next2 rest2 =>
      constructor
      · rintro ⟨result, compares, signed⟩
        obtain rfl := Option.some.inj compares
        exact ⟨next1, rfl, next2, rfl, (signs next1 next2).mp signed⟩
      · rintro ⟨_, taken1, _, taken2, same⟩
        obtain rfl := Option.some.inj taken1
        obtain rfl := Option.some.inj taken2
        exact ⟨_, rfl, (signs next1 next2).mpr same⟩

/-- One less is left to be counted. -/
theorem toNat_pred {n : UInt64} (nonzero : n ≠ 0) : n.toNat = (n - 1).toNat + 1 := by
  have positive : (1 : UInt64).toNat ≤ n.toNat :=
    UInt64.lt_iff_toNat_lt.mp (UInt64.pos_iff_ne_zero.mpr nonzero)
  rw [UInt64.toNat_sub_of_le _ _ (UInt64.le_iff_toNat_le.mpr positive)]
  exact (Nat.sub_add_cancel positive).symm

theorem wcsncmpLoop_zero (s1 s2 : List UInt16) : wcsncmpLoop s1 s2 0 = some 0 := by
  cases s1 with
  | nil => rfl
  | cons c1 s1 => cases s2 <;> exact if_pos (.inl rfl)

/-- Where a text ends that the other one goes on behind, the result is zero. -/
theorem wcsncmpLoop_nil {second : List UInt16} (nonzero : 0 ∉ second)
    (behind1 behind2 : List UInt16) (n : UInt64) (count : Nat) :
    (∃ result, wcsncmpLoop (0 :: behind1) (second ++ 0 :: behind2) n = some result ∧
        Signs result [] (second.take (count + 1))) ↔
      Fortunate (0 :: behind1) (second ++ 0 :: behind2) (count + 1) := by
  have ends (c2 : UInt16) (rest2 : List UInt16) :
      wcsncmpLoop (0 :: behind1) (c2 :: rest2) n = some 0 := if_pos (.inr rfl)
  cases second with
  | nil => exact iff_of_true ⟨0, ends 0 behind2, signs_nil⟩ (fortunate_end _ _ _)
  | cons c2 second =>
    have differ : (0 : UInt16) ≠ c2 := (not_or.mp (List.mem_cons.not.mp nonzero)).1
    rw [List.cons_append, fortunate_ne differ]
    refine iff_of_false ?_ fun ordered => ordered.1 rfl
    rintro ⟨result, compares, signs⟩
    rw [ends] at compares
    rw [List.take_succ_cons, signs_iff_neg (List.nil_lt_cons _ _), ← Option.some.inj compares]
      at signs
    exact absurd signs (by decide)

/-- `rpl_wcsncmp` orders the first characters where the strings are fortunate. -/
theorem wcsncmpLoop_signs {first second : List UInt16} (nonzero1 : 0 ∉ first)
    (nonzero2 : 0 ∉ second) (behind1 behind2 : List UInt16) (n : UInt64) :
    (∃ result, wcsncmpLoop (first ++ 0 :: behind1) (second ++ 0 :: behind2) n = some result ∧
        Signs result (first.take n.toNat) (second.take n.toNat)) ↔
      Fortunate (first ++ 0 :: behind1) (second ++ 0 :: behind2) n.toNat := by
  induction first generalizing second n with
  | nil =>
    rcases eq_or_ne n 0 with rfl | going
    · exact iff_of_true ⟨0, wcsncmpLoop_zero _ _, signs_nil⟩ (fortunate_zero _ _)
    · rw [toNat_pred going]
      exact wcsncmpLoop_nil nonzero2 behind1 behind2 n _
  | cons c1 first inductionHypothesis =>
    rcases eq_or_ne n 0 with rfl | going
    · exact iff_of_true ⟨0, wcsncmpLoop_zero _ _, signs_nil⟩ (fortunate_zero _ _)
    obtain ⟨other1, others1⟩ := not_or.mp (List.mem_cons.not.mp nonzero1)
    have nonzero : ¬ (n = 0 ∨ c1 = 0) := not_or.mpr ⟨going, Ne.symm other1⟩
    rw [toNat_pred going]
    cases second with
    | nil =>
      rw [List.cons_append, List.nil_append, wcsncmpLoop, if_neg nonzero,
        if_neg (Ne.symm other1), fortunate_ne (Ne.symm other1), and_iff_right (Ne.symm other1)]
      refine compareHeads_signs fun next1 next2 => ?_
      have above : [] < c1 :: first.take (n - 1).toNat := List.nil_lt_cons _ _
      rw [List.take_succ_cons, List.take_nil, signs_iff_pos above,
        iff_false_right UInt16.not_lt_zero]
      by_cases less : next1 < next2 <;> simp [less]
    | cons c2 second =>
      obtain ⟨other2, others2⟩ := not_or.mp (List.mem_cons.not.mp nonzero2)
      rw [List.cons_append, List.cons_append, wcsncmpLoop, if_neg nonzero, List.take_succ_cons,
        List.take_succ_cons]
      by_cases same : c1 = c2
      · subst same
        rw [if_pos rfl, fortunate_cons (Ne.symm other1),
          ← inductionHypothesis others1 others2 (n - 1)]
        exact exists_congr fun result => and_congr_right fun _ => signs_cons c1
      · rw [if_neg same, fortunate_ne same, and_iff_right (Ne.symm other1)]
        exact compareHeads_signs fun _ _ => signs_of_ne same _ _

/-- What `rpl_wcsncmp` should do: its sign is the order of the first characters of two texts, and
that of `rpl_wcscmp` for the texts that are cut off there. -/
structure Ordered (s1 s2 : Text UInt16) (behind1 behind2 : List UInt16) (n : UInt64) : Prop where
  signs : ∃ result, rplWcsncmp (s1.memory ++ behind1) (s2.memory ++ behind2) n = some result ∧
    Signs result (s1.characters.take n.toNat) (s2.characters.take n.toNat)
  agrees : ∃ result other,
    rplWcsncmp (s1.memory ++ behind1) (s2.memory ++ behind2) n = some result ∧
    rplWcscmp (s1.truncate n.toNat).memory (s2.truncate n.toNat).memory = some other ∧
    result.sign = other.sign

/-- Results with which the same texts are ordered have the same sign. -/
theorem Signs.sign_eq {result other : Int} {first second : List UInt16}
    (signs : Signs result first second) (others : Signs other first second) :
    result.sign = other.sign := by
  have negative := signs.less.trans others.less.symm
  have zero := signs.equal.trans others.equal.symm
  rcases lt_trichotomy result 0 with less | equal | greater
  · rw [Int.sign_eq_neg_one_of_neg less, Int.sign_eq_neg_one_of_neg (negative.mp less)]
  · rw [equal, zero.mp equal]
  · rw [Int.sign_eq_one_of_pos greater,
      Int.sign_eq_one_of_pos (signs.greater.trans others.greater.symm |>.mp greater)]

/-- `rpl_wcscmp` orders two texts. -/
theorem rplWcscmp_signs (s1 s2 : Text UInt16) :
    ∃ result, rplWcscmp s1.memory s2.memory = some result ∧
      Signs result s1.characters s2.characters := by
  rw [rplWcscmp, logged_memory s1 s2]
  exact wcscmpLoop_signs s1.nonzero s2.nonzero [] []

/-- `rpl_wcsncmp` orders the first characters of two texts exactly where these are fortunate. -/
theorem wcsncmp_iff (s1 s2 : Text UInt16) (behind1 behind2 : List UInt16) (n : UInt64) :
    Ordered s1 s2 behind1 behind2 n ↔
      Fortunate (s1.memory ++ behind1) (s2.memory ++ behind2) n.toNat := by
  have compares : rplWcsncmp (s1.memory ++ behind1) (s2.memory ++ behind2) n =
      wcsncmpLoop (s1.memory ++ behind1) (s2.memory ++ behind2) n :=
    logged_text s1 s2 behind1 behind2 _
  have signed := wcsncmpLoop_signs s1.nonzero s2.nonzero behind1 behind2 n
  have parts (text : Text UInt16) (behind : List UInt16) :
      text.memory ++ behind = text.characters ++ 0 :: behind :=
    List.append_assoc text.characters [0] behind
  rw [parts, parts] at compares ⊢
  refine Iff.trans ⟨fun ordered => ?_, fun found => ?_⟩ signed
  · obtain ⟨result, runs, signs⟩ := ordered.signs
    rw [parts, parts, compares] at runs
    exact ⟨result, runs, signs⟩
  · obtain ⟨result, runs, signs⟩ := found
    obtain ⟨other, compares', others⟩ :=
      rplWcscmp_signs (s1.truncate n.toNat) (s2.truncate n.toNat)
    rw [← compares, ← parts, ← parts] at runs
    exact ⟨⟨result, runs, signs⟩, ⟨result, other, runs, compares', signs.sign_eq others⟩⟩

/-- Of `L"ab"` and `L"ba"` the second one is found to be less. -/
theorem not_ordered : ¬ ∀ s1 s2 behind1 behind2 n, Ordered s1 s2 behind1 behind2 n := by
  intro all
  obtain ⟨result, runs, signs⟩ :=
    (all ⟨[0x61, 0x62], by decide⟩ ⟨[0x62, 0x61], by decide⟩ [] [] 1).signs
  have one : result = 1 := Option.some.inj (runs.symm.trans (by decide))
  exact absurd (signs.less.mpr (by decide)) (one ▸ by decide)

end Nloader.WideStrings
