/-
This file compares `rpl__wcsnicmp` with `rpl__wcsicmp` for the texts that are cut off. Characters
are compared through their low bytes, but a string ends where a whole character of the first one is
zero. So where the low byte of a character that is not zero meets the end of the second string, the
comparison goes on behind it.

The count is taken down before it is looked at, so that a count of zero is none. For the log both
strings are read to their ends, whatever the count is.
-/

import Nloader.WideStrings

namespace Nloader.WideStrings

open Terminated

/-! ### The end of the second string -/

/-- The low bytes of the first text begin, ignoring case, with those of the second one and a zero,
so that the first text is still compared where the second one has ended. -/
def Overtakes (s1 s2 : Text UInt16) : Prop :=
  s2.characters.map widetol ++ [0] <+: s1.characters.map widetol

theorem wcmp_eq_true {c1 c2 : UInt16} : wcmp c1 c2 true = true ↔ widetol c1 = widetol c2 :=
  beq_iff_eq

/-- A text that goes on behind the other one after the texts were cut off did so before. -/
theorem Overtakes.of_truncate {s1 s2 : Text UInt16} {count : Nat}
    (overtakes : Overtakes (s1.truncate count) (s2.truncate count)) : Overtakes s1 s2 := by
  have lengths := overtakes.length_le
  simp only [Text.truncate, List.length_append, List.length_map, List.length_take,
    List.length_singleton] at lengths
  have whole : s2.truncate count = s2 := Text.truncate_of_le (by omega)
  rw [Overtakes, whole] at overtakes
  refine overtakes.trans ?_
  rw [Text.truncate, List.map_take]
  exact List.take_prefix _ _

/-- `rpl__wcsicmp` reads nothing behind the ends of two texts if the first one does not go on behind
the second one. -/
theorem wcsicmpLoop_eq_none_iff {first second : List UInt16} (nonzero : 0 ∉ first) :
    wcsicmpLoop (first ++ [0]) (second ++ [0]) = none ↔
      second.map widetol ++ [0] <+: first.map widetol := by
  induction first generalizing second with
  | nil =>
    have other : ¬ second.map widetol ++ [0] <+: [] := fun isPrefix =>
      List.append_ne_nil_of_right_ne_nil _ (List.cons_ne_nil 0 [])
        (List.prefix_nil.mp isPrefix)
    refine iff_of_false ?_ other
    cases second with
    | nil => exact fun same => nomatch same
    | cons c2 second =>
      rw [List.nil_append, List.cons_append, wcsicmpLoop]
      split <;> exact fun same => nomatch same
  | cons c1 first inductionHypothesis =>
    obtain ⟨other, others⟩ := not_or.mp (List.mem_cons.not.mp nonzero)
    cases second with
    | nil =>
      rw [List.cons_append, List.nil_append, wcsicmpLoop, List.map_nil, List.nil_append,
        List.map_cons, List.cons_prefix_cons, and_iff_left (List.nil_prefix)]
      by_cases same : wcmp c1 0 true = true
      · rw [if_pos same, if_neg (Ne.symm other)]
        refine iff_of_true ?_ (wcmp_eq_true.mp same).symm
        cases first <;> rfl
      · rw [if_neg same]
        exact iff_of_false (fun same => nomatch same) fun zero => same (wcmp_eq_true.mpr zero.symm)
    | cons c2 second =>
      rw [List.cons_append, List.cons_append, wcsicmpLoop, List.map_cons, List.map_cons,
        List.cons_append, List.cons_prefix_cons]
      by_cases same : wcmp c1 c2 true = true
      · rw [if_pos same, if_neg (Ne.symm other), inductionHypothesis others,
          and_iff_right (wcmp_eq_true.mp same).symm]
      · rw [if_neg same]
        exact iff_of_false (fun same => nomatch same)
          fun both => same (wcmp_eq_true.mpr both.1.symm)

/-- Where the first string ends the count does not matter. -/
theorem wcsnicmpLoop_zero (c2 : UInt16) (s1 s2 others1 others2 : List UInt16) (n : UInt64) :
    wcsnicmpLoop (0 :: s1) (c2 :: s2) n = wcsicmpLoop (0 :: others1) (c2 :: others2) := by
  simp only [wcsnicmpLoop, wcsicmpLoop, or_true, if_true]

/-- A comparison of texts that are cut off is the one of their first characters. -/
theorem wcsnicmpLoop_of_wcsicmpLoop {first second : List UInt16} (nonzero : 0 ∉ first)
    {n : UInt64} (going : n ≠ 0) {result : Int}
    (compares : wcsicmpLoop (first.take n.toNat ++ [0]) (second.take n.toNat ++ [0]) =
      some result) :
    wcsnicmpLoop ((first ++ [0]).take n.toNat) ((second ++ [0]).take n.toNat) n = some result := by
  induction first generalizing second n with
  | nil =>
    rw [toNat_pred going] at compares ⊢
    cases second with
    | nil =>
      rw [List.take_nil, List.nil_append] at compares
      rw [List.nil_append, List.take_succ_cons, wcsnicmpLoop_zero]
      exact compares
    | cons c2 second =>
      rw [List.take_nil, List.nil_append, List.take_succ_cons, List.cons_append] at compares
      rw [List.nil_append, List.take_succ_cons, List.cons_append, List.take_succ_cons,
        wcsnicmpLoop_zero]
      exact compares
  | cons c1 first inductionHypothesis =>
    obtain ⟨other, others⟩ := not_or.mp (List.mem_cons.not.mp nonzero)
    have pred := toNat_pred going
    rw [pred] at compares ⊢
    cases second with
    | nil =>
      rw [List.take_nil, List.nil_append, List.take_succ_cons, List.cons_append, wcsicmpLoop]
        at compares
      rw [List.nil_append, List.take_succ_cons, List.cons_append, List.take_succ_cons,
        wcsnicmpLoop]
      by_cases same : wcmp c1 0 true = true
      · rw [if_pos same, if_neg (Ne.symm other)] at compares
        refine absurd compares ?_
        cases first.take (n - 1).toNat <;> exact fun same => nomatch same
      · rw [if_neg same] at compares ⊢
        exact compares
    | cons c2 second =>
      rw [List.take_succ_cons, List.take_succ_cons, List.cons_append, List.cons_append,
        wcsicmpLoop] at compares
      rw [List.cons_append, List.cons_append, List.take_succ_cons, List.take_succ_cons,
        wcsnicmpLoop]
      by_cases same : wcmp c1 c2 true = true
      · rw [if_pos same, if_neg (Ne.symm other)] at compares
        rw [if_pos same]
        by_cases last : n - 1 = 0
        · rw [if_pos (.inl last)]
          rw [last] at compares
          exact compares
        · rw [if_neg (not_or.mpr ⟨last, Ne.symm other⟩)]
          exact inductionHypothesis others last compares
      · rw [if_neg same] at compares ⊢
        exact compares

/-! ### The functions -/

/-- What the two functions should do, if they are `icmp` and `nicmp`: for two texts, of which
nothing but the characters and the zeros can be read, `nicmp` gives what `icmp` gives for the texts
that are cut off, though it can read nothing but their first characters. -/
structure Agrees (icmp : List UInt16 → List UInt16 → Option Int)
    (nicmp : List UInt16 → List UInt16 → UInt64 → Option Int) (s1 s2 : Text UInt16) (n : UInt64) :
    Prop where
  same : ∃ result,
    nicmp (s1.memory.take n.toNat) (s2.memory.take n.toNat) n = some result ∧
    icmp (s1.truncate n.toNat).memory (s2.truncate n.toNat).memory = some result
  inside : icmp s1.memory s2.memory ≠ none

/-- The comparisons do what they should where the count is not zero and the first text does not go
on behind the second one. -/
theorem loops_agree_iff (s1 s2 : Text UInt16) (n : UInt64) :
    Agrees wcsicmpLoop wcsnicmpLoop s1 s2 n ↔ n ≠ 0 ∧ ¬ Overtakes s1 s2 := by
  constructor
  · rintro ⟨⟨result, compares, _⟩, inside⟩
    refine ⟨?_, fun overtakes => inside ((wcsicmpLoop_eq_none_iff s1.nonzero).mpr overtakes)⟩
    rintro rfl
    exact nomatch compares
  · rintro ⟨going, behaves⟩
    have cut : wcsicmpLoop (s1.truncate n.toNat).memory (s2.truncate n.toNat).memory ≠ none :=
      fun none => behaves (Overtakes.of_truncate
        ((wcsicmpLoop_eq_none_iff (s1.truncate n.toNat).nonzero).mp none))
    obtain ⟨result, compares⟩ := Option.ne_none_iff_exists'.mp cut
    exact ⟨⟨result, wcsnicmpLoop_of_wcsicmpLoop s1.nonzero going compares, compares⟩,
      fun none => behaves ((wcsicmpLoop_eq_none_iff s1.nonzero).mp none)⟩

theorem rplWcsicmp_memory (s1 s2 : Text UInt16) :
    rplWcsicmp s1.memory s2.memory = wcsicmpLoop s1.memory s2.memory :=
  logged_memory s1 s2 _

/-- What can be read of a text that is shorter than the count. -/
theorem take_memory {text : Text UInt16} {count : Nat} (short : text.characters.length < count) :
    text.memory.take count = text.memory := by
  refine List.take_of_length_le ?_
  rw [Text.memory, List.length_append, List.length_singleton]
  exact short

/-- The functions do what they should where the comparisons do, and both texts come to their ends
within the count: for the log they are read so far. -/
theorem wcsnicmp_iff (s1 s2 : Text UInt16) (n : UInt64) :
    (Agrees wcsicmpLoop wcsnicmpLoop s1 s2 n ↔ n ≠ 0 ∧ ¬ Overtakes s1 s2) ∧
      (Agrees rplWcsicmp rplWcsnicmp s1 s2 n ↔
        s1.characters.length < n.toNat ∧ s2.characters.length < n.toNat ∧ ¬ Overtakes s1 s2) := by
  refine ⟨loops_agree_iff s1 s2 n, ?_⟩
  by_cases short1 : s1.characters.length < n.toNat
  · by_cases short2 : s2.characters.length < n.toNat
    · have going : n ≠ 0 := by
        rintro rfl
        exact absurd short1 (Nat.not_lt_zero _)
      have compares : rplWcsnicmp s1.memory s2.memory n = wcsnicmpLoop s1.memory s2.memory n :=
        logged_memory s1 s2 _
      rw [and_iff_right short1, and_iff_right short2,
        ← and_iff_right (b := ¬ Overtakes s1 s2) going, ← loops_agree_iff]
      constructor
      · rintro ⟨⟨result, runs, others⟩, inside⟩
        rw [take_memory short1, take_memory short2, compares] at runs
        rw [rplWcsicmp_memory] at others inside
        refine ⟨⟨result, ?_, others⟩, inside⟩
        rwa [take_memory short1, take_memory short2]
      · rintro ⟨⟨result, runs, others⟩, inside⟩
        rw [take_memory short1, take_memory short2] at runs
        rw [← rplWcsicmp_memory] at others inside
        refine ⟨⟨result, ?_, others⟩, inside⟩
        rwa [take_memory short1, take_memory short2, compares]
    · refine iff_of_false ?_ fun within => short2 within.2.1
      rintro ⟨⟨result, runs, _⟩, _⟩
      rw [rplWcsnicmp, wstr2str_take (not_lt.mp short2)] at runs
      cases converts : wstr2str (s1.memory.take n.toNat) with
      | none =>
        rw [converts] at runs
        exact nomatch runs
      | some converted =>
        rw [converts] at runs
        exact nomatch runs
  · refine iff_of_false ?_ fun within => short1 within.1
    rintro ⟨⟨result, runs, _⟩, _⟩
    rw [rplWcsnicmp, wstr2str_take (not_lt.mp short1)] at runs
    exact nomatch runs

/-- Behind the end of `L""` the text `L"\x0100"` is still compared; and with a count of zero `L"a"`
is less than `L"b"`. -/
theorem not_agrees :
    (¬ ∀ s1 s2 n, Agrees rplWcsicmp rplWcsnicmp s1 s2 n) ∧
      rplWcsnicmp [0x61, 0] [0x62, 0] 0 = some (-1) :=
  ⟨fun all => (all ⟨[0x100], by decide⟩ ⟨[], by decide⟩ 2).inside (by decide), by decide⟩

end Nloader.WideStrings
