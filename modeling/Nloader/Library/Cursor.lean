/-
This file is a library of cursors on a sorted list from which elements are taken out while
the cursor is on its way. A cursor has the elements it has passed behind it, as far as they
are still there, and the others ahead. It advances past the first element ahead, or is
exhausted where there is none; an element on either side may be removed.

On every run the elements advanced past are sorted, none of them has been removed before, and
a cursor that is exhausted has advanced past every element that has not been removed.

The library names nothing of the program it is used for.
-/

import Nloader.Library.Runs
import Nloader.Library.TreePath

namespace Cursor

open TreePath (Sorted)
open Runs

variable {Element Key : Type} [LinearOrder Key] {key : Element → Key}

/-! ### Moves -/

/-- The elements that the cursor has passed and those ahead of it. -/
structure Position (Element : Type) where
  passed : List Element
  ahead : List Element

/-- The elements that are there. -/
def Position.present (position : Position Element) : List Element :=
  position.passed ++ position.ahead

inductive Move (Element : Type) where
  | advance (element : Element)
  | exhaust
  | remove (element : Element)
  | idle

/-- One move. -/
inductive Step : Position Element → Move Element → Position Element → Prop
  | advance (passed : List Element) (element : Element) (ahead : List Element) :
      Step ⟨passed, element :: ahead⟩ (.advance element) ⟨passed ++ [element], ahead⟩
  | exhaust (passed : List Element) : Step ⟨passed, []⟩ .exhaust ⟨passed, []⟩
  | removePassed (front : List Element) (element : Element) (back ahead : List Element) :
      Step ⟨front ++ element :: back, ahead⟩ (.remove element) ⟨front ++ back, ahead⟩
  | removeAhead (passed front : List Element) (element : Element) (back : List Element) :
      Step ⟨passed, front ++ element :: back⟩ (.remove element) ⟨passed, front ++ back⟩
  | idle (position : Position Element) : Step position .idle position

/-- The runs from the front of a list. The latest move comes first. -/
abbrev CursorRun (elements : List Element) : List (Move Element) → Position Element → Prop :=
  Run Step { passed := [], ahead := elements }

/-- The elements advanced past, in turn. -/
def advanced : List (Move Element) → List Element
  | [] => []
  | .advance element :: moves => advanced moves ++ [element]
  | .exhaust :: moves => advanced moves
  | .remove _ :: moves => advanced moves
  | .idle :: moves => advanced moves

/-! ### The elements that are there -/

section Present

variable {elements : List Element} {moves : List (Move Element)} {position : Position Element}

/-- A move takes out the element it removes, and no other. -/
theorem Step.present {before after : Position Element} {move : Move Element}
    (step : Step before move after) :
    ((∀ element, move ≠ .remove element) ∧ after.present = before.present) ∨
      ∃ front element back, move = .remove element ∧
        before.present = front ++ element :: back ∧ after.present = front ++ back := by
  cases step with
  | advance passed element ahead => exact .inl ⟨nofun, by simp [Position.present]⟩
  | exhaust => exact .inl ⟨nofun, rfl⟩
  | removePassed front element back ahead =>
    exact .inr ⟨front, element, back ++ ahead, rfl, by simp [Position.present],
      by simp [Position.present]⟩
  | removeAhead passed front element back =>
    exact .inr ⟨passed ++ front, element, back, rfl, by simp [Position.present],
      by simp [Position.present]⟩
  | idle => exact .inl ⟨nofun, rfl⟩

theorem present_sublist (run : CursorRun elements moves position) :
    position.present.Sublist elements := by
  induction run with
  | nil => exact List.Sublist.refl elements
  | cons run step inductionHypothesis =>
    rcases step.present with ⟨_, same⟩ | ⟨front, element, back, _, split, rest⟩
    · rwa [same]
    · rw [split] at inductionHypothesis
      rw [rest]
      exact ((List.Sublist.refl front).append (List.sublist_cons_self element back)).trans
        inductionHypothesis

theorem sorted_present (sorted : Sorted key elements)
    (run : CursorRun elements moves position) : Sorted key position.present :=
  sorted.sublist (present_sublist run)

/-- In a sorted list an element is there once. -/
theorem not_mem_of_sorted {front back : List Element} {element : Element}
    (sorted : Sorted key (front ++ element :: back)) : element ∉ front ++ back := by
  have nodup : (front ++ element :: back).Nodup := by
    refine sorted.imp fun before same => ?_
    subst same
    exact lt_irrefl _ before
  exact (List.nodup_cons.mp (List.nodup_middle.mp nodup)).1

/-- What is there has not been removed. -/
theorem not_removed (sorted : Sorted key elements) (run : CursorRun elements moves position) :
    ∀ element ∈ position.present, .remove element ∉ moves := by
  induction run with
  | nil => exact fun _ _ => List.not_mem_nil
  | cons run step inductionHypothesis =>
    intro element member removed
    rcases step.present with ⟨others, same⟩ | ⟨front, gone, back, rfl, split, rest⟩
    · rw [same] at member
      rcases List.mem_cons.mp removed with latest | earlier
      · exact others element latest.symm
      · exact inductionHypothesis element member earlier
    · have once := sorted_present sorted run
      rw [split] at once inductionHypothesis
      rw [rest] at member
      rcases List.mem_cons.mp removed with latest | earlier
      · cases latest
        exact not_mem_of_sorted once member
      · refine inductionHypothesis element ?_ earlier
        rw [List.perm_middle.mem_iff]
        exact List.mem_cons_of_mem _ member

/-- What has not been removed is there. -/
theorem present_or_removed (run : CursorRun elements moves position) :
    ∀ element ∈ elements, element ∈ position.present ∨ .remove element ∈ moves := by
  induction run with
  | nil => exact fun _ member => .inl member
  | cons run step inductionHypothesis =>
    intro element member
    rcases inductionHypothesis element member with there | removed
    · rcases step.present with ⟨_, same⟩ | ⟨front, gone, back, rfl, split, rest⟩
      · exact .inl (by rwa [same])
      · rw [split, List.perm_middle.mem_iff, List.mem_cons] at there
        rcases there with rfl | other
        · exact .inr List.mem_cons_self
        · exact .inl (by rwa [rest])
    · exact .inr (List.mem_cons_of_mem _ removed)

/-- Only what has been there is removed. -/
theorem mem_of_removed (run : CursorRun elements moves position) :
    ∀ element, .remove element ∈ moves → element ∈ elements := by
  induction run with
  | nil => exact fun _ removed => absurd removed List.not_mem_nil
  | cons run step inductionHypothesis =>
    intro element removed
    rcases List.mem_cons.mp removed with rfl | earlier
    · rcases step.present with ⟨others, _⟩ | ⟨front, gone, back, same, split, _⟩
      · exact absurd rfl (others element)
      · cases same
        refine (present_sublist run).subset ?_
        rw [split]
        exact List.mem_append_right _ List.mem_cons_self
    · exact inductionHypothesis element earlier

/-! ### The elements advanced past -/

theorem passed_advanced (run : CursorRun elements moves position) :
    ∀ element ∈ position.passed, element ∈ advanced moves := by
  induction run with
  | nil => exact fun _ member => absurd member List.not_mem_nil
  | cons run step inductionHypothesis =>
    intro element member
    cases step with
    | advance passed next ahead =>
      rcases List.mem_append.mp member with earlier | latest
      · exact List.mem_append_left _ (inductionHypothesis element earlier)
      · exact List.mem_append_right _ latest
    | exhaust => exact inductionHypothesis element member
    | removePassed front gone back ahead =>
      refine inductionHypothesis element ?_
      exact List.perm_middle.mem_iff.mpr (List.mem_cons_of_mem _ member)
    | removeAhead => exact inductionHypothesis element member
    | idle => exact inductionHypothesis element member

/-- What the cursor has advanced past lies in front of everything ahead. -/
theorem advanced_lt (sorted : Sorted key elements) (run : CursorRun elements moves position) :
    ∀ element ∈ advanced moves, ∀ other ∈ position.ahead, key element < key other := by
  induction run with
  | nil => exact fun _ member => absurd member List.not_mem_nil
  | cons run step inductionHypothesis =>
    intro element member other beyond
    cases step with
    | advance passed next ahead =>
      rcases List.mem_append.mp member with earlier | latest
      · exact inductionHypothesis element earlier other (List.mem_cons_of_mem _ beyond)
      · obtain rfl := List.mem_singleton.mp latest
        have order := (List.pairwise_append.mp (sorted_present sorted run)).2.1
        exact (List.pairwise_cons.mp order).1 other beyond
    | exhaust => exact inductionHypothesis element member other beyond
    | removePassed => exact inductionHypothesis element member other beyond
    | removeAhead passed front gone back =>
      refine inductionHypothesis element member other ?_
      exact List.perm_middle.mem_iff.mpr (List.mem_cons_of_mem _ beyond)
    | idle => exact inductionHypothesis element member other beyond

/-- The elements advanced past are sorted. -/
theorem sorted_advanced (sorted : Sorted key elements)
    (run : CursorRun elements moves position) : Sorted key (advanced moves) := by
  induction run with
  | nil => exact .nil
  | cons run step inductionHypothesis =>
    cases step with
    | advance passed next ahead =>
      refine List.pairwise_append.mpr ⟨inductionHypothesis, List.pairwise_singleton _ _, ?_⟩
      intro element member other latest
      obtain rfl := List.mem_singleton.mp latest
      exact advanced_lt sorted run element member other List.mem_cons_self
    | exhaust => exact inductionHypothesis
    | removePassed => exact inductionHypothesis
    | removeAhead => exact inductionHypothesis
    | idle => exact inductionHypothesis

theorem mem_of_advanced (run : CursorRun elements moves position) :
    ∀ element ∈ advanced moves, element ∈ elements := by
  induction run with
  | nil => exact fun _ member => absurd member List.not_mem_nil
  | cons run step inductionHypothesis =>
    intro element member
    cases step with
    | advance passed next ahead =>
      rcases List.mem_append.mp member with earlier | latest
      · exact inductionHypothesis element earlier
      · obtain rfl := List.mem_singleton.mp latest
        exact (present_sublist run).subset (List.mem_append_right _ List.mem_cons_self)
    | exhaust => exact inductionHypothesis element member
    | removePassed => exact inductionHypothesis element member
    | removeAhead => exact inductionHypothesis element member
    | idle => exact inductionHypothesis element member

theorem mem_advanced {element : Element} (member : .advance element ∈ moves) :
    element ∈ advanced moves := by
  induction moves with
  | nil => exact absurd member List.not_mem_nil
  | cons move moves inductionHypothesis =>
    rcases List.mem_cons.mp member with rfl | earlier
    · exact List.mem_append_right _ List.mem_cons_self
    · cases move with
      | advance => exact List.mem_append_left _ (inductionHypothesis earlier)
      | exhaust => exact inductionHypothesis earlier
      | remove => exact inductionHypothesis earlier
      | idle => exact inductionHypothesis earlier

/-- No element is advanced past after its removal. -/
theorem not_removed_before (sorted : Sorted key elements)
    (run : CursorRun elements moves position) {later earlier : List (Move Element)}
    {element : Element} (split : moves = later ++ .advance element :: earlier) :
    .remove element ∉ earlier := by
  induction run generalizing later with
  | nil => exact absurd split.symm (by simp)
  | cons run step inductionHypothesis =>
    cases later with
    | nil =>
      cases split
      cases step with
      | advance passed _ ahead =>
        exact not_removed sorted run element (List.mem_append_right _ List.mem_cons_self)
    | cons move later =>
      cases split
      exact inductionHypothesis rfl

theorem nothing_ahead (run : CursorRun elements moves position) (exhausted : .exhaust ∈ moves) :
    position.ahead = [] := by
  induction run with
  | nil => exact absurd exhausted List.not_mem_nil
  | cons run step inductionHypothesis =>
    cases step with
    | advance passed next ahead =>
      exact absurd (inductionHypothesis ((List.mem_cons.mp exhausted).resolve_left nofun)) nofun
    | exhaust => rfl
    | removePassed front gone back ahead =>
      exact inductionHypothesis ((List.mem_cons.mp exhausted).resolve_left nofun)
    | removeAhead passed front gone back =>
      have none := inductionHypothesis ((List.mem_cons.mp exhausted).resolve_left nofun)
      exact absurd none (by simp)
    | idle => exact inductionHypothesis ((List.mem_cons.mp exhausted).resolve_left nofun)

/-- An exhausted cursor has advanced past every element that has not been removed. -/
theorem advanced_or_removed (run : CursorRun elements moves position)
    (exhausted : .exhaust ∈ moves) :
    ∀ element ∈ elements, element ∈ advanced moves ∨ .remove element ∈ moves := by
  intro element member
  refine (present_or_removed run element member).imp_left fun there => ?_
  rw [Position.present, nothing_ahead run exhausted, List.append_nil] at there
  exact passed_advanced run element there

end Present

end Cursor
