/-
This file is a library of doubly linked lists that close through a head place. A memory is
seen through the two pointers stored at each place; a segment runs from one place to another
through the listed places, with matching pointers both ways, and a ring is a segment from
the head back to it. A ring grows at its end and loses a place by writing two pointers.

The library names nothing of the program it is used for.
-/

import Mathlib.Tactic

namespace PointerRing

variable {Place : Type}

/-- The two pointers stored at each place, or nothing where no entry lies. -/
structure Pointers (Place : Type) where
  forward : Place → Option (Option Place)
  backward : Place → Option (Option Place)

/-- The entries between two places, linked both ways. -/
def Segment (pointers : Pointers Place) : Place → List Place → Place → Prop
  | before, [], after =>
    pointers.forward before = some (some after) ∧ pointers.backward after = some (some before)
  | before, place :: places, after =>
    (pointers.forward before = some (some place) ∧
      pointers.backward place = some (some before)) ∧
    Segment pointers place places after

/-- The entries of a list that closes through its head. -/
def Linked (pointers : Pointers Place) (head : Place) (places : List Place) : Prop :=
  Segment pointers head places head

theorem segment_append {pointers : Pointers Place} :
    ∀ {places later : List Place} {before place after : Place},
      Segment pointers before (places ++ place :: later) after ↔
        Segment pointers before places place ∧ Segment pointers place later after := by
  intro places
  induction places with
  | nil => exact Iff.rfl
  | cons first places inductionHypothesis =>
    intro later before place after
    rw [List.cons_append, Segment, inductionHypothesis, Segment]
    exact and_assoc.symm

/-- A segment is in every memory that agrees on the pointers it consists of. -/
theorem Segment.congr {pointers pointers' : Pointers Place} :
    ∀ {places : List Place} {before after : Place},
      Segment pointers before places after →
      (∀ place ∈ before :: places, pointers'.forward place = pointers.forward place) →
      (∀ place, place ∈ places ∨ place = after →
        pointers'.backward place = pointers.backward place) →
        Segment pointers' before places after := by
  intro places
  induction places with
  | nil =>
    rintro before after ⟨there, back⟩ forward backward
    rw [Segment, forward before List.mem_cons_self, backward after (.inr rfl)]
    exact ⟨there, back⟩
  | cons first places inductionHypothesis =>
    rintro before after ⟨⟨there, back⟩, rest⟩ forward backward
    refine ⟨⟨?_, ?_⟩, inductionHypothesis rest ?_ ?_⟩
    · rw [forward before List.mem_cons_self]
      exact there
    · rw [backward first (.inl List.mem_cons_self)]
      exact back
    · exact fun place member => forward place (List.mem_cons_of_mem _ member)
    · exact fun place member => backward place (member.imp_left (List.mem_cons_of_mem _))

/-- The place before the end of a segment: the last entry, or where the segment starts. -/
def lastOf (before : Place) (places : List Place) : Place := places.getLastD before

/-- The place behind the start of a segment: the first entry, or where the segment ends. -/
def firstOf (after : Place) (places : List Place) : Place := places.headD after

theorem Segment.backward_after {pointers : Pointers Place} {places : List Place}
    {before after : Place} (segment : Segment pointers before places after) :
    pointers.backward after = some (some (lastOf before places)) := by
  induction places generalizing before with
  | nil => exact segment.2
  | cons first places inductionHypothesis =>
    rw [inductionHypothesis segment.2, lastOf, lastOf, List.getLastD_cons]

theorem Segment.forward_before {pointers : Pointers Place} {places : List Place}
    {before after : Place} (segment : Segment pointers before places after) :
    pointers.forward before = some (some (firstOf after places)) := by
  cases places with
  | nil => exact segment.1
  | cons first places => exact segment.1.1

/-- Every place of a segment holds a forward pointer. -/
theorem Segment.forward_held {pointers : Pointers Place} {places : List Place}
    {before after : Place} (segment : Segment pointers before places after) :
    ∀ place ∈ before :: places, ∃ value, pointers.forward place = some value := by
  induction places generalizing before with
  | nil =>
    intro place member
    rw [List.mem_singleton.mp member]
    exact ⟨_, segment.1⟩
  | cons first places inductionHypothesis =>
    intro place member
    rcases List.mem_cons.mp member with rfl | later
    · exact ⟨_, segment.1.1⟩
    · exact inductionHypothesis segment.2 place later

/-- Every place of a segment behind its start holds a backward pointer. -/
theorem Segment.backward_held {pointers : Pointers Place} {places : List Place}
    {before after : Place} (segment : Segment pointers before places after) :
    ∀ place, place ∈ places ∨ place = after → ∃ value, pointers.backward place = some value := by
  induction places generalizing before with
  | nil =>
    rintro place (nowhere | rfl)
    · cases nowhere
    · exact ⟨_, segment.2⟩
  | cons first places inductionHypothesis =>
    rintro place (member | atEnd)
    · rcases List.mem_cons.mp member with rfl | later
      · exact ⟨_, segment.1.2⟩
      · exact inductionHypothesis segment.2 place (.inl later)
    · exact inductionHypothesis segment.2 place (.inr atEnd)

theorem lastOf_mem (before : Place) (places : List Place) :
    lastOf before places ∈ before :: places := by
  unfold lastOf
  rw [List.getLastD_eq_getLast?]
  cases last : places.getLast? with
  | none => exact List.mem_cons_self
  | some place => exact List.mem_cons_of_mem _ (List.mem_of_getLast? last)

theorem lastOf_mem_of_ne_nil (before : Place) {places : List Place} (nonempty : places ≠ []) :
    lastOf before places ∈ places := by
  unfold lastOf
  rw [List.getLastD_eq_getLast?, List.getLast?_eq_some_getLast nonempty]
  exact List.getLast_mem nonempty

theorem firstOf_mem (after : Place) (places : List Place) :
    firstOf after places ∈ places ∨ firstOf after places = after := by
  cases places with
  | nil => exact .inr rfl
  | cons first places => exact .inl List.mem_cons_self

/-- Rewriting the last forward pointer and the last backward pointer of a segment leads it
to another place. -/
theorem Segment.redirect_end {pointers pointers' : Pointers Place} :
    ∀ {places : List Place} {before after after' : Place},
      Segment pointers before places after → (before :: places).Nodup →
      pointers'.forward (lastOf before places) = some (some after') →
      pointers'.backward after' = some (some (lastOf before places)) →
      (∀ place ∈ before :: places, place ≠ lastOf before places →
        pointers'.forward place = pointers.forward place) →
      (∀ place ∈ places, pointers'.backward place = pointers.backward place) →
        Segment pointers' before places after' := by
  intro places
  induction places with
  | nil => exact fun _ _ there back _ _ => ⟨there, back⟩
  | cons first places inductionHypothesis =>
    rintro before after after' ⟨⟨out, back⟩, rest⟩ nodup there home forward backward
    have same : lastOf before (first :: places) = lastOf first places := by
      rw [lastOf, lastOf, List.getLastD_cons]
    rw [same] at there home forward
    obtain ⟨fresh, nodup⟩ := List.nodup_cons.mp nodup
    have early : before ≠ lastOf first places := by
      intro equal
      exact fresh (equal ▸ lastOf_mem first places)
    refine ⟨⟨?_, ?_⟩, inductionHypothesis rest nodup there home ?_ ?_⟩
    · rw [forward before List.mem_cons_self early]
      exact out
    · rw [backward first List.mem_cons_self]
      exact back
    · exact fun place member => forward place (List.mem_cons_of_mem _ member)
    · exact fun place member => backward place (List.mem_cons_of_mem _ member)

/-- A ring grows at its end: the new entry points back to the last one and forward to the
head, the last entry points to the new one and so does the head's backward pointer. -/
theorem Linked.append {pointers pointers' : Pointers Place} {head place : Place}
    {places : List Place} (ring : Linked pointers head places)
    (nodup : (head :: (places ++ [place])).Nodup)
    (out : pointers'.forward (lastOf head places) = some (some place))
    (back : pointers'.backward place = some (some (lastOf head places)))
    (home : pointers'.forward place = some (some head))
    (close : pointers'.backward head = some (some place))
    (forward : ∀ other ∈ head :: places, other ≠ lastOf head places →
      pointers'.forward other = pointers.forward other)
    (backward : ∀ other ∈ places, pointers'.backward other = pointers.backward other) :
    Linked pointers' head (places ++ [place]) := by
  rw [← List.cons_append] at nodup
  have inner := (List.nodup_append.mp nodup).1
  exact segment_append.mpr
    ⟨Segment.redirect_end ring inner out back forward backward, home, close⟩

/-- A ring loses an entry: its neighbours are made to point to each other. -/
theorem Linked.remove {pointers pointers' : Pointers Place} {head place : Place}
    {places later : List Place} (ring : Linked pointers head (places ++ place :: later))
    (nodup : (head :: (places ++ place :: later)).Nodup)
    (out : pointers'.forward (lastOf head places) = some (some (firstOf head later)))
    (back : pointers'.backward (firstOf head later) = some (some (lastOf head places)))
    (forward : ∀ other, other ≠ lastOf head places → other ≠ place →
      pointers'.forward other = pointers.forward other)
    (backward : ∀ other, other ≠ firstOf head later → other ≠ place →
      pointers'.backward other = pointers.backward other) :
    Linked pointers' head (places ++ later) := by
  obtain ⟨front, rear⟩ := segment_append.mp ring
  rw [← List.cons_append] at nodup
  obtain ⟨frontNodup, rearNodup, across⟩ := List.nodup_append.mp nodup
  obtain ⟨placeLater, laterNodup⟩ := List.nodup_cons.mp rearNodup
  have outside : ∀ other ∈ head :: places, other ≠ place :=
    fun other member => across other member place List.mem_cons_self
  have frontBackward : ∀ other ∈ places, other ≠ firstOf head later →
      pointers'.backward other = pointers.backward other := fun other member apart =>
    backward other apart (outside other (List.mem_cons_of_mem _ member))
  have firstApart : ∀ other ∈ places, other ≠ firstOf head later := by
    intro other member
    rcases firstOf_mem head later with within | atHead
    · exact across other (List.mem_cons_of_mem _ member) _ (List.mem_cons_of_mem _ within)
    · rw [atHead]
      rintro rfl
      exact (List.nodup_cons.mp frontNodup).1 member
  cases later with
  | nil =>
    rw [List.append_nil]
    exact Segment.redirect_end front frontNodup out back
      (fun other member apart => forward other apart (outside other member))
      (fun other member => frontBackward other member (firstApart other member))
  | cons next later =>
    obtain ⟨_, rest⟩ := rear
    have lastFront := lastOf_mem head places
    have nextLater : ∀ other ∈ next :: later, other ≠ lastOf head places :=
      fun other member =>
        (across _ lastFront other (List.mem_cons_of_mem _ member)).symm
    have separate : ∀ other ∈ next :: later, other ≠ place := by
      rintro other member rfl
      exact placeLater member
    refine segment_append.mpr ⟨Segment.redirect_end front frontNodup out back
      (fun other member apart => forward other apart (outside other member))
      (fun other member => frontBackward other member (firstApart other member)), ?_⟩
    refine rest.congr (fun other member => ?_) (fun other member => ?_)
    · exact forward other (nextLater other member) (separate other member)
    · rcases member with inLater | atHead
      · refine backward other ?_ (separate other (List.mem_cons_of_mem _ inLater))
        rintro rfl
        exact (List.nodup_cons.mp laterNodup).1 inLater
      · rw [atHead]
        refine backward head ?_ (outside head List.mem_cons_self)
        exact across head List.mem_cons_self next (List.mem_cons_of_mem _ List.mem_cons_self)

end PointerRing
