/-
This file is about the enumeration of a balanced table from which elements are deleted while
it goes on. `RestartKey` is the place of the last element it has passed, as far as that is
still there, or `BalancedRoot` in front of the first one. A deletion of that element puts its
predecessor in its place, so the table stays at a cursor on the list of its elements, and the
law of the enumeration is that of the cursor.
-/

import Nloader.Library.Cursor
import Nloader.AvlRuns

namespace Nloader.Avl

open Outcome TreePath TreeContext LinkedTree Runs
open Cursor (Position Move CursorRun advanced)
open PointerTree (Distinct)
open Splay (Address Element Fault GenericCompareResults Orders elementKey compareNumbers
  orders_compareNumbers)

variable {Item Key : Type} [LinearOrder Key]

/-! ### Enumerations -/

/-- A call of an enumeration, with what it has returned. -/
inductive EnumerationEvent (Item : Type) where
  | enumerate (result : Option Place)
  | delete (buffer : Item) (result : Bool)
  | deleteEx (address : Address) (result : Bool)

/-- A call behind the first one: the enumeration goes on, or an element is deleted by its key
or by its node. -/
def EnumerationStep (compareRoutine : Item → Item → GenericCompareResults) (turns : Nat)
    (table : AvlTable Item) (event : EnumerationEvent Item) (next : AvlTable Item) : Prop :=
  match event with
  | .enumerate result => rtlEnumerateGenericTableAvl turns table false = .ok (result, next)
  | .delete buffer result =>
    rtlDeleteElementGenericTableAvl compareRoutine turns table buffer = .ok (result, next)
  | .deleteEx address result =>
    (table.data address).isSome ∧
      rtlDeleteElementGenericTableAvlEx turns table (some (.item address)) = .ok (result, next)

/-- The enumerations of a table: the first call restarts. The latest call comes first. -/
inductive EnumerationRun (compareRoutine : Item → Item → GenericCompareResults) (turns : Nat)
    (table : AvlTable Item) : List (EnumerationEvent Item) → AvlTable Item → Prop
  | restart (result : Option Place) (next : AvlTable Item)
      (ran : rtlEnumerateGenericTableAvl turns table true = .ok (result, next)) :
      EnumerationRun compareRoutine turns table [.enumerate result] next
  | step (events : List (EnumerationEvent Item)) (before : AvlTable Item)
      (event : EnumerationEvent Item) (after : AvlTable Item)
      (run : EnumerationRun compareRoutine turns table events before)
      (step : EnumerationStep compareRoutine turns before event after) :
      EnumerationRun compareRoutine turns table (event :: events) after

/-- The places that the enumeration has returned, in turn. -/
def returnedPlaces : List (EnumerationEvent Item) → List Place
  | [] => []
  | .enumerate (some place) :: events => returnedPlaces events ++ [place]
  | .enumerate none :: events => returnedPlaces events
  | .delete _ _ :: events => returnedPlaces events
  | .deleteEx _ _ :: events => returnedPlaces events

/-- The call has deleted an element. -/
def EnumerationEvent.Deletes (key : Item → Key) (element : Element Item) :
    EnumerationEvent Item → Prop
  | .enumerate _ => False
  | .delete buffer result => result = true ∧ key element.item = key buffer
  | .deleteEx address result => result = true ∧ element.address = address

/-- What an enumeration is to have returned. -/
structure Enumerated (key : Item → Key) (elements : List (Element Item))
    (events : List (EnumerationEvent Item)) (returned : List (Element Item)) : Prop where
  places : returnedPlaces events = returned.map place
  members : ∀ element ∈ returned, element ∈ elements
  increasing : Sorted (elementKey key) returned
  present : ∀ later earlier element, element ∈ elements →
    events = later ++ .enumerate (some (place element)) :: earlier →
      ∀ event ∈ earlier, ¬ event.Deletes key element
  complete : .enumerate none ∈ events →
    ∀ element ∈ elements, element ∈ returned ∨ ∃ event ∈ events, event.Deletes key element

/-! ### The walk to the next element -/

section Walk

variable {links : Links} {depth turns : Nat} {element : Element Item} {rest : List (Element Item)}

omit [LinearOrder Key] in
/-- The walk down on the left from the root ends at the first element. -/
theorem leftmost_eq (arranged : Arranged (element :: rest) links depth)
    (enough : (element :: rest).length < turns) :
    ∃ node, rtlChild links (some .balancedRoot) .right = .ok node ∧ node ≠ none ∧
      repeatLoop .outOfTurns (deepestTurn links .left) turns node = .ok (some (place element)) := by
  obtain ⟨level, tree, height, held, _, _, elements⟩ := arranged
  have nonempty : tree ≠ .nil := by
    rintro rfl
    cases elements
  have size : tree.numNodes ≤ turns := by
    rw [← elements, elementsOf, List.length_map, length_inorder] at enough
    exact le_of_lt enough
  obtain ⟨inner, node, far, rfl, nothing, ran⟩ := deepest_eq .left turns [] tree held nonempty size
  refine ⟨_, by rw [rtlChild_eq held.above, link_child],
    fun none => nonempty (root_eq_none.mp none), ran.trans ?_⟩
  rw [elementsOf, inorder_plug, nothing] at elements
  cases elements
  rfl

omit [LinearOrder Key] in
/-- Behind `BalancedRoot` comes the first element. -/
theorem realSuccessor_balancedRoot (arranged : Arranged (element :: rest) links depth)
    (enough : (element :: rest).length < turns) :
    rtlRealSuccessor turns links (some .balancedRoot) = .ok (some (place element)) := by
  obtain ⟨node, child, present, ran⟩ := leftmost_eq arranged enough
  unfold rtlRealSuccessor realNeighbour
  rw [child, ok_bind, if_pos present]
  exact ran

end Walk

/-! ### The table as a cursor -/

section Cursors

variable {key : Item → Key} {compareRoutine : Item → Item → GenericCompareResults} {turns : Nat}
  {table : AvlTable Item} {position : Position (Element Item)} {elements : List (Element Item)}

/-- The table holds the elements that are there, and `RestartKey` is the place of the last one
passed. A restarted enumeration has passed none, and neither has one whose `RestartKey` is
`BalancedRoot`. -/
structure StandsAt (key : Item → Key) (table : AvlTable Item)
    (position : Position (Element Item)) : Prop where
  holds : TableHolds key table position.present
  restartKey : table.restartKey = elementPlace .left position.passed.reverse ∨
    (table.restartKey = none ∧ position.passed = [])

theorem walk_eq (stands : StandsAt key table position)
    (few : position.present.length < 2 ^ 32) (enough : position.present.length < turns) :
    rtlEnumerateGenericTableWithoutSplayingAvl turns table table.restartKey =
      match position.ahead with
      | [] => .ok (none, table.restartKey)
      | element :: _ => .ok (some (place element), some (place element)) := by
  obtain ⟨passed, ahead⟩ := position
  obtain ⟨⟨arranged, _, _, number⟩, restartKey⟩ := stands
  rw [Nat.mod_eq_of_lt few] at number
  unfold rtlEnumerateGenericTableWithoutSplayingAvl rtlIsGenericTableEmptyAvl
  rw [number]
  rcases List.eq_nil_or_concat passed with rfl | ⟨front, last, rfl⟩
  · cases ahead with
    | nil => exact if_pos rfl
    | cons element rest =>
      rw [if_neg (by simp [Position.present])]
      rcases restartKey with atRoot | ⟨restarted, _⟩
      · have atRoot : table.restartKey = some .balancedRoot := atRoot
        rw [atRoot, if_neg (by simp), realSuccessor_balancedRoot arranged enough, ok_bind]
        rfl
      · obtain ⟨node, child, _, ran⟩ := leftmost_eq arranged enough
        rw [restarted, if_pos rfl, child, ok_bind, ran]
        rfl
  · have atLast : table.restartKey = some (place last) := by
      rcases restartKey with behind | ⟨_, empty⟩
      · rw [behind, List.concat_eq_append, List.reverse_append]
        rfl
      · exact absurd empty (by simp)
    have whole : Position.present ⟨front.concat last, ahead⟩ = front ++ last :: ahead := by
      simp [Position.present]
    rw [whole] at arranged enough
    rw [if_neg (by simp [Position.present]), atLast, if_neg (by simp),
      realSuccessor_eq arranged enough, ok_bind]
    cases ahead <;> rfl

/-- The enumeration leads to the first element ahead. -/
theorem enumerate_eq (stands : StandsAt key table position)
    (few : position.present.length < 2 ^ 32) (enough : position.present.length < turns) :
    rtlEnumerateGenericTableAvl turns table false =
      match position.ahead with
      | [] => .ok (none, table)
      | element :: _ =>
        .ok (some (place element), { table with restartKey := some (place element) }) := by
  unfold rtlEnumerateGenericTableAvl
  simp only [Bool.false_eq_true, if_false, walk_eq stands few enough]
  cases position.ahead <;> rfl

omit [LinearOrder Key] in
theorem elementPlace_ne {elements : List (Element Item)} {element : Element Item}
    (apart : ∀ other ∈ elements, place element ≠ place other) :
    some (place element) ≠ elementPlace .left elements := by
  intro same
  cases elements with
  | nil => exact place_ne_balancedRoot element (Option.some.inj same)
  | cons other => exact apart other List.mem_cons_self (Option.some.inj same)

omit [LinearOrder Key] in
theorem elementPlace_concat (front : List (Element Item)) (last : Element Item) :
    elementPlace .left (front ++ [last]).reverse = some (place last) := by
  rw [List.reverse_append]
  rfl

/-- The deletion of an element that has been passed. Where it was the last of these, its
predecessor becomes the last. -/
theorem deletePassed_stands {front back ahead : List (Element Item)} {element : Element Item}
    (stands : StandsAt key table ⟨front ++ element :: back, ahead⟩)
    (enough : (Position.present ⟨front ++ element :: back, ahead⟩).length < turns) :
    ∃ next, rtlDeleteElementGenericTableAvlEx turns table (some (place element)) =
        .ok (true, next) ∧ StandsAt key next ⟨front ++ back, ahead⟩ := by
  obtain ⟨holds, restartKey⟩ := stands
  have passed : table.restartKey = elementPlace .left (front ++ element :: back).reverse :=
    restartKey.resolve_right fun restarted => absurd restarted.2 (by simp)
  have whole : Position.present ⟨front ++ element :: back, ahead⟩ =
      front ++ element :: (back ++ ahead) := by
    simp [Position.present]
  rw [whole] at holds enough
  have apart := (PointerTree.distinct_cons.mp
    (distinct_perm List.perm_middle holds.arranged.distinct)).2
  obtain ⟨next, ran, holds', moved⟩ := deleteEx_holds holds enough
  refine ⟨next, ran, by rwa [Position.present, List.append_assoc], .inl ?_⟩
  rw [moved, passed]
  rcases List.eq_nil_or_concat back with rfl | ⟨back, last, rfl⟩
  · rw [elementPlace_concat, if_pos rfl, List.append_nil]
  · have last' : place element ≠ place last := apart last (by simp)
    rw [List.concat_eq_append, ← List.cons_append, ← List.append_assoc, ← List.append_assoc,
      elementPlace_concat, elementPlace_concat, if_neg fun same => last' (Option.some.inj same)]

/-- The deletion of an element that lies ahead. -/
theorem deleteAhead_stands {passed front back : List (Element Item)} {element : Element Item}
    (stands : StandsAt key table ⟨passed, front ++ element :: back⟩)
    (enough : (Position.present ⟨passed, front ++ element :: back⟩).length < turns) :
    ∃ next, rtlDeleteElementGenericTableAvlEx turns table (some (place element)) =
        .ok (true, next) ∧ StandsAt key next ⟨passed, front ++ back⟩ := by
  obtain ⟨holds, restartKey⟩ := stands
  have whole : Position.present ⟨passed, front ++ element :: back⟩ =
      (passed ++ front) ++ element :: back := by
    simp [Position.present]
  rw [whole] at holds enough
  have apart := (PointerTree.distinct_cons.mp
    (distinct_perm List.perm_middle holds.arranged.distinct)).2
  have elsewhere : some (place element) ≠ table.restartKey := by
    rcases restartKey with behind | ⟨restarted, _⟩
    · rw [behind]
      exact elementPlace_ne fun other member => apart other
        (List.mem_append_left _ (List.mem_append_left _ (List.mem_reverse.mp member)))
    · rw [restarted]
      exact fun same => by cases same
  obtain ⟨next, ran, holds', moved⟩ := deleteEx_holds holds enough
  rw [if_neg elsewhere] at moved
  refine ⟨next, ran, by rwa [Position.present, ← List.append_assoc], ?_⟩
  rw [moved]
  exact restartKey

/-- The deletion of an element is a move of the cursor. -/
theorem deleteEx_stands (stands : StandsAt key table position)
    (enough : position.present.length < turns) {element : Element Item}
    (member : element ∈ position.present) :
    ∃ next later, rtlDeleteElementGenericTableAvlEx turns table (some (place element)) =
        .ok (true, next) ∧
      Cursor.Step position (.remove element) later ∧ StandsAt key next later := by
  obtain ⟨passed, ahead⟩ := position
  rcases List.mem_append.mp member with behind | beyond
  · obtain ⟨front, back, split⟩ := List.append_of_mem behind
    obtain rfl : passed = front ++ element :: back := split
    obtain ⟨next, ran, stands'⟩ := deletePassed_stands stands enough
    exact ⟨next, _, ran, .removePassed front element back ahead, stands'⟩
  · obtain ⟨front, back, split⟩ := List.append_of_mem beyond
    obtain rfl : ahead = front ++ element :: back := split
    obtain ⟨next, ran, stands'⟩ := deleteAhead_stands stands enough
    exact ⟨next, _, ran, .removeAhead passed front element back, stands'⟩

/-! ### Calls as moves -/

/-- The move of the cursor that a call makes. -/
inductive Reads (key : Item → Key) : EnumerationEvent Item → Move (Element Item) → Prop
  | returned (element : Element Item) :
      Reads key (.enumerate (some (place element))) (.advance element)
  | ended : Reads key (.enumerate none) .exhaust
  | deleted (element : Element Item) (buffer : Item) (same : key element.item = key buffer) :
      Reads key (.delete buffer true) (.remove element)
  | absent (buffer : Item) : Reads key (.delete buffer false) .idle
  | deletedEx (element : Element Item) :
      Reads key (.deleteEx element.address true) (.remove element)

/-- A call that keeps the rules returns. -/
def Returns (compareRoutine : Item → Item → GenericCompareResults) (turns : Nat)
    (table : AvlTable Item) : Prop :=
  (∃ result next, rtlEnumerateGenericTableAvl turns table false = .ok (result, next)) ∧
    (∀ buffer, ∃ result next,
      rtlDeleteElementGenericTableAvl compareRoutine turns table buffer = .ok (result, next)) ∧
    ∀ address, (table.data address).isSome → ∃ next,
      rtlDeleteElementGenericTableAvlEx turns table (some (.item address)) = .ok (true, next)

theorem enumerate_stands (stands : StandsAt key table position)
    (few : position.present.length < 2 ^ 32) (enough : position.present.length < turns) :
    ∃ result next move later, rtlEnumerateGenericTableAvl turns table false = .ok (result, next) ∧
      Reads key (.enumerate result) move ∧ Cursor.Step position move later ∧
      StandsAt key next later := by
  have ran := enumerate_eq stands few enough
  obtain ⟨passed, ahead⟩ := position
  cases ahead with
  | nil => exact ⟨_, _, _, _, ran, .ended, .exhaust passed, stands⟩
  | cons element ahead =>
    refine ⟨_, _, _, _, ran, .returned element, .advance passed element ahead, ?_, ?_⟩
    · have whole : Position.present ⟨passed ++ [element], ahead⟩ =
          Position.present ⟨passed, element :: ahead⟩ := by
        simp [Position.present]
      rw [whole]
      exact ⟨stands.holds.arranged, stands.holds.sorted, stands.holds.blocks, stands.holds.number⟩
    · exact .inl (elementPlace_concat passed element).symm

theorem delete_stands (orders : Orders key compareRoutine) (stands : StandsAt key table position)
    (few : position.present.length < 2 ^ 32) (enough : position.present.length < turns)
    (buffer : Item) :
    ∃ result next move later,
      rtlDeleteElementGenericTableAvl compareRoutine turns table buffer = .ok (result, next) ∧
      Reads key (.delete buffer result) move ∧ Cursor.Step position move later ∧
      StandsAt key next later := by
  rcases delete_cases orders stands.holds few enough buffer with
    ⟨element, member, same, ran⟩ | ⟨absent, ran⟩
  · obtain ⟨next, later, deleted, step, stands'⟩ := deleteEx_stands stands enough member
    exact ⟨true, next, _, later, ran.trans deleted, .deleted element buffer same, step, stands'⟩
  · exact ⟨false, table, _, position, ran, .absent buffer, .idle position, stands⟩

/-- Every call that keeps the rules makes a move. -/
theorem step_stands (orders : Orders key compareRoutine) (stands : StandsAt key table position)
    (few : position.present.length < 2 ^ 32) (enough : position.present.length < turns)
    {event : EnumerationEvent Item} {next : AvlTable Item}
    (step : EnumerationStep compareRoutine turns table event next) :
    ∃ move later, Reads key event move ∧ Cursor.Step position move later ∧
      StandsAt key next later := by
  cases event with
  | enumerate result =>
    obtain ⟨_, _, move, later, ran, reads, moved, stands'⟩ := enumerate_stands stands few enough
    cases ran.symm.trans step
    exact ⟨move, later, reads, moved, stands'⟩
  | delete buffer result =>
    obtain ⟨_, _, move, later, ran, reads, moved, stands'⟩ :=
      delete_stands orders stands few enough buffer
    cases ran.symm.trans step
    exact ⟨move, later, reads, moved, stands'⟩
  | deleteEx address result =>
    obtain ⟨mapped, step⟩ := step
    obtain ⟨item, held⟩ := Option.isSome_iff_exists.mp mapped
    obtain ⟨_, later, ran, moved, stands'⟩ :=
      deleteEx_stands stands enough ((stands.holds.blocks _ _).mp held)
    cases ran.symm.trans step
    exact ⟨_, later, .deletedEx ⟨address, item⟩, moved, stands'⟩

theorem returns_of_stands (orders : Orders key compareRoutine)
    (stands : StandsAt key table position) (few : position.present.length < 2 ^ 32)
    (enough : position.present.length < turns) : Returns compareRoutine turns table := by
  refine ⟨?_, fun buffer => ?_, fun address mapped => ?_⟩
  · obtain ⟨result, next, _, _, ran, _⟩ := enumerate_stands stands few enough
    exact ⟨result, next, ran⟩
  · obtain ⟨result, next, _, _, ran, _⟩ := delete_stands orders stands few enough buffer
    exact ⟨result, next, ran⟩
  · obtain ⟨item, held⟩ := Option.isSome_iff_exists.mp mapped
    obtain ⟨next, _, ran, _⟩ :=
      deleteEx_stands stands enough ((stands.holds.blocks _ _).mp held)
    exact ⟨next, ran⟩

/-! ### Runs as runs of the cursor -/

omit [LinearOrder Key] in
/-- A restart is a call on the table without its `RestartKey`. -/
theorem run_of_enumeration {events : List (EnumerationEvent Item)} {current : AvlTable Item}
    (run : EnumerationRun compareRoutine turns table events current) :
    Run (EnumerationStep compareRoutine turns) { table with restartKey := none } events
      current := by
  induction run with
  | restart result next ran => exact .cons .nil ran
  | step _ _ _ _ _ step inductionHypothesis => exact .cons inductionHypothesis step

/-- A restart puts the cursor in front of the first element. -/
theorem start_stands (valid : Valid key table elements) :
    StandsAt key { table with restartKey := none } ⟨[], elements⟩ := by
  obtain ⟨⟨arranged, sorted, blocks, number⟩, _⟩ := valid_iff.mp valid
  exact ⟨⟨arranged, sorted, blocks, number⟩, .inr ⟨rfl, rfl⟩⟩

/-- An enumeration of a valid table is a run of the cursor on the list of its elements. -/
theorem run_stands (orders : Orders key compareRoutine) (valid : Valid key table elements)
    (enough : elements.length < turns) {events : List (EnumerationEvent Item)}
    {current : AvlTable Item} (run : EnumerationRun compareRoutine turns table events current) :
    ∃ moves position, CursorRun elements moves position ∧
      List.Forall₂ (Reads key) events moves ∧ StandsAt key current position := by
  obtain ⟨holds, few⟩ := valid_iff.mp valid
  refine (run_of_enumeration run).simulates (StandsAt key) (Reads key) (start_stands valid) ?_
  intro moves before position event after cursor stands step
  have length := (Cursor.present_sublist cursor).length_le
  exact step_stands orders stands (by omega) (by omega) step

section Readings

variable {events : List (EnumerationEvent Item)} {moves : List (Move (Element Item))}

omit [LinearOrder Key] in
theorem returnedPlaces_eq (readings : List.Forall₂ (Reads key) events moves) :
    returnedPlaces events = (advanced moves).map place := by
  induction readings with
  | nil => rfl
  | cons reading _ inductionHypothesis =>
    cases reading with
    | returned =>
      rw [returnedPlaces, advanced, inductionHypothesis, List.map_append]
      rfl
    | ended => exact inductionHypothesis
    | deleted => exact inductionHypothesis
    | absent => exact inductionHypothesis
    | deletedEx => exact inductionHypothesis

omit [LinearOrder Key] in
theorem exists_event (readings : List.Forall₂ (Reads key) events moves)
    {move : Move (Element Item)} (member : move ∈ moves) :
    ∃ event ∈ events, Reads key event move := by
  induction readings with
  | nil => exact absurd member List.not_mem_nil
  | cons reading _ inductionHypothesis =>
    rcases List.mem_cons.mp member with rfl | earlier
    · exact ⟨_, List.mem_cons_self, reading⟩
    · obtain ⟨event, within, reads⟩ := inductionHypothesis earlier
      exact ⟨event, List.mem_cons_of_mem _ within, reads⟩

omit [LinearOrder Key] in
theorem exists_move (readings : List.Forall₂ (Reads key) events moves)
    {event : EnumerationEvent Item} (member : event ∈ events) :
    ∃ move ∈ moves, Reads key event move := by
  induction readings with
  | nil => exact absurd member List.not_mem_nil
  | cons reading _ inductionHypothesis =>
    rcases List.mem_cons.mp member with rfl | earlier
    · exact ⟨_, List.mem_cons_self, reading⟩
    · obtain ⟨move, within, reads⟩ := inductionHypothesis earlier
      exact ⟨move, List.mem_cons_of_mem _ within, reads⟩

omit [LinearOrder Key] in
theorem Reads.deletes {event : EnumerationEvent Item} {element : Element Item}
    (reads : Reads key event (.remove element)) : event.Deletes key element := by
  cases reads with
  | deleted _ _ same => exact ⟨rfl, same⟩
  | deletedEx => exact ⟨rfl, rfl⟩

omit [LinearOrder Key] in
theorem Reads.advance {there : Place} {move : Move (Element Item)}
    (reads : Reads key (.enumerate (some there)) move) :
    ∃ element, place element = there ∧ move = .advance element := by
  cases reads with
  | returned element => exact ⟨element, rfl, rfl⟩

theorem eq_of_key_eq (sorted : Sorted (elementKey key) elements) {element other : Element Item}
    (member : element ∈ elements) (member' : other ∈ elements)
    (same : key element.item = key other.item) : element = other := by
  have nodup : (elements.map (elementKey key)).Nodup :=
    List.pairwise_map.mpr (sorted.imp ne_of_lt)
  exact List.inj_on_of_nodup_map nodup member member' same

omit [LinearOrder Key] in
theorem eq_of_place_eq (distinct : Distinct place .balancedRoot elements)
    {element other : Element Item} (member : element ∈ elements) (member' : other ∈ elements)
    (same : place element = place other) : element = other :=
  List.inj_on_of_nodup_map distinct.nodup member member' same

/-- A call that deletes an element removes it: the elements are told apart by their keys and by
their addresses. -/
theorem Reads.remove {event : EnumerationEvent Item} {move : Move (Element Item)}
    {element : Element Item} (sorted : Sorted (elementKey key) elements)
    (distinct : Distinct place .balancedRoot elements) (member : element ∈ elements)
    (within : ∀ other, move = .remove other → other ∈ elements) (reads : Reads key event move)
    (deletes : event.Deletes key element) : move = .remove element := by
  cases reads with
  | returned => exact absurd deletes id
  | ended => exact absurd deletes id
  | deleted other buffer same =>
    rw [eq_of_key_eq sorted member (within other rfl) (deletes.2.trans same.symm)]
  | absent => exact absurd deletes.1 nofun
  | deletedEx other =>
    rw [eq_of_place_eq distinct member (within other rfl) (congrArg Place.item deletes.2)]

/-- What the cursor does is what the enumeration is to do. -/
theorem enumerated_of_cursor {position : Position (Element Item)}
    (sorted : Sorted (elementKey key) elements) (distinct : Distinct place .balancedRoot elements)
    (cursor : CursorRun elements moves position)
    (readings : List.Forall₂ (Reads key) events moves) :
    Enumerated key elements events (advanced moves) := by
  refine ⟨returnedPlaces_eq readings, Cursor.mem_of_advanced cursor,
    Cursor.sorted_advanced sorted cursor, ?_, ?_⟩
  · rintro later earlier element member rfl event within deletes
    have tail := List.forall₂_drop later.length readings
    rw [List.drop_left, List.forall₂_cons_left_iff] at tail
    obtain ⟨move, before, reading, readings', split⟩ := tail
    have whole : moves = moves.take later.length ++ move :: before := by
      rw [← split, List.take_append_drop]
    obtain ⟨other, same, rfl⟩ := reading.advance
    have advancing : .advance other ∈ moves := by
      rw [whole]
      exact List.mem_append_right _ List.mem_cons_self
    obtain rfl := eq_of_place_eq distinct
      (Cursor.mem_of_advanced cursor other (Cursor.mem_advanced advancing)) member same
    obtain ⟨move, made, reads⟩ := exists_move readings' within
    have removing : move = .remove other := by
      refine reads.remove sorted distinct member (fun gone is => ?_) deletes
      refine Cursor.mem_of_removed cursor gone ?_
      rw [whole, ← is]
      exact List.mem_append_right _ (List.mem_cons_of_mem _ made)
    rw [removing] at made
    exact Cursor.not_removed_before sorted cursor whole made
  · intro ended element member
    obtain ⟨move, within, reads⟩ := exists_move readings ended
    cases reads with
    | ended =>
      refine (Cursor.advanced_or_removed cursor within element member).imp_right fun removed => ?_
      obtain ⟨event, called, reads⟩ := exists_event readings removed
      exact ⟨event, called, reads.deletes⟩

end Readings

/-- On every enumeration of a valid table, with deletions by key and by node between its calls,
the elements returned are strictly increasing, none of them has been deleted before, and once
NULL has been returned so has every element that has not been deleted. Every call returns. -/
theorem enumerate_deletions (orders : Orders key compareRoutine)
    (valid : Valid key table elements) (enough : elements.length < turns) :
    (∃ result next, rtlEnumerateGenericTableAvl turns table true = .ok (result, next)) ∧
      ∀ events current, EnumerationRun compareRoutine turns table events current →
        (∃ returned, Enumerated key elements events returned) ∧
          Returns compareRoutine turns current := by
  obtain ⟨holds, few⟩ := valid_iff.mp valid
  refine ⟨?_, fun events current run => ?_⟩
  · obtain ⟨result, next, _, _, ran, _⟩ := enumerate_stands (start_stands valid) few enough
    exact ⟨result, next, ran⟩
  · obtain ⟨moves, position, cursor, readings, stands⟩ := run_stands orders valid enough run
    have length := (Cursor.present_sublist cursor).length_le
    refine ⟨⟨_, enumerated_of_cursor holds.sorted holds.arranged.distinct cursor readings⟩, ?_⟩
    exact returns_of_stands orders stands (by omega) (lt_of_le_of_lt length enough)

end Cursors

/-- A table of two numbers, the lesser one below the greater. -/
def exampleTable : AvlTable Nat where
  links := fun
    | .balancedRoot => some ⟨some .balancedRoot, none, some (.item 100), 0⟩
    | .item address =>
      if address = 100 then some ⟨some .balancedRoot, some (.item 200), none, -1⟩
      else if address = 200 then some ⟨some (.item 100), none, none, 0⟩ else none
  data := fun address => if address = 100 then some 5 else if address = 200 then some 3 else none
  orderedPointer := none
  whichOrderedElement := 0
  numberGenericTableElements := 2
  depthOfTree := 2
  restartKey := none
  deleteCount := 0

theorem valid_exampleTable : Valid id exampleTable [⟨200, 3⟩, ⟨100, 5⟩] where
  tree := by
    refine ⟨0, .node (⟨100, 5⟩, -1) (.node (⟨200, 3⟩, 0) .nil .nil) .nil, ?_, rfl, ?_, ?_, rfl, rfl⟩
    · exact ⟨⟨rfl, ⟨rfl, trivial, trivial⟩, trivial⟩, rfl, ⟨by decide, fun _ _ => nofun⟩⟩
    · rw [searchTree_iff_sorted, ← sorted_elements]
      exact .cons (by decide) (.cons (by decide) .nil)
    · exact ⟨⟨rfl, by decide, by decide⟩, ⟨⟨rfl, by decide, by decide⟩, trivial, trivial⟩, trivial⟩
  blocks := by
    intro address item
    simp only [exampleTable, List.mem_cons, List.not_mem_nil, or_false, Element.mk.injEq]
    split_ifs with first second
    · simp [first, eq_comm]
    · simp [second, eq_comm]
    · simp [first, second]
  range := by decide

theorem enumerate_deletions_exampleTable :
    (∃ result next, rtlEnumerateGenericTableAvl 3 exampleTable true = .ok (result, next)) ∧
      ∀ events current, EnumerationRun compareNumbers 3 exampleTable events current →
        (∃ returned, Enumerated id [⟨200, 3⟩, ⟨100, 5⟩] events returned) ∧
          Returns compareNumbers 3 current :=
  enumerate_deletions orders_compareNumbers valid_exampleTable (by decide)

end Nloader.Avl
