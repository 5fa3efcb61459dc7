/-
This file follows `RtlDeleteElementGenericTable`. Once the item is at the root, the function
joins what lies on its two sides: with nothing on the left the right side becomes the tree,
and otherwise the left side is splayed by the deleted item, which leaves its greatest
element without a right child, and takes the right side. Both ways end by writing the
`Parent` of the right side, which is NULL where the deleted item was the greatest.
-/

import Nloader.SplayTable

namespace Nloader.Splay

open Outcome TreePath PointerTree PointerRing

variable {Item Key : Type} [LinearOrder Key]

section Calls

variable {key : Item → Key} {compareRoutine : Item → Item → GenericCompareResults}
  {table : GenericTable Item} {elements : List (Element Item)} {turns : Nat}

/-! ### The tree without its root -/

theorem setParent_null (links : Links) (value : Option Place) :
    setParent links none value = .error .nullDereference := rfl

/-- The end of both ways: the right side is adopted, unless it is empty. -/
theorem setParent_side {links : Links} {right : BinaryTree (Element Item)}
    (represents : Represents Element.place (childrenOf links) right) (value : Option Place) :
    (right = .nil ∧ setParent links (pointer Element.place right) value =
      .error .nullDereference) ∨
    (right ≠ .nil ∧ ∃ links', setParent links (pointer Element.place right) value = .ok links' ∧
      childrenOf links' = childrenOf links) := by
  cases right with
  | nil => exact .inl ⟨rfl, setParent_null links value⟩
  | node element left far =>
    exact .inr ⟨nofun, setParent_eq links element.place value represents.mapped⟩

/-- A splay for an item beyond all elements brings the greatest of them to the root. -/
theorem Splayed.greatest {item : Item} {before : List (Element Item)}
    {left right : BinaryTree (Element Item)} {element : Element Item}
    (splayed : Splayed key item before left element right)
    (less : ∀ other ∈ before, key other.item < key item) :
    right = .nil ∧ before = inorder left ++ [element] := by
  cases right with
  | nil => exact ⟨rfl, splayed.same.symm⟩
  | node far farLeft farRight =>
    have inRight : far ∈ inorder (.node far farLeft farRight) := by simp [inorder]
    have above := splayed.above far inRight
    have below : key far.item < key item := by
      refine less far ?_
      rw [← splayed.same, inorder, List.mem_append, List.mem_cons]
      exact .inr (.inr inRight)
    exact absurd (lt_trans above below) (lt_irrefl _)

/-- The right side is hung below the greatest element of the left one. -/
theorem hang_right {links : Links} {left right : BinaryTree (Element Item)} {next : Element Item}
    (represents : Represents Element.place (childrenOf links) (.node next left .nil))
    (rights : Represents Element.place (childrenOf links) right)
    (leftApart : ∀ other ∈ inorder left, other.place ≠ next.place)
    (rightApart : ∀ other ∈ inorder right, other.place ≠ next.place) :
    ∃ links', setChild links (some next.place) .right (pointer Element.place right) = .ok links' ∧
      childrenOf links' = put (childrenOf links) next.place .right (pointer Element.place right) ∧
      Represents Element.place (childrenOf links') (.node next left right) := by
  obtain ⟨links', hung, children⟩ := setChild_eq links next.place .right
    (pointer Element.place right) (mapped_of_child represents.1.1)
  refine ⟨links', hung, children, ?_⟩
  rw [children]
  exact represents_hang_right represents rights leftApart rightApart

/-- With nothing on the left, the right side becomes the tree. -/
theorem deleteRoot_nil_eq (compareRoutine : Item → Item → GenericCompareResults) (turns : Nat)
    {right : BinaryTree (Element Item)} {element : Element Item}
    (treeHolds : TreeHolds key table (.node element .nil right)) :
    deleteRoot compareRoutine turns table =
      setParent table.links (pointer Element.place right) none >>= fun links =>
        pure { table with links, tableRoot := pointer Element.place right } := by
  obtain ⟨root, ⟨⟨heldLeft, heldRight⟩, _⟩, _⟩ := treeHolds
  have rootIs : table.tableRoot = some element.place := root
  unfold deleteRoot
  simp only [rootIs, child_eq heldLeft, child_eq heldRight, ok_bind, pointer, if_true]

/-- The root is taken out of the tree, unless nothing lies on its right. -/
theorem deleteRoot_eq (orders : Orders key compareRoutine)
    {left right : BinaryTree (Element Item)} {element : Element Item}
    (treeHolds : TreeHolds key table (.node element left right))
    (ordered : Ordered key table.data (inorder (.node element left right)))
    (enough : (BinaryTree.node element left right).numNodes < turns) :
    (right = .nil ∧ deleteRoot compareRoutine turns table = .error .nullDereference) ∨
    (right ≠ .nil ∧ ∃ links' tree', deleteRoot compareRoutine turns table =
        .ok { table with links := links', tableRoot := pointer Element.place tree' } ∧
      Represents Element.place (childrenOf links') tree' ∧
      SearchTree (elementKey key) tree' ∧
      inorder tree' = inorder left ++ inorder right) := by
  have whole := treeHolds
  obtain ⟨root, ⟨⟨heldLeft, heldRight⟩, lefts, rights⟩, ⟨leftLess, rightGreater⟩, searchLeft,
    searchRight⟩ := treeHolds
  have rootIs : table.tableRoot = some element.place := root
  by_cases empty : left = .nil
  · subst empty
    rw [deleteRoot_nil_eq compareRoutine turns whole]
    rcases setParent_side rights none with ⟨none, stopped⟩ | ⟨some, links', adopted, same⟩
    · exact .inl ⟨none, by rw [stopped]; rfl⟩
    · refine .inr ⟨some, links', right, by rw [adopted]; rfl, by rw [same]; exact rights,
        searchRight, rfl⟩
  · have parts := ordered.distinct
    rw [inorder, distinct_append, distinct_cons] at parts
    obtain ⟨⟨distinctLeft, ⟨_, _⟩, elementRight⟩, leftRest⟩ := parts
    have elementAway : ∀ other ∈ inorder left, other.place ≠ element.place :=
      fun other member => leftRest other member element List.mem_cons_self
    have rightAway : ∀ {other}, other ∈ inorder right →
        ∀ inLeft ∈ inorder left, inLeft.place ≠ other.place := fun member inLeft there =>
      leftRest inLeft there _ (List.mem_cons_of_mem _ member)
    have orderedLeft : Ordered key table.data (inorder left) :=
      ⟨fun other member => ordered.stored other (List.mem_append_left _ member),
        (searchTree_iff_sorted _ _).mp searchLeft, distinctLeft⟩
    rw [BinaryTree.numNodes] at enough
    obtain ⟨links, left', next, right', ran, represents, splayed, untouched⟩ :=
      @splay_holds _ _ _ _ _ orders { table with tableRoot := pointer Element.place left } left
        empty rfl lefts orderedLeft turns (by omega) element.item
    obtain ⟨nothing, order⟩ := splayed.greatest leftLess
    subst nothing
    have nextLeft : next ∈ inorder left := by
      rw [order]
      exact List.mem_append_right _ (List.mem_singleton_self _)
    have notFound : compareRoutine element.item next.item ≠ .equal := fun found =>
      absurd ((orders.equal _ _).mp found).symm (ne_of_lt (leftLess next nextLeft))
    have distinctNext := distinctLeft
    rw [order, distinct_append] at distinctNext
    have elementKept : childrenOf links element.place = childrenOf table.links element.place :=
      untouched _ element.place_ne_next elementAway
    have rightsKept : Represents Element.place (childrenOf links) right :=
      rights.congr fun other member =>
        untouched _ other.place_ne_next (rightAway member)
    obtain ⟨links₁, hung, children₁, joined⟩ := hang_right represents rightsKept
      (fun other member => distinctNext.2 other member next (List.mem_singleton_self _))
      fun other member => (rightAway member next nextLeft).symm
    have heldRight₀ : childrenOf links element.place .right =
        some (pointer Element.place right) := by
      rw [elementKept]
      exact heldRight
    have heldRight₁ : childrenOf links₁ element.place .right =
        some (pointer Element.place right) := by
      rw [children₁, put_elsewhere (elementAway next nextLeft).symm]
      exact heldRight₀
    have searchNext : SearchTree (elementKey key) (.node next left' right) := by
      have sorted := orderedLeft.sorted
      rw [← splayed.same, ← searchTree_iff_sorted] at sorted
      obtain ⟨⟨below, _⟩, searchLeft', _⟩ := sorted
      exact ⟨⟨below, fun other member =>
        lt_trans (leftLess next nextLeft) (rightGreater other member)⟩, searchLeft', searchRight⟩
    have someLeft : pointer Element.place left ≠ none := fun none => empty (pointer_eq_none.mp none)
    have unfolded : deleteRoot compareRoutine turns table =
        setParent links₁ (pointer Element.place right) (some next.place) >>= fun links =>
          pure { table with links, tableRoot := some next.place } := by
      unfold deleteRoot
      have elementData : itemdata table.data (some element.place) = .ok element.item :=
        deref_eq (ordered.stored element (by simp [inorder]))
      simp only [rootIs, child_eq heldLeft, ok_bind, if_neg someLeft, elementData, ran, notFound,
        decide_false, Bool.false_eq_true, if_false, child_eq heldRight₀, hung,
        child_eq heldRight₁]
    rw [unfolded]
    rcases setParent_side joined.2.2 (some next.place) with
      ⟨none, stopped⟩ | ⟨some, links', adopted, same⟩
    · exact .inl ⟨none, by rw [stopped]; rfl⟩
    · refine .inr ⟨some, links', .node next left' right, by rw [adopted]; rfl,
        by rw [same]; exact joined, searchNext, ?_⟩
      rw [order, List.append_assoc]
      rfl

/-! ### The list without an entry -/

/-- An entry is unlinked from the list, while elements are left. -/
theorem deleteEntry_eq {entries : EntryPlace → Option ListEntry} {number : Nat}
    {places later : List EntryPlace} {deleted : EntryPlace} (left : number ≠ 0)
    (linked : Linked (entryPointers entries) .insertOrderList (places ++ deleted :: later))
    (nodup : (EntryPlace.insertOrderList :: (places ++ deleted :: later)).Nodup) :
    ∃ entries', deleteEntry number entries (some deleted) = .ok entries' ∧
      Linked (entryPointers entries') .insertOrderList (places ++ later) := by
  obtain ⟨front, rear⟩ := segment_append.mp linked
  have flink := rear.forward_before
  have blink := front.backward_after
  have read := deref_entry flink blink
  obtain ⟨old, lastForward⟩ := front.forward_held _ (lastOf_mem _ _)
  obtain ⟨old', firstBackward⟩ := rear.backward_held _ (firstOf_mem _ _)
  have apart := nodup
  rw [← List.cons_append] at apart
  have lastDeleted : lastOf EntryPlace.insertOrderList places ≠ deleted :=
    (List.nodup_append.mp apart).2.2 _ (lastOf_mem _ _) deleted List.mem_cons_self
  obtain ⟨entries₁, first, pointers₁⟩ :=
    setFlink_eq lastForward (some (firstOf EntryPlace.insertOrderList later))
  have read₁ : deref entries₁ (some deleted) = .ok
      { flink := some (firstOf EntryPlace.insertOrderList later)
        blink := some (lastOf EntryPlace.insertOrderList places) } :=
    deref_entry
      (by
        rw [pointers₁]
        exact (Function.update_of_ne lastDeleted.symm _ _).trans flink)
      (by rw [pointers₁]; exact blink)
  obtain ⟨entries₂, second, pointers₂⟩ := @setBlink_eq entries₁
    (firstOf .insertOrderList later) old' (by rw [pointers₁]; exact firstBackward)
    (some (lastOf .insertOrderList places))
  refine ⟨entries₂, ?_, ?_⟩
  · unfold deleteEntry
    rw [if_neg left, read, ok_bind, first, ok_bind, read₁, ok_bind]
    exact second
  · rw [pointers₂, pointers₁]
    refine linked.remove nodup (Function.update_self _ _ _) (Function.update_self _ _ _)
      (fun other notLast _ => Function.update_of_ne notLast _ _)
      (fun other notFirst _ => Function.update_of_ne notFirst _ _)

/-! ### Deletion -/

theorem decrement_succ (counter : Nat) :
    decrement ((counter + 1) % 2 ^ 32) = counter % 2 ^ 32 := by
  unfold decrement
  omega

/-- The item has the greatest key of the elements. -/
def Greatest (key : Item → Key) (elements : List (Element Item)) (buffer : Item) : Prop :=
  (∃ element ∈ elements, key element.item = key buffer) ∧
    ∀ element ∈ elements, key element.item ≤ key buffer

/-- What a deletion is to do: take the element with the key out of the list, if there is
one. -/
inductive DeleteSpec (key : Item → Key) (elements : List (Element Item)) (buffer : Item) :
    Bool → List (Element Item) → Prop
  | absent (absent : ∀ element ∈ elements, key element.item ≠ key buffer) :
      DeleteSpec key elements buffer false elements
  | removed (before : List (Element Item)) (element : Element Item)
      (after : List (Element Item)) (split : elements = before ++ element :: after)
      (same : key element.item = key buffer) :
      DeleteSpec key elements buffer true (before ++ after)

/-- The right side of the root that has the key is empty exactly where the key is the
greatest. -/
theorem greatest_iff {buffer : Item} {left right : BinaryTree (Element Item)}
    {element : Element Item} (perm : (inorder (.node element left right)).Perm elements)
    (search : SearchTree (elementKey key) (.node element left right))
    (same : key element.item = key buffer) : Greatest key elements buffer ↔ right = .nil := by
  obtain ⟨⟨below, above⟩, _⟩ := search
  constructor
  · rintro ⟨_, greatest⟩
    cases right with
    | nil => rfl
    | node far farLeft farRight =>
      have greater := above far (by simp [inorder])
      have least := greatest far (perm.mem_iff.mp (by simp [inorder]))
      rw [← same] at least
      exact absurd least (not_le_of_gt greater)
  · rintro rfl
    refine ⟨⟨element, mem_root perm, same⟩, fun other member => ?_⟩
    rw [← perm.mem_iff, inorder, List.mem_append, List.mem_cons] at member
    rw [← same]
    rcases member with less | rfl | nothing
    · exact le_of_lt (below other less)
    · exact le_refl _
    · cases nothing

/-- The block of an element is given back. -/
theorem freeRoutine_holds {before after : List (Element Item)} {element : Element Item}
    {links : Links} {entries : EntryPlace → Option ListEntry}
    {tree : BinaryTree (Element Item)} {number : Nat}
    (holds : TableHolds key table (before ++ element :: after))
    (represents : Represents Element.place (childrenOf links) tree)
    (search : SearchTree (elementKey key) tree) (perm : (inorder tree).Perm (before ++ after))
    (linked : Linked (entryPointers entries) .insertOrderList
      ((before ++ after).map Element.entry))
    (count : number = (before ++ after).length % 2 ^ 32) :
    TableHolds key
      { freeRoutine { table with
          links, entries, tableRoot := pointer Element.place tree
          numberGenericTableElements := number } (some element.place) with
        whichOrderedElement := 0, orderedPointer := some .insertOrderList }
      (before ++ after) := by
  have nodup := holds.nodup
  rw [List.map_append, List.map_cons, List.nodup_middle, List.nodup_cons, ← List.map_append]
    at nodup
  obtain ⟨gone, rest⟩ := nodup
  have apart : ∀ other ∈ before ++ after, other.address ≠ element.address := by
    intro other member same
    exact gone (same ▸ List.mem_map_of_mem member)
  refine ⟨⟨tree, ⟨rfl, ?_, search⟩, perm⟩, ?_, rest, ?_, count, ?_⟩
  · refine represents.congr fun other member => childrenOf_remove _ _ fun same => ?_
    exact apart other (perm.mem_iff.mp member) (Place.item.inj same)
  · have kept : ∀ place ∈ EntryPlace.insertOrderList :: (before ++ after).map Element.entry,
        Function.update entries (.item element.address) none place = entries place := by
      intro place member
      refine Function.update_of_ne ?_ _ _
      rintro rfl
      rcases List.mem_cons.mp member with atHead | within
      · cases atHead
      · obtain ⟨other, inList, same⟩ := List.mem_map.mp within
        exact apart other inList (EntryPlace.item.inj same)
    refine linked.congr (fun place member => ?_) (fun place member => ?_)
    · exact congrArg (Option.map ListEntry.flink) (kept place member)
    · refine congrArg (Option.map ListEntry.blink) (kept place ?_)
      rcases member with within | rfl
      · exact List.mem_cons_of_mem _ within
      · exact List.mem_cons_self
  · intro address item
    change Function.update table.data element.address none address = some item ↔ _
    by_cases same : address = element.address
    · rw [same, Function.update_self]
      exact iff_of_false nofun fun member => apart _ member rfl
    · rw [Function.update_of_ne same, holds.blocks, List.mem_append, List.mem_append,
        List.mem_cons]
      refine or_congr_right (or_iff_right fun new => same ?_)
      rw [← new]
  · have room := holds.room
    rw [List.length_append, List.length_cons] at room
    rw [List.length_append]
    omega

/-- A deletion whose parts succeed. -/
theorem delete_eq {buffer : Item} {splayed removed : GenericTable Item}
    {entries : EntryPlace → Option ListEntry}
    (found : splay compareRoutine turns table buffer = .ok (true, splayed))
    (root : deleteRoot compareRoutine turns splayed = .ok removed)
    (entry : deleteEntry (decrement removed.numberGenericTableElements) removed.entries
      (treeitemToEntry splayed.tableRoot) = .ok entries) :
    rtlDeleteElementGenericTable compareRoutine turns table buffer =
      .ok (true, { freeRoutine { removed with
          entries, numberGenericTableElements := decrement removed.numberGenericTableElements }
          splayed.tableRoot with
        whichOrderedElement := 0, orderedPointer := some .insertOrderList }) := by
  unfold rtlDeleteElementGenericTable
  rw [found, ok_bind]
  dsimp only
  rw [if_neg (by decide), root, ok_bind, entry, ok_bind, pure_eq]

/-- `RtlDeleteElementGenericTable` does what a deletion is to do, except on the greatest
element, where it writes through a NULL child. -/
theorem delete_holds (orders : Orders key compareRoutine) (holds : TableHolds key table elements)
    (enough : elements.length < turns) (buffer : Item) :
    (Greatest key elements buffer ∧ rtlDeleteElementGenericTable compareRoutine turns table
      buffer = .error .nullDereference) ∨
    (¬ Greatest key elements buffer ∧ ∃ result table' elements',
      rtlDeleteElementGenericTable compareRoutine turns table buffer = .ok (result, table') ∧
      TableHolds key table' elements' ∧ DeleteSpec key elements buffer result elements') := by
  rcases splay_table orders holds enough buffer with
    ⟨empty, _, ran⟩ | ⟨links, left, element, right, before, ran, treeHolds, perm, splayed⟩
  · have absent : ∀ element ∈ elements, key element.item ≠ key buffer := by
      intro element member
      rw [empty] at member
      cases member
    refine .inr ⟨fun greatest => ?_, false, table, elements, ?_, holds, .absent absent⟩
    · obtain ⟨⟨element, member, same⟩, _⟩ := greatest
      exact absent element member same
    · rw [rtlDeleteElementGenericTable, ran]
      rfl
  · have holds' := holds.reroot treeHolds perm
    by_cases found : compareRoutine buffer element.item = .equal
    · have same := ((orders.equal _ _).mp found).symm
      have size : (BinaryTree.node element left right).numNodes < turns := by
        rw [← length_inorder, perm.length_eq]
        exact enough
      rw [decide_eq_true found] at ran
      rw [greatest_iff perm treeHolds.search same]
      rcases deleteRoot_eq orders treeHolds (holds'.ordered treeHolds perm) size with
        ⟨none, stopped⟩ | ⟨some, links', tree', removed, represents, search, order⟩
      · refine .inl ⟨none, ?_⟩
        unfold rtlDeleteElementGenericTable
        simp only [ran, ok_bind, Bool.true_eq_false, if_false, stopped, error_bind]
      · obtain ⟨earlier, later, split⟩ := List.append_of_mem (mem_root perm)
        subst split
        have remaining : (inorder tree').Perm (earlier ++ later) := by
          rw [order]
          refine (List.perm_cons element).mp ?_
          exact (List.perm_middle.symm.trans perm).trans List.perm_middle
        have count : decrement table.numberGenericTableElements =
            (earlier ++ later).length % 2 ^ 32 := by
          have size : (earlier ++ element :: later).length = (earlier ++ later).length + 1 := by
            rw [List.length_append, List.length_cons, List.length_append, Nat.add_assoc]
          rw [holds.number, size]
          exact decrement_succ _
        have nonempty : decrement table.numberGenericTableElements ≠ 0 := by
          have length := remaining.length_eq
          have room := holds.room
          have positive : 0 < (inorder right).length := by
            rw [length_inorder]
            cases right with
            | nil => exact absurd rfl some
            | node far farLeft farRight => exact Nat.succ_pos _
          rw [order, List.length_append, List.length_append] at length
          rw [List.length_append, List.length_cons] at room
          rw [count, List.length_append]
          omega
        have linked := holds.list
        have entriesNodup := nodup_entries holds.nodup
        rw [List.map_append, List.map_cons] at linked entriesNodup
        obtain ⟨entries', unlinked, linked'⟩ := deleteEntry_eq nonempty linked entriesNodup
        rw [← List.map_append] at linked'
        refine .inr ⟨some, true, _, earlier ++ later, ?_,
          freeRoutine_holds holds' represents search remaining linked' count,
          .removed earlier element later rfl same⟩
        exact delete_eq ran removed unlinked
    · have differs : key element.item ≠ key buffer :=
        fun same => found ((orders.equal _ _).mpr same.symm)
      have absent := splayed.absent perm differs
      rw [decide_eq_false found] at ran
      refine .inr ⟨fun greatest => ?_, false, _, elements, ?_, holds', .absent absent⟩
      · obtain ⟨⟨other, member, same⟩, _⟩ := greatest
        exact absent other member same
      · unfold rtlDeleteElementGenericTable
        simp only [ran, ok_bind, if_true]
        rfl

/-! ### Deletion, however long it runs -/

omit [LinearOrder Key] in
theorem splay_extends {longer : Nat} (larger : turns ≤ longer) (item : Item) :
    Extends .outOfTurns (splay compareRoutine turns table item)
      (splay compareRoutine longer table item) := by
  unfold splay
  split
  · exact .refl _
  · exact (repeatLoop_extends _ _ larger).bind fun _ => .refl _

omit [LinearOrder Key] in
theorem deleteRoot_extends {longer : Nat} (larger : turns ≤ longer) :
    Extends .outOfTurns (deleteRoot compareRoutine turns table)
      (deleteRoot compareRoutine longer table) := by
  unfold deleteRoot
  refine (Extends.refl _).bind fun near => ?_
  by_cases empty : near = none
  · rw [if_pos empty, if_pos empty]
    exact .refl _
  · rw [if_neg empty, if_neg empty]
    exact (Extends.refl _).bind fun _ => (splay_extends larger _).bind fun _ => .refl _

omit [LinearOrder Key] in
theorem delete_extends {longer : Nat} (larger : turns ≤ longer) (buffer : Item) :
    Extends .outOfTurns (rtlDeleteElementGenericTable compareRoutine turns table buffer)
      (rtlDeleteElementGenericTable compareRoutine longer table buffer) := by
  unfold rtlDeleteElementGenericTable
  refine (splay_extends larger buffer).bind fun (found, splayed) => ?_
  cases found with
  | false => exact .refl _
  | true => exact (deleteRoot_extends larger).bind fun _ => .refl _

/-- What a table holds, with the tree of its elements, and with a count that fits. -/
structure Intact (key : Item → Key) (table : GenericTable Item)
    (tree : BinaryTree (Element Item)) (elements : List (Element Item)) : Prop where
  holds : TableHolds key table elements
  treeHolds : TreeHolds key table tree
  perm : (inorder tree).Perm elements
  count : table.numberGenericTableElements = elements.length

/-- What a deletion leaves of a table: the elements of the tree, from left to right, and the
list, both without the element that has the key, whose block is given back. -/
inductive Deletion (key : Item → Key) (table : GenericTable Item)
    (tree : BinaryTree (Element Item)) (elements : List (Element Item)) (buffer : Item) :
    Bool → GenericTable Item → Prop
  | absent (table' : GenericTable Item) (tree' : BinaryTree (Element Item))
      (absent : ∀ element ∈ elements, key element.item ≠ key buffer)
      (intact : Intact key table' tree' elements) (order : inorder tree' = inorder tree)
      (kept : table'.data = table.data) : Deletion key table tree elements buffer false table'
  | removed (table' : GenericTable Item) (tree' : BinaryTree (Element Item))
      (element : Element Item) (before after lesser greater : List (Element Item))
      (same : key element.item = key buffer) (list : elements = before ++ element :: after)
      (order : inorder tree = lesser ++ element :: greater)
      (intact : Intact key table' tree' (before ++ after))
      (order' : inorder tree' = lesser ++ greater)
      (freed : table'.data = Function.update table.data element.address none) :
      Deletion key table tree elements buffer true table'

/-- The count of a table stands for its list as long as that is shorter than `2^32`. -/
theorem TableHolds.intact (holds : TableHolds key table elements)
    {tree : BinaryTree (Element Item)} (treeHolds : TreeHolds key table tree)
    (perm : (inorder tree).Perm elements) (short : elements.length < 2 ^ 32) :
    Intact key table tree elements :=
  ⟨holds, treeHolds, perm, holds.number.trans (Nat.mod_eq_of_lt short)⟩

theorem Intact.short {tree : BinaryTree (Element Item)}
    (intact : Intact key table tree elements) : elements.length < 2 ^ 32 := by
  have number := intact.holds.number
  rw [intact.count] at number
  rw [number]
  exact Nat.mod_lt _ (by decide)

theorem TreeHolds.sorted {tree : BinaryTree (Element Item)} (treeHolds : TreeHolds key table tree) :
    Sorted (elementKey key) (inorder tree) :=
  (searchTree_iff_sorted _ _).mp treeHolds.search

/-- The data of a table follows from its elements. -/
theorem TableHolds.data_eq {table' : GenericTable Item} (holds : TableHolds key table elements)
    (holds' : TableHolds key table' elements) : table'.data = table.data := by
  funext address
  refine Option.ext fun item => ?_
  rw [holds'.blocks, holds.blocks]

/-- The block that is gone with an element. -/
theorem TableHolds.freed {table' : GenericTable Item} {before after : List (Element Item)}
    {element : Element Item} (holds : TableHolds key table (before ++ element :: after))
    (holds' : TableHolds key table' (before ++ after)) :
    table'.data = Function.update table.data element.address none := by
  have nodup := holds.nodup
  rw [List.map_append, List.map_cons, List.nodup_middle, List.nodup_cons, ← List.map_append]
    at nodup
  funext address
  refine Option.ext fun item => ?_
  by_cases own : address = element.address
  · rw [own, Function.update_self, holds'.blocks]
    refine iff_of_false (fun member => nodup.1 ?_) nofun
    exact List.mem_map.mpr ⟨_, member, rfl⟩
  · rw [Function.update_of_ne own, holds'.blocks, holds.blocks, List.mem_append, List.mem_append,
      List.mem_cons]
    refine or_congr_right (or_iff_right fun new => own ?_).symm
    rw [← new]

/-- What a deletion does to the list, seen from the tree. -/
theorem DeleteSpec.deletion {table' : GenericTable Item} {tree : BinaryTree (Element Item)}
    {elements' : List (Element Item)} {buffer : Item} {result : Bool}
    (spec : DeleteSpec key elements buffer result elements')
    (intact : Intact key table tree elements) (holds' : TableHolds key table' elements') :
    Deletion key table tree elements buffer result table' := by
  have short := intact.short
  obtain ⟨tree', treeHolds', perm'⟩ := holds'.tree
  cases spec with
  | absent absent =>
    refine .absent table' tree' absent (holds'.intact treeHolds' perm' short) ?_
      (intact.holds.data_eq holds')
    exact treeHolds'.sorted.eq_of_perm intact.treeHolds.sorted (perm'.trans intact.perm.symm)
  | removed before element after split same =>
    subst split
    have inTree : element ∈ inorder tree :=
      intact.perm.mem_iff.mpr (List.mem_append_right _ List.mem_cons_self)
    obtain ⟨lesser, greater, order⟩ := List.append_of_mem inTree
    have perm := intact.perm
    have sorted := intact.treeHolds.sorted
    rw [order] at perm sorted
    have rest : (lesser ++ greater).Perm (before ++ after) :=
      (List.perm_cons element).mp ((List.perm_middle.symm.trans perm).trans List.perm_middle)
    have shorter : (lesser ++ greater).Sublist (lesser ++ element :: greater) :=
      (List.sublist_cons_self element greater).append_left lesser
    refine .removed table' tree' element before after lesser greater same rfl order
      (holds'.intact treeHolds' perm' ?_) ?_ (intact.holds.freed holds')
    · rw [List.length_append, List.length_cons] at short
      rw [List.length_append]
      omega
    · exact treeHolds'.sorted.eq_of_perm (sorted.sublist shorter) (perm'.trans rest.symm)

omit [LinearOrder Key] in
theorem DeleteSpec.result_iff {elements' : List (Element Item)} {buffer : Item} {result : Bool}
    (spec : DeleteSpec key elements buffer result elements') :
    result = true ↔ ∃ element ∈ elements, key element.item = key buffer := by
  cases spec with
  | absent absent =>
    refine iff_of_false nofun ?_
    rintro ⟨element, member, same⟩
    exact absent element member same
  | removed before element after split same =>
    subst split
    exact iff_of_true rfl ⟨element, List.mem_append_right _ List.mem_cons_self, same⟩

/-- A deletion that returns, returns whether an element has the key, and has taken it out; and
no deletion stops at `Duplicate item in tree`. -/
theorem delete_returns (orders : Orders key compareRoutine) (tree : BinaryTree (Element Item))
    (intact : Intact key table tree elements) (turns : Nat) (buffer : Item) :
    Holds
      (fun (result, table') =>
        (result = true ↔ ∃ element ∈ elements, compareRoutine buffer element.item = .equal) ∧
          Deletion key table tree elements buffer result table')
      (fun fault => fault ≠ .abort)
      (rtlDeleteElementGenericTable compareRoutine turns table buffer) := by
  have present : (∃ element ∈ elements, compareRoutine buffer element.item = .equal) ↔
      ∃ element ∈ elements, key element.item = key buffer := by
    simp only [orders.equal, eq_comm]
  rw [present]
  have longer : Extends .outOfTurns
      (rtlDeleteElementGenericTable compareRoutine turns table buffer)
      (rtlDeleteElementGenericTable compareRoutine (turns + (elements.length + 1)) table buffer) :=
    delete_extends (Nat.le_add_right turns (elements.length + 1)) buffer
  rcases longer with cut | same
  · rw [cut]
    exact nofun
  · have enough : elements.length < turns + (elements.length + 1) := by omega
    rw [← same]
    rcases delete_holds orders intact.holds enough buffer with
      ⟨_, stopped⟩ | ⟨_, result, table', elements', ran, holds', spec⟩
    · rw [stopped]
      exact nofun
    · rw [ran]
      exact ⟨spec.result_iff, spec.deletion intact holds'⟩

end Calls

/-- The elements of the example table, in the order of their insertion. -/
def exampleElements : List (Element Nat) := [⟨100, 5⟩, ⟨200, 3⟩, ⟨300, 8⟩]

theorem exampleTable_intact : Intact id exampleTable exampleTree exampleElements := by
  have treeHolds : TreeHolds id exampleTable exampleTree :=
    ⟨rfl, exampleTable_represents, (searchTree_iff_sorted _ _).mpr exampleTable_ordered.sorted⟩
  have perm : (inorder exampleTree).Perm exampleElements := List.Perm.swap _ _ _
  refine ⟨⟨⟨exampleTree, treeHolds, perm⟩, ?_, by decide, ?_, rfl, by decide⟩, treeHolds, perm,
    rfl⟩
  · exact ⟨⟨rfl, rfl⟩, ⟨rfl, rfl⟩, ⟨rfl, rfl⟩, rfl, rfl⟩
  · intro address item
    rw [exampleElements]
    simp only [exampleTable, List.mem_cons, Element.mk.injEq, List.not_mem_nil, or_false]
    split <;> simp_all [eq_comm]

/-- The deletion of 5. -/
theorem delete_returns_exampleTable :
    Holds
      (fun (result, table') =>
        (result = true ↔ ∃ element ∈ exampleElements,
          compareNumbers 5 element.item = .equal) ∧
          Deletion id exampleTable exampleTree exampleElements 5 result table')
      (fun fault => fault ≠ .abort)
      (rtlDeleteElementGenericTable compareNumbers 4 exampleTable 5) :=
  delete_returns orders_compareNumbers exampleTree exampleTable_intact 4 5

end Nloader.Splay
