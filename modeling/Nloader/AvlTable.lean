/-
This file states what a balanced generic table holds, and what each of its calls does to
that. A table holds a list of elements in the order of their keys: its tree is balanced and
has these elements from left to right, its depth is the height of the tree, its blocks are
theirs and its count is their number. What the calls are to do is stated on the list of
elements alone.
-/

import Nloader.AvlDelete

namespace Nloader.Avl

open Outcome TreePath TreeContext LinkedTree AvlTree
open PointerTree (pointer Distinct)
open Splay (Address Element Fault GenericCompareResults Orders elementKey write
  decrement decrement_succ)

variable {Item Key : Type} [LinearOrder Key]

/-! ### What a table holds -/

/-- The key of a node. -/
def nodeKey (key : Item → Key) (node : Node Item) : Key := elementKey key node.1

/-- What a table holds, for the list of its elements in the order of their keys. The count and
the depth are numbers of 32 bits. -/
structure TableHolds (key : Item → Key) (table : AvlTable Item) (elements : List (Element Item)) :
    Prop where
  arranged : Arranged elements table.links table.depthOfTree
  sorted : Sorted (elementKey key) elements
  blocks : ∀ address item, table.data address = some item ↔ ⟨address, item⟩ ∈ elements
  number : table.numberGenericTableElements = elements.length % 2 ^ 32

theorem sorted_elements (key : Item → Key) (tree : BinaryTree (Node Item)) :
    Sorted (elementKey key) (elementsOf tree) ↔ Sorted (nodeKey key) (inorder tree) :=
  List.pairwise_map

omit [LinearOrder Key] in
theorem userData_eq {table : AvlTable Item} {elements : List (Element Item)}
    (blocks : ∀ address item, table.data address = some item ↔ ⟨address, item⟩ ∈ elements)
    {element : Element Item} (member : element ∈ elements) :
    userData table.data (some (place element)) = .ok element.item := by
  rw [place, userData, (blocks element.address element.item).mpr member]
  rfl

/-! ### The search -/

/-- A hole of the tree of a table, where an item belongs. -/
structure Hole (key : Item → Key) (table : AvlTable Item) (elements : List (Element Item))
    (buffer : Item) (context : Context (Node Item)) : Prop where
  held : ∃ level, Held table.links level context .nil
  tall : ∃ height, Tall (plug context .nil) height ∧ table.depthOfTree = height % 2 ^ 32
  around : Around (nodeKey key) (key buffer) context
  elements : elementsOf (plug context .nil) = elements

/-- What a search finds: the element with the key, or the hole in which it belongs. -/
inductive Finds (key : Item → Key) (table : AvlTable Item) (elements : List (Element Item))
    (buffer : Item) : TableSearchResult × Option Place → Prop
  | found (element : Element Item) (member : element ∈ elements)
      (same : key element.item = key buffer) :
      Finds key table elements buffer (.foundNode, some (place element))
  | hole (context : Context (Node Item)) (nodeOrParent : Option Place)
      (hole : Hole key table elements buffer context)
      (parent : context ≠ [] → nodeOrParent = some (above context)) :
      Finds key table elements buffer (holeResult context, nodeOrParent)

section Search

variable {key : Item → Key} {compareRoutine : Item → Item → GenericCompareResults}
  {table : AvlTable Item} {elements : List (Element Item)} {buffer : Item}

/-- The search before a turn: it has come down to a tree, towards the target. -/
structure Searches (key : Item → Key) (table : AvlTable Item) (elements : List (Element Item))
    (buffer : Item) (nodes : Nat) (currentNode : Option Place) (level : Int) (height : Nat)
    (context : Context (Node Item)) (tree : BinaryTree (Node Item)) : Prop where
  held : Held table.links level context tree
  tall : Tall (plug context tree) height
  nonempty : tree ≠ .nil
  currentNode : currentNode = root tree
  search : SearchTree (nodeKey key) tree
  around : Around (nodeKey key) (key buffer) context
  elements : elementsOf (plug context tree) = elements
  nodes : tree.numNodes = nodes

/-- How a turn of the search may end. -/
def Searched (key : Item → Key) (table : AvlTable Item) (elements : List (Element Item))
    (buffer : Item) (height nodes : Nat) :
    Turn (Option Place) (TableSearchResult × Option Place) → Prop
  | .again currentNode => ∃ smaller < nodes, ∃ level context tree,
      Searches key table elements buffer smaller currentNode level height context tree
  | .leave result => Finds key table elements buffer result

/-- A branch of the search goes down to a smaller tree, or ends at a hole. -/
theorem findBranch_holds {level : Int} {height : Nat} {context : Context (Node Item)}
    {near far : BinaryTree (Node Item)} {node : Node Item} (side : Side)
    (held : Held table.links level context (join side near node far))
    (tall : Tall (plug context (join side near node far)) height)
    (depth : table.depthOfTree = height % 2 ^ 32)
    (search : SearchTree (nodeKey key) (join side near node far))
    (around : Around (nodeKey key) (key buffer) context)
    (passed : LiesOn (nodeKey key) (key buffer) side.other node)
    (whole : elementsOf (plug context (join side near node far)) = elements) :
    Holds (Searched key table elements buffer height (join side near node far).numNodes)
      (fun _ => False) (findBranch table (some (nodePlace node)) side (sideResult side)) := by
  have lower : Held table.links level (⟨side, node, far⟩ :: context) near :=
    inMemory_cons.mpr held
  have around' := around.down search passed
  unfold findBranch
  rw [rtlChild_eq (held_node held), ok_bind, link_child]
  by_cases empty : near = .nil
  · subst empty
    rw [if_neg (not_not_intro (root_eq_none.mpr rfl)), holds_pure]
    exact .hole (⟨side, node, far⟩ :: context) _
      ⟨⟨level, lower⟩, ⟨height, tall, depth⟩, around', whole⟩ fun _ => rfl
  · rw [if_pos (fun none => empty (root_eq_none.mp none)), holds_pure]
    refine ⟨near.numNodes, by rw [numNodes_join]; omega, level, _, near, lower, tall, empty, rfl,
      ?_, around', whole, rfl⟩
    exact ((searchTree_join side near far node).mp search).2.1

/-- A turn of the search. -/
theorem findTurn_holds (orders : Orders key compareRoutine)
    (blocks : ∀ address item, table.data address = some item ↔ ⟨address, item⟩ ∈ elements)
    {nodes height : Nat} {currentNode : Option Place} {level : Int} {context : Context (Node Item)}
    {tree : BinaryTree (Node Item)} (depth : table.depthOfTree = height % 2 ^ 32)
    (searches : Searches key table elements buffer nodes currentNode level height context tree) :
    Holds (Searched key table elements buffer height nodes) (fun _ => False)
      (findTurn compareRoutine table buffer currentNode) := by
  obtain ⟨held, tall, nonempty, rfl, search, around, whole, rfl⟩ := searches
  obtain ⟨left, node, right, rfl⟩ := exists_join .left nonempty
  have member : node.1 ∈ elements := by
    rw [← whole]
    exact List.mem_map_of_mem ((perm_plug _ _).mem_iff.mpr
      (List.mem_append_left _ (List.mem_append_right _ List.mem_cons_self)))
  have read : userData table.data (some (nodePlace node)) = .ok node.1.item :=
    userData_eq blocks member
  unfold findTurn
  rw [root, PointerTree.pointer_join, read, ok_bind]
  rcases orders.cases buffer node.1.item with less | greater | equal
  · rw [less]
    exact findBranch_holds .left held tall depth search around
      ((orders.less _ _).mp less) whole
  · rw [greater]
    exact findBranch_holds .right held tall depth search around
      ((orders.greater _ _).mp greater) whole
  · rw [equal]
    exact Finds.found node.1 member ((orders.equal _ _).mp equal).symm

/-- The search finds the element, or the hole in which it belongs. -/
theorem find_holds (orders : Orders key compareRoutine) (holds : TableHolds key table elements)
    (few : elements.length < 2 ^ 32) {turns : Nat} (enough : elements.length < turns)
    (buffer : Item) (nodeOrParent : Option Place) :
    ∃ result, rtlpFindAvlTableNodeOrParent compareRoutine turns table buffer nodeOrParent =
        .ok result ∧
      Finds key table elements buffer result := by
  obtain ⟨⟨level, tree, height, held, tall, depth, whole⟩, sorted, blocks, number⟩ := holds
  rw [Nat.mod_eq_of_lt few] at number
  have size : elements.length = tree.numNodes := by
    rw [← whole, elementsOf, List.length_map, length_inorder]
  unfold rtlpFindAvlTableNodeOrParent
  rw [number, size]
  by_cases empty : tree = .nil
  · subst empty
    exact ⟨_, if_pos rfl, .hole [] _ ⟨⟨level, held⟩, ⟨height, tall, depth⟩, around_nil _ _, whole⟩
      (absurd rfl)⟩
  · have positive : tree.numNodes ≠ 0 := by
      obtain ⟨left, node, right, rfl⟩ := exists_join .left empty
      exact Nat.succ_ne_zero _
    rw [if_neg positive, rtlChild_eq held.above, ok_bind, link_child]
    refine (repeatLoop_holds (fun nodes currentNode => ∃ level context tree,
      Searches key table elements buffer nodes currentNode level height context tree) ?_ turns
      tree.numNodes (root tree) ⟨level, [], tree, held, tall, empty, rfl, ?_, around_nil _ _, whole,
        rfl⟩ (by omega)).exists_ok
    · rintro nodes currentNode ⟨level, context, tree, searches⟩
      refine (findTurn_holds orders blocks depth searches).mono (fun next found => ?_)
        fun _ impossible => impossible
      cases next with
      | again => exact found
      | leave => exact found
    · rw [searchTree_iff_sorted, ← sorted_elements, whole]
      exact sorted

/-! ### Lookups -/

/-- What a lookup is to return. -/
inductive LookupSpec (key : Item → Key) (elements : List (Element Item)) (buffer : Item) :
    Option Place → Prop
  | found (element : Element Item) (member : element ∈ elements)
      (same : key element.item = key buffer) :
      LookupSpec key elements buffer (some (place element))
  | absent (absent : ∀ element ∈ elements, key element.item ≠ key buffer) :
      LookupSpec key elements buffer none

/-- What a full lookup is to return. -/
inductive LookupFullSpec (key : Item → Key) (elements : List (Element Item)) (buffer : Item) :
    LookupResult → Prop
  | found (element : Element Item) (member : element ∈ elements)
      (same : key element.item = key buffer) :
      LookupFullSpec key elements buffer
        { element := some (place element), nodeOrParent := some (place element),
          searchResult := .foundNode }
  | absent (nodeOrParent : Option Place) (searchResult : TableSearchResult)
      (absent : ∀ element ∈ elements, key element.item ≠ key buffer)
      (other : searchResult ≠ .foundNode) :
      LookupFullSpec key elements buffer { element := none, nodeOrParent, searchResult }

/-- No element has the key of an item that belongs in a hole. -/
theorem Hole.absent {context : Context (Node Item)}
    (hole : Hole key table elements buffer context) :
    ∀ element ∈ elements, key element.item ≠ key buffer := by
  intro element member
  rw [← hole.elements] at member
  obtain ⟨node, inside, rfl⟩ := List.mem_map.mp member
  exact hole.around.key_ne inside

/-- `RtlLookupElementGenericTableFullAvl` returns what it finds, with the pair for an
insertion. -/
theorem lookupFull_holds (orders : Orders key compareRoutine)
    (holds : TableHolds key table elements) (few : elements.length < 2 ^ 32) {turns : Nat}
    (enough : elements.length < turns) (buffer : Item) (nodeOrParent : Option Place) :
    ∃ result, rtlLookupElementGenericTableFullAvl compareRoutine turns table buffer nodeOrParent =
        .ok result ∧
      Finds key table elements buffer (result.searchResult, result.nodeOrParent) ∧
      LookupFullSpec key elements buffer result := by
  obtain ⟨⟨searchResult, parent⟩, ran, finds⟩ :=
    find_holds orders holds few enough buffer nodeOrParent
  unfold rtlLookupElementGenericTableFullAvl
  rw [ran, ok_bind]
  have whole := finds
  cases finds with
  | found element member same => exact ⟨_, rfl, whole, .found element member same⟩
  | hole context parent hole =>
    have other := holeResult_ne_foundNode context
    exact ⟨_, if_pos other, whole, .absent _ _ hole.absent other⟩

theorem lookup_holds (orders : Orders key compareRoutine) (holds : TableHolds key table elements)
    (few : elements.length < 2 ^ 32) {turns : Nat} (enough : elements.length < turns)
    (buffer : Item) :
    ∃ result, rtlLookupElementGenericTableAvl compareRoutine turns table buffer = .ok result ∧
      LookupSpec key elements buffer result := by
  obtain ⟨result, ran, _, spec⟩ := lookupFull_holds orders holds few enough buffer none
  refine ⟨result.element, by rw [rtlLookupElementGenericTableAvl, ran]; rfl, ?_⟩
  cases spec with
  | found element member same => exact .found element member same
  | absent _ _ absent => exact .absent absent

/-! ### Insertions -/

/-- The address that `AllocateRoutine` returns to an insertion, if any. -/
def allocated (allocateRoutine : AllocateRoutine Item) (table : AvlTable Item)
    (bufferSize : Nat) : Option Address :=
  (allocateRoutine.allocate table ((bufferSize + fieldOffsetUserData) % 2 ^ 32)).map Block.address

/-- What an insertion is to do. -/
inductive InsertSpec (key : Item → Key) (elements : List (Element Item)) (buffer : Item)
    (allocated : Option Address) : InsertResult → List (Element Item) → Prop
  | present (element : Element Item) (member : element ∈ elements)
      (same : key element.item = key buffer) :
      InsertSpec key elements buffer allocated
        { element := some (place element), newElement := false } elements
  | failed (absent : ∀ element ∈ elements, key element.item ≠ key buffer)
      (failed : allocated = none) :
      InsertSpec key elements buffer allocated { element := none, newElement := false } elements
  | added (address : Address) (before after : List (Element Item))
      (split : elements = before ++ after)
      (absent : ∀ element ∈ elements, key element.item ≠ key buffer)
      (granted : allocated = some address)
      (fresh : ∀ element ∈ elements, element.address ≠ address) :
      InsertSpec key elements buffer allocated
        { element := some (.item address), newElement := true }
        (before ++ { address, item := buffer } :: after)

theorem elementsOf_hole (context : Context (Node Item)) :
    elementsOf (plug context .nil) =
      elementsBefore context .nil ++ elementsAfter context .nil := by
  unfold elementsOf elementsBefore elementsAfter
  rw [inorder_plug]
  simp [inorder]

omit [LinearOrder Key] in
/-- No element lies in a block that is not in use. -/
theorem address_ne
    (blocks : ∀ address item, table.data address = some item ↔ ⟨address, item⟩ ∈ elements)
    {address : Address} (free : table.data address = none) :
    ∀ element ∈ elements, element.address ≠ address := by
  rintro element member rfl
  rw [(blocks element.address element.item).mpr member] at free
  cases free

omit [LinearOrder Key] in
/-- The data of the new element next to those of the others. -/
theorem insert_blocks {before after : List (Element Item)} {address : Address}
    (blocks : ∀ address item, table.data address = some item ↔ ⟨address, item⟩ ∈ before ++ after)
    (fresh : ∀ element ∈ before ++ after, element.address ≠ address) (buffer : Item) :
    ∀ there item, Function.update table.data address (some buffer) there = some item ↔
      (⟨there, item⟩ : Element Item) ∈ before ++ { address, item := buffer } :: after := by
  intro there item
  rw [List.perm_middle.mem_iff, List.mem_cons]
  by_cases same : there = address
  · subst same
    rw [Function.update_self]
    constructor
    · intro found
      cases found
      exact .inl rfl
    · rintro (equal | member)
      · cases equal
        rfl
      · exact absurd rfl (fresh _ member)
  · rw [Function.update_of_ne same, blocks]
    refine ⟨.inr, fun found => found.resolve_left fun equal => ?_⟩
    cases equal
    exact same rfl

omit [LinearOrder Key] in
/-- The links of a new block, set to zero. -/
theorem zero_block (links : Links) (address : Address) (cell : BalancedLinks) :
    ∃ links', write (Function.update links (.item address) (some cell)) (some (.item address))
        (fun _ => zeroLinks) = .ok links' ∧
      (links' (.item address)).isSome ∧
      ∀ here, here ≠ .item address → links' here = links here := by
  have mapped : (Function.update links (.item address) (some cell) (.item address)).isSome := by
    rw [Function.update_self]
    rfl
  refine ⟨_, write_change mapped _, by rwa [isSome_change], fun here elsewhere => ?_⟩
  rw [change_elsewhere elsewhere, Function.update_of_ne elsewhere]

/-- A new block leaves the links of the elements alone. -/
theorem hole_block {links links' : Links} {level : Int} {context : Context (Node Item)}
    (held : Held links level context .nil) (element : Element Item)
    (fresh : ∀ other ∈ elementsOf (plug context .nil), other.address ≠ element.address)
    (agree : ∀ here, here ≠ place element → links' here = links here) :
    Held links' level context .nil ∧
      Distinct nodePlace .balancedRoot ((element, 0) :: around context) := by
  have apart : ∀ node ∈ inorder (plug context .nil), nodePlace node ≠ place element := by
    intro node member same
    exact fresh node.1 (List.mem_map_of_mem member) (Place.item.inj same)
  refine ⟨held.congr (fun node member => agree _ (apart node member)) (agree _ nofun), ?_⟩
  rw [PointerTree.distinct_cons]
  refine ⟨⟨nofun, (PointerTree.distinct_append.mp held.apart).1.2⟩, fun other member same => ?_⟩
  exact apart other ((perm_plug context .nil).mem_iff.mpr member) same.symm

/-- The new element in the hole keeps the table in order. -/
theorem insertHole_holds (holds : TableHolds key table elements) {context : Context (Node Item)}
    (hole : Hole key table elements buffer context) {address : Address} {links' : Links}
    {depth' : Nat} (fresh : ∀ element ∈ elements, element.address ≠ address)
    (arranged : Arranged
      (elementsOf (plug context (.node ({ address, item := buffer }, 0) .nil .nil)))
      links' depth') :
    ∃ before after, elements = before ++ after ∧
      TableHolds key
        { table with
          links := links'
          numberGenericTableElements := (table.numberGenericTableElements + 1) % 2 ^ 32
          depthOfTree := depth'
          data := Function.update table.data address (some buffer) }
        (before ++ { address, item := buffer } :: after) := by
  obtain ⟨_, sorted, blocks, number⟩ := holds
  have whole := hole.elements
  rw [elementsOf_hole] at whole
  refine ⟨_, _, whole.symm, ?_, ?_, ?_, ?_⟩
  · rw [← elementsOf_node context .nil .nil ({ address, item := buffer }, 0)]
    exact arranged
  · rw [← elementsOf_node context .nil .nil ({ address, item := buffer }, 0), sorted_elements]
    refine hole.around.sorted ?_
    rw [← sorted_elements, hole.elements]
    exact sorted
  · rw [← whole] at blocks fresh
    exact insert_blocks blocks fresh buffer
  · rw [number, ← whole, Nat.mod_add_mod, List.length_append, List.length_append, List.length_cons,
      Nat.add_assoc]

/-- `RtlInsertElementGenericTableFullAvl`, with the pair that a search for the key has left. -/
theorem insertFull_holds (holds : TableHolds key table elements) {turns : Nat}
    (enough : elements.length < turns) (allocateRoutine : AllocateRoutine Item) {target : Item}
    (same : key buffer = key target) (bufferSize : Nat) {searchResult : TableSearchResult}
    {nodeOrParent : Option Place}
    (finds : Finds key table elements target (searchResult, nodeOrParent)) :
    ∃ result next later,
      rtlInsertElementGenericTableFullAvl turns allocateRoutine table buffer bufferSize
        nodeOrParent searchResult = .ok (result, next) ∧
      TableHolds key next later ∧
      InsertSpec key elements buffer (allocated allocateRoutine table bufferSize) result later ∧
      (result.newElement = false → next = table ∧ later = elements) := by
  unfold rtlInsertElementGenericTableFullAvl
  cases finds with
  | found element member equal =>
    exact ⟨_, table, elements, if_neg (not_not_intro rfl), holds,
      .present element member (equal.trans same.symm), fun _ => ⟨rfl, rfl⟩⟩
  | hole context _ hole parent =>
    have hole' : Hole key table elements buffer context :=
      ⟨hole.held, hole.tall, by rw [same]; exact hole.around, hole.elements⟩
    rw [if_pos (holeResult_ne_foundNode context)]
    cases granted : allocateRoutine.allocate table
      ((bufferSize + fieldOffsetUserData) % 2 ^ 32) with
    | none =>
      exact ⟨_, table, elements, rfl, holds,
        .failed hole'.absent (by rw [allocated, granted]; rfl), fun _ => ⟨rfl, rfl⟩⟩
    | some block =>
      have fresh := address_ne holds.blocks (allocateRoutine.fresh _ _ _ granted).2
      obtain ⟨links₁, zeroed, mapped, agree⟩ := zero_block table.links block.address block.links
      obtain ⟨⟨level, held⟩, ⟨height, tall, depth⟩, _, whole⟩ := hole
      obtain ⟨held', apart⟩ := hole_block held { address := block.address, item := buffer }
        (by rwa [whole]) agree
      have size : context.length < turns := by
        have bound := length_le_plug context .nil
        have counted := congrArg List.length whole
        rw [elementsOf, List.length_map, length_inorder] at counted
        omega
      obtain ⟨links', depth', ran, arranged⟩ := insertNode_holds { table with links := links₁ }
        held' tall depth apart mapped parent size
      obtain ⟨before, after, split, holds'⟩ := insertHole_holds holds hole' fresh arranged
      refine ⟨_, _, _, ?_, holds', .added block.address before after split hole'.absent
        (by rw [allocated, granted]; rfl) fresh, fun same => by cases same⟩
      have ran' : rtlpInsertAvlTreeNode turns { table with links := links₁ }
        (some (.item block.address)) nodeOrParent (holeResult context) = _ := ran
      simp only [zeroed, ok_bind, ran']
      rfl

theorem insert_holds (orders : Orders key compareRoutine) (holds : TableHolds key table elements)
    (few : elements.length < 2 ^ 32) {turns : Nat} (enough : elements.length < turns)
    (allocateRoutine : AllocateRoutine Item) (buffer : Item) (bufferSize : Nat) :
    ∃ result next later,
      rtlInsertElementGenericTableAvl compareRoutine turns allocateRoutine table buffer
        bufferSize = .ok (result, next) ∧
      TableHolds key next later ∧
      InsertSpec key elements buffer (allocated allocateRoutine table bufferSize) result later ∧
      (result.newElement = false → next = table ∧ later = elements) := by
  obtain ⟨⟨searchResult, nodeOrParent⟩, ran, finds⟩ :=
    find_holds orders holds few enough buffer none
  unfold rtlInsertElementGenericTableAvl
  rw [ran, ok_bind]
  exact insertFull_holds holds enough allocateRoutine rfl bufferSize finds

end Search

/-! ### Neighbours of an element -/

section Neighbours

variable {links : Links} {depth turns : Nat} {element : Element Item}
  {before after : List (Element Item)}

/-- The place of the first of the elements beyond another: there is none behind the last
element, and `BalancedRoot` is in front of the first. -/
def elementPlace (side : Side) (elements : List (Element Item)) : Option Place :=
  match elements, side with
  | element :: _, _ => some (place element)
  | [], .left => some .balancedRoot
  | [], .right => none

theorem neighbourPlace_eq (side : Side) (nodes : List (Node Item)) :
    neighbourPlace side nodes = elementPlace side (nodes.map Prod.fst) := by
  cases nodes with
  | nil => cases side <;> rfl
  | cons => rfl

theorem realPredecessor_eq (arranged : Arranged (before ++ element :: after) links depth)
    (enough : (before ++ element :: after).length < turns) :
    rtlRealPredecessor turns links (some (place element)) =
      .ok (elementPlace .left before.reverse) := by
  obtain ⟨level, tree, height, held, _, _, elements⟩ := arranged
  have size : tree.numNodes < turns := by
    rwa [← elements, elementsOf, List.length_map, length_inorder] at enough
  obtain ⟨context, left, right, balance, rfl, rfl, rfl⟩ := exists_context elements
  have held' : Held links level context (join .left left (element, balance) right) :=
    inMemory_plug.mpr held
  have ran := realNeighbour_eq held' size
  rw [neighbourPlace_eq] at ran
  refine ran.trans (congrArg (fun elements => Except.ok (elementPlace .left elements)) ?_)
  rw [elementsBefore, ← List.map_reverse, List.reverse_append, List.reverse_reverse]
  rfl

theorem realSuccessor_eq (arranged : Arranged (before ++ element :: after) links depth)
    (enough : (before ++ element :: after).length < turns) :
    rtlRealSuccessor turns links (some (place element)) = .ok (elementPlace .right after) := by
  obtain ⟨level, tree, height, held, _, _, elements⟩ := arranged
  have size : tree.numNodes < turns := by
    rwa [← elements, elementsOf, List.length_map, length_inorder] at enough
  obtain ⟨context, left, right, balance, rfl, rfl, rfl⟩ := exists_context elements
  have held' : Held links level context (join .right right (element, balance) left) :=
    inMemory_plug.mpr held
  have ran := realNeighbour_eq held' size
  rw [neighbourPlace_eq] at ran
  exact ran

end Neighbours

/-! ### Deletions -/

section Delete

variable {key : Item → Key} {compareRoutine : Item → Item → GenericCompareResults}
  {table : AvlTable Item} {elements : List (Element Item)} {buffer : Item} {turns : Nat}

omit [LinearOrder Key] in
theorem Arranged.distinct {links : Links} {depth : Nat}
    (arranged : Arranged elements links depth) : Distinct place .balancedRoot elements := by
  obtain ⟨level, tree, height, held, _, _, rfl⟩ := arranged
  exact (distinct_elements _).mp held.distinct

omit [LinearOrder Key] in
theorem Arranged.congr {links links' : Links} {depth : Nat}
    (arranged : Arranged elements links depth)
    (agree : ∀ element ∈ elements, links' (place element) = links (place element))
    (anchored : links' .balancedRoot = links .balancedRoot) : Arranged elements links' depth := by
  obtain ⟨level, tree, height, held, tall, depthIs, rfl⟩ := arranged
  refine ⟨level, tree, height, held.congr (fun node member => ?_) anchored, tall, depthIs, rfl⟩
  exact agree node.1 (List.mem_map_of_mem member)

omit [LinearOrder Key] in
/-- A block that is given back holds none of the elements that are left. -/
theorem Arranged.free {links : Links} {depth : Nat} {element : Element Item}
    (arranged : Arranged elements links depth)
    (apart : ∀ other ∈ elements, place element ≠ place other) :
    Arranged elements (Function.update links (place element) none) depth := by
  refine arranged.congr (fun other member => ?_) ?_
  · exact Function.update_of_ne (apart other member).symm _ _
  · exact Function.update_of_ne (place_ne_balancedRoot element).symm _ _

/-- What a deletion is to do. -/
inductive DeleteSpec (key : Item → Key) (elements : List (Element Item)) (buffer : Item) :
    Bool → List (Element Item) → Prop
  | absent (absent : ∀ element ∈ elements, key element.item ≠ key buffer) :
      DeleteSpec key elements buffer false elements
  | removed (before : List (Element Item)) (element : Element Item)
      (after : List (Element Item)) (split : elements = before ++ element :: after)
      (same : key element.item = key buffer) :
      DeleteSpec key elements buffer true (before ++ after)

omit [LinearOrder Key] in
/-- The data of the elements that are left. -/
theorem delete_blocks {before after : List (Element Item)} {element : Element Item}
    (blocks : ∀ address item, table.data address = some item ↔
      ⟨address, item⟩ ∈ before ++ element :: after)
    (apart : ∀ other ∈ before ++ after, place element ≠ place other) :
    ∀ there item, Function.update table.data element.address none there = some item ↔
      (⟨there, item⟩ : Element Item) ∈ before ++ after := by
  intro there item
  by_cases same : there = element.address
  · rw [same, Function.update_self]
    exact iff_of_false nofun fun member => apart _ member rfl
  · rw [Function.update_of_ne same, blocks, List.perm_middle.mem_iff, List.mem_cons]
    refine or_iff_right fun equal => same ?_
    rw [← equal]

omit [LinearOrder Key] in
/-- A deletion whose parts succeed. -/
theorem deleteEx_eq {node restartKey : Option Place} {removed : AvlTable Item}
    (restart : (if node = table.restartKey then rtlRealPredecessor turns table.links node
      else .ok table.restartKey) = .ok restartKey)
    (ran : rtlpDeleteAvlTreeNode turns
      { table with restartKey, deleteCount := (table.deleteCount + 1) % 2 ^ 32 } node =
        .ok removed) :
    rtlDeleteElementGenericTableAvlEx turns table node =
      .ok (true, freeRoutine { removed with
        numberGenericTableElements := decrement removed.numberGenericTableElements
        whichOrderedElement := 0
        orderedPointer := none } node) := by
  unfold rtlDeleteElementGenericTableAvlEx
  by_cases same : node = table.restartKey
  · rw [if_pos same] at restart ⊢
    rw [restart, ok_bind]
    dsimp only
    rw [ran]
    rfl
  · rw [if_neg same] at restart ⊢
    cases restart
    rw [pure_eq, ok_bind]
    dsimp only
    rw [ran]
    rfl

/-- `RtlDeleteElementGenericTableAvlEx` takes out the element it is given. Where that was the
one last enumerated, its predecessor takes its place there. -/
theorem deleteEx_holds {before after : List (Element Item)} {element : Element Item}
    (holds : TableHolds key table (before ++ element :: after))
    (enough : (before ++ element :: after).length < turns) :
    ∃ next, rtlDeleteElementGenericTableAvlEx turns table (some (place element)) =
        .ok (true, next) ∧
      TableHolds key next (before ++ after) ∧
      next.restartKey = if some (place element) = table.restartKey
        then elementPlace .left before.reverse else table.restartKey := by
  obtain ⟨arranged, sorted, blocks, number⟩ := holds
  have perm : (before ++ element :: after).Perm (element :: (before ++ after)) := List.perm_middle
  have apart := (PointerTree.distinct_cons.mp (distinct_perm perm arranged.distinct)).2
  have restart : (if some (place element) = table.restartKey then
        rtlRealPredecessor turns table.links (some (place element)) else .ok table.restartKey) =
      .ok (if some (place element) = table.restartKey
        then elementPlace .left before.reverse else table.restartKey) := by
    rw [realPredecessor_eq arranged enough]
    split <;> rfl
  obtain ⟨links', depth', ran, arranged'⟩ := deleteNode_holds { table with
    restartKey := if some (place element) = table.restartKey
      then elementPlace .left before.reverse else table.restartKey
    deleteCount := (table.deleteCount + 1) % 2 ^ 32 } arranged enough
  refine ⟨_, deleteEx_eq restart ran,
    ⟨arranged'.free apart, ?_, delete_blocks blocks apart, ?_⟩, rfl⟩
  · exact sorted.sublist ((List.Sublist.refl _).append (List.sublist_cons_self _ _))
  · change decrement table.numberGenericTableElements = _
    rw [number, perm.length_eq, List.length_cons, decrement_succ]

/-- A deletion by key deletes the node it finds, and leaves the table alone where it finds
none. -/
theorem delete_cases (orders : Orders key compareRoutine) (holds : TableHolds key table elements)
    (few : elements.length < 2 ^ 32) (enough : elements.length < turns) (buffer : Item) :
    (∃ element ∈ elements, key element.item = key buffer ∧
      rtlDeleteElementGenericTableAvl compareRoutine turns table buffer =
        rtlDeleteElementGenericTableAvlEx turns table (some (place element))) ∨
    ((∀ element ∈ elements, key element.item ≠ key buffer) ∧
      rtlDeleteElementGenericTableAvl compareRoutine turns table buffer = .ok (false, table)) := by
  obtain ⟨⟨searchResult, node⟩, ran, finds⟩ := find_holds orders holds few enough buffer none
  unfold rtlDeleteElementGenericTableAvl
  rw [ran, ok_bind]
  cases finds with
  | found element member same => exact .inl ⟨element, member, same, rfl⟩
  | hole context node hole =>
    exact .inr ⟨hole.absent, if_pos (holeResult_ne_foundNode context)⟩

theorem delete_holds (orders : Orders key compareRoutine) (holds : TableHolds key table elements)
    (few : elements.length < 2 ^ 32) (enough : elements.length < turns) (buffer : Item) :
    ∃ result next later,
      rtlDeleteElementGenericTableAvl compareRoutine turns table buffer = .ok (result, next) ∧
      TableHolds key next later ∧ DeleteSpec key elements buffer result later ∧
      (result = false → next = table ∧ later = elements) := by
  rcases delete_cases orders holds few enough buffer with
    ⟨element, member, same, ran⟩ | ⟨absent, ran⟩
  · obtain ⟨before, after, rfl⟩ := List.append_of_mem member
    obtain ⟨next, deleted, holds', _⟩ := deleteEx_holds holds enough
    exact ⟨true, next, _, ran.trans deleted, holds', .removed before element after rfl same, nofun⟩
  · exact ⟨false, table, elements, ran, holds, .absent absent, fun _ => ⟨rfl, rfl⟩⟩

end Delete

/-! ### The memory of the nodes -/

/-- There are links and data of a node at the same addresses. -/
def Mapped (table : AvlTable Item) : Prop :=
  ∀ address, (table.links (.item address)).isSome = (table.data address).isSome

theorem isSome_update {Place Value : Type} [DecidableEq Place] (memory : Place → Option Value)
    (target here : Place) (value : Option Value) :
    (Function.update memory target value here).isSome =
      if here = target then value.isSome else (memory here).isSome := by
  rw [Function.update_apply]
  split <;> rfl

section Mapped

variable {compareRoutine : Item → Item → GenericCompareResults} {turns : Nat}
  {table next : AvlTable Item} {allocateRoutine : AllocateRoutine Item} {buffer : Item}
  {bufferSize : Nat} {node nodeOrParent : Option Place} {searchResult : TableSearchResult}

theorem insertFull_mapped {result : InsertResult} (mapped : Mapped table)
    (ran : rtlInsertElementGenericTableFullAvl turns allocateRoutine table buffer bufferSize
      nodeOrParent searchResult = .ok (result, next)) : Mapped next := by
  unfold rtlInsertElementGenericTableFullAvl at ran
  split at ran
  · split at ran
    · cases ran
      exact mapped
    · rename_i block _
      obtain ⟨links', zeroed, ran⟩ := bind_eq_ok.mp ran
      obtain ⟨inserted, ran', ran⟩ := bind_eq_ok.mp ran
      cases ran
      obtain ⟨same, data⟩ := insertNode_places ran'
      intro address
      rw [same, data, write_places zeroed, isSome_update, isSome_update, mapped]
      exact if_congr (by rw [Place.item.injEq]) rfl rfl
  · cases ran
    exact mapped

theorem insert_mapped {result : InsertResult} (mapped : Mapped table)
    (ran : rtlInsertElementGenericTableAvl compareRoutine turns allocateRoutine table buffer
      bufferSize = .ok (result, next)) : Mapped next := by
  obtain ⟨_, _, ran⟩ := bind_eq_ok.mp ran
  exact insertFull_mapped mapped ran

theorem freeRoutine_mapped (mapped : Mapped table) (pointer : Option Place) :
    Mapped (freeRoutine table pointer) := by
  unfold freeRoutine
  split
  · intro address
    rw [isSome_update, isSome_update, mapped]
    exact if_congr (by rw [Place.item.injEq]) rfl rfl
  · exact mapped

theorem deleteEx_mapped {result : Bool} (mapped : Mapped table)
    (ran : rtlDeleteElementGenericTableAvlEx turns table node = .ok (result, next)) :
    Mapped next := by
  unfold rtlDeleteElementGenericTableAvlEx at ran
  have removed : ∀ restartKey removed, rtlpDeleteAvlTreeNode turns
      { table with restartKey, deleteCount := (table.deleteCount + 1) % 2 ^ 32 } node =
        .ok removed → Mapped { removed with
          numberGenericTableElements := decrement removed.numberGenericTableElements
          whichOrderedElement := 0
          orderedPointer := none } := by
    intro restartKey removed ran address
    obtain ⟨same, data⟩ := deleteNode_places ran
    dsimp only
    rw [same, data]
    exact mapped address
  split at ran
  · obtain ⟨_, _, ran⟩ := bind_eq_ok.mp ran
    obtain ⟨rest, ran', ran⟩ := bind_eq_ok.mp ran
    cases ran
    exact freeRoutine_mapped (removed _ _ ran') node
  · obtain ⟨_, _, ran⟩ := bind_eq_ok.mp ran
    obtain ⟨rest, ran', ran⟩ := bind_eq_ok.mp ran
    cases ran
    exact freeRoutine_mapped (removed _ _ ran') node

theorem delete_mapped {result : Bool} (mapped : Mapped table)
    (ran : rtlDeleteElementGenericTableAvl compareRoutine turns table buffer =
      .ok (result, next)) : Mapped next := by
  obtain ⟨_, _, ran⟩ := bind_eq_ok.mp ran
  dsimp only at ran
  split at ran
  · cases ran
    exact mapped
  · exact deleteEx_mapped mapped ran

end Mapped

/-! ### A new table -/

theorem initialize_holds (key : Item → Key) :
    TableHolds key (rtlInitializeGenericTableAvl : AvlTable Item) [] where
  arranged := ⟨0, .nil, 0, ⟨trivial, rfl, ⟨.nil, nofun⟩⟩, ⟨trivial, rfl⟩, rfl, rfl⟩
  sorted := .nil
  blocks := fun _ _ => iff_of_false nofun nofun
  number := rfl

/-! ### Valid tables -/

/-- The tree of a table as it ought to be. In memory every node holds the pointers to its
children and to its parent, and `BalancedRoot` stands above the root; the balances are those
of the heights, and so is the depth. -/
structure Shaped (key : Item → Key) (table : AvlTable Item) (elements : List (Element Item))
    (level : Int) (tree : BinaryTree (Node Item)) : Prop where
  held : Held table.links level [] tree
  elements : elementsOf tree = elements
  search : SearchTree (nodeKey key) tree
  balanced : Balanced tree
  depth : table.depthOfTree = tree.height
  number : table.numberGenericTableElements = tree.numNodes

/-- A valid table with the given elements. Its count is a number of 32 bits. -/
structure Valid (key : Item → Key) (table : AvlTable Item) (elements : List (Element Item)) :
    Prop where
  tree : ∃ level tree, Shaped key table elements level tree
  blocks : ∀ address item, table.data address = some item ↔ ⟨address, item⟩ ∈ elements
  range : table.numberGenericTableElements < 2 ^ 32

/-- The valid tables are those that hold fewer elements than the count has numbers. -/
theorem valid_iff {key : Item → Key} {table : AvlTable Item} {elements : List (Element Item)} :
    Valid key table elements ↔ TableHolds key table elements ∧ elements.length < 2 ^ 32 := by
  constructor
  · rintro ⟨⟨level, tree, held, rfl, search, balanced, depth, number⟩, blocks, range⟩
    have size : (elementsOf tree).length = tree.numNodes := by
      rw [elementsOf, List.length_map, length_inorder]
    have bound := tree.height_le_numNodes
    refine ⟨⟨⟨level, tree, tree.height, held, ⟨balanced, rfl⟩, ?_, rfl⟩, ?_, blocks, ?_⟩, by omega⟩
    · rw [depth, Nat.mod_eq_of_lt (by omega)]
    · rw [sorted_elements, ← searchTree_iff_sorted]
      exact search
    · rw [number, size, Nat.mod_eq_of_lt (by omega)]
  · rintro ⟨⟨⟨level, tree, height, held, ⟨balanced, rfl⟩, depth, rfl⟩, sorted, blocks, number⟩, few⟩
    have size : (elementsOf tree).length = tree.numNodes := by
      rw [elementsOf, List.length_map, length_inorder]
    have bound := tree.height_le_numNodes
    refine ⟨⟨level, tree, held, rfl, ?_, balanced, ?_, ?_⟩, blocks, by omega⟩
    · rw [searchTree_iff_sorted, ← sorted_elements]
      exact sorted
    · rw [depth, Nat.mod_eq_of_lt (by omega)]
    · rw [number, size, Nat.mod_eq_of_lt (by omega)]

end Nloader.Avl
