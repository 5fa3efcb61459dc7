/-
This file proves what `splay` does to a search tree in memory. In the middle of its loop the
tree is taken apart: a tree hangs below a path, and the two spines of the path start at the
local variable `next`. Each statement of the loop that writes a child pointer is a step of
that path, so that a turn keeps the path in memory, towards the item; the statements behind
the loop put it together again. The result has the same elements from left to right, with a
root that parts them around the item.
-/

import Nloader.Library.PointerTree
import Nloader.Splay

namespace Nloader.Splay

open Outcome TreePath PointerTree

variable {Item Key : Type} [LinearOrder Key]

/-! ### Elements and their order -/

/-- An element: the block it lies in, and its data. -/
structure Element (Item : Type) where
  address : Address
  item : Item

/-- Where the links of an element lie. -/
def Element.place (element : Element Item) : Place := .item element.address

@[simp] theorem Element.place_ne_next (element : Element Item) : element.place ≠ .next := nofun

/-- `CompareRoutine` is the strict total order of the keys of its items. -/
structure Orders (key : Item → Key) (compareRoutine : Item → Item → GenericCompareResults) :
    Prop where
  less : ∀ first second, compareRoutine first second = .lessThan ↔ key first < key second
  greater : ∀ first second, compareRoutine first second = .greaterThan ↔ key second < key first
  equal : ∀ first second, compareRoutine first second = .equal ↔ key first = key second

/-- The key of an element. -/
def elementKey (key : Item → Key) (element : Element Item) : Key := key element.item

/-- A routine leads to the side of a node on which its item lies. -/
theorem Orders.towards_iff {key : Item → Key}
    {compareRoutine : Item → Item → GenericCompareResults} (orders : Orders key compareRoutine)
    (side : Side) (item : Item) (element : Element Item) :
    compareRoutine item element.item = towards side ↔
      LiesOn (elementKey key) (key item) side.other element := by
  cases side with
  | left => exact orders.less item element.item
  | right => exact orders.greater item element.item

theorem Orders.cases {key : Item → Key}
    {compareRoutine : Item → Item → GenericCompareResults} (orders : Orders key compareRoutine)
    (first second : Item) :
    compareRoutine first second = .lessThan ∨ compareRoutine first second = .greaterThan ∨
      compareRoutine first second = .equal := by
  rcases lt_trichotomy (key first) (key second) with less | same | greater
  · exact .inl ((orders.less first second).mpr less)
  · exact .inr (.inr ((orders.equal first second).mpr same))
  · exact .inr (.inl ((orders.greater first second).mpr greater))

/-- `CompareRoutine` of a table of numbers. -/
def compareNumbers (first second : Nat) : GenericCompareResults :=
  if first < second then .lessThan else if second < first then .greaterThan else .equal

theorem orders_compareNumbers : Orders id compareNumbers where
  less := fun first second => by
    unfold compareNumbers id
    split_ifs <;> simp_all
  greater := fun first second => by
    unfold compareNumbers id
    split_ifs <;> simp_all [le_of_lt]
  equal := fun first second => by
    unfold compareNumbers id
    split_ifs <;> simp <;> omega

/-! ### Links as child pointers -/

/-- The child pointers of the links in memory. -/
def childrenOf (links : Links) : Children Place :=
  fun place side => (links place).map fun cell => cell.child side

@[simp] theorem child_withChild (links : SplayLinks) (value : Option Place) (side : Side) :
    (links.withChild value side).child side = value := by
  cases side <;> rfl

theorem child_withChild_other (links : SplayLinks) (value : Option Place) {side other : Side}
    (apart : other ≠ side) : (links.withChild value side).child other = links.child other := by
  cases side <;> cases other <;> first | rfl | exact absurd rfl apart

theorem childrenOf_update (links : Links) (place : Place) (cell : SplayLinks) {place' : Place}
    (elsewhere : place' ≠ place) :
    childrenOf (Function.update links place (some cell)) place' = childrenOf links place' := by
  funext side
  unfold childrenOf
  rw [Function.update_of_ne elsewhere]

theorem childrenOf_remove (links : Links) (place : Place) {place' : Place}
    (elsewhere : place' ≠ place) :
    childrenOf (Function.update links place none) place' = childrenOf links place' := by
  funext side
  unfold childrenOf
  rw [Function.update_of_ne elsewhere]

theorem child_eq {links : Links} {place : Place} {side : Side} {value : Option Place}
    (found : childrenOf links place side = some value) :
    child links (some place) side = .ok value := by
  unfold childrenOf at found
  obtain ⟨cell, read, same⟩ := Option.map_eq_some_iff.mp found
  rw [child, deref, read, ← same]
  rfl

/-- Writing a child pointer of a place that holds links. -/
theorem setChild_eq (links : Links) (place : Place) (side : Side) (value : Option Place)
    (mapped : Mapped (childrenOf links) (some place)) :
    ∃ links', setChild links (some place) side value = .ok links' ∧
      childrenOf links' = put (childrenOf links) place side value := by
  obtain ⟨old, found⟩ := mapped place rfl side
  obtain ⟨cell, read, _⟩ := Option.map_eq_some_iff.mp found
  refine ⟨Function.update links place (some (cell.withChild value side)), ?_, ?_⟩
  · rw [setChild, write, read]
    rfl
  · funext place' side'
    unfold put childrenOf
    by_cases here : place' = place
    · subst here
      rw [Function.update_self, read]
      by_cases same : side' = side
      · subst same
        simp
      · simp [same, child_withChild_other cell value same]
    · rw [Function.update_of_ne here, if_neg fun same => here same.1]

/-- Writing a parent pointer changes no child pointer. -/
theorem setParent_eq (links : Links) (place : Place) (value : Option Place)
    (mapped : Mapped (childrenOf links) (some place)) :
    ∃ links', setParent links (some place) value = .ok links' ∧
      childrenOf links' = childrenOf links := by
  obtain ⟨old, found⟩ := mapped place rfl .left
  obtain ⟨cell, read, _⟩ := Option.map_eq_some_iff.mp found
  refine ⟨Function.update links place (some { cell with parent := value }), ?_, ?_⟩
  · rw [setParent, write, read]
    rfl
  · funext place' side'
    unfold childrenOf
    by_cases here : place' = place
    · subst here
      rw [Function.update_self, read]
      cases side' <;> rfl
    · rw [Function.update_of_ne here]

theorem adopt_eq (links : Links) (target value : Option Place)
    (mapped : Mapped (childrenOf links) target) :
    ∃ links', adopt links target value = .ok links' ∧ childrenOf links' = childrenOf links := by
  cases target with
  | none => exact ⟨links, rfl, rfl⟩
  | some place => exact setParent_eq links place value mapped

theorem mapped_of_child {links : Links} {place : Place} {side : Side} {value : Option Place}
    (found : childrenOf links place side = some value) :
    Mapped (childrenOf links) (some place) := by
  rintro place' same other
  cases same
  obtain ⟨cell, read, _⟩ := Option.map_eq_some_iff.mp found
  exact ⟨cell.child other, by rw [childrenOf, read]; rfl⟩

/-- The links of a place that have just been stored are there to be changed. -/
theorem mapped_update (links : Links) (place : Place) (cell : SplayLinks) :
    Mapped (childrenOf (Function.update links place (some cell))) (some place) := by
  have held : childrenOf (Function.update links place (some cell)) place .left =
      some (cell.child .left) := by
    rw [childrenOf, Function.update_self]
    rfl
  exact mapped_of_child held

/-- Nothing but `next` and the links of the given elements has changed. -/
def Untouched (elements : List (Element Item)) (children children' : Children Place) : Prop :=
  ∀ place, place ≠ .next → (∀ element ∈ elements, element.place ≠ place) →
    children' place = children place

omit [LinearOrder Key] in
theorem Untouched.trans {elements : List (Element Item)}
    {children children' children'' : Children Place}
    (first : Untouched elements children children')
    (second : Untouched elements children' children'') : Untouched elements children children'' :=
  fun place notNext away => (second place notNext away).trans (first place notNext away)

omit [LinearOrder Key] in
theorem Untouched.put {elements : List (Element Item)} {children children' : Children Place}
    (untouched : Untouched elements children children') {target : Place}
    (own : target = .next ∨ ∃ element ∈ elements, element.place = target) (side : Side)
    (value : Option Place) : Untouched elements children (put children' target side value) := by
  intro place notNext away
  rw [put_elsewhere, untouched place notNext away]
  rintro rfl
  rcases own with atNext | ⟨element, member, same⟩
  · exact notNext atNext
  · exact away element member same

/-! ### The loop, step by step -/

/-- A cursor in the middle of the loop: its path is in memory, below `next`. -/
structure CursorHolds (cursor : Cursor) (path : Path (Element Item)) : Prop where
  memory : PathHolds Element.place .next (childrenOf cursor.links) path
  next : Mapped (childrenOf cursor.links) (some .next)
  root : cursor.root = pointer Element.place path.tree
  tail : ∀ side, cursor.tail side = some (top Element.place .next (path.spine side))

theorem CursorHolds.top_mapped {cursor : Cursor} {path : Path (Element Item)}
    (holds : CursorHolds cursor path) (side : Side) :
    Mapped (childrenOf cursor.links) (some (top Element.place .next (path.spine side))) := by
  have spine := holds.memory.spines side
  cases shape : path.spine side with
  | nil => exact holds.next
  | cons link rest =>
    rw [shape] at spine
    exact mapped_of_child spine.1.1

theorem top_own (path : Path (Element Item)) (side : Side) :
    top Element.place .next (path.spine side) = .next ∨
      ∃ element ∈ path.whole .left,
        element.place = top Element.place .next (path.spine side) := by
  rcases top_cases Place.next side (path.spine side) with atNext | ⟨element, member, same⟩
  · exact .inl atNext
  · refine .inr ⟨element, (path.mem_whole .left element).mpr ?_, same⟩
    cases side with
    | left => exact .inl member
    | right => exact .inr (.inr member)

theorem linkBranch_eq {cursor : Cursor} {path : Path (Element Item)}
    (holds : CursorHolds cursor path)
    (distinct : Distinct Element.place .next (path.whole .left)) {side : Side}
    {near far : BinaryTree (Element Item)} {element : Element Item}
    (seen : path.tree = join side near element far) :
    ∃ cursor', linkBranch side cursor = .ok cursor' ∧
      CursorHolds cursor' (path.down side near element far) ∧
      Untouched (path.whole .left) (childrenOf cursor.links) (childrenOf cursor'.links) := by
  have rootIs : cursor.root = some element.place := by
    rw [holds.root, seen, pointer_join]
  have tailIs := holds.tail side.other
  have below : element.place ≠ top Element.place .next (path.spine side.other) :=
    distinct.ne_top side.other (by rw [seen]; simp)
  have tree := holds.memory.tree
  rw [seen, represents_join] at tree
  obtain ⟨links, hung, hungChildren⟩ :=
    setChild_eq cursor.links _ side (some element.place) (holds.top_mapped side.other)
  have reads : childrenOf links element.place side = some (pointer Element.place near) := by
    rw [hungChildren, put_elsewhere below]
    exact tree.1.1
  obtain ⟨links', adopted, adoptedChildren⟩ :=
    setParent_eq links element.place (some (top Element.place .next (path.spine side.other)))
      (mapped_of_child reads)
  have read : child links' (some element.place) side = .ok (pointer Element.place near) :=
    child_eq (by rw [adoptedChildren]; exact reads)
  refine ⟨{ cursor.withTail (some element.place) side.other with
    links := links', root := pointer Element.place near }, ?_, ⟨?_, ?_, rfl, ?_⟩, ?_⟩
  · unfold linkBranch
    simp only [tailIs, rootIs, hung, adopted, read, ok_bind]
    rfl
  · change PathHolds Element.place .next (childrenOf links') _
    rw [adoptedChildren, hungChildren]
    exact holds.memory.down distinct seen
  · change Mapped (childrenOf links') _
    rw [adoptedChildren, hungChildren]
    exact holds.next.put _ _ _
  · intro other
    by_cases same : other = side.other
    · subst same
      rw [Path.down_spine_other]
      cases side <;> rfl
    · have own : other = side := by
        cases other <;> cases side <;> first | rfl | exact absurd rfl same
      subst own
      rw [Path.down_spine, ← holds.tail other]
      cases other <;> rfl
  · change Untouched _ _ (childrenOf links')
    rw [adoptedChildren, hungChildren]
    exact Untouched.put (fun _ _ _ => rfl) (top_own path side.other) _ _

theorem rotateBranch_eq {cursor : Cursor} {path : Path (Element Item)}
    (holds : CursorHolds cursor path)
    (distinct : Distinct Element.place .next (path.whole .left)) {side : Side}
    {outer inner far : BinaryTree (Element Item)} {near element : Element Item}
    (seen : path.tree = join side (join side outer near inner) element far) :
    ∃ cursor', rotateBranch side cursor = .ok cursor' ∧
      CursorHolds cursor' (path.withTree (join side outer near (join side inner element far))) ∧
      Untouched (path.whole .left) (childrenOf cursor.links) (childrenOf cursor'.links) := by
  have rootIs : cursor.root = some element.place := by
    rw [holds.root, seen, pointer_join]
  have rotated := holds.memory.rotate distinct seen
  have apart := distinct.whole side
  unfold Path.whole at apart
  rw [seen, walk_join, walk_join] at apart
  simp only [distinct_append, distinct_cons, List.mem_append, List.mem_cons, mem_walk] at apart
  have separate : element.place ≠ near.place := by grind
  have tree := holds.memory.tree
  rw [seen, represents_join, represents_join, pointer_join] at tree
  obtain ⟨⟨elementNear, _⟩, ⟨⟨_, nearInner⟩, _, inners⟩, _⟩ := tree
  have elementMapped := mapped_of_child elementNear
  have nearMapped := mapped_of_child nearInner
  obtain ⟨links₁, turned, children₁⟩ :=
    setChild_eq cursor.links element.place side (pointer Element.place inner) elementMapped
  have nearInner₁ : childrenOf links₁ near.place side.other =
      some (pointer Element.place inner) := by
    rw [children₁, put_elsewhere separate.symm]
    exact nearInner
  obtain ⟨links₂, adopted, children₂⟩ := adopt_eq links₁ (pointer Element.place inner)
    (some element.place) (by rw [children₁]; exact inners.mapped.put _ _ _)
  obtain ⟨links₃, hung, children₃⟩ := setChild_eq links₂ near.place side.other
    (some element.place) (by rw [children₂, children₁]; exact nearMapped.put _ _ _)
  obtain ⟨links₄, raised, children₄⟩ := setParent_eq links₃ element.place (some near.place)
    (by rw [children₃, children₂, children₁]; exact (elementMapped.put _ _ _).put _ _ _)
  have final : childrenOf links₄ =
      put (put (childrenOf cursor.links) element.place side (pointer Element.place inner))
        near.place side.other (some element.place) := by
    rw [children₄, children₃, children₂, children₁]
  refine ⟨{ cursor with links := links₄, root := some near.place }, ?_, ⟨?_, ?_, ?_, ?_⟩, ?_⟩
  · unfold rotateBranch
    simp only [rootIs, child_eq elementNear, child_eq nearInner, turned, child_eq nearInner₁,
      adopted, hung, raised, ok_bind]
    rfl
  · change PathHolds Element.place .next (childrenOf links₄) _
    rw [final]
    exact rotated
  · change Mapped (childrenOf links₄) _
    rw [final]
    exact (holds.next.put _ _ _).put _ _ _
  · exact (pointer_join side _ _ _).symm
  · exact holds.tail
  · change Untouched _ _ (childrenOf links₄)
    rw [final]
    have inTree : ∀ other, other = element ∨ other = near → other ∈ path.whole .left := by
      intro other isOne
      rw [path.mem_whole, seen, mem_inorder_join, mem_inorder_join]
      rcases isOne with rfl | rfl <;> simp
    exact Untouched.put (Untouched.put (fun _ _ _ => rfl)
      (.inr ⟨element, inTree element (.inl rfl), rfl⟩) _ _)
      (.inr ⟨near, inTree near (.inr rfl), rfl⟩) _ _

/-! ### The loop -/

/-- Elements that a table holds in its tree: their data is in memory, their keys are sorted
and their blocks are told apart. -/
structure Ordered (key : Item → Key) (data : Address → Option Item)
    (elements : List (Element Item)) : Prop where
  stored : ∀ element ∈ elements, data element.address = some element.item
  sorted : Sorted (elementKey key) elements
  distinct : Distinct Element.place .next elements

/-- The invariant of the loop: the cursor stands below a path towards the item. -/
structure LoopHolds (key : Item → Key) (item : Item) (elements : List (Element Item))
    (children : Children Place) (cursor : Cursor) (path : Path (Element Item)) : Prop where
  holds : CursorHolds cursor path
  towards : path.Towards (elementKey key) (key item) elements
  untouched : Untouched elements children (childrenOf cursor.links)

/-- What holds when the loop is left: the path ends at the root, which is the item where
`ret` says so. -/
def LoopLeft (key : Item → Key) (item : Item) (elements : List (Element Item))
    (children : Children Place) (result : Bool × Cursor) : Prop :=
  ∃ path left element right, LoopHolds key item elements children result.2 path ∧
    path.tree = .node element left right ∧
    Ends (elementKey key) (key item) left element right ∧
    (result.1 = true ↔ key element.item = key item)

/-- What one turn of the loop leads to: another turn below a smaller tree, or the end. -/
def TurnHolds (key : Item → Key) (item : Item) (elements : List (Element Item))
    (children : Children Place) (variant : Nat) : Turn Cursor (Bool × Cursor) → Prop
  | .again cursor => ∃ smaller < variant, ∃ path, path.tree ≠ .nil ∧
      path.tree.numNodes = smaller ∧ LoopHolds key item elements children cursor path
  | .leave result => LoopLeft key item elements children result

section Loop

variable {key : Item → Key} {item : Item} {elements : List (Element Item)}
  {children : Children Place} {cursor : Cursor} {path : Path (Element Item)}
  {compareRoutine : Item → Item → GenericCompareResults} {data : Address → Option Item}

theorem LoopHolds.distinct (loop : LoopHolds key item elements children cursor path)
    (ordered : Ordered key data elements) :
    Distinct Element.place .next (path.whole .left) := by
  rw [loop.towards.whole]
  exact ordered.distinct

/-- The end of a branch keeps the invariant below a smaller tree. -/
theorem LoopHolds.link (loop : LoopHolds key item elements children cursor path)
    (ordered : Ordered key data elements) {side : Side}
    {near far : BinaryTree (Element Item)} {element : Element Item}
    (seen : path.tree = join side near element far)
    (passed : LiesOn (elementKey key) (key item) side.other element) :
    ∃ cursor', linkBranch side cursor = .ok cursor' ∧
      LoopHolds key item elements children cursor' (path.down side near element far) := by
  obtain ⟨cursor', linked, holds, untouched⟩ :=
    linkBranch_eq loop.holds (loop.distinct ordered) seen
  rw [loop.towards.whole] at untouched
  exact ⟨cursor', linked, holds, loop.towards.down ordered.sorted seen passed,
    loop.untouched.trans untouched⟩

/-- The rotation of a branch keeps the invariant. -/
theorem LoopHolds.rotate (loop : LoopHolds key item elements children cursor path)
    (ordered : Ordered key data elements) {side : Side}
    {outer inner far : BinaryTree (Element Item)} {near element : Element Item}
    (seen : path.tree = join side (join side outer near inner) element far) :
    ∃ cursor', rotateBranch side cursor = .ok cursor' ∧
      LoopHolds key item elements children cursor'
        (path.withTree (join side outer near (join side inner element far))) := by
  obtain ⟨cursor', rotated, holds, untouched⟩ :=
    rotateBranch_eq loop.holds (loop.distinct ordered) seen
  rw [loop.towards.whole] at untouched
  refine ⟨cursor', rotated, holds, loop.towards.withTree side ?_,
    loop.untouched.trans untouched⟩
  rw [seen, walk_join, walk_join, walk_join, walk_join, List.append_assoc, List.cons_append]

/-- The child pointer that a branch tests. -/
theorem LoopHolds.child (loop : LoopHolds key item elements children cursor path) {side : Side}
    {near far : BinaryTree (Element Item)} {element : Element Item}
    (seen : path.tree = join side near element far) :
    Splay.child cursor.links cursor.root side = .ok (pointer Element.place near) := by
  have tree := loop.holds.memory.tree
  rw [seen, represents_join] at tree
  rw [loop.holds.root, seen, pointer_join]
  exact child_eq tree.1.1

theorem LoopHolds.itemdata (loop : LoopHolds key item elements children cursor path)
    (ordered : Ordered key data elements) {element : Element Item}
    (member : element ∈ inorder path.tree) :
    Splay.itemdata data (some element.place) = .ok element.item := by
  have stored : element ∈ elements := by
    rw [← loop.towards.whole, path.mem_whole]
    exact .inr (.inl member)
  rw [Splay.itemdata, Element.place, treeitemToItemdata, deref, ordered.stored element stored]
  rfl

/-- A branch past the root: it goes on below a smaller tree, or leaves at the end. -/
theorem branch_holds (orders : Orders key compareRoutine) (ordered : Ordered key data elements)
    (loop : LoopHolds key item elements children cursor path) {side : Side}
    {near far : BinaryTree (Element Item)} {element : Element Item}
    (seen : path.tree = join side near element far)
    (passed : LiesOn (elementKey key) (key item) side.other element) :
    Holds (TurnHolds key item elements children path.tree.numNodes) (fun _ => False)
      (branch compareRoutine data item side cursor) := by
  have leaves : ∀ {cursor' : Cursor} {path' : Path (Element Item)} {last : Element Item}
      {beyond : BinaryTree (Element Item)}, LoopHolds key item elements children cursor' path' →
      path'.tree = join side .nil last beyond →
      LiesOn (elementKey key) (key item) side.other last →
        LoopLeft key item elements children (false, cursor') := by
    intro cursor' path' last beyond holds ended lastPassed
    obtain ⟨left, right, tree, ends⟩ := Ends.of_join beyond lastPassed
    exact ⟨path', left, last, right, holds, ended.trans tree, ends,
      iff_of_false nofun lastPassed.ne⟩
  unfold branch
  rw [loop.child seen, ok_bind]
  by_cases empty : near = .nil
  · subst empty
    exact leaves loop seen passed
  · obtain ⟨outer, next, inner, rfl⟩ := exists_join side empty
    rw [pointer_join, if_neg nofun, loop.itemdata ordered (by rw [seen]; simp), ok_bind]
    rw [seen, numNodes_join, numNodes_join]
    by_cases further : compareRoutine item next.item = towards side
    · rw [if_pos further]
      have nextPassed := (orders.towards_iff side item next).mp further
      obtain ⟨cursor', rotated, holds⟩ := loop.rotate ordered seen
      rw [rotated, ok_bind, holds.child rfl, ok_bind]
      by_cases last : outer = .nil
      · subst last
        exact leaves holds rfl nextPassed
      · obtain ⟨cursor'', linked, below⟩ := holds.link ordered rfl nextPassed
        rw [if_neg (fun none => last (pointer_eq_none.mp none)), linked, ok_bind]
        refine ⟨_, ?_, _, last, rfl, below⟩
        change outer.numNodes < _
        omega
    · rw [if_neg further]
      obtain ⟨cursor', linked, below⟩ := loop.link ordered seen passed
      rw [linked, ok_bind]
      refine ⟨_, ?_, _, join_ne_nil side outer inner next, rfl, below⟩
      change (join side outer next inner).numNodes < _
      rw [numNodes_join]
      omega

/-- One turn of the loop. -/
theorem splayTurn_holds (orders : Orders key compareRoutine)
    (ordered : Ordered key data elements)
    (loop : LoopHolds key item elements children cursor path) (nonempty : path.tree ≠ .nil) :
    Holds (TurnHolds key item elements children path.tree.numNodes) (fun _ => False)
      (splayTurn compareRoutine data item cursor) := by
  obtain ⟨near, element, far, seen⟩ := exists_join .left nonempty
  have rootIs : cursor.root = some element.place := by
    rw [loop.holds.root, seen, pointer_join]
  unfold splayTurn
  rw [rootIs, loop.itemdata ordered (by rw [seen]; simp), ok_bind]
  rcases orders.cases item element.item with less | greater | equal
  · rw [less]
    exact branch_holds orders ordered loop seen ((orders.less _ _).mp less)
  · rw [greater]
    have mirrored : path.tree = join .right far element near := seen
    exact branch_holds orders ordered loop mirrored ((orders.greater _ _).mp greater)
  · rw [equal]
    have same := ((orders.equal _ _).mp equal).symm
    exact ⟨path, near, element, far, loop, seen, .inl same, iff_of_true rfl same⟩

/-- The whole loop: it ends, at the end of a path. -/
theorem splayLoop_holds (orders : Orders key compareRoutine)
    (ordered : Ordered key data elements)
    (loop : LoopHolds key item elements children cursor path) (nonempty : path.tree ≠ .nil)
    {turns : Nat} (enough : path.tree.numNodes < turns) :
    Holds (LoopLeft key item elements children) (fun _ => False)
      (repeatLoop .outOfTurns (splayTurn compareRoutine data item) turns cursor) := by
  refine repeatLoop_holds (fun variant cursor => ∃ path, path.tree ≠ .nil ∧
    path.tree.numNodes = variant ∧ LoopHolds key item elements children cursor path)
    ?_ turns path.tree.numNodes cursor ⟨path, nonempty, rfl, loop⟩ enough
  rintro variant cursor ⟨path, nonempty, rfl, loop⟩
  refine (splayTurn_holds orders ordered loop nonempty).mono (fun turn kept => ?_)
    (fun _ stopped => stopped)
  cases turn with
  | again next => exact kept
  | leave result => exact kept

end Loop

/-! ### Behind the loop -/

theorem closeSpine_eq {cursor : Cursor} {root tail : Place} {value : Option Place} {side : Side}
    (rootIs : cursor.root = some root) (tailIs : cursor.tail side = some tail)
    (apart : root ≠ tail) (held : childrenOf cursor.links root side = some value)
    (tailMapped : Mapped (childrenOf cursor.links) (some tail))
    (valueMapped : Mapped (childrenOf cursor.links) value) :
    ∃ links', closeSpine side cursor = .ok { cursor with links := links' } ∧
      childrenOf links' = put (childrenOf cursor.links) tail side.other value := by
  obtain ⟨links₁, hung, children₁⟩ := setChild_eq cursor.links tail side.other value tailMapped
  have held₁ : childrenOf links₁ root side = some value := by
    rw [children₁, put_elsewhere apart]
    exact held
  obtain ⟨links₂, adopted, children₂⟩ := adopt_eq links₁ value (some tail)
    (by rw [children₁]; exact valueMapped.put _ _ _)
  refine ⟨links₂, ?_, children₂.trans children₁⟩
  unfold closeSpine
  simp only [rootIs, tailIs, child_eq held, hung, child_eq held₁, adopted, ok_bind]
  rfl

theorem takeSpine_eq {cursor : Cursor} {root : Place} {value : Option Place} {side : Side}
    (rootIs : cursor.root = some root) (notNext : root ≠ .next)
    (held : childrenOf cursor.links .next side.other = some value)
    (rootMapped : Mapped (childrenOf cursor.links) (some root))
    (valueMapped : Mapped (childrenOf cursor.links) value) :
    ∃ links', takeSpine side cursor = .ok { cursor with links := links' } ∧
      childrenOf links' = put (childrenOf cursor.links) root side value := by
  obtain ⟨links₁, hung, children₁⟩ := setChild_eq cursor.links root side value rootMapped
  have held₁ : childrenOf links₁ .next side.other = some value := by
    rw [children₁, put_elsewhere notNext.symm]
    exact held
  obtain ⟨links₂, adopted, children₂⟩ := adopt_eq links₁ value (some root)
    (by rw [children₁]; exact valueMapped.put _ _ _)
  refine ⟨links₂, ?_, children₂.trans children₁⟩
  unfold takeSpine
  simp only [rootIs, child_eq held, hung, child_eq held₁, adopted, ok_bind]
  rfl

/-- The statements behind the loop put the path together. -/
theorem reassemble_eq {cursor : Cursor} {path : Path (Element Item)}
    (holds : CursorHolds cursor path)
    (distinct : Distinct Element.place .next (path.whole .left))
    {left right : BinaryTree (Element Item)} {element : Element Item}
    (seen : path.tree = .node element left right) :
    ∃ links', reassemble cursor = .ok links' ∧
      Represents Element.place (childrenOf links') (path.assemble left element right) ∧
      Untouched (path.whole .left) (childrenOf cursor.links) (childrenOf links') := by
  have rootIs : cursor.root = some element.place := by
    rw [holds.root, seen]
    rfl
  have apart : ∀ side, element.place ≠ top Element.place .next (path.spine side) :=
    fun side => distinct.ne_top side (by rw [seen]; simp [inorder])
  have tree := holds.memory.tree
  rw [seen] at tree
  obtain ⟨⟨heldLeft, heldRight⟩, lefts, rights⟩ := tree
  have elementMapped := mapped_of_child heldLeft
  obtain ⟨links₁, closedLeft, children₁⟩ := closeSpine_eq rootIs (holds.tail .left) (apart .left)
    heldLeft (holds.top_mapped .left) lefts.mapped
  have heldRight₁ : childrenOf links₁ element.place .right =
      some (pointer Element.place right) := by
    rw [children₁, put_elsewhere (apart .left)]
    exact heldRight
  obtain ⟨links₂, closedRight, children₂⟩ :=
    @closeSpine_eq { cursor with links := links₁ } _ _ _ .right rootIs (holds.tail .right)
      (apart .right) heldRight₁
      (by rw [children₁]; exact (holds.top_mapped .right).put _ _ _)
      (by rw [children₁]; exact rights.mapped.put _ _ _)
  have whole : childrenOf links₂ =
      closed Element.place .next (childrenOf cursor.links) path left right := by
    rw [children₂]
    change put (childrenOf links₁) _ _ _ = _
    rw [children₁]
    rfl
  have parts := holds.memory.closed distinct seen
  rw [← whole] at parts
  have elementMapped₂ : Mapped (childrenOf links₂) (some element.place) := by
    rw [whole]
    exact (elementMapped.put _ _ _).put _ _ _
  obtain ⟨links₃, tookLeft, children₃⟩ :=
    @takeSpine_eq { cursor with links := links₂ } _ _ .left rootIs element.place_ne_next
      parts.fromLeft elementMapped₂ parts.holdsLeft.mapped
  obtain ⟨links₄, tookRight, children₄⟩ :=
    @takeSpine_eq { cursor with links := links₃ } _
      (pointer Element.place (attach .right (path.spine .right) right)) .right rootIs
      element.place_ne_next
      (by
        rw [children₃, put_elsewhere element.place_ne_next.symm]
        exact parts.fromRight)
      (by rw [children₃]; exact elementMapped₂.put _ _ _)
      (by rw [children₃]; exact parts.holdsRight.mapped.put _ _ _)
  have final : childrenOf links₄ =
      put (put (childrenOf links₂) element.place .left
        (pointer Element.place (attach .left (path.spine .left) left))) element.place .right
        (pointer Element.place (attach .right (path.spine .right) right)) := by
    rw [children₄]
    change put (childrenOf links₃) _ _ _ = _
    rw [children₃]
  obtain ⟨links₅, released, children₅⟩ := setParent_eq links₄ element.place none
    (by rw [final]; exact (elementMapped₂.put _ _ _).put _ _ _)
  refine ⟨links₅, ?_, ?_, ?_⟩
  · unfold reassemble
    rw [closedLeft, ok_bind, closedRight, ok_bind, tookLeft, ok_bind, tookRight, ok_bind, rootIs]
    exact released
  · rw [children₅, final]
    exact parts.root
  · rw [children₅, final, whole]
    have own : ∃ other ∈ path.whole .left, other.place = element.place :=
      ⟨element, (path.mem_whole .left element).mpr (.inr (.inl (by rw [seen]; simp [inorder]))),
        rfl⟩
    exact (((Untouched.put (fun _ _ _ => rfl) (top_own path .left) _ _).put
      (top_own path .right) _ _).put (.inr own) _ _).put (.inr own) _ _

/-! ### `splay` -/

/-- What `splay` leaves of a tree: the same elements from left to right, under a root that
parts them around the item. -/
structure Splayed (key : Item → Key) (item : Item) (before : List (Element Item))
    (left : BinaryTree (Element Item)) (element : Element Item)
    (right : BinaryTree (Element Item)) : Prop where
  same : inorder (.node element left right) = before
  below : ∀ other ∈ inorder left, key other.item < key item
  above : ∀ other ∈ inorder right, key item < key other.item

/-- `splay` on the empty table. -/
theorem splay_empty {compareRoutine : Item → Item → GenericCompareResults} {turns : Nat}
    {table : GenericTable Item} (empty : table.tableRoot = none) (item : Item) :
    splay compareRoutine turns table item = .ok (false, table) := by
  rw [splay, if_pos empty]
  rfl

/-- `splay` on a search tree: it ends, it keeps the elements in order, and its root is the
item exactly where it returns that. -/
theorem splay_holds {key : Item → Key} {compareRoutine : Item → Item → GenericCompareResults}
    (orders : Orders key compareRoutine) {table : GenericTable Item}
    {tree : BinaryTree (Element Item)} (nonempty : tree ≠ .nil)
    (root : table.tableRoot = pointer Element.place tree)
    (represents : Represents Element.place (childrenOf table.links) tree)
    (ordered : Ordered key table.data (inorder tree)) {turns : Nat}
    (enough : tree.numNodes < turns) (item : Item) :
    ∃ links' left element right,
      splay compareRoutine turns table item =
        .ok (compareRoutine item element.item = .equal,
          { table with links := links', tableRoot := some element.place }) ∧
      Represents Element.place (childrenOf links') (.node element left right) ∧
      Splayed key item (inorder tree) left element right ∧
      Untouched (inorder tree) (childrenOf table.links) (childrenOf links') := by
  have rooted : table.tableRoot ≠ none := by
    rw [root]
    exact fun none => nonempty (pointer_eq_none.mp none)
  generalize begun : Function.update table.links .next
    (some { parent := none, leftChild := none, rightChild := none }) = links₀
  have aside : ∀ {place : Place}, place ≠ .next →
      childrenOf links₀ place = childrenOf table.links place := by
    intro place notNext
    rw [← begun]
    exact childrenOf_update _ _ _ notNext
  have loop : LoopHolds key item (inorder tree) (childrenOf table.links)
      { links := links₀, root := table.tableRoot, left := some .next, right := some .next }
      (Path.atRoot tree) := by
    refine ⟨⟨⟨represents.congr fun element _ => aside element.place_ne_next, fun _ => trivial⟩,
      ?_, root, ?_⟩, Path.towards_atRoot _ _ _, fun place notNext _ => aside notNext⟩
    · rw [← begun]
      exact mapped_update _ _ _
    · intro side
      cases side <;> rfl
  have ran := splayLoop_holds orders ordered loop nonempty enough
  rw [splay, if_neg rooted]
  simp only [begun]
  cases result : repeatLoop .outOfTurns (splayTurn compareRoutine table.data item) turns
      { links := links₀, root := table.tableRoot, left := some .next, right := some .next } with
  | error fault => exact absurd (ran.of_error result) id
  | ok value =>
    obtain ⟨ret, cursor⟩ := value
    obtain ⟨path, left, element, right, left', seen, ends, found⟩ := ran.of_ok result
    obtain ⟨links₁, assembled, represents', untouched⟩ :=
      reassemble_eq left'.holds (left'.distinct ordered) seen
    obtain ⟨same, below, above⟩ := left'.towards.assemble ordered.sorted seen ends
    have rootIs : cursor.root = some element.place := by
      rw [left'.holds.root, seen]
      rfl
    have retIs : ret = decide (compareRoutine item element.item = .equal) := by
      rw [Bool.eq_iff_iff, found, decide_eq_true_iff, orders.equal]
      exact eq_comm
    rw [left'.towards.whole] at untouched
    refine ⟨Function.update links₁ .next none, _, element, _, ?_, ?_, ⟨same, below, above⟩, ?_⟩
    · simp only [ok_bind, assembled, rootIs, retIs]
      rfl
    · exact represents'.congr fun other _ => childrenOf_remove _ _ other.place_ne_next
    · intro place notNext away
      rw [childrenOf_remove _ _ notNext]
      exact (left'.untouched.trans untouched) place notNext away

/-! ### The root that `splay` leaves -/

/-- An element stands next to an item in a list of elements: nothing of the list lies between
them. -/
def Neighbour (key : Item → Key) (item : Item) (elements : List (Element Item))
    (element : Element Item) : Prop :=
  (key element.item < key item ∧
    ∀ other ∈ elements, key other.item < key item → key other.item ≤ key element.item) ∨
  (key item < key element.item ∧
    ∀ other ∈ elements, key item < key other.item → key element.item ≤ key other.item)

section Root

variable {key : Item → Key} {item : Item} {before : List (Element Item)}
  {left right : BinaryTree (Element Item)} {element : Element Item}

/-- The elements beside the root are on the left where they are less than the item. -/
theorem Splayed.left_iff (splayed : Splayed key item before left element right)
    {other : Element Item} (member : other ∈ before) (apart : other ≠ element) :
    other ∈ inorder left ↔ key other.item < key item := by
  refine ⟨splayed.below other, fun less => ?_⟩
  rw [← splayed.same, inorder, List.mem_append, List.mem_cons] at member
  rcases member with onLeft | same | onRight
  · exact onLeft
  · exact absurd same apart
  · exact absurd (splayed.above other onRight) (not_lt_of_gt less)

/-- A root that is not the item is its predecessor or its successor. -/
theorem Splayed.neighbour (splayed : Splayed key item before left element right)
    (search : SearchTree (elementKey key) (.node element left right))
    (differs : key element.item ≠ key item) : Neighbour key item before element := by
  obtain ⟨⟨below, above⟩, _⟩ := search
  have within : ∀ other ∈ before,
      other ∈ inorder left ∨ other = element ∨ other ∈ inorder right := by
    intro other member
    rwa [← splayed.same, inorder, List.mem_append, List.mem_cons] at member
  rcases lt_or_gt_of_ne differs with less | greater
  · refine .inl ⟨less, fun other member otherLess => ?_⟩
    rcases within other member with onLeft | rfl | onRight
    · exact le_of_lt (below other onLeft)
    · exact le_refl _
    · exact absurd (splayed.above other onRight) (not_lt_of_gt otherLess)
  · refine .inr ⟨greater, fun other member otherGreater => ?_⟩
    rcases within other member with onLeft | rfl | onRight
    · exact absurd (splayed.below other onLeft) (not_lt_of_gt otherGreater)
    · exact le_refl _
    · exact le_of_lt (above other onRight)

/-- An element that is the item is the root. -/
theorem Splayed.root_eq (splayed : Splayed key item before left element right)
    {other : Element Item} (member : other ∈ before) (same : key other.item = key item) :
    other = element := by
  rw [← splayed.same, inorder, List.mem_append, List.mem_cons] at member
  rcases member with onLeft | root | onRight
  · exact absurd same (ne_of_lt (splayed.below other onLeft))
  · exact root
  · exact absurd same (ne_of_gt (splayed.above other onRight))

end Root

/-- `splay` ends with the same elements from left to right. Where an element is the item it
returns that, with the element as root; otherwise the root stands next to the item and parts
the other elements around it. -/
theorem splay_root {key : Item → Key} {compareRoutine : Item → Item → GenericCompareResults}
    (orders : Orders key compareRoutine) (table : GenericTable Item)
    (tree : BinaryTree (Element Item)) (nonempty : tree ≠ .nil)
    (root : table.tableRoot = pointer Element.place tree)
    (represents : Represents Element.place (childrenOf table.links) tree)
    (ordered : Ordered key table.data (inorder tree)) {turns : Nat}
    (enough : tree.numNodes < turns) (item : Item) :
    ∃ ret links' left element right,
      splay compareRoutine turns table item =
        .ok (ret, { table with links := links', tableRoot := some element.place }) ∧
      Represents Element.place (childrenOf links') (.node element left right) ∧
      inorder (.node element left right) = inorder tree ∧
      (ret = true ↔ ∃ other ∈ inorder tree, compareRoutine item other.item = .equal) ∧
      (ret = true → compareRoutine item element.item = .equal) ∧
      (ret = false → Neighbour key item (inorder tree) element ∧
        ∀ other ∈ inorder tree, other ≠ element →
          (other ∈ inorder left ↔ compareRoutine other.item item = .lessThan)) := by
  obtain ⟨links', left, element, right, ran, represents', splayed, _⟩ :=
    splay_holds orders nonempty root represents ordered enough item
  have search : SearchTree (elementKey key) (.node element left right) := by
    rw [searchTree_iff_sorted, splayed.same]
    exact ordered.sorted
  have rooted : element ∈ inorder tree := by
    rw [← splayed.same]
    exact List.mem_append_right _ List.mem_cons_self
  refine ⟨_, links', left, element, right, ran, represents', splayed.same, ?_, ?_, ?_⟩
  · rw [decide_eq_true_iff]
    refine ⟨fun found => ⟨element, rooted, found⟩, ?_⟩
    rintro ⟨other, member, found⟩
    have same := splayed.root_eq member ((orders.equal _ _).mp found).symm
    rwa [same] at found
  · exact decide_eq_true_iff.mp
  · intro missing
    have differs : key element.item ≠ key item := fun same =>
      of_decide_eq_false missing ((orders.equal _ _).mpr same.symm)
    refine ⟨splayed.neighbour search differs, fun other member apart => ?_⟩
    rw [splayed.left_iff member apart, orders.less]

/-- Three elements: 5, with 3 on its left and 8 on its right. -/
def exampleTree : BinaryTree (Element Nat) :=
  .node ⟨100, 5⟩ (.node ⟨200, 3⟩ .nil .nil) (.node ⟨300, 8⟩ .nil .nil)

/-- A table of the three elements, inserted in the order 5, 3, 8. -/
def exampleTable : GenericTable Nat where
  links := fun
    | .item 100 => some ⟨none, some (.item 200), some (.item 300)⟩
    | .item 200 => some ⟨some (.item 100), none, none⟩
    | .item 300 => some ⟨some (.item 100), none, none⟩
    | _ => none
  entries := fun
    | .insertOrderList => some ⟨some (.item 100), some (.item 300)⟩
    | .item 100 => some ⟨some (.item 200), some .insertOrderList⟩
    | .item 200 => some ⟨some (.item 300), some (.item 100)⟩
    | .item 300 => some ⟨some .insertOrderList, some (.item 200)⟩
    | _ => none
  data := fun
    | 100 => some 5
    | 200 => some 3
    | 300 => some 8
    | _ => none
  tableRoot := some (.item 100)
  orderedPointer := some .insertOrderList
  whichOrderedElement := 0
  numberGenericTableElements := 3

theorem exampleTable_represents :
    Represents Element.place (childrenOf exampleTable.links) exampleTree :=
  ⟨⟨rfl, rfl⟩, ⟨⟨rfl, rfl⟩, trivial, trivial⟩, ⟨rfl, rfl⟩, trivial, trivial⟩

theorem exampleTable_ordered : Ordered id exampleTable.data (inorder exampleTree) where
  stored := by simp [exampleTree, exampleTable, inorder]
  sorted := by simp [exampleTree, inorder, Sorted, elementKey]
  distinct := ⟨by decide, fun element _ => element.place_ne_next⟩

/-- `splay` by an item that is not in the table, between 5 and 8. -/
theorem splay_root_exampleTable :
    ∃ ret links' left element right,
      splay compareNumbers 4 exampleTable 6 =
        .ok (ret, { exampleTable with links := links', tableRoot := some element.place }) ∧
      Represents Element.place (childrenOf links') (.node element left right) ∧
      inorder (.node element left right) = inorder exampleTree ∧
      (ret = true ↔ ∃ other ∈ inorder exampleTree, compareNumbers 6 other.item = .equal) ∧
      (ret = true → compareNumbers 6 element.item = .equal) ∧
      (ret = false → Neighbour id 6 (inorder exampleTree) element ∧
        ∀ other ∈ inorder exampleTree, other ≠ element →
          (other ∈ inorder left ↔ compareNumbers other.item 6 = .lessThan)) :=
  splay_root orders_compareNumbers exampleTable exampleTree nofun rfl exampleTable_represents
    exampleTable_ordered (by decide) 6

end Nloader.Splay
