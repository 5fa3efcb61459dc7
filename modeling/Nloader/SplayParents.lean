/-
This file is about the parent pointers of a generic table, which none of its calls reads. No
order of the keys takes part in them: whatever a turn of `splay` has compared, its writes go
with a step of a path, and the writes behind the loop with its end. A `splay` that returns
therefore leaves a tree whose parent pointers are the inverse of its child pointers, whatever
the root of the tree held before.
-/

import Nloader.Library.ParentTree
import Nloader.SplayTree

namespace Nloader.Splay

open Outcome TreePath PointerTree ParentTree

variable {Item : Type}

/-! ### Writes that return -/

/-- The parent pointers of the links in memory. -/
def parentsOf (links : Links) : Parents Place :=
  fun place => (links place).map SplayLinks.parent

/-- The root's `Parent` is NULL, and that of every other node of the tree is the node of which
it is a child. -/
def ParentsHold (table : GenericTable Item) : Prop :=
  ParentLinks (childrenOf table.links) (parentsOf table.links) table.tableRoot none

theorem write_ok {Location Cell : Type} [DecidableEq Location]
    {memory memory' : Location → Option Cell} {pointer : Option Location} {change : Cell → Cell}
    (ran : write memory pointer change = .ok memory') :
    ∃ location cell, pointer = some location ∧ memory location = some cell ∧
      memory' = Function.update memory location (some (change cell)) := by
  unfold write at ran
  cases pointer with
  | none => cases ran
  | some location =>
    cases held : memory location with
    | none =>
      simp only [held] at ran
      cases ran
    | some cell =>
      simp only [held] at ran
      cases ran
      exact ⟨location, cell, rfl, held, rfl⟩

theorem setChild_parents {links links' : Links} {target value : Option Place} {side : Side}
    (ran : setChild links target side value = .ok links') : parentsOf links' = parentsOf links := by
  obtain ⟨place, cell, rfl, held, rfl⟩ := write_ok ran
  funext here
  unfold parentsOf
  by_cases same : here = place
  · subst same
    rw [Function.update_self, held]
    cases side <;> rfl
  · rw [Function.update_of_ne same]

theorem setParent_parents {links links' : Links} {target value : Option Place}
    (ran : setParent links target value = .ok links') :
    target ≠ none ∧ parentsOf links' = withParent (parentsOf links) target value := by
  obtain ⟨place, cell, rfl, held, rfl⟩ := write_ok ran
  refine ⟨nofun, funext fun here => ?_⟩
  by_cases same : here = place
  · subst same
    rw [withParent_same, parentsOf, Function.update_self]
    rfl
  · rw [withParent_elsewhere fun other => same (Option.some.inj other).symm, parentsOf,
      Function.update_of_ne same]
    rfl

theorem adopt_parents {links links' : Links} {target value : Option Place}
    (ran : adopt links target value = .ok links') :
    parentsOf links' = withParent (parentsOf links) target value := by
  cases target with
  | none =>
    cases ran
    rfl
  | some place =>
    rw [adopt, if_neg nofun] at ran
    exact (setParent_parents ran).2

/-- A child pointer that has been read. -/
theorem child_ok {links : Links} {target value : Option Place} {side : Side}
    (ran : child links target side = .ok value) :
    ∃ place, target = some place ∧ childrenOf links place side = some value := by
  obtain ⟨cell, read, same⟩ := bind_eq_ok.mp ran
  cases target with
  | none => cases read
  | some place =>
    unfold deref at read
    cases held : links place with
    | none =>
      simp only [held] at read
      cases read
    | some found =>
      simp only [held] at read
      cases read
      cases same
      exact ⟨place, rfl, by rw [childrenOf, held]; rfl⟩

/-- A child pointer that has been written. -/
theorem setChild_children {links links' : Links} {place : Place} {value : Option Place}
    {side : Side} (ran : setChild links (some place) side value = .ok links') :
    childrenOf links' = put (childrenOf links) place side value := by
  obtain ⟨_, cell, same, held, _⟩ := write_ok ran
  cases same
  have read : childrenOf links place side = some (cell.child side) := by
    rw [childrenOf, held]
    rfl
  obtain ⟨links'', ran', children⟩ := setChild_eq links place side value (mapped_of_child read)
  cases ran.symm.trans ran'
  exact children

/-! ### Steps of the loop -/

/-- The end of a branch writes the parent pointer of the root. -/
theorem linkBranch_parents {side : Side} {cursor cursor' : Cursor}
    (ran : linkBranch side cursor = .ok cursor') :
    cursor.root ≠ none ∧ parentsOf cursor'.links =
      withParent (parentsOf cursor.links) cursor.root (cursor.tail side.other) := by
  obtain ⟨links, hung, ran⟩ := bind_eq_ok.mp ran
  obtain ⟨links', adopted, ran⟩ := bind_eq_ok.mp ran
  obtain ⟨root, _, ran⟩ := bind_eq_ok.mp ran
  cases ran
  obtain ⟨rooted, parents⟩ := setParent_parents adopted
  refine ⟨rooted, ?_⟩
  change parentsOf links' = _
  rw [parents, setChild_parents hung]

/-- The rotation of a branch writes the parent pointers of the subtree that changes sides and
of the root. -/
theorem rotateBranch_parents {side : Side} {cursor cursor' : Cursor} {root temp : Place}
    {inner : Option Place} (ran : rotateBranch side cursor = .ok cursor')
    (rootIs : cursor.root = some root)
    (near : childrenOf cursor.links root side = some (some temp))
    (nearInner : childrenOf cursor.links temp side.other = some inner) (apart : temp ≠ root) :
    parentsOf cursor'.links =
      withParent (withParent (parentsOf cursor.links) inner (some root)) (some root)
        (some temp) := by
  unfold rotateBranch at ran
  rw [rootIs, child_eq near, ok_bind, child_eq nearInner, ok_bind] at ran
  obtain ⟨links₁, turned, ran⟩ := bind_eq_ok.mp ran
  have nearInner₁ : childrenOf links₁ temp side.other = some inner := by
    rw [setChild_children turned, put_elsewhere apart]
    exact nearInner
  rw [child_eq nearInner₁, ok_bind] at ran
  obtain ⟨links₂, adopted, ran⟩ := bind_eq_ok.mp ran
  obtain ⟨links₃, hung, ran⟩ := bind_eq_ok.mp ran
  obtain ⟨links₄, raised, ran⟩ := bind_eq_ok.mp ran
  cases ran
  change parentsOf links₄ = _
  rw [(setParent_parents raised).2, setChild_parents hung, adopt_parents adopted,
    setChild_parents turned]

/-- What one turn to a side does: it leaves at a child that is missing, before or behind a
rotation, and otherwise goes round again behind the end of the branch. -/
theorem branch_cases {compareRoutine : Item → Item → GenericCompareResults}
    {data : Address → Option Item} {item : Item} {side : Side} {cursor : Cursor}
    {turn : Turn Cursor (Bool × Cursor)}
    (ran : branch compareRoutine data item side cursor = .ok turn) :
    ∃ cursor', (cursor' = cursor ∨ rotateBranch side cursor = .ok cursor') ∧
      (turn = .leave (false, cursor') ∨
        ∃ next, linkBranch side cursor' = .ok next ∧ turn = .again next) := by
  unfold branch at ran
  obtain ⟨near, _, ran⟩ := bind_eq_ok.mp ran
  by_cases missing : near = none
  · rw [if_pos missing] at ran
    cases ran
    exact ⟨cursor, .inl rfl, .inl rfl⟩
  · rw [if_neg missing] at ran
    obtain ⟨nearData, _, ran⟩ := bind_eq_ok.mp ran
    split at ran
    · obtain ⟨cursor', rotated, ran⟩ := bind_eq_ok.mp ran
      obtain ⟨near', _, ran⟩ := bind_eq_ok.mp ran
      refine ⟨cursor', .inr rotated, ?_⟩
      split at ran
      · cases ran
        exact .inl rfl
      · obtain ⟨next, linked, ran⟩ := bind_eq_ok.mp ran
        cases ran
        exact .inr ⟨next, linked, rfl⟩
    · obtain ⟨next, linked, ran⟩ := bind_eq_ok.mp ran
      cases ran
      exact ⟨cursor, .inl rfl, .inr ⟨next, linked, rfl⟩⟩

/-- Nothing but the parent pointers of `next` and of the given elements has changed. -/
def Spared (elements : List (Element Item)) (parents parents' : Parents Place) : Prop :=
  ∀ place, place ≠ .next → (∀ element ∈ elements, element.place ≠ place) →
    parents' place = parents place

theorem Spared.withParent {elements : List (Element Item)} {parents parents' : Parents Place}
    (spared : Spared elements parents parents') {target : Option Place}
    (own : ∀ place, (∀ element ∈ elements, element.place ≠ place) → target ≠ some place)
    (value : Option Place) : Spared elements parents (withParent parents' target value) := by
  intro place notNext away
  rw [withParent_elsewhere (own place away), spared place notNext away]

/-- The pointer to a tree of elements leads to none but these. -/
theorem own_pointer {elements : List (Element Item)} {tree : BinaryTree (Element Item)}
    (within : ∀ element ∈ inorder tree, element ∈ elements) (place : Place)
    (away : ∀ element ∈ elements, element.place ≠ place) :
    pointer Element.place tree ≠ some place :=
  pointer_ne fun element member => away element (within element member)

/-- A cursor in the middle of the loop, with the parent pointers of its path. -/
structure Threaded (elements : List (Element Item)) (children : Children Place)
    (parents : Parents Place) (cursor : Cursor) (path : Path (Element Item)) : Prop where
  holds : CursorHolds cursor path
  whole : path.whole .left = elements
  parented : PathParented Element.place .next (parentsOf cursor.links) path
  untouched : Untouched elements children (childrenOf cursor.links)
  spared : Spared elements parents (parentsOf cursor.links)

/-- What one turn of the loop leads to, with the parent pointers of a path either way. -/
def TurnThreaded (elements : List (Element Item)) (children : Children Place)
    (parents : Parents Place) : Turn Cursor (Bool × Cursor) → Prop
  | .again next => ∃ path, Threaded elements children parents next path
  | .leave result => ∃ path, Threaded elements children parents result.2 path

section Loop

variable {elements : List (Element Item)} {children : Children Place} {parents : Parents Place}
  {cursor cursor' : Cursor} {path : Path (Element Item)} {side : Side}

theorem Threaded.distinct (threaded : Threaded elements children parents cursor path)
    (distinct : Distinct Element.place .next elements) :
    Distinct Element.place .next (path.whole .left) := by
  rw [threaded.whole]
  exact distinct

theorem Threaded.mem (threaded : Threaded elements children parents cursor path)
    {element : Element Item} (member : element ∈ inorder path.tree) : element ∈ elements := by
  rw [← threaded.whole, path.mem_whole]
  exact .inr (.inl member)

/-- The end of a branch keeps the parent pointers. -/
theorem Threaded.link (threaded : Threaded elements children parents cursor path)
    (distinct : Distinct Element.place .next elements)
    (ran : linkBranch side cursor = .ok cursor') :
    ∃ path', Threaded elements children parents cursor' path' := by
  obtain ⟨rooted, raised⟩ := linkBranch_parents ran
  rw [threaded.holds.root] at rooted raised
  have nonempty : path.tree ≠ .nil := fun empty => rooted (by rw [empty]; rfl)
  obtain ⟨near, element, far, seen⟩ := exists_join side nonempty
  have apart := threaded.distinct distinct
  obtain ⟨_, ran', holds, untouched⟩ := linkBranch_eq threaded.holds apart seen
  cases ran.symm.trans ran'
  have spared := threaded.spared.withParent (own_pointer fun _ member => threaded.mem member)
    (cursor.tail side.other)
  rw [← raised] at spared
  rw [seen, pointer_join, threaded.holds.tail] at raised
  rw [threaded.whole] at untouched
  refine ⟨path.down side near element far, holds, ?_, ?_, threaded.untouched.trans untouched,
    spared⟩
  · exact (Path.whole_left side (Path.whole_down seen)).trans threaded.whole
  · rw [raised]
    exact threaded.parented.down apart seen

/-- The rotation of a branch keeps the parent pointers. -/
theorem Threaded.rotate (threaded : Threaded elements children parents cursor path)
    (distinct : Distinct Element.place .next elements)
    (ran : rotateBranch side cursor = .ok cursor') :
    ∃ path', Threaded elements children parents cursor' path' := by
  obtain ⟨temp, readTemp, rest⟩ := bind_eq_ok.mp ran
  obtain ⟨inner', readInner, _⟩ := bind_eq_ok.mp rest
  obtain ⟨root, rootIs, held⟩ := child_ok readTemp
  obtain ⟨below, rfl, heldInner⟩ := child_ok readInner
  -- The pointers that have been read lead to the two nodes of a rotation.
  have rooted := rootIs
  rw [threaded.holds.root] at rooted
  have nonempty : path.tree ≠ .nil := fun empty => by rw [empty] at rooted; cases rooted
  obtain ⟨near, element, far, seen⟩ := exists_join side nonempty
  rw [seen, pointer_join] at rooted
  cases rooted
  have tree := threaded.holds.memory.tree
  rw [seen, represents_join, held] at tree
  obtain ⟨⟨nearIs, _⟩, nears, _⟩ := tree
  have nearNonempty : near ≠ .nil := fun empty => by rw [empty] at nearIs; cases nearIs
  obtain ⟨outer, next, inner, rfl⟩ := exists_join side nearNonempty
  rw [pointer_join] at nearIs
  cases nearIs
  rw [represents_join, heldInner] at nears
  obtain ⟨⟨_, innerIs⟩, _⟩ := nears
  cases innerIs
  have apart := threaded.distinct distinct
  obtain ⟨_, ran', holds, untouched⟩ := rotateBranch_eq threaded.holds apart seen
  cases ran.symm.trans ran'
  have separate : next.place ≠ element.place := by
    have order := apart.whole side
    unfold Path.whole at order
    rw [seen, walk_join, walk_join] at order
    simp only [distinct_append, distinct_cons, List.mem_append, List.mem_cons] at order
    grind
  have raised := rotateBranch_parents ran rootIs held heldInner separate
  rw [threaded.whole] at untouched
  refine ⟨_, holds, ?_, ?_, threaded.untouched.trans untouched, ?_⟩
  · refine (Path.whole_left side (Path.whole_withTree side ?_)).trans threaded.whole
    rw [seen, walk_join, walk_join, walk_join, walk_join, List.append_assoc, List.cons_append]
  · rw [raised]
    exact threaded.parented.rotate apart seen
  · rw [raised]
    refine (threaded.spared.withParent (own_pointer fun other member => threaded.mem ?_)
      _).withParent (fun place away same => away element (threaded.mem ?_) ?_) _
    · rw [seen]
      simp [member]
    · rw [seen]
      simp
    · exact Option.some.inj same

/-- One turn of the loop keeps the parent pointers. -/
theorem Threaded.turn {compareRoutine : Item → Item → GenericCompareResults}
    {data : Address → Option Item} {item : Item} {turn : Turn Cursor (Bool × Cursor)}
    (threaded : ∃ path, Threaded elements children parents cursor path)
    (distinct : Distinct Element.place .next elements)
    (ran : splayTurn compareRoutine data item cursor = .ok turn) :
    TurnThreaded elements children parents turn := by
  have branched : ∀ side, branch compareRoutine data item side cursor = .ok turn →
      TurnThreaded elements children parents turn := by
    intro side ran
    obtain ⟨path, threaded⟩ := threaded
    obtain ⟨cursor', step, turned⟩ := branch_cases ran
    have kept : ∃ path', Threaded elements children parents cursor' path' := by
      rcases step with rfl | rotated
      · exact ⟨path, threaded⟩
      · exact threaded.rotate distinct rotated
    rcases turned with rfl | ⟨next, linked, rfl⟩
    · exact kept
    · obtain ⟨path', threaded'⟩ := kept
      exact threaded'.link distinct linked
  obtain ⟨rootData, _, ran⟩ := bind_eq_ok.mp ran
  split at ran
  · exact branched .left ran
  · exact branched .right ran
  · cases ran
    exact threaded
  · cases ran

end Loop

/-! ### Behind the loop -/

theorem setParent_children {links links' : Links} {target value : Option Place}
    (ran : setParent links target value = .ok links') : childrenOf links' = childrenOf links := by
  obtain ⟨place, cell, rfl, held, rfl⟩ := write_ok ran
  funext here side
  unfold childrenOf
  by_cases same : here = place
  · subst same
    rw [Function.update_self, held]
    cases side <;> rfl
  · rw [Function.update_of_ne same]

theorem adopt_children {links links' : Links} {target value : Option Place}
    (ran : adopt links target value = .ok links') : childrenOf links' = childrenOf links := by
  cases target with
  | none =>
    cases ran
    rfl
  | some place =>
    rw [adopt, if_neg nofun] at ran
    exact setParent_children ran

/-- A subtree of the root goes to the end of a spine. -/
theorem closeSpine_parents {cursor cursor' : Cursor} {side : Side} {root tail : Place}
    {value : Option Place} (ran : closeSpine side cursor = .ok cursor')
    (rootIs : cursor.root = some root) (tailIs : cursor.tail side = some tail)
    (apart : root ≠ tail) (held : childrenOf cursor.links root side = some value) :
    ∃ links, cursor' = { cursor with links } ∧
      childrenOf links = put (childrenOf cursor.links) tail side.other value ∧
      parentsOf links = withParent (parentsOf cursor.links) value (some tail) := by
  unfold closeSpine at ran
  rw [rootIs, tailIs, child_eq held, ok_bind] at ran
  obtain ⟨links₁, hung, ran⟩ := bind_eq_ok.mp ran
  have children := setChild_children hung
  have held₁ : childrenOf links₁ root side = some value := by
    rw [children, put_elsewhere apart]
    exact held
  rw [child_eq held₁, ok_bind] at ran
  obtain ⟨links₂, adopted, ran⟩ := bind_eq_ok.mp ran
  cases ran
  refine ⟨links₂, by rw [rootIs], (adopt_children adopted).trans children, ?_⟩
  rw [adopt_parents adopted, setChild_parents hung]

/-- A spine goes below the root. -/
theorem takeSpine_parents {cursor cursor' : Cursor} {side : Side} {root : Place}
    {value : Option Place} (ran : takeSpine side cursor = .ok cursor')
    (rootIs : cursor.root = some root) (notNext : root ≠ .next)
    (held : childrenOf cursor.links .next side.other = some value) :
    ∃ links, cursor' = { cursor with links } ∧
      childrenOf links = put (childrenOf cursor.links) root side value ∧
      parentsOf links = withParent (parentsOf cursor.links) value (some root) := by
  unfold takeSpine at ran
  rw [rootIs, child_eq held, ok_bind] at ran
  obtain ⟨links₁, hung, ran⟩ := bind_eq_ok.mp ran
  have children := setChild_children hung
  have held₁ : childrenOf links₁ .next side.other = some value := by
    rw [children, put_elsewhere notNext.symm]
    exact held
  rw [child_eq held₁, ok_bind] at ran
  obtain ⟨links₂, adopted, ran⟩ := bind_eq_ok.mp ran
  cases ran
  refine ⟨links₂, by rw [rootIs], (adopt_children adopted).trans children, ?_⟩
  rw [adopt_parents adopted, setChild_parents hung]

/-- The statements behind the loop write the parent pointers of the end of the path. -/
theorem reassemble_parents {cursor : Cursor} {path : Path (Element Item)} {links' : Links}
    (ran : reassemble cursor = .ok links') (holds : CursorHolds cursor path)
    (distinct : Distinct Element.place .next (path.whole .left))
    {left right : BinaryTree (Element Item)} {element : Element Item}
    (seen : path.tree = .node element left right) :
    parentsOf links' =
      closedParents Element.place .next (parentsOf cursor.links) path left element right := by
  have rootIs : cursor.root = some element.place := by
    rw [holds.root, seen]
    rfl
  have apart : ∀ side, element.place ≠ top Element.place .next (path.spine side) :=
    fun side => distinct.ne_top side (by rw [seen]; simp [inorder])
  have parts := holds.memory.closed distinct seen
  have tree := holds.memory.tree
  rw [seen] at tree
  obtain ⟨⟨heldLeft, heldRight⟩, _⟩ := tree
  obtain ⟨_, closedLeft, ran⟩ := bind_eq_ok.mp ran
  obtain ⟨links₁, rfl, children₁, parents₁⟩ :=
    closeSpine_parents closedLeft rootIs (holds.tail .left) (apart .left) heldLeft
  obtain ⟨_, closedRight, ran⟩ := bind_eq_ok.mp ran
  have heldRight₁ : childrenOf links₁ element.place .right =
      some (pointer Element.place right) := by
    rw [children₁, put_elsewhere (apart .left)]
    exact heldRight
  obtain ⟨links₂, rfl, children₂, parents₂⟩ :=
    closeSpine_parents closedRight rootIs (holds.tail .right) (apart .right) heldRight₁
  have whole : childrenOf links₂ =
      closed Element.place .next (childrenOf cursor.links) path left right := by
    rw [children₂]
    change put (childrenOf links₁) _ _ _ = _
    rw [children₁]
    rfl
  rw [← whole] at parts
  obtain ⟨_, tookLeft, ran⟩ := bind_eq_ok.mp ran
  obtain ⟨links₃, rfl, children₃, parents₃⟩ :=
    takeSpine_parents tookLeft rootIs element.place_ne_next parts.fromLeft
  obtain ⟨_, tookRight, ran⟩ := bind_eq_ok.mp ran
  have fromRight : childrenOf links₃ .next .left =
      some (pointer Element.place (attach .right (path.spine .right) right)) := by
    rw [children₃, put_elsewhere element.place_ne_next.symm]
    exact parts.fromRight
  obtain ⟨links₄, rfl, _, parents₄⟩ :=
    takeSpine_parents tookRight rootIs element.place_ne_next fromRight
  have released := (setParent_parents ran).2
  dsimp only at parents₁ parents₂ parents₃ parents₄ released
  rw [released, parents₄, parents₃, parents₂, parents₁, rootIs]
  rfl

/-- The parent pointers of the end of a path are those of its elements. -/
theorem Threaded.closed {elements : List (Element Item)} {children : Children Place}
    {parents : Parents Place} {cursor : Cursor} {path : Path (Element Item)}
    (threaded : Threaded elements children parents cursor path)
    {left right : BinaryTree (Element Item)} {element : Element Item}
    (seen : path.tree = .node element left right) :
    Spared elements parents
      (closedParents Element.place .next (parentsOf cursor.links) path left element right) := by
  have parts : ∀ other ∈ inorder path.tree, other ∈ elements := fun _ member => threaded.mem member
  have sides : ∀ other ∈ inorder (path.assemble left element right), other ∈ elements := by
    rw [Path.inorder_assemble seen, threaded.whole]
    exact fun _ member => member
  rw [seen] at parts
  rw [Path.assemble] at sides
  simp only [inorder, List.mem_append, List.mem_cons] at parts sides
  have spared := threaded.spared
  unfold closedParents
  refine Spared.withParent ?_ (fun place away same => ?_) _
  · refine (((spared.withParent ?_ _).withParent ?_ _).withParent ?_ _).withParent ?_ _
    · exact own_pointer fun other member => parts other (.inl member)
    · exact own_pointer fun other member => parts other (.inr (.inr member))
    · exact own_pointer fun other member => sides other (.inl member)
    · exact own_pointer fun other member => sides other (.inr (.inr member))
  · exact away element (parts element (.inr (.inl rfl))) (Option.some.inj same)

/-! ### `splay` -/

/-- A tree in memory with its parent pointers, below a pointer. -/
structure Hangs (links : Links) (above : Option Place) (tree : BinaryTree (Element Item)) :
    Prop where
  represents : Represents Element.place (childrenOf links) tree
  parented : Parented Element.place (parentsOf links) above tree
  distinct : Distinct Element.place .next (inorder tree)

/-- The parent pointers of a table, seen from a tree that it holds. -/
theorem parentsHold_iff {table : GenericTable Item} {tree : BinaryTree (Element Item)}
    (root : table.tableRoot = pointer Element.place tree)
    (represents : Represents Element.place (childrenOf table.links) tree) :
    ParentsHold table ↔ Parented Element.place (parentsOf table.links) none tree := by
  unfold ParentsHold
  rw [root]
  exact parentLinks_iff represents

theorem parentsOf_update (links : Links) (place : Place) (cell : Option SplayLinks)
    {place' : Place} (elsewhere : place' ≠ place) :
    parentsOf (Function.update links place cell) place' = parentsOf links place' := by
  unfold parentsOf
  rw [Function.update_of_ne elsewhere]

/-- What `splay` leaves of a tree that hangs below any pointer: a tree of the same elements
that hangs below NULL. -/
structure SplayedParents (table table' : GenericTable Item)
    (tree tree' : BinaryTree (Element Item)) : Prop where
  kept : table' = { table with links := table'.links, tableRoot := pointer Element.place tree' }
  hangs : Hangs table'.links none tree'
  same : inorder tree' = inorder tree
  untouched : Untouched (inorder tree) (childrenOf table.links) (childrenOf table'.links)
  spared : Spared (inorder tree) (parentsOf table.links) (parentsOf table'.links)

/-- `splay` writes every parent pointer that it changes. -/
theorem splay_parents {compareRoutine : Item → Item → GenericCompareResults} {turns : Nat}
    {table table' : GenericTable Item} {item : Item} {ret : Bool} {above : Option Place}
    {tree : BinaryTree (Element Item)} (nonempty : tree ≠ .nil)
    (root : table.tableRoot = pointer Element.place tree) (hangs : Hangs table.links above tree)
    (ran : splay compareRoutine turns table item = .ok (ret, table')) :
    ∃ left element right, SplayedParents table table' tree (.node element left right) := by
  have rooted : table.tableRoot ≠ none := by
    rw [root]
    exact fun none => nonempty (pointer_eq_none.mp none)
  unfold splay at ran
  rw [if_neg rooted] at ran
  obtain ⟨⟨ret', cursor⟩, looped, ran⟩ := bind_eq_ok.mp ran
  generalize begun : Function.update table.links .next
    (some { parent := none, leftChild := none, rightChild := none }) = links₀ at looped
  have aside : ∀ {place : Place}, place ≠ .next →
      childrenOf links₀ place = childrenOf table.links place ∧
        parentsOf links₀ place = parentsOf table.links place := by
    intro place notNext
    rw [← begun]
    exact ⟨childrenOf_update _ _ _ notNext, parentsOf_update _ _ _ notNext⟩
  have next : Mapped (childrenOf links₀) (some .next) := by
    rw [← begun]
    exact mapped_update _ _ _
  have start : Threaded (inorder tree) (childrenOf table.links) (parentsOf table.links)
      { links := links₀, root := table.tableRoot, left := some .next, right := some .next }
      (Path.atRoot tree) := by
    refine ⟨⟨⟨hangs.represents.congr fun element _ => (aside element.place_ne_next).1,
      fun _ => trivial⟩, next, root, fun side => ?_⟩, Path.whole_atRoot tree .left,
      ⟨⟨above, hangs.parented.congr fun element _ => (aside element.place_ne_next).2⟩,
        fun _ => trivial⟩, fun place notNext _ => (aside notNext).1,
      fun place notNext _ => (aside notNext).2⟩
    cases side <;> rfl
  obtain ⟨path, threaded⟩ := repeatLoop_keeps
    (fun cursor => ∃ path, Threaded (inorder tree) (childrenOf table.links)
      (parentsOf table.links) cursor path)
    (fun result => ∃ path, Threaded (inorder tree) (childrenOf table.links)
      (parentsOf table.links) result.2 path)
    (fun cursor turn threaded turned => by
      have kept := Threaded.turn threaded hangs.distinct turned
      cases turn <;> exact kept)
    turns _ _ ⟨_, start⟩ looped
  obtain ⟨links₁, assembled, ran⟩ := bind_eq_ok.mp ran
  cases ran
  obtain ⟨_, closedLeft, _⟩ := bind_eq_ok.mp assembled
  obtain ⟨near, readNear, _⟩ := bind_eq_ok.mp closedLeft
  obtain ⟨last, lastIs, _⟩ := child_ok readNear
  have apart := threaded.distinct hangs.distinct
  cases seen : path.tree with
  | nil =>
    rw [threaded.holds.root, seen] at lastIs
    cases lastIs
  | node element left right =>
    obtain ⟨_, ran', represents, untouched⟩ := reassemble_eq threaded.holds apart seen
    cases assembled.symm.trans ran'
    have parents := reassemble_parents assembled threaded.holds apart seen
    have parented := threaded.parented.closed apart seen
    rw [← parents] at parented
    have same : inorder (path.assemble left element right) = inorder tree :=
      (Path.inorder_assemble seen).trans threaded.whole
    rw [threaded.whole] at untouched
    refine ⟨_, element, _, ⟨?_, ⟨?_, ?_, ?_⟩, same, fun place notNext away => ?_,
      fun place notNext away => ?_⟩⟩
    · rw [threaded.holds.root, seen]
      rfl
    · exact represents.congr fun other _ => childrenOf_remove _ _ other.place_ne_next
    · exact parented.congr fun other _ => parentsOf_update _ _ _ other.place_ne_next
    · exact same ▸ hangs.distinct
    · exact (childrenOf_remove _ _ notNext).trans
        ((threaded.untouched.trans untouched) place notNext away)
    · rw [parentsOf_update _ _ _ notNext, parents]
      exact threaded.closed seen place notNext away

end Nloader.Splay
