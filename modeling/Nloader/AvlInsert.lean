/-
This file follows `RtlpInsertAvlTreeNode`. The new node fills a hole of the tree; the loop then
climbs from the new node to `BalancedRoot`. Before each turn the tree below the climb has
grown by one level over what the nodes above it are balanced for. A level node passes the
growth on, a node that was heavy on the other side ends it, and so does a rotation. Where the
climb reaches `BalancedRoot`, its borrowed balance ends the loop, and the depth increases.
-/

import Nloader.AvlLinks

namespace Nloader.Avl

open Outcome TreePath TreeContext LinkedTree AvlTree
open PointerTree (pointer Distinct)
open Splay (Element Fault)

variable {Item : Type}

/-! ### The elements of a tree -/

/-- The elements of a tree from left to right. -/
def elementsOf (tree : BinaryTree (Node Item)) : List (Element Item) := (inorder tree).map Prod.fst

theorem elementsOf_join (side : Side) (near far : BinaryTree (Node Item)) (node : Node Item) :
    elementsOf (join side near node far) =
      match side with
      | .left => elementsOf near ++ node.1 :: elementsOf far
      | .right => elementsOf far ++ node.1 :: elementsOf near := by
  cases side <;> simp [elementsOf, join, inorder]

/-- A node keeps its place whatever its balance. -/
theorem elementsOf_balance (side : Side) (near far : BinaryTree (Node Item))
    (element : Element Item) (first second : Int) :
    elementsOf (join side near (element, first) far) =
      elementsOf (join side near (element, second) far) := by
  rw [elementsOf_join, elementsOf_join]

theorem elementsOf_single (side : Side) (outer inner far : BinaryTree (Node Item))
    (child element : Element Item) (first second third fourth : Int) :
    elementsOf (join side outer (child, first) (join side inner (element, second) far)) =
      elementsOf (join side (join side outer (child, third) inner) (element, fourth) far) := by
  cases side <;> simp [elementsOf_join]

theorem elementsOf_double (side : Side) (outer near beyond far : BinaryTree (Node Item))
    (child subChild element : Element Item) (first second third fourth fifth sixth : Int) :
    elementsOf (join side (join side outer (child, first) near) (subChild, second)
        (join side beyond (element, third) far)) =
      elementsOf (join side
        (join side outer (child, fourth) (join side near (subChild, fifth) beyond))
        (element, sixth) far) := by
  cases side <;> simp [elementsOf_join]

theorem elementsOf_plug {context : Context (Node Item)} {tree tree' : BinaryTree (Node Item)}
    (same : elementsOf tree' = elementsOf tree) :
    elementsOf (plug context tree') = elementsOf (plug context tree) := by
  unfold elementsOf at same ⊢
  rw [inorder_plug, inorder_plug, List.map_append, List.map_append, same, List.map_append,
    List.map_append]

/-- A tree in memory below `BalancedRoot`: balanced, with its height as the depth, and with the
given elements. -/
def Arranged (elements : List (Element Item)) (links : Links) (depth : Nat) : Prop :=
  ∃ level tree height, Held links level [] tree ∧ Tall tree height ∧ depth = height % 2 ^ 32 ∧
    elementsOf tree = elements

theorem arranged_of_plug {elements : List (Element Item)} {links : Links} {level : Int}
    {context : Context (Node Item)} {tree : BinaryTree (Node Item)} {height : Nat}
    (held : Held links level context tree) (tall : Tall (plug context tree) height)
    (same : elementsOf (plug context tree) = elements) :
    Arranged elements links (height % 2 ^ 32) :=
  ⟨level, plug context tree, height, inMemory_plug.mp held, tall, rfl, same⟩

/-! ### One turn of the climb -/

section Climb

variable {links : Links} {context : Context (Node Item)} {tree : BinaryTree (Node Item)}
  {elements : List (Element Item)} {height depth : Nat}

/-- The loop of an insertion before a turn: the new node is the root of a tree that has grown,
below a `BalancedRoot` with the borrowed balance. -/
structure Climbs (elements : List (Element Item)) (frames : Nat) (state : InsertState)
    (context : Context (Node Item)) (tree : BinaryTree (Node Item)) (height depth : Nat) :
    Prop where
  held : Held state.links rtlLeftHeavyAvlTree context tree
  newNode : state.newNode = root tree
  nodeOrParent : state.nodeOrParent = some (above context)
  grown : Grown context tree height depth
  depthOfTree : state.depthOfTree = depth % 2 ^ 32
  elements : elementsOf (plug context tree) = elements
  frames : context.length = frames

theorem if_heavy (side : Side) :
    (if (side = .left : Bool) then rtlLeftHeavyAvlTree else rtlRightHeavyAvlTree) =
      heavy side := by
  cases side <;> rfl

/-- What a turn leads to. -/
def Climbed (elements : List (Element Item)) (frames : Nat) :
    Turn InsertState (Links × Nat) → Prop
  | .again next => ∃ smaller < frames, ∃ context tree height depth,
      Climbs elements smaller next context tree height depth
  | .leave (links, depth) => Arranged elements links depth

/-- A turn at `BalancedRoot`: the tree has grown as a whole. -/
theorem insertTurn_root {state : InsertState} {frames : Nat}
    (climbs : Climbs elements frames state [] tree height depth) :
    Holds (Climbed elements frames) (fun _ => False) (insertTurn state) := by
  obtain ⟨links, depthOfTree, newNode, nodeOrParent⟩ := state
  obtain ⟨held, rfl, rfl, grown, rfl, rfl, _⟩ := climbs
  have held : Held links rtlLeftHeavyAvlTree [] tree := held
  have isChild : rtlIsChild links (root tree) .left = .ok false :=
    rtlIsChild_root held grown.nonempty .left
  obtain ⟨links', stored, held'⟩ := setBalance_balancedRoot held rtlBalancedAvlTree
  unfold insertTurn
  simp only [isChild, ok_bind, above, top, rtlBalance_balancedRoot held, Bool.false_eq_true,
    if_false]
  rw [if_neg (by decide), if_pos (by decide), stored, ok_bind, rtlBalance_balancedRoot held',
    ok_bind, if_pos rfl, holds_pure, Nat.mod_add_mod, ← grown.depth]
  exact arranged_of_plug held' grown.tall rfl

/-- A turn at a node of the tree. -/
theorem insertTurn_node {state : InsertState} {frames : Nat} {side : Side}
    {element : Element Item} {balance : Int} {sibling : BinaryTree (Node Item)}
    (climbs : Climbs elements frames state (⟨side, (element, balance), sibling⟩ :: context) tree
      height depth) :
    Holds (Climbed elements frames) (fun _ => False) (insertTurn state) := by
  obtain ⟨links, depthOfTree, newNode, nodeOrParent⟩ := state
  obtain ⟨held, rfl, rfl, grown, rfl, rfl, rfl⟩ := climbs
  have held : Held links rtlLeftHeavyAvlTree (⟨side, (element, balance), sibling⟩ :: context)
    tree := held
  have isChild : rtlIsChild links (root tree) .left = .ok (side = .left : Bool) :=
    rtlIsChild_root held grown.nonempty .left
  have whole : Held links rtlLeftHeavyAvlTree context (join side tree (element, balance) sibling) :=
    inMemory_cons.mp held
  have own := held_node whole
  rw [nodePlace_mk] at own
  unfold insertTurn
  simp only [isChild, ok_bind, if_heavy, above, top, nodePlace_mk, rtlBalance_eq own, link_balance,
    rtlBalanced_eq]
  by_cases level : balance = 0
  · subst level
    obtain ⟨links', stored, held'⟩ := setBalance_eq whole (heavy side)
    have own' := held_node held'
    rw [nodePlace_mk] at own'
    rw [if_pos rfl, stored, ok_bind, rtlParent_eq own', ok_bind, link_parent, holds_pure]
    refine ⟨context.length, Nat.lt_succ_self _, context,
      join side tree (element, heavy side) sibling, height + 1, depth, ?_⟩
    refine ⟨held', ?_, rfl, grown.pass, rfl, ?_, rfl⟩
    · rw [root, PointerTree.pointer_join]
      rfl
    · exact elementsOf_plug (elementsOf_balance side tree sibling element _ _)
  · rw [if_neg level]
    by_cases same : balance = heavy side
    · subst same
      rw [if_neg (not_not_intro rfl)]
      rcases grown.rotate with ⟨outer, child, inner, rfl, tall⟩ |
        ⟨outer, child, near, subChild, balance, beyond, rfl, tall⟩
      · obtain ⟨links', rebalanced, held'⟩ := rebalance_single whole
        rw [rebalanced, ok_bind, holds_pure]
        refine arranged_of_plug held' tall (elementsOf_plug ?_)
        exact elementsOf_single side outer inner sibling child element _ _ _ _
      · obtain ⟨links', rebalanced, held'⟩ := rebalance_double whole
        rw [rebalanced, ok_bind, holds_pure]
        refine arranged_of_plug held' tall (elementsOf_plug ?_)
        exact elementsOf_double side outer near beyond sibling child subChild element _ _ _ _ _ _
    · rw [if_pos same]
      obtain rfl : balance = -heavy side := by
        rcases leans_iff.mp grown.fits.1 with ⟨leaning, _⟩ | ⟨leaning, _⟩ | ⟨leaning, _⟩
        · exact absurd leaning same
        · exact absurd leaning level
        · exact leaning
      obtain ⟨links', stored, held'⟩ := setBalance_eq whole 0
      rw [stored, ok_bind, rtlBalance_balancedRoot held', ok_bind, if_neg (by decide), holds_pure]
      exact arranged_of_plug held' grown.stop
        (elementsOf_plug (elementsOf_balance side tree sibling element _ _))

/-- Every turn climbs, or leaves with the tree arranged. -/
theorem insertTurn_holds {state : InsertState} {frames : Nat}
    (climbs : Climbs elements frames state context tree height depth) :
    Holds (Climbed elements frames) (fun _ => False) (insertTurn state) := by
  cases context with
  | nil => exact insertTurn_root climbs
  | cons frame rest =>
    obtain ⟨side, ⟨element, balance⟩, sibling⟩ := frame
    exact insertTurn_node climbs

/-- The climb ends with the tree arranged. -/
theorem insertLoop_holds {state : InsertState} {frames turns : Nat}
    (climbs : Climbs elements frames state context tree height depth) (enough : frames < turns) :
    Holds (fun result => Arranged elements result.1 result.2) (fun _ => False)
      (repeatLoop .outOfTurns insertTurn turns state) := by
  refine repeatLoop_holds
    (fun frames state => ∃ context tree height depth,
      Climbs elements frames state context tree height depth) ?_ turns frames state
    ⟨context, tree, height, depth, climbs⟩ enough
  rintro frames state ⟨context, tree, height, depth, climbs⟩
  refine (insertTurn_holds climbs).mono (fun next climbed => ?_) (fun _ impossible => impossible)
  cases next with
  | again next => exact climbed
  | leave result => exact climbed

end Climb

/-! ### The insertion of a node -/

/-- The result of a search that ends at a node without a child on a side. -/
def sideResult : Side → TableSearchResult
  | .left => .insertAsLeft
  | .right => .insertAsRight

/-- The result of a search that ends at a hole. -/
def holeResult : Context (Node Item) → TableSearchResult
  | [] => .emptyTree
  | frame :: _ => sideResult frame.side

theorem sideResult_ne_emptyTree (side : Side) : sideResult side ≠ .emptyTree := by
  cases side <;> exact nofun

theorem sideResult_ne_foundNode (side : Side) : sideResult side ≠ .foundNode := by
  cases side <;> exact nofun

theorem holeResult_ne_foundNode (context : Context (Node Item)) :
    holeResult context ≠ .foundNode := by
  cases context with
  | nil => exact nofun
  | cons frame rest => exact sideResult_ne_foundNode frame.side

theorem if_sideResult (side : Side) :
    (if sideResult side = .insertAsLeft then Side.left else .right) = side := by
  cases side <;> rfl

section Insert

variable {links : Links} {level : Int} {context : Context (Node Item)} {element : Element Item}
  {cell : BalancedLinks}

/-- The new node with its links emptied, hung on the place above the hole. -/
theorem insertAsChild_eq (held : Held links level context .nil)
    (apart : Distinct nodePlace .balancedRoot ((element, 0) :: around context))
    (own : links (place element) = some cell) (empty : cell = link .left cell.parent none none 0) :
    ∃ links', rtlInsertAsChild links (some (above context)) (some (place element)) (hang context) =
        .ok links' ∧
      Held links' level context (.node (element, 0) .nil .nil) := by
  have aboveMapped := isSome_above held.above
  have apart' : Distinct nodePlace .balancedRoot ([(element, 0)] ++ around context) := apart
  have newAbove : place element ≠ above context := ne_top apart' (List.mem_singleton_self _)
  have mapped : (links (place element)).isSome := by rw [own]; rfl
  refine ⟨change (change links (above context) fun cell =>
      cell.withChild (hang context) (some (place element))) (place element) fun cell =>
      cell.withParent (some (above context)), ?_, ?_⟩
  · unfold rtlInsertAsChild
    rw [setChild_eq aboveMapped, ok_bind, rtlSetParent_eq (by simpa using mapped)]
  · refine held.refill apart ?_ (fun other member notTop => ?_) (fun notTop => ?_)
      ⟨?_, trivial, trivial⟩
    · rw [change_elsewhere newAbove.symm, change_same]
      rfl
    · rw [change_elsewhere ?_, change_elsewhere notTop]
      exact ((PointerTree.distinct_cons.mp apart).2 other member).symm
    · rw [change_elsewhere (place_ne_balancedRoot element).symm, change_elsewhere notTop]
    · rw [nodePlace_mk, change_same, change_elsewhere newAbove, own, empty]
      exact congrArg some (link_withParent _ _ _ _ _ _)

/-- The links of the new node are emptied: the rest of the memory is left alone. -/
theorem emptyLinks_eq (mapped : (links (place element)).isSome) :
    ∃ links₁ links₂ links₃ cell,
      setChild links (some (place element)) .right none = .ok links₁ ∧
      setChild links₁ (some (place element)) .left none = .ok links₂ ∧
      rtlSetBalance links₂ (some (place element)) rtlBalancedAvlTree = .ok links₃ ∧
      links₃ (place element) = some cell ∧ cell = link .left cell.parent none none 0 ∧
      ∀ here, here ≠ place element → links₃ here = links here := by
  obtain ⟨cell, own⟩ := Option.isSome_iff_exists.mp mapped
  refine ⟨_, _, _, ((cell.withChild .right none).withChild .left none).withBalance 0,
    setChild_eq mapped, setChild_eq (by simpa using mapped),
    rtlSetBalance_eq (by simpa using mapped) _, ?_, ?_, ?_⟩
  · rw [change_same, change_same, change_same, own]
    rfl
  · rfl
  · intro here elsewhere
    rw [change_elsewhere elsewhere, change_elsewhere elsewhere, change_elsewhere elsewhere]

/-- `RtlpInsertAvlTreeNode` fills the hole and arranges the tree. -/
theorem insertNode_holds (table : AvlTable Item) {turns height : Nat}
    {nodeOrParent : Option Place} (held : Held table.links level context .nil)
    (tall : Tall (plug context .nil) height) (depth : table.depthOfTree = height % 2 ^ 32)
    (apart : Distinct nodePlace .balancedRoot ((element, 0) :: around context))
    (mapped : (table.links (place element)).isSome)
    (parent : context ≠ [] → nodeOrParent = some (above context))
    (enough : context.length < turns) :
    ∃ links' depth',
      rtlpInsertAvlTreeNode turns table (some (place element)) nodeOrParent (holeResult context) =
        .ok { table with
          links := links'
          numberGenericTableElements := (table.numberGenericTableElements + 1) % 2 ^ 32
          depthOfTree := depth' } ∧
      Arranged (elementsOf (plug context (.node (element, 0) .nil .nil))) links' depth' := by
  obtain ⟨links₁, links₂, links₃, cell, first, second, third, own, empty, elsewhere⟩ :=
    emptyLinks_eq mapped
  have held₃ : Held links₃ level context .nil := by
    refine held.congr (fun node member => elsewhere _ fun same => ?_)
      (elsewhere _ (place_ne_balancedRoot element).symm)
    have inside := (perm_plug context .nil).mem_iff.mp member
    exact (PointerTree.distinct_cons.mp apart).2 node inside same.symm
  obtain ⟨links₄, hung, held₄⟩ := insertAsChild_eq held₃ apart own empty
  obtain ⟨balanced, heightIs⟩ := tall
  obtain ⟨_, fits⟩ := (balanced_plug context .nil).mp balanced
  unfold rtlpInsertAvlTreeNode
  rw [first, ok_bind, second, ok_bind, third, ok_bind]
  cases context with
  | nil =>
    have hung' : rtlInsertAsChild links₃ (some .balancedRoot) (some (place element)) .right =
      .ok links₄ := hung
    refine ⟨links₄, 1, ?_, ?_⟩
    · simp only [holeResult, if_true, hung', ok_bind]
      rfl
    · have fits : Fits ([] : Context (Node Item)) 0 := trivial
      exact arranged_of_plug held₄ (grown_leaf fits element).tall rfl
  | cons frame rest =>
    obtain ⟨links₅, borrowed, held₅⟩ := setBalance_balancedRoot held₄ rtlLeftHeavyAvlTree
    have whole := parent (List.cons_ne_nil _ _)
    subst whole
    have climbs : Climbs (elementsOf (plug (frame :: rest) (.node (element, 0) .nil .nil)))
        (frame :: rest).length
        { links := links₅, depthOfTree := table.depthOfTree, newNode := some (place element),
          nodeOrParent := some (above (frame :: rest)) }
        (frame :: rest) (.node (element, 0) .nil .nil) 0 (heightAbove (frame :: rest) 0) := by
      refine ⟨held₅, rfl, rfl, grown_leaf fits element, ?_, rfl, rfl⟩
      rw [depth, ← heightIs, height_plug]
      rfl
    obtain ⟨⟨links', depth'⟩, ended, arranged⟩ := (insertLoop_holds climbs enough).exists_ok
    refine ⟨links', depth', ?_, arranged⟩
    have hung' : rtlInsertAsChild links₃ (some (above (frame :: rest))) (some (place element))
      frame.side = .ok links₄ := hung
    have result : holeResult (frame :: rest) = sideResult frame.side := rfl
    rw [result, if_neg (sideResult_ne_emptyTree frame.side), if_sideResult]
    simp only [hung', ok_bind, borrowed, ended]
    rfl

end Insert

/-! ### The places of the links -/

/-- A turn neither maps nor unmaps a place. -/
theorem insertTurn_places {state : InsertState} {next : Turn InsertState (Links × Nat)}
    (ran : insertTurn state = .ok next) :
    match next with
    | .again next => SamePlaces state.links next.links
    | .leave result => SamePlaces state.links result.1 := by
  unfold insertTurn at ran
  obtain ⟨isLeftChild, _, ran⟩ := bind_eq_ok.mp ran
  obtain ⟨_, _, ran⟩ := bind_eq_ok.mp ran
  dsimp only at ran
  generalize (if isLeftChild then rtlLeftHeavyAvlTree else rtlRightHeavyAvlTree) = balance at ran
  split at ran
  · obtain ⟨_, stored, ran⟩ := bind_eq_ok.mp ran
    obtain ⟨_, _, ran⟩ := bind_eq_ok.mp ran
    cases ran
    exact write_places stored
  · split at ran
    · obtain ⟨_, stored, ran⟩ := bind_eq_ok.mp ran
      obtain ⟨_, _, ran⟩ := bind_eq_ok.mp ran
      split at ran <;> cases ran <;> exact write_places stored
    · obtain ⟨⟨_, _⟩, rebalanced, ran⟩ := bind_eq_ok.mp ran
      cases ran
      exact rebalance_places rebalanced

theorem insertNode_places {table next : AvlTable Item} {turns : Nat}
    {newNode nodeOrParent : Option Place} {searchResult : TableSearchResult}
    (ran : rtlpInsertAvlTreeNode turns table newNode nodeOrParent searchResult = .ok next) :
    SamePlaces table.links next.links ∧ next.data = table.data := by
  unfold rtlpInsertAvlTreeNode at ran
  obtain ⟨_, first, ran⟩ := bind_eq_ok.mp ran
  obtain ⟨_, second, ran⟩ := bind_eq_ok.mp ran
  obtain ⟨_, third, ran⟩ := bind_eq_ok.mp ran
  have empty := ((write_places first).trans (write_places second)).trans (write_places third)
  dsimp only at ran
  split at ran
  · obtain ⟨_, hung, ran⟩ := bind_eq_ok.mp ran
    obtain ⟨_, fourth, fifth⟩ := bind_eq_ok.mp hung
    cases ran
    exact ⟨(empty.trans (write_places fourth)).trans (write_places fifth), rfl⟩
  · obtain ⟨_, hung, ran⟩ := bind_eq_ok.mp ran
    obtain ⟨_, fourth, fifth⟩ := bind_eq_ok.mp hung
    obtain ⟨_, sixth, ran⟩ := bind_eq_ok.mp ran
    obtain ⟨⟨links', depth'⟩, ended, ran⟩ := bind_eq_ok.mp ran
    cases ran
    have started := ((empty.trans (write_places fourth)).trans (write_places fifth)).trans
      (write_places sixth)
    refine ⟨repeatLoop_keeps (fun state => SamePlaces table.links state.links)
      (fun result => SamePlaces table.links result.1) ?_ _ _ _ started ended, rfl⟩
    intro state next same turned
    have kept := insertTurn_places turned
    cases next with
    | again next => exact same.trans kept
    | leave result => exact same.trans kept

end Nloader.Avl
