/-
This file follows `RtlpDeleteAvlTreeNode`. The node that leaves its place in the tree has one
child at most: the deleted node itself, or its neighbour on the longer side. Its child takes
its place, and the loop climbs from there. Before each turn the tree below the climb has lost
a level under what the nodes above it are balanced for. A node that was heavy on that side
passes the loss on, a level node ends it, and a rotation does one or the other. Where the
climb reaches `BalancedRoot`, its borrowed balance ends the loop, and the depth decreases. In
the end a neighbour takes the place of the deleted node, wherever the rotations have left
that.
-/

import Nloader.AvlWalks
import Nloader.SplayDelete
import Nloader.AvlInsert

namespace Nloader.Avl

open Outcome TreePath TreeContext LinkedTree AvlTree
open PointerTree (pointer Distinct)
open Splay (Element Fault write decrement decrement_succ)

variable {Item : Type}

/-! ### One turn of the climb -/

section Climb

variable {links : Links} {context : Context (Node Item)} {tree : BinaryTree (Node Item)}
  {elements : List (Element Item)} {height depth frames : Nat}

/-- The loop of a deletion before a turn: the tree in the hole has lost a level, below a
`BalancedRoot` with the borrowed balance. -/
structure Sinks (elements : List (Element Item)) (frames : Nat) (state : DeleteState)
    (context : Context (Node Item)) (tree : BinaryTree (Node Item)) (height depth : Nat) :
    Prop where
  held : Held state.links rtlBalancedAvlTree context tree
  parentNode : state.parentNode = some (above context)
  balance : state.balance = heavy (hang context)
  shrunk : Shrunk context tree height depth
  depthOfTree : state.depthOfTree = depth % 2 ^ 32
  elements : elementsOf (plug context tree) = elements
  frames : context.length = frames

/-- What a turn leads to. -/
def Sunk (elements : List (Element Item)) (frames : Nat) :
    Turn DeleteState (Links × Nat) → Prop
  | .again next => ∃ smaller < frames, ∃ context tree height depth,
      Sinks elements smaller next context tree height depth
  | .leave (links', depth) => Arranged elements links' depth

theorem if_heavy_right (side : Side) :
    (if (side = .right : Bool) then rtlRightHeavyAvlTree else rtlLeftHeavyAvlTree) =
      heavy side := by
  cases side <;> rfl

/-- The loop goes on above a tree. -/
theorem deleteUp_eq {level : Int} (held : Held links level context tree) (nonempty : tree ≠ .nil)
    (depthOfTree : Nat) :
    deleteUp links depthOfTree (root tree) =
      .ok (.again ⟨links, depthOfTree, some (above context), heavy (hang context)⟩) := by
  rw [deleteUp, rtlIsChild_root held nonempty, ok_bind, rtlParent_root held nonempty,
    if_heavy_right]
  rfl

/-- The loss is passed on to the node above. -/
theorem deleteUp_holds (held : Held links rtlBalancedAvlTree context tree)
    (nonempty : tree ≠ .nil) (shrunk : Shrunk context tree height depth)
    (is : elementsOf (plug context tree) = elements) (lower : context.length < frames) :
    Holds (Sunk elements frames) (fun _ => False)
      (deleteUp links (depth % 2 ^ 32) (root tree)) := by
  rw [deleteUp_eq held nonempty, holds_ok]
  exact ⟨context.length, lower, context, tree, height, depth,
    ⟨held, rfl, rfl, shrunk, rfl, is, rfl⟩⟩

/-- A turn at `BalancedRoot`: the tree has lost a level as a whole. -/
theorem deleteTurn_root {state : DeleteState}
    (sinks : Sinks elements frames state [] tree height depth) :
    Holds (Sunk elements frames) (fun _ => False) (deleteTurn state) := by
  obtain ⟨links, depthOfTree, parentNode, balance⟩ := state
  obtain ⟨held, rfl, rfl, shrunk, rfl, rfl, _⟩ := sinks
  have held : Held links rtlBalancedAvlTree [] tree := held
  obtain ⟨links', stored, held'⟩ := setBalance_balancedRoot held (-heavy .right)
  unfold deleteTurn
  simp only [above, top_nil, hang_nil, rtlBalance_balancedRoot held, ok_bind]
  rw [if_neg (by decide), if_pos trivial, stored, ok_bind, rtlBalance_balancedRoot held', ok_bind,
    if_pos (by decide), holds_pure, ← shrunk.depth]
  rw [heightAbove, decrement_succ]
  exact arranged_of_plug held' shrunk.tall rfl

/-- A turn at a node of the tree that is rotated. -/
theorem deleteTurn_rotate {side : Side} {element : Element Item}
    {sibling : BinaryTree (Node Item)}
    (held : Held links rtlBalancedAvlTree context (join side sibling (element, heavy side) tree))
    (shrunk : Shrunk (⟨side.other, (element, heavy side), sibling⟩ :: context) tree height depth)
    (same : elementsOf (plug context (join side sibling (element, heavy side) tree)) = elements)
    (lower : context.length < frames) :
    Holds (Sunk elements frames) (fun _ => False) (do
      let (finished, links) ← rtlpRebalanceAvlTreeNode links (some (place element))
      if finished then pure (.leave (links, depth % 2 ^ 32))
      else
        let parent ← rtlParent links (some (place element))
        deleteUp links (depth % 2 ^ 32) parent) := by
  rcases shrunk.rotate with ⟨outer, child, inner, rfl, shrunk'⟩ |
    ⟨outer, child, near, subChild, balance, beyond, rfl, shrunk'⟩ |
    ⟨outer, child, inner, rfl, tall⟩
  · obtain ⟨links', rebalanced, held'⟩ := rebalance_single held
    have own := held_far held'
    rw [nodePlace_mk] at own
    rw [rebalanced, ok_bind]
    simp only [Bool.false_eq_true, if_false, rtlParent_eq own, ok_bind, link_parent]
    have up := deleteUp_holds held' (join_ne_nil _ _ _ _) shrunk'
      ((elementsOf_plug (elementsOf_single _ _ _ _ _ _ _ _ _ _)).trans same) lower
    rwa [root, PointerTree.pointer_join] at up
  · obtain ⟨links', rebalanced, held'⟩ := rebalance_double held
    have own := held_far held'
    rw [nodePlace_mk] at own
    rw [rebalanced, ok_bind]
    simp only [Bool.false_eq_true, if_false, rtlParent_eq own, ok_bind, link_parent]
    have up := deleteUp_holds held' (join_ne_nil _ _ _ _) shrunk'
      ((elementsOf_plug (elementsOf_double _ _ _ _ _ _ _ _ _ _ _ _ _ _)).trans same) lower
    rwa [root, PointerTree.pointer_join] at up
  · obtain ⟨links', rebalanced, held'⟩ := rebalance_level held
    rw [rebalanced, ok_bind]
    simp only [if_true, holds_pure]
    exact arranged_of_plug held' tall
      ((elementsOf_plug (elementsOf_single _ _ _ _ _ _ _ _ _ _)).trans same)

/-- A turn at a node of the tree. -/
theorem deleteTurn_node {state : DeleteState} {side : Side} {element : Element Item}
    {balance : Int} {sibling : BinaryTree (Node Item)}
    (sinks : Sinks elements frames state (⟨side, (element, balance), sibling⟩ :: context) tree
      height depth) :
    Holds (Sunk elements frames) (fun _ => False) (deleteTurn state) := by
  obtain ⟨links, depthOfTree, parentNode, heavier⟩ := state
  obtain ⟨held, parentIs, heavierIs, shrunk, rfl, rfl, rfl⟩ := sinks
  obtain rfl : parentNode = some (place element) := parentIs
  obtain rfl : heavier = heavy side := heavierIs
  have whole : Held links rtlBalancedAvlTree context (join side tree (element, balance) sibling) :=
    inMemory_cons.mp held
  have own := held_node whole
  rw [nodePlace_mk] at own
  unfold deleteTurn
  simp only [ok_bind, rtlBalance_eq own, link_balance, rtlBalanced_eq]
  by_cases same : balance = heavy side
  · subst same
    obtain ⟨links', stored, held'⟩ := setBalance_eq whole 0
    rw [if_pos rfl, stored, ok_bind]
    have up := deleteUp_holds held' (join_ne_nil _ _ _ _) shrunk.pass
      (elementsOf_plug (elementsOf_balance side tree sibling element 0 (heavy side)))
      (Nat.lt_succ_self _)
    rwa [root, PointerTree.pointer_join] at up
  · rw [if_neg same]
    by_cases level : balance = 0
    · subst level
      obtain ⟨links', stored, held'⟩ := setBalance_eq whole (-heavy side)
      rw [if_pos rfl, stored, ok_bind, rtlBalance_balancedRoot held', ok_bind,
        if_neg (not_not_intro rfl), holds_pure]
      exact arranged_of_plug held' shrunk.stop
        (elementsOf_plug (elementsOf_balance side tree sibling element _ _))
    · rw [if_neg level]
      obtain rfl : balance = -heavy side := by
        rcases leans_iff.mp shrunk.fits.1 with ⟨leaning, _⟩ | ⟨leaning, _⟩ | ⟨leaning, _⟩
        · exact absurd leaning same
        · exact absurd leaning level
        · exact leaning
      rw [← join_other, ← heavy_other] at whole
      have turned : Shrunk (⟨side.other.other, (element, heavy side.other), sibling⟩ :: context)
          tree height depth := by
        rw [Side.other_other, heavy_other]
        exact shrunk
      refine deleteTurn_rotate whole turned ?_ (Nat.lt_succ_self _)
      rw [join_other, heavy_other]
      rfl

/-- Every turn climbs, or leaves with the tree arranged. -/
theorem deleteTurn_holds {state : DeleteState}
    (sinks : Sinks elements frames state context tree height depth) :
    Holds (Sunk elements frames) (fun _ => False) (deleteTurn state) := by
  cases context with
  | nil => exact deleteTurn_root sinks
  | cons frame rest =>
    obtain ⟨side, ⟨element, balance⟩, sibling⟩ := frame
    exact deleteTurn_node sinks

/-- The climb ends with the tree arranged. -/
theorem deleteLoop_holds {state : DeleteState} {turns : Nat}
    (sinks : Sinks elements frames state context tree height depth) (enough : frames < turns) :
    Holds (fun result => Arranged elements result.1 result.2) (fun _ => False)
      (repeatLoop .outOfTurns deleteTurn turns state) := by
  refine repeatLoop_holds
    (fun frames state => ∃ context tree height depth,
      Sinks elements frames state context tree height depth) ?_ turns frames state
    ⟨context, tree, height, depth, sinks⟩ enough
  rintro frames state ⟨context, tree, height, depth, sinks⟩
  refine (deleteTurn_holds sinks).mono (fun next sunk => ?_) (fun _ impossible => impossible)
  cases next with
  | again next => exact sunk
  | leave result => exact sunk

/-- The end of a turn that goes on leaves the links alone. -/
theorem deleteUp_links {depthOfTree : Nat} {parentNode : Option Place}
    {next : Turn DeleteState (Links × Nat)}
    (ran : deleteUp links depthOfTree parentNode = .ok next) :
    ∃ state : DeleteState, next = .again state ∧ state.links = links := by
  unfold deleteUp at ran
  obtain ⟨_, _, ran⟩ := bind_eq_ok.mp ran
  obtain ⟨_, _, ran⟩ := bind_eq_ok.mp ran
  cases ran
  exact ⟨_, rfl, rfl⟩

/-- A turn neither maps nor unmaps a place. -/
theorem deleteTurn_places {state : DeleteState} {next : Turn DeleteState (Links × Nat)}
    (ran : deleteTurn state = .ok next) :
    match next with
    | .again next => SamePlaces state.links next.links
    | .leave result => SamePlaces state.links result.1 := by
  unfold deleteTurn at ran
  obtain ⟨_, _, ran⟩ := bind_eq_ok.mp ran
  split at ran
  · obtain ⟨_, stored, up⟩ := bind_eq_ok.mp ran
    obtain ⟨state', rfl, rfl⟩ := deleteUp_links up
    exact write_places stored
  · split at ran
    · obtain ⟨_, stored, ran⟩ := bind_eq_ok.mp ran
      obtain ⟨_, _, ran⟩ := bind_eq_ok.mp ran
      split at ran <;> cases ran <;> exact write_places stored
    · obtain ⟨⟨finished, links'⟩, rebalanced, ran⟩ := bind_eq_ok.mp ran
      have same := rebalance_places rebalanced
      cases finished with
      | true =>
        cases ran
        exact same
      | false =>
        obtain ⟨_, _, up⟩ := bind_eq_ok.mp ran
        obtain ⟨state', rfl, rfl⟩ := deleteUp_links up
        exact same

end Climb

/-! ### The node that leaves its place -/

section Unlink

variable {links : Links} {level : Int} {context : Context (Node Item)}
  {tree left right : BinaryTree (Node Item)} {node : Node Item} {side : Side}

/-- `Node1` points to the only child, or to NULL. -/
theorem only_child (side : Side) (parent child : Option Place) (balance : Int) :
    (link side parent child none balance).child
      (if (link side parent child none balance).child .left ≠ none then .left else .right) =
        child := by
  cases side with
  | left =>
    by_cases empty : child = none
    · subst empty
      rfl
    · rw [if_pos (by exact empty)]
      rfl
  | right => rfl

/-- A node with one child at most is taken out, and the tree is arranged. -/
theorem unlinkNode_holds {turns height : Nat}
    (held : Held links level context (join side tree node .nil))
    (tall : Tall (plug context (join side tree node .nil)) height)
    (enough : context.length < turns) :
    ∃ links' depth', unlinkNode turns links (height % 2 ^ 32) (some (nodePlace node)) =
        .ok (links', depth') ∧
      Arranged (elementsOf (plug context tree)) links' depth' := by
  have own : links (nodePlace node) =
      some (link side (some (above context)) (root tree) none node.2) := held_node held
  have apart : above context ≠ nodePlace node := (ne_top held.apart (by simp)).symm
  have aboveMapped := isSome_above held.above
  have treeMapped : ∀ target, root tree = some target → (links target).isSome :=
    fun target => isSome_root ((represents_join _ _ _ _ _).mp held.below).2.1
  have kept : change links (above context) (fun cell => cell.withChild (hang context) (root tree))
      (nodePlace node) = links (nodePlace node) := change_elsewhere apart.symm
  obtain ⟨links', stored, held'⟩ := setBalance_balancedRoot held.splice rtlBalancedAvlTree
  have sinks : Sinks (elementsOf (plug context tree)) context.length
      ⟨links', height % 2 ^ 32, some (above context), heavy (hang context)⟩ context tree tree.height
      height := ⟨held', rfl, rfl, shrunk_of_tall tall, rfl, rfl, rfl⟩
  obtain ⟨⟨links'', depth'⟩, ended, arranged⟩ := (deleteLoop_holds sinks enough).exists_ok
  refine ⟨links'', depth', ?_, arranged⟩
  unfold unlinkNode
  simp only [rtlParent_eq own, rtlChild_eq own, rtlIsChild_held held, ok_bind, link_parent,
    if_side, if_heavy, only_child, setChild_eq aboveMapped, rtlChild_eq (kept.trans own)]
  rw [adoptChild_eq (by simpa using treeMapped), ok_bind, stored, ok_bind, ended]

/-- Nothing is mapped or unmapped on the way. -/
theorem unlinkNode_places {links links' : Links} {turns depthOfTree depth' : Nat}
    {deleteNode : Option Place}
    (ran : unlinkNode turns links depthOfTree deleteNode = .ok (links', depth')) :
    SamePlaces links links' := by
  unfold unlinkNode at ran
  obtain ⟨_, _, ran⟩ := bind_eq_ok.mp ran
  obtain ⟨_, _, ran⟩ := bind_eq_ok.mp ran
  obtain ⟨_, _, ran⟩ := bind_eq_ok.mp ran
  obtain ⟨_, _, ran⟩ := bind_eq_ok.mp ran
  obtain ⟨_, first, ran⟩ := bind_eq_ok.mp ran
  obtain ⟨_, _, ran⟩ := bind_eq_ok.mp ran
  obtain ⟨_, second, ran⟩ := bind_eq_ok.mp ran
  obtain ⟨_, third, ended⟩ := bind_eq_ok.mp ran
  have started := ((write_places first).trans (adoptChild_places second)).trans (write_places third)
  refine repeatLoop_keeps (fun state => SamePlaces links state.links)
    (fun result => SamePlaces links result.1) ?_ _ _ _ started ended
  intro state next same turned
  have kept := deleteTurn_places turned
  cases next with
  | again next => exact same.trans kept
  | leave result => exact same.trans kept

/-! ### The node that takes the place of another -/

/-- `RtlpCopyAvlNodeData` and the stores behind it put one node in the place of another. -/
theorem replaceNode_eq {element other : Element Item} {balance : Int}
    (held : Held links level context (.node (element, balance) left right))
    (fresh : Distinct nodePlace .balancedRoot
      (inorder (.node (other, balance) left right) ++ around context))
    (apart : place element ≠ place other) (mapped : (links (place other)).isSome) :
    ∃ links', replaceNode links (some (place element)) (some (place other)) = .ok links' ∧
      Held links' level context (.node (other, balance) left right) := by
  refine ⟨_, ?_, held.replace (other, balance) rfl fresh⟩
  have own : links (place element) = some (link .left (some (above context)) (root left)
      (root right) balance) := held.below.1
  have parts := distinct_perm ((perm_join .left left right (other, balance)).append_right _) fresh
  rw [List.cons_append, PointerTree.distinct_cons] at parts
  simp only [List.mem_append] at parts
  have rootMember : ∀ node : Node Item, node ∈ inorder (.node node left right) := fun node =>
    List.mem_append_right _ List.mem_cons_self
  have otherTop : place other ≠ above context := ne_top fresh (rootMember (other, balance))
  have elementTop : place element ≠ above context :=
    ne_top held.apart (rootMember (element, balance))
  have leftNot : root left ≠ some (place other) := fun points => by
    obtain ⟨first, inside, same⟩ := exists_of_pointer points
    exact parts.2 first (.inl (.inl inside)) same.symm
  have leftMapped : ∀ target, root left = some target → (links target).isSome :=
    fun target => isSome_root held.below.2.1
  have rightMapped : ∀ target, root right = some target → (links target).isSome :=
    fun target => isSome_root held.below.2.2
  have aboveMapped := isSome_above held.above
  have points : root (.node (element, balance) left right) = some (place element) := rfl
  obtain ⟨cell, found, hangs⟩ := held.child_top .left points
  have copied : rtlpCopyAvlNodeData links (some (place other)) (some (place element)) =
      .ok (Function.update links (place other) (links (place element))) := by
    obtain ⟨old, otherOwn⟩ := Option.isSome_iff_exists.mp mapped
    rw [rtlpCopyAvlNodeData, Splay.deref_eq own, ok_bind, Splay.write_eq otherOwn, own]
  have own₁ : Function.update links (place other) (links (place element)) (place element) =
      some (link .left (some (above context)) (root left) (root right) balance) := by
    rw [Function.update_of_ne apart, own]
  have found₁ : Function.update links (place other) (links (place element)) (above context) =
      some cell := by
    rw [Function.update_of_ne otherTop.symm, found]
  have other₁ : Function.update links (place other) (links (place element)) (place other) =
      some (link .left (some (above context)) (root left) (root right) balance) := by
    rw [Function.update_self, own]
  have isChild : rtlIsChild (Function.update links (place other) (links (place element)))
      (some (place element)) .left = .ok (hang context = .left : Bool) := by
    rw [rtlIsChild_eq own₁ rfl found₁]
    simp only [hangs]
  have update_isSome : ∀ target, (links target).isSome →
      (Function.update links (place other) (links (place element)) target).isSome := by
    intro target there
    by_cases same : target = place other
    · rw [same, other₁]
      rfl
    · rwa [Function.update_of_ne same]
  unfold replaceNode
  simp only [copied, ok_bind, isChild, rtlParent_eq other₁, link_parent, if_side]
  rw [setChild_eq (update_isSome _ aboveMapped), ok_bind,
    rtlChild_eq ((change_elsewhere otherTop).trans other₁), ok_bind]
  change (do
    let links ← adoptChild _ (root left) _
    let rightChild ← rtlChild links _ _
    adoptChild links rightChild _) = _
  rw [adoptChild_eq (fun target points => by
      rw [isSome_change]
      exact update_isSome target (leftMapped target points)), ok_bind,
    rtlChild_eq ((adopt_elsewhere leftNot).trans ((change_elsewhere otherTop).trans other₁)),
    ok_bind]
  change adoptChild _ (root right) _ = _
  rw [adoptChild_eq (fun target points => by
      rw [isSome_adopt, isSome_change]
      exact update_isSome target (rightMapped target points))]
  rfl

/-! ### The choice of the node that leaves its place -/

/-- The node that `RtlpDeleteAvlTreeNode` takes out: it has one child at most, and it is the
deleted node itself or one of its neighbours in the order. -/
inductive Chosen (element : Element Item) (before after : List (Element Item))
    (whole : BinaryTree (Node Item)) : Node Item → Prop
  | itself (context : Context (Node Item)) (side : Side) (child : BinaryTree (Node Item))
      (balance : Int) (same : whole = plug context (join side child (element, balance) .nil))
      (left : elementsOf (plug context child) = before ++ after) :
      Chosen element before after whole (element, balance)
  | neighbour (context : Context (Node Item)) (side : Side) (child : BinaryTree (Node Item))
      (node : Node Item) (front back : List (Element Item))
      (same : whole = plug context (join side child node .nil))
      (left : elementsOf (plug context child) = front ++ element :: back)
      (replaced : front ++ node.1 :: back = before ++ after) :
      Chosen element before after whole node

/-- The elements in front of a node and behind it. -/
def elementsBefore (context : Context (Node Item)) (left : BinaryTree (Node Item)) :
    List (Element Item) :=
  ((beyond .left context).reverse ++ inorder left).map Prod.fst

def elementsAfter (context : Context (Node Item)) (right : BinaryTree (Node Item)) :
    List (Element Item) :=
  (inorder right ++ beyond .right context).map Prod.fst

/-- The successor, where the deleted node has a right child. -/
theorem chosen_successor {element : Element Item} {balance : Int}
    {inner : BinaryTree (Node Item)} {descent : Context (Node Item)}
    (nothing : beyond .left descent = []) :
    Chosen element (elementsBefore context left)
      (elementsAfter context (plug descent (join .left .nil node inner)))
      (plug context (.node (element, balance) left (plug descent (join .left .nil node inner))))
      node := by
  refine .neighbour (descent ++ ⟨.right, (element, balance), left⟩ :: context) .right inner node
    (elementsBefore context left)
    ((inorder inner ++ beyond .right descent ++ beyond .right context).map Prod.fst) ?_ ?_ ?_
  · rw [plug_append]
    rfl
  · unfold elementsOf elementsBefore
    rw [inorder_plug, beyond_append, beyond_append, nothing]
    simp [beyond, walk]
  · unfold elementsAfter
    rw [inorder_plug, nothing]
    simp [join, inorder]

/-- The predecessor, where the deleted node has a left child. -/
theorem chosen_predecessor {element : Element Item} {balance : Int}
    {inner : BinaryTree (Node Item)} {descent : Context (Node Item)}
    (nothing : beyond .right descent = []) :
    Chosen element (elementsBefore context (plug descent (join .right .nil node inner)))
      (elementsAfter context right)
      (plug context (.node (element, balance) (plug descent (join .right .nil node inner)) right))
      node := by
  refine .neighbour (descent ++ ⟨.left, (element, balance), right⟩ :: context) .left inner node
    (((beyond .left context).reverse ++ (beyond .left descent).reverse ++ inorder inner).map
      Prod.fst)
    (elementsAfter context right) ?_ ?_ ?_
  · rw [plug_append]
    rfl
  · unfold elementsOf elementsAfter
    rw [inorder_plug, beyond_append, beyond_append, nothing]
    simp [beyond, walk]
  · unfold elementsBefore
    rw [inorder_plug, nothing]
    simp [join, inorder]

/-- The choice of `RtlpDeleteAvlTreeNode`. -/
theorem chooseDeleteNode_holds {element : Element Item} {balance : Int} {turns : Nat}
    (held : Held links level context (.node (element, balance) left right))
    (enough : (BinaryTree.node (element, balance) left right).numNodes ≤ turns) :
    ∃ node, chooseDeleteNode turns links (some (place element)) = .ok (some (nodePlace node)) ∧
      Chosen element (elementsBefore context left) (elementsAfter context right)
        (plug context (.node (element, balance) left right)) node := by
  have own : links (place element) = some (link .left (some (above context)) (root left)
      (root right) balance) := held.below.1
  have leftChild : rtlChild links (some (place element)) .left = .ok (root left) := rtlChild_eq own
  have rightChild : rtlChild links (some (place element)) .right = .ok (root right) :=
    rtlChild_eq own
  rw [BinaryTree.numNodes] at enough
  unfold chooseDeleteNode
  rw [leftChild, ok_bind, rightChild, ok_bind]
  by_cases noLeft : left = .nil
  · subst noLeft
    refine ⟨(element, balance), ?_, .itself context .right right balance rfl ?_⟩
    · rw [if_pos (.inl rfl)]
      rfl
    · unfold elementsOf elementsBefore elementsAfter
      rw [inorder_plug]
      simp [inorder]
  · by_cases noRight : right = .nil
    · subst noRight
      refine ⟨(element, balance), ?_, .itself context .left left balance rfl ?_⟩
      · rw [if_pos (.inr rfl)]
        rfl
      · unfold elementsOf elementsBefore elementsAfter
        rw [inorder_plug]
        simp [inorder]
    · rw [if_neg (by rw [root_eq_none, root_eq_none]; exact not_or.mpr ⟨noLeft, noRight⟩),
        rtlBalance_eq own, ok_bind]
      by_cases rightHeavy : balance ≥ 0
      · obtain ⟨descent, node, inner, rfl, nothing, ran⟩ := deepest_eq .left turns
          (⟨.right, (element, balance), left⟩ :: context) right (inMemory_cons.mpr held) noRight
          (by omega)
        exact ⟨node, by rw [if_pos (by exact rightHeavy), ran], chosen_successor nothing⟩
      · obtain ⟨descent, node, inner, rfl, nothing, ran⟩ := deepest_eq .right turns
          (⟨.left, (element, balance), right⟩ :: context) left (inMemory_cons.mpr held) noLeft
          (by omega)
        exact ⟨node, by rw [if_neg (by exact rightHeavy), ran], chosen_predecessor nothing⟩

/-! ### The deletion of a node -/

theorem distinct_elements (nodes : List (Node Item)) :
    Distinct nodePlace .balancedRoot nodes ↔ Distinct place .balancedRoot (nodes.map Prod.fst) := by
  constructor
  · rintro ⟨nodup, anchor⟩
    refine ⟨by rwa [List.map_map], fun element member => ?_⟩
    exact place_ne_balancedRoot element
  · rintro ⟨nodup, anchor⟩
    refine ⟨by rwa [List.map_map] at nodup, fun node _ => ?_⟩
    exact place_ne_balancedRoot node.1

/-- An element of a tree is at a node below some context. -/
theorem exists_context {element : Element Item} {before after : List (Element Item)}
    (split : elementsOf tree = before ++ element :: after) :
    ∃ context left right balance, tree = plug context (.node (element, balance) left right) ∧
      elementsBefore context left = before ∧ elementsAfter context right = after := by
  obtain ⟨front, back, nodes, rfl, rest⟩ := List.map_eq_append_iff.mp split
  obtain ⟨⟨_, balance⟩, behind, rfl, rfl, rfl⟩ := List.map_eq_cons_iff.mp rest
  obtain ⟨context, left, right, rfl, rfl, rfl⟩ := exists_plug nodes
  exact ⟨context, left, right, balance, rfl, rfl, rfl⟩

/-- The elements of a tree with another element at a node. -/
theorem elementsOf_node (context : Context (Node Item)) (left right : BinaryTree (Node Item))
    (node : Node Item) :
    elementsOf (plug context (.node node left right)) =
      elementsBefore context left ++ node.1 :: elementsAfter context right := by
  unfold elementsOf elementsBefore elementsAfter
  rw [inorder_plug]
  simp [inorder]

/-- A neighbour that has been taken out takes the place of the deleted node. -/
theorem replaceNode_holds {element other : Element Item} {front back : List (Element Item)}
    {depth : Nat} (arranged : Arranged (front ++ element :: back) links depth)
    (nodup : Distinct place .balancedRoot (front ++ other :: back))
    (apart : place element ≠ place other) (mapped : (links (place other)).isSome) :
    ∃ links', replaceNode links (some (place element)) (some (place other)) = .ok links' ∧
      Arranged (front ++ other :: back) links' depth := by
  obtain ⟨level, tree, height, held, tall, rfl, elements⟩ := arranged
  obtain ⟨context, left, right, balance, rfl, rfl, rfl⟩ := exists_context elements
  have fresh : Distinct nodePlace .balancedRoot
      (inorder (.node (other, balance) left right) ++ around context) := by
    refine distinct_perm (perm_plug context _) ((distinct_elements _).mpr ?_)
    rw [← elementsOf_node context left right (other, balance)] at nodup
    exact nodup
  obtain ⟨links', replaced, held'⟩ := replaceNode_eq (inMemory_plug.mpr held) fresh apart mapped
  exact ⟨links', replaced, arranged_of_plug held' tall.rename (elementsOf_node _ _ _ _)⟩

/-- `RtlpDeleteAvlTreeNode` takes an element out and arranges the tree. -/
theorem deleteNode_holds (table : AvlTable Item) {element : Element Item}
    {before after : List (Element Item)} {turns : Nat}
    (arranged : Arranged (before ++ element :: after) table.links table.depthOfTree)
    (enough : (before ++ element :: after).length < turns) :
    ∃ links' depth', rtlpDeleteAvlTreeNode turns table (some (place element)) =
        .ok { table with links := links', depthOfTree := depth' } ∧
      Arranged (before ++ after) links' depth' := by
  obtain ⟨level, tree, height, held, tall, depth, elements⟩ := arranged
  have size : tree.numNodes < turns := by
    rwa [← elements, elementsOf, List.length_map, length_inorder] at enough
  have distinct := (distinct_elements _).mp held.distinct
  obtain ⟨context, left, right, balance, rfl, rfl, rfl⟩ := exists_context elements
  obtain ⟨node, choice, chosen⟩ :=
    chooseDeleteNode_holds (inMemory_plug.mpr held) ((numNodes_le_plug _ _).trans (le_of_lt size))
  unfold rtlpDeleteAvlTreeNode
  rw [choice, ok_bind]
  generalize whole : plug context (.node (element, balance) left right) = tree at *
  cases chosen with
  | itself context' side child balance' same elements' =>
    subst same
    obtain ⟨links', depth', ran, arranged⟩ := unlinkNode_holds (inMemory_plug.mpr held) tall
      (lt_of_le_of_lt (context_le_plug _ _) size)
    rw [elements'] at arranged
    refine ⟨links', depth', ?_, arranged⟩
    rw [nodePlace_mk] at ran ⊢
    rw [depth, ran, ok_bind]
    exact if_pos rfl
  | neighbour context' side child node front back same elements' replaced =>
    subst same
    have held' := inMemory_plug.mpr held
    obtain ⟨links', depth', ran, arranged⟩ :=
      unlinkNode_holds held' tall (lt_of_le_of_lt (context_le_plug _ _) size)
    rw [elements'] at arranged
    have other : place element ≠ place node.1 := by
      have listed : element ∈ elementsOf (plug context' child) := by
        rw [elements']
        exact List.mem_append_right _ List.mem_cons_self
      obtain ⟨own, inside, isOwn⟩ := List.mem_map.mp listed
      have apart := (PointerTree.distinct_cons.mp held'.apart_join).2 own
        (by simpa [inorder] using (perm_plug context' child).mem_iff.mp inside)
      rw [← isOwn]
      exact apart.symm
    have mapped : (links' (place node.1)).isSome := by
      rw [unlinkNode_places ran]
      exact isSome_of_mem held'.below (by simp)
    have nodup : Distinct place .balancedRoot (front ++ node.1 :: back) := by
      have listed : Distinct place .balancedRoot _ := distinct
      rw [plug_nil, show List.map Prod.fst (inorder _) = _ from elements] at listed
      rw [replaced]
      exact (PointerTree.distinct_cons.mp (distinct_perm List.perm_middle listed)).1.2
    obtain ⟨links'', ran', arranged'⟩ := replaceNode_holds arranged nodup other mapped
    rw [replaced] at arranged'
    refine ⟨links'', depth', ?_, arranged'⟩
    rw [depth, ran, ok_bind]
    refine (if_neg fun equal => other (Option.some.inj equal)).trans ?_
    change (replaceNode links' (some (place element)) (some (place node.1)) >>= _) = _
    rw [ran']
    rfl

end Unlink

/-- A deletion neither maps nor unmaps a place. -/
theorem deleteNode_places {table next : AvlTable Item} {turns : Nat} {node : Option Place}
    (ran : rtlpDeleteAvlTreeNode turns table node = .ok next) :
    SamePlaces table.links next.links ∧ next.data = table.data := by
  unfold rtlpDeleteAvlTreeNode at ran
  obtain ⟨deleteNode, _, ran⟩ := bind_eq_ok.mp ran
  obtain ⟨⟨links', depth'⟩, unlinked, ran⟩ := bind_eq_ok.mp ran
  have same := unlinkNode_places unlinked
  dsimp only at ran
  split at ran
  · cases ran
    exact ⟨same, rfl⟩
  · obtain ⟨links'', replaced, ran⟩ := bind_eq_ok.mp ran
    cases ran
    unfold replaceNode at replaced
    obtain ⟨_, copied, replaced⟩ := bind_eq_ok.mp replaced
    obtain ⟨_, _, copied⟩ := bind_eq_ok.mp copied
    obtain ⟨_, _, replaced⟩ := bind_eq_ok.mp replaced
    obtain ⟨_, _, replaced⟩ := bind_eq_ok.mp replaced
    obtain ⟨_, first, replaced⟩ := bind_eq_ok.mp replaced
    obtain ⟨_, _, replaced⟩ := bind_eq_ok.mp replaced
    obtain ⟨_, second, replaced⟩ := bind_eq_ok.mp replaced
    obtain ⟨_, _, third⟩ := bind_eq_ok.mp replaced
    exact ⟨(((same.trans (write_places copied)).trans (write_places first)).trans
      (adoptChild_places second)).trans (adoptChild_places third), rfl⟩

end Nloader.Avl
