/-
This file is a library of binary trees with a hole. A context is the path from a hole up to
the root, one frame for every node on it; plugging a tree into the hole gives the whole tree
back. The nodes of the whole tree are those of the plugged tree between the nodes that lie
on the two sides of the hole, and every place in the order of a tree is a node below some
context.

The library names nothing of the program it is used for.
-/

import Nloader.Library.TreePath

namespace TreeContext

open TreePath

variable {Node : Type}

/-! ### Contexts -/

/-- A node above a hole: the side of the node on which the hole lies, the node, and the
subtree on its other side. -/
structure Frame (Node : Type) where
  side : Side
  node : Node
  sibling : BinaryTree Node

/-- A tree with a hole, as the frames from the hole up to the root. -/
abbrev Context (Node : Type) : Type := List (Frame Node)

/-- The node of a frame with a tree below it. -/
def Frame.fill (frame : Frame Node) (tree : BinaryTree Node) : BinaryTree Node :=
  join frame.side tree frame.node frame.sibling

theorem Frame.fill_eq (frame : Frame Node) (tree : BinaryTree Node) :
    frame.fill tree = join frame.side tree frame.node frame.sibling := rfl

/-- The whole tree, with a tree in the hole. -/
def plug : Context Node → BinaryTree Node → BinaryTree Node
  | [], tree => tree
  | frame :: rest, tree => plug rest (frame.fill tree)

@[simp] theorem plug_nil (tree : BinaryTree Node) : plug [] tree = tree := rfl

@[simp] theorem plug_cons (frame : Frame Node) (rest : Context Node) (tree : BinaryTree Node) :
    plug (frame :: rest) tree = plug rest (frame.fill tree) := rfl

theorem plug_append (inner outer : Context Node) (tree : BinaryTree Node) :
    plug (inner ++ outer) tree = plug outer (plug inner tree) := by
  induction inner generalizing tree with
  | nil => rfl
  | cons frame rest inductionHypothesis => exact inductionHypothesis (frame.fill tree)

@[simp] theorem walk_nil (side : Side) : walk side (.nil : BinaryTree Node) = [] := by
  cases side <;> rfl

theorem join_other (side : Side) (near far : BinaryTree Node) (node : Node) :
    join side.other near node far = join side far node near := by
  cases side <;> rfl

/-! ### The nodes around a hole -/

/-- The nodes on one side of the hole, the nearest first. -/
def beyond (side : Side) : Context Node → List Node
  | [] => []
  | frame :: rest =>
    if frame.side = side then beyond side rest
    else frame.node :: (walk side.other frame.sibling ++ beyond side rest)

/-- The nodes of the context, from the hole upwards. -/
def around : Context Node → List Node
  | [] => []
  | frame :: rest => frame.node :: (inorder frame.sibling ++ around rest)

theorem beyond_append (side : Side) (inner outer : Context Node) :
    beyond side (inner ++ outer) = beyond side inner ++ beyond side outer := by
  induction inner with
  | nil => rfl
  | cons frame rest inductionHypothesis =>
    rw [List.cons_append, beyond, beyond, inductionHypothesis]
    split
    · rfl
    · rw [List.cons_append, List.append_assoc]

theorem around_append (inner outer : Context Node) :
    around (inner ++ outer) = around inner ++ around outer := by
  induction inner with
  | nil => rfl
  | cons frame rest inductionHypothesis =>
    rw [List.cons_append, around, around, inductionHypothesis, List.cons_append, List.append_assoc]

/-- The nodes of the whole tree, walked from one side. -/
theorem walk_plug (side : Side) (context : Context Node) (tree : BinaryTree Node) :
    walk side (plug context tree) =
      (beyond side context).reverse ++ (walk side tree ++ beyond side.other context) := by
  induction context generalizing tree with
  | nil => exact (List.append_nil _).symm
  | cons frame rest inductionHypothesis =>
    rw [plug_cons, inductionHypothesis, frame.fill_eq, beyond, beyond]
    by_cases same : frame.side = side
    · rw [if_pos same, if_neg (by rw [same]; exact side.ne_other), same, walk_join,
        Side.other_other, List.append_assoc, List.cons_append]
    · have flipped : frame.side = side.other := by
        cases side <;> cases sided : frame.side <;> first | rfl | exact absurd sided same
      rw [if_neg same, if_pos flipped, flipped, join_other, walk_join, walk_other,
        List.reverse_cons, List.reverse_append, List.reverse_reverse]
      simp only [List.append_assoc, List.cons_append, List.nil_append]

theorem inorder_plug (context : Context Node) (tree : BinaryTree Node) :
    inorder (plug context tree) =
      (beyond .left context).reverse ++ (inorder tree ++ beyond .right context) :=
  walk_plug .left context tree

theorem perm_join (side : Side) (near far : BinaryTree Node) (node : Node) :
    (inorder (join side near node far)).Perm (node :: (inorder near ++ inorder far)) := by
  cases side with
  | left => exact List.perm_middle
  | right => exact List.perm_middle.trans (List.perm_append_comm.cons node)

/-- The nodes of the whole tree, without their order. -/
theorem perm_plug (context : Context Node) (tree : BinaryTree Node) :
    (inorder (plug context tree)).Perm (inorder tree ++ around context) := by
  induction context generalizing tree with
  | nil => exact (List.append_nil _).symm ▸ .rfl
  | cons frame rest inductionHypothesis =>
    refine (inductionHypothesis (frame.fill tree)).trans ?_
    refine ((perm_join _ _ _ _).append_right _).trans ?_
    rw [around, List.cons_append, List.append_assoc]
    exact List.perm_middle.symm

theorem length_le_around (context : Context Node) : context.length ≤ (around context).length := by
  induction context with
  | nil => exact le_refl _
  | cons frame rest inductionHypothesis =>
    rw [around, List.length_cons, List.length_cons, List.length_append]
    omega

/-- A context is no longer than the whole tree is large. -/
theorem length_le_plug (context : Context Node) (tree : BinaryTree Node) :
    context.length + tree.numNodes ≤ (plug context tree).numNodes := by
  have counted := (perm_plug context tree).length_eq
  rw [List.length_append, length_inorder, length_inorder] at counted
  have bound := length_le_around context
  omega

theorem numNodes_le_plug (context : Context Node) (tree : BinaryTree Node) :
    tree.numNodes ≤ (plug context tree).numNodes :=
  (Nat.le_add_left _ _).trans (length_le_plug context tree)

theorem context_le_plug (context : Context Node) (tree : BinaryTree Node) :
    context.length ≤ (plug context tree).numNodes :=
  (Nat.le_add_right _ _).trans (length_le_plug context tree)

/-! ### Every node has a context -/

/-- The three places at which a list may be split off a joined one. -/
theorem split_middle {before after left right : List Node} {node middle : Node}
    (same : before ++ node :: after = left ++ middle :: right) :
    (∃ between, left = before ++ node :: between ∧ after = between ++ middle :: right) ∨
      (before = left ∧ node = middle ∧ after = right) ∨
      ∃ between, before = left ++ middle :: between ∧ right = between ++ node :: after := by
  rcases List.append_eq_append_iff.mp same with ⟨between, lefts, nodes⟩ | ⟨between, lefts, nodes⟩
  · cases between with
    | nil =>
      rw [List.append_nil] at lefts
      cases nodes
      exact .inr (.inl ⟨lefts.symm, rfl, rfl⟩)
    | cons first between =>
      cases nodes
      exact .inl ⟨between, lefts, rfl⟩
  · cases between with
    | nil =>
      rw [List.append_nil] at lefts
      cases nodes
      exact .inr (.inl ⟨lefts, rfl, rfl⟩)
    | cons first between =>
      cases nodes
      exact .inr (.inr ⟨between, lefts, rfl⟩)

/-- A node at a place in the order of a tree lies below a context there. -/
theorem exists_plug {tree : BinaryTree Node} {before after : List Node} {node : Node}
    (split : inorder tree = before ++ node :: after) :
    ∃ context left right, tree = plug context (.node node left right) ∧
      (beyond .left context).reverse ++ inorder left = before ∧
      inorder right ++ beyond .right context = after := by
  induction tree generalizing before after with
  | nil => exact absurd split (List.append_ne_nil_of_right_ne_nil _ (List.cons_ne_nil _ _)).symm
  | node middle lefts rights leftHypothesis rightHypothesis =>
    rcases split_middle split.symm with ⟨between, inLeft, rfl⟩ | ⟨rfl, rfl, rfl⟩ |
      ⟨between, rfl, inRight⟩
    · obtain ⟨context, left, right, rfl, rfl, rfl⟩ := leftHypothesis inLeft
      refine ⟨context ++ [⟨.left, middle, rights⟩], left, right, ?_, ?_, ?_⟩
      · rw [plug_append]
        rfl
      · rw [beyond_append]
        simp [beyond]
      · rw [beyond_append]
        simp [beyond, walk]
    · exact ⟨[], lefts, rights, rfl, rfl, List.append_nil _⟩
    · obtain ⟨context, left, right, rfl, rfl, rfl⟩ := rightHypothesis inRight
      refine ⟨context ++ [⟨.right, middle, lefts⟩], left, right, ?_, ?_, ?_⟩
      · rw [plug_append]
        rfl
      · rw [beyond_append]
        simp [beyond, walk]
      · rw [beyond_append]
        simp [beyond]

/-! ### Holes for a target -/

variable {Key : Type} [LinearOrder Key]

theorem searchTree_join {key : Node → Key} (side : Side) (near far : BinaryTree Node)
    (node : Node) :
    SearchTree key (join side near node far) ↔
      ((∀ other ∈ inorder near, LiesOn key (key node) side other) ∧
          ∀ other ∈ inorder far, LiesOn key (key node) side.other other) ∧
        SearchTree key near ∧ SearchTree key far := by
  cases side with
  | left => rfl
  | right => exact and_congr and_comm and_comm

/-- The hole lies where a target belongs: the nodes on each side of it lie there for the
target. -/
def Around (key : Node → Key) (target : Key) (context : Context Node) : Prop :=
  ∀ side, ∀ node ∈ beyond side context, LiesOn key target side node

theorem around_nil (key : Node → Key) (target : Key) : Around key target [] :=
  fun _ _ member => absurd member List.not_mem_nil

/-- A step down to one side, past a node that lies beyond the target. -/
theorem Around.down {key : Node → Key} {target : Key} {context : Context Node} {side : Side}
    {near far : BinaryTree Node} {node : Node} (around : Around key target context)
    (search : SearchTree key (join side near node far))
    (passed : LiesOn key target side.other node) :
    Around key target (⟨side, node, far⟩ :: context) := by
  intro other member inside
  rw [beyond] at inside
  split at inside
  · exact around other member inside
  · rename_i apart
    have flipped : other = side.other := by
      cases other <;> cases side <;> first | rfl | exact absurd rfl apart
    subst flipped
    rcases List.mem_cons.mp inside with rfl | inside
    · exact passed
    · rcases List.mem_append.mp inside with inFar | outside
      · rw [mem_walk] at inFar
        have beyondNode := ((searchTree_join side near far node).mp search).1.2 member inFar
        cases side with
        | left => exact lt_trans passed beyondNode
        | right => exact lt_trans beyondNode passed
      · exact around _ member outside

/-- A node with the target as its key, put into the hole, keeps the order. -/
theorem Around.sorted {key : Node → Key} {context : Context Node} {node : Node}
    (around : Around key (key node) context)
    (sorted : Sorted key (inorder (plug context .nil))) :
    Sorted key (inorder (plug context (.node node .nil .nil))) := by
  rw [inorder_plug] at sorted ⊢
  obtain ⟨lefts, rights, across⟩ := List.pairwise_append.mp sorted
  refine List.pairwise_append.mpr ⟨lefts, List.pairwise_cons.mpr ⟨around .right, rights⟩,
    fun other member later inside => ?_⟩
  rcases List.mem_cons.mp inside with rfl | beyondHole
  · exact around .left other (List.mem_reverse.mp member)
  · exact across other member later beyondHole

/-- In a sorted whole tree, no other node around the hole has the target as its key. -/
theorem Around.key_ne {key : Node → Key} {target : Key} {context : Context Node}
    (around : Around key target context) {node : Node}
    (member : node ∈ inorder (plug context .nil)) : key node ≠ target := by
  rw [inorder_plug, List.mem_append, List.mem_reverse] at member
  rcases member with onLeft | onRight
  · exact ne_of_lt (around .left node onLeft)
  · exact (ne_of_lt (around .right node onRight)).symm

end TreeContext
