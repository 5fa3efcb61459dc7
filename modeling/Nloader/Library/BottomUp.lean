/-
This file is a library of splaying from the bottom up. A node below a context is rotated over
the frames above it until none is left: over two frames at a time, where first the upper one
gives way when both lie on the same side and first the lower one when they do not, and over
the last frame alone when the number of frames is odd.

The library names nothing of the program it is used for.
-/

import Nloader.Library.TreeContext

namespace BottomUp

open TreePath TreeContext

variable {Node : Type}

/-! ### Rotations -/

/-- The root of a tree is rotated over the node of the frame above it. -/
def rotate (frame : Frame Node) : BinaryTree Node → BinaryTree Node
  | .nil => frame.fill .nil
  | .node node left right =>
    match frame.side with
    | .left => .node node left (.node frame.node right frame.sibling)
    | .right => .node node (.node frame.node frame.sibling left) right

theorem rotate_join (frame : Frame Node) (near far : BinaryTree Node) (node : Node) :
    rotate frame (join frame.side near node far) =
      join frame.side near node (join frame.side far frame.node frame.sibling) := by
  obtain ⟨side, above, sibling⟩ := frame
  cases side <;> rfl

/-- The frame of a parent above which the grandparent has been rotated down. -/
def lowered (parent grandparent : Frame Node) : Frame Node :=
  { parent with
    sibling := join parent.side parent.sibling grandparent.node grandparent.sibling }

/-- The root of a tree is rotated over the two frames above it. -/
def rotateTwice (parent grandparent : Frame Node) (tree : BinaryTree Node) : BinaryTree Node :=
  if parent.side = grandparent.side then rotate (lowered parent grandparent) tree
  else rotate grandparent (rotate parent tree)

/-- The root of a tree is rotated over all frames above it. -/
def splay : Context Node → BinaryTree Node → BinaryTree Node
  | [], tree => tree
  | [frame], tree => rotate frame tree
  | parent :: grandparent :: rest, tree => splay rest (rotateTwice parent grandparent tree)

/-! ### The order of the nodes -/

theorem inorder_rotate (frame : Frame Node) (tree : BinaryTree Node) :
    inorder (rotate frame tree) = inorder (frame.fill tree) := by
  obtain ⟨side, above, sibling⟩ := frame
  cases tree with
  | nil => rfl
  | node node left right => cases side <;> simp [rotate, Frame.fill, join, inorder]

theorem inorder_plug_congr (context : Context Node) {tree tree' : BinaryTree Node}
    (same : inorder tree' = inorder tree) :
    inorder (plug context tree') = inorder (plug context tree) := by
  rw [inorder_plug, inorder_plug, same]

theorem inorder_rotateTwice (parent grandparent : Frame Node) (tree : BinaryTree Node) :
    inorder (rotateTwice parent grandparent tree) =
      inorder (grandparent.fill (parent.fill tree)) := by
  unfold rotateTwice
  split
  · rename_i straight
    rw [inorder_rotate]
    obtain ⟨side, above, sibling⟩ := parent
    obtain ⟨side', above', sibling'⟩ := grandparent
    cases straight
    cases side <;> simp [lowered, Frame.fill, join, inorder]
  · rw [inorder_rotate]
    exact inorder_plug_congr [grandparent] (inorder_rotate parent tree)

/-- Splaying keeps the nodes in their order. -/
theorem inorder_splay (context : Context Node) (tree : BinaryTree Node) :
    inorder (splay context tree) = inorder (plug context tree) := by
  induction context using List.twoStepInduction generalizing tree with
  | nil => rfl
  | singleton frame => exact inorder_rotate frame tree
  | cons_cons parent grandparent rest inductionHypothesis _ =>
    rw [splay, inductionHypothesis]
    exact inorder_plug_congr rest (inorder_rotateTwice parent grandparent tree)

/-! ### The root -/

theorem exists_rotate (frame : Frame Node) (node : Node) (left right : BinaryTree Node) :
    ∃ left' right', rotate frame (.node node left right) = .node node left' right' := by
  obtain ⟨side, above, sibling⟩ := frame
  cases side <;> exact ⟨_, _, rfl⟩

theorem exists_rotateTwice (parent grandparent : Frame Node) (node : Node)
    (left right : BinaryTree Node) :
    ∃ left' right',
      rotateTwice parent grandparent (.node node left right) = .node node left' right' := by
  unfold rotateTwice
  split
  · exact exists_rotate _ _ _ _
  · obtain ⟨left', right', rotated⟩ := exists_rotate parent node left right
    rw [rotated]
    exact exists_rotate _ _ _ _

/-- The node that is splayed becomes the root. -/
theorem exists_splay (context : Context Node) (node : Node) (left right : BinaryTree Node) :
    ∃ left' right', splay context (.node node left right) = .node node left' right' := by
  induction context using List.twoStepInduction generalizing left right with
  | nil => exact ⟨left, right, rfl⟩
  | singleton frame => exact exists_rotate frame node left right
  | cons_cons parent grandparent rest inductionHypothesis _ =>
    obtain ⟨left', right', rotated⟩ := exists_rotateTwice parent grandparent node left right
    rw [splay, rotated]
    exact inductionHypothesis left' right'

/-! ### Nodes taken out -/

/-- The way down on the right, from a node with its two subtrees: the last node, with the path to
it and the tree on its left. -/
def rightmost (path : Context Node) (node : Node) (left : BinaryTree Node) :
    BinaryTree Node → Context Node × Node × BinaryTree Node
  | .nil => (path, node, left)
  | .node next inner right => rightmost (⟨.right, node, left⟩ :: path) next inner right

/-- The hole that a node below a context leaves, and the tree in it. A node with two subtrees is
replaced by the one in front of it, which leaves the hole. -/
def removed (context : Context Node) :
    BinaryTree Node → BinaryTree Node → Context Node × BinaryTree Node
  | .nil, right => (context, right)
  | .node node left inner, .nil => (context, .node node left inner)
  | .node node left inner, .node other near far =>
    let (path, heir, below) := rightmost [] node left inner
    (path ++ ⟨.left, heir, .node other near far⟩ :: context, below)

/-- The node above a hole is splayed, if there is one. -/
def splayAbove : Context Node × BinaryTree Node → BinaryTree Node
  | ([], tree) => tree
  | (frame :: rest, tree) => splay rest (frame.fill tree)

theorem exists_rightmost (path : Context Node) (node : Node) (left right : BinaryTree Node) :
    ∃ inner heir below, rightmost path node left right = (inner ++ path, heir, below) ∧
      .node node left right = plug inner (.node heir below .nil) ∧ beyond .right inner = [] := by
  induction right generalizing path node left with
  | nil => exact ⟨[], node, left, rfl, rfl, rfl⟩
  | node next near far _ rightHypothesis =>
    obtain ⟨inner, heir, below, found, shape, last⟩ :=
      rightHypothesis (⟨.right, node, left⟩ :: path) next near
    refine ⟨inner ++ [⟨.right, node, left⟩], heir, below, ?_, ?_, ?_⟩
    · rw [List.append_assoc]
      exact found
    · rw [plug_append, ← shape]
      rfl
    · rw [beyond_append, last, beyond, if_pos rfl]
      rfl

/-- A node is taken out of the order. -/
theorem inorder_removed (context : Context Node) (left right : BinaryTree Node) :
    inorder (plug (removed context left right).1 (removed context left right).2) =
      (beyond .left context).reverse ++
        ((inorder left ++ inorder right) ++ beyond .right context) := by
  match left, right with
  | .nil, right => exact inorder_plug _ _
  | .node node left inner, .nil =>
    rw [inorder, List.append_nil]
    exact inorder_plug _ _
  | .node node left inner, .node other near far =>
    obtain ⟨path, heir, below, found, shape, last⟩ := exists_rightmost [] node left inner
    rw [removed, found]
    change inorder (plug (path ++ [] ++ _) below) = _
    have front : inorder (.node node left inner) = inorder (plug path below) ++ [heir] := by
      rw [shape, inorder_plug, inorder_plug, last, inorder, inorder, List.append_nil,
        List.append_nil, List.append_assoc]
    rw [front, List.append_nil, plug_append, plug_cons, inorder_plug, Frame.fill_eq]
    simp only [join, inorder, List.append_assoc, List.cons_append, List.nil_append]

/-- A tree with a node taken out has one less. -/
theorem numNodes_removed (context : Context Node) (node : Node) (left right : BinaryTree Node) :
    (plug (removed context left right).1 (removed context left right).2).numNodes + 1 =
      (plug context (.node node left right)).numNodes := by
  rw [← length_inorder, ← length_inorder, inorder_removed, inorder_plug, inorder]
  simp only [List.length_append, List.length_cons]
  omega

theorem inorder_splayAbove (hole : Context Node × BinaryTree Node) :
    inorder (splayAbove hole) = inorder (plug hole.1 hole.2) := by
  obtain ⟨context, tree⟩ := hole
  cases context with
  | nil => rfl
  | cons frame rest => exact inorder_splay rest _

/-- The tree with a node taken out has all others, in their order. -/
theorem inorder_removed_erase [DecidableEq Node] {context : Context Node} {node : Node}
    {left right : BinaryTree Node}
    (nodup : (inorder (plug context (.node node left right))).Nodup) :
    inorder (plug (removed context left right).1 (removed context left right).2) =
      (inorder (plug context (.node node left right))).erase node := by
  have split : inorder (plug context (.node node left right)) =
      ((beyond .left context).reverse ++ inorder left) ++
        (node :: (inorder right ++ beyond .right context)) := by
    rw [inorder_plug, inorder, List.append_assoc, List.append_assoc]
    rfl
  rw [split] at nodup ⊢
  have absent : node ∉ (beyond .left context).reverse ++ inorder left := fun member =>
    List.disjoint_of_nodup_append nodup member List.mem_cons_self
  rw [inorder_removed, List.erase_append_right _ absent, List.erase_cons_head,
    List.append_assoc, List.append_assoc]

end BottomUp
