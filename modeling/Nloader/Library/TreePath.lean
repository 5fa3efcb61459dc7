/-
This file is a library of binary trees taken apart along a path from the root. What a walk
down a tree has passed lies on one of two spines: the nodes left of the path with their left
subtrees, and the nodes right of it with their right subtrees. Everything is stated for one
side and holds for the other one as its mirror image.

The nodes of a path, read from one side, are not changed by a step down, by a rotation or
by putting the path together again. Over a linear order of keys, the spines are kept on
their side of a target.

The library names nothing of the program it is used for.
-/

import Mathlib.Data.Tree.Basic
import Mathlib.Tactic

namespace TreePath

/-! ### Sides -/

/-- The two sides of a node. -/
inductive Side where
  | left
  | right
  deriving DecidableEq

/-- The other side. -/
def Side.other : Side → Side
  | .left => .right
  | .right => .left

@[simp] theorem Side.other_left : Side.left.other = .right := rfl

@[simp] theorem Side.other_right : Side.right.other = .left := rfl

@[simp] theorem Side.other_other (side : Side) : side.other.other = side := by cases side <;> rfl

@[simp] theorem Side.other_ne (side : Side) : side.other ≠ side := by cases side <;> exact nofun

@[simp] theorem Side.ne_other (side : Side) : side ≠ side.other := side.other_ne.symm

/-! ### Walks -/

variable {Node : Type}

/-- The nodes of a tree from left to right. -/
def inorder : BinaryTree Node → List Node
  | .nil => []
  | .node node left right => inorder left ++ node :: inorder right

/-- The nodes of a tree, walked from one side. -/
def walk : Side → BinaryTree Node → List Node
  | .left, tree => inorder tree
  | .right, tree => (inorder tree).reverse

/-- A node over the subtree on one side and the subtree on the other one. -/
def join : Side → BinaryTree Node → Node → BinaryTree Node → BinaryTree Node
  | .left, near, node, far => .node node near far
  | .right, near, node, far => .node node far near

theorem exists_join (side : Side) {tree : BinaryTree Node} (nonempty : tree ≠ .nil) :
    ∃ near node far, tree = join side near node far := by
  cases tree with
  | nil => exact absurd rfl nonempty
  | node node left right =>
    cases side with
    | left => exact ⟨left, node, right, rfl⟩
    | right => exact ⟨right, node, left, rfl⟩

@[simp] theorem join_ne_nil (side : Side) (near far : BinaryTree Node) (node : Node) :
    join side near node far ≠ .nil := by
  cases side <;> exact nofun

theorem walk_join (side : Side) (near far : BinaryTree Node) (node : Node) :
    walk side (join side near node far) = walk side near ++ node :: walk side far := by
  cases side with
  | left => rfl
  | right => simp [walk, join, inorder]

theorem walk_other (side : Side) (tree : BinaryTree Node) :
    walk side.other tree = (walk side tree).reverse := by
  cases side with
  | left => rfl
  | right => exact (List.reverse_reverse _).symm

@[simp] theorem mem_walk (side : Side) (tree : BinaryTree Node) (node : Node) :
    node ∈ walk side tree ↔ node ∈ inorder tree := by
  cases side with
  | left => rfl
  | right => exact List.mem_reverse

@[simp] theorem mem_inorder_join (side : Side) (near far : BinaryTree Node) (node other : Node) :
    other ∈ inorder (join side near node far) ↔
      other ∈ inorder near ∨ other = node ∨ other ∈ inorder far := by
  rw [← mem_walk side, walk_join, List.mem_append, List.mem_cons, mem_walk, mem_walk]

theorem numNodes_join (side : Side) (near far : BinaryTree Node) (node : Node) :
    (join side near node far).numNodes = near.numNodes + far.numNodes + 1 := by
  cases side with
  | left => rfl
  | right => simp only [join, BinaryTree.numNodes, Nat.add_comm near.numNodes]

theorem length_inorder (tree : BinaryTree Node) : (inorder tree).length = tree.numNodes := by
  induction tree with
  | nil => rfl
  | node node left right leftHypothesis rightHypothesis =>
    rw [inorder, List.length_append, List.length_cons, leftHypothesis, rightHypothesis,
      BinaryTree.numNodes]
    omega

/-! ### Spines -/

/-- The nodes a path has left on one side, the deepest first, each with its subtree on that
side. -/
abbrev Spine (Node : Type) : Type := List (Node × BinaryTree Node)

/-- The nodes of a spine, walked from its side. -/
def spineWalk (side : Side) : Spine Node → List Node
  | [] => []
  | (node, outer) :: rest => spineWalk side rest ++ (walk side outer ++ [node])

/-- Put a tree at the inner end of a spine. -/
def attach (side : Side) : Spine Node → BinaryTree Node → BinaryTree Node
  | [], tree => tree
  | (node, outer) :: rest, tree => attach side rest (join side outer node tree)

theorem walk_attach (side : Side) :
    ∀ (spine : Spine Node) (tree : BinaryTree Node),
      walk side (attach side spine tree) = spineWalk side spine ++ walk side tree := by
  intro spine
  induction spine with
  | nil => intro tree; rfl
  | cons link rest inductionHypothesis =>
    intro tree
    rw [attach, inductionHypothesis, walk_join, spineWalk, List.append_assoc, List.append_assoc,
      List.singleton_append]

/-! ### Paths -/

/-- A tree below the two spines of the path that leads to it. -/
structure Path (Node : Type) where
  spine : Side → Spine Node
  tree : BinaryTree Node

/-- The nodes of a path, walked from one side. -/
def Path.whole (path : Path Node) (side : Side) : List Node :=
  spineWalk side (path.spine side) ++
    (walk side path.tree ++ (spineWalk side.other (path.spine side.other)).reverse)

theorem Path.whole_other (path : Path Node) (side : Side) :
    path.whole side.other = (path.whole side).reverse := by
  unfold Path.whole
  rw [Side.other_other, walk_other, List.reverse_append, List.reverse_append,
    List.reverse_reverse, List.append_assoc]

theorem Path.mem_whole (path : Path Node) (side : Side) (node : Node) :
    node ∈ path.whole side ↔
      node ∈ spineWalk side (path.spine side) ∨ node ∈ inorder path.tree ∨
        node ∈ spineWalk side.other (path.spine side.other) := by
  rw [Path.whole, List.mem_append, List.mem_append, List.mem_reverse, mem_walk]

/-- The path that has not left the root. -/
def Path.atRoot (tree : BinaryTree Node) : Path Node where
  spine := fun _ => []
  tree

theorem Path.whole_atRoot (tree : BinaryTree Node) (side : Side) :
    (Path.atRoot tree).whole side = walk side tree := by
  unfold Path.whole Path.atRoot
  exact List.append_nil _

/-- The path with another tree at its end. -/
def Path.withTree (path : Path Node) (tree : BinaryTree Node) : Path Node :=
  { path with tree }

theorem Path.whole_withTree {path : Path Node} {tree : BinaryTree Node} (side : Side)
    (same : walk side tree = walk side path.tree) :
    (path.withTree tree).whole side = path.whole side := by
  unfold Path.whole Path.withTree
  rw [same]

/-- A step down to one side: the node and what lies beyond it join the other spine. -/
def Path.down (path : Path Node) (side : Side) (near : BinaryTree Node) (node : Node)
    (far : BinaryTree Node) : Path Node where
  spine := Function.update path.spine side.other ((node, far) :: path.spine side.other)
  tree := near

@[simp] theorem Path.down_spine_other (path : Path Node) (side : Side)
    (near far : BinaryTree Node) (node : Node) :
    (path.down side near node far).spine side.other = (node, far) :: path.spine side.other :=
  Function.update_self _ _ _

@[simp] theorem Path.down_spine (path : Path Node) (side : Side)
    (near far : BinaryTree Node) (node : Node) :
    (path.down side near node far).spine side = path.spine side :=
  Function.update_of_ne side.ne_other _ _

theorem Path.whole_down {path : Path Node} {side : Side} {near far : BinaryTree Node}
    {node : Node} (seen : path.tree = join side near node far) :
    (path.down side near node far).whole side = path.whole side := by
  unfold Path.whole
  rw [Path.down_spine, Path.down_spine_other, seen, walk_join, spineWalk, walk_other]
  simp [Path.down]

/-- Two paths with the same nodes from one side have the same nodes from the other. -/
theorem Path.whole_left {path next : Path Node} (side : Side)
    (same : next.whole side = path.whole side) : next.whole .left = path.whole .left := by
  cases side with
  | left => exact same
  | right =>
    have mirrored := congrArg List.reverse same
    rwa [← Path.whole_other, ← Path.whole_other] at mirrored

/-- The tree that hangs the two subtrees of the last node at the ends of the spines and the
spines below that node. -/
def Path.assemble (path : Path Node) (left : BinaryTree Node) (node : Node)
    (right : BinaryTree Node) : BinaryTree Node :=
  .node node (attach .left (path.spine .left) left) (attach .right (path.spine .right) right)

theorem Path.inorder_assemble {path : Path Node} {left right : BinaryTree Node} {node : Node}
    (seen : path.tree = .node node left right) :
    inorder (path.assemble left node right) = path.whole .left := by
  have lefts := walk_attach .left (path.spine .left) left
  have rights := congrArg List.reverse (walk_attach .right (path.spine .right) right)
  rw [← walk_other, List.reverse_append, ← walk_other] at rights
  unfold Path.assemble Path.whole
  rw [seen]
  change walk .left _ ++ node :: walk Side.right.other _ = _
  rw [lefts, rights]
  simp [walk, inorder]

/-! ### Paths towards a target -/

variable {Key : Type} [LinearOrder Key]

/-- A node lies on one side of a target. -/
def LiesOn (key : Node → Key) (target : Key) : Side → Node → Prop
  | .left, node => key node < target
  | .right, node => target < key node

/-- The nodes are strictly sorted by their keys. -/
def Sorted (key : Node → Key) (nodes : List Node) : Prop :=
  nodes.Pairwise (fun before after => key before < key after)

/-- Nodes have one strictly sorted order. -/
theorem Sorted.eq_of_perm {key : Node → Key} {nodes nodes' : List Node}
    (sorted : Sorted key nodes) (sorted' : Sorted key nodes') (perm : nodes.Perm nodes') :
    nodes = nodes' :=
  perm.eq_of_pairwise (fun _ _ _ _ less greater => absurd less (not_lt_of_gt greater)) sorted
    sorted'

/-- A binary search tree with pairwise distinct keys. -/
def SearchTree (key : Node → Key) : BinaryTree Node → Prop
  | .nil => True
  | .node node left right =>
    ((∀ other ∈ inorder left, key other < key node) ∧
      ∀ other ∈ inorder right, key node < key other) ∧
    SearchTree key left ∧ SearchTree key right

/-- The search trees are the trees whose nodes are sorted from left to right. -/
theorem searchTree_iff_sorted (key : Node → Key) (tree : BinaryTree Node) :
    SearchTree key tree ↔ Sorted key (inorder tree) := by
  induction tree with
  | nil => exact iff_of_true trivial List.Pairwise.nil
  | node node left right leftHypothesis rightHypothesis =>
    unfold Sorted at leftHypothesis rightHypothesis ⊢
    rw [SearchTree, leftHypothesis, rightHypothesis, inorder, List.pairwise_append,
      List.pairwise_cons]
    constructor
    · rintro ⟨⟨below, above⟩, lefts, rights⟩
      refine ⟨lefts, ⟨above, rights⟩, fun other member later membership => ?_⟩
      rcases List.mem_cons.mp membership with rfl | beyond
      · exact below other member
      · exact lt_trans (below other member) (above later beyond)
    · rintro ⟨lefts, ⟨above, rights⟩, across⟩
      exact ⟨⟨fun other member => across other member node List.mem_cons_self, above⟩, lefts,
        rights⟩

/-- Walked from a side, every node of a sorted path lies on that side of the later ones. -/
theorem Path.pairwise_whole {key : Node → Key} {path : Path Node}
    (sorted : Sorted key (path.whole .left)) (side : Side) :
    (path.whole side).Pairwise (fun before after => LiesOn key (key after) side before) := by
  cases side with
  | left => exact sorted
  | right =>
    have mirrored := path.whole_other .left
    rw [Side.other_left] at mirrored
    rw [mirrored, List.pairwise_reverse]
    exact sorted

/-- A path towards a target, through the given nodes: each spine lies on its side of it. -/
structure Path.Towards (key : Node → Key) (target : Key) (nodes : List Node)
    (path : Path Node) : Prop where
  whole : path.whole .left = nodes
  sides : ∀ side, ∀ node ∈ spineWalk side (path.spine side), LiesOn key target side node

theorem Path.towards_atRoot (key : Node → Key) (target : Key) (tree : BinaryTree Node) :
    (Path.atRoot tree).Towards key target (inorder tree) :=
  ⟨Path.whole_atRoot tree .left, fun _ _ member => by cases member⟩

/-- A tree with the same nodes keeps the path. -/
theorem Path.Towards.withTree {key : Node → Key} {target : Key} {nodes : List Node}
    {path : Path Node} (towards : path.Towards key target nodes) {tree : BinaryTree Node}
    (side : Side) (same : walk side tree = walk side path.tree) :
    (path.withTree tree).Towards key target nodes :=
  ⟨(Path.whole_left side (Path.whole_withTree side same)).trans towards.whole, towards.sides⟩

theorem LiesOn.beyond {key : Node → Key} {target : Key} {side : Side} {node far : Node}
    (passed : LiesOn key target side.other node) (beyond : LiesOn key (key far) side node) :
    LiesOn key target side.other far := by
  cases side with
  | left => exact lt_trans passed beyond
  | right => exact lt_trans beyond passed

/-- In a sorted path, what lies beyond the last node lies there for its key. -/
theorem Path.liesOn_far {key : Node → Key} {path : Path Node}
    (sorted : Sorted key (path.whole .left)) (side : Side) {near far : BinaryTree Node}
    {node : Node} (seen : path.tree = join side near node far) :
    ∀ other ∈ inorder far, LiesOn key (key other) side node := by
  intro other member
  have pairwise := path.pairwise_whole sorted side
  unfold Path.whole at pairwise
  rw [seen, walk_join] at pairwise
  have within := (List.pairwise_append.mp (List.pairwise_append.mp pairwise).2.1).1
  exact (List.pairwise_cons.mp (List.pairwise_append.mp within).2.1).1 other
    ((mem_walk side far other).mpr member)

/-- A step down towards the target, past a node that lies beyond it. -/
theorem Path.Towards.down {key : Node → Key} {target : Key} {nodes : List Node}
    {path : Path Node} (towards : path.Towards key target nodes) (sorted : Sorted key nodes)
    {side : Side} {near far : BinaryTree Node} {node : Node}
    (seen : path.tree = join side near node far)
    (passed : LiesOn key target side.other node) :
    (path.down side near node far).Towards key target nodes := by
  refine ⟨(Path.whole_left side (Path.whole_down seen)).trans towards.whole, ?_⟩
  rw [← towards.whole] at sorted
  intro other member membership
  by_cases same : other = side.other
  · subst same
    rw [Path.down_spine_other, spineWalk, List.mem_append, List.mem_append, mem_walk,
      List.mem_singleton] at membership
    rcases membership with above | beyond | last
    · exact towards.sides _ _ above
    · exact passed.beyond (path.liesOn_far sorted side seen member beyond)
    · rw [last]
      exact passed
  · refine towards.sides other member ?_
    have kept : (path.down side near node far).spine other = path.spine other :=
      Function.update_of_ne same _ _
    rwa [kept] at membership

/-- Where a path may end: at the target, or with nothing on the side of the target. -/
def Ends (key : Node → Key) (target : Key) (left : BinaryTree Node) (node : Node)
    (right : BinaryTree Node) : Prop :=
  key node = target ∨ (target < key node ∧ left = .nil) ∨ (key node < target ∧ right = .nil)

/-- A path ends past a node with nothing on the side of the target. -/
theorem Ends.of_join {key : Node → Key} {target : Key} {side : Side} {node : Node}
    (far : BinaryTree Node) (passed : LiesOn key target side.other node) :
    ∃ left right, join side .nil node far = .node node left right ∧
      Ends key target left node right := by
  cases side with
  | left => exact ⟨.nil, far, rfl, .inr (.inl ⟨passed, rfl⟩)⟩
  | right => exact ⟨far, .nil, rfl, .inr (.inr ⟨passed, rfl⟩)⟩

theorem LiesOn.ne {key : Node → Key} {target : Key} {side : Side} {node : Node}
    (passed : LiesOn key target side node) : key node ≠ target := by
  cases side with
  | left => exact ne_of_lt passed
  | right => exact (ne_of_lt passed).symm

theorem LiesOn.not_other {key : Node → Key} {target : Key} {side : Side} {node : Node}
    (lies : LiesOn key target side node) : ¬ LiesOn key target side.other node := by
  cases side <;> exact lt_asymm lies

/-- Under a root on one side of a target that parts the other nodes around it, all nodes lie on
one side of the target exactly where the root has no child towards it. -/
theorem oneSide_iff {key : Node → Key} {target : Key} {side : Side} {near far : BinaryTree Node}
    {root : Node} (rootLies : LiesOn key target side.other root)
    (nears : ∀ other ∈ inorder near, LiesOn key target side other)
    (fars : ∀ other ∈ inorder far, LiesOn key target side.other other) :
    (∃ one, ∀ other ∈ inorder (join side near root far), LiesOn key target one other) ↔
      near = .nil := by
  constructor
  · rintro ⟨one, all⟩
    by_contra nonempty
    obtain ⟨outer, below, inner, rfl⟩ := exists_join side nonempty
    have belowLies := nears below (by simp)
    by_cases same : one = side
    · subst same
      exact (all root (by simp)).not_other rootLies
    · have other : one = side.other := by
        cases one <;> cases side <;> first | rfl | exact absurd rfl same
      subst other
      exact belowLies.not_other (all below (by simp))
  · rintro rfl
    refine ⟨side.other, fun other member => ?_⟩
    rw [mem_inorder_join] at member
    rcases member with nothing | rfl | beyond
    · cases nothing
    · exact rootLies
    · exact fars other beyond

/-- Put together where it ends, a path gives a tree of the same nodes whose root parts them
around the target. -/
theorem Path.Towards.assemble {key : Node → Key} {target : Key} {nodes : List Node}
    {path : Path Node} (towards : path.Towards key target nodes) (sorted : Sorted key nodes)
    {left right : BinaryTree Node} {node : Node} (seen : path.tree = .node node left right)
    (ends : Ends key target left node right) :
    inorder (path.assemble left node right) = nodes ∧
      (∀ other ∈ inorder (attach .left (path.spine .left) left), key other < target) ∧
      ∀ other ∈ inorder (attach .right (path.spine .right) right), target < key other := by
  have sortedWhole : Sorted key (path.whole .left) := by rwa [towards.whole]
  have below : ∀ other ∈ inorder left, key other < key node :=
    path.liesOn_far sortedWhole .right seen
  have above : ∀ other ∈ inorder right, key node < key other :=
    path.liesOn_far sortedWhole .left seen
  refine ⟨(Path.inorder_assemble seen).trans towards.whole, ?_, ?_⟩
  · intro other member
    rw [← mem_walk .left, walk_attach, List.mem_append, mem_walk] at member
    rcases member with spine | inner
    · exact towards.sides .left other spine
    · rcases ends with found | ⟨_, empty⟩ | ⟨past, _⟩
      · exact found ▸ below other inner
      · rw [empty] at inner
        cases inner
      · exact lt_trans (below other inner) past
  · intro other member
    rw [← mem_walk .right, walk_attach, List.mem_append, mem_walk] at member
    rcases member with spine | inner
    · exact towards.sides .right other spine
    · rcases ends with found | ⟨past, _⟩ | ⟨_, empty⟩
      · exact found ▸ above other inner
      · exact lt_trans past (above other inner)
      · rw [empty] at inner
        cases inner

end TreePath
