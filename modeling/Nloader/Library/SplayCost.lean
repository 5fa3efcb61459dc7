/-
This file is a library of the cost of splaying from the bottom up. The rank of a tree is the
binary logarithm of its size, with one added, and its potential is the sum of the ranks of all
its subtrees. A rotation over two frames lowers the potential by two unless it raises the rank
of the node, so that a node below many frames pays for its way up with the potential that it
takes out of the tree: what it does not pay for is at most logarithmic in the size.

A leaf put into a tree brings at most the rank of the tree, and a node taken out only lowers
the potential.

The library names nothing of the program it is used for.
-/

import Mathlib.Analysis.SpecialFunctions.Log.Base
import Nloader.Library.BottomUp

namespace BottomUp

open TreePath TreeContext

variable {Node : Type}

/-! ### Ranks -/

/-- The binary logarithm of the size of a tree, with one added. -/
noncomputable def rank (tree : BinaryTree Node) : ℝ := Real.logb 2 (tree.numNodes + 1 : ℕ)

/-- The sum of the ranks of all subtrees. -/
noncomputable def potential : BinaryTree Node → ℝ
  | .nil => 0
  | .node node left right => rank (.node node left right) + (potential left + potential right)

theorem log_mono (small large : ℕ) (positive : 0 < small) (le : small ≤ large) :
    Real.logb 2 small ≤ Real.logb 2 large :=
  Real.logb_le_logb_of_le one_lt_two (Nat.cast_pos.mpr positive) (Nat.cast_le.mpr le)

/-- The logarithms of two parts of a size are small enough to pay for two rotations. -/
theorem log_add_log_le (first second whole : ℕ) (positive : 0 < first)
    (positive' : 0 < second) (le : first + second ≤ whole) :
    Real.logb 2 first + Real.logb 2 second + 2 ≤ 2 * Real.logb 2 whole := by
  have firstPositive : (0 : ℝ) < first := Nat.cast_pos.mpr positive
  have secondPositive : (0 : ℝ) < second := Nat.cast_pos.mpr positive'
  have bound : (first : ℝ) + second ≤ whole := by exact_mod_cast le
  have four : Real.logb 2 4 = 2 := by
    rw [show (4 : ℝ) = 2 ^ (2 : ℕ) by norm_num, Real.logb_pow, Real.logb_self_eq_one one_lt_two]
    norm_num
  calc Real.logb 2 first + Real.logb 2 second + 2
      = Real.logb 2 (first * second * 4) := by
        rw [Real.logb_mul (mul_pos firstPositive secondPositive).ne' four_ne_zero,
          Real.logb_mul firstPositive.ne' secondPositive.ne', four]
    _ ≤ Real.logb 2 ((whole : ℝ) ^ 2) := by
        refine Real.logb_le_logb_of_le one_lt_two (by positivity) ?_
        nlinarith [sq_nonneg ((first : ℝ) - second)]
    _ = 2 * Real.logb 2 whole := by
        rw [Real.logb_pow]
        norm_num

theorem rank_mono {small large : BinaryTree Node} (le : small.numNodes ≤ large.numNodes) :
    rank small ≤ rank large :=
  log_mono _ _ (Nat.succ_pos _) (Nat.succ_le_succ le)

theorem rank_nonneg (tree : BinaryTree Node) : 0 ≤ rank tree :=
  Real.logb_nonneg one_lt_two (by exact_mod_cast Nat.succ_pos _)

theorem potential_join (side : Side) (near far : BinaryTree Node) (node : Node) :
    potential (join side near node far) =
      rank (join side near node far) + (potential near + potential far) := by
  cases side with
  | left => rfl
  | right => exact congrArg (rank _ + ·) (add_comm _ _)

theorem potential_fill (frame : Frame Node) (tree : BinaryTree Node) :
    potential (frame.fill tree) =
      rank (frame.fill tree) + (potential tree + potential frame.sibling) :=
  potential_join _ _ _ _

theorem numNodes_fill (frame : Frame Node) (tree : BinaryTree Node) :
    (frame.fill tree).numNodes = tree.numNodes + frame.sibling.numNodes + 1 :=
  numNodes_join _ _ _ _

theorem rank_congr {tree tree' : BinaryTree Node} (same : tree'.numNodes = tree.numNodes) :
    rank tree' = rank tree := by
  rw [rank, rank, same]

/-! ### Rotations -/

/-- A rotation over the last frame. -/
theorem potential_rotate (frame : Frame Node) (near far : BinaryTree Node) (node : Node) :
    potential (rotate frame (join frame.side near node far)) ≤
      potential (frame.fill (join frame.side near node far)) +
        (rank (frame.fill (join frame.side near node far)) -
          rank (join frame.side near node far)) := by
  rw [rotate_join, Frame.fill_eq]
  simp only [potential_join, rank, numNodes_join]
  have inner := log_mono (far.numNodes + frame.sibling.numNodes + 1 + 1)
    (near.numNodes + far.numNodes + 1 + frame.sibling.numNodes + 1 + 1) (by omega) (by omega)
  rw [show near.numNodes + (far.numNodes + frame.sibling.numNodes + 1) + 1 + 1 =
    near.numNodes + far.numNodes + 1 + frame.sibling.numNodes + 1 + 1 by omega]
  linarith

/-- A rotation over two frames on the same side. -/
theorem potential_straight {side : Side} {node upper top : Node}
    {near far sibling sibling' : BinaryTree Node} :
    potential (join side near node (join side far upper (join side sibling top sibling'))) + 2 ≤
      potential (join side (join side (join side near node far) upper sibling) top sibling') +
        3 * (rank (join side (join side (join side near node far) upper sibling) top sibling') -
          rank (join side near node far)) := by
  simp only [potential_join, rank, numNodes_join]
  have same : near.numNodes + (far.numNodes + (sibling.numNodes + sibling'.numNodes + 1) + 1) + 1 =
      near.numNodes + far.numNodes + 1 + sibling.numNodes + 1 + sibling'.numNodes + 1 := by omega
  rw [same]
  generalize whole : near.numNodes + far.numNodes + 1 + sibling.numNodes + 1 + sibling'.numNodes +
    1 + 1 = size
  have paid := log_add_log_le (near.numNodes + far.numNodes + 1 + 1)
    (sibling.numNodes + sibling'.numNodes + 1 + 1) size (by omega) (by omega) (by omega)
  have lower := log_mono (far.numNodes + (sibling.numNodes + sibling'.numNodes + 1) + 1 + 1)
    size (by omega) (by omega)
  have higher := log_mono (near.numNodes + far.numNodes + 1 + 1)
    (near.numNodes + far.numNodes + 1 + sibling.numNodes + 1 + 1) (by omega) (by omega)
  linarith

/-- A rotation over two frames on different sides. -/
theorem potential_bent {side : Side} {node upper top : Node}
    {near far sibling sibling' : BinaryTree Node} :
    potential (join side (join side.other near top sibling') node
        (join side far upper sibling)) + 2 ≤
      potential (join side.other (join side (join side near node far) upper sibling) top sibling') +
        3 * (rank (join side.other (join side (join side near node far) upper sibling) top
          sibling') - rank (join side near node far)) := by
  simp only [potential_join, rank, numNodes_join]
  have same : near.numNodes + sibling'.numNodes + 1 + (far.numNodes + sibling.numNodes + 1) + 1 =
      near.numNodes + far.numNodes + 1 + sibling.numNodes + 1 + sibling'.numNodes + 1 := by omega
  rw [same]
  generalize whole : near.numNodes + far.numNodes + 1 + sibling.numNodes + 1 + sibling'.numNodes +
    1 + 1 = size
  have paid := log_add_log_le (near.numNodes + sibling'.numNodes + 1 + 1)
    (far.numNodes + sibling.numNodes + 1 + 1) size (by omega) (by omega) (by omega)
  have lower := log_mono (near.numNodes + far.numNodes + 1 + 1) size (by omega) (by omega)
  have higher := log_mono (near.numNodes + far.numNodes + 1 + 1)
    (near.numNodes + far.numNodes + 1 + sibling.numNodes + 1 + 1) (by omega) (by omega)
  linarith

/-- A rotation over two frames takes two out of the potential, up to what the node gains in
rank. -/
theorem potential_rotateTwice (parent grandparent : Frame Node) {tree : BinaryTree Node}
    (nonempty : tree ≠ .nil) :
    potential (rotateTwice parent grandparent tree) + 2 ≤
      potential (grandparent.fill (parent.fill tree)) +
        3 * (rank (grandparent.fill (parent.fill tree)) - rank tree) := by
  obtain ⟨side, upper, sibling⟩ := parent
  obtain ⟨side', top, sibling'⟩ := grandparent
  obtain ⟨near, node, far, rfl⟩ := exists_join side nonempty
  unfold rotateTwice
  by_cases same : side = side'
  · subst same
    rw [if_pos rfl]
    have rotated := rotate_join (lowered ⟨side, upper, sibling⟩ ⟨side, top, sibling'⟩) near far node
    change rotate _ (join side near node far) = _ at rotated
    rw [rotated]
    exact potential_straight
  · have flipped : side' = side.other := by
      cases side <;> cases side' <;> first | rfl | exact absurd rfl same
    subst flipped
    rw [if_neg same]
    have rotated := rotate_join ⟨side, upper, sibling⟩ near far node
    change rotate _ (join side near node far) = join side near node (join side far upper sibling)
      at rotated
    have rotated' := rotate_join ⟨side.other, top, sibling'⟩ (join side far upper sibling) near node
    change rotate _ (join side.other (join side far upper sibling) node near) =
      join side.other (join side far upper sibling) node (join side.other near top sibling')
      at rotated'
    rw [rotated, ← join_other side (join side far upper sibling), rotated',
      join_other side (join side far upper sibling)]
    exact potential_bent

/-! ### Splaying -/

/-- A tree in a hole can be replaced by one of the same size. -/
theorem potential_plug_congr (context : Context Node) {tree tree' : BinaryTree Node}
    (same : tree'.numNodes = tree.numNodes) :
    potential (plug context tree') - potential tree' =
        potential (plug context tree) - potential tree ∧
      (plug context tree').numNodes = (plug context tree).numNodes := by
  induction context generalizing tree tree' with
  | nil => exact ⟨by rw [plug_nil, plug_nil, sub_self, sub_self], same⟩
  | cons frame rest inductionHypothesis =>
    have filled : (frame.fill tree').numNodes = (frame.fill tree).numNodes := by
      rw [numNodes_fill, numNodes_fill, same]
    obtain ⟨potentials, sizes⟩ := inductionHypothesis filled
    refine ⟨?_, sizes⟩
    rw [potential_fill, potential_fill, rank_congr filled] at potentials
    rw [plug_cons, plug_cons]
    linarith

/-- The rotations of a splay, one for every frame, are paid for by the potential that they take
out of the tree, up to what is logarithmic in its size. -/
theorem potential_splay (context : Context Node) {tree : BinaryTree Node}
    (nonempty : tree ≠ .nil) :
    potential (splay context tree) + context.length ≤
      potential (plug context tree) + 3 * (rank (plug context tree) - rank tree) + 1 := by
  induction context using List.twoStepInduction generalizing tree with
  | nil =>
    rw [splay, plug_nil, sub_self, mul_zero, List.length_nil, Nat.cast_zero]
    linarith
  | singleton frame =>
    obtain ⟨near, node, far, rfl⟩ := exists_join frame.side nonempty
    have rotated := potential_rotate frame near far node
    have grown : rank (join frame.side near node far) ≤
        rank (frame.fill (join frame.side near node far)) := by
      refine rank_mono ?_
      rw [numNodes_fill]
      omega
    rw [splay, plug_cons, plug_nil, List.length_singleton, Nat.cast_one]
    linarith
  | cons_cons parent grandparent rest inductionHypothesis _ =>
    have first := potential_rotateTwice parent grandparent nonempty
    have kept : rotateTwice parent grandparent tree ≠ .nil := by
      obtain ⟨near, node, far, rfl⟩ := exists_join .left nonempty
      obtain ⟨left, right, rotated⟩ := exists_rotateTwice parent grandparent node near far
      exact fun empty => by cases rotated.symm.trans empty
    have others := inductionHypothesis kept
    have same : (rotateTwice parent grandparent tree).numNodes =
        (grandparent.fill (parent.fill tree)).numNodes := by
      rw [← length_inorder, inorder_rotateTwice, length_inorder]
    obtain ⟨potentials, sizes⟩ := potential_plug_congr rest same
    rw [rank_congr sizes, rank_congr same] at others
    rw [splay, plug_cons, plug_cons, List.length_cons, List.length_cons, Nat.cast_add, Nat.cast_add,
      Nat.cast_one]
    linarith

/-! ### Leaves put in, and nodes taken out -/

/-- A tree in a hole replaced by one with a node more. -/
theorem potential_plug_succ (context : Context Node) {tree tree' : BinaryTree Node}
    (more : tree'.numNodes = tree.numNodes + 1) :
    potential (plug context tree') - potential tree' ≤
      potential (plug context tree) - potential tree +
        (rank (plug context tree') - rank tree') := by
  induction context generalizing tree tree' with
  | nil =>
    rw [plug_nil, plug_nil]
    linarith
  | cons frame rest inductionHypothesis =>
    have filled : (frame.fill tree').numNodes = (frame.fill tree).numNodes + 1 := by
      rw [numNodes_fill, numNodes_fill, more]
      omega
    have others := inductionHypothesis filled
    have grown : rank tree' ≤ rank (frame.fill tree) := by
      refine rank_mono ?_
      rw [numNodes_fill]
      omega
    rw [potential_fill, potential_fill] at others
    rw [plug_cons, plug_cons]
    linarith

/-- A leaf brings at most the rank of the tree. -/
theorem potential_leaf (context : Context Node) (node : Node) :
    potential (plug context (.node node .nil .nil)) ≤
      potential (plug context .nil) + rank (plug context (.node node .nil .nil)) := by
  have grown := @potential_plug_succ _ context .nil (.node node .nil .nil) rfl
  have leaf : potential (.node node .nil .nil) = rank (.node node .nil .nil) := by
    rw [potential, potential, add_zero, add_zero]
  rw [leaf, show potential (.nil : BinaryTree Node) = 0 from rfl] at grown
  linarith

/-- A tree in a hole replaced by one that is smaller and has less potential. -/
theorem potential_plug_mono (context : Context Node) {tree tree' : BinaryTree Node}
    (fewer : tree'.numNodes ≤ tree.numNodes) (less : potential tree' ≤ potential tree) :
    (plug context tree').numNodes ≤ (plug context tree).numNodes ∧
      potential (plug context tree') ≤ potential (plug context tree) := by
  induction context generalizing tree tree' with
  | nil => exact ⟨fewer, less⟩
  | cons frame rest inductionHypothesis =>
    have filled : (frame.fill tree').numNodes ≤ (frame.fill tree).numNodes := by
      rw [numNodes_fill, numNodes_fill]
      omega
    have ranks := rank_mono filled
    refine inductionHypothesis filled ?_
    rw [potential_fill, potential_fill]
    linarith

theorem potential_nonneg (tree : BinaryTree Node) : 0 ≤ potential tree := by
  induction tree with
  | nil => exact le_refl 0
  | node node left right leftHypothesis rightHypothesis =>
    exact add_nonneg (rank_nonneg _) (add_nonneg leftHypothesis rightHypothesis)

/-- A node without a child on one side takes potential with it. -/
theorem potential_child_le (side : Side) (child : BinaryTree Node) (node : Node) :
    potential child ≤ potential (join side child node .nil) := by
  have ranks := rank_nonneg (join side child node .nil)
  rw [potential_join, show potential (.nil : BinaryTree Node) = 0 from rfl]
  linarith

/-- Taking a node out lowers the potential. -/
theorem potential_removed (context : Context Node) (node : Node) (left right : BinaryTree Node) :
    potential (plug (removed context left right).1 (removed context left right).2) ≤
      potential (plug context (.node node left right)) := by
  match left, right with
  | .nil, right =>
    refine (potential_plug_mono context ?_ (potential_child_le .right right node)).2
    exact (numNodes_join .right right .nil node).symm ▸ Nat.le_succ _
  | .node next near inner, .nil =>
    refine (potential_plug_mono context ?_ (potential_child_le .left _ node)).2
    exact (numNodes_join .left (.node next near inner) .nil node).symm ▸ Nat.le_succ _
  | .node next near inner, .node other outer far =>
    obtain ⟨path, heir, below, found, shape, _⟩ := exists_rightmost [] next near inner
    have lower := @potential_plug_mono _ path (.node heir below .nil) below
      ((numNodes_join .left below .nil heir).symm ▸ Nat.le_succ _)
      (potential_child_le .left below heir)
    rw [← shape] at lower
    rw [removed, found]
    change potential (plug (path ++ [] ++ _) below) ≤ _
    rw [List.append_nil, plug_append]
    refine (potential_plug_mono context ?_ ?_).2
    · rw [numNodes_fill]
      refine (Nat.succ_le_succ (Nat.add_le_add_right lower.1 _)).trans ?_
      exact (numNodes_join .left _ (.node other outer far) node).ge
    · have ranks : rank (Frame.fill ⟨.left, heir, .node other outer far⟩ (plug path below)) ≤
          rank (join .left (.node next near inner) node (.node other outer far)) := by
        refine rank_mono ?_
        rw [numNodes_fill, numNodes_join]
        exact Nat.succ_le_succ (Nat.add_le_add_right lower.1 _)
      rw [potential_fill]
      change _ ≤ potential (join .left (.node next near inner) node (.node other outer far))
      rw [potential_join]
      linarith [lower.2]

/-- The splay behind a deletion is paid for as well. -/
theorem potential_splayAbove (context : Context Node) (node : Node)
    (left right : BinaryTree Node) :
    potential (splayAbove (removed context left right)) +
        ((removed context left right).1.length - 1 : ℕ) ≤
      potential (plug context (.node node left right)) +
        3 * rank (plug context (.node node left right)) + 1 := by
  have taken := potential_removed context node left right
  have fewer := numNodes_removed context node left right
  have ranks : rank (plug (removed context left right).1 (removed context left right).2) ≤
      rank (plug context (.node node left right)) := rank_mono (by omega)
  have positive := rank_nonneg (plug context (.node node left right))
  generalize removed context left right = hole at taken ranks ⊢
  obtain ⟨outer, child⟩ := hole
  cases outer with
  | nil =>
    change potential child + ((0 - 1 : ℕ) : ℝ) ≤ _
    change potential child ≤ _ at taken
    rw [Nat.zero_sub, Nat.cast_zero]
    linarith
  | cons frame rest =>
    have nonempty : frame.fill child ≠ .nil := fun empty => by
      have counted := numNodes_fill frame child
      rw [empty] at counted
      cases counted
    have splayed := potential_splay rest nonempty
    have low := rank_nonneg (frame.fill child)
    change potential (splay rest (frame.fill child)) + ((rest.length + 1 - 1 : ℕ) : ℝ) ≤ _
    change potential (plug rest (frame.fill child)) ≤ _ at taken
    change rank (plug rest (frame.fill child)) ≤ _ at ranks
    rw [Nat.add_sub_cancel]
    linarith

end BottomUp
