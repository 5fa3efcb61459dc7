/-
This file follows the walks from node to node: down to the deepest node on a side, and from a
node to its neighbour in the order. A walk up leaves the tree at `BalancedRoot`: the root is
its right child, and it is its own parent without being its own child. So the node in front
of the first one is `BalancedRoot`, and the node behind the last one is NULL.
-/

import Nloader.AvlLinks

namespace Nloader.Avl

open Outcome TreePath TreeContext LinkedTree
open PointerTree (pointer Distinct)
open Splay (Element Fault)

variable {Item : Type} {links : Links} {level : Int} {side : Side}

/-- A pointer is NULL where its tree is empty. -/
theorem root_eq_none {tree : BinaryTree (Node Item)} : root tree = none ↔ tree = .nil :=
  PointerTree.pointer_eq_none

/-! ### Down -/

/-- The walk down on a side ends at the first node from that side. -/
theorem deepest_eq (side : Side) :
    ∀ (turns : Nat) (context : Context (Node Item)) (tree : BinaryTree (Node Item)),
      Held links level context tree → tree ≠ .nil → tree.numNodes ≤ turns →
        ∃ inner node far, tree = plug inner (join side .nil node far) ∧ beyond side inner = [] ∧
          repeatLoop .outOfTurns (deepestTurn links side) turns (root tree) =
            .ok (some (nodePlace node)) := by
  intro turns
  induction turns with
  | zero =>
    intro context tree _ nonempty enough
    obtain ⟨near, node, far, rfl⟩ := exists_join side nonempty
    rw [numNodes_join] at enough
    exact absurd enough (Nat.not_succ_le_zero _)
  | succ turns inductionHypothesis =>
    intro context tree held nonempty enough
    obtain ⟨near, node, far, rfl⟩ := exists_join side nonempty
    rw [numNodes_join] at enough
    have turn : deepestTurn links side (root (join side near node far)) =
        if root near ≠ none then .ok (.again (root near))
        else .ok (.leave (some (nodePlace node))) := by
      rw [deepestTurn, root, PointerTree.pointer_join, rtlChild_eq (held_node held), ok_bind,
        link_child]
      rfl
    rw [repeatLoop, turn]
    by_cases empty : near = .nil
    · refine ⟨[], node, far, by rw [empty]; rfl, rfl, ?_⟩
      rw [if_neg (not_not_intro (root_eq_none.mpr empty)), ok_bind]
      rfl
    · obtain ⟨inner, first, rest, rfl, nothing, ran⟩ := inductionHypothesis
        (⟨side, node, far⟩ :: context) near (inMemory_cons.mpr held) empty (by omega)
      refine ⟨inner ++ [⟨side, node, far⟩], first, rest, ?_, ?_, ?_⟩
      · rw [plug_append]
        rfl
      · rw [beyond_append, nothing, beyond, if_pos rfl]
        rfl
      · rw [if_pos (fun none => empty (root_eq_none.mp none)), ok_bind]
        exact ran

/-! ### Up -/

/-- The place of the first of the nodes beyond a hole: there is none behind the last node, and
`BalancedRoot` is in front of the first. -/
def neighbourPlace (side : Side) (nodes : List (Node Item)) : Option Place :=
  match nodes, side with
  | node :: _, _ => some (nodePlace node)
  | [], .left => some .balancedRoot
  | [], .right => none

/-- The end of the walk up, where the node is a child on the other side. -/
def climbEnd (links : Links) (side : Side) (child : Option Place) :
    Except Fault (Option Place) := do
  let isOther ← rtlIsChild links child side.other
  if isOther then rtlParent links child else pure none

/-- `BalancedRoot` is not a child of itself. -/
theorem rtlIsChild_balancedRoot {tree : BinaryTree (Node Item)} (held : Held links level [] tree)
    (side : Side) : rtlIsChild links (some .balancedRoot) side = .ok false := by
  rw [rtlIsChild_eq held.above (link_parent _ _ _ _ _) held.above]
  cases side with
  | left => rfl
  | right =>
    have apart : root tree ≠ some .balancedRoot := fun points => by
      obtain ⟨node, _, same⟩ := exists_of_pointer points
      exact place_ne_balancedRoot node.1 same
    exact congrArg Except.ok (decide_eq_false apart)

theorem climbTurn_root {context : Context (Node Item)} {tree : BinaryTree (Node Item)}
    (held : Held links level context tree) (nonempty : tree ≠ .nil) (side : Side) :
    climbTurn links side (root tree) =
      if hang context = side then .ok (.again (some (above context)))
      else .ok (.leave (root tree)) := by
  rw [climbTurn, rtlIsChild_root held nonempty, ok_bind, rtlParent_root held nonempty, ok_bind]
  by_cases same : hang context = side
  · rw [if_pos (decide_eq_true same), if_pos same]
    rfl
  · rw [if_neg (by rw [decide_eq_false same]; exact nofun), if_neg same]
    rfl

theorem climbEnd_root {context : Context (Node Item)} {tree : BinaryTree (Node Item)}
    (held : Held links level context tree) (nonempty : tree ≠ .nil)
    (hangs : hang context = side.other) :
    climbEnd links side (root tree) = .ok (some (above context)) := by
  rw [climbEnd, rtlIsChild_root held nonempty, ok_bind, rtlParent_root held nonempty,
    if_pos (decide_eq_true hangs)]

/-- The walk up ends at the first node beyond the hole. -/
theorem climb_eq (side : Side) :
    ∀ (context : Context (Node Item)) (turns : Nat) (tree : BinaryTree (Node Item)),
      Held links level context tree → tree ≠ .nil → context.length + 2 ≤ turns →
        (repeatLoop .outOfTurns (climbTurn links side) turns (root tree) >>= climbEnd links side) =
          .ok (neighbourPlace side (beyond side context)) := by
  intro context
  induction context with
  | nil =>
    intro turns tree held nonempty enough
    obtain ⟨turns, rfl⟩ := Nat.exists_eq_add_of_le' enough
    rw [List.length_nil, Nat.zero_add, repeatLoop, climbTurn_root held nonempty]
    cases side with
    | left =>
      rw [if_neg (by simp [hang_nil]), ok_bind]
      exact climbEnd_root held nonempty rfl
    | right =>
      have turn : climbTurn links .right (some .balancedRoot) =
          .ok (.leave (some .balancedRoot)) := by
        rw [climbTurn, rtlIsChild_balancedRoot held]
        rfl
      rw [if_pos hang_nil, ok_bind]
      simp only [above, top_nil]
      rw [repeatLoop, turn, ok_bind]
      change climbEnd links .right (some .balancedRoot) = _
      rw [climbEnd, rtlIsChild_balancedRoot held]
      rfl
  | cons frame rest inductionHypothesis =>
    intro turns tree held nonempty enough
    obtain ⟨turns, rfl⟩ := Nat.exists_eq_add_of_le' enough
    rw [List.length_cons] at enough ⊢
    rw [show turns + (rest.length + 1 + 2) = (turns + (rest.length + 2)) + 1 by omega, repeatLoop,
      climbTurn_root held nonempty, beyond, hang_cons]
    by_cases same : frame.side = side
    · rw [if_pos same, if_pos same, ok_bind]
      have filled : root (frame.fill tree) = some (above (frame :: rest)) := by
        rw [frame.fill_eq, root, PointerTree.pointer_join]
        rfl
      have ran := inductionHypothesis (turns + (rest.length + 2)) (frame.fill tree)
        (inMemory_cons.mp held) (join_ne_nil _ _ _ _) (Nat.le_add_left _ _)
      rw [filled] at ran
      exact ran
    · have flipped : frame.side = side.other := by
        cases side <;> cases sided : frame.side <;> first | rfl | exact absurd sided same
      rw [if_neg same, if_neg same, ok_bind]
      exact climbEnd_root held nonempty flipped

/-! ### Neighbours -/

/-- `RtlRealPredecessor` and `RtlRealSuccessor` lead to the next node on a side. -/
theorem realNeighbour_eq {context : Context (Node Item)} {near far : BinaryTree (Node Item)}
    {node : Node Item} {turns : Nat}
    (held : Held links level context (join side near node far))
    (enough : (plug context (join side near node far)).numNodes < turns) :
    realNeighbour side turns links (some (nodePlace node)) =
      .ok (neighbourPlace side (walk side.other near ++ beyond side context)) := by
  have size := length_le_plug context (join side near node far)
  rw [numNodes_join] at size
  unfold realNeighbour
  rw [rtlChild_eq (held_node held), ok_bind, link_child]
  by_cases empty : near = .nil
  · subst empty
    have climbed := climb_eq side context turns _ held (join_ne_nil _ _ _ _)
      (by rw [BinaryTree.numNodes] at size; omega)
    rw [root, PointerTree.pointer_join] at climbed
    rw [if_neg (not_not_intro (root_eq_none.mpr rfl))]
    rw [walk_nil]
    exact climbed
  · obtain ⟨inner, first, rest, rfl, nothing, ran⟩ := deepest_eq side.other turns
      (⟨side, node, far⟩ :: context) near (inMemory_cons.mpr held) empty (by omega)
    rw [if_pos (fun none => empty (root_eq_none.mp none)), ran, walk_plug, nothing, walk_join,
      walk_nil]
    rfl

end Nloader.Avl
