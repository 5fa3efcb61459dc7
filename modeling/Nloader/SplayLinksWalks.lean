/-
This file follows the walks from node to node in a tree of splay links: down to the deepest
node on a side, and from a node to its neighbours in the order. A walk up ends at the root,
which is its own parent without being its own child, so there is nothing in front of the
first node and nothing behind the last one.
-/

import Nloader.SplayLinksTurns

namespace Nloader.SplayLinks

open Outcome TreePath TreeContext RootedTree
open Splay (Address Fault)

variable {links : Links} {side : Side} {context : Context Address} {tree : BinaryTree Address}
  {node : Address}

/-! ### Down -/

/-- The walk down on a side ends at the first node from that side. -/
theorem deepest_eq (side : Side) :
    ∀ (turns : Nat) (context : Context Address) (tree : BinaryTree Address),
      Held links context tree → tree ≠ .nil → tree.numNodes ≤ turns →
        ∃ inner node far, tree = plug inner (join side .nil node far) ∧ beyond side inner = [] ∧
          repeatLoop .outOfTurns (deepestTurn links side) turns (root tree) =
            .ok (some node) := by
  intro turns
  induction turns with
  | zero =>
    intro context tree _ nonempty enough
    obtain ⟨near, node, far, rfl⟩ := exists_join side nonempty
    rw [numNodes_join] at enough
    exact absurd enough (Nat.not_succ_le_zero _)
  | succ turns inductionHypothesis =>
    intro context tree held nonempty enough
    obtain ⟨near, node, far, rfl⟩ := exists_join side nonempty
    rw [numNodes_join] at enough
    rw [root_join]
    by_cases empty : near = .nil
    · subst empty
      refine ⟨[], node, far, rfl, rfl, repeatLoop_leave turns ?_⟩
      rw [deepestTurn, rtlChild_eq (held_node held), ok_bind, link_child]
      exact if_neg (not_not_intro rfl)
    · obtain ⟨inner, first, rest, rfl, nothing, ran⟩ := inductionHypothesis
        (⟨side, node, far⟩ :: context) near (held_cons.mpr held) empty (by omega)
      refine ⟨inner ++ [⟨side, node, far⟩], first, rest, ?_, ?_, ?_⟩
      · rw [plug_append]
        rfl
      · rw [beyond_append, nothing, beyond, if_pos rfl]
        rfl
      · refine (repeatLoop_again turns ?_).trans ran
        rw [deepestTurn, rtlChild_eq (held_node held), ok_bind, link_child]
        exact if_pos fun none => empty (root_eq_none.mp none)

/-- `RtlSubtreePredecessor` and `RtlSubtreeSuccessor` lead to the next node below, on a side. -/
theorem subtreeNeighbour_eq {near far : BinaryTree Address} {turns : Nat}
    (held : Held links context (join side near node far)) (enough : near.numNodes ≤ turns) :
    subtreeNeighbour side turns links (some node) = .ok (walk side.other near).head? := by
  unfold subtreeNeighbour
  rw [rtlChild_eq (held_node held), ok_bind, link_child]
  by_cases empty : near = .nil
  · rw [empty, walk_nil]
    rfl
  · obtain ⟨inner, first, rest, rfl, nothing, ran⟩ := deepest_eq side.other turns
      (⟨side, node, far⟩ :: context) near (held_cons.mpr held) empty enough
    rw [if_neg fun none => empty (root_eq_none.mp none), ran, walk_plug, nothing, walk_join,
      walk_nil]
    rfl

/-! ### Up -/

/-- The end of the walk up, where the node is a child on the other side. -/
def climbEnd (links : Links) (side : Side) (child : Option Address) :
    Except Fault (Option Address) := do
  if ← rtlIsChild links child side.other then rtlParent links child else pure none

/-- The walk up ends at the first node beyond the hole. -/
theorem climb_eq (side : Side) :
    ∀ (context : Context Address) (turns : Nat) (tree : BinaryTree Address) (node : Address),
      Held links context tree → root tree = some node → context.length < turns →
        (repeatLoop .outOfTurns (climbTurn links side) turns (some node) >>= climbEnd links side) =
          .ok (beyond side context).head? := by
  intro context
  induction context with
  | nil =>
    intro turns tree node held points enough
    obtain ⟨turns, rfl⟩ := Nat.exists_eq_add_of_lt enough
    have turned : climbTurn links side (some node) = .ok (.leave (some node)) := by
      rw [climbTurn, rtlIsChild_top held points]
      rfl
    rw [repeatLoop_leave _ turned, ok_bind, climbEnd, rtlIsChild_top held points]
    rfl
  | cons frame rest inductionHypothesis =>
    intro turns tree node held points enough
    obtain ⟨turns, rfl⟩ : ∃ rest, turns = rest + 1 := ⟨turns - 1, by omega⟩
    obtain ⟨_, parent⟩ := rtlIsRoot_held held points
    rw [beyond]
    by_cases same : frame.side = side
    · have turned : climbTurn links side (some node) = .ok (.again (some frame.node)) := by
        rw [climbTurn, rtlIsChild_held held points, ok_bind, if_pos (decide_eq_true same), parent]
        rfl
      rw [if_pos same, repeatLoop_again _ turned]
      exact inductionHypothesis turns (frame.fill tree) frame.node (held_cons.mp held)
        (root_join _ _ _ _) (Nat.lt_of_succ_lt_succ enough)
    · have flipped : frame.side = side.other := by
        cases side <;> cases sided : frame.side <;> first | rfl | exact absurd sided same
      have turned : climbTurn links side (some node) = .ok (.leave (some node)) := by
        rw [climbTurn, rtlIsChild_held held points, ok_bind, decide_eq_false same]
        rfl
      rw [if_neg same, repeatLoop_leave _ turned, ok_bind, climbEnd, rtlIsChild_held held points,
        ok_bind, if_pos (decide_eq_true flipped), parent]
      rfl

/-! ### Neighbours -/

/-- `RtlRealPredecessor` and `RtlRealSuccessor` lead to the next node on a side. -/
theorem realNeighbour_eq {near far : BinaryTree Address} {turns : Nat}
    (held : Held links context (join side near node far))
    (enough : (plug context (join side near node far)).numNodes < turns) :
    realNeighbour side turns links (some node) =
      .ok (walk side.other near ++ beyond side context).head? := by
  have size := length_le_plug context (join side near node far)
  rw [numNodes_join] at size
  unfold realNeighbour
  rw [rtlChild_eq (held_node held), ok_bind, link_child]
  by_cases empty : near = .nil
  · subst empty
    rw [if_neg (not_not_intro (root_eq_none.mpr rfl)), walk_nil]
    exact climb_eq side context turns _ node held (root_join _ _ _ _) (by omega)
  · obtain ⟨inner, first, rest, rfl, nothing, ran⟩ := deepest_eq side.other turns
      (⟨side, node, far⟩ :: context) near (held_cons.mpr held) empty (by omega)
    rw [if_pos fun none => empty (root_eq_none.mp none), ran, walk_plug, nothing, walk_join,
      walk_nil]
    rfl

end Nloader.SplayLinks
