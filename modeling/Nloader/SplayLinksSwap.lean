/-
This file proves what `SwapSplayLinks` does: two nodes of a tree exchange their places, with
all links to them and of them. The links of the two nodes are written out on top of the memory
of the others, which change where they are a parent or a child of one of the two. What the
function leaves is the memory in which the two addresses are renamed into each other.
-/

import Nloader.SplayLinksTurns

namespace Nloader.SplayLinks

open Outcome TreePath TreeContext RootedTree
open Splay (Address Fault deref write)

/-! ### Two nodes written out -/

/-- The memory in which the links of two nodes are written out. -/
def pair (links : Links) (a b : Address) (cellA cellB : RtlSplayLinks) : Links :=
  Function.update (Function.update links b (some cellB)) a (some cellA)

/-- The side that a flag of the source stands for. -/
def flagSide (isLeft : Bool) : Side := if isLeft then .left else .right

section Statements

variable {links : Links} {here there : Address} {cell : RtlSplayLinks} {side : Side}

/-- A change that changes nothing. -/
theorem change_id (held : links here = some cell) {next : RtlSplayLinks → RtlSplayLinks}
    (same : next cell = cell) : change links here next = links := by
  unfold change
  rw [held, Option.map_some, same, ← held, Function.update_eq_self]

theorem insertOn_eq (mapped : (links here).isSome) (mapped' : (links there).isSome)
    (isLeft : Bool) :
    insertOn links (some here) (some there) isLeft =
      .ok (change (change links here fun cell => cell.withChild (flagSide isLeft) (some there))
        there fun cell => cell.withParent (some here)) := by
  have stored : ∀ side, rtlInsertAsChild links (some here) (some there) side =
      .ok (change (change links here fun cell => cell.withChild side (some there))
        there fun cell => cell.withParent (some here)) := fun side => by
    rw [rtlInsertAsChild, setChild, write_place, if_pos mapped, ok_bind, setParent, write_place,
      isSome_change, if_pos mapped']
  cases isLeft <;> exact stored _

/-- A child that is there already only gets its parent. -/
theorem fixupChild_eq (held : links here = some cell) (mapped : Mapped links (cell.child side)) :
    fixupChild links (some here) side =
      .ok (RootedTree.adopt links (cell.child side) here) := by
  rw [fixupChild, rtlChild_eq held, ok_bind]
  cases points : cell.child side with
  | none => rfl
  | some child =>
    have same : change links here (fun cell => cell.withChild side (some child)) = links := by
      refine change_id held ?_
      rw [← points]
      cases side <;> rfl
    rw [if_pos (Option.some_ne_none child), rtlInsertAsChild, setChild_eq held, ok_bind, same,
      setParent, write_place, if_pos (mapped child points)]
    rfl

end Statements

theorem link_right (parent : Address) (left right : Option Address) :
    (link .left parent left right).child .right = right := rfl

section Pairs

variable {links : Links} {a b here : Address} {cellA cellB : RtlSplayLinks}

theorem pair_a : pair links a b cellA cellB a = some cellA := Function.update_self _ _ _

theorem change_a (next : RtlSplayLinks → RtlSplayLinks) :
    change (pair links a b cellA cellB) a next = pair links a b (next cellA) cellB :=
  change_update_same _ _ _ _

theorem pair_b (apart : a ≠ b) : pair links a b cellA cellB b = some cellB := by
  rw [pair, Function.update_of_ne apart.symm, Function.update_self]

theorem change_b (apart : a ≠ b) (next : RtlSplayLinks → RtlSplayLinks) :
    change (pair links a b cellA cellB) b next = pair links a b cellA (next cellB) := by
  rw [pair, change_update apart.symm, change_update_same]
  rfl

theorem change_pair (notA : here ≠ a) (notB : here ≠ b) (next : RtlSplayLinks → RtlSplayLinks) :
    change (pair links a b cellA cellB) here next =
      pair (change links here next) a b cellA cellB := by
  rw [pair, change_update notA, change_update notB]
  rfl

theorem adopt_pair {child : Option Address} (notA : child ≠ some a) (notB : child ≠ some b)
    (parent : Address) :
    RootedTree.adopt (pair links a b cellA cellB) child parent =
      pair (RootedTree.adopt links child parent) a b cellA cellB := by
  rw [pair, adopt_update notA, adopt_update notB]
  rfl

theorem mapped_pair {child : Option Address} (mapped : Mapped links child) :
    Mapped (pair links a b cellA cellB) child :=
  (mapped.update b cellB).update a cellA

theorem pair_elsewhere (notA : here ≠ a) (notB : here ≠ b) :
    pair links a b cellA cellB here = links here := by
  rw [pair, Function.update_of_ne notA, Function.update_of_ne notB]

theorem pair_self (heldA : links a = some cellA) (heldB : links b = some cellB) :
    pair links a b cellA cellB = links := by
  rw [pair, ← heldB, Function.update_eq_self, ← heldA, Function.update_eq_self]

/-- Under the links of the two nodes, only those of the other ones count. -/
theorem pair_congr {links' : Links}
    (agree : ∀ here, here ≠ a → here ≠ b → links' here = links here) :
    pair links' a b cellA cellB = pair links a b cellA cellB := by
  funext here
  by_cases atA : here = a
  · rw [atA, pair_a, pair_a]
  · by_cases atB : here = b
    · rw [pair, pair, Function.update_of_ne atA, Function.update_of_ne atA, atB,
        Function.update_self, Function.update_self]
    · rw [pair_elsewhere atA atB, pair_elsewhere atA atB, agree here atA atB]

/-- A child of the second node, which may be the first one below it. -/
theorem adopt_pair_b {child : Option Address} (notB : child ≠ some b)
    (parented : child = some a → cellA.parent = some b) :
    RootedTree.adopt (pair links a b cellA cellB) child b =
      pair (RootedTree.adopt links child b) a b cellA cellB := by
  by_cases atA : child = some a
  · have same : cellA.withParent (some b) = cellA := by rw [← parented atA]; rfl
    rw [atA]
    change change _ a _ = pair (change links a _) a b cellA cellB
    rw [change_a, same]
    exact (pair_congr fun here notA _ => change_elsewhere notA).symm
  · exact adopt_pair atA notB b

end Pairs

/-! ### The places of two nodes -/

theorem Mapped.change {links : Links} {pointer : Option Address} (mapped : Mapped links pointer)
    (there : Address) (next : RtlSplayLinks → RtlSplayLinks) :
    Mapped (RootedTree.change links there next) pointer :=
  fun here points => by
    rw [isSome_change]
    exact mapped here points

theorem Mapped.adopt {links : Links} {pointer : Option Address} (mapped : Mapped links pointer)
    (child : Option Address) (parent : Address) :
    Mapped (RootedTree.adopt links child parent) pointer :=
  (mapped_adopt _ _ _).mpr mapped

theorem Mapped.hung {links : Links} {pointer : Option Address} (mapped : Mapped links pointer)
    (above : Option Address) (hangs : Side) (child : Option Address) :
    Mapped (RootedTree.hung links above hangs child) pointer := by
  cases above with
  | none => exact mapped
  | some here => exact mapped.change here _

/-- Two nodes as `SwapSplayLinks` finds them: their links, with their parents, the sides on which
they hang there, and their children. The first one may be the root; the second one is neither
the root nor the parent of the first one. -/
structure TwoNodes (links : Links) (a b : Address) (aboveA : Option Address) (parentB : Address)
    (leftA leftB : Bool) (childA childB : Side → Option Address) : Prop where
  apart : a ≠ b
  heldA : links a = some (link .left (aboveA.getD a) (childA .left) (childA .right))
  heldB : links b = some (link .left parentB (childB .left) (childB .right))
  aboveApart : aboveA ≠ some a ∧ aboveA ≠ some b
  parentApart : parentB ≠ b
  hangsA : ∀ here, aboveA = some here →
    ∃ cell, links here = some cell ∧ (cell.child .left = some a ↔ leftA = true)
  rootLeft : aboveA = none → leftA = false
  hangsB : ∃ cell, links parentB = some cell ∧ (cell.child .left = some b ↔ leftB = true)
  mappedA : ∀ side, Mapped links (childA side)
  mappedB : ∀ side, Mapped links (childB side)
  childrenA : ∀ side, childA side ≠ some a ∧
    (childA side = some b ↔ parentB = a ∧ flagSide leftB = side)
  childrenB : ∀ side, childB side ≠ some a ∧ childB side ≠ some b

/-- The memory of the other nodes behind the swap. -/
def swappedOthers (links : Links) (a b : Address) (aboveA aboveB : Option Address)
    (leftA leftB : Bool) (childA childB : Side → Option Address) : Links :=
  let links := RootedTree.adopt links (childB .left) a
  let links := RootedTree.adopt links (childB .right) a
  let links := hung links aboveB (flagSide leftB) (some a)
  let links := RootedTree.adopt links (childA .left) b
  let links := RootedTree.adopt links (childA .right) b
  hung links aboveA (flagSide leftA) (some b)

section Swap

variable {links : Links} {a b : Address} {aboveA : Option Address} {parentB : Address}
  {leftA leftB : Bool} {childA childB : Side → Option Address}

theorem TwoNodes.isRootA (nodes : TwoNodes links a b aboveA parentB leftA leftB childA childB) :
    rtlIsRoot links (some a) = .ok aboveA.isNone := by
  rw [rtlIsRoot_eq nodes.heldA, link_parent]
  have apart := nodes.aboveApart.1
  cases aboveA with
  | none => exact congrArg Except.ok (decide_eq_true rfl)
  | some above => exact congrArg Except.ok (decide_eq_false apart)

theorem TwoNodes.isLeftA (nodes : TwoNodes links a b aboveA parentB leftA leftB childA childB) :
    rtlIsChild links (some a) .left = .ok leftA := by
  rw [rtlIsChild, rtlParent_eq nodes.heldA, ok_bind, link_parent]
  cases above : aboveA with
  | none =>
    have held := nodes.heldA
    rw [above] at held
    change rtlChild links (some a) .left >>= _ = _
    rw [rtlChild_eq held, ok_bind, pure_eq, link_child,
      decide_eq_false (nodes.childrenA .left).1, nodes.rootLeft above]
  | some here =>
    obtain ⟨cell, found, hangs⟩ := nodes.hangsA here above
    change rtlChild links (some here) .left >>= _ = _
    rw [rtlChild_eq found, ok_bind, pure_eq]
    simp only [hangs, Bool.decide_eq_true]

theorem TwoNodes.isLeftB (nodes : TwoNodes links a b aboveA parentB leftA leftB childA childB) :
    rtlIsChild links (some b) .left = .ok leftB := by
  obtain ⟨cell, found, hangs⟩ := nodes.hangsB
  rw [rtlIsChild, rtlParent_eq nodes.heldB, ok_bind, link_parent, rtlChild_eq found, ok_bind,
    pure_eq]
  simp only [hangs, Bool.decide_eq_true]

/-- `*LinkB = Ta`. -/
theorem TwoNodes.storeB (nodes : TwoNodes links a b aboveA parentB leftA leftB childA childB)
    (ta : RtlSplayLinks) :
    write links (some b) (fun _ => ta) = .ok (pair links a b
      (link .left (aboveA.getD a) (childA .left) (childA .right)) ta) := by
  conv_lhs => rw [← pair_self nodes.heldA nodes.heldB]
  rw [write_place, pair_b nodes.apart, if_pos Option.isSome_some, change_b nodes.apart]

/-- `*LinkA = Tb`. -/
theorem storeA (memory : Links) (cellA cellB tb : RtlSplayLinks) :
    write (pair memory a b cellA cellB) (some a) (fun _ => tb) =
      .ok (pair memory a b tb cellB) := by
  rw [write_place, pair_a, if_pos Option.isSome_some, change_a]

theorem TwoNodes.mappedAbove
    (nodes : TwoNodes links a b aboveA parentB leftA leftB childA childB) : Mapped links aboveA :=
  fun here above => by
    obtain ⟨cell, found, _⟩ := nodes.hangsA here above
    rw [found]
    rfl

/-! ### The children and the parents -/

/-- `FixupChildLinks` on the first node, which has got the links of the second one. -/
theorem fixup_a {memory : Links} {cellB : RtlSplayLinks} {parent : Address}
    {left right : Option Address} (leftAway : left ≠ some a ∧ left ≠ some b)
    (rightAway : right ≠ some a ∧ right ≠ some b) (mapped : Mapped memory left)
    (mapped' : Mapped memory right) :
    fixupChildLinks (pair memory a b (link .left parent left right) cellB) (some a) false leftB =
      insertOn (pair (RootedTree.adopt (RootedTree.adopt memory left a) right a) a b
        (link .left parent left right) cellB) (some parent) (some a) leftB := by
  have second : Mapped (RootedTree.adopt memory left a) right :=
    (mapped_adopt _ _ _).mpr mapped'
  unfold fixupChildLinks
  rw [fixupChild_eq pair_a (mapped_pair mapped), ok_bind, link_child,
    adopt_pair leftAway.1 leftAway.2, fixupChild_eq pair_a (mapped_pair second), ok_bind,
    link_right, adopt_pair rightAway.1 rightAway.2, if_neg Bool.false_ne_true,
    rtlParent_eq pair_a, ok_bind, link_parent]

/-- The place above the first node references the second one instead. -/
theorem TwoNodes.hungA (nodes : TwoNodes links a b aboveA parentB leftA leftB childA childB)
    (cellA : RtlSplayLinks) (left right : Option Address) :
    insertUnlessRoot (pair links a b cellA (link .left (aboveA.getD a) left right)) aboveA.isNone
        (link .left (aboveA.getD a) left right).parent (some b) leftA =
      .ok (pair (hung links aboveA (flagSide leftA) (some b)) a b cellA
        (link .left (aboveA.getD a) left right)) := by
  obtain ⟨notA, notB⟩ := nodes.aboveApart
  have mapped := nodes.mappedAbove
  cases aboveA with
  | none => rfl
  | some here =>
    have notA : here ≠ a := fun same => notA (congrArg some same)
    have notB : here ≠ b := fun same => notB (congrArg some same)
    have mappedHere : (pair links a b cellA (link .left here left right) here).isSome := by
      rw [pair_elsewhere notA notB]
      exact mapped here rfl
    have mappedB : (pair links a b cellA (link .left here left right) b).isSome := by
      rw [pair_b nodes.apart]
      rfl
    rw [insertUnlessRoot, Option.isNone_some, if_neg Bool.false_ne_true, link_parent,
      Option.getD_some, insertOn_eq mappedHere mappedB, change_pair notA notB,
      change_b nodes.apart, link_withParent]
    rfl

/-- `FixupChildLinks` on the second node, which has got the links of the first one, and the store
of its parent when it has become the root. -/
theorem fixup_b {memory : Links} {cellA : RtlSplayLinks} {children : Side → Option Address}
    (apart : a ≠ b) (aboveApart : aboveA ≠ some a ∧ aboveA ≠ some b)
    (mappedAbove : Mapped memory aboveA) (away : ∀ side, children side ≠ some b)
    (parented : ∀ side, children side = some a → cellA.parent = some b)
    (mapped : ∀ side, Mapped memory (children side)) :
    (fixupChildLinks (pair memory a b cellA
        (link .left (aboveA.getD a) (children .left) (children .right))) (some b) aboveA.isNone
        leftA >>= fun links =>
      if aboveA.isNone then setParent links (some b) (some b) else pure links) =
      .ok (pair (hung (RootedTree.adopt (RootedTree.adopt memory (children .left) b)
          (children .right) b) aboveA (flagSide leftA) (some b)) a b cellA
        (link .left (aboveA.getD b) (children .left) (children .right))) := by
  have second : Mapped (RootedTree.adopt memory (children .left) b) (children .right) :=
    (mapped_adopt _ _ _).mpr (mapped .right)
  have above : Mapped (RootedTree.adopt (RootedTree.adopt memory (children .left) b)
      (children .right) b) aboveA := (mapped_adopt _ _ _).mpr ((mapped_adopt _ _ _).mpr mappedAbove)
  unfold fixupChildLinks
  rw [fixupChild_eq (pair_b apart) (mapped_pair (mapped .left)), ok_bind, link_child,
    adopt_pair_b (away .left) (parented .left),
    fixupChild_eq (pair_b apart) (mapped_pair second), ok_bind, link_right,
    adopt_pair_b (away .right) (parented .right)]
  generalize RootedTree.adopt (RootedTree.adopt memory (children .left) b) (children .right) b =
    memory at above ⊢
  cases aboveA with
  | none =>
    exact (setParent_eq (pair_b apart) _).trans (congrArg Except.ok (change_b apart _))
  | some here =>
    have notA : here ≠ a := fun same => aboveApart.1 (congrArg some same)
    have notB : here ≠ b := fun same => aboveApart.2 (congrArg some same)
    have mappedHere : (pair memory a b cellA
        (link .left here (children .left) (children .right)) here).isSome := by
      rw [pair_elsewhere notA notB]
      exact above here rfl
    have mappedB : ∀ cellB, (pair memory a b cellA cellB b).isSome := fun cellB => by
      rw [pair_b apart]
      rfl
    rw [Option.isNone_some, if_neg Bool.false_ne_true, rtlParent_eq (pair_b apart), ok_bind,
      link_parent, Option.getD_some, insertOn_eq mappedHere (mappedB _), ok_bind,
      if_neg Bool.false_ne_true,
      change_pair notA notB, change_b apart, link_withParent]
    rfl

/-- The two nodes are apart: neither is the parent of the other one. -/
theorem swapLinks_apart (nodes : TwoNodes links a b aboveA parentB leftA leftB childA childB)
    (notParent : parentB ≠ a) :
    swapLinks links (some a) (some b) =
      .ok (pair (swappedOthers links a b aboveA (some parentB) leftA leftB childA childB) a b
        (link .left parentB (childB .left) (childB .right))
        (link .left (aboveA.getD b) (childA .left) (childA .right))) := by
  have awayB := nodes.childrenB
  have mappedB := nodes.mappedB
  have notBelow : ∀ side, childA side ≠ some b := fun side points =>
    notParent (((nodes.childrenA side).2.mp points).1)
  obtain ⟨cell, found, _⟩ := nodes.hangsB
  unfold swapLinks
  rw [Splay.deref_eq nodes.heldA, ok_bind, Splay.deref_eq nodes.heldB, ok_bind, nodes.isRootA,
    ok_bind, nodes.isLeftA, ok_bind, nodes.isLeftB, ok_bind, nodes.storeB, ok_bind, storeA, ok_bind,
    if_neg (by simpa using notParent), pure_eq, ok_bind]
  beta_reduce
  rw [fixup_a (awayB .left) (awayB .right) (mappedB .left) (mappedB .right)]
  have mappedParent : (pair (RootedTree.adopt (RootedTree.adopt links (childB .left) a)
      (childB .right) a) a b (link .left parentB (childB .left) (childB .right))
      (link .left (aboveA.getD a) (childA .left) (childA .right)) parentB).isSome := by
    rw [pair_elsewhere notParent nodes.parentApart, isSome_adopt, isSome_adopt, found]
    rfl
  have mappedA : ∀ memory cellA cellB, (pair memory a b cellA cellB a).isSome := fun _ _ _ => by
    rw [pair_a]
    rfl
  rw [insertOn_eq mappedParent (mappedA _ _ _), ok_bind, change_pair notParent nodes.parentApart,
    change_a, link_withParent]
  refine fixup_b nodes.apart nodes.aboveApart ?_ notBelow
    (fun side points => absurd points (nodes.childrenA side).1) fun side => ?_
  · exact (((nodes.mappedAbove.adopt _ _).adopt _ _).change _ _)
  · exact ((((nodes.mappedA side).adopt _ _).adopt _ _).change _ _)

/-- The first node is the parent of the second one. -/
theorem swapLinks_parent (nodes : TwoNodes links a b aboveA a leftA leftB childA childB) :
    ∃ memory, swapLinks links (some a) (some b) = .ok (pair memory a b
        (link .left b (childB .left) (childB .right))
        ((link .left (aboveA.getD b) (childA .left) (childA .right)).withChild (flagSide leftB)
          (some a))) ∧
      ∀ here, here ≠ a → here ≠ b →
        memory here = swappedOthers links a b aboveA (some a) leftA leftB childA childB here := by
  have awayB := nodes.childrenB
  have mappedB := nodes.mappedB
  unfold swapLinks
  rw [Splay.deref_eq nodes.heldA, ok_bind, Splay.deref_eq nodes.heldB, ok_bind, nodes.isRootA,
    ok_bind, nodes.isLeftA, ok_bind, nodes.isLeftB, ok_bind, nodes.storeB, ok_bind, storeA, ok_bind,
    if_pos (link_parent _ _ _ _), nodes.hungA, ok_bind]
  have heldA : ∀ memory cellA cellB, (pair memory a b cellA cellB a).isSome := fun _ _ _ => by
    rw [pair_a]
    rfl
  have heldB : ∀ memory cellA cellB, (pair memory a b cellA cellB b).isSome := fun _ _ _ => by
    rw [pair_b nodes.apart]
    rfl
  rw [insertOn_eq (heldB _ _ _) (heldA _ _ _), change_b nodes.apart, change_a, link_withParent,
    ok_bind]
  beta_reduce
  rw [fixup_a (awayB .left) (awayB .right) ((mappedB .left).hung _ _ _)
    ((mappedB .right).hung _ _ _), insertOn_eq (heldB _ _ _) (heldA _ _ _), change_b nodes.apart,
    change_a, link_withParent, ok_bind]
  let children : Side → Option Address :=
    fun side => if flagSide leftB = side then some a else childA side
  have cellB : ∀ parent, ((link .left parent (childA .left) (childA .right)).withChild
      (flagSide leftB) (some a)) = link .left parent (children .left) (children .right) := by
    intro parent
    cases leftB <;> rfl
  have again : ∀ parent, (link .left parent (children .left) (children .right)).withChild
      (flagSide leftB) (some a) = link .left parent (children .left) (children .right) := by
    intro parent
    cases leftB <;> rfl
  have mapped : ∀ side, Mapped links (children side) := by
    intro side
    unfold children
    split
    · intro here points
      cases points
      rw [nodes.heldA]
      rfl
    · exact nodes.mappedA side
  have away : ∀ side, children side ≠ some b := by
    intro side
    unfold children
    split
    · exact fun same => nodes.apart (Option.some_injective _ same)
    · rename_i other
      exact fun points => other ((nodes.childrenA side).2.mp points).2
  rw [cellB, cellB, again]
  refine ⟨_, fixup_b nodes.apart nodes.aboveApart (((nodes.mappedAbove.hung _ _ _).adopt _ _).adopt
    _ _) away (fun _ _ => rfl) (fun side => (((mapped side).hung _ _ _).adopt _ _).adopt _ _), ?_⟩
  intro here notA notB
  have same : ∀ side, children side = some here ↔ childA side = some here := by
    intro side
    unfold children
    split
    · rename_i below
      rw [(nodes.childrenA side).2.mpr ⟨rfl, below⟩]
      exact iff_of_false (fun same => notA (Option.some_injective _ same).symm)
        (fun same => notB (Option.some_injective _ same).symm)
    · rfl
  unfold swappedOthers
  have notHere : some a ≠ some here := fun same => notA (Option.some_injective _ same).symm
  simp only [hung_apply, adopt_apply, same, notHere, if_false]
  -- The place above is written twice, before and behind the stores of the parents.
  by_cases above : aboveA = some here
  · simp only [if_pos above]
    split_ifs <;> simp only [Option.map_map] <;>
      refine congrArg (fun next => Option.map next _) ?_ <;> funext cell <;> cases leftA <;> rfl
  · simp only [if_neg above]

end Swap

/-! ### The swap in a tree -/

section Trees

variable {links : Links} {tree : BinaryTree Address} {a b : Address} {aboveA : Option Address}
  {parentB : Address} {leftA leftB : Bool} {childA childB : Side → Option Address}

/-- A node other than the two that are swapped, with what it knows of them. -/
structure Bystander (here a b : Address) (cell : RtlSplayLinks) (aboveA : Option Address)
    (parentB : Address) (leftA leftB : Bool) (childA childB : Side → Option Address) : Prop where
  belowA : cell.parent = some a ↔ childA .left = some here ∨ childA .right = some here
  belowB : cell.parent = some b ↔ childB .left = some here ∨ childB .right = some here
  hasA : ∀ side, cell.child side = some a ↔ aboveA = some here ∧ flagSide leftA = side
  hasB : ∀ side, cell.child side = some b ↔ parentB = here ∧ flagSide leftB = side

theorem map_swap (pointer : Option Address) : pointer.map (Equiv.swap a b) =
    if pointer = some a then some b else if pointer = some b then some a else pointer := by
  cases pointer with
  | none => rfl
  | some here =>
    rw [Option.map_some, Equiv.swap_apply_def]
    simp only [Option.some.injEq]
    split_ifs <;> rfl

theorem map_link (rename : Address → Address) (side : Side) (parent : Address)
    (near far : Option Address) : (link side parent near far).map rename =
      link side (rename parent) (near.map rename) (far.map rename) := by
  cases side <;> rfl

theorem adopt_map (links : Links) (child : Option Address) (parent here : Address) :
    RootedTree.adopt links child parent here = (links here).map fun cell =>
      if child = some here then cell.withParent (some parent) else cell := by
  rw [adopt_apply]
  split
  · rfl
  · exact (congrFun Option.map_id _).symm

theorem hung_map (links : Links) (above : Option Address) (hangs : Side) (child : Option Address)
    (here : Address) :
    hung links above hangs child here = (links here).map fun cell =>
      if above = some here then cell.withChild hangs child else cell := by
  rw [hung_apply]
  split
  · rfl
  · exact (congrFun Option.map_id _).symm

section Fields

variable (condition : Prop) [Decidable condition] (cell : RtlSplayLinks) (side other : Side)
  (value : Option Address)

theorem parent_adopted : (if condition then cell.withParent value else cell).parent =
    if condition then value else cell.parent := by
  split <;> rfl

theorem child_adopted : (if condition then cell.withParent value else cell).child side =
    cell.child side := by
  split <;> rfl

theorem parent_hung :
    (if condition then cell.withChild side value else cell).parent = cell.parent := by
  split
  · cases side <;> rfl
  · rfl

theorem child_hung : (if condition then cell.withChild side value else cell).child other =
    if condition ∧ side = other then value else cell.child other := by
  cases side <;> cases other <;> split <;> simp [*] <;> rfl

end Fields

/-- The links of a bystander are renamed. -/
theorem swappedOthers_eq {here : Address} {cell : RtlSplayLinks} (apart : a ≠ b)
    (found : links here = some cell)
    (bystander : Bystander here a b cell aboveA parentB leftA leftB childA childB) :
    swappedOthers links a b aboveA (some parentB) leftA leftB childA childB here =
      some (cell.map (Equiv.swap a b)) := by
  obtain ⟨belowA, belowB, hasA, hasB⟩ := bystander
  unfold swappedOthers
  simp only [hung_map, adopt_map, found, Option.map_some]
  have fields : ∀ cell cell' : RtlSplayLinks, cell.parent = cell'.parent →
      (∀ side, cell.child side = cell'.child side) → cell = cell' := by
    rintro ⟨parent, left, right⟩ ⟨parent', left', right'⟩ parents children
    cases parents
    cases children .left
    cases children .right
    rfl
  refine congrArg some (fields _ _ ?_ fun side => ?_)
  · simp only [parent_hung, parent_adopted]
    rw [show (cell.map (Equiv.swap a b)).parent = cell.parent.map (Equiv.swap a b) from rfl,
      map_swap]
    simp only [belowA, belowB]
    split_ifs <;> simp_all
  · simp only [child_hung, child_adopted]
    rw [show (cell.map (Equiv.swap a b)).child side = (cell.child side).map (Equiv.swap a b) by
      cases side <;> rfl, map_swap]
    simp only [hasA, hasB, Option.some.injEq]

/-- How a node of a tree hangs: the place above it, unless it is the root, and whether it is the
left child there. -/
structure Hanging (links : Links) (tree : BinaryTree Address) (node : Address)
    (above : Option Address) (isLeft : Bool) : Prop where
  parent : ∃ near far, links node = some (link .left (above.getD node) near far)
  apart : above ≠ some node
  top : above = none → root tree = some node ∧ isLeft = false
  inTree : ∀ here, above = some here → here ∈ inorder tree ∧ root tree ≠ some node
  children : ∀ here ∈ inorder tree, ∀ cell, links here = some cell → ∀ side,
    cell.child side = some node ↔ above = some here ∧ flagSide isLeft = side

/-- Every node hangs in one way. -/
theorem exists_hanging (holds : Holds links tree) {node : Address} (member : node ∈ inorder tree) :
    ∃ above isLeft, Hanging links tree node above isLeft := by
  obtain ⟨own, parent, held, points, place⟩ := holds.parent member
  have written : own = link .left parent own.leftChild own.rightChild := by
    obtain ⟨_, _, _⟩ := own
    cases points
    rfl
  -- Whoever has the node as a child is its parent.
  have only : ∀ here ∈ inorder tree, ∀ cell, links here = some cell → ∀ side,
      cell.child side = some node → here = parent ∧ here ≠ node ∧
        cell.child side.other ≠ some node := by
    intro here inside cell found side below
    obtain ⟨_, apart, other, found', held', parented⟩ := holds.child inside found below
    cases held.symm.trans held'
    exact ⟨Option.some_injective _ (parented.symm.trans points), apart.symm, other⟩
  rcases place with ⟨rfl, top⟩ | ⟨apart, inParent, notTop, upper, side, heldParent, hangs, _⟩
  · refine ⟨none, false, ⟨_, _, written ▸ held⟩, (Option.some_ne_none _).symm, fun _ => ⟨top, rfl⟩,
      fun _ same => absurd same.symm (Option.some_ne_none _), fun here inside cell found side => ?_⟩
    refine iff_of_false (fun below => ?_) (fun both => (Option.some_ne_none _).symm both.1)
    exact (only here inside cell found side below).2.1 (only here inside cell found side below).1
  · refine ⟨some parent, side = .left, ⟨_, _, written ▸ held⟩,
      fun same => apart (Option.some_injective _ same),
      fun same => absurd same (Option.some_ne_none _), fun here same => ?_,
      fun here inside cell found there => ⟨fun below => ?_, ?_⟩⟩
    · cases same
      exact ⟨inParent, notTop⟩
    · obtain ⟨rfl, _, other⟩ := only here inside cell found there below
      cases heldParent.symm.trans found
      refine ⟨rfl, ?_⟩
      cases side <;> cases there <;> first | rfl | exact absurd hangs other
    · rintro ⟨same, sided⟩
      cases same
      cases heldParent.symm.trans found
      cases side <;> cases sided <;> exact hangs

/-- The children of a node are the other nodes that have it as their parent. -/
theorem below_iff (holds : Holds links tree) {node here : Address} {cell : RtlSplayLinks}
    {above : Option Address} {near far : Option Address} (member : node ∈ inorder tree)
    (held : links node = some (link .left (above.getD node) near far))
    (inside : here ∈ inorder tree) (found : links here = some cell) (apart : here ≠ node) :
    cell.parent = some node ↔ near = some here ∨ far = some here := by
  obtain ⟨above', isLeft, hanging⟩ := exists_hanging holds inside
  obtain ⟨near', far', own⟩ := hanging.parent
  cases found.symm.trans own
  have lefts := hanging.children node member _ held .left
  have rights := hanging.children node member _ held .right
  rw [link_child] at lefts
  rw [link_right] at rights
  rw [lefts, rights, link_parent, Option.some_inj]
  cases above' with
  | none => exact iff_of_false apart (fun both => by rcases both with ⟨⟨⟩, _⟩ | ⟨⟨⟩, _⟩)
  | some top => cases isLeft <;> simp [flagSide]

/-- Two nodes of a tree as `SwapSplayLinks` finds them, and the other nodes of it. -/
theorem exists_twoNodes (holds : Holds links tree) (inA : a ∈ inorder tree)
    (inB : b ∈ inorder tree) (apart : a ≠ b) (notRoot : root tree ≠ some b)
    (notParent : ∀ cell, links a = some cell → cell.parent ≠ some b) :
    ∃ aboveA parentB leftA leftB childA childB,
      TwoNodes links a b aboveA parentB leftA leftB childA childB ∧
      (∀ here ∈ inorder tree, here ≠ a → here ≠ b → ∀ cell, links here = some cell →
        Bystander here a b cell aboveA parentB leftA leftB childA childB) ∧
      ∀ here, here ∉ inorder tree → (aboveA ≠ some here ∧ some parentB ≠ some here) ∧
        ∀ side, childA side ≠ some here ∧ childB side ≠ some here := by
  obtain ⟨aboveA, leftA, hangingA⟩ := exists_hanging holds inA
  obtain ⟨aboveB, leftB, hangingB⟩ := exists_hanging holds inB
  obtain ⟨nearA, farA, heldA⟩ := hangingA.parent
  obtain ⟨nearB, farB, heldB⟩ := hangingB.parent
  cases aboveB with
  | none => exact absurd (hangingB.top rfl).1 notRoot
  | some parentB =>
    let childA := (link .left (aboveA.getD a) nearA farA).child
    let childB := (link .left parentB nearB farB).child
    have inside : ∀ side here, childA side = some here → here ∈ inorder tree ∧ here ≠ a :=
      fun side here points => by
        obtain ⟨inTree, apart, _⟩ := holds.child inA heldA points
        exact ⟨inTree, apart⟩
    have inside' : ∀ side here, childB side = some here → here ∈ inorder tree ∧ here ≠ b :=
      fun side here points => by
        obtain ⟨inTree, apart, _⟩ := holds.child inB heldB points
        exact ⟨inTree, apart⟩
    have aboveApart : aboveA ≠ some b := fun same => by
      refine notParent _ heldA ?_
      rw [link_parent, same]
      rfl
    refine ⟨aboveA, parentB, leftA, leftB, childA, childB, ⟨apart, heldA, heldB,
      ⟨hangingA.apart, aboveApart⟩, fun same => hangingB.apart (congrArg some same), ?_,
      fun top => (hangingA.top top).2, ?_, ?_, ?_, ?_, ?_⟩, ?_, ?_⟩
    · intro here above
      obtain ⟨inTree, _⟩ := hangingA.inTree here above
      obtain ⟨cell, found⟩ := Option.isSome_iff_exists.mp (holds.isSome inTree)
      refine ⟨cell, found, (hangingA.children here inTree cell found .left).trans ?_⟩
      cases leftA <;> simp [above, flagSide]
    · obtain ⟨inTree, _⟩ := hangingB.inTree parentB rfl
      obtain ⟨cell, found⟩ := Option.isSome_iff_exists.mp (holds.isSome inTree)
      refine ⟨cell, found, (hangingB.children parentB inTree cell found .left).trans ?_⟩
      cases leftB <;> simp [flagSide]
    · exact fun side here points => holds.isSome (inside side here points).1
    · exact fun side here points => holds.isSome (inside' side here points).1
    · intro side
      refine ⟨fun points => (inside side a points).2 rfl, ?_⟩
      refine (hangingB.children a inA _ heldA side).trans ?_
      rw [Option.some_inj]
    · intro side
      refine ⟨fun points => ?_, fun points => (inside' side b points).2 rfl⟩
      exact aboveApart ((hangingA.children b inB _ heldB side).mp points).1
    · intro here inTree notA notB cell found
      have heldB' : links b = some (link .left ((some parentB).getD b) nearB farB) := heldB
      refine ⟨below_iff holds inA heldA inTree found notA,
        below_iff holds inB heldB' inTree found notB, fun side => ?_, fun side => ?_⟩
      · exact hangingA.children here inTree cell found side
      · refine (hangingB.children here inTree cell found side).trans ?_
        rw [Option.some_inj]
    · intro here outside
      exact ⟨⟨fun same => outside (hangingA.inTree here same).1,
          fun same => outside (hangingB.inTree here same).1⟩,
        fun side => ⟨fun points => outside (inside side here points).1,
          fun points => outside (inside' side here points).1⟩⟩

/-- What the two nodes hold behind the swap: their links, renamed. -/
theorem swapLinks_renamed (nodes : TwoNodes links a b aboveA parentB leftA leftB childA childB) :
    ∃ memory, swapLinks links (some a) (some b) =
      .ok (pair memory a b
        ((link .left parentB (childB .left) (childB .right)).map (Equiv.swap a b))
        ((link .left (aboveA.getD a) (childA .left) (childA .right)).map (Equiv.swap a b))) ∧
      ∀ here, here ≠ a → here ≠ b → memory here =
        swappedOthers links a b aboveA (some parentB) leftA leftB childA childB here := by
  have keptB : ∀ side, (childB side).map (Equiv.swap a b) = childB side := fun side => by
    rw [map_swap, if_neg (nodes.childrenB side).1, if_neg (nodes.childrenB side).2]
  have above : Equiv.swap a b (aboveA.getD a) = aboveA.getD b := by
    cases aboveA with
    | none => exact Equiv.swap_apply_left a b
    | some here =>
      exact Equiv.swap_apply_of_ne_of_ne (fun same => nodes.aboveApart.1 (congrArg some same))
        (fun same => nodes.aboveApart.2 (congrArg some same))
  rw [map_link, map_link, keptB, keptB, above]
  by_cases parent : parentB = a
  · subst parent
    obtain ⟨memory, ran, agree⟩ := swapLinks_parent nodes
    refine ⟨memory, ?_, agree⟩
    have below := nodes.childrenA
    have apart := nodes.apart
    have lefts := (below .left).2
    have rights := (below .right).2
    rw [Equiv.swap_apply_left, ran]
    cases leftB <;> simp_all [flagSide, map_swap, Cell.withChild, link]
  · have keptA : ∀ side, (childA side).map (Equiv.swap a b) = childA side := fun side => by
      rw [map_swap, if_neg (nodes.childrenA side).1,
        if_neg fun below => parent ((nodes.childrenA side).2.mp below).1]
    rw [keptA, keptA, Equiv.swap_apply_of_ne_of_ne parent nodes.parentApart]
    exact ⟨_, swapLinks_apart nodes parent, fun _ _ _ => rfl⟩

/-- The swap of two nodes, of which the second one is neither the root nor the parent of the
first one. -/
theorem swapLinks_holds (holds : Holds links tree) (inA : a ∈ inorder tree)
    (inB : b ∈ inorder tree) (apart : a ≠ b) (notRoot : root tree ≠ some b)
    (notParent : ∀ cell, links a = some cell → cell.parent ≠ some b) :
    ∃ links', swapLinks links (some a) (some b) = .ok links' ∧
      Holds links' (tree.map (Equiv.swap a b)) ∧
      AgreeOutside (inorder tree) links links' := by
  obtain ⟨aboveA, parentB, leftA, leftB, childA, childB, nodes, bystanders, outsiders⟩ :=
    exists_twoNodes holds inA inB apart notRoot notParent
  obtain ⟨memory, ran, agree⟩ := swapLinks_renamed nodes
  refine ⟨_, ran, holds.map (Equiv.swap a b).injective fun here inTree => ?_,
    fun here outside => ?_⟩
  · by_cases atA : here = a
    · rw [atA, Equiv.swap_apply_left, pair_b apart, nodes.heldA]
      rfl
    · by_cases atB : here = b
      · rw [atB, Equiv.swap_apply_right, pair_a, nodes.heldB]
        rfl
      · obtain ⟨cell, found⟩ := Option.isSome_iff_exists.mp (holds.isSome inTree)
        rw [Equiv.swap_apply_of_ne_of_ne atA atB, pair_elsewhere atA atB, agree here atA atB,
          swappedOthers_eq apart found (bystanders here inTree atA atB cell found), found]
        rfl
  · have notA : here ≠ a := fun same => outside (same ▸ inA)
    have notB : here ≠ b := fun same => outside (same ▸ inB)
    obtain ⟨⟨notAbove, notParent⟩, notChild⟩ := outsiders here outside
    rw [pair_elsewhere notA notB, agree here notA notB]
    unfold swappedOthers
    rw [hung_elsewhere notAbove, adopt_elsewhere (notChild .right).1,
      adopt_elsewhere (notChild .left).1, hung_elsewhere notParent,
      adopt_elsewhere (notChild .right).2, adopt_elsewhere (notChild .left).2]

/-- `SwapSplayLinks` on two nodes of a tree: the tree with the two exchanged. -/
theorem swapSplayLinks_holds (holds : Holds links tree) (inA : a ∈ inorder tree)
    (inB : b ∈ inorder tree) (apart : a ≠ b) :
    ∃ links', swapSplayLinks links (some a) (some b) = .ok links' ∧
      Holds links' (tree.map (Equiv.swap a b)) ∧ AgreeOutside (inorder tree) links links' := by
  obtain ⟨cellA, parentA, heldA, pointsA, placeA⟩ := holds.parent inA
  obtain ⟨cellB, parentB, heldB, pointsB, placeB⟩ := holds.parent inB
  unfold swapSplayLinks
  rw [rtlParent_eq heldA, ok_bind, pointsA]
  by_cases below : parentA = b
  · -- The second node is the parent of the first one.
    subst below
    rw [if_pos rfl, pure_eq, ok_bind]
    beta_reduce
    rw [if_pos rfl, Equiv.swap_comm]
    rcases placeA with ⟨same, _⟩ | ⟨_, _, notTop, upper, _, heldUpper, _, acyclic⟩
    · exact absurd same.symm apart
    · refine swapLinks_holds holds inB inA apart.symm notTop fun cell held => ?_
      cases held.symm.trans heldUpper
      exact acyclic
  · rw [if_neg fun same => below (Option.some_injective _ same), rtlIsRoot_eq heldB, ok_bind,
      pointsB]
    beta_reduce
    rcases placeB with ⟨same, top⟩ | ⟨notSame, _, notTop, _⟩
    · rw [if_pos (by simp [same]), Equiv.swap_comm]
      refine swapLinks_holds holds inB inA apart.symm (fun other => ?_) fun cell held parented => ?_
      · exact apart (Option.some_injective _ (other.symm.trans top))
      · cases held.symm.trans heldB
        exact apart ((Option.some_injective _ (parented.symm.trans pointsB)).trans same)
    · rw [if_neg (by simpa using notSame)]
      refine swapLinks_holds holds inA inB apart notTop fun cell held parented => ?_
      cases held.symm.trans heldA
      exact below (Option.some_injective _ (pointsA.symm.trans parented))

/-- `SwapSplayLinks` on any two nodes of a tree, next to each other or not: the two exchange their
places, no other link changes, and swapping them again restores the memory. -/
theorem swapSplayLinks_exchanges (holds : Holds links tree) (inA : a ∈ inorder tree)
    (inB : b ∈ inorder tree) (apart : a ≠ b) :
    ∃ links', swapSplayLinks links (some a) (some b) = .ok links' ∧
      Holds links' (tree.map (Equiv.swap a b)) ∧ AgreeOutside (inorder tree) links links' ∧
      swapSplayLinks links' (some a) (some b) = .ok links := by
  obtain ⟨links', ran, holds', agree⟩ := swapSplayLinks_holds holds inA inB apart
  have nodes : inorder (tree.map (Equiv.swap a b)) = (inorder tree).map (Equiv.swap a b) :=
    inorder_map _ _
  have inA' : a ∈ inorder (tree.map (Equiv.swap a b)) := by
    rw [nodes]
    exact List.mem_map.mpr ⟨b, inB, Equiv.swap_apply_right a b⟩
  have inB' : b ∈ inorder (tree.map (Equiv.swap a b)) := by
    rw [nodes]
    exact List.mem_map.mpr ⟨a, inA, Equiv.swap_apply_left a b⟩
  obtain ⟨links'', ran', holds'', agree'⟩ := swapSplayLinks_holds holds' inA' inB' apart
  have twice : (tree.map (Equiv.swap a b)).map (Equiv.swap a b) = tree := by
    rw [← BinaryTree.comp_map]
    exact map_fixed fun node _ => by simp
  refine ⟨links', ran, holds', agree, ?_⟩
  rw [ran']
  refine congrArg Except.ok (funext fun here => ?_)
  by_cases inside : here ∈ inorder tree
  · exact holds.agree (twice ▸ holds'') here inside
  · have outside : here ∉ inorder (tree.map (Equiv.swap a b)) := fun member => by
      rw [nodes] at member
      obtain ⟨other, inTree, rfl⟩ := List.mem_map.mp member
      refine inside ?_
      by_cases atA : other = a
      · rw [atA, Equiv.swap_apply_left]
        exact inB
      · by_cases atB : other = b
        · rw [atB, Equiv.swap_apply_right]
          exact inA
        · rw [Equiv.swap_apply_of_ne_of_ne atA atB]
          exact inTree
    exact (agree' here outside).trans (agree here inside)

end Trees

theorem swapSplayLinks_exchanges_example :
    ∃ links', swapSplayLinks exampleLinks (some 100) (some 300) = .ok links' ∧
      links' 100 = some ⟨some 100, some 200, none⟩ ∧
      swapSplayLinks links' (some 100) (some 300) = .ok exampleLinks := by
  obtain ⟨links', ran, _, _, restored⟩ := swapSplayLinks_exchanges exampleLinks_holds
    (show 100 ∈ inorder exampleTree by decide) (show 300 ∈ inorder exampleTree by decide)
    (by decide)
  refine ⟨links', ran, ?_, restored⟩
  cases ran
  rfl

end Nloader.SplayLinks
