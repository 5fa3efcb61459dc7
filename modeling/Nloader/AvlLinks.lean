/-
This file proves what promotion and rebalancing do to a tree in memory. Every read and every
store of the source is one lemma on the links; a promotion is then the promotion of the
library of linked trees, and a rebalancing is the rotation of the library of balanced trees
that fits the balances of the node and of its child.
-/

import Nloader.Library.AvlTree
import Nloader.SplayTable
import Nloader.Avl

namespace Nloader.Avl

open Outcome TreePath TreeContext LinkedTree AvlTree
open PointerTree (pointer Distinct)
open Splay (Element Fault deref write deref_eq write_eq)

variable {Item : Type}

/-! ### Nodes in memory -/

/-- A node of a tree: an element, with the balance it carries. -/
abbrev Node (Item : Type) : Type := Element Item × Int

/-- Where the links of an element lie. -/
def place (element : Element Item) : Place := .item element.address

/-- Where the links of a node lie. -/
def nodePlace (node : Node Item) : Place := place node.1

@[simp] theorem nodePlace_mk (element : Element Item) (balance : Int) :
    nodePlace (element, balance) = place element := rfl

theorem place_ne_balancedRoot (element : Element Item) : place element ≠ .balancedRoot := nofun

/-- The links hold a tree in a context, below a `BalancedRoot` with the given balance. -/
abbrev Held (links : Links) (level : Int) (context : Context (Node Item))
    (tree : BinaryTree (Node Item)) : Prop :=
  InMemory nodePlace Prod.snd .balancedRoot links level context tree

/-- The place above a hole. -/
abbrev above (context : Context (Node Item)) : Place := top nodePlace .balancedRoot context

/-- The pointer to a tree. -/
abbrev root (tree : BinaryTree (Node Item)) : Option Place := pointer nodePlace tree

/-! ### Reads and stores -/

section Links

variable {links : Links} {here there : Place} {cell cell' : BalancedLinks} {side : Side}
  {value : Option Place}

theorem rtlParent_eq (held : links here = some cell) :
    rtlParent links (some here) = .ok cell.parent := by
  rw [rtlParent, deref_eq held]
  rfl

theorem rtlChild_eq (held : links here = some cell) :
    rtlChild links (some here) side = .ok (cell.child side) := by
  rw [rtlChild, deref_eq held]
  rfl

theorem rtlBalance_eq (held : links here = some cell) :
    rtlBalance links (some here) = .ok cell.balance := by
  rw [rtlBalance, deref_eq held]
  rfl

theorem rtlIsChild_eq (held : links here = some cell) (parent : cell.parent = some there)
    (held' : links there = some cell') :
    rtlIsChild links (some here) side = .ok (cell'.child side = some here : Bool) := by
  rw [rtlIsChild, rtlParent_eq held, ok_bind, parent, rtlChild_eq held']
  rfl

/-- A store is a change of the memory. -/
theorem write_change (mapped : (links here).isSome) (next : BalancedLinks → BalancedLinks) :
    write links (some here) next = .ok (change links here next) := by
  obtain ⟨cell, held⟩ := Option.isSome_iff_exists.mp mapped
  rw [write_eq held, change, held]
  rfl

theorem setChild_eq (mapped : (links here).isSome) :
    setChild links (some here) side value =
      .ok (change links here fun cell => cell.withChild side value) :=
  write_change mapped _

theorem rtlSetParent_eq (mapped : (links here).isSome) :
    rtlSetParent links (some here) value =
      .ok (change links here fun cell => cell.withParent value) :=
  write_change mapped _

theorem rtlSetBalance_eq (mapped : (links here).isSome) (balance : Int) :
    rtlSetBalance links (some here) balance =
      .ok (change links here fun cell => cell.withBalance balance) :=
  write_change mapped _

theorem adoptChild_eq (mapped : ∀ target, value = some target → (links target).isSome) :
    adoptChild links value (some here) = .ok (adopt links value here) := by
  cases value with
  | none => rfl
  | some target => exact rtlSetParent_eq (mapped target rfl)

@[simp] theorem isSome_change (next : BalancedLinks → BalancedLinks) :
    (change links there next here).isSome = (links here).isSome := by
  by_cases same : here = there
  · rw [same, change_same, Option.isSome_map]
  · rw [change_elsewhere same]

@[simp] theorem isSome_adopt : (adopt links value there here).isSome = (links here).isSome := by
  cases value with
  | none => rfl
  | some target => exact isSome_change _

end Links

/-! ### What the links of a tree hold -/

section Trees

variable {links : Links} {level : Int} {context : Context (Node Item)} {side : Side}
  {near far tree : BinaryTree (Node Item)} {node : Node Item}

/-- The links of the node at the top of a hole. -/
theorem held_node (held : Held links level context (join side near node far)) :
    links (nodePlace node) =
      some (link side (some (above context)) (root near) (root far) node.2) :=
  ((represents_join _ _ _ _ _).mp held.below).1

/-- The tree hangs on one side of the place above it. -/
theorem rtlIsChild_held (held : Held links level context (join side near node far))
    (other : Side) :
    rtlIsChild links (some (nodePlace node)) other = .ok (hang context = other : Bool) := by
  obtain ⟨cell, found, hangs⟩ := held.child_top other (PointerTree.pointer_join side near far node)
  rw [rtlIsChild_eq (held_node held) (link_parent _ _ _ _ _) found]
  simp only [hangs]

/-- The links of the child on a side. -/
theorem held_near {side' : Side} {outer beyond : BinaryTree (Node Item)} {child : Node Item}
    (held : Held links level context (join side (join side' near child beyond) node outer)) :
    links (nodePlace child) =
      some (link side' (some (nodePlace node)) (root near) (root beyond) child.2) := by
  have lower : Held links level (⟨side, node, outer⟩ :: context) (join side' near child beyond) :=
    inMemory_cons.mpr held
  exact held_node lower

/-- The links of the child on the other side. -/
theorem held_far {side' : Side} {outer beyond : BinaryTree (Node Item)} {child : Node Item}
    (held : Held links level context (join side outer node (join side' near child beyond))) :
    links (nodePlace child) =
      some (link side' (some (nodePlace node)) (root near) (root beyond) child.2) := by
  rw [← join_other] at held
  exact held_near held

/-- The tree in a hole hangs on one side of the place above it. -/
theorem rtlIsChild_root (held : Held links level context tree) (nonempty : tree ≠ .nil)
    (side : Side) : rtlIsChild links (root tree) side = .ok (hang context = side : Bool) := by
  obtain ⟨near, node, far, rfl⟩ := exists_join .left nonempty
  rw [root, PointerTree.pointer_join]
  exact rtlIsChild_held held side

theorem rtlParent_root (held : Held links level context tree) (nonempty : tree ≠ .nil) :
    rtlParent links (root tree) = .ok (some (above context)) := by
  obtain ⟨near, node, far, rfl⟩ := exists_join .left nonempty
  rw [root, PointerTree.pointer_join, rtlParent_eq (held_node held), link_parent]

/-- Every node of a tree has links. -/
theorem isSome_of_mem {parent : Place}
    (represents : Represents nodePlace Prod.snd links parent tree) (member : node ∈ inorder tree) :
    (links (nodePlace node)).isSome := by
  induction tree generalizing parent with
  | nil => cases member
  | node other left right leftHypothesis rightHypothesis =>
    obtain ⟨own, lefts, rights⟩ := represents
    rcases List.mem_append.mp member with inLeft | there
    · exact leftHypothesis lefts inLeft
    · rcases List.mem_cons.mp there with rfl | inRight
      · rw [own]
        rfl
      · exact rightHypothesis rights inRight

theorem isSome_root {parent here : Place}
    (represents : Represents nodePlace Prod.snd links parent tree)
    (points : root tree = some here) : (links here).isSome := by
  obtain ⟨node, member, rfl⟩ := exists_of_pointer points
  exact isSome_of_mem represents member

theorem isSome_above {below : Option Place}
    (surrounds : Surrounds nodePlace Prod.snd .balancedRoot links level below context) :
    (links (above context)).isSome := by
  obtain ⟨_, _, _, found⟩ := surrounds.exists_link
  rw [found]
  rfl

/-- The balance of `BalancedRoot`. -/
theorem rtlBalance_balancedRoot (held : Held links level context tree) :
    rtlBalance links (some .balancedRoot) = .ok level := by
  rw [rtlBalance_eq (inMemory_plug.mp held).above, link_balance]

/-- `RtlSetBalance` on `BalancedRoot`. -/
theorem setBalance_balancedRoot (held : Held links level context tree) (value : Int) :
    ∃ links', rtlSetBalance links (some .balancedRoot) value = .ok links' ∧
      Held links' value context tree := by
  refine ⟨_, rtlSetBalance_eq ?_ value, held.setLevel value⟩
  exact isSome_above (inMemory_plug.mp held).above

/-! ### Promotion -/

theorem if_side (side : Side) :
    (if (side = .left : Bool) then Side.left else Side.right) = side := by
  cases side <;> rfl

theorem if_side_other (side : Side) :
    (if (side = .left : Bool) then Side.right else Side.left) = side.other := by
  cases side <;> rfl

/-- `RtlpPromoteAvlTreeNode` promotes the node over its parent. -/
theorem promote_eq {outer inner : BinaryTree (Node Item)} {child : Node Item}
    (held : Held links level context (join side (join side outer child inner) node far)) :
    ∃ links', rtlpPromoteAvlTreeNode links (some (nodePlace child)) = .ok links' ∧
      Held links' level context (join side outer child (join side inner node far)) := by
  refine ⟨_, ?_, held.promote⟩
  have lower : Held links level (⟨side, node, far⟩ :: context) (join side outer child inner) :=
    inMemory_cons.mpr held
  have childOwn : links (nodePlace child) = some (link side (some (nodePlace node)) (root outer)
      (root inner) child.2) := held_node lower
  have nodeOwn := held_node held
  have isChild : rtlIsChild links (some (nodePlace child)) .left = .ok (side = .left : Bool) :=
    rtlIsChild_held lower .left
  have innerMapped : ∀ target, root inner = some target → (links target).isSome :=
    fun target => isSome_root ((represents_join _ _ _ _ _).mp lower.below).2.2
  have aboveMapped : (links (above context)).isSome := isSome_above held.above
  have nodeMapped : (links (nodePlace node)).isSome := by rw [nodeOwn]; rfl
  have childMapped : (links (nodePlace child)).isSome := by rw [childOwn]; rfl
  obtain ⟨cell, found, hangs⟩ := held.child_top .left (PointerTree.pointer_join side _ far node)
  have notNode : above context ≠ nodePlace node := (ne_top held.apart (by simp)).symm
  have notChild : above context ≠ nodePlace child := (ne_top held.apart (by simp)).symm
  have notInner : root inner ≠ some (above context) := fun points => by
    obtain ⟨first, member, same⟩ := exists_of_pointer points
    exact ne_top held.apart (by simp [member]) same
  have nodeHeld : change links (nodePlace node) (fun cell => cell.withChild side (root inner))
      (nodePlace node) =
        some (link side (some (above context)) (root inner) (root far) node.2) := by
    rw [change_same, nodeOwn]
    exact congrArg some (link_withChild _ _ _ _ _ _)
  have hung : (if cell.child .left = some (nodePlace node) then Side.left else .right) =
      hang context := by
    simp only [hangs]
    cases hang context <;> rfl
  have found₄ : change (change (adopt (change links (nodePlace node) fun cell =>
      cell.withChild side (root inner)) (root inner) (nodePlace node)) (nodePlace child) fun cell =>
      cell.withChild side.other (some (nodePlace node))) (nodePlace node)
      (fun cell => cell.withParent (some (nodePlace child))) (above context) = some cell := by
    rw [change_elsewhere notNode, change_elsewhere notChild, adopt_elsewhere notInner,
      change_elsewhere notNode, found]
  unfold rtlpPromoteAvlTreeNode
  simp only [rtlParent_eq childOwn, rtlParent_eq nodeOwn, rtlChild_eq childOwn, isChild, ok_bind,
    if_side, if_side_other, link_parent, link_child_other, setChild_eq nodeMapped,
    rtlChild_eq nodeHeld, link_child]
  rw [adoptChild_eq (by simpa using innerMapped), ok_bind, setChild_eq (by simpa using childMapped),
    ok_bind, rtlSetParent_eq (by simpa using nodeMapped), ok_bind,
    rtlChild_eq found₄, ok_bind, hung, setChild_eq (by simpa using aboveMapped), ok_bind,
    rtlSetParent_eq (by simpa using childMapped)]
  rfl

/-! ### Balances -/

variable {side' : Side} {outer inner beyond : BinaryTree (Node Item)}
  {element child subChild : Element Item} {balance : Int}

/-- `RtlSetBalance` on the node at the top of a hole. -/
theorem setBalance_eq (held : Held links level context (join side near (element, balance) far))
    (value : Int) :
    ∃ links', rtlSetBalance links (some (place element)) value = .ok links' ∧
      Held links' level context (join side near (element, value) far) := by
  have mapped : (links (place element)).isSome := by
    rw [show links (place element) = _ from held_node held]
    rfl
  refine ⟨_, rtlSetBalance_eq mapped value, ?_⟩
  exact held.setBalance (element, value) rfl

/-- `RtlSetBalance` on the child on a side. -/
theorem setBalance_near
    (held : Held links level context
      (join side (join side' near (element, balance) far) node beyond))
    (value : Int) :
    ∃ links', rtlSetBalance links (some (place element)) value = .ok links' ∧
      Held links' level context (join side (join side' near (element, value) far) node beyond) := by
  have lower : Held links level (⟨side, node, beyond⟩ :: context)
      (join side' near (element, balance) far) := inMemory_cons.mpr held
  obtain ⟨links', stored, changed⟩ := setBalance_eq lower value
  exact ⟨links', stored, inMemory_cons.mp changed⟩

/-- `RtlSetBalance` on the child on the other side. -/
theorem setBalance_far
    (held : Held links level context
      (join side beyond node (join side' near (element, balance) far)))
    (value : Int) :
    ∃ links', rtlSetBalance links (some (place element)) value = .ok links' ∧
      Held links' level context (join side beyond node (join side' near (element, value) far)) := by
  rw [← join_other] at held
  obtain ⟨links', stored, changed⟩ := setBalance_near held value
  rw [join_other] at changed
  exact ⟨links', stored, changed⟩

/-! ### Rebalancing -/

theorem side_of_heavy (side : Side) :
    (if heavy side = rtlRightHeavyAvlTree then Side.right else .left) = side := by
  cases side <;> rfl

theorem rtlBalanced_eq : rtlBalancedAvlTree = 0 := rfl

/-- The node is heavy on a side, and the child there as well. -/
theorem rebalance_single {element : Element Item}
    (held : Held links level context
      (join side (join side outer (child, heavy side) inner) (element, heavy side) far)) :
    ∃ links', rtlpRebalanceAvlTreeNode links (some (place element)) = .ok (false, links') ∧
      Held links' level context
        (join side outer (child, 0) (join side inner (element, 0) far)) := by
  have nodeOwn := held_node held
  have childOwn := held_near held
  rw [nodePlace_mk] at nodeOwn childOwn
  obtain ⟨links₁, first, held₁⟩ := promote_eq held
  obtain ⟨links₂, second, held₂⟩ := setBalance_eq held₁ 0
  obtain ⟨links₃, third, held₃⟩ := setBalance_far held₂ 0
  refine ⟨links₃, ?_, held₃⟩
  unfold rtlpRebalanceAvlTreeNode
  simp only [rtlBalance_eq nodeOwn, rtlChild_eq nodeOwn, ok_bind, link_balance, side_of_heavy,
    link_child, PointerTree.pointer_join, nodePlace_mk, rtlBalance_eq childOwn, if_true]
  rw [nodePlace_mk] at first
  rw [first, ok_bind, rtlBalanced_eq, second, ok_bind, third]
  rfl

/-- The node is heavy on a side, and the child there is level. -/
theorem rebalance_level {element : Element Item}
    (held : Held links level context
      (join side (join side outer (child, 0) inner) (element, heavy side) far)) :
    ∃ links', rtlpRebalanceAvlTreeNode links (some (place element)) = .ok (true, links') ∧
      Held links' level context
        (join side outer (child, -heavy side) (join side inner (element, heavy side) far)) := by
  have nodeOwn := held_node held
  have childOwn := held_near held
  rw [nodePlace_mk] at nodeOwn childOwn
  obtain ⟨links₁, first, held₁⟩ := promote_eq held
  obtain ⟨links₂, second, held₂⟩ := setBalance_eq held₁ (-heavy side)
  refine ⟨links₂, ?_, held₂⟩
  unfold rtlpRebalanceAvlTreeNode
  simp only [rtlBalance_eq nodeOwn, rtlChild_eq nodeOwn, ok_bind, link_balance, side_of_heavy,
    link_child, PointerTree.pointer_join, nodePlace_mk, rtlBalance_eq childOwn,
    (heavy_ne_zero side).symm, if_false, zero_eq_neg, heavy_ne_zero]
  rw [nodePlace_mk] at first
  rw [first, ok_bind, second]
  rfl

/-- The child of the child is promoted twice. -/
theorem promote_twice {node child subChild : Node Item}
    (held : Held links level context
      (join side (join side outer child (join side near subChild beyond)) node far)) :
    ∃ links₁ links₂, rtlpPromoteAvlTreeNode links (some (nodePlace subChild)) = .ok links₁ ∧
      rtlpPromoteAvlTreeNode links₁ (some (nodePlace subChild)) = .ok links₂ ∧
      Held links₂ level context
        (join side (join side outer child near) subChild (join side beyond node far)) := by
  have lower : Held links level (⟨side, node, far⟩ :: context)
      (join side.other (join side.other beyond subChild near) child outer) := by
    rw [join_other, join_other]
    exact inMemory_cons.mpr held
  obtain ⟨links₁, first, held₁⟩ := promote_eq lower
  rw [join_other, join_other] at held₁
  obtain ⟨links₂, second, held₂⟩ := promote_eq (inMemory_cons.mp held₁)
  exact ⟨links₁, links₂, first, second, held₂⟩

/-- The balances after a double promotion. -/
theorem setDoubleBalances_eq {first second : Int} {element : Element Item}
    (held : Held links level context
      (join side (join side outer (child, first) near) (subChild, balance)
        (join side beyond (element, second) far))) :
    ∃ links', setDoubleBalances links (some (place element)) (some (place child))
        (some (place subChild)) (heavy side) = .ok links' ∧
      Held links' level context
        (join side (join side outer (child, childBalance side balance) near) (subChild, balance)
          (join side beyond (element, nodeBalance side balance) far)) := by
  have subOwn := held_node held
  rw [nodePlace_mk] at subOwn
  obtain ⟨links₁, stored, held₁⟩ := setBalance_near held (childBalance side balance)
  obtain ⟨links₂, stored', held₂⟩ := setBalance_far held₁ (nodeBalance side balance)
  refine ⟨links₂, ?_, held₂⟩
  unfold setDoubleBalances
  simp only [rtlBalance_eq subOwn, ok_bind, link_balance, rtlBalanced_eq]
  unfold childBalance at stored
  unfold nodeBalance at stored'
  by_cases same : balance = heavy side
  · rw [if_neg (same ▸ heavy_ne_neg side)] at stored
    rw [if_pos same] at stored'
    rw [if_pos same, stored, ok_bind, stored']
  · rw [if_neg same] at stored'
    rw [if_neg same]
    by_cases opposite : balance = -heavy side
    · rw [if_pos opposite] at stored
      rw [if_pos opposite, stored, ok_bind, stored']
    · rw [if_neg opposite] at stored
      rw [if_neg opposite, stored, ok_bind, stored']

/-- The node is heavy on a side, and the child there on the other one. -/
theorem rebalance_double {element : Element Item}
    (held : Held links level context
      (join side (join side outer (child, -heavy side) (join side near (subChild, balance) beyond))
        (element, heavy side) far)) :
    ∃ links', rtlpRebalanceAvlTreeNode links (some (place element)) = .ok (false, links') ∧
      Held links' level context
        (join side (join side outer (child, childBalance side balance) near) (subChild, 0)
          (join side beyond (element, nodeBalance side balance) far)) := by
  have nodeOwn := held_node held
  have childOwn := held_near held
  rw [nodePlace_mk] at nodeOwn childOwn
  obtain ⟨links₁, links₂, first, second, held₂⟩ := promote_twice held
  obtain ⟨links₃, third, held₃⟩ := setDoubleBalances_eq held₂
  obtain ⟨links₄, fourth, held₄⟩ := setBalance_eq held₃ 0
  refine ⟨links₄, ?_, held₄⟩
  unfold rtlpRebalanceAvlTreeNode
  simp only [rtlBalance_eq nodeOwn, rtlChild_eq nodeOwn, ok_bind, link_balance, side_of_heavy,
    link_child, PointerTree.pointer_join, nodePlace_mk, rtlBalance_eq childOwn, neg_heavy_ne,
    if_false, if_true, rtlChild_eq childOwn, link_child_other]
  rw [nodePlace_mk] at first second
  rw [first, ok_bind, second, ok_bind, third, ok_bind, rtlBalanced_eq, fourth]
  rfl

end Trees

/-! ### The places of the links -/

/-- Two memories have links at the same places. -/
def SamePlaces (links links' : Links) : Prop := ∀ here, (links' here).isSome = (links here).isSome

theorem SamePlaces.trans {first second third : Links} (one : SamePlaces first second)
    (two : SamePlaces second third) : SamePlaces first third :=
  fun here => (two here).trans (one here)

/-- A store neither maps nor unmaps a place. -/
theorem write_places {links links' : Links} {pointer : Option Place}
    {next : BalancedLinks → BalancedLinks} (ran : write links pointer next = .ok links') :
    SamePlaces links links' := by
  intro here
  cases pointer with
  | none => cases ran
  | some target =>
    cases held : links target with
    | none =>
      rw [write, held] at ran
      cases ran
    | some cell =>
      rw [write_eq held] at ran
      cases ran
      by_cases same : here = target
      · rw [same, Function.update_self, held]
        rfl
      · rw [Function.update_of_ne same]

theorem adoptChild_places {links links' : Links} {pointer value : Option Place}
    (ran : adoptChild links pointer value = .ok links') : SamePlaces links links' := by
  unfold adoptChild at ran
  split at ran
  · cases ran
    exact fun _ => rfl
  · exact write_places ran

theorem promote_places {links links' : Links} {node : Option Place}
    (ran : rtlpPromoteAvlTreeNode links node = .ok links') : SamePlaces links links' := by
  simp only [rtlpPromoteAvlTreeNode, bind_eq_ok] at ran
  obtain ⟨_, _, _, _, _, _, _, _, _, first, _, _, _, second, _, third, _, fourth, _, _, _, fifth,
    sixth⟩ := ran
  exact (((((write_places first).trans (adoptChild_places second)).trans (write_places third)).trans
    (write_places fourth)).trans (write_places fifth)).trans (write_places sixth)

theorem setDoubleBalances_places {links links' : Links} {node child subChild : Option Place}
    {balance : Int} (ran : setDoubleBalances links node child subChild balance = .ok links') :
    SamePlaces links links' := by
  unfold setDoubleBalances at ran
  obtain ⟨_, _, ran⟩ := bind_eq_ok.mp ran
  split at ran
  · obtain ⟨_, first, second⟩ := bind_eq_ok.mp ran
    exact (write_places first).trans (write_places second)
  · split at ran
    · obtain ⟨_, first, second⟩ := bind_eq_ok.mp ran
      exact (write_places first).trans (write_places second)
    · obtain ⟨_, first, second⟩ := bind_eq_ok.mp ran
      exact (write_places first).trans (write_places second)

theorem rebalance_places {links links' : Links} {node : Option Place} {finished : Bool}
    (ran : rtlpRebalanceAvlTreeNode links node = .ok (finished, links')) :
    SamePlaces links links' := by
  unfold rtlpRebalanceAvlTreeNode at ran
  obtain ⟨_, _, ran⟩ := bind_eq_ok.mp ran
  obtain ⟨_, _, ran⟩ := bind_eq_ok.mp ran
  obtain ⟨_, _, ran⟩ := bind_eq_ok.mp ran
  split at ran
  · obtain ⟨_, first, ran⟩ := bind_eq_ok.mp ran
    obtain ⟨_, second, ran⟩ := bind_eq_ok.mp ran
    obtain ⟨_, third, ran⟩ := bind_eq_ok.mp ran
    cases ran
    exact ((promote_places first).trans (write_places second)).trans (write_places third)
  · split at ran
    · obtain ⟨_, _, ran⟩ := bind_eq_ok.mp ran
      obtain ⟨_, first, ran⟩ := bind_eq_ok.mp ran
      obtain ⟨_, second, ran⟩ := bind_eq_ok.mp ran
      obtain ⟨_, third, ran⟩ := bind_eq_ok.mp ran
      obtain ⟨_, fourth, ran⟩ := bind_eq_ok.mp ran
      cases ran
      exact (((promote_places first).trans (promote_places second)).trans
        (setDoubleBalances_places third)).trans (write_places fourth)
    · obtain ⟨_, first, ran⟩ := bind_eq_ok.mp ran
      obtain ⟨_, second, ran⟩ := bind_eq_ok.mp ran
      cases ran
      exact (promote_places first).trans (write_places second)

end Nloader.Avl
