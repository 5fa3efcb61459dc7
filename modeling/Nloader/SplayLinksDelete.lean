/-
This file proves what `RtlDelete` and `RtlDeleteNoSplay` do to a tree of splay links. A node
with two children is first swapped with its predecessor, so that in its new place it has no
child on the right; there it is taken out, and its only subtree takes its place. `RtlDelete`
splays the node above that place.

A node that is taken out keeps its own links as they were.
-/

import Nloader.SplayLinksSwap
import Nloader.SplayLinksWalks

namespace Nloader.SplayLinks

open Outcome TreePath TreeContext RootedTree BottomUp
open Splay (Address Fault)

variable {links : Links} {context : Context Address} {n : Address}

/-! ### Nodes with one child -/

/-- The parent of a node references a pointer instead of it. -/
theorem reference_eq {frame : Frame Address} {tree : BinaryTree Address}
    (held : Held links (frame :: context) tree) (points : root tree = some n)
    (value : Option Address) :
    reference links (some n) (some frame.node) value =
      .ok (hung links (above (frame :: context)) (LinkedTree.hang (frame :: context)) value) := by
  have own := held_node (held_cons.mp held)
  have stored : ∀ side, setChild links (some frame.node) side value =
      .ok (change links frame.node fun cell => cell.withChild side value) :=
    fun side => setChild_eq own value
  rw [reference, rtlIsChild_held held points, ok_bind, stored, stored]
  obtain ⟨side, node, sibling⟩ := frame
  cases side with
  | left => exact if_pos (decide_eq_true rfl)
  | right => exact if_neg (by simp)

/-- What `unlink` answers: the root that is left, or the former parent. -/
def unlinked (context : Context Address) (child : BinaryTree Address) :
    Option Address ⊕ Option Address :=
  match context with
  | [] => .inl (root child)
  | frame :: _ => .inr (some frame.node)

/-- A node with at most one child is taken out. -/
theorem unlink_eq {side : Side} {child : BinaryTree Address}
    (held : Held links context (join side child n .nil)) :
    unlink links (some n) =
      .ok (unlinked context child,
        spliced links (above context) (root child) (LinkedTree.hang context)) := by
  have own := held_node held
  unfold unlink
  rw [rtlChild_eq own, ok_bind, rtlChild_eq own, ok_bind]
  cases child with
  | nil =>
    have childless :
        (link side ((above context).getD n) (root .nil) (root .nil)).child .left = none ∧
          (link side ((above context).getD n) (root .nil) (root .nil)).child .right = none := by
      cases side <;> exact ⟨rfl, rfl⟩
    rw [if_pos childless]
    cases context with
    | nil =>
      rw [rtlIsRoot_eq own, link_parent, ok_bind]
      exact if_pos (decide_eq_true rfl)
    | cons frame rest =>
      obtain ⟨notRoot, parent⟩ := rtlIsRoot_held held (root_join _ _ _ _)
      rw [notRoot, ok_bind, if_neg Bool.false_ne_true, parent, ok_bind,
        reference_eq held (root_join _ _ _ _)]
      rfl
  | node node left right =>
    have mapped : (links node).isSome := by
      refine (holds_iff_held.mpr held).isSome (mem_plug ?_)
      exact (mem_inorder_join _ _ _ _ _).mpr (.inl (mem_of_root rfl))
    let cell := link side ((above context).getD n) (some node) none
    have child : ¬ (cell.child .left = none ∧ cell.child .right = none) := by
      cases side <;> simp [cell, link, Cell.child]
    have only : ∀ next : Option Address →
        Except Fault ((Option Address ⊕ Option Address) × Links),
        (if cell.child .left ≠ none then Except.ok (cell.child .left) >>= next
          else Except.ok (cell.child .right) >>= next) = next (some node) := fun next => by
      cases side <;> rfl
    refine (if_neg child).trans ((only _).trans ?_)
    beta_reduce
    cases context with
    | nil =>
      have top : decide ((some ((above []).getD n)) = some n) = true := decide_eq_true rfl
      rw [rtlIsRoot_eq own, link_parent, ok_bind, top, if_pos rfl, setParent, write_place,
        if_pos mapped]
      rfl
    | cons frame rest =>
      obtain ⟨notRoot, parent⟩ := rtlIsRoot_held held (root_join _ _ _ _)
      have mapped' : Mapped (hung links (above (frame :: rest)) (LinkedTree.hang (frame :: rest))
          (some node)) (some node) :=
        Mapped.hung (fun here points => by cases points; exact mapped) _ _ _
      rw [notRoot, ok_bind, if_neg Bool.false_ne_true, parent, ok_bind,
        reference_eq held (root_join _ _ _ _), ok_bind, setParent, write_place,
        if_pos (mapped' node rfl)]
      rfl

/-! ### Nodes with two children -/

/-- A node and its predecessor exchanged. -/
theorem map_swap_predecessor {path : Context Address} {heir : Address}
    {below right : BinaryTree Address}
    (held : Held links (path ++ ⟨.left, n, right⟩ :: context) (.node heir below .nil)) :
    (plug (path ++ ⟨.left, n, right⟩ :: context) (.node heir below .nil)).map
        (Equiv.swap heir n) =
      plug (path ++ ⟨.left, heir, right⟩ :: context) (.node n below .nil) := by
  have nodup := held.nodup
  rw [around_append, around, inorder, inorder, List.nodup_append] at nodup
  obtain ⟨nodupTree, nodupAround, across⟩ := nodup
  have notHeir : ∀ other ∈ around path ++ n :: (inorder right ++ around context),
      other ≠ heir := fun other member same =>
    across heir (List.mem_append_right _ List.mem_cons_self) other member same.symm
  have notN := List.nodup_middle.mp nodupAround
  rw [List.nodup_cons] at notN
  have fixed : ∀ other, other ≠ heir → other ∈ around path ++ (inorder right ++ around context) →
      Equiv.swap heir n other = other := fun other apart member =>
    Equiv.swap_apply_of_ne_of_ne apart fun same => notN.1 (same ▸ member)
  have fixedAround : ∀ other ∈ around path ++ (inorder right ++ around context),
      Equiv.swap heir n other = other := fun other member =>
    fixed other (notHeir other (List.perm_middle.mem_iff.mpr (List.mem_cons_of_mem _ member)))
      member
  have fixedBelow : ∀ other ∈ inorder below, Equiv.swap heir n other = other := by
    intro other member
    refine Equiv.swap_apply_of_ne_of_ne (fun same => ?_) fun same => ?_
    · exact List.disjoint_of_nodup_append nodupTree member (same ▸ List.mem_cons_self)
    · exact across other (List.mem_append_left _ member) n
        (List.mem_append_right _ List.mem_cons_self) same
  rw [plug_map, List.map_append, List.map_cons,
    map_renamed_fixed fun other member => fixedAround other (List.mem_append_left _ member),
    map_renamed_fixed fun other member =>
      fixedAround other (List.mem_append_right _ (List.mem_append_right _ member)),
    renamed, map_fixed fun other member =>
      fixedAround other (List.mem_append_right _ (List.mem_append_left _ member)),
    BinaryTree.map, map_fixed fixedBelow, Equiv.swap_apply_left, Equiv.swap_apply_right]
  rfl

/-- The tree with a node at the place where it is taken out: in its own place, or in that of its
predecessor. -/
theorem isolate_eq {left right : BinaryTree Address} {turns : Nat}
    (held : Held links context (.node n left right)) (enough : left.numNodes ≤ turns) :
    ∃ sp links' side, isolate turns links (some n) = .ok (sp, links') ∧
      Held links' (removed context left right).1 (join side (removed context left right).2 n .nil) ∧
      AgreeOutside (inorder (plug context (.node n left right))) links links' ∧
      ((removed context left right).1 = context ∧ sp = none ∨
        ∃ path heir, (removed context left right).1 = path ++ ⟨.left, heir, right⟩ :: context ∧
          sp = some (some heir)) := by
  have own := held_node (show Held links context (join .left left n right) from held)
  have same : AgreeOutside (inorder (plug context (.node n left right))) links links :=
    fun _ _ => rfl
  unfold isolate
  rw [rtlChild_eq own, ok_bind, rtlChild_eq own, ok_bind, link_child, link_right]
  match left, right with
  | .nil, right =>
    refine ⟨none, links, .right, ?_, held, same, .inl ⟨rfl, rfl⟩⟩
    exact if_neg fun both => both.1 rfl
  | .node node near inner, .nil =>
    refine ⟨none, links, .left, ?_, held, same, .inl ⟨rfl, rfl⟩⟩
    exact if_neg fun both => both.2 rfl
  | .node node near inner, .node other outer far =>
    obtain ⟨path, heir, below, found, shape, last⟩ := exists_rightmost [] node near inner
    rw [List.append_nil] at found
    rw [removed, found]
    have both : root (.node node near inner) ≠ none ∧ root (.node other outer far) ≠ none :=
      ⟨Option.some_ne_none _, Option.some_ne_none _⟩
    have neighbour : rtlSubtreePredecessor turns links (some n) = .ok (some heir) := by
      refine (@subtreeNeighbour_eq links .left context n _ _ turns held enough).trans ?_
      rw [shape, walk_plug, show Side.left.other = .right from rfl, last,
        show BinaryTree.node heir below .nil = join .right .nil heir below from rfl, walk_join,
        walk_nil]
      rfl
    have whole : plug context (.node n (.node node near inner) (.node other outer far)) =
        plug (path ++ ⟨.left, n, .node other outer far⟩ :: context) (.node heir below .nil) := by
      rw [shape, plug_append]
      rfl
    have holds := whole ▸ holds_iff_held.mpr held
    have lower := holds_iff_held.mp holds
    have inHeir := @mem_plug _ (path ++ ⟨.left, n, .node other outer far⟩ :: context) _ _
      (mem_join .right .nil below heir)
    have inNode := @mem_plug _ context _ _
      (mem_join .left (.node node near inner) (.node other outer far) n)
    have apart : heir ≠ n := fun same => by
      have nodup := lower.nodup
      rw [around_append] at nodup
      refine List.disjoint_of_nodup_append nodup (mem_join .right .nil below heir) ?_
      exact List.mem_append_right _ (same ▸ List.mem_cons_self)
    obtain ⟨links', swapped, holds', agree⟩ :=
      swapSplayLinks_holds holds inHeir (whole ▸ inNode) apart
    rw [map_swap_predecessor lower] at holds'
    refine ⟨some (some heir), links', .left, ?_, holds_iff_held.mp holds', whole ▸ agree,
      .inr ⟨path, heir, rfl, rfl⟩⟩
    rw [if_pos both, neighbour, ok_bind, swapped]
    rfl

/-! ### `RtlDelete` -/

/-- The nodes of a tree without one of them are nodes of the tree. -/
theorem mem_removed {left right : BinaryTree Address} {here : Address}
    (member : here ∈ inorder (plug (removed context left right).1 (removed context left right).2)) :
    here ∈ inorder (plug context (.node n left right)) := by
  rw [inorder_removed] at member
  rw [inorder_plug, inorder]
  simp only [List.mem_append, List.mem_cons] at member ⊢
  tauto

/-- The turns that are enough for the splay behind a deletion. -/
theorem splayTurns_removed {left right : BinaryTree Address} {frame : Frame Address}
    {rest : Context Address} (hole : (removed context left right).1 = frame :: rest) :
    splayTurns rest.length ≤ (plug context (.node n left right)).numNodes := by
  have bound := length_le_plug (removed context left right).1 (removed context left right).2
  have fewer := numNodes_removed context n left right
  rw [hole] at bound fewer
  rw [List.length_cons] at bound
  unfold splayTurns
  omega

/-- The statements that both deletions share. -/
theorem taken_out {left right : BinaryTree Address} {turns : Nat}
    (held : Held links context (.node n left right))
    (enough : (plug context (.node n left right)).numNodes ≤ turns) :
    ∃ sp isolated links', isolate turns links (some n) = .ok (sp, isolated) ∧
      unlink isolated (some n) =
        .ok (unlinked (removed context left right).1 (removed context left right).2, links') ∧
      Held links' (removed context left right).1 (removed context left right).2 ∧
      AgreeOutside (inorder (plug context (.node n left right))) links links' ∧
      ((removed context left right).1 = context ∧ sp = none ∨
        ∃ path heir, (removed context left right).1 = path ++ ⟨.left, heir, right⟩ :: context ∧
          sp = some (some heir)) := by
  have size := numNodes_le_plug context (join .left left n right)
  rw [numNodes_join] at size
  have enough' : left.numNodes ≤ turns := by
    change (plug context (join .left left n right)).numNodes ≤ turns at enough
    omega
  obtain ⟨sp, isolated, side, ran, held', agree, places⟩ := isolate_eq held enough'
  have within := (spliced_agree isolated (removed context left right).1
    (removed context left right).2).mono fun here => mem_removed (n := n)
  exact ⟨sp, isolated, _, ran, unlink_eq held', held'.splice, agree.trans within, places⟩

/-- `RtlDelete` on a node of a tree: the node above the hole that it leaves is splayed, and the
root is returned. -/
theorem rtlDelete_held {left right : BinaryTree Address} {turns : Nat}
    (held : Held links context (.node n left right))
    (enough : (plug context (.node n left right)).numNodes ≤ turns) :
    ∃ links', rtlDelete turns links (some n) =
        .ok (root (splayAbove (removed context left right)), links') ∧
      Holds links' (splayAbove (removed context left right)) ∧
      AgreeOutside (inorder (plug context (.node n left right))) links links' := by
  obtain ⟨sp, isolated, links', ran, ran', held', agree, _⟩ := taken_out held enough
  have turned := @splayTurns_removed context n left right
  have inside := @mem_removed context n left right
  unfold rtlDelete
  rw [ran, ok_bind]
  change ∃ links', (unlink isolated (some n) >>= _) = _ ∧ _
  rw [ran', ok_bind]
  generalize removed context left right = hole at held' turned inside ⊢
  obtain ⟨outer, child⟩ := hole
  cases outer with
  | nil => exact ⟨links', rfl, holds_iff_held.mpr held', agree⟩
  | cons frame rest =>
    obtain ⟨⟨links'', splayed, held'', agree'⟩, _⟩ := splayLoop_eq turns (held_cons.mp held')
      (root_join _ _ _ _) ((turned rfl).trans enough)
    refine ⟨links'', ?_, holds_iff_held.mpr held'', agree.trans (agree'.mono fun here => inside)⟩
    have top : root (splay rest (frame.fill child)) = some frame.node :=
      root_splay (root_join _ _ _ _)
    change rtlSplay turns links' (some frame.node) = _
    rw [rtlSplay, splayed, ok_bind, splayAbove, top]
    rfl

/-! ### `RtlDeleteNoSplay` -/

/-- `RtlDeleteNoSplay` on a node of a tree: nothing moves that need not, and the pointer to the
root is that of the tree that is left. -/
theorem rtlDeleteNoSplay_held {left right : BinaryTree Address} {turns : Nat}
    (held : Held links context (.node n left right))
    (enough : (plug context (.node n left right)).numNodes ≤ turns) :
    ∃ links', rtlDeleteNoSplay turns links (some n) (root (plug context (.node n left right))) =
        .ok (root (plug (removed context left right).1 (removed context left right).2), links') ∧
      Holds links' (plug (removed context left right).1 (removed context left right).2) ∧
      AgreeOutside (inorder (plug context (.node n left right))) links links' := by
  obtain ⟨sp, isolated, links', ran, ran', held', agree, places⟩ := taken_out held enough
  have own := held_node (show Held links context (join .left left n right) from held)
  refine ⟨links', ?_, holds_iff_held.mpr held', agree⟩
  unfold rtlDeleteNoSplay
  rw [rtlIsRoot_eq own, link_parent, ok_bind, ran, ok_bind]
  change (unlink isolated (some n) >>= _) = _
  rw [ran', ok_bind]
  generalize removed context left right = hole at held' places ⊢
  obtain ⟨outer, child⟩ := hole
  rcases places with ⟨rfl, rfl⟩ | ⟨path, heir, rfl, rfl⟩
  · cases outer with
    | nil => rfl
    | cons frame rest =>
      rw [root_plug_cons frame rest child]
      rfl
  · have answered : ∃ node,
        unlinked (path ++ ⟨.left, heir, right⟩ :: context) child = .inr (some node) := by
      cases path with
      | nil => exact ⟨heir, rfl⟩
      | cons frame rest => exact ⟨frame.node, rfl⟩
    obtain ⟨node, answered⟩ := answered
    rw [answered]
    cases context with
    | nil =>
      have top : root (plug (path ++ [⟨.left, heir, right⟩]) child) = some heir := by
        rw [plug_append]
        exact root_join .left _ _ _
      rw [top]
      exact congrArg (fun top => Except.ok (top, links')) (if_pos (decide_eq_true rfl))
    | cons frame rest =>
      have notRoot : decide (some ((above (frame :: rest)).getD n) = some n) = false :=
        decide_eq_false (held.above_ne (mem_join .left left right n))
      have top : root (plug (path ++ ⟨.left, heir, right⟩ :: frame :: rest) child) =
          root (plug (frame :: rest) (.node n left right)) := by
        rw [plug_append]
        exact root_plug_cons frame rest _ _
      rw [notRoot, top]
      rfl

/-! ### Both deletions -/

section Deletions

variable {tree : BinaryTree Address} {turns : Nat}

/-- The two deletions of any node of any tree: `RtlDeleteNoSplay` leaves the tree without the node,
and `RtlDelete` the one that this is splayed to from the place where the node was taken out. Each
returns or stores the root, keeps the others in their order, and writes to no other tree. -/
theorem deletions_remove (holds : RootedTree.Holds links tree) (member : n ∈ inorder tree)
    (enough : tree.numNodes ≤ turns) :
    ∃ context left right deleted kept,
      tree = plug context (.node n left right) ∧
      rtlDelete turns links (some n) =
        .ok (root (splayAbove (removed context left right)), deleted) ∧
      RootedTree.Holds deleted (splayAbove (removed context left right)) ∧
      inorder (splayAbove (removed context left right)) = (inorder tree).erase n ∧
      AgreeOutside (inorder tree) links deleted ∧
      rtlDeleteNoSplay turns links (some n) (root tree) =
        .ok (root (plug (removed context left right).1 (removed context left right).2), kept) ∧
      RootedTree.Holds kept (plug (removed context left right).1 (removed context left right).2) ∧
      inorder (plug (removed context left right).1 (removed context left right).2) =
        (inorder tree).erase n ∧
      AgreeOutside (inorder tree) links kept := by
  obtain ⟨context, left, right, rfl, held⟩ := holds.exists_held member .left
  obtain ⟨deleted, ran, holds', agree⟩ := rtlDelete_held held enough
  obtain ⟨kept, ran', holds'', agree'⟩ := rtlDeleteNoSplay_held held enough
  have order := inorder_removed_erase holds.nodup
  exact ⟨context, left, right, deleted, kept, rfl, ran, holds', (inorder_splayAbove _).trans order,
    agree, ran', holds'', order, agree'⟩

end Deletions

theorem deletions_remove_example :
    ∃ tree deleted, rtlDelete 3 exampleLinks (some 200) = .ok (root tree, deleted) ∧
      RootedTree.Holds deleted tree ∧ inorder tree = [100, 300] := by
  obtain ⟨_, _, _, deleted, _, _, ran, holds, order, _⟩ := deletions_remove exampleLinks_holds
    (show 200 ∈ inorder exampleTree by decide) (le_refl 3)
  exact ⟨_, deleted, ran, holds, order.trans (by decide)⟩

end Nloader.SplayLinks
