/-
This file is a library of binary trees in memory whose nodes are linked both ways and whose
root is its own parent. Nothing stands above the root; whoever uses such a tree keeps the
pointer to it elsewhere. Seen together with that pointer as an anchor, the memory is that of
a linked tree, with what is known there about holes, promotions and trees taken out.

A memory in which the places of all nodes are permuted, in their links as well, holds the
tree with its nodes permuted.

The library names nothing of the program it is used for.
-/

import Nloader.Library.LinkedTree

namespace RootedTree

open TreePath TreeContext

variable {Place : Type}

/-! ### Memory -/

/-- The links of a node. -/
structure Cell (Place : Type) where
  parent : Option Place
  leftChild : Option Place
  rightChild : Option Place
  deriving DecidableEq

/-- The links in memory, at the places where there are any. -/
abbrev Memory (Place : Type) : Type := Place → Option (Cell Place)

/-- The child on a side. -/
def Cell.child (cell : Cell Place) : Side → Option Place
  | .left => cell.leftChild
  | .right => cell.rightChild

/-- The links with another child on a side. -/
def Cell.withChild (cell : Cell Place) (side : Side) (value : Option Place) : Cell Place :=
  match side with
  | .left => { cell with leftChild := value }
  | .right => { cell with rightChild := value }

/-- The links with another parent. -/
def Cell.withParent (cell : Cell Place) (value : Option Place) : Cell Place :=
  { cell with parent := value }

/-- The links of a node, with its child on a side and the one on the other side. -/
def link (side : Side) (parent : Place) (near far : Option Place) : Cell Place :=
  match side with
  | .left => { parent := some parent, leftChild := near, rightChild := far }
  | .right => { parent := some parent, leftChild := far, rightChild := near }

section Cells

variable (side : Side) (parent other : Place) (near far value : Option Place)

@[simp] theorem link_parent : (link side parent near far).parent = some parent := by
  cases side <;> rfl

@[simp] theorem link_child : (link side parent near far).child side = near := by
  cases side <;> rfl

@[simp] theorem link_child_other : (link side parent near far).child side.other = far := by
  cases side <;> rfl

@[simp] theorem link_withChild :
    (link side parent near far).withChild side value = link side parent value far := by
  cases side <;> rfl

@[simp] theorem link_withChild_other :
    (link side parent near far).withChild side.other value = link side parent near value := by
  cases side <;> rfl

@[simp] theorem link_withParent :
    (link side parent near far).withParent (some other) = link side other near far := by
  cases side <;> rfl

theorem link_other : link side.other parent near far = link side parent far near := by
  cases side <;> rfl

end Cells

section Changes

variable [DecidableEq Place]

/-- The memory with the links at one place changed. -/
def change (memory : Memory Place) (target : Place) (next : Cell Place → Cell Place) :
    Memory Place :=
  Function.update memory target ((memory target).map next)

@[simp] theorem change_same (memory : Memory Place) (target : Place)
    (next : Cell Place → Cell Place) :
    change memory target next target = (memory target).map next :=
  Function.update_self _ _ _

theorem change_elsewhere {memory : Memory Place} {target here : Place}
    {next : Cell Place → Cell Place} (elsewhere : here ≠ target) :
    change memory target next here = memory here :=
  Function.update_of_ne elsewhere _ _

theorem change_change (memory : Memory Place) (target : Place)
    (next next' : Cell Place → Cell Place) :
    change (change memory target next) target next' =
      change memory target fun cell => next' (next cell) := by
  unfold change
  rw [Function.update_idem, Function.update_self, Option.map_map]
  rfl

/-- The memory with another parent for what a pointer leads to, unless it is NULL. -/
def adopt (memory : Memory Place) (child : Option Place) (parent : Place) : Memory Place :=
  match child with
  | none => memory
  | some target => change memory target fun cell => cell.withParent (some parent)

theorem adopt_elsewhere {memory : Memory Place} {child : Option Place} {parent here : Place}
    (elsewhere : child ≠ some here) : adopt memory child parent here = memory here := by
  cases child with
  | none => rfl
  | some target => exact change_elsewhere fun same => elsewhere (by rw [same])

/-- The place above, if there is one, points to another child. -/
def hung (memory : Memory Place) (above : Option Place) (hangs : Side) (child : Option Place) :
    Memory Place :=
  match above with
  | none => memory
  | some place => change memory place fun cell => cell.withChild hangs child

theorem hung_elsewhere {memory : Memory Place} {above : Option Place} {hangs : Side}
    {child : Option Place} {here : Place} (elsewhere : above ≠ some here) :
    hung memory above hangs child here = memory here := by
  cases above with
  | none => rfl
  | some place => exact change_elsewhere fun same => elsewhere (by rw [same])

theorem adopt_apply (memory : Memory Place) (child : Option Place) (parent here : Place) :
    adopt memory child parent here = if child = some here then
      (memory here).map (fun cell => cell.withParent (some parent)) else memory here := by
  split
  · rename_i points
    rw [points, adopt, change_same]
  · rename_i elsewhere
    exact adopt_elsewhere elsewhere

theorem hung_apply (memory : Memory Place) (above : Option Place) (hangs : Side)
    (child : Option Place) (here : Place) :
    hung memory above hangs child here = if above = some here then
      (memory here).map (fun cell => cell.withChild hangs child) else memory here := by
  split
  · rename_i points
    rw [points, hung, change_same]
  · rename_i elsewhere
    exact hung_elsewhere elsewhere

theorem hung_hung (memory : Memory Place) (above : Option Place) (hangs : Side)
    (child child' : Option Place) :
    hung (hung memory above hangs child) above hangs child' = hung memory above hangs child' := by
  cases above with
  | none => rfl
  | some place =>
    refine (change_change memory place _ _).trans (congrArg (change memory place) ?_)
    funext cell
    cases hangs <;> rfl

/-! A memory in which the links of some nodes are written out takes a change of one of them
there, and lets the other ones pass. -/

theorem change_update_same (memory : Memory Place) (target : Place) (cell : Cell Place)
    (next : Cell Place → Cell Place) :
    change (Function.update memory target (some cell)) target next =
      Function.update memory target (some (next cell)) := by
  unfold change
  rw [Function.update_self, Function.update_idem]
  rfl

theorem change_update {target other : Place} (apart : target ≠ other) (memory : Memory Place)
    (found : Option (Cell Place)) (next : Cell Place → Cell Place) :
    change (Function.update memory other found) target next =
      Function.update (change memory target next) other found := by
  unfold change
  rw [Function.update_of_ne apart, Function.update_comm apart]

theorem adopt_update {child : Option Place} {other : Place} (apart : child ≠ some other)
    (memory : Memory Place) (found : Option (Cell Place)) (parent : Place) :
    adopt (Function.update memory other found) child parent =
      Function.update (adopt memory child parent) other found := by
  cases child with
  | none => rfl
  | some target => exact change_update (fun same => apart (by rw [same])) _ _ _

theorem hung_update {above : Option Place} {other : Place} (apart : above ≠ some other)
    (memory : Memory Place) (found : Option (Cell Place)) (hangs : Side) (child : Option Place) :
    hung (Function.update memory other found) above hangs child =
      Function.update (hung memory above hangs child) other found := by
  cases above with
  | none => rfl
  | some target => exact change_update (fun same => apart (by rw [same])) _ _ _

theorem change_comm {target other : Place} (apart : target ≠ other) (memory : Memory Place)
    (next next' : Cell Place → Cell Place) :
    change (change memory other next') target next =
      change (change memory target next) other next' := by
  unfold change
  rw [Function.update_of_ne apart, Function.update_of_ne apart.symm, Function.update_comm apart]

theorem adopt_comm {child child' : Option Place}
    (apart : ∀ place, child = some place → child' ≠ some place)
    (memory : Memory Place) (parent parent' : Place) :
    adopt (adopt memory child' parent') child parent =
      adopt (adopt memory child parent) child' parent' := by
  cases child with
  | none => rfl
  | some target =>
    cases child' with
    | none => rfl
    | some other => exact change_comm (fun same => apart target rfl (by rw [same])) _ _ _

theorem adopt_hung {above child : Option Place}
    (apart : ∀ place, child = some place → above ≠ some place)
    (memory : Memory Place) (hangs : Side) (value : Option Place) (parent : Place) :
    adopt (hung memory above hangs value) child parent =
      hung (adopt memory child parent) above hangs value := by
  cases child with
  | none => rfl
  | some target =>
    cases above with
    | none => rfl
    | some other => exact change_comm (fun same => apart target rfl (by rw [same])) _ _ _

end Changes

/-! ### Trees in memory -/

/-- The pointer to a tree. -/
def root : BinaryTree Place → Option Place
  | .nil => none
  | .node node _ _ => some node

@[simp] theorem root_join (side : Side) (near far : BinaryTree Place) (node : Place) :
    root (join side near node far) = some node := by
  cases side <;> rfl

theorem root_eq_none {tree : BinaryTree Place} : root tree = none ↔ tree = .nil := by
  cases tree with
  | nil => exact iff_of_true rfl rfl
  | node node left right =>
    exact iff_of_false (Option.some_ne_none _) fun same => by cases same

/-- The nodes of a tree under a parent hold their links. -/
def Below (memory : Memory Place) (parent : Place) : BinaryTree Place → Prop
  | .nil => True
  | .node node left right =>
    memory node = some (link .left parent (root left) (root right)) ∧
      Below memory node left ∧ Below memory node right

/-- A memory holds a tree whose root is its own parent. -/
def Holds (memory : Memory Place) : BinaryTree Place → Prop
  | .nil => True
  | .node node left right =>
    (inorder (.node node left right)).Nodup ∧ Below memory node (.node node left right)

theorem Holds.nodup {memory : Memory Place} {tree : BinaryTree Place} (holds : Holds memory tree) :
    (inorder tree).Nodup := by
  cases tree with
  | nil => exact List.nodup_nil
  | node node left right => exact holds.1

theorem Below.congr {memory memory' : Memory Place} {parent : Place} {tree : BinaryTree Place}
    (agree : ∀ node ∈ inorder tree, memory' node = memory node)
    (below : Below memory parent tree) : Below memory' parent tree := by
  induction tree generalizing parent with
  | nil => trivial
  | node node left right leftHypothesis rightHypothesis =>
    obtain ⟨own, lefts, rights⟩ := below
    refine ⟨?_, leftHypothesis (fun other member => ?_) lefts,
      rightHypothesis (fun other member => ?_) rights⟩
    · rw [agree node (List.mem_append_right _ List.mem_cons_self)]
      exact own
    · exact agree other (List.mem_append_left _ member)
    · exact agree other (List.mem_append_right _ (List.mem_cons_of_mem _ member))

/-- A memory that agrees on the nodes of a tree holds it too. -/
theorem Holds.congr {memory memory' : Memory Place} {tree : BinaryTree Place}
    (agree : ∀ node ∈ inorder tree, memory' node = memory node) (holds : Holds memory tree) :
    Holds memory' tree := by
  cases tree with
  | nil => trivial
  | node node left right => exact ⟨holds.1, holds.2.congr agree⟩

theorem Below.agree {memory memory' : Memory Place} {parent : Place} {tree : BinaryTree Place}
    (below : Below memory parent tree) (below' : Below memory' parent tree) :
    ∀ node ∈ inorder tree, memory' node = memory node := by
  induction tree generalizing parent with
  | nil => exact fun node member => by cases member
  | node node left right leftHypothesis rightHypothesis =>
    obtain ⟨own, lefts, rights⟩ := below
    obtain ⟨own', lefts', rights'⟩ := below'
    intro other member
    rcases List.mem_append.mp member with inLeft | there
    · exact leftHypothesis lefts lefts' other inLeft
    · rcases List.mem_cons.mp there with rfl | inRight
      · exact own'.trans own.symm
      · exact rightHypothesis rights rights' other inRight

/-- Memories that hold the same tree agree on its nodes. -/
theorem Holds.agree {memory memory' : Memory Place} {tree : BinaryTree Place}
    (holds : Holds memory tree) (holds' : Holds memory' tree) :
    ∀ node ∈ inorder tree, memory' node = memory node := by
  cases tree with
  | nil => exact fun node member => by cases member
  | node node left right => exact holds.2.agree holds'.2

theorem Below.isSome {memory : Memory Place} {parent node : Place} {tree : BinaryTree Place}
    (below : Below memory parent tree) (member : node ∈ inorder tree) :
    (memory node).isSome := by
  induction tree generalizing parent with
  | nil => cases member
  | node other left right leftHypothesis rightHypothesis =>
    obtain ⟨own, lefts, rights⟩ := below
    rcases List.mem_append.mp member with inLeft | there
    · exact leftHypothesis lefts inLeft
    · rcases List.mem_cons.mp there with rfl | inRight
      · rw [own]
        rfl
      · exact rightHypothesis rights inRight

/-- Every node of a tree has links. -/
theorem Holds.isSome {memory : Memory Place} {node : Place} {tree : BinaryTree Place}
    (holds : Holds memory tree) (member : node ∈ inorder tree) : (memory node).isSome := by
  cases tree with
  | nil => cases member
  | node other left right => exact holds.2.isSome member

/-! ### The anchored memory -/

theorem pointer_eq (tree : BinaryTree Place) :
    PointerTree.pointer some tree = (root tree).map some := by
  cases tree <;> rfl

theorem map_some_injective : Function.Injective (Option.map (some : Place → Option Place)) :=
  Option.map_injective (Option.some_injective _)

variable [DecidableEq Place]

/-- The links of a node, with the anchor above a node that is its own parent. -/
def anchoredCell (here : Place) (cell : Cell Place) : LinkedTree.Cell (Option Place) where
  parent := if cell.parent = some here then some none else cell.parent.map some
  leftChild := cell.leftChild.map some
  rightChild := cell.rightChild.map some
  balance := 0

/-- A memory together with the pointer to a root, as the anchor of a linked tree. -/
def anchored (memory : Memory Place) (top : Option Place) : LinkedTree.Memory (Option Place)
  | none => some (LinkedTree.link .right (some none) (top.map some) none 0)
  | some here => (memory here).map (anchoredCell here)

/-- The tree in a hole, seen in the anchored memory. -/
def Held (memory : Memory Place) (context : Context Place) (tree : BinaryTree Place) : Prop :=
  LinkedTree.InMemory some (fun _ => 0) none (anchored memory (root (plug context tree))) 0 context
    tree

/-- The place above a hole, or the anchor. -/
abbrev above (context : Context Place) : Option Place := LinkedTree.top some none context

/-- A node has the links that it has in the anchored memory. The anchor stands for the parent
that the root is to itself. -/
theorem anchored_eq_some {memory : Memory Place} {top : Option Place} {here : Place}
    {above : Option Place} (apart : above ≠ some here) (side : Side) (near far : Option Place) :
    anchored memory top (some here) =
        some (LinkedTree.link side (some above) (near.map some) (far.map some) 0) ↔
      memory here = some (link side (above.getD here) near far) := by
  change (memory here).map (anchoredCell here) = _ ↔ _
  cases memory here with
  | none => exact iff_of_false (fun same => by cases same) (fun same => by cases same)
  | some cell =>
    obtain ⟨parent, leftChild, rightChild⟩ := cell
    rw [Option.map_some, Option.some_inj, Option.some_inj]
    have parents : (if parent = some here then some none else parent.map some) = some above ↔
        parent = some (above.getD here) := by
      cases above with
      | none =>
        split
        · simp_all
        · simp_all
      | some target =>
        have elsewhere : here ≠ target := fun same => apart (congrArg some same.symm)
        split
        · simp_all
        · simp
    cases side with
    | left =>
      simp only [anchoredCell, LinkedTree.link, link, LinkedTree.Cell.mk.injEq, Cell.mk.injEq,
        parents, map_some_injective.eq_iff, and_true]
    | right =>
      simp only [anchoredCell, LinkedTree.link, link, LinkedTree.Cell.mk.injEq, Cell.mk.injEq,
        parents, map_some_injective.eq_iff, and_true]

/-- The nodes of a tree hold the links they have in the anchored memory, under a place above
them or as a whole tree. -/
theorem represents_iff {memory : Memory Place} {top above : Option Place} {parent : Place}
    {tree : BinaryTree Place} (nodup : (inorder tree).Nodup)
    (apart : ∀ place, above = some place → place ∉ inorder tree)
    (parented : ∀ node, root tree = some node → above.getD node = parent) :
    LinkedTree.Represents some (fun _ => 0) (anchored memory top) above tree ↔
      Below memory parent tree := by
  induction tree generalizing above parent with
  | nil => rfl
  | node node left right leftHypothesis rightHypothesis =>
    rw [inorder, List.nodup_append, List.nodup_cons] at nodup
    obtain ⟨nodupLeft, ⟨notRight, nodupRight⟩, across⟩ := nodup
    have notLeft : node ∉ inorder left :=
      fun member => across node member node List.mem_cons_self rfl
    have notAbove : above ≠ some node :=
      fun same => apart node same (List.mem_append_right _ List.mem_cons_self)
    have lefts := @leftHypothesis (some node) node nodupLeft
      (fun place same => by cases same; exact notLeft) (fun _ _ => rfl)
    have rights := @rightHypothesis (some node) node nodupRight
      (fun place same => by cases same; exact notRight) (fun _ _ => rfl)
    unfold LinkedTree.Represents Below
    rw [lefts, rights, pointer_eq, pointer_eq, anchored_eq_some notAbove, parented node rfl]

/-- A memory holds a tree where the anchored memory has it in a hole. -/
theorem holds_iff_held {memory : Memory Place} {context : Context Place}
    {tree : BinaryTree Place} : Holds memory (plug context tree) ↔ Held memory context tree := by
  unfold Held
  rw [LinkedTree.inMemory_plug]
  cases plug context tree with
  | nil =>
    exact iff_of_true trivial ⟨trivial, rfl, List.nodup_nil, fun _ member => by cases member⟩
  | node node left right =>
    constructor
    · rintro ⟨nodup, below⟩
      exact ⟨(represents_iff nodup (fun _ same => by cases same)
        (fun _ same => by cases same; rfl)).mpr below, rfl,
        nodup.map (Option.some_injective _), fun _ _ => Option.some_ne_none _⟩
    · rintro ⟨below, _, distinct⟩
      have nodup := List.Nodup.of_map _ distinct.nodup
      exact ⟨nodup, (represents_iff nodup (fun _ same => by cases same)
        (fun _ same => by cases same; rfl)).mp below⟩

/-- The tree below a frame, or the frame above the tree. -/
theorem held_cons {memory : Memory Place} {context : Context Place} {frame : Frame Place}
    {tree : BinaryTree Place} :
    Held memory (frame :: context) tree ↔ Held memory context (frame.fill tree) := by
  rw [← holds_iff_held, ← holds_iff_held]
  rfl

section Held

variable {memory : Memory Place} {context : Context Place} {tree : BinaryTree Place}

/-- The nodes in a hole and those around it are told apart. -/
theorem Held.nodup (held : Held memory context tree) : (inorder tree ++ around context).Nodup :=
  (perm_plug context tree).nodup_iff.mp (holds_iff_held.mpr held).nodup

/-- The place above a hole is none of the nodes in it. -/
theorem Held.above_ne (held : Held memory context tree) {node : Place}
    (member : node ∈ inorder tree) : above context ≠ some node :=
  (LinkedTree.ne_top (LinkedTree.InMemory.apart held) member).symm

omit [DecidableEq Place] in
theorem mem_of_root {node : Place} (points : root tree = some node) : node ∈ inorder tree := by
  cases tree with
  | nil => cases points
  | node other left right =>
    cases points
    exact List.mem_append_right _ List.mem_cons_self

omit [DecidableEq Place] in
theorem exists_join_of_root (side : Side) {node : Place} (points : root tree = some node) :
    ∃ near far, tree = join side near node far := by
  obtain ⟨near, other, far, rfl⟩ := @exists_join _ side tree (fun empty => by
    rw [empty] at points
    cases points)
  cases (root_join side near far other).symm.trans points
  exact ⟨near, far, rfl⟩

omit [DecidableEq Place] in
theorem mem_join (side : Side) (near far : BinaryTree Place) (node : Place) :
    node ∈ inorder (join side near node far) :=
  mem_of_root (root_join side near far node)

/-- What is in a hole is a child of the place above it on one side only. -/
theorem Held.child_above (held : Held memory context tree) {node above' : Place}
    (points : root tree = some node) (top : above context = some above') (side : Side) :
    ∃ cell, memory above' = some cell ∧
      (cell.child side = some node ↔ LinkedTree.hang context = side) := by
  obtain ⟨cell, found, hangs⟩ := LinkedTree.InMemory.child_top held side
    (show PointerTree.pointer some tree = some (some node) by rw [pointer_eq, points]; rfl)
  rw [show LinkedTree.top some none context = some above' from top] at found
  obtain ⟨cell', found', rfl⟩ := Option.map_eq_some_iff.mp found
  refine ⟨cell', found', ?_⟩
  rw [← hangs]
  cases side <;> exact (map_some_injective.eq_iff' rfl).symm

/-- The links of the node at the top of a hole. -/
theorem held_node {side : Side} {near far : BinaryTree Place} {node : Place}
    (held : Held memory context (join side near node far)) :
    memory node = some (link side ((above context).getD node) (root near) (root far)) := by
  have own := ((LinkedTree.represents_join _ _ _ _ _).mp (LinkedTree.InMemory.below held)).1
  rw [pointer_eq, pointer_eq] at own
  exact (anchored_eq_some (held.above_ne (mem_join _ _ _ _)) side _ _).mp own

end Held

/-! ### Parents and children -/

omit [DecidableEq Place] in
theorem root_plug_cons (frame : Frame Place) (context : Context Place)
    (tree tree' : BinaryTree Place) :
    root (plug (frame :: context) tree') = root (plug (frame :: context) tree) := by
  induction context generalizing frame tree tree' with
  | nil => exact (root_join _ _ _ _).trans (root_join _ _ _ _).symm
  | cons next rest inductionHypothesis => exact inductionHypothesis next _ _

omit [DecidableEq Place] in
theorem mem_around_of_above {context : Context Place} {here : Place}
    (points : above context = some here) : here ∈ around context := by
  rcases LinkedTree.top_cases none context with top | ⟨node, member, top⟩
  · cases top.symm.trans points
  · cases top.trans points
    exact member

omit [DecidableEq Place] in
/-- The place above a hole is one of the nodes of the whole tree. -/
theorem mem_of_above {context : Context Place} {tree : BinaryTree Place} {here : Place}
    (points : above context = some here) : here ∈ inorder (plug context tree) :=
  (perm_plug context tree).mem_iff.mpr (List.mem_append_right _ (mem_around_of_above points))

omit [DecidableEq Place] in
/-- The nodes in a hole are nodes of the whole tree. -/
theorem mem_plug {context : Context Place} {tree : BinaryTree Place} {here : Place}
    (member : here ∈ inorder tree) : here ∈ inorder (plug context tree) :=
  (perm_plug context tree).mem_iff.mpr (List.mem_append_left _ member)

/-- A node of a tree lies in a hole of it. -/
theorem Holds.exists_held {memory : Memory Place} {tree : BinaryTree Place} {node : Place}
    (holds : Holds memory tree) (member : node ∈ inorder tree) (side : Side) :
    ∃ context near far, tree = plug context (join side near node far) ∧
      Held memory context (join side near node far) := by
  obtain ⟨before, after, split⟩ := List.append_of_mem member
  obtain ⟨context, left, right, rfl, _, _⟩ := exists_plug split
  cases side with
  | left => exact ⟨context, left, right, rfl, holds_iff_held.mp holds⟩
  | right => exact ⟨context, right, left, rfl, holds_iff_held.mp holds⟩

/-- The links of a node of a tree lead to its children, which lead back. -/
theorem Holds.child {memory : Memory Place} {tree : BinaryTree Place} {node child : Place}
    {cell : Cell Place} (holds : Holds memory tree) (member : node ∈ inorder tree)
    (found : memory node = some cell) {side : Side} (points : cell.child side = some child) :
    child ∈ inorder tree ∧ child ≠ node ∧ cell.child side.other ≠ some child ∧
      ∃ cell', memory child = some cell' ∧ cell'.parent = some node := by
  obtain ⟨context, near, far, rfl, held⟩ := holds.exists_held member side
  have own := held_node held
  cases found.symm.trans own
  rw [link_child] at points
  obtain ⟨near', far', rfl⟩ := exists_join_of_root side points
  have lower : Held memory (⟨side, node, far⟩ :: context) (join side near' child far') :=
    held_cons.mpr held
  have nodup := lower.nodup
  have inNear := mem_join side near' far' child
  refine ⟨mem_plug ((mem_inorder_join _ _ _ _ _).mpr (.inl inNear)), fun same => ?_,
    fun same => ?_, _, held_node lower, link_parent _ _ _ _⟩
  · exact List.disjoint_of_nodup_append nodup inNear (same ▸ List.mem_cons_self)
  · rw [link_child_other] at same
    exact List.disjoint_of_nodup_append nodup inNear
      (List.mem_cons_of_mem _ (List.mem_append_left _ (mem_of_root same)))

/-- The parent of a node is the node itself at the root, and has it as a child elsewhere. A node
below another one is not the parent of that one. -/
theorem Holds.parent {memory : Memory Place} {tree : BinaryTree Place} {node : Place}
    (holds : Holds memory tree) (member : node ∈ inorder tree) :
    ∃ cell parent, memory node = some cell ∧ cell.parent = some parent ∧
      ((parent = node ∧ root tree = some node) ∨
        parent ≠ node ∧ parent ∈ inorder tree ∧ root tree ≠ some node ∧
        ∃ cell' side, memory parent = some cell' ∧ cell'.child side = some node ∧
          cell'.parent ≠ some node) := by
  obtain ⟨context, near, far, rfl, held⟩ := holds.exists_held member .left
  refine ⟨_, _, held_node held, link_parent _ _ _ _, ?_⟩
  cases context with
  | nil => exact .inl ⟨rfl, rfl⟩
  | cons frame rest =>
    have upper := held_cons.mp held
    have own := held_node upper
    rw [root_join] at own
    have nodup := held.nodup
    have disjoint := List.disjoint_of_nodup_append nodup (mem_join .left near far node)
    refine .inr ⟨fun same => ?_, mem_of_above rfl, fun same => ?_, _, frame.side, own,
      link_child _ _ _ _, fun same => ?_⟩
    · exact disjoint (same ▸ List.mem_cons_self)
    · have top := mem_of_root ((root_plug_cons frame rest _ .nil).trans same)
      exact disjoint ((perm_plug _ _).mem_iff.mp top)
    · rw [link_parent] at same
      cases points : above rest with
      | none =>
        rw [points] at same
        exact disjoint (Option.some_injective _ same ▸ List.mem_cons_self)
      | some top =>
        rw [points] at same
        cases same
        exact disjoint (List.mem_cons_of_mem _
          (List.mem_append_right _ (mem_around_of_above points)))

/-! ### Changes of the anchored memory -/

section Anchored

variable {memory : Memory Place} {top : Option Place} {here : Place}

theorem anchored_change {next : Cell Place → Cell Place}
    {next' : LinkedTree.Cell (Option Place) → LinkedTree.Cell (Option Place)}
    (same : ∀ cell, anchoredCell here (next cell) = next' (anchoredCell here cell)) :
    anchored (change memory here next) top =
      LinkedTree.change (anchored memory top) (some here) next' := by
  funext place
  cases place with
  | none => rw [LinkedTree.change_elsewhere (Option.some_ne_none here).symm]; rfl
  | some there =>
    by_cases found : there = here
    · subst found
      rw [LinkedTree.change_same]
      change (change memory there next there).map _ = ((memory there).map _).map _
      rw [change_same, Option.map_map, Option.map_map]
      exact congrArg (fun next => (memory there).map next) (funext same)
    · rw [LinkedTree.change_elsewhere fun same => found (Option.some_injective _ same)]
      change (change memory here next there).map _ = (memory there).map _
      rw [change_elsewhere found]

theorem anchored_withChild (side : Side) (value : Option Place) :
    anchored (change memory here fun cell => cell.withChild side value) top =
      LinkedTree.change (anchored memory top) (some here) fun cell =>
        cell.withChild side (value.map some) :=
  anchored_change fun cell => by cases side <;> rfl

/-- A node gets a parent, or itself where the anchor is to stand above it. -/
theorem anchored_withParent {parent : Option Place} (apart : parent ≠ some here) :
    anchored (change memory here fun cell => cell.withParent (some (parent.getD here))) top =
      LinkedTree.change (anchored memory top) (some here) fun cell =>
        cell.withParent (some parent) := by
  refine anchored_change fun cell => ?_
  cases parent with
  | none => simp [anchoredCell, Cell.withParent, LinkedTree.Cell.withParent]
  | some target =>
    have elsewhere : target ≠ here := fun same => apart (congrArg some same)
    simp [anchoredCell, Cell.withParent, LinkedTree.Cell.withParent, elsewhere]

theorem anchored_adopt {child : Option Place} {parent : Place} (apart : child ≠ some parent) :
    anchored (adopt memory child parent) top =
      LinkedTree.adopt (anchored memory top) (child.map some) (some parent) := by
  cases child with
  | none => rfl
  | some target =>
    have apart' : some parent ≠ some target := apart.symm
    exact anchored_withParent apart'

theorem anchored_top (value : Option Place) :
    anchored memory value =
      LinkedTree.change (anchored memory top) none fun cell =>
        cell.withChild .right (value.map some) := by
  funext place
  cases place with
  | none =>
    rw [LinkedTree.change_same]
    rfl
  | some there =>
    rw [LinkedTree.change_elsewhere (Option.some_ne_none there)]
    rfl

end Anchored

/-! ### Promotion -/

/-- The memory in which a child, on a side of a node, has been promoted over that node, for
the pointer to its inner subtree and the place above them, if there is one. -/
def promoted (side : Side) (memory : Memory Place) (child node : Place) (above inner : Option Place)
    (hangs : Side) : Memory Place :=
  let memory := change memory node fun cell => cell.withChild side inner
  let memory := adopt memory inner node
  let memory := change memory child fun cell => cell.withChild side.other (some node)
  let memory := change memory node fun cell => cell.withParent (some child)
  let memory := hung memory above hangs (some child)
  change memory child fun cell => cell.withParent (some (above.getD child))

/-- In the anchored memory, the place above or the anchor points to another child. -/
theorem anchored_hung (memory : Memory Place) (context : Context Place) (tree : BinaryTree Place)
    {tree' : BinaryTree Place} {child : Option Place} (points : root tree' = child) :
    anchored (hung memory (above context) (LinkedTree.hang context) child)
        (root (plug context tree')) =
      LinkedTree.change (anchored memory (root (plug context tree))) (above context) fun cell =>
        cell.withChild (LinkedTree.hang context) (child.map some) := by
  subst points
  cases context with
  | nil => exact anchored_top _
  | cons frame rest =>
    rw [root_plug_cons frame rest tree tree']
    exact anchored_withChild _ _

/-- Memories that differ on the given nodes alone. -/
def AgreeOutside (nodes : List Place) (memory memory' : Memory Place) : Prop :=
  ∀ here, here ∉ nodes → memory' here = memory here

omit [DecidableEq Place] in
theorem AgreeOutside.trans {nodes : List Place} {first second third : Memory Place}
    (agree : AgreeOutside nodes first second) (agree' : AgreeOutside nodes second third) :
    AgreeOutside nodes first third :=
  fun here outside => (agree' here outside).trans (agree here outside)

omit [DecidableEq Place] in
theorem AgreeOutside.mono {nodes nodes' : List Place} {memory memory' : Memory Place}
    (within : ∀ node ∈ nodes, node ∈ nodes') (agree : AgreeOutside nodes memory memory') :
    AgreeOutside nodes' memory memory' :=
  fun here outside => agree here fun member => outside (within here member)

/-- Promotion changes the links of nodes of the tree alone. -/
theorem promoted_agree (memory : Memory Place) (context : Context Place) (side : Side)
    (outer inner far : BinaryTree Place) (child node : Place) :
    AgreeOutside (inorder (plug context (join side (join side outer child inner) node far))) memory
      (promoted side memory child node (above context) (root inner)
        (LinkedTree.hang context)) := by
  intro here outside
  have away : ∀ other ∈ inorder (join side (join side outer child inner) node far),
      here ≠ other := fun other member same => outside (same ▸ mem_plug member)
  simp only [mem_inorder_join] at away
  have notNode : here ≠ node := away node (.inr (.inl rfl))
  have notChild : here ≠ child := away child (.inl (.inr (.inl rfl)))
  have notInner : root inner ≠ some here := fun points =>
    away here (.inl (.inr (.inr (mem_of_root points)))) rfl
  unfold promoted
  rw [change_elsewhere notChild, hung_elsewhere fun points => outside (mem_of_above points),
    change_elsewhere notNode, change_elsewhere notChild, adopt_elsewhere notInner,
    change_elsewhere notNode]

/-- A child is promoted over its parent. -/
theorem Held.promote {memory : Memory Place} {context : Context Place} {side : Side}
    {outer inner far : BinaryTree Place} {child node : Place}
    (held : Held memory context (join side (join side outer child inner) node far)) :
    Held (promoted side memory child node (above context) (root inner) (LinkedTree.hang context))
      context (join side outer child (join side inner node far)) := by
  have parts := ((perm_join side _ far node).append_right (around context)).nodup_iff.mp held.nodup
  rw [List.cons_append, List.nodup_cons] at parts
  simp only [List.mem_append, mem_inorder_join, not_or] at parts
  have notAbove : above context ≠ some child :=
    held.above_ne ((mem_inorder_join _ _ _ _ _).mpr (.inl (mem_join _ _ _ _)))
  have notChild : some child ≠ some node :=
    fun same => parts.1.1.1.2.1 (Option.some_injective _ same).symm
  have notInner : root inner ≠ some node := fun points => parts.1.1.1.2.2 (mem_of_root points)
  have changed := LinkedTree.InMemory.promote held
  rw [pointer_eq] at changed
  unfold Held promoted
  rw [anchored_withParent notAbove,
    anchored_hung _ _ (join side (join side outer child inner) node far) (root_join _ _ _ _)]
  rw [show some child = some ((some child).getD node) from rfl, anchored_withParent notChild,
    anchored_withChild, anchored_adopt notInner, anchored_withChild]
  exact changed

/-! ### Trees taken out -/

/-- The memory in which the tree below a node has taken the place of that node, for the pointer
to it and the place above, if there is one. -/
def spliced (memory : Memory Place) (above child : Option Place) (hangs : Side) : Memory Place :=
  match child with
  | none => hung memory above hangs none
  | some node =>
    change (hung memory above hangs child) node fun cell =>
      cell.withParent (some (above.getD node))

/-- A splice changes the links of nodes of the tree alone. -/
theorem spliced_agree (memory : Memory Place) (context : Context Place) (tree : BinaryTree Place) :
    AgreeOutside (inorder (plug context tree)) memory
      (spliced memory (above context) (root tree) (LinkedTree.hang context)) := by
  intro here outside
  have notAbove : above context ≠ some here := fun points => outside (mem_of_above points)
  unfold spliced
  cases points : root tree with
  | none => exact hung_elsewhere notAbove
  | some child =>
    have notChild : here ≠ child := fun same => outside (same ▸ mem_plug (mem_of_root points))
    exact (change_elsewhere notChild).trans (hung_elsewhere notAbove)

/-- A node with one subtree is taken out: the subtree takes its place. -/
theorem Held.splice {memory : Memory Place} {context : Context Place} {side : Side}
    {tree : BinaryTree Place} {node : Place}
    (held : Held memory context (join side tree node .nil)) :
    Held (spliced memory (above context) (root tree) (LinkedTree.hang context)) context tree := by
  have changed := LinkedTree.InMemory.splice held
  rw [pointer_eq] at changed
  unfold Held spliced
  cases points : root tree with
  | none =>
    rw [anchored_hung _ _ (join side tree node .nil) points]
    rw [points] at changed
    exact changed
  | some child =>
    have notAbove : above context ≠ some child :=
      held.above_ne ((mem_inorder_join _ _ _ _ _).mpr (.inl (mem_of_root points)))
    rw [anchored_withParent notAbove, anchored_hung _ _ (join side tree node .nil) points]
    rw [points] at changed
    exact changed

/-! ### Leaves put in -/

/-- A node without children is put into an empty hole. -/
theorem Held.leaf {memory : Memory Place} {context : Context Place} {node : Place}
    {cell : Cell Place} (held : Held memory context .nil) (found : memory node = some cell)
    (empty : cell.leftChild = none ∧ cell.rightChild = none) (fresh : node ∉ around context) :
    Held (spliced memory (above context) (some node) (LinkedTree.hang context)) context
      (.node node .nil .nil) := by
  have notAbove : above context ≠ some node := fun same => by
    rcases LinkedTree.top_cases none context with top | ⟨other, member, top⟩
    · cases same.symm.trans top
    · cases top.trans same
      exact fresh member
  have distinct := LinkedTree.InMemory.apart held
  have own : anchored memory (root (plug context .nil)) (some node) =
      some (anchoredCell node cell) := by
    change (memory node).map _ = _
    rw [found]
    rfl
  unfold Held spliced
  rw [anchored_withParent notAbove,
    anchored_hung _ _ .nil (show root (.node node .nil .nil) = some node from rfl)]
  refine LinkedTree.InMemory.refill held ?_ ?_ (fun other member notTop => ?_) (fun notTop => ?_)
    ⟨?_, trivial, trivial⟩
  · refine PointerTree.distinct_cons.mpr ⟨⟨Option.some_ne_none _, distinct⟩, fun other member => ?_⟩
    exact fun same => fresh (Option.some_injective _ same ▸ member)
  · rw [LinkedTree.change_elsewhere notAbove, LinkedTree.change_same]
    rfl
  · have elsewhere : some other ≠ some node := fun same => by
      cases same
      exact fresh member
    rw [LinkedTree.change_elsewhere elsewhere, LinkedTree.change_elsewhere notTop]
  · rw [LinkedTree.change_elsewhere (Option.some_ne_none node).symm,
      LinkedTree.change_elsewhere notTop]
  · rw [LinkedTree.change_same, LinkedTree.change_elsewhere notAbove.symm, own]
    simp [anchoredCell, empty, LinkedTree.Cell.withParent, LinkedTree.link, PointerTree.pointer]

/-! ### Nodes permuted -/

/-- The links with every pointer renamed. -/
def Cell.map (rename : Place → Place) (cell : Cell Place) : Cell Place where
  parent := cell.parent.map rename
  leftChild := cell.leftChild.map rename
  rightChild := cell.rightChild.map rename

omit [DecidableEq Place] in
theorem inorder_map (rename : Place → Place) (tree : BinaryTree Place) :
    inorder (tree.map rename) = (inorder tree).map rename := by
  induction tree with
  | nil => rfl
  | node node left right leftHypothesis rightHypothesis =>
    rw [BinaryTree.map, inorder, inorder, leftHypothesis, rightHypothesis, List.map_append,
      List.map_cons]

omit [DecidableEq Place] in
theorem root_map (rename : Place → Place) (tree : BinaryTree Place) :
    root (tree.map rename) = (root tree).map rename := by
  cases tree <;> rfl

/-- A frame with its nodes renamed. -/
def renamed (rename : Place → Place) (frame : Frame Place) : Frame Place where
  side := frame.side
  node := rename frame.node
  sibling := frame.sibling.map rename

omit [DecidableEq Place] in
theorem join_map (rename : Place → Place) (side : Side) (near far : BinaryTree Place)
    (node : Place) :
    (join side near node far).map rename =
      join side (near.map rename) (rename node) (far.map rename) := by
  cases side <;> rfl

omit [DecidableEq Place] in
theorem plug_map (rename : Place → Place) (context : Context Place) (tree : BinaryTree Place) :
    (plug context tree).map rename = plug (context.map (renamed rename)) (tree.map rename) := by
  induction context generalizing tree with
  | nil => rfl
  | cons frame rest inductionHypothesis =>
    rw [plug_cons, inductionHypothesis, frame.fill_eq, join_map]
    rfl

omit [DecidableEq Place] in
theorem map_fixed {rename : Place → Place} {tree : BinaryTree Place}
    (fixed : ∀ node ∈ inorder tree, rename node = node) : tree.map rename = tree := by
  induction tree with
  | nil => rfl
  | node node left right leftHypothesis rightHypothesis =>
    rw [BinaryTree.map,
      leftHypothesis fun other member => fixed other (List.mem_append_left _ member),
      fixed node (List.mem_append_right _ List.mem_cons_self),
      rightHypothesis fun other member =>
        fixed other (List.mem_append_right _ (List.mem_cons_of_mem _ member))]

omit [DecidableEq Place] in
theorem map_renamed_fixed {rename : Place → Place} {context : Context Place}
    (fixed : ∀ node ∈ around context, rename node = node) :
    context.map (renamed rename) = context := by
  induction context with
  | nil => rfl
  | cons frame rest inductionHypothesis =>
    rw [List.map_cons, renamed, fixed frame.node List.mem_cons_self,
      map_fixed fun other member =>
        fixed other (List.mem_cons_of_mem _ (List.mem_append_left _ member)),
      inductionHypothesis fun other member =>
        fixed other (List.mem_cons_of_mem _ (List.mem_append_right _ member))]

omit [DecidableEq Place] in
theorem Below.map {memory memory' : Memory Place} {parent : Place} {tree : BinaryTree Place}
    {rename : Place → Place}
    (agree : ∀ node ∈ inorder tree, memory' (rename node) = (memory node).map (Cell.map rename))
    (below : Below memory parent tree) : Below memory' (rename parent) (tree.map rename) := by
  induction tree generalizing parent with
  | nil => trivial
  | node node left right leftHypothesis rightHypothesis =>
    obtain ⟨own, lefts, rights⟩ := below
    refine ⟨?_, leftHypothesis (fun other member => ?_) lefts,
      rightHypothesis (fun other member => ?_) rights⟩
    · rw [agree node (List.mem_append_right _ List.mem_cons_self), own, root_map, root_map]
      rfl
    · exact agree other (List.mem_append_left _ member)
    · exact agree other (List.mem_append_right _ (List.mem_cons_of_mem _ member))

omit [DecidableEq Place] in
/-- A memory in which the nodes of a tree have changed their places, in their links as well. -/
theorem Holds.map {memory memory' : Memory Place} {tree : BinaryTree Place} {rename : Place → Place}
    (injective : Function.Injective rename)
    (agree : ∀ node ∈ inorder tree, memory' (rename node) = (memory node).map (Cell.map rename))
    (holds : Holds memory tree) : Holds memory' (tree.map rename) := by
  cases tree with
  | nil => trivial
  | node node left right =>
    refine ⟨?_, holds.2.map agree⟩
    have renamed := inorder_map rename (.node node left right)
    rw [BinaryTree.map] at renamed
    rw [renamed]
    exact holds.1.map injective

end RootedTree
