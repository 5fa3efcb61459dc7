/-
This file is a library of balanced binary trees in memory whose nodes are linked both ways:
a node holds the pointers to its two children, the pointer to its parent, and its balance.
The root hangs on the right of an anchor, which is its own parent and has nothing on its
left; it carries a balance of its own.

A memory holds a tree in a context when each node of the two holds the links that the whole
tree gives it. The lemmas of this file say what the memory holds after a node has got another
balance, a child has been promoted over its parent, and the tree in a hole has been put in,
taken out or given to another node.

The library names nothing of the program it is used for.
-/

import Nloader.Library.PointerTree
import Nloader.Library.TreeContext

namespace LinkedTree

open TreePath TreeContext PointerTree

variable {Place Node : Type}

/-! ### Memory -/

/-- The links of a node. -/
structure Cell (Place : Type) where
  parent : Option Place
  leftChild : Option Place
  rightChild : Option Place
  balance : Int
  deriving DecidableEq

/-- The links in memory, at the places where there are any. -/
abbrev Memory (Place : Type) : Type := Place → Option (Cell Place)

/-- The child on a side. -/
def Cell.child (cell : Cell Place) : Side → Option Place
  | .left => cell.leftChild
  | .right => cell.rightChild

/-- The links with another child on a side. -/
def Cell.withChild (cell : Cell Place) (side : Side) (value : Option Place) : Cell Place :=
  match side with
  | .left => { cell with leftChild := value }
  | .right => { cell with rightChild := value }

/-- The links with another parent. -/
def Cell.withParent (cell : Cell Place) (value : Option Place) : Cell Place :=
  { cell with parent := value }

/-- The links with another balance. -/
def Cell.withBalance (cell : Cell Place) (value : Int) : Cell Place :=
  { cell with balance := value }

/-- The links of a node, with its child on a side and the one on the other side. -/
def link (side : Side) (parent near far : Option Place) (balance : Int) : Cell Place :=
  match side with
  | .left => { parent, leftChild := near, rightChild := far, balance }
  | .right => { parent, leftChild := far, rightChild := near, balance }

section Cells

variable (side : Side) (parent near far value : Option Place) (balance level : Int)

@[simp] theorem link_parent : (link side parent near far balance).parent = parent := by
  cases side <;> rfl

@[simp] theorem link_balance : (link side parent near far balance).balance = balance := by
  cases side <;> rfl

@[simp] theorem link_child : (link side parent near far balance).child side = near := by
  cases side <;> rfl

@[simp] theorem link_child_other :
    (link side parent near far balance).child side.other = far := by
  cases side <;> rfl

@[simp] theorem link_withChild :
    (link side parent near far balance).withChild side value =
      link side parent value far balance := by
  cases side <;> rfl

@[simp] theorem link_withChild_other :
    (link side parent near far balance).withChild side.other value =
      link side parent near value balance := by
  cases side <;> rfl

@[simp] theorem link_withParent :
    (link side parent near far balance).withParent value = link side value near far balance := by
  cases side <;> rfl

@[simp] theorem link_withBalance :
    (link side parent near far balance).withBalance level = link side parent near far level := by
  cases side <;> rfl

end Cells

section Changes

variable [DecidableEq Place]

/-- The memory with the links at one place changed. -/
def change (memory : Memory Place) (target : Place) (next : Cell Place → Cell Place) :
    Memory Place :=
  Function.update memory target ((memory target).map next)

@[simp] theorem change_same (memory : Memory Place) (target : Place)
    (next : Cell Place → Cell Place) :
    change memory target next target = (memory target).map next :=
  Function.update_self _ _ _

theorem change_elsewhere {memory : Memory Place} {target here : Place}
    {next : Cell Place → Cell Place} (elsewhere : here ≠ target) :
    change memory target next here = memory here :=
  Function.update_of_ne elsewhere _ _

/-- The memory with another parent for what a pointer leads to, unless it is NULL. -/
def adopt (memory : Memory Place) (child : Option Place) (parent : Place) : Memory Place :=
  match child with
  | none => memory
  | some target => change memory target fun cell => cell.withParent (some parent)

theorem adopt_elsewhere {memory : Memory Place} {child : Option Place} {parent here : Place}
    (elsewhere : child ≠ some here) : adopt memory child parent here = memory here := by
  cases child with
  | none => rfl
  | some target => exact change_elsewhere fun same => elsewhere (by rw [same])

/-- What adoption does to a place depends on what is there alone. -/
theorem adopt_congr {memory memory' : Memory Place} {child : Option Place} {parent here : Place}
    (agree : memory here = memory' here) :
    adopt memory child parent here = adopt memory' child parent here := by
  by_cases found : child = some here
  · rw [found, adopt, adopt, change_same, change_same, agree]
  · rw [adopt_elsewhere found, adopt_elsewhere found, agree]

end Changes

/-! ### Trees and contexts in memory -/

variable (place : Node → Place) (balance : Node → Int)

/-- The nodes of a tree under a parent hold their links. -/
def Represents (memory : Memory Place) (parent : Place) : BinaryTree Node → Prop
  | .nil => True
  | .node node left right =>
    memory (place node) =
        some (link .left (some parent) (pointer place left) (pointer place right)
          (balance node)) ∧
      Represents memory (place node) left ∧ Represents memory (place node) right

/-- The place that the tree in a hole hangs on. -/
def top (anchor : Place) : Context Node → Place
  | [] => anchor
  | frame :: _ => place frame.node

/-- The side of that place. -/
def hang : Context Node → Side
  | [] => .right
  | frame :: _ => frame.side

theorem top_nil (anchor : Place) : top place anchor ([] : Context Node) = anchor := rfl

theorem top_cons (anchor : Place) (frame : Frame Node) (rest : Context Node) :
    top place anchor (frame :: rest) = place frame.node := rfl

theorem hang_nil : hang ([] : Context Node) = .right := rfl

theorem hang_cons (frame : Frame Node) (rest : Context Node) :
    hang (frame :: rest) = frame.side := rfl

/-- The nodes of a context, and its anchor with the given balance, hold their links around a
tree with the given pointer. -/
def Surrounds (anchor : Place) (memory : Memory Place) (level : Int) :
    Option Place → Context Node → Prop
  | below, [] => memory anchor = some (link .right (some anchor) below none level)
  | below, frame :: rest =>
    memory (place frame.node) =
        some (link frame.side (some (top place anchor rest)) below
          (pointer place frame.sibling) (balance frame.node)) ∧
      Represents place balance memory (place frame.node) frame.sibling ∧
        Surrounds anchor memory level (some (place frame.node)) rest

/-- A memory holds a tree in a context: its nodes, told apart by their places, have their
links there. -/
structure InMemory (anchor : Place) (memory : Memory Place) (level : Int) (context : Context Node)
    (tree : BinaryTree Node) : Prop where
  below : Represents place balance memory (top place anchor context) tree
  above : Surrounds place balance anchor memory level (pointer place tree) context
  distinct : Distinct place anchor (inorder (plug context tree))

variable {place balance} {anchor : Place} {memory memory' : Memory Place} {level : Int}
  {context : Context Node}

theorem represents_join (side : Side) (parent : Place) (near far : BinaryTree Node)
    (node : Node) :
    Represents place balance memory parent (join side near node far) ↔
      memory (place node) =
          some (link side (some parent) (pointer place near) (pointer place far)
            (balance node)) ∧
        Represents place balance memory (place node) near ∧
          Represents place balance memory (place node) far := by
  cases side with
  | left => rfl
  | right => exact and_congr_right' and_comm

/-- The tree below a frame, or the frame above the tree. -/
theorem inMemory_cons {frame : Frame Node} {tree : BinaryTree Node} :
    InMemory place balance anchor memory level (frame :: context) tree ↔
      InMemory place balance anchor memory level context (frame.fill tree) := by
  constructor
  · rintro ⟨trees, ⟨own, siblings, contexts⟩, distinct⟩
    refine ⟨(represents_join _ _ _ _ _).mpr ⟨own, trees, siblings⟩, ?_, distinct⟩
    rwa [frame.fill_eq, pointer_join]
  · rintro ⟨trees, contexts, distinct⟩
    obtain ⟨own, trees, siblings⟩ := (represents_join _ _ _ _ _).mp trees
    rw [frame.fill_eq, pointer_join] at contexts
    exact ⟨trees, ⟨own, siblings, contexts⟩, distinct⟩

/-- The whole tree hangs on the anchor. -/
theorem inMemory_plug {tree : BinaryTree Node} :
    InMemory place balance anchor memory level context tree ↔
      InMemory place balance anchor memory level [] (plug context tree) := by
  induction context generalizing tree with
  | nil => rfl
  | cons frame rest inductionHypothesis => exact inMemory_cons.trans inductionHypothesis

theorem distinct_perm {nodes nodes' : List Node} (perm : nodes.Perm nodes')
    (distinct : Distinct place anchor nodes) : Distinct place anchor nodes' :=
  ⟨(perm.map place).nodup_iff.mp distinct.nodup,
    fun node member => distinct.anchor node (perm.mem_iff.mpr member)⟩

/-- The nodes in a hole and those around it are told apart. -/
theorem InMemory.apart {tree : BinaryTree Node}
    (holds : InMemory place balance anchor memory level context tree) :
    Distinct place anchor (inorder tree ++ around context) :=
  distinct_perm (perm_plug context tree) holds.distinct

/-- A pointer to a tree leads to one of its nodes. -/
theorem exists_of_pointer {tree : BinaryTree Node} {here : Place}
    (points : pointer place tree = some here) : ∃ node ∈ inorder tree, place node = here := by
  cases tree with
  | nil => exact absurd points nofun
  | node node left right =>
    exact ⟨node, List.mem_append_right _ List.mem_cons_self, Option.some.inj points⟩

/-- The place above a hole is the anchor or a node of the context. -/
theorem top_cases (anchor : Place) (context : Context Node) :
    top place anchor context = anchor ∨
      ∃ node ∈ around context, place node = top place anchor context := by
  cases context with
  | nil => exact .inl rfl
  | cons frame rest => exact .inr ⟨frame.node, List.mem_cons_self, rfl⟩

/-- The place above a hole is none of the nodes in it. -/
theorem ne_top {nodes : List Node} (distinct : Distinct place anchor (nodes ++ around context))
    {node : Node} (member : node ∈ nodes) : place node ≠ top place anchor context := by
  rw [distinct_append] at distinct
  rcases top_cases anchor context with atAnchor | ⟨other, outside, same⟩
  · rw [atAnchor]
    exact distinct.1.1.anchor node member
  · rw [← same]
    exact distinct.2 node member other outside

/-! ### Memories that agree -/

theorem Represents.congr {parent : Place} {tree : BinaryTree Node}
    (agree : ∀ node ∈ inorder tree, memory' (place node) = memory (place node))
    (holds : Represents place balance memory parent tree) :
    Represents place balance memory' parent tree := by
  induction tree generalizing parent with
  | nil => trivial
  | node node left right leftHypothesis rightHypothesis =>
    obtain ⟨own, lefts, rights⟩ := holds
    refine ⟨?_, leftHypothesis (fun other member => ?_) lefts,
      rightHypothesis (fun other member => ?_) rights⟩
    · rw [agree node (List.mem_append_right _ List.mem_cons_self)]
      exact own
    · exact agree other (List.mem_append_left _ member)
    · exact agree other (List.mem_append_right _ (List.mem_cons_of_mem _ member))

theorem Surrounds.congr {below : Option Place}
    (agree : ∀ node ∈ around context, memory' (place node) = memory (place node))
    (anchored : memory' anchor = memory anchor)
    (holds : Surrounds place balance anchor memory level below context) :
    Surrounds place balance anchor memory' level below context := by
  induction context generalizing below with
  | nil => exact anchored.trans holds
  | cons frame rest inductionHypothesis =>
    obtain ⟨own, siblings, others⟩ := holds
    rw [around] at agree
    refine ⟨?_, siblings.congr fun other member => ?_,
      inductionHypothesis (fun other member => ?_) others⟩
    · rw [agree frame.node List.mem_cons_self]
      exact own
    · exact agree other (List.mem_cons_of_mem _ (List.mem_append_left _ member))
    · exact agree other (List.mem_cons_of_mem _ (List.mem_append_right _ member))

/-- A context that hangs another tree: the place above the hole points to it. -/
theorem Surrounds.hang {below value : Option Place}
    (holds : Surrounds place balance anchor memory level below context)
    (distinct : Distinct place anchor (around context))
    (hung : memory' (top place anchor context) =
      (memory (top place anchor context)).map fun cell =>
        cell.withChild (LinkedTree.hang context) value)
    (agree : ∀ node ∈ around context, place node ≠ top place anchor context →
      memory' (place node) = memory (place node))
    (anchored : anchor ≠ top place anchor context → memory' anchor = memory anchor) :
    Surrounds place balance anchor memory' level value context := by
  cases context with
  | nil =>
    change memory' anchor = _
    rw [show memory' anchor = _ from hung, top_nil, show memory anchor = _ from holds]
    rfl
  | cons frame rest =>
    obtain ⟨own, siblings, others⟩ := holds
    rw [around, distinct_cons, distinct_append] at distinct
    obtain ⟨⟨notAnchor, _⟩, across⟩ := distinct
    have away : ∀ other ∈ inorder frame.sibling ++ around rest,
        memory' (place other) = memory (place other) := fun other member =>
      agree other (List.mem_cons_of_mem _ member) (across other member).symm
    refine ⟨?_, siblings.congr fun other member => away other (List.mem_append_left _ member),
      others.congr (fun other member => away other (List.mem_append_right _ member))
        (anchored notAnchor.symm)⟩
    rw [show memory' (place frame.node) = _ from hung, top_cons, own]
    exact congrArg some (link_withChild _ _ _ _ _ _)

/-- Another tree in the hole: the place above it points to the tree, and the rest of the
context is left alone. -/
theorem InMemory.refill {tree tree' : BinaryTree Node}
    (holds : InMemory place balance anchor memory level context tree)
    (distinct : Distinct place anchor (inorder tree' ++ around context))
    (hung : memory' (top place anchor context) =
      (memory (top place anchor context)).map fun cell =>
        cell.withChild (LinkedTree.hang context) (pointer place tree'))
    (agree : ∀ node ∈ around context, place node ≠ top place anchor context →
      memory' (place node) = memory (place node))
    (anchored : anchor ≠ top place anchor context → memory' anchor = memory anchor)
    (below : Represents place balance memory' (top place anchor context) tree') :
    InMemory place balance anchor memory' level context tree' :=
  ⟨below, holds.above.hang (distinct_append.mp holds.apart).1.2 hung agree anchored,
    distinct_perm (perm_plug context tree').symm distinct⟩

/-- What the place above a hole holds. -/
theorem Surrounds.exists_link {below : Option Place}
    (holds : Surrounds place balance anchor memory level below context) :
    ∃ parent far value, memory (top place anchor context) =
      some (link (LinkedTree.hang context) (some parent) below far value) := by
  cases context with
  | nil => exact ⟨_, _, _, holds⟩
  | cons frame rest => exact ⟨_, _, _, holds.1⟩

/-- The place above a hole points to what is in the hole on one side only. -/
theorem InMemory.child_top {tree : BinaryTree Node} {here : Place}
    (holds : InMemory place balance anchor memory level context tree) (side : Side)
    (points : pointer place tree = some here) :
    ∃ cell, memory (top place anchor context) = some cell ∧
      (cell.child side = some here ↔ LinkedTree.hang context = side) := by
  have apart := distinct_append.mp holds.apart
  obtain ⟨node, member, rfl⟩ := exists_of_pointer points
  have above := holds.above
  rw [points] at above
  cases context with
  | nil =>
    refine ⟨_, above, ?_⟩
    cases side with
    | left => exact iff_of_false nofun nofun
    | right => exact iff_of_true rfl rfl
  | cons frame rest =>
    refine ⟨_, above.1, ?_⟩
    by_cases same : frame.side = side
    · subst same
      exact iff_of_true (link_child _ _ _ _ _) rfl
    · have flipped : side = frame.side.other := by
        cases side <;> cases sided : frame.side <;> first | rfl | exact absurd sided same
      refine iff_of_false (fun found => ?_) same
      rw [flipped, link_child_other] at found
      obtain ⟨other, inside, equal⟩ := exists_of_pointer found
      exact apart.2 node member other
        (List.mem_cons_of_mem _ (List.mem_append_left _ inside)) equal.symm

/-- A memory that agrees on the anchor and on the nodes of the whole tree. -/
theorem InMemory.congr {tree : BinaryTree Node}
    (holds : InMemory place balance anchor memory level context tree)
    (agree : ∀ node ∈ inorder (plug context tree), memory' (place node) = memory (place node))
    (anchored : memory' anchor = memory anchor) :
    InMemory place balance anchor memory' level context tree := by
  have whole := inMemory_plug.mp holds
  exact inMemory_plug.mpr
    ⟨whole.below.congr agree, whole.above.congr (fun _ member => absurd member List.not_mem_nil)
      anchored, whole.distinct⟩

/-! ### Balances -/

/-- The node at the top of a hole, and the nodes it is told apart from. -/
theorem InMemory.apart_join {side : Side} {near far : BinaryTree Node} {node : Node}
    (holds : InMemory place balance anchor memory level context (join side near node far)) :
    Distinct place anchor (node :: (inorder near ++ inorder far ++ around context)) :=
  distinct_perm ((perm_join side near far node).append_right _) holds.apart

variable [DecidableEq Place]

/-- The node at the top of a hole gets another balance. -/
theorem InMemory.setBalance {side : Side} {near far : BinaryTree Node} {node : Node}
    (holds : InMemory place balance anchor memory level context (join side near node far))
    (node' : Node) (same : place node' = place node) :
    InMemory place balance anchor
      (change memory (place node) fun cell => cell.withBalance (balance node')) level context
      (join side near node' far) := by
  have apart := holds.apart_join
  have apart' := apart
  rw [distinct_cons] at apart'
  obtain ⟨⟨notAnchor, _⟩, across⟩ := apart'
  simp only [List.mem_append] at across
  obtain ⟨below, above, _⟩ := holds
  obtain ⟨own, nears, fars⟩ := (represents_join _ _ _ _ _).mp below
  refine ⟨(represents_join _ _ _ _ _).mpr ⟨?_, ?_, ?_⟩, ?_, ?_⟩
  · rw [same, change_same, own]
    exact congrArg some (link_withBalance _ _ _ _ _ _)
  · rw [same]
    exact nears.congr fun other member =>
      change_elsewhere (across other (.inl (.inl member))).symm
  · rw [same]
    exact fars.congr fun other member =>
      change_elsewhere (across other (.inl (.inr member))).symm
  · rw [pointer_join, same]
    rw [pointer_join] at above
    exact above.congr
      (fun other member => change_elsewhere (across other (.inr member)).symm)
      (change_elsewhere notAnchor.symm)
  · refine distinct_perm (perm_plug context _).symm ?_
    refine distinct_perm ((perm_join side near far node').append_right _).symm ?_
    rw [List.cons_append, distinct_cons, same]
    exact distinct_cons.mp apart

/-- The anchor gets another balance. -/
theorem Surrounds.setLevel {below : Option Place}
    (holds : Surrounds place balance anchor memory level below context)
    (distinct : Distinct place anchor (around context)) (value : Int) :
    Surrounds place balance anchor (change memory anchor fun cell => cell.withBalance value) value
      below context := by
  induction context generalizing below with
  | nil =>
    change change memory anchor _ anchor = _
    rw [change_same, show memory anchor = _ from holds]
    rfl
  | cons frame rest inductionHypothesis =>
    obtain ⟨own, siblings, others⟩ := holds
    rw [around, distinct_cons, distinct_append] at distinct
    obtain ⟨⟨notAnchor, ⟨inSibling, inRest⟩, _⟩, _⟩ := distinct
    refine ⟨?_, siblings.congr fun other member => ?_, inductionHypothesis others inRest⟩
    · rw [change_elsewhere notAnchor]
      exact own
    · exact change_elsewhere (inSibling.anchor other member)

theorem InMemory.setLevel {tree : BinaryTree Node}
    (holds : InMemory place balance anchor memory level context tree) (value : Int) :
    InMemory place balance anchor (change memory anchor fun cell => cell.withBalance value) value
      context tree := by
  have apart := distinct_append.mp holds.apart
  refine ⟨holds.below.congr fun other member => ?_, holds.above.setLevel apart.1.2 value,
    holds.distinct⟩
  exact change_elsewhere (apart.1.1.anchor other member)

/-! ### Promotion -/

omit [DecidableEq Place] in
theorem inorder_rotate (side : Side) (outer inner far : BinaryTree Node) (child node : Node) :
    inorder (join side outer child (join side inner node far)) =
      inorder (join side (join side outer child inner) node far) := by
  cases side <;> simp [join, inorder]

/-- A tree whose root gets another parent. -/
theorem Represents.adopt {parent parent' : Place} {tree : BinaryTree Node}
    (holds : Represents place balance memory parent tree)
    (distinct : Distinct place anchor (inorder tree))
    (agree : ∀ node ∈ inorder tree, memory' (place node) =
      LinkedTree.adopt memory (pointer place tree) parent' (place node)) :
    Represents place balance memory' parent' tree := by
  cases tree with
  | nil => trivial
  | node node left right =>
    obtain ⟨own, lefts, rights⟩ := holds
    have apart := distinct_perm (perm_join .left left right node) distinct
    rw [distinct_cons] at apart
    have away : ∀ other ∈ inorder left ++ inorder right,
        LinkedTree.adopt memory (some (place node)) parent' (place other) = memory (place other) :=
      fun other member => adopt_elsewhere fun same => apart.2 other member (Option.some.inj same)
    refine ⟨?_, lefts.congr fun other member => ?_, rights.congr fun other member => ?_⟩
    · refine (agree node (List.mem_append_right _ List.mem_cons_self)).trans ?_
      rw [pointer, LinkedTree.adopt, change_same, own]
      rfl
    · exact (agree other (List.mem_append_left _ member)).trans
        (away other (List.mem_append_left _ member))
    · exact (agree other (List.mem_append_right _ (List.mem_cons_of_mem _ member))).trans
        (away other (List.mem_append_right _ member))

/-- The memory in which a child, on a side of a node, has been promoted over that node, for
the pointer to its inner subtree and the place above them. -/
def promoted (side : Side) (memory : Memory Place) (child node above : Place)
    (inner : Option Place) (hangs : Side) : Memory Place :=
  let memory := change memory node fun cell => cell.withChild side inner
  let memory := LinkedTree.adopt memory inner node
  let memory := change memory child fun cell => cell.withChild side.other (some node)
  let memory := change memory node fun cell => cell.withParent (some child)
  let memory := change memory above fun cell => cell.withChild hangs (some child)
  change memory child fun cell => cell.withParent (some above)

theorem promoted_elsewhere {side hangs : Side} {child node above here : Place}
    {inner : Option Place} (notChild : here ≠ child) (notNode : here ≠ node)
    (notAbove : here ≠ above) :
    promoted side memory child node above inner hangs here =
      LinkedTree.adopt memory inner node here := by
  unfold promoted
  rw [change_elsewhere notChild, change_elsewhere notAbove, change_elsewhere notNode,
    change_elsewhere notChild]
  exact adopt_congr (change_elsewhere notNode)

/-- A child is promoted over its parent. -/
theorem InMemory.promote {side : Side} {outer inner far : BinaryTree Node} {child node : Node}
    (holds : InMemory place balance anchor memory level context
      (join side (join side outer child inner) node far)) :
    InMemory place balance anchor
      (promoted side memory (place child) (place node) (top place anchor context)
        (pointer place inner) (hang context)) level context
      (join side outer child (join side inner node far)) := by
  have apart := holds.apart
  have parts := distinct_perm
    ((((perm_join side outer inner child).append_right _).append_right _).cons node)
    holds.apart_join
  have nodeTop : place node ≠ top place anchor context := ne_top apart (by simp)
  have childTop : place child ≠ top place anchor context := ne_top apart (by simp)
  have innerTop : pointer place inner ≠ some (top place anchor context) := fun points => by
    obtain ⟨first, member, same⟩ := exists_of_pointer points
    exact ne_top apart (by simp [member]) same
  rw [distinct_cons, List.cons_append, List.cons_append, distinct_cons] at parts
  simp only [List.mem_append, List.mem_cons] at parts
  obtain ⟨⟨nodeAnchor, ⟨⟨childAnchor, others⟩, childApart⟩⟩, nodeApart⟩ := parts
  have childNode : place node ≠ place child := nodeApart child (.inl rfl)
  rw [distinct_append, distinct_append, distinct_append] at others
  obtain ⟨⟨⟨⟨⟨⟨_, inInner⟩, outerInner⟩, _⟩, innerFar⟩, _⟩, innerAround⟩ := others
  simp only [List.mem_append] at innerFar innerAround
  have kept : ∀ other, (other ∈ inorder outer ∨ other ∈ inorder far ∨ other ∈ around context) →
      place other ≠ top place anchor context →
      promoted side memory (place child) (place node) (top place anchor context)
        (pointer place inner) (hang context) (place other) = memory (place other) := by
    intro other member notTop
    rw [promoted_elsewhere (fun same => ?_) (fun same => ?_) notTop,
      adopt_elsewhere fun points => ?_]
    · obtain ⟨first, inside, same⟩ := exists_of_pointer points
      grind
    · grind
    · grind
  obtain ⟨nodeOwn, below, fars⟩ := (represents_join _ _ _ _ _).mp holds.below
  obtain ⟨childOwn, outers, inners⟩ := (represents_join _ _ _ _ _).mp below
  refine holds.refill ?_ ?_ (fun other member notTop => kept other (.inr (.inr member)) notTop)
    (fun notTop => ?_) ((represents_join _ _ _ _ _).mpr ⟨?_, ?_, ?_⟩)
  · rw [inorder_rotate]
    exact apart
  · unfold promoted
    rw [change_elsewhere childTop.symm, change_same, change_elsewhere nodeTop.symm,
      change_elsewhere childTop.symm, adopt_elsewhere innerTop, change_elsewhere nodeTop.symm,
      pointer_join]
  · rw [promoted_elsewhere childAnchor.symm nodeAnchor.symm notTop,
      adopt_elsewhere fun points => ?_]
    obtain ⟨first, inside, same⟩ := exists_of_pointer points
    exact inInner.anchor first inside same
  · unfold promoted
    rw [change_same, change_elsewhere childTop, change_elsewhere childNode.symm, change_same,
      adopt_elsewhere fun points => ?_, change_elsewhere childNode.symm, childOwn, pointer_join]
    · simp only [Option.map_some, link_withChild_other, link_withParent]
    · obtain ⟨first, inside, same⟩ := exists_of_pointer points
      exact childApart first (.inl (.inl (.inr inside))) same.symm
  · refine outers.congr fun other member =>
      kept other (.inl member) (ne_top apart (by simp [member]))
  · refine (represents_join _ _ _ _ _).mpr ⟨?_, ?_, ?_⟩
    · unfold promoted
      rw [change_elsewhere childNode, change_elsewhere nodeTop, change_same,
        change_elsewhere childNode, adopt_elsewhere fun points => ?_, change_same, nodeOwn]
      · simp only [Option.map_some, link_withChild, link_withParent]
      · obtain ⟨first, inside, same⟩ := exists_of_pointer points
        exact nodeApart first (.inr (.inl (.inl (.inr inside)))) same.symm
    · refine inners.adopt inInner fun other member => promoted_elsewhere (fun same => ?_)
        (fun same => ?_) (ne_top apart (by simp [member]))
      · exact childApart other (.inl (.inl (.inr member))) same.symm
      · exact nodeApart other (.inr (.inl (.inl (.inr member)))) same.symm
    · exact fars.congr fun other member =>
        kept other (.inr (.inl member)) (ne_top apart (by simp [member]))

/-! ### Trees taken out, and nodes replaced -/

/-- A node with one subtree is taken out: the subtree takes its place. -/
theorem InMemory.splice {side : Side} {tree : BinaryTree Node} {node : Node}
    (holds : InMemory place balance anchor memory level context (join side tree node .nil)) :
    InMemory place balance anchor
      (adopt (change memory (top place anchor context) fun cell =>
        cell.withChild (hang context) (pointer place tree)) (pointer place tree)
        (top place anchor context)) level context tree := by
  have parts := holds.apart_join
  rw [inorder, List.append_nil, distinct_cons] at parts
  obtain ⟨⟨_, apart⟩, _⟩ := parts
  obtain ⟨⟨inTree, _⟩, across⟩ := distinct_append.mp apart
  have notPointed : ∀ other ∈ around context, pointer place tree ≠ some (place other) := by
    intro other member points
    obtain ⟨first, inside, same⟩ := exists_of_pointer points
    exact across first inside other member same
  have topNotPointed : pointer place tree ≠ some (top place anchor context) := by
    intro points
    obtain ⟨first, inside, same⟩ := exists_of_pointer points
    exact ne_top apart inside same
  obtain ⟨_, below, _⟩ := (represents_join _ _ _ _ _).mp holds.below
  refine holds.refill apart ?_ (fun other member notTop => ?_) (fun notTop => ?_) ?_
  · rw [adopt_elsewhere topNotPointed, change_same]
  · rw [adopt_elsewhere (notPointed other member), change_elsewhere notTop]
  · rw [adopt_elsewhere fun points => ?_, change_elsewhere notTop]
    obtain ⟨first, inside, same⟩ := exists_of_pointer points
    exact inTree.anchor first inside same
  · refine Represents.adopt (below.congr fun other member => ?_) inTree fun other _ => rfl
    exact change_elsewhere (ne_top apart member)

/-- The memory in which one node has got the links of another one: the place above points to
it, and so do its children. -/
def replaced (memory : Memory Place) (old new above : Place) (left right : Option Place)
    (hangs : Side) : Memory Place :=
  let memory := Function.update memory new (memory old)
  let memory := change memory above fun cell => cell.withChild hangs (some new)
  let memory := adopt memory left new
  adopt memory right new

theorem replaced_elsewhere {old new above here : Place} {left right : Option Place}
    {hangs : Side} (notNew : here ≠ new) (notAbove : here ≠ above)
    (notLeft : left ≠ some here) (notRight : right ≠ some here) :
    replaced memory old new above left right hangs here = memory here := by
  unfold replaced
  rw [adopt_elsewhere notRight, adopt_elsewhere notLeft, change_elsewhere notAbove,
    Function.update_of_ne notNew]

/-- A node outside of the tree takes the place of one inside. -/
theorem InMemory.replace {left right : BinaryTree Node} {node : Node}
    (holds : InMemory place balance anchor memory level context (.node node left right))
    (node' : Node) (same : balance node' = balance node)
    (fresh : Distinct place anchor (inorder (.node node' left right) ++ around context)) :
    InMemory place balance anchor
      (replaced memory (place node) (place node') (top place anchor context)
        (pointer place left) (pointer place right) (hang context)) level context
      (.node node' left right) := by
  obtain ⟨own, lefts, rights⟩ := holds.below
  have parts := distinct_perm ((perm_join .left left right node').append_right _) fresh
  rw [List.cons_append, distinct_cons] at parts
  obtain ⟨⟨notAnchor, apart⟩, across⟩ := parts
  obtain ⟨⟨inSides, _⟩, sidesAround⟩ := distinct_append.mp apart
  obtain ⟨⟨inLeft, inRight⟩, leftRight⟩ := distinct_append.mp inSides
  have topOf : ∀ other ∈ inorder (.node node' left right),
      place other ≠ top place anchor context := fun other member => ne_top fresh member
  have leftNot : ∀ here, (∀ other ∈ inorder left, place other ≠ here) →
      pointer place left ≠ some here := by
    intro here away points
    obtain ⟨first, inside, rfl⟩ := exists_of_pointer points
    exact away first inside rfl
  have rightNot : ∀ here, (∀ other ∈ inorder right, place other ≠ here) →
      pointer place right ≠ some here := by
    intro here away points
    obtain ⟨first, inside, rfl⟩ := exists_of_pointer points
    exact away first inside rfl
  simp only [inorder, List.mem_append, List.mem_cons] at topOf across sidesAround
  refine holds.refill fresh ?_ (fun other member notTop => ?_) (fun notTop => ?_) ⟨?_, ?_, ?_⟩
  · unfold replaced
    rw [adopt_elsewhere (rightNot _ fun other member => topOf other (.inr (.inr member))),
      adopt_elsewhere (leftNot _ fun other member => topOf other (.inl member)), change_same,
      Function.update_of_ne (topOf node' (.inr (.inl rfl))).symm]
    rfl
  · exact replaced_elsewhere (across other (.inr member)).symm notTop
      (leftNot _ fun first inside => sidesAround first (.inl inside) other member)
      (rightNot _ fun first inside => sidesAround first (.inr inside) other member)
  · exact replaced_elsewhere notAnchor.symm notTop
      (leftNot _ fun first inside => inLeft.anchor first inside)
      (rightNot _ fun first inside => inRight.anchor first inside)
  · unfold replaced
    rw [adopt_elsewhere (rightNot _ fun other member => (across other (.inl (.inr member))).symm),
      adopt_elsewhere (leftNot _ fun other member => (across other (.inl (.inl member))).symm),
      change_elsewhere (topOf node' (.inr (.inl rfl))), Function.update_self, own, same]
  · refine lefts.adopt inLeft fun other member => ?_
    unfold replaced
    rw [adopt_elsewhere (rightNot _ fun first inside => (leftRight other member first inside).symm)]
    refine adopt_congr ?_
    rw [change_elsewhere (topOf other (.inl member)),
      Function.update_of_ne (across other (.inl (.inl member))).symm]
  · refine rights.adopt inRight fun other member => ?_
    unfold replaced
    refine adopt_congr ?_
    rw [adopt_elsewhere (leftNot _ fun first inside => leftRight first inside other member),
      change_elsewhere (topOf other (.inr (.inr member))),
      Function.update_of_ne (across other (.inl (.inr member))).symm]

end LinkedTree
