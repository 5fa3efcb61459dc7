/-
This file is a library of height-balanced trees whose nodes carry their balance: the height
of the right subtree minus that of the left one. A context fits a height when every balance
on the way up is right for a tree of that height in the hole.

Where the tree in the hole has grown by one level, or has lost one, the lemmas of this file
say what the node above the hole has to do: take another balance and pass the change on,
take another balance and stop, or rotate. A rotation is single or double, and only one kind
of it, which a lost level alone leads to, keeps the height of the tree.

The library names nothing of the program it is used for.
-/

import Nloader.Library.TreeContext

namespace AvlTree

open TreePath TreeContext

variable {Body : Type}

/-! ### Balances -/

/-- The balance of a node that is heavy on a side. -/
def heavy : Side → Int
  | .left => -1
  | .right => 1

@[simp] theorem heavy_other (side : Side) : heavy side.other = -heavy side := by
  cases side <;> rfl

@[simp] theorem heavy_ne_zero (side : Side) : heavy side ≠ 0 := by cases side <;> decide

@[simp] theorem heavy_ne_neg (side : Side) : heavy side ≠ -heavy side := by
  cases side <;> decide

@[simp] theorem neg_heavy_ne (side : Side) : -heavy side ≠ heavy side := by
  cases side <;> decide

/-- The balance of a node with subtrees of these heights on a side and on the other one. -/
structure Leans (side : Side) (near far : Nat) (balance : Int) : Prop where
  difference : balance = heavy side * (near - far)
  lower : -1 ≤ balance
  upper : balance ≤ 1

/-- There are three balances. -/
theorem leans_iff {side : Side} {near far : Nat} {balance : Int} :
    Leans side near far balance ↔
      (balance = heavy side ∧ near = far + 1) ∨ (balance = 0 ∧ near = far) ∨
        (balance = -heavy side ∧ far = near + 1) := by
  constructor
  · rintro ⟨difference, lower, upper⟩
    cases side <;> simp only [heavy] at difference ⊢ <;> omega
  · intro cases
    refine ⟨?_, ?_, ?_⟩ <;> cases side <;> simp only [heavy] at cases ⊢ <;> omega

theorem leans_other {side : Side} {near far : Nat} {balance : Int} :
    Leans side.other near far balance ↔ Leans side far near balance := by
  rw [leans_iff, leans_iff, heavy_other, neg_neg]
  tauto

theorem Leans.near_higher {side : Side} {near far : Nat}
    (leans : Leans side near far (heavy side)) : near = far + 1 := by
  have nonzero := heavy_ne_zero side
  rcases leans_iff.mp leans with ⟨_, higher⟩ | ⟨level, _⟩ | ⟨opposite, _⟩ <;> omega

theorem Leans.level {side : Side} {near far : Nat} (leans : Leans side near far 0) :
    far = near := by
  have nonzero := heavy_ne_zero side
  rcases leans_iff.mp leans with ⟨leaning, _⟩ | ⟨_, level⟩ | ⟨leaning, _⟩ <;> omega

theorem Leans.far_higher {side : Side} {near far : Nat}
    (leans : Leans side near far (-heavy side)) : far = near + 1 := by
  have nonzero := heavy_ne_zero side
  rcases leans_iff.mp leans with ⟨opposite, _⟩ | ⟨level, _⟩ | ⟨_, higher⟩ <;> omega

theorem leans_near (side : Side) (height : Nat) : Leans side (height + 1) height (heavy side) :=
  leans_iff.mpr (.inl ⟨rfl, rfl⟩)

theorem leans_level (side : Side) (height : Nat) : Leans side height height 0 :=
  leans_iff.mpr (.inr (.inl ⟨rfl, rfl⟩))

theorem leans_far (side : Side) (height : Nat) : Leans side height (height + 1) (-heavy side) :=
  leans_iff.mpr (.inr (.inr ⟨rfl, rfl⟩))

/-! ### Balanced trees -/

/-- Every node carries its balance, and no balance is beyond one level. -/
def Balanced : BinaryTree (Body × Int) → Prop
  | .nil => True
  | .node node left right =>
    Leans .left left.height right.height node.2 ∧ Balanced left ∧ Balanced right

theorem height_join {Node : Type} (side : Side) (near far : BinaryTree Node) (node : Node) :
    (join side near node far).height = max near.height far.height + 1 := by
  cases side with
  | left => rfl
  | right => exact congrArg (· + 1) (max_comm _ _)

theorem balanced_join (side : Side) (near far : BinaryTree (Body × Int)) (node : Body × Int) :
    Balanced (join side near node far) ↔
      Leans side near.height far.height node.2 ∧ Balanced near ∧ Balanced far := by
  cases side with
  | left => rfl
  | right =>
    rw [join, Balanced, ← Side.other_left, leans_other]
    tauto

/-- The context is balanced around a tree of this height. -/
def Fits : Context (Body × Int) → Nat → Prop
  | [], _ => True
  | frame :: rest, height =>
    Leans frame.side height frame.sibling.height frame.node.2 ∧ Balanced frame.sibling ∧
      Fits rest (max height frame.sibling.height + 1)

/-- The height of the whole tree around a tree of this height. -/
def heightAbove {Node : Type} : Context Node → Nat → Nat
  | [], height => height
  | frame :: rest, height => heightAbove rest (max height frame.sibling.height + 1)

theorem height_plug {Node : Type} (context : Context Node) (tree : BinaryTree Node) :
    (plug context tree).height = heightAbove context tree.height := by
  induction context generalizing tree with
  | nil => rfl
  | cons frame rest inductionHypothesis =>
    rw [plug_cons, inductionHypothesis, heightAbove, Frame.fill, height_join]

/-- A whole tree is balanced where the tree in the hole is and the context fits it. -/
theorem balanced_plug (context : Context (Body × Int)) (tree : BinaryTree (Body × Int)) :
    Balanced (plug context tree) ↔ Balanced tree ∧ Fits context tree.height := by
  induction context generalizing tree with
  | nil => exact (and_iff_left trivial).symm
  | cons frame rest inductionHypothesis =>
    rw [plug_cons, inductionHypothesis, Frame.fill, balanced_join, height_join, Fits]
    tauto

/-- A balanced tree of a given height. -/
structure Tall (tree : BinaryTree (Body × Int)) (height : Nat) : Prop where
  balanced : Balanced tree
  height : tree.height = height

theorem tall_nil : Tall (.nil : BinaryTree (Body × Int)) 0 := ⟨trivial, rfl⟩

theorem Tall.join {side : Side} {near far : BinaryTree (Body × Int)} {low high : Nat}
    (nears : Tall near low) (fars : Tall far high) (node : Body × Int)
    (leans : Leans side low high node.2) :
    Tall (join side near node far) (max low high + 1) := by
  obtain ⟨nears, rfl⟩ := nears
  obtain ⟨fars, rfl⟩ := fars
  exact ⟨(balanced_join side near far node).mpr ⟨leans, nears, fars⟩,
    height_join side near far node⟩

/-- The parts of a balanced tree. -/
theorem Tall.parts {side : Side} {near far : BinaryTree (Body × Int)} {node : Body × Int}
    {height : Nat} (tall : Tall (TreePath.join side near node far) height) :
    ∃ low high, Tall near low ∧ Tall far high ∧ Leans side low high node.2 ∧
      height = max low high + 1 := by
  obtain ⟨balanced, rfl⟩ := tall
  obtain ⟨leans, nears, fars⟩ := (balanced_join side near far node).mp balanced
  exact ⟨_, _, ⟨nears, rfl⟩, ⟨fars, rfl⟩, leans, height_join side near far node⟩

/-- A whole tree around a tree of the height its context fits. -/
theorem Tall.plug {context : Context (Body × Int)} {tree : BinaryTree (Body × Int)}
    {height : Nat} (tall : Tall tree height) (fits : Fits context height) :
    Tall (plug context tree) (heightAbove context height) := by
  obtain ⟨balanced, rfl⟩ := tall
  exact ⟨(balanced_plug context tree).mpr ⟨balanced, fits⟩, height_plug context tree⟩

/-! ### Rotations -/

section Rotations

variable {side : Side} {outer inner far near beyond : BinaryTree (Body × Int)}
  {child node subChild : Body} {balance : Int} {height : Nat}

/-- The node is heavy on a side, and the child there as well: the child is promoted, and both
are level. -/
theorem single_tall (outers : Tall outer (height + 1)) (inners : Tall inner height)
    (fars : Tall far height) :
    Tall (join side outer (child, 0) (join side inner (node, 0) far)) (height + 2) := by
  have below := inners.join fars (node, 0) (leans_level side height)
  rw [max_self] at below
  have above := outers.join below (child, 0) (leans_level side (height + 1))
  rwa [max_self] at above

/-- The node is heavy on a side, and the child there is level: the child is promoted, and the
tree keeps its height. -/
theorem level_tall (outers : Tall outer (height + 1)) (inners : Tall inner (height + 1))
    (fars : Tall far height) :
    Tall (join side outer (child, -heavy side) (join side inner (node, heavy side) far))
      (height + 3) := by
  have below := inners.join fars (node, heavy side) (leans_near side height)
  rw [max_eq_left (Nat.le_succ height)] at below
  have above := outers.join below (child, -heavy side) (leans_far side (height + 1))
  rwa [max_eq_right (Nat.le_succ (height + 1))] at above

/-- The balance of the child after a double rotation. -/
def childBalance (side : Side) (balance : Int) : Int :=
  if balance = -heavy side then heavy side else 0

/-- The balance of the node after a double rotation. -/
def nodeBalance (side : Side) (balance : Int) : Int :=
  if balance = heavy side then -heavy side else 0

theorem leans_childBalance {low high : Nat} (leans : Leans side low high balance) :
    Leans side (max low high) low (childBalance side balance) := by
  rcases leans_iff.mp leans with ⟨rfl, heights⟩ | ⟨rfl, heights⟩ | ⟨rfl, heights⟩
  · rw [childBalance, if_neg (heavy_ne_neg side), max_eq_left (by omega)]
    exact leans_level _ _
  · rw [childBalance, if_neg (by simp), max_eq_left (by omega)]
    exact leans_level _ _
  · rw [childBalance, if_pos rfl, max_eq_right (by omega), heights]
    exact leans_near _ _

theorem leans_nodeBalance {low high : Nat} (leans : Leans side low high balance) :
    Leans side high (max low high) (nodeBalance side balance) := by
  rcases leans_iff.mp leans with ⟨rfl, heights⟩ | ⟨rfl, heights⟩ | ⟨rfl, heights⟩
  · rw [nodeBalance, if_pos rfl, max_eq_left (by omega), heights]
    exact leans_far _ _
  · rw [nodeBalance, if_neg (heavy_ne_zero side).symm, max_eq_right (by omega)]
    exact leans_level _ _
  · rw [nodeBalance, if_neg (neg_heavy_ne side), max_eq_right (by omega)]
    exact leans_level _ _

/-- The node is heavy on a side, and the child there on the other one: the child of the child
is promoted twice. -/
theorem double_tall {low high : Nat} (outers : Tall outer (max low high)) (nears : Tall near low)
    (beyonds : Tall beyond high) (fars : Tall far (max low high))
    (leans : Leans side low high balance) :
    Tall (join side (join side outer (child, childBalance side balance) near) (subChild, 0)
      (join side beyond (node, nodeBalance side balance) far)) (max low high + 2) := by
  have first := outers.join nears (child, _) (leans_childBalance leans)
  have second := beyonds.join fars (node, _) (leans_nodeBalance leans)
  rw [max_eq_left (le_max_left _ _)] at first
  rw [max_eq_right (le_max_right _ _)] at second
  have above := first.join second (subChild, 0) (leans_level side _)
  rwa [max_self] at above

end Rotations

/-! ### A tree that has grown -/

section Climbs

variable {side : Side} {tree sibling : BinaryTree (Body × Int)}
  {context : Context (Body × Int)} {body : Body} {balance : Int} {height depth : Nat}

/-- The balance at the root of a tree. -/
def rootBalance : BinaryTree (Body × Int) → Int
  | .nil => 0
  | .node node _ _ => node.2

@[simp] theorem rootBalance_join (side : Side) (near far : BinaryTree (Body × Int))
    (node : Body × Int) : rootBalance (join side near node far) = node.2 := by
  cases side <;> rfl

/-- The tree in the hole has grown by one level over the height its context fits. Its root is
not level, unless it is a leaf. The whole tree had the given depth. -/
structure Grown (context : Context (Body × Int)) (tree : BinaryTree (Body × Int))
    (height depth : Nat) : Prop where
  tall : Tall tree (height + 1)
  fits : Fits context height
  leaning : rootBalance tree = 0 → height = 0
  depth : heightAbove context height = depth

theorem Grown.nonempty (grown : Grown context tree height depth) : tree ≠ .nil := by
  rintro rfl
  exact absurd grown.tall.height (Nat.succ_ne_zero _).symm

/-- A leaf in an empty hole. -/
theorem grown_leaf (fits : Fits context 0) (body : Body) :
    Grown context (.node (body, 0) .nil .nil) 0 (heightAbove context 0) :=
  ⟨tall_nil.join tall_nil (body, 0) (leans_level .left 0), fits, fun _ => rfl, rfl⟩

/-- A level node passes the growth on. -/
theorem Grown.pass (grown : Grown (⟨side, (body, 0), sibling⟩ :: context) tree height depth) :
    Grown context (join side tree (body, heavy side) sibling) (height + 1) depth := by
  obtain ⟨tall, ⟨leans, siblings, fits⟩, _, above⟩ := grown
  have level := leans.level
  rw [heightAbove] at above
  simp only [level, max_self] at fits above
  have joined := tall.join ⟨siblings, level⟩ (body, heavy side) (leans_near side height)
  rw [max_eq_left (Nat.le_succ height)] at joined
  refine ⟨joined, fits, fun balanced => ?_, above⟩
  rw [rootBalance_join] at balanced
  exact absurd balanced (heavy_ne_zero side)

/-- A node that is heavy on the other side becomes level, and ends the growth. -/
theorem Grown.stop
    (grown : Grown (⟨side, (body, -heavy side), sibling⟩ :: context) tree height depth) :
    Tall (plug context (join side tree (body, 0) sibling)) depth := by
  obtain ⟨tall, ⟨leans, siblings, fits⟩, _, above⟩ := grown
  have higher := leans.far_higher
  rw [heightAbove] at above
  simp only [higher, max_eq_right (Nat.le_succ height)] at fits above
  have joined := tall.join ⟨siblings, higher⟩ (body, 0) (leans_level side (height + 1))
  rw [max_self] at joined
  exact above ▸ joined.plug fits

/-- A node that is heavy on the side that has grown is rotated, which ends the growth. -/
theorem Grown.rotate
    (grown : Grown (⟨side, (body, heavy side), sibling⟩ :: context) tree height depth) :
    (∃ outer child inner, tree = join side outer (child, heavy side) inner ∧
      Tall (plug context (join side outer (child, 0) (join side inner (body, 0) sibling))) depth) ∨
    ∃ outer child near subChild balance beyond,
      tree = join side outer (child, -heavy side)
        (join side near (subChild, balance) beyond) ∧
      Tall (plug context (join side (join side outer (child, childBalance side balance) near)
        (subChild, 0) (join side beyond (body, nodeBalance side balance) sibling))) depth := by
  have nonempty := grown.nonempty
  obtain ⟨tall, ⟨leans, siblings, fits⟩, leaning, above⟩ := grown
  have higher : height = sibling.height + 1 := leans.near_higher
  rw [heightAbove] at above
  simp only [higher, max_eq_left (Nat.le_succ _)] at fits above
  obtain ⟨outer, ⟨child, childIs⟩, inner, rfl⟩ := exists_join side nonempty
  rw [rootBalance_join] at leaning
  obtain ⟨low, high, outers, inners, childLeans, heights⟩ := tall.parts
  rcases leans_iff.mp childLeans with ⟨same, levels⟩ | ⟨level, _⟩ | ⟨opposite, levels⟩
  · refine .inl ⟨outer, child, inner, by rw [← same], above ▸ Tall.plug ?_ fits⟩
    obtain rfl : high = sibling.height := by omega
    rw [levels] at outers
    exact single_tall outers inners ⟨siblings, rfl⟩
  · exact absurd (leaning level) (by omega)
  · have deep : inner ≠ .nil := fun empty => by
      rw [empty] at inners
      exact absurd (inners.height.trans levels) (Nat.succ_ne_zero _).symm
    obtain ⟨near, ⟨subChild, balance⟩, beyond, rfl⟩ := exists_join side deep
    obtain ⟨lower, upper, nears, beyonds, subLeans, subHeights⟩ := inners.parts
    refine .inr ⟨outer, child, near, subChild, balance, beyond, by rw [← opposite],
      above ▸ Tall.plug ?_ fits⟩
    obtain rfl : low = max lower upper := by omega
    have level : sibling.height = max lower upper := by omega
    rw [level]
    exact double_tall outers nears beyonds ⟨siblings, level⟩ subLeans

/-! ### A tree that has lost a level -/

/-- The tree in the hole has lost one level under the height its context fits. The whole tree
had the given depth. -/
structure Shrunk (context : Context (Body × Int)) (tree : BinaryTree (Body × Int))
    (height depth : Nat) : Prop where
  tall : Tall tree height
  fits : Fits context (height + 1)
  depth : heightAbove context (height + 1) = depth

/-- A node with one child at most is taken out of a balanced tree. -/
theorem shrunk_of_tall {node : Body × Int}
    (tall : Tall (plug context (join side tree node .nil)) depth) :
    Shrunk context tree tree.height depth := by
  obtain ⟨balanced, rfl⟩ := tall
  obtain ⟨joined, fits⟩ := (balanced_plug _ _).mp balanced
  obtain ⟨_, trees, _⟩ := (balanced_join _ _ _ _).mp joined
  rw [height_join, BinaryTree.height, Nat.max_zero] at fits
  refine ⟨⟨trees, rfl⟩, fits, ?_⟩
  rw [height_plug, height_join, BinaryTree.height, Nat.max_zero]

/-- Another body in the place of a node. -/
theorem Tall.rename {body body' : Body} {left right : BinaryTree (Body × Int)}
    (tall : Tall (TreeContext.plug context (.node (body, balance) left right)) height) :
    Tall (TreeContext.plug context (.node (body', balance) left right)) height := by
  obtain ⟨balanced, rfl⟩ := tall
  have parts := (balanced_plug context (.node (body, balance) left right)).mp balanced
  refine ⟨(balanced_plug context (.node (body', balance) left right)).mpr parts, ?_⟩
  rw [height_plug, height_plug]
  rfl

/-- A node that is heavy on the side of the loss becomes level, and passes the loss on. -/
theorem Shrunk.pass
    (shrunk : Shrunk (⟨side, (body, heavy side), sibling⟩ :: context) tree height depth) :
    Shrunk context (join side tree (body, 0) sibling) (height + 1) depth := by
  obtain ⟨tall, ⟨leans, siblings, fits⟩, above⟩ := shrunk
  have level : sibling.height = height := (Nat.succ.inj leans.near_higher).symm
  rw [heightAbove] at above
  simp only [level, max_eq_left (Nat.le_succ _)] at fits above
  have joined := tall.join ⟨siblings, level⟩ (body, 0) (leans_level side height)
  rw [max_self] at joined
  exact ⟨joined, fits, above⟩

/-- A level node becomes heavy on the other side, and ends the loss. -/
theorem Shrunk.stop
    (shrunk : Shrunk (⟨side, (body, 0), sibling⟩ :: context) tree height depth) :
    Tall (plug context (join side tree (body, -heavy side) sibling)) depth := by
  obtain ⟨tall, ⟨leans, siblings, fits⟩, above⟩ := shrunk
  have level := leans.level
  rw [heightAbove] at above
  simp only [level, max_self] at fits above
  have joined := tall.join ⟨siblings, level⟩ (body, -heavy side) (leans_far side height)
  rw [max_eq_right (Nat.le_succ height)] at joined
  exact above ▸ joined.plug fits

/-- A node that is heavy on the other side is rotated. The loss ends where the child there is
level, and is passed on otherwise. -/
theorem Shrunk.rotate
    (shrunk : Shrunk (⟨side.other, (body, heavy side), sibling⟩ :: context) tree height depth) :
    (∃ outer child inner, sibling = join side outer (child, heavy side) inner ∧
      Shrunk context (join side outer (child, 0) (join side inner (body, 0) tree))
        (height + 2) depth) ∨
    (∃ outer child near subChild balance beyond,
      sibling = join side outer (child, -heavy side)
        (join side near (subChild, balance) beyond) ∧
      Shrunk context (join side (join side outer (child, childBalance side balance) near)
        (subChild, 0) (join side beyond (body, nodeBalance side balance) tree))
        (height + 2) depth) ∨
    ∃ outer child inner, sibling = join side outer (child, 0) inner ∧
      Tall (plug context (join side outer (child, -heavy side)
        (join side inner (body, heavy side) tree))) depth := by
  obtain ⟨tall, ⟨leans, siblings, fits⟩, above⟩ := shrunk
  have higher := (leans_other.mp leans).near_higher
  rw [heightAbove] at above
  simp only [higher, max_eq_right (Nat.le_succ _)] at fits above
  have nonempty : sibling ≠ .nil := fun empty => by
    rw [empty] at higher
    exact absurd higher (Nat.succ_ne_zero _).symm
  obtain ⟨outer, ⟨child, childIs⟩, inner, rfl⟩ := exists_join side nonempty
  obtain ⟨low, high, outers, inners, childLeans, heights⟩ := Tall.parts ⟨siblings, higher⟩
  rcases leans_iff.mp childLeans with ⟨same, levels⟩ | ⟨level, levels⟩ | ⟨opposite, levels⟩
  · refine .inl ⟨outer, child, inner, by rw [← same], ?_, fits, above⟩
    obtain rfl : high = height := by omega
    rw [levels] at outers
    exact single_tall outers inners tall
  · refine .inr (.inr ⟨outer, child, inner, by rw [← level], above ▸ Tall.plug ?_ fits⟩)
    obtain rfl : low = height + 1 := by omega
    rw [← levels] at inners
    exact level_tall outers inners tall
  · have deep : inner ≠ .nil := fun empty => by
      rw [empty] at inners
      exact absurd (inners.height.trans levels) (Nat.succ_ne_zero _).symm
    obtain ⟨near, ⟨subChild, balance⟩, beyond, rfl⟩ := exists_join side deep
    obtain ⟨lower, upper, nears, beyonds, subLeans, subHeights⟩ := inners.parts
    refine .inr (.inl ⟨outer, child, near, subChild, balance, beyond, by rw [← opposite], ?_⟩)
    obtain rfl : low = max lower upper := by omega
    obtain rfl : height = max lower upper := by omega
    exact ⟨double_tall outers nears beyonds tall subLeans, fits, above⟩

end Climbs

end AvlTree
