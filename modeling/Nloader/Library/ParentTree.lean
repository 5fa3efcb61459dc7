/-
This file is a library of the parent pointers of binary trees in memory, beside the child
pointers of `PointerTree`. A tree is parented below a pointer when its root holds that pointer
and every other node the pointer to the node it is a child of. In a path, each node of a spine
holds the pointer to the next one, the last the pointer to the anchor; what the root of the
tree at the end of the path holds is left open.

Every lemma says what writing parent pointers does, for the writes that go with a step of a
path: a node turned over its child, a step down, and the end of the path. Read through the
child pointers, a memory has one answer to whether its parent pointers are right, whatever the
nodes of the tree are taken to be.

The library names nothing of the program it is used for.
-/

import Nloader.Library.PointerTree

namespace ParentTree

open TreePath PointerTree

variable {Place Node : Type} (place : Node → Place)

/-- The parent pointers of a memory. -/
abbrev Parents (Place : Type) : Type := Place → Option (Option Place)

/-- The root of a tree holds the pointer above it, and every other node the pointer to the
node it is a child of. -/
def Parented (parents : Parents Place) (above : Option Place) : BinaryTree Node → Prop
  | .nil => True
  | .node node left right =>
    parents (place node) = some above ∧
      Parented parents (some (place node)) left ∧ Parented parents (some (place node)) right

/-- Each node of a spine holds the pointer to the next one, and the nodes beyond it hold
theirs. -/
def SpineParented (anchor : Place) (parents : Parents Place) : Spine Node → Prop
  | [] => True
  | (node, outer) :: rest =>
    parents (place node) = some (some (top place anchor rest)) ∧
      Parented place parents (some (place node)) outer ∧ SpineParented anchor parents rest

/-- A path with its parent pointers, but for that of the root of its tree. -/
structure PathParented (anchor : Place) (parents : Parents Place) (path : Path Node) : Prop where
  tree : ∃ above, Parented place parents above path.tree
  spines : ∀ side, SpineParented place anchor parents (path.spine side)

variable {place}

theorem parented_join {parents : Parents Place} {above : Option Place} (side : Side)
    (near far : BinaryTree Node) (node : Node) :
    Parented place parents above (join side near node far) ↔
      parents (place node) = some above ∧ Parented place parents (some (place node)) near ∧
        Parented place parents (some (place node)) far := by
  cases side with
  | left => rfl
  | right => exact and_congr_right fun _ => and_comm

/-- The pointer to a tree leads nowhere but to its nodes. -/
theorem pointer_ne {tree : BinaryTree Node} {here : Place}
    (away : ∀ node ∈ inorder tree, place node ≠ here) : pointer place tree ≠ some here := by
  cases tree with
  | nil => exact nofun
  | node node left right =>
    exact fun same => away node (List.mem_append_right _ List.mem_cons_self) (Option.some.inj same)

/-! ### Memories that agree -/

/-- A tree is parented in every memory that agrees on its nodes. -/
theorem Parented.congr {parents parents' : Parents Place} {above : Option Place}
    {tree : BinaryTree Node}
    (agree : ∀ node ∈ inorder tree, parents' (place node) = parents (place node))
    (holds : Parented place parents above tree) : Parented place parents' above tree := by
  induction tree generalizing above with
  | nil => trivial
  | node node left right leftHypothesis rightHypothesis =>
    obtain ⟨own, lefts, rights⟩ := holds
    refine ⟨?_, leftHypothesis (fun other member => ?_) lefts,
      rightHypothesis (fun other member => ?_) rights⟩
    · rw [agree node (List.mem_append_right _ List.mem_cons_self)]
      exact own
    · exact agree other (List.mem_append_left _ member)
    · exact agree other (List.mem_append_right _ (List.mem_cons_of_mem _ member))

theorem SpineParented.congr {anchor : Place} {parents parents' : Parents Place} (side : Side)
    {spine : Spine Node}
    (agree : ∀ node ∈ spineWalk side spine, parents' (place node) = parents (place node))
    (holds : SpineParented place anchor parents spine) :
    SpineParented place anchor parents' spine := by
  induction spine with
  | nil => trivial
  | cons link rest inductionHypothesis =>
    obtain ⟨node, outer⟩ := link
    obtain ⟨own, outers, others⟩ := holds
    simp only [spineWalk, List.mem_append, mem_walk, List.mem_singleton] at agree
    refine ⟨?_, outers.congr fun other member => agree other (.inr (.inl member)),
      inductionHypothesis (fun other member => agree other (.inl member)) others⟩
    rw [agree node (.inr (.inr rfl))]
    exact own

/-- A spine with a tree below its last node is a tree below its anchor. -/
theorem SpineParented.attach {anchor : Place} {parents : Parents Place} (side : Side) :
    ∀ {spine : Spine Node} {tree : BinaryTree Node}, SpineParented place anchor parents spine →
      Parented place parents (some (top place anchor spine)) tree →
        Parented place parents (some anchor) (TreePath.attach side spine tree) := by
  intro spine
  induction spine with
  | nil => exact fun _ holds => holds
  | cons link rest inductionHypothesis =>
    obtain ⟨node, outer⟩ := link
    rintro tree ⟨own, outers, others⟩ holds
    exact inductionHypothesis others ((parented_join side outer tree node).mpr ⟨own, outers, holds⟩)

/-! ### Writing one parent pointer -/

variable [DecidableEq Place]

/-- The memory with the parent pointer written where a pointer leads, unless it is null. -/
def withParent (parents : Parents Place) (target value : Option Place) : Parents Place :=
  match target with
  | none => parents
  | some target => Function.update parents target (some value)

@[simp] theorem withParent_same (parents : Parents Place) (target : Place)
    (value : Option Place) : withParent parents (some target) value target = some value :=
  Function.update_self _ _ _

theorem withParent_elsewhere {parents : Parents Place} {target value : Option Place}
    {here : Place} (elsewhere : target ≠ some here) :
    withParent parents target value here = parents here := by
  cases target with
  | none => rfl
  | some target => exact Function.update_of_ne (fun same => elsewhere (by rw [same])) _ _

theorem Parented.withParent {parents : Parents Place} {above : Option Place}
    {tree : BinaryTree Node} {target : Option Place} (holds : Parented place parents above tree)
    (value : Option Place) (away : ∀ node ∈ inorder tree, target ≠ some (place node)) :
    Parented place (withParent parents target value) above tree :=
  holds.congr fun node member => withParent_elsewhere (away node member)

theorem SpineParented.withParent {anchor : Place} {parents : Parents Place} {spine : Spine Node}
    {target : Option Place} (holds : SpineParented place anchor parents spine) (side : Side)
    (value : Option Place) (away : ∀ node ∈ spineWalk side spine, target ≠ some (place node)) :
    SpineParented place anchor (ParentTree.withParent parents target value) spine :=
  holds.congr side fun node member => withParent_elsewhere (away node member)

/-- A tree keeps its parents when the root of another one is written. -/
theorem Parented.apart {parents : Parents Place} {above : Option Place}
    {tree moved : BinaryTree Node} (holds : Parented place parents above tree)
    (value : Option Place)
    (separate : ∀ node ∈ inorder tree, ∀ other ∈ inorder moved, place node ≠ place other) :
    Parented place (ParentTree.withParent parents (pointer place moved) value) above tree :=
  holds.withParent value fun node member =>
    pointer_ne fun other within => (separate node member other within).symm

/-- A tree is moved below another pointer by writing it into its root. -/
theorem Parented.moved {anchor : Place} {parents : Parents Place} {above : Option Place}
    {tree : BinaryTree Node} (holds : Parented place parents above tree)
    (distinct : Distinct place anchor (inorder tree)) (value : Option Place) :
    Parented place (ParentTree.withParent parents (pointer place tree) value) value tree := by
  cases tree with
  | nil => trivial
  | node node left right =>
    rw [inorder, distinct_append, distinct_cons] at distinct
    obtain ⟨⟨_, _, nodeRight⟩, across⟩ := distinct
    refine ⟨withParent_same _ _ _, holds.2.1.withParent _ fun other member same => ?_,
      holds.2.2.withParent _ fun other member same => ?_⟩
    · exact across other member node List.mem_cons_self (Option.some.inj same).symm
    · exact nodeRight other member (Option.some.inj same)

/-! ### Steps of a path -/

/-- A node is turned over its child: the subtree between them and the node get new parents. -/
theorem PathParented.rotate {anchor : Place} {parents : Parents Place} {path : Path Node}
    (holds : PathParented place anchor parents path)
    (distinct : Distinct place anchor (path.whole .left)) {side : Side}
    {outer inner far : BinaryTree Node} {child node : Node}
    (seen : path.tree = join side (join side outer child inner) node far) :
    PathParented place anchor
      (withParent (withParent parents (pointer place inner) (some (place node)))
        (some (place node)) (some (place child)))
      (path.withTree (join side outer child (join side inner node far))) := by
  obtain ⟨⟨above, tree⟩, spines⟩ := holds
  have apart := distinct.whole side
  unfold Path.whole at apart
  rw [seen, walk_join, walk_join] at apart
  simp only [distinct_append, distinct_cons, distinct_reverse, List.mem_append, List.mem_cons,
    List.mem_reverse, mem_walk] at apart
  have distinctInner : Distinct place anchor (inorder inner) := by
    cases side with
    | left => grind [walk]
    | right => grind [walk, distinct_reverse]
  rw [seen, parented_join, parented_join] at tree
  obtain ⟨_, ⟨childParent, outers, inners⟩, fars⟩ := tree
  have elsewhere : ∀ {other : Node}, place other ≠ place node →
      (∀ between ∈ inorder inner, place between ≠ place other) →
        withParent (withParent parents (pointer place inner) (some (place node)))
          (some (place node)) (some (place child)) (place other) = parents (place other) := by
    intro other notNode notBetween
    rw [withParent_elsewhere fun same => notNode (Option.some.inj same).symm,
      withParent_elsewhere (pointer_ne notBetween)]
  refine ⟨⟨some (place node), ?_⟩, fun other => ?_⟩
  · change Parented place _ _ (join side outer child (join side inner node far))
    rw [parented_join, parented_join]
    refine ⟨?_, outers.congr fun other member => elsewhere ?_ ?_, withParent_same _ _ _,
      (inners.moved distinctInner _).withParent _ ?_,
      fars.congr fun other member => elsewhere ?_ ?_⟩
    · rw [elsewhere, childParent] <;> grind
    all_goals grind
  · refine (spines other).congr other fun member there => elsewhere ?_ fun between within => ?_
    · exact distinct.spine_ne other there (by rw [seen]; simp)
    · exact (distinct.spine_ne other there (by rw [seen]; simp [within])).symm

/-- A step down: the node gets the top of the other spine as its parent. -/
theorem PathParented.down {anchor : Place} {parents : Parents Place} {path : Path Node}
    (holds : PathParented place anchor parents path)
    (distinct : Distinct place anchor (path.whole .left)) {side : Side}
    {near far : BinaryTree Node} {node : Node} (seen : path.tree = join side near node far) :
    PathParented place anchor
      (withParent parents (some (place node)) (some (top place anchor (path.spine side.other))))
      (path.down side near node far) := by
  obtain ⟨⟨above, tree⟩, spines⟩ := holds
  have apart := distinct.whole side
  unfold Path.whole at apart
  rw [seen, walk_join] at apart
  simp only [distinct_append, distinct_cons, distinct_reverse, List.mem_append, List.mem_cons,
    List.mem_reverse, mem_walk] at apart
  rw [seen, parented_join] at tree
  obtain ⟨_, nears, fars⟩ := tree
  refine ⟨⟨some (place node), nears.withParent _ ?_⟩, fun other => ?_⟩
  · grind
  · by_cases same : other = side.other
    · subst same
      rw [Path.down_spine_other]
      refine ⟨withParent_same _ _ _, fars.withParent _ ?_,
        (spines side.other).withParent side.other _ ?_⟩ <;> grind
    · have own : other = side := by
        cases other <;> cases side <;> first | rfl | exact absurd rfl same
      subst own
      rw [Path.down_spine]
      refine (spines other).withParent other _ ?_
      grind

/-- The parent pointers that are written at the end of a path: those of the subtrees of the
last node, when they go to the ends of the spines, those of the two sides of the node, when
they go below it, and that of the node. -/
def closedParents (place : Node → Place) (anchor : Place) (parents : Parents Place)
    (path : Path Node) (left : BinaryTree Node) (node : Node) (right : BinaryTree Node) :
    Parents Place :=
  let ends := withParent
    (withParent parents (pointer place left) (some (top place anchor (path.spine .left))))
    (pointer place right) (some (top place anchor (path.spine .right)))
  let sides := withParent
    (withParent ends (pointer place (attach .left (path.spine .left) left)) (some (place node)))
    (pointer place (attach .right (path.spine .right) right)) (some (place node))
  withParent sides (some (place node)) none

/-- A tree at the end of a spine gets the top of the spine as its parent. -/
theorem SpineParented.hung {anchor : Place} {parents : Parents Place} {above : Option Place}
    (side : Side) {spine : Spine Node} {tree : BinaryTree Node}
    (holds : SpineParented place anchor parents spine)
    (below : Parented place parents above tree)
    (distinct : Distinct place anchor (spineWalk side spine ++ walk side tree)) :
    Parented place (ParentTree.withParent parents (pointer place tree)
      (some (top place anchor spine))) (some anchor) (TreePath.attach side spine tree) := by
  obtain ⟨⟨_, inTree⟩, across⟩ := distinct_append.mp distinct
  have distinctTree : Distinct place anchor (inorder tree) := by
    cases side with
    | left => exact inTree
    | right => exact distinct_reverse.mp inTree
  refine SpineParented.attach side (holds.withParent side _ fun node member => ?_)
    (below.moved distinctTree _)
  exact pointer_ne fun other inside =>
    (across node member other ((mem_walk side tree other).mpr inside)).symm

/-- The end of a path: with these parent pointers written, the tree the path is put together
to is parented below null. -/
theorem PathParented.closed {anchor : Place} {parents : Parents Place} {path : Path Node}
    (holds : PathParented place anchor parents path)
    (distinct : Distinct place anchor (path.whole .left)) {left right : BinaryTree Node}
    {node : Node} (seen : path.tree = .node node left right) :
    Parented place (closedParents place anchor parents path left node right) none
      (path.assemble left node right) := by
  obtain ⟨⟨above, tree⟩, spines⟩ := holds
  rw [seen] at tree
  obtain ⟨_, lefts, rights⟩ := tree
  have apart := distinct
  rw [← Path.inorder_assemble seen, Path.assemble, inorder, distinct_append, distinct_cons]
    at apart
  obtain ⟨⟨distinctLeft, ⟨_, distinctRight⟩, nodeRight⟩, across⟩ := apart
  have walkLeft := walk_attach .left (path.spine .left) left
  have walkRight := walk_attach .right (path.spine .right) right
  have onLeft : Distinct place anchor
      (spineWalk .left (path.spine .left) ++ walk .left left) := by
    rw [← walkLeft]
    exact distinctLeft
  have onRight : Distinct place anchor
      (spineWalk .right (path.spine .right) ++ walk .right right) := by
    rw [← walkRight]
    exact distinct_reverse.mpr distinctRight
  have leftParts : ∀ other, other ∈ inorder (attach .left (path.spine .left) left) ↔
      other ∈ spineWalk .left (path.spine .left) ∨ other ∈ inorder left := by
    intro other
    rw [← mem_walk .left, walkLeft, List.mem_append, mem_walk]
  have rightParts : ∀ other, other ∈ inorder (attach .right (path.spine .right) right) ↔
      other ∈ spineWalk .right (path.spine .right) ∨ other ∈ inorder right := by
    intro other
    rw [← mem_walk .right, walkRight, List.mem_append, mem_walk]
  have separate : ∀ other ∈ inorder (attach .left (path.spine .left) left),
      ∀ beyond ∈ inorder (attach .right (path.spine .right) right), place other ≠ place beyond :=
    fun other member beyond within => across other member beyond (List.mem_cons_of_mem _ within)
  have nodeLeft : ∀ other ∈ inorder (attach .left (path.spine .left) left),
      place other ≠ place node := fun other member => across other member node List.mem_cons_self
  -- The subtrees go to the ends of the spines, first the left one.
  have hungLeft := ((spines .left).hung .left lefts onLeft).apart
    (some (top place anchor (path.spine .right))) fun other member beyond within =>
      separate other member beyond ((rightParts beyond).mpr (.inr within))
  have hungRight := SpineParented.hung .right
    ((spines .right).withParent .right (some (top place anchor (path.spine .left)))
      fun other member => pointer_ne fun beyond within =>
        separate beyond ((leftParts beyond).mpr (.inr within)) other
          ((rightParts other).mpr (.inl member)))
    (rights.apart _ fun other member beyond within =>
      (separate beyond ((leftParts beyond).mpr (.inr within)) other
        ((rightParts other).mpr (.inr member))).symm) onRight
  -- Then the two sides go below the node.
  have movedLeft := (hungLeft.moved distinctLeft (some (place node))).apart (some (place node))
    separate
  have movedRight := (hungRight.apart (some (place node)) fun other member beyond within =>
    (separate beyond within other member).symm).moved distinctRight (some (place node))
  exact ⟨withParent_same _ _ _,
    movedLeft.withParent none fun other member same =>
      nodeLeft other member (Option.some.inj same).symm,
    movedRight.withParent none fun other member same =>
      nodeRight other member (Option.some.inj same)⟩

/-! ### Parent pointers as the inverse of the child pointers -/

/-- The places that child pointers lead to from a root. -/
inductive Reachable (children : Children Place) (root : Option Place) : Place → Prop
  | root (target : Place) (rooted : root = some target) : Reachable children root target
  | child (above target : Place) (side : Side) (reached : Reachable children root above)
      (held : children above side = some (some target)) : Reachable children root target

/-- The root holds the pointer above it, and every other place the pointer to the place of
which it is a child. -/
structure ParentLinks (children : Children Place) (parents : Parents Place)
    (root above : Option Place) : Prop where
  atRoot : ∀ target, root = some target → parents target = some above
  atChild : ∀ here side target, Reachable children root here →
    children here side = some (some target) → parents target = some (some here)

omit [DecidableEq Place]

/-- From a child pointer no more places are reached than from its root. -/
theorem Reachable.onward {children : Children Place} {root child : Option Place} {above : Place}
    {side : Side} (held : children above side = some child)
    (reached : Reachable children root above) {target : Place}
    (lower : Reachable children child target) : Reachable children root target := by
  induction lower with
  | root target rooted => exact .child above target side reached (by rw [held, rooted])
  | child below target side _ held inductionHypothesis =>
    exact .child below target side inductionHypothesis held

/-- A child pointer of a node of a parented tree leads to a node of the tree, which holds the
pointer back. -/
theorem Parented.of_child {children : Children Place} {parents : Parents Place}
    {tree : BinaryTree Node} {node : Node} {side : Side} {target : Place}
    (represents : Represents place children tree) (member : node ∈ inorder tree)
    (held : children (place node) side = some (some target)) {above : Option Place}
    (holds : Parented place parents above tree) :
    (∃ other ∈ inorder tree, place other = target) ∧
      parents target = some (some (place node)) := by
  induction tree generalizing above with
  | nil => cases member
  | node root left right leftHypothesis rightHypothesis =>
    obtain ⟨⟨heldLeft, heldRight⟩, represents, represents'⟩ := represents
    obtain ⟨_, lefts, rights⟩ := holds
    -- A subtree whose pointer is the child pointer has the target as its root.
    have rooted : ∀ {subtree : BinaryTree Node}, pointer place subtree = some target →
        Parented place parents (some (place root)) subtree →
          (∃ other ∈ inorder subtree, place other = target) ∧
            parents target = some (some (place root)) := by
      intro subtree same parented
      cases subtree with
      | nil => cases same
      | node other near far =>
        cases same
        exact ⟨⟨other, List.mem_append_right _ List.mem_cons_self, rfl⟩, parented.1⟩
    have inLeft : ∀ {other}, other ∈ inorder left → other ∈ inorder (.node root left right) :=
      List.mem_append_left _
    have inRight : ∀ {other}, other ∈ inorder right → other ∈ inorder (.node root left right) :=
      fun inside => List.mem_append_right _ (List.mem_cons_of_mem _ inside)
    rw [inorder, List.mem_append, List.mem_cons] at member
    rcases member with onLeft | rfl | onRight
    · obtain ⟨⟨other, inside, same⟩, back⟩ := leftHypothesis represents onLeft lefts
      exact ⟨⟨other, inLeft inside, same⟩, back⟩
    · cases side with
      | left =>
        obtain ⟨⟨other, inside, same⟩, back⟩ :=
          rooted (Option.some.inj (heldLeft.symm.trans held)) lefts
        exact ⟨⟨other, inLeft inside, same⟩, back⟩
      | right =>
        obtain ⟨⟨other, inside, same⟩, back⟩ :=
          rooted (Option.some.inj (heldRight.symm.trans held)) rights
        exact ⟨⟨other, inRight inside, same⟩, back⟩
    · obtain ⟨⟨other, inside, same⟩, back⟩ := rightHypothesis represents' onRight rights
      exact ⟨⟨other, inRight inside, same⟩, back⟩

theorem ParentLinks.subtree {children : Children Place} {parents : Parents Place}
    {root child above : Option Place} {here : Place} {side : Side}
    (links : ParentLinks children parents root above) (reached : Reachable children root here)
    (held : children here side = some child) :
    ParentLinks children parents child (some here) where
  atRoot := fun target rooted => links.atChild here side target reached (by rw [held, rooted])
  atChild := fun below side' target lower =>
    links.atChild below side' target (.onward held reached lower)

/-- A tree in memory is parented exactly where the parent pointers are the inverse of the
child pointers. -/
theorem parentLinks_iff {children : Children Place} {parents : Parents Place}
    {tree : BinaryTree Node} {above : Option Place} (represents : Represents place children tree) :
    ParentLinks children parents (pointer place tree) above ↔
      Parented place parents above tree := by
  constructor
  · intro links
    induction tree generalizing above with
    | nil => trivial
    | node node left right leftHypothesis rightHypothesis =>
      obtain ⟨⟨heldLeft, heldRight⟩, lefts, rights⟩ := represents
      have reached : Reachable children (pointer place (.node node left right)) (place node) :=
        .root (place node) rfl
      exact ⟨links.atRoot (place node) rfl, leftHypothesis lefts (links.subtree reached heldLeft),
        rightHypothesis rights (links.subtree reached heldRight)⟩
  · intro holds
    have within : ∀ {target}, Reachable children (pointer place tree) target →
        ∃ node ∈ inorder tree, place node = target := by
      intro target reached
      induction reached with
      | root target rooted =>
        by_contra outside
        exact pointer_ne (fun node member same => outside ⟨node, member, same⟩) rooted
      | child upper target side _ held inductionHypothesis =>
        obtain ⟨node, member, rfl⟩ := inductionHypothesis
        exact (holds.of_child represents member held).1
    refine ⟨fun target rooted => ?_, fun here side target reached held => ?_⟩
    · cases tree with
      | nil => cases rooted
      | node node left right =>
        cases rooted
        exact holds.1
    · obtain ⟨node, member, rfl⟩ := within reached
      exact (holds.of_child represents member held).2

end ParentTree
