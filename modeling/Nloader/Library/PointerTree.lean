/-
This file is a library of binary trees in memory. A memory is seen through its child
pointers only: at every place and for each side, the pointer stored there, or nothing where
no node lies. A tree is in memory when each of its nodes holds the pointers to its two
subtrees, and a path is in memory when, besides, the inner child pointers of each spine lead
from a place that anchors both spines to its deepest node, whose own inner pointer is free.

Every lemma says what writing one child pointer does: it leaves trees and spines alone that
the place does not belong to, it turns a node over its child, it moves a path one step down,
and it closes a path.

The library names nothing of the program it is used for.
-/

import Nloader.Library.TreePath

namespace PointerTree

open TreePath

variable {Place Node : Type} (place : Node → Place)

/-- The child pointers of a memory. -/
abbrev Children (Place : Type) : Type := Place → Side → Option (Option Place)

/-- The pointer to a tree. -/
def pointer : BinaryTree Node → Option Place
  | .nil => none
  | .node node _ _ => some (place node)

/-- The nodes of a tree hold the pointers to their subtrees. -/
def Represents (children : Children Place) : BinaryTree Node → Prop
  | .nil => True
  | .node node left right =>
    (children (place node) .left = some (pointer place left) ∧
      children (place node) .right = some (pointer place right)) ∧
    Represents children left ∧ Represents children right

/-- The place whose inner child pointer is the end of a spine. -/
def top (anchor : Place) : Spine Node → Place
  | [] => anchor
  | (node, _) :: _ => place node

/-- The nodes of a spine hold the pointers to their subtrees on the outer side, and on the
inner side, from the anchor on, each the pointer to the next one. -/
def SpineHolds (anchor : Place) (children : Children Place) (side : Side) : Spine Node → Prop
  | [] => True
  | (node, outer) :: rest =>
    (children (place node) side = some (pointer place outer) ∧
      children (top place anchor rest) side.other = some (some (place node))) ∧
    Represents place children outer ∧ SpineHolds anchor children side rest

/-- A path in memory. -/
structure PathHolds (anchor : Place) (children : Children Place) (path : Path Node) : Prop where
  tree : Represents place children path.tree
  spines : ∀ side, SpineHolds place anchor children side (path.spine side)

/-- The nodes of a path are told apart by their places, and from the anchor. -/
structure Distinct (anchor : Place) (nodes : List Node) : Prop where
  nodup : (nodes.map place).Nodup
  anchor : ∀ node ∈ nodes, place node ≠ anchor

variable {place}

@[simp] theorem pointer_join (side : Side) (near far : BinaryTree Node) (node : Node) :
    pointer place (join side near node far) = some (place node) := by
  cases side <;> rfl

theorem pointer_eq_none {tree : BinaryTree Node} :
    pointer place tree = none ↔ tree = .nil := by
  cases tree with
  | nil => exact iff_of_true rfl rfl
  | node node left right => exact iff_of_false nofun nofun

theorem represents_join {children : Children Place} (side : Side)
    (near far : BinaryTree Node) (node : Node) :
    Represents place children (join side near node far) ↔
      (children (place node) side = some (pointer place near) ∧
        children (place node) side.other = some (pointer place far)) ∧
      Represents place children near ∧ Represents place children far := by
  cases side with
  | left => rfl
  | right =>
    constructor
    · rintro ⟨⟨left, right⟩, lefts, rights⟩
      exact ⟨⟨right, left⟩, rights, lefts⟩
    · rintro ⟨⟨right, left⟩, rights, lefts⟩
      exact ⟨⟨left, right⟩, lefts, rights⟩

/-! ### Nodes told apart -/

theorem distinct_append {anchor : Place} {first second : List Node} :
    Distinct place anchor (first ++ second) ↔
      (Distinct place anchor first ∧ Distinct place anchor second) ∧
        ∀ node ∈ first, ∀ other ∈ second, place node ≠ place other := by
  constructor
  · rintro ⟨nodup, apart⟩
    rw [List.map_append, List.nodup_append] at nodup
    obtain ⟨nodup, nodup', across⟩ := nodup
    exact ⟨⟨⟨nodup, fun node member => apart node (List.mem_append_left _ member)⟩,
      ⟨nodup', fun node member => apart node (List.mem_append_right _ member)⟩⟩,
      fun node member other membership =>
        across _ (List.mem_map_of_mem member) _ (List.mem_map_of_mem membership)⟩
  · rintro ⟨⟨⟨nodup, apart⟩, ⟨nodup', apart'⟩⟩, across⟩
    refine ⟨?_, fun node member => (List.mem_append.mp member).elim (apart node) (apart' node)⟩
    rw [List.map_append, List.nodup_append]
    refine ⟨nodup, nodup', fun here member there membership => ?_⟩
    obtain ⟨node, inFirst, rfl⟩ := List.mem_map.mp member
    obtain ⟨other, inSecond, rfl⟩ := List.mem_map.mp membership
    exact across node inFirst other inSecond

theorem distinct_singleton {anchor : Place} {node : Node} :
    Distinct place anchor [node] ↔ place node ≠ anchor :=
  ⟨fun distinct => distinct.anchor node List.mem_cons_self,
    fun apart => ⟨List.nodup_singleton _, fun _ member => List.mem_singleton.mp member ▸ apart⟩⟩

theorem distinct_cons {anchor : Place} {node : Node} {nodes : List Node} :
    Distinct place anchor (node :: nodes) ↔
      (place node ≠ anchor ∧ Distinct place anchor nodes) ∧
        ∀ other ∈ nodes, place node ≠ place other := by
  rw [← List.singleton_append, distinct_append, distinct_singleton]
  simp only [List.mem_singleton, forall_eq]

theorem distinct_reverse {anchor : Place} {nodes : List Node} :
    Distinct place anchor nodes.reverse ↔ Distinct place anchor nodes := by
  constructor <;> rintro ⟨nodup, apart⟩
  · exact ⟨by rwa [List.map_reverse, List.nodup_reverse] at nodup,
      fun node member => apart node (List.mem_reverse.mpr member)⟩
  · exact ⟨by rwa [List.map_reverse, List.nodup_reverse],
      fun node member => apart node (List.mem_reverse.mp member)⟩

theorem Distinct.whole {anchor : Place} {path : Path Node}
    (distinct : Distinct place anchor (path.whole .left)) (side : Side) :
    Distinct place anchor (path.whole side) := by
  cases side with
  | left => exact distinct
  | right =>
    have mirrored := path.whole_other .left
    rw [Side.other_left] at mirrored
    rw [mirrored]
    exact distinct_reverse.mpr distinct

/-- The top of a spine is the anchor or a node of the spine. -/
theorem top_cases (anchor : Place) (side : Side) (spine : Spine Node) :
    top place anchor spine = anchor ∨
      ∃ node ∈ spineWalk side spine, place node = top place anchor spine := by
  cases spine with
  | nil => exact .inl rfl
  | cons link rest =>
    exact .inr ⟨link.1, List.mem_append_right _ (List.mem_append_right _ List.mem_cons_self), rfl⟩

/-- A place that is neither the anchor nor on a spine is not its top. -/
theorem ne_top {anchor : Place} {side : Side} {spine : Spine Node} {node : Node}
    (apart : place node ≠ anchor)
    (away : ∀ other ∈ spineWalk side spine, place node ≠ place other) :
    place node ≠ top place anchor spine := by
  rcases top_cases anchor side spine with atAnchor | ⟨other, member, same⟩
  · rwa [atAnchor]
  · rw [← same]
    exact away other member

/-- The nodes of the spines of a path are told apart from those of its tree. -/
theorem Distinct.spine_ne {anchor : Place} {path : Path Node}
    (distinct : Distinct place anchor (path.whole .left)) (side : Side) {node other : Node}
    (onSpine : node ∈ spineWalk side (path.spine side)) (inTree : other ∈ inorder path.tree) :
    place node ≠ place other := by
  have apart := distinct.whole side
  unfold Path.whole at apart
  rw [distinct_append] at apart
  exact apart.2 node onSpine other
    (List.mem_append_left _ ((mem_walk side path.tree other).mpr inTree))

/-- A node below a path is not the top of a spine. -/
theorem Distinct.ne_top {anchor : Place} {path : Path Node}
    (distinct : Distinct place anchor (path.whole .left)) (side : Side) {node : Node}
    (member : node ∈ inorder path.tree) : place node ≠ top place anchor (path.spine side) := by
  have apart : place node ≠ anchor :=
    distinct.anchor node ((path.mem_whole .left node).mpr (.inr (.inl member)))
  exact PointerTree.ne_top apart fun other onSpine =>
    (distinct.spine_ne side onSpine member).symm

/-! ### Memories that agree -/

/-- A tree is in every memory that agrees on its nodes. -/
theorem Represents.congr {children children' : Children Place} {tree : BinaryTree Node}
    (agree : ∀ node ∈ inorder tree, children' (place node) = children (place node))
    (holds : Represents place children tree) : Represents place children' tree := by
  induction tree with
  | nil => trivial
  | node node left right leftHypothesis rightHypothesis =>
    have own := agree node (List.mem_append_right _ List.mem_cons_self)
    refine ⟨by rw [own]; exact holds.1, leftHypothesis (fun other member => ?_) holds.2.1,
      rightHypothesis (fun other member => ?_) holds.2.2⟩
    · exact agree other (List.mem_append_left _ member)
    · exact agree other (List.mem_append_right _ (List.mem_cons_of_mem _ member))

/-! ### Writing one child pointer -/

variable [DecidableEq Place]

/-- The memory with one child pointer written. -/
def put (children : Children Place) (target : Place) (side : Side) (value : Option Place) :
    Children Place :=
  fun place' side' =>
    if place' = target ∧ side' = side then some value else children place' side'

@[simp] theorem put_same (children : Children Place) (target : Place) (side : Side)
    (value : Option Place) : put children target side value target side = some value :=
  if_pos ⟨rfl, rfl⟩

theorem put_elsewhere {children : Children Place} {target place' : Place} {side : Side}
    {value : Option Place} (elsewhere : place' ≠ target) :
    put children target side value place' = children place' := by
  funext side'
  exact if_neg (fun same => elsewhere same.1)

theorem put_other_side {children : Children Place} {target place' : Place} {side side' : Side}
    {value : Option Place} (otherSide : side' ≠ side) :
    put children target side value place' side' = children place' side' :=
  if_neg (fun same => otherSide same.2)

theorem Represents.put {children : Children Place} {tree : BinaryTree Node} {target : Place}
    (holds : Represents place children tree) (side : Side) (value : Option Place)
    (away : ∀ node ∈ inorder tree, place node ≠ target) :
    Represents place (put children target side value) tree :=
  holds.congr fun node member => put_elsewhere (away node member)

/-- Another tree is hung on the right of a root. -/
theorem represents_hang_right {children : Children Place} {left right right' : BinaryTree Node}
    {node : Node} (holds : Represents place children (.node node left right'))
    (rights : Represents place children right)
    (leftAway : ∀ other ∈ inorder left, place other ≠ place node)
    (rightAway : ∀ other ∈ inorder right, place other ≠ place node) :
    Represents place (put children (place node) .right (pointer place right))
      (.node node left right) := by
  obtain ⟨⟨heldLeft, _⟩, lefts, _⟩ := holds
  refine ⟨⟨?_, put_same _ _ _ _⟩, lefts.put _ _ leftAway, rights.put _ _ rightAway⟩
  exact (put_other_side Side.right.other_ne).trans heldLeft

/-- Writing away from the nodes of a spine, and not into the anchor's pointer to it, keeps
the spine. -/
theorem SpineHolds.put {anchor : Place} {children : Children Place} {side side' : Side}
    {target : Place} {value : Option Place} (apart : target ≠ anchor ∨ side' = side) :
    ∀ {spine : Spine Node}, SpineHolds place anchor children side spine →
      (∀ node ∈ spineWalk side spine, place node ≠ target) →
        SpineHolds place anchor (put children target side' value) side spine := by
  intro spine
  induction spine with
  | nil => exact fun _ _ => trivial
  | cons link rest inductionHypothesis =>
    obtain ⟨node, outer⟩ := link
    rintro ⟨⟨own, inner⟩, outers, others⟩ away
    simp only [spineWalk, List.mem_append, mem_walk, List.mem_singleton] at away
    refine ⟨⟨?_, ?_⟩, outers.put _ _ fun other member => away other (.inr (.inl member)),
      inductionHypothesis others fun other member => away other (.inl member)⟩
    · rw [put_elsewhere (away node (.inr (.inr rfl)))]
      exact own
    · cases rest with
      | nil =>
        rcases apart with elsewhere | same
        · rw [top, put_elsewhere elsewhere.symm]
          exact inner
        · rw [put_other_side (by rw [same]; exact side.other_ne)]
          exact inner
      | cons next rest =>
        have later : next.1 ∈ spineWalk side (next :: rest) :=
          List.mem_append_right _ (List.mem_append_right _ List.mem_cons_self)
        rw [top, put_elsewhere (away next.1 (.inl later))]
        exact inner

/-- Writing the free pointer of a spine keeps the spine. -/
theorem SpineHolds.put_top {anchor : Place} {children : Children Place} {side : Side}
    {spine : Spine Node} (holds : SpineHolds place anchor children side spine)
    (distinct : Distinct place anchor (spineWalk side spine)) (value : Option Place) :
    SpineHolds place anchor (PointerTree.put children (top place anchor spine) side.other value)
      side spine := by
  cases spine with
  | nil => trivial
  | cons link rest =>
    obtain ⟨node, outer⟩ := link
    obtain ⟨⟨own, inner⟩, outers, others⟩ := holds
    rw [spineWalk, distinct_append, distinct_append, distinct_singleton] at distinct
    obtain ⟨⟨_, ⟨_, apart⟩, acrossOuter⟩, acrossRest⟩ := distinct
    have awayRest : ∀ other ∈ spineWalk side rest, place other ≠ place node :=
      fun other member => acrossRest other member node
        (List.mem_append_right _ (List.mem_singleton_self _))
    refine ⟨⟨?_, ?_⟩, outers.put _ _ fun other member => ?_, others.put (.inl apart) awayRest⟩
    · rw [put_other_side side.ne_other]
      exact own
    · rw [top, put_elsewhere (ne_top apart fun other member => (awayRest other member).symm).symm]
      exact inner
    · exact acrossOuter other ((mem_walk side outer other).mpr member) node
        (List.mem_singleton_self _)

omit [DecidableEq Place] in
/-- A spine with a tree at its free pointer is a tree at its anchor. -/
theorem SpineHolds.attach {anchor : Place} {children : Children Place} {side : Side} :
    ∀ {spine : Spine Node} {tree : BinaryTree Node},
      SpineHolds place anchor children side spine →
      children (top place anchor spine) side.other = some (pointer place tree) →
      Represents place children tree →
        children anchor side.other = some (pointer place (TreePath.attach side spine tree)) ∧
          Represents place children (TreePath.attach side spine tree) := by
  intro spine
  induction spine with
  | nil => exact fun _ hung holds => ⟨hung, holds⟩
  | cons link rest inductionHypothesis =>
    obtain ⟨node, outer⟩ := link
    rintro tree ⟨⟨own, inner⟩, outers, others⟩ hung holds
    refine inductionHypothesis others (by rw [pointer_join]; exact inner) ?_
    exact (represents_join side outer tree node).mpr ⟨⟨own, hung⟩, outers, holds⟩

/-! ### Steps of a path in memory -/

/-- A node is turned over its child: two pointers are written. -/
theorem PathHolds.rotate {anchor : Place} {children : Children Place} {path : Path Node}
    (holds : PathHolds place anchor children path)
    (distinct : Distinct place anchor (path.whole .left)) {side : Side}
    {outer inner far : BinaryTree Node} {child node : Node}
    (seen : path.tree = join side (join side outer child inner) node far) :
    PathHolds place anchor
      (put (put children (place node) side (pointer place inner)) (place child) side.other
        (some (place node)))
      (path.withTree (join side outer child (join side inner node far))) := by
  obtain ⟨tree, spines⟩ := holds
  have apart := distinct.whole side
  unfold Path.whole at apart
  rw [seen, walk_join, walk_join] at apart
  simp only [distinct_append, distinct_cons, distinct_reverse, List.mem_append, List.mem_cons,
    List.mem_reverse, mem_walk] at apart
  rw [seen, represents_join, represents_join, pointer_join] at tree
  obtain ⟨⟨_, nodeFar⟩, ⟨⟨childOuter, childInner⟩, outers, inners⟩, fars⟩ := tree
  have separate : place node ≠ place child := by grind
  refine ⟨?_, fun other => ?_⟩
  · change Represents place _ (join side outer child (join side inner node far))
    rw [represents_join, represents_join, pointer_join, put_same,
      put_other_side side.ne_other, put_elsewhere separate.symm, put_elsewhere separate, put_same,
      put_other_side side.other_ne]
    refine ⟨⟨childOuter, rfl⟩, (outers.put _ _ ?_).put _ _ ?_, ⟨rfl, nodeFar⟩,
      (inners.put _ _ ?_).put _ _ ?_, (fars.put _ _ ?_).put _ _ ?_⟩ <;> grind
  · change SpineHolds place anchor _ other (path.spine other)
    have away : ∀ member ∈ spineWalk other (path.spine other),
        place member ≠ place node ∧ place member ≠ place child := by
      cases other <;> cases side <;> grind [Side.other]
    exact ((spines other).put (.inl (by grind)) fun member there => (away member there).1).put
      (.inl (by grind)) fun member there => (away member there).2

/-- A step down: the free pointer of the other spine is written. -/
theorem PathHolds.down {anchor : Place} {children : Children Place} {path : Path Node}
    (holds : PathHolds place anchor children path)
    (distinct : Distinct place anchor (path.whole .left)) {side : Side}
    {near far : BinaryTree Node} {node : Node} (seen : path.tree = join side near node far) :
    PathHolds place anchor
      (put children (top place anchor (path.spine side.other)) side (some (place node)))
      (path.down side near node far) := by
  obtain ⟨tree, spines⟩ := holds
  have above : ∀ member ∈ inorder path.tree,
      place member ≠ top place anchor (path.spine side.other) :=
    fun member inside => distinct.ne_top side.other inside
  have apart := distinct.whole side
  unfold Path.whole at apart
  rw [distinct_append, distinct_append, distinct_reverse] at apart
  obtain ⟨⟨onSpine, ⟨_, onOther⟩, _⟩, across⟩ := apart
  rw [seen] at tree above
  rw [represents_join] at tree
  obtain ⟨⟨_, nodeOther⟩, nears, fars⟩ := tree
  refine ⟨nears.put _ _ fun member inside => above member (by simp [inside]), fun other => ?_⟩
  by_cases same : other = side.other
  · subst same
    rw [Path.down_spine_other]
    refine ⟨⟨?_, ?_⟩, fars.put _ _ fun member inside => above member (by simp [inside]), ?_⟩
    · rw [put_elsewhere (above node (by simp))]
      exact nodeOther
    · rw [Side.other_other, put_same]
    · have kept := (spines side.other).put_top onOther (some (place node))
      rwa [Side.other_other] at kept
  · have own : other = side := by
      cases other <;> cases side <;> first | rfl | exact absurd rfl same
    subst own
    rw [Path.down_spine]
    refine (spines other).put (.inr rfl) fun member inside => ?_
    exact PointerTree.ne_top (onSpine.anchor member inside) fun deeper there =>
      across member inside deeper (List.mem_append_right _ (List.mem_reverse.mpr there))

/-- The memory in which the subtrees of the last node of a path are written into the free
pointers of the spines. -/
def closed (place : Node → Place) (anchor : Place) (children : Children Place)
    (path : Path Node) (left right : BinaryTree Node) : Children Place :=
  put (put children (top place anchor (path.spine .left)) .right (pointer place left))
    (top place anchor (path.spine .right)) .left (pointer place right)

/-- What such a memory holds at the anchor: the trees on the two sides of the last node. -/
structure Closed (place : Node → Place) (anchor : Place) (children : Children Place)
    (node : Node) (lefts rights : BinaryTree Node) : Prop where
  fromLeft : children anchor .right = some (pointer place lefts)
  fromRight : children anchor .left = some (pointer place rights)
  holdsLeft : Represents place children lefts
  holdsRight : Represents place children rights
  awayLeft : ∀ other ∈ inorder lefts, place other ≠ place node
  awayRight : ∀ other ∈ inorder rights, place other ≠ place node

/-- The end of a path: with the subtrees of the last node written into the free pointers of
the spines, the anchor holds the two sides of the tree the path is put together to. -/
theorem PathHolds.closed {anchor : Place} {children : Children Place} {path : Path Node}
    (holds : PathHolds place anchor children path)
    (distinct : Distinct place anchor (path.whole .left)) {left right : BinaryTree Node}
    {node : Node} (seen : path.tree = .node node left right) :
    Closed place anchor (PointerTree.closed place anchor children path left right) node
      (TreePath.attach .left (path.spine .left) left)
      (TreePath.attach .right (path.spine .right) right) := by
  obtain ⟨tree, spines⟩ := holds
  rw [seen] at tree
  obtain ⟨_, lefts, rights⟩ := tree
  have apart := distinct
  rw [← Path.inorder_assemble seen, Path.assemble, inorder, distinct_append, distinct_cons]
    at apart
  obtain ⟨⟨inLeft, within⟩, across⟩ := apart
  obtain ⟨⟨apartNode, inRight⟩, nodeRight⟩ := within
  have leftParts : ∀ other, other ∈ inorder (TreePath.attach .left (path.spine .left) left) ↔
      other ∈ spineWalk .left (path.spine .left) ∨ other ∈ inorder left := by
    intro other
    rw [← mem_walk .left, walk_attach, List.mem_append, mem_walk]
  have rightParts : ∀ other, other ∈ inorder (TreePath.attach .right (path.spine .right) right) ↔
      other ∈ spineWalk .right (path.spine .right) ∨ other ∈ inorder right := by
    intro other
    rw [← mem_walk .right, walk_attach, List.mem_append, mem_walk]
  have onLeft : Distinct place anchor (spineWalk .left (path.spine .left) ++ inorder left) := by
    have same := walk_attach .left (path.spine .left) left
    change _ = _ ++ inorder left at same
    rw [← same]
    exact inLeft
  have onRight : Distinct place anchor
      (spineWalk .right (path.spine .right) ++ (inorder right).reverse) := by
    have same := walk_attach .right (path.spine .right) right
    change _ = _ ++ (inorder right).reverse at same
    rw [← same]
    exact distinct_reverse.mpr inRight
  have leftAway : ∀ other ∈ inorder (TreePath.attach .left (path.spine .left) left),
      place other ≠ top place anchor (path.spine .right) := fun other member =>
    ne_top (inLeft.anchor other member) fun deeper there =>
      across other member deeper
        (List.mem_cons_of_mem _ ((rightParts deeper).mpr (.inl there)))
  have rightAway : ∀ other ∈ spineWalk .right (path.spine .right) ++ (inorder right).reverse,
      place other ≠ top place anchor (path.spine .left) := by
    intro other member
    have within : other ∈ inorder (TreePath.attach .right (path.spine .right) right) := by
      rw [rightParts]
      exact (List.mem_append.mp member).imp_right List.mem_reverse.mp
    exact ne_top (inRight.anchor other within) fun deeper there =>
      (across deeper ((leftParts deeper).mpr (.inl there)) other
        (List.mem_cons_of_mem _ within)).symm
  have spineLeft := (distinct_append.mp onLeft).1.1
  have spineRight := (distinct_append.mp onRight).1.1
  have acrossLeft := (distinct_append.mp onLeft).2
  have acrossRight := (distinct_append.mp onRight).2
  obtain ⟨hungLeft, holdsLeft⟩ := SpineHolds.attach
    ((spines .left).put_top spineLeft (pointer place left)) (put_same _ _ _ _)
    (lefts.put _ _ fun other member =>
      ne_top (inLeft.anchor other ((leftParts other).mpr (.inr member)))
        fun deeper there => (acrossLeft deeper there other member).symm)
  have kept : SpineHolds place anchor
      (put children (top place anchor (path.spine .left)) .right (pointer place left)) .right
      (path.spine .right) :=
    (spines .right).put (.inr rfl) fun other member =>
      rightAway other (List.mem_append_left _ member)
  obtain ⟨hungRight, holdsRight⟩ := SpineHolds.attach
    (kept.put_top spineRight (pointer place right)) (put_same _ _ _ _)
    ((rights.put _ _ fun other member =>
        rightAway other (List.mem_append_right _ (List.mem_reverse.mpr member))).put _ _
      fun other member =>
        ne_top (inRight.anchor other ((rightParts other).mpr (.inr member)))
          fun deeper there =>
            (acrossRight deeper there other (List.mem_reverse.mpr member)).symm)
  refine ⟨?_, hungRight, holdsLeft.put _ _ leftAway, holdsRight, ?_, ?_⟩
  · exact (put_other_side Side.left.other_ne).trans hungLeft
  · exact fun other member => across other member node List.mem_cons_self
  · exact fun other member => (nodeRight other member).symm

/-- The last node over the two trees is the tree the path is put together to. -/
theorem Closed.root {anchor : Place} {children : Children Place} {node : Node}
    {lefts rights : BinaryTree Node} (closed : Closed place anchor children node lefts rights) :
    Represents place
      (put (put children (place node) .left (pointer place lefts)) (place node) .right
        (pointer place rights)) (.node node lefts rights) := by
  refine ⟨⟨?_, put_same _ _ _ _⟩, (closed.holdsLeft.put _ _ closed.awayLeft).put _ _
    closed.awayLeft, (closed.holdsRight.put _ _ closed.awayRight).put _ _ closed.awayRight⟩
  exact (put_other_side Side.right.other_ne).trans (put_same _ _ _ _)

/-! ### Places that hold a node -/

/-- A pointer that is null or leads to a place with both child pointers. -/
def Mapped (children : Children Place) (target : Option Place) : Prop :=
  ∀ place', target = some place' → ∀ side, ∃ value, children place' side = some value

omit [DecidableEq Place] in
theorem Represents.mapped {children : Children Place} {tree : BinaryTree Node}
    (holds : Represents place children tree) : Mapped children (pointer place tree) := by
  cases tree with
  | nil => exact nofun
  | node node left right =>
    rintro place' same side
    cases same
    cases side with
    | left => exact ⟨_, holds.1.1⟩
    | right => exact ⟨_, holds.1.2⟩

theorem Mapped.put {children : Children Place} {target : Option Place}
    (mapped : Mapped children target) (place' : Place) (side : Side) (value : Option Place) :
    Mapped (put children place' side value) target := by
  intro there same side'
  obtain ⟨old, found⟩ := mapped there same side'
  unfold PointerTree.put
  split
  · exact ⟨value, rfl⟩
  · exact ⟨old, found⟩

end PointerTree
