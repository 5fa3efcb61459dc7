/-
This file is about runs of requests on trees of splay links. Each owner keeps a pointer to the
root of its tree, and all trees lie in the same memory. The owners keep these rules: links
outside the trees are their own to write; a node is put into a tree with links that have no
children, at a place where there is none; and what is splayed or deleted is a node of the tree.

Every request of such a run is granted, and does to the order of the nodes of its tree what it
is to do, while all other trees stay as they are. In every state that a run reaches, the
neighbours of a node are those in the order.
-/

import Nloader.Library.Runs
import Nloader.SplayLinksDelete

namespace Nloader.SplayLinks

open Outcome TreePath TreeContext RootedTree BottomUp Runs
open Splay (Address Fault)

/-! ### Requests -/

/-- What the owners of trees ask for. -/
inductive Request (Owner : Type) where
  /-- The owner of links outside the trees writes them. -/
  | store (node : Address) (cell : RtlSplayLinks)
  /-- A node becomes the root of an empty tree. -/
  | plant (owner : Owner) (node : Address)
  /-- `RtlInsertAsLeftChild` or `RtlInsertAsRightChild`. -/
  | insert (owner : Owner) (parent : Address) (side : Side) (node : Address)
  /-- `Root = RtlSplay(Node)`. -/
  | splay (owner : Owner) (node : Address)
  /-- `Root = RtlDelete(Node)`. -/
  | delete (owner : Owner) (node : Address)
  /-- `RtlDeleteNoSplay(Node, &Root)`. -/
  | deleteNoSplay (owner : Owner) (node : Address)

/-- The links in memory, and the pointers to the roots. -/
structure State (Owner : Type) where
  links : Links
  roots : Owner → Option Address

section Requests

variable {Owner : Type} [DecidableEq Owner]

/-- The state with another root for an owner. -/
def State.withRoot (state : State Owner) (owner : Owner) (root : Option Address) (links : Links) :
    State Owner where
  links := links
  roots := Function.update state.roots owner root

/-- One request. -/
def perform (turns : Nat) (state : State Owner) : Request Owner → Except Fault (State Owner)
  | .store node cell => pure { state with links := Function.update state.links node (some cell) }
  | .plant owner node => pure (state.withRoot owner (some node) state.links)
  | .insert _ parent side node => do
    let links ← rtlInsertAsChild state.links (some parent) (some node) side
    pure { state with links }
  | .splay owner node => do
    let (root, links) ← rtlSplay turns state.links (some node)
    pure (state.withRoot owner root links)
  | .delete owner node => do
    let (root, links) ← rtlDelete turns state.links (some node)
    pure (state.withRoot owner root links)
  | .deleteNoSplay owner node => do
    let (root, links) ← rtlDeleteNoSplay turns state.links (some node) (state.roots owner)
    pure (state.withRoot owner root links)

/-! ### What the requests are to do -/

/-- A node put in beside another one, on a side of it. -/
def beside (side : Side) (parent node : Address) : List Address → List Address
  | [] => []
  | first :: rest =>
    if first = parent then
      match side with
      | .left => node :: first :: rest
      | .right => first :: node :: rest
    else first :: beside side parent node rest

/-- The nodes of every tree, from left to right. -/
abbrev Orders (Owner : Type) : Type := Owner → List Address

/-- What a request is to do to the nodes of the trees. -/
def Request.reordered (orders : Orders Owner) : Request Owner → Orders Owner
  | .store _ _ => orders
  | .plant owner node => Function.update orders owner [node]
  | .insert owner parent side node =>
    Function.update orders owner (beside side parent node (orders owner))
  | .splay _ _ => orders
  | .delete owner node => Function.update orders owner ((orders owner).erase node)
  | .deleteNoSplay owner node => Function.update orders owner ((orders owner).erase node)

/-- The rules that the owners keep. -/
def Request.Keeps (links : Links) (orders : Orders Owner) : Request Owner → Prop
  | .store node _ => ∀ owner, node ∉ orders owner
  | .plant owner node =>
    orders owner = [] ∧ (∀ other, node ∉ orders other) ∧
      links node = some { parent := some node, leftChild := none, rightChild := none }
  | .insert owner parent side node =>
    parent ∈ orders owner ∧ (∀ other, node ∉ orders other) ∧
      (∃ cell, links parent = some cell ∧ cell.child side = none) ∧
      ∃ cell, links node = some cell ∧ cell.leftChild = none ∧ cell.rightChild = none
  | .splay owner node => node ∈ orders owner
  | .delete owner node => node ∈ orders owner
  | .deleteNoSplay owner node => node ∈ orders owner

/-- One step of a run: a request that returns, with the nodes of the trees as they are to be. -/
def Step (before : State Owner × Orders Owner) (request : Request Owner)
    (after : State Owner × Orders Owner) : Prop :=
  (∃ turns, perform turns before.1 request = .ok after.1) ∧ after.2 = request.reordered before.2

/-- The runs on which the owners keep the rules, from a memory with no trees in it. -/
abbrev LinksRun (links : Links) :
    List (Request Owner) → State Owner × Orders Owner → Prop :=
  Run (Restrict Step fun before request => request.Keeps before.1.links before.2)
    (⟨links, fun _ => none⟩, fun _ => [])

/-- A state with the trees of all owners in it. -/
structure Forest (state : State Owner) (trees : Owner → BinaryTree Address) : Prop where
  holds : ∀ owner, RootedTree.Holds state.links (trees owner)
  roots : ∀ owner, state.roots owner = root (trees owner)
  apart : ∀ owner other, owner ≠ other →
    List.Disjoint (inorder (trees owner)) (inorder (trees other))

end Requests

/-! ### However long it runs -/

section Extensions

variable {turns longer : Nat} {links : Links} {pointer : Option Address}

theorem rtlSplay_extends (larger : turns ≤ longer) :
    Extends .outOfTurns (rtlSplay turns links pointer) (rtlSplay longer links pointer) := by
  unfold rtlSplay
  exact (repeatLoop_extends _ _ larger).bind fun _ => .refl _

theorem isolate_extends (larger : turns ≤ longer) :
    Extends .outOfTurns (isolate turns links pointer) (isolate longer links pointer) := by
  unfold isolate
  refine (Extends.refl _).bind fun left => (Extends.refl _).bind fun right => ?_
  split
  · refine Extends.bind ?_ fun sp => .refl _
    unfold rtlSubtreePredecessor subtreeNeighbour
    refine (Extends.refl _).bind fun child => ?_
    split
    · exact .refl _
    · exact repeatLoop_extends _ _ larger
  · exact .refl _

theorem rtlDelete_extends (larger : turns ≤ longer) :
    Extends .outOfTurns (rtlDelete turns links pointer) (rtlDelete longer links pointer) := by
  unfold rtlDelete
  refine (isolate_extends larger).bind fun (_, isolated) => (Extends.refl _).bind fun unlinked => ?_
  rcases unlinked with ⟨root | parent, links'⟩
  · exact .refl _
  · exact rtlSplay_extends larger

theorem rtlDeleteNoSplay_extends (larger : turns ≤ longer) (root : Option Address) :
    Extends .outOfTurns (rtlDeleteNoSplay turns links pointer root)
      (rtlDeleteNoSplay longer links pointer root) := by
  unfold rtlDeleteNoSplay
  exact (Extends.refl _).bind fun _ => (isolate_extends larger).bind fun _ => .refl _

end Extensions

/-! ### Forests -/

section Forests

variable {Owner : Type} [DecidableEq Owner] {state : State Owner}
  {trees : Owner → BinaryTree Address} {turns : Nat}

/-- The tree of an owner has changed, in links that are in no other tree. -/
theorem Forest.replace (forest : Forest state trees) {owner : Owner} {links : Links}
    {tree : BinaryTree Address} (holds : RootedTree.Holds links tree)
    (agree : ∀ other, other ≠ owner → ∀ here ∈ inorder (trees other),
      links here = state.links here)
    (apart : ∀ other, other ≠ owner → List.Disjoint (inorder tree) (inorder (trees other))) :
    Forest (state.withRoot owner (root tree) links) (Function.update trees owner tree) := by
  refine ⟨fun other => ?_, fun other => ?_, fun first second differ => ?_⟩
  · by_cases same : other = owner
    · subst same
      rw [Function.update_self]
      exact holds
    · rw [Function.update_of_ne same]
      exact (forest.holds other).congr (agree other same)
  · change Function.update state.roots owner (root tree) other = _
    by_cases same : other = owner
    · subst same
      rw [Function.update_self, Function.update_self]
    · rw [Function.update_of_ne same, Function.update_of_ne same]
      exact forest.roots other
  · by_cases atFirst : first = owner
    · subst atFirst
      rw [Function.update_self, Function.update_of_ne differ.symm]
      exact apart second differ.symm
    · by_cases atSecond : second = owner
      · subst atSecond
        rw [Function.update_self, Function.update_of_ne atFirst]
        exact (apart first atFirst).symm
      · rw [Function.update_of_ne atFirst, Function.update_of_ne atSecond]
        exact forest.apart first second differ

/-- The tree of an owner has changed, and has got no new nodes. -/
theorem Forest.rearrange (forest : Forest state trees) {owner : Owner} {links : Links}
    {tree : BinaryTree Address} (holds : RootedTree.Holds links tree)
    (agree : AgreeOutside (inorder (trees owner)) state.links links)
    (within : ∀ node ∈ inorder tree, node ∈ inorder (trees owner)) :
    Forest (state.withRoot owner (root tree) links) (Function.update trees owner tree) := by
  refine forest.replace holds (fun other differ here member => agree here fun inside => ?_)
    fun other differ node inside member => ?_
  · exact forest.apart owner other differ.symm inside member
  · exact forest.apart owner other differ.symm (within node inside) member

/-- The nodes of the trees, from left to right. -/
def ordersOf (trees : Owner → BinaryTree Address) : Orders Owner :=
  fun owner => inorder (trees owner)

omit [DecidableEq Owner] in
theorem update_ordersOf [DecidableEq Owner] (owner : Owner) (tree : BinaryTree Address) :
    ordersOf (Function.update trees owner tree) =
      Function.update (ordersOf trees) owner (inorder tree) := by
  funext other
  by_cases same : other = owner
  · subst same
    rw [ordersOf, Function.update_self, Function.update_self]
  · rw [ordersOf, Function.update_of_ne same, Function.update_of_ne same]
    rfl

/-- What a request makes of the trees. -/
inductive Reshapes (trees : Owner → BinaryTree Address) :
    Request Owner → (Owner → BinaryTree Address) → Prop
  | store (node : Address) (cell : RtlSplayLinks) : Reshapes trees (.store node cell) trees
  | plant (owner : Owner) (node : Address) (empty : trees owner = .nil) :
    Reshapes trees (.plant owner node) (Function.update trees owner (.node node .nil .nil))
  | insert (owner : Owner) (parent : Address) (side : Side) (node : Address)
    (context : Context Address) (far : BinaryTree Address)
    (shape : trees owner = plug (⟨side, parent, far⟩ :: context) .nil) :
    Reshapes trees (.insert owner parent side node)
      (Function.update trees owner (plug (⟨side, parent, far⟩ :: context) (.node node .nil .nil)))
  | splay (owner : Owner) (node : Address) (context : Context Address)
    (left right : BinaryTree Address) (shape : trees owner = plug context (.node node left right)) :
    Reshapes trees (.splay owner node)
      (Function.update trees owner (splay context (.node node left right)))
  | delete (owner : Owner) (node : Address) (context : Context Address)
    (left right : BinaryTree Address) (shape : trees owner = plug context (.node node left right)) :
    Reshapes trees (.delete owner node)
      (Function.update trees owner (splayAbove (removed context left right)))
  | deleteNoSplay (owner : Owner) (node : Address) (context : Context Address)
    (left right : BinaryTree Address) (shape : trees owner = plug context (.node node left right)) :
    Reshapes trees (.deleteNoSplay owner node)
      (Function.update trees owner
        (plug (removed context left right).1 (removed context left right).2))

/-! ### Orders -/

theorem beside_append {side : Side} {parent node : Address} {before : List Address}
    (absent : parent ∉ before) (after : List Address) :
    beside side parent node (before ++ parent :: after) =
      before ++ beside side parent node (parent :: after) := by
  induction before with
  | nil => rfl
  | cons first rest inductionHypothesis =>
    rw [List.mem_cons, not_or] at absent
    have passed : beside side parent node (first :: (rest ++ parent :: after)) =
        first :: beside side parent node (rest ++ parent :: after) := if_neg (Ne.symm absent.1)
    rw [List.cons_append, passed, inductionHypothesis absent.2]
    rfl

theorem beside_left (parent node : Address) (rest : List Address) :
    beside .left parent node (parent :: rest) = node :: parent :: rest := if_pos rfl

theorem beside_right (parent node : Address) (rest : List Address) :
    beside .right parent node (parent :: rest) = parent :: node :: rest := if_pos rfl

/-- A leaf put in is beside its parent. -/
theorem inorder_leaf {side : Side} {parent node : Address} {context : Context Address}
    {far : BinaryTree Address}
    (nodup : (inorder (plug (⟨side, parent, far⟩ :: context) .nil)).Nodup) :
    inorder (plug (⟨side, parent, far⟩ :: context) (.node node .nil .nil)) =
      beside side parent node (inorder (plug (⟨side, parent, far⟩ :: context) .nil)) := by
  have around : ∀ tree, inorder (plug (⟨side, parent, far⟩ :: context) tree) = _ :=
    fun tree => inorder_plug context (Frame.fill ⟨side, parent, far⟩ tree)
  rw [around] at nodup ⊢
  rw [around]
  cases side with
  | left =>
    have absent : parent ∉ (beyond .left context).reverse := fun member =>
      List.disjoint_of_nodup_append nodup member List.mem_cons_self
    refine Eq.trans ?_ (beside_append absent (inorder far ++ beyond .right context)).symm
    rw [beside_left]
    rfl
  | right =>
    change ((beyond .left context).reverse ++ ((inorder far ++ [parent]) ++ _)).Nodup at nodup
    rw [List.append_assoc, ← List.append_assoc] at nodup
    have absent : parent ∉ (beyond .left context).reverse ++ inorder far := fun member =>
      List.disjoint_of_nodup_append nodup member List.mem_cons_self
    have placed := @beside_append .right parent node _ absent (beyond .right context)
    rw [beside_right] at placed
    change (beyond .left context).reverse ++ ((inorder far ++ [parent, node]) ++ _) =
      beside .right parent node ((beyond .left context).reverse ++ ((inorder far ++ [parent]) ++ _))
    simp only [List.append_assoc, List.cons_append, List.nil_append] at placed ⊢
    exact placed.symm

/-- The trees have the nodes that they are to have. -/
theorem Reshapes.reordered {request : Request Owner} {trees' : Owner → BinaryTree Address}
    (reshapes : Reshapes trees request trees') (nodup : ∀ owner, (inorder (trees owner)).Nodup) :
    ordersOf trees' = request.reordered (ordersOf trees) := by
  cases reshapes with
  | store => rfl
  | plant owner node empty => exact update_ordersOf _ _
  | insert owner parent side node context far shape =>
    rw [update_ordersOf, inorder_leaf (shape ▸ nodup owner), ← shape]
    rfl
  | splay owner node context left right shape =>
    rw [update_ordersOf, inorder_splay, ← shape]
    exact Function.update_eq_self owner (ordersOf trees)
  | delete owner node context left right shape =>
    rw [update_ordersOf, inorder_splayAbove, inorder_removed_erase (shape ▸ nodup owner), ← shape]
    rfl
  | deleteNoSplay owner node context left right shape =>
    rw [update_ordersOf, inorder_removed_erase (shape ▸ nodup owner), ← shape]
    rfl

/-! ### One request -/

/-- What bounds the turns of the loops in a request. -/
def Request.size (orders : Orders Owner) : Request Owner → Nat
  | .splay owner _ => (orders owner).length
  | .delete owner _ => (orders owner).length
  | .deleteNoSplay owner _ => (orders owner).length
  | _ => 0

omit [DecidableEq Owner] in
theorem Forest.nodup (forest : Forest state trees) (owner : Owner) :
    (inorder (trees owner)).Nodup :=
  (forest.holds owner).nodup

/-- A leaf put into a tree in memory. -/
theorem Forest.insert (forest : Forest state trees) {owner : Owner} {parent node : Address}
    {side : Side} {cell cell' : RtlSplayLinks} (member : parent ∈ inorder (trees owner))
    (fresh : ∀ other, node ∉ inorder (trees other)) (found : state.links parent = some cell)
    (empty : cell.child side = none) (found' : state.links node = some cell')
    (childless : cell'.leftChild = none ∧ cell'.rightChild = none) :
    ∃ state' context far, trees owner = plug (⟨side, parent, far⟩ :: context) .nil ∧
      perform turns state (.insert owner parent side node) = .ok state' ∧
      Forest state' (Function.update trees owner
        (plug (⟨side, parent, far⟩ :: context) (.node node .nil .nil))) := by
  obtain ⟨context, near, far, shape, held⟩ := (forest.holds owner).exists_held member side
  have own := held_node held
  have missing : root near = none := by
    rw [found] at own
    cases own
    rw [link_child] at empty
    exact empty
  cases root_eq_none.mp missing
  have hole : Held state.links (⟨side, parent, far⟩ :: context) .nil := held_cons.mpr held
  have shape' : trees owner = plug (⟨side, parent, far⟩ :: context) .nil := shape
  have outside : node ∉ inorder (plug (⟨side, parent, far⟩ :: context) .nil) := shape' ▸ fresh owner
  have apart : node ≠ parent := fun same => fresh owner (same ▸ member)
  have placed := hole.leaf found' childless fun inside =>
    outside ((perm_plug _ _).mem_iff.mpr (List.mem_append_right _ inside))
  have ran : rtlInsertAsChild state.links (some parent) (some node) side =
      .ok (spliced state.links (above (⟨side, parent, far⟩ :: context)) (some node)
        (LinkedTree.hang (⟨side, parent, far⟩ :: context))) := by
    have found'' : change state.links parent (fun cell => cell.withChild side (some node)) node =
        some cell' := by
      rw [change_elsewhere apart, found']
    rw [rtlInsertAsChild, setChild_eq found, ok_bind, setParent_eq found'']
    rfl
  have kept : ∀ links, state.withRoot owner
      (root (plug (⟨side, parent, far⟩ :: context) (.node node .nil .nil))) links =
        { state with links } := fun links => by
    rw [root_plug_cons _ _ .nil, ← shape', ← forest.roots]
    exact congrArg (State.mk links) (Function.update_eq_self owner state.roots)
  have within : ∀ here ∈ inorder (plug (⟨side, parent, far⟩ :: context) (.node node .nil .nil)),
      here = node ∨ here ∈ inorder (trees owner) := fun here inside => by
    rcases List.mem_append.mp ((perm_plug _ _).mem_iff.mp inside) with leaf | outer
    · exact .inl (List.mem_singleton.mp leaf)
    · exact .inr (shape' ▸ (perm_plug _ _).mem_iff.mpr (List.mem_append_right _ outer))
  have others : ∀ other, other ≠ owner → ∀ here ∈ inorder (trees other),
      here ∉ inorder (plug (⟨side, parent, far⟩ :: context) (.node node .nil .nil)) :=
    fun other differ here inside inTree => by
      rcases within here inTree with same | inOwner
      · exact fresh other (same ▸ inside)
      · exact forest.apart owner other differ.symm inOwner inside
  refine ⟨_, context, far, shape', ?_, kept _ ▸ forest.replace (holds_iff_held.mpr placed)
    (fun other differ here inside => ?_) fun other differ here inTree inside => ?_⟩
  · rw [perform, ran, ok_bind]
    rfl
  · exact spliced_agree state.links _ (.node node .nil .nil) here (others other differ here inside)
  · exact others other differ here inside inTree

/-- A request that keeps the rules returns, and reshapes the trees. -/
theorem perform_forest (forest : Forest state trees) {request : Request Owner}
    (keeps : request.Keeps state.links (ordersOf trees))
    (enough : request.size (ordersOf trees) ≤ turns) :
    ∃ state' trees', perform turns state request = .ok state' ∧ Forest state' trees' ∧
      Reshapes trees request trees' := by
  cases request with
  | store node cell =>
    refine ⟨_, trees, rfl, ⟨fun owner => ?_, forest.roots, forest.apart⟩, .store node cell⟩
    refine (forest.holds owner).congr fun other member => Function.update_of_ne (fun same => ?_) _ _
    exact keeps owner (same ▸ member)
  | plant owner node =>
    obtain ⟨empty, fresh, found⟩ := keeps
    have bare : trees owner = .nil := by
      have counted := length_inorder (trees owner)
      rw [show inorder (trees owner) = [] from empty] at counted
      cases shape : trees owner with
      | nil => rfl
      | node other left right =>
        rw [shape] at counted
        cases counted
    have holds : RootedTree.Holds state.links (.node node .nil .nil) :=
      ⟨List.nodup_singleton node, found, trivial, trivial⟩
    refine ⟨_, _, rfl, forest.replace holds (fun _ _ _ _ => rfl)
      fun other _ here inside member => ?_, .plant owner node bare⟩
    exact fresh other (List.mem_singleton.mp inside ▸ member)
  | insert owner parent side node =>
    obtain ⟨member, fresh, ⟨cell, found, empty⟩, cell', found', childless⟩ := keeps
    obtain ⟨state', context, far, shape, ran, forest'⟩ :=
      @Forest.insert _ _ _ _ turns forest _ _ _ _ _ _ member fresh found empty found' childless
    exact ⟨state', _, ran, forest', .insert owner parent side node context far shape⟩
  | splay owner node =>
    obtain ⟨context, left, right, shape, held⟩ := (forest.holds owner).exists_held keeps .left
    have size := length_le_plug context (join .left left node right)
    have counted := length_inorder (trees owner)
    rw [numNodes_join, ← shape] at size
    have enough' : splayTurns context.length ≤ turns := by
      change (inorder (trees owner)).length ≤ turns at enough
      unfold splayTurns
      omega
    obtain ⟨⟨links', ran, held', agree⟩, _⟩ := splayLoop_eq turns held rfl enough'
    have top : root (splay context (join .left left node right)) = some node := root_splay rfl
    refine ⟨_, _, ?_, top ▸ forest.rearrange (holds_iff_held.mpr held') (shape ▸ agree)
      fun other member => ?_, .splay owner node context left right shape⟩
    · rw [perform, rtlSplay, ran, ok_bind, pure_eq, ok_bind]
      rfl
    · rw [plug_nil, inorder_splay] at member
      exact shape ▸ member
  | delete owner node =>
    obtain ⟨context, left, right, shape, held⟩ := (forest.holds owner).exists_held keeps .left
    have enough' : (plug context (.node node left right)).numNodes ≤ turns := by
      rw [← length_inorder]
      exact shape ▸ enough
    obtain ⟨links', ran, holds, agree⟩ := rtlDelete_held held enough'
    refine ⟨_, _, ?_, forest.rearrange holds (shape ▸ agree) fun other member => ?_,
      .delete owner node context left right shape⟩
    · rw [perform, ran, ok_bind]
      rfl
    · rw [inorder_splayAbove] at member
      exact shape ▸ mem_removed member
  | deleteNoSplay owner node =>
    obtain ⟨context, left, right, shape, held⟩ := (forest.holds owner).exists_held keeps .left
    have enough' : (plug context (.node node left right)).numNodes ≤ turns := by
      rw [← length_inorder]
      exact shape ▸ enough
    obtain ⟨links', ran, holds, agree⟩ := rtlDeleteNoSplay_held held enough'
    refine ⟨_, _, ?_, forest.rearrange holds (shape ▸ agree) fun other member => ?_,
      .deleteNoSplay owner node context left right shape⟩
    · have pointer : state.roots owner = root (plug context (.node node left right)) :=
        shape ▸ forest.roots owner
      rw [perform, pointer, ran, ok_bind]
      rfl
    · exact shape ▸ mem_removed member

/-! ### Runs -/

theorem perform_extends {longer : Nat} (larger : turns ≤ longer) (request : Request Owner) :
    Extends .outOfTurns (perform turns state request) (perform longer state request) := by
  cases request with
  | store => exact .refl _
  | plant => exact .refl _
  | insert => exact .refl _
  | splay => exact (rtlSplay_extends larger).bind fun _ => .refl _
  | delete => exact (rtlDelete_extends larger).bind fun _ => .refl _
  | deleteNoSplay => exact (rtlDeleteNoSplay_extends larger _).bind fun _ => .refl _

/-- A request that keeps the rules reshapes the trees, in however many turns it returns. -/
theorem reshapes_of_perform (forest : Forest state trees) {request : Request Owner}
    (keeps : request.Keeps state.links (ordersOf trees)) {after : State Owner}
    (ran : perform turns state request = .ok after) :
    ∃ trees', Forest after trees' ∧ Reshapes trees request trees' := by
  obtain ⟨state', trees', ran', forest', reshapes⟩ :=
    @perform_forest _ _ _ _ (turns + request.size (ordersOf trees)) forest request keeps
      (Nat.le_add_left _ _)
  have same : perform (turns + request.size (ordersOf trees)) state request = .ok after :=
    (perform_extends (Nat.le_add_right _ _) request).of_ok ran
  cases same.symm.trans ran'
  exact ⟨trees', forest', reshapes⟩

/-- A request that returns continues a run. -/
theorem LinksRun.next {links : Links} {requests : List (Request Owner)} {orders : Orders Owner}
    (run : LinksRun links requests (state, orders)) {request : Request Owner}
    (keeps : request.Keeps state.links orders) {after : State Owner}
    (ran : perform turns state request = .ok after) :
    LinksRun links (request :: requests) (after, request.reordered orders) :=
  run.cons ⟨keeps, ⟨turns, ran⟩, rfl⟩

omit [DecidableEq Owner] in
/-- A memory without trees. -/
theorem empty_forest (links : Links) :
    Forest (⟨links, fun _ => none⟩ : State Owner) fun _ => .nil :=
  ⟨fun _ => trivial, fun _ => rfl, fun _ _ _ _ member => by cases member⟩

/-- In every state that a run reaches there are the trees that there are to be. -/
theorem LinksRun.exists_forest {links : Links} {requests : List (Request Owner)}
    {reached : State Owner × Orders Owner} (run : LinksRun links requests reached) :
    ∃ trees, Forest reached.1 trees ∧ reached.2 = ordersOf trees := by
  induction run with
  | nil => exact ⟨_, empty_forest links, rfl⟩
  | cons _ next inductionHypothesis =>
    obtain ⟨trees, forest, orders⟩ := inductionHypothesis
    obtain ⟨keeps, ⟨turns, ran⟩, reordered⟩ := next
    rw [orders] at keeps reordered
    obtain ⟨trees', forest', reshapes⟩ := reshapes_of_perform forest keeps ran
    exact ⟨trees', forest', reordered.trans (reshapes.reordered forest.nodup).symm⟩

omit [DecidableEq Owner] in
/-- The neighbours of a node are those in the order. -/
theorem Forest.neighbours (forest : Forest state trees) {owner : Owner}
    {before after : List Address} {node : Address}
    (split : inorder (trees owner) = before ++ node :: after)
    (enough : (inorder (trees owner)).length < turns) :
    rtlRealPredecessor turns state.links (some node) = .ok before.getLast? ∧
      rtlRealSuccessor turns state.links (some node) = .ok after.head? := by
  obtain ⟨context, left, right, shape, lesser, greater⟩ := exists_plug split
  have held := holds_iff_held.mp (shape ▸ forest.holds owner)
  have enough' : (plug context (join .left left node right)).numNodes < turns := by
    rw [← length_inorder]
    exact shape ▸ enough
  have front := @realNeighbour_eq _ .left context node left right turns held enough'
  have back := @realNeighbour_eq _ .right context node right left turns held enough'
  subst lesser greater
  refine ⟨front.trans ?_, back⟩
  rw [show walk Side.left.other left = (inorder left).reverse from walk_other .left left,
    List.getLast?_eq_head?_reverse, List.reverse_append, List.reverse_reverse]

/-- Every state that a run reaches: each root pointer leads to a tree with the nodes that it is
to have, in their order, and no two trees share a node; whatever is asked for under the rules
returns; and the walks from a node lead to its neighbours in the order. -/
theorem linksRun_orders {links : Links} {requests : List (Request Owner)} {orders : Orders Owner}
    (run : LinksRun links requests (state, orders)) :
    (∀ owner, ∃ tree, RootedTree.Holds state.links tree ∧ root tree = state.roots owner ∧
      inorder tree = orders owner) ∧
    (∀ owner other, owner ≠ other → List.Disjoint (orders owner) (orders other)) ∧
    (∀ request turns, Request.Keeps state.links orders request → request.size orders ≤ turns →
      ∃ after, perform turns state request = .ok after) ∧
    ∀ owner before node after turns, orders owner = before ++ node :: after →
      (orders owner).length < turns →
        rtlRealPredecessor turns state.links (some node) = .ok before.getLast? ∧
          rtlRealSuccessor turns state.links (some node) = .ok after.head? := by
  obtain ⟨trees, forest, same⟩ := run.exists_forest
  cases same
  refine ⟨fun owner => ⟨trees owner, forest.holds owner, (forest.roots owner).symm, rfl⟩,
    forest.apart, fun request turns keeps enough => ?_,
    fun owner before node after turns split enough => forest.neighbours split enough⟩
  obtain ⟨after, _, ran, _⟩ := perform_forest forest keeps enough
  exact ⟨after, ran⟩

end Forests

/-- Links of a node by itself. -/
def alone (node : Address) : RtlSplayLinks := ⟨some node, none, none⟩

/-- Two nodes, of which the second one is put in on the left of the first one and splayed. -/
def exampleRequests : List (Request Bool) :=
  [.splay true 200, .insert true 100 .left 200, .store 200 (alone 200), .plant true 100,
    .store 100 (alone 100)]

theorem exists_exampleRun :
    ∃ state orders, LinksRun (fun _ => none) exampleRequests (state, orders) ∧
      orders true = [200, 100] ∧ state.links 200 = some ⟨some 200, none, some 100⟩ := by
  have start : LinksRun (fun _ => none) [] ((⟨fun _ => none, fun _ => none⟩ : State Bool), _) :=
    .nil
  have first := @LinksRun.next _ _ _ 3 _ _ _ start (.store 100 (alone 100))
    (fun _ => List.not_mem_nil) _ rfl
  have planted := @LinksRun.next _ _ _ 3 _ _ _ first (.plant true 100)
    ⟨rfl, fun _ => List.not_mem_nil, rfl⟩ _ rfl
  have fresh : ∀ owner, 200 ∉ (Request.plant true 100).reordered (fun _ : Bool => []) owner := by
    decide
  have second := @LinksRun.next _ _ _ 3 _ _ _ planted (.store 200 (alone 200)) fresh _ rfl
  have inserted := @LinksRun.next _ _ _ 3 _ _ _ second (.insert true 100 .left 200)
    ⟨List.mem_singleton_self 100, fresh, ⟨_, rfl, rfl⟩, _, rfl, rfl, rfl⟩ _ rfl
  exact ⟨_, _, @LinksRun.next _ _ _ 3 _ _ _ inserted (.splay true 200) List.mem_cons_self _ rfl,
    rfl, rfl⟩

theorem linksRun_orders_example :
    ∃ state orders, LinksRun (fun _ => none) exampleRequests (state, orders) ∧
      rtlRealSuccessor 3 state.links (some 200) = .ok (some 100) := by
  obtain ⟨state, orders, run, order, _⟩ := exists_exampleRun
  have enough : (orders true).length < 3 := by
    rw [order]
    decide
  obtain ⟨_, _, _, neighbours⟩ := linksRun_orders run
  exact ⟨state, orders, run, (neighbours true [] 200 [100] 3 order enough).2⟩

end Nloader.SplayLinks
