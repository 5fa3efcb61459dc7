/-
This file counts the turns of the loops in runs of requests on trees of splay links. `RtlSplay`
takes half a turn for every node above the one it splays, and the walk of `RtlDelete` to the
predecessor of a node is no longer than the way up that it splays afterwards. What the nodes on
the way do not pay for with the potential of the tree is logarithmic in its size, so that the
requests on one tree take a logarithmic number of turns on average.

The walk of `RtlDeleteNoSplay` is not counted: nothing is splayed behind it.
-/

import Nloader.Library.SplayCost
import Nloader.SplayLinksRuns

namespace Nloader.SplayLinks

open Outcome TreePath TreeContext RootedTree BottomUp Runs
open Splay (Address Fault)

/-! ### The turns of a request -/

/-- The turns of the loop in `RtlSplay`. -/
def turnsOfSplay (turns : Nat) (links : Links) (pointer : Option Address) : Nat :=
  (repeatHeads (splayTurn pointer) turns links).length

/-- The turns of the walk to the predecessor of a node with two children. -/
def turnsOfWalk (turns : Nat) (links : Links) (n : Option Address) : Nat :=
  match rtlChild links n .left, rtlChild links n .right with
  | .ok leftChild, .ok rightChild =>
    if leftChild ≠ none ∧ rightChild ≠ none then
      (repeatHeads (deepestTurn links .right) turns leftChild).length
    else 0
  | _, _ => 0

/-- The turns of the loop in `RtlSplay` on what a deletion returns to it. -/
def turnsBehind (turns : Nat) :
    Except Fault ((Option Address ⊕ Option Address) × Links) → Nat
  | .ok (.inr parent, links) => turnsOfSplay turns links parent
  | _ => 0

/-- The turns of the two loops in `RtlDelete`. -/
def turnsOfDelete (turns : Nat) (links : Links) (n : Option Address) : Nat :=
  turnsOfWalk turns links n +
    turnsBehind turns (isolate turns links n >>= fun isolated => unlink isolated.2 n)

section

variable {Owner : Type}

/-- The turns of the loops in a request. -/
def Request.turnsOf (turns : Nat) (links : Links) : Request Owner → Nat
  | .splay _ node => turnsOfSplay turns links (some node)
  | .delete _ node => turnsOfDelete turns links (some node)
  | _ => 0

/-- The owner of the tree that a request is on. -/
def Request.owner : Request Owner → Option Owner
  | .store _ _ => none
  | .plant owner _ => some owner
  | .insert owner _ _ _ => some owner
  | .splay owner _ => some owner
  | .delete owner _ => some owner
  | .deleteNoSplay owner _ => some owner

end

/-! ### However long it runs -/

section Extensions

variable {turns longer : Nat} {links : Links} {pointer : Option Address}

theorem turnsOfSplay_of_ok {result : Option Address × Links}
    (ran : rtlSplay turns links pointer = .ok result) (larger : turns ≤ longer) :
    turnsOfSplay longer links pointer = turnsOfSplay turns links pointer := by
  obtain ⟨links', looped, _⟩ := bind_eq_ok.mp ran
  unfold turnsOfSplay
  rw [repeatHeads_of_ok looped larger]

theorem turnsOfDelete_of_ok {result : Option Address × Links}
    (ran : rtlDelete turns links pointer = .ok result) (larger : turns ≤ longer) :
    turnsOfDelete longer links pointer = turnsOfDelete turns links pointer := by
  obtain ⟨⟨sp, isolated⟩, isolating, rest⟩ := bind_eq_ok.mp ran
  obtain ⟨⟨answer, links'⟩, unlinking, rest⟩ := bind_eq_ok.mp rest
  have walked : turnsOfWalk longer links pointer = turnsOfWalk turns links pointer := by
    unfold turnsOfWalk
    obtain ⟨leftChild, left, inner⟩ := bind_eq_ok.mp isolating
    obtain ⟨rightChild, right, inner⟩ := bind_eq_ok.mp inner
    rw [left, right]
    by_cases both : leftChild ≠ none ∧ rightChild ≠ none
    · obtain ⟨sp, found, _⟩ := bind_eq_ok.mp ((if_pos both).symm.trans inner)
      unfold rtlSubtreePredecessor subtreeNeighbour at found
      rw [left, ok_bind, if_neg both.1] at found
      have heads := repeatHeads_of_ok found larger
      exact congrArg
        (fun heads => if leftChild ≠ none ∧ rightChild ≠ none then heads.length else 0) heads
    · exact (if_neg both).trans (if_neg both).symm
  have isolating' := (isolate_extends larger).of_ok isolating
  unfold turnsOfDelete
  rw [walked, isolating, isolating', ok_bind, unlinking]
  cases answer with
  | inl root => rfl
  | inr parent => exact congrArg _ (turnsOfSplay_of_ok rest larger)

end Extensions

/-! ### The turns on a tree -/

section Turns

variable {turns : Nat} {links : Links} {context : Context Address} {n : Address}

/-- The walk to the last node takes a turn for every node on it. -/
theorem rightmost_turns (right : BinaryTree Address) :
    ∀ (turns : Nat) (context path : Context Address) (node : Address)
      (left : BinaryTree Address), Held links context (.node node left right) →
        right.numNodes < turns →
          (repeatHeads (deepestTurn links .right) turns (some node)).length + path.length =
            (rightmost path node left right).1.length + 1 := by
  induction right with
  | nil =>
    intro turns context path node left held enough
    obtain ⟨turns, rfl⟩ := Nat.exists_eq_add_of_lt enough
    have own := held_node (show Held links context (join .left left node .nil) from held)
    have turned : deepestTurn links .right (some node) = .ok (.leave (some node)) := by
      rw [deepestTurn, rtlChild_eq own, ok_bind]
      rfl
    rw [repeatHeads, turned, rightmost, List.length_singleton, Nat.add_comm]
  | node next inner right _ rightHypothesis =>
    intro turns context path node left held enough
    obtain ⟨turns, rfl⟩ : ∃ rest, turns = rest + 1 := ⟨turns - 1, by omega⟩
    have own := held_node (show Held links context (join .left left node (.node next inner right))
      from held)
    have turned : deepestTurn links .right (some node) = .ok (.again (some next)) := by
      rw [deepestTurn, rtlChild_eq own, ok_bind]
      rfl
    have lower : Held links (⟨.right, node, left⟩ :: context) (.node next inner right) :=
      held_cons.mpr held
    have size := numNodes_join .left inner right next
    have others := rightHypothesis turns _ (⟨.right, node, left⟩ :: path) next inner lower (by
      change (join .left inner next right).numNodes < turns + 1 at enough
      omega)
    rw [repeatHeads_again _ turned, rightmost, List.length_cons]
    rw [List.length_cons] at others
    omega

/-- The walk to the predecessor of a node takes the turns by which the hole is deeper. -/
theorem turnsOfWalk_held {left right : BinaryTree Address}
    (held : Held links context (.node n left right)) (enough : left.numNodes ≤ turns) :
    turnsOfWalk turns links (some n) + context.length =
      (removed context left right).1.length := by
  have own := held_node (show Held links context (join .left left n right) from held)
  unfold turnsOfWalk
  rw [rtlChild_eq own, rtlChild_eq own, link_child, link_right]
  match left, right with
  | .nil, right => exact (congrArg (· + _) (if_neg fun both => both.1 rfl)).trans (Nat.zero_add _)
  | .node node near inner, .nil =>
    exact (congrArg (· + _) (if_neg fun both => both.2 rfl)).trans (Nat.zero_add _)
  | .node node near inner, .node other outer far =>
    have lower : Held links (⟨.left, n, .node other outer far⟩ :: context)
        (.node node near inner) := held_cons.mpr held
    have counted := rightmost_turns inner turns _ [] node near lower (by
      have size := numNodes_join .left near inner node
      change (join .left near node inner).numNodes ≤ turns at enough
      omega)
    have both : root (.node node near inner) ≠ none ∧ root (.node other outer far) ≠ none :=
      ⟨Option.some_ne_none _, Option.some_ne_none _⟩
    refine (congrArg (· + _) (if_pos both)).trans ?_
    obtain ⟨path, heir, below, found, _, _⟩ := exists_rightmost [] node near inner
    rw [removed, found]
    rw [found] at counted
    change _ = (path ++ [] ++ _ :: context).length
    rw [List.append_nil, List.length_append, List.length_cons]
    change (repeatHeads _ _ _).length + 0 = (path ++ []).length + 1 at counted
    rw [List.append_nil] at counted
    have walked : (repeatHeads (deepestTurn links .right) turns
        (root (.node node near inner))).length = path.length + 1 := counted
    rw [walked]
    omega

/-- The turns of a deletion are few for every node above the hole. -/
theorem turnsOfDelete_held {left right : BinaryTree Address}
    (held : Held links context (.node n left right))
    (enough : (plug context (.node n left right)).numNodes ≤ turns) :
    2 * turnsOfDelete turns links (some n) ≤
      3 * ((removed context left right).1.length - 1) + 5 := by
  have size := numNodes_le_plug context (join .left left n right)
  rw [numNodes_join] at size
  have enough' : left.numNodes ≤ turns := by
    change (plug context (join .left left n right)).numNodes ≤ turns at enough
    omega
  have walked := turnsOfWalk_held held enough'
  have turned := @splayTurns_removed context n left right
  obtain ⟨sp, isolated, links', ran, ran', held', _, _⟩ := taken_out held enough
  unfold turnsOfDelete
  rw [ran, ok_bind, ran']
  generalize removed context left right = hole at walked turned held' ⊢
  obtain ⟨outer, child⟩ := hole
  cases outer with
  | nil =>
    change 2 * (_ + 0) ≤ _
    change _ + context.length = 0 at walked
    omega
  | cons frame rest =>
    obtain ⟨_, counted⟩ := splayLoop_eq turns (held_cons.mp held') (root_join _ _ _ _)
      ((turned rfl).trans enough)
    change 2 * (_ + (repeatHeads (splayTurn (some frame.node)) turns links').length) ≤
      3 * (rest.length + 1 - 1) + 5
    change _ + context.length = rest.length + 1 at walked
    rw [counted, splayTurns]
    omega

end Turns

/-! ### What a request costs -/

section Costs

variable {Owner : Type} [DecidableEq Owner] {state : State Owner}
  {trees trees' : Owner → BinaryTree Address} {turns : Nat} {request : Request Owner}

/-- A request is on the tree of its owner alone. -/
theorem Reshapes.elsewhere (reshapes : Reshapes trees request trees') {owner : Owner}
    (other : request.owner ≠ some owner) : trees' owner = trees owner := by
  cases reshapes with
  | store => rfl
  | plant => exact Function.update_of_ne (fun same => other (congrArg some same.symm)) _ _
  | insert => exact Function.update_of_ne (fun same => other (congrArg some same.symm)) _ _
  | splay => exact Function.update_of_ne (fun same => other (congrArg some same.symm)) _ _
  | delete => exact Function.update_of_ne (fun same => other (congrArg some same.symm)) _ _
  | deleteNoSplay => exact Function.update_of_ne (fun same => other (congrArg some same.symm)) _ _

/-- The tree of an owner has at most one node more. -/
theorem Reshapes.numNodes_le (reshapes : Reshapes trees request trees') (owner : Owner) :
    (trees' owner).numNodes ≤ (trees owner).numNodes + 1 := by
  by_cases own : request.owner = some owner
  · cases reshapes with
    | store => cases own
    | plant _ node empty =>
      cases own
      rw [Function.update_self]
      exact Nat.le_add_left 1 _
    | insert _ parent side node context far shape =>
      cases own
      have before := (perm_plug (⟨side, parent, far⟩ :: context) .nil).length_eq
      have after := (perm_plug (⟨side, parent, far⟩ :: context) (.node node .nil .nil)).length_eq
      rw [List.length_append, length_inorder, length_inorder] at before after
      rw [Function.update_self, shape, after, before]
      change 1 + _ ≤ 0 + _ + 1
      omega
    | splay _ node context left right shape =>
      cases own
      rw [Function.update_self, ← length_inorder, inorder_splay, ← shape, length_inorder]
      exact Nat.le_succ _
    | delete _ node context left right shape =>
      cases own
      have fewer := numNodes_removed context node left right
      rw [Function.update_self, ← length_inorder, inorder_splayAbove, length_inorder, shape]
      omega
    | deleteNoSplay _ node context left right shape =>
      cases own
      have fewer := numNodes_removed context node left right
      rw [Function.update_self, shape]
      omega
  · rw [reshapes.elsewhere own]
    exact Nat.le_succ _

/-- A request pays for its turns with the potential of its tree, up to what is logarithmic in a
bound on its nodes. -/
theorem Reshapes.turnsOf_le (reshapes : Reshapes trees request trees')
    (forest : Forest state trees) {after : State Owner}
    (ran : perform turns state request = .ok after) {owner : Owner}
    (own : request.owner = some owner) {bound : Nat} (small : (trees owner).numNodes ≤ bound)
    (small' : (trees' owner).numNodes ≤ bound) :
    2 * (request.turnsOf turns state.links : ℝ) + 3 * potential (trees' owner) ≤
      3 * potential (trees owner) + 9 * Real.logb 2 (bound + 1 : ℕ) + 8 := by
  have ranks : ∀ tree : BinaryTree Address, tree.numNodes ≤ bound →
      rank tree ≤ Real.logb 2 (bound + 1 : ℕ) := fun tree le =>
    log_mono _ _ (Nat.succ_pos _) (Nat.succ_le_succ le)
  have positive : 0 ≤ Real.logb 2 (bound + 1 : ℕ) :=
    (rank_nonneg (trees owner)).trans (ranks _ small)
  cases reshapes with
  | store => cases own
  | plant _ node empty =>
    cases own
    rw [Function.update_self] at small' ⊢
    have free : ((Request.plant owner node).turnsOf turns state.links : ℝ) = 0 := Nat.cast_zero
    have leaf := potential_leaf [] node
    rw [plug_nil, plug_nil, show potential (.nil : BinaryTree Address) = 0 from rfl] at leaf
    have paid := ranks _ small'
    have start := potential_nonneg (trees owner)
    linarith
  | insert _ parent side node context far shape =>
    cases own
    rw [Function.update_self] at small' ⊢
    have free : ((Request.insert owner parent side node).turnsOf turns state.links : ℝ) = 0 :=
      Nat.cast_zero
    have leaf := potential_leaf (⟨side, parent, far⟩ :: context) node
    have paid := ranks _ small'
    rw [shape]
    linarith
  | splay _ node context left right shape =>
    cases own
    have held := holds_iff_held.mp (shape ▸ forest.holds owner)
    obtain ⟨⟨_, links'⟩, returned, _⟩ := bind_eq_ok.mp ran
    obtain ⟨_, counted⟩ := splayLoop_eq (turns + splayTurns context.length) held rfl
      (Nat.le_add_left _ _)
    have same : (Request.splay owner node).turnsOf turns state.links = splayTurns context.length :=
      (turnsOfSplay_of_ok returned (Nat.le_add_right _ _)).symm.trans counted
    have few : 2 * splayTurns context.length ≤ context.length + 3 := by
      unfold splayTurns
      omega
    have cost : 2 * (splayTurns context.length : ℝ) ≤ context.length + 3 := by exact_mod_cast few
    have splayed := @potential_splay _ context (.node node left right)
      (fun empty => by cases empty)
    have paid := ranks _ (shape ▸ small)
    have low := rank_nonneg (.node node left right)
    have deep : (0 : ℝ) ≤ context.length := Nat.cast_nonneg _
    rw [Function.update_self, same, shape]
    linarith
  | delete _ node context left right shape =>
    cases own
    have held := holds_iff_held.mp (shape ▸ forest.holds owner)
    obtain ⟨⟨_, links'⟩, returned, _⟩ := bind_eq_ok.mp ran
    have same : (Request.delete owner node).turnsOf turns state.links =
        turnsOfDelete (turns + (plug context (.node node left right)).numNodes) state.links
          (some node) := (turnsOfDelete_of_ok returned (Nat.le_add_right _ _)).symm
    have few := turnsOfDelete_held held (Nat.le_add_left _ turns)
    rw [← same] at few
    have cost : 2 * ((Request.delete owner node).turnsOf turns state.links : ℝ) ≤
        3 * ((removed context left right).1.length - 1 : ℕ) + 5 := by exact_mod_cast few
    have splayed := potential_splayAbove context node left right
    have paid := ranks _ (shape ▸ small)
    rw [Function.update_self, shape]
    linarith
  | deleteNoSplay _ node context left right shape =>
    cases own
    have free : ((Request.deleteNoSplay owner node).turnsOf turns state.links : ℝ) = 0 :=
      Nat.cast_zero
    have less := potential_removed context node left right
    rw [Function.update_self, shape]
    linarith

/-! ### What a run costs -/

/-- One step of a run that counts: a request with the turns of its loops. -/
def CountedStep (before : State Owner × Orders Owner) (label : Request Owner × Nat)
    (after : State Owner × Orders Owner) : Prop :=
  (∃ turns, perform turns before.1 label.1 = .ok after.1 ∧
    label.2 = label.1.turnsOf turns before.1.links) ∧ after.2 = label.1.reordered before.2

/-- The runs on which the owners keep the rules, with the turns that each request has taken. -/
abbrev CountedRun (links : Links) :
    List (Request Owner × Nat) → State Owner × Orders Owner → Prop :=
  Run (Restrict CountedStep fun before label => label.1.Keeps before.1.links before.2)
    (⟨links, fun _ => none⟩, fun _ => [])

/-- A request that returns continues a run. -/
theorem CountedRun.next {links : Links} {labels : List (Request Owner × Nat)}
    {orders : Orders Owner} (run : CountedRun links labels (state, orders))
    {request : Request Owner} (keeps : request.Keeps state.links orders) {after : State Owner}
    (ran : perform turns state request = .ok after) :
    CountedRun links ((request, request.turnsOf turns state.links) :: labels)
      (after, request.reordered orders) :=
  run.cons ⟨keeps, ⟨turns, ran, rfl⟩, rfl⟩

/-- The turns of the requests on the tree of an owner, one after the other. -/
def turnsOn (owner : Owner) (labels : List (Request Owner × Nat)) : List Nat :=
  (labels.filter fun label => label.1.owner = some owner).map Prod.snd

/-- What one request more may cost, where what the requests may cost grows with their number. -/
theorem costs_succ (requests : Nat) :
    (requests : ℝ) * (9 * Real.logb 2 (requests + 1 : ℕ) + 8) +
        (9 * Real.logb 2 (requests + 1 + 1 : ℕ) + 8) ≤
      (requests + 1 : ℕ) * (9 * Real.logb 2 (requests + 1 + 1 : ℕ) + 8) := by
  have grown := log_mono _ _ (Nat.succ_pos requests) (Nat.le_succ (requests + 1))
  have positive : (0 : ℝ) ≤ requests := Nat.cast_nonneg _
  have product := mul_le_mul_of_nonneg_left grown positive
  change (requests : ℝ) * Real.logb 2 (requests + 1 : ℕ) ≤
    requests * Real.logb 2 (requests + 1 + 1 : ℕ) at product
  generalize Real.logb 2 (requests + 1 : ℕ) = before at product ⊢
  generalize Real.logb 2 (requests + 1 + 1 : ℕ) = after at product ⊢
  rw [Nat.cast_succ]
  linarith

/-- Every tree has paid for the requests on it, up to what they may cost. -/
theorem CountedRun.paid {links : Links} {labels : List (Request Owner × Nat)}
    {reached : State Owner × Orders Owner} (run : CountedRun links labels reached) :
    ∃ trees, Forest reached.1 trees ∧ reached.2 = ordersOf trees ∧ ∀ owner,
      (trees owner).numNodes ≤ (turnsOn owner labels).length ∧
      2 * ((turnsOn owner labels).sum : ℝ) + 3 * potential (trees owner) ≤
        (turnsOn owner labels).length *
          (9 * Real.logb 2 ((turnsOn owner labels).length + 1 : ℕ) + 8) := by
  induction run with
  | nil =>
    refine ⟨_, empty_forest links, rfl, fun owner => ⟨le_refl 0, ?_⟩⟩
    change 2 * ((0 : ℕ) : ℝ) + 3 * (0 : ℝ) ≤ ((0 : ℕ) : ℝ) * _
    rw [Nat.cast_zero, zero_mul, mul_zero, mul_zero, add_zero]
  | cons _ next inductionHypothesis =>
    rename_i labels before after label _
    obtain ⟨trees, forest, orders, known⟩ := inductionHypothesis
    obtain ⟨keeps, ⟨turns, ran, counted⟩, reordered⟩ := next
    rw [orders] at keeps reordered
    obtain ⟨trees', forest', reshapes⟩ := reshapes_of_perform forest keeps ran
    refine ⟨trees', forest', reordered.trans (reshapes.reordered forest.nodup).symm,
      fun owner => ?_⟩
    obtain ⟨small, paid⟩ := known owner
    by_cases own : label.1.owner = some owner
    · have more : turnsOn owner (label :: labels) = label.2 :: turnsOn owner labels := by
        unfold turnsOn
        rw [List.filter_cons, if_pos (decide_eq_true own), List.map_cons]
      have grown := reshapes.numNodes_le owner
      have size : (trees' owner).numNodes ≤ (turnsOn owner labels).length + 1 := by omega
      have cost := reshapes.turnsOf_le forest ran own (small.trans (Nat.le_succ _)) size
      have allowed := costs_succ (turnsOn owner labels).length
      rw [more, List.length_cons, List.sum_cons, Nat.cast_add, counted]
      exact ⟨size, by linarith⟩
    · have same : turnsOn owner (label :: labels) = turnsOn owner labels := by
        unfold turnsOn
        rw [List.filter_cons, if_neg (by simpa using own)]
      rw [same, reshapes.elsewhere own]
      exact ⟨small, paid⟩

/-- The amortized time bound: on a tree that starts empty, the loops in any number of requests
take a logarithmic number of turns for each of them. -/
theorem countedRun_amortized {links : Links} {labels : List (Request Owner × Nat)}
    {reached : State Owner × Orders Owner} (run : CountedRun links labels reached) (owner : Owner) :
    ((turnsOn owner labels).sum : ℝ) ≤
      (turnsOn owner labels).length *
        (9 / 2 * Real.logb 2 ((turnsOn owner labels).length + 1 : ℕ) + 4) := by
  obtain ⟨trees, _, _, known⟩ := run.paid
  obtain ⟨_, paid⟩ := known owner
  have left := potential_nonneg (trees owner)
  linarith

end Costs

/-- The requests of the example run, with their turns. -/
def exampleLabels : List (Request Bool × Nat) :=
  [(.splay true 200, 2), (.insert true 100 .left 200, 0), (.store 200 (alone 200), 0),
    (.plant true 100, 0), (.store 100 (alone 100), 0)]

theorem exists_exampleCounted :
    ∃ reached, CountedRun (fun _ => none) exampleLabels reached := by
  have start : CountedRun (fun _ => none) [] ((⟨fun _ => none, fun _ => none⟩ : State Bool), _) :=
    .nil
  have first := @CountedRun.next _ _ _ 3 _ _ _ start (.store 100 (alone 100))
    (fun _ => List.not_mem_nil) _ rfl
  have planted := @CountedRun.next _ _ _ 3 _ _ _ first (.plant true 100)
    ⟨rfl, fun _ => List.not_mem_nil, rfl⟩ _ rfl
  have fresh : ∀ owner, 200 ∉ (Request.plant true 100).reordered (fun _ : Bool => []) owner := by
    decide
  have second := @CountedRun.next _ _ _ 3 _ _ _ planted (.store 200 (alone 200)) fresh _ rfl
  have inserted := @CountedRun.next _ _ _ 3 _ _ _ second (.insert true 100 .left 200)
    ⟨List.mem_singleton_self 100, fresh, ⟨_, rfl, rfl⟩, _, rfl, rfl, rfl⟩ _ rfl
  exact ⟨_, @CountedRun.next _ _ _ 3 _ _ _ inserted (.splay true 200) List.mem_cons_self _ rfl⟩

theorem countedRun_amortized_example :
    ∃ reached, CountedRun (fun _ => none) exampleLabels reached ∧
      ((turnsOn true exampleLabels).sum : ℝ) ≤
        (3 : ℕ) * (9 / 2 * Real.logb 2 (3 + 1 : ℕ) + 4) := by
  obtain ⟨reached, run⟩ := exists_exampleCounted
  exact ⟨reached, run, countedRun_amortized run true⟩

end Nloader.SplayLinks
