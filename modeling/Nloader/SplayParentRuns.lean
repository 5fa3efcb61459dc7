/-
This file is about the parent pointers of a generic table over whole runs. A lookup and a
deletion leave them right, because `splay` does and because a deletion adopts what it joins.

An insertion does not always: it keeps the `Parent` that the memory of the new block happens
to hold when the tree is empty, and it never repairs that of the child which the new root
takes over from the old one. A run reaches tables with right parent pointers only, exactly
where none of its insertions comes to either.
-/

import Nloader.SplayParents
import Nloader.SplayRuns

namespace Nloader.Splay

open Outcome TreePath PointerTree ParentTree

variable {Item Key : Type} [LinearOrder Key]

/-! ### The tree without its root -/

/-- The two subtrees of a tree that hangs, told apart from its root and from each other. -/
theorem Hangs.subtrees (side : Side) {links : Links} {above : Option Place}
    {near far : BinaryTree (Element Item)} {element : Element Item}
    (hangs : Hangs links above (join side near element far)) :
    (Hangs links (some element.place) near ∧ Hangs links (some element.place) far) ∧
      (∀ other ∈ inorder near, other.place ≠ element.place) ∧
      (∀ other ∈ inorder far, other.place ≠ element.place) ∧
      ∀ inNear ∈ inorder near, ∀ inFar ∈ inorder far, inNear.place ≠ inFar.place := by
  obtain ⟨represents, parented, distinct⟩ := hangs
  rw [represents_join] at represents
  rw [parented_join] at parented
  have apart : Distinct Element.place .next (walk side (join side near element far)) := by
    cases side with
    | left => exact distinct
    | right => exact distinct_reverse.mpr distinct
  rw [walk_join, distinct_append, distinct_cons] at apart
  have within : ∀ {tree : BinaryTree (Element Item)},
      Distinct Element.place .next (walk side tree) →
        Distinct Element.place .next (inorder tree) := by
    intro tree distinct
    cases side with
    | left => exact distinct
    | right => exact distinct_reverse.mp distinct
  simp only [List.mem_cons, mem_walk] at apart
  obtain ⟨⟨distinctNear, ⟨_, distinctFar⟩, elementFar⟩, across⟩ := apart
  exact ⟨⟨⟨represents.2.1, parented.2.1, within distinctNear⟩,
    ⟨represents.2.2, parented.2.2, within distinctFar⟩⟩,
    fun other member => across other member element (.inl rfl),
    fun other member => (elementFar other member).symm,
    fun inNear member inFar within => across inNear member inFar (.inr within)⟩

/-- A tree whose root gets another tree on its right, together with its parent pointer. -/
theorem Hangs.joined {links links' : Links} {above above' : Option Place}
    {left right right' : BinaryTree (Element Item)} {element : Element Item}
    (hangs : Hangs links above (.node element left right')) (beyond : Hangs links above' right)
    (across : ∀ inTree ∈ inorder (.node element left right'), ∀ other ∈ inorder right,
      inTree.place ≠ other.place)
    (children : childrenOf links' =
      put (childrenOf links) element.place .right (pointer Element.place right))
    (parents : parentsOf links' =
      withParent (parentsOf links) (pointer Element.place right) (some element.place)) :
    Hangs links' above (.node element left right) := by
  obtain ⟨⟨hangsLeft, _⟩, leftAway, _⟩ := Hangs.subtrees .left hangs
  have elementIn : element ∈ inorder (.node element left right') :=
    List.mem_append_right _ List.mem_cons_self
  have leftIn : ∀ {other}, other ∈ inorder left → other ∈ inorder (.node element left right') :=
    List.mem_append_left _
  refine ⟨?_, ?_, ?_⟩
  · rw [children]
    exact represents_hang_right hangs.represents beyond.represents leftAway
      fun other member => (across element elementIn other member).symm
  · rw [parents]
    refine ⟨?_, hangsLeft.parented.apart _ fun other member => across other (leftIn member),
      beyond.parented.moved beyond.distinct _⟩
    rw [withParent_elsewhere (pointer_ne fun other member =>
      (across element elementIn other member).symm)]
    exact hangs.parented.1
  · rw [inorder, distinct_append, distinct_cons]
    refine ⟨⟨hangsLeft.distinct, ⟨element.place_ne_next, beyond.distinct⟩,
      across element elementIn⟩, fun other member later within => ?_⟩
    rcases List.mem_cons.mp within with rfl | inRight
    · exact leftAway other member
    · exact across other (leftIn member) later inRight

/-- The root is taken out, and the tree that is left hangs below NULL. -/
theorem deleteRoot_parents {compareRoutine : Item → Item → GenericCompareResults} {turns : Nat}
    {table removed : GenericTable Item} {left right : BinaryTree (Element Item)}
    {element : Element Item} (hangs : Hangs table.links none (.node element left right))
    (root : table.tableRoot = some element.place)
    (ran : deleteRoot compareRoutine turns table = .ok removed) :
    ∃ tree', removed.tableRoot = pointer Element.place tree' ∧ Hangs removed.links none tree' ∧
      ∀ other ∈ inorder tree', other ∈ inorder left ∨ other ∈ inorder right := by
  obtain ⟨⟨hangsLeft, hangsRight⟩, leftAway, rightAway, across⟩ := Hangs.subtrees .left hangs
  obtain ⟨⟨heldLeft, heldRight⟩, _⟩ := hangs.represents
  unfold deleteRoot at ran
  simp only [root, child_eq heldLeft, ok_bind] at ran
  by_cases empty : left = .nil
  · subst empty
    rw [pointer, if_pos rfl, child_eq heldRight, ok_bind] at ran
    obtain ⟨links', released, ran⟩ := bind_eq_ok.mp ran
    cases ran
    refine ⟨right, rfl, ⟨?_, ?_, hangsRight.distinct⟩, fun _ => .inr⟩
    · exact (setParent_children released) ▸ hangsRight.represents
    · rw [(setParent_parents released).2]
      exact hangsRight.parented.moved hangsRight.distinct none
  · have someLeft : pointer Element.place left ≠ none := fun none => empty (pointer_eq_none.mp none)
    rw [if_neg someLeft] at ran
    obtain ⟨delData, _, ran⟩ := bind_eq_ok.mp ran
    obtain ⟨⟨duplicate, splayed⟩, splayRan, ran⟩ := bind_eq_ok.mp ran
    obtain ⟨left', next, right', done⟩ :=
      @splay_parents _ _ _ { table with tableRoot := pointer Element.place left } _ _ _ _ _ empty
        rfl hangsLeft splayRan
    have splayedRoot : splayed.tableRoot = some next.place := by rw [done.kept]; rfl
    have beyond : Hangs splayed.links (some element.place) right := by
      have away : ∀ other ∈ inorder right, ∀ inLeft ∈ inorder left, inLeft.place ≠ other.place :=
        fun other member inLeft within => across inLeft within other member
      refine ⟨hangsRight.represents.congr fun other member => ?_,
        hangsRight.parented.congr fun other member => ?_, hangsRight.distinct⟩
      · exact done.untouched _ other.place_ne_next (away other member)
      · exact done.spared _ other.place_ne_next (away other member)
    have heldRight' : childrenOf splayed.links element.place .right =
        some (pointer Element.place right) := by
      rw [done.untouched _ element.place_ne_next leftAway]
      exact heldRight
    have nextLeft : next ∈ inorder left := by
      rw [← done.same]
      exact List.mem_append_right _ List.mem_cons_self
    cases duplicate with
    | true => cases ran
    | false =>
      simp only [Bool.false_eq_true, if_false, splayedRoot, child_eq heldRight', ok_bind] at ran
      obtain ⟨links₁, hung, ran⟩ := bind_eq_ok.mp ran
      have children := setChild_children hung
      have heldRight₁ : childrenOf links₁ element.place .right =
          some (pointer Element.place right) := by
        rw [children, put_elsewhere (leftAway next nextLeft).symm]
        exact heldRight'
      rw [child_eq heldRight₁, ok_bind] at ran
      obtain ⟨links₂, adopted, ran⟩ := bind_eq_ok.mp ran
      cases ran
      refine ⟨.node next left' right, rfl, done.hangs.joined beyond ?_
        ((setParent_children adopted).trans children) ?_, fun other member => ?_⟩
      · rw [done.same]
        exact across
      · rw [(setParent_parents adopted).2, setChild_parents hung]
      · rw [← done.same]
        simp only [inorder, List.mem_append, List.mem_cons] at member ⊢
        tauto

/-! ### Lookups and deletions -/

section Calls

variable {key : Item → Key} {compareRoutine : Item → Item → GenericCompareResults}
  {table table' : GenericTable Item} {elements : List (Element Item)} {turns : Nat}

/-- The tree of a table hangs below NULL where the parent pointers hold. -/
theorem TableHolds.hangs (holds : TableHolds key table elements) (parents : ParentsHold table) :
    ∃ tree, TreeHolds key table tree ∧ (inorder tree).Perm elements ∧
      Hangs table.links none tree := by
  obtain ⟨tree, treeHolds, perm⟩ := holds.tree
  exact ⟨tree, treeHolds, perm, treeHolds.represents,
    (parentsHold_iff treeHolds.root treeHolds.represents).mp parents,
    (holds.ordered treeHolds perm).distinct⟩

omit [LinearOrder Key] in
theorem Hangs.parentsHold {tree : BinaryTree (Element Item)} (hangs : Hangs table.links none tree)
    (root : table.tableRoot = pointer Element.place tree) : ParentsHold table :=
  (parentsHold_iff root hangs.represents).mpr hangs.parented

/-- `splay` on a table, seen from the tree that it leaves. -/
theorem splay_hangs (holds : TableHolds key table elements) (parents : ParentsHold table)
    {item : Item} {ret : Bool} (ran : splay compareRoutine turns table item = .ok (ret, table')) :
    ∃ tree : BinaryTree (Element Item),
      table'.tableRoot = pointer Element.place tree ∧ Hangs table'.links none tree := by
  obtain ⟨tree, treeHolds, _, hangs⟩ := holds.hangs parents
  have root := treeHolds.root
  by_cases empty : tree = .nil
  · subst empty
    rw [splay_empty root] at ran
    cases ran
    exact ⟨.nil, root, hangs⟩
  · obtain ⟨left, element, right, done⟩ := splay_parents empty root hangs ran
    exact ⟨.node element left right, by rw [done.kept], done.hangs⟩

theorem lookup_parents (holds : TableHolds key table elements) (parents : ParentsHold table)
    {buffer : Item} {result : Option Address}
    (ran : rtlLookupElementGenericTable compareRoutine turns table buffer = .ok (result, table')) :
    ParentsHold table' := by
  obtain ⟨⟨found, splayed⟩, splayRan, ran⟩ := bind_eq_ok.mp ran
  obtain ⟨tree, root, hangs⟩ := splay_hangs holds parents splayRan
  have kept : table' = splayed := by
    cases found <;> cases ran <;> rfl
  rw [kept]
  exact hangs.parentsHold root

/-- A deletion that returns keeps the parent pointers. -/
theorem delete_parents (holds : TableHolds key table elements) (parents : ParentsHold table)
    {buffer : Item} {result : Bool}
    (ran : rtlDeleteElementGenericTable compareRoutine turns table buffer = .ok (result, table')) :
    ParentsHold table' := by
  obtain ⟨⟨found, splayed⟩, splayRan, ran⟩ := bind_eq_ok.mp ran
  obtain ⟨tree, root, hangs⟩ := splay_hangs holds parents splayRan
  cases found with
  | false =>
    cases ran
    exact hangs.parentsHold root
  | true =>
    simp only [Bool.true_eq_false, if_false] at ran
    obtain ⟨removed, removeRan, ran⟩ := bind_eq_ok.mp ran
    obtain ⟨entries, _, ran⟩ := bind_eq_ok.mp ran
    cases tree with
    | nil =>
      obtain ⟨near, readNear, _⟩ := bind_eq_ok.mp removeRan
      obtain ⟨place, some, _⟩ := child_ok readNear
      rw [root] at some
      cases some
    | node element left right =>
      obtain ⟨_, leftAway, rightAway, _⟩ := Hangs.subtrees .left hangs
      obtain ⟨tree', root', hangs', within⟩ := deleteRoot_parents hangs root removeRan
      have away : ∀ other ∈ inorder tree', other.place ≠ element.place := fun other member =>
        (within other member).elim (leftAway other) (rightAway other)
      have rootIs : splayed.tableRoot = some (.item element.address) := root
      cases ran
      rw [rootIs]
      refine Hangs.parentsHold ⟨hangs'.represents.congr fun other member => ?_,
        hangs'.parented.congr fun other member => ?_, hangs'.distinct⟩ root'
      · exact childrenOf_remove _ _ (away other member)
      · exact parentsOf_update _ _ _ (away other member)

/-! ### Insertions -/

omit [LinearOrder Key] in
/-- The new element over the old root: the new root and the old one get their parents, and
nothing else does. -/
theorem insertAbove_parents {links links' : Links} {side : Side} {treeItem rootItem : Option Place}
    (ran : insertAbove side links treeItem rootItem = .ok links') :
    parentsOf links' =
      withParent (withParent (parentsOf links) treeItem none) rootItem treeItem := by
  obtain ⟨near, _, ran⟩ := bind_eq_ok.mp ran
  obtain ⟨links₁, first, ran⟩ := bind_eq_ok.mp ran
  obtain ⟨links₂, second, ran⟩ := bind_eq_ok.mp ran
  obtain ⟨links₃, third, ran⟩ := bind_eq_ok.mp ran
  obtain ⟨links₄, fourth, ran⟩ := bind_eq_ok.mp ran
  rw [(setParent_parents ran).2, (setParent_parents fourth).2, setChild_parents third,
    setChild_parents second, setChild_parents first]

omit [LinearOrder Key] in
/-- The child that changes from the old root to the new one keeps the old root as its parent:
the parent pointers are right only where there is none. -/
theorem insertAbove_parented_iff {links links' : Links} {side : Side}
    {near far : BinaryTree (Element Item)} {root new : Element Item}
    (hangs : Hangs links none (join side near root far))
    (apart : ∀ other ∈ inorder (join side near root far), other.place ≠ new.place)
    (ran : insertAbove side links (some new.place) (some root.place) = .ok links') :
    Parented Element.place (parentsOf links') none (join side near new (join side .nil root far)) ↔
      near = .nil := by
  obtain ⟨⟨nears, fars⟩, nearAway, farAway, _⟩ := Hangs.subtrees side hangs
  have rootApart : root.place ≠ new.place := apart root (by simp)
  have written := insertAbove_parents ran
  have elsewhere : ∀ {place : Place}, place ≠ root.place → place ≠ new.place →
      parentsOf links' place = parentsOf links place := by
    intro place notRoot notNew
    rw [written, withParent_elsewhere fun same => notRoot (Option.some.inj same).symm,
      withParent_elsewhere fun same => notNew (Option.some.inj same).symm]
  constructor
  · intro parented
    by_contra nonempty
    obtain ⟨outer, below, inner, rfl⟩ := exists_join side nonempty
    rw [parented_join, parented_join] at parented
    have old := ((parented_join side outer inner below).mp nears.parented).1
    have same := parented.2.1.1
    rw [elsewhere (nearAway below (by simp)) (apart below (by simp)), old] at same
    exact rootApart (Option.some.inj (Option.some.inj same))
  · rintro rfl
    rw [parented_join, parented_join]
    refine ⟨?_, trivial, ?_, trivial, fars.parented.congr fun other member =>
      elsewhere (farAway other member) (apart other (by simp [member]))⟩
    · rw [written, withParent_elsewhere fun same => rootApart (Option.some.inj same),
        withParent_same]
    · rw [written, withParent_same]

omit [LinearOrder Key] in
theorem insertLinks_cases {data : Address → Option Item} {links links' : Links} {root : Place}
    {treeItem : Option Place}
    (ran : insertLinks compareRoutine data links treeItem (some root) = .ok links') :
    ∃ itemData rootData side, itemdata data treeItem = .ok itemData ∧
      itemdata data (some root) = .ok rootData ∧
      compareRoutine itemData rootData = towards side ∧
      insertAbove side links treeItem (some root) = .ok links' := by
  unfold insertLinks at ran
  rw [if_neg nofun] at ran
  obtain ⟨itemData, readItem, ran⟩ := bind_eq_ok.mp ran
  obtain ⟨rootData, readRoot, ran⟩ := bind_eq_ok.mp ran
  split at ran
  · rename_i less
    exact ⟨itemData, rootData, .left, readItem, readRoot, less, ran⟩
  · rename_i greater
    exact ⟨itemData, rootData, .right, readItem, readRoot, greater, ran⟩
  · cases ran

/-- A granted block: the parent pointers of the new table hold exactly where the block comes
with a NULL parent, when it is the first one, and where its key lies beyond all others. -/
theorem insertBlock_parents_iff (orders : Orders key compareRoutine)
    {tree : BinaryTree (Element Item)} (root : table.tableRoot = pointer Element.place tree)
    (hangs : Hangs table.links none tree)
    (stored : ∀ element ∈ inorder tree, table.data element.address = some element.item)
    {buffer : Item} {block : Block} (free : table.data block.address = none)
    (between : Between key { address := block.address, item := buffer } tree)
    {result : InsertResult}
    (ran : insertBlock compareRoutine table buffer block = .ok (result, table')) :
    ParentsHold table' ↔ (table.tableRoot = none → block.links.parent = none) ∧
      ∃ side, ∀ other ∈ inorder tree, LiesOn (elementKey key) (key buffer) side other := by
  obtain ⟨links', linksRan, ran⟩ := bind_eq_ok.mp ran
  obtain ⟨entries', _, ran⟩ := bind_eq_ok.mp ran
  cases ran
  generalize newIs : ({ address := block.address, item := buffer } : Element Item) = new at *
  have newPlace : new.place = .item block.address := by rw [← newIs]; rfl
  have apart : ∀ other ∈ inorder tree, other.place ≠ new.place := by
    intro other member same
    have address : other.address = block.address := by
      rw [newPlace] at same
      exact Place.item.inj same
    have held := stored other member
    rw [address, free] at held
    cases held
  rw [← newPlace] at linksRan
  generalize linksIs : Function.update table.links new.place (some block.links) = links at linksRan
  have kept : Hangs links none tree := by
    rw [← linksIs]
    exact ⟨hangs.represents.congr fun other member => childrenOf_update _ _ _ (apart other member),
      hangs.parented.congr fun other member => parentsOf_update _ _ _ (apart other member),
      hangs.distinct⟩
  have mapped : Mapped (childrenOf links) (some new.place) := by
    rw [← linksIs]
    exact mapped_update _ _ _
  cases tree with
  | nil =>
    rw [root, pointer, insertLinks, if_pos rfl] at linksRan
    obtain ⟨links₁, first, second⟩ := bind_eq_ok.mp linksRan
    have represents : Represents Element.place (childrenOf links') (.node new .nil .nil) := by
      rw [setChild_children second, setChild_children first]
      refine ⟨⟨put_same _ _ _ _, ?_⟩, trivial, trivial⟩
      exact (put_other_side Side.left.other_ne).trans (put_same _ _ _ _)
    have own : parentsOf links' new.place = some block.links.parent := by
      rw [setChild_parents second, setChild_parents first, ← linksIs, parentsOf,
        Function.update_self]
      rfl
    have rootIs : some (.item block.address) = pointer Element.place (.node new .nil .nil) := by
      rw [pointer, newPlace]
    rw [parentsHold_iff rootIs represents]
    constructor
    · rintro ⟨parent, _⟩
      exact ⟨fun _ => Option.some.inj (own.symm.trans parent), .left, by simp [inorder]⟩
    · rintro ⟨parent, _⟩
      exact ⟨own.trans (by rw [parent root]), trivial, trivial⟩
  | node element left right =>
    rw [root] at linksRan
    obtain ⟨itemData, rootData, side, readItem, readRoot, compared, above⟩ :=
      insertLinks_cases linksRan
    have elementApart : element.address ≠ block.address := by
      have away := apart element (by simp [inorder])
      rw [newPlace] at away
      exact fun same => away (congrArg Place.item same)
    have newItem : itemData = buffer := by
      have held : itemdata (Function.update table.data block.address (some buffer))
          (some new.place) = .ok buffer := by
        rw [newPlace]
        exact deref_eq (Function.update_self _ _ _)
      exact Except.ok.inj (readItem.symm.trans held)
    have rootItem : rootData = element.item := by
      have held : itemdata (Function.update table.data block.address (some buffer))
          (some element.place) = .ok element.item := by
        refine deref_eq ?_
        rw [Function.update_of_ne elementApart]
        exact stored element (by simp [inorder])
      exact Except.ok.inj (readRoot.symm.trans held)
    rw [newItem, rootItem, orders.towards_iff] at compared
    obtain ⟨near, far, seen, nears, fars⟩ : ∃ near far,
        BinaryTree.node element left right = join side near element far ∧
        (∀ other ∈ inorder near, LiesOn (elementKey key) (key buffer) side other) ∧
        ∀ other ∈ inorder far, LiesOn (elementKey key) (key buffer) side.other other := by
      rw [← newIs] at between
      obtain ⟨below, beyond, _⟩ := between
      cases side with
      | left => exact ⟨left, right, rfl, below, beyond⟩
      | right => exact ⟨right, left, rfl, beyond, below⟩
    rw [seen] at kept apart
    have away := (Hangs.subtrees side kept).2
    obtain ⟨_, ran', represents⟩ := insertAbove_eq kept.represents mapped apart
      fun other member => member.elim (away.1 other) (away.2.1 other)
    cases above.symm.trans ran'
    have parented := insertAbove_parented_iff kept apart above
    rw [seen, oneSide_iff compared nears fars, ← parented,
      parentsHold_iff (by rw [pointer_join, newPlace]) represents, root]
    exact (and_iff_right (by simp [pointer])).symm

/-- What `AllocateRoutine` answers to an insertion, which calls it with the splayed table. -/
def answer (compareRoutine : Item → Item → GenericCompareResults) (turns : Nat)
    (allocateRoutine : AllocateRoutine Item) (table : GenericTable Item) (buffer : Item)
    (bufferSize : Nat) : Option Block :=
  match splay compareRoutine turns table buffer with
  | .ok (_, splayed) =>
    allocateRoutine.allocate splayed ((bufferSize + sizeofItemHeader) % 2 ^ 32)
  | .error _ => none

/-- A call that keeps the parent pointers: any but an insertion, and an insertion that finds
its key or gets no memory, or whose block comes with a NULL parent where it is the first one,
and whose key lies beyond those of all other elements. -/
def KeepsParents (key : Item → Key) (compareRoutine : Item → Item → GenericCompareResults)
    (turns : Nat) (table : GenericTable Item) : Call Item → Prop
  | .insert allocateRoutine buffer bufferSize =>
    (∃ address item, table.data address = some item ∧ key item = key buffer) ∨
      ∀ block, answer compareRoutine turns allocateRoutine table buffer bufferSize = some block →
        (table.tableRoot = none → block.links.parent = none) ∧
          ∃ side, ∀ address item, table.data address = some item →
            LiesOn key (key buffer) side item
  | _ => True

/-- The elements of a table lie on one side of a key where its items do. -/
theorem TableHolds.oneSide_iff (holds : TableHolds key table elements)
    {tree : BinaryTree (Element Item)} (perm : (inorder tree).Perm elements) (target : Key)
    (side : Side) :
    (∀ address item, table.data address = some item → LiesOn key target side item) ↔
      ∀ other ∈ inorder tree, LiesOn (elementKey key) target side other := by
  constructor
  · intro all other member
    have lies := all _ _ ((holds.blocks other.address other.item).mpr (perm.mem_iff.mp member))
    cases side <;> exact lies
  · intro all address item held
    have lies := all _ (perm.mem_iff.mpr ((holds.blocks address item).mp held))
    cases side <;> exact lies

/-- An insertion that `splay` has not found the key for. -/
theorem insert_missing_parents_iff (orders : Orders key compareRoutine)
    {splayed : GenericTable Item} {buffer : Item} {bufferSize : Nat}
    {allocateRoutine : AllocateRoutine Item} {result : InsertResult}
    (splayRan : splay compareRoutine turns table buffer = .ok (false, splayed))
    (sameData : splayed.data = table.data)
    (sameEmpty : splayed.tableRoot = none ↔ table.tableRoot = none)
    (holds : TableHolds key splayed elements) (parents : ParentsHold splayed)
    {tree : BinaryTree (Element Item)} (treeHolds : TreeHolds key splayed tree)
    (perm : (inorder tree).Perm elements)
    (between : ∀ address, Between key { address, item := buffer } tree)
    (absent : ∀ element ∈ elements, key element.item ≠ key buffer)
    (ran : rtlInsertElementGenericTable compareRoutine turns allocateRoutine table buffer
      bufferSize = .ok (result, table')) :
    ParentsHold table' ↔ KeepsParents key compareRoutine turns table
      (.insert allocateRoutine buffer bufferSize) := by
  have missing : ¬ ∃ address item, table.data address = some item ∧ key item = key buffer := by
    rintro ⟨address, item, held, same⟩
    rw [← sameData] at held
    exact absent _ ((holds.blocks _ _).mp held) same
  have answered : answer compareRoutine turns allocateRoutine table buffer bufferSize =
      allocateRoutine.allocate splayed ((bufferSize + sizeofItemHeader) % 2 ^ 32) := by
    rw [answer, splayRan]
  rw [KeepsParents, or_iff_right missing, answered]
  unfold rtlInsertElementGenericTable at ran
  simp only [splayRan, ok_bind, Bool.false_eq_true, if_false] at ran
  cases granted : allocateRoutine.allocate splayed ((bufferSize + sizeofItemHeader) % 2 ^ 32) with
  | none =>
    rw [granted] at ran
    cases ran
    exact iff_of_true parents nofun
  | some block =>
    rw [granted] at ran
    obtain ⟨_, _, free⟩ := allocateRoutine.fresh _ _ _ granted
    have ordered := holds.ordered treeHolds perm
    have hangs : Hangs splayed.links none tree :=
      ⟨treeHolds.represents, (parentsHold_iff treeHolds.root treeHolds.represents).mp parents,
        ordered.distinct⟩
    rw [insertBlock_parents_iff orders treeHolds.root hangs ordered.stored free (between _) ran,
      sameEmpty]
    simp only [Option.some.injEq, forall_eq', ← sameData, holds.oneSide_iff perm]

/-- An insertion that returns leaves the parent pointers right exactly where it keeps them. -/
theorem insert_parents_iff (orders : Orders key compareRoutine)
    (holds : TableHolds key table elements) (parents : ParentsHold table)
    (enough : elements.length < turns) {allocateRoutine : AllocateRoutine Item} {buffer : Item}
    {bufferSize : Nat} {result : InsertResult}
    (ran : rtlInsertElementGenericTable compareRoutine turns allocateRoutine table buffer
      bufferSize = .ok (result, table')) :
    ParentsHold table' ↔ KeepsParents key compareRoutine turns table
      (.insert allocateRoutine buffer bufferSize) := by
  rcases splay_table orders holds enough buffer with
    ⟨empty, root, splayRan⟩ | ⟨links, left, element, right, before, splayRan, treeHolds, perm,
      splayed⟩
  · obtain ⟨tree, treeHolds, perm⟩ := holds.tree
    have leaf : tree = .nil := by
      have none := treeHolds.root
      rw [root] at none
      exact pointer_eq_none.mp none.symm
    refine insert_missing_parents_iff orders splayRan rfl Iff.rfl holds parents treeHolds perm
      (fun _ => ?_) (fun element member => ?_) ran
    · rw [leaf]
      trivial
    · rw [empty] at member
      cases member
  · have holds' := holds.reroot treeHolds perm
    obtain ⟨tree, root, hangs⟩ := splay_hangs holds parents splayRan
    have parents' := hangs.parentsHold root
    by_cases found : compareRoutine buffer element.item = .equal
    · refine iff_of_true ?_ (.inl ⟨element.address, element.item, ?_, ?_⟩)
      · unfold rtlInsertElementGenericTable at ran
        simp only [splayRan, ok_bind, found, decide_true, if_true] at ran
        cases ran
        exact parents'
      · exact (holds.blocks _ _).mpr (mem_root perm)
      · exact ((orders.equal _ _).mp found).symm
    · have differs : key element.item ≠ key buffer :=
        fun same => found ((orders.equal _ _).mpr same.symm)
      rw [decide_eq_false found] at splayRan
      have occupied : table.tableRoot ≠ none := by
        intro none
        rw [splay_empty none] at splayRan
        have root := congrArg (fun left => left.2.tableRoot) (Except.ok.inj splayRan)
        exact absurd (none.symm.trans root) nofun
      exact insert_missing_parents_iff orders splayRan rfl (iff_of_false nofun occupied) holds'
        parents' treeHolds perm (fun _ => ⟨splayed.below, splayed.above, differs⟩)
        (splayed.absent perm differs) ran

/-! ### Runs -/

/-- A call that returns leaves the parent pointers right exactly where it keeps them. -/
theorem perform_parents_iff (orders : Orders key compareRoutine)
    (holds : TableHolds key table elements) (parents : ParentsHold table)
    (enough : elements.length < turns) {call : Call Item} {reply : Reply}
    (ran : perform compareRoutine turns table call = .ok (reply, table')) :
    ParentsHold table' ↔ KeepsParents key compareRoutine turns table call := by
  cases call with
  | insert allocateRoutine buffer bufferSize =>
    obtain ⟨⟨result, next⟩, inserted, ran⟩ := bind_eq_ok.mp ran
    cases ran
    exact insert_parents_iff orders holds parents enough inserted
  | lookup buffer =>
    obtain ⟨⟨result, next⟩, lookedUp, ran⟩ := bind_eq_ok.mp ran
    cases ran
    exact iff_of_true (lookup_parents holds parents lookedUp) trivial
  | delete buffer =>
    obtain ⟨⟨result, next⟩, deleted, ran⟩ := bind_eq_ok.mp ran
    cases ran
    exact iff_of_true (delete_parents holds parents deleted) trivial

omit [LinearOrder Key] in
theorem initialize_parents : ParentsHold (rtlInitializeGenericTable : GenericTable Item) where
  atRoot := nofun
  atChild := fun _ _ _ _ held => nomatch held

omit [LinearOrder Key] in
/-- A run that ends with a call: the table before the call, and what the call makes of it. -/
theorem run_snoc {before : List (Call Item)} {call : Call Item} {start final : GenericTable Item} :
    (run compareRoutine turns start (before ++ [call])).2 = .ok final ↔
      ∃ table reply, (run compareRoutine turns start before).2 = .ok table ∧
        perform compareRoutine turns table call = .ok (reply, final) := by
  induction before generalizing start with
  | nil =>
    rw [List.nil_append, run, run]
    cases performed : perform compareRoutine turns start call with
    | error fault =>
      refine iff_of_false (by simp) ?_
      rintro ⟨table, reply, reached, performed'⟩
      cases reached
      rw [performed] at performed'
      cases performed'
    | ok returned =>
      obtain ⟨reply, next⟩ := returned
      constructor
      · intro reached
        cases reached
        exact ⟨start, reply, rfl, performed⟩
      · rintro ⟨table, reply', reached, performed'⟩
        cases reached
        rw [performed] at performed'
        cases performed'
        rfl
  | cons first before inductionHypothesis =>
    rw [List.cons_append, run, run]
    cases performed : perform compareRoutine turns start first with
    | error fault =>
      refine iff_of_false (by simp) ?_
      rintro ⟨_, _, reached, _⟩
      cases reached
    | ok returned => exact inductionHypothesis

/-- In a run from a new table, whatever the blocks hold that its insertions are granted, the
parent pointers are right in every table that is reached exactly where every call that returns
keeps them. -/
theorem parents_hold_iff (orders : Orders key compareRoutine) (calls : List (Call Item))
    (enough : calls.length ≤ turns) :
    (∀ before after table, calls = before ++ after →
      (run compareRoutine turns rtlInitializeGenericTable before).2 = .ok table →
        ParentsHold table) ↔
    ∀ before call after table reply next, calls = before ++ call :: after →
      (run compareRoutine turns rtlInitializeGenericTable before).2 = .ok table →
      perform compareRoutine turns table call = .ok (reply, next) →
        KeepsParents key compareRoutine turns table call := by
  -- What a table holds that is reached before a call of the run, with turns to spare.
  have reachedHolds : ∀ {before call after table}, calls = before ++ call :: after →
      (run compareRoutine turns rtlInitializeGenericTable before).2 = .ok table →
        ∃ elements, TableHolds key table elements ∧ elements.length < turns := by
    intro before call after table split reached
    rw [split, List.length_append, List.length_cons] at enough
    obtain ⟨elements, holds, length⟩ := run_ok_holds orders (by omega) reached
    exact ⟨elements, holds, by omega⟩
  constructor
  · intro right before call after table reply next split reached performed
    obtain ⟨elements, holds, room⟩ := reachedHolds split reached
    have parents := right before (call :: after) table split reached
    refine (perform_parents_iff orders holds parents room performed).mp
      (right (before ++ [call]) after next ?_ (run_snoc.mpr ⟨table, reply, reached, performed⟩))
    rw [split, List.append_assoc, List.singleton_append]
  · intro keeps before
    induction before using List.reverseRecOn with
    | nil =>
      intro after table _ reached
      cases reached
      exact initialize_parents
    | append_singleton before call inductionHypothesis =>
      intro after final split reached
      rw [List.append_assoc, List.singleton_append] at split
      obtain ⟨table, reply, reached, performed⟩ := run_snoc.mp reached
      obtain ⟨elements, holds, room⟩ := reachedHolds split reached
      exact (perform_parents_iff orders holds (inductionHypothesis _ table split reached) room
        performed).mpr (keeps before call after table reply final split reached performed)

/-- Three insertions, the last of a key between the other two. -/
def betweenCalls : List (Call Nat) :=
  [.insert (blockAt 100) 1 4, .insert (blockAt 200) 3 4, .insert (blockAt 300) 2 4]

theorem parents_hold_iff_betweenCalls :
    (∀ before after table, betweenCalls = before ++ after →
      (run compareNumbers 3 rtlInitializeGenericTable before).2 = .ok table →
        ParentsHold table) ↔
    ∀ before call after table reply next, betweenCalls = before ++ call :: after →
      (run compareNumbers 3 rtlInitializeGenericTable before).2 = .ok table →
      perform compareNumbers 3 table call = .ok (reply, next) →
        KeepsParents id compareNumbers 3 table call :=
  parents_hold_iff orders_compareNumbers betweenCalls (by decide)

/-- The third insertion takes 3 over from 1, whose address stays in the `Parent` of 3. -/
theorem not_parents_hold :
    ∃ table, (run compareNumbers 3 rtlInitializeGenericTable betweenCalls).2 = .ok table ∧
      childrenOf table.links (.item 300) .right = some (some (.item 200)) ∧
      parentsOf table.links (.item 200) = some (some (.item 100)) ∧ ¬ ParentsHold table := by
  refine ⟨_, rfl, rfl, rfl, fun parents => ?_⟩
  have back := parents.atChild (.item 300) .right (.item 200) (.root _ rfl) rfl
  exact absurd back (by decide)

end Calls

end Nloader.Splay
