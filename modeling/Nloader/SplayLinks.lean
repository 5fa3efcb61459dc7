/-
This file models `libs/ntdll/splaytree.c` with the macros of `rtl.h` it uses: trees of
`RTL_SPLAY_LINKS` that their owners embed in their own data.

The links of all nodes are in one map from addresses. Nothing stands above the root of a
tree, which is its own parent. As in the other tables of the runtime library, every
dereference of a pointer looks it up, and NULL and an address that holds no links each stop
with a fault. The assertions of the source are compiled out.

A statement for the left and its mirror image for the right are one definition over the side
where the source makes them in the same order; the four cases of `RtlSplay` are not.
-/

import Nloader.Library.Outcome
import Nloader.Library.RootedTree
import Nloader.Splay

namespace Nloader.SplayLinks

open Outcome TreePath RootedTree
open Splay (Address Fault deref write)

/-! ### Links -/

/-- `RTL_SPLAY_LINKS`. -/
abbrev RtlSplayLinks : Type := Cell Address

/-- The links in memory. -/
abbrev Links : Type := Memory Address

/-- `RtlParent(Links)`. -/
def rtlParent (links : Links) (pointer : Option Address) : Except Fault (Option Address) := do
  let cell ← deref links pointer
  pure cell.parent

/-- `RtlLeftChild(Links)` and `RtlRightChild(Links)`. -/
def rtlChild (links : Links) (pointer : Option Address) (side : Side) :
    Except Fault (Option Address) := do
  let cell ← deref links pointer
  pure (cell.child side)

/-- `RtlIsLeftChild(Links)` and `RtlIsRightChild(Links)`. -/
def rtlIsChild (links : Links) (pointer : Option Address) (side : Side) : Except Fault Bool := do
  let parent ← rtlParent links pointer
  let child ← rtlChild links parent side
  pure (child = pointer)

/-- `RtlIsRoot(Links)`. -/
def rtlIsRoot (links : Links) (pointer : Option Address) : Except Fault Bool := do
  let parent ← rtlParent links pointer
  pure (parent = pointer)

/-- The stores `RtlLeftChild(pointer) = value` and `RtlRightChild(pointer) = value`. -/
def setChild (links : Links) (pointer : Option Address) (side : Side) (value : Option Address) :
    Except Fault Links :=
  write links pointer fun cell => cell.withChild side value

/-- The store `RtlParent(pointer) = value`. -/
def setParent (links : Links) (pointer value : Option Address) : Except Fault Links :=
  write links pointer fun cell => cell.withParent value

/-- `RtlInsertAsLeftChild` and `RtlInsertAsRightChild`. -/
def rtlInsertAsChild (links : Links) (parentLinks childLinks : Option Address) (side : Side) :
    Except Fault Links := do
  let links ← setChild links parentLinks side childLinks
  setParent links childLinks parentLinks

/-- `if (RtlLeftChild(X)) RtlParent(RtlLeftChild(X)) = X`, and its mirror image. -/
def updateParent (links : Links) (pointer : Option Address) (side : Side) :
    Except Fault Links := do
  let child ← rtlChild links pointer side
  if child ≠ none then setParent links child pointer else pure links

/-! ### `RtlSplay` -/

/-- "Now we'll shove N all the way to the top": `N` becomes the root, or takes the place of `G`
below the parent of `G`. -/
def shoveToTop (links : Links) (n g : Option Address) : Except Fault Links := do
  let isRoot ← rtlIsRoot links g
  if isRoot then setParent links n n
  else
    let parent ← rtlParent links g
    let links ← setParent links n parent
    let isLeft ← rtlIsChild links g .left
    let parent ← rtlParent links g
    if isLeft then setChild links parent .left n else setChild links parent .right n

/-- Case 1: `N` is the left child of `P` and `P` is the left child of `G`. -/
def splayCase1 (links : Links) (n p g : Option Address) : Except Fault Links := do
  let rightN ← rtlChild links n .right
  let links ← setChild links p .left rightN
  let rightP ← rtlChild links p .right
  let links ← setChild links g .left rightP
  let links ← updateParent links p .left
  let links ← updateParent links g .left
  let links ← shoveToTop links n g
  let links ← setChild links n .right p
  let links ← setParent links p n
  let links ← setChild links p .right g
  setParent links g p

/-- Case 2: `N` is the right child of `P` and `P` is the right child of `G`. -/
def splayCase2 (links : Links) (n p g : Option Address) : Except Fault Links := do
  let leftP ← rtlChild links p .left
  let links ← setChild links g .right leftP
  let leftN ← rtlChild links n .left
  let links ← setChild links p .right leftN
  let links ← updateParent links g .right
  let links ← updateParent links p .right
  let links ← shoveToTop links n g
  let links ← setChild links n .left p
  let links ← setParent links p n
  let links ← setChild links p .left g
  setParent links g p

/-- Case 3: `N` is the left child of `P` and `P` is the right child of `G`. -/
def splayCase3 (links : Links) (n p g : Option Address) : Except Fault Links := do
  let leftN ← rtlChild links n .left
  let links ← setChild links g .right leftN
  let rightN ← rtlChild links n .right
  let links ← setChild links p .left rightN
  let links ← updateParent links g .right
  let links ← updateParent links p .left
  let links ← shoveToTop links n g
  let links ← setChild links n .left g
  let links ← setParent links g n
  let links ← setChild links n .right p
  setParent links p n

/-- Case 4: `N` is the right child of `P` and `P` is the left child of `G`. -/
def splayCase4 (links : Links) (n p g : Option Address) : Except Fault Links := do
  let leftN ← rtlChild links n .left
  let links ← setChild links p .right leftN
  let rightN ← rtlChild links n .right
  let links ← setChild links g .left rightN
  let links ← updateParent links p .right
  let links ← updateParent links g .left
  let links ← shoveToTop links n g
  let links ← setChild links n .left p
  let links ← setParent links g n
  let links ← setChild links n .right g
  setParent links p n

/-- The "Finally" case: `N` is the child of the root `P` on a side. -/
def splayFinally (links : Links) (n p : Option Address) (side : Side) : Except Fault Links := do
  let inner ← rtlChild links n side.other
  let links ← setChild links p side inner
  let links ← updateParent links p side
  let links ← setParent links n n
  let links ← setChild links n side.other p
  setParent links p n

/-- One turn of the loop of `RtlSplay`. -/
def splayTurn (n : Option Address) (links : Links) : Except Fault (Turn Links Links) := do
  let isRoot ← rtlIsRoot links n
  if isRoot then pure (.leave links)
  else
    let p ← rtlParent links n
    let g ← rtlParent links p
    let links ←
      if ← rtlIsChild links n .left then
        if ← rtlIsChild links p .left then splayCase1 links n p g
        else if ← rtlIsChild links p .right then splayCase3 links n p g
        else splayFinally links n p .left
      else
        if ← rtlIsChild links p .right then splayCase2 links n p g
        else if ← rtlIsChild links p .left then splayCase4 links n p g
        else splayFinally links n p .right
    pure (.again links)

/-- `RtlSplay`. -/
def rtlSplay (turns : Nat) (links : Links) (pointer : Option Address) :
    Except Fault (Option Address × Links) := do
  let links ← repeatLoop .outOfTurns (splayTurn pointer) turns links
  pure (pointer, links)

/-! ### The walks -/

/-- One turn of `while (RtlRightChild(Child)) Child = RtlRightChild(Child)`, or of its mirror
image. -/
def deepestTurn (links : Links) (side : Side) (child : Option Address) :
    Except Fault (Turn (Option Address) (Option Address)) := do
  let next ← rtlChild links child side
  if next ≠ none then pure (.again next) else pure (.leave child)

/-- `RtlSubtreePredecessor` on the left, and its mirror image `RtlSubtreeSuccessor` on the right. -/
def subtreeNeighbour (side : Side) (turns : Nat) (links : Links) (pointer : Option Address) :
    Except Fault (Option Address) := do
  let child ← rtlChild links pointer side
  if child = none then pure none
  else repeatLoop .outOfTurns (deepestTurn links side.other) turns child

/-- `RtlSubtreePredecessor`. -/
def rtlSubtreePredecessor : Nat → Links → Option Address → Except Fault (Option Address) :=
  subtreeNeighbour .left

/-- `RtlSubtreeSuccessor`. -/
def rtlSubtreeSuccessor : Nat → Links → Option Address → Except Fault (Option Address) :=
  subtreeNeighbour .right

/-- One turn of `while (RtlIsLeftChild(Child)) Child = RtlParent(Child)`, or of its mirror
image. -/
def climbTurn (links : Links) (side : Side) (child : Option Address) :
    Except Fault (Turn (Option Address) (Option Address)) := do
  if ← rtlIsChild links child side then
    let parent ← rtlParent links child
    pure (.again parent)
  else pure (.leave child)

/-- `RtlRealPredecessor` on the left, and its mirror image `RtlRealSuccessor` on the right. -/
def realNeighbour (side : Side) (turns : Nat) (links : Links) (pointer : Option Address) :
    Except Fault (Option Address) := do
  let child ← rtlChild links pointer side
  if child ≠ none then repeatLoop .outOfTurns (deepestTurn links side.other) turns child
  else
    let child ← repeatLoop .outOfTurns (climbTurn links side) turns pointer
    if ← rtlIsChild links child side.other then rtlParent links child else pure none

/-- `RtlRealPredecessor`. -/
def rtlRealPredecessor : Nat → Links → Option Address → Except Fault (Option Address) :=
  realNeighbour .left

/-- `RtlRealSuccessor`. -/
def rtlRealSuccessor : Nat → Links → Option Address → Except Fault (Option Address) :=
  realNeighbour .right

/-! ### Deletion -/

/-- `if (LeftChild) RtlInsertAsLeftChild(...) else RtlInsertAsRightChild(...)`. -/
def insertOn (links : Links) (parentLinks childLinks : Option Address) (isLeft : Bool) :
    Except Fault Links :=
  if isLeft then rtlInsertAsChild links parentLinks childLinks .left
  else rtlInsertAsChild links parentLinks childLinks .right

/-- `if (RtlLeftChild(Links)) RtlInsertAsLeftChild(Links, RtlLeftChild(Links))`, and its mirror
image. -/
def fixupChild (links : Links) (pointer : Option Address) (side : Side) : Except Fault Links := do
  let child ← rtlChild links pointer side
  if child ≠ none then rtlInsertAsChild links pointer child side else pure links

/-- `FixupChildLinks`. -/
def fixupChildLinks (links : Links) (pointer : Option Address) (root leftChild : Bool) :
    Except Fault Links := do
  let links ← fixupChild links pointer .left
  let links ← fixupChild links pointer .right
  if root then pure links
  else
    let parent ← rtlParent links pointer
    insertOn links parent pointer leftChild

/-- "A was parent of B is a special case: A->Parent is now B". -/
def insertUnlessRoot (links : Links) (rootA : Bool) (parent linkB : Option Address)
    (leftA : Bool) : Except Fault Links :=
  if rootA then pure links else insertOn links parent linkB leftA

/-- The block of `SwapSplayLinks` behind the exchange of its two parameters. -/
def swapLinks (links : Links) (linkA linkB : Option Address) : Except Fault Links := do
  let ta ← deref links linkA
  let tb ← deref links linkB
  let rootA ← rtlIsRoot links linkA
  let leftA ← rtlIsChild links linkA .left
  let leftB ← rtlIsChild links linkB .left
  let links ← write links linkB fun _ => ta
  let links ← write links linkA fun _ => tb
  let links ←
    if tb.parent = linkA then do
      let links ← insertUnlessRoot links rootA ta.parent linkB leftA
      insertOn links linkB linkA leftB
    else pure links
  let links ← fixupChildLinks links linkA false leftB
  let links ← fixupChildLinks links linkB rootA leftA
  if rootA then setParent links linkB linkB else pure links

/-- `SwapSplayLinks`. -/
def swapSplayLinks (links : Links) (linkA linkB : Option Address) : Except Fault Links := do
  let parent ← rtlParent links linkA
  let exchange ← if parent = linkB then pure true else rtlIsRoot links linkB
  if exchange then swapLinks links linkB linkA else swapLinks links linkA linkB

/-- "This will guarantee that N will only have a child": the start of both deletions. A node with
two children is swapped with its predecessor, which is returned where there is one. -/
def isolate (turns : Nat) (links : Links) (n : Option Address) :
    Except Fault (Option (Option Address) × Links) := do
  let leftChild ← rtlChild links n .left
  let rightChild ← rtlChild links n .right
  if leftChild ≠ none ∧ rightChild ≠ none then
    let sp ← rtlSubtreePredecessor turns links n
    let links ← swapSplayLinks links sp n
    pure (some sp, links)
  else pure (none, links)

/-- What the parent of a node references instead of it. -/
def reference (links : Links) (n p c : Option Address) : Except Fault Links := do
  if ← rtlIsChild links n .left then setChild links p .left c else setChild links p .right c

/-- The statements behind it, which both deletions share up to what they return: the root that is
left when the node was the root, or the former parent of the node. -/
def unlink (links : Links) (n : Option Address) :
    Except Fault ((Option Address ⊕ Option Address) × Links) := do
  let leftChild ← rtlChild links n .left
  let rightChild ← rtlChild links n .right
  if leftChild = none ∧ rightChild = none then
    if ← rtlIsRoot links n then pure (.inl none, links)
    else
      let p ← rtlParent links n
      let links ← reference links n p none
      pure (.inr p, links)
  else
    let c ← if leftChild ≠ none then rtlChild links n .left else rtlChild links n .right
    if ← rtlIsRoot links n then
      let links ← setParent links c c
      pure (.inl c, links)
    else
      let p ← rtlParent links n
      let links ← reference links n p c
      let links ← setParent links c p
      pure (.inr p, links)

/-- `RtlDelete`. -/
def rtlDelete (turns : Nat) (links : Links) (pointer : Option Address) :
    Except Fault (Option Address × Links) := do
  let (_, links) ← isolate turns links pointer
  match ← unlink links pointer with
  | (.inl root, links) => pure (root, links)
  | (.inr p, links) => rtlSplay turns links p

/-- `RtlDeleteNoSplay`: what it leaves in `*Root`, and the links. The root that is a node with two
children is replaced by its predecessor before the two are swapped. -/
def rtlDeleteNoSplay (turns : Nat) (links : Links) (pointer root : Option Address) :
    Except Fault (Option Address × Links) := do
  let isRoot ← rtlIsRoot links pointer
  let (sp, links) ← isolate turns links pointer
  let root := match sp with
    | some sp => if isRoot then sp else root
    | none => root
  match ← unlink links pointer with
  | (.inl root, links) => pure (root, links)
  | (.inr _, links) => pure (root, links)

end Nloader.SplayLinks
