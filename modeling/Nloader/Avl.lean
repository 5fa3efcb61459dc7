/-
This file models `libs/ntdll/avltable.c` with `c/avlsupp.c` and `rtlavl.h`, and the two walks
of `splaytree.c` it uses: the balanced generic tables of the runtime library.

A node is a block with links to its parent and to its two children, its balance and the data
of the caller. The links of all nodes are in one map, next to those of `BalancedRoot`, which
is part of the table and stands above the root. A pointer to the data of a node is modelled
by the place of the node. As in the splay tables, every dereference of a pointer looks it up:
NULL and a place that holds nothing each stop with a fault. The assertions of the source are
compiled out. Statements for the left and for the right that are mirror images of each other
are one definition over the side.
-/

import Nloader.Library.Outcome
import Nloader.Library.LinkedTree
import Nloader.Splay

namespace Nloader.Avl

open Outcome TreePath LinkedTree
open Splay (Address Fault GenericCompareResults deref write decrement)

/-! ### The table and its memory -/

/-- The places of `RTL_BALANCED_LINKS`: the field `BalancedRoot` of the table, and the nodes. -/
inductive Place where
  | balancedRoot
  | item (address : Address)
  deriving DecidableEq

/-- `RTL_BALANCED_LINKS`. -/
abbrev BalancedLinks : Type := Cell Place

/-- The links in memory. -/
abbrev Links : Type := Memory Place

/-- The values of `RTL_AVL_BALANCE_FACTOR` that a balance takes. -/
abbrev rtlLeftHeavyAvlTree : Int := -1

abbrev rtlBalancedAvlTree : Int := 0

abbrev rtlRightHeavyAvlTree : Int := 1

/-- `TABLE_SEARCH_RESULT`. -/
inductive TableSearchResult where
  | emptyTree
  | foundNode
  | insertAsLeft
  | insertAsRight
  deriving DecidableEq

/-- `RTL_AVL_TABLE`, with the memory of its nodes. The routines of the table are parameters of
the calls. -/
structure AvlTable (Item : Type) where
  links : Links
  data : Address → Option Item
  orderedPointer : Option Place
  whichOrderedElement : Nat
  numberGenericTableElements : Nat
  depthOfTree : Nat
  restartKey : Option Place
  deleteCount : Nat

variable {Item : Type}

/-! ### Links -/

/-- `RtlParent(x)`. -/
def rtlParent (links : Links) (pointer : Option Place) : Except Fault (Option Place) := do
  let cell ← deref links pointer
  pure cell.parent

/-- `RtlLeftChild(x)` and `RtlRightChild(x)`. -/
def rtlChild (links : Links) (pointer : Option Place) (side : Side) :
    Except Fault (Option Place) := do
  let cell ← deref links pointer
  pure (cell.child side)

/-- `RtlBalance(x)`. -/
def rtlBalance (links : Links) (pointer : Option Place) : Except Fault Int := do
  let cell ← deref links pointer
  pure cell.balance

/-- `RtlIsLeftChild(x)` and `RtlIsRightChild(x)`: what the parent has on that side is the node. -/
def rtlIsChild (links : Links) (pointer : Option Place) (side : Side) : Except Fault Bool := do
  let parent ← rtlParent links pointer
  let child ← rtlChild links parent side
  pure (child = pointer)

/-- The store of a child pointer. -/
def setChild (links : Links) (pointer : Option Place) (side : Side) (value : Option Place) :
    Except Fault Links :=
  write links pointer fun cell => cell.withChild side value

/-- `RtlSetParent`. -/
def rtlSetParent (links : Links) (pointer value : Option Place) : Except Fault Links :=
  write links pointer fun cell => cell.withParent value

/-- `RtlSetBalance`. -/
def rtlSetBalance (links : Links) (pointer : Option Place) (value : Int) : Except Fault Links :=
  write links pointer fun cell => cell.withBalance value

/-- `if (pointer) RtlSetParent(pointer, value)`. -/
def adoptChild (links : Links) (pointer value : Option Place) : Except Fault Links :=
  if pointer = none then pure links else rtlSetParent links pointer value

/-- `RtlInsertAsLeftChild` and `RtlInsertAsRightChild`. -/
def rtlInsertAsChild (links : Links) (parentLinks childLinks : Option Place) (side : Side) :
    Except Fault Links := do
  let links ← setChild links parentLinks side childLinks
  rtlSetParent links childLinks parentLinks

/-- `RtlpCopyAvlNodeData`: `*Node1 = *Node2`. -/
def rtlpCopyAvlNodeData (links : Links) (node₁ node₂ : Option Place) : Except Fault Links := do
  let cell ← deref links node₂
  write links node₁ fun _ => cell

/-- The data of the node a pointer leads to. -/
def userData (data : Address → Option Item) : Option Place → Except Fault Item
  | none => throw .nullDereference
  | some .balancedRoot => throw .badAddress
  | some (.item address) =>
    match data address with
    | some item => pure item
    | none => throw .badAddress

/-! ### The search -/

/-- The branch of the search for one side: go on with the child there, or leave at the node
that is to become the parent. -/
def findBranch (table : AvlTable Item) (currentNode : Option Place) (side : Side)
    (searchResult : TableSearchResult) :
    Except Fault (Turn (Option Place) (TableSearchResult × Option Place)) := do
  let childNode ← rtlChild table.links currentNode side
  if childNode ≠ none then pure (.again childNode)
  else pure (.leave (searchResult, currentNode))

/-- One turn of the search. -/
def findTurn (compareRoutine : Item → Item → GenericCompareResults) (table : AvlTable Item)
    (buffer : Item) (currentNode : Option Place) :
    Except Fault (Turn (Option Place) (TableSearchResult × Option Place)) := do
  let item ← userData table.data currentNode
  match compareRoutine buffer item with
  | .lessThan => findBranch table currentNode .left .insertAsLeft
  | .greaterThan => findBranch table currentNode .right .insertAsRight
  | _ => pure (.leave (.foundNode, currentNode))

/-- `RtlpFindAvlTableNodeOrParent`, for the value of `*NodeOrParent` before it. -/
def rtlpFindAvlTableNodeOrParent (compareRoutine : Item → Item → GenericCompareResults)
    (turns : Nat) (table : AvlTable Item) (buffer : Item) (nodeOrParent : Option Place) :
    Except Fault (TableSearchResult × Option Place) :=
  if table.numberGenericTableElements = 0 then pure (.emptyTree, nodeOrParent)
  else do
    let currentNode ← rtlChild table.links (some .balancedRoot) .right
    repeatLoop .outOfTurns (findTurn compareRoutine table buffer) turns currentNode

/-! ### Promotion and rebalancing -/

/-- `RtlpPromoteAvlTreeNode`. `SwapNode1` and `SwapNode2` point to child pointers: of the
parent, of the node, and in the end of the super-parent. -/
def rtlpPromoteAvlTreeNode (links : Links) (node : Option Place) : Except Fault Links := do
  let parentNode ← rtlParent links node
  let superParentNode ← rtlParent links parentNode
  let isLeftChild ← rtlIsChild links node .left
  let swapNode₁ : Side := if isLeftChild then .left else .right
  let swapNode₂ : Side := if isLeftChild then .right else .left
  let swapped ← rtlChild links node swapNode₂
  let links ← setChild links parentNode swapNode₁ swapped
  let swapped ← rtlChild links parentNode swapNode₁
  let links ← adoptChild links swapped parentNode
  let links ← setChild links node swapNode₂ parentNode
  let links ← rtlSetParent links parentNode node
  let leftChild ← rtlChild links superParentNode .left
  let swapNode₁ : Side := if leftChild = parentNode then .left else .right
  let links ← setChild links superParentNode swapNode₁ node
  rtlSetParent links node superParentNode

/-- The balances after a double promotion, for the balance the node had. -/
def setDoubleBalances (links : Links) (node childNode subChildNode : Option Place)
    (balance : Int) : Except Fault Links := do
  let subChildBalance ← rtlBalance links subChildNode
  if subChildBalance = balance then
    let links ← rtlSetBalance links childNode rtlBalancedAvlTree
    rtlSetBalance links node (-balance)
  else if subChildBalance = -balance then
    let links ← rtlSetBalance links childNode balance
    rtlSetBalance links node rtlBalancedAvlTree
  else
    let links ← rtlSetBalance links childNode rtlBalancedAvlTree
    rtlSetBalance links node rtlBalancedAvlTree

/-- `RtlpRebalanceAvlTreeNode`: what it returns, and the links. -/
def rtlpRebalanceAvlTreeNode (links : Links) (node : Option Place) :
    Except Fault (Bool × Links) := do
  let balance ← rtlBalance links node
  let side : Side := if balance = rtlRightHeavyAvlTree then .right else .left
  let childNode ← rtlChild links node side
  let childBalance ← rtlBalance links childNode
  if childBalance = balance then
    let links ← rtlpPromoteAvlTreeNode links childNode
    let links ← rtlSetBalance links childNode rtlBalancedAvlTree
    let links ← rtlSetBalance links node rtlBalancedAvlTree
    pure (false, links)
  else if childBalance = -balance then
    let subChildNode ← rtlChild links childNode side.other
    let links ← rtlpPromoteAvlTreeNode links subChildNode
    let links ← rtlpPromoteAvlTreeNode links subChildNode
    let links ← setDoubleBalances links node childNode subChildNode balance
    let links ← rtlSetBalance links subChildNode rtlBalancedAvlTree
    pure (false, links)
  else
    let links ← rtlpPromoteAvlTreeNode links childNode
    let links ← rtlSetBalance links childNode (-balance)
    pure (true, links)

/-! ### Insertion of a node -/

/-- The variables of the loop of `RtlpInsertAvlTreeNode`, with the links and the depth it
changes. -/
structure InsertState where
  links : Links
  depthOfTree : Nat
  newNode : Option Place
  nodeOrParent : Option Place

/-- One turn of the loop of `RtlpInsertAvlTreeNode`. -/
def insertTurn (state : InsertState) : Except Fault (Turn InsertState (Links × Nat)) := do
  let { links, depthOfTree, newNode, nodeOrParent } := state
  let isLeftChild ← rtlIsChild links newNode .left
  let balance := if isLeftChild then rtlLeftHeavyAvlTree else rtlRightHeavyAvlTree
  let parentBalance ← rtlBalance links nodeOrParent
  if parentBalance = rtlBalancedAvlTree then
    let links ← rtlSetBalance links nodeOrParent balance
    let parent ← rtlParent links nodeOrParent
    pure (.again { links, depthOfTree, newNode := nodeOrParent, nodeOrParent := parent })
  else if parentBalance ≠ balance then
    let links ← rtlSetBalance links nodeOrParent rtlBalancedAvlTree
    let rootBalance ← rtlBalance links (some .balancedRoot)
    if rootBalance = rtlBalancedAvlTree then
      pure (.leave (links, (depthOfTree + 1) % 2 ^ 32))
    else pure (.leave (links, depthOfTree))
  else
    let (_, links) ← rtlpRebalanceAvlTreeNode links nodeOrParent
    pure (.leave (links, depthOfTree))

/-- `RtlpInsertAvlTreeNode`. -/
def rtlpInsertAvlTreeNode (turns : Nat) (table : AvlTable Item)
    (newNode nodeOrParent : Option Place) (searchResult : TableSearchResult) :
    Except Fault (AvlTable Item) := do
  let links ← setChild table.links newNode .right none
  let links ← setChild links newNode .left none
  let links ← rtlSetBalance links newNode rtlBalancedAvlTree
  let numberGenericTableElements := (table.numberGenericTableElements + 1) % 2 ^ 32
  if searchResult = .emptyTree then
    let links ← rtlInsertAsChild links (some .balancedRoot) newNode .right
    pure { table with links, numberGenericTableElements, depthOfTree := 1 }
  else
    let side : Side := if searchResult = .insertAsLeft then .left else .right
    let links ← rtlInsertAsChild links nodeOrParent newNode side
    let links ← rtlSetBalance links (some .balancedRoot) rtlLeftHeavyAvlTree
    let (links, depthOfTree) ← repeatLoop .outOfTurns insertTurn turns
      { links, depthOfTree := table.depthOfTree, newNode, nodeOrParent }
    pure { table with links, numberGenericTableElements, depthOfTree }

/-! ### Walks -/

/-- One turn of `while (RtlLeftChild(node)) node = RtlLeftChild(node)`, or of its mirror
image. -/
def deepestTurn (links : Links) (side : Side) (node : Option Place) :
    Except Fault (Turn (Option Place) (Option Place)) := do
  let child ← rtlChild links node side
  if child ≠ none then pure (.again child) else pure (.leave node)

/-- One turn of `while (RtlIsLeftChild(child)) child = RtlParent(child)`, or of its mirror
image. -/
def climbTurn (links : Links) (side : Side) (child : Option Place) :
    Except Fault (Turn (Option Place) (Option Place)) := do
  let isChild ← rtlIsChild links child side
  if isChild then
    let parent ← rtlParent links child
    pure (.again parent)
  else pure (.leave child)

/-- `RtlRealPredecessor` on the left, and its mirror image `RtlRealSuccessor` on the right. -/
def realNeighbour (side : Side) (turns : Nat) (links : Links) (pointer : Option Place) :
    Except Fault (Option Place) := do
  let child ← rtlChild links pointer side
  if child ≠ none then repeatLoop .outOfTurns (deepestTurn links side.other) turns child
  else
    let child ← repeatLoop .outOfTurns (climbTurn links side) turns pointer
    let isOther ← rtlIsChild links child side.other
    if isOther then rtlParent links child else pure none

/-- `RtlRealPredecessor`. -/
def rtlRealPredecessor : Nat → Links → Option Place → Except Fault (Option Place) :=
  realNeighbour .left

/-- `RtlRealSuccessor`. -/
def rtlRealSuccessor : Nat → Links → Option Place → Except Fault (Option Place) :=
  realNeighbour .right

/-! ### Deletion of a node -/

/-- The variables of the loop of `RtlpDeleteAvlTreeNode`, with the links and the depth it
changes. -/
structure DeleteState where
  links : Links
  depthOfTree : Nat
  parentNode : Option Place
  balance : Int

/-- The end of a turn that goes on: the balance is chosen for the side of the node, and the
loop iterates up the tree. -/
def deleteUp (links : Links) (depthOfTree : Nat) (parentNode : Option Place) :
    Except Fault (Turn DeleteState (Links × Nat)) := do
  let isRightChild ← rtlIsChild links parentNode .right
  let balance := if isRightChild then rtlRightHeavyAvlTree else rtlLeftHeavyAvlTree
  let parent ← rtlParent links parentNode
  pure (.again { links, depthOfTree, parentNode := parent, balance })

/-- One turn of the loop of `RtlpDeleteAvlTreeNode`. -/
def deleteTurn (state : DeleteState) : Except Fault (Turn DeleteState (Links × Nat)) := do
  let { links, depthOfTree, parentNode, balance } := state
  let parentBalance ← rtlBalance links parentNode
  if parentBalance = balance then
    let links ← rtlSetBalance links parentNode rtlBalancedAvlTree
    deleteUp links depthOfTree parentNode
  else if parentBalance = rtlBalancedAvlTree then
    let links ← rtlSetBalance links parentNode (-balance)
    let rootBalance ← rtlBalance links (some .balancedRoot)
    if rootBalance ≠ rtlBalancedAvlTree then pure (.leave (links, decrement depthOfTree))
    else pure (.leave (links, depthOfTree))
  else
    let (finished, links) ← rtlpRebalanceAvlTreeNode links parentNode
    if finished then pure (.leave (links, depthOfTree))
    else
      let parent ← rtlParent links parentNode
      deleteUp links depthOfTree parent

/-- The choice of `DeleteNode`: the node itself, or its neighbour on the longer side. -/
def chooseDeleteNode (turns : Nat) (links : Links) (node : Option Place) :
    Except Fault (Option Place) := do
  let leftChild ← rtlChild links node .left
  let rightChild ← rtlChild links node .right
  if leftChild = none ∨ rightChild = none then pure node
  else
    let balance ← rtlBalance links node
    if balance ≥ rtlBalancedAvlTree then
      repeatLoop .outOfTurns (deepestTurn links .left) turns rightChild
    else repeatLoop .outOfTurns (deepestTurn links .right) turns leftChild

/-- The statements of `RtlpDeleteAvlTreeNode` behind its loop, where `Node` is not
`DeleteNode`: `DeleteNode` takes the place of `Node`. -/
def replaceNode (links : Links) (node deleteNode : Option Place) : Except Fault Links := do
  let links ← rtlpCopyAvlNodeData links deleteNode node
  let isLeftChild ← rtlIsChild links node .left
  let parent ← rtlParent links deleteNode
  let links ← setChild links parent (if isLeftChild then .left else .right) deleteNode
  let leftChild ← rtlChild links deleteNode .left
  let links ← adoptChild links leftChild deleteNode
  let rightChild ← rtlChild links deleteNode .right
  adoptChild links rightChild deleteNode

/-- The statements of `RtlpDeleteAvlTreeNode` from the choice of `DeleteNode` to the end of
its loop: the links and the depth. `Node1` and `Node2` point to child pointers, of `DeleteNode`
and of its parent. -/
def unlinkNode (turns : Nat) (links : Links) (depthOfTree : Nat) (deleteNode : Option Place) :
    Except Fault (Links × Nat) := do
  let parentNode ← rtlParent links deleteNode
  let leftChild ← rtlChild links deleteNode .left
  let node₁ : Side := if leftChild ≠ none then .left else .right
  let isLeftChild ← rtlIsChild links deleteNode .left
  let node₂ : Side := if isLeftChild then .left else .right
  let balance := if isLeftChild then rtlLeftHeavyAvlTree else rtlRightHeavyAvlTree
  let child ← rtlChild links deleteNode node₁
  let links ← setChild links parentNode node₂ child
  let child ← rtlChild links deleteNode node₁
  let links ← adoptChild links child parentNode
  let links ← rtlSetBalance links (some .balancedRoot) rtlBalancedAvlTree
  repeatLoop .outOfTurns deleteTurn turns { links, depthOfTree, parentNode, balance }

/-- `RtlpDeleteAvlTreeNode`. -/
def rtlpDeleteAvlTreeNode (turns : Nat) (table : AvlTable Item) (node : Option Place) :
    Except Fault (AvlTable Item) := do
  let deleteNode ← chooseDeleteNode turns table.links node
  let (links, depthOfTree) ← unlinkNode turns table.links table.depthOfTree deleteNode
  if node = deleteNode then pure { table with links, depthOfTree }
  else
    let links ← replaceNode links node deleteNode
    pure { table with links, depthOfTree }

/-! ### The routines of the table -/

/-- A block as `AllocateRoutine` returns it, with whatever its memory holds. -/
structure Block where
  address : Address
  links : BalancedLinks

/-- `AllocateRoutine`: for a table and a size it returns NULL or a block that is not in use. -/
structure AllocateRoutine (Item : Type) where
  allocate : AvlTable Item → Nat → Option Block
  fresh : ∀ table byteSize block, allocate table byteSize = some block →
    table.links (.item block.address) = none ∧ table.data block.address = none

/-- `FreeRoutine`: the block is not mapped any more. -/
def freeRoutine (table : AvlTable Item) (pointer : Option Place) : AvlTable Item :=
  match pointer with
  | some (.item address) =>
    { table with
      links := Function.update table.links (.item address) none
      data := Function.update table.data address none }
  | _ => table

/-- `FIELD_OFFSET(TABLE_ENTRY_HEADER, UserData)`. -/
def fieldOffsetUserData : Nat := 32

/-! ### The calls -/

/-- `RtlZeroMemory(x, sizeof(RTL_BALANCED_LINKS))`. -/
def zeroLinks : BalancedLinks :=
  { parent := none, leftChild := none, rightChild := none, balance := 0 }

/-- `RtlInitializeGenericTableAvl`, on a table that owns no node yet. -/
def rtlInitializeGenericTableAvl : AvlTable Item where
  links := Function.update (fun _ => none) .balancedRoot
    (some { zeroLinks with parent := some .balancedRoot })
  data := fun _ => none
  orderedPointer := none
  whichOrderedElement := 0
  numberGenericTableElements := 0
  depthOfTree := 0
  restartKey := none
  deleteCount := 0

/-- What an insertion returns, as the place of the node, and what it writes through
`NewElement` where that is not NULL. -/
structure InsertResult where
  element : Option Place
  newElement : Bool
  deriving DecidableEq

/-- `RtlInsertElementGenericTableFullAvl`. -/
def rtlInsertElementGenericTableFullAvl (turns : Nat) (allocateRoutine : AllocateRoutine Item)
    (table : AvlTable Item) (buffer : Item) (bufferSize : Nat) (nodeOrParent : Option Place)
    (searchResult : TableSearchResult) : Except Fault (InsertResult × AvlTable Item) :=
  if searchResult ≠ .foundNode then
    match allocateRoutine.allocate table ((bufferSize + fieldOffsetUserData) % 2 ^ 32) with
    | none => pure ({ element := none, newElement := false }, table)
    | some block => do
      let newNode : Option Place := some (.item block.address)
      let links := Function.update table.links (.item block.address) (some block.links)
      let links ← write links newNode fun _ => zeroLinks
      let table ← rtlpInsertAvlTreeNode turns { table with links } newNode nodeOrParent searchResult
      let data := Function.update table.data block.address (some buffer)
      pure ({ element := newNode, newElement := true }, { table with data })
  else pure ({ element := nodeOrParent, newElement := false }, table)

/-- `RtlInsertElementGenericTableAvl`. -/
def rtlInsertElementGenericTableAvl (compareRoutine : Item → Item → GenericCompareResults)
    (turns : Nat) (allocateRoutine : AllocateRoutine Item) (table : AvlTable Item)
    (buffer : Item) (bufferSize : Nat) : Except Fault (InsertResult × AvlTable Item) := do
  let (result, nodeOrParent) ← rtlpFindAvlTableNodeOrParent compareRoutine turns table buffer none
  rtlInsertElementGenericTableFullAvl turns allocateRoutine table buffer bufferSize nodeOrParent
    result

/-- `RtlIsGenericTableEmptyAvl`. -/
def rtlIsGenericTableEmptyAvl (table : AvlTable Item) : Bool :=
  table.numberGenericTableElements = 0

/-- What `RtlLookupElementGenericTableFullAvl` returns, with `*NodeOrParent` and
`*SearchResult`. -/
structure LookupResult where
  element : Option Place
  nodeOrParent : Option Place
  searchResult : TableSearchResult
  deriving DecidableEq

/-- `RtlLookupElementGenericTableFullAvl`, for the value of `*NodeOrParent` before it. -/
def rtlLookupElementGenericTableFullAvl (compareRoutine : Item → Item → GenericCompareResults)
    (turns : Nat) (table : AvlTable Item) (buffer : Item) (nodeOrParent : Option Place) :
    Except Fault LookupResult := do
  let (searchResult, nodeOrParent) ←
    rtlpFindAvlTableNodeOrParent compareRoutine turns table buffer nodeOrParent
  if searchResult ≠ .foundNode then pure { element := none, nodeOrParent, searchResult }
  else pure { element := nodeOrParent, nodeOrParent, searchResult }

/-- `RtlLookupElementGenericTableAvl`. Its local `NodeOrParent` is read only where the search
has written it. -/
def rtlLookupElementGenericTableAvl (compareRoutine : Item → Item → GenericCompareResults)
    (turns : Nat) (table : AvlTable Item) (buffer : Item) : Except Fault (Option Place) := do
  let result ← rtlLookupElementGenericTableFullAvl compareRoutine turns table buffer none
  pure result.element

/-- `RtlEnumerateGenericTableWithoutSplayingAvl`: what it returns, and `*RestartKey`. -/
def rtlEnumerateGenericTableWithoutSplayingAvl (turns : Nat) (table : AvlTable Item)
    (restartKey : Option Place) : Except Fault (Option Place × Option Place) :=
  if rtlIsGenericTableEmptyAvl table then pure (none, restartKey)
  else if restartKey = none then do
    let currentNode ← rtlChild table.links (some .balancedRoot) .right
    let currentNode ← repeatLoop .outOfTurns (deepestTurn table.links .left) turns currentNode
    pure (currentNode, currentNode)
  else do
    let currentNode ← rtlRealSuccessor turns table.links restartKey
    if currentNode ≠ none then pure (currentNode, currentNode) else pure (none, restartKey)

/-- `RtlEnumerateGenericTableAvl`. -/
def rtlEnumerateGenericTableAvl (turns : Nat) (table : AvlTable Item) (restart : Bool) :
    Except Fault (Option Place × AvlTable Item) := do
  let restartKey := if restart then none else table.restartKey
  let (element, restartKey) ← rtlEnumerateGenericTableWithoutSplayingAvl turns table restartKey
  pure (element, { table with restartKey })

/-- `RtlDeleteElementGenericTableAvlEx`. -/
def rtlDeleteElementGenericTableAvlEx (turns : Nat) (table : AvlTable Item)
    (node : Option Place) : Except Fault (Bool × AvlTable Item) := do
  let restartKey ← if node = table.restartKey then rtlRealPredecessor turns table.links node
    else pure table.restartKey
  let table := { table with restartKey, deleteCount := (table.deleteCount + 1) % 2 ^ 32 }
  let table ← rtlpDeleteAvlTreeNode turns table node
  let table := { table with
    numberGenericTableElements := decrement table.numberGenericTableElements
    whichOrderedElement := 0
    orderedPointer := none }
  pure (true, freeRoutine table node)

/-- `RtlDeleteElementGenericTableAvl`. Behind the search it has the statements of
`RtlDeleteElementGenericTableAvlEx`. -/
def rtlDeleteElementGenericTableAvl (compareRoutine : Item → Item → GenericCompareResults)
    (turns : Nat) (table : AvlTable Item) (buffer : Item) :
    Except Fault (Bool × AvlTable Item) := do
  let (searchResult, node) ← rtlpFindAvlTableNodeOrParent compareRoutine turns table buffer none
  if searchResult ≠ .foundNode then pure (false, table)
  else rtlDeleteElementGenericTableAvlEx turns table node

end Nloader.Avl
