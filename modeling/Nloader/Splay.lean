/-
This file models `libs/ntdll/splay.c`: the generic tables of the runtime library, a splay
tree and a list in order of insertion over the same blocks of memory.

A table owns the memory of its elements. An element is a block with three parts: the links
of the tree, the entry of the list and the data of the caller. The model keeps the three
parts in three maps, next to the list head that is part of the table and to the links
`next` that `splay` keeps on its stack. A pointer is an option, and every dereference of it
looks it up: NULL and an address that holds no block each stop with a fault, and so does
every `abort()`.

The left and the right branch of `splay`, and those of an insertion, are mirror images of
each other; they are one definition over the side.
-/

import Nloader.Library.Outcome
import Nloader.Library.TreePath

namespace Nloader.Splay

open Outcome TreePath

/-! ### Pointers and memory -/

/-- The address of the block of an element. -/
abbrev Address : Type := Nat

/-- The places of `RTL_SPLAY_LINKS`: the local variable `next` of `splay`, and the elements. -/
inductive Place where
  | next
  | item (address : Address)
  deriving DecidableEq

/-- `RTL_SPLAY_LINKS`. -/
structure SplayLinks where
  parent : Option Place
  leftChild : Option Place
  rightChild : Option Place
  deriving DecidableEq

/-- The places of `LIST_ENTRY`: the head in the table, and the elements. -/
inductive EntryPlace where
  | insertOrderList
  | item (address : Address)
  deriving DecidableEq

/-- `LIST_ENTRY`. -/
structure ListEntry where
  flink : Option EntryPlace
  blink : Option EntryPlace
  deriving DecidableEq

/-- The values of `RTL_GENERIC_COMPARE_RESULTS`, and any other value a routine may return. -/
inductive GenericCompareResults where
  | lessThan
  | greaterThan
  | equal
  | other
  deriving DecidableEq

/-- The ways a call may stop before it returns. -/
inductive Fault where
  | nullDereference
  | badAddress
  | abort
  | outOfTurns
  deriving DecidableEq

/-- `RTL_GENERIC_TABLE`, with the memory of its elements. The routines of the table are
parameters of the calls. -/
structure GenericTable (Item : Type) where
  links : Place → Option SplayLinks
  entries : EntryPlace → Option ListEntry
  data : Address → Option Item
  tableRoot : Option Place
  orderedPointer : Option EntryPlace
  whichOrderedElement : Nat
  numberGenericTableElements : Nat

variable {Item Location Cell : Type}

/-- `*pointer`. -/
def deref (memory : Location → Option Cell) : Option Location → Except Fault Cell
  | none => throw .nullDereference
  | some location =>
    match memory location with
    | some cell => pure cell
    | none => throw .badAddress

/-- A store through `pointer` that changes what it points to. -/
def write [DecidableEq Location] (memory : Location → Option Cell) (pointer : Option Location)
    (change : Cell → Cell) : Except Fault (Location → Option Cell) :=
  match pointer with
  | none => throw .nullDereference
  | some location =>
    match memory location with
    | some cell => pure (Function.update memory location (some (change cell)))
    | none => throw .badAddress

/-- `treeitem_to_itemdata`, as the address of the block. -/
def treeitemToItemdata : Option Place → Option Address
  | some (.item address) => some address
  | _ => none

/-- `treeentry_to_itemdata`, as the address of the block. -/
def treeentryToItemdata : Option EntryPlace → Option Address
  | some (.item address) => some address
  | _ => none

/-- `treeitem_to_entry`. -/
def treeitemToEntry : Option Place → Option EntryPlace
  | some (.item address) => some (.item address)
  | _ => none

/-- The data behind `treeitem_to_itemdata(pointer)`. -/
def itemdata (data : Address → Option Item) (pointer : Option Place) : Except Fault Item :=
  deref data (treeitemToItemdata pointer)

/-! ### Links -/

/-- The memory of the links. -/
abbrev Links : Type := Place → Option SplayLinks

/-- `LeftChild` or `RightChild`. -/
def SplayLinks.child (links : SplayLinks) : Side → Option Place
  | .left => links.leftChild
  | .right => links.rightChild

/-- The links with one child replaced. -/
def SplayLinks.withChild (links : SplayLinks) (value : Option Place) : Side → SplayLinks
  | .left => { links with leftChild := value }
  | .right => { links with rightChild := value }

/-- `pointer->LeftChild` or `pointer->RightChild`. -/
def child (links : Links) (pointer : Option Place) (side : Side) :
    Except Fault (Option Place) := do
  let cell ← deref links pointer
  pure (cell.child side)

/-- `pointer->LeftChild = value` or `pointer->RightChild = value`. -/
def setChild (links : Links) (pointer : Option Place) (side : Side) (value : Option Place) :
    Except Fault Links :=
  write links pointer (fun cell => cell.withChild value side)

/-- `pointer->Parent = value`. -/
def setParent (links : Links) (pointer value : Option Place) : Except Fault Links :=
  write links pointer (fun cell => { cell with parent := value })

/-- `if (pointer) pointer->Parent = value`. -/
def adopt (links : Links) (pointer value : Option Place) : Except Fault Links :=
  if pointer = none then pure links else setParent links pointer value

/-! ### The loop of `splay` -/

/-- The variables of the loop: `root`, `left` and `right`, and the links they change. -/
structure Cursor where
  links : Links
  root : Option Place
  left : Option Place
  right : Option Place

/-- `left` or `right`. -/
def Cursor.tail (cursor : Cursor) : Side → Option Place
  | .left => cursor.left
  | .right => cursor.right

/-- The cursor with `left` or `right` replaced. -/
def Cursor.withTail (cursor : Cursor) (value : Option Place) : Side → Cursor
  | .left => { cursor with left := value }
  | .right => { cursor with right := value }

/-- The result of the comparison that leads to a side. -/
def towards : Side → GenericCompareResults
  | .left => .lessThan
  | .right => .greaterThan

/-- The end of a branch. To the left: `right->LeftChild = root; root->Parent = right;
right = root; root = root->LeftChild;`. -/
def linkBranch (side : Side) (cursor : Cursor) : Except Fault Cursor := do
  let tail := cursor.tail side.other
  let links ← setChild cursor.links tail side cursor.root
  let links ← setParent links cursor.root tail
  let root ← child links cursor.root side
  pure { cursor.withTail cursor.root side.other with links, root }

/-- The rotation of a branch. To the left: `temp = root->LeftChild; root->LeftChild =
temp->RightChild; if (temp->RightChild) temp->RightChild->Parent = root; temp->RightChild =
root; root->Parent = temp; root = temp;`. -/
def rotateBranch (side : Side) (cursor : Cursor) : Except Fault Cursor := do
  let temp ← child cursor.links cursor.root side
  let inner ← child cursor.links temp side.other
  let links ← setChild cursor.links cursor.root side inner
  let inner ← child links temp side.other
  let links ← adopt links inner cursor.root
  let links ← setChild links temp side.other cursor.root
  let links ← setParent links cursor.root temp
  pure { cursor with links, root := temp }

/-- The left branch or the right branch: one turn of the loop that goes to one side, or
leaves with what `ret` holds. -/
def branch (compareRoutine : Item → Item → GenericCompareResults) (data : Address → Option Item)
    (item : Item) (side : Side) (cursor : Cursor) :
    Except Fault (Turn Cursor (Bool × Cursor)) := do
  let near ← child cursor.links cursor.root side
  if near = none then pure (.leave (false, cursor))
  else
    let nearData ← itemdata data near
    if compareRoutine item nearData = towards side then
      let cursor ← rotateBranch side cursor
      let near ← child cursor.links cursor.root side
      if near = none then pure (.leave (false, cursor))
      else
        let cursor ← linkBranch side cursor
        pure (.again cursor)
    else
      let cursor ← linkBranch side cursor
      pure (.again cursor)

/-- The body of `for (;;)`. -/
def splayTurn (compareRoutine : Item → Item → GenericCompareResults)
    (data : Address → Option Item) (item : Item) (cursor : Cursor) :
    Except Fault (Turn Cursor (Bool × Cursor)) := do
  let rootData ← itemdata data cursor.root
  match compareRoutine item rootData with
  | .lessThan => branch compareRoutine data item .left cursor
  | .greaterThan => branch compareRoutine data item .right cursor
  | .equal => pure (.leave (true, cursor))
  | .other => throw .abort

/-- `left->RightChild = root->LeftChild; if (root->LeftChild) root->LeftChild->Parent = left;`
for the left side, and its mirror image. -/
def closeSpine (side : Side) (cursor : Cursor) : Except Fault Cursor := do
  let near ← child cursor.links cursor.root side
  let links ← setChild cursor.links (cursor.tail side) side.other near
  let near ← child links cursor.root side
  let links ← adopt links near (cursor.tail side)
  pure { cursor with links }

/-- `root->LeftChild = next.RightChild; if (next.RightChild) next.RightChild->Parent = root;`
for the left side, and its mirror image. -/
def takeSpine (side : Side) (cursor : Cursor) : Except Fault Cursor := do
  let spine ← child cursor.links (some .next) side.other
  let links ← setChild cursor.links cursor.root side spine
  let spine ← child links (some .next) side.other
  let links ← adopt links spine cursor.root
  pure { cursor with links }

/-- The statements of `splay` behind its loop, up to `root->Parent = NULL`. -/
def reassemble (cursor : Cursor) : Except Fault Links := do
  let cursor ← closeSpine .left cursor
  let cursor ← closeSpine .right cursor
  let cursor ← takeSpine .left cursor
  let cursor ← takeSpine .right cursor
  setParent cursor.links cursor.root none

/-- `splay`. The loop is cut off after `turns` turns; the result is `ret`. -/
def splay (compareRoutine : Item → Item → GenericCompareResults) (turns : Nat)
    (table : GenericTable Item) (item : Item) : Except Fault (Bool × GenericTable Item) :=
  if table.tableRoot = none then pure (false, table)
  else do
    let next := { parent := none, leftChild := none, rightChild := none }
    let (ret, cursor) ← repeatLoop .outOfTurns (splayTurn compareRoutine table.data item) turns
      { links := Function.update table.links .next (some next)
        root := table.tableRoot
        left := some .next
        right := some .next }
    let links ← reassemble cursor
    pure (ret, { table with
      links := Function.update links .next none
      tableRoot := cursor.root })

/-! ### The routines of the table -/

/-- A block as `AllocateRoutine` returns it, with whatever its memory holds. -/
structure Block where
  address : Address
  links : SplayLinks
  entry : ListEntry

/-- `AllocateRoutine`: for a table and a size it returns NULL or a block that is not in use. -/
structure AllocateRoutine (Item : Type) where
  allocate : GenericTable Item → Nat → Option Block
  fresh : ∀ table byteSize block, allocate table byteSize = some block →
    table.links (.item block.address) = none ∧ table.entries (.item block.address) = none ∧
      table.data block.address = none

/-- `sizeof(struct item_header)`. -/
def sizeofItemHeader : Nat := 40

/-! ### The calls -/

/-- `InitializeListHead(&Table->InsertOrderList)`. -/
def initializeListHead (entries : EntryPlace → Option ListEntry) :
    EntryPlace → Option ListEntry :=
  Function.update entries .insertOrderList
    (some { flink := some .insertOrderList, blink := some .insertOrderList })

/-- `RtlInitializeGenericTable`, on a table that owns no element yet. -/
def rtlInitializeGenericTable : GenericTable Item where
  links := fun _ => none
  entries := initializeListHead (fun _ => none)
  data := fun _ => none
  tableRoot := none
  orderedPointer := some .insertOrderList
  whichOrderedElement := 0
  numberGenericTableElements := 0

/-- What `RtlInsertElementGenericTable` returns, as the address of the block, and what it
writes through `NewElement` where that is not NULL. -/
structure InsertResult where
  element : Option Address
  newElement : Option Bool
  deriving DecidableEq

/-- The new element over the old root. Where it is less: `tree_item->LeftChild =
root_item->LeftChild; tree_item->RightChild = root_item; root_item->LeftChild = NULL;
tree_item->Parent = NULL; root_item->Parent = tree_item;`. -/
def insertAbove (side : Side) (links : Links) (treeItem rootItem : Option Place) :
    Except Fault Links := do
  let near ← child links rootItem side
  let links ← setChild links treeItem side near
  let links ← setChild links treeItem side.other rootItem
  let links ← setChild links rootItem side none
  let links ← setParent links treeItem none
  setParent links rootItem treeItem

/-- The links of the tree with the new element as root. -/
def insertLinks (compareRoutine : Item → Item → GenericCompareResults)
    (data : Address → Option Item) (links : Links) (treeItem rootItem : Option Place) :
    Except Fault Links := do
  if rootItem = none then
    let links ← setChild links treeItem .right none
    setChild links treeItem .left none
  else
    let itemData ← itemdata data treeItem
    let rootData ← itemdata data rootItem
    match compareRoutine itemData rootData with
    | .lessThan => insertAbove .left links treeItem rootItem
    | .greaterThan => insertAbove .right links treeItem rootItem
    | _ => throw .abort

/-- The entry of the new element at the end of the list. -/
def insertEntry (number : Nat) (entries : EntryPlace → Option ListEntry)
    (itemEntry : Option EntryPlace) : Except Fault (EntryPlace → Option ListEntry) := do
  let rootEntry : Option EntryPlace := some .insertOrderList
  let root ← deref entries rootEntry
  if root.blink = rootEntry then
    if number ≠ 0 then throw .abort
    let entries ← write entries rootEntry
      (fun _ => { flink := itemEntry, blink := itemEntry })
    write entries itemEntry (fun _ => { flink := rootEntry, blink := rootEntry })
  else
    if number = 0 then throw .abort
    let entries ← write entries itemEntry (fun entry => { entry with blink := root.blink })
    let item ← deref entries itemEntry
    let entries ← write entries item.blink (fun entry => { entry with flink := itemEntry })
    let entries ← write entries rootEntry (fun entry => { entry with blink := itemEntry })
    write entries itemEntry (fun entry => { entry with flink := rootEntry })

/-- The part of `RtlInsertElementGenericTable` behind the call of `AllocateRoutine`, for a
table whose tree has been splayed. -/
def insertBlock (compareRoutine : Item → Item → GenericCompareResults)
    (table : GenericTable Item) (buffer : Item) (block : Block) :
    Except Fault (InsertResult × GenericTable Item) := do
  let data := Function.update table.data block.address (some buffer)
  let links ← insertLinks compareRoutine data
    (Function.update table.links (.item block.address) (some block.links))
    (some (.item block.address)) table.tableRoot
  let entries ← insertEntry table.numberGenericTableElements
    (Function.update table.entries (.item block.address) (some block.entry))
    (some (.item block.address))
  pure ({ element := some block.address, newElement := some true },
    { links, entries, data
      tableRoot := some (.item block.address)
      orderedPointer := some .insertOrderList
      whichOrderedElement := 0
      numberGenericTableElements := (table.numberGenericTableElements + 1) % 2 ^ 32 })

/-- `RtlInsertElementGenericTable`. -/
def rtlInsertElementGenericTable (compareRoutine : Item → Item → GenericCompareResults)
    (turns : Nat) (allocateRoutine : AllocateRoutine Item) (table : GenericTable Item)
    (buffer : Item) (bufferSize : Nat) : Except Fault (InsertResult × GenericTable Item) := do
  let (found, table) ← splay compareRoutine turns table buffer
  if found then
    pure ({ element := treeitemToItemdata table.tableRoot, newElement := some false }, table)
  else
    match allocateRoutine.allocate table ((bufferSize + sizeofItemHeader) % 2 ^ 32) with
    | none => pure ({ element := none, newElement := none }, table)
    | some block => insertBlock compareRoutine table buffer block

/-- `RtlLookupElementGenericTable`. -/
def rtlLookupElementGenericTable (compareRoutine : Item → Item → GenericCompareResults)
    (turns : Nat) (table : GenericTable Item) (buffer : Item) :
    Except Fault (Option Address × GenericTable Item) := do
  let (found, table) ← splay compareRoutine turns table buffer
  if found then pure (treeitemToItemdata table.tableRoot, table)
  else pure (none, table)

/-- The tree of a table without its root, which stays linked to its right child. -/
def deleteRoot (compareRoutine : Item → Item → GenericCompareResults) (turns : Nat)
    (table : GenericTable Item) : Except Fault (GenericTable Item) := do
  let delItem := table.tableRoot
  let near ← child table.links delItem .left
  if near = none then
    let root ← child table.links delItem .right
    let links ← setParent table.links root none
    pure { table with links, tableRoot := root }
  else
    let delData ← itemdata table.data delItem
    let (duplicate, table) ← splay compareRoutine turns { table with tableRoot := near } delData
    if duplicate then throw .abort
    let right ← child table.links delItem .right
    let links ← setChild table.links table.tableRoot .right right
    let right ← child links delItem .right
    let links ← setParent links right table.tableRoot
    pure { table with links }

/-- The list without an entry, for the number of elements left. -/
def deleteEntry (number : Nat) (entries : EntryPlace → Option ListEntry)
    (delEntry : Option EntryPlace) : Except Fault (EntryPlace → Option ListEntry) := do
  if number = 0 then pure (initializeListHead entries)
  else
    let entry ← deref entries delEntry
    let entries ← write entries entry.blink (fun other => { other with flink := entry.flink })
    let entry ← deref entries delEntry
    write entries entry.flink (fun other => { other with blink := entry.blink })

/-- `FreeRoutine`: the block is not mapped any more. -/
def freeRoutine (table : GenericTable Item) (pointer : Option Place) : GenericTable Item :=
  match pointer with
  | some (.item address) =>
    { table with
      links := Function.update table.links (.item address) none
      entries := Function.update table.entries (.item address) none
      data := Function.update table.data address none }
  | _ => table

/-- `counter--`, in 32 bits. -/
@[irreducible] def decrement (counter : Nat) : Nat := (counter + 2 ^ 32 - 1) % 2 ^ 32

/-- `RtlDeleteElementGenericTable`. -/
def rtlDeleteElementGenericTable (compareRoutine : Item → Item → GenericCompareResults)
    (turns : Nat) (table : GenericTable Item) (buffer : Item) :
    Except Fault (Bool × GenericTable Item) := do
  let (found, table) ← splay compareRoutine turns table buffer
  if found = false then pure (false, table)
  else
    let delItem := table.tableRoot
    let table ← deleteRoot compareRoutine turns table
    let number := decrement table.numberGenericTableElements
    let entries ← deleteEntry number table.entries (treeitemToEntry delItem)
    let table := freeRoutine { table with entries, numberGenericTableElements := number } delItem
    pure (true, { table with
      whichOrderedElement := 0, orderedPointer := some .insertOrderList })

/-- `RtlEnumerateGenericTableWithoutSplaying`: the element returned, and `*RestartKey`. -/
def rtlEnumerateGenericTableWithoutSplaying (table : GenericTable Item)
    (restartKey : Option EntryPlace) : Except Fault (Option Address × Option EntryPlace) := do
  let entry : Option EntryPlace := if restartKey = none then some .insertOrderList else restartKey
  let entry ← deref table.entries entry
  if entry.flink = some .insertOrderList then pure (none, restartKey)
  else pure (treeentryToItemdata entry.flink, entry.flink)

end Nloader.Splay
