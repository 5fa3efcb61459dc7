/-
This file states what a generic table holds, and what each of its calls does to that. A
table holds a list of elements, in the order of their first insertion: its tree is a search
tree of these elements, its list links them in this order, its blocks are theirs and its
count is their number. What the calls are to do is stated on the list of elements alone.
-/

import Nloader.Library.PointerRing
import Nloader.SplayTree

namespace Nloader.Splay

open Outcome TreePath PointerTree PointerRing

variable {Item Key : Type} [LinearOrder Key]

/-! ### What a table holds -/

/-- Where the entry of an element lies. -/
def Element.entry (element : Element Item) : EntryPlace := .item element.address

/-- The two pointers of the entries in memory. -/
def entryPointers (entries : EntryPlace → Option ListEntry) : Pointers EntryPlace where
  forward := fun place => (entries place).map ListEntry.flink
  backward := fun place => (entries place).map ListEntry.blink

omit [LinearOrder Key] in
theorem forward_eq (entries : EntryPlace → Option ListEntry) (place : EntryPlace) :
    (entryPointers entries).forward place = (entries place).map ListEntry.flink := rfl

omit [LinearOrder Key] in
theorem backward_eq (entries : EntryPlace → Option ListEntry) (place : EntryPlace) :
    (entryPointers entries).backward place = (entries place).map ListEntry.blink := rfl

/-- The tree of a table: a search tree in memory, whose elements have blocks of their own. -/
structure TreeHolds (key : Item → Key) (table : GenericTable Item)
    (tree : BinaryTree (Element Item)) : Prop where
  root : table.tableRoot = pointer Element.place tree
  represents : Represents Element.place (childrenOf table.links) tree
  search : SearchTree (elementKey key) tree

/-- What a table holds, for the list of its elements in the order of their first insertion. -/
structure TableHolds (key : Item → Key) (table : GenericTable Item)
    (elements : List (Element Item)) : Prop where
  tree : ∃ tree, TreeHolds key table tree ∧ (inorder tree).Perm elements
  list : Linked (entryPointers table.entries) .insertOrderList (elements.map Element.entry)
  nodup : (elements.map Element.address).Nodup
  blocks : ∀ address item, table.data address = some item ↔ ⟨address, item⟩ ∈ elements
  number : table.numberGenericTableElements = elements.length % 2 ^ 32
  room : elements.length ≤ 2 ^ 32

omit [LinearOrder Key] in
theorem nodup_places {elements : List (Element Item)}
    (nodup : (elements.map Element.address).Nodup) : (elements.map Element.place).Nodup := by
  have injective : Function.Injective Place.item := fun _ _ same => Place.item.inj same
  have mapped := List.Nodup.map injective nodup
  rwa [List.map_map] at mapped

omit [LinearOrder Key] in
theorem nodup_entries {elements : List (Element Item)}
    (nodup : (elements.map Element.address).Nodup) :
    (EntryPlace.insertOrderList :: elements.map Element.entry).Nodup := by
  have injective : Function.Injective EntryPlace.item := fun _ _ same => EntryPlace.item.inj same
  have mapped := List.Nodup.map injective nodup
  rw [List.map_map] at mapped
  refine List.nodup_cons.mpr ⟨fun member => ?_, mapped⟩
  obtain ⟨element, _, same⟩ := List.mem_map.mp member
  cases same

/-- The elements of the tree, from left to right, are ordered. -/
theorem TableHolds.ordered {key : Item → Key} {table : GenericTable Item}
    {elements : List (Element Item)} (holds : TableHolds key table elements)
    {tree : BinaryTree (Element Item)} (treeHolds : TreeHolds key table tree)
    (perm : (inorder tree).Perm elements) : Ordered key table.data (inorder tree) := by
  refine ⟨fun element member => ?_, (searchTree_iff_sorted _ _).mp treeHolds.search, ?_, ?_⟩
  · exact (holds.blocks element.address element.item).mpr (perm.mem_iff.mp member)
  · exact ((perm.map Element.place).nodup_iff).mpr (nodup_places holds.nodup)
  · exact fun element _ => element.place_ne_next

/-- Another tree of the same elements. -/
theorem TableHolds.reroot {key : Item → Key} {table : GenericTable Item}
    {elements : List (Element Item)} (holds : TableHolds key table elements) {links : Links}
    {root : Option Place} {tree : BinaryTree (Element Item)}
    (treeHolds : TreeHolds key { table with links, tableRoot := root } tree)
    (perm : (inorder tree).Perm elements) :
    TableHolds key { table with links, tableRoot := root } elements :=
  { holds with tree := ⟨tree, treeHolds, perm⟩ }

/-- The table of `RtlInitializeGenericTable` holds no element. -/
theorem initialize_holds (key : Item → Key) :
    TableHolds key rtlInitializeGenericTable ([] : List (Element Item)) where
  tree := ⟨.nil, ⟨rfl, trivial, trivial⟩, List.Perm.nil⟩
  list := ⟨rfl, rfl⟩
  nodup := List.nodup_nil
  blocks := fun _ _ => iff_of_false nofun nofun
  number := rfl
  room := Nat.zero_le _

/-! ### `splay` on a table -/

section Calls

variable {key : Item → Key} {compareRoutine : Item → Item → GenericCompareResults}
  {table : GenericTable Item} {elements : List (Element Item)} {turns : Nat}

/-- `splay` keeps what a table holds. The root is the element with the key of the item where
it returns that, and otherwise parts the elements around the item. -/
theorem splay_table (orders : Orders key compareRoutine) (holds : TableHolds key table elements)
    (enough : elements.length < turns) (item : Item) :
    (elements = [] ∧ table.tableRoot = none ∧
      splay compareRoutine turns table item = .ok (false, table)) ∨
    ∃ links left element right before,
      splay compareRoutine turns table item =
        .ok (compareRoutine item element.item = .equal,
          { table with links, tableRoot := some element.place }) ∧
      TreeHolds key { table with links, tableRoot := some element.place }
        (.node element left right) ∧
      (inorder (.node element left right)).Perm elements ∧
      Splayed key item before left element right := by
  obtain ⟨tree, treeHolds, perm⟩ := holds.tree
  by_cases empty : tree = .nil
  · subst empty
    exact .inl ⟨(List.nil_perm.mp perm), treeHolds.root, splay_empty treeHolds.root item⟩
  · have ordered := holds.ordered treeHolds perm
    have size : tree.numNodes < turns := by
      rw [← length_inorder, perm.length_eq]
      exact enough
    obtain ⟨links, left, element, right, ran, represents, splayed, _⟩ :=
      splay_holds orders empty treeHolds.root treeHolds.represents ordered size item
    refine .inr ⟨links, left, element, right, inorder tree, ran, ⟨rfl, represents, ?_⟩, ?_,
      splayed⟩
    · rw [searchTree_iff_sorted, splayed.same]
      exact ordered.sorted
    · rw [splayed.same]
      exact perm

/-- The root that `splay` has not found the item at leaves no element with its key. -/
theorem Splayed.absent {item : Item} {before : List (Element Item)}
    {left right : BinaryTree (Element Item)} {element : Element Item}
    (splayed : Splayed key item before left element right)
    (perm : (inorder (.node element left right)).Perm elements)
    (differs : key element.item ≠ key item) :
    ∀ other ∈ elements, key other.item ≠ key item := by
  intro other member
  rw [← perm.mem_iff, inorder, List.mem_append, List.mem_cons] at member
  rcases member with below | rfl | above
  · exact ne_of_lt (splayed.below other below)
  · exact differs
  · exact (ne_of_lt (splayed.above other above)).symm

theorem mem_root {left right : BinaryTree (Element Item)} {element : Element Item}
    (perm : (inorder (.node element left right)).Perm elements) : element ∈ elements :=
  perm.mem_iff.mp (List.mem_append_right _ List.mem_cons_self)

/-! ### Lookup -/

/-- What a lookup is to return: the element with the key, if there is one. -/
inductive LookupSpec (key : Item → Key) (elements : List (Element Item)) (buffer : Item) :
    Option Address → Prop
  | found (element : Element Item) (member : element ∈ elements)
      (same : key element.item = key buffer) : LookupSpec key elements buffer element.address
  | absent (absent : ∀ element ∈ elements, key element.item ≠ key buffer) :
      LookupSpec key elements buffer none

theorem lookup_holds (orders : Orders key compareRoutine) (holds : TableHolds key table elements)
    (enough : elements.length < turns) (buffer : Item) :
    ∃ result table', rtlLookupElementGenericTable compareRoutine turns table buffer =
        .ok (result, table') ∧
      TableHolds key table' elements ∧ LookupSpec key elements buffer result := by
  rcases splay_table orders holds enough buffer with
    ⟨empty, _, ran⟩ | ⟨links, left, element, right, before, ran, treeHolds, perm, splayed⟩
  · refine ⟨none, table, ?_, holds, .absent fun element member => ?_⟩
    · rw [rtlLookupElementGenericTable, ran]
      rfl
    · rw [empty] at member
      cases member
  · by_cases found : compareRoutine buffer element.item = .equal
    · refine ⟨some element.address, _, ?_, holds.reroot treeHolds perm,
        .found element (mem_root perm) ((orders.equal _ _).mp found).symm⟩
      rw [rtlLookupElementGenericTable, ran, ok_bind]
      simp only [found, decide_true, if_true]
      rfl
    · refine ⟨none, _, ?_, holds.reroot treeHolds perm, .absent (splayed.absent perm ?_)⟩
      · rw [rtlLookupElementGenericTable, ran, ok_bind]
        simp only [found, decide_false, Bool.false_eq_true, if_false]
        rfl
      · exact fun same => found ((orders.equal _ _).mpr same.symm)

/-! ### Insertion -/

/-- What an insertion is to do, for what the allocator returned: the element with the key, if
there is one; nothing, where no memory was granted; a new last element otherwise. -/
inductive InsertSpec (key : Item → Key) (elements : List (Element Item)) (buffer : Item)
    (allocated : Option Address) : InsertResult → List (Element Item) → Prop
  | present (element : Element Item) (member : element ∈ elements)
      (same : key element.item = key buffer) :
      InsertSpec key elements buffer allocated
        { element := some element.address, newElement := some false } elements
  | failed (absent : ∀ element ∈ elements, key element.item ≠ key buffer)
      (failed : allocated = none) :
      InsertSpec key elements buffer allocated { element := none, newElement := none } elements
  | added (address : Address) (absent : ∀ element ∈ elements, key element.item ≠ key buffer)
      (granted : allocated = some address)
      (fresh : ∀ element ∈ elements, element.address ≠ address) :
      InsertSpec key elements buffer allocated
        { element := some address, newElement := some true }
        (elements ++ [{ address, item := buffer }])

/-- The new element over the old root. -/
theorem insertAbove_eq {links : Links} {side : Side} {near far : BinaryTree (Element Item)}
    {root new : Element Item}
    (represents : Represents Element.place (childrenOf links) (join side near root far))
    (mapped : Mapped (childrenOf links) (some new.place))
    (apart : ∀ other ∈ inorder (join side near root far), other.place ≠ new.place)
    (away : ∀ other, other ∈ inorder near ∨ other ∈ inorder far → other.place ≠ root.place) :
    ∃ links', insertAbove side links (some new.place) (some root.place) = .ok links' ∧
      Represents Element.place (childrenOf links')
        (join side near new (join side .nil root far)) := by
  have rootApart : root.place ≠ new.place := apart root (by simp)
  have nearApart : ∀ other ∈ inorder near, other.place ≠ new.place :=
    fun other member => apart other (by simp [member])
  have farApart : ∀ other ∈ inorder far, other.place ≠ new.place :=
    fun other member => apart other (by simp [member])
  rw [represents_join] at represents
  obtain ⟨⟨rootNear, rootFar⟩, nears, fars⟩ := represents
  have rootMapped := mapped_of_child rootNear
  obtain ⟨links₁, first, children₁⟩ :=
    setChild_eq links new.place side (pointer Element.place near) mapped
  obtain ⟨links₂, second, children₂⟩ := setChild_eq links₁ new.place side.other
    (some root.place) (by rw [children₁]; exact mapped.put _ _ _)
  obtain ⟨links₃, third, children₃⟩ := setChild_eq links₂ root.place side none
    (by rw [children₂, children₁]; exact (rootMapped.put _ _ _).put _ _ _)
  have final : childrenOf links₃ = put (put (put (childrenOf links) new.place side
      (pointer Element.place near)) new.place side.other (some root.place)) root.place side
      none := by
    rw [children₃, children₂, children₁]
  obtain ⟨links₄, fourth, children₄⟩ := setParent_eq links₃ new.place none
    (by rw [final]; exact ((mapped.put _ _ _).put _ _ _).put _ _ _)
  obtain ⟨links₅, fifth, children₅⟩ := setParent_eq links₄ root.place (some new.place)
    (by rw [children₄, final]; exact ((rootMapped.put _ _ _).put _ _ _).put _ _ _)
  refine ⟨links₅, ?_, ?_⟩
  · unfold insertAbove
    rw [child_eq rootNear, ok_bind, first, ok_bind, second, ok_bind, third, ok_bind, fourth,
      ok_bind, fifth]
  · rw [children₅, children₄, final, represents_join, represents_join, pointer_join]
    refine ⟨⟨?_, ?_⟩, ?_, ⟨put_same _ _ _ _, ?_⟩, trivial, ?_⟩
    · rw [put_elsewhere rootApart.symm, put_other_side side.ne_other, put_same]
    · rw [put_elsewhere rootApart.symm, put_same]
    · exact ((nears.put _ _ nearApart).put _ _ nearApart).put _ _
        fun other member => away other (.inl member)
    · rw [put_other_side side.other_ne, put_elsewhere rootApart, put_elsewhere rootApart]
      exact rootFar
    · exact ((fars.put _ _ farApart).put _ _ farApart).put _ _
        fun other member => away other (.inr member)

theorem deref_eq {Location Cell : Type} {memory : Location → Option Cell} {location : Location}
    {cell : Cell} (held : memory location = some cell) :
    deref memory (some location) = .ok cell := by
  rw [deref, held]
  rfl

theorem write_eq {Location Cell : Type} [DecidableEq Location]
    {memory : Location → Option Cell} {location : Location} {cell : Cell}
    (held : memory location = some cell) (change : Cell → Cell) :
    write memory (some location) change =
      .ok (Function.update memory location (some (change cell))) := by
  rw [write, held]
  rfl

/-- The entry at a place, from its two pointers. -/
theorem deref_entry {entries : EntryPlace → Option ListEntry} {place : EntryPlace}
    {flink blink : Option EntryPlace}
    (forward : (entryPointers entries).forward place = some flink)
    (backward : (entryPointers entries).backward place = some blink) :
    deref entries (some place) = .ok { flink, blink } := by
  obtain ⟨entry, held, rfl⟩ := Option.map_eq_some_iff.mp forward
  rw [backward_eq, held] at backward
  cases backward
  exact deref_eq held

/-- Writing a forward pointer. -/
theorem setFlink_eq {entries : EntryPlace → Option ListEntry} {place : EntryPlace}
    {old : Option EntryPlace} (held : (entryPointers entries).forward place = some old)
    (value : Option EntryPlace) :
    ∃ entries', write entries (some place) (fun entry => { entry with flink := value }) =
        .ok entries' ∧
      entryPointers entries' =
        { entryPointers entries with
          forward := Function.update (entryPointers entries).forward place (some value) } := by
  obtain ⟨entry, entryHeld, _⟩ := Option.map_eq_some_iff.mp held
  refine ⟨_, write_eq entryHeld _, ?_⟩
  unfold entryPointers
  congr 1 <;> funext other <;> by_cases same : other = place
  · subst same
    rw [Function.update_self, Function.update_self]
    rfl
  · rw [Function.update_of_ne same, Function.update_of_ne same]
  · subst same
    rw [Function.update_self]
    exact (congrArg (Option.map ListEntry.blink) entryHeld).symm
  · rw [Function.update_of_ne same]

/-- Writing a backward pointer. -/
theorem setBlink_eq {entries : EntryPlace → Option ListEntry} {place : EntryPlace}
    {old : Option EntryPlace} (held : (entryPointers entries).backward place = some old)
    (value : Option EntryPlace) :
    ∃ entries', write entries (some place) (fun entry => { entry with blink := value }) =
        .ok entries' ∧
      entryPointers entries' =
        { entryPointers entries with
          backward := Function.update (entryPointers entries).backward place (some value) } := by
  obtain ⟨entry, entryHeld, _⟩ := Option.map_eq_some_iff.mp held
  refine ⟨_, write_eq entryHeld _, ?_⟩
  unfold entryPointers
  congr 1 <;> funext other <;> by_cases same : other = place
  · subst same
    rw [Function.update_self]
    exact (congrArg (Option.map ListEntry.flink) entryHeld).symm
  · rw [Function.update_of_ne same]
  · subst same
    rw [Function.update_self, Function.update_self]
    rfl
  · rw [Function.update_of_ne same, Function.update_of_ne same]

/-- The entry of the new element is linked at the end of the list. -/
theorem insertEntry_eq {entries : EntryPlace → Option ListEntry} {number : Nat}
    {places : List EntryPlace} {new : EntryPlace} {entry : ListEntry}
    (linked : Linked (entryPointers entries) .insertOrderList places)
    (nodup : (EntryPlace.insertOrderList :: (places ++ [new])).Nodup)
    (held : entries new = some entry) (count : number = 0 ↔ places = []) :
    ∃ entries', insertEntry number entries (some new) = .ok entries' ∧
      Linked (entryPointers entries') .insertOrderList (places ++ [new]) := by
  have newHead : new ≠ .insertOrderList := by
    rintro rfl
    exact (List.nodup_cons.mp nodup).1 (List.mem_append_right _ (List.mem_singleton_self _))
  have headForward := linked.forward_before
  have headBackward := linked.backward_after
  have read := deref_entry headForward headBackward
  by_cases empty : places = []
  · subst empty
    obtain ⟨root, rootHeld, _⟩ := Option.map_eq_some_iff.mp headForward
    refine ⟨Function.update (Function.update entries .insertOrderList
      (some { flink := some new, blink := some new })) new
      (some { flink := some .insertOrderList, blink := some .insertOrderList }), ?_, ?_⟩
    · unfold insertEntry
      simp only [read, ok_bind, lastOf, List.getLastD_nil, if_true, count.mpr rfl, ne_eq,
        not_true_eq_false, if_false, write_eq rootHeld]
      exact write_eq (by rw [Function.update_of_ne newHead]; exact held) _
    · simp [Linked, Segment, entryPointers, newHead.symm]
  · have lastMem := lastOf_mem_of_ne_nil EntryPlace.insertOrderList empty
    obtain ⟨old, lastForward⟩ := linked.forward_held _ (List.mem_cons_of_mem _ lastMem)
    have apart := nodup
    rw [← List.cons_append] at apart
    obtain ⟨listNodup, _, newApart⟩ := List.nodup_append.mp apart
    have outside : ∀ other ∈ places, other ≠ new ∧ other ≠ .insertOrderList := by
      intro other member
      refine ⟨newApart other (List.mem_cons_of_mem _ member) new (List.mem_singleton_self _), ?_⟩
      rintro rfl
      exact (List.nodup_cons.mp listNodup).1 member
    generalize lastIs : lastOf EntryPlace.insertOrderList places = last at *
    obtain ⟨lastNew, lastHead⟩ := outside last lastMem
    have newForward : (entryPointers entries).forward new = some entry.flink := by
      rw [forward_eq, held]
      rfl
    have newBackward : (entryPointers entries).backward new = some entry.blink := by
      rw [backward_eq, held]
      rfl
    obtain ⟨entries₁, first, pointers₁⟩ := setBlink_eq newBackward (some last)
    have read₁ : deref entries₁ (some new) = .ok { entry with blink := some last } :=
      deref_entry (by rw [pointers₁]; exact newForward)
        (by rw [pointers₁]; exact Function.update_self _ _ _)
    obtain ⟨entries₂, second, pointers₂⟩ := @setFlink_eq entries₁ last old
      (by rw [pointers₁]; exact lastForward) (some new)
    obtain ⟨entries₃, third, pointers₃⟩ := @setBlink_eq entries₂ .insertOrderList (some last)
      (by
        rw [pointers₂, pointers₁]
        exact (Function.update_of_ne newHead.symm _ _).trans headBackward) (some new)
    obtain ⟨entries₄, fourth, pointers₄⟩ := @setFlink_eq entries₃ new entry.flink
      (by
        rw [pointers₃, pointers₂, pointers₁]
        exact (Function.update_of_ne lastNew.symm _ _).trans newForward) (some .insertOrderList)
    have blinkHead : some last ≠ some EntryPlace.insertOrderList :=
      fun same => lastHead (Option.some.inj same)
    refine ⟨entries₄, ?_, ?_⟩
    · unfold insertEntry
      simp only [read, ok_bind, if_neg blinkHead, if_neg (fun zero => empty (count.mp zero)),
        first, read₁, second, third]
      exact fourth
    · rw [pointers₄, pointers₃, pointers₂, pointers₁]
      refine linked.append nodup ?_ ?_ ?_ ?_ (fun other member notLast => ?_)
        (fun other member => ?_) <;> simp only [lastIs] at *
      · rw [Function.update_of_ne lastNew, Function.update_self]
      · rw [Function.update_of_ne newHead, Function.update_self]
      · rw [Function.update_self]
      · rw [Function.update_self]
      · rw [Function.update_of_ne (newApart other member new (List.mem_singleton_self _)),
          Function.update_of_ne notLast]
      · obtain ⟨notNew, notHead⟩ := outside other member
        rw [Function.update_of_ne notHead, Function.update_of_ne notNew]

/-- A list that has elements while the count says none is refused. -/
theorem insertEntry_abort {entries : EntryPlace → Option ListEntry} {places : List EntryPlace}
    (new : Option EntryPlace) (linked : Linked (entryPointers entries) .insertOrderList places)
    (nodup : (EntryPlace.insertOrderList :: places).Nodup) (nonempty : places ≠ []) :
    insertEntry 0 entries new = .error .abort := by
  obtain ⟨root, rootHeld, rootBack⟩ := Option.map_eq_some_iff.mp linked.backward_after
  have apart : root.blink ≠ some .insertOrderList := by
    rw [rootBack]
    intro same
    have member := lastOf_mem_of_ne_nil EntryPlace.insertOrderList nonempty
    rw [Option.some.inj same] at member
    exact (List.nodup_cons.mp nodup).1 member
  unfold insertEntry
  simp only [deref_eq rootHeld, ok_bind, if_neg apart, if_true]
  rfl

/-- The two sides of a tree that a new element goes between. -/
def Between (key : Item → Key) (new : Element Item) : BinaryTree (Element Item) → Prop
  | .nil => True
  | .node element left right =>
    (∀ other ∈ inorder left, elementKey key other < elementKey key new) ∧
    (∀ other ∈ inorder right, elementKey key new < elementKey key other) ∧
    elementKey key element ≠ elementKey key new

/-- The new element becomes the root of a search tree. -/
theorem insertLinks_eq (orders : Orders key compareRoutine) {links : Links}
    (data : Address → Option Item) {new : Element Item} {tree : BinaryTree (Element Item)}
    (represents : Represents Element.place (childrenOf links) tree)
    (search : SearchTree (elementKey key) tree)
    (stored : ∀ element ∈ new :: inorder tree, data element.address = some element.item)
    (mapped : Mapped (childrenOf links) (some new.place))
    (apart : ∀ other ∈ inorder tree, other.place ≠ new.place)
    (distinct : Distinct Element.place .next (inorder tree)) (between : Between key new tree) :
    ∃ links' left right,
      insertLinks compareRoutine data links (some new.place) (pointer Element.place tree) =
        .ok links' ∧
      Represents Element.place (childrenOf links') (.node new left right) ∧
      SearchTree (elementKey key) (.node new left right) ∧
      (inorder (.node new left right)).Perm (inorder tree ++ [new]) := by
  cases tree with
  | nil =>
    obtain ⟨links₁, first, children₁⟩ := setChild_eq links new.place .right none mapped
    obtain ⟨links₂, second, children₂⟩ := setChild_eq links₁ new.place .left none
      (by rw [children₁]; exact mapped.put _ _ _)
    refine ⟨links₂, .nil, .nil, ?_, ?_,
      ⟨⟨by simp [inorder], by simp [inorder]⟩, trivial, trivial⟩, List.Perm.refl _⟩
    · unfold insertLinks
      rw [pointer, if_pos rfl, first, ok_bind, second]
    · rw [children₂, children₁]
      refine ⟨⟨put_same _ _ _ _, ?_⟩, trivial, trivial⟩
      exact (put_other_side Side.left.other_ne).trans (put_same _ _ _ _)
  | node element left right =>
    obtain ⟨below, above, differs⟩ := between
    obtain ⟨⟨leftLess, rightGreater⟩, searchLeft, searchRight⟩ := search
    rw [inorder, distinct_append, distinct_cons] at distinct
    obtain ⟨⟨_, _, elementRight⟩, leftRest⟩ := distinct
    have away : ∀ other, other ∈ inorder left ∨ other ∈ inorder right →
        other.place ≠ element.place := by
      rintro other (inLeft | inRight)
      · exact leftRest other inLeft element List.mem_cons_self
      · exact (elementRight other inRight).symm
    have newData : itemdata data (some new.place) = .ok new.item :=
      deref_eq (stored new List.mem_cons_self)
    have rootData : itemdata data (some element.place) = .ok element.item :=
      deref_eq (stored element (List.mem_cons_of_mem _ (by simp [inorder])))
    rcases orders.cases new.item element.item with less | greater | equal
    · have before := (orders.less _ _).mp less
      obtain ⟨links', ran, holds⟩ :=
        @insertAbove_eq _ links .left left right element new represents mapped apart away
      refine ⟨links', left, .node element .nil right, ?_, holds, ⟨⟨below, ?_⟩, searchLeft,
        ⟨by simp [inorder], rightGreater⟩, trivial, searchRight⟩, ?_⟩
      · unfold insertLinks
        rw [pointer, if_neg (Option.some_ne_none _), newData, ok_bind, rootData, ok_bind, less]
        exact ran
      · intro other member
        rcases List.mem_cons.mp member with rfl | later
        · exact before
        · exact above other later
      · change (inorder left ++ new :: element :: inorder right).Perm
          (inorder left ++ element :: inorder right ++ [new])
        rw [List.append_assoc]
        exact (List.perm_append_singleton new (element :: inorder right)).symm.append_left _
    · have after := (orders.greater _ _).mp greater
      obtain ⟨links', ran, holds⟩ :=
        @insertAbove_eq _ links .right right left element new represents mapped
          apart (fun other member => away other member.symm)
      refine ⟨links', .node element left .nil, right, ?_, holds, ⟨⟨?_, above⟩,
        ⟨⟨leftLess, by simp [inorder]⟩, searchLeft, trivial⟩, searchRight⟩, ?_⟩
      · unfold insertLinks
        rw [pointer, if_neg (Option.some_ne_none _), newData, ok_bind, rootData, ok_bind, greater]
        exact ran
      · intro other member
        rcases List.mem_append.mp member with earlier | last
        · exact below other earlier
        · rw [List.mem_singleton.mp last]
          exact after
      · change (inorder left ++ [element] ++ new :: inorder right).Perm
          (inorder left ++ element :: inorder right ++ [new])
        rw [List.append_assoc, List.append_assoc]
        refine List.Perm.append_left _ ?_
        exact (List.perm_append_singleton new (inorder right)).symm.cons element
    · exact absurd ((orders.equal _ _).mp equal).symm differs

/-- A free block is none of the elements. -/
theorem TableHolds.fresh (holds : TableHolds key table elements) {address : Address}
    (free : table.data address = none) : ∀ element ∈ elements, element.address ≠ address := by
  rintro element member rfl
  rw [(holds.blocks element.address element.item).mpr member] at free
  cases free

theorem TableHolds.nodup_concat (holds : TableHolds key table elements) (new : Element Item)
    (free : table.data new.address = none) :
    ((elements ++ [new]).map Element.address).Nodup := by
  rw [List.map_append, List.nodup_append]
  refine ⟨holds.nodup, List.nodup_singleton _, fun address member address' member' => ?_⟩
  obtain ⟨element, inElements, rfl⟩ := List.mem_map.mp member
  rw [List.mem_singleton.mp member']
  exact holds.fresh free element inElements

/-- The data of the new element next to those of the others. -/
theorem TableHolds.blocks_concat (holds : TableHolds key table elements) (new : Element Item)
    (free : table.data new.address = none) (address : Address) (item : Item) :
    Function.update table.data new.address (some new.item) address = some item ↔
      ⟨address, item⟩ ∈ elements ++ [new] := by
  obtain ⟨newAddress, newItem⟩ := new
  rw [List.mem_append, List.mem_singleton, Element.mk.injEq]
  by_cases same : address = newAddress
  · subst same
    rw [Function.update_self, Option.some.injEq]
    constructor
    · rintro rfl
      exact .inr ⟨rfl, rfl⟩
    · rintro (old | ⟨_, equal⟩)
      · exact (holds.fresh free _ old rfl).elim
      · exact equal.symm
  · rw [Function.update_of_ne same, holds.blocks]
    exact (or_iff_left fun new => same new.1).symm

/-- The entry in a granted block is not linked yet. -/
theorem TableHolds.list_update (holds : TableHolds key table elements) (new : Element Item)
    (free : table.data new.address = none) (entry : ListEntry) :
    Linked (entryPointers (Function.update table.entries new.entry (some entry)))
      .insertOrderList (elements.map Element.entry) := by
  have nodup := nodup_entries (holds.nodup_concat new free)
  rw [List.map_append, ← List.cons_append] at nodup
  have outside : ∀ place ∈ EntryPlace.insertOrderList :: elements.map Element.entry,
      place ≠ new.entry :=
    fun place member => (List.nodup_append.mp nodup).2.2 place member _ (List.mem_singleton_self _)
  refine holds.list.congr (fun place member => ?_) (fun place member => ?_)
  · rw [forward_eq, forward_eq, Function.update_of_ne (outside place member)]
  · rw [backward_eq, backward_eq, Function.update_of_ne (outside place ?_)]
    rcases member with within | rfl
    · exact List.mem_cons_of_mem _ within
    · exact List.mem_cons_self

/-- The new element in the tree, at a place of its own. -/
theorem TableHolds.insertLinks_holds (orders : Orders key compareRoutine)
    (holds : TableHolds key table elements) {tree : BinaryTree (Element Item)}
    (treeHolds : TreeHolds key table tree) (perm : (inorder tree).Perm elements)
    (new : Element Item) (free : table.data new.address = none) (between : Between key new tree)
    (cell : SplayLinks) :
    ∃ links' left right,
      insertLinks compareRoutine (Function.update table.data new.address (some new.item))
        (Function.update table.links new.place (some cell)) (some new.place) table.tableRoot =
        .ok links' ∧
      Represents Element.place (childrenOf links') (.node new left right) ∧
      SearchTree (elementKey key) (.node new left right) ∧
      (inorder (.node new left right)).Perm (elements ++ [new]) := by
  have apart : ∀ other ∈ inorder tree, other.place ≠ new.place := fun other member same =>
    holds.fresh free other (perm.mem_iff.mp member) (Place.item.inj same)
  have stored : ∀ element ∈ new :: inorder tree,
      Function.update table.data new.address (some new.item) element.address =
        some element.item := by
    intro element member
    refine (holds.blocks_concat new free element.address element.item).mpr ?_
    rcases List.mem_cons.mp member with rfl | old
    · exact List.mem_append_right _ (List.mem_singleton_self _)
    · exact List.mem_append_left _ (perm.mem_iff.mp old)
  have represents : Represents Element.place
      (childrenOf (Function.update table.links new.place (some cell))) tree :=
    treeHolds.represents.congr fun other member => childrenOf_update _ _ _ (apart other member)
  obtain ⟨links', left, right, ran, represents', search, newPerm⟩ :=
    insertLinks_eq orders _ represents treeHolds.search stored (mapped_update _ _ _) apart
      (holds.ordered treeHolds perm).distinct between
  rw [treeHolds.root]
  exact ⟨links', left, right, ran, represents', search, newPerm.trans (perm.append_right _)⟩

/-- A granted block becomes the last element; with `2 ^ 32` elements the count is refused. -/
theorem insertBlock_holds (orders : Orders key compareRoutine)
    (holds : TableHolds key table elements) {tree : BinaryTree (Element Item)}
    (treeHolds : TreeHolds key table tree) (perm : (inorder tree).Perm elements)
    {buffer : Item} {block : Block} (free : table.data block.address = none)
    (between : Between key { address := block.address, item := buffer } tree) :
    (elements.length = 2 ^ 32 ∧
      insertBlock compareRoutine table buffer block = .error .abort) ∨
    ∃ table', insertBlock compareRoutine table buffer block =
        .ok ({ element := some block.address, newElement := some true }, table') ∧
      TableHolds key table' (elements ++ [{ address := block.address, item := buffer }]) := by
  generalize newIs : ({ address := block.address, item := buffer } : Element Item) = new at *
  have address : new.address = block.address := by rw [← newIs]
  have place : new.place = .item block.address := by rw [← newIs]; rfl
  have entry : new.entry = .item block.address := by rw [← newIs]; rfl
  have item : new.item = buffer := by rw [← newIs]
  rw [← address] at free
  obtain ⟨links', left, right, ran, represents, search, newPerm⟩ :=
    holds.insertLinks_holds orders treeHolds perm new free between block.links
  have linked := holds.list_update new free block.entry
  have newNodup := holds.nodup_concat new free
  have newEntries := nodup_entries newNodup
  rw [List.map_append] at newEntries
  by_cases full : elements.length = 2 ^ 32
  · refine .inl ⟨full, ?_⟩
    have none : table.numberGenericTableElements = 0 := by
      rw [holds.number, full, Nat.mod_self]
    have nonempty : elements.map Element.entry ≠ [] := by
      intro empty
      rw [List.map_eq_nil_iff.mp empty, List.length_nil] at full
      omega
    unfold insertBlock
    rw [address, item, place] at ran
    rw [entry] at linked
    simp only [ran, ok_bind, none,
      insertEntry_abort (some (.item block.address)) linked (nodup_entries holds.nodup) nonempty]
    rfl
  · have room := holds.room
    have small : elements.length < 2 ^ 32 := by omega
    have count : table.numberGenericTableElements = 0 ↔ elements.map Element.entry = [] := by
      rw [holds.number, Nat.mod_eq_of_lt small, List.map_eq_nil_iff, List.length_eq_zero_iff]
    obtain ⟨entries', inserted, linked'⟩ :=
      insertEntry_eq linked newEntries (Function.update_self _ _ _) count
    have result : insertBlock compareRoutine table buffer block =
        .ok ({ element := some block.address, newElement := some true },
          { links := links', entries := entries'
            data := Function.update table.data block.address (some buffer)
            tableRoot := some (.item block.address)
            orderedPointer := some .insertOrderList
            whichOrderedElement := 0
            numberGenericTableElements :=
              (table.numberGenericTableElements + 1) % 2 ^ 32 }) := by
      unfold insertBlock
      rw [address, item, place] at ran
      rw [entry] at inserted
      simp only [ran, ok_bind, inserted]
      rfl
    refine .inr ⟨_, result, ⟨.node new left right, ⟨?_, represents, search⟩, newPerm⟩, ?_,
      newNodup, ?_, ?_, ?_⟩
    · rw [pointer, place]
    · rw [List.map_append]
      exact linked'
    · rw [← address, ← item]
      exact holds.blocks_concat new free
    · change (table.numberGenericTableElements + 1) % 2 ^ 32 = _
      rw [holds.number, List.length_append, List.length_singleton, Nat.mod_add_mod]
    · rw [List.length_append, List.length_singleton]
      omega

/-- The address of what `AllocateRoutine` returns for an element of a size. -/
def allocated (allocateRoutine : AllocateRoutine Item) (table : GenericTable Item)
    (bufferSize : Nat) : Option Address :=
  (allocateRoutine.allocate table ((bufferSize + sizeofItemHeader) % 2 ^ 32)).map Block.address

/-- An insertion that `splay` has not found the key for. -/
theorem insert_missing (orders : Orders key compareRoutine) {splayed : GenericTable Item}
    {buffer : Item} (ran : splay compareRoutine turns table buffer = .ok (false, splayed))
    (holds : TableHolds key splayed elements) {tree : BinaryTree (Element Item)}
    (treeHolds : TreeHolds key splayed tree) (perm : (inorder tree).Perm elements)
    (between : ∀ address, Between key { address, item := buffer } tree)
    (absent : ∀ element ∈ elements, key element.item ≠ key buffer)
    (allocateRoutine : AllocateRoutine Item) (bufferSize : Nat) :
    (elements.length = 2 ^ 32 ∧ rtlInsertElementGenericTable compareRoutine turns
      allocateRoutine table buffer bufferSize = .error .abort) ∨
    ∃ result table' elements', rtlInsertElementGenericTable compareRoutine turns
        allocateRoutine table buffer bufferSize = .ok (result, table') ∧
      TableHolds key table' elements' ∧
      InsertSpec key elements buffer (allocated allocateRoutine splayed bufferSize) result
        elements' := by
  cases granted : allocateRoutine.allocate splayed
      ((bufferSize + sizeofItemHeader) % 2 ^ 32) with
  | none =>
    refine .inr ⟨_, splayed, elements, ?_, holds, .failed absent ?_⟩
    · unfold rtlInsertElementGenericTable
      simp only [ran, ok_bind, Bool.false_eq_true, if_false, granted]
      rfl
    · rw [allocated, granted]
      rfl
  | some block =>
    obtain ⟨_, _, free⟩ := allocateRoutine.fresh _ _ _ granted
    have unfolded : rtlInsertElementGenericTable compareRoutine turns allocateRoutine table
        buffer bufferSize = insertBlock compareRoutine splayed buffer block := by
      unfold rtlInsertElementGenericTable
      simp only [ran, ok_bind, Bool.false_eq_true, if_false, granted]
    rw [unfolded]
    rcases insertBlock_holds orders holds treeHolds perm free (between _) with
      ⟨full, stopped⟩ | ⟨table', inserted, holds'⟩
    · exact .inl ⟨full, stopped⟩
    · refine .inr ⟨_, table', _, inserted, holds', .added block.address absent ?_ ?_⟩
      · rw [allocated, granted]
        rfl
      · intro element member same
        have held := (holds.blocks element.address element.item).mpr member
        rw [same, free] at held
        cases held

/-- `RtlInsertElementGenericTable` does what an insertion is to do, for what the allocator
returns for the splayed table; it aborts only on a new element for a table with `2 ^ 32`
elements. -/
theorem insert_holds (orders : Orders key compareRoutine) (holds : TableHolds key table elements)
    (enough : elements.length < turns) (allocateRoutine : AllocateRoutine Item) (buffer : Item)
    (bufferSize : Nat) :
    ∃ found splayed, splay compareRoutine turns table buffer = .ok (found, splayed) ∧
      ((elements.length = 2 ^ 32 ∧ rtlInsertElementGenericTable compareRoutine turns
        allocateRoutine table buffer bufferSize = .error .abort) ∨
      ∃ result table' elements', rtlInsertElementGenericTable compareRoutine turns
          allocateRoutine table buffer bufferSize = .ok (result, table') ∧
        TableHolds key table' elements' ∧
        InsertSpec key elements buffer (allocated allocateRoutine splayed bufferSize) result
          elements') := by
  rcases splay_table orders holds enough buffer with
    ⟨empty, root, ran⟩ | ⟨links, left, element, right, before, ran, treeHolds, perm, splayed⟩
  · obtain ⟨tree, treeHolds, perm⟩ := holds.tree
    have leaf : tree = .nil := by
      have none := treeHolds.root
      rw [root] at none
      exact pointer_eq_none.mp none.symm
    refine ⟨_, _, ran, insert_missing orders ran holds treeHolds perm (fun _ => ?_)
      (fun element member => ?_) allocateRoutine bufferSize⟩
    · rw [leaf]
      trivial
    · rw [empty] at member
      cases member
  · refine ⟨_, _, ran, ?_⟩
    have holds' := holds.reroot treeHolds perm
    by_cases found : compareRoutine buffer element.item = .equal
    · refine .inr ⟨_, _, elements, ?_, holds',
        .present element (mem_root perm) ((orders.equal _ _).mp found).symm⟩
      unfold rtlInsertElementGenericTable
      simp only [ran, ok_bind, found, decide_true, if_true]
      rfl
    · have differs : key element.item ≠ key buffer :=
        fun same => found ((orders.equal _ _).mpr same.symm)
      rw [decide_eq_false found] at ran
      exact insert_missing orders ran holds' treeHolds perm
        (fun _ => ⟨splayed.below, splayed.above, differs⟩) (splayed.absent perm differs)
        allocateRoutine bufferSize

end Calls

end Nloader.Splay
