/-
This file is about runs of calls on one table. A run makes its calls one after the other on
the table that the last one left, and ends with that table or with the fault of the call it
stops at. A call that returns does what it is to do, and keeps the table in step with the
list of its elements; a run therefore follows the list from call to call. It stops early at
two calls only: an insertion into a table that is full, and a deletion of the greatest
element.
-/

import Nloader.SplayDelete

namespace Nloader.Splay

open Outcome TreePath PointerTree PointerRing

variable {Item Key : Type} [LinearOrder Key]

/-! ### Calls -/

/-- A call on a table. -/
inductive Call (Item : Type) where
  | insert (allocateRoutine : AllocateRoutine Item) (buffer : Item) (bufferSize : Nat)
  | lookup (buffer : Item)
  | delete (buffer : Item)

/-- What a call returns. -/
inductive Reply where
  | inserted (result : InsertResult)
  | lookedUp (result : Option Address)
  | deleted (result : Bool)
  deriving DecidableEq

/-- The call deletes. -/
def Call.Deletes : Call Item → Prop
  | .delete _ => True
  | _ => False

/-- The call has added an element. -/
def Reply.added : Reply → Bool
  | .inserted result => result.newElement = some true
  | _ => false

/-- One call on a table. -/
def perform (compareRoutine : Item → Item → GenericCompareResults) (turns : Nat)
    (table : GenericTable Item) : Call Item → Except Fault (Reply × GenericTable Item)
  | .insert allocateRoutine buffer bufferSize => do
    let (result, table) ←
      rtlInsertElementGenericTable compareRoutine turns allocateRoutine table buffer bufferSize
    pure (.inserted result, table)
  | .lookup buffer => do
    let (result, table) ← rtlLookupElementGenericTable compareRoutine turns table buffer
    pure (.lookedUp result, table)
  | .delete buffer => do
    let (result, table) ← rtlDeleteElementGenericTable compareRoutine turns table buffer
    pure (.deleted result, table)

/-- The calls in turn: what each has returned, and the table at the end or the fault of the
call that stopped. -/
def run (compareRoutine : Item → Item → GenericCompareResults) (turns : Nat) :
    GenericTable Item → List (Call Item) → List Reply × Except Fault (GenericTable Item)
  | table, [] => ([], .ok table)
  | table, call :: calls =>
    match perform compareRoutine turns table call with
    | .error fault => ([], .error fault)
    | .ok (reply, next) =>
      let (replies, ending) := run compareRoutine turns next calls
      (reply :: replies, ending)

/-- The calls of `RtlEnumerateGenericTableWithoutSplaying` on one `RestartKey`, up to the one
that returns NULL: the elements returned. -/
def enumerateAll (table : GenericTable Item) :
    Nat → Option EntryPlace → Except Fault (List Address)
  | 0, _ => throw .outOfTurns
  | turns + 1, restartKey => do
    let (element, restartKey) ← rtlEnumerateGenericTableWithoutSplaying table restartKey
    match element with
    | none => pure []
    | some address => do
      let addresses ← enumerateAll table turns restartKey
      pure (address :: addresses)

/-! ### Routines of a table of numbers -/

/-- `AllocateRoutine` with the block at one address, while it is not in use. -/
def blockAt (address : Address) : AllocateRoutine Item where
  allocate := fun table _ =>
    if (table.links (.item address)).isNone && (table.entries (.item address)).isNone &&
        (table.data address).isNone then
      some
        { address
          links := { parent := none, leftChild := none, rightChild := none }
          entry := { flink := none, blink := none } }
    else none
  fresh := fun table byteSize block granted => by
    obtain ⟨free, same⟩ := Option.ite_none_right_eq_some.mp granted
    cases same
    simp only [Bool.and_eq_true, Option.isNone_iff_eq_none] at free
    exact ⟨free.1.1, free.1.2, free.2⟩

/-- `AllocateRoutine` without memory. -/
def noBlock : AllocateRoutine Item where
  allocate := fun _ _ => none
  fresh := fun _ _ _ some => nomatch some

/-! ### What a call does -/

section Runs

variable {key : Item → Key} {compareRoutine : Item → Item → GenericCompareResults}
  {turns : Nat}

/-- What a call on a table is to do to the list of its elements. -/
inductive Performs (key : Item → Key) (compareRoutine : Item → Item → GenericCompareResults)
    (turns : Nat) (table : GenericTable Item) (elements : List (Element Item)) :
    Call Item → Reply → List (Element Item) → Prop
  | insert (allocateRoutine : AllocateRoutine Item) (buffer : Item) (bufferSize : Nat)
      (found : Bool) (splayed : GenericTable Item) (result : InsertResult)
      (later : List (Element Item))
      (ran : splay compareRoutine turns table buffer = .ok (found, splayed))
      (spec : InsertSpec key elements buffer (allocated allocateRoutine splayed bufferSize)
        result later) :
      Performs key compareRoutine turns table elements
        (.insert allocateRoutine buffer bufferSize) (.inserted result) later
  | lookup (buffer : Item) (result : Option Address)
      (spec : LookupSpec key elements buffer result) :
      Performs key compareRoutine turns table elements (.lookup buffer) (.lookedUp result)
        elements
  | delete (buffer : Item) (result : Bool) (later : List (Element Item))
      (spec : DeleteSpec key elements buffer result later) :
      Performs key compareRoutine turns table elements (.delete buffer) (.deleted result) later

/-- The two calls that do not return, with the fault they stop with. -/
inductive Stops (key : Item → Key) (elements : List (Element Item)) :
    Call Item → Fault → Prop
  | full (allocateRoutine : AllocateRoutine Item) (buffer : Item) (bufferSize : Nat)
      (full : elements.length = 2 ^ 32) :
      Stops key elements (.insert allocateRoutine buffer bufferSize) .abort
  | greatest (buffer : Item) (greatest : Greatest key elements buffer) :
      Stops key elements (.delete buffer) .nullDereference

/-- One call on a table that holds a list of elements. -/
theorem perform_holds (orders : Orders key compareRoutine) {table : GenericTable Item}
    {elements : List (Element Item)} (holds : TableHolds key table elements)
    (enough : elements.length < turns) (call : Call Item) :
    (∃ fault, perform compareRoutine turns table call = .error fault ∧
      Stops key elements call fault) ∨
    ∃ reply next later, perform compareRoutine turns table call = .ok (reply, next) ∧
      TableHolds key next later ∧
      Performs key compareRoutine turns table elements call reply later := by
  cases call with
  | insert allocateRoutine buffer bufferSize =>
    obtain ⟨found, splayed, ran, ⟨full, stopped⟩ | ⟨result, next, later, inserted, holds', spec⟩⟩ :=
      insert_holds orders holds enough allocateRoutine buffer bufferSize
    · exact .inl ⟨.abort, by rw [perform, stopped, error_bind], .full _ _ _ full⟩
    · refine .inr ⟨.inserted result, next, later, ?_, holds', .insert _ _ _ _ _ _ _ ran spec⟩
      rw [perform, inserted, ok_bind]
      rfl
  | lookup buffer =>
    obtain ⟨result, next, lookedUp, holds', spec⟩ := lookup_holds orders holds enough buffer
    refine .inr ⟨.lookedUp result, next, elements, ?_, holds', .lookup _ _ spec⟩
    rw [perform, lookedUp, ok_bind]
    rfl
  | delete buffer =>
    rcases delete_holds orders holds enough buffer with
      ⟨greatest, stopped⟩ | ⟨_, result, next, later, deleted, holds', spec⟩
    · exact .inl ⟨.nullDereference, by rw [perform, stopped, error_bind], .greatest _ greatest⟩
    · refine .inr ⟨.deleted result, next, later, ?_, holds', .delete _ _ _ spec⟩
      rw [perform, deleted, ok_bind]
      rfl

omit [LinearOrder Key] in
/-- A call adds at most one element. -/
theorem Performs.length_le {table : GenericTable Item} {elements later : List (Element Item)}
    {call : Call Item} {reply : Reply}
    (performs : Performs key compareRoutine turns table elements call reply later) :
    later.length ≤ elements.length + 1 := by
  cases performs with
  | insert _ _ _ _ _ _ _ _ spec =>
    cases spec with
    | present => exact Nat.le_succ _
    | failed => exact Nat.le_succ _
    | added => rw [List.length_append, List.length_singleton]
  | lookup => exact Nat.le_succ _
  | delete _ _ _ spec =>
    cases spec with
    | absent => exact Nat.le_succ _
    | removed before element after split =>
      rw [split, List.length_append, List.length_append, List.length_cons]
      omega

omit [LinearOrder Key] in
/-- A call that does not delete adds as many elements as its reply says. -/
theorem Performs.length_eq {table : GenericTable Item} {elements later : List (Element Item)}
    {call : Call Item} {reply : Reply} (keeps : ¬ call.Deletes)
    (performs : Performs key compareRoutine turns table elements call reply later) :
    later.length = elements.length + [reply].countP Reply.added := by
  cases performs with
  | insert _ _ _ _ _ _ _ _ spec =>
    cases spec with
    | present => rfl
    | failed => rfl
    | added =>
      rw [List.length_append]
      rfl
  | lookup => rfl
  | delete => exact absurd trivial keeps

/-! ### Runs -/

/-- A run that keeps a table in step with the list of its elements: every call returns what
it is to return for the elements before it, and leaves the table with the elements after
it. -/
inductive Follows (key : Item → Key) (compareRoutine : Item → Item → GenericCompareResults)
    (turns : Nat) : GenericTable Item → List (Element Item) → List (Call Item) → List Reply →
      GenericTable Item → List (Element Item) → Prop
  | nil (table : GenericTable Item) (elements : List (Element Item))
      (holds : TableHolds key table elements) :
      Follows key compareRoutine turns table elements [] [] table elements
  | cons (table next final : GenericTable Item) (elements later last : List (Element Item))
      (call : Call Item) (reply : Reply) (calls : List (Call Item)) (replies : List Reply)
      (holds : TableHolds key table elements)
      (ran : perform compareRoutine turns table call = .ok (reply, next))
      (performs : Performs key compareRoutine turns table elements call reply later)
      (rest : Follows key compareRoutine turns next later calls replies final last) :
      Follows key compareRoutine turns table elements (call :: calls) (reply :: replies) final
        last

theorem Follows.holds {table final : GenericTable Item} {elements last : List (Element Item)}
    {calls : List (Call Item)} {replies : List Reply}
    (follows : Follows key compareRoutine turns table elements calls replies final last) :
    TableHolds key final last := by
  induction follows with
  | nil _ _ holds => exact holds
  | cons _ _ _ _ _ _ _ _ _ _ _ _ _ _ inductionHypothesis => exact inductionHypothesis

theorem Follows.run_eq {table final : GenericTable Item} {elements last : List (Element Item)}
    {calls : List (Call Item)} {replies : List Reply}
    (follows : Follows key compareRoutine turns table elements calls replies final last) :
    run compareRoutine turns table calls = (replies, .ok final) := by
  induction follows with
  | nil => rfl
  | cons _ _ _ _ _ _ _ _ _ _ _ ran _ _ inductionHypothesis =>
    rw [run, ran]
    simp only [inductionHypothesis]

theorem Follows.length_le {table final : GenericTable Item}
    {elements last : List (Element Item)} {calls : List (Call Item)} {replies : List Reply}
    (follows : Follows key compareRoutine turns table elements calls replies final last) :
    last.length ≤ elements.length + calls.length := by
  induction follows with
  | nil => exact le_refl _
  | cons _ _ _ elements later _ _ _ calls _ _ _ performs _ inductionHypothesis =>
    have length := performs.length_le
    rw [List.length_cons]
    omega

/-- Without a deletion the elements are those that the replies report as new. -/
theorem Follows.length_eq {table final : GenericTable Item}
    {elements last : List (Element Item)} {calls : List (Call Item)} {replies : List Reply}
    (follows : Follows key compareRoutine turns table elements calls replies final last)
    (keeps : ∀ call ∈ calls, ¬ call.Deletes) :
    last.length = elements.length + replies.countP Reply.added := by
  induction follows with
  | nil => rfl
  | cons _ _ _ elements later _ call reply calls replies _ _ performs _ inductionHypothesis =>
    rw [inductionHypothesis fun other member => keeps other (List.mem_cons_of_mem _ member),
      performs.length_eq (keeps call List.mem_cons_self), Nat.add_assoc, ← List.countP_append,
      List.singleton_append]

/-- A run follows the elements to its end, or up to a call that does not return. -/
theorem run_holds (orders : Orders key compareRoutine) :
    ∀ (calls : List (Call Item)) (table : GenericTable Item) (elements : List (Element Item)),
      TableHolds key table elements → elements.length + calls.length ≤ turns →
        (∃ replies final last, run compareRoutine turns table calls = (replies, .ok final) ∧
          Follows key compareRoutine turns table elements calls replies final last) ∨
        ∃ before call after replies final last fault, calls = before ++ call :: after ∧
          run compareRoutine turns table calls = (replies, .error fault) ∧
          Follows key compareRoutine turns table elements before replies final last ∧
          Stops key last call fault := by
  intro calls
  induction calls with
  | nil => exact fun table elements holds _ => .inl ⟨[], table, elements, rfl, .nil _ _ holds⟩
  | cons call calls inductionHypothesis =>
    intro table elements holds enough
    rw [List.length_cons] at enough
    rcases perform_holds orders holds (lt_of_lt_of_le (by omega) enough) call with
      ⟨fault, stopped, stops⟩ | ⟨reply, next, later, ran, holds', performs⟩
    · refine .inr ⟨[], call, calls, [], table, elements, fault, rfl, ?_, .nil _ _ holds, stops⟩
      rw [run, stopped]
    · have length := performs.length_le
      rcases inductionHypothesis next later holds' (by omega) with
        ⟨replies, final, last, rest, follows⟩ |
          ⟨before, stop, after, replies, final, last, fault, split, rest, follows, stops⟩
      · refine .inl ⟨reply :: replies, final, last, ?_, .cons _ _ _ _ _ _ _ _ _ _ holds ran
          performs follows⟩
        rw [run, ran]
        simp only [rest]
      · refine .inr ⟨call :: before, stop, after, reply :: replies, final, last, fault, ?_, ?_,
          .cons _ _ _ _ _ _ _ _ _ _ holds ran performs follows, stops⟩
        · rw [split]
          rfl
        · rw [run, ran]
          simp only [rest]

/-! ### Enumeration -/

omit [LinearOrder Key] in
/-- One call of the enumeration, from the pointer to the next entry. -/
theorem enumerate_eq {table : GenericTable Item} {restartKey next : Option EntryPlace}
    {place : EntryPlace}
    (start : (if restartKey = none then some .insertOrderList else restartKey) = some place)
    (forward : (entryPointers table.entries).forward place = some next) :
    rtlEnumerateGenericTableWithoutSplaying table restartKey =
      if next = some .insertOrderList then .ok (none, restartKey)
      else .ok (treeentryToItemdata next, next) := by
  obtain ⟨entry, held, rfl⟩ := Option.map_eq_some_iff.mp forward
  unfold rtlEnumerateGenericTableWithoutSplaying
  simp only [start, deref_eq held, ok_bind]
  rfl

omit [LinearOrder Key] in
/-- The enumeration goes on with the entries behind its place. -/
theorem enumerateAll_segment {table : GenericTable Item} :
    ∀ (elements : List (Element Item)) (turns : Nat) (place : EntryPlace)
      (restartKey : Option EntryPlace),
      Segment (entryPointers table.entries) place (elements.map Element.entry) .insertOrderList →
      (if restartKey = none then some .insertOrderList else restartKey) = some place →
      elements.length < turns →
        enumerateAll table turns restartKey = .ok (elements.map Element.address) := by
  intro elements
  induction elements with
  | nil =>
    intro turns place restartKey segment start enough
    obtain ⟨turns, rfl⟩ := Nat.exists_eq_add_of_lt enough
    rw [enumerateAll, enumerate_eq start segment.1, if_pos rfl]
    rfl
  | cons element elements inductionHypothesis =>
    intro turns place restartKey segment start enough
    obtain ⟨turns, rfl⟩ := Nat.exists_eq_add_of_lt enough
    obtain ⟨⟨forward, _⟩, rest⟩ := segment
    have others := inductionHypothesis ((element :: elements).length + turns) element.entry
      (some element.entry) rest (if_neg nofun) (by rw [List.length_cons]; omega)
    have apart : (some element.entry : Option EntryPlace) ≠ some .insertOrderList := nofun
    have address : treeentryToItemdata (some element.entry) = some element.address := rfl
    rw [enumerateAll, enumerate_eq start forward, if_neg apart, ok_bind]
    simp only [address, others, ok_bind]
    rfl

/-- The enumeration of a table returns its elements in the order of their insertion. -/
theorem TableHolds.enumerateAll_eq {table : GenericTable Item}
    {elements : List (Element Item)} (holds : TableHolds key table elements)
    (enough : elements.length < turns) :
    enumerateAll table turns none = .ok (elements.map Element.address) :=
  enumerateAll_segment elements turns .insertOrderList none holds.list (if_pos rfl) enough

/-- No two elements of a table have the same key. -/
theorem TableHolds.keys_nodup {table : GenericTable Item} {elements : List (Element Item)}
    (holds : TableHolds key table elements) :
    (elements.map fun element => key element.item).Nodup := by
  obtain ⟨tree, treeHolds, perm⟩ := holds.tree
  have sorted := (searchTree_iff_sorted _ _).mp treeHolds.search
  rw [← (perm.map fun element => key element.item).nodup_iff]
  exact (List.pairwise_map.mpr sorted).imp ne_of_lt

/-! ### Runs without deletions -/

/-- A run of insertions and lookups on a new table, with fewer than `2 ^ 32` new elements,
returns from every call what the call is to return, and leaves a search tree and a list of
the elements in the order of their insertion, which the enumeration returns. -/
theorem run_insert_lookup (orders : Orders key compareRoutine) (calls : List (Call Item))
    (keeps : ∀ call ∈ calls, ¬ call.Deletes) (enough : calls.length ≤ turns)
    (few : (run compareRoutine turns rtlInitializeGenericTable calls).1.countP Reply.added <
      2 ^ 32) :
    ∃ replies table elements,
      run compareRoutine turns rtlInitializeGenericTable calls = (replies, .ok table) ∧
      Follows key compareRoutine turns rtlInitializeGenericTable [] calls replies table
        elements ∧
      TableHolds key table elements ∧
      table.numberGenericTableElements = elements.length ∧
      (elements.map fun element => key element.item).Nodup ∧
      ∀ turns', elements.length < turns' →
        enumerateAll table turns' none = .ok (elements.map Element.address) := by
  rcases run_holds orders calls rtlInitializeGenericTable [] (initialize_holds key)
      ((Nat.zero_add _).trans_le enough) with
    ⟨replies, table, elements, ran, follows⟩ |
      ⟨before, call, after, replies, table, elements, fault, split, ran, follows, stops⟩
  · have holds := follows.holds
    have length := follows.length_eq keeps
    rw [ran] at few
    rw [List.length_nil, Nat.zero_add] at length
    refine ⟨replies, table, elements, ran, follows, holds, ?_, holds.keys_nodup,
      fun turns' more => holds.enumerateAll_eq more⟩
    rw [holds.number, length, Nat.mod_eq_of_lt few]
  · rw [split] at keeps
    have length := follows.length_eq fun other member =>
      keeps other (List.mem_append_left _ member)
    rw [ran] at few
    rw [List.length_nil, Nat.zero_add] at length
    cases stops with
    | full _ _ _ full =>
      rw [← length, full] at few
      exact absurd few (lt_irrefl _)
    | greatest buffer _ =>
      exact absurd trivial
        (keeps (.delete buffer) (List.mem_append_right _ List.mem_cons_self))

/-- Insertions with and without memory, one of them of a key that is present, and lookups. -/
def exampleCalls : List (Call Nat) :=
  [.insert (blockAt 100) 5 4, .insert (blockAt 200) 3 4, .insert (blockAt 300) 5 4, .lookup 3,
    .insert noBlock 7 4, .lookup 7]

theorem run_exampleCalls :
    ∃ replies table elements,
      run compareNumbers 6 rtlInitializeGenericTable exampleCalls = (replies, .ok table) ∧
      Follows id compareNumbers 6 rtlInitializeGenericTable [] exampleCalls replies table
        elements ∧
      TableHolds id table elements ∧
      table.numberGenericTableElements = elements.length ∧
      (elements.map fun element => id element.item).Nodup ∧
      ∀ turns', elements.length < turns' →
        enumerateAll table turns' none = .ok (elements.map Element.address) :=
  run_insert_lookup orders_compareNumbers exampleCalls (by simp [exampleCalls, Call.Deletes])
    (by decide) (by decide)

/-! ### Runs with deletions -/

/-- A deletion has something to put in the place of the element: no element has the key of
the item, or some element has a greater key. -/
def Deletable (key : Item → Key) (table : GenericTable Item) (buffer : Item) : Prop :=
  (∀ address item, table.data address = some item → key item ≠ key buffer) ∨
    ∃ address item, table.data address = some item ∧ key buffer < key item

theorem TableHolds.deletable_iff {table : GenericTable Item} {elements : List (Element Item)}
    (holds : TableHolds key table elements) (buffer : Item) :
    Deletable key table buffer ↔ ¬ Greatest key elements buffer := by
  rw [Greatest, not_and_or]
  refine or_congr ?_ ?_
  · push Not
    constructor
    · exact fun absent element member => absent _ _ ((holds.blocks _ _).mpr member)
    · exact fun absent address item held => absent _ ((holds.blocks _ _).mp held)
  · push Not
    constructor
    · rintro ⟨address, item, held, greater⟩
      exact ⟨_, (holds.blocks _ _).mp held, greater⟩
    · rintro ⟨element, member, greater⟩
      exact ⟨_, _, (holds.blocks _ _).mpr member, greater⟩

/-- A deletion from a table completes exactly where it is deletable, and otherwise writes
through NULL. -/
theorem delete_iff (orders : Orders key compareRoutine) {table : GenericTable Item}
    {elements : List (Element Item)} (holds : TableHolds key table elements)
    (enough : elements.length < turns) (buffer : Item) :
    ((∃ result table', rtlDeleteElementGenericTable compareRoutine turns table buffer =
        .ok (result, table')) ↔ Deletable key table buffer) ∧
      (rtlDeleteElementGenericTable compareRoutine turns table buffer =
        .error .nullDereference ↔ ¬ Deletable key table buffer) := by
  rw [holds.deletable_iff, not_not]
  rcases delete_holds orders holds enough buffer with
    ⟨greatest, stopped⟩ | ⟨spared, result, table', _, deleted, _⟩
  · refine ⟨iff_of_false ?_ (not_not_intro greatest), iff_of_true stopped greatest⟩
    rintro ⟨result, table', deleted⟩
    rw [stopped] at deleted
    cases deleted
  · refine ⟨iff_of_true ⟨result, table', deleted⟩ spared, iff_of_false ?_ spared⟩
    rw [deleted]
    exact nofun

omit [LinearOrder Key] in
/-- A run stops at the call that does not return. -/
theorem run_stopped {call : Call Item} {final : GenericTable Item} {fault : Fault}
    (stopped : perform compareRoutine turns final call = .error fault)
    (after : List (Call Item)) :
    ∀ (before : List (Call Item)) (table : GenericTable Item),
      (run compareRoutine turns table before).2 = .ok final →
        (run compareRoutine turns table (before ++ call :: after)).2 = .error fault := by
  intro before
  induction before with
  | nil =>
    intro table ran
    cases ran
    rw [List.nil_append, run, stopped]
  | cons first before inductionHypothesis =>
    intro table ran
    rw [List.cons_append, run]
    rw [run] at ran
    cases performed : perform compareRoutine turns table first with
    | error fault' =>
      rw [performed] at ran
      cases ran
    | ok returned =>
      rw [performed] at ran
      exact inductionHypothesis _ ran

/-- The table a completed run leaves holds its elements, with room for the calls. -/
theorem run_ok_holds (orders : Orders key compareRoutine) {calls : List (Call Item)}
    {table : GenericTable Item} (enough : calls.length ≤ turns)
    (reached : (run compareRoutine turns rtlInitializeGenericTable calls).2 = .ok table) :
    ∃ elements, TableHolds key table elements ∧ elements.length ≤ calls.length := by
  rcases run_holds orders calls rtlInitializeGenericTable [] (initialize_holds key)
      ((Nat.zero_add _).trans_le enough) with
    ⟨replies, final, elements, ran, follows⟩ | ⟨_, _, _, _, _, _, _, _, ran, _⟩
  · rw [ran] at reached
    cases reached
    have length := follows.length_le
    rw [List.length_nil, Nat.zero_add] at length
    exact ⟨elements, follows.holds, length⟩
  · rw [ran] at reached
    cases reached

/-- A run writes through NULL exactly where one of its deletions is not deletable from the
table it is made on; and a deletion from any table that a run of insertions, lookups and
deletions leaves completes exactly where it is deletable. -/
theorem delete_completes_iff (orders : Orders key compareRoutine) (calls : List (Call Item))
    (enough : calls.length < turns) :
    ((run compareRoutine turns rtlInitializeGenericTable calls).2 = .error .nullDereference ↔
      ∃ before buffer after table, calls = before ++ .delete buffer :: after ∧
        (run compareRoutine turns rtlInitializeGenericTable before).2 = .ok table ∧
        ¬ Deletable key table buffer) ∧
    ∀ table, (run compareRoutine turns rtlInitializeGenericTable calls).2 = .ok table →
      ∀ buffer,
        ((∃ result table', rtlDeleteElementGenericTable compareRoutine turns table buffer =
          .ok (result, table')) ↔ Deletable key table buffer) ∧
        (rtlDeleteElementGenericTable compareRoutine turns table buffer =
          .error .nullDereference ↔ ¬ Deletable key table buffer) := by
  refine ⟨⟨fun stopped => ?_, ?_⟩, fun table reached buffer => ?_⟩
  · have room : ([] : List (Element Item)).length + calls.length ≤ turns := by
      rw [List.length_nil, Nat.zero_add]
      exact le_of_lt enough
    rcases run_holds orders calls rtlInitializeGenericTable [] (initialize_holds key)
        ((Nat.zero_add _).trans_le (le_of_lt enough)) with
      ⟨_, _, _, ran, _⟩ | ⟨before, call, after, _, table, elements, fault, split, ran, follows,
        stops⟩
    · rw [ran] at stopped
      cases stopped
    · rw [ran] at stopped
      cases stopped
      cases stops with
      | greatest buffer greatest =>
        refine ⟨before, buffer, after, table, split, by rw [follows.run_eq], ?_⟩
        rw [follows.holds.deletable_iff, not_not]
        exact greatest
  · rintro ⟨before, buffer, after, table, rfl, reached, undeletable⟩
    rw [List.length_append, List.length_cons] at enough
    have few : before.length < turns := by omega
    obtain ⟨elements, holds, length⟩ := run_ok_holds orders (le_of_lt few) reached
    have stopped := ((delete_iff orders holds (lt_of_le_of_lt length few) buffer).2).mpr
      undeletable
    exact run_stopped (by rw [perform, stopped, error_bind]) after before _ reached
  · obtain ⟨elements, holds, length⟩ := run_ok_holds orders (le_of_lt enough) reached
    exact delete_iff orders holds (lt_of_le_of_lt length enough) buffer

theorem delete_completes_example :
    ((run compareNumbers 2 rtlInitializeGenericTable [.insert (blockAt 100) 5 4]).2 =
        .error .nullDereference ↔
      ∃ before buffer after table,
        [Call.insert (blockAt 100) 5 4] = before ++ .delete buffer :: after ∧
        (run compareNumbers 2 rtlInitializeGenericTable before).2 = .ok table ∧
        ¬ Deletable id table buffer) ∧
    ∀ table, (run compareNumbers 2 rtlInitializeGenericTable
        [.insert (blockAt 100) 5 4]).2 = .ok table →
      ∀ buffer,
        ((∃ result table', rtlDeleteElementGenericTable compareNumbers 2 table buffer =
          .ok (result, table')) ↔ Deletable id table buffer) ∧
        (rtlDeleteElementGenericTable compareNumbers 2 table buffer =
          .error .nullDereference ↔ ¬ Deletable id table buffer) :=
  delete_completes_iff orders_compareNumbers [.insert (blockAt 100) 5 4] (by decide)

/-- The only element of a table, deleted. -/
theorem not_delete_completes :
    ∃ table, (run compareNumbers 2 rtlInitializeGenericTable
        [.insert (blockAt 100) 5 4]).2 = .ok table ∧
      rtlDeleteElementGenericTable compareNumbers 2 table 5 = .error .nullDereference :=
  ⟨_, rfl, rfl⟩

end Runs

end Nloader.Splay
