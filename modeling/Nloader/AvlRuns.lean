/-
This file is about runs of calls on one balanced table. A session keeps the table and the
pair of the last full lookup, for as long as the table stays as that lookup has found it. The
callers keep two rules: a full insertion is given that pair, for a key equal to the one looked
up, and a deletion by node is given a node of the table.

Every call of such a run returns, and the run does to the list of the elements what the calls
are to do, as long as the table has fewer elements than its count has numbers. There is no
such bound in the source: a run of `2 ^ 32` insertions leaves a table that counts none.
-/

import Nloader.Library.Runs
import Nloader.SplayRuns
import Nloader.AvlTable

namespace Nloader.Avl

open Outcome TreePath TreeContext Runs
open Splay (Address Element Fault GenericCompareResults Orders elementKey compareNumbers
  orders_compareNumbers)

variable {Item Key : Type} [LinearOrder Key]

/-! ### Calls -/

/-- A call on a table. -/
inductive Call (Item : Type) where
  | insert (allocateRoutine : AllocateRoutine Item) (buffer : Item) (bufferSize : Nat)
  | insertFull (allocateRoutine : AllocateRoutine Item) (buffer : Item) (bufferSize : Nat)
      (nodeOrParent : Option Place) (searchResult : TableSearchResult)
  | lookup (buffer : Item)
  | lookupFull (buffer : Item) (nodeOrParent : Option Place)
  | delete (buffer : Item)
  | deleteEx (address : Address)

/-- What a call returns. -/
inductive Reply where
  | inserted (result : InsertResult)
  | lookedUp (result : Option Place)
  | lookedUpFull (result : LookupResult)
  | deleted (result : Bool)
  deriving DecidableEq

/-- A table, and what the last full lookup has looked for and has left in `NodeOrParent` and
`SearchResult`. -/
structure Session (Item : Type) where
  table : AvlTable Item
  pair : Option (Item × Option Place × TableSearchResult)

/-- The session after a call that may have changed the table. -/
def Session.next (session : Session Item) (table : AvlTable Item) (changed : Bool) :
    Session Item :=
  { table, pair := if changed then none else session.pair }

/-- One call on the table of a session. -/
def perform (compareRoutine : Item → Item → GenericCompareResults) (turns : Nat)
    (session : Session Item) : Call Item → Except Fault (Reply × Session Item)
  | .insert allocateRoutine buffer bufferSize => do
    let (result, table) ← rtlInsertElementGenericTableAvl compareRoutine turns allocateRoutine
      session.table buffer bufferSize
    pure (.inserted result, session.next table result.newElement)
  | .insertFull allocateRoutine buffer bufferSize nodeOrParent searchResult => do
    let (result, table) ← rtlInsertElementGenericTableFullAvl turns allocateRoutine
      session.table buffer bufferSize nodeOrParent searchResult
    pure (.inserted result, session.next table result.newElement)
  | .lookup buffer => do
    let result ← rtlLookupElementGenericTableAvl compareRoutine turns session.table buffer
    pure (.lookedUp result, session)
  | .lookupFull buffer nodeOrParent => do
    let result ← rtlLookupElementGenericTableFullAvl compareRoutine turns session.table buffer
      nodeOrParent
    pure (.lookedUpFull result,
      { session with pair := some (buffer, result.nodeOrParent, result.searchResult) })
  | .delete buffer => do
    let (result, table) ←
      rtlDeleteElementGenericTableAvl compareRoutine turns session.table buffer
    pure (.deleted result, session.next table result)
  | .deleteEx address => do
    let (result, table) ←
      rtlDeleteElementGenericTableAvlEx turns session.table (some (.item address))
    pure (.deleted result, session.next table result)

/-- The address that `AllocateRoutine` returns in a call, if any. -/
def grants (table : AvlTable Item) : Call Item → Option Address
  | .insert allocateRoutine _ bufferSize => allocated allocateRoutine table bufferSize
  | .insertFull allocateRoutine _ bufferSize _ _ => allocated allocateRoutine table bufferSize
  | _ => none

/-- A call of a run, with what `AllocateRoutine` would return in it and with its reply. -/
structure Event (Item : Type) where
  call : Call Item
  granted : Option Address
  reply : Reply

/-- One step of a run. -/
def Step (compareRoutine : Item → Item → GenericCompareResults) (turns : Nat)
    (session : Session Item) (event : Event Item) (next : Session Item) : Prop :=
  event.granted = grants session.table event.call ∧
    perform compareRoutine turns session event.call = .ok (event.reply, next)

/-- The rules that the callers keep. -/
def Keeps (compareRoutine : Item → Item → GenericCompareResults) (session : Session Item) :
    Call Item → Prop
  | .insertFull _ buffer _ nodeOrParent searchResult =>
    ∃ target, session.pair = some (target, nodeOrParent, searchResult) ∧
      compareRoutine buffer target = .equal
  | .deleteEx address => (session.table.data address).isSome
  | _ => True

/-- The runs from a new table on which the callers keep the rules. -/
abbrev AvlRun (compareRoutine : Item → Item → GenericCompareResults) (turns : Nat) :
    List (Event Item) → Session Item → Prop :=
  Run (Restrict (Step compareRoutine turns) fun session event =>
      Keeps compareRoutine session event.call)
    { table := rtlInitializeGenericTableAvl, pair := none }

/-! ### What the calls are to do -/

/-- What a call is to do to the list of the elements. -/
inductive Performs (key : Item → Key) (elements : List (Element Item)) :
    Event Item → List (Element Item) → Prop
  | insert (allocateRoutine : AllocateRoutine Item) (buffer : Item) (bufferSize : Nat)
      (granted : Option Address) (result : InsertResult) (later : List (Element Item))
      (spec : InsertSpec key elements buffer granted result later) :
      Performs key elements
        ⟨.insert allocateRoutine buffer bufferSize, granted, .inserted result⟩ later
  | insertFull (allocateRoutine : AllocateRoutine Item) (buffer : Item) (bufferSize : Nat)
      (nodeOrParent : Option Place) (searchResult : TableSearchResult)
      (granted : Option Address) (result : InsertResult) (later : List (Element Item))
      (spec : InsertSpec key elements buffer granted result later) :
      Performs key elements
        ⟨.insertFull allocateRoutine buffer bufferSize nodeOrParent searchResult, granted,
          .inserted result⟩ later
  | lookup (buffer : Item) (result : Option Place)
      (spec : LookupSpec key elements buffer result) :
      Performs key elements ⟨.lookup buffer, none, .lookedUp result⟩ elements
  | lookupFull (buffer : Item) (nodeOrParent : Option Place) (result : LookupResult)
      (spec : LookupFullSpec key elements buffer result) :
      Performs key elements ⟨.lookupFull buffer nodeOrParent, none, .lookedUpFull result⟩
        elements
  | delete (buffer : Item) (result : Bool) (later : List (Element Item))
      (spec : DeleteSpec key elements buffer result later) :
      Performs key elements ⟨.delete buffer, none, .deleted result⟩ later
  | deleteEx (before : List (Element Item)) (element : Element Item)
      (after : List (Element Item)) (split : elements = before ++ element :: after) :
      Performs key elements ⟨.deleteEx element.address, none, .deleted true⟩ (before ++ after)

/-- The call has added an element. -/
def Event.added (event : Event Item) : Bool :=
  match event.reply with
  | .inserted result => result.newElement
  | _ => false

/-- The call has deleted an element. -/
def Event.removed (event : Event Item) : Bool :=
  match event.reply with
  | .deleted result => result
  | _ => false

/-- The table never comes to hold `2 ^ 32` elements: at no time have that many more been added
than deleted. -/
def Few (events : List (Event Item)) : Prop :=
  ∀ earlier, earlier <:+ events →
    earlier.countP Event.added < earlier.countP Event.removed + 2 ^ 32

/-! ### One call -/

section Runs

variable {key : Item → Key} {compareRoutine : Item → Item → GenericCompareResults}
  {turns : Nat} {session : Session Item} {elements : List (Element Item)}

/-- The table of a session holds its elements, and the pair of the session is what a search
finds in that table. -/
structure SessionHolds (key : Item → Key) (session : Session Item)
    (elements : List (Element Item)) : Prop where
  table : TableHolds key session.table elements
  pair : ∀ target nodeOrParent searchResult,
    session.pair = some (target, nodeOrParent, searchResult) →
      Finds key session.table elements target (searchResult, nodeOrParent)

/-- A pair outlives the calls that leave the table as it is. -/
theorem SessionHolds.next {table : AvlTable Item} {later : List (Element Item)} {changed : Bool}
    (holds : SessionHolds key session elements) (holds' : TableHolds key table later)
    (unchanged : changed = false → table = session.table ∧ later = elements) :
    SessionHolds key (session.next table changed) later := by
  refine ⟨holds', ?_⟩
  cases changed with
  | true => exact nofun
  | false =>
    obtain ⟨rfl, rfl⟩ := unchanged rfl
    exact holds.pair

theorem initialize_session (key : Item → Key) :
    SessionHolds key { table := rtlInitializeGenericTableAvl, pair := none }
      ([] : List (Element Item)) := by
  refine ⟨initialize_holds key, fun target nodeOrParent searchResult kept => ?_⟩
  cases kept

/-- A call that keeps the rules returns, and does what it is to do. -/
theorem perform_holds (orders : Orders key compareRoutine)
    (holds : SessionHolds key session elements) (few : elements.length < 2 ^ 32)
    (enough : elements.length < turns) (call : Call Item)
    (keeps : Keeps compareRoutine session call) :
    ∃ reply next later, perform compareRoutine turns session call = .ok (reply, next) ∧
      SessionHolds key next later ∧
      Performs key elements ⟨call, grants session.table call, reply⟩ later := by
  cases call with
  | insert allocateRoutine buffer bufferSize =>
    obtain ⟨result, table, later, ran, holds', spec, unchanged⟩ :=
      insert_holds orders holds.table few enough allocateRoutine buffer bufferSize
    refine ⟨_, _, later, ?_, holds.next holds' unchanged, .insert _ _ _ _ result _ spec⟩
    rw [perform, ran, ok_bind]
    rfl
  | insertFull allocateRoutine buffer bufferSize nodeOrParent searchResult =>
    obtain ⟨target, kept, equal⟩ := keeps
    obtain ⟨result, table, later, ran, holds', spec, unchanged⟩ :=
      insertFull_holds holds.table enough allocateRoutine ((orders.equal _ _).mp equal)
        bufferSize (holds.pair _ _ _ kept)
    refine ⟨_, _, later, ?_, holds.next holds' unchanged, .insertFull _ _ _ _ _ _ result _ spec⟩
    rw [perform, ran, ok_bind]
    rfl
  | lookup buffer =>
    obtain ⟨result, ran, spec⟩ := lookup_holds orders holds.table few enough buffer
    refine ⟨_, _, elements, ?_, holds, .lookup buffer result spec⟩
    rw [perform, ran, ok_bind]
    rfl
  | lookupFull buffer nodeOrParent =>
    obtain ⟨result, ran, finds, spec⟩ :=
      lookupFull_holds orders holds.table few enough buffer nodeOrParent
    refine ⟨_, { session with pair := some (buffer, result.nodeOrParent, result.searchResult) },
      elements, ?_, ⟨holds.table, ?_⟩, .lookupFull buffer nodeOrParent result spec⟩
    · rw [perform, ran, ok_bind]
      rfl
    · intro target nodeOrParent' searchResult kept
      cases kept
      exact finds
  | delete buffer =>
    obtain ⟨result, table, later, ran, holds', spec, unchanged⟩ :=
      delete_holds orders holds.table few enough buffer
    refine ⟨_, _, later, ?_, holds.next holds' unchanged, .delete buffer result later spec⟩
    rw [perform, ran, ok_bind]
    rfl
  | deleteEx address =>
    obtain ⟨item, held⟩ := Option.isSome_iff_exists.mp keeps
    obtain ⟨before, after, rfl⟩ := List.append_of_mem ((holds.table.blocks _ _).mp held)
    obtain ⟨table, ran, holds', _⟩ := deleteEx_holds holds.table enough
    refine ⟨_, session.next table true, before ++ after, ?_, holds.next holds' nofun,
      .deleteEx before _ after rfl⟩
    have ran' : rtlDeleteElementGenericTableAvlEx turns session.table (some (.item address)) =
      .ok (true, table) := ran
    rw [perform, ran', ok_bind]
    rfl

/-! ### Counts -/

omit [LinearOrder Key] in
theorem InsertSpec.length_eq {buffer : Item} {granted : Option Address} {result : InsertResult}
    {later : List (Element Item)} (spec : InsertSpec key elements buffer granted result later) :
    later.length = elements.length + if result.newElement then 1 else 0 := by
  cases spec with
  | present => rfl
  | failed => rfl
  | added address before after split =>
    rw [split, List.length_append, List.length_append, List.length_cons]
    rfl

omit [LinearOrder Key] in
theorem DeleteSpec.length_eq {buffer : Item} {result : Bool} {later : List (Element Item)}
    (spec : DeleteSpec key elements buffer result later) :
    later.length + (if result then 1 else 0) = elements.length := by
  cases spec with
  | absent => rfl
  | removed before element after split =>
    rw [split, List.length_append, List.length_append, List.length_cons]
    rfl

omit [LinearOrder Key] in
/-- A call adds an element, deletes one or does neither, as its reply says. -/
theorem Performs.length_eq {event : Event Item} {later : List (Element Item)}
    (performs : Performs key elements event later) :
    later.length + (if event.removed then 1 else 0) =
      elements.length + if event.added then 1 else 0 := by
  cases performs with
  | insert _ _ _ _ _ _ spec => exact spec.length_eq
  | insertFull _ _ _ _ _ _ _ _ spec => exact spec.length_eq
  | lookup => rfl
  | lookupFull => rfl
  | delete _ _ _ spec => exact spec.length_eq
  | deleteEx before element after split =>
    rw [split, List.length_append, List.length_append, List.length_cons]
    rfl

omit [LinearOrder Key] in
/-- The elements are those that have been added and not deleted. -/
theorem length_eq_of_run {events : List (Event Item)}
    (run : Run (Performs key) [] events elements) :
    elements.length + events.countP Event.removed = events.countP Event.added := by
  refine run.invariant (fun events elements => elements.length + events.countP Event.removed =
    events.countP Event.added) rfl fun events elements event later counted performs => ?_
  have length := performs.length_eq
  rw [List.countP_cons, List.countP_cons]
  omega

theorem Few.of_cons {event : Event Item} {events : List (Event Item)}
    (few : Few (event :: events)) : Few events :=
  fun earlier early => few earlier (early.trans (List.suffix_cons _ _))

theorem few_of_length {events : List (Event Item)} (short : events.length < 2 ^ 32) :
    Few events := by
  intro earlier early
  have added := List.countP_le_length (p := Event.added) (l := earlier)
  have length := early.length_le
  omega

omit [LinearOrder Key] in
/-- With few elements there is room for one more, and the loops have turns enough. -/
theorem length_lt {events : List (Event Item)} (run : Run (Performs key) [] events elements)
    (few : Few events) : elements.length < 2 ^ 32 ∧ elements.length ≤ events.length := by
  have counted := length_eq_of_run run
  have bound := few events (List.suffix_refl _)
  have added := List.countP_le_length (p := Event.added) (l := events)
  omega

/-! ### Runs -/

/-- A run does to the list of its elements what its calls are to do, and its session holds
these elements. -/
theorem run_holds (orders : Orders key compareRoutine) {events : List (Event Item)}
    (run : AvlRun compareRoutine turns events session) (few : Few events)
    (enough : events.length ≤ turns) :
    ∃ elements, Run (Performs key) [] events elements ∧ SessionHolds key session elements := by
  refine run.invariant (fun events session => Few events → events.length ≤ turns →
    ∃ elements, Run (Performs key) [] events elements ∧ SessionHolds key session elements)
    (fun _ _ => ⟨[], .nil, initialize_session key⟩) ?_ few enough
  rintro events before ⟨call, granted, reply⟩ after inductionHypothesis ⟨keeps, same, ran⟩
    few enough
  dsimp only at keeps same ran
  rw [List.length_cons] at enough
  obtain ⟨elements, run, holds⟩ := inductionHypothesis few.of_cons (by omega)
  obtain ⟨room, length⟩ := length_lt run few.of_cons
  have enough' : elements.length < turns := by omega
  obtain ⟨reply', next, later, ran', holds', performs⟩ :=
    perform_holds orders holds room enough' call keeps
  rw [ran] at ran'
  cases ran'
  subst same
  exact ⟨later, run.cons performs, holds'⟩

/-- On every run that never brings the table to `2 ^ 32` elements, the table is valid for the
elements that have been added and not deleted, every call has done to these what it is to do,
and every further call that keeps the rules returns. -/
theorem run_valid (orders : Orders key compareRoutine) {events : List (Event Item)}
    (run : AvlRun compareRoutine turns events session) (few : Few events)
    (enough : events.length < turns) :
    (∃ elements, Run (Performs key) [] events elements ∧ Valid key session.table elements) ∧
      ∀ call, Keeps compareRoutine session call →
        ∃ reply next, perform compareRoutine turns session call = .ok (reply, next) := by
  obtain ⟨elements, performed, holds⟩ := run_holds orders run few (le_of_lt enough)
  obtain ⟨room, length⟩ := length_lt performed few
  have enough' : elements.length < turns := by omega
  refine ⟨⟨elements, performed, valid_iff.mpr ⟨holds.table, room⟩⟩, fun call keeps => ?_⟩
  obtain ⟨reply, next, _, ran, _⟩ := perform_holds orders holds room enough' call keeps
  exact ⟨reply, next, ran⟩

/-! ### Nodes in memory -/

omit [LinearOrder Key] in
/-- No node is left behind, and none is lost: on every run there are links exactly where there
are data. -/
theorem run_mapped {events : List (Event Item)}
    (run : AvlRun compareRoutine turns events session) : Mapped session.table := by
  refine run.invariant (fun _ session => Mapped session.table) (fun _ => rfl) ?_
  rintro events before ⟨call, granted, reply⟩ after mapped ⟨_, _, ran⟩
  dsimp only at ran
  cases call with
  | insert =>
    obtain ⟨_, ran', ran⟩ := bind_eq_ok.mp ran
    cases ran
    exact insert_mapped mapped ran'
  | insertFull =>
    obtain ⟨_, ran', ran⟩ := bind_eq_ok.mp ran
    cases ran
    exact insertFull_mapped mapped ran'
  | lookup =>
    obtain ⟨_, _, ran⟩ := bind_eq_ok.mp ran
    cases ran
    exact mapped
  | lookupFull =>
    obtain ⟨_, _, ran⟩ := bind_eq_ok.mp ran
    cases ran
    exact mapped
  | delete =>
    obtain ⟨_, ran', ran⟩ := bind_eq_ok.mp ran
    cases ran
    exact delete_mapped mapped ran'
  | deleteEx =>
    obtain ⟨_, ran', ran⟩ := bind_eq_ok.mp ran
    cases ran
    exact deleteEx_mapped mapped ran'

end Runs

/-! ### Routines of a table of numbers -/

/-- `AllocateRoutine` with the block at one address, while it is not in use. -/
def blockAt (address : Address) : AllocateRoutine Item where
  allocate := fun table _ =>
    if (table.links (.item address)).isNone && (table.data address).isNone then
      some { address, links := zeroLinks }
    else none
  fresh := fun table byteSize block granted => by
    obtain ⟨free, same⟩ := Option.ite_none_right_eq_some.mp granted
    cases same
    simp only [Bool.and_eq_true, Option.isNone_iff_eq_none] at free
    exact free

/-- An insertion into a new table, a full lookup, the insertion with its pair, and the deletion
of the first element. The latest call comes first. -/
def exampleEvents : List (Event Nat) :=
  [⟨.deleteEx 100, none, .deleted true⟩,
    ⟨.insertFull (blockAt 200) 3 4 (some (.item 100)) .insertAsLeft, some 200,
      .inserted ⟨some (.item 200), true⟩⟩,
    ⟨.lookupFull 3 none, none, .lookedUpFull ⟨none, some (.item 100), .insertAsLeft⟩⟩,
    ⟨.insert (blockAt 100) 5 4, some 100, .inserted ⟨some (.item 100), true⟩⟩]

theorem run_exampleEvents : ∃ session, AvlRun compareNumbers 6 exampleEvents session := by
  have first : AvlRun compareNumbers 6 (exampleEvents.drop 3) _ := .cons .nil ⟨trivial, rfl, rfl⟩
  have second : AvlRun compareNumbers 6 (exampleEvents.drop 2) _ := .cons first ⟨trivial, rfl, rfl⟩
  have third : AvlRun compareNumbers 6 (exampleEvents.drop 1) _ :=
    .cons second ⟨⟨3, rfl, rfl⟩, rfl, rfl⟩
  exact ⟨_, .cons third ⟨rfl, rfl, rfl⟩⟩

theorem run_valid_exampleEvents :
    ∃ session, (∃ elements, Run (Performs id) [] exampleEvents elements ∧
        Valid id session.table elements) ∧
      ∀ call, Keeps compareNumbers session call →
        ∃ reply next, perform compareNumbers 6 session call = .ok (reply, next) := by
  obtain ⟨session, run⟩ := run_exampleEvents
  exact ⟨session, run_valid orders_compareNumbers run (few_of_length (by decide)) (by decide)⟩

/-! ### The count wraps -/

theorem allocated_blockAt {table : AvlTable Item} (mapped : Mapped table) {address : Address}
    (free : table.data address = none) (bufferSize : Nat) :
    allocated (blockAt address) table bufferSize = some address := by
  have links := mapped address
  rw [free, Option.isSome_none, Option.isSome_eq_false_iff, Option.isNone_iff_eq_none] at links
  simp [allocated, blockAt, free, links]

/-- Some run has brought the table to the numbers below a count, each in the block at its own
address. -/
def Filled (turns count : Nat) : Prop :=
  ∃ events session elements, AvlRun compareNumbers turns events session ∧
    SessionHolds id session elements ∧ events.length = count ∧ elements.length = count ∧
    ∀ element ∈ elements, element.address < count ∧ element.item < count

theorem filled_succ {turns count : Nat} (filled : Filled turns count) (few : count < 2 ^ 32)
    (enough : count < turns) : Filled turns (count + 1) := by
  obtain ⟨events, session, elements, run, holds, made, rfl, below⟩ := filled
  have free : session.table.data elements.length = none := by
    refine Option.eq_none_iff_forall_ne_some.mpr fun item held => ?_
    have member := (holds.table.blocks _ _).mp held
    exact lt_irrefl _ (below _ member).1
  obtain ⟨reply, next, later, ran, holds', performs⟩ := perform_holds orders_compareNumbers holds
    few enough (.insert (blockAt elements.length) elements.length 4) trivial
  have granted : grants session.table (.insert (blockAt elements.length) elements.length 4) = _ :=
    allocated_blockAt (run_mapped run) free 4
  refine ⟨⟨.insert (blockAt elements.length) elements.length 4, _, reply⟩ :: events, next, later,
    run.cons ⟨trivial, rfl, ran⟩, holds', ?_, ?_⟩
  · rw [List.length_cons, made]
  · rw [granted] at performs
    cases performs with
    | insert _ _ _ _ _ _ spec =>
      cases spec with
      | present element member same =>
        exact absurd (show element.item = elements.length from same) (below _ member).2.ne
      | failed _ failed => cases failed
      | added address before after split _ granted =>
        cases granted
        constructor
        · rw [split, List.length_append, List.length_append, List.length_cons, Nat.add_assoc]
        · intro element member
          rw [List.perm_middle.mem_iff, List.mem_cons] at member
          rcases member with rfl | member
          · exact ⟨Nat.lt_succ_self _, Nat.lt_succ_self _⟩
          · rw [← split] at member
            obtain ⟨address, item⟩ := below _ member
            exact ⟨Nat.lt_succ_of_lt address, Nat.lt_succ_of_lt item⟩

theorem filled {turns : Nat} :
    ∀ count, count ≤ 2 ^ 32 → count ≤ turns → Filled turns count := by
  intro count
  induction count with
  | zero =>
    exact fun _ _ => ⟨[], _, [], .nil, initialize_session id, rfl, rfl,
      fun _ member => absurd member List.not_mem_nil⟩
  | succ count inductionHypothesis =>
    intro few enough
    exact filled_succ (inductionHypothesis (by omega) (by omega)) (by omega) (by omega)

/-- The elements of a table are determined by its memory. -/
theorem TableHolds.perm {key : Item → Key} {table : AvlTable Item}
    {elements others : List (Element Item)} (holds : TableHolds key table elements)
    (holds' : TableHolds key table others) : elements.Perm others := by
  have nodup := holds.arranged.distinct.nodup.of_map
  have nodup' := holds'.arranged.distinct.nodup.of_map
  refine (List.perm_ext_iff_of_nodup nodup nodup').mpr fun element => ?_
  rw [← holds.blocks, ← holds'.blocks]

/-- A run of `2 ^ 32` insertions leaves a table that counts no element, and is not valid for
any list of elements. -/
theorem not_run_valid :
    ∃ events session, AvlRun compareNumbers (2 ^ 32 + 1) events session ∧
      events.length < 2 ^ 32 + 1 ∧ session.table.numberGenericTableElements = 0 ∧
      ∀ elements, ¬ Valid id session.table elements := by
  obtain ⟨events, session, elements, run, holds, made, length, _⟩ :=
    filled (2 ^ 32) (le_refl _) (Nat.le_succ (2 ^ 32))
  have number : session.table.numberGenericTableElements = 0 := by
    rw [holds.table.number, length, Nat.mod_self]
  refine ⟨events, session, run, by omega, number, fun others valid => ?_⟩
  obtain ⟨holds', few⟩ := valid_iff.mp valid
  have same := (holds.table.perm holds').length_eq
  omega

end Nloader.Avl
