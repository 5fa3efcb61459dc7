/-
This file is about `RtlAddAce` of `src/libs/ntdll/sd.c`. The list of ACEs is a buffer of its own; an
access outside of the list or of the memory, and a `memcpy` whose source and destination overlap,
are no run. The loop over the list goes on while it has not come to the end: it never ends at an ACE
without bytes, and an ACE that goes on behind the end of the list is taken for a whole one.
-/

import Nloader.SecurityDescriptor
import Nloader.Library.Outcome

namespace Nloader.AclAdd

open Nloader.Events ByteBlock Outcome Acl SecurityDescriptor

/-! ### The code -/

/-- Why a run does not return. -/
inductive Stop where
  | outside
  | overlap
  | outOfTurns
  deriving DecidableEq

/-- An access that has to be within the memory. -/
def access {Value : Type} : Option Value → Except Stop Value
  | none => throw .outside
  | some value => pure value

/-- The loop over `AceList`, with what it does not change: whether a compound ACE is refused. It
counts the ACEs, unless the first one is refused. -/
def countAces (aceList : List UInt8) (old : Bool) : Nat → Nat → Nat → Except Stop (Option Nat)
  | 0, _, _ => throw .outOfTurns
  | turns + 1, current, newAceCount =>
    if aceList.length ≤ current then pure (some newAceCount)
    else do
      let aceType ← access (load aceList 0 1)
      if aceType = accessAllowedCompoundAceType ∧ old then pure none
      else do
        let aceSize ← access (load aceList (current + 2) 2)
        countAces aceList old turns (current + aceSize) (newAceCount + 1)

/-- `for (Index = 0; Index < StartingIndex && Index < Acl->AceCount; Index++)`, with the number of
turns: `Current`. -/
def skipAces (memory : List UInt8) : Nat → Nat → Except Stop Nat
  | 0, current => pure current
  | left + 1, current => do
    let aceSize ← access (load memory (current + 2) 2)
    skipAces memory left (current + aceSize)

/-- `memcpy` within the memory. -/
def memcpy (memory : List UInt8) (dest src count : Nat) : Except Stop (List UInt8) :=
  if dest < src + count ∧ src < dest + count then throw .overlap
  else if memory.length < src + count then throw .outside
  else access (store memory dest ((memory.drop src).take count))

/-- The first `memcpy` of `RtlpAddData`. -/
def moveTail (memory aceList : List UInt8) (ace offset : Nat) : Except Stop (List UInt8) :=
  if 0 < offset then memcpy memory (ace + aceList.length) ace offset else pure memory

/-- `RtlpAddData`. -/
def rtlpAddData (memory aceList : List UInt8) (ace offset : Nat) : Except Stop (List UInt8) := do
  let memory ← moveTail memory aceList ace offset
  if aceList.length ≠ 0 then access (store memory ace aceList) else pure memory

/-- The end of `RtlAddAce`: the count and the revision. -/
def writeHeader (memory : List UInt8) (acl aclRevision newAceCount : Nat) :
    Except Stop (List UInt8) := do
  let aceCount ← access (load memory (acl + 4) 2)
  let memory ← access (store memory (acl + 4) (encode 2 (aceCount + newAceCount)))
  access (store memory acl (encode 1 aclRevision))

/-- What `RtlAddAce` does when it has found room: `Ace` is behind the last ACE. -/
def insertAces (memory : List UInt8) (acl ace aclRevision : Nat) (startingIndex : UInt32)
    (aceList : List UInt8) (newAceCount : Nat) : Except Stop (Status × List UInt8) := do
  let aceCount ← access (load memory (acl + 4) 2)
  let current ← skipAces memory (min startingIndex.toNat aceCount) (acl + sizeofAcl)
  let memory ← rtlpAddData memory aceList current (ace - current)
  let memory ← writeHeader memory acl aclRevision newAceCount
  pure (statusSuccess, memory)

/-- `RtlAddAce`: the status, and the memory. -/
def rtlAddAce (turns : Nat) (memory : List UInt8) (acl : Nat) (aclRevision startingIndex : UInt32)
    (aceList : List UInt8) : Except Stop (Status × List UInt8) := do
  let revision ← access (load memory acl 1)
  if revision < minAclRevision ∨ maxAclRevision < revision then
    pure (statusInvalidParameter, memory)
  else
    let (found, ace) ← access (rtlFirstFreeAce memory acl)
    if found = false then pure (statusInvalidParameter, memory)
    else
      let aclRevision := if revision ≤ aclRevision.toNat then revision else aclRevision.toNat
      if aceList.length = 0 then pure (statusInvalidParameter, memory)
      else
        match ← countAces aceList (aclRevision < aclRevision3) turns 0 0 with
        | none => pure (statusInvalidParameter, memory)
        | some newAceCount =>
          match ace with
          | none => pure (statusBufferTooSmall, memory)
          | some ace =>
            let aclSize ← access (load memory (acl + 2) 2)
            if acl + aclSize < ace + aceList.length then pure (statusBufferTooSmall, memory)
            else insertAces memory acl ace aclRevision startingIndex aceList newAceCount

/-! ### ACEs as bytes -/

/-- `sizeof(ACE_HEADER)`. -/
def sizeofAceHeader : Nat := 4

/-- The bytes of an ACE: its header, and as many as it says. -/
structure AceBytes where
  bytes : List UInt8
  header : sizeofAceHeader ≤ bytes.length
  size : load bytes 2 2 = some bytes.length

/-- ACEs, one behind the other. -/
def flat (aces : List AceBytes) : List UInt8 := aces.flatMap AceBytes.bytes

/-- An ACL has some ACEs. -/
structure HasAces (memory : List UInt8) (acl : Nat) (aces : List AceBytes) : Prop where
  count : load memory (acl + 4) 2 = some aces.length
  bytes : ∃ rest, memory.drop (acl + sizeofAcl) = flat aces ++ rest
  within : ∃ aclSize, load memory (acl + 2) 2 = some aclSize ∧
    sizeofAcl + (flat aces).length ≤ aclSize

variable {memory aceList : List UInt8} {acl aclEnd : Nat}

@[simp] theorem flat_nil : flat [] = [] := rfl

@[simp] theorem flat_cons (ace : AceBytes) (aces : List AceBytes) :
    flat (ace :: aces) = ace.bytes ++ flat aces := rfl

@[simp] theorem flat_append (first second : List AceBytes) :
    flat (first ++ second) = flat first ++ flat second := List.flatMap_append

/-- Each ACE has a header. -/
theorem length_le_flat (aces : List AceBytes) :
    sizeofAceHeader * aces.length ≤ (flat aces).length := by
  induction aces with
  | nil => exact le_refl _
  | cons ace aces inductionHypothesis =>
    have header := ace.header
    rw [flat_cons, List.length_append, List.length_cons, Nat.mul_succ]
    omega

/-- The size of an ACE is loaded. -/
theorem load_aceSize {current : Nat} {ace : AceBytes} {rest : List UInt8}
    (here : memory.drop current = ace.bytes ++ rest) :
    current + ace.bytes.length ≤ memory.length ∧
      load memory (current + 2) 2 = some ace.bytes.length ∧
      memory.drop (current + ace.bytes.length) = rest := by
  have header := ace.header
  unfold sizeofAceHeader at header
  have total := congrArg List.length here
  rw [List.length_drop, List.length_append] at total
  refine ⟨by omega, ?_, ?_⟩
  · rw [← load_drop (by omega), here, load_append rest (by omega)]
    exact ace.size
  · rw [← List.drop_drop, here, List.drop_left]

/-- The bytes of an ACE, where its size is loaded. -/
theorem exists_aceBytes {current aceSize : Nat} (size : load memory (current + 2) 2 = some aceSize)
    (header : sizeofAceHeader ≤ aceSize) (within : current + aceSize ≤ memory.length) :
    ∃ ace : AceBytes, ace.bytes.length = aceSize ∧
      memory.drop current = ace.bytes ++ memory.drop (current + aceSize) := by
  have length : ((memory.drop current).take aceSize).length = aceSize := by
    rw [List.length_take, List.length_drop]
    omega
  have split : memory.drop current =
      (memory.drop current).take aceSize ++ memory.drop (current + aceSize) := by
    rw [← List.drop_drop, List.take_append_drop]
  unfold sizeofAceHeader at header
  have loaded : load ((memory.drop current).take aceSize) 2 2 = some aceSize := by
    rw [← load_append (memory.drop (current + aceSize)) (by rw [length]; omega), ← split,
      load_drop (by omega), size]
  exact ⟨⟨(memory.drop current).take aceSize, length.symm ▸ header, length.symm ▸ loaded⟩, length,
    split⟩

/-! ### The ACEs of an ACL -/

/-- A walk that comes to its end goes over the first ACE. -/
theorem walk_succ {left current last : Nat}
    (walked : walk memory acl aclEnd (left + 1) current = some (some last)) :
    current < aclEnd ∧ ¬ Refused memory acl current ∧ ∃ aceSize,
      load memory (current + 2) 2 = some aceSize ∧
        walk memory acl aclEnd left (current + aceSize) = some (some last) := by
  rw [walk] at walked
  split at walked
  · cases walked
  rename_i inside
  obtain ⟨aceType, type, walked⟩ := Option.bind_eq_some_iff.mp walked
  obtain ⟨aclRevision, revision, walked⟩ := Option.bind_eq_some_iff.mp walked
  split at walked
  · cases walked
  rename_i goesOn
  obtain ⟨aceSize, size, walked⟩ := Option.bind_eq_some_iff.mp walked
  refine ⟨not_le.mp inside, ?_, aceSize, size, walked⟩
  rintro ⟨compound, aclRevision', revision', old⟩
  rw [Option.some.inj (revision'.symm.trans revision)] at old
  exact goesOn ⟨Option.some.inj (type.symm.trans compound), old⟩

/-- A walk that comes to its end over ACEs with a header each goes over ACEs. -/
theorem exists_aces {left current last : Nat}
    (walked : walk memory acl aclEnd left current = some (some last))
    (headers : ∀ place aceSize, WalksTo memory acl aclEnd left current place →
      load memory (place + 2) 2 = some aceSize → sizeofAceHeader ≤ aceSize)
    (within : last ≤ memory.length) :
    ∃ aces, aces.length = left ∧ last = current + (flat aces).length ∧
      memory.drop current = flat aces ++ memory.drop last := by
  induction left generalizing current with
  | zero =>
    rw [walk] at walked
    obtain rfl := Option.some.inj (Option.some.inj walked)
    exact ⟨[], rfl, rfl, rfl⟩
  | succ left inductionHypothesis =>
    obtain ⟨inside, goesOn, aceSize, size, walked'⟩ := walk_succ walked
    obtain ⟨aces, count, ends, rest⟩ := inductionHypothesis walked'
      fun place aceSize' walks => headers place aceSize' (.next inside goesOn size walks)
    obtain ⟨ace, length, split⟩ := exists_aceBytes size
      (headers current aceSize (.here left current) size) (by omega)
    refine ⟨ace :: aces, by rw [List.length_cons, count], ?_, ?_⟩
    · rw [flat_cons, List.length_append, length, ends]
      omega
    · rw [split, rest, flat_cons, List.append_assoc]

/-- A walk that comes to its end over some ACEs ends behind them. -/
theorem walk_flat {aces : List AceBytes} {current last : Nat} {rest : List UInt8}
    (walked : walk memory acl aclEnd aces.length current = some (some last))
    (here : memory.drop current = flat aces ++ rest) : last = current + (flat aces).length := by
  induction aces generalizing current with
  | nil =>
    rw [List.length_nil, walk] at walked
    exact (Option.some.inj (Option.some.inj walked)).symm
  | cons ace aces inductionHypothesis =>
    obtain ⟨_, _, aceSize, size, walked'⟩ := walk_succ walked
    rw [flat_cons, List.append_assoc] at here
    obtain ⟨_, size', rest'⟩ := load_aceSize here
    obtain rfl := Option.some.inj (size'.symm.trans size)
    rw [inductionHypothesis walked' rest', flat_cons, List.length_append]
    omega

/-- The ACEs before the index are skipped. -/
theorem skipAces_flat {aces : List AceBytes} {rest : List UInt8} {left current : Nat}
    (here : memory.drop current = flat aces ++ rest) (few : left ≤ aces.length) :
    skipAces memory left current = .ok (current + (flat (aces.take left)).length) := by
  induction left generalizing current aces with
  | zero => rfl
  | succ left inductionHypothesis =>
    cases aces with
    | nil => exact absurd few (Nat.not_succ_le_zero _)
    | cons ace aces =>
      rw [flat_cons, List.append_assoc] at here
      obtain ⟨_, size, rest'⟩ := load_aceSize here
      rw [skipAces, size]
      change skipAces memory left (current + ace.bytes.length) = _
      rw [inductionHypothesis rest' (Nat.le_of_succ_le_succ few), List.take_succ_cons, flat_cons,
        List.length_append, Nat.add_assoc]

/-! ### The list -/

/-- The loop over a list of ACEs comes to its end: the header of each ACE to which it comes is
within, and no ACE is without bytes. -/
inductive Ends (aceList : List UInt8) : Nat → Prop
  | done {current : Nat} : aceList.length ≤ current → Ends aceList current
  | next {current aceSize : Nat} : current < aceList.length →
      load aceList (current + 2) 2 = some aceSize → aceSize ≠ 0 →
      Ends aceList (current + aceSize) → Ends aceList current

section Lists

variable {old : Bool}

/-- The first ACE of a list is a compound ACE that is refused. -/
def FirstRefused (aceList : List UInt8) (old : Bool) : Prop :=
  load aceList 0 1 = some accessAllowedCompoundAceType ∧ old = true

/-- A turn over a list whose first ACE is not refused. -/
theorem countAces_succ (some' : aceList ≠ []) (accepted : ¬ FirstRefused aceList old)
    (turns current newAceCount : Nat) :
    countAces aceList old (turns + 1) current newAceCount =
      if aceList.length ≤ current then .ok (some newAceCount)
      else access (load aceList (current + 2) 2) >>= fun aceSize =>
        countAces aceList old turns (current + aceSize) (newAceCount + 1) := by
  obtain ⟨aceType, type⟩ := exists_load
    (show 0 + 1 ≤ aceList.length by have := List.length_pos_iff.mpr some'; omega)
  rw [countAces, type]
  refine if_congr Iff.rfl rfl (if_neg fun refused => accepted ?_)
  rw [FirstRefused, type, refused.1]
  exact ⟨rfl, refused.2⟩

/-- The loop ends if and only if it comes to the end of the list. -/
theorem countAces_iff (some' : aceList ≠ []) (accepted : ¬ FirstRefused aceList old)
    (current newAceCount : Nat) :
    (∃ turns counted, countAces aceList old turns current newAceCount = .ok (some counted)) ↔
      Ends aceList current := by
  constructor
  · rintro ⟨turns, counted, ran⟩
    induction turns generalizing current newAceCount with
    | zero => exact nomatch ran
    | succ turns inductionHypothesis =>
      rw [countAces_succ some' accepted] at ran
      split at ran
      · rename_i ended
        exact .done ended
      · rename_i inside
        cases size : load aceList (current + 2) 2 with
        | none =>
          rw [size] at ran
          exact nomatch ran
        | some aceSize =>
          rw [size] at ran
          have rest := inductionHypothesis _ _ ran
          by_cases none : aceSize = 0
          · rw [none] at rest
            exact rest
          · exact .next (not_le.mp inside) size none rest
  · intro ends
    induction ends generalizing newAceCount with
    | done ended =>
      exact ⟨1, newAceCount, by rw [countAces_succ some' accepted, if_pos ended]⟩
    | next inside size _ _ inductionHypothesis =>
      obtain ⟨turns, counted, ran⟩ := inductionHypothesis (newAceCount + 1)
      refine ⟨turns + 1, counted, ?_⟩
      rw [countAces_succ some' accepted, if_neg (not_le.mpr inside), size]
      exact ran

/-- The number of turns does not matter to a loop that ends. -/
theorem countAces_mono {turns current newAceCount : Nat} {counted : Option Nat}
    (ran : countAces aceList old turns current newAceCount = .ok counted) :
    countAces aceList old (turns + 1) current newAceCount = .ok counted := by
  induction turns generalizing current newAceCount with
  | zero => exact nomatch ran
  | succ turns inductionHypothesis =>
    rw [countAces] at ran ⊢
    by_cases ended : aceList.length ≤ current
    · rw [if_pos ended] at ran ⊢
      exact ran
    rw [if_neg ended] at ran ⊢
    obtain ⟨aceType, type, ran⟩ := bind_eq_ok.mp ran
    rw [type, ok_bind]
    by_cases refused : aceType = accessAllowedCompoundAceType ∧ old
    · rw [if_pos refused] at ran ⊢
      exact ran
    rw [if_neg refused] at ran ⊢
    obtain ⟨aceSize, size, ran⟩ := bind_eq_ok.mp ran
    rw [size, ok_bind]
    exact inductionHypothesis ran

/-- The loop refuses the first ACE, or counts. -/
theorem countAces_eq_none (some' : aceList ≠ []) {turns current newAceCount : Nat}
    (ran : countAces aceList old turns current newAceCount = .ok none) :
    FirstRefused aceList old := by
  by_contra accepted
  induction turns generalizing current newAceCount with
  | zero => exact nomatch ran
  | succ turns inductionHypothesis =>
    rw [countAces_succ some' accepted] at ran
    split at ran
    · exact nomatch Except.ok.inj ran
    · cases size : load aceList (current + 2) 2 with
      | none =>
        rw [size] at ran
        exact nomatch ran
      | some aceSize =>
        rw [size] at ran
        exact inductionHypothesis ran

theorem countAces_refused (some' : aceList ≠ []) (refused : FirstRefused aceList old) :
    countAces aceList old 1 0 0 = .ok none := by
  have positive := List.length_pos_iff.mpr some'
  rw [countAces, if_neg (not_le.mpr positive), refused.1]
  exact if_pos ⟨rfl, refused.2⟩

/-- A list of ACEs is counted. -/
theorem countAces_flat (some' : aceList ≠ []) (accepted : ¬ FirstRefused aceList old)
    {aces : List AceBytes} {turns current newAceCount counted : Nat}
    (here : aceList.drop current = flat aces)
    (ran : countAces aceList old turns current newAceCount = .ok (some counted)) :
    counted = newAceCount + aces.length := by
  induction turns generalizing current newAceCount aces with
  | zero => exact nomatch ran
  | succ turns inductionHypothesis =>
    rw [countAces_succ some' accepted] at ran
    cases aces with
    | nil =>
      rw [if_pos (List.drop_eq_nil_iff.mp here)] at ran
      exact (Option.some.inj (Except.ok.inj ran)).symm
    | cons ace aces =>
      rw [flat_cons] at here
      obtain ⟨inside, size, rest⟩ := load_aceSize here
      have header := ace.header
      unfold sizeofAceHeader at header
      rw [if_neg (by omega), size] at ran
      rw [inductionHypothesis rest ran, List.length_cons]
      omega

/-- The loop comes to the end of a list of ACEs. -/
theorem ends_flat {aces : List AceBytes} {current : Nat}
    (here : aceList.drop current = flat aces) : Ends aceList current := by
  induction aces generalizing current with
  | nil => exact .done (List.drop_eq_nil_iff.mp here)
  | cons ace aces inductionHypothesis =>
    rw [flat_cons] at here
    obtain ⟨inside, size, rest⟩ := load_aceSize here
    have header := ace.header
    unfold sizeofAceHeader at header
    exact .next (by omega) size (by omega) (inductionHypothesis rest)

end Lists

/-! ### The insertion -/

/-- Bytes are moved away by the length of the list that takes their place. -/
theorem memcpy_tail (front tail : List UInt8) {rest : List UInt8} {count : Nat}
    (apart : tail.length ≤ count) (room : count ≤ rest.length) (some' : 0 < tail.length) :
    ∃ hole : List UInt8, hole.length = count ∧
      memcpy (front ++ (tail ++ rest)) (front.length + count) front.length tail.length =
        .ok (front ++ (hole ++ (tail ++ rest.drop count))) := by
  have total : (tail ++ rest).length = tail.length + rest.length := List.length_append
  have hole : ((tail ++ rest).take count).length = count := by
    rw [List.length_take]
    omega
  have old : (((tail ++ rest).drop count).take tail.length).length = tail.length := by
    rw [List.length_take, List.length_drop]
    omega
  have back : ((tail ++ rest).drop count).drop tail.length = rest.drop count := by
    rw [List.drop_drop, Nat.add_comm, ← List.drop_drop, List.drop_left]
  have split : front ++ (tail ++ rest) = front ++ ((tail ++ rest).take count ++
      (((tail ++ rest).drop count).take tail.length ++ rest.drop count)) := by
    rw [← back, List.take_append_drop, List.take_append_drop]
  refine ⟨(tail ++ rest).take count, hole, ?_⟩
  have stored := store_behind front ((tail ++ rest).take count) (rest.drop count) old.symm
  rw [← split, hole] at stored
  rw [memcpy, if_neg (by omega), if_neg (by rw [List.length_append]; omega), List.drop_left,
    List.take_left, stored]
  rfl

/-- The tail is moved and the list is copied, unless the tail is longer than the list. -/
theorem rtlpAddData_eq (front tail : List UInt8) {rest : List UInt8} (some' : aceList ≠ [])
    (room : aceList.length ≤ rest.length) :
    rtlpAddData (front ++ (tail ++ rest)) aceList front.length tail.length =
      if aceList.length < tail.length then .error .overlap
      else .ok (front ++ (aceList ++ (tail ++ rest.drop aceList.length))) := by
  have positive := List.length_pos_iff.mpr some'
  have nonempty : aceList.length ≠ 0 := Nat.ne_of_gt positive
  have copied : ∀ {hole : List UInt8} (back : List UInt8), hole.length = aceList.length →
      access (store (front ++ (hole ++ back)) front.length aceList) =
        .ok (front ++ (aceList ++ back)) := fun back same => by
    rw [store_block front back same.symm]
    rfl
  rw [rtlpAddData, moveTail]
  by_cases long : aceList.length < tail.length
  · rw [if_pos long, if_pos (by omega), memcpy, if_pos ⟨by omega, by omega⟩]
    rfl
  rw [if_neg long]
  by_cases none : tail = []
  · subst none
    have hole : (rest.take aceList.length).length = aceList.length := by
      rw [List.length_take]
      omega
    have stored := copied (rest.drop aceList.length) hole
    rw [List.take_append_drop] at stored
    rw [List.length_nil, if_neg (Nat.lt_irrefl 0), pure_eq, ok_bind, if_pos nonempty]
    exact stored
  · obtain ⟨hole, same, moved⟩ :=
      memcpy_tail front tail (not_lt.mp long) room (List.length_pos_iff.mpr none)
    rw [if_pos (List.length_pos_iff.mpr none), moved, ok_bind, if_pos nonempty]
    exact copied _ same

theorem access_eq_ok {Value : Type} {run : Option Value} {value : Value}
    (some' : run = some value) : access run = .ok value := by
  rw [some']
  rfl

/-- The place of the insertion cuts an ACL into what is before it and the tail of its ACEs. -/
theorem split_at {aces : List AceBytes} {rest : List UInt8}
    (here : memory.drop (acl + sizeofAcl) = flat aces ++ rest) (index : Nat) :
    memory = memory.take (acl + sizeofAcl) ++ flat (aces.take index) ++
      (flat (aces.drop index) ++ rest) := by
  conv_lhs => rw [← List.take_append_drop (acl + sizeofAcl) memory, here]
  conv_lhs => rw [← List.take_append_drop index aces, flat_append]
  simp only [List.append_assoc]

/-- The count and the revision are written, and nothing else. -/
theorem writeHeader_spec {aceCount : Nat} (count : load memory (acl + 4) 2 = some aceCount)
    (within : acl + sizeofAcl ≤ memory.length) (aclRevision newAceCount : Nat) :
    ∃ after, writeHeader memory acl aclRevision newAceCount = .ok after ∧
      (aceCount + newAceCount < 256 ^ 2 →
        load after (acl + 4) 2 = some (aceCount + newAceCount)) ∧
      load after (acl + 2) 2 = load memory (acl + 2) 2 ∧
      after.drop (acl + sizeofAcl) = memory.drop (acl + sizeofAcl) := by
  unfold sizeofAcl at *
  have two : (encode 2 (aceCount + newAceCount)).length = 2 := length_encode 2 _
  have one : (encode 1 aclRevision).length = 1 := length_encode 1 _
  obtain ⟨counted, stored⟩ := exists_store
    (show acl + 4 + (encode 2 (aceCount + newAceCount)).length ≤ memory.length by omega)
  have length := (length_store stored).2
  obtain ⟨after, stored'⟩ :=
    exists_store (show acl + (encode 1 aclRevision).length ≤ counted.length by omega)
  refine ⟨after, ?_, fun small => ?_, ?_, ?_⟩
  · rw [writeHeader, count]
    change (access (store _ _ _) >>= _) = _
    rw [stored]
    exact access_eq_ok stored'
  · have loaded := load_store stored
    rw [two, decode_encode small] at loaded
    rw [load_behind_store stored' (by omega), loaded]
  · rw [load_behind_store stored' (by omega), load_before_store stored (by omega)]
  · rw [drop_store stored' (by omega), drop_store stored (by omega)]

/-- The ACEs of the list are inserted, unless the tail is longer than the list. -/
theorem insertAces_eq {aces : List AceBytes} (has : HasAces memory acl aces) (some' : aceList ≠ [])
    {aclSize : Nat} (size : load memory (acl + 2) 2 = some aclSize)
    (whole : acl + aclSize ≤ memory.length)
    (room : sizeofAcl + (flat aces).length + aceList.length ≤ aclSize)
    (aclRevision : Nat) (startingIndex : UInt32) (newAceCount : Nat) :
    (aceList.length < (flat (aces.drop startingIndex.toNat)).length →
      insertAces memory acl (acl + sizeofAcl + (flat aces).length) aclRevision startingIndex aceList
        newAceCount = .error .overlap) ∧
    ((flat (aces.drop startingIndex.toNat)).length ≤ aceList.length → ∃ after,
      insertAces memory acl (acl + sizeofAcl + (flat aces).length) aclRevision startingIndex aceList
        newAceCount = .ok (statusSuccess, after) ∧
      (aces.length + newAceCount < 256 ^ 2 →
        load after (acl + 4) 2 = some (aces.length + newAceCount)) ∧
      load after (acl + 2) 2 = some aclSize ∧
      ∃ rest, after.drop (acl + sizeofAcl) = flat (aces.take startingIndex.toNat) ++
        (aceList ++ (flat (aces.drop startingIndex.toNat) ++ rest))) := by
  obtain ⟨rest, here⟩ := has.bytes
  have split := split_at here startingIndex.toNat
  have whole' := congrArg List.length here
  rw [List.length_drop, List.length_append] at whole'
  have header : (memory.take (acl + sizeofAcl)).length = acl + sizeofAcl := by
    rw [List.length_take]
    omega
  have total : (flat aces).length = (flat (aces.take startingIndex.toNat)).length +
      (flat (aces.drop startingIndex.toNat)).length := by
    rw [← List.length_append, ← flat_append, List.take_append_drop]
  have taken : aces.take (min startingIndex.toNat aces.length) = aces.take startingIndex.toNat := by
    rcases Nat.le_total startingIndex.toNat aces.length with less | more
    · rw [Nat.min_eq_left less]
    · rw [Nat.min_eq_right more, List.take_length, List.take_of_length_le more]
  have skipped := skipAces_flat here (Nat.min_le_right startingIndex.toNat aces.length)
  rw [taken] at skipped
  generalize flat (aces.take startingIndex.toNat) = before at *
  generalize flat (aces.drop startingIndex.toNat) = tail at *
  have front : (memory.take (acl + sizeofAcl) ++ before).length =
      acl + sizeofAcl + before.length := by
    rw [List.length_append, header]
  have offset : acl + sizeofAcl + (flat aces).length - (acl + sizeofAcl + before.length) =
      tail.length := by omega
  have added := rtlpAddData_eq (memory.take (acl + sizeofAcl) ++ before) tail some'
    (show aceList.length ≤ rest.length by omega)
  rw [← split, front] at added
  rw [insertAces, has.count]
  change (aceList.length < tail.length → (skipAces _ _ _ >>= _) = _) ∧
    (tail.length ≤ aceList.length → ∃ after, (skipAces _ _ _ >>= _) = _ ∧ _)
  rw [skipped, ok_bind, offset, added]
  refine ⟨fun long => ?_, fun short => ?_⟩
  · rw [if_pos long]
    rfl
  · rw [if_neg (not_lt.mpr short), ok_bind]
    have kept : ∀ {place width : Nat} (back : List UInt8), place + width ≤ acl + sizeofAcl →
        load (memory.take (acl + sizeofAcl) ++ back) place width = load memory place width := by
      intro place width back inside
      rw [load_append back (by omega), ← load_append (memory.drop (acl + sizeofAcl)) (by omega),
        List.take_append_drop]
    have back := List.append_assoc (memory.take (acl + sizeofAcl)) before
      (aceList ++ (tail ++ rest.drop aceList.length))
    rw [back]
    obtain ⟨after, written, counted, sized, behind⟩ := @writeHeader_spec
      (memory.take (acl + sizeofAcl) ++ (before ++ (aceList ++ (tail ++ rest.drop aceList.length))))
      acl aces.length (by rw [kept _ (by unfold sizeofAcl; omega)]; exact has.count)
      (by rw [List.length_append]; omega) aclRevision newAceCount
    rw [written]
    refine ⟨after, rfl, counted, ?_, rest.drop aceList.length, ?_⟩
    · rw [sized, kept _ (by unfold sizeofAcl; omega)]
      exact size
    · rw [behind, List.drop_left' header]

/-! ### Valid ACLs -/

/-- A valid ACL: `RtlValidAcl` says so, its bytes are there, and each of its ACEs has a header. -/
structure ValidAcl (memory : List UInt8) (acl : Nat) : Prop where
  valid : rtlValidAcl memory acl = some true
  within : AclWithin memory acl
  headers : ∀ aceCount aclSize place aceSize, load memory (acl + 4) 2 = some aceCount →
    load memory (acl + 2) 2 = some aclSize →
      WalksTo memory acl (acl + aclSize) aceCount (acl + sizeofAcl) place →
        load memory (place + 2) 2 = some aceSize → sizeofAceHeader ≤ aceSize

theorem rtlValidAcl_eq_true (valid : rtlValidAcl memory acl = some true) :
    ∃ revision aclSize ace, load memory acl 1 = some revision ∧
      load memory (acl + 2) 2 = some aclSize ∧ minAclRevision ≤ revision ∧
      revision ≤ maxAclRevision ∧ rtlFirstFreeAce memory acl = some (true, ace) := by
  unfold rtlValidAcl at valid
  obtain ⟨aclSize, size, valid⟩ := Option.bind_eq_some_iff.mp valid
  obtain ⟨revision, revised, valid⟩ := Option.bind_eq_some_iff.mp valid
  split at valid
  · exact absurd (Option.some.inj valid) Bool.false_ne_true
  rename_i range
  split at valid
  · exact absurd (Option.some.inj valid) Bool.false_ne_true
  obtain ⟨⟨found, ace⟩, free, valid⟩ := Option.bind_eq_some_iff.mp valid
  have found' : found = true := Option.some.inj valid
  exact ⟨revision, aclSize, ace, revised, size, by omega, by omega, found' ▸ free⟩

/-- Where `RtlFirstFreeAce` succeeds, it has walked over all ACEs. -/
theorem rtlFirstFreeAce_eq_true {ace : Option Nat}
    (free : rtlFirstFreeAce memory acl = some (true, ace)) {aclSize : Nat}
    (size : load memory (acl + 2) 2 = some aclSize) :
    ∃ aceCount last, load memory (acl + 4) 2 = some aceCount ∧
      walk memory acl (acl + aclSize) aceCount (acl + sizeofAcl) = some (some last) ∧
      ace = if aceCount = 0 ∨ last < acl + aclSize then some last else none := by
  unfold rtlFirstFreeAce at free
  obtain ⟨aceCount, count, free⟩ := Option.bind_eq_some_iff.mp free
  split at free
  · rename_i none
    obtain rfl := (Prod.mk.inj (Option.some.inj free)).2
    exact ⟨aceCount, acl + sizeofAcl, count, by rw [none, walk], by rw [if_pos (.inl none)]⟩
  · rename_i some'
    obtain ⟨aclSize', size', free⟩ := Option.bind_eq_some_iff.mp free
    obtain rfl := Option.some.inj (size'.symm.trans size)
    obtain ⟨walked, ended, free⟩ := Option.bind_eq_some_iff.mp free
    cases walked with
    | none => exact absurd (Prod.mk.inj (Option.some.inj free)).1 Bool.false_ne_true
    | some last =>
      refine ⟨aceCount, last, count, ended, ?_⟩
      rw [← (Prod.mk.inj (Option.some.inj free)).2]
      exact if_congr (or_iff_right some').symm rfl rfl

/-- The free ACE of a valid ACL is behind its ACEs. -/
theorem ValidAcl.free (valid : ValidAcl memory acl) :
    ∃ revision aclSize ace, load memory acl 1 = some revision ∧ minAclRevision ≤ revision ∧
      revision ≤ maxAclRevision ∧ load memory (acl + 2) 2 = some aclSize ∧
      acl + aclSize ≤ memory.length ∧ rtlFirstFreeAce memory acl = some (true, ace) ∧
      (∀ place, ace = some place → place ≤ acl + aclSize →
        ∃ aces, HasAces memory acl aces ∧ place = acl + sizeofAcl + (flat aces).length) ∧
      ∀ aces, HasAces memory acl aces → sizeofAcl + (flat aces).length < aclSize →
        ace = some (acl + sizeofAcl + (flat aces).length) := by
  obtain ⟨revision, aclSize, ace, revised, size, low, high, free⟩ := rtlValidAcl_eq_true valid.valid
  obtain ⟨aceCount, last, count, walked, isFree⟩ := rtlFirstFreeAce_eq_true free size
  obtain ⟨aclSize', size', whole⟩ := valid.within
  obtain rfl := Option.some.inj (size'.symm.trans size)
  refine ⟨revision, aclSize', ace, revised, low, high, size, whole, free, ?_, ?_⟩
  · rintro place rfl inside
    have here : last = place := by
      split at isFree
      · exact (Option.some.inj isFree).symm
      · exact nomatch isFree
    subst here
    obtain ⟨aces, few, ends, rest⟩ := exists_aces walked
      (fun place aceSize => valid.headers _ _ place aceSize count size) (by omega)
    exact ⟨aces, ⟨few ▸ count, ⟨_, rest⟩, aclSize', size, by omega⟩, ends⟩
  · intro aces has inside
    obtain ⟨rest, here⟩ := has.bytes
    obtain rfl := Option.some.inj (count.symm.trans has.count)
    rw [isFree, walk_flat walked here, if_pos (.inr (by omega))]

/-- The walk over ACEs comes to ACEs with a header only. -/
theorem headers_flat {aces : List AceBytes} {current place aceSize : Nat} {rest : List UInt8}
    (here : memory.drop current = flat aces ++ rest)
    (walks : WalksTo memory acl aclEnd aces.length current place)
    (size : load memory (place + 2) 2 = some aceSize) : sizeofAceHeader ≤ aceSize := by
  induction aces generalizing current with
  | nil => cases walks
  | cons ace aces inductionHypothesis =>
    rw [flat_cons, List.append_assoc] at here
    obtain ⟨_, size', rest'⟩ := load_aceSize here
    cases walks with
    | here =>
      rw [← Option.some.inj (size'.symm.trans size)]
      exact ace.header
    | next _ _ size'' walks' =>
      rw [← Option.some.inj (size'.symm.trans size'')] at walks'
      exact inductionHypothesis rest' walks'

/-- An ACL that has some ACEs, and of which `RtlValidAcl` says that it is valid, is. -/
theorem validAcl_of_hasAces {aces : List AceBytes} (has : HasAces memory acl aces)
    (valid : rtlValidAcl memory acl = some true) (within : AclWithin memory acl) :
    ValidAcl memory acl := by
  refine ⟨valid, within, fun aceCount _ place aceSize count _ walks size => ?_⟩
  obtain ⟨rest, here⟩ := has.bytes
  rw [Option.some.inj (count.symm.trans has.count)] at walks
  exact headers_flat here walks size

/-! ### What an insertion comes to -/

/-- The ACEs of the list are inserted into those of the ACL. -/
def Inserted (memory after : List UInt8) (acl index : Nat) (aceList : List UInt8) : Prop :=
  ∃ aces new, HasAces memory acl aces ∧ aceList = flat new ∧
    HasAces after acl (aces.take index ++ new ++ aces.drop index)

/-- A call returns; it inserts the ACEs of the list, or changes nothing. -/
def Meets (memory : List UInt8) (acl : Nat) (aclRevision startingIndex : UInt32)
    (aceList : List UInt8) : Prop :=
  ∃ turns status after,
    rtlAddAce turns memory acl aclRevision startingIndex aceList = .ok (status, after) ∧
      (status = statusSuccess → Inserted memory after acl startingIndex.toNat aceList) ∧
      (status ≠ statusSuccess → after = memory)

/-- The condition under which it does: the list has no bytes, or its first ACE is refused; or the
loop over it ends, and, where the ACL has room for it, it is a list of ACEs and no shorter than the
ACEs that have to move. -/
def Insertable (memory : List UInt8) (acl : Nat) (aclRevision startingIndex : UInt32)
    (aceList : List UInt8) : Prop :=
  aceList = [] ∨
    (∃ revision, load memory acl 1 = some revision ∧
      FirstRefused aceList (min revision aclRevision.toNat < aclRevision3)) ∨
    (Ends aceList 0 ∧ ∀ aces aclSize, HasAces memory acl aces →
      load memory (acl + 2) 2 = some aclSize →
        sizeofAcl + (flat aces).length + aceList.length ≤ aclSize →
          (∃ new, aceList = flat new) ∧
            (flat (aces.drop startingIndex.toNat)).length ≤ aceList.length)

/-- A call for a valid ACL and a list with bytes. -/
theorem rtlAddAce_eq {revision aclSize : Nat} {ace : Option Nat}
    (revised : load memory acl 1 = some revision) (low : minAclRevision ≤ revision)
    (high : revision ≤ maxAclRevision) (size : load memory (acl + 2) 2 = some aclSize)
    (free : rtlFirstFreeAce memory acl = some (true, ace)) (some' : aceList ≠ [])
    (turns : Nat) (aclRevision startingIndex : UInt32) :
    rtlAddAce turns memory acl aclRevision startingIndex aceList =
      countAces aceList (min revision aclRevision.toNat < aclRevision3) turns 0 0 >>= fun counted =>
        match counted, ace with
        | none, _ => .ok (statusInvalidParameter, memory)
        | some _, none => .ok (statusBufferTooSmall, memory)
        | some newAceCount, some ace =>
          if acl + aclSize < ace + aceList.length then .ok (statusBufferTooSmall, memory)
          else insertAces memory acl ace (min revision aclRevision.toNat) startingIndex aceList
            newAceCount := by
  have nonempty : ¬ aceList.length = 0 := fun none => some' (List.length_eq_zero_iff.mp none)
  rw [rtlAddAce, access_eq_ok revised, ok_bind, if_neg (by omega), access_eq_ok free, ok_bind]
  dsimp only
  rw [if_neg Bool.noConfusion, if_neg nonempty]
  refine congrArg (fun next => countAces aceList
    (decide (min revision aclRevision.toNat < aclRevision3)) turns 0 0 >>= next)
    (funext fun counted => ?_)
  cases counted with
  | none => rfl
  | some newAceCount =>
    cases ace with
    | none => rfl
    | some ace =>
      dsimp only
      rw [access_eq_ok size, ok_bind]
      rfl

/-- The condition for a list with bytes whose first ACE is not refused. -/
theorem insertable_iff {revision aclSize : Nat} {aclRevision startingIndex : UInt32}
    (revised : load memory acl 1 = some revision) (size : load memory (acl + 2) 2 = some aclSize)
    (some' : aceList ≠ [])
    (accepted : ¬ FirstRefused aceList (min revision aclRevision.toNat < aclRevision3)) :
    Insertable memory acl aclRevision startingIndex aceList ↔
      (Ends aceList 0 ∧ ∀ aces, HasAces memory acl aces →
        sizeofAcl + (flat aces).length + aceList.length ≤ aclSize →
          (∃ new, aceList = flat new) ∧
            (flat (aces.drop startingIndex.toNat)).length ≤ aceList.length) := by
  constructor
  · rintro (none | ⟨revision', revised', refused⟩ | ⟨ends, fits⟩)
    · exact absurd none some'
    · rw [Option.some.inj (revised'.symm.trans revised)] at refused
      exact absurd refused accepted
    · exact ⟨ends, fun aces has => fits aces aclSize has size⟩
  · rintro ⟨ends, fits⟩
    refine .inr (.inr ⟨ends, fun aces aclSize' has size' => ?_⟩)
    rw [Option.some.inj (size'.symm.trans size)]
    exact fits aces has

/-- An insertion leaves an ACL with the ACEs inserted. -/
theorem hasAces_insert {after rest : List UInt8} {aces new : List AceBytes} {aclSize index : Nat}
    (room : sizeofAcl + (flat aces).length + (flat new).length ≤ aclSize)
    (counted : aces.length + new.length < 256 ^ 2 →
      load after (acl + 4) 2 = some (aces.length + new.length))
    (sized : load after (acl + 2) 2 = some aclSize)
    (bytes : after.drop (acl + sizeofAcl) =
      flat (aces.take index) ++ (flat new ++ (flat (aces.drop index) ++ rest))) :
    HasAces after acl (aces.take index ++ new ++ aces.drop index) := by
  have small := (bounds_of_load sized).2
  have first := length_le_flat aces
  have second := length_le_flat new
  have parts : (aces.take index).length + (aces.drop index).length = aces.length := by
    rw [← List.length_append, List.take_append_drop]
  have total : (flat (aces.take index)).length + (flat (aces.drop index)).length =
      (flat aces).length := by
    rw [← List.length_append, ← flat_append, List.take_append_drop]
  unfold sizeofAceHeader at first second
  refine ⟨?_, ⟨rest, ?_⟩, aclSize, sized, ?_⟩
  · rw [counted (by omega), List.length_append, List.length_append]
    congr 1
    omega
  · rw [bytes, flat_append, flat_append]
    simp only [List.append_assoc]
  · rw [flat_append, flat_append, List.length_append, List.length_append]
    omega

/-- A call meets what it is to do if and only if the list can be inserted. -/
theorem rtlAddAce_meets_iff (memory : List UInt8) (acl : Nat) (valid : ValidAcl memory acl)
    (aclRevision startingIndex : UInt32) (aceList : List UInt8) :
    Meets memory acl aclRevision startingIndex aceList ↔
      Insertable memory acl aclRevision startingIndex aceList := by
  obtain ⟨revision, aclSize, ace, revised, low, high, size, whole, free, behind, room⟩ := valid.free
  by_cases none : aceList = []
  · refine ⟨fun _ => .inl none, fun _ => ⟨0, statusInvalidParameter, memory, ?_, ?_, ?_⟩⟩
    · rw [rtlAddAce, access_eq_ok revised, ok_bind, if_neg (by omega), access_eq_ok free, ok_bind]
      dsimp only
      rw [if_neg Bool.noConfusion, if_pos (List.length_eq_zero_iff.mpr none)]
      rfl
    · exact fun impossible => absurd impossible (by decide)
    · exact fun _ => rfl
  have positive := List.length_pos_iff.mpr none
  by_cases refused : FirstRefused aceList (min revision aclRevision.toNat < aclRevision3)
  · refine ⟨fun _ => .inr (.inl ⟨revision, revised, refused⟩),
      fun _ => ⟨1, statusInvalidParameter, memory, ?_, ?_, ?_⟩⟩
    · rw [rtlAddAce_eq revised low high size free none, countAces_refused none refused]
      rfl
    · exact fun impossible => absurd impossible (by decide)
    · exact fun _ => rfl
  rw [insertable_iff revised size none refused]
  constructor
  · rintro ⟨turns, status, after, ran, succeeds, _⟩
    rw [rtlAddAce_eq revised low high size free none] at ran
    obtain ⟨counted, counts, ran⟩ := bind_eq_ok.mp ran
    cases counted with
    | none => exact absurd (countAces_eq_none none counts) refused
    | some newAceCount =>
      refine ⟨(countAces_iff none refused 0 0).mp ⟨turns, newAceCount, counts⟩,
        fun aces has enough => ?_⟩
      rw [room aces has (by omega)] at ran
      dsimp only at ran
      rw [if_neg (by omega)] at ran
      obtain ⟨overlaps, inserts⟩ := insertAces_eq has none size whole enough
        (min revision aclRevision.toNat) startingIndex newAceCount
      by_cases long : aceList.length < (flat (aces.drop startingIndex.toNat)).length
      · rw [overlaps long] at ran
        exact nomatch ran
      · obtain ⟨after', inserted, _⟩ := inserts (not_lt.mp long)
        rw [inserted] at ran
        obtain ⟨_, new, _, list, _⟩ := succeeds (Prod.mk.inj (Except.ok.inj ran)).1.symm
        exact ⟨⟨new, list⟩, not_lt.mp long⟩
  · rintro ⟨ends, fits⟩
    obtain ⟨turns, newAceCount, counts⟩ := (countAces_iff none refused 0 0).mpr ends
    have ran := rtlAddAce_eq revised low high size free none turns aclRevision startingIndex
    rw [counts, ok_bind] at ran
    have tooSmall : rtlAddAce turns memory acl aclRevision startingIndex aceList =
        .ok (statusBufferTooSmall, memory) →
        Meets memory acl aclRevision startingIndex aceList := fun same =>
      ⟨turns, statusBufferTooSmall, memory, same, fun impossible => absurd impossible (by decide),
        fun _ => rfl⟩
    cases ace with
    | none => exact tooSmall ran
    | some place =>
      dsimp only at ran
      by_cases small : acl + aclSize < place + aceList.length
      · rw [if_pos small] at ran
        exact tooSmall ran
      · rw [if_neg small] at ran
        obtain ⟨aces, has, rfl⟩ := behind place rfl (by omega)
        obtain ⟨⟨new, list⟩, short⟩ := fits aces has (by omega)
        obtain ⟨after, inserted, counted, sized, rest, bytes⟩ :=
          (insertAces_eq has none size whole (by omega)
            (min revision aclRevision.toNat) startingIndex newAceCount).2 short
        rw [inserted] at ran
        refine ⟨turns, statusSuccess, after, ran, fun _ => ⟨aces, new, has, list, ?_⟩,
          fun impossible => absurd rfl impossible⟩
        have number := @countAces_flat aceList _ none refused new turns 0 0 newAceCount
          (by rw [list, List.drop_zero]) counts
        rw [Nat.zero_add] at number
        subst list number
        exact hasAces_insert (by omega) counted sized bytes

/-- An ACE of eight bytes. -/
def shortAce : AceBytes where
  bytes := [0, 0, 8, 0, 0, 0, 0, 0]
  header := by decide
  size := rfl

/-- An ACL with two ACEs of eight bytes, and room for two more. -/
def twoAces : List UInt8 :=
  [2, 0, 40, 0, 2, 0, 0, 0] ++ flat [shortAce, shortAce] ++ List.replicate 16 0

theorem twoAces_valid : ValidAcl twoAces 0 := by
  have has : HasAces twoAces 0 [shortAce, shortAce] :=
    ⟨by decide +kernel, ⟨List.replicate 16 0, by decide +kernel⟩, 40, by decide +kernel, by decide⟩
  exact validAcl_of_hasAces has (by decide +kernel) ⟨40, by decide +kernel, by decide⟩

theorem rtlAddAce_meets_iff_twoAces :
    Meets twoAces 0 2 2 shortAce.bytes ↔ Insertable twoAces 0 2 2 shortAce.bytes :=
  rtlAddAce_meets_iff twoAces 0 twoAces_valid 2 2 shortAce.bytes

/-- An ACE is to be inserted before two of its size. -/
theorem not_rtlAddAce_meets : ¬ Meets twoAces 0 2 0 shortAce.bytes := by
  rintro ⟨turns, status, after, ran, _⟩
  match turns with
  | 0 => exact nomatch ran
  | 1 => exact nomatch ran
  | turns + 2 =>
    have overlaps : rtlAddAce (turns + 2) twoAces 0 2 0 shortAce.bytes = .error .overlap := rfl
    rw [overlaps] at ran
    exact nomatch ran

end Nloader.AclAdd
