/-
This file proves what calls of `RtlAddAccessAllowedAce` make of an ACL. Wherever the ACL lies in
memory, behind its header are the ACEs of the calls that have succeeded, one after the other, and
then the bytes that are free. A call that finds room for its ACE there writes it to the beginning of
the free bytes and counts it in the header; every other call has stored nothing.
-/

import Nloader.Acl

namespace Nloader.Acl

open Nloader.Events ByteBlock

/-! ### An ACL in memory -/

/-- An ACE for a valid SID. -/
structure Ace where
  accessMask : UInt32
  sid : Sid
  valid : rtlValidSid (some sid) = true

/-- `AceSize`. -/
def Ace.size (ace : Ace) : Nat := aceSize none none ace.sid

/-- An ACE as bytes: its type, its flags, its size, its access mask and its SID. -/
def Ace.bytes (ace : Ace) : List UInt8 :=
  encode 1 accessAllowedAceType.toNat ++ (encode 1 0 ++ (encode 2 ace.size ++
    (encode 4 ace.accessMask.toNat ++ ace.sid.bytes)))

/-- The header of an ACL. -/
def header (revision size count : Nat) : List UInt8 :=
  encode 1 revision ++ (encode 1 0 ++ (encode 2 size ++ (encode 2 count ++ encode 2 0)))

/-- The sum of the sizes of some ACEs. -/
def total (aces : List Ace) : Nat := (aces.map Ace.size).sum

/-- An ACL in memory: what is before it, its header, its ACEs, and what is behind them. -/
def image (before : List UInt8) (revision size : Nat) (aces : List Ace) (rest : List UInt8) :
    List UInt8 :=
  before ++ (header revision size aces.length ++ (aces.flatMap Ace.bytes ++ rest))

theorem size_eq (ace : Ace) : ace.size = 8 + rtlLengthSid ace.sid :=
  Nat.add_comm (rtlLengthSid ace.sid) 8

theorem length_bytes (ace : Ace) : ace.bytes.length = ace.size := by
  rw [size_eq, Ace.bytes]
  simp only [List.length_append, length_encode, length_sid]
  omega

/-- An ACE is not empty, and its size fits into its field. -/
theorem size_bounds (ace : Ace) : 8 < ace.size ∧ ace.size < 256 ^ 2 := by
  have valid := ace.valid
  rw [rtlValidSid, decide_eq_true_iff] at valid
  have few : ace.sid.subAuthorityCount.toNat ≤ 15 := valid.2
  rw [size_eq, rtlLengthSid]
  constructor <;> omega

theorem length_flatMap (aces : List Ace) : (aces.flatMap Ace.bytes).length = total aces := by
  rw [List.length_flatMap, total]
  exact congrArg List.sum (List.map_congr_left fun ace _ => length_bytes ace)

theorem length_header (revision size count : Nat) : (header revision size count).length = 8 := by
  rw [header]
  simp only [List.length_append, length_encode]

/-! ### Its fields -/

section

variable {before tail : List UInt8} {revision size count : Nat}

theorem load_revision (small : revision < 256) :
    load (before ++ (header revision size count ++ tail)) before.length 1 = some revision :=
  load_encode before (encode 1 0 ++ (encode 2 size ++ (encode 2 count ++ encode 2 0)) ++ tail) small

theorem load_size (small : size < 256 ^ 2) :
    load (before ++ (header revision size count ++ tail)) (before.length + 2) 2 = some size :=
  load_behind before (encode 1 revision ++ encode 1 0)
    (encode 2 count ++ encode 2 0 ++ tail) small

theorem load_count (small : count < 256 ^ 2) :
    load (before ++ (header revision size count ++ tail)) (before.length + 4) 2 = some count :=
  load_behind before (encode 1 revision ++ (encode 1 0 ++ encode 2 size))
    (encode 2 0 ++ tail) small

theorem store_revision (next : Nat) :
    store (before ++ (header revision size count ++ tail)) before.length (encode 1 next) =
      some (before ++ (header next size count ++ tail)) :=
  store_block before (encode 1 0 ++ (encode 2 size ++ (encode 2 count ++ encode 2 0)) ++ tail)
    (show (encode 1 next).length = (encode 1 revision).length by simp)

theorem store_count (next : Nat) :
    store (before ++ (header revision size count ++ tail)) (before.length + 4) (encode 2 next) =
      some (before ++ (header revision size next ++ tail)) :=
  store_behind before (encode 1 revision ++ (encode 1 0 ++ encode 2 size))
    (encode 2 0 ++ tail) (show (encode 2 next).length = (encode 2 count).length by simp)

end

/-! ### The free ACE -/

/-- The loop walks over the ACEs. -/
theorem walk_aces {acl aclEnd revision : Nat} {memory : List UInt8}
    (revised : load memory acl 1 = some revision) (aces : List Ace) (front rest : List UInt8)
    (laid : memory = front ++ (aces.flatMap Ace.bytes ++ rest))
    (within : front.length + total aces ≤ aclEnd) :
    walk memory acl aclEnd aces.length front.length = some (some (front.length + total aces)) := by
  induction aces generalizing front with
  | nil => rfl
  | cons ace aces inductionHypothesis =>
    obtain ⟨positive, small⟩ := size_bounds ace
    have sum : total (ace :: aces) = ace.size + total aces := rfl
    have first : memory = front ++ (ace.bytes ++ (aces.flatMap Ace.bytes ++ rest)) := by
      rw [laid, List.flatMap_cons, List.append_assoc]
    have type : load memory front.length 1 = some 0 := by
      rw [first]
      exact load_encode front _ (by decide : 0 < 256 ^ 1)
    have sized : load memory (front.length + 2) 2 = some ace.size := by
      rw [first]
      exact load_behind front (encode 1 0 ++ encode 1 0) _ small
    have others := inductionHypothesis (front ++ ace.bytes)
      (by rw [first, List.append_assoc])
      (by rw [List.length_append, length_bytes]; omega)
    rw [List.length_append, length_bytes] at others
    rw [List.length_cons, walk, if_neg (by omega), type, revised]
    dsimp only [Option.bind_eq_bind, Option.bind_some]
    rw [if_neg (by simp [accessAllowedCompoundAceType]), sized, Option.bind_some, others, sum,
      Nat.add_assoc]

section

variable {before rest : List UInt8} {revision size : Nat} {aces : List Ace}

/-- The ACEs of an ACL are walked over from the end of its header. -/
theorem walk_image (old : revision < 256) (within : 8 + total aces ≤ size) :
    walk (image before revision size aces rest) before.length (before.length + size) aces.length
      (before.length + sizeofAcl) = some (some (before.length + 8 + total aces)) := by
  have walked : walk (image before revision size aces rest) before.length
      (before.length + size) aces.length (before ++ header revision size aces.length).length = _ :=
    walk_aces (load_revision old) aces (before ++ header revision size aces.length) rest
      (List.append_assoc ..).symm (by rw [List.length_append, length_header]; omega)
  rwa [List.length_append, length_header] at walked

/-- The free bytes begin behind the ACEs, unless they are full. -/
theorem rtlFirstFreeAce_image (old : revision < 256) (small : size < 256 ^ 2)
    (few : aces.length < 256 ^ 2) (within : 8 + total aces ≤ size) :
    rtlFirstFreeAce (image before revision size aces rest) before.length =
      some (true,
        if aces = [] ∨ 8 + total aces < size then some (before.length + (8 + total aces))
        else none) := by
  have counted : load (image before revision size aces rest) (before.length + 4) 2 =
      some aces.length := load_count few
  have sized : load (image before revision size aces rest) (before.length + 2) 2 =
      some size := load_size small
  rw [rtlFirstFreeAce, counted]
  dsimp only [Option.bind_eq_bind, Option.bind_some]
  cases aces with
  | nil => rfl
  | cons ace aces =>
    rw [if_neg (show (ace :: aces).length ≠ 0 from Nat.succ_ne_zero _), sized]
    dsimp only [Option.bind_some]
    rw [walk_image old within]
    dsimp only [Option.bind_some]
    have same : before.length + 8 + total (ace :: aces) < before.length + size ↔
        ace :: aces = [] ∨ 8 + total (ace :: aces) < size := by
      rw [or_iff_right (List.cons_ne_nil ace aces)]
      omega
    rw [if_congr same rfl rfl, Nat.add_assoc]

end

/-! ### Writing an ACE -/

/-- The eight bytes that a longer list begins with. -/
theorem exists_eight {bytes : List UInt8} {length : Nat} (long : bytes.length = 8 + length) :
    ∃ a b c d e f g h rest, bytes = a :: b :: c :: d :: e :: f :: g :: h :: rest ∧
      rest.length = length := by
  match bytes with
  | a :: b :: c :: d :: e :: f :: g :: h :: rest =>
    refine ⟨a, b, c, d, e, f, g, h, rest, rfl, ?_⟩
    simp only [List.length_cons] at long
    omega
  | [] | [_] | [_, _] | [_, _, _] | [_, _, _, _] | [_, _, _, _, _] | [_, _, _, _, _, _]
  | [_, _, _, _, _, _, _] =>
    simp only [List.length_cons, List.length_nil] at long
    omega

/-- The fields of an ACE are written over as many bytes, one after the other. -/
theorem store_fields (front rest : List UInt8) (ace : Ace) {old : List UInt8}
    (room : old.length = ace.size) :
    (do
      let memory ← store (front ++ (old ++ rest)) (front.length + 1) (encode 1 0)
      let memory ← store memory front.length (encode 1 accessAllowedAceType.toNat)
      let memory ← store memory (front.length + 2) (encode 2 ace.size)
      let memory ← store memory (front.length + 4) (encode 4 ace.accessMask.toNat)
      store memory (front.length + 8) ace.sid.bytes) =
      some (front ++ (ace.bytes ++ rest)) := by
  obtain ⟨a, b, c, d, e, f, g, h, sid, rfl, sid_length⟩ :=
    exists_eight (room.trans (size_eq ace))
  have flags : store (front ++ (a :: b :: c :: d :: e :: f :: g :: h :: (sid ++ rest)))
      (front.length + 1) (encode 1 0) = _ :=
    store_behind front [a] (c :: d :: e :: f :: g :: h :: (sid ++ rest))
      (show (encode 1 0).length = [b].length from rfl)
  have type := store_block front (0 :: c :: d :: e :: f :: g :: h :: (sid ++ rest))
    (show (encode 1 accessAllowedAceType.toNat).length = [a].length from rfl)
  have sized := store_behind front [0, 0] (e :: f :: g :: h :: (sid ++ rest))
    (show (encode 2 ace.size).length = [c, d].length from rfl)
  have mask := store_behind front (0 :: 0 :: encode 2 ace.size) (sid ++ rest)
    (show (encode 4 ace.accessMask.toNat).length = [e, f, g, h].length from rfl)
  have copied := store_behind front
    (0 :: 0 :: (encode 2 ace.size ++ encode 4 ace.accessMask.toNat)) rest
    (show ace.sid.bytes.length = sid.length by rw [length_sid, sid_length])
  refine (congrArg (Option.bind · _) flags).trans ?_
  refine (congrArg (Option.bind · _) type).trans ?_
  refine (congrArg (Option.bind · _) sized).trans ?_
  refine (congrArg (Option.bind · _) mask).trans ?_
  refine copied.trans ?_
  rw [Ace.bytes]
  rfl

/-- A SID has room for itself. -/
theorem rtlCopySid_length {memory next : List UInt8} {dest : Nat} {sid : Sid}
    (stored : store memory dest sid.bytes = some next) :
    rtlCopySid memory (rtlLengthSid sid) dest sid = some (statusSuccess, next) := by
  rw [rtlCopySid, if_neg (lt_irrefl _), stored]
  rfl

/-- An ACE is written over as many free bytes, and counted in the header. -/
theorem writeAce_image {before old rest : List UInt8} {revision size : Nat} {aces : List Ace}
    (few : aces.length < 256 ^ 2) (next : Nat) (ace : Ace) (room : old.length = ace.size) :
    writeAce (image before revision size aces (old ++ rest)) before.length
        (before.length + (8 + total aces)) next 0 ace.accessMask none none ace.sid
        accessAllowedAceType =
      some (image before next size (aces ++ [ace]) rest) := by
  have place : before.length + (8 + total aces) =
      (before ++ (header revision size aces.length ++ aces.flatMap Ace.bytes)).length := by
    simp only [List.length_append, length_header, length_flatMap]
  have fields := store_fields
    (before ++ (header revision size aces.length ++ aces.flatMap Ace.bytes)) rest ace room
  rw [← place] at fields
  simp only [List.append_assoc] at fields
  obtain ⟨flagged, flags, fields⟩ := Option.bind_eq_some_iff.mp fields
  obtain ⟨typed, type, fields⟩ := Option.bind_eq_some_iff.mp fields
  obtain ⟨sized, size_field, fields⟩ := Option.bind_eq_some_iff.mp fields
  obtain ⟨masked, mask, fields⟩ := Option.bind_eq_some_iff.mp fields
  generalize tails : aces.flatMap Ace.bytes ++ (ace.bytes ++ rest) = tail at fields
  have counted : load (before ++ (header revision size aces.length ++ tail))
      (before.length + 4) 2 = some aces.length := load_count few
  have count : store (before ++ (header revision size aces.length ++ tail)) (before.length + 4)
      (encode 2 (aces.length + 1)) = some (before ++ (header revision size (aces.length + 1) ++
        tail)) := store_count (aces.length + 1)
  have revised : store (before ++ (header revision size (aces.length + 1) ++ tail)) before.length
      (encode 1 next) = some (before ++ (header next size (aces.length + 1) ++ tail)) :=
    store_revision next
  have written : image before next size (aces ++ [ace]) rest =
      before ++ (header next size (aces.length + 1) ++ tail) := by
    rw [image, List.length_append, List.length_singleton, List.flatMap_append,
      List.flatMap_singleton, List.append_assoc, tails]
  have unflagged : writeObjectFlags masked (before.length + (8 + total aces) + sizeofAce)
      (aceObjectFlags none none) =
        some (masked, before.length + (8 + total aces) + sizeofAce) := rfl
  have copied : rtlCopySid masked (rtlLengthSid ace.sid)
      (before.length + (8 + total aces) + sizeofAce) ace.sid = _ := rtlCopySid_length fields
  have same_size : aceSize none none ace.sid = ace.size := rfl
  have no_flags : (0 : UInt32).toNat = 0 := rfl
  rw [writeAce, image, no_flags, flags]
  dsimp only [Option.bind_eq_bind, Option.bind_some]
  rw [type]
  dsimp only [Option.bind_some]
  rw [same_size, size_field]
  dsimp only [Option.bind_some]
  rw [mask]
  dsimp only [Option.bind_some]
  rw [unflagged]
  dsimp only [Option.bind_some, copyGuid]
  rw [copied]
  dsimp only [Option.bind_some]
  rw [counted]
  dsimp only [Option.bind_some]
  rw [count]
  dsimp only [Option.bind_some]
  rw [revised, written]

/-! ### A call -/

/-- A call of `RtlAddAccessAllowedAce`. -/
structure Call where
  revision : UInt32
  accessMask : UInt32
  sid : Option Sid

/-- A call on an ACL. -/
def Call.add (call : Call) (memory : List UInt8) (acl : Nat) : Option (Status × List UInt8) :=
  rtlAddAccessAllowedAce memory acl call.revision call.accessMask call.sid

/-- The ACE that a call asks for, if its SID is valid. -/
def Call.ace (call : Call) : Option Ace :=
  match call.sid with
  | none => none
  | some sid =>
    if valid : rtlValidSid (some sid) = true then some ⟨call.accessMask, sid, valid⟩ else none

/-- An ACL that has been built: a revision that there is, and ACEs and free bytes that make up its
size. -/
structure Built (revision size : Nat) (aces : List Ace) (free : List UInt8) : Prop where
  low : minAclRevision ≤ revision
  high : revision ≤ maxAclRevision
  small : size < 256 ^ 2
  whole : 8 + total aces + free.length = size

section

variable {revision size : Nat} {aces : List Ace} {free : List UInt8}

theorem few_of_built (built : Built revision size aces free) : aces.length < 256 ^ 2 := by
  have each : aces.length ≤ total aces := by
    refine (List.length_map Ace.size).symm.trans_le
      (List.length_le_sum_of_one_le _ fun size member => ?_)
    obtain ⟨ace, _, rfl⟩ := List.mem_map.mp member
    exact Nat.zero_lt_of_lt (size_bounds ace).1
  have small := built.small
  have whole := built.whole
  omega

variable {before beyond : List UInt8}

theorem revision_image (built : Built revision size aces free) :
    load (image before revision size aces (free ++ beyond)) before.length 1 = some revision :=
  load_revision (built.high.trans_lt (by decide))

theorem size_image (built : Built revision size aces free) :
    load (image before revision size aces (free ++ beyond)) (before.length + 2) 2 = some size :=
  load_size built.small

theorem count_image (built : Built revision size aces free) :
    load (image before revision size aces (free ++ beyond)) (before.length + 4) 2 =
      some aces.length :=
  load_count (few_of_built built)

/-- The free ACE is at the beginning of the free bytes, unless the ACEs take all of them. -/
theorem free_image (built : Built revision size aces free) :
    rtlFirstFreeAce (image before revision size aces (free ++ beyond)) before.length =
      some (true,
        if aces = [] ∨ 8 + total aces < size then some (before.length + (8 + total aces))
        else none) := by
  have whole := built.whole
  exact rtlFirstFreeAce_image (built.high.trans_lt (by decide)) built.small (few_of_built built)
    (by omega)

/-- With a valid SID a call is rejected for its revision or for want of room, or the ACE is written
behind the others. -/
theorem rtlAddAccessAllowedAce_image (built : Built revision size aces free) (asked : UInt32)
    (ace : Ace) :
    rtlAddAccessAllowedAce (image before revision size aces (free ++ beyond)) before.length asked
        ace.accessMask (some ace.sid) =
      if maxAclRevision < asked.toNat then
        some (statusUnknownRevision, image before revision size aces (free ++ beyond))
      else if free.length < ace.size then
        some (statusAllottedSpaceExceeded, image before revision size aces (free ++ beyond))
      else
        (writeAce (image before revision size aces (free ++ beyond)) before.length
          (before.length + (8 + total aces)) (max revision asked.toNat) 0 ace.accessMask none none
          ace.sid accessAllowedAceType).bind fun next => some (statusSuccess, next) := by
  have whole := built.whole
  have invalid : ¬ rtlValidSid (some ace.sid) = false := by
    rw [ace.valid]
    decide
  have other : ¬ (accessAllowedAceType = systemMandatoryLabelAceType ∧
      memcmp ace.sid.identifierAuthority securityMandatoryLabelAuthority ≠
        securityMandatoryLabelAuthority.length) := fun both => absurd both.1 (by decide)
  have flags : ¬ invalidFlags 0 accessAllowedAceType ≠ 0 := by decide
  have latest : (if asked.toNat < revision then revision else asked.toNat) =
      max revision asked.toNat := by
    rw [max_def]
    split <;> split <;> omega
  rw [rtlAddAccessAllowedAce, rtlpAddKnownAce, if_neg invalid]
  dsimp only [Option.bind_eq_bind, Option.bind_some]
  rw [if_neg other, revision_image built]
  dsimp only [Option.bind_some]
  by_cases late : maxAclRevision < asked.toNat
  · rw [if_pos (.inr late), if_pos late]
  rw [if_neg (not_or.mpr ⟨not_lt.mpr built.high, late⟩), if_neg flags, if_neg late,
    free_image built]
  dsimp only [Option.bind_some]
  rw [if_neg Bool.false_ne_true.symm]
  have positive := (size_bounds ace).1
  by_cases room : aces = [] ∨ 8 + total aces < size
  · rw [if_pos room, size_image built]
    dsimp only [Option.bind_some]
    have same : before.length + size < before.length + (8 + total aces) +
        aceSize none none ace.sid ↔ free.length < ace.size := by
      change _ < _ + ace.size ↔ _
      omega
    rw [if_congr same rfl rfl, latest]
  · have full : free.length < ace.size := by
      have large := (not_or.mp room).2
      omega
    rw [if_neg room, if_pos full]

end

/-- A call writes its ACE behind the others, or stores nothing. -/
theorem add_image (before beyond : List UInt8) {revision size : Nat} {aces : List Ace}
    {free : List UInt8} (built : Built revision size aces free) (call : Call) :
    (∃ ace left, call.ace = some ace ∧
        call.add (image before revision size aces (free ++ beyond)) before.length =
          some (statusSuccess, image before (max revision call.revision.toNat) size (aces ++ [ace])
            (left ++ beyond)) ∧
        Built (max revision call.revision.toNat) size (aces ++ [ace]) left) ∨
      ∃ status, status ≠ statusSuccess ∧
        call.add (image before revision size aces (free ++ beyond)) before.length =
          some (status, image before revision size aces (free ++ beyond)) := by
  cases asks : call.ace with
  | none =>
    refine .inr ⟨statusInvalidSid, by decide, ?_⟩
    have invalid : rtlValidSid call.sid = false := by
      rw [Call.ace] at asks
      split at asks
      · rename_i none
        rw [none]
        rfl
      · rename_i sid some
        split at asks
        · exact nomatch asks
        · rename_i other
          rw [some]
          exact Bool.eq_false_iff.mpr other
    rw [Call.add, rtlAddAccessAllowedAce, rtlpAddKnownAce, if_pos invalid]
  | some ace =>
    have same : call.sid = some ace.sid ∧ call.accessMask = ace.accessMask := by
      rw [Call.ace] at asks
      split at asks
      · exact nomatch asks
      · rename_i sid some
        split at asks
        · rw [some, ← Option.some.inj asks]
          exact ⟨rfl, rfl⟩
        · exact nomatch asks
    rw [Call.add, same.1, same.2, rtlAddAccessAllowedAce_image built]
    by_cases late : maxAclRevision < call.revision.toNat
    · rw [if_pos late]
      exact .inr ⟨statusUnknownRevision, by decide, rfl⟩
    by_cases full : free.length < ace.size
    · rw [if_neg late, if_pos full]
      exact .inr ⟨statusAllottedSpaceExceeded, by decide, rfl⟩
    rw [if_neg late, if_neg full]
    have room : (free.take ace.size).length = ace.size := by
      rw [List.length_take]
      omega
    have split : free ++ beyond = free.take ace.size ++ (free.drop ace.size ++ beyond) := by
      rw [← List.append_assoc, List.take_append_drop]
    have sum : total (aces ++ [ace]) = total aces + ace.size := by
      rw [total, List.map_append, List.sum_append, List.map_singleton, List.sum_singleton, total]
    refine .inl ⟨ace, free.drop ace.size, rfl, ?_, ?_⟩
    · rw [split, writeAce_image (few_of_built built) _ ace room, Option.bind_some]
    · exact
        { low := built.low.trans (le_max_left _ _)
          high := max_le built.high (not_lt.mp late)
          small := built.small
          whole := by
            have whole := built.whole
            rw [sum, List.length_drop]
            omega }

/-! ### A sequence of calls -/

/-- The calls of a list one after the other: their status codes, and what they leave. -/
def addAll (acl : Nat) : List UInt8 → List Call → Option (List Status × List UInt8)
  | memory, [] => some ([], memory)
  | memory, call :: calls => do
    let (status, next) ← call.add memory acl
    let (statuses, last) ← addAll acl next calls
    some (status :: statuses, last)

/-- The calls that have succeeded. -/
def succeeded : List Call → List Status → List Call
  | call :: calls, status :: statuses =>
    if status = statusSuccess then call :: succeeded calls statuses else succeeded calls statuses
  | _, _ => []

/-- The latest of a revision and those of some calls. -/
def latest (revision : Nat) (calls : List Call) : Nat :=
  (calls.map fun call => call.revision.toNat).foldl max revision

/-- Calls write the ACEs of those that succeed one behind the other. -/
theorem addAll_image (before beyond : List UInt8) {size : Nat} (calls : List Call) {revision : Nat}
    {aces : List Ace} {free : List UInt8} (built : Built revision size aces free) :
    ∃ statuses added left,
      addAll before.length (image before revision size aces (free ++ beyond)) calls =
          some (statuses, image before (latest revision (succeeded calls statuses)) size
            (aces ++ added) (left ++ beyond)) ∧
        (succeeded calls statuses).mapM Call.ace = some added ∧
        Built (latest revision (succeeded calls statuses)) size (aces ++ added) left := by
  induction calls generalizing revision aces free with
  | nil =>
    refine ⟨[], [], free, ?_, rfl, ?_⟩
    · rw [List.append_nil]
      rfl
    · rw [List.append_nil]
      exact built
  | cons call calls inductionHypothesis =>
    rcases add_image before beyond built call with
      ⟨ace, left, asks, adds, built_next⟩ | ⟨status, fails, adds⟩
    · obtain ⟨statuses, added, last, runs, asked, built_last⟩ := inductionHypothesis built_next
      have succeeds : succeeded (call :: calls) (statusSuccess :: statuses) =
          call :: succeeded calls statuses := if_pos rfl
      refine ⟨statusSuccess :: statuses, ace :: added, last, ?_, ?_, ?_⟩
      · rw [addAll, adds, succeeds]
        dsimp only [Option.bind_eq_bind, Option.bind_some]
        rw [runs, List.append_assoc]
        rfl
      · rw [succeeds, List.mapM_cons, asks, asked]
        rfl
      · rw [List.append_assoc] at built_last
        rw [succeeds]
        exact built_last
    · obtain ⟨statuses, added, last, runs, asked, built_last⟩ := inductionHypothesis built
      have rejected : succeeded (call :: calls) (status :: statuses) =
          succeeded calls statuses := if_neg fails
      refine ⟨status :: statuses, added, last, ?_, ?_, ?_⟩
      · rw [addAll, adds, rejected]
        dsimp only [Option.bind_eq_bind, Option.bind_some]
        rw [runs]
        rfl
      · rw [rejected]
        exact asked
      · rw [rejected]
        exact built_last

/-! ### A created ACL -/

/-- A created ACL has its size rounded up and no ACEs. -/
theorem rtlCreateAcl_image {before memory created : List UInt8} {aclSize aclRevision : UInt32}
    (creates : rtlCreateAcl (before ++ memory) before.length aclSize aclRevision =
      some (statusSuccess, created)) :
    created = image before aclRevision.toNat (roundUp aclSize).toNat [] (memory.drop 8) ∧
      8 ≤ aclSize.toNat ∧ minAclRevision ≤ aclRevision.toNat ∧
      aclRevision.toNat ≤ maxAclRevision := by
  rw [rtlCreateAcl] at creates
  split at creates
  · exact absurd (Prod.mk.inj (Option.some.inj creates)).1 (by decide)
  split at creates
  · exact absurd (Prod.mk.inj (Option.some.inj creates)).1 (by decide)
  rename_i large known
  obtain ⟨low, known⟩ := not_or.mp known
  obtain ⟨high, _⟩ := not_or.mp known
  obtain ⟨sized, size, creates⟩ := Option.bind_eq_some_iff.mp creates
  obtain ⟨revised, revision, creates⟩ := Option.bind_eq_some_iff.mp creates
  obtain ⟨counted, count, creates⟩ := Option.bind_eq_some_iff.mp creates
  obtain ⟨cleared, sbz1, creates⟩ := Option.bind_eq_some_iff.mp creates
  obtain ⟨last, sbz2, same⟩ := Option.bind_eq_some_iff.mp creates
  have long : 8 ≤ memory.length := by
    have within := (length_store sbz2).1
    rw [(length_store sbz1).2, (length_store count).2, (length_store revision).2,
      (length_store size).2, length_encode, List.length_append] at within
    omega
  obtain ⟨a, b, c, d, e, f, g, h, rest, rfl, length⟩ :=
    exists_eight (show memory.length = 8 + (memory.length - 8) by omega)
  refine ⟨?_, not_lt.mp large, not_lt.mp low, not_lt.mp high⟩
  -- What the five stores make of the eight bytes, one after the other.
  obtain rfl := Option.some.inj (size.symm.trans (store_behind before [a, b]
    (e :: f :: g :: h :: rest)
    (show (encode 2 (roundUp aclSize).toNat).length = [c, d].length from rfl)))
  obtain rfl := Option.some.inj (revision.symm.trans (store_block before
    (b :: (encode 2 (roundUp aclSize).toNat ++ (e :: f :: g :: h :: rest)))
    (show (encode 1 aclRevision.toNat).length = [a].length from rfl)))
  obtain rfl := Option.some.inj (count.symm.trans (store_behind before
    (encode 1 aclRevision.toNat ++ (b :: encode 2 (roundUp aclSize).toNat)) (g :: h :: rest)
    (show (encode 2 0).length = [e, f].length from rfl)))
  obtain rfl := Option.some.inj (sbz1.symm.trans (store_behind before
    (encode 1 aclRevision.toNat) (encode 2 (roundUp aclSize).toNat ++ (encode 2 0 ++
      (g :: h :: rest)))
    (show (encode 1 0).length = [b].length from rfl)))
  obtain rfl := Option.some.inj (sbz2.symm.trans (store_behind before
    (encode 1 aclRevision.toNat ++ (encode 1 0 ++ (encode 2 (roundUp aclSize).toNat ++
      encode 2 0))) rest
    (show (encode 2 0).length = [g, h].length from rfl)))
  exact (Prod.mk.inj (Option.some.inj same)).2.symm

/-! ### What is reported -/

/-- The bytes in use are the header and the ACEs, and the others are free. -/
theorem rtlQueryInformationAcl_image {before beyond free : List UInt8} {revision size : Nat}
    {aces : List Ace} (built : Built revision size aces free) {informationLength : UInt32}
    (room : 12 ≤ informationLength) :
    rtlQueryInformationAcl (image before revision size aces (free ++ beyond)) before.length
        informationLength 2 =
      some (statusSuccess, some (.size (.ofNat aces.length) (.ofNat (8 + total aces))
        (.ofNat size - .ofNat (8 + total aces)))) := by
  have whole := built.whole
  have known : ¬ (revision < minAclRevision ∨ maxAclRevision < revision) :=
    not_or.mpr ⟨not_lt.mpr built.low, not_lt.mpr built.high⟩
  rw [rtlQueryInformationAcl, revision_image built]
  dsimp only [Option.bind_eq_bind, Option.bind_some]
  rw [if_neg known, if_neg (by decide), if_pos rfl, if_neg (UInt32.not_lt.mpr room),
    free_image built]
  dsimp only [Option.bind_some]
  rw [if_neg Bool.false_ne_true.symm, count_image built, size_image built]
  dsimp only [Option.bind_some]
  by_cases left : aces = [] ∨ 8 + total aces < size
  · rw [if_pos left]
    dsimp only
    rw [Nat.add_sub_cancel_left]
  · have full : size = 8 + total aces := by
      have large := (not_or.mp left).2
      omega
    rw [if_neg left]
    dsimp only
    rw [← full, UInt32.sub_self]

/-- What holds of an ACL when some calls on it have succeeded: behind its header are their ACEs in
order, its fields and what is reported are those of them, and a further call stores nothing outside
of it, and nothing at all if it fails. -/
structure Holds (before beyond : List UInt8) (size creation : Nat) (accepted : List Call)
    (aces : List Ace) (acl : List UInt8) : Prop where
  asked : accepted.mapM Call.ace = some aces
  length : acl.length = size
  list : ∃ free, acl.drop sizeofAcl = aces.flatMap Ace.bytes ++ free
  aclSize : load (before ++ (acl ++ beyond)) (before.length + 2) 2 = some size
  aceCount : load (before ++ (acl ++ beyond)) (before.length + 4) 2 = some accepted.length
  aclRevision : load (before ++ (acl ++ beyond)) before.length 1 = some (latest creation accepted)
  information : ∀ informationLength, 12 ≤ informationLength →
    ∃ aceCount aclBytesInUse aclBytesFree,
      rtlQueryInformationAcl (before ++ (acl ++ beyond)) before.length informationLength 2 =
          some (statusSuccess, some (.size aceCount aclBytesInUse aclBytesFree)) ∧
        aceCount.toNat = accepted.length ∧
        aclBytesInUse.toNat = 8 + (aces.map Ace.size).sum ∧
        aclBytesInUse.toNat + aclBytesFree.toNat = size
  further : ∀ call : Call, ∃ status next,
    call.add (before ++ (acl ++ beyond)) before.length = some (status, before ++ (next ++ beyond)) ∧
      next.length = size ∧ (status ≠ statusSuccess → next = acl)

theorem length_mapM {calls : List Call} {aces : List Ace}
    (asked : calls.mapM Call.ace = some aces) : aces.length = calls.length := by
  induction calls generalizing aces with
  | nil =>
    rw [← Option.some.inj asked]
    rfl
  | cons call calls inductionHypothesis =>
    rw [List.mapM_cons] at asked
    obtain ⟨ace, _, asked⟩ := Option.bind_eq_some_iff.mp asked
    obtain ⟨others, rest, same⟩ := Option.bind_eq_some_iff.mp asked
    rw [← Option.some.inj same, List.length_cons, List.length_cons, inductionHypothesis rest]

/-- An ACL behind its header. -/
def block (revision size : Nat) (aces : List Ace) (free : List UInt8) : List UInt8 :=
  header revision size aces.length ++ (aces.flatMap Ace.bytes ++ free)

theorem image_eq (before beyond : List UInt8) (revision size : Nat) (aces : List Ace)
    (free : List UInt8) :
    image before revision size aces (free ++ beyond) =
      before ++ (block revision size aces free ++ beyond) := by
  simp only [image, block, List.append_assoc]

theorem length_block {revision size : Nat} {aces : List Ace} {free : List UInt8}
    (built : Built revision size aces free) : (block revision size aces free).length = size := by
  rw [block, List.length_append, List.length_append, length_header, length_flatMap, ← built.whole]
  omega

theorem holds_of_built (before beyond : List UInt8) {creation size : Nat} {aces : List Ace}
    {free : List UInt8} {accepted : List Call} (asked : accepted.mapM Call.ace = some aces)
    (built : Built (latest creation accepted) size aces free) :
    Holds before beyond size creation accepted aces
      (block (latest creation accepted) size aces free) := by
  have few := few_of_built built
  have small := built.small
  have whole := built.whole
  have length := length_block built
  have counts := length_mapM asked
  have same := image_eq before beyond (latest creation accepted) size aces free
  refine ⟨asked, length, ⟨free, ?_⟩, ?_, ?_, ?_, ?_, ?_⟩
  · exact List.drop_left' (length_header ..)
  · rw [← same]
    exact size_image built
  · rw [← same, ← counts]
    exact count_image built
  · rw [← same]
    exact revision_image built
  · intro informationLength room
    have use : (UInt32.ofNat (8 + total aces)).toNat = 8 + total aces :=
      UInt32.toNat_ofNat_of_lt' (show 8 + total aces < 2 ^ 32 by omega)
    have all : (UInt32.ofNat size).toNat = size :=
      UInt32.toNat_ofNat_of_lt' (show size < 2 ^ 32 by omega)
    refine ⟨.ofNat aces.length, .ofNat (8 + total aces),
      .ofNat size - .ofNat (8 + total aces), ?_, ?_, ?_, ?_⟩
    · rw [← same]
      exact rtlQueryInformationAcl_image built room
    · rw [← counts]
      exact UInt32.toNat_ofNat_of_lt' (few.trans (by decide))
    · exact use
    · have le : UInt32.ofNat (8 + total aces) ≤ UInt32.ofNat size := by
        rw [UInt32.le_iff_toNat_le, use, all]
        omega
      rw [UInt32.toNat_sub_of_le _ _ le, use, all]
      omega
  · intro call
    rw [← same]
    rcases add_image before beyond built call with
      ⟨ace, left, _, adds, next⟩ | ⟨status, fails, adds⟩
    · have placed := congrArg (fun memory => some (statusSuccess, memory))
        (image_eq before beyond (max (latest creation accepted) call.revision.toNat) size
          (aces ++ [ace]) left)
      exact ⟨statusSuccess, _, adds.trans placed, length_block next,
        fun fails => absurd rfl fails⟩
    · rw [same] at adds ⊢
      exact ⟨status, _, adds, length, fun _ => rfl⟩

/-- An ACL that has been created within the bytes that its header states keeps all of this over any
calls on it, wherever it lies in memory. -/
theorem acl_holds {before created beyond memory : List UInt8} {aclSize aclRevision : UInt32}
    (small : aclSize ≤ 0xfffc)
    (creates : rtlCreateAcl (before ++ (created ++ beyond)) before.length aclSize aclRevision =
      some (statusSuccess, memory))
    (stated : load memory (before.length + 2) 2 = some created.length) (calls : List Call) :
    ∃ statuses acl aces,
      addAll before.length memory calls = some (statuses, before ++ (acl ++ beyond)) ∧
        Holds before beyond created.length aclRevision.toNat (succeeded calls statuses) aces
          acl := by
  obtain ⟨laid, large, low, high⟩ := rtlCreateAcl_image creates
  have bound : aclSize.toNat ≤ 0xfffc := small
  have rounded := roundUp_toNat (show aclSize.toNat + 4 < 2 ^ 32 by omega)
  have sized : load memory (before.length + 2) 2 = some (roundUp aclSize).toNat := by
    rw [laid]
    exact load_size (show (roundUp aclSize).toNat < 65536 by omega)
  have size : (roundUp aclSize).toNat = created.length :=
    Option.some.inj (sized.symm.trans stated)
  have split : (created ++ beyond).drop 8 = created.drop 8 ++ beyond :=
    List.drop_append_of_le_length (by omega)
  have built : Built aclRevision.toNat created.length [] (created.drop 8) :=
    { low := low
      high := high
      small := show created.length < 65536 by omega
      whole := by
        rw [List.length_drop, total, List.map_nil, List.sum_nil]
        omega }
  obtain ⟨statuses, added, free, runs, asked, built_last⟩ :=
    addAll_image before beyond calls built
  rw [laid, split, size]
  rw [List.nil_append] at runs built_last
  rw [image_eq before beyond (latest _ _)] at runs
  exact ⟨statuses, _, added, runs, holds_of_built before beyond asked built_last⟩

/-- `S-1-1-0`. -/
def exampleSid : Sid where
  revision := 1
  subAuthorityCount := 1
  identifierAuthority := [0, 0, 0, 0, 0, 1]
  subAuthority := [0, 0, 0, 0]
  authority := rfl
  subAuthorities := rfl

/-- A call that fills an ACL of 28 bytes, one that finds no room, and one without a SID. -/
def exampleCalls : List Call :=
  [⟨3, 0x1f01ff, some exampleSid⟩, ⟨4, 1, some exampleSid⟩, ⟨2, 1, none⟩]

theorem acl_holds_exampleCalls :
    ∃ statuses acl aces,
      addAll 1 ([0xaa] ++ (header 2 28 0 ++ (List.replicate 20 0xcc ++ [0xbb]))) exampleCalls =
          some (statuses, [0xaa] ++ (acl ++ [0xbb])) ∧
        Holds [0xaa] [0xbb] 28 2 (succeeded exampleCalls statuses) aces acl :=
  acl_holds (by decide : (28 : UInt32) ≤ 0xfffc)
    (show rtlCreateAcl ([0xaa] ++ (List.replicate 28 0xcc ++ [0xbb])) ([0xaa] : List UInt8).length
      28 2 = some (statusSuccess, _) from rfl) rfl exampleCalls

end Nloader.Acl
