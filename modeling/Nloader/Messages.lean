/-
This file models `RtlFindMessage` of `src/libs/ntdll/rtl.c` on the bytes of a mapped image, without
the conversion of the message for the log. The search through the resource directories is one loop
with a directory, an index and a level; the search through the blocks of a message table and the
walk over the entries of a block follow.

What an image encodes is a tree of resources and, at a leaf, a table of messages. The function
returns the address of the message that is looked up in them.
-/

import Nloader.Events
import Nloader.Library.X64

namespace Nloader.Messages

open Nloader.Events X64

/-! ### The function -/

/-- `STATUS_MESSAGE_NOT_FOUND`. -/
def statusMessageNotFound : Status := 0xC0000109

/-- An address that is some bytes further. -/
def plus (address : Word) (count : Nat) : Word := address + .ofNat 64 count

/-- A `WORD` of the image. -/
def word (memory : Memory) (address : Word) : Nat := number memory address 2

/-- A `DWORD` of the image. -/
def dword (memory : Memory) (address : Word) : Nat := number memory address 4

/-- `cur->NameIsString`. -/
def nameIsString (memory : Memory) (cur : Word) : Bool := (dword memory cur).testBit 31

/-- `cur->Id`. -/
def id (memory : Memory) (cur : Word) : Nat := word memory cur

/-- `cur->OffsetToData`. -/
def offsetToData (memory : Memory) (cur : Word) : Nat := dword memory (plus cur 4)

/-- `cur->DataIsDirectory`. -/
def dataIsDirectory (memory : Memory) (cur : Word) : Bool := (offsetToData memory cur).testBit 31

/-- `cur->OffsetToDirectory`. -/
def offsetToDirectory (memory : Memory) (cur : Word) : Nat := offsetToData memory cur % 2 ^ 31

/-- `rd->NumberOfNamedEntries + rd->NumberOfIdEntries`. -/
def numberOfEntries (memory : Memory) (rd : Word) : Nat :=
  word memory (plus rd 12) + word memory (plus rd 14)

/-- `&rd->DirectoryEntries[i]`. -/
def directoryEntry (rd : Word) (i : Nat) : Word := plus rd (16 + 8 * i)

/-- The loop over the directories: `rde`. -/
def search (memory : Memory) (root : Word) (type lang : UInt32) (rd : Word) (i len level : Nat) :
    Option Word :=
  let cur := directoryEntry rd i
  if !nameIsString memory cur && dataIsDirectory memory cur then
    if level = 1 ∧ id memory cur = type.toNat ∨ level = 2 ∧ id memory cur = 1 then
      let rd := plus root (offsetToDirectory memory cur)
      let len := numberOfEntries memory rd
      if 0 < len ∧ level + 1 < 4 then search memory root type lang rd 0 len (level + 1) else none
    else if i + 1 < len ∧ level < 4 then search memory root type lang rd (i + 1) len level
    else none
  else if level = 3 ∧ (lang = 0 ∨ id memory cur = lang.toNat) then
    some (plus root (offsetToData memory cur))
  else if i + 1 < len ∧ level < 4 then search memory root type lang rd (i + 1) len level
  else none
termination_by (4 - level, len - i)

/-- The first block from an address on that has the message, of as many as there are left. -/
def findBlock (memory : Memory) (msgId : UInt32) : Nat → Word → Option Word
  | 0, _ => none
  | remaining + 1, block =>
    if dword memory block ≤ msgId.toNat ∧ msgId.toNat ≤ dword memory (plus block 4) then some block
    else findBlock memory msgId remaining (plus block 12)

/-- The entry that is some entries further. -/
def entryAfter (memory : Memory) : Nat → Word → Word
  | 0, entry => entry
  | count + 1, entry => entryAfter memory count (plus entry (word memory entry))

/-- The status, and what is left in `*ret`; nothing is `NULL`. -/
structure Found where
  status : Status
  ret : Option Word
  deriving DecidableEq

/-- The message is not found. -/
def notFound : Found := ⟨statusMessageNotFound, none⟩

/-- The address of `DataDirectory[2]`. -/
def resourceDirectory (memory : Memory) (hmod : Word) : Word :=
  plus (plus (plus hmod (dword memory (plus hmod 0x3c))) 24) 128

/-- `root`. -/
def resourceRoot (memory : Memory) (hmod : Word) : Word :=
  plus hmod (dword memory (resourceDirectory memory hmod))

/-- `RtlFindMessage`. -/
def rtlFindMessage (memory : Memory) (hmod : Word) (type lang msgId : UInt32) : Found :=
  if dword memory (plus (resourceDirectory memory hmod) 4) = 0 then notFound
  else
    let root := resourceRoot memory hmod
    match search memory root type lang root 0 (numberOfEntries memory root) 1 with
    | none => notFound
    | some rde =>
      let data := plus hmod (dword memory rde)
      match findBlock memory msgId (dword memory data) (plus data 4) with
      | none => notFound
      | some block =>
        ⟨statusSuccess, some (entryAfter memory (msgId.toNat - dword memory block)
          (plus data (dword memory (plus block 8))))⟩

/-! ### What an image encodes -/

/-- The name of an entry of a directory. -/
inductive Name where
  | string (offset : Nat)
  | id (id : Nat)

/-- A resource: the data at an offset from the module, or a directory. -/
inductive Resource where
  | data (offset : Nat)
  | directory (entries : List (Name × Resource))

/-- The image has a name in an entry. -/
def NameAt (memory : Memory) (entry : Word) : Name → Prop
  | .string offset => nameIsString memory entry = true ∧ dword memory entry % 2 ^ 31 = offset
  | .id value => nameIsString memory entry = false ∧ id memory entry = value

mutual

/-- The image has a directory at an address. -/
inductive DirectoryAt (memory : Memory) (root : Word) : Word → List (Name × Resource) → Prop where
  | intro {rd : Word} {entries : List (Name × Resource)}
      (length : numberOfEntries memory rd = entries.length)
      (entry : ∀ index name resource, entries[index]? = some (name, resource) →
        EntryAt memory root (directoryEntry rd index) name resource) :
      DirectoryAt memory root rd entries

/-- The image has an entry of a directory at an address. -/
inductive EntryAt (memory : Memory) (root : Word) : Word → Name → Resource → Prop where
  | data {cur : Word} {name : Name} (named : NameAt memory cur name)
      (leaf : dataIsDirectory memory cur = false) :
      EntryAt memory root cur name
        (.data (dword memory (plus root (offsetToData memory cur))))
  | directory {cur : Word} {name : Name} {entries : List (Name × Resource)}
      (named : NameAt memory cur name) (branch : dataIsDirectory memory cur = true)
      (below : DirectoryAt memory root (plus root (offsetToDirectory memory cur)) entries) :
      EntryAt memory root cur name (.directory entries)

end

/-- The image has resources. -/
structure ImageAt (memory : Memory) (hmod : Word) (entries : List (Name × Resource)) : Prop where
  size : dword memory (plus (resourceDirectory memory hmod) 4) ≠ 0
  root : DirectoryAt memory (resourceRoot memory hmod) (resourceRoot memory hmod) entries

/-- A message with the length of its entry. -/
structure Message where
  length : Nat
  flags : Nat
  text : List UInt8

/-- The messages with the identifiers from the first to the last. -/
structure Block where
  lowId : Nat
  highId : Nat
  offsetToEntries : Nat
  messages : List Message
  complete : messages.length = highId + 1 - lowId

/-- The image has an entry for a message at an address. -/
structure MessageAt (memory : Memory) (entry : Word) (message : Message) : Prop where
  length : word memory entry = message.length
  flags : word memory (plus entry 2) = message.flags
  text : ∀ index byte, message.text[index]? = some byte → memory (plus entry (4 + index)) = byte

/-- The image has messages one behind the other. -/
def MessagesAt (memory : Memory) : Word → List Message → Prop
  | _, [] => True
  | entry, message :: messages =>
    MessageAt memory entry message ∧ MessagesAt memory (plus entry message.length) messages

/-- The image has a block at an address, and its messages in the table. -/
structure BlockAt (memory : Memory) (data block : Word) (content : Block) : Prop where
  lowId : dword memory block = content.lowId
  highId : dword memory (plus block 4) = content.highId
  offsetToEntries : dword memory (plus block 8) = content.offsetToEntries
  messages : MessagesAt memory (plus data content.offsetToEntries) content.messages

/-- The image has a message table at an address. -/
structure TableAt (memory : Memory) (data : Word) (table : List Block) : Prop where
  length : dword memory data = table.length
  block : ∀ index content, table[index]? = some content →
    BlockAt memory data (plus (plus data 4) (12 * index)) content

/-! ### What is looked up -/

/-- The directory of an entry with an identifier. -/
def directoryOf (value : Nat) : Name × Resource → Option (List (Name × Resource))
  | (.id other, .directory below) => if other = value then some below else none
  | _ => none

/-- The first directory with an identifier. -/
def subdirectory (entries : List (Name × Resource)) (value : Nat) :
    Option (List (Name × Resource)) :=
  entries.findSome? (directoryOf value)

/-- The data of a leaf for a language, or of any leaf. -/
def dataOf (lang : UInt32) : Name × Resource → Option Nat
  | (.id other, .data offset) => if lang = 0 ∨ other = lang.toNat then some offset else none
  | _ => none

/-- The data of the first leaf for a language, or of the first leaf. -/
def language (entries : List (Name × Resource)) (lang : UInt32) : Option Nat :=
  entries.findSome? (dataOf lang)

/-- The entry of a language. -/
def IsLeaf : Name × Resource → Prop
  | (.id _, .data _) => True
  | _ => False

/-- The data of the resource of a type with the name 1 in a language. -/
def resource (entries : List (Name × Resource)) (type lang : UInt32) : Option Nat := do
  language (← subdirectory (← subdirectory entries type.toNat) 1) lang

/-- The block has the message. -/
def Block.has (block : Block) (msgId : UInt32) : Bool :=
  block.lowId ≤ msgId.toNat && msgId.toNat ≤ block.highId

/-- The offset of an entry in the table of its block. -/
def Block.place (block : Block) (count : Nat) : Nat :=
  block.offsetToEntries + ((block.messages.take count).map Message.length).sum

/-- The block that has a message in a table, with the number of the message in it. -/
def lookup (table : List Block) (msgId : UInt32) : Option (Block × Nat) :=
  (table.find? (·.has msgId)).map fun block => (block, msgId.toNat - block.lowId)

/-- What the function should give for an image with resources whose data are message tables. -/
def answer (hmod : Word) (entries : List (Name × Resource)) (table : Nat → List Block)
    (type lang msgId : UInt32) : Found :=
  match resource entries type lang with
  | none => notFound
  | some offset =>
    match lookup (table offset) msgId with
    | none => notFound
    | some (block, number) => ⟨statusSuccess, some (plus (plus hmod offset) (block.place number))⟩

/-! ### The search through the directories -/

theorem directoryOf_data (value : Nat) (name : Name) (offset : Nat) :
    directoryOf value (name, .data offset) = none := by
  cases name <;> rfl

theorem directoryOf_directory (value other : Nat) (below : List (Name × Resource)) :
    directoryOf value (.id other, .directory below) = if other = value then some below else none :=
  rfl

theorem dataOf_data (lang : UInt32) (other offset : Nat) :
    dataOf lang (.id other, .data offset) =
      if lang = 0 ∨ other = lang.toNat then some offset else none :=
  rfl

theorem plus_zero (address : Word) : plus address 0 = address := BitVec.add_zero address

theorem plus_plus (address : Word) (first second : Nat) :
    plus (plus address first) second = plus address (first + second) := by
  rw [plus, plus, plus, BitVec.ofNat_add, BitVec.add_assoc]

section

variable {memory : Memory} {root : Word} {type lang : UInt32}

/-- An entry that is the one to be entered. -/
def Enters (memory : Memory) (type : UInt32) (cur : Word) (level : Nat) : Prop :=
  level = 1 ∧ id memory cur = type.toNat ∨ level = 2 ∧ id memory cur = 1

/-- The search goes on in the directory of an entry that is entered. -/
theorem search_enters {rd : Word} {i len level : Nat}
    (named : nameIsString memory (directoryEntry rd i) = false)
    (branch : dataIsDirectory memory (directoryEntry rd i) = true)
    (enters : Enters memory type (directoryEntry rd i) level) :
    search memory root type lang rd i len level =
      let next := plus root (offsetToDirectory memory (directoryEntry rd i))
      if 0 < numberOfEntries memory next then
        search memory root type lang next 0 (numberOfEntries memory next) (level + 1)
      else none := by
  have low : level + 1 < 4 := by
    rcases enters with ⟨rfl, _⟩ | ⟨rfl, _⟩ <;> decide
  rw [search.eq_def]
  simp only [named, branch, Bool.not_false, Bool.and_self, if_true, low, and_true]
  exact if_pos enters

/-- The search goes on with the next entry of the directory behind one that is neither entered nor
taken. -/
theorem search_skips {rd : Word} {i len level : Nat} (low : level < 4)
    (other : (!nameIsString memory (directoryEntry rd i) &&
      dataIsDirectory memory (directoryEntry rd i)) = true →
        ¬ Enters memory type (directoryEntry rd i) level)
    (untaken : ¬ (!nameIsString memory (directoryEntry rd i) &&
      dataIsDirectory memory (directoryEntry rd i)) = true →
        level = 3 → ¬ (lang = 0 ∨ id memory (directoryEntry rd i) = lang.toNat)) :
    search memory root type lang rd i len level =
      if i + 1 < len then search memory root type lang rd (i + 1) len level else none := by
  rw [search.eq_def]
  simp only [low, and_true]
  split
  · rename_i directory
    exact if_neg (other directory)
  · rename_i leaf
    exact if_neg fun taken => untaken leaf taken.1 taken.2

/-- What is not a directory with an identifier is taken for the language. -/
theorem search_takes {rd : Word} {i len : Nat}
    (leaf : ¬ (!nameIsString memory (directoryEntry rd i) &&
      dataIsDirectory memory (directoryEntry rd i)) = true)
    (taken : lang = 0 ∨ id memory (directoryEntry rd i) = lang.toNat) :
    search memory root type lang rd i len 3 =
      some (plus root (offsetToData memory (directoryEntry rd i))) := by
  rw [search.eq_def]
  simp only [if_neg leaf]
  exact if_pos ⟨trivial, taken⟩

/-- A directory has its next entry at the address of the next index. -/
theorem entry_at {rd : Word} {entries : List (Name × Resource)}
    (directory : DirectoryAt memory root rd entries) {i : Nat} (less : i < entries.length) :
    EntryAt memory root (directoryEntry rd i) entries[i].1 entries[i].2 := by
  cases directory with
  | intro length entry => exact entry i _ _ (List.getElem?_eq_getElem less)

theorem length_at {rd : Word} {entries : List (Name × Resource)}
    (directory : DirectoryAt memory root rd entries) :
    numberOfEntries memory rd = entries.length := by
  cases directory with
  | intro length entry => exact length

/-- The search of a directory, if there is something in it. -/
def searchIn (memory : Memory) (root : Word) (type lang : UInt32) (rd : Word) (level : Nat) :
    Option Word :=
  if 0 < numberOfEntries memory rd then
    search memory root type lang rd 0 (numberOfEntries memory rd) level
  else none

/-- The search enters a directory that is found, and ends without one. -/
def Continues (memory : Memory) (root : Word) (type lang : UInt32) (level : Nat)
    (result : Option Word) : Option (List (Name × Resource)) → Prop
  | none => result = none
  | some below => ∃ next, DirectoryAt memory root next below ∧
      result = searchIn memory root type lang next (level + 1)

/-- On the first two levels the search enters the first directory with the identifier. -/
theorem search_directory (type lang : UInt32) {rd : Word} {entries : List (Name × Resource)}
    (directory : DirectoryAt memory root rd entries) {level wanted : Nat}
    (wants : level = 1 ∧ wanted = type.toNat ∨ level = 2 ∧ wanted = 1) {i : Nat}
    (less : i < entries.length) :
    Continues memory root type lang level (search memory root type lang rd i entries.length level)
      (subdirectory (entries.drop i) wanted) := by
  have low : level < 3 := by
    rcases wants with ⟨rfl, _⟩ | ⟨rfl, _⟩ <;> decide
  have enters_iff (cur : Word) : Enters memory type cur level ↔ id memory cur = wanted := by
    rcases wants with ⟨rfl, rfl⟩ | ⟨rfl, rfl⟩ <;> simp [Enters]
  induction remaining : entries.length - i generalizing i with
  | zero => omega
  | succ count inductionHypothesis =>
    have entry := entry_at directory less
    have skips (other : nameIsString memory (directoryEntry rd i) = false →
        dataIsDirectory memory (directoryEntry rd i) = true →
        ¬ Enters memory type (directoryEntry rd i) level) :
        Continues memory root type lang level
          (search memory root type lang rd i entries.length level)
          (subdirectory (entries.drop (i + 1)) wanted) := by
      rw [search_skips (low.trans (by decide))
        (fun directory => other (by simp_all) (by simp_all)) (fun _ third => absurd third low.ne)]
      by_cases more : i + 1 < entries.length
      · rw [if_pos more]
        exact inductionHypothesis more (by omega)
      · rw [if_neg more, List.drop_eq_nil_of_le (not_lt.mp more)]
        rfl
    rw [List.drop_eq_getElem_cons less, subdirectory, List.findSome?_cons]
    rcases found : entries[i] with ⟨name, resource⟩
    rw [found] at entry
    cases entry with
    | data named leaf =>
      rw [directoryOf_data]
      exact skips fun _ branch => absurd branch (Bool.eq_false_iff.mp leaf)
    | directory named branch below =>
      cases name with
      | string offset => exact skips fun unnamed _ => absurd named.1 (Bool.eq_false_iff.mp unnamed)
      | id value =>
        obtain ⟨unnamed, same⟩ := named
        rw [directoryOf_directory]
        by_cases wanted_value : value = wanted
        · rw [if_pos wanted_value,
            search_enters unnamed branch ((enters_iff _).mpr (same.trans wanted_value))]
          exact ⟨_, below, rfl⟩
        · rw [if_neg wanted_value]
          exact skips fun _ _ enters => wanted_value (same.symm.trans ((enters_iff _).mp enters))

/-- On the third level the search takes the first leaf for the language. -/
theorem search_languages {rd : Word} {entries : List (Name × Resource)}
    (directory : DirectoryAt memory root rd entries) (leaves : ∀ entry ∈ entries, IsLeaf entry)
    {i : Nat} (less : i < entries.length) :
    (search memory root type lang rd i entries.length 3).map (dword memory) =
      language (entries.drop i) lang := by
  induction remaining : entries.length - i generalizing i with
  | zero => omega
  | succ count inductionHypothesis =>
    have entry := entry_at directory less
    have leaf := leaves entries[i] (List.getElem_mem less)
    rw [List.drop_eq_getElem_cons less, language, List.findSome?_cons]
    rcases found : entries[i] with ⟨name, resource⟩
    rw [found] at entry leaf
    cases entry with
    | directory named branch below => cases name <;> exact leaf.elim
    | data named plain =>
      cases name with
      | string offset => exact leaf.elim
      | id value =>
        obtain ⟨unnamed, same⟩ := named
        rw [dataOf_data]
        by_cases taken : lang = 0 ∨ value = lang.toNat
        · rw [if_pos taken, search_takes (by rw [plain, Bool.and_false]; decide) (same ▸ taken)]
          rfl
        · rw [if_neg taken, search_skips (by decide) (by simp [plain]) (fun _ _ => by rwa [same])]
          by_cases more : i + 1 < entries.length
          · rw [if_pos more]
            exact inductionHypothesis more (by omega)
          · rw [if_neg more, List.drop_eq_nil_of_le (not_lt.mp more)]
            rfl

/-- An empty directory has nothing, and the search of another one begins with its first entry. -/
theorem searchIn_cases (type lang : UInt32) {rd : Word} {entries : List (Name × Resource)}
    (directory : DirectoryAt memory root rd entries) (level : Nat) :
    entries = [] ∧ searchIn memory root type lang rd level = none ∨
      0 < entries.length ∧ searchIn memory root type lang rd level =
        search memory root type lang rd 0 entries.length level := by
  rw [searchIn, length_at directory]
  cases entries with
  | nil => exact .inl ⟨rfl, rfl⟩
  | cons entry entries => exact .inr ⟨Nat.succ_pos _, if_pos (Nat.succ_pos _)⟩

/-- The search gives the data of the resource. -/
theorem search_resource (type lang : UInt32) {rd : Word} {entries : List (Name × Resource)}
    (directory : DirectoryAt memory root rd entries) (some_entry : entries ≠ [])
    (leaves : ∀ names languages, subdirectory entries type.toNat = some names →
      subdirectory names 1 = some languages → ∀ entry ∈ languages, IsLeaf entry) :
    (search memory root type lang rd 0 (numberOfEntries memory rd) 1).map (dword memory) =
      resource entries type lang := by
  rw [length_at directory, resource]
  have first := search_directory type lang directory (.inl ⟨rfl, rfl⟩)
    (List.length_pos_iff.mpr some_entry)
  rw [List.drop_zero] at first
  cases found : subdirectory entries type.toNat with
  | none =>
    rw [found] at first
    rw [show search memory root type lang rd 0 entries.length 1 = none from first]
    rfl
  | some names =>
    rw [found] at first
    obtain ⟨next, directory, first⟩ := first
    rw [first]
    rcases searchIn_cases type lang directory 2 with
      ⟨rfl, nothing⟩ | ⟨some_name, begins⟩
    · rw [nothing]
      rfl
    · have second := search_directory type lang directory (.inr ⟨rfl, rfl⟩) some_name
      rw [List.drop_zero, ← begins] at second
      rw [Option.bind_eq_bind, Option.bind_some]
      cases name : subdirectory names 1 with
      | none =>
        rw [name] at second
        rw [show searchIn memory root type lang next 2 = none from second]
        rfl
      | some languages =>
        rw [name] at second
        obtain ⟨last, directory, second⟩ := second
        rw [second, Option.bind_some]
        rcases searchIn_cases type lang directory 3 with
          ⟨rfl, nothing⟩ | ⟨some_language, begins⟩
        · rw [nothing]
          rfl
        · rw [begins, search_languages directory (leaves names languages found name) some_language,
            List.drop_zero]

end

/-! ### The search through the table -/

/-- The search through the blocks gives the first one that has the message. -/
theorem findBlock_find {memory : Memory} {data : Word} (msgId : UInt32) {table : List Block}
    {first : Word} (blocks : ∀ index content, table[index]? = some content →
      BlockAt memory data (plus first (12 * index)) content) :
    match table.find? (·.has msgId) with
    | none => findBlock memory msgId table.length first = none
    | some content => ∃ block, BlockAt memory data block content ∧
        findBlock memory msgId table.length first = some block := by
  induction table generalizing first with
  | nil => rfl
  | cons content table inductionHypothesis =>
    have head : BlockAt memory data first content := by
      have at_first := blocks 0 content rfl
      rwa [Nat.mul_zero, plus_zero] at at_first
    rw [List.find?_cons, List.length_cons, findBlock, head.lowId, head.highId]
    by_cases inside : content.lowId ≤ msgId.toNat ∧ msgId.toNat ≤ content.highId
    · have has : content.has msgId = true := by simpa [Block.has] using inside
      rw [has, if_pos inside]
      exact ⟨first, head, rfl⟩
    · have has : content.has msgId = false := by simpa [Block.has] using inside
      rw [has, if_neg inside]
      refine inductionHypothesis fun index other same => ?_
      rw [plus_plus, Nat.add_comm 12, ← Nat.mul_succ]
      exact blocks (index + 1) other same

/-- The walk over the entries of a block comes to the entry behind the lengths of those before it,
and there are the other messages. -/
theorem entryAfter_messages {memory : Memory} {entry : Word} {messages : List Message}
    (stored : MessagesAt memory entry messages) {count : Nat} (within : count ≤ messages.length) :
    entryAfter memory count entry =
        plus entry ((messages.take count).map Message.length).sum ∧
      MessagesAt memory (entryAfter memory count entry) (messages.drop count) := by
  induction count generalizing entry messages with
  | zero =>
    rw [List.take_zero, List.map_nil, List.sum_nil, plus_zero]
    exact ⟨rfl, stored⟩
  | succ count inductionHypothesis =>
    cases messages with
    | nil => exact absurd within (Nat.not_succ_le_zero count)
    | cons message messages =>
      obtain ⟨head, rest⟩ := stored
      obtain ⟨place, others⟩ := inductionHypothesis rest (Nat.le_of_succ_le_succ within)
      rw [entryAfter, head.length]
      refine ⟨?_, others⟩
      rw [place, plus_plus, List.take_succ_cons, List.map_cons, List.sum_cons]

/-- A block that has a message has an entry for it. -/
theorem lookup_message {table : List Block} {msgId : UInt32} {block : Block} {number : Nat}
    (found : lookup table msgId = some (block, number)) :
    table.find? (·.has msgId) = some block ∧ number = msgId.toNat - block.lowId ∧
      number < block.messages.length := by
  obtain ⟨other, finds, same⟩ := Option.map_eq_some_iff.mp found
  obtain ⟨rfl, rfl⟩ := Prod.mk.inj same
  refine ⟨finds, rfl, ?_⟩
  have has := List.find?_some finds
  rw [Block.has, Bool.and_eq_true, decide_eq_true_eq, decide_eq_true_eq] at has
  rw [other.complete]
  omega

/-- The search in a table gives the address of the message, if it has it. -/
theorem findBlock_lookup {memory : Memory} {data : Word} {table : List Block}
    (stored : TableAt memory data table) (msgId : UInt32) :
    match lookup table msgId with
    | none => findBlock memory msgId (dword memory data) (plus data 4) = none
    | some (content, number) => ∃ block message,
        findBlock memory msgId (dword memory data) (plus data 4) = some block ∧
          entryAfter memory (msgId.toNat - dword memory block)
            (plus data (dword memory (plus block 8))) = plus data (content.place number) ∧
            content.messages[number]? = some message ∧
              MessageAt memory (plus data (content.place number)) message := by
  have finds := findBlock_find msgId stored.block
  rw [← stored.length] at finds
  cases found : lookup table msgId with
  | none =>
    rw [Option.map_eq_none_iff.mp found] at finds
    exact finds
  | some content =>
    obtain ⟨content, number⟩ := content
    obtain ⟨same, rfl, less⟩ := lookup_message found
    rw [same] at finds
    obtain ⟨block, at_block, finds⟩ := finds
    obtain ⟨place, others⟩ := entryAfter_messages at_block.messages less.le
    rw [List.drop_eq_getElem_cons less, place, plus_plus] at others
    refine ⟨block, _, finds, ?_, List.getElem?_eq_getElem less, others.1⟩
    rw [at_block.lowId, at_block.offsetToEntries, place, plus_plus, Block.place]

/-- The function finds the message that the image encodes, if it does. -/
theorem rtlFindMessage_eq {memory : Memory} {hmod : Word} {entries : List (Name × Resource)}
    (image : ImageAt memory hmod entries) (some_entry : entries ≠ [])
    {type lang : UInt32}
    (leaves : ∀ names languages, subdirectory entries type.toNat = some names →
      subdirectory names 1 = some languages → ∀ entry ∈ languages, IsLeaf entry)
    {table : Nat → List Block}
    (tables : ∀ offset, resource entries type lang = some offset →
      TableAt memory (plus hmod offset) (table offset)) (msgId : UInt32) :
    rtlFindMessage memory hmod type lang msgId = answer hmod entries table type lang msgId ∧
      ∀ offset block number, resource entries type lang = some offset →
        lookup (table offset) msgId = some (block, number) →
          ∃ message, block.messages[number]? = some message ∧
            MessageAt memory (plus (plus hmod offset) (block.place number)) message := by
  have searched := search_resource type lang image.root some_entry leaves
  rw [rtlFindMessage, if_neg image.size, answer]
  cases found : resource entries type lang with
  | none =>
    rw [found, Option.map_eq_none_iff] at searched
    simp only [searched]
    exact ⟨trivial, fun _ _ _ same => nomatch same⟩
  | some offset =>
    rw [found] at searched
    obtain ⟨rde, search_eq, rfl⟩ := Option.map_eq_some_iff.mp searched
    simp only [search_eq]
    have searched := findBlock_lookup (tables _ found) msgId
    cases looked : lookup (table (dword memory rde)) msgId with
    | none =>
      rw [looked] at searched
      simp only [searched]
      refine ⟨trivial, fun offset _ _ same other => ?_⟩
      rw [← Option.some.inj same, looked] at other
      exact nomatch other
    | some content =>
      obtain ⟨content, number⟩ := content
      rw [looked] at searched
      obtain ⟨block, message, finds, place, entry, stored⟩ := searched
      simp only [finds, place]
      refine ⟨trivial, fun offset _ _ same other => ?_⟩
      rw [← Option.some.inj same, looked] at other
      obtain ⟨rfl, rfl⟩ := Prod.mk.inj (Option.some.inj other)
      rw [← Option.some.inj same]
      exact ⟨message, entry, stored⟩

/-! ### An image -/

/-- The bytes that are not zero of an image with a message table of two messages. -/
def exampleBytes : List (Nat × UInt8) :=
  [(152, 160), (156, 1),
    (174, 1), (176, 11), (180, 24), (183, 0x80),
    (198, 1), (200, 1), (204, 48), (207, 0x80),
    (222, 1), (224, 9), (225, 4), (228, 72),
    (232, 248),
    (248, 1), (252, 5), (256, 6), (260, 16),
    (264, 6), (268, 65), (269, 66), (270, 5), (274, 67)]

/-- The image at its base. -/
def exampleMemory : Memory := fun address =>
  (exampleBytes.lookup (address - 0x400000).toNat).getD 0

/-- The resources of the image. -/
def exampleEntries : List (Name × Resource) :=
  [(.id 11, .directory [(.id 1, .directory [(.id 1033, .data 248)])])]

/-- The message table of the image. -/
def exampleTable : List Block :=
  [{ lowId := 5
     highId := 6
     offsetToEntries := 16
     messages := [⟨6, 0, [65, 66]⟩, ⟨5, 0, [67]⟩]
     complete := rfl }]

theorem example_languages :
    DirectoryAt exampleMemory 0x4000a0 0x4000d0 [(.id 1033, .data 248)] := by
  refine .intro (by decide +kernel) fun index name resource same => ?_
  match index with
  | 0 =>
    obtain ⟨rfl, rfl⟩ := Prod.mk.inj (Option.some.inj same)
    exact .data ⟨by decide +kernel, by decide +kernel⟩ (by decide +kernel)
  | index + 1 => exact nomatch same

theorem example_names :
    DirectoryAt exampleMemory 0x4000a0 0x4000b8
      [(.id 1, .directory [(.id 1033, .data 248)])] := by
  refine .intro (by decide +kernel) fun index name resource same => ?_
  match index with
  | 0 =>
    obtain ⟨rfl, rfl⟩ := Prod.mk.inj (Option.some.inj same)
    have place : plus 0x4000a0 (offsetToDirectory exampleMemory (directoryEntry 0x4000b8 0)) =
        0x4000d0 := by decide +kernel
    exact .directory ⟨by decide +kernel, by decide +kernel⟩ (by decide +kernel)
      (place ▸ example_languages)
  | index + 1 => exact nomatch same

theorem example_image : ImageAt exampleMemory 0x400000 exampleEntries := by
  have root : resourceRoot exampleMemory 0x400000 = 0x4000a0 := by decide +kernel
  refine ⟨by decide +kernel, root ▸ .intro (by decide +kernel) fun index name resource same => ?_⟩
  match index with
  | 0 =>
    obtain ⟨rfl, rfl⟩ := Prod.mk.inj (Option.some.inj same)
    have place : plus 0x4000a0 (offsetToDirectory exampleMemory (directoryEntry 0x4000a0 0)) =
        0x4000b8 := by decide +kernel
    exact .directory ⟨by decide +kernel, by decide +kernel⟩ (by decide +kernel)
      (place ▸ example_names)
  | index + 1 => exact nomatch same

theorem example_message {entry : Word} {length : Nat} {text : List UInt8}
    (header : word exampleMemory entry = length ∧ word exampleMemory (plus entry 2) = 0)
    (bytes : ∀ index, index < text.length →
      text[index]? = some (exampleMemory (plus entry (4 + index)))) :
    MessageAt exampleMemory entry ⟨length, 0, text⟩ := by
  refine ⟨header.1, header.2, fun index byte same => ?_⟩
  have less := (List.getElem?_eq_some_iff.mp same).1
  exact Option.some.inj ((bytes index less).symm.trans same)

theorem example_table : TableAt exampleMemory (plus 0x400000 248) exampleTable := by
  refine ⟨by decide +kernel, fun index content same => ?_⟩
  match index with
  | 0 =>
    obtain rfl := Option.some.inj same
    refine ⟨by decide +kernel, by decide +kernel, by decide +kernel, ?_, ?_, trivial⟩
    · exact example_message (by decide +kernel) (by decide +kernel)
    · exact example_message (by decide +kernel) (by decide +kernel)
  | index + 1 => exact nomatch same

/-- The second message of the image is found. -/
theorem rtlFindMessage_eq_example :
    rtlFindMessage exampleMemory 0x400000 11 1033 6 = ⟨statusSuccess, some 0x40010e⟩ := by
  have leaves : ∀ names languages,
      subdirectory exampleEntries (11 : UInt32).toNat = some names →
        subdirectory names 1 = some languages → ∀ entry ∈ languages, IsLeaf entry := by
    intro names languages first second entry member
    obtain rfl := Option.some.inj first
    obtain rfl := Option.some.inj second
    rw [List.mem_singleton.mp member]
    trivial
  have tables : ∀ offset, resource exampleEntries 11 1033 = some offset →
      TableAt exampleMemory (plus 0x400000 offset) exampleTable := by
    intro offset same
    obtain rfl := Option.some.inj same
    exact example_table
  have found := rtlFindMessage_eq example_image (List.cons_ne_nil _ _) leaves tables 6
  exact found.1.trans (by decide +kernel)

end Nloader.Messages
