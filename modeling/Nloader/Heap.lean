/-
This file models the heap of `src/libs/ntdll/heap.c`, which keeps a magic number and the size in
eight bytes in front of every block. `malloc`, `realloc` and `free` are not modelled but answer as
they should: with a block apart from all live ones, which they leave as they are, where `realloc`
keeps the common prefix of its own; what they do to any other memory is left open.

A run is any sequence of calls on live pointers and of stores of the guest to its live blocks. The
ghost `live` keeps for every live pointer the size that was last requested for it.
-/

import Nloader.Library.ByteMemory
import Nloader.Library.Runs

namespace Nloader.Heap

open ByteMemory Runs

/-! ### The functions -/

/-- `MAX_HEAP_ALLOC`. -/
def maxHeapAlloc : Nat := 1073741824

/-- `HEAPALLOC_MAGIC`. -/
def heapallocMagic : Nat := 0xFEFAF0F0

/-- `HEAPFREE_MAGIC`. -/
def heapfreeMagic : Nat := 0x01050F0F

/-- `HEAP_ZERO_MEMORY`. -/
def heapZeroMemory : UInt32 := 8

/-- `Flags & HEAP_ZERO_MEMORY`. -/
def zeroes (flags : UInt32) : Bool := flags &&& heapZeroMemory != 0

/-- The address of `HEAP_OFFMAGIC`. -/
def heapOffmagic (pointer : Nat) : Nat := pointer - 8

/-- The address of `HEAP_OFFSIZE`. -/
def heapOffsize (pointer : Nat) : Nat := pointer - 4

/-- What `malloc` or `realloc` returns, and the memory that the allocator leaves. -/
structure Answer where
  base : Nat
  memory : Memory

/-- The memory with the header of a block. -/
def header (memory : Memory) (pointer size : Nat) : Memory :=
  store32 (store32 memory (heapOffmagic pointer) heapallocMagic) (heapOffsize pointer) size

/-- `RtlAllocateHeap`, with what `malloc` answers; nothing where an assertion fails. -/
def rtlAllocateHeap (flags : UInt32) (size : Nat) (answer : Answer) : Option (Nat × Memory) :=
  if size < maxHeapAlloc ∧ answer.base ≠ 0 then
    let pointer := answer.base + 8
    let memory := header answer.memory pointer size
    some (pointer, if zeroes flags then fill memory pointer size 0 else memory)
  else none

/-- `RtlReAllocateHeap`, with what `realloc` or, for `NULL`, `malloc` answers. -/
def rtlReAllocateHeap (memory : Memory) (flags : UInt32) (pointer size : Nat) (answer : Answer) :
    Option (Nat × Memory) :=
  if size < maxHeapAlloc then
    if pointer = 0 then rtlAllocateHeap flags size answer
    else
      let oldSize := load32 memory (heapOffsize pointer)
      if answer.base ≠ 0 then
        let pointer := answer.base + 8
        let memory := header answer.memory pointer size
        some (pointer,
          if oldSize < size ∧ zeroes flags then fill memory (pointer + oldSize) (size - oldSize) 0
          else memory)
      else none
  else none

/-- `RtlSizeHeap`. -/
def rtlSizeHeap (memory : Memory) (pointer : Nat) : Option Nat :=
  if load32 memory (heapOffmagic pointer) = heapallocMagic then
    some (load32 memory (heapOffsize pointer))
  else none

/-- `RtlFreeHeap`, up to `free`. -/
def rtlFreeHeap (memory : Memory) (pointer : Nat) : Option Memory :=
  if load32 memory (heapOffmagic pointer) = heapallocMagic then
    some (store32 memory (heapOffmagic pointer) heapfreeMagic)
  else none

/-! ### Runs -/

/-- A call of the guest. -/
inductive Call where
  | rtlAllocateHeap (flags : UInt32) (size : Nat)
  | rtlReAllocateHeap (flags : UInt32) (pointer size : Nat)
  | rtlSizeHeap (pointer : Nat)
  | rtlFreeHeap (pointer : Nat)

/-- The memory, and the size last requested for every live pointer. -/
structure State where
  memory : Memory
  live : Nat → Option Nat

/-- A call: the heap it leaves and what it returns, or nothing where an assertion fails. -/
def perform (heap : State) (answer : Answer) : Call → Option (State × Nat)
  | .rtlAllocateHeap flags size => do
    let (pointer, memory) ← rtlAllocateHeap flags size answer
    some (⟨memory, Function.update heap.live pointer (some size)⟩, pointer)
  | .rtlReAllocateHeap flags pointer size => do
    let (next, memory) ← rtlReAllocateHeap heap.memory flags pointer size answer
    some (⟨memory, Function.update (Function.update heap.live pointer none) next (some size)⟩, next)
  | .rtlSizeHeap pointer => do
    let size ← rtlSizeHeap heap.memory pointer
    some (heap, size)
  | .rtlFreeHeap pointer => do
    let _ ← rtlFreeHeap heap.memory pointer
    some (⟨answer.memory, Function.update heap.live pointer none⟩, 1)

/-- The guest calls with sizes below 2^30 and with live pointers. -/
def Allowed (heap : State) : Call → Prop
  | .rtlAllocateHeap _ size => size < maxHeapAlloc
  | .rtlReAllocateHeap _ pointer size =>
    size < maxHeapAlloc ∧ (pointer = 0 ∨ (heap.live pointer).isSome)
  | .rtlSizeHeap pointer | .rtlFreeHeap pointer => (heap.live pointer).isSome

/-- The addresses of a block with its header. -/
def block (pointer size : Nat) : Set Nat := Set.Ico (pointer - 8) (pointer + size)

/-- What the allocator leaves of the live blocks, except for the one that it is called with. -/
def Keeps (live : Nat → Option Nat) (pointer : Nat) (memory : Memory) (answer : Answer) : Prop :=
  ∀ other size, live other = some size → other ≠ pointer →
    Set.EqOn answer.memory memory (block other size)

/-- What `malloc`, called with `NULL`, or `realloc` answers for a number of bytes. -/
structure Allocates (live : Nat → Option Nat) (pointer : Nat) (memory : Memory) (total : Nat)
    (answer : Answer) : Prop where
  some_block : answer.base ≠ 0
  fresh : ∀ other size, live other = some size → other ≠ pointer →
    Disjoint (Set.Ico answer.base (answer.base + total)) (block other size)
  keeps : Keeps live pointer memory answer
  common : ∀ size, live pointer = some size → ∀ index < min (size + 8) total,
    answer.memory (answer.base + index) = memory (pointer - 8 + index)

/-- The allocator answers the call as it should. -/
def Honours (heap : State) (answer : Answer) : Call → Prop
  | .rtlAllocateHeap _ size => Allocates heap.live 0 heap.memory (size + 8) answer
  | .rtlReAllocateHeap _ pointer size => Allocates heap.live pointer heap.memory (size + 8) answer
  | .rtlSizeHeap _ => True
  | .rtlFreeHeap pointer =>
    ∀ memory, rtlFreeHeap heap.memory pointer = some memory →
      Keeps heap.live pointer memory answer

/-- A step of a run: a call, or a store of the guest to a live block. -/
inductive Label where
  | call (call : Call) (answer : Answer)
  | store (address : Nat) (byte : UInt8)

/-- The steps. -/
inductive Step : State → Label → State → Prop where
  | call {heap next : State} {call : Call} {answer : Answer} {result : Nat}
      (allowed : Allowed heap call) (honours : Honours heap answer call)
      (performs : perform heap answer call = some (next, result)) :
      Step heap (.call call answer) next
  | store {heap : State} {address pointer size : Nat} {byte : UInt8}
      (live : heap.live pointer = some size)
      (inside : address ∈ Set.Ico pointer (pointer + size)) :
      Step heap (.store address byte)
        ⟨Function.update heap.memory address byte, heap.live⟩

/-- Before the first call there is no block. -/
def initial (memory : Memory) : State := ⟨memory, fun _ => none⟩

/-! ### What a call should do -/

/-- The pointer that a call gives up. -/
def Call.pointer : Call → Nat
  | .rtlAllocateHeap _ _ | .rtlSizeHeap _ => 0
  | .rtlReAllocateHeap _ pointer _ | .rtlFreeHeap pointer => pointer

/-- The contents and the header of every other live block are the same. -/
def Untouched (heap next : State) (call : Call) : Prop :=
  ∀ pointer size, heap.live pointer = some size → pointer ≠ call.pointer →
    next.live pointer = some size ∧ Set.EqOn next.memory heap.memory (block pointer size)

/-- A new block: it is live with its size, and zero from where it should be zero. -/
structure Placed (next : State) (flags : UInt32) (pointer size start : Nat) : Prop where
  live : next.live pointer = some size
  zero : zeroes flags → ∀ index, start ≤ index → index < size →
    next.memory (pointer + index) = 0

/-- What a call does, with what it returns. -/
def Effect (heap next : State) (result : Nat) : Call → Prop
  | .rtlAllocateHeap flags size => heap.live result = none ∧ Placed next flags result size 0
  | .rtlReAllocateHeap flags pointer size =>
    Placed next flags result size ((heap.live pointer).getD 0) ∧
      (result ≠ pointer → next.live pointer = none) ∧
        ∀ old, heap.live pointer = some old → ∀ index < min old size,
          next.memory (result + index) = heap.memory (pointer + index)
  | .rtlSizeHeap pointer => next = heap ∧ heap.live pointer = some result
  | .rtlFreeHeap pointer => next.live pointer = none

/-! ### Headers -/

section

variable {memory : Memory} {base size : Nat}

/-- A header changes nothing outside of its eight bytes. -/
theorem header_eqOn {range : Set Nat} (apart : Disjoint range (Set.Ico base (base + 8))) :
    Set.EqOn (header memory (base + 8) size) memory range := by
  have second : Disjoint range (Set.Ico (base + 4) (base + 4 + 4)) :=
    apart.mono_right (Set.Ico_subset_Ico (Nat.le_add_right _ _) le_rfl)
  have first : Disjoint range (Set.Ico base (base + 4)) :=
    apart.mono_right (Set.Ico_subset_Ico le_rfl (by omega))
  exact (store32_eqOn second).trans (store32_eqOn first)

/-- The contents of a block are those that the allocator has left. -/
theorem header_contents (index : Nat) :
    header memory (base + 8) size (base + 8 + index) = memory (base + 8 + index) := by
  have apart : Disjoint {base + 8 + index} (Set.Ico base (base + 8)) := by
    rw [Set.disjoint_singleton_left]
    exact fun inside => absurd inside.2 (by omega)
  exact header_eqOn apart rfl

theorem magic_header :
    load32 (header memory (base + 8) size) base = heapallocMagic := by
  have apart : Disjoint (Set.Ico base (base + 4)) (Set.Ico (base + 4) (base + 4 + 4)) :=
    Set.Ico_disjoint_Ico_same
  exact (load32_congr (store32_eqOn apart)).trans (load32_store32 memory base (by decide))

theorem size_header (small : size < maxHeapAlloc) :
    load32 (header memory (base + 8) size) (base + 4) = size :=
  load32_store32 _ _ (small.trans (by decide))

end

/-! ### The invariant -/

/-- The headers of the live blocks tell their sizes, and the blocks are apart. -/
structure Valid (heap : State) : Prop where
  above : ∀ pointer size, heap.live pointer = some size → 8 < pointer
  magic : ∀ pointer size, heap.live pointer = some size →
    load32 heap.memory (heapOffmagic pointer) = heapallocMagic
  size : ∀ pointer size, heap.live pointer = some size →
    load32 heap.memory (heapOffsize pointer) = size
  apart : ∀ pointer size other length, heap.live pointer = some size →
    heap.live other = some length → pointer ≠ other →
      Disjoint (block pointer size) (block other length)

theorem Valid.null {heap : State} (valid : Valid heap) : heap.live 0 = none := by
  cases live : heap.live 0 with
  | none => rfl
  | some size => exact absurd (valid.above 0 size live) (by decide)

/-- A memory that is the same on a header has the same words in it. -/
theorem header_same {first second : Memory} {pointer : Nat} (above : 8 < pointer)
    (same : Set.EqOn first second (Set.Ico (pointer - 8) pointer)) :
    load32 first (heapOffmagic pointer) = load32 second (heapOffmagic pointer) ∧
      load32 first (heapOffsize pointer) = load32 second (heapOffsize pointer) := by
  constructor
  · refine load32_congr (same.mono (Set.Ico_subset_Ico le_rfl ?_))
    rw [heapOffmagic]
    omega
  · refine load32_congr (same.mono (Set.Ico_subset_Ico ?_ ?_))
    · rw [heapOffsize]
      omega
    · rw [heapOffsize]
      omega

theorem valid_initial (memory : Memory) : Valid (initial memory) where
  above _ _ live := nomatch live
  magic _ _ live := nomatch live
  size _ _ live := nomatch live
  apart _ _ _ _ live := nomatch live

/-- What is live without a pointer is another one. -/
theorem live_without {live : Nat → Option Nat} {pointer other length : Nat}
    (live_other : Function.update live pointer none other = some length) :
    other ≠ pointer ∧ live other = some length := by
  by_cases different : other = pointer
  · rw [different, Function.update_self] at live_other
    exact nomatch live_other
  · rw [Function.update_of_ne different] at live_other
    exact ⟨different, live_other⟩

/-- Live blocks whose headers stay as they are stay valid, whichever others are given up. -/
theorem Valid.restrict {heap next : State} (valid : Valid heap)
    (fewer : ∀ pointer size, next.live pointer = some size →
      heap.live pointer = some size ∧
        Set.EqOn next.memory heap.memory (Set.Ico (pointer - 8) pointer)) : Valid next where
  above pointer size live := valid.above pointer size (fewer pointer size live).1
  magic pointer size live := by
    obtain ⟨before, same⟩ := fewer pointer size live
    rw [(header_same (valid.above pointer size before) same).1]
    exact valid.magic pointer size before
  size pointer size live := by
    obtain ⟨before, same⟩ := fewer pointer size live
    rw [(header_same (valid.above pointer size before) same).2]
    exact valid.size pointer size before
  apart pointer size other length live live_other :=
    valid.apart pointer size other length (fewer pointer size live).1
      (fewer other length live_other).1

/-- A valid heap stays valid with a new block that is apart from the others. -/
theorem Valid.extend {heap : State} (valid : Valid heap) {base size : Nat} (some_block : base ≠ 0)
    (magic : load32 heap.memory base = heapallocMagic)
    (size_eq : load32 heap.memory (base + 4) = size)
    (fresh : ∀ other length, heap.live other = some length →
      Disjoint (Set.Ico base (base + (size + 8))) (block other length)) :
    Valid ⟨heap.memory, Function.update heap.live (base + 8) (some size)⟩ := by
  have split (pointer length : Nat)
      (live : Function.update heap.live (base + 8) (some size) pointer = some length) :
      pointer = base + 8 ∧ length = size ∨
        pointer ≠ base + 8 ∧ heap.live pointer = some length := by
    by_cases same : pointer = base + 8
    · rw [same, Function.update_self] at live
      exact .inl ⟨same, (Option.some.inj live).symm⟩
    · rw [Function.update_of_ne same] at live
      exact .inr ⟨same, live⟩
  have block_eq : block (base + 8) size = Set.Ico base (base + (size + 8)) := by
    rw [block, Nat.add_sub_cancel, Nat.add_assoc, Nat.add_comm 8 size]
  refine ⟨?_, ?_, ?_, ?_⟩
  · intro pointer length live
    rcases split pointer length live with ⟨rfl, rfl⟩ | ⟨_, before⟩
    · omega
    · exact valid.above pointer length before
  · intro pointer length live
    rcases split pointer length live with ⟨rfl, rfl⟩ | ⟨_, before⟩
    · exact magic
    · exact valid.magic pointer length before
  · intro pointer length live
    rcases split pointer length live with ⟨rfl, rfl⟩ | ⟨_, before⟩
    · exact size_eq
    · exact valid.size pointer length before
  · intro pointer length other other_length live live_other different
    rcases split pointer length live with ⟨rfl, rfl⟩ | ⟨_, before⟩ <;>
      rcases split other other_length live_other with ⟨rfl, rfl⟩ | ⟨_, before_other⟩
    · exact absurd rfl different
    · rw [block_eq]
      exact fresh other other_length before_other
    · rw [block_eq]
      exact (fresh pointer length before).symm
    · exact valid.apart pointer length other other_length before before_other different

/-- A block that is allocated is not one of the others. -/
theorem Allocates.ne_fresh {live : Nat → Option Nat} {pointer total : Nat} {memory : Memory}
    {answer : Answer} (allocates : Allocates live pointer memory (total + 8) answer)
    {other length : Nat} (live_other : live other = some length) (different : other ≠ pointer) :
    other ≠ answer.base + 8 := by
  rintro rfl
  have first : answer.base ∈ Set.Ico answer.base (answer.base + (total + 8)) :=
    ⟨le_rfl, by omega⟩
  refine Set.disjoint_left.mp (allocates.fresh _ length live_other different) first ⟨?_, by omega⟩
  rw [Nat.add_sub_cancel]

/-- What has been allocated is a block of a valid heap, and the other live blocks are untouched,
whatever is stored to the contents of the new block. -/
theorem Valid.allocated {heap : State} (valid : Valid heap) {pointer size : Nat} {answer : Answer}
    (allocates : Allocates heap.live pointer heap.memory (size + 8) answer)
    (small : size < maxHeapAlloc) {memory : Memory}
    (same : Set.EqOn memory (header answer.memory (answer.base + 8) size)
      (Set.Ico (answer.base + 8) (answer.base + 8 + size))ᶜ) :
    let live := Function.update (Function.update heap.live pointer none) (answer.base + 8)
      (some size)
    Valid ⟨memory, live⟩ ∧ ∀ other length, heap.live other = some length → other ≠ pointer →
      live other = some length ∧ Set.EqOn memory heap.memory (block other length) := by
  intro live
  have kept (other length : Nat) (live_other : heap.live other = some length)
      (different : other ≠ pointer) : Set.EqOn memory heap.memory (block other length) := by
    have apart := allocates.fresh other length live_other different
    have outside : block other length ⊆
        (Set.Ico (answer.base + 8) (answer.base + 8 + size))ᶜ := by
      refine Set.subset_compl_iff_disjoint_left.mpr ?_
      exact apart.mono_left (Set.Ico_subset_Ico (Nat.le_add_right _ _) (by omega))
    have header_apart : Disjoint (block other length)
        (Set.Ico answer.base (answer.base + 8)) :=
      (apart.mono_left (Set.Ico_subset_Ico le_rfl (by omega))).symm
    exact (same.mono outside).trans ((header_eqOn header_apart).trans
      (allocates.keeps other length live_other different))
  have word (offset : Nat) (inside : offset ≤ 4) :
      load32 memory (answer.base + offset) =
        load32 (header answer.memory (answer.base + 8) size) (answer.base + offset) := by
    have outside : Set.Ico (answer.base + offset) (answer.base + offset + 4) ⊆
        (Set.Ico (answer.base + 8) (answer.base + 8 + size))ᶜ := by
      intro place within contents
      have below := within.2
      have above := contents.1
      omega
    exact load32_congr (same.mono outside)
  have middle : Valid ⟨memory, Function.update heap.live pointer none⟩ := by
    refine valid.restrict fun other length live_other => ?_
    obtain ⟨different, before⟩ := live_without live_other
    exact ⟨before, (kept other length before different).mono
      (Set.Ico_subset_Ico_right (Nat.le_add_right _ _))⟩
  refine ⟨middle.extend allocates.some_block ?_ ?_ ?_, ?_⟩
  · exact (word 0 (by decide)).trans magic_header
  · exact (word 4 le_rfl).trans (size_header small)
  · intro other length live_other
    obtain ⟨different, before⟩ := live_without live_other
    exact allocates.fresh other length before different
  · intro other length live_other different
    refine ⟨?_, kept other length live_other different⟩
    have elsewhere := allocates.ne_fresh live_other different
    rw [show live other = Function.update heap.live pointer none other from
      Function.update_of_ne elsewhere _ _, Function.update_of_ne different, live_other]

/-! ### The calls -/

/-- What a call leaves: a valid heap, in which it has touched no other block and has done what it
should. -/
structure Done (heap next : State) (result : Nat) (call : Call) : Prop where
  valid : Valid next
  untouched : Untouched heap next call
  effect : Effect heap next result call

/-- The memory with a part of a new block zeroed, if the flags say so, is the same outside of it. -/
theorem zeroed_eqOn (memory : Memory) (base size : Nat) {start : Nat} (zero : Prop)
    [Decidable zero] (within : start ≤ size) :
    Set.EqOn (if zero then fill memory (base + start) (size - start) 0 else memory) memory
      (Set.Ico base (base + size))ᶜ := by
  by_cases zeroes : zero
  · rw [if_pos zeroes]
    refine fill_eqOn ((Set.disjoint_compl_left_iff_subset).mpr (Set.Ico_subset_Ico ?_ ?_)) <;> omega
  · rw [if_neg zeroes]
    exact Set.eqOn_refl _ _

theorem done_allocate {heap : State} (valid : Valid heap) (flags : UInt32) {size : Nat}
    {answer : Answer} (small : size < maxHeapAlloc)
    (allocates : Allocates heap.live 0 heap.memory (size + 8) answer) :
    ∃ memory, rtlAllocateHeap flags size answer = some (answer.base + 8, memory) ∧
      Done heap ⟨memory, Function.update heap.live (answer.base + 8) (some size)⟩ (answer.base + 8)
        (.rtlAllocateHeap flags size) := by
  have same := zeroed_eqOn (header answer.memory (answer.base + 8) size) (answer.base + 8) size
    (zeroes flags) (Nat.zero_le size)
  have live_eq : Function.update heap.live 0 none = heap.live := by
    rw [← valid.null, Function.update_eq_self]
  obtain ⟨placed, kept⟩ := valid.allocated allocates small same
  rw [live_eq] at placed kept
  refine ⟨_, if_pos ⟨small, allocates.some_block⟩, placed, kept, ?_, ?_, ?_⟩
  · cases live : heap.live (answer.base + 8) with
    | none => rfl
    | some length => exact absurd rfl (allocates.ne_fresh live (Nat.succ_ne_zero _))
  · exact Function.update_self _ _ _
  · intro zero index _ less
    exact (congrFun (if_pos zero) _).trans
      (fill_inside ⟨Nat.le_add_right _ _, Nat.add_lt_add_left less _⟩)

theorem done_reAllocate {heap : State} (valid : Valid heap) (flags : UInt32)
    {pointer size old : Nat} {answer : Answer} (small : size < maxHeapAlloc)
    (live : heap.live pointer = some old)
    (allocates : Allocates heap.live pointer heap.memory (size + 8) answer) :
    ∃ memory, rtlReAllocateHeap heap.memory flags pointer size answer =
        some (answer.base + 8, memory) ∧
      Done heap
        ⟨memory, Function.update (Function.update heap.live pointer none) (answer.base + 8)
          (some size)⟩
        (answer.base + 8) (.rtlReAllocateHeap flags pointer size) := by
  have above := valid.above pointer old live
  have same : Set.EqOn
      (if old < size ∧ zeroes flags then
        fill (header answer.memory (answer.base + 8) size) (answer.base + 8 + old) (size - old) 0
      else header answer.memory (answer.base + 8) size)
      (header answer.memory (answer.base + 8) size)
      (Set.Ico (answer.base + 8) (answer.base + 8 + size))ᶜ := by
    by_cases grows : old < size
    · exact zeroed_eqOn _ _ _ _ grows.le
    · rw [if_neg fun both => grows both.1]
      exact Set.eqOn_refl _ _
  obtain ⟨placed, kept⟩ := valid.allocated allocates small same
  refine ⟨_, ?_, placed, kept, ⟨Function.update_self _ _ _, ?_⟩, ?_, ?_⟩
  · rw [rtlReAllocateHeap, if_pos small, if_neg (by omega), valid.size pointer old live]
    exact if_pos allocates.some_block
  · intro zero index from_old less
    rw [live, Option.getD_some] at from_old
    exact (congrFun (if_pos ⟨from_old.trans_lt less, zero⟩) _).trans
      (fill_inside ⟨by omega, by omega⟩)
  · intro different
    exact (Function.update_of_ne different.symm _ _).trans (Function.update_self _ _ _)
  · intro length live_length index less
    obtain rfl := Option.some.inj (live.symm.trans live_length)
    have common := allocates.common old live (8 + index) (by omega)
    have outside : (if old < size ∧ zeroes flags then
          fill (header answer.memory (answer.base + 8) size) (answer.base + 8 + old) (size - old) 0
        else header answer.memory (answer.base + 8) size) (answer.base + 8 + index) =
        header answer.memory (answer.base + 8) size (answer.base + 8 + index) := by
      by_cases zero : old < size ∧ zeroes flags
      · have apart : Disjoint {answer.base + 8 + index}
            (Set.Ico (answer.base + 8 + old) (answer.base + 8 + old + (size - old))) := by
          rw [Set.disjoint_singleton_left]
          exact fun inside => absurd inside.1 (by omega)
        rw [if_pos zero]
        exact fill_eqOn apart rfl
      · rw [if_neg zero]
    have place : pointer - 8 + (8 + index) = pointer + index := by omega
    rw [place, ← Nat.add_assoc] at common
    exact outside.trans ((header_contents index).trans common)

/-- A call of the guest on a valid heap does what it should: no assertion fails. -/
theorem done_call {heap : State} (valid : Valid heap) {answer : Answer} {call : Call}
    (allowed : Allowed heap call) (honours : Honours heap answer call) :
    ∃ next result, perform heap answer call = some (next, result) ∧
      Done heap next result call := by
  cases call with
  | rtlAllocateHeap flags size =>
    obtain ⟨memory, allocates, done⟩ := done_allocate valid flags allowed honours
    exact ⟨_, _, by rw [perform, allocates]; rfl, done⟩
  | rtlReAllocateHeap flags pointer size =>
    obtain ⟨small, null | live⟩ := allowed
    · subst null
      obtain ⟨memory, allocates, done⟩ := done_allocate valid flags small honours
      have live_eq : Function.update heap.live 0 none = heap.live := by
        rw [← valid.null, Function.update_eq_self]
      refine ⟨⟨memory, _⟩, answer.base + 8, ?_, done.valid, done.untouched, ?_, ?_, ?_⟩
      · rw [perform, rtlReAllocateHeap, if_pos small, if_pos rfl, allocates, live_eq]
        rfl
      · rw [valid.null]
        exact done.effect.2
      · intro different
        exact (Function.update_of_ne different.symm (some size) heap.live).trans valid.null
      · intro old live
        exact nomatch valid.null.symm.trans live
    · obtain ⟨old, live⟩ := Option.isSome_iff_exists.mp live
      obtain ⟨memory, allocates, done⟩ := done_reAllocate valid flags small live honours
      exact ⟨_, _, by rw [perform, allocates]; rfl, done⟩
  | rtlSizeHeap pointer =>
    obtain ⟨size, live⟩ := Option.isSome_iff_exists.mp allowed
    have told : rtlSizeHeap heap.memory pointer = some size := by
      rw [rtlSizeHeap, if_pos (valid.magic pointer size live), valid.size pointer size live]
    exact ⟨heap, size, by rw [perform, told]; rfl, valid,
      fun _ _ live _ => ⟨live, Set.eqOn_refl _ _⟩, rfl, live⟩
  | rtlFreeHeap pointer =>
    obtain ⟨size, live⟩ := Option.isSome_iff_exists.mp allowed
    have frees : rtlFreeHeap heap.memory pointer =
        some (store32 heap.memory (heapOffmagic pointer) heapfreeMagic) :=
      if_pos (valid.magic pointer size live)
    have kept (other length : Nat) (live_other : heap.live other = some length)
        (different : other ≠ pointer) :
        Set.EqOn answer.memory heap.memory (block other length) := by
      have above := valid.above pointer size live
      have apart : Disjoint (block other length)
          (Set.Ico (heapOffmagic pointer) (heapOffmagic pointer + 4)) := by
        refine (valid.apart other length pointer size live_other live different).mono_right
          (Set.Ico_subset_Ico_right ?_)
        rw [heapOffmagic]
        omega
      exact (honours _ frees other length live_other different).trans (store32_eqOn apart)
    refine ⟨⟨answer.memory, Function.update heap.live pointer none⟩, 1,
      by rw [perform, frees]; rfl, valid.restrict fun other length live_other => ?_,
      fun other length live_other different => ⟨?_, kept other length live_other different⟩,
      Function.update_self _ _ _⟩
    · obtain ⟨different, before⟩ := live_without live_other
      exact ⟨before, (kept other length before different).mono
        (Set.Ico_subset_Ico_right (Nat.le_add_right _ _))⟩
    · exact (Function.update_of_ne different _ _).trans live_other

/-- A store of the guest to the contents of a live block keeps the headers. -/
theorem Valid.store {heap : State} (valid : Valid heap) {address pointer size : Nat}
    {byte : UInt8} (live : heap.live pointer = some size)
    (inside : address ∈ Set.Ico pointer (pointer + size)) :
    Valid ⟨Function.update heap.memory address byte, heap.live⟩ := by
  refine valid.restrict fun other length live_other => ⟨live_other, fun place header => ?_⟩
  refine Function.update_of_ne ?_ _ _
  rintro rfl
  by_cases different : other = pointer
  · subst different
    exact absurd header.2 (not_lt.mpr inside.1)
  · have apart := valid.apart other length pointer size live_other live different
    refine Set.disjoint_left.mp apart ⟨header.1, ?_⟩ ⟨?_, inside.2⟩
    · exact header.2.trans_le (Nat.le_add_right _ _)
    · exact (Nat.sub_le _ _).trans inside.1

theorem valid_step {heap next : State} {label : Label} (valid : Valid heap)
    (step : Step heap label next) : Valid next := by
  cases step with
  | call allowed honours performs =>
    obtain ⟨other, result, same, done⟩ := done_call valid allowed honours
    obtain ⟨rfl, _⟩ := Prod.mk.inj (Option.some.inj (performs.symm.trans same))
    exact done.valid
  | store live inside => exact valid.store live inside

/-- In every state of every run the heap tells the size last requested for every live block, and
every call that the guest is allowed to make does what it should: no assertion fails, the effect
is the promised one, and no other block is touched. -/
theorem heap_contract {memory : Memory} {labels : List Label} {heap : State}
    (run : Run Step (initial memory) labels heap) :
    (∀ pointer size, heap.live pointer = some size →
      rtlSizeHeap heap.memory pointer = some size) ∧
      ∀ call answer, Allowed heap call → Honours heap answer call →
        ∃ next result, perform heap answer call = some (next, result) ∧
          Untouched heap next call ∧ Effect heap next result call := by
  have valid : Valid heap :=
    run.preserves (valid_initial memory) fun _ _ _ valid step => valid_step valid step
  constructor
  · intro pointer size live
    rw [rtlSizeHeap, if_pos (valid.magic pointer size live), valid.size pointer size live]
  · intro call answer allowed honours
    obtain ⟨next, result, performs, done⟩ := done_call valid allowed honours
    exact ⟨next, result, performs, done.untouched, done.effect⟩

/-- A block of 16 bytes at the beginning of a run tells its size. -/
theorem heap_contract_example :
    rtlSizeHeap (header (fun _ => 0) 108 16) 108 = some 16 := by
  have step : Step (initial fun _ => 0) (.call (.rtlAllocateHeap 0 16) ⟨100, fun _ => 0⟩)
      ⟨header (fun _ => 0) 108 16, Function.update (fun _ => none) 108 (some 16)⟩ := by
    have allocates : Allocates (fun _ => none) 0 (fun _ => 0) 24 ⟨100, fun _ => 0⟩ :=
      ⟨by decide, fun _ _ live => (nomatch live), fun _ _ live => (nomatch live),
        fun _ live => (nomatch live)⟩
    exact .call (by decide : (16 : Nat) < maxHeapAlloc) allocates rfl
  exact (heap_contract (Run.nil.cons step)).1 108 16 rfl

end Nloader.Heap
