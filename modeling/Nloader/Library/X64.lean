/-
This file is a library of x86-64 machine code, as far as hand-written glue between two
calling conventions uses it. The memory is a map from 64-bit addresses to bytes, with
addresses that wrap. A process has assembled text, functions from outside that run as a
whole, and bytes in memory that are decoded. Straight code is executed block by block.

The library names nothing of the program it is used for.
-/

import Mathlib.Logic.Relation
import Mathlib.Tactic

namespace X64

/-- A word, and an address. -/
abbrev Word : Type := BitVec 64

/-- A memory of bytes. -/
abbrev Memory : Type := Word → UInt8

/-! ### Memory -/

/-- The number in some bytes of memory, the least significant first. -/
def number (memory : Memory) : Word → Nat → Nat
  | _, 0 => 0
  | address, size + 1 => (memory address).toNat + 256 * number memory (address + 1) size

/-- The 64-bit word at an address. -/
def load (memory : Memory) (address : Word) : Word :=
  .ofNat 64 (number memory address 8)

/-- The 32-bit word at an address, extended by zeros. -/
def load32 (memory : Memory) (address : Word) : Word :=
  .ofNat 64 (number memory address 4)

/-- The memory with a 64-bit word stored. -/
def store (memory : Memory) (address value : Word) : Memory := fun place =>
  if (place - address).toNat < 8 then
    .ofNat (value.toNat / 256 ^ (place - address).toNat)
  else memory place

theorem store_of_le {memory : Memory} {address value place : Word}
    (apart : 8 ≤ (place - address).toNat) : store memory address value place = memory place :=
  if_neg (Nat.not_lt_of_le apart)

theorem number_congr {first second : Memory} {size : Nat} :
    ∀ {address : Word}, (∀ index < size, first (address + .ofNat 64 index) =
      second (address + .ofNat 64 index)) →
      number first address size = number second address size := by
  induction size with
  | zero => exact fun _ => rfl
  | succ size inductionHypothesis =>
    intro address same
    have head := same 0 (Nat.succ_pos size)
    rw [BitVec.add_zero] at head
    rw [number, number, head, inductionHypothesis]
    intro index less
    have next := same (index + 1) (Nat.succ_lt_succ less)
    rw [Nat.add_comm, BitVec.ofNat_add, ← BitVec.add_assoc] at next
    exact next

/-- The number in the bytes of a word. -/
theorem number_bytes {memory : Memory} {value size : Nat} :
    ∀ {address : Word} {first : Nat}, (∀ index < size, memory (address + .ofNat 64 index) =
      .ofNat (value / 256 ^ (first + index))) →
      number memory address size = value / 256 ^ first % 256 ^ size := by
  induction size with
  | zero =>
    intro address first _
    rw [number, Nat.pow_zero, Nat.mod_one]
  | succ size inductionHypothesis =>
    intro address first bytes
    have head := bytes 0 (Nat.succ_pos size)
    rw [BitVec.add_zero, Nat.add_zero] at head
    have rest := @inductionHypothesis (address + 1) (first + 1) fun index less => by
      have next := bytes (index + 1) (Nat.succ_lt_succ less)
      rw [Nat.add_comm index, BitVec.ofNat_add, ← BitVec.add_assoc, ← Nat.add_assoc] at next
      exact next
    rw [number, head, rest, Nat.pow_succ 256 first, ← Nat.div_div_eq_div_mul, Nat.pow_succ',
      Nat.mod_mul, UInt8.toNat_ofNat']

theorem number_lt (memory : Memory) (address : Word) (size : Nat) :
    number memory address size < 256 ^ size := by
  induction size generalizing address with
  | zero => exact Nat.one_pos
  | succ size inductionHypothesis =>
    have rest := inductionHypothesis (address + 1)
    have byte := (memory address).toNat_lt
    rw [number, Nat.pow_succ']
    omega

/-- The first bytes of a word that was stored. -/
theorem number_store (memory : Memory) (address value : Word) {size : Nat} (within : size ≤ 8) :
    number (store memory address value) address size = value.toNat % 256 ^ size := by
  have bytes := @number_bytes (store memory address value) value.toNat size address 0 ?_
  · rw [bytes, Nat.pow_zero, Nat.div_one]
  · intro index less
    have offset : (address + BitVec.ofNat 64 index - address).toNat = index := by
      rw [BitVec.add_comm, BitVec.add_sub_cancel, BitVec.toNat_ofNat]
      exact Nat.mod_eq_of_lt (by omega)
    rw [store, offset, if_pos (lt_of_lt_of_le less within), Nat.zero_add]

/-- The word stored is the word loaded. -/
@[simp] theorem load_store (memory : Memory) (address value : Word) :
    load (store memory address value) address = value := by
  have whole : value.toNat < 256 ^ 8 := value.isLt
  rw [load, number_store memory address value (le_refl 8), Nat.mod_eq_of_lt whole]
  exact BitVec.ofNat_toNat 64 value

/-- The low half of the word stored is the 32-bit word loaded. -/
theorem load32_store (memory : Memory) (address value : Word) :
    load32 (store memory address value) address = .ofNat 64 (value.toNat % 2 ^ 32) := by
  have whole : 256 ^ 4 = 2 ^ 32 := by decide
  rw [load32, number_store memory address value (by decide), whole]

/-- A byte of the number in some bytes. -/
theorem byte_number (memory : Memory) {size index : Nat} :
    ∀ {address : Word}, index < size →
      UInt8.ofNat (number memory address size / 256 ^ index) =
        memory (address + .ofNat 64 index) := by
  induction index generalizing size with
  | zero =>
    intro address less
    obtain ⟨size, rfl⟩ := Nat.exists_eq_succ_of_ne_zero (Nat.ne_of_gt less)
    have byte : ((memory address).toNat + 256 * number memory (address + 1) size) % 256 =
        (memory address).toNat % 256 := Nat.add_mul_mod_self_left _ _ _
    refine UInt8.toNat.inj ?_
    rw [BitVec.add_zero, Nat.pow_zero, Nat.div_one, number, UInt8.toNat_ofNat', byte]
    exact Nat.mod_eq_of_lt (memory address).toNat_lt
  | succ index inductionHypothesis =>
    intro address less
    obtain ⟨size, rfl⟩ := Nat.exists_eq_succ_of_ne_zero (Nat.ne_of_gt (Nat.zero_lt_of_lt less))
    have rest : number memory address (size + 1) / 256 = number memory (address + 1) size := by
      have byte := (memory address).toNat_lt
      rw [number]
      omega
    rw [Nat.pow_succ', ← Nat.div_div_eq_div_mul, rest,
      inductionHypothesis (Nat.lt_of_succ_lt_succ less), Nat.add_comm index, BitVec.ofNat_add,
      ← BitVec.add_assoc]
    rfl

/-- A word stored where it was loaded changes nothing. -/
theorem store_load (memory : Memory) (address : Word) :
    store memory address (load memory address) = memory := by
  funext place
  by_cases apart : 8 ≤ (place - address).toNat
  · exact store_of_le apart
  · have less := Nat.lt_of_not_le apart
    have whole : (load memory address).toNat = number memory address 8 := by
      rw [load, BitVec.toNat_ofNat]
      exact Nat.mod_eq_of_lt (number_lt memory address 8)
    rw [store, if_pos less, whole, byte_number memory less, BitVec.ofNat_toNat,
      BitVec.setWidth_eq, BitVec.add_comm, BitVec.sub_add_cancel]

/-- The bytes of a word at an offset of a base, behind a store at another offset. -/
theorem number_store_offset {memory : Memory} {base first second value : Word} {size : Nat}
    (before : 8 ≤ (second - first).toNat) (behind : 8 ≤ (first - second).toNat)
    (within : size ≤ 8) :
    number (store memory (base + first) value) (base + second) size =
      number memory (base + second) size := by
  refine number_congr fun index less => store_of_le ?_
  bv_omega

theorem load_store_offset {memory : Memory} {base first second value : Word}
    (before : 8 ≤ (second - first).toNat) (behind : 8 ≤ (first - second).toNat) :
    load (store memory (base + first) value) (base + second) = load memory (base + second) :=
  congrArg (BitVec.ofNat 64) (number_store_offset before behind (le_refl 8))

theorem load32_store_offset {memory : Memory} {base first second value : Word}
    (before : 8 ≤ (second - first).toNat) (behind : 8 ≤ (first - second).toNat) :
    load32 (store memory (base + first) value) (base + second) =
      load32 memory (base + second) :=
  congrArg (BitVec.ofNat 64) (number_store_offset before behind (by decide))

/-! ### Frames -/

/-- A byte is not among the given number of bytes below an address. -/
def Outside (top size place : Word) : Prop :=
  size ≤ place - (top + -size)

/-- Some bytes are not among the given number of bytes below an address. -/
def Apart (top size address : Word) (length : Nat) : Prop :=
  ∀ index < length, Outside top size (address + .ofNat 64 index)

instance (top size place : Word) : Decidable (Outside top size place) :=
  inferInstanceAs (Decidable (size ≤ place - (top + -size)))

theorem apart_iff (top size address : Word) (length : Nat) :
    Apart top size address length ↔
      ∀ index < length, Outside top size (address + .ofNat 64 index) := Iff.rfl

instance (top size address : Word) (length : Nat) : Decidable (Apart top size address length) :=
  decidable_of_iff' _ (apart_iff top size address length)

/-- The bytes from an address on are not below it. -/
theorem outside_of_le {top size place : Word} (room : size ≤ top) (above : top ≤ place) :
    Outside top size place := by
  unfold Outside
  bv_omega

/-- A word stored in a frame leaves what is outside of it. -/
theorem store_outside {memory : Memory} {top size place offset value : Word}
    (outside : Outside top size place) (least : 8 ≤ -offset) (most : -offset ≤ size) :
    store memory (top + offset) value place = memory place := by
  refine store_of_le ?_
  unfold Outside at outside
  bv_omega

/-- The bytes of a word in a frame are not below the frame. -/
theorem le_frame {top size offset : Word} {index : Nat} (room : size ≤ top)
    (least : 8 ≤ -offset) (most : -offset ≤ size) (less : index < 8) :
    top + -size ≤ top + offset + .ofNat 64 index := by
  bv_omega

/-- Memories that agree from the end of a frame on agree on the words in it. -/
theorem load_frame {first second : Memory} {top size offset : Word} (room : size ≤ top)
    (least : 8 ≤ -offset) (most : -offset ≤ size)
    (same : ∀ place, top + -size ≤ place → first place = second place) :
    load first (top + offset) = load second (top + offset) :=
  congrArg (BitVec.ofNat 64) (number_congr fun _ less =>
    same _ (le_frame room least most less))

/-- Memories that agree outside a frame agree on a number there. -/
theorem number_outside {first second : Memory} {top size address : Word} {length : Nat}
    (apart : Apart top size address length)
    (same : ∀ place, Outside top size place → first place = second place) :
    number first address length = number second address length :=
  number_congr fun index less => same _ (apart index less)

theorem load_outside {first second : Memory} {top size address : Word}
    (apart : Apart top size address 8)
    (same : ∀ place, Outside top size place → first place = second place) :
    load first address = load second address :=
  congrArg (BitVec.ofNat 64) (number_outside apart same)

/-- A number without its last four bits is a multiple of sixteen. -/
theorem toNat_aligned (value : Word) : (value &&& -16).toNat % 16 = 0 := by
  have mask : (-16 : Word).toNat % 2 ^ 4 = 0 := by decide
  have low := Nat.and_mod_two_pow (a := value.toNat) (b := (-16 : Word).toNat) (n := 4)
  rw [mask, Nat.and_zero] at low
  rw [BitVec.toNat_and]
  exact low

/-! ### Machine and instructions -/

/-- The general registers. -/
inductive Register where
  | rax
  | rcx
  | rdx
  | rbx
  | rsp
  | rbp
  | rsi
  | rdi
  | r8
  | r9
  | r10
  | r11
  | r12
  | r13
  | r14
  | r15
  deriving DecidableEq

/-- The state of a thread: its registers, the zero flag, the address of the next instruction,
the base of the segment `gs`, and the memory. -/
structure Machine where
  register : Register → Word
  zero : Bool
  rip : Word
  gs : Word
  memory : Memory

/-- An operand in memory. -/
inductive Address where
  | based (base : Register) (displacement : Word)
  | indexed (base index : Register) (scale : Word)
  | relative (symbol : Word)
  | segment (offset : Word)

/-- The instructions. -/
inductive Instruction where
  | push (source : Register)
  | pushImmediate (value : BitVec 32)
  | pop (target : Register)
  | mov (target source : Register)
  | movImmediate (target : Register) (value : Word)
  | movLoad (target : Register) (source : Address)
  | movLoad32 (target : Register) (source : Address)
  | movStore (target : Address) (source : Register)
  | lea (target : Register) (source : Address)
  | add (target : Register) (value : Word)
  | sub (target : Register) (value : Word)
  | and (target : Register) (value : Word)
  | xor32 (target source : Register)
  | test (first second : Register)
  | jz (target : Word)
  | jmp (target : Register)
  | call (target : Register)
  | callDirect (target : Word)
  | ret

/-- The address of an operand. -/
@[simp] def Machine.address (machine : Machine) : Address → Word
  | .based base displacement => machine.register base + displacement
  | .indexed base index scale => machine.register base + machine.register index * scale
  | .relative symbol => symbol
  | .segment offset => machine.gs + offset

/-- The machine with a register set. -/
@[simp] def Machine.set (machine : Machine) (target : Register) (value : Word) : Machine :=
  { machine with register := fun name => if name = target then value else machine.register name }

/-- The machine with a word pushed. -/
@[simp] def Machine.push (machine : Machine) (value : Word) : Machine :=
  { machine.set .rsp (machine.register .rsp + -8) with
    memory := store machine.memory (machine.register .rsp + -8) value }

/-- The machine with the result of an operation in a register, and the zero flag for it. -/
@[simp] def Machine.result (machine : Machine) (target : Register) (value : Word) : Machine :=
  { machine.set target value with zero := decide (value = 0) }

/-- What an instruction does, given the address behind it. -/
@[simp] def Instruction.execute (next : Word) (machine : Machine) : Instruction → Machine
  | .push source => { machine.push (machine.register source) with rip := next }
  | .pushImmediate value => { machine.push (value.signExtend 64) with rip := next }
  | .pop target =>
    { (machine.set .rsp (machine.register .rsp + 8)).set target
        (load machine.memory (machine.register .rsp)) with rip := next }
  | .mov target source => { machine.set target (machine.register source) with rip := next }
  | .movImmediate target value => { machine.set target value with rip := next }
  | .movLoad target source =>
    { machine.set target (load machine.memory (machine.address source)) with rip := next }
  | .movLoad32 target source =>
    { machine.set target (load32 machine.memory (machine.address source)) with rip := next }
  | .movStore target source =>
    { machine with
      memory := store machine.memory (machine.address target) (machine.register source)
      rip := next }
  | .lea target source => { machine.set target (machine.address source) with rip := next }
  | .add target value =>
    { machine.result target (machine.register target + value) with rip := next }
  | .sub target value =>
    { machine.result target (machine.register target + -value) with rip := next }
  | .and target value =>
    { machine.result target (machine.register target &&& value) with rip := next }
  | .xor32 target source =>
    { machine.result target
        (((machine.register target).setWidth 32 ^^^
          (machine.register source).setWidth 32).setWidth 64) with
      rip := next }
  | .test first second =>
    { machine with
      zero := decide (machine.register first &&& machine.register second = 0)
      rip := next }
  | .jz target => { machine with rip := if machine.zero then target else next }
  | .jmp target => { machine with rip := machine.register target }
  | .call target => { machine.push next with rip := machine.register target }
  | .callDirect target => { machine.push next with rip := target }
  | .ret =>
    { machine.set .rsp (machine.register .rsp + 8) with
      rip := load machine.memory (machine.register .rsp) }

/-- The instructions behind which the next one is executed. -/
def Instruction.straight : Instruction → Bool
  | .jz _ => false
  | .jmp _ => false
  | .call _ => false
  | .callDirect _ => false
  | .ret => false
  | _ => true

theorem Instruction.rip_execute {instruction : Instruction}
    (straight : instruction.straight = true) (next : Word) (machine : Machine) :
    (instruction.execute next machine).rip = next := by
  cases instruction with
  | jz => cases straight
  | jmp => cases straight
  | call => cases straight
  | callDirect => cases straight
  | ret => cases straight
  | _ => rfl

/-! ### Processes -/

/-- What a process executes: assembled text, as the instruction at an address with the address
behind it; and functions from outside, which run as a whole from their first instruction until
they have returned. -/
structure Process where
  text : Word → Option (Instruction × Word)
  outside : Machine → Option Machine

/-- The instructions that are decoded from bytes in memory, with their sizes:
`push imm32`, `mov r11, imm64` and `jmp r11`. -/
def decode (memory : Memory) (address : Word) : Option (Instruction × Nat) :=
  if memory address = 0x68 then
    some (.pushImmediate (.ofNat 32 (number memory (address + 1) 4)), 5)
  else if memory address = 0x49 ∧ memory (address + 1) = 0xbb then
    some (.movImmediate .r11 (load memory (address + 2)), 10)
  else if memory address = 0x41 ∧ memory (address + 1) = 0xff ∧ memory (address + 2) = 0xe3 then
    some (.jmp .r11, 3)
  else none

/-- One step: an instruction of the text, or a function from outside, or an instruction in
memory. -/
def Process.step (process : Process) (machine : Machine) : Option Machine :=
  match process.text machine.rip with
  | some (instruction, next) => some (instruction.execute next machine)
  | none =>
    match process.outside machine with
    | some returned => some returned
    | none => (decode machine.memory machine.rip).map fun (instruction, size) =>
        instruction.execute (machine.rip + .ofNat 64 size) machine

/-- A number of steps. -/
def Process.steps (process : Process) : Nat → Machine → Option Machine
  | 0, machine => some machine
  | count + 1, machine => (process.step machine).bind (process.steps count)

/-- A machine is reached from another. -/
def Process.Reaches (process : Process) : Machine → Machine → Prop :=
  Relation.ReflTransGen fun first second => process.step first = some second

section Reaches

variable {process : Process} {first second third : Machine}

theorem Process.Reaches.step (reached : process.Reaches first second)
    (next : process.step second = some third) : process.Reaches first third :=
  Relation.ReflTransGen.tail reached next

theorem Process.Reaches.trans (reached : process.Reaches first second)
    (next : process.Reaches second third) : process.Reaches first third :=
  Relation.ReflTransGen.trans reached next

theorem Process.steps_one (next : process.step first = some second) :
    process.steps 1 first = some second := by
  rw [Process.steps, next]
  rfl

theorem Process.steps_add {one other : Nat} (run : process.steps one first = some second) :
    process.steps (one + other) first = process.steps other second := by
  induction one generalizing first with
  | zero =>
    cases run
    rw [Nat.zero_add]
  | succ one inductionHypothesis =>
    obtain ⟨between, next, rest⟩ := Option.bind_eq_some_iff.mp run
    rw [Nat.add_right_comm, Process.steps, next]
    exact inductionHypothesis rest

theorem Process.reaches_of_steps {count : Nat} (run : process.steps count first = some second) :
    process.Reaches first second := by
  induction count generalizing first with
  | zero =>
    cases run
    exact .refl
  | succ count inductionHypothesis =>
    obtain ⟨between, next, rest⟩ := Option.bind_eq_some_iff.mp run
    exact .head next (inductionHypothesis rest)

end Reaches

theorem Process.step_decode {process : Process} {machine : Machine} {instruction : Instruction}
    {size : Nat} (text : process.text machine.rip = none)
    (outside : process.outside machine = none)
    (decoded : decode machine.memory machine.rip = some (instruction, size)) :
    process.step machine = some (instruction.execute (machine.rip + .ofNat 64 size) machine) := by
  rw [Process.step, text, outside, decoded]
  rfl

theorem Process.step_outside {process : Process} {machine returned : Machine}
    (text : process.text machine.rip = none) (outside : process.outside machine = some returned) :
    process.step machine = some returned := by
  rw [Process.step, text, outside]

/-- Instructions lie in the text at the given places. -/
def Assembled (process : Process) (place : Nat → Word) (program : List Instruction) : Prop :=
  ∀ index instruction, program[index]? = some instruction →
    process.text (place index) = some (instruction, place (index + 1))

/-- A program whose text is its instructions at successive addresses. -/
theorem assembled_of_text {process : Process} {place : Nat → Word} {program : List Instruction}
    {base : Nat} (fits : base + program.length < 2 ^ 64)
    (successive : ∀ index, place index = .ofNat 64 (base + index))
    (text : ∀ address, process.text address = program[(address - .ofNat 64 base).toNat]?.map
      fun instruction => (instruction, place ((address - .ofNat 64 base).toNat + 1))) :
    Assembled process place program := by
  intro index instruction found
  have less : index < program.length := (List.getElem?_eq_some_iff.mp found).1
  have offset : (place index - .ofNat 64 base).toNat = index := by
    rw [successive]
    bv_omega
  rw [text, offset, found, Option.map_some]

/-- The execution of a block whose first instruction has the given index. -/
@[simp] def executeBlock (place : Nat → Word) : Nat → List Instruction → Machine → Machine
  | _, [], machine => machine
  | index, instruction :: block, machine =>
    executeBlock place (index + 1) block (instruction.execute (place (index + 1)) machine)

theorem executeBlock_append (place : Nat → Word) (index : Nat) (first second : List Instruction)
    (machine : Machine) :
    executeBlock place index (first ++ second) machine =
      executeBlock place (index + first.length) second
        (executeBlock place index first machine) := by
  induction first generalizing index machine with
  | nil => rfl
  | cons instruction first inductionHypothesis =>
    rw [List.cons_append, executeBlock, inductionHypothesis, executeBlock, List.length_cons,
      Nat.add_comm first.length, ← Nat.add_assoc]

variable {process : Process} {place : Nat → Word} {program : List Instruction}

theorem Assembled.step (assembled : Assembled process place program) {index : Nat}
    {instruction : Instruction} (found : program[index]? = some instruction)
    {machine : Machine} (here : machine.rip = place index) :
    process.step machine = some (instruction.execute (place (index + 1)) machine) := by
  rw [Process.step, here, assembled index instruction found]

/-- Some straight instructions of a program. -/
theorem Assembled.steps_block (assembled : Assembled process place program) {index : Nat}
    {block rest : List Instruction} (found : program.drop index = block ++ rest)
    (straight : block.all Instruction.straight = true) {machine : Machine}
    (here : machine.rip = place index) :
    process.steps block.length machine = some (executeBlock place index block machine) ∧
      (executeBlock place index block machine).rip = place (index + block.length) := by
  induction block generalizing index machine with
  | nil => exact ⟨rfl, here⟩
  | cons instruction block inductionHypothesis =>
    have first : program[index]? = some instruction := by
      rw [← Nat.add_zero index, ← List.getElem?_drop, found]
      rfl
    have others : program.drop (index + 1) = block ++ rest := by
      rw [← List.drop_drop, found]
      rfl
    rw [List.all_cons, Bool.and_eq_true] at straight
    obtain ⟨run, there⟩ := inductionHypothesis others straight.2
      (Instruction.rip_execute straight.1 (place (index + 1)) machine)
    rw [List.length_cons, Process.steps, assembled.step first here, Nat.add_comm block.length,
      ← Nat.add_assoc]
    exact ⟨run, there⟩

/-- A number of instructions from an index on, all of them straight, are executed. -/
theorem Assembled.run (assembled : Assembled process place program) (index count : Nat)
    (straight : ((program.drop index).take count).all Instruction.straight = true)
    (enough : index + count ≤ program.length) {machine : Machine}
    (here : machine.rip = place index) :
    process.steps count machine =
        some (executeBlock place index ((program.drop index).take count) machine) ∧
      (executeBlock place index ((program.drop index).take count) machine).rip =
        place (index + count) := by
  have length : ((program.drop index).take count).length = count := by
    rw [List.length_take, List.length_drop]
    omega
  have run := assembled.steps_block (List.take_append_drop count (program.drop index)).symm
    straight here
  rw [length] at run
  exact run

end X64
