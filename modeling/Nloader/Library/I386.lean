/-
This file is a library of 32-bit x86 assembly, as far as hand-written arithmetic uses it. A text is
a list of labels and instructions, and what remains of it is where a machine stands. A flag that an
instruction leaves undefined has no value, and a jump that depends on such a flag goes nowhere, so
that what is proved of a text does not depend on it.

The library names nothing of the program it is used for.
-/

import Mathlib.Tactic

namespace I386

/-- A word, and an address. -/
abbrev Word : Type := BitVec 32

/-- A memory of bytes, with addresses that wrap. -/
abbrev Memory : Type := Word → BitVec 8

/-! ### Memory -/

/-- The word at an address, the least significant byte first. -/
def load (memory : Memory) (address : Word) : Word :=
  memory (address + 3) ++ memory (address + 2) ++ memory (address + 1) ++ memory address

/-- The memory with a word stored. -/
def store (memory : Memory) (address value : Word) : Memory := fun place =>
  if (place - address).toNat < 4 then value.extractLsb' (8 * (place - address).toNat) 8
  else memory place

theorem store_of_le {memory : Memory} {address value place : Word}
    (apart : 4 ≤ (place - address).toNat) : store memory address value place = memory place :=
  if_neg (Nat.not_lt_of_le apart)

/-- The word stored is the word loaded. -/
theorem load_store (memory : Memory) (address value : Word) :
    load (store memory address value) address = value := by
  have stored : ∀ index : Word, index.toNat < 4 →
      store memory address value (address + index) = value.extractLsb' (8 * index.toNat) 8 :=
    fun index less => by
      rw [store, BitVec.add_comm, BitVec.add_sub_cancel, if_pos less]
  have first := stored 0 (by decide)
  rw [BitVec.ofNat_eq_ofNat, BitVec.add_zero] at first
  refine BitVec.eq_of_getLsbD_eq fun index within => ?_
  rw [load, first, stored 1 (by decide), stored 2 (by decide), stored 3 (by decide)]
  simp only [BitVec.getLsbD_append, BitVec.getLsbD_extractLsb']
  split_ifs with byte0 byte1 byte2
  · simp [byte0]
  · simp [byte1, show 8 + (index - 8) = index by omega]
  · simp [byte2, show 16 + (index - 8 - 8) = index by omega]
  · simp [show index - 8 - 8 - 8 < 8 by omega, show 24 + (index - 8 - 8 - 8) = index by omega]

/-- A word is unchanged by a store that does not overlap it. -/
theorem load_store_of_le {memory : Memory} {address value place : Word}
    (before : 4 ≤ (place - address).toNat) (behind : 4 ≤ (address - place).toNat) :
    load (store memory address value) place = load memory place := by
  have same : ∀ index : Word, index.toNat < 4 →
      store memory address value (place + index) = memory (place + index) := fun index less =>
    store_of_le (by bv_omega)
  unfold load
  rw [store_of_le before, same 1 (by decide), same 2 (by decide), same 3 (by decide)]

/-! ### Machine and instructions -/

/-- The general registers. -/
inductive Register where
  | eax
  | ecx
  | edx
  | ebx
  | esp
  | ebp
  | esi
  | edi
  deriving DecidableEq

/-- The state of a thread: its registers, the carry and the zero flag, and the memory. -/
structure Machine where
  eax : Word
  ecx : Word
  edx : Word
  ebx : Word
  esp : Word
  ebp : Word
  esi : Word
  edi : Word
  carry : Option Bool
  zero : Option Bool
  memory : Memory

/-- An operand that is read. -/
inductive Operand where
  | register (name : Register)
  | based (base : Register) (displacement : Word)
  | immediate (value : Word)

/-- The instructions, with the labels of a text; those that shift do so by one bit. -/
inductive Instruction (Label : Type) where
  | push (source : Register)
  | pop (target : Register)
  | mov (target : Register) (source : Operand)
  | or (target : Register) (source : Operand)
  | xor (target : Register) (source : Operand)
  | add (target : Register) (source : Operand)
  | sub (target : Register) (source : Operand)
  | sbb (target : Register) (source : Operand)
  | cmp (target : Register) (source : Operand)
  | neg (target : Register)
  | dec (target : Register)
  | shr (target : Register)
  | rcr (target : Register)
  | mul (source : Operand)
  | div (source : Operand)
  | jmp (label : Label)
  | jnz (label : Label)
  | jc (label : Label)
  | jb (label : Label)
  | jbe (label : Label)
  | ja (label : Label)
  | ret (size : Word)

/-- A line of a text. -/
inductive Line (Label : Type) where
  | label (name : Label)
  | code (instruction : Instruction Label)

/-- The value of a register. -/
def Machine.register (machine : Machine) : Register → Word
  | .eax => machine.eax
  | .ecx => machine.ecx
  | .edx => machine.edx
  | .ebx => machine.ebx
  | .esp => machine.esp
  | .ebp => machine.ebp
  | .esi => machine.esi
  | .edi => machine.edi

/-- The value of an operand. -/
def Machine.value (machine : Machine) : Operand → Word
  | .register name => machine.register name
  | .based base displacement => load machine.memory (machine.register base + displacement)
  | .immediate value => value

/-- The machine with a register set. -/
def Machine.set (machine : Machine) (target : Register) (value : Word) : Machine :=
  match target with
  | .eax => { machine with eax := value }
  | .ecx => { machine with ecx := value }
  | .edx => { machine with edx := value }
  | .ebx => { machine with ebx := value }
  | .esp => { machine with esp := value }
  | .ebp => { machine with ebp := value }
  | .esi => { machine with esi := value }
  | .edi => { machine with edi := value }

/-- The machine with the flags set. -/
def Machine.flags (machine : Machine) (carry zero : Option Bool) : Machine :=
  { machine with carry := carry, zero := zero }

/-- The machine with the result of an operation in a register, and the flags for it. -/
def Machine.result (machine : Machine) (target : Register) (value : Word) (carry : Option Bool) :
    Machine :=
  (machine.set target value).flags carry (some (decide (value = 0)))

/-- Two words as one. -/
def double (high low : Word) : BitVec 64 := high ++ low

theorem toNat_double (high low : Word) :
    (double high low).toNat = high.toNat * 2 ^ 32 + low.toNat := by
  rw [double, BitVec.toNat_append, ← Nat.shiftLeft_add_eq_or_of_lt low.isLt, Nat.shiftLeft_eq]

theorem toNat_double_zero (low : Word) : (double 0 low).toNat = low.toNat := by
  have none : (0 : Word).toNat = 0 := rfl
  rw [toNat_double, none, Nat.zero_mul, Nat.zero_add]

theorem double_eq_zero_iff (high low : Word) : double high low = 0 ↔ high = 0 ∧ low = 0 := by
  rw [← BitVec.toNat_inj, ← BitVec.toNat_inj, ← BitVec.toNat_inj, toNat_double]
  have none : (0 : Word).toNat = 0 := rfl
  have none' : (0 : BitVec 64).toNat = 0 := rfl
  omega

/-- What `shr` and `rcr` make of two words. -/
theorem double_shr (high low : Word) :
    double (high >>> 1) (low >>> 1 ||| (BitVec.ofBool (high.getLsbD 0)).setWidth 32 <<< 31) =
      double high low >>> 1 := by
  refine BitVec.eq_of_getLsbD_eq fun index within => ?_
  simp only [double, BitVec.getLsbD_append, BitVec.getLsbD_ushiftRight, BitVec.getLsbD_or,
    BitVec.getLsbD_shiftLeft, BitVec.getLsbD_setWidth, BitVec.getLsbD_ofBool]
  by_cases low31 : 1 + index < 32
  · simp [low31, show index < 32 by omega, show index < 31 by omega]
  · by_cases top : index = 31
    · subst top
      simp
    · simp [low31, show ¬ index < 32 by omega, show 1 + (index - 32) = 1 + index - 32 by omega]

/-- What `sub` and `sbb` make of two words. -/
theorem double_sub (high low high' low' : Word) :
    double (high - high' - .ofNat 32 (decide (low < low')).toNat) (low - low') =
      double high low - double high' low' := by
  refine BitVec.eq_of_toNat_eq ?_
  rw [toNat_double, BitVec.toNat_sub, BitVec.toNat_sub, BitVec.toNat_sub, BitVec.toNat_sub,
    toNat_double, toNat_double, BitVec.toNat_ofNat]
  by_cases borrow : low < low'
  · have less : low.toNat < low'.toNat := borrow
    rw [decide_eq_true borrow, Bool.toNat_true]
    omega
  · have le : ¬ low.toNat < low'.toNat := borrow
    rw [decide_eq_false borrow, Bool.toNat_false]
    omega

/-- What `neg`, `neg` and `sbb` make of two words. -/
theorem double_neg (high low : Word) :
    double (-high - 0 - .ofNat 32 (decide (low ≠ 0)).toNat) (-low) = -double high low := by
  refine BitVec.eq_of_toNat_eq ?_
  rw [toNat_double, BitVec.toNat_sub, BitVec.toNat_sub, BitVec.toNat_neg, BitVec.toNat_neg,
    BitVec.toNat_neg, toNat_double, BitVec.toNat_ofNat]
  by_cases none : low = 0
  · have zero : low.toNat = 0 := congrArg BitVec.toNat none
    rw [decide_eq_false (not_not_intro none), Bool.toNat_false, zero]
    change _ * _ + (2 ^ 32 - 0) % 2 ^ 32 = _
    have zero' : (0 : Word).toNat = 0 := rfl
    omega
  · have positive : low.toNat ≠ 0 := fun zero => none (BitVec.eq_of_toNat_eq zero)
    have zero' : (0 : Word).toNat = 0 := rfl
    rw [decide_eq_true none, Bool.toNat_true]
    omega

/-- How a machine goes on: with the next line, at a label, back to the address that was on the
stack, or not at all as a division is not possible. -/
inductive Outcome (Label : Type) where
  | next (machine : Machine)
  | jump (label : Label) (machine : Machine)
  | returned (address : Word) (machine : Machine)
  | divideError (machine : Machine)

/-- A jump on a condition, if there is a value for it. -/
def Machine.branch (machine : Machine) {Label : Type} (label : Label) (condition : Option Bool) :
    Option (Outcome Label) :=
  condition.map fun holds => if holds then .jump label machine else .next machine

/-- What an instruction does. -/
def Instruction.execute {Label : Type} (machine : Machine) :
    Instruction Label → Option (Outcome Label)
  | .push source =>
    let top := machine.register .esp - 4
    some (.next { machine.set .esp top with
      memory := store machine.memory top (machine.register source) })
  | .pop target =>
    some (.next ((machine.set .esp (machine.register .esp + 4)).set target
      (load machine.memory (machine.register .esp))))
  | .mov target source => some (.next (machine.set target (machine.value source)))
  | .or target source =>
    some (.next (machine.result target (machine.register target ||| machine.value source)
      (some false)))
  | .xor target source =>
    some (.next (machine.result target (machine.register target ^^^ machine.value source)
      (some false)))
  | .add target source =>
    some (.next (machine.result target (machine.register target + machine.value source)
      (some (decide (2 ^ 32 ≤ (machine.register target).toNat + (machine.value source).toNat)))))
  | .sub target source =>
    some (.next (machine.result target (machine.register target - machine.value source)
      (some (decide (machine.register target < machine.value source)))))
  | .sbb target source =>
    machine.carry.map fun carry =>
      .next (machine.result target
        (machine.register target - machine.value source - .ofNat 32 carry.toNat)
        (some (decide ((machine.register target).toNat <
          (machine.value source).toNat + carry.toNat))))
  | .cmp target source =>
    some (.next (machine.flags (some (decide (machine.register target < machine.value source)))
      (some (decide (machine.register target = machine.value source)))))
  | .neg target =>
    some (.next (machine.result target (-machine.register target)
      (some (decide (machine.register target ≠ 0)))))
  | .dec target =>
    some (.next (machine.result target (machine.register target - 1) machine.carry))
  | .shr target =>
    some (.next (machine.result target (machine.register target >>> 1)
      (some ((machine.register target).getLsbD 0))))
  | .rcr target =>
    machine.carry.map fun carry =>
      .next ((machine.set target
        (machine.register target >>> 1 ||| (BitVec.ofBool carry).setWidth 32 <<< 31)).flags
        (some ((machine.register target).getLsbD 0)) machine.zero)
  | .mul source =>
    let product := (machine.register .eax).toNat * (machine.value source).toNat
    some (.next (((machine.set .eax (.ofNat 32 product)).set .edx
      (.ofNat 32 (product / 2 ^ 32))).flags
      (some (decide (2 ^ 32 ≤ product))) none))
  | .div source =>
    let dividend := (double (machine.register .edx) (machine.register .eax)).toNat
    let divisor := (machine.value source).toNat
    if divisor = 0 ∨ 2 ^ 32 ≤ dividend / divisor then some (.divideError machine)
    else
      some (.next (((machine.set .eax (.ofNat 32 (dividend / divisor))).set .edx
        (.ofNat 32 (dividend % divisor))).flags none none))
  | .jmp label => some (.jump label machine)
  | .jnz label => machine.branch label (machine.zero.map (!·))
  | .jc label => machine.branch label machine.carry
  | .jb label => machine.branch label machine.carry
  | .jbe label => machine.branch label (Option.map₂ (· || ·) machine.carry machine.zero)
  | .ja label => machine.branch label (Option.map₂ (fun below same => !(below || same))
      machine.carry machine.zero)
  | .ret size =>
    some (.returned (load machine.memory (machine.register .esp))
      (machine.set .esp (machine.register .esp + 4 + size)))

/-! ### Runs -/

/-- Where a thread stands in a text, or how it has left it. -/
inductive State (Label : Type) where
  | running (rest : List (Line Label)) (machine : Machine)
  | returned (address : Word) (machine : Machine)
  | divideError (machine : Machine)

section Texts

variable {Label : Type} [DecidableEq Label]

/-- What remains of a text from a label on. -/
def after (label : Label) : List (Line Label) → List (Line Label)
  | [] => []
  | .label name :: rest => if name = label then rest else after label rest
  | .code _ :: rest => after label rest

/-- One step; there is none behind the end of the text, and none after it was left. -/
def step (text : List (Line Label)) : State Label → Option (State Label)
  | .running (.label _ :: rest) machine => some (.running rest machine)
  | .running (.code instruction :: rest) machine =>
    (instruction.execute machine).map fun
      | .next machine => .running rest machine
      | .jump label machine => .running (after label text) machine
      | .returned address machine => .returned address machine
      | .divideError machine => .divideError machine
  | _ => none

/-- A number of steps. -/
def steps (text : List (Line Label)) : Nat → State Label → Option (State Label)
  | 0, state => some state
  | count + 1, state => (step text state).bind (steps text count)

/-- A state comes to another one in the end. -/
def Leads (text : List (Line Label)) (first last : State Label) : Prop :=
  ∃ count, steps text count first = some last

theorem steps_add (text : List (Line Label)) (count more : Nat) (state : State Label) :
    steps text (count + more) state = (steps text count state).bind (steps text more) := by
  induction count generalizing state with
  | zero => rw [Nat.zero_add, steps, Option.bind_some]
  | succ count inductionHypothesis =>
    rw [Nat.succ_add, steps, steps]
    cases step text state with
    | none => rfl
    | some next => exact inductionHypothesis next

theorem Leads.of_steps {text : List (Line Label)} {first last : State Label} (count : Nat)
    (run : steps text count first = some last) : Leads text first last := ⟨count, run⟩

theorem Leads.refl (text : List (Line Label)) (state : State Label) : Leads text state state :=
  ⟨0, rfl⟩

theorem Leads.step {text : List (Line Label)} {first next last : State Label}
    (once : step text first = some next) (rest : Leads text next last) : Leads text first last := by
  obtain ⟨count, run⟩ := rest
  exact ⟨count + 1, by rw [steps, once, Option.bind_some, run]⟩

theorem Leads.trans {text : List (Line Label)} {first second third : State Label}
    (before : Leads text first second) (behind : Leads text second third) :
    Leads text first third := by
  obtain ⟨count, run⟩ := before
  obtain ⟨more, rest⟩ := behind
  exact ⟨count + more, by rw [steps_add, run, Option.bind_some, rest]⟩

/-! ### Steps that depend on values -/

section Steps

variable {text rest : List (Line Label)} {machine : Machine} {label : Label}

theorem step_branch {instruction : Instruction Label} {holds : Bool}
    (executed : instruction.execute machine = machine.branch label (some holds)) :
    step text (.running (.code instruction :: rest) machine) =
      some (.running (if holds then after label text else rest) machine) := by
  rw [step, executed]
  cases holds <;> rfl

theorem step_jnz {same : Bool} (zero : machine.zero = some same) :
    step text (.running (.code (.jnz label) :: rest) machine) =
      some (.running (if same then rest else after label text) machine) := by
  rw [step_branch (by rw [Instruction.execute, zero]; rfl)]
  cases same <;> rfl

theorem step_jc {below : Bool} (carry : machine.carry = some below) :
    step text (.running (.code (.jc label) :: rest) machine) =
      some (.running (if below then after label text else rest) machine) :=
  step_branch (by rw [Instruction.execute, carry])

theorem step_jb {below : Bool} (carry : machine.carry = some below) :
    step text (.running (.code (.jb label) :: rest) machine) =
      some (.running (if below then after label text else rest) machine) :=
  step_branch (by rw [Instruction.execute, carry])

theorem step_jbe {below same : Bool} (carry : machine.carry = some below)
    (zero : machine.zero = some same) :
    step text (.running (.code (.jbe label) :: rest) machine) =
      some (.running (if below || same then after label text else rest) machine) :=
  step_branch (by rw [Instruction.execute, carry, zero]; rfl)

theorem step_ja {below same : Bool} (carry : machine.carry = some below)
    (zero : machine.zero = some same) :
    step text (.running (.code (.ja label) :: rest) machine) =
      some (.running (if below || same then rest else after label text) machine) := by
  rw [step_branch (by rw [Instruction.execute, carry, zero]; rfl)]
  cases below <;> cases same <;> rfl

/-- What the flags of a comparison say: below or equal. -/
theorem below_or_same (first second : Word) :
    (decide (first < second) || decide (first = second)) =
      decide (first.toNat ≤ second.toNat) := by
  rw [Bool.eq_iff_iff, Bool.or_eq_true, decide_eq_true_iff, decide_eq_true_iff, decide_eq_true_iff,
    Nat.le_iff_lt_or_eq, BitVec.toNat_inj]
  rfl

/-- The machine after a division. -/
def Machine.divided (machine : Machine) (source : Operand) : Machine :=
  let dividend := (double machine.edx machine.eax).toNat
  let divisor := (machine.value source).toNat
  { machine with
    eax := .ofNat 32 (dividend / divisor)
    edx := .ofNat 32 (dividend % divisor)
    carry := none
    zero := none }

theorem step_div {source : Operand} (positive : (machine.value source).toNat ≠ 0)
    (fits : (double machine.edx machine.eax).toNat / (machine.value source).toNat < 2 ^ 32) :
    step text (.running (.code (.div source) :: rest) machine) =
      some (.running rest (machine.divided source)) := by
  have possible : ¬ ((machine.value source).toNat = 0 ∨
      2 ^ 32 ≤ (double machine.edx machine.eax).toNat / (machine.value source).toNat) :=
    fun error => error.elim positive (Nat.not_le_of_lt fits)
  have executed : (Instruction.div source : Instruction Label).execute machine =
      some (.next (machine.divided source)) := if_neg possible
  rw [step, executed]
  rfl

theorem step_div_error {source : Operand} (none : (machine.value source).toNat = 0) :
    step text (.running (.code (.div source) :: rest) machine) = some (.divideError machine) := by
  have executed : (Instruction.div source : Instruction Label).execute machine =
      some (.divideError machine) := if_pos (.inl none)
  rw [step, executed]
  rfl

end Steps

end Texts

end I386
