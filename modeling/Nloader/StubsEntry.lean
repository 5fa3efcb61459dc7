/-
This file is about `to_ep`. It saves six registers, switches to the stack of the TEB, calls
the entry point of the guest, and switches back; but it pops five registers only, without
`rbx`. So it takes the saved `rbx` for `rbp` and the saved `rbp` for its return address, with
the stack pointer eight bytes below where a return leaves it.
-/

import Nloader.StubsDispatch

namespace Nloader.Stubs

open X64

/-! ### What the call has to do -/

/-- A function from outside that obeys the Win64 convention: it returns behind its return
address, and preserves the registers `rbx`, `rbp`, `rsi`, `rdi` and `r12` to `r15` and the
memory behind the home space of its arguments. -/
def Win64 (process : Process) (function : Word) : Prop :=
  process.text function = none ∧ ∀ machine, machine.rip = function →
    ∃ returned, process.outside machine = some returned ∧
      returned.rip = load machine.memory (machine.register .rsp) ∧
      returned.register .rsp = machine.register .rsp + 8 ∧
      (∀ name ∈ [Register.rbx, .rbp, .rsi, .rdi, .r12, .r13, .r14, .r15],
        returned.register name = machine.register name) ∧
      ∀ place, machine.register .rsp + 0x28 ≤ place →
        returned.memory place = machine.memory place

/-- A field of the TEB. -/
def tebField (machine : Machine) (offset : Word) : Word :=
  load machine.memory (machine.gs + offset)

/-- The entry point is called on the stack of the TEB, aligned, with the PEB in `rcx`. -/
structure EntersGuest (entry called : Machine) : Prop where
  rip : called.rip = entry.register .rdi
  rcx : called.register .rcx = tebField entry tebPebOffset
  rsp : called.register .rsp = (tebField entry tebStackBaseOffset &&& -16) + -0x28
  aligned : (called.register .rsp).toNat % 16 = 8

/-- A System V function has returned to its caller. -/
structure Unwound (entry last : Machine) : Prop where
  rip : last.rip = load entry.memory (entry.register .rsp)
  rsp : last.register .rsp = entry.register .rsp + 8
  registers : ∀ name ∈ [Register.rbx, .rbp, .r12, .r13, .r14, .r15],
    last.register name = entry.register name

/-- `to_ep` calls the entry point with its fifteenth instruction, and has returned behind its
last one, with the call of the entry point as one step. -/
def ToEpReturns (process : Process) (entry : Machine) : Prop :=
  ∃ called last, process.steps 15 entry = some called ∧ EntersGuest entry called ∧
    process.steps 23 entry = some last ∧ Unwound entry last

/-! ### What the call does -/

section Call

variable {process : Process} {place : Nat → Word} {entry : Machine}

/-- The machine at the entry point. -/
theorem toEp_called (assembled : Assembled process place toEp) (start : entry.rip = place 0) :
    ∃ called, process.steps 15 entry = some called ∧
      called.rip = entry.register .rdi ∧
      called.register .r12 = entry.register .rsp + -0x30 ∧
      load called.memory (called.register .rsp) = place 15 ∧
      ∃ saved : Memory,
        (∀ place, Outside (entry.register .rsp) 0x30 place → saved place = entry.memory place) ∧
        called.register .rcx = load saved (entry.gs + tebPebOffset) ∧
        called.register .rsp = (load saved (entry.gs + tebStackBaseOffset) &&& -16) + -0x28 := by
  obtain ⟨run, there⟩ := assembled.run 0 14 rfl (by decide) start
  generalize same : executeBlock place 0 _ entry = prepared at run there
  have call := assembled.step (rfl : toEp[14]? = some (.call .r14)) there
  refine ⟨_, (Process.steps_add run).trans (Process.steps_one call), ?_, ?_, load_store _ _ _,
    prepared.memory, fun place' outside => ?_, ?_, ?_⟩
  · simp [← same, toEp]
  · simp [← same, toEp, BitVec.add_assoc]
  · simp [← same, toEp, BitVec.add_assoc]
    simp (disch := decide) only [store_outside outside]
  · simp [← same, toEp]
  · simp [← same, toEp, BitVec.add_assoc]

/-- The entry point is called as it should be, where the TEB lies apart from the registers
that are saved on the stack. -/
theorem toEp_enters (assembled : Assembled process place toEp) (start : entry.rip = place 0)
    (pebApart : Apart (entry.register .rsp) 0x30 (entry.gs + tebPebOffset) 8)
    (baseApart : Apart (entry.register .rsp) 0x30 (entry.gs + tebStackBaseOffset) 8) :
    ∃ called, process.steps 15 entry = some called ∧ EntersGuest entry called := by
  obtain ⟨called, run, rip, _, _, saved, outside, rcx, rsp⟩ := toEp_called assembled start
  rw [load_outside pebApart outside] at rcx
  rw [load_outside baseApart outside] at rsp
  refine ⟨called, run, rip, rcx, rsp, ?_⟩
  have multiple := toNat_aligned (tebField entry tebStackBaseOffset)
  rw [rsp]
  unfold tebField at multiple
  bv_omega

/-- Behind its last instruction, the stack pointer is where it was when `to_ep` was called. -/
theorem toEp_last (assembled : Assembled process place toEp) (start : entry.rip = place 0)
    (guest : Win64 process (entry.register .rdi)) :
    ∃ last, process.steps 23 entry = some last ∧
      last.register .rsp = entry.register .rsp := by
  obtain ⟨called, run, function, r12, back, _⟩ := toEp_called assembled start
  obtain ⟨text, returns⟩ := guest
  obtain ⟨returned, outside, rip, _, registers, _⟩ := returns called function
  rw [← function] at text
  rw [back] at rip
  have guestStep := Process.step_outside text outside
  obtain ⟨pops, there⟩ := assembled.run 15 6 rfl (by decide) rip
  generalize same : executeBlock place 15 _ returned = popped at pops there
  have ret := assembled.step (rfl : toEp[21]? = some .ret) there
  have rest := (Process.steps_add pops).trans (Process.steps_one ret)
  refine ⟨_, (Process.steps_add run).trans
    ((Process.steps_add (Process.steps_one guestStep)).trans rest), ?_⟩
  have kept := registers .r12 (by decide)
  simp [← same, toEp, kept, r12, BitVec.add_assoc]

end Call

/-! ### An entry point that returns -/

/-- Instructions at successive addresses. -/
def toEpPlace (index : Nat) : Word :=
  .ofNat 64 (0x430000 + index)

/-- A process with `to_ep` in its text, and an entry point at `0x10000` that returns. -/
def toEpProcess : Process where
  text := fun address =>
    toEp[(address - 0x430000).toNat]?.map fun instruction =>
      (instruction, toEpPlace ((address - 0x430000).toNat + 1))
  outside := fun machine =>
    if machine.rip = 0x10000 then some (Instruction.ret.execute 0 machine) else none

/-- A machine at `to_ep`, called for that entry point from `0x33`. -/
def toEpMachine : Machine where
  register
    | .rdi => 0x10000
    | .rsp => 0x7ffff000
    | .rbp => 0x11
    | .rbx => 0x22
    | _ => 0
  zero := false
  rip := 0x430000
  gs := 0x7efdd000
  memory := store (store (fun _ => 0) 0x7efdd008 0x7eff0000) 0x7ffff000 0x33

theorem assembled_toEp : Assembled toEpProcess toEpPlace toEp :=
  assembled_of_text (by decide) (fun _ => rfl) fun _ => rfl

theorem win64_example : Win64 toEpProcess 0x10000 := by
  refine ⟨by decide, fun machine here => ⟨_, if_pos here, rfl, rfl, ?_, fun _ _ => rfl⟩⟩
  simp

/-! ### The return -/

/-- `to_ep` never returns as it should, whatever the machine and the entry point. -/
theorem not_toEpReturns (process : Process) (place : Nat → Word) (entry : Machine)
    (assembled : Assembled process place toEp) (start : entry.rip = place 0)
    (guest : Win64 process (entry.register .rdi)) : ¬ ToEpReturns process entry := by
  rintro ⟨_, last, _, _, run, unwound⟩
  obtain ⟨last', run', rsp⟩ := toEp_last assembled start guest
  obtain rfl : last = last' := Option.some.inj (run.symm.trans run')
  have same := rsp.symm.trans unwound.rsp
  bv_omega

/-- The call of that entry point does not return as it should. -/
theorem not_toEpReturns_example : ¬ ToEpReturns toEpProcess toEpMachine :=
  not_toEpReturns toEpProcess toEpPlace toEpMachine assembled_toEp (by decide) win64_example

/-- The entry point returns, and `to_ep` goes on at the saved `rbp`. -/
theorem toEp_goes_astray :
    Win64 toEpProcess (toEpMachine.register .rdi) ∧
      ∃ last, toEpProcess.steps 23 toEpMachine = some last ∧
        load toEpMachine.memory (toEpMachine.register .rsp) = 0x33 ∧ last.rip = 0x11 ∧
        last.register .rsp = 0x7ffff000 ∧ last.register .rbp = 0x22 ∧
        ¬ Unwound toEpMachine last := by
  have run : (toEpProcess.steps 23 toEpMachine).map (fun last =>
      (last.rip, last.register .rsp, last.register .rbp)) = some (0x11, 0x7ffff000, 0x22) := by
    decide +kernel
  obtain ⟨last, steps, values⟩ := Option.map_eq_some_iff.mp run
  obtain ⟨rip, rsp, rbp⟩ : last.rip = 0x11 ∧ last.register .rsp = 0x7ffff000 ∧
      last.register .rbp = 0x22 := by
    simpa using values
  refine ⟨win64_example, last, steps, load_store _ _ _, rip, rsp, rbp, fun unwound => ?_⟩
  have stack := rsp.symm.trans unwound.rsp
  exact absurd stack (by decide)

end Nloader.Stubs
