/-
This file is about a call of a stub. The bytes of the stub are those the loader emits; they
push the index of the import and jump to `stub_dispatch`, which looks the import up, logs the
call where the TEB has a function for that, and goes on at the import with the stack and the
registers of the call. The proof follows the stack frame: what it holds after the registers
have been saved stays in it while the host logs, and is restored from it.
-/

import Nloader.Stubs

namespace Nloader.Stubs

open X64

/-! ### The bytes of a stub -/

theorem getElem?_toBytes {size index : Nat} (less : index < size) (value : Nat) :
    (Loader.toBytes size value)[index]? = some (UInt8.ofNat (value / 256 ^ index)) := by
  induction size generalizing index value with
  | zero => exact absurd less (Nat.not_lt_zero index)
  | succ size inductionHypothesis =>
    cases index with
    | zero => rw [Loader.toBytes, List.getElem?_cons_zero, Nat.pow_zero, Nat.div_one]
    | succ index =>
      rw [Loader.toBytes, List.getElem?_cons_succ,
        inductionHypothesis (Nat.lt_of_succ_lt_succ less), Nat.div_div_eq_div_mul,
        ← Nat.pow_succ']

/-- Bytes lie in memory from an address on. -/
def BytesAt (memory : Memory) (address : Word) (bytes : List UInt8) : Prop :=
  ∀ offset byte, bytes[offset]? = some byte → memory (address + .ofNat 64 offset) = byte

theorem BytesAt.number {memory : Memory} {address : Word} {before behind : List UInt8}
    {size value : Nat}
    (bytes : BytesAt memory address (before ++ Loader.toBytes size value ++ behind)) :
    number memory (address + .ofNat 64 before.length) size = value % 256 ^ size := by
  have found := @number_bytes memory value size (address + .ofNat 64 before.length) 0 ?_
  · rw [found, Nat.pow_zero, Nat.div_one]
  · intro index less
    rw [BitVec.add_assoc, ← BitVec.ofNat_add, Nat.zero_add]
    refine bytes _ _ ?_
    have within : index < (Loader.toBytes size value).length := by
      rw [Loader.toBytes_length]
      exact less
    rw [List.append_assoc, List.getElem?_append_right (Nat.le_add_right _ _),
      Nat.add_sub_cancel_left, List.getElem?_append_left within, getElem?_toBytes less]

/-- Bytes outside a frame stay where they are. -/
theorem BytesAt.outside {first second : Memory} {address top size : Word} {bytes : List UInt8}
    (there : BytesAt first address bytes) (apart : Apart top size address bytes.length)
    (same : ∀ place, Outside top size place → second place = first place) :
    BytesAt second address bytes := by
  intro offset byte found
  have less := (List.getElem?_eq_some_iff.mp found).1
  exact (same _ (apart offset less)).trans (there offset byte found)

section Decode

variable {memory : Memory} {stub : Word} {system : Loader.System} {idx : BitVec 32}

/-- The bytes of a stub are three instructions. -/
theorem decode_emitStub (bytes : BytesAt memory stub (Loader.emitStub system idx.toNat)) :
    decode memory stub = some (.pushImmediate idx, 5) ∧
      decode memory (stub + 5) =
        some (.movImmediate .r11 (.ofNat 64 system.stubDispatch), 10) ∧
      decode memory (stub + 15) = some (.jmp .r11, 3) := by
  have index := @BytesAt.number memory stub [0x68]
    ([0x49, 0xbb] ++ Loader.toBytes 8 system.stubDispatch ++ [0x41, 0xff, 0xe3]) 4 idx.toNat bytes
  have target := @BytesAt.number memory stub
    (0x68 :: Loader.toBytes 4 idx.toNat ++ [0x49, 0xbb]) [0x41, 0xff, 0xe3] 8
    system.stubDispatch bytes
  have byte : ∀ first second, ∀ value ∈ (Loader.emitStub system idx.toNat)[first + second]?,
      memory (stub + .ofNat 64 first + .ofNat 64 second) = value := by
    intro first second value found
    rw [BitVec.add_assoc, ← BitVec.ofNat_add]
    exact bytes _ _ found
  have push : memory stub = 0x68 := by
    have first := bytes 0 0x68 rfl
    rw [BitVec.add_zero] at first
    exact first
  refine ⟨?_, ?_, ?_⟩
  · have small : idx.toNat % 256 ^ 4 = idx.toNat := Nat.mod_eq_of_lt idx.isLt
    have same : number memory (stub + 1) 4 = idx.toNat := index.trans small
    rw [decode, if_pos push, same, BitVec.ofNat_toNat, BitVec.setWidth_eq]
  · have first : memory (stub + 5) = 0x49 := bytes 5 0x49 rfl
    have second : memory (stub + 5 + 1) = 0xbb := byte 5 1 0xbb rfl
    have place : stub + 5 + 2 = stub + .ofNat 64 7 := by
      rw [BitVec.add_assoc]
      rfl
    have whole : 256 ^ 8 = 2 ^ 64 := by decide
    have word : load memory (stub + 5 + 2) = .ofNat 64 system.stubDispatch := by
      have same : number memory (stub + .ofNat 64 7) 8 = _ := target
      refine BitVec.eq_of_toNat_eq ?_
      rw [load, place, same, whole, BitVec.toNat_ofNat, BitVec.toNat_ofNat, Nat.mod_mod]
    rw [decode, if_neg (by rw [first]; decide), if_pos ⟨first, second⟩, word]
  · have first : memory (stub + 15) = 0x41 := bytes 15 0x41 rfl
    have second : memory (stub + 15 + 1) = 0xff := byte 15 1 0xff rfl
    have third : memory (stub + 15 + 2) = 0xe3 := byte 15 2 0xe3 rfl
    have other : ¬ (memory (stub + 15) = 0x49 ∧ memory (stub + 15 + 1) = 0xbb) :=
      fun both => absurd (first.symm.trans both.1) (by decide)
    rw [decode, if_neg (by rw [first]; decide), if_neg other, if_pos ⟨first, second, third⟩]

end Decode

/-! ### A call of a stub -/

/-- The size of the stack below the return address that a call of a stub uses. -/
def frameSize : Word := 0x80

/-- `import_addrs[idx]`. -/
def importAddr (symbols : Symbols) (memory : Memory) (idx : BitVec 32) : Word :=
  load memory (load memory symbols.importAddrs + idx.setWidth 64 * 8)

/-- `LogModule` of the TEB. -/
def logModule (machine : Machine) : Word :=
  load machine.memory (machine.gs + tebLogModuleOffset)

/-- The code is in place: `stub_dispatch` in the text, at the address the stubs jump to, and
neither text nor functions from outside at the addresses of a stub. -/
structure Installed (process : Process) (symbols : Symbols) (place : Nat → Word)
    (system : Loader.System) (stub : Word) : Prop where
  dispatch : Assembled process place (stubDispatch symbols place)
  target : system.stubDispatch = (place 0).toNat
  text : ∀ offset ∈ [0, 5, 15], process.text (stub + offset) = none
  outside : ∀ offset ∈ [0, 5, 15], ∀ machine, machine.rip = stub + offset →
    process.outside machine = none

/-- The machine is at a stub that has been emitted for an index. The frame of the call lies
on the stack, apart from the stub, from the table of the addresses and from the TEB. -/
structure AtStub (symbols : Symbols) (system : Loader.System) (stub : Word) (idx : BitVec 32)
    (entry : Machine) : Prop where
  rip : entry.rip = stub
  emitted : BytesAt entry.memory stub (Loader.emitStub system idx.toNat)
  room : frameSize ≤ entry.register .rsp
  stubApart : Apart (entry.register .rsp) frameSize stub 18
  tableApart : Apart (entry.register .rsp) frameSize symbols.importAddrs 8
  addrApart : Apart (entry.register .rsp) frameSize
    (load entry.memory symbols.importAddrs + idx.setWidth 64 * 8) 8
  tebApart : Apart (entry.register .rsp) frameSize (entry.gs + tebLogModuleOffset) 8

/-- A function from outside that obeys the System V convention: it returns behind its return
address, and preserves the registers `rbx`, `rbp` and `r12` to `r15` and the memory from the
return address on. -/
def SystemV (process : Process) (function : Word) : Prop :=
  process.text function = none ∧ ∀ machine, machine.rip = function →
    ∃ returned, process.outside machine = some returned ∧
      returned.rip = load machine.memory (machine.register .rsp) ∧
      returned.register .rsp = machine.register .rsp + 8 ∧
      (∀ name ∈ [Register.rbx, .rbp, .r12, .r13, .r14, .r15],
        returned.register name = machine.register name) ∧
      ∀ place, machine.register .rsp ≤ place → returned.memory place = machine.memory place

section Call

variable {process : Process} {symbols : Symbols} {place : Nat → Word} {system : Loader.System}
  {stub : Word} {idx : BitVec 32} {entry : Machine}

/-- The machine is at the start of `stub_dispatch`, with the index pushed. -/
structure AtDispatch (place : Nat → Word) (idx : BitVec 32) (entry machine : Machine) :
    Prop where
  rip : machine.rip = place 0
  rsp : machine.register .rsp = entry.register .rsp + -8
  registers : ∀ name, name ≠ .rsp → name ≠ .r11 → machine.register name = entry.register name
  gs : machine.gs = entry.gs
  memory : machine.memory = store entry.memory (entry.register .rsp + -8) (idx.signExtend 64)

/-- The stub pushes its index and jumps to `stub_dispatch`. -/
theorem reaches_dispatch (installed : Installed process symbols place system stub)
    (at_ : AtStub symbols system stub idx entry) :
    ∃ machine, process.Reaches entry machine ∧ AtDispatch place idx entry machine := by
  have quiet : ∀ offset ∈ [0, 5, 15], ∀ machine : Machine, machine.rip = stub + offset →
      process.text machine.rip = none ∧ process.outside machine = none := by
    intro offset member machine here
    rw [here]
    exact ⟨installed.text offset member, installed.outside offset member machine here⟩
  obtain ⟨push, _, _⟩ := decode_emitStub at_.emitted
  have kept : ∀ place, Outside (entry.register .rsp) frameSize place →
      store entry.memory (entry.register .rsp + -8) (idx.signExtend 64) place =
        entry.memory place :=
    fun place outside => store_outside outside (by decide) (by decide)
  obtain ⟨_, mov, jmp⟩ := decode_emitStub (at_.emitted.outside at_.stubApart kept)
  have target : BitVec.ofNat 64 system.stubDispatch = place 0 := by
    rw [installed.target, BitVec.ofNat_toNat, BitVec.setWidth_eq]
  rw [target] at mov
  have start : entry.rip = stub + 0 := at_.rip.trans (BitVec.add_zero stub).symm
  obtain ⟨text, outside⟩ := quiet 0 (by decide) entry start
  rw [← at_.rip] at push
  have first := Process.step_decode text outside push
  generalize pushed : Instruction.execute _ entry (.pushImmediate idx) = machine at first
  have memory : machine.memory = store entry.memory (entry.register .rsp + -8)
      (idx.signExtend 64) := by
    rw [← pushed]
    rfl
  have here : machine.rip = stub + 5 := by
    rw [← pushed, at_.rip]
    rfl
  obtain ⟨text, outside⟩ := quiet 5 (by decide) machine here
  rw [← memory, ← here] at mov
  have second := Process.step_decode text outside mov
  generalize moved : Instruction.execute _ machine (.movImmediate .r11 (place 0)) = machine'
    at second
  have memory' : machine'.memory = machine.memory := by
    rw [← moved]
    rfl
  have here' : machine'.rip = stub + 15 := by
    rw [← moved, here, BitVec.add_assoc]
    rfl
  obtain ⟨text, outside⟩ := quiet 15 (by decide) machine' here'
  rw [← memory, ← memory', ← here'] at jmp
  have third := Process.step_decode text outside jmp
  refine ⟨_, .head first (.head second (.single third)), ?_⟩
  subst moved pushed
  refine ⟨rfl, rfl, fun name stack scratch => ?_, rfl, rfl⟩
  exact (if_neg scratch).trans (if_neg stack)

/-! ### The frame of a call -/

theorem index_signExtend (idx : BitVec 32) :
    BitVec.ofNat 64 ((idx.signExtend 64).toNat % 2 ^ 32) = idx.setWidth 64 := by
  have low : (idx.signExtend 64).toNat % 2 ^ 32 = idx.toNat := by
    have small := idx.isLt
    rw [BitVec.toNat_signExtend, BitVec.toNat_setWidth]
    split_ifs <;> omega
  rw [low, BitVec.ofNat_toNat]

/-- The registers that are saved in the frame, with their places relative to the return
address. -/
def savedRegisters : List (Register × Word) :=
  [(.rax, -0x30), (.r9, -0x40), (.r8, -0x48), (.rdx, -0x50), (.rcx, -0x58), (.rdi, -0x28),
   (.rsi, -0x20), (.rbx, -0x18), (.rbp, -0x10)]

/-- A machine inside `stub_dispatch`: the frame holds the registers of the call, the others
that a function preserves are unchanged, and so is the memory from the return address on. -/
structure Framed (entry machine : Machine) : Prop where
  rsp : machine.register .rsp = entry.register .rsp + -0x78
  rbp : machine.register .rbp = entry.register .rsp + -0x28
  saved : ∀ slot ∈ savedRegisters,
    load machine.memory (entry.register .rsp + slot.2) = entry.register slot.1
  registers : ∀ name ∈ [Register.r12, .r13, .r14, .r15],
    machine.register name = entry.register name
  memory : ∀ place, entry.register .rsp ≤ place → machine.memory place = entry.memory place

/-- The index is in `ebx` once it has been loaded. -/
theorem index_loaded {machine : Machine} (at_ : AtDispatch place idx entry machine) :
    (executeBlock place 0 ((stubDispatch symbols place).take 6) machine).register .rbx =
      idx.setWidth 64 := by
  simp [stubDispatch, at_.rsp, at_.memory, BitVec.add_assoc]
  simp (disch := decide) only [load32_store_offset, load32_store]
  exact index_signExtend idx

/-- What `stub_dispatch` has looked up, before it tests the address of the import. -/
theorem looked_up {machine looked : Machine} (at_ : AtDispatch place idx entry machine)
    (same : looked = executeBlock place 0 ((stubDispatch symbols place).take 17) machine) :
    looked.gs = entry.gs ∧
      (∀ place, Outside (entry.register .rsp) frameSize place →
        looked.memory place = entry.memory place) ∧
      looked.register .r10 =
        load looked.memory (load looked.memory symbols.importAddrs + idx.setWidth 64 * 8) ∧
      looked.zero = decide (looked.register .r10 = 0) := by
  refine ⟨?_, fun place outside => ?_, ?_, ?_⟩
  · simp [same, stubDispatch, at_.gs]
  · simp [same, stubDispatch, at_.rsp, at_.memory, BitVec.add_assoc]
    simp (disch := decide) only [store_outside outside]
  · simp [same, stubDispatch, at_.rsp, at_.memory, BitVec.add_assoc]
    simp (disch := decide) only [load32_store_offset, load32_store, index_signExtend]
  · simp [same, stubDispatch]

theorem framed_lookUp {machine looked : Machine} (at_ : AtDispatch place idx entry machine)
    (room : frameSize ≤ entry.register .rsp)
    (same : looked = executeBlock place 0 ((stubDispatch symbols place).take 17) machine) :
    Framed entry looked where
  rsp := by simp [same, stubDispatch, at_.rsp, BitVec.add_assoc]
  rbp := by simp [same, stubDispatch, at_.rsp, BitVec.add_assoc]
  saved := by
    simp [same, savedRegisters, stubDispatch, at_.rsp, BitVec.add_assoc]
    simp (disch := decide) [load_store_offset, at_.registers]
  registers := by
    simp [same, stubDispatch]
    simp (disch := decide) [at_.registers]
  memory := fun place above =>
    (looked_up at_ same).2.1 place (outside_of_le room above)

/-- A frame goes on where its own registers and words do. -/
theorem Framed.congr {first second : Machine} (framed : Framed entry first)
    (registers : ∀ name ∈ [Register.rsp, .rbp, .r12, .r13, .r14, .r15],
      second.register name = first.register name)
    (saved : ∀ slot ∈ savedRegisters, load second.memory (entry.register .rsp + slot.2) =
      load first.memory (entry.register .rsp + slot.2))
    (memory : ∀ place, entry.register .rsp ≤ place → second.memory place = first.memory place) :
    Framed entry second where
  rsp := (registers .rsp (by decide)).trans framed.rsp
  rbp := (registers .rbp (by decide)).trans framed.rbp
  saved := fun slot member => (saved slot member).trans (framed.saved slot member)
  registers := fun name member =>
    (registers name (List.mem_cons_of_mem _ (List.mem_cons_of_mem _ member))).trans
      (framed.registers name member)
  memory := fun place above => (memory place above).trans (framed.memory place above)

/-- The frame at `.nolog` is restored, and the import is called. -/
theorem reaches_import (assembled : Assembled process place (stubDispatch symbols place))
    {machine : Machine} (framed : Framed entry machine) (here : machine.rip = place nolog) :
    ∃ last, process.Reaches machine last ∧ last.rip = machine.register .r10 ∧
      (∀ name, name ≠ .r10 → name ≠ .r11 → last.register name = entry.register name) ∧
      ∀ place, entry.register .rsp ≤ place → last.memory place = entry.memory place := by
  obtain ⟨run, there⟩ := assembled.run 30 13 rfl (Nat.le_of_ble_eq_true rfl) here
  generalize same : executeBlock place 30 _ machine = restored at run there
  have reached := Process.reaches_of_steps run
  have slots := framed.saved
  have others := framed.registers
  simp [savedRegisters] at slots others
  -- The block is executed once, before the registers are told apart.
  simp [stubDispatch] at same
  have last := assembled.step (rfl : (stubDispatch symbols place)[43]? = some (.jmp .r10)) there
  refine ⟨_, reached.step last, ?_, ?_, ?_⟩
  · simp [← same]
  · intro name other scratch
    cases name with
    | r10 => exact absurd rfl other
    | r11 => exact absurd rfl scratch
    | _ => simp [← same, framed.rsp, framed.rbp, BitVec.add_assoc, slots, others]
  · intro place' above
    simp [← same, framed.rbp, BitVec.add_assoc, store_load]
    exact framed.memory place' above

/-- Each word of the frame lies in it, apart from the stash and the return address of the
host. -/
theorem savedRegisters_apart : ∀ slot ∈ savedRegisters,
    8 ≤ -slot.2 ∧ -slot.2 ≤ frameSize ∧
      (8 ≤ (slot.2 - -0x38).toNat ∧ 8 ≤ (-0x38 - slot.2).toNat) ∧
      8 ≤ (slot.2 - -0x80).toNat ∧ 8 ≤ (-0x80 - slot.2).toNat := by
  decide

/-- The call is logged, and `.nolog` is reached with the frame and the address of the
import. -/
theorem reaches_logged (assembled : Assembled process place (stubDispatch symbols place))
    (room : frameSize ≤ entry.register .rsp) {machine : Machine} (framed : Framed entry machine)
    (here : machine.rip = place 21) (log : SystemV process (machine.register .rax)) :
    ∃ machine', process.Reaches machine machine' ∧ machine'.rip = place nolog ∧
      Framed entry machine' ∧ machine'.register .r10 = machine.register .r10 := by
  obtain ⟨run, there⟩ := assembled.run 21 7 rfl (Nat.le_of_ble_eq_true rfl) here
  generalize same : executeBlock place 21 _ machine = prepared at run there
  have reached := Process.reaches_of_steps run
  have call := assembled.step (rfl : (stubDispatch symbols place)[28]? = some (.call .rbx)) there
  generalize called : Instruction.execute _ prepared (.call .rbx) = entered at call
  have function : entered.rip = machine.register .rax := by
    simp [← called, ← same, stubDispatch]
  have rsp : entered.register .rsp = entry.register .rsp + -0x80 := by
    simp [← called, ← same, stubDispatch, framed.rsp, BitVec.add_assoc]
  have memory : entered.memory = store (store machine.memory (entry.register .rsp + -0x38)
      (machine.register .r10)) (entry.register .rsp + -0x80) (place 29) := by
    simp [← called, ← same, stubDispatch, framed.rsp, BitVec.add_assoc]
  obtain ⟨text, returns⟩ := log
  obtain ⟨returned, outside, rip, stack, registers, above⟩ := returns entered function
  rw [← function] at text
  have back := Process.step_outside text outside
  rw [rsp, memory, load_store] at rip
  rw [rsp] at stack above
  have last := assembled.step
    (rfl : (stubDispatch symbols place)[29]? = some (.movLoad .r10 (.based .rsp 0x40))) rip
  have words : ∀ offset, 8 ≤ -offset → -offset ≤ frameSize →
      load returned.memory (entry.register .rsp + offset) =
        load entered.memory (entry.register .rsp + offset) :=
    fun offset least most => load_frame room least most above
  have rsp' : returned.register .rsp = machine.register .rsp := by
    rw [stack, framed.rsp, BitVec.add_assoc]
    rfl
  have callee : ∀ name ∈ [Register.rbp, .r12, .r13, .r14, .r15],
      returned.register name = machine.register name := by
    intro name member
    rw [registers name (List.mem_cons_of_mem _ member), ← called, ← same]
    revert name
    simp [stubDispatch]
  refine ⟨_, ((reached.step call).step back).step last, rfl, framed.congr ?_ ?_ ?_, ?_⟩
  · refine List.forall_mem_cons.mpr ⟨rsp', fun name member => ?_⟩
    have other : name ≠ .r10 := fun same => by
      rw [same] at member
      exact absurd member (by decide)
    exact (if_neg other).trans (callee name member)
  · intro slot member
    obtain ⟨least, most, stash, address⟩ := savedRegisters_apart slot member
    have word := words slot.2 least most
    rw [memory, load_store_offset address.1 address.2, load_store_offset stash.1 stash.2] at word
    exact word
  · intro place' from_
    have outside := outside_of_le room from_
    have frame : entry.register .rsp + -0x80 ≤ place' := by
      unfold frameSize at room
      bv_omega
    refine (above place' frame).trans ?_
    rw [memory, store_outside outside (by decide) (by decide),
      store_outside outside (by decide) (by decide)]
  · have word := words (-0x38) (by decide) (by decide)
    rw [memory, load_store_offset (by decide) (by decide), load_store] at word
    simp [rsp', framed.rsp, BitVec.add_assoc]
    exact word

/-- The call is logged, if at all. -/
theorem reaches_nolog (assembled : Assembled process place (stubDispatch symbols place))
    (room : frameSize ≤ entry.register .rsp) {machine : Machine} (framed : Framed entry machine)
    (here : machine.rip = place 18)
    (log : logModule machine = 0 ∨ SystemV process (logModule machine)) :
    ∃ machine', process.Reaches machine machine' ∧ machine'.rip = place nolog ∧
      Framed entry machine' ∧ machine'.register .r10 = machine.register .r10 := by
  obtain ⟨run, there⟩ := assembled.run 18 2 rfl (Nat.le_of_ble_eq_true rfl) here
  generalize same : executeBlock place 18 _ machine = tested at run there
  have reached := Process.reaches_of_steps run
  have rax : tested.register .rax = logModule machine := by
    simp [← same, stubDispatch, logModule]
  have zero : tested.zero = true ↔ logModule machine = 0 := by
    simp [← same, stubDispatch, logModule]
  have kept : Framed entry tested := by
    refine framed.congr ?_ (fun slot _ => ?_) fun place' _ => ?_
    all_goals simp [← same, stubDispatch]
  have stash : tested.register .r10 = machine.register .r10 := by
    simp [← same, stubDispatch]
  have jump := assembled.step (rfl : (stubDispatch symbols place)[20]? = some (.jz (place nolog)))
    there
  by_cases null : logModule machine = 0
  · refine ⟨_, reached.step jump, if_pos (zero.mpr null), ?_, stash⟩
    exact kept.congr (fun _ _ => rfl) (fun _ _ => rfl) fun _ _ => rfl
  · have next : Framed entry ((Instruction.jz (place nolog)).execute (place 21) tested) :=
      kept.congr (fun _ _ => rfl) (fun _ _ => rfl) fun _ _ => rfl
    obtain ⟨machine', logged, rest⟩ := reaches_logged assembled room next
      (if_neg (zero.not.mpr null)) (rax ▸ log.resolve_left null)
    exact ⟨machine', (reached.step jump).trans logged, rest.1, rest.2.1, rest.2.2.trans stash⟩

end Call

theorem logModule_congr {first second : Machine} (gs : first.gs = second.gs)
    (memory : first.memory = second.memory) : logModule first = logModule second := by
  rw [logModule, logModule, gs, memory]

/-! ### Transparency -/

/-- A call of the stub of an import with an address goes on at the import as if it had been
called: with the stack pointer, the memory from the return address on, and all registers but
`r10` and `r11` as they were. On the way, `rbx` holds the index of the import. -/
theorem stub_transparent (process : Process) (symbols : Symbols) (place : Nat → Word)
    (system : Loader.System) (stub : Word) (idx : BitVec 32) (entry : Machine)
    (installed : Installed process symbols place system stub)
    (here : AtStub symbols system stub idx entry)
    (resolved : importAddr symbols entry.memory idx ≠ 0)
    (log : logModule entry = 0 ∨ SystemV process (logModule entry)) :
    ∃ looked, process.Reaches entry looked ∧ looked.rip = place 6 ∧
      looked.register .rbx = idx.setWidth 64 ∧
      ∃ last, process.Reaches looked last ∧ last.rip = importAddr symbols entry.memory idx ∧
        (∀ name, name ≠ .r10 → name ≠ .r11 → last.register name = entry.register name) ∧
        ∀ place, entry.register .rsp ≤ place → last.memory place = entry.memory place := by
  have assembled := installed.dispatch
  obtain ⟨machine, dispatched, start⟩ := reaches_dispatch installed here
  obtain ⟨run, there⟩ := assembled.run 0 6 rfl (Nat.le_of_ble_eq_true rfl) start.rip
  refine ⟨_, dispatched.trans (Process.reaches_of_steps run), there, index_loaded start, ?_⟩
  obtain ⟨run, there⟩ := assembled.run 6 11 rfl (Nat.le_of_ble_eq_true rfl) there
  generalize same : executeBlock place 6 _ _ = found at run there
  have reached := Process.reaches_of_steps run
  have block : found = executeBlock place 0 ((stubDispatch symbols place).take 17) machine := by
    have parts : (stubDispatch symbols place).take 17 = (stubDispatch symbols place).take 6 ++
        ((stubDispatch symbols place).drop 6).take 11 := rfl
    rw [parts, executeBlock_append]
    exact same.symm
  obtain ⟨gs, outside, r10, zero⟩ := looked_up start block
  have address : found.register .r10 = importAddr symbols entry.memory idx := by
    rw [r10, load_outside here.tableApart outside, load_outside here.addrApart outside]
    rfl
  have logger : logModule found = logModule entry := by
    unfold logModule
    rw [gs]
    exact load_outside here.tebApart outside
  rw [address, decide_eq_false resolved] at zero
  have jump := assembled.step
    (rfl : (stubDispatch symbols place)[17]? = some (.jz (place stubbed))) there
  have framed : Framed entry ((Instruction.jz (place stubbed)).execute (place 18) found) :=
    (framed_lookUp start here.room block).congr (fun _ _ => rfl) (fun _ _ => rfl) fun _ _ => rfl
  have next : ((Instruction.jz (place stubbed)).execute (place 18) found).rip = place 18 := by
    simp [zero]
  generalize jumped : (Instruction.jz (place stubbed)).execute (place 18) found = machine'
    at jump framed next
  have logger' : logModule machine' = logModule entry := by
    refine (logModule_congr ?_ ?_).trans logger
    · rw [← jumped, Instruction.execute]
    · rw [← jumped, Instruction.execute]
  have address' : machine'.register .r10 = importAddr symbols entry.memory idx := by
    rw [← jumped]
    exact address
  rw [← logger'] at log
  obtain ⟨machine', logged, at_, framed, stash⟩ := reaches_nolog assembled here.room framed next
    log
  obtain ⟨last, restored, rip, registers, memory⟩ := reaches_import assembled framed at_
  exact ⟨last, ((reached.step jump).trans logged).trans restored,
    rip.trans (stash.trans address'), registers, memory⟩

/-- Symbols at some addresses. -/
def exampleSymbols : Symbols where
  importAddrs := 0x600000
  importNames := 0x600008
  module := 0x600010
  msgCalled := 0x600018
  msgNotimpl := 0x600040
  printf := 0x510000
  abort := 0x520000

/-- Instructions at successive addresses. -/
def examplePlace (index : Nat) : Word :=
  .ofNat 64 (0x400000 + index)

/-- A process with `stub_dispatch` in its text, and outside a function at `0x500000` that
clears `rax` and `rcx` and returns. -/
def exampleProcess : Process where
  text := fun address =>
    (stubDispatch exampleSymbols examplePlace)[(address - 0x400000).toNat]?.map fun instruction =>
      (instruction, examplePlace ((address - 0x400000).toNat + 1))
  outside := fun machine =>
    if machine.rip = 0x500000 then
      some (Instruction.ret.execute 0 ((machine.set .rax 0).set .rcx 0))
    else none

/-- A machine at the stub of the import with index 5, whose address is `0x420000`. -/
def exampleMachine : Machine where
  register := fun name => if name = .rsp then 0x7ffff000 else if name = .rbx then 7 else 0
  zero := false
  rip := 0x7f0000000000
  gs := 0x7efdd000
  memory := fun place =>
    if (place - 0x7f0000000000).toNat < 18 then
      (Loader.emitStub Loader.exampleSystem 5).getD (place - 0x7f0000000000).toNat 0
    else store (store (store (fun _ => 0) 0x600000 0x610000) 0x610028 0x420000)
      0x7efdd0f0 0x500000 place

theorem assembled_example :
    Assembled exampleProcess examplePlace (stubDispatch exampleSymbols examplePlace) :=
  assembled_of_text (by decide) (fun _ => rfl) fun _ => rfl

theorem systemV_example : SystemV exampleProcess 0x500000 := by
  refine ⟨by decide, fun machine here => ⟨_, if_pos here, ?_, ?_, ?_, ?_⟩⟩
  all_goals simp

theorem installed_example :
    Installed exampleProcess exampleSymbols examplePlace Loader.exampleSystem 0x7f0000000000 where
  dispatch := assembled_example
  target := by simp [Loader.exampleSystem, examplePlace]
  text := by
    intro offset member
    have far : ∀ offset ∈ [0, 5, 15],
        50 ≤ ((0x7f0000000000 : Word) + offset - 0x400000).toNat := by simp
    unfold exampleProcess
    dsimp only
    rw [List.getElem?_eq_none (far offset member), Option.map_none]
  outside := by
    intro offset member machine here
    have other : ∀ offset ∈ [0, 5, 15], (0x7f0000000000 : Word) + offset ≠ 0x500000 := by simp
    exact if_neg fun same => other offset member (here.symm.trans same)

theorem atStub_example :
    AtStub exampleSymbols Loader.exampleSystem 0x7f0000000000 5 exampleMachine where
  rip := rfl
  emitted := by
    intro offset byte found
    have less : offset < 18 := (List.getElem?_eq_some_iff.mp found).1
    have place : (0x7f0000000000 + BitVec.ofNat 64 offset - 0x7f0000000000).toNat = offset := by
      bv_omega
    unfold exampleMachine
    dsimp only
    rw [place, if_pos less, List.getD_eq_getElem?_getD]
    exact congrArg (Option.getD · 0) found
  room := by decide
  stubApart := by decide
  tableApart := by decide
  addrApart := by decide
  tebApart := by decide

/-- That call of the stub goes on at `0x420000`. -/
theorem stub_transparent_example :
    ∃ looked, exampleProcess.Reaches exampleMachine looked ∧ looked.rip = examplePlace 6 ∧
      looked.register .rbx = (5 : BitVec 32).setWidth 64 ∧
      ∃ last, exampleProcess.Reaches looked last ∧
        last.rip = importAddr exampleSymbols exampleMachine.memory 5 ∧
        (∀ name, name ≠ .r10 → name ≠ .r11 →
          last.register name = exampleMachine.register name) ∧
        ∀ place, exampleMachine.register .rsp ≤ place →
          last.memory place = exampleMachine.memory place := by
  have function : logModule exampleMachine = 0x500000 := by decide
  exact stub_transparent exampleProcess exampleSymbols examplePlace Loader.exampleSystem
    0x7f0000000000 5 exampleMachine installed_example atStub_example (by decide)
    (.inr (function ▸ systemV_example))

end Nloader.Stubs
