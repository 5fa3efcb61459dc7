/-
This file models the machine code of `src/stubs_x64.asm`: `stub_dispatch`, which every stub
of an import jumps to, and `to_ep`, which calls the entry point of the guest. The code of the
host and of the guest is outside; its functions are known by the calling convention they obey.
-/

import Nloader.Library.X64
import Nloader.LoaderBinding

namespace Nloader.Stubs

open X64

/-! ### The code -/

/-- The addresses of the symbols `stub_dispatch` refers to. -/
structure Symbols where
  importAddrs : Word
  importNames : Word
  module : Word
  msgCalled : Word
  msgNotimpl : Word
  printf : Word
  abort : Word

/-- `TEB_LOGMODULE_OFFSET`. -/
def tebLogModuleOffset : Word := 0xf0

/-- `TEB_STACKBASE_OFFSET`. -/
def tebStackBaseOffset : Word := 0x08

/-- `TEB_PEB_OFFSET`. -/
def tebPebOffset : Word := 0x60

/-- The index of the instruction at `.nolog`. -/
def nolog : Nat := 30

/-- The index of the instruction at `.stubbed`. -/
def stubbed : Nat := 44

/-- `stub_dispatch`, whose instructions lie at the given places. -/
def stubDispatch (symbols : Symbols) (place : Nat → Word) : List Instruction :=
  [.push .rbp,
   .push .rbx,
   .push .rsi,
   .push .rdi,
   .mov .rbp .rsp,
   .movLoad32 .rbx (.based .rbp 0x20),
   .sub .rsp 0x50,
   .movStore (.based .rsp 0x20) .rcx,
   .movStore (.based .rsp 0x28) .rdx,
   .movStore (.based .rsp 0x30) .r8,
   .movStore (.based .rsp 0x38) .r9,
   .movStore (.based .rsp 0x48) .rax,
   .movLoad .rax (.relative symbols.importAddrs),
   .movLoad .r10 (.indexed .rax .rbx 8),
   .movLoad .rax (.relative symbols.importNames),
   .movLoad .r11 (.indexed .rax .rbx 8),
   .test .r10 .r10,
   .jz (place stubbed),
   .movLoad .rax (.segment tebLogModuleOffset),
   .test .rax .rax,
   .jz (place nolog),
   .movStore (.based .rsp 0x40) .r10,
   .mov .rbx .rax,
   .lea .rdi (.relative symbols.module),
   .lea .rsi (.relative symbols.msgCalled),
   .mov .rdx .r11,
   .movLoad .rcx (.based .rbp 0x28),
   .xor32 .rax .rax,
   .call .rbx,
   .movLoad .r10 (.based .rsp 0x40),
   -- `.nolog`
   .movLoad .rcx (.based .rsp 0x20),
   .movLoad .rdx (.based .rsp 0x28),
   .movLoad .r8 (.based .rsp 0x30),
   .movLoad .r9 (.based .rsp 0x38),
   .movLoad .rax (.based .rsp 0x48),
   .movLoad .r11 (.based .rbp 0x28),
   .mov .rsp .rbp,
   .pop .rdi,
   .pop .rsi,
   .pop .rbx,
   .pop .rbp,
   .add .rsp 0x10,
   .push .r11,
   .jmp .r10,
   -- `.stubbed`
   .lea .rdi (.relative symbols.msgNotimpl),
   .mov .rsi .r11,
   .xor32 .rax .rax,
   .callDirect symbols.printf,
   .xor32 .rax .rax,
   .callDirect symbols.abort]

/-- `to_ep`. -/
def toEp : List Instruction :=
  [.push .rbp,
   .mov .rbp .rsp,
   .push .rbx,
   .push .r12,
   .push .r13,
   .push .r14,
   .push .r15,
   .mov .r14 .rdi,
   .mov .r12 .rsp,
   .movLoad .rax (.segment tebStackBaseOffset),
   .movLoad .rcx (.segment tebPebOffset),
   .and .rax (-16),
   .sub .rax 0x20,
   .mov .rsp .rax,
   .call .r14,
   .mov .rsp .r12,
   .pop .r15,
   .pop .r14,
   .pop .r13,
   .pop .r12,
   .pop .rbp,
   .ret]

end Nloader.Stubs
