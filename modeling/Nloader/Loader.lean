/-
This file models `setup_nloader` of `src/loader.c`, as it is built for x86_64: it reads the
headers of an executable file, maps its sections, binds its imports to stubs, maps the
header, and sets the protections.

The file is the list of its bytes. The memory of the process is a map from addresses to
bytes; the mappings and the heap come from the system, which may refuse each of them. Every
address the loader forms lies less than `2 ^ 34` behind an address the system has mapped, so
that no pointer wraps. The run leaves a trace of the ranges it reads from the file, of the
parts of the import data it comes to, and of the memory it reads and writes.
-/

import Nloader.Library.Trace

namespace Nloader.Loader

open Trace

/-! ### Bytes -/

/-- The number stored in bytes, the least significant first. -/
def littleEndian : List UInt8 → Nat
  | [] => 0
  | byte :: bytes => byte.toNat + 256 * littleEndian bytes

/-- The bytes a number of the given size is stored in. -/
def toBytes : Nat → Nat → List UInt8
  | 0, _ => []
  | size + 1, value => UInt8.ofNat value :: toBytes size (value / 256)

/-- A 16-bit field of a structure. -/
def field16 (bytes : List UInt8) (offset : Nat) : UInt16 :=
  .ofNat (littleEndian ((bytes.drop offset).take 2))

/-- A 32-bit field of a structure. -/
def field32 (bytes : List UInt8) (offset : Nat) : UInt32 :=
  .ofNat (littleEndian ((bytes.drop offset).take 4))

/-- A 64-bit field of a structure. -/
def field64 (bytes : List UInt8) (offset : Nat) : UInt64 :=
  .ofNat (littleEndian ((bytes.drop offset).take 8))

/-! ### Structures of the file -/

/-- `struct pe_image_file_hdr`. -/
structure PeImageFileHdr where
  magic : UInt32
  machine : UInt16
  numberOfSections : UInt16
  sizeOfOptionalHeader : UInt16

/-- `sizeof(struct pe_image_file_hdr)`. -/
def sizeofFileHdr : Nat := 24

/-- The header in its bytes; without bytes, the header of the zeroed variable `pe_hdr`. -/
def peImageFileHdr (bytes : List UInt8) : PeImageFileHdr where
  magic := field32 bytes 0
  machine := field16 bytes 4
  numberOfSections := field16 bytes 6
  sizeOfOptionalHeader := field16 bytes 20

/-- `struct pe_image_data_dir`. -/
structure PeImageDataDir where
  virtualAddress : UInt32
  size : UInt32

/-- `struct pe_image_optional_hdr64`, with the directory of the imports, `DataDirectory[1]`. -/
structure PeImageOptionalHdr where
  magic : UInt16
  addressOfEntryPoint : UInt32
  imageBase : UInt64
  sectionAlignment : UInt32
  fileAlignment : UInt32
  sizeOfHeaders : UInt32
  subsystem : UInt16
  sizeOfStackReserve : UInt64
  numberOfRvaAndSizes : UInt32
  importDirectory : PeImageDataDir

/-- `sizeof(struct pe_image_optional_hdr64)`. -/
def sizeofOptionalHdr : Nat := 240

/-- The header in its bytes; without bytes, the header of the zeroed variable `pe_opt`. -/
def peImageOptionalHdr (bytes : List UInt8) : PeImageOptionalHdr where
  magic := field16 bytes 0
  addressOfEntryPoint := field32 bytes 16
  imageBase := field64 bytes 24
  sectionAlignment := field32 bytes 32
  fileAlignment := field32 bytes 36
  sizeOfHeaders := field32 bytes 60
  subsystem := field16 bytes 68
  sizeOfStackReserve := field64 bytes 72
  numberOfRvaAndSizes := field32 bytes 108
  importDirectory := { virtualAddress := field32 bytes 120, size := field32 bytes 124 }

/-- `struct pe_image_section_hdr`. -/
structure PeImageSectionHdr where
  virtualSize : UInt32
  virtualAddress : UInt32
  sizeOfRawData : UInt32
  pointerToRawData : UInt32
  characteristics : UInt32

/-- `sizeof(struct pe_image_section_hdr)`. -/
def sizeofSectionHdr : Nat := 40

/-- One entry of `sections`. -/
def peImageSectionHdr (bytes : List UInt8) : PeImageSectionHdr where
  virtualSize := field32 bytes 8
  virtualAddress := field32 bytes 12
  sizeOfRawData := field32 bytes 16
  pointerToRawData := field32 bytes 20
  characteristics := field32 bytes 36

/-- The first entries of `sections`; without bytes, those of the zeroed variable. -/
def sectionTable (bytes : List UInt8) (count : Nat) : List PeImageSectionHdr :=
  (List.range count).map fun index => peImageSectionHdr (bytes.drop (sizeofSectionHdr * index))

/-! ### Macros -/

section Alignment

variable {Word : Type} [DecidableEq Word] [Add Word] [Mul Word] [Div Word] [Mod Word]
  [OfNat Word 0] [OfNat Word 1]

/-- `PEALIGN`. -/
def peAlign (offset alignment : Word) : Word :=
  if alignment ≠ 0 then offset / alignment * alignment else offset

/-- `PESALIGN`. -/
def pesAlign (offset alignment : Word) : Word :=
  if alignment ≠ 0 then
    (offset / alignment + if offset % alignment ≠ 0 then 1 else 0) * alignment
  else offset

end Alignment

/-- `CLI_ISCONTAINED`. -/
def cliIsContained (bb bbSize sb sbSize : Nat) : Bool :=
  decide (bbSize > 0 ∧ sbSize > 0 ∧ sbSize ≤ bbSize ∧ sb ≥ bb ∧ sb + sbSize ≤ bb + bbSize ∧
    sb + sbSize > bb ∧ sb < bb + bbSize)

/-! ### The system -/

/-- The mappings the loader asks for. -/
inductive Mapping where
  | image
  | stubs
  | teb
  | stack
  | params
  | sharedUserData
  deriving DecidableEq

/-- The blocks the loader takes from the heap for one import. -/
inductive Allocation where
  | impname
  | fname
  | importNames
  | importAddrs
  | thunks
  deriving DecidableEq

/-- A protection of memory, as a set of `PROT_EXEC`, `PROT_READ` and `PROT_WRITE`. -/
structure Protection where
  exec : Bool
  read : Bool
  write : Bool
  deriving DecidableEq

/-- A memory of bytes. -/
abbrev Memory : Type := Nat → UInt8

/-- `struct nl_export`. -/
structure NlExport where
  dll : List UInt8
  name : List UInt8
  func : Nat

/-- What the process finds around the loader: the system calls and the heap with what they
grant, the memory before the run, the symbols of the link and the size of `TEB`. -/
structure System where
  getpagesize : UInt32
  mmap : Mapping → Nat → Nat → Option Nat
  mprotect : Nat → Nat → Protection → Bool
  installTeb : Nat → Bool
  allocate : Allocation → Nat → Bool
  memory : Memory
  nlExports : List NlExport
  stubDispatch : Nat
  sizeofTeb : UInt64

/-! ### The trace -/

/-- A part of the import data, at the address where it starts. -/
inductive Part where
  | descriptor (address : Nat)
  | slot (address : Nat)
  | name (address : Nat)

/-- What a run does: a range read from the file through `GETB`, with whether this makes the
loader return NULL; a part of the import data it comes to; a read or a write of memory; a
range of memory it protects. -/
inductive Event where
  | getb (offset size : Nat) (failed : Bool)
  | visit (part : Part)
  | read (address size : Nat)
  | write (address size : Nat)
  | protect (address size : Nat) (protection : Protection)

/-- The ends of a run that is not a return of the entry point: NULL, with the text that is
printed before it, and a loop cut off by its bound. -/
inductive Stop where
  | null (message : String)
  | outOfTurns
  deriving DecidableEq

/-- A part of the loader. -/
abbrev Setup (Value : Type) : Type := Traced Event Stop Value

/-- `if(bad) { perror(message); return NULL; }`. -/
def returnNullIf (bad : Bool) (message : String) : Setup Unit :=
  if bad then stop (.null message) else pure ()

/-- `if(!GETB(dest, size)) { perror(message); return NULL; }`: the bytes copied, if any were,
and the new offset. The value of the macro is that of `offset += size`. -/
def getb (mod : List UInt8) (message : String) (offset size : Nat) :
    Setup (Option (List UInt8) × Nat) := do
  let copied := if offset + size > mod.length then none else some ((mod.drop offset).take size)
  let offset' := offset + size
  emit (.getb offset size (offset' = 0))
  returnNullIf (offset' = 0) message
  pure (copied, offset')

/-- A mapping that has to be granted. -/
def mmapOrNull (system : System) (mapping : Mapping) (address size : Nat) (message : String) :
    Setup Nat :=
  match system.mmap mapping address size with
  | none => stop (.null message)
  | some place => pure place

/-- A protection that has to be granted. -/
def mprotectOrNull (system : System) (address size : Nat) (protection : Protection)
    (message : String) : Setup Unit := do
  emit (.protect address size protection)
  returnNullIf (!system.mprotect address size protection) message

/-! ### Memory -/

/-- The bytes of a range. -/
def loadBytes (memory : Memory) (address size : Nat) : List UInt8 :=
  (List.range size).map fun index => memory (address + index)

/-- The memory with bytes stored. -/
def storeBytes (memory : Memory) (address : Nat) (bytes : List UInt8) : Memory :=
  fun place =>
    if address ≤ place ∧ place < address + bytes.length then
      bytes.getD (place - address) 0
    else memory place

/-- The memory with a new mapping, whose bytes are zero up to the end of the last page. -/
def mapZero (system : System) (memory : Memory) (address size : Nat) : Memory :=
  let page := system.getpagesize.toNat
  fun place =>
    if address ≤ place ∧ place < address + (size + page - 1) / page * page then 0
    else memory place

/-- A load of a 32-bit field. -/
def load32 (memory : Memory) (address : Nat) : Setup UInt32 := do
  emit (.read address 4)
  pure (field32 (loadBytes memory address 4) 0)

/-- A load of a `pe_thunk_t`. -/
def loadThunk (memory : Memory) (address : Nat) : Setup UInt64 := do
  emit (.read address 8)
  pure (field64 (loadBytes memory address 8) 0)

/-- A store of bytes. -/
def store (memory : Memory) (address : Nat) (bytes : List UInt8) : Setup Memory := do
  emit (.write address bytes.length)
  pure (storeBytes memory address bytes)

/-- The string at an address, without its null byte, as `strlen` goes through it. -/
def loadString (memory : Memory) : Nat → Nat → Setup (List UInt8)
  | 0, _ => stop .outOfTurns
  | turns + 1, address => do
    emit (.read address 1)
    if memory address = 0 then pure []
    else do
      let rest ← loadString memory turns (address + 1)
      pure (memory address :: rest)

/-! ### Headers -/

/-- The variables the headers are read into. -/
structure Headers where
  peOff : UInt32
  peHdr : PeImageFileHdr
  peOpt : PeImageOptionalHdr
  sections : List PeImageSectionHdr

/-- The checks of the PE header. -/
def checkFileHdr (peHdr : PeImageFileHdr) : Setup Unit := do
  returnNullIf (peHdr.magic ≠ 0x4550) "bad pe magic"
  returnNullIf (peHdr.machine ≠ 0x8664) "bad arch: 0x%x (expected 0x%x)"
  returnNullIf (peHdr.numberOfSections = 0 ∨ peHdr.numberOfSections > 16) "bad section count"
  returnNullIf (peHdr.sizeOfOptionalHeader.toNat < sizeofOptionalHdr)
    "opt hdr too small: %d vs %u"

/-- The checks of the optional header. -/
def checkOptionalHdr (system : System) (peOpt : PeImageOptionalHdr) : Setup Unit := do
  returnNullIf (peOpt.magic ≠ 0x20b) "bad opt magic: 0x%x (expected 0x%x)"
  returnNullIf (peOpt.subsystem ≠ 1) "subsystem is not native"
  returnNullIf (peOpt.numberOfRvaAndSizes ≠ 16) "unexpected dir count"
  returnNullIf (peOpt.imageBase % system.getpagesize.toUInt64 ≠ 0)
    "unaligned image base not supported - FIXME"
  returnNullIf (peOpt.sectionAlignment % system.getpagesize ≠ 0)
    "section alignement not supported - FIXME"

/-- `setup_nloader` up to the section table. -/
def readHeaders (system : System) (mod : List UInt8) : Setup Headers := do
  let (copied, _) ← getb mod "read pe magic" 0 4
  let peOff := field32 (copied.getD []) 0
  returnNullIf (peOff &&& 0xffff ≠ 0x5a4d) "bad mz magic"
  let (copied, _) ← getb mod "read pe off" 0x3c 4
  let peOff := (copied.map (field32 · 0)).getD peOff
  let (copied, offset) ← getb mod "read pe hdr" peOff.toNat sizeofFileHdr
  let peHdr := peImageFileHdr (copied.getD [])
  checkFileHdr peHdr
  let (copied, offset) ← getb mod "read pe opt" offset sizeofOptionalHdr
  let peOpt := peImageOptionalHdr (copied.getD [])
  checkOptionalHdr system peOpt
  let count := peHdr.numberOfSections.toNat
  let (copied, _) ← getb mod "read sections" offset (sizeofSectionHdr * count)
  pure { peOff, peHdr, peOpt, sections := sectionTable (copied.getD []) count }

/-! ### Sections -/

/-- `rva` of a section. -/
def rva (peOpt : PeImageOptionalHdr) (entry : PeImageSectionHdr) : UInt32 :=
  peAlign entry.virtualAddress peOpt.sectionAlignment

/-- `vsz` of a section. -/
def vsz (peOpt : PeImageOptionalHdr) (entry : PeImageSectionHdr) : UInt32 :=
  pesAlign entry.virtualSize peOpt.sectionAlignment

/-- `raw` of a section. -/
def raw (peOpt : PeImageOptionalHdr) (entry : PeImageSectionHdr) : UInt32 :=
  peAlign entry.pointerToRawData peOpt.fileAlignment

/-- `rsz` of a section. -/
def rsz (peOpt : PeImageOptionalHdr) (entry : PeImageSectionHdr) : UInt32 :=
  pesAlign entry.sizeOfRawData peOpt.fileAlignment

/-- The first loop over the sections, as it computes `min_rva`. -/
def minRva (peOpt : PeImageOptionalHdr) (sections : List PeImageSectionHdr) : UInt32 :=
  sections.foldl (fun least entry => if rva peOpt entry < least then rva peOpt entry else least)
    (-1)

/-- The first loop over the sections, as it computes `image_size`. -/
def imageSize (peOpt : PeImageOptionalHdr) (sections : List PeImageSectionHdr) : UInt32 :=
  sections.foldl (fun size entry =>
    if size < rva peOpt entry + vsz peOpt entry then rva peOpt entry + vsz peOpt entry
    else size) 0

/-- `memcpy` behind `GETB`, where it is made. -/
def storeCopied (memory : Memory) (address : Nat) :
    Option (List UInt8) → Setup Memory
  | none => pure memory
  | some bytes => store memory address bytes

/-- The second loop over the sections. -/
def mapSections (mod : List UInt8) (image : Nat) (peOpt : PeImageOptionalHdr) :
    List PeImageSectionHdr → Memory → Setup Memory
  | [], memory => pure memory
  | entry :: entries, memory => do
    let (copied, _) ← getb mod "read section" (raw peOpt entry).toNat (rsz peOpt entry).toNat
    let memory ← storeCopied memory (image + (rva peOpt entry).toNat) copied
    mapSections mod image peOpt entries memory

/-! ### Imports -/

/-- One import, as `import_names`, `import_addrs` and `thunks` hold it. -/
structure Import where
  name : List UInt8
  addr : Option Nat
  thunk : Nat
  deriving DecidableEq

/-- `sizeof(struct IMAGE_IMPORT)`. -/
def sizeofImageImport : UInt32 := 20

/-- `PE_ORDINAL_FLAG`. -/
def peOrdinalFlag : UInt64 := 0x8000000000000000

/-- The text of `"ord_%03u"`. -/
def ordinalName (ordinal : UInt32) : List UInt8 :=
  let digits := (Nat.toDigits 10 ordinal.toNat).map fun digit => UInt8.ofNat digit.toNat
  [0x6f, 0x72, 0x64, 0x5f] ++ List.replicate (3 - digits.length) 0x30 ++ digits

/-- `dllbase`: at most 63 bytes of the name of the library, up to the last dot. -/
def dllBase (dllname : List UInt8) : List UInt8 :=
  let base := dllname.take 63
  match base.reverse.dropWhile (· ≠ 0x2e) with
  | [] => base
  | _ :: rest => rest.reverse

/-- `nl_resolve`. -/
def nlResolve (exports : List NlExport) (dll name : List UInt8) : Option Nat :=
  (exports.find? fun e => e.dll = dll ∧ e.name = name).map NlExport.func

/-- `impname` of a thunk that is not null. -/
def importName (system : System) (turns : Nat) (memory : Memory) (image nfuncs : Nat)
    (thunk : UInt64) : Setup (List UInt8) :=
  if thunk &&& peOrdinalFlag ≠ 0 then do
    returnNullIf (!system.allocate .impname nfuncs) "malloc impname"
    pure (ordinalName (thunk &&& ~~~peOrdinalFlag).toUInt32)
  else do
    let impname := image + 2 + thunk.toUInt32.toNat
    emit (.visit (.name impname))
    loadString memory turns impname

/-- The body of `while(1)` behind its check of the two thunks. -/
def addImport (system : System) (turns : Nat) (memory : Memory) (image : Nat)
    (dllname : List UInt8) (thunk : UInt64) (addrs : Nat) (imports : List Import) :
    Setup (List Import) := do
  let nfuncs := imports.length
  let impname ← importName system turns memory image nfuncs thunk
  returnNullIf (!system.allocate .fname nfuncs) "malloc fname"
  returnNullIf (!system.allocate .importNames nfuncs) "realloc import_names"
  returnNullIf (!system.allocate .importAddrs nfuncs) "realloc import_addrs"
  returnNullIf (!system.allocate .thunks nfuncs) "realloc thunks"
  pure (imports ++
    [{ name := dllname ++ 0x21 :: impname
       addr := nlResolve system.nlExports (dllBase dllname) impname
       thunk := addrs }])

/-- `while(1)`, over the functions of one library. -/
def importFunctions (system : System) (turns : Nat) (memory : Memory) (image imageSize : Nat)
    (dllname : List UInt8) : Nat → Nat → Nat → List Import → Setup (List Import)
  | 0, _, _, _ => stop .outOfTurns
  | left + 1, names, addrs, imports => do
    emit (.visit (.slot names))
    let thunk ← loadThunk memory names
    if thunk = 0 then pure imports
    else do
      emit (.visit (.slot addrs))
      returnNullIf (!cliIsContained image imageSize names 8 ||
        !cliIsContained image imageSize addrs 8) "Thunk out of image"
      let imports ← addImport system turns memory image dllname thunk addrs imports
      importFunctions system turns memory image imageSize dllname left (names + 8) (addrs + 8)
        imports

/-- The loop over the libraries. -/
def importLibraries (system : System) (turns : Nat) (memory : Memory) (image imageSize : Nat) :
    Nat → PeImageDataDir → List Import → Setup (List Import)
  | 0, _, _ => stop .outOfTurns
  | left + 1, directory, imports =>
    if directory.size < sizeofImageImport then pure imports
    else do
      let descriptor := image + directory.virtualAddress.toNat
      let directory : PeImageDataDir :=
        { virtualAddress := directory.virtualAddress + sizeofImageImport
          size := directory.size - sizeofImageImport }
      emit (.visit (.descriptor descriptor))
      returnNullIf (!cliIsContained image imageSize descriptor 8)
        "import descriptor out of image"
      let dllName ← load32 memory (descriptor + 12)
      if dllName = 0 then pure imports
      else do
        let origThunk ← load32 memory descriptor
        returnNullIf (origThunk = 0) "borland-like import table is not supported"
        let thunk ← load32 memory (descriptor + 16)
        let dllname := image + dllName.toNat
        emit (.visit (.name dllname))
        let dllname ← loadString memory turns dllname
        let imports ← importFunctions system turns memory image imageSize dllname turns
          (image + origThunk.toNat) (image + thunk.toNat) imports
        importLibraries system turns memory image imageSize left directory imports

/-! ### Stubs -/

/-- `sizeof_stub`. -/
def sizeofStub : UInt32 := 18

/-- The bytes `emit_stub` stores. -/
def emitStub (system : System) (index : Nat) : List UInt8 :=
  0x68 :: toBytes 4 index ++ [0x49, 0xbb] ++ toBytes 8 system.stubDispatch ++ [0x41, 0xff, 0xe3]

/-- The loop over the imports. -/
def patchThunks (system : System) (image imageSize stubs : Nat) :
    Nat → List Import → Memory → Setup Memory
  | _, [], memory => pure memory
  | index, entry :: entries, memory => do
    let stub := stubs + (UInt32.ofNat index * sizeofStub).toNat
    returnNullIf (!cliIsContained image imageSize entry.thunk 8)
      "api addr for %s is out of image"
    let memory ← store memory stub (emitStub system index)
    let memory ← store memory entry.thunk (toBytes 8 stub)
    patchThunks system image imageSize stubs (index + 1) entries memory

/-- The stubs of the imports, where there are any. -/
def patchImports (system : System) (image imageSize : Nat) (imports : List Import)
    (memory : Memory) : Setup Memory :=
  if imports = [] then pure memory
  else do
    let stubslen :=
      (pesAlign (UInt32.ofNat imports.length * sizeofStub) system.getpagesize).toNat
    let stubs ← mmapOrNull system .stubs 0 stubslen "mmap stubs"
    let memory ← patchThunks system image imageSize stubs 0 imports
      (mapZero system memory stubs stubslen)
    mprotectOrNull system stubs stubslen { exec := true, read := true, write := false }
      "mprotect stubs"
    pure memory

/-! ### The header and the protections -/

/-- The bytes of the header that are mapped. -/
def headerSize (headers : Headers) : UInt32 :=
  let least := minRva headers.peOpt headers.sections
  let ends := headers.peOff + headers.peOpt.sizeOfHeaders
  if least < ends then least else ends

/-- The mapping of the header. -/
def mapHeader (system : System) (mod : List UInt8) (image : Nat) (headers : Headers)
    (memory : Memory) : Setup Memory := do
  let peOff := (headerSize headers).toNat
  let (copied, _) ← getb mod "read header" 0 peOff
  let memory ← storeCopied memory image copied
  mprotectOrNull system image peOff { exec := false, read := true, write := false }
    "mprotect header"
  pure memory

/-- `prot` of a section. -/
def sectionProtection (entry : PeImageSectionHdr) : Protection where
  exec := entry.characteristics &&& 0x20000000 ≠ 0
  read := entry.characteristics &&& 0x40000000 ≠ 0
  write := entry.characteristics &&& 0x80000000 ≠ 0

/-- The loop that sets the protections of the sections. -/
def protectSections (system : System) (image : Nat) (peOpt : PeImageOptionalHdr) :
    List PeImageSectionHdr → Setup Unit
  | [] => pure ()
  | entry :: entries => do
    mprotectOrNull system (image + (rva peOpt entry).toNat) (vsz peOpt entry).toNat
      (sectionProtection entry) "mprotect sections"
    protectSections system image peOpt entries

/-! ### The whole run -/

/-- `setup_nloader` between the sections and the TEB. -/
def mapImage (system : System) (turns : Nat) (mod : List UInt8) (headers : Headers) :
    Setup Nat := do
  let peOpt := headers.peOpt
  let size := (imageSize peOpt headers.sections).toNat
  let image ← mmapOrNull system .image peOpt.imageBase.toNat size "mmap image"
  let memory ← mapSections mod image peOpt headers.sections
    (mapZero system system.memory image size)
  let imports ← importLibraries system turns memory image size turns peOpt.importDirectory []
  let memory ← patchImports system image size imports memory
  let _ ← mapHeader system mod image headers memory
  protectSections system image peOpt headers.sections
  pure image

/-- The mappings of the TEB, of the stack and of what the guest finds through them. -/
def setupTeb (system : System) (peOpt : PeImageOptionalHdr) : Setup Unit := do
  let page := system.getpagesize
  let tebSize := pesAlign system.sizeofTeb page.toUInt64
  let teb ← mmapOrNull system .teb 0x7efdd000 tebSize.toNat "mmap teb"
  returnNullIf (!system.installTeb teb) "install_teb"
  let stackSize := pesAlign peOpt.sizeOfStackReserve page.toUInt64
  let _ ← mmapOrNull system .stack 0 stackSize.toNat "mmap stack"
  let _ ← mmapOrNull system .params 0x20000 page.toNat "mmap params"
  let shared ← mmapOrNull system .sharedUserData 0x7ffe0000 page.toNat "mmap timer"
  mprotectOrNull system shared page.toNat { exec := false, read := true, write := false }
    "mprotect SharedUserData"

/-- `setup_nloader`: the address of the entry point. -/
def setupNloader (system : System) (turns : Nat) (mod : List UInt8) : Setup Nat := do
  let headers ← readHeaders system mod
  let image ← mapImage system turns mod headers
  setupTeb system headers.peOpt
  pure (image + headers.peOpt.addressOfEntryPoint.toNat)

end Nloader.Loader
