/-
This file is about the place of the section table in the file. `setup_nloader` reads the
table where its reads have come to, behind the optional header as large as the structure the
loader knows; the file has it behind the optional header as large as `SizeOfOptionalHeader`
says. The two places are one exactly where the file says the size of the structure.
-/

import Nloader.LoaderReads

namespace Nloader.Loader

open Trace

variable {Value : Type}

/-! ### Reads and checks of a run that goes on -/

/-- The bytes a read copies, where its range is contained in the file. -/
def copiedBytes (mod : List UInt8) (offset size : Nat) : Option (List UInt8) :=
  if offset + size > mod.length then none else some ((mod.drop offset).take size)

/-- A read that does not make the loader return NULL. -/
theorem getb_ok {mod : List UInt8} {message : String} {offset size : Nat}
    {next : Option (List UInt8) × Nat → Setup Value} {value : Value}
    (returned : (getb mod message offset size >>= next).result = .ok value) :
    (getb mod message offset size >>= next) =
        (next (copiedBytes mod offset size, offset + size)).behind [.getb offset size false] ∧
      (next (copiedBytes mod offset size, offset + size)).result = .ok value := by
  rw [getb_bind] at returned ⊢
  by_cases zero : offset + size = 0
  · rw [if_pos zero] at returned
    cases returned
  · rw [if_neg zero] at returned ⊢
    rw [decide_eq_false zero]
    exact ⟨rfl, returned⟩

/-- A check that does not make the loader return NULL. -/
theorem returnNullIf_ok {bad : Bool} {message : String} {next : Unit → Setup Value}
    {value : Value} (returned : (returnNullIf bad message >>= next).result = .ok value) :
    bad = false ∧ (returnNullIf bad message >>= next) = next () := by
  rw [returnNullIf_bind] at returned ⊢
  cases bad with
  | true => cases returned
  | false => exact ⟨rfl, rfl⟩

/-- The header passes the checks of `checkFileHdr`. -/
structure FileHdrPasses (peHdr : PeImageFileHdr) : Prop where
  magic : peHdr.magic = 0x4550
  numberOfSections : peHdr.numberOfSections ≠ 0
  sizeOfOptionalHeader : sizeofOptionalHdr ≤ peHdr.sizeOfOptionalHeader.toNat

theorem checkFileHdr_ok {peHdr : PeImageFileHdr} {next : Unit → Setup Value} {value : Value}
    (returned : (checkFileHdr peHdr >>= next).result = .ok value) :
    FileHdrPasses peHdr ∧ (checkFileHdr peHdr >>= next) = next () := by
  unfold checkFileHdr at returned ⊢
  simp only [bind_assoc] at returned ⊢
  obtain ⟨magic, same₁⟩ := returnNullIf_ok returned
  rw [same₁] at returned ⊢
  obtain ⟨_, same₂⟩ := returnNullIf_ok returned
  rw [same₂] at returned ⊢
  obtain ⟨count, same₃⟩ := returnNullIf_ok returned
  rw [same₃] at returned ⊢
  obtain ⟨size, same₄⟩ := returnNullIf_ok returned
  refine ⟨⟨?_, ?_, ?_⟩, same₄⟩
  · simpa using magic
  · exact fun none => of_decide_eq_false count (.inl none)
  · exact Nat.le_of_not_lt (of_decide_eq_false size)

theorem checkOptionalHdr_ok {system : System} {peOpt : PeImageOptionalHdr}
    {next : Unit → Setup Value} {value : Value}
    (returned : (checkOptionalHdr system peOpt >>= next).result = .ok value) :
    peOpt.magic = 0x20b ∧ (checkOptionalHdr system peOpt >>= next) = next () := by
  unfold checkOptionalHdr at returned ⊢
  simp only [bind_assoc] at returned ⊢
  obtain ⟨magic, same₁⟩ := returnNullIf_ok returned
  rw [same₁] at returned ⊢
  obtain ⟨_, same₂⟩ := returnNullIf_ok returned
  rw [same₂] at returned ⊢
  obtain ⟨_, same₃⟩ := returnNullIf_ok returned
  rw [same₃] at returned ⊢
  obtain ⟨_, same₄⟩ := returnNullIf_ok returned
  rw [same₄] at returned ⊢
  exact ⟨by simpa using magic, (returnNullIf_ok returned).2⟩

/-! ### The headers of an accepted file -/

/-- A read whose bytes are not those of a zeroed variable lies in the file. -/
theorem contained_of_copied {mod : List UInt8} {offset size : Nat}
    (copied : copiedBytes mod offset size ≠ none) : Contained mod offset size :=
  Nat.le_of_not_gt fun beyond => copied (if_pos beyond)

theorem copiedBytes_eq {mod : List UInt8} {offset size : Nat}
    (contained : Contained mod offset size) :
    copiedBytes mod offset size = some ((mod.drop offset).take size) :=
  if_neg (Nat.not_lt_of_le contained)

/-- The headers of a file that passes the checks: they are those of the file, but that a
section table which is not contained in it is read as zero. -/
def readSections (mod : List UInt8) : Headers where
  peOff := peOffset mod
  peHdr := fileHdr mod
  peOpt := optionalHdr mod
  sections := sectionTable ((copiedBytes mod (sectionsOffset mod) (sectionsSize mod)).getD [])
    (fileHdr mod).numberOfSections.toNat

/-- An `MZ` header is not followed by a header at an offset that it makes up itself. -/
theorem peOff_contained {mod : List UInt8} {first : UInt32} (magic : first &&& 0xffff = 0x5a4d)
    (contained : Contained mod
      (((copiedBytes mod 0x3c 4).map (field32 · 0)).getD first).toNat sizeofFileHdr) :
    copiedBytes mod 0x3c 4 = some ((mod.drop 0x3c).take 4) := by
  by_cases beyond : 0x3c + 4 > mod.length
  · rw [copiedBytes, if_pos beyond, Contained, Option.map_none, Option.getD_none] at contained
    have least : (first &&& 0xffff).toNat ≤ first.toNat := by
      rw [UInt32.toNat_and]
      exact Nat.and_le_left
    rw [magic] at least
    have large : 0x5a4d ≤ first.toNat := least
    omega
  · exact if_neg beyond

/-- The headers that a run reads, and its last read before the sections are mapped. -/
theorem readHeaders_ok {system : System} {mod : List UInt8} {headers : Headers}
    (returned : (readHeaders system mod).result = .ok headers) :
    headers = readSections mod ∧ FileHdrPasses (fileHdr mod) ∧
      (readHeaders system mod).events.getLast? =
        some (.getb (sectionsOffset mod) (sectionsSize mod) false) := by
  unfold readHeaders at returned ⊢
  obtain ⟨same₁, returned⟩ := getb_ok returned
  rw [same₁]
  dsimp only at returned ⊢
  obtain ⟨magic, same₂⟩ := returnNullIf_ok returned
  rw [same₂] at returned ⊢
  have magic := not_not.mp (of_decide_eq_false magic)
  obtain ⟨same₃, returned⟩ := getb_ok returned
  rw [same₃]
  dsimp only at returned ⊢
  obtain ⟨same₄, returned⟩ := getb_ok returned
  rw [same₄]
  dsimp only at returned ⊢
  obtain ⟨passes, same₅⟩ := checkFileHdr_ok returned
  rw [same₅] at returned ⊢
  have fileContained : Contained mod
      (((copiedBytes mod 0x3c 4).map (field32 · 0)).getD
        (field32 ((copiedBytes mod 0 4).getD []) 0)).toNat sizeofFileHdr := by
    refine contained_of_copied fun none => ?_
    rw [none] at passes
    exact absurd passes.magic (by decide)
  have offsetIs := peOff_contained magic fileContained
  rw [offsetIs] at fileContained passes returned ⊢
  have folded : field32 ((mod.drop 0x3c).take 4) 0 = peOffset mod := rfl
  simp only [Option.map_some, Option.getD_some, folded] at fileContained passes returned ⊢
  rw [copiedBytes_eq fileContained] at passes returned ⊢
  obtain ⟨same₆, returned⟩ := getb_ok returned
  rw [same₆]
  dsimp only at returned ⊢
  obtain ⟨optMagic, same₇⟩ := checkOptionalHdr_ok returned
  rw [same₇] at returned ⊢
  have optContained : Contained mod ((peOffset mod).toNat + sizeofFileHdr) sizeofOptionalHdr := by
    refine contained_of_copied fun none => ?_
    rw [none] at optMagic
    exact absurd optMagic (by decide)
  obtain ⟨same₈, returned⟩ := getb_ok returned
  rw [same₈]
  rw [copiedBytes_eq optContained] at returned
  cases returned
  exact ⟨rfl, passes, rfl⟩

/-! ### The records of the section table -/

/-- Section header `index` of a run is the record of the file at `offset`: the last read of
the headers copies the table from the file, with the record in it, and the header is what
the bytes of the record say. -/
structure SectionRecord (system : System) (mod : List UInt8) (headers : Headers)
    (index offset : Nat) : Prop where
  table : ∃ start size, (readHeaders system mod).events.getLast? =
      some (.getb start size false) ∧ Contained mod start size ∧
    offset = start + sizeofSectionHdr * index ∧ offset + sizeofSectionHdr ≤ start + size
  header : headers.sections[index]? =
    some (peImageSectionHdr ((mod.drop offset).take sizeofSectionHdr))

/-- A field that lies within a prefix of some bytes. -/
theorem field32_take (bytes : List UInt8) {offset size : Nat} (inside : offset + 4 ≤ size) :
    field32 (bytes.take size) offset = field32 bytes offset := by
  unfold field32
  rw [List.drop_take, List.take_take, Nat.min_eq_left (by omega)]

/-- A section header is read from its own bytes. -/
theorem peImageSectionHdr_take (bytes : List UInt8) {size : Nat} (large : sizeofSectionHdr ≤ size) :
    peImageSectionHdr (bytes.take size) = peImageSectionHdr bytes := by
  rw [sizeofSectionHdr] at large
  unfold peImageSectionHdr
  simp (disch := omega) only [field32_take]

/-- The entries of a table that is contained in the file. -/
theorem sectionTable_getElem? (mod : List UInt8) (start : Nat) {count index : Nat}
    (below : index < count) :
    (sectionTable ((mod.drop start).take (sizeofSectionHdr * count)) count)[index]? =
      some (peImageSectionHdr ((mod.drop (start + sizeofSectionHdr * index)).take
        sizeofSectionHdr)) := by
  have inside : sizeofSectionHdr ≤ sizeofSectionHdr * count - sizeofSectionHdr * index := by
    rw [← Nat.mul_sub]
    exact Nat.le_mul_of_pos_right _ (Nat.sub_pos_of_lt below)
  unfold sectionTable
  rw [List.getElem?_map, List.getElem?_range below, Option.map_some, List.drop_take,
    List.drop_drop, peImageSectionHdr_take _ inside, peImageSectionHdr_take _ le_rfl]

/-- The image of a table that is read as zero is empty. -/
theorem imageSize_zero (peOpt : PeImageOptionalHdr) (count : Nat) :
    imageSize peOpt (sectionTable [] count) = 0 := by
  have zero : ∀ entry ∈ sectionTable [] count, rva peOpt entry + vsz peOpt entry = 0 := by
    intro entry member
    obtain ⟨index, _, rfl⟩ := List.mem_map.mp member
    rw [List.drop_nil]
    change peAlign (0 : UInt32) peOpt.sectionAlignment + pesAlign 0 peOpt.sectionAlignment = 0
    unfold peAlign pesAlign
    split <;> simp
  by_contra nonzero
  have positive : 0 < (imageSize peOpt (sectionTable [] count)).toNat :=
    Nat.pos_of_ne_zero fun none => nonzero (UInt32.toNat.inj none)
  obtain ⟨entry, member, below⟩ := (le_imageSize_iff peOpt _ positive).mp le_rfl
  rw [zero entry member] at below
  exact absurd below (Nat.not_le_of_gt positive)

/-- An accepted file contains its section table, where the system maps no empty image. -/
theorem contained_of_accepted {system : System} {turns entryPoint : Nat} {mod : List UInt8}
    (refuses : ∀ mapping address, system.mmap mapping address 0 = none)
    (accepted : (mapImage system turns mod (readSections mod)).result = .ok entryPoint) :
    Contained mod (sectionsOffset mod) (sectionsSize mod) := by
  refine contained_of_copied fun none => ?_
  have empty : (imageSize (readSections mod).peOpt (readSections mod).sections).toNat = 0 := by
    unfold readSections
    rw [none, Option.getD_none, imageSize_zero]
    rfl
  unfold mapImage at accepted
  dsimp only at accepted
  rw [empty, mmapOrNull, refuses] at accepted
  cases accepted

/-- The section headers that an accepted run maps, looks imports up in and protects are the
records behind the optional header of the file exactly where `SizeOfOptionalHeader` is the
size of the structure the loader reads. -/
theorem section_records_iff (system : System) (turns : Nat) (mod : List UInt8)
    (entryPoint : Nat) (refuses : ∀ mapping address, system.mmap mapping address 0 = none)
    (accepted : (setupNloader system turns mod).result = .ok entryPoint) :
    ∃ headers, (readHeaders system mod).result = .ok headers ∧
      ((∀ index < (fileHdr mod).numberOfSections.toNat,
        SectionRecord system mod headers index
          ((peOffset mod).toNat + sizeofFileHdr + (fileHdr mod).sizeOfOptionalHeader.toNat +
            sizeofSectionHdr * index)) ↔
        (fileHdr mod).sizeOfOptionalHeader.toNat = sizeofOptionalHdr) := by
  obtain ⟨headers, read, rest⟩ := bind_result_ok accepted
  obtain ⟨image, mapped, _⟩ := bind_result_ok rest
  obtain ⟨rfl, passes, last⟩ := readHeaders_ok read
  have contained := contained_of_accepted refuses mapped
  refine ⟨_, read, fun records => ?_, fun same index below => ⟨?_, ?_⟩⟩
  · have some : 0 < (fileHdr mod).numberOfSections.toNat :=
      Nat.pos_of_ne_zero fun none => passes.numberOfSections (UInt16.toNat.inj none)
    obtain ⟨start, size, isLast, _, offset, _⟩ := (records 0 some).table
    rw [last, Option.some.injEq, Event.getb.injEq] at isLast
    rw [← isLast.1, sectionsOffset] at offset
    omega
  · refine ⟨sectionsOffset mod, sectionsSize mod, last, contained, by rw [same]; rfl, ?_⟩
    rw [same, ← sectionsOffset, Nat.add_assoc, ← Nat.mul_succ]
    exact Nat.add_le_add_left (Nat.mul_le_mul_left _ below) _
  · rw [same, ← sectionsOffset]
    unfold readSections
    rw [copiedBytes_eq contained, Option.getD_some]
    exact sectionTable_getElem? mod (sectionsOffset mod) below

/-! ### A file with a larger optional header -/

/-- A file of headers for one section, with 40 bytes more of optional header than the loader
reads. -/
def largerFile : List UInt8 :=
  toBytes 60 0x5a4d ++ toBytes 4 64 ++
  (toBytes 4 0x4550 ++ toBytes 2 0x8664 ++ toBytes 14 1 ++ toBytes 4 280) ++
  (toBytes 24 0x20b ++ toBytes 8 0x10000 ++ toBytes 4 0x1000 ++ toBytes 24 0x200 ++
    toBytes 8 0x100 ++ toBytes 4 1 ++ toBytes 36 0x1000 ++ toBytes 132 16) ++
  (toBytes 8 0 ++ toBytes 4 0x1000 ++ toBytes 4 0x1000 ++ toBytes 4 0x200 ++
    toBytes 4 0x200 ++ toBytes 16 0) ++
  (toBytes 8 0 ++ toBytes 4 0x1000 ++ toBytes 4 0x2000 ++ toBytes 4 0x200 ++
    toBytes 4 0x200 ++ toBytes 16 0)

/-- The system, with mappings that are not empty. -/
def refusingSystem : System :=
  { exampleSystem with
    mmap := fun mapping address size =>
      if size = 0 then none else exampleSystem.mmap mapping address size }

set_option maxRecDepth 20000 in
theorem section_records_iff_largerFile :
    ∃ headers, (readHeaders refusingSystem largerFile).result = .ok headers ∧
      ((∀ index < (fileHdr largerFile).numberOfSections.toNat,
        SectionRecord refusingSystem largerFile headers index
          ((peOffset largerFile).toNat + sizeofFileHdr +
            (fileHdr largerFile).sizeOfOptionalHeader.toNat + sizeofSectionHdr * index)) ↔
        (fileHdr largerFile).sizeOfOptionalHeader.toNat = sizeofOptionalHdr) :=
  section_records_iff refusingSystem 1 largerFile 0x10000 (fun _ _ => rfl) rfl

set_option maxRecDepth 20000 in
/-- The file is accepted, and its section is mapped at 0x1000, which lies in the optional
header; the section header behind it says 0x2000. -/
theorem not_section_records :
    (setupNloader refusingSystem 1 largerFile).result = .ok 0x10000 ∧
      ∃ headers, (readHeaders refusingSystem largerFile).result = .ok headers ∧
        (headers.sections.map PeImageSectionHdr.virtualAddress) = [0x1000] ∧
        (peImageSectionHdr ((largerFile.drop ((peOffset largerFile).toNat + sizeofFileHdr +
          (fileHdr largerFile).sizeOfOptionalHeader.toNat)).take
            sizeofSectionHdr)).virtualAddress = 0x2000 ∧
        ¬ ∀ index < (fileHdr largerFile).numberOfSections.toNat,
          SectionRecord refusingSystem largerFile headers index
            ((peOffset largerFile).toNat + sizeofFileHdr +
              (fileHdr largerFile).sizeOfOptionalHeader.toNat + sizeofSectionHdr * index) := by
  refine ⟨rfl, _, rfl, rfl, rfl, fun records => ?_⟩
  have header := (records 0 (by decide)).header
  exact absurd (congrArg (Option.map PeImageSectionHdr.virtualAddress) header) (by decide)

end Nloader.Loader
