/-
This file is about the reads from the file. The value of `GETB` is that of its last operand,
the new offset: a read makes the loader return NULL where offset and size are both zero, and
a read beyond the end of the file goes unnoticed. A read is sound, in that it makes the
loader return NULL exactly where its range is not contained in the file, where the range is
contained and is not the empty one at offset zero. The reads of a run are sound exactly where
the headers, the sections and the part of the header that is mapped ask for such ranges.
-/

import Nloader.LoaderImage

namespace Nloader.Loader

open Trace

/-! ### One read -/

/-- The range is contained in the file. -/
def Contained (mod : List UInt8) (offset size : Nat) : Prop :=
  offset + size ≤ mod.length

/-- A read makes the loader return NULL exactly where its range is not contained in the
file. -/
def ReadSound (mod : List UInt8) : Event → Prop
  | .getb offset size failed => failed = true ↔ ¬ Contained mod offset size
  | _ => True

/-- The event is not a read from the file. -/
def NotGetb : Event → Prop
  | .getb _ _ _ => False
  | _ => True

theorem NotGetb.readSound {event : Event} (quiet : NotGetb event) (mod : List UInt8) :
    ReadSound mod event := by
  cases event with
  | getb => exact quiet.elim
  | visit => trivial
  | read => trivial
  | write => trivial
  | protect => trivial

/-- The range a read asks for, where the read is sound. -/
def ReadFits (mod : List UInt8) (offset size : Nat) : Prop :=
  Contained mod offset size ∧ offset + size ≠ 0

variable {Value : Type}

theorem returnNullIf_bind (bad : Bool) (message : String) (next : Unit → Setup Value) :
    (returnNullIf bad message >>= next) =
      if bad then stop (.null message) else next () := by
  cases bad with
  | true => exact stop_bind _ next
  | false => exact pure_bind _ next

theorem getb_bind (mod : List UInt8) (message : String) (offset size : Nat)
    (next : Option (List UInt8) × Nat → Setup Value) :
    (getb mod message offset size >>= next) =
      Traced.behind [.getb offset size (offset + size = 0)]
        (if offset + size = 0 then stop (.null message)
        else next (if offset + size > mod.length then none
          else some ((mod.drop offset).take size), offset + size)) := by
  unfold getb
  by_cases zero : offset + size = 0
  · simp only [zero, decide_true, if_true]
    rfl
  · simp only [zero, decide_false, if_false]
    rfl

/-- A read, and what follows it: the read is sound where its range fits, and then the bytes
of the range are what the run goes on with. -/
theorem all_getb (mod : List UInt8) (message : String) (offset size : Nat)
    (next : Option (List UInt8) × Nat → Setup Value) :
    All (ReadSound mod) (getb mod message offset size >>= next) ↔
      ReadFits mod offset size ∧
        All (ReadSound mod) (next (some ((mod.drop offset).take size), offset + size)) := by
  rw [getb_bind, all_behind, List.forall_mem_singleton, ReadSound, ReadFits,
    decide_eq_true_eq]
  by_cases zero : offset + size = 0
  · have contained : Contained mod offset size := by
      rw [Contained, zero]
      exact Nat.zero_le _
    exact iff_of_false (fun sound => sound.1.mp zero contained) (fun fits => fits.1.2 zero)
  · rw [if_neg zero]
    by_cases contained : Contained mod offset size
    · rw [if_neg (Nat.not_lt_of_le contained)]
      refine and_congr_left fun _ => iff_of_true ?_ ⟨contained, zero⟩
      exact iff_of_false zero (not_not_intro contained)
    · exact iff_of_false (fun sound => zero (sound.1.mpr contained))
        (fun fits => contained fits.1.1)

/-! ### Parts of a run that do not read the file -/

theorem quiet_returnNullIf (bad : Bool) (message : String) :
    All NotGetb (returnNullIf bad message) := by
  unfold returnNullIf
  cases bad with
  | true => exact all_stop _
  | false => exact all_pure _

theorem quiet_mmapOrNull (system : System) (mapping : Mapping) (address size : Nat)
    (message : String) : All NotGetb (mmapOrNull system mapping address size message) := by
  unfold mmapOrNull
  cases system.mmap mapping address size with
  | none => exact all_stop _
  | some place => exact all_pure _

theorem quiet_mprotectOrNull (system : System) (address size : Nat) (protection : Protection)
    (message : String) :
    All NotGetb (mprotectOrNull system address size protection message) :=
  All.bind ((all_emit _).mpr trivial) fun _ => quiet_returnNullIf _ _

theorem quiet_store (memory : Memory) (address : Nat) (bytes : List UInt8) :
    All NotGetb (store memory address bytes) :=
  All.bind ((all_emit _).mpr trivial) fun _ => all_pure _

theorem quiet_storeCopied (memory : Memory) (address : Nat) (copied : Option (List UInt8)) :
    All NotGetb (storeCopied memory address copied) := by
  cases copied with
  | none => exact all_pure _
  | some bytes => exact quiet_store memory address bytes

theorem quiet_load32 (memory : Memory) (address : Nat) :
    All NotGetb (load32 memory address) :=
  All.bind ((all_emit _).mpr trivial) fun _ => all_pure _

theorem quiet_loadThunk (memory : Memory) (address : Nat) :
    All NotGetb (loadThunk memory address) :=
  All.bind ((all_emit _).mpr trivial) fun _ => all_pure _

theorem quiet_visit (part : Part) : All NotGetb (emit (.visit part) : Setup Unit) :=
  (all_emit _).mpr trivial

theorem quiet_loadString (memory : Memory) (turns : Nat) :
    ∀ address, All NotGetb (loadString memory turns address) := by
  induction turns with
  | zero => exact fun address => all_stop _
  | succ turns inductionHypothesis =>
    intro address
    rw [loadString]
    refine All.bind ((all_emit _).mpr trivial) fun _ => ?_
    split_ifs
    · exact all_pure _
    · exact All.bind (inductionHypothesis _) fun _ => all_pure _

theorem quiet_importName (system : System) (turns : Nat) (memory : Memory)
    (image nfuncs : Nat) (thunk : UInt64) :
    All NotGetb (importName system turns memory image nfuncs thunk) := by
  unfold importName
  split_ifs
  · exact All.bind (quiet_returnNullIf _ _) fun _ => all_pure _
  · exact All.bind (quiet_visit _) fun _ => quiet_loadString _ _ _

theorem quiet_addImport (system : System) (turns : Nat) (memory : Memory) (image : Nat)
    (dllname : List UInt8) (thunk : UInt64) (addrs : Nat) (imports : List Import) :
    All NotGetb (addImport system turns memory image dllname thunk addrs imports) := by
  unfold addImport
  refine All.bind (quiet_importName _ _ _ _ _ _) fun _ => ?_
  refine All.bind (quiet_returnNullIf _ _) fun _ => ?_
  refine All.bind (quiet_returnNullIf _ _) fun _ => ?_
  refine All.bind (quiet_returnNullIf _ _) fun _ => ?_
  exact All.bind (quiet_returnNullIf _ _) fun _ => all_pure _

theorem quiet_importFunctions (system : System) (turns : Nat) (memory : Memory)
    (image imageSize : Nat) (dllname : List UInt8) (left : Nat) :
    ∀ names addrs imports, All NotGetb
      (importFunctions system turns memory image imageSize dllname left names addrs imports) := by
  induction left with
  | zero => exact fun names addrs imports => all_stop _
  | succ left inductionHypothesis =>
    intro names addrs imports
    rw [importFunctions]
    refine All.bind (quiet_visit _) fun _ => All.bind (quiet_loadThunk _ _) fun thunk => ?_
    split_ifs
    · exact all_pure _
    · refine All.bind (quiet_visit _) fun _ => All.bind (quiet_returnNullIf _ _) fun _ => ?_
      exact All.bind (quiet_addImport _ _ _ _ _ _ _ _) fun _ => inductionHypothesis _ _ _

theorem quiet_importLibraries (system : System) (turns : Nat) (memory : Memory)
    (image imageSize : Nat) (left : Nat) :
    ∀ directory imports, All NotGetb
      (importLibraries system turns memory image imageSize left directory imports) := by
  induction left with
  | zero => exact fun directory imports => all_stop _
  | succ left inductionHypothesis =>
    intro directory imports
    rw [importLibraries]
    split_ifs
    · exact all_pure _
    · refine All.bind (quiet_visit _) fun _ => All.bind (quiet_returnNullIf _ _) fun _ => ?_
      refine All.bind (quiet_load32 _ _) fun dllName => ?_
      split_ifs
      · exact all_pure _
      · refine All.bind (quiet_load32 _ _) fun _ => All.bind (quiet_returnNullIf _ _) fun _ => ?_
        refine All.bind (quiet_load32 _ _) fun _ => All.bind (quiet_visit _) fun _ => ?_
        refine All.bind (quiet_loadString _ _ _) fun _ => ?_
        exact All.bind (quiet_importFunctions _ _ _ _ _ _ _ _ _ _) fun _ =>
          inductionHypothesis _ _

theorem quiet_patchThunks (system : System) (image imageSize stubs : Nat)
    (imports : List Import) :
    ∀ index memory, All NotGetb
      (patchThunks system image imageSize stubs index imports memory) := by
  induction imports with
  | nil => exact fun index memory => all_pure _
  | cons entry imports inductionHypothesis =>
    intro index memory
    rw [patchThunks]
    refine All.bind (quiet_returnNullIf _ _) fun _ => All.bind (quiet_store _ _ _) fun _ => ?_
    exact All.bind (quiet_store _ _ _) fun _ => inductionHypothesis _ _

theorem quiet_patchImports (system : System) (image imageSize : Nat) (imports : List Import)
    (memory : Memory) : All NotGetb (patchImports system image imageSize imports memory) := by
  unfold patchImports
  split_ifs
  · exact all_pure _
  · refine All.bind (quiet_mmapOrNull _ _ _ _ _) fun _ => ?_
    refine All.bind (quiet_patchThunks _ _ _ _ _ _ _) fun _ => ?_
    exact All.bind (quiet_mprotectOrNull _ _ _ _ _) fun _ => all_pure _

theorem quiet_protectSections (system : System) (image : Nat) (peOpt : PeImageOptionalHdr)
    (sections : List PeImageSectionHdr) :
    All NotGetb (protectSections system image peOpt sections) := by
  induction sections with
  | nil => exact all_pure _
  | cons entry sections inductionHypothesis =>
    exact All.bind (quiet_mprotectOrNull _ _ _ _ _) fun _ => inductionHypothesis

theorem quiet_setupTeb (system : System) (peOpt : PeImageOptionalHdr) :
    All NotGetb (setupTeb system peOpt) := by
  unfold setupTeb
  refine All.bind (quiet_mmapOrNull _ _ _ _ _) fun _ => ?_
  refine All.bind (quiet_returnNullIf _ _) fun _ => ?_
  refine All.bind (quiet_mmapOrNull _ _ _ _ _) fun _ => ?_
  refine All.bind (quiet_mmapOrNull _ _ _ _ _) fun _ => ?_
  exact All.bind (quiet_mmapOrNull _ _ _ _ _) fun _ => quiet_mprotectOrNull _ _ _ _ _

/-- A part that does not read the file, and what follows it. -/
theorem all_quiet {Middle : Type} {first : Setup Middle} (quiet : All NotGetb first)
    (mod : List UInt8) (next : Middle → Setup Value) :
    All (ReadSound mod) (first >>= next) ↔
      ∀ value, first.result = .ok value → All (ReadSound mod) (next value) := by
  rw [all_bind]
  exact and_iff_right fun event member => (quiet event member).readSound mod

/-! ### The ranges of a file -/

/-- The check of the first two bytes. -/
def MzMagic (mod : List UInt8) : Prop :=
  field32 ((mod.drop 0).take 4) 0 &&& 0xffff = 0x5a4d

/-- `pe_off`, as the file has it. -/
def peOffset (mod : List UInt8) : UInt32 :=
  field32 ((mod.drop 0x3c).take 4) 0

/-- `pe_hdr`, as the file has it. -/
def fileHdr (mod : List UInt8) : PeImageFileHdr :=
  peImageFileHdr ((mod.drop (peOffset mod).toNat).take sizeofFileHdr)

/-- `pe_opt`, as the file has it. -/
def optionalHdr (mod : List UInt8) : PeImageOptionalHdr :=
  peImageOptionalHdr ((mod.drop ((peOffset mod).toNat + sizeofFileHdr)).take sizeofOptionalHdr)

/-- Where the section table is read. -/
def sectionsOffset (mod : List UInt8) : Nat :=
  (peOffset mod).toNat + sizeofFileHdr + sizeofOptionalHdr

/-- The size of the section table. -/
def sectionsSize (mod : List UInt8) : Nat :=
  sizeofSectionHdr * (fileHdr mod).numberOfSections.toNat

/-- The headers, as the file has them. -/
def fileHeaders (mod : List UInt8) : Headers where
  peOff := peOffset mod
  peHdr := fileHdr mod
  peOpt := optionalHdr mod
  sections := sectionTable ((mod.drop (sectionsOffset mod)).take (sectionsSize mod))
    (fileHdr mod).numberOfSections.toNat

/-- The ranges of the sections fit, and so does the part of the header that is mapped, where
the imports let the loader come to it. -/
def ImageReadsFit (system : System) (turns : Nat) (mod : List UInt8) (headers : Headers) :
    Prop :=
  ∀ image, system.mmap .image headers.peOpt.imageBase.toNat
      (imageSize headers.peOpt headers.sections).toNat = some image →
    (∀ entry ∈ headers.sections,
      ReadFits mod (raw headers.peOpt entry).toNat (rsz headers.peOpt entry).toNat) ∧
    ∀ memory, (mapSections mod image headers.peOpt headers.sections
        (mapZero system system.memory image
          (imageSize headers.peOpt headers.sections).toNat)).result = .ok memory →
      ∀ imports, (importLibraries system turns memory image
          (imageSize headers.peOpt headers.sections).toNat turns headers.peOpt.importDirectory
          []).result = .ok imports →
        ∀ patched, (patchImports system image
            (imageSize headers.peOpt headers.sections).toNat imports memory).result =
              .ok patched →
          ReadFits mod 0 (headerSize headers).toNat

/-- Every range the loader asks for, up to the first check that the file does not pass, fits. -/
def ReadsFit (system : System) (turns : Nat) (mod : List UInt8) : Prop :=
  ReadFits mod 0 4 ∧ (MzMagic mod →
    ReadFits mod 0x3c 4 ∧ ReadFits mod (peOffset mod).toNat sizeofFileHdr ∧
    ((checkFileHdr (fileHdr mod)).result = .ok () →
      ReadFits mod ((peOffset mod).toNat + sizeofFileHdr) sizeofOptionalHdr ∧
      ((checkOptionalHdr system (optionalHdr mod)).result = .ok () →
        ReadFits mod (sectionsOffset mod) (sectionsSize mod) ∧
        ImageReadsFit system turns mod (fileHeaders mod))))

theorem quiet_checkFileHdr (peHdr : PeImageFileHdr) : All NotGetb (checkFileHdr peHdr) := by
  unfold checkFileHdr
  refine All.bind (quiet_returnNullIf _ _) fun _ => All.bind (quiet_returnNullIf _ _) fun _ => ?_
  exact All.bind (quiet_returnNullIf _ _) fun _ => quiet_returnNullIf _ _

theorem quiet_checkOptionalHdr (system : System) (peOpt : PeImageOptionalHdr) :
    All NotGetb (checkOptionalHdr system peOpt) := by
  unfold checkOptionalHdr
  refine All.bind (quiet_returnNullIf _ _) fun _ => All.bind (quiet_returnNullIf _ _) fun _ => ?_
  refine All.bind (quiet_returnNullIf _ _) fun _ => All.bind (quiet_returnNullIf _ _) fun _ => ?_
  exact quiet_returnNullIf _ _

theorem forall_unit_eq {result : Except Stop Unit} {holds : Unit → Prop} :
    (∀ value, result = .ok value → holds value) ↔ (result = .ok () → holds ()) :=
  ⟨fun every => every (), fun single () => single⟩

/-- The reads of the headers, and what follows them. -/
theorem all_readHeaders (system : System) (mod : List UInt8) (next : Headers → Setup Value) :
    All (ReadSound mod) (readHeaders system mod >>= next) ↔
      ReadFits mod 0 4 ∧ (MzMagic mod →
        ReadFits mod 0x3c 4 ∧ ReadFits mod (peOffset mod).toNat sizeofFileHdr ∧
        ((checkFileHdr (fileHdr mod)).result = .ok () →
          ReadFits mod ((peOffset mod).toNat + sizeofFileHdr) sizeofOptionalHdr ∧
          ((checkOptionalHdr system (optionalHdr mod)).result = .ok () →
            ReadFits mod (sectionsOffset mod) (sectionsSize mod) ∧
            All (ReadSound mod) (next (fileHeaders mod))))) := by
  have magic : ∀ first : UInt32,
      (returnNullIf (decide (first &&& 0xffff ≠ 0x5a4d)) "bad mz magic").result = .ok () ↔
        first &&& 0xffff = 0x5a4d := by
    intro first
    by_cases good : first &&& 0xffff = 0x5a4d
    · rw [decide_eq_false (not_not_intro good)]
      exact iff_of_true rfl good
    · rw [decide_eq_true good]
      exact iff_of_false nofun good
  unfold readHeaders
  rw [bind_assoc, all_getb]
  refine and_congr_right fun _ => ?_
  rw [bind_assoc, all_quiet (quiet_returnNullIf _ _), forall_unit_eq, magic]
  refine imp_congr_right fun _ => ?_
  rw [bind_assoc, all_getb]
  refine and_congr_right fun _ => ?_
  rw [bind_assoc, all_getb]
  refine and_congr_right fun _ => ?_
  rw [bind_assoc, all_quiet (quiet_checkFileHdr _), forall_unit_eq]
  refine imp_congr_right fun _ => ?_
  rw [bind_assoc, all_getb]
  refine and_congr_right fun _ => ?_
  rw [bind_assoc, all_quiet (quiet_checkOptionalHdr _ _), forall_unit_eq]
  refine imp_congr_right fun _ => ?_
  rw [bind_assoc, all_getb]
  refine and_congr_right fun _ => ?_
  rw [pure_bind]
  rfl

/-! ### The reads of a run -/

/-- The reads of the sections. -/
theorem all_mapSections (mod : List UInt8) (image : Nat) (peOpt : PeImageOptionalHdr)
    (sections : List PeImageSectionHdr) :
    ∀ memory, All (ReadSound mod) (mapSections mod image peOpt sections memory) ↔
      ∀ entry ∈ sections, ReadFits mod (raw peOpt entry).toNat (rsz peOpt entry).toNat := by
  induction sections with
  | nil => exact fun memory => iff_of_true (all_pure _) nofun
  | cons entry sections inductionHypothesis =>
    intro memory
    rw [mapSections, all_getb, List.forall_mem_cons]
    refine and_congr_right fun _ => ?_
    rw [all_quiet (quiet_storeCopied _ _ _)]
    constructor
    · intro every
      exact (inductionHypothesis _).mp (every _ rfl)
    · exact fun fits memory' _ => (inductionHypothesis memory').mpr fits

theorem quiet_result {Middle : Type} {first : Setup Middle} {mod : List UInt8}
    {next : Middle → Setup Value} (quiet : ∀ value, All NotGetb (next value)) :
    All (ReadSound mod) (first >>= next) ↔ All (ReadSound mod) first := by
  rw [all_bind]
  exact and_iff_left fun value _ event member => (quiet value event member).readSound mod

/-- The read of the part of the header that is mapped. -/
theorem all_mapHeader (system : System) (mod : List UInt8) (image : Nat) (headers : Headers)
    (memory : Memory) :
    All (ReadSound mod) (mapHeader system mod image headers memory) ↔
      ReadFits mod 0 (headerSize headers).toNat := by
  unfold mapHeader
  rw [all_getb]
  refine and_iff_left fun event member => NotGetb.readSound ?_ mod
  revert event
  refine All.bind (quiet_storeCopied _ _ _) fun _ => ?_
  exact All.bind (quiet_mprotectOrNull _ _ _ _ _) fun _ => all_pure _

/-- The reads of the sections and of the header. -/
theorem all_mapImage (system : System) (turns : Nat) (mod : List UInt8) (headers : Headers) :
    All (ReadSound mod) (mapImage system turns mod headers) ↔
      ImageReadsFit system turns mod headers := by
  unfold mapImage ImageReadsFit
  rw [all_quiet (quiet_mmapOrNull _ _ _ _ _)]
  refine forall_congr' fun image => imp_congr ?_ ?_
  · unfold mmapOrNull
    cases system.mmap .image headers.peOpt.imageBase.toNat
        (imageSize headers.peOpt headers.sections).toNat with
    | none => exact iff_of_false nofun nofun
    | some place =>
      change Except.ok place = Except.ok image ↔ _
      rw [Except.ok.injEq, Option.some.injEq]
  · rw [all_bind, all_mapSections]
    refine and_congr_right fun _ => forall_congr' fun memory => imp_congr_right fun _ => ?_
    rw [all_quiet (quiet_importLibraries _ _ _ _ _ _ _ _)]
    refine forall_congr' fun imports => imp_congr_right fun _ => ?_
    rw [all_quiet (quiet_patchImports _ _ _ _ _)]
    refine forall_congr' fun patched => imp_congr_right fun _ => ?_
    rw [quiet_result, all_mapHeader]
    exact fun _ => All.bind (quiet_protectSections _ _ _ _) fun _ => all_pure _

/-! ### What a failed read does -/

/-- A read that makes the loader return NULL ends the run with NULL. -/
def FailureEnds (run : Setup Value) : Prop :=
  ∀ offset size, .getb offset size true ∈ run.events →
    ∃ message, run.result = .error (.null message)

theorem FailureEnds.of_quiet {run : Setup Value} (quiet : All NotGetb run) : FailureEnds run :=
  fun _ _ member => (quiet _ member).elim

theorem FailureEnds.bind {Middle : Type} {first : Setup Middle} {next : Middle → Setup Value}
    (ends : FailureEnds first) (others : ∀ value, FailureEnds (next value)) :
    FailureEnds (first >>= next) := by
  intro offset size member
  cases returned : first.result with
  | ok value =>
    rw [bind_of_ok returned] at member ⊢
    rcases List.mem_append.mp member with early | late
    · obtain ⟨message, stopped⟩ := ends offset size early
      rw [returned] at stopped
      cases stopped
    · exact others value offset size late
  | error reason =>
    rw [bind_of_error returned] at member ⊢
    obtain ⟨message, stopped⟩ := ends offset size member
    rw [returned] at stopped
    cases stopped
    exact ⟨message, rfl⟩

theorem failureEnds_getb (mod : List UInt8) (message : String) (offset size : Nat) :
    FailureEnds (getb mod message offset size) := by
  unfold getb
  intro offset' size' member
  by_cases zero : offset + size = 0
  · refine ⟨message, ?_⟩
    simp only [zero, decide_true]
    rfl
  · simp only [zero, decide_false] at member
    cases List.mem_singleton.mp member

theorem failureEnds_readHeaders (system : System) (mod : List UInt8) :
    FailureEnds (readHeaders system mod) := by
  unfold readHeaders
  refine (failureEnds_getb _ _ _ _).bind fun _ => ?_
  refine (FailureEnds.of_quiet (quiet_returnNullIf _ _)).bind fun _ => ?_
  refine (failureEnds_getb _ _ _ _).bind fun _ => (failureEnds_getb _ _ _ _).bind fun _ => ?_
  refine (FailureEnds.of_quiet (quiet_checkFileHdr _)).bind fun _ => ?_
  refine (failureEnds_getb _ _ _ _).bind fun _ => ?_
  refine (FailureEnds.of_quiet (quiet_checkOptionalHdr _ _)).bind fun _ => ?_
  exact (failureEnds_getb _ _ _ _).bind fun _ => .of_quiet (all_pure _)

theorem failureEnds_mapSections (mod : List UInt8) (image : Nat) (peOpt : PeImageOptionalHdr)
    (sections : List PeImageSectionHdr) :
    ∀ memory, FailureEnds (mapSections mod image peOpt sections memory) := by
  induction sections with
  | nil => exact fun memory => .of_quiet (all_pure _)
  | cons entry sections inductionHypothesis =>
    intro memory
    refine (failureEnds_getb _ _ _ _).bind fun _ => ?_
    exact (FailureEnds.of_quiet (quiet_storeCopied _ _ _)).bind fun _ => inductionHypothesis _

theorem failureEnds_mapImage (system : System) (turns : Nat) (mod : List UInt8)
    (headers : Headers) : FailureEnds (mapImage system turns mod headers) := by
  unfold mapImage
  refine (FailureEnds.of_quiet (quiet_mmapOrNull _ _ _ _ _)).bind fun _ => ?_
  refine (failureEnds_mapSections _ _ _ _ _).bind fun _ => ?_
  refine (FailureEnds.of_quiet (quiet_importLibraries _ _ _ _ _ _ _ _)).bind fun _ => ?_
  refine (FailureEnds.of_quiet (quiet_patchImports _ _ _ _ _)).bind fun _ => ?_
  unfold mapHeader
  refine FailureEnds.bind ?_ fun _ =>
    .of_quiet (All.bind (quiet_protectSections _ _ _ _) fun _ => all_pure _)
  refine (failureEnds_getb _ _ _ _).bind fun _ => .of_quiet ?_
  exact All.bind (quiet_storeCopied _ _ _) fun _ =>
    All.bind (quiet_mprotectOrNull _ _ _ _ _) fun _ => all_pure _

/-! ### The reads of the loader -/

end Nloader.Loader
