/-
This file is about the size of the mapping of the image. The first loop over the sections
takes the largest end of a section, from its virtual address and virtual size, with 32-bit
sums; what the second loop copies is as large as the raw size. The image contains the
sections exactly where no end wraps and no copied range goes beyond the last end.
-/

import Nloader.Loader

namespace Nloader.Loader

open Trace

/-! ### The largest end -/

/-- A bound is below the largest of some 32-bit numbers where it is below the first or one of
the others. -/
theorem le_largest_iff {Entry : Type} (extent : Entry → UInt32) (bound : Nat)
    (entries : List Entry) (first : UInt32) :
    bound ≤ (entries.foldl (fun size entry =>
        if size < extent entry then extent entry else size) first).toNat ↔
      bound ≤ first.toNat ∨ ∃ entry ∈ entries, bound ≤ (extent entry).toNat := by
  induction entries generalizing first with
  | nil => simp
  | cons entry entries inductionHypothesis =>
    rw [List.foldl_cons, inductionHypothesis, List.exists_mem_cons_iff, ← or_assoc]
    refine or_congr_left ?_
    by_cases larger : first < extent entry
    · rw [if_pos larger]
      have less := UInt32.lt_iff_toNat_lt.mp larger
      exact (or_iff_right_of_imp fun below => le_trans below (le_of_lt less)).symm
    · rw [if_neg larger]
      have less := UInt32.le_iff_toNat_le.mp (UInt32.not_lt.mp larger)
      exact (or_iff_left_of_imp fun below => le_trans below less).symm

/-- The end of a section that does not wrap. -/
theorem toNat_end {first second : UInt32} (small : first.toNat + second.toNat < 2 ^ 32) :
    (first + second).toNat = first.toNat + second.toNat := by
  rw [UInt32.toNat_add, Nat.mod_eq_of_lt small]

/-- A range lies inside another where it is empty or ends before it. -/
theorem range_inside_iff (start size bound : Nat) :
    Set.Ico start (start + size) ⊆ Set.Ico 0 bound ↔ size = 0 ∨ start + size ≤ bound := by
  rcases Nat.eq_zero_or_pos size with rfl | positive
  · simp
  · rw [Set.Ico_subset_Ico_iff (Nat.lt_add_of_pos_right positive)]
    exact ⟨fun inside => .inr inside.2, fun inside =>
      ⟨Nat.zero_le _, inside.resolve_left (Nat.ne_of_gt positive)⟩⟩

theorem le_imageSize_iff (peOpt : PeImageOptionalHdr) (sections : List PeImageSectionHdr)
    {bound : Nat} (positive : 0 < bound) :
    bound ≤ (imageSize peOpt sections).toNat ↔
      ∃ entry ∈ sections, bound ≤ (rva peOpt entry + vsz peOpt entry).toNat := by
  unfold imageSize
  rw [le_largest_iff (fun entry => rva peOpt entry + vsz peOpt entry)]
  exact or_iff_right (Nat.not_le_of_gt positive)

/-! ### What the image contains -/

/-- The image contains the section and what is copied for it. -/
def ImageContains (peOpt : PeImageOptionalHdr) (size : UInt32) (entry : PeImageSectionHdr) :
    Prop :=
  Set.Ico (rva peOpt entry).toNat ((rva peOpt entry).toNat + (vsz peOpt entry).toNat) ⊆
      Set.Ico 0 size.toNat ∧
    Set.Ico (rva peOpt entry).toNat ((rva peOpt entry).toNat + (rsz peOpt entry).toNat) ⊆
      Set.Ico 0 size.toNat

/-- The image contains every section and what is copied for it exactly where no section ends
beyond 32 bits and each copied range is empty or ends before the end of some section. -/
theorem imageContains_iff (peOpt : PeImageOptionalHdr) (sections : List PeImageSectionHdr) :
    (∀ entry ∈ sections, ImageContains peOpt (imageSize peOpt sections) entry) ↔
      ∀ entry ∈ sections,
        (rva peOpt entry).toNat + (vsz peOpt entry).toNat < 2 ^ 32 ∧
        ((rsz peOpt entry).toNat = 0 ∨ ∃ other ∈ sections,
          (rva peOpt entry).toNat + (rsz peOpt entry).toNat ≤
            (rva peOpt other).toNat + (vsz peOpt other).toNat) := by
  have bounded := (imageSize peOpt sections).toNat_lt
  unfold ImageContains
  simp only [range_inside_iff]
  constructor
  · intro contains
    have small : ∀ entry ∈ sections,
        (rva peOpt entry).toNat + (vsz peOpt entry).toNat < 2 ^ 32 := by
      intro entry member
      rcases (contains entry member).1 with empty | inside
      · rw [empty]
        exact (rva peOpt entry).toNat_lt
      · exact lt_of_le_of_lt inside bounded
    refine fun entry member => ⟨small entry member, ?_⟩
    refine (contains entry member).2.imp_right fun inside => ?_
    rcases Nat.eq_zero_or_pos ((rva peOpt entry).toNat + (rsz peOpt entry).toNat) with
      zero | positive
    · exact ⟨entry, member, by rw [zero]; exact Nat.zero_le _⟩
    · obtain ⟨other, among, below⟩ := (le_imageSize_iff peOpt sections positive).mp inside
      rw [toNat_end (small other among)] at below
      exact ⟨other, among, below⟩
  · intro fits entry member
    constructor
    · rcases Nat.eq_zero_or_pos (vsz peOpt entry).toNat with empty | positive
      · exact .inl empty
      · refine .inr ((le_imageSize_iff peOpt sections (Nat.add_pos_right _ positive)).mpr
          ⟨entry, member, ?_⟩)
        rw [toNat_end (fits entry member).1]
    · rcases Nat.eq_zero_or_pos (rsz peOpt entry).toNat with empty | positive
      · exact .inl empty
      · rcases (fits entry member).2 with empty | ⟨other, among, below⟩
        · exact .inl empty
        · refine .inr ((le_imageSize_iff peOpt sections (Nat.add_pos_right _ positive)).mpr
            ⟨other, among, ?_⟩)
          rw [toNat_end (fits other among).1]
          exact below

/-! ### A file with one section -/

/-- A file of headers for one section, with pages of 4096 bytes and 512 bytes of raw data in
a unit. -/
def exampleFile (virtualSize virtualAddress sizeOfRawData pointerToRawData : Nat) :
    List UInt8 :=
  toBytes 60 0x5a4d ++ toBytes 4 64 ++
  (toBytes 4 0x4550 ++ toBytes 2 0x8664 ++ toBytes 14 1 ++ toBytes 4 240) ++
  (toBytes 24 0x20b ++ toBytes 8 0x10000 ++ toBytes 4 0x1000 ++ toBytes 24 0x200 ++
    toBytes 8 0x100 ++ toBytes 40 1 ++ toBytes 132 16) ++
  (toBytes 8 0 ++ toBytes 4 virtualSize ++ toBytes 4 virtualAddress ++
    toBytes 4 sizeOfRawData ++ toBytes 4 pointerToRawData ++ toBytes 16 0)

/-- A system that grants everything. -/
def exampleSystem : System where
  getpagesize := 4096
  mmap := fun _ address _ => some (if address = 0 then 0x7f0000000000 else address)
  mprotect := fun _ _ _ => true
  installTeb := fun _ => true
  allocate := fun _ _ => true
  memory := fun _ => 0
  nlExports := []
  stubDispatch := 0x400000
  sizeofTeb := 0x2000

set_option maxRecDepth 20000 in
/-- A section with less virtual than raw data: the headers pass, and the copied range goes
beyond the image. -/
theorem not_imageContains :
    ∃ headers, (readHeaders exampleSystem (exampleFile 0x100 0x1000 0x2000 0x200)).result =
        .ok headers ∧
      headers.sections.length = 1 ∧
      ¬ ∀ entry ∈ headers.sections,
        ImageContains headers.peOpt (imageSize headers.peOpt headers.sections) entry := by
  refine ⟨_, rfl, rfl, fun contains => ?_⟩
  have inside := (range_inside_iff _ _ _).mp (contains _ List.mem_cons_self).2
  revert inside
  decide

end Nloader.Loader
