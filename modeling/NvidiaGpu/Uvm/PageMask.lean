import NvidiaGpu.Uvm.Nanos

set_option autoImplicit false

/-! The page masks and page regions of a UVM va block (`uvm_va_block.h`) in
the Nanos build, where the bitmap helpers are those of `uvm_nanos.h`.  A va
block of `UVM_VA_BLOCK_SIZE` (2 MiB) has `PAGES_PER_UVM_VA_BLOCK = 512` pages of
4 KiB, a page mask is eight 64-bit words, and a region is the page indices
`[first, outer)`; `uvm_page_index_t` is `NvU16`, which holds every index below.
Of a va block the mask functions read its page count only; the helpers run on
a Nanos `Runtime`. -/

namespace NvidiaGpu.PageMask

open Bitmap Search Nanos

def pagesPerUvmVaBlock : Nat := 512

/-- `uvm_va_block_region_t` -/
structure UvmVaBlockRegion where
  first : Nat
  outer : Nat
  deriving DecidableEq, Repr

/-- `uvm_page_mask_t` -/
structure UvmPageMask where
  bitmap : Nat → UInt64

def uvmPageMaskRegionWeight (mask : UvmPageMask) (region : UvmVaBlockRegion) : Nat :=
  let weightBefore := if region.first > 0 then bitmapWeight mask.bitmap region.first else 0
  bitmapWeight mask.bitmap region.outer - weightBefore

def uvmPageMaskRegionEmpty (runtime : Runtime) (mask : UvmPageMask) (region : UvmVaBlockRegion) : Bool :=
  findNextBit runtime mask.bitmap region.outer region.first == region.outer

def uvmPageMaskRegionFull (runtime : Runtime) (mask : UvmPageMask) (region : UvmVaBlockRegion) : Bool :=
  findNextZeroBit runtime mask.bitmap region.outer region.first == region.outer

def uvmPageMaskRegionFill (runtime : Runtime) (mask : UvmPageMask) (region : UvmVaBlockRegion) : UvmPageMask :=
  ⟨bitmapSetBits runtime mask.bitmap region.first (region.outer - region.first)⟩

def uvmPageMaskRegionClear (runtime : Runtime) (mask : UvmPageMask) (region : UvmVaBlockRegion) : UvmPageMask :=
  ⟨bitmapClear runtime mask.bitmap region.first (region.outer - region.first)⟩

def uvmPageMaskCopy (runtime : Runtime) (maskOut maskIn : UvmPageMask) : UvmPageMask :=
  ⟨bitmapCpy runtime maskOut.bitmap maskIn.bitmap pagesPerUvmVaBlock⟩

def uvmPageMaskEqual (runtime : Runtime) (maskIn1 maskIn2 : UvmPageMask) : Bool :=
  bitmapEqual runtime maskIn1.bitmap maskIn2.bitmap pagesPerUvmVaBlock

/-- `uvm_page_mask_shift_right` on the words of `memory`, with the masks at
word addresses `maskOut` and `maskIn`, which may be the same. -/
def uvmPageMaskShiftRight (memory : Nat → UInt64) (maskOut maskIn shift : Nat) : Nat → UInt64 :=
  bitmapShiftRight memory maskOut maskIn shift pagesPerUvmVaBlock

def uvmPageMaskShiftLeft (memory : Nat → UInt64) (maskOut maskIn shift : Nat) : Nat → UInt64 :=
  bitmapShiftLeft memory maskOut maskIn shift pagesPerUvmVaBlock

/-- `uvm_va_block_region_from_mask`; `numCpuPages` is
`uvm_va_block_num_cpu_pages(va_block)`, `none` for a `NULL` block. -/
def uvmVaBlockRegionFromMask (runtime : Runtime) (numCpuPages : Option Nat) (pageMask : UvmPageMask) :
    UvmVaBlockRegion :=
  let outer := numCpuPages.getD pagesPerUvmVaBlock
  let first := findNextBit runtime pageMask.bitmap outer 0
  if first ≥ outer then ⟨0, 0⟩ else ⟨first, findLastBit runtime pageMask.bitmap outer + 1⟩

def uvmVaBlockFirstSubregionInMask (runtime : Runtime) (region : UvmVaBlockRegion) :
    Option UvmPageMask → UvmVaBlockRegion
  | none => region
  | some pageMask =>
      let first := findNextBit runtime pageMask.bitmap region.outer region.first
      ⟨first, findNextZeroBit runtime pageMask.bitmap region.outer (first + 1)⟩

def uvmVaBlockNextSubregionInMask (runtime : Runtime) (region : UvmVaBlockRegion) :
    Option UvmPageMask → UvmVaBlockRegion → UvmVaBlockRegion
  | none, _ => ⟨region.outer, region.outer⟩
  | some pageMask, previousSubregion =>
      let first := findNextBit runtime pageMask.bitmap region.outer (previousSubregion.outer + 1)
      ⟨first, findNextZeroBit runtime pageMask.bitmap region.outer (first + 1)⟩

/-- The subregions `for_each_va_block_subregion_in_mask` visits from
`subregion` on, at most `fuel` of them. -/
def forEachVaBlockSubregionInMaskLoop (runtime : Runtime) (region : UvmVaBlockRegion)
    (pageMask : Option UvmPageMask) : Nat → UvmVaBlockRegion → List UvmVaBlockRegion
  | 0, _ => []
  | fuel + 1, subregion =>
      if subregion.first ≠ region.outer then
        subregion :: forEachVaBlockSubregionInMaskLoop runtime region pageMask fuel
          (uvmVaBlockNextSubregionInMask runtime region pageMask subregion)
      else []

/-- `for_each_va_block_subregion_in_mask(subregion, page_mask, region)`: the
subregions it visits.  Each one starts above the last one's end, so
`region.outer + 1` passes are enough. -/
def forEachVaBlockSubregionInMask (runtime : Runtime) (region : UvmVaBlockRegion) (pageMask : Option UvmPageMask) :
    List UvmVaBlockRegion :=
  forEachVaBlockSubregionInMaskLoop runtime region pageMask (region.outer + 1)
    (uvmVaBlockFirstSubregionInMask runtime region pageMask)

/-! ## Regions -/

section Regions

variable {runtime : Runtime} {mask : UvmPageMask} {region : UvmVaBlockRegion}

theorem uvmPageMaskRegionEmpty_iff (maskLow : runtime.MaskLow) (lsbLowest : runtime.LsbLowest)
    (aligned : region.first % 64 = 0 ∨ region.outer ≤ (region.first / 64 + 1) * 64) :
    uvmPageMaskRegionEmpty runtime mask region = true ↔
      ∀ page, region.first ≤ page → page < region.outer → bitAt mask.bitmap page = false := by
  rw [uvmPageMaskRegionEmpty, beq_iff_eq, findNextBit_of_aligned maskLow lsbLowest aligned, firstSetFrom_eq_nbits_iff]

theorem uvmPageMaskRegionFull_iff (maskLow : runtime.MaskLow) (lsbLowest : runtime.LsbLowest)
    (aligned : region.first % 64 = 0 ∨ region.outer ≤ (region.first / 64 + 1) * 64) :
    uvmPageMaskRegionFull runtime mask region = true ↔
      ∀ page, region.first ≤ page → page < region.outer → bitAt mask.bitmap page = true := by
  rw [uvmPageMaskRegionFull, beq_iff_eq, findNextZeroBit_of_aligned maskLow lsbLowest aligned,
    firstClearFrom_eq_nbits_iff]

def belowLastOfTwoWords : UvmPageMask :=
  ⟨fun word => if word = 0 then 0xFFFFFFFFFFFFFFFF else if word = 1 then 0x7FFFFFFFFFFFFFFF else 0⟩

theorem uvmPageMaskRegionFull_misses_last_page (runtime : Runtime) (maskLow : runtime.MaskLow)
    (lsbLowest : runtime.LsbLowest) :
    bitAt belowLastOfTwoWords.bitmap 127 = false ∧ uvmPageMaskRegionFull runtime belowLastOfTwoWords ⟨1, 128⟩ = true := by
  refine ⟨by decide, ?_⟩
  rw [uvmPageMaskRegionFull, findNextZeroBit_eq maskLow lsbLowest]
  decide

theorem byBits_uvmPageMaskRegionFull_misses_last_page :
    Runtime.byBits.MaskLow ∧ Runtime.byBits.LsbLowest ∧ bitAt belowLastOfTwoWords.bitmap 127 = false ∧
      uvmPageMaskRegionFull Runtime.byBits belowLastOfTwoWords ⟨1, 128⟩ = true :=
  ⟨Runtime.maskLow_byBits, Runtime.lsbLowest_byBits,
    uvmPageMaskRegionFull_misses_last_page Runtime.byBits Runtime.maskLow_byBits Runtime.lsbLowest_byBits⟩

/-- `uvm_page_mask_region_weight` counts the set pages of the region. -/
theorem uvmPageMaskRegionWeight_eq (ordered : region.first ≤ region.outer) :
    uvmPageMaskRegionWeight mask region =
      (List.range' region.first (region.outer - region.first)).countP (bitAt mask.bitmap) := by
  have split : List.range region.outer = List.range region.first ++ List.range' region.first (region.outer - region.first) := by
    have joined : List.range' 0 region.first ++ List.range' (0 + region.first) (region.outer - region.first) =
        List.range' 0 (region.first + (region.outer - region.first)) := List.range'_append_1
    rw [Nat.zero_add, Nat.add_sub_cancel' ordered] at joined
    rw [List.range_eq_range', List.range_eq_range', ← joined]
  have before : (if region.first > 0 then bitmapWeight mask.bitmap region.first else 0) =
      (List.range region.first).countP (bitAt mask.bitmap) := by
    split
    · rw [bitmapWeight_eq]
    · rw [show region.first = 0 by omega]
      rfl
  rw [uvmPageMaskRegionWeight, before, bitmapWeight_eq, split, List.countP_append, Nat.add_sub_cancel_left]

/-- From an aligned `first`, or within one word, `uvm_page_mask_region_empty`
and `uvm_page_mask_region_full` say whether no page or every page of the region
is set, and `uvm_page_mask_region_weight` counts the region's set pages. -/
theorem uvmPageMaskRegion_queries (maskLow : runtime.MaskLow) (lsbLowest : runtime.LsbLowest)
    (aligned : region.first % 64 = 0 ∨ region.outer ≤ (region.first / 64 + 1) * 64) (ordered : region.first ≤ region.outer) :
    (uvmPageMaskRegionEmpty runtime mask region = true ↔
        ∀ page, region.first ≤ page → page < region.outer → bitAt mask.bitmap page = false) ∧
      (uvmPageMaskRegionFull runtime mask region = true ↔
        ∀ page, region.first ≤ page → page < region.outer → bitAt mask.bitmap page = true) ∧
      uvmPageMaskRegionWeight mask region =
        (List.range' region.first (region.outer - region.first)).countP (bitAt mask.bitmap) :=
  ⟨uvmPageMaskRegionEmpty_iff maskLow lsbLowest aligned, uvmPageMaskRegionFull_iff maskLow lsbLowest aligned,
    uvmPageMaskRegionWeight_eq ordered⟩

end Regions

theorem byBits_uvmPageMaskRegion_queries :
    Runtime.byBits.MaskLow ∧ Runtime.byBits.LsbLowest ∧
      ((⟨0, 64⟩ : UvmVaBlockRegion).first % 64 = 0 ∨
        (⟨0, 64⟩ : UvmVaBlockRegion).outer ≤ ((⟨0, 64⟩ : UvmVaBlockRegion).first / 64 + 1) * 64) ∧
      (⟨0, 64⟩ : UvmVaBlockRegion).first ≤ (⟨0, 64⟩ : UvmVaBlockRegion).outer ∧
      (uvmPageMaskRegionEmpty Runtime.byBits belowLastOfTwoWords ⟨0, 64⟩ = true ↔
        ∀ page, (⟨0, 64⟩ : UvmVaBlockRegion).first ≤ page → page < (⟨0, 64⟩ : UvmVaBlockRegion).outer →
          bitAt belowLastOfTwoWords.bitmap page = false) ∧
      (uvmPageMaskRegionFull Runtime.byBits belowLastOfTwoWords ⟨0, 64⟩ = true ↔
        ∀ page, (⟨0, 64⟩ : UvmVaBlockRegion).first ≤ page → page < (⟨0, 64⟩ : UvmVaBlockRegion).outer →
          bitAt belowLastOfTwoWords.bitmap page = true) ∧
      uvmPageMaskRegionWeight belowLastOfTwoWords ⟨0, 64⟩ =
        (List.range' (⟨0, 64⟩ : UvmVaBlockRegion).first
          ((⟨0, 64⟩ : UvmVaBlockRegion).outer - (⟨0, 64⟩ : UvmVaBlockRegion).first)).countP
          (bitAt belowLastOfTwoWords.bitmap) :=
  ⟨Runtime.maskLow_byBits, Runtime.lsbLowest_byBits, .inl rfl, by decide,
    uvmPageMaskRegion_queries Runtime.maskLow_byBits Runtime.lsbLowest_byBits (.inl rfl) (by decide)⟩

/-! ## Copies -/

/-- After `uvm_page_mask_copy` the copy equals its source exactly when the
destination already agreed with it from page 64 on: `bitmap_cpy` copies eight
bytes of the eight words. -/
theorem uvmPageMaskEqual_uvmPageMaskCopy_iff {runtime : Runtime} (maskLow : runtime.MaskLow)
    (memcpyBytes : runtime.MemcpyBytes) (maskOut maskIn : UvmPageMask) :
    uvmPageMaskEqual runtime (uvmPageMaskCopy runtime maskOut maskIn) maskIn = true ↔
      ∀ page, 64 ≤ page → page < pagesPerUvmVaBlock → bitAt maskOut.bitmap page = bitAt maskIn.bitmap page := by
  have bytes : 8 * ((pagesPerUvmVaBlock + 63) / 64) = 64 := rfl
  rw [uvmPageMaskEqual, uvmPageMaskCopy, bitmapEqual_eq_true_iff maskLow]
  simp only [bitAt_bitmapCpy memcpyBytes, bytes]
  constructor
  · intro same page above below
    have := same page below
    rwa [if_neg (by omega)] at this
  · intro same page below
    split
    · rfl
    · exact same page (by omega) below

def onlyPage (page : Nat) : UvmPageMask := ⟨setBit page fun _ => 0⟩

theorem bitAt_onlyPage (page index : Nat) : bitAt (onlyPage page).bitmap index = decide (index = page) := by
  rw [onlyPage, bitAt_setBit, Bool.or_eq_left_iff_imp]
  intro set
  simp [bitAt] at set

theorem uvmPageMaskCopy_not_equal (runtime : Runtime) (maskLow : runtime.MaskLow) (memcpyBytes : runtime.MemcpyBytes) :
    uvmPageMaskEqual runtime (uvmPageMaskCopy runtime ⟨fun _ => 0⟩ (onlyPage 64)) (onlyPage 64) = false := by
  rw [Bool.eq_false_iff, ne_eq, uvmPageMaskEqual_uvmPageMaskCopy_iff maskLow memcpyBytes]
  intro same
  have page64 := same 64 (Nat.le_refl 64) (by decide)
  revert page64
  decide

theorem byBits_uvmPageMaskCopy_not_equal :
    Runtime.byBits.MaskLow ∧ Runtime.byBits.MemcpyBytes ∧
      uvmPageMaskEqual Runtime.byBits (uvmPageMaskCopy Runtime.byBits ⟨fun _ => 0⟩ (onlyPage 64)) (onlyPage 64) = false :=
  ⟨Runtime.maskLow_byBits, Runtime.memcpyBytes_byBits,
    uvmPageMaskCopy_not_equal Runtime.byBits Runtime.maskLow_byBits Runtime.memcpyBytes_byBits⟩

/-! ## The region of a mask -/

theorem uvmVaBlockRegionFromMask_eq {runtime : Runtime} (maskLow : runtime.MaskLow) (lsbLowest : runtime.LsbLowest)
    (msbHighest : runtime.MsbHighest) (numCpuPages : Option Nat) (pageMask : UvmPageMask) :
    uvmVaBlockRegionFromMask runtime numCpuPages pageMask =
      match findFrom (bitAt pageMask.bitmap) 0 (numCpuPages.getD pagesPerUvmVaBlock) with
      | none => ⟨0, 0⟩
      | some first =>
          ⟨first, (findLast (bitAt pageMask.bitmap) (numCpuPages.getD pagesPerUvmVaBlock - 1)).getD
            (numCpuPages.getD pagesPerUvmVaBlock) + 1⟩ := by
  rw [uvmVaBlockRegionFromMask, findNextBit_of_aligned maskLow lsbLowest (Or.inl rfl), firstSetFrom, Nat.sub_zero]
  cases found : findFrom (bitAt pageMask.bitmap) 0 (numCpuPages.getD pagesPerUvmVaBlock) with
  | none => simp
  | some first =>
      have below := (findFrom_eq_some_iff.mp found).2.1
      rw [Option.getD_some, if_neg (by omega), findLastBit_eq maskLow msbHighest _ (by omega)]

theorem uvmVaBlockRegionFromMask_last_page (runtime : Runtime) (maskLow : runtime.MaskLow)
    (lsbLowest : runtime.LsbLowest) (msbHighest : runtime.MsbHighest) :
    bitAt (onlyPage 511).bitmap 511 = true ∧ uvmVaBlockRegionFromMask runtime none (onlyPage 511) = ⟨511, 513⟩ := by
  have first : findFrom (bitAt (onlyPage 511).bitmap) 0 512 = some 511 := by
    rw [findFrom_eq_some_iff, bitAt_onlyPage, decide_eq_true rfl]
    exact ⟨by omega, by omega, rfl, fun j _ below => by rw [bitAt_onlyPage, decide_eq_false (by omega)]⟩
  have last : findLast (bitAt (onlyPage 511).bitmap) 511 = none := by
    rw [findLast_eq_none_iff]
    intro j below
    rw [bitAt_onlyPage, decide_eq_false (by omega)]
  refine ⟨by decide, ?_⟩
  rw [uvmVaBlockRegionFromMask_eq maskLow lsbLowest msbHighest, Option.getD_none, pagesPerUvmVaBlock, first, last]
  rfl

theorem byBits_uvmVaBlockRegionFromMask_last_page :
    Runtime.byBits.MaskLow ∧ Runtime.byBits.LsbLowest ∧ Runtime.byBits.MsbHighest ∧
      bitAt (onlyPage 511).bitmap 511 = true ∧ uvmVaBlockRegionFromMask Runtime.byBits none (onlyPage 511) = ⟨511, 513⟩ :=
  ⟨Runtime.maskLow_byBits, Runtime.lsbLowest_byBits, Runtime.msbHighest_byBits,
    uvmVaBlockRegionFromMask_last_page Runtime.byBits Runtime.maskLow_byBits Runtime.lsbLowest_byBits
      Runtime.msbHighest_byBits⟩

theorem uvmPageMaskRegionFill_misses_last_page (runtime : Runtime) (maskLow : runtime.MaskLow)
    (lsbLowest : runtime.LsbLowest) :
    bitAt (uvmPageMaskRegionFill runtime belowLastOfTwoWords ⟨1, 128⟩).bitmap 127 = false ∧
      bitAt (uvmPageMaskRegionClear runtime (onlyPage 127) ⟨1, 128⟩).bitmap 127 = true := by
  have noClear : findNextZeroBit runtime belowLastOfTwoWords.bitmap 128 1 = 128 := by
    rw [findNextZeroBit_eq maskLow lsbLowest]
    decide
  have noSet : findNextBit runtime (onlyPage 127).bitmap 128 1 = 128 := by
    rw [findNextBit_eq maskLow lsbLowest]
    decide
  constructor
  · rw [uvmPageMaskRegionFill, bitmapSetBits, show 1 + (128 - 1) = 128 from rfl, noClear,
      forEachBitFrom_of_le _ _ (Nat.le_refl 128)]
    decide
  · rw [uvmPageMaskRegionClear, bitmapClear, show 1 + (128 - 1) = 128 from rfl, noSet,
      forEachBitFrom_of_le _ _ (Nat.le_refl 128)]
    decide

theorem byBits_uvmPageMaskRegionFill_misses_last_page :
    Runtime.byBits.MaskLow ∧ Runtime.byBits.LsbLowest ∧
      bitAt (uvmPageMaskRegionFill Runtime.byBits belowLastOfTwoWords ⟨1, 128⟩).bitmap 127 = false ∧
      bitAt (uvmPageMaskRegionClear Runtime.byBits (onlyPage 127) ⟨1, 128⟩).bitmap 127 = true :=
  ⟨Runtime.maskLow_byBits, Runtime.lsbLowest_byBits,
    uvmPageMaskRegionFill_misses_last_page Runtime.byBits Runtime.maskLow_byBits Runtime.lsbLowest_byBits⟩

/-! ## Shifts -/

def page64AtEight : Nat → UInt64 := setBit (8 * 64 + 64) fun _ => 0

theorem uvmPageMaskShiftRight_moves_up :
    bitAt (fun word => page64AtEight (8 + word)) 64 = true ∧
      bitAt (uvmPageMaskShiftRight page64AtEight 0 8 1) 63 = false ∧
      bitAt (uvmPageMaskShiftRight page64AtEight 0 8 1) 191 = true :=
  ⟨by decide, by decide, by decide⟩

/-! ## Subregions -/

section Subregions

variable {runtime : Runtime} {region : UvmVaBlockRegion} {pageMask : Option UvmPageMask}

theorem forEachVaBlockSubregionInMaskLoop_of_first_eq (fuel : Nat) {subregion : UvmVaBlockRegion}
    (atEnd : subregion.first = region.outer) :
    forEachVaBlockSubregionInMaskLoop runtime region pageMask fuel subregion = [] := by
  cases fuel with
  | zero => rfl
  | succ fuel => rw [forEachVaBlockSubregionInMaskLoop, if_neg (not_not.mpr atEnd)]

end Subregions

theorem forEachVaBlockSubregionInMask_misses_last_page (runtime : Runtime) (maskLow : runtime.MaskLow)
    (lsbLowest : runtime.LsbLowest) :
    bitAt (onlyPage 127).bitmap 127 = true ∧
      forEachVaBlockSubregionInMask runtime ⟨1, 128⟩ (some (onlyPage 127)) = [] := by
  have noSet : findNextBit runtime (onlyPage 127).bitmap 128 1 = 128 := by
    rw [findNextBit_eq maskLow lsbLowest]
    decide
  refine ⟨by decide, ?_⟩
  rw [forEachVaBlockSubregionInMask, uvmVaBlockFirstSubregionInMask]
  exact forEachVaBlockSubregionInMaskLoop_of_first_eq _ noSet

theorem byBits_forEachVaBlockSubregionInMask_misses_last_page :
    Runtime.byBits.MaskLow ∧ Runtime.byBits.LsbLowest ∧ bitAt (onlyPage 127).bitmap 127 = true ∧
      forEachVaBlockSubregionInMask Runtime.byBits ⟨1, 128⟩ (some (onlyPage 127)) = [] :=
  ⟨Runtime.maskLow_byBits, Runtime.lsbLowest_byBits,
    forEachVaBlockSubregionInMask_misses_last_page Runtime.byBits Runtime.maskLow_byBits Runtime.lsbLowest_byBits⟩

end NvidiaGpu.PageMask
