import NvidiaGpu.Pma.Regmap
import NvidiaGpu.Library.Runs

set_option autoImplicit false

/-! `pmaRegmapGetLargestFree` (`regmap.c`): the longest run of free frames of a
region, free meaning neither `ALLOC_PIN` nor `ALLOC_UNPIN` set, counted a
64-bit word at a time.  A run that crosses words is carried in
`mapTrailZeros` from the high zeros of one word to the low zeros of the next,
a word's own longest run is `maxZerosGet`, and the frames past the last one in
a partial last word are masked as used.

The counts are `NvU32`.  While the longest free run is shorter than `2^32`
frames the result is that run in bytes; a run of `2^32` free frames wraps the
carried count to zero. -/

namespace NvidiaGpu.Regmap

open Bitmap Runs

/-! ## The model -/

/-- The loop of `maxZerosGet`: each pass keeps the set bits whose next lower bit
is set too.  After 64 passes no bit is left, so 65 passes always end it. -/
def maxZerosLoop : Nat → UInt64 → UInt32 → UInt32
  | 0, _, y => y
  | fuel + 1, bits, y => if bits != 0 then maxZerosLoop fuel (bits &&& (bits <<< 1)) (y + 1) else y

def maxZerosGet (bits : UInt64) : UInt32 :=
  maxZerosLoop 65 (~~~bits) 0

def portUtilCountLeadingZeros64 (n : UInt64) : UInt32 :=
  if n = 0 then 64 else n.toBitVec.clz.toNat.toUInt32

/-- The bitmap of word `mapIndex`: a bit set for each frame allocated, pinned or
not, and, in a partial last word, for each position past the last frame. -/
def largestFreeBitmap (regmap : PmaRegmap) (mapMaxIndex mapIndex : UInt64) : UInt64 :=
  let bitmap := regmap.map mapIdxAllocUnpin mapIndex.toNat ||| regmap.map mapIdxAllocPin mapIndex.toNat
  if mapIndex = mapMaxIndex ∧ pageBitidx regmap.totalFrames ≠ 0 then
    bitmap ||| (allOnes64 <<< pageBitidx regmap.totalFrames)
  else bitmap

/-- One pass of the loop of `pmaRegmapGetLargestFree` over `bitmap`, from the
zeros carried up from the words below and the longest run found so far. -/
def largestFreeStep (bitmap : UInt64) (mapTrailZeros regionMaxZeros : UInt32) : UInt32 × UInt32 :=
  if (maxZerosGet bitmap).toUInt64 = uintSize then (mapTrailZeros + uintSize.toUInt32, regionMaxZeros)
  else
    let mapTrailZeros := mapTrailZeros + portUtilCountTrailingZeros64 bitmap
    let mapMaxZeros := maxZerosGet bitmap
    (portUtilCountLeadingZeros64 bitmap, max regionMaxZeros (max mapMaxZeros mapTrailZeros))

/-- The loop of `pmaRegmapGetLargestFree` from word `mapIndex`, for at most
`fuel` words: `(mapTrailZeros, regionMaxZeros)`. -/
def largestFreeLoop (regmap : PmaRegmap) (mapMaxIndex : UInt64) :
    Nat → UInt64 → UInt32 × UInt32 → UInt32 × UInt32
  | 0, _, zeros => zeros
  | fuel + 1, mapIndex, zeros =>
      if mapIndex ≤ mapMaxIndex then
        largestFreeLoop regmap mapMaxIndex fuel (mapIndex + 1)
          (largestFreeStep (largestFreeBitmap regmap mapMaxIndex mapIndex) zeros.1 zeros.2)
      else zeros

/-- `pmaRegmapGetLargestFree`: the longest run of free frames, in bytes.  The
loop visits the words `0` to `mapMaxIndex` once each. -/
def pmaRegmapGetLargestFree (regmap : PmaRegmap) : UInt64 :=
  let mapMaxIndex := pageMapidx (regmap.totalFrames - 1)
  let zeros := largestFreeLoop regmap mapMaxIndex (mapMaxIndex.toNat + 1) 0 (0, 0)
  (max zeros.2 zeros.1).toUInt64 <<< pmaPageShift

def PmaRegmap.freeInRegion (regmap : PmaRegmap) (frameNum : Nat) : Bool :=
  regmap.frameFree frameNum && decide (frameNum < regmap.totalFrames.toNat)

/-! ## One word -/

section Word

variable {bitmap : UInt64} {g : Nat → Bool}

/-- After `k` passes of `maxZerosGet` a bit is set exactly where it tops `k + 1`
positions of `g` that are all `true`. -/
def Survivors (g : Nat → Bool) (k : Nat) (bits : UInt64) : Prop :=
  ∀ i, bits.toBitVec.getLsbD i = true ↔ k ≤ i ∧ i < 64 ∧ RunAt g (i - k) (k + 1)

theorem survivors_complement (agree : ∀ i < 64, g i = !bitmap.toBitVec.getLsbD i) :
    Survivors g 0 (~~~bitmap) := by
  intro i
  by_cases inside : i < 64
  · simp [RunAt, inside, agree i inside]
  · simp [inside]

theorem Survivors.step {k : Nat} {bits : UInt64} (survivors : Survivors g k bits) :
    Survivors g (k + 1) (bits &&& (bits <<< 1)) := by
  intro i
  have shifted : (bits <<< 1).toBitVec.getLsbD i = (decide (i < 64) && decide (1 ≤ i) && bits.toBitVec.getLsbD (i - 1)) := by
    rw [UInt64.toBitVec_shiftLeft, BitVec.shiftLeft_eq', BitVec.getLsbD_shiftLeft]
    cases i <;> simp
  rw [UInt64.toBitVec_and, BitVec.getLsbD_and, shifted, Bool.and_eq_true, survivors i]
  by_cases above : 1 ≤ i
  · simp only [above, decide_true, Bool.and_true, Bool.and_eq_true, decide_eq_true_eq, survivors (i - 1)]
    constructor
    · rintro ⟨⟨lower, inside, run⟩, -, lower', -, run'⟩
      refine ⟨by omega, inside, fun t below => ?_⟩
      by_cases first : t = 0
      · have := run' 0 (by omega)
        rwa [show i - 1 - k + 0 = i - (k + 1) + t by omega] at this
      · have := run (t - 1) (by omega)
        rwa [show i - k + (t - 1) = i - (k + 1) + t by omega] at this
    · rintro ⟨lower, inside, run⟩
      refine ⟨⟨by omega, inside, fun t below => ?_⟩, inside, by omega, by omega, fun t below => ?_⟩
      · have := run (t + 1) (by omega)
        rwa [show i - (k + 1) + (t + 1) = i - k + t by omega] at this
      · have := run t (by omega)
        rwa [show i - (k + 1) + t = i - 1 - k + t by omega] at this
  · obtain rfl : i = 0 := by omega
    simp

theorem Survivors.eq_zero_iff {k : Nat} {bits : UInt64} (survivors : Survivors g k bits) :
    bits = 0 ↔ ∀ start, start + (k + 1) ≤ 64 → ¬RunAt g start (k + 1) := by
  rw [eq_zero_iff_getLsbD]
  constructor
  · intro clear start fits run
    have set := (survivors (start + k)).mpr ⟨by omega, by omega, by rwa [Nat.add_sub_cancel]⟩
    rw [clear _ (by omega)] at set
    exact absurd set Bool.false_ne_true
  · intro none position inside
    by_contra set
    obtain ⟨lower, -, run⟩ := (survivors position).mp (Bool.not_eq_false _ ▸ set)
    exact none _ (by omega) run

theorem maxZerosLoop_eq (fuel : Nat) :
    ∀ k bits, Survivors g k bits → k ≤ longestRun g 64 → longestRun g 64 < fuel + k →
      maxZerosLoop fuel bits k.toUInt32 = (longestRun g 64).toUInt32 := by
  induction fuel with
  | zero => intro k bits _ le enough; omega
  | succ fuel ih =>
      intro k bits survivors le enough
      have long := isLongest_longestRun (f := g) 64
      unfold maxZerosLoop
      by_cases zero : bits = 0
      · have shorter : longestRun g 64 < k + 1 := by
          obtain ⟨start, fits, run⟩ := long.attained
          by_contra longer
          exact survivors.eq_zero_iff.mp zero start (by omega) (fun t below => run t (by omega))
        simp only [zero, bne_self_eq_false, Bool.false_eq_true, if_false]
        rw [show longestRun g 64 = k by omega]
      · have longer : k + 1 ≤ longestRun g 64 := by
          by_contra shorter
          exact zero (survivors.eq_zero_iff.mpr fun start fits run => shorter (long.maximal start (k + 1) fits run))
        simp only [bne_iff_ne, ne_eq, zero, not_false_eq_true, if_true]
        rw [show k.toUInt32 + 1 = (k + 1).toUInt32 by simp]
        exact ih (k + 1) _ survivors.step longer (by omega)

theorem toNat_maxZerosGet (agree : ∀ i < 64, g i = !bitmap.toBitVec.getLsbD i) :
    (maxZerosGet bitmap).toNat = longestRun g 64 := by
  have le := longestRun_le (f := g) 64
  unfold maxZerosGet
  rw [show (0 : UInt32) = (0 : Nat).toUInt32 from rfl,
    maxZerosLoop_eq 65 0 _ (survivors_complement agree) (Nat.zero_le _) (by omega)]
  simp
  omega

theorem leadingRun_eq_64_iff (agree : ∀ i < 64, g i = !bitmap.toBitVec.getLsbD i) :
    leadingRun g 64 = 64 ↔ bitmap = 0 := by
  rw [leadingRun_eq_self_iff, eq_zero_iff_getLsbD]
  constructor
  · intro run position inside
    have := run position inside
    rw [Nat.zero_add, agree position inside] at this
    simpa using this
  · intro clear t inside
    rw [Nat.zero_add, agree t inside, clear t inside]
    rfl

theorem portUtilCountTrailingZeros64_eq_leadingRun (agree : ∀ i < 64, g i = !bitmap.toBitVec.getLsbD i)
    (nonzero : bitmap ≠ 0) :
    (portUtilCountTrailingZeros64 bitmap).toNat = leadingRun g 64 := by
  have below := lowestSetBit_lt nonzero
  have count : (portUtilCountTrailingZeros64 bitmap).toNat = lowestSetBit bitmap := by
    simpa using toNat_portUtilCountTrailingZeros64 nonzero
  rw [count]
  refine (leadingRun_eq (by omega) (fun t lt => ?_) (fun _ => ?_)).symm
  · rw [Nat.zero_add, agree t (by omega), getLsbD_of_lt_lowestSetBit lt]
    rfl
  · rw [agree _ below, getLsbD_lowestSetBit nonzero]
    rfl

theorem portUtilCountLeadingZeros64_eq_trailingRun (agree : ∀ i < 64, g i = !bitmap.toBitVec.getLsbD i)
    (nonzero : bitmap ≠ 0) :
    (portUtilCountLeadingZeros64 bitmap).toNat = trailingRun g 64 := by
  have nonzero' : bitmap.toBitVec ≠ 0#64 := fun zero => nonzero (UInt64.toBitVec_inj.mp zero)
  have le : bitmap.toBitVec.clz.toNat ≤ 64 := BitVec.le_def.mp BitVec.clz_le
  have lt : bitmap.toBitVec.clz.toNat < 64 := by
    have ne := mt BitVec.clz_eq_iff_eq_zero.mp nonzero'
    have : bitmap.toBitVec.clz.toNat ≠ 64 := fun same => ne (BitVec.eq_of_toNat_eq (by simpa using same))
    omega
  have count : (portUtilCountLeadingZeros64 bitmap).toNat = bitmap.toBitVec.clz.toNat := by
    simp only [portUtilCountLeadingZeros64, nonzero, if_false]
    simp
    omega
  rw [count]
  refine (trailingRun_eq le (fun t below => ?_) (fun _ => ?_)).symm
  · have clear := BitVec.getLsbD_false_of_clzAuxRec (x := bitmap.toBitVec) (n := 63)
      (fun i above => BitVec.getLsbD_of_ge _ _ (by omega)) t
    rw [agree _ (by omega)]
    simpa [BitVec.clz] using clear
  · have set := BitVec.getLsbD_true_clz_of_ne_zero (by omega) nonzero'
    rw [agree _ (by omega)]
    simpa using set

theorem maxZerosGet_eq_uintSize_iff : (maxZerosGet bitmap).toUInt64 = uintSize ↔ bitmap = 0 := by
  have agree : ∀ i < 64, (fun i => !bitmap.toBitVec.getLsbD i) i = !bitmap.toBitVec.getLsbD i := fun _ _ => rfl
  rw [← leadingRun_eq_64_iff agree, leadingRun_eq_self_iff, ← longestRun_eq_self_iff, ← toNat_maxZerosGet agree,
    ← UInt64.toNat_inj, UInt32.toNat_toUInt64]
  rfl

end Word

/-! ## The region -/

theorem toNat_max_uInt32 (a b : UInt32) : (max a b).toNat = max a.toNat b.toNat := by
  by_cases le : a ≤ b
  · have picked : max a b = b := if_pos le
    rw [picked, Nat.max_eq_right (UInt32.le_iff_toNat_le.mp le)]
  · have picked : max a b = a := if_neg le
    have lt : b.toNat < a.toNat := UInt32.lt_iff_toNat_lt.mp (UInt32.not_le.mp le)
    rw [picked, Nat.max_eq_left (Nat.le_of_lt lt)]

section Region

variable {regmap : PmaRegmap}

theorem toNat_mapMaxIndex (positive : 0 < regmap.totalFrames.toNat) :
    (pageMapidx (regmap.totalFrames - 1)).toNat = (regmap.totalFrames.toNat - 1) / 64 := by
  rw [toNat_pageMapidx, UInt64.toNat_sub_of_le _ _ (UInt64.le_iff_toNat_le.mpr (by simp; omega))]
  rfl

theorem getLsbD_largestFreeBitmap (positive : 0 < regmap.totalFrames.toNat) {mapIndex : UInt64}
    (within : mapIndex ≤ pageMapidx (regmap.totalFrames - 1)) {i : Nat} (inside : i < 64) :
    (largestFreeBitmap regmap (pageMapidx (regmap.totalFrames - 1)) mapIndex).toBitVec.getLsbD i =
      !regmap.freeInRegion (mapIndex.toNat * 64 + i) := by
  have maxIndex := toNat_mapMaxIndex positive
  have below : mapIndex.toNat ≤ (regmap.totalFrames.toNat - 1) / 64 := maxIndex ▸ UInt64.le_iff_toNat_le.mp within
  have bitidx := toNat_pageBitidx regmap.totalFrames
  unfold largestFreeBitmap PmaRegmap.freeInRegion PmaRegmap.frameFree PmaRegmap.bit
  rw [bitAt_inWord _ _ _ inside, bitAt_inWord _ _ _ inside]
  dsimp only
  split_ifs with last
  · have lastIndex : mapIndex.toNat = (regmap.totalFrames.toNat - 1) / 64 := maxIndex ▸ congrArg UInt64.toNat last.1
    have partialWord : regmap.totalFrames.toNat % 64 ≠ 0 := fun zero =>
      last.2 (UInt64.toNat_inj.mp (by rw [bitidx, zero]; rfl))
    have past : mapIndex.toNat * 64 + i < regmap.totalFrames.toNat ↔ i < regmap.totalFrames.toNat % 64 := by
      omega
    rw [UInt64.toBitVec_or, BitVec.getLsbD_or, getLsbD_allOnes_shiftLeft (by omega), UInt64.toBitVec_or,
      BitVec.getLsbD_or, bitidx]
    by_cases lt : i < regmap.totalFrames.toNat % 64
    · simp [inside, past.mpr lt, Nat.not_le.mpr lt]
    · simp [inside, mt past.mp lt, Nat.le_of_not_lt lt]
  · have inRegion : mapIndex.toNat * 64 + i < regmap.totalFrames.toNat := by
      by_cases atLast : mapIndex = pageMapidx (regmap.totalFrames - 1)
      · have lastIndex : mapIndex.toNat = (regmap.totalFrames.toNat - 1) / 64 := maxIndex ▸ congrArg UInt64.toNat atLast
        have full : regmap.totalFrames.toNat % 64 = 0 := by
          by_contra partialWord
          exact last ⟨atLast, fun zero => partialWord (by rw [← bitidx, zero]; rfl)⟩
        omega
      · have earlier : mapIndex.toNat < (regmap.totalFrames.toNat - 1) / 64 := by
          have := mt UInt64.toNat_inj.mp atLast
          omega
        omega
    rw [UInt64.toBitVec_or, BitVec.getLsbD_or]
    simp [inRegion]

/-- What the loop keeps after the words below `m`: the carried zeros are the
free run that ends at frame `m * 64`, and with the longest run found they give
the longest free run below that frame. -/
structure LargestFreeInv (regmap : PmaRegmap) (m : Nat) (zeros : UInt32 × UInt32) : Prop where
  trail : zeros.1.toNat = trailingRun regmap.freeInRegion (m * 64)
  longest : (max zeros.2 zeros.1).toNat = longestRun regmap.freeInRegion (m * 64)

theorem largestFreeInv_zero : LargestFreeInv regmap 0 (0, 0) :=
  ⟨rfl, rfl⟩

theorem LargestFreeInv.step (positive : 0 < regmap.totalFrames.toNat) {m : Nat} {zeros : UInt32 × UInt32}
    (inv : LargestFreeInv regmap m zeros) (fits : longestRun regmap.freeInRegion (m * 64 + 64) < 2 ^ 32)
    {mapIndex : UInt64} (index : mapIndex.toNat = m) (within : mapIndex ≤ pageMapidx (regmap.totalFrames - 1)) :
    LargestFreeInv regmap (m + 1)
      (largestFreeStep (largestFreeBitmap regmap (pageMapidx (regmap.totalFrames - 1)) mapIndex) zeros.1 zeros.2) := by
  generalize bitmapDef : largestFreeBitmap regmap (pageMapidx (regmap.totalFrames - 1)) mapIndex = bitmap
  set f := regmap.freeInRegion
  have agree : ∀ i < 64, f (m * 64 + i) = !bitmap.toBitVec.getLsbD i := fun i inside => by
    rw [← bitmapDef, getLsbD_largestFreeBitmap positive within inside, index, Bool.not_not]
  have scan : runScan f (0, 0) ((m + 1) * 64) =
      runScan (fun i => f (m * 64 + i)) (trailingRun f (m * 64), longestRun f (m * 64)) 64 := by
    rw [Nat.succ_mul, runScan_add]
    rfl
  rw [@runScan_block (fun i => f (m * 64 + i)) (trailingRun f (m * 64), longestRun f (m * 64))
    (trailingRun_le_longestRun (m * 64)) 64] at scan
  have trailing : trailingRun f ((m + 1) * 64) = (runScan f (0, 0) ((m + 1) * 64)).1 := rfl
  have longest : longestRun f ((m + 1) * 64) = (runScan f (0, 0) ((m + 1) * 64)).2 := rfl
  have fits' : longestRun f ((m + 1) * 64) < 2 ^ 32 := by rwa [Nat.succ_mul]
  have trailLe := trailingRun_le_longestRun (f := f) ((m + 1) * 64)
  have mapMax := toNat_maxZerosGet agree
  have oldTrail : zeros.1.toNat = trailingRun f (m * 64) := inv.trail
  have oldLongest : max zeros.2.toNat zeros.1.toNat = longestRun f (m * 64) := by
    rw [← toNat_max_uInt32]
    exact inv.longest
  unfold largestFreeStep
  by_cases full : bitmap = 0
  · have lead := (leadingRun_eq_64_iff agree).mpr full
    rw [if_pos (maxZerosGet_eq_uintSize_iff.mpr full)]
    simp only [lead, if_true] at scan
    rw [scan] at trailing longest
    have sixtyFour : uintSize.toUInt32.toNat = 64 := rfl
    have sum : (zeros.1 + uintSize.toUInt32).toNat = zeros.1.toNat + 64 := by
      rw [UInt32.toNat_add, sixtyFour]
      omega
    refine ⟨?_, ?_⟩
    · dsimp only
      rw [sum, oldTrail, trailing]
    · dsimp only
      rw [toNat_max_uInt32, sum, longest]
      omega
  · have lead : leadingRun (fun i => f (m * 64 + i)) 64 ≠ 64 := mt (leadingRun_eq_64_iff agree).mp full
    rw [if_neg (mt maxZerosGet_eq_uintSize_iff.mp full)]
    simp only [lead, if_false] at scan
    rw [scan] at trailing longest
    have ctz := portUtilCountTrailingZeros64_eq_leadingRun agree full
    have clz := portUtilCountLeadingZeros64_eq_trailingRun agree full
    have wordTrail := trailingRun_le_longestRun (f := fun i => f (m * 64 + i)) 64
    have crossing : (zeros.1 + portUtilCountTrailingZeros64 bitmap).toNat =
        zeros.1.toNat + leadingRun (fun i => f (m * 64 + i)) 64 := by
      rw [UInt32.toNat_add, ctz]
      omega
    refine ⟨?_, ?_⟩
    · dsimp only
      rw [clz, trailing]
    · dsimp only
      rw [toNat_max_uInt32, toNat_max_uInt32, toNat_max_uInt32, crossing, mapMax, clz, longest]
      omega

/-- The loop keeps the invariant from any word to the last. -/
theorem LargestFreeInv.loop (positive : 0 < regmap.totalFrames.toNat)
    (fits : longestRun regmap.freeInRegion (((pageMapidx (regmap.totalFrames - 1)).toNat + 1) * 64) < 2 ^ 32) :
    ∀ k mapIndex zeros, mapIndex.toNat + k = (pageMapidx (regmap.totalFrames - 1)).toNat + 1 →
      LargestFreeInv regmap mapIndex.toNat zeros →
      LargestFreeInv regmap ((pageMapidx (regmap.totalFrames - 1)).toNat + 1)
        (largestFreeLoop regmap (pageMapidx (regmap.totalFrames - 1)) k mapIndex zeros) := by
  have maxIndex := toNat_mapMaxIndex positive
  have bounded := regmap.totalFrames.toNat_lt
  intro k
  induction k with
  | zero =>
      intro mapIndex zeros last inv
      rw [← last]
      exact inv
  | succ k ih =>
      intro mapIndex zeros count inv
      have within : mapIndex ≤ pageMapidx (regmap.totalFrames - 1) := UInt64.le_iff_toNat_le.mpr (by omega)
      have next : (mapIndex + 1).toNat = mapIndex.toNat + 1 := by
        rw [UInt64.toNat_add, UInt64.toNat_one]
        omega
      rw [largestFreeLoop, if_pos within]
      apply ih (mapIndex + 1) _ (by omega)
      rw [next]
      exact inv.step positive (Nat.lt_of_le_of_lt (longestRun_mono (by omega)) fits) rfl within

/-- While the longest free run of the region is shorter than `2^32` frames,
`pmaRegmapGetLargestFree` is that run in bytes: runs across any number of
words are measured whole, and the frames past the end of a partial last word
count as used. -/
theorem pmaRegmapGetLargestFree_eq (positive : 0 < regmap.totalFrames.toNat) {len : Nat}
    (longest : IsLongest regmap.freeInRegion regmap.totalFrames.toNat len) (fits : len < 2 ^ 32) :
    pmaRegmapGetLargestFree regmap = len.toUInt64 <<< pmaPageShift := by
  have maxIndex := toNat_mapMaxIndex positive
  have covered : regmap.totalFrames.toNat ≤ ((pageMapidx (regmap.totalFrames - 1)).toNat + 1) * 64 := by
    omega
  have scanned : longestRun regmap.freeInRegion (((pageMapidx (regmap.totalFrames - 1)).toNat + 1) * 64) = len :=
    ((isLongest_longestRun _).of_false_from covered (fun i past => by
      simp [PmaRegmap.freeInRegion, Nat.not_lt.mpr past])).unique longest
  have inv := LargestFreeInv.loop positive (scanned ▸ fits) ((pageMapidx (regmap.totalFrames - 1)).toNat + 1) 0
    (0, 0) (by simp) largestFreeInv_zero
  have result := inv.longest
  rw [scanned] at result
  unfold pmaRegmapGetLargestFree
  dsimp only
  congr 1
  apply UInt64.toNat_inj.mp
  rw [UInt32.toNat_toUInt64, result]
  simp
  omega

end Region

def freeHundred : PmaRegmap := (pmaRegmapInit 100 ⟨0, 0, 0, 0, 0, 0⟩ false).1

theorem freeHundred_largestFree :
    0 < freeHundred.totalFrames.toNat ∧ IsLongest freeHundred.freeInRegion freeHundred.totalFrames.toNat 100 ∧
      100 < 2 ^ 32 ∧ pmaRegmapGetLargestFree freeHundred = (100 : Nat).toUInt64 <<< pmaPageShift :=
  have total : freeHundred.totalFrames.toNat = 100 := rfl
  have longest : IsLongest freeHundred.freeInRegion freeHundred.totalFrames.toNat 100 :=
    ⟨⟨0, by omega, fun t below => by revert t; decide⟩, fun _ _ fits _ => by omega⟩
  ⟨by decide, longest, by decide, pmaRegmapGetLargestFree_eq (by decide) longest (by decide)⟩

/-! ## A region of `2^32` free frames -/

theorem largestFreeLoop_of_zero {regmap : PmaRegmap} {mapMaxIndex : UInt64}
    (clear : ∀ mapIndex, largestFreeBitmap regmap mapMaxIndex mapIndex = 0) (small : mapMaxIndex.toNat < 2 ^ 63) :
    ∀ k mapIndex zeros, mapIndex.toNat + k = mapMaxIndex.toNat + 1 →
      (largestFreeLoop regmap mapMaxIndex k mapIndex zeros).1.toNat = (zeros.1.toNat + 64 * k) % 2 ^ 32 ∧
        (largestFreeLoop regmap mapMaxIndex k mapIndex zeros).2 = zeros.2 := by
  have allFree : (maxZerosGet 0).toUInt64 = uintSize := maxZerosGet_eq_uintSize_iff.mpr rfl
  have sixtyFour : uintSize.toUInt32.toNat = 64 := rfl
  intro k
  induction k with
  | zero =>
      intro mapIndex zeros _
      exact ⟨(Nat.mod_eq_of_lt zeros.1.toNat_lt).symm, rfl⟩
  | succ k ih =>
      intro mapIndex zeros count
      have within : mapIndex ≤ mapMaxIndex := UInt64.le_iff_toNat_le.mpr (by omega)
      have next : (mapIndex + 1).toNat = mapIndex.toNat + 1 := by
        rw [UInt64.toNat_add, UInt64.toNat_one]
        omega
      rw [largestFreeLoop, if_pos within, clear, largestFreeStep, if_pos allFree]
      obtain ⟨trail, region⟩ := ih (mapIndex + 1) _ (by omega)
      refine ⟨?_, region⟩
      rw [trail]
      dsimp only
      rw [UInt32.toNat_add, Nat.mod_add_mod, sixtyFour]
      congr 1
      omega

def allFreeRegmap : PmaRegmap :=
  (pmaRegmapInit 0x100000000 ⟨0, 0, 0, 0, 0, 0⟩ false).1

/-- Every frame of `allFreeRegmap` is free, so its longest free run is `2^32`
frames; the carried count reaches `2^32` and wraps to zero, and
`pmaRegmapGetLargestFree` answers zero bytes. -/
theorem pmaRegmapGetLargestFree_wraps :
    IsLongest allFreeRegmap.freeInRegion allFreeRegmap.totalFrames.toNat (2 ^ 32) ∧
      pmaRegmapGetLargestFree allFreeRegmap = 0 ∧ (2 ^ 32 : Nat).toUInt64 <<< pmaPageShift ≠ 0 := by
  have total : allFreeRegmap.totalFrames.toNat = 2 ^ 32 := rfl
  have free : ∀ i < 2 ^ 32, allFreeRegmap.freeInRegion i = true := fun i below => by
    have below' : i < 4294967296 := below
    simp [PmaRegmap.freeInRegion, PmaRegmap.frameFree, PmaRegmap.bit, bitAt, allFreeRegmap, pmaRegmapInit, below']
  have clear : ∀ mapIndex, largestFreeBitmap allFreeRegmap (pageMapidx (allFreeRegmap.totalFrames - 1)) mapIndex = 0 := by
    intro mapIndex
    have full : pageBitidx 4294967296 = 0 := by decide
    simp [largestFreeBitmap, allFreeRegmap, pmaRegmapInit, full]
  have maxIndex : (pageMapidx (allFreeRegmap.totalFrames - 1)).toNat = 2 ^ 26 - 1 := by decide
  obtain ⟨trail, region⟩ := largestFreeLoop_of_zero clear (by omega)
    ((pageMapidx (allFreeRegmap.totalFrames - 1)).toNat + 1) 0 (0, 0) (by simp)
  refine ⟨⟨⟨0, by omega, fun t below => by rw [Nat.zero_add]; exact free t (by omega)⟩, fun start m fits _ => by omega⟩,
    ?_, by decide⟩
  have zero : (largestFreeLoop allFreeRegmap (pageMapidx (allFreeRegmap.totalFrames - 1))
      ((pageMapidx (allFreeRegmap.totalFrames - 1)).toNat + 1) 0 (0, 0)).1 = 0 := by
    apply UInt32.toNat_inj.mp
    rw [trail, maxIndex]
    rfl
  unfold pmaRegmapGetLargestFree
  dsimp only
  rw [zero, region]
  rfl

end NvidiaGpu.Regmap
