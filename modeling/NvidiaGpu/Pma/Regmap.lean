import NvidiaGpu.Library.Bitmap
import NvidiaGpu.Library.Align
import Mathlib.Data.Nat.Bitwise
import NvidiaGpu.Status

set_option autoImplicit false

/-! The PMA region map (`regmap.c`): seven bit planes over the frames of a
region, two for the allocation state (`ALLOC_UNPIN`, `ALLOC_PIN`) and five for
the attributes, with the PMA-wide statistics it keeps up to date.  A frame's
status word has bit `i` set when plane `i` has the frame's bit set.

Signed `NvS64` results (`-1`, `EVICTABLE`, `ALL_FREE` and frame indices) are
kept as their 64-bit patterns. -/

namespace NvidiaGpu.Regmap

open Bitmap Align

/-! ## Constants of `map_defines.h` and `regmap.c` -/

def pmaPageShift : UInt64 := 16
def pma2mb : UInt64 := 2 * 1024 * 1024

def evictable : UInt64 := -2
def allFree : UInt64 := -3

def mapIdxAllocUnpin : Nat := 0
def mapIdxAllocPin : Nat := 1
def mapIdxEvicting : Nat := 2
def mapIdxScrubbing : Nat := 3
def mapIdxPersistent : Nat := 4
def mapIdxNumaReuse : Nat := 5
def mapIdxBlacklist : Nat := 6

def nvBit (bit : Nat) : UInt32 := 1 <<< bit.toUInt32

def stateFree : UInt32 := 0
def stateUnpin : UInt32 := nvBit mapIdxAllocUnpin
def statePin : UInt32 := nvBit mapIdxAllocPin
def stateMask : UInt32 := stateUnpin ||| statePin ||| stateFree

def attribEvicting : UInt32 := nvBit mapIdxEvicting
def attribScrubbing : UInt32 := nvBit mapIdxScrubbing
def attribPersistent : UInt32 := nvBit mapIdxPersistent
def attribNumaReuse : UInt32 := nvBit mapIdxNumaReuse
def attribBlacklist : UInt32 := nvBit mapIdxBlacklist

def pmaStateBitsPerPage : Nat := 2
def pmaAttribBitsPerPage : Nat := 5
def pmaBitsPerPage : Nat := pmaStateBitsPerPage + pmaAttribBitsPerPage

def uintSize : UInt64 := 64
def uintShift : UInt64 := 6

def pageBitidx (n : UInt64) : UInt64 := n &&& (uintSize - 1)

def pageMapidx (n : UInt64) : UInt64 := n >>> uintShift

def makeBitmask (n : UInt64) : UInt64 := 1 <<< n

def nvAlignDown (v gran : UInt64) : UInt64 := v &&& ~~~(v - v + gran - 1)

def nvAlignUp (v gran : UInt64) : UInt64 := (v + (gran - 1)) &&& ~~~(v - v + gran - 1)

def portUtilCountTrailingZeros64 (n : UInt64) : UInt32 :=
  if n = 0 then 64 else (lowestSetBit n).toUInt32

/-! ## State -/

structure PmaRegmap where
  totalFrames : UInt64
  mapLength : UInt64
  /-- `map[i][word]`: word `word` of bit plane `i`. -/
  map : Nat → Nat → UInt64
  frameEvictionsInProcess : UInt64
  bProtected : Bool

structure PmaStats where
  num2mbPages : UInt64
  numFreeFrames : UInt64
  numFree2mbPages : UInt64
  num2mbPagesProtected : UInt64
  numFreeFramesProtected : UInt64
  numFree2mbPagesProtected : UInt64
  deriving DecidableEq, Repr

/-- `pmaStatsUpdateState` (`phys_mem_allocator_util.c`): one counter of free
pages, moved by `numPages` when the state bits go from free to not free or
back. -/
def pmaStatsUpdateState (numFree numPages : UInt64) (oldState newState : UInt32) : UInt64 :=
  let oldState := oldState &&& stateMask
  let newState := newState &&& stateMask
  if oldState == stateFree && newState != stateFree then numFree - numPages
  else if oldState != stateFree && newState == stateFree then numFree + numPages
  else numFree

/-! ## Reading the bitmaps -/

/-- The loop over the words strictly between the first and the last word of
`_checkOne`: the first set bit of the first nonzero word among `count` words
from `mapIdx`. -/
def checkWords (bits : Nat → UInt64) (mapIdx : UInt64) : Nat → Option UInt64
  | 0 => none
  | count + 1 =>
      if bits mapIdx.toNat != 0 then
        some ((mapIdx <<< uintShift) + (portUtilCountTrailingZeros64 (bits mapIdx.toNat)).toUInt64)
      else checkWords bits (mapIdx + 1) count

def checkOne (bits : Nat → UInt64) (start endFrame : UInt64) : UInt64 :=
  let startMapIdx := pageMapidx start
  let startBitIdx := pageBitidx start
  let endMapIdx := pageMapidx endFrame
  let endBitIdx := pageBitidx endFrame
  if startMapIdx < endMapIdx then
    match checkWords bits (startMapIdx + 1) (endMapIdx - 1 - startMapIdx).toNat with
    | some found => found
    | none =>
        let endMask := allOnes64 >>> (uintSize - endBitIdx - 1)
        if bits endMapIdx.toNat &&& endMask == 0 then
          let startMask := allOnes64 <<< startBitIdx
          if bits startMapIdx.toNat &&& startMask == 0 then -1
          else
            let handle := bits startMapIdx.toNat &&& startMask
            start - startBitIdx + (portUtilCountTrailingZeros64 handle).toUInt64
        else
          let handle := bits endMapIdx.toNat &&& endMask
          endFrame - endBitIdx + (portUtilCountTrailingZeros64 handle).toUInt64
  else
    let startMask := allOnes64 <<< startBitIdx
    let endMask := allOnes64 >>> (uintSize - endBitIdx - 1)
    let handle := startMask &&& endMask
    if handle &&& bits startMapIdx.toNat == 0 then -1
    else start - startBitIdx + (portUtilCountTrailingZeros64 (handle &&& bits startMapIdx.toNat)).toUInt64

/-- `pmaRegmapRead`: bit `i` of the result is frame `frameNum`'s bit in plane
`i`, for the two state planes and, with `readAttrib`, the five attribute
planes. -/
def pmaRegmapRead (regmap : PmaRegmap) (frameNum : UInt64) (readAttrib : Bool) : UInt32 :=
  let mapIndex := pageMapidx frameNum
  let mapOffset := pageBitidx frameNum
  let bitReadCount := if readAttrib then pmaStateBitsPerPage + pmaAttribBitsPerPage else pmaStateBitsPerPage
  let mask := makeBitmask mapOffset
  let val := (List.range bitReadCount).foldl
    (fun val i => val ||| (((regmap.map i mapIndex.toNat &&& mask) >>> mapOffset) <<< i.toUInt64)) (0 : UInt64)
  val.toUInt32

/-- `_pmaRegmapAllFree2mb`: the 2MB group of 32 frames holding `frameNum` lies
below the last frame and has no frame allocated, pinned or not. -/
def pmaRegmapAllFree2mb (regmap : PmaRegmap) (frameNum : UInt64) : Bool :=
  let baseFrame := nvAlignDown (frameNum <<< pmaPageShift) pma2mb >>> pmaPageShift
  let numFrames : UInt32 := (pma2mb >>> pmaPageShift).toUInt32
  if baseFrame + numFrames.toUInt64 ≥ regmap.totalFrames then false
  else if checkOne (regmap.map mapIdxAllocPin) baseFrame (baseFrame + numFrames.toUInt64 - 1) != -1 then false
  else if checkOne (regmap.map mapIdxAllocUnpin) baseFrame (baseFrame + numFrames.toUInt64 - 1) != -1 then false
  else true

/-! ## Initialisation and state changes -/

/-- `pmaRegmapInit`: all planes clear, every frame free, and the PMA-wide
counters grown by the region's frames and complete 2MB groups.  The allocation
of the planes is taken to succeed. -/
def pmaRegmapInit (numFrames : UInt64) (stats : PmaStats) (bProtected : Bool) : PmaRegmap × PmaStats :=
  let num2mbPages := numFrames / (pma2mb >>> pmaPageShift)
  let stats := { stats with
    numFreeFrames := stats.numFreeFrames + numFrames
    num2mbPages := stats.num2mbPages + num2mbPages
    numFree2mbPages := stats.numFree2mbPages + num2mbPages }
  let stats := if bProtected then
      { stats with
        numFreeFramesProtected := stats.numFreeFramesProtected + numFrames
        num2mbPagesProtected := stats.num2mbPagesProtected + num2mbPages
        numFree2mbPagesProtected := stats.numFree2mbPagesProtected + num2mbPages }
    else stats
  ({ totalFrames := numFrames
     mapLength := pageMapidx (numFrames - 1) + 1
     map := fun _ _ => 0
     frameEvictionsInProcess := 0
     bProtected := bProtected }, stats)

/-- One pass of the write loop of the change-state functions: frame
`frameNum`'s bit in plane `i` becomes bit `i` of `newState`. -/
def PmaRegmap.writePlane (regmap : PmaRegmap) (frameNum : UInt64) (newState : UInt32) (i : Nat) : PmaRegmap :=
  let mapIndex := pageMapidx frameNum
  let mapOffset := pageBitidx frameNum
  let mask := makeBitmask mapOffset
  let newVal := ((newState &&& (1 <<< i.toUInt32)) >>> i.toUInt32).toUInt64 <<< mapOffset
  let bits := regmap.map i mapIndex.toNat
  { regmap with map := Function.update regmap.map i (Function.update (regmap.map i) mapIndex.toNat (setBits bits mask newVal)) }

/-- The statistics both change-state functions update after the write: the free
frames from `oldState` to `newState`, and the free 2MB groups when
`update2mbTracking` holds. -/
def PmaStats.afterChange (stats : PmaStats) (bProtected : Bool) (oldState newState : UInt32)
    (update2mbTracking : Bool) : PmaStats :=
  let stats := { stats with numFreeFrames := pmaStatsUpdateState stats.numFreeFrames 1 oldState newState }
  let stats := if bProtected then
      { stats with numFreeFramesProtected := pmaStatsUpdateState stats.numFreeFramesProtected 1 oldState newState }
    else stats
  if update2mbTracking then
    let stats := { stats with numFree2mbPages := pmaStatsUpdateState stats.numFree2mbPages 1 oldState newState }
    if bProtected then
      { stats with numFree2mbPagesProtected := pmaStatsUpdateState stats.numFree2mbPagesProtected 1 oldState newState }
    else stats
  else stats

section AfterChange

variable (stats : PmaStats) (bProtected : Bool) (oldState newState : UInt32) (update2mbTracking : Bool)

@[simp] theorem num2mbPages_afterChange :
    (stats.afterChange bProtected oldState newState update2mbTracking).num2mbPages = stats.num2mbPages := by
  cases bProtected <;> cases update2mbTracking <;> rfl

@[simp] theorem num2mbPagesProtected_afterChange :
    (stats.afterChange bProtected oldState newState update2mbTracking).num2mbPagesProtected =
      stats.num2mbPagesProtected := by
  cases bProtected <;> cases update2mbTracking <;> rfl

@[simp] theorem numFreeFrames_afterChange :
    (stats.afterChange bProtected oldState newState update2mbTracking).numFreeFrames =
      pmaStatsUpdateState stats.numFreeFrames 1 oldState newState := by
  cases bProtected <;> cases update2mbTracking <;> rfl

@[simp] theorem numFreeFramesProtected_afterChange :
    (stats.afterChange bProtected oldState newState update2mbTracking).numFreeFramesProtected =
      if bProtected then pmaStatsUpdateState stats.numFreeFramesProtected 1 oldState newState
      else stats.numFreeFramesProtected := by
  cases bProtected <;> cases update2mbTracking <;> rfl

@[simp] theorem numFree2mbPages_afterChange :
    (stats.afterChange bProtected oldState newState update2mbTracking).numFree2mbPages =
      if update2mbTracking then pmaStatsUpdateState stats.numFree2mbPages 1 oldState newState
      else stats.numFree2mbPages := by
  cases bProtected <;> cases update2mbTracking <;> rfl

@[simp] theorem numFree2mbPagesProtected_afterChange :
    (stats.afterChange bProtected oldState newState update2mbTracking).numFree2mbPagesProtected =
      if bProtected then
        (if update2mbTracking then pmaStatsUpdateState stats.numFree2mbPagesProtected 1 oldState newState
        else stats.numFree2mbPagesProtected)
      else stats.numFree2mbPagesProtected := by
  cases bProtected <;> cases update2mbTracking <;> rfl

end AfterChange

/-- `pmaRegmapChangeStateAttribEx`: write the planes selected by
`newStateMask`, then update the statistics from the status read back. -/
def pmaRegmapChangeStateAttribEx (regmap : PmaRegmap) (stats : PmaStats) (frameNum : UInt64)
    (newState newStateMask : UInt32) : PmaRegmap × PmaStats :=
  let bitWriteCount := pmaStateBitsPerPage + pmaAttribBitsPerPage
  let oldState := pmaRegmapRead regmap frameNum true
  let bUpdate2mbTracking := (newState &&& stateMask) != stateFree && pmaRegmapAllFree2mb regmap frameNum
  let written := (List.range bitWriteCount).foldl
    (fun written i => if nvBit i &&& newStateMask != 0 then written.writePlane frameNum newState i else written) regmap
  let updatedState := pmaRegmapRead written frameNum true
  (written, stats.afterChange regmap.bProtected oldState updatedState
    (bUpdate2mbTracking || ((oldState &&& stateMask) != stateFree && pmaRegmapAllFree2mb written frameNum)))

/-- `pmaRegmapChangeStateAttrib`: write the two state planes, and the five
attribute planes with `writeAttrib`, then update the statistics from
`newState`. -/
def pmaRegmapChangeStateAttrib (regmap : PmaRegmap) (stats : PmaStats) (frameNum : UInt64)
    (newState : UInt32) (writeAttrib : Bool) : PmaRegmap × PmaStats :=
  let bitWriteCount := if writeAttrib then pmaStateBitsPerPage + pmaAttribBitsPerPage else pmaStateBitsPerPage
  let oldState := pmaRegmapRead regmap frameNum true
  let bUpdate2mbTracking := (newState &&& stateMask) != stateFree && pmaRegmapAllFree2mb regmap frameNum
  let written := (List.range bitWriteCount).foldl (fun written i => written.writePlane frameNum newState i) regmap
  (written, stats.afterChange regmap.bProtected oldState newState
    (bUpdate2mbTracking || ((oldState &&& stateMask) != stateFree && pmaRegmapAllFree2mb written frameNum)))

def pmaRegmapChangeState (regmap : PmaRegmap) (stats : PmaStats) (frameNum : UInt64) (newState : UInt32) :
    PmaRegmap × PmaStats :=
  pmaRegmapChangeStateAttrib regmap stats frameNum newState false

/-- The loop of `pmaRegmapChangePageStateAttrib`, from `frame` while below
`limit`, for at most `fuel` frames. -/
def changePageLoop (newState : UInt32) (writeAttrib : Bool) (limit : UInt64) :
    PmaRegmap → PmaStats → UInt64 → Nat → PmaRegmap × PmaStats
  | regmap, stats, _, 0 => (regmap, stats)
  | regmap, stats, frame, fuel + 1 =>
      if frame < limit then
        let changed := pmaRegmapChangeStateAttrib regmap stats frame newState writeAttrib
        changePageLoop newState writeAttrib limit changed.1 changed.2 (frame + 1) fuel
      else (regmap, stats)

def pmaRegmapChangePageStateAttrib (regmap : PmaRegmap) (stats : PmaStats) (startFrame pageSize : UInt64)
    (newState : UInt32) (writeAttrib : Bool) : PmaRegmap × PmaStats :=
  let framesPerPage : UInt32 := (pageSize >>> pmaPageShift).toUInt32
  changePageLoop newState writeAttrib (startFrame + framesPerPage.toUInt64) regmap stats startFrame
    framesPerPage.toNat

/-! ## Single frames -/

theorem toNat_pageMapidx (n : UInt64) : (pageMapidx n).toNat = n.toNat / 64 := by
  simp [pageMapidx, uintShift, UInt64.toNat_shiftRight, Nat.shiftRight_eq_div_pow]

theorem toNat_pageBitidx (n : UInt64) : (pageBitidx n).toNat = n.toNat % 64 := by
  simp [pageBitidx, uintSize]
  exact Nat.and_two_pow_sub_one_eq_mod _ 6

def PmaRegmap.bit (regmap : PmaRegmap) (i frameNum : Nat) : Bool :=
  bitAt (regmap.map i) frameNum

theorem getLsbD_readTerm (word offset : UInt64) (small : offset.toNat < 64) (i j : Nat) (plane : i < 64) :
    (((word &&& makeBitmask offset) >>> offset) <<< i.toUInt64).toBitVec.getLsbD j =
      (decide (j = i) && word.toBitVec.getLsbD offset.toNat) := by
  simp [makeBitmask, Nat.mod_eq_of_lt small, Nat.mod_eq_of_lt plane]
  rcases lt_trichotomy j i with lt | same | gt
  · simp [lt, Nat.ne_of_lt lt]
  · subst same
    simp only [decide_true, Bool.true_and]
    simp [plane, small]
  · simp [Nat.ne_of_gt gt, show j - i ≠ 0 by omega]

theorem getLsbD_readLoop (regmap : PmaRegmap) (frameNum : UInt64) (planes : List Nat)
    (small : ∀ i ∈ planes, i < 64) (init : UInt64) (j : Nat) :
    (planes.foldl (fun val i => val ||| (((regmap.map i (pageMapidx frameNum).toNat &&&
        makeBitmask (pageBitidx frameNum)) >>> pageBitidx frameNum) <<< i.toUInt64)) init).toBitVec.getLsbD j =
      (init.toBitVec.getLsbD j || (decide (j ∈ planes) && regmap.bit j frameNum.toNat)) := by
  induction planes generalizing init with
  | nil => simp
  | cons i planes ih =>
      rw [List.foldl_cons, ih (fun i member => small i (List.mem_cons_of_mem _ member))]
      have offset : (pageBitidx frameNum).toNat < 64 := by rw [toNat_pageBitidx]; omega
      rw [UInt64.toBitVec_or, BitVec.getLsbD_or, getLsbD_readTerm _ _ offset _ _ (small i (by simp))]
      by_cases same : j = i
      · subst same
        simp [PmaRegmap.bit, bitAt, toNat_pageMapidx, toNat_pageBitidx]
        tauto
      · simp [same]

theorem getLsbD_pmaRegmapRead (regmap : PmaRegmap) (frameNum : UInt64) (readAttrib : Bool) (j : Nat) :
    (pmaRegmapRead regmap frameNum readAttrib).toBitVec.getLsbD j =
      (decide (j < if readAttrib then pmaBitsPerPage else pmaStateBitsPerPage) && regmap.bit j frameNum.toNat) := by
  unfold pmaRegmapRead
  simp only [UInt64.toBitVec_toUInt32, BitVec.getLsbD_setWidth]
  rw [getLsbD_readLoop _ _ _ (fun i member => by
    simp only [List.mem_range] at member
    split at member <;> simp [pmaStateBitsPerPage, pmaAttribBitsPerPage] at member <;> omega)]
  cases readAttrib <;> by_cases small : j < 32 <;>
    simp [small, pmaBitsPerPage, pmaStateBitsPerPage, pmaAttribBitsPerPage] <;> omega

theorem stateMask_eq : stateMask = 3 := by decide

theorem and_stateMask_eq (x : UInt32) :
    (x &&& stateMask == stateFree) = (!x.toBitVec.getLsbD 0 && !x.toBitVec.getLsbD 1) := by
  rw [stateMask_eq, stateFree]
  apply Bool.eq_iff_iff.mpr
  simp only [beq_iff_eq, Bool.and_eq_true, Bool.not_eq_true']
  constructor
  · intro cleared
    have low := congrArg (fun y : UInt32 => y.toBitVec.getLsbD 0) cleared
    have high := congrArg (fun y : UInt32 => y.toBitVec.getLsbD 1) cleared
    simp at low high
    exact ⟨low, high⟩
  · rintro ⟨low, high⟩
    apply UInt32.toBitVec_inj.mp
    apply BitVec.eq_of_getLsbD_eq
    intro j lt
    rcases j with _ | _ | j
    · simpa using low
    · simpa using high
    · have above : 3 < 2 ^ (j + 1 + 1) := by
        rw [Nat.pow_succ, Nat.pow_succ]
        have := Nat.one_le_two_pow (n := j)
        omega
      simp [BitVec.getLsbD_ofNat, Nat.testBit_eq_false_of_lt above]

def PmaRegmap.frameFree (regmap : PmaRegmap) (frameNum : Nat) : Bool :=
  !regmap.bit mapIdxAllocUnpin frameNum && !regmap.bit mapIdxAllocPin frameNum

theorem read_and_stateMask (regmap : PmaRegmap) (frameNum : UInt64) (readAttrib : Bool) :
    (pmaRegmapRead regmap frameNum readAttrib &&& stateMask == stateFree) = regmap.frameFree frameNum.toNat := by
  rw [and_stateMask_eq, getLsbD_pmaRegmapRead, getLsbD_pmaRegmapRead]
  cases readAttrib <;>
    simp [PmaRegmap.frameFree, mapIdxAllocUnpin, mapIdxAllocPin, pmaBitsPerPage, pmaStateBitsPerPage,
      pmaAttribBitsPerPage]

theorem getLsbD_makeBitmask {offset : UInt64} (small : offset.toNat < 64) (position : Nat) :
    (makeBitmask offset).toBitVec.getLsbD position = decide (position = offset.toNat) := by
  simp [makeBitmask, Nat.mod_eq_of_lt small]
  by_cases same : position = offset.toNat
  · simp [same, small]
  · simp [same]
    omega

theorem getLsbD_stateBit (newState : UInt32) {i : Nat} (plane : i < 32) (position : Nat) :
    ((newState &&& 1 <<< i.toUInt32) >>> i.toUInt32).toBitVec.getLsbD position =
      (decide (position = 0) && newState.toBitVec.getLsbD i) := by
  have small : i.toUInt32.toNat = i := by simp; omega
  rw [UInt32.toBitVec_shiftRight, BitVec.ushiftRight_eq', BitVec.getLsbD_ushiftRight, UInt32.toBitVec_and,
    BitVec.getLsbD_and, UInt32.toBitVec_shiftLeft, BitVec.shiftLeft_eq', BitVec.getLsbD_shiftLeft]
  simp only [small, BitVec.toNat_umod, UInt32.toNat_toBitVec]
  by_cases zero : position = 0
  · subst zero
    simp [plane, Nat.mod_eq_of_lt plane]
  · simp [zero]

theorem getLsbD_newVal (newState : UInt32) {i : Nat} (plane : i < 32) {offset : UInt64} (small : offset.toNat < 64)
    (position : Nat) :
    (((newState &&& 1 <<< i.toUInt32) >>> i.toUInt32).toUInt64 <<< offset).toBitVec.getLsbD position =
      (decide (position = offset.toNat) && newState.toBitVec.getLsbD i) := by
  rw [UInt64.toBitVec_shiftLeft, BitVec.shiftLeft_eq', BitVec.getLsbD_shiftLeft, UInt32.toBitVec_toUInt64,
    BitVec.getLsbD_setWidth, getLsbD_stateBit newState plane]
  simp only [BitVec.toNat_umod, UInt64.toNat_toBitVec]
  by_cases same : position = offset.toNat
  · subst same
    simp [small, Nat.mod_eq_of_lt small]
  · simp [same]
    omega

theorem bit_writePlane (regmap : PmaRegmap) (frameNum : UInt64) (newState : UInt32) {i : Nat} (plane : i < 32)
    (j frame : Nat) :
    (regmap.writePlane frameNum newState i).bit j frame =
      if j = i ∧ frame = frameNum.toNat then newState.toBitVec.getLsbD i else regmap.bit j frame := by
  have offset : (pageBitidx frameNum).toNat < 64 := by rw [toNat_pageBitidx]; omega
  simp only [PmaRegmap.writePlane, PmaRegmap.bit, bitAt]
  by_cases samePlane : j = i
  · subst samePlane
    rw [Function.update_self]
    by_cases sameWord : frame / 64 = frameNum.toNat / 64
    · rw [← toNat_pageMapidx] at sameWord
      rw [sameWord, Function.update_self, getLsbD_setBits, getLsbD_makeBitmask offset,
        getLsbD_newVal newState plane offset, toNat_pageBitidx]
      by_cases sameFrame : frame = frameNum.toNat
      · subst sameFrame
        simp
      · have otherBit : frame % 64 ≠ frameNum.toNat % 64 := fun same => by
          rw [toNat_pageMapidx] at sameWord
          omega
        simp [otherBit, sameFrame]
    · have otherFrame : frame ≠ frameNum.toNat := fun same => sameWord (by rw [same])
      rw [Function.update_of_ne (by rw [toNat_pageMapidx]; exact sameWord)]
      simp [otherFrame]
  · rw [Function.update_of_ne samePlane]
    simp [samePlane]

/-! ## `_checkOne` -/

theorem toNat_portUtilCountTrailingZeros64 {word : UInt64} (nonzero : word ≠ 0) :
    (portUtilCountTrailingZeros64 word).toUInt64.toNat = lowestSetBit word := by
  have small := lowestSetBit_lt nonzero
  simp [portUtilCountTrailingZeros64, nonzero]
  omega

theorem toNat_endShift {endBitIdx : UInt64} (small : endBitIdx.toNat < 64) :
    (uintSize - endBitIdx - 1).toNat = 63 - endBitIdx.toNat := by
  have first : (uintSize - endBitIdx).toNat = 64 - endBitIdx.toNat := by
    rw [UInt64.toNat_sub_of_le _ _ (by simp [UInt64.le_iff_toNat_le, uintSize]; omega)]
    simp [uintSize]
  rw [UInt64.toNat_sub_of_le _ _ (by simp [UInt64.le_iff_toNat_le, first]; omega), first]
  simp
  omega

theorem getLsbD_startMask {startBitIdx : UInt64} (small : startBitIdx.toNat < 64) :
    ∀ position < 64, (allOnes64 <<< startBitIdx).toBitVec.getLsbD position =
      decide (startBitIdx.toNat ≤ position ∧ position ≤ 63) := by
  intro position lt
  rw [getLsbD_allOnes_shiftLeft small]
  simp [lt]
  omega

theorem getLsbD_endMask {endBitIdx : UInt64} (small : endBitIdx.toNat < 64) :
    ∀ position < 64, (allOnes64 >>> (uintSize - endBitIdx - 1)).toBitVec.getLsbD position =
      decide (0 ≤ position ∧ position ≤ endBitIdx.toNat) := by
  intro position lt
  rw [getLsbD_allOnes_shiftRight (by rw [toNat_endShift small]; omega), toNat_endShift small]
  simp
  omega

theorem checkWords_some {bits : Nat → UInt64} {mapIdx : UInt64} {count : Nat} {found : UInt64}
    (bound : mapIdx.toNat + count < 2 ^ 58) (result : checkWords bits mapIdx count = some found) :
    mapIdx.toNat * 64 ≤ found.toNat ∧ found.toNat < (mapIdx.toNat + count) * 64 ∧ bitAt bits found.toNat = true := by
  induction count generalizing mapIdx with
  | zero => cases result
  | succ count ih =>
      simp only [checkWords] at result
      split at result
      · rename_i nonzero
        simp only [bne_iff_ne, ne_eq] at nonzero
        cases result
        have low := lowestSetBit_lt nonzero
        have shifted : (mapIdx <<< uintShift).toNat = mapIdx.toNat * 64 := by
          simp [uintShift, UInt64.toNat_shiftLeft, Nat.shiftLeft_eq]
          omega
        have sum : ((mapIdx <<< uintShift) + (portUtilCountTrailingZeros64 (bits mapIdx.toNat)).toUInt64).toNat =
            mapIdx.toNat * 64 + lowestSetBit (bits mapIdx.toNat) := by
          rw [UInt64.toNat_add, shifted, toNat_portUtilCountTrailingZeros64 nonzero]
          omega
        rw [sum]
        refine ⟨by omega, by omega, ?_⟩
        have word : (mapIdx.toNat * 64 + lowestSetBit (bits mapIdx.toNat)) / 64 = mapIdx.toNat := by omega
        have bit : (mapIdx.toNat * 64 + lowestSetBit (bits mapIdx.toNat)) % 64 = lowestSetBit (bits mapIdx.toNat) := by
          omega
        rw [bitAt, word, bit]
        exact getLsbD_lowestSetBit nonzero
      · have next : (mapIdx + 1).toNat = mapIdx.toNat + 1 := by
          rw [UInt64.toNat_add]
          simp
          omega
        have found := ih (by rw [next]; omega) result
        rw [next] at found
        exact ⟨by omega, by omega, found.2.2⟩

theorem checkWords_none {bits : Nat → UInt64} {mapIdx : UInt64} {count : Nat}
    (bound : mapIdx.toNat + count < 2 ^ 58) (result : checkWords bits mapIdx count = none) :
    ∀ frame, mapIdx.toNat * 64 ≤ frame → frame < (mapIdx.toNat + count) * 64 → bitAt bits frame = false := by
  induction count generalizing mapIdx with
  | zero => intro frame above below; omega
  | succ count ih =>
      simp only [checkWords] at result
      split at result
      · cases result
      · rename_i zero
        simp only [bne_iff_ne, ne_eq, Decidable.not_not] at zero
        have next : (mapIdx + 1).toNat = mapIdx.toNat + 1 := by
          rw [UInt64.toNat_add]
          simp
          omega
        intro frame above below
        by_cases here : frame / 64 = mapIdx.toNat
        · rw [bitAt, here, zero]
          simp
        · exact ih (by rw [next]; omega) result frame (by rw [next]; omega) (by rw [next]; omega)

theorem toNat_inWord {frame offset : UInt64} (small : frame.toNat < 2 ^ 63) (lt : offset.toNat < 64) :
    (frame - pageBitidx frame + offset).toNat = frame.toNat / 64 * 64 + offset.toNat := by
  have bitIdx := toNat_pageBitidx frame
  have sub : (frame - pageBitidx frame).toNat = frame.toNat / 64 * 64 := by
    rw [UInt64.toNat_sub_of_le _ _ (by simp [UInt64.le_iff_toNat_le, bitIdx]; omega), bitIdx]
    omega
  rw [UInt64.toNat_add, sub]
  omega

theorem found_inWord (bits : Nat → UInt64) (frame : UInt64) {mask : UInt64} {low high : Nat} (small : frame.toNat < 2 ^ 63)
    (masked : ∀ position < 64, mask.toBitVec.getLsbD position = decide (low ≤ position ∧ position ≤ high))
    (nonzero : bits (frame.toNat / 64) &&& mask ≠ 0) :
    (frame - pageBitidx frame + (portUtilCountTrailingZeros64 (bits (frame.toNat / 64) &&& mask)).toUInt64).toNat =
        frame.toNat / 64 * 64 + lowestSetBit (bits (frame.toNat / 64) &&& mask) ∧
      low ≤ lowestSetBit (bits (frame.toNat / 64) &&& mask) ∧ lowestSetBit (bits (frame.toNat / 64) &&& mask) ≤ high ∧
      bitAt bits (frame.toNat / 64 * 64 + lowestSetBit (bits (frame.toNat / 64) &&& mask)) = true := by
  obtain ⟨above, below, lt, set⟩ := lowestSetBit_masked masked nonzero
  have offset := toNat_portUtilCountTrailingZeros64 nonzero
  refine ⟨by rw [toNat_inWord small (by omega), offset], above, below, ?_⟩
  rw [bitAt_inWord bits _ _ lt]
  exact set

theorem checkOne_spec (bits : Nat → UInt64) {start endFrame : UInt64} (ordered : start.toNat ≤ endFrame.toNat)
    (small : endFrame.toNat < 2 ^ 63) :
    (checkOne bits start endFrame = -1 ∧
        ∀ frame, start.toNat ≤ frame → frame ≤ endFrame.toNat → bitAt bits frame = false) ∨
      (start.toNat ≤ (checkOne bits start endFrame).toNat ∧ (checkOne bits start endFrame).toNat ≤ endFrame.toNat ∧
        bitAt bits (checkOne bits start endFrame).toNat = true) := by
  have startBit := toNat_pageBitidx start
  have endBit := toNat_pageBitidx endFrame
  have startWord := toNat_pageMapidx start
  have endWord := toNat_pageMapidx endFrame
  have startSmall : (pageBitidx start).toNat < 64 := by omega
  have endSmall : (pageBitidx endFrame).toNat < 64 := by omega
  have startMask := getLsbD_startMask startSmall
  have endMask := getLsbD_endMask endSmall
  unfold checkOne
  simp only []
  split
  · rename_i several
    rw [UInt64.lt_iff_toNat_lt, startWord, endWord] at several
    have count : (pageMapidx endFrame - 1 - pageMapidx start).toNat = endFrame.toNat / 64 - 1 - start.toNat / 64 := by
      have less : (pageMapidx endFrame - 1).toNat = endFrame.toNat / 64 - 1 := by
        rw [UInt64.toNat_sub_of_le _ _ (by simp [UInt64.le_iff_toNat_le, endWord]; omega), endWord]
        simp
      rw [UInt64.toNat_sub_of_le _ _ (by simp [UInt64.le_iff_toNat_le, less, startWord]; omega), less, startWord]
    have first : (pageMapidx start + 1).toNat = start.toNat / 64 + 1 := by
      rw [UInt64.toNat_add, startWord]
      simp
      omega
    have bound : (pageMapidx start + 1).toNat + (pageMapidx endFrame - 1 - pageMapidx start).toNat < 2 ^ 58 := by
      rw [first, count]
      omega
    split
    · rename_i found result
      have inside := checkWords_some bound result
      rw [first, count] at inside
      right
      exact ⟨by omega, by omega, inside.2.2⟩
    · rename_i result
      have middle := checkWords_none bound result
      rw [first, count] at middle
      rw [startWord, endWord]
      split
      · rename_i endZero
        have endClear := (masked_eq_zero_iff endMask).mp (by simpa using endZero)
        split
        · rename_i startZero
          have startClear := (masked_eq_zero_iff startMask).mp (by simpa using startZero)
          left
          refine ⟨rfl, fun frame above below => ?_⟩
          have position := Nat.mod_lt frame (show 0 < 64 by decide)
          have split := Nat.div_add_mod frame 64
          by_cases inStart : frame / 64 = start.toNat / 64
          · have clear := startClear (frame % 64) (by omega) (by omega) position
            rw [bitAt, inStart]
            exact clear
          · by_cases inEnd : frame / 64 = endFrame.toNat / 64
            · have clear := endClear (frame % 64) (by omega) (by omega) position
              rw [bitAt, inEnd]
              exact clear
            · exact middle frame (by omega) (by omega)
        · rename_i startNonzero
          have found := found_inWord bits start (by omega) startMask (by simpa using startNonzero)
          right
          rw [found.1]
          exact ⟨by omega, by omega, found.2.2.2⟩
      · rename_i endNonzero
        have found := found_inWord bits endFrame small endMask (by simpa using endNonzero)
        right
        rw [found.1]
        exact ⟨by omega, by omega, found.2.2.2⟩
  · rename_i one
    rw [UInt64.lt_iff_toNat_lt, startWord, endWord] at one
    have sameWord : start.toNat / 64 = endFrame.toNat / 64 := by omega
    have handleMask : ∀ position < 64,
        ((allOnes64 <<< pageBitidx start) &&& (allOnes64 >>> (uintSize - pageBitidx endFrame - 1))).toBitVec.getLsbD
          position = decide ((pageBitidx start).toNat ≤ position ∧ position ≤ (pageBitidx endFrame).toNat) := by
      intro position lt
      rw [UInt64.toBitVec_and, BitVec.getLsbD_and, startMask position lt, endMask position lt]
      by_cases above : (pageBitidx start).toNat ≤ position
      · by_cases below : position ≤ (pageBitidx endFrame).toNat
        · simp [above, below]
          omega
        · simp [above, below]
      · simp [above]
    rw [startWord]
    split
    · rename_i zero
      have clear := (masked_eq_zero_iff handleMask).mp (by rw [UInt64.and_comm]; simpa using zero)
      left
      refine ⟨rfl, fun frame above below => ?_⟩
      have position := Nat.mod_lt frame (show 0 < 64 by decide)
      have inWord : frame / 64 = start.toNat / 64 := by omega
      rw [bitAt, inWord]
      exact clear (frame % 64) (by omega) (by omega) position
    · rename_i nonzero
      rw [UInt64.and_comm]
      have found := found_inWord bits start (by omega) handleMask (by rw [UInt64.and_comm]; simpa using nonzero)
      right
      rw [found.1]
      exact ⟨by omega, by omega, found.2.2.2⟩

theorem checkOne_eq_neg_one_iff (bits : Nat → UInt64) {start endFrame : UInt64} (ordered : start.toNat ≤ endFrame.toNat)
    (small : endFrame.toNat < 2 ^ 63) :
    checkOne bits start endFrame = -1 ↔ ∀ frame, start.toNat ≤ frame → frame ≤ endFrame.toNat → bitAt bits frame = false := by
  rcases checkOne_spec bits ordered small with ⟨none, clear⟩ | ⟨above, below, set⟩
  · exact ⟨fun _ => clear, fun _ => none⟩
  · constructor
    · intro none
      rw [none] at below
      simp at below
      omega
    · intro clear
      have := clear _ above below
      rw [set] at this
      cases this

/-- On frames below `2 ^ 63`, which the `NvS64` result shows as themselves,
`_checkOne` answers `-1` exactly for a clear range and otherwise a set frame of
the range. -/
theorem checkOne_correct (bits : Nat → UInt64) {start endFrame : UInt64} (ordered : start.toNat ≤ endFrame.toNat)
    (small : endFrame.toNat < 2 ^ 63) :
    (checkOne bits start endFrame = -1 ↔
        ∀ frame, start.toNat ≤ frame → frame ≤ endFrame.toNat → bitAt bits frame = false) ∧
      (checkOne bits start endFrame ≠ -1 →
        start.toNat ≤ (checkOne bits start endFrame).toNat ∧ (checkOne bits start endFrame).toNat ≤ endFrame.toNat ∧
          bitAt bits (checkOne bits start endFrame).toNat = true) := by
  refine ⟨checkOne_eq_neg_one_iff bits ordered small, fun found => ?_⟩
  rcases checkOne_spec bits ordered small with ⟨clear, -⟩ | set
  · exact absurd clear found
  · exact set

theorem checkOne_correct_sixteen :
    (2 : UInt64).toNat ≤ (70 : UInt64).toNat ∧ (70 : UInt64).toNat < 2 ^ 63 ∧
      (checkOne (fun _ => 16) 2 70 = -1 ↔
        ∀ frame, (2 : UInt64).toNat ≤ frame → frame ≤ (70 : UInt64).toNat → bitAt (fun _ => 16) frame = false) ∧
      (checkOne (fun _ => 16) 2 70 ≠ -1 →
        (2 : UInt64).toNat ≤ (checkOne (fun _ => 16) 2 70).toNat ∧ (checkOne (fun _ => 16) 2 70).toNat ≤ (70 : UInt64).toNat ∧
          bitAt (fun _ => 16) (checkOne (fun _ => 16) 2 70).toNat = true) :=
  ⟨by decide, by decide, checkOne_correct (fun _ => 16) (by decide) (by decide)⟩

/-! ## 2MB groups -/

def PmaRegmap.groupFree (regmap : PmaRegmap) (group : Nat) : Bool :=
  (List.range 32).all fun offset => regmap.frameFree (group * 32 + offset)

theorem toNat_baseFrame {frameNum : UInt64} (small : frameNum.toNat < 2 ^ 48) :
    (nvAlignDown (frameNum <<< pmaPageShift) pma2mb >>> pmaPageShift).toNat = frameNum.toNat / 32 * 32 := by
  have shifted : (frameNum <<< pmaPageShift).toNat = frameNum.toNat * 2 ^ 16 := by
    simp [pmaPageShift, UInt64.toNat_shiftLeft, Nat.shiftLeft_eq]
    omega
  have aligned : nvAlignDown (frameNum <<< pmaPageShift) pma2mb = alignDown (frameNum <<< pmaPageShift) pma2mb := by
    simp [nvAlignDown, alignDown]
  rw [UInt64.toNat_shiftRight, aligned, toNat_alignDown _ _ 21 (by decide), shifted]
  simp [pmaPageShift, Nat.shiftRight_eq_div_pow]
  omega

theorem groupFree_iff (regmap : PmaRegmap) (group : Nat) :
    regmap.groupFree group = true ↔
      (∀ frame, group * 32 ≤ frame → frame ≤ group * 32 + 31 → regmap.bit mapIdxAllocPin frame = false) ∧
        ∀ frame, group * 32 ≤ frame → frame ≤ group * 32 + 31 → regmap.bit mapIdxAllocUnpin frame = false := by
  simp only [PmaRegmap.groupFree, List.all_eq_true, List.mem_range, PmaRegmap.frameFree, Bool.and_eq_true,
    Bool.not_eq_true']
  constructor
  · intro free
    have inGroup : ∀ frame, group * 32 ≤ frame → frame ≤ group * 32 + 31 →
        regmap.bit mapIdxAllocUnpin frame = false ∧ regmap.bit mapIdxAllocPin frame = false := by
      intro frame above below
      have offset := free (frame - group * 32) (by omega)
      rwa [Nat.add_sub_cancel' above] at offset
    constructor
    · intro frame above below
      exact (inGroup frame above below).2
    · intro frame above below
      exact (inGroup frame above below).1
  · rintro ⟨pin, unpin⟩ offset lt
    exact ⟨unpin _ (by omega) (by omega), pin _ (by omega) (by omega)⟩

theorem pmaRegmapAllFree2mb_eq (regmap : PmaRegmap) {frameNum : UInt64} (small : frameNum.toNat < 2 ^ 48) :
    pmaRegmapAllFree2mb regmap frameNum =
      (decide (frameNum.toNat / 32 * 32 + 32 < regmap.totalFrames.toNat) && regmap.groupFree (frameNum.toNat / 32)) := by
  have base := toNat_baseFrame small
  have numFrames : (pma2mb >>> pmaPageShift).toUInt32.toUInt64 = 32 := by decide
  unfold pmaRegmapAllFree2mb
  simp only [numFrames]
  generalize nvAlignDown (frameNum <<< pmaPageShift) pma2mb >>> pmaPageShift = baseFrame at base ⊢
  have top : (baseFrame + 32).toNat = frameNum.toNat / 32 * 32 + 32 := by
    rw [UInt64.toNat_add, base]
    simp
    omega
  have last : (baseFrame + 32 - 1).toNat = frameNum.toNat / 32 * 32 + 31 := by
    rw [UInt64.toNat_sub_of_le _ _ (by simp [UInt64.le_iff_toNat_le, top]), top]
    simp
  have ordered : baseFrame.toNat ≤ (baseFrame + 32 - 1).toNat := by omega
  have bounded : (baseFrame + 32 - 1).toNat < 2 ^ 63 := by omega
  simp only [ge_iff_le, UInt64.le_iff_toNat_le, top, bne_iff_ne, ne_eq, checkOne_eq_neg_one_iff _ ordered bounded,
    base, last]
  have free : regmap.groupFree (frameNum.toNat / 32) =
      decide ((∀ frame, frameNum.toNat / 32 * 32 ≤ frame → frame ≤ frameNum.toNat / 32 * 32 + 31 →
          bitAt (regmap.map mapIdxAllocPin) frame = false) ∧
        ∀ frame, frameNum.toNat / 32 * 32 ≤ frame → frame ≤ frameNum.toNat / 32 * 32 + 31 →
          bitAt (regmap.map mapIdxAllocUnpin) frame = false) := by
    rw [Bool.eq_iff_iff, groupFree_iff, decide_eq_true_iff]
    rfl
  rw [free]
  split
  · rename_i full
    simp only [Bool.false_eq, Bool.and_eq_false_iff, decide_eq_false_iff_not]
    left
    omega
  · rename_i fits
    split
    · rename_i pinSet
      simp [pinSet]
    · rename_i pinClear
      split
      · rename_i unpinSet
        simp [unpinSet]
      · rename_i unpinClear
        simp only [not_not] at pinClear unpinClear
        have room : frameNum.toNat / 32 * 32 + 32 < regmap.totalFrames.toNat := by omega
        rw [decide_eq_true room, decide_eq_true ⟨pinClear, unpinClear⟩]
        rfl

end NvidiaGpu.Regmap
