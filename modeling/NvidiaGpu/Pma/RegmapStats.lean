import NvidiaGpu.Pma.Regmap

set_option autoImplicit false

/-! The statistics a region keeps through its state changes.  `pmaRegmapInit`
counts every frame free and every complete 2MB group of 32 frames free; a change
of one frame moves the free-frame counters by the change of that frame's state
bits, and the free-2MB counters when `_pmaRegmapAllFree2mb` held before or after
the write.  `_pmaRegmapAllFree2mb` is false for a group that ends at the last
frame, so when the region's size is a multiple of 32 frames its last group is
never tracked: it stays counted as free whatever its frames become.
`StatsExact` says what the counters hold in every state a run reaches. -/

namespace NvidiaGpu.Regmap

open Bitmap

/-! ## Writing the planes -/

theorem bit_foldl_writePlane (regmap : PmaRegmap) (frameNum : UInt64) (newState : UInt32) (selected : Nat → Bool)
    (planes : List Nat) (small : ∀ i ∈ planes, i < 32) (j frame : Nat) :
    (planes.foldl (fun written i => if selected i then written.writePlane frameNum newState i else written)
        regmap).bit j frame =
      if j ∈ planes ∧ selected j ∧ frame = frameNum.toNat then newState.toBitVec.getLsbD j else regmap.bit j frame := by
  induction planes generalizing regmap with
  | nil => simp
  | cons i planes ih =>
      rw [List.foldl_cons, ih _ (fun i member => small i (List.mem_cons_of_mem _ member))]
      have plane := small i List.mem_cons_self
      by_cases chosen : selected i
      · simp only [chosen, if_true, bit_writePlane _ _ _ plane]
        by_cases same : j = i
        · subst same
          by_cases atFrame : frame = frameNum.toNat <;> simp [chosen, atFrame]
        · simp [same]
      · simp only [chosen]
        by_cases same : j = i
        · subst same
          simp [chosen]
        · simp [same]

theorem fields_foldl_writePlane (regmap : PmaRegmap) (frameNum : UInt64) (newState : UInt32) (selected : Nat → Bool)
    (planes : List Nat) :
    let written := planes.foldl
      (fun written i => if selected i then written.writePlane frameNum newState i else written) regmap
    written.totalFrames = regmap.totalFrames ∧ written.bProtected = regmap.bProtected := by
  induction planes generalizing regmap with
  | nil => exact ⟨rfl, rfl⟩
  | cons i planes ih =>
      rw [List.foldl_cons]
      obtain ⟨total, protection⟩ := ih (if selected i then regmap.writePlane frameNum newState i else regmap)
      constructor
      · rw [total]
        split <;> rfl
      · rw [protection]
        split <;> rfl

theorem foldl_writePlane_all (regmap : PmaRegmap) (frameNum : UInt64) (newState : UInt32) (planes : List Nat) :
    planes.foldl (fun written i => written.writePlane frameNum newState i) regmap =
      planes.foldl (fun written i => if (fun _ => true) i then written.writePlane frameNum newState i else written)
        regmap := by
  simp

/-! ## Counts -/

def PmaRegmap.freeFrameCount (regmap : PmaRegmap) : Nat :=
  (List.range regmap.totalFrames.toNat).countP regmap.frameFree

def PmaRegmap.free2mbCount (regmap : PmaRegmap) : Nat :=
  (List.range (regmap.totalFrames.toNat / 32)).countP regmap.groupFree

/-- A group that `_pmaRegmapAllFree2mb` can report free: it ends below the last
frame. -/
def PmaRegmap.tracked2mb (regmap : PmaRegmap) (group : Nat) : Bool :=
  decide (group * 32 + 32 < regmap.totalFrames.toNat)

/-- The code's view of a complete group as free: a tracked group whose frames are
all free, or an untracked one, which keeps the count `pmaRegmapInit` gave it. -/
def PmaRegmap.counted2mb (regmap : PmaRegmap) (group : Nat) : Bool :=
  !regmap.tracked2mb group || regmap.groupFree group

def PmaRegmap.counted2mbCount (regmap : PmaRegmap) : Nat :=
  (List.range (regmap.totalFrames.toNat / 32)).countP regmap.counted2mb

theorem groupFree_eq_false {regmap : PmaRegmap} {frame : Nat} (allocated : regmap.frameFree frame = false) :
    regmap.groupFree (frame / 32) = false := by
  rw [PmaRegmap.groupFree, List.all_eq_false]
  refine ⟨frame % 32, List.mem_range.mpr (Nat.mod_lt _ (by decide)), ?_⟩
  have split : frame / 32 * 32 + frame % 32 = frame := by omega
  simp [split, allocated]

theorem tracked2mb_iff {regmap : PmaRegmap} {group : Nat} :
    regmap.tracked2mb group = true ↔ group * 32 + 32 < regmap.totalFrames.toNat := by
  simp [PmaRegmap.tracked2mb]

theorem lt_of_tracked2mb {regmap : PmaRegmap} {group : Nat} (tracked : regmap.tracked2mb group = true) :
    group < regmap.totalFrames.toNat / 32 := by
  rw [tracked2mb_iff] at tracked
  omega

theorem pmaRegmapAllFree2mb_eq_tracked {regmap : PmaRegmap} {frameNum : UInt64}
    (small : frameNum.toNat < 2 ^ 48) :
    pmaRegmapAllFree2mb regmap frameNum =
      (regmap.tracked2mb (frameNum.toNat / 32) && regmap.groupFree (frameNum.toNat / 32)) := by
  rw [pmaRegmapAllFree2mb_eq regmap small, PmaRegmap.tracked2mb]

theorem groupFree_congr {regmap written : PmaRegmap} {group : Nat}
    (same : ∀ offset < 32, written.frameFree (group * 32 + offset) = regmap.frameFree (group * 32 + offset)) :
    written.groupFree group = regmap.groupFree group := by
  unfold PmaRegmap.groupFree
  rw [Bool.eq_iff_iff, List.all_eq_true, List.all_eq_true]
  constructor
  · intro free offset member
    rw [← same offset (List.mem_range.mp member)]
    exact free offset member
  · intro free offset member
    rw [same offset (List.mem_range.mp member)]
    exact free offset member

theorem pmaRegmapAllFree2mb_of_taken {regmap : PmaRegmap} {frameNum : UInt64} (small : frameNum.toNat < 2 ^ 48)
    (taken : regmap.frameFree frameNum.toNat = false) : pmaRegmapAllFree2mb regmap frameNum = false := by
  rw [pmaRegmapAllFree2mb_eq_tracked small, groupFree_eq_false taken, Bool.and_false]

/-! ## One frame changed -/

/-- A write of frame `frameNum`'s planes: the region keeps its size and
protection, and no other frame's state bits change. -/
structure FrameChange (regmap written : PmaRegmap) (frameNum : Nat) : Prop where
  totalFrames : written.totalFrames = regmap.totalFrames
  bProtected : written.bProtected = regmap.bProtected
  frameFree : ∀ frame, frame ≠ frameNum → written.frameFree frame = regmap.frameFree frame

section FrameChange

variable {regmap written : PmaRegmap} {frameNum : Nat}

theorem FrameChange.freeFrameCount (change : FrameChange regmap written frameNum)
    (inside : frameNum < regmap.totalFrames.toNat) :
    written.freeFrameCount + (if regmap.frameFree frameNum then 1 else 0) =
      regmap.freeFrameCount + (if written.frameFree frameNum then 1 else 0) := by
  have moved := countP_range_update regmap.totalFrames.toNat
    (fun frame _ other => (change.frameFree frame other).symm)
  simp only [inside, true_and] at moved
  rw [PmaRegmap.freeFrameCount, PmaRegmap.freeFrameCount, change.totalFrames]
  exact moved

theorem FrameChange.tracked2mb (change : FrameChange regmap written frameNum) (group : Nat) :
    written.tracked2mb group = regmap.tracked2mb group := by
  rw [PmaRegmap.tracked2mb, PmaRegmap.tracked2mb, change.totalFrames]

theorem FrameChange.groupFree (change : FrameChange regmap written frameNum) {group : Nat}
    (other : group ≠ frameNum / 32) : written.groupFree group = regmap.groupFree group := by
  apply groupFree_congr
  intro offset small
  exact change.frameFree _ (fun same => other (by omega))

theorem FrameChange.groupFree_of_frameFree (change : FrameChange regmap written frameNum)
    (kept : written.frameFree frameNum = regmap.frameFree frameNum) (group : Nat) :
    written.groupFree group = regmap.groupFree group := by
  apply groupFree_congr
  intro offset _
  by_cases same : group * 32 + offset = frameNum
  · rw [same, kept]
  · exact change.frameFree _ same

theorem FrameChange.counted2mbCount (change : FrameChange regmap written frameNum) :
    written.counted2mbCount + (if frameNum / 32 < regmap.totalFrames.toNat / 32 ∧
        regmap.counted2mb (frameNum / 32) then 1 else 0) =
      regmap.counted2mbCount + (if frameNum / 32 < regmap.totalFrames.toNat / 32 ∧
        written.counted2mb (frameNum / 32) then 1 else 0) := by
  have others : ∀ group, group ≠ frameNum / 32 → regmap.counted2mb group = written.counted2mb group := by
    intro group other
    rw [PmaRegmap.counted2mb, PmaRegmap.counted2mb, change.tracked2mb, change.groupFree other]
  rw [PmaRegmap.counted2mbCount, PmaRegmap.counted2mbCount, change.totalFrames]
  exact countP_range_update _ (fun group _ other => others group other)

theorem FrameChange.counted2mbCount_of_frameFree (change : FrameChange regmap written frameNum)
    (kept : written.frameFree frameNum = regmap.frameFree frameNum) :
    written.counted2mbCount = regmap.counted2mbCount := by
  unfold PmaRegmap.counted2mbCount
  rw [change.totalFrames]
  apply List.countP_congr
  intro group _
  rw [PmaRegmap.counted2mb, PmaRegmap.counted2mb, change.tracked2mb, change.groupFree_of_frameFree kept]

end FrameChange

/-! ## The free-2MB counter

The change functions move the free-2MB counters when `_pmaRegmapAllFree2mb` held
before a frame was allocated or holds after it was released.  These are the two
hypotheses below; with them, the counted groups move exactly as the counters
do. -/

section Tracking

variable {regmap written : PmaRegmap} {frameNum : UInt64} {update2mbTracking : Bool}

theorem FrameChange.counted2mbCount_tracking (change : FrameChange regmap written frameNum.toNat)
    (small : frameNum.toNat < 2 ^ 48)
    (allocated : regmap.frameFree frameNum.toNat = true → written.frameFree frameNum.toNat = false →
      update2mbTracking = pmaRegmapAllFree2mb regmap frameNum)
    (released : regmap.frameFree frameNum.toNat = false → written.frameFree frameNum.toNat = true →
      update2mbTracking = pmaRegmapAllFree2mb written frameNum)
    (tracking : update2mbTracking = true) :
    written.counted2mbCount + (if regmap.frameFree frameNum.toNat then 1 else 0) =
      regmap.counted2mbCount + (if written.frameFree frameNum.toNat then 1 else 0) := by
  have moved := change.counted2mbCount
  cases before : regmap.frameFree frameNum.toNat <;> cases after : written.frameFree frameNum.toNat
  · rw [change.counted2mbCount_of_frameFree (after.trans before.symm)]
  · have flag := released before after
    rw [tracking, pmaRegmapAllFree2mb_eq_tracked small, change.tracked2mb] at flag
    obtain ⟨tracked, free⟩ : regmap.tracked2mb (frameNum.toNat / 32) = true ∧
        written.groupFree (frameNum.toNat / 32) = true := by simpa using flag.symm
    have countedBefore : regmap.counted2mb (frameNum.toNat / 32) = false := by
      simp [PmaRegmap.counted2mb, tracked, groupFree_eq_false before]
    have countedAfter : written.counted2mb (frameNum.toNat / 32) = true := by
      simp [PmaRegmap.counted2mb, free]
    simp only [lt_of_tracked2mb tracked, countedBefore, countedAfter, true_and] at moved
    simpa using moved
  · have flag := allocated before after
    rw [tracking, pmaRegmapAllFree2mb_eq_tracked small] at flag
    obtain ⟨tracked, free⟩ : regmap.tracked2mb (frameNum.toNat / 32) = true ∧
        regmap.groupFree (frameNum.toNat / 32) = true := by simpa using flag.symm
    have countedBefore : regmap.counted2mb (frameNum.toNat / 32) = true := by
      simp [PmaRegmap.counted2mb, free]
    have countedAfter : written.counted2mb (frameNum.toNat / 32) = false := by
      simp [PmaRegmap.counted2mb, change.tracked2mb, tracked, groupFree_eq_false after]
    simp only [lt_of_tracked2mb tracked, countedBefore, countedAfter, true_and] at moved
    simpa using moved
  · rw [change.counted2mbCount_of_frameFree (after.trans before.symm)]

theorem FrameChange.counted2mbCount_untracking (change : FrameChange regmap written frameNum.toNat)
    (small : frameNum.toNat < 2 ^ 48)
    (allocated : regmap.frameFree frameNum.toNat = true → written.frameFree frameNum.toNat = false →
      update2mbTracking = pmaRegmapAllFree2mb regmap frameNum)
    (released : regmap.frameFree frameNum.toNat = false → written.frameFree frameNum.toNat = true →
      update2mbTracking = pmaRegmapAllFree2mb written frameNum)
    (tracking : update2mbTracking = false) :
    written.counted2mbCount = regmap.counted2mbCount := by
  have moved := change.counted2mbCount
  suffices same : written.counted2mb (frameNum.toNat / 32) = regmap.counted2mb (frameNum.toNat / 32) by
    rw [same] at moved
    omega
  cases before : regmap.frameFree frameNum.toNat <;> cases after : written.frameFree frameNum.toNat
  · rw [PmaRegmap.counted2mb, PmaRegmap.counted2mb, change.tracked2mb,
      change.groupFree_of_frameFree (after.trans before.symm)]
  · have flag := released before after
    rw [tracking, pmaRegmapAllFree2mb_eq_tracked small, change.tracked2mb] at flag
    rw [PmaRegmap.counted2mb, PmaRegmap.counted2mb, change.tracked2mb, groupFree_eq_false before]
    cases tracked : regmap.tracked2mb (frameNum.toNat / 32)
    · rfl
    · simpa [tracked] using flag.symm
  · have flag := allocated before after
    rw [tracking, pmaRegmapAllFree2mb_eq_tracked small] at flag
    rw [PmaRegmap.counted2mb, PmaRegmap.counted2mb, change.tracked2mb, groupFree_eq_false after]
    cases tracked : regmap.tracked2mb (frameNum.toNat / 32)
    · rfl
    · simpa [tracked] using flag
  · rw [PmaRegmap.counted2mb, PmaRegmap.counted2mb, change.tracked2mb,
      change.groupFree_of_frameFree (after.trans before.symm)]

end Tracking

/-! ## The counters -/

theorem pmaStatsUpdateState_count {numFree base : UInt64} {count count' : Nat} {oldState newState : UInt32}
    (exact : numFree = base + count.toUInt64)
    (moved : count' + (if oldState &&& stateMask == stateFree then 1 else 0) =
      count + (if newState &&& stateMask == stateFree then 1 else 0)) :
    pmaStatsUpdateState numFree 1 oldState newState = base + count'.toUInt64 := by
  unfold pmaStatsUpdateState
  cases before : (oldState &&& stateMask == stateFree) <;> cases after : (newState &&& stateMask == stateFree) <;>
    simp only [before, after, bne, if_true, if_false, Bool.not_true, Bool.not_false, Bool.and_true,
      Bool.and_false, Bool.false_eq_true] at moved ⊢
  · rw [exact, show count' = count by omega]
  · have succ : (count + 1).toUInt64 = count.toUInt64 + 1 := by simp
    rw [exact, show count' = count + 1 by omega, succ, UInt64.add_assoc]
  · have succ : (count' + 1).toUInt64 = count'.toUInt64 + 1 := by simp
    rw [exact, show count = count' + 1 by omega, succ, ← UInt64.add_assoc, UInt64.add_sub_cancel]
  · rw [exact, show count' = count by omega]

theorem FrameChange.update2mb {regmap written : PmaRegmap} {frameNum : UInt64} {oldState newState : UInt32}
    {update2mbTracking : Bool} (change : FrameChange regmap written frameNum.toNat)
    (small : frameNum.toNat < 2 ^ 48)
    (before : (oldState &&& stateMask == stateFree) = regmap.frameFree frameNum.toNat)
    (after : (newState &&& stateMask == stateFree) = written.frameFree frameNum.toNat)
    (allocated : regmap.frameFree frameNum.toNat = true → written.frameFree frameNum.toNat = false →
      update2mbTracking = pmaRegmapAllFree2mb regmap frameNum)
    (released : regmap.frameFree frameNum.toNat = false → written.frameFree frameNum.toNat = true →
      update2mbTracking = pmaRegmapAllFree2mb written frameNum)
    {numFree base : UInt64} (exact : numFree = base + regmap.counted2mbCount.toUInt64) :
    (if update2mbTracking then pmaStatsUpdateState numFree 1 oldState newState else numFree) =
      base + written.counted2mbCount.toUInt64 := by
  cases tracking : update2mbTracking
  · rw [if_neg Bool.false_ne_true, change.counted2mbCount_untracking small allocated released tracking]
    exact exact
  · rw [if_pos rfl]
    apply pmaStatsUpdateState_count exact
    rw [before, after]
    exact change.counted2mbCount_tracking small allocated released tracking

/-! ## The invariant -/

/-- The counters of a region that `pmaRegmapInit` added to `base`: its complete
groups, its free frames and the groups the code counts free, and the protected
counters likewise for a protected region.  The region's frame numbers fit in the
48 bits that a frame's address shifted by `PMA_PAGE_SHIFT` leaves. -/
structure StatsExact (base : PmaStats) (regmap : PmaRegmap) (stats : PmaStats) : Prop where
  bounded : regmap.totalFrames.toNat ≤ 2 ^ 48
  num2mbPages : stats.num2mbPages = base.num2mbPages + regmap.totalFrames / 32
  numFreeFrames : stats.numFreeFrames = base.numFreeFrames + regmap.freeFrameCount.toUInt64
  numFree2mbPages : stats.numFree2mbPages = base.numFree2mbPages + regmap.counted2mbCount.toUInt64
  num2mbPagesProtected : stats.num2mbPagesProtected =
    base.num2mbPagesProtected + if regmap.bProtected then regmap.totalFrames / 32 else 0
  numFreeFramesProtected : stats.numFreeFramesProtected =
    base.numFreeFramesProtected + if regmap.bProtected then regmap.freeFrameCount.toUInt64 else 0
  numFree2mbPagesProtected : stats.numFree2mbPagesProtected =
    base.numFree2mbPagesProtected + if regmap.bProtected then regmap.counted2mbCount.toUInt64 else 0

theorem StatsExact.afterChange {base stats : PmaStats} {regmap written : PmaRegmap} {frameNum : UInt64}
    {oldState newState : UInt32} {update2mbTracking : Bool}
    (exact : StatsExact base regmap stats) (change : FrameChange regmap written frameNum.toNat)
    (inside : frameNum.toNat < regmap.totalFrames.toNat)
    (before : (oldState &&& stateMask == stateFree) = regmap.frameFree frameNum.toNat)
    (after : (newState &&& stateMask == stateFree) = written.frameFree frameNum.toNat)
    (allocated : regmap.frameFree frameNum.toNat = true → written.frameFree frameNum.toNat = false →
      update2mbTracking = pmaRegmapAllFree2mb regmap frameNum)
    (released : regmap.frameFree frameNum.toNat = false → written.frameFree frameNum.toNat = true →
      update2mbTracking = pmaRegmapAllFree2mb written frameNum) :
    StatsExact base written (stats.afterChange regmap.bProtected oldState newState update2mbTracking) := by
  have small : frameNum.toNat < 2 ^ 48 := Nat.lt_of_lt_of_le inside exact.bounded
  have frames := change.freeFrameCount inside
  rw [← before, ← after] at frames
  constructor
  · rw [change.totalFrames]
    exact exact.bounded
  · rw [num2mbPages_afterChange, change.totalFrames]
    exact exact.num2mbPages
  · rw [numFreeFrames_afterChange]
    exact pmaStatsUpdateState_count exact.numFreeFrames frames
  · rw [numFree2mbPages_afterChange]
    exact change.update2mb small before after allocated released exact.numFree2mbPages
  · rw [num2mbPagesProtected_afterChange, change.totalFrames, change.bProtected]
    exact exact.num2mbPagesProtected
  · have protectedFrames := exact.numFreeFramesProtected
    rw [numFreeFramesProtected_afterChange, change.bProtected]
    cases protection : regmap.bProtected <;> simp only [protection, if_true] at protectedFrames ⊢
    · exact protectedFrames
    · exact pmaStatsUpdateState_count protectedFrames frames
  · have protectedPages := exact.numFree2mbPagesProtected
    rw [numFree2mbPagesProtected_afterChange, change.bProtected]
    cases protection : regmap.bProtected
    · rw [protection, if_neg Bool.false_ne_true] at protectedPages
      rw [if_neg Bool.false_ne_true, if_neg Bool.false_ne_true]
      exact protectedPages
    · simp only [protection, if_true] at protectedPages ⊢
      exact change.update2mb small before after allocated released protectedPages

/-! ## The change functions -/

section ChangeStateAttrib

variable (regmap : PmaRegmap) (stats : PmaStats) (frameNum : UInt64) (newState : UInt32) (writeAttrib : Bool)

theorem bit_changeStateAttrib (j frame : Nat) :
    (pmaRegmapChangeStateAttrib regmap stats frameNum newState writeAttrib).1.bit j frame =
      if j < (if writeAttrib then pmaBitsPerPage else pmaStateBitsPerPage) ∧ frame = frameNum.toNat then
        newState.toBitVec.getLsbD j
      else regmap.bit j frame := by
  have planes : ∀ i ∈ List.range (if writeAttrib then pmaStateBitsPerPage + pmaAttribBitsPerPage
      else pmaStateBitsPerPage), i < 32 := by
    intro i member
    cases writeAttrib <;> simp [pmaStateBitsPerPage, pmaAttribBitsPerPage] at member <;> omega
  rw [pmaRegmapChangeStateAttrib, foldl_writePlane_all, bit_foldl_writePlane _ _ _ _ _ planes]
  apply if_congr _ rfl rfl
  simp [pmaBitsPerPage]

theorem frameChange_changeStateAttrib :
    FrameChange regmap (pmaRegmapChangeStateAttrib regmap stats frameNum newState writeAttrib).1 frameNum.toNat where
  totalFrames := by
    rw [pmaRegmapChangeStateAttrib, foldl_writePlane_all]
    exact (fields_foldl_writePlane _ _ _ _ _).1
  bProtected := by
    rw [pmaRegmapChangeStateAttrib, foldl_writePlane_all]
    exact (fields_foldl_writePlane _ _ _ _ _).2
  frameFree := by
    intro frame other
    simp only [PmaRegmap.frameFree, bit_changeStateAttrib, other, and_false, if_false]

theorem frameFree_changeStateAttrib :
    (pmaRegmapChangeStateAttrib regmap stats frameNum newState writeAttrib).1.frameFree frameNum.toNat =
      (newState &&& stateMask == stateFree) := by
  rw [and_stateMask_eq, PmaRegmap.frameFree, bit_changeStateAttrib, bit_changeStateAttrib]
  cases writeAttrib <;> simp [mapIdxAllocUnpin, mapIdxAllocPin, pmaBitsPerPage, pmaStateBitsPerPage,
    pmaAttribBitsPerPage]

theorem StatsExact.changeStateAttrib {base : PmaStats} (exact : StatsExact base regmap stats)
    (inside : frameNum.toNat < regmap.totalFrames.toNat) :
    StatsExact base (pmaRegmapChangeStateAttrib regmap stats frameNum newState writeAttrib).1
      (pmaRegmapChangeStateAttrib regmap stats frameNum newState writeAttrib).2 := by
  have before := read_and_stateMask regmap frameNum true
  have after := frameFree_changeStateAttrib regmap stats frameNum newState writeAttrib
  apply exact.afterChange (frameChange_changeStateAttrib regmap stats frameNum newState writeAttrib) inside
    before after.symm
  · intro wasFree nowTaken
    rw [after] at nowTaken
    simp [bne, nowTaken, before, wasFree]
  · intro wasTaken nowFree
    rw [after] at nowFree
    simp [bne, nowFree, before, wasTaken]
    rfl

end ChangeStateAttrib

section ChangeStateAttribEx

variable (regmap : PmaRegmap) (stats : PmaStats) (frameNum : UInt64) (newState newStateMask : UInt32)

theorem bit_changeStateAttribEx (j frame : Nat) :
    (pmaRegmapChangeStateAttribEx regmap stats frameNum newState newStateMask).1.bit j frame =
      if j < pmaBitsPerPage ∧ (nvBit j &&& newStateMask != 0) = true ∧ frame = frameNum.toNat then
        newState.toBitVec.getLsbD j
      else regmap.bit j frame := by
  have planes : ∀ i ∈ List.range (pmaStateBitsPerPage + pmaAttribBitsPerPage), i < 32 := by
    intro i member
    simp [pmaStateBitsPerPage, pmaAttribBitsPerPage] at member
    omega
  rw [pmaRegmapChangeStateAttribEx, bit_foldl_writePlane _ _ _ _ _ planes]
  apply if_congr _ rfl rfl
  simp [pmaBitsPerPage]

theorem frameChange_changeStateAttribEx :
    FrameChange regmap (pmaRegmapChangeStateAttribEx regmap stats frameNum newState newStateMask).1
      frameNum.toNat where
  totalFrames := (fields_foldl_writePlane _ _ _ _ _).1
  bProtected := (fields_foldl_writePlane _ _ _ _ _).2
  frameFree := by
    intro frame other
    simp only [PmaRegmap.frameFree, bit_changeStateAttribEx, other, and_false, if_false]

theorem taken_changeStateAttribEx (wasFree : regmap.frameFree frameNum.toNat = true)
    (nowTaken : (pmaRegmapChangeStateAttribEx regmap stats frameNum newState newStateMask).1.frameFree
      frameNum.toNat = false) :
    (newState &&& stateMask == stateFree) = false := by
  obtain ⟨unpinClear, pinClear⟩ : regmap.bit mapIdxAllocUnpin frameNum.toNat = false ∧
      regmap.bit mapIdxAllocPin frameNum.toNat = false := by
    simpa [PmaRegmap.frameFree] using wasFree
  have written : ∀ j, regmap.bit j frameNum.toNat = false →
      (pmaRegmapChangeStateAttribEx regmap stats frameNum newState newStateMask).1.bit j frameNum.toNat = true →
      newState.toBitVec.getLsbD j = true := by
    intro j clear set
    rw [bit_changeStateAttribEx] at set
    split at set
    · exact set
    · rw [clear] at set
      cases set
  rw [PmaRegmap.frameFree, Bool.and_eq_false_iff, Bool.not_eq_false', Bool.not_eq_false'] at nowTaken
  rw [and_stateMask_eq]
  rcases nowTaken with unpinSet | pinSet
  · have unpin := written _ unpinClear unpinSet
    simp only [mapIdxAllocUnpin] at unpin
    simp [unpin]
  · have pin := written _ pinClear pinSet
    simp only [mapIdxAllocPin] at pin
    simp [pin]

theorem StatsExact.changeStateAttribEx {base : PmaStats} (exact : StatsExact base regmap stats)
    (inside : frameNum.toNat < regmap.totalFrames.toNat) :
    StatsExact base (pmaRegmapChangeStateAttribEx regmap stats frameNum newState newStateMask).1
      (pmaRegmapChangeStateAttribEx regmap stats frameNum newState newStateMask).2 := by
  have small : frameNum.toNat < 2 ^ 48 := Nat.lt_of_lt_of_le inside exact.bounded
  have before := read_and_stateMask regmap frameNum true
  have after := read_and_stateMask (pmaRegmapChangeStateAttribEx regmap stats frameNum newState newStateMask).1
    frameNum true
  apply exact.afterChange (frameChange_changeStateAttribEx regmap stats frameNum newState newStateMask) inside
    before after
  · intro wasFree nowTaken
    have taken := taken_changeStateAttribEx regmap stats frameNum newState newStateMask wasFree nowTaken
    simp [bne, taken, before, wasFree]
  · intro wasTaken nowFree
    simp only [bne, before, wasTaken, pmaRegmapAllFree2mb_of_taken small wasTaken, Bool.and_false,
      Bool.false_or, Bool.not_false, Bool.true_and]
    rfl

end ChangeStateAttribEx

theorem StatsExact.pageLoop {base : PmaStats} (newState : UInt32) (writeAttrib : Bool) (limit : UInt64)
    (fuel : Nat) :
    ∀ (regmap : PmaRegmap) (stats : PmaStats) (frame : UInt64), StatsExact base regmap stats →
      limit.toNat ≤ regmap.totalFrames.toNat →
      StatsExact base (changePageLoop newState writeAttrib limit regmap stats frame fuel).1
        (changePageLoop newState writeAttrib limit regmap stats frame fuel).2 := by
  induction fuel with
  | zero =>
      intro regmap stats frame exact _
      exact exact
  | succ fuel ih =>
      intro regmap stats frame exact bound
      simp only [changePageLoop]
      split
      · rename_i below
        have inside : frame.toNat < regmap.totalFrames.toNat :=
          Nat.lt_of_lt_of_le (UInt64.lt_iff_toNat_lt.mp below) bound
        apply ih _ _ _ (exact.changeStateAttrib regmap stats frame newState writeAttrib inside)
        rw [(frameChange_changeStateAttrib regmap stats frame newState writeAttrib).totalFrames]
        exact bound
      · exact exact

/-! ## Runs -/

theorem frameFree_pmaRegmapInit (numFrames : UInt64) (stats : PmaStats) (bProtected : Bool) (frame : Nat) :
    (pmaRegmapInit numFrames stats bProtected).1.frameFree frame = true := by
  simp [pmaRegmapInit, PmaRegmap.frameFree, PmaRegmap.bit, bitAt]

theorem statsExact_pmaRegmapInit (base : PmaStats) (bProtected : Bool) {numFrames : UInt64}
    (small : numFrames.toNat ≤ 2 ^ 48) :
    StatsExact base (pmaRegmapInit numFrames base bProtected).1 (pmaRegmapInit numFrames base bProtected).2 := by
  have frames : (pmaRegmapInit numFrames base bProtected).1.freeFrameCount.toUInt64 = numFrames := by
    rw [PmaRegmap.freeFrameCount, List.countP_eq_length.mpr (fun frame _ => frameFree_pmaRegmapInit _ _ _ frame)]
    simp [pmaRegmapInit]
  have groupSize : pma2mb >>> pmaPageShift = 32 := by decide
  have groups : (pmaRegmapInit numFrames base bProtected).1.counted2mbCount.toUInt64 = numFrames / 32 := by
    have counted : ∀ group, (pmaRegmapInit numFrames base bProtected).1.counted2mb group = true := by
      intro group
      have free : (pmaRegmapInit numFrames base bProtected).1.groupFree group = true := by
        simp [PmaRegmap.groupFree, frameFree_pmaRegmapInit]
      simp [PmaRegmap.counted2mb, free]
    rw [PmaRegmap.counted2mbCount, List.countP_eq_length.mpr (fun group _ => counted group), List.length_range]
    have quotient : (numFrames / 32).toNat = numFrames.toNat / 32 := UInt64.toNat_div numFrames 32
    have size : (pmaRegmapInit numFrames base bProtected).1.totalFrames = numFrames := rfl
    rw [size, ← quotient]
    exact UInt64.ofNat_toNat
  constructor
  · exact small
  · simp [pmaRegmapInit, groupSize]
    cases bProtected <;> rfl
  · rw [frames]
    simp [pmaRegmapInit]
    cases bProtected <;> rfl
  · rw [groups]
    simp [pmaRegmapInit, groupSize]
    cases bProtected <;> rfl
  · cases bProtected <;> simp [pmaRegmapInit, groupSize]
  · rw [frames]
    cases bProtected <;> simp [pmaRegmapInit]
  · rw [groups]
    cases bProtected <;> simp [pmaRegmapInit, groupSize]

/-- The calls that change a region's state, with their arguments. -/
inductive RegmapCall where
  | changeState (frameNum : UInt64) (newState : UInt32)
  | changeStateAttrib (frameNum : UInt64) (newState : UInt32) (writeAttrib : Bool)
  | changeStateAttribEx (frameNum : UInt64) (newState newStateMask : UInt32)
  | changePageStateAttrib (startFrame pageSize : UInt64) (newState : UInt32) (writeAttrib : Bool)
  deriving DecidableEq, Repr

def RegmapCall.run : RegmapCall → PmaRegmap → PmaStats → PmaRegmap × PmaStats
  | .changeState frameNum newState, regmap, stats => pmaRegmapChangeState regmap stats frameNum newState
  | .changeStateAttrib frameNum newState writeAttrib, regmap, stats =>
      pmaRegmapChangeStateAttrib regmap stats frameNum newState writeAttrib
  | .changeStateAttribEx frameNum newState newStateMask, regmap, stats =>
      pmaRegmapChangeStateAttribEx regmap stats frameNum newState newStateMask
  | .changePageStateAttrib startFrame pageSize newState writeAttrib, regmap, stats =>
      pmaRegmapChangePageStateAttrib regmap stats startFrame pageSize newState writeAttrib

def RegmapCall.inRegion (totalFrames : UInt64) : RegmapCall → Prop
  | .changeState frameNum _ => frameNum < totalFrames
  | .changeStateAttrib frameNum _ _ => frameNum < totalFrames
  | .changeStateAttribEx frameNum _ _ => frameNum < totalFrames
  | .changePageStateAttrib startFrame pageSize _ _ =>
      startFrame.toNat + (pageSize >>> pmaPageShift).toUInt32.toNat ≤ totalFrames.toNat

instance (totalFrames : UInt64) (call : RegmapCall) : Decidable (call.inRegion totalFrames) := by
  cases call <;> unfold RegmapCall.inRegion <;> infer_instance

def runCalls (calls : List RegmapCall) (state : PmaRegmap × PmaStats) : PmaRegmap × PmaStats :=
  calls.foldl (fun state call => call.run state.1 state.2) state

theorem totalFrames_changePageLoop (newState : UInt32) (writeAttrib : Bool) (limit : UInt64) (fuel : Nat) :
    ∀ (regmap : PmaRegmap) (stats : PmaStats) (frame : UInt64),
      (changePageLoop newState writeAttrib limit regmap stats frame fuel).1.totalFrames = regmap.totalFrames := by
  induction fuel with
  | zero => intro regmap stats frame; rfl
  | succ fuel ih =>
      intro regmap stats frame
      simp only [changePageLoop]
      split
      · rw [ih, (frameChange_changeStateAttrib regmap stats frame newState writeAttrib).totalFrames]
      · rfl

theorem totalFrames_run (call : RegmapCall) (regmap : PmaRegmap) (stats : PmaStats) :
    (call.run regmap stats).1.totalFrames = regmap.totalFrames := by
  cases call with
  | changeState frameNum newState =>
      exact (frameChange_changeStateAttrib regmap stats frameNum newState false).totalFrames
  | changeStateAttrib frameNum newState writeAttrib =>
      exact (frameChange_changeStateAttrib regmap stats frameNum newState writeAttrib).totalFrames
  | changeStateAttribEx frameNum newState newStateMask =>
      exact (frameChange_changeStateAttribEx regmap stats frameNum newState newStateMask).totalFrames
  | changePageStateAttrib startFrame pageSize newState writeAttrib =>
      exact totalFrames_changePageLoop _ _ _ _ _ _ _

/-- One call on frames of the region keeps the counters exact. -/
theorem StatsExact.run {base : PmaStats} {regmap : PmaRegmap} {stats : PmaStats} (exact : StatsExact base regmap stats)
    (call : RegmapCall) (inside : call.inRegion regmap.totalFrames) :
    StatsExact base (call.run regmap stats).1 (call.run regmap stats).2 := by
  cases call with
  | changeState frameNum newState =>
      exact exact.changeStateAttrib regmap stats frameNum newState false (UInt64.lt_iff_toNat_lt.mp inside)
  | changeStateAttrib frameNum newState writeAttrib =>
      exact exact.changeStateAttrib regmap stats frameNum newState writeAttrib (UInt64.lt_iff_toNat_lt.mp inside)
  | changeStateAttribEx frameNum newState newStateMask =>
      exact exact.changeStateAttribEx regmap stats frameNum newState newStateMask (UInt64.lt_iff_toNat_lt.mp inside)
  | changePageStateAttrib startFrame pageSize newState writeAttrib =>
      have limit : (startFrame + (pageSize >>> pmaPageShift).toUInt32.toUInt64).toNat ≤ regmap.totalFrames.toNat := by
        have fits := regmap.totalFrames.toNat_lt
        simp only [RegmapCall.inRegion] at inside
        rw [UInt64.toNat_add, UInt32.toNat_toUInt64, Nat.mod_eq_of_lt (by omega)]
        exact inside
      exact exact.pageLoop newState writeAttrib _ _ regmap stats startFrame limit

theorem statsExact_runCalls (base : PmaStats) (bProtected : Bool) {numFrames : UInt64}
    (small : numFrames.toNat ≤ 2 ^ 48) (calls : List RegmapCall) (inside : ∀ call ∈ calls, call.inRegion numFrames) :
    StatsExact base (runCalls calls (pmaRegmapInit numFrames base bProtected)).1
      (runCalls calls (pmaRegmapInit numFrames base bProtected)).2 := by
  suffices run : ∀ state : PmaRegmap × PmaStats, StatsExact base state.1 state.2 →
      state.1.totalFrames = numFrames →
      StatsExact base (runCalls calls state).1 (runCalls calls state).2 by
    exact run _ (statsExact_pmaRegmapInit base bProtected small) rfl
  induction calls with
  | nil => intro state exact _; exact exact
  | cons call calls ih =>
      intro state exact size
      have first : call.inRegion state.1.totalFrames := by
        rw [size]
        exact inside call List.mem_cons_self
      apply ih (fun later member => inside later (List.mem_cons_of_mem _ member))
      · exact exact.run call first
      · rw [totalFrames_run, size]

theorem totalFrames_runCalls (calls : List RegmapCall) :
    ∀ state : PmaRegmap × PmaStats, (runCalls calls state).1.totalFrames = state.1.totalFrames := by
  induction calls with
  | nil => intro state; rfl
  | cons call calls ih =>
      intro state
      rw [runCalls, List.foldl_cons, ← runCalls, ih, totalFrames_run]

/-! ## The last complete group -/

theorem counted2mbCount_eq (regmap : PmaRegmap) :
    regmap.counted2mbCount = regmap.free2mbCount +
      if regmap.totalFrames.toNat % 32 = 0 ∧ 0 < regmap.totalFrames.toNat ∧
        regmap.groupFree (regmap.totalFrames.toNat / 32 - 1) = false then 1 else 0 := by
  have others : ∀ group < regmap.totalFrames.toNat / 32, group ≠ regmap.totalFrames.toNat / 32 - 1 →
      regmap.groupFree group = regmap.counted2mb group := by
    intro group below other
    have tracked : regmap.tracked2mb group = true := tracked2mb_iff.mpr (by omega)
    simp [PmaRegmap.counted2mb, tracked]
  have moved := countP_range_update _ others
  unfold PmaRegmap.counted2mbCount PmaRegmap.free2mbCount
  by_cases whole : regmap.totalFrames.toNat % 32 = 0 ∧ 0 < regmap.totalFrames.toNat
  · have untracked : regmap.counted2mb (regmap.totalFrames.toNat / 32 - 1) = true := by
      have ends : ¬(regmap.totalFrames.toNat / 32 - 1) * 32 + 32 < regmap.totalFrames.toNat := by omega
      simp [PmaRegmap.counted2mb, PmaRegmap.tracked2mb, ends]
    have last : regmap.totalFrames.toNat / 32 - 1 < regmap.totalFrames.toNat / 32 := by omega
    simp only [last, untracked, true_and, if_true] at moved
    cases free : regmap.groupFree (regmap.totalFrames.toNat / 32 - 1)
    · simp only [free, if_false, Bool.false_eq_true, Nat.add_zero] at moved
      simp only [whole, true_and, if_true]
      exact moved
    · simp only [free, if_true] at moved
      simp only [Bool.true_eq_false, and_false, if_false, Nat.add_zero]
      exact Nat.add_right_cancel moved
  · have condition : ¬(regmap.totalFrames.toNat % 32 = 0 ∧ 0 < regmap.totalFrames.toNat ∧
        regmap.groupFree (regmap.totalFrames.toNat / 32 - 1) = false) :=
      fun ⟨multiple, positive, _⟩ => whole ⟨multiple, positive⟩
    rw [if_neg condition, Nat.add_zero]
    by_cases last : regmap.totalFrames.toNat / 32 - 1 < regmap.totalFrames.toNat / 32
    · have tracked : regmap.tracked2mb (regmap.totalFrames.toNat / 32 - 1) = true :=
        tracked2mb_iff.mpr (by omega)
      have same : regmap.counted2mb (regmap.totalFrames.toNat / 32 - 1) =
          regmap.groupFree (regmap.totalFrames.toNat / 32 - 1) := by
        simp [PmaRegmap.counted2mb, tracked]
      rw [same] at moved
      exact Nat.add_right_cancel moved
    · simp only [last, false_and, if_false, Nat.add_zero] at moved
      exact moved

theorem numFree2mbPages_runCalls (base : PmaStats) (bProtected : Bool) {numFrames : UInt64}
    (small : numFrames.toNat ≤ 2 ^ 48) (calls : List RegmapCall) (inside : ∀ call ∈ calls, call.inRegion numFrames) :
    (runCalls calls (pmaRegmapInit numFrames base bProtected)).2.numFree2mbPages =
      base.numFree2mbPages + ((runCalls calls (pmaRegmapInit numFrames base bProtected)).1.free2mbCount +
        if numFrames.toNat % 32 = 0 ∧ 0 < numFrames.toNat ∧
          (runCalls calls (pmaRegmapInit numFrames base bProtected)).1.groupFree (numFrames.toNat / 32 - 1) = false
        then 1 else 0).toUInt64 := by
  have size := totalFrames_runCalls calls (pmaRegmapInit numFrames base bProtected)
  have counted := counted2mbCount_eq (runCalls calls (pmaRegmapInit numFrames base bProtected)).1
  rw [size] at counted
  rw [(statsExact_runCalls base bProtected small calls inside).numFree2mbPages, counted]
  rfl

/-- Every run of calls on frames of a region from its initialisation keeps
every counter exact, and `numFree2mbPages` counts the free complete groups and,
when the region's size is a multiple of 32 frames, its last group whenever that
group is not free. -/
theorem pmaRegmapStats_runCalls (base : PmaStats) (bProtected : Bool) {numFrames : UInt64}
    (small : numFrames.toNat ≤ 2 ^ 48) (calls : List RegmapCall) (inside : ∀ call ∈ calls, call.inRegion numFrames) :
    StatsExact base (runCalls calls (pmaRegmapInit numFrames base bProtected)).1
        (runCalls calls (pmaRegmapInit numFrames base bProtected)).2 ∧
      (runCalls calls (pmaRegmapInit numFrames base bProtected)).2.numFree2mbPages =
        base.numFree2mbPages + ((runCalls calls (pmaRegmapInit numFrames base bProtected)).1.free2mbCount +
          if numFrames.toNat % 32 = 0 ∧ 0 < numFrames.toNat ∧
            (runCalls calls (pmaRegmapInit numFrames base bProtected)).1.groupFree (numFrames.toNat / 32 - 1) = false
          then 1 else 0).toUInt64 :=
  ⟨statsExact_runCalls base bProtected small calls inside, numFree2mbPages_runCalls base bProtected small calls inside⟩

def pinThenUnpin : List RegmapCall := [.changeState 0 statePin, .changeState 33 stateUnpin]

theorem pinThenUnpin_stats :
    (64 : UInt64).toNat ≤ 2 ^ 48 ∧ (∀ call ∈ pinThenUnpin, call.inRegion 64) ∧
      StatsExact ⟨0, 0, 0, 0, 0, 0⟩ (runCalls pinThenUnpin (pmaRegmapInit 64 ⟨0, 0, 0, 0, 0, 0⟩ false)).1
        (runCalls pinThenUnpin (pmaRegmapInit 64 ⟨0, 0, 0, 0, 0, 0⟩ false)).2 ∧
      (runCalls pinThenUnpin (pmaRegmapInit 64 ⟨0, 0, 0, 0, 0, 0⟩ false)).2.numFree2mbPages =
        (⟨0, 0, 0, 0, 0, 0⟩ : PmaStats).numFree2mbPages +
          ((runCalls pinThenUnpin (pmaRegmapInit 64 ⟨0, 0, 0, 0, 0, 0⟩ false)).1.free2mbCount +
            if (64 : UInt64).toNat % 32 = 0 ∧ 0 < (64 : UInt64).toNat ∧
              (runCalls pinThenUnpin (pmaRegmapInit 64 ⟨0, 0, 0, 0, 0, 0⟩ false)).1.groupFree
                ((64 : UInt64).toNat / 32 - 1) = false
            then 1 else 0).toUInt64 :=
  ⟨by decide, by decide, pmaRegmapStats_runCalls ⟨0, 0, 0, 0, 0, 0⟩ false (by decide) pinThenUnpin (by decide)⟩

/-- A region of one 2MB group: pinning its first frame leaves the group counted
free. -/
theorem pinned_last2mb_counted_free :
    (runCalls [.changeState 0 statePin] (pmaRegmapInit 32 ⟨0, 0, 0, 0, 0, 0⟩ false)).2.numFree2mbPages = 1 ∧
      (runCalls [.changeState 0 statePin] (pmaRegmapInit 32 ⟨0, 0, 0, 0, 0, 0⟩ false)).1.free2mbCount = 0 := by
  decide

end NvidiaGpu.Regmap
