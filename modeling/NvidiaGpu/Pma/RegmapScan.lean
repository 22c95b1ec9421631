import NvidiaGpu.Pma.RegmapStats

set_option autoImplicit false

/-! The searches of the region map (`regmap.c`): the status of a window of
frames, the contiguous search loops forward and backward, and the two scans
`pmaRegmapScanContiguous` and `pmaRegmapScanDiscontiguous`, each a pass for free
frames followed, unless `bSkipEvict`, by a pass for evictable ones.

A window is accepted by the status checks of `_pmaRegmapStatus`, made in the
source's order and stopped at the first hit.  `ALLOC_UNPIN` is checked before
`ATTRIB_BLACKLIST`, so the evictable pass, which accepts `NV_ERR_IN_USE`, never
looks at the blacklist of a window with an unpinned frame.

The loops are `while` loops of the source; here they carry a fuel bound of one
pass per frame of the region, as every pass moves the window by at least one
frame.  Running out of fuel ends the search as a failed one. -/

namespace NvidiaGpu.Regmap

open Bitmap

/-! ## Window status -/

/-- One check of `_pmaRegmapStatus`: `status` with the frame `_checkOne` finds in
plane `bits`, or the checks that follow. -/
def statusCheck (bits : Nat → UInt64) (start endFrame : UInt64) (status : NvStatus)
    (next : Option (NvStatus × UInt64)) : Option (NvStatus × UInt64) :=
  let diff := checkOne bits start endFrame
  if diff != -1 then some (status, diff) else next

/-- `_pmaRegmapStatus`: `NV_OK` as `none`, or the error with the frame found,
which the source stores through `frameIndex`.  The eviction plane is checked
only while evictions are in progress. -/
def pmaRegmapStatus (regmap : PmaRegmap) (start endFrame : UInt64) : Option (NvStatus × UInt64) :=
  let afterEvicting :=
    statusCheck (regmap.map mapIdxScrubbing) start endFrame .nvErrNoMemory <|
    statusCheck (regmap.map mapIdxNumaReuse) start endFrame .nvErrNoMemory <|
    statusCheck (regmap.map mapIdxAllocUnpin) start endFrame .nvErrInUse <|
    statusCheck (regmap.map mapIdxBlacklist) start endFrame .nvErrNoMemory none
  statusCheck (regmap.map mapIdxAllocPin) start endFrame .nvErrNoMemory <|
    if regmap.frameEvictionsInProcess > 0 then
      statusCheck (regmap.map mapIdxEvicting) start endFrame .nvErrNoMemory afterEvicting
    else afterEvicting

def pmaRegmapAvailable (regmap : PmaRegmap) (start endFrame : UInt64) : UInt64 :=
  match pmaRegmapStatus regmap start endFrame with
  | none => allFree
  | some (_, unavailableFrameIndex) => unavailableFrameIndex

/-- `_pmaRegmapEvictable`: `ALL_FREE`, `EVICTABLE` when the window would need an
eviction, or the first frame found that is neither free nor evictable. -/
def pmaRegmapEvictable (regmap : PmaRegmap) (start endFrame : UInt64) : UInt64 :=
  match pmaRegmapStatus regmap start endFrame with
  | none => allFree
  | some (.nvErrInUse, _) => evictable
  | some (_, unavailableFrameIndex) => unavailableFrameIndex

/-! ## The contiguous search loops -/

/-- `alignUpToMod`: the first frame from `frame` that is `mod` above a multiple of
`alignment`. -/
def alignUpToMod (frame alignment mod : UInt64) : UInt64 :=
  if frame &&& (alignment - 1) ≤ mod then nvAlignDown frame alignment + mod
  else nvAlignUp frame alignment + mod

def nonNegative (x : UInt64) : Bool :=
  x < 0x8000000000000000

/-- The state an endpoint of the window may be in besides `STATE_FREE`, the result
the status function must give, and the status function, for the pass for free
frames and for the evictable pass. -/
def searchState (bSearchEvictable : Bool) : UInt32 :=
  if bSearchEvictable then stateUnpin else stateFree

def searchCheckDiff (bSearchEvictable : Bool) : UInt64 :=
  if bSearchEvictable then evictable else allFree

def searchUseFunc (bSearchEvictable : Bool) : PmaRegmap → UInt64 → UInt64 → UInt64 :=
  if bSearchEvictable then pmaRegmapEvictable else pmaRegmapAvailable

/-- An endpoint's status word, attributes included, is `STATE_FREE` or the
searched state. -/
def endpointUsable (regmap : PmaRegmap) (bSearchEvictable : Bool) (frame : UInt64) : Bool :=
  let status := pmaRegmapRead regmap frame true
  status == stateFree || status == searchState bSearchEvictable

def scanContiguousSearchLoop (regmap : PmaRegmap) (numFrames localEnd frameAlignment frameAlignmentPadding : UInt64)
    (bSearchEvictable : Bool) : UInt64 → Nat → UInt64
  | _, 0 => -1
  | freeStart, fuel + 1 =>
      if freeStart + numFrames - 1 ≤ localEnd then
        if endpointUsable regmap bSearchEvictable (freeStart + numFrames - 1) then
          if endpointUsable regmap bSearchEvictable freeStart then
            let diff := searchUseFunc bSearchEvictable regmap freeStart (freeStart + numFrames - 1)
            if diff == searchCheckDiff bSearchEvictable then freeStart
            else
              scanContiguousSearchLoop regmap numFrames localEnd frameAlignment frameAlignmentPadding
                bSearchEvictable (alignUpToMod (diff + 1) frameAlignment frameAlignmentPadding) fuel
          else
            scanContiguousSearchLoop regmap numFrames localEnd frameAlignment frameAlignmentPadding
              bSearchEvictable (freeStart + frameAlignment) fuel
        else
          scanContiguousSearchLoop regmap numFrames localEnd frameAlignment frameAlignmentPadding
            bSearchEvictable (freeStart + nvAlignUp numFrames frameAlignment) fuel
      else -1

/-- The start of a window ending at `windowEnd`, moved down to the alignment of
`localStart`. -/
def alignedStartBelow (windowEnd numFrames localStart frameAlignment : UInt64) : UInt64 :=
  let freeStart := windowEnd + 1 - numFrames
  freeStart - (freeStart - localStart) % frameAlignment

def scanContiguousSearchLoopReverse (regmap : PmaRegmap) (numFrames localStart frameAlignment : UInt64)
    (bSearchEvictable : Bool) : UInt64 → Nat → UInt64
  | _, 0 => -1
  | freeStart, fuel + 1 =>
      if freeStart ≥ localStart && nonNegative freeStart then
        if endpointUsable regmap bSearchEvictable freeStart then
          if endpointUsable regmap bSearchEvictable (freeStart + numFrames - 1) then
            let diff := searchUseFunc bSearchEvictable regmap freeStart (freeStart + numFrames - 1)
            if diff == searchCheckDiff bSearchEvictable then freeStart
            else
              -- one frame before the first unavailable frame ends the next window
              scanContiguousSearchLoopReverse regmap numFrames localStart frameAlignment bSearchEvictable
                (alignedStartBelow (diff - 1) numFrames localStart frameAlignment) fuel
          else
            scanContiguousSearchLoopReverse regmap numFrames localStart frameAlignment bSearchEvictable
              (freeStart - frameAlignment) fuel
        else
          scanContiguousSearchLoopReverse regmap numFrames localStart frameAlignment bSearchEvictable
            (freeStart - nvAlignUp numFrames frameAlignment) fuel
      else -1

/-! ## The scans -/

/-- What a scan writes back: its status, the entries of `freeList` it wrote in
order, and `*numPagesAlloc`. -/
structure ScanResult where
  status : NvStatus
  freeList : List UInt64
  numPagesAlloc : UInt64
  deriving DecidableEq, Repr

/-- The frame range of a request: `[localStart, localEnd]` before `localStart` is
aligned. -/
def scanRange (regmap : PmaRegmap) (rangeStart rangeEnd : UInt64) : UInt64 × UInt64 :=
  if rangeStart != 0 || rangeEnd != 0 then
    (rangeStart >>> pmaPageShift, min (rangeEnd >>> pmaPageShift) (regmap.totalFrames - 1))
  else (0, regmap.totalFrames - 1)

/-- `pmaRegmapScanContiguous`.  The search loops get one pass per frame of the
region. -/
def pmaRegmapScanContiguous (regmap : PmaRegmap) (addrBase rangeStart rangeEnd numPages pageSize alignment : UInt64)
    (bSkipEvict bReverseAlloc : Bool) : ScanResult :=
  let framesPerPage := pageSize >>> pmaPageShift
  let numFrames := framesPerPage * numPages
  let frameAlignment := alignment >>> pmaPageShift
  let alignedAddrBase := nvAlignUp addrBase alignment
  let frameAlignmentPadding := (alignedAddrBase - addrBase) >>> pmaPageShift
  let (localStart, localEnd) := scanRange regmap rangeStart rangeEnd
  let localStart := alignUpToMod localStart frameAlignment frameAlignmentPadding
  let fuel := regmap.totalFrames.toNat + 1
  let search (bSearchEvictable : Bool) : UInt64 :=
    if !bReverseAlloc then
      scanContiguousSearchLoop regmap numFrames localEnd frameAlignment frameAlignmentPadding bSearchEvictable
        localStart fuel
    else
      scanContiguousSearchLoopReverse regmap numFrames localStart frameAlignment bSearchEvictable
        (alignedStartBelow localEnd numFrames localStart frameAlignment) fuel
  let frameFound := search false
  if nonNegative frameFound then
    { status := .nvOk, freeList := [addrBase + (frameFound <<< pmaPageShift)], numPagesAlloc := numPages }
  else if bSkipEvict then { status := .nvErrNoMemory, freeList := [], numPagesAlloc := 0 }
  else
    let frameFound := search true
    if nonNegative frameFound then
      { status := .nvErrInUse, freeList := [addrBase + (frameFound <<< pmaPageShift)], numPagesAlloc := 0 }
    else { status := .nvErrNoMemory, freeList := [], numPagesAlloc := 0 }

/-- One pass of `pmaRegmapScanDiscontiguous` from `freeStart`, page by page, with
the entries `found` so far: the entries at the end of the pass, and whether the
pass left the range before it had `numPages` of them. -/
def scanDiscontiguousLoop (regmap : PmaRegmap) (addrBase framesPerPage localStart localEnd numPages : UInt64)
    (bReverseAlloc bEvict : Bool) : UInt64 → List UInt64 → Nat → List UInt64 × Bool
  | _, found, 0 => (found, true)
  | freeStart, found, fuel + 1 =>
      if found.length.toUInt64 == numPages then (found, false)
      else if (!bReverseAlloc && freeStart + framesPerPage - 1 > localEnd) ||
          (bReverseAlloc && (freeStart < localStart || !nonNegative freeStart)) then (found, true)
      else
        let startStatus := pmaRegmapRead regmap freeStart true
        let endStatus := pmaRegmapRead regmap (freeStart + framesPerPage - 1) true
        let usable (status : UInt32) : Bool := status == stateFree || (bEvict && status == stateUnpin)
        let accepted :=
          usable startStatus && usable endStatus &&
            if bEvict then pmaRegmapEvictable regmap freeStart (freeStart + framesPerPage - 1) == evictable
            else pmaRegmapAvailable regmap freeStart (freeStart + framesPerPage - 1) == allFree
        let found := if accepted then found ++ [addrBase + (freeStart <<< pmaPageShift)] else found
        let freeStart := if !bReverseAlloc then freeStart + framesPerPage else freeStart - framesPerPage
        scanDiscontiguousLoop regmap addrBase framesPerPage localStart localEnd numPages bReverseAlloc bEvict
          freeStart found fuel

/-- `pmaRegmapScanDiscontiguous`: pages of `pageSize` frames, `alignment` taken to
equal `pageSize` as the source asserts.  `*numPagesAlloc` is set after the first
pass only. -/
def pmaRegmapScanDiscontiguous (regmap : PmaRegmap) (addrBase rangeStart rangeEnd numPages pageSize alignment : UInt64)
    (bSkipEvict bReverseAlloc : Bool) : ScanResult :=
  let framesPerPage := pageSize >>> pmaPageShift
  let alignedAddrBase := nvAlignUp addrBase alignment
  let frameAlignmentPadding := (alignedAddrBase - addrBase) >>> pmaPageShift
  let (localStart, localEnd) := scanRange regmap rangeStart rangeEnd
  let localStart := alignUpToMod localStart framesPerPage frameAlignmentPadding
  let firstStart := if !bReverseAlloc then localStart
    else alignedStartBelow localEnd framesPerPage localStart framesPerPage
  let fuel := regmap.totalFrames.toNat + 1
  let (found, _) := scanDiscontiguousLoop regmap addrBase framesPerPage localStart localEnd numPages bReverseAlloc
    false firstStart [] fuel
  if found.length.toUInt64 == numPages then { status := .nvOk, freeList := found, numPagesAlloc := numPages }
  else if bSkipEvict then { status := .nvErrNoMemory, freeList := found, numPagesAlloc := found.length.toUInt64 }
  else
    let (all, exhausted) := scanDiscontiguousLoop regmap addrBase framesPerPage localStart localEnd numPages
      bReverseAlloc true firstStart found fuel
    { status := if exhausted then .nvErrNoMemory else .nvErrInUse, freeList := all,
      numPagesAlloc := found.length.toUInt64 }

/-! ## What a window's status says -/

def PmaRegmap.clearIn (regmap : PmaRegmap) (i start endFrame : Nat) : Prop :=
  ∀ frame, start ≤ frame → frame ≤ endFrame → regmap.bit i frame = false

/-- A window an eviction can make free: no frame pinned, being scrubbed or reused
by NUMA, and none being evicted while evictions are in progress. -/
def PmaRegmap.evictableWindow (regmap : PmaRegmap) (start endFrame : Nat) : Prop :=
  regmap.clearIn mapIdxAllocPin start endFrame ∧
    (regmap.frameEvictionsInProcess > 0 → regmap.clearIn mapIdxEvicting start endFrame) ∧
    regmap.clearIn mapIdxScrubbing start endFrame ∧ regmap.clearIn mapIdxNumaReuse start endFrame

/-- A window free for allocation: evictable, with no frame allocated unpinned and
none blacklisted. -/
def PmaRegmap.freeWindow (regmap : PmaRegmap) (start endFrame : Nat) : Prop :=
  regmap.evictableWindow start endFrame ∧ regmap.clearIn mapIdxAllocUnpin start endFrame ∧
    regmap.clearIn mapIdxBlacklist start endFrame

section Window

variable (regmap : PmaRegmap) {start endFrame : UInt64}

theorem checkOne_eq_neg_one_iff_clearIn (i : Nat) (ordered : start.toNat ≤ endFrame.toNat)
    (small : endFrame.toNat < 2 ^ 63) :
    checkOne (regmap.map i) start endFrame = -1 ↔ regmap.clearIn i start.toNat endFrame.toNat :=
  checkOne_eq_neg_one_iff _ ordered small

theorem statusCheck_eq_none {bits : Nat → UInt64} {status : NvStatus} {next : Option (NvStatus × UInt64)} :
    statusCheck bits start endFrame status next = none ↔ checkOne bits start endFrame = -1 ∧ next = none := by
  unfold statusCheck
  by_cases found : checkOne bits start endFrame = -1 <;> simp [found]

theorem statusCheck_eq_some {bits : Nat → UInt64} {status : NvStatus} {next : Option (NvStatus × UInt64)}
    {result : NvStatus × UInt64} :
    statusCheck bits start endFrame status next = some result ↔
      checkOne bits start endFrame ≠ -1 ∧ result = (status, checkOne bits start endFrame) ∨
        checkOne bits start endFrame = -1 ∧ next = some result := by
  unfold statusCheck
  by_cases found : checkOne bits start endFrame = -1
  · simp [found]
  · have set : (checkOne bits start endFrame != -1) = true := by simpa using found
    rw [if_pos set, Option.some.injEq]
    constructor
    · intro same
      exact Or.inl ⟨found, same.symm⟩
    · rintro (⟨_, same⟩ | ⟨unset, _⟩)
      · exact same.symm
      · exact absurd unset found

theorem statusCheck_frame {bits : Nat → UInt64} {status : NvStatus} {next : Option (NvStatus × UInt64)}
    (ordered : start.toNat ≤ endFrame.toNat) (small : endFrame.toNat < 2 ^ 63)
    (rest : ∀ result, next = some result → start.toNat ≤ result.2.toNat ∧ result.2.toNat ≤ endFrame.toNat) :
    ∀ result, statusCheck bits start endFrame status next = some result →
      start.toNat ≤ result.2.toNat ∧ result.2.toNat ≤ endFrame.toNat := by
  intro result checked
  rcases statusCheck_eq_some.mp checked with ⟨set, rfl⟩ | ⟨_, later⟩
  · rcases checkOne_spec bits ordered small with ⟨unset, _⟩ | ⟨above, below, _⟩
    · exact absurd unset set
    · exact ⟨above, below⟩
  · exact rest result later

theorem pmaRegmapStatus_eq_none_iff (ordered : start.toNat ≤ endFrame.toNat) (small : endFrame.toNat < 2 ^ 63) :
    pmaRegmapStatus regmap start endFrame = none ↔ regmap.freeWindow start.toNat endFrame.toNat := by
  have clear := fun i => checkOne_eq_neg_one_iff_clearIn regmap i ordered small
  unfold pmaRegmapStatus PmaRegmap.freeWindow PmaRegmap.evictableWindow
  by_cases evictions : regmap.frameEvictionsInProcess > 0
  · simp only [evictions, if_true, statusCheck_eq_none, clear, true_implies]
    tauto
  · simp only [evictions, if_false, statusCheck_eq_none, clear, false_implies, true_and]
    tauto

theorem pmaRegmapStatus_frame (ordered : start.toNat ≤ endFrame.toNat) (small : endFrame.toNat < 2 ^ 63)
    {result : NvStatus × UInt64} (status : pmaRegmapStatus regmap start endFrame = some result) :
    start.toNat ≤ result.2.toNat ∧ result.2.toNat ≤ endFrame.toNat := by
  have last : ∀ result : NvStatus × UInt64, (none : Option (NvStatus × UInt64)) = some result →
      start.toNat ≤ result.2.toNat ∧ result.2.toNat ≤ endFrame.toNat := by
    intro result impossible
    cases impossible
  unfold pmaRegmapStatus at status
  revert result
  split
  · apply statusCheck_frame ordered small
    apply statusCheck_frame ordered small
    apply statusCheck_frame ordered small
    apply statusCheck_frame ordered small
    apply statusCheck_frame ordered small
    apply statusCheck_frame ordered small
    exact last
  · apply statusCheck_frame ordered small
    apply statusCheck_frame ordered small
    apply statusCheck_frame ordered small
    apply statusCheck_frame ordered small
    apply statusCheck_frame ordered small
    exact last

theorem pmaRegmapStatus_eq_inUse (ordered : start.toNat ≤ endFrame.toNat) (small : endFrame.toNat < 2 ^ 63)
    {frameIndex : UInt64} (status : pmaRegmapStatus regmap start endFrame = some (.nvErrInUse, frameIndex)) :
    regmap.evictableWindow start.toNat endFrame.toNat ∧ start.toNat ≤ frameIndex.toNat ∧
      frameIndex.toNat ≤ endFrame.toNat ∧ regmap.bit mapIdxAllocUnpin frameIndex.toNat = true := by
  have clear := fun i => checkOne_eq_neg_one_iff_clearIn regmap i ordered small
  have unpinned : checkOne (regmap.map mapIdxAllocUnpin) start endFrame ≠ -1 →
      start.toNat ≤ (checkOne (regmap.map mapIdxAllocUnpin) start endFrame).toNat ∧
        (checkOne (regmap.map mapIdxAllocUnpin) start endFrame).toNat ≤ endFrame.toNat ∧
        regmap.bit mapIdxAllocUnpin (checkOne (regmap.map mapIdxAllocUnpin) start endFrame).toNat = true := by
    intro set
    rcases checkOne_spec (regmap.map mapIdxAllocUnpin) ordered small with ⟨unset, _⟩ | inside
    · exact absurd unset set
    · exact inside
  unfold pmaRegmapStatus at status
  unfold PmaRegmap.evictableWindow
  by_cases evictions : regmap.frameEvictionsInProcess > 0
  · simp only [evictions, if_true, statusCheck_eq_some, Prod.mk.injEq, reduceCtorEq, false_and, and_false,
      false_or, or_false, true_and] at status
    obtain ⟨pin, evicting, scrubbing, numa, set, rfl⟩ := status
    exact ⟨⟨(clear _).mp pin, fun _ => (clear _).mp evicting, (clear _).mp scrubbing, (clear _).mp numa⟩,
      unpinned set⟩
  · simp only [evictions, if_false, statusCheck_eq_some, Prod.mk.injEq, reduceCtorEq, false_and, and_false,
      false_or, or_false, true_and] at status
    obtain ⟨pin, scrubbing, numa, set, rfl⟩ := status
    exact ⟨⟨(clear _).mp pin, fun active => absurd active evictions, (clear _).mp scrubbing, (clear _).mp numa⟩,
      unpinned set⟩

theorem ne_allFree_of_small {frame : UInt64} (small : frame.toNat < 2 ^ 63) : frame ≠ allFree := by
  intro same
  rw [same] at small
  exact absurd small (by decide)

theorem ne_evictable_of_small {frame : UInt64} (small : frame.toNat < 2 ^ 63) : frame ≠ evictable := by
  intro same
  rw [same] at small
  exact absurd small (by decide)

def unpinnedFirstRegmap : PmaRegmap :=
  (runCalls [.changeState 0 stateUnpin] (pmaRegmapInit 3 ⟨0, 0, 0, 0, 0, 0⟩ false)).1

end Window

/-! ## The search loops -/

theorem nonNegative_neg_one : nonNegative (-1) = false := by decide

section Loops

variable (regmap : PmaRegmap) (numFrames frameAlignment : UInt64) (bSearchEvictable : Bool)

theorem scanContiguousSearchLoop_found (localEnd frameAlignmentPadding : UInt64) (fuel : Nat) :
    ∀ freeStart found, scanContiguousSearchLoop regmap numFrames localEnd frameAlignment frameAlignmentPadding
        bSearchEvictable freeStart fuel = found → nonNegative found = true →
      found + numFrames - 1 ≤ localEnd ∧ endpointUsable regmap bSearchEvictable found ∧
        endpointUsable regmap bSearchEvictable (found + numFrames - 1) ∧
        searchUseFunc bSearchEvictable regmap found (found + numFrames - 1) = searchCheckDiff bSearchEvictable := by
  induction fuel with
  | zero =>
      rintro freeStart found rfl returned
      exact absurd returned (by rw [scanContiguousSearchLoop, nonNegative_neg_one]; decide)
  | succ fuel ih =>
      intro freeStart found search returned
      simp only [scanContiguousSearchLoop] at search
      split at search
      · rename_i fits
        split at search
        · rename_i endUsable
          split at search
          · rename_i startUsable
            split at search
            · rename_i accepted
              subst search
              exact ⟨fits, startUsable, endUsable, beq_iff_eq.mp accepted⟩
            · exact ih _ _ search returned
          · exact ih _ _ search returned
        · exact ih _ _ search returned
      · subst search
        exact absurd returned (by rw [nonNegative_neg_one]; decide)

theorem scanContiguousSearchLoopReverse_found (localStart : UInt64) (fuel : Nat) :
    ∀ freeStart found, scanContiguousSearchLoopReverse regmap numFrames localStart frameAlignment
        bSearchEvictable freeStart fuel = found → nonNegative found = true →
      localStart ≤ found ∧ endpointUsable regmap bSearchEvictable found ∧
        endpointUsable regmap bSearchEvictable (found + numFrames - 1) ∧
        searchUseFunc bSearchEvictable regmap found (found + numFrames - 1) = searchCheckDiff bSearchEvictable := by
  induction fuel with
  | zero =>
      rintro freeStart found rfl returned
      exact absurd returned (by rw [scanContiguousSearchLoopReverse, nonNegative_neg_one]; decide)
  | succ fuel ih =>
      intro freeStart found search returned
      simp only [scanContiguousSearchLoopReverse] at search
      split at search
      · rename_i inRange
        split at search
        · rename_i startUsable
          split at search
          · rename_i endUsable
            split at search
            · rename_i accepted
              subst search
              have above : localStart ≤ freeStart := by
                simp only [Bool.and_eq_true, decide_eq_true_eq] at inRange
                exact inRange.1
              exact ⟨above, startUsable, endUsable, beq_iff_eq.mp accepted⟩
            · exact ih _ _ search returned
          · exact ih _ _ search returned
        · exact ih _ _ search returned
      · subst search
        exact absurd returned (by rw [nonNegative_neg_one]; decide)

end Loops

def unpinnedFirstScan : ScanResult := pmaRegmapScanContiguous unpinnedFirstRegmap 0 0 0 2 0x10000 0x10000 false false

def persistentFrameRegmap : PmaRegmap :=
  (runCalls [.changeStateAttribEx 2 attribPersistent attribPersistent] (pmaRegmapInit 4 ⟨0, 0, 0, 0, 0, 0⟩ false)).1

/-- The window of frames 1 to 3 of `persistentFrameRegmap` has free endpoints
and passes `_pmaRegmapStatus`, which does not look at the persistent plane; the
forward search still misses it: the window from frame 0 ends on frame 2, whose
status word is not `STATE_FREE`, and the skip past that endpoint lands on
frame 3.  The backward search finds it. -/
theorem scanContiguousSearchLoop_skips_window :
    (1 + 3 - 1 ≤ 3 ∧ endpointUsable persistentFrameRegmap false 1 ∧
        endpointUsable persistentFrameRegmap false (1 + 3 - 1) ∧
        pmaRegmapStatus persistentFrameRegmap 1 (1 + 3 - 1) = none) ∧
      scanContiguousSearchLoop persistentFrameRegmap 3 3 1 0 false 0 5 = -1 ∧
      scanContiguousSearchLoopReverse persistentFrameRegmap 3 0 1 false (alignedStartBelow 3 3 0 1) 5 = 1 ∧
      pmaRegmapScanContiguous persistentFrameRegmap 0 0 0 3 0x10000 0x10000 true false =
        { status := .nvErrNoMemory, freeList := [], numPagesAlloc := 0 } := by
  decide

/-! ## Blacklisted frames in evictable windows -/

/-- `_pmaRegmapEvictable` answers `EVICTABLE` for every evictable window with an
unpinned frame, whatever the blacklist holds: `ALLOC_UNPIN` is checked first and
ends the checks. -/
theorem pmaRegmapEvictable_of_unpinned (regmap : PmaRegmap) {start endFrame : UInt64}
    (ordered : start.toNat ≤ endFrame.toNat) (small : endFrame.toNat < 2 ^ 63)
    (window : regmap.evictableWindow start.toNat endFrame.toNat)
    (unpinned : ¬regmap.clearIn mapIdxAllocUnpin start.toNat endFrame.toNat) :
    pmaRegmapEvictable regmap start endFrame = evictable := by
  have clear := fun i => checkOne_eq_neg_one_iff_clearIn regmap i ordered small
  obtain ⟨pin, evicting, scrubbing, numa⟩ := window
  have unpinSet : (checkOne (regmap.map mapIdxAllocUnpin) start endFrame != -1) = true := by
    simpa [clear] using unpinned
  have afterEvicting : statusCheck (regmap.map mapIdxScrubbing) start endFrame .nvErrNoMemory
      (statusCheck (regmap.map mapIdxNumaReuse) start endFrame .nvErrNoMemory
        (statusCheck (regmap.map mapIdxAllocUnpin) start endFrame .nvErrInUse
          (statusCheck (regmap.map mapIdxBlacklist) start endFrame .nvErrNoMemory none))) =
      some (.nvErrInUse, checkOne (regmap.map mapIdxAllocUnpin) start endFrame) := by
    simp only [statusCheck, (clear _).mpr scrubbing, (clear _).mpr numa, unpinSet, bne_self_eq_false,
      Bool.false_eq_true, if_false, if_true]
  have status : pmaRegmapStatus regmap start endFrame =
      some (.nvErrInUse, checkOne (regmap.map mapIdxAllocUnpin) start endFrame) := by
    unfold pmaRegmapStatus
    rw [← afterEvicting]
    simp only [statusCheck, (clear _).mpr pin, bne_self_eq_false, Bool.false_eq_true, if_false]
    by_cases evictions : regmap.frameEvictionsInProcess > 0
    · simp only [evictions, if_true, (clear _).mpr (evicting evictions), bne_self_eq_false,
        Bool.false_eq_true, if_false]
    · simp only [evictions, if_false]
  rw [pmaRegmapEvictable, status]

/-- A region of three frames: frame 0 allocated unpinned, frame 1 free and
blacklisted.  The scan for one contiguous run of three 64KB pages finds no free
window, and its evictable pass returns the window of frames 0 to 2, blacklisted
frame included. -/
theorem evictableScan_returns_blacklisted_frame :
    pmaRegmapScanContiguous
        (runCalls [.changeState 0 stateUnpin, .changeStateAttribEx 1 attribBlacklist attribBlacklist]
          (pmaRegmapInit 3 ⟨0, 0, 0, 0, 0, 0⟩ false)).1 0 0 0 3 0x10000 0x10000 false false =
      { status := .nvErrInUse, freeList := [0], numPagesAlloc := 0 } ∧
    (runCalls [.changeState 0 stateUnpin, .changeStateAttribEx 1 attribBlacklist attribBlacklist]
        (pmaRegmapInit 3 ⟨0, 0, 0, 0, 0, 0⟩ false)).1.bit mapIdxBlacklist 1 = true := by
  decide

/-- `_pmaRegmapEvictable` answers `EVICTABLE` exactly for an evictable window
with an unpinned frame. -/
theorem pmaRegmapEvictable_eq_evictable_iff (regmap : PmaRegmap) {start endFrame : UInt64}
    (ordered : start.toNat ≤ endFrame.toNat) (small : endFrame.toNat < 2 ^ 63) :
    pmaRegmapEvictable regmap start endFrame = evictable ↔
      regmap.evictableWindow start.toNat endFrame.toNat ∧ ¬regmap.clearIn mapIdxAllocUnpin start.toNat endFrame.toNat := by
  constructor
  · intro answer
    unfold pmaRegmapEvictable at answer
    split at answer
    · cases answer
    · rename_i frameIndex inUse
      obtain ⟨window, above, below, unpinned⟩ := pmaRegmapStatus_eq_inUse regmap ordered small inUse
      refine ⟨window, fun clear => ?_⟩
      rw [clear _ above below] at unpinned
      cases unpinned
    · rename_i status unavailable _ found
      have inside := pmaRegmapStatus_frame regmap ordered small found
      exact absurd answer (ne_evictable_of_small (by simp only at inside; omega))
  · rintro ⟨window, unpinned⟩
    exact pmaRegmapEvictable_of_unpinned regmap ordered small window unpinned

theorem unpinnedFirstRegmap_evictable :
    (0 : UInt64).toNat ≤ (2 : UInt64).toNat ∧ (2 : UInt64).toNat < 2 ^ 63 ∧
      (pmaRegmapEvictable unpinnedFirstRegmap 0 2 = evictable ↔
        unpinnedFirstRegmap.evictableWindow (0 : UInt64).toNat (2 : UInt64).toNat ∧
          ¬unpinnedFirstRegmap.clearIn mapIdxAllocUnpin (0 : UInt64).toNat (2 : UInt64).toNat) :=
  ⟨by decide, by decide, pmaRegmapEvictable_eq_evictable_iff unpinnedFirstRegmap (by decide) (by decide)⟩

end NvidiaGpu.Regmap
