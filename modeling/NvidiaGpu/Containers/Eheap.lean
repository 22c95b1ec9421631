import NvidiaGpu.Containers.BtreeInsert
import NvidiaGpu.Containers.BtreeUnlink

set_option autoImplicit false

/-! `eheapAlloc` of the RM's extent heap (`eheap_old.c`).  The heap's blocks
live in a store indexed by their addresses, and `next`/`prev` and
`nextFree`/`prevFree` are indices into it, so that the pointer updates of the
source are updates of the store.  Each block's `node` lies in the heap's
search tree `pBlockTree`, a `BtreeMem` over the same indices, keyed by the
block's interval; `got_one` takes a node out while its interval changes and
puts it back, and a tree call that fails jumps to `failed`, which gives back
the structs taken but undoes nothing else.  `_eheapAllocMemStruct` hands out
the structs of `memStructs`, the pre-allocated pool or the allocations that
would succeed, and fails when it is empty.  `_eheapCheckOwnership`, which
reads the block tree and the caller's comparator, enters as the parameter
`check`; it is consulted only with owner isolation on. -/

namespace NvidiaGpu.Eheap

open Btree RedBlack

/-- The fields of an `EMEMBLOCK` that `eheapAlloc` reads or writes, but its
`node`. -/
structure EMemBlock where
  begin : UInt64
  «end» : UInt64
  align : UInt64
  refCount : UInt32
  owner : UInt32
  prevFree : Nat
  nextFree : Nat
  prev : Nat
  next : Nat
  deriving DecidableEq, Repr

/-- The fields of an `OBJEHEAP` that `eheapAlloc` reads or writes; the nodes
of the blocks are `blockTree`. -/
structure ObjEHeap where
  base : UInt64
  total : UInt64
  free : UInt64
  rangeLo : UInt64
  rangeHi : UInt64
  bOwnerIsolation : Bool
  ownerGranularity : UInt32
  pBlockList : Nat
  pFreeBlockList : Option Nat
  numBlocks : UInt32
  blocks : Nat → EMemBlock
  blockTree : BtreeMem Nat
  memStructs : List Nat

def nvos32AllocFlagsForceMemGrowsDown : UInt32 := 0x00000004
def nvos32AllocFlagsFixedAddressAllocate : UInt32 := 0x00000010
def nvos32AllocFlagsForceInternalIndex : UInt32 := 0x00100000
def nvos32BlockTypeFree : UInt32 := 0xFFFFFFFF

def nvAlignDown (v gran : UInt64) : UInt64 := v &&& ~~~(v - v + gran - 1)

def nvAlignUp (v gran : UInt64) : UInt64 := (v + (gran - 1)) &&& ~~~(v - v + gran - 1)

def setBlock (blocks : Nat → EMemBlock) (index : Nat) (write : EMemBlock → EMemBlock) : Nat → EMemBlock :=
  Function.update blocks index (write (blocks index))

def setKeyStart (heap : ObjEHeap) (block : Nat) (value : UInt64) : ObjEHeap :=
  { heap with blockTree := { heap.blockTree with keyStart := Function.update heap.blockTree.keyStart block value.toNat } }

def setKeyEnd (heap : ObjEHeap) (block : Nat) (value : UInt64) : ObjEHeap :=
  { heap with blockTree := { heap.blockTree with keyEnd := Function.update heap.blockTree.keyEnd block value.toNat } }

def zeroNode (heap : ObjEHeap) (block : Nat) : ObjEHeap :=
  let links := (((heap.blockTree.toMem.setRed block false).setParent block none).setChild .left block none).setChild
    .right block none
  setKeyEnd (setKeyStart { heap with blockTree := { heap.blockTree with toMem := links } } block 0) block 0

def resetNode (heap : ObjEHeap) (block : Nat) : ObjEHeap :=
  setKeyEnd (setKeyStart (zeroNode heap block) block (heap.blocks block).begin) block (heap.blocks block).«end»

def treeFuel (heap : ObjEHeap) : Nat :=
  heap.numBlocks.toNat + 2

def eheapBtreeInsert (heap : ObjEHeap) (block : Nat) : Option (NvStatus × ObjEHeap) :=
  (btreeInsert heap.blockTree (some block) (treeFuel heap)).map fun (status, tree) =>
    (status, { heap with blockTree := tree })

def eheapBtreeUnlink (heap : ObjEHeap) (block : Nat) : Option (NvStatus × ObjEHeap) :=
  (btreeUnlink heap.blockTree (some block) (treeFuel heap)).map fun (status, tree) =>
    (status, { heap with blockTree := tree })

def eheapAllocMemStruct (heap : ObjEHeap) : Option (Nat × ObjEHeap) :=
  match heap.memStructs with
  | [] => none
  | block :: rest => some (block, { heap with memStructs := rest })

/-- `_eheapFreeMemStruct`: the struct, its node with it, zeroed and back on
the list of free structs. -/
def eheapFreeMemStruct (heap : ObjEHeap) (block : Nat) : ObjEHeap :=
  let heap := zeroNode heap block
  { heap with blocks := Function.update heap.blocks block ⟨0, 0, 0, 0, 0, 0, 0, 0, 0⟩,
              memStructs := block :: heap.memStructs }

def emptyBlockTree : BtreeMem Nat :=
  ⟨⟨fun _ => false, fun _ => none, fun _ => none, fun _ => none, none⟩, fun _ => 0, fun _ => 0⟩

/-- `eheapInit(base, limitPlusOne)`: a heap of one free block, in the tree;
`none` for `NV_ERR_OPERATING_SYSTEM`. -/
def eheapInit (base limitPlusOne : UInt64) (memStructs : List Nat) : Option ObjEHeap :=
  let heap : ObjEHeap :=
    { base := base, total := limitPlusOne - base, free := limitPlusOne - base, rangeLo := base,
      rangeHi := base + (limitPlusOne - base) - 1, bOwnerIsolation := false, ownerGranularity := 0,
      pBlockList := 0, pFreeBlockList := none, numBlocks := 0, blocks := fun _ => ⟨0, 0, 0, 0, 0, 0, 0, 0, 0⟩,
      blockTree := emptyBlockTree, memStructs := memStructs }
  match eheapAllocMemStruct heap with
  | none => none
  | some (block, heap) =>
      let heap := { heap with
        blocks := setBlock heap.blocks block fun b =>
          { b with owner := nvos32BlockTypeFree, refCount := 0, begin := base, align := base,
                   «end» := limitPlusOne - 1, prevFree := block, nextFree := block, next := block, prev := block }
        pBlockList := block, pFreeBlockList := some block, numBlocks := 1 }
      match eheapBtreeInsert (resetNode heap block) block with
      | some (.nvOk, heap) => some heap
      | _ => none

/-- Where a search places the request: in the free block `blockFree`, at
`[allocLo, allocHi]` with the returned offset `allocAl`. -/
structure Fit where
  blockFree : Nat
  allocLo : UInt64
  allocAl : UInt64
  allocHi : UInt64
  deriving DecidableEq, Repr

/-- The placement lies in order inside its free block and inside
`[rangeLo, rangeHi]`. -/
def Fit.Inside (heap : ObjEHeap) (rangeLo rangeHi : UInt64) (fit : Fit) : Prop :=
  (heap.blocks fit.blockFree).begin ≤ fit.allocLo ∧ fit.allocHi ≤ (heap.blocks fit.blockFree).«end» ∧
    fit.allocLo ≤ fit.allocHi ∧ rangeLo ≤ fit.allocLo ∧ fit.allocHi ≤ rangeHi

/-- The range `eheapAlloc` searches: the heap's range, its whole extent when no
range is set, and never past its last byte. -/
def eheapAllocRange (heap : ObjEHeap) : UInt64 × UInt64 :=
  let range := if heap.rangeLo = 0 ∧ heap.rangeHi = 0 then (heap.base, heap.base + heap.total - 1)
    else (heap.rangeLo, heap.rangeHi)
  (range.1, if range.2 > heap.base + heap.total - 1 then heap.base + heap.total - 1 else range.2)

/-- The inner loop of the `FORCE_INTERNAL_INDEX` search over one free block,
stepping `desiredOffset` by the owner granularity; `fuel` bounds the steps.
Unless `desiredOffset` wraps, the loop ends within `end + 1` steps. -/
def internalIndexScan (heap : ObjEHeap) (check : UInt64 → UInt64 → Nat → Bool) (allocSize : UInt64)
    (blockFree : Nat) : Nat → UInt64 → Option Fit
  | 0, _ => none
  | fuel + 1, desiredOffset =>
      let block := heap.blocks blockFree
      let granularity := heap.ownerGranularity.toUInt64
      if desiredOffset + allocSize - 1 ≤ block.«end» then
        let desiredOffsetLo := nvAlignDown desiredOffset granularity
        let desiredOffsetHi := if desiredOffset % granularity = 0 then nvAlignUp (desiredOffset + 1) granularity
          else nvAlignUp desiredOffset granularity
        if desiredOffset ≥ block.begin ∧ desiredOffsetLo ≥ block.begin ∧ desiredOffsetHi ≤ block.«end» ∧
            check desiredOffset (desiredOffset + allocSize - 1) blockFree then
          some ⟨blockFree, desiredOffset, desiredOffset, desiredOffset + allocSize - 1⟩
        else internalIndexScan heap check allocSize blockFree fuel (desiredOffset + granularity)
      else none

def internalIndexSearch (heap : ObjEHeap) (check : UInt64 → UInt64 → Nat → Bool) (allocSize offsetAlign : UInt64)
    (first : Nat) : Nat → Nat → Option Fit
  | 0, _ => none
  | fuel + 1, blockFree =>
      let desiredOffset := nvAlignDown (heap.blocks blockFree).begin heap.ownerGranularity.toUInt64 + offsetAlign
      match internalIndexScan heap check allocSize blockFree ((heap.blocks blockFree).«end».toNat + 1) desiredOffset with
      | some fit => some fit
      | none =>
          if (heap.blocks blockFree).nextFree = first then none
          else internalIndexSearch heap check allocSize offsetAlign first fuel (heap.blocks blockFree).nextFree

/-- The `FIXED_ADDRESS_ALLOCATE` search: each free block from the one after
`first`, around to `first`, is asked whether it holds the request. -/
def fixedAddressSearch (heap : ObjEHeap) (check : UInt64 → UInt64 → Nat → Bool) (desiredOffset allocSize : UInt64)
    (first : Nat) : Nat → Nat → Option Fit
  | 0, _ => none
  | fuel + 1, current =>
      let blockFree := (heap.blocks current).nextFree
      let block := heap.blocks blockFree
      if desiredOffset ≥ block.begin ∧ desiredOffset + allocSize - 1 ≤ block.«end» then
        if heap.bOwnerIsolation ∧ !check desiredOffset (desiredOffset + allocSize - 1) blockFree then none
        else some ⟨blockFree, desiredOffset, desiredOffset, desiredOffset + allocSize - 1⟩
      else if blockFree = first then none
      else fixedAddressSearch heap check desiredOffset allocSize first fuel blockFree

/-- `allocLo`, `allocAl` and `allocHi` in `[blockLo, blockHi]`: the top of it
growing down, the bottom of it growing up. -/
def placeAlloc (growsDown : Bool) (allocSize offsetAlign blockLo blockHi : UInt64) : UInt64 × UInt64 × UInt64 :=
  if growsDown then
    let allocLo := (blockHi - allocSize + 1) / offsetAlign * offsetAlign
    (allocLo, allocLo, allocLo + allocSize - 1)
  else
    let allocAl := (blockLo + (offsetAlign - 1)) / offsetAlign * offsetAlign
    (allocAl, allocAl, allocAl + allocSize - 1)

/-- The owner-isolation step of the search: the placement if its owners
agree, else one retry past the granule it starts or ends in. -/
def isolatedPlace (heap : ObjEHeap) (check : UInt64 → UInt64 → Nat → Bool) (growsDown : Bool)
    (allocSize offsetAlign blockLo blockHi : UInt64) (blockFree : Nat) : Option (UInt64 × UInt64 × UInt64) :=
  let block := heap.blocks blockFree
  let placed := placeAlloc growsDown allocSize offsetAlign blockLo blockHi
  let granularity := heap.ownerGranularity.toUInt64
  if check placed.1 placed.2.2 blockFree then some placed
  else if growsDown then
    let checkLo := nvAlignDown placed.1 granularity
    if checkLo > block.begin then
      let retry := placeAlloc true allocSize offsetAlign blockLo checkLo
      if check retry.1 retry.2.2 blockFree then some retry else none
    else none
  else
    let checkHi := nvAlignUp placed.2.2 granularity
    if checkHi < block.«end» then
      let retry := placeAlloc false allocSize offsetAlign checkHi blockHi
      if check retry.1 retry.2.2 blockFree then some retry else none
    else none

/-- One block of the search of `[rangeLo, rangeHi]`: the placement in the
block's part of the range, when it passes the checks of `alloc_done`. -/
def rangePlace (heap : ObjEHeap) (check : UInt64 → UInt64 → Nat → Bool) (growsDown : Bool)
    (rangeLo rangeHi allocSize offsetAlign : UInt64) (blockFree : Nat) : Option Fit :=
  let block := heap.blocks blockFree
  if block.«end» < rangeLo ∨ block.begin > rangeHi then none
  else
    let blockLo := if rangeLo > block.begin then rangeLo else block.begin
    let blockHi := if rangeHi < block.«end» then rangeHi else block.«end»
    let placed := if heap.bOwnerIsolation then
        isolatedPlace heap check growsDown allocSize offsetAlign blockLo blockHi blockFree
      else some (placeAlloc growsDown allocSize offsetAlign blockLo blockHi)
    match placed with
    | some (allocLo, allocAl, allocHi) =>
        if allocLo ≥ block.begin ∧ allocHi ≤ block.«end» ∧ allocLo ≤ allocHi ∧ allocLo ≥ rangeLo ∧
            allocHi ≤ rangeHi then
          some ⟨blockFree, allocLo, allocAl, allocHi⟩
        else none
    | none => none

/-- The search of `[rangeLo, rangeHi]` around the free list from `first`, up
the list or, growing down, down it. -/
def rangeSearch (heap : ObjEHeap) (check : UInt64 → UInt64 → Nat → Bool) (growsDown : Bool)
    (rangeLo rangeHi allocSize offsetAlign : UInt64) (first : Nat) : Nat → Nat → Option Fit
  | 0, _ => none
  | fuel + 1, blockFree =>
      match rangePlace heap check growsDown rangeLo rangeHi allocSize offsetAlign blockFree with
      | some fit => some fit
      | none =>
          let following := if growsDown then (heap.blocks blockFree).prevFree else (heap.blocks blockFree).nextFree
          if following = first then none
          else rangeSearch heap check growsDown rangeLo rangeHi allocSize offsetAlign first fuel following

/-- `got_one` with the free block taken whole: it leaves the free list and
becomes the new block. -/
def takeWhole (heap : ObjEHeap) (owner : UInt32) (fit : Fit) : Nat × ObjEHeap :=
  let blockFree := fit.blockFree
  let blocks := setBlock heap.blocks (heap.blocks blockFree).nextFree fun b =>
    { b with prevFree := (heap.blocks blockFree).prevFree }
  let blocks := setBlock blocks (blocks blockFree).prevFree fun b => { b with nextFree := (blocks blockFree).nextFree }
  let pFreeBlockList := if heap.pFreeBlockList = some blockFree then
      (if (blocks blockFree).nextFree = blockFree then none else some (blocks blockFree).nextFree)
    else heap.pFreeBlockList
  let blocks := setBlock blocks blockFree fun b => { b with owner := owner, refCount := 1, align := fit.allocAl }
  (blockFree, { heap with blocks := blocks, pFreeBlockList := pFreeBlockList })

/-- `got_one` with the new block cut from the middle of the free block: the
rest above it becomes the free block `blockSplit`. -/
def cutMiddle (heap : ObjEHeap) (blockFree blockNew blockSplit : Nat) : ObjEHeap :=
  let blocks := heap.blocks
  let blocks := setBlock blocks blockSplit fun b =>
    { b with owner := nvos32BlockTypeFree, refCount := 0, begin := (blocks blockNew).«end» + 1,
             align := (blocks blockNew).«end» + 1, «end» := (blocks blockFree).«end» }
  let blocks := setBlock blocks blockFree fun b => { b with «end» := (blocks blockNew).begin - 1 }
  let blocks := setBlock blocks blockSplit fun b => { b with nextFree := (blocks blockFree).nextFree, prevFree := blockFree }
  let blocks := setBlock blocks (blocks blockSplit).nextFree fun b => { b with prevFree := blockSplit }
  let blocks := setBlock blocks blockFree fun b => { b with nextFree := blockSplit }
  let blocks := setBlock blocks blockNew fun b => { b with next := blockSplit, prev := blockFree }
  let blocks := setBlock blocks blockSplit fun b => { b with next := (blocks blockFree).next, prev := blockNew }
  let blocks := setBlock blocks blockFree fun b => { b with next := blockNew }
  let blocks := setBlock blocks (blocks blockSplit).next fun b => { b with prev := blockSplit }
  { heap with blocks := blocks, numBlocks := heap.numBlocks + 1 }

def cutTop (heap : ObjEHeap) (blockFree blockNew : Nat) : ObjEHeap :=
  let blocks := heap.blocks
  let blocks := setBlock blocks blockFree fun b => { b with «end» := (blocks blockNew).begin - 1 }
  let blocks := setBlock blocks blockNew fun b => { b with next := (blocks blockFree).next, prev := blockFree }
  let blocks := setBlock blocks (blocks blockFree).next fun b => { b with prev := blockNew }
  let blocks := setBlock blocks blockFree fun b => { b with next := blockNew }
  { heap with blocks := blocks }

def cutBottom (heap : ObjEHeap) (blockFree blockNew : Nat) : ObjEHeap :=
  let blocks := heap.blocks
  let blocks := setBlock blocks blockFree fun b =>
    { b with begin := (blocks blockNew).«end» + 1, align := (blocks blockNew).«end» + 1 }
  let blocks := setBlock blocks blockNew fun b => { b with next := blockFree, prev := (blocks blockFree).prev }
  let blocks := setBlock blocks (blocks blockFree).prev fun b => { b with next := blockNew }
  let blocks := setBlock blocks blockFree fun b => { b with prev := blockNew }
  { heap with blocks := blocks, pBlockList := if heap.pBlockList = blockFree then blockNew else heap.pBlockList }

/-- A tree call of `got_one`: on to the next step with the heap it leaves
when it returns `NV_OK`, else `goto failed` with that heap. -/
def orFailed : Option (NvStatus × ObjEHeap) → ExceptT ObjEHeap Option ObjEHeap
  | none => ExceptT.lift none
  | some (status, heap) => if status = .nvOk then pure heap else throw heap

/-- The middle split of `got_one`: the free block's node leaves the tree while
the block shrinks and comes back, then the new and the split block's nodes go
in. -/
def splitMiddle (heap : ObjEHeap) (blockFree blockNew blockSplit : Nat) : ExceptT ObjEHeap Option ObjEHeap := do
  let heap ← orFailed (eheapBtreeUnlink heap blockFree)
  let heap := cutMiddle heap blockFree blockNew blockSplit
  let heap ← orFailed (eheapBtreeInsert (setKeyEnd heap blockFree (heap.blocks blockFree).«end») blockFree)
  let heap := resetNode (resetNode heap blockNew) blockSplit
  let heap ← orFailed (eheapBtreeInsert heap blockNew)
  orFailed (eheapBtreeInsert heap blockSplit)

def splitTop (heap : ObjEHeap) (blockFree blockNew : Nat) : ExceptT ObjEHeap Option ObjEHeap := do
  let heap ← orFailed (eheapBtreeUnlink heap blockFree)
  let heap := cutTop heap blockFree blockNew
  let heap ← orFailed (eheapBtreeInsert (setKeyEnd heap blockFree (heap.blocks blockFree).«end») blockFree)
  orFailed (eheapBtreeInsert (resetNode heap blockNew) blockNew)

def splitBottom (heap : ObjEHeap) (blockFree blockNew : Nat) : ExceptT ObjEHeap Option ObjEHeap := do
  let heap ← orFailed (eheapBtreeUnlink heap blockFree)
  let heap := cutBottom heap blockFree blockNew
  let heap ← orFailed (eheapBtreeInsert (setKeyStart heap blockFree (heap.blocks blockFree).begin) blockFree)
  orFailed (eheapBtreeInsert (resetNode heap blockNew) blockNew)

/-- `got_one`: the new block and the heap with it linked in, or the heap that
`failed` leaves, with the structs it took given back; `none` when a loop of the
tree runs out of rounds. -/
def gotOne (heap : ObjEHeap) (owner : UInt32) (fit : Fit) : ExceptT ObjEHeap Option (Nat × ObjEHeap) :=
  let block := heap.blocks fit.blockFree
  if fit.allocLo = block.begin ∧ fit.allocHi = block.«end» then pure (takeWhole heap owner fit)
  else if fit.allocLo ≥ block.begin ∧ fit.allocHi ≤ block.«end» then
    match eheapAllocMemStruct heap with
    | none => throw heap
    | some (blockNew, heap) =>
        let heap := { heap with blocks := setBlock heap.blocks blockNew fun b =>
          { b with owner := owner, refCount := 1, begin := fit.allocLo, align := fit.allocAl, «end» := fit.allocHi } }
        let linked : ExceptT ObjEHeap Option ObjEHeap :=
          if block.begin < fit.allocLo ∧ block.«end» > fit.allocHi then
            match eheapAllocMemStruct heap with
            | none => throw (eheapFreeMemStruct heap blockNew)
            | some (blockSplit, heap) =>
                tryCatch (splitMiddle heap fit.blockFree blockNew blockSplit) fun heap =>
                  throw (eheapFreeMemStruct (eheapFreeMemStruct heap blockNew) blockSplit)
          else if block.«end» = fit.allocHi then
            tryCatch (splitTop heap fit.blockFree blockNew) fun heap => throw (eheapFreeMemStruct heap blockNew)
          else if block.begin = fit.allocLo then
            tryCatch (splitBottom heap fit.blockFree blockNew) fun heap => throw (eheapFreeMemStruct heap blockNew)
          else throw (eheapFreeMemStruct heap blockNew)
        linked.map fun heap => (blockNew, { heap with numBlocks := heap.numBlocks + 1 })
  -- not reached: every search checks that the block holds the request, and a
  -- `NULL` `blockNew` would be dereferenced
  else ExceptT.lift none

/-- The search of `eheapAlloc`: `none` when it returns
`NV_ERR_INVALID_ARGUMENT` first, else where the request fits, if anywhere. -/
def eheapAllocSearch (check : UInt64 → UInt64 → Nat → Bool) (heap : ObjEHeap) (flags : UInt32)
    (desiredOffset allocSize offsetAlign : UInt64) : Option (Option Fit) :=
  let (rangeLo, rangeHi) := eheapAllocRange heap
  if flags &&& nvos32AllocFlagsForceInternalIndex ≠ 0 then
    if heap.ownerGranularity = 0 ∨ ¬heap.bOwnerIsolation then none
    else some (heap.pFreeBlockList.bind fun first =>
      internalIndexSearch heap check allocSize offsetAlign first heap.numBlocks.toNat first)
  else if flags &&& nvos32AllocFlagsFixedAddressAllocate ≠ 0 then
    if desiredOffset % offsetAlign ≠ 0 then some none
    else some (heap.pFreeBlockList.bind fun first =>
      fixedAddressSearch heap check desiredOffset allocSize first heap.numBlocks.toNat first)
  else
    let growsDown := flags &&& nvos32AllocFlagsForceMemGrowsDown ≠ 0
    some (heap.pFreeBlockList.bind fun first =>
      let start := if growsDown then (heap.blocks first).prevFree else first
      rangeSearch heap check growsDown rangeLo rangeHi allocSize offsetAlign start heap.numBlocks.toNat start)

/-- What `eheapAlloc` returns and leaves in `*offset`, `*size` and
`*ppMemBlock`. -/
structure EheapAllocResult where
  status : NvStatus
  heap : ObjEHeap
  offset : UInt64
  size : UInt64
  block : Option Nat

def eheapAllocFinish (heap : ObjEHeap) (owner : UInt32) (size allocSize : UInt64) :
    Option Fit → Option EheapAllocResult
  | none => some ⟨.nvErrNoMemory, heap, 0, size, none⟩
  | some fit =>
      (gotOne heap owner fit).run.map fun
        | .error heap => ⟨.nvErrNoMemory, heap, 0, size, none⟩
        | .ok (blockNew, heap) =>
            let new := heap.blocks blockNew
            ⟨.nvOk, { heap with free := heap.free - (new.«end» - new.begin + 1) }, new.align, allocSize, some blockNew⟩

/-- `eheapAlloc(heap, owner, flags, offset, size, offsetAlign, sizeAlign)`;
`none` when a loop of the tree runs out of rounds. -/
def eheapAlloc (check : UInt64 → UInt64 → Nat → Bool) (heap : ObjEHeap) (owner flags : UInt32)
    (offset size offsetAlign sizeAlign : UInt64) : Option EheapAllocResult :=
  if flags &&& nvos32AllocFlagsForceInternalIndex ≠ 0 ∧ flags &&& nvos32AllocFlagsFixedAddressAllocate ≠ 0 then
    some ⟨.nvErrInvalidArgument, heap, offset, size, none⟩
  else
    let desiredOffset := if flags &&& nvos32AllocFlagsFixedAddressAllocate ≠ 0 then offset else 0
    let allocSize := (size + (sizeAlign - 1)) / sizeAlign * sizeAlign
    if size = 0 then some ⟨.nvErrInvalidArgument, heap, 0, size, none⟩
    else if (eheapAllocRange heap).1 > (eheapAllocRange heap).2 then some ⟨.nvErrInvalidArgument, heap, 0, size, none⟩
    else if heap.free < allocSize then some ⟨.nvErrNoMemory, heap, 0, size, none⟩
    else
      match eheapAllocSearch check heap flags desiredOffset allocSize offsetAlign with
      | none => some ⟨.nvErrInvalidArgument, heap, 0, size, none⟩
      | some found => eheapAllocFinish heap owner size allocSize found

section Search

variable {heap : ObjEHeap} {check : UInt64 → UInt64 → Nat → Bool} {growsDown : Bool}
  {rangeLo rangeHi allocSize offsetAlign : UInt64}

theorem rangePlace_inside {blockFree : Nat} {fit : Fit}
    (found : rangePlace heap check growsDown rangeLo rangeHi allocSize offsetAlign blockFree = some fit) :
    fit.Inside heap rangeLo rangeHi ∧ fit.blockFree = blockFree := by
  unfold rangePlace at found
  by_cases out : (heap.blocks blockFree).«end» < rangeLo ∨ (heap.blocks blockFree).begin > rangeHi
  · simp only [if_pos out, reduceCtorEq] at found
  · simp only [if_neg out] at found
    generalize (if heap.bOwnerIsolation = true then _ else _) = placed at found
    rcases placed with _ | ⟨allocLo, allocAl, allocHi⟩
    · cases found
    · simp only [Option.ite_none_right_eq_some, Option.some.injEq] at found
      obtain ⟨checks, rfl⟩ := found
      exact ⟨checks, rfl⟩

theorem rangeSearch_inside {first : Nat} : ∀ {fuel blockFree : Nat} {fit : Fit},
    rangeSearch heap check growsDown rangeLo rangeHi allocSize offsetAlign first fuel blockFree = some fit →
      fit.Inside heap rangeLo rangeHi := by
  intro fuel
  induction fuel with
  | zero => intro blockFree fit found; cases found
  | succ fuel ih =>
      intro blockFree fit found
      unfold rangeSearch at found
      split at found
      · rename_i placed
        cases found
        exact (rangePlace_inside placed).1
      · dsimp only at found
        generalize (if growsDown = true then _ else _) = following at found
        split at found
        · cases found
        · exact ih found

end Search

section Fixed

variable {heap : ObjEHeap} {check : UInt64 → UInt64 → Nat → Bool} {desiredOffset allocSize : UInt64}

theorem fixedAddressSearch_fit {first : Nat} : ∀ {fuel current : Nat} {fit : Fit},
    fixedAddressSearch heap check desiredOffset allocSize first fuel current = some fit →
      fit.allocLo = desiredOffset ∧ fit.allocAl = desiredOffset ∧ fit.allocHi = desiredOffset + allocSize - 1 ∧
        (heap.blocks fit.blockFree).begin ≤ fit.allocLo ∧ fit.allocHi ≤ (heap.blocks fit.blockFree).«end» := by
  intro fuel
  induction fuel with
  | zero => intro current fit found; cases found
  | succ fuel ih =>
      intro current fit found
      unfold fixedAddressSearch at found
      dsimp only at found
      split at found
      · rename_i contains
        split at found
        · cases found
        · cases found
          exact ⟨rfl, rfl, rfl, contains⟩
      · split at found
        · cases found
        · exact ih found

end Fixed

section Alloc

variable {check : UInt64 → UInt64 → Nat → Bool} {heap : ObjEHeap} {owner flags : UInt32}

theorem eheapAllocSearch_inside {desiredOffset allocSize offsetAlign : UInt64} {fit : Fit}
    (notInternal : flags &&& nvos32AllocFlagsForceInternalIndex = 0)
    (notFixed : flags &&& nvos32AllocFlagsFixedAddressAllocate = 0)
    (found : eheapAllocSearch check heap flags desiredOffset allocSize offsetAlign = some (some fit)) :
    fit.Inside heap (eheapAllocRange heap).1 (eheapAllocRange heap).2 := by
  unfold eheapAllocSearch at found
  simp only [notInternal, notFixed, ne_eq, not_true_eq_false, if_false, Option.some.injEq,
    Option.bind_eq_some_iff] at found
  obtain ⟨first, _, search⟩ := found
  exact rangeSearch_inside search

theorem eheapAllocSearch_fixed {desiredOffset allocSize offsetAlign : UInt64} {fit : Fit}
    (notInternal : flags &&& nvos32AllocFlagsForceInternalIndex = 0)
    (fixed : flags &&& nvos32AllocFlagsFixedAddressAllocate ≠ 0)
    (found : eheapAllocSearch check heap flags desiredOffset allocSize offsetAlign = some (some fit)) :
    fit.allocLo = desiredOffset ∧ fit.allocAl = desiredOffset ∧ fit.allocHi = desiredOffset + allocSize - 1 ∧
      (heap.blocks fit.blockFree).begin ≤ fit.allocLo ∧ fit.allocHi ≤ (heap.blocks fit.blockFree).«end» := by
  unfold eheapAllocSearch at found
  simp only [notInternal, fixed, ne_eq, not_true_eq_false, not_false_eq_true, if_false, if_true] at found
  split at found
  · cases found
  · simp only [Option.some.injEq, Option.bind_eq_some_iff] at found
    obtain ⟨first, _, search⟩ := found
    exact fixedAddressSearch_fit search

theorem eheapAlloc_ok {offset size offsetAlign sizeAlign : UInt64} {result : EheapAllocResult}
    (returned : eheapAlloc check heap owner flags offset size offsetAlign sizeAlign = some result)
    (ok : result.status = .nvOk) :
    size ≠ 0 ∧ ∃ found, eheapAllocSearch check heap flags
        (if flags &&& nvos32AllocFlagsFixedAddressAllocate ≠ 0 then offset else 0)
        ((size + (sizeAlign - 1)) / sizeAlign * sizeAlign) offsetAlign = some found ∧
      eheapAllocFinish heap owner size ((size + (sizeAlign - 1)) / sizeAlign * sizeAlign) found = some result := by
  unfold eheapAlloc at returned
  generalize (if flags &&& nvos32AllocFlagsFixedAddressAllocate ≠ 0 then offset else 0) = desiredOffset at returned ⊢
  generalize (size + (sizeAlign - 1)) / sizeAlign * sizeAlign = allocSize at returned ⊢
  dsimp only at returned
  split_ifs at returned with _ empty
  all_goals try (simp only [Option.some.injEq] at returned; rw [← returned] at ok; cases ok)
  refine ⟨empty, ?_⟩
  split at returned
  · simp only [Option.some.injEq] at returned
    rw [← returned] at ok
    cases ok
  · exact ⟨_, by assumption, returned⟩

theorem eheapAllocFinish_ok {size allocSize : UInt64} {found : Option Fit} {result : EheapAllocResult}
    (finished : eheapAllocFinish heap owner size allocSize found = some result) (ok : result.status = .nvOk) :
    ∃ fit blockNew linked, found = some fit ∧ (gotOne heap owner fit).run = some (.ok (blockNew, linked)) ∧
      result.block = some blockNew ∧ result.size = allocSize := by
  rcases found with _ | fit
  · simp only [eheapAllocFinish, Option.some.injEq] at finished
    rw [← finished] at ok
    cases ok
  · simp only [eheapAllocFinish, Option.map_eq_some_iff] at finished
    obtain ⟨got, linkedIn, rfl⟩ := finished
    rcases got with failedHeap | ⟨blockNew, linked⟩
    · cases ok
    · exact ⟨fit, blockNew, linked, rfl, linkedIn, rfl, rfl⟩

def sampleHeap : ObjEHeap := (eheapInit 0 4096 [0, 1, 2]).get (by decide)

def sampleAlloc : EheapAllocResult := (eheapAlloc (fun _ _ _ => true) sampleHeap 0 0 0 32 16 1).get (by decide)

def sampleFixedAlloc : EheapAllocResult :=
  (eheapAlloc (fun _ _ _ => true) sampleHeap 0 nvos32AllocFlagsFixedAddressAllocate 64 32 16 1).get (by decide)

/-- The fixed-address test `desiredOffset + allocSize - 1 <= blockFree->end`
wraps: asked for 32 bytes at `2^64 - 16` in a heap of `[0, 4095]`, `got_one`
cuts the block `[2^64 - 16, 15]` from the middle of the free block; the tree
refuses its node, and `failed` returns `NV_ERR_NO_MEMORY` with the free block
shrunk to `[0, 2^64 - 17]`, linked to the two structs it gave back, and two
blocks counted. -/
theorem eheapAlloc_fixed_wraps :
    (eheapInit 0 4096 [0, 1, 2]).map (fun heap => (heap.blocks 0, heap.memStructs)) =
      some (⟨0, 4095, 0, 0, nvos32BlockTypeFree, 0, 0, 0, 0⟩, [1, 2]) ∧
    ((eheapInit 0 4096 [0, 1, 2]).bind fun heap =>
      eheapAlloc (fun _ _ _ => true) heap 0 nvos32AllocFlagsFixedAddressAllocate 0xFFFFFFFFFFFFFFF0 32 16 1).map
      (fun result => (result.status, result.heap.blocks 0, result.heap.memStructs)) =
      some (.nvErrNoMemory, ⟨0, 0xFFFFFFFFFFFFFFEF, 0, 0, nvos32BlockTypeFree, 2, 2, 2, 1⟩, [2, 1]) := by
  decide

/-- The size alignment `((*size + (sizeAlign - 1)) / sizeAlign) * sizeAlign`
wraps: a request of `2^64 - 1` bytes aligned to 2 is `allocSize = 0`, which
passes the test against `pHeap->free`.  At the fixed offset 16 of a heap of
`[0, 4095]`, `got_one` cuts the block `[16, 15]` from the middle of the free
block; the tree refuses its node, and `failed` returns `NV_ERR_NO_MEMORY` with
the free block shrunk to `[0, 15]`, linked on both sides to the two structs it
gave back, while `pHeap->free` still counts 4096 bytes. -/
theorem eheapAlloc_size_wraps :
    ((eheapInit 0 4096 [0, 1, 2]).bind fun heap =>
      eheapAlloc (fun _ _ _ => true) heap 0 nvos32AllocFlagsFixedAddressAllocate 16 0xFFFFFFFFFFFFFFFF 1 2).map
      (fun result => (result.status, result.heap.blocks 0, result.heap.memStructs, result.heap.free)) =
      some (.nvErrNoMemory, ⟨0, 15, 0, 0, nvos32BlockTypeFree, 2, 2, 2, 1⟩, [2, 1], 4096) := by
  decide

end Alloc

end NvidiaGpu.Eheap
