import NvidiaGpu.Uvm.RangeTreeIter
import NvidiaGpu.Library.Align

set_option autoImplicit false

/-! The UVM range allocator (`uvm_range_allocator.c`): the free parts of
`[0, size - 1]` are the nodes of a range tree.  An allocation takes the first
free node, in address order, that holds an aligned block of the requested size,
and records the node's range from its start up to the block's end; freeing adds
the recorded range back and merges it with both neighbours.  Node memory comes
from `uvm_kvmalloc`, which enters as the node it returned or `none`. -/

namespace NvidiaGpu.RangeAllocator

open RangeTree

structure UvmRangeAllocator where
  size : UInt64
  rangeTree : UvmRangeTree

structure UvmRangeAllocation where
  alignedStart : UInt64
  node : Nat
  deriving DecidableEq, Repr

def uvmAlignUp (x a : UInt64) : UInt64 :=
  (x + a - 1) &&& ~~~(a - 1)

def uvmRangeAllocatorInit (rb : Rbtree) (nodes : Nat → UvmRangeTreeNode) (size : UInt64)
    (node : Option Nat) : NvStatus × Option UvmRangeAllocator :=
  match node with
  | none => (.nvErrNoMemory, none)
  | some node =>
      let tree := (uvmRangeTreeInit nodes).setNode node ⟨0, size - 1⟩
      (.nvOk, some { size := size, rangeTree := (uvmRangeTreeAdd rb tree node).2 })

/-- The body of the allocation loop for one free node: the aligned block, or
`none` where the code continues with the next node. -/
def allocFit (node : UvmRangeTreeNode) (size alignment : UInt64) : Option (UInt64 × UInt64) :=
  let alignedStart := uvmAlignUp node.start alignment
  let alignedEnd := alignedStart + size - 1
  if alignedStart < node.start || alignedEnd < alignedStart then none
  else if alignedEnd > node.«end» then none
  else some (alignedStart, alignedEnd)

def firstFit (nodes : Nat → UvmRangeTreeNode) (size alignment : UInt64) :
    List Nat → Option (Nat × UInt64 × UInt64)
  | [] => none
  | node :: rest =>
      match allocFit (nodes node) size alignment with
      | some (alignedStart, alignedEnd) => some (node, alignedStart, alignedEnd)
      | none => firstFit nodes size alignment rest

/-- The loop's exit on a fitting node: the allocation's node records the free
node's range up to the block's end, and the free node shrinks past the block or
is removed when the block reaches its end. -/
def claimBlock (rb : Rbtree) (tree : UvmRangeTree) (allocNode node : Nat) (alignedEnd : UInt64) :
    UvmRangeTree :=
  let recorded := tree.setNode allocNode ⟨(tree.nodes node).start, alignedEnd⟩
  if alignedEnd < (recorded.nodes node).«end» then
    uvmRangeTreeShrinkNode recorded node (alignedEnd + 1) (recorded.nodes node).«end»
  else uvmRangeTreeRemove rb recorded node

def uvmRangeAllocatorAlloc (rb : Rbtree) (allocator : UvmRangeAllocator) (size alignment : UInt64)
    (fresh : Option Nat) : NvStatus × UvmRangeAllocator × Option UvmRangeAllocation :=
  let alignment := if alignment = 0 then 1 else alignment
  if size > allocator.size then (.nvErrUvmAddressInUse, allocator, none)
  else
    match fresh with
    | none => (.nvErrNoMemory, allocator, none)
    | some allocNode =>
        let tree := allocator.rangeTree
        match firstFit tree.nodes size alignment
            (uvmRangeTreeForEachIn tree 0 (allocator.size - size)) with
        | none => (.nvErrUvmAddressInUse, allocator, none)
        | some (node, alignedStart, alignedEnd) =>
            (.nvOk, { allocator with rangeTree := claimBlock rb tree allocNode node alignedEnd },
              some ⟨alignedStart, allocNode⟩)

def uvmRangeAllocatorFree (rb : Rbtree) (allocator : UvmRangeAllocator)
    (allocation : UvmRangeAllocation) : UvmRangeAllocator :=
  let added := (uvmRangeTreeAdd rb allocator.rangeTree allocation.node).2
  let afterPrev := (uvmRangeTreeMergePrev rb added allocation.node).2
  let afterNext := (uvmRangeTreeMergeNext rb afterPrev allocation.node).2
  { allocator with rangeTree := afterNext }

def uvmRangeAllocatorDeinitAsserts (allocator : UvmRangeAllocator) : Bool :=
  match uvmRangeTreeIterFirst allocator.rangeTree 0 (allocator.size - 1) with
  | some node =>
      (allocator.rangeTree.nodes node).start == 0 &&
        (allocator.rangeTree.nodes node).«end» == allocator.size - 1
  | none => false


/-- The range holds the `size` bytes from `block` on, and `block` is aligned as
asked (an alignment of `0` asks for none). -/
def HoldsBlock (range : UvmRangeTreeNode) (size alignment : UInt64) (block : Nat) : Prop :=
  (alignment = 0 ∨ block % alignment.toNat = 0) ∧ range.start.toNat ≤ block ∧
    block + size.toNat ≤ range.«end».toNat + 1

theorem uvmAlignUp_eq_alignUp (x a : UInt64) : uvmAlignUp x a = Align.alignUp x a := by
  have regroup : x + a - 1 = x + (a - 1) := by grind
  unfold uvmAlignUp Align.alignUp
  rw [regroup]

theorem effective_alignment {alignment : UInt64}
    (admissible : alignment = 0 ∨ ∃ k, alignment.toNat = 2 ^ k) :
    ∃ k, (if alignment = 0 then 1 else alignment).toNat = 2 ^ k ∧
      ∀ block : Nat, (alignment = 0 ∨ block % alignment.toNat = 0) ↔ block % 2 ^ k = 0 := by
  by_cases zero : alignment = 0
  · refine ⟨0, by simp [zero], fun block => ?_⟩
    simp [zero, Nat.mod_one]
  · obtain ⟨k, power⟩ := admissible.resolve_left zero
    refine ⟨k, by simp [zero, power], fun block => ?_⟩
    simp [zero, power]

section Block

variable {size : UInt64}

theorem toNat_blockEnd (start : UInt64) (positive : 0 < size)
    (bounded : start.toNat + size.toNat ≤ 2 ^ 64) :
    (start + size - 1).toNat + 1 = start.toNat + size.toNat := by
  have regroup : start + size - 1 = start + (size - 1) := by grind
  have sizePositive : 0 < size.toNat := by simpa using UInt64.lt_iff_toNat_lt.mp positive
  have tail : (size - 1).toNat = size.toNat - 1 := by
    rw [UInt64.toNat_sub_of_le _ _ (UInt64.le_iff_toNat_le.mpr (by rw [UInt64.toNat_one]; exact sizePositive))]
    rfl
  rw [regroup, UInt64.toNat_add, tail, Nat.mod_eq_of_lt (by omega)]
  omega

theorem blockEnd_lt_of_wrap (start : UInt64) (positive : 0 < size)
    (wrap : 2 ^ 64 < start.toNat + size.toNat) : start + size - 1 < start := by
  have regroup : start + size - 1 = start + (size - 1) := by grind
  have sizePositive : 0 < size.toNat := by simpa using UInt64.lt_iff_toNat_lt.mp positive
  have tail : (size - 1).toNat = size.toNat - 1 := by
    rw [UInt64.toNat_sub_of_le _ _ (UInt64.le_iff_toNat_le.mpr (by rw [UInt64.toNat_one]; exact sizePositive))]
    rfl
  have startBound := start.toNat_lt
  have sizeBound := size.toNat_lt
  rw [UInt64.lt_iff_toNat_lt, regroup, UInt64.toNat_add, tail,
    Nat.mod_eq_sub_mod (by omega), Nat.mod_eq_of_lt (by omega)]
  omega

end Block

section Fit

variable {range : UvmRangeTreeNode} {size alignment : UInt64}

theorem allocFit_eq_some {alignedStart alignedEnd : UInt64} (positive : 0 < size)
    (fit : allocFit range size alignment = some (alignedStart, alignedEnd)) :
    alignedStart = uvmAlignUp range.start alignment ∧ range.start ≤ alignedStart ∧
      alignedEnd.toNat + 1 = alignedStart.toNat + size.toNat ∧ alignedEnd ≤ range.«end» := by
  unfold allocFit at fit
  dsimp only at fit
  split at fit
  · cases fit
  · rename_i noOverflow
    split at fit
    · cases fit
    · rename_i fits
      cases fit
      simp only [Bool.or_eq_true, decide_eq_true_eq, not_or, UInt64.not_lt] at noOverflow
      have bounded : (uvmAlignUp range.start alignment).toNat + size.toNat ≤ 2 ^ 64 := by
        by_contra wrap
        have below := blockEnd_lt_of_wrap (uvmAlignUp range.start alignment) positive (by omega)
        exact absurd noOverflow.2 (UInt64.not_le.mpr below)
      exact ⟨rfl, noOverflow.1, toNat_blockEnd _ positive bounded, UInt64.not_lt.mp fits⟩

theorem allocFit_isSome {k : Nat} (power : alignment.toNat = 2 ^ k) (positive : 0 < size)
    {block : Nat} (aligned : block % 2 ^ k = 0) (above : range.start.toNat ≤ block)
    (fits : block + size.toNat ≤ range.«end».toNat + 1) :
    (allocFit range size alignment).isSome := by
  have endBound := range.«end».toNat_lt
  have sizePositive : 0 < size.toNat := by simpa using UInt64.lt_iff_toNat_lt.mp positive
  have noWrap := Align.no_wrap_of_multiple power aligned above (by omega)
  obtain ⟨-, startAbove, -⟩ := Align.alignUp_of_no_wrap power noWrap
  have belowBlock := Align.alignUp_le_of_multiple power noWrap aligned above
  rw [← uvmAlignUp_eq_alignUp] at startAbove belowBlock
  have blockEnd := toNat_blockEnd (uvmAlignUp range.start alignment) positive (by omega)
  unfold allocFit
  dsimp only
  rw [if_neg, if_neg]
  · rfl
  · rw [gt_iff_lt, UInt64.lt_iff_toNat_lt]
    omega
  · simp only [Bool.or_eq_true, decide_eq_true_eq, not_or, UInt64.lt_iff_toNat_lt]
    omega

end Fit

section FirstFit

variable {nodes : Nat → UvmRangeTreeNode} {size alignment : UInt64} {list : List Nat}

theorem firstFit_eq_some {node : Nat} {alignedStart alignedEnd : UInt64}
    (found : firstFit nodes size alignment list = some (node, alignedStart, alignedEnd)) :
    node ∈ list ∧ allocFit (nodes node) size alignment = some (alignedStart, alignedEnd) := by
  induction list with
  | nil => cases found
  | cons first rest ih =>
      cases fit : allocFit (nodes first) size alignment with
      | none =>
          simp only [firstFit, fit] at found
          obtain ⟨member, fitsThere⟩ := ih found
          exact ⟨List.mem_cons_of_mem first member, fitsThere⟩
      | some block =>
          simp only [firstFit, fit, Option.some.injEq, Prod.mk.injEq] at found
          obtain ⟨rfl, rfl, rfl⟩ := found
          exact ⟨List.mem_cons_self, fit⟩

theorem firstFit_eq_none (missing : firstFit nodes size alignment list = none) :
    ∀ node ∈ list, allocFit (nodes node) size alignment = none := by
  induction list with
  | nil => exact fun node member => by cases member
  | cons first rest ih =>
      cases fit : allocFit (nodes first) size alignment with
      | none =>
          simp only [firstFit, fit] at missing
          intro node member
          rcases List.mem_cons.mp member with same | inRest
          · rw [same, fit]
          · exact ih missing node inRest
      | some block => simp [firstFit, fit] at missing

end FirstFit

theorem uvmRangeAllocatorAlloc_cases (rb : Rbtree) (allocator : UvmRangeAllocator)
    (size alignment : UInt64) (fresh : Option Nat) :
    ((uvmRangeAllocatorAlloc rb allocator size alignment fresh).2 = (allocator, none) ∧
        (uvmRangeAllocatorAlloc rb allocator size alignment fresh).1 ≠ .nvOk ∧
        ((uvmRangeAllocatorAlloc rb allocator size alignment fresh).1 = .nvErrUvmAddressInUse →
          allocator.size < size ∨
            firstFit allocator.rangeTree.nodes size (if alignment = 0 then 1 else alignment)
              (uvmRangeTreeForEachIn allocator.rangeTree 0 (allocator.size - size)) = none)) ∨
      ∃ allocNode node alignedStart alignedEnd, fresh = some allocNode ∧ size ≤ allocator.size ∧
        firstFit allocator.rangeTree.nodes size (if alignment = 0 then 1 else alignment)
            (uvmRangeTreeForEachIn allocator.rangeTree 0 (allocator.size - size)) =
          some (node, alignedStart, alignedEnd) ∧
        uvmRangeAllocatorAlloc rb allocator size alignment fresh =
          (.nvOk, { allocator with rangeTree := claimBlock rb allocator.rangeTree allocNode node alignedEnd },
            some ⟨alignedStart, allocNode⟩) := by
  unfold uvmRangeAllocatorAlloc
  dsimp only
  by_cases large : size > allocator.size
  · rw [if_pos large]
    exact .inl ⟨rfl, by simp, fun _ => .inl large⟩
  · rw [if_neg large]
    have fitsSize : size ≤ allocator.size := UInt64.not_lt.mp large
    cases fresh with
    | none => exact .inl ⟨rfl, by simp, fun impossible => by cases impossible⟩
    | some allocNode =>
        dsimp only
        cases found : firstFit allocator.rangeTree.nodes size (if alignment = 0 then 1 else alignment)
            (uvmRangeTreeForEachIn allocator.rangeTree 0 (allocator.size - size)) with
        | none => exact .inl ⟨rfl, by simp, fun _ => .inr rfl⟩
        | some result =>
            obtain ⟨node, alignedStart, alignedEnd⟩ := result
            exact .inr ⟨allocNode, node, alignedStart, alignedEnd, rfl, fitsSize, rfl, rfl⟩

theorem claimBlock_cases (rb : Rbtree) {tree : UvmRangeTree} {allocNode node : Nat}
    (different : allocNode ≠ node) (alignedEnd : UInt64) :
    (alignedEnd < (tree.nodes node).«end» ∧
        claimBlock rb tree allocNode node alignedEnd =
          (tree.setNode allocNode ⟨(tree.nodes node).start, alignedEnd⟩).setNode node
            ⟨alignedEnd + 1, (tree.nodes node).«end»⟩) ∨
      (¬alignedEnd < (tree.nodes node).«end» ∧
        claimBlock rb tree allocNode node alignedEnd =
          uvmRangeTreeRemove rb (tree.setNode allocNode ⟨(tree.nodes node).start, alignedEnd⟩) node) := by
  unfold claimBlock uvmRangeTreeShrinkNode
  dsimp only
  rw [setNode_nodes_of_ne _ different.symm]
  by_cases shrinks : alignedEnd < (tree.nodes node).«end»
  · exact .inl ⟨shrinks, if_pos shrinks⟩
  · exact .inr ⟨shrinks, if_neg shrinks⟩

theorem claimBlock_nodes_allocNode (rb : Rbtree) {tree : UvmRangeTree} {allocNode node : Nat}
    (different : allocNode ≠ node) (alignedEnd : UInt64) :
    (claimBlock rb tree allocNode node alignedEnd).nodes allocNode =
      ⟨(tree.nodes node).start, alignedEnd⟩ := by
  rcases claimBlock_cases rb different alignedEnd with ⟨-, claimed⟩ | ⟨-, claimed⟩
  · rw [claimed, setNode_nodes_of_ne _ different, setNode_nodes_self]
  · rw [claimed, remove_nodes, setNode_nodes_self]

theorem uvmRangeAllocatorDeinitAsserts_of_single {allocator : UvmRangeAllocator}
    (valid : allocator.rangeTree.Valid) {node : Nat} (single : allocator.rangeTree.head = [node])
    (whole : allocator.rangeTree.nodes node = ⟨0, allocator.size - 1⟩) :
    uvmRangeAllocatorDeinitAsserts allocator = true := by
  unfold uvmRangeAllocatorDeinitAsserts
  rw [uvmRangeTreeIterFirst_zero valid, single]
  simp [whole]

section Loop

variable {tree : UvmRangeTree}

theorem mem_forEachIn_zero (valid : tree.Valid) {bound : UInt64} {node : Nat}
    (member : node ∈ tree.head) (within : (tree.nodes node).start ≤ bound) :
    node ∈ uvmRangeTreeForEachIn tree 0 bound := by
  rw [uvmRangeTreeForEachIn_zero valid]
  refine LinkedList.mem_takeWhile_of_pairwise (startKeys_sorted valid.wellFormed valid.ordered) ?_
    member (decide_eq_true within)
  intro earlier later startsBefore laterWithin
  have laterBelow := UInt64.le_iff_toNat_le.mp (of_decide_eq_true laterWithin)
  exact decide_eq_true (UInt64.le_iff_toNat_le.mpr (by omega))

theorem mem_of_mem_forEachIn_zero (valid : tree.Valid) {bound : UInt64} {node : Nat}
    (visited : node ∈ uvmRangeTreeForEachIn tree 0 bound) : node ∈ tree.head := by
  rw [uvmRangeTreeForEachIn_zero valid] at visited
  exact List.takeWhile_subset _ visited

end Loop

section Alloc

variable {allocator : UvmRangeAllocator} {size alignment : UInt64} {fresh : Option Nat}

theorem uvmRangeAllocatorAlloc_addressInUse (rb : Rbtree) (valid : allocator.rangeTree.Valid)
    (bounded : ∀ node ∈ allocator.rangeTree.head,
      (allocator.rangeTree.nodes node).«end» < allocator.size)
    (positive : 0 < size) (admissible : alignment = 0 ∨ ∃ k, alignment.toNat = 2 ^ k)
    (failed : (uvmRangeAllocatorAlloc rb allocator size alignment fresh).1 = .nvErrUvmAddressInUse) :
    (uvmRangeAllocatorAlloc rb allocator size alignment fresh).2 = (allocator, none) ∧
      ∀ node ∈ allocator.rangeTree.head, ∀ block,
        ¬HoldsBlock (allocator.rangeTree.nodes node) size alignment block := by
  rcases uvmRangeAllocatorAlloc_cases rb allocator size alignment fresh with
    ⟨unchanged, -, why⟩ | ⟨allocNode, node, alignedStart, alignedEnd, -, -, -, succeeded⟩
  · refine ⟨unchanged, ?_⟩
    intro node member block ⟨alignedBlock, above, fits⟩
    have endBelow := UInt64.lt_iff_toNat_lt.mp (bounded node member)
    have fitsSize : size ≤ allocator.size := UInt64.le_iff_toNat_le.mpr (by omega)
    rcases why failed with large | missing
    · exact absurd fitsSize (UInt64.not_le.mpr large)
    · obtain ⟨k, power, sameBlocks⟩ := effective_alignment admissible
      by_cases within : (allocator.rangeTree.nodes node).start ≤ allocator.size - size
      · have noFit := firstFit_eq_none missing node (mem_forEachIn_zero valid member within)
        have someFit := allocFit_isSome power positive ((sameBlocks block).mp alignedBlock) above fits
        rw [noFit] at someFit
        cases someFit
      · rw [UInt64.le_iff_toNat_le, UInt64.toNat_sub_of_le _ _ fitsSize] at within
        omega
  · rw [succeeded] at failed
    cases failed

theorem uvmRangeAllocatorAlloc_ok (rb : Rbtree) (valid : allocator.rangeTree.Valid)
    (positive : 0 < size) (admissible : alignment = 0 ∨ ∃ k, alignment.toNat = 2 ^ k)
    (succeeded : (uvmRangeAllocatorAlloc rb allocator size alignment fresh).1 = .nvOk) :
    ∃ allocNode node alignedStart alignedEnd, fresh = some allocNode ∧
      node ∈ allocator.rangeTree.head ∧
      HoldsBlock (allocator.rangeTree.nodes node) size alignment alignedStart.toNat ∧
      alignedEnd.toNat + 1 = alignedStart.toNat + size.toNat ∧
      uvmRangeAllocatorAlloc rb allocator size alignment fresh =
        (.nvOk, { allocator with rangeTree := claimBlock rb allocator.rangeTree allocNode node alignedEnd },
          some ⟨alignedStart, allocNode⟩) := by
  rcases uvmRangeAllocatorAlloc_cases rb allocator size alignment fresh with
    ⟨-, failedStatus, -⟩ | ⟨allocNode, node, alignedStart, alignedEnd, isFresh, -, found, result⟩
  · exact absurd succeeded failedStatus
  · obtain ⟨visited, fit⟩ := firstFit_eq_some found
    obtain ⟨k, power, sameBlocks⟩ := effective_alignment admissible
    obtain ⟨atAlign, startBelow, endAt, endBelow⟩ := allocFit_eq_some positive fit
    have startBound := UInt64.le_iff_toNat_le.mp startBelow
    have noWrap : (allocator.rangeTree.nodes node).start.toNat + (2 ^ k - 1) < 2 ^ 64 := by
      by_contra wrap
      have below := Align.alignUp_lt_of_wrap power (Nat.le_of_not_lt wrap)
      rw [← uvmAlignUp_eq_alignUp, ← atAlign] at below
      omega
    have aligned := (Align.alignUp_of_no_wrap power noWrap).1
    rw [← uvmAlignUp_eq_alignUp, ← atAlign] at aligned
    have endBound := UInt64.le_iff_toNat_le.mp endBelow
    refine ⟨allocNode, node, alignedStart, alignedEnd, isFresh,
      mem_of_mem_forEachIn_zero valid visited, ⟨(sameBlocks _).mpr aligned, startBound, ?_⟩, endAt, result⟩
    omega

end Alloc

end NvidiaGpu.RangeAllocator
