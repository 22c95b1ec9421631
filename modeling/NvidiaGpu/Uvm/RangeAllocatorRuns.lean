import NvidiaGpu.Uvm.RangeAllocator
import NvidiaGpu.Uvm.RangeTreeRuns

set_option autoImplicit false

/-! Runs of the UVM range allocator: any interleaving of allocations and frees
of live allocations after a successful `uvm_range_allocator_init`.  The free
ranges and the ranges recorded for the live allocations tile `[0, size - 1]`,
no two free ranges touch, and so, once everything is freed, the tree holds the
single range that `uvm_range_allocator_deinit` asserts. -/

namespace NvidiaGpu.RangeAllocator

open RangeTree

/-- The allocator together with the allocations its users hold. -/
structure AllocatorState where
  allocator : UvmRangeAllocator
  live : List UvmRangeAllocation

inductive AllocatorOp
  | alloc (size alignment : UInt64) (fresh : Option Nat)
  | free (index : Nat)

def AllocatorOp.apply (rb : Rbtree) (state : AllocatorState) : AllocatorOp → AllocatorState
  | .alloc size alignment fresh =>
      let result := uvmRangeAllocatorAlloc rb state.allocator size alignment fresh
      { allocator := result.2.1, live := state.live ++ result.2.2.toList }
  | .free index =>
      match state.live[index]? with
      | some allocation =>
          { allocator := uvmRangeAllocatorFree rb state.allocator allocation
            live := state.live.eraseIdx index }
      | none => state

/-- The asserted argument conditions, a node from `uvm_kvmalloc` that is in use
nowhere else, and frees of live allocations only. -/
def AllocatorOp.Admissible (state : AllocatorState) : AllocatorOp → Prop
  | .alloc size alignment fresh =>
      0 < size ∧ (alignment = 0 ∨ ∃ k, alignment.toNat = 2 ^ k) ∧
        ∀ node ∈ fresh, node ∉ state.allocator.rangeTree.head ∧
          node ∉ state.live.map UvmRangeAllocation.node
  | .free index => index < state.live.length

inductive Reachable (rb : Rbtree) : AllocatorState → Prop
  | init {nodes : Nat → UvmRangeTreeNode} {size : UInt64} {node : Nat}
      {allocator : UvmRangeAllocator} :
      0 < size → uvmRangeAllocatorInit rb nodes size (some node) = (.nvOk, some allocator) →
      Reachable rb ⟨allocator, []⟩
  | step {state : AllocatorState} (op : AllocatorOp) :
      Reachable rb state → op.Admissible state → Reachable rb (op.apply rb state)

def AllocatorState.liveNodes (state : AllocatorState) : List Nat :=
  state.live.map UvmRangeAllocation.node

def freeAndLiveRanges (tree : UvmRangeTree) (live : List Nat) : List UvmRangeTreeNode :=
  tree.head.map tree.nodes ++ live.map tree.nodes

def coverCount (ranges : List UvmRangeTreeNode) (addr : UInt64) : Nat :=
  ranges.countP (fun range => decide (range.start ≤ addr ∧ addr ≤ range.«end»))

/-- The ranges lie in `[0, size - 1]` and cover each of its addresses exactly
once. -/
structure Tiles (size : UInt64) (ranges : List UvmRangeTreeNode) : Prop where
  bounded : ∀ range ∈ ranges, range.start ≤ range.«end» ∧ range.«end» < size
  once : ∀ addr, addr < size → coverCount ranges addr = 1

def ApartExcept (tree : UvmRangeTree) (exempt : Nat → Nat → Prop) : Prop :=
  ∀ a ∈ tree.head, ∀ b ∈ tree.head,
    (tree.nodes a).«end».toNat + 1 = (tree.nodes b).start.toNat → exempt a b

/-- The allocator invariant. -/
structure AllocatorState.Valid (state : AllocatorState) : Prop where
  positive : 0 < state.allocator.size
  tree : state.allocator.rangeTree.Valid
  tiles : Tiles state.allocator.size (freeAndLiveRanges state.allocator.rangeTree state.liveNodes)
  apart : ApartExcept state.allocator.rangeTree (fun _ _ => False)
  liveDistinct : state.liveNodes.Nodup
  liveOutside : ∀ node ∈ state.liveNodes, node ∉ state.allocator.rangeTree.head

section Tiles

variable {size : UInt64} {first second : UvmRangeTreeNode}

theorem coverCount_append (ranges others : List UvmRangeTreeNode) (addr : UInt64) :
    coverCount (ranges ++ others) addr = coverCount ranges addr + coverCount others addr :=
  List.countP_append

theorem coverCount_fuse (ranges : List UvmRangeTreeNode) (firstWellFormed : first.start ≤ first.«end»)
    (secondWellFormed : second.start ≤ second.«end»)
    (touching : first.«end».toNat + 1 = second.start.toNat) (addr : UInt64) :
    coverCount (first.fuse second :: ranges) addr = coverCount (first :: second :: ranges) addr := by
  have firstBound := UInt64.le_iff_toNat_le.mp firstWellFormed
  have secondBound := UInt64.le_iff_toNat_le.mp secondWellFormed
  simp only [coverCount, List.countP_cons, UvmRangeTreeNode.fuse, UInt64.le_iff_toNat_le,
    decide_eq_true_eq]
  split_ifs <;> omega

theorem Tiles.perm {ranges others : List UvmRangeTreeNode} (tiles : Tiles size ranges)
    (perm : ranges.Perm others) : Tiles size others := by
  refine ⟨fun range member => tiles.bounded range (perm.mem_iff.mpr member), fun addr below => ?_⟩
  rw [← tiles.once addr below]
  exact (perm.countP_eq _).symm

theorem Tiles.fuse {ranges : List UvmRangeTreeNode} (tiles : Tiles size (first :: second :: ranges))
    (touching : first.«end».toNat + 1 = second.start.toNat) :
    Tiles size (first.fuse second :: ranges) := by
  obtain ⟨firstWellFormed, -⟩ := tiles.bounded first List.mem_cons_self
  obtain ⟨secondWellFormed, secondBelow⟩ := tiles.bounded second (by simp)
  refine ⟨fun range member => ?_, fun addr below => ?_⟩
  · rcases List.mem_cons.mp member with fused | other
    · rw [fused]
      have firstBound := UInt64.le_iff_toNat_le.mp firstWellFormed
      have secondBound := UInt64.le_iff_toNat_le.mp secondWellFormed
      refine ⟨?_, secondBelow⟩
      rw [UvmRangeTreeNode.fuse_start, UvmRangeTreeNode.fuse_end, UInt64.le_iff_toNat_le]
      omega
    · exact tiles.bounded range (by simp [other])
  · rw [coverCount_fuse ranges firstWellFormed secondWellFormed touching]
    exact tiles.once addr below

theorem Tiles.split {ranges : List UvmRangeTreeNode} (tiles : Tiles size (first.fuse second :: ranges))
    (firstWellFormed : first.start ≤ first.«end») (secondWellFormed : second.start ≤ second.«end»)
    (touching : first.«end».toNat + 1 = second.start.toNat) :
    Tiles size (first :: second :: ranges) := by
  obtain ⟨-, fusedBelow⟩ := tiles.bounded (first.fuse second) List.mem_cons_self
  have secondBound := UInt64.le_iff_toNat_le.mp secondWellFormed
  refine ⟨fun range member => ?_, fun addr below => ?_⟩
  · rcases List.mem_cons.mp member with isFirst | inRest
    · rw [isFirst]
      rw [UvmRangeTreeNode.fuse_end] at fusedBelow
      have fusedBound := UInt64.lt_iff_toNat_lt.mp fusedBelow
      exact ⟨firstWellFormed, UInt64.lt_iff_toNat_lt.mpr (by omega)⟩
    · rcases List.mem_cons.mp inRest with isSecond | other
      · rw [isSecond]
        exact ⟨secondWellFormed, by simpa using fusedBelow⟩
      · exact tiles.bounded range (by simp [other])
  · rw [← coverCount_fuse ranges firstWellFormed secondWellFormed touching]
    exact tiles.once addr below

theorem Tiles.not_overlap {front back : List UvmRangeTreeNode} (tiles : Tiles size (front ++ back))
    {a b : UvmRangeTreeNode} (aMember : a ∈ front) (bMember : b ∈ back) :
    rangeNodesOverlap a b = false := by
  cases overlapping : rangeNodesOverlap a b with
  | false => rfl
  | true =>
      rw [rangeNodesOverlap_eq_true_iff] at overlapping
      obtain ⟨aWellFormed, aBelow⟩ := tiles.bounded a (List.mem_append_left _ aMember)
      obtain ⟨bWellFormed, -⟩ := tiles.bounded b (List.mem_append_right _ bMember)
      have common : ∃ addr, (a.start ≤ addr ∧ addr ≤ a.«end») ∧ (b.start ≤ addr ∧ addr ≤ b.«end») := by
        by_cases order : a.start ≤ b.start
        · exact ⟨b.start, ⟨order, overlapping.1⟩, UInt64.le_refl _, bWellFormed⟩
        · exact ⟨a.start, ⟨UInt64.le_refl _, aWellFormed⟩, UInt64.le_of_lt (UInt64.not_le.mp order),
            overlapping.2⟩
      obtain ⟨addr, inA, inB⟩ := common
      have inFront : 0 < coverCount front addr := List.countP_pos_iff.mpr ⟨a, aMember, decide_eq_true inA⟩
      have inBack : 0 < coverCount back addr := List.countP_pos_iff.mpr ⟨b, bMember, decide_eq_true inB⟩
      have once := tiles.once addr (UInt64.lt_of_le_of_lt inA.2 aBelow)
      rw [coverCount_append] at once
      omega

end Tiles

section Claim

variable {rb : Rbtree} {tree : UvmRangeTree} {allocNode node : Nat} {alignedEnd : UInt64}
variable (valid : tree.Valid) (absent : allocNode ∉ tree.head) (member : node ∈ tree.head)
  (startBelow : (tree.nodes node).start.toNat ≤ alignedEnd.toNat)
  (endBelow : alignedEnd.toNat ≤ (tree.nodes node).«end».toNat)
include valid absent member startBelow endBelow

omit endBelow in
theorem claimBlock_valid (correct : rb.Correct) : (claimBlock rb tree allocNode node alignedEnd).Valid := by
  have different : allocNode ≠ node := fun same => absent (same ▸ member)
  have recordedValid := valid.setNode_of_not_mem absent ⟨(tree.nodes node).start, alignedEnd⟩
  rcases claimBlock_cases rb different alignedEnd with ⟨shrinks, claimed⟩ | ⟨-, claimed⟩
  · rw [claimed]
    have nextByte := toNat_add_one_of_lt shrinks
    have shrinksBound := UInt64.lt_iff_toNat_lt.mp shrinks
    apply recordedValid.narrow
    · exact UInt64.le_iff_toNat_le.mpr (by simp only; omega)
    · rw [setNode_nodes_of_ne _ different.symm, UInt64.le_iff_toNat_le]
      simp only
      omega
    · rw [setNode_nodes_of_ne _ different.symm]
      exact UInt64.le_refl _
  · rw [claimed]
    exact recordedValid.remove correct member

theorem claimBlock_tiles {size : UInt64} {live : List Nat}
    (tiles : Tiles size (freeAndLiveRanges tree live)) (notLive : allocNode ∉ live)
    (outside : ∀ other ∈ live, other ∉ tree.head) :
    Tiles size (freeAndLiveRanges (claimBlock rb tree allocNode node alignedEnd) (live ++ [allocNode])) := by
  have different : allocNode ≠ node := fun same => absent (same ▸ member)
  obtain ⟨pre, post, shape⟩ := List.append_of_mem member
  have distinct := valid.nodup
  rw [shape] at distinct
  have notPre : node ∉ pre := LinkedList.not_mem_front distinct
  have notPost : node ∉ post := LinkedList.not_mem_back distinct
  have allocNotPre : allocNode ∉ pre := fun inPre => absent (by simp [shape, inPre])
  have allocNotPost : allocNode ∉ post := fun inPost => absent (by simp [shape, inPost])
  have nodeNotLive : node ∉ live := fun inLive => outside node inLive member
  have old : freeAndLiveRanges tree live =
      pre.map tree.nodes ++ tree.nodes node :: (post.map tree.nodes ++ live.map tree.nodes) := by
    simp [freeAndLiveRanges, shape]
  rcases claimBlock_cases rb different alignedEnd with ⟨shrinks, claimed⟩ | ⟨reaches, claimed⟩
  · have new : freeAndLiveRanges (claimBlock rb tree allocNode node alignedEnd) (live ++ [allocNode]) =
        pre.map tree.nodes ++ ⟨alignedEnd + 1, (tree.nodes node).«end»⟩ ::
          (post.map tree.nodes ++ live.map tree.nodes ++ [⟨(tree.nodes node).start, alignedEnd⟩]) := by
      rw [claimed, freeAndLiveRanges, setNode_head, setNode_head, shape]
      simp only [List.map_append, List.map_cons, List.map_nil, map_setNode_of_not_mem notPre,
        map_setNode_of_not_mem allocNotPre, map_setNode_of_not_mem notPost,
        map_setNode_of_not_mem allocNotPost, map_setNode_of_not_mem nodeNotLive,
        map_setNode_of_not_mem notLive, setNode_nodes_self, setNode_nodes_of_ne _ different,
        List.append_assoc, List.cons_append]
    have touching : alignedEnd.toNat + 1 = (alignedEnd + 1).toNat :=
      (toNat_add_one_of_lt shrinks).symm
    have onFront : Tiles size (UvmRangeTreeNode.fuse ⟨(tree.nodes node).start, alignedEnd⟩
        ⟨alignedEnd + 1, (tree.nodes node).«end»⟩ ::
          (pre.map tree.nodes ++ (post.map tree.nodes ++ live.map tree.nodes))) := by
      apply tiles.perm
      rw [old]
      exact List.perm_middle
    have restWellFormed : alignedEnd + 1 ≤ (tree.nodes node).«end» := by
      rw [UInt64.le_iff_toNat_le, toNat_add_one_of_lt shrinks]
      exact UInt64.lt_iff_toNat_lt.mp shrinks
    have split := onFront.split (UInt64.le_iff_toNat_le.mpr startBelow) restWellFormed touching
    rw [new]
    exact split.perm (List.perm_iff_count.mpr fun range => by
      simp only [List.count_append, List.count_cons, List.count_nil]
      omega)
  · have whole : alignedEnd = (tree.nodes node).«end» := UInt64.toNat_inj.mp (by
      have := UInt64.lt_iff_toNat_lt.not.mp reaches
      omega)
    have new : freeAndLiveRanges (claimBlock rb tree allocNode node alignedEnd) (live ++ [allocNode]) =
        pre.map tree.nodes ++ post.map tree.nodes ++ live.map tree.nodes ++ [tree.nodes node] := by
      rw [claimed, freeAndLiveRanges, remove_head, setNode_head, shape,
        List.erase_append_right _ notPre, List.erase_cons_head, remove_nodes, whole]
      simp only [List.map_append, List.map_cons, List.map_nil,
        map_setNode_of_not_mem allocNotPre, map_setNode_of_not_mem allocNotPost,
        map_setNode_of_not_mem notLive, setNode_nodes_self, List.append_assoc]
    rw [new]
    apply tiles.perm
    rw [old]
    exact List.perm_iff_count.mpr fun range => by
      simp only [List.count_append, List.count_cons, List.count_nil]
      omega

omit endBelow in
theorem claimBlock_apart (apart : ApartExcept tree (fun _ _ => False)) :
    ApartExcept (claimBlock rb tree allocNode node alignedEnd) (fun _ _ => False) := by
  have different : allocNode ≠ node := fun same => absent (same ▸ member)
  rcases claimBlock_cases rb different alignedEnd with ⟨shrinks, claimed⟩ | ⟨-, claimed⟩
  · rw [claimed]
    intro a aMember b bMember touching
    rw [setNode_head, setNode_head] at aMember bMember
    have aOther : a ≠ allocNode := fun same => absent (same ▸ aMember)
    have bOther : b ≠ allocNode := fun same => absent (same ▸ bMember)
    have sameEnd : (((tree.setNode allocNode ⟨(tree.nodes node).start, alignedEnd⟩).setNode node
        ⟨alignedEnd + 1, (tree.nodes node).«end»⟩).nodes a).«end» = (tree.nodes a).«end» := by
      by_cases atNode : a = node
      · rw [atNode, setNode_nodes_self]
      · rw [setNode_nodes_of_ne _ atNode, setNode_nodes_of_ne _ aOther]
    rw [sameEnd] at touching
    by_cases atNode : b = node
    · rw [atNode, setNode_nodes_self, toNat_add_one_of_lt shrinks] at touching
      have shrinksBound := UInt64.lt_iff_toNat_lt.mp shrinks
      have aWellFormed := UInt64.le_iff_toNat_le.mp (valid.wellFormed a aMember)
      by_cases same : a = node
      · rw [same] at touching
        omega
      · rcases valid.separated aMember member same with before | after
        · have := UInt64.lt_iff_toNat_lt.mp before
          omega
        · have := UInt64.lt_iff_toNat_lt.mp after
          omega
    · rw [setNode_nodes_of_ne _ atNode, setNode_nodes_of_ne _ bOther] at touching
      exact apart a aMember b bMember touching
  · rw [claimed]
    intro a aMember b bMember touching
    rw [remove_head, setNode_head] at aMember bMember
    have aOld := List.mem_of_mem_erase aMember
    have bOld := List.mem_of_mem_erase bMember
    have aOther : a ≠ allocNode := fun same => absent (same ▸ aOld)
    have bOther : b ≠ allocNode := fun same => absent (same ▸ bOld)
    rw [remove_nodes, setNode_nodes_of_ne _ aOther, setNode_nodes_of_ne _ bOther] at touching
    exact apart a aOld b bOld touching

omit valid startBelow endBelow in
theorem claimBlock_head_subset :
    ∀ other ∈ (claimBlock rb tree allocNode node alignedEnd).head, other ∈ tree.head := by
  have different : allocNode ≠ node := by
    rintro rfl
    exact absent member
  rcases claimBlock_cases rb different alignedEnd with ⟨-, claimed⟩ | ⟨-, claimed⟩
  · rw [claimed, setNode_head, setNode_head]
    exact fun other inHead => inHead
  · rw [claimed, remove_head, setNode_head]
    exact fun other inHead => List.mem_of_mem_erase inHead

end Claim

section Step

variable {rb : Rbtree} {state : AllocatorState}

/-- A successful allocation keeps the invariant. -/
theorem AllocatorState.Valid.claim (correct : rb.Correct) (valid : state.Valid)
    {allocNode node : Nat} {alignedStart alignedEnd : UInt64}
    (absent : allocNode ∉ state.allocator.rangeTree.head) (notLive : allocNode ∉ state.liveNodes)
    (member : node ∈ state.allocator.rangeTree.head)
    (startBelow : (state.allocator.rangeTree.nodes node).start.toNat ≤ alignedEnd.toNat)
    (endBelow : alignedEnd.toNat ≤ (state.allocator.rangeTree.nodes node).«end».toNat) :
    AllocatorState.Valid
      { allocator := { state.allocator with
          rangeTree := claimBlock rb state.allocator.rangeTree allocNode node alignedEnd }
        live := state.live ++ [⟨alignedStart, allocNode⟩] } := by
  have subset : ∀ other ∈ (claimBlock rb state.allocator.rangeTree allocNode node alignedEnd).head,
      other ∈ state.allocator.rangeTree.head := claimBlock_head_subset absent member
  refine ⟨valid.positive, claimBlock_valid valid.tree absent member startBelow correct, ?_,
    claimBlock_apart valid.tree absent member startBelow valid.apart, ?_, ?_⟩
  · change Tiles state.allocator.size (freeAndLiveRanges
      (claimBlock rb state.allocator.rangeTree allocNode node alignedEnd)
      ((state.live ++ [UvmRangeAllocation.mk alignedStart allocNode]).map UvmRangeAllocation.node))
    rw [List.map_append]
    exact claimBlock_tiles valid.tree absent member startBelow endBelow valid.tiles notLive
      valid.liveOutside
  · change ((state.live ++ [UvmRangeAllocation.mk alignedStart allocNode]).map UvmRangeAllocation.node).Nodup
    rw [List.map_append]
    exact valid.liveDistinct.append (List.nodup_singleton allocNode)
      (fun other inLive same => notLive (by simp at same; exact same ▸ inLive))
  · intro other inLive inHead
    change other ∈ (state.live ++ [UvmRangeAllocation.mk alignedStart allocNode]).map UvmRangeAllocation.node at inLive
    rw [List.map_append] at inLive
    rcases List.mem_append.mp inLive with old | fresh
    · exact valid.liveOutside other old (subset other inHead)
    · simp at fresh
      exact absent (fresh ▸ subset other inHead)

end Step

section Free

variable (rb : Rbtree) {tree : UvmRangeTree} {node : Nat} {size : UInt64}

theorem mem_of_mem_linked {pre post : List Nat} {other : Nat} (split : tree.head = pre ++ post)
    (member : other ∈ pre ++ node :: post) (different : other ≠ node) : other ∈ tree.head := by
  rw [split]
  simp only [List.mem_append, List.mem_cons] at member ⊢
  rcases member with inPre | same | inPost
  · exact .inl inPre
  · exact absurd same different
  · exact .inr inPost

theorem linked_tiles {front back pre post : List Nat} (split : tree.head = pre ++ post)
    (tiles : Tiles size (freeAndLiveRanges tree (front ++ node :: back))) :
    Tiles size (freeAndLiveRanges (tree.linked rb node (pre ++ node :: post)) (front ++ back)) := by
  apply tiles.perm
  rw [freeAndLiveRanges, freeAndLiveRanges, linked_head, linked_nodes, split]
  exact List.perm_iff_count.mpr fun range => by
    simp only [List.map_append, List.map_cons, List.count_append, List.count_cons]
    omega

theorem linked_apart {pre post : List Nat} (split : tree.head = pre ++ post)
    (apart : ApartExcept tree (fun _ _ => False)) :
    ApartExcept (tree.linked rb node (pre ++ node :: post)) (fun a b => a = node ∨ b = node) := by
  intro a aMember b bMember touching
  rw [linked_head] at aMember bMember
  rw [linked_nodes] at touching
  by_cases aNode : a = node
  · exact .inl aNode
  by_cases bNode : b = node
  · exact .inr bNode
  exact (apart a (mem_of_mem_linked split aMember aNode) b (mem_of_mem_linked split bMember bNode)
    touching).elim

theorem fused_tiles {live front back : List Nat} {first second removed kept : Nat} (valid : tree.Valid)
    (shape : tree.head = front ++ first :: second :: back)
    (touching : (tree.nodes first).«end» + 1 = (tree.nodes second).start)
    (pair : FusePair first second removed kept) (tiles : Tiles size (freeAndLiveRanges tree live))
    (outside : ∀ other ∈ live, other ∉ tree.head) :
    Tiles size (freeAndLiveRanges ((uvmRangeTreeRemove rb tree removed).setNode kept
      ((tree.nodes first).fuse (tree.nodes second))) live) := by
  have keptMember : kept ∈ tree.head := by
    rcases pair with ⟨-, rfl⟩ | ⟨-, rfl⟩ <;> simp [shape]
  have keptNotLive : kept ∉ live := fun inLive => outside kept inLive keptMember
  have between := valid.consecutive_lt shape
  have onFront : Tiles size (tree.nodes first :: tree.nodes second ::
      (front.map tree.nodes ++ back.map tree.nodes ++ live.map tree.nodes)) := by
    apply tiles.perm
    rw [freeAndLiveRanges, shape]
    exact List.perm_iff_count.mpr fun range => by
      simp only [List.map_append, List.map_cons, List.count_append, List.count_cons]
      omega
  have fused := onFront.fuse (by rw [← touching, toNat_add_one_of_lt between])
  apply fused.perm
  rw [freeAndLiveRanges, fused_ranges rb valid shape pair, map_setNode_of_not_mem keptNotLive,
    remove_nodes]
  exact List.perm_iff_count.mpr fun range => by
    simp only [List.count_append, List.count_cons]
    omega

variable (valid : tree.Valid)
include valid

theorem mergePrev_tiles {live : List Nat} (tiles : Tiles size (freeAndLiveRanges tree live))
    (outside : ∀ other ∈ live, other ∉ tree.head) :
    Tiles size (freeAndLiveRanges (uvmRangeTreeMergePrev rb tree node).2 live) := by
  rcases uvmRangeTreeMergePrev_cases valid node with
    ⟨unchanged, -⟩ | ⟨prev, front, back, shape, touching, merged⟩
  · rw [unchanged]
    exact tiles
  · rw [merged]
    exact fused_tiles rb valid shape touching (.inl ⟨rfl, rfl⟩) tiles outside

theorem mergeNext_tiles {live : List Nat} (tiles : Tiles size (freeAndLiveRanges tree live))
    (outside : ∀ other ∈ live, other ∉ tree.head) :
    Tiles size (freeAndLiveRanges (uvmRangeTreeMergeNext rb tree node).2 live) := by
  rcases uvmRangeTreeMergeNext_cases valid node with
    ⟨unchanged, -⟩ | ⟨next, front, back, shape, touching, merged⟩
  · rw [unchanged]
    exact tiles
  · rw [merged]
    exact fused_tiles rb valid shape touching (.inr ⟨rfl, rfl⟩) tiles outside

theorem mergePrev_head (member : node ∈ tree.head) :
    node ∈ (uvmRangeTreeMergePrev rb tree node).2.head ∧
      ∀ other ∈ (uvmRangeTreeMergePrev rb tree node).2.head, other ∈ tree.head := by
  rcases uvmRangeTreeMergePrev_cases valid node with
    ⟨unchanged, -⟩ | ⟨prev, front, back, shape, -, merged⟩
  · rw [unchanged]
    exact ⟨member, fun _ inHead => inHead⟩
  · rw [merged, fused_head valid shape (.inl ⟨rfl, rfl⟩)]
    refine ⟨by simp, fun other inHead => ?_⟩
    rw [shape]
    simp only [List.mem_append, List.mem_cons] at inHead ⊢
    tauto

theorem mergeNext_head (member : node ∈ tree.head) :
    node ∈ (uvmRangeTreeMergeNext rb tree node).2.head ∧
      ∀ other ∈ (uvmRangeTreeMergeNext rb tree node).2.head, other ∈ tree.head := by
  rcases uvmRangeTreeMergeNext_cases valid node with
    ⟨unchanged, -⟩ | ⟨next, front, back, shape, -, merged⟩
  · rw [unchanged]
    exact ⟨member, fun _ inHead => inHead⟩
  · rw [merged, fused_head valid shape (.inr ⟨rfl, rfl⟩)]
    refine ⟨by simp, fun other inHead => ?_⟩
    rw [shape]
    simp only [List.mem_append, List.mem_cons] at inHead ⊢
    tauto

theorem mergePrev_apart (apart : ApartExcept tree (fun a b => a = node ∨ b = node)) :
    ApartExcept (uvmRangeTreeMergePrev rb tree node).2 (fun a _ => a = node) := by
  rcases uvmRangeTreeMergePrev_cases valid node with
    ⟨unchanged, notTouching⟩ | ⟨prev, front, back, shape, -, merged⟩
  · rw [unchanged]
    intro a aMember b bMember touching
    refine (apart a aMember b bMember touching).resolve_right fun bNode => ?_
    obtain ⟨front, back, shape⟩ := valid.touching_consecutive aMember bMember touching
    rw [bNode] at shape touching
    have isPrev : uvmRangeTreePrev tree node = some a :=
      (LinkedList.prev_eq_some_iff valid.nodup).mpr ⟨front, back, shape⟩
    have before := valid.consecutive_lt shape
    exact notTouching a isPrev (UInt64.toNat_inj.mp (by rw [toNat_add_one_of_lt before]; exact touching))
  · rw [merged]
    intro a aMember b bMember touching
    have aOld : a ∈ tree.head := List.mem_of_mem_erase aMember
    have bOld : b ∈ tree.head := List.mem_of_mem_erase bMember
    have prevMember : prev ∈ tree.head := by simp [shape]
    have prevOther : prev ≠ node := by
      have distinct := valid.nodup
      rw [shape] at distinct
      exact fun same => LinkedList.not_mem_back distinct (same ▸ List.mem_cons_self)
    by_contra aOther
    rw [setNode_nodes_of_ne _ aOther, remove_nodes] at touching
    by_cases bNode : b = node
    · rw [bNode, setNode_nodes_self, UvmRangeTreeNode.fuse_start] at touching
      exact (apart a aOld prev prevMember touching).elim aOther prevOther
    · rw [setNode_nodes_of_ne _ bNode, remove_nodes] at touching
      exact (apart a aOld b bOld touching).elim aOther bNode

theorem mergeNext_apart (apart : ApartExcept tree (fun a _ => a = node)) :
    ApartExcept (uvmRangeTreeMergeNext rb tree node).2 (fun _ _ => False) := by
  rcases uvmRangeTreeMergeNext_cases valid node with
    ⟨unchanged, notTouching⟩ | ⟨next, front, back, shape, -, merged⟩
  · rw [unchanged]
    intro a aMember b bMember touching
    have aNode := apart a aMember b bMember touching
    obtain ⟨front, back, shape⟩ := valid.touching_consecutive aMember bMember touching
    rw [aNode] at shape touching
    have isNext : uvmRangeTreeNext tree node = some b :=
      (LinkedList.next_eq_some_iff valid.nodup).mpr ⟨front, back, shape⟩
    have before := valid.consecutive_lt shape
    exact notTouching b isNext (UInt64.toNat_inj.mp (by rw [toNat_add_one_of_lt before]; exact touching))
  · rw [merged]
    intro a aMember b bMember touching
    have aOld : a ∈ tree.head := List.mem_of_mem_erase aMember
    have bOld : b ∈ tree.head := List.mem_of_mem_erase bMember
    have nextMember : next ∈ tree.head := by simp [shape]
    have nextOther : next ≠ node := by
      have distinct := valid.nodup
      rw [shape] at distinct
      exact fun same => LinkedList.not_mem_back distinct (same ▸ List.mem_cons_self)
    have sameStart : (((uvmRangeTreeRemove rb tree next).setNode node
        ((tree.nodes node).fuse (tree.nodes next))).nodes b).start = (tree.nodes b).start := by
      by_cases bNode : b = node
      · rw [bNode, setNode_nodes_self, UvmRangeTreeNode.fuse_start]
      · rw [setNode_nodes_of_ne _ bNode, remove_nodes]
    rw [sameStart] at touching
    by_cases aNode : a = node
    · rw [aNode, setNode_nodes_self, UvmRangeTreeNode.fuse_end] at touching
      exact nextOther (apart next nextMember b bOld touching)
    · rw [setNode_nodes_of_ne _ aNode, remove_nodes] at touching
      exact aNode (apart a aOld b bOld touching)

end Free

section Run

variable {rb : Rbtree} {state : AllocatorState}

theorem AllocatorState.Valid.alloc (correct : rb.Correct) (valid : state.Valid)
    {size alignment : UInt64} {fresh : Option Nat}
    (admissible : (AllocatorOp.alloc size alignment fresh).Admissible state) :
    ((AllocatorOp.alloc size alignment fresh).apply rb state).Valid := by
  obtain ⟨positive, alignmentOk, freshOk⟩ := admissible
  show AllocatorState.Valid
    { allocator := (uvmRangeAllocatorAlloc rb state.allocator size alignment fresh).2.1
      live := state.live ++ (uvmRangeAllocatorAlloc rb state.allocator size alignment fresh).2.2.toList }
  by_cases succeeded : (uvmRangeAllocatorAlloc rb state.allocator size alignment fresh).1 = .nvOk
  · obtain ⟨allocNode, node, alignedStart, alignedEnd, isFresh, member, ⟨-, startAbove, fits⟩,
      endAt, result⟩ := uvmRangeAllocatorAlloc_ok rb valid.tree positive alignmentOk succeeded
    obtain ⟨absent, notLive⟩ := freshOk allocNode (Option.mem_def.mpr isFresh)
    have sizePositive : 0 < size.toNat := by simpa using UInt64.lt_iff_toNat_lt.mp positive
    rw [result]
    exact valid.claim correct absent notLive member (by omega) (by omega)
  · rcases uvmRangeAllocatorAlloc_cases rb state.allocator size alignment fresh with
      ⟨unchanged, -, -⟩ | ⟨_, _, _, _, _, _, _, result⟩
    · rw [unchanged]
      simp only [Option.toList_none, List.append_nil]
      exact valid
    · rw [result] at succeeded
      exact absurd rfl succeeded

/-- Freeing a live allocation keeps the invariant: its range goes back into the
list and merges with whichever neighbours it touches. -/
theorem AllocatorState.Valid.free (correct : rb.Correct) (valid : state.Valid) {index : Nat}
    {allocation : UvmRangeAllocation} (found : state.live[index]? = some allocation) :
    AllocatorState.Valid
      { allocator := uvmRangeAllocatorFree rb state.allocator allocation
        live := state.live.eraseIdx index } := by
  obtain ⟨front, back, liveShape, erased⟩ : ∃ front back, state.live = front ++ allocation :: back ∧
      state.live.eraseIdx index = front ++ back := ⟨_, _, LinkedList.split_at_getElem? found⟩
  set tree := state.allocator.rangeTree with treeIs
  set node := allocation.node with nodeIs
  have nodesShape : state.liveNodes = front.map UvmRangeAllocation.node ++
      node :: back.map UvmRangeAllocation.node := by
    rw [AllocatorState.liveNodes, liveShape, List.map_append, List.map_cons]
  have distinct := valid.liveDistinct
  rw [nodesShape] at distinct
  have others : ∀ other ∈ front.map UvmRangeAllocation.node ++ back.map UvmRangeAllocation.node,
      other ≠ node ∧ other ∉ tree.head := by
    intro other inOthers
    have notNode : other ≠ node := by
      rintro rfl
      exact (List.nodup_middle.mp distinct |> List.nodup_cons.mp).1 inOthers
    refine ⟨notNode, valid.liveOutside other ?_⟩
    rw [nodesShape]
    simp only [List.mem_append, List.mem_cons] at inOthers ⊢
    tauto
  have absent : node ∉ tree.head := valid.liveOutside node (by simp [nodesShape])
  have tiles : Tiles state.allocator.size (freeAndLiveRanges tree
      (front.map UvmRangeAllocation.node ++ node :: back.map UvmRangeAllocation.node)) := by
    rw [← nodesShape]
    exact valid.tiles
  obtain ⟨nonEmpty, -⟩ := tiles.bounded (tree.nodes node) (by simp [freeAndLiveRanges])
  have noOverlap : ∀ other ∈ tree.head, rangeNodesOverlap (tree.nodes node) (tree.nodes other) = false := by
    intro other inHead
    have split : Tiles state.allocator.size (tree.head.map tree.nodes ++ state.liveNodes.map tree.nodes) :=
      valid.tiles
    rw [rangeNodesOverlap_comm]
    exact split.not_overlap (List.mem_map_of_mem inHead) (List.mem_map_of_mem (by simp [nodesShape]))
  rcases uvmRangeTreeAdd_spec rb valid.tree nonEmpty with
    ⟨⟨other, inHead, overlapping⟩, -⟩ | ⟨-, -, pre, post, split, preBefore, postAfter, linkedEq⟩
  · rw [noOverlap other inHead] at overlapping
    cases overlapping
  · have linkedValid := valid.tree.linked correct nonEmpty split preBefore postAfter
    have linkedMember : node ∈ (tree.linked rb node (pre ++ node :: post)).head := by simp
    have linkedOutside : ∀ other ∈ front.map UvmRangeAllocation.node ++ back.map UvmRangeAllocation.node,
        other ∉ (tree.linked rb node (pre ++ node :: post)).head := by
      intro other inOthers inHead
      rw [linked_head] at inHead
      exact (others other inOthers).2 (mem_of_mem_linked split inHead (others other inOthers).1)
    have prevValid := (uvmRangeTreeMergePrev_spec correct linkedValid node node).2.1
    obtain ⟨prevMember, prevSubset⟩ := mergePrev_head rb linkedValid linkedMember
    have prevOutside : ∀ other ∈ front.map UvmRangeAllocation.node ++ back.map UvmRangeAllocation.node,
        other ∉ (uvmRangeTreeMergePrev rb (tree.linked rb node (pre ++ node :: post)) node).2.head :=
      fun other inOthers inHead => linkedOutside other inOthers (prevSubset other inHead)
    have nextSubset := (mergeNext_head rb prevValid prevMember).2
    show AllocatorState.Valid
      { allocator := { state.allocator with rangeTree := (uvmRangeTreeMergeNext rb
          (uvmRangeTreeMergePrev rb (uvmRangeTreeAdd rb tree node).2 node).2 node).2 }
        live := state.live.eraseIdx index }
    rw [linkedEq, erased]
    refine ⟨valid.positive, (uvmRangeTreeMergeNext_spec correct prevValid node node).2.1, ?_,
      mergeNext_apart rb prevValid (mergePrev_apart rb linkedValid (linked_apart rb split valid.apart)),
      ?_, ?_⟩
    · change Tiles state.allocator.size (freeAndLiveRanges _ ((front ++ back).map UvmRangeAllocation.node))
      rw [List.map_append]
      exact mergeNext_tiles rb prevValid
        (mergePrev_tiles rb linkedValid (linked_tiles rb split tiles) linkedOutside) prevOutside
    · change ((front ++ back).map UvmRangeAllocation.node).Nodup
      rw [List.map_append]
      exact (List.nodup_cons.mp (List.nodup_middle.mp distinct)).2
    · intro other inLive inHead
      change other ∈ (front ++ back).map UvmRangeAllocation.node at inLive
      rw [List.map_append] at inLive
      exact prevOutside other inLive (nextSubset other inHead)

theorem AllocatorState.Valid.apply (correct : rb.Correct) (valid : state.Valid) {op : AllocatorOp}
    (admissible : op.Admissible state) : (op.apply rb state).Valid := by
  cases op with
  | alloc size alignment fresh => exact valid.alloc correct admissible
  | free index =>
      cases found : state.live[index]? with
      | none =>
          simp only [AllocatorOp.apply, found]
          exact valid
      | some allocation =>
          simp only [AllocatorOp.apply, found]
          exact valid.free correct found

theorem uvmRangeAllocatorInit_valid (correct : rb.Correct) {nodes : Nat → UvmRangeTreeNode}
    {size : UInt64} {node : Nat} {allocator : UvmRangeAllocator} (positive : 0 < size)
    (init : uvmRangeAllocatorInit rb nodes size (some node) = (.nvOk, some allocator)) :
    AllocatorState.Valid ⟨allocator, []⟩ := by
  simp only [uvmRangeAllocatorInit, Prod.mk.injEq, Option.some.injEq, true_and] at init
  subst init
  have emptyValid : (uvmRangeTreeInit nodes).Valid :=
    ⟨rfl, fun _ member => (by cases member), List.Pairwise.nil⟩
  have ready := emptyValid.setNode_of_not_mem (List.not_mem_nil (a := node)) ⟨0, size - 1⟩
  have sizeBound : 0 < size.toNat := by simpa using UInt64.lt_iff_toNat_lt.mp positive
  have lastByte : (size - 1).toNat = size.toNat - 1 := by
    rw [UInt64.toNat_sub_of_le _ _ (UInt64.le_iff_toNat_le.mpr (by rw [UInt64.toNat_one]; exact sizeBound))]
    rfl
  have nonEmpty : (((uvmRangeTreeInit nodes).setNode node ⟨0, size - 1⟩).nodes node).start ≤
      (((uvmRangeTreeInit nodes).setNode node ⟨0, size - 1⟩).nodes node).«end» := by
    rw [setNode_nodes_self]
    exact UInt64.le_iff_toNat_le.mpr (by simp)
  rcases uvmRangeTreeAdd_spec rb ready nonEmpty with
    ⟨⟨other, inHead, -⟩, -⟩ | ⟨-, -, pre, post, split, preBefore, postAfter, linkedEq⟩
  · cases inHead
  · obtain ⟨rfl, rfl⟩ := List.append_eq_nil_iff.mp split.symm
    have linkedValid := ready.linked correct nonEmpty split preBefore postAfter
    rw [linkedEq]
    have ranges : freeAndLiveRanges
        (((uvmRangeTreeInit nodes).setNode node ⟨0, size - 1⟩).linked rb node ([] ++ [node])) [] =
          [⟨0, size - 1⟩] := by
      simp [freeAndLiveRanges]
    refine ⟨positive, linkedValid, ?_, ?_, List.nodup_nil, fun _ member => by cases member⟩
    · show Tiles size (freeAndLiveRanges _ [])
      rw [ranges]
      refine ⟨fun range member => ?_, fun addr below => ?_⟩
      · rw [List.mem_singleton.mp member, UInt64.lt_iff_toNat_lt, lastByte]
        exact ⟨UInt64.le_iff_toNat_le.mpr (by simp), by omega⟩
      · have addrBound := UInt64.lt_iff_toNat_lt.mp below
        have within : (0 : UInt64) ≤ addr ∧ addr ≤ size - 1 :=
          ⟨UInt64.le_iff_toNat_le.mpr (by simp), UInt64.le_iff_toNat_le.mpr (by rw [lastByte]; omega)⟩
        simp [coverCount, within]
    · intro a aMember b bMember touching
      simp only [linked_head, List.nil_append, List.mem_singleton] at aMember bMember
      subst aMember bMember
      simp at touching

theorem Reachable.valid (correct : rb.Correct) (reachable : Reachable rb state) : state.Valid := by
  induction reachable with
  | init positive init => exact uvmRangeAllocatorInit_valid correct positive init
  | step op _ admissible ih => exact ih.apply correct admissible

end Run

section Spec

variable {rb : Rbtree} {state : AllocatorState}

/-- What every admissible call of `uvm_range_allocator_alloc` from the state
does: on success the block is aligned, lies below the allocator's size and
inside the range recorded for the allocation; `NV_ERR_UVM_ADDRESS_IN_USE` comes
only when no free range holds an aligned block, and then nothing changes. -/
def AllocSpec (rb : Rbtree) (state : AllocatorState) : Prop :=
  ∀ size alignment fresh, (AllocatorOp.alloc size alignment fresh).Admissible state →
    let result := uvmRangeAllocatorAlloc rb state.allocator size alignment fresh
    (result.1 = .nvOk → ∃ allocation, result.2.2 = some allocation ∧
        allocation.alignedStart.toNat + size.toNat ≤ state.allocator.size.toNat ∧
        HoldsBlock (result.2.1.rangeTree.nodes allocation.node) size alignment
          allocation.alignedStart.toNat ∧
        (result.2.1.rangeTree.nodes allocation.node).«end».toNat + 1 =
          allocation.alignedStart.toNat + size.toNat) ∧
      (result.1 = .nvErrUvmAddressInUse → result.2 = (state.allocator, none) ∧
        ∀ node ∈ state.allocator.rangeTree.head, ∀ block,
          ¬HoldsBlock (state.allocator.rangeTree.nodes node) size alignment block)

theorem AllocatorState.Valid.allocSpec (valid : state.Valid) : AllocSpec rb state := by
  intro size alignment fresh ⟨positive, alignmentOk, freshOk⟩
  have bounded : ∀ node ∈ state.allocator.rangeTree.head,
      (state.allocator.rangeTree.nodes node).«end» < state.allocator.size :=
    fun node member => (valid.tiles.bounded _ (List.mem_append_left _ (List.mem_map_of_mem member))).2
  refine ⟨fun succeeded => ?_, fun failed =>
    uvmRangeAllocatorAlloc_addressInUse rb valid.tree bounded positive alignmentOk failed⟩
  obtain ⟨allocNode, node, alignedStart, alignedEnd, isFresh, member, ⟨aligned, startAbove, fits⟩,
    endAt, result⟩ := uvmRangeAllocatorAlloc_ok rb valid.tree positive alignmentOk succeeded
  have different : allocNode ≠ node := fun same =>
    (freshOk allocNode (Option.mem_def.mpr isFresh)).1 (same ▸ member)
  have endBelow := UInt64.lt_iff_toNat_lt.mp (bounded node member)
  rw [result]
  refine ⟨⟨alignedStart, allocNode⟩, rfl, show alignedStart.toNat + size.toNat ≤ _ by omega, ?_⟩
  rw [claimBlock_nodes_allocNode rb different alignedEnd]
  exact ⟨⟨aligned, startAbove, show alignedStart.toNat + size.toNat ≤ alignedEnd.toNat + 1 by omega⟩,
    endAt⟩

theorem single_range_of_tiles {tree : UvmRangeTree} {size : UInt64} (valid : tree.Valid)
    (positive : 0 < size) (tiles : Tiles size (tree.head.map tree.nodes))
    (apart : ApartExcept tree (fun _ _ => False)) :
    ∃ node, tree.head = [node] ∧ tree.nodes node = ⟨0, size - 1⟩ := by
  have covered : ∀ addr, addr < size →
      ∃ node ∈ tree.head, (tree.nodes node).start ≤ addr ∧ addr ≤ (tree.nodes node).«end» := by
    intro addr below
    have counted : 0 < coverCount (tree.head.map tree.nodes) addr := by
      rw [tiles.once addr below]
      exact Nat.one_pos
    obtain ⟨range, inRanges, within⟩ := List.countP_pos_iff.mp counted
    obtain ⟨node, member, rfl⟩ := List.mem_map.mp inRanges
    exact ⟨node, member, of_decide_eq_true within⟩
  have bounded : ∀ node ∈ tree.head, (tree.nodes node).start.toNat ≤ (tree.nodes node).«end».toNat ∧
      (tree.nodes node).«end».toNat < size.toNat := fun node member => by
    obtain ⟨wellFormed, below⟩ := tiles.bounded _ (List.mem_map_of_mem member)
    exact ⟨UInt64.le_iff_toNat_le.mp wellFormed, UInt64.lt_iff_toNat_lt.mp below⟩
  have sorted := startKeys_sorted valid.wellFormed valid.ordered
  obtain ⟨zeroNode, zeroMember, zeroStart, -⟩ := covered 0 positive
  cases shape : tree.head with
  | nil =>
      rw [shape] at zeroMember
      cases zeroMember
  | cons first rest =>
      have firstMember : first ∈ tree.head := by simp [shape]
      have ordered := valid.ordered
      rw [shape, List.pairwise_cons] at ordered sorted
      have firstStart : (tree.nodes first).start.toNat = 0 := by
        have zeroBound : (tree.nodes zeroNode).start.toNat = 0 := by
          simpa using UInt64.le_iff_toNat_le.mp zeroStart
        rw [shape] at zeroMember
        rcases List.mem_cons.mp zeroMember with same | later
        · rw [← same]
          exact zeroBound
        · have := sorted.1 zeroNode later
          omega
      have firstEnd : (tree.nodes first).«end».toNat + 1 = size.toNat := by
        obtain ⟨firstWellFormed, endBelow⟩ := bounded first firstMember
        by_contra short
        have nextAddr : ((tree.nodes first).«end» + 1).toNat = (tree.nodes first).«end».toNat + 1 := by
          have := size.toNat_lt
          rw [UInt64.toNat_add, UInt64.toNat_one, Nat.mod_eq_of_lt (by omega)]
        obtain ⟨other, otherMember, otherStart, otherEnd⟩ :=
          covered ((tree.nodes first).«end» + 1) (UInt64.lt_iff_toNat_lt.mpr (by omega))
        rw [UInt64.le_iff_toNat_le, nextAddr] at otherStart otherEnd
        have otherMember' := otherMember
        rw [shape] at otherMember'
        rcases List.mem_cons.mp otherMember' with same | later
        · rw [same] at otherEnd
          omega
        · have after := UInt64.lt_iff_toNat_lt.mp (ordered.1 other later)
          exact apart first firstMember other otherMember (by omega)
      refine ⟨first, ?_, ?_⟩
      · cases rest with
        | nil => rfl
        | cons second back =>
            have after := UInt64.lt_iff_toNat_lt.mp (ordered.1 second List.mem_cons_self)
            have := bounded second (by simp [shape])
            omega
      · have lastByte : (size - 1).toNat = size.toNat - 1 := by
          rw [UInt64.toNat_sub_of_le _ _ (UInt64.le_iff_toNat_le.mpr (by rw [UInt64.toNat_one]; omega))]
          rfl
        have startZero : (tree.nodes first).start = 0 := UInt64.toNat_inj.mp (by simpa using firstStart)
        have endLast : (tree.nodes first).«end» = size - 1 := UInt64.toNat_inj.mp (by omega)
        rw [← startZero, ← endLast]

theorem AllocatorState.Valid.single_range (valid : state.Valid) (empty : state.live = []) :
    ∃ node, state.allocator.rangeTree.head = [node] ∧
      state.allocator.rangeTree.nodes node = ⟨0, state.allocator.size - 1⟩ := by
  have tiles := valid.tiles
  simp only [freeAndLiveRanges, AllocatorState.liveNodes, empty, List.map_nil, List.append_nil] at tiles
  exact single_range_of_tiles valid.tree valid.positive tiles valid.apart

end Spec

/-- Over every run of allocations and frees from a successful
`uvm_range_allocator_init`, the free ranges and the live allocations' ranges
partition `[0, size - 1]`, no two free ranges touch, every allocation call
behaves as `AllocSpec` says, and once all allocations are freed the tree holds
exactly the range `uvm_range_allocator_deinit` asserts. -/
theorem reachable_rangeAllocator_partition (rb : Rbtree) (correct : rb.Correct)
    {state : AllocatorState} (reachable : Reachable rb state) :
    Tiles state.allocator.size (freeAndLiveRanges state.allocator.rangeTree state.liveNodes) ∧
      (∀ a ∈ state.allocator.rangeTree.head, ∀ b ∈ state.allocator.rangeTree.head,
        (state.allocator.rangeTree.nodes a).«end».toNat + 1 ≠
          (state.allocator.rangeTree.nodes b).start.toNat) ∧
      AllocSpec rb state ∧
      (state.live = [] → ∃ node, state.allocator.rangeTree.head = [node] ∧
        state.allocator.rangeTree.nodes node = ⟨0, state.allocator.size - 1⟩ ∧
        uvmRangeAllocatorDeinitAsserts state.allocator = true) := by
  have valid := reachable.valid correct
  refine ⟨valid.tiles, valid.apart, valid.allocSpec, fun empty => ?_⟩
  obtain ⟨node, single, whole⟩ := valid.single_range empty
  exact ⟨node, single, whole, uvmRangeAllocatorDeinitAsserts_of_single valid.tree single whole⟩

def allocAndFree : AllocatorState :=
  (AllocatorOp.free 0).apply plainRbtree
    ((AllocatorOp.alloc 0x10 0x10 (some 1)).apply plainRbtree
      ⟨⟨0x100, (uvmRangeTreeAdd plainRbtree
        ((uvmRangeTreeInit fun _ => ⟨0, 0⟩).setNode 0 ⟨0, 0xff⟩) 0).2⟩, []⟩)

theorem allocAndFree_partition :
    Tiles allocAndFree.allocator.size
        (freeAndLiveRanges allocAndFree.allocator.rangeTree allocAndFree.liveNodes) ∧
      (∀ a ∈ allocAndFree.allocator.rangeTree.head, ∀ b ∈ allocAndFree.allocator.rangeTree.head,
        (allocAndFree.allocator.rangeTree.nodes a).«end».toNat + 1 ≠
          (allocAndFree.allocator.rangeTree.nodes b).start.toNat) ∧
      AllocSpec plainRbtree allocAndFree ∧
      (allocAndFree.live = [] → ∃ node, allocAndFree.allocator.rangeTree.head = [node] ∧
        allocAndFree.allocator.rangeTree.nodes node = ⟨0, allocAndFree.allocator.size - 1⟩ ∧
        uvmRangeAllocatorDeinitAsserts allocAndFree.allocator = true) :=
  reachable_rangeAllocator_partition plainRbtree plainRbtree_correct
    (.step _ (.step _ (.init (by decide) rfl)
      ⟨by decide, .inr ⟨4, rfl⟩, fun node member => by cases member; decide⟩)
      (show 0 < List.length _ by decide))

end NvidiaGpu.RangeAllocator
