import NvidiaGpu.Uvm.RangeTree

set_option autoImplicit false

/-! Runs of the UVM range tree: any sequence of calls made with the
preconditions the code asserts keeps the list and the red-black tree holding
the same nodes in address order with disjoint ranges, and at every reachable
state `uvm_range_tree_add` and the merges behave as their comments promise. -/

namespace NvidiaGpu.RangeTree

open SearchTree (inorder)

/-- A call on the range tree.  `add` and `split` include the caller setting the
new node's fields first, as the header asks. -/
inductive RangeTreeOp
  | add (node : Nat) (start «end» : UInt64)
  | remove (node : Nat)
  | shrinkNode (node : Nat) (newStart newEnd : UInt64)
  | split (existing new : Nat) (newStart : UInt64)
  | mergePrev (node : Nat)
  | mergeNext (node : Nat)

def RangeTreeOp.apply (rb : Rbtree) (tree : UvmRangeTree) : RangeTreeOp → UvmRangeTree
  | .add node start «end» => (uvmRangeTreeAdd rb (tree.setNode node ⟨start, «end»⟩) node).2
  | .remove node => uvmRangeTreeRemove rb tree node
  | .shrinkNode node newStart newEnd => uvmRangeTreeShrinkNode tree node newStart newEnd
  | .split existing new newStart =>
      (uvmRangeTreeSplit rb (tree.setNode new { tree.nodes new with start := newStart })
        existing new).2
  | .mergePrev node => (uvmRangeTreeMergePrev rb tree node).2
  | .mergeNext node => (uvmRangeTreeMergeNext rb tree node).2

/-- The preconditions the code asserts, and that a node is linked into the tree
exactly while its owner treats it as a member. -/
def RangeTreeOp.Admissible (tree : UvmRangeTree) : RangeTreeOp → Prop
  | .add node start «end» => start ≤ «end» ∧ node ∉ tree.head
  | .remove node => node ∈ tree.head
  | .shrinkNode node newStart newEnd =>
      newStart ≤ newEnd ∧ (tree.nodes node).start ≤ newStart ∧ newEnd ≤ (tree.nodes node).«end»
  | .split existing new newStart =>
      existing ∈ tree.head ∧ new ∉ tree.head ∧ (tree.nodes existing).start < newStart ∧
        newStart ≤ (tree.nodes existing).«end»
  | .mergePrev node => node ∈ tree.head
  | .mergeNext node => node ∈ tree.head

inductive Reachable (rb : Rbtree) : UvmRangeTree → Prop
  | init (nodes : Nat → UvmRangeTreeNode) : Reachable rb (uvmRangeTreeInit nodes)
  | step {tree : UvmRangeTree} (op : RangeTreeOp) :
      Reachable rb tree → op.Admissible tree → Reachable rb (op.apply rb tree)


instance (tree : UvmRangeTree) : DecidablePred (RangeTreeOp.Admissible tree) := fun op =>
  match op with
  | .add node start «end» => inferInstanceAs (Decidable (start ≤ «end» ∧ node ∉ tree.head))
  | .remove node => inferInstanceAs (Decidable (node ∈ tree.head))
  | .shrinkNode node newStart newEnd =>
      inferInstanceAs (Decidable (newStart ≤ newEnd ∧ (tree.nodes node).start ≤ newStart ∧
        newEnd ≤ (tree.nodes node).«end»))
  | .split existing new newStart =>
      inferInstanceAs (Decidable (existing ∈ tree.head ∧ new ∉ tree.head ∧
        (tree.nodes existing).start < newStart ∧ newStart ≤ (tree.nodes existing).«end»))
  | .mergePrev node => inferInstanceAs (Decidable (node ∈ tree.head))
  | .mergeNext node => inferInstanceAs (Decidable (node ∈ tree.head))

def plainRbtree : Rbtree :=
  { rbtreeInsertNode := fun key tree node => SearchTree.insertBy key node tree
    rbErase := fun tree node => SearchTree.eraseEntry node tree }

theorem plainRbtree_correct : plainRbtree.Correct :=
  { insert_sorted := fun key tree node sorted fresh =>
      SearchTree.inorder_insertBy_sorted key node tree sorted fresh
    insert_perm := fun key tree node _ _ => SearchTree.inorder_insertBy_perm key node tree
    erase_inorder := fun tree node _ _ => SearchTree.inorder_eraseEntry node tree }

variable {rb : Rbtree} {tree : UvmRangeTree}

theorem UvmRangeTree.Valid.apply (correct : rb.Correct) (valid : tree.Valid) {op : RangeTreeOp}
    (admissible : op.Admissible tree) : (op.apply rb tree).Valid := by
  cases op with
  | add node start «end» =>
      obtain ⟨nonEmpty, absent⟩ := admissible
      have ready := valid.setNode_of_not_mem absent ⟨start, «end»⟩
      have readyNonEmpty : ((tree.setNode node ⟨start, «end»⟩).nodes node).start ≤
          ((tree.setNode node ⟨start, «end»⟩).nodes node).«end» := by
        rw [setNode_nodes_self]
        exact nonEmpty
      change (uvmRangeTreeAdd rb (tree.setNode node ⟨start, «end»⟩) node).2.Valid
      rcases uvmRangeTreeAdd_spec rb ready readyNonEmpty with
        ⟨-, rejected⟩ | ⟨-, -, pre, post, split, preBefore, postAfter, result⟩
      · rw [rejected]
        exact ready
      · rw [result]
        exact ready.linked correct readyNonEmpty split preBefore postAfter
  | remove node => exact valid.remove correct admissible
  | shrinkNode node newStart newEnd =>
      obtain ⟨nonEmpty, startAbove, endBelow⟩ := admissible
      exact valid.narrow nonEmpty startAbove endBelow
  | split existing new newStart =>
      obtain ⟨existingMember, newAbsent, startAbove, startWithin⟩ := admissible
      have different : existing ≠ new := fun same => newAbsent (same ▸ existingMember)
      have ready := valid.setNode_of_not_mem newAbsent { tree.nodes new with start := newStart }
      have existingSame : (tree.setNode new { tree.nodes new with start := newStart }).nodes existing =
          tree.nodes existing := setNode_nodes_of_ne _ different
      have newStartSet :
          ((tree.setNode new { tree.nodes new with start := newStart }).nodes new).start = newStart := by
        rw [setNode_nodes_self]
      exact (uvmRangeTreeSplit_spec correct ready existingMember newAbsent
        (by rw [existingSame, newStartSet]; exact startAbove)
        (by rw [existingSame, newStartSet]; exact startWithin)).2
  | mergePrev node => exact (uvmRangeTreeMergePrev_spec correct valid node node).2.1
  | mergeNext node => exact (uvmRangeTreeMergeNext_spec correct valid node node).2.1

theorem Reachable.valid (correct : rb.Correct) (reachable : Reachable rb tree) : tree.Valid := by
  induction reachable with
  | init nodes => exact ⟨rfl, fun _ member => (by cases member), List.Pairwise.nil⟩
  | step op _ admissible ih => exact ih.apply correct admissible

/-- `uvm_range_tree_add` of a node outside the tree, after the caller set its
range: it fails exactly on an overlap and then changes nothing, and otherwise
links the node at its place in address order. -/
def AddSpec (rb : Rbtree) (tree : UvmRangeTree) : Prop :=
  ∀ node start «end», start ≤ «end» → node ∉ tree.head →
    ((uvmRangeTreeAdd rb (tree.setNode node ⟨start, «end»⟩) node).1 = .nvErrUvmAddressInUse ↔
        ∃ other ∈ tree.head,
          uvmRangesOverlap start «end» (tree.nodes other).start (tree.nodes other).«end» = true) ∧
      ((uvmRangeTreeAdd rb (tree.setNode node ⟨start, «end»⟩) node).1 = .nvErrUvmAddressInUse →
        (uvmRangeTreeAdd rb (tree.setNode node ⟨start, «end»⟩) node).2 =
          tree.setNode node ⟨start, «end»⟩) ∧
      ((uvmRangeTreeAdd rb (tree.setNode node ⟨start, «end»⟩) node).1 ≠ .nvErrUvmAddressInUse →
        (uvmRangeTreeAdd rb (tree.setNode node ⟨start, «end»⟩) node).1 = .nvOk ∧
          LinksBetween rb (tree.setNode node ⟨start, «end»⟩) node
            (uvmRangeTreeAdd rb (tree.setNode node ⟨start, «end»⟩) node).2)

/-- Both merges succeed exactly on an adjacent neighbour in the list and then
cover the same addresses. -/
def MergeSpec (rb : Rbtree) (tree : UvmRangeTree) : Prop :=
  ∀ node ∈ tree.head, ∀ neighbour,
    ((uvmRangeTreeMergePrev rb tree node).1 = some neighbour ↔
        uvmRangeTreePrev tree node = some neighbour ∧
          (tree.nodes neighbour).«end» + 1 = (tree.nodes node).start) ∧
      ((uvmRangeTreeMergePrev rb tree node).1 = some neighbour →
        ∀ addr, Covers (uvmRangeTreeMergePrev rb tree node).2 addr ↔ Covers tree addr) ∧
      ((uvmRangeTreeMergeNext rb tree node).1 = some neighbour ↔
        uvmRangeTreeNext tree node = some neighbour ∧
          (tree.nodes node).«end» + 1 = (tree.nodes neighbour).start) ∧
      ((uvmRangeTreeMergeNext rb tree node).1 = some neighbour →
        ∀ addr, Covers (uvmRangeTreeMergeNext rb tree node).2 addr ↔ Covers tree addr)

theorem UvmRangeTree.Valid.addSpec (valid : tree.Valid) : AddSpec rb tree := by
  intro node start «end» nonEmpty absent
  have ready := valid.setNode_of_not_mem absent ⟨start, «end»⟩
  have readyNonEmpty : ((tree.setNode node ⟨start, «end»⟩).nodes node).start ≤
      ((tree.setNode node ⟨start, «end»⟩).nodes node).«end» := by
    rw [setNode_nodes_self]
    exact nonEmpty
  have overlapSame : ∀ other ∈ tree.head,
      rangeNodesOverlap ((tree.setNode node ⟨start, «end»⟩).nodes node)
          ((tree.setNode node ⟨start, «end»⟩).nodes other) =
        uvmRangesOverlap start «end» (tree.nodes other).start (tree.nodes other).«end» := by
    intro other member
    have different : other ≠ node := fun same => absent (same ▸ member)
    rw [setNode_nodes_self, setNode_nodes_of_ne _ different]
    rfl
  rcases uvmRangeTreeAdd_spec rb ready readyNonEmpty with
    ⟨⟨other, member, overlapping⟩, rejected⟩ | ⟨clear, accepted, links⟩
  · rw [rejected]
    rw [setNode_head] at member
    rw [overlapSame other member] at overlapping
    exact ⟨iff_of_true rfl ⟨other, member, overlapping⟩, fun _ => rfl, fun wrong => absurd rfl wrong⟩
  · rw [accepted]
    refine ⟨iff_of_false (by simp) ?_, fun wrong => (by cases wrong), fun _ => ⟨rfl, links⟩⟩
    intro ⟨other, member, overlapping⟩
    rw [← overlapSame other member, clear other member] at overlapping
    cases overlapping

theorem UvmRangeTree.Valid.mergeSpec (correct : rb.Correct) (valid : tree.Valid) :
    MergeSpec rb tree := by
  intro node _ neighbour
  obtain ⟨prevIff, -, prevCovers⟩ := uvmRangeTreeMergePrev_spec correct valid node neighbour
  obtain ⟨nextIff, -, nextCovers⟩ := uvmRangeTreeMergeNext_spec correct valid node neighbour
  exact ⟨prevIff, prevCovers, nextIff, nextCovers⟩

theorem reachable_rangeTree_consistent (rb : Rbtree) (correct : rb.Correct) {tree : UvmRangeTree}
    (reachable : Reachable rb tree) :
    inorder tree.rbRoot = tree.head ∧
      tree.head.Pairwise (fun a b => (tree.nodes a).start < (tree.nodes b).start) ∧
      (∀ a ∈ tree.head, ∀ b ∈ tree.head, a ≠ b →
        rangeNodesOverlap (tree.nodes a) (tree.nodes b) = false) ∧
      AddSpec rb tree ∧ MergeSpec rb tree := by
  have valid := reachable.valid correct
  refine ⟨valid.inorder_eq, ?_, ?_, valid.addSpec, valid.mergeSpec correct⟩
  · apply valid.ordered.imp_of_mem
    intro first second firstMember _ before
    have nonEmpty := valid.wellFormed first firstMember
    grind
  · intro first firstMember second secondMember different
    cases overlapping : rangeNodesOverlap (tree.nodes first) (tree.nodes second) with
    | false => rfl
    | true =>
        rw [rangeNodesOverlap_eq_true_iff] at overlapping
        have firstWellFormed := valid.wellFormed first firstMember
        have secondWellFormed := valid.wellFormed second secondMember
        rcases valid.separated firstMember secondMember different with before | after
        · exact absurd overlapping.1 (by grind)
        · exact absurd overlapping.2 (by grind)

def twoRangeTree : UvmRangeTree :=
  (RangeTreeOp.add 2 0x30 0x3f).apply plainRbtree
    ((RangeTreeOp.add 1 0x10 0x1f).apply plainRbtree (uvmRangeTreeInit fun _ => ⟨0, 0⟩))

theorem twoRangeTree_consistent :
    inorder twoRangeTree.rbRoot = twoRangeTree.head ∧
      twoRangeTree.head.Pairwise
        (fun a b => (twoRangeTree.nodes a).start < (twoRangeTree.nodes b).start) ∧
      (∀ a ∈ twoRangeTree.head, ∀ b ∈ twoRangeTree.head, a ≠ b →
        rangeNodesOverlap (twoRangeTree.nodes a) (twoRangeTree.nodes b) = false) ∧
      AddSpec plainRbtree twoRangeTree ∧ MergeSpec plainRbtree twoRangeTree :=
  reachable_rangeTree_consistent plainRbtree plainRbtree_correct
    (.step _ (.step _ (.init _) (by decide)) (by decide))

end NvidiaGpu.RangeTree
