import NvidiaGpu.Library.SearchTree
import NvidiaGpu.Library.LinkedList
import NvidiaGpu.Status

set_option autoImplicit false

/-! The UVM range tree (`uvm_range_tree.c`, `uvm_range_tree.h`): disjoint
`[start, end]` ranges kept twice, in the runtime's red-black tree keyed by
`start` and in a list sorted by `start`.  The red-black tree belongs to the
runtime and is not part of the repository; it enters as a parameter, and the
range tree relies only on its operations keeping a search-tree in-order
sequence.  Node objects live in a heap indexed by their addresses, so that
updates of `start` and `end` in place are visible to both structures. -/

namespace NvidiaGpu.RangeTree

open SearchTree (inorder descend Before)

/-- The address fields of a `uvm_range_tree_node_t`; `end` is inclusive. -/
structure UvmRangeTreeNode where
  start : UInt64
  «end» : UInt64
  deriving DecidableEq, Repr

structure UvmRangeTree where
  nodes : Nat → UvmRangeTreeNode
  rbRoot : BinaryTree Nat
  head : List Nat

/-- The runtime's red-black tree operations used by the range tree.  The
insertion takes the key the `uvm_range_compare` closure reads. -/
structure Rbtree where
  rbtreeInsertNode : (Nat → Nat) → BinaryTree Nat → Nat → BinaryTree Nat
  rbErase : BinaryTree Nat → Nat → BinaryTree Nat

/-- The runtime's tree is a correct search tree: insertion of a fresh key keeps
the in-order sequence sorted and adds exactly the node, and erasure removes
exactly the node. -/
structure Rbtree.Correct (rb : Rbtree) : Prop where
  insert_sorted : ∀ key tree node, (inorder tree).Pairwise (key · < key ·) →
    (∀ other ∈ inorder tree, key other ≠ key node) →
    (inorder (rb.rbtreeInsertNode key tree node)).Pairwise (key · < key ·)
  insert_perm : ∀ key tree node, (inorder tree).Pairwise (key · < key ·) →
    (∀ other ∈ inorder tree, key other ≠ key node) →
    (inorder (rb.rbtreeInsertNode key tree node)).Perm (node :: inorder tree)
  erase_inorder : ∀ tree node, node ∈ inorder tree → (inorder tree).Nodup →
    inorder (rb.rbErase tree node) = (inorder tree).erase node

def uvmRangeTreeInit (nodes : Nat → UvmRangeTreeNode) : UvmRangeTree :=
  { nodes := nodes, rbRoot := .nil, head := [] }

def UvmRangeTree.setNode (tree : UvmRangeTree) (node : Nat) (value : UvmRangeTreeNode) :
    UvmRangeTree :=
  { tree with nodes := Function.update tree.nodes node value }

def uvmRangesOverlap (aStart aEnd bStart bEnd : UInt64) : Bool :=
  aEnd >= bStart && bEnd >= aStart

def rangeNodesOverlap (a b : UvmRangeTreeNode) : Bool :=
  uvmRangesOverlap a.start a.«end» b.start b.«end»

def uvmRangeTreePrev (tree : UvmRangeTree) (node : Nat) : Option Nat :=
  LinkedList.prev tree.head node

def uvmRangeTreeNext (tree : UvmRangeTree) (node : Nat) : Option Nat :=
  LinkedList.next tree.head node

def rangeDirection (node : UvmRangeTreeNode) (addr : UInt64) : Ordering :=
  if addr < node.start then .lt else if addr > node.«end» then .gt else .eq

/-- `range_node_find`: the node containing `addr`, the parent left behind by the
walk, and the next node in address order. -/
def rangeNodeFind (tree : UvmRangeTree) (addr : UInt64) : Option Nat × Option Nat × Option Nat :=
  let walk := descend (fun node => rangeDirection (tree.nodes node) addr) none tree.rbRoot
  let next :=
    match walk with
    | (some node, _) => uvmRangeTreeNext tree node
    | (none, some parent) =>
        if (tree.nodes parent).start > addr then some parent else uvmRangeTreeNext tree parent
    | (none, none) => none
  (walk.1, walk.2, next)

def startKey (tree : UvmRangeTree) (node : Nat) : Nat :=
  (tree.nodes node).start.toNat

def UvmRangeTree.linked (rb : Rbtree) (tree : UvmRangeTree) (node : Nat) (head : List Nat) :
    UvmRangeTree :=
  { tree with rbRoot := rb.rbtreeInsertNode (startKey tree) tree.rbRoot node, head := head }

def uvmRangeTreeAdd (rb : Rbtree) (tree : UvmRangeTree) (node : Nat) : NvStatus × UvmRangeTree :=
  let new := tree.nodes node
  match rangeNodeFind tree new.start with
  | (some _, _, _) => (.nvErrUvmAddressInUse, tree)
  | (none, none, _) => (.nvOk, tree.linked rb node (node :: tree.head))
  | (none, some parent, _) =>
      if rangeNodesOverlap new (tree.nodes parent) then (.nvErrUvmAddressInUse, tree)
      else if new.start < (tree.nodes parent).start then
        (.nvOk, tree.linked rb node (LinkedList.insertBefore tree.head parent node))
      else
        match uvmRangeTreeNext tree parent with
        | some next =>
            if rangeNodesOverlap new (tree.nodes next) then (.nvErrUvmAddressInUse, tree)
            else (.nvOk, tree.linked rb node (LinkedList.insertAfter tree.head parent node))
        | none => (.nvOk, tree.linked rb node (LinkedList.insertAfter tree.head parent node))

def uvmRangeTreeRemove (rb : Rbtree) (tree : UvmRangeTree) (node : Nat) : UvmRangeTree :=
  { tree with rbRoot := rb.rbErase tree.rbRoot node, head := tree.head.erase node }

def uvmRangeTreeShrinkNode (tree : UvmRangeTree) (node : Nat) (newStart newEnd : UInt64) :
    UvmRangeTree :=
  tree.setNode node { start := newStart, «end» := newEnd }

/-- The caller has set `new`'s start; the returned status is the one the code
asserts to be `NV_OK`. -/
def uvmRangeTreeSplit (rb : Rbtree) (tree : UvmRangeTree) (existing new : Nat) :
    NvStatus × UvmRangeTree :=
  let newStart := (tree.nodes new).start
  let withNewEnd := tree.setNode new { tree.nodes new with «end» := (tree.nodes existing).«end» }
  let shrunk := withNewEnd.setNode existing
    { withNewEnd.nodes existing with «end» := newStart - 1 }
  uvmRangeTreeAdd rb shrunk new

def uvmRangeTreeMergePrev (rb : Rbtree) (tree : UvmRangeTree) (node : Nat) :
    Option Nat × UvmRangeTree :=
  match uvmRangeTreePrev tree node with
  | none => (none, tree)
  | some prev =>
      if (tree.nodes prev).«end» ≠ (tree.nodes node).start - 1 then (none, tree)
      else
        let removed := uvmRangeTreeRemove rb tree prev
        (some prev, removed.setNode node { removed.nodes node with start := (tree.nodes prev).start })

def uvmRangeTreeMergeNext (rb : Rbtree) (tree : UvmRangeTree) (node : Nat) :
    Option Nat × UvmRangeTree :=
  match uvmRangeTreeNext tree node with
  | none => (none, tree)
  | some next =>
      if (tree.nodes next).start ≠ (tree.nodes node).«end» + 1 then (none, tree)
      else
        let removed := uvmRangeTreeRemove rb tree next
        (some next, removed.setNode node { removed.nodes node with «end» := (tree.nodes next).«end» })

/-- The consistency of the two structures: the list is the tree's in-order
sequence, every range is non-empty, and every range ends before the next one
starts. -/
structure UvmRangeTree.Valid (tree : UvmRangeTree) : Prop where
  inorder_eq : inorder tree.rbRoot = tree.head
  wellFormed : ∀ node ∈ tree.head, (tree.nodes node).start ≤ (tree.nodes node).«end»
  ordered : tree.head.Pairwise (fun a b => (tree.nodes a).«end» < (tree.nodes b).start)

variable {rb : Rbtree} {tree : UvmRangeTree}

@[simp] theorem setNode_head (node : Nat) (value : UvmRangeTreeNode) :
    (tree.setNode node value).head = tree.head := rfl

@[simp] theorem setNode_nodes_self (node : Nat) (value : UvmRangeTreeNode) :
    (tree.setNode node value).nodes node = value := by
  simp [UvmRangeTree.setNode]

theorem setNode_nodes_of_ne {node other : Nat} (value : UvmRangeTreeNode) (different : other ≠ node) :
    (tree.setNode node value).nodes other = tree.nodes other := by
  simp [UvmRangeTree.setNode, different]

theorem map_setNode_of_not_mem {list : List Nat} {node : Nat} (absent : node ∉ list)
    (value : UvmRangeTreeNode) : list.map (tree.setNode node value).nodes = list.map tree.nodes :=
  List.map_congr_left fun _ member => setNode_nodes_of_ne value (fun same => absent (same ▸ member))

@[simp] theorem linked_head (node : Nat) (head : List Nat) :
    (tree.linked rb node head).head = head := rfl

@[simp] theorem linked_nodes (node : Nat) (head : List Nat) :
    (tree.linked rb node head).nodes = tree.nodes := rfl

@[simp] theorem remove_head (node : Nat) :
    (uvmRangeTreeRemove rb tree node).head = tree.head.erase node := rfl

@[simp] theorem remove_nodes (node : Nat) :
    (uvmRangeTreeRemove rb tree node).nodes = tree.nodes := rfl

theorem rangeNodesOverlap_eq_true_iff (a b : UvmRangeTreeNode) :
    rangeNodesOverlap a b = true ↔ b.start ≤ a.«end» ∧ a.start ≤ b.«end» := by
  simp [rangeNodesOverlap, uvmRangesOverlap]

theorem rangeNodesOverlap_comm (a b : UvmRangeTreeNode) :
    rangeNodesOverlap a b = rangeNodesOverlap b a := by
  simp [rangeNodesOverlap, uvmRangesOverlap, Bool.and_comm]

theorem rangeDirection_eq_lt_iff (node : UvmRangeTreeNode) (addr : UInt64) :
    rangeDirection node addr = .lt ↔ addr < node.start := by
  unfold rangeDirection
  split
  · simp_all
  · split <;> simp_all

theorem rangeDirection_eq_gt_iff (node : UvmRangeTreeNode) (addr : UInt64) :
    rangeDirection node addr = .gt ↔ ¬addr < node.start ∧ node.«end» < addr := by
  unfold rangeDirection
  split
  · simp_all
  · split <;> simp_all

theorem rangeDirection_eq_eq_iff (node : UvmRangeTreeNode) (addr : UInt64) :
    rangeDirection node addr = .eq ↔ node.start ≤ addr ∧ addr ≤ node.«end» := by
  unfold rangeDirection
  split
  · rename_i below
    simp only [reduceCtorEq, false_iff, not_and]
    intro above
    exact absurd below (by grind)
  · split
    · rename_i outside above
      simp only [reduceCtorEq, false_iff, not_and]
      intro _ within
      exact absurd above (by grind)
    · rename_i outside notAbove
      simp only [true_iff]
      exact ⟨by grind, by grind⟩

namespace UvmRangeTree.Valid

variable (valid : tree.Valid)
include valid

theorem nodup : tree.head.Nodup := by
  apply valid.ordered.imp_of_mem
  intro first second firstMember _ before same
  subst same
  have nonEmpty := valid.wellFormed first firstMember
  exact absurd before (by grind)

theorem before (addr : UInt64) :
    (inorder tree.rbRoot).Pairwise (Before (fun node => rangeDirection (tree.nodes node) addr)) := by
  rw [valid.inorder_eq]
  apply valid.ordered.imp_of_mem
  intro first second firstMember _ endsBefore
  by_cases leftOfSecond : addr < (tree.nodes second).start
  · exact .inr ((rangeDirection_eq_lt_iff _ _).mpr leftOfSecond)
  · have nonEmpty := valid.wellFormed first firstMember
    refine .inl ((rangeDirection_eq_gt_iff _ _).mpr ⟨?_, ?_⟩) <;> grind

end UvmRangeTree.Valid

theorem rangeNodeFind_walk (tree : UvmRangeTree) (addr : UInt64) :
    descend (fun node => rangeDirection (tree.nodes node) addr) none tree.rbRoot =
      ((rangeNodeFind tree addr).1, (rangeNodeFind tree addr).2.1) := rfl

theorem rangeNodeFind_found {addr : UInt64} {node : Nat}
    (found : (rangeNodeFind tree addr).1 = some node) :
    node ∈ inorder tree.rbRoot ∧ (tree.nodes node).start ≤ addr ∧ addr ≤ (tree.nodes node).«end» := by
  have walk := rangeNodeFind_walk tree addr
  rw [found] at walk
  obtain ⟨member, direction⟩ := SearchTree.descend_found walk
  exact ⟨member, (rangeDirection_eq_eq_iff _ _).mp direction⟩

theorem rangeNodeFind_missing (valid : tree.Valid) {addr : UInt64}
    (missing : (rangeNodeFind tree addr).1 = none) :
    ∃ pre post, tree.head = pre ++ post ∧ (∀ node ∈ pre, (tree.nodes node).«end» < addr) ∧
      (∀ node ∈ post, addr < (tree.nodes node).start) ∧
      (((rangeNodeFind tree addr).2.1 = none ∧ tree.head = []) ∨
        ∃ parent, (rangeNodeFind tree addr).2.1 = some parent ∧
          ((∃ front, pre = front ++ [parent]) ∨ ∃ back, post = parent :: back)) := by
  have walk := rangeNodeFind_walk tree addr
  rw [missing] at walk
  obtain ⟨pre, post, split, preRight, postLeft, boundary⟩ :=
    SearchTree.descend_missing (valid.before addr) walk
  rw [valid.inorder_eq] at split
  refine ⟨pre, post, split, ?_, ?_, ?_⟩
  · intro node member
    exact ((rangeDirection_eq_gt_iff _ _).mp (preRight node member)).2
  · intro node member
    exact (rangeDirection_eq_lt_iff _ _).mp (postLeft node member)
  · rcases boundary with ⟨empty, parentNone⟩ | found
    · refine .inl ⟨parentNone, ?_⟩
      rw [← valid.inorder_eq, empty]
      rfl
    · exact .inr found

theorem startKeys_sorted {nodes : Nat → UvmRangeTreeNode} {list : List Nat}
    (wellFormed : ∀ node ∈ list, (nodes node).start ≤ (nodes node).«end»)
    (ordered : list.Pairwise (fun a b => (nodes a).«end» < (nodes b).start)) :
    list.Pairwise (fun a b => (nodes a).start.toNat < (nodes b).start.toNat) := by
  apply ordered.imp_of_mem
  intro first second firstMember _ endsBefore
  have nonEmpty := wellFormed first firstMember
  have startsBefore : (nodes first).start < (nodes second).start := by grind
  exact UInt64.lt_iff_toNat_lt.mp startsBefore

theorem overlap_iff_reaches_next (valid : tree.Valid) {new : UvmRangeTreeNode} {pre post : List Nat}
    (split : tree.head = pre ++ post) (preBefore : ∀ node ∈ pre, (tree.nodes node).«end» < new.start)
    (postAfter : ∀ node ∈ post, new.start < (tree.nodes node).start) :
    (∃ other ∈ tree.head, rangeNodesOverlap new (tree.nodes other) = true) ↔
      ∃ first back, post = first :: back ∧ (tree.nodes first).start ≤ new.«end» := by
  constructor
  · intro ⟨other, member, overlapping⟩
    rw [rangeNodesOverlap_eq_true_iff] at overlapping
    rw [split] at member
    rcases List.mem_append.mp member with inPre | inPost
    · exact absurd overlapping.2 (by have := preBefore other inPre; grind)
    · cases post with
      | nil => cases inPost
      | cons first back =>
          refine ⟨first, back, rfl, ?_⟩
          rcases List.mem_cons.mp inPost with same | later
          · rw [← same]
            exact overlapping.1
          · have ordered := valid.ordered
            rw [split, List.pairwise_append, List.pairwise_cons] at ordered
            have firstBefore := ordered.2.1.1 other later
            have firstMember : first ∈ tree.head := by simp [split]
            have nonEmpty := valid.wellFormed first firstMember
            grind
  · intro ⟨first, back, shape, reaches⟩
    have firstMember : first ∈ tree.head := by simp [split, shape]
    have nonEmpty := valid.wellFormed first firstMember
    have after := postAfter first (by simp [shape])
    refine ⟨first, firstMember, (rangeNodesOverlap_eq_true_iff _ _).mpr ⟨reaches, by grind⟩⟩

theorem UvmRangeTree.Valid.linked (correct : rb.Correct) (valid : tree.Valid) {node : Nat}
    (nonEmpty : (tree.nodes node).start ≤ (tree.nodes node).«end»)
    {pre post : List Nat} (split : tree.head = pre ++ post)
    (preBefore : ∀ other ∈ pre, (tree.nodes other).«end» < (tree.nodes node).start)
    (postAfter : ∀ other ∈ post, (tree.nodes node).«end» < (tree.nodes other).start) :
    (tree.linked rb node (pre ++ node :: post)).Valid := by
  have members : ∀ other, other ∈ pre ++ node :: post → other = node ∨ other ∈ tree.head := by
    intro other member
    simp only [List.mem_append, List.mem_cons] at member
    rw [split]
    grind
  have wellFormed : ∀ other ∈ pre ++ node :: post,
      (tree.nodes other).start ≤ (tree.nodes other).«end» := by
    intro other member
    rcases members other member with same | old
    · rw [same]
      exact nonEmpty
    · exact valid.wellFormed other old
  have ordered : (pre ++ node :: post).Pairwise
      (fun a b => (tree.nodes a).«end» < (tree.nodes b).start) := by
    have old := valid.ordered
    rw [split, List.pairwise_append] at old
    obtain ⟨orderedPre, orderedPost, across⟩ := old
    rw [List.pairwise_append, List.pairwise_cons]
    refine ⟨orderedPre, ⟨postAfter, orderedPost⟩, ?_⟩
    intro first firstMember second secondMember
    rcases List.mem_cons.mp secondMember with same | later
    · rw [same]
      exact preBefore first firstMember
    · exact across first firstMember second later
  have oldSorted := startKeys_sorted valid.wellFormed valid.ordered
  rw [← valid.inorder_eq] at oldSorted
  have distinctKey : ∀ other ∈ inorder tree.rbRoot, startKey tree other ≠ startKey tree node := by
    intro other member
    rw [valid.inorder_eq, split] at member
    have otherWellFormed := valid.wellFormed other (by rw [split]; exact member)
    have differentStart : (tree.nodes other).start ≠ (tree.nodes node).start := by
      rcases List.mem_append.mp member with inPre | inPost
      · have := preBefore other inPre
        grind
      · have := postAfter other inPost
        grind
    exact fun same => differentStart (UInt64.toNat_inj.mp same)
  have insertedSorted := correct.insert_sorted _ _ _ oldSorted distinctKey
  have linkedSorted : (pre ++ node :: post).Pairwise (fun a b => startKey tree a < startKey tree b) :=
    startKeys_sorted wellFormed ordered
  have inserted := correct.insert_perm _ _ _ oldSorted distinctKey
  rw [valid.inorder_eq, split] at inserted
  refine ⟨?_, wellFormed, ordered⟩
  exact List.Perm.eq_of_pairwise
    (fun _ _ _ _ forward backward => absurd (Nat.lt_trans forward backward) (Nat.lt_irrefl _))
    insertedSorted linkedSorted (inserted.trans List.perm_middle.symm)

/-- Where `uvm_range_tree_add` succeeds it links the node between the nodes
that end before its start and those that start after its end. -/
def LinksBetween (rb : Rbtree) (tree : UvmRangeTree) (node : Nat) (result : UvmRangeTree) : Prop :=
  ∃ pre post, tree.head = pre ++ post ∧
    (∀ other ∈ pre, (tree.nodes other).«end» < (tree.nodes node).start) ∧
    (∀ other ∈ post, (tree.nodes node).«end» < (tree.nodes other).start) ∧
    result = tree.linked rb node (pre ++ node :: post)

theorem uvmRangeTreeAdd_spec (rb : Rbtree) (valid : tree.Valid) {node : Nat}
    (nonEmpty : (tree.nodes node).start ≤ (tree.nodes node).«end») :
    ((∃ other ∈ tree.head, rangeNodesOverlap (tree.nodes node) (tree.nodes other) = true) ∧
        uvmRangeTreeAdd rb tree node = (.nvErrUvmAddressInUse, tree)) ∨
      ((∀ other ∈ tree.head, rangeNodesOverlap (tree.nodes node) (tree.nodes other) = false) ∧
        (uvmRangeTreeAdd rb tree node).1 = .nvOk ∧
        LinksBetween rb tree node (uvmRangeTreeAdd rb tree node).2) := by
  have noOverlap : ∀ {pre post : List Nat}, tree.head = pre ++ post →
      (∀ other ∈ pre, (tree.nodes other).«end» < (tree.nodes node).start) →
      (∀ other ∈ post, (tree.nodes node).start < (tree.nodes other).start) →
      (∀ first back, post = first :: back → (tree.nodes node).«end» < (tree.nodes first).start) →
      (∀ other ∈ tree.head, rangeNodesOverlap (tree.nodes node) (tree.nodes other) = false) ∧
        ∀ other ∈ post, (tree.nodes node).«end» < (tree.nodes other).start := by
    intro pre post split preBefore postAfter firstAfter
    have reach := overlap_iff_reaches_next valid split preBefore postAfter
    constructor
    · intro other member
      cases overlapping : rangeNodesOverlap (tree.nodes node) (tree.nodes other) with
      | false => rfl
      | true =>
          obtain ⟨first, back, shape, reaches⟩ := reach.mp ⟨other, member, overlapping⟩
          exact absurd reaches (by have := firstAfter first back shape; grind)
    · intro other member
      cases post with
      | nil => cases member
      | cons first back =>
          have firstBefore := firstAfter first back rfl
          rcases List.mem_cons.mp member with same | later
          · rw [same]
            exact firstBefore
          · have ordered := valid.ordered
            rw [split, List.pairwise_append, List.pairwise_cons] at ordered
            have firstMember : first ∈ tree.head := by simp [split]
            have firstWellFormed := valid.wellFormed first firstMember
            have := ordered.2.1.1 other later
            grind
  unfold uvmRangeTreeAdd
  dsimp only
  split
  · rename_i other parent next found
    have foundFirst : (rangeNodeFind tree (tree.nodes node).start).1 = some other := by
      rw [found]
    obtain ⟨member, above, below⟩ := rangeNodeFind_found foundFirst
    rw [valid.inorder_eq] at member
    refine .inl ⟨⟨other, member, ?_⟩, rfl⟩
    exact (rangeNodesOverlap_eq_true_iff _ _).mpr ⟨by grind, below⟩
  · rename_i next missing
    have missingFirst : (rangeNodeFind tree (tree.nodes node).start).1 = none := by
      rw [missing]
    obtain ⟨pre, post, split, _, _, boundary⟩ := rangeNodeFind_missing valid missingFirst
    rw [missing] at boundary
    rcases boundary with ⟨-, empty⟩ | ⟨parent, impossible, -⟩
    · rw [empty] at split ⊢
      have preEmpty : pre = [] := (List.append_eq_nil_iff.mp split.symm).1
      have postEmpty : post = [] := (List.append_eq_nil_iff.mp split.symm).2
      subst preEmpty postEmpty
      refine .inr ⟨by simp, rfl, [], [], by simp [empty], by simp, by simp, rfl⟩
    · cases impossible
  · rename_i parent next missing
    have missingFirst : (rangeNodeFind tree (tree.nodes node).start).1 = none := by
      rw [missing]
    obtain ⟨pre, post, split, preBefore, postAfter, boundary⟩ :=
      rangeNodeFind_missing valid missingFirst
    rw [missing] at boundary
    have distinct := valid.nodup
    rcases boundary with ⟨impossible, -⟩ | ⟨found, same, atEnd | atStart⟩
    · cases impossible
    · cases same
      obtain ⟨front, rfl⟩ := atEnd
      rw [split, List.append_assoc, List.singleton_append] at distinct
      have parentBefore := preBefore parent (by simp)
      have parentWellFormed := valid.wellFormed parent (by simp [split])
      have clearOfParent : rangeNodesOverlap (tree.nodes node) (tree.nodes parent) = false := by
        cases overlapping : rangeNodesOverlap (tree.nodes node) (tree.nodes parent) with
        | false => rfl
        | true =>
            rw [rangeNodesOverlap_eq_true_iff] at overlapping
            exact absurd overlapping.2 (by grind)
      have notLeft : ¬(tree.nodes node).start < (tree.nodes parent).start := by grind
      have nextIs : uvmRangeTreeNext tree parent = post.head? := by
        unfold uvmRangeTreeNext
        rw [split, List.append_assoc, List.singleton_append]
        exact LinkedList.next_append_cons (LinkedList.not_mem_front distinct)
      have insertAt : LinkedList.insertAfter tree.head parent node =
          (front ++ [parent]) ++ node :: post := by
        rw [split, List.append_assoc, List.singleton_append,
          LinkedList.insertAfter_append_cons node (LinkedList.not_mem_front distinct)]
        simp
      simp only [clearOfParent, Bool.false_eq_true, if_false, notLeft, nextIs]
      cases post with
      | nil =>
          obtain ⟨clear, after⟩ := noOverlap split preBefore postAfter
            (fun _ _ shape => by cases shape)
          exact .inr ⟨clear, rfl, front ++ [parent], [], split, preBefore, after,
            by rw [insertAt]; rfl⟩
      | cons first back =>
          simp only [List.head?_cons]
          by_cases reaches : rangeNodesOverlap (tree.nodes node) (tree.nodes first) = true
          · rw [if_pos reaches]
            exact .inl ⟨⟨first, by simp [split], reaches⟩, rfl⟩
          · rw [if_neg reaches]
            have firstAfter := postAfter first (by simp)
            have firstWellFormed := valid.wellFormed first (by simp [split])
            have beforeFirst : (tree.nodes node).«end» < (tree.nodes first).start := by
              rw [rangeNodesOverlap_eq_true_iff] at reaches
              grind
            obtain ⟨clear, after⟩ := noOverlap split preBefore postAfter
              (fun _ _ shape => by cases shape; exact beforeFirst)
            exact .inr ⟨clear, rfl, front ++ [parent], first :: back, split, preBefore, after,
              by rw [insertAt]⟩
    · cases same
      obtain ⟨back, rfl⟩ := atStart
      rw [split] at distinct
      have parentAfter := postAfter parent (by simp)
      have parentWellFormed := valid.wellFormed parent (by simp [split])
      by_cases reaches : rangeNodesOverlap (tree.nodes node) (tree.nodes parent) = true
      · rw [if_pos reaches]
        exact .inl ⟨⟨parent, by simp [split], reaches⟩, rfl⟩
      · rw [if_neg reaches, if_pos parentAfter]
        have beforeParent : (tree.nodes node).«end» < (tree.nodes parent).start := by
          rw [rangeNodesOverlap_eq_true_iff] at reaches
          grind
        obtain ⟨clear, after⟩ := noOverlap split preBefore postAfter
          (fun _ _ shape => by cases shape; exact beforeParent)
        have insertAt : LinkedList.insertBefore tree.head parent node = pre ++ node :: parent :: back := by
          rw [split, LinkedList.insertBefore_append_cons node (LinkedList.not_mem_front distinct)]
        exact .inr ⟨clear, rfl, pre, parent :: back, split, preBefore, after, by rw [insertAt]⟩

namespace UvmRangeTree.Valid

variable (valid : tree.Valid)
include valid

theorem separated {a b : Nat} (aMember : a ∈ tree.head) (bMember : b ∈ tree.head) (different : a ≠ b) :
    (tree.nodes a).«end» < (tree.nodes b).start ∨ (tree.nodes b).«end» < (tree.nodes a).start :=
  LinkedList.rel_or_rel_of_pairwise valid.ordered aMember bMember different

theorem consecutive_lt {front back : List Nat} {first second : Nat}
    (shape : tree.head = front ++ first :: second :: back) :
    (tree.nodes first).«end» < (tree.nodes second).start := by
  have ordered := valid.ordered
  rw [shape, List.pairwise_append, List.pairwise_cons] at ordered
  exact ordered.2.1.1 second List.mem_cons_self

theorem setNode_of_not_mem {node : Nat} (absent : node ∉ tree.head) (value : UvmRangeTreeNode) :
    (tree.setNode node value).Valid := by
  have same : ∀ other ∈ tree.head, (tree.setNode node value).nodes other = tree.nodes other :=
    fun other member => setNode_nodes_of_ne value (fun equal => absent (equal ▸ member))
  refine ⟨valid.inorder_eq, ?_, ?_⟩
  · intro other member
    rw [setNode_head] at member
    rw [same other member]
    exact valid.wellFormed other member
  · apply valid.ordered.imp_of_mem
    intro first second firstMember secondMember before
    rw [same first firstMember, same second secondMember]
    exact before

theorem narrow {node : Nat} {value : UvmRangeTreeNode} (nonEmpty : value.start ≤ value.«end»)
    (startAbove : (tree.nodes node).start ≤ value.start)
    (endBelow : value.«end» ≤ (tree.nodes node).«end») : (tree.setNode node value).Valid := by
  have narrower : ∀ other, (tree.nodes other).start ≤ ((tree.setNode node value).nodes other).start ∧
      ((tree.setNode node value).nodes other).«end» ≤ (tree.nodes other).«end» := by
    intro other
    by_cases same : other = node
    · rw [same, setNode_nodes_self]
      exact ⟨startAbove, endBelow⟩
    · rw [setNode_nodes_of_ne value same]
      exact ⟨UInt64.le_refl _, UInt64.le_refl _⟩
  refine ⟨valid.inorder_eq, ?_, ?_⟩
  · intro other member
    by_cases same : other = node
    · rw [same, setNode_nodes_self]
      exact nonEmpty
    · rw [setNode_nodes_of_ne value same]
      exact valid.wellFormed other member
  · apply valid.ordered.imp
    intro first second before
    have firstNarrower := (narrower first).2
    have secondNarrower := (narrower second).1
    grind

theorem remove (correct : rb.Correct) {node : Nat} (member : node ∈ tree.head) :
    (uvmRangeTreeRemove rb tree node).Valid := by
  refine ⟨?_, ?_, ?_⟩
  · change inorder (rb.rbErase tree.rbRoot node) = tree.head.erase node
    rw [correct.erase_inorder _ _ (by rw [valid.inorder_eq]; exact member)
      (by rw [valid.inorder_eq]; exact valid.nodup), valid.inorder_eq]
  · intro other remaining
    exact valid.wellFormed other (List.mem_of_mem_erase remaining)
  · exact valid.ordered.erase node

end UvmRangeTree.Valid

theorem uvmRangeTreeSplit_spec (correct : rb.Correct) (valid : tree.Valid) {existing new : Nat}
    (existingMember : existing ∈ tree.head) (newAbsent : new ∉ tree.head)
    (startAbove : (tree.nodes existing).start < (tree.nodes new).start)
    (startWithin : (tree.nodes new).start ≤ (tree.nodes existing).«end») :
    (uvmRangeTreeSplit rb tree existing new).1 = .nvOk ∧
      (uvmRangeTreeSplit rb tree existing new).2.Valid := by
  have different : existing ≠ new := fun same => newAbsent (same ▸ existingMember)
  let withNewEnd := tree.setNode new { tree.nodes new with «end» := (tree.nodes existing).«end» }
  let shrunk := withNewEnd.setNode existing
    { withNewEnd.nodes existing with «end» := (tree.nodes new).start - 1 }
  have existingBefore : withNewEnd.nodes existing = tree.nodes existing :=
    setNode_nodes_of_ne _ different
  have shrunkValid : shrunk.Valid := by
    apply (valid.setNode_of_not_mem newAbsent _).narrow
    · rw [existingBefore]
      grind
    · exact UInt64.le_refl _
    · rw [existingBefore]
      grind
  have newRange : shrunk.nodes new = ⟨(tree.nodes new).start, (tree.nodes existing).«end»⟩ := by
    rw [setNode_nodes_of_ne _ (Ne.symm different), setNode_nodes_self]
  have existingRange : shrunk.nodes existing =
      ⟨(tree.nodes existing).start, (tree.nodes new).start - 1⟩ := by
    rw [setNode_nodes_self, existingBefore]
  have otherRange : ∀ other ∈ tree.head, other ≠ existing → shrunk.nodes other = tree.nodes other := by
    intro other member otherDifferent
    have otherNotNew : other ≠ new := fun same => newAbsent (same ▸ member)
    rw [setNode_nodes_of_ne _ otherDifferent, setNode_nodes_of_ne _ otherNotNew]
  have clear : ∀ other ∈ shrunk.head,
      rangeNodesOverlap (shrunk.nodes new) (shrunk.nodes other) = false := by
    intro other member
    cases overlapping : rangeNodesOverlap (shrunk.nodes new) (shrunk.nodes other) with
    | false => rfl
    | true =>
        rw [rangeNodesOverlap_eq_true_iff, newRange] at overlapping
        by_cases atExisting : other = existing
        · rw [atExisting, existingRange] at overlapping
          exact absurd overlapping.1 (by grind)
        · rw [otherRange other member atExisting] at overlapping
          rcases valid.separated member existingMember atExisting with before | after
          · exact absurd overlapping.2 (by grind)
          · exact absurd overlapping.1 (by grind)
  have nonEmpty : (shrunk.nodes new).start ≤ (shrunk.nodes new).«end» := by
    rw [newRange]
    exact startWithin
  rcases uvmRangeTreeAdd_spec rb shrunkValid nonEmpty with
    ⟨⟨other, member, overlapping⟩, -⟩ | ⟨-, status, pre, post, split, preBefore, postAfter, result⟩
  · rw [clear other member] at overlapping
    cases overlapping
  · refine ⟨status, ?_⟩
    change (uvmRangeTreeAdd rb shrunk new).2.Valid
    rw [result]
    exact shrunkValid.linked correct nonEmpty split preBefore postAfter

def Covers (tree : UvmRangeTree) (addr : UInt64) : Prop :=
  ∃ node ∈ tree.head, (tree.nodes node).start ≤ addr ∧ addr ≤ (tree.nodes node).«end»

def UvmRangeTreeNode.fuse (first second : UvmRangeTreeNode) : UvmRangeTreeNode :=
  ⟨first.start, second.«end»⟩

@[simp] theorem UvmRangeTreeNode.fuse_start (first second : UvmRangeTreeNode) :
    (first.fuse second).start = first.start := rfl

@[simp] theorem UvmRangeTreeNode.fuse_end (first second : UvmRangeTreeNode) :
    (first.fuse second).«end» = second.«end» := rfl

theorem ordered_fuse {front back : List UvmRangeTreeNode} {first second : UvmRangeTreeNode}
    (ordered : (front ++ first :: second :: back).Pairwise (fun a b => a.«end» < b.start)) :
    (front ++ first.fuse second :: back).Pairwise (fun a b => a.«end» < b.start) := by
  rw [List.pairwise_append, List.pairwise_cons, List.pairwise_cons] at ordered
  obtain ⟨orderedFront, ⟨_, secondFirst, orderedBack⟩, across⟩ := ordered
  rw [List.pairwise_append, List.pairwise_cons]
  refine ⟨orderedFront, ⟨fun later member => secondFirst later member, orderedBack⟩, ?_⟩
  intro earlier earlierMember later laterMember
  rcases List.mem_cons.mp laterMember with fused | inBack
  · rw [fused]
    exact across earlier earlierMember first List.mem_cons_self
  · exact across earlier earlierMember later (by simp [inBack])

theorem covers_fuse {front back : List UvmRangeTreeNode} {first second : UvmRangeTreeNode}
    (firstWellFormed : first.start ≤ first.«end») (secondWellFormed : second.start ≤ second.«end»)
    (adjacent : first.«end» + 1 = second.start) (between : first.«end» < second.start) (addr : UInt64) :
    (∃ range ∈ front ++ first.fuse second :: back, range.start ≤ addr ∧ addr ≤ range.«end») ↔
      ∃ range ∈ front ++ first :: second :: back, range.start ≤ addr ∧ addr ≤ range.«end» := by
  have fused : (first.fuse second).start ≤ addr ∧ addr ≤ (first.fuse second).«end» ↔
      (first.start ≤ addr ∧ addr ≤ first.«end») ∨ (second.start ≤ addr ∧ addr ≤ second.«end») := by
    unfold UvmRangeTreeNode.fuse
    grind
  simp only [List.mem_append, List.mem_cons]
  constructor
  · rintro ⟨range, inFront | isFused | inBack, within⟩
    · exact ⟨range, .inl inFront, within⟩
    · rw [isFused] at within
      rcases fused.mp within with inFirst | inSecond
      · exact ⟨first, .inr (.inl rfl), inFirst⟩
      · exact ⟨second, .inr (.inr (.inl rfl)), inSecond⟩
    · exact ⟨range, .inr (.inr (.inr inBack)), within⟩
  · rintro ⟨range, inFront | isFirst | isSecond | inBack, within⟩
    · exact ⟨range, .inl inFront, within⟩
    · rw [isFirst] at within
      exact ⟨first.fuse second, .inr (.inl rfl), fused.mpr (.inl within)⟩
    · rw [isSecond] at within
      exact ⟨first.fuse second, .inr (.inl rfl), fused.mpr (.inr within)⟩
    · exact ⟨range, .inr (.inr inBack), within⟩

theorem covers_iff_ranges (tree : UvmRangeTree) (addr : UInt64) :
    Covers tree addr ↔
      ∃ range ∈ tree.head.map tree.nodes, range.start ≤ addr ∧ addr ≤ range.«end» := by
  simp [Covers]

theorem ordered_iff_ranges (nodes : Nat → UvmRangeTreeNode) (list : List Nat) :
    list.Pairwise (fun a b => (nodes a).«end» < (nodes b).start) ↔
      (list.map nodes).Pairwise (fun a b => a.«end» < b.start) := by
  rw [List.pairwise_map]

section Fuse

variable {front back : List Nat} {first second removed kept : Nat}

def FusePair (first second removed kept : Nat) : Prop :=
  (removed = first ∧ kept = second) ∨ (removed = second ∧ kept = first)

theorem fused_head (valid : tree.Valid) (shape : tree.head = front ++ first :: second :: back)
    (pair : FusePair first second removed kept) (value : UvmRangeTreeNode) :
    ((uvmRangeTreeRemove rb tree removed).setNode kept value).head = front ++ kept :: back := by
  have distinct := valid.nodup
  rw [shape] at distinct
  have firstNotFront : first ∉ front := LinkedList.not_mem_front distinct
  have firstNotSecond : first ≠ second := by
    intro same
    rw [same] at distinct
    exact LinkedList.not_mem_back distinct List.mem_cons_self
  have secondNotFront : second ∉ front := by
    rw [← List.singleton_append, ← List.append_assoc] at distinct
    exact fun member => LinkedList.not_mem_front distinct (List.mem_append_left _ member)
  rw [setNode_head, remove_head, shape]
  rcases pair with ⟨rfl, rfl⟩ | ⟨rfl, rfl⟩
  · rw [List.erase_append_right _ firstNotFront, List.erase_cons_head]
  · rw [List.erase_append_right _ secondNotFront,
      List.erase_cons_tail (by simpa using firstNotSecond), List.erase_cons_head]

theorem kept_outside (valid : tree.Valid) (shape : tree.head = front ++ first :: second :: back)
    (pair : FusePair first second removed kept) : kept ∉ front ∧ kept ∉ back := by
  have distinct := valid.nodup
  rw [shape] at distinct
  rcases pair with ⟨-, rfl⟩ | ⟨-, rfl⟩
  · rw [← List.singleton_append, ← List.append_assoc] at distinct
    exact ⟨fun member => LinkedList.not_mem_front distinct (List.mem_append_left _ member),
      LinkedList.not_mem_back distinct⟩
  · exact ⟨LinkedList.not_mem_front distinct,
      fun member => LinkedList.not_mem_back distinct (List.mem_cons_of_mem second member)⟩

theorem fused_ranges (rb : Rbtree) (valid : tree.Valid) (shape : tree.head = front ++ first :: second :: back)
    (pair : FusePair first second removed kept) :
    (((uvmRangeTreeRemove rb tree removed).setNode kept
        ((tree.nodes first).fuse (tree.nodes second))).head.map
      ((uvmRangeTreeRemove rb tree removed).setNode kept
        ((tree.nodes first).fuse (tree.nodes second))).nodes) =
      front.map tree.nodes ++ (tree.nodes first).fuse (tree.nodes second) :: back.map tree.nodes := by
  obtain ⟨keptNotFront, keptNotBack⟩ := kept_outside valid shape pair
  rw [fused_head valid shape pair, List.map_append, List.map_cons]
  have sameFront : front.map ((uvmRangeTreeRemove rb tree removed).setNode kept
      ((tree.nodes first).fuse (tree.nodes second))).nodes = front.map tree.nodes :=
    List.map_congr_left (fun other member =>
      setNode_nodes_of_ne _ (fun same => keptNotFront (same ▸ member)))
  have sameBack : back.map ((uvmRangeTreeRemove rb tree removed).setNode kept
      ((tree.nodes first).fuse (tree.nodes second))).nodes = back.map tree.nodes :=
    List.map_congr_left (fun other member =>
      setNode_nodes_of_ne _ (fun same => keptNotBack (same ▸ member)))
  rw [sameFront, sameBack, setNode_nodes_self]

theorem fused_spec (rb : Rbtree) (correct : rb.Correct) (valid : tree.Valid)
    (shape : tree.head = front ++ first :: second :: back)
    (adjacent : (tree.nodes first).«end» + 1 = (tree.nodes second).start)
    (pair : FusePair first second removed kept) :
    ((uvmRangeTreeRemove rb tree removed).setNode kept
        ((tree.nodes first).fuse (tree.nodes second))).Valid ∧
      ∀ addr, Covers ((uvmRangeTreeRemove rb tree removed).setNode kept
        ((tree.nodes first).fuse (tree.nodes second))) addr ↔ Covers tree addr := by
  have removedMember : removed ∈ tree.head := by
    rcases pair with ⟨rfl, -⟩ | ⟨rfl, -⟩ <;> simp [shape]
  let merged := (uvmRangeTreeRemove rb tree removed).setNode kept
    ((tree.nodes first).fuse (tree.nodes second))
  have mergedRanges := fused_ranges rb valid shape pair
  have oldRanges : tree.head.map tree.nodes =
      front.map tree.nodes ++ tree.nodes first :: tree.nodes second :: back.map tree.nodes := by
    rw [shape, List.map_append, List.map_cons, List.map_cons]
  have firstWellFormed := valid.wellFormed first (by simp [shape])
  have secondWellFormed := valid.wellFormed second (by simp [shape])
  have between : (tree.nodes first).«end» < (tree.nodes second).start := by
    have ordered := valid.ordered
    rw [shape, List.pairwise_append, List.pairwise_cons] at ordered
    exact ordered.2.1.1 second List.mem_cons_self
  refine ⟨⟨(valid.remove correct removedMember).inorder_eq, ?_, ?_⟩, ?_⟩
  · have wellFormedRanges : ∀ range ∈ merged.head.map merged.nodes, range.start ≤ range.«end» := by
      rw [mergedRanges]
      intro range member
      simp only [List.mem_append, List.mem_cons, List.mem_map] at member
      rcases member with ⟨other, inFront, rfl⟩ | isFused | ⟨other, inBack, rfl⟩
      · exact valid.wellFormed other (by simp [shape, inFront])
      · rw [isFused]
        unfold UvmRangeTreeNode.fuse
        grind
      · exact valid.wellFormed other (by simp [shape, inBack])
    intro other member
    exact wellFormedRanges (merged.nodes other) (List.mem_map_of_mem member)
  · change merged.head.Pairwise _
    rw [ordered_iff_ranges, mergedRanges]
    have ordered := valid.ordered
    rw [ordered_iff_ranges, oldRanges] at ordered
    exact ordered_fuse ordered
  · intro addr
    rw [covers_iff_ranges, covers_iff_ranges, mergedRanges, oldRanges]
    exact covers_fuse firstWellFormed secondWellFormed adjacent between addr

end Fuse

theorem toNat_add_one_of_lt {a b : UInt64} (below : a < b) : (a + 1).toNat = a.toNat + 1 := by
  have belowBound := UInt64.lt_iff_toNat_lt.mp below
  have bound := b.toNat_lt
  rw [UInt64.toNat_add, UInt64.toNat_one, Nat.mod_eq_of_lt (by omega)]

theorem eq_sub_one_iff_add_one_eq {a b : UInt64} (below : a < b) : a = b - 1 ↔ a + 1 = b := by
  have positive : b ≠ 0 := by grind
  grind

theorem uvmRangeTreeMergePrev_cases (valid : tree.Valid) (node : Nat) :
    (uvmRangeTreeMergePrev rb tree node = (none, tree) ∧
        ∀ prev, uvmRangeTreePrev tree node = some prev →
          (tree.nodes prev).«end» + 1 ≠ (tree.nodes node).start) ∨
      ∃ prev front back, tree.head = front ++ prev :: node :: back ∧
        (tree.nodes prev).«end» + 1 = (tree.nodes node).start ∧
        uvmRangeTreeMergePrev rb tree node =
          (some prev, (uvmRangeTreeRemove rb tree prev).setNode node
            ((tree.nodes prev).fuse (tree.nodes node))) := by
  unfold uvmRangeTreeMergePrev
  cases found : uvmRangeTreePrev tree node with
  | none => exact .inl ⟨rfl, fun _ impossible => by cases impossible⟩
  | some leader =>
      obtain ⟨front, back, shape⟩ := (LinkedList.prev_eq_some_iff valid.nodup).mp found
      have between : (tree.nodes leader).«end» < (tree.nodes node).start := by
        have ordered := valid.ordered
        rw [shape, List.pairwise_append, List.pairwise_cons] at ordered
        exact ordered.2.1.1 node List.mem_cons_self
      by_cases adjacent : (tree.nodes leader).«end» + 1 = (tree.nodes node).start
      · have notApart : ¬(tree.nodes leader).«end» ≠ (tree.nodes node).start - 1 := by
          rw [not_not, eq_sub_one_iff_add_one_eq between]
          exact adjacent
        dsimp only
        rw [if_neg notApart]
        exact .inr ⟨leader, front, back, shape, adjacent, rfl⟩
      · have apart : (tree.nodes leader).«end» ≠ (tree.nodes node).start - 1 := by
          rw [ne_eq, eq_sub_one_iff_add_one_eq between]
          exact adjacent
        dsimp only
        rw [if_pos apart]
        refine .inl ⟨rfl, fun prev same => ?_⟩
        cases same
        exact adjacent

theorem uvmRangeTreeMergeNext_cases (valid : tree.Valid) (node : Nat) :
    (uvmRangeTreeMergeNext rb tree node = (none, tree) ∧
        ∀ next, uvmRangeTreeNext tree node = some next →
          (tree.nodes node).«end» + 1 ≠ (tree.nodes next).start) ∨
      ∃ next front back, tree.head = front ++ node :: next :: back ∧
        (tree.nodes node).«end» + 1 = (tree.nodes next).start ∧
        uvmRangeTreeMergeNext rb tree node =
          (some next, (uvmRangeTreeRemove rb tree next).setNode node
            ((tree.nodes node).fuse (tree.nodes next))) := by
  unfold uvmRangeTreeMergeNext
  cases found : uvmRangeTreeNext tree node with
  | none => exact .inl ⟨rfl, fun _ impossible => by cases impossible⟩
  | some follower =>
      obtain ⟨front, back, shape⟩ := (LinkedList.next_eq_some_iff valid.nodup).mp found
      by_cases adjacent : (tree.nodes node).«end» + 1 = (tree.nodes follower).start
      · have notApart : ¬(tree.nodes follower).start ≠ (tree.nodes node).«end» + 1 := by
          rw [not_not]
          exact adjacent.symm
        dsimp only
        rw [if_neg notApart]
        exact .inr ⟨follower, front, back, shape, adjacent, rfl⟩
      · have apart : (tree.nodes follower).start ≠ (tree.nodes node).«end» + 1 :=
          fun same => adjacent same.symm
        dsimp only
        rw [if_pos apart]
        refine .inl ⟨rfl, fun next same => ?_⟩
        cases same
        exact adjacent

theorem uvmRangeTreeMergePrev_spec (correct : rb.Correct) (valid : tree.Valid) (node prev : Nat) :
    ((uvmRangeTreeMergePrev rb tree node).1 = some prev ↔
        uvmRangeTreePrev tree node = some prev ∧
          (tree.nodes prev).«end» + 1 = (tree.nodes node).start) ∧
      (uvmRangeTreeMergePrev rb tree node).2.Valid ∧
      ((uvmRangeTreeMergePrev rb tree node).1 = some prev →
        ∀ addr, Covers (uvmRangeTreeMergePrev rb tree node).2 addr ↔ Covers tree addr) := by
  rcases uvmRangeTreeMergePrev_cases valid node with
    ⟨unchanged, notAdjacent⟩ | ⟨leader, front, back, shape, adjacent, merged⟩
  · rw [unchanged]
    refine ⟨⟨fun impossible => (by cases impossible), ?_⟩, valid, fun impossible => (by cases impossible)⟩
    intro ⟨found, touching⟩
    exact absurd touching (notAdjacent prev found)
  · rw [merged]
    obtain ⟨fusedValid, fusedCovers⟩ := fused_spec rb correct valid shape adjacent (.inl ⟨rfl, rfl⟩)
    have leaderIsPrev : uvmRangeTreePrev tree node = some leader :=
      (LinkedList.prev_eq_some_iff valid.nodup).mpr ⟨front, back, shape⟩
    refine ⟨⟨fun same => ?_, fun ⟨found, _⟩ => ?_⟩, fusedValid, fun _ => fusedCovers⟩
    · cases same
      exact ⟨leaderIsPrev, adjacent⟩
    · rw [leaderIsPrev] at found
      rw [found]

theorem uvmRangeTreeMergeNext_spec (correct : rb.Correct) (valid : tree.Valid) (node next : Nat) :
    ((uvmRangeTreeMergeNext rb tree node).1 = some next ↔
        uvmRangeTreeNext tree node = some next ∧
          (tree.nodes node).«end» + 1 = (tree.nodes next).start) ∧
      (uvmRangeTreeMergeNext rb tree node).2.Valid ∧
      ((uvmRangeTreeMergeNext rb tree node).1 = some next →
        ∀ addr, Covers (uvmRangeTreeMergeNext rb tree node).2 addr ↔ Covers tree addr) := by
  rcases uvmRangeTreeMergeNext_cases valid node with
    ⟨unchanged, notAdjacent⟩ | ⟨follower, front, back, shape, adjacent, merged⟩
  · rw [unchanged]
    refine ⟨⟨fun impossible => (by cases impossible), ?_⟩, valid, fun impossible => (by cases impossible)⟩
    intro ⟨found, touching⟩
    exact absurd touching (notAdjacent next found)
  · rw [merged]
    obtain ⟨fusedValid, fusedCovers⟩ := fused_spec rb correct valid shape adjacent (.inr ⟨rfl, rfl⟩)
    have followerIsNext : uvmRangeTreeNext tree node = some follower :=
      (LinkedList.next_eq_some_iff valid.nodup).mpr ⟨front, back, shape⟩
    refine ⟨⟨fun same => ?_, fun ⟨found, _⟩ => ?_⟩, fusedValid, fun _ => fusedCovers⟩
    · cases same
      exact ⟨followerIsNext, adjacent⟩
    · rw [followerIsNext] at found
      rw [found]

theorem UvmRangeTree.Valid.touching_consecutive (valid : tree.Valid) {a b : Nat}
    (aMember : a ∈ tree.head) (bMember : b ∈ tree.head)
    (touching : (tree.nodes a).«end».toNat + 1 = (tree.nodes b).start.toNat) :
    ∃ front back, tree.head = front ++ a :: b :: back := by
  have aWellFormed := UInt64.le_iff_toNat_le.mp (valid.wellFormed a aMember)
  have bWellFormed := UInt64.le_iff_toNat_le.mp (valid.wellFormed b bMember)
  obtain ⟨front, rest, shape⟩ := List.append_of_mem aMember
  have ordered := valid.ordered
  rw [shape, List.pairwise_append, List.pairwise_cons] at ordered
  obtain ⟨-, ⟨aFirst, orderedRest⟩, frontFirst⟩ := ordered
  have bInRest : b ∈ rest := by
    rw [shape] at bMember
    rcases List.mem_append.mp bMember with inFront | inTail
    · have before := UInt64.lt_iff_toNat_lt.mp (frontFirst b inFront a List.mem_cons_self)
      omega
    · rcases List.mem_cons.mp inTail with same | inRest
      · rw [same] at touching
        omega
      · exact inRest
  cases rest with
  | nil => cases bInRest
  | cons middle back =>
      rcases List.mem_cons.mp bInRest with same | later
      · rw [same]
        exact ⟨front, back, shape⟩
      · have middleMember : middle ∈ tree.head := by simp [shape]
        have middleWellFormed := UInt64.le_iff_toNat_le.mp (valid.wellFormed middle middleMember)
        have aMiddle := UInt64.lt_iff_toNat_lt.mp (aFirst middle List.mem_cons_self)
        have middleB := UInt64.lt_iff_toNat_lt.mp ((List.pairwise_cons.mp orderedRest).1 b later)
        omega

end NvidiaGpu.RangeTree
