import NvidiaGpu.Containers.Btree
import NvidiaGpu.Library.LinkedTreeFixup

set_option autoImplicit false

/-! The insertion of the RM btree (`btree.c`): `btreeInsert` walks down to the
leaf where the new node's interval belongs, links the node in red there, and
`_insertFixup` restores the red-black shape with recolourings and the
rotations `_rotateLeft` and `_rotateRight`.

`_insertFixup` is the insertion repair of `LinkedTree`, which refines the
repair on zippers, `RedBlack.fixRed`, pass by pass.  From a
well-formed red-black tree and a node whose interval meets none of its nodes'
intervals, `btreeInsert` answers `NV_OK` and leaves a well-formed red-black
tree with the new node in its place in order; a node whose interval meets one
of them is refused and the memory left alone. -/

namespace NvidiaGpu.Btree

open LinkedTree LinkedTree.Mem RedBlack NvidiaGpu.RedBlack.RBTree

variable {Ptr : Type}

/-! ## The descent of `btreeInsert` -/

/-- The `while (current)` loop of `btreeInsert`: left below `keyStart`, right
above `keyEnd`, recording the future parent; `NV_ERR_INSERT_DUPLICATE_NAME` at
a node whose interval meets `[keyStart, keyEnd]`.  `none` when the rounds run
out. -/
def insertParentLoop (mem : BtreeMem Ptr) (keyStart keyEnd : Nat) :
    Nat → Option Ptr → Option Ptr → Option (Except NvStatus (Option Ptr))
  | 0, _, _ => none
  | _ + 1, none, parent => some (.ok parent)
  | fuel + 1, some current, _ =>
      if keyEnd < mem.keyStart current then
        insertParentLoop mem keyStart keyEnd fuel (mem.left current) (some current)
      else if keyStart > mem.keyEnd current then
        insertParentLoop mem keyStart keyEnd fuel (mem.right current) (some current)
      else some (.error .nvErrInsertDuplicateName)

section Descent

variable {mem : BtreeMem Ptr} {newNode : Ptr}

theorem insertParentLoop_ok (valid : mem.keyStart newNode ≤ mem.keyEnd newNode) :
    ∀ (fuel : Nat) (path : List (Frame Ptr)) (sub : RBTree Ptr), Subtree mem sub →
      (∀ q ∈ sub.toList, Before mem q newNode ∨ Before mem newNode q) → sub.toList.length < fuel →
      ∃ inner, insertParentLoop mem (mem.keyStart newNode) (mem.keyEnd newNode) fuel sub.rootValue
          (parentOfPath path) = some (.ok (parentOfPath (inner ++ path))) ∧ plug inner leaf = sub ∧
        (∀ q ∈ before inner, Before mem q newNode) ∧ (∀ q ∈ after inner, Before mem newNode q)
  | 0, _, _, _, _, short => absurd short (Nat.not_lt_zero _)
  | _ + 1, _, leaf, _, _, _ => ⟨[], rfl, rfl, by simp [before], by simp [after]⟩
  | fuel + 1, path, node red left value right, sub, apart, short => by
      obtain ⟨leftLink, rightLink, leftSub, rightSub, ordered, below, above⟩ := sub.node
      have lengths : left.toList.length < fuel ∧ right.toList.length < fuel := by
        simp only [toList, List.length_append, List.length_cons] at short
        omega
      rcases apart value (by simp) with valueBefore | valueAfter
      · unfold Before at valueBefore
        have run : insertParentLoop mem (mem.keyStart newNode) (mem.keyEnd newNode) (fuel + 1) (some value)
            (parentOfPath path) = insertParentLoop mem (mem.keyStart newNode) (mem.keyEnd newNode) fuel
              right.rootValue (parentOfPath (⟨.right, red, value, left⟩ :: path)) := by
          rw [insertParentLoop, if_neg (by omega), if_pos valueBefore, rightLink, parentOfPath_cons]
        obtain ⟨inner, loop, plugged, lower, higher⟩ := insertParentLoop_ok valid fuel (⟨.right, red, value, left⟩ :: path)
          right rightSub (fun q member => apart q (by simp [member])) lengths.2
        refine ⟨inner ++ [⟨.right, red, value, left⟩], by rw [List.append_assoc, List.singleton_append]; exact run.trans loop,
          by rw [plug_append, plugged]; rfl, fun q member => ?_, fun q member => higher q (by simpa [after_append,
            after, Frame.after] using member)⟩
        simp only [before_append, before, Frame.before, List.nil_append, List.mem_append, List.mem_singleton]
          at member
        rcases member with (inLeft | rfl) | inInner
        · have := below q inLeft
          unfold Before at this ⊢
          omega
        · exact valueBefore
        · exact lower q inInner
      · unfold Before at valueAfter
        have run : insertParentLoop mem (mem.keyStart newNode) (mem.keyEnd newNode) (fuel + 1) (some value)
            (parentOfPath path) = insertParentLoop mem (mem.keyStart newNode) (mem.keyEnd newNode) fuel
              left.rootValue (parentOfPath (⟨.left, red, value, right⟩ :: path)) := by
          rw [insertParentLoop, if_pos valueAfter, leftLink, parentOfPath_cons]
        obtain ⟨inner, loop, plugged, lower, higher⟩ := insertParentLoop_ok valid fuel (⟨.left, red, value, right⟩ :: path)
          left leftSub (fun q member => apart q (by simp [member])) lengths.1
        refine ⟨inner ++ [⟨.left, red, value, right⟩], by rw [List.append_assoc, List.singleton_append]; exact run.trans loop,
          by rw [plug_append, plugged]; rfl, fun q member => lower q (by simpa [before_append, before,
            Frame.before] using member), fun q member => ?_⟩
        simp only [after_append, after, Frame.after, List.append_nil, List.mem_append, List.mem_cons] at member
        rcases member with inInner | rfl | inRight
        · exact higher q inInner
        · exact valueAfter
        · have := above q inRight
          unfold Before at this ⊢
          omega

theorem insertParentLoop_duplicate : ∀ (fuel : Nat) (parent : Option Ptr) (sub : RBTree Ptr), Subtree mem sub →
    (∃ q ∈ sub.toList, ¬Before mem q newNode ∧ ¬Before mem newNode q) → sub.toList.length < fuel →
    insertParentLoop mem (mem.keyStart newNode) (mem.keyEnd newNode) fuel sub.rootValue parent =
      some (.error .nvErrInsertDuplicateName)
  | 0, _, _, _, _, short => absurd short (Nat.not_lt_zero _)
  | _ + 1, _, leaf, _, overlap, _ => by simp at overlap
  | fuel + 1, parent, node red left value right, sub, overlap, short => by
      obtain ⟨leftLink, rightLink, leftSub, rightSub, ordered, below, above⟩ := sub.node
      obtain ⟨q, member, notBefore, notAfter⟩ := overlap
      have lengths : left.toList.length < fuel ∧ right.toList.length < fuel := by
        simp only [toList, List.length_append, List.length_cons] at short
        omega
      simp only [toList, List.mem_append, List.mem_cons] at member
      unfold Before at notBefore notAfter below above
      show insertParentLoop mem (mem.keyStart newNode) (mem.keyEnd newNode) (fuel + 1) (some value) parent = _
      rw [insertParentLoop]
      by_cases goLeft : mem.keyEnd newNode < mem.keyStart value
      · have inLeft : q ∈ left.toList := by
          rcases member with inLeft | rfl | inRight
          · exact inLeft
          · omega
          · have := above q inRight
            omega
        rw [if_pos goLeft, leftLink]
        exact insertParentLoop_duplicate fuel _ left leftSub ⟨q, inLeft, notBefore, notAfter⟩ lengths.1
      · rw [if_neg goLeft]
        by_cases goRight : mem.keyStart newNode > mem.keyEnd value
        · have inRight : q ∈ right.toList := by
            rcases member with inLeft | rfl | inRight
            · have := below q inLeft
              omega
            · omega
            · exact inRight
          rw [if_pos goRight, rightLink]
          exact insertParentLoop_duplicate fuel _ right rightSub ⟨q, inRight, notBefore, notAfter⟩ lengths.2
        · rw [if_neg goRight]

end Descent

/-! ## The fix-up and the link -/

variable [DecidableEq Ptr]

/-- `_insertFixup`, with `_rotateLeft` and `_rotateRight` the rotations
`Mem.rotate .left` and `Mem.rotate .right`. -/
def insertFixup (fuel : Nat) (mem : Mem Ptr) (x : Ptr) : Option (Mem Ptr) :=
  repairInsert fuel mem x

/-- The links of the new node, red and without children, and the link to it:
the parent's left child if the node ends before the parent starts, else its
right child, or the root pointer. -/
def linkNode (mem : BtreeMem Ptr) (newNode : Ptr) (parent : Option Ptr) : Mem Ptr :=
  let links := (((mem.toMem.setParent newNode parent).setChild .left newNode none).setChild .right newNode
    none).setRed newNode true
  match parent with
  | some parent =>
      links.setChild (if mem.keyEnd newNode < mem.keyStart parent then .left else .right) parent (some newNode)
  | none => links.setRoot (some newNode)

/-- `btreeInsert`: the status and the memory after it; `none` only when a loop
runs out of rounds or follows a `NULL` link. -/
def btreeInsert (mem : BtreeMem Ptr) (newNode : Option Ptr) (fuel : Nat) : Option (NvStatus × BtreeMem Ptr) :=
  match newNode with
  | none => some (.nvErrInvalidPointer, mem)
  | some newNode =>
      if mem.keyEnd newNode < mem.keyStart newNode then some (.nvErrInvalidArgument, mem)
      else
        match insertParentLoop mem (mem.keyStart newNode) (mem.keyEnd newNode) fuel mem.root none with
        | none => none
        | some (.error status) => some (status, mem)
        | some (.ok parent) =>
            match insertFixup fuel (linkNode mem newNode parent) newNode with
            | none => none
            | some links => some (.nvOk, { mem with toMem := links })

/-! ## Insertion -/

section Insert

variable {mem : BtreeMem Ptr} {newNode : Ptr}

theorem linkNode_eq {path : List (Frame Ptr)} (valid : mem.keyStart newNode ≤ mem.keyEnd newNode)
    (ordered : ∀ p ∈ pathNodes path, mem.keyStart p ≤ mem.keyEnd p)
    (lower : ∀ q ∈ before path, Before mem q newNode) (higher : ∀ q ∈ after path, Before mem newNode q) :
    linkNode mem newNode (parentOfPath path) =
      ((((mem.toMem.setParent newNode (parentOfPath path)).setChild .left newNode none).setChild .right newNode
        none).setRed newNode true).linkAt path newNode := by
  cases path with
  | nil => rfl
  | cons frame rest =>
      rcases frame with ⟨side, red, value, sibling⟩
      cases side with
      | left =>
          have ends : Before mem newNode value := higher value (by simp [after, Frame.after])
          unfold Before at ends
          simp only [linkNode, linkAt, parentOfPath_cons, if_pos ends]
      | right =>
          have starts : Before mem value newNode := lower value (by simp [before, Frame.before])
          have valueOrdered := ordered value (by simp)
          unfold Before at starts
          simp only [linkNode, linkAt, parentOfPath_cons,
            if_neg (show ¬mem.keyEnd newNode < mem.keyStart value by omega)]

/-- The nodes of `sampleTree` linked as in `sampleMem`, with `3` on `[50, 59]`
not linked in yet, and `4` on `[35, 44]`, which meets `2` on `[30, 39]`. -/
def insertSampleMem : BtreeMem Nat :=
  { sampleMem with
    keyStart := fun p => match p with
      | 0 => 0
      | 1 => 10
      | 2 => 30
      | 3 => 50
      | _ => 35
    keyEnd := fun p => match p with
      | 0 => 9
      | 1 => 19
      | 2 => 39
      | 3 => 59
      | _ => 44 }

theorem insertSampleMem_wellFormed : insertSampleMem.WellFormed sampleTree := by
  refine ⟨⟨?_, ?_⟩, by decide, by decide⟩ <;>
    simp [Mem.Stores, Mem.StoresCtx, Mem.ParentOf, insertSampleMem, sampleMem, sampleTree, rootValue]

theorem sampleTree_isRedBlack : sampleTree.IsRedBlack :=
  ⟨⟨1, 0, rfl, ⟨0, rfl, rfl, rfl⟩, 0, rfl, rfl, rfl⟩, by simp [sampleTree, RedFree, rootRed], rfl⟩

theorem btreeInsert_ok {nodes : List Ptr} (impl : mem.Implements nodes)
    (valid : mem.keyStart newNode ≤ mem.keyEnd newNode)
    (apart : ∀ q ∈ nodes, Before mem q newNode ∨ Before mem newNode q) {fuel : Nat} (enough : nodes.length < fuel) :
    ∃ links, btreeInsert mem (some newNode) fuel = some (.nvOk, { mem with toMem := links }) ∧
      ({ mem with toMem := links } : BtreeMem Ptr).Implements (nodes.orderedInsert (Before mem) newNode) := by
  obtain ⟨tree, wf, redBlack, rfl⟩ := impl
  obtain ⟨path, descent, rfl, lower, higher⟩ := insertParentLoop_ok valid fuel [] tree wf.subtree apart enough
  rw [List.append_nil, parentOfPath_nil] at descent
  have split : (plug path leaf).toList = before path ++ after path := by simp [toList_plug]
  have fresh : newNode ∉ (plug path leaf).toList := fun member => by
    rcases apart newNode member with self | self <;> (unfold Before at self; omega)
  have linked := Mem.Represents.hang wf.represents wf.nodup fresh true
  rw [← linkNode_eq valid (fun p above => wf.ordered p (mem_plug.mpr (.inr above))) lower higher] at linked
  have placed : (plug path (node true leaf newNode leaf)).toList = before path ++ newNode :: after path := by
    simp [toList_plug]
  have distinct : (plug path (node true leaf newNode leaf)).toList.Nodup := by
    rw [placed, List.perm_middle.nodup_iff, List.nodup_cons, ← split]
    exact ⟨fresh, wf.nodup⟩
  have short : path.length < fuel := calc
    path.length ≤ (pathNodes path).length := length_le_pathNodes path
    _ = (plug path leaf).toList.length := by rw [length_toList_plug, toList_leaf, List.length_nil, Nat.zero_add]
    _ < fuel := enough
  obtain ⟨links, whole, fixup, holds, wholeRedBlack, order⟩ :=
    repairInsert_spec ⟨linked, distinct⟩ rfl (InsertInv.start redBlack newNode) short
  rw [placed] at order
  have sorted : whole.toList.Pairwise (Before mem) := by
    rw [order]
    exact ListOrder.pairwise_insert_middle (split ▸ wf.sorted) lower higher
  have inserted : (before path ++ after path).orderedInsert (Before mem) newNode = before path ++ newNode :: after path := by
    refine ListOrder.orderedInsert_middle (fun q inFront ends => ?_) fun q first => higher q (List.mem_of_mem_head? first)
    have starts := lower q inFront
    have qOrdered := wf.ordered q (by rw [split]; exact List.mem_append_left _ inFront)
    unfold Before at starts ends
    omega
  refine ⟨links, ?_, whole, ⟨holds.represents, fun p member => ?_, sorted.isChain⟩, wholeRedBlack,
    by rw [order, split, inserted]⟩
  · simp [btreeInsert, Nat.not_lt.mpr valid, wf.represents.root, descent, insertFixup, fixup]
  · rw [order, List.mem_append, List.mem_cons] at member
    rcases member with inFront | rfl | inBack
    · exact wf.ordered p (by rw [split]; exact List.mem_append_left _ inFront)
    · exact valid
    · exact wf.ordered p (by rw [split]; exact List.mem_append_right _ inBack)

/-- `btreeInsert` of a node whose interval meets none of the intervals of a
well-formed red-black tree answers `NV_OK` and leaves a well-formed red-black
tree: its nodes in order are the old ones with the new node between those
ending before it starts and those starting after it ends. -/
theorem btreeInsert_inserts {tree : RBTree Ptr} (wf : mem.WellFormed tree) (redBlack : tree.IsRedBlack)
    (valid : mem.keyStart newNode ≤ mem.keyEnd newNode)
    (apart : ∀ q ∈ tree.toList, Before mem q newNode ∨ Before mem newNode q) {fuel : Nat}
    (enough : tree.toList.length < fuel) :
    ∃ mem' tree', btreeInsert mem (some newNode) fuel = some (.nvOk, mem') ∧ mem'.WellFormed tree' ∧
      tree'.IsRedBlack ∧ ∃ front back, tree.toList = front ++ back ∧ tree'.toList = front ++ newNode :: back := by
  obtain ⟨links, inserted, tree', wf', redBlack', order⟩ := btreeInsert_ok ⟨tree, wf, redBlack, rfl⟩ valid apart enough
  rw [List.orderedInsert_eq_take_drop] at order
  exact ⟨_, tree', inserted, wf', redBlack', _, _, List.takeWhile_append_dropWhile.symm, order⟩

theorem btreeInsert_inserts_sample :
    insertSampleMem.WellFormed sampleTree ∧ sampleTree.IsRedBlack ∧
      ∃ mem' tree', btreeInsert insertSampleMem (some 3) 4 = some (.nvOk, mem') ∧ mem'.WellFormed tree' ∧
        tree'.IsRedBlack ∧ ∃ front back, sampleTree.toList = front ++ back ∧ tree'.toList = front ++ 3 :: back :=
  ⟨insertSampleMem_wellFormed, sampleTree_isRedBlack,
    btreeInsert_inserts insertSampleMem_wellFormed sampleTree_isRedBlack (by decide) (by decide) (by decide)⟩

/-- `btreeInsert` of a node whose interval meets the interval of a node of a
well-formed tree answers `NV_ERR_INSERT_DUPLICATE_NAME` and leaves the memory
as it was. -/
theorem btreeInsert_duplicate {tree : RBTree Ptr} (wf : mem.WellFormed tree)
    (valid : mem.keyStart newNode ≤ mem.keyEnd newNode)
    (overlap : ∃ q ∈ tree.toList, ¬Before mem q newNode ∧ ¬Before mem newNode q) {fuel : Nat}
    (enough : tree.toList.length < fuel) :
    btreeInsert mem (some newNode) fuel = some (.nvErrInsertDuplicateName, mem) := by
  have refused := insertParentLoop_duplicate fuel none tree wf.subtree overlap enough
  simp [btreeInsert, Nat.not_lt.mpr valid, wf.represents.root, refused]

theorem btreeInsert_duplicate_sample :
    insertSampleMem.WellFormed sampleTree ∧ (∃ q ∈ sampleTree.toList, ¬Before insertSampleMem q 4 ∧ ¬Before insertSampleMem 4 q) ∧
      btreeInsert insertSampleMem (some 4) 4 = some (.nvErrInsertDuplicateName, insertSampleMem) :=
  ⟨insertSampleMem_wellFormed, by decide, btreeInsert_duplicate insertSampleMem_wellFormed (by decide) (by decide) (by decide)⟩

end Insert

end NvidiaGpu.Btree
