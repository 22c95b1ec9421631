import NvidiaGpu.Containers.BtreeInsert
import NvidiaGpu.Library.LinkedTreeRemove

set_option autoImplicit false

/-! The removal of the RM btree (`btree.c`): `btreeUnlink` takes a node out of
the tree, or, when it has two children, its successor, which then takes the
node's place and colour; when the node taken out was black, `_deleteFixup`
restores the red-black shape from the `NULL` or node that took its place.

The writes before `_deleteFixup` are the textbook unlink of `LinkedTree`,
and `_deleteFixup` its deletion repair, so `btreeUnlink` of a node of a
well-formed red-black tree answers `NV_OK` and leaves a well-formed red-black
tree of the other nodes, in the same order. -/

namespace NvidiaGpu.Btree

open LinkedTree LinkedTree.Mem RedBlack NvidiaGpu.RedBlack.RBTree

variable {Ptr : Type} [DecidableEq Ptr]

/-! ## The code -/

/-- `_deleteFixup`, with `_rotateLeft` and `_rotateRight` the rotations
`Mem.rotate .left` and `Mem.rotate .right`. -/
def deleteFixup (fuel : Nat) (mem : Mem Ptr) (parentOfX x : Option Ptr) : Option (Mem Ptr) :=
  repairDelete fuel mem parentOfX x

/-- `btreeUnlink`: the status and the memory after it; `none` only when a loop
runs out of rounds or follows a `NULL` link. -/
def btreeUnlink (mem : BtreeMem Ptr) (pNode : Option Ptr) (fuel : Nat) : Option (NvStatus × BtreeMem Ptr) :=
  match pNode with
  | none => some (.nvErrInvalidPointer, mem)
  | some z =>
      match mem.toMem.unlinkNode fuel z with
      | (links, parentOfX, x, yWasBlack) =>
          if yWasBlack then
            match deleteFixup fuel links parentOfX x with
            | some links => some (.nvOk, { mem with toMem := links })
            | none => none
          else some (.nvOk, { mem with toMem := links })

/-! ## Unlinking -/

section Unlink

variable {mem : BtreeMem Ptr} {z : Ptr} {fuel : Nat}

theorem btreeUnlink_eq : btreeUnlink mem (some z) fuel =
    (mem.toMem.removeNode fuel z).map fun links => (.nvOk, { mem with toMem := links }) := by
  rw [btreeUnlink, removeNode]
  obtain ⟨links, parentOfX, x, yWasBlack⟩ := mem.toMem.unlinkNode fuel z
  dsimp only
  cases yWasBlack with
  | false => rfl
  | true =>
      rw [if_pos rfl, if_pos rfl, deleteFixup]
      cases repairDelete fuel links parentOfX x <;> rfl

omit [DecidableEq Ptr] in
theorem wellFormed_of_sublist {tree whole : RBTree Ptr} {links : Mem Ptr} (wf : mem.WellFormed tree)
    (rep : links.Represents whole) (fewer : whole.toList.Sublist tree.toList) :
    ({ mem with toMem := links } : BtreeMem Ptr).WellFormed whole :=
  ⟨rep, fun p member => wf.ordered p (fewer.subset member), (wf.sorted.sublist fewer).isChain⟩

theorem btreeUnlink_ok {nodes : List Ptr} (impl : mem.Implements nodes) (member : z ∈ nodes)
    (enough : nodes.length < fuel) :
    ∃ links, btreeUnlink mem (some z) fuel = some (.nvOk, { mem with toMem := links }) ∧
      ({ mem with toMem := links } : BtreeMem Ptr).Implements (nodes.erase z) := by
  obtain ⟨tree, wf, redBlack, rfl⟩ := impl
  obtain ⟨links, whole, removed, linksHolds, wholeRedBlack, front, back, split, order⟩ :=
    removeNode_spec ⟨wf.represents, wf.nodup⟩ redBlack member enough
  have fewer : whole.toList.Sublist tree.toList := by
    rw [split, order]
    exact (List.sublist_cons_self z back).append_left front
  refine ⟨links, by rw [btreeUnlink_eq, removed, Option.map_some], whole,
    wellFormed_of_sublist wf linksHolds.represents fewer, wholeRedBlack, ?_⟩
  rw [order, split, ListOrder.erase_middle (split ▸ wf.nodup)]

/-- `btreeUnlink` of a node of a well-formed red-black tree answers `NV_OK` and
leaves a well-formed red-black tree: its nodes in order are the old ones with
the node left out. -/
theorem btreeUnlink_removes {tree : RBTree Ptr} (wf : mem.WellFormed tree) (redBlack : tree.IsRedBlack)
    (member : z ∈ tree.toList) (enough : tree.toList.length < fuel) :
    ∃ mem' tree', btreeUnlink mem (some z) fuel = some (.nvOk, mem') ∧ mem'.WellFormed tree' ∧
      tree'.IsRedBlack ∧ ∃ front back, tree.toList = front ++ z :: back ∧ tree'.toList = front ++ back := by
  obtain ⟨links, unlinked, tree', wf', redBlack', order⟩ := btreeUnlink_ok ⟨tree, wf, redBlack, rfl⟩ member enough
  obtain ⟨front, back, split⟩ := List.append_of_mem member
  refine ⟨_, tree', unlinked, wf', redBlack', front, back, split, ?_⟩
  rw [order, split, ListOrder.erase_middle (split ▸ wf.nodup)]

theorem btreeUnlink_removes_sample :
    insertSampleMem.WellFormed sampleTree ∧ sampleTree.IsRedBlack ∧ 1 ∈ sampleTree.toList ∧
      ∃ mem' tree', btreeUnlink insertSampleMem (some 1) 4 = some (.nvOk, mem') ∧ mem'.WellFormed tree' ∧
        tree'.IsRedBlack ∧ ∃ front back, sampleTree.toList = front ++ 1 :: back ∧ tree'.toList = front ++ back :=
  ⟨insertSampleMem_wellFormed, sampleTree_isRedBlack, by decide,
    btreeUnlink_removes insertSampleMem_wellFormed sampleTree_isRedBlack (by decide) (by decide)⟩

end Unlink

end NvidiaGpu.Btree
