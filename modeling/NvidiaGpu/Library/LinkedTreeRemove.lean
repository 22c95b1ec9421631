import NvidiaGpu.Library.LinkedTreeFixup
import NvidiaGpu.Library.TreeWalk

set_option autoImplicit false

/-! Taking a node out of a red-black tree with parent links, the textbook way:
the node itself when it has a `NULL` child, else its successor, leaves the
parent chain with its only child taking its place; a successor then takes the
node's place and colour; and when the node that left the chain was black, the
deletion repair runs from the position of that child.

The writes before the repair do what `RedBlack.remove` does to the tree the
memory holds, so a removal from a red-black tree of distinct nodes leaves a
red-black tree of the other nodes, in the same order. -/

namespace NvidiaGpu.LinkedTree.Mem

open RedBlack NvidiaGpu.RedBlack.RBTree

variable {Ptr : Type}

section Reorder

variable [DecidableEq Ptr] {mem : Mem Ptr}

theorem setChild_setRed (side : Side) (target node : Ptr) (link : Option Ptr) (red : Bool) :
    (mem.setRed node red).setChild side target link = (mem.setChild side target link).setRed node red := by
  cases side <;> rfl

theorem setParentOf_setRed (target link : Option Ptr) (node : Ptr) (red : Bool) :
    (mem.setRed node red).setParentOf target link = (mem.setParentOf target link).setRed node red := by
  cases target <;> rfl

end Reorder

/-- The node that leaves the parent chain for `z`: `z` itself when it has a
`NULL` child, else its successor, the leftmost node on its right. -/
def unlinkedNode (mem : Mem Ptr) (fuel : Nat) (z : Ptr) : Ptr :=
  match mem.left z, mem.right z with
  | some _, some right => mem.descendLoop .left fuel right
  | _, _ => z

variable [DecidableEq Ptr]

/-- The writes before the repair: `y` leaves the parent chain, its only child
`x` taking its place, and when `y` is not `z` it takes `z`'s place.  The
links, `parentOfX`, `x` and `yWasBlack`. -/
def unlinkNode (mem : Mem Ptr) (fuel : Nat) (z : Ptr) : Mem Ptr × Option Ptr × Option Ptr × Bool :=
  let y := mem.unlinkedNode fuel z
  let x := if (mem.left y).isSome then mem.left y else mem.right y
  let parentOfX := mem.parent y
  let links := mem.setParentOf x parentOfX
  let links := links.relink .left (links.parent y) y x
  let yWasBlack := !links.isRed y
  if y ≠ z then (links.replace z y, if parentOfX = some z then some y else parentOfX, x, yWasBlack)
  else (links, parentOfX, x, yWasBlack)

/-- The removal of `z`: the unlink, then the deletion repair when the node that
left the chain was black.  `none` only when a loop runs out of rounds or
follows a `NULL` link. -/
def removeNode (mem : Mem Ptr) (fuel : Nat) (z : Ptr) : Option (Mem Ptr) :=
  match mem.unlinkNode fuel z with
  | (links, parentOfX, x, yWasBlack) => if yWasBlack then repairDelete fuel links parentOfX x else some links

section Unlink

variable {mem : Mem Ptr} {path : List (Frame Ptr)} {zRed : Bool} {left right : RBTree Ptr} {z : Ptr} {fuel : Nat}

theorem unlinkNode_of_leaf {side : Side} {child : RBTree Ptr}
    (holds : mem.Holds (plug path (RBTree.mk side zRed child z leaf))) :
    mem.unlinkNode fuel z = ((mem.setParentOf child.rootValue (parentOfPath path)).relink .left
      (parentOfPath path) z child.rootValue, parentOfPath path, child.rootValue, !zRed) := by
  obtain ⟨zIsRed, childLink, leafLink, zParent⟩ := holds.represents.links
  have spread := nodup_plug.mp holds.distinct
  rw [(toList_mk_perm side zRed child z leaf).append_right _ |>.nodup_iff] at spread
  have notSelf : child.rootValue ≠ some z := fun rooted => by
    have inChild := mem_toList_of_rootValue rooted
    simp only [List.cons_append, List.nodup_cons, List.mem_append] at spread
    exact spread.1 (.inl (.inl inChild))
  have picked : mem.unlinkedNode fuel z = z ∧
      (if (mem.left z).isSome then mem.left z else mem.right z) = child.rootValue := by
    cases side <;> simp only [Mem.child, Side.flip, rootValue_leaf] at childLink leafLink <;>
      rw [unlinkedNode, childLink, leafLink] <;> cases child.rootValue <;> exact ⟨rfl, rfl⟩
  simp only [unlinkNode, picked, zParent, parent_setParentOf, if_neg notSelf, isRed_relink, isRed_setParentOf,
    zIsRed, ne_eq, not_true_eq_false, if_false]

theorem unlinkNode_of_successor {inner : List (Frame Ptr)} {sRed : Bool} {s : Ptr} {sRight : RBTree Ptr}
    (holds : mem.Holds (plug (inner ++ ⟨.right, zRed, z, left⟩ :: path) (node sRed leaf s sRight)))
    (leftNode : left.rootValue.isSome) (noBefore : before inner = [])
    (enough : (plug inner (node sRed leaf s sRight)).toList.length ≤ fuel) :
    mem.unlinkNode fuel z =
      (((mem.setParentOf sRight.rootValue (parentOfPath (inner ++ ⟨.right, zRed, z, left⟩ :: path))).relink
          .left (parentOfPath (inner ++ ⟨.right, zRed, z, left⟩ :: path)) s sRight.rootValue).replace z s,
        parentOfPath (inner ++ ⟨.right, zRed, s, left⟩ :: path), sRight.rootValue, !sRed) := by
  have atZ : mem.Holds (plug path (RBTree.mk .left zRed left z (plug inner (node sRed leaf s sRight)))) := by
    simpa only [plug_append, plug_cons, Frame.fill, mk_right, mk_left] using holds
  obtain ⟨-, leftLink, rightLink, -⟩ := atZ.represents.links
  have spread := nodup_plug.mp atZ.distinct
  simp only [mk_left, toList_node, List.nodup_append, List.nodup_cons, List.mem_append,
    List.mem_cons] at spread
  have zOut : z ∉ (plug inner (node sRed leaf s sRight)).toList := by grind
  have sIn : s ∈ (plug inner (node sRed leaf s sRight)).toList := mem_plug.mpr (.inl (by simp))
  obtain ⟨r, rightRooted⟩ := Option.isSome_iff_exists.mp
    (rootValue_plug_isSome inner (rfl : (node sRed leaf s sRight).rootValue.isSome))
  obtain ⟨stores, -⟩ := (represents_plug _ _).mp atZ.represents
  obtain ⟨-, -, -, -, -, -, rightStores⟩ := stores_mk.mp stores
  have first : some (mem.descendLoop Side.right.flip fuel r) =
      ((plug inner (node sRed leaf s sRight)).toward .right).head? :=
    descendLoop_eq rightStores rightRooted enough
  simp only [RBTree.toward, toList_plug, noBefore, toList_node, toList_leaf, List.nil_append, List.cons_append,
    List.head?_cons, Option.some.injEq, Side.flip] at first
  obtain ⟨l, leftRooted⟩ := Option.isSome_iff_exists.mp leftNode
  have unlinked : mem.unlinkedNode fuel z = s := by
    have rightLink' : mem.right z = some r := by rw [← rightRooted]; exact rightLink
    have leftLink' : mem.left z = some l := by rw [← leftRooted]; exact leftLink
    rw [unlinkedNode, leftLink', rightLink']
    exact first
  have atS : mem.Holds (plug (inner ++ ⟨.right, zRed, z, left⟩ :: path) (RBTree.mk .right sRed sRight s leaf)) := holds
  obtain ⟨sIsRed, sRightLink, sLeftLink, sParent⟩ := atS.represents.links
  have sLeft : mem.left s = none := sLeftLink
  have sRightLink' : mem.right s = sRight.rootValue := sRightLink
  have notSelf : sRight.rootValue ≠ some s := fun rooted => by
    have sSpread := nodup_plug.mp atS.distinct
    simp only [mk_right, toList_node, toList_leaf, List.nil_append, List.nodup_append, List.nodup_cons] at sSpread
    exact sSpread.1.1 (mem_toList_of_rootValue rooted)
  have sz : s ≠ z := fun same => zOut (same ▸ sIn)
  have parentOfX : (if parentOfPath (inner ++ ⟨.right, zRed, z, left⟩ :: path) = some z then some s
      else parentOfPath (inner ++ ⟨.right, zRed, z, left⟩ :: path)) =
      parentOfPath (inner ++ ⟨.right, zRed, s, left⟩ :: path) := by
    cases inner with
    | nil => simp
    | cons frame rest =>
        have inRight : frame.value ∈ (plug (frame :: rest) (node sRed leaf s sRight)).toList :=
          mem_plug.mpr (.inr (by simp))
        have away : frame.value ≠ z := fun same => zOut (same ▸ inRight)
        simp [away]
  simp only [unlinkNode, unlinked, sLeft, sRightLink', Option.isSome_none, Bool.false_eq_true, if_false, sParent,
    parent_setParentOf, if_neg notSelf, isRed_relink, isRed_setParentOf, sIsRed, ne_eq, sz, not_false_eq_true,
    if_true, parentOfX]

theorem unlinkNode_spec (holds : mem.Holds (plug path (node zRed left z right)))
    (enough : right.toList.length ≤ fuel) :
    ∃ links, mem.unlinkNode fuel z = (links, parentOfPath (remove path (node zRed left z right)).1,
        (remove path (node zRed left z right)).2.1.rootValue, !(remove path (node zRed left z right)).2.2) ∧
      links.Holds (plug (remove path (node zRed left z right)).1 (remove path (node zRed left z right)).2.1) := by
  by_cases leftNode : left.rootValue.isSome
  · by_cases rightNode : right.rootValue.isSome
    · obtain ⟨inner, sRed, s, sRight, rfl, noBefore, removed⟩ :=
        @remove_successor _ path zRed left right z leftNode rightNode
      rw [removed]
      have atS : mem.Holds (plug (inner ++ ⟨.right, zRed, z, left⟩ :: path) (RBTree.mk .right sRed sRight s leaf)) := by
        simpa only [plug_append, plug_cons, Frame.fill, mk_right] using holds
      refine ⟨_, unlinkNode_of_successor atS leftNode noBefore enough, ?_⟩
      have fresh : s ∉ (plug path (node zRed left z (plug inner sRight))).toList := by
        have spread := nodup_plug.mp atS.distinct
        simp only [mk_right, toList_node, toList_leaf, List.nil_append, List.nodup_append, List.nodup_cons,
          List.mem_cons] at spread
        have outside : s ∉ (plug (inner ++ ⟨.right, zRed, z, left⟩ :: path) sRight).toList := by
          rw [mem_plug]
          grind
        simpa only [plug_append, plug_cons, Frame.fill, mk_right] using outside
      have spliced : _ := atS.splice
      simp only [plug_append, plug_cons, Frame.fill, mk_right] at spliced
      simpa only [plug_append, plug_cons, Frame.fill, mk_right] using spliced.replace fresh
    · obtain rfl := eq_leaf_of_not_isSome rightNode
      rw [remove_of_right_leaf leftNode]
      have atZ : mem.Holds (plug path (RBTree.mk .left zRed left z leaf)) := holds
      exact ⟨_, unlinkNode_of_leaf atZ, atZ.splice⟩
  · obtain rfl := eq_leaf_of_not_isSome leftNode
    rw [remove_of_left_leaf]
    have atZ : mem.Holds (plug path (RBTree.mk .right zRed right z leaf)) := holds
    exact ⟨_, unlinkNode_of_leaf atZ, atZ.splice⟩

theorem removeNode_spec {tree : RBTree Ptr} (holds : mem.Holds tree) (redBlack : tree.IsRedBlack)
    (member : z ∈ tree.toList) (enough : tree.toList.length < fuel) :
    ∃ mem' tree', mem.removeNode fuel z = some mem' ∧ mem'.Holds tree' ∧ tree'.IsRedBlack ∧
      ∃ front back, tree.toList = front ++ z :: back ∧ tree'.toList = front ++ back := by
  obtain ⟨path, zRed, left, right, rfl⟩ := exists_plug_of_mem member
  have split : (plug path (node zRed left z right)).toList =
      (before path ++ left.toList) ++ z :: (right.toList ++ after path) := by
    simp [toList_plug]
  have rightShort : right.toList.length ≤ fuel := by
    rw [split] at enough
    simp only [List.length_append, List.length_cons] at enough
    omega
  obtain ⟨links, unlinked, linksHolds⟩ := unlinkNode_spec holds rightShort
  have removedList : (plug (remove path (node zRed left z right)).1 (remove path (node zRed left z right)).2.1).toList =
      (before path ++ left.toList) ++ (right.toList ++ after path) := by
    rw [toList_remove]
    simp
  cases yWasRed : (remove path (node zRed left z right)).2.2 with
  | true =>
      refine ⟨links, _, ?_, linksHolds, (IsRedBlack.remove redBlack).2 yWasRed, _, _, split, removedList⟩
      simp [removeNode, unlinked, yWasRed]
  | false =>
      have short : (if (remove path (node zRed left z right)).2.1.rootRed then 0
          else (remove path (node zRed left z right)).1.length) < fuel := calc
        _ ≤ (remove path (node zRed left z right)).1.length := by split <;> omega
        _ ≤ (pathNodes (remove path (node zRed left z right)).1).length := length_le_pathNodes _
        _ ≤ (plug (remove path (node zRed left z right)).1 (remove path (node zRed left z right)).2.1).toList.length := by
          rw [length_toList_plug]
          omega
        _ < fuel := by
          rw [split] at enough
          rw [removedList]
          simp only [List.length_append, List.length_cons] at enough ⊢
          omega
      obtain ⟨fixed, whole, fixup, fixedHolds, wholeRedBlack, order⟩ :=
        repairDelete_spec linksHolds ((IsRedBlack.remove redBlack).1 yWasRed) short
      rw [removedList] at order
      exact ⟨fixed, whole, by simp [removeNode, unlinked, yWasRed, fixup], fixedHolds, wholeRedBlack, _, _, split, order⟩

end Unlink

end NvidiaGpu.LinkedTree.Mem
