import NvidiaGpu.Library.RedBlack

set_option autoImplicit false

/-! Binary trees with parent links laid out in memory: for every node its
colour bit and its parent, left and right pointers, `none` standing for `NULL`,
and beside them the root pointer.  `Represents mem tree` says the memory holds
exactly the shape and the colours of `tree`, a tree whose values are the node
pointers, with each child pointing back at its parent.  The lemmas read the
links of a position off the zipper around it, and say which writes leave a
representation alone. -/

namespace NvidiaGpu.LinkedTree

open RedBlack NvidiaGpu.RedBlack.RBTree

variable {Ptr : Type}

/-- The link fields of every node, and the root pointer. -/
structure Mem (Ptr : Type) where
  isRed : Ptr → Bool
  parent : Ptr → Option Ptr
  left : Ptr → Option Ptr
  right : Ptr → Option Ptr
  root : Option Ptr

namespace Mem

variable (mem : Mem Ptr)

def child : Side → Ptr → Option Ptr
  | .left => mem.left
  | .right => mem.right

def isRedAt : Option Ptr → Bool
  | some target => mem.isRed target
  | none => false

variable {mem} {target other : Ptr} {red : Bool} {link : Option Ptr} {side side' : Side}

@[simp] theorem isRedAt_some : mem.isRedAt (some target) = mem.isRed target := rfl

@[simp] theorem isRedAt_none : mem.isRedAt none = false := rfl

def ParentOf (mem : Mem Ptr) (target parent : Option Ptr) : Prop :=
  ∀ node ∈ target, mem.parent node = parent

/-- The memory holds the colours and the child links of `tree`, and every
child's parent link points back. -/
def Stores (mem : Mem Ptr) : RBTree Ptr → Prop
  | leaf => True
  | node red left value right =>
      mem.isRed value = red ∧ mem.left value = left.rootValue ∧ mem.right value = right.rootValue ∧
        mem.ParentOf left.rootValue (some value) ∧ mem.ParentOf right.rootValue (some value) ∧
        mem.Stores left ∧ mem.Stores right

/-- The memory holds the path of frames around a position whose subtree's root
is `hole`, up to the root pointer. -/
def StoresCtx (mem : Mem Ptr) : Option Ptr → List (Frame Ptr) → Prop
  | hole, [] => mem.root = hole ∧ mem.ParentOf hole none
  | hole, frame :: path =>
      mem.ParentOf hole (some frame.value) ∧ mem.isRed frame.value = frame.red ∧
        mem.child frame.side frame.value = hole ∧ mem.child frame.side.flip frame.value = frame.sibling.rootValue ∧
        mem.ParentOf frame.sibling.rootValue (some frame.value) ∧ mem.Stores frame.sibling ∧
        mem.StoresCtx (some frame.value) path

def Represents (mem : Mem Ptr) (tree : RBTree Ptr) : Prop :=
  mem.Stores tree ∧ mem.StoresCtx tree.rootValue []

def parentOfPath (path : List (Frame Ptr)) : Option Ptr :=
  path.head?.map Frame.value

@[simp] theorem parentOfPath_nil : parentOfPath ([] : List (Frame Ptr)) = none := rfl

@[simp] theorem parentOfPath_cons (frame : Frame Ptr) (path : List (Frame Ptr)) :
    parentOfPath (frame :: path) = some frame.value := rfl

theorem mem_pathNodes_of_parentOfPath {path : List (Frame Ptr)} :
    ∀ above ∈ parentOfPath path, above ∈ pathNodes path := by
  intro above pointed
  cases path with
  | nil => cases pointed
  | cons frame path =>
      cases pointed
      simp

theorem stores_mk {red : Bool} {near far : RBTree Ptr} {value : Ptr} :
    mem.Stores (RBTree.mk side red near value far) ↔
      mem.isRed value = red ∧ mem.child side value = near.rootValue ∧
        mem.child side.flip value = far.rootValue ∧ mem.ParentOf near.rootValue (some value) ∧
        mem.ParentOf far.rootValue (some value) ∧ mem.Stores near ∧ mem.Stores far := by
  cases side with
  | left => simp only [mk_left, Stores, child, Side.flip]
  | right =>
      simp only [mk_right, Stores, child, Side.flip]
      tauto

theorem represents_plug (path : List (Frame Ptr)) (tree : RBTree Ptr) :
    mem.Represents (plug path tree) ↔ mem.Stores tree ∧ mem.StoresCtx tree.rootValue path := by
  induction path generalizing tree with
  | nil => rfl
  | cons frame path ih =>
      rw [plug_cons, ih, Frame.rootValue_fill, Frame.fill, stores_mk]
      simp only [StoresCtx]
      tauto

theorem StoresCtx.parent_hole {hole : Ptr} {path : List (Frame Ptr)} (ctx : mem.StoresCtx (some hole) path) :
    mem.parent hole = parentOfPath path := by
  cases path with
  | nil => exact ctx.2 hole rfl
  | cons frame path => exact ctx.1 hole rfl

/-- The links of the target at a position, read off the tree around it. -/
theorem Represents.links {path : List (Frame Ptr)} {red : Bool} {near far : RBTree Ptr} {value : Ptr}
    (rep : mem.Represents (plug path (RBTree.mk side red near value far))) :
    mem.isRed value = red ∧ mem.child side value = near.rootValue ∧ mem.child side.flip value = far.rootValue ∧
      mem.parent value = parentOfPath path := by
  obtain ⟨stores, ctx⟩ := (represents_plug path _).mp rep
  obtain ⟨isRed, near, far, -⟩ := stores_mk.mp stores
  rw [rootValue_mk] at ctx
  exact ⟨isRed, near, far, ctx.parent_hole⟩

theorem Represents.root {tree : RBTree Ptr} (rep : mem.Represents tree) : mem.root = tree.rootValue :=
  rep.2.1

/-! ## Writes that leave a representation alone -/

def Agree (mem mem' : Mem Ptr) (target : Ptr) : Prop :=
  mem'.isRed target = mem.isRed target ∧ mem'.parent target = mem.parent target ∧
    mem'.left target = mem.left target ∧ mem'.right target = mem.right target

theorem Agree.child {mem mem' : Mem Ptr} (agree : Agree mem mem' target) (side : Side) :
    mem'.child side target = mem.child side target := by
  cases side
  · exact agree.2.2.1
  · exact agree.2.2.2

def descendants : RBTree Ptr → List Ptr
  | leaf => []
  | node _ left _ right => left.toList ++ right.toList

theorem mem_toList_of_mem_descendants {tree : RBTree Ptr} (below : target ∈ descendants tree) :
    target ∈ tree.toList := by
  cases tree with
  | leaf => cases below
  | node red left value right =>
      simp only [descendants, List.mem_append] at below
      simp only [toList_node, List.mem_append, List.mem_cons]
      tauto

theorem not_mem_descendants {tree : RBTree Ptr} (distinct : tree.toList.Nodup) {value : Ptr}
    (rooted : tree.rootValue = some value) : value ∉ descendants tree := by
  cases tree with
  | leaf => cases rooted
  | node red left root right =>
      cases rooted
      rw [toList_node, List.perm_middle.nodup_iff, List.nodup_cons] at distinct
      exact distinct.1

/-- Writes that change no colour or child link of the tree's nodes, and no
parent link below its root, leave it stored. -/
theorem Stores.frame {mem mem' : Mem Ptr} {tree : RBTree Ptr} (stores : mem.Stores tree)
    (links : ∀ target ∈ tree.toList,
      mem'.isRed target = mem.isRed target ∧ ∀ side, mem'.child side target = mem.child side target)
    (parents : ∀ target ∈ descendants tree, mem'.parent target = mem.parent target) : mem'.Stores tree := by
  induction tree with
  | leaf => trivial
  | node red left value right ihLeft ihRight =>
      obtain ⟨isRed, leftLink, rightLink, leftParent, rightParent, leftStores, rightStores⟩ := stores
      obtain ⟨sameRed, sameChild⟩ := links value (by simp)
      have inLeft : ∀ node ∈ left.toList, node ∈ (RBTree.node red left value right).toList := by simp_all
      have inRight : ∀ node ∈ right.toList, node ∈ (RBTree.node red left value right).toList := by simp_all
      have parentsLeft : ∀ target ∈ left.toList, mem'.parent target = mem.parent target :=
        fun target member => parents target (by simp [descendants, member])
      have parentsRight : ∀ target ∈ right.toList, mem'.parent target = mem.parent target :=
        fun target member => parents target (by simp [descendants, member])
      refine ⟨sameRed.trans isRed, (sameChild .left).trans leftLink, (sameChild .right).trans rightLink, ?_, ?_,
        ihLeft leftStores (fun target member => links target (inLeft target member))
          (fun target below => parentsLeft target (mem_toList_of_mem_descendants below)),
        ihRight rightStores (fun target member => links target (inRight target member))
          (fun target below => parentsRight target (mem_toList_of_mem_descendants below))⟩
      · intro target rooted
        rw [parentsLeft target (mem_toList_of_rootValue rooted), leftParent target rooted]
      · intro target rooted
        rw [parentsRight target (mem_toList_of_rootValue rooted), rightParent target rooted]

theorem Stores.agree {mem mem' : Mem Ptr} {tree : RBTree Ptr} (stores : mem.Stores tree)
    (agree : ∀ target ∈ tree.toList, Agree mem mem' target) : mem'.Stores tree :=
  stores.frame (fun target member => ⟨(agree target member).1, (agree target member).child⟩)
    (fun target below => (agree target (mem_toList_of_mem_descendants below)).2.1)

theorem StoresCtx.agree {mem mem' : Mem Ptr} {hole : Option Ptr} {path : List (Frame Ptr)}
    (ctx : mem.StoresCtx hole path) (agree : ∀ target ∈ pathNodes path, Agree mem mem' target)
    (sameRoot : mem'.root = mem.root) (holeParent : ∀ target ∈ hole, mem'.parent target = mem.parent target) :
    mem'.StoresCtx hole path := by
  induction path generalizing hole with
  | nil =>
      obtain ⟨root, parent⟩ := ctx
      exact ⟨sameRoot.trans root, fun target pointed => (holeParent target pointed).trans (parent target pointed)⟩
  | cons frame path ih =>
      obtain ⟨parent, isRed, near, far, siblingParent, siblingStores, rest⟩ := ctx
      have atValue := agree frame.value (by simp)
      have inSibling : ∀ target ∈ frame.sibling.toList, Agree mem mem' target :=
        fun target member => agree target (by simp [member])
      refine ⟨fun target pointed => (holeParent target pointed).trans (parent target pointed), atValue.1.trans isRed,
        (atValue.child _).trans near, (atValue.child _).trans far, ?_, siblingStores.agree inSibling,
        ih rest (fun target member => agree target (by simp [member])) (fun target pointed => ?_)⟩
      · intro target rooted
        have member : target ∈ frame.sibling.toList := by
          cases sibling : frame.sibling <;> simp_all [rootValue]
        rw [(inSibling target member).2.1, siblingParent target rooted]
      · cases pointed
        exact atValue.2.1

/-! ## Writes

The root pointer needs no comparison of pointers; the other writes update one
field at one pointer. -/

def setRoot (mem : Mem Ptr) (root : Option Ptr) : Mem Ptr :=
  { mem with root := root }

@[simp] theorem isRed_setRoot : (mem.setRoot link).isRed = mem.isRed := rfl

@[simp] theorem parent_setRoot : (mem.setRoot link).parent = mem.parent := rfl

@[simp] theorem child_setRoot : (mem.setRoot link).child = mem.child := rfl

@[simp] theorem root_setRoot : (mem.setRoot link).root = link := rfl

@[simp] theorem left_setRoot : (mem.setRoot link).left = mem.left := rfl

@[simp] theorem right_setRoot : (mem.setRoot link).right = mem.right := rfl

@[simp] theorem parentOf_setRoot {target' parent : Option Ptr} :
    (mem.setRoot link).ParentOf target' parent ↔ mem.ParentOf target' parent := Iff.rfl

section Writes

variable [DecidableEq Ptr]

def setRed (mem : Mem Ptr) (target : Ptr) (red : Bool) : Mem Ptr :=
  { mem with isRed := Function.update mem.isRed target red }

def setParent (mem : Mem Ptr) (target : Ptr) (parent : Option Ptr) : Mem Ptr :=
  { mem with parent := Function.update mem.parent target parent }

def setChild (mem : Mem Ptr) : Side → Ptr → Option Ptr → Mem Ptr
  | .left, target, child => { mem with left := Function.update mem.left target child }
  | .right, target, child => { mem with right := Function.update mem.right target child }

def setParentOf (mem : Mem Ptr) : Option Ptr → Option Ptr → Mem Ptr
  | some target, parent => mem.setParent target parent
  | none, _ => mem

/-- The link that held `old` pointed at `new`: in `old`'s parent, on `side` if
`old` hangs there and on the other side if not, or the root pointer when
`old` has no parent. -/
def relink (mem : Mem Ptr) (side : Side) (parent : Option Ptr) (old : Ptr) (new : Option Ptr) : Mem Ptr :=
  match parent with
  | some parent =>
      if mem.child side parent = some old then mem.setChild side parent new else mem.setChild side.flip parent new
  | none => mem.setRoot new

@[simp] theorem isRed_setRed : (mem.setRed target red).isRed other = if other = target then red else mem.isRed other := by
  simp [setRed, Function.update_apply]

@[simp] theorem parent_setRed : (mem.setRed target red).parent = mem.parent := rfl

@[simp] theorem child_setRed : (mem.setRed target red).child = mem.child := rfl

@[simp] theorem root_setRed : (mem.setRed target red).root = mem.root := rfl

@[simp] theorem isRed_setParent : (mem.setParent target link).isRed = mem.isRed := rfl

@[simp] theorem parent_setParent :
    (mem.setParent target link).parent other = if other = target then link else mem.parent other := by
  simp [setParent, Function.update_apply]

@[simp] theorem child_setParent : (mem.setParent target link).child = mem.child := rfl

@[simp] theorem root_setParent : (mem.setParent target link).root = mem.root := rfl

@[simp] theorem isRed_setChild : (mem.setChild side target link).isRed = mem.isRed := by
  cases side <;> rfl

@[simp] theorem parent_setChild : (mem.setChild side target link).parent = mem.parent := by
  cases side <;> rfl

@[simp] theorem child_setChild :
    (mem.setChild side target link).child side' other =
      if side' = side ∧ other = target then link else mem.child side' other := by
  cases side <;> cases side' <;> simp [setChild, child, Function.update_apply]

@[simp] theorem root_setChild : (mem.setChild side target link).root = mem.root := by
  cases side <;> rfl

@[simp] theorem isRed_setParentOf (target : Option Ptr) : (mem.setParentOf target link).isRed = mem.isRed := by
  cases target <;> rfl

@[simp] theorem child_setParentOf (target : Option Ptr) : (mem.setParentOf target link).child = mem.child := by
  cases target <;> rfl

@[simp] theorem root_setParentOf (target : Option Ptr) : (mem.setParentOf target link).root = mem.root := by
  cases target <;> rfl

theorem parent_setParentOf (target : Option Ptr) :
    (mem.setParentOf target link).parent other = if target = some other then link else mem.parent other := by
  cases target with
  | none => simp [setParentOf]
  | some target =>
      simp only [setParentOf, parent_setParent, Option.some.injEq]
      by_cases same : other = target
      · simp [same]
      · simp [same, Ne.symm same]

@[simp] theorem left_setRed : (mem.setRed target red).left = mem.left := rfl

@[simp] theorem right_setRed : (mem.setRed target red).right = mem.right := rfl

@[simp] theorem left_setParent : (mem.setParent target link).left = mem.left := rfl

@[simp] theorem right_setParent : (mem.setParent target link).right = mem.right := rfl

@[simp] theorem left_setChild :
    (mem.setChild side target link).left other = if side = .left ∧ other = target then link else mem.left other := by
  cases side <;> simp [setChild, Function.update_apply]

@[simp] theorem right_setChild :
    (mem.setChild side target link).right other = if side = .right ∧ other = target then link else mem.right other := by
  cases side <;> simp [setChild, Function.update_apply]

@[simp] theorem parentOf_setRed {target' parent : Option Ptr} :
    (mem.setRed target red).ParentOf target' parent ↔ mem.ParentOf target' parent := Iff.rfl

@[simp] theorem parentOf_setChild {target' parent : Option Ptr} :
    (mem.setChild side target link).ParentOf target' parent ↔ mem.ParentOf target' parent := by
  cases side <;> rfl

@[simp] theorem isRed_relink {parent new : Option Ptr} {old : Ptr} :
    (mem.relink side parent old new).isRed = mem.isRed := by
  unfold relink
  split
  · split <;> simp
  · simp

@[simp] theorem parent_relink {parent new : Option Ptr} {old : Ptr} :
    (mem.relink side parent old new).parent = mem.parent := by
  unfold relink
  split
  · split <;> simp
  · simp

theorem child_relink_of_ne {parent new : Option Ptr} {old : Ptr} (away : ∀ above ∈ parent, other ≠ above) :
    (mem.relink side parent old new).child side' other = mem.child side' other := by
  unfold relink
  split
  · rename_i above
    have different := away above rfl
    split <;> simp [different]
  · simp

/-! ## Recolouring -/

@[simp] theorem rootValue_recolor (target : Ptr) (red : Bool) (tree : RBTree Ptr) :
    (tree.recolor target red).rootValue = tree.rootValue := by
  cases tree <;> rfl

theorem Stores.setRed {tree : RBTree Ptr} (stores : mem.Stores tree) (target : Ptr) (red : Bool) :
    (mem.setRed target red).Stores (tree.recolor target red) := by
  induction tree with
  | leaf => trivial
  | node colour left value right ihLeft ihRight =>
      obtain ⟨isRed, leftLink, rightLink, leftParent, rightParent, leftStores, rightStores⟩ := stores
      refine ⟨?_, by simpa using leftLink, by simpa using rightLink, by simpa using leftParent,
        by simpa using rightParent, ihLeft leftStores, ihRight rightStores⟩
      simp [isRed]

theorem Represents.setRed {tree : RBTree Ptr} (rep : mem.Represents tree) (target : Ptr) (red : Bool) :
    (mem.setRed target red).Represents (tree.recolor target red) := by
  obtain ⟨stores, root, parent⟩ := rep
  exact ⟨stores.setRed target red, by simpa using root, by simpa using parent⟩

/-! ## Relinking a parent -/

theorem StoresCtx.relink {old : Ptr} {new : Option Ptr} {path : List (Frame Ptr)}
    (ctx : mem.StoresCtx (some old) path) (newParent : mem.ParentOf new (parentOfPath path))
    (distinct : (old :: pathNodes path).Nodup) :
    (mem.relink side (parentOfPath path) old new).StoresCtx new path := by
  cases path with
  | nil => exact ⟨rfl, newParent⟩
  | cons frame path =>
      obtain ⟨-, isRed, near, far, siblingParent, siblingStores, rest⟩ := ctx
      rw [pathNodes_cons] at distinct
      have notInSibling : old ∉ frame.sibling.toList := fun member =>
        (List.nodup_cons.mp distinct).1 (by simp [member])
      have valueNodup := (List.nodup_cons.mp distinct).2
      rw [List.cons_append, List.nodup_cons, List.mem_append, not_or] at valueNodup
      obtain ⟨⟨valueNotInSibling, notAbove⟩, -⟩ := valueNodup
      have written : mem.relink side (parentOfPath (frame :: path)) old new =
          mem.setChild frame.side frame.value new := by
        unfold Mem.relink
        dsimp only [parentOfPath_cons]
        by_cases sameSide : frame.side = side
        · rw [if_pos (sameSide ▸ near), sameSide]
        · have otherSide : frame.side = side.flip := Side.eq_flip_of_ne sameSide
          have siblingThere : mem.child side frame.value = frame.sibling.rootValue := by
            rw [← far, otherSide, Side.flip_flip]
          have notOld : mem.child side frame.value ≠ some old := by
            rw [siblingThere]
            intro rooted
            cases sibling : frame.sibling with
            | leaf => rw [sibling] at rooted; cases rooted
            | node => rw [sibling] at rooted notInSibling; simp_all [rootValue]
          rw [if_neg notOld, otherSide]
      rw [written]
      have away : ∀ node ∈ frame.sibling.toList ++ pathNodes path,
          Agree mem (mem.setChild frame.side frame.value new) node := by
        intro node member
        have different : node ≠ frame.value := by
          rintro rfl
          rcases List.mem_append.mp member with inSibling | above
          · exact valueNotInSibling inSibling
          · exact notAbove above
        exact ⟨by simp, by simp, by simp [different], by simp [different]⟩
      refine ⟨by simpa using newParent, by simpa using isRed, by simp, by simpa using far,
        by simpa using siblingParent,
        siblingStores.agree (fun node member => away node (List.mem_append_left _ member)),
        rest.agree (fun node member => away node (List.mem_append_right _ member)) (by simp) (by simp)⟩

end Writes

end Mem

end NvidiaGpu.LinkedTree
