import Mathlib.Data.List.Perm.Basic

set_option autoImplicit false

/-! Red-black trees as plain data: a colour and a value at every node.  A tree
is balanced at black height `h` when every path from the root down to a leaf
passes `h` black nodes, and red-free when no red node has a red child.  A
position in a tree is a zipper: the subtree there and the path of frames from
its parent up to the root.  The lemmas split the invariants of a whole tree
into those of the subtree at a position and of the path around it, so that a
local rewrite of the subtree keeps them.  Mirror-image cases are one case with
a `Side` parameter. -/

namespace NvidiaGpu.RedBlack

open scoped List

/-- Which child of its parent a node is. -/
inductive Side where
  | left
  | right
  deriving DecidableEq, Repr

namespace Side

def flip : Side → Side
  | left => right
  | right => left

@[simp] theorem flip_flip (side : Side) : side.flip.flip = side := by
  cases side <;> rfl

@[simp] theorem flip_ne (side : Side) : side.flip ≠ side := by
  cases side <;> decide

@[simp] theorem ne_flip (side : Side) : side ≠ side.flip := fun same => flip_ne side same.symm

theorem eq_flip_of_ne {side other : Side} (different : side ≠ other) : side = other.flip := by
  cases side <;> cases other <;> first | rfl | exact absurd rfl different

end Side

inductive RBTree (α : Type) where
  | leaf
  | node (red : Bool) (left : RBTree α) (value : α) (right : RBTree α)
  deriving DecidableEq, Repr

namespace RBTree

variable {α : Type}

def mk : Side → Bool → RBTree α → α → RBTree α → RBTree α
  | .left, red, near, value, far => node red near value far
  | .right, red, near, value, far => node red far value near

def child : Side → RBTree α → RBTree α
  | _, leaf => leaf
  | .left, node _ left _ _ => left
  | .right, node _ _ _ right => right

def toList : RBTree α → List α
  | leaf => []
  | node _ left value right => left.toList ++ value :: right.toList

def rootRed : RBTree α → Bool
  | leaf => false
  | node red _ _ _ => red

def rootValue : RBTree α → Option α
  | leaf => none
  | node _ _ value _ => some value

def paint (red : Bool) : RBTree α → RBTree α
  | leaf => leaf
  | node _ left value right => node red left value right

def recolor [DecidableEq α] (target : α) (red : Bool) : RBTree α → RBTree α
  | leaf => leaf
  | node colour left value right =>
      node (if value = target then red else colour) (left.recolor target red) value (right.recolor target red)

def RedFree : RBTree α → Prop
  | leaf => True
  | node red left _ right =>
      left.RedFree ∧ right.RedFree ∧ (red = true → left.rootRed = false ∧ right.rootRed = false)

def Balanced : RBTree α → Nat → Prop
  | leaf, height => height = 0
  | node red left _ right, height =>
      ∃ below, height = (if red then below else below + 1) ∧ left.Balanced below ∧ right.Balanced below

def IsRedBlack (tree : RBTree α) : Prop :=
  (∃ height, tree.Balanced height) ∧ tree.RedFree ∧ tree.rootRed = false

@[simp] theorem mk_left (red : Bool) (near : RBTree α) (value : α) (far : RBTree α) :
    mk .left red near value far = node red near value far := rfl

@[simp] theorem mk_right (red : Bool) (near : RBTree α) (value : α) (far : RBTree α) :
    mk .right red near value far = node red far value near := rfl

theorem mk_flip (side : Side) (red : Bool) (near : RBTree α) (value : α) (far : RBTree α) :
    mk side.flip red near value far = mk side red far value near := by
  cases side <;> rfl

@[simp] theorem toList_leaf : (leaf : RBTree α).toList = [] := rfl

@[simp] theorem toList_node (red : Bool) (left : RBTree α) (value : α) (right : RBTree α) :
    (node red left value right).toList = left.toList ++ value :: right.toList := rfl

@[simp] theorem rootValue_leaf : (leaf : RBTree α).rootValue = none := rfl

@[simp] theorem rootRed_leaf : (leaf : RBTree α).rootRed = false := rfl

@[simp] theorem rootRed_mk (side : Side) (red : Bool) (near : RBTree α) (value : α) (far : RBTree α) :
    (mk side red near value far).rootRed = red := by
  cases side <;> rfl

@[simp] theorem rootValue_mk (side : Side) (red : Bool) (near : RBTree α) (value : α) (far : RBTree α) :
    (mk side red near value far).rootValue = some value := by
  cases side <;> rfl

@[simp] theorem child_mk (side : Side) (red : Bool) (near : RBTree α) (value : α) (far : RBTree α) :
    (mk side red near value far).child side = near := by
  cases side <;> rfl

@[simp] theorem child_flip_mk (side : Side) (red : Bool) (near : RBTree α) (value : α) (far : RBTree α) :
    (mk side red near value far).child side.flip = far := by
  cases side <;> rfl

@[simp] theorem paint_mk (colour : Bool) (side : Side) (red : Bool) (near : RBTree α) (value : α)
    (far : RBTree α) : (mk side red near value far).paint colour = mk side colour near value far := by
  cases side <;> rfl

@[simp] theorem toList_paint (red : Bool) (tree : RBTree α) : (tree.paint red).toList = tree.toList := by
  cases tree <;> rfl

@[simp] theorem rootValue_paint (red : Bool) (tree : RBTree α) :
    (tree.paint red).rootValue = tree.rootValue := by
  cases tree <;> rfl

@[simp] theorem rootRed_paint_false (tree : RBTree α) : (tree.paint false).rootRed = false := by
  cases tree <;> rfl

theorem paint_of_black {tree : RBTree α} (black : tree.rootRed = false) : tree.paint false = tree := by
  cases tree with
  | leaf => rfl
  | node red left value right =>
      simp only [rootRed] at black
      rw [black]
      rfl

theorem eq_mk_of_rootValue {tree : RBTree α} {value : α} (side : Side) (rooted : tree.rootValue = some value) :
    tree = mk side tree.rootRed (tree.child side) value (tree.child side.flip) := by
  cases tree with
  | leaf => cases rooted
  | node red left root right =>
      cases rooted
      cases side <;> rfl

theorem toList_mk_perm (side : Side) (red : Bool) (near : RBTree α) (value : α) (far : RBTree α) :
    (mk side red near value far).toList.Perm (value :: near.toList ++ far.toList) := by
  cases side with
  | left => exact List.perm_middle
  | right =>
      calc (mk .right red near value far).toList = far.toList ++ value :: near.toList := rfl
        _ ~ value :: (far.toList ++ near.toList) := List.perm_middle
        _ ~ value :: (near.toList ++ far.toList) := (List.perm_append_comm).cons value

theorem mem_toList_of_rootValue {tree : RBTree α} {value : α} (rooted : tree.rootValue = some value) :
    value ∈ tree.toList := by
  cases tree with
  | leaf => cases rooted
  | node red left root right =>
      cases rooted
      simp

theorem toList_mk_congr {side : Side} {red red' : Bool} {near near' far far' : RBTree α} {value : α}
    (sameNear : near.toList = near'.toList) (sameFar : far.toList = far'.toList) :
    (mk side red near value far).toList = (mk side red' near' value far').toList := by
  cases side <;> simp [sameNear, sameFar]

theorem toList_rotate (side : Side) (red red' colour colour' : Bool) (first : RBTree α) (value : α)
    (middle : RBTree α) (other : α) (last : RBTree α) :
    (mk side red (mk side red' first value middle) other last).toList =
      (mk side colour first value (mk side colour' middle other last)).toList := by
  cases side <;> simp

theorem redFree_mk {side : Side} {red : Bool} {near : RBTree α} {value : α} {far : RBTree α} :
    (mk side red near value far).RedFree ↔
      near.RedFree ∧ far.RedFree ∧ (red = true → near.rootRed = false ∧ far.rootRed = false) := by
  cases side with
  | left => rfl
  | right =>
      simp only [mk_right, RedFree]
      tauto

theorem balanced_mk {side : Side} {red : Bool} {near : RBTree α} {value : α} {far : RBTree α} {height : Nat} :
    (mk side red near value far).Balanced height ↔
      ∃ below, height = (if red then below else below + 1) ∧ near.Balanced below ∧ far.Balanced below := by
  cases side with
  | left => rfl
  | right =>
      simp only [mk_right, Balanced]
      constructor <;> rintro ⟨below, rfl, first, second⟩ <;> exact ⟨below, rfl, second, first⟩

theorem Balanced.isSome_rootValue {tree : RBTree α} {height : Nat} (balanced : tree.Balanced (height + 1)) :
    tree.rootValue.isSome := by
  cases tree with
  | leaf => cases balanced
  | node => rfl

theorem Balanced.eq_leaf {tree : RBTree α} (balanced : tree.Balanced 0) (black : tree.rootRed = false) :
    tree = leaf := by
  cases tree with
  | leaf => rfl
  | node red left value right =>
      simp only [rootRed] at black
      subst black
      obtain ⟨below, same, -⟩ := balanced
      simp at same

theorem Balanced.paint_black {tree : RBTree α} {height : Nat} (balanced : tree.Balanced height)
    (red : tree.rootRed = true) : (tree.paint false).Balanced (height + 1) := by
  cases tree with
  | leaf => cases red
  | node colour left value right =>
      simp only [rootRed] at red
      subst red
      obtain ⟨below, same, balancedLeft, balancedRight⟩ := balanced
      exact ⟨below, by simp at same ⊢; omega, balancedLeft, balancedRight⟩

theorem RedFree.paint_black {tree : RBTree α} (redFree : tree.RedFree) : (tree.paint false).RedFree := by
  cases tree with
  | leaf => trivial
  | node red left value right =>
      obtain ⟨redFreeLeft, redFreeRight, -⟩ := redFree
      exact ⟨redFreeLeft, redFreeRight, (by cases ·)⟩

section Recolor

variable [DecidableEq α] {target : α} {red : Bool}

@[simp] theorem recolor_mk (side : Side) (colour : Bool) (near : RBTree α) (value : α) (far : RBTree α) :
    (mk side colour near value far).recolor target red =
      mk side (if value = target then red else colour) (near.recolor target red) value (far.recolor target red) := by
  cases side <;> rfl

@[simp] theorem recolor_leaf : (leaf : RBTree α).recolor target red = leaf := rfl

theorem recolor_of_not_mem {tree : RBTree α} (absent : target ∉ tree.toList) : tree.recolor target red = tree := by
  induction tree with
  | leaf => rfl
  | node colour left value right ihLeft ihRight =>
      simp only [toList_node, List.mem_append, List.mem_cons, not_or] at absent
      simp only [recolor, if_neg (Ne.symm absent.2.1), ihLeft absent.1, ihRight absent.2.2]

end Recolor

end RBTree

open NvidiaGpu.RedBlack.RBTree

/-- One step up from a position: the side of the parent it is on, the parent's
colour and value, and the parent's other child. -/
structure Frame (α : Type) where
  side : Side
  red : Bool
  value : α
  sibling : RBTree α
  deriving DecidableEq, Repr

namespace Frame

variable {α : Type}

def fill (frame : Frame α) (tree : RBTree α) : RBTree α :=
  RBTree.mk frame.side frame.red tree frame.value frame.sibling

def nodes (frame : Frame α) : List α :=
  frame.value :: frame.sibling.toList

def before (frame : Frame α) : List α :=
  match frame.side with
  | .left => []
  | .right => frame.sibling.toList ++ [frame.value]

def after (frame : Frame α) : List α :=
  match frame.side with
  | .left => frame.value :: frame.sibling.toList
  | .right => []

def recolor [DecidableEq α] (target : α) (red : Bool) (frame : Frame α) : Frame α :=
  { frame with
    red := if frame.value = target then red else frame.red
    sibling := frame.sibling.recolor target red }

@[simp] theorem rootRed_fill (frame : Frame α) (tree : RBTree α) : (frame.fill tree).rootRed = frame.red :=
  rootRed_mk _ _ _ _ _

@[simp] theorem rootValue_fill (frame : Frame α) (tree : RBTree α) :
    (frame.fill tree).rootValue = some frame.value :=
  rootValue_mk _ _ _ _ _

theorem toList_fill (frame : Frame α) (tree : RBTree α) :
    (frame.fill tree).toList = frame.before ++ tree.toList ++ frame.after := by
  rcases frame with ⟨side, red, value, sibling⟩
  cases side <;> simp [fill, before, after]

theorem recolor_fill [DecidableEq α] (target : α) (red : Bool) (frame : Frame α) (tree : RBTree α) :
    (frame.fill tree).recolor target red = (frame.recolor target red).fill (tree.recolor target red) :=
  recolor_mk _ _ _ _ _

theorem recolor_of_not_mem [DecidableEq α] {target : α} {red : Bool} {frame : Frame α}
    (absent : target ∉ frame.nodes) : frame.recolor target red = frame := by
  simp only [nodes, List.mem_cons, not_or] at absent
  simp only [recolor, if_neg (Ne.symm absent.1), RBTree.recolor_of_not_mem absent.2]

theorem before_append_after_perm (frame : Frame α) : (frame.before ++ frame.after).Perm frame.nodes := by
  rcases frame with ⟨side, red, value, sibling⟩
  cases side with
  | left => exact List.Perm.refl _
  | right =>
      simp only [before, after, nodes, List.append_nil]
      exact List.perm_append_singleton _ _

end Frame

variable {α : Type}

def plug : List (Frame α) → RBTree α → RBTree α
  | [], tree => tree
  | frame :: path, tree => plug path (frame.fill tree)

@[simp] theorem plug_nil (tree : RBTree α) : plug [] tree = tree := rfl

@[simp] theorem plug_cons (frame : Frame α) (path : List (Frame α)) (tree : RBTree α) :
    plug (frame :: path) tree = plug path (frame.fill tree) := rfl

theorem plug_append (inner outer : List (Frame α)) (tree : RBTree α) :
    plug (inner ++ outer) tree = plug outer (plug inner tree) := by
  induction inner generalizing tree with
  | nil => rfl
  | cons frame inner ih => exact ih (frame.fill tree)

def pathNodes (path : List (Frame α)) : List α :=
  path.flatMap Frame.nodes

@[simp] theorem pathNodes_nil : pathNodes ([] : List (Frame α)) = [] := rfl

@[simp] theorem pathNodes_cons (frame : Frame α) (path : List (Frame α)) :
    pathNodes (frame :: path) = frame.value :: frame.sibling.toList ++ pathNodes path := rfl

def before : List (Frame α) → List α
  | [] => []
  | frame :: path => before path ++ frame.before

def after : List (Frame α) → List α
  | [] => []
  | frame :: path => frame.after ++ after path

theorem before_append (inner outer : List (Frame α)) : before (inner ++ outer) = before outer ++ before inner := by
  induction inner with
  | nil => simp [before]
  | cons frame inner ih => simp [before, ih]

theorem after_append (inner outer : List (Frame α)) : after (inner ++ outer) = after inner ++ after outer := by
  induction inner with
  | nil => simp [after]
  | cons frame inner ih => simp [after, ih]

theorem toList_plug (path : List (Frame α)) (tree : RBTree α) :
    (plug path tree).toList = before path ++ tree.toList ++ after path := by
  induction path generalizing tree with
  | nil => simp [before, after]
  | cons frame path ih => simp [ih, Frame.toList_fill, before, after]

theorem before_append_after_perm (path : List (Frame α)) : (before path ++ after path).Perm (pathNodes path) := by
  induction path with
  | nil => exact List.Perm.refl _
  | cons frame path ih =>
      simp only [before, after, pathNodes_cons]
      calc before path ++ frame.before ++ (frame.after ++ after path)
          = before path ++ (frame.before ++ frame.after ++ after path) := by simp only [List.append_assoc]
        _ ~ frame.before ++ frame.after ++ after path ++ before path := List.perm_append_comm
        _ = (frame.before ++ frame.after) ++ (after path ++ before path) := by simp only [List.append_assoc]
        _ ~ (frame.before ++ frame.after) ++ (before path ++ after path) := List.perm_append_comm.append_left _
        _ ~ frame.nodes ++ pathNodes path := frame.before_append_after_perm.append ih

theorem toList_plug_perm (path : List (Frame α)) (tree : RBTree α) :
    (plug path tree).toList.Perm (tree.toList ++ pathNodes path) := by
  rw [toList_plug]
  calc before path ++ tree.toList ++ after path
      = before path ++ (tree.toList ++ after path) := List.append_assoc _ _ _
    _ ~ tree.toList ++ after path ++ before path := List.perm_append_comm
    _ = tree.toList ++ (after path ++ before path) := List.append_assoc _ _ _
    _ ~ tree.toList ++ (before path ++ after path) := List.perm_append_comm.append_left _
    _ ~ tree.toList ++ pathNodes path := (before_append_after_perm path).append_left _

theorem mem_plug {path : List (Frame α)} {tree : RBTree α} {value : α} :
    value ∈ (plug path tree).toList ↔ value ∈ tree.toList ∨ value ∈ pathNodes path := by
  rw [(toList_plug_perm path tree).mem_iff, List.mem_append]

theorem nodup_plug {path : List (Frame α)} {tree : RBTree α} :
    (plug path tree).toList.Nodup ↔ (tree.toList ++ pathNodes path).Nodup :=
  (toList_plug_perm path tree).nodup_iff

theorem length_toList_plug (path : List (Frame α)) (tree : RBTree α) :
    (plug path tree).toList.length = tree.toList.length + (pathNodes path).length := by
  rw [(toList_plug_perm path tree).length_eq, List.length_append]

theorem length_le_pathNodes (path : List (Frame α)) : path.length ≤ (pathNodes path).length := by
  induction path with
  | nil => exact Nat.le_refl 0
  | cons frame path ih =>
      simp only [List.length_cons, pathNodes_cons, List.length_append]
      omega

theorem exists_plug_of_mem {tree : RBTree α} {value : α} (mem : value ∈ tree.toList) :
    ∃ path red left right, tree = plug path (node red left value right) := by
  induction tree with
  | leaf => simp [toList] at mem
  | node red left top right ihLeft ihRight =>
      rw [toList, List.mem_append, List.mem_cons] at mem
      rcases mem with inLeft | here | inRight
      · obtain ⟨path, red', left', right', rfl⟩ := ihLeft inLeft
        exact ⟨path ++ [⟨.left, red, top, right⟩], red', left', right', by rw [plug_append]; rfl⟩
      · subst here
        exact ⟨[], red, left, right, rfl⟩
      · obtain ⟨path, red', left', right', rfl⟩ := ihRight inRight
        exact ⟨path ++ [⟨.right, red, top, left⟩], red', left', right', by rw [plug_append]; rfl⟩

theorem plug_recolor [DecidableEq α] (target : α) (red : Bool) (path : List (Frame α)) (tree : RBTree α) :
    (plug path tree).recolor target red = plug (path.map (Frame.recolor target red)) (tree.recolor target red) := by
  induction path generalizing tree with
  | nil => rfl
  | cons frame path ih => simp [ih, Frame.recolor_fill]

/-- Around a position whose subtree has a root of colour `holeRed`: every
sibling is red-free, and no red parent has a red child. -/
def CtxRed : List (Frame α) → Bool → Prop
  | [], _ => True
  | frame :: path, holeRed =>
      frame.sibling.RedFree ∧
        (frame.red = true → holeRed = false ∧ frame.sibling.rootRed = false) ∧
        CtxRed path frame.red

/-- Around a position whose subtree has black height `height`, the whole tree
has black height `total`. -/
def CtxBalanced : List (Frame α) → Nat → Nat → Prop
  | [], height, total => height = total
  | frame :: path, height, total =>
      frame.sibling.Balanced height ∧
        CtxBalanced path (if frame.red then height else height + 1) total

def TopBlack : List (Frame α) → Prop
  | [] => True
  | [frame] => frame.red = false
  | _ :: path => TopBlack path

theorem TopBlack.tail {frame : Frame α} {path : List (Frame α)} (topBlack : TopBlack (frame :: path)) :
    TopBlack path := by
  cases path with
  | nil => trivial
  | cons => exact topBlack

theorem CtxRed.black {path : List (Frame α)} {holeRed : Bool} (ctx : CtxRed path holeRed) : CtxRed path false := by
  cases path with
  | nil => trivial
  | cons frame path =>
      obtain ⟨siblingFree, redParent, rest⟩ := ctx
      exact ⟨siblingFree, fun red => ⟨rfl, (redParent red).2⟩, rest⟩

theorem TopBlack.cons {frame : Frame α} {path : List (Frame α)} (topBlack : TopBlack path)
    (black : frame.red = false) : TopBlack (frame :: path) := by
  cases path with
  | nil => exact black
  | cons => exact topBlack

theorem rootRed_plug {path : List (Frame α)} (topBlack : TopBlack path) (nonempty : path ≠ []) (tree : RBTree α) :
    (plug path tree).rootRed = false := by
  induction path generalizing tree with
  | nil => exact absurd rfl nonempty
  | cons frame path ih =>
      cases path with
      | nil => exact Frame.rootRed_fill frame tree ▸ topBlack
      | cons next rest => exact ih topBlack (List.cons_ne_nil _ _) (frame.fill tree)

theorem topBlack_of_rootRed {path : List (Frame α)} {tree : RBTree α} (black : (plug path tree).rootRed = false) :
    TopBlack path := by
  induction path generalizing tree with
  | nil => trivial
  | cons frame path ih =>
      cases path with
      | nil =>
          rw [plug_cons, plug_nil, Frame.rootRed_fill] at black
          exact black
      | cons next rest => exact @ih (frame.fill tree) black

theorem redFree_fill (frame : Frame α) (tree : RBTree α) :
    (frame.fill tree).RedFree ↔
      tree.RedFree ∧ frame.sibling.RedFree ∧
        (frame.red = true → tree.rootRed = false ∧ frame.sibling.rootRed = false) :=
  redFree_mk

theorem redFree_plug (path : List (Frame α)) (tree : RBTree α) :
    (plug path tree).RedFree ↔ tree.RedFree ∧ CtxRed path tree.rootRed := by
  induction path generalizing tree with
  | nil => simp [CtxRed]
  | cons frame path ih =>
      rw [plug_cons, ih, redFree_fill, Frame.rootRed_fill, CtxRed]
      tauto

theorem balanced_plug (path : List (Frame α)) (tree : RBTree α) (total : Nat) :
    (plug path tree).Balanced total ↔ ∃ height, tree.Balanced height ∧ CtxBalanced path height total := by
  induction path generalizing tree with
  | nil => simp [CtxBalanced]
  | cons frame path ih =>
      rw [plug_cons, ih]
      constructor
      · rintro ⟨height, filled, around⟩
        obtain ⟨below, rfl, balancedTree, balancedSibling⟩ := balanced_mk.mp filled
        exact ⟨below, balancedTree, balancedSibling, around⟩
      · rintro ⟨height, balancedTree, balancedSibling, around⟩
        exact ⟨_, balanced_mk.mpr ⟨height, rfl, balancedTree, balancedSibling⟩, around⟩

def Frame.shape (frame : Frame α) : Bool × RBTree α :=
  (frame.red, frame.sibling)

section Shape

variable {path other : List (Frame α)} (same : path.map Frame.shape = other.map Frame.shape)
include same

theorem ctxRed_congr (holeRed : Bool) : CtxRed path holeRed ↔ CtxRed other holeRed := by
  induction path generalizing other holeRed with
  | nil => cases other with
    | nil => rfl
    | cons => cases same
  | cons frame path ih =>
      cases other with
      | nil => cases same
      | cons frame' other =>
          simp only [List.map_cons, List.cons.injEq, Frame.shape, Prod.mk.injEq] at same
          obtain ⟨⟨sameRed, sameSibling⟩, sameRest⟩ := same
          simp only [CtxRed, sameRed, sameSibling, ih sameRest]

theorem ctxBalanced_congr (height total : Nat) : CtxBalanced path height total ↔ CtxBalanced other height total := by
  induction path generalizing other height with
  | nil => cases other with
    | nil => rfl
    | cons => cases same
  | cons frame path ih =>
      cases other with
      | nil => cases same
      | cons frame' other =>
          simp only [List.map_cons, List.cons.injEq, Frame.shape, Prod.mk.injEq] at same
          obtain ⟨⟨sameRed, sameSibling⟩, sameRest⟩ := same
          simp only [CtxBalanced, sameRed, sameSibling, ih sameRest]

theorem topBlack_congr : TopBlack path ↔ TopBlack other := by
  induction path generalizing other with
  | nil => cases other with
    | nil => rfl
    | cons => cases same
  | cons frame path ih =>
      cases other with
      | nil => cases same
      | cons frame' other =>
          simp only [List.map_cons, List.cons.injEq, Frame.shape, Prod.mk.injEq] at same
          obtain ⟨⟨sameRed, -⟩, sameRest⟩ := same
          cases path with
          | nil =>
              cases other with
              | nil =>
                  show frame.red = false ↔ frame'.red = false
                  rw [sameRed]
              | cons => cases sameRest
          | cons next path =>
              cases other with
              | nil => cases sameRest
              | cons next' other =>
                  have tail := ih sameRest
                  exact tail

theorem rootRed_plug_congr {tree tree' : RBTree α} (sameRed : tree.rootRed = tree'.rootRed) :
    (plug path tree).rootRed = (plug other tree').rootRed := by
  induction path generalizing other tree tree' with
  | nil => cases other with
    | nil => exact sameRed
    | cons => cases same
  | cons frame path ih =>
      cases other with
      | nil => cases same
      | cons frame' other =>
          simp only [List.map_cons, List.cons.injEq, Frame.shape, Prod.mk.injEq] at same
          obtain ⟨⟨sameFrameRed, -⟩, sameRest⟩ := same
          exact ih sameRest (by simp [sameFrameRed])

theorem isRedBlack_plug_congr (tree : RBTree α) : (plug path tree).IsRedBlack ↔ (plug other tree).IsRedBlack := by
  simp only [IsRedBlack, balanced_plug, redFree_plug, ctxBalanced_congr same, ctxRed_congr same,
    rootRed_plug_congr same rfl]

end Shape

end NvidiaGpu.RedBlack
