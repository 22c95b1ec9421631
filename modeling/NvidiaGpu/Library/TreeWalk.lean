import NvidiaGpu.Library.LinkedTreeUpdate

set_option autoImplicit false

/-! Reading a tree toward one side: in order toward the right, in reverse
toward the left.  Read that way, a tree around a position is what lies before
the position on the path, the subtree there, and what lies after it on the
path; and the first node of a subtree is the one the pointer walk down its
other side stops at. -/

namespace NvidiaGpu.RedBlack

variable {α : Type}

/-- The values of a tree read toward `side`: in order toward `.right`, in
reverse toward `.left`. -/
def RBTree.toward : Side → RBTree α → List α
  | .right, tree => tree.toList
  | .left, tree => tree.toList.reverse

namespace RBTree

@[simp] theorem toward_leaf (side : Side) : (leaf : RBTree α).toward side = [] := by
  cases side <;> rfl

theorem toward_mk_flip (side : Side) (red : Bool) (near : RBTree α) (value : α) (far : RBTree α) :
    (mk side.flip red near value far).toward side = near.toward side ++ value :: far.toward side := by
  cases side <;> simp [toward, mk, Side.flip]

theorem toward_mk (side : Side) (red : Bool) (near : RBTree α) (value : α) (far : RBTree α) :
    (mk side red near value far).toward side = far.toward side ++ value :: near.toward side := by
  cases side <;> simp [toward, mk]

theorem toward_eq_nil_iff {side : Side} {tree : RBTree α} : tree.toward side = [] ↔ tree.rootValue = none := by
  cases tree with
  | leaf => simp
  | node red left value right => cases side <;> simp [toward, toList, rootValue]

theorem length_child_le (side : Side) (tree : RBTree α) : (tree.child side).toList.length ≤ tree.toList.length := by
  cases tree with
  | leaf => exact Nat.le_refl 0
  | node red left value right => cases side <;> simp only [child, toList, List.length_append, List.length_cons] <;> omega

end RBTree

def towardBefore (side : Side) : List (Frame α) → List α
  | [] => []
  | frame :: path => towardBefore side path ++ if frame.side = side then frame.sibling.toward side ++ [frame.value] else []

def towardAfter (side : Side) : List (Frame α) → List α
  | [] => []
  | frame :: path => (if frame.side = side then [] else frame.value :: frame.sibling.toward side) ++ towardAfter side path

@[simp] theorem towardAfter_nil (side : Side) : towardAfter side ([] : List (Frame α)) = [] := rfl

theorem toward_plug (side : Side) (path : List (Frame α)) (tree : RBTree α) :
    (plug path tree).toward side = towardBefore side path ++ tree.toward side ++ towardAfter side path := by
  induction path generalizing tree with
  | nil => simp [towardBefore]
  | cons frame path ih =>
      rcases frame with ⟨frameSide, red, value, sibling⟩
      rw [plug_cons, ih, Frame.fill]
      by_cases same : frameSide = side
      · subst same
        simp [RBTree.toward_mk, towardBefore, towardAfter]
      · obtain rfl := Side.eq_flip_of_ne same
        simp [RBTree.toward_mk_flip, towardBefore, towardAfter]

end NvidiaGpu.RedBlack

namespace NvidiaGpu.LinkedTree.Mem

open RedBlack NvidiaGpu.RedBlack.RBTree

variable {Ptr : Type} {mem : Mem Ptr}

/-- `while (current->child[side] != NULL) current = current->child[side]`, for
at most `fuel` steps. -/
def descendLoop (mem : Mem Ptr) (side : Side) : Nat → Ptr → Ptr
  | 0, current => current
  | fuel + 1, current =>
      match mem.child side current with
      | some next => descendLoop mem side fuel next
      | none => current

theorem descendLoop_eq {side : Side} {tree : RBTree Ptr} (stores : mem.Stores tree) {current : Ptr}
    (rooted : tree.rootValue = some current) {fuel : Nat} (enough : tree.toList.length ≤ fuel) :
    some (mem.descendLoop side.flip fuel current) = (tree.toward side).head? := by
  induction tree generalizing current fuel with
  | leaf => cases rooted
  | node red left value right ihLeft ihRight =>
      obtain rfl : value = current := Option.some.inj rooted
      have shape := eq_mk_of_rootValue side.flip rooted
      rw [shape] at stores enough
      rw [shape]
      obtain ⟨-, nearLink, -, -, -, nearStores, -⟩ := stores_mk.mp stores
      have ihNear : mem.Stores ((node red left value right).child side.flip) → ∀ {current : Ptr},
          ((node red left value right).child side.flip).rootValue = some current → ∀ {fuel : Nat},
          ((node red left value right).child side.flip).toList.length ≤ fuel →
          some (mem.descendLoop side.flip fuel current) =
            (((node red left value right).child side.flip).toward side).head? := by
        cases side with
        | left => exact ihRight
        | right => exact ihLeft
      rw [toward_mk_flip]
      obtain ⟨rest, rfl⟩ : ∃ rest, fuel = rest + 1 := ⟨fuel - 1, by
        simp only [(toList_mk_perm _ _ _ _ _).length_eq, List.length_append, List.length_cons] at enough
        omega⟩
      have nearShort : ((node red left value right).child side.flip).toList.length ≤ rest := by
        simp only [(toList_mk_perm _ _ _ _ _).length_eq, List.length_append, List.length_cons] at enough
        omega
      rw [descendLoop, nearLink]
      cases nearRooted : ((node red left value right).child side.flip).rootValue with
      | none =>
          rw [toward_eq_nil_iff.mpr nearRooted]
          rfl
      | some next =>
          rw [ihNear nearStores nearRooted nearShort, List.head?_append]
          obtain ⟨first, rest', split⟩ := List.exists_cons_of_ne_nil
            (fun empty => Option.some_ne_none next (nearRooted.symm.trans (toward_eq_nil_iff.mp empty)))
          rw [split]
          rfl

end NvidiaGpu.LinkedTree.Mem
