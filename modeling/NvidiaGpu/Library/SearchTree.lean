import Mathlib.Data.Tree.Basic
import Mathlib.Data.List.Nodup
import Mathlib.Data.List.Perm.Basic

set_option autoImplicit false

/-! A search walk down a binary tree whose in-order sequence is split by a
direction function: every node either lies wholly left of the target or the
target lies wholly left of every later node.  A walk that stops at a leaf has
passed the last node left of the target or the first node right of it, so the
last node visited is an in-order neighbour of the target.  The tree's shape is
arbitrary; only its in-order sequence matters. -/

namespace NvidiaGpu.SearchTree

variable {α : Type}

def inorder : BinaryTree α → List α
  | .nil => []
  | .node key left right => inorder left ++ key :: inorder right

@[simp] theorem inorder_nil : inorder (.nil : BinaryTree α) = [] := rfl

@[simp] theorem inorder_node (key : α) (left right : BinaryTree α) :
    inorder (.node key left right) = inorder left ++ key :: inorder right := rfl

/-- The walk: `.lt` descends left, `.gt` descends right, `.eq` stops on the
node.  The second component is the last node left behind, as a C loop keeps it
in a separate parent variable. -/
def descend (dir : α → Ordering) : Option α → BinaryTree α → Option α × Option α
  | parent, .nil => (none, parent)
  | parent, .node key left right =>
      match dir key with
      | .lt => descend dir (some key) left
      | .gt => descend dir (some key) right
      | .eq => (some key, parent)

/-- `Before dir a b`: for a node `a` in front of a node `b`, the target is
right of `a` or left of `b`. -/
def Before (dir : α → Ordering) (first second : α) : Prop :=
  dir first = .gt ∨ dir second = .lt

theorem descend_found {dir : α → Ordering} {parent last : Option α}
    {tree : BinaryTree α} {node : α}
    (walk : descend dir parent tree = (some node, last)) :
    node ∈ inorder tree ∧ dir node = .eq := by
  induction tree generalizing parent with
  | nil => cases walk
  | node key left right ihLeft ihRight =>
      unfold descend at walk
      split at walk
      · obtain ⟨present, direction⟩ := ihLeft walk
        exact ⟨by simp [present], direction⟩
      · obtain ⟨present, direction⟩ := ihRight walk
        exact ⟨by simp [present], direction⟩
      · rename_i atKey
        simp only [Prod.mk.injEq, Option.some.injEq] at walk
        obtain ⟨rfl, -⟩ := walk
        exact ⟨by simp, atKey⟩

theorem descend_missing {dir : α → Ordering} {parent last : Option α}
    {tree : BinaryTree α} (ordered : (inorder tree).Pairwise (Before dir))
    (walk : descend dir parent tree = (none, last)) :
    ∃ pre post, inorder tree = pre ++ post ∧ (∀ node ∈ pre, dir node = .gt) ∧
      (∀ node ∈ post, dir node = .lt) ∧
      ((tree = .nil ∧ last = parent) ∨
        ∃ node, last = some node ∧
          ((∃ front, pre = front ++ [node]) ∨ ∃ back, post = node :: back)) := by
  induction tree generalizing parent with
  | nil =>
      simp only [descend, Prod.mk.injEq, true_and] at walk
      exact ⟨[], [], by simp, by simp, by simp, .inl ⟨rfl, walk.symm⟩⟩
  | node key left right ihLeft ihRight =>
      rw [inorder_node, List.pairwise_append, List.pairwise_cons] at ordered
      obtain ⟨orderedLeft, ⟨keyFirst, orderedRight⟩, leftFirst⟩ := ordered
      unfold descend at walk
      split at walk
      · rename_i keyLeft
        obtain ⟨pre, post, split, preRight, postLeft, boundary⟩ := ihLeft orderedLeft walk
        have rightLeft : ∀ node ∈ inorder right, dir node = .lt := by
          intro node member
          rcases keyFirst node member with keyRight | nodeLeft
          · rw [keyLeft] at keyRight; cases keyRight
          · exact nodeLeft
        refine ⟨pre, post ++ key :: inorder right, by simp [split], preRight, ?_, ?_⟩
        · intro node member
          rcases List.mem_append.mp member with inPost | inTail
          · exact postLeft node inPost
          · rcases List.mem_cons.mp inTail with rfl | inRight
            · exact keyLeft
            · exact rightLeft node inRight
        · refine .inr ?_
          rcases boundary with ⟨rfl, rfl⟩ | ⟨node, rfl, atEnd | atStart⟩
          · have preEmpty : pre = [] := by simpa using (List.append_eq_nil_iff.mp split.symm).1
            have postEmpty : post = [] := by simpa using (List.append_eq_nil_iff.mp split.symm).2
            subst preEmpty postEmpty
            exact ⟨key, rfl, .inr ⟨inorder right, rfl⟩⟩
          · exact ⟨node, rfl, .inl atEnd⟩
          · obtain ⟨back, rfl⟩ := atStart
            exact ⟨node, rfl, .inr ⟨back ++ key :: inorder right, rfl⟩⟩
      · rename_i keyRight
        obtain ⟨pre, post, split, preRight, postLeft, boundary⟩ := ihRight orderedRight walk
        have leftRight : ∀ node ∈ inorder left, dir node = .gt := by
          intro node member
          rcases leftFirst node member key (List.mem_cons_self) with nodeRight | keyLeft
          · exact nodeRight
          · rw [keyRight] at keyLeft; cases keyLeft
        refine ⟨inorder left ++ key :: pre, post, by simp [split], ?_, postLeft, ?_⟩
        · intro node member
          rcases List.mem_append.mp member with inLeft | inTail
          · exact leftRight node inLeft
          · rcases List.mem_cons.mp inTail with rfl | inPre
            · exact keyRight
            · exact preRight node inPre
        · refine .inr ?_
          rcases boundary with ⟨rfl, rfl⟩ | ⟨node, rfl, atEnd | atStart⟩
          · have preEmpty : pre = [] := by simpa using (List.append_eq_nil_iff.mp split.symm).1
            subst preEmpty
            exact ⟨key, rfl, .inl ⟨inorder left, by simp⟩⟩
          · obtain ⟨front, rfl⟩ := atEnd
            exact ⟨node, rfl, .inl ⟨inorder left ++ key :: front, by simp⟩⟩
          · exact ⟨node, rfl, .inr atStart⟩
      · cases walk

/-! ### An unbalanced search tree

Plain insertion by a numeric key and removal of a given entry.  Balancing
rotations change the shape but not the in-order sequence, so for the facts
below this tree stands for any correct search tree. -/

def insertBy (key : α → Nat) (entry : α) : BinaryTree α → BinaryTree α
  | .nil => .node entry .nil .nil
  | .node current left right =>
      if key entry < key current then .node current (insertBy key entry left) right
      else .node current left (insertBy key entry right)

def join : BinaryTree α → BinaryTree α → BinaryTree α
  | .nil, right => right
  | .node key left middle, right => .node key left (join middle right)

def eraseEntry [DecidableEq α] (entry : α) : BinaryTree α → BinaryTree α
  | .nil => .nil
  | .node key left right =>
      if entry ∈ inorder left then .node key (eraseEntry entry left) right
      else if key = entry then join left right
      else .node key left (eraseEntry entry right)

theorem inorder_join (left right : BinaryTree α) :
    inorder (join left right) = inorder left ++ inorder right := by
  induction left with
  | nil => rfl
  | node key left middle _ ihMiddle => simp [join, ihMiddle]

theorem inorder_eraseEntry [DecidableEq α] (entry : α) (tree : BinaryTree α) :
    inorder (eraseEntry entry tree) = (inorder tree).erase entry := by
  induction tree with
  | nil => rfl
  | node key left right ihLeft ihRight =>
      by_cases inLeft : entry ∈ inorder left
      · simp [eraseEntry, inLeft, ihLeft, List.erase_append_left _ inLeft]
      · by_cases atKey : key = entry
        · subst atKey
          simp [eraseEntry, inLeft, inorder_join, List.erase_append_right _ inLeft]
        · have notEntry : ¬(key == entry) := by simpa using atKey
          simp [eraseEntry, inLeft, atKey, ihRight, List.erase_append_right _ inLeft,
            List.erase_cons_tail notEntry]

theorem inorder_insertBy_perm (key : α → Nat) (entry : α) (tree : BinaryTree α) :
    (inorder (insertBy key entry tree)).Perm (entry :: inorder tree) := by
  induction tree with
  | nil => exact List.Perm.refl _
  | node current left right ihLeft ihRight =>
      unfold insertBy
      split
      · simpa using ihLeft.append_right (current :: inorder right)
      · have inRight := (ihRight.cons current).append_left (inorder left)
        have middle : ((inorder left ++ [current]) ++ entry :: inorder right).Perm
            (entry :: ((inorder left ++ [current]) ++ inorder right)) := List.perm_middle
        simpa using inRight.trans (by simpa using middle)

theorem inorder_insertBy_sorted (key : α → Nat) (entry : α) (tree : BinaryTree α)
    (sorted : (inorder tree).Pairwise (key · < key ·))
    (fresh : ∀ other ∈ inorder tree, key other ≠ key entry) :
    (inorder (insertBy key entry tree)).Pairwise (key · < key ·) := by
  induction tree with
  | nil => simp [insertBy]
  | node current left right ihLeft ihRight =>
      rw [inorder_node, List.pairwise_append, List.pairwise_cons] at sorted
      obtain ⟨sortedLeft, ⟨currentFirst, sortedRight⟩, leftFirst⟩ := sorted
      have freshCurrent : key current ≠ key entry := fresh current (by simp)
      unfold insertBy
      split
      · rename_i entryLeft
        have members : ∀ other, other ∈ inorder (insertBy key entry left) ↔
            other ∈ entry :: inorder left := fun _ => (inorder_insertBy_perm key entry left).mem_iff
        rw [inorder_node, List.pairwise_append, List.pairwise_cons]
        refine ⟨ihLeft sortedLeft (fun other member => fresh other (by simp [member])),
          ⟨currentFirst, sortedRight⟩, ?_⟩
        intro other member
        rcases List.mem_cons.mp ((members other).mp member) with rfl | inLeft
        · intro later laterMember
          rcases List.mem_cons.mp laterMember with rfl | inRight
          · exact entryLeft
          · exact Nat.lt_trans entryLeft (currentFirst later inRight)
        · exact leftFirst other inLeft
      · rename_i entryRight
        have currentEntry : key current < key entry := by omega
        have members : ∀ other, other ∈ inorder (insertBy key entry right) ↔
            other ∈ entry :: inorder right := fun _ => (inorder_insertBy_perm key entry right).mem_iff
        rw [inorder_node, List.pairwise_append, List.pairwise_cons]
        refine ⟨sortedLeft, ⟨?_, ihRight sortedRight
          (fun other member => fresh other (by simp [member]))⟩, ?_⟩
        · intro other member
          rcases List.mem_cons.mp ((members other).mp member) with rfl | inRight
          · exact currentEntry
          · exact currentFirst other inRight
        · intro other member later laterMember
          have otherCurrent := leftFirst other member current List.mem_cons_self
          rcases List.mem_cons.mp laterMember with atCurrent | inInserted
          · rw [atCurrent]
            exact otherCurrent
          · rcases List.mem_cons.mp ((members later).mp inInserted) with atEntry | inRight
            · rw [atEntry]
              exact Nat.lt_trans otherCurrent currentEntry
            · exact leftFirst other member later (List.mem_cons_of_mem current inRight)

end NvidiaGpu.SearchTree
