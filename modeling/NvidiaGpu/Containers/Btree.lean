import NvidiaGpu.Library.ListOrder
import NvidiaGpu.Library.LinkedTree
import NvidiaGpu.Library.LinkedList
import NvidiaGpu.Status

set_option autoImplicit false

/-! The lookups of the RM btree (`btree.c`): `btreeSearch`, `btreeEnumStart`
and `btreeEnumNext`.  Besides its colour and links a node holds the key
interval `[keyStart, keyEnd]`.  The loops follow the links in memory, each run
with a bound on its steps.

Over a well-formed tree, one whose memory represents a tree whose nodes, in
order, have disjoint intervals in increasing order, the loops compute lookups
in the in-order list of nodes: the node containing a key, the first node
ending at or above it, and the node after a node.  `btreeEnumNext` climbs to
the first ancestor starting after the node's interval; that this is the
in-order successor rests on the intervals being disjoint. -/

namespace NvidiaGpu.Btree

open LinkedTree LinkedTree.Mem RedBlack NvidiaGpu.RedBlack.RBTree

variable {Ptr : Type}

/-- `NODE`: the colour and links of every node, the root pointer, and every
node's key interval. -/
structure BtreeMem (Ptr : Type) extends LinkedTree.Mem Ptr where
  keyStart : Ptr → Nat
  keyEnd : Ptr → Nat

section Loops

variable (mem : BtreeMem Ptr) (keyOffset : Nat)

/-- The `while (current)` loop of `btreeSearch`: left below `keyStart`, right
above `keyEnd`, done inside. -/
def searchLoop : Nat → Option Ptr → Option Ptr
  | 0, _ => none
  | _ + 1, none => none
  | fuel + 1, some current =>
      if keyOffset < mem.keyStart current then searchLoop fuel (mem.left current)
      else if keyOffset > mem.keyEnd current then searchLoop fuel (mem.right current)
      else some current

def btreeSearch (root : Option Ptr) (fuel : Nat) : NvStatus × Option Ptr :=
  match searchLoop mem keyOffset fuel root with
  | some found => (.nvOk, some found)
  | none => (.nvErrObjectNotFound, none)

/-- The loop of `btreeEnumStart`: `*pNode` records each node it leaves to the
left, and the node containing the key. -/
def enumStartLoop : Nat → Option Ptr → Option Ptr → Option Ptr
  | 0, _, found => found
  | _ + 1, none, found => found
  | fuel + 1, some current, found =>
      if keyOffset < mem.keyStart current then enumStartLoop fuel (mem.left current) (some current)
      else if keyOffset > mem.keyEnd current then enumStartLoop fuel (mem.right current) found
      else some current

def btreeEnumStart (root : Option Ptr) (fuel : Nat) : NvStatus × Option Ptr :=
  match root with
  | none => (.nvOk, none)
  | some _ => (.nvOk, enumStartLoop mem keyOffset fuel root none)

end Loops

section Next

variable (mem : BtreeMem Ptr)

def leftmostLoop : Nat → Ptr → Ptr
  | 0, current => current
  | fuel + 1, current =>
      match mem.left current with
      | some next => leftmostLoop fuel next
      | none => current

/-- `for(current = current->parent; current; current = current->parent)`, up to
the first node starting after `keyEnd`. -/
def climbLoop (keyEnd : Nat) : Nat → Option Ptr → Option Ptr
  | 0, _ => none
  | _ + 1, none => none
  | fuel + 1, some current =>
      if mem.keyStart current > keyEnd then some current else climbLoop keyEnd fuel (mem.parent current)

def btreeEnumNext (node root : Option Ptr) (fuel : Nat) : NvStatus × Option Ptr :=
  match root, node with
  | some _, some current =>
      match mem.right current with
      | some right => (.nvOk, some (leftmostLoop mem fuel right))
      | none => (.nvOk, climbLoop mem (mem.keyEnd current) fuel (mem.parent current))
  | _, _ => (.nvOk, none)

end Next

/-! ## Well-formed trees -/

def Before (mem : BtreeMem Ptr) (a b : Ptr) : Prop :=
  mem.keyEnd a < mem.keyStart b

instance (mem : BtreeMem Ptr) (a b : Ptr) : Decidable (Before mem a b) :=
  inferInstanceAs (Decidable (_ < _))

/-- The memory holds `tree`, and in order its nodes have intervals
`keyStart <= keyEnd`, each ending before the next one starts. -/
structure BtreeMem.WellFormed (mem : BtreeMem Ptr) (tree : RBTree Ptr) : Prop where
  represents : mem.Represents tree
  ordered : ∀ p ∈ tree.toList, mem.keyStart p ≤ mem.keyEnd p
  increasing : tree.toList.IsChain (Before mem)

/-- The memory holds a well-formed red-black tree whose nodes, in order, are
`nodes`. -/
def BtreeMem.Implements (mem : BtreeMem Ptr) (nodes : List Ptr) : Prop :=
  ∃ tree, mem.WellFormed tree ∧ tree.IsRedBlack ∧ tree.toList = nodes

def Contains (mem : BtreeMem Ptr) (k : Nat) (p : Ptr) : Prop :=
  mem.keyStart p ≤ k ∧ k ≤ mem.keyEnd p

instance (mem : BtreeMem Ptr) (k : Nat) (p : Ptr) : Decidable (Contains mem k p) :=
  inferInstanceAs (Decidable (_ ∧ _))

/-- What `btreeEnumStart` is to return among `nodes`: the node containing `k` if
any, else the node with the least `keyStart` above `k`, else `NULL`. -/
def EnumStartSpec (mem : BtreeMem Ptr) (nodes : List Ptr) (k : Nat) (result : Option Ptr) : Prop :=
  (∀ p ∈ nodes, Contains mem k p → result = some p) ∧
    ((∀ p ∈ nodes, ¬Contains mem k p) →
      ∀ q, result = some q ↔
        q ∈ nodes ∧ k < mem.keyStart q ∧ ∀ q' ∈ nodes, k < mem.keyStart q' → mem.keyStart q ≤ mem.keyStart q')

/-- The nodes ending at or above `k`, in order: what an enumeration from `k`
is to visit. -/
def endingFrom (mem : BtreeMem Ptr) (nodes : List Ptr) (k : Nat) : List Ptr :=
  nodes.filter fun p => decide (k ≤ mem.keyEnd p)

def enumStep (mem : BtreeMem Ptr) (fuel : Nat) (node : Option Ptr) : Option Ptr :=
  (btreeEnumNext mem node mem.root fuel).2

/-! ## Intervals in order -/

section Order

variable {mem : BtreeMem Ptr}

theorem pairwise_of_isChain {nodes : List Ptr} (ordered : ∀ p ∈ nodes, mem.keyStart p ≤ mem.keyEnd p)
    (chain : nodes.IsChain (Before mem)) : nodes.Pairwise (Before mem) := by
  induction nodes with
  | nil => exact List.Pairwise.nil
  | cons a nodes ih =>
      cases nodes with
      | nil => exact List.pairwise_singleton _ a
      | cons next nodes =>
          obtain ⟨first, tailChain⟩ := List.isChain_cons_cons.mp chain
          have rest := ih (fun p inside => ordered p (List.mem_cons_of_mem _ inside)) tailChain
          have nextOrdered := ordered next (by simp)
          refine List.Pairwise.cons (fun b inside => ?_) rest
          rcases List.mem_cons.mp inside with rfl | later
          · exact first
          · have after : Before mem next b := List.rel_of_pairwise_cons rest later
            unfold Before at first after ⊢
            omega

variable {k : Nat} {left right : List Ptr} {p : Ptr}

theorem before_of_pairwise (sorted : (left ++ p :: right).Pairwise (Before mem)) :
    (∀ x ∈ left, Before mem x p) ∧ (∀ y ∈ right, Before mem p y) := by
  rw [List.pairwise_append, List.pairwise_cons] at sorted
  exact ⟨fun x inside => sorted.2.2 x inside p List.mem_cons_self, sorted.2.1.1⟩

theorem not_before_self (ordered : mem.keyStart p ≤ mem.keyEnd p) : ¬Before mem p p := by
  unfold Before
  omega

@[simp] theorem contains_iff {x : Ptr} : Contains mem k x ↔ mem.keyStart x ≤ k ∧ k ≤ mem.keyEnd x := Iff.rfl

theorem find?_eq_none_of_below {nodes : List Ptr} (below : ∀ x ∈ nodes, Before mem x p) (low : mem.keyStart p ≤ k)
    {test : Ptr → Bool} (fails : ∀ x, mem.keyEnd x < k → ¬test x) : nodes.find? test = none :=
  List.find?_eq_none.mpr fun x inside => fails x (Nat.lt_of_lt_of_le (below x inside) low)

theorem find?_eq_none_of_above {nodes : List Ptr} (above : ∀ y ∈ nodes, Before mem p y) (high : k ≤ mem.keyEnd p)
    {test : Ptr → Bool} (fails : ∀ y, k < mem.keyStart y → ¬test y) : nodes.find? test = none :=
  List.find?_eq_none.mpr fun y inside => fails y (Nat.lt_of_le_of_lt high (above y inside))

section Sorted

variable {nodes : List Ptr} (sorted : nodes.Pairwise (Before mem))
  (ordered : ∀ p ∈ nodes, mem.keyStart p ≤ mem.keyEnd p)
include sorted ordered

theorem eq_of_keyStart_eq {p q : Ptr} (pMember : p ∈ nodes) (qMember : q ∈ nodes)
    (same : mem.keyStart p = mem.keyStart q) : p = q := by
  by_contra different
  have pOrdered := ordered p pMember
  have qOrdered := ordered q qMember
  rcases LinkedList.rel_or_rel_of_pairwise sorted pMember qMember different with before | before <;>
    (unfold Before at before; omega)

omit ordered in
theorem find?_eq_of_contains (member : p ∈ nodes) (contains : Contains mem k p) {test : Ptr → Bool}
    (passes : test p) (fails : ∀ x, mem.keyEnd x < k → ¬test x) : nodes.find? test = some p := by
  obtain ⟨early, late, rfl⟩ := List.append_of_mem member
  rw [List.find?_append, find?_eq_none_of_below (before_of_pairwise sorted).1 contains.1 fails, Option.none_or,
    List.find?_cons_of_pos passes]

theorem least_of_find? (missing : ∀ p ∈ nodes, ¬Contains mem k p) {q : Ptr}
    (found : nodes.find? (fun p => decide (k ≤ mem.keyEnd p)) = some q) :
    q ∈ nodes ∧ k < mem.keyStart q ∧ ∀ q' ∈ nodes, k < mem.keyStart q' → mem.keyStart q ≤ mem.keyStart q' := by
  have member := List.mem_of_find?_eq_some found
  obtain ⟨passes, early, late, split, earlyFail⟩ := List.find?_eq_some_iff_append.mp found
  have outside := missing q member
  simp only [decide_eq_true_eq] at passes
  unfold Contains at outside
  refine ⟨member, by omega, fun q' member' above => ?_⟩
  have around := before_of_pairwise (split ▸ sorted)
  have ordered' := ordered q' member'
  rw [split] at member'
  rcases List.mem_append.mp member' with isEarly | isLate
  · have : mem.keyEnd q' < k := by simpa using earlyFail q' isEarly
    omega
  · rcases List.mem_cons.mp isLate with rfl | later
    · exact Nat.le_refl _
    · have := around.2 q' later
      have qOrdered := ordered q member
      unfold Before at this
      omega

theorem enumStartSpec_find? : EnumStartSpec mem nodes k (nodes.find? fun p => decide (k ≤ mem.keyEnd p)) := by
  refine ⟨fun p member contains => ?_, fun missing q => ⟨least_of_find? sorted ordered missing, ?_⟩⟩
  · exact find?_eq_of_contains sorted member contains (by simpa using contains.2)
      (fun x below => by simpa using below)
  · rintro ⟨member, above, least⟩
    cases found : nodes.find? fun p => decide (k ≤ mem.keyEnd p) with
    | none =>
        have below : mem.keyEnd q < k := by simpa using List.find?_eq_none.mp found q member
        have := ordered q member
        omega
    | some q'' =>
        obtain ⟨member'', above'', least''⟩ := least_of_find? sorted ordered missing found
        have := least q'' member'' above''
        have := least'' q member above
        rw [eq_of_keyStart_eq sorted ordered member'' member (by omega)]

end Sorted

end Order

/-! ## The loops over the tree they represent -/

section Tree

variable {mem : BtreeMem Ptr} (k : Nat)

/-- The facts about a subtree the descents use: its memory, its order and its
intervals. -/
structure Subtree (mem : BtreeMem Ptr) (tree : RBTree Ptr) : Prop where
  stores : mem.Stores tree
  sorted : tree.toList.Pairwise (Before mem)
  ordered : ∀ p ∈ tree.toList, mem.keyStart p ≤ mem.keyEnd p

/-- The facts for both children of a node, and the node's place between them. -/
theorem Subtree.node {red : Bool} {left right : RBTree Ptr} {value : Ptr}
    (sub : Subtree mem (.node red left value right)) :
    mem.left value = left.rootValue ∧ mem.right value = right.rootValue ∧
      Subtree mem left ∧ Subtree mem right ∧ mem.keyStart value ≤ mem.keyEnd value ∧
      (∀ x ∈ left.toList, Before mem x value) ∧ (∀ y ∈ right.toList, Before mem value y) := by
  obtain ⟨stores, sorted, ordered⟩ := sub
  obtain ⟨-, leftLink, rightLink, -, -, leftStores, rightStores⟩ := stores
  rw [toList] at sorted ordered
  have around := before_of_pairwise sorted
  rw [List.pairwise_append, List.pairwise_cons] at sorted
  exact ⟨leftLink, rightLink,
    ⟨leftStores, sorted.1, fun p inside => ordered p (List.mem_append_left _ inside)⟩,
    ⟨rightStores, sorted.2.1.2, fun p inside => ordered p (List.mem_append_right _ (List.mem_cons_of_mem _ inside))⟩,
    ordered value (by simp), around⟩

theorem length_lt_of_node {red : Bool} {left right : RBTree Ptr} {value : Ptr} {fuel : Nat}
    (enough : (RBTree.node red left value right).toList.length ≤ fuel) :
    ∃ rest, fuel = rest + 1 ∧ left.toList.length ≤ rest ∧ right.toList.length ≤ rest := by
  simp only [toList, List.length_append, List.length_cons] at enough
  exact ⟨fuel - 1, by omega, by omega, by omega⟩

theorem searchLoop_eq {tree : RBTree Ptr} (sub : Subtree mem tree) {fuel : Nat} (enough : tree.toList.length ≤ fuel) :
    searchLoop mem k fuel tree.rootValue = tree.toList.find? (fun p => decide (Contains mem k p)) := by
  induction tree generalizing fuel with
  | leaf => cases fuel <;> rfl
  | node red left value right ihLeft ihRight =>
      obtain ⟨leftLink, rightLink, leftSub, rightSub, ordered, below, above⟩ := sub.node
      obtain ⟨rest, rfl, leftFuel, rightFuel⟩ := length_lt_of_node enough
      have leftOut : mem.keyStart value ≤ k → (left.toList.find? fun p => decide (Contains mem k p)) = none :=
        fun low => find?_eq_none_of_below below low fun x early => by simp; omega
      have rightOut : k ≤ mem.keyEnd value → (right.toList.find? fun p => decide (Contains mem k p)) = none :=
        fun high => find?_eq_none_of_above above high fun y late => by simp; omega
      rw [rootValue, searchLoop, toList, List.find?_append]
      split_ifs with low high
      · rw [leftLink, ihLeft leftSub leftFuel, List.find?_cons_of_neg (by simp; omega), rightOut (by omega),
          Option.or_none]
      · rw [rightLink, ihRight rightSub rightFuel, leftOut (by omega), Option.none_or,
          List.find?_cons_of_neg (by simp; omega)]
      · rw [leftOut (by omega), Option.none_or, List.find?_cons_of_pos (by simp; omega)]

theorem enumStartLoop_eq {tree : RBTree Ptr} (sub : Subtree mem tree) {fuel : Nat} (enough : tree.toList.length ≤ fuel)
    (found : Option Ptr) :
    enumStartLoop mem k fuel tree.rootValue found = (tree.toList.find? fun p => decide (k ≤ mem.keyEnd p)).or found := by
  induction tree generalizing fuel found with
  | leaf => cases fuel <;> rfl
  | node red left value right ihLeft ihRight =>
      obtain ⟨leftLink, rightLink, leftSub, rightSub, ordered, below, above⟩ := sub.node
      obtain ⟨rest, rfl, leftFuel, rightFuel⟩ := length_lt_of_node enough
      have leftOut : mem.keyStart value ≤ k → (left.toList.find? fun p => decide (k ≤ mem.keyEnd p)) = none :=
        fun low => find?_eq_none_of_below below low fun x early => by simpa using early
      rw [rootValue, enumStartLoop, toList, List.find?_append]
      split_ifs with low high
      · rw [leftLink, ihLeft leftSub leftFuel, List.find?_cons_of_pos (by simp; omega), Option.or_assoc,
          Option.some_or]
      · rw [rightLink, ihRight rightSub rightFuel, leftOut (by omega), Option.none_or,
          List.find?_cons_of_neg (by simp; omega)]
      · rw [leftOut (by omega), Option.none_or, List.find?_cons_of_pos (by simp; omega), Option.some_or]

theorem leftmostLoop_eq {red : Bool} {left right : RBTree Ptr} {value : Ptr}
    (stores : mem.Stores (.node red left value right)) {fuel : Nat}
    (enough : (RBTree.node red left value right).toList.length ≤ fuel) :
    some (leftmostLoop mem fuel value) = (RBTree.node red left value right).toList.head? := by
  induction left generalizing red value right fuel with
  | leaf =>
      obtain ⟨rest, rfl, -, -⟩ := length_lt_of_node enough
      obtain ⟨-, leftLink, -⟩ := stores
      rw [leftmostLoop, leftLink]
      rfl
  | node red' left' value' right' ihLeft _ =>
      obtain ⟨rest, rfl, leftFuel, -⟩ := length_lt_of_node enough
      obtain ⟨-, leftLink, -, -, -, leftStores, -⟩ := stores
      rw [leftmostLoop, leftLink]
      dsimp only [rootValue]
      rw [ihLeft leftStores leftFuel]
      simp [toList]

theorem climbLoop_eq {keyEnd : Nat} {node : Ptr} {path : List (Frame Ptr)} (ctx : mem.StoresCtx (some node) path)
    (low : ∀ x ∈ before path, mem.keyStart x ≤ keyEnd) (high : ∀ x ∈ after path, keyEnd < mem.keyStart x)
    {fuel : Nat} (enough : path.length ≤ fuel) :
    climbLoop mem keyEnd fuel (mem.parent node) = (after path).head? := by
  induction path generalizing node fuel with
  | nil =>
      rw [ctx.parent_hole]
      cases fuel <;> rfl
  | cons frame path ih =>
      obtain ⟨rest, rfl⟩ : ∃ rest, fuel = rest + 1 := ⟨fuel - 1, by simp at enough; omega⟩
      rw [ctx.parent_hole, parentOfPath_cons, climbLoop]
      rcases frame with ⟨side, red, value, sibling⟩
      cases side with
      | left =>
          have next : keyEnd < mem.keyStart value := high value (by simp [after, Frame.after])
          rw [if_pos next]
          simp [after, Frame.after]
      | right =>
          have passed : mem.keyStart value ≤ keyEnd := low value (by simp [before, Frame.before])
          dsimp only
          rw [if_neg (by omega)]
          have up := ih ctx.2.2.2.2.2.2 (fun x inside => low x (by simp [before, inside]))
            (fun x inside => high x (by simp [after, Frame.after, inside])) (by simp at enough; omega)
          rw [up]
          simp [after, Frame.after]

end Tree

/-! ## Lookups in a well-formed tree -/

section Lookups

variable {mem : BtreeMem Ptr} {tree : RBTree Ptr} (wf : mem.WellFormed tree) (k : Nat) {fuel : Nat}
include wf

theorem BtreeMem.WellFormed.sorted : tree.toList.Pairwise (Before mem) :=
  pairwise_of_isChain wf.ordered wf.increasing

theorem BtreeMem.WellFormed.subtree : Subtree mem tree :=
  ⟨wf.represents.1, wf.sorted, wf.ordered⟩

theorem BtreeMem.WellFormed.nodup : tree.toList.Nodup :=
  wf.sorted.imp_of_mem fun {a _} member _ (before : Before mem a _) same => by
    subst same
    exact not_before_self (wf.ordered a member) before

theorem btreeSearch_of_contains (enough : tree.toList.length ≤ fuel) {p : Ptr} (member : p ∈ tree.toList)
    (contains : Contains mem k p) : btreeSearch mem k mem.root fuel = (.nvOk, some p) := by
  unfold btreeSearch
  rw [wf.represents.root, searchLoop_eq k wf.subtree enough,
    find?_eq_of_contains wf.sorted member contains (by simpa using contains)
      (fun x below => by simp; omega)]

theorem btreeSearch_of_missing (enough : tree.toList.length ≤ fuel) (missing : ∀ p ∈ tree.toList, ¬Contains mem k p) :
    btreeSearch mem k mem.root fuel = (.nvErrObjectNotFound, none) := by
  unfold btreeSearch
  rw [wf.represents.root, searchLoop_eq k wf.subtree enough, List.find?_eq_none.mpr (by simpa using missing)]

theorem btreeEnumStart_eq (enough : tree.toList.length ≤ fuel) :
    (btreeEnumStart mem k mem.root fuel).2 = tree.toList.find? fun p => decide (k ≤ mem.keyEnd p) := by
  have descent := enumStartLoop_eq k wf.subtree enough none
  rw [wf.represents.root]
  cases tree with
  | leaf => rfl
  | node red left value right => exact descent.trans Option.or_none

omit wf in
theorem enumStep_none : enumStep mem fuel none = none := by
  unfold enumStep btreeEnumNext
  cases mem.root <;> rfl

theorem root_of_mem {p : Ptr} (member : p ∈ tree.toList) : ∃ top, mem.root = some top := by
  rw [wf.represents.root]
  cases tree with
  | leaf => simp [toList] at member
  | node red left top right => exact ⟨top, rfl⟩

theorem btreeEnumNext_getElem (enough : tree.toList.length ≤ fuel) (i : Nat) (inside : i < tree.toList.length) :
    enumStep mem fuel (some tree.toList[i]) = tree.toList[i + 1]? := by
  obtain ⟨top, root⟩ := root_of_mem wf (List.getElem_mem inside)
  obtain ⟨p, named⟩ : ∃ p, tree.toList[i] = p := ⟨_, rfl⟩
  obtain ⟨path, red, left, right, shape⟩ := exists_plug_of_mem (named ▸ List.getElem_mem inside)
  have order : tree.toList = before path ++ left.toList ++ p :: (right.toList ++ after path) := by
    rw [shape, toList_plug]
    simp [toList]
  obtain ⟨stores, ctx⟩ := (represents_plug path _).mp (shape ▸ wf.represents)
  obtain ⟨-, -, rightLink, -, -, -, rightStores⟩ := stores
  have index : i = (before path ++ left.toList).length := by
    have placed : tree.toList[(before path ++ left.toList).length]? = some p := by
      rw [order]
      simp
    obtain ⟨bound, atP⟩ := List.getElem?_eq_some_iff.mp placed
    exact wf.nodup.getElem_inj_iff.mp (named.trans atP.symm)
  have around := before_of_pairwise (order ▸ wf.sorted)
  have pathFuel : path.length ≤ fuel := by
    have := length_toList_plug path (node red left p right)
    have := length_le_pathNodes path
    rw [← shape] at *
    omega
  have rightFuel : right.toList.length ≤ fuel := by
    have := congrArg List.length order
    simp only [List.length_append, List.length_cons] at this
    omega
  rw [named, index, order, List.getElem?_append_right (by omega), Nat.add_sub_cancel_left,
    List.getElem?_cons_succ, ← List.head?_eq_getElem?]
  unfold enumStep btreeEnumNext
  rw [root]
  dsimp only
  cases right with
  | leaf =>
      have pOrdered := wf.ordered p (by rw [order]; simp)
      have low : ∀ x ∈ before path, mem.keyStart x ≤ mem.keyEnd p := by
        intro x member
        have earlier := around.1 x (List.mem_append_left _ member)
        have xOrdered := wf.ordered x (by rw [order]; simp [member])
        unfold Before at earlier
        omega
      have high : ∀ x ∈ after path, mem.keyEnd p < mem.keyStart x :=
        fun x member => around.2 x (List.mem_append_right _ member)
      rw [rightLink]
      exact climbLoop_eq ctx low high pathFuel
  | node red' left' value' right' =>
      rw [rightLink]
      dsimp only [rootValue]
      rw [leftmostLoop_eq rightStores rightFuel, List.head?_append_of_ne_nil _ (by simp [toList])]

theorem enumStep_getElem? (enough : tree.toList.length ≤ fuel) (j : Nat) :
    enumStep mem fuel tree.toList[j]? = tree.toList[j + 1]? := by
  by_cases inside : j < tree.toList.length
  · rw [List.getElem?_eq_getElem inside]
    exact btreeEnumNext_getElem wf enough j inside
  · rw [List.getElem?_eq_none (by omega), List.getElem?_eq_none (by omega)]
    exact enumStep_none

theorem btree_lookups (enough : tree.toList.length ≤ fuel) :
    (∀ p ∈ tree.toList, Contains mem k p → btreeSearch mem k mem.root fuel = (.nvOk, some p)) ∧
      ((∀ p ∈ tree.toList, ¬Contains mem k p) → btreeSearch mem k mem.root fuel = (.nvErrObjectNotFound, none)) ∧
      EnumStartSpec mem tree.toList k (btreeEnumStart mem k mem.root fuel).2 ∧
      (∀ i (inside : i < tree.toList.length), enumStep mem fuel (some tree.toList[i]) = tree.toList[i + 1]?) ∧
      (endingFrom mem tree.toList k).Pairwise (Before mem) ∧
      (∀ i (inside : i < (endingFrom mem tree.toList k).length),
        (enumStep mem fuel)^[i] (btreeEnumStart mem k mem.root fuel).2 = some (endingFrom mem tree.toList k)[i]) ∧
      (enumStep mem fuel)^[(endingFrom mem tree.toList k).length] (btreeEnumStart mem k mem.root fuel).2 = none := by
  have mono : tree.toList.Pairwise fun a b => decide (k ≤ mem.keyEnd a) → decide (k ≤ mem.keyEnd b) :=
    wf.sorted.imp_of_mem fun {_ b} _ member (before : Before mem _ b) => by
      have := wf.ordered b member
      unfold Before at before
      simp only [decide_eq_true_eq]
      omega
  obtain ⟨visits, leaves⟩ := ListOrder.iterate_find? (enumStep_getElem? wf enough) mono
  rw [btreeEnumStart_eq wf k enough]
  exact ⟨fun p member contains => btreeSearch_of_contains wf k enough member contains,
    btreeSearch_of_missing wf k enough, enumStartSpec_find? wf.sorted wf.ordered,
    btreeEnumNext_getElem wf enough, wf.sorted.filter _, visits, leaves⟩

end Lookups

/-- Three nodes: `1` at the root with `[10, 19]`, `0` on its left with
`[0, 9]`, `2` on its right with `[30, 39]`. -/
def sampleMem : BtreeMem Nat where
  isRed p := p != 1
  parent p := if p = 1 then none else some 1
  left p := if p = 1 then some 0 else none
  right p := if p = 1 then some 2 else none
  root := some 1
  keyStart
    | 0 => 0
    | 1 => 10
    | _ => 30
  keyEnd
    | 0 => 9
    | 1 => 19
    | _ => 39

def sampleTree : RBTree Nat := node false (node true leaf 0 leaf) 1 (node true leaf 2 leaf)

theorem sampleTree_lookups :
    sampleMem.WellFormed sampleTree ∧
      (∀ p ∈ sampleTree.toList, Contains sampleMem 15 p → btreeSearch sampleMem 15 sampleMem.root 3 = (.nvOk, some p)) ∧
      ((∀ p ∈ sampleTree.toList, ¬Contains sampleMem 15 p) →
        btreeSearch sampleMem 15 sampleMem.root 3 = (.nvErrObjectNotFound, none)) ∧
      EnumStartSpec sampleMem sampleTree.toList 15 (btreeEnumStart sampleMem 15 sampleMem.root 3).2 ∧
      (∀ i (inside : i < sampleTree.toList.length),
        enumStep sampleMem 3 (some sampleTree.toList[i]) = sampleTree.toList[i + 1]?) ∧
      (endingFrom sampleMem sampleTree.toList 15).Pairwise (Before sampleMem) ∧
      (∀ i (inside : i < (endingFrom sampleMem sampleTree.toList 15).length),
        (enumStep sampleMem 3)^[i] (btreeEnumStart sampleMem 15 sampleMem.root 3).2 =
          some (endingFrom sampleMem sampleTree.toList 15)[i]) ∧
      (enumStep sampleMem 3)^[(endingFrom sampleMem sampleTree.toList 15).length]
        (btreeEnumStart sampleMem 15 sampleMem.root 3).2 = none := by
  have wf : sampleMem.WellFormed sampleTree := by
    refine ⟨⟨?_, ?_⟩, by decide, by decide⟩ <;>
      simp [Mem.Stores, Mem.StoresCtx, Mem.ParentOf, sampleMem, sampleTree, rootValue]
  exact ⟨wf, btree_lookups wf 15 (by decide)⟩

end NvidiaGpu.Btree
