import NvidiaGpu.Containers.Map
import NvidiaGpu.Library.LinkedTreeFixup
import NvidiaGpu.Library.TreeWalk

set_option autoImplicit false

/-! The red-black tree under RM maps (`map.c`), node by node.  A map's memory
holds its nodes' links, colours and keys; it implements a `MapBase` when it
holds a red-black tree of distinct nodes whose keys in order are the map's,
each node standing for its value (`mapValueToNode`, `mapNodeToValue`), and its
count is the map's.  Over such a memory the lookups of `map.c` answer what the
list model of `Containers.Map` answers. -/

namespace NvidiaGpu.Map

open LinkedTree LinkedTree.Mem RedBlack NvidiaGpu.RedBlack.RBTree ListOrder

/-- The fields of a `MapBase` and of its `MapNode`s that the tree code reads or
writes: the links and colours, `key`, and `count`. -/
structure MapMem (Ptr : Type) extends Mem Ptr where
  key : Ptr → UInt64
  count : UInt32

variable {Ptr : Type}

/-- The entries of the nodes of `tree` in order: a node's key, and the node for
its value. -/
def MapMem.entriesOf (mem : MapMem Ptr) (tree : RBTree Ptr) : List (UInt64 × Ptr) :=
  tree.toList.map fun p => (mem.key p, p)

/-- The memory holds `map` as `tree`: a red-black tree of distinct nodes with
the map's entries in order, and the map's count. -/
structure MapMem.Carries (mem : MapMem Ptr) (map : MapBase Ptr) (tree : RBTree Ptr) : Prop where
  holds : mem.Holds tree
  redBlack : tree.IsRedBlack
  entries : map.entries = mem.entriesOf tree
  count : mem.count = mapCount map

def MapMem.Implements (mem : MapMem Ptr) (map : MapBase Ptr) : Prop :=
  ∃ tree, mem.Carries map tree

/-! ## The lookups -/

section Code

variable (mem : MapMem Ptr)

/-- The `while (pCurrent != NULL)` loop of `mapFind`: left below the key, right
above it, the node with the key when it meets it. -/
def findLoop (key : UInt64) : Nat → Option Ptr → Option Ptr
  | 0, _ => none
  | _ + 1, none => none
  | fuel + 1, some current =>
      if key < mem.key current then findLoop key fuel (mem.left current)
      else if key > mem.key current then findLoop key fuel (mem.right current)
      else some current

def mapFindImpl (key : UInt64) (fuel : Nat) : Option Ptr :=
  findLoop mem key fuel mem.root

/-- The loop of `mapFindGEQ`: a node above `keyMin` is the answer so far, and
the search goes on to its left. -/
def findGEQLoop (keyMin : UInt64) : Nat → Option Ptr → Option Ptr → Option Ptr
  | 0, _, _ => none
  | _ + 1, none, result => result
  | fuel + 1, some current, result =>
      if mem.key current > keyMin then findGEQLoop keyMin fuel (mem.left current) (some current)
      else if mem.key current = keyMin then some current
      else findGEQLoop keyMin fuel (mem.right current) result

def mapFindGEQImpl (keyMin : UInt64) (fuel : Nat) : Option Ptr :=
  findGEQLoop mem keyMin fuel mem.root none

/-- The loop of `mapFindLEQ`: a node below `keyMax` is the answer so far, and
the search goes on to its right. -/
def findLEQLoop (keyMax : UInt64) : Nat → Option Ptr → Option Ptr → Option Ptr
  | 0, _, _ => none
  | _ + 1, none, result => result
  | fuel + 1, some current, result =>
      if mem.key current > keyMax then findLEQLoop keyMax fuel (mem.left current) result
      else if mem.key current = keyMax then some current
      else findLEQLoop keyMax fuel (mem.right current) (some current)

def mapFindLEQImpl (keyMax : UInt64) (fuel : Nat) : Option Ptr :=
  findLEQLoop mem keyMax fuel mem.root none

variable [DecidableEq Ptr]

/-- The climb of `mapNext` (toward `.right`) and `mapPrev` (toward `.left`): up
from `pNode` while it is its parent's child on `side`, and `NULL` when that
parent is the root. -/
def climbLoop (side : Side) : Nat → Ptr → Option Ptr → Option Ptr
  | 0, _, _ => none
  | _ + 1, _, none => none
  | fuel + 1, pNode, some current =>
      if mem.child side current = some pNode then
        if mem.root = some current then none
        else climbLoop side fuel current (mem.parent current)
      else some current

/-- `mapNext` (toward `.right`) and `mapPrev` (toward `.left`) from `pNode`:
the first node of its subtree on `side`, else the first node up the tree it
hangs on the other side of. -/
def stepToward (side : Side) (pNode : Ptr) (fuel : Nat) : Option Ptr :=
  match mem.child side pNode with
  | some current => some (mem.descendLoop side.flip fuel current)
  | none => climbLoop mem side fuel pNode (mem.parent pNode)

def mapNextImpl (pNode : Ptr) (fuel : Nat) : Option Ptr :=
  stepToward mem .right pNode fuel

def mapPrevImpl (pNode : Ptr) (fuel : Nat) : Option Ptr :=
  stepToward mem .left pNode fuel

end Code

/-! ## Searches by key -/

section Search

variable {mem : MapMem Ptr}

theorem UInt64.eq_of_not_lt {a b : UInt64} (notBelow : ¬a < b) (notAbove : ¬b < a) : a = b := by
  rw [UInt64.lt_iff_toNat_lt] at notBelow notAbove
  exact UInt64.toNat_inj.mp (by omega)

theorem sorted_node {red : Bool} {left right : RBTree Ptr} {value : Ptr}
    (sorted : (node red left value right).toList.Pairwise fun a b => mem.key a < mem.key b) :
    (left.toList.Pairwise fun a b => mem.key a < mem.key b) ∧ (right.toList.Pairwise fun a b => mem.key a < mem.key b) ∧
      (∀ q ∈ left.toList, mem.key q < mem.key value) ∧ ∀ q ∈ right.toList, mem.key value < mem.key q := by
  rw [toList, List.pairwise_append, List.pairwise_cons] at sorted
  exact ⟨sorted.1, sorted.2.1.2, fun q inside => sorted.2.2 q inside value List.mem_cons_self, sorted.2.1.1⟩

theorem MapMem.Carries.sorted {map : MapBase Ptr} {tree : RBTree Ptr} (carries : mem.Carries map tree) :
    tree.toList.Pairwise fun a b => mem.key a < mem.key b := by
  have sorted := map.sorted
  rw [carries.entries, MapMem.entriesOf, List.pairwise_map] at sorted
  exact sorted

theorem length_lt_of_node {red : Bool} {left right : RBTree Ptr} {value : Ptr} {fuel : Nat}
    (enough : (node red left value right).toList.length < fuel) :
    ∃ rest, fuel = rest + 1 ∧ left.toList.length < rest ∧ right.toList.length < rest := by
  simp only [toList, List.length_append, List.length_cons] at enough
  exact ⟨fuel - 1, by omega, by omega, by omega⟩

theorem findLoop_eq {key : UInt64} {tree : RBTree Ptr} (stores : mem.Stores tree)
    (sorted : tree.toList.Pairwise fun a b => mem.key a < mem.key b) {fuel : Nat} (enough : tree.toList.length < fuel) :
    findLoop mem key fuel tree.rootValue = tree.toList.find? fun p => mem.key p == key := by
  induction tree generalizing fuel with
  | leaf =>
      obtain ⟨rest, rfl⟩ : ∃ rest, fuel = rest + 1 := ⟨fuel - 1, by simp at enough; omega⟩
      rfl
  | node red left value right ihLeft ihRight =>
      obtain ⟨rest, rfl, leftShort, rightShort⟩ := length_lt_of_node enough
      obtain ⟨-, leftLink, rightLink, -, -, leftStores, rightStores⟩ := stores
      obtain ⟨leftSorted, rightSorted, below, above⟩ := sorted_node sorted
      have missing : ∀ {list : List Ptr}, (∀ q ∈ list, mem.key q ≠ key) →
          (list.find? fun p => mem.key p == key) = none := fun apart =>
        List.find?_eq_none.mpr fun q inside => by simpa using apart q inside
      show findLoop mem key (rest + 1) (some value) = _
      rw [findLoop, toList, List.find?_append]
      by_cases goLeft : key < mem.key value
      · rw [if_pos goLeft, leftLink, ihLeft leftStores leftSorted leftShort,
          List.find?_cons_of_neg (by simpa using (UInt64.ne_of_lt goLeft).symm),
          missing fun q inside => (UInt64.ne_of_lt (UInt64.lt_trans goLeft (above q inside))).symm, Option.or_none]
      · rw [if_neg goLeft]
        by_cases goRight : key > mem.key value
        · rw [if_pos goRight, rightLink, ihRight rightStores rightSorted rightShort,
            missing fun q inside => UInt64.ne_of_lt (UInt64.lt_trans (below q inside) goRight),
            List.find?_cons_of_neg (by simpa using UInt64.ne_of_lt goRight), Option.none_or]
        · have same : mem.key value = key := (UInt64.eq_of_not_lt goLeft goRight).symm
          rw [if_neg goRight, missing fun q inside => same ▸ UInt64.ne_of_lt (below q inside), Option.none_or,
            List.find?_cons_of_pos (by simp [same])]

theorem findGEQLoop_eq {keyMin : UInt64} {tree : RBTree Ptr} (stores : mem.Stores tree)
    (sorted : tree.toList.Pairwise fun a b => mem.key a < mem.key b) {fuel : Nat} (enough : tree.toList.length < fuel)
    (result : Option Ptr) :
    findGEQLoop mem keyMin fuel tree.rootValue result =
      (tree.toList.find? fun p => decide (keyMin ≤ mem.key p)).or result := by
  induction tree generalizing fuel result with
  | leaf =>
      obtain ⟨rest, rfl⟩ : ∃ rest, fuel = rest + 1 := ⟨fuel - 1, by simp at enough; omega⟩
      rfl
  | node red left value right ihLeft ihRight =>
      obtain ⟨rest, rfl, leftShort, rightShort⟩ := length_lt_of_node enough
      obtain ⟨-, leftLink, rightLink, -, -, leftStores, rightStores⟩ := stores
      obtain ⟨leftSorted, rightSorted, below, above⟩ := sorted_node sorted
      have missing : ∀ {list : List Ptr}, (∀ q ∈ list, mem.key q < keyMin) →
          (list.find? fun p => decide (keyMin ≤ mem.key p)) = none := fun lower =>
        List.find?_eq_none.mpr fun q inside => by simpa [UInt64.lt_iff_toNat_lt, UInt64.le_iff_toNat_le] using lower q inside
      show findGEQLoop mem keyMin (rest + 1) (some value) result = _
      rw [findGEQLoop, toList, List.find?_append]
      by_cases goLeft : mem.key value > keyMin
      · rw [if_pos goLeft, leftLink, ihLeft leftStores leftSorted leftShort,
          List.find?_cons_of_pos (by simpa using UInt64.le_of_lt goLeft),
          Option.or_assoc, Option.some_or]
      · rw [if_neg goLeft]
        by_cases found : mem.key value = keyMin
        · rw [if_pos found, missing fun q inside => found ▸ below q inside, Option.none_or,
            List.find?_cons_of_pos (by simp [found]), Option.some_or]
        · have lower : mem.key value < keyMin := UInt64.lt_of_le_of_ne (UInt64.not_lt.mp goLeft) found
          rw [if_neg found, rightLink, ihRight rightStores rightSorted rightShort,
            missing fun q inside => UInt64.lt_trans (below q inside) lower, Option.none_or,
            List.find?_cons_of_neg (by simpa [UInt64.lt_iff_toNat_lt, UInt64.le_iff_toNat_le] using lower)]

theorem findLEQLoop_eq {keyMax : UInt64} {tree : RBTree Ptr} (stores : mem.Stores tree)
    (sorted : tree.toList.Pairwise fun a b => mem.key a < mem.key b) {fuel : Nat} (enough : tree.toList.length < fuel)
    (result : Option Ptr) :
    findLEQLoop mem keyMax fuel tree.rootValue result =
      (tree.toList.reverse.find? fun p => decide (mem.key p ≤ keyMax)).or result := by
  induction tree generalizing fuel result with
  | leaf =>
      obtain ⟨rest, rfl⟩ : ∃ rest, fuel = rest + 1 := ⟨fuel - 1, by simp at enough; omega⟩
      rfl
  | node red left value right ihLeft ihRight =>
      obtain ⟨rest, rfl, leftShort, rightShort⟩ := length_lt_of_node enough
      obtain ⟨-, leftLink, rightLink, -, -, leftStores, rightStores⟩ := stores
      obtain ⟨leftSorted, rightSorted, below, above⟩ := sorted_node sorted
      have missing : ∀ {list : List Ptr}, (∀ q ∈ list, keyMax < mem.key q) →
          (list.find? fun p => decide (mem.key p ≤ keyMax)) = none := fun higher =>
        List.find?_eq_none.mpr fun q inside => by simpa [UInt64.lt_iff_toNat_lt, UInt64.le_iff_toNat_le] using higher q inside
      have reversed : ∀ {list : List Ptr} {bound : UInt64}, (∀ q ∈ list, bound < mem.key q) →
          ∀ q ∈ list.reverse, bound < mem.key q := fun higher q inside => higher q (List.mem_reverse.mp inside)
      show findLEQLoop mem keyMax (rest + 1) (some value) result = _
      rw [findLEQLoop, toList, List.reverse_append, List.reverse_cons, List.append_assoc, List.singleton_append,
        List.find?_append]
      by_cases goLeft : mem.key value > keyMax
      · rw [if_pos goLeft, leftLink, ihLeft leftStores leftSorted leftShort,
          missing (reversed fun q inside => UInt64.lt_trans goLeft (above q inside)), Option.none_or,
          List.find?_cons_of_neg (by simpa [UInt64.lt_iff_toNat_lt, UInt64.le_iff_toNat_le] using goLeft)]
      · rw [if_neg goLeft]
        by_cases found : mem.key value = keyMax
        · rw [if_pos found, missing (reversed fun q inside => found ▸ above q inside), Option.none_or,
            List.find?_cons_of_pos (by simp [found]), Option.some_or]
        · have lower : mem.key value < keyMax := UInt64.lt_of_le_of_ne (UInt64.not_lt.mp goLeft) found
          rw [if_neg found, rightLink, ihRight rightStores rightSorted rightShort,
            List.find?_cons_of_pos (by simpa using UInt64.le_of_lt lower),
            Option.or_assoc, Option.some_or]

end Search

/-! ## Walking the nodes in order -/

section Walk

variable [DecidableEq Ptr] {mem : MapMem Ptr}

theorem climbLoop_eq {side : Side} {path : List (Frame Ptr)} {tree : RBTree Ptr} {pNode : Ptr}
    (holds : mem.Holds (plug path tree)) (rooted : tree.rootValue = some pNode) {fuel : Nat}
    (enough : path.length ≤ fuel) :
    climbLoop mem side fuel pNode (parentOfPath path) = (towardAfter side path).head? := by
  induction path generalizing tree pNode fuel with
  | nil => cases fuel <;> rfl
  | cons frame path ih =>
      obtain ⟨rest, rfl⟩ : ∃ rest, fuel = rest + 1 := ⟨fuel - 1, by simp at enough; omega⟩
      have distinct := nodup_plug.mp holds.distinct
      obtain ⟨-, ctx⟩ := (represents_plug _ tree).mp holds.represents
      rw [rooted] at ctx
      rcases frame with ⟨frameSide, red, value, sibling⟩
      obtain ⟨-, -, hereLink, siblingLink, -, -, ctxAbove⟩ := ctx
      rw [parentOfPath_cons, climbLoop]
      by_cases same : frameSide = side
      · subst same
        rw [if_pos hereLink, towardAfter, if_pos rfl, List.nil_append]
        by_cases top : mem.root = some value
        · obtain rfl := ctxAbove.root_eq_iff.mp top
          rw [if_pos top]
          rfl
        · rw [if_neg top, ctxAbove.parent_hole]
          exact ih holds (Frame.rootValue_fill _ tree) (by simpa using enough)
      · obtain rfl := Side.eq_flip_of_ne same
        have apart : sibling.rootValue ≠ some pNode := by
          intro siblingRoot
          rw [pathNodes_cons, List.nodup_append] at distinct
          exact distinct.2.2 pNode (mem_toList_of_rootValue rooted) pNode
            (by simp [mem_toList_of_rootValue siblingRoot]) rfl
        rw [Side.flip_flip] at siblingLink
        rw [siblingLink, if_neg apart, towardAfter, if_neg same]
        rfl

theorem stepToward_plug {side : Side} {path : List (Frame Ptr)} {tree : RBTree Ptr} {pNode : Ptr}
    (holds : mem.Holds (plug path tree)) (rooted : tree.rootValue = some pNode) {fuel : Nat}
    (enough : (plug path tree).toList.length ≤ fuel) :
    stepToward mem side pNode fuel = ((tree.child side).toward side ++ towardAfter side path).head? := by
  obtain ⟨stores, ctx⟩ := (represents_plug path tree).mp holds.represents
  rw [rooted] at ctx
  have shape := eq_mk_of_rootValue side rooted
  rw [shape] at stores
  obtain ⟨-, nearLink, -, -, -, nearStores, -⟩ := stores_mk.mp stores
  have treeShort : tree.toList.length ≤ fuel := by
    rw [length_toList_plug] at enough
    omega
  rw [stepToward, nearLink]
  cases nearRooted : (tree.child side).rootValue with
  | none =>
      have pathShort : path.length ≤ fuel := by
        have := length_le_pathNodes path
        rw [length_toList_plug] at enough
        omega
      rw [toward_eq_nil_iff.mpr nearRooted, List.nil_append, ctx.parent_hole]
      exact climbLoop_eq holds rooted pathShort
  | some current =>
      rw [List.head?_append, ← descendLoop_eq nearStores nearRooted (Nat.le_trans (length_child_le side tree) treeShort)]
      rfl

theorem stepToward_eq {side : Side} {whole : RBTree Ptr} (holds : mem.Holds whole) {pNode : Ptr}
    (member : pNode ∈ whole.toList) {fuel : Nat} (enough : whole.toList.length ≤ fuel) :
    ∃ front back, whole.toward side = front ++ pNode :: back ∧ stepToward mem side pNode fuel = back.head? := by
  obtain ⟨path, red, left, right, rfl⟩ := exists_plug_of_mem member
  have rooted : (node red left pNode right).rootValue = some pNode := rfl
  refine ⟨towardBefore side path ++ ((node red left pNode right).child side.flip).toward side,
    ((node red left pNode right).child side).toward side ++ towardAfter side path, ?_,
    stepToward_plug holds rooted enough⟩
  rw [toward_plug, eq_mk_of_rootValue side rooted, toward_mk, child_mk, child_flip_mk]
  simp only [List.append_assoc, List.cons_append]

end Walk

/-! ## The lookups answer what the list model answers -/

section Refine

variable {mem : MapMem Ptr} {map : MapBase Ptr} {tree : RBTree Ptr}

theorem MapMem.Carries.length (carries : mem.Carries map tree) : tree.toList.length = map.entries.length := by
  rw [carries.entries, MapMem.entriesOf, List.length_map]

theorem MapMem.Carries.nodes (carries : mem.Carries map tree) : map.entries.map Prod.snd = tree.toList := by
  rw [carries.entries, MapMem.entriesOf, List.map_map]
  exact List.map_id _

theorem find?_entries (mem : MapMem Ptr) (test : UInt64 → Bool) (nodes : List Ptr) :
    ((nodes.map fun p => (mem.key p, p)).find? fun entry => test entry.1).map Prod.snd =
      nodes.find? fun p => test (mem.key p) := by
  rw [List.find?_map, Option.map_map]
  exact Option.map_id'

theorem mapFindImpl_eq (carries : mem.Carries map tree) (key : UInt64) {fuel : Nat}
    (enough : map.entries.length < fuel) :
    mapFindImpl mem key fuel = (mapFind map key).map Prod.snd := by
  rw [mapFindImpl, carries.holds.represents.root,
    findLoop_eq carries.holds.represents.1 carries.sorted (carries.length ▸ enough), mapFind, carries.entries,
    MapMem.entriesOf, find?_entries mem (· == key)]

theorem mapFindGEQImpl_eq (carries : mem.Carries map tree) (keyMin : UInt64) {fuel : Nat}
    (enough : map.entries.length < fuel) :
    mapFindGEQImpl mem keyMin fuel = (mapFindGEQ map keyMin).map Prod.snd := by
  rw [mapFindGEQImpl, carries.holds.represents.root,
    findGEQLoop_eq carries.holds.represents.1 carries.sorted (carries.length ▸ enough), Option.or_none, mapFindGEQ,
    carries.entries, MapMem.entriesOf, find?_entries mem fun key => decide (keyMin ≤ key)]

theorem mapFindLEQImpl_eq (carries : mem.Carries map tree) (keyMax : UInt64) {fuel : Nat}
    (enough : map.entries.length < fuel) :
    mapFindLEQImpl mem keyMax fuel = (mapFindLEQ map keyMax).map Prod.snd := by
  rw [mapFindLEQImpl, carries.holds.represents.root,
    findLEQLoop_eq carries.holds.represents.1 carries.sorted (carries.length ▸ enough), Option.or_none, mapFindLEQ,
    carries.entries, MapMem.entriesOf, ← List.map_reverse, find?_entries mem fun key => decide (key ≤ keyMax)]

variable [DecidableEq Ptr]

theorem stepToward_eq_toward {d : Direction} {side : Side} (carries : mem.Carries map tree)
    (order : d.order map = (tree.toward side).map fun p => (mem.key p, p)) {pNode : Ptr}
    (member : pNode ∈ tree.toList) {fuel : Nat} (enough : map.entries.length < fuel) :
    stepToward mem side pNode fuel = (d.toward map (mem.key pNode)).map Prod.snd := by
  obtain ⟨front, back, split, step⟩ : ∃ front back, tree.toward side = front ++ pNode :: back ∧
      stepToward mem side pNode fuel = back.head? :=
    stepToward_eq carries.holds member (Nat.le_of_lt (carries.length ▸ enough))
  have sorted := d.sorted map
  rw [order, split, List.map_append, List.map_cons] at sorted
  have after := find?_after (fun a b => d.asymm a.1 b.1) sorted
  rw [step, d.toward_eq, order, split, List.map_append, List.map_cons]
  rw [after, List.head?_map, Option.map_map]
  exact Option.map_id'.symm

theorem mapNextImpl_eq (carries : mem.Carries map tree) {pNode : Ptr} (member : pNode ∈ tree.toList) {fuel : Nat}
    (enough : map.entries.length < fuel) :
    mapNextImpl mem pNode fuel = (mapNext map (mem.key pNode)).map Prod.snd :=
  stepToward_eq_toward (d := forward) carries (by simp only [forward, carries.entries, MapMem.entriesOf]; rfl)
    member enough

theorem mapPrevImpl_eq (carries : mem.Carries map tree) {pNode : Ptr} (member : pNode ∈ tree.toList) {fuel : Nat}
    (enough : map.entries.length < fuel) :
    mapPrevImpl mem pNode fuel = (mapPrev map (mem.key pNode)).map Prod.snd :=
  stepToward_eq_toward (d := backward) carries
    (by simp only [backward, carries.entries, MapMem.entriesOf, RBTree.toward, List.map_reverse]) member enough

/-- Over a memory that implements a map, `mapFind`, `mapFindGEQ` and
`mapFindLEQ` of every key, and `mapNext` and `mapPrev` from every node of the
map, return, node for value, what they return over the map's list of nodes. -/
theorem mapTree_lookups (impl : mem.Implements map) {fuel : Nat} (enough : map.entries.length < fuel) :
    (∀ key, mapFindImpl mem key fuel = (mapFind map key).map Prod.snd) ∧
      (∀ keyMin, mapFindGEQImpl mem keyMin fuel = (mapFindGEQ map keyMin).map Prod.snd) ∧
      (∀ keyMax, mapFindLEQImpl mem keyMax fuel = (mapFindLEQ map keyMax).map Prod.snd) ∧
      ∀ pNode ∈ map.entries.map Prod.snd,
        mapNextImpl mem pNode fuel = (mapNext map (mem.key pNode)).map Prod.snd ∧
          mapPrevImpl mem pNode fuel = (mapPrev map (mem.key pNode)).map Prod.snd := by
  obtain ⟨tree, carries⟩ := impl
  refine ⟨fun key => mapFindImpl_eq carries key enough, fun keyMin => mapFindGEQImpl_eq carries keyMin enough,
    fun keyMax => mapFindLEQImpl_eq carries keyMax enough, fun pNode member => ?_⟩
  rw [carries.nodes] at member
  exact ⟨mapNextImpl_eq carries member enough, mapPrevImpl_eq carries member enough⟩

/-- Nodes `0`, `1` and `2` keyed `10`, `20` and `30`: `1` black at the root,
`0` and `2` red below it. -/
def sampleMapMem : MapMem Nat where
  isRed p := p != 1
  parent p := if p = 1 then none else some 1
  left p := if p = 1 then some 0 else none
  right p := if p = 1 then some 2 else none
  root := some 1
  key p := 10 * (p.toUInt64 + 1)
  count := 3

def sampleMap : MapBase Nat := ⟨[(10, 0), (20, 1), (30, 2)], by decide⟩

theorem sampleMapMem_implements : sampleMapMem.Implements sampleMap := by
  refine ⟨node false (node true leaf 0 leaf) 1 (node true leaf 2 leaf), ⟨⟨?_, ?_⟩, by decide⟩, ?_, by decide, by decide⟩
  · simp [Mem.Stores, sampleMapMem, rootValue, Mem.ParentOf]
  · simp [Mem.StoresCtx, sampleMapMem, rootValue, Mem.ParentOf]
  · exact ⟨⟨1, 0, rfl, ⟨0, rfl, rfl, rfl⟩, 0, rfl, rfl, rfl⟩, by simp [RedFree, rootRed], rfl⟩

theorem sampleMap_lookups :
    sampleMapMem.Implements sampleMap ∧
      (∀ key, mapFindImpl sampleMapMem key 4 = (mapFind sampleMap key).map Prod.snd) ∧
      (∀ keyMin, mapFindGEQImpl sampleMapMem keyMin 4 = (mapFindGEQ sampleMap keyMin).map Prod.snd) ∧
      (∀ keyMax, mapFindLEQImpl sampleMapMem keyMax 4 = (mapFindLEQ sampleMap keyMax).map Prod.snd) ∧
      ∀ pNode ∈ sampleMap.entries.map Prod.snd,
        mapNextImpl sampleMapMem pNode 4 = (mapNext sampleMap (sampleMapMem.key pNode)).map Prod.snd ∧
          mapPrevImpl sampleMapMem pNode 4 = (mapPrev sampleMap (sampleMapMem.key pNode)).map Prod.snd :=
  ⟨sampleMapMem_implements, mapTree_lookups sampleMapMem_implements (by decide)⟩

end Refine

end NvidiaGpu.Map
