import NvidiaGpu.Containers.MapTree
import NvidiaGpu.Library.LinkedTreeRemove

set_option autoImplicit false

/-! The insertion and the removal of RM maps (`map.c`), node by node.
`_mapInsertBase` walks down to the leaf where the key belongs, links the node
in red and runs `_mapInsertFixup`; `mapRemoveIntrusive` takes the node or its
successor out with `_mapPutNodeInPosition` and `_mapAdoptChildrenNodes` and
runs `_mapDeleteFixup` when the node that left was black.

The two fix-ups are the repairs of `LinkedTree`, and the unlink writes what
its textbook unlink writes, the colour of the successor last, so over a memory
that implements a map each operation leaves a memory that implements what the
list model of `Containers.Map` makes of the map, over every run of them. -/

namespace NvidiaGpu.Map

open LinkedTree LinkedTree.Mem RedBlack NvidiaGpu.RedBlack.RBTree

variable {Ptr : Type}

/-! ## The code -/

section Code

/-- The `while (pCurrent != NULL)` loop of `_mapInsertBase`: left below the
key, right above it, recording the future parent; an error at a node with the
key.  `none` when the rounds run out. -/
def insertParentLoop (mem : MapMem Ptr) (key : UInt64) : Nat → Option Ptr → Option Ptr → Option (Except Unit (Option Ptr))
  | 0, _, _ => none
  | _ + 1, none, pParent => some (.ok pParent)
  | fuel + 1, some pCurrent, _ =>
      if key < mem.key pCurrent then insertParentLoop mem key fuel (mem.left pCurrent) (some pCurrent)
      else if key > mem.key pCurrent then insertParentLoop mem key fuel (mem.right pCurrent) (some pCurrent)
      else some (.error ())

variable [DecidableEq Ptr]

/-- `_mapInsertFixup`, with `_mapRotateLeft` and `_mapRotateRight` the
rotations `Mem.rotate .left` and `Mem.rotate .right`. -/
def mapInsertFixup (fuel : Nat) (mem : Mem Ptr) (x : Ptr) : Option (Mem Ptr) :=
  repairInsert fuel mem x

def mapDeleteFixup (fuel : Nat) (mem : Mem Ptr) (parentOfX x : Option Ptr) : Option (Mem Ptr) :=
  repairDelete fuel mem parentOfX x

/-- Steps 2 and 3 of `_mapInsertBase`, over the memory with the new node's key
written: its links, red and without children, and the link to it, the
parent's left child if its key is below the parent's, else the right one, or
the root pointer. -/
def mapLinkNode (mem : MapMem Ptr) (pNode : Ptr) (pParent : Option Ptr) : Mem Ptr :=
  let links := (((mem.toMem.setParent pNode pParent).setChild .left pNode none).setChild .right pNode none).setRed
    pNode true
  match pParent with
  | some pParent => links.setChild (if mem.key pNode < mem.key pParent then .left else .right) pParent (some pNode)
  | none => links.setRoot (some pNode)

/-- `_mapInsertBase`: `NV_FALSE` and the memory as it was for a key the map
holds, else `NV_TRUE` with the node keyed and linked in, the tree repaired and
the count one more; `none` only when a loop runs out of rounds or follows a
`NULL` link. -/
def mapInsertBase (mem : MapMem Ptr) (key : UInt64) (pNode : Ptr) (fuel : Nat) : Option (Bool × MapMem Ptr) :=
  match insertParentLoop mem key fuel mem.root none with
  | none => none
  | some (.error _) => some (false, mem)
  | some (.ok pParent) =>
      let keyed := { mem with key := Function.update mem.key pNode key }
      match mapInsertFixup fuel (mapLinkNode keyed pNode pParent) pNode with
      | none => none
      | some links => some (true, { keyed with toMem := links, count := keyed.count + 1 })

/-- `mapInsertExisting`: `NV_FALSE` for a `NULL` value, else `_mapInsertBase`
of its node. -/
def mapInsertExistingImpl (mem : MapMem Ptr) (key : UInt64) (pValue : Option Ptr) (fuel : Nat) :
    Option (Bool × MapMem Ptr) :=
  match pValue with
  | none => some (false, mem)
  | some pNode => mapInsertBase mem key pNode fuel

/-- `_mapPutNodeInPosition`: `pNewNode`, if any, takes the parent of
`pTargetPosition`, and the link that held `pTargetPosition` holds `pNewNode`. -/
def mapPutNodeInPosition (mem : Mem Ptr) (pTargetPosition : Ptr) (pNewNode : Option Ptr) : Mem Ptr :=
  let mem := mem.setParentOf pNewNode (mem.parent pTargetPosition)
  mem.relink .left (mem.parent pTargetPosition) pTargetPosition pNewNode

/-- `_mapAdoptChildrenNodes`: `pNewNode` takes the children of `pTargetNode`,
which point back at it. -/
def mapAdoptChildrenNodes (mem : Mem Ptr) (pTargetNode pNewNode : Ptr) : Mem Ptr :=
  let mem := mem.setChild .left pNewNode (mem.left pTargetNode)
  let mem := mem.setParentOf (mem.left pTargetNode) (some pNewNode)
  let mem := mem.setChild .right pNewNode (mem.right pTargetNode)
  mem.setParentOf (mem.right pTargetNode) (some pNewNode)

/-- Steps 1 to 4 of `mapRemoveIntrusive`: `y`, `z` or its successor, leaves
the parent chain, its child `x` put in its position, and when `y` is not `z`
it is put in `z`'s position, adopts `z`'s children and takes `z`'s colour.
The links, `parentOfX`, `x` and `yWasBlack`. -/
def mapUnlinkNodes (mem : Mem Ptr) (fuel : Nat) (z : Ptr) : Mem Ptr × Option Ptr × Option Ptr × Bool :=
  let y := mem.unlinkedNode fuel z
  let x := if (mem.left y).isSome then mem.left y else mem.right y
  let mem := mapPutNodeInPosition mem y x
  let parentOfX := mem.parent y
  let yWasBlack := !mem.isRed y
  if y ≠ z then
    let mem := mapAdoptChildrenNodes (mapPutNodeInPosition mem z (some y)) z y
    (mem.setRed y (mem.isRed z), if parentOfX = some z then some y else parentOfX, x, yWasBlack)
  else (mem, parentOfX, x, yWasBlack)

/-- `mapRemoveIntrusive`: nothing for `NULL`; else the unlink, then
`_mapDeleteFixup` when the node that left was black, and the count one less. -/
def mapRemoveIntrusiveImpl (mem : MapMem Ptr) (pValue : Option Ptr) (fuel : Nat) : Option (MapMem Ptr) :=
  match pValue with
  | none => some mem
  | some z =>
      match mapUnlinkNodes mem.toMem fuel z with
      | (links, parentOfX, x, yWasBlack) =>
          if yWasBlack then
            match mapDeleteFixup fuel links parentOfX x with
            | some links => some { mem with toMem := links, count := mem.count - 1 }
            | none => none
          else some { mem with toMem := links, count := mem.count - 1 }

def mapRemoveByKeyIntrusiveImpl (mem : MapMem Ptr) (key : UInt64) (fuel : Nat) : Option (MapMem Ptr) :=
  mapRemoveIntrusiveImpl mem (mapFindImpl mem key fuel) fuel

end Code

/-! ## The unlink -/

section Unlink

variable [DecidableEq Ptr] {mem : Mem Ptr}

theorem parent_mapPutNodeInPosition_self (y : Ptr) (x : Option Ptr) :
    (mapPutNodeInPosition mem y x).parent y = mem.parent y := by
  simp only [mapPutNodeInPosition, parent_relink, parent_setParentOf, ite_self]

theorem mapReplace_eq {z y : Ptr} (different : z ≠ y) :
    (mapAdoptChildrenNodes (mapPutNodeInPosition mem z (some y)) z y).setRed y
      ((mapAdoptChildrenNodes (mapPutNodeInPosition mem z (some y)) z y).isRed z) = mem.replace z y := by
  simp only [mapAdoptChildrenNodes, mapPutNodeInPosition, replace, setChild_setRed, setParentOf_setRed, left_setChild,
    right_setChild, left_setRed, right_setRed, isRed_setParentOf, isRed_setChild, isRed_relink, different,
    and_false, reduceCtorEq, if_false, right_setParentOf]
  rfl

theorem mapUnlinkNodes_eq (fuel : Nat) (z : Ptr) : mapUnlinkNodes mem fuel z = mem.unlinkNode fuel z := by
  simp only [mapUnlinkNodes, unlinkNode, parent_mapPutNodeInPosition_self]
  generalize mem.unlinkedNode fuel z = y
  generalize (if (mem.left y).isSome then mem.left y else mem.right y) = x
  by_cases moved : y ≠ z
  · rw [if_pos moved, if_pos moved, mapReplace_eq (Ne.symm moved)]
    rfl
  · rw [if_neg moved, if_neg moved]
    rfl

end Unlink

/-! ## The descent of `_mapInsertBase` -/

section Descent

variable {mem : MapMem Ptr} {key : UInt64}

theorem insertParentLoop_ok {sub : RBTree Ptr} (stores : mem.Stores sub)
    (sorted : sub.toList.Pairwise fun a b => mem.key a < mem.key b) (apart : ∀ q ∈ sub.toList, mem.key q ≠ key)
    (path : List (Frame Ptr)) {fuel : Nat} (enough : sub.toList.length < fuel) :
    ∃ inner, insertParentLoop mem key fuel sub.rootValue (parentOfPath path) =
        some (.ok (parentOfPath (inner ++ path))) ∧
      plug inner leaf = sub ∧ (∀ q ∈ before inner, mem.key q < key) ∧ ∀ q ∈ after inner, key < mem.key q := by
  induction sub generalizing path fuel with
  | leaf =>
      obtain ⟨rest, rfl⟩ : ∃ rest, fuel = rest + 1 := ⟨fuel - 1, by simp at enough; omega⟩
      exact ⟨[], rfl, rfl, by simp [before], by simp [after]⟩
  | node red left value right ihLeft ihRight =>
      obtain ⟨rest, rfl, leftShort, rightShort⟩ := length_lt_of_node enough
      obtain ⟨-, leftLink, rightLink, -, -, leftStores, rightStores⟩ := stores
      obtain ⟨leftSorted, rightSorted, below, above⟩ := sorted_node sorted
      have other : mem.key value ≠ key := apart value (by simp [toList])
      show ∃ inner, insertParentLoop mem key (rest + 1) (some value) (parentOfPath path) = _ ∧ _
      rw [insertParentLoop]
      by_cases goLeft : key < mem.key value
      · obtain ⟨inner, loop, plugged, lower, higher⟩ := ihLeft leftStores leftSorted
          (fun q inside => apart q (by simp [toList, inside])) (⟨.left, red, value, right⟩ :: path) leftShort
        refine ⟨inner ++ [⟨.left, red, value, right⟩], ?_, by rw [plug_append, plugged]; rfl,
          fun q inside => lower q (by simpa [before_append, before, Frame.before] using inside), fun q inside => ?_⟩
        · rw [if_pos goLeft, leftLink, List.append_assoc, List.singleton_append]
          exact loop
        · simp only [after_append, after, Frame.after, List.append_nil, List.mem_append, List.mem_cons] at inside
          rcases inside with inInner | rfl | inRight
          · exact higher q inInner
          · exact goLeft
          · exact UInt64.lt_trans goLeft (above q inRight)
      · have goRight : key > mem.key value := UInt64.lt_of_le_of_ne (UInt64.not_lt.mp goLeft) other
        obtain ⟨inner, loop, plugged, lower, higher⟩ := ihRight rightStores rightSorted
          (fun q inside => apart q (by simp [toList, inside])) (⟨.right, red, value, left⟩ :: path) rightShort
        refine ⟨inner ++ [⟨.right, red, value, left⟩], ?_, by rw [plug_append, plugged]; rfl, fun q inside => ?_,
          fun q inside => higher q (by simpa [after_append, after, Frame.after] using inside)⟩
        · rw [if_neg goLeft, if_pos goRight, rightLink, List.append_assoc, List.singleton_append]
          exact loop
        · simp only [before_append, before, Frame.before, List.nil_append, List.mem_append, List.mem_singleton]
            at inside
          rcases inside with (inLeft | rfl) | inInner
          · exact UInt64.lt_trans (below q inLeft) goRight
          · exact goRight
          · exact lower q inInner

theorem insertParentLoop_duplicate {sub : RBTree Ptr} (stores : mem.Stores sub)
    (sorted : sub.toList.Pairwise fun a b => mem.key a < mem.key b) (held : ∃ q ∈ sub.toList, mem.key q = key)
    (parent : Option Ptr) {fuel : Nat} (enough : sub.toList.length < fuel) :
    insertParentLoop mem key fuel sub.rootValue parent = some (.error ()) := by
  induction sub generalizing parent fuel with
  | leaf =>
      obtain ⟨q, inside, -⟩ := held
      cases inside
  | node red left value right ihLeft ihRight =>
      obtain ⟨rest, rfl, leftShort, rightShort⟩ := length_lt_of_node enough
      obtain ⟨-, leftLink, rightLink, -, -, leftStores, rightStores⟩ := stores
      obtain ⟨leftSorted, rightSorted, below, above⟩ := sorted_node sorted
      obtain ⟨q, inside, keyed⟩ := held
      rw [toList, List.mem_append, List.mem_cons] at inside
      show insertParentLoop mem key (rest + 1) (some value) parent = _
      rw [insertParentLoop]
      by_cases goLeft : key < mem.key value
      · have inLeft : q ∈ left.toList := by
          rcases inside with inLeft | rfl | inRight
          · exact inLeft
          · exact absurd keyed (UInt64.ne_of_lt goLeft).symm
          · exact absurd keyed (UInt64.ne_of_lt (UInt64.lt_trans goLeft (above q inRight))).symm
        rw [if_pos goLeft, leftLink]
        exact ihLeft leftStores leftSorted ⟨q, inLeft, keyed⟩ _ leftShort
      · rw [if_neg goLeft]
        by_cases goRight : key > mem.key value
        · have inRight : q ∈ right.toList := by
            rcases inside with inLeft | rfl | inRight
            · exact absurd keyed (UInt64.ne_of_lt (UInt64.lt_trans (below q inLeft) goRight))
            · exact absurd keyed (UInt64.ne_of_lt goRight)
            · exact inRight
          rw [if_pos goRight, rightLink]
          exact ihRight rightStores rightSorted ⟨q, inRight, keyed⟩ _ rightShort
        · rw [if_neg goRight]

end Descent

/-! ## Insertion and removal refine those of the list model -/

section Refine

variable [DecidableEq Ptr] {mem : MapMem Ptr} {map : MapBase Ptr} {tree : RBTree Ptr} {key : UInt64} {pNode : Ptr}

theorem mapLinkNode_eq {path : List (Frame Ptr)} (off : pNode ∉ pathNodes path)
    (lower : ∀ q ∈ before path, mem.key q < key) (higher : ∀ q ∈ after path, key < mem.key q) :
    mapLinkNode { mem with key := Function.update mem.key pNode key } pNode (parentOfPath path) =
      ((((mem.toMem.setParent pNode (parentOfPath path)).setChild .left pNode none).setChild .right pNode
        none).setRed pNode true).linkAt path pNode := by
  cases path with
  | nil => rfl
  | cons frame rest =>
      rcases frame with ⟨side, red, value, sibling⟩
      have apart : value ≠ pNode := fun same => off (by simp [same])
      cases side with
      | left =>
          have ends : key < mem.key value := higher value (by simp [after, Frame.after])
          simp only [mapLinkNode, linkAt, parentOfPath_cons, Function.update_self, Function.update_of_ne apart,
            if_pos ends]
      | right =>
          have starts : mem.key value < key := lower value (by simp [before, Frame.before])
          simp only [mapLinkNode, linkAt, parentOfPath_cons, Function.update_self, Function.update_of_ne apart,
            if_neg (lt_asymm starts)]

omit [DecidableEq Ptr] in
theorem MapMem.Carries.keys (carries : mem.Carries map tree) : mapKeys map = tree.toList.map mem.key := by
  rw [mapKeys, carries.entries, MapMem.entriesOf, List.map_map]
  rfl

theorem entries_update {nodes : List Ptr} (off : pNode ∉ nodes) :
    nodes.map (fun p => (Function.update mem.key pNode key p, p)) = nodes.map fun p => (mem.key p, p) :=
  List.map_congr_left fun p inside => by rw [Function.update_of_ne fun (same : p = pNode) => off (same ▸ inside)]

theorem mapInsertBase_inserts (carries : mem.Carries map tree) (absent : key ∉ mapKeys map)
    (fresh : pNode ∉ tree.toList) {fuel : Nat} (enough : map.entries.length < fuel) :
    ∃ mem', mapInsertBase mem key pNode fuel = some (true, mem') ∧
      mem'.Implements ⟨insertEntry key pNode map.entries, sorted_insertEntry map.sorted absent⟩ := by
  have apart : ∀ q ∈ tree.toList, mem.key q ≠ key := fun q inside same =>
    absent (by rw [carries.keys]; exact List.mem_map.mpr ⟨q, inside, same⟩)
  obtain ⟨path, descent, rfl, lower, higher⟩ :=
    insertParentLoop_ok carries.holds.represents.1 carries.sorted apart [] (carries.length ▸ enough)
  rw [List.append_nil, parentOfPath_nil] at descent
  have split : (plug path leaf).toList = before path ++ after path := by simp [toList_plug]
  have off : pNode ∉ pathNodes path := fun above => fresh (mem_plug.mpr (.inr above))
  have linked := Mem.Represents.hang carries.holds.represents carries.holds.distinct fresh true
  rw [← mapLinkNode_eq off lower higher] at linked
  have placed : (plug path (node true leaf pNode leaf)).toList = before path ++ pNode :: after path := by
    simp [toList_plug]
  have distinct : (plug path (node true leaf pNode leaf)).toList.Nodup := by
    rw [placed, List.perm_middle.nodup_iff, List.nodup_cons, ← split]
    exact ⟨fresh, carries.holds.distinct⟩
  have short : path.length < fuel := calc
    path.length ≤ (pathNodes path).length := length_le_pathNodes path
    _ = (plug path leaf).toList.length := by rw [length_toList_plug, toList_leaf, List.length_nil, Nat.zero_add]
    _ < fuel := carries.length ▸ enough
  obtain ⟨links, whole, fixup, holds, wholeRedBlack, order⟩ :=
    repairInsert_spec ⟨linked, distinct⟩ rfl (InsertInv.start carries.redBlack pNode) short
  rw [placed] at order
  refine ⟨{ mem with key := Function.update mem.key pNode key, toMem := links, count := mem.count + 1 }, ?_, whole,
    holds, wholeRedBlack, ?_, ?_⟩
  · simp [mapInsertBase, carries.holds.represents.root, descent, mapInsertFixup, fixup]
  · have outFront : pNode ∉ before path := fun inside => fresh (split ▸ List.mem_append_left _ inside)
    have outBack : pNode ∉ after path := fun inside => fresh (split ▸ List.mem_append_right _ inside)
    dsimp only [MapMem.entriesOf]
    rw [order, List.map_append, List.map_cons, entries_update outFront, entries_update outBack,
      Function.update_self, carries.entries, MapMem.entriesOf, split, List.map_append]
    exact insertEntry_middle (by simpa using lower) (by simpa using higher)
  · simp only [mapCount, (insertEntry_perm key pNode map.entries).length_eq, List.length_cons, toUInt32_succ,
      carries.count]

theorem mapInsertBase_duplicate (carries : mem.Carries map tree) (held : key ∈ mapKeys map) (pNode : Ptr)
    {fuel : Nat} (enough : map.entries.length < fuel) : mapInsertBase mem key pNode fuel = some (false, mem) := by
  rw [carries.keys, List.mem_map] at held
  have refused := insertParentLoop_duplicate carries.holds.represents.1 carries.sorted held none
    (carries.length ▸ enough)
  simp [mapInsertBase, carries.holds.represents.root, refused]

theorem mapInsertExisting_refines (impl : mem.Implements map) (key : UInt64) (fresh : pNode ∉ map.entries.map Prod.snd)
    {fuel : Nat} (enough : map.entries.length < fuel) :
    ∃ mem', mapInsertExistingImpl mem key (some pNode) fuel = some (decide (key ∉ mapKeys map), mem') ∧
      mem'.Implements ((mapInsert map key pNode).getD map) := by
  obtain ⟨tree, carries⟩ := impl
  by_cases held : key ∈ mapKeys map
  · refine ⟨mem, by simp [mapInsertExistingImpl, mapInsertBase_duplicate carries held pNode enough, held], ?_⟩
    rw [mapInsert, dif_pos held]
    exact ⟨tree, carries⟩
  · obtain ⟨mem', inserted, implements⟩ := mapInsertBase_inserts carries held (carries.nodes ▸ fresh) enough
    refine ⟨mem', by simp [mapInsertExistingImpl, inserted, held], ?_⟩
    rw [mapInsert_of_not_mem map held]
    exact implements

theorem mapRemoveIntrusiveImpl_eq (z : Ptr) (fuel : Nat) :
    mapRemoveIntrusiveImpl mem (some z) fuel =
      (mem.toMem.removeNode fuel z).map fun links => { mem with toMem := links, count := mem.count - 1 } := by
  rw [mapRemoveIntrusiveImpl, mapUnlinkNodes_eq, removeNode]
  obtain ⟨links, parentOfX, x, yWasBlack⟩ := mem.toMem.unlinkNode fuel z
  dsimp only
  cases yWasBlack with
  | false => rfl
  | true =>
      rw [if_pos rfl, if_pos rfl, mapDeleteFixup]
      cases repairDelete fuel links parentOfX x <;> rfl

theorem mapRemoveIntrusiveImpl_removes (carries : mem.Carries map tree) {z : Ptr} (member : z ∈ tree.toList)
    {fuel : Nat} (enough : map.entries.length < fuel) :
    ∃ mem', mapRemoveIntrusiveImpl mem (some z) fuel = some mem' ∧ mem'.Implements (mapRemove map (mem.key z)) := by
  obtain ⟨links, whole, removed, holds, wholeRedBlack, front, back, split, order⟩ :=
    removeNode_spec carries.holds carries.redBlack member (carries.length ▸ enough)
  have sorted := carries.sorted
  rw [split, List.pairwise_append, List.pairwise_cons] at sorted
  have below : ∀ entry ∈ front.map (fun p => (mem.key p, p)), entry.1 < mem.key z := by
    intro entry inside
    obtain ⟨p, inFront, rfl⟩ := List.mem_map.mp inside
    exact sorted.2.2 p inFront z List.mem_cons_self
  have above : ∀ entry ∈ back.map (fun p => (mem.key p, p)), mem.key z < entry.1 := by
    intro entry inside
    obtain ⟨p, inBack, rfl⟩ := List.mem_map.mp inside
    exact sorted.2.1.1 p inBack
  have entriesSplit : map.entries =
      front.map (fun p => (mem.key p, p)) ++ (mem.key z, z) :: back.map fun p => (mem.key p, p) := by
    rw [carries.entries, MapMem.entriesOf, split, List.map_append, List.map_cons]
  have held : mem.key z ∈ mapKeys map := by
    rw [carries.keys, split]
    simp
  refine ⟨{ mem with toMem := links, count := mem.count - 1 }, by rw [mapRemoveIntrusiveImpl_eq, removed, Option.map_some],
    whole, holds, wholeRedBlack, ?_, ?_⟩
  · rw [entries_mapRemove map entriesSplit below above, MapMem.entriesOf, order, List.map_append]
  · have shorter := length_mapRemove map held
    have fewer : (mapRemove map (mem.key z)).entries.length = map.entries.length - 1 := by omega
    rw [mapCount, fewer, toUInt32_pred (by omega), ← mapCount, ← carries.count]

theorem mapRemoveByKey_refines (impl : mem.Implements map) (key : UInt64) {fuel : Nat}
    (enough : map.entries.length < fuel) :
    ∃ mem', mapRemoveByKeyIntrusiveImpl mem key fuel = some mem' ∧ mem'.Implements (mapRemove map key) := by
  obtain ⟨tree, carries⟩ := impl
  rw [mapRemoveByKeyIntrusiveImpl, mapFindImpl_eq carries key enough]
  cases found : mapFind map key with
  | none =>
      rw [mapRemove_of_not_mem map ((mapFind_eq_none_iff map).mp found)]
      exact ⟨mem, rfl, tree, carries⟩
  | some entry =>
      obtain ⟨member, rfl⟩ := (mapFind_eq_some_iff map).mp found
      rw [carries.entries, MapMem.entriesOf] at member
      obtain ⟨z, inside, rfl⟩ := List.mem_map.mp member
      exact mapRemoveIntrusiveImpl_removes carries inside enough

end Refine

/-! ## Runs of calls -/

/-- The calls that change a map: `mapInsertExisting` of a node under a key,
and `mapRemoveByKeyIntrusive`. -/
inductive MapCall (Ptr : Type) where
  | insertExisting (key : UInt64) (pNode : Ptr)
  | removeByKey (key : UInt64)
  deriving DecidableEq, Repr

def MapCall.apply (map : MapBase Ptr) : MapCall Ptr → MapBase Ptr
  | .insertExisting key pNode => (mapInsert map key pNode).getD map
  | .removeByKey key => mapRemove map key

/-- What the insertions of a run over the list model answer, in order: whether
the key was new. -/
def MapCall.answers : MapBase Ptr → List (MapCall Ptr) → List Bool
  | _, [] => []
  | map, .insertExisting key pNode :: calls =>
      decide (key ∉ mapKeys map) :: answers ((MapCall.insertExisting key pNode).apply map) calls
  | map, .removeByKey key :: calls => answers ((MapCall.removeByKey key).apply map) calls

def FreshInserts : MapBase Ptr → List (MapCall Ptr) → Prop
  | _, [] => True
  | map, .insertExisting key pNode :: calls =>
      pNode ∉ map.entries.map Prod.snd ∧ FreshInserts ((MapCall.insertExisting key pNode).apply map) calls
  | map, .removeByKey key :: calls => FreshInserts ((MapCall.removeByKey key).apply map) calls

instance instDecidableFreshInserts [DecidableEq Ptr] :
    (map : MapBase Ptr) → (calls : List (MapCall Ptr)) → Decidable (FreshInserts map calls)
  | _, [] => isTrue trivial
  | map, .insertExisting key pNode :: calls =>
      have := instDecidableFreshInserts ((MapCall.insertExisting key pNode).apply map) calls
      inferInstanceAs (Decidable (_ ∧ _))
  | map, .removeByKey key :: calls => instDecidableFreshInserts ((MapCall.removeByKey key).apply map) calls

theorem length_apply_le (map : MapBase Ptr) (call : MapCall Ptr) :
    (call.apply map).entries.length ≤ map.entries.length + 1 := by
  cases call with
  | insertExisting key pNode =>
      rcases mapInsert_cases map key pNode with ⟨-, refused⟩ | ⟨inserted, -, accepted, perm⟩
      · rw [MapCall.apply, refused, Option.getD_none]
        omega
      · exact Nat.le_of_eq (by rw [MapCall.apply, accepted, Option.getD_some, perm.length_eq, List.length_cons])
  | removeByKey key =>
      have fewer := (List.filter_sublist (p := fun entry : UInt64 × Ptr => entry.1 != key) (l := map.entries)).length_le
      exact Nat.le_succ_of_le fewer

section Runs

variable [DecidableEq Ptr]

/-- The calls run on the memory, in order: the memory after them and what the
insertions answered; `none` when one of them runs out of rounds. -/
def mapRun (fuel : Nat) : MapMem Ptr → List (MapCall Ptr) → Option (MapMem Ptr × List Bool)
  | mem, [] => some (mem, [])
  | mem, .insertExisting key pNode :: calls =>
      (mapInsertExistingImpl mem key (some pNode) fuel).bind fun (inserted, mem) =>
        (mapRun fuel mem calls).map fun (mem, answers) => (mem, inserted :: answers)
  | mem, .removeByKey key :: calls => (mapRemoveByKeyIntrusiveImpl mem key fuel).bind fun mem => mapRun fuel mem calls

/-- From a memory that implements a map, a run of insertions of nodes outside
the map and of removals by key answers what the list model answers and leaves
a memory that implements what the list model makes of the map: the tree stays
a red-black tree of distinct nodes in key order, with the map's entries and
count, over every such run. -/
theorem mapTree_run {mem : MapMem Ptr} {map : MapBase Ptr} (impl : mem.Implements map) {calls : List (MapCall Ptr)}
    (fresh : FreshInserts map calls) {fuel : Nat} (enough : map.entries.length + calls.length < fuel) :
    ∃ mem', mapRun fuel mem calls = some (mem', MapCall.answers map calls) ∧
      mem'.Implements (calls.foldl MapCall.apply map) := by
  induction calls generalizing mem map with
  | nil => exact ⟨mem, rfl, impl⟩
  | cons call calls ih =>
      have longer := length_apply_le map call
      simp only [List.length_cons] at enough
      have short : map.entries.length < fuel := by omega
      have rest : (call.apply map).entries.length + calls.length < fuel := by omega
      cases call with
      | insertExisting key pNode =>
          obtain ⟨fresh, freshRest⟩ := fresh
          obtain ⟨mem', step, impl'⟩ := mapInsertExisting_refines impl key fresh short
          obtain ⟨final, run, implements⟩ := ih impl' freshRest rest
          exact ⟨final, by rw [mapRun, step, Option.bind_some]; simp [run, MapCall.answers, MapCall.apply], implements⟩
      | removeByKey key =>
          obtain ⟨mem', step, impl'⟩ := mapRemoveByKey_refines impl key short
          obtain ⟨final, run, implements⟩ := ih impl' fresh rest
          exact ⟨final, by rw [mapRun, step, Option.bind_some]; exact run, implements⟩

/-- An insertion under a new key, a removal, an insertion under a held key,
and the removal of the root's key. -/
def sampleCalls : List (MapCall Nat) :=
  [.insertExisting 25 3, .removeByKey 10, .insertExisting 30 4, .removeByKey 20]

theorem sampleCalls_run :
    sampleMapMem.Implements sampleMap ∧ FreshInserts sampleMap sampleCalls ∧
      ∃ mem', mapRun 8 sampleMapMem sampleCalls = some (mem', MapCall.answers sampleMap sampleCalls) ∧
        mem'.Implements (sampleCalls.foldl MapCall.apply sampleMap) :=
  ⟨sampleMapMem_implements, by decide, mapTree_run sampleMapMem_implements (by decide) (by decide)⟩

end Runs

end NvidiaGpu.Map
