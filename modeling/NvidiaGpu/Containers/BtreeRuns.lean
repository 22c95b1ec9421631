import NvidiaGpu.Containers.BtreeUnlink

set_option autoImplicit false

/-! Runs of `btreeInsert` and `btreeUnlink` (`btree.c`) on one tree.  The list
of the tree's nodes in order is the abstract btree: an insertion of a node
whose interval meets none of theirs puts the node in its place in order, any
other insertion is refused, and an unlink takes the node out.

The run invariant is `BtreeMem.Implements`: each call of a run keeps it, so
from a memory that implements a list of nodes every run of insertions of nodes
with `keyStart <= keyEnd` and of unlinks of nodes of the tree answers what the
list model answers and leaves a well-formed red-black tree of the nodes the
list model holds. -/

namespace NvidiaGpu.Btree

open LinkedTree RedBlack

variable {Ptr : Type} [DecidableEq Ptr]

/-- The calls that change a btree: `btreeInsert` and `btreeUnlink` of a node. -/
inductive BtreeCall (Ptr : Type) where
  | insert (pNode : Ptr)
  | unlink (pNode : Ptr)
  deriving DecidableEq, Repr

/-! ## The list model -/

section Model

variable (mem : BtreeMem Ptr)

def Apart (nodes : List Ptr) (p : Ptr) : Prop :=
  ∀ q ∈ nodes, Before mem q p ∨ Before mem p q

instance (nodes : List Ptr) (p : Ptr) : Decidable (Apart mem nodes p) :=
  inferInstanceAs (Decidable (∀ q ∈ nodes, _))

def BtreeCall.status (nodes : List Ptr) : BtreeCall Ptr → NvStatus
  | .insert p => if Apart mem nodes p then .nvOk else .nvErrInsertDuplicateName
  | .unlink _ => .nvOk

def BtreeCall.apply (nodes : List Ptr) : BtreeCall Ptr → List Ptr
  | .insert p => if Apart mem nodes p then nodes.orderedInsert (Before mem) p else nodes
  | .unlink p => nodes.erase p

/-- What the callers of the btree guarantee: a node to insert has
`keyStart <= keyEnd`, a node to unlink is in the tree. -/
def BtreeCall.Allowed (nodes : List Ptr) : BtreeCall Ptr → Prop
  | .insert p => mem.keyStart p ≤ mem.keyEnd p
  | .unlink p => p ∈ nodes

instance BtreeCall.instDecidableAllowed (nodes : List Ptr) : (call : BtreeCall Ptr) → Decidable (call.Allowed mem nodes)
  | .insert _ => inferInstanceAs (Decidable (_ ≤ _))
  | .unlink p => inferInstanceAs (Decidable (p ∈ nodes))

def Admissible : List Ptr → List (BtreeCall Ptr) → Prop
  | _, [] => True
  | nodes, call :: calls => call.Allowed mem nodes ∧ Admissible (call.apply mem nodes) calls

instance instDecidableAdmissible : (nodes : List Ptr) → (calls : List (BtreeCall Ptr)) →
    Decidable (Admissible mem nodes calls)
  | _, [] => isTrue trivial
  | nodes, call :: calls =>
      have := instDecidableAdmissible (call.apply mem nodes) calls
      inferInstanceAs (Decidable (_ ∧ _))

def BtreeCall.answers : List Ptr → List (BtreeCall Ptr) → List NvStatus
  | _, [] => []
  | nodes, call :: calls => call.status mem nodes :: answers (call.apply mem nodes) calls

def BtreeCall.final (nodes : List Ptr) (calls : List (BtreeCall Ptr)) : List Ptr :=
  calls.foldl (fun nodes call => call.apply mem nodes) nodes

theorem BtreeCall.length_apply_le (nodes : List Ptr) (call : BtreeCall Ptr) :
    (call.apply mem nodes).length ≤ nodes.length + 1 := by
  cases call with
  | insert p =>
      rw [BtreeCall.apply]
      split
      · exact Nat.le_of_eq (List.orderedInsert_length _ nodes p)
      · exact Nat.le_succ _
  | unlink p => exact Nat.le_succ_of_le List.length_erase_le

end Model

/-! ## Runs of the code -/

/-- The call run on the memory: its status and the memory after it. -/
def BtreeCall.run (mem : BtreeMem Ptr) (fuel : Nat) : BtreeCall Ptr → Option (NvStatus × BtreeMem Ptr)
  | .insert p => btreeInsert mem (some p) fuel
  | .unlink p => btreeUnlink mem (some p) fuel

/-- The calls run on the memory, in order: what they answered and the memory
after them; `none` when one of them runs out of rounds. -/
def btreeRun (fuel : Nat) : BtreeMem Ptr → List (BtreeCall Ptr) → Option (List NvStatus × BtreeMem Ptr)
  | mem, [] => some ([], mem)
  | mem, call :: calls =>
      (call.run mem fuel).bind fun (status, mem) =>
        (btreeRun fuel mem calls).map fun (statuses, mem) => (status :: statuses, mem)

section Runs

variable {mem : BtreeMem Ptr} {fuel : Nat}

theorem btreeInsert_refused {nodes : List Ptr} (impl : mem.Implements nodes) {p : Ptr}
    (valid : mem.keyStart p ≤ mem.keyEnd p) (overlap : ¬Apart mem nodes p) (enough : nodes.length < fuel) :
    btreeInsert mem (some p) fuel = some (.nvErrInsertDuplicateName, mem) := by
  obtain ⟨tree, wf, -, rfl⟩ := impl
  have meets : ∃ q ∈ tree.toList, ¬Before mem q p ∧ ¬Before mem p q := by
    simpa only [Apart, not_forall, not_or, exists_prop] using overlap
  have refused := insertParentLoop_duplicate fuel none tree wf.subtree meets enough
  simp [btreeInsert, Nat.not_lt.mpr valid, wf.represents.root, refused]

/-- One call keeps the invariant.  The keys stay those of `mem`, so the list
model is read over `mem` while the links change. -/
theorem BtreeCall.run_refines {links : Mem Ptr} {nodes : List Ptr}
    (impl : ({ mem with toMem := links } : BtreeMem Ptr).Implements nodes) {call : BtreeCall Ptr}
    (allowed : call.Allowed mem nodes) (enough : nodes.length < fuel) :
    ∃ links', call.run { mem with toMem := links } fuel = some (call.status mem nodes, { mem with toMem := links' }) ∧
      ({ mem with toMem := links' } : BtreeMem Ptr).Implements (call.apply mem nodes) := by
  cases call with
  | insert p =>
      by_cases apart : Apart mem nodes p
      · obtain ⟨links', inserted, impl'⟩ := btreeInsert_ok impl allowed apart enough
        rw [BtreeCall.status, BtreeCall.apply, if_pos apart, if_pos apart]
        exact ⟨links', inserted, impl'⟩
      · rw [BtreeCall.status, BtreeCall.apply, if_neg apart, if_neg apart]
        exact ⟨links, btreeInsert_refused impl allowed apart enough, impl⟩
  | unlink p => exact btreeUnlink_ok impl allowed enough

theorem btreeRun_links (calls : List (BtreeCall Ptr)) : ∀ (links : Mem Ptr) (nodes : List Ptr),
    ({ mem with toMem := links } : BtreeMem Ptr).Implements nodes → Admissible mem nodes calls →
      nodes.length + calls.length < fuel →
      ∃ links', btreeRun fuel { mem with toMem := links } calls =
          some (BtreeCall.answers mem nodes calls, { mem with toMem := links' }) ∧
        ({ mem with toMem := links' } : BtreeMem Ptr).Implements (BtreeCall.final mem nodes calls) := by
  induction calls with
  | nil => exact fun links _ impl _ _ => ⟨links, rfl, impl⟩
  | cons call calls ih =>
      intro links nodes impl admissible enough
      obtain ⟨allowed, rest⟩ := admissible
      have longer := BtreeCall.length_apply_le mem nodes call
      rw [List.length_cons] at enough
      have short : nodes.length < fuel := by omega
      obtain ⟨links', step, impl'⟩ := BtreeCall.run_refines impl allowed short
      obtain ⟨final, run, implements⟩ := ih links' _ impl' rest (by omega)
      refine ⟨final, ?_, implements⟩
      rw [btreeRun, step, Option.bind_some]
      dsimp only
      rw [run, Option.map_some, BtreeCall.answers]

/-- From a memory that implements a list of nodes, every run of insertions of
nodes with `keyStart <= keyEnd` and of unlinks of nodes of the tree answers
what the list model answers, `NV_ERR_INSERT_DUPLICATE_NAME` exactly for the
insertions of a node whose interval meets one of the tree's, and leaves a
well-formed red-black tree whose nodes in order are those of the list model;
and from every such memory, a refused insertion leaves the memory as it was. -/
theorem btreeRun_refines {nodes : List Ptr} (impl : mem.Implements nodes) {calls : List (BtreeCall Ptr)}
    (admissible : Admissible mem nodes calls) (enough : nodes.length + calls.length < fuel) :
    (∃ mem', btreeRun fuel mem calls = some (BtreeCall.answers mem nodes calls, mem') ∧
      mem'.Implements (BtreeCall.final mem nodes calls)) ∧
    ∀ p, mem.keyStart p ≤ mem.keyEnd p → ¬Apart mem nodes p →
      btreeInsert mem (some p) fuel = some (.nvErrInsertDuplicateName, mem) := by
  obtain ⟨links, run, implements⟩ := btreeRun_links calls mem.toMem nodes impl admissible enough
  refine ⟨⟨_, run, implements⟩, fun p valid overlap => ?_⟩
  exact btreeInsert_refused impl valid overlap (by omega)

/-- The insertion of `3` on `[50, 59]`, of `4` on `[35, 44]`, which meets `2`,
and the unlinks of `1` and `3`. -/
def sampleBtreeCalls : List (BtreeCall Nat) :=
  [.insert 3, .insert 4, .unlink 1, .unlink 3]

theorem insertSampleMem_implements : insertSampleMem.Implements sampleTree.toList :=
  ⟨sampleTree, insertSampleMem_wellFormed, sampleTree_isRedBlack, rfl⟩

theorem sampleBtreeCalls_run :
    insertSampleMem.Implements sampleTree.toList ∧ Admissible insertSampleMem sampleTree.toList sampleBtreeCalls ∧
      (∃ mem', btreeRun 8 insertSampleMem sampleBtreeCalls =
          some (BtreeCall.answers insertSampleMem sampleTree.toList sampleBtreeCalls, mem') ∧
        mem'.Implements (BtreeCall.final insertSampleMem sampleTree.toList sampleBtreeCalls)) ∧
      ∀ p, insertSampleMem.keyStart p ≤ insertSampleMem.keyEnd p → ¬Apart insertSampleMem sampleTree.toList p →
        btreeInsert insertSampleMem (some p) 8 = some (.nvErrInsertDuplicateName, insertSampleMem) :=
  ⟨insertSampleMem_implements, by decide,
    btreeRun_refines insertSampleMem_implements (by decide) (by decide)⟩

example : BtreeCall.answers insertSampleMem sampleTree.toList sampleBtreeCalls =
    [.nvOk, .nvErrInsertDuplicateName, .nvOk, .nvOk] := by decide

example : BtreeCall.final insertSampleMem sampleTree.toList sampleBtreeCalls = [0, 2] := by decide

end Runs

end NvidiaGpu.Btree
