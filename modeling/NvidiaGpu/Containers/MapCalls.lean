import NvidiaGpu.Containers.MapTreeUpdate
import NvidiaGpu.Containers.MapTreeIter

set_option autoImplicit false

/-! The calls of `map.c` that change a map, non-intrusive and intrusive:
`mapInsertNew`, `mapInsertValue` and `mapInsertExisting`, and `mapRemove`,
`mapRemoveIntrusive` and `mapRemoveByKey`.  A non-intrusive map allocates its
nodes, each with room for a value; the value of an intrusive map's node is
the caller's object around it.  The value bytes of every node are one more
field of the memory, and what `PORT_ALLOC` returns is an argument of a call.

The list model of a map with values is its entries, key and node in order,
with the value store.  Each call keeps a memory that refines the model
refining it, so over every run of calls the tree stays a red-black tree of
the model's nodes in key order with the model's count, the values are the
model's, and the lookups and the iteration of the memory agree with the
model's list. -/

namespace NvidiaGpu.Map

open LinkedTree RedBlack

variable {V Ptr : Type}

/-- A map's memory with the value bytes of every node. -/
structure MapState (V Ptr : Type) extends MapMem Ptr where
  value : Ptr → V

/-- What a call returns: the value pointer of `mapInsertNew` and
`mapInsertValue`, the flag of `mapInsertExisting`, nothing for a removal. -/
inductive MapAnswer (Ptr : Type) where
  | value (pValue : Option Ptr)
  | inserted (result : Bool)
  | done
  deriving DecidableEq, Repr

/-- The calls that change a map.  `allocated` is what `PORT_ALLOC` returned,
`NULL` when it failed; `pValue` of `mapInsertValue` is the value to copy. -/
inductive MapOp (V Ptr : Type) where
  | insertNew (key : UInt64) (allocated : Option Ptr)
  | insertValue (key : UInt64) (pValue : Option V) (allocated : Option Ptr)
  | insertExisting (key : UInt64) (pValue : Option Ptr)
  | remove (pValue : Option Ptr)
  | removeIntrusive (pValue : Option Ptr)
  | removeByKey (key : UInt64)
  deriving DecidableEq, Repr

/-! ## The code -/

section Code

variable [DecidableEq Ptr] (zero : V)

/-- `mapInsertNew`: the new node is zeroed, value and all, and handed to
`_mapInsertBase`; a refused node is freed and `NULL` returned.  The zeroed
links, key and colour are written again by `_mapInsertBase` before they are
read, so only the zeroed value is kept. -/
def mapInsertNewImpl (state : MapState V Ptr) (key : UInt64) (allocated : Option Ptr) (fuel : Nat) :
    Option (Option Ptr × MapState V Ptr) :=
  match allocated with
  | none => some (none, state)
  | some pNode =>
      let zeroed := { state with value := Function.update state.value pNode zero }
      match mapInsertBase zeroed.toMapMem key pNode fuel with
      | none => none
      | some (false, _) => some (none, zeroed)
      | some (true, mem) => some (some pNode, { zeroed with toMapMem := mem })

/-- `mapInsertValue`: `NULL` for a `NULL` value, else `mapInsertNew` and the
value copied into the new node. -/
def mapInsertValueImpl (state : MapState V Ptr) (key : UInt64) (pValue : Option V) (allocated : Option Ptr)
    (fuel : Nat) : Option (Option Ptr × MapState V Ptr) :=
  match pValue with
  | none => some (none, state)
  | some value =>
      (mapInsertNewImpl zero state key allocated fuel).map fun (pCurrent, state) =>
        match pCurrent with
        | none => (none, state)
        | some pCurrent => (some pCurrent, { state with value := Function.update state.value pCurrent value })

/-- `mapRemove`: `mapRemoveIntrusive`, then `PORT_FREE` of the node, which
changes nothing the map reads; for `NULL` both do nothing. -/
def mapRemoveImpl (state : MapState V Ptr) (pValue : Option Ptr) (fuel : Nat) : Option (MapState V Ptr) :=
  (mapRemoveIntrusiveImpl state.toMapMem pValue fuel).map fun mem => { state with toMapMem := mem }

def mapRemoveByKeyImpl (state : MapState V Ptr) (key : UInt64) (fuel : Nat) : Option (MapState V Ptr) :=
  mapRemoveImpl state (mapFindImpl state.toMapMem key fuel) fuel

/-- The call run on the memory: its answer and the memory after it. -/
def MapOp.run (state : MapState V Ptr) (fuel : Nat) : MapOp V Ptr → Option (MapAnswer Ptr × MapState V Ptr)
  | .insertNew key allocated =>
      (mapInsertNewImpl zero state key allocated fuel).map fun (pValue, state) => (.value pValue, state)
  | .insertValue key pValue allocated =>
      (mapInsertValueImpl zero state key pValue allocated fuel).map fun (pValue, state) => (.value pValue, state)
  | .insertExisting key pValue =>
      (mapInsertExistingImpl state.toMapMem key pValue fuel).map fun (inserted, mem) =>
        (.inserted inserted, { state with toMapMem := mem })
  | .remove pValue | .removeIntrusive pValue => (mapRemoveImpl state pValue fuel).map fun state => (.done, state)
  | .removeByKey key => (mapRemoveByKeyImpl state key fuel).map fun state => (.done, state)

/-- The calls run on the memory, in order: their answers and the memory after
them; `none` when one of them runs out of rounds. -/
def mapOpRun (fuel : Nat) : MapState V Ptr → List (MapOp V Ptr) → Option (List (MapAnswer Ptr) × MapState V Ptr)
  | state, [] => some ([], state)
  | state, op :: ops =>
      (op.run zero state fuel).bind fun (answer, state) =>
        (mapOpRun fuel state ops).map fun (answers, state) => (answer :: answers, state)

end Code

/-! ## The list model -/

/-- A map's entries, key and node in order, with the value store. -/
structure MapModel (V Ptr : Type) where
  map : MapBase Ptr
  value : Ptr → V

section Model

variable [DecidableEq Ptr] (zero : V)

def nodeKey (map : MapBase Ptr) (pNode : Ptr) : Option UInt64 :=
  (map.entries.find? fun entry => entry.2 == pNode).map Prod.fst

def MapModel.insertNew (model : MapModel V Ptr) (key : UInt64) : Option Ptr → Option Ptr × MapModel V Ptr
  | none => (none, model)
  | some pNode =>
      let zeroed := { model with value := Function.update model.value pNode zero }
      if key ∈ mapKeys model.map then (none, zeroed)
      else (some pNode, { zeroed with map := (mapInsert model.map key pNode).getD model.map })

def MapModel.insertValue (model : MapModel V Ptr) (key : UInt64) (pValue : Option V) (allocated : Option Ptr) :
    Option Ptr × MapModel V Ptr :=
  match pValue with
  | none => (none, model)
  | some value =>
      match model.insertNew zero key allocated with
      | (none, model) => (none, model)
      | (some pNode, model) => (some pNode, { model with value := Function.update model.value pNode value })

def MapModel.remove (model : MapModel V Ptr) : Option Ptr → MapModel V Ptr
  | none => model
  | some pNode => { model with map := ((nodeKey model.map pNode).map (mapRemove model.map)).getD model.map }

def MapOp.step (model : MapModel V Ptr) : MapOp V Ptr → MapAnswer Ptr × MapModel V Ptr
  | .insertNew key allocated => Prod.map .value id (model.insertNew zero key allocated)
  | .insertValue key pValue allocated => Prod.map .value id (model.insertValue zero key pValue allocated)
  | .insertExisting _ none => (.inserted false, model)
  | .insertExisting key (some pNode) =>
      (.inserted (decide (key ∉ mapKeys model.map)), { model with map := (mapInsert model.map key pNode).getD model.map })
  | .remove pValue | .removeIntrusive pValue => (.done, model.remove pValue)
  | .removeByKey key => (.done, { model with map := mapRemove model.map key })

/-- What the callers of a map guarantee: an allocated node or a node to insert
is outside the map, a node to remove is in it. -/
def MapOp.Allowed (model : MapModel V Ptr) : MapOp V Ptr → Prop
  | .insertNew _ allocated | .insertValue _ _ allocated | .insertExisting _ allocated =>
      ∀ pNode ∈ allocated, pNode ∉ model.map.entries.map Prod.snd
  | .remove pValue | .removeIntrusive pValue => ∀ pNode ∈ pValue, pNode ∈ model.map.entries.map Prod.snd
  | .removeByKey _ => True

instance MapOp.instDecidableAllowed (model : MapModel V Ptr) : (op : MapOp V Ptr) → Decidable (op.Allowed model)
  | .insertNew _ allocated | .insertValue _ _ allocated | .insertExisting _ allocated =>
      inferInstanceAs (Decidable (∀ pNode ∈ allocated, _))
  | .remove pValue | .removeIntrusive pValue => inferInstanceAs (Decidable (∀ pNode ∈ pValue, _))
  | .removeByKey _ => instDecidableTrue

def MapOp.Admissible : MapModel V Ptr → List (MapOp V Ptr) → Prop
  | _, [] => True
  | model, op :: ops => op.Allowed model ∧ Admissible (op.step zero model).2 ops

instance MapOp.instDecidableAdmissible : (model : MapModel V Ptr) → (ops : List (MapOp V Ptr)) →
    Decidable (MapOp.Admissible zero model ops)
  | _, [] => isTrue trivial
  | model, op :: ops =>
      have := MapOp.instDecidableAdmissible (op.step zero model).2 ops
      inferInstanceAs (Decidable (_ ∧ _))

def MapOp.answers : MapModel V Ptr → List (MapOp V Ptr) → List (MapAnswer Ptr)
  | _, [] => []
  | model, op :: ops => (op.step zero model).1 :: answers (op.step zero model).2 ops

def MapOp.final (model : MapModel V Ptr) (ops : List (MapOp V Ptr)) : MapModel V Ptr :=
  ops.foldl (fun model op => (op.step zero model).2) model

theorem MapModel.map_insertValue (model : MapModel V Ptr) (key : UInt64) (value : V) (allocated : Option Ptr) :
    (model.insertValue zero key (some value) allocated).2.map = (model.insertNew zero key allocated).2.map := by
  rw [MapModel.insertValue]
  obtain ⟨pNode, model'⟩ := model.insertNew zero key allocated
  cases pNode <;> rfl

theorem MapModel.length_insertNew_le (model : MapModel V Ptr) (key : UInt64) (allocated : Option Ptr) :
    (model.insertNew zero key allocated).2.map.entries.length ≤ model.map.entries.length + 1 := by
  cases allocated with
  | none => exact Nat.le_succ _
  | some pNode =>
      by_cases held : key ∈ mapKeys model.map
      · simp only [MapModel.insertNew, if_pos held]
        exact Nat.le_succ _
      · simp only [MapModel.insertNew, if_neg held]
        exact length_apply_le model.map (.insertExisting key pNode)

theorem MapModel.length_remove_le (model : MapModel V Ptr) (pValue : Option Ptr) :
    (model.remove pValue).map.entries.length ≤ model.map.entries.length + 1 := by
  cases pValue with
  | none => exact Nat.le_succ _
  | some pNode =>
      rw [MapModel.remove]
      cases nodeKey model.map pNode with
      | none => exact Nat.le_succ _
      | some key => exact length_apply_le model.map (.removeByKey key)

theorem MapOp.length_step_le (model : MapModel V Ptr) (op : MapOp V Ptr) :
    (op.step zero model).2.map.entries.length ≤ model.map.entries.length + 1 := by
  cases op with
  | insertNew key allocated => exact model.length_insertNew_le zero key allocated
  | insertValue key pValue allocated =>
      cases pValue with
      | none => exact Nat.le_succ _
      | some value =>
          show (model.insertValue zero key (some value) allocated).2.map.entries.length ≤ _
          rw [model.map_insertValue]
          exact model.length_insertNew_le zero key allocated
  | insertExisting key pValue =>
      cases pValue with
      | none => exact Nat.le_succ _
      | some pNode => exact length_apply_le model.map (.insertExisting key pNode)
  | remove pValue => exact model.length_remove_le pValue
  | removeIntrusive pValue => exact model.length_remove_le pValue
  | removeByKey key => exact length_apply_le model.map (.removeByKey key)

theorem MapOp.length_final_le (ops : List (MapOp V Ptr)) : ∀ model : MapModel V Ptr,
    (MapOp.final zero model ops).map.entries.length ≤ model.map.entries.length + ops.length := by
  induction ops with
  | nil => exact fun model => Nat.le_refl _
  | cons op ops ih =>
      intro model
      have rest := ih (op.step zero model).2
      have step := MapOp.length_step_le zero model op
      show (MapOp.final zero (op.step zero model).2 ops).map.entries.length ≤ _
      rw [List.length_cons]
      omega

end Model

/-! ## Refinement -/

/-- The memory refines the model: its tree implements the model's map and its
value store is the model's, so that the map read with the values is the finite
map `entry.1 ↦ model.value entry.2` over the model's entries. -/
def MapState.Refines (state : MapState V Ptr) (model : MapModel V Ptr) : Prop :=
  state.toMapMem.Implements model.map ∧ state.value = model.value

/-- What the lookups and the iterators of a memory return, as over the list of
the map's entries: `mapFind`, `mapFindGEQ` and `mapFindLEQ` of every key,
`mapNext` and `mapPrev` from every node, and the nodes the loop of
`mapIterNext` hands out from `mapIterAll` and from `mapIterRange` of two nodes
in key order. -/
structure MapMem.Serves [DecidableEq Ptr] (mem : MapMem Ptr) (map : MapBase Ptr) (fuel : Nat) : Prop where
  find : ∀ key, mapFindImpl mem key fuel = (mapFind map key).map Prod.snd
  findGEQ : ∀ keyMin, mapFindGEQImpl mem keyMin fuel = (mapFindGEQ map keyMin).map Prod.snd
  findLEQ : ∀ keyMax, mapFindLEQImpl mem keyMax fuel = (mapFindLEQ map keyMax).map Prod.snd
  next : ∀ pNode ∈ map.entries.map Prod.snd, mapNextImpl mem pNode fuel = (mapNext map (mem.key pNode)).map Prod.snd
  prev : ∀ pNode ∈ map.entries.map Prod.snd, mapPrevImpl mem pNode fuel = (mapPrev map (mem.key pNode)).map Prod.snd
  iterAll : ∀ rounds, map.entries.length < rounds →
    iterValues mem fuel rounds (mapIterAllImpl mem fuel) = map.entries.map Prod.snd
  iterRange : ∀ rounds, map.entries.length < rounds → ∀ first ∈ map.entries, ∀ last ∈ map.entries, first.1 ≤ last.1 →
    iterValues mem fuel rounds (mapIterRangeImpl mem (some first.2) (some last.2)) =
      (map.entries.filter fun entry => decide (first.1 ≤ entry.1 ∧ entry.1 ≤ last.1)).map Prod.snd

section Refine

variable [DecidableEq Ptr] {zero : V} {state : MapState V Ptr} {model : MapModel V Ptr} {fuel : Nat}

theorem MapMem.Carries.serves {mem : MapMem Ptr} {map : MapBase Ptr} {tree : RBTree Ptr} (carries : mem.Carries map tree)
    (sized : map.entries.length < 2 ^ 32) (enough : map.entries.length < fuel) : mem.Serves map fuel where
  find key := mapFindImpl_eq carries key enough
  findGEQ keyMin := mapFindGEQImpl_eq carries keyMin enough
  findLEQ keyMax := mapFindLEQImpl_eq carries keyMax enough
  next _ member := mapNextImpl_eq carries (carries.nodes ▸ member) enough
  prev _ member := mapPrevImpl_eq carries (carries.nodes ▸ member) enough
  iterAll _ more := mapIterAll_values carries sized enough more
  iterRange _ more _ firstMember _ lastMember below :=
    mapIterRange_values carries sized enough more firstMember lastMember below

theorem nodeKey_eq {mem : MapMem Ptr} {map : MapBase Ptr} {tree : RBTree Ptr} (carries : mem.Carries map tree)
    {pNode : Ptr} (member : pNode ∈ tree.toList) : nodeKey map pNode = some (mem.key pNode) := by
  have isSome : (tree.toList.find? fun p => p == pNode).isSome :=
    List.find?_isSome.mpr ⟨pNode, member, beq_self_eq_true pNode⟩
  have found : tree.toList.find? (fun p => p == pNode) = some pNode := by
    obtain ⟨q, hq⟩ := Option.isSome_iff_exists.mp isSome
    have same : q = pNode := by simpa using List.find?_some hq
    rw [hq, same]
  rw [nodeKey, carries.entries, MapMem.entriesOf, List.find?_map]
  simp [found]

theorem mapInsertNewImpl_refines (refines : state.Refines model) {key : UInt64} {allocated : Option Ptr}
    (fresh : ∀ pNode ∈ allocated, pNode ∉ model.map.entries.map Prod.snd) (enough : model.map.entries.length < fuel) :
    ∃ state', mapInsertNewImpl zero state key allocated fuel = some ((model.insertNew zero key allocated).1, state') ∧
      state'.Refines (model.insertNew zero key allocated).2 := by
  obtain ⟨⟨tree, carries⟩, values⟩ := refines
  cases allocated with
  | none => exact ⟨state, rfl, ⟨tree, carries⟩, values⟩
  | some pNode =>
      have outside : pNode ∉ tree.toList := by
        rw [← carries.nodes]
        exact fresh pNode rfl
      by_cases held : key ∈ mapKeys model.map
      · have step : model.insertNew zero key (some pNode) =
            (none, { model with value := Function.update model.value pNode zero }) := by
          simp only [MapModel.insertNew, if_pos held]
        rw [step]
        refine ⟨{ state with value := Function.update state.value pNode zero }, ?_, ⟨tree, carries⟩, by rw [values]⟩
        simp only [mapInsertNewImpl, mapInsertBase_duplicate carries held pNode enough]
      · obtain ⟨mem', inserted, implements⟩ := mapInsertBase_inserts carries held outside enough
        have step : model.insertNew zero key (some pNode) =
            (some pNode, ⟨⟨insertEntry key pNode model.map.entries, sorted_insertEntry model.map.sorted held⟩,
              Function.update model.value pNode zero⟩) := by
          simp only [MapModel.insertNew, if_neg held, mapInsert_of_not_mem _ held, Option.getD_some]
        rw [step]
        refine ⟨{ state with value := Function.update state.value pNode zero, toMapMem := mem' }, ?_, implements,
          by rw [values]⟩
        simp only [mapInsertNewImpl, inserted]

theorem mapInsertValueImpl_refines (refines : state.Refines model) {key : UInt64} {pValue : Option V}
    {allocated : Option Ptr} (fresh : ∀ pNode ∈ allocated, pNode ∉ model.map.entries.map Prod.snd)
    (enough : model.map.entries.length < fuel) :
    ∃ state', mapInsertValueImpl zero state key pValue allocated fuel =
        some ((model.insertValue zero key pValue allocated).1, state') ∧
      state'.Refines (model.insertValue zero key pValue allocated).2 := by
  cases pValue with
  | none => exact ⟨state, rfl, refines⟩
  | some value =>
      obtain ⟨state', inserted, refines'⟩ := mapInsertNewImpl_refines refines fresh enough
      rw [mapInsertValueImpl, inserted, Option.map_some, MapModel.insertValue]
      generalize model.insertNew zero key allocated = result at refines' ⊢
      obtain ⟨pCurrent, model'⟩ := result
      cases pCurrent with
      | none => exact ⟨state', rfl, refines'⟩
      | some pCurrent => exact ⟨_, rfl, refines'.1, by rw [refines'.2]⟩

theorem mapRemoveImpl_refines (refines : state.Refines model) {pValue : Option Ptr}
    (present : ∀ pNode ∈ pValue, pNode ∈ model.map.entries.map Prod.snd) (enough : model.map.entries.length < fuel) :
    ∃ state', mapRemoveImpl state pValue fuel = some state' ∧ state'.Refines (model.remove pValue) := by
  cases pValue with
  | none => exact ⟨state, rfl, refines⟩
  | some pNode =>
      obtain ⟨⟨tree, carries⟩, values⟩ := refines
      have member : pNode ∈ tree.toList := by
        rw [← carries.nodes]
        exact present pNode rfl
      obtain ⟨mem', removed, implements⟩ := mapRemoveIntrusiveImpl_removes carries member enough
      refine ⟨{ state with toMapMem := mem' }, by rw [mapRemoveImpl, removed, Option.map_some], ?_, values⟩
      rw [MapModel.remove, nodeKey_eq carries member, Option.map_some, Option.getD_some]
      exact implements

theorem mapRemoveByKeyImpl_refines (refines : state.Refines model) (key : UInt64)
    (enough : model.map.entries.length < fuel) :
    ∃ state', mapRemoveByKeyImpl state key fuel = some state' ∧
      state'.Refines { model with map := mapRemove model.map key } := by
  obtain ⟨mem', removed, implements⟩ := mapRemoveByKey_refines refines.1 key enough
  refine ⟨{ state with toMapMem := mem' }, ?_, implements, refines.2⟩
  show (mapRemoveByKeyIntrusiveImpl state.toMapMem key fuel).map _ = _
  rw [removed, Option.map_some]

/-- One call keeps the refinement, and answers what the model answers. -/
theorem MapOp.run_refines (refines : state.Refines model) {op : MapOp V Ptr} (allowed : op.Allowed model)
    (enough : model.map.entries.length < fuel) :
    ∃ state', op.run zero state fuel = some ((op.step zero model).1, state') ∧ state'.Refines (op.step zero model).2 := by
  cases op with
  | insertNew key allocated =>
      obtain ⟨state', inserted, refines'⟩ := mapInsertNewImpl_refines refines allowed enough
      exact ⟨state', by rw [MapOp.run, inserted, Option.map_some]; rfl, refines'⟩
  | insertValue key pValue allocated =>
      obtain ⟨state', inserted, refines'⟩ := mapInsertValueImpl_refines refines allowed enough
      exact ⟨state', by rw [MapOp.run, inserted, Option.map_some]; rfl, refines'⟩
  | insertExisting key pValue =>
      cases pValue with
      | none => exact ⟨state, rfl, refines⟩
      | some pNode =>
          obtain ⟨mem', inserted, implements⟩ := mapInsertExisting_refines refines.1 key (allowed pNode rfl) enough
          exact ⟨{ state with toMapMem := mem' }, by rw [MapOp.run, inserted, Option.map_some]; rfl, implements,
            refines.2⟩
  | remove pValue =>
      obtain ⟨state', removed, refines'⟩ := mapRemoveImpl_refines refines allowed enough
      exact ⟨state', by rw [MapOp.run, removed, Option.map_some]; rfl, refines'⟩
  | removeIntrusive pValue =>
      obtain ⟨state', removed, refines'⟩ := mapRemoveImpl_refines refines allowed enough
      exact ⟨state', by rw [MapOp.run, removed, Option.map_some]; rfl, refines'⟩
  | removeByKey key =>
      obtain ⟨state', removed, refines'⟩ := mapRemoveByKeyImpl_refines refines key enough
      exact ⟨state', by rw [MapOp.run, removed, Option.map_some]; rfl, refines'⟩

theorem mapOpRun_models (ops : List (MapOp V Ptr)) : ∀ (state : MapState V Ptr) (model : MapModel V Ptr),
    state.Refines model → MapOp.Admissible zero model ops → model.map.entries.length + ops.length < fuel →
      ∃ state', mapOpRun zero fuel state ops = some (MapOp.answers zero model ops, state') ∧
        state'.Refines (MapOp.final zero model ops) := by
  induction ops with
  | nil => exact fun state _ refines _ _ => ⟨state, rfl, refines⟩
  | cons op ops ih =>
      intro state model refines admissible enough
      obtain ⟨allowed, rest⟩ := admissible
      have longer := MapOp.length_step_le zero model op
      rw [List.length_cons] at enough
      have short : model.map.entries.length < fuel := by omega
      obtain ⟨state', step, refines'⟩ := MapOp.run_refines refines allowed short
      obtain ⟨final, run, finalRefines⟩ := ih state' _ refines' rest (by omega)
      refine ⟨final, ?_, finalRefines⟩
      rw [mapOpRun, step, Option.bind_some]
      dsimp only
      rw [run, Option.map_some, MapOp.answers]

/-- `sampleMap` with the value `100 * p` in node `p`. -/
def sampleMapState : MapState Nat Nat := { sampleMapMem with value := fun p => 100 * p }

def sampleMapModel : MapModel Nat Nat := ⟨sampleMap, fun p => 100 * p⟩

theorem sampleMapState_refines : sampleMapState.Refines sampleMapModel :=
  ⟨sampleMapMem_implements, rfl⟩

/-- New keys in allocated nodes, with and without a value, a held key, the
removal of node `0` and of key `20`, and a copy and an allocation that fail. -/
def sampleMapOps : List (MapOp Nat Nat) :=
  [.insertNew 25 (some 3), .insertValue 40 (some 7) (some 4), .insertExisting 10 (some 5), .remove (some 0),
    .removeByKey 20, .insertNew 30 (some 6), .insertValue 50 none (some 8), .insertNew 60 none]

example : MapOp.answers 0 sampleMapModel sampleMapOps =
    [.value (some 3), .value (some 4), .inserted false, .done, .done, .value none, .value none, .value none] := by
  decide

example : (MapOp.final 0 sampleMapModel sampleMapOps).map.entries.map
    (fun entry => (entry.1, (MapOp.final 0 sampleMapModel sampleMapOps).value entry.2)) = [(25, 0), (30, 200), (40, 7)] := by
  decide

end Refine

end NvidiaGpu.Map
