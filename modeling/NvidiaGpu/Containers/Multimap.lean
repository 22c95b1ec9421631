import Mathlib.Algebra.Group.Nat.Defs
import NvidiaGpu.Containers.Map

set_option autoImplicit false

/-! The RM multimap (`multimap.c`): a map of submaps keyed by `NvU64`, each a
map of items keyed by `NvU64`, and the `NvU32` count of items.  A pointer to an
item is modelled by its submap's key and its own key: from the item the code
reaches its submap through `pSubmap`, and the node holds its key.  The allocator
is an argument saying whether `PORT_ALLOC` succeeds.

The items in order are the submaps' items, submap by submap; the walks of
`multimapFirstItem`/`multimapNextItem` and `multimapLastItem`/`multimapPrevItem`
are one walk each way (`Map.Direction`), and so are their proofs. -/

namespace NvidiaGpu.Multimap

open Map ListOrder

/-- `MultimapBase`: the map of submaps and `itemCount`. -/
structure MultimapBase (V : Type) where
  map : MapBase (MapBase V)
  itemCount : UInt32

variable {V : Type}

def multimapInit : MultimapBase V :=
  ⟨mapEmpty, 0⟩

def multimapFindSubmap (mm : MultimapBase V) (submapKey : UInt64) : Option (UInt64 × MapBase V) :=
  mapFind mm.map submapKey

/-- `multimapInsertSubmap`: `mapInsertNew` allocates the node, refuses a held
key, and the new submap is empty. -/
def multimapInsertSubmap (mm : MultimapBase V) (submapKey : UInt64) (allocated : Bool) :
    MultimapBase V × Option UInt64 :=
  if allocated then
    match mapInsert mm.map submapKey mapEmpty with
    | some map => ({ mm with map }, some submapKey)
    | none => (mm, none)
  else (mm, none)

def multimapInsertItemNew (mm : MultimapBase V) (submapKey itemKey : UInt64) (allocated : Bool) (blank : V) :
    MultimapBase V × Option (UInt64 × UInt64) :=
  match multimapFindSubmap mm submapKey with
  | none => (mm, none)
  | some (key, submap) =>
      if allocated then
        match mapInsert submap itemKey blank with
        | some submap => ({ map := mapSetValue mm.map key submap, itemCount := mm.itemCount + 1 }, some (key, itemKey))
        | none => (mm, none)
      else (mm, none)

def writeItem (mm : MultimapBase V) (leaf : UInt64 × UInt64) (value : V) : MultimapBase V :=
  match mapFind mm.map leaf.1 with
  | none => mm
  | some (key, submap) => { mm with map := mapSetValue mm.map key (mapSetValue submap leaf.2 value) }

def multimapInsertItemValue (mm : MultimapBase V) (submapKey itemKey : UInt64) (allocated : Bool) (blank value : V) :
    MultimapBase V × Option (UInt64 × UInt64) :=
  match multimapInsertItemNew mm submapKey itemKey allocated blank with
  | (mm, some leaf) => (writeItem mm leaf value, some leaf)
  | (mm, none) => (mm, none)

def multimapFindItem (mm : MultimapBase V) (submapKey itemKey : UInt64) : Option (UInt64 × UInt64) :=
  match multimapFindSubmap mm submapKey with
  | none => none
  | some (key, submap) => (mapFind submap itemKey).map fun item => (key, item.1)

/-- `multimapRemoveItem`: the item is unlinked from its submap, and the count
test returns early when the submap's count did not change. -/
def multimapRemoveItem (mm : MultimapBase V) (leaf : UInt64 × UInt64) : MultimapBase V :=
  match mapFind mm.map leaf.1 with
  | none => mm
  | some (key, submap) =>
      let removed := mapRemove submap leaf.2
      let map := mapSetValue mm.map key removed
      if mapCount submap == mapCount removed then { mm with map } else { map, itemCount := mm.itemCount - 1 }

def multimapRemoveSubmap (mm : MultimapBase V) (submapKey : UInt64) : MultimapBase V :=
  match mapFind mm.map submapKey with
  | none => mm
  | some (key, submap) => if mapCount submap == 0 then { mm with map := mapRemove mm.map key } else mm

def multimapRemoveItemByKey (mm : MultimapBase V) (submapKey itemKey : UInt64) : MultimapBase V :=
  match multimapFindItem mm submapKey itemKey with
  | some leaf => multimapRemoveItem mm leaf
  | none => mm

section Walk

variable (toward : {W : Type} → MapBase W → UInt64 → Option (UInt64 × W))
  (edge : {W : Type} → MapBase W → Option (UInt64 × W))

/-- The loop of `multimapFirstItem`, and of `multimapNextItem` once the item's
submap is done: the first item of a submap, else on to the next submap. -/
def firstFrom (mm : MultimapBase V) : Nat → Option (UInt64 × MapBase V) → Option (UInt64 × UInt64)
  | 0, _ => none
  | _ + 1, none => none
  | fuel + 1, some (submapKey, submap) =>
      match edge submap with
      | some (itemKey, _) => some (submapKey, itemKey)
      | none => firstFrom mm fuel (toward mm.map submapKey)

/-- `multimapNextItem` and `multimapPrevItem`: the next item in the item's
submap, else the first item of the submaps after it. -/
def stepItem (mm : MultimapBase V) (value : Option (UInt64 × UInt64)) (fuel : Nat) : Option (UInt64 × UInt64) :=
  match value with
  | none => none
  | some (submapKey, itemKey) =>
      match mapFind mm.map submapKey with
      | none => none
      | some (key, submap) =>
          match toward submap itemKey with
          | some (nextKey, _) => some (key, nextKey)
          | none => firstFrom toward edge mm fuel (toward mm.map key)

end Walk

def multimapNextItem (mm : MultimapBase V) (value : Option (UInt64 × UInt64)) (fuel : Nat) :
    Option (UInt64 × UInt64) :=
  stepItem (fun map key => mapNext map key) (fun map => mapFindGEQ map 0) mm value fuel

def multimapPrevItem (mm : MultimapBase V) (value : Option (UInt64 × UInt64)) (fuel : Nat) :
    Option (UInt64 × UInt64) :=
  stepItem (fun map key => mapPrev map key) (fun map => mapFindLEQ map nvU64Max) mm value fuel

def multimapFirstItem (mm : MultimapBase V) (fuel : Nat) : Option (UInt64 × UInt64) :=
  firstFrom (fun map key => mapNext map key) (fun map => mapFindGEQ map 0) mm fuel (mapFindGEQ mm.map 0)

def multimapLastItem (mm : MultimapBase V) (fuel : Nat) : Option (UInt64 × UInt64) :=
  firstFrom (fun map key => mapPrev map key) (fun map => mapFindLEQ map nvU64Max) mm fuel
    (mapFindLEQ mm.map nvU64Max)

/-! ## The items, walked either way -/

def submapItems (d : Direction) (entry : UInt64 × MapBase V) : List (UInt64 × UInt64) :=
  (d.order entry.2).map fun item => (entry.1, item.1)

/-- The items in the order `d` walks them: submap by submap, and in each
submap item by item. -/
def walkItems (d : Direction) (mm : MultimapBase V) : List (UInt64 × UInt64) :=
  (d.order mm.map).flatMap (submapItems d)

def multimapItems (mm : MultimapBase V) : List (UInt64 × UInt64) :=
  walkItems forward mm

def leafAhead (d : Direction) (a b : UInt64 × UInt64) : Bool :=
  d.ahead a.1 b.1 || (a.1 == b.1 && d.ahead a.2 b.2)

section Walking

variable (d : Direction) (mm : MultimapBase V)

theorem ahead_self (key : UInt64) : d.ahead key key = false := by
  cases same : d.ahead key key
  · rfl
  · exact absurd same (d.asymm key key same)

theorem leafAhead_asymm (a b : UInt64 × UInt64) : leafAhead d a b → ¬leafAhead d b a := by
  obtain ⟨s, k⟩ := a
  obtain ⟨s', k'⟩ := b
  unfold leafAhead
  by_cases same : s = s'
  · subst same
    simp only [ahead_self, beq_self_eq_true, Bool.true_and, Bool.false_or]
    exact d.asymm k k'
  · have apart : (s == s') = false := beq_false_of_ne same
    have apart' : (s' == s) = false := beq_false_of_ne (Ne.symm same)
    simp only [apart, apart', Bool.false_and, Bool.or_false]
    exact d.asymm s s'

theorem walkItems_sorted : (walkItems d mm).Pairwise fun a b => leafAhead d a b := by
  rw [walkItems, List.pairwise_flatMap]
  refine ⟨fun entry _ => ?_, ?_⟩
  · rw [submapItems, List.pairwise_map]
    exact (d.sorted entry.2).imp fun after => by simp [leafAhead, ahead_self, after]
  · refine (d.sorted mm.map).imp fun after x inX y inY => ?_
    obtain ⟨_, _, rfl⟩ := List.mem_map.mp inX
    obtain ⟨_, _, rfl⟩ := List.mem_map.mp inY
    simp [leafAhead, after]

theorem mem_walkItems {submapKey itemKey : UInt64} :
    (submapKey, itemKey) ∈ walkItems d mm ↔
      ∃ submap, (submapKey, submap) ∈ mm.map.entries ∧ itemKey ∈ mapKeys submap := by
  simp only [walkItems, submapItems, List.mem_flatMap, List.mem_map, Prod.mk.injEq, (d.perm _).mem_iff]
  constructor
  · rintro ⟨⟨key, submap⟩, member, item, inside, rfl, rfl⟩
    exact ⟨submap, member, (mem_mapKeys submap).mpr ⟨item.2, inside⟩⟩
  · rintro ⟨submap, member, held⟩
    obtain ⟨value, inside⟩ := (mem_mapKeys submap).mp held
    exact ⟨(submapKey, submap), member, (itemKey, value), inside, rfl, rfl⟩

theorem firstFrom_eq {pre post : List (UInt64 × MapBase V)} (split : d.order mm.map = pre ++ post) {fuel : Nat}
    (enough : post.length ≤ fuel) :
    firstFrom d.toward d.edge mm fuel post.head? = (post.flatMap (submapItems d)).head? := by
  induction post generalizing pre fuel with
  | nil => cases fuel <;> rfl
  | cons entry rest ih =>
      obtain ⟨fuel, rfl⟩ : ∃ less, fuel = less + 1 := ⟨fuel - 1, by simp at enough; omega⟩
      obtain ⟨submapKey, submap⟩ := entry
      have sorted := d.sorted mm.map
      rw [split] at sorted
      have next : d.toward mm.map submapKey = rest.head? := by
        rw [d.toward_eq, split]
        exact find?_after (fun a b => d.asymm a.1 b.1) sorted
      have split' : d.order mm.map = (pre ++ [(submapKey, submap)]) ++ rest := by
        rw [split, List.append_assoc, List.singleton_append]
      rw [List.head?_cons, firstFrom, d.edge_eq, List.flatMap_cons, submapItems]
      cases items : d.order submap with
      | nil =>
          dsimp only
          rw [next, ih split' (by simp at enough; omega), List.map_nil, List.nil_append]
          rfl
      | cons item _ => rfl

theorem firstFrom_edge {fuel : Nat} (enough : mm.map.entries.length ≤ fuel) :
    firstFrom d.toward d.edge mm fuel (d.edge mm.map) = (walkItems d mm).head? := by
  rw [d.edge_eq]
  exact firstFrom_eq d mm (List.nil_append _).symm ((d.perm mm.map).length_eq ▸ enough)

theorem stepItem_eq {leaf : UInt64 × UInt64} (member : leaf ∈ walkItems d mm) {fuel : Nat}
    (enough : mm.map.entries.length ≤ fuel) :
    stepItem d.toward d.edge mm (some leaf) fuel = (walkItems d mm).find? (leafAhead d leaf) := by
  obtain ⟨submapKey, itemKey⟩ := leaf
  obtain ⟨submap, entryMember, -⟩ := (mem_walkItems d mm).mp member
  have found : mapFind mm.map submapKey = some (submapKey, submap) :=
    (mapFind_eq_some_iff mm.map).mpr ⟨entryMember, rfl⟩
  obtain ⟨pre, post, split⟩ := List.append_of_mem ((d.perm mm.map).mem_iff.mpr entryMember)
  have sorted := d.sorted mm.map
  rw [split] at sorted
  obtain ⟨-, postSorted, across⟩ := List.pairwise_append.mp sorted
  have behind : (pre.flatMap (submapItems d)).find? (leafAhead d (submapKey, itemKey)) = none := by
    refine List.find?_eq_none.mpr fun other inside => ?_
    obtain ⟨entry, entryInside, itemInside⟩ := List.mem_flatMap.mp inside
    obtain ⟨item, -, rfl⟩ := List.mem_map.mp itemInside
    have earlier := across entry entryInside _ List.mem_cons_self
    have apart : (submapKey == entry.1) = false :=
      beq_false_of_ne fun same => by rw [same, ahead_self] at earlier; exact absurd earlier (by simp)
    simp [leafAhead, apart, d.asymm _ _ earlier]
  have ahead : (post.flatMap (submapItems d)).find? (leafAhead d (submapKey, itemKey)) =
      (post.flatMap (submapItems d)).head? := by
    refine find?_of_all fun other inside => ?_
    obtain ⟨entry, entryInside, itemInside⟩ := List.mem_flatMap.mp inside
    obtain ⟨item, -, rfl⟩ := List.mem_map.mp itemInside
    simp [leafAhead, List.rel_of_pairwise_cons postSorted entryInside]
  have own : (submapItems d (submapKey, submap)).find? (leafAhead d (submapKey, itemKey)) =
      ((d.order submap).find? fun item => d.ahead itemKey item.1).map fun item => (submapKey, item.1) := by
    rw [submapItems, List.find?_map]
    congr 2
    funext item
    simp [leafAhead, ahead_self]
  rw [walkItems, split, List.flatMap_append, List.flatMap_cons, List.find?_append, List.find?_append, behind, own,
    ahead, Option.none_or, stepItem]
  rw [found]
  dsimp only
  rw [d.toward_eq]
  cases (d.order submap).find? fun item => d.ahead itemKey item.1 with
  | some item => rfl
  | none =>
      have next : d.toward mm.map submapKey = post.head? := by
        rw [d.toward_eq, split]
        exact find?_after (fun a b => d.asymm a.1 b.1) sorted
      have split' : d.order mm.map = (pre ++ [(submapKey, submap)]) ++ post := by
        rw [split, List.append_assoc, List.singleton_append]
      have length := congrArg List.length split'
      rw [(d.perm mm.map).length_eq] at length
      simp only [List.length_append, List.length_singleton] at length
      dsimp only
      rw [next, firstFrom_eq d mm split' (by omega)]
      rfl

theorem stepItem_getElem? {fuel : Nat} (enough : mm.map.entries.length ≤ fuel) (j : Nat) :
    stepItem d.toward d.edge mm (walkItems d mm)[j]? fuel = (walkItems d mm)[j + 1]? := by
  by_cases inside : j < (walkItems d mm).length
  · rw [List.getElem?_eq_getElem inside, stepItem_eq d mm (List.getElem_mem inside) enough]
    exact find?_after_getElem (leafAhead_asymm d) (walkItems_sorted d mm) j inside
  · rw [List.getElem?_eq_none (by omega), List.getElem?_eq_none (by omega)]
    rfl

theorem iterate_stepItem {fuel : Nat} (enough : mm.map.entries.length ≤ fuel) :
    (∀ i (inside : i < (walkItems d mm).length),
      (stepItem d.toward d.edge mm · fuel)^[i] (firstFrom d.toward d.edge mm fuel (d.edge mm.map)) =
        some (walkItems d mm)[i]) ∧
      (stepItem d.toward d.edge mm · fuel)^[(walkItems d mm).length]
        (firstFrom d.toward d.edge mm fuel (d.edge mm.map)) = none := by
  rw [firstFrom_edge d mm enough]
  exact iterate_head? (stepItem_getElem? d mm enough)

end Walking

/-! ## The items in order, and finding one -/

section Items

variable (mm : MultimapBase V)

theorem walkItems_backward : walkItems backward mm = (multimapItems mm).reverse := by
  rw [multimapItems, walkItems, walkItems, List.reverse_flatMap]
  congr 1
  funext entry
  exact List.map_reverse

theorem multimapItems_sorted : (multimapItems mm).Pairwise fun a b => a.1 < b.1 ∨ a.1 = b.1 ∧ a.2 < b.2 :=
  (walkItems_sorted forward mm).imp fun after => by simpa [leafAhead, forward] using after

theorem mem_multimapItems_of_mem {submapKey : UInt64} {submap : MapBase V} (member : (submapKey, submap) ∈ mm.map.entries)
    (itemKey : UInt64) : (submapKey, itemKey) ∈ multimapItems mm ↔ itemKey ∈ mapKeys submap := by
  rw [multimapItems, mem_walkItems]
  constructor
  · rintro ⟨other, otherMember, held⟩
    cases eq_of_fst_eq mm.map otherMember member rfl
    exact held
  · exact fun held => ⟨submap, member, held⟩

theorem multimapFindItem_eq (submapKey itemKey : UInt64) :
    multimapFindItem mm submapKey itemKey =
      if (submapKey, itemKey) ∈ multimapItems mm then some (submapKey, itemKey) else none := by
  unfold multimapFindItem multimapFindSubmap
  cases found : mapFind mm.map submapKey with
  | none =>
      have fresh := (mapFind_eq_none_iff mm.map).mp found
      rw [if_neg]
      intro member
      obtain ⟨submap, inside, -⟩ := (mem_walkItems forward mm).mp member
      exact fresh ((mem_mapKeys mm.map).mpr ⟨submap, inside⟩)
  | some entry =>
      obtain ⟨key, submap⟩ := entry
      obtain ⟨member, rfl⟩ := (mapFind_eq_some_iff mm.map).mp found
      have items := mem_multimapItems_of_mem mm member itemKey
      dsimp only
      cases inner : mapFind submap itemKey with
      | none =>
          rw [Option.map_none, if_neg (items.not.mpr ((mapFind_eq_none_iff submap).mp inner))]
      | some item =>
          obtain ⟨itemMember, rfl⟩ := (mapFind_eq_some_iff submap).mp inner
          rw [Option.map_some, if_pos (items.mpr ((mem_mapKeys submap).mpr ⟨item.2, itemMember⟩))]

end Items

/-! ## Counting the items -/

def itemTotal : List (UInt64 × MapBase V) → Nat
  | [] => 0
  | entry :: entries => entry.2.entries.length + itemTotal entries

@[simp] theorem itemTotal_nil : itemTotal ([] : List (UInt64 × MapBase V)) = 0 := rfl

@[simp] theorem itemTotal_cons (entry : UInt64 × MapBase V) (entries : List (UInt64 × MapBase V)) :
    itemTotal (entry :: entries) = entry.2.entries.length + itemTotal entries := rfl

@[simp] theorem itemTotal_append (front back : List (UInt64 × MapBase V)) :
    itemTotal (front ++ back) = itemTotal front + itemTotal back := by
  induction front with
  | nil => simp
  | cons entry front ih =>
      rw [List.cons_append, itemTotal_cons, itemTotal_cons, ih]
      omega

theorem itemTotal_perm {front back : List (UInt64 × MapBase V)} (perm : front.Perm back) :
    itemTotal front = itemTotal back := by
  induction perm with
  | nil => rfl
  | cons entry _ ih => rw [itemTotal_cons, itemTotal_cons, ih]
  | swap first second rest =>
      simp only [itemTotal_cons]
      omega
  | trans _ _ ih ih' => exact ih.trans ih'

section Count

variable (mm : MultimapBase V)

theorem length_multimapItems : (multimapItems mm).length = itemTotal mm.map.entries := by
  show (mm.map.entries.flatMap (submapItems forward)).length = itemTotal mm.map.entries
  induction mm.map.entries with
  | nil => rfl
  | cons entry entries ih =>
      rw [List.flatMap_cons, List.length_append, ih, itemTotal_cons, submapItems, List.length_map]
      rfl

theorem itemTotal_mapSetValue {key : UInt64} {submap : MapBase V} (member : (key, submap) ∈ mm.map.entries)
    (submap' : MapBase V) :
    itemTotal (mapSetValue mm.map key submap').entries + submap.entries.length =
      itemTotal mm.map.entries + submap'.entries.length := by
  obtain ⟨pre, post, split, below, above⟩ := exists_split mm.map member
  rw [entries_mapSetValue mm.map submap' split below above, split]
  simp only [itemTotal_append, itemTotal_cons]
  omega

theorem itemTotal_mapRemove {key : UInt64} {submap : MapBase V} (member : (key, submap) ∈ mm.map.entries) :
    itemTotal (mapRemove mm.map key).entries + submap.entries.length = itemTotal mm.map.entries := by
  obtain ⟨pre, post, split, below, above⟩ := exists_split mm.map member
  rw [entries_mapRemove mm.map split below above, split]
  simp only [itemTotal_append, itemTotal_cons]
  omega

end Count

def Counted (mm : MultimapBase V) : Prop :=
  mm.itemCount = (itemTotal mm.map.entries).toUInt32

section Steps

variable {mm : MultimapBase V} (counted : Counted mm)
include counted

theorem Counted.insertSubmap (submapKey : UInt64) (allocated : Bool) :
    Counted (multimapInsertSubmap mm submapKey allocated).1 := by
  unfold multimapInsertSubmap
  cases allocated with
  | false => exact counted
  | true =>
      rcases mapInsert_cases mm.map submapKey mapEmpty with ⟨-, refused⟩ | ⟨inserted, -, linked, perm⟩
      · rw [if_pos rfl, refused]
        exact counted
      · rw [if_pos rfl, linked]
        unfold Counted at counted ⊢
        dsimp only
        rw [itemTotal_perm perm, itemTotal_cons, entries_mapEmpty, List.length_nil, Nat.zero_add]
        exact counted

theorem Counted.insertItemNew (submapKey itemKey : UInt64) (allocated : Bool) (blank : V) :
    Counted (multimapInsertItemNew mm submapKey itemKey allocated blank).1 := by
  unfold multimapInsertItemNew multimapFindSubmap
  cases found : mapFind mm.map submapKey with
  | none => exact counted
  | some entry =>
      obtain ⟨key, submap⟩ := entry
      have member := ((mapFind_eq_some_iff mm.map).mp found).1
      dsimp only
      cases allocated with
      | false => exact counted
      | true =>
          rcases mapInsert_cases submap itemKey blank with ⟨-, refused⟩ | ⟨inserted, -, linked, perm⟩
          · rw [if_pos rfl, refused]
            exact counted
          · rw [if_pos rfl, linked]
            have total := itemTotal_mapSetValue mm member inserted
            rw [perm.length_eq, List.length_cons] at total
            unfold Counted at counted ⊢
            dsimp only
            rw [show itemTotal (mapSetValue mm.map key inserted).entries = itemTotal mm.map.entries + 1 by omega,
              toUInt32_succ, counted]

theorem Counted.writeItem (leaf : UInt64 × UInt64) (value : V) : Counted (writeItem mm leaf value) := by
  unfold NvidiaGpu.Multimap.writeItem
  cases found : mapFind mm.map leaf.1 with
  | none => exact counted
  | some entry =>
      obtain ⟨key, submap⟩ := entry
      have member := ((mapFind_eq_some_iff mm.map).mp found).1
      have total := itemTotal_mapSetValue mm member (mapSetValue submap leaf.2 value)
      have same : (mapSetValue submap leaf.2 value).entries.length = submap.entries.length := List.length_map _
      unfold Counted at counted ⊢
      dsimp only
      rw [show itemTotal (mapSetValue mm.map key (mapSetValue submap leaf.2 value)).entries =
        itemTotal mm.map.entries by omega]
      exact counted

theorem Counted.insertItemValue (submapKey itemKey : UInt64) (allocated : Bool) (blank value : V) :
    Counted (multimapInsertItemValue mm submapKey itemKey allocated blank value).1 := by
  unfold multimapInsertItemValue
  have inserted := counted.insertItemNew submapKey itemKey allocated blank
  generalize multimapInsertItemNew mm submapKey itemKey allocated blank = result at inserted
  obtain ⟨after, leaf⟩ := result
  cases leaf with
  | none => exact inserted
  | some leaf => exact inserted.writeItem leaf value

theorem Counted.removeItem (leaf : UInt64 × UInt64) : Counted (multimapRemoveItem mm leaf) := by
  unfold multimapRemoveItem
  cases found : mapFind mm.map leaf.1 with
  | none => exact counted
  | some entry =>
      obtain ⟨key, submap⟩ := entry
      have member := ((mapFind_eq_some_iff mm.map).mp found).1
      have total := itemTotal_mapSetValue mm member (mapRemove submap leaf.2)
      unfold Counted at counted ⊢
      dsimp only
      by_cases held : leaf.2 ∈ mapKeys submap
      · have shorter := length_mapRemove submap held
        have changed : (mapCount submap == mapCount (mapRemove submap leaf.2)) = false := by
          simpa using (mapCount_mapRemove_eq_iff submap).not.mpr (not_not.mpr held)
        rw [changed, if_neg Bool.false_ne_true]
        dsimp only
        rw [show itemTotal (mapSetValue mm.map key (mapRemove submap leaf.2)).entries =
          itemTotal mm.map.entries - 1 by omega, toUInt32_pred (by omega), counted]
      · rw [mapRemove_of_not_mem submap held] at total ⊢
        rw [beq_self_eq_true, if_pos rfl]
        dsimp only
        rw [show itemTotal (mapSetValue mm.map key submap).entries = itemTotal mm.map.entries by omega]
        exact counted

theorem Counted.removeItemByKey (submapKey itemKey : UInt64) : Counted (multimapRemoveItemByKey mm submapKey itemKey) := by
  unfold multimapRemoveItemByKey
  cases multimapFindItem mm submapKey itemKey with
  | none => exact counted
  | some leaf => exact counted.removeItem leaf

theorem Counted.removeSubmap (submapKey : UInt64)
    (empty : ∀ submap, (submapKey, submap) ∈ mm.map.entries → submap.entries = []) :
    Counted (multimapRemoveSubmap mm submapKey) := by
  unfold multimapRemoveSubmap
  cases found : mapFind mm.map submapKey with
  | none => exact counted
  | some entry =>
      obtain ⟨key, submap⟩ := entry
      obtain ⟨member, rfl⟩ := (mapFind_eq_some_iff mm.map).mp found
      have total := itemTotal_mapRemove mm member
      rw [empty submap member, List.length_nil, Nat.add_zero] at total
      dsimp only
      split
      · unfold Counted at counted ⊢
        rw [total]
        exact counted
      · exact counted

end Steps

/-! ## Runs of calls -/

/-- The calls a multimap is built with. -/
inductive MultimapOp (V : Type) where
  | insertSubmap (submapKey : UInt64) (allocated : Bool)
  | insertItemNew (submapKey itemKey : UInt64) (allocated : Bool)
  | insertItemValue (submapKey itemKey : UInt64) (allocated : Bool) (value : V)
  | removeItem (leaf : UInt64 × UInt64)
  | removeItemByKey (submapKey itemKey : UInt64)
  | removeSubmap (submapKey : UInt64)

def MultimapOp.apply (blank : V) (mm : MultimapBase V) : MultimapOp V → MultimapBase V
  | .insertSubmap submapKey allocated => (multimapInsertSubmap mm submapKey allocated).1
  | .insertItemNew submapKey itemKey allocated => (multimapInsertItemNew mm submapKey itemKey allocated blank).1
  | .insertItemValue submapKey itemKey allocated value =>
      (multimapInsertItemValue mm submapKey itemKey allocated blank value).1
  | .removeItem leaf => multimapRemoveItem mm leaf
  | .removeItemByKey submapKey itemKey => multimapRemoveItemByKey mm submapKey itemKey
  | .removeSubmap submapKey => multimapRemoveSubmap mm submapKey

def MultimapOp.Allowed (mm : MultimapBase V) : MultimapOp V → Prop
  | .removeSubmap submapKey => ∀ submap, (submapKey, submap) ∈ mm.map.entries → submap.entries = []
  | _ => True

/-- The multimaps built from `multimapInit` by any run of allowed calls. -/
inductive Reachable (blank : V) : MultimapBase V → Prop where
  | init : Reachable blank multimapInit
  | step {mm : MultimapBase V} (op : MultimapOp V) : Reachable blank mm → op.Allowed mm →
      Reachable blank (op.apply blank mm)

theorem Counted.apply {mm : MultimapBase V} (counted : Counted mm) (blank : V) (op : MultimapOp V)
    (allowed : op.Allowed mm) : Counted (op.apply blank mm) := by
  cases op with
  | insertSubmap submapKey allocated => exact counted.insertSubmap submapKey allocated
  | insertItemNew submapKey itemKey allocated => exact counted.insertItemNew submapKey itemKey allocated blank
  | insertItemValue submapKey itemKey allocated value =>
      exact counted.insertItemValue submapKey itemKey allocated blank value
  | removeItem leaf => exact counted.removeItem leaf
  | removeItemByKey submapKey itemKey => exact counted.removeItemByKey submapKey itemKey
  | removeSubmap submapKey => exact counted.removeSubmap submapKey allowed

theorem Reachable.counted {blank : V} {mm : MultimapBase V} (reach : Reachable blank mm) : Counted mm := by
  induction reach with
  | init => rfl
  | step op _ allowed counted => exact counted.apply blank op allowed

theorem reachable_multimap_items {blank : V} {mm : MultimapBase V} (reach : Reachable blank mm) {fuel : Nat}
    (enough : mm.map.entries.length ≤ fuel) :
    mm.itemCount = (multimapItems mm).length.toUInt32 ∧
      (∀ submapKey itemKey, multimapFindItem mm submapKey itemKey =
        if (submapKey, itemKey) ∈ multimapItems mm then some (submapKey, itemKey) else none) ∧
      (multimapItems mm).Pairwise (fun a b => a.1 < b.1 ∨ a.1 = b.1 ∧ a.2 < b.2) ∧
      (∀ i (inside : i < (multimapItems mm).length),
        (multimapNextItem mm · fuel)^[i] (multimapFirstItem mm fuel) = some (multimapItems mm)[i]) ∧
      (multimapNextItem mm · fuel)^[(multimapItems mm).length] (multimapFirstItem mm fuel) = none ∧
      (∀ i (inside : i < (multimapItems mm).reverse.length),
        (multimapPrevItem mm · fuel)^[i] (multimapLastItem mm fuel) = some (multimapItems mm).reverse[i]) ∧
      (multimapPrevItem mm · fuel)^[(multimapItems mm).reverse.length] (multimapLastItem mm fuel) = none := by
  obtain ⟨visits, leaves⟩ := iterate_stepItem forward mm enough
  obtain ⟨visitsBack, leavesBack⟩ := iterate_stepItem backward mm enough
  rw [walkItems_backward] at visitsBack leavesBack
  have counted : mm.itemCount = (multimapItems mm).length.toUInt32 := by
    rw [length_multimapItems]
    exact reach.counted
  exact ⟨counted, multimapFindItem_eq mm, multimapItems_sorted mm, visits, leaves, visitsBack, leavesBack⟩

/-- Submaps 5, 3 and 4; items (5, 10) with value 100, (3, 7) and (5, 2); then
(5, 10) removed by key.  Submap 4 stays empty between the other two. -/
def sampleMultimap : MultimapBase Nat :=
  (MultimapOp.removeItemByKey 5 10).apply 0 <|
    (MultimapOp.insertItemNew 5 2 true).apply 0 <|
    (MultimapOp.insertItemNew 3 7 true).apply 0 <|
    (MultimapOp.insertItemValue 5 10 true 100).apply 0 <|
    (MultimapOp.insertSubmap 4 true).apply 0 <|
    (MultimapOp.insertSubmap 3 true).apply 0 <|
    (MultimapOp.insertSubmap 5 true).apply 0 multimapInit

theorem sampleMultimap_items :
    Reachable 0 sampleMultimap ∧
      sampleMultimap.itemCount = (multimapItems sampleMultimap).length.toUInt32 ∧
      (∀ submapKey itemKey, multimapFindItem sampleMultimap submapKey itemKey =
        if (submapKey, itemKey) ∈ multimapItems sampleMultimap then some (submapKey, itemKey) else none) ∧
      (multimapItems sampleMultimap).Pairwise (fun a b => a.1 < b.1 ∨ a.1 = b.1 ∧ a.2 < b.2) ∧
      (∀ i (inside : i < (multimapItems sampleMultimap).length),
        (multimapNextItem sampleMultimap · 3)^[i] (multimapFirstItem sampleMultimap 3) =
          some (multimapItems sampleMultimap)[i]) ∧
      (multimapNextItem sampleMultimap · 3)^[(multimapItems sampleMultimap).length]
        (multimapFirstItem sampleMultimap 3) = none ∧
      (∀ i (inside : i < (multimapItems sampleMultimap).reverse.length),
        (multimapPrevItem sampleMultimap · 3)^[i] (multimapLastItem sampleMultimap 3) =
          some (multimapItems sampleMultimap).reverse[i]) ∧
      (multimapPrevItem sampleMultimap · 3)^[(multimapItems sampleMultimap).reverse.length]
        (multimapLastItem sampleMultimap 3) = none := by
  have reach : Reachable 0 sampleMultimap :=
    .step _ (.step _ (.step _ (.step _ (.step _ (.step _ (.step _ .init trivial) trivial) trivial) trivial) trivial)
      trivial) trivial
  exact ⟨reach, reachable_multimap_items reach (by decide)⟩

/-! ## The count wraps -/

def fillRun (blank : V) : Nat → MultimapBase V
  | 0 => (MultimapOp.insertSubmap 0 true).apply blank multimapInit
  | n + 1 => (MultimapOp.insertItemNew 0 n.toUInt64 true).apply blank (fillRun blank n)

theorem reachable_fillRun (blank : V) (n : Nat) : Reachable blank (fillRun blank n) := by
  induction n with
  | zero => exact .step _ .init trivial
  | succ n ih => exact .step _ ih trivial

theorem fillRun_entries (blank : V) (n : Nat) (small : n ≤ 2 ^ 64) :
    ∃ submap, (fillRun blank n).map.entries = [(0, submap)] ∧ mapKeys submap = (List.range n).map Nat.toUInt64 := by
  induction n with
  | zero => exact ⟨mapEmpty, rfl, rfl⟩
  | succ n ih =>
      obtain ⟨submap, single, keys⟩ := ih (by omega)
      have found : mapFind (fillRun blank n).map 0 = some (0, submap) :=
        (mapFind_eq_some_iff _).mpr ⟨by rw [single]; exact List.mem_singleton_self _, rfl⟩
      have above : ∀ entry ∈ submap.entries, entry.1 < n.toUInt64 := by
        intro entry inside
        have held : entry.1 ∈ mapKeys submap := List.mem_map_of_mem inside
        rw [keys] at held
        obtain ⟨i, below, same⟩ := List.mem_map.mp held
        rw [List.mem_range] at below
        rw [← same, UInt64.lt_iff_toNat_lt, Nat.toUInt64_eq, Nat.toUInt64_eq, UInt64.toNat_ofNat',
          UInt64.toNat_ofNat', Nat.mod_eq_of_lt (by omega), Nat.mod_eq_of_lt (by omega)]
        exact below
      have fresh : n.toUInt64 ∉ mapKeys submap := fun held => by
        obtain ⟨value, inside⟩ := (mem_mapKeys submap).mp held
        exact UInt64.lt_irrefl _ (above _ inside)
      have split : (fillRun blank n).map.entries = [] ++ (0, submap) :: [] := single
      refine ⟨⟨insertEntry n.toUInt64 blank submap.entries, sorted_insertEntry submap.sorted fresh⟩, ?_, ?_⟩
      · simp only [fillRun, MultimapOp.apply, multimapInsertItemNew, multimapFindSubmap, found, if_true,
          mapInsert_of_not_mem submap fresh]
        rw [entries_mapSetValue _ _ split (by simp) (by simp)]
        rfl
      · rw [mapKeys]
        dsimp only
        rw [insertEntry_of_lt above, List.map_append, List.range_succ, List.map_append, ← keys]
        rfl

theorem fillRun_itemCount_wraps :
    (multimapItems (fillRun 0 (2 ^ 32))).length = 2 ^ 32 ∧ (fillRun (0 : Nat) (2 ^ 32)).itemCount = 0 := by
  obtain ⟨submap, single, keys⟩ := fillRun_entries 0 (2 ^ 32) (Nat.pow_le_pow_right (by decide) (by decide))
  have size : submap.entries.length = 2 ^ 32 := by
    have := congrArg List.length keys
    rwa [mapKeys, List.length_map, List.length_map, List.length_range] at this
  have total : itemTotal (fillRun 0 (2 ^ 32)).map.entries = 2 ^ 32 := by
    rw [single, itemTotal_cons, itemTotal_nil, size, Nat.add_zero]
  refine ⟨by rw [length_multimapItems, total], ?_⟩
  rw [(reachable_fillRun 0 (2 ^ 32)).counted, total]
  decide

end NvidiaGpu.Multimap
