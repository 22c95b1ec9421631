import Mathlib
import NvidiaGpu.Containers.MapTree

set_option autoImplicit false

/-! Iteration over RM maps (`map.c`): `mapIterRange` sets an iterator from a
first node to a last one, and each `mapIterNext` hands out one node and steps
with `mapNext`.  Over a memory that implements a map, the loop
`while (mapIterNext(&it))` hands out the nodes whose keys lie between the
first node's and the last node's, in order of keys, and from `mapIterAll`
every node of the map. -/

namespace NvidiaGpu.Map

open LinkedTree RedBlack ListOrder

variable {Ptr : Type}

/-- `MapIterBase`: the node the next call hands out, the last node of the
range, and the value the last call handed out. -/
structure MapIterBase (Ptr : Type) where
  pNode : Option Ptr
  pLast : Option Ptr
  pValue : Option Ptr

section Code

variable [DecidableEq Ptr] (mem : MapMem Ptr)

/-- `mapIterRange`: an iterator with nothing to hand out over a map whose
count is `0`, else one from `pFirst` to `pLast`. -/
def mapIterRangeImpl (pFirst pLast : Option Ptr) : MapIterBase Ptr :=
  if mem.count = 0 then ⟨none, none, none⟩ else ⟨pFirst, pLast, none⟩

def mapIterAllImpl (fuel : Nat) : MapIterBase Ptr :=
  mapIterRangeImpl mem (mapFindGEQImpl mem 0 fuel) (mapFindLEQImpl mem nvU64Max fuel)

/-- `mapIterNext`: `NV_FALSE` once the range is done, else `NV_TRUE` with the
node handed out in `pValue` and the iterator moved on: done after the last
node, else to the node `mapNext` returns. -/
def mapIterNextImpl (fuel : Nat) (it : MapIterBase Ptr) : Bool × MapIterBase Ptr :=
  match it.pNode with
  | none => (false, it)
  | some pNode =>
      if some pNode = it.pLast then (true, { it with pValue := some pNode, pNode := none })
      else (true, { it with pValue := some pNode, pNode := mapNextImpl mem pNode fuel })

/-- The values the loop `while (mapIterNext(&it))` hands out, in at most
`rounds` calls. -/
def iterValues (fuel : Nat) : Nat → MapIterBase Ptr → List Ptr
  | 0, _ => []
  | rounds + 1, it =>
      match mapIterNextImpl mem fuel it with
      | (true, it) => it.pValue.toList ++ iterValues fuel rounds it
      | (false, _) => []

end Code

/-! ## Ranges of keys in the list model -/

section Ranges

variable {V : Type} (map : MapBase V)

theorem filter_drop_self {j : Nat} (inside : j < map.entries.length) :
    (map.entries.drop j).filter (fun entry => decide (entry.1 ≤ map.entries[j].1)) = [map.entries[j]] := by
  have tail := (map.sorted.sublist (List.drop_sublist j map.entries))
  rw [List.drop_eq_getElem_cons inside, List.pairwise_cons] at tail
  rw [List.drop_eq_getElem_cons inside, List.filter_cons_of_pos (by simp),
    List.filter_eq_nil_iff.mpr fun entry later => by simpa using tail.1 entry later]

theorem filter_drop_succ {m j : Nat} (order : m < j) (inside : j < map.entries.length) :
    (map.entries.drop m).filter (fun entry => decide (entry.1 ≤ map.entries[j].1)) =
      map.entries[m] :: (map.entries.drop (m + 1)).filter fun entry => decide (entry.1 ≤ map.entries[j].1) := by
  have below := List.pairwise_iff_getElem.mp map.sorted m j (by omega) inside order
  rw [List.drop_eq_getElem_cons (by omega), List.filter_cons_of_pos (by simpa using UInt64.le_of_lt below)]

theorem filter_range_eq {i j : Nat} (inside : i < map.entries.length) (inside' : j < map.entries.length) :
    map.entries.filter (fun entry => decide (map.entries[i].1 ≤ entry.1 ∧ entry.1 ≤ map.entries[j].1)) =
      (map.entries.drop i).filter fun entry => decide (entry.1 ≤ map.entries[j].1) := by
  have sorted := map.sorted
  rw [← List.take_append_drop i map.entries, List.pairwise_append] at sorted
  have tail := sorted.2.1
  rw [List.drop_eq_getElem_cons inside, List.pairwise_cons] at tail
  have first : map.entries[i] ∈ map.entries.drop i := by
    rw [List.drop_eq_getElem_cons inside]
    exact List.mem_cons_self
  have lower : ∀ entry ∈ map.entries.take i, entry.1 < map.entries[i].1 := fun entry earlier =>
    sorted.2.2 entry earlier _ first
  have higher : ∀ entry ∈ map.entries.drop i, map.entries[i].1 ≤ entry.1 := by
    intro entry later
    rw [List.drop_eq_getElem_cons inside] at later
    rcases List.mem_cons.mp later with rfl | after
    · exact UInt64.le_refl _
    · exact UInt64.le_of_lt (tail.1 entry after)
  calc map.entries.filter _
      = (map.entries.take i ++ map.entries.drop i).filter _ := by rw [List.take_append_drop]
    _ = (map.entries.drop i).filter _ := by
        rw [List.filter_append, List.filter_eq_nil_iff.mpr fun entry earlier => by
          simpa using fun above => absurd (lower entry earlier) (UInt64.not_lt.mpr above), List.nil_append]
    _ = _ := List.filter_congr fun entry later => by simp [higher entry later]

end Ranges

/-! ## Iterating over the tree -/

section Iterate

variable [DecidableEq Ptr] {mem : MapMem Ptr} {map : MapBase Ptr} {tree : RBTree Ptr}

omit [DecidableEq Ptr] in
theorem MapMem.Carries.key_of_mem (carries : mem.Carries map tree) {entry : UInt64 × Ptr}
    (member : entry ∈ map.entries) : mem.key entry.2 = entry.1 := by
  rw [carries.entries, MapMem.entriesOf] at member
  obtain ⟨p, -, rfl⟩ := List.mem_map.mp member
  rfl

theorem mapNextImpl_getElem (carries : mem.Carries map tree) {fuel : Nat} (enough : map.entries.length < fuel)
    (m : Nat) (inside : m < map.entries.length) :
    mapNextImpl mem map.entries[m].2 fuel = map.entries[m + 1]?.map Prod.snd := by
  have member : map.entries[m].2 ∈ tree.toList := carries.nodes ▸ List.mem_map_of_mem (List.getElem_mem inside)
  rw [mapNextImpl_eq carries member enough, carries.key_of_mem (List.getElem_mem inside)]
  exact congrArg (Option.map Prod.snd)
    (find?_after_getElem (fun a b => forward.asymm a.1 b.1) (forward.sorted map) m inside)

theorem iterValues_range (carries : mem.Carries map tree) {fuel : Nat} (enough : map.entries.length < fuel)
    {j : Nat} (inside : j < map.entries.length) {rounds : Nat} :
    ∀ {m : Nat} (_ : m ≤ j), j - m < rounds → ∀ pValue : Option Ptr,
      iterValues mem fuel rounds ⟨some map.entries[m].2, some map.entries[j].2, pValue⟩ =
        ((map.entries.drop m).filter fun entry => decide (entry.1 ≤ map.entries[j].1)).map Prod.snd := by
  have distinct : (map.entries.map Prod.snd).Nodup := carries.nodes ▸ carries.holds.distinct
  induction rounds with
  | zero => intro m _ more; omega
  | succ rounds ih =>
      intro m order more pValue
      rw [iterValues, mapIterNextImpl]
      dsimp only
      by_cases last : m = j
      · subst last
        rw [if_pos rfl, filter_drop_self map inside]
        cases rounds <;> rfl
      · have apart : some map.entries[m].2 ≠ some map.entries[j].2 := fun same => by
          have nodes := (@List.Nodup.getElem_inj_iff _ _ distinct m (by simp; omega) j (by simp; omega)).mp
            (by simpa using same)
          exact last nodes
        rw [if_neg apart, mapNextImpl_getElem carries enough m (by omega), List.getElem?_eq_getElem (by omega),
          Option.map_some, filter_drop_succ map (by omega) inside, List.map_cons]
        exact congrArg _ (ih (by omega) (by omega) (some map.entries[m].2))

omit [DecidableEq Ptr] in
theorem count_eq_zero_iff (carries : mem.Carries map tree) (sized : map.entries.length < 2 ^ 32) :
    mem.count = 0 ↔ map.entries = [] := by
  rw [carries.count, mapCount, ← List.length_eq_zero_iff, ← UInt32.toNat_inj, UInt32.toNat_ofNat', UInt32.toNat_zero,
    Nat.mod_eq_of_lt sized]

theorem mapIterAll_values (carries : mem.Carries map tree) (sized : map.entries.length < 2 ^ 32) {fuel : Nat}
    (enough : map.entries.length < fuel) {rounds : Nat} (more : map.entries.length < rounds) :
    iterValues mem fuel rounds (mapIterAllImpl mem fuel) = map.entries.map Prod.snd := by
  by_cases empty : map.entries = []
  · obtain ⟨rest, rfl⟩ : ∃ rest, rounds = rest + 1 := ⟨rounds - 1, by omega⟩
    rw [mapIterAllImpl, mapIterRangeImpl, if_pos ((count_eq_zero_iff carries sized).mpr empty), empty]
    rfl
  have positive : 0 < map.entries.length := List.length_pos_iff.mpr empty
  have inside : map.entries.length - 1 < map.entries.length := by omega
  have rises : ∀ b c (hb : b < map.entries.length) (hc : c < map.entries.length), b ≤ c →
      map.entries[b].1 ≤ map.entries[c].1 := fun b c hb hc le => by
    rcases Nat.lt_or_eq_of_le le with lt | rfl
    · exact UInt64.le_of_lt (List.pairwise_iff_getElem.mp map.sorted b c hb hc lt)
    · exact UInt64.le_refl _
  have full : (map.entries.drop 0).filter (fun entry => decide (entry.1 ≤ map.entries[map.entries.length - 1].1)) =
      map.entries := by
    rw [← filter_range_eq map positive inside, List.filter_eq_self]
    intro entry member
    obtain ⟨a, ha, rfl⟩ := List.mem_iff_getElem.mp member
    simpa using ⟨rises 0 a positive ha (Nat.zero_le a), rises a _ ha inside (by omega)⟩
  have first : mapFindGEQImpl mem 0 fuel = some map.entries[0].2 := by
    rw [mapFindGEQImpl_eq carries 0 enough, mapFindGEQ_zero, List.head?_eq_getElem?,
      List.getElem?_eq_getElem positive, Option.map_some]
  have final : mapFindLEQImpl mem nvU64Max fuel = some map.entries[map.entries.length - 1].2 := by
    rw [mapFindLEQImpl_eq carries nvU64Max enough, mapFindLEQ_max, List.head?_reverse, List.getLast?_eq_getElem?,
      List.getElem?_eq_getElem inside, Option.map_some]
  have nonzero : mem.count ≠ 0 := fun zero => empty ((count_eq_zero_iff carries sized).mp zero)
  rw [mapIterAllImpl, first, final, mapIterRangeImpl, if_neg nonzero,
    iterValues_range carries enough inside (Nat.zero_le _) (by omega), full]

theorem mapIterRange_values (carries : mem.Carries map tree) (sized : map.entries.length < 2 ^ 32) {fuel : Nat}
    (enough : map.entries.length < fuel) {rounds : Nat} (more : map.entries.length < rounds)
    {first last : UInt64 × Ptr} (firstMember : first ∈ map.entries) (lastMember : last ∈ map.entries)
    (below : first.1 ≤ last.1) :
    iterValues mem fuel rounds (mapIterRangeImpl mem (some first.2) (some last.2)) =
      (map.entries.filter fun entry => decide (first.1 ≤ entry.1 ∧ entry.1 ≤ last.1)).map Prod.snd := by
  obtain ⟨i, hi, rfl⟩ := List.mem_iff_getElem.mp firstMember
  obtain ⟨j, hj, rfl⟩ := List.mem_iff_getElem.mp lastMember
  have order : i ≤ j := by
    by_contra later
    exact UInt64.not_lt.mpr below (List.pairwise_iff_getElem.mp map.sorted j i hj hi (by omega))
  have nonzero : mem.count ≠ 0 := fun zero => by
    have empty := (count_eq_zero_iff carries sized).mp zero
    simp [empty] at hi
  rw [mapIterRangeImpl, if_neg nonzero, iterValues_range carries enough hj order (by omega),
    filter_range_eq map hi hj]

/-- Over a memory that implements a map of fewer than `2 ^ 32` nodes, the loop
of `mapIterNext` hands out every node in order of keys from `mapIterAll`, and
from `mapIterRange` of two nodes the nodes whose keys lie between theirs, in
order of keys. -/
theorem mapIter_refines (impl : mem.Implements map) (sized : map.entries.length < 2 ^ 32) {fuel : Nat}
    (enough : map.entries.length < fuel) {rounds : Nat} (more : map.entries.length < rounds) :
    iterValues mem fuel rounds (mapIterAllImpl mem fuel) = map.entries.map Prod.snd ∧
      ∀ first ∈ map.entries, ∀ last ∈ map.entries, first.1 ≤ last.1 →
        iterValues mem fuel rounds (mapIterRangeImpl mem (some first.2) (some last.2)) =
          (map.entries.filter fun entry => decide (first.1 ≤ entry.1 ∧ entry.1 ≤ last.1)).map Prod.snd := by
  obtain ⟨tree, carries⟩ := impl
  exact ⟨mapIterAll_values carries sized enough more, fun first firstMember last lastMember below =>
    mapIterRange_values carries sized enough more firstMember lastMember below⟩

theorem sampleMap_iter :
    sampleMapMem.Implements sampleMap ∧ sampleMap.entries.length < 2 ^ 32 ∧
      (iterValues sampleMapMem 4 4 (mapIterAllImpl sampleMapMem 4) = sampleMap.entries.map Prod.snd ∧
        ∀ first ∈ sampleMap.entries, ∀ last ∈ sampleMap.entries, first.1 ≤ last.1 →
          iterValues sampleMapMem 4 4 (mapIterRangeImpl sampleMapMem (some first.2) (some last.2)) =
            (sampleMap.entries.filter fun entry => decide (first.1 ≤ entry.1 ∧ entry.1 ≤ last.1)).map Prod.snd) :=
  ⟨sampleMapMem_implements, by decide, mapIter_refines sampleMapMem_implements (by decide) (by decide) (by decide)⟩

example : iterValues sampleMapMem 4 4 (mapIterRangeImpl sampleMapMem (some 1) (some 2)) = [1, 2] := by decide

end Iterate

end NvidiaGpu.Map
