import NvidiaGpu.Library.ListOrder
import NvidiaGpu.Library.LinkedList

set_option autoImplicit false

/-! RM maps (`map.c`) by the in-order list of their nodes.  A map is a
red-black tree of nodes keyed by `NvU64`; here it is the list of its nodes'
keys and values in order, keys strictly increasing, and each operation is what
it does to that list.  The tree's links, colours and rebalancing are not part
of this model: the lookups over a linked tree of this shape are those of
`Containers.Btree` with one-key intervals.  A pointer to a node's value is
modelled by the node's key and value.

Walking a map forward (`mapNext`, `mapFindGEQ(0)`) or backward (`mapPrev`,
`mapFindLEQ(NV_U64_MAX)`) is one `Direction`: the order it lists the nodes in,
and that its step and its start are the first node after a key and the first
node in that order. -/

namespace NvidiaGpu.Map

open ListOrder

/-- `MapBase`: the nodes of a map, in order. -/
@[ext]
structure MapBase (V : Type) where
  entries : List (UInt64 × V)
  sorted : entries.Pairwise fun a b => a.1 < b.1

variable {V : Type}

def mapKeys (map : MapBase V) : List UInt64 :=
  map.entries.map Prod.fst

def nvU64Max : UInt64 := 0xFFFFFFFFFFFFFFFF

def mapEmpty : MapBase V :=
  ⟨[], List.Pairwise.nil⟩

@[simp] theorem entries_mapEmpty : (mapEmpty : MapBase V).entries = [] := rfl

def mapCount (map : MapBase V) : UInt32 :=
  map.entries.length.toUInt32

theorem toUInt32_succ (n : Nat) : (n + 1).toUInt32 = n.toUInt32 + 1 := by
  rw [Nat.toUInt32_eq, Nat.toUInt32_eq, UInt32.ofNat_add]
  rfl

theorem toUInt32_pred {n : Nat} (positive : 0 < n) : (n - 1).toUInt32 = n.toUInt32 - 1 := by
  rw [Nat.toUInt32_eq, Nat.toUInt32_eq, UInt32.ofNat_sub positive]
  rfl

def mapFind (map : MapBase V) (key : UInt64) : Option (UInt64 × V) :=
  map.entries.find? fun entry => entry.1 == key

def mapFindGEQ (map : MapBase V) (keyMin : UInt64) : Option (UInt64 × V) :=
  map.entries.find? fun entry => decide (keyMin ≤ entry.1)

def mapFindLEQ (map : MapBase V) (keyMax : UInt64) : Option (UInt64 × V) :=
  map.entries.reverse.find? fun entry => decide (entry.1 ≤ keyMax)

def mapNext (map : MapBase V) (key : UInt64) : Option (UInt64 × V) :=
  map.entries.find? fun entry => decide (key < entry.1)

def mapPrev (map : MapBase V) (key : UInt64) : Option (UInt64 × V) :=
  map.entries.reverse.find? fun entry => decide (entry.1 < key)

theorem lt_asymm {a b : UInt64} (below : a < b) : ¬b < a :=
  fun above => UInt64.lt_irrefl a (UInt64.lt_trans below above)

def insertEntry (key : UInt64) (value : V) : List (UInt64 × V) → List (UInt64 × V)
  | [] => [(key, value)]
  | entry :: rest => if key < entry.1 then (key, value) :: entry :: rest else entry :: insertEntry key value rest

theorem insertEntry_perm (key : UInt64) (value : V) (entries : List (UInt64 × V)) :
    (insertEntry key value entries).Perm ((key, value) :: entries) := by
  induction entries with
  | nil => exact List.Perm.refl _
  | cons entry rest ih =>
      rw [insertEntry]
      split
      · exact List.Perm.refl _
      · exact (ih.cons entry).trans (List.Perm.swap _ _ rest)

theorem sorted_insertEntry {key : UInt64} {value : V} {entries : List (UInt64 × V)}
    (sorted : entries.Pairwise fun a b => a.1 < b.1) (fresh : key ∉ entries.map Prod.fst) :
    (insertEntry key value entries).Pairwise fun a b => a.1 < b.1 := by
  induction entries with
  | nil => exact List.pairwise_singleton _ _
  | cons entry rest ih =>
      obtain ⟨below, restSorted⟩ := List.pairwise_cons.mp sorted
      have other : key ≠ entry.1 := fun same => fresh (by simp [same])
      rw [insertEntry]
      split
      · rename_i first
        refine List.pairwise_cons.mpr ⟨fun b member => ?_, sorted⟩
        rcases List.mem_cons.mp member with rfl | later
        · exact first
        · exact UInt64.lt_trans first (below b later)
      · rename_i later
        have above : entry.1 < key := by
          rw [UInt64.lt_iff_toNat_lt] at later ⊢
          have := UInt64.toNat_inj.not.mpr other
          omega
        refine List.pairwise_cons.mpr ⟨fun b member => ?_, ih restSorted (fun held => fresh (by simp [held]))⟩
        rcases List.mem_cons.mp ((insertEntry_perm key value rest).mem_iff.mp member) with rfl | old
        · exact above
        · exact below b old

theorem insertEntry_of_lt {key : UInt64} {value : V} {entries : List (UInt64 × V)}
    (above : ∀ entry ∈ entries, entry.1 < key) : insertEntry key value entries = entries ++ [(key, value)] := by
  induction entries with
  | nil => rfl
  | cons entry rest ih =>
      have later : ¬key < entry.1 := lt_asymm (above entry List.mem_cons_self)
      rw [insertEntry, if_neg later, ih fun other inside => above other (List.mem_cons_of_mem _ inside),
        List.cons_append]

theorem insertEntry_middle {key : UInt64} {value : V} {front back : List (UInt64 × V)}
    (lower : ∀ entry ∈ front, entry.1 < key) (higher : ∀ entry ∈ back, key < entry.1) :
    insertEntry key value (front ++ back) = front ++ (key, value) :: back := by
  induction front with
  | nil =>
      cases back with
      | nil => rfl
      | cons entry rest => rw [List.nil_append, insertEntry, if_pos (higher entry List.mem_cons_self), List.nil_append]
  | cons entry rest ih =>
      rw [List.cons_append, insertEntry, if_neg (lt_asymm (lower entry List.mem_cons_self)),
        ih fun other inside => lower other (List.mem_cons_of_mem _ inside), List.cons_append]

/-- `_mapInsertBase`: the descent refuses a key the map holds, and otherwise
the new node is linked in order. -/
def mapInsert (map : MapBase V) (key : UInt64) (value : V) : Option (MapBase V) :=
  if held : key ∈ mapKeys map then none
  else some ⟨insertEntry key value map.entries, sorted_insertEntry map.sorted held⟩

def mapRemove (map : MapBase V) (key : UInt64) : MapBase V :=
  ⟨map.entries.filter fun entry => entry.1 != key, map.sorted.sublist List.filter_sublist⟩

def setEntry (key : UInt64) (value : V) (entry : UInt64 × V) : UInt64 × V :=
  if entry.1 = key then (key, value) else entry

@[simp] theorem fst_setEntry (key : UInt64) (value : V) (entry : UInt64 × V) :
    (setEntry key value entry).1 = entry.1 := by
  unfold setEntry
  split <;> simp_all

def mapSetValue (map : MapBase V) (key : UInt64) (value : V) : MapBase V :=
  ⟨map.entries.map (setEntry key value), List.pairwise_map.mpr (map.sorted.imp fun below => by simpa using below)⟩

/-! ## The operations on the in-order list -/

section Operations

variable (map : MapBase V)

theorem exists_split {key : UInt64} {value : V} (member : (key, value) ∈ map.entries) :
    ∃ pre post, map.entries = pre ++ (key, value) :: post ∧ (∀ entry ∈ pre, entry.1 < key) ∧
      ∀ entry ∈ post, key < entry.1 := by
  obtain ⟨pre, post, split⟩ := List.append_of_mem member
  have sorted := map.sorted
  rw [split, List.pairwise_append, List.pairwise_cons] at sorted
  exact ⟨pre, post, split, fun entry inside => sorted.2.2 entry inside _ List.mem_cons_self, sorted.2.1.1⟩

theorem eq_of_fst_eq {a b : UInt64 × V} (aMember : a ∈ map.entries) (bMember : b ∈ map.entries) (same : a.1 = b.1) :
    a = b := by
  by_contra different
  rcases LinkedList.rel_or_rel_of_pairwise map.sorted aMember bMember different with below | below <;>
    (rw [same] at below; exact UInt64.lt_irrefl _ below)

theorem mem_mapKeys {key : UInt64} : key ∈ mapKeys map ↔ ∃ value, (key, value) ∈ map.entries := by
  simp [mapKeys]

theorem mapFind_eq_some_iff {key : UInt64} {entry : UInt64 × V} :
    mapFind map key = some entry ↔ entry ∈ map.entries ∧ entry.1 = key := by
  constructor
  · intro found
    exact ⟨List.mem_of_find?_eq_some found, by simpa using List.find?_some found⟩
  · rintro ⟨member, rfl⟩
    cases first : mapFind map entry.1 with
    | none => exact absurd (List.find?_eq_none.mp first entry member) (by simp)
    | some other =>
        have otherMember := List.mem_of_find?_eq_some first
        have sameKey : other.1 = entry.1 := by simpa using List.find?_some first
        rw [eq_of_fst_eq map otherMember member sameKey]

theorem mapFind_eq_none_iff {key : UInt64} : mapFind map key = none ↔ key ∉ mapKeys map := by
  simp only [mapFind, List.find?_eq_none, mem_mapKeys, beq_iff_eq, not_exists]
  exact ⟨fun none value member => none _ member rfl, fun fresh entry member same => fresh entry.2 (same ▸ member)⟩

theorem mapFindGEQ_zero : mapFindGEQ map 0 = map.entries.head? :=
  find?_of_all fun _ _ => by simp [UInt64.zero_le]

theorem mapFindLEQ_max : mapFindLEQ map nvU64Max = map.entries.reverse.head? :=
  find?_of_all fun entry _ => by
    have := UInt64.toNat_lt entry.1
    simp only [decide_eq_true_eq, UInt64.le_iff_toNat_le, nvU64Max]
    exact Nat.le_pred_of_lt this

theorem mapInsert_cases (key : UInt64) (value : V) :
    (key ∈ mapKeys map ∧ mapInsert map key value = none) ∨
      ∃ inserted, key ∉ mapKeys map ∧ mapInsert map key value = some inserted ∧
        inserted.entries.Perm ((key, value) :: map.entries) := by
  by_cases held : key ∈ mapKeys map
  · exact Or.inl ⟨held, dif_pos held⟩
  · exact Or.inr ⟨_, held, dif_neg held, insertEntry_perm key value map.entries⟩

theorem mapInsert_of_not_mem {key : UInt64} (fresh : key ∉ mapKeys map) (value : V) :
    mapInsert map key value = some ⟨insertEntry key value map.entries, sorted_insertEntry map.sorted fresh⟩ :=
  dif_neg fresh

theorem entries_mapRemove {pre post : List (UInt64 × V)} {key : UInt64} {value : V}
    (split : map.entries = pre ++ (key, value) :: post) (below : ∀ entry ∈ pre, entry.1 < key)
    (above : ∀ entry ∈ post, key < entry.1) : (mapRemove map key).entries = pre ++ post := by
  have keepPre : pre.filter (fun entry => entry.1 != key) = pre :=
    List.filter_eq_self.mpr fun entry inside => by simpa using UInt64.ne_of_lt (below entry inside)
  have keepPost : post.filter (fun entry => entry.1 != key) = post :=
    List.filter_eq_self.mpr fun entry inside => by simpa using (UInt64.ne_of_lt (above entry inside)).symm
  simp only [mapRemove, split, List.filter_append, List.filter_cons, keepPre, keepPost, bne_self_eq_false,
    Bool.false_eq_true, if_false]

theorem length_mapRemove {key : UInt64} (held : key ∈ mapKeys map) :
    (mapRemove map key).entries.length + 1 = map.entries.length := by
  obtain ⟨value, member⟩ := (mem_mapKeys map).mp held
  obtain ⟨pre, post, split, below, above⟩ := exists_split map member
  rw [entries_mapRemove map split below above, split, List.length_append, List.length_append, List.length_cons]
  omega

theorem mapRemove_of_not_mem {key : UInt64} (fresh : key ∉ mapKeys map) : mapRemove map key = map := by
  ext1
  refine List.filter_eq_self.mpr fun entry inside => ?_
  have : entry.1 ≠ key := fun same => fresh ((mem_mapKeys map).mpr ⟨entry.2, by rw [← same]; exact inside⟩)
  simpa using this

theorem mapCount_mapRemove_eq_iff {key : UInt64} :
    mapCount map = mapCount (mapRemove map key) ↔ key ∉ mapKeys map := by
  constructor
  · intro same held
    have shorter := length_mapRemove map held
    rw [mapCount, mapCount, ← UInt32.toNat_inj, UInt32.toNat_ofNat', UInt32.toNat_ofNat'] at same
    omega
  · intro fresh
    rw [mapRemove_of_not_mem map fresh]

theorem entries_mapSetValue {pre post : List (UInt64 × V)} {key : UInt64} {old : V} (value : V)
    (split : map.entries = pre ++ (key, old) :: post) (below : ∀ entry ∈ pre, entry.1 < key)
    (above : ∀ entry ∈ post, key < entry.1) :
    (mapSetValue map key value).entries = pre ++ (key, value) :: post := by
  have keep : ∀ entries : List (UInt64 × V), (∀ entry ∈ entries, entry.1 ≠ key) →
      entries.map (setEntry key value) = entries := fun entries apart => by
    have same : ∀ entry ∈ entries, setEntry key value entry = id entry := fun entry inside => if_neg (apart entry inside)
    rw [List.map_congr_left same, List.map_id]
  rw [mapSetValue]
  dsimp only
  rw [split, List.map_append, List.map_cons, keep pre fun entry inside => UInt64.ne_of_lt (below entry inside),
    keep post fun entry inside => (UInt64.ne_of_lt (above entry inside)).symm, setEntry, if_pos rfl]

end Operations

/-! ## Walking a map -/

/-- A direction to walk maps in: `toward` the node after a key and `edge` the
first node, with `order` the nodes listed that way and `ahead a b` that key `b`
comes after key `a`. -/
structure Direction where
  toward : {W : Type} → MapBase W → UInt64 → Option (UInt64 × W)
  edge : {W : Type} → MapBase W → Option (UInt64 × W)
  order : {W : Type} → MapBase W → List (UInt64 × W)
  ahead : UInt64 → UInt64 → Bool
  asymm : ∀ a b, ahead a b → ¬ahead b a
  perm : ∀ {W : Type} (map : MapBase W), (order map).Perm map.entries
  sorted : ∀ {W : Type} (map : MapBase W), (order map).Pairwise fun a b => ahead a.1 b.1
  toward_eq : ∀ {W : Type} (map : MapBase W) (key : UInt64),
    toward map key = (order map).find? fun entry => ahead key entry.1
  edge_eq : ∀ {W : Type} (map : MapBase W), edge map = (order map).head?

def forward : Direction where
  toward map key := mapNext map key
  edge map := mapFindGEQ map 0
  order map := map.entries
  ahead a b := decide (a < b)
  asymm _ _ below above := lt_asymm (of_decide_eq_true below) (of_decide_eq_true above)
  perm _ := List.Perm.refl _
  sorted map := map.sorted.imp fun below => decide_eq_true below
  toward_eq _ _ := rfl
  edge_eq map := mapFindGEQ_zero map

def backward : Direction where
  toward map key := mapPrev map key
  edge map := mapFindLEQ map nvU64Max
  order map := map.entries.reverse
  ahead a b := decide (b < a)
  asymm _ _ below above := lt_asymm (of_decide_eq_true below) (of_decide_eq_true above)
  perm _ := List.reverse_perm _
  sorted map := List.pairwise_reverse.mpr (map.sorted.imp fun below => decide_eq_true below)
  toward_eq _ _ := rfl
  edge_eq map := mapFindLEQ_max map

end NvidiaGpu.Map
