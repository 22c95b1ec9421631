import NvidiaGpu.Uvm.RangeTree

set_option autoImplicit false

/-! Lookups and iteration over the UVM range tree (`uvm_range_tree.c`,
`uvm_range_tree.h`): `uvm_range_tree_iter_first`, `uvm_range_tree_iter_next`
and the `uvm_range_tree_for_each_in` loop they drive, `uvm_range_tree_find`,
and the hole searches `uvm_range_tree_find_hole` and
`uvm_range_tree_find_hole_in`.  On a consistent tree the loop from address `0`
visits the sorted list up to the first node that starts past the bound, and
every lookup at an address is read off the split of the sorted list there. -/

namespace NvidiaGpu.RangeTree

def uvmRangeTreeIterFirst (tree : UvmRangeTree) (start «end» : UInt64) : Option Nat :=
  match rangeNodeFind tree start with
  | (some node, _, _) => some node
  | (none, _, some next) => if (tree.nodes next).start ≤ «end» then some next else none
  | (none, _, none) => none

def uvmRangeTreeIterNext (tree : UvmRangeTree) (node : Nat) («end» : UInt64) : Option Nat :=
  match uvmRangeTreeNext tree node with
  | some next => if (tree.nodes next).start ≤ «end» then some next else none
  | none => none

/-- The loop of `uvm_range_tree_for_each_in` from a given node; the fuel bounds
the number of rounds by the length of the list the loop walks. -/
def forEachInFrom (tree : UvmRangeTree) («end» : UInt64) : Nat → Option Nat → List Nat
  | 0, _ => []
  | _ + 1, none => []
  | fuel + 1, some node =>
      node :: forEachInFrom tree «end» fuel (uvmRangeTreeIterNext tree node «end»)

def uvmRangeTreeForEachIn (tree : UvmRangeTree) (start «end» : UInt64) : List Nat :=
  forEachInFrom tree «end» tree.head.length (uvmRangeTreeIterFirst tree start «end»)

variable {tree : UvmRangeTree}

theorem forEachInFrom_none («end» : UInt64) (fuel : Nat) : forEachInFrom tree «end» fuel none = [] := by
  cases fuel <;> rfl

theorem forEachInFrom_walk (valid : tree.Valid) («end» : UInt64) :
    ∀ {front rest : List Nat} {node : Nat} {fuel : Nat}, tree.head = front ++ node :: rest →
      rest.length < fuel → (tree.nodes node).start ≤ «end» →
      forEachInFrom tree «end» fuel (some node) =
        (node :: rest).takeWhile (fun other => decide ((tree.nodes other).start ≤ «end»)) := by
  intro front rest
  induction rest generalizing front with
  | nil =>
      intro node fuel shape enough within
      obtain ⟨fuel, rfl⟩ : ∃ smaller, fuel = smaller + 1 := ⟨fuel - 1, by simp at enough; omega⟩
      have last : uvmRangeTreeNext tree node = none := by
        have distinct := valid.nodup
        rw [shape] at distinct
        unfold uvmRangeTreeNext
        rw [shape, LinkedList.next_append_cons (LinkedList.not_mem_front distinct)]
        rfl
      simp [forEachInFrom, uvmRangeTreeIterNext, last, forEachInFrom_none, within]
  | cons follower rest ih =>
      intro node fuel shape enough within
      obtain ⟨fuel, rfl⟩ : ∃ smaller, fuel = smaller + 1 := ⟨fuel - 1, by simp at enough; omega⟩
      have following : uvmRangeTreeNext tree node = some follower := by
        have distinct := valid.nodup
        rw [shape] at distinct
        unfold uvmRangeTreeNext
        rw [shape, LinkedList.next_append_cons (LinkedList.not_mem_front distinct)]
        rfl
      by_cases followerWithin : (tree.nodes follower).start ≤ «end»
      · have rest' : tree.head = (front ++ [node]) ++ follower :: rest := by simp [shape]
        have recurse := ih rest' (by simp at enough; omega) followerWithin
        simp [forEachInFrom, uvmRangeTreeIterNext, following, followerWithin, recurse, within]
      · simp [forEachInFrom, uvmRangeTreeIterNext, following, followerWithin, forEachInFrom_none,
          within]

theorem rangeNodeFind_next_missing {addr : UInt64} {parent : Option Nat}
    (walk : SearchTree.descend (fun node => rangeDirection (tree.nodes node) addr) none tree.rbRoot =
      (none, parent)) :
    (rangeNodeFind tree addr).2.2 =
      match parent with
      | some parent =>
          if (tree.nodes parent).start > addr then some parent else uvmRangeTreeNext tree parent
      | none => none := by
  unfold rangeNodeFind
  simp only [walk]
  cases parent <;> rfl

theorem uvmRangeTreeIterFirst_zero (valid : tree.Valid) («end» : UInt64) :
    uvmRangeTreeIterFirst tree 0 «end» =
      match tree.head with
      | [] => none
      | first :: _ => if (tree.nodes first).start ≤ «end» then some first else none := by
  unfold uvmRangeTreeIterFirst
  split
  · rename_i node parent next found
    have foundFirst : (rangeNodeFind tree 0).1 = some node := by rw [found]
    obtain ⟨member, atStart, -⟩ := rangeNodeFind_found foundFirst
    rw [valid.inorder_eq] at member
    cases shape : tree.head with
    | nil =>
        rw [shape] at member
        cases member
    | cons first rest =>
        rw [shape] at member
        have nodeFirst : node = first := by
          rcases List.mem_cons.mp member with same | later
          · exact same
          · have ordered := valid.ordered
            rw [shape, List.pairwise_cons] at ordered
            have before := ordered.1 node later
            exact absurd atStart (by grind)
        have firstWellFormed := valid.wellFormed first (by simp [shape])
        subst nodeFirst
        have startZero : (tree.nodes node).start = 0 := by grind
        have within : (tree.nodes node).start ≤ «end» := by grind
        simp [within]
  · rename_i parent next missing
    have missingFirst : (rangeNodeFind tree 0).1 = none := by rw [missing]
    obtain ⟨pre, post, split, preBefore, postAfter, boundary⟩ := rangeNodeFind_missing valid missingFirst
    have walk := rangeNodeFind_walk tree 0
    rw [missing] at walk boundary
    have nextIs := rangeNodeFind_next_missing walk
    rw [missing] at nextIs
    have preEmpty : pre = [] := by
      cases pre with
      | nil => rfl
      | cons first rest => exact absurd (preBefore first List.mem_cons_self) (by grind)
    subst preEmpty
    rcases boundary with ⟨noParent, -⟩ | ⟨found, same, atEnd | atStart⟩
    · cases noParent
      simp at nextIs
    · obtain ⟨front, impossible⟩ := atEnd
      cases front <;> cases impossible
    · cases same
      obtain ⟨back, rfl⟩ := atStart
      have positive := postAfter found List.mem_cons_self
      simp only [positive, if_true, Option.some.injEq] at nextIs
      rw [List.nil_append] at split
      rw [split, nextIs]
  · rename_i parent missing
    have missingFirst : (rangeNodeFind tree 0).1 = none := by rw [missing]
    obtain ⟨pre, post, split, preBefore, postAfter, boundary⟩ := rangeNodeFind_missing valid missingFirst
    have walk := rangeNodeFind_walk tree 0
    rw [missing] at walk boundary
    have nextIs := rangeNodeFind_next_missing walk
    rw [missing] at nextIs
    have preEmpty : pre = [] := by
      cases pre with
      | nil => rfl
      | cons first rest => exact absurd (preBefore first List.mem_cons_self) (by grind)
    subst preEmpty
    rcases boundary with ⟨-, empty⟩ | ⟨found, same, atEnd | atStart⟩
    · rw [empty]
    · obtain ⟨front, impossible⟩ := atEnd
      cases front <;> cases impossible
    · cases same
      obtain ⟨back, rfl⟩ := atStart
      have positive := postAfter found List.mem_cons_self
      simp [positive] at nextIs

theorem uvmRangeTreeForEachIn_zero (valid : tree.Valid) («end» : UInt64) :
    uvmRangeTreeForEachIn tree 0 «end» =
      tree.head.takeWhile (fun node => decide ((tree.nodes node).start ≤ «end»)) := by
  unfold uvmRangeTreeForEachIn
  rw [uvmRangeTreeIterFirst_zero valid]
  cases shape : tree.head with
  | nil => simp [forEachInFrom_none]
  | cons first rest =>
      by_cases within : (tree.nodes first).start ≤ «end»
      · simp only [within, if_true, List.length_cons]
        exact @forEachInFrom_walk tree valid «end» [] rest first (rest.length + 1) shape (by omega) within
      · simp [within, forEachInFrom_none]

theorem rangeNodeFind_missing_split (valid : tree.Valid) {addr : UInt64}
    (missing : (rangeNodeFind tree addr).1 = none) :
    ∃ pre post, tree.head = pre ++ post ∧ (∀ node ∈ pre, (tree.nodes node).«end» < addr) ∧
      (∀ node ∈ post, addr < (tree.nodes node).start) ∧ (rangeNodeFind tree addr).2.2 = post.head? := by
  obtain ⟨pre, post, split, preBefore, postAfter, boundary⟩ := rangeNodeFind_missing valid missing
  have walk := rangeNodeFind_walk tree addr
  rw [missing] at walk
  generalize (rangeNodeFind tree addr).2.1 = parent at walk boundary
  have nextIs := rangeNodeFind_next_missing walk
  refine ⟨pre, post, split, preBefore, postAfter, ?_⟩
  rw [nextIs]
  rcases boundary with ⟨rfl, empty⟩ | ⟨parent, rfl, atEnd | atStart⟩
  · rw [empty] at split
    rw [(List.append_eq_nil_iff.mp split.symm).2]
    rfl
  · obtain ⟨front, rfl⟩ := atEnd
    have member : parent ∈ tree.head := by simp [split]
    have nonEmpty := valid.wellFormed parent member
    have before := preBefore parent (by simp)
    have notAfter : ¬(tree.nodes parent).start > addr := by grind
    have distinct := valid.nodup
    rw [split, List.append_assoc, List.singleton_append] at distinct
    simp only [notAfter, if_false, uvmRangeTreeNext]
    rw [split, List.append_assoc, List.singleton_append, LinkedList.next_append_cons (LinkedList.not_mem_front distinct)]
  · obtain ⟨back, rfl⟩ := atStart
    have after := postAfter parent List.mem_cons_self
    simp [after]

def uvmRangeTreeFind (tree : UvmRangeTree) (addr : UInt64) : Option Nat :=
  (rangeNodeFind tree addr).1

theorem uvmRangeTreeFind_eq_some_iff (valid : tree.Valid) {addr : UInt64} {node : Nat} :
    uvmRangeTreeFind tree addr = some node ↔
      node ∈ tree.head ∧ (tree.nodes node).start ≤ addr ∧ addr ≤ (tree.nodes node).«end» := by
  constructor
  · intro found
    obtain ⟨member, above, below⟩ := rangeNodeFind_found found
    rw [valid.inorder_eq] at member
    exact ⟨member, above, below⟩
  · rintro ⟨member, above, below⟩
    cases result : uvmRangeTreeFind tree addr with
    | some other =>
        obtain ⟨otherMember, otherAbove, otherBelow⟩ := rangeNodeFind_found result
        rw [valid.inorder_eq] at otherMember
        by_contra different
        rcases valid.separated otherMember member (fun same => different (congrArg some same)) with apart | apart <;>
          grind
    | none =>
        obtain ⟨pre, post, split, preBefore, postAfter, -⟩ := rangeNodeFind_missing_split valid result
        rw [split] at member
        rcases List.mem_append.mp member with inPre | inPost
        · exact absurd (preBefore node inPre) (by grind)
        · exact absurd (postAfter node inPost) (by grind)

theorem uvmRangeTreeIterFirst_eq (valid : tree.Valid) {start «end» : UInt64} (ordered : start ≤ «end») :
    uvmRangeTreeIterFirst tree start «end» =
      tree.head.find? (fun node => rangeNodesOverlap ⟨start, «end»⟩ (tree.nodes node)) := by
  have skip : ∀ {pre : List Nat}, (∀ node ∈ pre, (tree.nodes node).«end» < start) →
      pre.find? (fun node => rangeNodesOverlap ⟨start, «end»⟩ (tree.nodes node)) = none := by
    intro pre before
    rw [List.find?_eq_none]
    intro node member
    rw [rangeNodesOverlap_eq_true_iff]
    have := before node member
    grind
  unfold uvmRangeTreeIterFirst
  split
  · rename_i node parent next found
    have foundFirst : (rangeNodeFind tree start).1 = some node := by rw [found]
    obtain ⟨member, above, below⟩ := rangeNodeFind_found foundFirst
    rw [valid.inorder_eq] at member
    obtain ⟨front, back, shape⟩ := List.append_of_mem member
    have ordered' := valid.ordered
    rw [shape, List.pairwise_append] at ordered'
    have frontBefore : ∀ other ∈ front, (tree.nodes other).«end» < start := fun other inFront => by
      have := ordered'.2.2 other inFront node List.mem_cons_self
      grind
    have meets : rangeNodesOverlap ⟨start, «end»⟩ (tree.nodes node) = true := by
      rw [rangeNodesOverlap_eq_true_iff]
      grind
    rw [shape, List.find?_append, skip frontBefore, Option.none_or]
    simp only [List.find?_cons, meets]
  · rename_i parent next missing
    have missingFirst : (rangeNodeFind tree start).1 = none := by rw [missing]
    obtain ⟨pre, post, split, preBefore, postAfter, nextIs⟩ := rangeNodeFind_missing_split valid missingFirst
    rw [missing] at nextIs
    obtain ⟨back, rfl⟩ : ∃ back, post = next :: back := by
      cases post with
      | nil => cases nextIs
      | cons first back =>
          simp only [List.head?_cons, Option.some.injEq] at nextIs
          exact ⟨back, by rw [nextIs]⟩
    have nextMember : next ∈ tree.head := by simp [split]
    have nonEmpty := valid.wellFormed next nextMember
    have after := postAfter next List.mem_cons_self
    rw [split, List.find?_append, skip preBefore, Option.none_or]
    by_cases reaches : (tree.nodes next).start ≤ «end»
    · have meets : rangeNodesOverlap ⟨start, «end»⟩ (tree.nodes next) = true := by
        rw [rangeNodesOverlap_eq_true_iff]
        grind
      rw [if_pos reaches]
      simp only [List.find?_cons, meets]
    · have ordered' := valid.ordered
      rw [split, List.pairwise_append, List.pairwise_cons] at ordered'
      rw [if_neg reaches, eq_comm, List.find?_eq_none]
      intro node member
      rw [rangeNodesOverlap_eq_true_iff]
      rcases List.mem_cons.mp member with rfl | later
      · grind
      · have := ordered'.2.1.1 node later
        grind
  · rename_i parent missing
    have missingFirst : (rangeNodeFind tree start).1 = none := by rw [missing]
    obtain ⟨pre, post, split, preBefore, -, nextIs⟩ := rangeNodeFind_missing_split valid missingFirst
    rw [missing] at nextIs
    obtain rfl : post = [] := List.head?_eq_none_iff.mp nextIs.symm
    rw [split, List.append_nil, skip preBefore]

def ullongMax : UInt64 := 0xFFFFFFFFFFFFFFFF

theorem le_ullongMax (value : UInt64) : value ≤ ullongMax := by
  rw [UInt64.le_iff_toNat_le]
  have bound := UInt64.toNat_lt value
  have top : ullongMax.toNat = 2 ^ 64 - 1 := rfl
  omega

def uvmRangeTreeLast (tree : UvmRangeTree) : Option Nat :=
  tree.head.getLast?

/-- `uvm_range_tree_find_hole(tree, addr, start, end)`: the status, with the
values `*start` and `*end` hold afterwards. -/
def uvmRangeTreeFindHole (tree : UvmRangeTree) (addr start «end» : UInt64) : NvStatus × UInt64 × UInt64 :=
  match uvmRangeTreeIterFirst tree addr ullongMax with
  | some node =>
      if (tree.nodes node).start ≤ addr then (.nvErrUvmAddressInUse, start, «end»)
      else
        let «end» := (tree.nodes node).start - 1
        match uvmRangeTreePrev tree node with
        | some prev => (.nvOk, (tree.nodes prev).«end» + 1, «end»)
        | none => (.nvOk, 0, «end»)
  | none =>
      match uvmRangeTreeLast tree with
      | some last => (.nvOk, (tree.nodes last).«end» + 1, ullongMax)
      | none => (.nvOk, 0, ullongMax)

def uvmRangeTreeFindHoleIn (tree : UvmRangeTree) (addr start «end» : UInt64) : NvStatus × UInt64 × UInt64 :=
  match uvmRangeTreeFindHole tree addr 0 0 with
  | (.nvOk, tempStart, tempEnd) => (.nvOk, max tempStart start, min tempEnd «end»)
  | (status, _, _) => (status, start, «end»)

theorem uvmRangeTreeIterFirst_of_found {start «end» : UInt64} {node : Nat}
    (found : uvmRangeTreeFind tree start = some node) : uvmRangeTreeIterFirst tree start «end» = some node := by
  unfold uvmRangeTreeFind at found
  unfold uvmRangeTreeIterFirst
  rcases result : rangeNodeFind tree start with ⟨first, parent, next⟩
  rw [result] at found
  cases found
  rfl

/-- The hole between the nodes `pre` and the nodes `post`: from one past the
end of the last of `pre`, or 0, to one before the start of the first of
`post`, or `ULLONG_MAX`. -/
def holeBetween (tree : UvmRangeTree) (pre post : List Nat) : UInt64 × UInt64 :=
  ((pre.getLast?.map fun node => (tree.nodes node).«end» + 1).getD 0,
    (post.head?.map fun node => (tree.nodes node).start - 1).getD ullongMax)

section Hole

variable {addr : UInt64} {pre post : List Nat}

theorem uvmRangeTreeFindHole_of_mem (valid : tree.Valid) {node : Nat} (member : node ∈ tree.head)
    (inside : (tree.nodes node).start ≤ addr ∧ addr ≤ (tree.nodes node).«end») (start «end» : UInt64) :
    uvmRangeTreeFindHole tree addr start «end» = (.nvErrUvmAddressInUse, start, «end») := by
  have found := (uvmRangeTreeFind_eq_some_iff valid).mpr ⟨member, inside⟩
  rw [uvmRangeTreeFindHole, uvmRangeTreeIterFirst_of_found found]
  simp [inside.1]

theorem uvmRangeTreeFindHole_of_split (valid : tree.Valid) (split : tree.head = pre ++ post)
    (preBefore : ∀ node ∈ pre, (tree.nodes node).«end» < addr)
    (postAfter : ∀ node ∈ post, addr < (tree.nodes node).start) (start «end» : UInt64) :
    uvmRangeTreeFindHole tree addr start «end» = (.nvOk, holeBetween tree pre post) := by
  have skip : pre.find? (fun node => rangeNodesOverlap ⟨addr, ullongMax⟩ (tree.nodes node)) = none := by
    rw [List.find?_eq_none]
    intro node member
    rw [rangeNodesOverlap_eq_true_iff]
    have := preBefore node member
    grind
  have first := uvmRangeTreeIterFirst_eq valid (le_ullongMax addr)
  rw [split, List.find?_append, skip, Option.none_or] at first
  cases post with
  | nil =>
      have last : uvmRangeTreeLast tree = pre.getLast? := by rw [uvmRangeTreeLast, split, List.append_nil]
      rw [uvmRangeTreeFindHole, first, List.find?_nil, last, holeBetween]
      cases pre.getLast? <;> rfl
  | cons next back =>
      have nextMember : next ∈ tree.head := by simp [split]
      have nonEmpty := valid.wellFormed next nextMember
      have after := postAfter next List.mem_cons_self
      have meets : rangeNodesOverlap ⟨addr, ullongMax⟩ (tree.nodes next) = true := by
        rw [rangeNodesOverlap_eq_true_iff]
        exact ⟨le_ullongMax _, by grind⟩
      have distinct := valid.nodup
      rw [split] at distinct
      have previous : uvmRangeTreePrev tree next = pre.getLast? := by
        rw [uvmRangeTreePrev, split, LinkedList.prev_append_cons (LinkedList.not_mem_back distinct)]
      simp only [List.find?_cons, meets] at first
      have notInUse : ¬(tree.nodes next).start ≤ addr := by grind
      rw [uvmRangeTreeFindHole, first]
      simp only [if_neg notInUse, previous, holeBetween]
      cases pre.getLast? <;> rfl

theorem holeBetween_spec (valid : tree.Valid) (split : tree.head = pre ++ post)
    (preBefore : ∀ node ∈ pre, (tree.nodes node).«end» < addr)
    (postAfter : ∀ node ∈ post, addr < (tree.nodes node).start) :
    (holeBetween tree pre post).1 ≤ addr ∧ addr ≤ (holeBetween tree pre post).2 ∧
      ∀ node ∈ tree.head, rangeNodesOverlap ⟨(holeBetween tree pre post).1, (holeBetween tree pre post).2⟩
        (tree.nodes node) = false := by
  have ordered := valid.ordered
  rw [split, List.pairwise_append] at ordered
  have lowBound : (holeBetween tree pre post).1 ≤ addr ∧
      ∀ node ∈ pre, (tree.nodes node).«end» < (holeBetween tree pre post).1 := by
    rcases List.eq_nil_or_concat' pre with rfl | ⟨front, last, rfl⟩
    · exact ⟨UInt64.zero_le, by simp⟩
    · have lastBefore := preBefore last (by simp)
      simp only [holeBetween, List.getLast?_concat, Option.map_some, Option.getD_some]
      refine ⟨by grind, fun node member => ?_⟩
      rcases List.mem_append.mp member with inFront | isLast
      · have lastMember : last ∈ tree.head := by simp [split]
        have nonEmpty := valid.wellFormed last lastMember
        have := (List.pairwise_append.mp ordered.1).2.2 node inFront last (by simp)
        grind
      · rw [List.mem_singleton.mp isLast]
        grind
  have highBound : addr ≤ (holeBetween tree pre post).2 ∧
      ∀ node ∈ post, (holeBetween tree pre post).2 < (tree.nodes node).start := by
    cases post with
    | nil => exact ⟨le_ullongMax addr, by simp⟩
    | cons next back =>
        have nextAfter := postAfter next List.mem_cons_self
        simp only [holeBetween, List.head?_cons, Option.map_some, Option.getD_some]
        refine ⟨by grind, fun node member => ?_⟩
        rcases List.mem_cons.mp member with rfl | later
        · grind
        · have nextMember : next ∈ tree.head := by simp [split]
          have nonEmpty := valid.wellFormed next nextMember
          have := (List.pairwise_cons.mp ordered.2.1).1 node later
          grind
  refine ⟨lowBound.1, highBound.1, fun node member => ?_⟩
  rw [Bool.eq_false_iff, ne_eq, rangeNodesOverlap_eq_true_iff]
  rw [split] at member
  rcases List.mem_append.mp member with inPre | inPost
  · have := lowBound.2 node inPre
    grind
  · have := highBound.2 node inPost
    grind

end Hole

theorem uvmRangeTreeFindHoleIn_of_mem (valid : tree.Valid) {addr : UInt64} {node : Nat} (member : node ∈ tree.head)
    (inside : (tree.nodes node).start ≤ addr ∧ addr ≤ (tree.nodes node).«end») (start «end» : UInt64) :
    uvmRangeTreeFindHoleIn tree addr start «end» = (.nvErrUvmAddressInUse, start, «end») := by
  rw [uvmRangeTreeFindHoleIn, uvmRangeTreeFindHole_of_mem valid member inside]

theorem uvmRangeTreeFindHoleIn_of_split (valid : tree.Valid) {addr : UInt64} {pre post : List Nat} (split : tree.head = pre ++ post)
    (preBefore : ∀ node ∈ pre, (tree.nodes node).«end» < addr)
    (postAfter : ∀ node ∈ post, addr < (tree.nodes node).start) (start «end» : UInt64) :
    uvmRangeTreeFindHoleIn tree addr start «end» =
      (.nvOk, max (holeBetween tree pre post).1 start, min (holeBetween tree pre post).2 «end») := by
  rw [uvmRangeTreeFindHoleIn, uvmRangeTreeFindHole_of_split valid split preBefore postAfter]

/-- What the lookups return at `addr`: `uvm_range_tree_find` the node that
contains it; `uvm_range_tree_iter_first` the first node meeting `[start, end]`;
`uvm_range_tree_find_hole` an error exactly when a node contains `addr`, and
otherwise the hole around `addr` between the nodes before and after it, which
`uvm_range_tree_find_hole_in` clips to the caller's bounds. -/
structure LookupsCorrect (tree : UvmRangeTree) (addr : UInt64) : Prop where
  find : ∀ node, uvmRangeTreeFind tree addr = some node ↔
    node ∈ tree.head ∧ (tree.nodes node).start ≤ addr ∧ addr ≤ (tree.nodes node).«end»
  iterFirst : ∀ start «end», start ≤ «end» → uvmRangeTreeIterFirst tree start «end» =
    tree.head.find? (fun node => rangeNodesOverlap ⟨start, «end»⟩ (tree.nodes node))
  findHole : ∀ start «end»,
    ((∃ node ∈ tree.head, (tree.nodes node).start ≤ addr ∧ addr ≤ (tree.nodes node).«end») ∧
      uvmRangeTreeFindHole tree addr start «end» = (.nvErrUvmAddressInUse, start, «end») ∧
      uvmRangeTreeFindHoleIn tree addr start «end» = (.nvErrUvmAddressInUse, start, «end»)) ∨
    ∃ pre post, tree.head = pre ++ post ∧ (∀ node ∈ pre, (tree.nodes node).«end» < addr) ∧
      (∀ node ∈ post, addr < (tree.nodes node).start) ∧
      uvmRangeTreeFindHole tree addr start «end» = (.nvOk, holeBetween tree pre post) ∧
      uvmRangeTreeFindHoleIn tree addr start «end» =
        (.nvOk, max (holeBetween tree pre post).1 start, min (holeBetween tree pre post).2 «end») ∧
      (holeBetween tree pre post).1 ≤ addr ∧ addr ≤ (holeBetween tree pre post).2 ∧
      ∀ node ∈ tree.head, rangeNodesOverlap ⟨(holeBetween tree pre post).1, (holeBetween tree pre post).2⟩
        (tree.nodes node) = false

theorem uvmRangeTree_lookups (valid : tree.Valid) (addr : UInt64) : LookupsCorrect tree addr := by
  refine ⟨fun node => uvmRangeTreeFind_eq_some_iff valid, fun start «end» ordered => uvmRangeTreeIterFirst_eq valid ordered,
    fun start «end» => ?_⟩
  cases found : uvmRangeTreeFind tree addr with
  | some node =>
      obtain ⟨member, inside⟩ := (uvmRangeTreeFind_eq_some_iff valid).mp found
      exact .inl ⟨⟨node, member, inside⟩, uvmRangeTreeFindHole_of_mem valid member inside start «end»,
        uvmRangeTreeFindHoleIn_of_mem valid member inside start «end»⟩
  | none =>
      obtain ⟨pre, post, split, preBefore, postAfter, -⟩ := rangeNodeFind_missing_split valid found
      exact .inr ⟨pre, post, split, preBefore, postAfter,
        uvmRangeTreeFindHole_of_split valid split preBefore postAfter start «end»,
        uvmRangeTreeFindHoleIn_of_split valid split preBefore postAfter start «end»,
        holeBetween_spec valid split preBefore postAfter⟩

/-- Three ranges, `[0x1000, 0x1fff]`, `[0x3000, 0x3fff]` and `[0x5000, 0x5fff]`,
the middle one at the root. -/
def threeRangeTree : UvmRangeTree :=
  { nodes := fun node => ⟨0x1000 + 0x2000 * node.toUInt64, 0x1fff + 0x2000 * node.toUInt64⟩,
    rbRoot := .node 1 (.node 0 .nil .nil) (.node 2 .nil .nil), head := [0, 1, 2] }

theorem threeRangeTree_lookups : threeRangeTree.Valid ∧ LookupsCorrect threeRangeTree 0x2800 :=
  have valid : threeRangeTree.Valid := ⟨rfl, by decide, by decide⟩
  ⟨valid, uvmRangeTree_lookups valid 0x2800⟩

end NvidiaGpu.RangeTree
