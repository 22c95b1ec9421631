import NvidiaGpu.Library.LinkedTree

set_option autoImplicit false

/-! The writes of the red-black fix-up loops on a linked tree, each stated as
the tree it leaves the memory holding: repainting the node at a position, a
rotation at a node, and hanging a new node in at a leaf.  The nodes of the
trees are distinct pointers, so that a write to one node is a write to one
place of the tree. -/

namespace NvidiaGpu.RedBlack

variable {α : Type}

/-- The frame of a parent seen from the other child: the position's subtree
becomes the sibling. -/
def Frame.swap (frame : Frame α) (tree : RBTree α) : Frame α :=
  { frame with side := frame.side.flip, sibling := tree }

theorem toList_plug_paint (path : List (Frame α)) (tree : RBTree α) (red : Bool) :
    (plug path (tree.paint red)).toList = (plug path tree).toList := by
  rw [toList_plug, toList_plug, RBTree.toList_paint]

end NvidiaGpu.RedBlack

namespace NvidiaGpu.LinkedTree.Mem

open RedBlack NvidiaGpu.RedBlack.RBTree

variable {Ptr : Type} {mem : Mem Ptr}

theorem StoresCtx.parent_root {hole : Option Ptr} {path : List (Frame Ptr)} (ctx : mem.StoresCtx hole path) :
    mem.ParentOf mem.root none := by
  induction path generalizing hole with
  | nil =>
      rw [ctx.1]
      exact ctx.2
  | cons frame path ih => exact ih ctx.2.2.2.2.2.2

theorem StoresCtx.root_eq_iff {path : List (Frame Ptr)} {hole : Ptr} (ctx : mem.StoresCtx (some hole) path) :
    mem.root = some hole ↔ path = [] := by
  constructor
  · intro atRoot
    cases path with
    | nil => rfl
    | cons frame rest =>
        have noParent := ctx.parent_root hole atRoot
        rw [ctx.parent_hole, parentOfPath_cons] at noParent
        cases noParent
  · rintro rfl
    exact ctx.1

theorem Represents.root_eq_iff {path : List (Frame Ptr)} {tree : RBTree Ptr} {x : Ptr}
    (rep : mem.Represents (plug path tree)) (rooted : tree.rootValue = some x) :
    mem.root = some x ↔ path = [] := by
  obtain ⟨-, ctx⟩ := (represents_plug path tree).mp rep
  rw [rooted] at ctx
  exact ctx.root_eq_iff

theorem agree_of_links {mem' : Mem Ptr} {target : Ptr} (isRed : mem'.isRed target = mem.isRed target)
    (parent : mem'.parent target = mem.parent target) (child : ∀ side, mem'.child side target = mem.child side target) :
    Agree mem mem' target :=
  ⟨isRed, parent, child .left, child .right⟩

theorem Stores.isRedAt_rootValue {tree : RBTree Ptr} (stores : mem.Stores tree) :
    mem.isRedAt tree.rootValue = tree.rootRed := by
  cases tree with
  | leaf => rfl
  | node red left value right => exact stores.1

theorem ne_of_not_mem_pathNodes {path : List (Frame Ptr)} {target : Ptr} (off : target ∉ pathNodes path) :
    ∀ above ∈ parentOfPath path, target ≠ above := by
  rintro above pointed rfl
  exact off (mem_pathNodes_of_parentOfPath target pointed)

theorem apart_of_nodup {side : Side} {x y : Ptr} {path : List (Frame Ptr)} {xRed yRed : Bool} {a b c : RBTree Ptr}
    (distinct : (plug path (RBTree.mk side xRed a x (RBTree.mk side yRed b y c))).toList.Nodup) :
    x ≠ y ∧ x ∉ b.toList ∧ x ∉ pathNodes path ∧ y ∉ pathNodes path ∧
      (∀ t ∈ a.toList ++ b.toList ++ c.toList, t ≠ x ∧ t ≠ y ∧ t ∉ pathNodes path) ∧
      (∀ t ∈ a.toList ++ c.toList, t ∉ b.toList) ∧ b.toList.Nodup ∧ (pathNodes path).Nodup := by
  have spread := nodup_plug.mp distinct
  rw [((toList_mk_perm side xRed a x _).trans
    ((toList_mk_perm side yRed b y c).append_left (x :: a.toList))).append_right (pathNodes path) |>.nodup_iff]
    at spread
  simp only [List.nodup_append, List.nodup_cons, List.mem_append, List.mem_cons, List.cons_append] at spread
  grind

section Updates

variable [DecidableEq Ptr]

/-! ## Repainting -/

theorem Represents.paint {path : List (Frame Ptr)} {tree : RBTree Ptr} {target : Ptr}
    (rep : mem.Represents (plug path tree)) (rooted : tree.rootValue = some target)
    (distinct : (plug path tree).toList.Nodup) (red : Bool) :
    (mem.setRed target red).Represents (plug path (tree.paint red)) := by
  have repainted := rep.setRed target red
  have spread := nodup_plug.mp distinct
  have notAbove : target ∉ pathNodes path :=
    (List.nodup_append.mp spread).2.2 target (mem_toList_of_rootValue rooted) target
      |> fun apart inPath => apart inPath rfl
  have samePath : path.map (Frame.recolor target red) = path := by
    rw [List.map_congr_left fun frame member => Frame.recolor_of_not_mem fun inFrame =>
      notAbove (List.mem_flatMap.mpr ⟨frame, member, inFrame⟩), List.map_id']
  rw [plug_recolor, samePath] at repainted
  cases tree with
  | leaf => cases rooted
  | node colour left value right =>
      cases rooted
      have alone := (List.nodup_append.mp spread).1
      rw [toList_node, List.perm_middle.nodup_iff, List.nodup_cons, List.mem_append, not_or] at alone
      simpa [RBTree.recolor, RBTree.paint, RBTree.recolor_of_not_mem alone.1.1,
        RBTree.recolor_of_not_mem alone.1.2] using repainted

/-! ## Rotation -/

/-- The rotation at `x` that moves `x` down to `side`: its child `y` on the
other side takes its place, `y`'s child on `side` moves over to `x`, and `x`
hangs on `side` of `y`.  Each field is read from the memory as the writes
before it left it; without a child to lift the rotation writes nothing. -/
def rotate (mem : Mem Ptr) (side : Side) (x : Ptr) : Mem Ptr :=
  match mem.child side.flip x with
  | none => mem
  | some y =>
      let inner := mem.child side y
      let mem := (mem.setChild side.flip x inner).setParentOf inner (some x)
      let mem := mem.setParent y (mem.parent x)
      let mem := mem.relink side (mem.parent x) x (some y)
      (mem.setChild side y (some x)).setParent x (some y)

variable {side : Side} {x y : Ptr}

theorem rotate_eq (linked : mem.child side.flip x = some y) (notInner : mem.child side y ≠ some x)
    (different : x ≠ y) :
    mem.rotate side x =
      (((((mem.setChild side.flip x (mem.child side y)).setParentOf (mem.child side y) (some x)).setParent y
        (mem.parent x)).relink side (mem.parent x) x (some y)).setChild side y (some x)).setParent x (some y) := by
  have unchanged :
      ((mem.setChild side.flip x (mem.child side y)).setParentOf (mem.child side y) (some x)).parent x =
        mem.parent x := by
    rw [parent_setParentOf, if_neg notInner, parent_setChild]
  simp only [rotate, linked, unchanged, parent_setParent, if_neg different]

theorem Represents.rotate {path : List (Frame Ptr)} {xRed yRed : Bool} {a b c : RBTree Ptr}
    (rep : mem.Represents (plug path (RBTree.mk side xRed a x (RBTree.mk side yRed b y c))))
    (distinct : (plug path (RBTree.mk side xRed a x (RBTree.mk side yRed b y c))).toList.Nodup) :
    (mem.rotate side x).Represents (plug path (RBTree.mk side yRed (RBTree.mk side xRed a x b) y c)) := by
  obtain ⟨stores, ctx⟩ := (represents_plug path _).mp rep
  rw [rootValue_mk] at ctx
  obtain ⟨xIsRed, aLink, yLink, aParent, yParent, aStores, yStores⟩ := stores_mk.mp stores
  rw [rootValue_mk] at yLink yParent
  obtain ⟨yIsRed, bLink, cLink, bParent, cParent, bStores, cStores⟩ := stores_mk.mp yStores
  obtain ⟨xy, xb, xAbove, yAbove, inside, sides, bDistinct, pathDistinct⟩ := apart_of_nodup distinct
  have innerOf : ∀ t, b.rootValue = some t → t ∈ b.toList := fun t rooted => mem_toList_of_rootValue rooted
  have notInner : mem.child side y ≠ some x := by
    rw [bLink]
    exact fun rooted => xb (innerOf x rooted)
  rw [rotate_eq yLink notInner xy, bLink, ctx.parent_hole, represents_plug, rootValue_mk]
  set detached := ((mem.setChild side.flip x b.rootValue).setParentOf b.rootValue (some x)).setParent y
    (parentOfPath path) with detachedDef
  have detachedCtx : detached.StoresCtx (some x) path := by
    refine ctx.agree (fun t above => agree_of_links (by simp [detachedDef]) ?_ fun side' => ?_) (by simp [detachedDef]) ?_
    · have apart : b.rootValue ≠ some t := fun rooted => (inside t (by simp [innerOf t rooted])).2.2 above
      rw [detachedDef, parent_setParent, if_neg (by rintro rfl; exact yAbove above), parent_setParentOf,
        if_neg apart, parent_setChild]
    · rw [detachedDef, child_setParent, child_setParentOf, child_setChild,
        if_neg (by rintro ⟨-, rfl⟩; exact xAbove above)]
    · intro t pointed
      cases pointed
      rw [detachedDef, parent_setParent, if_neg xy, parent_setParentOf, ← bLink, if_neg notInner, parent_setChild]
  have relinkedCtx : (detached.relink side (parentOfPath path) x (some y)).StoresCtx (some y) path :=
    detachedCtx.relink (by intro t pointed; cases pointed; simp [detachedDef]) (List.nodup_cons.mpr ⟨xAbove, pathDistinct⟩)
  set final := ((detached.relink side (parentOfPath path) x (some y)).setChild side y (some x)).setParent x
    (some y) with finalDef
  have finalRed : ∀ t, final.isRed t = mem.isRed t := by simp [finalDef, detachedDef]
  have finalParent : ∀ t, t ≠ x → t ≠ y → b.rootValue ≠ some t → final.parent t = mem.parent t := by
    intro t tx ty tb
    simp [finalDef, detachedDef, parent_setParentOf, tx, ty, tb]
  have finalChild : ∀ t, t ≠ x → t ≠ y → t ∉ pathNodes path → ∀ side', final.child side' t = mem.child side' t := by
    intro t tx ty off side'
    simp [finalDef, detachedDef, child_relink_of_ne (ne_of_not_mem_pathNodes off), tx, ty]
  have keeps : ∀ tree : RBTree Ptr, mem.Stores tree → (∀ t ∈ tree.toList, t ≠ x ∧ t ≠ y ∧ t ∉ pathNodes path) →
      (∀ t ∈ descendants tree, b.rootValue ≠ some t) → final.Stores tree := by
    intro tree stored away below
    refine stored.frame (fun t member => ⟨finalRed t, finalChild t (away t member).1 (away t member).2.1
      (away t member).2.2⟩) fun t lower => ?_
    have placed := away t (mem_toList_of_mem_descendants lower)
    exact finalParent t placed.1 placed.2.1 (below t lower)
  have inA : ∀ t ∈ a.toList, t ∈ a.toList ++ b.toList ++ c.toList := by simp +contextual
  have inB : ∀ t ∈ b.toList, t ∈ a.toList ++ b.toList ++ c.toList := by simp +contextual
  have inC : ∀ t ∈ c.toList, t ∈ a.toList ++ b.toList ++ c.toList := by simp +contextual
  have offB : ∀ t ∈ a.toList ++ c.toList, b.rootValue ≠ some t := fun t member rooted =>
    sides t member (innerOf t rooted)
  refine ⟨stores_mk.mpr ⟨by rw [finalRed, yIsRed], by simp [finalDef], ?_, ?_, ?_,
    stores_mk.mpr ⟨by rw [finalRed, xIsRed], ?_, ?_, ?_, ?_, ?_, ?_⟩, ?_⟩, ?_⟩
  · simp [finalDef, detachedDef, child_relink_of_ne (ne_of_not_mem_pathNodes yAbove), Ne.symm xy, cLink]
  · intro t pointed
    rw [rootValue_mk] at pointed
    cases pointed
    simp [finalDef]
  · intro t rooted
    have member := mem_toList_of_rootValue rooted
    rw [finalParent t (inside t (inC t member)).1 (inside t (inC t member)).2.1 (offB t (by simp [member])),
      cParent t rooted]
  · simp [finalDef, detachedDef, child_relink_of_ne (ne_of_not_mem_pathNodes xAbove), xy, aLink]
  · simp [finalDef, detachedDef, child_relink_of_ne (ne_of_not_mem_pathNodes xAbove), xy]
  · intro t rooted
    have member := mem_toList_of_rootValue rooted
    rw [finalParent t (inside t (inA t member)).1 (inside t (inA t member)).2.1 (offB t (by simp [member])),
      aParent t rooted]
  · intro t rooted
    have placed := inside t (inB t (innerOf t rooted))
    have rootedEq : b.rootValue = some t := rooted
    simp [finalDef, detachedDef, parent_setParentOf, placed.1, placed.2.1, rootedEq]
  · exact keeps a aStores (fun t member => inside t (inA t member))
      fun t lower => offB t (by simp [mem_toList_of_mem_descendants lower])
  · exact keeps b bStores (fun t member => inside t (inB t member))
      fun t lower rooted => not_mem_descendants bDistinct rooted lower
  · exact keeps c cStores (fun t member => inside t (inC t member))
      fun t lower => offB t (by simp [mem_toList_of_mem_descendants lower])
  · refine relinkedCtx.agree (fun t above => agree_of_links (by simp [finalDef]) ?_ fun side' => ?_)
      (by simp [finalDef]) ?_
    · simp [finalDef, show t ≠ x by rintro rfl; exact xAbove above]
    · simp [finalDef, show t ≠ y by rintro rfl; exact yAbove above]
    · intro t pointed
      cases pointed
      simp [finalDef, Ne.symm xy]

/-! ## Trees of distinct nodes -/

/-- The memory holds `tree`, whose nodes are distinct pointers: the state the
fix-up loops keep from one write to the next. -/
structure Holds (mem : Mem Ptr) (tree : RBTree Ptr) : Prop where
  represents : mem.Represents tree
  distinct : tree.toList.Nodup

theorem Holds.paint {path : List (Frame Ptr)} {tree : RBTree Ptr} {target : Ptr}
    (holds : mem.Holds (plug path tree)) (rooted : tree.rootValue = some target) (red : Bool) :
    (mem.setRed target red).Holds (plug path (tree.paint red)) :=
  ⟨holds.represents.paint rooted holds.distinct red, by rw [toList_plug_paint]; exact holds.distinct⟩

theorem Holds.rotate {path : List (Frame Ptr)} {xRed yRed : Bool} {a b c : RBTree Ptr}
    (holds : mem.Holds (plug path (RBTree.mk side xRed a x (RBTree.mk side yRed b y c)))) :
    (mem.rotate side x).Holds (plug path (RBTree.mk side yRed (RBTree.mk side xRed a x b) y c)) := by
  refine ⟨holds.represents.rotate holds.distinct, ?_⟩
  rw [toList_plug, toList_rotate side yRed xRed xRed yRed a x b y c, ← toList_plug]
  exact holds.distinct

/-! ## A new node -/

/-- The link that holds the leaf at a position pointed at `newNode`: the
parent's child on the position's side, or the root pointer at the top. -/
def linkAt (mem : Mem Ptr) (path : List (Frame Ptr)) (newNode : Ptr) : Mem Ptr :=
  match path with
  | [] => mem.setRoot (some newNode)
  | frame :: _ => mem.setChild frame.side frame.value (some newNode)

theorem Represents.hang {path : List (Frame Ptr)} {newNode : Ptr} (rep : mem.Represents (plug path leaf))
    (distinct : (plug path leaf).toList.Nodup) (fresh : newNode ∉ (plug path leaf).toList) (red : Bool) :
    ((((mem.setParent newNode (parentOfPath path)).setChild .left newNode none).setChild .right newNode none).setRed
      newNode red).linkAt path newNode |>.Represents (plug path (node red leaf newNode leaf)) := by
  obtain ⟨-, ctx⟩ := (represents_plug path leaf).mp rep
  rw [rootValue_leaf] at ctx
  have off : newNode ∉ pathNodes path := fun above => fresh (mem_plug.mpr (.inr above))
  set written := (((mem.setParent newNode (parentOfPath path)).setChild .left newNode none).setChild .right newNode
    none).setRed newNode red with writtenDef
  have rooted : (node red leaf newNode leaf).rootValue = some newNode := rfl
  rw [represents_plug, rooted]
  cases path with
  | nil => exact ⟨⟨by simp [linkAt, writtenDef], by simp [linkAt, writtenDef], by simp [linkAt, writtenDef],
      by simp [ParentOf], by simp [ParentOf], trivial, trivial⟩, rfl, fun t pointed => by cases pointed; simp [linkAt, writtenDef]⟩
  | cons frame rest =>
      obtain ⟨-, isRed, -, far, siblingParent, siblingStores, above⟩ := ctx
      have spread := nodup_plug.mp distinct
      rw [toList_leaf, List.nil_append, pathNodes_cons, List.cons_append, List.nodup_cons, List.mem_append,
        not_or] at spread
      obtain ⟨⟨notSibling, notAbove⟩, -⟩ := spread
      have parentApart : frame.value ≠ newNode := fun same => off (by simp [same])
      have siblingApart : ∀ t ∈ frame.sibling.toList, t ≠ newNode ∧ t ≠ frame.value := fun t member =>
        ⟨fun same => off (by simp [← same, member]), fun same => notSibling (same ▸ member)⟩
      have restApart : ∀ t ∈ pathNodes rest, t ≠ newNode ∧ t ≠ frame.value := fun t member =>
        ⟨fun same => off (by simp [← same, member]), fun same => notAbove (same ▸ member)⟩
      have linked : ∀ t, t ≠ newNode → t ≠ frame.value → Agree mem (written.linkAt (frame :: rest) newNode) t :=
        fun t away other => agree_of_links (by simp [linkAt, writtenDef, away]) (by simp [linkAt, writtenDef, away])
          fun side => by simp [linkAt, writtenDef, away, other]
      refine ⟨⟨by simp [linkAt, writtenDef], by simp [linkAt, writtenDef, Ne.symm parentApart],
        by simp [linkAt, writtenDef, Ne.symm parentApart], by simp [ParentOf], by simp [ParentOf], trivial, trivial⟩,
        fun t pointed => by cases pointed; simp [linkAt, writtenDef], by simpa [linkAt, writtenDef, parentApart] using isRed,
        by simp [linkAt], by simpa [linkAt, writtenDef, parentApart] using far, fun t rooted => ?_,
        siblingStores.agree fun t member => linked t (siblingApart t member).1 (siblingApart t member).2,
        above.agree (fun t member => linked t (restApart t member).1 (restApart t member).2) (by simp [linkAt, writtenDef])
          fun t pointed => by cases pointed; simp [linkAt, writtenDef, parentApart]⟩
      have away := siblingApart t (mem_toList_of_rootValue rooted)
      rw [(linked t away.1 away.2).2.1, siblingParent t rooted]

/-! ## Taking a node out -/

@[simp] theorem left_setParentOf {target : Option Ptr} {link : Option Ptr} :
    (mem.setParentOf target link).left = mem.left := by
  cases target <;> rfl

@[simp] theorem right_setParentOf {target : Option Ptr} {link : Option Ptr} :
    (mem.setParentOf target link).right = mem.right := by
  cases target <;> rfl

theorem Holds.splice {path : List (Frame Ptr)} {side : Side} {red : Bool} {child : RBTree Ptr} {value : Ptr}
    (holds : mem.Holds (plug path (RBTree.mk side red child value leaf))) :
    ((mem.setParentOf child.rootValue (parentOfPath path)).relink .left (parentOfPath path) value
      child.rootValue).Holds (plug path child) := by
  obtain ⟨stores, ctx⟩ := (represents_plug path _).mp holds.represents
  rw [rootValue_mk] at ctx
  obtain ⟨-, -, -, -, -, childStores, -⟩ := stores_mk.mp stores
  have spread := nodup_plug.mp holds.distinct
  rw [(toList_mk_perm side red child value leaf).append_right _ |>.nodup_iff] at spread
  simp only [toList_leaf, List.append_nil, List.cons_append, List.nodup_cons, List.nodup_append,
    List.mem_append] at spread
  have facts : value ∉ child.toList ∧ value ∉ pathNodes path ∧ (∀ t ∈ child.toList, t ∉ pathNodes path) ∧
      child.toList.Nodup ∧ (pathNodes path).Nodup := by grind
  obtain ⟨valueOut, valueAbove, childApart, childDistinct, pathDistinct⟩ := facts
  have offChild : ∀ t, t ∉ child.toList → child.rootValue ≠ some t := fun t off rooted =>
    off (mem_toList_of_rootValue rooted)
  set moved := mem.setParentOf child.rootValue (parentOfPath path) with movedDef
  have movedCtx : moved.StoresCtx (some value) path := by
    refine ctx.agree (fun t above => agree_of_links (by simp [movedDef]) ?_ fun side' => by simp [movedDef])
      (by simp [movedDef]) ?_
    · rw [movedDef, parent_setParentOf, if_neg (offChild t fun inside => childApart t inside above)]
    · intro t pointed
      cases pointed
      rw [movedDef, parent_setParentOf, if_neg (offChild value valueOut)]
  have newParent : moved.ParentOf child.rootValue (parentOfPath path) := by
    intro t rooted
    have rootedEq : child.rootValue = some t := rooted
    rw [movedDef, parent_setParentOf, if_pos rootedEq]
  refine ⟨(represents_plug path child).mpr ⟨childStores.frame (fun t inside => ⟨by simp [movedDef], fun side' => ?_⟩)
    fun t lower => ?_, movedCtx.relink newParent (List.nodup_cons.mpr ⟨valueAbove, pathDistinct⟩)⟩,
    nodup_plug.mpr (List.nodup_append.mpr ⟨childDistinct, pathDistinct,
      fun t inside u above same => childApart t inside (same ▸ above)⟩)⟩
  · rw [child_relink_of_ne (ne_of_not_mem_pathNodes (childApart t inside)), movedDef, child_setParentOf]
  · rw [parent_relink, movedDef, parent_setParentOf,
      if_neg fun rooted => not_mem_descendants childDistinct rooted lower]

/-- `y` takes the place of `z`: the parent link and the link to it from the
parent or the root pointer, the colour, and both children, which point back
at `y`.  Each field is read from the memory as the writes before it left it. -/
def replace (mem : Mem Ptr) (z y : Ptr) : Mem Ptr :=
  let mem := mem.setParent y (mem.parent z)
  let mem := mem.relink .left (mem.parent z) z (some y)
  let mem := mem.setRed y (mem.isRed z)
  let mem := (mem.setChild .left y (mem.left z)).setParentOf (mem.left z) (some y)
  (mem.setChild .right y (mem.right z)).setParentOf (mem.right z) (some y)

theorem replace_eq {z y : Ptr} (different : z ≠ y) (noLoop : ∀ above ∈ mem.parent z, z ≠ above) :
    mem.replace z y =
      ((((((mem.setParent y (mem.parent z)).relink .left (mem.parent z) z (some y)).setRed y (mem.isRed z)).setChild
        .left y (mem.left z)).setParentOf (mem.left z) (some y)).setChild .right y (mem.right z)).setParentOf
          (mem.right z) (some y) := by
  have unchanged : ∀ side, ((mem.setParent y (mem.parent z)).relink .left (mem.parent z) z (some y)).child side z =
      mem.child side z := fun side => by
    rw [child_relink_of_ne noLoop, child_setParent]
  have leftSame := unchanged .left
  have rightSame := unchanged .right
  simp only [Mem.child] at leftSame rightSame
  simp only [replace, parent_setParent, if_neg different, isRed_relink, isRed_setParent, left_setRed, leftSame,
    right_setParentOf, right_setChild, right_setRed, rightSame, reduceCtorEq, false_and, if_false]

theorem Holds.replace {path : List (Frame Ptr)} {red : Bool} {left right : RBTree Ptr} {z y : Ptr}
    (holds : mem.Holds (plug path (node red left z right)))
    (fresh : y ∉ (plug path (node red left z right)).toList) :
    (mem.replace z y).Holds (plug path (node red left y right)) := by
  obtain ⟨⟨isRed, leftLink, rightLink, -, -, leftStores, rightStores⟩, ctx⟩ :=
    (represents_plug path _).mp holds.represents
  have spread := nodup_plug.mp holds.distinct
  simp only [toList_node, List.nodup_append, List.nodup_cons, List.mem_append, List.mem_cons] at spread
  simp only [mem_plug, toList_node, List.mem_append, List.mem_cons, not_or] at fresh
  have facts : z ≠ y ∧ z ∉ pathNodes path ∧ (∀ t ∈ left.toList, t ≠ y ∧ t ∉ right.toList ∧ t ∉ pathNodes path) ∧
      (∀ t ∈ right.toList, t ≠ y ∧ t ∉ pathNodes path) ∧ (∀ t ∈ pathNodes path, t ≠ y) ∧
      left.toList.Nodup ∧ right.toList.Nodup ∧ (pathNodes path).Nodup := by grind
  obtain ⟨zy, zAbove, leftApart, rightApart, pathApart, leftDistinct, rightDistinct, pathDistinct⟩ := facts
  have zParent : mem.parent z = parentOfPath path := ctx.parent_hole
  rw [replace_eq zy (by rw [zParent]; exact ne_of_not_mem_pathNodes zAbove), zParent, isRed, leftLink, rightLink]
  set lifted := mem.setParent y (parentOfPath path) with liftedDef
  have liftedCtx : lifted.StoresCtx (some z) path :=
    ctx.agree (fun t above => agree_of_links (by simp [liftedDef]) (by simp [liftedDef, pathApart t above])
      fun side => by simp [liftedDef]) (by simp [liftedDef]) fun t pointed => by cases pointed; simp [liftedDef, zy]
  set relinked := lifted.relink .left (parentOfPath path) z (some y) with relinkedDef
  have relinkedCtx : relinked.StoresCtx (some y) path :=
    liftedCtx.relink (by intro t pointed; cases pointed; simp [liftedDef]) (List.nodup_cons.mpr ⟨zAbove, pathDistinct⟩)
  set final := ((((relinked.setRed y red).setChild .left y left.rootValue).setParentOf left.rootValue (some y)).setChild
    .right y right.rootValue).setParentOf right.rootValue (some y) with finalDef
  have offLeft : ∀ t, t ∉ left.toList → left.rootValue ≠ some t := fun t off rooted =>
    off (mem_toList_of_rootValue rooted)
  have offRight : ∀ t, t ∉ right.toList → right.rootValue ≠ some t := fun t off rooted =>
    off (mem_toList_of_rootValue rooted)
  have finalParent : ∀ t, t ≠ y → left.rootValue ≠ some t → right.rootValue ≠ some t → final.parent t = mem.parent t := by
    intro t other offL offR
    simp [finalDef, relinkedDef, liftedDef, parent_setParentOf, other, offL, offR]
  have keeps : ∀ tree : RBTree Ptr, mem.Stores tree → (∀ t ∈ tree.toList, t ≠ y ∧ t ∉ pathNodes path) →
      (∀ t ∈ descendants tree, left.rootValue ≠ some t ∧ right.rootValue ≠ some t) → final.Stores tree := by
    intro tree stored away below
    refine stored.frame (fun t inside => ⟨by simp [finalDef, relinkedDef, liftedDef, (away t inside).1], fun side => ?_⟩) fun t lower => ?_
    · simp [finalDef, relinkedDef, liftedDef, child_relink_of_ne (ne_of_not_mem_pathNodes (away t inside).2),
        (away t inside).1]
    · exact finalParent t (away t (mem_toList_of_mem_descendants lower)).1 (below t lower).1 (below t lower).2
  refine ⟨(represents_plug path _).mpr ⟨⟨by simp [finalDef], by simp [finalDef], by simp [finalDef], ?_, ?_,
    keeps left leftStores (fun t inside => ⟨(leftApart t inside).1, (leftApart t inside).2.2⟩) fun t lower =>
      ⟨fun rooted => not_mem_descendants leftDistinct rooted lower,
        offRight t (leftApart t (mem_toList_of_mem_descendants lower)).2.1⟩,
    keeps right rightStores (fun t inside => rightApart t inside) fun t lower =>
      ⟨offLeft t fun inLeft => (leftApart t inLeft).2.1 (mem_toList_of_mem_descendants lower),
        fun rooted => not_mem_descendants rightDistinct rooted lower⟩⟩,
    relinkedCtx.agree (fun t above => agree_of_links ?_ ?_ fun side => ?_) (by simp [finalDef]) ?_⟩, ?_⟩
  · intro t rooted
    have rootedEq : left.rootValue = some t := rooted
    simp [finalDef, parent_setParentOf, rootedEq]
  · intro t rooted
    have rootedEq : right.rootValue = some t := rooted
    simp [finalDef, parent_setParentOf, rootedEq]
  · simp [finalDef, pathApart t above]
  · simp [finalDef, parent_setParentOf, offLeft t fun inLeft => (leftApart t inLeft).2.2 above,
      offRight t fun inRight => (rightApart t inRight).2 above]
  · simp [finalDef, pathApart t above]
  · intro t pointed
    cases pointed
    simp [finalDef, parent_setParentOf, offLeft y fun inLeft => (leftApart y inLeft).1 rfl,
      offRight y fun inRight => (rightApart y inRight).1 rfl]
  · refine nodup_plug.mpr ?_
    simp only [toList_node, List.nodup_append, List.nodup_cons, List.mem_append, List.mem_cons]
    grind

end Updates

end NvidiaGpu.LinkedTree.Mem
