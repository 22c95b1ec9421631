import NvidiaGpu.Library.RedBlack

set_option autoImplicit false

/-! The fix-up loops of red-black trees, one pass at a time, on zippers: after a
red node is linked in at a leaf (`fixRed`, the textbook insertion fix-up), and
after a black node is spliced out, leaving the subtree at a position one black
node short (`fixBlack`, the deletion fix-up).  Each pass keeps the in-order
sequence of values and an invariant of the zipper; at the loop's exit the
invariant gives a red-black tree once the node at the position, or the root,
is painted black.  `remove` is the splice that precedes the deletion fix-up. -/

namespace NvidiaGpu.RedBlack

open NvidiaGpu.RedBlack.RBTree

variable {α : Type}

theorem toList_plug_congr (path : List (Frame α)) {tree other : RBTree α} (same : tree.toList = other.toList) :
    (plug path tree).toList = (plug path other).toList := by
  rw [toList_plug, toList_plug, same]

/-! ## Insertion -/

/-- The insertion fix-up with a red node at the position: no red-red edge
except between it and its parent, one black height everywhere, and a black
root unless the position is the root. -/
structure InsertInv (path : List (Frame α)) (tree : RBTree α) : Prop where
  redFree : tree.RedFree
  red : tree.rootRed = true
  ctxRed : CtxRed path false
  balanced : ∃ height total, tree.Balanced height ∧ CtxBalanced path height total
  topBlack : TopBlack path

/-- One pass of the insertion fix-up at a red position under a red `parent`
whose own parent is `grandparent`: with a red uncle, recolour and move two
levels up; otherwise rotate once or twice and stop, the position now under a
black parent. -/
def fixRed (parent grandparent : Frame α) (path : List (Frame α)) (tree : RBTree α) :
    List (Frame α) × RBTree α :=
  if grandparent.sibling.rootRed then
    (path, RBTree.mk grandparent.side true ({ parent with red := false }.fill tree) grandparent.value
      (grandparent.sibling.paint false))
  else if parent.side = grandparent.side then
    ({ side := grandparent.side, red := false, value := parent.value,
       sibling := RBTree.mk grandparent.side true parent.sibling grandparent.value grandparent.sibling } :: path,
     tree)
  else
    match tree with
    | leaf => (parent :: grandparent :: path, leaf)
    | node red left value right =>
        ({ side := grandparent.side, red := false, value := value,
           sibling := RBTree.mk grandparent.side true ((node red left value right).child grandparent.side.flip)
             grandparent.value grandparent.sibling } :: path,
         RBTree.mk grandparent.side true parent.sibling parent.value
           ((node red left value right).child grandparent.side))

theorem InsertInv.grandparent {parent : Frame α} {path : List (Frame α)} {tree : RBTree α}
    (inv : InsertInv (parent :: path) tree) (red : parent.red = true) :
    ∃ grandparent rest, path = grandparent :: rest ∧ grandparent.red = false := by
  cases path with
  | nil =>
      have black : parent.red = false := inv.topBlack
      rw [red] at black
      cases black
  | cons grandparent rest =>
      obtain ⟨-, -, ⟨-, redGrandparent, -⟩⟩ := inv.ctxRed
      refine ⟨grandparent, rest, rfl, ?_⟩
      cases black : grandparent.red
      · rfl
      · rw [(redGrandparent black).1] at red
        cases red

theorem toList_fixRed (parent grandparent : Frame α) (path : List (Frame α)) (tree : RBTree α) :
    (plug (fixRed parent grandparent path tree).1 (fixRed parent grandparent path tree).2).toList =
      (plug (parent :: grandparent :: path) tree).toList := by
  rcases parent with ⟨parentSide, parentRed, parentValue, aunt⟩
  rcases grandparent with ⟨side, grandRed, grandValue, uncle⟩
  unfold fixRed
  split_ifs with uncleRed sameSide
  · apply toList_plug_congr
    cases side <;> cases parentSide <;> simp [Frame.fill]
  · simp only [plug_cons]
    apply toList_plug_congr
    subst sameSide
    cases parentSide <;> simp [Frame.fill]
  · cases tree with
    | leaf => rfl
    | node red left value right =>
        simp only [plug_cons]
        apply toList_plug_congr
        cases side <;> cases parentSide <;> first | exact absurd rfl sameSide | simp [Frame.fill, RBTree.child, Side.flip]

section Insert

variable {parent grandparent : Frame α} {path : List (Frame α)} {tree : RBTree α}

theorem InsertInv.unfold (inv : InsertInv (parent :: grandparent :: path) tree) (red : parent.red = true)
    (black : grandparent.red = false) :
    ∃ height total, tree.Balanced height ∧ parent.sibling.Balanced height ∧
      grandparent.sibling.Balanced height ∧ CtxBalanced path (height + 1) total ∧
      parent.sibling.RedFree ∧ parent.sibling.rootRed = false ∧ grandparent.sibling.RedFree ∧
      CtxRed path false := by
  obtain ⟨height, total, balancedTree, balancedAunt, balancedUncle, around⟩ := inv.balanced
  obtain ⟨auntFree, redParent, uncleFree, -, aroundRed⟩ := inv.ctxRed
  simp only [red, black, if_pos, Bool.false_eq_true, if_false] at balancedUncle around aroundRed
  exact ⟨height, total, balancedTree, balancedAunt, balancedUncle, around, auntFree, (redParent red).2,
    uncleFree, aroundRed⟩

theorem InsertInv.fixRed (inv : InsertInv (parent :: grandparent :: path) tree) (red : parent.red = true)
    (black : grandparent.red = false) :
    InsertInv (fixRed parent grandparent path tree).1 (fixRed parent grandparent path tree).2 := by
  obtain ⟨height, total, balancedTree, balancedAunt, balancedUncle, around, auntFree, auntBlack, uncleFree,
    aroundRed⟩ := inv.unfold red black
  have topBlack : TopBlack path := inv.topBlack.tail.tail
  unfold RedBlack.fixRed
  split_ifs with uncleRed sameSide
  · refine ⟨?_, rootRed_mk _ _ _ _ _, aroundRed, ⟨height + 1, total, ?_, around⟩, topBlack⟩
    · exact redFree_mk.mpr ⟨redFree_mk.mpr ⟨inv.redFree, auntFree, (by cases ·)⟩, uncleFree.paint_black,
        fun _ => ⟨rootRed_mk _ _ _ _ _, rootRed_paint_false _⟩⟩
    · exact balanced_mk.mpr ⟨height + 1, by simp,
        balanced_mk.mpr ⟨height, by simp, balancedTree, balancedAunt⟩, balancedUncle.paint_black uncleRed⟩
  · have uncleBlack : grandparent.sibling.rootRed = false := by simpa using uncleRed
    refine ⟨inv.redFree, inv.red, ⟨?_, (by cases ·), aroundRed⟩, ⟨height, total, balancedTree, ?_, around⟩,
      topBlack.cons rfl⟩
    · exact redFree_mk.mpr ⟨auntFree, uncleFree, fun _ => ⟨auntBlack, uncleBlack⟩⟩
    · exact balanced_mk.mpr ⟨height, by simp, balancedAunt, balancedUncle⟩
  · have uncleBlack : grandparent.sibling.rootRed = false := by simpa using uncleRed
    cases tree with
    | leaf => cases inv.red
    | node colour left value right =>
        have redTree : colour = true := inv.red
        subst redTree
        have shape := eq_mk_of_rootValue grandparent.side (show (node true left value right).rootValue = some value from rfl)
        have treeFree := inv.redFree
        rw [shape] at treeFree balancedTree
        obtain ⟨nearFree, farFree, childrenBlack⟩ := redFree_mk.mp treeFree
        obtain ⟨below, same, balancedNear, balancedFar⟩ := balanced_mk.mp balancedTree
        rw [if_pos (show (node true left value right).rootRed = true from rfl)] at same
        subst same
        refine ⟨?_, rootRed_mk _ _ _ _ _, ⟨?_, (by cases ·), aroundRed⟩,
          ⟨height, total, ?_, ?_, around⟩, topBlack.cons rfl⟩
        · exact redFree_mk.mpr ⟨auntFree, nearFree, fun _ => ⟨auntBlack, (childrenBlack rfl).1⟩⟩
        · exact redFree_mk.mpr ⟨farFree, uncleFree, fun _ => ⟨(childrenBlack rfl).2, uncleBlack⟩⟩
        · exact balanced_mk.mpr ⟨height, by simp, balancedAunt, balancedNear⟩
        · exact balanced_mk.mpr ⟨height, by simp, balancedFar, balancedUncle⟩

theorem fixRed_progress (red : tree.rootRed = true) :
    (fixRed parent grandparent path tree).1 = path ∨
      ∃ frame, (fixRed parent grandparent path tree).1 = frame :: path ∧ frame.red = false := by
  unfold RedBlack.fixRed
  split_ifs
  · exact .inl rfl
  · exact .inr ⟨_, rfl, rfl⟩
  · cases tree with
    | leaf => cases red
    | node => exact .inr ⟨_, rfl, rfl⟩

end Insert

/-- Linking a red node in at a leaf of a red-black tree starts the fix-up. -/
theorem InsertInv.start {path : List (Frame α)} (whole : (plug path leaf).IsRedBlack) (value : α) :
    InsertInv path (node true leaf value leaf) := by
  obtain ⟨⟨total, balanced⟩, redFree, black⟩ := whole
  obtain ⟨height, balancedLeaf, around⟩ := (balanced_plug path leaf total).mp balanced
  have zero : height = 0 := balancedLeaf
  subst zero
  exact ⟨⟨trivial, trivial, (by intro; exact ⟨rfl, rfl⟩)⟩, rfl, ((redFree_plug path leaf).mp redFree).2,
    ⟨0, total, ⟨0, rfl, rfl, rfl⟩, around⟩, topBlack_of_rootRed black⟩

theorem InsertInv.isRedBlack {path : List (Frame α)} {tree : RBTree α} (inv : InsertInv path tree)
    (exit : ∀ frame ∈ path.head?, frame.red = false) : ((plug path tree).paint false).IsRedBlack := by
  obtain ⟨height, total, balancedTree, around⟩ := inv.balanced
  have balanced : (plug path tree).Balanced total := (balanced_plug path tree total).mpr ⟨height, balancedTree, around⟩
  cases path with
  | nil =>
      exact ⟨⟨total + 1, balanced.paint_black inv.red⟩, inv.redFree.paint_black, rootRed_paint_false _⟩
  | cons frame rest =>
      have black : frame.red = false := exit frame rfl
      have redFree : (plug (frame :: rest) tree).RedFree := by
        refine (redFree_plug _ tree).mpr ⟨inv.redFree, ?_⟩
        obtain ⟨siblingFree, -, aroundRed⟩ := inv.ctxRed
        exact ⟨siblingFree, fun red => absurd (black ▸ red) (by simp), aroundRed⟩
      have rootBlack := rootRed_plug inv.topBlack (List.cons_ne_nil _ _) tree
      rw [paint_of_black rootBlack]
      exact ⟨⟨total, balanced⟩, redFree, rootBlack⟩

/-! ## Deletion -/

/-- The deletion fix-up with the subtree at the position one black node short:
red-free once its root is painted black, no red-red edge around it, and a black
root unless the position is the root. -/
structure DeleteInv (path : List (Frame α)) (tree : RBTree α) : Prop where
  redFree : (tree.paint false).RedFree
  ctxRed : CtxRed path false
  balanced : ∃ height total, tree.Balanced height ∧ CtxBalanced path (height + 1) total
  topBlack : TopBlack path

/-- Case four of the deletion fix-up: the black sibling `value` has a red child
`far` away from the position; a rotation at the parent, with the sibling taking
the parent's colour, ends the loop at the root. -/
def rotateBlack (frame : Frame α) (path : List (Frame α)) (tree near : RBTree α) (value : α)
    (far : RBTree α) : List (Frame α) × RBTree α :=
  ([], plug path (RBTree.mk frame.side frame.red (RBTree.mk frame.side false tree frame.value near) value
    (far.paint false)))

/-- Cases two to four of the deletion fix-up, at a black sibling: with both of
its children black, paint it red and move up; otherwise rotate its red child
away from the position first if needed (case three), then apply case four. -/
def fixBlackSibling (frame : Frame α) (path : List (Frame α)) (tree : RBTree α) : List (Frame α) × RBTree α :=
  match frame.sibling.rootValue, (frame.sibling.child frame.side).rootValue with
  | none, _ => (frame :: path, tree)
  | some value, nearValue =>
      if !(frame.sibling.child frame.side).rootRed && !(frame.sibling.child frame.side.flip).rootRed then
        (path, RBTree.mk frame.side frame.red tree frame.value (frame.sibling.paint true))
      else if !(frame.sibling.child frame.side.flip).rootRed then
        match nearValue with
        | none => (frame :: path, tree)
        | some nearValue =>
            rotateBlack frame path tree ((frame.sibling.child frame.side).child frame.side) nearValue
              (RBTree.mk frame.side true ((frame.sibling.child frame.side).child frame.side.flip) value
                (frame.sibling.child frame.side.flip))
      else
        rotateBlack frame path tree (frame.sibling.child frame.side) value (frame.sibling.child frame.side.flip)

/-- One pass of the deletion fix-up at a black position: a red sibling is
first rotated above the parent, which turns red (case one). -/
def fixBlack (frame : Frame α) (path : List (Frame α)) (tree : RBTree α) : List (Frame α) × RBTree α :=
  match frame.sibling with
  | node true left value right =>
      fixBlackSibling { frame with red := true, sibling := (node true left value right).child frame.side }
        ({ side := frame.side, red := false, value := value,
           sibling := (node true left value right).child frame.side.flip } :: path) tree
  | _ => fixBlackSibling frame path tree

section Delete

variable {frame : Frame α} {path : List (Frame α)} {tree : RBTree α}

theorem DeleteInv.unfold (inv : DeleteInv (frame :: path) tree) (black : tree.rootRed = false) :
    ∃ height total, tree.Balanced height ∧ frame.sibling.Balanced (height + 1) ∧
      CtxBalanced path (if frame.red then height + 1 else height + 1 + 1) total ∧
      tree.RedFree ∧ frame.sibling.RedFree ∧ (frame.red = true → frame.sibling.rootRed = false) ∧
      CtxRed path frame.red ∧ TopBlack path := by
  obtain ⟨height, total, balancedTree, balancedSibling, around⟩ := inv.balanced
  obtain ⟨siblingFree, redParent, aroundRed⟩ := inv.ctxRed
  have treeFree := inv.redFree
  rw [paint_of_black black] at treeFree
  exact ⟨height, total, balancedTree, balancedSibling, around, treeFree, siblingFree, fun red => (redParent red).2,
    aroundRed, inv.topBlack.tail⟩

theorem deleteInv_rotateBlack {near far : RBTree α} {value : α} {height total : Nat}
    (treeFree : tree.RedFree) (nearFree : near.RedFree) (farFree : far.RedFree)
    (balancedTree : tree.Balanced height) (balancedNear : near.Balanced height) (balancedFar : far.Balanced height)
    (farRed : far.rootRed = true) (around : CtxBalanced path (if frame.red then height + 1 else height + 1 + 1) total)
    (aroundRed : CtxRed path frame.red) :
    DeleteInv (rotateBlack frame path tree near value far).1 (rotateBlack frame path tree near value far).2 := by
  have localFree : (RBTree.mk frame.side frame.red (RBTree.mk frame.side false tree frame.value near) value
      (far.paint false)).RedFree :=
    redFree_mk.mpr ⟨redFree_mk.mpr ⟨treeFree, nearFree, (by cases ·)⟩, farFree.paint_black,
      fun _ => ⟨rootRed_mk _ _ _ _ _, rootRed_paint_false _⟩⟩
  have localBalanced : (RBTree.mk frame.side frame.red (RBTree.mk frame.side false tree frame.value near) value
      (far.paint false)).Balanced (if frame.red then height + 1 else height + 1 + 1) :=
    balanced_mk.mpr ⟨height + 1, rfl, balanced_mk.mpr ⟨height, by simp, balancedTree, balancedNear⟩,
      balancedFar.paint_black farRed⟩
  have wholeFree := (redFree_plug path _).mpr ⟨localFree, (rootRed_mk _ _ _ _ _).symm ▸ aroundRed⟩
  have wholeBalanced := (balanced_plug path _ total).mpr ⟨_, localBalanced, around⟩
  exact ⟨wholeFree.paint_black, trivial, ⟨total, total + 1, wholeBalanced, rfl⟩, trivial⟩

theorem DeleteInv.fixBlackSibling (inv : DeleteInv (frame :: path) tree) (black : tree.rootRed = false)
    (siblingBlack : frame.sibling.rootRed = false) :
    DeleteInv (fixBlackSibling frame path tree).1 (fixBlackSibling frame path tree).2 ∧
      ((fixBlackSibling frame path tree).1 = path ∧
          (fixBlackSibling frame path tree).2.rootRed = frame.red ∨
        (fixBlackSibling frame path tree).1 = []) := by
  obtain ⟨height, total, balancedTree, balancedSibling, around, treeFree, siblingFree, -, aroundRed, topBlack⟩ :=
    inv.unfold black
  obtain ⟨value, rooted⟩ := Option.isSome_iff_exists.mp balancedSibling.isSome_rootValue
  have shape := eq_mk_of_rootValue frame.side rooted
  rw [siblingBlack] at shape
  rw [shape] at balancedSibling siblingFree
  obtain ⟨below, same, balancedNear, balancedFar⟩ := balanced_mk.mp balancedSibling
  obtain ⟨nearFree, farFree, -⟩ := redFree_mk.mp siblingFree
  simp only [Bool.false_eq_true, if_false, Nat.add_right_cancel_iff] at same
  subst same
  unfold RedBlack.fixBlackSibling
  rw [rooted]
  dsimp only
  by_cases nearBlack : (frame.sibling.child frame.side).rootRed = false
  · by_cases farBlack : (frame.sibling.child frame.side.flip).rootRed = false
    · rw [if_pos (by simp [nearBlack, farBlack])]
      refine ⟨⟨?_, aroundRed.black, ⟨if frame.red then height else height + 1, total, ?_, ?_⟩, topBlack⟩,
        .inl ⟨rfl, rootRed_mk _ _ _ _ _⟩⟩
      · rw [paint_mk, shape, paint_mk]
        exact redFree_mk.mpr ⟨treeFree, redFree_mk.mpr ⟨nearFree, farFree, fun _ => ⟨nearBlack, farBlack⟩⟩,
          (by cases ·)⟩
      · rw [shape, paint_mk]
        exact balanced_mk.mpr ⟨height, rfl, balancedTree, balanced_mk.mpr ⟨height, by simp, balancedNear, balancedFar⟩⟩
      · cases red : frame.red <;> simpa [red] using around
    · rw [if_neg (by simp [farBlack]), if_neg (by simp [farBlack])]
      exact ⟨deleteInv_rotateBlack treeFree nearFree farFree balancedTree balancedNear balancedFar
        (by simpa using farBlack) around aroundRed, .inr rfl⟩
  · have nearRed : (frame.sibling.child frame.side).rootRed = true := by simpa using nearBlack
    by_cases farBlack : (frame.sibling.child frame.side.flip).rootRed = false
    · rw [if_neg (by simp [nearRed]), if_pos (by simp [farBlack])]
      obtain ⟨nearValue, nearRooted⟩ :=
        Option.isSome_iff_exists.mp (show (frame.sibling.child frame.side).rootValue.isSome by
          cases near : frame.sibling.child frame.side with
          | leaf => rw [near] at nearRed; cases nearRed
          | node => rfl)
      rw [nearRooted]
      have nearShape := eq_mk_of_rootValue frame.side nearRooted
      rw [nearRed] at nearShape
      rw [nearShape] at balancedNear nearFree
      obtain ⟨nearBelow, nearSame, balancedInner, balancedOuter⟩ := balanced_mk.mp balancedNear
      obtain ⟨innerFree, outerFree, childrenBlack⟩ := redFree_mk.mp nearFree
      simp only [if_pos] at nearSame
      subst nearSame
      refine ⟨deleteInv_rotateBlack treeFree innerFree ?_ balancedTree balancedInner ?_ (rootRed_mk _ _ _ _ _)
        around aroundRed, .inr rfl⟩
      · exact redFree_mk.mpr ⟨outerFree, farFree, fun _ => ⟨(childrenBlack rfl).2, farBlack⟩⟩
      · exact balanced_mk.mpr ⟨height, by simp, balancedOuter, balancedFar⟩
    · rw [if_neg (by simp [nearRed]), if_neg (by simp [farBlack])]
      exact ⟨deleteInv_rotateBlack treeFree nearFree farFree balancedTree balancedNear balancedFar
        (by simpa using farBlack) around aroundRed, .inr rfl⟩

theorem DeleteInv.redSibling {left right : RBTree α} {value : α} (inv : DeleteInv (frame :: path) tree)
    (black : tree.rootRed = false) (siblingIs : frame.sibling = node true left value right) :
    DeleteInv ({ frame with red := true, sibling := (node true left value right).child frame.side } ::
      { side := frame.side, red := false, value := value,
        sibling := (node true left value right).child frame.side.flip } :: path) tree ∧
      ((node true left value right).child frame.side).rootRed = false := by
  obtain ⟨height, total, balancedTree, balancedSibling, around, treeFree, siblingFree, redParent, aroundRed,
    topBlack⟩ := inv.unfold black
  have parentBlack : frame.red = false := by
    cases parent : frame.red
    · rfl
    · have := redParent parent
      rw [siblingIs] at this
      cases this
  rw [siblingIs] at balancedSibling siblingFree
  have shape := eq_mk_of_rootValue frame.side (show (node true left value right).rootValue = some value from rfl)
  rw [shape] at balancedSibling siblingFree
  obtain ⟨below, same, balancedNear, balancedFar⟩ := balanced_mk.mp balancedSibling
  obtain ⟨nearFree, farFree, childrenBlack⟩ := redFree_mk.mp siblingFree
  rw [if_pos (show (node true left value right).rootRed = true from rfl)] at same
  subst same
  rw [parentBlack] at around aroundRed
  refine ⟨⟨inv.redFree, ⟨nearFree, fun _ => ⟨rfl, (childrenBlack rfl).1⟩, farFree, (by cases ·), aroundRed⟩,
    ⟨height, total, balancedTree, balancedNear, balancedFar, around⟩, topBlack.cons rfl⟩, (childrenBlack rfl).1⟩

theorem DeleteInv.fixBlack (inv : DeleteInv (frame :: path) tree) (black : tree.rootRed = false) :
    DeleteInv (fixBlack frame path tree).1 (fixBlack frame path tree).2 ∧
      ((fixBlack frame path tree).1.length < (frame :: path).length ∨
        (fixBlack frame path tree).2.rootRed = true ∨ (fixBlack frame path tree).1 = []) := by
  unfold RedBlack.fixBlack
  cases siblingIs : frame.sibling with
  | leaf =>
      obtain ⟨height, -, -, balancedSibling, -⟩ := inv.unfold black
      rw [siblingIs] at balancedSibling
      cases balancedSibling
  | node red left value right =>
      cases red with
      | true =>
          obtain ⟨reframed, nearBlack⟩ := inv.redSibling black siblingIs
          obtain ⟨kept, outcome⟩ := reframed.fixBlackSibling black nearBlack
          refine ⟨kept, ?_⟩
          rcases outcome with ⟨-, red⟩ | root
          · exact .inr (.inl red)
          · exact .inr (.inr root)
      | false =>
          obtain ⟨kept, outcome⟩ := inv.fixBlackSibling black (by rw [siblingIs]; rfl)
          refine ⟨kept, ?_⟩
          rcases outcome with ⟨shorter, -⟩ | root
          · exact .inl (by rw [shorter]; exact Nat.lt_succ_self _)
          · exact .inr (.inr root)

end Delete

theorem toList_fixBlackSibling (frame : Frame α) (path : List (Frame α)) (tree : RBTree α) :
    (plug (fixBlackSibling frame path tree).1 (fixBlackSibling frame path tree).2).toList =
      (plug (frame :: path) tree).toList := by
  unfold fixBlackSibling
  cases rooted : frame.sibling.rootValue with
  | none => rfl
  | some value =>
      dsimp only
      have shape := eq_mk_of_rootValue frame.side rooted
      simp only [plug_cons, Frame.fill]
      split_ifs with bothBlack farBlack
      · apply toList_plug_congr
        exact toList_mk_congr rfl (toList_paint _ _)
      · cases nearRooted : (frame.sibling.child frame.side).rootValue with
        | none => rfl
        | some nearValue =>
            have nearShape := eq_mk_of_rootValue frame.side nearRooted
            simp only [rotateBlack, plug_nil]
            apply toList_plug_congr
            conv_rhs => rw [shape]
            refine (toList_rotate _ _ _ frame.red false _ _ _ _ _).trans (toList_mk_congr rfl ?_)
            refine (@toList_mk_congr _ _ _ false _ _ _ _ _ rfl (toList_paint _ _)).trans ?_
            conv_rhs => rw [nearShape]
            exact (toList_rotate _ _ _ _ _ _ _ _ _ _).symm
      · simp only [rotateBlack, plug_nil]
        apply toList_plug_congr
        conv_rhs => rw [shape]
        refine (toList_rotate _ _ _ frame.red false _ _ _ _ _).trans (toList_mk_congr rfl ?_)
        exact toList_mk_congr rfl (toList_paint _ _)

theorem toList_fixBlack (frame : Frame α) (path : List (Frame α)) (tree : RBTree α) :
    (plug (fixBlack frame path tree).1 (fixBlack frame path tree).2).toList = (plug (frame :: path) tree).toList := by
  unfold fixBlack
  split
  · rename_i left value right siblingIs
    rw [toList_fixBlackSibling]
    simp only [plug_cons]
    apply toList_plug_congr
    simp only [Frame.fill, siblingIs]
    conv_rhs => rw [eq_mk_of_rootValue frame.side (show (node true left value right).rootValue = some value from rfl)]
    exact toList_rotate _ _ _ _ _ _ _ _ _ _
  · exact toList_fixBlackSibling frame path tree

theorem DeleteInv.congr {path other : List (Frame α)} {tree : RBTree α} (inv : DeleteInv path tree)
    (same : path.map Frame.shape = other.map Frame.shape) : DeleteInv other tree := by
  obtain ⟨height, total, balancedTree, around⟩ := inv.balanced
  exact ⟨inv.redFree, (ctxRed_congr same false).mp inv.ctxRed,
    ⟨height, total, balancedTree, (ctxBalanced_congr same _ _).mp around⟩, (topBlack_congr same).mp inv.topBlack⟩

/-! ## Unlinking a node -/

/-- The leftmost node of a tree, with the frames from it up to the tree's root
pushed onto `path`. -/
def leftmost : RBTree α → List (Frame α) → List (Frame α) × RBTree α
  | leaf, path => (path, leaf)
  | node red left value right, path =>
      match left with
      | leaf => (path, node red leaf value right)
      | node .. => leftmost left ({ side := .left, red := red, value := value, sibling := right } :: path)

theorem leftmost_spec {tree : RBTree α} (isNode : tree.rootValue.isSome) (path : List (Frame α)) :
    ∃ inner red value right, leftmost tree path = (inner ++ path, node red leaf value right) ∧
      plug inner (node red leaf value right) = tree ∧ before inner = [] := by
  induction tree generalizing path with
  | leaf => cases isNode
  | node red left value right ihLeft _ =>
      cases left with
      | leaf => exact ⟨[], red, value, right, rfl, rfl, rfl⟩
      | node leftRed leftLeft leftValue leftRight =>
          let frame : Frame α := { side := .left, red := red, value := value, sibling := right }
          obtain ⟨inner, red', value', right', found, plugged, noBefore⟩ := ihLeft rfl (frame :: path)
          refine ⟨inner ++ [frame], red', value', right', ?_, ?_, ?_⟩
          · rw [leftmost, found, List.append_assoc]
            rfl
          · rw [plug_append, plugged]
            rfl
          · rw [before_append, noBefore]
            rfl

/-- Unlinking the node at the root of a subtree at `path`: a node with a leaf
child gives way to its other child; otherwise its successor, the leftmost node
on its right, is unlinked from there and takes the node's place and colour.
The result is the position the unlinked node's child ends up at, its subtree,
and the colour of the node unlinked. -/
def remove (path : List (Frame α)) : RBTree α → List (Frame α) × RBTree α × Bool
  | leaf => (path, leaf, true)
  | node red left value right =>
      if left.rootValue.isNone || right.rootValue.isNone then
        (path, if left.rootValue.isSome then left else right, red)
      else
        match leftmost right [] with
        | (inner, node successorRed _ successor successorRight) =>
            (inner ++ { side := .right, red := red, value := successor, sibling := left } :: path,
              successorRight, successorRed)
        | (_, leaf) => (path, node red left value right, true)

theorem IsRedBlack.removeChild {path : List (Frame α)} {side : Side} {red : Bool} {child : RBTree α} {value : α}
    (whole : (plug path (RBTree.mk side red child value leaf)).IsRedBlack) :
    (red = false → DeleteInv path child) ∧ (red = true → (plug path child).IsRedBlack) := by
  obtain ⟨⟨total, balanced⟩, redFree, black⟩ := whole
  obtain ⟨height, balancedLocal, around⟩ := (balanced_plug _ _ total).mp balanced
  obtain ⟨below, same, balancedChild, balancedLeaf⟩ := balanced_mk.mp balancedLocal
  have zero : below = 0 := balancedLeaf
  subst zero
  obtain ⟨localFree, aroundRed⟩ := (redFree_plug _ _).mp redFree
  obtain ⟨childFree, -, childBlack⟩ := redFree_mk.mp localFree
  rw [rootRed_mk] at aroundRed
  have topBlack := topBlack_of_rootRed black
  constructor
  · rintro rfl
    simp only [Bool.false_eq_true, if_false] at same
    subst same
    exact ⟨childFree.paint_black, aroundRed, ⟨0, total, balancedChild, around⟩, topBlack⟩
  · rintro rfl
    simp only [if_true] at same
    subst same
    have isLeaf := balancedChild.eq_leaf (childBlack rfl).1
    subst isLeaf
    refine ⟨⟨total, (balanced_plug path leaf total).mpr ⟨0, rfl, around⟩⟩,
      (redFree_plug path leaf).mpr ⟨trivial, aroundRed.black⟩, ?_⟩
    cases path with
    | nil =>
        rw [plug_nil, rootRed_mk] at black
        cases black
    | cons => exact rootRed_plug topBlack (List.cons_ne_nil _ _) leaf

section Remove

variable {path : List (Frame α)} {red : Bool} {left right : RBTree α} {value : α}

theorem remove_successor (leftNode : left.rootValue.isSome) (rightNode : right.rootValue.isSome) :
    ∃ inner successorRed successor successorRight,
      plug inner (node successorRed leaf successor successorRight) = right ∧ before inner = [] ∧
      remove path (node red left value right) =
        (inner ++ { side := .right, red := red, value := successor, sibling := left } :: path,
          successorRight, successorRed) := by
  obtain ⟨inner, successorRed, successor, successorRight, found, plugged, noBefore⟩ := leftmost_spec rightNode []
  refine ⟨inner, successorRed, successor, successorRight, plugged, noBefore, ?_⟩
  rw [List.append_nil] at found
  have leftSome : left.rootValue.isNone = false := by cases rooted : left.rootValue <;> simp_all
  have rightSome : right.rootValue.isNone = false := by cases rooted : right.rootValue <;> simp_all
  simp only [remove, found, leftSome, rightSome, Bool.or_self, Bool.false_eq_true, if_false]

theorem eq_leaf_of_not_isSome {tree : RBTree α} (isLeaf : ¬tree.rootValue.isSome) : tree = leaf := by
  cases tree with
  | leaf => rfl
  | node => cases isLeaf rfl

theorem remove_of_right_leaf (leftNode : left.rootValue.isSome) :
    remove path (node red left value leaf) = (path, left, red) := by
  simp only [remove, rootValue_leaf, Option.isNone_none, Bool.or_true, ↓reduceIte, leftNode]

theorem remove_of_left_leaf : remove path (node red leaf value right) = (path, right, red) := by
  simp only [remove, rootValue_leaf, Option.isNone_none, Option.isSome_none, Bool.true_or, ↓reduceIte,
    Bool.false_eq_true]

theorem IsRedBlack.remove (whole : (plug path (node red left value right)).IsRedBlack) :
    ((remove path (node red left value right)).2.2 = false →
        DeleteInv (remove path (node red left value right)).1 (remove path (node red left value right)).2.1) ∧
      ((remove path (node red left value right)).2.2 = true →
        (plug (remove path (node red left value right)).1 (remove path (node red left value right)).2.1).IsRedBlack) := by
  by_cases leftNode : left.rootValue.isSome
  · by_cases rightNode : right.rootValue.isSome
    · obtain ⟨inner, successorRed, successor, successorRight, plugged, -, removed⟩ :=
        @remove_successor _ path red left right value leftNode rightNode
      rw [removed]
      have atSuccessor : plug path (node red left value right) =
          plug (inner ++ { side := .right, red := red, value := value, sibling := left } :: path)
            (RBTree.mk .right successorRed successorRight successor leaf) := by
        rw [plug_append, mk_right, plugged]
        rfl
      rw [atSuccessor] at whole
      have same : (inner ++ { side := .right, red := red, value := value, sibling := left } :: path).map Frame.shape =
          (inner ++ { side := .right, red := red, value := successor, sibling := left } :: path).map Frame.shape := by
        simp [Frame.shape]
      obtain ⟨ifBlack, ifRed⟩ := IsRedBlack.removeChild whole
      exact ⟨fun black => (ifBlack black).congr same, fun red => (isRedBlack_plug_congr same _).mp (ifRed red)⟩
    · obtain rfl := eq_leaf_of_not_isSome rightNode
      rw [remove_of_right_leaf leftNode]
      exact @IsRedBlack.removeChild _ _ .left _ _ _ whole
  · obtain rfl := eq_leaf_of_not_isSome leftNode
    rw [remove_of_left_leaf]
    exact @IsRedBlack.removeChild _ _ .right _ _ _ whole

theorem toList_remove :
    (plug (remove path (node red left value right)).1 (remove path (node red left value right)).2.1).toList =
      before path ++ left.toList ++ right.toList ++ after path := by
  by_cases leftNode : left.rootValue.isSome
  · by_cases rightNode : right.rootValue.isSome
    · obtain ⟨inner, successorRed, successor, successorRight, plugged, noBefore, removed⟩ :=
        @remove_successor _ path red left right value leftNode rightNode
      rw [removed]
      dsimp only
      rw [plug_append, ← plugged]
      simp [Frame.fill, noBefore, toList_plug]
    · obtain rfl := eq_leaf_of_not_isSome rightNode
      rw [remove_of_right_leaf leftNode]
      simp [toList_plug]
  · obtain rfl := eq_leaf_of_not_isSome leftNode
    rw [remove_of_left_leaf]
    simp [toList_plug]

end Remove

theorem DeleteInv.isRedBlack {path : List (Frame α)} {tree : RBTree α} (inv : DeleteInv path tree)
    (exit : path = [] ∨ tree.rootRed = true) : (plug path (tree.paint false)).IsRedBlack := by
  obtain ⟨height, total, balancedTree, around⟩ := inv.balanced
  rcases exit with rfl | red
  · refine ⟨?_, inv.redFree, rootRed_paint_false _⟩
    cases red : tree.rootRed
    · exact ⟨height, (paint_of_black red).symm ▸ balancedTree⟩
    · exact ⟨height + 1, balancedTree.paint_black red⟩
  · have wholeFree := (redFree_plug path _).mpr ⟨inv.redFree, (rootRed_paint_false tree).symm ▸ inv.ctxRed⟩
    have wholeBalanced := (balanced_plug path _ total).mpr ⟨height + 1, balancedTree.paint_black red, around⟩
    refine ⟨⟨total, wholeBalanced⟩, wholeFree, ?_⟩
    cases path with
    | nil => exact rootRed_paint_false tree
    | cons => exact rootRed_plug inv.topBlack (List.cons_ne_nil _ _) _

end NvidiaGpu.RedBlack
