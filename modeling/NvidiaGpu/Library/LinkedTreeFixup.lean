import NvidiaGpu.Library.RedBlackFixup
import NvidiaGpu.Library.LinkedTreeUpdate

set_option autoImplicit false

/-! The repairs of a red-black tree after an insertion and after an unlink, as
code over a memory of nodes with parent links: the textbook loops, with
recolourings and rotations written to the memory.

Each pass of a loop does to the memory what one pass of the repair on zippers,
`RedBlack.fixRed` or `RedBlack.fixBlack`, does to the tree the memory holds, so
a run of a loop keeps that repair's invariant, and a whole repair leaves a
red-black tree with the nodes in the same order. -/

namespace NvidiaGpu.LinkedTree

open Mem RedBlack NvidiaGpu.RedBlack.RBTree

variable {Ptr : Type}

theorem rootValue_plug_isSome (path : List (Frame Ptr)) {tree : RBTree Ptr} (isNode : tree.rootValue.isSome) :
    (plug path tree).rootValue.isSome := by
  induction path generalizing tree with
  | nil => exact isNode
  | cons frame path ih => exact ih (by simp)

theorem apart_of_holds {mem : Mem Ptr} {path : List (Frame Ptr)} {tree : RBTree Ptr} {x : Ptr} {pSide side : Side} {gRed pRed : Bool} {p g : Ptr} {aunt uncle : RBTree Ptr}
    (holds : mem.Holds (plug path (RBTree.mk side gRed (RBTree.mk pSide pRed tree p aunt) g uncle)))
    (rooted : tree.rootValue = some x) : x ∉ aunt.toList ∧ p ∉ uncle.toList := by
  have atP : (plug (⟨side, gRed, g, uncle⟩ :: path) (RBTree.mk pSide pRed tree p aunt)).toList.Nodup :=
    holds.distinct
  have spread := nodup_plug.mp atP
  rw [(toList_mk_perm pSide pRed tree p aunt).append_right _ |>.nodup_iff] at spread
  simp only [pathNodes_cons, List.nodup_append, List.nodup_cons, List.mem_append, List.mem_cons,
    List.cons_append] at spread
  have inTree := mem_toList_of_rootValue rooted
  grind

variable [DecidableEq Ptr]

/-! ## Repair after an insertion -/

def parentSide (mem : Mem Ptr) (p g : Ptr) : Side :=
  if mem.left g = some p then .left else .right

/-- The end of a pass under a black uncle, with `x` the child of its parent on
`side`: `x->parent` turns black, `x->parent->parent` red, and the grandparent
rotates the other way.  `none` where a parent link it follows is `NULL`. -/
def recolourRotate (mem : Mem Ptr) (side : Side) (x : Ptr) : Option (Mem Ptr × Ptr) :=
  match mem.parent x with
  | none => none
  | some parent =>
      let mem := mem.setRed parent false
      match mem.parent parent with
      | none => none
      | some grandparent => some ((mem.setRed grandparent true).rotate side.flip grandparent, x)

/-- A pass under a black uncle: an `x` on the inner side is first made its
parent's child on the outer side by a rotation at the parent, which becomes
`x`. -/
def blackUncle (mem : Mem Ptr) (side : Side) (x p : Ptr) : Option (Mem Ptr × Ptr) :=
  if mem.child side.flip p = some x then recolourRotate (mem.rotate side p) side p
  else recolourRotate mem side x

/-- One pass of the insertion repair at `x`, under its parent `p` and
grandparent `g`; the code for `p` on the right is the mirror image of the code
for the left.  Under a red uncle the three recolourings move `x` two levels
up. -/
def repairInsertStep (mem : Mem Ptr) (x p g : Ptr) : Option (Mem Ptr × Ptr) :=
  let side := parentSide mem p g
  match mem.child side.flip g with
  | some y =>
      if mem.isRed y then some (((mem.setRed p false).setRed y false).setRed g true, g)
      else blackUncle mem side x p
  | none => blackUncle mem side x p

/-- The loop `while ((x != *pRoot) && x->parent->isRed)` of the insertion repair, for
at most `fuel` passes; `none` when the passes run out or a parent link it
follows is `NULL`. -/
def repairInsertLoop : Nat → Mem Ptr → Ptr → Option (Mem Ptr)
  | 0, _, _ => none
  | fuel + 1, mem, x =>
      if mem.root = some x then some mem
      else
        match mem.parent x with
        | none => none
        | some p =>
            if mem.isRed p then
              match mem.parent p with
              | none => none
              | some g =>
                  match repairInsertStep mem x p g with
                  | none => none
                  | some (mem, x) => repairInsertLoop fuel mem x
            else some mem

def repairInsert (fuel : Nat) (mem : Mem Ptr) (x : Ptr) : Option (Mem Ptr) :=
  match repairInsertLoop fuel mem x with
  | none => none
  | some mem =>
      match mem.root with
      | some root => some (mem.setRed root false)
      | none => none

/-! ## One pass of the fix-up -/

section Pass

variable {mem : Mem Ptr} {path : List (Frame Ptr)} {tree : RBTree Ptr} {x : Ptr}

theorem parentSide_eq {side pSide : Side} {gRed pRed : Bool} {p g : Ptr} {aunt uncle : RBTree Ptr}
    (rep : mem.Represents (plug path (RBTree.mk side gRed (RBTree.mk pSide pRed tree p aunt) g uncle)))
    (apart : p ∉ uncle.toList) : parentSide mem p g = side := by
  obtain ⟨-, near, far, -⟩ := rep.links
  unfold parentSide
  cases side with
  | left =>
      have linked : mem.left g = some p := by simpa [Mem.child] using near
      rw [if_pos linked]
  | right =>
      have linked : mem.left g = uncle.rootValue := by simpa [Mem.child, Side.flip] using far
      rw [if_neg (by rw [linked]; exact fun rooted => apart (mem_toList_of_rootValue rooted))]

theorem recolourRotate_spec {side : Side} {gRed qRed : Bool} {q g : Ptr} {near far uncle : RBTree Ptr}
    (holds : mem.Holds (plug path (RBTree.mk side gRed (RBTree.mk side qRed near q far) g uncle)))
    (rooted : near.rootValue = some x) :
    recolourRotate mem side x = some ((((mem.setRed q false).setRed g true).rotate side.flip g), x) ∧
      (((mem.setRed q false).setRed g true).rotate side.flip g).Holds
        (plug path (RBTree.mk side false near q (RBTree.mk side true far g uncle))) := by
  have atQ : mem.Holds (plug (⟨side, gRed, g, uncle⟩ :: path) (RBTree.mk side qRed near q far)) := holds
  have atX : mem.Represents (plug (⟨side, qRed, q, far⟩ :: ⟨side, gRed, g, uncle⟩ :: path) near) := holds.represents
  have xParent : mem.parent x = some q := by
    have ctx := ((represents_plug _ near).mp atX).2
    rw [rooted] at ctx
    exact ctx.parent_hole
  have qParent : mem.parent q = some g := atQ.represents.links.2.2.2
  refine ⟨by simp [recolourRotate, xParent, qParent], ?_⟩
  have painted := atQ.paint (rootValue_mk _ _ _ _ _) false
  rw [paint_mk] at painted
  have atG : (mem.setRed q false).Holds
      (plug path (RBTree.mk side gRed (RBTree.mk side false near q far) g uncle)) := painted
  have repainted := atG.paint (rootValue_mk _ _ _ _ _) true
  rw [paint_mk] at repainted
  have turned : ((mem.setRed q false).setRed g true).Holds
      (plug path (RBTree.mk side.flip true uncle g (RBTree.mk side.flip false far q near))) := by
    simpa only [mk_flip] using repainted
  simpa only [mk_flip] using turned.rotate

theorem blackUncle_spec {pSide side : Side} {gRed : Bool} {p g : Ptr} {aunt uncle : RBTree Ptr}
    (holds : mem.Holds (plug path (RBTree.mk side gRed (RBTree.mk pSide true tree p aunt) g uncle)))
    (rooted : tree.rootValue = some x) (black : uncle.rootRed = false) :
    ∃ mem' x', blackUncle mem side x p = some (mem', x') ∧
      mem'.Holds (plug (fixRed ⟨pSide, true, p, aunt⟩ ⟨side, gRed, g, uncle⟩ path tree).1
        (fixRed ⟨pSide, true, p, aunt⟩ ⟨side, gRed, g, uncle⟩ path tree).2) ∧
      (fixRed ⟨pSide, true, p, aunt⟩ ⟨side, gRed, g, uncle⟩ path tree).2.rootValue = some x' := by
  have atP : mem.Holds (plug (⟨side, gRed, g, uncle⟩ :: path) (RBTree.mk pSide true tree p aunt)) := holds
  obtain ⟨-, xLink, auntLink, -⟩ := atP.represents.links
  rw [rooted] at xLink
  simp only [fixRed, black, Bool.false_eq_true, if_false]
  by_cases outer : pSide = side
  · subst outer
    rw [if_pos rfl]
    have notInner : mem.child pSide.flip p ≠ some x := by
      rw [auntLink]
      exact fun rootedAunt => (apart_of_holds holds rooted).1 (mem_toList_of_rootValue rootedAunt)
    obtain ⟨ran, after⟩ := recolourRotate_spec holds rooted
    exact ⟨_, _, by rw [blackUncle, if_neg notInner, ran], after, rooted⟩
  · have inner : pSide = side.flip := Side.eq_flip_of_ne outer
    subst inner
    rw [if_neg (Side.flip_ne side)]
    cases tree with
    | leaf => cases rooted
    | node colour left value right =>
        obtain rfl : value = x := Option.some.inj rooted
        have shape : node colour left value right = RBTree.mk side colour ((node colour left value right).child side)
            value ((node colour left value right).child side.flip) := eq_mk_of_rootValue side rfl
        have shaped : mem.Holds (plug (⟨side, gRed, g, uncle⟩ :: path) (RBTree.mk side true aunt p
            (RBTree.mk side colour ((node colour left value right).child side) value
              ((node colour left value right).child side.flip)))) := by
          rw [← shape, ← mk_flip]
          exact atP
        have rotated : (mem.rotate side p).Holds (plug path (RBTree.mk side gRed (RBTree.mk side colour
            (RBTree.mk side true aunt p ((node colour left value right).child side)) value
            ((node colour left value right).child side.flip)) g uncle)) := shaped.rotate
        obtain ⟨ran, after⟩ := recolourRotate_spec rotated (rootValue_mk _ _ _ _ _)
        exact ⟨_, _, by rw [blackUncle, if_pos xLink, ran], after, rootValue_mk _ _ _ _ _⟩

theorem repairInsertStep_spec {parent grandparent : Frame Ptr}
    (holds : mem.Holds (plug (parent :: grandparent :: path) tree)) (rooted : tree.rootValue = some x)
    (red : parent.red = true) :
    ∃ mem' x', repairInsertStep mem x parent.value grandparent.value = some (mem', x') ∧
      mem'.Holds (plug (fixRed parent grandparent path tree).1 (fixRed parent grandparent path tree).2) ∧
      (fixRed parent grandparent path tree).2.rootValue = some x' := by
  rcases parent with ⟨pSide, pRed, p, aunt⟩
  rcases grandparent with ⟨side, gRed, g, uncle⟩
  dsimp only at red ⊢
  subst red
  have atG : mem.Holds (plug path (RBTree.mk side gRed (RBTree.mk pSide true tree p aunt) g uncle)) := holds
  obtain ⟨-, -, uncleLink, -⟩ := atG.represents.links
  have sideEq := parentSide_eq atG.represents (apart_of_holds atG rooted).2
  simp only [repairInsertStep, sideEq, uncleLink]
  cases uncle with
  | leaf => exact blackUncle_spec atG rooted rfl
  | node uncleRed l y r =>
      have uncleStores := (stores_mk.mp ((represents_plug path _).mp atG.represents).1).2.2.2.2.2.2
      have yRed : mem.isRed y = uncleRed := uncleStores.1
      cases uncleRed with
      | false =>
          simp only [rootValue, yRed, Bool.false_eq_true, if_false]
          exact blackUncle_spec atG rooted rfl
      | true =>
          simp only [rootValue, yRed, if_true, fixRed, rootRed]
          have atP : mem.Holds (plug (⟨side, gRed, g, node true l y r⟩ :: path) (RBTree.mk pSide true tree p aunt)) :=
            holds
          have parentBlack := atP.paint (rootValue_mk _ _ _ _ _) false
          rw [paint_mk] at parentBlack
          have atY : (mem.setRed p false).Holds
              (plug (⟨side.flip, gRed, g, RBTree.mk pSide false tree p aunt⟩ :: path) (node true l y r)) := by
            simpa only [plug_cons, Frame.fill, mk_flip] using parentBlack
          have uncleBlack : ((mem.setRed p false).setRed y false).Holds
              (plug path (RBTree.mk side gRed (RBTree.mk pSide false tree p aunt) g (node false l y r))) := by
            simpa only [plug_cons, Frame.fill, mk_flip, RBTree.paint] using atY.paint rfl false
          have grandparentRed := uncleBlack.paint (rootValue_mk _ _ _ _ _) true
          rw [paint_mk] at grandparentRed
          exact ⟨_, _, rfl, grandparentRed, rootValue_mk _ _ _ _ _⟩

end Pass

/-! ## The loop -/

section Loop

theorem repairInsertLoop_spec : ∀ (fuel : Nat) (mem : Mem Ptr) (path : List (Frame Ptr)) (tree : RBTree Ptr)
    (x : Ptr), mem.Holds (plug path tree) → tree.rootValue = some x → InsertInv path tree → path.length < fuel →
    ∃ mem' path' tree', repairInsertLoop fuel mem x = some mem' ∧ mem'.Holds (plug path' tree') ∧
      InsertInv path' tree' ∧ (∀ frame ∈ path'.head?, frame.red = false) ∧
      (plug path' tree').toList = (plug path tree).toList := by
  intro fuel
  induction fuel with
  | zero => exact fun _ _ _ _ _ _ _ short => absurd short (Nat.not_lt_zero _)
  | succ fuel ih =>
      intro mem path tree x holds rooted inv short
      cases path with
      | nil =>
          have atRoot : mem.root = some x := (holds.represents.root_eq_iff rooted).mpr rfl
          exact ⟨mem, [], tree, by simp [repairInsertLoop, atRoot], holds, inv, by simp, rfl⟩
      | cons parent rest =>
          have notRoot : mem.root ≠ some x := fun atRoot =>
            List.cons_ne_nil _ _ ((holds.represents.root_eq_iff rooted).mp atRoot)
          have xParent : mem.parent x = some parent.value := by
            have ctx := ((represents_plug _ tree).mp holds.represents).2
            rw [rooted] at ctx
            exact ctx.parent_hole
          have atP : mem.Represents (plug rest (RBTree.mk parent.side parent.red tree parent.value parent.sibling)) :=
            holds.represents
          obtain ⟨pRed, -, -, pParent⟩ := atP.links
          cases red : parent.red with
          | false =>
              refine ⟨mem, parent :: rest, tree, ?_, holds, inv, by simp [red], rfl⟩
              simp [repairInsertLoop, notRoot, xParent, pRed, red]
          | true =>
              obtain ⟨grandparent, rest, rfl, black⟩ := inv.grandparent red
              obtain ⟨mem', x', step, holds', rooted'⟩ := repairInsertStep_spec holds rooted red
              have progress : (fixRed parent grandparent rest tree).1 = rest ∨
                  ∃ frame, (fixRed parent grandparent rest tree).1 = frame :: rest ∧ frame.red = false :=
                fixRed_progress inv.red
              have shorter : (fixRed parent grandparent rest tree).1.length < fuel := by
                rcases progress with same | ⟨frame, same, -⟩ <;>
                  simp only [same, List.length_cons] at short ⊢ <;> omega
              obtain ⟨mem'', path', tree', loop, holds'', inv', exit, same⟩ :=
                ih mem' _ _ x' holds' rooted' (inv.fixRed red black) shorter
              refine ⟨mem'', path', tree', ?_, holds'', inv', exit, same.trans (toList_fixRed _ _ _ _)⟩
              simp [repairInsertLoop, notRoot, xParent, pRed, red, pParent, step, loop]

theorem repairInsert_spec {fuel : Nat} {mem : Mem Ptr} {path : List (Frame Ptr)} {tree : RBTree Ptr} {x : Ptr}
    (holds : mem.Holds (plug path tree)) (rooted : tree.rootValue = some x) (inv : InsertInv path tree)
    (short : path.length < fuel) :
    ∃ mem' whole, repairInsert fuel mem x = some mem' ∧ mem'.Holds whole ∧ whole.IsRedBlack ∧
      whole.toList = (plug path tree).toList := by
  obtain ⟨mem', path', tree', loop, holds', inv', exit, same⟩ := repairInsertLoop_spec fuel mem path tree x holds rooted inv short
  have isNode : tree'.rootValue.isSome := by
    cases tree' with
    | leaf => cases inv'.red
    | node => rfl
  obtain ⟨root, top⟩ := Option.isSome_iff_exists.mp (rootValue_plug_isSome path' isNode)
  have atTop : mem'.Holds (plug [] (plug path' tree')) := holds'
  refine ⟨_, _, by simp [repairInsert, loop, holds'.represents.root, top], atTop.paint top false,
    inv'.isRedBlack exit, by rw [plug_nil, toList_paint, same]⟩

end Loop

/-! ## Repair after an unlink -/

/-- Case four of the deletion repair, at the sibling `w` of `x` on `side` of
`parentOfX`, whose child away from `x` is red: `w` takes the parent's colour,
the parent and that child turn black, the parent rotates down to `side`, and
`x` becomes the root.  `none` where the child is `NULL`. -/
def farRed (mem : Mem Ptr) (side : Side) (parentOfX w : Ptr) : Option (Mem Ptr × Option Ptr) :=
  let mem := (mem.setRed w (mem.isRed parentOfX)).setRed parentOfX false
  match mem.child side.flip w with
  | some far =>
      let mem := (mem.setRed far false).rotate side parentOfX
      some (mem, mem.root)
  | none => none

/-- Case three of the deletion repair, then case four: `w`'s red child next to `x`
turns black and `w` red, `w` rotates away from `x`, and that child is the new
sibling.  `none` where a link it follows is `NULL`. -/
def nearRed (mem : Mem Ptr) (side : Side) (parentOfX w : Ptr) : Option (Mem Ptr × Option Ptr) :=
  match mem.child side w with
  | some near =>
      let mem := ((mem.setRed near false).setRed w true).rotate side.flip w
      match mem.child side.flip parentOfX with
      | some w => farRed mem side parentOfX w
      | none => none
  | none => none

/-- Cases two to four of the deletion repair at the sibling `w`: without a red
child `w` turns red and `x` moves up to its parent. -/
def blackSibling (mem : Mem Ptr) (side : Side) (parentOfX : Ptr) : Option Ptr → Option (Mem Ptr × Option Ptr)
  | none => some (mem, some parentOfX)
  | some w =>
      if !mem.isRedAt (mem.child side w) && !mem.isRedAt (mem.child side.flip w) then
        some (mem.setRed w true, some parentOfX)
      else if !mem.isRedAt (mem.child side.flip w) then nearRed mem side parentOfX w
      else farRed mem side parentOfX w

/-- Case one of the deletion repair: a red sibling turns black and the parent red,
the parent rotates down to `side`, and the sibling is read again. -/
def redSibling (mem : Mem Ptr) (side : Side) (parentOfX : Ptr) : Mem Ptr × Option Ptr :=
  match mem.child side.flip parentOfX with
  | some w =>
      if mem.isRed w then
        let mem := ((mem.setRed w false).setRed parentOfX true).rotate side parentOfX
        (mem, mem.child side.flip parentOfX)
      else (mem, some w)
  | none => (mem, none)

/-- One pass of the deletion repair for `x` on `side` of `parentOfX`;
the code for `x` on the right is the mirror image of the code for the left. -/
def repairDeleteStep (mem : Mem Ptr) (side : Side) (parentOfX : Ptr) : Option (Mem Ptr × Option Ptr) :=
  match redSibling mem side parentOfX with
  | (mem, w) => blackSibling mem side parentOfX w

/-- The loop `while ((x != *pRoot) && (!x || !x->isRed))` of the deletion repair,
with `parentOfX = x->parent` after each pass, for at most `fuel` passes; `none`
when the passes run out or a link it follows is `NULL`. -/
def repairDeleteLoop : Nat → Mem Ptr → Option Ptr → Option Ptr → Option (Mem Ptr × Option Ptr)
  | 0, _, _, _ => none
  | fuel + 1, mem, parentOfX, x =>
      if x ≠ mem.root ∧ !mem.isRedAt x then
        match parentOfX with
        | some parent =>
            match repairDeleteStep mem (if x = mem.left parent then .left else .right) parent with
            | some (mem, some x) => repairDeleteLoop fuel mem (mem.parent x) (some x)
            | _ => none
        | none =>
            match x with
            | none => some (mem, none)
            | some x => repairDeleteLoop fuel mem (mem.parent x) (some x)
      else some (mem, x)

def repairDelete (fuel : Nat) (mem : Mem Ptr) (parentOfX x : Option Ptr) : Option (Mem Ptr) :=
  match repairDeleteLoop fuel mem parentOfX x with
  | some (mem, some x) => some (mem.setRed x false)
  | some (mem, none) => some mem
  | none => none

/-! ## One pass of the fix-up -/

section Pass

variable {mem : Mem Ptr} {path : List (Frame Ptr)} {tree : RBTree Ptr}

theorem farRed_spec {side : Side} {pRed wRed : Bool} {p w : Ptr} {near far : RBTree Ptr}
    (holds : mem.Holds (plug path (RBTree.mk side pRed tree p (RBTree.mk side wRed near w far))))
    (red : far.rootRed = true) :
    ∃ mem', farRed mem side p w = some (mem', mem'.root) ∧
      mem'.Holds (plug path (RBTree.mk side pRed (RBTree.mk side false tree p near) w (far.paint false))) := by
  obtain ⟨farValue, farRooted⟩ : ∃ farValue, far.rootValue = some farValue := by
    cases far with
    | leaf => cases red
    | node _ _ farValue _ => exact ⟨farValue, rfl⟩
  obtain ⟨pIsRed, -, -, -⟩ := holds.represents.links
  have atW : mem.Holds (plug (⟨side.flip, pRed, p, tree⟩ :: path) (RBTree.mk side wRed near w far)) := by
    simpa only [plug_cons, Frame.fill, mk_flip] using holds
  obtain ⟨-, -, farLink, -⟩ := atW.represents.links
  have recoloured := atW.paint (rootValue_mk _ _ _ _ _) pRed
  rw [paint_mk] at recoloured
  have atP : (mem.setRed w pRed).Holds (plug path (RBTree.mk side pRed tree p (RBTree.mk side pRed near w far))) := by
    simpa only [plug_cons, Frame.fill, mk_flip] using recoloured
  have parentBlack := atP.paint (rootValue_mk _ _ _ _ _) false
  rw [paint_mk] at parentBlack
  have atFar : ((mem.setRed w pRed).setRed p false).Holds
      (plug (⟨side.flip, pRed, w, near⟩ :: ⟨side.flip, false, p, tree⟩ :: path) far) := by
    simpa only [plug_cons, Frame.fill, mk_flip] using parentBlack
  have farBlack : (((mem.setRed w pRed).setRed p false).setRed farValue false).Holds
      (plug path (RBTree.mk side false tree p (RBTree.mk side pRed near w (far.paint false)))) := by
    simpa only [plug_cons, Frame.fill, mk_flip] using atFar.paint farRooted false
  refine ⟨_, ?_, farBlack.rotate⟩
  simp [farRed, pIsRed, farLink, farRooted]

theorem nearRed_spec {side : Side} {pRed wRed : Bool} {p w : Ptr} {near far : RBTree Ptr}
    (holds : mem.Holds (plug path (RBTree.mk side pRed tree p (RBTree.mk side wRed near w far))))
    (red : near.rootRed = true) :
    ∃ mem' nearValue, near.rootValue = some nearValue ∧ nearRed mem side p w = some (mem', mem'.root) ∧
      mem'.Holds (plug path (RBTree.mk side pRed (RBTree.mk side false tree p (near.child side)) nearValue
        ((RBTree.mk side true (near.child side.flip) w far).paint false))) := by
  obtain ⟨nearValue, nearRooted⟩ : ∃ nearValue, near.rootValue = some nearValue := by
    cases near with
    | leaf => cases red
    | node _ _ nearValue _ => exact ⟨nearValue, rfl⟩
  have shape := eq_mk_of_rootValue side nearRooted
  rw [red] at shape
  have atW : mem.Holds (plug (⟨side.flip, pRed, p, tree⟩ :: path) (RBTree.mk side wRed near w far)) := by
    simpa only [plug_cons, Frame.fill, mk_flip] using holds
  obtain ⟨-, nearLink, -, -⟩ := atW.represents.links
  have atNear : mem.Holds (plug (⟨side, wRed, w, far⟩ :: ⟨side.flip, pRed, p, tree⟩ :: path) near) := atW
  have nearBlack := atNear.paint nearRooted false
  have siblingRed : ((mem.setRed nearValue false).setRed w true).Holds
      (plug (⟨side.flip, pRed, p, tree⟩ :: path) (RBTree.mk side true (near.paint false) w far)) := by
    have painted := (show (mem.setRed nearValue false).Holds (plug (⟨side.flip, pRed, p, tree⟩ :: path)
      (RBTree.mk side wRed (near.paint false) w far)) from nearBlack).paint (rootValue_mk _ _ _ _ _) true
    rwa [paint_mk] at painted
  rw [shape, paint_mk] at siblingRed
  have turned : ((mem.setRed nearValue false).setRed w true).Holds (plug (⟨side.flip, pRed, p, tree⟩ :: path)
      (RBTree.mk side.flip true far w (RBTree.mk side.flip false (near.child side.flip) nearValue
        (near.child side)))) := by
    simpa only [mk_flip] using siblingRed
  have rotated : (((mem.setRed nearValue false).setRed w true).rotate side.flip w).Holds
      (plug path (RBTree.mk side pRed tree p (RBTree.mk side false (near.child side) nearValue
        (RBTree.mk side true (near.child side.flip) w far)))) := by
    simpa only [plug_cons, Frame.fill, mk_flip] using turned.rotate
  obtain ⟨-, -, newSibling, -⟩ := rotated.represents.links
  rw [rootValue_mk] at newSibling
  obtain ⟨mem', ran, after⟩ := farRed_spec rotated (rootRed_mk _ _ _ _ _)
  refine ⟨mem', nearValue, nearRooted, ?_, after⟩
  simp [nearRed, nearLink, nearRooted, newSibling, ran]

theorem blackSibling_spec {side : Side} {pRed : Bool} {p : Ptr} {sibling : RBTree Ptr}
    (holds : mem.Holds (plug path (RBTree.mk side pRed tree p sibling))) (isNode : sibling.rootValue.isSome) :
    ∃ mem' x, blackSibling mem side p sibling.rootValue = some (mem', some x) ∧
      mem'.Holds (plug (fixBlackSibling ⟨side, pRed, p, sibling⟩ path tree).1
        (fixBlackSibling ⟨side, pRed, p, sibling⟩ path tree).2) ∧
      (fixBlackSibling ⟨side, pRed, p, sibling⟩ path tree).2.rootValue = some x := by
  obtain ⟨w, rooted⟩ := Option.isSome_iff_exists.mp isNode
  have atW : mem.Holds (plug (⟨side.flip, pRed, p, tree⟩ :: path) sibling) := by
    simpa only [plug_cons, Frame.fill, mk_flip] using holds
  have shape := eq_mk_of_rootValue side rooted
  have shaped : mem.Holds (plug path (RBTree.mk side pRed tree p
      (RBTree.mk side sibling.rootRed (sibling.child side) w (sibling.child side.flip)))) := by
    rw [← shape]
    exact holds
  obtain ⟨stores, -⟩ := (represents_plug _ _).mp atW.represents
  rw [shape] at stores
  obtain ⟨-, nearLink, farLink, -, -, nearStores, farStores⟩ := stores_mk.mp stores
  have nearColour : mem.isRedAt (mem.child side w) = (sibling.child side).rootRed := by
    rw [nearLink]
    exact nearStores.isRedAt_rootValue
  have farColour : mem.isRedAt (mem.child side.flip w) = (sibling.child side.flip).rootRed := by
    rw [farLink]
    exact farStores.isRedAt_rootValue
  rw [rooted]
  cases farRed : (sibling.child side.flip).rootRed with
  | true =>
      obtain ⟨mem', run, after⟩ := farRed_spec shaped farRed
      obtain ⟨x, top⟩ := Option.isSome_iff_exists.mp (rootValue_plug_isSome path (by simp) :
        (plug path (RBTree.mk side pRed (RBTree.mk side false tree p (sibling.child side)) w
          ((sibling.child side.flip).paint false))).rootValue.isSome)
      have abstract : fixBlackSibling ⟨side, pRed, p, sibling⟩ path tree =
          rotateBlack ⟨side, pRed, p, sibling⟩ path tree (sibling.child side) w (sibling.child side.flip) := by
        simp [RedBlack.fixBlackSibling, rooted, farRed]
      rw [abstract]
      refine ⟨mem', x, ?_, after, top⟩
      rw [← top, ← after.represents.root, ← run]
      simp [blackSibling, farColour, farRed]
  | false =>
      cases nearRed : (sibling.child side).rootRed with
      | false =>
          have abstract : fixBlackSibling ⟨side, pRed, p, sibling⟩ path tree =
              (path, RBTree.mk side pRed tree p (sibling.paint true)) := by
            simp [RedBlack.fixBlackSibling, rooted, farRed, nearRed]
          rw [abstract]
          refine ⟨mem.setRed w true, p, by simp [blackSibling, nearColour, farColour, nearRed, farRed], ?_,
            rootValue_mk _ _ _ _ _⟩
          simpa only [plug_cons, Frame.fill, mk_flip] using atW.paint rooted true
      | true =>
          obtain ⟨mem', nearValue, nearRooted, run, after⟩ := nearRed_spec shaped nearRed
          obtain ⟨x, top⟩ := Option.isSome_iff_exists.mp (rootValue_plug_isSome path (by simp) :
            (plug path (RBTree.mk side pRed (RBTree.mk side false tree p ((sibling.child side).child side))
              nearValue ((RBTree.mk side true ((sibling.child side).child side.flip) w
                (sibling.child side.flip)).paint false))).rootValue.isSome)
          have abstract : fixBlackSibling ⟨side, pRed, p, sibling⟩ path tree =
              rotateBlack ⟨side, pRed, p, sibling⟩ path tree ((sibling.child side).child side) nearValue
                (RBTree.mk side true ((sibling.child side).child side.flip) w (sibling.child side.flip)) := by
            simp [RedBlack.fixBlackSibling, rooted, farRed, nearRed, nearRooted]
          rw [abstract]
          refine ⟨mem', x, ?_, after, top⟩
          rw [← top, ← after.represents.root, ← run]
          simp [blackSibling, nearColour, farColour, nearRed, farRed]

theorem redSibling_of_black {side : Side} {pRed : Bool} {p : Ptr} {sibling : RBTree Ptr}
    (holds : mem.Holds (plug path (RBTree.mk side pRed tree p sibling))) (black : sibling.rootRed = false) :
    redSibling mem side p = (mem, sibling.rootValue) := by
  obtain ⟨-, -, siblingLink, -⟩ := holds.represents.links
  obtain ⟨stores, -⟩ := (represents_plug _ _).mp holds.represents
  obtain ⟨-, -, -, -, -, -, siblingStores⟩ := stores_mk.mp stores
  have colour := siblingStores.isRedAt_rootValue
  rw [black] at colour
  unfold redSibling
  rw [siblingLink]
  cases rooted : sibling.rootValue with
  | none => rfl
  | some w =>
      rw [rooted, isRedAt_some] at colour
      simp [colour]

theorem redSibling_of_red {side : Side} {pRed : Bool} {p w : Ptr} {sibling : RBTree Ptr}
    (holds : mem.Holds (plug path (RBTree.mk side pRed tree p sibling))) (red : sibling.rootRed = true)
    (rooted : sibling.rootValue = some w) :
    ∃ mem', redSibling mem side p = (mem', (sibling.child side).rootValue) ∧
      mem'.Holds (plug (⟨side, false, w, sibling.child side.flip⟩ :: path)
        (RBTree.mk side true tree p (sibling.child side))) := by
  have shape := eq_mk_of_rootValue side rooted
  rw [red] at shape
  obtain ⟨-, -, siblingLink, -⟩ := holds.represents.links
  have atW : mem.Holds (plug (⟨side.flip, pRed, p, tree⟩ :: path)
      (RBTree.mk side true (sibling.child side) w (sibling.child side.flip))) := by
    rw [← shape]
    simpa only [plug_cons, Frame.fill, mk_flip] using holds
  obtain ⟨wRed, -, -, -⟩ := atW.represents.links
  have blackened := atW.paint (rootValue_mk _ _ _ _ _) false
  rw [paint_mk] at blackened
  have atP : (mem.setRed w false).Holds (plug path (RBTree.mk side pRed tree p
      (RBTree.mk side false (sibling.child side) w (sibling.child side.flip)))) := by
    simpa only [plug_cons, Frame.fill, mk_flip] using blackened
  have reddened := atP.paint (rootValue_mk _ _ _ _ _) true
  rw [paint_mk] at reddened
  have rotated : (((mem.setRed w false).setRed p true).rotate side p).Holds
      (plug (⟨side, false, w, sibling.child side.flip⟩ :: path) (RBTree.mk side true tree p (sibling.child side))) :=
    reddened.rotate
  obtain ⟨-, -, newSibling, -⟩ := rotated.represents.links
  refine ⟨_, ?_, rotated⟩
  simp [redSibling, siblingLink, rooted, wRed, newSibling]

theorem repairDeleteStep_spec {frame : Frame Ptr} (holds : mem.Holds (plug (frame :: path) tree))
    (inv : DeleteInv (frame :: path) tree) (black : tree.rootRed = false) :
    ∃ mem' x, repairDeleteStep mem frame.side frame.value = some (mem', some x) ∧
      mem'.Holds (plug (fixBlack frame path tree).1 (fixBlack frame path tree).2) ∧
      (fixBlack frame path tree).2.rootValue = some x := by
  obtain ⟨side, pRed, p, sibling⟩ := frame
  have atP : mem.Holds (plug path (RBTree.mk side pRed tree p sibling)) := holds
  unfold RedBlack.fixBlack repairDeleteStep
  cases sibling with
  | leaf =>
      obtain ⟨height, -, -, balancedSibling, -⟩ := inv.unfold black
      cases balancedSibling
  | node red left w right =>
      cases red with
      | false =>
          rw [redSibling_of_black atP rfl]
          exact blackSibling_spec atP rfl
      | true =>
          obtain ⟨mem', run, atNear⟩ := redSibling_of_red atP rfl rfl
          rw [run]
          obtain ⟨reframed, -⟩ := inv.redSibling black rfl
          obtain ⟨height, -, -, balancedNear, -⟩ := reframed.unfold black
          exact blackSibling_spec atNear balancedNear.isSome_rootValue

end Pass

/-! ## The loop -/

section Loop

variable {mem : Mem Ptr} {path : List (Frame Ptr)} {tree : RBTree Ptr}

omit [DecidableEq Ptr] in
theorem rootValue_ne_root {frame : Frame Ptr} (holds : mem.Holds (plug (frame :: path) tree)) :
    tree.rootValue ≠ mem.root := by
  cases rooted : tree.rootValue with
  | none =>
      intro top
      have isNode := rootValue_plug_isSome path (by simp : (frame.fill tree).rootValue.isSome)
      rw [← plug_cons, ← holds.represents.root, ← top] at isNode
      cases isNode
  | some x => exact fun top => List.cons_ne_nil _ _ ((holds.represents.root_eq_iff rooted).mp top.symm)

theorem sideTest_eq {side : Side} {pRed : Bool} {p : Ptr} {sibling : RBTree Ptr}
    (holds : mem.Holds (plug path (RBTree.mk side pRed tree p sibling))) (isNode : sibling.rootValue.isSome) :
    (if tree.rootValue = mem.left p then Side.left else Side.right) = side := by
  obtain ⟨-, treeLink, siblingLink, -⟩ := holds.represents.links
  cases side with
  | left =>
      have leftLink : mem.left p = tree.rootValue := treeLink
      rw [if_pos leftLink.symm]
  | right =>
      obtain ⟨s, rooted⟩ := Option.isSome_iff_exists.mp isNode
      have leftLink : mem.left p = some s := by
        rw [← rooted]
        exact siblingLink
      have spread := nodup_plug.mp holds.distinct
      simp only [mk_right, toList_node, List.nodup_append, List.nodup_cons, List.mem_append,
        List.mem_cons] at spread
      have inSibling := mem_toList_of_rootValue rooted
      have apart : tree.rootValue ≠ some s := fun same => by
        have inTree := mem_toList_of_rootValue same
        grind
      rw [leftLink, if_neg apart]

theorem repairDeleteLoop_spec : ∀ (fuel : Nat) (mem : Mem Ptr) (path : List (Frame Ptr)) (tree : RBTree Ptr),
    mem.Holds (plug path tree) → DeleteInv path tree → (if tree.rootRed then 0 else path.length) < fuel →
    ∃ mem' path' tree', repairDeleteLoop fuel mem (parentOfPath path) tree.rootValue = some (mem', tree'.rootValue) ∧
      mem'.Holds (plug path' tree') ∧ DeleteInv path' tree' ∧ (path' = [] ∨ tree'.rootRed = true) ∧
      (plug path' tree').toList = (plug path tree).toList := by
  intro fuel
  induction fuel with
  | zero => exact fun _ _ _ _ _ short => absurd short (Nat.not_lt_zero _)
  | succ fuel ih =>
      intro mem path tree holds inv short
      have colour := ((represents_plug _ _).mp holds.represents).1.isRedAt_rootValue
      by_cases stop : path = [] ∨ tree.rootRed = true
      · refine ⟨mem, path, tree, ?_, holds, inv, stop, rfl⟩
        have leave : ¬(tree.rootValue ≠ mem.root ∧ (!mem.isRedAt tree.rootValue) = true) := by
          rcases stop with rfl | red
          · simp [holds.represents.root]
          · simp [colour, red]
        rw [repairDeleteLoop.eq_def]
        dsimp only
        rw [if_neg leave]
      · obtain ⟨nonempty, black⟩ : path ≠ [] ∧ tree.rootRed = false := by simpa using stop
        obtain ⟨frame, rest, rfl⟩ := List.exists_cons_of_ne_nil nonempty
        obtain ⟨mem', x', step, holds', rooted'⟩ := repairDeleteStep_spec holds inv black
        obtain ⟨kept, progress⟩ := inv.fixBlack black
        have shorter : (if (fixBlack frame rest tree).2.rootRed then 0 else (fixBlack frame rest tree).1.length) <
            fuel := by
          simp only [black, Bool.false_eq_true, if_false, List.length_cons, Nat.add_lt_add_iff_right] at short
          rcases progress with less | red | root
          · rw [List.length_cons] at less
            split <;> omega
          · rw [if_pos red]
            omega
          · rw [root, List.length_nil]
            split <;> omega
        obtain ⟨mem'', path', tree', loop, holds'', kept', exit, same⟩ := ih mem' _ _ holds' kept shorter
        have xParent : mem'.parent x' = parentOfPath (fixBlack frame rest tree).1 := by
          have ctx := ((represents_plug _ _).mp holds'.represents).2
          rw [rooted'] at ctx
          exact ctx.parent_hole
        rw [rooted', ← xParent] at loop
        refine ⟨mem'', path', tree', ?_, holds'', kept', exit, same.trans (toList_fixBlack _ _ _)⟩
        obtain ⟨height, -, -, balancedSibling, -⟩ := inv.unfold black
        have atP : mem.Holds (plug rest (RBTree.mk frame.side frame.red tree frame.value frame.sibling)) := holds
        rw [parentOfPath_cons, repairDeleteLoop, if_pos ⟨rootValue_ne_root holds, by simp [colour, black]⟩,
          sideTest_eq atP balancedSibling.isSome_rootValue, step]
        exact loop

theorem repairDelete_spec {fuel : Nat} (holds : mem.Holds (plug path tree)) (inv : DeleteInv path tree)
    (short : (if tree.rootRed then 0 else path.length) < fuel) :
    ∃ mem' whole, repairDelete fuel mem (parentOfPath path) tree.rootValue = some mem' ∧ mem'.Holds whole ∧
      whole.IsRedBlack ∧ whole.toList = (plug path tree).toList := by
  obtain ⟨mem', path', tree', loop, holds', inv', exit, same⟩ := repairDeleteLoop_spec fuel mem path tree holds inv short
  have whole := inv'.isRedBlack exit
  cases tree' with
  | leaf => exact ⟨mem', plug path' leaf, by rw [repairDelete, loop]; rfl, holds', whole, same⟩
  | node red left x right =>
      refine ⟨_, _, by rw [repairDelete, loop]; rfl, holds'.paint rfl false, whole, ?_⟩
      rw [toList_plug_paint, same]

end Loop

end NvidiaGpu.LinkedTree
