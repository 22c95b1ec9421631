import Mathlib.Data.List.Basic
import Mathlib.Tactic.Linarith

set_option autoImplicit false

/-! Intervals laid one after another in a region `[base, top)`, and rings of
them that wrap at most once.  An item `x` stands for the interval
`[start x, start x + size x)`.

`Laid lo items hi`: the intervals of `items` follow one another in order, the
first starting at or after `lo` and the last ending by `hi`.  A `RingLayout` is a
list laid from its first start up to `top`, then, after one wrap, from `base`
up to that first start: the layout of a ring buffer whose entries never
straddle its end.  `Fits items n k` says that an interval `[n, n + k)` can be
added after the last one and the list stays a ring.

Removing an entry keeps a ring a ring and an append point an append point, and
from the first start and the last end alone one can tell where such an append
point is. -/

namespace NvidiaGpu.Intervals

variable {α : Type} (start size : α → Nat)

def Laid : Nat → List α → Nat → Prop
  | lo, [], hi => lo ≤ hi
  | lo, x :: rest, hi => lo ≤ start x ∧ Laid (start x + size x) rest hi

section Laid

variable {start size}

@[simp] theorem laid_nil {lo hi : Nat} : Laid start size lo [] hi ↔ lo ≤ hi := Iff.rfl

@[simp] theorem laid_cons {lo hi : Nat} {x : α} {rest : List α} :
    Laid start size lo (x :: rest) hi ↔ lo ≤ start x ∧ Laid start size (start x + size x) rest hi := Iff.rfl

theorem Laid.le {lo hi : Nat} : ∀ {items : List α}, Laid start size lo items hi → lo ≤ hi
  | [], laid => laid
  | _ :: _, ⟨first, rest⟩ => Nat.le_trans first (Nat.le_trans (Nat.le_add_right _ _) rest.le)

theorem Laid.mono {lo lo' hi hi' : Nat} (low : lo' ≤ lo) (high : hi ≤ hi') :
    ∀ {items : List α}, Laid start size lo items hi → Laid start size lo' items hi'
  | [], laid => by simp only [laid_nil] at laid ⊢; omega
  | _ :: _, ⟨first, rest⟩ => ⟨Nat.le_trans low first, rest.mono (Nat.le_refl _) high⟩

theorem Laid.sublist {lo hi : Nat} {items : List α} (laid : Laid start size lo items hi) {fewer : List α}
    (sub : fewer.Sublist items) : Laid start size lo fewer hi := by
  induction sub generalizing lo with
  | slnil => exact laid
  | cons x _ ih =>
      obtain ⟨first, rest⟩ := laid
      exact ih (rest.mono (by omega) (Nat.le_refl _))
  | cons_cons x _ ih =>
      obtain ⟨first, rest⟩ := laid
      exact ⟨first, ih rest⟩

theorem Laid.mem {lo hi : Nat} : ∀ {items : List α}, Laid start size lo items hi →
    ∀ x ∈ items, lo ≤ start x ∧ start x + size x ≤ hi
  | [], _, _, member => absurd member List.not_mem_nil
  | _ :: _, ⟨first, rest⟩, x, member => by
      rcases List.mem_cons.mp member with rfl | later
      · exact ⟨first, rest.le⟩
      · have inside := rest.mem x later
        omega

theorem Laid.pairwise {lo hi : Nat} : ∀ {items : List α}, Laid start size lo items hi →
    items.Pairwise fun a b => start a + size a ≤ start b
  | [], _ => List.Pairwise.nil
  | _ :: _, ⟨_, rest⟩ => List.Pairwise.cons (fun b member => (rest.mem b member).1) rest.pairwise

theorem laid_append {lo hi : Nat} : ∀ {front back : List α},
    Laid start size lo (front ++ back) hi ↔ ∃ mid, Laid start size lo front mid ∧ Laid start size mid back hi
  | [], _ => ⟨fun laid => ⟨lo, Nat.le_refl lo, laid⟩, fun ⟨_, low, laid⟩ => laid.mono low (Nat.le_refl _)⟩
  | x :: front, back => by
      rw [List.cons_append, laid_cons, laid_append]
      constructor
      · rintro ⟨first, mid, laidFront, laidBack⟩
        exact ⟨mid, ⟨first, laidFront⟩, laidBack⟩
      · rintro ⟨mid, ⟨first, laidFront⟩, laidBack⟩
        exact ⟨first, mid, laidFront, laidBack⟩

theorem Laid.concat {lo hi : Nat} {items : List α} {x : α} (laid : Laid start size lo items (start x))
    (fits : start x + size x ≤ hi) : Laid start size lo (items ++ [x]) hi :=
  laid_append.mpr ⟨start x, laid, Nat.le_refl _, fits⟩

/-- A laid list also lies up to its last end. -/
theorem Laid.tight {lo hi : Nat} {items : List α} {x : α} (laid : Laid start size lo (items ++ [x]) hi) :
    Laid start size lo (items ++ [x]) (start x + size x) ∧ start x + size x ≤ hi := by
  obtain ⟨mid, laidFront, low, rest⟩ := laid_append.mp laid
  exact ⟨laid_append.mpr ⟨mid, laidFront, low, Nat.le_refl _⟩, rest⟩

end Laid

/-! ## Rings -/

variable (base top : Nat)

/-- `items` lie from the first start up to `top`, and after one wrap from
`base` up to the first start. -/
def RingLayout : List α → Prop
  | [] => True
  | x :: rest => ∃ front back, rest = front ++ back ∧ Laid start size (start x) (x :: front) top ∧
      Laid start size base back (start x)

/-- An interval `[n, n + k)` can follow the last of `items`: after it, up to
`top`, when the list does not wrap, or after the wrap up to the first start. -/
def Fits : List α → Nat → Nat → Prop
  | [], n, k => base ≤ n ∧ n + k ≤ top
  | x :: rest, n, k => n + k ≤ top ∧ (Laid start size base (x :: rest) n ∨
      ∃ front back, rest = front ++ back ∧ Laid start size (start x) (x :: front) top ∧ Laid start size base back n ∧
        n + k ≤ start x)

section RingLayout

variable {start size base top}

theorem RingLayout.pairwise {items : List α} (ring : RingLayout start size base top items) :
    items.Pairwise fun a b => start a + size a ≤ start b ∨ start b + size b ≤ start a := by
  cases items with
  | nil => exact List.Pairwise.nil
  | cons x rest =>
      obtain ⟨front, back, rfl, laidFront, laidBack⟩ := ring
      rw [← List.cons_append, List.pairwise_append]
      refine ⟨laidFront.pairwise.imp Or.inl, laidBack.pairwise.imp Or.inl, fun a inFront b inBack => Or.inr ?_⟩
      exact Nat.le_trans (laidBack.mem b inBack).2 (laidFront.mem a inFront).1

theorem RingLayout.mem {items : List α} (ring : RingLayout start size base top items) :
    ∀ y ∈ items, base ≤ start y ∧ start y + size y ≤ top := by
  cases items with
  | nil => exact fun y member => absurd member List.not_mem_nil
  | cons x rest =>
      obtain ⟨front, back, rfl, laidFront, laidBack⟩ := ring
      intro y member
      have low : base ≤ start x := laidBack.le
      have high := (laidFront.mem x List.mem_cons_self).2
      rw [← List.cons_append, List.mem_append] at member
      rcases member with inFront | inBack
      · have inside := laidFront.mem y inFront
        omega
      · have inside := laidBack.mem y inBack
        omega

/-- Taking the first entry out: the next entry starts the ring, and when the
entries before the wrap are used up, the ring no longer wraps. -/
theorem RingLayout.tail {x : α} {rest : List α} (ring : RingLayout start size base top (x :: rest)) :
    RingLayout start size base top rest := by
  obtain ⟨front, back, rfl, ⟨-, laidFront⟩, laidBack⟩ := ring
  cases front with
  | nil =>
      cases back with
      | nil => trivial
      | cons y back =>
          obtain ⟨low, laidRest⟩ := laidBack
          have high : start x ≤ top := Nat.le_trans (Nat.le_add_right _ _) (laid_nil.mp laidFront)
          exact ⟨back, [], (List.append_nil back).symm, ⟨Nat.le_refl _, laidRest.mono (Nat.le_refl _) high⟩, low⟩
  | cons y front =>
      obtain ⟨first, laidRest⟩ := laidFront
      exact ⟨front, back, rfl, ⟨Nat.le_refl _, laidRest⟩, laidBack.mono (Nat.le_refl _) (by omega)⟩

theorem RingLayout.sublist {x : α} {rest fewer : List α} (ring : RingLayout start size base top (x :: rest))
    (sub : fewer.Sublist rest) : RingLayout start size base top (x :: fewer) := by
  obtain ⟨front, back, rfl, ⟨first, laidFront⟩, laidBack⟩ := ring
  obtain ⟨front', back', rfl, subFront, subBack⟩ := List.sublist_append_iff.mp sub
  exact ⟨front', back', rfl, ⟨first, laidFront.sublist subFront⟩, laidBack.sublist subBack⟩

theorem RingLayout.eraseP {items : List α} (ring : RingLayout start size base top items) (p : α → Bool) :
    RingLayout start size base top (items.eraseP p) := by
  cases items with
  | nil => trivial
  | cons x rest =>
      rw [List.eraseP_cons]
      cases p x with
      | true => exact ring.tail
      | false => exact ring.sublist List.eraseP_sublist

theorem Fits.tail {x : α} {rest : List α} {n k : Nat} (fits : Fits start size base top (x :: rest) n k) :
    Fits start size base top rest n k := by
  obtain ⟨room, ⟨low, laid⟩ | ⟨front, back, rfl, ⟨-, laidFront⟩, laidBack, wraps⟩⟩ := fits
  · cases rest with
    | nil => exact ⟨Nat.le_trans low (Nat.le_trans (Nat.le_add_right _ _) (laid_nil.mp laid)), room⟩
    | cons y rest =>
        obtain ⟨first, laidRest⟩ := laid
        exact ⟨room, Or.inl ⟨by omega, laidRest⟩⟩
  · cases front with
    | nil =>
        cases back with
        | nil => exact ⟨laid_nil.mp laidBack, room⟩
        | cons y back => exact ⟨room, Or.inl laidBack⟩
    | cons y front =>
        obtain ⟨first, laidRest⟩ := laidFront
        exact ⟨room, Or.inr ⟨front, back, rfl, ⟨Nat.le_refl _, laidRest⟩, laidBack, by omega⟩⟩

theorem Fits.sublist {x : α} {rest fewer : List α} {n k : Nat} (fits : Fits start size base top (x :: rest) n k)
    (sub : fewer.Sublist rest) : Fits start size base top (x :: fewer) n k := by
  obtain ⟨room, laid | ⟨front, back, rfl, ⟨first, laidFront⟩, laidBack, wraps⟩⟩ := fits
  · exact ⟨room, Or.inl (laid.sublist (sub.cons_cons x))⟩
  · obtain ⟨front', back', rfl, subFront, subBack⟩ := List.sublist_append_iff.mp sub
    exact ⟨room, Or.inr ⟨front', back', rfl, ⟨first, laidFront.sublist subFront⟩, laidBack.sublist subBack, wraps⟩⟩

theorem Fits.eraseP {items : List α} {n k : Nat} (fits : Fits start size base top items n k) (p : α → Bool) :
    Fits start size base top (items.eraseP p) n k := by
  cases items with
  | nil => exact fits
  | cons x rest =>
      rw [List.eraseP_cons]
      cases p x with
      | true => exact fits.tail
      | false => exact fits.sublist List.eraseP_sublist

/-- The room an append point leaves is inside the region and apart from every
entry. -/
theorem Fits.apart {items : List α} {n k : Nat} (fits : Fits start size base top items n k) :
    base ≤ n ∧ n + k ≤ top ∧ ∀ y ∈ items, start y + size y ≤ n ∨ n + k ≤ start y := by
  cases items with
  | nil => exact ⟨fits.1, fits.2, fun y member => absurd member List.not_mem_nil⟩
  | cons x rest =>
      obtain ⟨room, laid | ⟨front, back, rfl, laidFront, laidBack, wraps⟩⟩ := fits
      · exact ⟨laid.le, room, fun y member => Or.inl (laid.mem y member).2⟩
      · refine ⟨laidBack.le, room, fun y member => ?_⟩
        rw [← List.cons_append, List.mem_append] at member
        rcases member with inFront | inBack
        · exact Or.inr (Nat.le_trans wraps (laidFront.mem y inFront).1)
        · exact Or.inl (laidBack.mem y inBack).2

/-- An entry of at most `k` put at an append point for `k` keeps the ring. -/
theorem Fits.ring_concat {items : List α} {n k : Nat} (fits : Fits start size base top items n k) {y : α}
    (placed : start y = n) (small : size y ≤ k) : RingLayout start size base top (items ++ [y]) := by
  cases items with
  | nil =>
      obtain ⟨low, room⟩ := fits
      exact ⟨[], [], rfl, ⟨Nat.le_refl _, laid_nil.mpr (by omega)⟩, laid_nil.mpr (by omega)⟩
  | cons x rest =>
      obtain ⟨room, ⟨low, laid⟩ | ⟨front, back, rfl, laidFront, laidBack, wraps⟩⟩ := fits
      · exact ⟨rest ++ [y], [], (List.append_nil _).symm,
          ⟨Nat.le_refl _, Laid.concat (placed ▸ laid) (by omega)⟩, laid_nil.mpr low⟩
      · refine ⟨front, back ++ [y], List.append_assoc front back [y], laidFront, ?_⟩
        exact Laid.concat (placed ▸ laidBack) (by omega)

theorem RingLayout.last_mem_back {x z : α} {front back : List α} (last : (x :: (front ++ back)).getLast? = some z)
    (nonempty : back ≠ []) : z ∈ back := by
  obtain ⟨init, w, rfl⟩ := List.eq_nil_or_concat' back |>.resolve_left nonempty
  rw [← List.cons_append, ← List.append_assoc, List.getLast?_concat, Option.some.injEq] at last
  rw [last]
  exact List.mem_concat_self

/-- When the last end is past the first start, the ring does not wrap. -/
theorem RingLayout.no_wrap {x z : α} {front back : List α} (laidBack : Laid start size base back (start x))
    (last : (x :: (front ++ back)).getLast? = some z) (past : start x < start z + size z) : back = [] := by
  by_contra nonempty
  have inside := (laidBack.mem z (RingLayout.last_mem_back last nonempty)).2
  omega

/-- Where a ring that reads only its first start and last end finds room:
after a wrap, between the last end and the first start. -/
theorem RingLayout.fits_of_wrapped {x z : α} {rest : List α} (ring : RingLayout start size base top (x :: rest))
    (last : (x :: rest).getLast? = some z) {k : Nat} (room : start z + size z + k ≤ start x) :
    Fits start size base top (x :: rest) (start z + size z) k := by
  obtain ⟨front, back, rfl, laidFront, laidBack⟩ := ring
  have high := (laidFront.mem x List.mem_cons_self).2
  refine ⟨by omega, Or.inr ⟨front, back, rfl, laidFront, ?_, room⟩⟩
  rcases List.eq_nil_or_concat' back with empty | ⟨init, w, rfl⟩
  · subst empty
    have inFront : z ∈ x :: front := by
      obtain ⟨ys, same⟩ := List.getLast?_eq_some_iff.mp last
      rw [List.append_nil] at same
      exact same ▸ List.mem_concat_self
    have after := (laidFront.mem z inFront).1
    have low : base ≤ start x := laid_nil.mp laidBack
    exact laid_nil.mpr (by omega)
  · rw [← List.cons_append, ← List.append_assoc, List.getLast?_concat, Option.some.injEq] at last
    subst last
    exact laidBack.tight.1

/-- Without a wrap: room after the last end, up to `top`. -/
theorem RingLayout.fits_of_after {x z : α} {rest : List α} (ring : RingLayout start size base top (x :: rest))
    (last : (x :: rest).getLast? = some z) (past : start x < start z + size z) {k : Nat}
    (room : start z + size z + k ≤ top) : Fits start size base top (x :: rest) (start z + size z) k := by
  obtain ⟨front, back, rfl, laidFront, laidBack⟩ := ring
  have flat := RingLayout.no_wrap laidBack last past
  subst flat
  have low : base ≤ start x := laid_nil.mp laidBack
  rw [List.append_nil] at last ⊢
  obtain ⟨ys, same⟩ := List.getLast?_eq_some_iff.mp last
  have tight : Laid start size (start x) (x :: front) (start z + size z) := by
    rw [same] at laidFront ⊢
    exact laidFront.tight.1
  exact ⟨room, Or.inl (tight.mono low (Nat.le_refl _))⟩

/-- Without a wrap: room from `base`, before the first start. -/
theorem RingLayout.fits_of_before {x z : α} {rest : List α} (ring : RingLayout start size base top (x :: rest))
    (last : (x :: rest).getLast? = some z) (past : start x < start z + size z) {k : Nat}
    (room : base + k ≤ start x) : Fits start size base top (x :: rest) base k := by
  obtain ⟨front, back, rfl, laidFront, laidBack⟩ := ring
  have flat := RingLayout.no_wrap laidBack last past
  subst flat
  have high := (laidFront.mem x List.mem_cons_self).2
  exact ⟨by omega, Or.inr ⟨front, [], rfl, laidFront, Nat.le_refl base, room⟩⟩

end RingLayout

end NvidiaGpu.Intervals
