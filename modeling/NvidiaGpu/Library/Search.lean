import Mathlib.Data.Option.Basic
import Mathlib.Tactic.NormNum

set_option autoImplicit false

/-! The first index from a start, and the last index below a bound, where a
predicate on the naturals holds, as the scans of a bitmap compute them; with
the rules that split a range and compare two predicates on it. -/

namespace NvidiaGpu.Search

def findFrom (bits : Nat → Bool) (index : Nat) : Nat → Option Nat
  | 0 => none
  | count + 1 => if bits index then some index else findFrom bits (index + 1) count

def findLast (bits : Nat → Bool) : Nat → Option Nat
  | 0 => none
  | count + 1 => if bits count then some count else findLast bits count

variable {bits other : Nat → Bool}

section First

theorem findFrom_eq_none_iff {index count : Nat} :
    findFrom bits index count = none ↔ ∀ j, index ≤ j → j < index + count → bits j = false := by
  induction count generalizing index with
  | zero =>
      simp only [findFrom, true_iff]
      intro j above below
      omega
  | succ count ih =>
      simp only [findFrom]
      by_cases here : bits index
      · simp only [here, if_true, reduceCtorEq, false_iff, not_forall]
        exact ⟨index, Nat.le_refl _, by omega, by simp [here]⟩
      · rw [if_neg here, ih]
        constructor
        · intro later j above below
          rcases Nat.eq_or_lt_of_le above with same | after
          · subst same
            simpa using here
          · exact later j after (by omega)
        · intro all j above below
          exact all j (by omega) (by omega)

theorem findFrom_eq_some_iff {index count found : Nat} :
    findFrom bits index count = some found ↔
      index ≤ found ∧ found < index + count ∧ bits found = true ∧
        ∀ j, index ≤ j → j < found → bits j = false := by
  induction count generalizing index with
  | zero =>
      simp only [findFrom, reduceCtorEq, false_iff]
      omega
  | succ count ih =>
      simp only [findFrom]
      by_cases here : bits index
      · simp only [here, if_true, Option.some.injEq]
        constructor
        · rintro rfl
          exact ⟨Nat.le_refl _, by omega, here, fun j above below => by omega⟩
        · rintro ⟨above, _, set, before⟩
          by_contra later
          have := before index (Nat.le_refl _) (by omega)
          simp [here] at this
      · rw [if_neg here, ih]
        constructor
        · rintro ⟨above, below, set, before⟩
          refine ⟨by omega, by omega, set, fun j least earlier => ?_⟩
          rcases Nat.eq_or_lt_of_le least with same | after
          · subst same
            simpa using here
          · exact before j after earlier
        · rintro ⟨above, below, set, before⟩
          have moved : found ≠ index := fun same => here (same ▸ set)
          exact ⟨by omega, by omega, set, fun j least earlier => before j (by omega) earlier⟩

theorem findFrom_add (index first second : Nat) :
    findFrom bits index (first + second) = (findFrom bits index first).or (findFrom bits (index + first) second) := by
  induction first generalizing index with
  | zero => simp [findFrom]
  | succ first ih =>
      rw [Nat.add_right_comm, findFrom, findFrom]
      by_cases here : bits index
      · simp [here]
      · simp only [here, Bool.false_eq_true, if_false]
        rw [ih, show index + 1 + first = index + (first + 1) by omega]

theorem findFrom_min_or (index first count : Nat) :
    findFrom bits index count =
      (findFrom bits index (min first count)).or (findFrom bits (index + first) (count - first)) := by
  by_cases fits : first ≤ count
  · rw [Nat.min_eq_left fits, ← findFrom_add, Nat.add_sub_cancel' fits]
  · rw [Nat.min_eq_right (by omega), Nat.sub_eq_zero_of_le (by omega)]
    exact Option.or_none.symm

theorem findFrom_congr {index count : Nat} (agree : ∀ j, index ≤ j → j < index + count → bits j = other j) :
    findFrom bits index count = findFrom other index count := by
  induction count generalizing index with
  | zero => rfl
  | succ count ih =>
      simp only [findFrom]
      rw [agree index (Nat.le_refl _) (by omega), ih fun j above below => agree j (by omega) (by omega)]

theorem findFrom_shift (base index count : Nat) :
    findFrom bits (base + index) count = (findFrom (fun j => bits (base + j)) index count).map (base + ·) := by
  induction count generalizing index with
  | zero => rfl
  | succ count ih =>
      simp only [findFrom]
      by_cases here : bits (base + index)
      · simp [here]
      · simp only [here, Bool.false_eq_true, if_false]
        rw [← ih, Nat.add_assoc]

end First

section Last

theorem findLast_eq_none_iff {count : Nat} : findLast bits count = none ↔ ∀ j < count, bits j = false := by
  induction count with
  | zero => simp [findLast]
  | succ count ih =>
      simp only [findLast]
      by_cases here : bits count
      · simp only [here, if_true, reduceCtorEq, false_iff, not_forall]
        exact ⟨count, by omega, by simp [here]⟩
      · rw [if_neg here, ih]
        constructor
        · intro below j inside
          rcases Nat.lt_succ_iff_lt_or_eq.mp inside with lower | same
          · exact below j lower
          · subst same
            simpa using here
        · intro all j inside
          exact all j (by omega)

theorem findLast_add (low count : Nat) :
    findLast bits (low + count) = ((findLast (fun j => bits (low + j)) count).map (low + ·)).or (findLast bits low) := by
  induction count with
  | zero => simp [findLast]
  | succ count ih =>
      rw [← Nat.add_assoc, findLast, findLast]
      by_cases here : bits (low + count)
      · simp [here]
      · simp only [here, Bool.false_eq_true, if_false]
        exact ih

theorem findLast_congr {count : Nat} (agree : ∀ j < count, bits j = other j) :
    findLast bits count = findLast other count := by
  induction count with
  | zero => rfl
  | succ count ih =>
      simp only [findLast]
      rw [agree count (by omega), ih fun j below => agree j (by omega)]

end Last

end NvidiaGpu.Search
