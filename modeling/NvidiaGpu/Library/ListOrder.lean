import Mathlib.Logic.Function.Iterate
import Mathlib.Data.List.Sort

set_option autoImplicit false

/-! Walking an ordered list.  In a list ordered by a strict order `R`, the
first element `R`-after an element is the one following it, so a step that
looks for "the first one after" moves one place along; iterating such a step
from the head visits the whole list, once each and in order, and then leaves
it. -/

namespace NvidiaGpu.ListOrder

variable {α : Type}

theorem find?_of_all {list : List α} {test : α → Bool} (all : ∀ x ∈ list, test x) : list.find? test = list.head? := by
  cases list with
  | nil => rfl
  | cons first rest => exact List.find?_cons_of_pos (all first List.mem_cons_self)

theorem pairwise_insert_middle {R : α → α → Prop} {front back : List α} {x : α} (sorted : (front ++ back).Pairwise R)
    (lower : ∀ a ∈ front, R a x) (higher : ∀ b ∈ back, R x b) : (front ++ x :: back).Pairwise R := by
  obtain ⟨sortedFront, sortedBack, across⟩ := List.pairwise_append.mp sorted
  refine List.pairwise_append.mpr ⟨sortedFront, List.pairwise_cons.mpr ⟨higher, sortedBack⟩, fun a inFront b inRest => ?_⟩
  rcases List.mem_cons.mp inRest with rfl | inBack
  · exact lower a inFront
  · exact across a inFront b inBack

theorem orderedInsert_middle {R : α → α → Prop} [DecidableRel R] {front back : List α} {x : α}
    (lower : ∀ a ∈ front, ¬R x a) (higher : ∀ b ∈ back.head?, R x b) :
    (front ++ back).orderedInsert R x = front ++ x :: back := by
  induction front with
  | nil =>
      cases back with
      | nil => rfl
      | cons b rest => exact List.orderedInsert_cons_of_le R rest (higher b rfl)
  | cons a front ih =>
      rw [List.cons_append, List.orderedInsert_of_not_le R _ (lower a List.mem_cons_self),
        ih fun a' inFront => lower a' (List.mem_cons_of_mem a inFront), List.cons_append]

theorem erase_middle [DecidableEq α] {front back : List α} {x : α} (distinct : (front ++ x :: back).Nodup) :
    (front ++ x :: back).erase x = front ++ back := by
  have outside : x ∉ front := fun inFront =>
    (List.nodup_append.mp distinct).2.2 x inFront x List.mem_cons_self rfl
  rw [List.erase_append_right _ outside, List.erase_cons_head]

section After

variable {R : α → α → Bool} (asymm : ∀ a b, R a b → ¬R b a)
include asymm

theorem find?_after {before after : List α} {x : α} (sorted : (before ++ x :: after).Pairwise fun a b => R a b) :
    (before ++ x :: after).find? (R x) = after.head? := by
  obtain ⟨-, tailSorted, across⟩ := List.pairwise_append.mp sorted
  have earlier : before.find? (R x) = none :=
    List.find?_eq_none.mpr fun y member => asymm y x (across y member x List.mem_cons_self)
  have self : ¬R x x := fun related => asymm x x related related
  rw [List.find?_append, earlier, Option.none_or, List.find?_cons_of_neg self]
  cases after with
  | nil => rfl
  | cons next rest => exact List.find?_cons_of_pos (List.rel_of_pairwise_cons tailSorted List.mem_cons_self)

theorem find?_after_getElem {list : List α} (sorted : list.Pairwise fun a b => R a b) (i : Nat)
    (inside : i < list.length) : list.find? (R list[i]) = list[i + 1]? := by
  have split : list.take i ++ list[i] :: list.drop (i + 1) = list := by
    rw [List.getElem_cons_drop, List.take_append_drop]
  have after := find?_after asymm (split.symm ▸ sorted)
  rw [split] at after
  rw [after, List.head?_drop]

end After

section Iterate

variable {nodes : List α} {next : Option α → Option α} (step : ∀ j, next nodes[j]? = nodes[j + 1]?)
include step

theorem iterate_getElem? (j m : Nat) : next^[m] nodes[j]? = nodes[j + m]? := by
  induction m generalizing j with
  | zero => rfl
  | succ m ih => rw [Function.iterate_succ_apply, step j, ih (j + 1), Nat.add_right_comm, Nat.add_assoc]

theorem iterate_head? :
    (∀ i (inside : i < nodes.length), next^[i] nodes.head? = some nodes[i]) ∧ next^[nodes.length] nodes.head? = none := by
  have start : nodes.head? = nodes[0]? := List.head?_eq_getElem?
  refine ⟨fun i inside => ?_, ?_⟩
  · rw [start, iterate_getElem? step 0 i, Nat.zero_add, List.getElem?_eq_getElem inside]
  · rw [start, iterate_getElem? step 0, Nat.zero_add, List.getElem?_eq_none (Nat.le_refl _)]

theorem iterate_find? {holds : α → Bool} (mono : nodes.Pairwise fun a b => holds a → holds b) :
    (∀ i (inside : i < (nodes.filter holds).length), next^[i] (nodes.find? holds) = some (nodes.filter holds)[i]) ∧
      next^[(nodes.filter holds).length] (nodes.find? holds) = none := by
  induction nodes with
  | nil => exact ⟨fun i inside => absurd inside (by simp), rfl⟩
  | cons a nodes ih =>
      rw [List.pairwise_cons] at mono
      by_cases first : holds a
      · have all : (a :: nodes).filter holds = a :: nodes := by
          rw [List.filter_eq_self]
          intro b inside
          rcases List.mem_cons.mp inside with rfl | later
          · exact first
          · exact mono.1 b later first
        rw [List.find?_cons_of_pos first, all]
        exact iterate_head? step
      · rw [List.find?_cons_of_neg first, List.filter_cons_of_neg first]
        exact ih (fun j => step (j + 1)) mono.2

end Iterate

end NvidiaGpu.ListOrder
