import Mathlib.Data.List.Nodup

set_option autoImplicit false

/-! An intrusive doubly-linked list with a head sentinel, seen as the sequence
of entries read from the head.  Neighbour lookups return `none` at the ends,
where the link points back to the sentinel; insertion places an entry next to a
given one. -/

namespace NvidiaGpu.LinkedList

variable {α : Type}

theorem not_mem_front {front back : List α} {entry : α} (distinct : (front ++ entry :: back).Nodup) :
    entry ∉ front := fun member =>
  (List.nodup_append.mp distinct).2.2 entry member entry List.mem_cons_self rfl

theorem not_mem_back {front back : List α} {entry : α} (distinct : (front ++ entry :: back).Nodup) :
    entry ∉ back := fun member =>
  (List.nodup_cons.mp (List.nodup_append.mp distinct).2.1).1 member

theorem rel_or_rel_of_pairwise {R : α → α → Prop} {list : List α} (pairwise : list.Pairwise R)
    {a b : α} (aMember : a ∈ list) (bMember : b ∈ list) (different : a ≠ b) : R a b ∨ R b a := by
  induction list with
  | nil => cases aMember
  | cons first rest ih =>
      rw [List.pairwise_cons] at pairwise
      rcases List.mem_cons.mp aMember with aFirst | aRest <;>
        rcases List.mem_cons.mp bMember with bFirst | bRest
      · exact absurd (aFirst.trans bFirst.symm) different
      · rw [aFirst]
        exact .inl (pairwise.1 b bRest)
      · rw [bFirst]
        exact .inr (pairwise.1 a aRest)
      · exact ih pairwise.2 aRest bRest

theorem mem_takeWhile_of_pairwise {R : α → α → Prop} {p : α → Bool} {list : List α}
    (sorted : list.Pairwise R) (downward : ∀ a b, R a b → p b = true → p a = true) {x : α}
    (member : x ∈ list) (holds : p x = true) : x ∈ list.takeWhile p := by
  induction list with
  | nil => cases member
  | cons first rest ih =>
      rw [List.pairwise_cons] at sorted
      by_cases firstHolds : p first = true
      · rw [List.takeWhile_cons_of_pos firstHolds]
        rcases List.mem_cons.mp member with same | inRest
        · rw [same]
          exact List.mem_cons_self
        · exact List.mem_cons_of_mem first (ih sorted.2 inRest)
      · rcases List.mem_cons.mp member with same | inRest
        · rw [same] at holds
          exact absurd holds firstHolds
        · exact absurd (downward first x (sorted.1 x inRest) holds) firstHolds

theorem split_at_getElem? {list : List α} {index : Nat} {entry : α} (found : list[index]? = some entry) :
    list = list.take index ++ entry :: list.drop (index + 1) ∧
      list.eraseIdx index = list.take index ++ list.drop (index + 1) := by
  obtain ⟨bound, atIndex⟩ := List.getElem?_eq_some_iff.mp found
  refine ⟨?_, List.eraseIdx_eq_take_drop_succ list index⟩
  rw [← atIndex, ← List.drop_eq_getElem_cons bound, List.take_append_drop]

variable [DecidableEq α]

def next : List α → α → Option α
  | [], _ => none
  | first :: rest, entry => if first = entry then rest.head? else next rest entry

def prev (list : List α) (entry : α) : Option α :=
  next list.reverse entry

def insertAfter : List α → α → α → List α
  | [], _, _ => []
  | first :: rest, position, entry =>
      if first = position then first :: entry :: rest else first :: insertAfter rest position entry

def insertBefore : List α → α → α → List α
  | [], _, _ => []
  | first :: rest, position, entry =>
      if first = position then entry :: first :: rest else first :: insertBefore rest position entry

theorem next_append_cons {front rest : List α} {entry : α} (absent : entry ∉ front) :
    next (front ++ entry :: rest) entry = rest.head? := by
  induction front with
  | nil => simp [next]
  | cons first tail ih =>
      have different : first ≠ entry := fun same => absent (same ▸ List.mem_cons_self)
      have notInTail : entry ∉ tail := fun member => absent (List.mem_cons_of_mem first member)
      simp [next, different, ih notInTail]

theorem prev_append_cons {front rest : List α} {entry : α} (absent : entry ∉ rest) :
    prev (front ++ entry :: rest) entry = front.getLast? := by
  unfold prev
  rw [List.reverse_append, List.reverse_cons, List.append_assoc, List.singleton_append,
    next_append_cons (by simpa using absent), List.head?_reverse]

theorem next_eq_some_iff {list : List α} {entry follower : α} (distinct : list.Nodup) :
    next list entry = some follower ↔ ∃ front back, list = front ++ entry :: follower :: back := by
  constructor
  · intro found
    induction list with
    | nil => cases found
    | cons first rest ih =>
        by_cases atFirst : first = entry
        · subst atFirst
          simp only [next, if_true] at found
          cases rest with
          | nil => cases found
          | cons second back =>
              simp only [List.head?_cons, Option.some.injEq] at found
              subst found
              exact ⟨[], back, rfl⟩
        · simp only [next, atFirst, if_false] at found
          obtain ⟨front, back, rfl⟩ := ih (List.nodup_cons.mp distinct).2 found
          exact ⟨first :: front, back, rfl⟩
  · rintro ⟨front, back, rfl⟩
    rw [next_append_cons (not_mem_front distinct)]
    rfl

theorem prev_eq_some_iff {list : List α} {entry leader : α} (distinct : list.Nodup) :
    prev list entry = some leader ↔ ∃ front back, list = front ++ leader :: entry :: back := by
  unfold prev
  rw [next_eq_some_iff (List.nodup_reverse.mpr distinct)]
  constructor
  · rintro ⟨front, back, reversed⟩
    refine ⟨back.reverse, front.reverse, ?_⟩
    have restored := congrArg List.reverse reversed
    simpa using restored
  · rintro ⟨front, back, rfl⟩
    exact ⟨back.reverse, front.reverse, by simp⟩

theorem insertAfter_append_cons {front rest : List α} {position : α} (entry : α)
    (absent : position ∉ front) :
    insertAfter (front ++ position :: rest) position entry = front ++ position :: entry :: rest := by
  induction front with
  | nil => simp [insertAfter]
  | cons first tail ih =>
      have different : first ≠ position := fun same => absent (same ▸ List.mem_cons_self)
      have notInTail : position ∉ tail := fun member => absent (List.mem_cons_of_mem first member)
      simp [insertAfter, different, ih notInTail]

theorem insertBefore_append_cons {front rest : List α} {position : α} (entry : α)
    (absent : position ∉ front) :
    insertBefore (front ++ position :: rest) position entry = front ++ entry :: position :: rest := by
  induction front with
  | nil => simp [insertBefore]
  | cons first tail ih =>
      have different : first ≠ position := fun same => absent (same ▸ List.mem_cons_self)
      have notInTail : position ∉ tail := fun member => absent (List.mem_cons_of_mem first member)
      simp [insertBefore, different, ih notInTail]

end NvidiaGpu.LinkedList
