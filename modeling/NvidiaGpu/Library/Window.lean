import Mathlib.Data.List.Range
import Mathlib.Tactic.NormNum

set_option autoImplicit false

/-! A circular array of `capacity` slots, read as the FIFO sequence of `count`
slots from a start position on, and the copies that write a run of
consecutive slots.  Indices reduced modulo the capacity cross the end of the
array at most once for the windows used here, so the lemmas come with a
one-wrap case split that leaves linear goals. -/

namespace NvidiaGpu.Window

variable {α : Type}

/-- The `count` slots of a circular array of `capacity` slots from position
`start` on. -/
def window (slots : Nat → α) (capacity start count : Nat) : List α :=
  (List.range count).map fun offset => slots ((start + offset) % capacity)

/-- `slots` after copying `values 0, …, count - 1` into the slots from `start`
on. -/
def writeRun (slots : Nat → α) (start : Nat) (values : Nat → α) (count : Nat) : Nat → α :=
  fun slot => if start ≤ slot ∧ slot < start + count then values (slot - start) else slots slot

theorem mod_cases {x capacity : Nat} (below : x < 2 * capacity) :
    (x < capacity ∧ x % capacity = x) ∨ (capacity ≤ x ∧ x % capacity = x - capacity) := by
  by_cases small : x < capacity
  · exact .inl ⟨small, Nat.mod_eq_of_lt small⟩
  · refine .inr ⟨Nat.le_of_not_lt small, ?_⟩
    rw [Nat.mod_eq_sub_mod (Nat.le_of_not_lt small), Nat.mod_eq_of_lt (by omega)]

theorem wrap_eq_mod {x capacity : Nat} (below : x < 2 * capacity) :
    (if x ≥ capacity then x - capacity else x) = x % capacity := by
  rcases mod_cases below with ⟨small, reduced⟩ | ⟨large, reduced⟩
  · rw [if_neg (by omega), reduced]
  · rw [if_pos large, reduced]

theorem distance_mod {start gap capacity : Nat} (startBelow : start < capacity) (small : gap < capacity) :
    ((start + gap) % capacity + capacity - start) % capacity = gap := by
  rcases mod_cases (show start + gap < 2 * capacity by omega) with ⟨_, noWrap⟩ | ⟨_, wrap⟩
  · rw [noWrap, show start + gap + capacity - start = gap + capacity by omega, Nat.add_mod_right,
      Nat.mod_eq_of_lt small]
  · rw [wrap, show start + gap - capacity + capacity - start = gap by omega, Nat.mod_eq_of_lt small]

theorem room_mod {start gap capacity : Nat} (startBelow : start < capacity) (small : gap < capacity) :
    (start + capacity - (start + gap) % capacity - 1) % capacity = capacity - 1 - gap := by
  rcases mod_cases (show start + gap < 2 * capacity by omega) with ⟨_, noWrap⟩ | ⟨_, wrap⟩
  · rw [noWrap, Nat.mod_eq_of_lt (by omega)]
    omega
  · rw [wrap, show start + capacity - (start + gap - capacity) - 1 = capacity - 1 - gap + capacity by omega,
      Nat.add_mod_right, Nat.mod_eq_of_lt (by omega)]

variable {slots : Nat → α} {capacity start count : Nat}

@[simp] theorem length_window : (window slots capacity start count).length = count := by
  simp [window]

theorem window_add (slots : Nat → α) (capacity start first second : Nat) :
    window slots capacity start (first + second) =
      window slots capacity start first ++ window slots capacity (start + first) second := by
  simp [window, List.range_add, Nat.add_assoc]

theorem window_succ (slots : Nat → α) (capacity start count : Nat) :
    window slots capacity start (count + 1) =
      slots (start % capacity) :: window slots capacity (start + 1) count := by
  rw [Nat.add_comm count 1, window_add]
  simp [window]

theorem window_mod_start (slots : Nat → α) (capacity start count : Nat) :
    window slots capacity (start % capacity) count = window slots capacity start count := by
  simp [window, Nat.mod_add_mod]

theorem take_window {taken : Nat} (within : taken ≤ count) :
    (window slots capacity start count).take taken = window slots capacity start taken := by
  rw [show count = taken + (count - taken) by omega, window_add]
  exact List.take_left' (length_window)

theorem drop_window {dropped : Nat} (within : dropped ≤ count) :
    (window slots capacity start count).drop dropped =
      window slots capacity (start + dropped) (count - dropped) := by
  rw [show count = dropped + (count - dropped) by omega, window_add, Nat.add_sub_cancel_left]
  exact List.drop_left' (length_window)

theorem window_eq_map {values : Nat → α}
    (holds : ∀ offset < count, slots ((start + offset) % capacity) = values offset) :
    window slots capacity start count = (List.range count).map values :=
  List.map_congr_left fun offset member => holds offset (List.mem_range.mp member)

theorem window_congr {other : Nat → α}
    (agree : ∀ offset < count,
      slots ((start + offset) % capacity) = other ((start + offset) % capacity)) :
    window slots capacity start count = window other capacity start count :=
  window_eq_map agree

theorem window_eq_run (fits : start % capacity + count ≤ capacity) :
    window slots capacity start count = (List.range count).map fun offset => slots (start % capacity + offset) := by
  apply window_eq_map
  intro offset inside
  rw [Nat.add_mod, Nat.mod_eq_of_lt (show offset < capacity by omega), Nat.mod_eq_of_lt (by omega)]

theorem writeRun_inside {runStart slot : Nat} {values : Nat → α} {runCount : Nat}
    (above : runStart ≤ slot) (below : slot < runStart + runCount) :
    writeRun slots runStart values runCount slot = values (slot - runStart) := by
  simp [writeRun, above, below]

theorem writeRun_outside {runStart slot : Nat} {values : Nat → α} {runCount : Nat}
    (outside : slot < runStart ∨ runStart + runCount ≤ slot) :
    writeRun slots runStart values runCount slot = slots slot := by
  unfold writeRun
  rw [if_neg (by omega)]

theorem getElem_window {offset : Nat} (inside : offset < (window slots capacity start count).length) :
    (window slots capacity start count)[offset] = slots ((start + offset) % capacity) := by
  simp [window]

theorem mod_ne_of_lt {capacity first second : Nat} (base : Nat) (before : first < second)
    (within : second < first + capacity) :
    (base + first) % capacity ≠ (base + second) % capacity := by
  intro same
  have apart : (base + second - (base + first)) % capacity = 0 :=
    Nat.sub_mod_eq_zero_of_mod_eq same.symm
  rw [Nat.add_sub_add_left, Nat.mod_eq_of_lt (by omega)] at apart
  omega

theorem window_update_beyond {gap : Nat} (value : α) (after : count ≤ gap) (within : gap < capacity) :
    window (Function.update slots ((start + gap) % capacity) value) capacity start count =
      window slots capacity start count := by
  apply window_congr
  intro offset inside
  rw [Function.update_of_ne (mod_ne_of_lt start (by omega) (by omega))]

/-- `after` holds `values 0, …, count - 1` in the slots from `start` on, around
the circular array, and agrees with `before` on its other slots. -/
def WritesAround (before after : Nat → α) (capacity start : Nat) (values : Nat → α) (count : Nat) :
    Prop :=
  (∀ offset < count, after ((start + offset) % capacity) = values offset) ∧
    ∀ slot < capacity, (∀ offset < count, (start + offset) % capacity ≠ slot) → after slot = before slot

section WritesAround

variable {before middle after : Nat → α} {values : Nat → α}

theorem writesAround_zero : WritesAround before before capacity start values 0 :=
  ⟨fun _ none => absurd none (Nat.not_lt_zero _), fun _ _ _ => rfl⟩

theorem writesAround_update (values : Nat → α) :
    WritesAround before (Function.update before (start % capacity) (values 0)) capacity start values 1 := by
  refine ⟨fun offset inside => ?_, fun slot _ untouched => ?_⟩
  · rw [Nat.lt_one_iff.mp inside, Nat.add_zero, Function.update_self]
  · apply Function.update_of_ne
    intro same
    apply untouched 0 Nat.one_pos
    rw [Nat.add_zero, same]

theorem writesAround_writeRun (positive : 0 < capacity) (fits : start % capacity + count ≤ capacity) :
    WritesAround before (writeRun before (start % capacity) values count) capacity start values count := by
  have startBelow := Nat.mod_lt start positive
  refine ⟨fun offset inside => ?_, fun slot slotBelow untouched => ?_⟩
  · have slotIs : (start + offset) % capacity = start % capacity + offset := by
      rw [Nat.add_mod, Nat.mod_eq_of_lt (show offset < capacity by omega), Nat.mod_eq_of_lt (by omega)]
    rw [slotIs, writeRun_inside (by omega) (by omega), Nat.add_sub_cancel_left]
  · apply writeRun_outside
    by_contra inRun
    have offsetBelow : slot - start % capacity < count := by omega
    apply untouched (slot - start % capacity) offsetBelow
    rw [Nat.add_mod, Nat.mod_eq_of_lt (show slot - start % capacity < capacity by omega),
      Nat.mod_eq_of_lt (by omega)]
    omega

theorem writesAround_writeRun_of_lt (startBelow : start < capacity) (fits : start + count ≤ capacity) :
    WritesAround before (writeRun before start values count) capacity start values count := by
  have run : WritesAround before (writeRun before (start % capacity) values count) capacity start
      values count := writesAround_writeRun (by omega) (by rw [Nat.mod_eq_of_lt startBelow]; exact fits)
  rwa [Nat.mod_eq_of_lt startBelow] at run

theorem WritesAround.trans {first second : Nat}
    (writesFirst : WritesAround before middle capacity start values first)
    (writesSecond : WritesAround middle after capacity (start + first)
      (fun offset => values (first + offset)) second)
    (fits : first + second ≤ capacity) :
    WritesAround before after capacity start values (first + second) := by
  refine ⟨fun offset inside => ?_, fun slot slotBelow untouched => ?_⟩
  · by_cases early : offset < first
    · rw [writesSecond.2 _ (Nat.mod_lt _ (by omega)) fun later laterBelow same => by
        have same' : (start + offset) % capacity = (start + (first + later)) % capacity := by
          rw [← same, Nat.add_assoc]
        exact mod_ne_of_lt start (show offset < first + later by omega)
          (show first + later < offset + capacity by omega) same']
      exact writesFirst.1 offset early
    · have shifted : after ((start + first + (offset - first)) % capacity) =
          values (first + (offset - first)) := writesSecond.1 (offset - first) (by omega)
      rw [Nat.add_assoc, Nat.add_sub_cancel' (by omega)] at shifted
      exact shifted
  · rw [writesSecond.2 slot slotBelow fun later laterBelow same =>
      untouched (first + later) (by omega) (by rw [← Nat.add_assoc]; exact same)]
    exact writesFirst.2 slot slotBelow fun earlier earlierBelow =>
      untouched earlier (by omega)

theorem writesAround_mod_start {count : Nat} :
    WritesAround before after capacity (start % capacity) values count ↔
      WritesAround before after capacity start values count := by
  simp only [WritesAround, Nat.mod_add_mod]

theorem window_of_writesAround {count added dropped : Nat}
    (writes : WritesAround before after capacity (start + count) values added)
    (dropLe : dropped ≤ count + added) (fits : count + added - dropped ≤ capacity) :
    window after capacity (start + dropped) (count + added - dropped) =
      (window before capacity start count ++ (List.range added).map values).drop dropped := by
  apply List.ext_getElem (by simp)
  intro offset inside _
  simp only [length_window] at inside
  rw [getElem_window, List.getElem_drop]
  by_cases early : dropped + offset < count
  · rw [List.getElem_append_left (by simpa using early), getElem_window, ← Nat.add_assoc]
    apply writes.2 _ (Nat.mod_lt _ (by omega))
    intro later laterBelow same
    have same' : (start + (dropped + offset)) % capacity = (start + (count + later)) % capacity := by
      rw [← Nat.add_assoc, ← same, Nat.add_assoc]
    exact mod_ne_of_lt start (show dropped + offset < count + later by omega)
      (show count + later < dropped + offset + capacity by omega) same'
  · rw [List.getElem_append_right (by simpa using early)]
    simp only [length_window, List.getElem_map, List.getElem_range]
    have written := writes.1 (dropped + offset - count) (by omega)
    rw [Nat.add_assoc, Nat.add_sub_cancel' (by omega)] at written
    rw [← Nat.add_assoc] at written
    exact written

end WritesAround

end NvidiaGpu.Window
