import Mathlib.Order.Nat

set_option autoImplicit false

/-! Runs of `true` among the first `n` positions of a sequence `f`, and the scan
that measures them in one pass, keeping the run that ends at the current
position and the longest run so far.

The scan of `n + k` positions is the scan of the last `k` from where the first
`n` left it, and a whole block moves the scan by the block's leading, trailing
and longest runs alone.  That is what lets a count made a word at a time agree
with one made a position at a time. -/

namespace NvidiaGpu.Runs

def RunAt (f : Nat → Bool) (start len : Nat) : Prop :=
  ∀ t < len, f (start + t) = true

/-- `len` is the length of the longest run of `true` among the first `n`
positions of `f`. -/
structure IsLongest (f : Nat → Bool) (n len : Nat) : Prop where
  attained : ∃ start, start + len ≤ n ∧ RunAt f start len
  maximal : ∀ start m, start + m ≤ n → RunAt f start m → m ≤ len

def runStep (state : Nat × Nat) (bit : Bool) : Nat × Nat :=
  if bit then (state.1 + 1, max state.2 (state.1 + 1)) else (0, state.2)

def runScan (f : Nat → Bool) (state : Nat × Nat) : Nat → Nat × Nat
  | 0 => state
  | n + 1 => runStep (runScan f state n) (f n)

def trailingRun (f : Nat → Bool) (n : Nat) : Nat :=
  (runScan f (0, 0) n).1

def longestRun (f : Nat → Bool) (n : Nat) : Nat :=
  (runScan f (0, 0) n).2

def leadingRun (f : Nat → Bool) : Nat → Nat
  | 0 => 0
  | n + 1 => if leadingRun f n = n ∧ f n = true then n + 1 else leadingRun f n

section Scan

variable {f : Nat → Bool}

theorem runScan_succ (state : Nat × Nat) (n : Nat) :
    runScan f state (n + 1) = runStep (runScan f state n) (f n) := rfl

theorem runScan_add (state : Nat × Nat) (n k : Nat) :
    runScan f state (n + k) = runScan (fun i => f (n + i)) (runScan f state n) k := by
  induction k with
  | zero => rfl
  | succ k ih => rw [← Nat.add_assoc, runScan_succ, ih, runScan_succ]

theorem trailingRun_succ (n : Nat) :
    trailingRun f (n + 1) = if f n = true then trailingRun f n + 1 else 0 := by
  unfold trailingRun
  rw [runScan_succ, runStep]
  split <;> rfl

theorem longestRun_succ (n : Nat) :
    longestRun f (n + 1) = if f n = true then max (longestRun f n) (trailingRun f n + 1) else longestRun f n := by
  unfold longestRun trailingRun
  rw [runScan_succ, runStep]
  split <;> rfl

theorem trailingRun_spec (n : Nat) :
    trailingRun f n ≤ n ∧ RunAt f (n - trailingRun f n) (trailingRun f n) ∧
      (trailingRun f n < n → f (n - 1 - trailingRun f n) = false) := by
  induction n with
  | zero => exact ⟨le_refl 0, fun t below => absurd below (Nat.not_lt_zero t), fun below => absurd below (Nat.lt_irrefl 0)⟩
  | succ n ih =>
      obtain ⟨le, run, stop⟩ := ih
      rw [trailingRun_succ]
      cases bit : f n
      · simp only [Bool.false_eq_true, if_false]
        refine ⟨Nat.zero_le _, fun t below => absurd below (Nat.not_lt_zero t), fun _ => ?_⟩
        rw [Nat.add_sub_cancel, Nat.sub_zero, bit]
      · simp only [if_true]
        refine ⟨by omega, fun t below => ?_, fun below => ?_⟩
        · by_cases last : t = trailingRun f n
          · rw [show n + 1 - (trailingRun f n + 1) + t = n by omega, bit]
          · rw [show n + 1 - (trailingRun f n + 1) + t = n - trailingRun f n + t by omega]
            exact run t (by omega)
        · rw [show n + 1 - 1 - (trailingRun f n + 1) = n - 1 - trailingRun f n by omega]
          exact stop (by omega)

theorem trailingRun_eq {n k : Nat} (le : k ≤ n) (run : RunAt f (n - k) k) (stop : k < n → f (n - 1 - k) = false) :
    trailingRun f n = k := by
  obtain ⟨le', run', stop'⟩ := trailingRun_spec (f := f) n
  rcases Nat.lt_trichotomy (trailingRun f n) k with shorter | same | longer
  · have inside := run (k - 1 - trailingRun f n) (by omega)
    rw [show n - k + (k - 1 - trailingRun f n) = n - 1 - trailingRun f n by omega, stop' (by omega)] at inside
    exact absurd inside Bool.false_ne_true
  · exact same
  · have inside := run' (trailingRun f n - 1 - k) (by omega)
    rw [show n - trailingRun f n + (trailingRun f n - 1 - k) = n - 1 - k by omega, stop (by omega)] at inside
    exact absurd inside Bool.false_ne_true

theorem leadingRun_succ (n : Nat) :
    leadingRun f (n + 1) = if leadingRun f n = n ∧ f n = true then n + 1 else leadingRun f n := rfl

theorem leadingRun_spec (n : Nat) :
    leadingRun f n ≤ n ∧ RunAt f 0 (leadingRun f n) ∧ (leadingRun f n < n → f (leadingRun f n) = false) := by
  induction n with
  | zero => exact ⟨le_refl 0, fun t below => absurd below (Nat.not_lt_zero t), fun below => absurd below (Nat.lt_irrefl 0)⟩
  | succ n ih =>
      obtain ⟨le, run, stop⟩ := ih
      rw [leadingRun_succ]
      by_cases full : leadingRun f n = n ∧ f n = true
      · rw [if_pos full]
        refine ⟨le_refl _, fun t below => ?_, fun below => absurd below (Nat.lt_irrefl _)⟩
        by_cases last : t = n
        · rw [Nat.zero_add, last]
          exact full.2
        · exact run t (by omega)
      · rw [if_neg full]
        refine ⟨by omega, run, fun below => ?_⟩
        by_cases short : leadingRun f n < n
        · exact stop short
        · have reached : leadingRun f n = n := by omega
          rw [reached]
          simpa [reached] using full

theorem leadingRun_eq {n k : Nat} (le : k ≤ n) (run : RunAt f 0 k) (stop : k < n → f k = false) :
    leadingRun f n = k := by
  obtain ⟨le', run', stop'⟩ := leadingRun_spec (f := f) n
  rcases Nat.lt_trichotomy (leadingRun f n) k with shorter | same | longer
  · have inside := run (leadingRun f n) shorter
    rw [Nat.zero_add, stop' (by omega)] at inside
    exact absurd inside Bool.false_ne_true
  · exact same
  · have inside := run' k longer
    rw [Nat.zero_add, stop (by omega)] at inside
    exact absurd inside Bool.false_ne_true

theorem leadingRun_eq_self_iff (n : Nat) : leadingRun f n = n ↔ RunAt f 0 n := by
  constructor
  · intro full
    exact full ▸ (leadingRun_spec n).2.1
  · intro run
    exact leadingRun_eq (le_refl n) run (fun below => absurd below (Nat.lt_irrefl n))

theorem isLongest_longestRun (n : Nat) : IsLongest f n (longestRun f n) := by
  induction n with
  | zero =>
      refine ⟨⟨0, le_refl 0, fun t below => absurd below (Nat.not_lt_zero t)⟩, fun start m fits _ => ?_⟩
      show m ≤ 0
      omega
  | succ n ih =>
      obtain ⟨⟨start, fits, run⟩, maximal⟩ := ih
      obtain ⟨trailingLe, trailing, stop⟩ := trailingRun_spec (f := f) n
      rw [longestRun_succ]
      cases bit : f n
      · simp only [Bool.false_eq_true, if_false]
        refine ⟨⟨start, by omega, run⟩, fun start' m fits' run' => ?_⟩
        rcases Nat.eq_zero_or_pos m with empty | positive
        · exact empty ▸ Nat.zero_le _
        by_cases inside : start' + m ≤ n
        · exact maximal start' m inside run'
        · have last := run' (m - 1) (by omega)
          rw [show start' + (m - 1) = n by omega, bit] at last
          exact absurd last Bool.false_ne_true
      · simp only [if_true]
        refine ⟨?_, fun start' m fits' run' => ?_⟩
        · by_cases longer : longestRun f n ≤ trailingRun f n + 1
          · rw [max_eq_right longer]
            refine ⟨n - trailingRun f n, by omega, fun t below => ?_⟩
            by_cases last : t = trailingRun f n
            · rw [show n - trailingRun f n + t = n by omega, bit]
            · exact trailing t (by omega)
          · rw [max_eq_left (by omega)]
            exact ⟨start, by omega, run⟩
        · by_cases inside : start' + m ≤ n
          · exact Nat.le_trans (maximal start' m inside run') (Nat.le_max_left _ _)
          · apply Nat.le_trans _ (Nat.le_max_right _ _)
            by_contra long
            have before := run' (n - 1 - trailingRun f n - start') (by omega)
            rw [show start' + (n - 1 - trailingRun f n - start') = n - 1 - trailingRun f n by omega,
              stop (by omega)] at before
            exact absurd before Bool.false_ne_true

theorem IsLongest.unique {n len len' : Nat} (long : IsLongest f n len) (long' : IsLongest f n len') :
    len = len' := by
  obtain ⟨start, fits, run⟩ := long.attained
  obtain ⟨start', fits', run'⟩ := long'.attained
  exact Nat.le_antisymm (long'.maximal start len fits run) (long.maximal start' len' fits' run')

theorem longestRun_le (n : Nat) : longestRun f n ≤ n := by
  obtain ⟨start, fits, -⟩ := (isLongest_longestRun (f := f) n).attained
  omega

theorem longestRun_eq_self_iff (n : Nat) : longestRun f n = n ↔ RunAt f 0 n := by
  constructor
  · intro full
    obtain ⟨start, fits, run⟩ := (isLongest_longestRun (f := f) n).attained
    rw [full] at fits run
    rwa [show start = 0 by omega] at run
  · intro run
    exact (isLongest_longestRun n).unique ⟨⟨0, by omega, run⟩, fun start m fits _ => by omega⟩

theorem longestRun_mono {n n' : Nat} (le : n ≤ n') : longestRun f n ≤ longestRun f n' := by
  obtain ⟨start, fits, run⟩ := (isLongest_longestRun (f := f) n).attained
  exact (isLongest_longestRun n').maximal start _ (by omega) run

theorem trailingRun_le_longestRun (n : Nat) : trailingRun f n ≤ longestRun f n := by
  obtain ⟨le, run, -⟩ := trailingRun_spec (f := f) n
  exact (isLongest_longestRun n).maximal _ _ (by omega) run

theorem runScan_block {state : Nat × Nat} (le : state.1 ≤ state.2) (n : Nat) :
    runScan f state n =
      if leadingRun f n = n then (state.1 + n, max state.2 (state.1 + n))
      else (trailingRun f n, max state.2 (max (state.1 + leadingRun f n) (longestRun f n))) := by
  induction n with
  | zero =>
      simp only [runScan, leadingRun, if_true, Nat.add_zero, max_eq_left le]
  | succ n ih =>
      have leadLe := (leadingRun_spec (f := f) n).1
      have longLe := longestRun_le (f := f) n
      rw [runScan_succ, ih, leadingRun_succ, trailingRun_succ, longestRun_succ]
      by_cases full : leadingRun f n = n
      · cases bit : f n
        · simp only [full, if_true, runStep, Bool.false_eq_true, and_false, if_false,
            show n ≠ n + 1 by omega, Prod.mk.injEq, true_and]
          omega
        · simp only [full, if_true, runStep, and_self, Prod.mk.injEq]
          omega
      · have notFull : leadingRun f n ≠ n + 1 := by omega
        cases bit : f n
        · simp only [full, notFull, if_false, runStep, Bool.false_eq_true, and_false]
        · simp only [full, notFull, if_false, if_true, runStep, false_and, Prod.mk.injEq, true_and]
          omega

theorem IsLongest.of_false_from {N n len : Nat} (long : IsLongest f N len) (le : n ≤ N)
    (used : ∀ i, n ≤ i → f i = false) : IsLongest f n len := by
  obtain ⟨start, fits, run⟩ := long.attained
  refine ⟨?_, fun start' m fits' run' => long.maximal start' m (by omega) run'⟩
  rcases Nat.eq_zero_or_pos len with empty | positive
  · exact ⟨0, by omega, fun t below => absurd below (by omega)⟩
  refine ⟨start, ?_, run⟩
  by_contra past
  have last := run (len - 1) (by omega)
  rw [used _ (by omega)] at last
  exact absurd last Bool.false_ne_true

end Scan

end NvidiaGpu.Runs
