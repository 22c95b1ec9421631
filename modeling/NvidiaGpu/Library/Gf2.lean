import Mathlib.Algebra.Polynomial.RingDivision
import Mathlib.Algebra.CharP.Two
import Mathlib.Algebra.Field.ZMod
import Mathlib.Tactic.LinearCombination

set_option autoImplicit false

/-! Polynomials over GF(2) and the bit strings that encode them.  A natural
number is the polynomial whose coefficient of `X^i` is its bit `i`; a message is
a list of bits, its first bit the highest power.

Long division by a monic `P` of degree `k` can be done one coefficient at a
time, as a CRC register does it: shift the next coefficient in and subtract `P`
when the degree reaches `k`.  The remainder of a message times `X^k` then has
the properties a check code is chosen for: the message followed by it divides
by `P`, and, when `P` is prime to `X`, a change of one bit always shows. -/

namespace NvidiaGpu.Gf2

open Polynomial

noncomputable section

def bitCoeff (b : Bool) : ZMod 2 := if b then 1 else 0

private theorem bitCoeff_support (n i : Nat) (nonzero : bitCoeff (n.testBit i) ≠ 0) :
    i ∈ Finset.range (n.log2 + 1) := by
  apply Finset.mem_range.mpr
  by_contra above
  have small : n < 2 ^ i :=
    Nat.lt_of_lt_of_le Nat.lt_log2_self (Nat.pow_le_pow_right (by decide) (Nat.le_of_not_gt above))
  simp [bitCoeff, Nat.testBit_lt_two_pow small] at nonzero

def decode (n : Nat) : (ZMod 2)[X] :=
  .ofFinsupp (.ofCoeff (Finsupp.onFinset (Finset.range (n.log2 + 1))
    (fun i => bitCoeff (n.testBit i)) (bitCoeff_support n)))

@[simp] theorem coeff_decode (n i : Nat) : (decode n).coeff i = bitCoeff (n.testBit i) := rfl

theorem bitCoeff_injective : Function.Injective bitCoeff := by decide

theorem decode_injective : Function.Injective decode := by
  intro a b same
  apply Nat.eq_of_testBit_eq
  intro i
  apply bitCoeff_injective
  simpa only [coeff_decode] using congrArg (fun p : (ZMod 2)[X] => p.coeff i) same

theorem degree_decode_lt {n k : Nat} (below : n < 2 ^ k) : (decode n).degree < k := by
  rw [degree_lt_iff_coeff_zero]
  intro m above
  have clear : n.testBit m = false :=
    Nat.testBit_lt_two_pow (Nat.lt_of_lt_of_le below (Nat.pow_le_pow_right (by decide) above))
  simp [clear, bitCoeff]

@[simp] theorem decode_zero : decode 0 = 0 := by
  ext i
  simp [bitCoeff]

theorem bitCoeff_xor (a b : Bool) : bitCoeff (a ^^ b) = bitCoeff a + bitCoeff b := by
  cases a <;> cases b <;> decide

theorem decode_xor_mod (m n k : Nat) : decode ((m ^^^ n) % 2 ^ k) = decode (m % 2 ^ k) + decode (n % 2 ^ k) := by
  ext i
  simp only [coeff_add, coeff_decode, Nat.testBit_mod_two_pow, Nat.testBit_xor]
  by_cases below : i < k
  · simp [below, bitCoeff_xor]
  · simp [below, bitCoeff]

theorem decode_mod_two_pow_succ (n k : Nat) :
    decode (n % 2 ^ (k + 1)) = decode (n % 2 ^ k) + C (bitCoeff (n.testBit k)) * X ^ k := by
  ext i
  simp only [coeff_add, coeff_decode, coeff_C_mul_X_pow, Nat.testBit_mod_two_pow]
  by_cases top : i = k
  · subst top
    simp [bitCoeff]
  · by_cases below : i < k
    · simp [top, below, show i < k + 1 by omega]
    · simp [top, below, show ¬i < k + 1 by omega, bitCoeff]

theorem eq_zero_or_eq_one (c : ZMod 2) : c = 0 ∨ c = 1 := by
  revert c
  decide

/-! ## Messages -/

def shiftIn (p : (ZMod 2)[X]) (bit : Nat) : (ZMod 2)[X] := X * p + C (bit : ZMod 2)

def messagePoly (bits : List Nat) : (ZMod 2)[X] :=
  bits.foldl shiftIn 0

theorem foldl_shiftIn (bits : List Nat) (p : (ZMod 2)[X]) :
    bits.foldl shiftIn p = p * X ^ bits.length + messagePoly bits := by
  induction bits generalizing p with
  | nil => simp [messagePoly]
  | cons bit bits ih =>
      have unfolded : messagePoly (bit :: bits) = bits.foldl shiftIn (shiftIn 0 bit) := rfl
      rw [List.foldl_cons, ih, unfolded, ih]
      simp only [shiftIn, List.length_cons, pow_succ]
      ring

theorem messagePoly_append (front back : List Nat) :
    messagePoly (front ++ back) = messagePoly front * X ^ back.length + messagePoly back := by
  rw [messagePoly, List.foldl_append, ← messagePoly, foldl_shiftIn]

theorem messagePoly_singleton (bit : Nat) : messagePoly [bit] = C (bit : ZMod 2) := by
  simp [messagePoly, shiftIn]

theorem messagePoly_replicate_zero (bits : List Nat) (k : Nat) :
    messagePoly (bits ++ List.replicate k 0) = messagePoly bits * X ^ k := by
  have zeros : messagePoly (List.replicate k 0) = 0 := by
    induction k with
    | zero => rfl
    | succ k ih =>
        rw [List.replicate_succ', messagePoly_append, ih]
        simp [messagePoly, shiftIn]
  rw [messagePoly_append, zeros, List.length_replicate, add_zero]

theorem messagePoly_flip (front back : List Nat) {a a' : Nat} (bit : a < 2) (bit' : a' < 2) (flipped : a ≠ a') :
    messagePoly (front ++ a' :: back) = messagePoly (front ++ a :: back) + X ^ back.length := by
  have other : (a' : ZMod 2) = a + 1 := by
    obtain rfl | rfl : a = 0 ∨ a = 1 := by omega
    · obtain rfl : a' = 1 := by omega
      decide
    · obtain rfl : a' = 0 := by omega
      decide
  have split : ∀ x, x :: back = [x] ++ back := fun _ => rfl
  rw [split, split, ← List.append_assoc, ← List.append_assoc, messagePoly_append, messagePoly_append (front ++ [a]),
    messagePoly_append, messagePoly_append front, messagePoly_singleton, messagePoly_singleton, other, C_add, C_1]
  simp only [List.length_singleton]
  ring

def bitsOf : Nat → Nat → List Nat
  | 0, _ => []
  | k + 1, c => (c.testBit k).toNat :: bitsOf k c

theorem length_bitsOf (k c : Nat) : (bitsOf k c).length = k := by
  induction k with
  | zero => rfl
  | succ k ih => simp [bitsOf, ih]

theorem messagePoly_bitsOf (k c : Nat) : messagePoly (bitsOf k c) = decode (c % 2 ^ k) := by
  induction k with
  | zero => simp [bitsOf, messagePoly, Nat.mod_one]
  | succ k ih =>
      rw [bitsOf, show (c.testBit k).toNat :: bitsOf k c = [(c.testBit k).toNat] ++ bitsOf k c from rfl,
        messagePoly_append, ih, length_bitsOf, messagePoly_singleton]
      ext i
      simp only [coeff_add, coeff_C_mul_X_pow, coeff_decode, Nat.testBit_mod_two_pow]
      by_cases top : i = k
      · subst top
        cases c.testBit i <;> simp [bitCoeff]
      · by_cases below : i < k
        · simp [top, below, show i < k + 1 by omega]
        · simp [top, below, show ¬i < k + 1 by omega, bitCoeff]

theorem decode_eq_messagePoly {n k : Nat} (below : n < 2 ^ k) : decode n = messagePoly (bitsOf k n) := by
  rw [messagePoly_bitsOf, Nat.mod_eq_of_lt below]

/-! ## Generators -/

/-- The generator of degree `k` whose lower coefficients are the bits of `c`:
the top coefficient is left implicit, as CRC code writes its polynomials. -/
def generator (k c : Nat) : (ZMod 2)[X] := X ^ k + decode (c % 2 ^ k)

theorem degree_decode_mod_lt (k c : Nat) : (decode (c % 2 ^ k)).degree < k :=
  degree_decode_lt (Nat.mod_lt c (Nat.two_pow_pos k))

theorem generator_monic (k c : Nat) : (generator k c).Monic :=
  monic_X_pow_add (degree_decode_mod_lt k c)

theorem natDegree_generator (k c : Nat) : (generator k c).natDegree = k := by
  rw [generator, natDegree_add_eq_left_of_degree_lt, natDegree_X_pow]
  rw [degree_X_pow]
  exact degree_decode_mod_lt k c

theorem coeff_zero_generator {k : Nat} (positive : 0 < k) (c : Nat) :
    (generator k c).coeff 0 = bitCoeff (c.testBit 0) := by
  simp [generator, coeff_X_pow, Nat.ne_of_lt positive, positive]

/-! ## Long division, a coefficient at a time -/

/-- One step of long division by `P`, of degree `k`: the next coefficient
shifted in, and `P` subtracted when the degree reaches `k`. -/
def divStep (P : (ZMod 2)[X]) (k : Nat) (r : (ZMod 2)[X]) (c : ZMod 2) : (ZMod 2)[X] :=
  if (X * r + C c).coeff k = 1 then X * r + C c + P else X * r + C c

section Division

variable {P : (ZMod 2)[X]} {k : Nat}

theorem modByMonic_eq_of_dvd (monic : P.Monic) {f s : (ZMod 2)[X]} (dvd : P ∣ f - s) (low : s.degree < P.degree) :
    f %ₘ P = s := by
  have split : f = s + (f - s) := by ring
  rw [split, add_modByMonic, (modByMonic_eq_zero_iff_dvd monic).mpr dvd, add_zero,
    (modByMonic_eq_self_iff monic).mpr low]

theorem divStep_modByMonic (monic : P.Monic) (degree : P.natDegree = k) (positive : 0 < k)
    (f : (ZMod 2)[X]) (c : ZMod 2) :
    divStep P k (f %ₘ P) c = (X * f + C c) %ₘ P := by
  have lowRemainder : (f %ₘ P).degree < k := by
    have := degree_modByMonic_lt f monic
    rwa [degree_eq_natDegree monic.ne_zero, degree] at this
  have coeffAbove : ∀ m, k < m → (X * (f %ₘ P) + C c).coeff m = 0 := by
    intro m above
    obtain ⟨m, rfl⟩ : ∃ m', m = m' + 1 := ⟨m - 1, by omega⟩
    rw [coeff_add, coeff_X_mul, coeff_C, if_neg (by omega), add_zero]
    exact coeff_eq_zero_of_degree_lt (lt_of_lt_of_le lowRemainder (by exact_mod_cast (by omega : k ≤ m)))
  have coeffP : ∀ m, k ≤ m → P.coeff m = if m = k then 1 else 0 := by
    intro m above
    by_cases top : m = k
    · rw [if_pos top, top, ← degree]
      exact monic
    · rw [if_neg top]
      exact coeff_eq_zero_of_natDegree_lt (by omega)
  have lowP : P.degree = k := by rw [degree_eq_natDegree monic.ne_zero, degree]
  have shifted : P ∣ (X * f + C c) - (X * (f %ₘ P) + C c) := by
    refine ⟨X * (f /ₘ P), ?_⟩
    have := modByMonic_add_div f P
    linear_combination (-X) * this
  unfold divStep
  split_ifs with top
  · apply (modByMonic_eq_of_dvd monic _ _).symm
    · have sub : (X * f + C c) - (X * (f %ₘ P) + C c + P) = (X * f + C c) - (X * (f %ₘ P) + C c) - P := by ring
      rw [sub]
      exact dvd_sub shifted dvd_rfl
    · rw [lowP, degree_lt_iff_coeff_zero]
      intro m above
      rw [coeff_add, coeffP m above]
      by_cases at_k : m = k
      · rw [at_k, top, if_pos rfl]
        exact CharTwo.add_self_eq_zero 1
      · rw [coeffAbove m (by omega), if_neg at_k, add_zero]
  · apply (modByMonic_eq_of_dvd monic shifted _).symm
    rw [lowP, degree_lt_iff_coeff_zero]
    intro m above
    by_cases at_k : m = k
    · rw [at_k]
      exact (eq_zero_or_eq_one _).resolve_right top
    · exact coeffAbove m (by omega)

theorem foldl_divStep (monic : P.Monic) (degree : P.natDegree = k) (positive : 0 < k) (bits : List Nat)
    (f : (ZMod 2)[X]) :
    bits.foldl (fun r (bit : Nat) => divStep P k r (bit : ZMod 2)) (f %ₘ P) = (bits.foldl shiftIn f) %ₘ P := by
  induction bits generalizing f with
  | nil => rfl
  | cons bit bits ih =>
      rw [List.foldl_cons, List.foldl_cons, divStep_modByMonic monic degree positive, ih, shiftIn]

theorem modByMonic_append_remainder (monic : P.Monic) (bits : List Nat) {c : Nat}
    (remainder : decode (c % 2 ^ k) = (messagePoly bits * X ^ k) %ₘ P) :
    messagePoly (bits ++ bitsOf k c) %ₘ P = 0 ∧ (messagePoly (bits ++ bitsOf k c) * X ^ k) %ₘ P = 0 := by
  have reduced : ((messagePoly bits * X ^ k) %ₘ P) %ₘ P = (messagePoly bits * X ^ k) %ₘ P :=
    (modByMonic_eq_self_iff monic).mpr (degree_modByMonic_lt _ monic)
  have zero : messagePoly (bits ++ bitsOf k c) %ₘ P = 0 := by
    rw [messagePoly_append, length_bitsOf, messagePoly_bitsOf, remainder, add_modByMonic, reduced]
    exact CharTwo.add_self_eq_zero _
  refine ⟨zero, ?_⟩
  rw [mul_modByMonic, zero, zero_mul, zero_modByMonic]

theorem pow_modByMonic_ne_zero (monic : P.Monic) (positive : 0 < P.natDegree) (coprime : P.coeff 0 ≠ 0) (m : Nat) :
    (X ^ m : (ZMod 2)[X]) %ₘ P ≠ 0 := by
  rw [Ne, modByMonic_eq_zero_iff_dvd monic]
  intro dvd
  obtain ⟨i, -, associated⟩ := (dvd_prime_pow prime_X m).mp dvd
  have same : P = X ^ i := eq_of_monic_of_associated monic (monic_X_pow i) associated
  rcases Nat.eq_zero_or_pos i with zero | above
  · rw [same, zero, pow_zero, natDegree_one] at positive
    exact absurd positive (Nat.lt_irrefl 0)
  · rw [same, coeff_X_pow, if_neg (by omega)] at coprime
    exact coprime rfl

end Division

end

end NvidiaGpu.Gf2
