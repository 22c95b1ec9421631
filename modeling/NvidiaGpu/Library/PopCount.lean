import Mathlib.Algebra.BigOperators.Group.Finset.Basic
import Mathlib.Algebra.Order.BigOperators.Group.Finset
import Mathlib.Data.Nat.Bitwise
import Mathlib.Data.UInt
import Mathlib.Tactic.Ring

set_option autoImplicit false

/-! The parallel population count of a 64-bit word, done inside the word:
neighbouring bits are added into 2-bit counts, those into 4-bit and then 8-bit
counts, and a multiplication by `0x0101010101010101` gathers the eight byte
counts into the top byte.

A word is read as the sum of its fields, lowest first (`packed`).  Each step of
the count is an identity between such sums, true because no field outgrows its
width, and the total of the fields is the number of set bits at every stage.
There is one lemma per step, on `UInt64`; a caller chains them. -/

namespace NvidiaGpu.PopCount

open Finset

/-- The number with `width`-bit fields `field 0, …, field (count - 1)`, lowest
first.  A field wider than `width` bits spills into the next; the lemmas say
when it does not. -/
def packed (width : Nat) : Nat → (Nat → Nat) → Nat
  | 0, _ => 0
  | count + 1, field => field 0 + 2 ^ width * packed width count (fun j => field (j + 1))

section Packed

variable {width : Nat}

private theorem two_pow_mul_succ (width count : Nat) : 2 ^ (width * (count + 1)) = 2 ^ width * 2 ^ (width * count) := by
  rw [Nat.mul_succ, Nat.pow_add, Nat.mul_comm]

theorem packed_congr {count : Nat} {field other : Nat → Nat} (same : ∀ j < count, field j = other j) :
    packed width count field = packed width count other := by
  induction count generalizing field other with
  | zero => rfl
  | succ count ih =>
      simp only [packed]
      rw [same 0 (Nat.zero_lt_succ count), ih fun j below => same (j + 1) (Nat.succ_lt_succ below)]

theorem packed_add (count : Nat) (field other : Nat → Nat) :
    packed width count field + packed width count other = packed width count (fun j => field j + other j) := by
  induction count generalizing field other with
  | zero => rfl
  | succ count ih =>
      simp only [packed]
      rw [← ih]
      ring

theorem packed_mul (factor count : Nat) (field : Nat → Nat) :
    factor * packed width count field = packed width count (fun j => factor * field j) := by
  induction count generalizing field with
  | zero => rfl
  | succ count ih =>
      simp only [packed]
      rw [← ih]
      ring

theorem packed_le {count : Nat} {field other : Nat → Nat} (le : ∀ j < count, other j ≤ field j) :
    packed width count other ≤ packed width count field := by
  induction count generalizing field other with
  | zero => exact Nat.le_refl 0
  | succ count ih =>
      simp only [packed]
      have low := le 0 (Nat.zero_lt_succ count)
      have high : packed width count (fun j => other (j + 1)) ≤ packed width count (fun j => field (j + 1)) :=
        ih fun j below => le (j + 1) (Nat.succ_lt_succ below)
      exact Nat.add_le_add low (Nat.mul_le_mul_left _ high)

theorem packed_sub {count : Nat} {field other : Nat → Nat} (le : ∀ j < count, other j ≤ field j) :
    packed width count field - packed width count other = packed width count (fun j => field j - other j) := by
  have sum : packed width count other + packed width count (fun j => field j - other j) =
      packed width count field := by
    rw [packed_add]
    exact packed_congr fun j below => Nat.add_sub_cancel' (le j below)
  omega

theorem packed_succ (count : Nat) (field : Nat → Nat) :
    packed width (count + 1) field = packed width count field + 2 ^ (width * count) * field count := by
  induction count generalizing field with
  | zero => simp [packed]
  | succ count ih =>
      rw [packed, ih, packed, Nat.mul_succ, Nat.pow_add]
      ring

theorem packed_lt {count : Nat} {field : Nat → Nat} (small : ∀ j < count, field j < 2 ^ width) :
    packed width count field < 2 ^ (width * count) := by
  induction count generalizing field with
  | zero => simp [packed]
  | succ count ih =>
      simp only [packed]
      have low := small 0 (Nat.zero_lt_succ count)
      have high : packed width count (fun j => field (j + 1)) < 2 ^ (width * count) :=
        ih fun j below => small (j + 1) (Nat.succ_lt_succ below)
      have room : 2 ^ width * (packed width count (fun j => field (j + 1)) + 1) ≤ 2 ^ (width * (count + 1)) := by
        rw [two_pow_mul_succ]
        exact Nat.mul_le_mul_left _ high
      rw [Nat.mul_succ] at room
      omega

theorem packed_div {count : Nat} {field : Nat → Nat} (low : field 0 < 2 ^ width) :
    packed width (count + 1) field / 2 ^ width = packed width count (fun j => field (j + 1)) := by
  rw [packed, Nat.add_mul_div_left _ _ (Nat.two_pow_pos width), Nat.div_eq_of_lt low, Nat.zero_add]

theorem packed_div_top {count : Nat} {field : Nat → Nat} (small : ∀ j < count, field j < 2 ^ width) :
    packed width (count + 1) field / 2 ^ (width * count) = field count := by
  rw [packed_succ, Nat.add_mul_div_left _ _ (Nat.two_pow_pos _), Nat.div_eq_of_lt (packed_lt small), Nat.zero_add]

theorem packed_pairs (count : Nat) (field : Nat → Nat) :
    packed width (2 * count) field =
      packed (2 * width) count (fun j => field (2 * j) + 2 ^ width * field (2 * j + 1)) := by
  induction count generalizing field with
  | zero => rfl
  | succ count ih =>
      have shape : 2 * (count + 1) = 2 * count + 1 + 1 := by omega
      rw [shape, packed, packed, ih, packed, Nat.two_mul width, Nat.pow_add]
      have next : ∀ j, 2 * j + 1 + 1 = 2 * (j + 1) := fun j => by omega
      simp only [next, Nat.mul_zero, Nat.zero_add]
      ring

private theorem testBit_packed_step (low high : Nat) {j : Nat} (small : low < 2 ^ width) :
    (low + 2 ^ width * high).testBit j = if j < width then low.testBit j else high.testBit (j - width) := by
  rw [Nat.add_comm, Nat.testBit_two_pow_mul_add _ small]

theorem packed_and {count : Nat} {field other : Nat → Nat} (fieldSmall : ∀ j < count, field j < 2 ^ width)
    (otherSmall : ∀ j < count, other j < 2 ^ width) :
    packed width count field &&& packed width count other = packed width count (fun j => field j &&& other j) := by
  induction count generalizing field other with
  | zero => simp [packed]
  | succ count ih =>
      simp only [packed]
      rw [← ih (fun j below => fieldSmall (j + 1) (Nat.succ_lt_succ below))
        (fun j below => otherSmall (j + 1) (Nat.succ_lt_succ below))]
      have low := fieldSmall 0 (Nat.zero_lt_succ count)
      have otherLow := otherSmall 0 (Nat.zero_lt_succ count)
      apply Nat.eq_of_testBit_eq
      intro j
      rw [Nat.testBit_land, testBit_packed_step _ _ low, testBit_packed_step _ _ otherLow,
        testBit_packed_step _ _ (Nat.and_lt_two_pow _ otherLow), Nat.testBit_land, Nat.testBit_land]
      split <;> rfl

theorem packed_and_low (count : Nat) {field : Nat → Nat} (small : ∀ j, field j < 2 ^ width) :
    packed width (2 * count) field &&& packed (2 * width) count (fun _ => 2 ^ width - 1) =
      packed (2 * width) count (fun j => field (2 * j)) := by
  have square : 2 ^ (2 * width) = 2 ^ width * 2 ^ width := by rw [Nat.two_mul, Nat.pow_add]
  have fits : ∀ j, field (2 * j) + 2 ^ width * field (2 * j + 1) < 2 ^ (2 * width) := fun j => by
    have high : 2 ^ width * field (2 * j + 1) + 2 ^ width ≤ 2 ^ (2 * width) := by
      rw [square, ← Nat.mul_succ]
      exact Nat.mul_le_mul_left _ (small (2 * j + 1))
    have := small (2 * j)
    omega
  have maskFits : 2 ^ width - 1 < 2 ^ (2 * width) := by
    have := Nat.pow_le_pow_right (show 0 < 2 by decide) (show width ≤ 2 * width by omega)
    have := Nat.two_pow_pos width
    omega
  rw [packed_pairs, packed_and (fun j _ => fits j) (fun _ _ => maskFits)]
  refine packed_congr fun j _ => ?_
  rw [Nat.and_two_pow_sub_one_eq_mod, Nat.add_mul_mod_self_left, Nat.mod_eq_of_lt (small (2 * j))]

theorem packed_testBit {count x : Nat} (small : x < 2 ^ count) :
    packed 1 count (fun i => (x.testBit i).toNat) = x := by
  induction count generalizing x with
  | zero => simp_all [packed]
  | succ count ih =>
      have half : x / 2 < 2 ^ count := by
        rw [Nat.pow_succ] at small
        omega
      simp only [packed, Nat.testBit_add_one, ih half, Nat.testBit_zero, Nat.pow_one]
      rcases Nat.mod_two_eq_zero_or_one x with even | odd
      · simp [even]
        omega
      · simp [odd]
        omega

theorem packed_mul_ones (width count : Nat) (field : Nat → Nat) :
    ∃ rest, packed width count field * packed width count (fun _ => 1) =
      packed width count (fun j => ∑ k ∈ range (j + 1), field k) + 2 ^ (width * count) * rest := by
  induction count generalizing field with
  | zero => exact ⟨0, rfl⟩
  | succ count ih =>
      obtain ⟨rest, product⟩ := ih (fun j => field (j + 1))
      refine ⟨rest + packed width count (fun j => field (j + 1)), ?_⟩
      have prefixes : packed width count (fun j => ∑ k ∈ range (j + 1 + 1), field k) =
          field 0 * packed width count (fun _ => 1) +
            packed width count (fun j => ∑ k ∈ range (j + 1), field (k + 1)) := by
        rw [packed_mul, packed_add]
        exact packed_congr fun j _ => by rw [sum_range_succ', Nat.mul_one, Nat.add_comm]
      have ones : packed width (count + 1) (fun _ => 1) =
          packed width count (fun _ => 1) + 2 ^ (width * count) := by
        rw [packed_succ, Nat.mul_one]
      have step : packed width (count + 1) field =
          field 0 + 2 ^ width * packed width count (fun j => field (j + 1)) := rfl
      have front : packed width (count + 1) (fun j => ∑ k ∈ range (j + 1), field k) =
          field 0 + 2 ^ width * packed width count (fun j => ∑ k ∈ range (j + 1 + 1), field k) := by
        rw [packed, sum_range_one]
      calc packed width (count + 1) field * packed width (count + 1) (fun _ => 1)
          = field 0 * packed width (count + 1) (fun _ => 1) +
              2 ^ width * (packed width count (fun j => field (j + 1)) * packed width count (fun _ => 1)) +
              2 ^ width * 2 ^ (width * count) * packed width count (fun j => field (j + 1)) := by
            rw [step, ones]
            ring
        _ = packed width (count + 1) (fun j => ∑ k ∈ range (j + 1), field k) +
              2 ^ (width * (count + 1)) * (rest + packed width count (fun j => field (j + 1))) := by
            rw [product, front, prefixes, two_pow_mul_succ, packed]
            ring

end Packed

theorem sum_pairs (count : Nat) (field : Nat → Nat) :
    ∑ j ∈ range count, (field (2 * j) + field (2 * j + 1)) = ∑ j ∈ range (2 * count), field j := by
  induction count with
  | zero => rfl
  | succ count ih =>
      rw [sum_range_succ, ih, Nat.mul_succ, sum_range_succ, sum_range_succ, Nat.add_assoc]

/-! ## The steps of the count on a `UInt64` -/

def pairBits (x : Nat) (j : Nat) : Nat :=
  (x.testBit (2 * j)).toNat + (x.testBit (2 * j + 1)).toNat

private theorem toNat_le_one (b : Bool) : b.toNat ≤ 1 := by
  cases b <;> decide

theorem pairBits_le (x j : Nat) : pairBits x j ≤ 2 := by
  have := toNat_le_one (x.testBit (2 * j))
  have := toNat_le_one (x.testBit (2 * j + 1))
  unfold pairBits
  omega

theorem pairBits_of_le {x j : Nat} (small : x < 2 ^ 64) (above : 32 ≤ j) : pairBits x j = 0 := by
  have first : x < 2 ^ (2 * j) := Nat.lt_of_lt_of_le small (Nat.pow_le_pow_right (by decide) (by omega))
  have second : x < 2 ^ (2 * j + 1) := Nat.lt_of_lt_of_le small (Nat.pow_le_pow_right (by decide) (by omega))
  simp [pairBits, Nat.testBit_lt_two_pow first, Nat.testBit_lt_two_pow second]

private theorem packed_shift {width : Nat} (count : Nat) {field : Nat → Nat} (low : field 0 < 2 ^ width)
    (top : field (count + 1) = 0) :
    packed width (count + 1) field / 2 ^ width = packed width (count + 1) (fun j => field (j + 1)) := by
  rw [packed_div low, packed_succ count (fun j => field (j + 1)), top, Nat.mul_zero, Nat.add_zero]

theorem toNat_pairs (x : UInt64) :
    (x - ((x >>> 1) &&& 0x5555555555555555)).toNat = packed 2 32 (pairBits x.toNat) := by
  have small := x.toNat_lt
  have bits : packed 1 (2 * 32) (fun i => (x.toNat.testBit i).toNat) = x.toNat := packed_testBit small
  have paired : x.toNat = packed (2 * 1) 32
      (fun j => (x.toNat.testBit (2 * j)).toNat + 2 ^ 1 * (x.toNat.testBit (2 * j + 1)).toNat) :=
    bits.symm.trans (packed_pairs 32 _)
  have bitLt : ∀ i, (x.toNat.testBit i).toNat < 2 ^ 1 := fun i => Nat.lt_succ_of_le (toNat_le_one _)
  have top : (x.toNat.testBit (63 + 1)).toNat = 0 := by simp [Nat.testBit_lt_two_pow small]
  have odd : x.toNat / 2 &&& 0x5555555555555555 = packed 2 32 (fun j => (x.toNat.testBit (2 * j + 1)).toNat) := by
    have mask : (0x5555555555555555 : Nat) = packed (2 * 1) 32 (fun _ => 2 ^ 1 - 1) := by decide
    have shifted : x.toNat / 2 = packed 1 (2 * 32) (fun i => (x.toNat.testBit (i + 1)).toNat) := by
      rw [← Nat.pow_one 2]
      conv => lhs; rw [← bits]
      exact packed_shift 63 (bitLt 0) top
    rw [shifted, mask, packed_and_low 32 fun i => bitLt (i + 1)]
  have fieldLe : ∀ j < 32, (x.toNat.testBit (2 * j + 1)).toNat ≤
      (x.toNat.testBit (2 * j)).toNat + 2 ^ 1 * (x.toNat.testBit (2 * j + 1)).toNat := fun j _ => by
    rw [Nat.pow_one]
    omega
  have literal : (0x5555555555555555 : UInt64).toNat = 0x5555555555555555 := rfl
  have shift : (1 : UInt64).toNat % 64 = 1 := rfl
  have below : (x >>> 1 &&& 0x5555555555555555) ≤ x := by
    rw [UInt64.le_iff_toNat_le, UInt64.toNat_and, UInt64.toNat_shiftRight, shift, literal,
      Nat.shiftRight_eq_div_pow, Nat.pow_one, odd]
    calc packed 2 32 (fun j => (x.toNat.testBit (2 * j + 1)).toNat) ≤ packed (2 * 1) 32
          (fun j => (x.toNat.testBit (2 * j)).toNat + 2 ^ 1 * (x.toNat.testBit (2 * j + 1)).toNat) :=
          packed_le fieldLe
      _ = x.toNat := paired.symm
  calc (x - ((x >>> 1) &&& 0x5555555555555555)).toNat
      = x.toNat - packed 2 32 (fun j => (x.toNat.testBit (2 * j + 1)).toNat) := by
        rw [UInt64.toNat_sub_of_le _ _ below, UInt64.toNat_and, UInt64.toNat_shiftRight, shift, literal,
          Nat.shiftRight_eq_div_pow, Nat.pow_one, odd]
    _ = packed (2 * 1) 32 (fun j => (x.toNat.testBit (2 * j)).toNat + 2 ^ 1 * (x.toNat.testBit (2 * j + 1)).toNat) -
          packed 2 32 (fun j => (x.toNat.testBit (2 * j + 1)).toNat) := by
        rw [← paired]
    _ = packed 2 32 (pairBits x.toNat) := by
        rw [packed_sub fieldLe]
        exact packed_congr fun j _ => by simp only [pairBits, Nat.pow_one]; omega

theorem toNat_nibbles {y : UInt64} {count : Nat → Nat} (word : y.toNat = packed 2 32 count)
    (small : ∀ j, count j ≤ 2) (top : count 32 = 0) :
    ((y &&& (0x3333333333333333 : UInt64)) + ((y >>> 2) &&& 0x3333333333333333)).toNat =
      packed 4 16 (fun i => count (2 * i) + count (2 * i + 1)) := by
  have mask : (0x3333333333333333 : Nat) = packed (2 * 2) 16 (fun _ => 2 ^ 2 - 1) := by decide
  have fieldLt : ∀ j, count j < 2 ^ 2 := fun j => by have := small j; omega
  have low : y.toNat &&& 0x3333333333333333 = packed 4 16 (fun i => count (2 * i)) := by
    rw [word, mask, packed_and_low 16 fieldLt]
  have high : y.toNat / 2 ^ 2 &&& 0x3333333333333333 = packed 4 16 (fun i => count (2 * i + 1)) := by
    rw [word, packed_shift 31 (fieldLt 0) top, mask, packed_and_low 16 fun j => fieldLt (j + 1)]
  have bound : packed 4 16 (fun i => count (2 * i) + count (2 * i + 1)) < 2 ^ (4 * 16) :=
    packed_lt fun i _ => by have := small (2 * i); have := small (2 * i + 1); omega
  have literal : (0x3333333333333333 : UInt64).toNat = 0x3333333333333333 := rfl
  have shift : (2 : UInt64).toNat % 64 = 2 := rfl
  rw [UInt64.toNat_add, UInt64.toNat_and, UInt64.toNat_and, UInt64.toNat_shiftRight, shift, literal,
    Nat.shiftRight_eq_div_pow, low, high, packed_add, Nat.mod_eq_of_lt bound]

theorem toNat_bytes {z : UInt64} {count : Nat → Nat} (word : z.toNat = packed 4 16 count)
    (small : ∀ i, count i ≤ 4) (top : count 16 = 0) :
    ((z + (z >>> 4)) &&& (0x0F0F0F0F0F0F0F0F : UInt64)).toNat = packed 8 8 (fun k => count (2 * k) + count (2 * k + 1)) := by
  have mask : (0x0F0F0F0F0F0F0F0F : Nat) = packed (2 * 4) 8 (fun _ => 2 ^ 4 - 1) := by decide
  have fieldLt : ∀ j, count j < 2 ^ 4 := fun j => by have := small j; omega
  have sum : z.toNat + z.toNat / 2 ^ 4 = packed 4 (2 * 8) (fun i => count i + count (i + 1)) := by
    rw [word, packed_shift 15 (fieldLt 0) top, packed_add]
  have bound : packed 4 (2 * 8) (fun i => count i + count (i + 1)) < 2 ^ (4 * (2 * 8)) :=
    packed_lt fun i _ => by have := small i; have := small (i + 1); omega
  have literal : (0x0F0F0F0F0F0F0F0F : UInt64).toNat = 0x0F0F0F0F0F0F0F0F := rfl
  have shift : (4 : UInt64).toNat % 64 = 4 := rfl
  rw [UInt64.toNat_and, UInt64.toNat_add, UInt64.toNat_shiftRight, shift, literal, Nat.shiftRight_eq_div_pow,
    sum, Nat.mod_eq_of_lt bound, mask, packed_and_low 8 fun i => by have := small i; have := small (i + 1); omega]

theorem toNat_sumBytes {u : UInt64} {count : Nat → Nat} (word : u.toNat = packed 8 8 count)
    (small : ∀ k, count k ≤ 8) :
    ((u * (0x0101010101010101 : UInt64)) >>> 56).toNat = ∑ k ∈ range 8, count k := by
  have ones : (0x0101010101010101 : UInt64).toNat = packed 8 8 (fun _ => 1) := by decide
  have shift : (56 : UInt64).toNat % 64 = 8 * 7 := rfl
  have prefixLt : ∀ j < 8, ∑ k ∈ range (j + 1), count k < 2 ^ 8 := fun j below => by
    have le : ∑ k ∈ range (j + 1), count k ≤ (range (j + 1)).card • 8 :=
      Finset.sum_le_card_nsmul (range (j + 1)) count 8 fun k _ => small k
    rw [card_range, Nat.nsmul_eq_mul] at le
    have : (j + 1) * 8 ≤ 64 := by omega
    omega
  obtain ⟨rest, product⟩ := packed_mul_ones 8 8 count
  rw [UInt64.toNat_shiftRight, UInt64.toNat_mul, shift, word, ones, product, Nat.add_mul_mod_self_left,
    Nat.mod_eq_of_lt (packed_lt prefixLt), Nat.shiftRight_eq_div_pow]
  exact packed_div_top fun j below => prefixLt j (by omega)

end NvidiaGpu.PopCount
