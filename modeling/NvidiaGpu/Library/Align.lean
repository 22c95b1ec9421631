import Mathlib.Data.Nat.Bitwise
import Mathlib.Tactic.NormNum

set_option autoImplicit false

/-! Rounding a 64-bit word up to a power-of-two granularity by the usual mask
idiom `(value + (granularity - 1)) & ~(granularity - 1)`.  Without overflow the
result is the least multiple of the granularity at or above the value; when the
sum wraps past `2^64` the result lands below the value, which is what the
callers' overflow checks look for. -/

namespace NvidiaGpu.Align

def alignUp (value granularity : UInt64) : UInt64 :=
  (value + (granularity - 1)) &&& ~~~(granularity - 1)

private theorem and_high_bits {word : Nat} (k : Nat) (bounded : word < 2 ^ 64) (small : k ≤ 64) :
    word &&& (2 ^ 64 - 1 - (2 ^ k - 1)) = word / 2 ^ k * 2 ^ k := by
  have mask : 2 ^ 64 - 1 - (2 ^ k - 1) = (2 ^ (64 - k) - 1) * 2 ^ k := by
    have split : 2 ^ 64 = 2 ^ (64 - k) * 2 ^ k := by
      rw [← Nat.pow_add, Nat.sub_add_cancel small]
    have positive : 0 < 2 ^ k := Nat.two_pow_pos k
    have positiveHigh : 0 < 2 ^ (64 - k) := Nat.two_pow_pos (64 - k)
    rw [split, Nat.sub_one_mul]
    omega
  rw [mask]
  apply Nat.eq_of_testBit_eq
  intro index
  rw [Nat.testBit_and, Nat.testBit_mul_two_pow, Nat.testBit_mul_two_pow,
    Nat.testBit_two_pow_sub_one, Nat.testBit_div_two_pow]
  by_cases low : k ≤ index
  · have shifted : index - k + k = index := Nat.sub_add_cancel low
    rw [shifted]
    by_cases high : index < 64
    · simp [low, show index - k < 64 - k by omega]
    · have clear : word.testBit index = false :=
        Nat.testBit_eq_false_of_lt (lt_of_lt_of_le bounded (Nat.pow_le_pow_right (by norm_num) (by omega)))
      simp [clear]
  · simp [low]

theorem exponent_lt {granularity : UInt64} {k : Nat} (power : granularity.toNat = 2 ^ k) : k < 64 := by
  have bounded := granularity.toNat_lt
  rw [power] at bounded
  exact (Nat.pow_lt_pow_iff_right (by norm_num)).mp bounded

theorem toNat_alignUp (value granularity : UInt64) (k : Nat)
    (power : granularity.toNat = 2 ^ k) :
    (alignUp value granularity).toNat =
      (value.toNat + (2 ^ k - 1)) % 2 ^ 64 / 2 ^ k * 2 ^ k := by
  have small := exponent_lt power
  have positive : 0 < 2 ^ k := Nat.two_pow_pos k
  have lowMask : (granularity - 1).toNat = 2 ^ k - 1 := by
    rw [UInt64.toNat_sub_of_le _ _ (by simp [UInt64.le_iff_toNat_le, power]; omega), power]
    simp
  unfold alignUp
  rw [UInt64.toNat_and, UInt64.toNat_not, UInt64.toNat_add, lowMask]
  exact and_high_bits k (Nat.mod_lt _ (by norm_num)) small.le

def alignDown (value granularity : UInt64) : UInt64 :=
  value &&& ~~~(granularity - 1)

theorem toNat_alignDown (value granularity : UInt64) (k : Nat)
    (power : granularity.toNat = 2 ^ k) :
    (alignDown value granularity).toNat = value.toNat / 2 ^ k * 2 ^ k := by
  have small := exponent_lt power
  have lowMask : (granularity - 1).toNat = 2 ^ k - 1 := by
    rw [UInt64.toNat_sub_of_le _ _ (by simp [UInt64.le_iff_toNat_le, power]; exact Nat.one_le_two_pow), power]
    simp
  unfold alignDown
  rw [UInt64.toNat_and, UInt64.toNat_not, lowMask]
  exact and_high_bits k value.toNat_lt small.le

variable {value granularity : UInt64} {k : Nat}

theorem alignUp_of_no_wrap (power : granularity.toNat = 2 ^ k)
    (noWrap : value.toNat + (2 ^ k - 1) < 2 ^ 64) :
    (alignUp value granularity).toNat % 2 ^ k = 0 ∧
      value.toNat ≤ (alignUp value granularity).toNat ∧
      (alignUp value granularity).toNat < value.toNat + 2 ^ k := by
  have positive : 0 < 2 ^ k := Nat.two_pow_pos k
  rw [toNat_alignUp value granularity k power, Nat.mod_eq_of_lt noWrap]
  have decompose := Nat.div_add_mod (value.toNat + (2 ^ k - 1)) (2 ^ k)
  have remainder := Nat.mod_lt (value.toNat + (2 ^ k - 1)) positive
  refine ⟨Nat.mul_mod_left _ _, ?_, ?_⟩
  · rw [Nat.mul_comm] at decompose
    omega
  · rw [Nat.mul_comm] at decompose
    omega

theorem alignUp_le_of_multiple (power : granularity.toNat = 2 ^ k)
    (noWrap : value.toNat + (2 ^ k - 1) < 2 ^ 64) {multiple : Nat}
    (aligned : multiple % 2 ^ k = 0) (above : value.toNat ≤ multiple) :
    (alignUp value granularity).toNat ≤ multiple := by
  have positive : 0 < 2 ^ k := Nat.two_pow_pos k
  rw [toNat_alignUp value granularity k power, Nat.mod_eq_of_lt noWrap]
  have decompose := Nat.div_add_mod multiple (2 ^ k)
  rw [aligned, Nat.add_zero] at decompose
  have quotient : (value.toNat + (2 ^ k - 1)) / 2 ^ k ≤ multiple / 2 ^ k := by
    apply Nat.le_of_lt_succ
    rw [Nat.div_lt_iff_lt_mul positive, Nat.succ_mul, Nat.mul_comm, decompose]
    omega
  calc (value.toNat + (2 ^ k - 1)) / 2 ^ k * 2 ^ k
      ≤ multiple / 2 ^ k * 2 ^ k := Nat.mul_le_mul_right _ quotient
    _ = multiple := by rw [Nat.mul_comm]; exact decompose

theorem no_wrap_of_multiple (power : granularity.toNat = 2 ^ k) {multiple : Nat}
    (aligned : multiple % 2 ^ k = 0) (above : value.toNat ≤ multiple) (bounded : multiple < 2 ^ 64) :
    value.toNat + (2 ^ k - 1) < 2 ^ 64 := by
  have positive : 0 < 2 ^ k := Nat.two_pow_pos k
  have split : 2 ^ 64 = 2 ^ (64 - k) * 2 ^ k := by
    rw [← Nat.pow_add, Nat.sub_add_cancel (exponent_lt power).le]
  have decompose := Nat.div_add_mod multiple (2 ^ k)
  rw [aligned, Nat.add_zero, Nat.mul_comm] at decompose
  have quotient : multiple / 2 ^ k < 2 ^ (64 - k) := by
    rw [Nat.div_lt_iff_lt_mul positive, ← split]
    exact bounded
  have top : multiple + 2 ^ k ≤ 2 ^ 64 :=
    calc multiple + 2 ^ k = (multiple / 2 ^ k + 1) * 2 ^ k := by rw [Nat.succ_mul, decompose]
      _ ≤ 2 ^ (64 - k) * 2 ^ k := Nat.mul_le_mul_right _ quotient
      _ = 2 ^ 64 := split.symm
  omega

theorem alignUp_lt_of_wrap (power : granularity.toNat = 2 ^ k)
    (wrap : 2 ^ 64 ≤ value.toNat + (2 ^ k - 1)) :
    (alignUp value granularity).toNat < value.toNat := by
  have positive : 0 < 2 ^ k := Nat.two_pow_pos k
  have small : 2 ^ k ≤ 2 ^ 64 := by
    have bounded := granularity.toNat_lt
    rw [power] at bounded
    exact bounded.le
  have valueBound := value.toNat_lt
  rw [toNat_alignUp value granularity k power]
  have reduced : (value.toNat + (2 ^ k - 1)) % 2 ^ 64 = value.toNat + (2 ^ k - 1) - 2 ^ 64 := by
    rw [Nat.mod_eq_sub_mod wrap, Nat.mod_eq_of_lt (by omega)]
  rw [reduced]
  calc (value.toNat + (2 ^ k - 1) - 2 ^ 64) / 2 ^ k * 2 ^ k
      ≤ value.toNat + (2 ^ k - 1) - 2 ^ 64 := Nat.div_mul_le_self _ _
    _ < value.toNat := by omega

theorem toNat_alignUp_succ (power : granularity.toNat = 2 ^ k) (value : UInt64) :
    (alignUp (value + 1) granularity).toNat =
      (value.toNat + (2 ^ k - value.toNat % 2 ^ k)) % 2 ^ 64 := by
  have small := exponent_lt power
  have positive : 0 < 2 ^ k := Nat.two_pow_pos k
  have split : 2 ^ 64 = 2 ^ k * 2 ^ (64 - k) := by
    rw [← Nat.pow_add, Nat.add_sub_cancel' small.le]
  have decompose := Nat.div_add_mod value.toNat (2 ^ k)
  have remainder := Nat.mod_lt value.toNat positive
  have quotient : value.toNat / 2 ^ k < 2 ^ (64 - k) := by
    rw [Nat.div_lt_iff_lt_mul positive, Nat.mul_comm, ← split]
    exact value.toNat_lt
  rw [toNat_alignUp _ _ k power, UInt64.toNat_add, UInt64.toNat_one]
  rcases Nat.lt_or_ge (value.toNat / 2 ^ k + 1) (2 ^ (64 - k)) with inner | last
  · have room : 2 ^ k * (value.toNat / 2 ^ k + 2) ≤ 2 ^ 64 := by
      rw [split]
      exact Nat.mul_le_mul_left _ inner
    rw [Nat.mul_add] at room
    have sum : ((value.toNat + 1) % 2 ^ 64 + (2 ^ k - 1)) % 2 ^ 64 =
        2 ^ k * (value.toNat / 2 ^ k + 1) + value.toNat % 2 ^ k := by
      rw [Nat.mul_add, Nat.mul_one]
      omega
    rw [sum, Nat.mul_add_div positive, Nat.div_eq_of_lt remainder, Nat.add_zero, Nat.succ_mul,
      Nat.mul_comm]
    omega
  · have top : 2 ^ k * (value.toNat / 2 ^ k + 1) = 2 ^ 64 := by
      rw [split, show value.toNat / 2 ^ k + 1 = 2 ^ (64 - k) by omega]
    rw [Nat.mul_add, Nat.mul_one] at top
    have below : ((value.toNat + 1) % 2 ^ 64 + (2 ^ k - 1)) % 2 ^ 64 < 2 ^ k := by
      omega
    rw [Nat.div_eq_of_lt below, Nat.zero_mul]
    omega

theorem toNat_alignUp_succ_sub (power : granularity.toNat = 2 ^ k) (value : UInt64) :
    (alignUp (value + 1) granularity - value).toNat = 2 ^ k - value.toNat % 2 ^ k := by
  have granularityBelow : 2 ^ k < 2 ^ 64 := power ▸ granularity.toNat_lt
  have remainder := Nat.mod_lt value.toNat (Nat.two_pow_pos k)
  have valueBelow := value.toNat_lt
  rw [UInt64.toNat_sub, toNat_alignUp_succ power]
  omega

theorem toNat_clamp (x y : UInt64) : (if x > y then y else x).toNat = min x.toNat y.toNat := by
  split_ifs with more
  · have moreNat := UInt64.lt_iff_toNat_lt.mp more
    omega
  · have fewerNat := UInt64.le_iff_toNat_le.mp (UInt64.not_lt.mp more)
    omega

end NvidiaGpu.Align
