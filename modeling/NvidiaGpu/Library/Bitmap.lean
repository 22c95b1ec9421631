import Mathlib.Data.UInt
import Mathlib.Data.BitVec

set_option autoImplicit false

/-! Bitmaps kept in 64-bit words, one bit per index, least significant bit of a
word first.  The lemmas read single bits through `BitVec.getLsbD`: the lowest
set bit of a word, the masks that select a run of positions in a word, and the
read-modify-write that sets one bit. -/

namespace NvidiaGpu.Bitmap

def bitAt (words : Nat → UInt64) (index : Nat) : Bool :=
  (words (index / 64)).toBitVec.getLsbD (index % 64)

/-- The first set bit of `word` at or above `index`, looking at most `fuel`
positions; `index + fuel` if there is none. -/
def scanFrom (word : UInt64) (index : Nat) : Nat → Nat
  | 0 => index
  | fuel + 1 => if word.toBitVec.getLsbD index then index else scanFrom word (index + 1) fuel

def lowestSetBit (word : UInt64) : Nat :=
  scanFrom word 0 64

example : lowestSetBit 0xFFFFFFFFFFFFFF00 = 8 := by decide

section Scan

variable {word : UInt64}

theorem getLsbD_scanFrom {index fuel : Nat} (found : scanFrom word index fuel < index + fuel) :
    word.toBitVec.getLsbD (scanFrom word index fuel) = true := by
  induction fuel generalizing index with
  | zero =>
      simp only [scanFrom] at found
      omega
  | succ fuel ih =>
      simp only [scanFrom] at found ⊢
      split
      · assumption
      · rename_i clear
        rw [if_neg clear] at found
        exact ih (by omega)

theorem getLsbD_of_lt_scanFrom {index fuel position : Nat} (above : index ≤ position)
    (below : position < scanFrom word index fuel) : word.toBitVec.getLsbD position = false := by
  induction fuel generalizing index with
  | zero => simp only [scanFrom] at below; omega
  | succ fuel ih =>
      simp only [scanFrom] at below
      split at below
      · omega
      · rename_i clear
        rcases Nat.eq_or_lt_of_le above with same | later
        · subst same
          simpa using clear
        · exact ih later below

end Scan

section Lowest

variable {word : UInt64}

theorem eq_zero_iff_getLsbD : word = 0 ↔ ∀ position < 64, word.toBitVec.getLsbD position = false := by
  constructor
  · rintro rfl position _
    simp
  · intro clear
    apply UInt64.toBitVec_inj.mp
    apply BitVec.eq_of_getLsbD_eq
    intro position lt
    simp [clear position lt]

theorem getLsbD_of_lt_lowestSetBit {position : Nat} (below : position < lowestSetBit word) :
    word.toBitVec.getLsbD position = false :=
  getLsbD_of_lt_scanFrom (Nat.zero_le position) below

theorem lowestSetBit_lt (nonzero : word ≠ 0) : lowestSetBit word < 64 := by
  rcases Nat.lt_or_ge (lowestSetBit word) 64 with lt | ge
  · exact lt
  · have allClear : ∀ position < 64, word.toBitVec.getLsbD position = false := fun position lt =>
      getLsbD_of_lt_lowestSetBit (by omega)
    exact absurd (eq_zero_iff_getLsbD.mpr allClear) nonzero

theorem getLsbD_lowestSetBit (nonzero : word ≠ 0) : word.toBitVec.getLsbD (lowestSetBit word) = true :=
  getLsbD_scanFrom (lowestSetBit_lt nonzero)

end Lowest

/-! ## Masks -/

def allOnes64 : UInt64 := 0xFFFFFFFFFFFFFFFF

theorem toBitVec_allOnes64 : allOnes64.toBitVec = BitVec.allOnes 64 := rfl

theorem toNat_sixtyFour : BitVec.toNat (64 : BitVec 64) = 64 := rfl

theorem getLsbD_allOnes_shiftLeft {shift : UInt64} (small : shift.toNat < 64) (position : Nat) :
    (allOnes64 <<< shift).toBitVec.getLsbD position = (decide (position < 64) && decide (shift.toNat ≤ position)) := by
  rw [UInt64.toBitVec_shiftLeft, toBitVec_allOnes64, BitVec.shiftLeft_eq', BitVec.getLsbD_shiftLeft]
  simp only [BitVec.getLsbD_allOnes, BitVec.toNat_umod, UInt64.toNat_toBitVec, toNat_sixtyFour,
    Nat.mod_eq_of_lt small]
  by_cases lt : position < 64
  · by_cases le : shift.toNat ≤ position
    · simp [lt, le]
      omega
    · simp [lt, le]
  · simp [lt]

theorem getLsbD_allOnes_shiftRight {shift : UInt64} (small : shift.toNat < 64) (position : Nat) :
    (allOnes64 >>> shift).toBitVec.getLsbD position = decide (position + shift.toNat < 64) := by
  rw [UInt64.toBitVec_shiftRight, toBitVec_allOnes64, BitVec.ushiftRight_eq', BitVec.getLsbD_ushiftRight]
  simp only [BitVec.getLsbD_allOnes, BitVec.toNat_umod, UInt64.toNat_toBitVec, toNat_sixtyFour,
    Nat.mod_eq_of_lt small]
  by_cases lt : position + shift.toNat < 64
  · simp [lt]
    omega
  · simp [lt]
    omega

/-- `(bits & ~mask) | (mask & newVal)`: the bits of `value` where `mask` is set,
those of `word` elsewhere. -/
def setBits (word mask value : UInt64) : UInt64 :=
  (word &&& ~~~mask) ||| (mask &&& value)

theorem getLsbD_setBits (word mask value : UInt64) (position : Nat) :
    (setBits word mask value).toBitVec.getLsbD position =
      if mask.toBitVec.getLsbD position then value.toBitVec.getLsbD position
      else word.toBitVec.getLsbD position := by
  unfold setBits
  by_cases lt : position < 64
  · simp only [UInt64.toBitVec_or, UInt64.toBitVec_and, UInt64.toBitVec_not, BitVec.getLsbD_or,
      BitVec.getLsbD_and, BitVec.getLsbD_not, lt, decide_true, Bool.true_and]
    cases mask.toBitVec.getLsbD position <;> simp
  · simp [BitVec.getLsbD_of_ge _ _ (Nat.le_of_not_lt lt)]

/-! ## Masked words -/

theorem bitAt_inWord (bits : Nat → UInt64) (word position : Nat) (lt : position < 64) :
    bitAt bits (word * 64 + position) = (bits word).toBitVec.getLsbD position := by
  have div : (word * 64 + position) / 64 = word := by omega
  have mod : (word * 64 + position) % 64 = position := by omega
  rw [bitAt, div, mod]

theorem masked_eq_zero_iff {word mask : UInt64} {low high : Nat}
    (masked : ∀ position < 64, mask.toBitVec.getLsbD position = decide (low ≤ position ∧ position ≤ high)) :
    word &&& mask = 0 ↔ ∀ position, low ≤ position → position ≤ high → position < 64 →
      word.toBitVec.getLsbD position = false := by
  rw [eq_zero_iff_getLsbD]
  constructor
  · intro clear position above below lt
    have := clear position lt
    simp [masked position lt, above, below] at this
    exact this
  · intro clear position lt
    rw [UInt64.toBitVec_and, BitVec.getLsbD_and, masked position lt]
    by_cases inside : low ≤ position ∧ position ≤ high
    · simp [clear position inside.1 inside.2 lt]
    · simp [inside]

theorem lowestSetBit_masked {word mask : UInt64} {low high : Nat}
    (masked : ∀ position < 64, mask.toBitVec.getLsbD position = decide (low ≤ position ∧ position ≤ high))
    (nonzero : word &&& mask ≠ 0) :
    low ≤ lowestSetBit (word &&& mask) ∧ lowestSetBit (word &&& mask) ≤ high ∧
      lowestSetBit (word &&& mask) < 64 ∧ word.toBitVec.getLsbD (lowestSetBit (word &&& mask)) = true := by
  have lt := lowestSetBit_lt nonzero
  have set := getLsbD_lowestSetBit nonzero
  rw [UInt64.toBitVec_and, BitVec.getLsbD_and, masked _ lt] at set
  simp only [Bool.and_eq_true, decide_eq_true_eq] at set
  exact ⟨set.2.1, set.2.2, lt, set.1⟩

/-! ## Counting -/

theorem countP_range_update {p q : Nat → Bool} {index : Nat} (n : Nat)
    (others : ∀ j < n, j ≠ index → p j = q j) :
    (List.range n).countP q + (if index < n ∧ p index then 1 else 0) =
      (List.range n).countP p + (if index < n ∧ q index then 1 else 0) := by
  induction n with
  | zero => simp
  | succ n ih =>
      have ih := ih (fun j below other => others j (by omega) other)
      simp only [List.range_succ, List.countP_append, List.countP_singleton]
      by_cases here : n = index
      · subst here
        simp only [Nat.lt_irrefl, false_and, if_false, Nat.add_zero] at ih
        simp only [Nat.lt_succ_self, true_and]
        omega
      · have below : index < n + 1 ↔ index < n := by omega
        simp only [below, others n (Nat.lt_succ_self n) here]
        omega

end NvidiaGpu.Bitmap
