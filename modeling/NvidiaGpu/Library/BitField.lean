import Mathlib.Data.Nat.Bitwise
import Mathlib.Tactic.Ring

set_option autoImplicit false

/-! Fields of a bit sequence, most significant bit first.  A sequence is a
function `Nat → Bool`; the field of `width` bits at `p` is read as the number
whose top bit is `f p`, and written by replacing those bits with the low `width`
bits of a number.  Reading back a field just written gives its value, and a
write leaves every bit outside its field alone. -/

namespace NvidiaGpu.BitField

def fieldValue (f : Nat → Bool) (p : Nat) : Nat → Nat
  | 0 => 0
  | width + 1 => 2 * fieldValue f p width + (f (p + width)).toNat

/-- `f` with the bits `[p, p + width)` replaced by the low `width` bits of
`value`, most significant first. -/
def writeField (f : Nat → Bool) (p width value : Nat) (j : Nat) : Bool :=
  if p ≤ j ∧ j < p + width then value.testBit (p + width - 1 - j) else f j

section Read

variable (f : Nat → Bool) (p : Nat)

theorem testBit_fieldValue (width i : Nat) :
    (fieldValue f p width).testBit i = (decide (i < width) && f (p + width - 1 - i)) := by
  induction width generalizing i with
  | zero => simp [fieldValue]
  | succ width ih =>
      have low : (f (p + width)).toNat < 2 := Bool.toNat_lt _
      rcases i with _ | i
      · rw [fieldValue, Nat.testBit_zero, show p + (width + 1) - 1 - 0 = p + width by omega]
        cases f (p + width) <;> simp
      · rw [fieldValue, Nat.testBit_succ, show (2 * fieldValue f p width + (f (p + width)).toNat) / 2 =
          fieldValue f p width by omega, ih, show p + (width + 1) - 1 - (i + 1) = p + width - 1 - i by omega]
        simp

theorem fieldValue_lt (width : Nat) : fieldValue f p width < 2 ^ width := by
  induction width with
  | zero => simp [fieldValue]
  | succ width ih =>
      have low : (f (p + width)).toNat < 2 := Bool.toNat_lt _
      rw [fieldValue, Nat.pow_succ]
      omega

theorem fieldValue_succ_front (width : Nat) :
    fieldValue f p (width + 1) = (f p).toNat * 2 ^ width + fieldValue f (p + 1) width := by
  induction width with
  | zero => simp [fieldValue]
  | succ width ih =>
      rw [fieldValue, ih, fieldValue, Nat.pow_succ, show p + (width + 1) = p + 1 + width by omega]
      ring

end Read

theorem fieldValue_congr {f g : Nat → Bool} {p : Nat} (width : Nat)
    (same : ∀ j, p ≤ j → j < p + width → f j = g j) : fieldValue f p width = fieldValue g p width := by
  induction width with
  | zero => rfl
  | succ width ih =>
      rw [fieldValue, fieldValue, ih (fun j low high => same j low (by omega)), same (p + width) (by omega) (by omega)]

section Write

variable (f : Nat → Bool) (p width value : Nat)

theorem writeField_of_lt {j : Nat} (below : j < p) : writeField f p width value j = f j := by
  simp [writeField, Nat.not_le.mpr below]

theorem writeField_of_le {j : Nat} (above : p + width ≤ j) : writeField f p width value j = f j := by
  simp [writeField, Nat.not_lt.mpr above]

@[simp] theorem writeField_zero : writeField f p 0 value = f := by
  funext j
  simp [writeField]

theorem fieldValue_writeField (small : value < 2 ^ width) :
    fieldValue (writeField f p width value) p width = value := by
  apply Nat.eq_of_testBit_eq
  intro i
  rw [testBit_fieldValue]
  by_cases inside : i < width
  · rw [writeField, if_pos (by omega), show p + width - 1 - (p + width - 1 - i) = i by omega]
    simp [inside]
  · have above : value < 2 ^ i := Nat.lt_of_lt_of_le small (Nat.pow_le_pow_right (by decide) (by omega))
    simp [inside, Nat.testBit_lt_two_pow above]

theorem writeField_succ :
    writeField (writeField f p 1 (value.testBit width).toNat) (p + 1) width value = writeField f p (width + 1) value := by
  funext j
  by_cases top : j = p
  · subst top
    cases bit : value.testBit width <;> simp [writeField, bit]
  · unfold writeField
    by_cases inside : p + 1 ≤ j ∧ j < p + 1 + width
    · rw [if_pos inside, if_pos (by omega), show p + (width + 1) - 1 - j = p + 1 + width - 1 - j by omega]
    · rw [if_neg inside, if_neg (by omega), if_neg (by omega)]

end Write

end NvidiaGpu.BitField
