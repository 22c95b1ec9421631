import NvidiaGpu.Containers.Vector

set_option autoImplicit false

/-! Runs of the vector: any sequence of inserts, appends, prepends, removals,
reserves and trims after a successful `vectInit`.  Where no `NvU32` product or
count wraps (a first buffer that fits in `2^32` bytes, indices inside the
sequence, no wrap of `size + 1` or of the first ten-record buffer) every call
keeps the vector consistent and either leaves its records alone or does to
them what the list operation does; `vectAppend_hugeRecord_overflows` shows a
run outside that domain. -/

namespace NvidiaGpu.Vect

open Blocks

/-- A call that changes the vector, with its arguments. -/
inductive VectorOp
  | insert (index : UInt32) (pData : Nat → UInt8) (allocOk : Bool)
  | append (pData : Nat → UInt8) (allocOk : Bool)
  | prepend (pData : Nat → UInt8) (allocOk : Bool)
  | remove (index : UInt32)
  | reserve (n : UInt32) (allocOk : Bool)
  | trim (n : UInt32) (allocOk : Bool)

def VectorOp.apply (vector : Vector) : VectorOp → Vector
  | .insert index pData allocOk => (vectInsert vector index pData allocOk).2
  | .append pData allocOk => (vectAppend vector pData allocOk).2
  | .prepend pData allocOk => (vectPrepend vector pData allocOk).2
  | .remove index => vectRemove vector index
  | .reserve n allocOk => (vectReserve vector n allocOk).2
  | .trim n allocOk => (vectTrim vector n allocOk).2

/-- Growing by one record wraps neither `size + 1` nor the first buffer of ten
records. -/
def GrowsSafely (vector : Vector) : Prop :=
  vector.size.toNat + 1 < 2 ^ 32 ∧ (vector.capacity = 0 → 10 * vector.valueSize.toNat < 2 ^ 32)

/-- The calls the refinement covers: indices inside the sequence, and inserts
that grow safely. -/
def VectorOp.Admissible (vector : Vector) : VectorOp → Prop
  | .insert index _ _ => index.toNat ≤ vector.size.toNat ∧ GrowsSafely vector
  | .append _ _ => GrowsSafely vector
  | .prepend _ _ => GrowsSafely vector
  | .remove index => index.toNat < vector.size.toNat
  | .reserve _ _ => True
  | .trim _ _ => True

def VectorOp.onRecords (records : List (List UInt8)) (valueSize : Nat) : VectorOp → List (List UInt8)
  | .insert index pData _ => records.insertIdx index.toNat ((List.range valueSize).map pData)
  | .append pData _ => records ++ [(List.range valueSize).map pData]
  | .prepend pData _ => (List.range valueSize).map pData :: records
  | .remove index => records.eraseIdx index.toNat
  | .reserve _ _ => records
  | .trim _ _ => records

/-- Vectors reached from a successful `vectInit` of records of at least one
byte whose first buffer fits in `2^32` bytes, by admissible calls. -/
inductive Reachable : Vector → Prop
  | init {capacity valueSize : UInt32} {allocOk : Bool} {vector : Vector} :
      1 ≤ valueSize.toNat → capacity.toNat * valueSize.toNat < 2 ^ 32 →
      vectInit capacity valueSize allocOk = (.nvOk, vector) → Reachable vector
  | step {vector : Vector} (op : VectorOp) :
      Reachable vector → op.Admissible vector → Reachable (op.apply vector)

theorem vectInit_valid {capacity valueSize : UInt32} {allocOk : Bool} {vector : Vector}
    (recordBytes : 1 ≤ valueSize.toNat) (fitsWord : capacity.toNat * valueSize.toNat < 2 ^ 32)
    (initialized : vectInit capacity valueSize allocOk = (.nvOk, vector)) : vector.Valid := by
  unfold vectInit at initialized
  dsimp only at initialized
  split_ifs at initialized with positive ok
  · rw [Prod.mk.injEq] at initialized
    rw [← initialized.2]
    refine ⟨recordBytes, by simp, ?_, ?_⟩ <;> dsimp only <;>
      rw [UInt32.toNat_mul, Nat.mod_eq_of_lt fitsWord]
    exact fitsWord
  · simp at initialized
  · rw [Prod.mk.injEq] at initialized
    rw [← initialized.2]
    have empty : capacity.toNat = 0 := by
      rw [gt_iff_lt, UInt32.lt_iff_toNat_lt, UInt32.toNat_zero] at positive
      omega
    refine ⟨recordBytes, by simp, ?_, by simp⟩
    dsimp only
    rw [empty, Nat.zero_mul]

section Step

variable {vector : Vector} (valid : vector.Valid)
include valid

theorem insert_outcome (index : UInt32) (pData : Nat → UInt8) (allocOk : Bool)
    (within : index.toNat ≤ vector.size.toNat) (grows : GrowsSafely vector) :
    (vectInsert vector index pData allocOk).2.Valid ∧
      (contents (vectInsert vector index pData allocOk).2 = contents vector ∨
        contents (vectInsert vector index pData allocOk).2 =
          (contents vector).insertIdx index.toNat ((List.range vector.valueSize.toNat).map pData)) := by
  obtain ⟨unchanged, inserted⟩ := vectInsert_spec valid index pData allocOk within grows.1 grows.2
  cases returned : (vectInsert vector index pData allocOk).1 with
  | none =>
      rw [unchanged returned]
      exact ⟨valid, .inl rfl⟩
  | some dst =>
      obtain ⟨-, insertedValid, insertedRecords⟩ := inserted dst returned
      exact ⟨insertedValid, .inr insertedRecords⟩

/-- One admissible call keeps the vector consistent and its record size, and
either leaves the records alone (a failed call) or does to them what the list
operation does. -/
theorem VectorOp.apply_spec (op : VectorOp) (admissible : op.Admissible vector) :
    (op.apply vector).Valid ∧ (op.apply vector).valueSize = vector.valueSize ∧
      (contents (op.apply vector) = contents vector ∨
        contents (op.apply vector) = op.onRecords (contents vector) vector.valueSize.toNat) := by
  have sizeIs : (contents vector).length = vector.size.toNat := by simp [contents]
  cases op with
  | insert index pData allocOk =>
      obtain ⟨within, grows⟩ := admissible
      obtain ⟨insertedValid, outcome⟩ := insert_outcome valid index pData allocOk within grows
      exact ⟨insertedValid, vectInsert_valueSize _ _ _ _, outcome⟩
  | append pData allocOk =>
      obtain ⟨insertedValid, outcome⟩ := insert_outcome valid vector.size pData allocOk le_rfl admissible
      refine ⟨insertedValid, vectInsert_valueSize _ _ _ _, ?_⟩
      rw [← sizeIs, List.insertIdx_length_self] at outcome
      exact outcome
  | prepend pData allocOk =>
      obtain ⟨insertedValid, outcome⟩ :=
        insert_outcome valid 0 pData allocOk (Nat.zero_le _) admissible
      refine ⟨insertedValid, vectInsert_valueSize _ _ _ _, ?_⟩
      rw [UInt32.toNat_zero, List.insertIdx_zero] at outcome
      exact outcome
  | remove index =>
      obtain ⟨removedValid, removed⟩ := vectRemove_spec valid admissible
      exact ⟨removedValid, vectRemove_valueSize _ _, .inr removed⟩
  | reserve n allocOk =>
      obtain ⟨reservedValid, same, -⟩ := vectReserve_spec valid n allocOk
      exact ⟨reservedValid, vectReserve_valueSize _ _ _, .inl same⟩
  | trim n allocOk =>
      obtain ⟨trimmedValid, same, -⟩ := vectTrim_spec valid n allocOk
      exact ⟨trimmedValid, vectTrim_valueSize _ _ _, .inl same⟩

end Step

/-- Every vector reached without a wrap is consistent: at most `capacity`
records, all inside a buffer of at least `capacity * valueSize` bytes. -/
theorem Reachable.valid {vector : Vector} (reachable : Reachable vector) : vector.Valid := by
  induction reachable with
  | init recordBytes fitsWord initialized => exact vectInit_valid recordBytes fitsWord initialized
  | step op _ admissible ih => exact (op.apply_spec ih admissible).1


def threeSlotVector : Vector := (vectInit 3 2 true).2

end NvidiaGpu.Vect
