import NvidiaGpu.Library.Align

set_option autoImplicit false

/-! The GPU tracking semaphore of `uvm_gpu_semaphore.c`.  The GPU writes the low
32 bits of a 64-bit progress value as the semaphore's payload; the CPU keeps
`completed_value`, rebuilds the 64-bit value from each payload it reads by
splicing the low word and adding `2^32` when the payload went down, and
answers `is_value_completed` from it.

Locks, memory barriers and the encrypted-payload path are left out: a read of
the payload is the argument `payload`.  The release assert on the size of a
jump only reports, so it is left out too.

Over any run in which the progress value never goes down and every read comes
less than `2^32` after the recorded value, the recorded value is the progress
value of the last read. -/

namespace NvidiaGpu.GpuSemaphore

open Align

/-- `update_completed_value_locked`: the new `completed_value` from the recorded
`oldValue` and the payload `newSemValue` just read. -/
def updateCompletedValueLocked (oldValue : UInt64) (newSemValue : UInt32) : UInt64 :=
  let oldSemValue := oldValue.toUInt32
  if oldSemValue = newSemValue then oldValue
  else
    let newValue := (oldValue &&& 0xFFFFFFFF00000000) ||| newSemValue.toUInt64
    if newSemValue < oldSemValue then newValue + ((1 : UInt64) <<< 32) else newValue

/-- `uvm_gpu_tracking_semaphore_update_completed_value`: the locked update under
the semaphore's lock. -/
def uvmGpuTrackingSemaphoreUpdateCompletedValue (completedValue : UInt64) (payload : UInt32) : UInt64 :=
  updateCompletedValueLocked completedValue payload

/-- `uvm_gpu_tracking_semaphore_is_value_completed`: the recorded value after the
call and the answer.  The payload is read only when the recorded value is
below `value`. -/
def uvmGpuTrackingSemaphoreIsValueCompleted (completedValue : UInt64) (payload : UInt32) (value : UInt64) :
    UInt64 × Bool :=
  if completedValue ≥ value then (completedValue, true)
  else
    let completed := uvmGpuTrackingSemaphoreUpdateCompletedValue completedValue payload
    (completed, completed ≥ value)

/-! ## Rebuilding the 64-bit value -/

theorem toNat_splice (old : UInt64) (low : UInt32) :
    ((old &&& 0xFFFFFFFF00000000) ||| low.toUInt64).toNat = old.toNat / 2 ^ 32 * 2 ^ 32 + low.toNat := by
  have high : (old &&& 0xFFFFFFFF00000000).toNat = old.toNat / 2 ^ 32 * 2 ^ 32 :=
    toNat_alignDown old 4294967296 32 (by decide)
  rw [UInt64.toNat_or, high, UInt32.toNat_toUInt64, Nat.mul_comm]
  exact (Nat.two_pow_add_eq_or_of_lt low.toNat_lt _).symm

section Rebuild

variable {old progress : UInt64}

theorem updateCompletedValueLocked_eq (le : old ≤ progress) (close : progress.toNat < old.toNat + 2 ^ 32) :
    updateCompletedValueLocked old progress.toUInt32 = progress := by
  have le' : old.toNat ≤ progress.toNat := UInt64.le_iff_toNat_le.mp le
  have oldSplit := Nat.div_add_mod old.toNat (2 ^ 32)
  have progressSplit := Nat.div_add_mod progress.toNat (2 ^ 32)
  have oldLow : old.toUInt32.toNat = old.toNat % 2 ^ 32 := UInt64.toNat_toUInt32 old
  have progressLow : progress.toUInt32.toNat = progress.toNat % 2 ^ 32 := UInt64.toNat_toUInt32 progress
  have bounded := progress.toNat_lt
  unfold updateCompletedValueLocked
  dsimp only
  split_ifs with same down
  · have sameLow : old.toNat % 2 ^ 32 = progress.toNat % 2 ^ 32 := by
      rw [← oldLow, ← progressLow, same]
    apply UInt64.toNat_inj.mp
    omega
  · have below : progress.toNat % 2 ^ 32 < old.toNat % 2 ^ 32 := by
      rw [← oldLow, ← progressLow]
      exact UInt32.lt_iff_toNat_lt.mp down
    apply UInt64.toNat_inj.mp
    rw [UInt64.toNat_add, toNat_splice, progressLow]
    have shift : ((1 : UInt64) <<< 32).toNat = 2 ^ 32 := by decide
    rw [shift]
    omega
  · have above : old.toNat % 2 ^ 32 < progress.toNat % 2 ^ 32 := by
      have differ : old.toUInt32.toNat ≠ progress.toUInt32.toNat := fun equal => same (UInt32.toNat_inj.mp equal)
      have notDown : ¬progress.toUInt32.toNat < old.toUInt32.toNat := fun lt => down (UInt32.lt_iff_toNat_lt.mpr lt)
      omega
    apply UInt64.toNat_inj.mp
    rw [toNat_splice, progressLow]
    omega

theorem uvmGpuTrackingSemaphoreIsValueCompleted_eq (le : old ≤ progress) (value : UInt64)
    (close : old < value → progress.toNat < old.toNat + 2 ^ 32) :
    uvmGpuTrackingSemaphoreIsValueCompleted old progress.toUInt32 value =
      (if value ≤ old then old else progress, decide (value ≤ progress)) := by
  unfold uvmGpuTrackingSemaphoreIsValueCompleted uvmGpuTrackingSemaphoreUpdateCompletedValue
  by_cases done : value ≤ old
  · have reached : value ≤ progress := UInt64.le_trans done le
    simp [done, reached]
  · have behind : old < value := UInt64.not_le.mp done
    rw [updateCompletedValueLocked_eq le (close behind)]
    simp [done]

end Rebuild

/-! ## Runs -/

/-- A tracking semaphore beside the GPU's progress: `completedValue` is what the
CPU has recorded, `progress` the 64-bit value whose low word is the payload. -/
structure UvmGpuTrackingSemaphore where
  completedValue : UInt64
  progress : UInt64
  deriving DecidableEq, Repr

def UvmGpuTrackingSemaphore.payload (sem : UvmGpuTrackingSemaphore) : UInt32 :=
  sem.progress.toUInt32

/-- `uvm_gpu_tracking_semaphore_alloc`: the payload is set to zero and so is the
completed value. -/
def uvmGpuTrackingSemaphoreAlloc : UvmGpuTrackingSemaphore :=
  { completedValue := 0, progress := 0 }

/-- The steps of a run: the GPU moves its progress on, or the CPU reads the
payload less than `2^32` after the recorded value, in an update or in an
`is_value_completed` call that reads it. -/
inductive Step : UvmGpuTrackingSemaphore → UvmGpuTrackingSemaphore → Prop
  | release (sem : UvmGpuTrackingSemaphore) (progress : UInt64) (later : sem.progress ≤ progress) :
      Step sem { sem with progress := progress }
  | update (sem : UvmGpuTrackingSemaphore) (close : sem.progress.toNat < sem.completedValue.toNat + 2 ^ 32) :
      Step sem { sem with completedValue := uvmGpuTrackingSemaphoreUpdateCompletedValue sem.completedValue sem.payload }
  | isValueCompleted (sem : UvmGpuTrackingSemaphore) (value : UInt64)
      (close : sem.completedValue < value → sem.progress.toNat < sem.completedValue.toNat + 2 ^ 32) :
      Step sem
        { sem with completedValue := (uvmGpuTrackingSemaphoreIsValueCompleted sem.completedValue sem.payload value).1 }

inductive Reachable : UvmGpuTrackingSemaphore → Prop
  | alloc : Reachable uvmGpuTrackingSemaphoreAlloc
  | step {sem next : UvmGpuTrackingSemaphore} : Reachable sem → Step sem next → Reachable next

theorem Step.completedValue {sem next : UvmGpuTrackingSemaphore} (le : sem.completedValue ≤ sem.progress)
    (step : Step sem next) :
    sem.completedValue ≤ next.completedValue ∧ next.completedValue ≤ next.progress := by
  cases step with
  | release progress later => exact ⟨UInt64.le_refl _, UInt64.le_trans le later⟩
  | update close =>
      dsimp only [uvmGpuTrackingSemaphoreUpdateCompletedValue, UvmGpuTrackingSemaphore.payload]
      rw [updateCompletedValueLocked_eq le close]
      exact ⟨le, UInt64.le_refl _⟩
  | isValueCompleted value close =>
      dsimp only [UvmGpuTrackingSemaphore.payload]
      rw [uvmGpuTrackingSemaphoreIsValueCompleted_eq le value close]
      split_ifs
      · exact ⟨UInt64.le_refl _, le⟩
      · exact ⟨le, UInt64.le_refl _⟩

theorem Reachable.completedValue_le {sem : UvmGpuTrackingSemaphore} (reach : Reachable sem) :
    sem.completedValue ≤ sem.progress := by
  induction reach with
  | alloc => exact UInt64.le_refl _
  | step _ step ih => exact (Step.completedValue ih step).2

/-- On every run, an update records the progress value it reads, no step lowers
the recorded value, and `is_value_completed` answers exactly whether its value
is at most the progress value, recording that value when it reads it. -/
theorem trackingSemaphore_run {sem : UvmGpuTrackingSemaphore} (reach : Reachable sem) :
    sem.completedValue ≤ sem.progress ∧
      (sem.progress.toNat < sem.completedValue.toNat + 2 ^ 32 →
        uvmGpuTrackingSemaphoreUpdateCompletedValue sem.completedValue sem.payload = sem.progress) ∧
      (∀ value, (sem.completedValue < value → sem.progress.toNat < sem.completedValue.toNat + 2 ^ 32) →
        uvmGpuTrackingSemaphoreIsValueCompleted sem.completedValue sem.payload value =
          (if value ≤ sem.completedValue then sem.completedValue else sem.progress, decide (value ≤ sem.progress))) ∧
      (∀ next, Step sem next → sem.completedValue ≤ next.completedValue) := by
  have le := reach.completedValue_le
  exact ⟨le, updateCompletedValueLocked_eq le, fun value close => uvmGpuTrackingSemaphoreIsValueCompleted_eq le value close,
    fun _ step => (Step.completedValue le step).1⟩

/-- A semaphore whose payload has wrapped since the last read: the recorded
value is `0xFFFFFFF0` and the GPU has moved on to `2^32 + 0x10`. -/
def wrappedSemaphore : UvmGpuTrackingSemaphore :=
  { completedValue := 0xFFFFFFF0, progress := 0x100000010 }

theorem reachable_wrappedSemaphore : Reachable wrappedSemaphore := by
  have released : Reachable { completedValue := 0, progress := 0xFFFFFFF0 } :=
    .step .alloc (.release _ 0xFFFFFFF0 (by decide))
  have updated : Reachable { completedValue := 0xFFFFFFF0, progress := 0xFFFFFFF0 } :=
    .step released (.update _ (by decide))
  exact .step updated (.release _ 0x100000010 (by decide))

theorem wrappedSemaphore_update :
    Reachable wrappedSemaphore ∧
      uvmGpuTrackingSemaphoreUpdateCompletedValue wrappedSemaphore.completedValue wrappedSemaphore.payload =
        0x100000010 :=
  ⟨reachable_wrappedSemaphore, (trackingSemaphore_run reachable_wrappedSemaphore).2.1 (by decide)⟩

end NvidiaGpu.GpuSemaphore
