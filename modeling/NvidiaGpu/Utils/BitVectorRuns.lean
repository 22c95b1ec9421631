import NvidiaGpu.Utils.BitVectorQueries

set_option autoImplicit false

/-! An `NV_BITVECTOR` of `last` flags as a store of a set of flags.  Every run of
the calls that change it, each with arguments its contract allows, answers
`NV_OK` at every call, keeps the padding clear, writes no word outside the
vector, and leaves the vector standing for the set that the same calls compute
on `Finset Nat`; the queries then answer for that set. -/

namespace NvidiaGpu.BitVector

open Finset

/-- A call that changes the vector, with its arguments. -/
inductive Mutation where
  | clrAll
  | setAll
  | clr (idx : UInt16)
  | set (idx : UInt16)
  | inv (idx : UInt16)
  | clrRange (range : NvRange)
  | setRange (range : NvRange)
  | invRange (range : NvRange)
  deriving DecidableEq, Repr

namespace Mutation

/-- The call on the vector of `bitVectorLast` flags at `pBitVector`; `none`
only where a range loop would run out of rounds. -/
def call (mem : Nat → UInt64) (pBitVector : Nat) (bitVectorLast : UInt16) :
    Mutation → Option (NvStatus × (Nat → UInt64))
  | clrAll => some (bitVectorClrAll mem pBitVector bitVectorLast)
  | setAll => some (bitVectorSetAll mem pBitVector bitVectorLast)
  | clr idx => some (bitVectorClr mem pBitVector bitVectorLast idx)
  | set idx => some (bitVectorSet mem pBitVector bitVectorLast idx)
  | inv idx => some (bitVectorInv mem pBitVector bitVectorLast idx)
  | clrRange range => bitVectorClrRange mem pBitVector bitVectorLast range
  | setRange range => bitVectorSetRange mem pBitVector bitVectorLast range
  | invRange range => bitVectorInvRange mem pBitVector bitVectorLast range

def apply (last : Nat) (flags : Finset Nat) : Mutation → Finset Nat
  | clrAll => ∅
  | setAll => range last
  | clr idx => flags.erase idx.toNat
  | set idx => insert idx.toNat flags
  | inv idx => symmDiff flags {idx.toNat}
  | clrRange r => flags \ Icc r.lo.toNat r.hi.toNat
  | setRange r => flags ∪ Icc r.lo.toNat r.hi.toNat
  | invRange r => symmDiff flags (Icc r.lo.toNat r.hi.toNat)

/-- The arguments the contract allows: a flag of the vector, or a nonempty
range of its flags. -/
def allowed (last : Nat) : Mutation → Bool
  | clrAll | setAll => true
  | clr idx | set idx | inv idx => decide (idx.toNat < last)
  | clrRange r | setRange r | invRange r => decide (r.lo.toNat ≤ r.hi.toNat ∧ r.hi.toNat < last)

section Step

variable {mem : Nat → UInt64} {pBitVector : Nat} {bitVectorLast : UInt16}
  (positive : 0 < bitVectorLast.toNat) (padding : PaddingClear mem pBitVector bitVectorLast)
include positive padding

theorem call_spec {m : Mutation} (permitted : m.allowed bitVectorLast.toNat = true) :
    ∃ result, m.call mem pBitVector bitVectorLast = some result ∧
      Yields mem pBitVector bitVectorLast (m.apply bitVectorLast.toNat (contents mem pBitVector bitVectorLast)) result := by
  cases m with
  | clrAll => exact ⟨_, rfl, bitVectorClrAll_spec positive⟩
  | setAll => exact ⟨_, rfl, bitVectorSetAll_spec positive⟩
  | clr idx => exact ⟨_, rfl, bitVectorClr_spec positive (of_decide_eq_true permitted) padding⟩
  | set idx => exact ⟨_, rfl, bitVectorSet_spec positive (of_decide_eq_true permitted) padding⟩
  | inv idx => exact ⟨_, rfl, bitVectorInv_spec positive (of_decide_eq_true permitted) padding⟩
  | clrRange r =>
      have within : r.lo.toNat ≤ r.hi.toNat ∧ r.hi.toNat < bitVectorLast.toNat := of_decide_eq_true permitted
      exact bitVectorClrRange_spec positive padding within.1 within.2
  | setRange r =>
      have within : r.lo.toNat ≤ r.hi.toNat ∧ r.hi.toNat < bitVectorLast.toNat := of_decide_eq_true permitted
      exact bitVectorSetRange_spec positive padding within.1 within.2
  | invRange r =>
      have within : r.lo.toNat ≤ r.hi.toNat ∧ r.hi.toNat < bitVectorLast.toNat := of_decide_eq_true permitted
      exact bitVectorInvRange_spec positive padding within.1 within.2

end Step

end Mutation

def runMutations (pBitVector : Nat) (bitVectorLast : UInt16) : List Mutation → (Nat → UInt64) → Option (Nat → UInt64)
  | [], mem => some mem
  | m :: rest, mem =>
      match m.call mem pBitVector bitVectorLast with
      | some (.nvOk, mem') => runMutations pBitVector bitVectorLast rest mem'
      | _ => none

def applyMutations (last : Nat) (flags : Finset Nat) (calls : List Mutation) : Finset Nat :=
  calls.foldl (fun flags m => m.apply last flags) flags

section Runs

variable {pBitVector : Nat} {bitVectorLast : UInt16} (positive : 0 < bitVectorLast.toNat)
include positive

/-- A run of allowed calls from a vector with its padding clear: every call
answers `NV_OK`, the vector stands for the abstract run's set, its padding stays
clear and no word outside it is written. -/
theorem runMutations_spec (calls : List Mutation) :
    ∀ (mem : Nat → UInt64), PaddingClear mem pBitVector bitVectorLast →
      (∀ m ∈ calls, m.allowed bitVectorLast.toNat = true) →
      ∃ mem', runMutations pBitVector bitVectorLast calls mem = some mem' ∧
        contents mem' pBitVector bitVectorLast =
          applyMutations bitVectorLast.toNat (contents mem pBitVector bitVectorLast) calls ∧
        PaddingClear mem' pBitVector bitVectorLast ∧
        Unchanged mem mem' pBitVector (nvBitvectorArraySize bitVectorLast.toNat) := by
  induction calls with
  | nil => exact fun mem padding _ => ⟨mem, rfl, rfl, padding, Unchanged.refl⟩
  | cons m rest ih =>
      intro mem padding permitted
      obtain ⟨⟨status, mem₁⟩, call, yields⟩ :=
        Mutation.call_spec positive padding (permitted m List.mem_cons_self)
      have ok : status = .nvOk := yields.ok
      obtain ⟨mem', run, flags, padding', frame⟩ :=
        ih mem₁ yields.padding fun other member => permitted other (List.mem_cons_of_mem m member)
      refine ⟨mem', ?_, ?_, padding', yields.frame.trans frame⟩
      · rw [runMutations, call, ok]
        exact run
      · rw [flags, yields.contents_eq]
        rfl

/-- After a run of allowed calls from a vector with its padding clear, every
query answers for the set the same calls compute on `Finset Nat`, and no word
outside the vector has changed. -/
theorem runMutations_queries (calls : List Mutation) {mem : Nat → UInt64}
    (padding : PaddingClear mem pBitVector bitVectorLast)
    (permitted : ∀ m ∈ calls, m.allowed bitVectorLast.toNat = true) :
    ∃ mem', runMutations pBitVector bitVectorLast calls mem = some mem' ∧
      AnswersFor mem' pBitVector bitVectorLast
        (applyMutations bitVectorLast.toNat (contents mem pBitVector bitVectorLast) calls) ∧
      Unchanged mem mem' pBitVector (nvBitvectorArraySize bitVectorLast.toNat) := by
  obtain ⟨mem', run, flags, padding', unchanged⟩ := runMutations_spec positive calls mem padding permitted
  rw [← flags]
  exact ⟨mem', run, answersFor_contents positive padding', unchanged⟩

end Runs

def sampleMutations : List Mutation := [.set 3, .setRange ⟨10, 20⟩, .clr 15, .inv 64]

theorem sampleMutations_queries :
    0 < (65 : UInt16).toNat ∧ PaddingClear (fun _ => 0) 0 65 ∧
      (∀ m ∈ sampleMutations, m.allowed (65 : UInt16).toNat = true) ∧
      ∃ mem', runMutations 0 65 sampleMutations (fun _ => 0) = some mem' ∧
        AnswersFor mem' 0 65 (applyMutations (65 : UInt16).toNat (contents (fun _ => 0) 0 65) sampleMutations) ∧
        Unchanged (fun _ => 0) mem' 0 (nvBitvectorArraySize (65 : UInt16).toNat) :=
  have padding : PaddingClear (fun _ => 0) 0 65 := fun _ _ _ => by simp [bitVectorBit, Bitmap.bitAt]
  ⟨by decide, padding, by decide, runMutations_queries (by decide) sampleMutations padding (by decide)⟩

end NvidiaGpu.BitVector
