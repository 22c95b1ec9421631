import NvidiaGpu.Containers.RingBuf

set_option autoImplicit false

/-! Runs of the ring buffer: any sequence of appends, with or without
overwrite, and pops after a successful `ringbufConstructDynamic`, with the head
counter below `2^64 - 2^logSz` in every buffer reached.  Every buffer reached
refines a FIFO sequence of at most `2^logSz` elements. -/

namespace NvidiaGpu.RingBuf

variable {α : Type}

/-- A call that changes the buffer, with its arguments. -/
inductive RingOp (α : Type)
  | appendN (pEle : Nat → α) (num : UInt64) (bOverwrite : Bool)
  | popN (pMax : UInt64)

/-- The buffer after the call; `none` only where the copy loop of an append
would run out of fuel. -/
def RingOp.apply (base : RingBufBase α) : RingOp α → Option (RingBufBase α)
  | .appendN pEle num bOverwrite => (ringbufAppendN base pEle num bOverwrite).map Prod.snd
  | .popN pMax => some (ringbufPopN base pMax).2.2

/-- Buffers reached from a successful `ringbufConstructDynamic` by calls after
each of which the head counter is below `2^64 - 2^logSz`. -/
inductive Reachable : RingBufBase α → Prop
  | init {logSz : UInt64} {allocated : Option (Nat → α)} {base : RingBufBase α} :
      ringbufConstructDynamic logSz allocated = some base → Reachable base
  | step {base after : RingBufBase α} (op : RingOp α) :
      Reachable base → op.apply base = some after → HeadBelow after → Reachable after

/-- The buffer seen as a FIFO sequence of at most `2^logSz` elements: its size,
and what appends, peeks and pops do to the sequence. -/
def FifoSpec (base : RingBufBase α) : Prop :=
  (ringbufCurrentSize base).toNat = (contents base).length ∧
    (contents base).length ≤ 2 ^ base.logSz.toNat ∧
    (∀ pEle num bOverwrite, ∃ appended, ringbufAppendN base pEle num bOverwrite = some appended ∧
      appended.1 = (appendSpec bOverwrite (contents base) (2 ^ base.logSz.toNat)
        ((List.range num.toNat).map pEle)).isSome ∧
      contents appended.2 = (appendSpec bOverwrite (contents base) (2 ^ base.logSz.toNat)
        ((List.range num.toNat).map pEle)).getD (contents base) ∧
      (appended.1 = false → appended.2 = base)) ∧
    (∀ pMax, PeekRefines base pMax (ringbufPeekN base pMax)) ∧
    (∀ pMax, (ringbufPopN base pMax).1 = (ringbufPeekN base pMax).1 ∧
      (ringbufPopN base pMax).2.1 = (ringbufPeekN base pMax).2 ∧
      contents (ringbufPopN base pMax).2.2 = (contents base).drop (ringbufPeekN base pMax).2.toNat)

section Valid

variable {base : RingBufBase α} (valid : base.Valid) (below : HeadBelow base)
include valid below

theorem RingBufBase.Valid.fifoSpec : FifoSpec base := by
  refine ⟨(length_contents base).symm, ?_, fun pEle num bOverwrite => ?_,
    ringbufPeekN_refines valid below, fun pMax => ?_⟩
  · rw [length_contents, toNat_ringbufCurrentSize valid]
    exact valid.sizeBelow
  · obtain ⟨appended, appendedIs, succeeds, appendedContents, -, unchanged⟩ :=
      ringbufAppendN_refines valid below pEle num bOverwrite
    exact ⟨appended, appendedIs, succeeds, appendedContents, unchanged⟩
  · obtain ⟨ret, got, -, -, -, popped⟩ := ringbufPopN_spec valid below pMax
    exact ⟨ret, got, popped⟩

theorem RingOp.apply_valid {after : RingBufBase α} (op : RingOp α) (applied : op.apply base = some after) :
    after.Valid := by
  cases op with
  | appendN pEle num bOverwrite =>
      obtain ⟨appended, appendedIs, -, -, appendedValid, -⟩ :=
        ringbufAppendN_refines valid below pEle num bOverwrite
      rw [RingOp.apply, appendedIs, Option.map_some, Option.some.injEq] at applied
      rw [← applied]
      exact appendedValid
  | popN pMax =>
      rw [RingOp.apply, Option.some.injEq] at applied
      rw [← applied]
      exact (ringbufPopN_spec valid below pMax).2.2.1

end Valid

theorem ringbufConstructDynamic_valid {logSz : UInt64} {allocated : Option (Nat → α)}
    {base : RingBufBase α} (constructed : ringbufConstructDynamic logSz allocated = some base) :
    base.Valid ∧ HeadBelow base := by
  unfold ringbufConstructDynamic at constructed
  split_ifs at constructed with logBelow
  cases allocated with
  | none => cases constructed
  | some arr =>
      rw [ringbufConstruct, Option.map_some, Option.some.injEq] at constructed
      subst constructed
      have logNat : logSz.toNat < 64 := UInt64.lt_iff_toNat_lt.mp logBelow
      have fits : 2 ^ logSz.toNat < 2 ^ 64 := Nat.pow_lt_pow_right (by norm_num) logNat
      refine ⟨⟨logNat, le_rfl, by simp⟩, ?_⟩
      unfold HeadBelow
      dsimp only
      rw [UInt64.toNat_zero]
      omega

/-- Every buffer reached is consistent, with its head counter below
`2^64 - 2^logSz`. -/
theorem Reachable.valid {base : RingBufBase α} (reachable : Reachable base) :
    base.Valid ∧ HeadBelow base := by
  induction reachable with
  | init constructed => exact ringbufConstructDynamic_valid constructed
  | step op _ applied below ih => exact ⟨op.apply_valid ih.1 ih.2 applied, below⟩

/-- Every ring buffer reached by appends and pops that keep the head counter
below `2^64 - 2^logSz` refines a FIFO sequence of at most `2^logSz` elements. -/
theorem reachable_ringbuf_refines {base : RingBufBase α} (reachable : Reachable base) :
    FifoSpec base :=
  reachable.valid.1.fifoSpec reachable.valid.2

/-- A buffer of four slots: three appended, two popped, three appended around
the end of the array, then two appended over the oldest. -/
def wrappedRing : RingBufBase Nat :=
  let start : RingBufBase Nat := { head := 0, tail := 0, logSz := 2, arr := fun _ => 0 }
  let filled := ((RingOp.appendN id 3 false).apply start).getD start
  let popped := ((RingOp.popN 2).apply filled).getD filled
  let wrapped := ((RingOp.appendN (fun offset => 10 + offset) 3 false).apply popped).getD popped
  ((RingOp.appendN (fun offset => 20 + offset) 2 true).apply wrapped).getD wrapped

example : wrappedRing.tail = 4 ∧ contents wrappedRing = [11, 12, 20, 21] := by decide

theorem wrappedRing_refines : FifoSpec wrappedRing :=
  reachable_ringbuf_refines
    (.step (.appendN (fun offset => 20 + offset) 2 true)
      (.step (.appendN (fun offset => 10 + offset) 3 false)
        (.step (.popN 2)
          (.step (.appendN id 3 false) (@Reachable.init _ 2 (some fun _ => 0) _ rfl) rfl (by decide))
          rfl (by decide))
        rfl (by decide))
      rfl (by decide))

end NvidiaGpu.RingBuf
