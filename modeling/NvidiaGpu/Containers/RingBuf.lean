import NvidiaGpu.Library.Align
import NvidiaGpu.Library.Window
import NvidiaGpu.Library.BoundedFifo

set_option autoImplicit false

/-! The ring buffer of `ringbuf.c`.  `head` and `tail` are free-running 64-bit
counters, reduced to a slot of the `2^logSz` slots only to index the array,
and the element count is `head - tail`.  The array is seen element by element:
`arr i` is the element in slot `i`, whatever the element size `eleSz`.  Each
call is related to a FIFO sequence of at most `2^logSz` elements, on buffers
whose head counter is below `2^64 - 2^logSz`. -/

namespace NvidiaGpu.RingBuf

open Window

structure RingBufBase (α : Type) where
  head : UInt64
  tail : UInt64
  logSz : UInt64
  arr : Nat → α

variable {α : Type}

def ringbufArraySize (base : RingBufBase α) : UInt64 :=
  1 <<< base.logSz

def ringbufArrayMask (base : RingBufBase α) : UInt64 :=
  ringbufArraySize base - 1

def ringbufConstruct (logSz : UInt64) (arr : Option (Nat → α)) : Option (RingBufBase α) :=
  arr.map fun arr => { head := 0, tail := 0, logSz := logSz, arr := arr }

def ringbufConstructDynamic (logSz : UInt64) (allocated : Option (Nat → α)) :
    Option (RingBufBase α) :=
  if logSz < 64 then ringbufConstruct logSz allocated else none

/-- The slot the returned pointer points at (`none` for `NULL`) and the new
`*pMax`. -/
def ringbufPeekN (base : RingBufBase α) (pMax : UInt64) : Option Nat × UInt64 :=
  let mask := ringbufArrayMask base
  let ret := (base.tail &&& mask).toNat
  let max := Align.alignUp (base.tail + 1) (ringbufArraySize base)
  let max := if max > base.head then base.head else max
  let max := max - base.tail
  let max := if max > pMax then pMax else max
  (if max = 0 then none else some ret, max)

def ringbufPopN (base : RingBufBase α) (pMax : UInt64) : Option Nat × UInt64 × RingBufBase α :=
  match ringbufPeekN base pMax with
  | (none, pMax) => (none, pMax, base)
  | (some ret, pMax) => (some ret, pMax, { base with tail := base.tail + pMax })

/-- The copy loop of `ringbufAppendN`: each round copies the values that fit
before the end of the array.  `fuel` bounds the rounds; `none` when it runs
out, which `ringbufAppendLoop_spec` rules out. -/
def ringbufAppendLoop (fuel : Nat) (base : RingBufBase α) (pEle : Nat → α) (num : UInt64) :
    Option (RingBufBase α) :=
  if num = 0 then some base
  else
    match fuel with
    | 0 => none
    | fuel + 1 =>
      let mask := ringbufArrayMask base
      let pPtr := (base.head &&& mask).toNat
      let max := Align.alignUp (base.head + 1) (ringbufArraySize base)
      let max := max - base.head
      let max := if max > num then num else max
      ringbufAppendLoop fuel
        { base with arr := writeRun base.arr pPtr pEle max.toNat, head := base.head + max }
        (fun offset => pEle (max.toNat + offset)) (num - max)

def ringbufAppendN (base : RingBufBase α) (pEle : Nat → α) (num : UInt64) (bOverwrite : Bool) :
    Option (Bool × RingBufBase α) :=
  if ringbufArraySize base - (if bOverwrite then 0 else base.head - base.tail) < num then
    some (false, base)
  else
    (ringbufAppendLoop num.toNat base pEle num).map fun base =>
      (true, { base with
        tail := if base.head - base.tail > 1 <<< base.logSz then base.head - 1 <<< base.logSz
          else base.tail })

def ringbufCurrentSize (base : RingBufBase α) : UInt64 :=
  base.head - base.tail

def contents (base : RingBufBase α) : List α :=
  window base.arr (2 ^ base.logSz.toNat) base.tail.toNat (ringbufCurrentSize base).toNat

/-- `logSz` below 64, as both constructors ensure, and at most `2^logSz`
elements between `tail` and `head`. -/
structure RingBufBase.Valid (base : RingBufBase α) : Prop where
  logBelow : base.logSz.toNat < 64
  ordered : base.tail.toNat ≤ base.head.toNat
  sizeBelow : base.head.toNat - base.tail.toNat ≤ 2 ^ base.logSz.toNat

/-- The head counter is below `2^64 - 2^logSz`, so that no counter of a call
wraps. -/
def HeadBelow (base : RingBufBase α) : Prop :=
  base.head.toNat < 2 ^ 64 - 2 ^ base.logSz.toNat

instance (base : RingBufBase α) : Decidable (HeadBelow base) :=
  inferInstanceAs (Decidable (base.head.toNat < 2 ^ 64 - 2 ^ base.logSz.toNat))

@[simp] theorem length_contents (base : RingBufBase α) :
    (contents base).length = (ringbufCurrentSize base).toNat :=
  length_window

theorem toNat_ringbufArraySize {base : RingBufBase α} (logBelow : base.logSz.toNat < 64) :
    (ringbufArraySize base).toNat = 2 ^ base.logSz.toNat := by
  have fits : 2 ^ base.logSz.toNat < 2 ^ 64 := Nat.pow_lt_pow_right (by norm_num) logBelow
  unfold ringbufArraySize
  rw [UInt64.toNat_shiftLeft, UInt64.toNat_one, Nat.mod_eq_of_lt logBelow, Nat.shiftLeft_eq,
    Nat.one_mul, Nat.mod_eq_of_lt fits]

theorem toNat_and_ringbufArrayMask {base : RingBufBase α} (logBelow : base.logSz.toNat < 64)
    (counter : UInt64) :
    (counter &&& ringbufArrayMask base).toNat = counter.toNat % 2 ^ base.logSz.toNat := by
  have sizeNat := toNat_ringbufArraySize logBelow
  have oneLe : 1 ≤ ringbufArraySize base :=
    UInt64.le_iff_toNat_le.mpr (by rw [sizeNat, UInt64.toNat_one]; exact Nat.one_le_two_pow)
  unfold ringbufArrayMask
  rw [UInt64.toNat_and, UInt64.toNat_sub_of_le _ _ oneLe, sizeNat, UInt64.toNat_one,
    Nat.and_two_pow_sub_one_eq_mod]

theorem ringbufAppendLoop_zero (fuel : Nat) (base : RingBufBase α) (pEle : Nat → α) :
    ringbufAppendLoop fuel base pEle 0 = some base := by
  unfold ringbufAppendLoop
  rw [if_pos rfl]

theorem ringbufAppendLoop_spec (fuel : Nat) (base : RingBufBase α) (pEle : Nat → α) (num : UInt64)
    (logBelow : base.logSz.toNat < 64) (enough : num.toNat ≤ fuel)
    (noWrap : base.head.toNat + num.toNat < 2 ^ 64) (fits : num.toNat ≤ 2 ^ base.logSz.toNat) :
    ∃ after, ringbufAppendLoop fuel base pEle num = some after ∧
      after.head.toNat = base.head.toNat + num.toNat ∧ after.tail = base.tail ∧
      after.logSz = base.logSz ∧
      WritesAround base.arr after.arr (2 ^ base.logSz.toNat) base.head.toNat pEle num.toNat := by
  by_cases finished : num = 0
  · subst finished
    refine ⟨base, ringbufAppendLoop_zero fuel base pEle, by simp, rfl, rfl, ?_⟩
    rw [UInt64.toNat_zero]
    exact writesAround_zero
  have positive : 0 < num.toNat := by
    rw [Nat.pos_iff_ne_zero, ← UInt64.toNat_zero, Ne, UInt64.toNat_inj]
    exact finished
  induction fuel generalizing base pEle num with
  | zero => omega
  | succ fuel ih =>
      have sizeNat := toNat_ringbufArraySize logBelow
      have remainder := Nat.mod_lt base.head.toNat (Nat.two_pow_pos base.logSz.toNat)
      have takenNat : (if Align.alignUp (base.head + 1) (ringbufArraySize base) - base.head > num then num
          else Align.alignUp (base.head + 1) (ringbufArraySize base) - base.head).toNat =
          min (2 ^ base.logSz.toNat - base.head.toNat % 2 ^ base.logSz.toNat) num.toNat := by
        rw [Align.toNat_clamp, Align.toNat_alignUp_succ_sub sizeNat]
      unfold ringbufAppendLoop
      rw [if_neg finished]
      dsimp only
      generalize (if Align.alignUp (base.head + 1) (ringbufArraySize base) - base.head > num then num
          else Align.alignUp (base.head + 1) (ringbufArraySize base) - base.head) = taken at takenNat ⊢
      have headNat : (base.head + taken).toNat = base.head.toNat + taken.toNat := by
        rw [UInt64.toNat_add, Nat.mod_eq_of_lt (by omega)]
      have restNat : (num - taken).toNat = num.toNat - taken.toNat :=
        UInt64.toNat_sub_of_le _ _ (UInt64.le_iff_toNat_le.mpr (by omega))
      have first : WritesAround base.arr (writeRun base.arr (base.head &&& ringbufArrayMask base).toNat
          pEle taken.toNat) (2 ^ base.logSz.toNat) base.head.toNat pEle taken.toNat := by
        rw [toNat_and_ringbufArrayMask logBelow]
        exact writesAround_writeRun (Nat.two_pow_pos _) (by omega)
      by_cases done : num - taken = 0
      · have takenAll : taken.toNat = num.toNat := by
          have restZero := congrArg UInt64.toNat done
          rw [restNat, UInt64.toNat_zero] at restZero
          omega
        rw [done, ringbufAppendLoop_zero]
        refine ⟨_, rfl, by rw [headNat, takenAll], rfl, rfl, ?_⟩
        rw [← takenAll]
        exact first
      · have restPositive : 0 < (num - taken).toNat := by
          rw [Nat.pos_iff_ne_zero, ← UInt64.toNat_zero, Ne, UInt64.toNat_inj]
          exact done
        obtain ⟨after, loopIs, afterHead, afterTail, afterLog, rest⟩ :=
          ih { base with
              arr := writeRun base.arr (base.head &&& ringbufArrayMask base).toNat pEle taken.toNat,
              head := base.head + taken }
            (fun offset => pEle (taken.toNat + offset)) (num - taken) logBelow
            (by rw [restNat]; omega) (by dsimp only; rw [headNat, restNat]; omega)
            (by dsimp only; rw [restNat]; omega) done restPositive
        dsimp only at afterHead afterTail afterLog rest
        rw [headNat, restNat] at rest
        rw [headNat, restNat] at afterHead
        have whole := first.trans rest (by omega)
        rw [Nat.add_sub_cancel' (by omega)] at whole
        exact ⟨after, loopIs, by omega, afterTail, afterLog, whole⟩

theorem run_eq_take_contents (base : RingBufBase α) {taken : Nat}
    (within : taken ≤ (ringbufCurrentSize base).toNat)
    (fits : base.tail.toNat % 2 ^ base.logSz.toNat + taken ≤ 2 ^ base.logSz.toNat) :
    (List.range taken).map (fun offset => base.arr (base.tail.toNat % 2 ^ base.logSz.toNat + offset)) =
      (contents base).take taken := by
  rw [contents, take_window within, window_eq_run fits]

/-- The sequence after an append: all values or nothing, or with `bOverwrite`
all values, at most `bound` of them, dropping the oldest items. -/
def appendSpec (bOverwrite : Bool) (items : List α) (bound : Nat) (values : List α) :
    Option (List α) :=
  if bOverwrite then BoundedFifo.pushOverwrite items bound values
  else BoundedFifo.pushAll items bound values

variable {bOverwrite : Bool} {items : List α} {bound : Nat} {values : List α} in
theorem appendSpec_of_fits (within : items.length ≤ bound)
    (fits : values.length ≤ bound - if bOverwrite then 0 else items.length) :
    appendSpec bOverwrite items bound values =
      some ((items ++ values).drop (items.length + values.length - bound)) := by
  cases bOverwrite with
  | false =>
      have roomy : values.length ≤ bound - items.length := fits
      rw [appendSpec, if_neg Bool.false_ne_true, BoundedFifo.pushAll, if_pos roomy,
        show items.length + values.length - bound = 0 by omega, List.drop_zero]
  | true =>
      have roomy : values.length ≤ bound := fits
      rw [appendSpec, if_pos rfl, BoundedFifo.pushOverwrite, if_pos roomy]

variable {bOverwrite : Bool} {items : List α} {bound : Nat} {values : List α} in
theorem appendSpec_of_not_fits (tooMany : ¬values.length ≤ bound - if bOverwrite then 0 else items.length) :
    appendSpec bOverwrite items bound values = none := by
  cases bOverwrite with
  | false =>
      have crowded : ¬values.length ≤ bound - items.length := tooMany
      rw [appendSpec, if_neg Bool.false_ne_true, BoundedFifo.pushAll, if_neg crowded]
  | true =>
      have crowded : ¬values.length ≤ bound := tooMany
      rw [appendSpec, if_pos rfl, BoundedFifo.pushOverwrite, if_neg crowded]

/-- What a peek of at most `pMax` elements returns: the oldest elements, as
many as asked for, as there are and as lie before the end of the array, read as
one run of slots from the oldest element's slot on. -/
def PeekRefines (base : RingBufBase α) (pMax : UInt64) (peeked : Option Nat × UInt64) : Prop :=
  peeked.2.toNat = min pMax.toNat (min (contents base).length
      (2 ^ base.logSz.toNat - base.tail.toNat % 2 ^ base.logSz.toNat)) ∧
    peeked.1 = (if peeked.2.toNat = 0 then none else some (base.tail.toNat % 2 ^ base.logSz.toNat)) ∧
    (List.range peeked.2.toNat).map (fun offset => base.arr (base.tail.toNat % 2 ^ base.logSz.toNat + offset)) =
      (contents base).take peeked.2.toNat

section Valid

variable {base : RingBufBase α} (valid : base.Valid)
include valid

theorem toNat_ringbufCurrentSize :
    (ringbufCurrentSize base).toNat = base.head.toNat - base.tail.toNat :=
  UInt64.toNat_sub_of_le _ _ (UInt64.le_iff_toNat_le.mpr valid.ordered)

theorem ringbufPeekN_spec (below : HeadBelow base) (pMax : UInt64) :
    (ringbufPeekN base pMax).2.toNat =
        min pMax.toNat (min (base.head.toNat - base.tail.toNat)
          (2 ^ base.logSz.toNat - base.tail.toNat % 2 ^ base.logSz.toNat)) ∧
      (ringbufPeekN base pMax).1 =
        if (ringbufPeekN base pMax).2 = 0 then none
        else some (base.tail.toNat % 2 ^ base.logSz.toNat) := by
  have ordered := valid.ordered
  have sizeNat := toNat_ringbufArraySize valid.logBelow
  have remainder := Nat.mod_lt base.tail.toNat (Nat.two_pow_pos base.logSz.toNat)
  unfold HeadBelow at below
  have boundary : (Align.alignUp (base.tail + 1) (ringbufArraySize base)).toNat =
      base.tail.toNat + (2 ^ base.logSz.toNat - base.tail.toNat % 2 ^ base.logSz.toNat) := by
    rw [Align.toNat_alignUp_succ sizeNat, Nat.mod_eq_of_lt (by omega)]
  unfold ringbufPeekN
  dsimp only
  rw [toNat_and_ringbufArrayMask valid.logBelow]
  refine ⟨?_, rfl⟩
  generalize Align.alignUp (base.tail + 1) (ringbufArraySize base) = next at boundary
  have limitedNat := Align.toNat_clamp next base.head
  have availableNat : ((if next > base.head then base.head else next) - base.tail).toNat =
      (if next > base.head then base.head else next).toNat - base.tail.toNat :=
    UInt64.toNat_sub_of_le _ _ (UInt64.le_iff_toNat_le.mpr (by omega))
  rw [Align.toNat_clamp, availableNat, limitedNat]
  omega

theorem ringbufPopN_spec (below : HeadBelow base) (pMax : UInt64) :
    (ringbufPopN base pMax).1 = (ringbufPeekN base pMax).1 ∧
      (ringbufPopN base pMax).2.1 = (ringbufPeekN base pMax).2 ∧
      (ringbufPopN base pMax).2.2.Valid ∧
      (ringbufPopN base pMax).2.2.head = base.head ∧ (ringbufPopN base pMax).2.2.logSz = base.logSz ∧
      contents (ringbufPopN base pMax).2.2 = (contents base).drop (ringbufPeekN base pMax).2.toNat := by
  obtain ⟨gotNat, retIs⟩ := ringbufPeekN_spec valid below pMax
  have countNat := toNat_ringbufCurrentSize valid
  unfold ringbufPopN
  generalize ringbufPeekN base pMax = peeked at gotNat retIs
  obtain ⟨ret, got⟩ := peeked
  dsimp only at gotNat retIs
  cases ret with
  | none =>
      have gotZero : got = 0 := by
        by_contra nonzero
        rw [if_neg nonzero] at retIs
        cases retIs
      subst gotZero
      exact ⟨rfl, rfl, valid, rfl, rfl, by rw [UInt64.toNat_zero, List.drop_zero]⟩
  | some ret =>
      have ordered := valid.ordered
      have headBelow := base.head.toNat_lt
      have tailNat : (base.tail + got).toNat = base.tail.toNat + got.toNat := by
        rw [UInt64.toNat_add, Nat.mod_eq_of_lt (by omega)]
      refine ⟨rfl, rfl, ⟨valid.logBelow, ?_, ?_⟩, rfl, rfl, ?_⟩
      · dsimp only
        omega
      · dsimp only
        have sizeBelow := valid.sizeBelow
        omega
      · have countAfter : (base.head - (base.tail + got)).toNat =
            base.head.toNat - base.tail.toNat - got.toNat := by
          rw [UInt64.toNat_sub_of_le _ _ (UInt64.le_iff_toNat_le.mpr (by omega)), tailNat]
          omega
        show window base.arr _ (base.tail + got).toNat (base.head - (base.tail + got)).toNat =
          (contents base).drop got.toNat
        rw [contents, countNat, drop_window (by omega), countAfter, tailNat]

theorem ringbufAppendN_spec (below : HeadBelow base) (pEle : Nat → α) (num : UInt64)
    (bOverwrite : Bool) :
    ∃ appended, ringbufAppendN base pEle num bOverwrite = some appended ∧
      (appended.1 = true ↔
        num.toNat ≤ 2 ^ base.logSz.toNat - if bOverwrite then 0 else (ringbufCurrentSize base).toNat) ∧
      (appended.1 = false → appended.2 = base) ∧
      (appended.1 = true → appended.2.Valid ∧
        contents appended.2 = (contents base ++ (List.range num.toNat).map pEle).drop
          ((ringbufCurrentSize base).toNat + num.toNat - 2 ^ base.logSz.toNat)) := by
  have ordered := valid.ordered
  have sizeBelow := valid.sizeBelow
  have sizeNat := toNat_ringbufArraySize valid.logBelow
  have countNat := toNat_ringbufCurrentSize valid
  unfold HeadBelow at below
  have usedNat : (if bOverwrite then 0 else base.head - base.tail).toNat =
      if bOverwrite then 0 else (ringbufCurrentSize base).toNat := by
    cases bOverwrite
    · rfl
    · rfl
  have roomNat : (ringbufArraySize base - (if bOverwrite then 0 else base.head - base.tail)).toNat =
      2 ^ base.logSz.toNat - if bOverwrite then 0 else (ringbufCurrentSize base).toNat := by
    have usedLe : (if bOverwrite then 0 else base.head - base.tail) ≤ ringbufArraySize base := by
      rw [UInt64.le_iff_toNat_le, usedNat, sizeNat]
      split <;> omega
    rw [UInt64.toNat_sub_of_le _ _ usedLe, sizeNat, usedNat]
  unfold ringbufAppendN
  by_cases fail : ringbufArraySize base - (if bOverwrite then 0 else base.head - base.tail) < num
  · have failNat := UInt64.lt_iff_toNat_lt.mp fail
    rw [roomNat] at failNat
    rw [if_pos fail]
    refine ⟨_, rfl, ?_, fun _ => rfl, fun never => by cases never⟩
    constructor
    · intro never
      cases never
    · intro fits
      omega
  · have fitsNat := UInt64.le_iff_toNat_le.mp (UInt64.not_lt.mp fail)
    rw [roomNat] at fitsNat
    have fitsAll : num.toNat ≤ 2 ^ base.logSz.toNat := by
      split at fitsNat <;> omega
    obtain ⟨after, loopIs, afterHead, afterTail, afterLog, writes⟩ :=
      ringbufAppendLoop_spec num.toNat base pEle num valid.logBelow le_rfl (by omega) fitsAll
    rw [if_neg fail, loopIs, Option.map_some]
    refine ⟨_, rfl, iff_of_true rfl fitsNat, fun never => (by cases never), fun _ => ?_⟩
    dsimp only
    have shiftNat : ((1 : UInt64) <<< after.logSz).toNat = 2 ^ base.logSz.toNat := by
      rw [← afterLog]
      exact toNat_ringbufArraySize (afterLog ▸ valid.logBelow)
    have spanNat : (after.head - after.tail).toNat = base.head.toNat + num.toNat - base.tail.toNat := by
      rw [UInt64.toNat_sub_of_le _ _ (UInt64.le_iff_toNat_le.mpr (by rw [afterTail]; omega)),
        afterHead, afterTail]
    have newTailNat : (if after.head - after.tail > 1 <<< after.logSz then after.head - 1 <<< after.logSz
        else after.tail).toNat = base.tail.toNat +
          ((base.head.toNat - base.tail.toNat) + num.toNat - 2 ^ base.logSz.toNat) := by
      split_ifs with overfull
      · have overNat := UInt64.lt_iff_toNat_lt.mp overfull
        rw [spanNat, shiftNat] at overNat
        rw [UInt64.toNat_sub_of_le _ _ (UInt64.le_iff_toNat_le.mpr (by rw [shiftNat]; omega)),
          shiftNat, afterHead]
        omega
      · have withinNat := UInt64.le_iff_toNat_le.mp (UInt64.not_lt.mp overfull)
        rw [spanNat, shiftNat] at withinNat
        rw [afterTail]
        omega
    generalize (if after.head - after.tail > 1 <<< after.logSz then after.head - 1 <<< after.logSz
        else after.tail) = newTail at newTailNat
    have newCountNat : (after.head - newTail).toNat = (base.head.toNat - base.tail.toNat) + num.toNat -
        ((base.head.toNat - base.tail.toNat) + num.toNat - 2 ^ base.logSz.toNat) := by
      rw [UInt64.toNat_sub_of_le _ _ (UInt64.le_iff_toNat_le.mpr (by omega)), newTailNat, afterHead]
      omega
    refine ⟨⟨afterLog ▸ valid.logBelow, by dsimp only; omega, by dsimp only; rw [afterLog]; omega⟩, ?_⟩
    have writesBehind : WritesAround base.arr after.arr (2 ^ base.logSz.toNat)
        (base.tail.toNat + (base.head.toNat - base.tail.toNat)) pEle num.toNat := by
      rw [Nat.add_sub_cancel' ordered]
      exact writes
    show window after.arr (2 ^ after.logSz.toNat) newTail.toNat (after.head - newTail).toNat = _
    rw [afterLog, newTailNat, newCountNat, contents, countNat]
    exact window_of_writesAround writesBehind (by omega) (by omega)

theorem ringbufAppendN_refines (below : HeadBelow base) (pEle : Nat → α) (num : UInt64)
    (bOverwrite : Bool) :
    ∃ appended, ringbufAppendN base pEle num bOverwrite = some appended ∧
      appended.1 = (appendSpec bOverwrite (contents base) (2 ^ base.logSz.toNat)
        ((List.range num.toNat).map pEle)).isSome ∧
      contents appended.2 = (appendSpec bOverwrite (contents base) (2 ^ base.logSz.toNat)
        ((List.range num.toNat).map pEle)).getD (contents base) ∧
      appended.2.Valid ∧ (appended.1 = false → appended.2 = base) := by
  obtain ⟨appended, appendedIs, succeeds, unchanged, written⟩ :=
    ringbufAppendN_spec valid below pEle num bOverwrite
  refine ⟨appended, appendedIs, ?_⟩
  have valuesLength : ((List.range num.toNat).map pEle).length = num.toNat := by simp
  cases ok : appended.1
  · have tooMany : ¬num.toNat ≤ 2 ^ base.logSz.toNat -
        if bOverwrite then 0 else (ringbufCurrentSize base).toNat :=
      fun fits => Bool.false_ne_true (ok ▸ succeeds.mpr fits)
    rw [← valuesLength, ← length_contents] at tooMany
    rw [unchanged ok, appendSpec_of_not_fits tooMany]
    exact ⟨rfl, rfl, valid, fun _ => rfl⟩
  · have fits := succeeds.mp ok
    rw [← valuesLength, ← length_contents] at fits
    obtain ⟨appendedValid, appendedContents⟩ := written ok
    have within : (contents base).length ≤ 2 ^ base.logSz.toNat := by
      rw [length_contents, toNat_ringbufCurrentSize valid]
      exact valid.sizeBelow
    rw [appendSpec_of_fits within fits]
    refine ⟨rfl, ?_, appendedValid, fun never => by cases never⟩
    rw [appendedContents, Option.getD_some, length_contents, valuesLength]

theorem ringbufPeekN_refines (below : HeadBelow base) (pMax : UInt64) :
    PeekRefines base pMax (ringbufPeekN base pMax) := by
  obtain ⟨gotNat, retIs⟩ := ringbufPeekN_spec valid below pMax
  have countNat := toNat_ringbufCurrentSize valid
  refine ⟨by rw [length_contents, countNat]; exact gotNat, ?_,
    run_eq_take_contents base (by omega) (by omega)⟩
  rw [retIs]
  by_cases zero : (ringbufPeekN base pMax).2.toNat = 0
  · have zeroWord : (ringbufPeekN base pMax).2 = 0 :=
      UInt64.toNat_inj.mp (zero.trans UInt64.toNat_zero.symm)
    rw [if_pos zeroWord, if_pos zero]
  · have nonzeroWord : (ringbufPeekN base pMax).2 ≠ 0 := fun zeroWord => zero (by rw [zeroWord]; rfl)
    rw [if_neg nonzeroWord, if_neg zero]

end Valid

end NvidiaGpu.RingBuf
