import NvidiaGpu.Library.Window
import NvidiaGpu.Library.BoundedFifo
import NvidiaGpu.Status

set_option autoImplicit false

/-! The managed circular queue of `queue.c`.  Only the indices tell a full
queue from an empty one, so `circularQueueInit` allocates one slot more than
asked for.  The buffer is seen as slots of `msgSize` bytes each, written and
read by the managed copy routine; a copy whose bytes run past the buffer
`PORT_ALLOC` returned is undefined behaviour, `none` here.  Indices, counts and
sizes are `NvLength`, 64-bit words. -/

namespace NvidiaGpu.CircularQueue

open Window

/-- The queue, with the size in bytes of the buffer `pData` points at. -/
structure Queue (α : Type) where
  data : Nat → α
  dataSize : UInt64
  msgSize : UInt64
  capacity : UInt64
  getIdx : UInt64
  putIdx : UInt64

variable {α : Type}

/-- `PORT_ALLOC` through `_portMemAllocatorAlloc`: a request of no bytes gets
`NULL`, any other the allocator's answer `allocate length`. -/
def portAlloc (allocate : UInt64 → Option (Nat → α)) (length : UInt64) : Option (Nat → α) :=
  if length > 0 then allocate length else none

def circularQueueInitCommon (data : Nat → α) (dataSize capacity msgSize : UInt64) : Queue α :=
  { data := data, dataSize := dataSize, msgSize := msgSize, capacity := capacity, getIdx := 0, putIdx := 0 }

def circularQueueInit (allocate : UInt64 → Option (Nat → α)) (capacity msgSize : UInt64) :
    NvStatus × Option (Queue α) :=
  let capacity := capacity + 1
  match portAlloc allocate (capacity * msgSize) with
  | none => (.nvErrNoMemory, none)
  | some data => (.nvOk, some (circularQueueInitCommon data (capacity * msgSize) capacity msgSize))

def queueGetCount (queue : Queue α) : UInt64 :=
  if queue.putIdx ≥ queue.getIdx then queue.putIdx - queue.getIdx
  else queue.putIdx + queue.capacity - queue.getIdx

def circularQueueCapacity (queue : Queue α) : UInt64 :=
  queue.capacity - 1

def circularQueueCount (queue : Queue α) : UInt64 :=
  queueGetCount queue

def circularQueueIsEmpty (queue : Queue α) : Bool :=
  queueGetCount queue == 0

/-- The bytes `managedCopyData` copies for `count` elements from slot `opIdx`
on lie inside a buffer of `dataSize` bytes. -/
def copyInside (msgSize dataSize opIdx count : UInt64) : Prop :=
  (opIdx.toNat + count.toNat) * msgSize.toNat ≤ dataSize.toNat

instance (msgSize dataSize opIdx count : UInt64) : Decidable (copyInside msgSize dataSize opIdx count) :=
  inferInstanceAs (Decidable (_ ≤ _))

/-- `managedCopyData` copying in: `count` elements of the caller's array into
the slots from `opIdx` on. -/
def managedCopyIn (msgSize dataSize : UInt64) (data : Nat → α) (opIdx : UInt64) (src : Nat → α) (count : UInt64) :
    Option (Nat → α) :=
  if copyInside msgSize dataSize opIdx count then some (writeRun data opIdx.toNat src count.toNat) else none

def managedCopyOut (msgSize dataSize : UInt64) (data : Nat → α) (opIdx : UInt64) : Option α :=
  if copyInside msgSize dataSize opIdx 1 then some (data opIdx.toNat) else none

def circularQueuePush (queue : Queue α) (elements : Nat → α) (numElements : UInt64) :
    Option (Queue α × UInt64) :=
  let putIdx := queue.putIdx
  let capacity := queue.capacity
  let cntLimit := capacity - queueGetCount queue - 1
  let numElements := if numElements > cntLimit then cntLimit else numElements
  if numElements > 0 then do
    -- at most two copies: up to the end of the buffer, then on from slot 0
    let (putIdx, remainingElemToCpy, copied, data) ←
      if putIdx + numElements > capacity then do
        let elemToCpy := capacity - putIdx
        let data ← managedCopyIn queue.msgSize queue.dataSize queue.data putIdx elements elemToCpy
        pure ((0 : UInt64), numElements - elemToCpy, elemToCpy.toNat, data)
      else pure (putIdx, numElements, 0, queue.data)
    let data ← managedCopyIn queue.msgSize queue.dataSize data putIdx (fun offset => elements (copied + offset))
      remainingElemToCpy
    pure ({ queue with data := data, putIdx := (putIdx + remainingElemToCpy) % capacity }, numElements)
  else pure (queue, numElements)

def circularQueuePeek (queue : Queue α) : Option α :=
  if queueGetCount queue = 0 then none else some (queue.data queue.getIdx.toNat)

def circularQueuePop (queue : Queue α) : Queue α :=
  if queueGetCount queue > 0 then { queue with getIdx := (queue.getIdx + 1) % queue.capacity }
  else queue

def circularQueuePopAndCopy (queue : Queue α) : Option (Option α × Queue α) :=
  if queueGetCount queue > 0 then do
    let element ← managedCopyOut queue.msgSize queue.dataSize queue.data queue.getIdx
    pure (some element, { queue with getIdx := (queue.getIdx + 1) % queue.capacity })
  else pure (none, queue)

def contents (queue : Queue α) : List α :=
  window queue.data queue.capacity.toNat queue.getIdx.toNat (queueGetCount queue).toNat

/-- The indices lie inside a ring of at least two slots, of at most `2^63`
slots so that no index sum of a push passes `2^64`, and the buffer holds every
slot of the ring. -/
structure Queue.Valid (queue : Queue α) : Prop where
  atLeastTwo : 2 ≤ queue.capacity.toNat
  halfWord : queue.capacity.toNat ≤ 2 ^ 63
  getBelow : queue.getIdx.toNat < queue.capacity.toNat
  putBelow : queue.putIdx.toNat < queue.capacity.toNat
  fits : queue.capacity.toNat * queue.msgSize.toNat ≤ queue.dataSize.toNat

section Valid

variable {queue : Queue α} (valid : queue.Valid)
include valid

theorem queueGetCount_spec :
    (queueGetCount queue).toNat < queue.capacity.toNat ∧
      (queue.getIdx.toNat + (queueGetCount queue).toNat = queue.putIdx.toNat ∨
        queue.getIdx.toNat + (queueGetCount queue).toNat = queue.putIdx.toNat + queue.capacity.toNat) := by
  have getBelow := valid.getBelow
  have putBelow := valid.putBelow
  have halfWord := valid.halfWord
  unfold queueGetCount
  split
  · rename_i ahead
    have aheadNat := UInt64.le_iff_toNat_le.mp ahead
    rw [UInt64.toNat_sub_of_le _ _ ahead]
    omega
  · rename_i behind
    have behindNat := UInt64.lt_iff_toNat_lt.mp (UInt64.not_le.mp behind)
    have sum : (queue.putIdx + queue.capacity).toNat = queue.putIdx.toNat + queue.capacity.toNat := by
      rw [UInt64.toNat_add, Nat.mod_eq_of_lt (by omega)]
    rw [UInt64.toNat_sub_of_le _ _ (UInt64.le_iff_toNat_le.mpr (by omega)), sum]
    omega

theorem putIdx_eq_mod :
    queue.putIdx.toNat = (queue.getIdx.toNat + (queueGetCount queue).toNat) % queue.capacity.toNat := by
  have putBelow := valid.putBelow
  rcases (queueGetCount_spec valid).2 with exact | wrapped
  · rw [exact, Nat.mod_eq_of_lt putBelow]
  · rw [wrapped, Nat.add_mod_right, Nat.mod_eq_of_lt putBelow]

theorem toNat_getIdx_succ :
    ((queue.getIdx + 1) % queue.capacity).toNat = (queue.getIdx.toNat + 1) % queue.capacity.toNat := by
  have getBelow := valid.getBelow
  have halfWord := valid.halfWord
  rw [UInt64.toNat_mod, UInt64.toNat_add, UInt64.toNat_one,
    Nat.mod_eq_of_lt (show queue.getIdx.toNat + 1 < 2 ^ 64 by omega)]

theorem managedCopyIn_eq (data src : Nat → α) {opIdx count : UInt64}
    (inside : opIdx.toNat + count.toNat ≤ queue.capacity.toNat) :
    managedCopyIn queue.msgSize queue.dataSize data opIdx src count = some (writeRun data opIdx.toNat src count.toNat) :=
  if_pos (show copyInside _ _ _ _ from (Nat.mul_le_mul_right _ inside).trans valid.fits)

theorem managedCopyOut_eq (data : Nat → α) {opIdx : UInt64} (inside : opIdx.toNat < queue.capacity.toNat) :
    managedCopyOut queue.msgSize queue.dataSize data opIdx = some (data opIdx.toNat) :=
  if_pos (show copyInside _ _ _ _ from (Nat.mul_le_mul_right _ (show opIdx.toNat + (1 : UInt64).toNat ≤ _ by
    rw [UInt64.toNat_one]; omega)).trans valid.fits)

theorem circularQueuePush_writes (elements : Nat → α) (numElements : UInt64) :
    ∃ pushed, circularQueuePush queue elements numElements = some pushed ∧
      pushed.2.toNat = min numElements.toNat (queue.capacity.toNat - (queueGetCount queue).toNat - 1) ∧
      pushed.1 = { queue with data := pushed.1.data, putIdx := pushed.1.putIdx } ∧
      pushed.1.putIdx.toNat = (queue.putIdx.toNat + pushed.2.toNat) % queue.capacity.toNat ∧
      WritesAround queue.data pushed.1.data queue.capacity.toNat queue.putIdx.toNat elements pushed.2.toNat := by
  obtain ⟨countBelow, -⟩ := queueGetCount_spec valid
  have putBelow := valid.putBelow
  have halfWord := valid.halfWord
  have atLeastTwo := valid.atLeastTwo
  have countLe : queueGetCount queue ≤ queue.capacity := UInt64.le_iff_toNat_le.mpr (by omega)
  have roomNat : (queue.capacity - queueGetCount queue).toNat =
      queue.capacity.toNat - (queueGetCount queue).toNat := UInt64.toNat_sub_of_le _ _ countLe
  have oneLe : 1 ≤ queue.capacity - queueGetCount queue :=
    UInt64.le_iff_toNat_le.mpr (by rw [roomNat, UInt64.toNat_one]; omega)
  have limitNat : (queue.capacity - queueGetCount queue - 1).toNat =
      queue.capacity.toNat - (queueGetCount queue).toNat - 1 := by
    rw [UInt64.toNat_sub_of_le _ _ oneLe, roomNat, UInt64.toNat_one]
  have takenNat : (if numElements > queue.capacity - queueGetCount queue - 1 then
      queue.capacity - queueGetCount queue - 1 else numElements).toNat =
        min numElements.toNat (queue.capacity.toNat - (queueGetCount queue).toNat - 1) := by
    split_ifs with more
    · have moreNat := UInt64.lt_iff_toNat_lt.mp more
      rw [limitNat] at moreNat ⊢
      omega
    · have fewerNat := UInt64.le_iff_toNat_le.mp (UInt64.not_lt.mp more)
      rw [limitNat] at fewerNat
      omega
  unfold circularQueuePush
  dsimp only
  generalize (if numElements > queue.capacity - queueGetCount queue - 1 then
      queue.capacity - queueGetCount queue - 1 else numElements) = taken at takenNat ⊢
  have sumNat : (queue.putIdx + taken).toNat = queue.putIdx.toNat + taken.toNat := by
    rw [UInt64.toNat_add, Nat.mod_eq_of_lt (by omega)]
  by_cases positive : taken > 0
  · rw [if_pos positive]
    by_cases wrap : queue.putIdx + taken > queue.capacity
    · have wrapNat := UInt64.lt_iff_toNat_lt.mp wrap
      rw [sumNat] at wrapNat
      have tailLe : queue.putIdx ≤ queue.capacity := UInt64.le_iff_toNat_le.mpr (by omega)
      have headNat : (queue.capacity - queue.putIdx).toNat = queue.capacity.toNat - queue.putIdx.toNat :=
        UInt64.toNat_sub_of_le _ _ tailLe
      have restNat : (taken - (queue.capacity - queue.putIdx)).toNat =
          taken.toNat - (queue.capacity.toNat - queue.putIdx.toNat) := by
        rw [UInt64.toNat_sub_of_le _ _ (UInt64.le_iff_toNat_le.mpr (by omega)), headNat]
      rw [if_pos wrap, managedCopyIn_eq valid _ _ (by rw [headNat]; omega)]
      dsimp only [Option.pure_def, Option.bind_eq_bind, Option.bind_some]
      rw [managedCopyIn_eq valid _ _ (by rw [restNat, UInt64.toNat_zero]; omega)]
      refine ⟨_, rfl, takenNat, rfl, ?_, ?_⟩ <;> dsimp only
      · rw [UInt64.toNat_mod, UInt64.zero_add, restNat,
          Nat.mod_eq_of_lt (show taken.toNat - (queue.capacity.toNat - queue.putIdx.toNat) <
            queue.capacity.toNat by omega)]
        obtain ⟨small, reduced⟩ | ⟨large, reduced⟩ :=
          mod_cases (show queue.putIdx.toNat + taken.toNat < 2 * queue.capacity.toNat by omega)
        · omega
        · omega
      · rw [headNat, restNat, UInt64.toNat_zero]
        have first : WritesAround queue.data
            (writeRun queue.data queue.putIdx.toNat elements (queue.capacity.toNat - queue.putIdx.toNat))
            queue.capacity.toNat queue.putIdx.toNat elements
            (queue.capacity.toNat - queue.putIdx.toNat) :=
          writesAround_writeRun_of_lt putBelow (by omega)
        have endIs : queue.putIdx.toNat + (queue.capacity.toNat - queue.putIdx.toNat) =
            queue.capacity.toNat := by omega
        have fromZero : WritesAround
            (writeRun queue.data queue.putIdx.toNat elements (queue.capacity.toNat - queue.putIdx.toNat))
            (writeRun (writeRun queue.data queue.putIdx.toNat elements
                (queue.capacity.toNat - queue.putIdx.toNat)) 0
              (fun offset => elements (queue.capacity.toNat - queue.putIdx.toNat + offset))
              (taken.toNat - (queue.capacity.toNat - queue.putIdx.toNat)))
            queue.capacity.toNat 0
            (fun offset => elements (queue.capacity.toNat - queue.putIdx.toNat + offset))
            (taken.toNat - (queue.capacity.toNat - queue.putIdx.toNat)) :=
          writesAround_writeRun_of_lt (by omega) (by omega)
        have second : WritesAround
            (writeRun queue.data queue.putIdx.toNat elements (queue.capacity.toNat - queue.putIdx.toNat))
            (writeRun (writeRun queue.data queue.putIdx.toNat elements
                (queue.capacity.toNat - queue.putIdx.toNat)) 0
              (fun offset => elements (queue.capacity.toNat - queue.putIdx.toNat + offset))
              (taken.toNat - (queue.capacity.toNat - queue.putIdx.toNat)))
            queue.capacity.toNat (queue.putIdx.toNat + (queue.capacity.toNat - queue.putIdx.toNat))
            (fun offset => elements (queue.capacity.toNat - queue.putIdx.toNat + offset))
            (taken.toNat - (queue.capacity.toNat - queue.putIdx.toNat)) :=
          writesAround_mod_start.mp (by rw [endIs, Nat.mod_self]; exact fromZero)
        have whole := first.trans second (by omega)
        rw [Nat.add_sub_cancel' (by omega)] at whole
        exact whole
    · have fitsNat := UInt64.le_iff_toNat_le.mp (UInt64.not_lt.mp wrap)
      rw [sumNat] at fitsNat
      rw [if_neg wrap]
      dsimp only [Option.pure_def, Option.bind_eq_bind, Option.bind_some]
      rw [managedCopyIn_eq valid _ _ fitsNat]
      refine ⟨_, rfl, takenNat, rfl, by rw [UInt64.toNat_mod, sumNat], ?_⟩
      have run : WritesAround queue.data
          (writeRun queue.data (queue.putIdx.toNat % queue.capacity.toNat) elements taken.toNat)
          queue.capacity.toNat queue.putIdx.toNat elements taken.toNat :=
        writesAround_writeRun (by omega) (by rw [Nat.mod_eq_of_lt putBelow]; omega)
      rw [Nat.mod_eq_of_lt putBelow] at run
      simpa only [Nat.zero_add] using run
  · rw [if_neg positive]
    have zero : taken.toNat = 0 := by
      have := UInt64.lt_iff_toNat_lt.not.mp positive
      simp at this
      omega
    refine ⟨_, rfl, takenNat, rfl, by rw [zero, Nat.add_zero, Nat.mod_eq_of_lt putBelow], ?_⟩
    rw [zero]
    exact ⟨fun offset impossible => absurd impossible (Nat.not_lt_zero offset),
      fun slot _ _ => rfl⟩

theorem circularQueuePush_refines (elements : Nat → α) (numElements : UInt64) :
    ∃ pushed, circularQueuePush queue elements numElements = some pushed ∧ pushed.1.Valid ∧
      pushed.1.capacity = queue.capacity ∧ contents pushed.1 =
        (BoundedFifo.pushSome (contents queue) (queue.capacity.toNat - 1) elements numElements.toNat).1 ∧
      pushed.2.toNat =
        (BoundedFifo.pushSome (contents queue) (queue.capacity.toNat - 1) elements numElements.toNat).2 := by
  obtain ⟨⟨next, taken⟩, pushed, takenIs, frame, putIs, writes⟩ :=
    circularQueuePush_writes valid elements numElements
  dsimp only at takenIs frame putIs writes
  have capacitySame : next.capacity = queue.capacity := by rw [frame]
  have getSame : next.getIdx = queue.getIdx := by rw [frame]
  have atLeastTwo := valid.atLeastTwo
  have nextValid : next.Valid := by
    refine ⟨capacitySame ▸ valid.atLeastTwo, capacitySame ▸ valid.halfWord, ?_, ?_, ?_⟩
    · rw [getSame, capacitySame]
      exact valid.getBelow
    · rw [putIs, capacitySame]
      exact Nat.mod_lt _ (by omega)
    · rw [frame]
      exact valid.fits
  obtain ⟨oldBelow, oldCases⟩ := queueGetCount_spec valid
  obtain ⟨newBelow, newCases⟩ := queueGetCount_spec nextValid
  rw [capacitySame, getSame, putIs] at newCases
  rw [capacitySame] at newBelow
  have putBelow := valid.putBelow
  have newCount : (queueGetCount next).toNat = (queueGetCount queue).toNat + taken.toNat := by
    obtain ⟨small, reduced⟩ | ⟨large, reduced⟩ :=
      mod_cases (show queue.putIdx.toNat + taken.toNat < 2 * queue.capacity.toNat by omega)
    · omega
    · omega
  have aroundEnd : WritesAround queue.data next.data queue.capacity.toNat
      (queue.getIdx.toNat + (queueGetCount queue).toNat) elements taken.toNat :=
    writesAround_mod_start.mp (by rw [← putIdx_eq_mod valid]; exact writes)
  have grown := window_of_writesAround aroundEnd (Nat.zero_le _)
    (show (queueGetCount queue).toNat + taken.toNat - 0 ≤ queue.capacity.toNat by omega)
  simp only [Nat.add_zero, Nat.sub_zero, List.drop_zero] at grown
  have takenSame : min numElements.toNat (queue.capacity.toNat - 1 - (queueGetCount queue).toNat) =
      taken.toNat := by omega
  refine ⟨(next, taken), pushed, nextValid, capacitySame, ?_, ?_⟩
  · unfold contents
    rw [capacitySame, getSame, newCount, grown]
    simp only [BoundedFifo.pushSome, length_window, takenSame]
  · simp only [BoundedFifo.pushSome, contents, length_window, takenSame]

theorem advance_refines (nonEmpty : 0 < (queueGetCount queue).toNat) :
    ({ queue with getIdx := (queue.getIdx + 1) % queue.capacity } : Queue α).Valid ∧
      contents { queue with getIdx := (queue.getIdx + 1) % queue.capacity } = (contents queue).tail := by
  have atLeastTwo := valid.atLeastTwo
  have getBelow := valid.getBelow
  have advanced := toNat_getIdx_succ valid
  have advancedValid : ({ queue with getIdx := (queue.getIdx + 1) % queue.capacity } : Queue α).Valid :=
    ⟨valid.atLeastTwo, valid.halfWord, by rw [advanced]; exact Nat.mod_lt _ (by omega), valid.putBelow, valid.fits⟩
  obtain ⟨oldBelow, oldCases⟩ := queueGetCount_spec valid
  obtain ⟨newBelow, newCases⟩ := queueGetCount_spec advancedValid
  dsimp only at newCases newBelow
  rw [advanced] at newCases
  have newCount : (queueGetCount { queue with getIdx := (queue.getIdx + 1) % queue.capacity }).toNat =
      (queueGetCount queue).toNat - 1 := by
    obtain ⟨small, reduced⟩ | ⟨large, reduced⟩ :=
      mod_cases (show queue.getIdx.toNat + 1 < 2 * queue.capacity.toNat by omega)
    · omega
    · omega
  refine ⟨advancedValid, ?_⟩
  unfold contents
  change window queue.data queue.capacity.toNat ((queue.getIdx + 1) % queue.capacity).toNat _ = _
  obtain ⟨rest, restIs⟩ : ∃ rest, (queueGetCount queue).toNat = rest + 1 := ⟨_, (Nat.sub_add_cancel nonEmpty).symm⟩
  rw [advanced, window_mod_start, newCount, restIs, window_succ, Nat.add_sub_cancel, List.tail_cons]

omit valid in
theorem contents_eq_nil_of_zero (empty : (queueGetCount queue).toNat = 0) : contents queue = [] := by
  unfold contents
  rw [empty]
  rfl

theorem contents_head? (nonEmpty : 0 < (queueGetCount queue).toNat) :
    (contents queue).head? = some (queue.data queue.getIdx.toNat) := by
  obtain ⟨rest, restIs⟩ : ∃ rest, (queueGetCount queue).toNat = rest + 1 :=
    ⟨_, (Nat.sub_add_cancel nonEmpty).symm⟩
  unfold contents
  rw [restIs, window_succ, Nat.mod_eq_of_lt valid.getBelow]
  rfl

theorem circularQueuePeek_refines : circularQueuePeek queue = (contents queue).head? := by
  unfold circularQueuePeek
  split_ifs with empty
  · rw [contents_eq_nil_of_zero (by rw [empty]; rfl)]
    rfl
  · have nonEmpty : 0 < (queueGetCount queue).toNat := by
      have := UInt64.toNat_inj.not.mpr empty
      simp at this
      omega
    rw [contents_head? valid nonEmpty]

theorem circularQueuePop_refines :
    (circularQueuePop queue).Valid ∧ contents (circularQueuePop queue) = (contents queue).tail := by
  unfold circularQueuePop
  split_ifs with nonEmpty
  · exact advance_refines valid (by simpa using UInt64.lt_iff_toNat_lt.mp nonEmpty)
  · have empty : (queueGetCount queue).toNat = 0 := by
      have := UInt64.lt_iff_toNat_lt.not.mp nonEmpty
      simp at this
      omega
    rw [contents_eq_nil_of_zero empty]
    exact ⟨valid, rfl⟩

theorem circularQueuePopAndCopy_refines :
    ∃ popped, circularQueuePopAndCopy queue = some popped ∧ popped.1 = (contents queue).head? ∧
      popped.2.Valid ∧ contents popped.2 = (contents queue).tail := by
  unfold circularQueuePopAndCopy
  split_ifs with nonEmpty
  · have positive : 0 < (queueGetCount queue).toNat := by
      simpa using UInt64.lt_iff_toNat_lt.mp nonEmpty
    rw [managedCopyOut_eq valid _ valid.getBelow]
    exact ⟨_, rfl, (contents_head? valid positive).symm, advance_refines valid positive⟩
  · have empty : (queueGetCount queue).toNat = 0 := by
      have := UInt64.lt_iff_toNat_lt.not.mp nonEmpty
      simp at this
      omega
    have nil := contents_eq_nil_of_zero empty
    exact ⟨_, rfl, by rw [nil]; rfl, valid, by dsimp only; rw [nil]; rfl⟩

end Valid

end NvidiaGpu.CircularQueue
