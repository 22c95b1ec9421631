import NvidiaGpu.Containers.Queue

set_option autoImplicit false

/-! Runs of the managed circular queue: any sequence of pushes, pops and
pops-with-copy after a successful `circularQueueInit`.  When the buffer of
`(C + 1) * msgSize` bytes is below `2^63` every reached queue behaves as a FIFO
sequence of at most `C` elements and every copy stays inside the buffer.  The
64-bit product `(C + 1) * msgSize` can wrap: `PORT_ALLOC` then returns a buffer
smaller than the queue's slots, and a push runs past it. -/

namespace NvidiaGpu.CircularQueue

open Window

variable {α : Type}

inductive QueueOp (α : Type)
  | push (elements : Nat → α) (numElements : UInt64)
  | pop
  | popAndCopy

def QueueOp.apply (queue : Queue α) : QueueOp α → Option (Queue α)
  | .push elements numElements => (circularQueuePush queue elements numElements).map Prod.fst
  | .pop => some (circularQueuePop queue)
  | .popAndCopy => (circularQueuePopAndCopy queue).map Prod.snd

def QueueOp.run (queue : Queue α) (ops : List (QueueOp α)) : Option (Queue α) :=
  ops.foldlM QueueOp.apply queue

/-- Queues reached from a successful `circularQueueInit` of user capacity
`capacity` and elements of `msgSize` bytes, on buffers from `allocate`. -/
inductive Reachable (allocate : UInt64 → Option (Nat → α)) (capacity msgSize : UInt64) : Queue α → Prop
  | init {queue : Queue α} :
      circularQueueInit allocate capacity msgSize = (.nvOk, some queue) → Reachable allocate capacity msgSize queue
  | step {queue next : Queue α} (op : QueueOp α) :
      Reachable allocate capacity msgSize queue → op.apply queue = some next →
        Reachable allocate capacity msgSize next

theorem Reachable.run {allocate : UInt64 → Option (Nat → α)} {capacity msgSize : UInt64} :
    ∀ (ops : List (QueueOp α)) {queue next : Queue α}, Reachable allocate capacity msgSize queue →
      QueueOp.run queue ops = some next → Reachable allocate capacity msgSize next
  | [], _, _, reachable, ran => by
      simp only [QueueOp.run, List.foldlM_nil, Option.pure_def, Option.some.injEq] at ran
      exact ran ▸ reachable
  | op :: ops, queue, next, reachable, ran => by
      simp only [QueueOp.run, List.foldlM_cons, Option.bind_eq_bind] at ran
      rcases applied : op.apply queue with _ | after
      · simp [applied] at ran
      · rw [applied, Option.bind_some] at ran
        exact Reachable.run ops (reachable.step op applied) ran

/-- The queue seen as a FIFO sequence of at most `bound` elements: its count,
its indices, and what peek, push, pop and pop-with-copy do to the sequence,
their copies inside the buffer. -/
def FifoSpec (queue : Queue α) (bound : Nat) : Prop :=
  (contents queue).length ≤ bound ∧
    (circularQueueCount queue).toNat = (contents queue).length ∧
    queue.getIdx.toNat < queue.capacity.toNat ∧ queue.putIdx.toNat < queue.capacity.toNat ∧
    circularQueuePeek queue = (contents queue).head? ∧
    (∀ elements numElements, ∃ pushed, circularQueuePush queue elements numElements = some pushed ∧
      contents pushed.1 = (BoundedFifo.pushSome (contents queue) bound elements numElements.toNat).1 ∧
        pushed.2.toNat = (BoundedFifo.pushSome (contents queue) bound elements numElements.toNat).2) ∧
    contents (circularQueuePop queue) = (contents queue).tail ∧
    ∃ popped, circularQueuePopAndCopy queue = some popped ∧ popped.1 = (contents queue).head? ∧
      contents popped.2 = (contents queue).tail

theorem Queue.Valid.fifoSpec {queue : Queue α} (valid : queue.Valid) :
    FifoSpec queue (queue.capacity.toNat - 1) := by
  obtain ⟨countBelow, -⟩ := queueGetCount_spec valid
  obtain ⟨popped, poppedIs, head, -, tail⟩ := circularQueuePopAndCopy_refines valid
  refine ⟨by simp only [contents, length_window]; omega, by simp [circularQueueCount, contents],
    valid.getBelow, valid.putBelow, circularQueuePeek_refines valid, fun elements numElements => ?_,
    (circularQueuePop_refines valid).2, popped, poppedIs, head, tail⟩
  obtain ⟨pushed, pushedIs, -, -, grown, taken⟩ := circularQueuePush_refines valid elements numElements
  exact ⟨pushed, pushedIs, grown, taken⟩

theorem QueueOp.apply_valid {queue next : Queue α} (valid : queue.Valid) (op : QueueOp α)
    (applied : op.apply queue = some next) : next.Valid ∧ next.capacity = queue.capacity := by
  cases op with
  | push elements numElements =>
      obtain ⟨pushed, pushedIs, nextValid, capacitySame, -⟩ := circularQueuePush_refines valid elements numElements
      simp only [QueueOp.apply, pushedIs, Option.map_some, Option.some.injEq] at applied
      exact applied ▸ ⟨nextValid, capacitySame⟩
  | pop =>
      simp only [QueueOp.apply, Option.some.injEq] at applied
      refine applied ▸ ⟨(circularQueuePop_refines valid).1, ?_⟩
      unfold circularQueuePop
      split_ifs <;> rfl
  | popAndCopy =>
      obtain ⟨popped, poppedIs, -, nextValid, -⟩ := circularQueuePopAndCopy_refines valid
      simp only [QueueOp.apply, poppedIs, Option.map_some, Option.some.injEq] at applied
      refine applied ▸ ⟨nextValid, ?_⟩
      unfold circularQueuePopAndCopy at poppedIs
      split_ifs at poppedIs <;> simp only [Option.pure_def, Option.bind_eq_bind] at poppedIs
      · cases copied : managedCopyOut queue.msgSize queue.dataSize queue.data queue.getIdx <;>
          simp [copied] at poppedIs
        rw [← poppedIs]
      · rw [← Option.some.inj poppedIs]

theorem circularQueueInit_eq_ok {allocate : UInt64 → Option (Nat → α)} {capacity msgSize : UInt64}
    {queue : Queue α} (init : circularQueueInit allocate capacity msgSize = (.nvOk, some queue)) :
    0 < ((capacity + 1) * msgSize).toNat ∧ ∃ data, queue =
      circularQueueInitCommon data ((capacity + 1) * msgSize) (capacity + 1) msgSize := by
  unfold circularQueueInit at init
  dsimp only at init
  split at init
  · simp at init
  · rename_i data allocated
    simp only [Prod.mk.injEq, Option.some.injEq, true_and] at init
    unfold portAlloc at allocated
    split_ifs at allocated with asked
    exact ⟨UInt64.lt_iff_toNat_lt.mp asked, data, init.symm⟩

/-- From a user capacity of at least one and a buffer below `2^63` bytes,
every reached queue is consistent, with one slot more than asked for. -/
theorem Reachable.valid {allocate : UInt64 → Option (Nat → α)} {capacity msgSize : UInt64} {queue : Queue α}
    (atLeastOne : 1 ≤ capacity.toNat) (small : (capacity.toNat + 1) * msgSize.toNat < 2 ^ 63)
    (reachable : Reachable allocate capacity msgSize queue) :
    queue.Valid ∧ queue.capacity = capacity + 1 := by
  induction reachable with
  | init init =>
      obtain ⟨asked, data, rfl⟩ := circularQueueInit_eq_ok init
      have positive : 0 < msgSize.toNat := Nat.pos_of_ne_zero fun zero => by
        rw [UInt64.toNat_mul, zero, Nat.mul_zero, Nat.zero_mod] at asked
        exact Nat.lt_irrefl 0 asked
      have ringBelow : capacity.toNat + 1 ≤ (capacity.toNat + 1) * msgSize.toNat :=
        Nat.le_mul_of_pos_right _ positive
      have internal : (capacity + 1).toNat = capacity.toNat + 1 := by
        rw [UInt64.toNat_add, UInt64.toNat_one, Nat.mod_eq_of_lt (by omega)]
      have size : ((capacity + 1) * msgSize).toNat = (capacity.toNat + 1) * msgSize.toNat := by
        rw [UInt64.toNat_mul, internal, Nat.mod_eq_of_lt (by omega)]
      refine ⟨⟨?_, ?_, ?_, ?_, ?_⟩, rfl⟩ <;> simp only [circularQueueInitCommon, internal, size]
      all_goals simp
      all_goals omega
  | step op _ applied ih =>
      obtain ⟨valid, capacityIs⟩ := ih
      obtain ⟨stepValid, capacitySame⟩ := op.apply_valid valid applied
      exact ⟨stepValid, capacitySame.trans capacityIs⟩

/-- Every managed circular queue of user capacity `C ≥ 1` on a buffer of
`(C + 1) * msgSize < 2^63` bytes refines a FIFO sequence of at most `C`
elements over every sequence of pushes, pops and pops-with-copy. -/
theorem reachable_circularQueue_refines {allocate : UInt64 → Option (Nat → α)} {capacity msgSize : UInt64}
    {queue : Queue α} (atLeastOne : 1 ≤ capacity.toNat) (small : (capacity.toNat + 1) * msgSize.toNat < 2 ^ 63)
    (reachable : Reachable allocate capacity msgSize queue) : FifoSpec queue capacity.toNat := by
  obtain ⟨valid, capacityIs⟩ := reachable.valid atLeastOne small
  have internal : queue.capacity.toNat - 1 = capacity.toNat := by
    have atLeastTwo := valid.atLeastTwo
    rw [capacityIs, UInt64.toNat_add, UInt64.toNat_one] at atLeastTwo ⊢
    have below := capacity.toNat_lt
    omega
  have spec := valid.fifoSpec
  rwa [internal] at spec

/-- The empty queue of user capacity 3 and 8-byte messages that
`circularQueueInit` sets up on a buffer of 32 bytes. -/
def smallQueue : Queue Nat :=
  circularQueueInitCommon (fun _ => 0) 32 4 8

/-- `smallQueue` after a push that fills it, a pop, and a push that wraps
around the end of the buffer. -/
def wrappedQueue : Queue Nat :=
  (QueueOp.run smallQueue [.push id 5, .pop, .push id 2]).getD smallQueue

theorem wrappedQueue_refines : FifoSpec wrappedQueue (3 : UInt64).toNat :=
  @reachable_circularQueue_refines Nat (fun _ => some fun _ => 0) 3 8 wrappedQueue (by decide) (by decide)
    (Reachable.run [.push id 5, .pop, .push id 2] (.init rfl) rfl)

/-- The empty queue `circularQueueInit` sets up for user capacity `2^63` and
2-byte elements: the 64-bit size `(2^63 + 1) * 2` wraps to 2, and the buffer
holds one element. -/
def wrappedSizeQueue : Queue Nat :=
  circularQueueInitCommon (fun _ => 0) 2 0x8000000000000001 2

/-- A push of two elements into `wrappedSizeQueue` copies them past the end of
its buffer. -/
theorem circularQueueInit_wrapped_size_overruns :
    Reachable (fun _ => some fun _ => 0) 0x8000000000000000 2 wrappedSizeQueue ∧
      circularQueuePush wrappedSizeQueue id 2 = none ∧
      ¬FifoSpec wrappedSizeQueue (0x8000000000000000 : UInt64).toNat := by
  have overrun : circularQueuePush wrappedSizeQueue id 2 = none := rfl
  refine ⟨.init rfl, overrun, fun spec => ?_⟩
  obtain ⟨pushed, pushedIs, -⟩ := spec.2.2.2.2.2.1 id 2
  rw [overrun] at pushedIs
  cases pushedIs

end NvidiaGpu.CircularQueue
