import NvidiaGpu.Msgq.Queue

set_option autoImplicit false

/-! A linked message queue as a two-party protocol: the sender's handle, the
receiver's handle and the words of the backing store they share, under any
interleaving of their calls.

Each side reads the other's pointer word.  The runs here let a read return any
value the other side's pointer took at or after the value this side last read
of it, up to its current one; a run also keeps its history, the messages
submitted and those consumed, and each side's count of the other's progress at
its last read.  Reads that go back to an older value than one already read are
not runs of this model: the pointers count modulo `msgCount`, and an older
read pointer can look like a newer one. -/

namespace NvidiaGpu.Msgq

open Window

/-! ## Setting up a pair -/

/-- `msgqTxCreate` on a fresh handle and `msgqRxLink` of another fresh handle
to the header it wrote. -/
def msgqLink (pBackingStore : UInt64) (size msgSize hdrAlign entryAlign : UInt32) :
    Option (MsgqMetadata × MsgqMetadata) :=
  let created := msgqTxCreate msgqInit pBackingStore size msgSize hdrAlign entryAlign
  let linked := msgqRxLink msgqInit (some created.1.tx) size msgSize
  if created.2 = 0 ∧ linked.2 = 0 then some (created.1, linked.1) else none

theorem msgqRxLink_ok {theirTx : MsgqTxHeader} {size msgSize : UInt32}
    (linked : (msgqRxLink msgqInit (some theirTx) size msgSize).2 = 0) :
    let consumer := (msgqRxLink msgqInit (some theirTx) size msgSize).1
    consumer.rxLinked = true ∧ consumer.rx = theirTx ∧ consumer.rxReadPtr = 0 ∧ consumer.rxAvail = 0 := by
  rw [msgqRxLink_fst_of_eq_zero linked]
  exact ⟨rfl, rfl, rfl, rfl⟩

theorem msgqLink_spec {pBackingStore : UInt64} {size msgSize hdrAlign entryAlign : UInt32}
    {producer consumer : MsgqMetadata} (noWrap : msgSize.toNat + 2 ^ 13 < 2 ^ 32)
    (linked : msgqLink pBackingStore size msgSize hdrAlign entryAlign = some (producer, consumer)) :
    producer.txLinked = true ∧ 0 < producer.tx.msgCount ∧ producer.tx.writePtr = 0 ∧
      producer.txFree = producer.tx.msgCount - 1 ∧ consumer.rxLinked = true ∧
      consumer.rx.msgCount = producer.tx.msgCount ∧ consumer.rxReadPtr = 0 ∧ consumer.rxAvail = 0 := by
  unfold msgqLink at linked
  dsimp only at linked
  split_ifs at linked with ok
  obtain ⟨created, joined⟩ := ok
  simp only [Option.some.injEq, Prod.mk.injEq] at linked
  obtain ⟨rfl, rfl⟩ := linked
  obtain ⟨txLinked, positive, writePtr, txFree, -⟩ := msgqTxCreate_eq_zero noWrap created
  obtain ⟨rxLinked, rx, readPtr, rxAvail⟩ := msgqRxLink_ok joined
  exact ⟨txLinked, positive, writePtr, txFree, rxLinked, by rw [rx], readPtr, rxAvail⟩

/-! ## Runs -/

/-- The two handles of a linked pair and the words of the backing store: the
entries, `writePtr` of its tx header and `readPtr` of its rx header. -/
structure MsgqPair (Msg : Type) where
  producer : MsgqMetadata
  consumer : MsgqMetadata
  entries : Nat → Msg
  writePtr : Nat
  readPtr : Nat

/-- A pair with the history of its run: the messages submitted and consumed so
far, the number consumed when the sender last read `readPtr`, and the number
submitted when the receiver last read `writePtr`. -/
structure MsgqRun (Msg : Type) extends MsgqPair Msg where
  submitted : List Msg
  consumed : List Msg
  producerSeen : Nat
  consumerSeen : Nat

variable {Msg : Type}

namespace MsgqRun

/-- The messages submitted and not yet consumed, in the entries after the
read pointer. -/
def pending (run : MsgqRun Msg) : List Msg :=
  window run.entries run.producer.tx.msgCount run.consumed.length (run.submitted.length - run.consumed.length)

/-- The sender asks for the `n`-th free entry, its read of `readPtr` giving the
pointer the receiver wrote after `observed` messages were consumed, and writes
`message` into the entry it gets. -/
def writeBuffer (run : MsgqRun Msg) (n observed : Nat) (message : Msg) : MsgqRun Msg :=
  let (producer, slot) := msgqTxGetWriteBuffer run.producer (observed % run.consumer.rx.msgCount) n
  { run with
    producer := producer
    entries := match slot with
      | some index => Function.update run.entries index message
      | none => run.entries
    producerSeen := if n ≥ run.producer.txFree then observed else run.producerSeen }

/-- The sender submits `n` entries and, when it may, writes its new `writePtr`
to the tx header. -/
def submitBuffers (run : MsgqRun Msg) (n observed : Nat) : MsgqRun Msg :=
  let (producer, status) := msgqTxSubmitBuffers run.producer (observed % run.consumer.rx.msgCount) n
  { run with
    producer := producer
    writePtr := if status = 0 then producer.tx.writePtr else run.writePtr
    submitted := if status = 0 then
        run.submitted ++ window run.entries run.producer.tx.msgCount run.producer.tx.writePtr n
      else run.submitted
    producerSeen := if n > run.producer.txFree then observed else run.producerSeen }

/-- The receiver asks for the `n`-th available entry, its read of `writePtr`
giving the pointer after `observed` messages were submitted. -/
def readBuffer (run : MsgqRun Msg) (n observed : Nat) : MsgqRun Msg :=
  { run with
    consumer := (msgqRxGetReadBuffer run.consumer (observed % run.producer.tx.msgCount) n).1
    consumerSeen := if n ≥ run.consumer.rxAvail then observed else run.consumerSeen }

/-- The receiver gives back `n` entries, consuming the messages in them, and
when it may writes its new read pointer to the rx header. -/
def markConsumed (run : MsgqRun Msg) (n observed : Nat) : MsgqRun Msg :=
  let (consumer, status) := msgqRxMarkConsumed run.consumer (observed % run.producer.tx.msgCount) n
  { run with
    consumer := consumer
    readPtr := if status = 0 then consumer.rxReadPtr else run.readPtr
    consumed := if status = 0 then
        run.consumed ++ window run.entries run.consumer.rx.msgCount run.consumer.rxReadPtr n
      else run.consumed
    consumerSeen := if n > run.consumer.rxAvail then observed else run.consumerSeen }

end MsgqRun

/-- The calls of the two sides, each read of the other's word returning the
pointer at a point of the other's run no earlier than its last read. -/
inductive Step : MsgqRun Msg → MsgqRun Msg → Prop
  | writeBuffer {run : MsgqRun Msg} (n observed : Nat) (message : Msg)
      (coherent : run.producerSeen ≤ observed ∧ observed ≤ run.consumed.length) :
      Step run (run.writeBuffer n observed message)
  | submitBuffers {run : MsgqRun Msg} (n observed : Nat)
      (coherent : run.producerSeen ≤ observed ∧ observed ≤ run.consumed.length) :
      Step run (run.submitBuffers n observed)
  | readBuffer {run : MsgqRun Msg} (n observed : Nat)
      (coherent : run.consumerSeen ≤ observed ∧ observed ≤ run.submitted.length) :
      Step run (run.readBuffer n observed)
  | markConsumed {run : MsgqRun Msg} (n observed : Nat)
      (coherent : run.consumerSeen ≤ observed ∧ observed ≤ run.submitted.length) :
      Step run (run.markConsumed n observed)

/-- The runs of a pair linked over any backing store contents, with a message
size that keeps `entryOff + msgSize` below `2^32`. -/
inductive Reachable : MsgqRun Msg → Prop
  | link {pBackingStore : UInt64} {size msgSize hdrAlign entryAlign : UInt32} {producer consumer : MsgqMetadata}
      (noWrap : msgSize.toNat + 2 ^ 13 < 2 ^ 32) (entries : Nat → Msg)
      (linked : msgqLink pBackingStore size msgSize hdrAlign entryAlign = some (producer, consumer)) :
      Reachable { producer := producer, consumer := consumer, entries := entries,
                  writePtr := producer.tx.writePtr, readPtr := consumer.rxReadPtr,
                  submitted := [], consumed := [], producerSeen := 0, consumerSeen := 0 }
  | step {run next : MsgqRun Msg} : Reachable run → Step run next → Reachable next

/-! ## The invariant -/

/-- The invariant of a run: both handles linked and agreeing on the ring's
size, each pointer where its side's count of messages puts it, the ring
holding the messages submitted and not consumed, and each side's cached count
no more than its last read of the other side's pointer allows. -/
structure MsgqInv (run : MsgqRun Msg) : Prop where
  producerLinked : run.producer.txLinked = true
  consumerLinked : run.consumer.rxLinked = true
  positive : 0 < run.producer.tx.msgCount
  sameCount : run.consumer.rx.msgCount = run.producer.tx.msgCount
  writePtr : run.producer.tx.writePtr = run.submitted.length % run.producer.tx.msgCount
  writePtrWord : run.writePtr = run.producer.tx.writePtr
  readPtr : run.consumer.rxReadPtr = run.consumed.length % run.producer.tx.msgCount
  readPtrWord : run.readPtr = run.consumer.rxReadPtr
  fifo : run.consumed ++ run.pending = run.submitted
  producerSeen : run.producerSeen ≤ run.consumed.length
  txFree : run.submitted.length + run.producer.txFree ≤ run.producerSeen + run.producer.tx.msgCount - 1
  consumerSeen : run.consumerSeen ≤ run.submitted.length
  rxAvail : run.consumed.length + run.consumer.rxAvail ≤ run.consumerSeen

namespace MsgqInv

variable {run : MsgqRun Msg}

theorem consumed_le (inv : MsgqInv run) : run.consumed.length ≤ run.submitted.length := by
  have := inv.rxAvail
  have := inv.consumerSeen
  omega

theorem producerRead (inv : MsgqInv run) {observed : Nat}
    (coherent : run.producerSeen ≤ observed ∧ observed ≤ run.consumed.length) :
    observed % run.consumer.rx.msgCount < run.producer.tx.msgCount ∧
      run.submitted.length - observed < run.producer.tx.msgCount ∧
      run.producer.tx.writePtr =
        (observed % run.consumer.rx.msgCount + (run.submitted.length - observed)) % run.producer.tx.msgCount := by
  obtain ⟨seenLe, observedLe⟩ := coherent
  have := inv.txFree
  have := inv.consumed_le
  have := inv.positive
  rw [inv.sameCount]
  refine ⟨Nat.mod_lt _ inv.positive, by omega, ?_⟩
  rw [inv.writePtr, Nat.mod_add_mod, Nat.add_sub_cancel' (by omega)]

theorem pending_update (inv : MsgqInv run) {n : Nat} (message : Msg)
    (free : run.submitted.length + n < run.consumed.length + run.producer.tx.msgCount) :
    window (Function.update run.entries (advance run.producer.tx.msgCount run.producer.tx.writePtr n) message)
        run.producer.tx.msgCount run.consumed.length (run.submitted.length - run.consumed.length) =
      run.pending := by
  have := inv.consumed_le
  have := inv.positive
  rw [advance_eq_mod (by rw [inv.writePtr]; have := Nat.mod_lt run.submitted.length inv.positive; omega),
    inv.writePtr, Nat.mod_add_mod,
    show run.submitted.length + n = run.consumed.length + (run.submitted.length - run.consumed.length + n) by omega]
  exact window_update_beyond message (by omega) (by omega)

theorem writeBuffer (inv : MsgqInv run) {n observed : Nat} (message : Msg)
    (coherent : run.producerSeen ≤ observed ∧ observed ≤ run.consumed.length) :
    MsgqInv (run.writeBuffer n observed message) := by
  obtain ⟨below, small, behind⟩ := inv.producerRead coherent
  have := inv.txFree
  have := inv.consumed_le
  unfold MsgqRun.writeBuffer
  rw [msgqTxGetWriteBuffer_eq inv.producerLinked below small behind]
  by_cases refresh : n ≥ run.producer.txFree
  · rw [if_pos refresh]
    by_cases full : n ≥ run.producer.tx.msgCount - 1 - (run.submitted.length - observed)
    · rw [if_pos full]
      dsimp only
      exact { inv with
        txFree := by dsimp only; rw [if_pos refresh]; omega
        producerSeen := by dsimp only; rw [if_pos refresh]; exact coherent.2 }
    · rw [if_neg full]
      dsimp only
      exact { inv with
        fifo := by dsimp only; rw [MsgqRun.pending, inv.pending_update message (by omega)]; exact inv.fifo
        txFree := by dsimp only; rw [if_pos refresh]; omega
        producerSeen := by dsimp only; rw [if_pos refresh]; exact coherent.2 }
  · rw [if_neg refresh]
    dsimp only
    exact { inv with
      fifo := by dsimp only; rw [MsgqRun.pending, inv.pending_update message (by omega)]; exact inv.fifo
      producerSeen := by dsimp only; rw [if_neg refresh]; exact inv.producerSeen
      txFree := by dsimp only; rw [if_neg refresh]; exact inv.txFree }

theorem fifo_submit (inv : MsgqInv run) (n : Nat) :
    run.consumed ++ window run.entries run.producer.tx.msgCount run.consumed.length
        (run.submitted.length + n - run.consumed.length) =
      run.submitted ++ window run.entries run.producer.tx.msgCount run.producer.tx.writePtr n := by
  have := inv.consumed_le
  rw [show run.submitted.length + n - run.consumed.length = run.submitted.length - run.consumed.length + n by omega,
    window_add, ← List.append_assoc]
  rw [← MsgqRun.pending, inv.fifo, inv.writePtr, window_mod_start, Nat.add_sub_cancel' this]

theorem writePtr_submit (inv : MsgqInv run) (n : Nat) (fits : n < run.producer.tx.msgCount) :
    advance run.producer.tx.msgCount run.producer.tx.writePtr n =
      (run.submitted.length + n) % run.producer.tx.msgCount := by
  have := Nat.mod_lt run.submitted.length inv.positive
  rw [advance_eq_mod (by rw [inv.writePtr]; omega), inv.writePtr, Nat.mod_add_mod]

theorem submitBuffers (inv : MsgqInv run) {n observed : Nat}
    (coherent : run.producerSeen ≤ observed ∧ observed ≤ run.consumed.length) :
    MsgqInv (run.submitBuffers n observed) := by
  obtain ⟨below, small, behind⟩ := inv.producerRead coherent
  have := inv.txFree
  have := inv.consumed_le
  have := inv.consumerSeen
  unfold MsgqRun.submitBuffers
  rw [msgqTxSubmitBuffers_eq inv.producerLinked below small behind]
  by_cases refresh : n > run.producer.txFree
  · rw [if_pos refresh]
    by_cases full : n > run.producer.tx.msgCount - 1 - (run.submitted.length - observed)
    · rw [if_pos full]
      dsimp only
      simp only [Int.reduceNeg, Int.reduceEq, if_false]
      exact { inv with
        txFree := by dsimp only; rw [if_pos refresh]; omega
        producerSeen := by dsimp only; rw [if_pos refresh]; exact coherent.2 }
    · rw [if_neg full]
      dsimp only
      simp only [if_true]
      exact { inv with
        writePtr := by dsimp only; simp only [List.length_append, length_window]; exact inv.writePtr_submit n (by omega)
        writePtrWord := rfl
        fifo := by dsimp only; simp only [MsgqRun.pending, List.length_append, length_window]; exact inv.fifo_submit n
        txFree := by dsimp only; simp only [List.length_append, length_window, if_pos refresh]; omega
        producerSeen := by dsimp only; rw [if_pos refresh]; exact coherent.2
        consumerSeen := by dsimp only; simp only [List.length_append, length_window]; omega }
  · rw [if_neg refresh]
    dsimp only
    simp only [if_true]
    exact { inv with
      writePtr := by dsimp only; simp only [List.length_append, length_window]; exact inv.writePtr_submit n (by omega)
      writePtrWord := rfl
      fifo := by dsimp only; simp only [MsgqRun.pending, List.length_append, length_window]; exact inv.fifo_submit n
      txFree := by dsimp only; simp only [List.length_append, length_window, if_neg refresh]; omega
      producerSeen := by dsimp only; rw [if_neg refresh]; exact inv.producerSeen
      consumerSeen := by dsimp only; simp only [List.length_append, length_window]; omega }

theorem consumerRead (inv : MsgqInv run) {observed : Nat}
    (coherent : run.consumerSeen ≤ observed ∧ observed ≤ run.submitted.length) :
    run.consumer.rxReadPtr < run.consumer.rx.msgCount ∧
      observed - run.consumed.length < run.consumer.rx.msgCount ∧
      observed % run.producer.tx.msgCount =
        (run.consumer.rxReadPtr + (observed - run.consumed.length)) % run.consumer.rx.msgCount := by
  obtain ⟨seenLe, observedLe⟩ := coherent
  have := inv.txFree
  have := inv.rxAvail
  have := inv.producerSeen
  have := inv.positive
  rw [inv.sameCount, inv.readPtr]
  refine ⟨Nat.mod_lt _ inv.positive, by omega, ?_⟩
  rw [Nat.mod_add_mod, Nat.add_sub_cancel' (by omega)]

theorem readBuffer (inv : MsgqInv run) {n observed : Nat}
    (coherent : run.consumerSeen ≤ observed ∧ observed ≤ run.submitted.length) :
    MsgqInv (run.readBuffer n observed) := by
  obtain ⟨below, small, ahead⟩ := inv.consumerRead coherent
  have := inv.rxAvail
  unfold MsgqRun.readBuffer
  rw [msgqRxGetReadBuffer_eq inv.consumerLinked below small ahead]
  by_cases refresh : n ≥ run.consumer.rxAvail
  · rw [if_pos refresh]
    exact { inv with
      rxAvail := by dsimp only; rw [if_pos refresh]; omega
      consumerSeen := by dsimp only; rw [if_pos refresh]; exact coherent.2 }
  · rw [if_neg refresh]
    exact { inv with consumerSeen := by dsimp only; rw [if_neg refresh]; exact inv.consumerSeen
                     rxAvail := by dsimp only; rw [if_neg refresh]; exact inv.rxAvail }

theorem fifo_consume (inv : MsgqInv run) (n : Nat) (within : n ≤ run.submitted.length - run.consumed.length) :
    run.consumed ++ window run.entries run.consumer.rx.msgCount run.consumer.rxReadPtr n ++
        window run.entries run.producer.tx.msgCount (run.consumed.length + n)
          (run.submitted.length - (run.consumed.length + n)) =
      run.submitted := by
  rw [inv.sameCount, inv.readPtr, window_mod_start, List.append_assoc, ← window_add,
    show n + (run.submitted.length - (run.consumed.length + n)) = run.submitted.length - run.consumed.length by
      omega]
  exact inv.fifo

theorem readPtr_consume (inv : MsgqInv run) (n : Nat) (fits : n < run.producer.tx.msgCount) :
    advance run.consumer.rx.msgCount run.consumer.rxReadPtr n =
      (run.consumed.length + n) % run.producer.tx.msgCount := by
  have := Nat.mod_lt run.consumed.length inv.positive
  rw [inv.sameCount, advance_eq_mod (by rw [inv.readPtr]; omega), inv.readPtr, Nat.mod_add_mod]

theorem markConsumed (inv : MsgqInv run) {n observed : Nat}
    (coherent : run.consumerSeen ≤ observed ∧ observed ≤ run.submitted.length) :
    MsgqInv (run.markConsumed n observed) := by
  obtain ⟨below, small, ahead⟩ := inv.consumerRead coherent
  have := inv.rxAvail
  have := inv.producerSeen
  have := inv.consumerSeen
  have := inv.sameCount
  unfold MsgqRun.markConsumed
  rw [msgqRxMarkConsumed_eq inv.consumerLinked below small ahead]
  by_cases refresh : n > run.consumer.rxAvail
  · rw [if_pos refresh]
    by_cases empty : n > observed - run.consumed.length
    · rw [if_pos empty]
      dsimp only
      simp only [Int.reduceNeg, Int.reduceEq, if_false]
      exact { inv with
        rxAvail := by dsimp only; rw [if_pos refresh]; omega
        consumerSeen := by dsimp only; rw [if_pos refresh]; exact coherent.2 }
    · rw [if_neg empty]
      dsimp only
      simp only [if_true]
      exact { inv with
        readPtr := by dsimp only; simp only [List.length_append, length_window]; exact inv.readPtr_consume n (by omega)
        readPtrWord := rfl
        fifo := by
          dsimp only; simp only [MsgqRun.pending, List.length_append, length_window]
          exact inv.fifo_consume n (by omega)
        producerSeen := by dsimp only; simp only [List.length_append, length_window]; omega
        rxAvail := by dsimp only; simp only [List.length_append, length_window, if_pos refresh]; omega
        consumerSeen := by dsimp only; rw [if_pos refresh]; exact coherent.2 }
  · rw [if_neg refresh]
    dsimp only
    simp only [if_true]
    exact { inv with
      readPtr := by dsimp only; simp only [List.length_append, length_window]; exact inv.readPtr_consume n (by omega)
      readPtrWord := rfl
      fifo := by
        dsimp only; simp only [MsgqRun.pending, List.length_append, length_window]
        exact inv.fifo_consume n (by omega)
      producerSeen := by dsimp only; simp only [List.length_append, length_window]; omega
      rxAvail := by dsimp only; simp only [List.length_append, length_window, if_neg refresh]; omega
      consumerSeen := by dsimp only; rw [if_neg refresh]; exact inv.consumerSeen }

end MsgqInv

theorem msgqInv_link {pBackingStore : UInt64} {size msgSize hdrAlign entryAlign : UInt32}
    {producer consumer : MsgqMetadata} (noWrap : msgSize.toNat + 2 ^ 13 < 2 ^ 32) (entries : Nat → Msg)
    (linked : msgqLink pBackingStore size msgSize hdrAlign entryAlign = some (producer, consumer)) :
    MsgqInv ({ producer := producer, consumer := consumer, entries := entries,
               writePtr := producer.tx.writePtr, readPtr := consumer.rxReadPtr,
               submitted := [], consumed := [], producerSeen := 0, consumerSeen := 0 } : MsgqRun Msg) := by
  obtain ⟨txLinked, positive, writePtr, txFree, rxLinked, sameCount, readPtr, rxAvail⟩ := msgqLink_spec noWrap linked
  exact {
    producerLinked := txLinked
    consumerLinked := rxLinked
    positive := positive
    sameCount := sameCount
    writePtr := by simp [writePtr]
    writePtrWord := rfl
    readPtr := by simp [readPtr]
    readPtrWord := rfl
    fifo := by simp [MsgqRun.pending, window]
    producerSeen := le_rfl
    txFree := by simp only [List.length_nil, Nat.zero_add, txFree]; omega
    consumerSeen := le_rfl
    rxAvail := by simp [rxAvail] }

theorem MsgqInv.step {run next : MsgqRun Msg} (inv : MsgqInv run) (step : Step run next) : MsgqInv next := by
  cases step with
  | writeBuffer n observed message coherent => exact inv.writeBuffer message coherent
  | submitBuffers n observed coherent => exact inv.submitBuffers coherent
  | readBuffer n observed coherent => exact inv.readBuffer coherent
  | markConsumed n observed coherent => exact inv.markConsumed coherent

theorem Reachable.inv {run : MsgqRun Msg} (reachable : Reachable run) : MsgqInv run := by
  induction reachable with
  | link noWrap entries linked => exact msgqInv_link noWrap entries linked
  | step _ step ih => exact ih.step step

theorem MsgqInv.txReady {run : MsgqRun Msg} (inv : MsgqInv run) : TxReady run.producer := by
  have := inv.txFree
  have := inv.producerSeen
  have := inv.consumed_le
  have := inv.positive
  refine ⟨inv.producerLinked, ?_, by omega⟩
  rw [inv.writePtr]
  exact Nat.mod_lt _ inv.positive

theorem MsgqInv.drained {run : MsgqRun Msg} (inv : MsgqInv run)
    (drained : run.consumed.length = run.submitted.length) :
    run.consumer.rxReadPtr = run.producer.tx.writePtr ∧ run.consumer.rxAvail = 0 := by
  have := inv.rxAvail
  have := inv.consumerSeen
  refine ⟨?_, by omega⟩
  rw [inv.readPtr, inv.writePtr, drained]

/-! ## The contract of a linked pair -/

theorem MsgqInv.writeBuffer_some {run : MsgqRun Msg} (inv : MsgqInv run) {n observed index : Nat}
    (coherent : run.producerSeen ≤ observed ∧ observed ≤ run.consumed.length)
    (got : (msgqTxGetWriteBuffer run.producer (observed % run.consumer.rx.msgCount) n).2 = some index) :
    run.submitted.length - run.consumed.length + n + 1 < run.producer.tx.msgCount ∧
      index = (run.submitted.length + n) % run.producer.tx.msgCount := by
  obtain ⟨below, small, behind⟩ := inv.producerRead coherent
  have := inv.txFree
  have := inv.consumed_le
  have := inv.producerSeen
  rw [msgqTxGetWriteBuffer_eq inv.producerLinked below small behind] at got
  by_cases refresh : n ≥ run.producer.txFree
  · rw [if_pos refresh] at got
    by_cases full : n ≥ run.producer.tx.msgCount - 1 - (run.submitted.length - observed)
    · simp [full] at got
    · simp only [if_neg full, Option.some.injEq] at got
      exact ⟨by omega, by rw [← got, inv.writePtr_submit n (by omega)]⟩
  · simp only [if_neg refresh, Option.some.injEq] at got
    exact ⟨by omega, by rw [← got, inv.writePtr_submit n (by omega)]⟩

theorem MsgqInv.readBuffer_some {run : MsgqRun Msg} (inv : MsgqInv run) {n observed index : Nat}
    (coherent : run.consumerSeen ≤ observed ∧ observed ≤ run.submitted.length)
    (got : (msgqRxGetReadBuffer run.consumer (observed % run.producer.tx.msgCount) n).2 = some index) :
    n < run.submitted.length - run.consumed.length ∧
      index = (run.consumed.length + n) % run.producer.tx.msgCount := by
  obtain ⟨below, small, ahead⟩ := inv.consumerRead coherent
  have := inv.rxAvail
  have := inv.consumerSeen
  have := inv.sameCount
  rw [msgqRxGetReadBuffer_eq inv.consumerLinked below small ahead] at got
  by_cases refresh : n ≥ run.consumer.rxAvail
  · rw [if_pos refresh] at got
    by_cases empty : n ≥ observed - run.consumed.length
    · simp [empty] at got
    · simp only [if_neg empty, Option.some.injEq] at got
      exact ⟨by omega, by rw [← got, inv.readPtr_consume n (by omega)]⟩
  · simp only [if_neg refresh, Option.some.injEq] at got
    exact ⟨by omega, by rw [← got, inv.readPtr_consume n (by omega)]⟩

/-- What a linked pair guarantees: the messages consumed are those submitted,
in order, and the rest are pending in the ring; an entry the receiver is handed
holds the pending message it asked for and one the sender is handed holds
none; each cached count is at most the true one; both pointer words stay
inside the ring. -/
structure MsgqContract (run : MsgqRun Msg) : Prop where
  fifo : run.consumed ++ run.pending = run.submitted
  reads : ∀ n observed, run.consumerSeen ≤ observed → observed ≤ run.submitted.length →
    ∀ index, (msgqRxGetReadBuffer run.consumer (observed % run.producer.tx.msgCount) n).2 = some index →
      run.submitted[run.consumed.length + n]? = some (run.entries index)
  writes : ∀ n observed, run.producerSeen ≤ observed → observed ≤ run.consumed.length →
    ∀ index, (msgqTxGetWriteBuffer run.producer (observed % run.consumer.rx.msgCount) n).2 = some index →
      ∀ offset < run.submitted.length - run.consumed.length,
        index ≠ (run.consumed.length + offset) % run.producer.tx.msgCount
  txFree : run.producer.txFree ≤ run.producer.tx.msgCount - 1 - (run.submitted.length - run.consumed.length)
  rxAvail : run.consumer.rxAvail ≤ run.submitted.length - run.consumed.length
  writePtrBelow : run.writePtr < run.producer.tx.msgCount
  readPtrBelow : run.readPtr < run.consumer.rx.msgCount

theorem MsgqInv.contract {run : MsgqRun Msg} (inv : MsgqInv run) : MsgqContract run where
  fifo := inv.fifo
  reads := by
    intro n observed seenLe observedLe index got
    obtain ⟨inside, rfl⟩ := inv.readBuffer_some ⟨seenLe, observedLe⟩ got
    have pendingAt : run.pending[n]? = some (run.entries ((run.consumed.length + n) % run.producer.tx.msgCount)) := by
      unfold MsgqRun.pending
      rw [List.getElem?_eq_getElem (by simp; omega), getElem_window]
    rw [← inv.fifo, List.getElem?_append_right (by omega), Nat.add_sub_cancel_left, pendingAt]
  writes := by
    intro n observed seenLe observedLe index got offset inside
    obtain ⟨fits, rfl⟩ := inv.writeBuffer_some ⟨seenLe, observedLe⟩ got
    have := inv.consumed_le
    rw [show run.submitted.length + n =
      run.consumed.length + (run.submitted.length - run.consumed.length + n) by omega]
    exact (mod_ne_of_lt run.consumed.length (by omega) (by omega)).symm
  txFree := by
    have := inv.txFree
    have := inv.producerSeen
    have := inv.consumed_le
    omega
  rxAvail := by
    have := inv.rxAvail
    have := inv.consumerSeen
    omega
  writePtrBelow := by
    rw [inv.writePtrWord, inv.writePtr]
    exact Nat.mod_lt _ inv.positive
  readPtrBelow := by
    rw [inv.readPtrWord, inv.readPtr, inv.sameCount]
    exact Nat.mod_lt _ inv.positive

theorem reachable_msgq_fifo {run : MsgqRun Msg} (reachable : Reachable run) : MsgqContract run :=
  reachable.inv.contract

/-- A queue of four entries: a 104-byte store at 0x1000, 16-byte messages,
headers and entries aligned to 8 bytes, the entries zero. -/
def fourEntryRun : MsgqRun Nat :=
  { producer := (msgqTxCreate msgqInit 0x1000 104 16 3 3).1
    consumer := (msgqRxLink msgqInit (some (msgqTxCreate msgqInit 0x1000 104 16 3 3).1.tx) 104 16).1
    entries := fun _ => 0
    writePtr := (msgqTxCreate msgqInit 0x1000 104 16 3 3).1.tx.writePtr
    readPtr := (msgqRxLink msgqInit (some (msgqTxCreate msgqInit 0x1000 104 16 3 3).1.tx) 104 16).1.rxReadPtr
    submitted := [], consumed := [], producerSeen := 0, consumerSeen := 0 }

theorem reachable_fourEntryRun : Reachable fourEntryRun :=
  @Reachable.link Nat 0x1000 104 16 3 3 _ _ (by decide) (fun _ => 0) (by decide)

/-- Two messages sent and consumed, then three more sent around the end of the
ring. -/
def wrappedMsgqRun : MsgqRun Nat :=
  (((((((fourEntryRun.writeBuffer 0 0 1).writeBuffer 1 0 2).submitBuffers 2 0).markConsumed 2 2).writeBuffer 0 2 3).writeBuffer
    1 2 4).writeBuffer 2 2 5).submitBuffers 3 2

example : wrappedMsgqRun.submitted = [1, 2, 3, 4, 5] ∧ wrappedMsgqRun.consumed = [1, 2] ∧
    wrappedMsgqRun.pending = [3, 4, 5] ∧ wrappedMsgqRun.writePtr = 1 := by decide

theorem wrappedMsgqRun_contract : MsgqContract wrappedMsgqRun :=
  reachable_msgq_fifo
    (.step (.step (.step (.step (.step (.step (.step (.step reachable_fourEntryRun
      (.writeBuffer 0 0 1 (by decide))) (.writeBuffer 1 0 2 (by decide))) (.submitBuffers 2 0 (by decide)))
      (.markConsumed 2 2 (by decide))) (.writeBuffer 0 2 3 (by decide))) (.writeBuffer 1 2 4 (by decide)))
      (.writeBuffer 2 2 5 (by decide))) (.submitBuffers 3 2 (by decide)))

/-- The sender reads `readPtr` as 3 and later as 0: both are values the receiver
wrote, the 0 when it linked.  The ring then holds four pending messages in four
entries, the receiver finds none of them available, and the sender is handed
the entry of the oldest. -/
def staleReadRun : MsgqRun Nat :=
  ((((((((((fourEntryRun.writeBuffer 0 0 1).writeBuffer 1 0 2).writeBuffer 2 0 3).submitBuffers 3 0).markConsumed 3
    3).writeBuffer 0 3 4).writeBuffer 1 3 5).writeBuffer 2 3 6).submitBuffers 3 3).writeBuffer 0 0 7).submitBuffers 1 0

theorem staleRead_hands_out_pending_entry :
    staleReadRun.pending = [4, 5, 6, 7] ∧ staleReadRun.readPtr = 3 ∧ staleReadRun.writePtr = 3 ∧
      (msgqRxGetReadAvailable staleReadRun.consumer 3).2 = 0 ∧
      (msgqTxGetWriteBuffer staleReadRun.producer 3 0).2 = some 3 ∧ staleReadRun.entries 3 = 4 := by
  decide

end NvidiaGpu.Msgq
