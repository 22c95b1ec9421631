import NvidiaGpu.Msgq.Queue

set_option autoImplicit false

/-! One handle of `msgq.c` under every word the other side may write.  Each
call reads the other side's pointer word, and here that word is any value at
all, not one the other side's own calls would produce.  From `msgqInit`,
through any setup and any calls, the counts a call returns stay below
`msgCount`, every entry handed out is a whole entry of the ring, and a refused
submit or consume leaves the pointer where it was. -/

namespace NvidiaGpu.Msgq

def MsgqMetadata.txPart (queue : MsgqMetadata) : MsgqTxHeader × Nat × Nat × Bool :=
  (queue.tx, queue.txReadPtr, queue.txFree, queue.txLinked)

def MsgqMetadata.rxPart (queue : MsgqMetadata) : MsgqTxHeader × Nat × Nat × Bool :=
  (queue.rx, queue.rxReadPtr, queue.rxAvail, queue.rxLinked)

section Frame

variable {queue : MsgqMetadata} {observed n : Nat}

theorem rxPart_msgqTxGetFreeSpace : (msgqTxGetFreeSpace queue observed).1.rxPart = queue.rxPart := by
  unfold msgqTxGetFreeSpace
  dsimp only
  split_ifs <;> rfl

theorem rxPart_msgqTxGetWriteBuffer : (msgqTxGetWriteBuffer queue observed n).1.rxPart = queue.rxPart := by
  have refreshed : (msgqTxGetFreeSpace queue observed).1.rxPart = queue.rxPart := rxPart_msgqTxGetFreeSpace
  unfold msgqTxGetWriteBuffer refuses
  dsimp only
  split_ifs <;> first | rfl | exact refreshed

theorem rxPart_msgqTxSubmitBuffers : (msgqTxSubmitBuffers queue observed n).1.rxPart = queue.rxPart := by
  have refreshed : (msgqTxGetFreeSpace queue observed).1.rxPart = queue.rxPart := rxPart_msgqTxGetFreeSpace
  unfold msgqTxSubmitBuffers refuses
  dsimp only
  split_ifs <;> first | rfl | exact refreshed

theorem txPart_msgqRxGetReadAvailable : (msgqRxGetReadAvailable queue observed).1.txPart = queue.txPart := by
  unfold msgqRxGetReadAvailable
  dsimp only
  split_ifs <;> rfl

theorem txPart_msgqRxGetReadBuffer : (msgqRxGetReadBuffer queue observed n).1.txPart = queue.txPart := by
  have refreshed : (msgqRxGetReadAvailable queue observed).1.txPart = queue.txPart := txPart_msgqRxGetReadAvailable
  unfold msgqRxGetReadBuffer refuses
  dsimp only
  split_ifs <;> first | rfl | exact refreshed

theorem txPart_msgqRxMarkConsumed : (msgqRxMarkConsumed queue observed n).1.txPart = queue.txPart := by
  have refreshed : (msgqRxGetReadAvailable queue observed).1.txPart = queue.txPart := txPart_msgqRxGetReadAvailable
  unfold msgqRxMarkConsumed refuses
  dsimp only
  split_ifs <;> first | rfl | exact refreshed

theorem msgqRxLink_handle {pBackingStore : Option MsgqTxHeader} {size msgSize : UInt32} :
    (msgqRxLink queue pBackingStore size msgSize).1.txPart = queue.txPart ∧
      (msgqRxLink queue pBackingStore size msgSize).1.rxAvail = queue.rxAvail ∧
      (queue.rxLinked = true → (msgqRxLink queue pBackingStore size msgSize).1 = queue) ∧
      ((msgqRxLink queue pBackingStore size msgSize).1.rxLinked = true →
        (msgqRxLink queue pBackingStore size msgSize).1 = queue ∨
          (msgqRxLink queue pBackingStore size msgSize).1.rxReadPtr = 0) := by
  unfold msgqRxLink
  rcases pBackingStore with _ | theirTx
  · split_ifs <;> simp
  · dsimp only
    split_ifs <;> simp_all [MsgqMetadata.txPart]

theorem msgqTxCreate_handle {pBackingStore : UInt64} {size msgSize hdrAlign entryAlign : UInt32} :
    (msgqTxCreate queue pBackingStore size msgSize hdrAlign entryAlign).1.rx = queue.rx ∧
      (msgqTxCreate queue pBackingStore size msgSize hdrAlign entryAlign).1.rxReadPtr = queue.rxReadPtr ∧
      (msgqTxCreate queue pBackingStore size msgSize hdrAlign entryAlign).1.rxLinked = queue.rxLinked ∧
      ((msgqTxCreate queue pBackingStore size msgSize hdrAlign entryAlign).1.rxAvail = queue.rxAvail ∨
        (msgqTxCreate queue pBackingStore size msgSize hdrAlign entryAlign).1.rxAvail = 0) ∧
      ((msgqTxCreate queue pBackingStore size msgSize hdrAlign entryAlign).1.txLinked = true →
        (msgqTxCreate queue pBackingStore size msgSize hdrAlign entryAlign).1 = queue ∨
          (msgqTxCreate queue pBackingStore size msgSize hdrAlign entryAlign).2 = 0) := by
  unfold msgqTxCreate
  dsimp only
  split_ifs <;> simp_all

end Frame

theorem TxReady.of_txPart {queue other : MsgqMetadata} (same : other.txPart = queue.txPart) (ready : TxReady queue) :
    TxReady other := by
  simp only [MsgqMetadata.txPart, Prod.mk.injEq] at same
  obtain ⟨tx, -, txFree, txLinked⟩ := same
  exact ⟨txLinked ▸ ready.linked, tx ▸ ready.writePtrBelow, tx ▸ txFree ▸ ready.freeBelow⟩

theorem RxReady.of_rxPart {queue other : MsgqMetadata} (same : other.rxPart = queue.rxPart) (ready : RxReady queue) :
    RxReady other := by
  simp only [MsgqMetadata.rxPart, Prod.mk.injEq] at same
  obtain ⟨rx, rxReadPtr, rxAvail, rxLinked⟩ := same
  exact ⟨rxLinked ▸ ready.linked, rx ▸ rxReadPtr ▸ ready.readPtrBelow, rx ▸ rxAvail ▸ ready.availBelow⟩

theorem RxEmpty.of_rxPart {queue other : MsgqMetadata} (same : other.rxPart = queue.rxPart) (empty : RxEmpty queue) :
    RxEmpty other := by
  simp only [MsgqMetadata.rxPart, Prod.mk.injEq] at same
  obtain ⟨rx, rxReadPtr, rxAvail, rxLinked⟩ := same
  exact ⟨rxLinked ▸ empty.linked, rx ▸ empty.noEntries, rxReadPtr ▸ empty.readPtr, rxAvail ▸ empty.nothingCached⟩

/-! ## Calls on any word -/

/-- A call on the handle, with the value it reads of the other side's pointer
word. -/
inductive MsgqCall
  | txCreate (pBackingStore : UInt64) (size msgSize hdrAlign entryAlign : UInt32)
  | rxLink (pBackingStore : Option MsgqTxHeader) (size msgSize : UInt32)
  | txGetFreeSpace (readIncoming : Nat)
  | txGetWriteBuffer (readIncoming n : Nat)
  | txSubmitBuffers (readIncoming n : Nat)
  | rxGetReadAvailable (writeIncoming : Nat)
  | rxGetReadBuffer (writeIncoming n : Nat)
  | rxMarkConsumed (writeIncoming n : Nat)

def MsgqCall.apply (queue : MsgqMetadata) : MsgqCall → MsgqMetadata
  | .txCreate pBackingStore size msgSize hdrAlign entryAlign =>
      (msgqTxCreate queue pBackingStore size msgSize hdrAlign entryAlign).1
  | .rxLink pBackingStore size msgSize => (msgqRxLink queue pBackingStore size msgSize).1
  | .txGetFreeSpace readIncoming => (msgqTxGetFreeSpace queue readIncoming).1
  | .txGetWriteBuffer readIncoming n => (msgqTxGetWriteBuffer queue readIncoming n).1
  | .txSubmitBuffers readIncoming n => (msgqTxSubmitBuffers queue readIncoming n).1
  | .rxGetReadAvailable writeIncoming => (msgqRxGetReadAvailable queue writeIncoming).1
  | .rxGetReadBuffer writeIncoming n => (msgqRxGetReadBuffer queue writeIncoming n).1
  | .rxMarkConsumed writeIncoming n => (msgqRxMarkConsumed queue writeIncoming n).1

def runCalls (calls : List MsgqCall) : MsgqMetadata :=
  calls.foldl MsgqCall.apply msgqInit

/-- The calls that keep `msgqTxCreate`'s sum `entryOff + msgSize` below `2^32`:
a create whose message size leaves room for the largest header region. -/
def MsgqCall.NoWrap : MsgqCall → Prop
  | .txCreate _ _ msgSize _ _ => msgSize.toNat + 2 ^ 13 < 2 ^ 32
  | _ => True

instance (call : MsgqCall) : Decidable call.NoWrap := by
  cases call <;> unfold MsgqCall.NoWrap <;> infer_instance

/-- What every handle keeps between calls: a linked sender is ready, a linked
receiver is ready or on a ring of no entries, and an unlinked receiver has
nothing cached. -/
structure HandleInv (queue : MsgqMetadata) : Prop where
  tx : queue.txLinked = true → TxReady queue
  rx : queue.rxLinked = true → RxReady queue ∨ RxEmpty queue
  rxIdle : queue.rxLinked = false → queue.rxAvail = 0

theorem handleInv_msgqInit : HandleInv msgqInit :=
  ⟨nofun, nofun, fun _ => rfl⟩

theorem HandleInv.of_txCall {queue after : MsgqMetadata} (inv : HandleInv queue) (frame : after.rxPart = queue.rxPart)
    (linked : queue.txLinked = true → TxReady after) (unlinked : queue.txLinked = false → after = queue) :
    HandleInv after := by
  have same := frame
  simp only [MsgqMetadata.rxPart, Prod.mk.injEq] at same
  obtain ⟨-, -, rxAvail, rxLinked⟩ := same
  refine ⟨fun txLinked => ?_, fun receiver => ?_, fun idle => rxAvail ▸ inv.rxIdle (rxLinked ▸ idle)⟩
  · cases sender : queue.txLinked
    · rw [unlinked sender, sender] at txLinked
      cases txLinked
    · exact linked sender
  · rcases inv.rx (rxLinked ▸ receiver) with ready | empty
    · exact Or.inl (RxReady.of_rxPart frame ready)
    · exact Or.inr (RxEmpty.of_rxPart frame empty)

theorem HandleInv.of_rxCall {queue after : MsgqMetadata} (inv : HandleInv queue) (frame : after.txPart = queue.txPart)
    (linked : queue.rxLinked = true → RxReady after ∨ RxEmpty after)
    (unlinked : queue.rxLinked = false → after = queue) :
    HandleInv after := by
  have same := frame
  simp only [MsgqMetadata.txPart, Prod.mk.injEq] at same
  obtain ⟨-, -, -, txLinked⟩ := same
  refine ⟨fun sender => TxReady.of_txPart frame (inv.tx (txLinked ▸ sender)), fun rxLinked => ?_, fun idle => ?_⟩
  · cases receiver : queue.rxLinked
    · rw [unlinked receiver, receiver] at rxLinked
      cases rxLinked
    · exact linked receiver
  · cases receiver : queue.rxLinked
    · rw [unlinked receiver]
      exact inv.rxIdle receiver
    · rcases linked receiver with ready | empty
      · rw [ready.linked] at idle
        cases idle
      · rw [empty.linked] at idle
        cases idle

theorem HandleInv.txCreate {queue : MsgqMetadata} (inv : HandleInv queue) {pBackingStore : UInt64}
    {size msgSize hdrAlign entryAlign : UInt32} (noWrap : msgSize.toNat + 2 ^ 13 < 2 ^ 32) :
    HandleInv (msgqTxCreate queue pBackingStore size msgSize hdrAlign entryAlign).1 := by
  obtain ⟨rx, rxReadPtr, rxLinked, rxAvail, sender⟩ :=
    @msgqTxCreate_handle queue pBackingStore size msgSize hdrAlign entryAlign
  refine ⟨fun txLinked => ?_, fun receiver => ?_, fun idle => ?_⟩
  · rcases sender txLinked with same | created
    · rw [same] at txLinked ⊢
      exact inv.tx txLinked
    · obtain ⟨linked, positive, writePtr, free, -⟩ := msgqTxCreate_eq_zero noWrap created
      exact ⟨linked, by omega, by omega⟩
  · rcases inv.rx (rxLinked ▸ receiver) with ready | empty
    · refine Or.inl ⟨receiver, rx ▸ rxReadPtr ▸ ready.readPtrBelow, ?_⟩
      rcases rxAvail with same | zero
      · exact rx ▸ same ▸ ready.availBelow
      · have := ready.readPtrBelow
        rw [rx, zero]
        omega
    · refine Or.inr ⟨receiver, rx ▸ empty.noEntries, rxReadPtr ▸ empty.readPtr, ?_⟩
      rcases rxAvail with same | zero
      · exact same ▸ empty.nothingCached
      · exact zero
  · rcases rxAvail with same | zero
    · exact same ▸ inv.rxIdle (rxLinked ▸ idle)
    · exact zero

theorem HandleInv.rxLink {queue : MsgqMetadata} (inv : HandleInv queue) (pBackingStore : Option MsgqTxHeader)
    (size msgSize : UInt32) : HandleInv (msgqRxLink queue pBackingStore size msgSize).1 := by
  obtain ⟨frame, rxAvail, idle, receiver⟩ := @msgqRxLink_handle queue pBackingStore size msgSize
  refine ⟨fun sender => TxReady.of_txPart frame (inv.tx ?_), fun rxLinked => ?_, fun unlinked => ?_⟩
  · simp only [MsgqMetadata.txPart, Prod.mk.injEq] at frame
    exact frame.2.2.2 ▸ sender
  · cases before : queue.rxLinked
    · rcases receiver rxLinked with same | readPtr
      · rw [same] at rxLinked ⊢
        exact inv.rx rxLinked
      · have cached := rxAvail.trans (inv.rxIdle before)
        by_cases entries : 0 < (msgqRxLink queue pBackingStore size msgSize).1.rx.msgCount
        · exact Or.inl ⟨rxLinked, by omega, by omega⟩
        · exact Or.inr ⟨rxLinked, by omega, readPtr, cached⟩
    · rw [idle before]
      exact inv.rx before
  · cases before : queue.rxLinked
    · rw [rxAvail]
      exact inv.rxIdle before
    · rw [idle before] at unlinked
      rw [unlinked] at before
      cases before

theorem RxEmpty.apply {queue : MsgqMetadata} (empty : RxEmpty queue) :
    (∀ observed, RxEmpty (msgqRxGetReadAvailable queue observed).1) ∧
      (∀ observed n, RxEmpty (msgqRxGetReadBuffer queue observed n).1) ∧
      ∀ observed n, RxEmpty (msgqRxMarkConsumed queue observed n).1 := by
  have refreshed (observed : Nat) : RxEmpty { queue with rx := { queue.rx with writePtr := observed } } :=
    ⟨empty.linked, empty.noEntries, empty.readPtr, empty.nothingCached⟩
  refine ⟨fun observed => ?_, fun observed n => ?_, fun observed n => ?_⟩
  · rw [msgqRxGetReadAvailable_empty empty]
    exact refreshed observed
  · rw [msgqRxGetReadBuffer_empty empty]
    exact refreshed observed
  · rw [msgqRxMarkConsumed_empty empty]
    split
    · exact refreshed observed
    · exact empty

theorem HandleInv.apply {queue : MsgqMetadata} (inv : HandleInv queue) :
    ∀ call : MsgqCall, call.NoWrap → HandleInv (call.apply queue)
  | .txCreate _ _ _ _ _, noWrap => inv.txCreate noWrap
  | .rxLink pBackingStore size msgSize, _ => inv.rxLink pBackingStore size msgSize
  | .txGetFreeSpace readIncoming, _ =>
      inv.of_txCall rxPart_msgqTxGetFreeSpace
        (fun linked => by
          obtain ⟨txFree, refreshed, below, -⟩ := msgqTxGetFreeSpace_any (inv.tx linked) readIncoming
          simp only [MsgqCall.apply, refreshed]
          exact ⟨linked, (inv.tx linked).writePtrBelow, below⟩)
        (fun unlinked => by simp [MsgqCall.apply, msgqTxGetFreeSpace, unlinked])
  | .txGetWriteBuffer readIncoming n, _ =>
      inv.of_txCall rxPart_msgqTxGetWriteBuffer (fun linked => (msgqTxGetWriteBuffer_any (inv.tx linked) readIncoming n).2.1)
        (fun unlinked => by simp [MsgqCall.apply, msgqTxGetWriteBuffer, unlinked])
  | .txSubmitBuffers readIncoming n, _ =>
      inv.of_txCall rxPart_msgqTxSubmitBuffers (fun linked => (msgqTxSubmitBuffers_any (inv.tx linked) readIncoming n).1)
        (fun unlinked => by simp [MsgqCall.apply, msgqTxSubmitBuffers, unlinked])
  | .rxGetReadAvailable writeIncoming, _ =>
      inv.of_rxCall txPart_msgqRxGetReadAvailable
        (fun linked => (inv.rx linked).imp
          (fun ready => by
            obtain ⟨rxAvail, refreshed, below, -⟩ := msgqRxGetReadAvailable_any ready writeIncoming
            simp only [MsgqCall.apply, refreshed]
            exact ⟨linked, ready.readPtrBelow, below⟩)
          (fun empty => empty.apply.1 writeIncoming))
        (fun unlinked => by simp [MsgqCall.apply, msgqRxGetReadAvailable, unlinked])
  | .rxGetReadBuffer writeIncoming n, _ =>
      inv.of_rxCall txPart_msgqRxGetReadBuffer
        (fun linked => (inv.rx linked).imp (fun ready => (msgqRxGetReadBuffer_any ready writeIncoming n).2.2.1)
          (fun empty => empty.apply.2.1 writeIncoming n))
        (fun unlinked => by simp [MsgqCall.apply, msgqRxGetReadBuffer, unlinked])
  | .rxMarkConsumed writeIncoming n, _ =>
      inv.of_rxCall txPart_msgqRxMarkConsumed
        (fun linked => (inv.rx linked).imp (fun ready => (msgqRxMarkConsumed_any ready writeIncoming n).1)
          (fun empty => empty.apply.2.2 writeIncoming n))
        (fun unlinked => by simp [MsgqCall.apply, msgqRxMarkConsumed, unlinked])

theorem HandleInv.foldl {queue : MsgqMetadata} (inv : HandleInv queue) (calls : List MsgqCall)
    (noWrap : ∀ call ∈ calls, call.NoWrap) : HandleInv (calls.foldl MsgqCall.apply queue) := by
  induction calls generalizing queue with
  | nil => exact inv
  | cons call rest ih =>
      exact ih (inv.apply call (noWrap call List.mem_cons_self)) fun later mem => noWrap later (List.mem_cons_of_mem _ mem)

theorem handleInv_runCalls (calls : List MsgqCall) (noWrap : ∀ call ∈ calls, call.NoWrap) :
    HandleInv (runCalls calls) :=
  handleInv_msgqInit.foldl calls noWrap

/-- What the sender's calls promise on a handle whatever the receiver's word
reads: a count below the ring, a slot inside it, a refusal exactly when both
the cached and the fresh count fall short, and a refusal that moves nothing. -/
structure TxSafe (queue : MsgqMetadata) : Prop where
  freeBelow : ∀ observed, (msgqTxGetFreeSpace queue observed).2 ≤ queue.tx.msgCount - 1
  slotInside : ∀ observed n slot, (msgqTxGetWriteBuffer queue observed n).2 = some slot →
    slot = (queue.tx.writePtr + n) % queue.tx.msgCount ∧ slot < queue.tx.msgCount
  refused : ∀ observed n,
    ((msgqTxSubmitBuffers queue observed n).2 = -1 ↔ queue.txFree < n ∧ (msgqTxGetFreeSpace queue observed).2 < n)
  refusalKeeps : ∀ observed n, (msgqTxSubmitBuffers queue observed n).2 = -1 →
    (msgqTxSubmitBuffers queue observed n).1.tx.writePtr = queue.tx.writePtr

/-- The receiver's side of `TxSafe`. -/
structure RxSafe (queue : MsgqMetadata) : Prop where
  availBelow : ∀ observed, (msgqRxGetReadAvailable queue observed).2 ≤ queue.rx.msgCount - 1
  slotInside : ∀ observed n slot, (msgqRxGetReadBuffer queue observed n).2 = some slot →
    slot = (queue.rxReadPtr + n) % queue.rx.msgCount ∧ slot < queue.rx.msgCount
  refused : ∀ observed n,
    ((msgqRxMarkConsumed queue observed n).2 = -1 ↔ queue.rxAvail < n ∧ (msgqRxGetReadAvailable queue observed).2 < n)
  refusalKeeps : ∀ observed n, (msgqRxMarkConsumed queue observed n).2 = -1 →
    (msgqRxMarkConsumed queue observed n).1.rxReadPtr = queue.rxReadPtr

theorem TxReady.safe {queue : MsgqMetadata} (ready : TxReady queue) : TxSafe queue where
  freeBelow observed := by
    obtain ⟨txFree, -, below, counted⟩ := msgqTxGetFreeSpace_any ready observed
    omega
  slotInside observed n slot handed := by
    obtain ⟨slotAt, -⟩ := (msgqTxGetWriteBuffer_any ready observed n).2.2 slot handed
    exact ⟨slotAt, slotAt ▸ Nat.mod_lt _ (by have := ready.writePtrBelow; omega)⟩
  refused observed n := (msgqTxSubmitBuffers_any ready observed n).2.2.2
  refusalKeeps observed n := (msgqTxSubmitBuffers_any ready observed n).2.2.1

theorem RxReady.safe {queue : MsgqMetadata} (ready : RxReady queue) : RxSafe queue where
  availBelow observed := by
    obtain ⟨rxAvail, -, below, counted⟩ := msgqRxGetReadAvailable_any ready observed
    omega
  slotInside observed n slot handed := by
    obtain ⟨slotAt, -⟩ := (msgqRxGetReadBuffer_any ready observed n).2.2.2 slot handed
    exact ⟨slotAt, slotAt ▸ Nat.mod_lt _ (by have := ready.readPtrBelow; omega)⟩
  refused observed n := (msgqRxMarkConsumed_any ready observed n).2.2.2
  refusalKeeps observed n := (msgqRxMarkConsumed_any ready observed n).2.2.1

theorem RxEmpty.safe {queue : MsgqMetadata} (empty : RxEmpty queue) : RxSafe queue where
  availBelow observed := by
    rw [msgqRxGetReadAvailable_empty empty]
    exact Nat.zero_le _
  slotInside observed n slot handed := by
    rw [msgqRxGetReadBuffer_empty empty] at handed
    cases handed
  refused observed n := by
    rw [msgqRxMarkConsumed_empty empty, msgqRxGetReadAvailable_empty empty, empty.nothingCached]
    by_cases some : 0 < n <;> simp [some]
  refusalKeeps observed n refusal := by
    rw [msgqRxMarkConsumed_empty empty] at refusal ⊢
    split
    · rfl
    · rfl

theorem msgq_any_remote_word (calls : List MsgqCall) (noWrap : ∀ call ∈ calls, call.NoWrap) :
    ((runCalls calls).txLinked = true → TxSafe (runCalls calls)) ∧
      ((runCalls calls).rxLinked = true → RxSafe (runCalls calls)) :=
  ⟨fun linked => ((handleInv_runCalls calls noWrap).tx linked).safe,
    fun linked => ((handleInv_runCalls calls noWrap).rx linked).elim RxReady.safe RxEmpty.safe⟩

/-- A sender and a receiver set up over one store of 128 bytes, then a submit
that the cached free count covers. -/
def linkedCalls : List MsgqCall :=
  [.txCreate 0x1000 128 16 3 3, .rxLink (some (msgqTxCreate msgqInit 0x1000 128 16 3 3).1.tx) 128 16,
    .txSubmitBuffers 0 2]

theorem msgq_any_remote_word_linked :
    (∀ call ∈ linkedCalls, call.NoWrap) ∧
      ((runCalls linkedCalls).txLinked = true → TxSafe (runCalls linkedCalls)) ∧
      ((runCalls linkedCalls).rxLinked = true → RxSafe (runCalls linkedCalls)) :=
  have noWrap : ∀ call ∈ linkedCalls, call.NoWrap := by decide
  ⟨noWrap, msgq_any_remote_word linkedCalls noWrap⟩

/-- A created queue of five entries with four free in its cache accepts a
submit of two when the receiver's word reads 1, from which the fresh free count
is 0; and a create whose message size makes `entryOff + msgSize` wrap links a
ring of no entries, with `2^32 - 1` free, and hands out entry 1 of it. -/
theorem msgqTx_stale_cache_and_wrapped_ring :
    (runCalls [.txCreate 0x1000 128 16 3 3]).txFree = 4 ∧
      (msgqTxGetFreeSpace (runCalls [.txCreate 0x1000 128 16 3 3]) 1).2 = 0 ∧
      (msgqTxSubmitBuffers (runCalls [.txCreate 0x1000 128 16 3 3]) 1 2).2 = 0 ∧
      (runCalls [.txCreate 0x1000 0xFFFFFFFF 0xFFFFFFFF 3 3]).txLinked = true ∧
      (runCalls [.txCreate 0x1000 0xFFFFFFFF 0xFFFFFFFF 3 3]).tx.msgCount = 0 ∧
      (runCalls [.txCreate 0x1000 0xFFFFFFFF 0xFFFFFFFF 3 3]).txFree = 2 ^ 32 - 1 ∧
      (msgqTxGetWriteBuffer (runCalls [.txCreate 0x1000 0xFFFFFFFF 0xFFFFFFFF 3 3]) 0 1).2 = some 1 := by
  decide

end NvidiaGpu.Msgq
