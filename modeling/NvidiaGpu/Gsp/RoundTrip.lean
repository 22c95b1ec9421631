import NvidiaGpu.Gsp.MessageQueue
import NvidiaGpu.Msgq.Protocol

set_option autoImplicit false

/-! The round trip of a record through the GSP message queue.  A send that
returns `NV_OK` leaves the record framed in the ring, one queue element an
entry from the old write pointer on; a receive from a ring that holds a framed
record with the expected sequence number returns that record.  The two halves
meet at `Framed`. -/

namespace NvidiaGpu.Gsp

open Msgq ByteMemory Window

/-- The ring holds `record` in the `elemCount` entries from `start` on, one
queue element each, with the element count and checksum the receiver checks. -/
structure Framed (ring : Nat → Nat → UInt8) (msgCount start : Nat) (record : Nat → UInt8) (elemCount : Nat) :
    Prop where
  elements : ∀ index < elemCount, ring ((start + index) % msgCount) = elementAt record index
  positive : 0 < elemCount
  fits : elemCount < msgCount
  small : elemCount ≤ 16
  count : load32 record elemCountOffset = UInt32.ofNat elemCount
  checkSum : checkSum32 record (elemCount * gspMsgQueueElementSizeMin) = 0
  valid : badLength (elementSize record) = false

/-! ## Sending -/

theorem writeElements_spec (staging : Nat → UInt8) (readIncoming : Nat → Nat) (remaining : Nat) :
    ∀ (index : Nat) (queue : MsgqMetadata) (entries : Nat → Nat → UInt8) (txBufferFull : UInt32),
      TxReady queue → index ≤ queue.txFree →
      (writeElements staging readIncoming queue entries txBufferFull index remaining).1.tx = queue.tx ∧
        TxReady (writeElements staging readIncoming queue entries txBufferFull index remaining).1 ∧
        ((writeElements staging readIncoming queue entries txBufferFull index remaining).2.2.2 = true →
          index + remaining ≤ (writeElements staging readIncoming queue entries txBufferFull index remaining).1.txFree ∧
          WritesAround entries (writeElements staging readIncoming queue entries txBufferFull index remaining).2.1
            queue.tx.msgCount (queue.tx.writePtr + index) (fun offset => elementAt staging (index + offset))
            remaining) := by
  induction remaining with
  | zero =>
      intro index queue entries txBufferFull ready fits
      exact ⟨rfl, ready, fun _ => ⟨fits, writesAround_zero⟩⟩
  | succ remaining ih =>
      intro index queue entries txBufferFull ready fits
      obtain ⟨sameTx, nextReady, handed⟩ := msgqTxGetWriteBuffer_any ready (readIncoming index) index
      rcases got : msgqTxGetWriteBuffer queue (readIncoming index) index with ⟨next, _ | slot⟩
      · rw [got] at sameTx nextReady
        simp only [writeElements, got]
        exact ⟨sameTx, nextReady, fun stopped => absurd stopped Bool.false_ne_true⟩
      · rw [got] at sameTx nextReady handed
        obtain ⟨slotIs, room⟩ := handed slot rfl
        obtain ⟨restTx, restReady, rest⟩ :=
          ih (index + 1) next (Function.update entries slot (elementAt staging index)) 0 nextReady room
        simp only [writeElements, got]
        refine ⟨restTx.trans sameTx, restReady, fun finished => ?_⟩
        obtain ⟨restFits, restWrites⟩ := rest finished
        have freeBelow := restReady.freeBelow
        rw [restTx, sameTx] at freeBelow
        rw [sameTx] at restWrites
        have first : WritesAround entries (Function.update entries slot (elementAt staging index))
            queue.tx.msgCount (queue.tx.writePtr + index) (fun offset => elementAt staging (index + offset)) 1 := by
          rw [slotIs]
          exact writesAround_update fun offset => elementAt staging (index + offset)
        refine ⟨by omega, ?_⟩
        rw [Nat.add_comm remaining 1]
        exact first.trans (by simpa only [Nat.add_assoc] using restWrites) (by omega)

theorem gspMsgQueueSendCommand_of_copied {mqi : MessageQueueInfo} {entries ring : Nat → Nat → UInt8}
    {readIncoming : Nat → Nat} {submitIncoming : Nat} {queue : MsgqMetadata} {txBufferFull : UInt32}
    (ready : TxReady mqi.queue) (valid : badLength (elementSize mqi.cmdQueueElement) = false)
    (copied : writeElements (stageRecord mqi.cmdQueueElement mqi.txSeqNum) readIncoming mqi.queue entries
      mqi.txBufferFull 0 (gspMsgQueueBytesToElements (elementSize mqi.cmdQueueElement)) =
        (queue, ring, txBufferFull, true)) :
    gspMsgQueueSendCommand mqi entries readIncoming submitIncoming =
      ({ mqi with
          cmdQueueElement := stageRecord mqi.cmdQueueElement mqi.txSeqNum
          queue := { queue with
            tx := { queue.tx with
              writePtr := advance queue.tx.msgCount queue.tx.writePtr
                (gspMsgQueueBytesToElements (elementSize mqi.cmdQueueElement)) }
            txFree := queue.txFree - gspMsgQueueBytesToElements (elementSize mqi.cmdQueueElement) }
          txBufferFull := txBufferFull
          txSeqNum := mqi.txSeqNum + 1 }, ring, .nvOk) := by
  obtain ⟨_, queueReady, written⟩ := writeElements_spec (stageRecord mqi.cmdQueueElement mqi.txSeqNum) readIncoming
    (gspMsgQueueBytesToElements (elementSize mqi.cmdQueueElement)) 0 mqi.queue entries mqi.txBufferFull ready
    (Nat.zero_le _)
  rw [copied] at queueReady written
  obtain ⟨covered, _⟩ := written rfl
  rw [Nat.zero_add] at covered
  simp only [gspMsgQueueSendCommand, valid, copied, Bool.false_eq_true, if_false,
    msgqTxSubmitBuffers_of_le queueReady.linked submitIncoming covered, ne_eq, not_true_eq_false]

theorem gspMsgQueueSendCommand_ok {mqi : MessageQueueInfo} {entries : Nat → Nat → UInt8}
    {readIncoming : Nat → Nat} {submitIncoming : Nat} (ready : TxReady mqi.queue)
    (ok : (gspMsgQueueSendCommand mqi entries readIncoming submitIncoming).2.2 = .nvOk) :
    badLength (elementSize mqi.cmdQueueElement) = false ∧
    Framed (gspMsgQueueSendCommand mqi entries readIncoming submitIncoming).2.1 mqi.queue.tx.msgCount
        mqi.queue.tx.writePtr (gspMsgQueueSendCommand mqi entries readIncoming submitIncoming).1.cmdQueueElement
        (gspMsgQueueBytesToElements (elementSize mqi.cmdQueueElement)) ∧
      (gspMsgQueueSendCommand mqi entries readIncoming submitIncoming).1.cmdQueueElement =
        stageRecord mqi.cmdQueueElement mqi.txSeqNum ∧
      (gspMsgQueueSendCommand mqi entries readIncoming submitIncoming).1.queue.tx.msgCount = mqi.queue.tx.msgCount ∧
      (gspMsgQueueSendCommand mqi entries readIncoming submitIncoming).1.queue.tx.writePtr =
        (mqi.queue.tx.writePtr + gspMsgQueueBytesToElements (elementSize mqi.cmdQueueElement)) %
          mqi.queue.tx.msgCount ∧
      (gspMsgQueueSendCommand mqi entries readIncoming submitIncoming).1.txSeqNum = mqi.txSeqNum + 1 := by
  cases valid : badLength (elementSize mqi.cmdQueueElement)
  case true => simp [gspMsgQueueSendCommand, valid] at ok
  obtain ⟨positive, small, _⟩ := elemCount_bounds valid
  obtain ⟨sameTx, queueReady, written⟩ := writeElements_spec (stageRecord mqi.cmdQueueElement mqi.txSeqNum)
    readIncoming (gspMsgQueueBytesToElements (elementSize mqi.cmdQueueElement)) 0 mqi.queue entries
    mqi.txBufferFull ready (Nat.zero_le _)
  rcases copied : writeElements (stageRecord mqi.cmdQueueElement mqi.txSeqNum) readIncoming mqi.queue entries
    mqi.txBufferFull 0 (gspMsgQueueBytesToElements (elementSize mqi.cmdQueueElement)) with
    ⟨queue, ring, txBufferFull, _ | _⟩
  case false => simp [gspMsgQueueSendCommand, valid, copied] at ok
  rw [copied] at sameTx queueReady written
  dsimp only at sameTx queueReady written
  obtain ⟨covered, writes⟩ := written rfl
  have freeBelow := queueReady.freeBelow
  rw [sameTx] at freeBelow
  obtain ⟨_, count, checkSum⟩ := @stageRecord_header mqi.cmdQueueElement mqi.txSeqNum valid
  rw [gspMsgQueueSendCommand_of_copied ready valid copied]
  refine ⟨rfl, ⟨fun index inside => ?_, positive, by omega, small, count, checkSum, ?_⟩, rfl, ?_, ?_, rfl⟩
  · simpa only [Nat.add_zero, Nat.zero_add] using writes.1 index inside
  · rw [elementSize_stageRecord valid]
    exact valid
  · dsimp only
    rw [sameTx]
  · dsimp only
    rw [sameTx]
    exact advance_eq_mod (by have := ready.writePtrBelow; omega)

theorem gspMsgQueueSendCommand_failed {mqi : MessageQueueInfo} {entries : Nat → Nat → UInt8}
    {readIncoming : Nat → Nat} {submitIncoming : Nat} (ready : TxReady mqi.queue)
    (failed : (gspMsgQueueSendCommand mqi entries readIncoming submitIncoming).2.2 ≠ .nvOk) :
    (gspMsgQueueSendCommand mqi entries readIncoming submitIncoming).1.queue.tx = mqi.queue.tx ∧
      (gspMsgQueueSendCommand mqi entries readIncoming submitIncoming).1.txSeqNum = mqi.txSeqNum := by
  cases valid : badLength (elementSize mqi.cmdQueueElement)
  case true => simp [gspMsgQueueSendCommand, valid]
  obtain ⟨sameTx, _⟩ := writeElements_spec (stageRecord mqi.cmdQueueElement mqi.txSeqNum) readIncoming
    (gspMsgQueueBytesToElements (elementSize mqi.cmdQueueElement)) 0 mqi.queue entries mqi.txBufferFull ready
    (Nat.zero_le _)
  rcases copied : writeElements (stageRecord mqi.cmdQueueElement mqi.txSeqNum) readIncoming mqi.queue entries
    mqi.txBufferFull 0 (gspMsgQueueBytesToElements (elementSize mqi.cmdQueueElement)) with
    ⟨queue, ring, txBufferFull, _ | _⟩
  case true => exact absurd (by rw [gspMsgQueueSendCommand_of_copied ready valid copied]) failed
  rw [copied] at sameTx
  simp only [gspMsgQueueSendCommand, valid, copied, Bool.false_eq_true, if_false, and_true]
  exact sameTx

/-! ## Receiving -/

/-- The first `count` elements of `staging` are the ring's entries from `start`
on. -/
def Copied (staging : Nat → UInt8) (ring : Nat → Nat → UInt8) (msgCount start count : Nat) : Prop :=
  ∀ byte < count * gspMsgQueueElementSizeMin,
    staging byte = ring ((start + byte / gspMsgQueueElementSizeMin) % msgCount) (byte % gspMsgQueueElementSizeMin)

theorem copied_zero {staging : Nat → UInt8} {ring : Nat → Nat → UInt8} {msgCount start : Nat} :
    Copied staging ring msgCount start 0 :=
  fun _ none => absurd none (by simp)

theorem Copied.copyElement {staging : Nat → UInt8} {ring : Nat → Nat → UInt8} {msgCount start index : Nat}
    (copied : Copied staging ring msgCount start index) :
    Copied (copyElement staging index (ring ((start + index) % msgCount))) ring msgCount start (index + 1) := by
  intro byte below
  unfold NvidiaGpu.Gsp.copyElement
  have size : gspMsgQueueElementSizeMin = 4096 := rfl
  by_cases earlier : byte < index * gspMsgQueueElementSizeMin
  · rw [if_neg (by omega)]
    exact copied byte earlier
  · have inside : byte / gspMsgQueueElementSizeMin = index := by
      rw [size] at below earlier ⊢
      omega
    have offset : byte - index * gspMsgQueueElementSizeMin = byte % gspMsgQueueElementSizeMin := by
      rw [size] at below earlier ⊢
      omega
    rw [if_pos ⟨by omega, below⟩, inside, offset]

theorem Copied.framed {staging record : Nat → UInt8} {ring : Nat → Nat → UInt8} {msgCount start count elemCount : Nat}
    (copied : Copied staging ring msgCount start count) (framed : Framed ring msgCount start record elemCount)
    (within : count ≤ elemCount) :
    ∀ byte < count * gspMsgQueueElementSizeMin, staging byte = record byte := by
  intro byte below
  have element : byte / gspMsgQueueElementSizeMin < elemCount := by
    simp only [gspMsgQueueElementSizeMin] at below ⊢
    omega
  rw [copied byte below, framed.elements _ element, elementAt, Nat.div_add_mod']

theorem readElements_cached {ring : Nat → Nat → UInt8} {writeIncoming : Nat} {queue : MsgqMetadata}
    (linked : queue.rxLinked = true) (readPtrBelow : queue.rxReadPtr < queue.rx.msgCount)
    (availBelow : queue.rxAvail < queue.rx.msgCount) (remaining : Nat) :
    ∀ (index : Nat) (staging : Nat → UInt8), index + remaining ≤ queue.rxAvail →
      Copied staging ring queue.rx.msgCount queue.rxReadPtr index →
      ∃ copied, readElements ring writeIncoming queue staging index remaining = (queue, copied, true) ∧
        Copied copied ring queue.rx.msgCount queue.rxReadPtr (index + remaining) := by
  induction remaining with
  | zero => exact fun index staging _ copied => ⟨staging, rfl, copied⟩
  | succ remaining ih =>
      intro index staging fits copied
      have slot : advance queue.rx.msgCount queue.rxReadPtr index =
          (queue.rxReadPtr + index) % queue.rx.msgCount :=
        advance_eq_mod (by omega)
      obtain ⟨result, read, holds⟩ := ih (index + 1) _ (by omega) copied.copyElement
      refine ⟨result, ?_, by rwa [show index + (remaining + 1) = index + 1 + remaining by omega]⟩
      simp only [readElements, msgqRxGetReadBuffer_of_lt linked writeIncoming (show index < queue.rxAvail by omega),
        slot]
      exact read

theorem receivePass_received {mqi : MessageQueueInfo} {ring : Nat → Nat → UInt8} {record : Nat → UInt8}
    {elemCount : Nat} (seqMismatchDiff : UInt32) (linked : mqi.queue.rxLinked = true)
    (readPtrBelow : mqi.queue.rxReadPtr < mqi.queue.rx.msgCount) (empty : mqi.queue.rxAvail = 0)
    (framed : Framed ring mqi.queue.rx.msgCount mqi.queue.rxReadPtr record elemCount)
    (expected : load32 record seqNumOffset = mqi.rxSeqNum) :
    ∃ staging, receivePass mqi ring ((mqi.queue.rxReadPtr + elemCount) % mqi.queue.rx.msgCount) seqMismatchDiff =
        ({ mqi with
            queue := { mqi.queue with
              rx := { mqi.queue.rx with writePtr := (mqi.queue.rxReadPtr + elemCount) % mqi.queue.rx.msgCount }
              rxAvail := elemCount }
            cmdQueueElement := staging }, elemCount, .received) ∧
      ∀ byte < elemCount * gspMsgQueueElementSizeMin, staging byte = record byte := by
  have positive := framed.positive
  have fits := framed.fits
  have first : msgqRxGetReadBuffer mqi.queue ((mqi.queue.rxReadPtr + elemCount) % mqi.queue.rx.msgCount) 0 =
      ({ mqi.queue with
          rx := { mqi.queue.rx with writePtr := (mqi.queue.rxReadPtr + elemCount) % mqi.queue.rx.msgCount }
          rxAvail := elemCount }, some mqi.queue.rxReadPtr) := by
    rw [msgqRxGetReadBuffer_eq linked readPtrBelow framed.fits rfl, if_pos (by omega), if_neg (by omega),
      advance_eq_mod (by omega), Nat.add_zero, Nat.mod_eq_of_lt readPtrBelow]
  have firstCopied : Copied (copyElement mqi.cmdQueueElement 0 (ring mqi.queue.rxReadPtr)) ring
      mqi.queue.rx.msgCount mqi.queue.rxReadPtr 1 := by
    have copied := (copied_zero : Copied mqi.cmdQueueElement ring mqi.queue.rx.msgCount mqi.queue.rxReadPtr 0).copyElement
    rwa [Nat.add_zero, Nat.mod_eq_of_lt readPtrBelow] at copied
  have count : (load32 (copyElement mqi.cmdQueueElement 0 (ring mqi.queue.rxReadPtr)) elemCountOffset).toNat =
      elemCount := by
    have agree := firstCopied.framed framed positive
    rw [load32_congr_below agree (by simp only [elemCountOffset, gspMsgQueueElementSizeMin]; omega),
      framed.count, UInt32.toNat_ofNat', Nat.mod_eq_of_lt (by have := framed.small; omega)]
  obtain ⟨staging, read, copied⟩ : ∃ staging,
      readElements ring ((mqi.queue.rxReadPtr + elemCount) % mqi.queue.rx.msgCount)
          { mqi.queue with
            rx := { mqi.queue.rx with writePtr := (mqi.queue.rxReadPtr + elemCount) % mqi.queue.rx.msgCount }
            rxAvail := elemCount }
          (copyElement mqi.cmdQueueElement 0 (ring mqi.queue.rxReadPtr)) 1 (elemCount - 1) =
        ({ mqi.queue with
            rx := { mqi.queue.rx with writePtr := (mqi.queue.rxReadPtr + elemCount) % mqi.queue.rx.msgCount }
            rxAvail := elemCount }, staging, true) ∧
      Copied staging ring mqi.queue.rx.msgCount mqi.queue.rxReadPtr (1 + (elemCount - 1)) :=
    readElements_cached (by exact linked) (by exact readPtrBelow) (by exact fits) (elemCount - 1) 1 _ (by dsimp only; omega)
      firstCopied
  rw [Nat.add_sub_cancel' positive] at copied
  have agree := copied.framed framed le_rfl
  have checkSum : checkSum32 staging (elemCount * gspMsgQueueElementSizeMin % 2 ^ 32) = 0 := by
    rw [Nat.mod_eq_of_lt (by have := framed.small; simp only [gspMsgQueueElementSizeMin]; omega),
      checkSum32_elements_congr agree, framed.checkSum]
  have seqNum : load32 staging seqNumOffset = mqi.rxSeqNum := by
    rw [load32_congr_below agree (by simp only [seqNumOffset, gspMsgQueueElementSizeMin]; omega),
      expected]
  refine ⟨staging, ?_, agree⟩
  unfold receivePass
  rw [first]
  dsimp only
  rw [count, read]
  dsimp only
  rw [if_neg (not_not.mpr checkSum), if_neg (not_not.mpr seqNum)]

theorem receiveLoop_received {ring : Nat → Nat → UInt8} {writeIncoming fuel nMaxRetries nElements elemCount : Nat}
    {mqi received : MessageQueueInfo} {seqMismatchDiff : UInt32} {nvStatus : NvStatus} (positive : 0 < fuel)
    (retries : 0 < nMaxRetries)
    (pass : receivePass mqi ring writeIncoming seqMismatchDiff = (received, elemCount, .received)) :
    receiveLoop ring writeIncoming fuel mqi 0 nMaxRetries seqMismatchDiff nvStatus nElements =
      (received, some (0, elemCount, .nvOk)) := by
  obtain ⟨fuel, rfl⟩ : ∃ rest, fuel = rest + 1 := ⟨fuel - 1, by omega⟩
  simp only [receiveLoop, if_pos retries, pass]

theorem gspMsgQueueReceiveStatus_received {mqi : MessageQueueInfo} {ring : Nat → Nat → UInt8}
    {record : Nat → UInt8} {elemCount : Nat} (linked : mqi.queue.rxLinked = true)
    (readPtrBelow : mqi.queue.rxReadPtr < mqi.queue.rx.msgCount) (empty : mqi.queue.rxAvail = 0)
    (framed : Framed ring mqi.queue.rx.msgCount mqi.queue.rxReadPtr record elemCount)
    (expected : load32 record seqNumOffset = mqi.rxSeqNum) :
    ∃ staging, gspMsgQueueReceiveStatus mqi ring ((mqi.queue.rxReadPtr + elemCount) % mqi.queue.rx.msgCount) =
        ({ mqi with
            queue := { mqi.queue with
              rx := { mqi.queue.rx with writePtr := (mqi.queue.rxReadPtr + elemCount) % mqi.queue.rx.msgCount }
              rxReadPtr := (mqi.queue.rxReadPtr + elemCount) % mqi.queue.rx.msgCount
              rxAvail := 0 }
            cmdQueueElement := staging
            rxSeqNum := mqi.rxSeqNum + 1 }, .nvOk) ∧
      ∀ byte < elemCount * gspMsgQueueElementSizeMin, staging byte = record byte := by
  obtain ⟨staging, pass, agree⟩ := receivePass_received 0xFFFFFFFF linked readPtrBelow empty framed expected
  have length : elementSize staging = elementSize record := by
    unfold elementSize
    have := framed.positive
    rw [load32_congr_below agree (by simp only [rpcLengthOffset, gspMsgQueueElementSizeMin]; omega)]
  have consumed : msgqRxMarkConsumed
      { mqi.queue with
        rx := { mqi.queue.rx with writePtr := (mqi.queue.rxReadPtr + elemCount) % mqi.queue.rx.msgCount }
        rxAvail := elemCount }
      ((mqi.queue.rxReadPtr + elemCount) % mqi.queue.rx.msgCount) elemCount =
      ({ mqi.queue with
          rx := { mqi.queue.rx with writePtr := (mqi.queue.rxReadPtr + elemCount) % mqi.queue.rx.msgCount }
          rxReadPtr := (mqi.queue.rxReadPtr + elemCount) % mqi.queue.rx.msgCount
          rxAvail := 0 }, 0) := by
    rw [msgqRxMarkConsumed_of_le (by exact linked) _ (by exact le_refl elemCount), Nat.sub_self,
      advance_eq_mod (by dsimp only; have := framed.fits; omega)]
  refine ⟨staging, ?_, agree⟩
  unfold gspMsgQueueReceiveStatus
  rw [receiveLoop_received (by norm_num) (by norm_num) pass]
  dsimp only
  rw [consumed, length, framed.valid]
  simp only [gt_iff_lt, Nat.lt_irrefl, false_and, if_false, Bool.false_eq_true, if_true, Int.lt_irrefl]

/-! ## The round trip -/

/-- What a receive finds after a send of `sender`'s record returned `NV_OK`:
the transmitted elements in its staging element, so the record's header fields
and rpc bytes; a checksum that folds to zero over them; the fewest elements
that hold the record, all consumed; and the next sequence number expected. -/
structure RoundTrip (sender sent receiver : MessageQueueInfo) (received : MessageQueueInfo × NvStatus) :
    Prop where
  status : received.2 = .nvOk
  record : ∀ byte < gspMsgQueueBytesToElements (elementSize sender.cmdQueueElement) * gspMsgQueueElementSizeMin,
    received.1.cmdQueueElement byte = sent.cmdQueueElement byte
  seqNum : load32 received.1.cmdQueueElement seqNumOffset = sender.txSeqNum
  elemCount : load32 received.1.cmdQueueElement elemCountOffset =
    UInt32.ofNat (gspMsgQueueBytesToElements (elementSize sender.cmdQueueElement))
  rpc : ∀ byte, gspMsgQueueElementHdrSize ≤ byte → byte < elementSize sender.cmdQueueElement →
    received.1.cmdQueueElement byte = sender.cmdQueueElement byte
  checkSum : checkSum32 sent.cmdQueueElement
    (gspMsgQueueBytesToElements (elementSize sender.cmdQueueElement) * gspMsgQueueElementSizeMin) = 0
  fewest : (gspMsgQueueBytesToElements (elementSize sender.cmdQueueElement) - 1) * gspMsgQueueElementSizeMin <
      elementSize sender.cmdQueueElement ∧
    elementSize sender.cmdQueueElement ≤
      gspMsgQueueBytesToElements (elementSize sender.cmdQueueElement) * gspMsgQueueElementSizeMin
  consumed : received.1.queue.rxReadPtr =
    (receiver.queue.rxReadPtr + gspMsgQueueBytesToElements (elementSize sender.cmdQueueElement)) %
      receiver.queue.rx.msgCount
  caughtUp : received.1.queue.rxReadPtr = sent.queue.tx.writePtr
  rxSeqNum : received.1.rxSeqNum = receiver.rxSeqNum + 1

/-- A record sent on a linked msgq pair whose receiver has consumed every
earlier message, and received with the sender's sequence number expected,
arrives whole: a send that returns `NV_OK` is followed by a receive that
returns `NV_OK` with the same record, and any other send publishes nothing and
keeps its sequence number.  The sender's reads of the receiver's word are
arbitrary. -/
theorem sendCommand_receiveStatus_roundTrip {run : MsgqRun (Nat → UInt8)} (reachable : Reachable run)
    (drained : run.consumed.length = run.submitted.length) {sender receiver : MessageQueueInfo}
    (senderQueue : sender.queue = run.producer) (receiverQueue : receiver.queue = run.consumer)
    (sameSeq : receiver.rxSeqNum = sender.txSeqNum) (readIncoming : Nat → Nat) (submitIncoming : Nat) :
    ((gspMsgQueueSendCommand sender run.entries readIncoming submitIncoming).2.2 = .nvOk →
      RoundTrip sender (gspMsgQueueSendCommand sender run.entries readIncoming submitIncoming).1 receiver
        (gspMsgQueueReceiveStatus receiver (gspMsgQueueSendCommand sender run.entries readIncoming submitIncoming).2.1
          (gspMsgQueueSendCommand sender run.entries readIncoming submitIncoming).1.queue.tx.writePtr)) ∧
    ((gspMsgQueueSendCommand sender run.entries readIncoming submitIncoming).2.2 ≠ .nvOk →
      (gspMsgQueueSendCommand sender run.entries readIncoming submitIncoming).1.queue.tx = sender.queue.tx ∧
        (gspMsgQueueSendCommand sender run.entries readIncoming submitIncoming).1.txSeqNum = sender.txSeqNum) := by
  have inv := reachable.inv
  have ready : TxReady sender.queue := senderQueue ▸ inv.txReady
  obtain ⟨samePtr, empty⟩ := inv.drained drained
  refine ⟨fun ok => ?_, gspMsgQueueSendCommand_failed ready⟩
  obtain ⟨valid, framed, staged, _, writePtr, _⟩ := gspMsgQueueSendCommand_ok ready ok
  obtain ⟨positive, small, ceil, fits, _⟩ := elemCount_bounds valid
  obtain ⟨seqNum, count, _⟩ := @stageRecord_header sender.cmdQueueElement sender.txSeqNum valid
  generalize gspMsgQueueSendCommand sender run.entries readIncoming submitIncoming = sent at ok framed staged writePtr ⊢
  have start : receiver.queue.rxReadPtr = sender.queue.tx.writePtr := by
    rw [receiverQueue, senderQueue, samePtr]
  have size : receiver.queue.rx.msgCount = sender.queue.tx.msgCount := by
    rw [receiverQueue, senderQueue, inv.sameCount]
  rw [← start, ← size] at framed writePtr
  have linked : receiver.queue.rxLinked = true := receiverQueue ▸ inv.consumerLinked
  have below : receiver.queue.rxReadPtr < receiver.queue.rx.msgCount := by
    rw [start, size]
    exact ready.writePtrBelow
  have expected : load32 sent.1.cmdQueueElement seqNumOffset = receiver.rxSeqNum := by
    rw [staged, seqNum, sameSeq]
  obtain ⟨staging, received, agree⟩ := gspMsgQueueReceiveStatus_received linked below
    (by rw [receiverQueue]; exact empty) framed expected
  rw [writePtr, received]
  have header (address : Nat) (inside : address + 4 ≤ gspMsgQueueElementSizeMin) :
      load32 staging address = load32 (stageRecord sender.cmdQueueElement sender.txSeqNum) address := by
    rw [← staged]
    exact load32_congr_below agree (by simp only [gspMsgQueueElementSizeMin] at inside ⊢; omega)
  refine ⟨rfl, agree, ?_, ?_, fun byte after before => ?_, staged ▸ framed.checkSum, ⟨ceil, fits⟩, rfl, writePtr.symm, rfl⟩
  · rw [header _ (by decide), seqNum]
  · rw [header _ (by decide), count]
  · show staging byte = sender.cmdQueueElement byte
    rw [agree byte (by omega), staged, stageRecord_rpc after before]

/-- The command queue as `GspMsgQueueInit` creates it and a receiver links
it: the default 256 KiB store, messages of `GSP_MSG_QUEUE_ELEMENT_SIZE_MIN`
(4096) bytes, the header aligned to `2 ^ GSP_MSG_QUEUE_HEADER_ALIGN` bytes and
the entries to `2 ^ GSP_MSG_QUEUE_ELEMENT_ALIGN`, so 63 entries; before any
message. -/
def linkedGspRun : MsgqRun (Nat → UInt8) :=
  { producer := (msgqTxCreate msgqInit 0x1000 0x40000 4096 4 12).1
    consumer := (msgqRxLink msgqInit (some (msgqTxCreate msgqInit 0x1000 0x40000 4096 4 12).1.tx)
      0x40000 4096).1
    entries := fun _ _ => 0
    writePtr := (msgqTxCreate msgqInit 0x1000 0x40000 4096 4 12).1.tx.writePtr
    readPtr := (msgqRxLink msgqInit (some (msgqTxCreate msgqInit 0x1000 0x40000 4096 4 12).1.tx)
      0x40000 4096).1.rxReadPtr
    submitted := [], consumed := [], producerSeen := 0, consumerSeen := 0 }

def shortRecordSender : MessageQueueInfo :=
  { cmdQueueElement := fun byte => if byte = rpcLengthOffset then 32 else 0
    queue := linkedGspRun.producer, txSeqNum := 0, rxSeqNum := 0, txBufferFull := 0 }

def idleReceiver : MessageQueueInfo :=
  { cmdQueueElement := fun _ => 0, queue := linkedGspRun.consumer, txSeqNum := 0, rxSeqNum := 0, txBufferFull := 0 }

theorem shortRecord_roundTrip :
    RoundTrip shortRecordSender (gspMsgQueueSendCommand shortRecordSender linkedGspRun.entries (fun _ => 0) 0).1
      idleReceiver
      (gspMsgQueueReceiveStatus idleReceiver (gspMsgQueueSendCommand shortRecordSender linkedGspRun.entries
        (fun _ => 0) 0).2.1
        (gspMsgQueueSendCommand shortRecordSender linkedGspRun.entries (fun _ => 0) 0).1.queue.tx.writePtr) :=
  (sendCommand_receiveStatus_roundTrip
    (@Reachable.link (Nat → UInt8) 0x1000 0x40000 4096 4 12 _ _ (by decide) (fun _ _ => 0)
      (by decide))
    rfl rfl rfl rfl (fun _ => 0) 0).1 (by decide)

/-- A ring whose every entry holds a record of 32 bytes of rpc with
`elemCount` and `seqNum` zero. -/
def emptyRecordRing : Nat → Nat → UInt8 :=
  fun _ byte => if byte = rpcLengthOffset then 32 else 0

/-- A first element whose `elemCount` reads zero is copied, its checksum taken
over no bytes and its length accepted; the call then consumes zero entries and
still returns `NV_OK`, with the sequence number advanced past a record the
queue keeps. -/
theorem gspMsgQueueReceiveStatus_accepts_empty_record :
    load32 (emptyRecordRing 0) elemCountOffset = 0 ∧
      (gspMsgQueueReceiveStatus idleReceiver emptyRecordRing 1).2 = .nvOk ∧
      (gspMsgQueueReceiveStatus idleReceiver emptyRecordRing 1).1.queue.rxReadPtr = idleReceiver.queue.rxReadPtr ∧
      (gspMsgQueueReceiveStatus idleReceiver emptyRecordRing 1).1.rxSeqNum = idleReceiver.rxSeqNum + 1 := by
  decide

end NvidiaGpu.Gsp
