import NvidiaGpu.Msgq.Queue
import NvidiaGpu.Library.ByteMemory
import NvidiaGpu.Status

set_option autoImplicit false

/-! The RPC message queue between the CPU and the GSP (`message_queue_cpu.c`):
a record staged in a `GSP_MSG_QUEUE_ELEMENT` is sent as whole queue elements
of `GSP_MSG_QUEUE_ELEMENT_SIZE_MIN` bytes over a msgq ring, with a sequence
number, its element count and a checksum that makes the XOR fold of the sent
bytes zero.

Memory is little-endian and byte-addressed; the staging element and each ring
entry are maps from byte offsets to bytes.  Confidential-computing encryption
is off, so its branches are left out.  A read of the other side's pointer
word is the argument `readIncoming` or `writeIncoming`: the sender reads once
per element it waits for, the receiver once for the call. -/

namespace NvidiaGpu.Gsp

open Msgq ByteMemory

def gspMsgQueueElementSizeMin : Nat := 4096

def gspMsgQueueElementSizeMax : Nat := gspMsgQueueElementSizeMin * 16

/-- `GSP_MSG_QUEUE_ELEMENT_HDR_SIZE`: the offset of `rpc`, after two 16-byte
buffers and three words, aligned to 8. -/
def gspMsgQueueElementHdrSize : Nat := 48

/-- `sizeof(GSP_MSG_QUEUE_ELEMENT)`: the header and the eight words of
`rpc_message_header_v`. -/
def gspMsgQueueElementSize : Nat := 80

def checkSumOffset : Nat := 32

def seqNumOffset : Nat := 36

def elemCountOffset : Nat := 40

def rpcLengthOffset : Nat := 56

/-- `MESSAGE_QUEUE_INFO`, the fields the queue functions use. -/
structure MessageQueueInfo where
  /-- the bytes of `pCmdQueueElement`, the staging element -/
  cmdQueueElement : Nat → UInt8
  /-- the msgq handle `hQueue` -/
  queue : MsgqMetadata
  txSeqNum : UInt32
  rxSeqNum : UInt32
  txBufferFull : UInt32

/-- `_checkSum32`: the XOR of the 64-bit words from `data` on while below
`data + uLen`, its two halves folded together. -/
def checkSum32 (data : Nat → UInt8) (uLen : Nat) : UInt32 :=
  let checkSum := (List.range ((uLen + 7) / 8)).foldl
    (fun checkSum index => checkSum ^^^ load64 data (8 * index)) (0 : UInt64)
  (checkSum >>> 32).toUInt32 ^^^ checkSum.toUInt32

def elementSize (element : Nat → UInt8) : Nat :=
  (gspMsgQueueElementHdrSize + (load32 element rpcLengthOffset).toNat) % 2 ^ 32

def badLength (uElementSize : Nat) : Bool :=
  uElementSize < gspMsgQueueElementSize || uElementSize > gspMsgQueueElementSizeMax

def gspMsgQueueBytesToElements (b : Nat) : Nat :=
  (b + gspMsgQueueElementSizeMin - 1) / gspMsgQueueElementSizeMin

def elementAt (staging : Nat → UInt8) (index : Nat) : Nat → UInt8 :=
  fun byte => staging (index * gspMsgQueueElementSizeMin + byte)

def copyElement (staging : Nat → UInt8) (index : Nat) (element : Nat → UInt8) : Nat → UInt8 :=
  fun byte =>
    if index * gspMsgQueueElementSizeMin ≤ byte ∧ byte < (index + 1) * gspMsgQueueElementSizeMin then
      element (byte - index * gspMsgQueueElementSizeMin)
    else staging byte

/-! ## The checksum -/

theorem elemCount_bounds {uElementSize : Nat} (valid : badLength uElementSize = false) :
    0 < gspMsgQueueBytesToElements uElementSize ∧ gspMsgQueueBytesToElements uElementSize ≤ 16 ∧
      (gspMsgQueueBytesToElements uElementSize - 1) * gspMsgQueueElementSizeMin < uElementSize ∧
      uElementSize ≤ gspMsgQueueBytesToElements uElementSize * gspMsgQueueElementSizeMin ∧
      gspMsgQueueElementSize ≤ uElementSize := by
  simp only [badLength, Bool.or_eq_false_iff, decide_eq_false_iff_not, Nat.not_lt] at valid
  simp only [gspMsgQueueBytesToElements, gspMsgQueueElementSizeMin, gspMsgQueueElementSize,
    gspMsgQueueElementSizeMax] at valid ⊢
  omega

theorem checkSum32_eq (data : Nat → UInt8) (count : Nat) :
    checkSum32 data (8 * count) = xorWords32 data (2 * count) := by
  unfold checkSum32
  simp only []
  rw [show (8 * count + 7) / 8 = count by omega]
  induction count with
  | zero => simp [xorWords32]
  | succ count ih =>
      rw [List.range_succ, List.foldl_append, List.foldl_cons, List.foldl_nil, high_xor, low_xor,
        high_load64, low_load64, show 2 * (count + 1) = 2 * count + 1 + 1 by omega, xorWords32_succ,
        xorWords32_succ, ← ih, show 4 * (2 * count + 1) = 8 * count + 4 by omega,
        show 4 * (2 * count) = 8 * count by omega]
      ac_rfl

theorem checkSum32_congr {data other : Nat → UInt8} {count : Nat}
    (agree : ∀ byte < 8 * count, data byte = other byte) :
    checkSum32 data (8 * count) = checkSum32 other (8 * count) := by
  rw [checkSum32_eq, checkSum32_eq]
  apply xorWords32_congr
  intro index inside
  apply load32_congr
  intro offset small
  exact agree _ (by omega)

theorem xorWords32_store_checkSum {data : Nat → UInt8} {count index : Nat} (inside : index < count)
    (cleared : load32 data (4 * index) = 0) :
    xorWords32 (store32 data (4 * index) (xorWords32 data count)) count = 0 := by
  rw [xorWords32_store32 inside, cleared, UInt32.xor_zero, UInt32.xor_self]

theorem elements_bytes (elemCount : Nat) : elemCount * gspMsgQueueElementSizeMin = 8 * (512 * elemCount) := by
  simp only [gspMsgQueueElementSizeMin]
  omega

theorem checkSum32_elements_congr {data other : Nat → UInt8} {elemCount : Nat}
    (agree : ∀ byte < elemCount * gspMsgQueueElementSizeMin, data byte = other byte) :
    checkSum32 data (elemCount * gspMsgQueueElementSizeMin) = checkSum32 other (elemCount * gspMsgQueueElementSizeMin) := by
  rw [elements_bytes] at agree ⊢
  exact checkSum32_congr agree

/-! ## Sending -/

/-- The copy loop of `GspMsgQueueSendCommand`: the elements from `index` on,
each into the write buffer the queue hands out for it, or a stop at the first
element it does not hand one out for. -/
def writeElements (staging : Nat → UInt8) (readIncoming : Nat → Nat) :
    MsgqMetadata → (Nat → Nat → UInt8) → UInt32 → Nat → Nat →
      MsgqMetadata × (Nat → Nat → UInt8) × UInt32 × Bool
  | queue, entries, txBufferFull, _, 0 => (queue, entries, txBufferFull, true)
  | queue, entries, txBufferFull, index, remaining + 1 =>
      match msgqTxGetWriteBuffer queue (readIncoming index) index with
      | (queue, none) => (queue, entries, txBufferFull + 1, false)
      | (queue, some slot) =>
          writeElements staging readIncoming queue (Function.update entries slot (elementAt staging index)) 0
            (index + 1) remaining

/-- The staged record as it is sent: zero padding to 8 bytes, then the
sequence number, the element count and the checksum. -/
def stageRecord (element : Nat → UInt8) (txSeqNum : UInt32) : Nat → UInt8 :=
  let uElementSize := elementSize element
  let element := if uElementSize % 8 ≠ 0 then zeroBytes element uElementSize (8 - uElementSize % 8) else element
  let elemCount := gspMsgQueueBytesToElements uElementSize
  let element := store32 element seqNumOffset txSeqNum
  let element := store32 element elemCountOffset (UInt32.ofNat elemCount)
  let element := store32 element checkSumOffset 0
  store32 element checkSumOffset (checkSum32 element (elemCount * gspMsgQueueElementSizeMin))

theorem stageRecord_rpc {element : Nat → UInt8} {txSeqNum : UInt32} {byte : Nat}
    (after : gspMsgQueueElementHdrSize ≤ byte) (before : byte < elementSize element) :
    stageRecord element txSeqNum byte = element byte := by
  simp only [stageRecord, store32, checkSumOffset, elemCountOffset, seqNumOffset,
    gspMsgQueueElementHdrSize] at after ⊢
  rw [if_neg (by omega), if_neg (by omega), if_neg (by omega), if_neg (by omega)]
  split
  · unfold zeroBytes
    rw [if_neg (by omega)]
  · rfl

theorem elementSize_stageRecord {element : Nat → UInt8} {txSeqNum : UInt32}
    (valid : badLength (elementSize element) = false) :
    elementSize (stageRecord element txSeqNum) = elementSize element := by
  obtain ⟨_, _, _, _, large⟩ := elemCount_bounds valid
  have length : load32 (stageRecord element txSeqNum) rpcLengthOffset = load32 element rpcLengthOffset := by
    apply load32_congr
    intro offset small
    apply stageRecord_rpc
    · simp only [rpcLengthOffset, gspMsgQueueElementHdrSize]
      omega
    · simp only [rpcLengthOffset, gspMsgQueueElementSize] at large ⊢
      omega
  unfold elementSize
  rw [length]

theorem stageRecord_header {element : Nat → UInt8} {txSeqNum : UInt32}
    (valid : badLength (elementSize element) = false) :
    load32 (stageRecord element txSeqNum) seqNumOffset = txSeqNum ∧
      load32 (stageRecord element txSeqNum) elemCountOffset =
        UInt32.ofNat (gspMsgQueueBytesToElements (elementSize element)) ∧
      checkSum32 (stageRecord element txSeqNum)
        (gspMsgQueueBytesToElements (elementSize element) * gspMsgQueueElementSizeMin) = 0 := by
  obtain ⟨positive, _⟩ := elemCount_bounds valid
  unfold stageRecord
  simp only []
  generalize gspMsgQueueBytesToElements (elementSize element) = elemCount at positive ⊢
  generalize (if elementSize element % 8 ≠ 0 then _ else element) = padded
  refine ⟨?_, ?_, ?_⟩
  · rw [load32_store32_of_apart _ (by simp [checkSumOffset, seqNumOffset]),
      load32_store32_of_apart _ (by simp [checkSumOffset, seqNumOffset]),
      load32_store32_of_apart _ (by simp [elemCountOffset, seqNumOffset]), load32_store32_self]
  · rw [load32_store32_of_apart _ (by simp [checkSumOffset, elemCountOffset]),
      load32_store32_of_apart _ (by simp [checkSumOffset, elemCountOffset]), load32_store32_self]
  · rw [elements_bytes, checkSum32_eq, checkSum32_eq, show checkSumOffset = 4 * 8 from rfl]
    exact xorWords32_store_checkSum (by omega) (load32_store32_self _ _)

/-- `GspMsgQueueSendCommand` on the ring `entries`: the queue info, the ring
and the status. -/
def gspMsgQueueSendCommand (mqi : MessageQueueInfo) (entries : Nat → Nat → UInt8) (readIncoming : Nat → Nat)
    (submitIncoming : Nat) : MessageQueueInfo × (Nat → Nat → UInt8) × NvStatus :=
  let uElementSize := elementSize mqi.cmdQueueElement
  if badLength uElementSize then (mqi, entries, .nvErrInvalidParamStruct)
  else
    let elemCount := gspMsgQueueBytesToElements uElementSize
    let staging := stageRecord mqi.cmdQueueElement mqi.txSeqNum
    match writeElements staging readIncoming mqi.queue entries mqi.txBufferFull 0 elemCount with
    | (queue, entries, txBufferFull, false) =>
        ({ mqi with cmdQueueElement := staging, queue := queue, txBufferFull := txBufferFull }, entries,
          .nvErrBusyRetry)
    | (queue, entries, txBufferFull, true) =>
        let (queue, nRet) := msgqTxSubmitBuffers queue submitIncoming elemCount
        let mqi := { mqi with cmdQueueElement := staging, queue := queue, txBufferFull := txBufferFull }
        if nRet ≠ 0 then (mqi, entries, .nvErrInvalidState)
        else ({ mqi with txSeqNum := mqi.txSeqNum + 1 }, entries, .nvOk)

/-! ## Receiving -/

/-- The copy loop of `GspMsgQueueReceiveStatus` after the first element: the
elements from `index` on into the staging element, or a stop at the first one
the queue does not hand out. -/
def readElements (entries : Nat → Nat → UInt8) (writeIncoming : Nat) :
    MsgqMetadata → (Nat → UInt8) → Nat → Nat → MsgqMetadata × (Nat → UInt8) × Bool
  | queue, staging, _, 0 => (queue, staging, true)
  | queue, staging, index, remaining + 1 =>
      match msgqRxGetReadBuffer queue writeIncoming index with
      | (queue, none) => (queue, staging, false)
      | (queue, some slot) =>
          readElements entries writeIncoming queue (copyElement staging index (entries slot)) (index + 1) remaining

/-- How a pass of the receive loop ends. -/
inductive ReceivePass
  /-- no first element: the call returns `NV_WARN_NOTHING_TO_DO` -/
  | nothingToDo
  /-- `continue` with this status -/
  | retry (status : NvStatus)
  /-- an older record was consumed: `continue` with one more pass allowed -/
  | recovered (seqMismatchDiff : UInt32)
  /-- the whole record is in the staging element -/
  | received
  deriving DecidableEq, Repr

/-- One pass of the retry loop: the queue info, the element count read from
the first element, and how the pass ends. -/
def receivePass (mqi : MessageQueueInfo) (entries : Nat → Nat → UInt8) (writeIncoming : Nat)
    (seqMismatchDiff : UInt32) : MessageQueueInfo × Nat × ReceivePass :=
  match msgqRxGetReadBuffer mqi.queue writeIncoming 0 with
  | (queue, none) => ({ mqi with queue := queue }, 1, .nothingToDo)
  | (queue, some slot) =>
      let staging := copyElement mqi.cmdQueueElement 0 (entries slot)
      let nElements := (load32 staging elemCountOffset).toNat
      match readElements entries writeIncoming queue staging 1 (nElements - 1) with
      | (queue, staging, false) => ({ mqi with queue := queue, cmdQueueElement := staging }, nElements,
          .retry .nvErrNotReady)
      | (queue, staging, true) =>
          let mqi := { mqi with queue := queue, cmdQueueElement := staging }
          let seqNum := load32 staging seqNumOffset
          if checkSum32 staging (nElements * gspMsgQueueElementSizeMin % 2 ^ 32) ≠ 0 then
            (mqi, nElements, .retry .nvErrInvalidData)
          else if seqNum ≠ mqi.rxSeqNum then
            -- an old record is skipped while the distance to the expected one shrinks
            if seqNum < mqi.rxSeqNum ∧ mqi.rxSeqNum - seqNum < seqMismatchDiff then
              ({ mqi with queue := (msgqRxMarkConsumed mqi.queue writeIncoming nElements).1 }, nElements,
                .recovered (mqi.rxSeqNum - seqNum))
            else (mqi, nElements, .retry .nvErrInvalidData)
          else (mqi, nElements, .received)

/-- The retry loop: the queue info and, unless a pass found nothing to read,
the passes made before the last, the element count and the status.  It makes
at most three passes and one more per recovery, and each recovery lowers
`seqMismatchDiff`, so `fuel` of `2 ^ 32 + 3` passes is never used up. -/
def receiveLoop (entries : Nat → Nat → UInt8) (writeIncoming : Nat) :
    Nat → MessageQueueInfo → Nat → Nat → UInt32 → NvStatus → Nat → MessageQueueInfo × Option (Nat × Nat × NvStatus)
  | 0, mqi, nRetries, _, _, nvStatus, nElements => (mqi, some (nRetries, nElements, nvStatus))
  | fuel + 1, mqi, nRetries, nMaxRetries, seqMismatchDiff, nvStatus, nElements =>
      if nRetries < nMaxRetries then
        match receivePass mqi entries writeIncoming seqMismatchDiff with
        | (mqi, _, .nothingToDo) => (mqi, none)
        | (mqi, nElements, .retry status) =>
            receiveLoop entries writeIncoming fuel mqi (nRetries + 1) nMaxRetries seqMismatchDiff status nElements
        | (mqi, nElements, .recovered diff) =>
            receiveLoop entries writeIncoming fuel mqi (nRetries + 1) (nMaxRetries + 1) diff .nvErrInvalidData
              nElements
        | (mqi, nElements, .received) => (mqi, some (nRetries, nElements, .nvOk))
      else (mqi, some (nRetries, nElements, nvStatus))

/-- `GspMsgQueueReceiveStatus` from the ring `entries`: the queue info and the
status. -/
def gspMsgQueueReceiveStatus (mqi : MessageQueueInfo) (entries : Nat → Nat → UInt8) (writeIncoming : Nat) :
    MessageQueueInfo × NvStatus :=
  match receiveLoop entries writeIncoming (2 ^ 32 + 3) mqi 0 3 0xFFFFFFFF .nvOk 1 with
  | (mqi, none) => (mqi, .nvWarnNothingToDo)
  | (mqi, some (nRetries, nElements, nvStatus)) =>
      if nRetries > 0 ∧ nvStatus ≠ .nvOk then (mqi, nvStatus)
      else
        let nvStatus := if badLength (elementSize mqi.cmdQueueElement) then .nvErrInvalidParamStruct else nvStatus
        if nvStatus = .nvOk then
          let mqi := { mqi with rxSeqNum := mqi.rxSeqNum + 1 }
          let (queue, nRet) := msgqRxMarkConsumed mqi.queue writeIncoming nElements
          ({ mqi with queue := queue }, if nRet < 0 then .nvErrGeneric else .nvOk)
        else (mqi, nvStatus)

end NvidiaGpu.Gsp
