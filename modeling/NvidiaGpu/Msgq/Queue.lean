import NvidiaGpu.Library.Window

set_option autoImplicit false

/-! The message queue shared by two processors (`msgq.c`): a ring of
`msgCount` entries in the sender's backing store, a tx header the sender
writes (`writePtr`, the next entry it will fill) and an rx header the receiver
writes (`readPtr`, the next entry it will read).  Each side keeps a handle with
a copy of the other side's pointer and a cached count (`txFree`, `rxAvail`) that
it refreshes from a read of the other side's word only when a request exceeds
it.

Entries are addressed by index; the byte layout of an entry and the cache and
notification hooks are not modelled.  A read of the other side's word is the
argument `readIncoming` or `writeIncoming` of the function that makes it.
`msgqTxCreate` and `msgqRxLink` take the source's `unsigned` arguments and do
its 32-bit arithmetic; the header words they store are kept as `Nat`.  On a
linked handle `msgCount` is below `2^28` and none of the ring's sums and
differences wraps. -/

namespace NvidiaGpu.Msgq

def msgqMsgSizeMin : Nat := 16

def msgqMetaMinAlign : Nat := 3

def msgqMetaMaxAlign : Nat := 12

def msgqVersion : Nat := 0

def msgqTxHeaderSize : Nat := 32

def msgqRxHeaderSize : Nat := 4

/-- `NV_ALIGN_UP(v, gran)`: for a power-of-two granularity the mask keeps the
multiples of it. -/
def nvAlignUp (v gran : Nat) : Nat :=
  (v + (gran - 1)) / gran * gran

/-- `msgqTxHeader` without `flags`, which only decides whether the read
pointers are swapped. -/
structure MsgqTxHeader where
  version : Nat
  size : Nat
  msgSize : Nat
  msgCount : Nat
  writePtr : Nat
  rxHdrOff : Nat
  entryOff : Nat
  deriving DecidableEq, Repr

/-- `msgqMetadata`, the handle: the local copy of our tx header and its cached
read pointer and free count, the copy of their tx header and our read pointer
and cached available count. -/
structure MsgqMetadata where
  tx : MsgqTxHeader
  txReadPtr : Nat
  txFree : Nat
  txLinked : Bool
  rx : MsgqTxHeader
  rxReadPtr : Nat
  rxAvail : Nat
  rxLinked : Bool
  deriving DecidableEq, Repr

def msgqInit : MsgqMetadata :=
  { tx := ⟨0, 0, 0, 0, 0, 0, 0⟩, txReadPtr := 0, txFree := 0, txLinked := false
    rx := ⟨0, 0, 0, 0, 0, 0, 0⟩, rxReadPtr := 0, rxAvail := 0, rxLinked := false }

/-- `ptr + n`, brought back into the ring by one subtraction, as every pointer
update of the queue is written. -/
def advance (msgCount ptr n : Nat) : Nat :=
  if ptr + n ≥ msgCount then ptr + n - msgCount else ptr + n

/-! ## Setting up -/

/-- `msgqTxCreate` on the backing store at address `pBackingStore`: the
handle, whose `tx` is also what it writes as the store's tx header, and the
status.  The offsets are stored in the handle before the last size check. -/
def msgqTxCreate (queue : MsgqMetadata) (pBackingStore : UInt64) (size msgSize hdrAlign entryAlign : UInt32) :
    MsgqMetadata × Int :=
  if queue.txLinked then (queue, -1)
  else if msgSize.toNat < msgqMsgSizeMin ∨ msgSize > size then (queue, -1)
  else if hdrAlign.toNat < msgqMetaMinAlign ∨ hdrAlign.toNat > msgqMetaMaxAlign then (queue, -1)
  else if entryAlign.toNat < msgqMetaMinAlign ∨ entryAlign.toNat > msgqMetaMaxAlign then (queue, -1)
  else if pBackingStore = 0 then (queue, -1)
  -- the mask is `hdrAlign - 1`, not `2 ^ hdrAlign - 1`
  else if pBackingStore &&& (hdrAlign - 1).toUInt64 ≠ 0 then (queue, -1)
  else
    let rxHdrOff := nvAlignUp msgqTxHeaderSize (2 ^ hdrAlign.toNat)
    let entryOff := nvAlignUp (rxHdrOff + msgqRxHeaderSize) (2 ^ entryAlign.toNat)
    let queue := { queue with tx := { queue.tx with rxHdrOff := rxHdrOff, entryOff := entryOff } }
    if size < UInt32.ofNat entryOff + msgSize then (queue, -1)
    else
      let msgCount := (size - UInt32.ofNat entryOff) / msgSize
      ({ queue with
          tx := { version := msgqVersion, size := size.toNat, msgSize := msgSize.toNat, msgCount := msgCount.toNat,
                  writePtr := 0, rxHdrOff := rxHdrOff, entryOff := entryOff }
          txLinked := true
          rxAvail := 0
          txFree := (msgCount - 1).toNat }, 0)

/-- `msgqRxLink` to a backing store whose tx header is `theirTx` (`none` for
`NULL`): the handle and the status.  Their header is copied before it is
checked; on success the read pointer starts at zero and is written to their rx
header. -/
def msgqRxLink (queue : MsgqMetadata) (pBackingStore : Option MsgqTxHeader) (size msgSize : UInt32) :
    MsgqMetadata × Int :=
  if queue.rxLinked then (queue, -1)
  else if msgSize.toNat < msgqMsgSizeMin then (queue, -2)
  else if msgSize > size then (queue, -3)
  else match pBackingStore with
    | none => (queue, -5)
    | some theirTx =>
      let queue := { queue with rx := theirTx }
      if size < UInt32.ofNat queue.rx.entryOff + msgSize then (queue, -6)
      else if queue.rx.size ≠ size.toNat then (queue, -7)
      else if queue.rx.msgSize ≠ msgSize.toNat then (queue, -8)
      else if queue.rx.version ≠ msgqVersion then (queue, -9)
      -- the second test reads our own tx header's offset, as the source does
      else if queue.rx.rxHdrOff < msgqTxHeaderSize ∨ queue.rx.entryOff < queue.tx.rxHdrOff + msgqRxHeaderSize ∨
          queue.rx.msgCount ≠ ((size - UInt32.ofNat queue.rx.entryOff) / msgSize).toNat then (queue, -10)
      else ({ queue with rxLinked := true, rxReadPtr := 0 }, 0)

theorem nvAlignUp_le {v gran bound : Nat} (positive : 0 < gran) (below : v ≤ bound) (multiple : gran ∣ bound) :
    nvAlignUp v gran ≤ bound := by
  obtain ⟨k, rfl⟩ := multiple
  have quotient : (v + (gran - 1)) / gran < k + 1 := by
    rw [Nat.div_lt_iff_lt_mul positive, Nat.succ_mul, Nat.mul_comm k gran]
    omega
  calc nvAlignUp v gran = (v + (gran - 1)) / gran * gran := rfl
    _ ≤ k * gran := Nat.mul_le_mul_right gran (Nat.lt_succ_iff.mp quotient)
    _ = gran * k := Nat.mul_comm k gran

theorem entryOff_le {hdrAlign entryAlign : Nat} (hdr : hdrAlign ≤ msgqMetaMaxAlign)
    (entry : entryAlign ≤ msgqMetaMaxAlign) :
    nvAlignUp (nvAlignUp msgqTxHeaderSize (2 ^ hdrAlign) + msgqRxHeaderSize) (2 ^ entryAlign) ≤ 2 ^ 13 := by
  have rxHdrOff : nvAlignUp msgqTxHeaderSize (2 ^ hdrAlign) ≤ 2 ^ 12 :=
    nvAlignUp_le (Nat.two_pow_pos _) (by decide) (Nat.pow_dvd_pow 2 hdr)
  exact nvAlignUp_le (Nat.two_pow_pos _) (by unfold msgqRxHeaderSize; omega)
    (Nat.pow_dvd_pow 2 (by unfold msgqMetaMaxAlign at entry; omega))

theorem msgCount_pos {size msgSize : UInt32} {entryOff : Nat} (noWrap : entryOff + msgSize.toNat < 2 ^ 32)
    (positive : 0 < msgSize.toNat) (fits : ¬size < UInt32.ofNat entryOff + msgSize) :
    0 < ((size - UInt32.ofNat entryOff) / msgSize).toNat ∧
      ((size - UInt32.ofNat entryOff) / msgSize - 1).toNat = ((size - UInt32.ofNat entryOff) / msgSize).toNat - 1 := by
  have entry : (UInt32.ofNat entryOff).toNat = entryOff := UInt32.toNat_ofNat_of_lt' (by unfold UInt32.size; omega)
  have sum : (UInt32.ofNat entryOff + msgSize).toNat = entryOff + msgSize.toNat := by
    rw [UInt32.toNat_add, entry]
    omega
  have within : entryOff + msgSize.toNat ≤ size.toNat := sum ▸ UInt32.le_iff_toNat_le.mp (UInt32.not_lt.mp fits)
  have difference : (size - UInt32.ofNat entryOff).toNat = size.toNat - entryOff := by
    rw [UInt32.toNat_sub_of_le _ _ (UInt32.le_iff_toNat_le.mpr (by omega)), entry]
  have count : 0 < ((size - UInt32.ofNat entryOff) / msgSize).toNat := by
    rw [UInt32.toNat_div, difference]
    exact Nat.div_pos (by omega) positive
  refine ⟨count, ?_⟩
  rw [UInt32.toNat_sub_of_le _ _ (UInt32.le_iff_toNat_le.mpr (by rw [UInt32.toNat_one]; omega)), UInt32.toNat_one]

theorem msgqTxCreate_eq_zero {queue : MsgqMetadata} {pBackingStore : UInt64} {size msgSize hdrAlign entryAlign : UInt32}
    (noWrap : msgSize.toNat + 2 ^ 13 < 2 ^ 32)
    (created : (msgqTxCreate queue pBackingStore size msgSize hdrAlign entryAlign).2 = 0) :
    let producer := (msgqTxCreate queue pBackingStore size msgSize hdrAlign entryAlign).1
    producer.txLinked = true ∧ 0 < producer.tx.msgCount ∧ producer.tx.writePtr = 0 ∧
      producer.txFree = producer.tx.msgCount - 1 ∧ producer.txReadPtr = queue.txReadPtr := by
  unfold msgqTxCreate at created ⊢
  dsimp only at created ⊢
  split_ifs at created ⊢ with linked sizes hdr entry store aligned fits
  all_goals simp only [Int.reduceNeg, reduceCtorEq] at created
  simp only [not_or, Nat.not_lt] at sizes hdr entry
  have below := @entryOff_le hdrAlign.toNat entryAlign.toNat hdr.2 entry.2
  obtain ⟨count, free⟩ := msgCount_pos (by omega) (by unfold msgqMsgSizeMin at sizes; omega) fits
  exact ⟨rfl, count, rfl, free, rfl⟩

theorem msgqRxLink_eq_zero_iff {queue : MsgqMetadata} {theirTx : MsgqTxHeader} {size msgSize : UInt32} :
    (msgqRxLink queue (some theirTx) size msgSize).2 = 0 ↔
      queue.rxLinked = false ∧ msgqMsgSizeMin ≤ msgSize.toNat ∧ msgSize ≤ size ∧
        UInt32.ofNat theirTx.entryOff + msgSize ≤ size ∧ theirTx.size = size.toNat ∧
        theirTx.msgSize = msgSize.toNat ∧ theirTx.version = msgqVersion ∧ msgqTxHeaderSize ≤ theirTx.rxHdrOff ∧
        queue.tx.rxHdrOff + msgqRxHeaderSize ≤ theirTx.entryOff ∧
        theirTx.msgCount = ((size - UInt32.ofNat theirTx.entryOff) / msgSize).toNat := by
  unfold msgqRxLink
  dsimp only
  split_ifs with linked short long entries sameSize sameMsgSize version offsets
  · exact iff_of_false (by simp) fun ok => by simp [ok.1] at linked
  · exact iff_of_false (by simp) fun ok => by omega
  · exact iff_of_false (by simp) fun ok => UInt32.not_le.mpr long ok.2.2.1
  · exact iff_of_false (by simp) fun ok => UInt32.not_le.mpr entries ok.2.2.2.1
  · exact iff_of_false (by simp) fun ok => sameSize ok.2.2.2.2.1
  · exact iff_of_false (by simp) fun ok => sameMsgSize ok.2.2.2.2.2.1
  · exact iff_of_false (by simp) fun ok => version ok.2.2.2.2.2.2.1
  · exact iff_of_false (by simp) fun ok => by omega
  · simp only [Bool.not_eq_true] at linked
    simp only [ne_eq, Decidable.not_not] at sameSize sameMsgSize version
    exact iff_of_true rfl ⟨linked, by omega, UInt32.not_lt.mp long, UInt32.not_lt.mp entries, sameSize,
      sameMsgSize, version, by omega, by omega, by omega⟩

theorem msgqRxLink_fst_of_eq_zero {queue : MsgqMetadata} {theirTx : MsgqTxHeader} {size msgSize : UInt32}
    (linked : (msgqRxLink queue (some theirTx) size msgSize).2 = 0) :
    (msgqRxLink queue (some theirTx) size msgSize).1 =
      { queue with rx := theirTx, rxLinked := true, rxReadPtr := 0 } := by
  obtain ⟨unlinked, sizeMin, fits, entries, sameSize, sameMsgSize, version, rxHdr, entryOff, count⟩ :=
    msgqRxLink_eq_zero_iff.mp linked
  unfold msgqRxLink
  simp only [unlinked, Bool.false_eq_true, if_false, Nat.not_lt.mpr sizeMin, UInt32.not_lt.mpr fits,
    UInt32.not_lt.mpr entries, sameSize, sameMsgSize, version, ne_eq, not_true_eq_false, Nat.not_lt.mpr rxHdr,
    Nat.not_lt.mpr entryOff, count, or_self]

/-- A handle that created its own tx queue of 128 bytes links to a header
whose rx header is at offset 4096: past the entries, which start at 64, and
past the 128-byte store. -/
theorem msgqRxLink_accepts_rxHdr_outside_store :
    let theirTx : MsgqTxHeader :=
      { version := 0, size := 128, msgSize := 16, msgCount := 4, writePtr := 0, rxHdrOff := 4096, entryOff := 64 }
    (msgqRxLink (msgqTxCreate msgqInit 0x1000 128 16 3 3).1 (some theirTx) 128 16).2 = 0 ∧
      theirTx.entryOff < theirTx.rxHdrOff + msgqRxHeaderSize ∧ 128 < theirTx.rxHdrOff + msgqRxHeaderSize := by
  decide

/-! ## Sending -/

def msgqTxGetFreeSpace (queue : MsgqMetadata) (readIncoming : Nat) : MsgqMetadata × Nat :=
  if !queue.txLinked then (queue, 0)
  else
    let queue := { queue with txReadPtr := readIncoming }
    if queue.txReadPtr ≥ queue.tx.msgCount then (queue, 0)
    else
      let txFree := queue.txReadPtr + queue.tx.msgCount - queue.tx.writePtr - 1
      let txFree := if txFree ≥ queue.tx.msgCount then txFree - queue.tx.msgCount else txFree
      ({ queue with txFree := txFree }, txFree)

/-- The test both sides make before they hand out or give back `n` entries:
the cached count first, and only when it does not suffice a fresh one, whose
refresh of the handle is `refreshed`. -/
def refuses (exceeds : Nat → Bool) (cached : Nat) (refreshed : MsgqMetadata × Nat) (queue : MsgqMetadata) :
    MsgqMetadata × Bool :=
  if exceeds cached then (refreshed.1, exceeds refreshed.2) else (queue, false)

/-- `msgqTxGetWriteBuffer`: the index of the `n`-th free entry after
`writePtr`, when there are more than `n` free. -/
def msgqTxGetWriteBuffer (queue : MsgqMetadata) (readIncoming n : Nat) : MsgqMetadata × Option Nat :=
  if !queue.txLinked then (queue, none)
  else
    let (queue, refused) := refuses (fun count => decide (n ≥ count)) queue.txFree
      (msgqTxGetFreeSpace queue readIncoming) queue
    if refused then (queue, none) else (queue, some (advance queue.tx.msgCount queue.tx.writePtr n))

/-- `msgqTxSubmitBuffers`: publish the `n` entries after `writePtr` when there
are at least `n` free.  The new `writePtr` is what the step writes to the tx
header. -/
def msgqTxSubmitBuffers (queue : MsgqMetadata) (readIncoming n : Nat) : MsgqMetadata × Int :=
  if !queue.txLinked then (queue, -1)
  else
    let (queue, refused) := refuses (fun count => decide (n > count)) queue.txFree
      (msgqTxGetFreeSpace queue readIncoming) queue
    if refused then (queue, -1)
    else
      ({ queue with
          tx := { queue.tx with writePtr := advance queue.tx.msgCount queue.tx.writePtr n }
          txFree := queue.txFree - n }, 0)

/-! ## Receiving -/

/-- `msgqRxGetReadAvailable`, reading `writeIncoming` from the sender's tx
header.  Unlike the free count there is no `- 1`: the sentinel entry is the
sender's. -/
def msgqRxGetReadAvailable (queue : MsgqMetadata) (writeIncoming : Nat) : MsgqMetadata × Nat :=
  if !queue.rxLinked then (queue, 0)
  else
    let queue := { queue with rx := { queue.rx with writePtr := writeIncoming } }
    if queue.rx.writePtr ≥ queue.rx.msgCount then (queue, 0)
    else
      let rxAvail := queue.rx.writePtr + queue.rx.msgCount - queue.rxReadPtr
      let rxAvail := if rxAvail ≥ queue.rx.msgCount then rxAvail - queue.rx.msgCount else rxAvail
      ({ queue with rxAvail := rxAvail }, rxAvail)

/-- `msgqRxGetReadBuffer`: the index of the `n`-th entry after the read
pointer, when more than `n` are available. -/
def msgqRxGetReadBuffer (queue : MsgqMetadata) (writeIncoming n : Nat) : MsgqMetadata × Option Nat :=
  if !queue.rxLinked then (queue, none)
  else
    let (queue, refused) := refuses (fun count => decide (n ≥ count)) queue.rxAvail
      (msgqRxGetReadAvailable queue writeIncoming) queue
    if refused then (queue, none) else (queue, some (advance queue.rx.msgCount queue.rxReadPtr n))

/-- `msgqRxMarkConsumed`: give back the `n` entries after the read pointer when
at least `n` are available.  The new read pointer is what the step writes to
the rx header. -/
def msgqRxMarkConsumed (queue : MsgqMetadata) (writeIncoming n : Nat) : MsgqMetadata × Int :=
  if !queue.rxLinked then (queue, -1)
  else
    let (queue, refused) := refuses (fun count => decide (n > count)) queue.rxAvail
      (msgqRxGetReadAvailable queue writeIncoming) queue
    if refused then (queue, -1)
    else
      ({ queue with
          rxReadPtr := advance queue.rx.msgCount queue.rxReadPtr n
          rxAvail := queue.rxAvail - n }, 0)

/-! ## The calls on a linked handle

Each call is stated with the read of the other side's word it makes, for a
word `gap` entries from our own pointer around the ring. -/

section Calls

open Window

theorem advance_eq_mod {msgCount ptr n : Nat} (below : ptr + n < 2 * msgCount) :
    advance msgCount ptr n = (ptr + n) % msgCount :=
  wrap_eq_mod below

theorem msgqTxGetFreeSpace_eq {queue : MsgqMetadata} {observed gap : Nat} (linked : queue.txLinked = true)
    (observedBelow : observed < queue.tx.msgCount) (small : gap < queue.tx.msgCount)
    (writePtr : queue.tx.writePtr = (observed + gap) % queue.tx.msgCount) :
    msgqTxGetFreeSpace queue observed =
      ({ queue with txReadPtr := observed, txFree := queue.tx.msgCount - 1 - gap },
        queue.tx.msgCount - 1 - gap) := by
  have room := room_mod observedBelow small
  rw [← writePtr] at room
  have wrapped : (if observed + queue.tx.msgCount - queue.tx.writePtr - 1 ≥ queue.tx.msgCount then
      observed + queue.tx.msgCount - queue.tx.writePtr - 1 - queue.tx.msgCount
      else observed + queue.tx.msgCount - queue.tx.writePtr - 1) = queue.tx.msgCount - 1 - gap := by
    rw [wrap_eq_mod (by omega), room]
  unfold msgqTxGetFreeSpace
  simp only [linked, Bool.not_true, Bool.false_eq_true, if_false, if_neg (Nat.not_le.mpr observedBelow)]
  rw [wrapped]

theorem msgqRxGetReadAvailable_eq {queue : MsgqMetadata} {observed gap : Nat} (linked : queue.rxLinked = true)
    (readPtrBelow : queue.rxReadPtr < queue.rx.msgCount) (small : gap < queue.rx.msgCount)
    (observedAt : observed = (queue.rxReadPtr + gap) % queue.rx.msgCount) :
    msgqRxGetReadAvailable queue observed =
      ({ queue with rx := { queue.rx with writePtr := observed }, rxAvail := gap }, gap) := by
  have distance := distance_mod readPtrBelow small
  rw [← observedAt] at distance
  have observedBelow : observed < queue.rx.msgCount := observedAt ▸ Nat.mod_lt _ (by omega)
  have wrapped : (if observed + queue.rx.msgCount - queue.rxReadPtr ≥ queue.rx.msgCount then
      observed + queue.rx.msgCount - queue.rxReadPtr - queue.rx.msgCount
      else observed + queue.rx.msgCount - queue.rxReadPtr) = gap := by
    rw [wrap_eq_mod (by omega), distance]
  unfold msgqRxGetReadAvailable
  simp only [linked, Bool.not_true, Bool.false_eq_true, if_false, if_neg (Nat.not_le.mpr observedBelow)]
  rw [wrapped]

theorem msgqTxGetWriteBuffer_eq {queue : MsgqMetadata} {observed gap n : Nat} (linked : queue.txLinked = true)
    (observedBelow : observed < queue.tx.msgCount) (small : gap < queue.tx.msgCount)
    (writePtr : queue.tx.writePtr = (observed + gap) % queue.tx.msgCount) :
    msgqTxGetWriteBuffer queue observed n =
      if n ≥ queue.txFree then
        ({ queue with txReadPtr := observed, txFree := queue.tx.msgCount - 1 - gap },
          if n ≥ queue.tx.msgCount - 1 - gap then none else some (advance queue.tx.msgCount queue.tx.writePtr n))
      else (queue, some (advance queue.tx.msgCount queue.tx.writePtr n)) := by
  unfold msgqTxGetWriteBuffer refuses
  rw [msgqTxGetFreeSpace_eq linked observedBelow small writePtr]
  by_cases refresh : n ≥ queue.txFree
  · by_cases full : n ≥ queue.tx.msgCount - 1 - gap <;> simp [linked, refresh, full]
  · simp [linked, refresh]

theorem msgqTxSubmitBuffers_eq {queue : MsgqMetadata} {observed gap n : Nat} (linked : queue.txLinked = true)
    (observedBelow : observed < queue.tx.msgCount) (small : gap < queue.tx.msgCount)
    (writePtr : queue.tx.writePtr = (observed + gap) % queue.tx.msgCount) :
    msgqTxSubmitBuffers queue observed n =
      if n > queue.txFree then
        if n > queue.tx.msgCount - 1 - gap then
          ({ queue with txReadPtr := observed, txFree := queue.tx.msgCount - 1 - gap }, -1)
        else
          ({ queue with
              txReadPtr := observed
              tx := { queue.tx with writePtr := advance queue.tx.msgCount queue.tx.writePtr n }
              txFree := queue.tx.msgCount - 1 - gap - n }, 0)
      else
        ({ queue with
            tx := { queue.tx with writePtr := advance queue.tx.msgCount queue.tx.writePtr n }
            txFree := queue.txFree - n }, 0) := by
  unfold msgqTxSubmitBuffers refuses
  rw [msgqTxGetFreeSpace_eq linked observedBelow small writePtr]
  by_cases refresh : n > queue.txFree
  · by_cases full : n > queue.tx.msgCount - 1 - gap <;> simp [linked, refresh, full]
  · simp [linked, refresh]

theorem msgqRxGetReadBuffer_eq {queue : MsgqMetadata} {observed gap n : Nat} (linked : queue.rxLinked = true)
    (readPtrBelow : queue.rxReadPtr < queue.rx.msgCount) (small : gap < queue.rx.msgCount)
    (observedAt : observed = (queue.rxReadPtr + gap) % queue.rx.msgCount) :
    msgqRxGetReadBuffer queue observed n =
      if n ≥ queue.rxAvail then
        ({ queue with rx := { queue.rx with writePtr := observed }, rxAvail := gap },
          if n ≥ gap then none else some (advance queue.rx.msgCount queue.rxReadPtr n))
      else (queue, some (advance queue.rx.msgCount queue.rxReadPtr n)) := by
  unfold msgqRxGetReadBuffer refuses
  rw [msgqRxGetReadAvailable_eq linked readPtrBelow small observedAt]
  by_cases refresh : n ≥ queue.rxAvail
  · by_cases empty : n ≥ gap <;> simp [linked, refresh, empty]
  · simp [linked, refresh]

theorem msgqRxMarkConsumed_eq {queue : MsgqMetadata} {observed gap n : Nat} (linked : queue.rxLinked = true)
    (readPtrBelow : queue.rxReadPtr < queue.rx.msgCount) (small : gap < queue.rx.msgCount)
    (observedAt : observed = (queue.rxReadPtr + gap) % queue.rx.msgCount) :
    msgqRxMarkConsumed queue observed n =
      if n > queue.rxAvail then
        if n > gap then ({ queue with rx := { queue.rx with writePtr := observed }, rxAvail := gap }, -1)
        else
          ({ queue with
              rx := { queue.rx with writePtr := observed }
              rxReadPtr := advance queue.rx.msgCount queue.rxReadPtr n
              rxAvail := gap - n }, 0)
      else
        ({ queue with
            rxReadPtr := advance queue.rx.msgCount queue.rxReadPtr n
            rxAvail := queue.rxAvail - n }, 0) := by
  unfold msgqRxMarkConsumed refuses
  rw [msgqRxGetReadAvailable_eq linked readPtrBelow small observedAt]
  by_cases refresh : n > queue.rxAvail
  · by_cases empty : n > gap <;> simp [linked, refresh, empty]
  · simp [linked, refresh]

end Calls

/-! ## Any read, and the cached counts

The sender's copy loop takes the receiver's word as it finds it, coherent or
not; what holds of every read is stated here, and the calls the cached counts
answer without a read. -/

/-- A sender's handle between two calls: linked, with its write pointer and
its cached free count inside the ring. -/
structure TxReady (queue : MsgqMetadata) : Prop where
  linked : queue.txLinked = true
  writePtrBelow : queue.tx.writePtr < queue.tx.msgCount
  freeBelow : queue.txFree < queue.tx.msgCount

theorem msgqTxGetFreeSpace_any {queue : MsgqMetadata} (ready : TxReady queue) (observed : Nat) :
    ∃ txFree, (msgqTxGetFreeSpace queue observed).1 = { queue with txReadPtr := observed, txFree := txFree } ∧
      txFree < queue.tx.msgCount ∧ (msgqTxGetFreeSpace queue observed).2 ≤ txFree := by
  by_cases below : observed < queue.tx.msgCount
  · have writePtr : queue.tx.writePtr =
        (observed + (queue.tx.writePtr + queue.tx.msgCount - observed) % queue.tx.msgCount) % queue.tx.msgCount := by
      rw [Nat.add_mod_mod, Nat.add_sub_cancel' (by omega), Nat.add_mod_right,
        Nat.mod_eq_of_lt ready.writePtrBelow]
    rw [msgqTxGetFreeSpace_eq ready.linked below (Nat.mod_lt _ (by omega)) writePtr]
    exact ⟨_, rfl, by omega, le_rfl⟩
  · unfold msgqTxGetFreeSpace
    simp only [ready.linked, Bool.not_true, Bool.false_eq_true, if_false, if_pos (Nat.not_lt.mp below)]
    exact ⟨queue.txFree, rfl, ready.freeBelow, Nat.zero_le _⟩

theorem msgqTxGetWriteBuffer_any {queue : MsgqMetadata} (ready : TxReady queue) (observed n : Nat) :
    (msgqTxGetWriteBuffer queue observed n).1.tx = queue.tx ∧ TxReady (msgqTxGetWriteBuffer queue observed n).1 ∧
      ∀ slot, (msgqTxGetWriteBuffer queue observed n).2 = some slot →
        slot = (queue.tx.writePtr + n) % queue.tx.msgCount ∧ n < (msgqTxGetWriteBuffer queue observed n).1.txFree := by
  obtain ⟨txFree, refreshed, freeBelow, counted⟩ := msgqTxGetFreeSpace_any ready observed
  have room (fits : n < queue.txFree) : advance queue.tx.msgCount queue.tx.writePtr n =
      (queue.tx.writePtr + n) % queue.tx.msgCount := by
    have := ready.freeBelow
    have := ready.writePtrBelow
    exact advance_eq_mod (by omega)
  unfold msgqTxGetWriteBuffer refuses
  simp only [ready.linked, Bool.not_true, Bool.false_eq_true, if_false]
  by_cases refresh : n ≥ queue.txFree
  · simp only [refresh, decide_true, if_true, refreshed]
    by_cases full : n ≥ (msgqTxGetFreeSpace queue observed).2
    · simp only [full, decide_true, if_true, reduceCtorEq, false_implies, implies_true, and_true]
      exact ⟨trivial, ready.linked, ready.writePtrBelow, freeBelow⟩
    · simp only [full, decide_false, Bool.false_eq_true, if_false, Option.some.injEq]
      refine ⟨trivial, ⟨ready.linked, ready.writePtrBelow, freeBelow⟩, fun slot handed => ⟨?_, by omega⟩⟩
      rw [← handed]
      exact advance_eq_mod (by have := ready.writePtrBelow; omega)
  · simp only [refresh, decide_false, Bool.false_eq_true, if_false, Option.some.injEq]
    exact ⟨trivial, ready, fun slot handed => ⟨handed ▸ room (by omega), by omega⟩⟩

theorem msgqTxSubmitBuffers_of_le {queue : MsgqMetadata} (linked : queue.txLinked = true) (observed : Nat)
    {n : Nat} (fits : n ≤ queue.txFree) :
    msgqTxSubmitBuffers queue observed n =
      ({ queue with
          tx := { queue.tx with writePtr := advance queue.tx.msgCount queue.tx.writePtr n }
          txFree := queue.txFree - n }, 0) := by
  unfold msgqTxSubmitBuffers refuses
  simp [linked, Nat.not_lt.mpr fits]

theorem msgqRxGetReadBuffer_of_lt {queue : MsgqMetadata} (linked : queue.rxLinked = true) (observed : Nat)
    {n : Nat} (fits : n < queue.rxAvail) :
    msgqRxGetReadBuffer queue observed n = (queue, some (advance queue.rx.msgCount queue.rxReadPtr n)) := by
  unfold msgqRxGetReadBuffer refuses
  simp [linked, Nat.not_le.mpr fits]

theorem msgqRxMarkConsumed_of_le {queue : MsgqMetadata} (linked : queue.rxLinked = true) (observed : Nat)
    {n : Nat} (fits : n ≤ queue.rxAvail) :
    msgqRxMarkConsumed queue observed n =
      ({ queue with
          rxReadPtr := advance queue.rx.msgCount queue.rxReadPtr n
          rxAvail := queue.rxAvail - n }, 0) := by
  unfold msgqRxMarkConsumed refuses
  simp [linked, Nat.not_lt.mpr fits]

/-- A receiver's handle between two calls: linked, with its read pointer and
its cached available count inside the ring. -/
structure RxReady (queue : MsgqMetadata) : Prop where
  linked : queue.rxLinked = true
  readPtrBelow : queue.rxReadPtr < queue.rx.msgCount
  availBelow : queue.rxAvail < queue.rx.msgCount

theorem msgqRxGetReadAvailable_any {queue : MsgqMetadata} (ready : RxReady queue) (observed : Nat) :
    ∃ rxAvail, (msgqRxGetReadAvailable queue observed).1 =
        { queue with rx := { queue.rx with writePtr := observed }, rxAvail := rxAvail } ∧
      rxAvail < queue.rx.msgCount ∧ (msgqRxGetReadAvailable queue observed).2 ≤ rxAvail := by
  by_cases below : observed < queue.rx.msgCount
  · have observedAt : observed =
        (queue.rxReadPtr + (observed + queue.rx.msgCount - queue.rxReadPtr) % queue.rx.msgCount) %
          queue.rx.msgCount := by
      rw [Nat.add_mod_mod, Nat.add_sub_cancel' (by have := ready.readPtrBelow; omega), Nat.add_mod_right,
        Nat.mod_eq_of_lt below]
    rw [msgqRxGetReadAvailable_eq ready.linked ready.readPtrBelow (Nat.mod_lt _ (by omega)) observedAt]
    exact ⟨_, rfl, Nat.mod_lt _ (by omega), le_rfl⟩
  · unfold msgqRxGetReadAvailable
    simp only [ready.linked, Bool.not_true, Bool.false_eq_true, if_false, if_pos (Nat.not_lt.mp below)]
    exact ⟨queue.rxAvail, rfl, ready.availBelow, Nat.zero_le _⟩

theorem msgqRxGetReadBuffer_any {queue : MsgqMetadata} (ready : RxReady queue) (observed n : Nat) :
    (msgqRxGetReadBuffer queue observed n).1.rxReadPtr = queue.rxReadPtr ∧
      (msgqRxGetReadBuffer queue observed n).1.rx.msgCount = queue.rx.msgCount ∧
      RxReady (msgqRxGetReadBuffer queue observed n).1 ∧
      ∀ slot, (msgqRxGetReadBuffer queue observed n).2 = some slot →
        slot = (queue.rxReadPtr + n) % queue.rx.msgCount ∧ n < (msgqRxGetReadBuffer queue observed n).1.rxAvail := by
  obtain ⟨rxAvail, refreshed, availBelow, counted⟩ := msgqRxGetReadAvailable_any ready observed
  have inRing (fits : n < queue.rx.msgCount) : advance queue.rx.msgCount queue.rxReadPtr n =
      (queue.rxReadPtr + n) % queue.rx.msgCount :=
    advance_eq_mod (by have := ready.readPtrBelow; omega)
  have refreshedReady : RxReady { queue with rx := { queue.rx with writePtr := observed }, rxAvail := rxAvail } :=
    ⟨ready.linked, ready.readPtrBelow, availBelow⟩
  unfold msgqRxGetReadBuffer refuses
  simp only [ready.linked, Bool.not_true, Bool.false_eq_true, if_false]
  by_cases refresh : n ≥ queue.rxAvail
  · simp only [refresh, decide_true, if_true, refreshed]
    by_cases empty : n ≥ (msgqRxGetReadAvailable queue observed).2
    · simp only [empty, decide_true, if_true, reduceCtorEq, false_implies, implies_true, and_true]
      exact ⟨trivial, trivial, refreshedReady⟩
    · simp only [empty, decide_false, Bool.false_eq_true, if_false, Option.some.injEq]
      exact ⟨trivial, trivial, refreshedReady, fun slot handed => ⟨handed ▸ inRing (by omega), by omega⟩⟩
  · simp only [refresh, decide_false, Bool.false_eq_true, if_false, Option.some.injEq]
    exact ⟨trivial, trivial, ready, fun slot handed => ⟨handed ▸ inRing (by have := ready.availBelow; omega), by omega⟩⟩

theorem advance_lt {msgCount ptr n : Nat} (below : ptr + n < 2 * msgCount) : advance msgCount ptr n < msgCount := by
  unfold advance
  split <;> omega

theorem msgqRxMarkConsumed_any {queue : MsgqMetadata} (ready : RxReady queue) (observed n : Nat) :
    RxReady (msgqRxMarkConsumed queue observed n).1 ∧
      (msgqRxMarkConsumed queue observed n).1.rx.msgCount = queue.rx.msgCount ∧
      ((msgqRxMarkConsumed queue observed n).2 = -1 → (msgqRxMarkConsumed queue observed n).1.rxReadPtr = queue.rxReadPtr) ∧
      ((msgqRxMarkConsumed queue observed n).2 = -1 ↔
        queue.rxAvail < n ∧ (msgqRxGetReadAvailable queue observed).2 < n) := by
  obtain ⟨rxAvail, refreshed, availBelow, counted⟩ := msgqRxGetReadAvailable_any ready observed
  have readPtrBelow := ready.readPtrBelow
  have cachedBelow := ready.availBelow
  by_cases refresh : queue.rxAvail < n
  · by_cases exceeds : (msgqRxGetReadAvailable queue observed).2 < n
    · have result : msgqRxMarkConsumed queue observed n = ((msgqRxGetReadAvailable queue observed).1, -1) := by
        unfold msgqRxMarkConsumed refuses
        simp [ready.linked, refresh, exceeds]
      rw [result, refreshed]
      exact ⟨⟨ready.linked, readPtrBelow, availBelow⟩, rfl, fun _ => rfl, iff_of_true rfl ⟨refresh, exceeds⟩⟩
    · have result : msgqRxMarkConsumed queue observed n =
          ({ queue with
              rx := { queue.rx with writePtr := observed }
              rxAvail := rxAvail - n
              rxReadPtr := advance queue.rx.msgCount queue.rxReadPtr n }, 0) := by
        unfold msgqRxMarkConsumed refuses
        simp [ready.linked, refresh, exceeds, refreshed]
      rw [result]
      exact ⟨⟨ready.linked, advance_lt (by omega), by dsimp only; omega⟩, rfl, nofun, iff_of_false nofun (exceeds ·.2)⟩
  · have result : msgqRxMarkConsumed queue observed n =
        ({ queue with rxReadPtr := advance queue.rx.msgCount queue.rxReadPtr n, rxAvail := queue.rxAvail - n }, 0) := by
      unfold msgqRxMarkConsumed refuses
      simp [ready.linked, refresh]
    rw [result]
    exact ⟨⟨ready.linked, advance_lt (by omega), by dsimp only; omega⟩, rfl, nofun, iff_of_false nofun (refresh ·.1)⟩

/-- A receiver's handle linked to a ring of no entries, which `msgqRxLink`
accepts when `entryOff + msgSize` wraps past `2^32`: nothing is ever there to
read. -/
structure RxEmpty (queue : MsgqMetadata) : Prop where
  linked : queue.rxLinked = true
  noEntries : queue.rx.msgCount = 0
  readPtr : queue.rxReadPtr = 0
  nothingCached : queue.rxAvail = 0

theorem msgqRxGetReadAvailable_empty {queue : MsgqMetadata} (empty : RxEmpty queue) (observed : Nat) :
    msgqRxGetReadAvailable queue observed = ({ queue with rx := { queue.rx with writePtr := observed } }, 0) := by
  unfold msgqRxGetReadAvailable
  simp [empty.linked, empty.noEntries]

theorem msgqRxGetReadBuffer_empty {queue : MsgqMetadata} (empty : RxEmpty queue) (observed n : Nat) :
    msgqRxGetReadBuffer queue observed n = ({ queue with rx := { queue.rx with writePtr := observed } }, none) := by
  unfold msgqRxGetReadBuffer refuses
  simp [empty.linked, empty.nothingCached, msgqRxGetReadAvailable_empty empty]

theorem msgqRxMarkConsumed_empty {queue : MsgqMetadata} (empty : RxEmpty queue) (observed n : Nat) :
    msgqRxMarkConsumed queue observed n =
      if 0 < n then ({ queue with rx := { queue.rx with writePtr := observed } }, -1) else (queue, 0) := by
  unfold msgqRxMarkConsumed refuses
  by_cases some : 0 < n
  · simp [empty.linked, empty.nothingCached, msgqRxGetReadAvailable_empty empty, some]
  · have none : n = 0 := by omega
    subst none
    obtain ⟨linked, noEntries, readPtr, nothingCached⟩ := empty
    cases queue
    simp_all [advance]

theorem msgqTxSubmitBuffers_any {queue : MsgqMetadata} (ready : TxReady queue) (observed n : Nat) :
    TxReady (msgqTxSubmitBuffers queue observed n).1 ∧
      (msgqTxSubmitBuffers queue observed n).1.tx.msgCount = queue.tx.msgCount ∧
      ((msgqTxSubmitBuffers queue observed n).2 = -1 →
        (msgqTxSubmitBuffers queue observed n).1.tx.writePtr = queue.tx.writePtr) ∧
      ((msgqTxSubmitBuffers queue observed n).2 = -1 ↔
        queue.txFree < n ∧ (msgqTxGetFreeSpace queue observed).2 < n) := by
  obtain ⟨txFree, refreshed, freeBelow, counted⟩ := msgqTxGetFreeSpace_any ready observed
  have writePtrBelow := ready.writePtrBelow
  have cachedBelow := ready.freeBelow
  by_cases refresh : queue.txFree < n
  · by_cases exceeds : (msgqTxGetFreeSpace queue observed).2 < n
    · have result : msgqTxSubmitBuffers queue observed n = ((msgqTxGetFreeSpace queue observed).1, -1) := by
        unfold msgqTxSubmitBuffers refuses
        simp [ready.linked, refresh, exceeds]
      rw [result, refreshed]
      exact ⟨⟨ready.linked, writePtrBelow, freeBelow⟩, rfl, fun _ => rfl, iff_of_true rfl ⟨refresh, exceeds⟩⟩
    · have result : msgqTxSubmitBuffers queue observed n =
          ({ queue with
              txReadPtr := observed
              tx := { queue.tx with writePtr := advance queue.tx.msgCount queue.tx.writePtr n }
              txFree := txFree - n }, 0) := by
        unfold msgqTxSubmitBuffers refuses
        simp [ready.linked, refresh, exceeds, refreshed]
      rw [result]
      exact ⟨⟨ready.linked, advance_lt (by omega), by dsimp only; omega⟩, rfl, nofun, iff_of_false nofun (exceeds ·.2)⟩
  · have result : msgqTxSubmitBuffers queue observed n =
        ({ queue with
            tx := { queue.tx with writePtr := advance queue.tx.msgCount queue.tx.writePtr n }
            txFree := queue.txFree - n }, 0) := by
      unfold msgqTxSubmitBuffers refuses
      simp [ready.linked, refresh]
    rw [result]
    exact ⟨⟨ready.linked, advance_lt (by omega), by dsimp only; omega⟩, rfl, nofun, iff_of_false nofun (refresh ·.1)⟩

end NvidiaGpu.Msgq
