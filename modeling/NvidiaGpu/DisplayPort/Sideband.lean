import NvidiaGpu.DisplayPort.Transaction
import NvidiaGpu.DisplayPort.Crc

set_option autoImplicit false

/-! The receiving side of DisplayPort sideband messages (`dp_merger.cpp`) and the
round trip of a message through the splitter, the message box, `decodeHeader`
and the merger.  A transaction the splitter writes is a run of stream calls:
the header's fields, the header CRC, the payload's bytes and the body CRC.
Read at the start of the message box, as `mailboxInterrupt` reads it, the
header decodes to the fields the splitter wrote, both CRCs check, and the
merger appends the payload to the record of the message's address and number;
the last transaction hands the message out whole, whatever the merger held
before the first. -/

namespace NvidiaGpu.DisplayPort

open BitField

/-! ## The receiving side -/

/-- `IncomingTransactionManager::mailboxInterrupt` with the message box holding
`box`: the header is decoded from the first `txSize` bytes with the link's
address prefix, and the transaction is pushed to the merger unless it is
longer than both the first read and the box.  The window holds the box's bytes:
the source reads the first `txSize` of them and, when the transaction is
longer, the rest of it, and reads nothing past the transaction.  The box is
`getMessageBoxSize()` bytes, `DP_MESSAGEBOX_SIZE` for both boxes; failed AUX
reads are left out. -/
def mailboxInterrupt (addressPrefix : Address) (txSize : Nat) (merger : MessageTransactionMerger) (box : Buffer)
    (currentTime : UInt64) : MessageTransactionMerger × Option EncodedMessage :=
  let localWindow := box.resize (max txSize dpcdMessageboxSize)
  match decodeHeader (BitStreamReader.init localWindow 0 (8 * txSize)) addressPrefix with
  | none => (merger, none)
  | some (msg, _) =>
      let totalSize := msg.headerSizeBits / 8 + msg.payloadBytes.toNat
      if totalSize > txSize ∧ totalSize > dpcdMessageboxSize then (merger, none)
      else merger.pushTransaction msg localWindow currentTime

/-- Transactions arriving one after another in the message box, each at its
time: the merger after them and the messages it completed, in order. -/
def receiveTransactions (addressPrefix : Address) (txSize : Nat) :
    MessageTransactionMerger → List (Buffer × UInt64) → MessageTransactionMerger × List EncodedMessage
  | merger, [] => (merger, [])
  | merger, (box, currentTime) :: arrivals =>
      let (merger, completed) := mailboxInterrupt addressPrefix txSize merger box currentTime
      let (merger, messages) := receiveTransactions addressPrefix txSize merger arrivals
      (merger, completed.toList ++ messages)

/-- The address a message's transactions are decoded with on a link whose
address is `addressPrefix`: the prefix followed by the message's ports after
the first, none for a broadcast, each appended as `Address::append` does. -/
def receivedAddress (addressPrefix : Address) (message : EncodedMessage) : Address :=
  (if message.isBroadcast then [] else message.address.hop.tail).foldl Address.append addressPrefix

/-! ## A transaction as stream calls -/

def headerOps (address : Address) (lct lcr : Nat) (isBroadcast isPathMessage : Bool) (payloadSize : Nat)
    (isTransactionStart isTransactionEnd : Bool) (messageNumber : UInt32) : List StreamOp :=
  [.write lct.toUInt32 4, .write lcr.toUInt32 4] ++ (List.range' 1 (lct - 1)).map (fun i => .write (address.get i) 4) ++
    [.align 8, .write (if isBroadcast then 1 else 0) 1, .write (if isPathMessage then 1 else 0) 1,
      .write payloadSize.toUInt32 6, .write (if isTransactionStart then 1 else 0) 1,
      .write (if isTransactionEnd then 1 else 0) 1, .write 0 1, .write messageNumber 1]

theorem writeHeaderFields_eq_run (writer : BitStreamWriter) (address : Address) (lct lcr : Nat)
    (isBroadcast isPathMessage : Bool) (payloadSize : Nat) (isTransactionStart isTransactionEnd : Bool)
    (messageNumber : UInt32) :
    writeHeaderFields writer address lct lcr isBroadcast isPathMessage payloadSize isTransactionStart isTransactionEnd
        messageNumber =
      writer.run (headerOps address lct lcr isBroadcast isPathMessage payloadSize isTransactionStart isTransactionEnd
        messageNumber) := by
  simp only [writeHeaderFields, headerOps, BitStreamWriter.run, List.foldl_append, List.foldl_map]
  rfl

def headerCrcOf (fields : List StreamOp) : UInt32 :=
  let writer := BitStreamWriter.run ⟨[], 0⟩ fields
  dpCalculateHeaderCRC (BitStreamReader.init writer.targetBuffer 0 writer.bitsOffset)

namespace EncodedMessage

section Layout

variable (message : EncodedMessage) (transmitted : Nat)

def sentAddress : Address := if message.isBroadcast then Address.empty else message.address

def linkCountTotal : Nat := if message.isBroadcast then 1 else message.sentAddress.size

def linkCountRemaining : Nat :=
  if message.isBroadcast then 6 else if message.linkCountTotal > 1 then message.linkCountTotal - 1 else 0

def headerSizeBits : Nat := 8 + (4 * (message.linkCountTotal - 1) + 4) / 8 * 8 + 16

/-- The splitter's `payloadSize` from byte `transmitted` on: the bytes it sends
and the body CRC. -/
def payloadSize : Nat :=
  min (dpcdMessageboxSize - (message.headerSizeBits + 7) / 8) (1 + message.buffer.length - transmitted)

def fieldOps : List StreamOp :=
  headerOps message.sentAddress message.linkCountTotal message.linkCountRemaining message.isBroadcast
    message.isPathMessage (message.payloadSize transmitted) (transmitted = 0)
    (transmitted + message.payloadSize transmitted - 1 = message.buffer.length) message.messageNumber

def bodyCrc : UInt8 :=
  (dpCalculateBodyCRC
    (BitStreamReader.init message.buffer (transmitted * 8) ((message.payloadSize transmitted - 1) * 8))).toUInt8

def payloadOps : List StreamOp :=
  (List.range (message.payloadSize transmitted - 1)).map fun i =>
    .write (message.buffer.byteAt (i + transmitted)).toUInt32 8

/-- The transaction from byte `transmitted`: the header fields, the header CRC,
the payload and the body CRC. -/
def transactionOps : List StreamOp :=
  message.fieldOps transmitted ++ .write (headerCrcOf (message.fieldOps transmitted)) 4 ::
    (message.payloadOps transmitted ++ [.write (message.bodyCrc transmitted).toUInt32 8])

def transaction : Buffer := (BitStreamWriter.run ⟨[], 0⟩ (message.transactionOps transmitted)).targetBuffer

end Layout

end EncodedMessage

open EncodedMessage


/-! ## Where the calls leave the writer -/

theorem foldl_next_writes {α : Type} (value : α → UInt32) (bits : Nat) (items : List α) (p : Nat) :
    (items.map fun item => StreamOp.write (value item) bits).foldl StreamOp.next p = p + bits * items.length := by
  induction items generalizing p with
  | nil => simp
  | cons item items ih =>
      rw [List.map_cons, List.foldl_cons, ih, StreamOp.next, List.length_cons, Nat.mul_succ]
      omega

theorem foldl_next_headerOps (address : Address) (lct lcr : Nat) (isBroadcast isPathMessage : Bool) (payloadSize : Nat)
    (isTransactionStart isTransactionEnd : Bool) (messageNumber : UInt32) :
    (headerOps address lct lcr isBroadcast isPathMessage payloadSize isTransactionStart isTransactionEnd
        messageNumber).foldl StreamOp.next 0 = 8 + (4 * (lct - 1) + 4) / 8 * 8 + 12 := by
  simp only [headerOps, List.foldl_append, foldl_next_writes, List.foldl_cons, List.foldl_nil, StreamOp.next,
    List.length_range']
  split <;> simp_all <;> omega

theorem headerOps_valid {address : Address} {lct lcr payloadSize : Nat}
    {isBroadcast isPathMessage isTransactionStart isTransactionEnd : Bool} {messageNumber : UInt32}
    (ports : ∀ i, (address.get i).toNat < 16) (lctSmall : lct < 16) (lcrSmall : lcr < 16) (payloadSmall : payloadSize < 64)
    (number : messageNumber.toNat < 2) :
    ∀ op ∈ headerOps address lct lcr isBroadcast isPathMessage payloadSize isTransactionStart isTransactionEnd
      messageNumber, op.Valid := by
  have flag : ∀ b : Bool, (if b then (1 : UInt32) else 0).toNat < 2 ^ 1 := fun b => by cases b <;> decide
  intro op mem
  simp only [headerOps, List.mem_append, List.mem_cons, List.mem_map, List.not_mem_nil, or_false] at mem
  rcases mem with ((rfl | rfl) | ⟨i, -, rfl⟩) | rfl | rfl | rfl | rfl | rfl | rfl | rfl | rfl
  · exact ⟨by decide, by rw [toNat_toUInt32_of_lt (by omega)]; omega⟩
  · exact ⟨by decide, by rw [toNat_toUInt32_of_lt (by omega)]; omega⟩
  · exact ⟨by decide, ports i⟩
  · exact ⟨3, rfl⟩
  · exact ⟨by decide, flag isBroadcast⟩
  · exact ⟨by decide, flag isPathMessage⟩
  · exact ⟨by decide, by rw [toNat_toUInt32_of_lt (by omega)]; omega⟩
  · exact ⟨by decide, flag isTransactionStart⟩
  · exact ⟨by decide, flag isTransactionEnd⟩
  · exact ⟨by decide, by decide⟩
  · exact ⟨by decide, number⟩

theorem headerCrcOf_lt (fields : List StreamOp) : (headerCrcOf fields).toNat < 2 ^ 4 :=
  dpCalculateCRC_lt 0x13 (k := 4) (by decide) _

/-! ## Decoding a header the splitter wrote -/

theorem BitStreamReader.Follows.readPorts {writer : BitStreamWriter} {post : List StreamOp} (ports : List UInt32) :
    ∀ (reader : BitStreamReader) (pre : List StreamOp),
      reader.Follows writer (pre ++ (ports.map (fun port => StreamOp.write port 4) ++ post)) pre →
      BitStreamReader.Follows { reader with bitsOffset := reader.bitsOffset + 4 * ports.length } writer
        (pre ++ ports.map (fun port => StreamOp.write port 4) ++ post) (pre ++ ports.map fun port => StreamOp.write port 4) := by
  induction ports with
  | nil =>
      intro reader pre follows
      simpa using follows
  | cons port ports ih =>
      intro reader pre follows
      rw [List.map_cons, List.cons_append] at follows
      have last := ih _ (pre ++ [.write port 4]) (by simpa using (follows.readOrDefault_next 0).2)
      have moved : (reader.bitsOffset + 4) + 4 * ports.length = reader.bitsOffset + 4 * (port :: ports).length := by
        simp only [List.length_cons]
        omega
      simpa [moved] using last

theorem foldl_readPorts {writer : BitStreamWriter} {post : List StreamOp}
    {step : Address × BitStreamReader → Nat → Address × BitStreamReader}
    (stepEq : ∀ address reader i, step (address, reader) i =
      (address.append (reader.readOrDefault 4 0).1, (reader.readOrDefault 4 0).2)) (ports : List UInt32) :
    ∀ (indices : List Nat) (address : Address) (reader : BitStreamReader) (pre : List StreamOp),
      indices.length = ports.length →
      reader.Follows writer (pre ++ (ports.map (fun port => StreamOp.write port 4) ++ post)) pre →
      indices.foldl step (address, reader) =
        (ports.foldl Address.append address, { reader with bitsOffset := reader.bitsOffset + 4 * ports.length }) := by
  induction ports with
  | nil =>
      intro indices address reader pre sized _
      rw [List.length_eq_zero_iff.mp sized]
      simp
  | cons port ports ih =>
      intro indices address reader pre sized follows
      cases indices with
      | nil => cases sized
      | cons i indices =>
          rw [List.map_cons, List.cons_append] at follows
          obtain ⟨read, follows'⟩ := follows.readOrDefault_next 0
          have loop := ih indices (address.append port) _ (pre ++ [.write port 4]) (by simpa using sized)
            (by simpa using follows')
          have moved : (reader.bitsOffset + 4) + 4 * ports.length = reader.bitsOffset + 4 * (port :: ports).length := by
            simp only [List.length_cons]
            omega
          rw [List.foldl_cons, stepEq, read]
          simpa [moved] using loop

theorem decodeHeader_headerOps {reader : BitStreamReader} (addressPrefix address : Address) {lct lcr payloadSize : Nat}
    {isBroadcast isPathMessage isTransactionStart isTransactionEnd : Bool} {messageNumber : UInt32}
    (fields : List StreamOp) (shape : fields = headerOps address lct lcr isBroadcast isPathMessage payloadSize isTransactionStart
      isTransactionEnd messageNumber)
    (small : lct < 16) (start : reader.bitsOffset = 0)
    (follows : reader.Follows ⟨[], 0⟩ (fields ++ [.write (headerCrcOf fields) 4]) []) :
    decodeHeader reader addressPrefix =
      some ({ address := ((List.range' 1 (lct - 1)).map address.get).foldl Address.append addressPrefix
              messageNumber := messageNumber, payloadBytes := payloadSize.toUInt32, isBroadcast := isBroadcast
              isPathMessage := isPathMessage, isTransactionStart := isTransactionStart
              isTransactionEnd := isTransactionEnd
              headerSizeBits := (BitStreamWriter.run ⟨[], 0⟩ (fields ++ [.write (headerCrcOf fields) 4])).bitsOffset },
        { reader with
          bitsOffset := (BitStreamWriter.run ⟨[], 0⟩ (fields ++ [.write (headerCrcOf fields) 4])).bitsOffset }) := by
  have fits := follows.fits
  have same := follows.same
  have crcEnd : (BitStreamWriter.run ⟨[], 0⟩ (fields ++ [.write (headerCrcOf fields) 4])).bitsOffset =
      (BitStreamWriter.run ⟨[], 0⟩ fields).bitsOffset + 4 := by
    rw [BitStreamWriter.run_append, BitStreamWriter.run_singleton]
    exact fits.run.apply_spec.1
  have crcFrame : ∀ j < (BitStreamWriter.run ⟨[], 0⟩ fields).bitsOffset,
      (BitStreamWriter.run ⟨[], 0⟩ (fields ++ [.write (headerCrcOf fields) 4])).targetBuffer.bitAt j =
        (BitStreamWriter.run ⟨[], 0⟩ fields).targetBuffer.bitAt j := fun j before => by
    rw [BitStreamWriter.run_append]
    exact BitStreamWriter.run_frame _ fits.run j (Or.inl before)
  have fieldsBelow : (BitStreamWriter.run ⟨[], 0⟩ fields).bitsOffset + 7 < 2 ^ 32 := by
    rw [BitStreamWriter.bitsOffset_run _ fits.left]
    exact fits.left.noWrap
  have crcEq : dpCalculateHeaderCRC
      (BitStreamReader.init reader.sourceBuffer 0 (BitStreamWriter.run ⟨[], 0⟩ fields).bitsOffset) = headerCrcOf fields := by
    apply dpCalculateCRC_congr _ _ (BitStreamReader.inRange_init _ (by omega)).1
      (BitStreamReader.inRange_init _ (by omega)).1
    rw [BitStreamReader.message_init _ (by omega), BitStreamReader.message_init _ (by omega)]
    apply List.map_congr_left
    intro j member
    rw [List.mem_range'_1] at member
    rw [same j (by omega), crcFrame j (by omega)]
  have fieldsShape : fields = .write lct.toUInt32 4 :: .write lcr.toUInt32 4 ::
      (((List.range' 1 (lct - 1)).map address.get).map (fun port => StreamOp.write port 4) ++
        [.align 8, .write (if isBroadcast then 1 else 0) 1, .write (if isPathMessage then 1 else 0) 1,
          .write payloadSize.toUInt32 6, .write (if isTransactionStart then 1 else 0) 1,
          .write (if isTransactionEnd then 1 else 0) 1, .write 0 1, .write messageNumber 1]) := by
    simp [shape, headerOps]
  have flag : ∀ b : Bool, ((if b then (1 : UInt32) else 0) != 0) = b := fun b => by cases b <;> rfl
  have grouped : fields ++ [.write (headerCrcOf fields) 4] =
      [] ++ .write lct.toUInt32 4 :: .write lcr.toUInt32 4 ::
        (((List.range' 1 (lct - 1)).map address.get).map (fun port => StreamOp.write port 4) ++
          .align 8 :: .write (if isBroadcast then 1 else 0) 1 :: .write (if isPathMessage then 1 else 0) 1 ::
          .write payloadSize.toUInt32 6 :: .write (if isTransactionStart then 1 else 0) 1 ::
          .write (if isTransactionEnd then 1 else 0) 1 :: .write 0 1 :: .write messageNumber 1 ::
          .write (headerCrcOf fields) 4 :: []) := by
    simp [shape, headerOps]
  rw [grouped] at follows
  obtain ⟨readLct, follows⟩ := follows.readOrDefault_next 0
  obtain ⟨readLcr, follows⟩ := follows.readOrDefault_next 0
  have count : lct.toUInt32.toNat = lct := toNat_toUInt32_of_lt (by omega)
  have sized : (List.range (lct.toUInt32.toNat - 1)).length = ((List.range' 1 (lct - 1)).map address.get).length := by
    rw [List.length_range, List.length_map, List.length_range', count]
  unfold decodeHeader
  rw [readLct]
  dsimp only
  rw [readLcr]
  dsimp only
  dsimp only at follows
  have follows3 := BitStreamReader.Follows.readPorts ((List.range' 1 (lct - 1)).map address.get) _ _ follows
  rw [foldl_readPorts ?_ ((List.range' 1 (lct - 1)).map address.get) (List.range (lct.toUInt32.toNat - 1)) addressPrefix
    _ _ sized follows]
  · dsimp only
    dsimp only at follows3
    have aligned := follows3.align_next
    rw [aligned.1]
    have follows := aligned.2
    dsimp only at follows ⊢
    have readBroadcast := follows.readOrDefault_next 0
    rw [readBroadcast.1]
    have follows := readBroadcast.2
    dsimp only at follows ⊢
    have readPath := follows.readOrDefault_next 0
    rw [readPath.1]
    have follows := readPath.2
    dsimp only at follows ⊢
    have readPayload := follows.readOrDefault_next 0
    rw [readPayload.1]
    have follows := readPayload.2
    dsimp only at follows ⊢
    have readStart := follows.readOrDefault_next 0
    rw [readStart.1]
    have follows := readStart.2
    dsimp only at follows ⊢
    have readEnd := follows.readOrDefault_next 0
    rw [readEnd.1]
    have follows := readEnd.2
    dsimp only at follows ⊢
    have readZero := follows.readOrDefault_next 0
    rw [readZero.1]
    have follows := readZero.2
    dsimp only at follows ⊢
    have readNumber := follows.readOrDefault_next 0
    rw [readNumber.1]
    have follows := readNumber.2
    dsimp only at follows ⊢
    have fieldsEnd := follows.offset
    simp only [List.append_assoc, List.cons_append, List.nil_append] at fieldsEnd
    rw [← fieldsShape] at fieldsEnd
    rw [(follows.readOrDefault_next (~~~0)).1]
    dsimp only
    rw [fieldsEnd, start, crcEq, bne_self_eq_false, flag, flag, flag, flag, crcEnd,
      show ((BitStreamWriter.run ⟨[], 0⟩ fields).bitsOffset + 4 + 2 ^ 32 - 0) % 2 ^ 32 =
        (BitStreamWriter.run ⟨[], 0⟩ fields).bitsOffset + 4 by omega]
    rfl
  · intro _ _ _
    rfl

/-! ## The transactions of a message -/

namespace EncodedMessage

section Transaction

variable {message : EncodedMessage} {transmitted : Nat}

theorem linkCountTotal_le (message : EncodedMessage) : message.linkCountTotal ≤ 15 := by
  have bounded := message.sentAddress.bounded
  unfold linkCountTotal Address.size
  split <;> simp only [maxHops] at bounded <;> omega

theorem headerSizeBits_bounds (message : EncodedMessage) :
    message.headerSizeBits % 8 = 0 ∧ message.headerSizeBits ≤ 80 := by
  have small := message.linkCountTotal_le
  unfold headerSizeBits
  omega

theorem payloadSize_bounds (more : transmitted < message.buffer.length) :
    2 ≤ message.payloadSize transmitted ∧
      message.headerSizeBits / 8 + message.payloadSize transmitted ≤ dpcdMessageboxSize ∧
      transmitted + message.payloadSize transmitted - 1 ≤ message.buffer.length := by
  have header := message.headerSizeBits_bounds
  unfold payloadSize dpcdMessageboxSize
  omega

theorem get_sentAddress_lt (ports : ∀ port ∈ message.address.hop, port.toNat < 16) (i : Nat) :
    (message.sentAddress.get i).toNat < 16 := by
  unfold sentAddress Address.get
  split
  · simp [Address.empty]
  · by_cases inside : i < message.address.hop.length
    · rw [List.getD_eq_getElem _ _ inside]
      exact ports _ (List.getElem_mem inside)
    · rw [List.getD_eq_default _ _ (by omega)]
      decide

theorem transactionOps_valid (ports : ∀ port ∈ message.address.hop, port.toNat < 16)
    (number : message.messageNumber.toNat < 2) (more : transmitted < message.buffer.length) :
    ∀ op ∈ message.transactionOps transmitted, op.Valid := by
  have small := message.linkCountTotal_le
  have header := message.headerSizeBits_bounds
  have sizes := payloadSize_bounds more
  have fields : ∀ op ∈ message.fieldOps transmitted, op.Valid :=
    headerOps_valid (get_sentAddress_lt ports) (by omega)
      (by unfold linkCountRemaining; split <;> [omega; split <;> omega]) (by unfold dpcdMessageboxSize at sizes; omega)
      number
  intro op mem
  simp only [transactionOps, payloadOps, List.mem_append, List.mem_cons, List.mem_map, List.not_mem_nil,
    or_false] at mem
  rcases mem with inFields | rfl | ⟨i, -, rfl⟩ | rfl
  · exact fields op inFields
  · exact ⟨by decide, headerCrcOf_lt _⟩
  · exact ⟨by decide, by rw [UInt8.toNat_toUInt32]; exact (message.buffer.byteAt _).toNat_lt⟩
  · exact ⟨by decide, by rw [UInt8.toNat_toUInt32]; exact (message.bodyCrc transmitted).toNat_lt⟩

theorem foldl_next_fieldOps (message : EncodedMessage) (transmitted : Nat) :
    (message.fieldOps transmitted).foldl StreamOp.next 0 + 4 = message.headerSizeBits := by
  rw [fieldOps, foldl_next_headerOps]
  unfold headerSizeBits
  omega

theorem foldl_next_transactionOps (more : transmitted < message.buffer.length) :
    (message.transactionOps transmitted).foldl StreamOp.next 0 = message.headerSizeBits + 8 * message.payloadSize transmitted := by
  have fieldsEnd := foldl_next_fieldOps message transmitted
  have sizes := payloadSize_bounds more
  rw [transactionOps, List.foldl_append, List.foldl_cons, List.foldl_append, payloadOps, foldl_next_writes,
    List.length_range]
  simp only [List.foldl_cons, List.foldl_nil, StreamOp.next]
  omega

theorem transactionOps_fits (ports : ∀ port ∈ message.address.hop, port.toNat < 16)
    (number : message.messageNumber.toNat < 2) (more : transmitted < message.buffer.length) :
    BitStreamWriter.FitsRun ⟨[], 0⟩ (message.transactionOps transmitted) := by
  have header := message.headerSizeBits_bounds
  have sizes := payloadSize_bounds more
  have total := foldl_next_transactionOps more
  unfold dpcdMessageboxSize at sizes
  refine ⟨transactionOps_valid ports number more, ?_, by simp⟩
  change (message.transactionOps transmitted).foldl StreamOp.next 0 + 7 < 2 ^ 32
  omega

theorem transactionOps_eq_header :
    message.transactionOps transmitted =
      (message.fieldOps transmitted ++ [.write (headerCrcOf (message.fieldOps transmitted)) 4]) ++
        (message.payloadOps transmitted ++ [.write (message.bodyCrc transmitted).toUInt32 8]) := by
  simp [transactionOps]

theorem bitsOffset_fieldOps (ports : ∀ port ∈ message.address.hop, port.toNat < 16)
    (number : message.messageNumber.toNat < 2) (more : transmitted < message.buffer.length) :
    (BitStreamWriter.run ⟨[], 0⟩ (message.fieldOps transmitted)).bitsOffset + 4 = message.headerSizeBits := by
  have fits := transactionOps_eq_header ▸ transactionOps_fits ports number more
  rw [BitStreamWriter.bitsOffset_run _ fits.left.left]
  exact foldl_next_fieldOps message transmitted

theorem bitsOffset_transactionOps (ports : ∀ port ∈ message.address.hop, port.toNat < 16)
    (number : message.messageNumber.toNat < 2) (more : transmitted < message.buffer.length) :
    (BitStreamWriter.run ⟨[], 0⟩ (message.transactionOps transmitted)).bitsOffset =
      message.headerSizeBits + 8 * message.payloadSize transmitted := by
  rw [BitStreamWriter.bitsOffset_run _ (transactionOps_fits ports number more)]
  exact foldl_next_transactionOps more

theorem length_transaction (ports : ∀ port ∈ message.address.hop, port.toNat < 16)
    (number : message.messageNumber.toNat < 2) (more : transmitted < message.buffer.length) :
    (message.transaction transmitted).length = message.headerSizeBits / 8 + message.payloadSize transmitted := by
  have header := message.headerSizeBits_bounds
  rw [transaction, BitStreamWriter.length_run _ (transactionOps_fits ports number more) (Nat.le_refl _),
    bitsOffset_transactionOps ports number more]
  change max 0 _ = _
  omega

theorem ports_sentAddress (message : EncodedMessage) :
    (List.range' 1 (message.linkCountTotal - 1)).map message.sentAddress.get =
      if message.isBroadcast then [] else message.address.hop.tail := by
  unfold linkCountTotal sentAddress
  cases message.isBroadcast with
  | true => simp
  | false =>
      apply List.ext_getElem
      · simp [Address.size]
      · intro n inside _
        simp only [Bool.false_eq_true, if_false, List.getElem_map, List.getElem_range', List.getElem_tail, Address.get]
        rw [List.getD_eq_getElem _ _ (by simp [Address.size] at inside; omega)]
        congr 1
        omega

/-- The header `decodeHeader` reads from the transaction from byte `transmitted`
on a link whose address is `addressPrefix`. -/
def receivedHeader (addressPrefix : Address) (message : EncodedMessage) (transmitted : Nat) : MessageHeader :=
  { address := receivedAddress addressPrefix message, messageNumber := message.messageNumber
    payloadBytes := (message.payloadSize transmitted).toUInt32, isBroadcast := message.isBroadcast
    isPathMessage := message.isPathMessage, isTransactionStart := transmitted = 0
    isTransactionEnd := transmitted + message.payloadSize transmitted - 1 = message.buffer.length
    headerSizeBits := message.headerSizeBits }

theorem decodeHeader_transaction (ports : ∀ port ∈ message.address.hop, port.toNat < 16)
    (number : message.messageNumber.toNat < 2) (more : transmitted < message.buffer.length) (addressPrefix : Address)
    {txSize : Nat} (first : 10 ≤ txSize) (window : txSize < 2 ^ 29) :
    ∃ reader, decodeHeader (BitStreamReader.init ((message.transaction transmitted).resize
        (max txSize dpcdMessageboxSize)) 0 (8 * txSize)) addressPrefix =
      some (receivedHeader addressPrefix message transmitted, reader) := by
  have fits := transactionOps_eq_header ▸ transactionOps_fits ports number more
  have fieldsEnd := bitsOffset_fieldOps ports number more
  have header := message.headerSizeBits_bounds
  have sizes := payloadSize_bounds more
  have long := length_transaction ports number more
  have headerEnd : (BitStreamWriter.run ⟨[], 0⟩ (message.fieldOps transmitted ++
      [.write (headerCrcOf (message.fieldOps transmitted)) 4])).bitsOffset = message.headerSizeBits := by
    rw [BitStreamWriter.run_append, BitStreamWriter.run_singleton, fits.left.run.apply_spec.1]
    exact fieldsEnd
  have bits : ((message.transaction transmitted).resize (max txSize dpcdMessageboxSize)).bitAt =
      ((BitStreamWriter.run ⟨[], 0⟩ (message.fieldOps transmitted ++
        [.write (headerCrcOf (message.fieldOps transmitted)) 4])).run
          (message.payloadOps transmitted ++ [.write (message.bodyCrc transmitted).toUInt32 8])).targetBuffer.bitAt := by
    rw [Buffer.bitAt_resize (by unfold dpcdMessageboxSize at sizes ⊢; omega), transaction, ← BitStreamWriter.run_append,
      ← transactionOps_eq_header]
  have follows : (BitStreamReader.init ((message.transaction transmitted).resize (max txSize dpcdMessageboxSize)) 0
      (8 * txSize)).Follows ⟨[], 0⟩
        (message.fieldOps transmitted ++ [.write (headerCrcOf (message.fieldOps transmitted)) 4]) [] :=
    { fits := fits.left
      offset := rfl
      room := by
        rw [headerEnd]
        simp only [BitStreamReader.init]
        omega
      same := fun j before => by
        simp only [BitStreamReader.init]
        rw [bits]
        exact BitStreamWriter.run_frame _ fits.run j (Or.inl before) }
  have decoded := decodeHeader_headerOps addressPrefix message.sentAddress (message.fieldOps transmitted) rfl
    (Nat.lt_of_le_of_lt message.linkCountTotal_le (by decide)) (by simp [BitStreamReader.init]) follows
  rw [ports_sentAddress, headerEnd] at decoded
  exact ⟨_, decoded⟩

theorem transactionOps_at_payload {i : Nat} (inside : i < message.payloadSize transmitted - 1) :
    message.transactionOps transmitted =
      (message.fieldOps transmitted ++ .write (headerCrcOf (message.fieldOps transmitted)) 4 ::
          (message.payloadOps transmitted).take i) ++
        .write (message.buffer.byteAt (i + transmitted)).toUInt32 8 ::
          ((message.payloadOps transmitted).drop (i + 1) ++ [.write (message.bodyCrc transmitted).toUInt32 8]) := by
  have inside' : i < (message.payloadOps transmitted).length := by simpa [payloadOps] using inside
  have element : (message.payloadOps transmitted)[i] = .write (message.buffer.byteAt (i + transmitted)).toUInt32 8 := by
    simp [payloadOps]
  conv_lhs => rw [transactionOps, ← List.take_append_drop i (message.payloadOps transmitted),
    List.drop_eq_getElem_cons inside', element]
  simp

theorem byteAt_transaction (ports : ∀ port ∈ message.address.hop, port.toNat < 16)
    (number : message.messageNumber.toNat < 2) (more : transmitted < message.buffer.length) {i : Nat}
    (inside : i < message.payloadSize transmitted - 1) :
    (message.transaction transmitted).byteAt (message.headerSizeBits / 8 + i) = message.buffer.byteAt (i + transmitted) := by
  have fits := transactionOps_fits ports number more
  have fieldsEnd := foldl_next_fieldOps message transmitted
  have header := message.headerSizeBits_bounds
  have cut := transactionOps_at_payload inside
  have before : (BitStreamWriter.run ⟨[], 0⟩ (message.fieldOps transmitted ++
      .write (headerCrcOf (message.fieldOps transmitted)) 4 :: (message.payloadOps transmitted).take i)).bitsOffset =
        8 * (message.headerSizeBits / 8 + i) := by
    rw [BitStreamWriter.bitsOffset_run _ (cut ▸ fits).left, List.foldl_append, List.foldl_cons,
      payloadOps, ← List.map_take, foldl_next_writes, List.length_take, List.length_range]
    simp only [StreamOp.next]
    omega
  apply UInt8.toNat_inj.mp
  rw [transaction, cut, BitStreamWriter.byteAt_run_write _ (cut ▸ fits) before, UInt8.toNat_toUInt32]

theorem byteAt_transaction_bodyCrc (ports : ∀ port ∈ message.address.hop, port.toNat < 16)
    (number : message.messageNumber.toNat < 2) (more : transmitted < message.buffer.length) :
    (message.transaction transmitted).byteAt (message.headerSizeBits / 8 + (message.payloadSize transmitted - 1)) =
      message.bodyCrc transmitted := by
  have fits := transactionOps_fits ports number more
  have fieldsEnd := foldl_next_fieldOps message transmitted
  have header := message.headerSizeBits_bounds
  have cut : message.transactionOps transmitted =
      (message.fieldOps transmitted ++ .write (headerCrcOf (message.fieldOps transmitted)) 4 ::
        message.payloadOps transmitted) ++ [.write (message.bodyCrc transmitted).toUInt32 8] := by
    simp [transactionOps]
  have before : (BitStreamWriter.run ⟨[], 0⟩ (message.fieldOps transmitted ++
      .write (headerCrcOf (message.fieldOps transmitted)) 4 :: message.payloadOps transmitted)).bitsOffset =
        8 * (message.headerSizeBits / 8 + (message.payloadSize transmitted - 1)) := by
    rw [BitStreamWriter.bitsOffset_run _ (cut ▸ fits).left, List.foldl_append, List.foldl_cons,
      payloadOps, foldl_next_writes, List.length_range]
    simp only [StreamOp.next]
    omega
  apply UInt8.toNat_inj.mp
  rw [transaction, cut, BitStreamWriter.byteAt_run_write _ (cut ▸ fits) before, UInt8.toNat_toUInt32]

end Transaction

end EncodedMessage

theorem MessageTransactionSplitter.get_eq (splitter : MessageTransactionSplitter)
    (more : splitter.assemblyTransmitted < splitter.messageOutstanding.buffer.length)
    (short : splitter.messageOutstanding.buffer.length < 2 ^ 29) :
    splitter.get =
      some (splitter.messageOutstanding.transaction splitter.assemblyTransmitted,
        { splitter with assemblyTransmitted := splitter.assemblyTransmitted +
            (splitter.messageOutstanding.payloadSize splitter.assemblyTransmitted - 1) }) := by
  obtain ⟨message, transmitted⟩ := splitter
  dsimp only at more short ⊢
  have sizes := payloadSize_bounds more
  have left : (1 + message.buffer.length + 2 ^ 32 - transmitted) % 2 ^ 32 = 1 + message.buffer.length - transmitted := by
    omega
  have carried : (message.payloadSize transmitted + 2 ^ 32 - 1) % 2 ^ 32 = message.payloadSize transmitted - 1 := by
    omega
  have ending : (transmitted + message.payloadSize transmitted + 2 ^ 32 - 1) % 2 ^ 32 =
      transmitted + message.payloadSize transmitted - 1 := by
    omega
  have next : (transmitted + (message.payloadSize transmitted - 1)) % 2 ^ 32 =
      transmitted + (message.payloadSize transmitted - 1) := by
    omega
  unfold MessageTransactionSplitter.get
  rw [if_neg (Nat.ne_of_gt more)]
  simp only [left, ← EncodedMessage.sentAddress.eq_1, ← EncodedMessage.linkCountTotal.eq_1,
    ← EncodedMessage.headerSizeBits.eq_1, ← EncodedMessage.payloadSize.eq_1, carried, ending, next, writeHeaderFields_eq_run, transaction, transactionOps,
    payloadOps, BitStreamWriter.run, List.foldl_append, List.foldl_map, List.foldl_cons, List.foldl_nil]
  rfl

/-! ## The merger's records -/

section Records

variable (key : Address × UInt32)

theorem scanRecords_find? (timeout currentTime : UInt64) (records : List IncompleteMessage) :
    (scanRecords key timeout currentTime records).1.find? (·.key = key) =
        (records.find? (·.key = key)).map (fun record => { record with lastUpdated := currentTime }) ∧
      (scanRecords key timeout currentTime records).2 = (records.find? (·.key = key)).isSome := by
  induction records with
  | nil => simp [scanRecords]
  | cons record rest ih =>
      have keyed : ∀ lastUpdated, decide (({ record with lastUpdated := lastUpdated } : IncompleteMessage).key = key) =
          decide (record.key = key) := fun _ => rfl
      by_cases found : record.key = key
      · rw [scanRecords, if_pos found, List.find?_cons_of_pos (by rw [keyed]; simpa using found),
          List.find?_cons_of_pos (by simpa using found)]
        exact ⟨rfl, rfl⟩
      · obtain ⟨records, present, scan⟩ : ∃ records present,
            scanRecords key timeout currentTime rest = (records, present) := ⟨_, _, rfl⟩
        rw [scan] at ih
        rw [scanRecords, if_neg found, scan, List.find?_cons_of_neg (by simpa using found)]
        dsimp only
        split
        · exact ih
        · rw [List.find?_cons_of_neg (by simpa using found)]
          exact ih

namespace MessageTransactionMerger

variable {key}

theorem messageOf_of_find? {merger : MessageTransactionMerger} {record : IncompleteMessage}
    (found : merger.incompleteMessages.find? (·.key = key) = some record) : merger.messageOf key = record.message := by
  simp [messageOf, found]

theorem messageOf_key (merger : MessageTransactionMerger) :
    (merger.messageOf key).address = key.1 ∧ (merger.messageOf key).messageNumber = key.2 := by
  cases found : merger.incompleteMessages.find? (·.key = key) with
  | none => simp [messageOf, found]
  | some record =>
      have same : record.key = key := by simpa using List.find?_some found
      rw [messageOf_of_find? found, ← same]
      exact ⟨rfl, rfl⟩

theorem getTransactionRecord_spec (merger : MessageTransactionMerger) (address : Address) (messageNumber : UInt32)
    (currentTime : UInt64) :
    (merger.getTransactionRecord address messageNumber currentTime).messageOf (address, messageNumber) =
        merger.messageOf (address, messageNumber) ∧
      ((merger.getTransactionRecord address messageNumber currentTime).incompleteMessages.find?
        (·.key = (address, messageNumber))).isSome ∧
      (merger.getTransactionRecord address messageNumber currentTime).freeOnNextCall = merger.freeOnNextCall := by
  obtain ⟨scanned, found⟩ := scanRecords_find? (address, messageNumber) merger.incompleteMessageTimeoutMs currentTime
    merger.incompleteMessages
  obtain ⟨records, wasFound, scan⟩ : ∃ records wasFound, scanRecords (address, messageNumber)
      merger.incompleteMessageTimeoutMs currentTime merger.incompleteMessages = (records, wasFound) := ⟨_, _, rfl⟩
  rw [scan] at scanned found
  unfold getTransactionRecord
  rw [scan]
  dsimp only at found scanned ⊢
  cases present : merger.incompleteMessages.find? (·.key = (address, messageNumber)) with
  | none =>
      rw [present, Option.isSome_none] at found
      rw [found, if_neg Bool.false_ne_true]
      have front : ∀ fresh : IncompleteMessage, fresh.key = (address, messageNumber) →
          (fresh :: records).find? (·.key = (address, messageNumber)) = some fresh :=
        fun fresh keyed => List.find?_cons_of_pos (by simpa using keyed)
      refine ⟨?_, by rw [front _ rfl]; rfl, rfl⟩
      rw [messageOf_of_find? (front _ rfl)]
      simp [messageOf, present]
  | some record =>
      rw [present, Option.isSome_some] at found
      rw [present] at scanned
      rw [found, if_pos rfl]
      exact ⟨by rw [messageOf_of_find? scanned, messageOf_of_find? present], by rw [scanned]; rfl, rfl⟩

theorem update_spec (merger : MessageTransactionMerger) (change : EncodedMessage → EncodedMessage)
    (keeps : ∀ message, (change message).address = message.address ∧
      (change message).messageNumber = message.messageNumber)
    (present : (merger.incompleteMessages.find? (·.key = key)).isSome) :
    (merger.update key change).messageOf key = change (merger.messageOf key) ∧
      ((merger.update key change).incompleteMessages.find? (·.key = key)).isSome ∧
      (merger.update key change).freeOnNextCall = merger.freeOnNextCall := by
  obtain ⟨record, found⟩ := Option.isSome_iff_exists.mp present
  have same : record.key = key := by simpa using List.find?_some found
  have keyed : ((fun record : IncompleteMessage => decide (record.key = key)) ∘ fun record =>
      if record.key = key then { record with message := change record.message } else record) =
        fun record => decide (record.key = key) := by
    funext other
    by_cases match' : other.key = key
    · have changedKey : ({ other with message := change other.message } : IncompleteMessage).key = other.key := by
        simp only [IncompleteMessage.key, (keeps other.message).1, (keeps other.message).2]
      simp only [Function.comp, if_pos match', changedKey]
    · simp only [Function.comp, if_neg match']
  have changed : (merger.update key change).incompleteMessages.find? (·.key = key) =
      some { record with message := change record.message } := by
    simp only [update]
    rw [List.find?_map, keyed, found, Option.map_some, if_pos same]
  refine ⟨?_, by rw [changed]; rfl, rfl⟩
  rw [messageOf_of_find? changed, messageOf_of_find? found]

end MessageTransactionMerger

end Records

/-! ## A transaction through the merger -/

section Window

variable {message : EncodedMessage} {transmitted : Nat} {data : Buffer}

theorem bodyCrc_window (more : transmitted < message.buffer.length) (short : message.buffer.length < 2 ^ 29)
    (payload : ∀ i < message.payloadSize transmitted - 1,
      data.byteAt (message.headerSizeBits / 8 + i) = message.buffer.byteAt (i + transmitted)) :
    (dpCalculateBodyCRC (BitStreamReader.init data message.headerSizeBits
      ((message.payloadSize transmitted - 1) * 8))).toUInt8 = message.bodyCrc transmitted := by
  have header := message.headerSizeBits_bounds
  have sizes := payloadSize_bounds more
  unfold dpcdMessageboxSize at sizes
  unfold bodyCrc
  congr 1
  apply dpCalculateCRC_congr _ _ (BitStreamReader.inRange_init _ (by omega)).1
    (BitStreamReader.inRange_init _ (by omega)).1
  rw [BitStreamReader.message_init _ (by omega), BitStreamReader.message_init _ (by omega)]
  apply List.ext_getElem (by simp)
  intro m inside _
  simp only [List.getElem_map, List.getElem_range', List.length_map, List.length_range'] at inside ⊢
  have byteIndex : (message.headerSizeBits + 1 * m) / 8 = message.headerSizeBits / 8 + m / 8 := by omega
  have byteIndex' : (transmitted * 8 + 1 * m) / 8 = m / 8 + transmitted := by omega
  have bitIndex : (message.headerSizeBits + 1 * m) % 8 = (transmitted * 8 + 1 * m) % 8 := by omega
  rw [Buffer.bitAt, Buffer.bitAt, byteIndex, byteIndex', bitIndex, payload (m / 8) (by omega)]

theorem slice_window (more : transmitted < message.buffer.length)
    (fits : message.headerSizeBits / 8 + message.payloadSize transmitted ≤ data.length)
    (payload : ∀ i < message.payloadSize transmitted - 1,
      data.byteAt (message.headerSizeBits / 8 + i) = message.buffer.byteAt (i + transmitted)) :
    (data.drop (message.headerSizeBits / 8)).take (message.payloadSize transmitted - 1) =
      (message.buffer.drop transmitted).take (message.payloadSize transmitted - 1) := by
  have sizes := payloadSize_bounds more
  apply List.ext_getElem (by simp; omega)
  intro i inside _
  simp only [List.length_take, List.length_drop] at inside
  have sent := payload i (by omega)
  rw [Buffer.byteAt, Buffer.byteAt, List.getD_eq_getElem _ _ (by omega), List.getD_eq_getElem _ _ (by omega)] at sent
  simp only [List.getElem_take, List.getElem_drop]
  rw [sent]
  congr 1
  omega

end Window

/-- What the merger holds of a message once its bytes before `transmitted` have
arrived. -/
def assembled (addressPrefix : Address) (message : EncodedMessage) (transmitted : Nat) : EncodedMessage :=
  { messageNumber := message.messageNumber, address := receivedAddress addressPrefix message
    buffer := message.buffer.take transmitted, isBroadcast := message.isBroadcast
    isPathMessage := message.isPathMessage }

theorem pushTransaction_transaction (merger : MessageTransactionMerger) (addressPrefix : Address)
    (message : EncodedMessage) {transmitted : Nat} (data : Buffer) (currentTime : UInt64)
    (more : transmitted < message.buffer.length) (short : message.buffer.length < 2 ^ 29)
    (ready : transmitted = 0 ∨ merger.freeOnNextCall = none ∧
      merger.messageOf (receivedAddress addressPrefix message, message.messageNumber) =
        assembled addressPrefix message transmitted)
    (fits : message.headerSizeBits / 8 + message.payloadSize transmitted ≤ data.length)
    (payload : ∀ i < message.payloadSize transmitted - 1,
      data.byteAt (message.headerSizeBits / 8 + i) = message.buffer.byteAt (i + transmitted))
    (checksum : data.byteAt (message.headerSizeBits / 8 + (message.payloadSize transmitted - 1)) =
      message.bodyCrc transmitted) :
    ∃ merger', merger.pushTransaction (receivedHeader addressPrefix message transmitted) data currentTime =
        (merger', if transmitted + (message.payloadSize transmitted - 1) = message.buffer.length then
          some (assembled addressPrefix message (transmitted + (message.payloadSize transmitted - 1))) else none) ∧
      merger'.messageOf (receivedAddress addressPrefix message, message.messageNumber) =
        assembled addressPrefix message (transmitted + (message.payloadSize transmitted - 1)) ∧
      merger'.freeOnNextCall =
        if transmitted + (message.payloadSize transmitted - 1) = message.buffer.length then
          some (receivedAddress addressPrefix message, message.messageNumber) else none := by
  have sizes := payloadSize_bounds more
  unfold dpcdMessageboxSize at sizes
  have header := message.headerSizeBits_bounds
  have bytes : (message.payloadSize transmitted).toUInt32.toNat = message.payloadSize transmitted :=
    toNat_toUInt32_of_lt (by omega)
  unfold MessageTransactionMerger.pushTransaction
  extract_lets freed key fetched flagged cleared src reset bsr dataCrc payloadBytes appended
  have keyEq : key = (receivedAddress addressPrefix message, message.messageNumber) := rfl
  have freedFree : freed.freeOnNextCall = none := by
    cases pending : merger.freeOnNextCall <;> simp only [freed, pending]
  have freedHeld : transmitted ≠ 0 → freed.messageOf key = assembled addressPrefix message transmitted := by
    intro started
    obtain ⟨pending, held⟩ := ready.resolve_left started
    simp only [freed, pending]
    exact held
  obtain ⟨fetchedKept, fetchedPresent, fetchedFree⟩ := MessageTransactionMerger.getTransactionRecord_spec freed
    (receivedAddress addressPrefix message) message.messageNumber currentTime
  change fetched.messageOf key = freed.messageOf key at fetchedKept
  change (fetched.incompleteMessages.find? (·.key = key)).isSome at fetchedPresent
  change fetched.freeOnNextCall = freed.freeOnNextCall at fetchedFree
  have clearedSpec : cleared.messageOf key = assembled addressPrefix message transmitted ∧
      (cleared.incompleteMessages.find? (·.key = key)).isSome ∧ cleared.freeOnNextCall = none := by
    by_cases first : transmitted = 0
    · obtain ⟨fetchedAddress, fetchedNumber⟩ := @MessageTransactionMerger.messageOf_key key fetched
      have flaggedEq : flagged = fetched.update key fun m =>
          { m with isPathMessage := message.isPathMessage, isBroadcast := message.isBroadcast } := by
        simp [flagged, receivedHeader, first]
      obtain ⟨flaggedKept, flaggedPresent, flaggedFree⟩ := MessageTransactionMerger.update_spec fetched
        (fun m => { m with isPathMessage := message.isPathMessage, isBroadcast := message.isBroadcast })
        (fun _ => ⟨rfl, rfl⟩) fetchedPresent
      rw [← flaggedEq] at flaggedKept flaggedPresent flaggedFree
      have fresh : ∀ m : EncodedMessage, m.address = key.1 → m.messageNumber = key.2 → m.buffer = [] →
          m.isBroadcast = message.isBroadcast → m.isPathMessage = message.isPathMessage →
          m = assembled addressPrefix message transmitted := by
        intro m address number buffer broadcast path
        cases m
        simp_all [assembled]
      by_cases empty : (flagged.messageOf key).buffer = []
      · have clearedEq : cleared = flagged := by simp [cleared, receivedHeader, first, empty]
        rw [clearedEq, flaggedFree, fetchedFree, flaggedKept]
        refine ⟨fresh _ fetchedAddress fetchedNumber ?_ rfl rfl, flaggedPresent, freedFree⟩
        rw [flaggedKept] at empty
        exact empty
      · have clearedEq : cleared = flagged.update key fun m => { m with buffer := [] } := by
          simp [cleared, receivedHeader, first, empty]
        obtain ⟨clearedKept, clearedPresent, clearedFree⟩ := MessageTransactionMerger.update_spec flagged
          (fun m => { m with buffer := [] }) (fun _ => ⟨rfl, rfl⟩) flaggedPresent
        rw [← clearedEq] at clearedKept clearedPresent clearedFree
        rw [clearedKept, flaggedKept, clearedFree, flaggedFree, fetchedFree]
        exact ⟨fresh _ fetchedAddress fetchedNumber rfl rfl rfl, clearedPresent, freedFree⟩
    · have flaggedEq : flagged = fetched := by simp [flagged, receivedHeader, first]
      have clearedEq : cleared = flagged := by simp [cleared, receivedHeader, first]
      rw [clearedEq, flaggedEq, fetchedKept, fetchedFree]
      exact ⟨freedHeld first, fetchedPresent, freedFree⟩
  obtain ⟨clearedHeld, clearedPresent, clearedFree⟩ := clearedSpec
  have payloadBytesEq : payloadBytes.toNat = message.payloadSize transmitted - 1 := by
    change ((message.payloadSize transmitted).toUInt32 - 1).toNat = _
    rw [UInt32.toNat_sub_of_le _ _ (UInt32.le_iff_toNat_le.mpr (by rw [bytes]; simp; omega)), bytes]
    simp
  have bodyBits : (((receivedHeader addressPrefix message transmitted).payloadBytes - 1) * 8).toNat =
      (message.payloadSize transmitted - 1) * 8 := by
    change (((message.payloadSize transmitted).toUInt32 - 1) * 8).toNat = _
    rw [UInt32.toNat_mul, UInt32.toNat_sub_of_le _ _ (UInt32.le_iff_toNat_le.mpr (by rw [bytes]; simp; omega)), bytes]
    simp
    omega
  have started : (!(receivedHeader addressPrefix message transmitted).isTransactionStart &&
      decide ((fetched.messageOf key).buffer.length = 0)) = false := by
    by_cases first : transmitted = 0
    · simp [receivedHeader, first]
    · have length : (assembled addressPrefix message transmitted).buffer.length = transmitted := by
        simp only [assembled, List.length_take]
        omega
      rw [fetchedKept, freedHeld first, length]
      simp [receivedHeader, first]
  have whole : ¬(receivedHeader addressPrefix message transmitted).payloadBytes.toNat > data.length := by
    change ¬(message.payloadSize transmitted).toUInt32.toNat > data.length
    rw [bytes]
    omega
  have checked : (dataCrc != data.byteAt ((receivedHeader addressPrefix message transmitted).headerSizeBits / 8 +
      (receivedHeader addressPrefix message transmitted).payloadBytes.toNat - 1) ||
        (receivedHeader addressPrefix message transmitted).payloadBytes == 0) = false := by
    have crc : dataCrc = message.bodyCrc transmitted := by
      change (dpCalculateBodyCRC (BitStreamReader.init data message.headerSizeBits
        (((receivedHeader addressPrefix message transmitted).payloadBytes - 1) * 8).toNat)).toUInt8 = _
      rw [bodyBits]
      exact bodyCrc_window more short payload
    have index : (receivedHeader addressPrefix message transmitted).headerSizeBits / 8 +
        (receivedHeader addressPrefix message transmitted).payloadBytes.toNat - 1 =
          message.headerSizeBits / 8 + (message.payloadSize transmitted - 1) := by
      change message.headerSizeBits / 8 + (message.payloadSize transmitted).toUInt32.toNat - 1 = _
      omega
    have nonzero : ((receivedHeader addressPrefix message transmitted).payloadBytes == 0) = false := by
      change ((message.payloadSize transmitted).toUInt32 == 0) = false
      rw [beq_eq_false_iff_ne]
      intro zero
      rw [zero] at bytes
      simp at bytes
      omega
    rw [index, checksum, crc, bne_self_eq_false, nonzero, Bool.false_or]
  obtain ⟨appendedHeld, -, appendedFree⟩ := MessageTransactionMerger.update_spec cleared
    (fun m => { m with buffer := m.buffer ++ (data.drop
      ((receivedHeader addressPrefix message transmitted).headerSizeBits / 8)).take payloadBytes.toNat })
    (fun _ => ⟨rfl, rfl⟩) clearedPresent
  change appended.messageOf key = _ at appendedHeld
  change appended.freeOnNextCall = _ at appendedFree
  have appendedMessage : appended.messageOf key =
      assembled addressPrefix message (transmitted + (message.payloadSize transmitted - 1)) := by
    rw [appendedHeld, clearedHeld, payloadBytesEq]
    change { assembled addressPrefix message transmitted with
      buffer := message.buffer.take transmitted ++ (data.drop (message.headerSizeBits / 8)).take
        (message.payloadSize transmitted - 1) } = _
    rw [slice_window more fits payload, ← List.take_add]
    rfl
  have ending : (receivedHeader addressPrefix message transmitted).isTransactionEnd =
      decide (transmitted + (message.payloadSize transmitted - 1) = message.buffer.length) := by
    simp only [receivedHeader]
    congr 2
    omega
  rw [started, if_neg Bool.false_ne_true, if_neg whole, checked, if_neg Bool.false_ne_true, ending]
  by_cases last : transmitted + (message.payloadSize transmitted - 1) = message.buffer.length
  · rw [decide_eq_true last, if_pos rfl, if_pos last, if_pos last, appendedMessage]
    exact ⟨_, rfl, appendedMessage, rfl⟩
  · rw [decide_eq_false last, if_neg Bool.false_ne_true, if_neg last, if_neg last]
    exact ⟨_, rfl, appendedMessage, appendedFree.trans clearedFree⟩


/-! ## The round trip -/

theorem mailboxInterrupt_transaction (merger : MessageTransactionMerger) (addressPrefix : Address)
    (message : EncodedMessage) {transmitted txSize : Nat} (currentTime : UInt64)
    (ports : ∀ port ∈ message.address.hop, port.toNat < 16) (number : message.messageNumber.toNat < 2)
    (more : transmitted < message.buffer.length) (short : message.buffer.length < 2 ^ 29) (first : 10 ≤ txSize)
    (window : txSize < 2 ^ 29)
    (ready : transmitted = 0 ∨ merger.freeOnNextCall = none ∧
      merger.messageOf (receivedAddress addressPrefix message, message.messageNumber) =
        assembled addressPrefix message transmitted) :
    ∃ merger', mailboxInterrupt addressPrefix txSize merger (message.transaction transmitted) currentTime =
        (merger', if transmitted + (message.payloadSize transmitted - 1) = message.buffer.length then
          some (assembled addressPrefix message (transmitted + (message.payloadSize transmitted - 1))) else none) ∧
      merger'.messageOf (receivedAddress addressPrefix message, message.messageNumber) =
        assembled addressPrefix message (transmitted + (message.payloadSize transmitted - 1)) ∧
      merger'.freeOnNextCall =
        if transmitted + (message.payloadSize transmitted - 1) = message.buffer.length then
          some (receivedAddress addressPrefix message, message.messageNumber) else none := by
  have sizes := payloadSize_bounds more
  unfold dpcdMessageboxSize at sizes
  have long := length_transaction ports number more
  have grows : (message.transaction transmitted).length ≤ max txSize dpcdMessageboxSize := by
    unfold dpcdMessageboxSize
    omega
  obtain ⟨reader, decoded⟩ := decodeHeader_transaction ports number more addressPrefix first window
  have bytes : (message.payloadSize transmitted).toUInt32.toNat = message.payloadSize transmitted :=
    toNat_toUInt32_of_lt (by omega)
  have small : ¬((receivedHeader addressPrefix message transmitted).headerSizeBits / 8 +
      (receivedHeader addressPrefix message transmitted).payloadBytes.toNat > txSize ∧
      (receivedHeader addressPrefix message transmitted).headerSizeBits / 8 +
        (receivedHeader addressPrefix message transmitted).payloadBytes.toNat > dpcdMessageboxSize) := by
    simp only [receivedHeader, bytes]
    unfold dpcdMessageboxSize
    omega
  unfold mailboxInterrupt
  dsimp only
  rw [decoded]
  dsimp only
  rw [if_neg small]
  apply pushTransaction_transaction merger addressPrefix message _ currentTime more short ready
  · rw [Buffer.length_resize grows]
    unfold dpcdMessageboxSize
    omega
  · intro i inside
    rw [Buffer.byteAt_resize grows, byteAt_transaction ports number more inside]
  · rw [Buffer.byteAt_resize grows, byteAt_transaction_bodyCrc ports number more]

theorem receiveTransactions_transactions (addressPrefix : Address) (message : EncodedMessage) {txSize : Nat}
    (ports : ∀ port ∈ message.address.hop, port.toNat < 16) (number : message.messageNumber.toNat < 2)
    (short : message.buffer.length < 2 ^ 29) (first : 10 ≤ txSize) (window : txSize < 2 ^ 29) :
    ∀ (fuel transmitted : Nat) (merger : MessageTransactionMerger) (times : List UInt64),
      transmitted < message.buffer.length → message.buffer.length - transmitted ≤ fuel →
      message.buffer.length - transmitted ≤ times.length →
      (transmitted = 0 ∨ merger.freeOnNextCall = none ∧
        merger.messageOf (receivedAddress addressPrefix message, message.messageNumber) =
          assembled addressPrefix message transmitted) →
      ∃ merger', receiveTransactions addressPrefix txSize merger
          ((MessageTransactionSplitter.transactions ⟨message, transmitted⟩ fuel).zip times) =
        (merger', [assembled addressPrefix message message.buffer.length]) := by
  intro fuel
  induction fuel with
  | zero => intro transmitted _ _ more enough; omega
  | succ fuel ih =>
      intro transmitted merger times more enough timed ready
      have sizes := payloadSize_bounds more
      obtain ⟨currentTime, times, rfl⟩ : ∃ currentTime rest, times = currentTime :: rest :=
        List.exists_cons_of_length_pos (by omega)
      obtain ⟨merger', interrupt, held, free⟩ := mailboxInterrupt_transaction merger addressPrefix message
        currentTime ports number more short first window ready
      have got := MessageTransactionSplitter.get_eq ⟨message, transmitted⟩ more short
      simp only [MessageTransactionSplitter.transactions, got, List.zip_cons_cons, receiveTransactions,
        interrupt]
      by_cases last : transmitted + (message.payloadSize transmitted - 1) = message.buffer.length
      · have done : MessageTransactionSplitter.transactions
            ⟨message, transmitted + (message.payloadSize transmitted - 1)⟩ fuel = [] := by
          cases fuel with
          | zero => rfl
          | succ fuel => simp [MessageTransactionSplitter.transactions, MessageTransactionSplitter.get, last]
        rw [done, if_pos last, last]
        exact ⟨merger', rfl⟩
      · obtain ⟨merger'', rest⟩ := ih (transmitted + (message.payloadSize transmitted - 1)) merger' times
          (by omega) (by omega) (by simp at timed; omega) (Or.inr ⟨by rw [free, if_neg last], held⟩)
        rw [rest, if_neg last]
        exact ⟨merger'', rfl⟩

theorem length_transactions_le (message : EncodedMessage) (ports : ∀ port ∈ message.address.hop, port.toNat < 16)
    (number : message.messageNumber.toNat < 2) (short : message.buffer.length < 2 ^ 29) :
    ∀ (fuel transmitted : Nat), transmitted ≤ message.buffer.length →
      ∀ transaction ∈ MessageTransactionSplitter.transactions ⟨message, transmitted⟩ fuel,
        transaction.length ≤ dpcdMessageboxSize := by
  intro fuel
  induction fuel with
  | zero => intro transmitted _ transaction member; cases member
  | succ fuel ih =>
      intro transmitted within transaction member
      by_cases done : transmitted = message.buffer.length
      · simp [MessageTransactionSplitter.transactions, MessageTransactionSplitter.get, done] at member
      · have more : transmitted < message.buffer.length := by omega
        have sizes := payloadSize_bounds more
        rw [MessageTransactionSplitter.transactions, MessageTransactionSplitter.get_eq ⟨message, transmitted⟩ more
          short] at member
        rcases List.mem_cons.mp member with rfl | later
        · rw [length_transaction ports number more]
          exact sizes.2.1
        · exact ih _ (by dsimp only; omega) transaction later

/-- A message sent over the sideband channel arrives whole: cut into
transactions by the splitter, each transaction put in the message box in turn
and read by `mailboxInterrupt` with the link's address prefix, it comes out of
the merger exactly once, at its last transaction, with the bytes, number and
flags it was sent with and its ports after the first appended to the prefix,
whatever the merger held before and whenever the transactions arrive; and every
transaction fits the message box. -/
theorem sideband_roundTrip (message : EncodedMessage) (addressPrefix : Address) (merger : MessageTransactionMerger)
    (times : List UInt64) {txSize fuel : Nat} (nonempty : message.buffer ≠ []) (short : message.buffer.length < 2 ^ 29)
    (ports : ∀ port ∈ message.address.hop, port < 16) (number : message.messageNumber < 2) (first : 10 ≤ txSize)
    (window : txSize < 2 ^ 29) (enough : message.buffer.length ≤ fuel) (timed : message.buffer.length ≤ times.length) :
    (∀ transaction ∈ (MessageTransactionSplitter.set message).transactions fuel,
        transaction.length ≤ dpcdMessageboxSize) ∧
      ∃ merger', receiveTransactions addressPrefix txSize merger
          (((MessageTransactionSplitter.set message).transactions fuel).zip times) =
        (merger', [{ message with address := receivedAddress addressPrefix message }]) := by
  have ports' : ∀ port ∈ message.address.hop, port.toNat < 16 := fun port member =>
    UInt32.lt_iff_toNat_lt.mp (ports port member)
  have number' : message.messageNumber.toNat < 2 := UInt32.lt_iff_toNat_lt.mp number
  have positive : 0 < message.buffer.length := List.length_pos_iff.mpr nonempty
  have whole : assembled addressPrefix message message.buffer.length =
      { message with address := receivedAddress addressPrefix message } := by
    rw [assembled, List.take_length]
  refine ⟨length_transactions_le message ports' number' short fuel 0 (Nat.zero_le _), ?_⟩
  rw [← whole]
  exact receiveTransactions_transactions addressPrefix message ports' number' short first window fuel 0 merger times
    positive (by omega) (by omega) (Or.inl rfl)

def sampleMessage : EncodedMessage := ⟨1, ⟨[0, 1, 2], by decide⟩, [0x12, 0x34], false, true⟩

theorem sampleMessage_roundTrip :
    sampleMessage.buffer ≠ [] ∧ sampleMessage.buffer.length < 2 ^ 29 ∧ (∀ port ∈ sampleMessage.address.hop, port < 16) ∧
      sampleMessage.messageNumber < 2 ∧
      ((∀ transaction ∈ (MessageTransactionSplitter.set sampleMessage).transactions 2,
          transaction.length ≤ dpcdMessageboxSize) ∧
        ∃ merger', receiveTransactions Address.empty 16 (MessageTransactionMerger.fresh 1000)
            (((MessageTransactionSplitter.set sampleMessage).transactions 2).zip [0, 0]) =
          (merger', [{ sampleMessage with address := receivedAddress Address.empty sampleMessage }])) :=
  ⟨by decide, by decide, by simp [sampleMessage], by decide,
    sideband_roundTrip sampleMessage Address.empty _ [0, 0] (by decide) (by decide) (by simp [sampleMessage]) (by decide)
      (by decide) (by decide) (by decide) (by decide)⟩

end NvidiaGpu.DisplayPort
