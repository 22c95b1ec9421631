import NvidiaGpu.DisplayPort.BitStream

set_option autoImplicit false

/-! Sideband message transactions of DisplayPort MST: the splitter that cuts an
outgoing message into transactions of at most `DPCD_MESSAGEBOX_SIZE` bytes
(`dp_splitter.cpp`), the header decoder (`dp_messageheader.cpp`) and the merger
that reassembles incoming transactions (`dp_merger.cpp`).

A transaction is a header, `payloadSize - 1` bytes of the message and a body
CRC byte.  The header holds the link count total `LCT`, the link count
remaining, the relative address (one nibble per port after the first), the
flags, the payload size, and a 4-bit header CRC over the bits before it.

The splitter's sizes and offsets are the source's `unsigned` values, with its
sums and differences taken modulo `2^32`.  `LCT - 1` is a `Nat` difference:
for `LCT = 0` the source's wraps to a header of 24 bits and no ports, as the
`Nat` one does. -/

namespace NvidiaGpu.DisplayPort

def dpcdMessageboxSize : Nat := 48

def maxHops : Nat := 15

/-- `Address`: the ports of a path, at most `maxHops` of them. -/
structure Address where
  hop : List UInt32
  bounded : hop.length ≤ maxHops

namespace Address

instance : DecidableEq Address := fun first second =>
  decidable_of_iff (first.hop = second.hop) (by
    cases first
    cases second
    simp)

def empty : Address := ⟨[], by decide⟩

def size (address : Address) : Nat := address.hop.length

def get (address : Address) (i : Nat) : UInt32 := address.hop.getD i 0

def append (address : Address) (port : UInt32) : Address :=
  if full : address.hop.length ≥ maxHops then address
  else ⟨address.hop ++ [port], by simp; omega⟩

end Address

/-- `EncodedMessage` -/
structure EncodedMessage where
  messageNumber : UInt32
  address : Address
  buffer : Buffer
  isBroadcast : Bool
  isPathMessage : Bool
  deriving DecidableEq

/-- `MessageHeader` -/
structure MessageHeader where
  address : Address
  messageNumber : UInt32
  payloadBytes : UInt32
  isBroadcast : Bool
  isPathMessage : Bool
  isTransactionStart : Bool
  isTransactionEnd : Bool
  headerSizeBits : Nat
  deriving DecidableEq

/-! ## Splitting -/

/-- `MessageTransactionSplitter`: the message being sent and how many of its
bytes the transactions so far carried. -/
structure MessageTransactionSplitter where
  messageOutstanding : EncodedMessage
  assemblyTransmitted : Nat

def MessageTransactionSplitter.set (messageOutstanding : EncodedMessage) : MessageTransactionSplitter :=
  { messageOutstanding := messageOutstanding, assemblyTransmitted := 0 }

/-- The header of a transaction up to its CRC: `LCT`, `LCR`, the relative
address, then the flags, the payload size and the message number. -/
def writeHeaderFields (writer : BitStreamWriter) (address : Address) (lct lcr : Nat) (isBroadcast isPathMessage : Bool)
    (payloadSize : Nat) (isTransactionStart isTransactionEnd : Bool) (messageNumber : UInt32) : BitStreamWriter :=
  let writer := writer.write lct.toUInt32 4
  let writer := writer.write lcr.toUInt32 4
  -- port 0 is the source's own output port and is left out of the relative address
  let writer := (List.range' 1 (lct - 1)).foldl (fun writer i => writer.write (address.get i) 4) writer
  let writer := writer.align 8
  let writer := writer.write (if isBroadcast then 1 else 0) 1
  let writer := writer.write (if isPathMessage then 1 else 0) 1
  let writer := writer.write payloadSize.toUInt32 6
  let writer := writer.write (if isTransactionStart then 1 else 0) 1
  let writer := writer.write (if isTransactionEnd then 1 else 0) 1
  let writer := writer.write 0 1
  writer.write messageNumber 1

/-- `MessageTransactionSplitter::get`: the next transaction and the splitter
after it, or `none` when the whole message has been sent. -/
def MessageTransactionSplitter.get (splitter : MessageTransactionSplitter) :
    Option (Buffer × MessageTransactionSplitter) :=
  let message := splitter.messageOutstanding
  if message.buffer.length = splitter.assemblyTransmitted then none
  else
    let address := if message.isBroadcast then Address.empty else message.address
    let lct := if message.isBroadcast then 1 else address.size
    let headerSizeBits := 8 + ((4 * (lct - 1) + 4) / 8 * 8) + 16
    let payloadSize := min (dpcdMessageboxSize - (headerSizeBits + 7) / 8)
      ((1 + message.buffer.length + 2 ^ 32 - splitter.assemblyTransmitted) % 2 ^ 32)
    let isTransactionStart := splitter.assemblyTransmitted = 0
    let isTransactionEnd := (splitter.assemblyTransmitted + payloadSize + 2 ^ 32 - 1) % 2 ^ 32 = message.buffer.length
    let lcr := if message.isBroadcast then 6 else if lct > 1 then lct - 1 else 0
    let writer := writeHeaderFields ⟨[], 0⟩ address lct lcr message.isBroadcast message.isPathMessage payloadSize
      isTransactionStart isTransactionEnd message.messageNumber
    let reader := BitStreamReader.init writer.targetBuffer 0 writer.bitsOffset
    let writer := writer.write (dpCalculateHeaderCRC reader) 4
    -- `payloadSize - 1` is `(payloadSize + 2 ^ 32 - 1) % 2 ^ 32`
    let bodyReader := BitStreamReader.init message.buffer (splitter.assemblyTransmitted * 8)
      ((payloadSize + 2 ^ 32 - 1) % 2 ^ 32 * 8)
    let bodyCrc := (dpCalculateBodyCRC bodyReader).toUInt8
    -- `i + assemblyTransmitted` stays below the message's length
    let writer := (List.range ((payloadSize + 2 ^ 32 - 1) % 2 ^ 32)).foldl
      (fun writer i => writer.write (message.buffer.byteAt (i + splitter.assemblyTransmitted)).toUInt32 8) writer
    let writer := writer.write bodyCrc.toUInt32 8
    some (writer.targetBuffer, { splitter with
      assemblyTransmitted := (splitter.assemblyTransmitted + (payloadSize + 2 ^ 32 - 1) % 2 ^ 32) % 2 ^ 32 })

/-- The transactions of a message: `get` until it returns `false`, at most
`fuel` of them. -/
def MessageTransactionSplitter.transactions : MessageTransactionSplitter → Nat → List Buffer
  | _, 0 => []
  | splitter, fuel + 1 =>
      match splitter.get with
      | none => []
      | some (transaction, splitter) => transaction :: splitter.transactions fuel

/-! ## Decoding a header -/

/-- `decodeHeader` on a reader at the start of a transaction, with `address` the
address of the link it came in on: the header and the reader after it, or
`none` when the header CRC does not match. -/
def decodeHeader (reader : BitStreamReader) (address : Address) : Option (MessageHeader × BitStreamReader) :=
  let startOffset := reader.bitsOffset
  let (lct, reader) := reader.readOrDefault 4 0
  let (_, reader) := reader.readOrDefault 4 0
  let (headerAddress, reader) := (List.range (lct.toNat - 1)).foldl
    (fun (state : Address × BitStreamReader) _ =>
      let (port, reader) := state.2.readOrDefault 4 0
      (state.1.append port, reader))
    (address, reader)
  let reader := reader.align 8
  let (isBroadcast, reader) := reader.readOrDefault 1 0
  let (isPathMessage, reader) := reader.readOrDefault 1 0
  let (payloadBytes, reader) := reader.readOrDefault 6 0
  let (isTransactionStart, reader) := reader.readOrDefault 1 0
  let (isTransactionEnd, reader) := reader.readOrDefault 1 0
  let (_, reader) := reader.readOrDefault 1 0
  let (messageNumber, reader) := reader.readOrDefault 1 0
  -- the reader over the header just read, built with `reader->offset()` as its bit count
  let crcReader := BitStreamReader.init reader.sourceBuffer startOffset reader.bitsOffset
  let (crc, reader) := reader.readOrDefault 4 (~~~0)
  if crc != dpCalculateHeaderCRC crcReader then none
  else
    some ({ address := headerAddress, messageNumber := messageNumber, payloadBytes := payloadBytes
            isBroadcast := isBroadcast != 0, isPathMessage := isPathMessage != 0
            isTransactionStart := isTransactionStart != 0, isTransactionEnd := isTransactionEnd != 0
            headerSizeBits := (reader.bitsOffset + 2 ^ 32 - startOffset) % 2 ^ 32 }, reader)

/-- A one-byte message to the source's own port is one transaction, which decodes
at the start of a buffer but fails its header CRC one byte into one: the CRC
reader is built with `reader->offset()` as its bit count, eight bits more than
the header has when the header starts at bit 8. -/
theorem decodeHeader_fails_at_byte_offset :
    (MessageTransactionSplitter.set ⟨0, ⟨[0], by decide⟩, [0x00], false, false⟩).transactions 2 =
        [[0x10, 0x02, 0xCB, 0x00, 0x00]] ∧
      (decodeHeader (BitStreamReader.init [0x10, 0x02, 0xCB, 0x00, 0x00] 0 40) Address.empty).isSome ∧
      decodeHeader (BitStreamReader.init [0x00, 0x10, 0x02, 0xCB, 0x00, 0x00] 8 40) Address.empty = none := by
  decide +kernel

/-! ## Merging -/

/-- `IncompleteMessage`: a message being reassembled and when a transaction of it
last arrived. -/
structure IncompleteMessage where
  message : EncodedMessage
  lastUpdated : UInt64
  deriving DecidableEq

def IncompleteMessage.key (record : IncompleteMessage) : Address × UInt32 :=
  (record.message.address, record.message.messageNumber)

/-- `MessageTransactionMerger`.  A record is known by its key, which no two records
share: a record is added only when none has its key.  `freeOnNextCall` is the key
of the record the next call deletes. -/
structure MessageTransactionMerger where
  incompleteMessages : List IncompleteMessage
  incompleteMessageTimeoutMs : UInt64
  freeOnNextCall : Option (Address × UInt32)
  deriving DecidableEq

/-- The search loop of `getTransactionRecord`: up to the record with `key`, whose
time is updated, deleting the stale records before it; and whether it was
found. -/
def scanRecords (key : Address × UInt32) (timeout currentTime : UInt64) :
    List IncompleteMessage → List IncompleteMessage × Bool
  | [] => ([], false)
  | record :: rest =>
      if record.key = key then ({ record with lastUpdated := currentTime } :: rest, true)
      else
        let (rest, found) := scanRecords key timeout currentTime rest
        (if record.lastUpdated + timeout < currentTime then rest else record :: rest, found)

/-- `getTransactionRecord`, with the allocation of a new record taken to succeed:
the list with the record of `address` and `messageNumber`, new at the front if
there was none. -/
def MessageTransactionMerger.getTransactionRecord (merger : MessageTransactionMerger) (address : Address)
    (messageNumber : UInt32) (currentTime : UInt64) : MessageTransactionMerger :=
  let (records, found) := scanRecords (address, messageNumber) merger.incompleteMessageTimeoutMs currentTime
    merger.incompleteMessages
  let fresh : IncompleteMessage :=
    { message := { messageNumber := messageNumber, address := address, buffer := [], isBroadcast := false
                   isPathMessage := false }
      lastUpdated := currentTime }
  { merger with incompleteMessages := if found then records else fresh :: records }

def MessageTransactionMerger.update (merger : MessageTransactionMerger) (key : Address × UInt32)
    (change : EncodedMessage → EncodedMessage) : MessageTransactionMerger :=
  { merger with incompleteMessages := merger.incompleteMessages.map fun record =>
      if record.key = key then { record with message := change record.message } else record }

def MessageTransactionMerger.messageOf (merger : MessageTransactionMerger) (key : Address × UInt32) :
    EncodedMessage :=
  match merger.incompleteMessages.find? (·.key = key) with
  | some record => record.message
  | none => { messageNumber := key.2, address := key.1, buffer := [], isBroadcast := false, isPathMessage := false }

/-- `MessageTransactionMerger::pushTransaction` at time `currentTime`: the merger
after the transaction, and the completed message when this was its last
transaction. -/
def MessageTransactionMerger.pushTransaction (merger : MessageTransactionMerger) (header : MessageHeader)
    (data : Buffer) (currentTime : UInt64) : MessageTransactionMerger × Option EncodedMessage :=
  let merger := match merger.freeOnNextCall with
    | some freed => { merger with
        incompleteMessages := merger.incompleteMessages.filter (·.key != freed), freeOnNextCall := none }
    | none => merger
  let key := (header.address, header.messageNumber)
  let merger := merger.getTransactionRecord header.address header.messageNumber currentTime
  if !header.isTransactionStart && (merger.messageOf key).buffer.length = 0 then (merger, none)
  else
    let merger := if header.isTransactionStart then
        merger.update key fun message =>
          { message with isPathMessage := header.isPathMessage, isBroadcast := header.isBroadcast }
      else merger
    -- a repeated transaction-start drops what was assembled so far
    let merger := if header.isTransactionStart && (merger.messageOf key).buffer.length != 0 then
        merger.update key fun message => { message with buffer := [] }
      else merger
    let reset := { merger.update key (fun message => { message with buffer := [] }) with freeOnNextCall := some key }
    if header.payloadBytes.toNat > data.length then (reset, none)
    else
      let bsr := BitStreamReader.init data header.headerSizeBits ((header.payloadBytes - 1) * 8).toNat
      let dataCrc := (dpCalculateBodyCRC bsr).toUInt8
      if dataCrc != data.byteAt (header.headerSizeBits / 8 + header.payloadBytes.toNat - 1) ||
          header.payloadBytes == 0 then (reset, none)
      else
        let payloadBytes := header.payloadBytes - 1
        let merger := merger.update key fun message =>
          { message with buffer := message.buffer ++
              (data.drop (header.headerSizeBits / 8)).take payloadBytes.toNat }
        if header.isTransactionEnd then ({ merger with freeOnNextCall := some key }, some (merger.messageOf key))
        else (merger, none)

def MessageTransactionMerger.fresh (incompleteMessageTimeoutMs : UInt64) : MessageTransactionMerger :=
  { incompleteMessages := [], incompleteMessageTimeoutMs := incompleteMessageTimeoutMs, freeOnNextCall := none }

end NvidiaGpu.DisplayPort
