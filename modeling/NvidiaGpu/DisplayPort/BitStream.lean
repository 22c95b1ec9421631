import Mathlib.Data.UInt

set_option autoImplicit false

/-! The bit streams of the DisplayPort library (`dp_bitstream.cpp`) and the two
CRCs computed over them (`dp_crc.cpp`).  Bits are taken most significant first
within each byte.  A reader reads the bits `[bitsOffset, bitsEnd)` of its
buffer; a writer writes at `bitsOffset` and grows its buffer as it goes.

Bit offsets, bit counts and buffer lengths are the source's `unsigned`
values: `Nat`s below `2^32`, with every sum and product the source computes on
them taken modulo `2^32`.  A reader's `bitsEnd` carries that bound.  Bytes a
writer adds to its buffer are zero here; the source leaves them uninitialised
and then writes every one of their bits. -/

namespace NvidiaGpu.DisplayPort

abbrev Buffer := List UInt8

/-- `data[index]`; a read past the end, which the source makes only when an
offset has wrapped, gives zero. -/
def Buffer.byteAt (buffer : Buffer) (index : Nat) : UInt8 :=
  buffer.getD index 0

def Buffer.resize (buffer : Buffer) (stopWriteAt : Nat) : Buffer :=
  buffer.take stopWriteAt ++ List.replicate (stopWriteAt - buffer.length) 0

/-- `align && ((align & (align - 1)) == 0)`: the aligns both streams accept;
any other is asserted against and changes nothing. -/
def isPowerOfTwo (align : Nat) : Bool :=
  align != 0 && align &&& (align - 1) == 0

/-- Bit `index` of a buffer, most significant first within each byte: the order
in which both streams take bits. -/
def Buffer.bitAt (buffer : Buffer) (index : Nat) : Bool :=
  (buffer.byteAt (index / 8)).toNat.testBit (7 - index % 8)

/-! ## Reading -/

structure BitStreamReader where
  sourceBuffer : Buffer
  bitsOffset : Nat
  bitsEnd : Nat
  bitsEnd_lt : bitsEnd < 2 ^ 32
  deriving DecidableEq, Repr

/-- `BitStreamReader(buffer, bitsOffset, bitsCount)`: the third argument counts
bits from `bitsOffset`. -/
def BitStreamReader.init (buffer : Buffer) (bitsOffset bitsCount : Nat) : BitStreamReader :=
  { sourceBuffer := buffer, bitsOffset := bitsOffset % 2 ^ 32, bitsEnd := (bitsCount + bitsOffset) % 2 ^ 32
    bitsEnd_lt := Nat.mod_lt _ (by decide) }

/-- The fast path of `read`: `bits` bits that fit in the current byte, from its
`topbit` down. -/
def BitStreamReader.readWithin (reader : BitStreamReader) (bits : Nat) : UInt32 × BitStreamReader :=
  let topbit := 7 - reader.bitsOffset % 8
  let bottombit := topbit - (bits - 1)
  ((((reader.sourceBuffer.byteAt (reader.bitsOffset / 8)).toUInt32 >>> bottombit.toUInt32)) &&&
      ((1 <<< bits.toUInt32) - 1),
    { reader with bitsOffset := (reader.bitsOffset + bits) % 2 ^ 32 })

def BitStreamReader.readBit (reader : BitStreamReader) : Option (UInt32 × BitStreamReader) :=
  if (reader.bitsOffset + 1) % 2 ^ 32 > reader.bitsEnd then none else some (reader.readWithin 1)

def BitStreamReader.readSerial : BitStreamReader → Nat → UInt32 → Option (UInt32 × BitStreamReader)
  | reader, 0, value => some (value, reader)
  | reader, bits + 1, value =>
      match reader.readBit with
      | none => none
      | some (bit, reader) => reader.readSerial bits (value * 2 + bit)

def BitStreamReader.read (reader : BitStreamReader) (bits : Nat) : Option (UInt32 × BitStreamReader) :=
  let topbit := 7 - reader.bitsOffset % 8
  if (reader.bitsOffset + bits) % 2 ^ 32 > reader.bitsEnd then none
  else if bits ≤ topbit + 1 then some (reader.readWithin bits)
  else reader.readSerial bits 0

def BitStreamReader.readOrDefault (reader : BitStreamReader) (bits : Nat) (defaultValue : UInt32) :
    UInt32 × BitStreamReader :=
  (reader.read bits).getD (defaultValue, reader)

/-- `BitStreamReader::align`, its result dropped as `decodeHeader` drops it.
Clearing the bits of `align - 1` is subtracting them. -/
def BitStreamReader.align (reader : BitStreamReader) (align : Nat) : BitStreamReader :=
  if !isPowerOfTwo align then reader
  else if reader.bitsOffset &&& (align - 1) != 0 then
    let next := (reader.bitsOffset + align) % 2 ^ 32
    { reader with bitsOffset := next - (next &&& (align - 1)) }
  else reader

/-! ## Writing -/

structure BitStreamWriter where
  targetBuffer : Buffer
  bitsOffset : Nat
  deriving DecidableEq, Repr

/-- The fast path of `write`: `bits` bits of `value` into the current byte, from
its `topbit` down, keeping the byte's other bits. -/
def BitStreamWriter.writeWithin (writer : BitStreamWriter) (value : UInt32) (bits : Nat) : BitStreamWriter :=
  let topbit := 7 - writer.bitsOffset % 8
  let bottombit := topbit - (bits - 1)
  let clearmask : UInt8 := ((((1 : UInt32) <<< bits.toUInt32) - 1) <<< bottombit.toUInt32).toUInt8
  let index := writer.bitsOffset / 8
  let byte := writer.targetBuffer.byteAt index
  { targetBuffer := writer.targetBuffer.set index
      ((byte.toUInt32 &&& ~~~clearmask.toUInt32 ||| value <<< bottombit.toUInt32).toUInt8)
    bitsOffset := (writer.bitsOffset + bits) % 2 ^ 32 }

/-- The buffer resized to end at the byte of the `bits`-th bit from the offset,
when that bit lies past its end. -/
def BitStreamWriter.reserve (writer : BitStreamWriter) (bits : Nat) : BitStreamWriter :=
  if (writer.bitsOffset + bits) % 2 ^ 32 > writer.targetBuffer.length * 8 % 2 ^ 32 then
    { writer with targetBuffer := writer.targetBuffer.resize ((writer.bitsOffset + bits + 7) % 2 ^ 32 / 8) }
  else writer

def BitStreamWriter.writeSerial (writer : BitStreamWriter) (value : UInt32) : Nat → BitStreamWriter
  | 0 => writer
  | bits + 1 =>
      ((writer.reserve 1).writeWithin ((value >>> bits.toUInt32) &&& 1) 1).writeSerial value bits

def BitStreamWriter.write (writer : BitStreamWriter) (value : UInt32) (bits : Nat) : BitStreamWriter :=
  let topbit := 7 - writer.bitsOffset % 8
  let writer := writer.reserve bits
  if bits ≤ topbit + 1 then writer.writeWithin value bits
  else writer.writeSerial value bits

def BitStreamWriter.align (writer : BitStreamWriter) (align : Nat) : BitStreamWriter :=
  if !isPowerOfTwo align then writer
  else if writer.bitsOffset &&& (align - 1) != 0 then writer.write 0 (align - (writer.bitsOffset &&& (align - 1)))
  else writer

/-! ## The CRCs -/

/-- One step of the CRCs' polynomial division: shift `bit` in and reduce by
`poly` when bit `width` is set. -/
def crcStep (width poly remainder bit : UInt32) : UInt32 :=
  let remainder := (remainder <<< 1) ||| bit
  if remainder &&& (1 <<< width) == 1 <<< width then remainder ^^^ poly else remainder

/-- The `while (reader->read(&bit, 1))` loop of the CRCs, for at most `count`
rounds. -/
def crcLoop (width poly : UInt32) : Nat → BitStreamReader → UInt32 → UInt32
  | 0, _, remainder => remainder
  | count + 1, reader, remainder =>
      match reader.readBit with
      | none => remainder
      | some (bit, reader) => crcLoop width poly count reader (crcStep width poly remainder bit)

def crcFlush (width poly : UInt32) : Nat → UInt32 → UInt32
  | 0, remainder => remainder
  | count + 1, remainder =>
      let remainder := remainder <<< 1
      crcFlush width poly count (if remainder &&& (1 <<< width) != 0 then remainder ^^^ poly else remainder)

/-- A CRC of `width` bits with polynomial `poly` over the bits the reader has
left.  The loop runs for the `(bitsEnd - bitsOffset) mod 2^32` rounds after
which the source's one-bit read fails, on every reader but one that ends at bit
`2^32 - 1`: there the read at the end wraps past its check, and the source's
loop does not end. -/
def dpCalculateCRC (width poly : UInt32) (reader : BitStreamReader) : UInt32 :=
  let remainder := crcLoop width poly ((reader.bitsEnd + 2 ^ 32 - reader.bitsOffset) % 2 ^ 32) reader 0
  crcFlush width poly width.toNat remainder &&& ((1 <<< width) - 1)

def dpCalculateHeaderCRC (reader : BitStreamReader) : UInt32 :=
  dpCalculateCRC 4 0x13 reader

def dpCalculateBodyCRC (reader : BitStreamReader) : UInt32 :=
  dpCalculateCRC 8 0xD5 reader

end NvidiaGpu.DisplayPort
