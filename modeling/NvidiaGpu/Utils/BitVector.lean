import NvidiaGpu.Pma.RegmapLargestFree
import NvidiaGpu.Library.Window
import NvidiaGpu.Library.Blocks
import NvidiaGpu.Status

set_option autoImplicit false

/-! `NV_BITVECTOR` (`nvbitvector.h`, `nvbitvector.c`): flags `0 … last - 1`
packed into `NV_BITVECTOR_ARRAY_SIZE(last)` 64-bit words, flag `i` at position
`i % 64` of word `i / 64`.  The bits of the last word from `last` on are
padding.

Memory is a map from word addresses to words, and a vector is the address of
its first word, so that a destination may be the same vector as an operand.
Pointers are never `NULL` here, so the `NULL` checks are left out.  `last` is
`bitVectorLast` as the `_IMPL` functions get it; `IMPL_BITVECTOR` rejects a
vector type with `last = 0` at compile time, so the macros below are only ever
used with `last ≥ 1`.  An `NvBool` is a `Bool`. -/

namespace NvidiaGpu.BitVector

open Bitmap Window Blocks Regmap

/-! ## `nvbitvector.h` and `nvrange.h` -/

def nvBitvectorIdx (index : Nat) : Nat := index / 64

def nvBitvectorArraySize (last : Nat) : Nat := nvBitvectorIdx (last - 1) + 1

def nvBitvectorOffset (index : Nat) : Nat := index % 64

def nvBit64 (b : Nat) : UInt64 := 1 <<< b.toUInt64

/-- `NV_RANGE`: the indices `lo … hi`, empty when `lo > hi`. -/
structure NvRange where
  lo : UInt64
  hi : UInt64
  deriving DecidableEq, Repr

def rangeMake (lo hi : UInt64) : NvRange := ⟨lo, hi⟩

def rangeContains (range1 range2 : NvRange) : Bool :=
  range1.lo ≤ range2.lo && range1.hi ≥ range2.hi

def nvPopCount64 (x : UInt64) : UInt32 :=
  let temp := x
  let temp := temp - ((temp >>> 1) &&& 0x5555555555555555)
  let temp := (temp &&& (0x3333333333333333 : UInt64)) + ((temp >>> 2) &&& 0x3333333333333333)
  let temp := (temp + (temp >>> 4)) &&& (0x0F0F0F0F0F0F0F0F : UInt64)
  let temp := (temp * 0x0101010101010101) >>> 56
  temp.toUInt32

/-! ## Words -/

def modifyWord (mem : Nat → UInt64) (address : Nat) (update : UInt64 → UInt64) : Nat → UInt64 :=
  Function.update mem address (update (mem address))

/-- The mask the word loops put on word `idx`: every bit below the last word,
the bits below `bitVectorLast` in it. -/
def wordMask (bitVectorLast : UInt16) (idx : Nat) : UInt64 :=
  if idx < nvBitvectorArraySize bitVectorLast.toNat - 1 then allOnes64
  else allOnes64 >>> (63 - nvBitvectorOffset (bitVectorLast.toNat - 1)).toUInt64

/-- `for (idx = 0; idx < arraySize; idx++) qwordDst[idx] = word(idx)`, each
round reading memory as the rounds before it left it. -/
def wordLoop (pDst : Nat) (word : (Nat → UInt64) → Nat → UInt64) (arraySize : Nat) (mem : Nat → UInt64) :
    Nat → UInt64 :=
  (List.range arraySize).foldl (fun mem idx => Function.update mem (pDst + idx) (word mem idx)) mem

/-! ## Single flags and the whole vector -/

def bitVectorClrAll (mem : Nat → UInt64) (pBitVector : Nat) (bitVectorLast : UInt16) :
    NvStatus × (Nat → UInt64) :=
  (.nvOk, writeRun mem pBitVector (fun _ => 0) (nvBitvectorArraySize bitVectorLast.toNat))

/-- `bitVectorSetAll_IMPL`: every word all ones, then the last word cut down to
the flags below `bitVectorLast`. -/
def bitVectorSetAll (mem : Nat → UInt64) (pBitVector : Nat) (bitVectorLast : UInt16) :
    NvStatus × (Nat → UInt64) :=
  let arraySize := nvBitvectorArraySize bitVectorLast.toNat
  let qwordOffset := nvBitvectorOffset (bitVectorLast.toNat - 1)
  let mem := writeRun mem pBitVector (fun _ => allOnes64) arraySize
  (.nvOk, modifyWord mem (pBitVector + (arraySize - 1)) (· &&& (allOnes64 >>> (63 - qwordOffset).toUInt64)))

/-- The word update of `bitVectorClr_IMPL`, `bitVectorSet_IMPL` and
`bitVectorInv_IMPL`: `qword[IDX(idx)] = op(qword[IDX(idx)], NVBIT64(OFFSET(idx)))`. -/
def writeBit (op : UInt64 → UInt64 → UInt64) (mem : Nat → UInt64) (pBitVector : Nat) (idx : UInt16) :
    Nat → UInt64 :=
  modifyWord mem (pBitVector + nvBitvectorIdx idx.toNat) (op · (nvBit64 (nvBitvectorOffset idx.toNat)))

def bitVectorClr (mem : Nat → UInt64) (pBitVector : Nat) (bitVectorLast idx : UInt16) :
    NvStatus × (Nat → UInt64) :=
  if idx < bitVectorLast then (.nvOk, writeBit (fun word bit => word &&& ~~~bit) mem pBitVector idx)
  else (.nvErrInvalidArgument, mem)

def bitVectorSet (mem : Nat → UInt64) (pBitVector : Nat) (_bitVectorLast idx : UInt16) :
    NvStatus × (Nat → UInt64) :=
  (.nvOk, writeBit (· ||| ·) mem pBitVector idx)

def bitVectorInv (mem : Nat → UInt64) (pBitVector : Nat) (_bitVectorLast idx : UInt16) :
    NvStatus × (Nat → UInt64) :=
  (.nvOk, writeBit (· ^^^ ·) mem pBitVector idx)

def setEach (pBitVector : Nat) (bitVectorLast : UInt16) (mem : Nat → UInt64) :
    List UInt16 → NvStatus × (Nat → UInt64)
  | [] => (.nvOk, mem)
  | idx :: rest =>
      match bitVectorSet mem pBitVector bitVectorLast idx with
      | (.nvOk, mem) => setEach pBitVector bitVectorLast mem rest
      | failed => failed

def bitVectorFromArrayU16 (mem : Nat → UInt64) (pBitVector : Nat) (bitVectorLast : UInt16)
    (pIndices : List UInt16) : NvStatus × (Nat → UInt64) :=
  if pIndices.length = 0 then (.nvErrInvalidArgument, mem)
  else
    match bitVectorClrAll mem pBitVector bitVectorLast with
    | (.nvOk, mem) => setEach pBitVector bitVectorLast mem pIndices
    | failed => failed

/-! ## Ranges -/

/-- The loop of `bitVectorClrRange_IMPL`, `bitVectorSetRange_IMPL` and
`bitVectorInvRange_IMPL` from `idx`, for at most `fuel` rounds: at a word
boundary whose whole word lies in `range` the word becomes `setWord` of itself
and `idx` moves on by 64, elsewhere `setBit` writes the one flag, which may fail.
`none` when the rounds run out. -/
def rangeLoop (setWord : UInt64 → UInt64) (setBit : (Nat → UInt64) → UInt16 → NvStatus × (Nat → UInt64))
    (pBitVector : Nat) (range : NvRange) : Nat → UInt16 → (Nat → UInt64) → Option (NvStatus × (Nat → UInt64))
  | 0, _, _ => none
  | fuel + 1, idx, mem =>
      if idx ≤ range.hi.toUInt16 then
        if nvBitvectorOffset idx.toNat == 0 &&
            rangeContains range (rangeMake (idx.toNat + 63).toUInt64 (idx.toNat + 63).toUInt64) then
          rangeLoop setWord setBit pBitVector range fuel (idx + 63 + 1)
            (modifyWord mem (pBitVector + nvBitvectorIdx idx.toNat) setWord)
        else
          match setBit mem idx with
          | (.nvOk, mem) => rangeLoop setWord setBit pBitVector range fuel (idx + 1) mem
          | failed => some failed
      else some (.nvOk, mem)

/-- The range functions: `range` must lie in `[0, bitVectorLast - 1]`; then the
loop, given a round for each `NvU16` index. -/
def rangeOp (setWord : UInt64 → UInt64) (setBit : (Nat → UInt64) → UInt16 → NvStatus × (Nat → UInt64))
    (mem : Nat → UInt64) (pBitVector : Nat) (bitVectorLast : UInt16) (range : NvRange) :
    Option (NvStatus × (Nat → UInt64)) :=
  if rangeContains (rangeMake 0 (bitVectorLast.toNat.toUInt64 - 1)) range then
    rangeLoop setWord setBit pBitVector range 65536 range.lo.toUInt16 mem
  else some (.nvErrInvalidArgument, mem)

def bitVectorClrRange (mem : Nat → UInt64) (pBitVector : Nat) (bitVectorLast : UInt16) (range : NvRange) :
    Option (NvStatus × (Nat → UInt64)) :=
  rangeOp (fun _ => 0) (fun mem idx => bitVectorClr mem pBitVector bitVectorLast idx) mem pBitVector bitVectorLast range

def bitVectorSetRange (mem : Nat → UInt64) (pBitVector : Nat) (bitVectorLast : UInt16) (range : NvRange) :
    Option (NvStatus × (Nat → UInt64)) :=
  rangeOp (fun _ => allOnes64) (fun mem idx => bitVectorSet mem pBitVector bitVectorLast idx) mem pBitVector
    bitVectorLast range

def bitVectorInvRange (mem : Nat → UInt64) (pBitVector : Nat) (bitVectorLast : UInt16) (range : NvRange) :
    Option (NvStatus × (Nat → UInt64)) :=
  rangeOp (fun word => ~~~word) (fun mem idx => bitVectorInv mem pBitVector bitVectorLast idx) mem pBitVector
    bitVectorLast range

/-! ## Tests -/

def bitVectorTestAllSet (mem : Nat → UInt64) (pBitVector : Nat) (bitVectorLast : UInt16) : Bool :=
  (List.range (nvBitvectorArraySize bitVectorLast.toNat)).all fun idx =>
    wordMask bitVectorLast idx == (mem (pBitVector + idx) &&& wordMask bitVectorLast idx)

def bitVectorTestAllCleared (mem : Nat → UInt64) (pBitVector : Nat) (bitVectorLast : UInt16) : Bool :=
  (List.range (nvBitvectorArraySize bitVectorLast.toNat)).all fun idx =>
    mem (pBitVector + idx) &&& wordMask bitVectorLast idx == 0

/-- `bitVectorTestEqual_IMPL`.  Vectors of different lengths get the status
`NV_ERR_INVALID_ARGUMENT` back as an `NvBool`, which is nonzero. -/
def bitVectorTestEqual (mem : Nat → UInt64) (pBitVectorA : Nat) (bitVectorALast : UInt16) (pBitVectorB : Nat)
    (bitVectorBLast : UInt16) : Bool :=
  if bitVectorALast = bitVectorBLast then
    (List.range (nvBitvectorArraySize bitVectorALast.toNat)).all fun idx =>
      (mem (pBitVectorA + idx) &&& wordMask bitVectorALast idx) == (mem (pBitVectorB + idx) &&& wordMask bitVectorALast idx)
  else true

/-- `bitVectorTestIsSubset_IMPL`, with `bitVectorTestEqual`'s answer to
different lengths. -/
def bitVectorTestIsSubset (mem : Nat → UInt64) (pBitVectorA : Nat) (bitVectorALast : UInt16) (pBitVectorB : Nat)
    (bitVectorBLast : UInt16) : Bool :=
  if bitVectorALast = bitVectorBLast then
    (List.range (nvBitvectorArraySize bitVectorALast.toNat)).all fun idx =>
      ((mem (pBitVectorA + idx) &&& wordMask bitVectorALast idx) &&& (mem (pBitVectorB + idx) &&& wordMask bitVectorALast idx)) ==
        (mem (pBitVectorA + idx) &&& wordMask bitVectorALast idx)
  else true

def bitVectorTest (mem : Nat → UInt64) (pBitVector : Nat) (bitVectorLast idx : UInt16) : Bool :=
  if idx < bitVectorLast then
    mem (pBitVector + nvBitvectorIdx idx.toNat) &&& nvBit64 (nvBitvectorOffset idx.toNat) != 0
  else false

/-! ## Word-wise operations -/

/-- `bitVectorAnd_IMPL`, `bitVectorOr_IMPL` and `bitVectorXor_IMPL`: the two
operands combined word by word through `op`, masked. -/
def combine (op : UInt64 → UInt64 → UInt64) (mem : Nat → UInt64) (pBitVectorDst : Nat) (bitVectorDstLast : UInt16)
    (pBitVectorA : Nat) (bitVectorALast : UInt16) (pBitVectorB : Nat) (bitVectorBLast : UInt16) :
    NvStatus × (Nat → UInt64) :=
  if bitVectorDstLast = bitVectorALast ∧ bitVectorALast = bitVectorBLast then
    (.nvOk, wordLoop pBitVectorDst
      (fun mem idx => op (mem (pBitVectorA + idx)) (mem (pBitVectorB + idx)) &&& wordMask bitVectorDstLast idx)
      (nvBitvectorArraySize bitVectorDstLast.toNat) mem)
  else (.nvErrInvalidArgument, mem)

def bitVectorAnd (mem : Nat → UInt64) (pBitVectorDst : Nat) (bitVectorDstLast : UInt16) (pBitVectorA : Nat)
    (bitVectorALast : UInt16) (pBitVectorB : Nat) (bitVectorBLast : UInt16) : NvStatus × (Nat → UInt64) :=
  combine (· &&& ·) mem pBitVectorDst bitVectorDstLast pBitVectorA bitVectorALast pBitVectorB bitVectorBLast

def bitVectorOr (mem : Nat → UInt64) (pBitVectorDst : Nat) (bitVectorDstLast : UInt16) (pBitVectorA : Nat)
    (bitVectorALast : UInt16) (pBitVectorB : Nat) (bitVectorBLast : UInt16) : NvStatus × (Nat → UInt64) :=
  combine (· ||| ·) mem pBitVectorDst bitVectorDstLast pBitVectorA bitVectorALast pBitVectorB bitVectorBLast

def bitVectorXor (mem : Nat → UInt64) (pBitVectorDst : Nat) (bitVectorDstLast : UInt16) (pBitVectorA : Nat)
    (bitVectorALast : UInt16) (pBitVectorB : Nat) (bitVectorBLast : UInt16) : NvStatus × (Nat → UInt64) :=
  combine (· ^^^ ·) mem pBitVectorDst bitVectorDstLast pBitVectorA bitVectorALast pBitVectorB bitVectorBLast

def bitVectorComplement (mem : Nat → UInt64) (pBitVectorDst : Nat) (bitVectorDstLast : UInt16) (pBitVectorSrc : Nat)
    (bitVectorSrcLast : UInt16) : NvStatus × (Nat → UInt64) :=
  if bitVectorDstLast = bitVectorSrcLast then
    (.nvOk, wordLoop pBitVectorDst (fun mem idx => ~~~mem (pBitVectorSrc + idx) &&& wordMask bitVectorDstLast idx)
      (nvBitvectorArraySize bitVectorDstLast.toNat) mem)
  else (.nvErrInvalidArgument, mem)

def bitVectorCopy (mem : Nat → UInt64) (pBitVectorDst : Nat) (bitVectorDstLast : UInt16) (pBitVectorSrc : Nat)
    (bitVectorSrcLast : UInt16) : NvStatus × (Nat → UInt64) :=
  if bitVectorDstLast ≠ bitVectorSrcLast then (.nvErrInvalidArgument, mem)
  else if pBitVectorDst = pBitVectorSrc then (.nvWarnNothingToDo, mem)
  else (.nvOk, copyBlock mem pBitVectorDst pBitVectorSrc (nvBitvectorArraySize bitVectorSrcLast.toNat))

/-! ## Counts -/

/-- `bitVectorCountTrailingZeros_IMPL`: the first set flag, `bitVectorLast` if
there is none. -/
def bitVectorCountTrailingZeros (mem : Nat → UInt64) (pBitVector : Nat) (bitVectorLast : UInt16) : UInt32 :=
  match (List.range (nvBitvectorArraySize bitVectorLast.toNat)).find?
      (fun idx => mem (pBitVector + idx) &&& wordMask bitVectorLast idx != 0) with
  | some idx => (idx * 64 + (portUtilCountTrailingZeros64 (mem (pBitVector + idx) &&& wordMask bitVectorLast idx)).toNat).toUInt32
  | none => bitVectorLast.toUInt32

/-- `bitVectorCountLeadingZeros_IMPL`: from the top word down, the first word
that is nonzero before masking decides.  The subtraction of `qwordUnused` never
wraps, as the masked word has its top `qwordUnused` bits clear. -/
def bitVectorCountLeadingZeros (mem : Nat → UInt64) (pBitVector : Nat) (bitVectorLast : UInt16) : UInt32 :=
  let arraySize := nvBitvectorArraySize bitVectorLast.toNat
  let qwordUnused := 63 - nvBitvectorOffset (bitVectorLast.toNat - 1)
  match (List.range arraySize).reverse.find? (fun idx => mem (pBitVector + idx) != 0) with
  | some idx =>
      ((arraySize - idx - 1) * 64 + (portUtilCountLeadingZeros64 (mem (pBitVector + idx) &&& wordMask bitVectorLast idx)).toNat -
        qwordUnused).toUInt32
  | none => bitVectorLast.toUInt32

def bitVectorCountSetBits (mem : Nat → UInt64) (pBitVector : Nat) (bitVectorLast : UInt16) : UInt32 :=
  (List.range (nvBitvectorArraySize bitVectorLast.toNat)).foldl
    (fun count idx => count + nvPopCount64 (mem (pBitVector + idx) &&& wordMask bitVectorLast idx)) 0

end NvidiaGpu.BitVector
