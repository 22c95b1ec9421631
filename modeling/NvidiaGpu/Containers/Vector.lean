import NvidiaGpu.Library.Blocks
import NvidiaGpu.Status

set_option autoImplicit false

/-! The vector of `vector.c`: `size` records of `valueSize` bytes each in one
buffer with room for `capacity` records, grown by doubling.  Counts, sizes and
byte offsets are `NvU32`, so every product `index * valueSize` is taken modulo
`2^32`, as in the source.  `allocOk` stands for whether `PORT_ALLOC` returned
memory; a new buffer is zeroed before anything is copied into it. -/

namespace NvidiaGpu.Vect

open Window Blocks

structure Vector where
  /-- The bytes of the buffer `pHead` points at. -/
  pHead : Nat → UInt8
  /-- How many bytes were allocated for it. -/
  allocated : Nat
  valueSize : UInt32
  capacity : UInt32
  size : UInt32

def vectInit (capacity valueSize : UInt32) (allocOk : Bool) : NvStatus × Vector :=
  let vector : Vector :=
    { pHead := fun _ => 0, allocated := 0, valueSize := valueSize, capacity := capacity, size := 0 }
  if capacity > 0 then
    if allocOk then (.nvOk, { vector with allocated := (capacity * valueSize).toNat })
    else (.nvErrNoMemory, vector)
  else (.nvOk, vector)

/-- `_vectReallocHelper`: a new zeroed buffer of `newSize` bytes holding the
first `copySize` bytes of the old one; capacity and size are read back by
dividing by `valueSize`. -/
def vectReallocHelper (vector : Vector) (newSize copySize : UInt32) (allocOk : Bool) :
    Bool × Vector :=
  if newSize ≥ copySize then
    if allocOk = false ∧ newSize > 0 then (false, vector)
    else
      -- `portMemCopy` gives `NULL` only for a `NULL` buffer, which comes with
      -- `newSize = 0`, and then no byte is copied
      (true, { vector with
        pHead := writeRun (fun _ => 0) 0 vector.pHead copySize.toNat
        allocated := newSize.toNat
        capacity := newSize / vector.valueSize
        size := copySize / vector.valueSize })
  else (false, vector)

/-- `_vectIndexCheck`: the record's offset lies between the buffer's start and
the last record's offset. -/
def vectIndexCheck (vector : Vector) (index : UInt32) : Bool :=
  if vector.size = 0 then false
  else (index * vector.valueSize).toNat ≤ ((vector.size - 1) * vector.valueSize).toNat

def vectAt (vector : Vector) (index : UInt32) : Option Nat :=
  if vector.size = 0 ∨ vectIndexCheck vector index = false then none
  else some (index * vector.valueSize).toNat

def vectInsertShift (valueSize index : UInt32) (pHead : Nat → UInt8) : Nat → Nat → UInt8
  | 0 => pHead
  | i + 1 =>
    if i + 1 > index.toNat then
      vectInsertShift valueSize index
        (copyBlock pHead (UInt32.ofNat (i + 1) * valueSize).toNat (UInt32.ofNat i * valueSize).toNat
          valueSize.toNat) i
    else pHead

/-- The growth step of `vectInsert`: when the vector is full, a buffer twice as
large, or of ten records when there was none, and whether that worked. -/
def vectInsertGrow (vector : Vector) (allocOk : Bool) : Bool × Vector :=
  if vector.size + 1 > vector.capacity then
    let newCapacity : UInt32 := if vector.capacity = 0 then 10 else vector.capacity * 2
    vectReallocHelper vector (newCapacity * vector.valueSize) (vector.size * vector.valueSize) allocOk
  else (true, vector)

/-- The byte offset of the inserted record, or `none` for `NULL`, with the
vector after the call. -/
def vectInsert (vector : Vector) (index : UInt32) (pData : Nat → UInt8) (allocOk : Bool) :
    Option Nat × Vector :=
  if vector.size ≠ index ∧ vectIndexCheck vector index = false then (none, vector)
  else
    let grown := vectInsertGrow vector allocOk
    if grown.1 then
      let vector := grown.2
      let pHead := vectInsertShift vector.valueSize index vector.pHead vector.size.toNat
      let dst := (index * vector.valueSize).toNat
      (some dst, { vector with
        pHead := writeRun pHead dst pData vector.valueSize.toNat
        size := vector.size + 1 })
    else (none, vector)

/-- `for (i = index; i < size - 1; i++)`, which runs `size - 1 - index`
rounds: record `i + 1` copied to record `i`. -/
def vectRemoveShift (valueSize : UInt32) (pHead : Nat → UInt8) (i : Nat) : Nat → Nat → UInt8
  | 0 => pHead
  | rounds + 1 =>
    vectRemoveShift valueSize
      (copyBlock pHead (UInt32.ofNat i * valueSize).toNat (UInt32.ofNat (i + 1) * valueSize).toNat
        valueSize.toNat) (i + 1) rounds

def vectRemove (vector : Vector) (index : UInt32) : Vector :=
  if vectIndexCheck vector index then
    { vector with
      pHead := vectRemoveShift vector.valueSize vector.pHead index.toNat
        ((vector.size - 1).toNat - index.toNat)
      size := vector.size - 1 }
  else vector

def vectAppend (vector : Vector) (pData : Nat → UInt8) (allocOk : Bool) : Option Nat × Vector :=
  vectInsert vector vector.size pData allocOk

def hugeRecordVector : Vector :=
  (vectInit 0 429496730 true).2

/-- Appending to `hugeRecordVector` asks for `10 * 429496730` bytes, which wraps
to `4` in `NvU32`.  The helper's check `newSize >= copySize` passes, four bytes
are allocated, the capacity becomes `4 / 429496730 = 0`, and the record is
written into them with the size then `1`. -/
theorem vectAppend_hugeRecord_overflows (pData : Nat → UInt8) :
    (vectInit 0 429496730 true).1 = .nvOk ∧
      (vectAppend hugeRecordVector pData true).1 = some 0 ∧
      (vectAppend hugeRecordVector pData true).2.capacity = 0 ∧
      (vectAppend hugeRecordVector pData true).2.size = 1 ∧
      (vectAppend hugeRecordVector pData true).2.allocated = 4 := by
  exact ⟨rfl, rfl, rfl, rfl, rfl⟩

def vectPrepend (vector : Vector) (pData : Nat → UInt8) (allocOk : Bool) : Option Nat × Vector :=
  vectInsert vector 0 pData allocOk

def vectReserve (vector : Vector) (n : UInt32) (allocOk : Bool) : NvStatus × Vector :=
  if n > 0 then
    if n > vector.capacity then
      match vectReallocHelper vector (n * vector.valueSize) (vector.size * vector.valueSize) allocOk with
      | (true, vector) => (.nvOk, vector)
      | (false, _) => (.nvErrNoMemory, vector)
    else (.nvOk, vector)
  else (.nvErrInvalidArgument, vector)

def vectTrim (vector : Vector) (n : UInt32) (allocOk : Bool) : NvStatus × Vector :=
  if n > vector.capacity then (.nvOk, vector)
  else
    let n := if n < vector.size then vector.size else n
    match vectReallocHelper vector (n * vector.valueSize) (vector.size * vector.valueSize) allocOk with
    | (true, vector) => (.nvOk, vector)
    | (false, _) => (.nvErrNoMemory, vector)

@[simp] theorem vectReallocHelper_valueSize (vector : Vector) (newSize copySize : UInt32) (allocOk : Bool) :
    (vectReallocHelper vector newSize copySize allocOk).2.valueSize = vector.valueSize := by
  unfold vectReallocHelper
  split_ifs <;> rfl

@[simp] theorem vectInsertGrow_valueSize (vector : Vector) (allocOk : Bool) :
    (vectInsertGrow vector allocOk).2.valueSize = vector.valueSize := by
  unfold vectInsertGrow
  split_ifs <;> simp

@[simp] theorem vectInsert_valueSize (vector : Vector) (index : UInt32) (pData : Nat → UInt8)
    (allocOk : Bool) : (vectInsert vector index pData allocOk).2.valueSize = vector.valueSize := by
  unfold vectInsert
  dsimp only
  split_ifs <;> simp

@[simp] theorem vectRemove_valueSize (vector : Vector) (index : UInt32) :
    (vectRemove vector index).valueSize = vector.valueSize := by
  unfold vectRemove
  split_ifs <;> rfl

@[simp] theorem vectReserve_valueSize (vector : Vector) (n : UInt32) (allocOk : Bool) :
    (vectReserve vector n allocOk).2.valueSize = vector.valueSize := by
  have kept := vectReallocHelper_valueSize vector (n * vector.valueSize)
    (vector.size * vector.valueSize) allocOk
  unfold vectReserve
  split_ifs
  · split
    · rename_i resized
      rw [resized] at kept
      exact kept
    · rfl
  · rfl
  · rfl

@[simp] theorem vectTrim_valueSize (vector : Vector) (n : UInt32) (allocOk : Bool) :
    (vectTrim vector n allocOk).2.valueSize = vector.valueSize := by
  unfold vectTrim
  by_cases larger : n > vector.capacity
  · rw [if_pos larger]
  · rw [if_neg larger]
    dsimp only
    have kept := vectReallocHelper_valueSize vector ((if n < vector.size then vector.size else n) *
      vector.valueSize) (vector.size * vector.valueSize) allocOk
    split
    · rename_i resized
      rw [resized] at kept
      exact kept
    · rfl

/-- The records of the vector, each as the `valueSize` bytes at the offset
`vectAt` computes. -/
def contents (vector : Vector) : List (List UInt8) :=
  (List.range vector.size.toNat).map fun index =>
    block vector.pHead vector.valueSize.toNat (UInt32.ofNat index * vector.valueSize).toNat

theorem toNat_mul_of_lt {a b : UInt32} (noWrap : a.toNat * b.toNat < 2 ^ 32) :
    (a * b).toNat = a.toNat * b.toNat := by
  rw [UInt32.toNat_mul, Nat.mod_eq_of_lt noWrap]

theorem toNat_ofNat_mul {count : Nat} {width : UInt32} (noWrap : count * width.toNat < 2 ^ 32)
    (positive : 1 ≤ width.toNat) :
    (UInt32.ofNat count * width).toNat = count * width.toNat := by
  have countBelow : count < 2 ^ 32 := lt_of_le_of_lt (Nat.le_mul_of_pos_right count positive) noWrap
  rw [UInt32.toNat_mul, UInt32.toNat_ofNat', Nat.mod_eq_of_lt countBelow, Nat.mod_eq_of_lt noWrap]

theorem room_of_grown {capacity valueSize : Nat} (recordBytes : 1 ≤ valueSize)
    (measurable : capacity * valueSize < 2 ^ 32)
    (firstGrowth : capacity = 0 → 10 * valueSize < 2 ^ 32)
    (passes : capacity * valueSize ≤
      (if capacity = 0 then 10 else capacity * 2 % 2 ^ 32) * valueSize % 2 ^ 32) :
    (capacity + 1) * valueSize ≤
      (if capacity = 0 then 10 else capacity * 2 % 2 ^ 32) * valueSize % 2 ^ 32 := by
  rw [Nat.succ_mul]
  by_cases empty : capacity = 0
  · rw [if_pos empty] at passes ⊢
    have firstBelow := firstGrowth empty
    subst empty
    rw [Nat.mod_eq_of_lt firstBelow]
    omega
  · rw [if_neg empty] at passes ⊢
    have atLeast : valueSize ≤ capacity * valueSize := Nat.le_mul_of_pos_left valueSize (by omega)
    by_cases small : capacity * 2 < 2 ^ 32
    · rw [Nat.mod_eq_of_lt small, Nat.mul_right_comm] at passes ⊢
      omega
    · have oneByte : valueSize = 1 := by
        by_contra wider
        have twice : capacity * 2 ≤ capacity * valueSize := Nat.mul_le_mul_left capacity (by omega)
        omega
      subst oneByte
      rw [Nat.mul_one, Nat.mul_one, Nat.mod_mod] at passes
      omega

/-- Records of at least one byte, at most `capacity` of them, in a buffer of at
least `capacity * valueSize` bytes and fewer than `2^32`: no offset of a record
wraps and every record lies inside the buffer. -/
structure Vector.Valid (vector : Vector) : Prop where
  recordBytes : 1 ≤ vector.valueSize.toNat
  sizeLe : vector.size.toNat ≤ vector.capacity.toNat
  fits : vector.capacity.toNat * vector.valueSize.toNat ≤ vector.allocated
  measurable : vector.allocated < 2 ^ 32

section Valid

variable {vector : Vector} (valid : vector.Valid)
include valid

theorem Vector.Valid.offset {index : Nat} (within : index ≤ vector.capacity.toNat) :
    (UInt32.ofNat index * vector.valueSize).toNat = index * vector.valueSize.toNat := by
  have scaled := Nat.mul_le_mul_right vector.valueSize.toNat within
  have fits := valid.fits
  have measurable := valid.measurable
  exact toNat_ofNat_mul (by omega) valid.recordBytes

theorem Vector.Valid.contents_eq :
    contents vector = (List.range vector.size.toNat).map fun index =>
      block vector.pHead vector.valueSize.toNat (index * vector.valueSize.toNat) := by
  apply List.map_congr_left
  intro index member
  have below := List.mem_range.mp member
  have sizeLe := valid.sizeLe
  rw [valid.offset (by omega)]

theorem Vector.Valid.toNat_used :
    (vector.size * vector.valueSize).toNat = vector.size.toNat * vector.valueSize.toNat := by
  have scaled := Nat.mul_le_mul_right vector.valueSize.toNat valid.sizeLe
  have fits := valid.fits
  have measurable := valid.measurable
  exact toNat_mul_of_lt (by omega)

theorem Vector.Valid.vectIndexCheck_of_lt {index : UInt32} (below : index.toNat < vector.size.toNat) :
    vectIndexCheck vector index = true := by
  have sizeLe := valid.sizeLe
  have nonempty : vector.size ≠ 0 := fun empty => by
    rw [empty, UInt32.toNat_zero] at below
    omega
  have lastNat : (vector.size - 1).toNat = vector.size.toNat - 1 := by
    rw [UInt32.toNat_sub_of_le _ _ (UInt32.le_iff_toNat_le.mpr (by rw [UInt32.toNat_one]; omega)),
      UInt32.toNat_one]
  have indexOffset := valid.offset (show index.toNat ≤ vector.capacity.toNat by omega)
  have lastOffset := valid.offset (show vector.size.toNat - 1 ≤ vector.capacity.toNat by omega)
  rw [UInt32.ofNat_toNat] at indexOffset
  rw [← lastNat, UInt32.ofNat_toNat] at lastOffset
  unfold vectIndexCheck
  rw [if_neg nonempty, decide_eq_true_iff, indexOffset, lastOffset, lastNat]
  exact Nat.mul_le_mul_right _ (by omega)

theorem vectReallocHelper_spec (newSize : UInt32) (allocOk : Bool) :
    ((vectReallocHelper vector newSize (vector.size * vector.valueSize) allocOk).1 = false →
        (vectReallocHelper vector newSize (vector.size * vector.valueSize) allocOk).2 = vector) ∧
      ((vectReallocHelper vector newSize (vector.size * vector.valueSize) allocOk).1 = true →
        vector.size.toNat * vector.valueSize.toNat ≤ newSize.toNat ∧
        (vectReallocHelper vector newSize (vector.size * vector.valueSize) allocOk).2.Valid ∧
        contents (vectReallocHelper vector newSize (vector.size * vector.valueSize) allocOk).2 =
          contents vector ∧
        (vectReallocHelper vector newSize (vector.size * vector.valueSize) allocOk).2.size = vector.size ∧
        (vectReallocHelper vector newSize (vector.size * vector.valueSize) allocOk).2.valueSize =
          vector.valueSize ∧
        (vectReallocHelper vector newSize (vector.size * vector.valueSize) allocOk).2.capacity.toNat =
          newSize.toNat / vector.valueSize.toNat) := by
  have usedNat := valid.toNat_used
  have recordBytes := valid.recordBytes
  unfold vectReallocHelper
  split_ifs with enough failed
  · exact ⟨fun _ => rfl, fun never => (by cases never)⟩
  · refine ⟨fun never => (by cases never), fun _ => ?_⟩
    have enoughNat := UInt32.le_iff_toNat_le.mp enough
    rw [usedNat] at enoughNat
    have sizeIs : (vector.size * vector.valueSize / vector.valueSize) = vector.size := by
      rw [← UInt32.toNat_inj, UInt32.toNat_div, usedNat, Nat.mul_div_cancel _ recordBytes]
    have capacityNat : (newSize / vector.valueSize).toNat = newSize.toNat / vector.valueSize.toNat :=
      UInt32.toNat_div _ _
    have newValid : Vector.Valid { vector with
        pHead := writeRun (fun _ => 0) 0 vector.pHead (vector.size * vector.valueSize).toNat
        allocated := newSize.toNat
        capacity := newSize / vector.valueSize
        size := vector.size * vector.valueSize / vector.valueSize } := by
      refine ⟨recordBytes, ?_, ?_, newSize.toNat_lt⟩
      · dsimp only
        rw [sizeIs, capacityNat]
        exact (Nat.le_div_iff_mul_le recordBytes).mpr enoughNat
      · dsimp only
        rw [capacityNat]
        exact Nat.div_mul_le_self _ _
    refine ⟨enoughNat, newValid, ?_, sizeIs, rfl, capacityNat⟩
    rw [newValid.contents_eq, valid.contents_eq]
    dsimp only
    rw [sizeIs]
    apply List.map_congr_left
    intro index member
    have below := List.mem_range.mp member
    have inside : index * vector.valueSize.toNat + vector.valueSize.toNat ≤
        vector.size.toNat * vector.valueSize.toNat := by
      rw [← Nat.succ_mul]
      exact Nat.mul_le_mul_right _ below
    rw [block_writeRun_zero _ (by rw [usedNat]; exact inside)]
  · exact ⟨fun _ => rfl, fun never => (by cases never)⟩

theorem vectInsertGrow_spec (allocOk : Bool) (sizeRoom : vector.size.toNat + 1 < 2 ^ 32)
    (firstGrowth : vector.capacity = 0 → 10 * vector.valueSize.toNat < 2 ^ 32) :
    ((vectInsertGrow vector allocOk).1 = false → (vectInsertGrow vector allocOk).2 = vector) ∧
      ((vectInsertGrow vector allocOk).1 = true →
        (vectInsertGrow vector allocOk).2.Valid ∧
        contents (vectInsertGrow vector allocOk).2 = contents vector ∧
        (vectInsertGrow vector allocOk).2.size = vector.size ∧
        (vectInsertGrow vector allocOk).2.valueSize = vector.valueSize ∧
        vector.size.toNat + 1 ≤ (vectInsertGrow vector allocOk).2.capacity.toNat) := by
  have sizeLe := valid.sizeLe
  have recordBytes := valid.recordBytes
  have fits := valid.fits
  have measurable := valid.measurable
  have nextNat : (vector.size + 1).toNat = vector.size.toNat + 1 := by
    rw [UInt32.toNat_add, UInt32.toNat_one, Nat.mod_eq_of_lt sizeRoom]
  unfold vectInsertGrow
  by_cases full : vector.size + 1 > vector.capacity
  · rw [if_pos full]
    dsimp only
    have fullNat := UInt32.lt_iff_toNat_lt.mp full
    rw [nextNat] at fullNat
    have sizeIs : vector.size.toNat = vector.capacity.toNat := by omega
    obtain ⟨unchanged, resized⟩ := vectReallocHelper_spec valid
      ((if vector.capacity = 0 then 10 else vector.capacity * 2) * vector.valueSize) allocOk
    refine ⟨unchanged, fun ok => ?_⟩
    obtain ⟨passes, resizedValid, same, sizeSame, valueSizeSame, capacityNat⟩ := resized ok
    refine ⟨resizedValid, same, sizeSame, valueSizeSame, ?_⟩
    have newCapacityNat : (if vector.capacity = 0 then (10 : UInt32) else vector.capacity * 2).toNat =
        if vector.capacity.toNat = 0 then 10 else vector.capacity.toNat * 2 % 2 ^ 32 := by
      by_cases empty : vector.capacity = 0
      · rw [if_pos empty, if_pos (show vector.capacity.toNat = 0 by rw [empty]; rfl)]
        rfl
      · have nonzero : ¬vector.capacity.toNat = 0 := fun zero =>
          empty (UInt32.toNat_inj.mp (zero.trans UInt32.toNat_zero.symm))
        rw [if_neg empty, if_neg nonzero, UInt32.toNat_mul]
        rfl
    rw [UInt32.toNat_mul, newCapacityNat] at passes capacityNat
    have room := room_of_grown recordBytes (by omega)
      (fun empty => firstGrowth (UInt32.toNat_inj.mp (empty.trans UInt32.toNat_zero.symm))) (by rw [sizeIs] at passes; exact passes)
    rw [capacityNat, Nat.le_div_iff_mul_le recordBytes, sizeIs]
    exact room
  · rw [if_neg full]
    have roomNat := UInt32.le_iff_toNat_le.mp (UInt32.not_lt.mp full)
    rw [nextNat] at roomNat
    exact ⟨fun never => (by cases never), fun _ => ⟨valid, rfl, rfl, rfl, roomNat⟩⟩

end Valid

theorem block_vectInsertShift (valueSize index : UInt32) (positive : 1 ≤ valueSize.toNat)
    (pHead : Nat → UInt8) {last : Nat} (noWrap : last * valueSize.toNat < 2 ^ 32)
    (above : index.toNat ≤ last) (record : Nat) :
    block (vectInsertShift valueSize index pHead last) valueSize.toNat (record * valueSize.toNat) =
      if index.toNat < record ∧ record ≤ last then
        block pHead valueSize.toNat ((record - 1) * valueSize.toNat)
      else block pHead valueSize.toNat (record * valueSize.toNat) := by
  induction last generalizing pHead with
  | zero =>
      rw [vectInsertShift, if_neg (by omega)]
  | succ i ih =>
      unfold vectInsertShift
      by_cases more : i + 1 > index.toNat
      · have belowNext : i * valueSize.toNat < 2 ^ 32 :=
          lt_of_le_of_lt (Nat.mul_le_mul_right _ (Nat.le_succ i)) noWrap
        rw [if_pos more, toNat_ofNat_mul noWrap positive, toNat_ofNat_mul belowNext positive,
          ih _ belowNext (by omega), block_copyBlock, block_copyBlock]
        by_cases low : record ≤ index.toNat
        · rw [if_neg (by omega), if_neg (by omega), if_neg (by omega)]
        · by_cases middle : record ≤ i
          · rw [if_pos (by omega), if_neg (by omega), if_pos (by omega)]
          · by_cases top : record = i + 1
            · subst top
              rw [if_neg (by omega), if_pos rfl, if_pos (by omega), Nat.add_sub_cancel]
            · rw [if_neg (by omega), if_neg top, if_neg (by omega)]
      · rw [if_neg more, if_neg (by omega)]

theorem block_vectRemoveShift (valueSize : UInt32) (positive : 1 ≤ valueSize.toNat)
    (pHead : Nat → UInt8) (first rounds : Nat)
    (noWrap : (first + rounds) * valueSize.toNat < 2 ^ 32) (record : Nat) :
    block (vectRemoveShift valueSize pHead first rounds) valueSize.toNat (record * valueSize.toNat) =
      if first ≤ record ∧ record < first + rounds then
        block pHead valueSize.toNat ((record + 1) * valueSize.toNat)
      else block pHead valueSize.toNat (record * valueSize.toNat) := by
  induction rounds generalizing pHead first with
  | zero =>
      rw [vectRemoveShift, if_neg (by omega)]
  | succ rounds ih =>
      have firstBelow : first * valueSize.toNat < 2 ^ 32 :=
        lt_of_le_of_lt (Nat.mul_le_mul_right _ (by omega)) noWrap
      have nextBelow : (first + 1) * valueSize.toNat < 2 ^ 32 :=
        lt_of_le_of_lt (Nat.mul_le_mul_right _ (by omega)) noWrap
      rw [vectRemoveShift, toNat_ofNat_mul firstBelow positive, toNat_ofNat_mul nextBelow positive,
        ih _ (first + 1) (by rw [Nat.add_right_comm]; exact noWrap), block_copyBlock, block_copyBlock]
      by_cases low : record < first
      · rw [if_neg (by omega), if_neg (by omega), if_neg (by omega)]
      · by_cases bottom : record = first
        · subst bottom
          rw [if_neg (by omega), if_pos rfl, if_pos (by omega)]
        · by_cases middle : record < first + 1 + rounds
          · rw [if_pos (by omega), if_neg (by omega), if_pos (by omega)]
          · rw [if_neg (by omega), if_neg bottom, if_neg (by omega)]

section Records

variable {vector : Vector} (valid : vector.Valid)
include valid

theorem Vector.Valid.insert_record (index : UInt32) (pData : Nat → UInt8)
    (within : index.toNat ≤ vector.size.toNat) (room : vector.size.toNat + 1 ≤ vector.capacity.toNat) :
    Vector.Valid { vector with
        pHead := writeRun (vectInsertShift vector.valueSize index vector.pHead vector.size.toNat)
          (index * vector.valueSize).toNat pData vector.valueSize.toNat
        size := vector.size + 1 } ∧
      contents { vector with
          pHead := writeRun (vectInsertShift vector.valueSize index vector.pHead vector.size.toNat)
            (index * vector.valueSize).toNat pData vector.valueSize.toNat
          size := vector.size + 1 } =
        (contents vector).insertIdx index.toNat ((List.range vector.valueSize.toNat).map pData) := by
  have positive := valid.recordBytes
  have fits := valid.fits
  have measurable := valid.measurable
  have scaled := Nat.mul_le_mul_right vector.valueSize.toNat room
  have capacityBelow := vector.capacity.toNat_lt
  have sizeNat : (vector.size + 1).toNat = vector.size.toNat + 1 := by
    rw [UInt32.toNat_add, UInt32.toNat_one, Nat.mod_eq_of_lt (by omega)]
  have indexOffset := valid.offset (show index.toNat ≤ vector.capacity.toNat by omega)
  rw [UInt32.ofNat_toNat] at indexOffset
  have noWrap : vector.size.toNat * vector.valueSize.toNat < 2 ^ 32 := by
    rw [Nat.succ_mul] at scaled
    omega
  have insertedValid : Vector.Valid { vector with
      pHead := writeRun (vectInsertShift vector.valueSize index vector.pHead vector.size.toNat)
        (index * vector.valueSize).toNat pData vector.valueSize.toNat
      size := vector.size + 1 } :=
    ⟨positive, by dsimp only; rw [sizeNat]; exact room, fits, measurable⟩
  refine ⟨insertedValid, ?_⟩
  rw [insertedValid.contents_eq, valid.contents_eq]
  dsimp only
  rw [sizeNat, indexOffset]
  apply List.ext_getElem (by simp [List.length_insertIdx, within])
  intro record inside _
  simp only [List.length_map, List.length_range] at inside
  rw [List.getElem_insertIdx]
  simp only [List.getElem_map, List.getElem_range]
  rw [block_writeRun_at, block_vectInsertShift _ _ positive _ noWrap within]
  by_cases before : record < index.toNat
  · rw [dif_pos before, if_neg (by omega), if_neg (by omega)]
  · by_cases here : record = index.toNat
    · rw [dif_neg before, dif_pos here, if_pos here]
    · rw [dif_neg before, dif_neg here, if_neg here, if_pos (by omega)]

theorem vectInsert_spec (index : UInt32) (pData : Nat → UInt8) (allocOk : Bool)
    (within : index.toNat ≤ vector.size.toNat) (sizeRoom : vector.size.toNat + 1 < 2 ^ 32)
    (firstGrowth : vector.capacity = 0 → 10 * vector.valueSize.toNat < 2 ^ 32) :
    ((vectInsert vector index pData allocOk).1 = none →
        (vectInsert vector index pData allocOk).2 = vector) ∧
      ∀ dst, (vectInsert vector index pData allocOk).1 = some dst →
        dst = index.toNat * vector.valueSize.toNat ∧
        (vectInsert vector index pData allocOk).2.Valid ∧
        contents (vectInsert vector index pData allocOk).2 =
          (contents vector).insertIdx index.toNat ((List.range vector.valueSize.toNat).map pData) := by
  have checked : ¬(vector.size ≠ index ∧ vectIndexCheck vector index = false) := by
    rintro ⟨different, rejected⟩
    have below : index.toNat < vector.size.toNat :=
      lt_of_le_of_ne within fun same => different (UInt32.toNat_inj.mp same.symm)
    rw [valid.vectIndexCheck_of_lt below] at rejected
    cases rejected
  obtain ⟨unchanged, grown⟩ := vectInsertGrow_spec valid allocOk sizeRoom firstGrowth
  unfold vectInsert
  rw [if_neg checked]
  dsimp only
  cases ok : (vectInsertGrow vector allocOk).1
  · rw [if_neg Bool.false_ne_true]
    exact ⟨fun _ => rfl, fun _ never => by cases never⟩
  · rw [if_pos rfl]
    obtain ⟨grownValid, same, sizeSame, valueSizeSame, room⟩ := grown ok
    generalize (vectInsertGrow vector allocOk).2 = grownVector at grownValid same sizeSame valueSizeSame room
    rw [← sizeSame] at within room
    obtain ⟨insertedValid, inserted⟩ := grownValid.insert_record index pData within room
    refine ⟨fun never => (by cases never), fun dst returned => ?_⟩
    cases returned
    have indexOffset := grownValid.offset (show index.toNat ≤ grownVector.capacity.toNat by omega)
    rw [UInt32.ofNat_toNat] at indexOffset
    refine ⟨by rw [indexOffset, valueSizeSame], insertedValid, ?_⟩
    rw [inserted, same, valueSizeSame]

theorem vectAt_spec {index : UInt32} (below : index.toNat < vector.size.toNat) :
    vectAt vector index = some (index.toNat * vector.valueSize.toNat) ∧
      (contents vector)[index.toNat]? =
        some (block vector.pHead vector.valueSize.toNat (index.toNat * vector.valueSize.toNat)) := by
  have sizeLe := valid.sizeLe
  have indexOffset := valid.offset (show index.toNat ≤ vector.capacity.toNat by omega)
  rw [UInt32.ofNat_toNat] at indexOffset
  have nonempty : vector.size ≠ 0 := fun empty => by
    rw [empty, UInt32.toNat_zero] at below
    omega
  refine ⟨?_, by simp [valid.contents_eq, below]⟩
  unfold vectAt
  rw [if_neg (by rw [valid.vectIndexCheck_of_lt below]; simp [nonempty]), indexOffset]

theorem vectRemove_spec {index : UInt32} (below : index.toNat < vector.size.toNat) :
    (vectRemove vector index).Valid ∧
      contents (vectRemove vector index) = (contents vector).eraseIdx index.toNat := by
  have positive := valid.recordBytes
  have sizeLe := valid.sizeLe
  have fits := valid.fits
  have measurable := valid.measurable
  have scaled := Nat.mul_le_mul_right vector.valueSize.toNat sizeLe
  have lastNat : (vector.size - 1).toNat = vector.size.toNat - 1 := by
    rw [UInt32.toNat_sub_of_le _ _ (UInt32.le_iff_toNat_le.mpr (by rw [UInt32.toNat_one]; omega)),
      UInt32.toNat_one]
  have noWrap : (index.toNat + (vector.size.toNat - 1 - index.toNat)) * vector.valueSize.toNat < 2 ^ 32 :=
    lt_of_le_of_lt (Nat.mul_le_mul_right _
      (show index.toNat + (vector.size.toNat - 1 - index.toNat) ≤ vector.capacity.toNat by omega))
      (by omega)
  have removedValid : Vector.Valid { vector with
      pHead := vectRemoveShift vector.valueSize vector.pHead index.toNat
        ((vector.size - 1).toNat - index.toNat)
      size := vector.size - 1 } :=
    ⟨positive, by dsimp only; rw [lastNat]; omega, fits, measurable⟩
  unfold vectRemove
  rw [if_pos (valid.vectIndexCheck_of_lt below)]
  refine ⟨removedValid, ?_⟩
  rw [removedValid.contents_eq, valid.contents_eq]
  dsimp only
  rw [lastNat]
  apply List.ext_getElem (by simp [List.length_eraseIdx, below])
  intro record inside _
  simp only [List.length_map, List.length_range] at inside
  rw [List.getElem_eraseIdx]
  simp only [List.getElem_map, List.getElem_range]
  rw [block_vectRemoveShift _ positive _ _ _ noWrap]
  by_cases before : record < index.toNat
  · rw [dif_pos before, if_neg (by omega)]
  · rw [dif_neg before, if_pos (by omega)]

theorem vectReserve_spec (n : UInt32) (allocOk : Bool) :
    (vectReserve vector n allocOk).2.Valid ∧
      contents (vectReserve vector n allocOk).2 = contents vector ∧
      ((vectReserve vector n allocOk).1 ≠ .nvOk → (vectReserve vector n allocOk).2 = vector) := by
  unfold vectReserve
  split_ifs with positive larger
  · obtain ⟨unchanged, resized⟩ := vectReallocHelper_spec valid (n * vector.valueSize) allocOk
    generalize vectReallocHelper vector (n * vector.valueSize) (vector.size * vector.valueSize) allocOk =
      result at unchanged resized
    obtain ⟨ok, resizedVector⟩ := result
    cases ok with
    | false => exact ⟨valid, rfl, fun _ => rfl⟩
    | true =>
        obtain ⟨-, resizedValid, same, -⟩ := resized rfl
        exact ⟨resizedValid, same, fun failed => absurd rfl failed⟩
  · exact ⟨valid, rfl, fun _ => rfl⟩
  · exact ⟨valid, rfl, fun _ => rfl⟩

theorem vectTrim_spec (n : UInt32) (allocOk : Bool) :
    (vectTrim vector n allocOk).2.Valid ∧
      contents (vectTrim vector n allocOk).2 = contents vector ∧
      ((vectTrim vector n allocOk).1 ≠ .nvOk → (vectTrim vector n allocOk).2 = vector) := by
  unfold vectTrim
  by_cases larger : n > vector.capacity
  · rw [if_pos larger]
    exact ⟨valid, rfl, fun _ => rfl⟩
  · rw [if_neg larger]
    dsimp only
    generalize (if n < vector.size then vector.size else n) = kept
    obtain ⟨unchanged, resized⟩ := vectReallocHelper_spec valid (kept * vector.valueSize) allocOk
    generalize vectReallocHelper vector (kept * vector.valueSize) (vector.size * vector.valueSize) allocOk =
      result at unchanged resized
    obtain ⟨ok, resizedVector⟩ := result
    cases ok with
    | false => exact ⟨valid, rfl, fun _ => rfl⟩
    | true =>
        obtain ⟨-, resizedValid, same, -⟩ := resized rfl
        exact ⟨resizedValid, same, fun failed => absurd rfl failed⟩

end Records

end NvidiaGpu.Vect
