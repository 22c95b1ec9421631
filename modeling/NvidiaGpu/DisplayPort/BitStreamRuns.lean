import NvidiaGpu.DisplayPort.BitStream
import NvidiaGpu.Library.BitField

set_option autoImplicit false

/-! What the bit streams of `dp_bitstream.cpp` do to the bits of their buffer.
Seen through `Buffer.bitAt`, a `write` of `bits` bits replaces the field at the
writer's offset with the value, most significant bit first, on its fast path
inside one byte and on its bit-by-bit path alike, and a `read` inside the
reader's range returns the field at its offset.  Replaying a writer's calls with
a reader over the bits it wrote gives back every value it wrote. -/

namespace NvidiaGpu.DisplayPort

open BitField

/-! ## Word arithmetic -/

theorem toNat_toUInt32_of_lt {n : Nat} (small : n < 2 ^ 32) : n.toUInt32.toNat = n := by
  rw [Nat.toUInt32_eq, UInt32.toNat_ofNat', Nat.mod_eq_of_lt small]

theorem toNat_bit {k : Nat} (inside : k < 32) : ((1 : UInt32) <<< k.toUInt32).toNat = 2 ^ k := by
  have small : 2 ^ k < 2 ^ 32 := Nat.pow_lt_pow_right (by decide) inside
  rw [UInt32.toNat_shiftLeft, UInt32.toNat_one, toNat_toUInt32_of_lt (by omega), Nat.mod_eq_of_lt inside,
    Nat.one_shiftLeft, Nat.mod_eq_of_lt small]

theorem toNat_lowMask {k : Nat} (inside : k < 32) : ((1 : UInt32) <<< k.toUInt32 - 1).toNat = 2 ^ k - 1 := by
  have positive := Nat.two_pow_pos k
  rw [UInt32.toNat_sub_of_le _ _ (UInt32.le_iff_toNat_le.mpr (by rw [toNat_bit inside, UInt32.toNat_one]; omega)),
    toNat_bit inside, UInt32.toNat_one]

theorem testBit_shiftLeft32 (a : UInt32) {s q : Nat} (shift : s < 32) (inside : q < 32) :
    (a <<< s.toUInt32).toNat.testBit q = (decide (s ≤ q) && a.toNat.testBit (q - s)) := by
  rw [UInt32.toNat_shiftLeft, toNat_toUInt32_of_lt (by omega), Nat.mod_eq_of_lt shift, Nat.testBit_mod_two_pow,
    Nat.testBit_shiftLeft]
  simp [inside]

theorem testBit_not32 (a : UInt32) {q : Nat} (inside : q < 32) : (~~~a).toNat.testBit q = !a.toNat.testBit q := by
  rw [← UInt32.toNat_toBitVec, BitVec.testBit_toNat, UInt32.toBitVec_not, BitVec.getLsbD_not, ← BitVec.testBit_toNat,
    UInt32.toNat_toBitVec]
  simp [inside]

theorem toNat_shiftRight_and_one (value : UInt32) {n : Nat} (wide : n < 32 ∨ value = 0) :
    ((value >>> n.toUInt32) &&& 1).toNat = (value.toNat.testBit n).toNat := by
  rcases wide with inside | zero
  · rw [UInt32.toNat_and, UInt32.toNat_shiftRight, UInt32.toNat_one, Nat.and_one_is_mod, Nat.toNat_testBit,
      toNat_toUInt32_of_lt (by omega), Nat.mod_eq_of_lt inside, Nat.shiftRight_eq_div_pow]
  · subst zero
    simp

theorem accumulate_toUInt32 (value : UInt32) (bit rest field : Nat) :
    (value * 2 + bit.toUInt32) * rest.toUInt32 + field.toUInt32 =
      value * (rest * 2).toUInt32 + (bit * rest + field).toUInt32 := by
  simp only [Nat.toUInt32_eq, UInt32.ofNat_add, UInt32.ofNat_mul]
  have two : UInt32.ofNat 2 = 2 := rfl
  rw [two, UInt32.add_mul, UInt32.add_assoc, UInt32.mul_assoc, UInt32.mul_comm 2]

theorem testBit_mergeByte (byte : UInt8) (value : UInt32) {bits bottom : Nat} (fits : bottom + bits ≤ 8)
    (small : value.toNat < 2 ^ bits) {q : Nat} (inside : q < 8) :
    ((byte.toUInt32 &&& ~~~((((1 : UInt32) <<< bits.toUInt32) - 1) <<< bottom.toUInt32).toUInt8.toUInt32 |||
        value <<< bottom.toUInt32).toUInt8).toNat.testBit q =
      if bottom ≤ q ∧ q < bottom + bits then value.toNat.testBit (q - bottom) else byte.toNat.testBit q := by
  have clear : ((((1 : UInt32) <<< bits.toUInt32) - 1) <<< bottom.toUInt32).toUInt8.toUInt32.toNat.testBit q =
      (decide (bottom ≤ q) && decide (q - bottom < bits)) := by
    rw [UInt8.toNat_toUInt32, UInt32.toNat_toUInt8, Nat.testBit_mod_two_pow, testBit_shiftLeft32 _ (by omega) (by omega),
      toNat_lowMask (by omega), Nat.testBit_two_pow_sub_one]
    simp [inside]
  have shifted := testBit_shiftLeft32 value (s := bottom) (q := q) (by omega) (by omega)
  rw [UInt32.toNat_toUInt8, Nat.testBit_mod_two_pow, UInt32.toNat_or, Nat.testBit_or, UInt32.toNat_and, Nat.testBit_and,
    testBit_not32 _ (by omega), clear, shifted, UInt8.toNat_toUInt32]
  by_cases window : bottom ≤ q ∧ q < bottom + bits
  · rw [if_pos window]
    simp [window, inside, show q - bottom < bits by omega]
  · have high : bottom ≤ q → value.toNat.testBit (q - bottom) = false := fun low =>
      Nat.testBit_lt_two_pow (Nat.lt_of_lt_of_le small (Nat.pow_le_pow_right (by decide) (by omega)))
    rw [if_neg window]
    by_cases low : bottom ≤ q
    · simp [inside, low, high low, show ¬q - bottom < bits by omega]
    · simp [inside, low]

/-! ## Buffers -/

theorem Buffer.byteAt_resize {buffer : Buffer} {stopWriteAt : Nat} (grows : buffer.length ≤ stopWriteAt) (index : Nat) :
    (buffer.resize stopWriteAt).byteAt index = buffer.byteAt index := by
  unfold Buffer.resize Buffer.byteAt
  rw [List.take_of_length_le grows]
  by_cases old : index < buffer.length
  · rw [List.getD_append _ _ _ _ old]
  · rw [List.getD_append_right _ _ _ _ (by omega), List.getD_eq_default buffer 0 (by omega)]
    simp

theorem Buffer.length_resize {buffer : Buffer} {stopWriteAt : Nat} (grows : buffer.length ≤ stopWriteAt) :
    (buffer.resize stopWriteAt).length = stopWriteAt := by
  simp [Buffer.resize, List.take_of_length_le grows]
  omega

theorem Buffer.bitAt_resize {buffer : Buffer} {stopWriteAt : Nat} (grows : buffer.length ≤ stopWriteAt) :
    (buffer.resize stopWriteAt).bitAt = buffer.bitAt := by
  funext index
  simp only [Buffer.bitAt, Buffer.byteAt_resize grows]

theorem Buffer.byteAt_set (buffer : Buffer) (index : Nat) (byte : UInt8) (i : Nat) :
    Buffer.byteAt (buffer.set index byte) i = if i = index ∧ index < buffer.length then byte else buffer.byteAt i := by
  unfold Buffer.byteAt
  simp only [List.getD_eq_getElem?_getD, List.getElem?_set]
  by_cases same : i = index
  · subst same
    by_cases inside : i < buffer.length
    · simp [inside]
    · simp [inside]
  · simp [same, Ne.symm same]

theorem isPowerOfTwo_two_pow (n : Nat) : isPowerOfTwo (2 ^ n) = true := by
  rw [isPowerOfTwo, Nat.and_two_pow_sub_one_eq_mod, Nat.mod_self]
  simp

theorem add_two_pow_lt {p n : Nat} (below : (p + 2 ^ n) / 2 ^ n * 2 ^ n < 2 ^ 32) : p + 2 ^ n < 2 ^ 32 := by
  have positive := Nat.two_pow_pos n
  have past := Nat.lt_mul_div_succ (p + 2 ^ n) positive
  have once : 1 ≤ (p + 2 ^ n) / 2 ^ n := (Nat.le_div_iff_mul_le positive).mpr (by omega)
  have narrow : n < 32 := by
    by_contra wide
    have : 2 ^ 32 ≤ 2 ^ n := Nat.pow_le_pow_right (by decide) (by omega)
    have : 2 ^ n ≤ (p + 2 ^ n) / 2 ^ n * 2 ^ n := Nat.le_mul_of_pos_left _ once
    omega
  have whole : 2 ^ 32 = 2 ^ (32 - n) * 2 ^ n := by rw [← Nat.pow_add, Nat.sub_add_cancel narrow.le]
  have fewer : (p + 2 ^ n) / 2 ^ n < 2 ^ (32 - n) := Nat.lt_of_mul_lt_mul_right (whole ▸ below)
  calc p + 2 ^ n < 2 ^ n * ((p + 2 ^ n) / 2 ^ n + 1) := past
    _ ≤ 2 ^ n * 2 ^ (32 - n) := Nat.mul_le_mul_left _ fewer
    _ = 2 ^ 32 := by rw [whole, Nat.mul_comm]

/-! ## The calls a codec makes -/

/-- The calls a codec makes on a stream: a field of `bits` bits, or padding to a
multiple of `align`. -/
inductive StreamOp
  | write (value : UInt32) (bits : Nat)
  | align (align : Nat)
  deriving DecidableEq, Repr

/-- The calls the round trip is about: fields of at most 32 bits whose value
fits, and aligns to powers of two. -/
def StreamOp.Valid : StreamOp → Prop
  | .write value bits => bits ≤ 32 ∧ value.toNat < 2 ^ bits
  | .align alignment => ∃ n, alignment = 2 ^ n

def StreamOp.next (p : Nat) : StreamOp → Nat
  | .write _ bits => p + bits
  | .align alignment => if p % alignment != 0 then (p + alignment) / alignment * alignment else p

def StreamOp.written : StreamOp → Nat
  | .write value _ => value.toNat
  | .align _ => 0

theorem StreamOp.le_next {op : StreamOp} (valid : op.Valid) (p : Nat) : p ≤ op.next p := by
  cases op with
  | write value bits => exact Nat.le_add_right p bits
  | align alignment =>
      obtain ⟨n, rfl⟩ := valid
      have split := Nat.div_add_mod p (2 ^ n)
      have below := Nat.mod_lt p (Nat.two_pow_pos n)
      show p ≤ if p % 2 ^ n != 0 then (p + 2 ^ n) / 2 ^ n * 2 ^ n else p
      split
      · rw [Nat.add_div_right _ (Nat.two_pow_pos n), Nat.add_mul, Nat.one_mul, Nat.mul_comm]
        omega
      · exact Nat.le_refl p

theorem StreamOp.le_foldl_next {ops : List StreamOp} (valid : ∀ op ∈ ops, op.Valid) (p : Nat) :
    p ≤ ops.foldl StreamOp.next p := by
  induction ops generalizing p with
  | nil => exact Nat.le_refl p
  | cons op ops ih =>
      exact Nat.le_trans (StreamOp.le_next (valid op (List.mem_cons_self ..)) p)
        (ih (fun op mem => valid op (List.mem_cons_of_mem _ mem)) _)

/-! ## Writing -/

/-- A writer that can take `bits` more bits with none of the source's `unsigned`
sums wrapping: the offset after them, rounded up to a byte, and the buffer's
length in bits stay below `2^32`. -/
structure BitStreamWriter.Fits (writer : BitStreamWriter) (bits : Nat) : Prop where
  noWrap : writer.bitsOffset + bits + 7 < 2 ^ 32
  short : writer.targetBuffer.length < 2 ^ 29

section Writer

variable (writer : BitStreamWriter)

theorem BitStreamWriter.reserve_spec (bits : Nat) (fits : writer.Fits bits) :
    (writer.reserve bits).bitsOffset = writer.bitsOffset ∧
      (writer.reserve bits).targetBuffer.bitAt = writer.targetBuffer.bitAt ∧
      writer.bitsOffset + bits ≤ (writer.reserve bits).targetBuffer.length * 8 ∧
      (writer.reserve bits).targetBuffer.length < 2 ^ 29 := by
  have noWrap := fits.noWrap
  have short := fits.short
  unfold BitStreamWriter.reserve
  rw [Nat.mod_eq_of_lt (by omega : writer.bitsOffset + bits < 2 ^ 32),
    Nat.mod_eq_of_lt (by omega : writer.targetBuffer.length * 8 < 2 ^ 32), Nat.mod_eq_of_lt noWrap]
  split
  · rename_i longer
    have grows : writer.targetBuffer.length ≤ (writer.bitsOffset + bits + 7) / 8 := by omega
    refine ⟨rfl, Buffer.bitAt_resize grows, ?_, ?_⟩ <;> rw [Buffer.length_resize grows] <;> omega
  · exact ⟨rfl, rfl, by omega, short⟩

theorem BitStreamWriter.length_writeWithin (value : UInt32) (bits : Nat) :
    (writer.writeWithin value bits).targetBuffer.length = writer.targetBuffer.length :=
  List.length_set ..

theorem BitStreamWriter.writeWithin_spec (value : UInt32) {bits : Nat} (fits : bits ≤ 8 - writer.bitsOffset % 8)
    (room : bits = 0 ∨ writer.bitsOffset / 8 < writer.targetBuffer.length) (small : value.toNat < 2 ^ bits)
    (noWrap : writer.bitsOffset + bits < 2 ^ 32) :
    (writer.writeWithin value bits).bitsOffset = writer.bitsOffset + bits ∧
      (writer.writeWithin value bits).targetBuffer.bitAt =
        writeField writer.targetBuffer.bitAt writer.bitsOffset bits value.toNat := by
  refine ⟨Nat.mod_eq_of_lt noWrap, ?_⟩
  funext j
  unfold BitStreamWriter.writeWithin
  dsimp only
  rw [Buffer.bitAt, Buffer.byteAt_set]
  by_cases stored : j / 8 = writer.bitsOffset / 8 ∧ writer.bitsOffset / 8 < writer.targetBuffer.length
  · rw [if_pos stored, testBit_mergeByte _ _ (by omega) small (by omega), writeField]
    by_cases window : writer.bitsOffset ≤ j ∧ j < writer.bitsOffset + bits
    · rw [if_pos (by omega), if_pos window]
      congr 1
      omega
    · rw [if_neg (by omega), if_neg window, Buffer.bitAt, stored.1]
  · rw [if_neg stored, writeField, if_neg (by omega), Buffer.bitAt]

theorem BitStreamWriter.writeSerial_spec (value : UInt32) (count : Nat) (wide : count ≤ 32 ∨ value = 0)
    (fits : writer.Fits count) :
    (writer.writeSerial value count).bitsOffset = writer.bitsOffset + count ∧
      (writer.writeSerial value count).targetBuffer.bitAt =
        writeField writer.targetBuffer.bitAt writer.bitsOffset count value.toNat ∧
      (writer.writeSerial value count).targetBuffer.length < 2 ^ 29 := by
  induction count generalizing writer with
  | zero => exact ⟨by simp [BitStreamWriter.writeSerial], by simp [BitStreamWriter.writeSerial], fits.short⟩
  | succ count ih =>
      have noWrap := fits.noWrap
      obtain ⟨offset, buffer, room, short⟩ := writer.reserve_spec 1 ⟨by omega, fits.short⟩
      have bit := toNat_shiftRight_and_one value (n := count) (wide.imp (fun inside => by omega) id)
      obtain ⟨offset', buffer'⟩ := @BitStreamWriter.writeWithin_spec (writer.reserve 1)
        ((value >>> count.toUInt32) &&& 1) 1 (by omega) (Or.inr (by omega)) (by rw [bit]; exact Bool.toNat_lt _)
        (by omega)
      obtain ⟨offset'', buffer'', short''⟩ := ih ((writer.reserve 1).writeWithin ((value >>> count.toUInt32) &&& 1) 1)
        (wide.imp (fun inside => by omega) id)
        ⟨by rw [offset', offset]; omega, by rw [BitStreamWriter.length_writeWithin]; exact short⟩
      unfold BitStreamWriter.writeSerial
      refine ⟨by rw [offset'', offset', offset]; omega, ?_, short''⟩
      rw [buffer'', buffer', offset', buffer, offset, bit, writeField_succ]

theorem BitStreamWriter.write_spec (value : UInt32) (bits : Nat) (small : value.toNat < 2 ^ bits)
    (wide : bits ≤ 32 ∨ value = 0) (fits : writer.Fits bits) :
    (writer.write value bits).bitsOffset = writer.bitsOffset + bits ∧
      (writer.write value bits).targetBuffer.bitAt = writeField writer.targetBuffer.bitAt writer.bitsOffset bits value.toNat ∧
      (writer.write value bits).targetBuffer.length < 2 ^ 29 := by
  have noWrap := fits.noWrap
  obtain ⟨offset, buffer, room, short⟩ := writer.reserve_spec bits fits
  unfold BitStreamWriter.write
  dsimp only
  split
  · obtain ⟨offset', buffer'⟩ := @BitStreamWriter.writeWithin_spec (writer.reserve bits) value bits (by omega)
      (by omega) small (by omega)
    rw [offset', buffer', offset, buffer, BitStreamWriter.length_writeWithin]
    exact ⟨rfl, rfl, short⟩
  · obtain ⟨offset', buffer', short'⟩ := (writer.reserve bits).writeSerial_spec value bits wide
      ⟨by rw [offset]; exact noWrap, short⟩
    rw [offset', buffer', offset, buffer]
    exact ⟨rfl, rfl, short'⟩

theorem BitStreamWriter.align_two_pow (n : Nat) :
    writer.align (2 ^ n) =
      if writer.bitsOffset % 2 ^ n != 0 then writer.write 0 (2 ^ n - writer.bitsOffset % 2 ^ n) else writer := by
  rw [BitStreamWriter.align, isPowerOfTwo_two_pow, Nat.and_two_pow_sub_one_eq_mod]
  rfl

theorem BitStreamWriter.align_spec (n : Nat) (noWrap : (StreamOp.align (2 ^ n)).next writer.bitsOffset + 7 < 2 ^ 32)
    (short : writer.targetBuffer.length < 2 ^ 29) :
    (writer.align (2 ^ n)).bitsOffset = (StreamOp.align (2 ^ n)).next writer.bitsOffset ∧
      (writer.align (2 ^ n)).targetBuffer.bitAt =
        writeField writer.targetBuffer.bitAt writer.bitsOffset
          ((StreamOp.align (2 ^ n)).next writer.bitsOffset - writer.bitsOffset) 0 ∧
      (writer.align (2 ^ n)).targetBuffer.length < 2 ^ 29 := by
  rw [BitStreamWriter.align_two_pow]
  simp only [StreamOp.next] at noWrap ⊢
  split
  · rename_i unaligned
    rw [if_pos unaligned] at noWrap
    have boundary : writer.bitsOffset + (2 ^ n - writer.bitsOffset % 2 ^ n) =
        (writer.bitsOffset + 2 ^ n) / 2 ^ n * 2 ^ n := by
      have split := Nat.div_add_mod writer.bitsOffset (2 ^ n)
      have below := Nat.mod_lt writer.bitsOffset (Nat.two_pow_pos n)
      rw [Nat.add_div_right _ (Nat.two_pow_pos n), Nat.add_mul, Nat.one_mul, Nat.mul_comm]
      omega
    obtain ⟨offset, buffer, short'⟩ := writer.write_spec 0 (2 ^ n - writer.bitsOffset % 2 ^ n) (by simp) (Or.inr rfl)
      ⟨by omega, short⟩
    rw [offset, boundary, buffer, ← boundary, Nat.add_sub_cancel_left]
    exact ⟨rfl, rfl, short'⟩
  · rw [Nat.sub_self, writeField_zero]
    exact ⟨rfl, rfl, short⟩

end Writer

/-! ## Reading -/

section Reader

variable (reader : BitStreamReader)

theorem BitStreamReader.readWithin_spec {bits : Nat} (fits : bits ≤ 8 - reader.bitsOffset % 8)
    (noWrap : reader.bitsOffset + bits < 2 ^ 32) :
    (reader.readWithin bits).1.toNat = fieldValue reader.sourceBuffer.bitAt reader.bitsOffset bits ∧
      (reader.readWithin bits).2 = { reader with bitsOffset := reader.bitsOffset + bits } := by
  refine ⟨?_, by rw [BitStreamReader.readWithin, Nat.mod_eq_of_lt noWrap]⟩
  unfold BitStreamReader.readWithin
  dsimp only
  rw [UInt32.toNat_and, toNat_lowMask (by omega), Nat.and_two_pow_sub_one_eq_mod, UInt32.toNat_shiftRight,
    UInt8.toNat_toUInt32, toNat_toUInt32_of_lt (by omega), Nat.mod_eq_of_lt (by omega : 7 - reader.bitsOffset % 8 - (bits - 1) < 32)]
  apply Nat.eq_of_testBit_eq
  intro i
  rw [Nat.testBit_mod_two_pow, Nat.testBit_shiftRight, testBit_fieldValue]
  by_cases inside : i < bits
  · rw [decide_eq_true inside, Bool.true_and, Bool.true_and, Buffer.bitAt,
      show (reader.bitsOffset + bits - 1 - i) / 8 = reader.bitsOffset / 8 by omega]
    congr 1
    omega
  · simp [inside]

theorem BitStreamReader.readBit_eq (inside : reader.bitsOffset < reader.bitsEnd) :
    reader.readBit =
      some ((reader.sourceBuffer.bitAt reader.bitsOffset).toNat.toUInt32,
        { reader with bitsOffset := reader.bitsOffset + 1 }) := by
  have bounded := reader.bitsEnd_lt
  obtain ⟨value, next⟩ := @BitStreamReader.readWithin_spec reader 1 (by omega) (by omega)
  unfold BitStreamReader.readBit
  rw [if_neg (by omega), ← next]
  refine congrArg some (Prod.ext ?_ rfl)
  apply UInt32.toNat_inj.mp
  rw [value, toNat_toUInt32_of_lt (Nat.lt_of_lt_of_le (Bool.toNat_lt _) (by decide))]
  simp [fieldValue]

theorem BitStreamReader.readSerial_spec (count : Nat) (value : UInt32)
    (inside : reader.bitsOffset + count ≤ reader.bitsEnd) :
    reader.readSerial count value =
      some (value * (2 ^ count).toUInt32 + (fieldValue reader.sourceBuffer.bitAt reader.bitsOffset count).toUInt32,
        { reader with bitsOffset := reader.bitsOffset + count }) := by
  induction count generalizing reader value with
  | zero => simp [BitStreamReader.readSerial, fieldValue]
  | succ count ih =>
      unfold BitStreamReader.readSerial
      rw [reader.readBit_eq (by omega)]
      dsimp only
      rw [ih _ _ (by dsimp only; omega)]
      dsimp only
      rw [accumulate_toUInt32, ← Nat.pow_succ, ← fieldValue_succ_front,
        show reader.bitsOffset + 1 + count = reader.bitsOffset + (count + 1) by omega]

theorem BitStreamReader.read_spec {bits : Nat} (inside : reader.bitsOffset + bits ≤ reader.bitsEnd) :
    reader.read bits =
      some ((fieldValue reader.sourceBuffer.bitAt reader.bitsOffset bits).toUInt32,
        { reader with bitsOffset := reader.bitsOffset + bits }) := by
  have bounded := reader.bitsEnd_lt
  unfold BitStreamReader.read
  dsimp only
  rw [if_neg (by omega)]
  split
  · obtain ⟨value, next⟩ := @BitStreamReader.readWithin_spec reader bits (by omega) (by omega)
    rw [← next]
    refine congrArg some (Prod.ext ?_ rfl)
    apply UInt32.toNat_inj.mp
    have bounded := fieldValue_lt reader.sourceBuffer.bitAt reader.bitsOffset bits
    have small : 2 ^ bits ≤ 2 ^ 32 := Nat.pow_le_pow_right (by decide) (by omega)
    rw [value, toNat_toUInt32_of_lt (by omega)]
  · rw [reader.readSerial_spec bits 0 inside, UInt32.zero_mul, UInt32.zero_add]

theorem BitStreamReader.read_at_end {bits : Nat} (atEnd : reader.bitsOffset = reader.bitsEnd)
    (low : reader.bitsEnd + 8 < 2 ^ 32) (positive : 0 < bits) : reader.read bits = none := by
  unfold BitStreamReader.read
  dsimp only
  split
  · rfl
  · rename_i passes
    rw [if_neg (by omega)]
    obtain ⟨count, rfl⟩ : ∃ count, bits = count + 1 := ⟨bits - 1, by omega⟩
    unfold BitStreamReader.readSerial BitStreamReader.readBit
    rw [if_pos (by omega)]

theorem BitStreamReader.align_eq (n : Nat) (below : (StreamOp.align (2 ^ n)).next reader.bitsOffset < 2 ^ 32) :
    reader.align (2 ^ n) = { reader with bitsOffset := (StreamOp.align (2 ^ n)).next reader.bitsOffset } := by
  unfold BitStreamReader.align
  rw [isPowerOfTwo_two_pow, if_neg (by decide), Nat.and_two_pow_sub_one_eq_mod]
  simp only [StreamOp.next] at below ⊢
  split
  · rename_i unaligned
    rw [if_pos unaligned] at below
    have sum := add_two_pow_lt below
    have split := Nat.div_add_mod (reader.bitsOffset + 2 ^ n) (2 ^ n)
    rw [Nat.mul_comm] at split
    rw [Nat.mod_eq_of_lt sum, Nat.and_two_pow_sub_one_eq_mod,
      show reader.bitsOffset + 2 ^ n - (reader.bitsOffset + 2 ^ n) % 2 ^ n =
        (reader.bitsOffset + 2 ^ n) / 2 ^ n * 2 ^ n by omega]
  · rfl

end Reader

/-! ## Writing calls and replaying them -/

def BitStreamWriter.apply (writer : BitStreamWriter) : StreamOp → BitStreamWriter
  | .write value bits => writer.write value bits
  | .align align => writer.align align

def BitStreamWriter.run (writer : BitStreamWriter) (ops : List StreamOp) : BitStreamWriter :=
  ops.foldl BitStreamWriter.apply writer

/-- The reads that replay `ops`: a read of each field's width, an `align` for
each align; the values read, or `none` when a read fails. -/
def BitStreamReader.replay : BitStreamReader → List StreamOp → Option (List UInt32 × BitStreamReader)
  | reader, [] => some ([], reader)
  | reader, .write _ bits :: ops =>
      match reader.read bits with
      | none => none
      | some (value, reader) => (reader.replay ops).map fun (values, reader) => (value :: values, reader)
  | reader, .align align :: ops => (reader.align align).replay ops

def StreamOp.writtenValues : List StreamOp → List UInt32
  | [] => []
  | .write value _ :: ops => value :: writtenValues ops
  | .align _ :: ops => writtenValues ops

/-- One call moves the writer to `next` and writes its number over the bits it
passed. -/
theorem BitStreamWriter.apply_spec (writer : BitStreamWriter) {op : StreamOp} (valid : op.Valid)
    (noWrap : op.next writer.bitsOffset + 7 < 2 ^ 32) (short : writer.targetBuffer.length < 2 ^ 29) :
    (writer.apply op).bitsOffset = op.next writer.bitsOffset ∧
      (writer.apply op).targetBuffer.bitAt =
        writeField writer.targetBuffer.bitAt writer.bitsOffset (op.next writer.bitsOffset - writer.bitsOffset) op.written ∧
      (writer.apply op).targetBuffer.length < 2 ^ 29 := by
  cases op with
  | write value bits =>
      obtain ⟨wide, small⟩ := valid
      obtain ⟨offset, buffer, short'⟩ := writer.write_spec value bits small (Or.inl wide) ⟨noWrap, short⟩
      dsimp only [BitStreamWriter.apply, StreamOp.next, StreamOp.written]
      rw [buffer, Nat.add_sub_cancel_left]
      exact ⟨offset, rfl, short'⟩
  | align alignment =>
      obtain ⟨n, rfl⟩ := valid
      exact writer.align_spec n noWrap short

/-- Calls a writer makes with none of the source's `unsigned` sums wrapping:
valid calls whose offsets, counted without wrapping, stay below `2^32 - 7`, on
a buffer shorter than `2^29` bytes. -/
structure BitStreamWriter.FitsRun (writer : BitStreamWriter) (ops : List StreamOp) : Prop where
  valid : ∀ op ∈ ops, op.Valid
  noWrap : ops.foldl StreamOp.next writer.bitsOffset + 7 < 2 ^ 32
  short : writer.targetBuffer.length < 2 ^ 29

section FitsRun

variable {writer : BitStreamWriter} {op : StreamOp} {ops : List StreamOp}

theorem BitStreamWriter.FitsRun.head (fits : writer.FitsRun (op :: ops)) :
    op.Valid ∧ op.next writer.bitsOffset + 7 < 2 ^ 32 := by
  have later := StreamOp.le_foldl_next (fun op mem => fits.valid op (List.mem_cons_of_mem _ mem))
    (op.next writer.bitsOffset)
  have noWrap := fits.noWrap
  rw [List.foldl_cons] at noWrap
  exact ⟨fits.valid op (List.mem_cons_self ..), by omega⟩

theorem BitStreamWriter.FitsRun.tail (fits : writer.FitsRun (op :: ops)) : (writer.apply op).FitsRun ops := by
  obtain ⟨offset, -, short⟩ := writer.apply_spec fits.head.1 fits.head.2 fits.short
  have noWrap := fits.noWrap
  rw [List.foldl_cons, ← offset] at noWrap
  exact ⟨fun op mem => fits.valid op (List.mem_cons_of_mem _ mem), noWrap, short⟩

/-- Where a run of calls that fits ends, and what its first call does. -/
theorem BitStreamWriter.FitsRun.apply_spec (fits : writer.FitsRun (op :: ops)) :
    (writer.apply op).bitsOffset = op.next writer.bitsOffset ∧
      (writer.apply op).targetBuffer.bitAt =
        writeField writer.targetBuffer.bitAt writer.bitsOffset (op.next writer.bitsOffset - writer.bitsOffset) op.written :=
  let ⟨offset, buffer, _⟩ := writer.apply_spec fits.head.1 fits.head.2 fits.short
  ⟨offset, buffer⟩

theorem BitStreamWriter.FitsRun.left {post : List StreamOp} (fits : writer.FitsRun (ops ++ post)) :
    writer.FitsRun ops := by
  have later := StreamOp.le_foldl_next (fun op mem => fits.valid op (List.mem_append_right ops mem))
    (ops.foldl StreamOp.next writer.bitsOffset)
  have noWrap := fits.noWrap
  rw [List.foldl_append] at noWrap
  exact ⟨fun op mem => fits.valid op (List.mem_append_left post mem), by omega, fits.short⟩

theorem BitStreamWriter.FitsRun.run {post : List StreamOp} (fits : writer.FitsRun (ops ++ post)) :
    (writer.run ops).FitsRun post := by
  induction ops generalizing writer with
  | nil => exact fits
  | cons op ops ih => exact ih fits.tail

end FitsRun

theorem BitStreamWriter.bitsOffset_run (writer : BitStreamWriter) {ops : List StreamOp} (fits : writer.FitsRun ops) :
    (writer.run ops).bitsOffset = ops.foldl StreamOp.next writer.bitsOffset := by
  induction ops generalizing writer with
  | nil => rfl
  | cons op ops ih =>
      change ((writer.apply op).run ops).bitsOffset = _
      rw [ih (writer.apply op) fits.tail, fits.apply_spec.1]
      rfl

theorem BitStreamWriter.le_run (writer : BitStreamWriter) {ops : List StreamOp} (fits : writer.FitsRun ops) :
    writer.bitsOffset ≤ (writer.run ops).bitsOffset := by
  rw [writer.bitsOffset_run fits]
  exact StreamOp.le_foldl_next fits.valid _

theorem BitStreamWriter.run_frame (writer : BitStreamWriter) {ops : List StreamOp} (fits : writer.FitsRun ops) (j : Nat)
    (outside : j < writer.bitsOffset ∨ (writer.run ops).bitsOffset ≤ j) :
    (writer.run ops).targetBuffer.bitAt j = writer.targetBuffer.bitAt j := by
  induction ops generalizing writer with
  | nil => rfl
  | cons op ops ih =>
      obtain ⟨offset, buffer⟩ := fits.apply_spec
      have moves := StreamOp.le_next fits.head.1 writer.bitsOffset
      have later := (writer.apply op).le_run fits.tail
      change j < writer.bitsOffset ∨ ((writer.apply op).run ops).bitsOffset ≤ j at outside
      change ((writer.apply op).run ops).targetBuffer.bitAt j = _
      rw [ih (writer.apply op) fits.tail (by omega), buffer]
      rcases outside with before | after
      · exact writeField_of_lt _ _ _ _ before
      · exact writeField_of_le _ _ _ _ (by omega)

theorem BitStreamWriter.fieldValue_run_write (writer : BitStreamWriter) {ops : List StreamOp} {value : UInt32}
    {bits : Nat} (fits : writer.FitsRun (.write value bits :: ops)) :
    fieldValue ((writer.apply (.write value bits)).run ops).targetBuffer.bitAt writer.bitsOffset bits = value.toNat := by
  obtain ⟨offset, buffer⟩ := fits.apply_spec
  have next : (writer.apply (.write value bits)).bitsOffset = writer.bitsOffset + bits := offset
  calc fieldValue ((writer.apply (.write value bits)).run ops).targetBuffer.bitAt writer.bitsOffset bits
      = fieldValue (writer.apply (.write value bits)).targetBuffer.bitAt writer.bitsOffset bits :=
        fieldValue_congr bits fun j _ high => (writer.apply (.write value bits)).run_frame fits.tail j (by omega)
    _ = value.toNat := by
        rw [buffer]
        simp only [StreamOp.next, StreamOp.written, Nat.add_sub_cancel_left]
        exact fieldValue_writeField _ _ _ _ fits.head.1.2

theorem BitStreamWriter.replay_run (writer : BitStreamWriter) (reader : BitStreamReader) {ops : List StreamOp}
    (fits : writer.FitsRun ops) (start : reader.bitsOffset = writer.bitsOffset)
    (room : (writer.run ops).bitsOffset ≤ reader.bitsEnd)
    (same : ∀ j, writer.bitsOffset ≤ j → j < (writer.run ops).bitsOffset →
      reader.sourceBuffer.bitAt j = (writer.run ops).targetBuffer.bitAt j) :
    reader.replay ops = some (StreamOp.writtenValues ops, { reader with bitsOffset := (writer.run ops).bitsOffset }) := by
  induction ops generalizing writer reader with
  | nil =>
      change some ([], reader) = some ([], { reader with bitsOffset := writer.bitsOffset })
      rw [← start]
  | cons op ops ih =>
      have offset := fits.apply_spec.1
      have later := (writer.apply op).le_run fits.tail
      change ((writer.apply op).run ops).bitsOffset ≤ reader.bitsEnd at room
      change ∀ j, writer.bitsOffset ≤ j → j < ((writer.apply op).run ops).bitsOffset →
        reader.sourceBuffer.bitAt j = ((writer.apply op).run ops).targetBuffer.bitAt j at same
      change _ = some (_, { reader with bitsOffset := ((writer.apply op).run ops).bitsOffset })
      cases op with
      | write value bits =>
          have next : (writer.apply (.write value bits)).bitsOffset = writer.bitsOffset + bits := offset
          have read := @BitStreamReader.read_spec reader bits (by omega)
          have field : fieldValue reader.sourceBuffer.bitAt reader.bitsOffset bits = value.toNat := by
            rw [start, ← writer.fieldValue_run_write fits]
            exact fieldValue_congr bits fun j low high => same j low (by omega)
          have back : value.toNat.toUInt32 = value := UInt32.toNat_inj.mp (toNat_toUInt32_of_lt value.toNat_lt)
          have fromReader : (writer.apply (.write value bits)).bitsOffset = reader.bitsOffset + bits := by
            rw [next, start]
          unfold BitStreamReader.replay
          rw [read]
          dsimp only
          rw [field, back, ih (writer.apply (.write value bits)) { reader with bitsOffset := reader.bitsOffset + bits }
            fits.tail fromReader.symm room (fun j low high => same j (by omega) high)]
          rfl
      | align alignment =>
          obtain ⟨n, rfl⟩ := fits.head.1
          have moves := StreamOp.le_next fits.head.1 writer.bitsOffset
          have next : (writer.apply (.align (2 ^ n))).bitsOffset = (StreamOp.align (2 ^ n)).next reader.bitsOffset := by
            rw [offset, start]
          unfold BitStreamReader.replay
          rw [reader.align_eq n (by rw [← next]; have := reader.bitsEnd_lt; omega),
            ih (writer.apply (.align (2 ^ n))) { reader with bitsOffset := (StreamOp.align (2 ^ n)).next reader.bitsOffset }
              fits.tail next.symm room (fun j low high => same j (by omega) high)]
          rfl

/-! ## Reading a run back call by call -/

theorem BitStreamWriter.run_append (writer : BitStreamWriter) (first second : List StreamOp) :
    writer.run (first ++ second) = (writer.run first).run second :=
  List.foldl_append

theorem BitStreamWriter.run_singleton (writer : BitStreamWriter) (op : StreamOp) : writer.run [op] = writer.apply op :=
  rfl

/-- A reader that sees the bits a run of `ops` wrote below where the run ends,
has room for all of them, and stands where the calls `pre` of the run left the
writer. -/
structure BitStreamReader.Follows (reader : BitStreamReader) (writer : BitStreamWriter) (ops pre : List StreamOp) :
    Prop where
  fits : writer.FitsRun ops
  offset : reader.bitsOffset = (writer.run pre).bitsOffset
  room : (writer.run ops).bitsOffset ≤ reader.bitsEnd
  same : ∀ j < (writer.run ops).bitsOffset, reader.sourceBuffer.bitAt j = (writer.run ops).targetBuffer.bitAt j

section Follows

variable {reader : BitStreamReader} {writer : BitStreamWriter} {ops pre post : List StreamOp}

theorem BitStreamReader.Follows.readOrDefault {value : UInt32} {bits : Nat} (follows : reader.Follows writer ops pre)
    (split : ops = pre ++ .write value bits :: post) (defaultValue : UInt32) :
    reader.readOrDefault bits defaultValue = (value, { reader with bitsOffset := reader.bitsOffset + bits }) ∧
      BitStreamReader.Follows { reader with bitsOffset := reader.bitsOffset + bits } writer ops
        (pre ++ [.write value bits]) := by
  have fits : (writer.run pre).FitsRun (.write value bits :: post) := (split ▸ follows.fits).run
  have whole : writer.run ops = ((writer.run pre).apply (.write value bits)).run post := by
    rw [split, BitStreamWriter.run_append]
    rfl
  have next : (writer.run (pre ++ [.write value bits])).bitsOffset = reader.bitsOffset + bits := by
    rw [BitStreamWriter.run_append, BitStreamWriter.run_singleton, follows.offset]
    exact fits.apply_spec.1
  have later : (writer.run (pre ++ [.write value bits])).bitsOffset ≤ (writer.run ops).bitsOffset := by
    rw [whole, BitStreamWriter.run_append, BitStreamWriter.run_singleton]
    exact BitStreamWriter.le_run _ fits.tail
  have field : fieldValue reader.sourceBuffer.bitAt reader.bitsOffset bits = value.toNat := by
    rw [fieldValue_congr bits fun j _ high => follows.same j (by omega), whole, follows.offset]
    exact (writer.run pre).fieldValue_run_write fits
  have back : value.toNat.toUInt32 = value := UInt32.toNat_inj.mp (toNat_toUInt32_of_lt value.toNat_lt)
  have room := follows.room
  refine ⟨?_, ⟨follows.fits, next.symm, room, follows.same⟩⟩
  rw [BitStreamReader.readOrDefault, reader.read_spec (by omega), field, back, Option.getD_some]

/-- At an `align` of the run, the reader's `align` skips the padding and moves
on to the next call. -/
theorem BitStreamReader.Follows.align {alignment : Nat} (follows : reader.Follows writer ops pre)
    (split : ops = pre ++ .align alignment :: post) :
    reader.align alignment = { reader with bitsOffset := (StreamOp.align alignment).next reader.bitsOffset } ∧
      BitStreamReader.Follows { reader with bitsOffset := (StreamOp.align alignment).next reader.bitsOffset } writer ops
        (pre ++ [.align alignment]) := by
  have fits : (writer.run pre).FitsRun (.align alignment :: post) := (split ▸ follows.fits).run
  have next : (writer.run (pre ++ [.align alignment])).bitsOffset =
      (StreamOp.align alignment).next reader.bitsOffset := by
    rw [BitStreamWriter.run_append, BitStreamWriter.run_singleton, fits.apply_spec.1, follows.offset]
  obtain ⟨n, rfl⟩ := fits.head.1
  have below := fits.head.2
  rw [← follows.offset] at below
  exact ⟨reader.align_eq n (by omega), follows.fits, next.symm, follows.room, follows.same⟩

theorem BitStreamReader.Follows.readOrDefault_next {value : UInt32} {bits : Nat}
    (follows : reader.Follows writer (pre ++ .write value bits :: post) pre) (defaultValue : UInt32) :
    reader.readOrDefault bits defaultValue = (value, { reader with bitsOffset := reader.bitsOffset + bits }) ∧
      BitStreamReader.Follows { reader with bitsOffset := reader.bitsOffset + bits } writer
        (pre ++ [.write value bits] ++ post) (pre ++ [.write value bits]) := by
  obtain ⟨read, next⟩ := follows.readOrDefault rfl defaultValue
  rw [List.append_cons] at next
  exact ⟨read, next⟩

theorem BitStreamReader.Follows.align_next {alignment : Nat}
    (follows : reader.Follows writer (pre ++ .align alignment :: post) pre) :
    reader.align alignment = { reader with bitsOffset := (StreamOp.align alignment).next reader.bitsOffset } ∧
      BitStreamReader.Follows { reader with bitsOffset := (StreamOp.align alignment).next reader.bitsOffset } writer
        (pre ++ [.align alignment] ++ post) (pre ++ [.align alignment]) := by
  obtain ⟨aligned, next⟩ := follows.align rfl
  rw [List.append_cons] at next
  exact ⟨aligned, next⟩

end Follows

/-! ## Bytes and buffer lengths -/

theorem Buffer.fieldValue_byte (buffer : Buffer) (k : Nat) : fieldValue buffer.bitAt (8 * k) 8 = (buffer.byteAt k).toNat := by
  apply Nat.eq_of_testBit_eq
  intro i
  rw [testBit_fieldValue]
  by_cases inside : i < 8
  · rw [decide_eq_true inside, Bool.true_and, Buffer.bitAt, show (8 * k + 8 - 1 - i) / 8 = k by omega,
      show 7 - (8 * k + 8 - 1 - i) % 8 = i by omega]
  · have small : (buffer.byteAt k).toNat < 2 ^ i :=
      Nat.lt_of_lt_of_le (buffer.byteAt k).toNat_lt (Nat.pow_le_pow_right (by decide) (by omega))
    simp [inside, Nat.testBit_lt_two_pow small]

theorem BitStreamWriter.byteAt_run_write (writer : BitStreamWriter) {pre post : List StreamOp} {value : UInt32} {k : Nat}
    (fits : writer.FitsRun (pre ++ .write value 8 :: post)) (aligned : (writer.run pre).bitsOffset = 8 * k) :
    ((writer.run (pre ++ .write value 8 :: post)).targetBuffer.byteAt k).toNat = value.toNat := by
  rw [← Buffer.fieldValue_byte, ← aligned, BitStreamWriter.run_append]
  exact (writer.run pre).fieldValue_run_write fits.run

theorem BitStreamWriter.length_reserve (writer : BitStreamWriter) (bits : Nat) (fits : writer.Fits bits) :
    (writer.reserve bits).targetBuffer.length = max writer.targetBuffer.length ((writer.bitsOffset + bits + 7) / 8) := by
  have noWrap := fits.noWrap
  have short := fits.short
  unfold BitStreamWriter.reserve
  rw [Nat.mod_eq_of_lt (by omega : writer.bitsOffset + bits < 2 ^ 32),
    Nat.mod_eq_of_lt (by omega : writer.targetBuffer.length * 8 < 2 ^ 32), Nat.mod_eq_of_lt noWrap]
  split
  · rw [Buffer.length_resize (by omega)]
    omega
  · omega

theorem BitStreamWriter.length_writeSerial (writer : BitStreamWriter) (value : UInt32) (count : Nat)
    (fits : writer.Fits count) (covers : (writer.bitsOffset + 7) / 8 ≤ writer.targetBuffer.length) :
    (writer.writeSerial value count).targetBuffer.length =
      max writer.targetBuffer.length ((writer.bitsOffset + count + 7) / 8) := by
  induction count generalizing writer with
  | zero => simp only [BitStreamWriter.writeSerial]; omega
  | succ count ih =>
      have noWrap := fits.noWrap
      have first : writer.Fits 1 := ⟨by omega, fits.short⟩
      obtain ⟨offset, -, -, short⟩ := writer.reserve_spec 1 first
      have grown := writer.length_reserve 1 first
      have next : ((writer.reserve 1).writeWithin ((value >>> count.toUInt32) &&& 1) 1).bitsOffset =
          writer.bitsOffset + 1 := by
        change ((writer.reserve 1).bitsOffset + 1) % 2 ^ 32 = _
        rw [offset]
        omega
      have covers' : (((writer.reserve 1).writeWithin ((value >>> count.toUInt32) &&& 1) 1).bitsOffset + 7) / 8 ≤
          ((writer.reserve 1).writeWithin ((value >>> count.toUInt32) &&& 1) 1).targetBuffer.length := by
        rw [BitStreamWriter.length_writeWithin, next]
        omega
      rw [BitStreamWriter.writeSerial, ih _ ⟨by rw [next]; omega, by rw [BitStreamWriter.length_writeWithin]; exact short⟩
        covers', BitStreamWriter.length_writeWithin, grown, next]
      omega

theorem BitStreamWriter.length_write (writer : BitStreamWriter) (value : UInt32) (bits : Nat) (fits : writer.Fits bits) :
    (writer.write value bits).targetBuffer.length = max writer.targetBuffer.length ((writer.bitsOffset + bits + 7) / 8) := by
  obtain ⟨offset, -, -, short⟩ := writer.reserve_spec bits fits
  have grown := writer.length_reserve bits fits
  unfold BitStreamWriter.write
  dsimp only
  split
  · rw [BitStreamWriter.length_writeWithin, grown]
  · rw [BitStreamWriter.length_writeSerial _ _ _ ⟨by rw [offset]; exact fits.noWrap, short⟩ (by omega), grown, offset]
    omega

theorem BitStreamWriter.length_run (writer : BitStreamWriter) {ops : List StreamOp} (fits : writer.FitsRun ops)
    (covers : (writer.bitsOffset + 7) / 8 ≤ writer.targetBuffer.length) :
    (writer.run ops).targetBuffer.length = max writer.targetBuffer.length (((writer.run ops).bitsOffset + 7) / 8) := by
  induction ops generalizing writer with
  | nil => change writer.targetBuffer.length = max _ ((writer.bitsOffset + 7) / 8); omega
  | cons op ops ih =>
      have moves := StreamOp.le_next fits.head.1 writer.bitsOffset
      have offset := fits.apply_spec.1
      have noWrap := fits.head.2
      have step : (writer.apply op).targetBuffer.length =
          max writer.targetBuffer.length (((writer.apply op).bitsOffset + 7) / 8) := by
        cases op with
        | write value bits =>
            rw [offset]
            exact writer.length_write value bits ⟨noWrap, fits.short⟩
        | align alignment =>
            obtain ⟨n, rfl⟩ := fits.head.1
            change (writer.align (2 ^ n)).targetBuffer.length = _
            rw [offset, BitStreamWriter.align_two_pow]
            simp only [StreamOp.next] at noWrap ⊢
            split
            · rename_i unaligned
              rw [if_pos unaligned] at noWrap
              have split := Nat.div_add_mod writer.bitsOffset (2 ^ n)
              have below := Nat.mod_lt writer.bitsOffset (Nat.two_pow_pos n)
              have boundary : writer.bitsOffset + (2 ^ n - writer.bitsOffset % 2 ^ n) =
                  (writer.bitsOffset + 2 ^ n) / 2 ^ n * 2 ^ n := by
                rw [Nat.add_div_right _ (Nat.two_pow_pos n), Nat.add_mul, Nat.one_mul, Nat.mul_comm]
                omega
              rw [BitStreamWriter.length_write _ _ _ ⟨by omega, fits.short⟩, boundary]
            · omega
      have rest := ih (writer.apply op) fits.tail (by omega)
      have later := (writer.apply op).le_run fits.tail
      change ((writer.apply op).run ops).targetBuffer.length = max _ ((((writer.apply op).run ops).bitsOffset + 7) / 8)
      rw [rest, step]
      omega

/-! ## The round trip -/

def roundTripWriter (buffer : Buffer) (o : Nat) (ops : List StreamOp) : BitStreamWriter :=
  BitStreamWriter.run { targetBuffer := buffer, bitsOffset := o } ops

/-- `BitStreamReader(buffer, o, W - o)` over the written buffer, `W` the writer's
final offset and the difference an `unsigned`. -/
def roundTripReader (buffer : Buffer) (o : Nat) (ops : List StreamOp) : BitStreamReader :=
  BitStreamReader.init (roundTripWriter buffer o ops).targetBuffer o
    (((roundTripWriter buffer o ops).bitsOffset + 2 ^ 32 - o) % 2 ^ 32)

/-- Replaying the writer's calls reads back every value, most significant bit
first; the reader then has no bit left; and the bits of the old buffer before
`o` and from `W` on are unchanged: for calls that end below bit `2^32 - 8` on a
buffer shorter than `2^29` bytes, where no `unsigned` sum of either stream
wraps. -/
theorem bitStream_roundTrip (buffer : Buffer) (o : Nat) (ops : List StreamOp) (valid : ∀ op ∈ ops, op.Valid)
    (noWrap : ops.foldl StreamOp.next o + 8 < 2 ^ 32) (short : buffer.length < 2 ^ 29) :
    ∃ reader, (roundTripReader buffer o ops).replay ops = some (StreamOp.writtenValues ops, reader) ∧
      (∀ bits, 0 < bits → reader.read bits = none) ∧
      ∀ j, j < buffer.length * 8 → j < o ∨ (roundTripWriter buffer o ops).bitsOffset ≤ j →
        (roundTripWriter buffer o ops).targetBuffer.bitAt j = buffer.bitAt j := by
  have fits : BitStreamWriter.FitsRun { targetBuffer := buffer, bitsOffset := o } ops :=
    ⟨valid, show ops.foldl StreamOp.next o + 7 < 2 ^ 32 by omega, short⟩
  have final : (roundTripWriter buffer o ops).bitsOffset = ops.foldl StreamOp.next o :=
    BitStreamWriter.bitsOffset_run _ fits
  have grows := StreamOp.le_foldl_next valid o
  have start : (roundTripReader buffer o ops).bitsOffset = o := by
    simp only [roundTripReader, BitStreamReader.init]
    omega
  have ending : (roundTripReader buffer o ops).bitsEnd = (roundTripWriter buffer o ops).bitsOffset := by
    simp only [roundTripReader, BitStreamReader.init]
    omega
  refine ⟨{ roundTripReader buffer o ops with bitsOffset := (roundTripWriter buffer o ops).bitsOffset }, ?_, ?_, ?_⟩
  · exact BitStreamWriter.replay_run _ (roundTripReader buffer o ops) fits start ending.ge (fun _ _ _ => rfl)
  · intro bits positive
    exact BitStreamReader.read_at_end _ ending.symm (by rw [ending, final]; exact noWrap) positive
  · intro j _ outside
    exact BitStreamWriter.run_frame _ fits j outside

/-- A 3-bit field from bit 3, padding to the byte, then a 9-bit field across two
bytes. -/
def sampleOps : List StreamOp := [.write 5 3, .align 8, .write 0x1A5 9]

theorem sampleOps_roundTrip :
    ∃ reader, (roundTripReader [0xFF, 0x0F] 3 sampleOps).replay sampleOps = some ([5, 0x1A5], reader) ∧
      (∀ bits, 0 < bits → reader.read bits = none) ∧
      ∀ j, j < 2 * 8 → j < 3 ∨ (roundTripWriter [0xFF, 0x0F] 3 sampleOps).bitsOffset ≤ j →
        (roundTripWriter [0xFF, 0x0F] 3 sampleOps).targetBuffer.bitAt j = Buffer.bitAt [0xFF, 0x0F] j := by
  have valid : ∀ op ∈ sampleOps, op.Valid := by
    intro op mem
    simp only [sampleOps, List.mem_cons, List.not_mem_nil, or_false] at mem
    rcases mem with rfl | rfl | rfl
    · exact ⟨by decide, by decide⟩
    · exact ⟨3, rfl⟩
    · exact ⟨by decide, by decide⟩
  exact bitStream_roundTrip [0xFF, 0x0F] 3 sampleOps valid (by decide) (by decide)

/-- A byte written from bit `2^32 - 4` of an empty buffer wraps.  The `resize`
before its first bit takes the buffer back to no bytes; its first four bits go
to byte `2^29 - 1`, past the buffer (lost here, written past the buffer in the
source), and its last four to the top of byte 0.  The writer ends at bit 4, and
`BitStreamReader(buffer, 2^32 - 4, 8)` fails to read the byte. -/
theorem bitStream_wraps_at_top :
    (((⟨[], 2 ^ 32 - 4⟩ : BitStreamWriter).reserve 8).reserve 1).targetBuffer = [] ∧
      roundTripWriter [] (2 ^ 32 - 4) [.write 0xAB 8] = ⟨[0xB0], 4⟩ ∧
      (roundTripReader [] (2 ^ 32 - 4) [.write 0xAB 8]).replay [.write 0xAB 8] = none := by
  decide

end NvidiaGpu.DisplayPort
