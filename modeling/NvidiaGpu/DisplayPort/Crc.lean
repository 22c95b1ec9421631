import NvidiaGpu.DisplayPort.BitStreamRuns
import NvidiaGpu.Library.Gf2

set_option autoImplicit false

/-! What the CRCs of `dp_crc.cpp` compute.  Read below bit `k`, the 32-bit
register of the bit-serial loop is the remainder of the bits read so far
modulo the generator, so after the `k` flushing shifts it holds the remainder of
the message times `X^k`.  The bits above `k` are not kept clear (the body CRC's
`0xD5` leaves bit 8 set and the shifts carry it up), but nothing reads them: the
test of bit `k` sees bit `k - 1` of the step before, and the result is masked. -/

namespace NvidiaGpu.DisplayPort

open Polynomial Gf2

/-! ## The bits a reader presents -/

def BitStreamReader.message (reader : BitStreamReader) : List Nat :=
  (List.range' reader.bitsOffset (reader.bitsEnd - reader.bitsOffset)).map fun index =>
    (reader.sourceBuffer.bitAt index).toNat

theorem BitStreamReader.lt_two_of_mem_message {reader : BitStreamReader} {bit : Nat} (mem : bit ∈ reader.message) :
    bit < 2 := by
  obtain ⟨index, -, rfl⟩ := List.mem_map.mp mem
  exact Bool.toNat_lt _

/-- A reader over the range `[bitsOffset, bitsEnd)` that ends below bit
`2^32 - 1`, where its one-bit reads stop. -/
def BitStreamReader.InRange (reader : BitStreamReader) : Prop :=
  reader.bitsOffset ≤ reader.bitsEnd ∧ reader.bitsEnd < 2 ^ 32 - 1

theorem BitStreamReader.message_init (buffer : Buffer) {offset count : Nat} (noWrap : offset + count < 2 ^ 32) :
    (BitStreamReader.init buffer offset count).message =
      (List.range' offset count).map fun index => (buffer.bitAt index).toNat := by
  simp only [BitStreamReader.message, BitStreamReader.init]
  rw [Nat.mod_eq_of_lt (by omega), Nat.mod_eq_of_lt (by omega), Nat.add_sub_cancel]

theorem BitStreamReader.inRange_init (buffer : Buffer) {offset count : Nat} (noWrap : offset + count < 2 ^ 32 - 1) :
    (BitStreamReader.init buffer offset count).InRange := by
  simp only [BitStreamReader.InRange, BitStreamReader.init]
  omega

theorem BitStreamReader.readBit_of_top (reader : BitStreamReader) (top : reader.bitsEnd = 2 ^ 32 - 1) :
    ∃ bit, reader.readBit = some (bit, { reader with bitsOffset := (reader.bitsOffset + 1) % 2 ^ 32 }) := by
  unfold BitStreamReader.readBit
  rw [if_neg (by omega)]
  exact ⟨_, rfl⟩

/-! ## The register, bit by bit -/

theorem testBit_toNat (x : UInt32) (i : Nat) : x.toNat.testBit i = x.toBitVec.getLsbD i := by
  rw [← UInt32.toNat_toBitVec, BitVec.testBit_toNat]

theorem testBit_shiftIn (R b : UInt32) (bit : b.toNat < 2) {i : Nat} (inside : i < 32) :
    ((R <<< 1) ||| b).toNat.testBit i = if i = 0 then decide (b.toNat = 1) else R.toNat.testBit (i - 1) := by
  have low : b.toBitVec.getLsbD i = (decide (i = 0) && decide (b.toNat = 1)) := by
    rw [← testBit_toNat]
    rcases Nat.eq_zero_or_pos i with rfl | positive
    · simp only [Nat.testBit_zero, decide_true, Bool.true_and, decide_eq_decide]
      omega
    · rw [Nat.testBit_lt_two_pow (Nat.lt_of_lt_of_le bit (Nat.pow_le_pow_right (by decide : 2 > 0) positive))]
      simp only [Nat.ne_of_gt positive, decide_false, Bool.false_and]
  simp only [testBit_toNat, UInt32.toBitVec_or, BitVec.getLsbD_or, UInt32.toBitVec_shiftLeft, low]
  split_ifs with zero
  · simp [zero]
  · simp [zero, inside, BitVec.getLsbD_eq_getElem, show i - 1 < 32 by omega]

theorem toNat_and_bit (S : UInt32) {k : Nat} (inside : k < 32) :
    (S &&& (1 <<< k.toUInt32)).toNat = (S.toNat.testBit k).toNat * 2 ^ k := by
  rw [UInt32.toNat_and, toNat_bit inside, Nat.and_two_pow]

theorem and_bit_beq (S : UInt32) {k : Nat} (inside : k < 32) :
    (S &&& (1 <<< k.toUInt32) == 1 <<< k.toUInt32) = S.toNat.testBit k := by
  have positive := Nat.two_pow_pos k
  rw [Bool.eq_iff_iff, beq_iff_eq, ← UInt32.toNat_inj, toNat_and_bit S inside, toNat_bit inside]
  cases S.toNat.testBit k <;> simp
  omega

theorem and_bit_bne (S : UInt32) {k : Nat} (inside : k < 32) :
    (S &&& (1 <<< k.toUInt32) != 0) = S.toNat.testBit k := by
  have positive := Nat.two_pow_pos k
  rw [Bool.eq_iff_iff, bne_iff_ne, ne_eq, ← UInt32.toNat_inj, toNat_and_bit S inside, UInt32.toNat_zero]
  cases S.toNat.testBit k <;> simp

theorem toNat_and_mask (x : UInt32) {k : Nat} (inside : k < 32) :
    (x &&& ((1 <<< k.toUInt32) - 1)).toNat = x.toNat % 2 ^ k := by
  rw [UInt32.toNat_and, toNat_lowMask inside, Nat.and_two_pow_sub_one_eq_mod]

section Register

variable {k : Nat}

theorem decode_shiftIn (R b : UInt32) (bit : b.toNat < 2) (inside : k < 32) :
    decode (((R <<< 1) ||| b).toNat % 2 ^ (k + 1)) = shiftIn (decode (R.toNat % 2 ^ k)) b.toNat := by
  ext i
  simp only [coeff_decode, Nat.testBit_mod_two_pow, shiftIn, coeff_add, coeff_C]
  rcases i with _ | i
  · rw [testBit_shiftIn R b bit (by omega), if_pos rfl, mul_coeff_zero, coeff_X_zero, zero_mul, zero_add, if_pos rfl]
    obtain zero | one : b.toNat = 0 ∨ b.toNat = 1 := by omega
    · simp [zero, bitCoeff]
    · simp [one, bitCoeff]
  · rw [coeff_X_mul, coeff_decode, Nat.testBit_mod_two_pow, if_neg (Nat.succ_ne_zero i), add_zero]
    by_cases below : i < k
    · rw [testBit_shiftIn R b bit (by omega), if_neg (Nat.succ_ne_zero i)]
      simp [below]
    · simp [below, show ¬i + 1 < k + 1 by omega]

theorem decode_crcStep (poly R b : UInt32) (bit : b.toNat < 2) (inside : k < 32) :
    decode ((crcStep k.toUInt32 poly R b).toNat % 2 ^ k) =
      divStep (generator k poly.toNat) k (decode (R.toNat % 2 ^ k)) b.toNat := by
  have shifted := decode_shiftIn R b bit inside
  have split := decode_mod_two_pow_succ ((R <<< 1) ||| b).toNat k
  have top : (shiftIn (decode (R.toNat % 2 ^ k)) b.toNat).coeff k = bitCoeff (((R <<< 1) ||| b).toNat.testBit k) := by
    rw [← shifted, coeff_decode, Nat.testBit_mod_two_pow, decide_eq_true (Nat.lt_succ_self k), Bool.true_and]
  unfold crcStep divStep
  dsimp only
  rw [and_bit_beq _ inside, ← shiftIn, top]
  cases reduce : ((R <<< 1) ||| b).toNat.testBit k
  · rw [if_neg Bool.false_ne_true, if_neg (by decide), ← shifted, split, reduce]
    simp [bitCoeff]
  · rw [if_pos rfl, if_pos (by decide), UInt32.toNat_xor, decode_xor_mod, ← shifted, split, reduce, generator]
    have cancel : (X ^ k : (ZMod 2)[X]) + X ^ k = 0 := CharTwo.add_self_eq_zero _
    simp only [bitCoeff, if_true, map_one, one_mul]
    linear_combination (-1 : (ZMod 2)[X]) * cancel

theorem decode_foldl_crcStep (poly : UInt32) (inside : k < 32) (bits : List Nat)
    (small : ∀ bit ∈ bits, bit < 2) (R : UInt32) :
    decode ((bits.foldl (fun R (bit : Nat) => crcStep k.toUInt32 poly R bit.toUInt32) R).toNat % 2 ^ k) =
      bits.foldl (fun r (bit : Nat) => divStep (generator k poly.toNat) k r (bit : ZMod 2)) (decode (R.toNat % 2 ^ k)) := by
  induction bits generalizing R with
  | nil => rfl
  | cons bit bits ih =>
      have bitSmall : bit < 2 := small bit (List.mem_cons_self ..)
      have bitNat : bit.toUInt32.toNat = bit := toNat_toUInt32_of_lt (by omega)
      rw [List.foldl_cons, List.foldl_cons, ih (fun b mem => small b (List.mem_cons_of_mem _ mem)),
        decode_crcStep poly R bit.toUInt32 (by omega) inside, bitNat]

end Register

/-! ## The loops -/

theorem crcLoop_eq (width poly : UInt32) (reader : BitStreamReader) (R : UInt32) :
    crcLoop width poly (reader.bitsEnd - reader.bitsOffset) reader R =
      reader.message.foldl (fun R (bit : Nat) => crcStep width poly R bit.toUInt32) R := by
  obtain ⟨count, left⟩ : ∃ count, reader.bitsEnd - reader.bitsOffset = count := ⟨_, rfl⟩
  induction count generalizing reader R with
  | zero => simp [left, BitStreamReader.message, crcLoop]
  | succ count ih =>
      have next : ({ reader with bitsOffset := reader.bitsOffset + 1 } : BitStreamReader).bitsEnd -
          (reader.bitsOffset + 1) = count := by dsimp only; omega
      have message : reader.message =
          (reader.sourceBuffer.bitAt reader.bitsOffset).toNat :: ({ reader with bitsOffset := reader.bitsOffset + 1 } :
            BitStreamReader).message := by
        simp only [BitStreamReader.message, left, next, List.range'_succ, List.map_cons]
      rw [left, crcLoop, BitStreamReader.readBit_eq reader (by omega), message, List.foldl_cons]
      dsimp only
      rw [← next, ih _ _ next]

theorem crcFlush_eq (poly : UInt32) {k : Nat} (inside : k < 32) (count : Nat) (R : UInt32) :
    crcFlush k.toUInt32 poly count R =
      (List.replicate count 0).foldl (fun R (bit : Nat) => crcStep k.toUInt32 poly R bit.toUInt32) R := by
  induction count generalizing R with
  | zero => rfl
  | succ count ih =>
      have step : (if R <<< 1 &&& (1 <<< k.toUInt32) != 0 then R <<< 1 ^^^ poly else R <<< 1) =
          crcStep k.toUInt32 poly R (0 : Nat).toUInt32 := by
        have zero : (0 : Nat).toUInt32 = 0 := rfl
        rw [crcStep, zero, UInt32.or_zero, and_bit_bne _ inside, and_bit_beq _ inside]
      rw [crcFlush, step, ih, List.replicate_succ, List.foldl_cons]

theorem dpCalculateCRC_eq (width poly : UInt32) {reader : BitStreamReader}
    (ordered : reader.bitsOffset ≤ reader.bitsEnd) :
    dpCalculateCRC width poly reader =
      crcFlush width poly width.toNat (crcLoop width poly (reader.bitsEnd - reader.bitsOffset) reader 0) &&&
        ((1 <<< width) - 1) := by
  have bounded := reader.bitsEnd_lt
  unfold dpCalculateCRC
  rw [show (reader.bitsEnd + 2 ^ 32 - reader.bitsOffset) % 2 ^ 32 = reader.bitsEnd - reader.bitsOffset by omega]

theorem dpCalculateCRC_congr (width poly : UInt32) {reader reader' : BitStreamReader}
    (ordered : reader.bitsOffset ≤ reader.bitsEnd) (ordered' : reader'.bitsOffset ≤ reader'.bitsEnd)
    (same : reader.message = reader'.message) : dpCalculateCRC width poly reader = dpCalculateCRC width poly reader' := by
  rw [dpCalculateCRC_eq width poly ordered, dpCalculateCRC_eq width poly ordered', crcLoop_eq, crcLoop_eq, same]

/-- The loop of `dpCalculateCRC` does not end on `BitStreamReader(buffer,
2^32 - 1, 0)`, which presents no bits: every one of its one-bit reads
succeeds. -/
theorem dpCalculateCRC_loops_at_top :
    (BitStreamReader.init [] (2 ^ 32 - 1) 0).message = [] ∧
      ∀ n, ((fun state : Option BitStreamReader => state.bind fun reader => reader.readBit.map Prod.snd)^[n]
        (some (BitStreamReader.init [] (2 ^ 32 - 1) 0))).isSome := by
  refine ⟨by decide, fun n => ?_⟩
  suffices top : ∃ reader : BitStreamReader, reader.bitsEnd = 2 ^ 32 - 1 ∧
      (fun state : Option BitStreamReader => state.bind fun reader => reader.readBit.map Prod.snd)^[n]
        (some (BitStreamReader.init [] (2 ^ 32 - 1) 0)) = some reader by
    obtain ⟨reader, -, state⟩ := top
    rw [state]
    rfl
  induction n with
  | zero => exact ⟨_, rfl, rfl⟩
  | succ n ih =>
      obtain ⟨reader, top, state⟩ := ih
      obtain ⟨bit, read⟩ := reader.readBit_of_top top
      refine ⟨{ reader with bitsOffset := (reader.bitsOffset + 1) % 2 ^ 32 }, top, ?_⟩
      rw [Function.iterate_succ_apply', state, Option.bind_some, read]
      rfl

/-! ## The CRCs -/

/-- A CRC of `k` bits with generator `P`, over readers whose range ends below
bit `2^32 - 1`: its value is the remainder of the message times `X^k`; a
message followed by its CRC divides by `P` and has CRC zero; and a change of one
bit of the message changes the CRC. -/
structure IsCrc (crc : BitStreamReader → UInt32) (k : Nat) (P : (ZMod 2)[X]) : Prop where
  remainder : ∀ reader, reader.InRange → decode (crc reader).toNat = (messagePoly reader.message * X ^ k) %ₘ P
  appended : ∀ reader reader', reader.InRange → reader'.InRange →
    reader'.message = reader.message ++ bitsOf k (crc reader).toNat →
    messagePoly reader'.message %ₘ P = 0 ∧ crc reader' = 0
  detects : ∀ reader reader' front back a a', reader.InRange → reader'.InRange → reader.message = front ++ a :: back →
    reader'.message = front ++ a' :: back → a ≠ a' → crc reader' ≠ crc reader

section Spec

variable (poly : UInt32) {k : Nat}

theorem dpCalculateCRC_lt (inside : k < 32) (reader : BitStreamReader) :
    (dpCalculateCRC k.toUInt32 poly reader).toNat < 2 ^ k := by
  unfold dpCalculateCRC
  rw [toNat_and_mask _ inside]
  exact Nat.mod_lt _ (Nat.two_pow_pos k)

theorem dpCalculateCRC_spec (positive : 0 < k) (inside : k < 32) {reader : BitStreamReader}
    (ordered : reader.bitsOffset ≤ reader.bitsEnd) :
    decode (dpCalculateCRC k.toUInt32 poly reader).toNat =
      (messagePoly reader.message * X ^ k) %ₘ generator k poly.toNat := by
  have kNat : k.toUInt32.toNat = k := toNat_toUInt32_of_lt (by omega)
  have small : ∀ bit ∈ reader.message ++ List.replicate k 0, bit < 2 := by
    intro bit mem
    rcases List.mem_append.mp mem with inMessage | inZeros
    · exact BitStreamReader.lt_two_of_mem_message inMessage
    · rw [List.eq_of_mem_replicate inZeros]
      decide
  rw [dpCalculateCRC_eq _ _ ordered, toNat_and_mask _ inside, crcLoop_eq, kNat, crcFlush_eq poly inside,
    ← List.foldl_append]
  rw [decode_foldl_crcStep poly inside _ small, UInt32.toNat_zero, Nat.zero_mod, decode_zero,
    ← zero_modByMonic (generator k poly.toNat),
    foldl_divStep (generator_monic k poly.toNat) (natDegree_generator k poly.toNat) positive, ← messagePoly,
    messagePoly_replicate_zero]

theorem isCrc_dpCalculateCRC (positive : 0 < k) (inside : k < 32) (odd : poly.toNat.testBit 0 = true) :
    IsCrc (dpCalculateCRC k.toUInt32 poly) k (generator k poly.toNat) := by
  have monic := generator_monic k poly.toNat
  have spec := fun (reader : BitStreamReader) (inRange : reader.InRange) =>
    dpCalculateCRC_spec poly positive inside inRange.1
  refine ⟨spec, ?_, ?_⟩
  · intro reader reader' inRange inRange' appended
    have remainder : decode ((dpCalculateCRC k.toUInt32 poly reader).toNat % 2 ^ k) =
        (messagePoly reader.message * X ^ k) %ₘ generator k poly.toNat := by
      rw [Nat.mod_eq_of_lt (dpCalculateCRC_lt poly inside reader)]
      exact spec reader inRange
    have zero := modByMonic_append_remainder monic reader.message remainder
    rw [← appended] at zero
    refine ⟨zero.1, ?_⟩
    apply UInt32.toNat_inj.mp
    apply decode_injective
    rw [spec reader' inRange', zero.2, UInt32.toNat_zero, decode_zero]
  · intro reader reader' front back a a' inRange inRange' message message' flipped same
    have bit : a < 2 := BitStreamReader.lt_two_of_mem_message (by rw [message]; simp)
    have bit' : a' < 2 := BitStreamReader.lt_two_of_mem_message (by rw [message']; simp)
    have coprime : (generator k poly.toNat).coeff 0 ≠ 0 := by
      rw [coeff_zero_generator positive, odd]
      decide
    have differ := congrArg (fun crc : UInt32 => decode crc.toNat) same
    simp only [spec reader inRange, spec reader' inRange', message, message', messagePoly_flip front back bit bit' flipped,
      add_mul, ← pow_add, add_modByMonic, add_eq_left] at differ
    exact pow_modByMonic_ne_zero monic (by rw [natDegree_generator]; exact positive) coprime _ differ

end Spec

theorem generator_header : generator 4 (0x13 : UInt32).toNat = X ^ 4 + X + 1 := by
  have bits : bitsOf 2 ((0x13 : UInt32).toNat % 2 ^ 4) = [1, 1] := by decide
  rw [generator, decode_eq_messagePoly (k := 2) (by decide), bits]
  simp [messagePoly, shiftIn]
  ring

theorem generator_body : generator 8 (0xD5 : UInt32).toNat = X ^ 8 + X ^ 7 + X ^ 6 + X ^ 4 + X ^ 2 + 1 := by
  have bits : bitsOf 8 ((0xD5 : UInt32).toNat % 2 ^ 8) = [1, 1, 0, 1, 0, 1, 0, 1] := by decide
  rw [generator, decode_eq_messagePoly (k := 8) (by decide), bits]
  simp [messagePoly, shiftIn]
  ring

/-- The header CRC is the CRC of `x^4 + x + 1` and the body CRC that of
`x^8 + x^7 + x^6 + x^4 + x^2 + 1`. -/
theorem dpCalculateCRC_isCrc :
    IsCrc dpCalculateHeaderCRC 4 (X ^ 4 + X + 1) ∧
      IsCrc dpCalculateBodyCRC 8 (X ^ 8 + X ^ 7 + X ^ 6 + X ^ 4 + X ^ 2 + 1) := by
  have header := isCrc_dpCalculateCRC 0x13 (k := 4) (by decide) (by decide) (by decide)
  have body := isCrc_dpCalculateCRC 0xD5 (k := 8) (by decide) (by decide) (by decide)
  rw [generator_header] at header
  rw [generator_body] at body
  exact ⟨header, body⟩

end NvidiaGpu.DisplayPort
