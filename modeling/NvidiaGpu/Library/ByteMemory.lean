import Mathlib.Data.UInt
import Mathlib.Tactic.NormNum

set_option autoImplicit false

/-! Byte-addressed memory read and written as little-endian words, and the
XOR of the 32-bit words of a range.  A 64-bit word is the two 32-bit words it
covers, the one at the lower address in its low half. -/

namespace NvidiaGpu.ByteMemory

/-- The 32-bit word at `address`, least significant byte first.  Each power
stands left of its byte, so that reducing a word of unknown bytes never
unfolds a product by a large literal. -/
def load32 (memory : Nat → UInt8) (address : Nat) : UInt32 :=
  UInt32.ofNat ((memory address).toNat + 2 ^ 8 * (memory (address + 1)).toNat +
    2 ^ 16 * (memory (address + 2)).toNat + 2 ^ 24 * (memory (address + 3)).toNat)

def load64 (memory : Nat → UInt8) (address : Nat) : UInt64 :=
  UInt64.ofNat ((load32 memory address).toNat + 2 ^ 32 * (load32 memory (address + 4)).toNat)

def store32 (memory : Nat → UInt8) (address : Nat) (value : UInt32) : Nat → UInt8 :=
  fun byte => if address ≤ byte ∧ byte < address + 4 then UInt8.ofNat (value.toNat / 2 ^ (8 * (byte - address)))
    else memory byte

def zeroBytes (memory : Nat → UInt8) (address count : Nat) : Nat → UInt8 :=
  fun byte => if address ≤ byte ∧ byte < address + count then 0 else memory byte

def xorWords32 (memory : Nat → UInt8) (count : Nat) : UInt32 :=
  (List.range count).foldl (fun acc index => acc ^^^ load32 memory (4 * index)) 0

variable {memory : Nat → UInt8}

theorem load32_congr {other : Nat → UInt8} {address : Nat}
    (agree : ∀ offset < 4, memory (address + offset) = other (address + offset)) :
    load32 memory address = load32 other address := by
  unfold load32
  rw [show address = address + 0 by rfl, agree 0 (by omega), agree 1 (by omega), agree 2 (by omega),
    agree 3 (by omega)]

theorem load32_congr_below {other : Nat → UInt8} {address bound : Nat}
    (agree : ∀ byte < bound, memory byte = other byte) (inside : address + 4 ≤ bound) :
    load32 memory address = load32 other address :=
  load32_congr fun _ _ => agree _ (by omega)

theorem load32_store32_self (address : Nat) (value : UInt32) :
    load32 (store32 memory address value) address = value := by
  have bound := value.toNat_lt
  apply UInt32.toNat.inj
  simp [load32, store32]
  omega

theorem load32_store32_of_apart {address other : Nat} (value : UInt32)
    (apart : address + 4 ≤ other ∨ other + 4 ≤ address) :
    load32 (store32 memory address value) other = load32 memory other := by
  apply load32_congr
  intro offset _
  simp only [store32]
  rw [if_neg (by omega)]

theorem high_load64 (address : Nat) : ((load64 memory address) >>> 32).toUInt32 = load32 memory (address + 4) := by
  have low := (load32 memory address).toNat_lt
  have high := (load32 memory (address + 4)).toNat_lt
  apply UInt32.toNat.inj
  simp only [load64, UInt64.toNat_toUInt32, UInt64.toNat_shiftRight, UInt64.toNat_ofNat]
  norm_num
  omega

theorem low_load64 (address : Nat) : (load64 memory address).toUInt32 = load32 memory address := by
  have low := (load32 memory address).toNat_lt
  apply UInt32.toNat.inj
  simp only [load64, UInt64.toNat_toUInt32]
  norm_num

theorem high_xor (first second : UInt64) :
    ((first ^^^ second) >>> 32).toUInt32 = (first >>> 32).toUInt32 ^^^ (second >>> 32).toUInt32 := by
  apply UInt32.eq_of_toBitVec_eq
  ext index
  simp

theorem low_xor (first second : UInt64) : (first ^^^ second).toUInt32 = first.toUInt32 ^^^ second.toUInt32 := by
  simp

theorem xorWords32_succ (count : Nat) :
    xorWords32 memory (count + 1) = xorWords32 memory count ^^^ load32 memory (4 * count) := by
  simp only [xorWords32, List.range_succ, List.foldl_append, List.foldl_cons, List.foldl_nil]

theorem xorWords32_congr {other : Nat → UInt8} {count : Nat}
    (agree : ∀ index < count, load32 memory (4 * index) = load32 other (4 * index)) :
    xorWords32 memory count = xorWords32 other count := by
  induction count with
  | zero => simp only [xorWords32, List.range_zero, List.foldl_nil]
  | succ count ih =>
      rw [xorWords32_succ, xorWords32_succ, ih (fun index below => agree index (by omega)),
        agree count (by omega)]

theorem xorWords32_store32 {count index : Nat} (inside : index < count) (value : UInt32) :
    xorWords32 (store32 memory (4 * index) value) count =
      xorWords32 memory count ^^^ load32 memory (4 * index) ^^^ value := by
  induction count with
  | zero => omega
  | succ count ih =>
      rw [xorWords32_succ, xorWords32_succ]
      by_cases last : index = count
      · subst last
        rw [xorWords32_congr (fun other below => load32_store32_of_apart value (by omega)),
          load32_store32_self, UInt32.xor_assoc, UInt32.xor_assoc, ← UInt32.xor_assoc (load32 _ _),
          UInt32.xor_self, UInt32.zero_xor]
      · rw [ih (by omega), load32_store32_of_apart value (by omega)]
        ac_rfl

end NvidiaGpu.ByteMemory
