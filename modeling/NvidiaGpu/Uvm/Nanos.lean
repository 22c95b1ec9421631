import NvidiaGpu.Library.Bitmap
import NvidiaGpu.Library.Search

set_option autoImplicit false

/-! The bitmap helpers of the Nanos build of UVM (`uvm_nanos.h`, with `test_bit`,
`__set_bit` and `__clear_bit` of `nv-nanos.h`).  A bitmap is an array of 64-bit
words, bit `i` in word `i / 64` at position `i % 64`; `>> 6`, `<< 6` and
`& MASK(6)` on indices are written as division, product and remainder by 64.
`MASK`, `lsb`, `msb` and `runtime_memcpy` belong to the Nanos runtime
(`unix_internal.h`), not to this source: the helpers take them as a `Runtime`,
and each result assumes of them only the property it uses.
Indices and counts are the source's `u64` and `unsigned int` values as `Nat`:
none of the sums below wraps for bitmaps shorter than `2 ^ 32 - 64` bits. -/

namespace NvidiaGpu.Nanos

open Bitmap Search

/-- What `uvm_nanos.h` takes from the runtime: `MASK(n)`, `lsb(w)` and `msb(w)`,
with `none` for `INVALID_PHYSICAL`, and `runtime_memcpy(dst, src, len)` on arrays
of words, as word `word` of the copy. -/
structure Runtime where
  mask : Nat → UInt64
  lsb : UInt64 → Option Nat
  msb : UInt64 → Option Nat
  runtimeMemcpy : (Nat → UInt64) → (Nat → UInt64) → Nat → Nat → UInt64

namespace Runtime

def MaskLow (runtime : Runtime) : Prop :=
  ∀ n p, (runtime.mask n).toBitVec.getLsbD p = (decide (p < 64) && decide (p < n))

def LsbLowest (runtime : Runtime) : Prop :=
  ∀ w, runtime.lsb w = findFrom (fun p => w.toBitVec.getLsbD p) 0 64

def MsbHighest (runtime : Runtime) : Prop :=
  ∀ w, runtime.msb w = findLast (fun p => w.toBitVec.getLsbD p) 64

/-- `runtime_memcpy(dst, src, len)` copies the first `len` bytes, the least
significant byte of a word first. -/
def MemcpyBytes (runtime : Runtime) : Prop :=
  ∀ dst src len index,
    bitAt (runtime.runtimeMemcpy dst src len) index = if index < 8 * len then bitAt src index else bitAt dst index

/-- A runtime with all four properties, which the witnesses run the helpers
on: `MASK(n)` is `2 ^ n - 1`, `lsb` and `msb` search the word, and the copy
takes word `word` from `src` below the mask of its copied bytes. -/
def byBits : Runtime where
  mask n := UInt64.ofNat (2 ^ n - 1)
  lsb w := findFrom (fun p => w.toBitVec.getLsbD p) 0 64
  msb w := findLast (fun p => w.toBitVec.getLsbD p) 64
  runtimeMemcpy dst src len word :=
    let copied := UInt64.ofNat (2 ^ (8 * min 8 (len - 8 * word)) - 1)
    src word &&& copied ||| dst word &&& ~~~copied

theorem maskLow_byBits : byBits.MaskLow := by
  intro n p
  rw [byBits, UInt64.toBitVec_ofNat', BitVec.getLsbD_ofNat, Nat.testBit_two_pow_sub_one]

theorem lsbLowest_byBits : byBits.LsbLowest := fun _ => rfl

theorem msbHighest_byBits : byBits.MsbHighest := fun _ => rfl

theorem memcpyBytes_byBits : byBits.MemcpyBytes := by
  intro dst src len index
  have lt : index % 64 < 64 := Nat.mod_lt _ (by omega)
  have copied : decide (index % 64 < 8 * min 8 (len - 8 * (index / 64))) = decide (index < 8 * len) := by
    simp only [decide_eq_decide]
    omega
  have mask := maskLow_byBits (8 * min 8 (len - 8 * (index / 64))) (index % 64)
  unfold bitAt
  simp only [byBits] at mask ⊢
  simp only [UInt64.toBitVec_or, UInt64.toBitVec_and, UInt64.toBitVec_not, BitVec.getLsbD_or, BitVec.getLsbD_and,
    BitVec.getLsbD_not, mask, lt, decide_true, Bool.true_and, copied]
  by_cases inside : index < 8 * len <;> simp [inside]

end Runtime

/-- The loop of `find_next_bit` at `start`, `word_offset` and `bit_offset`;
`fuel` bounds the passes. -/
def findNextBitLoop (runtime : Runtime) (addr : Nat → UInt64) (nbits : Nat) : Nat → Nat → Nat → Nat → Nat
  | 0, _, _, _ => nbits
  | fuel + 1, start, wordOffset, bitOffset =>
      if start < nbits then
        let w := addr wordOffset
        let w := if bitOffset > 0 then w &&& ~~~runtime.mask bitOffset else w
        let w := if nbits - start < 64 - bitOffset then w &&& runtime.mask (bitOffset + nbits - start) else w
        match runtime.lsb w with
        | some bit => wordOffset * 64 + bit
        | none => findNextBitLoop runtime addr nbits fuel (start + 64) (wordOffset + 1) 0
      else nbits

/-- `find_next_bit`.  Each pass moves `start` on by 64, so `nbits / 64 + 1`
passes are enough to reach `nbits`. -/
def findNextBit (runtime : Runtime) (addr : Nat → UInt64) (nbits start : Nat) : Nat :=
  findNextBitLoop runtime addr nbits (nbits / 64 + 1) start (start / 64) (start % 64)

def findNextZeroBitLoop (runtime : Runtime) (addr : Nat → UInt64) (nbits : Nat) : Nat → Nat → Nat → Nat → Nat
  | 0, _, _, _ => nbits
  | fuel + 1, start, wordOffset, bitOffset =>
      if start < nbits then
        let w := addr wordOffset
        let w := if bitOffset > 0 then w ||| runtime.mask bitOffset else w
        let w := if nbits - start < 64 - bitOffset then w ||| ~~~runtime.mask (bitOffset + nbits - start) else w
        match runtime.lsb (~~~w) with
        | some bit => wordOffset * 64 + bit
        | none => findNextZeroBitLoop runtime addr nbits fuel (start + 64) (wordOffset + 1) 0
      else nbits

def findNextZeroBit (runtime : Runtime) (addr : Nat → UInt64) (nbits start : Nat) : Nat :=
  findNextZeroBitLoop runtime addr nbits (nbits / 64 + 1) start (start / 64) (start % 64)

/-- The loop of `find_last_bit` from word `word_offset` holding `w`, down to
word 0. -/
def findLastBitLoop (runtime : Runtime) (addr : Nat → UInt64) (nbits : Nat) : Nat → UInt64 → Nat
  | 0, w =>
      match runtime.msb w with
      | some bit => bit
      | none => nbits
  | wordOffset + 1, w =>
      match runtime.msb w with
      | some bit => (wordOffset + 1) * 64 + bit
      | none => findLastBitLoop runtime addr nbits wordOffset (addr wordOffset)

def findLastBit (runtime : Runtime) (addr : Nat → UInt64) (nbits : Nat) : Nat :=
  if nbits ≠ 0 then
    let wordOffset := (nbits - 1) / 64
    findLastBitLoop runtime addr nbits wordOffset (addr wordOffset &&& runtime.mask (nbits - 1 - wordOffset * 64))
  else nbits

def setBit (bit : Nat) (addr : Nat → UInt64) : Nat → UInt64 :=
  Function.update addr (bit / 64) (addr (bit / 64) ||| 1 <<< UInt64.ofNat (bit % 64))

def clearBit (bit : Nat) (addr : Nat → UInt64) : Nat → UInt64 :=
  Function.update addr (bit / 64) (addr (bit / 64) &&& ~~~(1 <<< UInt64.ofNat (bit % 64)))

/-- `for (index = find(map, nbits, index); index < nbits; index = find(map,
nbits, index + 1)) update(index, map)`: the loops of `bitmap_set_bits` and
`bitmap_clear`; `fuel` bounds the passes. -/
def forEachBitFrom (find : (Nat → UInt64) → Nat → Nat → Nat) (update : Nat → (Nat → UInt64) → Nat → UInt64)
    (nbits : Nat) : Nat → (Nat → UInt64) → Nat → Nat → UInt64
  | 0, map, _ => map
  | fuel + 1, map, index =>
      if index < nbits then
        let map := update index map
        forEachBitFrom find update nbits fuel map (find map nbits (index + 1))
      else map

/-- `bitmap_set_bits(map, start, len)`: sets each clear bit of
`[start, start + len)` that `for_each_clear_bit_from` visits.  The search
index never goes down, so `start + len + 1` passes are enough. -/
def bitmapSetBits (runtime : Runtime) (map : Nat → UInt64) (start len : Nat) : Nat → UInt64 :=
  forEachBitFrom (findNextZeroBit runtime) setBit (start + len) (start + len + 1) map
    (findNextZeroBit runtime map (start + len) start)

def bitmapClear (runtime : Runtime) (map : Nat → UInt64) (start len : Nat) : Nat → UInt64 :=
  forEachBitFrom (findNextBit runtime) clearBit (start + len) (start + len + 1) map
    (findNextBit runtime map (start + len) start)

def bitmapCpy (runtime : Runtime) (dst src : Nat → UInt64) (nbits : Nat) : Nat → UInt64 :=
  runtime.runtimeMemcpy dst src ((nbits + 63) / 64)

/-- The loop of `bitmap_equal` over `words` whole words from `word` on, then
the last `nbits % 64` bits. -/
def bitmapEqualLoop (runtime : Runtime) (src1 src2 : Nat → UInt64) (nbits : Nat) : Nat → Nat → Bool
  | 0, word =>
      if nbits % 64 ≠ 0 then (src1 word &&& runtime.mask (nbits % 64)) == (src2 word &&& runtime.mask (nbits % 64))
      else true
  | words + 1, word => if src1 word != src2 word then false else bitmapEqualLoop runtime src1 src2 nbits words (word + 1)

def bitmapEqual (runtime : Runtime) (src1 src2 : Nat → UInt64) (nbits : Nat) : Bool :=
  bitmapEqualLoop runtime src1 src2 nbits (nbits / 64) 0

def countWordBits (map : UInt64) : Nat → Nat
  | 0 => 0
  | i + 1 => countWordBits map i + if map &&& 1 <<< UInt64.ofNat i != 0 then 1 else 0

/-- The loop of `bitmap_weight` over `words` whole words from `word` on with the
count `w`, then the last `nbits % 64` bits. -/
def bitmapWeightLoop (src : Nat → UInt64) (nbits : Nat) : Nat → Nat → Nat → Nat
  | 0, word, w => if nbits % 64 ≠ 0 then w + countWordBits (src word) (nbits % 64) else w
  | words + 1, word, w => bitmapWeightLoop src nbits words (word + 1) (w + countWordBits (src word) 64)

def bitmapWeight (src : Nat → UInt64) (nbits : Nat) : Nat :=
  bitmapWeightLoop src nbits (nbits / 64) 0 0

/-! The shifts read and write one array of words, so that `dst` and `src` may
be the same bitmap.  A shift of a word by 64, which `64 - shift` asks for when
`shift % 64 = 0`, is undefined in C; the model takes the count modulo 64 as the
x86 `shl` and `shr` do.  The word count after `words -= offset` is the source's
`unsigned int`. -/

def zeroWordsUp : Nat → (Nat → UInt64) → Nat → Nat → UInt64
  | 0, memory, _ => memory
  | count + 1, memory, dst => zeroWordsUp count (Function.update memory dst 0) (dst + 1)

/-- `*dst++ = rem | ((*src) >> shift); rem = (*src++) << (64 - shift)`,
`count` times. -/
def shiftRightWords (shift : Nat) : Nat → (Nat → UInt64) → Nat → Nat → UInt64 → Nat → UInt64
  | 0, memory, _, _, _ => memory
  | count + 1, memory, dst, src, rem =>
      let memory := Function.update memory dst (rem ||| memory src >>> UInt64.ofNat shift)
      shiftRightWords shift count memory (dst + 1) (src + 1) (memory src <<< UInt64.ofNat (64 - shift))

def bitmapShiftRight (memory : Nat → UInt64) (dst src shift nbits : Nat) : Nat → UInt64 :=
  let words := (nbits + 63) / 64
  let offset := shift / 64
  let shift := shift % 64
  let memory := zeroWordsUp offset memory dst
  shiftRightWords shift ((words + 2 ^ 32 - offset) % 2 ^ 32) memory (dst + offset) src 0

def zeroWordsDown : Nat → (Nat → UInt64) → Nat → Nat → UInt64
  | 0, memory, _ => memory
  | count + 1, memory, dst => zeroWordsDown count (Function.update memory (dst - 1) 0) (dst - 1)

/-- `*(--dst) = rem | ((*--src) << shift); rem = (*src) >> (64 - shift)`,
`count` times. -/
def shiftLeftWords (shift : Nat) : Nat → (Nat → UInt64) → Nat → Nat → UInt64 → Nat → UInt64
  | 0, memory, _, _, _ => memory
  | count + 1, memory, dst, src, rem =>
      let memory := Function.update memory (dst - 1) (rem ||| memory (src - 1) <<< UInt64.ofNat shift)
      shiftLeftWords shift count memory (dst - 1) (src - 1) (memory (src - 1) >>> UInt64.ofNat (64 - shift))

def bitmapShiftLeft (memory : Nat → UInt64) (dst src shift nbits : Nat) : Nat → UInt64 :=
  let words := (nbits + 63) / 64
  let offset := shift / 64
  let shift := shift % 64
  let memory := zeroWordsDown offset memory (dst + words)
  let words' := (words + 2 ^ 32 - offset) % 2 ^ 32
  shiftLeftWords shift words' memory (dst + words - offset) (src + words') 0

section Window

variable {runtime : Runtime} {w : UInt64} {bits : Nat → Bool} {base low high : Nat}

theorem lsb_window (lsbLowest : runtime.LsbLowest) (ordered : low ≤ high) (inWord : high ≤ 64)
    (window : ∀ p < 64, w.toBitVec.getLsbD p = (decide (low ≤ p ∧ p < high) && bits (base + p))) :
    (runtime.lsb w).map (base + ·) = findFrom bits (base + low) (high - low) := by
  have below : findFrom (fun p => w.toBitVec.getLsbD p) 0 low = none := by
    rw [findFrom_eq_none_iff]
    intro j _ lt
    rw [window j (by omega)]
    simp only [Bool.and_eq_false_imp, decide_eq_true_eq]
    omega
  have above : findFrom (fun p => w.toBitVec.getLsbD p) high (64 - high) = none := by
    rw [findFrom_eq_none_iff]
    intro j least lt
    rw [window j (by omega)]
    simp only [Bool.and_eq_false_imp, decide_eq_true_eq]
    omega
  have inside : findFrom (fun p => w.toBitVec.getLsbD p) low (high - low) =
      findFrom (fun p => bits (base + p)) low (high - low) := by
    apply findFrom_congr
    intro j least lt
    rw [window j (by omega)]
    simp only [Bool.and_eq_right_iff_imp, decide_eq_true_eq]
    intro _
    omega
  have whole : findFrom (fun p => w.toBitVec.getLsbD p) 0 64 =
      findFrom (fun p => w.toBitVec.getLsbD p) 0 (low + (high - low) + (64 - high)) := by
    rw [show low + (high - low) + (64 - high) = 64 by omega]
  rw [lsbLowest, whole, findFrom_add, findFrom_add, show low + (high - low) = high by omega]
  simp only [Nat.zero_add]
  rw [below, Option.none_or, above, Option.or_none, inside, findFrom_shift]

theorem msb_window (msbHighest : runtime.MsbHighest) (inWord : high ≤ 64)
    (window : ∀ p < 64, w.toBitVec.getLsbD p = (decide (p < high) && bits (base + p))) :
    runtime.msb w = findLast (fun p => bits (base + p)) high := by
  have above : findLast (fun p => w.toBitVec.getLsbD (high + p)) (64 - high) = none := by
    rw [findLast_eq_none_iff]
    intro j lt
    rw [window (high + j) (by omega)]
    simp
  have whole : findLast (fun p => w.toBitVec.getLsbD p) 64 =
      findLast (fun p => w.toBitVec.getLsbD p) (high + (64 - high)) := by
    rw [show high + (64 - high) = 64 by omega]
  rw [msbHighest, whole, findLast_add, above, Option.map_none, Option.none_or]
  apply findLast_congr
  intro j lt
  rw [window j (by omega)]
  simp [lt]

end Window

section Next

variable {runtime : Runtime} {addr : Nat → UInt64} {nbits : Nat}

theorem getLsbD_findNextBitWord (maskLow : runtime.MaskLow) (word : UInt64) (bitOffset nbits start : Nat) {p : Nat}
    (lt : p < 64) :
    (if nbits - start < 64 - bitOffset then (if bitOffset > 0 then word &&& ~~~runtime.mask bitOffset else word) &&&
        runtime.mask (bitOffset + nbits - start)
      else if bitOffset > 0 then word &&& ~~~runtime.mask bitOffset else word).toBitVec.getLsbD p =
      (decide (bitOffset ≤ p ∧ p < min 64 (bitOffset + nbits - start)) && word.toBitVec.getLsbD p) := by
  have low : (if bitOffset > 0 then word &&& ~~~runtime.mask bitOffset else word).toBitVec.getLsbD p =
      (word.toBitVec.getLsbD p && decide (bitOffset ≤ p)) := by
    split
    · simp only [UInt64.toBitVec_and, UInt64.toBitVec_not, BitVec.getLsbD_and, BitVec.getLsbD_not,
        maskLow bitOffset p, lt, decide_true, Bool.true_and, ← decide_not, Nat.not_lt]
    · simp only [show bitOffset = 0 by omega, Nat.zero_le, decide_true, Bool.and_true]
  split
  · rw [UInt64.toBitVec_and, BitVec.getLsbD_and, low, maskLow]
    cases word.toBitVec.getLsbD p
    · simp only [Bool.false_and, Bool.and_false]
    · simp only [Bool.true_and, Bool.and_true, lt, decide_true, ← Bool.decide_and, decide_eq_decide]
      omega
  · rw [low]
    cases word.toBitVec.getLsbD p
    · simp only [Bool.false_and, Bool.and_false]
    · simp only [Bool.true_and, Bool.and_true, decide_eq_decide]
      omega

theorem findNextBitLoop_pass (maskLow : runtime.MaskLow) (lsbLowest : runtime.LsbLowest)
    {fuel wordOffset bitOffset lag : Nat} (below : wordOffset * 64 + bitOffset + lag < nbits) (inWord : bitOffset < 64) :
    findNextBitLoop runtime addr nbits (fuel + 1) (wordOffset * 64 + bitOffset + lag) wordOffset bitOffset =
      match findFrom (bitAt addr) (wordOffset * 64 + bitOffset) (min 64 (nbits - lag - wordOffset * 64) - bitOffset) with
      | some index => index
      | none => findNextBitLoop runtime addr nbits fuel ((wordOffset + 1) * 64 + bitOffset + lag) (wordOffset + 1) 0 := by
  have reach : bitOffset + nbits - (wordOffset * 64 + bitOffset + lag) = nbits - lag - wordOffset * 64 := by omega
  have found : (runtime.lsb (if nbits - (wordOffset * 64 + bitOffset + lag) < 64 - bitOffset then
        (if bitOffset > 0 then addr wordOffset &&& ~~~runtime.mask bitOffset else addr wordOffset) &&&
          runtime.mask (bitOffset + nbits - (wordOffset * 64 + bitOffset + lag))
      else if bitOffset > 0 then addr wordOffset &&& ~~~runtime.mask bitOffset else addr wordOffset)).map
        (wordOffset * 64 + ·) =
      findFrom (bitAt addr) (wordOffset * 64 + bitOffset) (min 64 (nbits - lag - wordOffset * 64) - bitOffset) :=
    lsb_window lsbLowest (Nat.le_min.mpr ⟨by omega, by omega⟩) (Nat.min_le_left 64 _) fun p lt => by
      rw [getLsbD_findNextBitWord maskLow _ _ _ _ lt, reach, ← bitAt_inWord addr wordOffset p lt]
  simp only [findNextBitLoop, if_pos below]
  split
  · rename_i bit hit
    rw [← found, hit]
    rfl
  · rename_i miss
    rw [← found, miss, show wordOffset * 64 + bitOffset + lag + 64 = (wordOffset + 1) * 64 + bitOffset + lag by omega]
    rfl

theorem findNextBitLoop_aligned (maskLow : runtime.MaskLow) (lsbLowest : runtime.LsbLowest) {lag : Nat} :
    ∀ {fuel wordOffset : Nat}, nbits ≤ wordOffset * 64 + lag + 64 * fuel →
      findNextBitLoop runtime addr nbits fuel (wordOffset * 64 + lag) wordOffset 0 =
        (findFrom (bitAt addr) (wordOffset * 64) (nbits - lag - wordOffset * 64)).getD nbits := by
  intro fuel
  induction fuel with
  | zero =>
      intro wordOffset enough
      rw [show nbits - lag - wordOffset * 64 = 0 by omega]
      rfl
  | succ fuel ih =>
      intro wordOffset enough
      by_cases below : wordOffset * 64 + lag < nbits
      · have pass := @findNextBitLoop_pass runtime addr nbits maskLow lsbLowest fuel wordOffset 0 lag (by omega) (by omega)
        simp only [Nat.add_zero, Nat.sub_zero] at pass
        have whole := @findFrom_min_or (bitAt addr) (wordOffset * 64) 64 (nbits - lag - wordOffset * 64)
        have boundary : wordOffset * 64 + 64 = (wordOffset + 1) * 64 := by omega
        have rest : nbits - lag - wordOffset * 64 - 64 = nbits - lag - (wordOffset + 1) * 64 := by omega
        rw [boundary, rest] at whole
        rw [pass, @ih (wordOffset + 1) (by omega), whole]
        cases findFrom (bitAt addr) (wordOffset * 64) (min 64 (nbits - lag - wordOffset * 64)) <;> rfl
      · rw [show nbits - lag - wordOffset * 64 = 0 by omega]
        simp only [findNextBitLoop, if_neg below]
        rfl

/-- `find_next_bit` searches `[start, nbits)` within the first word, but from
the next word boundary `wordEnd` on only up to `nbits - start % 64`: the loop
moves `start` on by 64 rather than to the boundary, and bounds the search by
that `start`. -/
theorem findNextBit_eq (maskLow : runtime.MaskLow) (lsbLowest : runtime.LsbLowest) (addr : Nat → UInt64)
    (nbits start : Nat) :
    findNextBit runtime addr nbits start =
      ((findFrom (bitAt addr) start (min nbits ((start / 64 + 1) * 64) - start)).or
        (findFrom (bitAt addr) ((start / 64 + 1) * 64) (nbits - start % 64 - (start / 64 + 1) * 64))).getD nbits := by
  unfold findNextBit
  by_cases below : start < nbits
  · have pass := @findNextBitLoop_pass runtime addr nbits maskLow lsbLowest (nbits / 64) (start / 64) (start % 64) 0
      (by omega) (Nat.mod_lt _ (by omega))
    simp only [Nat.add_zero, Nat.sub_zero, Nat.div_add_mod'] at pass
    have firstWord : min 64 (nbits - start / 64 * 64) - start % 64 = min nbits ((start / 64 + 1) * 64) - start := by
      omega
    rw [pass, @findNextBitLoop_aligned runtime addr nbits maskLow lsbLowest (start % 64) (nbits / 64) (start / 64 + 1)
      (by omega), firstWord]
    cases findFrom (bitAt addr) start (min nbits ((start / 64 + 1) * 64) - start) <;> rfl
  · rw [show min nbits ((start / 64 + 1) * 64) - start = 0 by omega,
      show nbits - start % 64 - (start / 64 + 1) * 64 = 0 by omega]
    simp only [findNextBitLoop, if_neg below]
    rfl

/-- The specification the callers assume: the first set bit of `[start, nbits)`,
or `nbits`. -/
def firstSetFrom (addr : Nat → UInt64) (nbits start : Nat) : Nat :=
  (findFrom (bitAt addr) start (nbits - start)).getD nbits

theorem firstSetFrom_eq_nbits_iff (addr : Nat → UInt64) (nbits start : Nat) :
    firstSetFrom addr nbits start = nbits ↔ ∀ index, start ≤ index → index < nbits → bitAt addr index = false := by
  unfold firstSetFrom
  cases found : findFrom (bitAt addr) start (nbits - start) with
  | none =>
      rw [findFrom_eq_none_iff] at found
      simp only [Option.getD_none, true_iff]
      intro index above below
      exact found index above (by omega)
  | some index =>
      obtain ⟨above, below, set, -⟩ := findFrom_eq_some_iff.mp found
      simp only [Option.getD_some]
      constructor
      · intro same
        omega
      · intro clear
        rw [clear index above (by omega)] at set
        contradiction

theorem findNextBit_of_aligned (maskLow : runtime.MaskLow) (lsbLowest : runtime.LsbLowest) {start : Nat}
    (aligned : start % 64 = 0 ∨ nbits ≤ (start / 64 + 1) * 64) :
    findNextBit runtime addr nbits start = firstSetFrom addr nbits start := by
  have whole := @findFrom_min_or (bitAt addr) start ((start / 64 + 1) * 64 - start) (nbits - start)
  have firstWord : min ((start / 64 + 1) * 64 - start) (nbits - start) = min nbits ((start / 64 + 1) * 64) - start := by
    omega
  have boundary : start + ((start / 64 + 1) * 64 - start) = (start / 64 + 1) * 64 := by omega
  have rest : nbits - start - ((start / 64 + 1) * 64 - start) = nbits - start % 64 - (start / 64 + 1) * 64 := by
    omega
  rw [firstWord, boundary, rest] at whole
  rw [findNextBit_eq maskLow lsbLowest, firstSetFrom, whole]

def lastBitOnly (word : Nat) : UInt64 := if word = 1 then 0x8000000000000000 else 0

theorem findNextBit_misses_last_bit (runtime : Runtime) (maskLow : runtime.MaskLow) (lsbLowest : runtime.LsbLowest) :
    bitAt lastBitOnly 127 = true ∧ firstSetFrom lastBitOnly 128 1 = 127 ∧ findNextBit runtime lastBitOnly 128 1 = 128 := by
  refine ⟨by decide, by decide, ?_⟩
  rw [findNextBit_eq maskLow lsbLowest]
  decide

theorem byBits_findNextBit_misses_last_bit :
    Runtime.byBits.MaskLow ∧ Runtime.byBits.LsbLowest ∧
      bitAt lastBitOnly 127 = true ∧ firstSetFrom lastBitOnly 128 1 = 127 ∧
      findNextBit Runtime.byBits lastBitOnly 128 1 = 128 :=
  ⟨Runtime.maskLow_byBits, Runtime.lsbLowest_byBits,
    findNextBit_misses_last_bit Runtime.byBits Runtime.maskLow_byBits Runtime.lsbLowest_byBits⟩

end Next

section Zero

variable {runtime : Runtime}

theorem not_or_eq (a b : UInt64) : ~~~(a ||| b) = ~~~a &&& ~~~b := by
  apply UInt64.eq_of_toBitVec_eq
  simp [BitVec.not_or]

theorem not_findNextZeroBitWord (mask : Nat → UInt64) (word : UInt64) (bitOffset nbits start : Nat) :
    ~~~(if nbits - start < 64 - bitOffset then (if bitOffset > 0 then word ||| mask bitOffset else word) |||
        ~~~mask (bitOffset + nbits - start)
      else if bitOffset > 0 then word ||| mask bitOffset else word) =
    (if nbits - start < 64 - bitOffset then (if bitOffset > 0 then ~~~word &&& ~~~mask bitOffset else ~~~word) &&&
        mask (bitOffset + nbits - start)
      else if bitOffset > 0 then ~~~word &&& ~~~mask bitOffset else ~~~word) := by
  split <;> split <;> simp only [not_or_eq, UInt64.not_not]

theorem findNextZeroBitLoop_eq_not (runtime : Runtime) (addr : Nat → UInt64) (nbits : Nat) :
    ∀ fuel start wordOffset bitOffset, findNextZeroBitLoop runtime addr nbits fuel start wordOffset bitOffset =
      findNextBitLoop runtime (fun word => ~~~addr word) nbits fuel start wordOffset bitOffset := by
  intro fuel
  induction fuel with
  | zero => intro _ _ _; rfl
  | succ fuel ih =>
      intro start wordOffset bitOffset
      simp only [findNextZeroBitLoop, findNextBitLoop, not_findNextZeroBitWord, ih]

theorem findNextZeroBit_eq_not (runtime : Runtime) (addr : Nat → UInt64) (nbits start : Nat) :
    findNextZeroBit runtime addr nbits start = findNextBit runtime (fun word => ~~~addr word) nbits start :=
  findNextZeroBitLoop_eq_not runtime addr nbits _ _ _ _

theorem bitAt_not (addr : Nat → UInt64) : bitAt (fun word => ~~~addr word) = fun index => !bitAt addr index := by
  funext index
  unfold bitAt
  rw [UInt64.toBitVec_not, BitVec.getLsbD_not, decide_eq_true (Nat.mod_lt _ (by omega)), Bool.true_and]

def firstClearFrom (addr : Nat → UInt64) (nbits start : Nat) : Nat :=
  (findFrom (fun index => !bitAt addr index) start (nbits - start)).getD nbits

theorem firstClearFrom_eq_nbits_iff (addr : Nat → UInt64) (nbits start : Nat) :
    firstClearFrom addr nbits start = nbits ↔ ∀ index, start ≤ index → index < nbits → bitAt addr index = true := by
  have same : firstClearFrom addr nbits start = firstSetFrom (fun word => ~~~addr word) nbits start := by
    rw [firstClearFrom, firstSetFrom, bitAt_not]
  rw [same, firstSetFrom_eq_nbits_iff, bitAt_not]
  simp only [Bool.not_eq_false']

/-- `find_next_zero_bit` misses the same tail as `find_next_bit`. -/
theorem findNextZeroBit_eq (maskLow : runtime.MaskLow) (lsbLowest : runtime.LsbLowest) (addr : Nat → UInt64)
    (nbits start : Nat) :
    findNextZeroBit runtime addr nbits start =
      ((findFrom (fun index => !bitAt addr index) start (min nbits ((start / 64 + 1) * 64) - start)).or
        (findFrom (fun index => !bitAt addr index) ((start / 64 + 1) * 64)
          (nbits - start % 64 - (start / 64 + 1) * 64))).getD nbits := by
  rw [findNextZeroBit_eq_not, findNextBit_eq maskLow lsbLowest, bitAt_not]

theorem findNextZeroBit_of_aligned (maskLow : runtime.MaskLow) (lsbLowest : runtime.LsbLowest)
    {addr : Nat → UInt64} {nbits start : Nat} (aligned : start % 64 = 0 ∨ nbits ≤ (start / 64 + 1) * 64) :
    findNextZeroBit runtime addr nbits start = firstClearFrom addr nbits start := by
  rw [findNextZeroBit_eq_not, findNextBit_of_aligned maskLow lsbLowest aligned, firstSetFrom, firstClearFrom, bitAt_not]

end Zero

section Last

variable {runtime : Runtime} {addr : Nat → UInt64} {nbits : Nat}

theorem findLastBitLoop_eq (msbHighest : runtime.MsbHighest) :
    ∀ {wordOffset high : Nat} {w : UInt64}, high ≤ 64 →
      runtime.msb w = findLast (fun p => bitAt addr (wordOffset * 64 + p)) high →
      findLastBitLoop runtime addr nbits wordOffset w = (findLast (bitAt addr) (wordOffset * 64 + high)).getD nbits := by
  intro wordOffset
  induction wordOffset with
  | zero =>
      intro high w _ top
      simp only [Nat.zero_mul, Nat.zero_add] at top ⊢
      rw [findLastBitLoop, top]
      cases findLast (bitAt addr) high <;> rfl
  | succ wordOffset ih =>
      intro high w _ top
      have below : runtime.msb (addr wordOffset) = findLast (fun p => bitAt addr (wordOffset * 64 + p)) 64 :=
        msb_window msbHighest (Nat.le_refl 64) fun p lt => by
          rw [bitAt_inWord addr wordOffset p lt, decide_eq_true lt, Bool.true_and]
      rw [findLastBitLoop, top, findLast_add, @ih 64 (addr wordOffset) (Nat.le_refl 64) below,
        show wordOffset * 64 + 64 = (wordOffset + 1) * 64 by omega]
      cases findLast (fun p => bitAt addr ((wordOffset + 1) * 64 + p)) high <;> rfl

/-- `find_last_bit` finds the highest set bit below `nbits - 1`: its first word
is masked with `MASK(nbits - 1 - 64 * word_offset)`, which drops bit
`nbits - 1` itself. -/
theorem findLastBit_eq (maskLow : runtime.MaskLow) (msbHighest : runtime.MsbHighest) (addr : Nat → UInt64)
    (nonempty : 0 < nbits) :
    findLastBit runtime addr nbits = (findLast (bitAt addr) (nbits - 1)).getD nbits := by
  have top : runtime.msb (addr ((nbits - 1) / 64) &&& runtime.mask (nbits - 1 - (nbits - 1) / 64 * 64)) =
      findLast (fun p => bitAt addr ((nbits - 1) / 64 * 64 + p)) (nbits - 1 - (nbits - 1) / 64 * 64) :=
    msb_window msbHighest (by omega) fun p lt => by
      rw [UInt64.toBitVec_and, BitVec.getLsbD_and, maskLow, bitAt_inWord addr _ p lt, decide_eq_true lt,
        Bool.true_and, Bool.and_comm]
  rw [findLastBit, if_pos (Nat.pos_iff_ne_zero.mp nonempty)]
  dsimp only
  rw [findLastBitLoop_eq msbHighest (by omega) top, show (nbits - 1) / 64 * 64 + (nbits - 1 - (nbits - 1) / 64 * 64) = nbits - 1 by
    omega]

end Last

section Bits

theorem getLsbD_bit {k : Nat} (inWord : k < 64) (p : Nat) :
    ((1 : UInt64) <<< UInt64.ofNat k).toBitVec.getLsbD p = decide (p = k) := by
  have amount : ((UInt64.ofNat k).toBitVec % 64).toNat = k := by
    rw [BitVec.toNat_umod, UInt64.toBitVec_ofNat', BitVec.toNat_ofNat, toNat_sixtyFour]
    omega
  rw [UInt64.toBitVec_shiftLeft, BitVec.shiftLeft_eq', BitVec.getLsbD_shiftLeft, amount]
  by_cases same : p = k
  · subst same
    simp [inWord]
  · simp [same]
    omega

theorem bitAt_setBit (bit : Nat) (addr : Nat → UInt64) (index : Nat) :
    bitAt (setBit bit addr) index = (decide (index = bit) || bitAt addr index) := by
  unfold bitAt setBit
  by_cases word : index / 64 = bit / 64
  · rw [word, Function.update_self, UInt64.toBitVec_or, BitVec.getLsbD_or, getLsbD_bit (Nat.mod_lt _ (by omega)),
      ← word, Bool.or_comm]
    congr 1
    simp only [decide_eq_decide]
    omega
  · rw [Function.update_of_ne word]
    have other : index ≠ bit := fun same => word (by rw [same])
    simp [other]

theorem forEachBitFrom_of_le {find : (Nat → UInt64) → Nat → Nat → Nat}
    {update : Nat → (Nat → UInt64) → Nat → UInt64} {nbits index : Nat} (fuel : Nat) (map : Nat → UInt64)
    (done : nbits ≤ index) :
    forEachBitFrom find update nbits fuel map index = map := by
  cases fuel with
  | zero => rfl
  | succ fuel => rw [forEachBitFrom, if_neg (by omega)]

end Bits

section Weight

theorem and_bit_ne_zero (map : UInt64) {i : Nat} (inWord : i < 64) :
    (map &&& 1 <<< UInt64.ofNat i != 0) = map.toBitVec.getLsbD i := by
  have zero : (map &&& 1 <<< UInt64.ofNat i = 0) ↔ map.toBitVec.getLsbD i = false := by
    rw [eq_zero_iff_getLsbD]
    constructor
    · intro clear
      have bit := clear i inWord
      rw [UInt64.toBitVec_and, BitVec.getLsbD_and, getLsbD_bit inWord] at bit
      simpa using bit
    · intro clear p _
      rw [UInt64.toBitVec_and, BitVec.getLsbD_and, getLsbD_bit inWord]
      by_cases same : p = i
      · rw [same, clear, Bool.false_and]
      · rw [decide_eq_false same, Bool.and_false]
  cases bit : map.toBitVec.getLsbD i
  · simp [zero.mpr bit]
  · have : map &&& 1 <<< UInt64.ofNat i ≠ 0 := fun eq => by simp [zero.mp eq] at bit
    simp [this]

theorem countWordBits_eq (map : UInt64) {count : Nat} (inWord : count ≤ 64) :
    countWordBits map count = (List.range count).countP (fun i => map.toBitVec.getLsbD i) := by
  induction count with
  | zero => rfl
  | succ count ih =>
      rw [countWordBits, ih (by omega), and_bit_ne_zero map (by omega), List.range_succ, List.countP_append,
        List.countP_singleton]

theorem countWordBits_word (src : Nat → UInt64) (word : Nat) {count : Nat} (inWord : count ≤ 64) :
    countWordBits (src word) count = (List.range' (word * 64) count).countP (bitAt src) := by
  rw [countWordBits_eq _ inWord, List.range'_eq_map_range, List.countP_map]
  apply List.countP_congr
  intro i member
  rw [Function.comp_apply, bitAt_inWord src word i (by simp at member; omega)]

theorem bitmapWeightLoop_eq (src : Nat → UInt64) (nbits : Nat) :
    ∀ words word w, bitmapWeightLoop src nbits words word w =
      w + (List.range' (word * 64) (words * 64 + nbits % 64)).countP (bitAt src) := by
  intro words
  induction words with
  | zero =>
      intro word w
      rw [bitmapWeightLoop, Nat.zero_mul, Nat.zero_add]
      split
      · rw [countWordBits_word src word (Nat.le_of_lt (Nat.mod_lt _ (by omega)))]
      · rename_i whole
        rw [show nbits % 64 = 0 by omega]
        rfl
  | succ words ih =>
      intro word w
      rw [bitmapWeightLoop, ih, countWordBits_word src word (Nat.le_refl 64), Nat.add_assoc, ← List.countP_append,
        show (word + 1) * 64 = word * 64 + 64 by omega, List.range'_append_1,
        show 64 + (words * 64 + nbits % 64) = (words + 1) * 64 + nbits % 64 by omega]

theorem bitmapWeight_eq (src : Nat → UInt64) (nbits : Nat) :
    bitmapWeight src nbits = (List.range nbits).countP (bitAt src) := by
  rw [bitmapWeight, bitmapWeightLoop_eq, Nat.zero_mul, Nat.zero_add, Nat.div_add_mod', List.range_eq_range']

end Weight

section Copy

theorem bitAt_bitmapCpy {runtime : Runtime} (memcpyBytes : runtime.MemcpyBytes) (dst src : Nat → UInt64)
    (nbits index : Nat) :
    bitAt (bitmapCpy runtime dst src nbits) index =
      if index < 8 * ((nbits + 63) / 64) then bitAt src index else bitAt dst index :=
  memcpyBytes dst src _ index

end Copy

section Equal

variable {runtime : Runtime}

theorem word_eq_iff (a b : UInt64) : a = b ↔ ∀ p < 64, a.toBitVec.getLsbD p = b.toBitVec.getLsbD p := by
  rw [← UInt64.toBitVec_inj]
  constructor
  · intro same p _
    rw [same]
  · intro bits
    apply BitVec.eq_of_getLsbD_eq
    intro p lt
    exact bits p lt

theorem masked_eq_iff (maskLow : runtime.MaskLow) (src1 src2 : Nat → UInt64) (word : Nat) {count : Nat}
    (inWord : count ≤ 64) :
    src1 word &&& runtime.mask count = src2 word &&& runtime.mask count ↔
      ∀ index, word * 64 ≤ index → index < word * 64 + count → bitAt src1 index = bitAt src2 index := by
  rw [word_eq_iff]
  constructor
  · intro same index above below
    obtain ⟨p, rfl⟩ : ∃ p, index = word * 64 + p := ⟨index - word * 64, by omega⟩
    have bit := same p (by omega)
    simp only [UInt64.toBitVec_and, BitVec.getLsbD_and, maskLow count p, show p < 64 by omega,
      show p < count by omega, decide_true, Bool.and_true] at bit
    rw [bitAt_inWord _ _ _ (by omega), bitAt_inWord _ _ _ (by omega), bit]
  · intro same p lt
    simp only [UInt64.toBitVec_and, BitVec.getLsbD_and, maskLow count p, lt, decide_true, Bool.true_and]
    by_cases inside : p < count
    · have bit := same (word * 64 + p) (by omega) (by omega)
      rw [bitAt_inWord _ _ _ lt, bitAt_inWord _ _ _ lt] at bit
      rw [bit]
    · simp [inside]

theorem bitmapEqualLoop_eq_true_iff (maskLow : runtime.MaskLow) (src1 src2 : Nat → UInt64) (nbits : Nat) :
    ∀ words word, bitmapEqualLoop runtime src1 src2 nbits words word = true ↔
      ∀ index, word * 64 ≤ index → index < (word + words) * 64 + nbits % 64 →
        bitAt src1 index = bitAt src2 index := by
  intro words
  induction words with
  | zero =>
      intro word
      rw [bitmapEqualLoop, Nat.add_zero]
      split
      · rw [beq_iff_eq, masked_eq_iff maskLow src1 src2 word (Nat.le_of_lt (Nat.mod_lt _ (by omega)))]
      · simp only [true_iff]
        intro index above below
        omega
  | succ words ih =>
      intro word
      rw [bitmapEqualLoop]
      by_cases differ : src1 word != src2 word
      · simp only [differ, if_true, Bool.false_eq_true, false_iff]
        intro same
        have whole : src1 word = src2 word := (word_eq_iff _ _).mpr fun p lt => by
          rw [← bitAt_inWord src1 word p lt, ← bitAt_inWord src2 word p lt]
          exact same _ (by omega) (by omega)
        simp [whole] at differ
      · simp only [differ, Bool.false_eq_true, if_false, ih, show word + 1 + words = word + (words + 1) by omega]
        simp only [bne_iff_ne, ne_eq, Decidable.not_not] at differ
        have whole := (masked_eq_iff maskLow src1 src2 word (Nat.le_refl 64)).mp (by rw [differ])
        constructor
        · intro rest index above below
          by_cases first : index < word * 64 + 64
          · exact whole index above first
          · exact rest index (by omega) below
        · intro all index above below
          exact all index (by omega) below

theorem bitmapEqual_eq_true_iff (maskLow : runtime.MaskLow) (src1 src2 : Nat → UInt64) (nbits : Nat) :
    bitmapEqual runtime src1 src2 nbits = true ↔ ∀ index < nbits, bitAt src1 index = bitAt src2 index := by
  rw [bitmapEqual, bitmapEqualLoop_eq_true_iff maskLow, Nat.zero_add, Nat.div_add_mod']
  simp only [Nat.zero_mul, Nat.zero_le, true_implies]

end Equal

end NvidiaGpu.Nanos
