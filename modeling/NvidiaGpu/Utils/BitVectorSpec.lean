import NvidiaGpu.Utils.BitVector
import NvidiaGpu.Uvm.Nanos
import Mathlib.Order.Interval.Finset.Nat

set_option autoImplicit false

/-! What an `NV_BITVECTOR` stands for, and what the functions that change one do
to it.  A vector of `last` flags stands for the set of its flags below `last`
that are set; it is well formed when its padding, the bits of its words from
`last` on, is clear.  Each mutator is shown to compute the set operation it is
named after, to keep the padding clear, and to write nowhere but the vector's
own words, for every flag below `last` and every nonempty range of them. -/

namespace NvidiaGpu.BitVector

open Bitmap Window Blocks Finset

def bitVectorBit (mem : Nat → UInt64) (pBitVector index : Nat) : Bool :=
  bitAt (fun word => mem (pBitVector + word)) index

def contents (mem : Nat → UInt64) (pBitVector : Nat) (bitVectorLast : UInt16) : Finset Nat :=
  (range bitVectorLast.toNat).filter fun index => bitVectorBit mem pBitVector index

/-- The padding, every bit of the vector's words from `bitVectorLast` on, is
clear. -/
def PaddingClear (mem : Nat → UInt64) (pBitVector : Nat) (bitVectorLast : UInt16) : Prop :=
  ∀ index, bitVectorLast.toNat ≤ index → index < 64 * nvBitvectorArraySize bitVectorLast.toNat →
    bitVectorBit mem pBitVector index = false

def Unchanged (mem mem' : Nat → UInt64) (start count : Nat) : Prop :=
  ∀ address, address < start ∨ start + count ≤ address → mem' address = mem address

def SameOrApart (first second count : Nat) : Prop :=
  first = second ∨ first + count ≤ second ∨ second + count ≤ first

/-- A call returned `NV_OK`, left the vector at `pBitVector` standing for `set`
with its padding clear, and wrote no word outside the vector. -/
structure Yields (mem : Nat → UInt64) (pBitVector : Nat) (bitVectorLast : UInt16) (set : Finset Nat)
    (result : NvStatus × (Nat → UInt64)) : Prop where
  ok : result.1 = .nvOk
  contents_eq : contents result.2 pBitVector bitVectorLast = set
  padding : PaddingClear result.2 pBitVector bitVectorLast
  frame : Unchanged mem result.2 pBitVector (nvBitvectorArraySize bitVectorLast.toNat)

/-! ## Shape of a vector -/

theorem nvBitvectorArraySize_eq (last : Nat) : nvBitvectorArraySize last = (last - 1) / 64 + 1 := rfl

section Shape

variable {bitVectorLast : UInt16} (positive : 0 < bitVectorLast.toNat)
include positive

theorem last_eq_words : 64 * (nvBitvectorArraySize bitVectorLast.toNat - 1) +
    nvBitvectorOffset (bitVectorLast.toNat - 1) + 1 = bitVectorLast.toNat := by
  rw [nvBitvectorArraySize_eq, nvBitvectorOffset]
  omega

theorem last_le_words : bitVectorLast.toNat ≤ 64 * nvBitvectorArraySize bitVectorLast.toNat := by
  rw [nvBitvectorArraySize_eq]
  omega

theorem word_lt_of_lt {index : Nat} (inside : index < bitVectorLast.toNat) :
    index / 64 < nvBitvectorArraySize bitVectorLast.toNat := by
  rw [nvBitvectorArraySize_eq]
  omega

end Shape

/-! ## Frames -/

section Frames

variable {mem mem' mem'' : Nat → UInt64} {start count : Nat}

theorem Unchanged.refl : Unchanged mem mem start count := fun _ _ => rfl

theorem Unchanged.trans (first : Unchanged mem mem' start count) (second : Unchanged mem' mem'' start count) :
    Unchanged mem mem'' start count := fun address outside =>
  (second address outside).trans (first address outside)

theorem Unchanged.widen {inner innerCount : Nat} (changed : Unchanged mem mem' inner innerCount)
    (within : start ≤ inner ∧ inner + innerCount ≤ start + count) : Unchanged mem mem' start count :=
  fun address outside => changed address (by omega)

theorem unchanged_modifyWord (mem : Nat → UInt64) (address : Nat) (update : UInt64 → UInt64) :
    Unchanged mem (modifyWord mem address update) address 1 := fun other outside =>
  Function.update_of_ne (by omega) _ _

theorem unchanged_writeRun (mem : Nat → UInt64) (start : Nat) (values : Nat → UInt64) (count : Nat) :
    Unchanged mem (writeRun mem start values count) start count := fun _ outside =>
  writeRun_outside outside

end Frames

/-! ## Flags of a word -/

section Flags

variable {mem : Nat → UInt64} {pBitVector : Nat}

theorem bitVectorBit_inWord (mem : Nat → UInt64) (pBitVector word : Nat) {position : Nat} (lt : position < 64) :
    bitVectorBit mem pBitVector (64 * word + position) = (mem (pBitVector + word)).toBitVec.getLsbD position := by
  rw [bitVectorBit, Nat.mul_comm, bitAt_inWord _ _ _ lt]

theorem bitVectorBit_congr {other : Nat → UInt64} {index : Nat}
    (same : other (pBitVector + index / 64) = mem (pBitVector + index / 64)) :
    bitVectorBit other pBitVector index = bitVectorBit mem pBitVector index := by
  simp only [bitVectorBit, bitAt, same]

theorem bitVectorBit_modifyWord (mem : Nat → UInt64) (pBitVector word : Nat) (update : UInt64 → UInt64) (index : Nat) :
    bitVectorBit (modifyWord mem (pBitVector + word) update) pBitVector index =
      if index / 64 = word then (update (mem (pBitVector + word))).toBitVec.getLsbD (index % 64)
      else bitVectorBit mem pBitVector index := by
  by_cases here : index / 64 = word
  · simp only [bitVectorBit, bitAt, modifyWord, here, Function.update_self, ↓reduceIte]
  · rw [if_neg here]
    exact bitVectorBit_congr (Function.update_of_ne (by omega) _ _)

theorem bitVectorBit_writeRun (mem : Nat → UInt64) (pBitVector : Nat) (values : Nat → UInt64) (count index : Nat) :
    bitVectorBit (writeRun mem pBitVector values count) pBitVector index =
      if index / 64 < count then (values (index / 64)).toBitVec.getLsbD (index % 64)
      else bitVectorBit mem pBitVector index := by
  by_cases inside : index / 64 < count
  · simp only [if_pos inside, bitVectorBit, bitAt]
    rw [writeRun_inside (by omega) (by omega), Nat.add_sub_cancel_left]
  · rw [if_neg inside]
    exact bitVectorBit_congr (writeRun_outside (by omega))

theorem getLsbD_nvBit64 {b : Nat} (lt : b < 64) (position : Nat) :
    (nvBit64 b).toBitVec.getLsbD position = decide (position = b) :=
  Nanos.getLsbD_bit lt position

theorem getLsbD_wordMask {bitVectorLast : UInt16} (positive : 0 < bitVectorLast.toNat) {idx : Nat}
    (inside : idx < nvBitvectorArraySize bitVectorLast.toNat) {position : Nat} (lt : position < 64) :
    (wordMask bitVectorLast idx).toBitVec.getLsbD position = decide (64 * idx + position < bitVectorLast.toNat) := by
  have shape := last_eq_words positive
  unfold wordMask
  split
  · rename_i below
    rw [toBitVec_allOnes64, BitVec.getLsbD_allOnes]
    simp only [decide_eq_decide]
    rw [nvBitvectorOffset] at shape
    omega
  · rename_i last
    have small : (63 - nvBitvectorOffset (bitVectorLast.toNat - 1)).toUInt64.toNat < 64 := by
      rw [Nat.toUInt64_eq, UInt64.toNat_ofNat', nvBitvectorOffset]
      omega
    rw [getLsbD_allOnes_shiftRight small, Nat.toUInt64_eq, UInt64.toNat_ofNat']
    simp only [decide_eq_decide]
    rw [nvBitvectorOffset] at shape ⊢
    omega

theorem getLsbD_and_wordMask {bitVectorLast : UInt16} (positive : 0 < bitVectorLast.toNat) {idx : Nat}
    (inside : idx < nvBitvectorArraySize bitVectorLast.toNat) (word : UInt64) {position : Nat} (lt : position < 64) :
    (word &&& wordMask bitVectorLast idx).toBitVec.getLsbD position =
      (word.toBitVec.getLsbD position && decide (64 * idx + position < bitVectorLast.toNat)) := by
  rw [UInt64.toBitVec_and, BitVec.getLsbD_and, getLsbD_wordMask positive inside lt]

theorem contents_eq_filter {bitVectorLast : UInt16} {keep : Nat → Bool}
    (agree : ∀ index < bitVectorLast.toNat, bitVectorBit mem pBitVector index = keep index) :
    contents mem pBitVector bitVectorLast = (range bitVectorLast.toNat).filter fun index => keep index :=
  filter_congr fun index inside => by rw [agree index (mem_range.mp inside)]

theorem mem_contents {bitVectorLast : UInt16} {index : Nat} :
    index ∈ contents mem pBitVector bitVectorLast ↔
      index < bitVectorLast.toNat ∧ bitVectorBit mem pBitVector index = true := by
  simp [contents]

end Flags

/-! ## One flag -/

section OneFlag

theorem bitVectorBit_writeBit {op : UInt64 → UInt64 → UInt64} {g : Bool → Bool → Bool}
    (bitwise : ∀ word bit position, position < 64 →
      (op word bit).toBitVec.getLsbD position = g (word.toBitVec.getLsbD position) (bit.toBitVec.getLsbD position))
    (keep : ∀ x, g x false = x) (mem : Nat → UInt64) (pBitVector : Nat) (idx : UInt16) (index : Nat) :
    bitVectorBit (writeBit op mem pBitVector idx) pBitVector index =
      if index = idx.toNat then g (bitVectorBit mem pBitVector index) true else bitVectorBit mem pBitVector index := by
  have position : index % 64 < 64 := Nat.mod_lt _ (by decide)
  have offset : nvBitvectorOffset idx.toNat < 64 := Nat.mod_lt _ (by decide)
  unfold writeBit
  rw [bitVectorBit_modifyWord]
  by_cases word : index / 64 = nvBitvectorIdx idx.toNat
  · have original : (mem (pBitVector + nvBitvectorIdx idx.toNat)).toBitVec.getLsbD (index % 64) =
        bitVectorBit mem pBitVector index := by
      rw [bitVectorBit, bitAt, word]
    rw [if_pos word, bitwise _ _ _ position, getLsbD_nvBit64 offset, original]
    by_cases same : index = idx.toNat
    · simp [same, nvBitvectorOffset]
    · have other : index % 64 ≠ nvBitvectorOffset idx.toNat := by
        unfold nvBitvectorIdx at word
        unfold nvBitvectorOffset
        omega
      simp [same, other, keep]
  · have other : index ≠ idx.toNat := fun same => word (by rw [same, nvBitvectorIdx])
    rw [if_neg word, if_neg other]

variable {mem : Nat → UInt64} {pBitVector : Nat} {bitVectorLast idx : UInt16}
  (positive : 0 < bitVectorLast.toNat) (inside : idx.toNat < bitVectorLast.toNat)
  (padding : PaddingClear mem pBitVector bitVectorLast)
include positive inside padding

theorem writeBit_spec (op : UInt64 → UInt64 → UInt64) (g : Bool → Bool → Bool)
    (bitwise : ∀ word bit position, position < 64 →
      (op word bit).toBitVec.getLsbD position = g (word.toBitVec.getLsbD position) (bit.toBitVec.getLsbD position))
    (keep : ∀ x, g x false = x) :
    Yields mem pBitVector bitVectorLast
      ((range bitVectorLast.toNat).filter fun index =>
        if index = idx.toNat then g (bitVectorBit mem pBitVector index) true else bitVectorBit mem pBitVector index)
      (.nvOk, writeBit op mem pBitVector idx) where
  ok := rfl
  contents_eq := contents_eq_filter fun index _ => bitVectorBit_writeBit bitwise keep mem pBitVector idx index
  padding := fun index above below => by
    rw [bitVectorBit_writeBit bitwise keep, if_neg (by omega)]
    exact padding index above below
  frame := by
    show Unchanged mem (writeBit op mem pBitVector idx) pBitVector (nvBitvectorArraySize bitVectorLast.toNat)
    have inWords := word_lt_of_lt positive inside
    exact (unchanged_modifyWord _ _ _).widen (by unfold nvBitvectorIdx; omega)

theorem bitVectorClr_spec :
    Yields mem pBitVector bitVectorLast ((contents mem pBitVector bitVectorLast).erase idx.toNat)
      (bitVectorClr mem pBitVector bitVectorLast idx) := by
  have checked : idx < bitVectorLast := UInt16.lt_iff_toNat_lt.mpr inside
  have bitwise : ∀ (word bit : UInt64) position, position < 64 →
      (word &&& ~~~bit).toBitVec.getLsbD position = (word.toBitVec.getLsbD position && !bit.toBitVec.getLsbD position) :=
    fun word bit position lt => by simp [lt]
  have spec := writeBit_spec positive inside padding _ (fun x bit => x && !bit) bitwise fun x => by simp
  rw [bitVectorClr, if_pos checked]
  refine { spec with contents_eq := spec.contents_eq.trans (ext fun index => ?_) }
  by_cases same : index = idx.toNat <;> simp [same, contents]

theorem bitVectorSet_spec :
    Yields mem pBitVector bitVectorLast (insert idx.toNat (contents mem pBitVector bitVectorLast))
      (bitVectorSet mem pBitVector bitVectorLast idx) := by
  have spec := writeBit_spec positive inside padding (· ||| ·) (· || ·) (fun word bit position _ => by simp)
    Bool.or_false
  refine { spec with contents_eq := spec.contents_eq.trans (ext fun index => ?_) }
  by_cases same : index = idx.toNat <;> simp [same, contents, inside]

theorem bitVectorInv_spec :
    Yields mem pBitVector bitVectorLast (symmDiff (contents mem pBitVector bitVectorLast) {idx.toNat})
      (bitVectorInv mem pBitVector bitVectorLast idx) := by
  have spec := writeBit_spec positive inside padding (· ^^^ ·) (· ^^ ·) (fun word bit position _ => by simp)
    Bool.xor_false
  refine { spec with contents_eq := spec.contents_eq.trans (ext fun index => ?_) }
  by_cases same : index = idx.toNat <;> simp [same, contents, mem_symmDiff, inside]

end OneFlag

/-! ## The whole vector -/

section Whole

variable {mem : Nat → UInt64} {pBitVector : Nat} {bitVectorLast : UInt16} (positive : 0 < bitVectorLast.toNat)
include positive

theorem bitVectorClrAll_spec : Yields mem pBitVector bitVectorLast ∅ (bitVectorClrAll mem pBitVector bitVectorLast) := by
  have clear : ∀ index < 64 * nvBitvectorArraySize bitVectorLast.toNat,
      bitVectorBit (bitVectorClrAll mem pBitVector bitVectorLast).2 pBitVector index = false := fun index below => by
    rw [bitVectorClrAll, bitVectorBit_writeRun, if_pos (by omega)]
    simp
  refine ⟨rfl, ?_, fun index _ below => clear index below, ?_⟩
  · rw [contents_eq_filter fun index inside => clear index (by have := last_le_words positive; omega)]
    simp
  · simp only [bitVectorClrAll]
    exact unchanged_writeRun _ _ _ _

theorem bitVectorSetAll_spec :
    Yields mem pBitVector bitVectorLast (range bitVectorLast.toNat) (bitVectorSetAll mem pBitVector bitVectorLast) := by
  have shape := last_eq_words positive
  have lastWord : nvBitvectorArraySize bitVectorLast.toNat - 1 < nvBitvectorArraySize bitVectorLast.toNat := by
    rw [nvBitvectorArraySize_eq]
    omega
  have masked : allOnes64 >>> (63 - nvBitvectorOffset (bitVectorLast.toNat - 1)).toUInt64 =
      wordMask bitVectorLast (nvBitvectorArraySize bitVectorLast.toNat - 1) := by
    rw [wordMask, if_neg (Nat.lt_irrefl _)]
  have flags : ∀ index < 64 * nvBitvectorArraySize bitVectorLast.toNat,
      bitVectorBit (bitVectorSetAll mem pBitVector bitVectorLast).2 pBitVector index =
        decide (index < bitVectorLast.toNat) := fun index below => by
    have position : index % 64 < 64 := Nat.mod_lt _ (by decide)
    have split := Nat.div_add_mod index 64
    rw [nvBitvectorOffset] at shape
    by_cases last : index / 64 = nvBitvectorArraySize bitVectorLast.toNat - 1
    · simp only [bitVectorSetAll, bitVectorBit_modifyWord, if_pos last]
      rw [writeRun_inside (by omega) (by omega), masked, getLsbD_and_wordMask positive lastWord _ position]
      simp only [toBitVec_allOnes64, BitVec.getLsbD_allOnes, position, decide_true, Bool.true_and,
        decide_eq_decide]
      omega
    · simp only [bitVectorSetAll, bitVectorBit_modifyWord, if_neg last, bitVectorBit_writeRun,
        if_pos (show index / 64 < nvBitvectorArraySize bitVectorLast.toNat by omega), toBitVec_allOnes64,
        BitVec.getLsbD_allOnes, position, decide_true]
      symm
      rw [decide_eq_true_eq]
      omega
  refine ⟨rfl, ?_, fun index above below => by rw [flags index below]; simpa using above, ?_⟩
  · rw [contents_eq_filter fun index inside => flags index (by have := last_le_words positive; omega)]
    exact filter_true_of_mem fun index inside => by simpa using inside
  · simp only [bitVectorSetAll]
    exact (unchanged_writeRun _ _ _ _).trans ((unchanged_modifyWord _ _ _).widen (by omega))

end Whole

/-! ## Word by word -/

theorem wordLoop_eq {pDst count : Nat} {word : (Nat → UInt64) → Nat → UInt64} {mem : Nat → UInt64}
    (reads : ∀ idx < count, ∀ other : Nat → UInt64, Unchanged mem other pDst idx → word other idx = word mem idx) :
    wordLoop pDst word count mem = writeRun mem pDst (word mem) count := by
  induction count with
  | zero =>
      funext address
      simp [wordLoop, writeRun]
  | succ count ih =>
      have earlier := ih fun idx below => reads idx (by omega)
      have step : wordLoop pDst word (count + 1) mem =
          Function.update (wordLoop pDst word count mem) (pDst + count) (word (wordLoop pDst word count mem) count) := by
        simp only [wordLoop, List.range_succ, List.foldl_append, List.foldl_cons, List.foldl_nil]
      rw [step, earlier, reads count (by omega) _ (unchanged_writeRun _ _ _ _)]
      funext address
      by_cases here : address = pDst + count
      · rw [here, Function.update_self, writeRun_inside (by omega) (by omega), Nat.add_sub_cancel_left]
      · rw [Function.update_of_ne here]
        by_cases inside : pDst ≤ address ∧ address < pDst + count
        · rw [writeRun_inside inside.1 inside.2, writeRun_inside inside.1 (by omega)]
        · rw [writeRun_outside (by omega), writeRun_outside (by omega)]

theorem read_of_sameOrApart {mem other : Nat → UInt64} {pDst pSrc count idx : Nat}
    (apart : SameOrApart pSrc pDst count) (below : idx < count) (unchanged : Unchanged mem other pDst idx) :
    other (pSrc + idx) = mem (pSrc + idx) :=
  unchanged _ (by unfold SameOrApart at apart; omega)

section WordWise

variable {mem : Nat → UInt64} {pBitVectorDst : Nat} {bitVectorLast : UInt16} (positive : 0 < bitVectorLast.toNat)
include positive

theorem maskedLoop_spec (value : (Nat → UInt64) → Nat → UInt64) {keep : Nat → Bool}
    (reads : ∀ idx < nvBitvectorArraySize bitVectorLast.toNat, ∀ other : Nat → UInt64,
      Unchanged mem other pBitVectorDst idx → value other idx = value mem idx)
    (flags : ∀ index, (value mem (index / 64)).toBitVec.getLsbD (index % 64) = keep index) :
    Yields mem pBitVectorDst bitVectorLast ((range bitVectorLast.toNat).filter fun index => keep index)
      (.nvOk, wordLoop pBitVectorDst (fun mem idx => value mem idx &&& wordMask bitVectorLast idx)
        (nvBitvectorArraySize bitVectorLast.toNat) mem) := by
  have loop : wordLoop pBitVectorDst (fun mem idx => value mem idx &&& wordMask bitVectorLast idx)
      (nvBitvectorArraySize bitVectorLast.toNat) mem =
        writeRun mem pBitVectorDst (fun idx => value mem idx &&& wordMask bitVectorLast idx)
          (nvBitvectorArraySize bitVectorLast.toNat) :=
    wordLoop_eq fun idx below other unchanged => by
      rw [reads idx below other unchanged]
  have bits : ∀ index < 64 * nvBitvectorArraySize bitVectorLast.toNat,
      bitVectorBit (wordLoop pBitVectorDst (fun mem idx => value mem idx &&& wordMask bitVectorLast idx)
        (nvBitvectorArraySize bitVectorLast.toNat) mem) pBitVectorDst index =
        (keep index && decide (index < bitVectorLast.toNat)) := fun index below => by
    have word : index / 64 < nvBitvectorArraySize bitVectorLast.toNat := by omega
    have split := Nat.div_add_mod index 64
    rw [loop, bitVectorBit_writeRun, if_pos word, getLsbD_and_wordMask positive word _ (Nat.mod_lt _ (by decide)),
      flags, split]
  refine ⟨rfl, ?_, fun index above below => by rw [bits index below]; simp [above], ?_⟩
  · rw [contents_eq_filter fun index inside => bits index (by have := last_le_words positive; omega)]
    exact filter_congr fun index inside => by simp [mem_range.mp inside]
  · show Unchanged mem (wordLoop _ _ _ mem) _ _
    rw [loop]
    exact unchanged_writeRun _ _ _ _

variable {pBitVectorA pBitVectorB : Nat}
  (apartA : SameOrApart pBitVectorA pBitVectorDst (nvBitvectorArraySize bitVectorLast.toNat))
  (apartB : SameOrApart pBitVectorB pBitVectorDst (nvBitvectorArraySize bitVectorLast.toNat))
include apartA apartB

theorem combine_spec (op : UInt64 → UInt64 → UInt64) (g : Bool → Bool → Bool)
    (bitwise : ∀ a b position, (op a b).toBitVec.getLsbD position = g (a.toBitVec.getLsbD position) (b.toBitVec.getLsbD position)) :
    Yields mem pBitVectorDst bitVectorLast
      ((range bitVectorLast.toNat).filter fun index =>
        g (bitVectorBit mem pBitVectorA index) (bitVectorBit mem pBitVectorB index))
      (combine op mem pBitVectorDst bitVectorLast pBitVectorA bitVectorLast pBitVectorB bitVectorLast) := by
  rw [combine, if_pos ⟨rfl, rfl⟩]
  exact maskedLoop_spec positive (fun mem idx => op (mem (pBitVectorA + idx)) (mem (pBitVectorB + idx)))
    (fun idx below other unchanged => by
      rw [read_of_sameOrApart apartA below unchanged, read_of_sameOrApart apartB below unchanged])
    (fun index => bitwise (mem (pBitVectorA + index / 64)) (mem (pBitVectorB + index / 64)) (index % 64))

theorem bitVectorAnd_spec :
    Yields mem pBitVectorDst bitVectorLast (contents mem pBitVectorA bitVectorLast ∩ contents mem pBitVectorB bitVectorLast)
      (bitVectorAnd mem pBitVectorDst bitVectorLast pBitVectorA bitVectorLast pBitVectorB bitVectorLast) := by
  have same : contents mem pBitVectorA bitVectorLast ∩ contents mem pBitVectorB bitVectorLast =
      (range bitVectorLast.toNat).filter fun index =>
        (bitVectorBit mem pBitVectorA index && bitVectorBit mem pBitVectorB index) := by
    ext index
    simp only [contents, mem_inter, mem_filter, mem_range, Bool.and_eq_true]
    tauto
  rw [same]
  exact combine_spec positive apartA apartB (· &&& ·) (· && ·) fun a b position => by simp

theorem bitVectorOr_spec :
    Yields mem pBitVectorDst bitVectorLast (contents mem pBitVectorA bitVectorLast ∪ contents mem pBitVectorB bitVectorLast)
      (bitVectorOr mem pBitVectorDst bitVectorLast pBitVectorA bitVectorLast pBitVectorB bitVectorLast) := by
  have same : contents mem pBitVectorA bitVectorLast ∪ contents mem pBitVectorB bitVectorLast =
      (range bitVectorLast.toNat).filter fun index =>
        (bitVectorBit mem pBitVectorA index || bitVectorBit mem pBitVectorB index) := by
    ext index
    simp only [contents, mem_union, mem_filter, mem_range, Bool.or_eq_true]
    tauto
  rw [same]
  exact combine_spec positive apartA apartB (· ||| ·) (· || ·) fun a b position => by simp

theorem bitVectorXor_spec :
    Yields mem pBitVectorDst bitVectorLast
      (symmDiff (contents mem pBitVectorA bitVectorLast) (contents mem pBitVectorB bitVectorLast))
      (bitVectorXor mem pBitVectorDst bitVectorLast pBitVectorA bitVectorLast pBitVectorB bitVectorLast) := by
  have same : symmDiff (contents mem pBitVectorA bitVectorLast) (contents mem pBitVectorB bitVectorLast) =
      (range bitVectorLast.toNat).filter fun index =>
        (bitVectorBit mem pBitVectorA index ^^ bitVectorBit mem pBitVectorB index) := by
    ext index
    simp only [contents, mem_symmDiff, mem_filter, mem_range]
    cases bitVectorBit mem pBitVectorA index <;> cases bitVectorBit mem pBitVectorB index <;> simp
  rw [same]
  exact combine_spec positive apartA apartB (· ^^^ ·) (· ^^ ·) fun a b position => by simp

end WordWise

theorem bitVectorComplement_spec {mem : Nat → UInt64} {pBitVectorDst pBitVectorSrc : Nat} {bitVectorLast : UInt16}
    (positive : 0 < bitVectorLast.toNat)
    (apart : SameOrApart pBitVectorSrc pBitVectorDst (nvBitvectorArraySize bitVectorLast.toNat)) :
    Yields mem pBitVectorDst bitVectorLast (range bitVectorLast.toNat \ contents mem pBitVectorSrc bitVectorLast)
      (bitVectorComplement mem pBitVectorDst bitVectorLast pBitVectorSrc bitVectorLast) := by
  have same : range bitVectorLast.toNat \ contents mem pBitVectorSrc bitVectorLast =
      (range bitVectorLast.toNat).filter fun index => !bitVectorBit mem pBitVectorSrc index := by
    ext index
    simp only [contents, mem_sdiff, mem_filter, mem_range, Bool.not_eq_true']
    cases bitVectorBit mem pBitVectorSrc index <;> simp
  rw [same, bitVectorComplement, if_pos rfl]
  exact maskedLoop_spec positive (fun mem idx => ~~~mem (pBitVectorSrc + idx))
    (fun idx below other unchanged => by
      rw [read_of_sameOrApart apart below unchanged])
    (fun index => by simp [bitVectorBit, bitAt, Nat.mod_lt index (show 0 < 64 by decide)])

theorem bitVectorCopy_spec {mem : Nat → UInt64} {pBitVectorDst pBitVectorSrc : Nat} {bitVectorLast : UInt16}
    (positive : 0 < bitVectorLast.toNat) (padding : PaddingClear mem pBitVectorSrc bitVectorLast)
    (different : pBitVectorDst ≠ pBitVectorSrc) :
    Yields mem pBitVectorDst bitVectorLast (contents mem pBitVectorSrc bitVectorLast)
      (bitVectorCopy mem pBitVectorDst bitVectorLast pBitVectorSrc bitVectorLast) := by
  have copied : ∀ index, bitVectorBit (copyBlock mem pBitVectorDst pBitVectorSrc
      (nvBitvectorArraySize bitVectorLast.toNat)) pBitVectorDst index =
        if index / 64 < nvBitvectorArraySize bitVectorLast.toNat then bitVectorBit mem pBitVectorSrc index
        else bitVectorBit mem pBitVectorDst index := fun index => by
    rw [copyBlock, bitVectorBit_writeRun]
    rfl
  rw [bitVectorCopy, if_neg (not_not.mpr rfl), if_neg different]
  refine ⟨rfl, ?_, fun index above below => ?_, unchanged_writeRun mem pBitVectorDst (fun cell => mem (pBitVectorSrc + cell)) _⟩
  · exact contents_eq_filter fun index inside => by rw [copied, if_pos (word_lt_of_lt positive inside)]
  · rw [copied, if_pos (by omega)]
    exact padding index above below

/-! ## Ranges -/

theorem bitVectorBit_modifyWord_of_bitwise {setWord : UInt64 → UInt64} {f : Bool → Bool}
    (wordwise : ∀ word position, position < 64 → (setWord word).toBitVec.getLsbD position = f (word.toBitVec.getLsbD position))
    (mem : Nat → UInt64) (pBitVector word index : Nat) :
    bitVectorBit (modifyWord mem (pBitVector + word) setWord) pBitVector index =
      if index / 64 = word then f (bitVectorBit mem pBitVector index) else bitVectorBit mem pBitVector index := by
  rw [bitVectorBit_modifyWord]
  split
  · rename_i here
    rw [wordwise _ _ (Nat.mod_lt _ (by decide)), bitVectorBit, bitAt, here]
  · rfl

theorem writeBit_flags (op : UInt64 → UInt64 → UInt64) (g : Bool → Bool → Bool) (f : Bool → Bool)
    (bitwise : ∀ word bit position, position < 64 →
      (op word bit).toBitVec.getLsbD position = g (word.toBitVec.getLsbD position) (bit.toBitVec.getLsbD position))
    (keep : ∀ x, g x false = x) (hit : ∀ x, g x true = f x) (mem : Nat → UInt64) (pBitVector : Nat) (idx : UInt16) :
    (∀ index, bitVectorBit (writeBit op mem pBitVector idx) pBitVector index =
      if index = idx.toNat then f (bitVectorBit mem pBitVector index) else bitVectorBit mem pBitVector index) ∧
    Unchanged mem (writeBit op mem pBitVector idx) (pBitVector + idx.toNat / 64) 1 :=
  ⟨fun index => by rw [bitVectorBit_writeBit bitwise keep, hit], unchanged_modifyWord _ _ _⟩

section Ranges

variable {mem : Nat → UInt64} {pBitVector : Nat} {bitVectorLast : UInt16} {range : NvRange}
  (setWord : UInt64 → UInt64) (setBit : (Nat → UInt64) → UInt16 → NvStatus × (Nat → UInt64)) (f : Bool → Bool)
  (positive : 0 < bitVectorLast.toNat) (high : range.hi.toNat < bitVectorLast.toNat)
  (wordwise : ∀ word position, position < 64 → (setWord word).toBitVec.getLsbD position = f (word.toBitVec.getLsbD position))
  (flagwise : ∀ (mem : Nat → UInt64) (idx : UInt16), idx.toNat < bitVectorLast.toNat → ∃ mem',
    setBit mem idx = (.nvOk, mem') ∧
    (∀ index, bitVectorBit mem' pBitVector index =
      if index = idx.toNat then f (bitVectorBit mem pBitVector index) else bitVectorBit mem pBitVector index) ∧
    Unchanged mem mem' (pBitVector + idx.toNat / 64) 1)
include positive high wordwise flagwise

theorem rangeLoop_spec (fuel : Nat) : ∀ (idx : UInt16) (mem : Nat → UInt64), idx.toNat ≤ range.hi.toNat + 1 →
    range.hi.toNat + 1 - idx.toNat < fuel →
    ∃ mem', rangeLoop setWord setBit pBitVector range fuel idx mem = some (.nvOk, mem') ∧
      (∀ index, bitVectorBit mem' pBitVector index =
        if idx.toNat ≤ index ∧ index ≤ range.hi.toNat then f (bitVectorBit mem pBitVector index)
        else bitVectorBit mem pBitVector index) ∧
      Unchanged mem mem' pBitVector (nvBitvectorArraySize bitVectorLast.toNat) := by
  have hiSmall : range.hi.toNat < 65535 := by
    have := UInt16.toNat_lt bitVectorLast
    omega
  have hi16 : range.hi.toUInt16.toNat = range.hi.toNat := by
    rw [UInt64.toNat_toUInt16]
    omega
  induction fuel with
  | zero => intro idx mem _ enough; omega
  | succ fuel ih =>
      intro idx mem upTo enough
      rw [rangeLoop]
      by_cases running : idx ≤ range.hi.toUInt16
      · have atMost : idx.toNat ≤ range.hi.toNat := by
          rw [UInt16.le_iff_toNat_le, hi16] at running
          exact running
        have inWords : pBitVector + idx.toNat / 64 + 1 ≤ pBitVector + nvBitvectorArraySize bitVectorLast.toNat := by
          have := word_lt_of_lt positive (show idx.toNat < bitVectorLast.toNat by omega)
          omega
        rw [if_pos running]
        by_cases whole : (nvBitvectorOffset idx.toNat == 0 &&
            rangeContains range (rangeMake (idx.toNat + 63).toUInt64 (idx.toNat + 63).toUInt64)) = true
        · have aligned : idx.toNat % 64 = 0 ∧ idx.toNat + 63 ≤ range.hi.toNat := by
            simp only [nvBitvectorOffset, rangeContains, rangeMake, Bool.and_eq_true, beq_iff_eq,
              decide_eq_true_eq, ge_iff_le, UInt64.le_iff_toNat_le, Nat.toUInt64_eq, UInt64.toNat_ofNat'] at whole
            omega
          have next : (idx + 63 + 1).toNat = idx.toNat + 64 := by
            simp only [UInt16.toNat_add]
            simp
            omega
          rw [if_pos whole]
          obtain ⟨mem', run, bits, frame⟩ := ih (idx + 63 + 1)
            (modifyWord mem (pBitVector + nvBitvectorIdx idx.toNat) setWord) (by omega) (by omega)
          refine ⟨mem', run, fun index => ?_, ((unchanged_modifyWord _ _ _).widen (by
            unfold nvBitvectorIdx
            omega)).trans frame⟩
          rw [bits index, next, bitVectorBit_modifyWord_of_bitwise wordwise]
          unfold nvBitvectorIdx
          split_ifs <;> first | rfl | omega
        · rw [if_neg whole]
          obtain ⟨mem₁, step, bits₁, frame₁⟩ := flagwise mem idx (by omega)
          have next : (idx + 1).toNat = idx.toNat + 1 := by
            simp only [UInt16.toNat_add]
            simp
            omega
          obtain ⟨mem', run, bits, frame⟩ := ih (idx + 1) mem₁ (by omega) (by omega)
          rw [step]
          refine ⟨mem', run, fun index => ?_, (frame₁.widen (by omega)).trans frame⟩
          rw [bits index, next, bits₁]
          split_ifs <;> first | rfl | omega
      · have past : range.hi.toNat < idx.toNat := by
          rw [UInt16.le_iff_toNat_le, hi16] at running
          omega
        rw [if_neg running]
        exact ⟨mem, rfl, fun index => by rw [if_neg (by omega)], Unchanged.refl⟩

theorem rangeOp_spec (padding : PaddingClear mem pBitVector bitVectorLast) (ordered : range.lo.toNat ≤ range.hi.toNat) :
    ∃ result, rangeOp setWord setBit mem pBitVector bitVectorLast range = some result ∧
      Yields mem pBitVector bitVectorLast
        ((Finset.range bitVectorLast.toNat).filter fun index =>
          if range.lo.toNat ≤ index ∧ index ≤ range.hi.toNat then f (bitVectorBit mem pBitVector index)
          else bitVectorBit mem pBitVector index) result := by
  have lo16 : range.lo.toUInt16.toNat = range.lo.toNat := by
    have := UInt16.toNat_lt bitVectorLast
    rw [UInt64.toNat_toUInt16]
    omega
  have lastSmall := UInt16.toNat_lt bitVectorLast
  have accepted : rangeContains (rangeMake 0 (bitVectorLast.toNat.toUInt64 - 1)) range = true := by
    have top : (bitVectorLast.toNat.toUInt64 - 1).toNat = bitVectorLast.toNat - 1 := by
      rw [UInt64.toNat_sub_of_le _ _ (by rw [UInt64.le_iff_toNat_le, Nat.toUInt64_eq, UInt64.toNat_ofNat']; simp; omega),
        Nat.toUInt64_eq, UInt64.toNat_ofNat']
      simp
    simp only [rangeContains, rangeMake, Bool.and_eq_true, decide_eq_true_eq, ge_iff_le, UInt64.le_iff_toNat_le, top]
    exact ⟨Nat.zero_le _, by omega⟩
  obtain ⟨mem', run, bits, frame⟩ := rangeLoop_spec setWord setBit f positive high wordwise flagwise 65536
    range.lo.toUInt16 mem (by omega) (by omega)
  refine ⟨(.nvOk, mem'), by rw [rangeOp, if_pos accepted, run], rfl, ?_, fun index above below => ?_, frame⟩
  · exact contents_eq_filter fun index _ => by rw [bits, lo16]
  · rw [bits, if_neg (by omega)]
    exact padding index above below

end Ranges

section RangeFunctions

variable {mem : Nat → UInt64} {pBitVector : Nat} {bitVectorLast : UInt16} {range : NvRange}
  (positive : 0 < bitVectorLast.toNat) (padding : PaddingClear mem pBitVector bitVectorLast)
  (ordered : range.lo.toNat ≤ range.hi.toNat) (high : range.hi.toNat < bitVectorLast.toNat)
include positive padding ordered high

theorem bitVectorClrRange_spec :
    ∃ result, bitVectorClrRange mem pBitVector bitVectorLast range = some result ∧
      Yields mem pBitVector bitVectorLast
        (contents mem pBitVector bitVectorLast \ Icc range.lo.toNat range.hi.toNat) result := by
  have bitwise : ∀ (word bit : UInt64) position, position < 64 →
      (word &&& ~~~bit).toBitVec.getLsbD position = (word.toBitVec.getLsbD position && !bit.toBitVec.getLsbD position) :=
    fun word bit position lt => by simp [lt]
  obtain ⟨result, run, yields⟩ := rangeOp_spec (fun _ => 0) (fun mem idx => bitVectorClr mem pBitVector bitVectorLast idx)
    (fun _ => false) positive high (fun word position _ => by simp)
    (fun mem idx inside => ⟨_, by rw [bitVectorClr, if_pos (UInt16.lt_iff_toNat_lt.mpr inside)],
      writeBit_flags _ (fun x y => x && !y) (fun _ => false) bitwise Bool.and_true (fun x => Bool.and_false x)
        mem pBitVector idx⟩) padding ordered
  refine ⟨result, run, { yields with contents_eq := yields.contents_eq.trans (ext fun index => ?_) }⟩
  by_cases inside : range.lo.toNat ≤ index ∧ index ≤ range.hi.toNat <;> simp [inside, contents]
  omega

theorem bitVectorSetRange_spec :
    ∃ result, bitVectorSetRange mem pBitVector bitVectorLast range = some result ∧
      Yields mem pBitVector bitVectorLast
        (contents mem pBitVector bitVectorLast ∪ Icc range.lo.toNat range.hi.toNat) result := by
  obtain ⟨result, run, yields⟩ := rangeOp_spec (fun _ => allOnes64)
    (fun mem idx => bitVectorSet mem pBitVector bitVectorLast idx) (fun _ => true) positive high
    (fun word position lt => by rw [toBitVec_allOnes64, BitVec.getLsbD_allOnes, decide_eq_true lt])
    (fun mem idx _ => ⟨_, rfl, writeBit_flags _ (· || ·) (fun _ => true) (fun word bit position _ => by simp)
      Bool.or_false Bool.or_true mem pBitVector idx⟩) padding ordered
  refine ⟨result, run, { yields with contents_eq := yields.contents_eq.trans (ext fun index => ?_) }⟩
  by_cases inside : range.lo.toNat ≤ index ∧ index ≤ range.hi.toNat <;> simp [inside, contents]
  omega

theorem bitVectorInvRange_spec :
    ∃ result, bitVectorInvRange mem pBitVector bitVectorLast range = some result ∧
      Yields mem pBitVector bitVectorLast
        (symmDiff (contents mem pBitVector bitVectorLast) (Icc range.lo.toNat range.hi.toNat)) result := by
  obtain ⟨result, run, yields⟩ := rangeOp_spec (fun word => ~~~word)
    (fun mem idx => bitVectorInv mem pBitVector bitVectorLast idx) (fun x => !x) positive high
    (fun word position lt => by simp [lt])
    (fun mem idx _ => ⟨_, rfl, writeBit_flags _ (· ^^ ·) (fun x => !x) (fun word bit position _ => by simp)
      Bool.xor_false Bool.xor_true mem pBitVector idx⟩) padding ordered
  refine ⟨result, run, { yields with contents_eq := yields.contents_eq.trans (ext fun index => ?_) }⟩
  by_cases inside : range.lo.toNat ≤ index ∧ index ≤ range.hi.toNat
  · have below : index < bitVectorLast.toNat := by omega
    simp [inside, below, contents, mem_symmDiff]
  · simp [inside, contents, mem_symmDiff]

end RangeFunctions

end NvidiaGpu.BitVector
