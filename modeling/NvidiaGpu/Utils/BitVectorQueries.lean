import NvidiaGpu.Utils.BitVectorSpec
import NvidiaGpu.Library.PopCount
import Mathlib.Algebra.BigOperators.Group.Finset.Piecewise
import Mathlib.Data.Finset.Max

set_option autoImplicit false

/-! What the queries of an `NV_BITVECTOR` answer about the set it stands for.
The tests and the counts that mask the last word read the set of every vector of
`last ≥ 1` flags; `bitVectorCountLeadingZeros` tests the last word before
masking it, and reads the set only while the padding is clear, which
`bitVectorSet` and `bitVectorInv` do not keep: they take any `idx`. -/

namespace NvidiaGpu.BitVector

open Bitmap Regmap Runs PopCount Finset

/-! ## Word counts -/

theorem toNat_nvPopCount64 (x : UInt64) :
    (nvPopCount64 x).toNat = ∑ position ∈ range 64, (x.toBitVec.getLsbD position).toNat := by
  have high : ∀ j, 32 ≤ j → pairBits x.toNat j = 0 := fun _ => pairBits_of_le x.toNat_lt
  have nibbles := toNat_nibbles (toNat_pairs x) (pairBits_le x.toNat) (high _ le_rfl)
  have bytes := toNat_bytes nibbles (fun i => Nat.add_le_add (pairBits_le _ _) (pairBits_le _ _))
    (by rw [high _ (by decide), high _ (by decide)])
  have total := toNat_sumBytes bytes fun k =>
    Nat.add_le_add (Nat.add_le_add (pairBits_le _ _) (pairBits_le _ _)) (Nat.add_le_add (pairBits_le _ _) (pairBits_le _ _))
  have bits : ∑ k ∈ range 8, (pairBits x.toNat (2 * (2 * k)) + pairBits x.toNat (2 * (2 * k) + 1) +
      (pairBits x.toNat (2 * (2 * k + 1)) + pairBits x.toNat (2 * (2 * k + 1) + 1))) =
      ∑ position ∈ range 64, (x.toBitVec.getLsbD position).toNat := by
    rw [sum_pairs 8 fun i => pairBits x.toNat (2 * i) + pairBits x.toNat (2 * i + 1), sum_pairs 16 (pairBits x.toNat)]
    simp only [pairBits]
    rw [sum_pairs 32 fun i => (x.toNat.testBit i).toNat]
    simp only [← BitVec.testBit_toNat, UInt64.toNat_toBitVec]
  have bound : ∑ position ∈ range 64, (x.toBitVec.getLsbD position).toNat ≤ 64 := by
    simpa using sum_le_card_nsmul (range 64) _ 1 fun position _ => Bool.toNat_le _
  simp only [nvPopCount64]
  rw [UInt64.toNat_toUInt32, total, bits]
  omega

theorem highestSetBit_clz {word : UInt64} (nonzero : word ≠ 0) :
    (portUtilCountLeadingZeros64 word).toNat < 64 ∧
      word.toBitVec.getLsbD (63 - (portUtilCountLeadingZeros64 word).toNat) = true ∧
      ∀ position, 63 - (portUtilCountLeadingZeros64 word).toNat < position → position < 64 →
        word.toBitVec.getLsbD position = false := by
  have agree : ∀ i < 64, (fun i => !word.toBitVec.getLsbD i) i = !word.toBitVec.getLsbD i := fun _ _ => rfl
  rw [portUtilCountLeadingZeros64_eq_trailingRun agree nonzero]
  obtain ⟨le, run, stop⟩ := trailingRun_spec (f := fun i => !word.toBitVec.getLsbD i) 64
  generalize trailingRun (fun i => !word.toBitVec.getLsbD i) 64 = zeros at le run stop
  have lt : zeros < 64 := by
    refine lt_of_le_of_ne le fun full => nonzero (eq_zero_iff_getLsbD.mpr fun position below => ?_)
    simpa [full] using run position (by omega)
  refine ⟨lt, by simpa using stop lt, fun position above below => ?_⟩
  have clear := run (position - (64 - zeros)) (by omega)
  rw [show 64 - zeros + (position - (64 - zeros)) = position by omega] at clear
  simpa using clear

theorem and_nvBit64_eq_zero_iff (word : UInt64) {b : Nat} (lt : b < 64) :
    word &&& nvBit64 b = 0 ↔ word.toBitVec.getLsbD b = false := by
  rw [eq_zero_iff_getLsbD]
  constructor
  · intro clear
    simpa [getLsbD_nvBit64 lt] using clear b lt
  · intro clear position _
    rw [UInt64.toBitVec_and, BitVec.getLsbD_and, getLsbD_nvBit64 lt]
    by_cases here : position = b
    · rw [here, clear, Bool.false_and]
    · simp [here]

/-! ## Scans -/

theorem of_find?_reverse_range_eq_some {p : Nat → Bool} {count found : Nat}
    (scan : (List.range count).reverse.find? p = some found) :
    p found = true ∧ found < count ∧ ∀ j, found < j → j < count → p j = false := by
  induction count with
  | zero => simp at scan
  | succ count ih =>
      rw [List.range_succ, List.reverse_append, List.reverse_singleton, List.singleton_append, List.find?_cons] at scan
      cases top : p count
      · simp only [top] at scan
        obtain ⟨hit, below, above⟩ := ih scan
        refine ⟨hit, by omega, fun j after lt => ?_⟩
        rcases Nat.lt_succ_iff_lt_or_eq.mp lt with lt | rfl
        · exact above j after lt
        · exact top
      · simp only [top, Option.some.injEq] at scan
        subst scan
        exact ⟨top, by omega, fun j after lt => by omega⟩

theorem toNat_foldl_add (g : Nat → UInt32) (count : Nat) (small : ∑ idx ∈ range count, (g idx).toNat < 2 ^ 32) :
    ((List.range count).foldl (fun total idx => total + g idx) 0).toNat = ∑ idx ∈ range count, (g idx).toNat := by
  induction count with
  | zero => rfl
  | succ count ih =>
      rw [sum_range_succ] at small ⊢
      rw [List.range_succ, List.foldl_append, List.foldl_cons, List.foldl_nil, UInt32.toNat_add, ih (by omega)]
      exact Nat.mod_eq_of_lt small

theorem sum_words (field : Nat → Nat) (count : Nat) :
    ∑ idx ∈ range count, ∑ position ∈ range 64, field (64 * idx + position) =
      ∑ index ∈ range (64 * count), field index := by
  induction count with
  | zero => simp
  | succ count ih => rw [sum_range_succ, ih, Nat.mul_succ, sum_range_add]

theorem card_eq_sum_decide {set : Finset Nat} {count : Nat} (subset : set ⊆ range count) :
    set.card = ∑ index ∈ range count, (decide (index ∈ set)).toNat := by
  calc set.card = ((range count).filter (· ∈ set)).card := by rw [filter_mem_eq_inter, inter_eq_right.mpr subset]
    _ = ∑ index ∈ range count, (decide (index ∈ set)).toNat := by
      rw [card_filter]
      exact sum_congr rfl fun index _ => by by_cases member : index ∈ set <;> simp [member]

theorem all_words_eq_iff {lhs rhs : Nat → UInt64} (holds : Nat → Prop) [DecidablePred holds] {count : Nat}
    (bits : ∀ idx < count, ∀ position < 64,
      ((lhs idx).toBitVec.getLsbD position = (rhs idx).toBitVec.getLsbD position ↔ holds (64 * idx + position))) :
    ((List.range count).all fun idx => lhs idx == rhs idx) = decide (∀ index < 64 * count, holds index) := by
  rw [Bool.eq_iff_iff, List.all_eq_true, decide_eq_true_iff]
  simp only [List.mem_range, beq_iff_eq]
  constructor
  · intro same index below
    have split := (bits (index / 64) (by omega) (index % 64) (Nat.mod_lt _ (by decide))).mp
      (by rw [same (index / 64) (by omega)])
    rwa [Nat.div_add_mod] at split
  · intro all idx inside
    exact UInt64.toBitVec_inj.mp (BitVec.eq_of_getLsbD_eq fun position lt =>
      (bits idx inside position lt).mpr (all _ (by omega)))

/-! ## Masked words -/

section Masked

variable {mem : Nat → UInt64} {pBitVector : Nat} {bitVectorLast : UInt16}

theorem not_mem_contents_of_word_eq_zero {index : Nat} (zero : mem (pBitVector + index / 64) = 0) :
    index ∉ contents mem pBitVector bitVectorLast := fun member => by
  have set := (mem_contents.mp member).2
  simp [bitVectorBit, bitAt, zero] at set

variable (positive : 0 < bitVectorLast.toNat)
include positive

theorem lt_words_of_mem {index : Nat} (member : index ∈ contents mem pBitVector bitVectorLast) :
    index < 64 * nvBitvectorArraySize bitVectorLast.toNat :=
  lt_of_lt_of_le (mem_contents.mp member).1 (last_le_words positive)

theorem getLsbD_maskedWord {idx : Nat} (inside : idx < nvBitvectorArraySize bitVectorLast.toNat) {position : Nat}
    (lt : position < 64) :
    (mem (pBitVector + idx) &&& wordMask bitVectorLast idx).toBitVec.getLsbD position =
      decide (64 * idx + position ∈ contents mem pBitVector bitVectorLast) := by
  rw [getLsbD_and_wordMask positive inside _ lt, ← bitVectorBit_inWord mem pBitVector idx lt]
  simp only [mem_contents]
  cases bitVectorBit mem pBitVector (64 * idx + position) <;> simp

theorem maskedWord_eq_zero_iff {idx : Nat} (inside : idx < nvBitvectorArraySize bitVectorLast.toNat) :
    mem (pBitVector + idx) &&& wordMask bitVectorLast idx = 0 ↔
      ∀ position < 64, 64 * idx + position ∉ contents mem pBitVector bitVectorLast := by
  rw [eq_zero_iff_getLsbD]
  exact forall₂_congr fun position lt => by rw [getLsbD_maskedWord positive inside lt, decide_eq_false_iff_not]

theorem not_mem_contents_of_maskedWord_eq_zero {index : Nat}
    (zero : mem (pBitVector + index / 64) &&& wordMask bitVectorLast (index / 64) = 0) :
    index ∉ contents mem pBitVector bitVectorLast := fun member => by
  have clear := (maskedWord_eq_zero_iff positive (word_lt_of_lt positive (mem_contents.mp member).1)).mp zero
    (index % 64) (Nat.mod_lt _ (by decide))
  rw [Nat.div_add_mod] at clear
  exact clear member

theorem maskedWord_eq (padding : PaddingClear mem pBitVector bitVectorLast) {idx : Nat}
    (inside : idx < nvBitvectorArraySize bitVectorLast.toNat) :
    mem (pBitVector + idx) &&& wordMask bitVectorLast idx = mem (pBitVector + idx) := by
  refine UInt64.toBitVec_inj.mp (BitVec.eq_of_getLsbD_eq fun position lt => ?_)
  rw [getLsbD_and_wordMask positive inside _ lt]
  by_cases flag : 64 * idx + position < bitVectorLast.toNat
  · rw [decide_eq_true flag, Bool.and_true]
  · have clear := padding (64 * idx + position) (by omega) (by omega)
    rw [bitVectorBit_inWord mem pBitVector idx lt] at clear
    rw [clear, Bool.false_and]

theorem getLsbD_word (padding : PaddingClear mem pBitVector bitVectorLast) {idx : Nat}
    (inside : idx < nvBitvectorArraySize bitVectorLast.toNat) {position : Nat} (lt : position < 64) :
    (mem (pBitVector + idx)).toBitVec.getLsbD position =
      decide (64 * idx + position ∈ contents mem pBitVector bitVectorLast) := by
  rw [← maskedWord_eq positive padding inside]
  exact getLsbD_maskedWord positive inside lt

end Masked

/-! ## Tests -/

section Tests

variable {mem : Nat → UInt64} {pBitVector : Nat} {bitVectorLast : UInt16}

theorem bitVectorTest_eq (idx : UInt16) :
    bitVectorTest mem pBitVector bitVectorLast idx = decide (idx.toNat ∈ contents mem pBitVector bitVectorLast) := by
  rw [bitVectorTest]
  simp only [mem_contents]
  by_cases inside : idx < bitVectorLast
  · have lt : nvBitvectorOffset idx.toNat < 64 := Nat.mod_lt _ (by decide)
    rw [if_pos inside, Bool.eq_iff_iff, bne_iff_ne, Ne, and_nvBit64_eq_zero_iff _ lt, Bool.not_eq_false,
      decide_eq_true_iff]
    exact ⟨fun set => ⟨UInt16.lt_iff_toNat_lt.mp inside, set⟩, fun flag => flag.2⟩
  · rw [if_neg inside]
    simp [UInt16.lt_iff_toNat_lt.not.mp inside]

variable (positive : 0 < bitVectorLast.toNat)
include positive

theorem bitVectorTestAllCleared_eq :
    bitVectorTestAllCleared mem pBitVector bitVectorLast = decide (contents mem pBitVector bitVectorLast = ∅) := by
  rw [bitVectorTestAllCleared, all_words_eq_iff (fun index => index ∉ contents mem pBitVector bitVectorLast)
    fun idx inside position lt => by
      rw [getLsbD_maskedWord positive inside lt]
      simp]
  refine decide_eq_decide.mpr ⟨fun clear => eq_empty_of_forall_notMem fun index member => ?_, ?_⟩
  · exact clear index (lt_words_of_mem positive member) member
  · intro empty index _
    rw [empty]
    exact notMem_empty index

theorem bitVectorTestAllSet_eq :
    bitVectorTestAllSet mem pBitVector bitVectorLast =
      decide (contents mem pBitVector bitVectorLast = range bitVectorLast.toNat) := by
  rw [bitVectorTestAllSet, all_words_eq_iff
    (fun index => index < bitVectorLast.toNat → index ∈ contents mem pBitVector bitVectorLast)
    fun idx inside position lt => by
      rw [getLsbD_wordMask positive inside lt,
        getLsbD_maskedWord positive inside lt, decide_eq_decide]
      exact ⟨fun same below => same.mp below, fun implies => ⟨implies, fun member => (mem_contents.mp member).1⟩⟩]
  refine decide_eq_decide.mpr ⟨fun all => ext fun index => ?_, ?_⟩
  · refine ⟨fun member => mem_range.mpr (mem_contents.mp member).1, fun below => ?_⟩
    have below := mem_range.mp below
    exact all index (lt_of_lt_of_le below (last_le_words positive)) below
  · intro full index _ below
    rw [full]
    exact mem_range.mpr below

variable {pBitVectorA pBitVectorB : Nat}

theorem bitVectorTestEqual_eq :
    bitVectorTestEqual mem pBitVectorA bitVectorLast pBitVectorB bitVectorLast =
      decide (contents mem pBitVectorA bitVectorLast = contents mem pBitVectorB bitVectorLast) := by
  rw [bitVectorTestEqual, if_pos rfl, all_words_eq_iff
    (fun index => index ∈ contents mem pBitVectorA bitVectorLast ↔ index ∈ contents mem pBitVectorB bitVectorLast)
    fun idx inside position lt => by
      rw [getLsbD_maskedWord positive inside lt,
        getLsbD_maskedWord positive inside lt, decide_eq_decide]]
  refine decide_eq_decide.mpr ⟨fun all => ext fun index => ?_, fun same index _ => by rw [same]⟩
  by_cases below : index < 64 * nvBitvectorArraySize bitVectorLast.toNat
  · exact all index below
  · exact iff_of_false (fun member => below (lt_words_of_mem positive member))
      (fun member => below (lt_words_of_mem positive member))

theorem bitVectorTestIsSubset_eq :
    bitVectorTestIsSubset mem pBitVectorA bitVectorLast pBitVectorB bitVectorLast =
      decide (contents mem pBitVectorA bitVectorLast ⊆ contents mem pBitVectorB bitVectorLast) := by
  rw [bitVectorTestIsSubset, if_pos rfl, all_words_eq_iff
    (fun index => index ∈ contents mem pBitVectorA bitVectorLast → index ∈ contents mem pBitVectorB bitVectorLast)
    fun idx inside position lt => by
      rw [UInt64.toBitVec_and, BitVec.getLsbD_and, getLsbD_maskedWord positive inside lt,
        getLsbD_maskedWord positive inside lt]
      by_cases inA : 64 * idx + position ∈ contents mem pBitVectorA bitVectorLast <;>
        by_cases inB : 64 * idx + position ∈ contents mem pBitVectorB bitVectorLast <;> simp [inA, inB]]
  exact decide_eq_decide.mpr ⟨fun all index member => all index (lt_words_of_mem positive member) member,
    fun subset index _ member => subset member⟩

end Tests

/-! ## Counts -/

section Counts

variable {mem : Nat → UInt64} {pBitVector : Nat} {bitVectorLast : UInt16} (positive : 0 < bitVectorLast.toNat)
include positive

theorem toNat_bitVectorCountSetBits :
    (bitVectorCountSetBits mem pBitVector bitVectorLast).toNat = (contents mem pBitVector bitVectorLast).card := by
  have words : ∑ idx ∈ range (nvBitvectorArraySize bitVectorLast.toNat),
      (nvPopCount64 (mem (pBitVector + idx) &&& wordMask bitVectorLast idx)).toNat =
      (contents mem pBitVector bitVectorLast).card := by
    calc _ = ∑ idx ∈ range (nvBitvectorArraySize bitVectorLast.toNat), ∑ position ∈ range 64,
            (decide (64 * idx + position ∈ contents mem pBitVector bitVectorLast)).toNat :=
          sum_congr rfl fun idx inside => by
            rw [toNat_nvPopCount64]
            exact sum_congr rfl fun position lt => by
              rw [getLsbD_maskedWord positive (mem_range.mp inside) (mem_range.mp lt)]
      _ = ∑ index ∈ range (64 * nvBitvectorArraySize bitVectorLast.toNat),
            (decide (index ∈ contents mem pBitVector bitVectorLast)).toNat :=
          sum_words (fun index => (decide (index ∈ contents mem pBitVector bitVectorLast)).toNat) _
      _ = (contents mem pBitVector bitVectorLast).card :=
          (card_eq_sum_decide fun index member => mem_range.mpr (lt_words_of_mem positive member)).symm
  have small : (contents mem pBitVector bitVectorLast).card < 2 ^ 32 := by
    have atMost : (contents mem pBitVector bitVectorLast).card ≤ bitVectorLast.toNat :=
      (card_le_card (filter_subset _ _)).trans (card_range _).le
    have := UInt16.toNat_lt bitVectorLast
    omega
  rw [bitVectorCountSetBits,
    toNat_foldl_add (fun idx => nvPopCount64 (mem (pBitVector + idx) &&& wordMask bitVectorLast idx)) _
      (by rw [words]; exact small), words]

theorem toNat_bitVectorCountTrailingZeros :
    (bitVectorCountTrailingZeros mem pBitVector bitVectorLast).toNat =
      if found : (contents mem pBitVector bitVectorLast).Nonempty then (contents mem pBitVector bitVectorLast).min' found
      else bitVectorLast.toNat := by
  unfold bitVectorCountTrailingZeros
  split
  · rename_i idx scan
    obtain ⟨nonzero, inside, before⟩ := List.find?_range_eq_some.mp scan
    have inside := List.mem_range.mp inside
    have nonzero := bne_iff_ne.mp nonzero
    have lowLt := lowestSetBit_lt nonzero
    have member : 64 * idx + lowestSetBit (mem (pBitVector + idx) &&& wordMask bitVectorLast idx) ∈
        contents mem pBitVector bitVectorLast := by
      have set := getLsbD_lowestSetBit nonzero
      rw [getLsbD_maskedWord positive inside lowLt] at set
      exact of_decide_eq_true set
    have least : ∀ other ∈ contents mem pBitVector bitVectorLast,
        64 * idx + lowestSetBit (mem (pBitVector + idx) &&& wordMask bitVectorLast idx) ≤ other := by
      intro other otherMember
      by_contra below
      by_cases same : other / 64 = idx
      · have lower : other % 64 < lowestSetBit (mem (pBitVector + idx) &&& wordMask bitVectorLast idx) := by omega
        have clear := getLsbD_of_lt_lowestSetBit lower
        rw [getLsbD_maskedWord positive inside (Nat.mod_lt _ (by decide)), ← same, Nat.div_add_mod] at clear
        exact absurd otherMember (of_decide_eq_false clear)
      · have clearWord : mem (pBitVector + other / 64) &&& wordMask bitVectorLast (other / 64) = 0 := by
          simpa using before (other / 64) (by omega)
        exact not_mem_contents_of_maskedWord_eq_zero positive clearWord otherMember
    have count : (portUtilCountTrailingZeros64 (mem (pBitVector + idx) &&& wordMask bitVectorLast idx)).toNat =
        lowestSetBit (mem (pBitVector + idx) &&& wordMask bitVectorLast idx) := by
      rw [← UInt32.toNat_toUInt64]
      exact toNat_portUtilCountTrailingZeros64 nonzero
    have nonempty : (contents mem pBitVector bitVectorLast).Nonempty := ⟨_, member⟩
    rw [dif_pos nonempty, (min'_eq_iff _ nonempty _).mpr ⟨member, least⟩, Nat.toUInt32_eq, UInt32.toNat_ofNat', count]
    have := (mem_contents.mp member).1
    have := UInt16.toNat_lt bitVectorLast
    omega
  · rename_i scan
    have empty : contents mem pBitVector bitVectorLast = ∅ := eq_empty_of_forall_notMem fun index member => by
      have word := word_lt_of_lt positive (mem_contents.mp member).1
      have clearWord : mem (pBitVector + index / 64) &&& wordMask bitVectorLast (index / 64) = 0 := by
        simpa using List.find?_range_eq_none.mp scan (index / 64) word
      exact not_mem_contents_of_maskedWord_eq_zero positive clearWord member
    rw [dif_neg (by rw [empty]; exact not_nonempty_empty), UInt16.toNat_toUInt32]

/-- On a vector with its padding clear, the leading zeros count from the last
flag down to the highest flag of the set. -/
theorem toNat_bitVectorCountLeadingZeros (padding : PaddingClear mem pBitVector bitVectorLast) :
    (bitVectorCountLeadingZeros mem pBitVector bitVectorLast).toNat =
      if found : (contents mem pBitVector bitVectorLast).Nonempty then
        bitVectorLast.toNat - 1 - (contents mem pBitVector bitVectorLast).max' found
      else bitVectorLast.toNat := by
  have shape := last_eq_words positive
  simp only [bitVectorCountLeadingZeros]
  split
  · rename_i idx scan
    obtain ⟨nonzero, inside, above⟩ := of_find?_reverse_range_eq_some scan
    have nonzero := bne_iff_ne.mp nonzero
    obtain ⟨zerosLt, top, clearAbove⟩ := highestSetBit_clz nonzero
    rw [maskedWord_eq positive padding inside]
    generalize (portUtilCountLeadingZeros64 (mem (pBitVector + idx))).toNat = zeros at zerosLt top clearAbove ⊢
    have member : 64 * idx + (63 - zeros) ∈ contents mem pBitVector bitVectorLast := by
      rw [getLsbD_word positive padding inside (by omega)] at top
      exact of_decide_eq_true top
    have greatest : ∀ other ∈ contents mem pBitVector bitVectorLast, other ≤ 64 * idx + (63 - zeros) := by
      intro other otherMember
      by_contra after
      have word := word_lt_of_lt positive (mem_contents.mp otherMember).1
      have set : (mem (pBitVector + other / 64)).toBitVec.getLsbD (other % 64) = true := by
        rw [getLsbD_word positive padding word (Nat.mod_lt _ (by decide)), Nat.div_add_mod]
        exact decide_eq_true otherMember
      by_cases same : other / 64 = idx
      · rw [same, clearAbove (other % 64) (by omega) (Nat.mod_lt _ (by decide))] at set
        exact Bool.false_ne_true set
      · have zero : mem (pBitVector + other / 64) = 0 := by simpa using above (other / 64) (by omega) word
        exact not_mem_contents_of_word_eq_zero zero otherMember
    have nonempty : (contents mem pBitVector bitVectorLast).Nonempty := ⟨_, member⟩
    rw [dif_pos nonempty, (max'_eq_iff _ nonempty _).mpr ⟨member, greatest⟩, Nat.toUInt32_eq, UInt32.toNat_ofNat']
    have := (mem_contents.mp member).1
    have := UInt16.toNat_lt bitVectorLast
    have : nvBitvectorOffset (bitVectorLast.toNat - 1) < 64 := Nat.mod_lt _ (by decide)
    omega
  · rename_i scan
    have empty : contents mem pBitVector bitVectorLast = ∅ := eq_empty_of_forall_notMem fun index member => by
      have word := word_lt_of_lt positive (mem_contents.mp member).1
      have zero : mem (pBitVector + index / 64) = 0 := by
        simpa using List.find?_eq_none.mp scan (index / 64) (by simpa using word)
      exact not_mem_contents_of_word_eq_zero zero member
    rw [dif_neg (by rw [empty]; exact not_nonempty_empty), UInt16.toNat_toUInt32]

end Counts

/-! ## The queries together -/

/-- Every query of the vector at `pBitVector` answers for the set `flags`. -/
structure AnswersFor (mem : Nat → UInt64) (pBitVector : Nat) (bitVectorLast : UInt16) (flags : Finset Nat) :
    Prop where
  test : ∀ idx : UInt16, bitVectorTest mem pBitVector bitVectorLast idx = decide (idx.toNat ∈ flags)
  allCleared : bitVectorTestAllCleared mem pBitVector bitVectorLast = decide (flags = ∅)
  allSet : bitVectorTestAllSet mem pBitVector bitVectorLast = decide (flags = range bitVectorLast.toNat)
  countSetBits : (bitVectorCountSetBits mem pBitVector bitVectorLast).toNat = flags.card
  countTrailingZeros : (bitVectorCountTrailingZeros mem pBitVector bitVectorLast).toNat =
    if found : flags.Nonempty then flags.min' found else bitVectorLast.toNat
  countLeadingZeros : (bitVectorCountLeadingZeros mem pBitVector bitVectorLast).toNat =
    if found : flags.Nonempty then bitVectorLast.toNat - 1 - flags.max' found else bitVectorLast.toNat

theorem answersFor_contents {mem : Nat → UInt64} {pBitVector : Nat} {bitVectorLast : UInt16}
    (positive : 0 < bitVectorLast.toNat) (padding : PaddingClear mem pBitVector bitVectorLast) :
    AnswersFor mem pBitVector bitVectorLast (contents mem pBitVector bitVectorLast) where
  test := bitVectorTest_eq
  allCleared := bitVectorTestAllCleared_eq positive
  allSet := bitVectorTestAllSet_eq positive
  countSetBits := toNat_bitVectorCountSetBits positive
  countTrailingZeros := toNat_bitVectorCountTrailingZeros positive
  countLeadingZeros := toNat_bitVectorCountLeadingZeros positive padding

/-- The functions of two vectors of one length compute the set operations they
are named after, into a destination that is each operand or apart from it, and
the tests of two vectors answer for their two sets. -/
theorem bitVectorPairs_spec {mem : Nat → UInt64} {pBitVectorDst pBitVectorA pBitVectorB : Nat}
    {bitVectorLast : UInt16} (positive : 0 < bitVectorLast.toNat)
    (apartA : SameOrApart pBitVectorA pBitVectorDst (nvBitvectorArraySize bitVectorLast.toNat))
    (apartB : SameOrApart pBitVectorB pBitVectorDst (nvBitvectorArraySize bitVectorLast.toNat)) :
    Yields mem pBitVectorDst bitVectorLast (contents mem pBitVectorA bitVectorLast ∩ contents mem pBitVectorB bitVectorLast)
        (bitVectorAnd mem pBitVectorDst bitVectorLast pBitVectorA bitVectorLast pBitVectorB bitVectorLast) ∧
      Yields mem pBitVectorDst bitVectorLast (contents mem pBitVectorA bitVectorLast ∪ contents mem pBitVectorB bitVectorLast)
        (bitVectorOr mem pBitVectorDst bitVectorLast pBitVectorA bitVectorLast pBitVectorB bitVectorLast) ∧
      Yields mem pBitVectorDst bitVectorLast
        (symmDiff (contents mem pBitVectorA bitVectorLast) (contents mem pBitVectorB bitVectorLast))
        (bitVectorXor mem pBitVectorDst bitVectorLast pBitVectorA bitVectorLast pBitVectorB bitVectorLast) ∧
      Yields mem pBitVectorDst bitVectorLast (range bitVectorLast.toNat \ contents mem pBitVectorA bitVectorLast)
        (bitVectorComplement mem pBitVectorDst bitVectorLast pBitVectorA bitVectorLast) ∧
      (PaddingClear mem pBitVectorA bitVectorLast → pBitVectorDst ≠ pBitVectorA →
        Yields mem pBitVectorDst bitVectorLast (contents mem pBitVectorA bitVectorLast)
          (bitVectorCopy mem pBitVectorDst bitVectorLast pBitVectorA bitVectorLast)) ∧
      bitVectorTestEqual mem pBitVectorA bitVectorLast pBitVectorB bitVectorLast =
        decide (contents mem pBitVectorA bitVectorLast = contents mem pBitVectorB bitVectorLast) ∧
      bitVectorTestIsSubset mem pBitVectorA bitVectorLast pBitVectorB bitVectorLast =
        decide (contents mem pBitVectorA bitVectorLast ⊆ contents mem pBitVectorB bitVectorLast) :=
  ⟨bitVectorAnd_spec positive apartA apartB, bitVectorOr_spec positive apartA apartB,
    bitVectorXor_spec positive apartA apartB, bitVectorComplement_spec positive apartA,
    fun padding different => bitVectorCopy_spec positive padding different,
    bitVectorTestEqual_eq positive, bitVectorTestIsSubset_eq positive⟩

/-- Three one-word vectors of 64 flags: `{0, 1}` at word 0, `{1, 2}` at word 1,
and the destination at word 2. -/
def threeVectors : Nat → UInt64 := fun address => if address = 0 then 3 else if address = 1 then 6 else 0

theorem threeVectors_pairs :
    0 < (64 : UInt16).toNat ∧ SameOrApart 0 2 (nvBitvectorArraySize 64) ∧ SameOrApart 1 2 (nvBitvectorArraySize 64) ∧
      Yields threeVectors 2 64 (contents threeVectors 0 64 ∩ contents threeVectors 1 64)
        (bitVectorAnd threeVectors 2 64 0 64 1 64) ∧
      Yields threeVectors 2 64 (contents threeVectors 0 64 ∪ contents threeVectors 1 64)
        (bitVectorOr threeVectors 2 64 0 64 1 64) ∧
      Yields threeVectors 2 64 (symmDiff (contents threeVectors 0 64) (contents threeVectors 1 64))
        (bitVectorXor threeVectors 2 64 0 64 1 64) ∧
      Yields threeVectors 2 64 (range 64 \ contents threeVectors 0 64) (bitVectorComplement threeVectors 2 64 0 64) ∧
      (PaddingClear threeVectors 0 64 → 2 ≠ 0 →
        Yields threeVectors 2 64 (contents threeVectors 0 64) (bitVectorCopy threeVectors 2 64 0 64)) ∧
      bitVectorTestEqual threeVectors 0 64 1 64 = decide (contents threeVectors 0 64 = contents threeVectors 1 64) ∧
      bitVectorTestIsSubset threeVectors 0 64 1 64 = decide (contents threeVectors 0 64 ⊆ contents threeVectors 1 64) :=
  have apart0 : SameOrApart 0 2 (nvBitvectorArraySize 64) := .inr (.inl (by decide))
  have apart1 : SameOrApart 1 2 (nvBitvectorArraySize 64) := .inr (.inl (by decide))
  ⟨by decide, apart0, apart1, @bitVectorPairs_spec threeVectors 2 0 1 64 (by decide) apart0 apart1⟩

def oneFlag : Nat → UInt64 := fun address => if address = 0 then 1 else 0

/-- `bitVectorSet` takes an `idx` past the last flag: it answers `NV_OK`, sets
padding bit 65, after which `bitVectorCountLeadingZeros` answers 1 for a set
whose answer was 64, and at `idx = 128` it writes word 2, outside the vector. -/
theorem bitVectorSet_past_last_breaks_padding :
    (bitVectorCountLeadingZeros oneFlag 0 65).toNat = 64 ∧
      (bitVectorSet oneFlag 0 65 65).1 = .nvOk ∧
      contents (bitVectorSet oneFlag 0 65 65).2 0 65 = contents oneFlag 0 65 ∧
      bitVectorBit (bitVectorSet oneFlag 0 65 65).2 0 65 = true ∧
      (bitVectorCountLeadingZeros (bitVectorSet oneFlag 0 65 65).2 0 65).toNat = 1 ∧
      (bitVectorSet oneFlag 0 65 128).1 = .nvOk ∧ (bitVectorSet oneFlag 0 65 128).2 2 ≠ oneFlag 2 := by
  decide +kernel

end NvidiaGpu.BitVector
