import NvidiaGpu.Library.Window

set_option autoImplicit false

/-! Memory cut into blocks of one width, the way an array of fixed-size
records lies in a byte buffer: block `i` of width `w` is the `w` cells from
offset `i * w` on.  A copy of one block into another is a `writeRun`; the
lemmas say which blocks it changes. -/

namespace NvidiaGpu.Blocks

open Window

variable {β : Type}

def block (mem : Nat → β) (width offset : Nat) : List β :=
  (List.range width).map fun cell => mem (offset + cell)

def copyBlock (mem : Nat → β) (dst src width : Nat) : Nat → β :=
  writeRun mem dst (fun cell => mem (src + cell)) width

variable {mem : Nat → β} {width offset : Nat}

theorem block_writeRun_self (values : Nat → β) (dst : Nat) :
    block (writeRun mem dst values width) width dst = (List.range width).map values := by
  apply List.map_congr_left
  intro cell member
  rw [writeRun_inside (Nat.le_add_right dst cell) (by simpa using List.mem_range.mp member),
    Nat.add_sub_cancel_left]

theorem block_writeRun_of_disjoint {dst count : Nat} (values : Nat → β)
    (apart : offset + width ≤ dst ∨ dst + count ≤ offset) :
    block (writeRun mem dst values count) width offset = block mem width offset := by
  apply List.map_congr_left
  intro cell member
  have inside := List.mem_range.mp member
  exact writeRun_outside (by omega)

theorem blocks_apart {first second : Nat} (different : first ≠ second) (width : Nat) :
    first * width + width ≤ second * width ∨ second * width + width ≤ first * width := by
  rcases Nat.lt_or_gt_of_ne different with before | after
  · left
    rw [← Nat.succ_mul]
    exact Nat.mul_le_mul_right width before
  · right
    rw [← Nat.succ_mul]
    exact Nat.mul_le_mul_right width after

theorem block_writeRun_at (values : Nat → β) (dst index : Nat) :
    block (writeRun mem (dst * width) values width) width (index * width) =
      if index = dst then (List.range width).map values else block mem width (index * width) := by
  split_ifs with same
  · rw [same, block_writeRun_self]
  · exact block_writeRun_of_disjoint _ (blocks_apart same width)

theorem block_copyBlock (dst src index : Nat) :
    block (copyBlock mem (dst * width) src width) width (index * width) =
      if index = dst then block mem width src else block mem width (index * width) :=
  block_writeRun_at _ dst index

theorem block_writeRun_zero {count : Nat} (values : Nat → β) (inside : offset + width ≤ count) :
    block (writeRun mem 0 values count) width offset = block values width offset := by
  apply List.map_congr_left
  intro cell member
  have below := List.mem_range.mp member
  rw [writeRun_inside (Nat.zero_le _) (by omega), Nat.sub_zero]

end NvidiaGpu.Blocks
