import LumenOS.ByteMemory

/-!
# Memory routines of the kernel's C library

`memcpy`, `memmove` and `memcmp` of `stdlib/string.c` over flat memory. Each
loop is a recursion on the number of iterations already made, so the bytes are
written in the order of the source. Which way `memmove` goes decides which
source bytes are still the old ones when they are read.
-/

namespace LumenOS.StringModel

open LumenOS.ByteMemory

set_option autoImplicit false

/-- The state of `for (i = 0; i < count; i++) d[i] = s[i];` after `count` rounds. -/
def copyUp (memory : Memory) (dest src : Nat) : Nat → Memory
  | 0 => memory
  | count + 1 =>
      let copied := copyUp memory dest src count
      writeByte copied (dest + count) (readByte copied (src + count))

/-- The loop `for (i = count; i > 0; i--) d[i - 1] = s[i - 1];`. -/
def copyDown (memory : Memory) (dest src : Nat) : Nat → Memory
  | 0 => memory
  | count + 1 =>
      copyDown (writeByte memory (dest + count) (readByte memory (src + count))) dest src count

def memcpy (memory : Memory) (dest src size : Nat) : Memory :=
  copyUp memory dest src size

def memmove (memory : Memory) (dest src size : Nat) : Memory :=
  if dest = src ∨ size = 0 then memory
  else if dest < src ∨ u32 (src + size) ≤ dest then copyUp memory dest src size
  else copyDown memory dest src size

/-- `memcmp` over two byte ranges already read from memory: the difference of
the first pair of bytes that differ, or zero. -/
def memcmp : List Byte → List Byte → Int
  | left :: lefts, right :: rights =>
      if left ≠ right then (left.toNat : Int) - (right.toNat : Int) else memcmp lefts rights
  | _, _ => 0

/-- Of a copy from `src` to `dest` exactly the places from `low` up to `high` are
done, with the bytes the source held before. -/
structure Moved (before after : Memory) (dest src low high : Nat) : Prop where
  copied : ∀ i, low ≤ i → i < high → readByte after (dest + i) = readByte before (src + i)
  kept : ∀ address, address < 2 ^ 32 → address < dest + low ∨ dest + high ≤ address →
    readByte after address = readByte before address

section Copies

variable {before after : Memory} {dest src low high : Nat}

theorem moved_none (memory : Memory) (dest src place : Nat) :
    Moved memory memory dest src place place := by
  constructor
  · intro i lower upper
    exact absurd (Nat.lt_of_le_of_lt lower upper) (Nat.lt_irrefl place)
  · intro address bound outside
    rfl

/-- A round at the upper end, where the source byte is still the old one. -/
theorem moved_above (moved : Moved before after dest src low high) (ordered : low ≤ high)
    (fits : dest + high < 2 ^ 32)
    (unread : readByte after (src + high) = readByte before (src + high)) :
    Moved before (writeByte after (dest + high) (readByte after (src + high))) dest src low
      (high + 1) := by
  constructor
  · intro i lower upper
    by_cases last : i = high
    · rw [last, read_write_same, unread]
    · have earlier : i < high := by omega
      rw [read_write_other _ _ _ _ (by simp only [u32]; omega), moved.copied i lower earlier]
  · intro address bound outside
    rw [read_write_other _ _ _ _ (by simp only [u32]; omega)]
    apply moved.kept address bound
    omega

theorem moved_below (moved : Moved before after dest src (low + 1) high)
    (ordered : low < high) (fits : dest + high ≤ 2 ^ 32)
    (unread : readByte after (src + low) = readByte before (src + low)) :
    Moved before (writeByte after (dest + low) (readByte after (src + low))) dest src low high := by
  constructor
  · intro i lower upper
    by_cases first : i = low
    · rw [first, read_write_same, unread]
    · have later : low + 1 ≤ i := by omega
      rw [read_write_other _ _ _ _ (by simp only [u32]; omega), moved.copied i later upper]
  · intro address bound outside
    rw [read_write_other _ _ _ _ (by simp only [u32]; omega)]
    apply moved.kept address bound
    omega

/-- Upwards to a lower address, or to one behind the source: no byte is
overwritten before it has been read. -/
theorem copy_up_moves (memory : Memory) (dest src count : Nat) (destFits : dest + count ≤ 2 ^ 32)
    (srcFits : src + count ≤ 2 ^ 32) (safe : dest ≤ src ∨ src + count ≤ dest) :
    Moved memory (copyUp memory dest src count) dest src 0 count := by
  induction count with
  | zero => exact moved_none memory dest src 0
  | succ count ih =>
      have moved := ih (by omega) (by omega) (by omega)
      apply moved_above moved (Nat.zero_le count) (by omega)
      apply moved.kept (src + count) (by omega)
      omega

/-- Downwards to a higher address, with the places from `count` on already moved. -/
theorem copy_down_moves {size count : Nat} (destFits : dest + size ≤ 2 ^ 32)
    (srcFits : src + size ≤ 2 ^ 32) (higher : src ≤ dest) (within : count ≤ size)
    (moved : Moved before after dest src count size) :
    Moved before (copyDown after dest src count) dest src 0 size := by
  induction count generalizing after with
  | zero => exact moved
  | succ count ih =>
      apply ih (by omega)
      apply moved_below moved within destFits
      apply moved.kept (src + count) (by omega)
      omega

theorem memmove_moved (memory : Memory) (dest src size : Nat) (destFits : dest + size ≤ 2 ^ 32)
    (srcFits : src + size ≤ 2 ^ 32) :
    Moved memory (memmove memory dest src size) dest src 0 size := by
  simp only [memmove]
  split_ifs with nothing upwards
  · constructor
    · intro i lower upper
      have same : dest = src := by omega
      rw [same]
    · intro address bound outside
      rfl
  · apply copy_up_moves memory dest src size destFits srcFits
    simp only [u32] at upwards
    omega
  · apply copy_down_moves destFits srcFits (by omega) (Nat.le_refl size)
    exact moved_none memory dest src size

end Copies

theorem copy_up_same (memory : Memory) (place count : Nat) :
    copyUp memory place place count = memory := by
  induction count with
  | zero => rfl
  | succ count ih =>
      funext other
      simp only [copyUp, ih, writeByte, readByte]
      split_ifs with here
      · rw [here]
      · rfl

/-- `memmove` goes downwards only where a copy upwards would read bytes it has overwritten. -/
theorem memcpy_memmove {dest src size : Nat} (destFits : dest + size ≤ 2 ^ 32)
    (safe : Disjoint src size dest size ∨ dest ≤ src)
    (memory : Memory) : memcpy memory dest src size = memmove memory dest src size := by
  simp only [memcpy, memmove]
  split_ifs with nothing upwards
  · cases nothing with
    | inl same => rw [same, copy_up_same]
    | inr empty => rw [empty, copyUp]
  · rfl
  · have higher : src < dest ∧ dest < src + size := by
      simp only [u32] at upwards
      omega
    cases safe with
    | inl apart =>
        have shared : u32 (src + (dest - src)) = u32 (dest + 0) := by
          rw [Nat.add_sub_cancel' (Nat.le_of_lt higher.1), Nat.add_zero]
        exact absurd shared (apart (dest - src) 0 (by omega) (by omega))
    | inr lower => omega

/-- A move between overlapping ranges brings every byte of the source over as it
was, and touches nothing outside the destination; a plain copy does the same
where the ranges are apart or the destination is the lower one. -/
theorem overlapping_move (memory : Memory) (dest src size : Nat)
    (destFits : dest + size ≤ 2 ^ 32) (srcFits : src + size ≤ 2 ^ 32) :
    (∀ i, i < size →
      readByte (memmove memory dest src size) (dest + i) = readByte memory (src + i)) ∧
    (∀ address, address < 2 ^ 32 → ¬ (dest ≤ address ∧ address < dest + size) →
      readByte (memmove memory dest src size) address = readByte memory address) ∧
    (Disjoint src size dest size ∨ dest ≤ src →
      memcpy memory dest src size = memmove memory dest src size) := by
  have moved := memmove_moved memory dest src size destFits srcFits
  constructor
  · intro i bound
    exact moved.copied i (Nat.zero_le i) bound
  constructor
  · intro address bound outside
    apply moved.kept address bound
    omega
  · intro safe
    exact memcpy_memmove destFits safe memory

/-- Three bytes moved up by one, each onto the next. -/
theorem overlapping_move_up_by_one :
    (memmove (writeBytes (fun _ => 0) 100 [1, 2, 3]) 101 100 3 101 = 1) ∧
    (memmove (writeBytes (fun _ => 0) 100 [1, 2, 3]) 101 100 3 103 = 3) := by
  have moved := (overlapping_move (writeBytes (fun _ => 0) 100 [1, 2, 3]) 101 100 3 (by decide)
    (by decide)).1
  exact ⟨moved 0 (by decide), moved 2 (by decide)⟩

/-- Between disjoint ranges a copy writes the bytes the source held before. -/
theorem memcpy_disjoint (memory : Memory) (dest src size : Nat) (fits : size ≤ 2 ^ 32)
    (apart : Disjoint src size dest size) :
    memcpy memory dest src size = writeBytes memory dest (readBytes memory src size) := by
  unfold memcpy
  induction size with
  | zero => rfl
  | succ size ih =>
      have copied := ih (by omega) fun i j iBound jBound => apart i j (by omega) (by omega)
      have source : readByte (writeBytes memory dest (readBytes memory src size)) (src + size) =
          readByte memory (src + size) := by
        apply write_bytes_outside
        intro i bound
        rw [read_bytes_length] at bound
        exact apart size i (by omega) (by omega)
      rw [copyUp, copied, source, read_bytes_succ, write_bytes_append, read_bytes_length]
      rfl

end LumenOS.StringModel
