import LumenOS.Fat32Model
import LumenOS.LufsLayout

/-!
# Mounting what the image tool writes

A LuFS image starts with its magic, the entry count and zeros to the end of
the sector. Read as a FAT32 boot sector, the size of the table is zero.
-/

namespace LumenOS.LufsMount

open LumenOS.ByteMemory LumenOS.FileTree LumenOS.LufsModel LumenOS.LufsLayout
  LumenOS.Fat32Model

set_option autoImplicit false

/-- Whatever the tree, zeros follow the first eight bytes to the sector's end. -/
theorem makefs_header {fuel : Nat} {tree : Listing} {image : List Byte}
    (written : makefs fuel tree = some image) :
    ∃ first rest, first.length = 8 ∧ image = first ++ (List.replicate 504 0 ++ rest) := by
  obtain ⟨order, head, body, _, packed, _, disk⟩ := makefs_parts written
  obtain ⟨zeros, padded⟩ := write_sectors_pads
    (ljust (dataOffset tree order) (head ++ body) ++ (filePlan tree order).2).length
    (ljust (dataOffset tree order) (head ++ body) ++ (filePlan tree order).2) (Nat.le_refl _)
  unfold packHeader at packed
  split at packed
  · use [0x4C, 0x75, 0x46, 0x53] ++ encodeLE 4 (getEntriesFromDir tree).length,
      body ++ (List.replicate (dataOffset tree order - (head ++ body).length) 0 ++
        ((filePlan tree order).2 ++ List.replicate zeros 0))
    constructor
    · rw [List.length_append, encode_le_length]
      rfl
    · rw [disk, padded, ljust, ← Option.some.inj packed]
      simp only [List.append_assoc]
      rfl
  · cases packed

def imageByte (image : List Byte) (offset : Nat) : Byte := image[offset]?.getD 0

/-- The mount succeeds when the first sector is what is delivered into `bpb`. -/
def MountAccepts (image : List Byte) (bpb : Nat) (memory : Memory) : Prop :=
  (fat32Mount (deliverSectors (imageByte image)) bpb 0 memory).1 = 0

theorem delivered_byte (disk : Nat → Byte) (bpb i : Nat) (memory : Memory) (inside : i < 512) :
    readByte (deliverSectors disk 0 1 bpb memory).2 (bpb + i) = disk i := by
  have length : (window disk 0 512).length = 512 := window_length disk 0 512
  have stored := write_bytes_inside memory bpb (window disk 0 512) i (by rw [length]; exact inside)
    (by rw [length]; omega)
  obtain ⟨_, value⟩ := List.getElem?_eq_some_iff.mp (window_get disk 0 512 i inside)
  rw [value, Nat.zero_add] at stored
  have sent : deliverSectors disk 0 1 bpb memory =
      (0, writeBytes memory bpb (window disk 0 512)) := by
    simp only [deliverSectors, Nat.zero_mul, Nat.one_mul]
  rw [sent]
  dsimp only
  exact stored

/-- `fat_size32` of a LuFS image. -/
theorem makefs_zero_table {fuel : Nat} {tree : Listing} {image : List Byte}
    (written : makefs fuel tree = some image) (i : Nat) (bound : i < 4) :
    imageByte image (36 + i) = 0 := by
  obtain ⟨first, rest, size, bytes⟩ := makefs_header written
  have inside : 36 + i - 8 < (List.replicate 504 (0 : Byte)).length := by
    rw [List.length_replicate]
    omega
  have filler : image[36 + i]? = some 0 := by
    rw [bytes, List.getElem?_append_right (by omega), size, List.getElem?_append_left inside,
      List.getElem?_replicate, if_pos (by omega)]
  unfold imageByte
  rw [filler]
  rfl

theorem zero_table_not_mounted (image : List Byte) (bpb : Nat) (memory : Memory)
    (zero : ∀ i, i < 4 → imageByte image (36 + i) = 0) : ¬ MountAccepts image bpb memory := by
  have stale : readBytes (deliverSectors (imageByte image) 0 1 bpb memory).2 (bpb + 36) 4 =
      [0, 0, 0, 0] := by
    apply @read_bytes_congr _ (fun _ => 0) (bpb + 36) 0 4
    intro i bound
    rw [Nat.add_assoc, delivered_byte (imageByte image) bpb (36 + i) memory (by omega),
      zero i bound]
    rfl
  have noTable : (bpbAt (deliverSectors (imageByte image) 0 1 bpb memory).2 bpb).fatSize32 = 0 := by
    change decodeLE (readBytes _ (bpb + 36) 4) = 0
    rw [stale]
    rfl
  intro accepted
  unfold MountAccepts fat32Mount at accepted
  dsimp only at accepted
  rw [if_pos noTable] at accepted
  change (-1 : Int) = 0 at accepted
  omega

/-- No tree gives an image that mounts, whatever the stack holds. -/
theorem no_image_is_mounted (fuel : Nat) (tree : Listing) (image : List Byte) (bpb : Nat)
    (memory : Memory) (written : makefs fuel tree = some image) :
    ¬ MountAccepts image bpb memory := by
  apply zero_table_not_mounted
  exact makefs_zero_table written

theorem empty_tree_accepted : ∃ image, makefs 2 .nil = some image := by
  apply Option.isSome_iff_exists.mp
  decide +kernel

theorem empty_tree_not_mounted :
    ∃ image, makefs 2 .nil = some image ∧ ¬ MountAccepts image 0x300000 fun _ => 0xFF := by
  obtain ⟨image, written⟩ := empty_tree_accepted
  exact ⟨image, written, no_image_is_mounted 2 .nil image 0x300000 (fun _ => 0xFF) written⟩

theorem build_image_refused :
    ¬ ∀ image, makefs 2 .nil = some image → MountAccepts image 0x300000 fun _ => 0 := by
  intro accepted
  obtain ⟨image, written⟩ := empty_tree_accepted
  apply zero_table_not_mounted image 0x300000 (fun _ => 0) (makefs_zero_table written)
  exact accepted image written

end LumenOS.LufsMount
