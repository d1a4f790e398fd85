import LumenOS.Fat32Model

/-!
# The FAT32 reader over a primitive that delivers

With every requested sector delivered, what the loops of `fat32.c` decide
depends on the disk alone: each buffer is filled right before it is looked at.
This module says so for one table link and one cluster.
-/

namespace LumenOS.Fat32Delivery

open LumenOS.ByteMemory LumenOS.StringModel LumenOS.Fat32Model

set_option autoImplicit false

/-- A file system that `fat32_mount` returned for the disk, as if the stack behind
its 90 bytes for the boot sector had room for the rest of the sector. -/
def Mounted (disk : Nat → Byte) (fs : Fs) : Prop :=
  ∃ bpb partLba before after,
    fat32Mount (deliverSectors disk) bpb partLba before = (0, some fs, after)

theorem mounted_geometry {disk : Nat → Byte} {fs : Fs} (mounted : Mounted disk fs) :
    ∃ partLba bpb, fs = mountedFs partLba bpb := by
  obtain ⟨bpb, partLba, before, after, returned⟩ := mounted
  unfold fat32Mount at returned
  simp only at returned
  split_ifs at returned
  · simp at returned
  · simp at returned
  · simp only [Prod.mk.injEq, Option.some.injEq] at returned
    exact ⟨_, _, returned.2.1.symm⟩

/-- Up to eight sectors the size of a cluster is what the boot sector says. -/
theorem mounted_cluster_bytes {disk : Nat → Byte} {fs : Fs} (mounted : Mounted disk fs)
    (small : fs.sectorsPerCluster ≤ 8) : fs.bytesPerCluster = fs.sectorsPerCluster * 512 := by
  obtain ⟨partLba, bpb, rfl⟩ := mounted_geometry mounted
  change u32 (bpb.sectorsPerCluster * 512) = bpb.sectorsPerCluster * 512
  apply Nat.mod_eq_of_lt
  have bound : bpb.sectorsPerCluster ≤ 8 := small
  omega

section Delivery

variable (disk : Nat → Byte)

theorem deliver_inside (lba count buf i : Nat) (memory : Memory) (inside : i < count * 512)
    (fits : count * 512 ≤ 2 ^ 32) :
    readByte (deliverSectors disk lba count buf memory).2 (buf + i) = disk (lba * 512 + i) := by
  have length : (window disk (lba * 512) (count * 512)).length = count * 512 := window_length _ _ _
  have written := write_bytes_inside memory buf (window disk (lba * 512) (count * 512)) i
    (by rwa [length]) (by rwa [length])
  have delivered := window_get disk (lba * 512) (count * 512) i inside
  rw [List.getElem?_eq_getElem (by rwa [length])] at delivered
  exact written.trans (Option.some.inj delivered)

theorem deliver_outside (lba count buf address : Nat) (memory : Memory)
    (outside : ∀ i, i < count * 512 → u32 address ≠ u32 (buf + i)) :
    readByte (deliverSectors disk lba count buf memory).2 address = readByte memory address := by
  apply write_bytes_outside
  intro i inside
  rw [window_length] at inside
  exact outside i inside

theorem deliver_read (lba count buf : Nat) (memory : Memory) (fits : count * 512 ≤ 2 ^ 32) :
    readBytes (deliverSectors disk lba count buf memory).2 buf (count * 512) =
      window disk (lba * 512) (count * 512) := by
  have same := read_write_bytes_same memory buf (window disk (lba * 512) (count * 512))
    (by rwa [window_length])
  rwa [window_length] at same

theorem deliver_field (lba buf offset width : Nat) (memory : Memory)
    (inside : offset + width ≤ 512) :
    readBytes (deliverSectors disk lba 1 buf memory).2 (buf + offset) width =
      window disk (lba * 512 + offset) width := by
  rw [read_bytes_window]
  apply window_congr
  intro i bound
  rw [Nat.zero_add, Nat.add_assoc, deliver_inside disk lba 1 buf _ memory (by omega) (by decide),
    ← Nat.add_assoc]

def diskBpb (partLba : Nat) : Bpb where
  bytesPerSector := decodeLE (window disk (partLba * 512 + 11) 2)
  sectorsPerCluster := (disk (partLba * 512 + 13)).toNat
  reservedSectors := decodeLE (window disk (partLba * 512 + 14) 2)
  fatCount := (disk (partLba * 512 + 16)).toNat
  fatSize32 := decodeLE (window disk (partLba * 512 + 36) 4)
  rootCluster := decodeLE (window disk (partLba * 512 + 44) 4)

theorem bpb_delivered (bpb partLba : Nat) (memory : Memory) :
    bpbAt (deliverSectors disk partLba 1 bpb memory).2 bpb = diskBpb disk partLba := by
  have byte : ∀ offset, offset < 512 →
      load8 (deliverSectors disk partLba 1 bpb memory).2 (bpb + offset) =
        (disk (partLba * 512 + offset)).toNat := by
    intro offset inside
    rw [load8, deliver_inside disk partLba 1 bpb offset memory (by omega) (by decide)]
  simp only [bpbAt, diskBpb, load16, load32]
  rw [deliver_field disk partLba bpb 11 2 memory (by decide),
    deliver_field disk partLba bpb 14 2 memory (by decide),
    deliver_field disk partLba bpb 36 4 memory (by decide),
    deliver_field disk partLba bpb 44 4 memory (by decide), byte 13 (by decide),
    byte 16 (by decide)]

/-- With its sector delivered the mount accepts every boot sector that has a
table and sectors of 512 bytes. -/
theorem mount_delivered (bpb partLba : Nat) (memory : Memory)
    (table : (diskBpb disk partLba).fatSize32 ≠ 0)
    (sectors : (diskBpb disk partLba).bytesPerSector = 512) :
    Mounted disk (mountedFs partLba (diskBpb disk partLba)) := by
  refine ⟨bpb, partLba, memory, (deliverSectors disk partLba 1 bpb memory).2, ?_⟩
  unfold fat32Mount
  dsimp only
  rw [bpb_delivered, if_neg table, if_neg (not_not_intro sectors)]

variable (fs : Fs)

/-- The link `fat_next` reads for a cluster, from the sector it computes. -/
def diskLink (cluster : Nat) : Nat :=
  decodeLE (window disk (u32 (fs.fatLba + u32 (cluster * 4) / 512) * 512 +
    u32 (cluster * 4) % 512) 4) &&& 0x0FFFFFFF

/-- A word of the table never crosses the end of its sector. -/
theorem link_offset (cluster : Nat) : u32 (cluster * 4) % 512 + 4 ≤ 512 := by
  unfold u32
  omega

theorem fat_next_delivered (sector cluster : Nat) (memory : Memory) :
    fatNext (deliverSectors disk) fs sector cluster memory =
      (diskLink disk fs cluster,
        (deliverSectors disk (u32 (fs.fatLba + u32 (cluster * 4) / 512)) 1 sector memory).2) := by
  have offset := link_offset cluster
  have word : ∀ lba, load32 (deliverSectors disk lba 1 sector memory).2
      (sector + u32 (cluster * 4) % 512) =
        decodeLE (window disk (lba * 512 + u32 (cluster * 4) % 512) 4) := by
    intro lba
    rw [load32, read_bytes_window]
    apply congrArg decodeLE
    apply window_congr
    intro i bound
    rw [Nat.zero_add, Nat.add_assoc, deliver_inside disk lba 1 sector _ memory (by omega)
      (by decide), ← Nat.add_assoc]
  simp only [fatNext, word, diskLink]

theorem fat_next_outside (sector cluster address : Nat) (memory : Memory)
    (outside : ∀ i, i < 512 → u32 address ≠ u32 (sector + i)) :
    readByte (fatNext (deliverSectors disk) fs sector cluster memory).2 address =
      readByte memory address := by
  rw [fat_next_delivered]
  dsimp only
  rw [deliver_outside]
  intro i bound
  exact outside i (by omega)

def clusterBytes (cluster : Nat) : List Byte :=
  window disk (clusterToLba fs cluster * 512) (fs.sectorsPerCluster * 512)

end Delivery

end LumenOS.Fat32Delivery
