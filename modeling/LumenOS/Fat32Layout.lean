import LumenOS.Fat32Delivery

/-!
# Where a data cluster lies

Data clusters are numbered from two and stored one behind the other from the
first data sector on; the table keeps a word of 32 bits for each, of which 28
link to the next. Sector numbers have 32 bits. Nothing here looks at how
`fat32.c` computes its sector numbers; that it arrives at the same places is
proved for every cluster below the end mark.
-/

namespace LumenOS.Fat32Layout

open LumenOS.ByteMemory LumenOS.Fat32Model LumenOS.Fat32Delivery

set_option autoImplicit false

section Places

variable (disk : Nat → Byte) (fs : Fs)

/-- The first sector of a cluster. -/
def clusterSector (cluster : Nat) : Nat :=
  u32 (fs.dataLba + (cluster - 2) * fs.sectorsPerCluster)

def dataBytes (cluster : Nat) : List Byte :=
  window disk (clusterSector fs cluster * 512) (fs.sectorsPerCluster * 512)

/-- The link of a cluster: its table has 128 words to a sector. -/
def tableLink (cluster : Nat) : Nat :=
  decodeLE (window disk (u32 (fs.fatLba + cluster / 128) * 512 + 4 * (cluster % 128)) 4) % 2 ^ 28

/-- The data clusters met along the links, up to an end mark. -/
def DataChain : Nat → List Nat → Prop
  | first, [] => fatEoc ≤ first
  | first, cluster :: clusters => first = cluster ∧ 2 ≤ cluster ∧ cluster < fatEoc ∧
      DataChain (tableLink disk fs cluster) clusters

def dataContent (clusters : List Nat) : List Byte := clusters.flatMap (dataBytes disk fs)

variable {disk fs}

/-- `cluster_to_lba` wraps twice on its way, and ends at the cluster's sector. -/
theorem cluster_to_lba_sector {cluster : Nat} (data : 2 ≤ cluster) (below : cluster < fatEoc) :
    clusterToLba fs cluster = clusterSector fs cluster := by
  have index : u32 (cluster + (2 ^ 32 - 2)) = cluster - 2 := by
    simp only [fatEoc] at below
    unfold u32
    omega
  unfold clusterToLba clusterSector
  rw [index]
  exact Nat.add_mod_mod _ _ _

theorem cluster_bytes_data {cluster : Nat} (data : 2 ≤ cluster) (below : cluster < fatEoc) :
    clusterBytes disk fs cluster = dataBytes disk fs cluster := by
  rw [clusterBytes, cluster_to_lba_sector data below]
  rfl

theorem disk_link_table {cluster : Nat} (below : cluster < fatEoc) :
    diskLink disk fs cluster = tableLink disk fs cluster := by
  have word : u32 (cluster * 4) = cluster * 4 := by
    simp only [fatEoc] at below
    unfold u32
    omega
  have sector : cluster * 4 / 512 = cluster / 128 := by omega
  have column : cluster * 4 % 512 = 4 * (cluster % 128) := by omega
  rw [diskLink, word, sector, column]
  exact Nat.and_two_pow_sub_one_eq_mod _ 28

theorem data_bytes_get {cluster i : Nat} (inside : i < fs.sectorsPerCluster * 512) :
    (dataBytes disk fs cluster)[i]? = some (disk (clusterSector fs cluster * 512 + i)) :=
  window_get disk _ _ i inside

/-- Clusters are whole, so a position says which one it is in. -/
theorem data_content_get {column : Nat} (inside : column < fs.sectorsPerCluster * 512)
    (clusters : List Nat) (index : Nat) :
    (dataContent disk fs clusters)[index * (fs.sectorsPerCluster * 512) + column]? =
      clusters[index]?.map fun cluster => disk (clusterSector fs cluster * 512 + column) := by
  induction clusters generalizing index with
  | nil => rfl
  | cons cluster clusters ih =>
      have size : (dataBytes disk fs cluster).length = fs.sectorsPerCluster * 512 :=
        window_length _ _ _
      have split : dataContent disk fs (cluster :: clusters) =
          dataBytes disk fs cluster ++ dataContent disk fs clusters := rfl
      rw [split]
      cases index with
      | zero =>
          rw [Nat.zero_mul, Nat.zero_add, List.getElem?_append_left (by omega),
            data_bytes_get inside]
          rfl
      | succ index =>
          have behind : (index + 1) * (fs.sectorsPerCluster * 512) + column =
              fs.sectorsPerCluster * 512 + (index * (fs.sectorsPerCluster * 512) + column) := by
            rw [Nat.succ_mul]
            omega
          rw [behind, List.getElem?_append_right (by omega), size, Nat.add_sub_cancel_left, ih]
          rfl

end Places

end LumenOS.Fat32Layout
