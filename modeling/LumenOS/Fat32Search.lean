import LumenOS.Fat32Delivery

/-!
# The directory search as a function of the disk

`fat32_find` looks only at what it has just loaded. With every sector
delivered its decisions are those of a search over the disk that knows no
buffer: scan a cluster, follow its link, scan the next.
-/

namespace LumenOS.Fat32Search

open LumenOS.ByteMemory LumenOS.StringModel LumenOS.Fat32Model LumenOS.Fat32Delivery

set_option autoImplicit false

theorem load8_congr {left right : Memory} {address other : Nat}
    (same : readByte left address = readByte right other) :
    load8 left address = load8 right other := by
  rw [load8, load8, same]

theorem dirent_congr {left right : Memory} {address other : Nat}
    (same : ∀ i, i < 32 → readByte left (address + i) = readByte right (other + i)) :
    direntAt left address = direntAt right other := by
  have field : ∀ offset width, offset + width ≤ 32 →
      readBytes left (address + offset) width = readBytes right (other + offset) width := by
    intro offset width inside
    apply read_bytes_congr
    intro i bound
    rw [Nat.add_assoc, Nat.add_assoc]
    exact same (offset + i) (by omega)
  have name := field 0 11 (by decide)
  have attr := load8_congr (same 11 (by decide))
  have clusterHi := congrArg decodeLE (field 20 2 (by decide))
  have clusterLo := congrArg decodeLE (field 26 2 (by decide))
  have size := congrArg decodeLE (field 28 4 (by decide))
  rw [Nat.add_zero, Nat.add_zero] at name
  simp only [direntAt, load16, load32, name, attr, clusterHi, clusterLo, size]

theorem scan_entries_congr {left right : Memory} {leftBuf rightBuf : Nat} (name83 : List Byte)
    (remaining i : Nat)
    (same : ∀ j, j < 32 * (i + remaining) →
      readByte left (leftBuf + j) = readByte right (rightBuf + j)) :
    scanEntries left leftBuf name83 remaining i =
      scanEntries right rightBuf name83 remaining i := by
  induction remaining generalizing i with
  | zero => rfl
  | succ remaining ih =>
      have entry : direntAt left (leftBuf + 32 * i) = direntAt right (rightBuf + 32 * i) := by
        apply dirent_congr
        intro j bound
        rw [Nat.add_assoc, Nat.add_assoc]
        exact same (32 * i + j) (by omega)
      have first := same (32 * i) (by omega)
      have rest := ih (i + 1) fun j bound => same j (by omega)
      simp only [scanEntries, entry, first, rest]

section Search

variable (disk : Nat → Byte) (fs : Fs) (name83 : List Byte)

/-- The disk from a cluster's first sector on, as a memory. -/
def clusterMemory (cluster : Nat) : Memory := fun i => disk (clusterToLba fs cluster * 512 + i)

def scanCluster (cluster : Nat) : Scan :=
  scanEntries (clusterMemory disk fs cluster) 0 name83 (fs.bytesPerCluster / 32) 0

def searchFrom : Nat → Nat → Except Stop (Int × Option File)
  | 0, _ => .error .stillRunning
  | fuel + 1, cluster =>
      if cluster < fatEoc then
        match scanCluster disk fs name83 cluster with
        | .endOfDirectory => .ok (-1, none)
        | .found file => .ok (0, some file)
        | .exhausted => searchFrom fuel (diskLink disk fs cluster)
      else .ok (-1, none)

variable {disk fs name83}

theorem scan_delivered (bytes : fs.bytesPerCluster = fs.sectorsPerCluster * 512)
    (small : fs.sectorsPerCluster ≤ 8) (buf cluster : Nat) (memory : Memory) :
    scanEntries (deliverSectors disk (clusterToLba fs cluster) fs.sectorsPerCluster buf memory).2
        buf name83 (fs.bytesPerCluster / 32) 0 = scanCluster disk fs name83 cluster := by
  apply scan_entries_congr
  intro i bound
  have inside : i < fs.sectorsPerCluster * 512 := by
    rw [bytes] at bound
    omega
  have word : u32 (0 + i) = i := by
    unfold u32
    omega
  rw [deliver_inside disk _ _ buf i memory inside (by omega), readByte, word]
  rfl

theorem find_from_search (bytes : fs.bytesPerCluster = fs.sectorsPerCluster * 512)
    (small : fs.sectorsPerCluster ≤ 8) (sector buf fuel cluster : Nat) (memory : Memory) :
    (findFrom (deliverSectors disk) fs sector buf name83 fuel cluster memory).map
        (fun result => (result.1, result.2.1)) = searchFrom disk fs name83 fuel cluster := by
  induction fuel generalizing cluster memory with
  | zero => rfl
  | succ fuel ih =>
      rw [findFrom, searchFrom]
      by_cases data : cluster < fatEoc
      · rw [if_pos data, if_pos data]
        dsimp only
        rw [scan_delivered bytes small]
        cases scanCluster disk fs name83 cluster with
        | endOfDirectory => rfl
        | found file => rfl
        | exhausted =>
            dsimp only
            rw [ih, fat_next_delivered]
      · rw [if_neg data, if_neg data]
        rfl

theorem search_more {fuel more cluster : Nat} {result : Int × Option File}
    (ended : searchFrom disk fs name83 fuel cluster = .ok result) (enough : fuel ≤ more) :
    searchFrom disk fs name83 more cluster = .ok result := by
  induction fuel generalizing more cluster with
  | zero => cases ended
  | succ fuel ih =>
      obtain ⟨more, rfl⟩ := Nat.exists_eq_succ_of_ne_zero (show more ≠ 0 by omega)
      rw [searchFrom] at ended ⊢
      by_cases data : cluster < fatEoc
      · rw [if_pos data] at ended ⊢
        cases scanned : scanCluster disk fs name83 cluster with
        | endOfDirectory => rwa [scanned] at ended
        | found file => rwa [scanned] at ended
        | exhausted =>
            rw [scanned] at ended
            exact ih ended (by omega)
      · rwa [if_neg data] at ended ⊢

end Search

end LumenOS.Fat32Search
