import LumenOS.Fat32Search
import LumenOS.Fat32Slice
import LumenOS.OrbitCycle

/-!
# Which operations on a FAT32 volume end

`fat32_read` copies at least one byte in every round, so its byte count is a
measure whatever the links say. The loop of `fat32_find` counts nothing: it
ends only at an end mark or on what a cluster holds, and a table whose links
form a ring keeps it going.
-/

namespace LumenOS.Fat32Termination

open LumenOS.ByteMemory LumenOS.Fat32Model LumenOS.Fat32Delivery LumenOS.Fat32Search
open LumenOS.Fat32Slice LumenOS.OrbitCycle

set_option autoImplicit false

def Returns {Result : Type} (call : Nat → Except Stop Result) : Prop :=
  ∃ needed, ∀ fuel, needed ≤ fuel → ∃ result, call fuel = .ok result

section Reading

variable (diskRead : DiskRead) (fs : Fs) (sector buf : Nat)

theorem read_from_returns (whole : fs.bytesPerCluster < 2 ^ 32) (fuel cl off dst remaining : Nat)
    (memory : Memory) (inside : off < fs.bytesPerCluster) (enough : remaining < fuel) :
    ∃ result, readFrom diskRead fs sector buf fuel cl off dst remaining memory = .ok result := by
  induction fuel generalizing cl off dst remaining memory with
  | zero => omega
  | succ fuel ih =>
      by_cases more : remaining ≠ 0 ∧ cl < fatEoc
      · rw [read_from_cons sector buf diskRead fuel cl off dst remaining memory more.1 more.2]
        have left : 0 < u32 (fs.bytesPerCluster + (2 ^ 32 - off)) := by
          unfold u32
          omega
        have nonzero := more.1
        apply ih
        · omega
        · split_ifs <;> omega
      · exact ⟨_, if_neg more⟩

theorem fat32_read_returns (positive : 0 < fs.bytesPerCluster)
    (whole : fs.bytesPerCluster < 2 ^ 32) (file : File) (offset size out : Nat)
    (memory : Memory) :
    Returns fun fuel => fat32Read diskRead fs sector buf fuel file offset size out memory := by
  by_cases beyond : offset ≥ file.size
  · exact ⟨0, fun fuel _ => ⟨_, if_pos beyond⟩⟩
  · have nonzero : ¬ fs.bytesPerCluster = 0 := by omega
    refine ⟨(if u32 (offset + size) > file.size then file.size - offset else size) + 1, ?_⟩
    intro fuel enough
    obtain ⟨result, copied⟩ := read_from_returns diskRead fs sector buf whole fuel
      (skipClusters diskRead fs sector (offset / fs.bytesPerCluster) file.firstCluster memory).1
      (offset % fs.bytesPerCluster) out
      (if u32 (offset + size) > file.size then file.size - offset else size)
      (skipClusters diskRead fs sector (offset / fs.bytesPerCluster) file.firstCluster memory).2
      (Nat.mod_lt _ positive) enough
    unfold fat32Read
    dsimp only
    rw [if_neg beyond, if_neg nonzero, copied]
    exact ⟨_, rfl⟩

end Reading

section Searching

variable {disk : Nat → Byte} {fs : Fs} {name83 : List Byte}

def Continues (disk : Nat → Byte) (fs : Fs) (name83 : List Byte) (cluster : Nat) : Prop :=
  cluster < fatEoc ∧ scanCluster disk fs name83 cluster = .exhausted

theorem search_stops (fuel first : Nat) (stops : ¬ Continues disk fs name83 first) :
    ∃ result, searchFrom disk fs name83 (fuel + 1) first = .ok result := by
  rw [searchFrom]
  by_cases data : first < fatEoc
  · rw [if_pos data]
    cases scanned : scanCluster disk fs name83 first with
    | endOfDirectory => exact ⟨_, rfl⟩
    | found file => exact ⟨_, rfl⟩
    | exhausted => exact absurd ⟨data, scanned⟩ stops
  · rw [if_neg data]
    exact ⟨_, rfl⟩

theorem search_continues (fuel first : Nat) (continues : Continues disk fs name83 first) :
    searchFrom disk fs name83 (fuel + 1) first =
      searchFrom disk fs name83 fuel (diskLink disk fs first) := by
  rw [searchFrom, if_pos continues.1, continues.2]

theorem search_returns_of_stop (steps first : Nat)
    (stops : ¬ Continues disk fs name83 ((diskLink disk fs)^[steps] first)) :
    ∃ fuel result, searchFrom disk fs name83 fuel first = .ok result := by
  induction steps generalizing first with
  | zero => exact ⟨1, search_stops 0 first stops⟩
  | succ steps ih =>
      by_cases continues : Continues disk fs name83 first
      · obtain ⟨fuel, result, ended⟩ := ih (diskLink disk fs first) stops
        exact ⟨fuel + 1, result, (search_continues fuel first continues).trans ended⟩
      · exact ⟨1, search_stops 0 first continues⟩

theorem stop_of_search_returns (fuel first : Nat) (result : Int × Option File)
    (ended : searchFrom disk fs name83 fuel first = .ok result) :
    ∃ steps, ¬ Continues disk fs name83 ((diskLink disk fs)^[steps] first) := by
  induction fuel generalizing first with
  | zero => cases ended
  | succ fuel ih =>
      by_cases continues : Continues disk fs name83 first
      · rw [search_continues fuel first continues] at ended
        obtain ⟨steps, stops⟩ := ih (diskLink disk fs first) ended
        exact ⟨steps + 1, stops⟩
      · exact ⟨0, continues⟩

/-- Only cluster numbers below the end mark continue, and they are finitely many. -/
theorem continues_finite : {cluster | Continues disk fs name83 cluster}.Finite :=
  (Set.finite_lt_nat fatEoc).subset fun _ continues => continues.1

theorem find_returns_iff_search (bytes : fs.bytesPerCluster = fs.sectorsPerCluster * 512)
    (small : fs.sectorsPerCluster ≤ 8) (sector buf : Nat) (dir : File) (memory : Memory) :
    (Returns fun fuel =>
        fat32Find (deliverSectors disk) fs sector buf fuel dir name83 memory) ↔
      ∃ fuel result, searchFrom disk fs name83 fuel dir.firstCluster = .ok result := by
  have search : ∀ fuel, (fat32Find (deliverSectors disk) fs sector buf fuel dir name83 memory).map
      (fun result => (result.1, result.2.1)) =
        searchFrom disk fs name83 fuel dir.firstCluster :=
    fun fuel => find_from_search bytes small sector buf fuel dir.firstCluster memory
  constructor
  · rintro ⟨needed, returns⟩
    obtain ⟨result, returned⟩ := returns needed (Nat.le_refl needed)
    have ended := search needed
    dsimp only at returned
    rw [returned] at ended
    exact ⟨needed, _, ended.symm⟩
  · rintro ⟨needed, result, ended⟩
    refine ⟨needed, ?_⟩
    intro fuel enough
    have found := search fuel
    rw [search_more ended enough] at found
    cases returned : fat32Find (deliverSectors disk) fs sector buf fuel dir name83 memory with
    | error stop =>
        rw [returned] at found
        cases found
    | ok result => exact ⟨result, returned⟩

/-- The walk along the links meets a cluster twice, and no cluster up to there
ends the search. -/
def GoesRound (disk : Nat → Byte) (fs : Fs) (name83 : List Byte) (first : Nat) : Prop :=
  Revisits (diskLink disk fs) (Continues disk fs name83) first

theorem find_returns_iff (bytes : fs.bytesPerCluster = fs.sectorsPerCluster * 512)
    (small : fs.sectorsPerCluster ≤ 8) (sector buf : Nat) (dir : File) (memory : Memory) :
    (Returns fun fuel =>
        fat32Find (deliverSectors disk) fs sector buf fuel dir name83 memory) ↔
      ¬ GoesRound disk fs name83 dir.firstCluster := by
  rw [find_returns_iff_search bytes small]
  unfold GoesRound
  rw [← leaves_iff_not_revisits continues_finite]
  constructor
  · rintro ⟨fuel, result, ended⟩
    exact stop_of_search_returns fuel dir.firstCluster result ended
  · rintro ⟨steps, stops⟩
    exact search_returns_of_stop steps dir.firstCluster stops

end Searching

/-- On every disk every read ends, and a search ends exactly if its walk along
the links does not come back to a cluster it has already searched in vain. -/
theorem operations_return_iff {disk : Nat → Byte} {fs : Fs} (mounted : Mounted disk fs)
    (positive : 1 ≤ fs.sectorsPerCluster) (small : fs.sectorsPerCluster ≤ 8)
    (sector buf : Nat) (handle : File) (memory : Memory) :
    (∀ offset size out, Returns fun fuel =>
      fat32Read (deliverSectors disk) fs sector buf fuel handle offset size out memory) ∧
    ∀ name83, (Returns fun fuel =>
        fat32Find (deliverSectors disk) fs sector buf fuel handle name83 memory) ↔
      ¬ GoesRound disk fs name83 handle.firstCluster := by
  have bytes := mounted_cluster_bytes mounted small
  constructor
  · intro offset size out
    exact fat32_read_returns (deliverSectors disk) fs sector buf (by omega) (by omega) handle
      offset size out memory
  · intro name83
    exact find_returns_iff bytes small sector buf handle memory

theorem operations_return_small :
    (∀ offset size out, Returns fun fuel =>
      fat32Read (deliverSectors chainDisk) chainFs 0x300000 0x400000 fuel ⟨2, 600, 0, false⟩ offset
        size out (fun _ => 0)) ∧
    ∀ name83, (Returns fun fuel =>
        fat32Find (deliverSectors chainDisk) chainFs 0x300000 0x400000 fuel ⟨2, 600, 0, false⟩
          name83 (fun _ => 0)) ↔
      ¬ GoesRound chainDisk chainFs name83 2 :=
  operations_return_iff chain_mounted (by decide) (by decide) 0x300000 0x400000 ⟨2, 600, 0, false⟩
    (fun _ => 0)

/-- A volume of one-sector clusters whose table links each cluster to 0x01414141
and whose entries are all called AAAAAAAAAAA. -/
def ringDisk : Nat → Byte := fun i =>
  (([(11, 0), (12, 2), (13, 1), (44, 2), (45, 0), (46, 0), (47, 0)] :
      List (Nat × Byte)).lookup i).getD 65

def ringFs : Fs := mountedFs 0 (diskBpb ringDisk 0)

def stage1Name : List Byte := "STAGE1  BIN".toList.map fun c => UInt8.ofNat c.toNat

theorem ring_goes_round : GoesRound ringDisk ringFs stage1Name 2 := by
  have data : scanCluster ringDisk ringFs stage1Name 2 = .exhausted := by decide +kernel
  have again : scanCluster ringDisk ringFs stage1Name 0x01414141 = .exhausted := by
    decide +kernel
  have first : diskLink ringDisk ringFs 2 = 0x01414141 := by decide +kernel
  have ring : diskLink ringDisk ringFs 0x01414141 = 0x01414141 := by decide +kernel
  refine ⟨1, 2, by decide, ?_, ?_⟩
  · change diskLink ringDisk ringFs 2 = diskLink ringDisk ringFs (diskLink ringDisk ringFs 2)
    rw [first, ring]
  · intro m bound
    rcases (show m = 0 ∨ m = 1 by omega) with rfl | rfl
    · exact ⟨by decide, data⟩
    · change Continues ringDisk ringFs stage1Name (diskLink ringDisk ringFs 2)
      rw [first]
      exact ⟨by decide, again⟩

/-- A search of the root directory of that volume never returns. -/
theorem ring_search_never_returns :
    Mounted ringDisk ringFs ∧ 1 ≤ ringFs.sectorsPerCluster ∧ ringFs.sectorsPerCluster ≤ 8 ∧
      ¬ Returns fun fuel => fat32Find (deliverSectors ringDisk) ringFs 0x300000 0x400000 fuel
        (fat32OpenRoot ringFs).2 stage1Name (fun _ => 0) := by
  have mounted : Mounted ringDisk ringFs :=
    mount_delivered ringDisk 0x500000 0 (fun _ => 0) (by decide) (by decide)
  have small : ringFs.sectorsPerCluster ≤ 8 := by decide
  refine ⟨mounted, by decide, small, ?_⟩
  rw [find_returns_iff (mounted_cluster_bytes mounted small) small]
  exact not_not_intro ring_goes_round

end LumenOS.Fat32Termination
