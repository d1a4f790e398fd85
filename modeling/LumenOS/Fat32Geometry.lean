import LumenOS.Fat32Trace

/-!
# Which geometries the cluster buffers can take

`fat32_find` and `fat32_read` keep a cluster in a buffer of 4096 bytes. What
they do to it is in the record of their accesses: clusters are loaded into it,
entries looked at and bytes copied out of it. `fat32_mount` does not look at
the cluster size.
-/

namespace LumenOS.Fat32Geometry

open LumenOS.ByteMemory LumenOS.StringModel LumenOS.Fat32Model LumenOS.Fat32Delivery
open LumenOS.Fat32Slice LumenOS.Fat32Trace

set_option autoImplicit false

def bufferSize : Nat := 4096

/-- What is transferred to the cluster buffer or read from it stays inside. -/
def Event.InBuffer (buf : Nat) : Event → Prop
  | .load _ count place _ => place = buf → count * 512 ≤ bufferSize
  | .look start => start + 32 ≤ bufferSize
  | .copy _ off _ count => off + count ≤ bufferSize
  | .link _ => True
  | .choose _ => True

def InBounds (buf : Nat) (events : List Event) : Prop :=
  ∀ event ∈ events, Event.InBuffer buf event

section Bounds

variable (diskRead : DiskRead) (fs : Fs) (sector buf : Nat)

theorem in_bounds_nil : InBounds buf [] := List.forall_mem_nil _

variable {buf}

theorem in_bounds_cons {event : Event} {events : List Event} (here : Event.InBuffer buf event)
    (later : InBounds buf events) : InBounds buf (event :: events) :=
  List.forall_mem_cons.mpr ⟨here, later⟩

theorem in_bounds_append {left right : List Event} (before : InBounds buf left)
    (after : InBounds buf right) : InBounds buf (left ++ right) :=
  List.forall_mem_append.mpr ⟨before, after⟩

variable (buf)

theorem scan_in_bounds (memory : Memory) (name83 : List Byte) (remaining i : Nat)
    (fits : 32 * (i + remaining) ≤ bufferSize) :
    InBounds buf (scanEntriesLogged buf memory name83 remaining i).1 := by
  induction remaining generalizing i with
  | zero => exact in_bounds_nil buf
  | succ remaining ih =>
      have here : Event.InBuffer buf (.look (32 * i)) := by
        change 32 * i + 32 ≤ bufferSize
        omega
      have later := in_bounds_cons here (ih (i + 1) (by omega))
      rw [scanEntriesLogged]
      split_ifs
      · exact in_bounds_cons here (in_bounds_nil buf)
      · exact later
      · exact later
      · exact in_bounds_cons here (in_bounds_cons trivial (in_bounds_nil buf))
      · exact later

theorem next_in_bounds (cluster : Nat) (memory : Memory) :
    InBounds buf (fatNextEvents diskRead fs sector cluster memory) :=
  in_bounds_cons trivial
    (in_bounds_cons (fun _ => Nat.le_of_ble_eq_true rfl) (in_bounds_nil buf))

theorem skip_in_bounds (skip cl : Nat) (memory : Memory) :
    InBounds buf (skipClustersLogged diskRead fs sector skip cl memory).1 := by
  induction skip generalizing cl memory with
  | zero => exact in_bounds_nil buf
  | succ skip ih => exact in_bounds_append (next_in_bounds diskRead fs sector buf cl memory) (ih _ _)

theorem transfer_in_bounds (small : fs.sectorsPerCluster ≤ 8) (lba : Nat) (memory : Memory) :
    Event.InBuffer buf (loading diskRead lba fs.sectorsPerCluster buf memory) := by
  intro _
  unfold bufferSize
  omega

theorem find_in_bounds (small : SmallClusters fs) (name83 : List Byte) (fuel cl : Nat)
    (memory : Memory) :
    InBounds buf (findFromLogged diskRead fs sector buf name83 fuel cl memory).1 := by
  induction fuel generalizing cl memory with
  | zero => exact in_bounds_nil buf
  | succ fuel ih =>
      have transfer := transfer_in_bounds diskRead fs buf small.small (clusterToLba fs cl) memory
      have fits : 32 * (0 + fs.bytesPerCluster / 32) ≤ bufferSize := by
        have limit := small.small
        rw [small.bytes]
        unfold bufferSize
        omega
      rw [findFromLogged]
      by_cases data : cl < fatEoc
      · rw [if_pos data]
        dsimp only
        generalize (diskRead (clusterToLba fs cl) fs.sectorsPerCluster buf memory).2 = loaded
        have scanned := in_bounds_cons transfer
          (scan_in_bounds buf loaded name83 (fs.bytesPerCluster / 32) 0 fits)
        cases (scanEntriesLogged buf loaded name83 (fs.bytesPerCluster / 32) 0).2 with
        | endOfDirectory => exact scanned
        | found file => exact scanned
        | exhausted =>
            have linked := next_in_bounds diskRead fs sector buf cl loaded
            exact in_bounds_append (in_bounds_append scanned linked) (ih _ _)
      · rw [if_neg data]
        exact in_bounds_nil buf

theorem read_in_bounds (small : SmallClusters fs) (fuel cl off dst remaining : Nat)
    (memory : Memory) (inside : off < fs.bytesPerCluster) :
    InBounds buf (readFromLogged diskRead fs sector buf fuel cl off dst remaining memory).1 := by
  induction fuel generalizing cl off dst remaining memory with
  | zero => exact in_bounds_nil buf
  | succ fuel ih =>
      have transfer := transfer_in_bounds diskRead fs buf small.small (clusterToLba fs cl) memory
      have limit := small.small
      have bytes := small.bytes
      rw [readFromLogged]
      by_cases more : remaining ≠ 0 ∧ cl < fatEoc
      · have left : u32 (fs.bytesPerCluster + (2 ^ 32 - off)) = fs.bytesPerCluster - off := by
          unfold u32
          omega
        have copied : Event.InBuffer buf (.copy cl off dst
            (if fs.bytesPerCluster - off > remaining then remaining
              else fs.bytesPerCluster - off)) := by
          unfold Event.InBuffer bufferSize
          dsimp only
          split_ifs <;> omega
        rw [if_pos more, left]
        apply in_bounds_append
        · exact in_bounds_cons transfer (in_bounds_cons copied
            (next_in_bounds diskRead fs sector buf cl _))
        · exact ih _ _ _ _ _ (by omega)
      · rw [if_neg more]
        exact in_bounds_nil buf

end Bounds

/-- Every access either function makes to its cluster buffer is inside, and
the read divides by no zero, whatever the handle and the arguments. -/
def Safe (disk : Nat → Byte) (fs : Fs) : Prop :=
  ∀ sector buf fuel handle memory,
    (∀ name83, InBounds buf
      (fat32FindLogged (deliverSectors disk) fs sector buf fuel handle name83 memory).1) ∧
    ∀ offset size out,
      InBounds buf (fat32ReadLogged (deliverSectors disk) fs sector buf fuel handle offset size
        out memory).1 ∧
      fat32Read (deliverSectors disk) fs sector buf fuel handle offset size out memory ≠
        .error .divisionByZero

theorem read_from_divides_nothing (diskRead : DiskRead) (fs : Fs)
    (sector buf fuel cl off dst remaining : Nat) (memory : Memory) :
    readFrom diskRead fs sector buf fuel cl off dst remaining memory ≠
      .error .divisionByZero := by
  induction fuel generalizing cl off dst remaining memory with
  | zero =>
      intro stopped
      cases stopped
  | succ fuel ih =>
      rw [readFrom]
      split_ifs
      · exact ih _ _ _ _ _
      · intro stopped
        cases stopped

theorem small_clusters_safe (disk : Nat → Byte) (fs : Fs) (small : SmallClusters fs) :
    Safe disk fs := by
  have positive := small.positive
  have whole : 0 < fs.bytesPerCluster := by
    rw [small.bytes]
    omega
  intro sector buf fuel handle memory
  refine ⟨fun name83 => find_in_bounds _ fs sector buf small name83 fuel _ memory, ?_⟩
  intro offset size out
  constructor
  · unfold fat32ReadLogged
    dsimp only
    split_ifs
    · exact in_bounds_nil buf
    · exact in_bounds_nil buf
    all_goals
      apply in_bounds_append
      · exact skip_in_bounds _ fs sector buf _ _ memory
      · exact read_in_bounds _ fs sector buf small fuel _ _ out _ _ (Nat.mod_lt _ whole)
  · unfold fat32Read
    dsimp only
    rw [if_neg (show ¬ fs.bytesPerCluster = 0 by omega)]
    by_cases beyond : offset ≥ handle.size
    · rw [if_pos beyond]
      intro stopped
      cases stopped
    · rw [if_neg beyond]
      intro stopped
      generalize skipClusters _ _ _ _ _ _ = skipped at stopped
      generalize (if u32 (offset + size) > handle.size then _ else _) = count at stopped
      have divides := read_from_divides_nothing (deliverSectors disk) fs sector buf fuel skipped.1
        (offset % fs.bytesPerCluster) out count skipped.2
      cases copied : readFrom (deliverSectors disk) fs sector buf fuel skipped.1
          (offset % fs.bytesPerCluster) out count skipped.2 with
      | ok result =>
          rw [copied] at stopped
          cases stopped
      | error stop =>
          rw [copied] at stopped divides
          exact divides stopped

/-- With clusters of no sectors the first read of a byte divides by zero. -/
theorem empty_clusters_unsafe (disk : Nat → Byte) (fs : Fs) (empty : fs.bytesPerCluster = 0) :
    ¬ Safe disk fs := by
  intro safe
  have read := ((safe 0 0 1 ⟨2, 1, 0, false⟩ fun _ => 0).2 0 1 0).2
  apply read
  unfold fat32Read
  dsimp only
  rw [if_neg (by decide), if_pos empty]

/-- With more than eight sectors the first transfer of a search is too long. -/
theorem large_clusters_unsafe (disk : Nat → Byte) (fs : Fs) (large : 8 < fs.sectorsPerCluster) :
    ¬ Safe disk fs := by
  intro safe
  have search := (safe 0 0 1 ⟨2, 0, 0, true⟩ fun _ => 0).1 []
  have first : loading (deliverSectors disk) (clusterToLba fs 2) fs.sectorsPerCluster 0
      (fun _ => 0) ∈
      (fat32FindLogged (deliverSectors disk) fs 0 0 1 ⟨2, 0, 0, true⟩ [] fun _ => 0).1 := by
    unfold fat32FindLogged
    rw [findFromLogged, if_pos (by decide)]
    dsimp only
    generalize (deliverSectors disk _ _ _ _).2 = loaded
    cases (scanEntriesLogged 0 loaded [] (fs.bytesPerCluster / 32) 0).2 with
    | endOfDirectory => exact List.mem_cons_self
    | found file => exact List.mem_cons_self
    | exhausted => exact List.mem_append_left _ List.mem_cons_self
  have inside : fs.sectorsPerCluster * 512 ≤ bufferSize := search _ first rfl
  unfold bufferSize at inside
  omega

/-- A mounted volume is safe to search and read exactly if its clusters have
one to eight sectors, which the mount does not check. -/
theorem mounted_safe_iff {disk : Nat → Byte} {fs : Fs} (mounted : Mounted disk fs) :
    Safe disk fs ↔ 1 ≤ fs.sectorsPerCluster ∧ fs.sectorsPerCluster ≤ 8 := by
  constructor
  · intro safe
    by_contra other
    by_cases empty : fs.sectorsPerCluster = 0
    · obtain ⟨partLba, bpb, rfl⟩ := mounted_geometry mounted
      refine empty_clusters_unsafe disk _ ?_ safe
      change bpb.sectorsPerCluster = 0 at empty
      change u32 (bpb.sectorsPerCluster * 512) = 0
      rw [empty]
      rfl
    · exact large_clusters_unsafe disk fs (by omega) safe
  · rintro ⟨positive, small⟩
    exact small_clusters_safe disk fs (mounted_small_clusters mounted positive small)

theorem small_safe_iff :
    Mounted smallDisk smallFs ∧
      (Safe smallDisk smallFs ↔ 1 ≤ smallFs.sectorsPerCluster ∧ smallFs.sectorsPerCluster ≤ 8) :=
  ⟨small_mounted, mounted_safe_iff small_mounted⟩

def flatDisk : Nat → Byte := fun i => if i = 13 then 0 else smallDisk i

/-- A boot sector with a cluster size of zero is mounted, and the volume is not safe to read. -/
theorem flat_disk_mounted_unsafe :
    Mounted flatDisk (mountedFs 0 (diskBpb flatDisk 0)) ∧
      ¬ Safe flatDisk (mountedFs 0 (diskBpb flatDisk 0)) :=
  ⟨mount_delivered flatDisk 0x500000 0 (fun _ => 0) (by decide) (by decide),
    empty_clusters_unsafe flatDisk _ (by decide)⟩

end LumenOS.Fat32Geometry
