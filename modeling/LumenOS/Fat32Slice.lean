import LumenOS.Fat32Layout
import Mathlib.Data.List.Perm.Subperm

/-!
# What `fat32_read` copies

A file's bytes are the concatenation of the clusters of its chain. The copying
loop is described by an induction along the chain: from the offset inside the
first cluster it fills the destination with what remains of the concatenation,
cluster by cluster, and never looks at the in-cluster offset again.
-/

namespace LumenOS.Fat32Slice

open LumenOS.ByteMemory LumenOS.StringModel LumenOS.Fat32Model LumenOS.Fat32Delivery
open LumenOS.Fat32Layout

set_option autoImplicit false

/-- The geometry of a mounted volume that both buffers can take. -/
structure SmallClusters (fs : Fs) : Prop where
  bytes : fs.bytesPerCluster = fs.sectorsPerCluster * 512
  positive : 1 ≤ fs.sectorsPerCluster
  small : fs.sectorsPerCluster ≤ 8

theorem mounted_small_clusters {disk : Nat → Byte} {fs : Fs} (mounted : Mounted disk fs)
    (positive : 1 ≤ fs.sectorsPerCluster) (small : fs.sectorsPerCluster ≤ 8) :
    SmallClusters fs :=
  ⟨mounted_cluster_bytes mounted small, positive, small⟩

theorem SmallClusters.whole {fs : Fs} (geometry : SmallClusters fs) : 0 < fs.bytesPerCluster := by
  have positive := geometry.positive
  rw [geometry.bytes]
  omega

theorem SmallClusters.records {fs : Fs} (geometry : SmallClusters fs) :
    fs.bytesPerCluster / 32 = fs.sectorsPerCluster * 16 := by
  rw [geometry.bytes]
  omega

theorem SmallClusters.offset_inside {fs : Fs} (geometry : SmallClusters fs) (offset : Nat) :
    offset % fs.bytesPerCluster < fs.sectorsPerCluster * 512 := by
  rw [← geometry.bytes]
  exact Nat.mod_lt offset geometry.whole

section Chains

variable (disk : Nat → Byte) (fs : Fs)

/-- The sector of the table that holds a cluster's word and the cluster's own
sectors have numbers below 2^32. -/
def NoWrap (cluster : Nat) : Prop :=
  fs.fatLba + cluster / 128 < 2 ^ 32 ∧
    fs.dataLba + (cluster - 2) * fs.sectorsPerCluster + fs.sectorsPerCluster ≤ 2 ^ 32

def storedLink (cluster : Nat) : Nat :=
  decodeLE (window disk (fs.fatLba * 512 + 4 * cluster) 4) % 2 ^ 28

/-- The data clusters met along the stored links, up to an end mark. -/
def StoredChain : Nat → List Nat → Prop
  | first, [] => fatEoc ≤ first
  | first, cluster :: clusters => first = cluster ∧ 2 ≤ cluster ∧ cluster < fatEoc ∧
      NoWrap fs cluster ∧ StoredChain (storedLink disk fs cluster) clusters

def storedCluster (cluster : Nat) : List Byte :=
  window disk ((fs.dataLba + (cluster - 2) * fs.sectorsPerCluster) * 512)
    (fs.sectorsPerCluster * 512)

def chainContent (clusters : List Nat) : List Byte := clusters.flatMap (storedCluster disk fs)

variable {disk fs}

theorem cluster_to_lba_stored (positive : 1 ≤ fs.sectorsPerCluster) (cluster : Nat)
    (data : 2 ≤ cluster) (bound : cluster < fatEoc) (noWrap : NoWrap fs cluster) :
    clusterToLba fs cluster = fs.dataLba + (cluster - 2) * fs.sectorsPerCluster := by
  have range := noWrap.2
  rw [cluster_to_lba_sector data bound]
  apply Nat.mod_eq_of_lt
  omega

theorem cluster_bytes_stored (positive : 1 ≤ fs.sectorsPerCluster) (cluster : Nat)
    (data : 2 ≤ cluster) (bound : cluster < fatEoc) (noWrap : NoWrap fs cluster) :
    clusterBytes disk fs cluster = storedCluster disk fs cluster := by
  rw [clusterBytes, cluster_to_lba_stored positive cluster data bound noWrap]
  rfl

theorem disk_link_stored (cluster : Nat) (bound : cluster < fatEoc) (noWrap : NoWrap fs cluster) :
    diskLink disk fs cluster = storedLink disk fs cluster := by
  have range := noWrap.1
  have place : u32 (fs.fatLba + cluster / 128) * 512 + 4 * (cluster % 128) =
      fs.fatLba * 512 + 4 * cluster := by
    unfold u32
    omega
  rw [disk_link_table bound, tableLink, place]
  rfl

variable (disk fs)

theorem stored_cluster_length (cluster : Nat) :
    (storedCluster disk fs cluster).length = fs.sectorsPerCluster * 512 := window_length _ _ _

theorem chain_content_cons (cluster : Nat) (clusters : List Nat) :
    chainContent disk fs (cluster :: clusters) =
      storedCluster disk fs cluster ++ chainContent disk fs clusters := rfl

theorem chain_content_length (clusters : List Nat) :
    (chainContent disk fs clusters).length =
      clusters.length * (fs.sectorsPerCluster * 512) := by
  induction clusters with
  | nil => rw [chainContent, List.flatMap_nil, List.length_nil, List.length_nil, Nat.zero_mul]
  | cons cluster clusters ih =>
      rw [chain_content_cons, List.length_append, ih, stored_cluster_length, List.length_cons,
        Nat.succ_mul, Nat.add_comm]

theorem chain_content_drop (clusters : List Nat) (skip off : Nat) :
    (chainContent disk fs clusters).drop (skip * (fs.sectorsPerCluster * 512) + off) =
      (chainContent disk fs (clusters.drop skip)).drop off := by
  induction skip generalizing clusters with
  | zero => rw [Nat.zero_mul, Nat.zero_add, List.drop_zero]
  | succ skip ih =>
      cases clusters with
      | nil => rw [List.drop_nil, chainContent, List.flatMap_nil, List.drop_nil, List.drop_nil]
      | cons cluster clusters =>
          have size := stored_cluster_length disk fs cluster
          have count : (skip + 1) * (fs.sectorsPerCluster * 512) + off =
              (storedCluster disk fs cluster).length +
                (skip * (fs.sectorsPerCluster * 512) + off) := by
            rw [size, Nat.succ_mul]
            omega
          rw [chain_content_cons, count, List.drop_length_add_append, ih, List.drop_succ_cons]

variable {disk fs}

/-- A chain is determined by where it starts. -/
theorem stored_chain_unique {first : Nat} {left right : List Nat}
    (leftChain : StoredChain disk fs first left) (rightChain : StoredChain disk fs first right) :
    left = right := by
  induction left generalizing first right with
  | nil =>
      have marked : fatEoc ≤ first := leftChain
      cases right with
      | nil => rfl
      | cons cluster clusters =>
          obtain ⟨rfl, _, below, _⟩ := rightChain
          omega
  | cons cluster clusters ih =>
      obtain ⟨rfl, _, below, _, rest⟩ := leftChain
      cases right with
      | nil =>
          have marked : fatEoc ≤ first := rightChain
          omega
      | cons other others =>
          obtain ⟨rfl, _, _, _, otherRest⟩ := rightChain
          rw [ih rest otherRest]

theorem stored_chain_from {first cluster : Nat} {clusters : List Nat}
    (chain : StoredChain disk fs first clusters) (member : cluster ∈ clusters) :
    cluster < fatEoc ∧
      ∃ behind, StoredChain disk fs cluster behind ∧ behind.length ≤ clusters.length := by
  induction clusters generalizing first with
  | nil => cases member
  | cons head clusters ih =>
      have whole := chain
      obtain ⟨rfl, _, below, _, rest⟩ := chain
      rcases List.mem_cons.mp member with rfl | later
      · exact ⟨below, _, whole, Nat.le_refl _⟩
      · obtain ⟨bound, behind, follows, shorter⟩ := ih rest later
        exact ⟨bound, behind, follows, Nat.le_succ_of_le shorter⟩

/-- A chain that ends meets no cluster twice. -/
theorem stored_chain_nodup {first : Nat} {clusters : List Nat}
    (chain : StoredChain disk fs first clusters) : clusters.Nodup := by
  induction clusters generalizing first with
  | nil => exact List.nodup_nil
  | cons cluster clusters ih =>
      have whole := chain
      obtain ⟨rfl, _, _, _, rest⟩ := chain
      refine List.nodup_cons.mpr ⟨?_, ih rest⟩
      intro again
      obtain ⟨_, behind, follows, shorter⟩ := stored_chain_from rest again
      have same := stored_chain_unique whole follows
      rw [← same, List.length_cons] at shorter
      omega

theorem stored_chain_short {first : Nat} {clusters : List Nat}
    (chain : StoredChain disk fs first clusters) : clusters.length < 2 ^ 28 := by
  have inside : clusters ⊆ List.range fatEoc := fun _ member =>
    List.mem_range.mpr (stored_chain_from chain member).1
  have fewer := (List.subperm_of_subset (stored_chain_nodup chain) inside).length_le
  rw [List.length_range] at fewer
  exact Nat.lt_of_le_of_lt fewer (by decide)

end Chains

/-- An address that no byte of a range wraps onto. -/
def Outside (address start count : Nat) : Prop := ∀ i, i < count → u32 address ≠ u32 (start + i)

/-- The places a caller's output may not share with the driver. -/
structure OffBuffers (sector buf out count : Nat) : Prop where
  offSector : Disjoint out count sector 512
  offBuf : Disjoint out count buf 4096

theorem off_buffers_part {sector buf out count : Nat} (off : OffBuffers sector buf out count)
    (start part : Nat) (inside : start + part ≤ count) :
    OffBuffers sector buf (out + start) part := by
  constructor
  · intro i j iBound jBound
    rw [Nat.add_assoc]
    exact off.offSector (start + i) j (by omega) jBound
  · intro i j iBound jBound
    rw [Nat.add_assoc]
    exact off.offBuf (start + i) j (by omega) jBound

section Copying

variable {disk : Nat → Byte} {fs : Fs} (sector buf : Nat)

theorem read_from_cons (diskRead : DiskRead) (fuel cl off dst remaining : Nat) (memory : Memory)
    (more : remaining ≠ 0) (data : cl < fatEoc) :
    readFrom diskRead fs sector buf (fuel + 1) cl off dst remaining memory =
      let loaded := (diskRead (clusterToLba fs cl) fs.sectorsPerCluster buf memory).2
      let left := u32 (fs.bytesPerCluster + (2 ^ 32 - off))
      let copy := if left > remaining then remaining else left
      let copied := memcpy loaded dst (buf + off) copy
      let next := fatNext diskRead fs sector cl copied
      readFrom diskRead fs sector buf fuel next.1 0 (dst + copy) (remaining - copy) next.2 :=
  if_pos ⟨more, data⟩

/-- What a finished copy leaves: the bytes asked for at the destination, and
every place outside the destination and the two buffers as it was. -/
structure Copied (memory final : Memory) (dst count : Nat) (bytes : List Byte) : Prop where
  arrived : readBytes final dst count = bytes
  frame : ∀ address, Outside address sector 512 → Outside address buf 4096 →
    Outside address dst count → readByte final address = readByte memory address

/-- Nothing to copy: the loop stops before its first round. -/
theorem read_from_zero (cl off dst : Nat) (memory : Memory) (content : List Byte)
    (rounds : Nat) :
    ∃ final, (∀ fuel, rounds < fuel →
        readFrom (deliverSectors disk) fs sector buf fuel cl off dst 0 memory = .ok (0, final)) ∧
      Copied sector buf memory final dst 0 ((content.drop off).take 0) := by
  refine ⟨memory, ?_, ⟨rfl, fun _ _ _ _ => rfl⟩⟩
  intro fuel more
  obtain ⟨fuel, rfl⟩ := Nat.exists_eq_succ_of_ne_zero (Nat.ne_zero_of_lt more)
  exact if_neg fun more => more.1 rfl

theorem copied_out {loaded : Memory} {bytes : List Byte} {size dst off copy : Nat}
    (held : readBytes loaded buf size = bytes) (small : size ≤ 4096) (part : off + copy ≤ size)
    (away : OffBuffers sector buf dst copy) :
    readBytes (memcpy loaded dst (buf + off) copy) dst copy = (bytes.drop off).take copy ∧
      ∀ address, Outside address dst copy →
        readByte (memcpy loaded dst (buf + off) copy) address = readByte loaded address := by
  have apart : Disjoint (buf + off) copy dst copy := by
    intro i j iBound jBound
    rw [Nat.add_assoc]
    exact (away.offBuf j (off + i) jBound (by omega)).symm
  have slice := read_bytes_slice loaded buf size off copy part
  rw [held] at slice
  rw [memcpy_disjoint _ dst (buf + off) copy (by omega) apart, ← slice]
  have length : (readBytes loaded (buf + off) copy).length = copy := read_bytes_length _ _ _
  constructor
  · have written := read_write_bytes_same loaded dst (readBytes loaded (buf + off) copy)
      (by rw [length]; omega)
    rwa [length] at written
  · intro address outside
    apply write_bytes_outside
    intro i inside
    rw [length] at inside
    exact outside i inside

/-- One round: `copy` bytes of the loaded cluster from the offset on. -/
theorem round_copied (disk : Nat → Byte) (small : SmallClusters fs) (cl lba off dst copy : Nat)
    (memory : Memory) (part : off + copy ≤ fs.sectorsPerCluster * 512)
    (away : OffBuffers sector buf dst copy) :
    Copied sector buf memory
      (fatNext (deliverSectors disk) fs sector cl
        (memcpy (deliverSectors disk lba fs.sectorsPerCluster buf memory).2 dst (buf + off) copy)).2
      dst copy
      (((window disk (lba * 512) (fs.sectorsPerCluster * 512)).drop off).take copy) := by
  have limit := small.small
  have loaded := deliver_read disk lba fs.sectorsPerCluster buf memory (by omega)
  obtain ⟨arrived, kept⟩ := copied_out sector buf loaded (by omega) part away
  constructor
  · rw [← arrived]
    apply read_bytes_congr
    intro i inside
    exact fat_next_outside disk fs sector cl _ _ fun j jBound => away.offSector i j inside jBound
  · intro address offSector offBuf offDst
    rw [fat_next_outside disk fs sector cl _ _ offSector, kept address offDst]
    apply deliver_outside
    intro i inside
    exact offBuf i (by omega)

theorem copied_append {memory middle final : Memory} {dst first second : Nat}
    {left right : List Byte} (fits : first + second ≤ 2 ^ 32)
    (away : OffBuffers sector buf dst (first + second))
    (before : Copied sector buf memory middle dst first left)
    (after : Copied sector buf middle final (dst + first) second right) :
    Copied sector buf memory final dst (first + second) (left ++ right) := by
  constructor
  · have kept : readBytes final dst first = readBytes middle dst first := by
      apply read_bytes_congr
      intro i inside
      apply after.frame
      · intro j jBound
        exact away.offSector i j (by omega) jBound
      · intro j jBound
        exact away.offBuf i j (by omega) jBound
      · intro j jBound
        unfold u32
        omega
    rw [read_bytes_append, kept, before.arrived, after.arrived]
  · intro address offSector offBuf offDst
    rw [after.frame address offSector offBuf, before.frame address offSector offBuf]
    · intro i inside
      exact offDst i (by omega)
    · intro i inside
      rw [Nat.add_assoc]
      exact offDst (first + i) (by omega)

theorem slice_append (head tail : List Byte) (off count : Nat) (inside : off ≤ head.length) :
    ((head ++ tail).drop off).take count =
      (head.drop off).take (min count (head.length - off)) ++
        (tail.drop 0).take (count - min count (head.length - off)) := by
  have size : (head.drop off).length = head.length - off := List.length_drop
  rw [List.drop_append_of_le_length inside, List.take_append, size, List.drop_zero]
  congr 1
  · by_cases short : count ≤ head.length - off
    · rw [Nat.min_eq_left short]
    · rw [Nat.min_eq_right (by omega), List.take_of_length_le (by omega),
        List.take_of_length_le (by omega)]
  · congr 1
    omega

theorem fat_next_stored (cluster : Nat) (below : cluster < fatEoc) (noWrap : NoWrap fs cluster)
    (memory : Memory) :
    (fatNext (deliverSectors disk) fs sector cluster memory).1 = storedLink disk fs cluster := by
  rw [fat_next_delivered]
  exact disk_link_stored cluster below noWrap

theorem round_count (small : SmallClusters fs) {off remaining : Nat}
    (inside : off < fs.sectorsPerCluster * 512) :
    (if u32 (fs.bytesPerCluster + (2 ^ 32 - off)) > remaining then remaining
      else u32 (fs.bytesPerCluster + (2 ^ 32 - off))) =
      min remaining (fs.sectorsPerCluster * 512 - off) := by
  have limit := small.small
  have left : u32 (fs.bytesPerCluster + (2 ^ 32 - off)) = fs.sectorsPerCluster * 512 - off := by
    rw [small.bytes]
    unfold u32
    omega
  rw [left]
  split_ifs <;> omega

/-- The loop along a chain: it ends after at most one round for each cluster
and one more, with everything that remained copied. -/
theorem read_from_chain (small : SmallClusters fs) (clusters : List Nat)
    (cl off dst remaining : Nat) (memory : Memory) (chain : StoredChain disk fs cl clusters)
    (inside : off < fs.sectorsPerCluster * 512)
    (enough : remaining = 0 ∨
      off + remaining ≤ clusters.length * (fs.sectorsPerCluster * 512))
    (word : remaining < 2 ^ 32) (away : OffBuffers sector buf dst remaining) :
    ∃ final, (∀ fuel, clusters.length < fuel →
        readFrom (deliverSectors disk) fs sector buf fuel cl off dst remaining memory =
          .ok (0, final)) ∧
      Copied sector buf memory final dst remaining
        (((chainContent disk fs clusters).drop off).take remaining) := by
  induction clusters generalizing cl off dst remaining memory with
  | nil =>
      have done : remaining = 0 := by
        rw [List.length_nil, Nat.zero_mul] at enough
        omega
      subst done
      exact read_from_zero sector buf cl off dst memory _ 0
  | cons cluster clusters ih =>
      by_cases done : remaining = 0
      · subst done
        exact read_from_zero sector buf cl off dst memory _ _
      · obtain ⟨rfl, data, below, noWrap, rest⟩ := chain
        have total := enough.resolve_left done
        rw [List.length_cons, Nat.succ_mul] at total
        have positive := small.positive
        have limit := small.small
        have parts : min remaining (fs.sectorsPerCluster * 512 - off) +
            (remaining - min remaining (fs.sectorsPerCluster * 512 - off)) = remaining := by
          omega
        have round := round_copied sector buf disk small cl (clusterToLba fs cl) off dst
          (min remaining (fs.sectorsPerCluster * 512 - off)) memory (by omega)
          (off_buffers_part away 0 _ (by omega))
        have cluster : window disk (clusterToLba fs cl * 512) (fs.sectorsPerCluster * 512) =
            storedCluster disk fs cl := cluster_bytes_stored positive cl data below noWrap
        rw [cluster] at round
        obtain ⟨final, runs, copied⟩ := ih (storedLink disk fs cl) 0
          (dst + min remaining (fs.sectorsPerCluster * 512 - off))
          (remaining - min remaining (fs.sectorsPerCluster * 512 - off)) _ rest (by omega)
          (by omega) (by omega) (off_buffers_part away _ _ (by omega))
        refine ⟨final, ?_, ?_⟩
        · intro fuel more
          obtain ⟨fuel, rfl⟩ := Nat.exists_eq_succ_of_ne_zero (Nat.ne_zero_of_lt more)
          rw [read_from_cons sector buf _ fuel cl off dst remaining memory done below]
          dsimp only
          rw [round_count small inside, fat_next_stored sector cl below noWrap]
          rw [List.length_cons] at more
          exact runs fuel (by omega)
        · have joined := copied_append sector buf (by omega) (by rwa [parts]) round copied
          have slice := slice_append (storedCluster disk fs cl) (chainContent disk fs clusters) off
            remaining (by rw [stored_cluster_length]; omega)
          rw [stored_cluster_length] at slice
          rw [parts] at joined
          rw [chain_content_cons, slice]
          exact joined

/-- Walking over whole clusters follows the chain and writes the sector buffer only. -/
theorem skip_clusters_chain (skip cl : Nat) (clusters : List Nat) (memory : Memory)
    (chain : StoredChain disk fs cl clusters) (inside : skip ≤ clusters.length) :
    StoredChain disk fs (skipClusters (deliverSectors disk) fs sector skip cl memory).1
        (clusters.drop skip) ∧
      ∀ address, Outside address sector 512 →
        readByte (skipClusters (deliverSectors disk) fs sector skip cl memory).2 address =
          readByte memory address := by
  induction skip generalizing cl clusters memory with
  | zero => exact ⟨chain, fun _ _ => rfl⟩
  | succ skip ih =>
      cases clusters with
      | nil =>
          rw [List.length_nil] at inside
          omega
      | cons cluster clusters =>
          obtain ⟨rfl, _, below, noWrap, rest⟩ := chain
          rw [List.length_cons] at inside
          rw [← fat_next_stored sector cl below noWrap memory] at rest
          obtain ⟨later, frame⟩ := ih _ clusters
            (fatNext (deliverSectors disk) fs sector cl memory).2 rest (by omega)
          refine ⟨later, ?_⟩
          intro address outside
          exact (frame address outside).trans
            (fat_next_outside disk fs sector cl address memory outside)

theorem offset_place {whole offset size count : Nat} (positive : 0 < whole) (below : offset < size)
    (holds : size ≤ count * whole) :
    offset / whole < count ∧ offset % whole < whole ∧
      offset % whole + (size - offset) ≤ (count - offset / whole) * whole := by
  have place := Nat.div_add_mod' offset whole
  have rest := Nat.sub_mul count (offset / whole) whole
  refine ⟨?_, Nat.mod_lt _ positive, ?_⟩
  · rw [Nat.div_lt_iff_lt_mul positive]
    omega
  · omega

theorem size_cut {offset size fileSize : Nat} (word : offset + size < 2 ^ 32)
    (before : offset < fileSize) :
    (if u32 (offset + size) > fileSize then fileSize - offset else size) =
      min size (fileSize - offset) := by
  have same : u32 (offset + size) = offset + size := Nat.mod_eq_of_lt word
  rw [same]
  split_ifs <;> omega

theorem read_copies (mounted : Mounted disk fs) (positive : 1 ≤ fs.sectorsPerCluster)
    (small : fs.sectorsPerCluster ≤ 8) (file : File) (clusters : List Nat)
    (chain : StoredChain disk fs file.firstCluster clusters)
    (holds : file.size ≤ clusters.length * fs.bytesPerCluster) (offset size out : Nat)
    (word : offset + size < 2 ^ 32) (memory : Memory) (away : OffBuffers sector buf out size) :
    let r := if offset ≥ file.size then 0 else min size (file.size - offset)
    ∃ needed final,
      (∀ fuel, needed ≤ fuel →
        fat32Read (deliverSectors disk) fs sector buf fuel file offset size out memory =
          .ok (r, final)) ∧
      Copied sector buf memory final out r
        (((chainContent disk fs clusters).drop offset).take r) := by
  have geometry := mounted_small_clusters mounted positive small
  intro r
  by_cases beyond : offset ≥ file.size
  · have nothing : r = 0 := if_pos beyond
    rw [nothing]
    refine ⟨0, memory, ?_, rfl, fun _ _ _ _ => rfl⟩
    intro fuel _
    exact if_pos beyond
  · have cut : r = min size (file.size - offset) := if_neg beyond
    have bytes := geometry.bytes
    have nonzero : ¬ fs.bytesPerCluster = 0 := by omega
    rw [bytes] at holds
    obtain ⟨skipInside, column, behind⟩ :=
      offset_place (show 0 < fs.sectorsPerCluster * 512 by omega) (Nat.lt_of_not_le beyond) holds
    rw [← List.length_drop] at behind
    obtain ⟨later, frame⟩ := skip_clusters_chain sector
      (offset / (fs.sectorsPerCluster * 512)) file.firstCluster clusters memory chain
      (Nat.le_of_lt skipInside)
    obtain ⟨final, runs, copied⟩ := read_from_chain sector buf geometry _ _
      (offset % (fs.sectorsPerCluster * 512)) out r
      (skipClusters (deliverSectors disk) fs sector (offset / (fs.sectorsPerCluster * 512))
        file.firstCluster memory).2 later column (Or.inr (by omega)) (by omega)
      (off_buffers_part away 0 r (by omega))
    have slice := chain_content_drop disk fs clusters (offset / (fs.sectorsPerCluster * 512))
      (offset % (fs.sectorsPerCluster * 512))
    rw [Nat.div_add_mod'] at slice
    refine ⟨clusters.length + 1, final, ?_, ?_, ?_⟩
    · intro fuel enough
      have rounds : (clusters.drop (offset / (fs.sectorsPerCluster * 512))).length < fuel := by
        rw [List.length_drop]
        exact Nat.lt_of_le_of_lt (Nat.sub_le _ _) enough
      unfold fat32Read
      rw [if_neg beyond]
      dsimp only
      rw [size_cut word (Nat.lt_of_not_le beyond), ← cut, if_neg nonzero, bytes, runs fuel rounds]
      simp only [Except.map, Nat.sub_zero]
    · rw [slice]
      exact copied.arrived
    · intro address offSector offBuf offOut
      rw [copied.frame address offSector offBuf offOut, frame address offSector]

theorem copied_past {memory final : Memory} {out size r : Nat} {bytes : List Byte}
    (away : OffBuffers sector buf out size) (word : size < 2 ^ 32)
    (copied : Copied sector buf memory final out r bytes) :
    ∀ i, r ≤ i → i < size → readByte final (out + i) = readByte memory (out + i) := by
  intro i behind inside
  apply copied.frame
  · intro j bound
    exact away.offSector i j inside bound
  · intro j bound
    exact away.offBuf i j inside bound
  · intro j bound
    unfold u32
    omega

/-- A read returns the length of the slice the file has there, puts that slice
of the chain's bytes at the start of the output and writes nothing behind it. -/
theorem fat32_read_slice (mounted : Mounted disk fs) (positive : 1 ≤ fs.sectorsPerCluster)
    (small : fs.sectorsPerCluster ≤ 8) (file : File) (clusters : List Nat)
    (chain : StoredChain disk fs file.firstCluster clusters)
    (holds : file.size ≤ clusters.length * fs.bytesPerCluster) (offset size out : Nat)
    (word : offset + size < 2 ^ 32) (memory : Memory) (away : OffBuffers sector buf out size) :
    let r := if offset ≥ file.size then 0 else min size (file.size - offset)
    ∃ needed final,
      (∀ fuel, needed ≤ fuel →
        fat32Read (deliverSectors disk) fs sector buf fuel file offset size out memory =
          .ok (r, final)) ∧
      Copied sector buf memory final out r
        (((chainContent disk fs clusters).drop offset).take r) ∧
      ∀ i, r ≤ i → i < size → readByte final (out + i) = readByte memory (out + i) := by
  obtain ⟨needed, final, runs, copied⟩ := read_copies sector buf mounted positive small file
    clusters chain holds offset size out word memory away
  exact ⟨needed, final, runs, copied, copied_past sector buf away (by omega) copied⟩

end Copying

/-- One data cluster of one sector behind a boot sector and a table. -/
def smallDisk : Nat → Byte := fun i =>
  (([(12, 2), (13, 1), (14, 1), (16, 1), (36, 1), (44, 2), (520, 0xF8), (521, 0xFF), (522, 0xFF),
    (523, 0x0F), (1024, 72), (1025, 101), (1026, 108), (1027, 108), (1028, 111)] :
      List (Nat × Byte)).lookup i).getD 0

def smallFs : Fs := mountedFs 0 (diskBpb smallDisk 0)

theorem small_mounted : Mounted smallDisk smallFs :=
  mount_delivered smallDisk 0x500000 0 (fun _ => 0) (by decide) (by decide)

theorem small_chain : StoredChain smallDisk smallFs 2 [2] := by
  refine ⟨rfl, by decide, by decide, ⟨by decide, by decide⟩, ?_⟩
  change fatEoc ≤ storedLink smallDisk smallFs 2
  decide

/-- Two linked data clusters of one sector: sixteen records that take up the
first, one more in the second. -/
def chainDisk : Nat → Byte := fun i =>
  if 1024 ≤ i ∧ i < 1536 then 0x41
  else (([(12, 2), (13, 1), (14, 1), (16, 1), (36, 1), (44, 2), (520, 3), (524, 0xF8),
    (525, 0xFF), (526, 0xFF), (527, 0x0F), (1536, 72), (1537, 101), (1538, 108), (1539, 108),
    (1540, 111)] : List (Nat × Byte)).lookup i).getD 0

def chainFs : Fs := mountedFs 0 (diskBpb chainDisk 0)

theorem chain_mounted : Mounted chainDisk chainFs :=
  mount_delivered chainDisk 0x500000 0 (fun _ => 0) (by decide) (by decide)

theorem chain_stored : StoredChain chainDisk chainFs 2 [2, 3] := by
  refine ⟨rfl, by decide, by decide, ⟨by decide, by decide⟩, ?_⟩
  refine ⟨by decide, by decide, by decide, ⟨by decide, by decide⟩, ?_⟩
  change fatEoc ≤ storedLink chainDisk chainFs 3
  decide

/-- Two hundred bytes asked for where the file has a hundred, twelve of them in
the first cluster. -/
theorem fat32_read_slice_small :
    ∃ needed final,
      (∀ fuel, needed ≤ fuel →
        fat32Read (deliverSectors chainDisk) chainFs 0x300000 0x400000 fuel ⟨2, 600, 0, false⟩ 500
          200 0x600000 (fun _ => 0) = .ok (100, final)) ∧
      Copied 0x300000 0x400000 (fun _ => 0) final 0x600000 100
        (((chainContent chainDisk chainFs [2, 3]).drop 500).take 100) ∧
      ∀ i, 100 ≤ i → i < 200 →
        readByte final (0x600000 + i) = readByte (fun _ => 0) (0x600000 + i) :=
  fat32_read_slice 0x300000 0x400000 chain_mounted (by decide) (by decide) ⟨2, 600, 0, false⟩
    [2, 3] chain_stored (by decide) 500 200 0x600000 (by decide) (fun _ => 0)
    ⟨disjoint_of_separate (by decide) (by decide) (by decide),
      disjoint_of_separate (by decide) (by decide) (by decide)⟩

end LumenOS.Fat32Slice
