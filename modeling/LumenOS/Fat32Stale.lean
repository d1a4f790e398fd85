import LumenOS.Fat32Slice
import LumenOS.Fat32Wiring
import LumenOS.RecordTable

/-!
# What the FAT32 reader answers as it is wired

Every request reaches the memory disk with the address of a buffer as its
count and is refused, and no caller looks at the code. The answers then come
from memory as it is: `fat32_find` scans what its buffer held before, once or
for ever, since the table's sector buffer stays zero and leads every cluster to
cluster zero; `fat32_read` fills the output with its buffer again and again and
returns the full length.
-/

namespace LumenOS.Fat32Stale

open LumenOS.ByteMemory LumenOS.StringModel LumenOS.Fat32Model LumenOS.Fat32Slice
open LumenOS.Fat32Delivery LumenOS.Fat32Wiring LumenOS.RecordTable

set_option autoImplicit false

structure Places where
  bpb : Nat
  sector : Nat
  findBuf : Nat
  readBuf : Nat

/-- The static sector buffer as the kernel starts, and as a transfer that is
never made leaves it. -/
def SectorZero (sector : Nat) (memory : Memory) : Prop :=
  ∀ i, i < 512 → readByte memory (sector + i) = 0

theorem sector_zero_kept {sector dst count : Nat} {before after : Memory}
    (zero : SectorZero sector before) (changed : ChangesWithin before after dst count)
    (apart : Disjoint dst count sector 512) : SectorZero sector after := by
  intro i bound
  rw [changed (sector + i) fun j jBound same => apart j i jBound bound same.symm]
  exact zero i bound

/-- The sectors asked for on behalf of a cluster: added to the address of the
buffer, which arrives as the count, they stay within a word. -/
structure InWords (fs : Fs) (sector buf cluster : Nat) : Prop where
  data : clusterToLba fs cluster + buf < 2 ^ 32
  table : u32 (fs.fatLba + u32 (cluster * 4) / 512) + sector < 2 ^ 32

section Refused

variable {ctx : MemdiskCtx} (small : ctx.numSectors < kernelStart)

include small

/-- An address of the kernel's is more than any count of sectors. -/
theorem kernel_address_refused {lba address : Nat} (count : Nat) (inKernel : kernelStart ≤ address)
    (inWord : lba + address < 2 ^ 32) (memory : Memory) :
    memdiskRead ctx lba count address memory = (-1, memory) := by
  apply memdisk_refuses_address
  have whole : u32 (lba + address) = lba + address := Nat.mod_eq_of_lt inWord
  omega

variable {fs : Fs} {sector buf : Nat} (sectorInKernel : kernelStart ≤ sector)
  (bufInKernel : kernelStart ≤ buf)

section Next

include sectorInKernel

theorem fat_next_stale {cluster : Nat} (inWords : InWords fs sector buf cluster) {memory : Memory}
    (zero : SectorZero sector memory) :
    fatNext (memdiskRead ctx) fs sector cluster memory = (0, memory) := by
  have offset := link_offset cluster
  have cleared : readBytes memory (sector + u32 (cluster * 4) % 512) 4 =
      readBytes (fun _ => 0) 0 4 := by
    apply read_bytes_congr
    intro i bound
    rw [Nat.add_assoc]
    exact zero _ (by omega)
  simp only [fatNext, kernel_address_refused small 1 sectorInKernel inWords.table memory, load32,
    cleared]
  rfl

theorem skip_clusters_stale (skip cluster : Nat) (inWords : InWords fs sector buf cluster)
    (zeroInWords : InWords fs sector buf 0) {memory : Memory} (zero : SectorZero sector memory) :
    skipClusters (memdiskRead ctx) fs sector skip cluster memory =
      (if skip = 0 then cluster else 0, memory) := by
  induction skip generalizing cluster with
  | zero => rfl
  | succ skip ih =>
      rw [skipClusters, fat_next_stale small sectorInKernel inWords zero]
      dsimp only
      rw [ih 0 zeroInWords, if_neg (Nat.succ_ne_zero skip)]
      split_ifs <;> rfl

end Next

include sectorInKernel bufInKernel

theorem find_from_stale (name83 : List Byte) (fuel : Nat) {cluster : Nat}
    (below : cluster < fatEoc) (inWords : InWords fs sector buf cluster) {memory : Memory}
    (zero : SectorZero sector memory) :
    findFrom (memdiskRead ctx) fs sector buf name83 (fuel + 1) cluster memory =
      match scanEntries memory buf name83 (fs.bytesPerCluster / 32) 0 with
      | .endOfDirectory => .ok (-1, none, memory)
      | .found file => .ok (0, some file, memory)
      | .exhausted => findFrom (memdiskRead ctx) fs sector buf name83 fuel 0 memory := by
  have refused := kernel_address_refused small fs.sectorsPerCluster bufInKernel inWords.data memory
  rw [findFrom, if_pos below, refused]
  dsimp only
  cases scanEntries memory buf name83 (fs.bytesPerCluster / 32) 0 with
  | endOfDirectory => rfl
  | found file => rfl
  | exhausted =>
      dsimp only
      rw [fat_next_stale small sectorInKernel inWords zero]

/-- A buffer without an answer is scanned again and again. -/
theorem find_from_runs_on (name83 : List Byte) (fuel : Nat) {cluster : Nat}
    (below : cluster < fatEoc) (inWords : InWords fs sector buf cluster)
    (zeroInWords : InWords fs sector buf 0) {memory : Memory} (zero : SectorZero sector memory)
    (exhausted : scanEntries memory buf name83 (fs.bytesPerCluster / 32) 0 = .exhausted) :
    findFrom (memdiskRead ctx) fs sector buf name83 fuel cluster memory = .error .stillRunning := by
  induction fuel generalizing cluster with
  | zero => rfl
  | succ fuel ih =>
      rw [find_from_stale small sectorInKernel bufInKernel name83 fuel below inWords zero,
        exhausted]
      exact ih (by decide) zeroInWords

end Refused

section Reading

variable {ctx : MemdiskCtx} (small : ctx.numSectors < kernelStart) {fs : Fs} {sector buf : Nat}
  (sectorInKernel : kernelStart ≤ sector) (bufInKernel : kernelStart ≤ buf)
  (zeroInWords : InWords fs sector buf 0)

/-- What one round leaves: a stretch of the buffer at the output. -/
theorem stale_copied {memory : Memory} {off dst copy size : Nat} (part : off + copy ≤ size)
    (word : copy ≤ 2 ^ 32) (apart : Disjoint dst copy buf size) :
    memcpy memory dst (buf + off) copy =
      writeBytes memory dst (readBytes memory (buf + off) copy) :=
  memcpy_disjoint memory dst (buf + off) copy word
    (disjoint_symm (disjoint_part apart part))

/-- The output is the buffer over and over, from an offset on. -/
structure Repeats (fs : Fs) (buf : Nat) (memory final : Memory) (off dst count : Nat) : Prop where
  bytes : ∀ i, i < count →
    readByte final (dst + i) = readByte memory (buf + (off + i) % fs.bytesPerCluster)
  frame : ChangesWithin memory final dst count

theorem repeats_nothing (memory : Memory) (off dst : Nat) :
    Repeats fs buf memory memory off dst 0 :=
  ⟨fun _ bound => absurd bound (Nat.not_lt_zero _), changes_none memory dst 0⟩

theorem repeats_stretch {memory : Memory} {off dst copy : Nat}
    (within : off + copy ≤ fs.bytesPerCluster) (fits : fs.bytesPerCluster < 2 ^ 32) :
    Repeats fs buf memory (writeBytes memory dst (readBytes memory (buf + off) copy))
      off dst copy := by
  have length : (readBytes memory (buf + off) copy).length = copy := read_bytes_length _ _ _
  have changed := changes_written memory dst (readBytes memory (buf + off) copy)
  rw [length] at changed
  refine ⟨?_, changed⟩
  intro i bound
  have inside := write_bytes_inside memory dst (readBytes memory (buf + off) copy) i
    (by omega) (by omega)
  have read := read_bytes_get memory (buf + off) copy i bound
  rw [List.getElem?_eq_getElem (by omega)] at read
  rw [inside, Option.some.inj read, Nat.mod_eq_of_lt (by omega), Nat.add_assoc]

theorem repeats_ended {memory middle final : Memory} {off dst count other : Nat}
    (before : Repeats fs buf memory middle off dst count)
    (after : Repeats fs buf middle final 0 other 0) :
    Repeats fs buf memory final off dst count := by
  have same : ∀ address, readByte final address = readByte middle address :=
    fun address => after.frame address fun j impossible => absurd impossible (Nat.not_lt_zero j)
  constructor
  · intro i bound
    rw [same]
    exact before.bytes i bound
  · intro address outside
    rw [same]
    exact before.frame address outside

theorem repeats_append {memory middle final : Memory} {off dst first rest : Nat}
    (positive : 0 < fs.bytesPerCluster) (passes : off + first = fs.bytesPerCluster)
    (word : first + rest ≤ 2 ^ 32)
    (apart : Disjoint dst first buf fs.bytesPerCluster)
    (before : Repeats fs buf memory middle off dst first)
    (after : Repeats fs buf middle final 0 (dst + first) rest) :
    Repeats fs buf memory final off dst (first + rest) := by
  constructor
  · intro i bound
    by_cases early : i < first
    · rw [after.frame (dst + i), before.bytes i early]
      intro j jBound
      unfold u32
      omega
    · obtain ⟨later, rfl⟩ := Nat.exists_eq_add_of_le (Nat.le_of_not_lt early)
      have wrapped : (off + (first + later)) % fs.bytesPerCluster =
          later % fs.bytesPerCluster := by
        rw [← Nat.add_assoc, passes, Nat.add_mod_left]
      have inside : later % fs.bytesPerCluster < fs.bytesPerCluster :=
        Nat.mod_lt _ positive
      rw [wrapped, ← Nat.add_assoc, after.bytes later (by omega), Nat.zero_add]
      exact before.frame _ fun j jBound same => apart j _ jBound inside same.symm
  · apply changes_trans
    · exact changes_wider before.frame (Nat.le_refl dst) (by omega)
    · exact changes_wider after.frame (by omega) (by omega)

include small sectorInKernel bufInKernel zeroInWords

/-- The loop never notices that nothing is delivered. -/
theorem read_from_stale (fits : fs.bytesPerCluster < 2 ^ 32) (fuel : Nat) {cluster off dst : Nat}
    {remaining : Nat} {memory : Memory} (below : cluster < fatEoc)
    (inWords : InWords fs sector buf cluster) (column : off < fs.bytesPerCluster)
    (word : remaining < 2 ^ 32) (enough : remaining < fuel) (zero : SectorZero sector memory)
    (offBuf : Disjoint dst remaining buf fs.bytesPerCluster)
    (offSector : Disjoint dst remaining sector 512) :
    ∃ final, readFrom (memdiskRead ctx) fs sector buf fuel cluster off dst remaining memory =
        .ok (0, final) ∧
      Repeats fs buf memory final off dst remaining := by
  obtain ⟨fuel, rfl⟩ := Nat.exists_eq_succ_of_ne_zero (Nat.ne_zero_of_lt enough)
  induction fuel generalizing cluster off dst remaining memory with
  | zero =>
      have done : remaining = 0 := by omega
      rw [done]
      exact ⟨memory, if_neg fun more => more.1 rfl, repeats_nothing memory off dst⟩
  | succ fuel ih =>
      by_cases done : remaining = 0
      · rw [done]
        exact ⟨memory, if_neg fun more => more.1 rfl, repeats_nothing memory off dst⟩
      · have refused := kernel_address_refused small fs.sectorsPerCluster bufInKernel inWords.data
          memory
        have left : u32 (fs.bytesPerCluster + (2 ^ 32 - off)) = fs.bytesPerCluster - off := by
          unfold u32
          omega
        rw [read_from_cons sector buf _ _ _ _ _ _ _ done below, refused]
        dsimp only
        rw [left]
        generalize size : (if fs.bytesPerCluster - off > remaining then remaining
          else fs.bytesPerCluster - off) = copy
        have part : off + copy ≤ fs.bytesPerCluster ∧ copy ≤ remaining ∧ 0 < copy ∧
            (copy = remaining ∨ off + copy = fs.bytesPerCluster) := by
          split_ifs at size <;> omega
        obtain ⟨within, share, moved, stops⟩ := part
        have first : Disjoint dst copy buf fs.bytesPerCluster :=
          fun i j iBound => offBuf i j (by omega)
        have now : Repeats fs buf memory
            (writeBytes memory dst (readBytes memory (buf + off) copy)) off dst copy :=
          repeats_stretch within fits
        have kept := sector_zero_kept zero now.frame fun i j iBound => offSector i j (by omega)
        rw [stale_copied within (by omega) first, fat_next_stale small sectorInKernel inWords kept]
        obtain ⟨final, runs, repeats⟩ := @ih 0 0 (dst + copy) (remaining - copy) _ (by decide)
          zeroInWords (by omega) (by omega) kept
          (by intro i j iBound; rw [Nat.add_assoc]; exact offBuf (copy + i) j (by omega))
          (by intro i j iBound; rw [Nat.add_assoc]; exact offSector (copy + i) j (by omega))
          (by omega)
        refine ⟨final, runs, ?_⟩
        cases stops with
        | inl last =>
            rw [← last, Nat.sub_self] at repeats
            rw [← last]
            exact repeats_ended now repeats
        | inr passes =>
            have sum : remaining = copy + (remaining - copy) := by omega
            rw [sum]
            exact repeats_append (by omega) passes (by omega) first now repeats

end Reading

section Answers

/-- What a scan of the buffer decides, where it decides anything. -/
def staleAnswer (memory : Memory) (buf : Nat) (name83 : List Byte) (count : Nat) :
    Option (Int × Option File) :=
  match scanEntries memory buf name83 count 0 with
  | .endOfDirectory => some (-1, none)
  | .found file => some (0, some file)
  | .exhausted => none

/-- A find answers from what its buffer held, or never. -/
def FindsStale (ctx : MemdiskCtx) (fs : Fs) (places : Places) (dir : File) (name83 : List Byte)
    (memory : Memory) : Prop :=
  match staleAnswer memory places.findBuf name83 (fs.bytesPerCluster / 32) with
  | some (code, out) => ∀ fuel, 1 ≤ fuel →
      fat32Find (memdiskRead ctx) fs places.sector places.findBuf fuel dir name83 memory =
        .ok (code, out, memory)
  | none => ∀ fuel,
      fat32Find (memdiskRead ctx) fs places.sector places.findBuf fuel dir name83 memory =
        .error .stillRunning

/-- A read returns the length the file has there and the buffer's bytes. -/
def ReadsStale (ctx : MemdiskCtx) (fs : Fs) (places : Places) (file : File)
    (offset size out : Nat) (memory : Memory) : Prop :=
  ∀ fuel, size < fuel → ∃ final,
    fat32Read (memdiskRead ctx) fs places.sector places.readBuf fuel file offset size out memory =
      .ok (min size (file.size - offset), final) ∧
    Repeats fs places.readBuf memory final offset out (min size (file.size - offset))

variable {ctx : MemdiskCtx} (small : ctx.numSectors < kernelStart) {places : Places}
  (sectorInKernel : kernelStart ≤ places.sector) {memory : Memory}
  (zero : SectorZero places.sector memory)

include small sectorInKernel zero

theorem finds_stale (findInKernel : kernelStart ≤ places.findBuf) (fs : Fs) (dir : File)
    (name83 : List Byte) (below : dir.firstCluster < fatEoc)
    (inWords : InWords fs places.sector places.findBuf dir.firstCluster)
    (zeroInWords : InWords fs places.sector places.findBuf 0) :
    FindsStale ctx fs places dir name83 memory := by
  unfold FindsStale staleAnswer
  have step := fun fuel => find_from_stale small sectorInKernel findInKernel name83 fuel below
    inWords zero
  cases scanned : scanEntries memory places.findBuf name83 (fs.bytesPerCluster / 32) 0 with
  | endOfDirectory =>
      intro fuel once
      obtain ⟨fuel, rfl⟩ := Nat.exists_eq_succ_of_ne_zero (Nat.ne_zero_of_lt once)
      unfold fat32Find
      rw [step, scanned]
  | found file =>
      intro fuel once
      obtain ⟨fuel, rfl⟩ := Nat.exists_eq_succ_of_ne_zero (Nat.ne_zero_of_lt once)
      unfold fat32Find
      rw [step, scanned]
  | exhausted =>
      intro fuel
      exact find_from_runs_on small sectorInKernel findInKernel name83 fuel below inWords
        zeroInWords zero scanned

theorem reads_stale (readInKernel : kernelStart ≤ places.readBuf) (fs : Fs) (file : File)
    (offset size out : Nat) (below : file.firstCluster < fatEoc)
    (inWords : InWords fs places.sector places.readBuf file.firstCluster)
    (zeroInWords : InWords fs places.sector places.readBuf 0)
    (cluster : 0 < fs.bytesPerCluster ∧ fs.bytesPerCluster < 2 ^ 32)
    (before : offset < file.size) (word : offset + size < 2 ^ 32)
    (offBuf : Disjoint out size places.readBuf fs.bytesPerCluster)
    (offSector : Disjoint out size places.sector 512) :
    ReadsStale ctx fs places file offset size out memory := by
  intro fuel enough
  have skipped := skip_clusters_stale small sectorInKernel (offset / fs.bytesPerCluster)
    file.firstCluster inWords zeroInWords zero
  generalize start : (if offset / fs.bytesPerCluster = 0 then file.firstCluster else 0) = first
    at skipped
  have started : first < fatEoc ∧ InWords fs places.sector places.readBuf first := by
    rw [← start]
    split_ifs
    · exact ⟨below, inWords⟩
    · exact ⟨by decide, zeroInWords⟩
  have share : min size (file.size - offset) ≤ size := Nat.min_le_left _ _
  obtain ⟨final, runs, repeats⟩ := read_from_stale small sectorInKernel readInKernel zeroInWords
    cluster.2 fuel started.1 started.2 (Nat.mod_lt offset cluster.1)
    (show min size (file.size - offset) < 2 ^ 32 by omega) (by omega) zero
    (fun i j iBound => offBuf i j (by omega)) (fun i j iBound => offSector i j (by omega))
  refine ⟨final, ?_, ?_, repeats.frame⟩
  · unfold fat32Read
    rw [if_neg (Nat.not_le_of_lt before)]
    dsimp only
    rw [size_cut word before, if_neg (Nat.ne_of_gt cluster.1), skipped, runs]
    simp only [Except.map, Nat.sub_zero]
  · intro i bound
    rw [repeats.bytes i bound, Nat.mod_add_mod]

end Answers

/-- The three calls on one memory: each answer is a function of the bytes its
own buffer held, whatever image is installed. -/
structure AnswersFromMemory (ctx : MemdiskCtx) (places : Places) (memory : Memory) : Prop where
  mount : fat32Mount (memdiskRead ctx) places.bpb 0 memory =
    if (bpbAt memory places.bpb).fatSize32 = 0 then (-1, none, memory)
    else if (bpbAt memory places.bpb).bytesPerSector ≠ 512 then (-1, none, memory)
    else (0, some (mountedFs 0 (bpbAt memory places.bpb)), memory)
  find : ∀ fs dir name83, dir.firstCluster < fatEoc →
    InWords fs places.sector places.findBuf dir.firstCluster →
    InWords fs places.sector places.findBuf 0 → FindsStale ctx fs places dir name83 memory
  read : ∀ fs file offset size out, file.firstCluster < fatEoc →
    InWords fs places.sector places.readBuf file.firstCluster →
    InWords fs places.sector places.readBuf 0 →
    0 < fs.bytesPerCluster ∧ fs.bytesPerCluster < 2 ^ 32 → offset < file.size →
    offset + size < 2 ^ 32 → Disjoint out size places.readBuf fs.bytesPerCluster →
    Disjoint out size places.sector 512 →
    ReadsStale ctx fs places file offset size out memory

structure Places.InKernel (places : Places) : Prop where
  bpb : kernelStart ≤ places.bpb ∧ places.bpb < 2 ^ 32
  sector : kernelStart ≤ places.sector
  findBuf : kernelStart ≤ places.findBuf
  readBuf : kernelStart ≤ places.readBuf

/-- For every image of less than a gibibyte and every memory. -/
theorem storage_answers_from_memory (ctx : MemdiskCtx) (small : ctx.numSectors < kernelStart)
    (places : Places) (inKernel : places.InKernel) (memory : Memory)
    (zero : SectorZero places.sector memory) : AnswersFromMemory ctx places memory := by
  constructor
  · apply mount_reads_stack
    rw [show u32 places.bpb = places.bpb from Nat.mod_eq_of_lt inKernel.bpb.2]
    exact Nat.lt_of_lt_of_le small inKernel.bpb.1
  · intro fs dir name83
    exact finds_stale small inKernel.sector zero inKernel.findBuf fs dir name83
  · intro fs file offset size out
    exact reads_stale small inKernel.sector zero inKernel.readBuf fs file offset size out

theorem storage_answers_from_memory_sample :
    AnswersFromMemory (fsUseMemdisk 0x1000 2048)
      ⟨0xFFFF0000, 0x200000, 0xFFFF2000, 0xFFFF4000⟩ (fun _ => 0) :=
  storage_answers_from_memory (fsUseMemdisk 0x1000 2048) (by decide)
    ⟨0xFFFF0000, 0x200000, 0xFFFF2000, 0xFFFF4000⟩
    ⟨by decide, by decide, by decide, by decide⟩ (fun _ => 0) fun _ _ => rfl

end LumenOS.Fat32Stale
