import LumenOS.Fat32Rounds

/-!
# How far a read reaches

The size of a read is cut by a sum of 32 bits, and only its second loop looks
for an end mark. The first half says for which arguments the cut holds, the
second which clusters and which words of the table a read then touches.
-/

namespace LumenOS.Fat32ReadBounds

open LumenOS.ByteMemory LumenOS.StringModel LumenOS.Fat32Model LumenOS.Fat32Delivery
open LumenOS.Fat32Slice LumenOS.Fat32Trace LumenOS.Fat32Rounds

set_option autoImplicit false

/-- `if (offset + size > file->size) size = file->size - offset;`. -/
def cutSize (file : File) (offset size : Nat) : Nat :=
  if u32 (offset + size) > file.size then file.size - offset else size

section Reads

variable (disk : Nat → Byte) (fs : Fs)

/-- The cluster of a file that a position falls in, whatever the links say. -/
def clusterAt (file : File) (index : Nat) : Nat := follow disk fs file.firstCluster index

def readRounds (file : File) (offset size : Nat) : List Round :=
  rounds disk fs (cutSize file offset size + 1)
    (clusterAt disk fs file (offset / fs.bytesPerCluster)) (offset % fs.bytesPerCluster)
    (cutSize file offset size)

variable {disk fs} (sector buf : Nat)

theorem fat32_read_delivered (geometry : SmallClusters fs) (file : File) (offset size out : Nat)
    (memory : Memory) (before : offset < file.size) :
    ∃ events final,
      (∀ fuel, cutSize file offset size + 1 ≤ fuel →
        fat32Read (deliverSectors disk) fs sector buf fuel file offset size out memory =
          .ok (counts (readRounds disk fs file offset size), final) ∧
        (fat32ReadLogged (deliverSectors disk) fs sector buf fuel file offset size out memory).1 =
          events) ∧
      links events = (List.range (offset / fs.bytesPerCluster)).map (clusterAt disk fs file) ++
        (readRounds disk fs file offset size).map Round.cluster ∧
      copies events = spread out (readRounds disk fs file offset size) ∧
      (cutSize file offset size < 2 ^ 32 →
        OffBuffers sector buf out (cutSize file offset size) →
        Copied sector buf memory final out (counts (readRounds disk fs file offset size))
          ((readRounds disk fs file offset size).flatMap (Round.bytes disk fs))) := by
  obtain ⟨skipped, noCopies, stopped, skipFrame⟩ := @skip_delivered disk fs sector
    (offset / fs.bytesPerCluster) file.firstCluster memory
  obtain ⟨events, final, runs, consulted, copied, moved⟩ := read_delivered sector buf geometry
    (cutSize file offset size + 1)
    (clusterAt disk fs file (offset / fs.bytesPerCluster)) (offset % fs.bytesPerCluster) out
    (cutSize file offset size)
    (skipClustersLogged (deliverSectors disk) fs sector (offset / fs.bytesPerCluster)
      file.firstCluster memory).2.2 (geometry.offset_inside offset) (Nat.lt_succ_self _)
  have bounded : counts (readRounds disk fs file offset size) ≤ cutSize file offset size :=
    counts_le _ _ _ _
  refine ⟨(skipClustersLogged (deliverSectors disk) fs sector (offset / fs.bytesPerCluster)
    file.firstCluster memory).1 ++ events, final, ?_, ?_, ?_, ?_⟩
  · intro fuel enough
    have logged : fat32ReadLogged (deliverSectors disk) fs sector buf fuel file offset size out
        memory = ((skipClustersLogged (deliverSectors disk) fs sector
          (offset / fs.bytesPerCluster) file.firstCluster memory).1 ++ events,
            .ok (counts (readRounds disk fs file offset size), final)) := by
      unfold fat32ReadLogged
      rw [if_neg (Nat.not_le.mpr before)]
      dsimp only
      rw [if_neg (Nat.ne_of_gt geometry.whole), stopped]
      have run := runs fuel enough
      unfold cutSize clusterAt at run
      rw [run]
      have rest : cutSize file offset size -
          (cutSize file offset size - counts (readRounds disk fs file offset size)) =
            counts (readRounds disk fs file offset size) := by omega
      exact congrArg (fun count => (_, Except.ok (count, final))) rest
    rw [← fat32_read_logged, logged]
    exact ⟨rfl, rfl⟩
  · rw [links_append, skipped, consulted]
    rfl
  · rw [copies_append, noCopies, copied]
    rfl
  · intro word away
    obtain ⟨arrived, frame⟩ := moved word away
    refine ⟨arrived, ?_⟩
    intro address offSector offBuf offOut
    rw [frame address offSector offBuf offOut, skipFrame address offSector]

theorem fat32_read_past_end {file : File} {offset : Nat} (past : ¬ offset < file.size)
    (size out : Nat) (memory : Memory) (fuel : Nat) :
    fat32Read (deliverSectors disk) fs sector buf fuel file offset size out memory =
        .ok (0, memory) ∧
      (fat32ReadLogged (deliverSectors disk) fs sector buf fuel file offset size out memory).1 =
        [] := by
  unfold fat32Read fat32ReadLogged
  rw [if_pos (Nat.le_of_not_lt past), if_pos (Nat.le_of_not_lt past)]
  exact ⟨rfl, rfl⟩

end Reads

def Consecutive : Nat → List (Nat × Nat × Nat) → Prop
  | _, [] => True
  | dst, copy :: later => copy.2.1 = dst ∧ Consecutive (dst + copy.2.2) later

def written (copies : List (Nat × Nat × Nat)) : Nat := (copies.map fun copy => copy.2.2).sum

theorem consecutive_spread (dst : Nat) (rounds : List Round) :
    Consecutive dst (spread dst rounds) := by
  induction rounds generalizing dst with
  | nil => trivial
  | cons round later ih => exact ⟨rfl, ih (dst + round.count)⟩

theorem written_spread (dst : Nat) (rounds : List Round) :
    written (spread dst rounds) = counts rounds := by
  induction rounds generalizing dst with
  | nil => rfl
  | cons round later ih =>
      rw [counts_cons, ← ih (dst + round.count)]
      rfl

/-- A read that stays within the file and the request. -/
structure WithinFile (file : File) (offset size out result : Nat) (events : List Event) :
    Prop where
  consecutive : Consecutive out (copies events)
  counted : result = written (copies events)
  bounded : written (copies events) ≤
    if offset < file.size then min size (file.size - offset) else 0

/-- The sum of offset and size wraps, and the links lead on behind the file's end. -/
def Overruns (disk : Nat → Byte) (fs : Fs) (file : File) (offset size : Nat) : Prop :=
  offset < file.size ∧ 2 ^ 32 ≤ offset + size ∧
    ∀ i, offset / fs.bytesPerCluster ≤ i → i ≤ file.size / fs.bytesPerCluster →
      clusterAt disk fs file i < fatEoc

section Bounds

variable {disk : Nat → Byte} {fs : Fs}

theorem cut_size_exact {file : File} {offset size : Nat} (before : offset < file.size)
    (word : offset + size < 2 ^ 32) :
    cutSize file offset size = min size (file.size - offset) := size_cut word before

/-- A sum that wraps is smaller than the offset, so nothing is cut. -/
theorem cut_size_wrapped {file : File} {offset size : Nat} (before : offset < file.size)
    (sizeWord : size < 2 ^ 32) (fileWord : file.size < 2 ^ 32) (wraps : 2 ^ 32 ≤ offset + size) :
    cutSize file offset size = size := by
  apply if_neg
  unfold u32
  omega

/-- The position behind the file's end, counted from the first cluster read. -/
theorem end_place (whole offset size : Nat) (positive : 0 < whole) (before : offset < size) :
    (offset % whole + (size - offset)) / whole = size / whole - offset / whole := by
  have place := Nat.div_add_mod' offset whole
  have sum : offset % whole + (size - offset) + offset / whole * whole = size := by omega
  have quotient := Nat.add_mul_div_right (offset % whole + (size - offset)) (offset / whole)
    positive
  rw [sum] at quotient
  rw [quotient, Nat.add_sub_cancel]

theorem read_overruns_iff (geometry : SmallClusters fs) (file : File) (offset size : Nat)
    (before : offset < file.size) (sizeWord : size < 2 ^ 32) (fileWord : file.size < 2 ^ 32) :
    min size (file.size - offset) < counts (readRounds disk fs file offset size) ↔
      Overruns disk fs file offset size := by
  by_cases wraps : 2 ^ 32 ≤ offset + size
  · have larger : min size (file.size - offset) = file.size - offset := by omega
    have order := Nat.div_le_div_right (c := fs.bytesPerCluster) (Nat.le_of_lt before)
    have more := @counts_more_iff disk fs geometry.positive (cutSize file offset size + 1)
      (clusterAt disk fs file (offset / fs.bytesPerCluster)) _ _ (geometry.offset_inside offset)
      (Nat.lt_succ_self _) (file.size - offset)
    rw [← geometry.bytes, end_place _ offset file.size geometry.whole before,
      cut_size_wrapped before sizeWord fileWord wraps] at more
    unfold clusterAt at more
    rw [below_from_iff, Nat.add_sub_cancel' order] at more
    unfold readRounds clusterAt
    rw [larger, cut_size_wrapped before sizeWord fileWord wraps, more]
    constructor
    · rintro ⟨_, below⟩
      exact ⟨before, wraps, below⟩
    · rintro ⟨_, _, below⟩
      exact ⟨by omega, below⟩
  · have fewer : counts (readRounds disk fs file offset size) ≤ cutSize file offset size :=
      counts_le _ _ _ _
    rw [cut_size_exact before (by omega)] at fewer
    constructor
    · intro more
      omega
    · intro overruns
      exact absurd overruns.2.1 wraps

/-- On every disk a read stays within the file and the request exactly when it
does not overrun. -/
theorem read_within_iff (geometry : SmallClusters fs) (sector buf : Nat) (file : File)
    (offset size out : Nat) (sizeWord : size < 2 ^ 32) (fileWord : file.size < 2 ^ 32)
    (memory : Memory) :
    ∃ needed result final events,
      (∀ fuel, needed ≤ fuel →
        fat32Read (deliverSectors disk) fs sector buf fuel file offset size out memory =
          .ok (result, final) ∧
        (fat32ReadLogged (deliverSectors disk) fs sector buf fuel file offset size out memory).1 =
          events) ∧
      (WithinFile file offset size out result events ↔ ¬ Overruns disk fs file offset size) := by
  by_cases before : offset < file.size
  · obtain ⟨events, final, runs, _, copied, _⟩ := @fat32_read_delivered disk fs sector buf geometry
      file offset size out memory before
    refine ⟨cutSize file offset size + 1, counts (readRounds disk fs file offset size), final,
      events, runs, ?_⟩
    · rw [← read_overruns_iff geometry file offset size before sizeWord fileWord, Nat.not_lt]
      constructor
      · intro within
        have bounded := within.bounded
        rwa [copied, written_spread, if_pos before] at bounded
      · intro bounded
        constructor
        · rw [copied]
          exact consecutive_spread out _
        · rw [copied, written_spread]
        · rwa [copied, written_spread, if_pos before]
  · refine ⟨0, 0, memory, [],
      fun fuel _ => fat32_read_past_end sector buf before size out memory fuel, ?_⟩
    constructor
    · intro _ overruns
      exact before overruns.1
    · intro _
      exact ⟨trivial, rfl, Nat.zero_le _⟩

end Bounds

/-- One byte past the start of a file of five, with a size that wraps the sum. -/
theorem read_overrun_small :
    ∃ needed result final events,
      (∀ fuel, needed ≤ fuel →
        fat32Read (deliverSectors smallDisk) smallFs 0x300000 0x400000 fuel ⟨2, 5, 0, false⟩ 1
          0xFFFFFFFF 0x600000 (fun _ => 0) = .ok (result, final) ∧
        (fat32ReadLogged (deliverSectors smallDisk) smallFs 0x300000 0x400000 fuel
          ⟨2, 5, 0, false⟩ 1 0xFFFFFFFF 0x600000 (fun _ => 0)).1 = events) ∧
      StoredChain smallDisk smallFs 2 [2] ∧ result = 511 ∧ written (copies events) = 511 ∧
      ¬ WithinFile ⟨2, 5, 0, false⟩ 1 0xFFFFFFFF 0x600000 result events := by
  have geometry := mounted_small_clusters small_mounted (by decide) (by decide)
  obtain ⟨events, final, runs, _, copied, _⟩ := @fat32_read_delivered smallDisk smallFs 0x300000
    0x400000 geometry ⟨2, 5, 0, false⟩ 1 0xFFFFFFFF 0x600000 (fun _ => 0) (by decide)
  have made : readRounds smallDisk smallFs ⟨2, 5, 0, false⟩ 1 0xFFFFFFFF = [⟨2, 1, 511⟩] := by
    decide +kernel
  rw [made] at runs copied
  have count : written (copies events) = 511 := by
    rw [copied]
    rfl
  refine ⟨_, 511, final, events, runs, small_chain, rfl, count, ?_⟩
  intro within
  have bounded := within.bounded
  rw [count] at bounded
  revert bounded
  decide

theorem read_within_small :
    ∃ needed result final events,
      (∀ fuel, needed ≤ fuel →
        fat32Read (deliverSectors chainDisk) chainFs 0x300000 0x400000 fuel ⟨2, 600, 0, false⟩ 500
          200 0x600000 (fun _ => 0) = .ok (result, final) ∧
        (fat32ReadLogged (deliverSectors chainDisk) chainFs 0x300000 0x400000 fuel
          ⟨2, 600, 0, false⟩ 500 200 0x600000 (fun _ => 0)).1 = events) ∧
      (WithinFile ⟨2, 600, 0, false⟩ 500 200 0x600000 result events ↔
        ¬ Overruns chainDisk chainFs ⟨2, 600, 0, false⟩ 500 200) :=
  read_within_iff (mounted_small_clusters chain_mounted (by decide) (by decide)) 0x300000
    0x400000 ⟨2, 600, 0, false⟩ 500 200 0x600000 (by decide) (by decide) (fun _ => 0)

def badCluster : Nat := 0x0FFFFFF7

/-- The links that end a chain or belong to none: free, bad, end of chain. -/
def Mark (cluster : Nat) : Prop := cluster = 0 ∨ cluster = badCluster ∨ fatEoc ≤ cluster

def InTable (fs : Fs) (cluster : Nat) : Prop :=
  fs.fatLba ≤ u32 (fs.fatLba + u32 (cluster * 4) / 512) ∧
    u32 (fs.fatLba + u32 (cluster * 4) / 512) < fs.fatLba + fs.fatSectors

/-- A read that touches nothing but the chain of its file. -/
structure OwnClusters (disk : Nat → Byte) (fs : Fs) (file : File) (offset result : Nat)
    (events : List Event) : Prop where
  data : ∀ copy ∈ copies events, 2 ≤ copy.1 ∧ copy.1 ≠ badCluster
  reached : ∀ copy ∈ copies events, ∃ i, offset / fs.bytesPerCluster ≤ i ∧
    copy.1 = clusterAt disk fs file i ∧ ∀ h, h ≤ i → ¬ Mark (clusterAt disk fs file h)
  consulted : ∀ cluster ∈ links events, InTable fs cluster
  ended : (∃ i, i ≤ offset / fs.bytesPerCluster ∧ Mark (clusterAt disk fs file i)) → result = 0

/-- The words skipped over are in the table; and where bytes are copied at all,
no mark is skipped over and every cluster up to an end mark is one of data
whose word is in the table. -/
def KeepsToChain (disk : Nat → Byte) (fs : Fs) (file : File) (offset size : Nat) : Prop :=
  file.size ≤ offset ∨
    ((∀ i, i < offset / fs.bytesPerCluster → InTable fs (clusterAt disk fs file i)) ∧
      (size = 0 ∨ fatEoc ≤ clusterAt disk fs file (offset / fs.bytesPerCluster) ∨
        ((∀ i, i < offset / fs.bytesPerCluster → ¬ Mark (clusterAt disk fs file i)) ∧
          ∀ i, offset / fs.bytesPerCluster ≤ i →
            i * fs.bytesPerCluster < offset + min size (file.size - offset) →
            (∀ h, offset / fs.bytesPerCluster ≤ h → h ≤ i →
              clusterAt disk fs file h < fatEoc) →
            2 ≤ clusterAt disk fs file i ∧ clusterAt disk fs file i ≠ badCluster ∧
              InTable fs (clusterAt disk fs file i))))

section Chains

variable {disk : Nat → Byte} {fs : Fs}

theorem spread_clusters (dst : Nat) (rounds : List Round) :
    (spread dst rounds).map Prod.fst = rounds.map Round.cluster := by
  induction rounds generalizing dst with
  | nil => rfl
  | cons round later ih =>
      rw [spread, List.map_cons, List.map_cons, ih]

theorem read_cluster_iff (geometry : SmallClusters fs) (file : File) (offset size : Nat)
    (before : offset < file.size) (word : offset + size < 2 ^ 32) (cluster : Nat) :
    cluster ∈ (readRounds disk fs file offset size).map Round.cluster ↔
      size ≠ 0 ∧ ∃ i, offset / fs.bytesPerCluster ≤ i ∧ cluster = clusterAt disk fs file i ∧
        i * fs.bytesPerCluster < offset + min size (file.size - offset) ∧
        ∀ h, offset / fs.bytesPerCluster ≤ h → h ≤ i → clusterAt disk fs file h < fatEoc := by
  have place := Nat.div_add_mod' offset fs.bytesPerCluster
  have cut : cutSize file offset size ≠ 0 ↔ size ≠ 0 := by
    rw [cut_size_exact before word]
    omega
  unfold readRounds clusterAt
  rw [mem_rounds_iff geometry.positive (geometry.offset_inside offset) (Nat.lt_succ_self _), cut,
    cut_size_exact before word, ← geometry.bytes]
  constructor
  · rintro ⟨asked, i, reached, fits, below⟩
    refine ⟨asked, offset / fs.bytesPerCluster + i, Nat.le_add_right _ _, ?_, ?_,
      (below_from_iff _ _ i).mp below⟩
    · rw [reached, follow_add]
    · rw [Nat.add_mul]
      omega
  · rintro ⟨asked, i, above, reached, fits, below⟩
    obtain ⟨steps, rfl⟩ := Nat.exists_eq_add_of_le above
    refine ⟨asked, steps, ?_, ?_, (below_from_iff _ _ steps).mpr below⟩
    · rw [reached, follow_add]
    · rw [Nat.add_mul] at fits
      omega

theorem read_rounds_empty {file : File} {offset size : Nat}
    (ended : size = 0 ∨ fatEoc ≤ clusterAt disk fs file (offset / fs.bytesPerCluster))
    (before : offset < file.size) (word : offset + size < 2 ^ 32) :
    readRounds disk fs file offset size = [] := by
  unfold readRounds
  rw [rounds, if_neg]
  rintro ⟨asked, below⟩
  rcases ended with zero | marked
  · rw [cut_size_exact before word, zero] at asked
    omega
  · omega

/-- The words consulted are those skipped over and those of the clusters copied. -/
def Consulted (disk : Nat → Byte) (fs : Fs) (file : File) (offset size : Nat)
    (events : List Event) : Prop :=
  links events = (List.range (offset / fs.bytesPerCluster)).map (clusterAt disk fs file) ++
    (readRounds disk fs file offset size).map Round.cluster

theorem keeps_of_own_clusters (geometry : SmallClusters fs) {file : File} {offset size out : Nat}
    {events : List Event} {result : Nat} (before : offset < file.size)
    (word : offset + size < 2 ^ 32) (consulted : Consulted disk fs file offset size events)
    (copied : copies events = spread out (readRounds disk fs file offset size))
    (own : OwnClusters disk fs file offset result events) :
    KeepsToChain disk fs file offset size := by
  have looked : ∀ cluster, cluster ∈ (readRounds disk fs file offset size).map Round.cluster →
      InTable fs cluster ∧ ∃ copy ∈ copies events, copy.1 = cluster := by
    intro cluster member
    constructor
    · apply own.consulted
      rw [consulted]
      exact List.mem_append_right _ member
    · rw [copied]
      rw [← spread_clusters out, List.mem_map] at member
      exact member
  right
  constructor
  · intro i below
    apply own.consulted
    rw [consulted]
    exact List.mem_append_left _ (List.mem_map_of_mem (List.mem_range.mpr below))
  · by_cases zero : size = 0
    · exact Or.inl zero
    · by_cases marked : fatEoc ≤ clusterAt disk fs file (offset / fs.bytesPerCluster)
      · exact Or.inr (Or.inl marked)
      · right
        right
        have positions := Nat.div_mul_le_self offset fs.bytesPerCluster
        constructor
        · intro i below
          have first := (read_cluster_iff geometry file offset size before word _).mpr
            ⟨zero, offset / fs.bytesPerCluster, Nat.le_refl _, rfl, by omega, fun h above upTo => by
              obtain rfl : h = offset / fs.bytesPerCluster := Nat.le_antisymm upTo above
              exact Nat.lt_of_not_le marked⟩
          obtain ⟨_, copy, made, _⟩ := looked _ first
          obtain ⟨last, behind, _, unmarked⟩ := own.reached copy made
          exact unmarked i (by omega)
        · intro i above place below
          have member := (read_cluster_iff geometry file offset size before word _).mpr
            ⟨zero, i, above, rfl, place, below⟩
          obtain ⟨inTable, copy, made, same⟩ := looked _ member
          obtain ⟨large, good⟩ := own.data copy made
          rw [same] at large good
          exact ⟨large, good, inTable⟩

theorem own_clusters_of_nothing {file : File} {offset size out : Nat} {events : List Event}
    (consulted : Consulted disk fs file offset size events)
    (copied : copies events = spread out (readRounds disk fs file offset size))
    (empty : readRounds disk fs file offset size = [])
    (skipped : ∀ i, i < offset / fs.bytesPerCluster → InTable fs (clusterAt disk fs file i)) :
    OwnClusters disk fs file offset (counts (readRounds disk fs file offset size)) events := by
  have noCopies : copies events = [] := by
    rw [copied, empty]
    rfl
  constructor
  · intro copy impossible
    rw [noCopies] at impossible
    cases impossible
  · intro copy impossible
    rw [noCopies] at impossible
    cases impossible
  · intro cluster member
    rw [consulted, empty, List.map_nil, List.append_nil] at member
    obtain ⟨i, below, rfl⟩ := List.mem_map.mp member
    exact skipped i (List.mem_range.mp below)
  · intro _
    rw [empty]
    rfl

theorem data_not_mark {cluster : Nat} (large : 2 ≤ cluster) (good : cluster ≠ badCluster)
    (data : cluster < fatEoc) : ¬ Mark cluster := by
  rintro (free | bad | ended)
  · omega
  · exact good bad
  · omega

structure CopiesFrom (disk : Nat → Byte) (fs : Fs) (file : File) (offset size i : Nat) : Prop where
  above : offset / fs.bytesPerCluster ≤ i
  place : i * fs.bytesPerCluster < offset + min size (file.size - offset)
  below : ∀ h, offset / fs.bytesPerCluster ≤ h → h ≤ i → clusterAt disk fs file h < fatEoc

section Kept

variable {file : File} {offset size : Nat}
  (unmarked : ∀ i, i < offset / fs.bytesPerCluster → ¬ Mark (clusterAt disk fs file i))
  (data : ∀ i, CopiesFrom disk fs file offset size i →
    2 ≤ clusterAt disk fs file i ∧ clusterAt disk fs file i ≠ badCluster ∧
      InTable fs (clusterAt disk fs file i))

include unmarked data

theorem clear_up_to {i : Nat} (copies : CopiesFrom disk fs file offset size i) (h : Nat)
    (upTo : h ≤ i) : ¬ Mark (clusterAt disk fs file h) := by
  by_cases early : h < offset / fs.bytesPerCluster
  · exact unmarked h early
  · have late := Nat.le_of_not_lt early
    have earlier := Nat.mul_le_mul_right fs.bytesPerCluster upTo
    have place := copies.place
    have copied : CopiesFrom disk fs file offset size h :=
      ⟨late, by omega, fun other after before => copies.below other after (by omega)⟩
    obtain ⟨large, good, _⟩ := data h copied
    exact data_not_mark large good (copied.below h late (Nat.le_refl h))

theorem round_cluster_kept (geometry : SmallClusters fs) (before : offset < file.size)
    (word : offset + size < 2 ^ 32) {cluster : Nat}
    (member : cluster ∈ (readRounds disk fs file offset size).map Round.cluster) :
    2 ≤ cluster ∧ cluster ≠ badCluster ∧ InTable fs cluster ∧
      ∃ i, offset / fs.bytesPerCluster ≤ i ∧ cluster = clusterAt disk fs file i ∧
        ∀ h, h ≤ i → ¬ Mark (clusterAt disk fs file h) := by
  obtain ⟨_, i, above, rfl, place, below⟩ :=
    (read_cluster_iff geometry file offset size before word _).mp member
  have copies : CopiesFrom disk fs file offset size i := ⟨above, place, below⟩
  obtain ⟨large, good, inTable⟩ := data i copies
  exact ⟨large, good, inTable, i, above, rfl, clear_up_to unmarked data copies⟩

end Kept

theorem own_clusters_of_keeps (geometry : SmallClusters fs) {file : File} {offset size out : Nat}
    {events : List Event} (before : offset < file.size)
    (word : offset + size < 2 ^ 32) (consulted : Consulted disk fs file offset size events)
    (copied : copies events = spread out (readRounds disk fs file offset size))
    (keeps : KeepsToChain disk fs file offset size) :
    OwnClusters disk fs file offset (counts (readRounds disk fs file offset size)) events := by
  obtain ⟨skipped, rest⟩ := keeps.resolve_left (Nat.not_le.mpr before)
  by_cases ended : size = 0 ∨ fatEoc ≤ clusterAt disk fs file (offset / fs.bytesPerCluster)
  · exact own_clusters_of_nothing consulted copied (read_rounds_empty ended before word) skipped
  · obtain ⟨unmarked, kept⟩ := (or_assoc.mpr rest).resolve_left ended
    have data : ∀ i, CopiesFrom disk fs file offset size i →
        2 ≤ clusterAt disk fs file i ∧ clusterAt disk fs file i ≠ badCluster ∧
          InTable fs (clusterAt disk fs file i) :=
      fun i copies => kept i copies.above copies.place copies.below
    have copyOf : ∀ copy ∈ copies events,
        copy.1 ∈ (readRounds disk fs file offset size).map Round.cluster := by
      intro copy made
      rw [copied] at made
      rw [← spread_clusters out]
      exact List.mem_map_of_mem made
    constructor
    · intro copy made
      obtain ⟨large, good, _⟩ :=
        round_cluster_kept unmarked data geometry before word (copyOf copy made)
      exact ⟨large, good⟩
    · intro copy made
      exact (round_cluster_kept unmarked data geometry before word (copyOf copy made)).2.2.2
    · intro cluster member
      rw [consulted] at member
      rcases List.mem_append.mp member with early | late
      · obtain ⟨i, below, rfl⟩ := List.mem_map.mp early
        exact skipped i (List.mem_range.mp below)
      · exact (round_cluster_kept unmarked data geometry before word late).2.2.1
    · rintro ⟨i, upTo, marked⟩
      have asked : size ≠ 0 := fun zero => ended (Or.inl zero)
      have positions := Nat.div_mul_le_self offset fs.bytesPerCluster
      have first : CopiesFrom disk fs file offset size (offset / fs.bytesPerCluster) := by
        constructor
        · exact Nat.le_refl _
        · omega
        · intro h above upTo
          obtain rfl : h = offset / fs.bytesPerCluster := Nat.le_antisymm upTo above
          exact Nat.lt_of_not_le fun late => ended (Or.inr late)
      exact absurd marked (clear_up_to unmarked data first i upTo)

/-- On every disk a read uses its file's own clusters and words exactly when it
keeps to the chain. -/
theorem read_own_clusters_iff (geometry : SmallClusters fs) (sector buf : Nat) (file : File)
    (offset size out : Nat) (word : offset + size < 2 ^ 32) (memory : Memory) :
    ∃ needed result final events,
      (∀ fuel, needed ≤ fuel →
        fat32Read (deliverSectors disk) fs sector buf fuel file offset size out memory =
          .ok (result, final) ∧
        (fat32ReadLogged (deliverSectors disk) fs sector buf fuel file offset size out memory).1 =
          events) ∧
      (OwnClusters disk fs file offset result events ↔ KeepsToChain disk fs file offset size) := by
  by_cases before : offset < file.size
  · obtain ⟨events, final, runs, consulted, copied, _⟩ := @fat32_read_delivered disk fs sector buf
      geometry file offset size out memory before
    exact ⟨_, _, final, events, runs, keeps_of_own_clusters geometry before word consulted copied,
      own_clusters_of_keeps geometry before word consulted copied⟩
  · refine ⟨0, 0, memory, [],
      fun fuel _ => fat32_read_past_end sector buf before size out memory fuel, ?_⟩
    constructor
    · intro _
      exact Or.inl (Nat.le_of_not_lt before)
    · intro _
      constructor
      · intro copy impossible
        cases impossible
      · intro copy impossible
        cases impossible
      · intro cluster impossible
        cases impossible
      · exact fun _ => rfl

end Chains

/-- A file of 2000 bytes with one cluster of 512: its third cluster is read, and
the mark behind the first was skipped over. -/
theorem read_behind_chain_small :
    ∃ needed result final events,
      (∀ fuel, needed ≤ fuel →
        fat32Read (deliverSectors smallDisk) smallFs 0x300000 0x400000 fuel ⟨2, 2000, 0, false⟩
          1024 10 0x600000 (fun _ => 0) = .ok (result, final) ∧
        (fat32ReadLogged (deliverSectors smallDisk) smallFs 0x300000 0x400000 fuel
          ⟨2, 2000, 0, false⟩ 1024 10 0x600000 (fun _ => 0)).1 = events) ∧
      StoredChain smallDisk smallFs 2 [2] ∧ result = 10 ∧
      ¬ OwnClusters smallDisk smallFs ⟨2, 2000, 0, false⟩ 1024 result events := by
  have geometry := mounted_small_clusters small_mounted (by decide) (by decide)
  obtain ⟨events, final, runs, _, _, _⟩ := @fat32_read_delivered smallDisk smallFs 0x300000
    0x400000 geometry ⟨2, 2000, 0, false⟩ 1024 10 0x600000 (fun _ => 0) (by decide)
  have made : readRounds smallDisk smallFs ⟨2, 2000, 0, false⟩ 1024 10 = [⟨0, 0, 10⟩] := by
    decide +kernel
  rw [made] at runs
  refine ⟨_, 10, final, events, runs, small_chain, rfl, ?_⟩
  intro own
  have ended : clusterAt smallDisk smallFs ⟨2, 2000, 0, false⟩ 1 = fatEoc := by decide +kernel
  have nothing := own.ended ⟨1, by decide, by
    rw [ended]
    exact Or.inr (Or.inr (Nat.le_refl _))⟩
  cases nothing

theorem read_own_clusters_small :
    ∃ needed result final events,
      (∀ fuel, needed ≤ fuel →
        fat32Read (deliverSectors chainDisk) chainFs 0x300000 0x400000 fuel ⟨2, 600, 0, false⟩ 500
          200 0x600000 (fun _ => 0) = .ok (result, final) ∧
        (fat32ReadLogged (deliverSectors chainDisk) chainFs 0x300000 0x400000 fuel
          ⟨2, 600, 0, false⟩ 500 200 0x600000 (fun _ => 0)).1 = events) ∧
      (OwnClusters chainDisk chainFs ⟨2, 600, 0, false⟩ 500 result events ↔
        KeepsToChain chainDisk chainFs ⟨2, 600, 0, false⟩ 500 200) :=
  read_own_clusters_iff (mounted_small_clusters chain_mounted (by decide) (by decide)) 0x300000
    0x400000 ⟨2, 600, 0, false⟩ 500 200 0x600000 (by decide) (fun _ => 0)

end LumenOS.Fat32ReadBounds
