import LumenOS.Fat32Slice

/-!
# What `fat32_find` and `fat32_read` do on the way

The two are repeated with a record of their accesses in order: the sectors
loaded, the words of the table consulted, the entries looked at, the bytes
handed to the caller and the entry a search settles on. Leaving the record out
gives the functions back.
-/

namespace LumenOS.Fat32Trace

open LumenOS.ByteMemory LumenOS.StringModel LumenOS.Fat32Model

set_option autoImplicit false

/-- A call of the sector primitive with the memory it leaves, a word of the
table looked up, a directory entry looked at and bytes copied out, both by
where they begin in the cluster buffer, and a directory entry chosen. -/
inductive Event where
  | load (lba count buf : Nat) (after : Memory)
  | link (cluster : Nat)
  | look (start : Nat)
  | copy (cluster off dst count : Nat)
  | choose (entry : Dirent)

section Logged

variable (diskRead : DiskRead) (fs : Fs) (sector buf : Nat)

def loading (lba count buf : Nat) (memory : Memory) : Event :=
  .load lba count buf (diskRead lba count buf memory).2

def fatNextEvents (cluster : Nat) (memory : Memory) : List Event :=
  [.link cluster, loading diskRead (u32 (fs.fatLba + u32 (cluster * 4) / 512)) 1 sector memory]

def scanEntriesLogged (memory : Memory) (name83 : List Byte) : Nat → Nat → List Event × Scan
  | 0, _ => ([], .exhausted)
  | remaining + 1, i =>
      let entry := direntAt memory (buf + 32 * i)
      let first := charValue (readByte memory (buf + 32 * i))
      let later := scanEntriesLogged memory name83 remaining (i + 1)
      if first = 0x00 then ([.look (32 * i)], .endOfDirectory)
      else if first = 0xE5 then (.look (32 * i) :: later.1, later.2)
      else if entry.attr = 0x0F then (.look (32 * i) :: later.1, later.2)
      else if memcmp entry.name name83 = 0 then
        ([.look (32 * i), .choose entry], .found (direntFile entry))
      else (.look (32 * i) :: later.1, later.2)

def findFromLogged (name83 : List Byte) :
    Nat → Nat → Memory → List Event × Except Stop (Int × Option File × Memory)
  | 0, _, _ => ([], .error .stillRunning)
  | fuel + 1, cl, memory =>
      if cl < fatEoc then
        let load := loading diskRead (clusterToLba fs cl) fs.sectorsPerCluster buf memory
        let memory := (diskRead (clusterToLba fs cl) fs.sectorsPerCluster buf memory).2
        let scanned := scanEntriesLogged buf memory name83 (fs.bytesPerCluster / 32) 0
        match scanned.2 with
        | .endOfDirectory => (load :: scanned.1, .ok (-1, none, memory))
        | .found file => (load :: scanned.1, .ok (0, some file, memory))
        | .exhausted =>
            let next := fatNext diskRead fs sector cl memory
            let later := findFromLogged name83 fuel next.1 next.2
            (load :: scanned.1 ++ fatNextEvents diskRead fs sector cl memory ++ later.1, later.2)
      else ([], .ok (-1, none, memory))

def fat32FindLogged (fuel : Nat) (dir : File) (name83 : List Byte) (memory : Memory) :
    List Event × Except Stop (Int × Option File × Memory) :=
  findFromLogged diskRead fs sector buf name83 fuel dir.firstCluster memory

def skipClustersLogged : Nat → Nat → Memory → List Event × Nat × Memory
  | 0, cl, memory => ([], cl, memory)
  | skip + 1, cl, memory =>
      let next := fatNext diskRead fs sector cl memory
      let later := skipClustersLogged skip next.1 next.2
      (fatNextEvents diskRead fs sector cl memory ++ later.1, later.2)

def readFromLogged :
    Nat → Nat → Nat → Nat → Nat → Memory → List Event × Except Stop (Nat × Memory)
  | 0, _, _, _, _, _ => ([], .error .stillRunning)
  | fuel + 1, cl, off, dst, remaining, memory =>
      if remaining ≠ 0 ∧ cl < fatEoc then
        let load := loading diskRead (clusterToLba fs cl) fs.sectorsPerCluster buf memory
        let memory := (diskRead (clusterToLba fs cl) fs.sectorsPerCluster buf memory).2
        let left := u32 (fs.bytesPerCluster + (2 ^ 32 - off))
        let copy := if left > remaining then remaining else left
        let memory := memcpy memory dst (buf + off) copy
        let next := fatNext diskRead fs sector cl memory
        let later := readFromLogged fuel next.1 0 (dst + copy) (remaining - copy) next.2
        (load :: .copy cl off dst copy :: fatNextEvents diskRead fs sector cl memory ++ later.1,
          later.2)
      else ([], .ok (remaining, memory))

def fat32ReadLogged (fuel : Nat) (file : File) (offset size out : Nat) (memory : Memory) :
    List Event × Except Stop (Nat × Memory) :=
  if offset ≥ file.size then ([], .ok (0, memory))
  else
    let size := if u32 (offset + size) > file.size then file.size - offset else size
    if fs.bytesPerCluster = 0 then ([], .error .divisionByZero)
    else
      let skipped := skipClustersLogged diskRead fs sector (offset / fs.bytesPerCluster)
        file.firstCluster memory
      let copied := readFromLogged diskRead fs sector buf fuel skipped.2.1
        (offset % fs.bytesPerCluster) out size skipped.2.2
      (skipped.1 ++ copied.1, copied.2.map fun result => (size - result.1, result.2))

theorem scan_entries_logged (memory : Memory) (name83 : List Byte) (remaining i : Nat) :
    (scanEntriesLogged buf memory name83 remaining i).2 =
      scanEntries memory buf name83 remaining i := by
  induction remaining generalizing i with
  | zero => rfl
  | succ remaining ih =>
      rw [scanEntriesLogged, scanEntries, ← ih]
      split_ifs <;> rfl

theorem find_from_logged (name83 : List Byte) (fuel cl : Nat) (memory : Memory) :
    (findFromLogged diskRead fs sector buf name83 fuel cl memory).2 =
      findFrom diskRead fs sector buf name83 fuel cl memory := by
  induction fuel generalizing cl memory with
  | zero => rfl
  | succ fuel ih =>
      rw [findFromLogged, findFrom]
      by_cases data : cl < fatEoc
      · rw [if_pos data, if_pos data]
        dsimp only
        rw [scan_entries_logged]
        generalize (diskRead (clusterToLba fs cl) fs.sectorsPerCluster buf memory).2 = loaded
        cases scanEntries loaded buf name83 (fs.bytesPerCluster / 32) 0 with
        | endOfDirectory => rfl
        | found file => rfl
        | exhausted => exact ih _ _
      · rw [if_neg data, if_neg data]

theorem fat32_find_logged (fuel : Nat) (dir : File) (name83 : List Byte) (memory : Memory) :
    (fat32FindLogged diskRead fs sector buf fuel dir name83 memory).2 =
      fat32Find diskRead fs sector buf fuel dir name83 memory :=
  find_from_logged diskRead fs sector buf name83 fuel dir.firstCluster memory

theorem skip_clusters_logged (skip cl : Nat) (memory : Memory) :
    (skipClustersLogged diskRead fs sector skip cl memory).2 =
      skipClusters diskRead fs sector skip cl memory := by
  induction skip generalizing cl memory with
  | zero => rfl
  | succ skip ih => exact ih _ _

theorem read_from_logged (fuel cl off dst remaining : Nat) (memory : Memory) :
    (readFromLogged diskRead fs sector buf fuel cl off dst remaining memory).2 =
      readFrom diskRead fs sector buf fuel cl off dst remaining memory := by
  induction fuel generalizing cl off dst remaining memory with
  | zero => rfl
  | succ fuel ih =>
      rw [readFromLogged, readFrom]
      by_cases more : remaining ≠ 0 ∧ cl < fatEoc
      · rw [if_pos more, if_pos more]
        exact ih _ _ _ _ _
      · rw [if_neg more, if_neg more]

theorem fat32_read_logged (fuel : Nat) (file : File) (offset size out : Nat) (memory : Memory) :
    (fat32ReadLogged diskRead fs sector buf fuel file offset size out memory).2 =
      fat32Read diskRead fs sector buf fuel file offset size out memory := by
  unfold fat32ReadLogged fat32Read
  dsimp only
  by_cases beyond : offset ≥ file.size
  · rw [if_pos beyond, if_pos beyond]
  · rw [if_neg beyond, if_neg beyond]
    by_cases zero : fs.bytesPerCluster = 0
    · rw [if_pos zero, if_pos zero]
    · rw [if_neg zero, if_neg zero]
      dsimp only
      rw [read_from_logged, skip_clusters_logged]

end Logged

def links (events : List Event) : List Nat :=
  events.filterMap fun event => match event with
    | .link cluster => some cluster
    | _ => none

def copies (events : List Event) : List (Nat × Nat × Nat) :=
  events.filterMap fun event => match event with
    | .copy cluster _ dst count => some (cluster, dst, count)
    | _ => none

def chosen (events : List Event) : List Dirent :=
  events.filterMap fun event => match event with
    | .choose entry => some entry
    | _ => none

@[simp] theorem links_append (left right : List Event) :
    links (left ++ right) = links left ++ links right := List.filterMap_append

@[simp] theorem copies_append (left right : List Event) :
    copies (left ++ right) = copies left ++ copies right := List.filterMap_append

@[simp] theorem chosen_append (left right : List Event) :
    chosen (left ++ right) = chosen left ++ chosen right := List.filterMap_append

section Steps

variable (diskRead : DiskRead) (fs : Fs) (sector cluster : Nat) (memory : Memory)

@[simp] theorem links_next : links (fatNextEvents diskRead fs sector cluster memory) = [cluster] :=
  rfl

@[simp] theorem copies_next : copies (fatNextEvents diskRead fs sector cluster memory) = [] := rfl

@[simp] theorem chosen_next : chosen (fatNextEvents diskRead fs sector cluster memory) = [] := rfl

end Steps

end LumenOS.Fat32Trace
