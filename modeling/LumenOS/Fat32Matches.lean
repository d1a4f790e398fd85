import LumenOS.Fat32Records

/-!
# Which entry a search settles on

The clusters of a directory are those linked to its first one, below the end
mark. A search that returns has met the first record with the name among the
bytes of these clusters, and the entry it hands out is that record. Whether the
record is in use is another matter: the test for deleted entries has no effect,
and volume labels are not tested for.
-/

namespace LumenOS.Fat32Matches

open LumenOS.ByteMemory LumenOS.StringModel LumenOS.Fat32Model LumenOS.Fat32Delivery
open LumenOS.Fat32Layout LumenOS.Fat32Slice LumenOS.Fat32Trace LumenOS.Fat32Volume
open LumenOS.Fat32Records

set_option autoImplicit false

section Directories

variable (disk : Nat → Byte) (fs : Fs)

def linkedClusters : Nat → Nat → List Nat
  | 0, _ => []
  | count + 1, cl =>
      if cl < fatEoc then cl :: linkedClusters count (diskLink disk fs cl) else []

def linkedContent (clusters : List Nat) : List Byte := clusters.flatMap (clusterBytes disk fs)

def linkedRecords (clusters : List Nat) : List Record :=
  records (clusters.length * (fs.sectorsPerCluster * 16)) (linkedContent disk fs clusters)

def dataRecords (clusters : List Nat) : List Record :=
  records (clusters.length * (fs.sectorsPerCluster * 16)) (dataContent disk fs clusters)

def LinkedChain : Nat → List Nat → Prop
  | first, [] => fatEoc ≤ first
  | first, cluster :: clusters => first = cluster ∧ cluster < fatEoc ∧
      LinkedChain (diskLink disk fs cluster) clusters

variable {disk fs}

theorem linked_clusters_chain {first : Nat} {clusters : List Nat}
    (chain : LinkedChain disk fs first clusters) {count : Nat} (enough : clusters.length ≤ count) :
    linkedClusters disk fs count first = clusters := by
  induction clusters generalizing first count with
  | nil =>
      have marked : fatEoc ≤ first := chain
      cases count with
      | zero => rfl
      | succ count => exact if_neg (Nat.not_lt.mpr marked)
  | cons cluster clusters ih =>
      obtain ⟨rfl, below, rest⟩ := chain
      rw [List.length_cons] at enough
      obtain ⟨count, rfl⟩ : ∃ less, count = less + 1 := ⟨count - 1, by omega⟩
      rw [linkedClusters, if_pos below, ih rest (by omega)]

theorem data_chain_linked {first : Nat} {clusters : List Nat}
    (chain : DataChain disk fs first clusters) : LinkedChain disk fs first clusters := by
  induction clusters generalizing first with
  | nil => exact chain
  | cons cluster clusters ih =>
      obtain ⟨rfl, _, below, rest⟩ := chain
      refine ⟨rfl, below, ih ?_⟩
      rw [disk_link_table below]
      exact rest

theorem data_chain_clusters {first : Nat} {clusters : List Nat}
    (chain : DataChain disk fs first clusters) :
    ∀ cluster ∈ clusters, 2 ≤ cluster ∧ cluster < fatEoc := by
  induction clusters generalizing first with
  | nil =>
      intro cluster impossible
      cases impossible
  | cons cluster clusters ih =>
      obtain ⟨_, data, below, rest⟩ := chain
      exact List.forall_mem_cons.mpr ⟨⟨data, below⟩, ih rest⟩

/-- The sectors that the code computes for data clusters are theirs. -/
theorem linked_records_data {clusters : List Nat}
    (data : ∀ cluster ∈ clusters, 2 ≤ cluster ∧ cluster < fatEoc) :
    linkedRecords disk fs clusters = dataRecords disk fs clusters := by
  have content : linkedContent disk fs clusters = dataContent disk fs clusters :=
    List.flatMap_congr fun cluster member =>
      cluster_bytes_data (data cluster member).1 (data cluster member).2
  rw [linkedRecords, dataRecords, content]

end Directories

section Searches

variable {disk : Nat → Byte} {fs : Fs} {name83 : List Byte}

/-- What a logged search does when the bytes of `length` clusters are met: with
fewer clusters than rounds it has seen the end of the chain. -/
def MeetsClusters (searched : List Event × Except Stop (Int × Option File × Memory))
    (length fuel : Nat) : Meeting → Prop
  | .nothing => chosen searched.1 = [] ∧
      if length < fuel then ∃ final, searched.2 = .ok (-1, none, final)
      else searched.2 = .error .stillRunning
  | .endMark => chosen searched.1 = [] ∧ ∃ final, searched.2 = .ok (-1, none, final)
  | .entry found => ∃ dirent final, chosen searched.1 = [dirent] ∧
      searched.2 = .ok (0, some (recordFile found), final) ∧ dirent.name = found.name ∧
      dirent.attr = found.attr ∧ direntFile dirent = recordFile found

theorem loaded_entries (geometry : SmallClusters fs) (buf cluster : Nat) (memory : Memory) :
    readBytes (deliverSectors disk (clusterToLba fs cluster) fs.sectorsPerCluster buf memory).2
      (buf + 32 * 0) (32 * (fs.bytesPerCluster / 32)) = clusterBytes disk fs cluster := by
  have limit := geometry.small
  have size : 32 * (fs.bytesPerCluster / 32) = fs.sectorsPerCluster * 512 := by
    rw [geometry.bytes]
    omega
  rw [size, Nat.mul_zero, Nat.add_zero]
  exact deliver_read disk _ fs.sectorsPerCluster buf memory (by omega)

theorem cluster_bytes_length (cluster : Nat) :
    (clusterBytes disk fs cluster).length = 32 * (fs.sectorsPerCluster * 16) := by
  rw [clusterBytes, window_length]
  omega

theorem meet_no_clusters (name83 : List Byte) :
    meet name83 (([] : List Nat).length * (fs.sectorsPerCluster * 16)) (linkedContent disk fs []) =
      .nothing := by
  rw [List.length_nil, Nat.zero_mul]
  rfl

theorem meet_clusters_cons (name83 : List Byte) (cluster : Nat) (clusters : List Nat) :
    meet name83 ((cluster :: clusters).length * (fs.sectorsPerCluster * 16))
        (linkedContent disk fs (cluster :: clusters)) =
      match meet name83 (fs.sectorsPerCluster * 16) (clusterBytes disk fs cluster) with
      | .nothing => meet name83 (clusters.length * (fs.sectorsPerCluster * 16))
          (linkedContent disk fs clusters)
      | ended => ended := by
  have count : (cluster :: clusters).length * (fs.sectorsPerCluster * 16) =
      fs.sectorsPerCluster * 16 + clusters.length * (fs.sectorsPerCluster * 16) := by
    rw [List.length_cons, Nat.succ_mul, Nat.add_comm]
  have content : linkedContent disk fs (cluster :: clusters) =
      clusterBytes disk fs cluster ++ linkedContent disk fs clusters := rfl
  have split := @meet_append name83 (fs.sectorsPerCluster * 16)
    (clusters.length * (fs.sectorsPerCluster * 16)) (clusterBytes disk fs cluster)
    (linkedContent disk fs clusters) (cluster_bytes_length cluster)
  rw [count, content]
  refine split.trans ?_
  cases meet name83 (fs.sectorsPerCluster * 16) (clusterBytes disk fs cluster) <;> rfl

/-- A round in which nothing is met comes before the rest of the search. -/
theorem meets_later {searched : List Event × Except Stop (Int × Option File × Memory)}
    {length fuel : Nat} {meeting : Meeting} (front : List Event) (quiet : chosen front = [])
    (later : MeetsClusters searched length fuel meeting) :
    MeetsClusters (front ++ searched.1, searched.2) (length + 1) (fuel + 1) meeting := by
  have same : chosen (front ++ searched.1) = chosen searched.1 := by
    rw [chosen_append, quiet, List.nil_append]
  cases meeting with
  | nothing =>
      obtain ⟨quietLater, ended⟩ := later
      refine ⟨same.trans quietLater, ?_⟩
      by_cases seen : length < fuel
      · rw [if_pos seen] at ended
        rw [if_pos (Nat.succ_lt_succ seen)]
        exact ended
      · rw [if_neg seen] at ended
        rw [if_neg (fun more => seen (Nat.lt_of_succ_lt_succ more))]
        exact ended
  | endMark => exact ⟨same.trans later.1, later.2⟩
  | entry found =>
      obtain ⟨dirent, final, one, rest⟩ := later
      exact ⟨dirent, final, same.trans one, rest⟩

theorem find_logged_meets (short : name83.length = 11) (geometry : SmallClusters fs)
    (sector buf fuel cl : Nat) (memory : Memory) :
    MeetsClusters
      (findFromLogged (deliverSectors disk) fs sector buf name83 fuel cl memory)
      (linkedClusters disk fs fuel cl).length fuel
      (meet name83 ((linkedClusters disk fs fuel cl).length * (fs.sectorsPerCluster * 16))
        (linkedContent disk fs (linkedClusters disk fs fuel cl))) := by
  induction fuel generalizing cl memory with
  | zero =>
      rw [linkedClusters, meet_no_clusters]
      exact ⟨rfl, rfl⟩
  | succ fuel ih =>
      by_cases data : cl < fatEoc
      · have met := scan_logged_meets short
          (deliverSectors disk (clusterToLba fs cl) fs.sectorsPerCluster buf memory).2 buf
          (fs.bytesPerCluster / 32) 0
        rw [loaded_entries geometry] at met
        rw [findFromLogged, if_pos data, linkedClusters, if_pos data, meet_clusters_cons]
        dsimp only
        rw [geometry.records] at met ⊢
        cases scanned : meet name83 (fs.sectorsPerCluster * 16) (clusterBytes disk fs cl) with
        | nothing =>
            rw [scanned] at met
            obtain ⟨quiet, passes⟩ := met
            rw [passes]
            dsimp only
            rw [List.length_cons, fat_next_delivered]
            refine meets_later _ ?_ (ih _ _)
            rw [chosen_append, chosen_next, List.append_nil]
            exact quiet
        | endMark =>
            rw [scanned] at met
            obtain ⟨quiet, ends⟩ := met
            rw [ends]
            exact ⟨quiet, _, rfl⟩
        | entry found =>
            rw [scanned] at met
            obtain ⟨dirent, one, ends, fields⟩ := met
            rw [ends]
            exact ⟨dirent, _, one, rfl, fields⟩
      · rw [findFromLogged, if_neg data, linkedClusters, if_neg data, meet_no_clusters]
        refine ⟨rfl, ?_⟩
        rw [List.length_nil, if_pos (Nat.succ_pos fuel)]
        exact ⟨memory, rfl⟩

theorem find_returns_first (short : name83.length = 11) (geometry : SmallClusters fs)
    (handle : File) {clusters : List Nat}
    (chain : LinkedChain disk fs handle.firstCluster clusters) (sector buf : Nat)
    (memory : Memory) {fuel : Nat} (enough : clusters.length < fuel) :
    ∃ final, fat32Find (deliverSectors disk) fs sector buf fuel handle name83 memory =
      .ok (match (linkedRecords disk fs clusters).find? (Matches name83) with
        | some entry => (0, some (recordFile entry), final)
        | none => (-1, none, final)) := by
  have met := @find_logged_meets disk fs name83 short geometry sector buf fuel
    handle.firstCluster memory
  rw [linked_clusters_chain chain (Nat.le_of_lt enough)] at met
  unfold linkedRecords
  rw [← meet_records, ← fat32_find_logged]
  cases meeting : meet name83 (clusters.length * (fs.sectorsPerCluster * 16))
      (linkedContent disk fs clusters) with
  | nothing =>
      rw [meeting] at met
      obtain ⟨_, ended⟩ := met
      rw [if_pos enough] at ended
      exact ended
  | endMark =>
      rw [meeting] at met
      exact met.2
  | entry found =>
      rw [meeting] at met
      obtain ⟨_, final, _, ended, _⟩ := met
      exact ⟨final, ended⟩

end Searches

/-- Over every finite chain of data clusters a search gives the first record of
the directory that has the name and is no piece of a long name, or refuses. -/
theorem fat32_find_first {disk : Nat → Byte} {fs : Fs} (geometry : SmallClusters fs)
    (handle : File) (clusters : List Nat)
    (chain : DataChain disk fs handle.firstCluster clusters) (name83 : List Byte)
    (short : name83.length = 11) (sector buf : Nat) (memory : Memory) :
    ∃ needed, ∀ fuel, needed ≤ fuel →
      ∃ final, fat32Find (deliverSectors disk) fs sector buf fuel handle name83 memory =
        .ok (match (dataRecords disk fs clusters).find? (Matches name83) with
          | some entry => (0, some (recordFile entry), final)
          | none => (-1, none, final)) := by
  refine ⟨clusters.length + 1, ?_⟩
  intro fuel enough
  rw [← linked_records_data (data_chain_clusters chain)]
  exact find_returns_first short geometry handle (data_chain_linked chain) sector buf memory enough

def helloName : List Byte := [72, 101, 108, 108, 111, 0, 0, 0, 0, 0, 0]

theorem chain_data : DataChain chainDisk chainFs 2 [2, 3] := by
  refine ⟨rfl, by decide, by decide, by decide +kernel, by decide, by decide, ?_⟩
  change fatEoc ≤ tableLink chainDisk chainFs 3
  decide +kernel

/-- The first record of the second cluster is found. -/
theorem fat32_find_first_small :
    ∃ needed, ∀ fuel, needed ≤ fuel →
      ∃ final, fat32Find (deliverSectors chainDisk) chainFs 0x300000 0x400000 fuel
        ⟨2, 0, 0, true⟩ helloName (fun _ => 0) = .ok (0, some ⟨0, 0, 0, false⟩, final) := by
  have first : (dataRecords chainDisk chainFs [2, 3]).find? (Matches helloName) =
      some ⟨helloName, 0, 0, 0⟩ := by decide +kernel
  have found := fat32_find_first
    (mounted_small_clusters chain_mounted (by decide) (by decide)) ⟨2, 0, 0, true⟩ [2, 3]
    chain_data helloName rfl 0x300000 0x400000 (fun _ => 0)
  rw [first] at found
  exact found

section Liveness

variable {disk : Nat → Byte} {fs : Fs} {name83 : List Byte}

/-- An entry in use that is no piece of a long name and no volume label. -/
structure LiveEntry (entry : Dirent) : Prop where
  kept : entry.name.head? ≠ some 0xE5
  whole : entry.attr ≠ 0x0F
  noLabel : entry.attr &&& 0x08 = 0

/-- Whenever a search returns 0, the entry it describes is live. -/
def FindsLive (disk : Nat → Byte) (fs : Fs) (sector buf : Nat) (handle : File)
    (name83 : List Byte) (memory : Memory) : Prop :=
  ∀ fuel file final,
    fat32Find (deliverSectors disk) fs sector buf fuel handle name83 memory =
      .ok (0, some file, final) →
    ∃ entry, file = direntFile entry ∧ LiveEntry entry ∧
      chosen (fat32FindLogged (deliverSectors disk) fs sector buf fuel handle name83 memory).1 =
        [entry]

/-- Every deleted record and every volume label that a search for the name
would take stands behind a live record with the name. -/
def DeadBehindLive (disk : Nat → Byte) (fs : Fs) (handle : File) (name83 : List Byte) : Prop :=
  ∀ count before entry after,
    linkedRecords disk fs (linkedClusters disk fs count handle.firstCluster) =
      before ++ entry :: after →
    Matches name83 entry → ¬ entry.IsLive →
    ∃ earlier ∈ before, Matches name83 earlier ∧ earlier.IsLive

theorem live_entry_iff {entry : Dirent} {found : Record} (name : entry.name = found.name)
    (attr : entry.attr = found.attr) : LiveEntry entry ↔ found.IsLive := by
  constructor
  · intro live
    unfold Record.IsLive
    rw [← name, ← attr]
    exact ⟨live.kept, live.noLabel⟩
  · rintro ⟨kept, noLabel⟩
    rw [← name] at kept
    rw [← attr] at noLabel
    refine ⟨kept, ?_, noLabel⟩
    intro piece
    rw [piece] at noLabel
    exact absurd noLabel (by decide)

/-- The first match has a property exactly when no match without it comes
before every match that has it. -/
theorem find_some_iff_behind {α : Type} (wanted : α → Bool) (good : α → Prop) (items : List α) :
    (∀ item, items.find? wanted = some item → good item) ↔
      ∀ before item after, items = before ++ item :: after → wanted item → ¬ good item →
        ∃ earlier ∈ before, wanted earlier ∧ good earlier := by
  constructor
  · intro first before item after split matched bad
    subst split
    cases found : before.find? wanted with
    | none =>
        have taken : (before ++ item :: after).find? wanted = some item := by
          rw [List.find?_append, found, List.find?_cons, matched]
          rfl
        exact absurd (first item taken) bad
    | some earlier =>
        have taken : (before ++ item :: after).find? wanted = some earlier := by
          rw [List.find?_append, found]
          rfl
        exact ⟨earlier, List.mem_of_find?_eq_some found, List.find?_some found,
          first earlier taken⟩
  · intro behind item found
    by_contra bad
    obtain ⟨matched, before, after, split, passed⟩ := List.find?_eq_some_iff_append.mp found
    obtain ⟨earlier, member, also, _⟩ := behind before item after split matched bad
    have not := passed earlier member
    rw [also] at not
    exact absurd not (by decide)

/-- The first record with the name, as far as some clusters go, is live if every
entry that is found is. -/
theorem first_match_live (geometry : SmallClusters fs) (sector buf : Nat) (handle : File)
    (short : name83.length = 11) (memory : Memory)
    (live : FindsLive disk fs sector buf handle name83 memory) (count : Nat) (found : Record)
    (first : (linkedRecords disk fs (linkedClusters disk fs count handle.firstCluster)).find?
      (Matches name83) = some found) : found.IsLive := by
  have meets := @find_logged_meets disk fs name83 short geometry sector buf count
    handle.firstCluster memory
  unfold linkedRecords at first
  rw [← meet_records] at first
  cases meeting : meet name83
      ((linkedClusters disk fs count handle.firstCluster).length * (fs.sectorsPerCluster * 16))
      (linkedContent disk fs (linkedClusters disk fs count handle.firstCluster)) with
  | nothing =>
      rw [meeting] at first
      cases first
  | endMark =>
      rw [meeting] at first
      cases first
  | entry record =>
      rw [meeting] at first meets
      obtain rfl := Option.some.inj first
      obtain ⟨dirent, final, one, ended, name, attr, _⟩ := meets
      have returned := ended
      rw [find_from_logged] at returned
      obtain ⟨entry, _, entryLive, only⟩ := live count _ final returned
      obtain rfl : dirent = entry := List.head_eq_of_cons_eq (one.symm.trans only)
      exact (live_entry_iff name attr).mp entryLive

theorem finds_live_of_first (geometry : SmallClusters fs) (sector buf : Nat) (handle : File)
    (short : name83.length = 11) (memory : Memory)
    (first : ∀ count found,
      (linkedRecords disk fs (linkedClusters disk fs count handle.firstCluster)).find?
        (Matches name83) = some found → found.IsLive) :
    FindsLive disk fs sector buf handle name83 memory := by
  intro fuel file final returned
  have meets := @find_logged_meets disk fs name83 short geometry sector buf fuel
    handle.firstCluster memory
  have firstLive := first fuel
  unfold linkedRecords at firstLive
  rw [← meet_records] at firstLive
  rw [← fat32_find_logged] at returned
  unfold fat32FindLogged at returned
  cases meeting : meet name83
      ((linkedClusters disk fs fuel handle.firstCluster).length * (fs.sectorsPerCluster * 16))
      (linkedContent disk fs (linkedClusters disk fs fuel handle.firstCluster)) with
  | nothing =>
      rw [meeting] at meets
      obtain ⟨_, ended⟩ := meets
      rw [returned] at ended
      split_ifs at ended
      obtain ⟨_, impossible⟩ := ended
      cases impossible
  | endMark =>
      rw [meeting] at meets
      obtain ⟨_, _, ended⟩ := meets
      rw [returned] at ended
      cases ended
  | entry record =>
      rw [meeting] at firstLive meets
      obtain ⟨dirent, last, one, ended, name, attr, described⟩ := meets
      rw [returned] at ended
      refine ⟨dirent, ?_, (live_entry_iff name attr).mpr (firstLive record rfl), one⟩
      rw [described]
      cases ended
      rfl

/-- A search finds live entries only exactly when the dead ones with the name
stand behind a live one. -/
theorem finds_live_iff (geometry : SmallClusters fs) (sector buf : Nat) (handle : File)
    (name83 : List Byte) (short : name83.length = 11) (memory : Memory) :
    FindsLive disk fs sector buf handle name83 memory ↔
      DeadBehindLive disk fs handle name83 := by
  have behind := fun count => find_some_iff_behind (Matches name83) Record.IsLive
    (linkedRecords disk fs (linkedClusters disk fs count handle.firstCluster))
  constructor
  · intro live count
    exact (behind count).mp
      (first_match_live geometry sector buf handle short memory live count)
  · intro dead
    apply finds_live_of_first geometry sector buf handle short memory
    intro count
    exact (behind count).mpr (dead count)

end Liveness

def deletedDisk : Nat → Byte := fun i => if i = 1024 then 0xE5 else smallDisk i

def deletedFs : Fs := mountedFs 0 (diskBpb deletedDisk 0)

def deletedName : List Byte := [0xE5, 101, 108, 108, 111, 0, 0, 0, 0, 0, 0]

theorem deleted_mounted : Mounted deletedDisk deletedFs :=
  mount_delivered deletedDisk 0x500000 0 (fun _ => 0) (by decide) (by decide)

/-- The deleted record is found. -/
theorem deleted_entry_found :
    LinkedChain deletedDisk deletedFs 2 [2] ∧ deletedName.length = 11 ∧
      (∃ file final, fat32Find (deliverSectors deletedDisk) deletedFs 0x300000 0x400000 2
        ⟨2, 0, 0, true⟩ deletedName (fun _ => 0) = .ok (0, some file, final)) ∧
      ¬ FindsLive deletedDisk deletedFs 0x300000 0x400000 ⟨2, 0, 0, true⟩ deletedName
        (fun _ => 0) := by
  have geometry := mounted_small_clusters deleted_mounted (by decide) (by decide)
  have chain : LinkedChain deletedDisk deletedFs 2 [2] := by
    refine ⟨rfl, by decide, ?_⟩
    change fatEoc ≤ diskLink deletedDisk deletedFs 2
    decide +kernel
  have met := @find_logged_meets deletedDisk deletedFs deletedName rfl geometry 0x300000 0x400000
    2 2 (fun _ => 0)
  rw [linked_clusters_chain chain (by decide)] at met
  have taken : meet deletedName (([2] : List Nat).length * (deletedFs.sectorsPerCluster * 16))
      (linkedContent deletedDisk deletedFs [2]) = .entry ⟨deletedName, 0, 0, 0⟩ := by
    decide +kernel
  rw [taken] at met
  obtain ⟨dirent, final, one, ended, name, _⟩ := met
  have returned := ended
  rw [find_from_logged] at returned
  refine ⟨chain, rfl, ⟨_, final, returned⟩, ?_⟩
  intro live
  obtain ⟨entry, _, entryLive, only⟩ := live 2 _ final returned
  obtain rfl : dirent = entry := List.head_eq_of_cons_eq (one.symm.trans only)
  apply entryLive.kept
  rw [name]
  rfl

theorem finds_live_small :
    FindsLive chainDisk chainFs 0x300000 0x400000 ⟨2, 0, 0, true⟩ helloName (fun _ => 0) ↔
      DeadBehindLive chainDisk chainFs ⟨2, 0, 0, true⟩ helloName :=
  finds_live_iff (mounted_small_clusters chain_mounted (by decide) (by decide)) 0x300000 0x400000
    ⟨2, 0, 0, true⟩ helloName rfl (fun _ => 0)

end LumenOS.Fat32Matches
